import Mathlib.Data.List.Sort
import RdltConnectors.Postgres.Vocabulary
import RdltConnectors.Postgres.Errors
import RdltConnectors.Postgres.Literal

/-!
# The incremental tracker

A cursor stream is read in cursor order, in batches. The tracker drops the rows a
resumed window fetches again, follows the last cursor value and the keys of the
rows that share it, and hands out a checkpoint after each batch.
-/
namespace Cursor

open PgTypes

/-- A row's key: one component a key column, `none` for SQL NULL. -/
abbrev Key := List (Option String)

/-- A row as the tracker decodes it, with the value the server has stored in its
cursor column. -/
structure Row (D : Type) where
  key : Key
  cursor : Option Scalar
  stored : D
  deriving DecidableEq, Repr

/-- The persisted resume state. No keys: resume strictly past the watermark. -/
structure State where
  watermark : Scalar
  boundaryKeys : List Key
  deriving DecidableEq, Repr

structure Spec where
  directionMax : Bool
  stored : Option State
  /-- stream and column, when a NULL cursor is an error -/
  nullError : Option (String × String)
  stream : String
  cursorColumn : String
  deriving DecidableEq, Repr

structure Tracker where
  spec : Spec
  inBoundary : Bool
  lastValue : Option Scalar
  /-- keys of the rows sharing the last value -/
  runKeys : List Key
  emitted : Option (Scalar × Nat)
  dedupedRows : Nat
  deriving DecidableEq, Repr

def Tracker.new (spec : Spec) : Tracker := ⟨spec, true, none, [], none, 0⟩

/-- Past the reference, in the direction of the read. -/
def beyond (directionMax : Bool) (candidate reference : Scalar) : Bool :=
  if directionMax then decide (reference < candidate) else decide (candidate < reference)

def Tracker.isBeyond (t : Tracker) (candidate reference : Scalar) : Bool :=
  beyond t.spec.directionMax candidate reference

/-! ## Key order -/

def componentLe : Option String → Option String → Bool
  | none, _ => true
  | some _, none => false
  | some a, some b => decide (a ≤ b)

def keyLe : Key → Key → Bool
  | [], _ => true
  | _ :: _, [] => false
  | a :: as, b :: bs => if a = b then keyLe as bs else componentLe a b

/-- Equal neighbours merged. -/
def dedupNeighbours : List Key → List Key
  | [] => []
  | [key] => [key]
  | first :: second :: rest =>
    if first = second then dedupNeighbours (second :: rest)
    else first :: dedupNeighbours (second :: rest)

def sortDedup (keys : List Key) : List Key := dedupNeighbours (keys.insertionSort fun a b => keyLe a b = true)

/-! ## One batch -/

variable {D : Type}

instance lawfulKey : LawfulBEq Key := inferInstance

/-- Drops the row if the stored state covers it; past the stored watermark no row
is looked up again. -/
def Tracker.screenRow (t : Tracker) (row : Row D) : Tracker × Bool :=
  match t.inBoundary, row.cursor, t.spec.stored with
  | true, some value, some stored =>
    if t.isBeyond value stored.watermark then ({ t with inBoundary := false }, true)
    else if value = stored.watermark ∧ row.key ∈ stored.boundaryKeys then
      ({ t with dedupedRows := t.dedupedRows + 1 }, false)
    else (t, true)
  | _, _, _ => (t, true)

def Tracker.screen (t : Tracker) : List (Row D) → Tracker × List (Row D)
  | [] => (t, [])
  | row :: rows =>
    let (t', keep) := t.screenRow row
    let (t'', kept) := t'.screen rows
    (t'', if keep then row :: kept else kept)

def Tracker.outOfOrder (t : Tracker) : SourceError :=
  ⟨.copy, some t.spec.stream, s!"cursor column `{t.spec.cursorColumn}` produced an out-of-order row: the read stream broke the ordering its resume watermark depends on"⟩

/-- NULL cursors are never tracked. -/
def Tracker.trackRow (t : Tracker) (row : Row D) : Except SourceError Tracker :=
  match row.cursor, t.lastValue with
  | none, _ => .ok t
  | some value, some last =>
    if last = value then .ok { t with runKeys := t.runKeys ++ [row.key] }
    else if t.isBeyond value last then
      .ok { t with lastValue := some value, runKeys := [row.key] }
    else .error t.outOfOrder
  | some value, none => .ok { t with lastValue := some value, runKeys := [row.key] }

def Tracker.track (t : Tracker) : List (Row D) → Except SourceError Tracker
  | [] => .ok t
  | row :: rows => do
    let t' ← t.trackRow row
    t'.track rows

/-- The last value seen and its keys; `none` when nothing advanced. -/
def Tracker.currentState (t : Tracker) : Option State :=
  match t.lastValue with
  | none => none
  | some last =>
    match t.spec.stored with
    | none => some ⟨last, t.runKeys⟩
    | some stored =>
      if t.isBeyond last stored.watermark = false ∧ last ≠ stored.watermark then none
      else if last = stored.watermark then
        if t.runKeys.isEmpty then none
        else some ⟨last, sortDedup (t.runKeys ++ stored.boundaryKeys)⟩
      else some ⟨last, t.runKeys⟩

/-- The final checkpoint; an exclusive boundary strips its keys. -/
def Tracker.finalState (t : Tracker) (keepKeys : Bool) : Option State :=
  t.currentState.map fun state => if keepKeys then state else { state with boundaryKeys := [] }

def nullCursor (stream column : String) : SourceError :=
  ⟨.copy, some stream, s!"cursor column `{column}` contains a NULL value and `nulls: error` is configured — NULL cursors are a data-contract violation under this policy (exclude/include accept them)"⟩

/-- A checkpoint is not handed out twice in a row. -/
def Tracker.checkpoint (t : Tracker) : Tracker × Option State :=
  match t.currentState with
  | none => (t, none)
  | some state =>
    if t.emitted = some (state.watermark, state.boundaryKeys.length) then (t, none)
    else ({ t with emitted := some (state.watermark, state.boundaryKeys.length) }, some state)

/-- The batch itself if nothing was dropped, nothing if all of it was. -/
def survivingRows (batch kept : List (Row D)) : Option (List (Row D)) :=
  if kept.length = batch.length then some batch
  else if kept.isEmpty then none
  else some kept

/-- The surviving rows and the checkpoint that covers them. -/
def Tracker.process (t : Tracker) (batch : List (Row D)) :
    Except SourceError (Tracker × Option (List (Row D)) × Option State) :=
  match t.spec.nullError, batch.any fun row => row.cursor.isNone with
  | some (stream, column), true => .error (nullCursor stream column)
  | _, _ => do
    let (screened, kept) := t.screen batch
    let tracked ← screened.track kept
    let (t', checkpoint) := tracked.checkpoint
    pure (t', survivingRows batch kept, checkpoint)

/-! ## The window -/

inductive Bound where
  | inclusive
  | exclusive
  deriving DecidableEq, Repr

inductive NullPolicy where
  | exclude
  | include
  | error
  deriving DecidableEq, Repr

structure CursorConfig where
  column : String
  initialValue : Option String
  boundary : Bound
  directionMax : Bool
  endValue : Option String
  endBound : Bound
  nulls : NullPolicy
  /-- the SQL delta the window is widened by -/
  lag : Option String
  deriving DecidableEq, Repr

structure CursorFacts where
  kind : Kind
  config : CursorConfig
  deriving DecidableEq, Repr

inductive Comparison where
  | ge | gt | le | lt
  deriving DecidableEq, Repr

/-- The window: comparisons of the cursor column with rendered bounds, what
becomes of NULLs, and the direction of the order. NULLs come first. -/
structure IncrementalClauses where
  predicates : List (Comparison × String)
  nullsInclude : Bool
  ascending : Bool
  deriving DecidableEq, Repr

def lowerOperator (directionMax closed : Bool) : Comparison :=
  match directionMax, closed with
  | true, true => .ge
  | true, false => .gt
  | false, true => .le
  | false, false => .lt

def upperOperator (directionMax inclusive : Bool) : Comparison :=
  match directionMax, inclusive with
  | true, false => .lt
  | true, true => .le
  | false, false => .gt
  | false, true => .ge

def lowerBound (directionMax : Bool) (lag : Option String) (value : Scalar) : String :=
  match lag with
  | some delta =>
    let sign := if directionMax then "-" else "+"
    s!"({render value} {sign} {delta})"
  | none => render value

def incrementalClauses (directionMax : Bool) (lower : Option (Scalar × Bool))
    (lag : Option String) (upper : Option (Scalar × Bool)) (nullsInclude : Bool) :
    IncrementalClauses :=
  ⟨(lower.map fun (value, closed) =>
      (lowerOperator directionMax closed, lowerBound directionMax lag value)).toList ++
    (upper.map fun (value, inclusive) =>
      (upperOperator directionMax inclusive, render value)).toList,
    nullsInclude, directionMax⟩

structure Incremental where
  tracker : Tracker
  keepFinalKeys : Bool
  clauses : IncrementalClauses
  deriving DecidableEq, Repr

def scaleChanged (stream : String) (storedScale scale : Nat) : SourceError :=
  ⟨.reflect, some stream, s!"stored cursor watermark carries numeric scale {storedScale} but the                  column now has scale {scale} — the cursor column's type changed; reset                  the pipeline state to take a fresh initial load"⟩

/-- A decimal watermark compares as a number at a fixed scale only. -/
def checkScale (kind : Kind) (stored : Option State) (stream : String) :
    Except SourceError Unit :=
  match kind, stored.map State.watermark with
  | .decimal _ scale, some (.decimal _ storedScale) =>
    if storedScale = scale then .ok () else .error (scaleChanged stream storedScale scale)
  | _, _ => .ok ()

/-- A configured literal, as the scalar it parses to. -/
def parseLiteral (parseScalar : Kind → String → Except String Scalar) (kind : Kind)
    (stream : String) : Option String → Except SourceError (Option Scalar)
  | none => .ok none
  | some text =>
    match parseScalar kind text with
    | .error detail => .error ⟨.reflect, some stream, detail⟩
    | .ok value => .ok (some value)

/-- The lower bound: of a resumed window the watermark, closed if the state has
keys; of a first window the configured initial value. -/
def lowerOf (parseScalar : Kind → String → Except String Scalar) (facts : CursorFacts)
    (stored : Option State) (stream : String) : Except SourceError (Option (Scalar × Bool)) :=
  match stored with
  | some state => .ok (some (state.watermark, !state.boundaryKeys.isEmpty))
  | none => do
    let initial ← parseLiteral parseScalar facts.kind stream facts.config.initialValue
    pure (initial.map fun value => (value, decide (facts.config.boundary = .inclusive)))

/-- The read plan. A lag forces a resumed window closed. -/
def prepare (parseScalar : Kind → String → Except String Scalar) (facts : CursorFacts)
    (stored : Option State) (stream : String) : Except SourceError Incremental := do
  checkScale facts.kind stored stream
  let config := facts.config
  let lower ← lowerOf parseScalar facts stored stream
  let upper ← parseLiteral parseScalar facts.kind stream config.endValue
  let lag := if stored.isSome then config.lag else none
  let lower := if lag.isSome then lower.map fun bound => (bound.1, true) else lower
  pure {
    tracker := .new {
      directionMax := config.directionMax
      stored := stored
      nullError := if config.nulls = .error then some (stream, config.column) else none
      stream := stream
      cursorColumn := config.column }
    keepFinalKeys := decide (config.boundary = .inclusive)
    clauses := incrementalClauses config.directionMax lower lag
      (upper.map fun value => (value, decide (config.endBound = .inclusive)))
      (decide (config.nulls ≠ .exclude)) }

/-! ## A read -/

inductive Push (D : Type) where
  | rows (batch : List (Row D))
  | checkpoint (state : State)
  deriving DecidableEq, Repr

/-- What a read handed to the feed, in order, and how it ended. A crash or a
cancellation leaves the destination with a prefix of it. -/
structure Read (D : Type) where
  pushes : List (Push D)
  result : Except SourceError Unit

/-- The batch is pushed before the checkpoint that covers it. -/
def trackedPushes (surviving : Option (List (Row D))) (checkpoint : Option State) :
    List (Push D) :=
  (surviving.map Push.rows).toList ++ (checkpoint.map Push.checkpoint).toList

/-- The end of the stream: an empty batch if none was pushed, and the final
checkpoint. -/
def finish (t : Tracker) (keepFinalKeys pushedAny : Bool) : List (Push D) :=
  (if pushedAny then [] else [.rows []]) ++ ((t.finalState keepFinalKeys).map Push.checkpoint).toList

def readBatches (keepFinalKeys : Bool) (t : Tracker) (pushedAny : Bool) :
    List (List (Row D)) → Read D
  | [] => ⟨finish t keepFinalKeys pushedAny, .ok ()⟩
  | batch :: batches =>
    match t.process batch with
    | .error e => ⟨[], .error e⟩
    | .ok (t', surviving, checkpoint) =>
      let rest := readBatches keepFinalKeys t' (pushedAny || surviving.isSome) batches
      ⟨trackedPushes surviving checkpoint ++ rest.pushes, rest.result⟩

def Incremental.read (plan : Incremental) (batches : List (List (Row D))) : Read D :=
  readBatches plan.keepFinalKeys plan.tracker false batches

end Cursor
