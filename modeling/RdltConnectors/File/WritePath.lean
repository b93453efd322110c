import Mathlib
import RdltConnectors.File.Layout
import RdltConnectors.Library.Entries
import RdltConnectors.Library.Fallible

/-!
# The write path of the file destination

A batch is split by its partition column, and each group joins the open part of its table and
partition. A part is closed when the schema changes, when it is large or old enough, when all
open parts together are too large, and at the commit; closing one stages it. The encoders and
the staging area are a parameter.
-/
namespace FileWrite

open FileLease (DestinationError)
open FileLoad (DestFormat partitionSlug stagedName stagingTail)
open Entries

variable {S R : Type}

/-! ## Thresholds -/

/-- When a part is closed and the next one begun. -/
structure Options where
  targetBytes : Option Nat
  rollAfterSeconds : Option Nat
  maxOpenBytes : Option Nat
  deriving DecidableEq, Repr

def Options.overBudget (options : Options) (totalOpenBytes : Nat) : Bool :=
  options.maxOpenBytes.any fun budget => decide (totalOpenBytes > max budget 1)

/-- Any threshold is reached. -/
def Options.shouldRoll (options : Options) (encodedBytes openForSecs : Nat) : Bool :=
  (options.targetBytes.any fun target => decide (encodedBytes ≥ max target 1)) ||
    (decide (encodedBytes > 0) &&
      options.rollAfterSeconds.any fun secs => decide (openForSecs ≥ secs))

/-! ## Batches and parts -/

structure Batch (S R : Type) where
  schema : S
  rows : List R
  deriving DecidableEq, Repr

/-- A part still being written. -/
structure OpenPart (S R : Type) where
  format : DestFormat
  /-- of the batch it was begun for -/
  schema : S
  appended : List (Batch S R)
  deriving DecidableEq, Repr

def OpenPart.rows (part : OpenPart S R) : List R := part.appended.flatMap Batch.rows

/-- What identifies a part. -/
@[ext] structure PartKey where
  table : String
  partition : Option String
  deriving Repr

/-- By table, then by partition, none first. -/
def PartKey.ranked (key : PartKey) : String ×ₗ WithBot String :=
  toLex (key.table, (key.partition : WithBot String))

theorem ranked_injective : Function.Injective PartKey.ranked := by
  intro a b h
  have hpair := Prod.mk.inj (toLex.injective h)
  cases a
  cases b
  obtain ⟨rfl, hpartition⟩ := hpair
  exact congrArg _ hpartition

instance : LinearOrder PartKey := LinearOrder.lift' PartKey.ranked ranked_injective

structure StagedPart (S R : Type) where
  key : PartKey
  index : Nat
  stagingTail : String
  /-- what the staged file was written from -/
  part : OpenPart S R

/-- The session's part of the state that rows go through. -/
structure Load (S R : Type) where
  format : DestFormat
  partitionBy : Option String
  scope : String
  loadId : String
  parts : Options
  staged : List (StagedPart S R)
  /-- every open part with the second it was begun in -/
  openParts : List (PartKey × (OpenPart S R × Nat))

/-- The rendering of partition values, the encoders of parts and the staging area. -/
structure Host (S R : Type) where
  hasColumn : S → String → Bool
  columnsText : S → String
  formatter : S → String → Except String Unit
  render : S → String → R → Except String (Option String)
  newWriter : S → Except String Unit
  encode : OpenPart S R → Batch S R → Except String Unit
  encodedLen : OpenPart S R → Nat
  finish : OpenPart S R → Except String (List UInt8)
  stagePut : String → List UInt8 → Except DestinationError Unit

variable (host : Host S R)

/-! ## Splitting a batch -/

/-- The directory of one row. -/
def slugAt (column : String) (schema : S) (row : R) (index : Nat) :
    Except DestinationError String :=
  match host.render schema column row with
  | .error e => .error (.fatal s!"partition value at row {index}: {e}")
  | .ok value =>
    if index < 2 ^ 32 then .ok (partitionSlug value)
    else .error
      (.fatal s!"partition value at row {index}: out of range integral type conversion attempted")

/-- The rows by directory, in the order of the directories. -/
def groupRows (column : String) (schema : S) :
    List (R × Nat) → List (String × List R) → Except DestinationError (List (String × List R))
  | [], groups => .ok groups
  | (row, index) :: rest, groups => do
    let slug ← slugAt host column schema row index
    groupRows column schema rest (place slug ((find slug groups).getD [] ++ [row]) groups)

/-- Split one batch by the partition column, or hand it back whole. -/
def splitPartitions (table : String) (batch : Batch S R) (partitionBy : Option String) :
    Except DestinationError (List (Option String × Batch S R)) :=
  match partitionBy with
  | none => .ok [(none, batch)]
  | some column =>
    if host.hasColumn batch.schema column then
      match host.formatter batch.schema column with
      | .error e => .error (.fatal s!"partition column `{column}`: {e}")
      | .ok () => do
        let groups ← groupRows host column batch.schema batch.rows.zipIdx []
        return groups.map fun (slug, rows) => (some slug, ⟨batch.schema, rows⟩)
    else .error (.fatal s!"partition_by column `{column}` does not exist in stream `{table}` (columns: {host.columnsText batch.schema})")

/-! ## Parts -/

def encodeError {α : Type} (format : DestFormat) (result : Except String α) :
    Except DestinationError α :=
  result.mapError fun e =>
    match format with
    | .parquet => .fatal s!"parquet encode: {e}"
    | .jsonl => .fatal s!"jsonl encode: {e}"

def OpenPart.start (format : DestFormat) (batch : Batch S R) :
    Except DestinationError (OpenPart S R) :=
  match format with
  | .parquet => (encodeError .parquet (host.newWriter batch.schema)).map fun () =>
      ⟨.parquet, batch.schema, []⟩
  | .jsonl => .ok ⟨.jsonl, batch.schema, []⟩

/-- Only parquet has one schema in a file. -/
def OpenPart.schemaDiffers [DecidableEq S] (part : OpenPart S R) (batch : Batch S R) : Bool :=
  match part.format with
  | .parquet => decide (part.schema ≠ batch.schema)
  | .jsonl => false

def OpenPart.append (part : OpenPart S R) (batch : Batch S R) :
    Except DestinationError (OpenPart S R) :=
  (encodeError part.format (host.encode part batch)).map fun () =>
    { part with appended := part.appended ++ [batch] }

namespace Load

def stagedOf (load : Load S R) (key : PartKey) : List (StagedPart S R) :=
  load.staged.filter fun part => part.key = key

/-- Close one open part and stage it. -/
def closePart (load : Load S R) (key : PartKey) : Except DestinationError (Load S R) :=
  match find key load.openParts with
  | none => .ok load
  | some (part, _) => do
    let closed := { load with openParts := remove key load.openParts }
    let bytes ← encodeError part.format (host.finish part)
    if bytes.isEmpty then return closed
    else
      let index := (load.stagedOf key).length
      let name := stagedName key.table key.partition index load.format.extension
      let tail := stagingTail load.scope load.loadId name
      host.stagePut tail bytes
      return { closed with staged := load.staged ++ [⟨key, index, tail, part⟩] }

def openBytes (load : Load S R) : Nat :=
  (load.openParts.map fun entry => host.encodedLen entry.2.1).sum

/-- The later of two entries, unless the earlier is larger. -/
def larger (best : Option (PartKey × (OpenPart S R × Nat)))
    (entry : PartKey × (OpenPart S R × Nat)) : Option (PartKey × (OpenPart S R × Nat)) :=
  match best with
  | none => some entry
  | some other =>
    if host.encodedLen other.2.1 ≤ host.encodedLen entry.2.1 then some entry else some other

/-- The key of the largest open part. -/
def largest (openParts : List (PartKey × (OpenPart S R × Nat))) : Option PartKey :=
  (openParts.foldl (larger host) none).map Prod.fst

/-! ## The budget -/

variable {host} {load load' : Load S R} {key : PartKey}

theorem larger_mem {best : Option (PartKey × (OpenPart S R × Nat))}
    {entry picked : PartKey × (OpenPart S R × Nat)} (h : larger host best entry = some picked) :
    best = some picked ∨ entry = picked := by
  cases best with
  | none => exact .inr (Option.some.inj h)
  | some other =>
    rw [larger] at h
    split at h
    · exact .inr (Option.some.inj h)
    · exact .inl h

theorem foldl_larger_mem {entries : List (PartKey × (OpenPart S R × Nat))}
    {best : Option (PartKey × (OpenPart S R × Nat))} {picked : PartKey × (OpenPart S R × Nat)}
    (h : entries.foldl (larger host) best = some picked) : best = some picked ∨ picked ∈ entries := by
  induction entries generalizing best with
  | nil => exact .inl h
  | cons entry entries ih =>
    obtain hbest | hmem := ih h
    · obtain hbest | rfl := larger_mem hbest
      · exact .inl hbest
      · exact .inr List.mem_cons_self
    · exact .inr (List.mem_cons_of_mem _ hmem)

theorem largest_open {openParts : List (PartKey × (OpenPart S R × Nat))}
    (h : largest host openParts = some key) : find key openParts ≠ none := by
  obtain ⟨entry, hpicked, rfl⟩ := Option.map_eq_some_iff.1 h
  obtain hnone | hmem := foldl_larger_mem hpicked
  · cases hnone
  · exact find_ne_none_of_mem hmem

/-- An open part as the next staged one of its key. -/
def staging (load : Load S R) (key : PartKey) (part : OpenPart S R) : StagedPart S R :=
  ⟨key, (load.stagedOf key).length, stagingTail load.scope load.loadId
    (stagedName key.table key.partition (load.stagedOf key).length load.format.extension), part⟩

@[simp] theorem staging_key (load : Load S R) (key : PartKey) (part : OpenPart S R) :
    (load.staging key part).key = key := rfl

/-- Closing a part: what was open under the key is staged, or held no bytes. -/
theorem closePart_cases (h : load.closePart host key = .ok load') :
    (find key load.openParts = none ∧ load' = load) ∨
    ∃ part openedAt bytes, find key load.openParts = some (part, openedAt) ∧
      host.finish part = .ok bytes ∧
      ((bytes = [] ∧ load' = { load with openParts := remove key load.openParts }) ∨
        load' = { load with
          openParts := remove key load.openParts
          staged := load.staged ++ [load.staging key part] }) := by
  rw [closePart] at h
  split at h
  · rename_i hnone
    exact .inl ⟨hnone, (Except.ok.inj h).symm⟩
  · rename_i part openedAt hopen
    obtain ⟨bytes, hbytes, h⟩ := Fallible.bind_ok.1 h
    refine .inr ⟨part, openedAt, bytes, hopen, Fallible.mapError_ok.1 hbytes, ?_⟩
    split at h
    · rename_i hempty
      exact .inl ⟨List.isEmpty_iff.1 hempty, (Except.ok.inj h).symm⟩
    · obtain ⟨-, -, h⟩ := Fallible.bind_ok.1 h
      exact .inr (Except.ok.inj h).symm

theorem closePart_openParts (h : load.closePart host key = .ok load') :
    load'.openParts = load.openParts ∧ find key load.openParts = none ∨
      load'.openParts = remove key load.openParts := by
  obtain ⟨hnone, rfl⟩ | ⟨part, openedAt, bytes, -, -, ⟨-, rfl⟩ | rfl⟩ := closePart_cases h
  · exact .inl ⟨rfl, hnone⟩
  · exact .inr rfl
  · exact .inr rfl

theorem closePart_shorter (hopen : find key load.openParts ≠ none)
    (h : load.closePart host key = .ok load') :
    load'.openParts.length < load.openParts.length := by
  obtain ⟨-, hnone⟩ | hopenParts := closePart_openParts h
  · exact absurd hnone hopen
  · rw [hopenParts]
    exact length_remove_lt hopen

variable (host)

/-- Keep the open parts inside their ceiling. Each pass closes one part, so the loop ends. -/
def enforceOpenBudget (load : Load S R) : Except DestinationError (Load S R) :=
  if load.parts.overBudget (load.openBytes host) then
    match _hlargest : largest host load.openParts with
    | none => .ok load
    | some key =>
      match _hclosed : load.closePart host key with
      | .error e => .error e
      | .ok closed => enforceOpenBudget closed
  else .ok load
  termination_by load.openParts.length
  decreasing_by exact closePart_shorter (largest_open _hlargest) _hclosed

def closeAllParts (load : Load S R) : Except DestinationError (Load S R) :=
  (load.openParts.map Prod.fst).foldlM (closePart host) load

/-! ## Writing -/

variable [DecidableEq S]

/-- A parquet file carries one schema, so a schema change closes the part. -/
def closeOnSchemaChange (load : Load S R) (key : PartKey) (batch : Batch S R) :
    Except DestinationError (Load S R) :=
  if (find key load.openParts).any fun entry => entry.1.schemaDiffers batch then
    load.closePart host key
  else .ok load

/-- The open part of a key, or one begun for the batch. -/
def openFor (load : Load S R) (key : PartKey) (batch : Batch S R) (now : Nat) :
    Except DestinationError (OpenPart S R × Nat) :=
  match find key load.openParts with
  | some existing => .ok existing
  | none => (OpenPart.start host load.format batch).map fun part => (part, now)

def join (load : Load S R) (key : PartKey) (part : OpenPart S R) (openedAt : Nat) : Load S R :=
  { load with openParts := place key (part, openedAt) (remove key load.openParts) }

/-- One group joins the open part of its key. The clock is read when a part is begun and when
the group has been appended. -/
def writeGroup (table : String) (clock : Option String → Nat × Nat) (load : Load S R)
    (group : Option String × Batch S R) : Except DestinationError (Load S R) := do
  let key : PartKey := ⟨table, group.1⟩
  let load ← load.closeOnSchemaChange host key group.2
  let (part, openedAt) ← load.openFor host key group.2 (clock group.1).1
  let part ← part.append host group.2
  let load := load.join key part openedAt
  if load.parts.shouldRoll (host.encodedLen part) ((clock group.1).2 - openedAt) then
    load.closePart host key
  else .ok load

def write (table : String) (batch : Batch S R) (clock : Option String → Nat × Nat)
    (load : Load S R) : Except DestinationError (Load S R) := do
  let groups ← splitPartitions host table batch load.partitionBy
  let load ← groups.foldlM (writeGroup host table clock) load
  load.enforceOpenBudget host

end Load

/-! ## Sessions -/

/-- What the engine calls. A publish that succeeds has moved every staged part, and a replay
drops what the session holds. -/
inductive Event (S R : Type) where
  | write (table : String) (batch : Batch S R) (clock : Option String → Nat × Nat)
  | publish
  | replay

def Load.step [DecidableEq S] (load : Load S R) : Event S R → Except DestinationError (Load S R)
  | .write table batch clock => load.write host table batch clock
  | .publish => do
    let load ← load.closeAllParts host
    return { load with staged := [] }
  | .replay => .ok { load with staged := [], openParts := [] }

def Load.run [DecidableEq S] (load : Load S R) (events : List (Event S R)) :
    Except DestinationError (Load S R) := events.foldlM (Load.step host) load

end FileWrite
