import RdltConnectors.Cdc.Slot

/-!
# Reading streams over one slot

A read is two locked sections with the passes between them, during which other
streams, the destination and the server move on. The system here is everything
that shares a slot: the server, the runs with their configured tables, the
attempts of a run, the reads under way, and the cursors the destination holds.
Reads may fail, be dropped, or outlive their attempt, and a run may end anywhere.
-/
namespace Cdc

open PgTypes Interrupted

variable {V : Type}

deriving instance DecidableEq for Pass

structure Config (V : Type) where
  builder : ColumnBuilder V
  cdc : CdcConfig
  context : String → StreamContext

/-- Where a read stands between its locked sections. A tail's passes are those
of the first one over and over. -/
inductive Progress (V : Type) where
  | snapshotting (start : Nat)
  | snapshotted (start : Nat)
  | changing (since target : Nat) (tail : Bool)
  | delivering (since : Nat) (emits : List (Emit V)) (result : Except SourceError Unit)
      (cursor : Nat) (tail : Bool)
  | passed (cursor : Nat)
  | tailing (cursor : Nat)
  | failed
  deriving DecidableEq

/-! ## The lifecycle section -/

def recreatedSlotError (cdc : CdcConfig) (stream : String) (point since : Nat) : SourceError :=
  let at_ := renderLsn point
  let cursor := renderLsn since
  ⟨.slot, some stream, s!"replication slot `{cdc.slot}` was created THIS run at {at_} but this stream resumes from {cursor} — the feed cannot cover that gap; reset the pipeline state so the stream takes a fresh snapshot instead of resuming past a recreated slot"⟩

def initPending (tables : List String) : Locked Unit :=
  modify fun s => { s with state := { s.state with
    pending := some (s.state.pending.getD tables) } }

def ensured (cdc : CdcConfig) (tables : List String) : Locked EnsureOutcome := do
  let s ← get
  match s.state.ensured with
  | some outcome => pure outcome
  | none =>
    let outcome ← ensure cdc tables
    modify fun s => { s with state := { s.state with ensured := some outcome } }
    pure outcome

/-- A slot created this run cannot cover a stream that resumes from before it. -/
def checkCovered (cdc : CdcConfig) (stream : String) (outcome : EnsureOutcome) (since : Nat) :
    Locked Unit :=
  match outcome.createdSlot, outcome.consistentPoint with
  | true, some point =>
    if since < point then throw (recreatedSlotError cdc stream point since) else pure ()
  | _, _ => pure ()

/-- The consistent point if this run created the slot, else the visibility
horizon of the shared snapshot. -/
def snapshotStart (outcome : EnsureOutcome) : Locked Nat := do
  let s ← get
  match outcome.consistentPoint, s.state.snapshotHorizon with
  | some point, _ => pure point
  | none, some horizon => pure horizon
  | none, none => currentWalLsn

/-- The run's target, pinned by its first change pass. -/
def pinTarget : Locked Nat := do
  let s ← get
  match s.state.target with
  | some target => pure target
  | none =>
    let target ← currentWalLsn
    modify fun s => { s with state := { s.state with target := some target } }
    pure target

def floorAt (stream : String) (lsn : Nat) : Locked Unit :=
  modify fun s => { s with state := { s.state with
    ackFloor := s.state.ackFloor.insert stream lsn } }

def beginRead (cdc : CdcConfig) (tables : List String) (stream : String) (since : Option Nat) :
    Locked (Progress V) := do
  initPending tables
  control
  let outcome ← ensured cdc tables
  match since with
  | none =>
    let start ← snapshotStart outcome
    snapshot start
    pure (.snapshotting start)
  | some since =>
    checkCovered cdc stream outcome since
    let target ← pinTarget
    floorAt stream since
    pure (.changing since target false)

/-! ## The completion section -/

def acknowledge (cdc : CdcConfig) (ackFloor : Option Nat) : Locked Unit :=
  match cdc.ack, ackFloor with
  | .auto, some floor => do
    let confirmed ← confirmedFlushLsn
    if floor > confirmed then advance floor else pure ()
  | _, _ => pure ()

/-- The acknowledgement, then how far the feed is ahead of the least-advanced
stream. -/
def acknowledgeAndReport (cdc : CdcConfig) (ackFloor committedFloor : Option Nat) :
    Locked (Option Nat) := do
  acknowledge cdc ackFloor
  let head ← currentWalLsn
  pure (committedFloor.map fun committed => head - committed)

def finishStream (stream : String) (cursor : Nat) : Locked Unit :=
  modify fun s => { s with state := { s.state with
    finalCursor := s.state.finalCursor.insert stream cursor
    pending := s.state.pending.map fun pending => pending.filter fun other => other != stream } }

/-- The last stream of the run to get here closes the snapshot and acknowledges. -/
def finishRun (cdc : CdcConfig) : Locked (Option Nat) := do
  let s ← get
  if s.state.pending = some [] then
    modify fun s => { s with state := s.state.closeSnapshot }
    acknowledgeAndReport cdc s.state.ackFloor.min? s.state.finalCursor.min?
  else pure none

/-- After a snapshot the start is the stream's floor from here on. -/
def completeSnapshot (cdc : CdcConfig) (stream : String) (start : Nat) : Locked (Option Nat) := do
  floorAt stream start
  finishStream stream start
  finishRun cdc

def completePass (cdc : CdcConfig) (stream : String) (cursor : Nat) : Locked (Option Nat) := do
  finishStream stream cursor
  finishRun cdc

/-! ## The system -/

/-- A read, and whether the attempt it belongs to is still the one under way. -/
structure Task (V : Type) where
  stream : String
  live : Bool
  progress : Progress V
  deriving DecidableEq

structure World (V : Type) where
  server : Server
  tables : List String
  state : RunState
  /-- the streams read in this attempt -/
  started : List String
  tasks : List (Task V)
  /-- the checkpoints this attempt has handed over -/
  handed : String → List Nat
  /-- the cursors the destination holds -/
  committed : String → Option Nat

inductive Label where
  /-- a transaction of someone else, and what operators do to slot and publication -/
  | work (work : Work)
  | publish (publication : Option (List String))
  | occupy (activePid : Option Int) (walStatus : Option String)
  | createSlot (plugin : String)
  | dropSlot
  /-- a new run, with nothing left of the one before -/
  | run (tables : List String)
  /-- a new attempt of the same run: the state stays -/
  | retry
  | read (stream : String) (calls : List (List Work)) (lost : SourceError)
  | copy (task : Nat)
  | peek (task : Nat)
  | deliver (task : Nat)
  | complete (task : Nat) (calls : List (List Work)) (lost : SourceError)
  | tail (task : Nat)
  | fail (task : Nat)
  /-- the error path's own section -/
  | dropConnections (task : Nat)
  /-- the read is dropped where it stands -/
  | abandon (task : Nat)
  /-- the destination commits up to a checkpoint it was handed -/
  | store (stream : String) (lsn : Nat)
  deriving DecidableEq

def World.enter (w : World V) (calls : List (List Work)) (lost : SourceError) : Section :=
  ⟨w.server, w.state, calls, lost⟩

def World.leave (w : World V) (s : Section) : World V :=
  { w with server := s.server, state := s.state }

def World.set (w : World V) (task : Nat) (t : Task V) (progress : Progress V) : World V :=
  { w with tasks := w.tasks.set task { t with progress := progress } }

def World.erase (w : World V) (task : Nat) : World V :=
  { w with tasks := w.tasks.eraseIdx task }

/-- Only the attempt under way has anyone listening. -/
def World.hand (w : World V) (t : Task V) (lsn : Nat) : World V :=
  if t.live then { w with handed := Function.update w.handed t.stream (lsn :: w.handed t.stream) }
  else w

def ended (tail : Bool) (cursor : Nat) : Progress V :=
  if tail then .tailing cursor else .passed cursor

/-- After completion: the read is over, or it tails. -/
def World.completed (w : World V) (cdc : CdcConfig) (task : Nat) (t : Task V) (cursor : Nat)
    (outcome : Except SourceError (Option Nat)) : World V :=
  match outcome with
  | .error _ => w.set task t .failed
  | .ok _ => if cdc.mode = .tail then w.set task t (.tailing cursor) else w.erase task

/-- One bounded catch-up pass over the slot as it stands. -/
def passAt (config : Config V) (server : Server) (stream : String) (since target : Nat) :
    Option (Pass V) :=
  (server.peek target).map fun messages =>
    changePass config.builder (config.context stream) stream since target messages

def World.peek (config : Config V) (w : World V) (task : Nat) (t : Task V)
    (since target : Nat) (tail : Bool) : World V :=
  if target > since then
    match passAt config w.server t.stream since target with
    | none => w.set task t .failed
    | some pass => w.set task t (.delivering since pass.emits pass.result (max target since) tail)
  else w.set task t (ended tail (max target since))

def World.deliver (w : World V) (task : Nat) (t : Task V) (since : Nat) (emits : List (Emit V))
    (result : Except SourceError Unit) (cursor : Nat) (tail : Bool) : World V :=
  match emits, result with
  | [], .ok _ => w.set task t (ended tail cursor)
  | [], .error _ => w.set task t .failed
  | .batch _ :: emits, result => w.set task t (.delivering since emits result cursor tail)
  | .checkpoint lsn :: emits, result =>
    (w.hand t lsn).set task t (.delivering since emits result cursor tail)

/-- A step of one read. -/
def World.stepTask (config : Config V) (w : World V) (task : Nat) (t : Task V) :
    Label → World V
  | .copy _ =>
    match t.progress with
    | .snapshotting start => (w.hand t start).set task t (.snapshotted start)
    | _ => w
  | .peek _ =>
    match t.progress with
    | .changing since target tail => w.peek config task t since target tail
    | _ => w
  | .deliver _ =>
    match t.progress with
    | .delivering since emits result cursor tail => w.deliver task t since emits result cursor tail
    | _ => w
  | .complete _ calls lost =>
    match t.progress with
    | .snapshotted start =>
      let (outcome, s) := exec (completeSnapshot config.cdc t.stream start) (w.enter calls lost)
      (w.leave s).completed config.cdc task t start outcome
    | .passed cursor =>
      let (outcome, s) := exec (completePass config.cdc t.stream cursor) (w.enter calls lost)
      (w.leave s).completed config.cdc task t cursor outcome
    | _ => w
  | .tail _ =>
    match t.progress with
    | .tailing cursor => (w.hand t cursor).set task t (.changing cursor w.server.wal true)
    | _ => w
  | .fail _ => w.set task t .failed
  | .dropConnections _ =>
    match t.progress with
    | .failed => { w with state := w.state.dropConnections }.erase task
    | _ => w
  | .abandon _ => w.erase task
  | _ => w

def World.read (config : Config V) (w : World V) (stream : String) (calls : List (List Work))
    (lost : SourceError) : World V :=
  let (outcome, s) := exec (beginRead config.cdc w.tables stream (w.committed stream))
    (w.enter calls lost)
  let progress : Progress V :=
    match outcome with
    | .ok progress => progress
    | .error _ => .failed
  { w.leave s with
    started := stream :: w.started
    tasks := w.tasks ++ [⟨stream, true, progress⟩] }

def World.run (w : World V) (tables : List String) : World V :=
  { w with tables := tables, state := .default, started := [], tasks := [], handed := fun _ => [] }

/-- Reads of the attempt before may still be under way. -/
def World.retry (w : World V) : World V :=
  { w with
    started := []
    tasks := w.tasks.map fun t => { t with live := false }
    handed := fun _ => [] }

/-- The read a label is about. -/
def Label.task : Label → Option Nat
  | .copy task => some task
  | .peek task => some task
  | .deliver task => some task
  | .complete task _ _ => some task
  | .tail task => some task
  | .fail task => some task
  | .dropConnections task => some task
  | .abandon task => some task
  | _ => none

def step (config : Config V) (w : World V) (label : Label) : World V :=
  match label with
  | .work work => { w with server := w.server.commit work }
  | .publish publication => { w with server := { w.server with publication := publication } }
  | .occupy activePid walStatus =>
    { w with server := { w.server with slot := w.server.slot.map fun slot =>
        { slot with activePid := activePid, walStatus := walStatus } } }
  | .createSlot plugin =>
    if w.server.slot.isNone then { w with server := w.server.createSlot plugin } else w
  | .dropSlot => { w with server := { w.server with slot := none } }
  | .run tables => w.run tables
  | .retry => w.retry
  | .read stream calls lost =>
    if stream ∈ w.tables ∧ stream ∉ w.started then w.read config stream calls lost else w
  | .store stream lsn =>
    if lsn ∈ w.handed stream ∧ ∀ c, w.committed stream = some c → c ≤ lsn then
      { w with committed := Function.update w.committed stream (some lsn) }
    else w
  | label =>
    match label.task.bind fun task => (w.tasks[task]?).map fun t => (task, t) with
    | some (task, t) => w.stepTask config task t label
    | none => w

def World.initial : World V :=
  ⟨⟨0, [], none, none⟩, [], .default, [], [], fun _ => [], fun _ => none⟩

end Cdc
