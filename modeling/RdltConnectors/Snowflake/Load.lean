import RdltConnectors.Snowflake.Service
import RdltConnectors.Sqlcore.Execute

/-!
# A Snowflake load session

The hooks of one session, statement by statement. Rows gather in parts that are
uploaded outside the transaction and copied at the commit, so that all a unit holds
before it are the clears of its Replace targets. Schema work that falls due inside a
unit ends it by a rollback; the clears it takes back are owed, and the next unit to
open executes them again.
-/
namespace Snowflake

open Sqlcore Interrupted

variable {R D : Type}

/-! ## Entries by key -/

/-- The entry of a key is changed, or made. -/
def adjust {κ β : Type} [DecidableEq κ] (key : κ) (change : Option β → β) :
    List (κ × β) → List (κ × β)
  | [] => [(key, change none)]
  | (k, value) :: rest =>
    if k = key then (k, change (some value)) :: rest else (k, value) :: adjust key change rest

theorem mem_adjust {κ β : Type} [DecidableEq κ] {key : κ} {change : Option β → β}
    {entries : List (κ × β)} {e : κ × β} (h : e ∈ adjust key change entries) :
    e ∈ entries ∨ e = (key, change none) ∨
      ∃ value, (key, value) ∈ entries ∧ e = (key, change (some value)) := by
  induction entries with
  | nil => exact .inr (.inl (List.mem_singleton.1 h))
  | cons head rest ih =>
    obtain ⟨k, value⟩ := head
    unfold adjust at h
    by_cases hkey : k = key
    · subst hkey
      rw [if_pos rfl] at h
      cases List.mem_cons.1 h with
      | inl h => exact .inr (.inr ⟨value, List.mem_cons_self, h⟩)
      | inr h => exact .inl (List.mem_cons_of_mem _ h)
    · rw [if_neg hkey] at h
      cases List.mem_cons.1 h with
      | inl h => exact .inl (h ▸ List.mem_cons_self)
      | inr h =>
        rcases ih h with h | h | ⟨v, hv, h⟩
        · exact .inl (List.mem_cons_of_mem _ h)
        · exact .inr (.inl h)
        · exact .inr (.inr ⟨v, List.mem_cons_of_mem _ hv, h⟩)

/-! ## The session -/

/-- The column list and the uploaded parts a COPY will name. -/
structure Pending (R : Type) where
  columns : List String
  parts : List (Part R)

namespace Pending

def addPart (part : Part R) (entry : Option (Pending R)) : Pending R :=
  match entry with
  | some entry => { entry with parts := entry.parts ++ [part] }
  | none => ⟨[], [part]⟩

def setColumns (columns : List String) (entry : Option (Pending R)) : Pending R :=
  match entry with
  | some entry => { entry with columns }
  | none => ⟨columns, []⟩

end Pending

structure Load (R : Type) where
  tables : SessionTables
  /-- targets cleared by units that committed -/
  cleared : List String
  /-- targets cleared inside the current unit -/
  clearedInUnit : List String
  /-- clears a rollback took back -/
  reclearOwed : List String
  unitOpen : Bool
  singleUnitDone : List String
  pending : List (Relation × Pending R)
  openParts : List (Relation × Part R)

/-- What is fixed for the load. How a merge arm is spelled is left open. -/
structure Config (D : Type) where
  loadId : String
  pipeline : String
  options : DestinationOptions
  mergeStatements : SessionTables → String → MergeArm → Except String (List String)
  /-- the state document of a step that writes none -/
  noState : D

/-- The service, its answers to come, and the session. -/
structure Session (R D : Type) where
  service : Service R D
  replies : List Reply
  load : Load R

abbrev Hook (R D α : Type) := Attempt (Session R D) DestinationError α

namespace Session

/-- One answer is used up. -/
def answered (s : Session R D) (effect : Service R D → Service R D) : Session R D :=
  { s with service := effect s.service, replies := s.replies.tail }

end Session

/-- A statement is sent; the session sees its answer only. -/
def send (effect : Service R D → Service R D) : Hook R D Unit := do
  let here ← get
  match here.replies.headD .done with
  | .done => modify fun s => s.answered effect
  | .refused =>
    modify fun s => s.answered id
    throw .service
  | .lost =>
    modify fun s => s.answered effect
    throw .service

def execute (statement : Statement R D) : Hook R D Unit :=
  send fun service => service.execute statement

/-- A query can fail, and changes nothing. -/
def ask {α : Type} (query : Effects R D → α) : Hook R D α := do
  send id
  let here ← get
  return query here.service.view

def change (f : Load R → Load R) : Hook R D Unit := modify fun s => { s with load := f s.load }

def theLoad : Hook R D (Load R) := do
  let here ← get
  return here.load

/-! ## The unit -/

/-- The flag is up before the instant is captured. -/
def beginIfClosed : Hook R D Unit := do
  let load ← theLoad
  if load.unitOpen then pure ()
  else
    send Service.begin
    change fun load => { load with unitOpen := true }
    send id

/-- A failing ROLLBACK is passed over. -/
def rollback : Hook R D Unit := do
  let load ← theLoad
  if load.unitOpen then
    let _ ← outcome (send Service.rollback)
    change fun load => { load with unitOpen := false }
  else pure ()

def commitUnit (reply : CommitReply) : Hook R D Unit := do
  match reply with
  | .committed =>
    modify fun s => { s with service := s.service.commit }
    change fun load => { load with unitOpen := false }
  | .refused => throw .service
  | .lost =>
    modify fun s => { s with service := s.service.commit }
    throw .service
  | .abandoned =>
    modify fun s => { s with service := s.service.rollback }
    throw .service

/-! ## Clears -/

def Load.clearedUnion (load : Load R) : List String := load.cleared ++ load.clearedInUnit

/-- The DELETE and its durable record, in one transaction. -/
def clearTarget (table : String) : Hook R D Unit := do
  execute (.deleteFrom (.target table))
  execute (.recordCleared table)
  change fun load => { load with clearedInUnit := load.clearedInUnit ++ [table] }

/-- The owed clears are taken out of the session before the first of them runs. -/
def openUnit : Hook R D Unit := do
  beginIfClosed
  let load ← theLoad
  change fun load => { load with reclearOwed := [] }
  load.reclearOwed.forM clearTarget

/-! ## Parts -/

/-- The open part of a table is uploaded and waits for the COPY. A part whose upload
fails is gone. -/
def closePart (relation : Relation) : Hook R D Unit := do
  let load ← theLoad
  match load.openParts.lookup relation with
  | none => pure ()
  | some part =>
    change fun load =>
      { load with openParts := load.openParts.filter fun e => e.1 ≠ relation }
    if part.isEmpty then pure ()
    else
      send id
      change fun load =>
        { load with pending := adjust relation (Pending.addPart part) load.pending }

def closeWhen (closes : Bool) (relation : Relation) : Hook R D Unit :=
  if closes then closePart relation else pure ()

/-- When a write closes parts: the shape changed, the part reached its size or age, and
the open parts went over their budget. -/
structure Closings where
  shape : Bool
  roll : Bool
  budget : List Relation

def appendRows (relation : Relation) (rows : Part R) : Hook R D Unit :=
  change fun load => { load with
    openParts := adjust relation (fun part => part.getD [] ++ rows) load.openParts }

/-- The column list follows the latest write. -/
def setColumns (relation : Relation) (columns : List String) : Hook R D Unit :=
  change fun load =>
    { load with pending := adjust relation (Pending.setColumns columns) load.pending }

def stageRows (relation : Relation) (columns : List String) (rows : Part R) (closings : Closings) :
    Hook R D Unit := do
  closeWhen closings.shape relation
  appendRows relation rows
  closeWhen closings.roll relation
  setColumns relation columns
  closings.budget.forM closePart

/-- Every pending part is copied. A COPY that reports another count than was written
fails the same way as one whose answer is lost. -/
def loadStagedParts : Hook R D Unit := do
  let load ← theLoad
  (load.openParts.map Prod.fst).forM closePart
  let load ← theLoad
  change fun load => { load with pending := [] }
  load.pending.forM fun entry =>
    if entry.2.parts.isEmpty then pure ()
    else execute (.copyInto entry.1 entry.2.columns entry.2.parts)

/-- What was staged is dropped; a failing REMOVE is passed over. -/
def discardStaged : Hook R D Unit := do
  change fun load => { load with openParts := [], pending := [] }
  let _ ← outcome (send (id : Service R D → Service R D))
  pure ()

/-! ## Steps -/

def executeStep (config : Config D) (metadata : CommitMeta D) (step : Step) : Hook R D Unit := do
  match step with
  | .clearTarget table => execute (.deleteFrom (.target table))
  | .upsertState => execute (.upsertState metadata.state)
  | .insertReceipt => execute (.insertReceipt metadata.loadId metadata.commitSeq)
  | .insertSelect table => execute (.insertSelect table)
  | .scopeReplace table scope => execute (.scopeReplace table scope)
  | .mergeArm table arm =>
    let load ← theLoad
    match config.mergeStatements load.tables table arm with
    | .error message => throw (.fatal message)
    | .ok statements => statements.forM fun sql => execute (.merge sql)
  | .truncateStage table => execute (.deleteFrom (.stage table))

def prepareMeta (config : Config D) : CommitMeta D := ⟨config.loadId, 0, config.pipeline, config.noState⟩

/-- The clear of a write's own target. -/
def prepare (config : Config D) (table : String) : Hook R D Unit := do
  let load ← theLoad
  let steps := prepareTarget load.tables
    { replayed := false, loadCommittedBefore := false, singleUnitDone := [], stagedNonempty := []
      fullLoadPublish := .directToTarget, clearedTargets := load.clearedUnion } table
  steps.forM fun
    | .clearTarget table => clearTarget table
    | step => executeStep config (prepareMeta config) step

/-! ## Hooks -/

/-- The statements an ensure owes, in its two phases. -/
structure SchemaWork where
  tableStatements : List String
  mergeStatements : List String

/-- Schema work ends an open unit, and its clears are owed. -/
def endUnit (work : SchemaWork) : Hook R D Unit := do
  let load ← theLoad
  if (!work.tableStatements.isEmpty || !work.mergeStatements.isEmpty) && load.unitOpen then
    rollback
    change fun load => { load with
      reclearOwed := load.reclearOwed ++ load.clearedInUnit, clearedInUnit := [] }
  else pure ()

/-- What the catalog lacks is left open. An ensure that fails before its first statement
changes nothing. -/
def ensureTable (schema : TableSchema) (mode : WriteMode) (work : SchemaWork) : Hook R D Unit := do
  endUnit work
  work.tableStatements.forM fun sql => send fun service => service.executeSchema sql
  work.mergeStatements.forM fun sql => send fun service => service.executeSchema sql
  change fun load => { load with tables := load.tables.insert schema.table (schema, mode) }

/-- Merge rows land in the stage. -/
def destinationOf (table : String) (mode : WriteMode) : Relation :=
  if mode.isMerge then .stage table else .target table

def write (config : Config D) (table : String) (rows : List R) (closings : Closings) :
    Hook R D Unit := do
  let load ← theLoad
  match load.tables.lookup table with
  | none => throw (.fatal s!"snowflake: `{table}` was written before it was ensured")
  | some (schema, mode) =>
    openUnit
    prepare config table
    if rows.isEmpty then pure ()
    else
      stageRows (destinationOf table mode) schema.columnNames
        (rows.map fun row => ⟨row, mode⟩) closings

def existingReceipt (config : Config D) (loadId : String) (seq : UInt64) : Hook R D Bool := do
  if config.loadId ≠ loadId then
    throw (.fatal s!"snowflake: session was opened for load `{config.loadId}` but is committing load `{loadId}`")
  else
    openUnit
    ask fun effects => hasReceipt effects loadId seq

/-- The unit is discarded, and its clears count as committed with the unit it repeats. -/
def replay : Hook R D Unit := do
  rollback
  change fun load => { load with
    cleared := load.cleared ++ load.clearedInUnit, clearedInUnit := [] }
  discardStaged

/-- A failed unit: rolled back, its clears forgotten and its parts dropped. -/
def abandon (error : DestinationError) : Hook R D Unit := do
  rollback
  change fun load => { load with clearedInUnit := [] }
  discardStaged
  throw error

def probeStaged (config : Config D) : Hook R D (List String) := do
  let load ← theLoad
  (stagedProbeTargets load.tables config.options).filterM fun table =>
    ask fun effects => decide (0 < stagedRows effects table)

def planUnit (config : Config D) (load : Load R) (staged : List String) :
    Except CommitError CommitScript :=
  planCommit load.tables config.options
    { replayed := false, loadCommittedBefore := false, singleUnitDone := load.singleUnitDone
      stagedNonempty := staged, fullLoadPublish := .directToTarget
      clearedTargets := load.clearedUnion }

/-- The steps, then the COMMIT; the guards follow it. -/
def settle (config : Config D) (metadata : CommitMeta D) (staged : List String)
    (script : CommitScript) (reply : CommitReply) : Hook R D Unit := do
  match ← outcome (script.steps.forM (executeStep config metadata)) with
  | .error error => abandon error
  | .ok () =>
    commitUnit reply
    change fun load => { load with
      singleUnitDone := load.singleUnitDone ++ staged
      cleared := load.cleared ++ load.clearedInUnit
      clearedInUnit := [] }
    discardStaged

/-- Errors of the probes, of the plan and of the COMMIT leave the unit as it is. -/
def publish (config : Config D) (metadata : CommitMeta D) (reply : CommitReply) :
    Hook R D Unit := do
  openUnit
  match ← outcome loadStagedParts with
  | .error error => abandon error
  | .ok () =>
    let staged ← probeStaged config
    let load ← theLoad
    match planUnit config load staged with
    | .error error => throw (.fatal error.display)
    | .ok script => settle config metadata staged script reply

/-! ## Sessions -/

structure World (R D : Type) where
  service : Service R D
  session : Option (Load R)

inductive Event (R D : Type) where
  | connect
  | crash
  | ensureTable (schema : TableSchema) (mode : WriteMode) (work : SchemaWork) (replies : List Reply)
  | write (table : String) (rows : List R) (closings : Closings) (replies : List Reply)
  | existingReceipt (loadId : String) (seq : UInt64) (replies : List Reply)
  | replay (replies : List Reply)
  | publish (metadata : CommitMeta D) (replies : List Reply) (commit : CommitReply)

/-- A fresh session knows what the load's committed units cleared. -/
def Load.connect (service : Service R D) : Load R where
  tables := []
  cleared := readClearedTargets service.durable
  clearedInUnit := []
  reclearOwed := []
  unitOpen := false
  singleUnitDone := []
  pending := []
  openParts := []

namespace World

/-- A hook runs to its end, whether it succeeds or not. -/
def hook {α : Type} (w : World R D) (load : Load R) (replies : List Reply) (h : Hook R D α) :
    World R D :=
  let after := (exec h ⟨w.service, replies, load⟩).2
  ⟨after.service, some after.load⟩

/-- The transaction of a session that ends is rolled back. -/
def step (config : Config D) (w : World R D) (event : Event R D) : World R D :=
  match event, w.session with
  | .connect, _ => ⟨w.service.rollback, some (Load.connect w.service)⟩
  | .crash, _ => ⟨w.service.rollback, none⟩
  | _, none => w
  | .ensureTable schema mode work replies, some load =>
    w.hook load replies (Snowflake.ensureTable schema mode work)
  | .write table rows closings replies, some load =>
    w.hook load replies (Snowflake.write config table rows closings)
  | .existingReceipt loadId seq replies, some load =>
    w.hook load replies (Snowflake.existingReceipt config loadId seq)
  | .replay replies, some load => w.hook load replies Snowflake.replay
  | .publish metadata replies commit, some load =>
    w.hook load replies (Snowflake.publish config metadata commit)

end World

end Snowflake
