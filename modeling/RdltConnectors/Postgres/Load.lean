import RdltConnectors.Sqlcore.Execute

/-!
# A Postgres load session

A unit is one transaction, opened by its first write. Merge tables are written to
their stage; append and replace go straight into the target, which a replace clears
before its first row. An error abandons the unit and leaves the session.

How full loads are published is a parameter. This destination passes
`directToTarget`; the staged face of the protocol runs under the same transactions.
-/
namespace PgLoad

open Sqlcore

variable {V D : Type}

/-- The facts an open unit carries, and the database as its transaction sees it. -/
structure Open (V D : Type) where
  work : Database V D
  loadCommittedBefore : Bool
  /-- targets this unit cleared -/
  cleared : List String

structure Load (V D : Type) where
  loadId : String
  /-- the catalog of what this session ensured -/
  tables : SessionTables
  unit : Option (Open V D)
  /-- targets known to be cleared by a committed unit of the load -/
  clearedTargets : List String
  /-- full-feed tables whose single unit has run -/
  singleUnitDone : List String

def Load.connect (loadId : String) : Load V D := ⟨loadId, [], none, [], []⟩

/-- The unit is abandoned, and its clears with it. -/
def Load.rollback (load : Load V D) : Load V D := { load with unit := none }

/-- Whether any unit of the load committed is read first in the transaction. -/
def beginIfClosed (db : Database V D) (load : Load V D) : Open V D :=
  match load.unit with
  | some unit => unit
  | none => ⟨db, db.loadCommitted load.loadId, []⟩

def clearedUnion (load : Load V D) (unit : Open V D) : List String :=
  load.clearedTargets ++ unit.cleared

def commitContext (publish : FullLoadPublish) (load : Load V D) (unit : Open V D) (replayed : Bool)
    (stagedNonempty : List String) : CommitContext :=
  { replayed
    loadCommittedBefore := unit.loadCommittedBefore
    singleUnitDone := load.singleUnitDone
    stagedNonempty
    fullLoadPublish := publish
    clearedTargets := clearedUnion load unit }

/-! ## Writing -/

instance lawfulCleared : LawfulBEq (String × String) := inferInstance

/-- `INSERT … ON CONFLICT DO NOTHING`. -/
def recordCleared (loadId table : String) (db : Database V D) : Database V D :=
  { db with
    cleared := if (loadId, table) ∈ db.cleared then db.cleared else db.cleared ++ [(loadId, table)] }

/-- What the planner says must precede the rows. -/
def prepareStep (loadId : String) (unit : Open V D) (step : Step) : Except String (Open V D) :=
  match step with
  | .clearTarget table => .ok { unit with
      work := recordCleared loadId table (unit.work.setTarget table [])
      cleared := unit.cleared ++ [table] }
  | _ => .error "internal: unexpected step planned before a direct write"

/-- The guard is seeded from the durable record: a recovery session has fresh memory. -/
def seedCleared (load : Load V D) (unit : Open V D) (table : String) : Load V D :=
  if table ∈ load.clearedTargets ∨ table ∈ unit.cleared then load
  else if (load.loadId, table) ∈ unit.work.cleared then
    { load with clearedTargets := load.clearedTargets ++ [table] }
  else load

def prepareForWrite (publish : FullLoadPublish) (load : Load V D) (unit : Open V D)
    (table : String) : Load V D × Except String (Open V D) :=
  match load.tables.lookup table with
  | some (_, .replace) =>
    let seeded := seedCleared load unit table
    let steps := prepareTarget seeded.tables (commitContext publish seeded unit false []) table
    (seeded, steps.foldlM (prepareStep seeded.loadId) unit)
  | _ => (load, .ok unit)

/-- The rows are copied into the stage or into the target itself. -/
def copyRows (publish : FullLoadPublish) (table : String) (mode : WriteMode) (rows : List (Row V))
    (db : Database V D) : Database V D :=
  if usesStage mode publish then db.setStage table (db.stages table ++ rows)
  else db.setTarget table (db.targets table ++ rows)

/-- A write that an error may end after its clear. -/
def write (publish : FullLoadPublish) (db : Database V D) (load : Load V D) (table : String)
    (mode : WriteMode) (rows : List (Row V)) (copied : Bool) : Load V D :=
  match prepareForWrite publish load (beginIfClosed db load) table with
  | (load, .ok unit) =>
    if copied then
      { load with unit := some { unit with work := copyRows publish table mode rows unit.work } }
    else load.rollback
  | (load, .error _) => load.rollback

/-! ## Committing -/

variable [LinearOrder V]

/-- The staged publish steps are not this executor's. -/
def runStep (dest : Destination V) (publish : FullLoadPublish) (tables : SessionTables)
    (metadata : CommitMeta D) (seq : Int64) (now : V) (step : Step) (db : Database V D) :
    Except String (Database V D) :=
  match publish, step with
  | .directToTarget, .clearTarget table | .directToTarget, .insertSelect table =>
    .error s!"internal: staged publish step planned for `{table}`, but this destination writes full loads directly"
  | _, step => Sqlcore.runStep dest tables metadata seq now step db

def runSteps (dest : Destination V) (publish : FullLoadPublish) (tables : SessionTables)
    (metadata : CommitMeta D) (seq : Int64) (now : V) (steps : List Step) (db : Database V D) :
    Except String (Database V D) :=
  steps.foldlM (fun db step => runStep dest publish tables metadata seq now step db) db

/-- The marks and the clears apply once the transaction has committed. -/
def Load.promote (load : Load V D) (unit : Open V D) (marks : List String) : Load V D :=
  { load with
    unit := none
    clearedTargets := load.clearedTargets ++ unit.cleared
    singleUnitDone := load.singleUnitDone ++ marks }

/-- A redelivered unit is discarded where its rows are already in the target. -/
def replay (dest : Destination V) (publish : FullLoadPublish) (db : Database V D) (load : Load V D)
    (unit : Open V D) (metadata : CommitMeta D) (now : V) :
    Except String (Database V D × Load V D) := do
  let staged := probeNonempty dest.options load.tables unit.work.stages
  let script ← (planCommit load.tables dest.options
    (commitContext publish load unit true staged)).mapError CommitError.display
  match replayDisposition publish with
  | .discardUnit =>
    return (db, { load.rollback with singleUnitDone := load.singleUnitDone ++ script.marks })
  | .runScript =>
    let work ← runSteps dest publish load.tables metadata metadata.commitSeq.toInt64 now script.steps
      unit.work
    return (work, load.promote unit script.marks)

def publishUnit (dest : Destination V) (publish : FullLoadPublish) (load : Load V D)
    (unit : Open V D) (metadata : CommitMeta D) (now : V) :
    Except String (Database V D × Load V D) := do
  let staged := probeNonempty dest.options load.tables unit.work.stages
  let script ← (planCommit load.tables dest.options
    (commitContext publish load unit false staged)).mapError CommitError.display
  let work ← runSteps dest publish load.tables metadata metadata.commitSeq.toInt64 now script.steps
    unit.work
  return (work, load.promote unit script.marks)

/-- The receipt is looked up first; its column keeps the sequence number's bits. -/
def commit (dest : Destination V) (publish : FullLoadPublish) (db : Database V D) (load : Load V D)
    (metadata : CommitMeta D) (now : V) : Except String (Database V D × Load V D) :=
  if metadata.loadId ≠ load.loadId then
    .error s!"internal: session opened for load `{load.loadId}` asked to commit load `{metadata.loadId}`"
  else
    let unit := beginIfClosed db load
    if unit.work.hasReceipt metadata.loadId metadata.commitSeq.toInt64 then
      replay dest publish db load unit metadata now
    else publishUnit dest publish load unit metadata now

/-! ## Sessions -/

/-- What is durable, and the session. -/
structure World (V D : Type) where
  db : Database V D
  session : Option (Load V D)

inductive Event (V D : Type) where
  | connect (loadId : String)
  | ensure (schema : TableSchema) (mode : WriteMode)
  | write (table : String) (rows : List (Row V))
  /-- the copy fails after the target was prepared -/
  | writeFails (table : String)
  | commit (metadata : CommitMeta D) (now : V)
  /-- the commit lands and the session ends before it learns so -/
  | commitUnacknowledged (metadata : CommitMeta D) (now : V)
  /-- any other statement fails -/
  | fail
  | crash

namespace World

/-- The session ends, and its transaction with it. -/
def lose (w : World V D) : World V D := ⟨w.db, none⟩

def runCommit (dest : Destination V) (publish : FullLoadPublish) (w : World V D) (load : Load V D)
    (metadata : CommitMeta D) (now : V) : World V D :=
  match commit dest publish w.db load metadata now with
  | .ok (db, load) => ⟨db, some load⟩
  | .error _ => ⟨w.db, some load.rollback⟩

/-- A table that was not ensured is refused before the backend sees it. -/
def runWrite (publish : FullLoadPublish) (w : World V D) (load : Load V D) (table : String)
    (rows : List (Row V)) (copied : Bool) : World V D :=
  match load.tables.lookup table with
  | some (_, mode) => ⟨w.db, some (write publish w.db load table mode rows copied)⟩
  | none => w

def step (dest : Destination V) (publish : FullLoadPublish) (w : World V D) (event : Event V D) :
    World V D :=
  match event, w.session with
  | .connect loadId, _ => ⟨w.db.clearStages, some (Load.connect loadId)⟩
  | .crash, _ => w.lose
  | _, none => w
  | .ensure schema mode, some load =>
    match validateMode dest.options schema mode with
    | .ok () =>
      let tables := load.tables.insert schema.table (schema, mode)
      ⟨w.db, some { load with tables }⟩
    | .error _ => ⟨w.db, some load.rollback⟩
  | .write table rows, some load => w.runWrite publish load table rows true
  | .writeFails table, some load => w.runWrite publish load table [] false
  | .commit metadata now, some load => w.runCommit dest publish load metadata now
  | .commitUnacknowledged metadata now, some load =>
    (w.runCommit dest publish load metadata now).lose
  | .fail, some load => ⟨w.db, some load.rollback⟩

end World

end PgLoad
