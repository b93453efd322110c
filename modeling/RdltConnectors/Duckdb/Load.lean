import Mathlib
import RdltConnectors.Sqlcore.Execute

/-!
# A DuckDB load session

Rows land in temporary tables of the session's connection, and one transaction
publishes them with the state and the receipt. A statement that fails rolls the
transaction back; whoever retries opens a fresh session, whose temporary tables are
empty.
-/
namespace Duckdb

open Sqlcore

variable {V D : Type}

structure Session where
  /-- everything this session ensured -/
  tables : SessionTables
  /-- full-feed tables whose single unit has run -/
  singleUnitDone : List String

/-! ## Ensuring a table -/

/-- The first column that is not where it was. -/
def firstReordered (schema previous : TableSchema) : Option (Column × Nat) :=
  previous.columns.zipIdx.find? fun was => schema.columns[was.2]?.map Column.name ≠ some was.1.name

/-- A session may only append columns to a table it ensured. -/
def checkReEnsure (schema previous : TableSchema) : Except String Unit :=
  let dropped := previous.columns.filter fun c => (schema.column c.name).isNone
  if dropped ≠ [] then
    let names := ", ".intercalate (dropped.map Column.name)
    .error s!"table `{schema.table}`: re-ensure drops previously ensured columns ({names}) — engine evolution is append-only, so this is two streams colliding on one table or a harness defect"
  else match firstReordered schema previous with
    | some (was, i) =>
      let current := (schema.columns[i]?.map Column.name).getD "nothing"
      .error s!"table `{schema.table}`: re-ensure reorders previously ensured columns (position {i} was `{was.name}`, now `{current}`) — the stage is positional and its physical order is fixed at creation; engine evolution only appends"
    | none => .ok ()

def checkEnsured (tables : SessionTables) (schema : TableSchema) : Except String Unit :=
  match tables.lookup schema.table with
  | some (previous, _) => checkReEnsure schema previous
  | none => .ok ()

/-- The tables of the session after an ensure. -/
def ensureTable (options : DestinationOptions) (tables : SessionTables) (schema : TableSchema)
    (mode : WriteMode) : Except String SessionTables := do
  checkEnsured tables schema
  (validateMode options schema mode).mapError ValidateError.display
  return tables.insert schema.table (schema, mode)

/-! ## Writing -/

structure Batch (V : Type) where
  fields : List String
  rows : List (Row V)

/-- The first batch column that is not the ensured one of its position. -/
def firstMisplaced (ensured : TableSchema) (fields : List String) : Option (String × Nat) :=
  fields.zipIdx.find? fun field => ensured.columns[field.2]?.map Column.name ≠ some field.1

/-- The stage is appended to by position. -/
def checkBatch (table : String) (ensured : TableSchema) (fields : List String) : Except String Unit :=
  match firstMisplaced ensured fields with
  | some (field, i) =>
    let want := (ensured.columns[i]?.map Column.name).getD "no column at that position"
    .error s!"table `{table}`: batch column {i} is `{field}` but the ensured schema has `{want}` — the stage append is positional; refusing to land values in the wrong columns"
  | none =>
    if fields.length ≠ ensured.columns.length then
      .error s!"table `{table}`: the batch carries {fields.length} columns but the ensured schema has {ensured.columns.length} — the stage append is positional and exact; re-ensure before writing a changed shape"
    else .ok ()

/-- A table that was not ensured is refused before the backend sees it. -/
def acceptBatch (tables : SessionTables) (table : String) (fields : List String) :
    Except String Unit :=
  match tables.lookup table with
  | none => .error s!"table `{table}` was not ensured"
  | some (ensured, _) => checkBatch table ensured fields

def write (tables : SessionTables) (table : String) (batch : Batch V) (db : Database V D) :
    Except String (Database V D) := do
  acceptBatch tables table batch.fields
  return db.setStage table (db.stages table ++ batch.rows)

/-! ## Committing -/

/-- The ledger keeps sequence numbers in a signed column; one that does not fit is
refused. -/
def ledgerSeq (seq : UInt64) : Except String Int64 :=
  if seq.toNat < 2 ^ 63 then .ok seq.toInt64
  else .error s!"commit_seq {seq} exceeds the receipt ledger's BIGINT range"

/-- Two sequence numbers are never one in the ledger. -/
theorem ledgerSeq_injective {a b : UInt64} {seq : Int64} (ha : ledgerSeq a = .ok seq)
    (hb : ledgerSeq b = .ok seq) : a = b := by
  unfold ledgerSeq at ha hb
  split at ha
  · split at hb
    · have hsame : a.toInt64 = b.toInt64 := (Except.ok.inj ha).trans (Except.ok.inj hb).symm
      exact UInt64.toBitVec_inj.1 (congrArg Int64.toBitVec hsame)
    · cases hb
  · cases ha

variable [LinearOrder V]

/-- Everything between BEGIN and COMMIT: probes, plan and steps under one snapshot. -/
def commitInTx (dest : Destination V) (session : Session) (metadata : CommitMeta D) (now : V)
    (db : Database V D) : Except String (Database V D × List String) := do
  let seq ← ledgerSeq metadata.commitSeq
  let ctx : CommitContext :=
    { replayed := db.hasReceipt metadata.loadId seq
      loadCommittedBefore := db.loadCommitted metadata.loadId
      singleUnitDone := session.singleUnitDone
      stagedNonempty := probeNonempty dest.options session.tables db.stages
      fullLoadPublish := .staged
      clearedTargets := [] }
  let script ← (planCommit session.tables dest.options ctx).mapError CommitError.display
  let db ← runSteps dest session.tables metadata seq now script.steps db
  return (db, script.marks)

/-! ## Sessions -/

/-- The database, whose stages are the temporary tables of the session, and the session. -/
structure World (V D : Type) where
  db : Database V D
  session : Option Session

inductive Event (V D : Type) where
  | open
  | ensure (schema : TableSchema) (mode : WriteMode)
  | write (table : String) (batch : Batch V)
  | commit (metadata : CommitMeta D) (now : V)
  /-- the commit lands and the session ends before it learns so -/
  | commitUnacknowledged (metadata : CommitMeta D) (now : V)
  /-- the session ends, by a crash or by a statement that failed -/
  | crash

namespace World

/-- The session is gone, and its temporary tables with it. -/
def lose (w : World V D) : World V D := ⟨w.db.clearStages, none⟩

/-- The marks apply once the transaction has committed. -/
def runCommit (dest : Destination V) (w : World V D) (session : Session) (metadata : CommitMeta D)
    (now : V) : World V D :=
  match commitInTx dest session metadata now w.db with
  | .ok (db, marks) => ⟨db, some { session with singleUnitDone := session.singleUnitDone ++ marks }⟩
  | .error _ => w.lose

def step (dest : Destination V) (w : World V D) (event : Event V D) : World V D :=
  match event, w.session with
  | .open, _ => ⟨w.db.clearStages, some ⟨[], []⟩⟩
  | .crash, _ => w.lose
  | _, none => w
  | .ensure schema mode, some session =>
    match ensureTable dest.options session.tables schema mode with
    | .ok tables => { w with session := some { session with tables } }
    | .error _ => w.lose
  | .write table batch, some session =>
    match Duckdb.write session.tables table batch w.db with
    | .ok db => { w with db := db }
    | .error _ => w.lose
  | .commit metadata now, some session => w.runCommit dest session metadata now
  | .commitUnacknowledged metadata now, some session =>
    (w.runCommit dest session metadata now).lose

end World

end Duckdb
