import Mathlib.Data.String.Basic
import Mathlib.Logic.Function.Basic
import RdltConnectors.Iceberg.Commit
import RdltConnectors.Iceberg.State
import RdltConnectors.Library.Entries
import RdltConnectors.Library.Fallible

/-!
# The write window of a session

Each stream table has a writer, opened on the first write of a window, and the files that
writers closed early have left. A change of schema, the clock and the publish retire a writer.
The publish appends what its window holds in one snapshot of the table, against a catalog that
others commit to.
-/
namespace IcebergWrite

open Iceberg (History Identity Snapshot appendClient appendPlan commitAttempts commitRetries
  loadCommitted stateTable)
open Optimistic (Answer Cell Phase Turn)
open Entries

variable {I T C R : Type}

/-! ## Batches -/

/-- A column of an arrow schema, with the id its table gives it. -/
structure Field (T : Type) where
  name : String
  dataType : T
  nullable : Bool
  fieldId : Nat
  deriving DecidableEq, Repr

abbrev ArrowSchema (T : Type) := List (Field T)

structure RecordBatch (T C : Type) where
  schema : ArrowSchema T
  columns : List C
  numRows : Nat
  deriving DecidableEq, Repr

/-- A writer on the schema that its table had when it was opened. -/
structure Writer (I T C : Type) where
  schema : I
  filePrefix : String
  nonce : String
  written : List (RecordBatch T C)

/-- Arrow and the table library: a data file is the rows in it. -/
structure Library (I T C R : Type) where
  schemaToArrowSchema : I → Except String (ArrowSchema T)
  dataType : C → T
  length : C → Nat
  typeText : T → String
  cast : C → T → Except String C
  newNullArray : T → Nat → C
  /-- what `RecordBatch::try_new` checks -/
  checkColumns : ArrowSchema T → List C → Except String Unit
  rows : RecordBatch T C → List R
  /-- a row as a table with these columns shows it -/
  shown : ArrowSchema T → R → R
  /-- what becomes of the text of a catalog's error -/
  classify : String → String
  openWriter : I → String → String → Except String Unit
  write : Writer I T C → RecordBatch T C → Except String Unit
  close : Writer I T C → Except String (List (List R))

variable (library : Library I T C R)

/-! ## Alignment -/

section Align

variable [DecidableEq T]

def alignColumn (context : String) (batch : RecordBatch T C) (field : Field T) :
    Except String C :=
  match (batch.schema.zip batch.columns).find? fun column => column.1.name = field.name with
  | some (_, column) =>
    if library.dataType column = field.dataType then .ok column
    else (library.cast column field.dataType).mapError fun e =>
      s!"{context}: column `{field.name}` cannot cast {library.typeText (library.dataType column)} -> {library.typeText field.dataType}: {e}"
  | none =>
    if field.nullable then .ok (library.newNullArray field.dataType batch.numRows)
    else .error s!"{context}: the live table requires column `{field.name}` but the stream no longer provides it"

/-- A batch in the columns of the table, matched by name. -/
def align (context : String) (target : ArrowSchema T) (batch : RecordBatch T C) :
    Except String (RecordBatch T C) := do
  let columns ← target.mapM (alignColumn library context batch)
  (library.checkColumns target columns).mapError fun e => s!"{context}: aligning batch: {e}"
  return ⟨target, columns, (columns.head?.map library.length).getD 0⟩

end Align

/-! ## Sessions -/

structure TableState (I T C R : Type) where
  /-- the schema of the live handle -/
  table : I
  arrowTarget : ArrowSchema T
  writer : Option (Writer I T C)
  pendingFiles : List (List R)
  windowSeq : Nat
  writerOpenedAt : Option Nat

/-- The names that the configuration gives to the tables of streams. -/
abbrev Names := List (String × Option String)

structure Load (I T C R : Type) where
  names : Names
  rollAfterSeconds : Option Nat
  scope : String
  loadId : String
  nonce : String
  tables : List (String × TableState I T C R)
  /-- the histories of the physical tables -/
  catalog : String → Cell (History R)
  /-- the table, prefix and nonce of every writer that was opened -/
  opened : List (String × String × String)

namespace Load

/-- A stream's table, configured or its own. -/
def tableName (load : Load I T C R) (stream : String) : String :=
  ((load.names.lookup stream).bind id).getD stream

def rollsOnTime (load : Load I T C R) (openForSecs : Nat) : Bool :=
  load.rollAfterSeconds.any fun secs => decide (openForSecs ≥ secs)

end Load

inductive WriteMode where
  | append
  | merge
  | replace
  deriving DecidableEq, Repr

/-- Only appends map onto snapshots. -/
def checkMode : WriteMode → Except String Unit
  | .append => .ok ()
  | .merge =>
    .error "iceberg destination does not support Merge (capabilities.merge = false)"
  | .replace =>
    .error "iceberg destination: Replace is not supported — the underlying iceberg library exposes no overwrite transaction, which Replace requires; use Append, or a SQL destination for replace semantics"

def arrowTarget (context : String) (table : I) : Except String (ArrowSchema T) :=
  (library.schemaToArrowSchema table).mapError fun e =>
    s!"{context}: arrow schema conversion: {e}"

/-! ## Ensuring -/

namespace Load

section Ensure

variable [DecidableEq T]

/-- A writer goes on only while the schema is the same. -/
def retire (state : TableState I T C R) (arrowTarget : ArrowSchema T) :
    Except String (TableState I T C R) :=
  match state.writer with
  | none => .ok state
  | some writer =>
    if state.arrowTarget = arrowTarget then .ok state
    else do
      let closed ← library.close writer
      return { state with
        writer := none
        pendingFiles := state.pendingFiles ++ closed
        writerOpenedAt := none }

/-- What is carried across a re-ensure, or the state of a table that is new to the session. -/
def carried (load : Load I T C R) (stream : String) (table : I) (arrowTarget : ArrowSchema T) :
    Except String (TableState I T C R) :=
  match find stream load.tables with
  | some prev => (retire library prev arrowTarget).map fun state =>
      { state with table := table, arrowTarget := arrowTarget }
  | none => .ok ⟨table, arrowTarget, none, [], 0, none⟩

def install (load : Load I T C R) (stream : String) (state : TableState I T C R) : Load I T C R :=
  { load with tables := place stream state (remove stream load.tables) }

/-- Fold the table as it is now into the session. -/
def reinstall (load : Load I T C R) (stream : String) (table : I) (arrowTarget : ArrowSchema T) :
    Except String (Load I T C R) :=
  (load.carried library stream table arrowTarget).map fun state => load.install stream state

/-- `found` is the table that the catalog has after the schema was reconciled. -/
def ensureTable (load : Load I T C R) (stream : String) (mode : WriteMode)
    (found : Except String I) : Except String (Load I T C R) := do
  checkMode mode
  let name := load.tableName stream
  if name = stateTable then
    .error s!"table name `{name}` is reserved for the rdlt state marker table"
  else
    match load.tables.find? fun entry => entry.1 ≠ stream ∧ load.tableName entry.1 = name with
    | some (other, _) =>
      .error s!"streams `{other}` and `{stream}` both resolve to table `{name}` — two streams may not share one table"
    | none => do
      let table ← found
      let target ← IcebergWrite.arrowTarget library s!"table `{name}`" table
      load.reinstall library stream table target

/-! ## Writing -/

/-- The library's writer has no clock. -/
def retireOnTime (load : Load I T C R) (state : TableState I T C R) (now : Nat) :
    Except String (TableState I T C R) :=
  match state.writerOpenedAt, state.writer with
  | some openedAt, some writer =>
    if load.rollsOnTime (now - openedAt) then do
      let closed ← library.close writer
      return { state with
        writer := none
        pendingFiles := state.pendingFiles ++ closed
        writerOpenedAt := none }
    else .ok state
  | _, _ => .ok state

/-- The writer of the window, opened if there is none. -/
def ensureWriter (load : Load I T C R) (stream : String) (state : TableState I T C R) (now : Nat) :
    Except String (Load I T C R × TableState I T C R × Writer I T C) :=
  match state.writer with
  | some writer => .ok (load, state, writer)
  | none => do
    let windowSeq := state.windowSeq + 1
    let filePrefix := s!"{load.loadId}-{windowSeq}"
    library.openWriter state.table filePrefix load.nonce
    return ({ load with
        opened := load.opened ++ [(load.tableName stream, filePrefix, load.nonce)] },
      { state with windowSeq := windowSeq, writerOpenedAt := some now },
      ⟨state.table, filePrefix, load.nonce, []⟩)

/-- The clock is read before the writer is retired and after one is opened. -/
def write (load : Load I T C R) (stream : String) (batch : RecordBatch T C) (clock : Nat × Nat) :
    Except String (Load I T C R) :=
  match find stream load.tables with
  | none => .error s!"write before ensure_table for `{stream}`"
  | some state => do
    let aligned ← align library s!"table `{load.tableName stream}`" state.arrowTarget batch
    let state ← load.retireOnTime library state clock.1
    let (load, state, writer) ← load.ensureWriter library stream state clock.2
    library.write writer aligned
    let writer := { writer with written := writer.written ++ [aligned] }
    return load.install stream { state with writer := some writer }

end Ensure

/-! ## Publishing -/

/-- What happens around the publish of one table. -/
structure Around (I R : Type) where
  /-- committed by others before the table is loaded -/
  before : List (Snapshot R)
  loads : Except String Unit
  /-- of every step of the commit: what others commit before it, and its answer -/
  turns : Nat → List (Snapshot R) × Answer
  /-- the schema of the table that comes back, which others may have evolved -/
  table : I

/-- The commits of others: any snapshots but ones of the unit. -/
def outside (identity : Identity) (snapshots : List (Snapshot R)) (cell : Cell (History R)) :
    Cell (History R) :=
  let others := snapshots.filter fun snapshot =>
    !snapshot.carries identity.loadId identity.commitSeq
  if others.isEmpty then cell else ⟨cell.value ++ others, cell.version + 1⟩

def turnsOf (identity : Identity) (around : Around I R) (n : Nat) : Turn (History R) :=
  ⟨outside identity (around.turns n).1, (around.turns n).2⟩

/-- As many steps as a commit can take. -/
def commitSteps : Nat := commitAttempts * (2 * commitRetries + 4)

/-- One snapshot with all the files, planned again after the library gives up. -/
def appendCommit (context : String) (identity : Identity) (files : List (List R))
    (around : Around I R) (cell : Cell (History R)) : Except String (Cell (History R)) :=
  match appendClient.drive (appendPlan identity files) (turnsOf identity around)
      commitSteps (cell, .loaded 1 cell) with
  | (cell, .done _) => .ok cell
  | (_, .failed .exhausted) => .error
      (library.classify s!"{context} (commit attempt {commitAttempts}/{commitAttempts})")
  | _ => .error (library.classify context)

/-- The files of the window, the parked ones first. -/
def closeWindow (state : TableState I T C R) :
    Except String (List (List R) × TableState I T C R) :=
  match state.writer with
  | none => .ok (state.pendingFiles, { state with pendingFiles := [] })
  | some writer => do
    let closed ← library.close writer
    return (state.pendingFiles ++ closed,
      { state with writer := none, pendingFiles := [], writerOpenedAt := none })

/-- Files of a unit that is in the history already are discarded. -/
def commitWindow (context : String) (identity : Identity) (files : List (List R))
    (around : Around I R) (cell : Cell (History R)) : Except String (Cell (History R)) := do
  around.loads.mapError library.classify
  let fresh := outside identity around.before cell
  if loadCommitted fresh.value identity.loadId identity.commitSeq then return fresh
  else appendCommit library context identity files around fresh

def convergeTable (context : String) (identity : Identity) (around : Around I R)
    (cell : Cell (History R)) (state : TableState I T C R) :
    Except String (Cell (History R) × TableState I T C R) := do
  let (files, state) ← closeWindow library state
  if files.isEmpty then return (cell, state)
  else do
    let cell ← commitWindow library context identity files around cell
    let target ← arrowTarget library context around.table
    return (cell, { state with table := around.table, arrowTarget := target })

/-- Table by table. -/
def convergeTables (load : Load I T C R) (identity : Identity) (around : String → Around I R) :
    List (String × TableState I T C R) → (String → Cell (History R)) →
      Except String (List (String × TableState I T C R) × (String → Cell (History R)))
  | [], catalog => .ok ([], catalog)
  | (stream, state) :: rest, catalog => do
    let name := load.tableName stream
    let (cell, state) ←
      convergeTable library s!"table `{name}`" identity (around stream) (catalog name) state
    let (rest, catalog) ←
      convergeTables load identity around rest (Function.update catalog name cell)
    return ((stream, state) :: rest, catalog)

/-- The state document goes last. -/
def publish (load : Load I T C R) (loadId : String) (commitSeq : Nat)
    (around : String → Around I R) (persisted : Except String Unit) :
    Except String (Load I T C R) := do
  let (tables, catalog) ←
    load.convergeTables library ⟨load.scope, loadId, commitSeq⟩ around load.tables load.catalog
  persisted
  return { load with tables := tables, catalog := catalog }

end Load

inductive Event (I T C R : Type) where
  | ensure (stream : String) (mode : WriteMode) (found : Except String I)
  | write (stream : String) (batch : RecordBatch T C) (clock : Nat × Nat)
  | publish (loadId : String) (commitSeq : Nat) (around : String → Load.Around I R)
      (persisted : Except String Unit)

def Load.step [DecidableEq T] (load : Load I T C R) :
    Event I T C R → Except String (Load I T C R)
  | .ensure stream mode found => load.ensureTable library stream mode found
  | .write stream batch clock => load.write library stream batch clock
  | .publish loadId commitSeq around persisted =>
    load.publish library loadId commitSeq around persisted

end IcebergWrite
