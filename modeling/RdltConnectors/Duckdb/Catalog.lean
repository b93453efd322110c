import RdltConnectors.Duckdb.Values
import RdltConnectors.Duckdb.Load
import RdltConnectors.Sqlcore.Ensure
import RdltConnectors.Library.Transition

/-!
# Ensuring a DuckDB table

A session plans the type changes of a target from the schema it last ensured, and where
it has ensured none from an image of the database's catalog, out of which every
difference was taken that is not a widening. The session's own schema is not filtered.
-/
namespace DuckCatalog

open Sqlcore Duckdb
open Sqlcore.Ensure hiding mergeSteps

/-- A column of a published table, with the values committed in it. -/
structure TargetColumn where
  name : String
  type : SqlType
  values : List Value
  deriving DecidableEq, Repr

abbrev Target := List TargetColumn

/-! ## The catalog image -/

def imageColumn (column : TargetColumn) : Option Column :=
  (columnTypeOf column.type).map fun columnType => ⟨column.name, columnType, true⟩

/-- The live table's schema; a column of an unknown type is left out. -/
def liveSchema (schema : TableSchema) (target : Option Target) : Option TableSchema :=
  match target with
  | none => none
  | some columns =>
    let known := columns.filterMap imageColumn
    if known.isEmpty then none else some ⟨schema.table, schema.parent, known⟩

def genuineWiden (old new : ColumnType) : Bool :=
  decide (sqlType false old ≠ sqlType false new) && isWidening old new

/-- What the planner is to believe of a column that the image shows. -/
def adopted (wanted found : Column) : Column :=
  if genuineWiden found.columnType wanted.columnType then found
  else { found with columnType := wanted.columnType }

/-- The first column of the wanted name is adopted. -/
def adoptColumn (wanted : Column) : List Column → List Column
  | [] => []
  | found :: rest =>
    if found.name = wanted.name then adopted wanted found :: rest
    else found :: adoptColumn wanted rest

/-- Everything but a genuine widening is taken out of the image. -/
def prefilter (image schema : TableSchema) : TableSchema :=
  { image with columns := schema.columns.foldl (fun columns d => adoptColumn d columns) image.columns }

/-- The session's memory first; the image only for a table it has never ensured. -/
def planningPrevious (tables : SessionTables) (schema : TableSchema) (target : Option Target) :
    Option TableSchema :=
  match tables.lookup schema.table with
  | some (previous, _) => some previous
  | none => (liveSchema schema target).map fun image => prefilter image schema

/-! ## The statements -/

/-- An executed `ALTER COLUMN … SET DATA TYPE` on a target. -/
structure Alter where
  table : String
  column : String
  /-- the type that the change was planned from -/
  believed : ColumnType
  /-- the type that the column had -/
  actual : SqlType
  type : ColumnType
  values : List Value
  deriving DecidableEq, Repr

/-- How the database casts a value; what it makes is a value of the type. -/
structure Cast where
  apply : SqlType → Value → Option Value
  holds : ∀ {type value cast}, apply type value = some cast → type.Holds cast

structure Progress where
  target : Option Target
  alters : List Alter

/-- A column that is there already is left alone. -/
def addColumn (name : String) (type : SqlType) (values : List Value) (columns : Target) :
    Option Target :=
  if type.valid = false then none
  else if name ∈ columns.map TargetColumn.name then some columns
  else some (columns ++ [⟨name, type, values⟩])

def setDataType (name : String) (type : SqlType) (values : List Value) (columns : Target) : Target :=
  columns.map fun c => if c.name = name then ⟨name, type, values⟩ else c

variable (cast : Cast) (options : DestinationOptions) (schema : TableSchema)

/-- The committed values are cast in place; one that cannot be refuses the change. -/
def widenColumn (previous : Option TableSchema) (column : Column) (columns : Target) :
    Option (Target × Alter) := do
  let found ← columns.find? fun c => c.name = column.name
  let old ← previous.bind fun prev => prev.column column.name
  let type := sqlType false column.columnType
  if type.valid = false then none
  else
    let values ← found.values.mapM (cast.apply type)
    some (setDataType column.name type values columns,
      ⟨schema.table, column.name, old.columnType, found.type, column.columnType, found.values⟩)

/-- A step's effect on the target. The stage is the session's own, and indexes change
no column. The rows that a history column finds are given the present moment. -/
def execStep (backfill : List Int) (previous : Option TableSchema) (step : EnsureStep) (p : Progress) : Option Progress :=
  match step with
  | .table .target =>
    if ¬schema.columnNames.Nodup ∨ ∃ c ∈ schema.columns, (sqlType false c.columnType).valid = false then
      none
    else match p.target with
      | some _ => some p
      | none =>
        some ⟨some (schema.columns.map fun c => ⟨c.name, sqlType false c.columnType, []⟩), p.alters⟩
  | .column .target column => do
    let columns ← p.target
    let columns ← addColumn column.name (sqlType false column.columnType) [] columns
    return ⟨some columns, p.alters⟩
  | .widen .target column => do
    let columns ← p.target
    let (columns, alter) ← widenColumn cast schema previous column columns
    return ⟨some columns, p.alters ++ [alter]⟩
  | .validity which => do
    let columns ← p.target
    let scd2 := options.scd2For schema.table
    let columns ← match which with
      | .validFrom => addColumn scd2.validFrom .timestampTz (backfill.map Value.timestampTz) columns
      | .validTo => addColumn scd2.validTo .timestampTz [] columns
    return ⟨some columns, p.alters⟩
  | _ => some p

/-- The steps run up to the first that fails; a fault makes one fail. -/
def runSteps (backfill : List Int) (previous : Option TableSchema) : Option Nat → List EnsureStep → Progress →
    Progress × Option EnsureStep
  | _, [], p => (p, none)
  | fault, step :: rest, p =>
    if fault = some 0 then (p, some step)
    else match execStep cast options schema backfill previous step p with
      | none => (p, some step)
      | some p => runSteps backfill previous (fault.map (· - 1)) rest p

inductive EnsureError where
  | reEnsure (message : String)
  | statement (failed : EnsureStep)
  | invalid (error : ValidateError)
  deriving DecidableEq, Repr

/-- The steps of the tables, every one durable by itself, before the options are checked. -/
def ensureTable (tables : SessionTables) (mode : WriteMode) (fault : Option Nat)
    (backfill : List Int) (target : Option Target) : Progress × Except EnsureError Unit :=
  match checkEnsured tables schema with
  | .error message => (⟨target, []⟩, .error (.reEnsure message))
  | .ok () =>
    let previous := planningPrevious tables schema target
    let steps := schemaSteps schema .append .staged previous
    match runSteps cast options schema backfill previous fault steps ⟨target, []⟩ with
    | (p, some step) => (p, .error (.statement step))
    | (p, none) =>
      match Ensure.mergeSteps options schema mode with
      | .error e => (p, .error (.invalid e))
      | .ok more =>
        match runSteps cast options schema backfill previous (fault.map (· - steps.length)) more p with
        | (p, some step) => (p, .error (.statement step))
        | (p, none) => (p, .ok ())

/-! ## Runs -/

inductive Event where
  /-- a new run -/
  | open
  | ensure (schema : TableSchema) (mode : WriteMode) (fault : Option Nat) (backfill : List Int)
  /-- what a publish leaves in the columns, cast to their types -/
  | publish (table : String) (contents : String → List Value)
  | crash

structure World where
  targets : String → Option Target
  session : Option SessionTables
  /-- every type change executed so far -/
  alters : List Alter

namespace World

variable (w : World)

def setTarget (table : String) (target : Option Target) : World :=
  { w with targets := fun t => if t = table then target else w.targets t }

variable {schema}

def runEnsure (tables : SessionTables) (schema : TableSchema) (mode : WriteMode)
    (fault : Option Nat) (backfill : List Int) : World :=
  let (p, result) := ensureTable cast options schema tables mode fault backfill
    (w.targets schema.table)
  let ensured := { w.setTarget schema.table p.target with alters := w.alters ++ p.alters }
  match result with
  | .ok () => { ensured with session := some (tables.insert schema.table (schema, mode)) }
  | .error _ => ensured

/-- A value that a column cannot take fails the publish. -/
def runPublish (table : String) (contents : String → List Value) : World :=
  let published := (w.targets table).bind fun columns =>
    columns.mapM fun c => do
      let values ← (contents c.name).mapM (cast.apply c.type)
      return { c with values }
  match published with
  | some columns => w.setTarget table (some columns)
  | none => w

def step (event : Event) : World :=
  match event, w.session with
  | .open, _ => { w with session := some [] }
  | .crash, _ => { w with session := none }
  | _, none => w
  | .ensure schema mode fault backfill, some tables =>
    w.runEnsure cast options tables schema mode fault backfill
  | .publish table contents, some tables =>
    match tables.lookup table with
    | some _ => w.runPublish cast table contents
    | none => w

end World

end DuckCatalog
