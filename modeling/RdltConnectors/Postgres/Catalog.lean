import RdltConnectors.Sqlcore.Ensure
import RdltConnectors.Library.Transition

/-!
# What a Postgres session has ensured

Ensuring a table runs its statements one after the other: each is durable by itself,
or joins the unit when one is open. The session then records the table's schema. An
error abandons the open unit with the statements in it, and keeps the record.
-/
namespace PgCatalog

open Sqlcore
open Sqlcore.Ensure hiding mergeSteps

/-! ## The statements -/

structure ColumnDefinition where
  name : String
  type : String
  constraint : String
  deriving DecidableEq, Repr

/-- A statement of the data definition language, each a no-op where it holds already. -/
inductive Statement where
  /-- `CREATE TABLE IF NOT EXISTS` -/
  | createTable (relation : String) (unlogged : Bool) (columns : List ColumnDefinition)
  /-- `ALTER TABLE … ADD COLUMN IF NOT EXISTS` -/
  | addColumn (relation : String) (column : ColumnDefinition)
  /-- `ALTER TABLE … ALTER COLUMN … TYPE … USING …` -/
  | alterType (relation column type : String)
  /-- `CREATE INDEX IF NOT EXISTS` -/
  | createIndex (name relation : String) (spec : IndexSpec)
  deriving DecidableEq, Repr

def sqlType : ColumnType → String
  | .scalar .bool => "BOOLEAN"
  | .scalar .int64 => "BIGINT"
  | .scalar .float64 => "DOUBLE PRECISION"
  | .scalar .utf8 => "TEXT"
  | .scalar .uuid => "UUID"
  | .scalar .json => "JSONB"
  | .scalar .binary => "BYTEA"
  | .scalar .timestampTz => "TIMESTAMPTZ"
  | .scalar .timestampNaive => "TIMESTAMP"
  | .scalar .date => "DATE"
  | .scalar .time => "TIME"
  | .scalar (.decimal precision scale) => s!"NUMERIC({precision},{scale})"
  -- structs and lists never reach this destination
  | .struct _ | .scalarList _ => "TEXT"

/-- Only the target's columns are constrained; the stage keeps everything nullable. -/
def renderColumnDefinition (column : Column) (forTarget : Bool) : ColumnDefinition :=
  ⟨column.name, sqlType column.columnType, if forTarget && !column.nullable then " NOT NULL" else ""⟩

/-- What a session is opened with. -/
structure Scope where
  pipeline : String
  options : DestinationOptions
  identHash : String → Nat → String

def Scope.legName (scope : Scope) (table : String) : Leg → String
  | .target => table
  | .stage => stageTable scope.identHash scope.pipeline table

def tableStatement (scope : Scope) (schema : TableSchema) : EnsureStep → List Statement
  | .table .target =>
    [.createTable schema.table false (schema.columns.map (renderColumnDefinition · true))]
  | .table .stage =>
    [.createTable (scope.legName schema.table .stage) true
      (schema.columns.map (renderColumnDefinition · false) ++
        [⟨arrivalColumn, "bigint", " GENERATED BY DEFAULT AS IDENTITY (CACHE 32)"⟩])]
  | .column leg column =>
    [.addColumn (scope.legName schema.table leg) ⟨column.name, sqlType column.columnType, ""⟩]
  | .widen leg column =>
    [.alterType (scope.legName schema.table leg) column.name (sqlType column.columnType)]
  | _ => []

def tableDdlStatements (scope : Scope) (schema : TableSchema) (mode : WriteMode)
    (previous : Option TableSchema) : List Statement :=
  (schemaSteps schema mode .directToTarget previous).flatMap (tableStatement scope schema)

def mergeStatement (scope : Scope) (table : String) : EnsureStep → List Statement
  | .validity .validFrom =>
    [.addColumn table
      ⟨(scope.options.scd2For table).validFrom, "TIMESTAMPTZ", " NOT NULL DEFAULT now()"⟩]
  | .validity .validTo =>
    [.addColumn table ⟨(scope.options.scd2For table).validTo, "TIMESTAMPTZ", ""⟩]
  | .index spec => [.createIndex (indexName scope.identHash table spec) table spec]
  | _ => []

def mergeEnsureStatements (scope : Scope) (schema : TableSchema) (mode : WriteMode) :
    Except ValidateError (List Statement) := do
  let steps ← Ensure.mergeSteps scope.options schema mode
  return steps.flatMap (mergeStatement scope schema.table)

/-! ## The catalog of the database -/

/-- Relations with the types of their columns, and the names of the indexes. -/
structure Schemas where
  relations : String → Option (List (String × String))
  indexes : List String

def Schemas.setRelation (db : Schemas) (relation : String) (columns : List (String × String)) :
    Schemas :=
  { db with relations := fun r => if r = relation then some columns else db.relations r }

def retype (column type : String) (columns : List (String × String)) : List (String × String) :=
  columns.map fun c => if c.1 = column then (c.1, type) else c

def Schemas.exec (db : Schemas) : Statement → Option Schemas
  | .createTable relation _ columns =>
    match db.relations relation with
    | some _ => some db
    | none =>
      if (columns.map ColumnDefinition.name).Nodup then
        some (db.setRelation relation (columns.map fun c => (c.name, c.type)))
      else none
  | .addColumn relation column => do
    let columns ← db.relations relation
    if column.name ∈ columns.map Prod.fst then some db
    else some (db.setRelation relation (columns ++ [(column.name, column.type)]))
  | .alterType relation column type => do
    let columns ← db.relations relation
    if column ∈ columns.map Prod.fst then some (db.setRelation relation (retype column type columns))
    else none
  | .createIndex name relation spec => do
    let columns ← db.relations relation
    if name ∈ db.indexes then some db
    else if ∀ c ∈ spec.columns, c ∈ columns.map Prod.fst then
      some { db with indexes := db.indexes ++ [name] }
    else none

/-- What is left by statements run in order: the database, those that ran, and the one
that failed. A fault makes the statement at its place fail. -/
structure Ran where
  db : Schemas
  executed : List Statement
  failed : Option Statement

def runStatements : Option Nat → List Statement → Schemas → Ran
  | _, [], db => ⟨db, [], none⟩
  | fault, statement :: rest, db =>
    if fault = some 0 then ⟨db, [], some statement⟩
    else match db.exec statement with
      | none => ⟨db, [], some statement⟩
      | some mid =>
        let ran := runStatements (fault.map (· - 1)) rest mid
        { ran with executed := statement :: ran.executed }

/-! ## The session -/

inductive EnsureError where
  | statement (failed : Statement)
  | invalid (error : ValidateError)
  deriving DecidableEq, Repr

structure Ensured where
  db : Schemas
  executed : List Statement
  result : Except EnsureError Unit

/-- The tables are created before the options are checked. -/
def ensure (scope : Scope) (schema : TableSchema) (mode : WriteMode) (previous : Option TableSchema)
    (fault : Option Nat) (db : Schemas) : Ensured :=
  let tables := runStatements fault (tableDdlStatements scope schema mode previous) db
  match tables.failed with
  | some statement => ⟨tables.db, tables.executed, .error (.statement statement)⟩
  | none =>
    match mergeEnsureStatements scope schema mode with
    | .error e => ⟨tables.db, tables.executed, .error (.invalid e)⟩
    | .ok statements =>
      let merge := runStatements (fault.map (· - tables.executed.length)) statements tables.db
      ⟨merge.db, tables.executed ++ merge.executed, match merge.failed with
        | some statement => .error (.statement statement)
        | none => .ok ()⟩

structure Session where
  tables : SessionTables
  /-- the database as the open transaction sees it -/
  unit : Option Schemas

def Session.connect : Session := ⟨[], none⟩

def Session.rollback (session : Session) : Session := { session with unit := none }

def Session.previous (session : Session) (table : String) : Option TableSchema :=
  (session.tables.lookup table).map Prod.fst

def Session.record (session : Session) (schema : TableSchema) (mode : WriteMode) : Session :=
  { session with tables := session.tables.insert schema.table (schema, mode) }

/-- What the session's statements see. -/
def Session.visible (session : Session) (durable : Schemas) : Schemas := session.unit.getD durable

def Session.beginIfClosed (session : Session) (durable : Schemas) : Session :=
  { session with unit := some (session.visible durable) }

inductive Event where
  | connect
  | ensure (schema : TableSchema) (mode : WriteMode) (fault : Option Nat)
  | write (table : String) (copied : Bool)
  | existingReceipt (answered : Bool)
  /-- the unit was committed before, and is discarded -/
  | replay
  /-- the commit lands, or a step before it fails -/
  | publish (landed : Bool)
  | crash
  deriving DecidableEq, Repr

structure World where
  durable : Schemas
  session : Option Session

namespace World

/-- Outside a unit each statement that ran is durable, whatever follows it. -/
def runEnsure (scope : Scope) (w : World) (session : Session) (schema : TableSchema)
    (mode : WriteMode) (fault : Option Nat) : World :=
  let ensured := ensure scope schema mode (session.previous schema.table) fault
    (session.visible w.durable)
  match ensured.result, session.unit with
  | .ok (), some _ => ⟨w.durable, some { session.record schema mode with unit := some ensured.db }⟩
  | .ok (), none => ⟨ensured.db, some (session.record schema mode)⟩
  | .error _, some _ => ⟨w.durable, some session.rollback⟩
  | .error _, none => ⟨ensured.db, some session⟩

/-- Without an open unit there is nothing to commit, and the session ends. -/
def runPublish (w : World) (session : Session) (landed : Bool) : World :=
  match session.unit, landed with
  | some work, true => ⟨work, some session.rollback⟩
  | none, true => ⟨w.durable, none⟩
  | _, false => ⟨w.durable, some session.rollback⟩

def step (scope : Scope) (w : World) (event : Event) : World :=
  match event, w.session with
  | .connect, _ => ⟨w.durable, some Session.connect⟩
  | .crash, _ => ⟨w.durable, none⟩
  | _, none => w
  | .ensure schema mode fault, some session => w.runEnsure scope session schema mode fault
  | .write table copied, some session =>
    match session.tables.lookup table, copied with
    | none, _ => w
    | some _, true => ⟨w.durable, some (session.beginIfClosed w.durable)⟩
    | some _, false => ⟨w.durable, some session.rollback⟩
  | .existingReceipt true, some session => ⟨w.durable, some (session.beginIfClosed w.durable)⟩
  | .existingReceipt false, some session => ⟨w.durable, some session.rollback⟩
  | .replay, some session => ⟨w.durable, some session.rollback⟩
  | .publish landed, some session => w.runPublish session landed

end World

end PgCatalog
