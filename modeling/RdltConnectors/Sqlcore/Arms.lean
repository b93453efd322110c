import Mathlib
import RdltConnectors.Library.Table
import RdltConnectors.Sqlcore.Validate

/-!
# The strategy arms

A publish merges the rows staged for a table into its target, by one of four arms.
Each arm is a list of statements over the target, the table's stage and the stage of
its root; the dialect chooses how a statement is spelled, not what it asks for.
Stages hold their rows in order of arrival, and columns are bound by name.
-/
namespace Sqlcore

open Sql

variable {V : Type}

/-- A row by column name; a column it does not have is NULL. -/
abbrev Row (V : Type) := String → Option V

/-- What the statements of one publish see and change. -/
structure Relations (V : Type) where
  target : List (Row V)
  stage : List (Row V)
  rootStage : List (Row V)
  /-- the temporary relation of the survivors -/
  dedup : List (Row V)

abbrev Statement (V : Type) := Relations V → Relations V

abbrev Query (V : Type) := Relations V → List (Row V)

def runAll (statements : List (Statement V)) (db : Relations V) : Relations V :=
  statements.foldl (fun db statement => statement db) db

@[simp] theorem runAll_nil (db : Relations V) : runAll [] db = db := rfl

@[simp] theorem runAll_cons (statement : Statement V) (rest : List (Statement V))
    (db : Relations V) : runAll (statement :: rest) db = runAll rest (statement db) := rfl

@[simp] theorem runAll_append (first second : List (Statement V)) (db : Relations V) :
    runAll (first ++ second) db = runAll second (runAll first db) := List.foldl_append

def tuple (columns : List String) (r : Row V) : List (Option V) := columns.map r

/-- The row restricted to some of its columns. -/
def pick (columns : List String) (r : Row V) : Row V := fun c => if c ∈ columns then r c else none

def deleteFrom (cond : Relations V → Row V → Truth) : Statement V := fun db =>
  { db with target := deleteWhere (cond db) db.target }

def update (cond : Relations V → Row V → Truth) (column : String) (value : Option V) :
    Statement V := fun db =>
  let set (t : Row V) : Row V := fun c => if c = column then value else t c
  { db with target := updateWhere (cond db) set db.target }

/-- `INSERT INTO target (columns) SELECT columns FROM rows`. -/
def insertSelect (columns : List String) (rows : Query V) : Statement V := fun db =>
  { db with target := db.target ++ (rows db).map (pick columns) }

/-! ## Dialects -/

inductive Dialect where
  | postgres
  | duckdb
  | snowflake
  deriving DecidableEq, Repr

/-- `IS TRUE`, or `= TRUE` where that does not compile. -/
def Dialect.flagSet [DecidableEq V] (yes : V) : Dialect → Option V → Truth
  | .snowflake, cell => eq cell (some yes)
  | _, cell => some (decide (cell = some yes))

/-- `IS NOT TRUE`, or `IS DISTINCT FROM TRUE`. -/
def Dialect.flagUnset [DecidableEq V] (yes : V) : Dialect → Option V → Truth
  | .snowflake, cell => distinct cell (some yes)
  | _, cell => some (decide (cell ≠ some yes))

/-- Whether the survivors are kept in a temporary relation. -/
def Dialect.materializesDedup : Dialect → Bool
  | .postgres => true
  | _ => false

/-- `column DIR NULLS LAST`. -/
def cellBefore [LinearOrder V] (order : SortOrder) : Option V → Option V → Bool
  | some x, some y =>
    match order with
    | .asc => decide (x < y)
    | .desc => decide (y < x)
  | some _, none => true
  | none, _ => false

/-- The sort column if there is one, then the latest arrival. -/
def ranksBefore [LinearOrder V] (sort : Option DedupSort) (a b : Row V × Nat) : Bool :=
  match sort with
  | none => decide (b.2 < a.2)
  | some s => cellBefore s.order (a.1 s.column) (b.1 s.column) ||
      (decide (a.1 s.column = b.1 s.column) && decide (b.2 < a.2))

/-- One surviving row of each identity group. -/
def Dialect.dedupSubquery [LinearOrder V] (dialect : Dialect) (identity : List String)
    (sort : Option DedupSort) (stage : List (Row V)) : List (Row V) :=
  (match dialect with
    | .snowflake => rowNumberOne (fun r : Row V × Nat => tuple identity r.1) (ranksBefore sort)
        stage.zipIdx
    | _ => distinctOn (fun r : Row V × Nat => tuple identity r.1) (ranksBefore sort)
        stage.zipIdx).map Prod.fst

/-- What an upsert does with a row whose key is there already. -/
inductive UpsertAction where
  | update (columns : List String)
  | nothing
  deriving DecidableEq, Repr

def UpsertAction.apply (action : UpsertAction) (incoming t : Row V) : Row V :=
  match action with
  | .update columns => fun c => if c ∈ columns then incoming c else t c
  | .nothing => t

def Dialect.upsertStmt [DecidableEq V] (dialect : Dialect) (columns keys : List String)
    (source : Query V) (action : UpsertAction) : Statement V := fun db =>
  { db with target :=
      match dialect with
      | .snowflake => mergeInto (tuple keys) action.apply ((source db).map (pick columns)) db.target
      | _ => onConflict (tuple keys) action.apply ((source db).map (pick columns)) db.target }

/-! ## Plans -/

/-- The flag that deletes a key: of a boolean column its truth, of another its presence. -/
structure HardDelete (V : Type) where
  flagged : Row V → Truth
  keep : Row V → Truth

def HardDelete.new [DecidableEq V] (yes : V) (column : String) (rootSchema : TableSchema)
    (dialect : Dialect) : HardDelete V :=
  if (rootSchema.column column).map Column.columnType = some (.scalar .bool) then
    ⟨fun r => dialect.flagSet yes (r column), fun r => dialect.flagUnset yes (r column)⟩
  else ⟨fun r => isNotNull (r column), fun r => isNull (r column)⟩

structure MergePlan (V : Type) where
  dialect : Dialect
  schema : TableSchema
  key : List String
  isChild : Bool
  hardDelete : Option (HardDelete V)
  dedupSort : Option DedupSort
  mergeScope : Option (List String)

namespace MergePlan

variable [LinearOrder V] (plan : MergePlan V)

def columns : List String := plan.schema.columnNames

/-- The survivor filter of a hard delete. -/
def kept (rows : List (Row V)) : List (Row V) :=
  match plan.hardDelete with
  | some hd => selectWhere hd.keep rows
  | none => rows

def deduped (identity : List String) : Query V := fun db =>
  plan.dialect.dedupSubquery identity plan.dedupSort db.stage

/-- The statements that keep the survivors, if the dialect can, and where to read them. -/
def dedupOnce (identity : List String) : List (Statement V) × Query V :=
  if plan.dialect.materializesDedup then
    ([fun db => { db with dedup := plan.deduped identity db }], Relations.dedup)
  else ([], plan.deduped identity)

/-- The columns an update sets. -/
def updateSet (identity : List String) : List String :=
  plan.columns.filter fun c => !identity.contains c

/-- The identities of the roots whose surviving row is flagged. -/
def flaggedRoots (hd : HardDelete V) (db : Relations V) : List (List (Option V)) :=
  (selectWhere hd.flagged (plan.dialect.dedupSubquery [idColumn] none db.rootStage)).map
    (tuple [idColumn])

end MergePlan

/-! ## Arms -/

section Arms

variable [LinearOrder V]

def scopeNotNull (scope : List String) (r : Row V) : Truth := all scope fun c => isNotNull (r c)

/-- The delivered scopes; NULL is not one. -/
def deliveredScopes (scope : List String) (db : Relations V) : List (List (Option V)) :=
  (selectWhere (scopeNotNull scope) db.stage).map (tuple scope)

def scopeReplaceSql (scope : List String) : Statement V :=
  deleteFrom fun db t => isIn (tuple scope t) (deliveredScopes scope db)

def keyedDeleteInsertSql (plan : MergePlan V) : List (Statement V) :=
  [deleteFrom fun db t => isIn (tuple plan.key t) (db.stage.map (tuple plan.key)),
   insertSelect plan.columns fun db => plan.kept (plan.deduped plan.key db)]

def keyedUpsertSql (plan : MergePlan V) : List (Statement V) :=
  let (materialize, deduped) :=
    if plan.hardDelete.isSome then plan.dedupOnce plan.key else ([], plan.deduped plan.key)
  let delete := match plan.hardDelete with
    | some hd => [deleteFrom fun db t =>
        isIn (tuple plan.key t) ((selectWhere hd.flagged (deduped db)).map (tuple plan.key))]
    | none => []
  let set := plan.updateSet plan.key
  let action := if set.isEmpty then .nothing else .update set
  materialize ++ delete ++
    [plan.dialect.upsertStmt plan.columns plan.key (fun db => plan.kept (deduped db)) action]

def identityDeleteInsertSql (plan : MergePlan V) : List (Statement V) :=
  let idCol := if plan.isChild then rootIdColumn else idColumn
  let keep (db : Relations V) (r : Row V) : Truth :=
    match plan.hardDelete, plan.isChild with
    | some hd, false => hd.keep r
    | some hd, true => notIn (tuple [rootIdColumn] r) (plan.flaggedRoots hd db)
    | none, _ => some true
  [deleteFrom fun db t => isIn (tuple [idCol] t) (db.rootStage.map (tuple [idColumn])),
   insertSelect plan.columns fun db => selectWhere (keep db) (plan.deduped [idColumn] db)]

/-- The instants a publish sees: its transaction's, and those of literals. -/
structure Clock (V : Type) where
  txTimestamp : V
  literal : String → V

def Clock.boundary (clock : Clock V) (scd2 : Scd2Options) : V :=
  match scd2.boundaryTimestamp with
  | some boundary => clock.literal boundary
  | none => clock.txTimestamp

/-- What opens a version. -/
def Clock.openValue (clock : Clock V) (scd2 : Scd2Options) : Option V :=
  scd2.activeRecordTimestamp.map clock.literal

/-- NULL and the marker are both open. -/
def isActive (literal : String → V) (scd2 : Scd2Options) (t : Row V) : Truth :=
  match scd2.activeRecordTimestamp with
  | some marker => (isNull (t scd2.validTo)).or (eq (t scd2.validTo) (some (literal marker)))
  | none => isNull (t scd2.validTo)

def keyMatch (key : List String) (t d : Row V) : Truth := all key fun k => eq (t k) (d k)

/-- The columns a change is looked for in. -/
def MergePlan.dataColumns (plan : MergePlan V) : List String :=
  plan.columns.filter fun c => !plan.key.contains c && decide (c ≠ loadIdColumn)

section Scd2

variable (plan : MergePlan V) (scd2 : Scd2Options) (clock : Clock V) (deduped : Query V)

/-- Close the open versions whose key arrives with other values. -/
def scd2Retire : Statement V :=
  update (fun db t => any (deduped db) fun d =>
    ((isActive clock.literal scd2 t).and (keyMatch plan.key t d)).and
      (any plan.dataColumns fun c => distinct (t c) (d c)))
    scd2.validTo (some (clock.boundary scd2))

/-- Open a version of what has none left. -/
def scd2Insert : Statement V := fun db =>
  let opened := selectWhere (fun d => some (!db.target.any fun t =>
    ((isActive clock.literal scd2 t).and (keyMatch plan.key t d)).holds)) (deduped db)
  { db with target := db.target ++ opened.map fun d c =>
      if c = scd2.validTo then clock.openValue scd2
      else if c = scd2.validFrom then some (clock.boundary scd2)
      else pick plan.columns d c }

/-- Close the open versions of absent keys, within the delivered scopes. -/
def scd2Absent : Statement V :=
  update (fun db t =>
    let gone := (isActive clock.literal scd2 t).and
      (notIn (tuple plan.key t) ((deduped db).map (tuple plan.key)))
    match plan.mergeScope with
    | some scope =>
      if scope.isEmpty then gone else gone.and (isIn (tuple scope t) (deliveredScopes scope db))
    | none => gone)
    scd2.validTo (some (clock.boundary scd2))

def scd2MergeSql : List (Statement V) :=
  let (materialize, deduped) := plan.dedupOnce plan.key
  materialize ++
    (if plan.dataColumns.isEmpty then [] else [scd2Retire plan scd2 clock deduped]) ++
    [scd2Insert plan scd2 clock deduped] ++
    (if scd2.absent ≠ .retire then [] else [scd2Absent plan scd2 clock deduped])

end Scd2

end Arms

/-! ## Rendering -/

inductive MergeArm where
  | keyedDeleteInsert
  | keyedUpsert
  | identityDeleteInsert
  | scd2 (options : Scd2Options)
  deriving DecidableEq, Repr

def buildMergePlan [DecidableEq V] (yes : V) (dialect : Dialect) (options : DestinationOptions)
    (table : String) (schema : TableSchema) (key : List String) (root : String)
    (rootSchema : Option TableSchema) : MergePlan V where
  dialect := dialect
  schema := schema
  key := key
  isChild := decide (table ≠ root)
  hardDelete := (options.hardDeleteFor root).bind fun col =>
    rootSchema.map fun rootSchema => HardDelete.new yes col rootSchema dialect
  dedupSort := options.dedupSortFor table
  mergeScope := options.mergeScopeFor table

def renderArm [LinearOrder V] (plan : MergePlan V) (clock : Clock V) : MergeArm → List (Statement V)
  | .keyedDeleteInsert => keyedDeleteInsertSql plan
  | .keyedUpsert => keyedUpsertSql plan
  | .identityDeleteInsert => identityDeleteInsertSql plan
  | .scd2 options => scd2MergeSql plan options clock

end Sqlcore
