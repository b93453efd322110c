import Mathlib
import RdltConnectors.Postgres.Catalog

/-!
# The session's record and the database

What a session recorded of a table stands on the statements that ensured it. They hold
in what the session sees, durably or in its open unit, as long as no unit is abandoned
in which an ensure changed the database: the record survives the rollback, and the
statements do not.
-/
namespace PgCatalog

open Sqlcore
open Sqlcore.Ensure hiding mergeSteps

/-- What the statement is for. -/
def Statement.Holds (db : Schemas) : Statement → Prop
  | .createTable relation _ _ => ∃ columns, db.relations relation = some columns
  | .addColumn relation column =>
    ∃ columns, db.relations relation = some columns ∧ column.name ∈ columns.map Prod.fst
  | .alterType relation column type =>
    ∃ columns, db.relations relation = some columns ∧ column ∈ columns.map Prod.fst ∧
      ∀ c ∈ columns, c.1 = column → c.2 = type
  | .createIndex name _ _ => name ∈ db.indexes

/-- A column's type is what the last of its alterations made it. -/
def Statement.supersedes : Statement → Statement → Bool
  | .alterType relation column _, .alterType relation' column' _ =>
    decide (relation = relation' ∧ column = column')
  | _, _ => false

def Statement.isAlter : Statement → Bool
  | .alterType _ _ _ => true
  | _ => false

theorem supersedes_of_not_alter {statement other : Statement} (h : other.isAlter = false) :
    statement.supersedes other = false := by
  cases other with
  | alterType relation column type => cases h
  | _ => cases statement <;> rfl

theorem supersedes_type (statement : Statement) (relation column type : String) {other : String} :
    statement.supersedes (.alterType relation column other) =
      statement.supersedes (.alterType relation column type) := by
  cases statement <;> rfl

section Exec

variable {db db' : Schemas} {statement other : Statement} {relation : String}
  {columns : List (String × String)}

theorem setRelation_same (db : Schemas) (relation : String) (columns : List (String × String)) :
    (db.setRelation relation columns).relations relation = some columns := if_pos rfl

theorem setRelation_other {r : String} (h : r ≠ relation) :
    (db.setRelation relation columns).relations r = db.relations r := if_neg h

theorem map_fst_retype (column type : String) (columns : List (String × String)) :
    (retype column type columns).map Prod.fst = columns.map Prod.fst := by
  rw [retype, List.map_map]
  refine List.map_congr_left fun c _ => ?_
  change (if c.1 = column then (c.1, type) else c).1 = c.1
  split
  · rfl
  · rfl

theorem mem_retype {column type : String} {c : String × String}
    (hc : c ∈ retype column type columns) :
    (c.1 = column → c.2 = type) ∧ (c.1 ≠ column → c ∈ columns) := by
  obtain ⟨c', hc', rfl⟩ := List.mem_map.1 hc
  by_cases h : c'.1 = column
  · rw [if_pos h]
    exact ⟨fun _ => rfl, fun hne => absurd h hne⟩
  · rw [if_neg h]
    exact ⟨fun hsame => absurd hsame h, fun _ => hc'⟩

/-- What a statement that ran did: nothing where it held, or the one thing it is for. -/
inductive Effect (db : Schemas) : Statement → Schemas → Prop where
  | none {statement : Statement} (holds : statement.Holds db) (keeps : statement.isAlter = false) :
      Effect db statement db
  | created {relation : String} (unlogged : Bool) (columns : List ColumnDefinition)
      (new : db.relations relation = .none) :
      Effect db (.createTable relation unlogged columns)
        (db.setRelation relation (columns.map fun c => (c.name, c.type)))
  | added {relation : String} {columns : List (String × String)} (column : ColumnDefinition)
      (found : db.relations relation = some columns) (new : column.name ∉ columns.map Prod.fst) :
      Effect db (.addColumn relation column)
        (db.setRelation relation (columns ++ [(column.name, column.type)]))
  | retyped {relation column : String} {columns : List (String × String)} (type : String)
      (found : db.relations relation = some columns) (present : column ∈ columns.map Prod.fst) :
      Effect db (.alterType relation column type) (db.setRelation relation (retype column type columns))
  | indexed (name relation : String) (spec : IndexSpec) :
      Effect db (.createIndex name relation spec) { db with indexes := db.indexes ++ [name] }

theorem effect_of_exec (h : db.exec statement = some db') : Effect db statement db' := by
  cases statement with
  | createTable relation unlogged columns =>
    simp only [Schemas.exec] at h
    split at h
    · next columns' hcolumns =>
      obtain rfl := Option.some.inj h
      exact .none ⟨columns', hcolumns⟩ rfl
    · next hnew =>
      split at h
      · obtain rfl := Option.some.inj h
        exact .created unlogged columns hnew
      · cases h
  | addColumn relation column =>
    obtain ⟨columns, hcolumns, h⟩ := Option.bind_eq_some_iff.1 h
    split at h
    · next hin =>
      obtain rfl := Option.some.inj h
      exact .none ⟨columns, hcolumns, hin⟩ rfl
    · next hnew =>
      obtain rfl := Option.some.inj h
      exact .added column hcolumns hnew
  | alterType relation column type =>
    obtain ⟨columns, hcolumns, h⟩ := Option.bind_eq_some_iff.1 h
    split at h
    · next hin =>
      obtain rfl := Option.some.inj h
      exact .retyped type hcolumns hin
    · cases h
  | createIndex name relation spec =>
    obtain ⟨columns, -, h⟩ := Option.bind_eq_some_iff.1 h
    split at h
    · next hin =>
      obtain rfl := Option.some.inj h
      exact .none hin rfl
    · split at h
      · obtain rfl := Option.some.inj h
        exact .indexed name relation spec
      · cases h

/-- A statement that ran holds. -/
theorem holds_exec (h : db.exec statement = some db') : statement.Holds db' := by
  cases effect_of_exec h with
  | none holds _ => exact holds
  | created unlogged columns _ => exact ⟨_, setRelation_same _ _ _⟩
  | added column _ _ => exact ⟨_, setRelation_same _ _ _, by simp⟩
  | retyped type _ present =>
    refine ⟨_, setRelation_same _ _ _, ?_, fun c hc => (mem_retype hc).1⟩
    rwa [map_fst_retype]
  | indexed name relation spec => exact List.mem_append_right _ (List.mem_singleton.2 rfl)

/-- A relation keeps its columns, and their types unless the statement alters one. -/
theorem exec_relation (h : db.exec statement = some db') (hcolumns : db.relations relation = some columns) :
    ∃ columns', db'.relations relation = some columns' ∧
      (∀ name ∈ columns.map Prod.fst, name ∈ columns'.map Prod.fst) ∧
      ∀ c ∈ columns', c.1 ∈ columns.map Prod.fst →
        statement.supersedes (.alterType relation c.1 c.2) = false → c ∈ columns := by
  have hsame (hrelation : db'.relations relation = db.relations relation) :
      ∃ columns', db'.relations relation = some columns' ∧
        (∀ name ∈ columns.map Prod.fst, name ∈ columns'.map Prod.fst) ∧
        ∀ c ∈ columns', c.1 ∈ columns.map Prod.fst →
          statement.supersedes (.alterType relation c.1 c.2) = false → c ∈ columns :=
    ⟨columns, hrelation.trans hcolumns, fun _ hname => hname, fun _ hc _ _ => hc⟩
  cases effect_of_exec h with
  | none _ _ => exact hsame rfl
  | @created other unlogged definitions new =>
    refine hsame (setRelation_other ?_)
    rintro rfl
    rw [hcolumns] at new
    cases new
  | @added other columns' column found new =>
    by_cases hother : relation = other
    · subst hother
      obtain rfl := Option.some.inj (hcolumns.symm.trans found)
      refine ⟨_, setRelation_same _ _ _, fun name hname => by simp [List.mem_map.1 hname], ?_⟩
      intro c hc hname _
      rcases List.mem_append.1 hc with hc | hc
      · exact hc
      · rw [List.mem_singleton.1 hc] at hname
        exact absurd hname new
    · exact hsame (setRelation_other hother)
  | @retyped other column columns' type found present =>
    by_cases hother : relation = other
    · subst hother
      obtain rfl := Option.some.inj (hcolumns.symm.trans found)
      refine ⟨_, setRelation_same _ _ _, fun name hname => ?_, fun c hc _ hkept => ?_⟩
      · rwa [map_fst_retype]
      · refine (mem_retype hc).2 fun hcolumn => ?_
        rw [Statement.supersedes, decide_eq_false_iff_not] at hkept
        exact hkept ⟨rfl, hcolumn.symm⟩
    · exact hsame (setRelation_other hother)
  | indexed name other spec => exact hsame rfl

theorem exec_indexes (h : db.exec statement = some db') {name : String} (hname : name ∈ db.indexes) :
    name ∈ db'.indexes := by
  cases effect_of_exec h with
  | indexed _ _ _ => exact List.mem_append_left _ hname
  | _ => exact hname

/-- A statement that no later one supersedes keeps holding. -/
theorem holds_kept (h : db.exec statement = some db') (hkept : statement.supersedes other = false)
    (hother : other.Holds db) : other.Holds db' := by
  cases other with
  | createTable relation unlogged definitions =>
    obtain ⟨columns, hcolumns⟩ := hother
    obtain ⟨columns', hcolumns', -⟩ := exec_relation h hcolumns
    exact ⟨columns', hcolumns'⟩
  | addColumn relation column =>
    obtain ⟨columns, hcolumns, hin⟩ := hother
    obtain ⟨columns', hcolumns', hnames, -⟩ := exec_relation h hcolumns
    exact ⟨columns', hcolumns', hnames _ hin⟩
  | alterType relation column type =>
    obtain ⟨columns, hcolumns, hin, htype⟩ := hother
    obtain ⟨columns', hcolumns', hnames, hsame⟩ := exec_relation h hcolumns
    refine ⟨columns', hcolumns', hnames _ hin, ?_⟩
    rintro ⟨name, found⟩ hc rfl
    exact htype _ (hsame _ hc hin ((supersedes_type _ _ _ _).trans hkept)) rfl
  | createIndex name relation spec => exact exec_indexes h hother

end Exec

/-! ## What the record relies on -/

/-- A statement that ran takes the place of those it supersedes. -/
def settle (owed : List Statement) (statement : Statement) : List Statement :=
  owed.filter fun other => !statement.supersedes other

def owe (owed : List Statement) (statement : Statement) : List Statement :=
  settle owed statement ++ [statement]

def AllHold (db : Schemas) (owed : List Statement) : Prop := ∀ statement ∈ owed, statement.Holds db

/-- The statements ran in order. -/
inductive Executes : Schemas → List Statement → Schemas → Prop where
  | nil (db : Schemas) : Executes db [] db
  | cons {db mid db' : Schemas} {statement : Statement} {rest : List Statement}
      (head : db.exec statement = some mid) (tail : Executes mid rest db') :
      Executes db (statement :: rest) db'

/-- All the statements of an ensure. -/
def ensureStatements (scope : Scope) (schema : TableSchema) (mode : WriteMode)
    (previous : Option TableSchema) : List Statement :=
  tableDdlStatements scope schema mode previous ++
    (mergeEnsureStatements scope schema mode).toOption.getD []

section Owed

variable {db mid db' : Schemas} {statement : Statement} {statements owed : List Statement}
  {scope : Scope} {schema : TableSchema} {mode : WriteMode} {previous : Option TableSchema}
  {fault : Option Nat}

theorem allHold_settle (h : AllHold db owed) (hexec : db.exec statement = some db') :
    AllHold db' (settle owed statement) := by
  intro other hother
  obtain ⟨hin, hkept⟩ := List.mem_filter.1 hother
  exact holds_kept hexec (by simpa using hkept) (h other hin)

theorem allHold_owe (h : AllHold db owed) (hexec : db.exec statement = some db') :
    AllHold db' (owe owed statement) := by
  intro other hother
  rcases List.mem_append.1 hother with hother | hother
  · exact allHold_settle h hexec other hother
  · rw [List.mem_singleton.1 hother]
    exact holds_exec hexec

theorem Executes.allHold_owe (hrun : Executes db statements db') (h : AllHold db owed) :
    AllHold db' (statements.foldl owe owed) := by
  induction hrun generalizing owed with
  | nil db => exact h
  | cons head tail ih => exact ih (PgCatalog.allHold_owe h head)

theorem Executes.allHold_settle (hrun : Executes db statements db') (h : AllHold db owed) :
    AllHold db' (statements.foldl settle owed) := by
  induction hrun generalizing owed with
  | nil db => exact h
  | cons head tail ih => exact ih (PgCatalog.allHold_settle h head)

/-- What is not an alteration is never superseded. -/
theorem mem_settle {other : Statement} (hin : other ∈ owed) (hkeeps : other.isAlter = false) :
    other ∈ settle owed statement :=
  List.mem_filter.2 ⟨hin, by rw [supersedes_of_not_alter hkeeps]; rfl⟩

theorem mem_foldl_settle {other : Statement} (hin : other ∈ owed) (hkeeps : other.isAlter = false) :
    other ∈ statements.foldl settle owed := by
  induction statements generalizing owed with
  | nil => exact hin
  | cons statement statements ih => exact ih (mem_settle hin hkeeps)

theorem mem_foldl_owe {other : Statement} (hin : other ∈ owed ∨ other ∈ statements)
    (hkeeps : other.isAlter = false) : other ∈ statements.foldl owe owed := by
  induction statements generalizing owed with
  | nil => exact hin.resolve_right List.not_mem_nil
  | cons statement statements ih =>
    refine ih ?_
    rcases hin with hin | hin
    · exact .inl (List.mem_append_left _ (mem_settle hin hkeeps))
    · rcases List.mem_cons.1 hin with rfl | hin
      · exact .inl (List.mem_append_right _ (List.mem_singleton.2 rfl))
      · exact .inr hin

/-! ## An ensure -/

theorem executes_append {more : List Statement} (hfirst : Executes db statements mid)
    (hmore : Executes mid more db') : Executes db (statements ++ more) db' := by
  induction hfirst with
  | nil db => exact hmore
  | cons head tail ih => exact .cons head (ih hmore)

theorem runStatements_executes (fault : Option Nat) (statements : List Statement) (db : Schemas) :
    Executes db (runStatements fault statements db).executed (runStatements fault statements db).db := by
  induction statements generalizing fault db with
  | nil => exact .nil db
  | cons statement statements ih =>
    unfold runStatements
    split
    · exact .nil db
    · split
      · exact .nil db
      · next mid hexec => exact .cons hexec (ih (fault.map (· - 1)) mid)

theorem runStatements_complete (h : (runStatements fault statements db).failed = none) :
    (runStatements fault statements db).executed = statements := by
  induction statements generalizing fault db with
  | nil => rfl
  | cons statement statements ih =>
    unfold runStatements at h ⊢
    split at h
    · cases h
    · next hfault =>
      rw [if_neg hfault]
      split at h
      · cases h
      · exact congrArg (statement :: ·) (ih h)

variable (scope schema mode previous fault db)

theorem ensure_executes : Executes db (ensure scope schema mode previous fault db).executed
    (ensure scope schema mode previous fault db).db := by
  have htables := runStatements_executes fault (tableDdlStatements scope schema mode previous) db
  unfold ensure
  dsimp only
  split
  · exact htables
  · split
    · exact htables
    · exact executes_append htables (runStatements_executes _ _ _)

variable {scope schema mode previous fault db}

theorem ensure_complete (h : (ensure scope schema mode previous fault db).result = .ok ()) :
    (ensure scope schema mode previous fault db).executed =
      ensureStatements scope schema mode previous := by
  unfold ensure at h ⊢
  dsimp only at h ⊢
  split at h
  · cases h
  · next htables =>
    split at h
    · cases h
    · next more hmore =>
      dsimp only at h
      split at h
      · cases h
      · next hmerge =>
        rw [ensureStatements, hmore]
        exact congrArg₂ (· ++ ·) (runStatements_complete htables) (runStatements_complete hmerge)

theorem tableStatement_not_alter {step : EnsureStep} (h : statement ∈ tableStatement scope schema step)
    (hnot : ∀ leg column, step ≠ .widen leg column) : statement.isAlter = false := by
  cases step with
  | widen leg column => exact absurd rfl (hnot leg column)
  | table leg => cases leg <;> rw [List.mem_singleton.1 h] <;> rfl
  | column leg column =>
    rw [List.mem_singleton.1 h]
    rfl
  | _ => cases h

theorem mergeStatement_not_alter {table : String} {step : EnsureStep}
    (h : statement ∈ mergeStatement scope table step) : statement.isAlter = false := by
  cases step with
  | validity which => cases which <;> rw [List.mem_singleton.1 h] <;> rfl
  | index spec =>
    rw [List.mem_singleton.1 h]
    rfl
  | _ => cases h

/-- A table that was ensured again has no less. -/
theorem mem_ensureStatements (previous : Option TableSchema) (h : statement ∈ ensureStatements scope schema mode none) :
    statement ∈ ensureStatements scope schema mode previous ∧ statement.isAlter = false := by
  rcases List.mem_append.1 h with h | h
  · obtain ⟨step, hstep, hstatement⟩ := List.mem_flatMap.1 h
    obtain ⟨hmore, hnot⟩ := mem_schemaSteps_none hstep
    exact ⟨List.mem_append_left _ (List.mem_flatMap.2 ⟨step, hmore, hstatement⟩),
      tableStatement_not_alter hstatement hnot⟩
  · refine ⟨List.mem_append_right _ h, ?_⟩
    unfold mergeEnsureStatements at h
    cases hsteps : Ensure.mergeSteps scope.options schema mode with
    | error e =>
      rw [hsteps] at h
      cases h
    | ok steps =>
      rw [hsteps] at h
      obtain ⟨step, -, hstatement⟩ := List.mem_flatMap.1 h
      exact mergeStatement_not_alter hstatement

end Owed

/-! ## The record of a session -/

/-- The world, and the statements that the session's record relies on. -/
structure Ledger where
  world : World
  owed : List Statement

variable (scope : Scope)

/-- The ensure that a session asks for. -/
def World.ensured (w : World) (session : Session) (schema : TableSchema) (mode : WriteMode)
    (fault : Option Nat) : Ensured :=
  ensure scope schema mode (session.previous schema.table) fault (session.visible w.durable)

/-- A recorded ensure is relied on. One that failed outside a unit has only taken the
place of earlier alterations, and one that failed in a unit left nothing. -/
def Ledger.owedAfter (l : Ledger) (event : Event) : List Statement :=
  match event, l.world.session with
  | .connect, _ => []
  | .ensure schema mode fault, some session =>
    let ensured := l.world.ensured scope session schema mode fault
    match ensured.result, session.unit with
    | .ok (), _ => ensured.executed.foldl owe l.owed
    | .error _, none => ensured.executed.foldl settle l.owed
    | .error _, some _ => l.owed
  | _, _ => l.owed

def Ledger.step (l : Ledger) (event : Event) : Ledger := ⟨l.world.step scope event, l.owedAfter scope event⟩

/-- Whether the call ends in a rollback. -/
def RollsBack (w : World) (session : Session) : Event → Prop
  | .ensure schema mode fault => (w.ensured scope session schema mode fault).result ≠ .ok ()
  | .write table copied => (session.tables.lookup table).isSome ∧ copied = false
  | .existingReceipt answered => answered = false
  | .replay => True
  | .publish landed => landed = false
  | _ => False

/-- A unit that is rolled back has left the schemas as they were. -/
def KeepsDdl (w : World) (event : Event) : Prop :=
  ∀ session work, w.session = some session → session.unit = some work →
    RollsBack scope w session event → work = w.durable

/-- Every recorded table is backed by what the session sees. -/
structure Backed (l : Ledger) : Prop where
  holds : ∀ session, l.world.session = some session → AllHold (session.visible l.world.durable) l.owed
  owes : ∀ session, l.world.session = some session → ∀ table schema mode,
    session.tables.lookup table = some (schema, mode) →
      ∀ statement ∈ ensureStatements scope schema mode none, statement ∈ l.owed

section Steps

variable {scope : Scope} {durable : Schemas} {session : Session} {owed : List Statement}

theorem Backed.withUnit {unit : Option Schemas} {db : Schemas}
    (h : Backed scope ⟨⟨durable, some session⟩, owed⟩)
    (hvisible : unit.getD db = session.visible durable) :
    Backed scope ⟨⟨db, some { session with unit }⟩, owed⟩ := by
  refine ⟨fun s hs => ?_, fun s hs => ?_⟩
  · obtain rfl := Option.some.inj hs
    change AllHold (unit.getD db) owed
    rw [hvisible]
    exact h.holds session rfl
  · obtain rfl := Option.some.inj hs
    exact h.owes session rfl

theorem Backed.rollback (h : Backed scope ⟨⟨durable, some session⟩, owed⟩)
    (hkeeps : ∀ work, session.unit = some work → work = durable) :
    Backed scope ⟨⟨durable, some session.rollback⟩, owed⟩ := by
  refine h.withUnit ?_
  cases hunit : session.unit with
  | none => rw [Session.visible, hunit]
  | some work =>
    rw [Session.visible, hunit]
    exact (hkeeps work hunit).symm

/-- A recorded ensure. -/
theorem Backed.recorded {unit : Option Schemas} {db : Schemas} {schema : TableSchema} {mode : WriteMode}
    {previous : Option TableSchema} (h : Backed scope ⟨⟨durable, some session⟩, owed⟩)
    (hrun : Executes (session.visible durable) (ensureStatements scope schema mode previous)
      (unit.getD db)) :
    Backed scope ⟨⟨db, some { session.record schema mode with unit }⟩,
      (ensureStatements scope schema mode previous).foldl owe owed⟩ := by
  refine ⟨fun s hs => ?_, fun s hs table schema' mode' hlook statement hstatement => ?_⟩
  · obtain rfl := Option.some.inj hs
    exact hrun.allHold_owe (h.holds session rfl)
  · obtain rfl := Option.some.inj hs
    obtain ⟨hmore, hkeeps⟩ := mem_ensureStatements previous hstatement
    change (SessionTables.insert schema.table (schema, mode) session.tables).lookup table = _ at hlook
    rw [lookup_insert] at hlook
    split at hlook
    · obtain ⟨rfl, rfl⟩ := Prod.mk.inj (Option.some.inj hlook)
      exact mem_foldl_owe (.inr hmore) hkeeps
    · exact mem_foldl_owe (.inl (h.owes session rfl table schema' mode' hlook statement hstatement)) hkeeps

/-- An ensure outside a unit that failed on the way. -/
theorem Backed.partlyRun {db : Schemas} {statements : List Statement} (hunit : session.unit = none)
    (h : Backed scope ⟨⟨durable, some session⟩, owed⟩)
    (hrun : Executes (session.visible durable) statements db) :
    Backed scope ⟨⟨db, some session⟩, statements.foldl settle owed⟩ := by
  refine ⟨fun s hs => ?_, fun s hs table schema mode hlook statement hstatement => ?_⟩
  · obtain rfl := Option.some.inj hs
    change AllHold (session.visible db) _
    rw [Session.visible, hunit]
    exact hrun.allHold_settle (h.holds session rfl)
  · obtain rfl := Option.some.inj hs
    obtain ⟨-, hkeeps⟩ := mem_ensureStatements none hstatement
    exact mem_foldl_settle (h.owes session rfl table schema mode hlook statement hstatement) hkeeps

theorem Backed.ensure (h : Backed scope ⟨⟨durable, some session⟩, owed⟩) (schema : TableSchema)
    (mode : WriteMode) (fault : Option Nat)
    (hkeeps : KeepsDdl scope ⟨durable, some session⟩ (.ensure schema mode fault)) :
    Backed scope (Ledger.step scope ⟨⟨durable, some session⟩, owed⟩ (.ensure schema mode fault)) := by
  let ensured := World.ensured scope ⟨durable, some session⟩ session schema mode fault
  have hrun : Executes (session.visible durable) ensured.executed ensured.db :=
    ensure_executes (session.visible durable) scope schema mode (session.previous schema.table) fault
  cases hresult : ensured.result with
  | ok done =>
    have hensure : (PgCatalog.ensure scope schema mode (session.previous schema.table) fault
      (session.visible durable)).result = .ok done := hresult
    have hall : ensured.executed = ensureStatements scope schema mode (session.previous schema.table) :=
      ensure_complete hresult
    cases hunit : session.unit with
    | none =>
      have hstep : Ledger.step scope ⟨⟨durable, some session⟩, owed⟩ (.ensure schema mode fault) =
          ⟨⟨ensured.db, some { session.record schema mode with unit := none }⟩,
            ensured.executed.foldl owe owed⟩ := by
        have hrecord : session.record schema mode =
            { session.record schema mode with unit := none } := by
          rw [← hunit]
          rfl
        rw [← hrecord]
        simp only [Ledger.step, Ledger.owedAfter, World.step, World.runEnsure, World.ensured, hensure,
          hunit]
        rfl
      rw [hstep, hall]
      exact h.recorded (hall ▸ hrun)
    | some work =>
      have hstep : Ledger.step scope ⟨⟨durable, some session⟩, owed⟩ (.ensure schema mode fault) =
          ⟨⟨durable, some { session.record schema mode with unit := some ensured.db }⟩,
            ensured.executed.foldl owe owed⟩ := by
        simp only [Ledger.step, Ledger.owedAfter, World.step, World.runEnsure, World.ensured, hensure,
          hunit]
        rfl
      rw [hstep, hall]
      exact h.recorded (hall ▸ hrun)
  | error e =>
    have hensure : (PgCatalog.ensure scope schema mode (session.previous schema.table) fault
      (session.visible durable)).result = .error e := hresult
    cases hunit : session.unit with
    | none =>
      have hstep : Ledger.step scope ⟨⟨durable, some session⟩, owed⟩ (.ensure schema mode fault) =
          ⟨⟨ensured.db, some session⟩, ensured.executed.foldl settle owed⟩ := by
        simp only [Ledger.step, Ledger.owedAfter, World.step, World.runEnsure, World.ensured, hensure,
          hunit]
        rfl
      rw [hstep]
      exact h.partlyRun hunit hrun
    | some work =>
      have hstep : Ledger.step scope ⟨⟨durable, some session⟩, owed⟩ (.ensure schema mode fault) =
          ⟨⟨durable, some session.rollback⟩, owed⟩ := by
        simp only [Ledger.step, Ledger.owedAfter, World.step, World.runEnsure, World.ensured, hensure,
          hunit]
      rw [hstep]
      refine h.rollback fun work' hwork' => hkeeps session work' rfl hwork' fun hok => ?_
      have hsame := hresult.symm.trans hok
      cases hsame

/-- The cases are the calls; only those that end in a rollback rest on the condition. -/
theorem backed_step (l : Ledger) (event : Event) (h : Backed scope l)
    (hkeeps : KeepsDdl scope l.world event) : Backed scope (l.step scope event) := by
  have hlost (db : Schemas) (owed : List Statement) : Backed scope ⟨⟨db, none⟩, owed⟩ :=
    ⟨fun _ hs => (by cases hs), fun _ hs => (by cases hs)⟩
  have hconnected (db : Schemas) : Backed scope ⟨⟨db, some Session.connect⟩, []⟩ := by
    refine ⟨fun _ _ _ hstatement => absurd hstatement List.not_mem_nil, fun s hs table schema mode hlook => ?_⟩
    obtain rfl := Option.some.inj hs
    cases hlook
  obtain ⟨⟨durable, known⟩, owed⟩ := l
  cases known with
  | none =>
    cases event with
    | connect => exact hconnected durable
    | _ => exact hlost durable owed
  | some session =>
    have hback (hrolls : RollsBack scope ⟨durable, some session⟩ session event) :
        Backed scope ⟨⟨durable, some session.rollback⟩, owed⟩ :=
      h.rollback fun work hwork => hkeeps session work rfl hwork hrolls
    have hbegin : Backed scope ⟨⟨durable, some (session.beginIfClosed durable)⟩, owed⟩ := h.withUnit rfl
    cases event with
    | connect => exact hconnected durable
    | crash => exact hlost durable owed
    | ensure schema mode fault => exact h.ensure schema mode fault hkeeps
    | write table copied =>
      unfold Ledger.step World.step
      dsimp only
      cases hlook : session.tables.lookup table with
      | none => exact h
      | some entry =>
        cases copied with
        | true => exact hbegin
        | false => exact hback ⟨by rw [hlook]; rfl, rfl⟩
    | existingReceipt answered =>
      cases answered with
      | true => exact hbegin
      | false => exact hback rfl
    | replay => exact hback trivial
    | publish landed =>
      unfold Ledger.step World.step World.runPublish
      dsimp only
      cases landed with
      | false =>
        cases hunit : session.unit with
        | none => exact hback rfl
        | some work => exact hback rfl
      | true =>
        cases hunit : session.unit with
        | none => exact hlost durable owed
        | some work =>
          refine h.withUnit ?_
          rw [Session.visible, hunit]
          rfl

end Steps

/-- As long as a unit is only rolled back with the schemas as they were before it, the
whole statement list of every recorded table holds in what the session sees, and so does
each alteration of a column that no later one replaced. -/
theorem catalog_backed (durable : Schemas) (events : List Event)
    (hkeeps : Transition.Meets (World.step scope) (KeepsDdl scope) ⟨durable, none⟩ events) :
    let w := Transition.run (World.step scope) ⟨durable, none⟩ events
    let l := Transition.run (Ledger.step scope) ⟨⟨durable, none⟩, []⟩ events
    l.world = w ∧ ∀ session, w.session = some session →
      (∀ table schema mode, session.tables.lookup table = some (schema, mode) →
        AllHold (session.visible w.durable) (ensureStatements scope schema mode none)) ∧
      AllHold (session.visible w.durable) l.owed := by
  intro w l
  have hempty : Backed scope ⟨⟨durable, none⟩, []⟩ :=
    ⟨fun _ hs => (by cases hs), fun _ hs => (by cases hs)⟩
  obtain ⟨hworld, hbacked⟩ : l.world = w ∧ Backed scope l :=
    Transition.run_simulation_of_meets (fun w l => l.world = w ∧ Backed scope l)
      (fun w l event h hkeeps => ⟨by rw [← h.1]; rfl, backed_step l event h.2 (h.1 ▸ hkeeps)⟩)
      ⟨rfl, hempty⟩ hkeeps
  refine ⟨hworld, fun session hsession => ?_⟩
  rw [← hworld] at hsession ⊢
  have hholds := hbacked.holds session hsession
  refine ⟨fun table schema mode hlook statement hstatement => ?_, hholds⟩
  exact hholds statement (hbacked.owes session hsession table schema mode hlook statement hstatement)

/-! A table that is first ensured while a unit is open, and the unit fails afterwards. -/

def emptySchemas : Schemas := ⟨fun _ => none, []⟩

def demoScope : Scope := ⟨"p", {}, fun text _ => text⟩

def idTable (table : String) : TableSchema := ⟨table, none, [⟨"id", .scalar .int64, false⟩]⟩

/-- A failed write with nothing ensured in its unit, and a table ensured in the next unit. -/
def ensuredInUnit : List Event :=
  [.connect, .ensure (idTable "items") .append none, .write "items" true, .write "items" false,
    .write "items" true, .ensure (idTable "orders") .append none, .publish true]

theorem ensured_in_unit_is_durable :
    ∃ columns, (Transition.run (World.step demoScope) ⟨emptySchemas, none⟩
      ensuredInUnit).durable.relations "orders" = some columns := by
  have hkeeps : Transition.Meets (World.step demoScope) (KeepsDdl demoScope) ⟨emptySchemas, none⟩
      ensuredInUnit := by
    refine ⟨?connect, ?items, ?write, ?failed, ?again, ?orders, ?publish, trivial⟩
    case connect => exact fun _ _ hs => by cases hs
    case items =>
      intro session work hs hunit
      obtain rfl := Option.some.inj hs
      cases hunit
    case write | again | publish => exact fun _ _ _ _ hrolls => by simp [RollsBack] at hrolls
    case failed =>
      intro session work hs hunit _
      obtain rfl := Option.some.inj hs
      exact (Option.some.inj hunit).symm
    case orders =>
      intro session work hs _ hrolls
      obtain rfl := Option.some.inj hs
      exact absurd rfl hrolls
  obtain ⟨-, hbacked⟩ := catalog_backed demoScope emptySchemas ensuredInUnit hkeeps
  exact (hbacked _ rfl).1 "orders" (idTable "orders") .append rfl _ (List.mem_cons_self)

def ensuredInLostUnit : List Event :=
  [.connect, .ensure (idTable "items") .append none, .write "items" true,
    .ensure (idTable "orders") .append none, .write "items" false]

theorem lost_table_stays_recorded :
    let w := Transition.run (World.step demoScope) ⟨emptySchemas, none⟩ ensuredInLostUnit
    (w.session.bind fun session => session.tables.lookup "orders") =
        some (idTable "orders", .append) ∧
      (w.session.map fun session => (session.visible w.durable).relations "orders") = some none := by
  decide

end PgCatalog
