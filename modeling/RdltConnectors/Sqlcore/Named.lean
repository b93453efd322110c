import Mathlib
import RdltConnectors.Sqlcore.Ensure
import RdltConnectors.Sqlcore.Execute

/-!
# The columns a publish names

The checks of an ensured table and the plans of its publish each split on strategy,
identity and parent. Here are the columns that the steps of a plan and the indexes of
a table name, each with the relation it is named on. A table that passed has an arm,
and all that is named is there: a column of its schema, a history column its ensure
adds, or an identity the shredder gives.
-/
namespace Sqlcore.Ensure

open Fallible

/-! ## What is named -/

/-- What a statement of a publish names columns of. -/
inductive Relation where
  | target
  | stage
  | rootStage
  deriving DecidableEq, Repr

/-- Columns named on one relation. -/
def on (relation : Relation) (columns : List String) : List (Relation × String) :=
  columns.map (relation, ·)

@[simp] theorem mem_on {relation other : Relation} {columns : List String} {c : String} :
    (other, c) ∈ on relation columns ↔ other = relation ∧ c ∈ columns := by
  simp [on, eq_comm, and_comm]

variable (options : DestinationOptions) (tables : SessionTables)

/-- The flag a plan resolves: its root's, if the root is a table of the session. -/
def flagColumn (table : String) : Option String :=
  (options.hardDeleteFor (rootOf tables table)).bind fun col =>
    (tables.lookup (rootOf tables table)).map fun _ => col

/-- The survivors of a stage: their identity and the column that orders them. -/
def dedupNames (table : String) (identity : List String) : List (Relation × String) :=
  on .stage (identity ++ ((options.dedupSortFor table).map DedupSort.column).toList)

/-- `INSERT INTO target (columns) SELECT columns FROM stage`. -/
def publishNames (schema : TableSchema) : List (Relation × String) :=
  on .target schema.columnNames ++ on .stage schema.columnNames

def keyedNames (schema : TableSchema) (key : List String) : List (Relation × String) :=
  on .target key ++ on .stage key ++ publishNames schema ++
    dedupNames options schema.table key ++ on .stage (flagColumn options tables schema.table).toList

def identityNames (schema : TableSchema) : List (Relation × String) :=
  let flag := (flagColumn options tables schema.table).toList
  on .rootStage [idColumn] ++ publishNames schema ++ dedupNames options schema.table [idColumn] ++
    if schema.table ≠ rootOf tables schema.table then
      on .target [rootIdColumn] ++ on .rootStage flag ++
        on .stage (if flag = [] then [] else [rootIdColumn])
    else on .target [idColumn] ++ on .stage flag

def scopeNames (scope : List String) : List (Relation × String) := on .target scope ++ on .stage scope

def scd2Names (schema : TableSchema) (key : List String) (scd2 : Scd2Options) :
    List (Relation × String) :=
  on .target key ++ publishNames schema ++ on .target [scd2.validFrom, scd2.validTo] ++
    dedupNames options schema.table key ++
    if scd2.absent ≠ .retire then []
    else scopeNames ((options.mergeScopeFor schema.table).getD [])

def armNames (schema : TableSchema) (key : List String) : MergeArm → List (Relation × String)
  | .keyedDeleteInsert => keyedNames options tables schema key
  | .keyedUpsert => keyedNames options tables schema key
  | .identityDeleteInsert => identityNames options tables schema
  | .scd2 scd2 => scd2Names options schema key scd2

/-- The table a step publishes and the columns it names for it. -/
def stepNames (schema : TableSchema) (mode : WriteMode) : Step → List (Relation × String)
  | .insertSelect _ => publishNames schema
  | .scopeReplace _ scope => scopeNames scope
  | .mergeArm _ arm =>
    match mode with
    | .merge key => armNames options tables schema key arm
    | _ => []
  | _ => []

def publishedBy : Step → Option String
  | .insertSelect table => some table
  | .scopeReplace table _ => some table
  | .mergeArm table _ => some table
  | _ => none

/-! ## What is there -/

/-- A row of a child names its root. -/
def isLineageChild (schema : TableSchema) : Bool :=
  (TableFacts.of schema).hasIdentity && (TableFacts.of schema).isChild

/-- The flag of a child's root, which a merged root declares. -/
def RootFlag (schema : TableSchema) (c : String) : Prop :=
  isLineageChild schema = true ∧ options.hardDeleteFor (rootOf tables schema.table) = some c ∧
    ∀ rootSchema key, tables.lookup (rootOf tables schema.table) = some (rootSchema, .merge key) →
      rootSchema.table = rootOf tables schema.table →
        validateMode options rootSchema (.merge key) = .ok () → c ∈ rootSchema.columnNames

/-- A column of the schema, a history column of an scd2 target, the root identity on a
child of a document. On a root's stage it is the root's identity or the flag. -/
def Provided (schema : TableSchema) : Relation × String → Prop
  | (.target, c) => c ∈ schema.columnNames ∨ (isLineageChild schema = true ∧ c = rootIdColumn) ∨
    (options.strategyFor schema.table = .scd2 ∧
      (c = (options.scd2For schema.table).validFrom ∨ c = (options.scd2For schema.table).validTo))
  | (.stage, c) => c ∈ schema.columnNames ∨ (isLineageChild schema = true ∧ c = rootIdColumn)
  | (.rootStage, c) => c = idColumn ∨ RootFlag options tables schema c

/-! ## What a checked table declares -/

variable {options tables} {ctx : CommitContext} {schema : TableSchema} {key : List String}
  {mode : WriteMode} {steps : List EnsureStep}

theorem checked_of_steps (h : mergeSteps options schema mode = .ok steps) :
    validateMode options schema mode = .ok () := by
  cases mode with
  | merge key =>
    obtain ⟨⟨⟩, hvalid, -⟩ := bind_ok.1 h
    exact hvalid
  | append =>
    obtain ⟨⟨⟩, hvalid, -⟩ := bind_ok.1 h
    exact hvalid
  | replace =>
    obtain ⟨⟨⟩, hvalid, -⟩ := bind_ok.1 h
    exact hvalid

/-- The columns that the options of a table name. -/
structure Declared (options : DestinationOptions) (schema : TableSchema) : Prop where
  flag : ∀ col, options.hardDeleteFor schema.table = some col →
    (TableFacts.of schema).isChild = false ∧ col ∈ schema.columnNames
  sort : ∀ sort, options.dedupSortFor schema.table = some sort →
    (TableFacts.of schema).hasIdentity = false ∧ sort.column ∈ schema.columnNames
  scope : ∀ scope, options.mergeScopeFor schema.table = some scope →
    (TableFacts.of schema).hasIdentity = false ∧ ∀ col ∈ scope, col ∈ schema.columnNames

theorem declared_of_ok (h : validateMode options schema (.merge key) = .ok ()) :
    Declared options schema := by
  obtain ⟨⟨⟩, -, h⟩ := bind_ok.1 h
  obtain ⟨⟨⟩, hflag, h⟩ := bind_ok.1 h
  obtain ⟨⟨⟩, hsort, h⟩ := bind_ok.1 h
  obtain ⟨⟨⟩, hscope, -⟩ := bind_ok.1 h
  constructor
  · intro col hcol
    simp only [checkHardDeleteColumn, hcol] at hflag
    obtain ⟨⟨⟩, hchild, hcolumn⟩ := bind_ok.1 hflag
    exact ⟨refuse_ok.1 hchild, present_of_check hcolumn⟩
  · intro sort hcol
    simp only [checkDedupSortColumn, hcol] at hsort
    obtain ⟨⟨⟩, hidentity, hsort⟩ := bind_ok.1 hsort
    obtain ⟨⟨⟩, hcolumn, -⟩ := bind_ok.1 hsort
    exact ⟨refuse_ok.1 hidentity, present_of_check hcolumn⟩
  · intro scope hcols
    simp only [checkMergeScopeColumns, hcols] at hscope
    obtain ⟨⟨⟩, hidentity, hscope⟩ := bind_ok.1 hscope
    obtain ⟨⟨⟩, -, hscope⟩ := bind_ok.1 hscope
    constructor
    · exact refuse_ok.1 hidentity
    · intro col hcol
      obtain ⟨⟨⟩, hcolumn, -⟩ := bind_ok.1 (checkEach_ok.1 hscope col hcol)
      exact present_of_check hcolumn

/-! ## The steps of a table -/

theorem mem_mergeSteps {table : String} {planned : List Step} {step : Step}
    (h : Sqlcore.mergeSteps options table schema = .ok planned) (hstep : step ∈ planned) :
    (∃ scope, step = .scopeReplace table scope ∧ options.mergeScopeFor table = some scope) ∨
      ∃ arm, step = .mergeArm table arm ∧ selectArm table (TableFacts.of schema).hasIdentity
        (options.strategyFor table) options = .ok arm := by
  obtain ⟨arm, harm, hplanned⟩ := bind_ok.1 h
  rw [pure_ok] at hplanned
  subst hplanned
  cases List.mem_append.1 hstep with
  | inr hstep => exact .inr ⟨arm, List.mem_singleton.1 hstep, harm⟩
  | inl hstep =>
    cases hscope : options.mergeScopeFor table with
    | none =>
      simp only [MergeContext.resolve, hscope] at hstep
      cases hstep
    | some scope =>
      simp only [MergeContext.resolve, hscope] at hstep
      split at hstep
      · exact .inl ⟨scope, List.mem_singleton.1 hstep, rfl⟩
      · cases hstep

/-- A table is published from its stage, or merged. -/
theorem mem_publishTable {table : String} {part : List Step × List String} {step : Step}
    (h : publishTable options ctx (table, schema, mode) = .ok part) (hstep : step ∈ part.1) :
    step = .clearTarget table ∨ step = .insertSelect table ∨
      ∃ planned, mode.isMerge = true ∧ Sqlcore.mergeSteps options table schema = .ok planned ∧
        step ∈ planned := by
  cases mode with
  | append =>
    obtain rfl := Except.ok.inj h
    dsimp only at hstep
    split at hstep
    · exact .inr (.inl (List.mem_singleton.1 hstep))
    · cases hstep
  | replace =>
    unfold publishTable at h
    dsimp only at h
    split at h
    · obtain rfl := Except.ok.inj h
      cases List.mem_append.1 hstep with
      | inl hstep =>
        split at hstep
        · cases hstep
        · exact .inl (List.mem_singleton.1 hstep)
      | inr hstep => exact .inr (.inl (List.mem_singleton.1 hstep))
    · obtain rfl := Except.ok.inj h
      cases hstep
  | merge key =>
    unfold publishTable at h
    dsimp only at h
    have hmerged {marks : List String} (h : (do
        return (← Sqlcore.mergeSteps options table schema, marks)) = Except.ok part) :
        ∃ planned, Sqlcore.mergeSteps options table schema = .ok planned ∧ step ∈ planned := by
      obtain ⟨planned, hplanned, hpart⟩ := bind_ok.1 h
      rw [pure_ok] at hpart
      subst hpart
      exact ⟨planned, hplanned, hstep⟩
    split at h
    · split at h
      · obtain rfl := Except.ok.inj h
        cases hstep
      · cases h
      · obtain ⟨planned, hplanned⟩ := hmerged h
        exact .inr (.inr ⟨planned, rfl, hplanned⟩)
    · obtain ⟨planned, hplanned⟩ := hmerged h
      exact .inr (.inr ⟨planned, rfl, hplanned⟩)

/-- A step that publishes a table comes from the entry of the table. -/
theorem planned_step {script : CommitScript} {step : Step} (hsorted : tables.Sorted)
    (hmem : (schema.table, schema, mode) ∈ tables)
    (h : planCommit tables options ctx = .ok script) (hstep : step ∈ script.steps)
    (hpublished : publishedBy step = some schema.table) :
    step = .insertSelect schema.table ∨
      ∃ planned, mode.isMerge = true ∧
        Sqlcore.mergeSteps options schema.table schema = .ok planned ∧ step ∈ planned := by
  have htruncation : step ∉ truncations tables ctx.fullLoadPublish := by
    intro hin
    obtain ⟨e, -, rfl⟩ := List.mem_map.1 hin
    cases hpublished
  unfold planCommit at h
  split at h
  · obtain rfl := Except.ok.inj h
    exact absurd hstep htruncation
  · obtain ⟨parts, hparts, hscript⟩ := bind_ok.1 h
    rw [pure_ok] at hscript
    subst hscript
    simp only [List.append_assoc, List.mem_append, List.mem_flatMap, List.mem_cons,
      List.not_mem_nil, or_false] at hstep
    obtain ⟨part, hpart, hstep⟩ | hstep | rfl | rfl := hstep
    · obtain ⟨⟨table, schema', mode'⟩, hentry, hpublish⟩ := mapM_mem hparts hpart
      have hcases := mem_publishTable hpublish hstep
      obtain rfl : table = schema.table := by
        obtain rfl | rfl | ⟨planned, -, hplanned, hin⟩ := hcases
        · cases hpublished
        · exact Option.some.inj hpublished
        · obtain ⟨scope, rfl, -⟩ | ⟨arm, rfl, -⟩ := mem_mergeSteps hplanned hin
          · exact Option.some.inj hpublished
          · exact Option.some.inj hpublished
      have hsame : some (schema', mode') = some (schema, mode) :=
        (lookup_of_mem hsorted.nodup hentry).symm.trans (lookup_of_mem hsorted.nodup hmem)
      obtain ⟨rfl, rfl⟩ := Prod.mk.inj (Option.some.inj hsame)
      obtain rfl | hcases := hcases
      · cases hpublished
      · exact hcases
    · exact absurd hstep htruncation
    · cases hpublished
    · cases hpublished

theorem selectArm_total (h : validateMode options schema mode = .ok ()) (hmerge : mode.isMerge = true) :
    ∃ arm, selectArm schema.table (TableFacts.of schema).hasIdentity
      (options.strategyFor schema.table) options = .ok arm := by
  cases mode with
  | merge key => exact selectArm_ok h
  | append => cases hmerge
  | replace => cases hmerge

/-- An arm is refused for its table only. -/
theorem armUnsupported_of {table what : String}
    (h : planCommit tables options ctx = .error (.armUnsupported table what)) :
    ∃ schema mode, (table, schema, mode) ∈ tables ∧ mode.isMerge = true ∧
      selectArm table (TableFacts.of schema).hasIdentity (options.strategyFor table) options =
        .error (.armUnsupported table what) := by
  unfold planCommit at h
  split at h
  · cases h
  · cases hparts : tables.mapM (publishTable options ctx) with
    | ok parts =>
      rw [hparts] at h
      cases h
    | error e =>
      rw [hparts] at h
      obtain rfl := Except.error.inj h
      obtain ⟨⟨t, schema, mode⟩, hentry, hpublish⟩ := mapM_error hparts
      cases mode with
      | append => cases hpublish
      | replace =>
        unfold publishTable at hpublish
        dsimp only at hpublish
        split at hpublish
        · cases hpublish
        · cases hpublish
      | merge key =>
        have hrefused {marks : List String} (hmerged : (do
            return (← Sqlcore.mergeSteps options t schema, marks)) =
              Except.error (ε := CommitError) (.armUnsupported table what)) :
            selectArm t (TableFacts.of schema).hasIdentity (options.strategyFor t) options =
              .error (.armUnsupported table what) := by
          cases harm : selectArm t (TableFacts.of schema).hasIdentity (options.strategyFor t)
            options with
          | ok arm =>
            simp only [Sqlcore.mergeSteps, MergeContext.resolve, harm, bind_ok_left] at hmerged
            cases hmerged
          | error e =>
            simp only [Sqlcore.mergeSteps, MergeContext.resolve, harm, bind_error_left] at hmerged
            rw [Except.error.inj hmerged]
        have hrefused : selectArm t (TableFacts.of schema).hasIdentity (options.strategyFor t)
            options = .error (.armUnsupported table what) := by
          unfold publishTable at hpublish
          dsimp only at hpublish
          split at hpublish
          · split at hpublish
            · cases hpublish
            · cases hpublish
            · exact hrefused hpublish
          · exact hrefused hpublish
        obtain rfl : t = table := by
          unfold selectArm at hrefused
          split at hrefused
          all_goals cases hrefused
          all_goals rfl
        exact ⟨schema, .merge key, hentry, rfl, hrefused⟩

/-! ## What the steps name is there -/

theorem rootOf_of_root (hlookup : tables.lookup schema.table = some (schema, mode))
    (hroot : (TableFacts.of schema).isChild = false) : rootOf tables schema.table = schema.table := by
  have hnone : schema.parent = none := Option.not_isSome_iff_eq_none.1 (by simpa [TableFacts.of] using hroot)
  simp only [rootOf, rootDepthBound, rootWalk, hlookup, Option.bind_some, hnone]

theorem flagColumn_eq {table col : String} (h : flagColumn options tables table = some col) :
    options.hardDeleteFor (rootOf tables table) = some col := by
  obtain ⟨flag, hflag, hsome⟩ := Option.bind_eq_some_iff.1 h
  obtain ⟨-, -, rfl⟩ := Option.map_eq_some_iff.1 hsome
  exact hflag

theorem publishNames_provided {name : Relation × String} (h : name ∈ publishNames schema) :
    Provided options tables schema name := by
  obtain ⟨relation, c⟩ := name
  obtain h | h := List.mem_append.1 h
  · obtain ⟨rfl, hc⟩ := mem_on.1 h
    exact .inl hc
  · obtain ⟨rfl, hc⟩ := mem_on.1 h
    exact .inl hc

theorem scopeNames_provided {scope : List String} (hscope : ∀ col ∈ scope, col ∈ schema.columnNames)
    {name : Relation × String} (h : name ∈ scopeNames scope) : Provided options tables schema name := by
  obtain ⟨relation, c⟩ := name
  obtain h | h := List.mem_append.1 h
  · obtain ⟨rfl, hc⟩ := mem_on.1 h
    exact .inl (hscope c hc)
  · obtain ⟨rfl, hc⟩ := mem_on.1 h
    exact .inl (hscope c hc)

theorem dedupNames_provided (hdeclared : Declared options schema) {identity : List String}
    (hidentity : ∀ col ∈ identity, col ∈ schema.columnNames) {name : Relation × String}
    (h : name ∈ dedupNames options schema.table identity) : Provided options tables schema name := by
  obtain ⟨relation, c⟩ := name
  obtain ⟨rfl, hc⟩ := mem_on.1 h
  obtain hc | hc := List.mem_append.1 hc
  · exact .inl (hidentity c hc)
  · obtain ⟨sort, hsort, rfl⟩ := Option.map_eq_some_iff.1 (Option.mem_toList.1 hc)
    exact .inl (hdeclared.sort sort hsort).2

/-- The key of a table merged by key is in its schema. -/
theorem key_declared (h : validateMode options schema (.merge key) = .ok ())
    (hkeyed : (TableFacts.of schema).hasIdentity = false ∧ (TableFacts.of schema).isChild = false) :
    ∀ col ∈ key, col ∈ schema.columnNames :=
  (validated_of_ok hkeyed h).key

theorem keyedNames_provided (hlookup : tables.lookup schema.table = some (schema, .merge key))
    (hvalid : validateMode options schema (.merge key) = .ok ())
    (hkeyed : (TableFacts.of schema).hasIdentity = false ∧ (TableFacts.of schema).isChild = false)
    {name : Relation × String} (h : name ∈ keyedNames options tables schema key) :
    Provided options tables schema name := by
  have hkey := key_declared hvalid hkeyed
  have hdeclared := declared_of_ok hvalid
  obtain ⟨relation, c⟩ := name
  simp only [keyedNames, List.mem_append] at h
  obtain (((h | h) | h) | h) | h := h
  · obtain ⟨rfl, hc⟩ := mem_on.1 h
    exact .inl (hkey c hc)
  · obtain ⟨rfl, hc⟩ := mem_on.1 h
    exact .inl (hkey c hc)
  · exact publishNames_provided h
  · exact dedupNames_provided hdeclared hkey h
  · obtain ⟨rfl, hc⟩ := mem_on.1 h
    have hflag := flagColumn_eq (Option.mem_toList.1 hc)
    rw [rootOf_of_root hlookup hkeyed.2] at hflag
    exact .inl (hdeclared.flag c hflag).2

theorem idColumn_declared (hidentity : (TableFacts.of schema).hasIdentity = true) :
    idColumn ∈ schema.columnNames := by
  obtain ⟨column, hcolumn, hname⟩ := List.any_eq_true.1 hidentity
  exact List.mem_map.2 ⟨column, hcolumn, of_decide_eq_true hname⟩

/-- A table that is not its own root has a parent. -/
theorem isLineageChild_of_ne (hlookup : tables.lookup schema.table = some (schema, mode))
    (hidentity : (TableFacts.of schema).hasIdentity = true)
    (hne : schema.table ≠ rootOf tables schema.table) : isLineageChild schema = true := by
  rw [isLineageChild, hidentity, Bool.true_and]
  cases hchild : (TableFacts.of schema).isChild with
  | true => rfl
  | false => exact absurd (rootOf_of_root hlookup hchild).symm hne

theorem identityNames_provided (hlookup : tables.lookup schema.table = some (schema, .merge key))
    (hvalid : validateMode options schema (.merge key) = .ok ())
    (hidentity : (TableFacts.of schema).hasIdentity = true)
    {name : Relation × String} (h : name ∈ identityNames options tables schema) :
    Provided options tables schema name := by
  have hdeclared := declared_of_ok hvalid
  have hid := idColumn_declared hidentity
  obtain ⟨relation, c⟩ := name
  simp only [identityNames, List.mem_append] at h
  obtain ((h | h) | h) | h := h
  · obtain ⟨rfl, hc⟩ := mem_on.1 h
    exact .inl (List.mem_singleton.1 hc)
  · exact publishNames_provided h
  · apply dedupNames_provided hdeclared _ h
    intro col hcol
    rw [List.mem_singleton.1 hcol]
    exact hid
  · split at h
    · next hne =>
      have hchild := isLineageChild_of_ne hlookup hidentity hne
      simp only [List.mem_append] at h
      obtain (h | h) | h := h
      · obtain ⟨rfl, hc⟩ := mem_on.1 h
        exact .inr (.inl ⟨hchild, List.mem_singleton.1 hc⟩)
      · obtain ⟨rfl, hc⟩ := mem_on.1 h
        have hflag := flagColumn_eq (Option.mem_toList.1 hc)
        refine .inr ⟨hchild, hflag, ?_⟩
        intro rootSchema rootKey _ hname hroot
        exact ((declared_of_ok hroot).flag c (hname ▸ hflag)).2
      · obtain ⟨rfl, hc⟩ := mem_on.1 h
        split at hc
        · cases hc
        · exact .inr ⟨hchild, List.mem_singleton.1 hc⟩
    · next hroot =>
      obtain h | h := List.mem_append.1 h
      · obtain ⟨rfl, hc⟩ := mem_on.1 h
        rw [List.mem_singleton.1 hc]
        exact .inl hid
      · obtain ⟨rfl, hc⟩ := mem_on.1 h
        have hflag := flagColumn_eq (Option.mem_toList.1 hc)
        rw [← not_not.1 hroot] at hflag
        exact .inl (hdeclared.flag c hflag).2

theorem scd2Names_provided (hvalid : validateMode options schema (.merge key) = .ok ())
    (hkeyed : (TableFacts.of schema).hasIdentity = false ∧ (TableFacts.of schema).isChild = false)
    (hscd2 : options.strategyFor schema.table = .scd2) {name : Relation × String}
    (h : name ∈ scd2Names options schema key (options.scd2For schema.table)) :
    Provided options tables schema name := by
  have hkey := key_declared hvalid hkeyed
  have hdeclared := declared_of_ok hvalid
  obtain ⟨relation, c⟩ := name
  simp only [scd2Names, List.mem_append] at h
  obtain (((h | h) | h) | h) | h := h
  · obtain ⟨rfl, hc⟩ := mem_on.1 h
    exact .inl (hkey c hc)
  · exact publishNames_provided h
  · obtain ⟨rfl, hc⟩ := mem_on.1 h
    exact .inr (.inr ⟨hscd2, by simpa using hc⟩)
  · exact dedupNames_provided hdeclared hkey h
  · split at h
    · cases h
    · cases hscope : options.mergeScopeFor schema.table with
      | none =>
        rw [hscope] at h
        cases h
      | some scope =>
        rw [hscope] at h
        exact scopeNames_provided (hdeclared.scope scope hscope).2 h

/-- A keyed table and a table of documents: all that carries an identity or is no child. -/
theorem keyed_of_not {facts : TableFacts} (hlineage : facts.hasIdentity = true ∨ facts.isChild = false)
    (hidentity : facts.hasIdentity = false) : facts.hasIdentity = false ∧ facts.isChild = false := by
  obtain h | h := hlineage
  · rw [hidentity] at h
    cases h
  · exact ⟨hidentity, h⟩

theorem armNames_provided {arm : MergeArm}
    (hlookup : tables.lookup schema.table = some (schema, .merge key))
    (hvalid : validateMode options schema (.merge key) = .ok ())
    (hlineage : (TableFacts.of schema).hasIdentity = true ∨ (TableFacts.of schema).isChild = false)
    (harm : selectArm schema.table (TableFacts.of schema).hasIdentity
      (options.strategyFor schema.table) options = .ok arm)
    {name : Relation × String} (h : name ∈ armNames options tables schema key arm) :
    Provided options tables schema name := by
  cases hidentity : (TableFacts.of schema).hasIdentity with
  | true =>
    rw [hidentity] at harm
    cases hstrategy : options.strategyFor schema.table with
    | deleteInsert =>
      rw [hstrategy] at harm
      obtain rfl := Except.ok.inj harm
      exact identityNames_provided hlookup hvalid hidentity h
    | upsert =>
      rw [hstrategy] at harm
      cases harm
    | scd2 =>
      rw [hstrategy] at harm
      cases harm
  | false =>
    have hkeyed := keyed_of_not hlineage hidentity
    rw [hidentity] at harm
    cases hstrategy : options.strategyFor schema.table with
    | deleteInsert =>
      rw [hstrategy] at harm
      obtain rfl := Except.ok.inj harm
      exact keyedNames_provided hlookup hvalid hkeyed h
    | upsert =>
      rw [hstrategy] at harm
      obtain rfl := Except.ok.inj harm
      exact keyedNames_provided hlookup hvalid hkeyed h
    | scd2 =>
      rw [hstrategy] at harm
      obtain rfl := Except.ok.inj harm
      exact scd2Names_provided hvalid hkeyed hstrategy h

theorem stepNames_provided {script : CommitScript} {step : Step} (hsorted : tables.Sorted)
    (hmem : (schema.table, schema, mode) ∈ tables) (hvalid : validateMode options schema mode = .ok ())
    (hlineage : (TableFacts.of schema).hasIdentity = true ∨ (TableFacts.of schema).isChild = false)
    (hplan : planCommit tables options ctx = .ok script) (hstep : step ∈ script.steps)
    (hpublished : publishedBy step = some schema.table) {name : Relation × String}
    (h : name ∈ stepNames options tables schema mode step) : Provided options tables schema name := by
  obtain rfl | ⟨planned, hmerge, hplanned, hin⟩ := planned_step hsorted hmem hplan hstep hpublished
  · exact publishNames_provided h
  · cases mode with
    | append => cases hmerge
    | replace => cases hmerge
    | merge key =>
      obtain ⟨scope, rfl, hscope⟩ | ⟨arm, rfl, harm⟩ := mem_mergeSteps hplanned hin
      · exact scopeNames_provided ((declared_of_ok hvalid).scope scope hscope).2 h
      · exact armNames_provided (lookup_of_mem hsorted.nodup hmem) hvalid hlineage harm h

/-! ## What the indexes name is there -/

/-- The index over the key, as the strategy has it. -/
def identityIndex (options : DestinationOptions) (table : String) (key : List String) : IndexSpec :=
  match options.strategyFor table with
  | .upsert => ⟨true, key⟩
  | .deleteInsert => ⟨false, key⟩
  | .scd2 => ⟨false, key ++ [(options.scd2For table).validTo]⟩

theorem identityIndex_provided (hkey : ∀ c ∈ key, c ∈ schema.columnNames) :
    ∀ c ∈ (identityIndex options schema.table key).columns,
      Provided options tables schema (.target, c) := by
  intro c hc
  unfold identityIndex at hc
  cases hstrategy : options.strategyFor schema.table with
  | upsert =>
    rw [hstrategy] at hc
    exact .inl (hkey c hc)
  | deleteInsert =>
    rw [hstrategy] at hc
    exact .inl (hkey c hc)
  | scd2 =>
    rw [hstrategy] at hc
    obtain hc | hc := List.mem_append.1 hc
    · exact .inl (hkey c hc)
    · exact .inr (.inr ⟨hstrategy, .inr (List.mem_singleton.1 hc)⟩)

theorem indexPlan_provided (hvalid : validateMode options schema (.merge key) = .ok ())
    (hlineage : (TableFacts.of schema).hasIdentity = true ∨ (TableFacts.of schema).isChild = false)
    {spec : IndexSpec} (hspec : spec ∈ indexPlan options schema.table key
      (TableFacts.of schema).hasIdentity (TableFacts.of schema).isChild)
    {c : String} (hc : c ∈ spec.columns) : Provided options tables schema (.target, c) := by
  unfold indexPlan at hspec
  cases hidentity : (TableFacts.of schema).hasIdentity with
  | true =>
    rw [hidentity, if_pos rfl] at hspec
    obtain rfl | hspec := List.mem_cons.1 hspec
    · rw [List.mem_singleton.1 hc]
      exact .inl (idColumn_declared hidentity)
    · cases hchild : (TableFacts.of schema).isChild with
      | false =>
        rw [hchild, if_neg Bool.false_ne_true] at hspec
        cases hspec
      | true =>
        rw [hchild, if_pos rfl] at hspec
        obtain rfl := List.mem_singleton.1 hspec
        exact .inr (.inl ⟨by rw [isLineageChild, hidentity, hchild, Bool.and_self], List.mem_singleton.1 hc⟩)
  | false =>
    have hkey := key_declared hvalid (keyed_of_not hlineage hidentity)
    rw [hidentity, if_neg Bool.false_ne_true] at hspec
    have hidentified : ∀ c ∈ (identityIndex options schema.table key).columns,
        Provided options tables schema (.target, c) := identityIndex_provided hkey
    cases hscope : options.mergeScopeFor schema.table with
    | none =>
      rw [hscope] at hspec
      obtain rfl : spec = identityIndex options schema.table key := List.mem_singleton.1 hspec
      exact hidentified c hc
    | some scope =>
      rw [hscope] at hspec
      obtain hspec | hspec := List.mem_cons.1 hspec
      · obtain rfl : spec = identityIndex options schema.table key := hspec
        exact hidentified c hc
      · obtain rfl := List.mem_singleton.1 hspec
        exact .inl (((declared_of_ok hvalid).scope scope hscope).2 c hc)

/-- The steps of a merge table: its history columns and its indexes. -/
theorem steps_of_merge (h : mergeSteps options schema (.merge key) = .ok steps) :
    steps = (if options.strategyFor schema.table = .scd2 then
        [EnsureStep.validity .validFrom, .validity .validTo] else []) ++
      (indexPlan options schema.table key (TableFacts.of schema).hasIdentity
        (TableFacts.of schema).isChild).map EnsureStep.index := by
  obtain ⟨⟨⟩, -, h⟩ := bind_ok.1 h
  exact (Except.ok.inj h).symm

/-! ## Checked tables -/

/-- A table that passed its checks has an arm in every plan, its options name columns of
its schema, and an scd2 table is given its history columns. All that its publish and its
indexes name is provided, if it carries an identity or is no child. -/
theorem checked_table_binds (hsorted : tables.Sorted)
    (hmem : (schema.table, schema, mode) ∈ tables)
    (hok : mergeSteps options schema mode = .ok steps) :
    (∀ what, planCommit tables options ctx ≠ .error (.armUnsupported schema.table what)) ∧
    (mode.isMerge = true → Declared options schema ∧
      (options.strategyFor schema.table = .scd2 →
        EnsureStep.validity .validFrom ∈ steps ∧ EnsureStep.validity .validTo ∈ steps)) ∧
    ((TableFacts.of schema).hasIdentity = true ∨ (TableFacts.of schema).isChild = false →
      (∀ script, planCommit tables options ctx = .ok script → ∀ step ∈ script.steps,
        publishedBy step = some schema.table →
          ∀ name ∈ stepNames options tables schema mode step, Provided options tables schema name) ∧
      ∀ spec, EnsureStep.index spec ∈ steps →
        ∀ c ∈ spec.columns, Provided options tables schema (.target, c)) := by
  have hvalid := checked_of_steps hok
  constructor
  · intro what hrefused
    obtain ⟨schema', mode', hmem', hmerge, harm⟩ := armUnsupported_of hrefused
    have hsame : some (schema', mode') = some (schema, mode) :=
      (lookup_of_mem hsorted.nodup hmem').symm.trans (lookup_of_mem hsorted.nodup hmem)
    obtain ⟨rfl, rfl⟩ := Prod.mk.inj (Option.some.inj hsame)
    obtain ⟨arm, hchosen⟩ := selectArm_total hvalid hmerge
    rw [hchosen] at harm
    cases harm
  constructor
  · intro hmerge
    cases mode with
    | append => cases hmerge
    | replace => cases hmerge
    | merge key =>
      obtain rfl := steps_of_merge hok
      refine ⟨declared_of_ok hvalid, ?_⟩
      intro hscd2
      rw [if_pos hscd2]
      simp
  · intro hlineage
    constructor
    · intro script hplan step hstep hpublished name hname
      exact stepNames_provided hsorted hmem hvalid hlineage hplan hstep hpublished hname
    · intro spec hspec c hc
      cases mode with
      | append =>
        obtain ⟨⟨⟩, -, h⟩ := bind_ok.1 hok
        obtain rfl := Except.ok.inj h
        cases hspec
      | replace =>
        obtain ⟨⟨⟩, -, h⟩ := bind_ok.1 hok
        obtain rfl := Except.ok.inj h
        cases hspec
      | merge key =>
        obtain rfl := steps_of_merge hok
        have hplanned : spec ∈ indexPlan options schema.table key
            (TableFacts.of schema).hasIdentity (TableFacts.of schema).isChild := by
          obtain hspec | hspec := List.mem_append.1 hspec
          · split at hspec
            · simp at hspec
            · cases hspec
          · obtain ⟨_, hin, heq⟩ := List.mem_map.1 hspec
            exact EnsureStep.index.inj heq ▸ hin
        exact indexPlan_provided hvalid hlineage hplanned hc

/-- A fresh unit of a load that has committed nothing. -/
def freshContext (feeds : List String) : CommitContext :=
  { replayed := false, loadCommittedBefore := false, singleUnitDone := [], stagedNonempty := feeds,
    fullLoadPublish := .directToTarget, clearedTargets := [] }

def ordersSchema (parent : Option String) (names : List String) : TableSchema :=
  ⟨"orders", parent, names.map fun name => ⟨name, .scalar .int64, true⟩⟩

def ordersOptions (opts : TableOptions) : DestinationOptions := { tables := [("orders", opts)] }

theorem checked_table_binds_orders :
    Provided (ordersOptions { mergeStrategy := some .scd2 })
      [("orders", ordersSchema none ["id", "total"], .merge ["id"])]
      (ordersSchema none ["id", "total"]) (.target, "_rdlt_valid_to") := by
  have h := @checked_table_binds (ordersOptions { mergeStrategy := some .scd2 })
    [("orders", ordersSchema none ["id", "total"], .merge ["id"])] (freshContext [])
    (ordersSchema none ["id", "total"]) (.merge ["id"])
    [.validity .validFrom, .validity .validTo, .index ⟨false, ["id", "_rdlt_valid_to"]⟩]
    (List.pairwise_singleton _ _) (by decide) (by decide)
  exact (h.2.2 (.inr rfl)).2 ⟨false, ["id", "_rdlt_valid_to"]⟩ (by decide) "_rdlt_valid_to" (by decide)

/-- A history's table is indexed and closed by a column that may not be in the schema. A
child without an identity is merged by a key that nothing checked. A child of a document
is indexed by an identity of its root that nothing checked. -/
theorem names_beyond_the_schema :
    (mergeSteps (ordersOptions { mergeStrategy := some .scd2 }) (ordersSchema none ["id", "total"])
        (.merge ["id"]) = .ok [.validity .validFrom, .validity .validTo,
          .index ⟨false, ["id", "_rdlt_valid_to"]⟩] ∧
      "_rdlt_valid_to" ∉ (ordersSchema none ["id", "total"]).columnNames) ∧
    (mergeSteps {} (ordersSchema (some "customers") ["total"]) (.merge ["id"]) =
        .ok [.index ⟨false, ["id"]⟩] ∧
      planCommit [("orders", ordersSchema (some "customers") ["total"], .merge ["id"])] {}
          (freshContext []) = .ok ⟨[.mergeArm "orders" .keyedDeleteInsert, .truncateStage "orders",
            .upsertState, .insertReceipt], []⟩ ∧
      (.target, "id") ∈ keyedNames {} [("orders", ordersSchema (some "customers") ["total"],
        .merge ["id"])] (ordersSchema (some "customers") ["total"]) ["id"] ∧
      "id" ∉ (ordersSchema (some "customers") ["total"]).columnNames) ∧
    (mergeSteps {} (ordersSchema (some "customers") ["_rdlt_id"]) (.merge ["id"]) =
        .ok [.index ⟨false, ["_rdlt_id"]⟩, .index ⟨false, ["_rdlt_root_id"]⟩] ∧
      "_rdlt_root_id" ∉ (ordersSchema (some "customers") ["_rdlt_id"]).columnNames) := by
  decide

end Sqlcore.Ensure
