import RdltConnectors.Iceberg.Commit
import RdltConnectors.Iceberg.Schema
import RdltConnectors.Library.Transition

/-!
# Reconciling a live table

Each attempt checks the partition spec, compares every wanted column the table has, and
adds those it has not. The library adds them to the schema it finds, which can be later
than the one they were read off, or rejects them; after a conflict the attempt is made
again on the competitor's schema. What it settles on or commits has every wanted column,
and since every commit only adds columns nothing that was there is lost.
-/
namespace Iceberg

open Optimistic Transition

inductive Transform where
  | identity
  | year
  | month
  | day
  | hour
  | bucket (n : Nat)
  | truncate (w : Nat)
  | void
  | unknown
  deriving DecidableEq, Repr

inductive PartitionTransform where
  | identity
  | year
  | month
  | day
  | hour
  | bucket (n : Nat)
  | truncate (w : Nat)
  deriving DecidableEq, Repr

/-- The configured vocabulary is part of the library's. -/
def toTransform : PartitionTransform → Transform
  | .identity => .identity
  | .year => .year
  | .month => .month
  | .day => .day
  | .hour => .hour
  | .bucket n => .bucket n
  | .truncate w => .truncate w

structure PartitionField where
  column : String
  transform : PartitionTransform
  deriving DecidableEq, Repr

/-- A live table: its current schema, and the sources of its default partition spec. -/
structure TableMetadata where
  lastColumnId : Nat
  fields : List NestedField
  spec : List (Nat × Transform)
  names : (fields.map NestedField.name).Nodup
  ids : ((flattenAll fields).map NestedField.id).Nodup
  sources : ∀ source ∈ spec, source.1 ≤ lastColumnId

/-- An optional column to add. -/
structure AddColumn where
  name : String
  fieldType : IcebergType

/-- What is the library's: how it renders, and what a schema update commits. -/
structure SchemaLibrary where
  displayType : IcebergType → String
  displayTransform : Transform → String
  addColumns : TableMetadata → List AddColumn → Except String TableMetadata

/-- The live spec, with a source the schema no longer names rendered by its id. -/
def TableMetadata.livePairs (table : TableMetadata) : List (String × Transform) :=
  table.spec.map fun source =>
    (((fieldById table.fields source.1).map NestedField.name).getD ("#" ++ toString source.1),
      source.2)

def wantedPairs (fields : List PartitionField) : List (String × Transform) :=
  fields.map fun field => (field.column, toTransform field.transform)

/-- `column:transform` pairs joined by `", "`. -/
def render (library : SchemaLibrary) (pairs : List (String × Transform)) : String :=
  ", ".intercalate (pairs.map fun pair => pair.1 ++ ":" ++ library.displayTransform pair.2)

def checkLiveSpec (library : SchemaLibrary) (context : String) (table : TableMetadata)
    (fields : List PartitionField) : Except String Unit :=
  if table.livePairs ≠ wantedPairs fields then
    .error (context ++ ": configured partition_by [" ++ render library (wantedPairs fields) ++
      "] does not match the live table's partition spec [" ++ render library table.livePairs ++
      "] — partition specs are fixed at creation (drop the table or align the config)")
  else .ok ()

/-- The wanted columns the table has not, unless one it has drifted. -/
def additions (library : SchemaLibrary) (context : String) (live : List NestedField) :
    List NestedField → Except String (List AddColumn)
  | [] => .ok []
  | field :: rest =>
    match live.find? fun liveField => liveField.name == field.name with
    | some liveField =>
      match compareField field liveField with
      | some drift => .error (context ++ " column `" ++ field.name ++ "`: " ++
          drift.detail library.displayType ++ " — contradictory drift is never applied")
      | none => additions library context live rest
    | none => (additions library context live rest).map
        fun found => ⟨field.name, field.fieldType⟩ :: found

def commitAdditions : List AddColumn → Plan (List AddColumn) String
  | [] => .settled
  | found => .commit found

/-- One attempt: the partition check first, then the columns. -/
def reconcilePlan (library : SchemaLibrary) (context : String) (wanted : List NestedField)
    (fields : List PartitionField) (current : TableMetadata) : Plan (List AddColumn) String :=
  match checkLiveSpec library context current fields with
  | .error text => .refused text
  | .ok () =>
    match additions library context current.fields wanted with
    | .error text => .refused text
    | .ok found => commitAdditions found

/-- The columns go onto the schema the library loads last. -/
def schemaClient (library : SchemaLibrary) : Client TableMetadata (List AddColumn) String :=
  ⟨commitAttempts, commitRetries, fun found current => library.addColumns current found⟩

/-! ## Additive commits -/

/-- A commit that only adds columns: those there before stay, those added have ids never used, and
the spec is the same. -/
structure Additive (before after : TableMetadata) : Prop where
  kept : ∀ field ∈ before.fields, field ∈ after.fields
  fresh : ∀ field ∈ after.fields, field ∈ before.fields ∨
    ∀ nested ∈ field.flatten, before.lastColumnId < nested.id
  spec : after.spec = before.spec
  last : before.lastColumnId ≤ after.lastColumnId

/-- What the library's update commits: the columns asked for, optional, under fresh ids. -/
def AddsOptional (library : SchemaLibrary) : Prop :=
  ∀ current found next, library.addColumns current found = .ok next →
    Additive current next ∧ ∀ addition ∈ found, ∃ field ∈ next.fields,
      field.name = addition.name ∧ field.required = false ∧
        field.fieldType.shape = addition.fieldType.shape

/-- The table has every wanted column without drift, and the configured spec. -/
structure Reconciled (wanted : List NestedField) (fields : List PartitionField)
    (table : TableMetadata) : Prop where
  columns : ∀ field ∈ wanted, ∃ live ∈ table.fields,
    live.name = field.name ∧ compareField field live = none
  spec : table.livePairs = wantedPairs fields

variable {library : SchemaLibrary} {context : String} {wanted : List NestedField}
  {fields : List PartitionField} {before after current next : TableMetadata}

/-- A source resolves as before: its field is still there, and no new field has its id. -/
theorem Additive.fieldById (h : Additive before after) {id : Nat} (hid : id ≤ before.lastColumnId) :
    fieldById after.fields id = fieldById before.fields id := by
  have hiff : ∀ field, Iceberg.fieldById after.fields id = some field ↔
      Iceberg.fieldById before.fields id = some field := by
    intro field
    rw [fieldById_eq_some after.ids, fieldById_eq_some before.ids]
    apply and_congr_left
    intro hfield
    rw [mem_flattenAll, mem_flattenAll]
    constructor
    · rintro ⟨top, htop, hnested⟩
      obtain hbefore | hfresh := h.fresh top htop
      · exact ⟨top, hbefore, hnested⟩
      · have hlt := hfresh field hnested
        omega
    · rintro ⟨top, htop, hnested⟩
      exact ⟨top, h.kept top htop, hnested⟩
  exact Option.ext hiff

theorem Additive.livePairs (h : Additive before after) : after.livePairs = before.livePairs := by
  unfold TableMetadata.livePairs
  rw [h.spec]
  apply List.map_congr_left
  intro source hsource
  rw [h.fieldById (before.sources source hsource)]

theorem checkLiveSpec_ok (h : checkLiveSpec library context current fields = .ok ()) :
    current.livePairs = wantedPairs fields := by
  unfold checkLiveSpec at h
  split at h
  · cases h
  · next heq => exact not_not.1 heq

/-- Every wanted column is there without drift, or is to be added. -/
theorem additions_ok {live : List NestedField} {found : List AddColumn}
    (h : additions library context live wanted = .ok found) :
    ∀ field ∈ wanted, (∃ liveField ∈ live, liveField.name = field.name ∧
        compareField field liveField = none) ∨ ⟨field.name, field.fieldType⟩ ∈ found := by
  induction wanted generalizing found with
  | nil => exact nofun
  | cons first rest ih =>
    intro field hfield
    rw [additions] at h
    cases hfind : live.find? fun liveField => liveField.name == first.name with
    | some liveField =>
      rw [hfind] at h
      dsimp only at h
      cases hdrift : compareField first liveField with
      | some drift =>
        rw [hdrift] at h
        cases h
      | none =>
        rw [hdrift] at h
        obtain rfl | hfield := List.mem_cons.1 hfield
        · have hname := List.find?_some hfind
          exact .inl ⟨liveField, List.mem_of_find?_eq_some hfind, beq_iff_eq.1 hname, hdrift⟩
        · exact ih h field hfield
    | none =>
      rw [hfind] at h
      dsimp only at h
      cases hrest : additions library context live rest with
      | error text =>
        rw [hrest] at h
        cases h
      | ok others =>
        rw [hrest] at h
        cases h
        obtain rfl | hfield := List.mem_cons.1 hfield
        · exact .inr List.mem_cons_self
        · exact (ih hrest field hfield).imp_right (List.mem_cons_of_mem _)

/-- A column added as it was asked for does not drift from it. -/
theorem compareField_added {field live : NestedField} (hdistinct : field.distinct = true)
    (hrequired : live.required = false) (hshape : live.fieldType.shape = field.fieldType.shape) :
    compareField field live = none := by
  cases field with
  | mk id name required fieldType =>
    rw [NestedField.distinct] at hdistinct
    rw [compareField, hrequired, Bool.false_and, if_neg Bool.false_ne_true]
    exact compareType_shape fieldType live.fieldType hdistinct hshape.symm

/-- Wanted columns as a schema builder leaves them: no two children of a struct share a name. -/
def WellFormed (wanted : List NestedField) : Prop := ∀ field ∈ wanted, field.distinct = true

instance (wanted : List NestedField) : Decidable (WellFormed wanted) :=
  inferInstanceAs (Decidable (∀ field ∈ wanted, field.distinct = true))

/-- Every wanted column is there without drift or is to be added, and the spec is as configured. -/
def Completes (wanted : List NestedField) (fields : List PartitionField) (table : TableMetadata)
    (found : List AddColumn) : Prop :=
  (∀ field ∈ wanted, (∃ live ∈ table.fields, live.name = field.name ∧
      compareField field live = none) ∨ ⟨field.name, field.fieldType⟩ ∈ found) ∧
    table.livePairs = wantedPairs fields

/-- What the checks make of an attempt. -/
theorem reconcilePlan_cases (library : SchemaLibrary) (context : String)
    (wanted : List NestedField) (fields : List PartitionField) (current : TableMetadata) :
    (∃ text, reconcilePlan library context wanted fields current = .refused text) ∨
      ∃ found, Completes wanted fields current found ∧
        reconcilePlan library context wanted fields current = commitAdditions found := by
  unfold reconcilePlan
  cases hspec : checkLiveSpec library context current fields with
  | error text => exact .inl ⟨text, rfl⟩
  | ok _ =>
    cases hfound : additions library context current.fields wanted with
    | error text => exact .inl ⟨text, rfl⟩
    | ok found => exact .inr ⟨found, ⟨additions_ok hfound, checkLiveSpec_ok hspec⟩, rfl⟩

theorem reconcilePlan_settled
    (h : reconcilePlan library context wanted fields current = .settled) :
    Reconciled wanted fields current := by
  obtain ⟨text, hrefused⟩ | ⟨found, ⟨hcolumns, hspec⟩, heq⟩ :=
    reconcilePlan_cases library context wanted fields current
  · rw [hrefused] at h
    cases h
  · rw [heq] at h
    cases found with
    | nil =>
      refine ⟨fun field hfield => ?_, hspec⟩
      obtain hlive | hadded := hcolumns field hfield
      · exact hlive
      · cases hadded
    | cons addition others => cases h

theorem reconcilePlan_commit {found : List AddColumn}
    (h : reconcilePlan library context wanted fields current = .commit found) :
    Completes wanted fields current found := by
  obtain ⟨text, hrefused⟩ | ⟨found', hcompletes, heq⟩ :=
    reconcilePlan_cases library context wanted fields current
  · rw [hrefused] at h
    cases h
  · rw [heq] at h
    cases found' with
    | nil => cases h
    | cons addition others =>
      obtain rfl := Plan.commit.inj h
      exact hcompletes

/-- Columns that others have added since leave nothing more to add. -/
theorem Completes.additive {found : List AddColumn} (h : Completes wanted fields before found)
    (hadditive : Additive before after) : Completes wanted fields after found := by
  refine ⟨fun field hfield => ?_, hadditive.livePairs.trans h.2⟩
  obtain ⟨live, hlive, hname, hdrift⟩ | hadded := h.1 field hfield
  · exact .inl ⟨live, hadditive.kept live hlive, hname, hdrift⟩
  · exact .inr hadded

theorem Completes.reconciled (hadds : AddsOptional library) (hwanted : WellFormed wanted)
    {found : List AddColumn} (h : Completes wanted fields current found)
    (hnext : library.addColumns current found = .ok next) : Reconciled wanted fields next := by
  obtain ⟨hadditive, hadded⟩ := hadds current found next hnext
  refine ⟨fun field hfield => ?_, hadditive.livePairs.trans h.2⟩
  obtain ⟨live, hlive, hname, hdrift⟩ | hmem := h.1 field hfield
  · exact ⟨live, hadditive.kept live hlive, hname, hdrift⟩
  · obtain ⟨live, hlive, hname, hrequired, hshape⟩ := hadded _ hmem
    exact ⟨live, hlive, hname, compareField_added (hwanted field hfield) hrequired hshape⟩

/-! ## A session among other writers -/

/-- A schema commit under way. -/
abbrev Reconciling := Phase TableMetadata (List AddColumn) String

/-- The table, the session, the versions its commits made, and what a refusal was read off. -/
structure Reconciler where
  cell : Cell TableMetadata
  phase : Reconciling
  landed : List Nat
  shown : Option (Cell TableMetadata)

inductive ReconcileEvent where
  | step (answer : Answer)
  | other (next : TableMetadata)

/-- What the session reads a refusal off. -/
def showing (plan : TableMetadata → Plan (List AddColumn) String)
    (shown : Option (Cell TableMetadata)) : Reconciling → Option (Cell TableMetadata)
  | .loaded _ seen =>
    match plan seen.value with
    | .refused _ => some seen
    | _ => shown
  | _ => shown

def Reconciler.act (library : SchemaLibrary) (plan : TableMetadata → Plan (List AddColumn) String)
    (session : Reconciler) : ReconcileEvent → Reconciler
  | .step answer =>
    let next := (schemaClient library).advance plan answer session.cell session.phase
    { cell := next.1
      phase := next.2
      landed := if next.1.version = session.cell.version then session.landed
        else session.landed ++ [next.1.version]
      shown := showing plan session.shown session.phase }
  | .other next => { session with cell := ⟨next, session.cell.version + 1⟩ }

/-- The other writers only add columns. -/
def OthersAdd (session : Reconciler) : ReconcileEvent → Prop
  | .step _ => True
  | .other next => Additive session.cell.value next

def Reconciler.begin (cell : Cell TableMetadata) : Reconciler := ⟨cell, .loading 1, [], none⟩

/-- No commit of the session is later than the version it has seen, or shows. -/
def Behind (plan : TableMetadata → Plan (List AddColumn) String) (landed : List Nat)
    (shown : Option (Cell TableMetadata)) : Reconciling → Prop
  | .loaded _ seen => ∀ version ∈ landed, version ≤ seen.version
  | .failed (.refused text) => ∃ seen, shown = some seen ∧ plan seen.value = .refused text ∧
      ∀ version ∈ landed, version ≤ seen.version
  | _ => True

/-- The columns there at the start of a run. -/
def Keeps (start table : TableMetadata) : Prop := ∀ field ∈ start.fields, field ∈ table.fields

/-- What a run keeps: the columns there at its start, the aim, and the order of the commits. -/
structure Reconciler.Sound (plan : TableMetadata → Plan (List AddColumn) String)
    (wanted : List NestedField) (fields : List PartitionField) (start : TableMetadata)
    (session : Reconciler) : Prop where
  kept : Keeps start session.cell.value
  holds : Client.Holds (Keeps start) (fun _ _ => True) session.phase
  aims : Client.Aims plan (Completes wanted fields) (Reconciled wanted fields) session.cell
    session.phase
  landed : ∀ version ∈ session.landed, version ≤ session.cell.version
  behind : Behind plan session.landed session.shown session.phase

theorem Reconciler.Sound.other {plan : TableMetadata → Plan (List AddColumn) String}
    {start : TableMetadata} {session : Reconciler} (h : session.Sound plan wanted fields start)
    (hadditive : Additive session.cell.value next) :
    (session.act library plan (.other next)).Sound plan wanted fields start where
  kept := fun field hfield => hadditive.kept field (h.kept field hfield)
  holds := h.holds
  aims := h.aims.others fun _ hfound => hfound.additive hadditive
  landed := fun version hversion => Nat.le_succ_of_le (h.landed version hversion)
  behind := h.behind

/-- A refusal is read off what was loaded, and no commit of the session comes after. -/
theorem behind_steps {plan : TableMetadata → Plan (List AddColumn) String}
    {cell cell' : Cell TableMetadata} {phase phase' : Reconciling} {landed landed' : List Nat}
    {shown : Option (Cell TableMetadata)}
    (h : (schemaClient library).Steps plan cell phase cell' phase')
    (hlanded : ∀ version ∈ landed, version ≤ cell.version) (hbehind : Behind plan landed shown phase)
    (hsame : cell' = cell → landed' = landed) :
    Behind plan landed' (showing plan shown phase) phase' := by
  cases h with
  | load =>
    rw [hsame rfl]
    exact hlanded
  | @refuse attempt seen text hrefused =>
    rw [hsame rfl]
    refine ⟨seen, ?_, hrefused, hbehind⟩
    unfold showing
    dsimp only
    rw [hrefused]
  | rest hover =>
    rw [hsame rfl]
    cases phase with
    | done value | failed failure => exact hbehind
    | _ => cases hover
  | _ => trivial

theorem Reconciler.Sound.step (hadds : AddsOptional library) (hwanted : WellFormed wanted)
    {start : TableMetadata} {session : Reconciler}
    (h : session.Sound (reconcilePlan library context wanted fields) wanted fields start)
    (answer : Answer) :
    (session.act library (reconcilePlan library context wanted fields) (.step answer)).Sound
      (reconcilePlan library context wanted fields) wanted fields start := by
  have hsteps := (schemaClient library).advance_steps
    (reconcilePlan library context wanted fields) answer session.cell session.phase
  obtain ⟨hkept, hholds⟩ := hsteps.holds h.kept h.holds (fun _ _ _ _ _ => trivial)
    fun _ _ found _ next _ hnext field hfield =>
      (hadds session.cell.value found next hnext).1.kept field (h.kept field hfield)
  have haims := hsteps.aims h.aims (fun _ => reconcilePlan_settled)
    (fun _ _ => reconcilePlan_commit) fun _ _ _ => Completes.reconciled hadds hwanted
  refine ⟨hkept, hholds, haims, fun version hversion => ?_,
    behind_steps hsteps h.landed h.behind fun heq => if_pos (congrArg Cell.version heq)⟩
  change version ∈ (if _ then session.landed else session.landed ++ [_]) at hversion
  change version ≤ ((schemaClient library).advance _ answer session.cell session.phase).1.version
  obtain heq | hnext := hsteps.changes
  · rw [heq] at hversion ⊢
    rw [if_pos rfl] at hversion
    exact h.landed version hversion
  · split at hversion
    · have hle := h.landed version hversion
      omega
    · obtain hold | hnew := List.mem_append.1 hversion
      · have hle := h.landed version hold
        omega
      · exact Nat.le_of_eq (List.mem_singleton.1 hnew)

/-- Among other writers that only add columns, a reconcile that returns does so with a table that
has every wanted column without drift, every column there was, and the configured spec; one that
refuses has committed nothing later than the metadata that shows why. -/
theorem reconcile_sound (library : SchemaLibrary) (hadds : AddsOptional library)
    (context : String) (wanted : List NestedField) (hwanted : WellFormed wanted)
    (fields : List PartitionField) (cell : Cell TableMetadata) (events : List ReconcileEvent)
    (h : Meets (Reconciler.act library (reconcilePlan library context wanted fields)) OthersAdd
      (.begin cell) events) :
    (∀ table, (run (Reconciler.act library (reconcilePlan library context wanted fields))
        (.begin cell) events).phase = .done table →
      Reconciled wanted fields table ∧ ∀ field ∈ cell.value.fields, field ∈ table.fields) ∧
    ∀ text, (run (Reconciler.act library (reconcilePlan library context wanted fields))
        (.begin cell) events).phase = .failed (.refused text) →
      ∃ seen, reconcilePlan library context wanted fields seen.value = .refused text ∧
        (run (Reconciler.act library (reconcilePlan library context wanted fields))
          (.begin cell) events).shown = some seen ∧
        ∀ version ∈ (run (Reconciler.act library (reconcilePlan library context wanted fields))
          (.begin cell) events).landed, version ≤ seen.version := by
  have hstart : (Reconciler.begin cell).Sound (reconcilePlan library context wanted fields) wanted
      fields cell.value := ⟨fun _ hfield => hfield, trivial, trivial, nofun, trivial⟩
  have hsound := run_invariant
    (I := Reconciler.Sound (reconcilePlan library context wanted fields) wanted fields cell.value)
    (fun session event hsession hok => by
      cases event with
      | step answer => exact hsession.step hadds hwanted answer
      | other next => exact hsession.other hok) hstart h
  constructor
  · intro table hdone
    have haims := hsound.aims
    have hholds := hsound.holds
    rw [hdone] at haims hholds
    exact ⟨haims, hholds⟩
  · intro text hrefused
    have hbehind := hsound.behind
    rw [hrefused] at hbehind
    obtain ⟨seen, hshown, hplan, hversions⟩ := hbehind
    exact ⟨seen, hplan, hshown, hversions⟩

/-! ## A race for a column -/

/-- Columns without nested fields, numbered from an id on. -/
def flatColumns : Nat → List AddColumn → List NestedField
  | _, [] => []
  | id, addition :: rest =>
    .mk id addition.name false addition.fieldType :: flatColumns (id + 1) rest

def isFlat (addition : AddColumn) : Bool :=
  match addition.fieldType with
  | .primitive _ => true
  | _ => false

/-- What makes the columns of a table those of a schema. -/
def ValidWith (table : TableMetadata) (added : List NestedField) : Prop :=
  ((table.fields ++ added).map NestedField.name).Nodup ∧
    ((flattenAll (table.fields ++ added)).map NestedField.id).Nodup

instance (table : TableMetadata) (added : List NestedField) : Decidable (ValidWith table added) :=
  inferInstanceAs (Decidable (_ ∧ _))

/-- A library that adds flat columns, and refuses any other update. -/
def addFlat (table : TableMetadata) (found : List AddColumn) : Except String TableMetadata :=
  if h : found.all isFlat = true ∧ ValidWith table (flatColumns (table.lastColumnId + 1) found) then
    .ok ⟨table.lastColumnId + found.length, table.fields ++ flatColumns (table.lastColumnId + 1) found,
      table.spec, h.2.1, h.2.2, fun source hsource => by
        have hle := table.sources source hsource
        omega⟩
  else .error "invalid schema"

def flatLibrary : SchemaLibrary := ⟨fun _ => "", fun _ => "", addFlat⟩

theorem mem_flatColumns {found : List AddColumn} {id : Nat} (hflat : found.all isFlat = true)
    {field : NestedField} (h : field ∈ flatColumns id found) :
    ∀ nested ∈ field.flatten, id ≤ nested.id := by
  induction found generalizing id with
  | nil => cases h
  | cons addition rest ih =>
    obtain ⟨hfirst, hrest⟩ := Bool.and_eq_true_iff.1 hflat
    obtain rfl | h := List.mem_cons.1 h
    · intro nested hnested
      rw [NestedField.flatten] at hnested
      obtain rfl | hnested := List.mem_cons.1 hnested
      · exact Nat.le_refl id
      · cases htype : addition.fieldType with
        | primitive type =>
          rw [htype] at hnested
          cases hnested
        | _ =>
          rw [isFlat, htype] at hfirst
          cases hfirst
    · intro nested hnested
      have hle := ih hrest h nested hnested
      omega

theorem flatColumns_added {found : List AddColumn} {addition : AddColumn} (h : addition ∈ found)
    (id : Nat) : ∃ field ∈ flatColumns id found, field.name = addition.name ∧
      field.required = false ∧ field.fieldType.shape = addition.fieldType.shape := by
  induction found generalizing id with
  | nil => cases h
  | cons first rest ih =>
    obtain rfl | h := List.mem_cons.1 h
    · exact ⟨_, List.mem_cons_self, rfl, rfl, rfl⟩
    · obtain ⟨field, hfield, hadded⟩ := ih h (id + 1)
      exact ⟨field, List.mem_cons_of_mem _ hfield, hadded⟩

theorem flatLibrary_adds : AddsOptional flatLibrary := by
  intro current found next h
  change addFlat current found = .ok next at h
  unfold addFlat at h
  split at h
  · next hvalid =>
    obtain rfl := Except.ok.inj h
    refine ⟨⟨fun field hfield => List.mem_append_left _ hfield, fun field hfield => ?_, rfl,
      Nat.le_add_right _ _⟩, fun addition haddition => ?_⟩
    · obtain hold | hnew := List.mem_append.1 hfield
      · exact .inl hold
      · exact .inr fun nested hnested => mem_flatColumns hvalid.1 hnew nested hnested
    · obtain ⟨field, hfield, hadded⟩ := flatColumns_added haddition (current.lastColumnId + 1)
      exact ⟨field, List.mem_append_right _ hfield, hadded⟩
  · cases h

def liveTable : TableMetadata :=
  ⟨1, [.mk 1 "id" false (.primitive .long)], [(1, .bucket 4)], by decide, by decide, by decide⟩

def competitorTable : TableMetadata :=
  ⟨2, [.mk 1 "id" false (.primitive .long), .mk 2 "note" false (.primitive .string)],
    [(1, .bucket 4)], by decide, by decide, by decide⟩

theorem competitor_adds : Additive liveTable competitorTable := by
  have hfields : competitorTable.fields =
      liveTable.fields ++ [.mk 2 "note" false (.primitive .string)] := rfl
  refine ⟨fun field hfield => ?_, fun field hfield => ?_, rfl, by decide⟩
  · rw [hfields]
    exact List.mem_append_left _ hfield
  · rw [hfields] at hfield
    obtain hold | hnew := List.mem_append.1 hfield
    · exact .inl hold
    · right
      obtain rfl := List.mem_singleton.1 hnew
      rintro nested (_ | ⟨_, ⟨⟩⟩)
      decide

def wantedColumns : List NestedField :=
  [.mk 1 "id" true (.primitive .long), .mk 2 "name" true (.primitive .string)]

/-- A competitor lands its column after the library has built on the table, the commit conflicts,
and the library builds the same column on the competitor's table. -/
def lostRace : List ReconcileEvent :=
  [.step ⟨true, .ok⟩, .step ⟨true, .ok⟩, .step ⟨true, .ok⟩, .other competitorTable,
    .step ⟨false, .conflict⟩, .step ⟨true, .ok⟩, .step ⟨true, .ok⟩]

theorem lost_race_reconciles :
    ∃ table, (run (Reconciler.act flatLibrary (reconcilePlan flatLibrary "t" wantedColumns
        [⟨"id", .bucket 4⟩])) (.begin ⟨liveTable, 0⟩) lostRace).phase = .done table ∧
      Reconciled wantedColumns [⟨"id", .bucket 4⟩] table ∧
      ∀ field ∈ liveTable.fields, field ∈ table.fields := by
  have hmeets : Meets (Reconciler.act flatLibrary (reconcilePlan flatLibrary "t" wantedColumns
      [⟨"id", .bucket 4⟩])) OthersAdd (.begin ⟨liveTable, 0⟩) lostRace :=
    ⟨trivial, trivial, trivial, competitor_adds, trivial, trivial, trivial, trivial⟩
  have hsound := reconcile_sound flatLibrary flatLibrary_adds "t" wantedColumns
    (by decide) [⟨"id", .bucket 4⟩] ⟨liveTable, 0⟩ lostRace hmeets
  exact ⟨_, rfl, hsound.1 _ rfl⟩

end Iceberg
