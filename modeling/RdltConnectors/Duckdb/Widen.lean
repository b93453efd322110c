import RdltConnectors.Duckdb.Catalog
import RdltConnectors.Library.Fallible

/-!
# Changing the type of a published column

A change that a fresh session plans starts from the type the column has, and only
widens. A change within a session starts from what the session asked for before, which
the column need not have been given, and its values may be those of earlier runs.
-/
namespace DuckCatalog

open Sqlcore Duckdb
open Sqlcore.Ensure hiding mergeSteps

/-- The change starts from the type the column has, and the new one holds all its values. -/
def Alter.Exact (a : Alter) : Prop :=
  sqlType false a.believed = a.actual ∧ ∀ v ∈ a.values, (sqlType false a.type).Holds v

/-- Names are unique, types are known to the database, and values are of their type. -/
structure Sound (columns : Target) : Prop where
  nodup : (columns.map TargetColumn.name).Nodup
  valid : ∀ c ∈ columns, c.type.valid = true
  holds : ∀ c ∈ columns, ∀ v ∈ c.values, c.type.Holds v

/-- A planned change of the column would be exact. -/
def Ready (previous : Option TableSchema) (target : Option Target) (column : Column) : Prop :=
  ∃ columns found, target = some columns ∧ found ∈ columns ∧ found.name = column.name ∧
    (∀ old, (previous.bind fun prev => prev.column column.name) = some old →
      sqlType false old.columnType = found.type) ∧
    ((sqlType false column.columnType).valid = true →
      ∀ v ∈ found.values, (sqlType false column.columnType).Holds v)

/-- The column whose type the step changes on the target. -/
def widened : EnsureStep → Option String
  | .widen .target column => some column.name
  | _ => none

/-- What holds between the steps of an ensure. -/
structure Careful (previous : Option TableSchema) (steps : List EnsureStep) (p : Progress) : Prop where
  sound : ∀ columns, p.target = some columns → Sound columns
  exact : ∀ a ∈ p.alters, a.Exact
  ready : ∀ column, .widen .target column ∈ steps → Ready previous p.target column
  once : (steps.filterMap widened).Nodup

section Columns

variable {columns columns' : Target} {name : String} {type : SqlType} {values : List Value}

theorem addColumn_sound (h : Sound columns) (hvalues : ∀ v ∈ values, type.Holds v)
    (hadd : addColumn name type values columns = some columns') :
    Sound columns' ∧ ∀ c ∈ columns, c ∈ columns' := by
  unfold addColumn at hadd
  split at hadd
  · cases hadd
  · next hvalid =>
    split at hadd
    · obtain rfl := Option.some.inj hadd
      exact ⟨h, fun _ hc => hc⟩
    · next hnew =>
      obtain rfl := Option.some.inj hadd
      refine ⟨⟨?_, fun c hc => ?_, fun c hc => ?_⟩, fun c hc => List.mem_append_left _ hc⟩
      · rw [List.map_append]
        exact List.nodup_append'.2 ⟨h.nodup, List.nodup_singleton _, by simpa using hnew⟩
      · rcases List.mem_append.1 hc with hc | hc
        · exact h.valid c hc
        · rw [List.mem_singleton.1 hc]
          exact Bool.eq_true_of_not_eq_false hvalid
      · rcases List.mem_append.1 hc with hc | hc
        · exact h.holds c hc
        · rw [List.mem_singleton.1 hc]
          exact hvalues

theorem setDataType_names : (setDataType name type values columns).map TargetColumn.name =
    columns.map TargetColumn.name := by
  rw [setDataType, List.map_map]
  refine List.map_congr_left fun c _ => ?_
  change (if c.name = name then (⟨name, type, values⟩ : TargetColumn) else c).name = c.name
  split
  · next h => exact h.symm
  · rfl

theorem setDataType_sound (h : Sound columns) (hvalid : type.valid = true)
    (hvalues : ∀ v ∈ values, type.Holds v) : Sound (setDataType name type values columns) := by
  refine ⟨by rw [setDataType_names]; exact h.nodup, fun c hc => ?_, fun c hc => ?_⟩
  · obtain ⟨c', hc', rfl⟩ := List.mem_map.1 hc
    split
    · exact hvalid
    · exact h.valid c' hc'
  · obtain ⟨c', hc', rfl⟩ := List.mem_map.1 hc
    split
    · exact hvalues
    · exact h.holds c' hc'

theorem mem_setDataType_of_ne {c : TargetColumn} (hc : c ∈ columns) (hne : c.name ≠ name) :
    c ∈ setDataType name type values columns :=
  List.mem_map.2 ⟨c, hc, if_neg hne⟩

theorem find_of_nodup (h : (columns.map TargetColumn.name).Nodup) {c : TargetColumn} (hc : c ∈ columns) :
    (columns.find? fun x => x.name = c.name) = some c := by
  induction columns with
  | nil => cases hc
  | cons head rest ih =>
    obtain ⟨hnot, hrest⟩ := List.nodup_cons.1 h
    rcases List.mem_cons.1 hc with rfl | hc
    · simp
    · have hne : ¬head.name = c.name := fun heq => hnot (heq ▸ List.mem_map_of_mem hc)
      rw [List.find?_cons_of_neg (by simpa using hne)]
      exact ih hrest hc

theorem cast_holds {cast : Cast} (h : values.mapM (cast.apply type) = some values') :
    ∀ v ∈ values', type.Holds v := by
  intro v hv
  obtain ⟨v', -, hcast⟩ := Fallible.option_mapM_mem h hv
  exact cast.holds hcast

end Columns

section Steps

variable {cast : Cast} {options : DestinationOptions} {schema : TableSchema} {backfill : List Int}
  {previous : Option TableSchema} {p p' : Progress} {step : EnsureStep} {steps : List EnsureStep}

theorem Ready.of_mem {columns columns' : Target} {column : Column}
    (h : Ready previous (some columns) column) (hkept : ∀ c ∈ columns, c.name = column.name → c ∈ columns') :
    Ready previous (some columns') column := by
  obtain ⟨_, found, hcolumns, hfound, hname, hbelieved, hvalues⟩ := h
  obtain rfl := Option.some.inj hcolumns
  exact ⟨columns', found, rfl, hkept found hfound hname, hname, hbelieved, hvalues⟩

theorem Careful.tail (h : Careful previous (step :: steps) p) : Careful previous steps p := by
  refine ⟨h.sound, h.exact, fun column hcolumn => h.ready column (List.mem_cons_of_mem _ hcolumn), ?_⟩
  have honce := h.once
  rw [List.filterMap_cons] at honce
  split at honce
  · exact honce
  · exact (List.nodup_cons.1 honce).2

/-- Steps that change no type leave the columns that are there. -/
theorem Careful.added {columns columns' : Target} (h : Careful previous steps p)
    (htarget : p.target = some columns) (hsound : Sound columns')
    (hkept : ∀ c ∈ columns, c ∈ columns') : Careful previous steps ⟨some columns', p.alters⟩ := by
  refine ⟨fun x hx => ?_, h.exact, fun column hcolumn => ?_, h.once⟩
  · obtain rfl := Option.some.inj hx
    exact hsound
  · have hready := h.ready column hcolumn
    rw [htarget] at hready
    exact hready.of_mem fun c hc _ => hkept c hc

theorem widenColumn_found {columns changed : Target} {alter : Alter} {column : Column}
    {found : TargetColumn} (hnodup : (columns.map TargetColumn.name).Nodup) (hfound : found ∈ columns)
    (hname : found.name = column.name)
    (h : widenColumn cast schema previous column columns = some (changed, alter)) :
    ∃ old values, (previous.bind fun prev => prev.column column.name) = some old ∧
      (sqlType false column.columnType).valid = true ∧
      found.values.mapM (cast.apply (sqlType false column.columnType)) = some values ∧
      changed = setDataType column.name (sqlType false column.columnType) values columns ∧
      alter = ⟨schema.table, column.name, old.columnType, found.type, column.columnType,
        found.values⟩ := by
  obtain ⟨found', hfind, h⟩ := Option.bind_eq_some_iff.1 h
  have hfind' := find_of_nodup hnodup hfound
  rw [hname, hfind] at hfind'
  obtain rfl := Option.some.inj hfind'
  obtain ⟨old, hold, h⟩ := Option.bind_eq_some_iff.1 h
  dsimp only at h
  split at h
  · cases h
  · next hvalid =>
    obtain ⟨values, hcast, h⟩ := Option.bind_eq_some_iff.1 h
    obtain ⟨rfl, rfl⟩ := Prod.mk.inj (Option.some.inj h)
    exact ⟨old, values, hold, Bool.eq_true_of_not_eq_false hvalid, hcast, rfl, rfl⟩

/-- A change of type, of a column that no later step changes. -/
theorem careful_widen {column : Column} (h : Careful previous (.widen .target column :: steps) p)
    (hstep : execStep cast options schema backfill previous (.widen .target column) p = some p') :
    Careful previous steps p' := by
  obtain ⟨columns, found, htarget, hfound, hname, hbelieved, hvalues⟩ :=
    h.ready column List.mem_cons_self
  have hsound := h.sound columns htarget
  obtain ⟨columns', hcolumns', hstep⟩ := Option.bind_eq_some_iff.1 hstep
  obtain rfl := Option.some.inj (htarget.symm.trans hcolumns')
  obtain ⟨⟨changed, alter⟩, hchange, hstep⟩ := Option.bind_eq_some_iff.1 hstep
  obtain rfl := Option.some.inj hstep
  obtain ⟨old, values, hold, hvalid, hcast, rfl, rfl⟩ :=
    widenColumn_found hsound.nodup hfound hname hchange
  have hrest := h.tail
  have hnot : column.name ∉ steps.filterMap widened := by
    have honce := h.once
    rw [List.filterMap_cons_some (show widened (.widen .target column) = some column.name from rfl)]
      at honce
    exact (List.nodup_cons.1 honce).1
  refine ⟨fun x hx => ?_, fun a ha => ?_, fun other hother => ?_, hrest.once⟩
  · obtain rfl := Option.some.inj hx
    exact setDataType_sound hsound hvalid (cast_holds hcast)
  · rcases List.mem_append.1 ha with ha | ha
    · exact h.exact a ha
    · rw [List.mem_singleton.1 ha]
      exact ⟨hbelieved old hold, hvalues hvalid⟩
  · have hready := hrest.ready other hother
    rw [htarget] at hready
    refine hready.of_mem fun c hc hsame => mem_setDataType_of_ne hc fun heq => hnot ?_
    exact List.mem_filterMap.2 ⟨_, hother, congrArg some (hsame.symm.trans heq)⟩

theorem careful_add {columns columns' : Target} {name : String} {type : SqlType} {values : List Value}
    (h : Careful previous steps p) (htarget : p.target = some columns)
    (hvalues : ∀ v ∈ values, type.Holds v) (hadd : addColumn name type values columns = some columns') :
    Careful previous steps ⟨some columns', p.alters⟩ := by
  obtain ⟨hsound, hkept⟩ := addColumn_sound (h.sound columns htarget) hvalues hadd
  exact h.added htarget hsound hkept

theorem careful_step (h : Careful previous (step :: steps) p)
    (hstep : execStep cast options schema backfill previous step p = some p') :
    Careful previous steps p' := by
  cases step with
  | table leg =>
    cases leg with
    | stage =>
      obtain rfl := Option.some.inj hstep
      exact h.tail
    | target =>
      simp only [execStep] at hstep
      split at hstep
      · cases hstep
      · next hfits =>
        split at hstep
        · obtain rfl := Option.some.inj hstep
          exact h.tail
        · next hnone =>
          obtain rfl := Option.some.inj hstep
          rw [not_or, not_not, not_exists] at hfits
          refine ⟨fun x hx => ?_, h.exact, fun column hcolumn => ?_, h.tail.once⟩
          · obtain rfl := Option.some.inj hx
            refine ⟨by rw [List.map_map]; exact hfits.1, fun c hc => ?_, fun c hc v hv => ?_⟩
            · obtain ⟨d, hd, rfl⟩ := List.mem_map.1 hc
              exact Bool.eq_true_of_not_eq_false fun hinvalid => hfits.2 d ⟨hd, hinvalid⟩
            · obtain ⟨d, -, rfl⟩ := List.mem_map.1 hc
              cases hv
          · obtain ⟨columns, -, hcolumns, -⟩ := h.tail.ready column hcolumn
            rw [hnone] at hcolumns
            cases hcolumns
  | column leg column =>
    cases leg with
    | stage =>
      obtain rfl := Option.some.inj hstep
      exact h.tail
    | target =>
      obtain ⟨columns, htarget, hstep⟩ := Option.bind_eq_some_iff.1 hstep
      obtain ⟨columns', hadd, hstep⟩ := Option.bind_eq_some_iff.1 hstep
      obtain rfl := Option.some.inj hstep
      exact careful_add h.tail htarget (fun _ hv => absurd hv List.not_mem_nil) hadd
  | widen leg column =>
    cases leg with
    | stage =>
      obtain rfl := Option.some.inj hstep
      exact h.tail
    | target => exact careful_widen h hstep
  | validity which =>
    obtain ⟨columns, htarget, hstep⟩ := Option.bind_eq_some_iff.1 hstep
    cases which with
    | validFrom =>
      obtain ⟨columns', hadd, hstep⟩ := Option.bind_eq_some_iff.1 hstep
      obtain rfl := Option.some.inj hstep
      refine careful_add h.tail htarget (fun v hv => ?_) hadd
      obtain ⟨micros, -, rfl⟩ := List.mem_map.1 hv
      trivial
    | validTo =>
      obtain ⟨columns', hadd, hstep⟩ := Option.bind_eq_some_iff.1 hstep
      obtain rfl := Option.some.inj hstep
      exact careful_add h.tail htarget (fun _ hv => absurd hv List.not_mem_nil) hadd
  | index spec =>
    obtain rfl := Option.some.inj hstep
    exact h.tail

theorem careful_run {fault : Option Nat} (h : Careful previous steps p) :
    Careful previous [] (runSteps cast options schema backfill previous fault steps p).1 := by
  induction steps generalizing fault p with
  | nil => exact h
  | cons step steps ih =>
    have hstop : Careful previous [] p :=
      ⟨h.sound, h.exact, fun _ hcolumn => absurd hcolumn List.not_mem_nil, List.nodup_nil⟩
    unfold runSteps
    split
    · exact hstop
    · split
      · exact hstop
      · next hstep => exact ih (careful_step h hstep)

theorem careful_ran {fault : Option Nat} {failed : Option EnsureStep} (h : Careful previous steps p)
    (hran : runSteps cast options schema backfill previous fault steps p = (p', failed)) :
    Careful previous [] p' := by
  have hfirst : (runSteps cast options schema backfill previous fault steps p).1 = p' :=
    congrArg Prod.fst hran
  exact hfirst ▸ careful_run h

/-- Steps without a change of type ask for nothing. -/
theorem Careful.without (h : Careful previous [] p)
    (hnone : ∀ step ∈ steps, ∀ leg column, step ≠ .widen leg column) : Careful previous steps p := by
  have hfilter : steps.filterMap widened = [] := by
    refine List.filterMap_eq_nil_iff.2 fun step hstep => ?_
    cases step with
    | widen leg column => exact absurd rfl (hnone _ hstep leg column)
    | _ => rfl
  exact ⟨h.sound, h.exact, fun column hcolumn => absurd rfl (hnone _ hcolumn _ _),
    hfilter ▸ List.nodup_nil⟩

end Steps

/-! ## What is planned -/

section Planned

variable {schema : TableSchema} {mode : WriteMode} {publish : FullLoadPublish}
  {previous : Option TableSchema} {column : Column}

/-- A type is changed where the schema asks for another than the one believed. -/
theorem widen_planned (h : .widen .target column ∈ schemaSteps schema mode publish previous) :
    column ∈ schema.columns ∧ ∃ old,
      (previous.bind fun prev => prev.column column.name) = some old ∧
        old.columnType ≠ column.columnType := by
  obtain ⟨leg, -, h⟩ := List.mem_flatMap.1 h
  rcases List.mem_cons.1 h with h | h
  · cases h
  · obtain ⟨d, hd, h⟩ := List.mem_flatMap.1 h
    rcases List.mem_cons.1 h with h | h
    · cases h
    · split at h
      · next old hold =>
        split at h
        · next hne =>
          obtain ⟨-, rfl⟩ := EnsureStep.widen.inj (List.mem_singleton.1 h)
          exact ⟨hd, old, hold, hne⟩
        · cases h
      · cases h

theorem widened_columns (previous : Option TableSchema) (columns : List Column) :
    ((columns.flatMap (columnSteps previous .target)).filterMap widened).Sublist
      (columns.map Column.name) := by
  induction columns with
  | nil => exact List.Sublist.slnil
  | cons d columns ih =>
    rw [List.flatMap_cons, List.filterMap_append, List.map_cons]
    have hhead : ((columnSteps previous .target d).filterMap widened).Sublist [d.name] := by
      unfold columnSteps
      rw [List.filterMap_cons_none (show widened (.column .target d) = none from rfl)]
      split
      · split
        · exact List.Sublist.refl _
        · exact List.nil_sublist _
      · exact List.nil_sublist _
    exact hhead.append ih

theorem widened_stage (previous : Option TableSchema) (columns : List Column) :
    (columns.flatMap (columnSteps previous .stage)).filterMap widened = [] := by
  refine List.filterMap_eq_nil_iff.2 fun step hstep => ?_
  obtain ⟨d, -, hstep⟩ := List.mem_flatMap.1 hstep
  unfold columnSteps at hstep
  rcases List.mem_cons.1 hstep with rfl | hstep
  · rfl
  · split at hstep
    · split at hstep
      · rw [List.mem_singleton.1 hstep]
        rfl
      · cases hstep
    · cases hstep

/-- No column is changed twice. -/
theorem widened_once (h : schema.columnNames.Nodup) :
    ((schemaSteps schema mode publish previous).filterMap widened).Nodup := by
  have hstage (legs : List Leg) (hlegs : ∀ leg ∈ legs, leg = .stage) :
      (legs.flatMap fun leg => EnsureStep.table leg ::
        schema.columns.flatMap (columnSteps previous leg)).filterMap widened = [] := by
    induction legs with
    | nil => rfl
    | cons leg legs ih =>
      obtain rfl := hlegs leg List.mem_cons_self
      rw [List.flatMap_cons, List.filterMap_append, ih fun leg hleg => hlegs leg (by simp [hleg]),
        List.append_nil, List.filterMap_cons_none (show widened (.table .stage) = none from rfl)]
      exact widened_stage previous schema.columns
  have hlegs : ∀ leg ∈ (if usesStage mode publish then [Leg.stage] else []), leg = .stage := by
    intro leg hleg
    split at hleg
    · exact List.mem_singleton.1 hleg
    · cases hleg
  have hall : (schemaSteps schema mode publish previous).filterMap widened =
      (schema.columns.flatMap (columnSteps previous .target)).filterMap widened := by
    unfold schemaSteps ensureLegs
    rw [List.flatMap_cons, List.filterMap_append, hstage _ hlegs, List.append_nil]
    rfl
  rw [hall]
  exact (widened_columns previous schema.columns).nodup h

end Planned

/-! ## The image -/

section Image

variable {image schema : TableSchema} {name : String} {c : Column} {columns : List Column}

/-- The first column of a name. -/
def columnNamed (name : String) (columns : List Column) : Option Column :=
  columns.find? fun c => c.name = name

theorem adopted_name (wanted found : Column) : (adopted wanted found).name = found.name := by
  unfold adopted
  split
  · rfl
  · rfl

theorem columnNamed_cons (name : String) (c : Column) (columns : List Column) :
    columnNamed name (c :: columns) = if c.name = name then some c else columnNamed name columns := by
  unfold columnNamed
  rw [List.find?_cons]
  by_cases h : c.name = name
  · simp [h]
  · simp [h]

theorem columnNamed_adoptColumn (d : Column) (columns : List Column) :
    columnNamed name (adoptColumn d columns) =
      if d.name = name then (columnNamed name columns).map (adopted d) else columnNamed name columns := by
  induction columns with
  | nil => split <;> rfl
  | cons found rest ih =>
    unfold adoptColumn
    by_cases hfound : found.name = d.name
    · rw [if_pos hfound, columnNamed_cons, columnNamed_cons, adopted_name, hfound]
      by_cases hname : d.name = name
      · rw [if_pos hname, if_pos hname, if_pos hname]
        rfl
      · rw [if_neg hname, if_neg hname, if_neg hname]
    · rw [if_neg hfound, columnNamed_cons, columnNamed_cons, ih]
      by_cases hname : found.name = name
      · have hne : ¬d.name = name := fun h => hfound (hname.trans h.symm)
        rw [if_pos hname, if_neg hne, if_pos hname]
      · rw [if_neg hname]
        rw [if_neg hname]

theorem columnNamed_fold_other {wanted : List Column} (h : ∀ d ∈ wanted, d.name ≠ name) :
    columnNamed name (wanted.foldl (fun columns d => adoptColumn d columns) columns) =
      columnNamed name columns := by
  induction wanted generalizing columns with
  | nil => rfl
  | cons d wanted ih =>
    refine (ih fun d' hd' => h d' (by simp [hd'])).trans ?_
    rw [columnNamed_adoptColumn, if_neg (h d (by simp))]

/-- A wanted column is adopted once. -/
theorem columnNamed_fold {wanted : List Column} (hnodup : (wanted.map Column.name).Nodup)
    (hc : c ∈ wanted) :
    columnNamed c.name (wanted.foldl (fun columns d => adoptColumn d columns) columns) =
      (columnNamed c.name columns).map (adopted c) := by
  induction wanted generalizing columns with
  | nil => cases hc
  | cons d wanted ih =>
    obtain ⟨hnot, hrest⟩ := List.nodup_cons.1 hnodup
    rw [List.foldl_cons]
    rcases List.mem_cons.1 hc with rfl | hc
    · have hother : ∀ d' ∈ wanted, d'.name ≠ c.name := fun d' hd' heq =>
        hnot (heq ▸ List.mem_map_of_mem hd')
      rw [columnNamed_fold_other hother, columnNamed_adoptColumn, if_pos rfl]
    · have hne : ¬d.name = c.name := fun h => hnot (h ▸ List.mem_map_of_mem hc)
      rw [ih hrest hc, columnNamed_adoptColumn, if_neg hne]

/-- A difference that is left in the image is a widening of the type that it shows. -/
theorem prefilter_differs (hnodup : schema.columnNames.Nodup) (hc : c ∈ schema.columns) {old : Column}
    (hold : (prefilter image schema).column c.name = some old) (hne : old.columnType ≠ c.columnType) :
    image.column c.name = some old ∧ isWidening old.columnType c.columnType = true := by
  have hfold : (prefilter image schema).column c.name = (image.column c.name).map (adopted c) :=
    columnNamed_fold hnodup hc
  rw [hfold] at hold
  obtain ⟨found, hfound, rfl⟩ := Option.map_eq_some_iff.1 hold
  unfold adopted at hne ⊢
  split at hne
  · next hgenuine =>
    rw [if_pos hgenuine]
    exact ⟨hfound, (Bool.and_eq_true_iff.1 hgenuine).2⟩
  · exact absurd rfl hne

/-- What the image shows of a column was read from it. -/
theorem liveSchema_column {target : Option Target} (h : liveSchema schema target = some image)
    {old : Column} (hold : image.column name = some old) :
    ∃ columns found, target = some columns ∧ found ∈ columns ∧ found.name = name ∧
      columnTypeOf found.type = some old.columnType := by
  cases target with
  | none => cases h
  | some columns =>
    simp only [liveSchema] at h
    split at h
    · cases h
    · obtain rfl := Option.some.inj h
      have hmem := List.mem_of_find?_eq_some hold
      have hname : old.name = name := by simpa using List.find?_some hold
      obtain ⟨found, hfound, himage⟩ := List.mem_filterMap.1 hmem
      obtain ⟨columnType, htype, rfl⟩ := Option.map_eq_some_iff.1 himage
      exact ⟨columns, found, rfl, hfound, hname, htype⟩

end Image

/-! ## An ensure -/

section Ensure

variable {cast : Cast} {options : DestinationOptions} {schema : TableSchema} {mode : WriteMode}
  {backfill : List Int} {fault : Option Nat} {previous : Option TableSchema} {tables : SessionTables}
  {target : Option Target} {column : Column}

/-- A fresh session knows what it changes. -/
theorem ready_of_image (hsound : ∀ columns, target = some columns → Sound columns)
    (hunknown : tables.lookup schema.table = none) (hnodup : schema.columnNames.Nodup)
    (h : .widen .target column ∈ schemaSteps schema .append .staged
      (planningPrevious tables schema target)) :
    Ready (planningPrevious tables schema target) target column := by
  obtain ⟨hcolumn, old, hold, hne⟩ := widen_planned h
  unfold planningPrevious at hold ⊢
  rw [hunknown] at hold ⊢
  obtain ⟨filtered, hfiltered, hseen⟩ := Option.bind_eq_some_iff.1 hold
  obtain ⟨image, himage, rfl⟩ := Option.map_eq_some_iff.1 hfiltered
  obtain ⟨hshown, hwiden⟩ := prefilter_differs hnodup hcolumn hseen hne
  obtain ⟨columns, found, rfl, hfound, hname, htype⟩ := liveSchema_column himage hshown
  have hbelieved : sqlType false old.columnType = found.type := sqlType_of_columnTypeOf htype
  refine ⟨columns, found, rfl, hfound, hname, fun old' hold' => ?_, fun hvalid v hv => ?_⟩
  · obtain rfl := Option.some.inj (hold.symm.trans hold')
    exact hbelieved
  · have hfits := (hsound columns rfl).valid found hfound
    refine isWidening_holds hwiden (hbelieved ▸ hfits) hvalid ?_
    rw [hbelieved]
    exact (hsound columns rfl).holds found hfound v hv

/-- What must be known of a column whose type a session changes again: it has the type
that the session asked for last, and the new type widens it or holds its values. -/
def KnownChange (previous : TableSchema) (target : Option Target) (column : Column) : Prop :=
  ∀ old, previous.column column.name = some old → old.columnType ≠ column.columnType →
    ∃ columns found, target = some columns ∧ found ∈ columns ∧ found.name = column.name ∧
      sqlType false old.columnType = found.type ∧
      (isWidening old.columnType column.columnType = true ∨
        ∀ v ∈ found.values, (sqlType false column.columnType).Holds v)

theorem ready_of_known {known : TableSchema}
    (hsound : ∀ columns, target = some columns → Sound columns)
    (hknown : tables.lookup schema.table = some (known, mode))
    (hchange : ∀ c ∈ schema.columns, KnownChange known target c)
    (h : .widen .target column ∈ schemaSteps schema .append .staged
      (planningPrevious tables schema target)) :
    Ready (planningPrevious tables schema target) target column := by
  have hplanned := widen_planned h
  unfold planningPrevious at hplanned ⊢
  rw [hknown] at hplanned ⊢
  obtain ⟨hcolumn, old, hold, hne⟩ := hplanned
  obtain ⟨columns, found, rfl, hfound, hname, hbelieved, hwider⟩ := hchange column hcolumn old hold hne
  refine ⟨columns, found, rfl, hfound, hname, fun old' hold' => ?_, fun hvalid v hv => ?_⟩
  · obtain rfl := Option.some.inj (hold.symm.trans hold')
    exact hbelieved
  · rcases hwider with hwiden | hholds
    · have hfits := (hsound columns rfl).valid found hfound
      refine isWidening_holds hwiden (hbelieved ▸ hfits) hvalid ?_
      rw [hbelieved]
      exact (hsound columns rfl).holds found hfound v hv
    · exact hholds v hv

/-- A table with two columns of one name is refused at once. -/
theorem careful_tables (hsound : ∀ columns, target = some columns → Sound columns)
    (hready : schema.columnNames.Nodup → ∀ column,
      .widen .target column ∈ schemaSteps schema .append .staged previous → Ready previous target column) :
    Careful previous [] (runSteps cast options schema backfill previous fault
      (schemaSteps schema .append .staged previous) ⟨target, []⟩).1 := by
  by_cases hnodup : schema.columnNames.Nodup
  · exact careful_run ⟨hsound, fun _ ha => absurd ha List.not_mem_nil, hready hnodup,
      widened_once hnodup⟩
  · have hrefused (rest : List EnsureStep) : (runSteps cast options schema backfill previous fault
        (.table .target :: rest) ⟨target, []⟩).1 = ⟨target, []⟩ := by
      unfold runSteps
      split
      · rfl
      · simp only [execStep, hnodup, not_false_eq_true, true_or, if_true]
    refine Eq.mpr (congrArg (Careful previous []) (hrefused _)) ?_
    exact ⟨hsound, fun _ ha => absurd ha List.not_mem_nil, fun _ hc => absurd hc List.not_mem_nil,
      List.nodup_nil⟩

theorem careful_ensure (hsound : ∀ columns, target = some columns → Sound columns)
    (hchange : ∀ known mode, tables.lookup schema.table = some (known, mode) →
      checkEnsured tables schema = .ok () → ∀ c ∈ schema.columns, KnownChange known target c) :
    Careful (planningPrevious tables schema target) []
      (ensureTable cast options schema tables mode fault backfill target).1 := by
  have hstart : Careful (planningPrevious tables schema target) [] ⟨target, []⟩ :=
    ⟨hsound, fun _ ha => absurd ha List.not_mem_nil, fun _ hc => absurd hc List.not_mem_nil,
      List.nodup_nil⟩
  unfold ensureTable
  split
  · exact hstart
  · next hchecked =>
    have htables : Careful (planningPrevious tables schema target) []
        (runSteps cast options schema backfill (planningPrevious tables schema target) fault
          (schemaSteps schema .append .staged (planningPrevious tables schema target))
          ⟨target, []⟩).1 := by
      refine careful_tables hsound fun hnodup column hcolumn => ?_
      cases hlook : tables.lookup schema.table with
      | none => exact ready_of_image hsound hlook hnodup hcolumn
      | some entry =>
        obtain ⟨known, knownMode⟩ := entry
        exact ready_of_known hsound hlook (hchange known knownMode hlook hchecked) hcolumn
    dsimp only
    split
    · next hran =>
      rw [hran] at htables
      exact htables
    · next hran =>
      rw [hran] at htables
      split
      · exact htables
      · next more hmore =>
        have hmerge := htables.without fun step hstep leg column =>
          Ensure.mergeSteps_not_widen hmore hstep leg column
        split
        · next hran' => exact careful_ran hmerge hran'
        · next hran' => exact careful_ran hmerge hran'

end Ensure

/-! ## Runs -/

structure Kept (w : World) : Prop where
  sound : ∀ table columns, w.targets table = some columns → Sound columns
  exact : ∀ a ∈ w.alters, a.Exact

/-- The changes a session makes to a table it has ensured before are known ones. -/
def ChangesKnown (w : World) : Event → Prop
  | .ensure schema _ _ _ => ∀ tables known mode, w.session = some tables →
    tables.lookup schema.table = some (known, mode) → checkEnsured tables schema = .ok () →
      ∀ column ∈ schema.columns, KnownChange known (w.targets schema.table) column
  | _ => True

section Runs

variable {w : World}

theorem kept_session (h : Kept w) (session : Option SessionTables) : Kept { w with session } :=
  ⟨h.sound, h.exact⟩

theorem kept_setTarget (h : Kept w) {table : String} {target : Option Target}
    (htarget : ∀ columns, target = some columns → Sound columns) : Kept (w.setTarget table target) := by
  refine ⟨fun t columns hcolumns => ?_, h.exact⟩
  unfold World.setTarget at hcolumns
  dsimp only at hcolumns
  split at hcolumns
  · exact htarget columns hcolumns
  · exact h.sound t columns hcolumns

theorem published_sound {cast : Cast} {contents : String → List Value} {columns published : Target}
    (h : Sound columns) (hpublished : (columns.mapM fun c => do
      let values ← (contents c.name).mapM (cast.apply c.type)
      return { c with values : TargetColumn }) = some published) :
    Sound published ∧ published.map TargetColumn.name = columns.map TargetColumn.name := by
  induction columns generalizing published with
  | nil =>
    obtain rfl := Option.some.inj hpublished
    exact ⟨h, rfl⟩
  | cons c columns ih =>
    obtain ⟨c', rest, hhead, hrest, rfl⟩ := Fallible.option_mapM_cons.1 hpublished
    obtain ⟨values, hvalues, hhead⟩ := Option.bind_eq_some_iff.1 hhead
    obtain rfl := Option.some.inj hhead
    obtain ⟨hnot, hnodup⟩ := List.nodup_cons.1 h.nodup
    obtain ⟨hsound, hnames⟩ := ih ⟨hnodup, fun x hx => h.valid x (by simp [hx]),
      fun x hx => h.holds x (by simp [hx])⟩ hrest
    have hall : (({ c with values } : TargetColumn) :: rest).map TargetColumn.name =
        (c :: columns).map TargetColumn.name := congrArg (c.name :: ·) hnames
    refine ⟨⟨hall ▸ h.nodup, fun x hx => ?_, fun x hx => ?_⟩, hall⟩
    · rcases List.mem_cons.1 hx with rfl | hx
      · exact h.valid c (by simp)
      · exact hsound.valid x hx
    · rcases List.mem_cons.1 hx with rfl | hx
      · exact cast_holds hvalues
      · exact hsound.holds x hx

theorem kept_step (cast : Cast) (options : DestinationOptions) (w : World) (event : Event) (h : Kept w)
    (hknown : ChangesKnown w event) : Kept (w.step cast options event) := by
  obtain ⟨targets, session, alters⟩ := w
  cases session with
  | none =>
    cases event with
    | «open» => exact kept_session h _
    | crash => exact kept_session h _
    | _ => exact h
  | some tables =>
    cases event with
    | «open» => exact kept_session h _
    | crash => exact kept_session h _
    | ensure schema mode fault backfill =>
      have hensure : Careful _ []
          (ensureTable cast options schema tables mode fault backfill (targets schema.table)).1 :=
        careful_ensure (h.sound schema.table) (hknown tables · · rfl)
      have hkept : Kept { World.setTarget ⟨targets, some tables, alters⟩ schema.table
          (ensureTable cast options schema tables mode fault backfill (targets schema.table)).1.target
          with alters := alters ++
            (ensureTable cast options schema tables mode fault backfill
              (targets schema.table)).1.alters } := by
        refine ⟨(kept_setTarget h hensure.sound).sound, fun a ha => ?_⟩
        rcases List.mem_append.1 ha with ha | ha
        · exact h.exact a ha
        · exact hensure.exact a ha
      simp only [World.step, World.runEnsure]
      split
      · exact kept_session hkept _
      · exact hkept
    | publish table contents =>
      simp only [World.step]
      split
      · unfold World.runPublish
        dsimp only
        split
        · next published hpublished =>
          obtain ⟨columns, hcolumns, hpublished⟩ := Option.bind_eq_some_iff.1 hpublished
          refine kept_setTarget h fun x hx => ?_
          obtain rfl := Option.some.inj hx
          exact (published_sound (h.sound table columns hcolumns) hpublished).1
        · exact h
      · exact h

end Runs

/-- As long as the changes within a session are known ones, every executed change of a
target's column starts from the type the column has, and the new type holds every value
committed in it. -/
theorem alters_exact (cast : Cast) (options : DestinationOptions) (targets : String → Option Target)
    (hsound : ∀ table columns, targets table = some columns → Sound columns) (events : List Event)
    (hknown : Transition.Meets (World.step cast options) ChangesKnown ⟨targets, none, []⟩ events) :
    ∀ a ∈ (Transition.run (World.step cast options) ⟨targets, none, []⟩ events).alters, a.Exact := by
  have hkept : Kept ⟨targets, none, []⟩ := ⟨hsound, fun _ ha => absurd ha List.not_mem_nil⟩
  exact (Transition.run_invariant (fun w event h hok => kept_step cast options w event h hok)
    hkept hknown).exact

/-! Runs over a table of one column. -/

/-- Some of the database's casts. -/
def demoCast : Cast where
  apply
    | .varchar, .text s => some (.text s)
    | .varchar, .number q => some (.number q)
    | .double, .text "01234" => some (.number 1234)
    | .bigint, .number q =>
      if q = 7 then some (.number 7)
      else if q = 9007199254740993 then some (.number 9007199254740993) else none
    | .double, .number q =>
      if q = 9007199254740993 then some (.number 9007199254740992) else none
    | .decimal 21 2, .number q => if q = 7 then some (.number 7) else none
    | _, _ => none
  holds := by
    intro type value cast h
    split at h
    · obtain rfl := Option.some.inj h
      rfl
    · obtain rfl := Option.some.inj h
      rfl
    · obtain rfl := Option.some.inj h
      exact ⟨1234, 0, 0, by norm_num, by norm_num, by norm_num, by norm_num⟩
    · split at h
      · obtain rfl := Option.some.inj h
        exact ⟨7, by norm_num, by norm_num, by norm_num⟩
      · split at h
        · obtain rfl := Option.some.inj h
          exact ⟨9007199254740993, by norm_num, by norm_num, by norm_num⟩
        · cases h
    · split at h
      · obtain rfl := Option.some.inj h
        exact ⟨1, 53, 0, by norm_num, by norm_num, by norm_num, by norm_num⟩
      · cases h
    · split at h
      · obtain rfl := Option.some.inj h
        exact ⟨700, by norm_num, by norm_num⟩
      · cases h
    · cases h

def counter (columnType : ColumnType) : TableSchema := ⟨"t", none, [⟨"n", columnType, true⟩]⟩

def ensureCounter (columnType : LogicalType) : Event := .ensure (counter (.scalar columnType)) .append none []

def oneRun (columnType : LogicalType) (value : Value) : List Event :=
  [.open, ensureCounter columnType, .publish "t" fun _ => [value], .open]

def noTargets : World := ⟨fun _ => none, none, []⟩

/-- An integer, then a run that widens it and widens it again. -/
def widenedTwice : List Event :=
  oneRun .int64 (.number 7) ++ [ensureCounter (.decimal 21 2), ensureCounter .utf8]

theorem widened_twice_exact :
    (Transition.run (World.step demoCast {}) noTargets widenedTwice).alters.length = 2 ∧
      ∀ a ∈ (Transition.run (World.step demoCast {}) noTargets widenedTwice).alters, a.Exact := by
  refine ⟨by decide, alters_exact demoCast {} (fun _ => none) (fun _ _ h => nomatch h) widenedTwice ?_⟩
  have hfresh (w : World) (schema : TableSchema) (hsession : w.session = some []) :
      ChangesKnown w (.ensure schema .append none []) := by
    intro tables known mode htables hlook
    obtain rfl := Option.some.inj (hsession.symm.trans htables)
    cases hlook
  refine ⟨trivial, hfresh _ _ rfl, trivial, trivial, hfresh _ _ rfl, ?_, trivial⟩
  intro tables known mode htables hlook _ column hcolumn old hold _
  obtain rfl := Option.some.inj htables
  obtain ⟨rfl, rfl⟩ := Prod.mk.inj (Option.some.inj hlook)
  obtain rfl := List.mem_singleton.1 hcolumn
  obtain rfl := Option.some.inj hold
  exact ⟨[⟨"n", .decimal 21 2, [.number 7]⟩], _, rfl, List.mem_singleton.2 rfl, rfl, rfl, .inl rfl⟩

/-! One run takes a committed text for an integer, as it asked for one. Another has
committed an integer that is no float. Both ask for a float later on. -/

def textTakenForInt : List Event :=
  oneRun .utf8 (.text "01234") ++ [ensureCounter .int64, ensureCounter .float64]

def intTakenForFloat : List Event :=
  oneRun .int64 (.number 9007199254740993) ++ [ensureCounter .int64, ensureCounter .float64]

theorem lossy_alters :
    (∃ a ∈ (Transition.run (World.step demoCast {}) noTargets textTakenForInt).alters, ¬a.Exact) ∧
      ∃ a ∈ (Transition.run (World.step demoCast {}) noTargets intTakenForFloat).alters, ¬a.Exact := by
  have htext : (Transition.run (World.step demoCast {}) noTargets textTakenForInt).alters =
      [⟨"t", "n", .scalar .int64, .varchar, .scalar .float64, [.text "01234"]⟩] := by
    decide
  have hint : (Transition.run (World.step demoCast {}) noTargets intTakenForFloat).alters =
      [⟨"t", "n", .scalar .int64, .bigint, .scalar .float64, [.number 9007199254740993]⟩] := by
    decide
  rw [htext, hint]
  refine ⟨⟨_, List.mem_singleton.2 rfl, fun h => ?_⟩, ⟨_, List.mem_singleton.2 rfl, fun h => ?_⟩⟩
  · cases h.1
  · exact not_isDouble_of_odd (n := 9007199254740993) (by norm_num) (by norm_num)
      (h.2 _ (List.mem_singleton.2 rfl))

end DuckCatalog
