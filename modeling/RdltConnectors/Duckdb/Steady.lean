import Mathlib
import RdltConnectors.Duckdb.Widen

/-!
# Ensuring again changes nothing

What a fresh session plans to change, it changes along the widening order alone. Once that went
through, no run that asks for the same columns changes a type again, and none drops an index for it,
whatever else happens in between.
-/
namespace DuckCatalog

open Sqlcore Duckdb
open Sqlcore.Ensure hiding mergeSteps

/-! ## The widening order -/

theorem isWidening_trans {old mid new : ColumnType} (h : isWidening old mid = true)
    (h' : isWidening mid new = true) : isWidening old new = true := by
  unfold isWidening at h h' ⊢
  split at h
  · cases h
  · next hbinary =>
    rw [if_neg hbinary]
    split at h'
    · cases h'
    · split at h'
      · rfl
      · rfl
      · next precision scale =>
        split at h <;> simp_all
      · next precision scale precision' scale' =>
        rw [Bool.and_eq_true, decide_eq_true_iff, decide_eq_true_iff] at h'
        split at h
        · simp_all
        · simp_all
        · simp_all
          omega
        · simp_all
          omega
        · cases h
      · cases h'

/-! ## Indexes in the way -/

/-- The columns whose types are to change. -/
def changing (previous schema : TableSchema) : List String :=
  (schema.columns.filter fun d =>
    (previous.column d.name).any fun old => decide (old.columnType ≠ d.columnType)).map Column.name

/-- The unique indexes on a column that changes, by both the names they may have. -/
def preAlterIndexDrops (planningPrevious : Option TableSchema) (schema : TableSchema)
    (mergeStatements : List EnsureStep) : List IndexSpec :=
  match planningPrevious with
  | none => []
  | some previous =>
    if changing previous schema = [] then []
    else mergeStatements.flatMap fun
      | .index ⟨true, columns⟩ =>
        if columns.any fun c => decide (c ∈ changing previous schema) then
          [⟨true, columns⟩, ⟨false, columns⟩]
        else []
      | _ => []

/-- Neither a change of a type nor an index dropped for one. -/
def Quiet (schema : TableSchema) (previous : Option TableSchema) : Prop :=
  (∀ leg column, .widen leg column ∉ schemaSteps schema .append .staged previous) ∧
    ∀ steps, preAlterIndexDrops previous schema steps = []

/-- No column is believed to have another type. -/
def NoChange (schema : TableSchema) (previous : Option TableSchema) : Prop :=
  ∀ c ∈ schema.columns, ∀ old, (previous.bind fun prev => prev.column c.name) = some old →
    old.columnType = c.columnType

theorem quiet_of_noChange {schema : TableSchema} {previous : Option TableSchema}
    (h : NoChange schema previous) : Quiet schema previous := by
  constructor
  · intro leg column hmem
    obtain ⟨leg', -, hmem⟩ := List.mem_flatMap.1 hmem
    obtain hmem | hmem := List.mem_cons.1 hmem
    · cases hmem
    · obtain ⟨d, hd, hmem⟩ := List.mem_flatMap.1 hmem
      obtain hmem | hmem := List.mem_cons.1 hmem
      · cases hmem
      · split at hmem
        · next old hold =>
          rw [if_neg (not_not_intro (h d hd old hold))] at hmem
          cases hmem
        · cases hmem
  · intro steps
    cases previous with
    | none => rfl
    | some prev =>
      have hnone : changing prev schema = [] := by
        rw [changing, List.map_eq_nil_iff, List.filter_eq_nil_iff]
        intro d hd hany
        obtain ⟨old, hold, hne⟩ := (Option.any_eq_true _ _).1 hany
        exact of_decide_eq_true hne (h d hd old hold)
      exact if_pos hnone

/-! ## What a column is -/

/-- The type of the column of a name. -/
def typeOf (name : String) (columns : Target) : Option SqlType :=
  (columns.find? fun c => c.name = name).map TargetColumn.type

/-- The catalog shows a type that the wanted one genuinely widens. -/
def isBehind (columns : Target) (wanted : Column) : Bool :=
  ((typeOf wanted.name columns).bind columnTypeOf).any fun old => genuineWiden old wanted.columnType

section Types

variable {columns columns' : Target} {name : String} {type : SqlType} {values : List Value}

theorem typeOf_cons (c : TargetColumn) :
    typeOf name (c :: columns) = if c.name = name then some c.type else typeOf name columns := by
  unfold typeOf
  rw [List.find?_cons]
  by_cases h : c.name = name
  · simp [h]
  · simp [h]

theorem typeOf_eq_none : typeOf name columns = none ↔ name ∉ columns.map TargetColumn.name := by
  induction columns with
  | nil => simp [typeOf]
  | cons c columns ih =>
    rw [typeOf_cons, List.map_cons, List.mem_cons, not_or]
    by_cases h : c.name = name
    · simp [h]
    · rw [if_neg h, ih]
      exact ⟨fun hnot => ⟨fun heq => h heq.symm, hnot⟩, And.right⟩

theorem typeOf_addColumn (hadd : addColumn name type values columns = some columns') (other : String) :
    typeOf other columns' = (typeOf other columns).or (if other = name then some type else none) := by
  unfold addColumn at hadd
  split at hadd
  · cases hadd
  · split at hadd
    · next hmem =>
      obtain rfl := Option.some.inj hadd
      split
      · next heq =>
        subst heq
        cases hfound : typeOf other columns with
        | none => exact absurd hmem (typeOf_eq_none.1 hfound)
        | some type => rfl
      · rw [Option.or_none]
    · next hnew =>
      obtain rfl := Option.some.inj hadd
      unfold typeOf
      rw [List.find?_append, List.find?_singleton]
      cases columns.find? fun c => c.name = other with
      | some c => rfl
      | none =>
        by_cases heq : name = other
        · simp [heq]
        · have hne : ¬other = name := fun h => heq h.symm
          simp [heq, hne]

theorem typeOf_setDataType (other : String) : typeOf other (setDataType name type values columns) =
    if other = name then (typeOf other columns).map fun _ => type else typeOf other columns := by
  induction columns with
  | nil =>
    rw [show setDataType name type values [] = [] from rfl]
    split
    · rfl
    · rfl
  | cons c columns ih =>
    have hcons : setDataType name type values (c :: columns) =
        (if c.name = name then ⟨name, type, values⟩ else c) :: setDataType name type values columns := rfl
    rw [hcons, typeOf_cons, ih, typeOf_cons]
    by_cases hc : c.name = name
    · by_cases ho : other = name
      · simp [hc, ho]
      · have hne : ¬name = other := fun h => ho h.symm
        simp [hc, ho, hne]
    · by_cases ho : other = name
      · have hne : ¬c.name = other := fun h => hc (h.trans ho)
        simp [hc, ho]
      · simp [hc, ho]

end Types

/-! ## What a fresh session plans -/

section Fresh

variable {schema : TableSchema} {columns : Target} {tables : SessionTables} {c : Column}

theorem columnNamed_image (name : String) {columns : Target}
    (hnodup : (columns.map TargetColumn.name).Nodup) :
    columnNamed name (columns.filterMap imageColumn) =
      ((typeOf name columns).bind columnTypeOf).map fun columnType => ⟨name, columnType, true⟩ := by
  induction columns with
  | nil => rfl
  | cons found columns ih =>
    obtain ⟨hnot, hrest⟩ := List.nodup_cons.1 hnodup
    rw [typeOf_cons, List.filterMap_cons]
    by_cases hname : found.name = name
    · subst hname
      have hother : typeOf found.name columns = none := typeOf_eq_none.2 hnot
      rw [if_pos rfl, imageColumn]
      cases htype : columnTypeOf found.type with
      | none =>
        rw [Option.map_none, ih hrest, hother, Option.bind_some, htype]
        rfl
      | some columnType =>
        rw [Option.map_some, columnNamed_cons, if_pos rfl, Option.bind_some, htype]
        rfl
    · rw [if_neg hname, ← ih hrest, imageColumn]
      cases columnTypeOf found.type with
      | none => rfl
      | some columnType =>
        rw [Option.map_some, columnNamed_cons, if_neg hname]

/-- What a session that has not ensured the table believes of a column. -/
theorem believed_fresh (hunknown : tables.lookup schema.table = none)
    (hschema : schema.columnNames.Nodup) (hcolumns : (columns.map TargetColumn.name).Nodup)
    (hc : c ∈ schema.columns) :
    ((planningPrevious tables schema (some columns)).bind fun prev => prev.column c.name) =
      ((typeOf c.name columns).bind columnTypeOf).map fun columnType =>
        adopted c ⟨c.name, columnType, true⟩ := by
  have himage := columnNamed_image c.name hcolumns
  unfold planningPrevious
  rw [hunknown]
  dsimp only [liveSchema]
  split
  · next hempty =>
    rw [List.isEmpty_iff.1 hempty] at himage
    rw [Option.map_eq_none_iff.1 himage.symm]
    rfl
  · have hfold : columnNamed c.name (schema.columns.foldl (fun columns d => adoptColumn d columns)
        (columns.filterMap imageColumn)) = (columnNamed c.name (columns.filterMap imageColumn)).map
          (adopted c) := columnNamed_fold hschema hc
    rw [himage, Option.map_map] at hfold
    exact hfold

theorem columnSteps_fresh (hunknown : tables.lookup schema.table = none)
    (hschema : schema.columnNames.Nodup) (hcolumns : (columns.map TargetColumn.name).Nodup)
    (hc : c ∈ schema.columns) (leg : Leg) :
    columnSteps (planningPrevious tables schema (some columns)) leg c =
      .column leg c :: if isBehind columns c then [.widen leg c] else [] := by
  rw [columnSteps, believed_fresh hunknown hschema hcolumns hc, isBehind]
  cases (typeOf c.name columns).bind columnTypeOf with
  | none => rfl
  | some columnType =>
    rw [Option.map_some, Option.any_some, adopted]
    dsimp only
    by_cases hgenuine : genuineWiden columnType c.columnType = true
    · have hne : columnType ≠ c.columnType := by
        rintro rfl
        simp [genuineWiden] at hgenuine
      rw [if_pos hgenuine, if_pos hgenuine, if_pos hne]
    · rw [if_neg hgenuine, if_neg hgenuine, if_neg (not_not_intro rfl)]

end Fresh

/-! ## The steps -/

/-- Every column asked for is there, and none is behind. -/
structure Settled (schema : TableSchema) (columns : Target) : Prop where
  nodup : (columns.map TargetColumn.name).Nodup
  present : ∀ c ∈ schema.columns, c.name ∈ columns.map TargetColumn.name
  level : ∀ c ∈ schema.columns, isBehind columns c = false

section Steps

variable {cast : Cast} {options : DestinationOptions} {schema : TableSchema} {backfill : List Int}
  {previous : Option TableSchema} {fault : Option Nat} {p p' : Progress} {columns columns' : Target}
  {steps more : List EnsureStep}

/-- Steps behind others run where those went through. -/
theorem runSteps_join (fault : Option Nat) (steps more : List EnsureStep) (p : Progress) :
    runSteps cast options schema backfill previous fault (steps ++ more) p =
      match runSteps cast options schema backfill previous fault steps p with
      | (mid, none) =>
        runSteps cast options schema backfill previous (fault.map (· - steps.length)) more mid
      | stopped => stopped := by
  induction steps generalizing fault p with
  | nil => cases fault <;> rfl
  | cons step steps ih =>
    rw [List.cons_append, runSteps, runSteps]
    split
    · rfl
    · cases hstep : execStep cast options schema backfill previous step p with
      | none => rfl
      | some next =>
        have hfaults : (fault.map (· - 1)).map (· - steps.length) =
            fault.map (· - (step :: steps).length) := by
          rw [Option.map_map, List.length_cons, Nat.add_comm]
          exact congrArg (Option.map · fault) (funext fun n => Nat.sub_sub n 1 steps.length)
        dsimp only
        rw [ih, hfaults]

theorem runSteps_append (fault : Option Nat) (steps more : List EnsureStep) (p : Progress)
    (h : runSteps cast options schema backfill previous fault (steps ++ more) p = (p', none)) :
    ∃ mid, runSteps cast options schema backfill previous fault steps p = (mid, none) ∧
      runSteps cast options schema backfill previous (fault.map (· - steps.length)) more mid =
        (p', none) := by
  rw [runSteps_join] at h
  split at h
  · next mid hran => exact ⟨mid, hran, h⟩
  · next hnot => exact absurd h (hnot p')

theorem runSteps_one {step : EnsureStep}
    (h : runSteps cast options schema backfill previous fault [step] p = (p', none)) :
    execStep cast options schema backfill previous step p = some p' := by
  rw [runSteps] at h
  split at h
  · cases h
  · split at h
    · cases h
    · next next hstep =>
      rw [hstep]
      exact congrArg some (Prod.mk.inj h).1

theorem exec_column {c : Column}
    (h : execStep cast options schema backfill previous (.column .target c) p = some p') :
    ∃ columns columns', p.target = some columns ∧
      addColumn c.name (sqlType false c.columnType) [] columns = some columns' ∧
      p' = ⟨some columns', p.alters⟩ := by
  obtain ⟨columns, hcolumns, h⟩ := Option.bind_eq_some_iff.1 h
  obtain ⟨columns', hadd, h⟩ := Option.bind_eq_some_iff.1 h
  exact ⟨columns, columns', hcolumns, hadd, (Option.some.inj h).symm⟩

theorem exec_widen {c : Column}
    (h : execStep cast options schema backfill previous (.widen .target c) p = some p') :
    ∃ columns type old values alter, p.target = some columns ∧ typeOf c.name columns = some type ∧
      (previous.bind fun prev => prev.column c.name) = some old ∧
      p' = ⟨some (setDataType c.name (sqlType false c.columnType) values columns),
        p.alters ++ [alter]⟩ ∧
      alter.table = schema.table ∧ alter.believed = old.columnType ∧ alter.actual = type ∧
      alter.type = c.columnType := by
  obtain ⟨columns, hcolumns, h⟩ := Option.bind_eq_some_iff.1 h
  obtain ⟨⟨changed, alter⟩, hwiden, h⟩ := Option.bind_eq_some_iff.1 h
  obtain rfl := Option.some.inj h
  obtain ⟨found, hfind, hwiden⟩ := Option.bind_eq_some_iff.1 hwiden
  obtain ⟨old, hold, hwiden⟩ := Option.bind_eq_some_iff.1 hwiden
  dsimp only at hwiden
  split at hwiden
  · cases hwiden
  · obtain ⟨values, -, hwiden⟩ := Option.bind_eq_some_iff.1 hwiden
    obtain ⟨rfl, rfl⟩ := Prod.mk.inj (Option.some.inj hwiden)
    refine ⟨columns, found.type, old, values, _, hcolumns, ?_, hold, rfl, rfl, rfl, rfl, rfl⟩
    rw [typeOf, hfind]
    rfl

theorem addColumn_names {name : String} {type : SqlType} {values : List Value}
    (h : addColumn name type values columns = some columns')
    (hnodup : (columns.map TargetColumn.name).Nodup) : (columns'.map TargetColumn.name).Nodup := by
  unfold addColumn at h
  split at h
  · cases h
  · split at h
    · obtain rfl := Option.some.inj h
      exact hnodup
    · next hnew =>
      obtain rfl := Option.some.inj h
      rw [List.map_append, List.map_singleton, ← List.concat_eq_append]
      exact List.Nodup.concat hnew hnodup

theorem isBehind_congr {c : Column} (h : typeOf c.name columns' = typeOf c.name columns) :
    isBehind columns' c = isBehind columns c := by
  rw [isBehind, isBehind, h]

/-- A column that has the type asked for is not behind. -/
theorem isBehind_wanted {c : Column} (h : typeOf c.name columns = some (sqlType false c.columnType)) :
    isBehind columns c = false := by
  rw [isBehind, h, Option.bind_some]
  cases hread : columnTypeOf (sqlType false c.columnType) with
  | none => rfl
  | some columnType =>
    have hsame := sqlType_of_columnTypeOf hread
    rw [Option.any_some, genuineWiden, hsame]
    simp

theorem mem_names {name : String} {type : SqlType} (h : typeOf name columns = some type) :
    name ∈ columns.map TargetColumn.name := by
  by_contra hnot
  rw [typeOf_eq_none.2 hnot] at h
  cases h

end Steps

/-! ## A first ensure -/

/-- A change from the type that the column has to one that is wider. -/
def Alter.Along (a : Alter) : Prop :=
  columnTypeOf a.actual = some a.believed ∧ isWidening a.believed a.type = true

section First

variable {cast : Cast} {options : DestinationOptions} {schema : TableSchema} {backfill : List Int}
  {fault : Option Nat} {p p' : Progress} {start columns : Target} {tables : SessionTables} {c : Column}

/-- A column that the plan changes is as the plan saw it, and any other is level. -/
structure Fits (start columns : Target) (c : Column) : Prop where
  behind : isBehind start c = true → typeOf c.name columns = typeOf c.name start
  level : isBehind start c = false → isBehind columns c = false

theorem Fits.congr {columns columns' : Target} (h : Fits start columns c)
    (hsame : typeOf c.name columns' = typeOf c.name columns) : Fits start columns' c :=
  ⟨fun hbehind => hsame.trans (h.behind hbehind), fun hlevel => (isBehind_congr hsame).trans (h.level hlevel)⟩

theorem fits_start (c : Column) : Fits start start c := ⟨fun _ => rfl, id⟩

/-- The steps of one column leave it level, and no other column changed. -/
theorem settle_column (hunknown : tables.lookup schema.table = none)
    (hschema : schema.columnNames.Nodup) (hstart : (start.map TargetColumn.name).Nodup)
    (hc : c ∈ schema.columns) (hcolumns : p.target = some columns)
    (hnodup : (columns.map TargetColumn.name).Nodup) (hfits : Fits start columns c)
    (h : runSteps cast options schema backfill (planningPrevious tables schema (some start)) fault
      (columnSteps (planningPrevious tables schema (some start)) .target c) p = (p', none)) :
    ∃ columns', p'.target = some columns' ∧ (columns'.map TargetColumn.name).Nodup ∧
      c.name ∈ columns'.map TargetColumn.name ∧ isBehind columns' c = false ∧
      (∀ other, other ≠ c.name → typeOf other columns' = typeOf other columns) ∧
      ∀ a ∈ p'.alters, a ∈ p.alters ∨ a.Along := by
  rw [columnSteps_fresh hunknown hschema hstart hc] at h
  obtain ⟨mid, hcolumn, hmore⟩ := runSteps_append _ [.column .target c] _ _ h
  obtain ⟨columns₀, added, hcolumns₀, hadd, rfl⟩ := exec_column (runSteps_one hcolumn)
  obtain rfl := Option.some.inj (hcolumns.symm.trans hcolumns₀)
  have hadded := addColumn_names hadd hnodup
  have htype := typeOf_addColumn hadd c.name
  rw [if_pos rfl] at htype
  have hothers : ∀ other, other ≠ c.name → typeOf other added = typeOf other columns := by
    intro other hne
    rw [typeOf_addColumn hadd other, if_neg hne, Option.or_none]
  cases hbehind : isBehind start c with
  | false =>
    rw [hbehind] at hmore
    obtain rfl : (⟨some added, p.alters⟩ : Progress) = p' := (Prod.mk.inj hmore).1
    have hpresent : ∃ type, typeOf c.name added = some type := by
      rw [htype]
      cases typeOf c.name columns with
      | none => exact ⟨_, rfl⟩
      | some type => exact ⟨type, rfl⟩
    obtain ⟨type, hpresent⟩ := hpresent
    refine ⟨added, rfl, hadded, mem_names hpresent, ?_, hothers, fun a ha => .inl ha⟩
    cases hfound : typeOf c.name columns with
    | none =>
      rw [hfound, Option.none_or] at htype
      exact isBehind_wanted htype
    | some type =>
      rw [hfound, Option.some_or] at htype
      rw [isBehind_congr (htype.trans hfound.symm)]
      exact hfits.level hbehind
  | true =>
    rw [hbehind] at hmore
    obtain ⟨columns₁, type, old, values, alter, htarget, hactual, hold, rfl, -, hbelieved, hwas, hasked⟩ :=
      exec_widen (runSteps_one hmore)
    obtain rfl := Option.some.inj htarget
    have hwanted : typeOf c.name (setDataType c.name (sqlType false c.columnType) values added) =
        some (sqlType false c.columnType) := by
      rw [typeOf_setDataType, if_pos rfl, hactual]
      rfl
    refine ⟨_, rfl, ?_, mem_names hwanted, isBehind_wanted hwanted, ?_, ?_⟩
    · rw [setDataType_names]
      exact hadded
    · intro other hne
      rw [typeOf_setDataType, if_neg hne]
      exact hothers other hne
    · intro a ha
      obtain ha | ha := List.mem_append.1 ha
      · exact .inl ha
      · rw [List.mem_singleton.1 ha]
        right
        -- the column is the one that the catalog showed
        obtain ⟨shown, hshown, hgenuine⟩ := (Option.any_eq_true _ _).1 hbehind
        obtain ⟨was, hwas', hread⟩ := Option.bind_eq_some_iff.1 hshown
        rw [believed_fresh hunknown hschema hstart hc, hshown, Option.map_some, adopted,
          if_pos hgenuine] at hold
        obtain rfl := Option.some.inj hold
        rw [(hfits.behind hbehind).trans hwas', Option.some_or, hactual] at htype
        obtain rfl := Option.some.inj htype
        rw [Alter.Along, hwas, hbelieved, hasked]
        exact ⟨hread, (Bool.and_eq_true_iff.1 hgenuine).2⟩

theorem settle_columns (hunknown : tables.lookup schema.table = none)
    (hschema : schema.columnNames.Nodup) (hstart : (start.map TargetColumn.name).Nodup)
    {todo : List Column} (htodo : ∀ c ∈ todo, c ∈ schema.columns) (honce : (todo.map Column.name).Nodup)
    (hcolumns : p.target = some columns) (hnodup : (columns.map TargetColumn.name).Nodup)
    (hfits : ∀ c ∈ todo, Fits start columns c)
    (h : runSteps cast options schema backfill (planningPrevious tables schema (some start)) fault
      (todo.flatMap (columnSteps (planningPrevious tables schema (some start)) .target)) p = (p', none)) :
    ∃ columns', p'.target = some columns' ∧ (columns'.map TargetColumn.name).Nodup ∧
      (∀ c ∈ todo, c.name ∈ columns'.map TargetColumn.name ∧ isBehind columns' c = false) ∧
      ∀ other, other ∉ todo.map Column.name → typeOf other columns' = typeOf other columns := by
  induction todo generalizing p fault columns with
  | nil =>
    obtain rfl := (Prod.mk.inj h).1
    exact ⟨columns, hcolumns, hnodup, fun c hc => absurd hc List.not_mem_nil, fun _ _ => rfl⟩
  | cons c todo ih =>
    rw [List.forall_mem_cons] at htodo hfits
    obtain ⟨hnot, honce⟩ := List.nodup_cons.1 honce
    rw [List.flatMap_cons] at h
    obtain ⟨mid, hfirst, hmore⟩ := runSteps_append _ _ _ _ h
    obtain ⟨columns₁, hcolumns₁, hnodup₁, hpresent, hlevel, hothers, -⟩ :=
      settle_column hunknown hschema hstart htodo.1 hcolumns hnodup hfits.1 hfirst
    have hne : ∀ d ∈ todo, d.name ≠ c.name := fun d hd heq => hnot (heq ▸ List.mem_map_of_mem hd)
    obtain ⟨columns₂, hcolumns₂, hnodup₂, hsettled, hothers₂⟩ := ih htodo.2 honce hcolumns₁
      hnodup₁ (fun d hd => (hfits.2 d hd).congr (hothers d.name (hne d hd))) hmore
    have hkept := hothers₂ c.name hnot
    refine ⟨columns₂, hcolumns₂, hnodup₂, List.forall_mem_cons.2 ⟨⟨?_, ?_⟩, hsettled⟩, ?_⟩
    · by_contra habsent
      rw [typeOf_eq_none.2 habsent] at hkept
      exact typeOf_eq_none.1 hkept.symm hpresent
    · rw [isBehind_congr hkept]
      exact hlevel
    · intro other hother
      rw [List.map_cons, List.mem_cons, not_or] at hother
      rw [hothers₂ other hother.2, hothers other hother.1]

/-- The columns of a new table. -/
def created (columns : List Column) : Target :=
  columns.map fun c => ⟨c.name, sqlType false c.columnType, []⟩

theorem created_names (columns : List Column) :
    (created columns).map TargetColumn.name = columns.map Column.name := by
  rw [created, List.map_map]
  rfl

theorem typeOf_created {columns : List Column} (honce : (columns.map Column.name).Nodup)
    (hc : c ∈ columns) : typeOf c.name (created columns) = some (sqlType false c.columnType) := by
  have hmem : (⟨c.name, sqlType false c.columnType, []⟩ : TargetColumn) ∈ created columns :=
    List.mem_map_of_mem (f := fun c : Column => TargetColumn.mk c.name (sqlType false c.columnType) []) hc
  rw [← created_names] at honce
  have hfind := find_of_nodup honce hmem
  rw [typeOf, hfind]
  rfl

theorem exec_table {previous : Option TableSchema}
    (h : execStep cast options schema backfill previous (.table .target) p = some p') :
    schema.columnNames.Nodup ∧ p'.alters = p.alters ∧
      (p'.target = p.target ∧ p.target ≠ none ∨
        p.target = none ∧ p'.target = some (created schema.columns)) := by
  rw [execStep] at h
  split at h
  · cases h
  · next hvalid =>
    refine ⟨not_not.1 fun hnot => hvalid (.inl hnot), ?_⟩
    split at h
    · next columns htarget =>
      obtain rfl := Option.some.inj h
      exact ⟨rfl, .inl ⟨rfl, by rw [htarget]; exact Option.some_ne_none _⟩⟩
    · next htarget =>
      obtain rfl := Option.some.inj h
      exact ⟨rfl, .inr ⟨htarget, rfl⟩⟩

/-- Only a change of a type of the target is recorded. -/
theorem unchanged_step {previous : Option TableSchema} {step : EnsureStep}
    (hstep : ∀ column, step ≠ .widen .target column)
    (h : execStep cast options schema backfill previous step p = some p') : p'.alters = p.alters := by
  cases step with
  | table leg =>
    cases leg with
    | target => exact (exec_table h).2.1
    | stage => rw [Option.some.inj h]
  | column leg c =>
    cases leg with
    | target =>
      obtain ⟨_, _, -, -, rfl⟩ := exec_column h
      rfl
    | stage => rw [Option.some.inj h]
  | widen leg c =>
    cases leg with
    | target => exact absurd rfl (hstep c)
    | stage => rw [Option.some.inj h]
  | validity which =>
    obtain ⟨_, -, h⟩ := Option.bind_eq_some_iff.1 h
    cases which with
    | validFrom =>
      obtain ⟨_, -, h⟩ := Option.bind_eq_some_iff.1 h
      rw [← Option.some.inj h]
    | validTo =>
      obtain ⟨_, -, h⟩ := Option.bind_eq_some_iff.1 h
      rw [← Option.some.inj h]
  | index spec => rw [Option.some.inj h]

theorem unchanged_run {previous : Option TableSchema} {steps : List EnsureStep}
    (hsteps : ∀ column, .widen .target column ∉ steps) :
    (runSteps cast options schema backfill previous fault steps p).1.alters = p.alters := by
  induction steps generalizing fault p with
  | nil => rfl
  | cons step steps ih =>
    rw [runSteps]
    split
    · rfl
    · split
      · rfl
      · next next hexec =>
        rw [ih fun column hmem => hsteps column (List.mem_cons_of_mem _ hmem)]
        exact unchanged_step (fun column heq => hsteps column (heq ▸ List.mem_cons_self)) hexec

/-- However far the steps of one column come. -/
theorem along_column (hunknown : tables.lookup schema.table = none)
    (hschema : schema.columnNames.Nodup) (hstart : (start.map TargetColumn.name).Nodup)
    (hc : c ∈ schema.columns) (hcolumns : p.target = some columns)
    (hnodup : (columns.map TargetColumn.name).Nodup) (hfits : Fits start columns c) :
    ∀ a ∈ (runSteps cast options schema backfill (planningPrevious tables schema (some start)) fault
      (columnSteps (planningPrevious tables schema (some start)) .target c) p).1.alters,
      a ∈ p.alters ∨ a.Along := by
  cases hran : runSteps cast options schema backfill (planningPrevious tables schema (some start)) fault
    (columnSteps (planningPrevious tables schema (some start)) .target c) p with
  | mk p' stopped =>
    cases stopped with
    | none =>
      obtain ⟨-, -, -, -, -, -, halong⟩ :=
        settle_column hunknown hschema hstart hc hcolumns hnodup hfits hran
      exact halong
    | some failed =>
      -- the change of the type is the last step
      have hsame : p'.alters = p.alters := by
        have hcolumn : (runSteps cast options schema backfill
            (planningPrevious tables schema (some start)) fault [.column .target c] p).1.alters =
            p.alters := unchanged_run fun column hmem => by cases List.mem_singleton.1 hmem
        rw [columnSteps_fresh hunknown hschema hstart hc, ← List.singleton_append, runSteps_join] at hran
        split at hran
        · next mid hmid =>
          rw [hmid] at hcolumn
          rw [← hcolumn]
          split at hran
          · rw [runSteps] at hran
            split at hran
            · rw [(Prod.mk.inj hran).1]
            · split at hran
              · rw [(Prod.mk.inj hran).1]
              · cases (Prod.mk.inj hran).2
          · cases (Prod.mk.inj hran).2
        · rw [hran] at hcolumn
          exact hcolumn
      rw [hsame]
      exact fun a ha => .inl ha

theorem along_columns (hunknown : tables.lookup schema.table = none)
    (hschema : schema.columnNames.Nodup) (hstart : (start.map TargetColumn.name).Nodup)
    {todo : List Column} (htodo : ∀ c ∈ todo, c ∈ schema.columns) (honce : (todo.map Column.name).Nodup)
    (hcolumns : p.target = some columns) (hnodup : (columns.map TargetColumn.name).Nodup)
    (hfits : ∀ c ∈ todo, Fits start columns c) :
    ∀ a ∈ (runSteps cast options schema backfill (planningPrevious tables schema (some start)) fault
      (todo.flatMap (columnSteps (planningPrevious tables schema (some start)) .target)) p).1.alters,
      a ∈ p.alters ∨ a.Along := by
  induction todo generalizing p fault columns with
  | nil => exact fun a ha => .inl ha
  | cons c todo ih =>
    rw [List.forall_mem_cons] at htodo hfits
    obtain ⟨hnot, honce⟩ := List.nodup_cons.1 honce
    have hfirst := @along_column cast options schema backfill fault p start columns tables c hunknown
      hschema hstart htodo.1 hcolumns hnodup hfits.1
    rw [List.flatMap_cons, runSteps_join]
    split
    · next mid hran =>
      rw [hran] at hfirst
      obtain ⟨columns₁, hcolumns₁, hnodup₁, -, -, hothers, -⟩ :=
        settle_column hunknown hschema hstart htodo.1 hcolumns hnodup hfits.1 hran
      have hne : ∀ d ∈ todo, d.name ≠ c.name := fun d hd heq => hnot (heq ▸ List.mem_map_of_mem hd)
      intro a ha
      obtain ha | ha := ih htodo.2 honce hcolumns₁ hnodup₁
        (fun d hd => (hfits.2 d hd).congr (hothers d.name (hne d hd))) a ha
      · exact hfirst a ha
      · exact .inr ha
    · exact hfirst

/-- The steps of a stage leave the target alone. -/
theorem stage_steps {previous : Option TableSchema} (columns : List Column)
    (h : runSteps cast options schema backfill previous fault
      (columns.flatMap (columnSteps previous .stage)) p = (p', none)) : p' = p := by
  have hstage : ∀ step ∈ columns.flatMap (columnSteps previous .stage), ∀ q,
      execStep cast options schema backfill previous step q = some q := by
    intro step hstep q
    obtain ⟨d, -, hstep⟩ := List.mem_flatMap.1 hstep
    obtain rfl | hstep := List.mem_cons.1 hstep
    · rfl
    · split at hstep
      · split at hstep
        · rw [List.mem_singleton.1 hstep]
          rfl
        · cases hstep
      · cases hstep
  generalize columns.flatMap (columnSteps previous .stage) = steps at h hstage
  induction steps generalizing fault with
  | nil => exact (Prod.mk.inj h).1.symm
  | cons step steps ih =>
    rw [List.forall_mem_cons] at hstage
    rw [runSteps] at h
    split at h
    · cases h
    · rw [hstage.1 p] at h
      exact ih h hstage.2

theorem planningPrevious_getD (hunknown : tables.lookup schema.table = none) (target : Option Target) :
    planningPrevious tables schema target =
      planningPrevious tables schema (some (target.getD [])) := by
  cases target with
  | none =>
    unfold planningPrevious
    rw [hunknown]
    rfl
  | some columns => rfl

theorem schemaSteps_legs (previous : Option TableSchema) :
    schemaSteps schema .append .staged previous =
      ([.table .target] ++ schema.columns.flatMap (columnSteps previous .target)) ++
        ([.table .stage] ++ schema.columns.flatMap (columnSteps previous .stage)) := by
  change _ ++ (_ ++ []) = _
  rw [List.append_nil]
  rfl

/-- The table as its columns find it. -/
theorem opened_columns {target : Option Target} {opened : Progress} {previous : Option TableSchema}
    (hnames : ∀ columns, target = some columns → (columns.map TargetColumn.name).Nodup)
    (h : execStep cast options schema backfill previous (.table .target) ⟨target, []⟩ = some opened) :
    schema.columnNames.Nodup ∧ opened.alters = [] ∧ ∃ columns, opened.target = some columns ∧
      (columns.map TargetColumn.name).Nodup ∧ ∀ c ∈ schema.columns, Fits (target.getD []) columns c := by
  obtain ⟨hschema, halters, hopened⟩ := exec_table h
  refine ⟨hschema, halters, ?_⟩
  obtain ⟨hsame, hne⟩ | ⟨rfl, hnew⟩ := hopened
  · obtain ⟨columns, hcolumns⟩ := Option.ne_none_iff_exists'.1 hne
    dsimp only at hsame hcolumns
    subst hcolumns
    exact ⟨columns, hsame, hnames columns rfl, fun c _ => fits_start c⟩
  · refine ⟨_, hnew, by rw [created_names]; exact hschema, fun c hc => ⟨fun hbehind => ?_, fun _ => ?_⟩⟩
    · cases hbehind
    · exact isBehind_wanted (typeOf_created hschema hc)

theorem start_names {target : Option Target}
    (hnames : ∀ columns, target = some columns → (columns.map TargetColumn.name).Nodup) :
    ((target.getD []).map TargetColumn.name).Nodup := by
  cases target with
  | none => exact List.nodup_nil
  | some columns => exact hnames columns rfl

/-- The tables' steps, once they all went through. -/
theorem settle_tables {target : Option Target} (hunknown : tables.lookup schema.table = none)
    (hnames : ∀ columns, target = some columns → (columns.map TargetColumn.name).Nodup)
    (h : runSteps cast options schema backfill (planningPrevious tables schema target) fault
      (schemaSteps schema .append .staged (planningPrevious tables schema target)) ⟨target, []⟩ =
        (p', none)) :
    schema.columnNames.Nodup ∧ ∃ columns, p'.target = some columns ∧ Settled schema columns := by
  rw [planningPrevious_getD hunknown, schemaSteps_legs] at h
  obtain ⟨mid, hlegTarget, hlegStage⟩ := runSteps_append _ _ _ _ h
  obtain ⟨opened, htable, hcolumns⟩ := runSteps_append _ _ _ _ hlegTarget
  obtain ⟨again, hstageTable, hstageColumns⟩ := runSteps_append _ _ _ _ hlegStage
  obtain rfl : mid = again := Option.some.inj (runSteps_one hstageTable)
  obtain rfl := stage_steps _ hstageColumns
  obtain ⟨hschema, -, columns, hopenedColumns, hnodup, hfits⟩ :=
    opened_columns hnames (runSteps_one htable)
  obtain ⟨columns', hcolumns', hnodup', hsettled, -⟩ := settle_columns hunknown hschema
    (start_names hnames) (fun c hc => hc) hschema hopenedColumns hnodup hfits hcolumns
  exact ⟨hschema, columns', hcolumns', hnodup', fun c hc => (hsettled c hc).1,
    fun c hc => (hsettled c hc).2⟩

/-- However far the tables' steps come, each change was from what the catalog shows. -/
theorem along_tables {target : Option Target} (hunknown : tables.lookup schema.table = none)
    (hnames : ∀ columns, target = some columns → (columns.map TargetColumn.name).Nodup) :
    ∀ a ∈ (runSteps cast options schema backfill (planningPrevious tables schema target) fault
      (schemaSteps schema .append .staged (planningPrevious tables schema target))
      ⟨target, []⟩).1.alters, a.Along := by
  rw [planningPrevious_getD hunknown, schemaSteps_legs, runSteps_join]
  have htarget : ∀ a ∈ (runSteps cast options schema backfill
      (planningPrevious tables schema (some (target.getD []))) fault
      ([.table .target] ++ schema.columns.flatMap (columnSteps
        (planningPrevious tables schema (some (target.getD []))) .target)) ⟨target, []⟩).1.alters,
      a.Along := by
    have htable : (runSteps cast options schema backfill
        (planningPrevious tables schema (some (target.getD []))) fault [.table .target]
        ⟨target, []⟩).1.alters = [] :=
      unchanged_run fun column hmem => by cases List.mem_singleton.1 hmem
    rw [runSteps_join]
    split
    · next opened hran =>
      obtain ⟨hschema, halters, columns, hcolumns, hnodup, hfits⟩ :=
        opened_columns hnames (runSteps_one hran)
      intro a ha
      obtain ha | ha := along_columns hunknown hschema (start_names hnames) (fun c hc => hc) hschema
        hcolumns hnodup hfits a ha
      · rw [halters] at ha
        cases ha
      · exact ha
    · rw [htable]
      exact fun a ha => absurd ha List.not_mem_nil
  have hstage : ∀ column, .widen .target column ∉ [.table .stage] ++ schema.columns.flatMap
      (columnSteps (planningPrevious tables schema (some (target.getD []))) .stage) := by
    intro column hmem
    obtain hmem | hmem := List.mem_append.1 hmem
    · cases List.mem_singleton.1 hmem
    · obtain ⟨d, -, hmem⟩ := List.mem_flatMap.1 hmem
      obtain hmem | hmem := List.mem_cons.1 hmem
      · cases hmem
      · split at hmem
        · split at hmem
          · cases List.mem_singleton.1 hmem
          · cases hmem
        · cases hmem
  split
  · next mid hran =>
    rw [hran] at htarget
    rw [unchanged_run hstage]
    exact htarget
  · exact htarget

/-- Of a first ensure, however it ends. -/
theorem along_ensure {target : Option Target} {mode : WriteMode}
    (hunknown : tables.lookup schema.table = none)
    (hnames : ∀ columns, target = some columns → (columns.map TargetColumn.name).Nodup) :
    ∀ a ∈ (ensureTable cast options schema tables mode fault backfill target).1.alters, a.Along := by
  have htables := @along_tables cast options schema backfill fault tables target hunknown hnames
  unfold ensureTable
  split
  · exact fun a ha => absurd ha List.not_mem_nil
  · dsimp only
    split
    · next hran =>
      rw [hran] at htables
      exact htables
    · next p hran =>
      rw [hran] at htables
      split
      · exact htables
      · next more hmore =>
        have hmerge : (runSteps cast options schema backfill (planningPrevious tables schema target)
            (fault.map (· - (schemaSteps schema .append .staged
              (planningPrevious tables schema target)).length)) more p).1.alters = p.alters :=
          unchanged_run fun column hmem => Ensure.mergeSteps_not_widen hmore hmem .target column rfl
        split
        · next hran₂ =>
          rw [hran₂] at hmerge
          rw [hmerge]
          exact htables
        · next hran₂ =>
          rw [hran₂] at hmerge
          rw [hmerge]
          exact htables

end First

/-! ## Whatever runs later -/

section Later

variable {cast : Cast} {options : DestinationOptions} {schema : TableSchema} {backfill : List Int}
  {fault : Option Nat} {p p' : Progress} {columns columns' : Target} {tables : SessionTables}
  {previous : Option TableSchema} {steps : List EnsureStep} {step : EnsureStep} {mode : WriteMode}

theorem Settled.congr (h : Settled schema columns) (hnodup : (columns'.map TargetColumn.name).Nodup)
    (hsame : ∀ c ∈ schema.columns, typeOf c.name columns' = typeOf c.name columns) :
    Settled schema columns' := by
  refine ⟨hnodup, fun c hc => ?_, fun c hc => ?_⟩
  · by_contra hnot
    have hnone := typeOf_eq_none.2 hnot
    rw [hsame c hc] at hnone
    exact typeOf_eq_none.1 hnone (h.present c hc)
  · rw [isBehind_congr (hsame c hc)]
    exact h.level c hc

/-- A column more is none of those asked for. -/
theorem Settled.addColumn (h : Settled schema columns) {name : String} {type : SqlType}
    {values : List Value} (hadd : addColumn name type values columns = some columns') :
    Settled schema columns' := by
  apply h.congr (addColumn_names hadd h.nodup)
  intro c hc
  rw [typeOf_addColumn hadd c.name]
  cases hfound : typeOf c.name columns with
  | none => exact absurd (h.present c hc) (typeOf_eq_none.1 hfound)
  | some type => rfl

theorem quiet_step (hstep : ∀ column, step ≠ .widen .target column) (hcolumns : p.target = some columns)
    (h : Settled schema columns) (hexec : execStep cast options schema backfill previous step p = some p') :
    ∃ columns', p'.target = some columns' ∧ Settled schema columns' ∧ p'.alters = p.alters := by
  cases step with
  | table leg =>
    cases leg with
    | target =>
      obtain ⟨-, halters, ⟨hsame, -⟩ | ⟨hnone, -⟩⟩ := exec_table hexec
      · exact ⟨columns, hsame.trans hcolumns, h, halters⟩
      · rw [hcolumns] at hnone
        cases hnone
    | stage =>
      obtain rfl := Option.some.inj hexec
      exact ⟨columns, hcolumns, h, rfl⟩
  | column leg c =>
    cases leg with
    | target =>
      obtain ⟨found, added, hfound, hadd, rfl⟩ := exec_column hexec
      obtain rfl := Option.some.inj (hcolumns.symm.trans hfound)
      exact ⟨added, rfl, h.addColumn hadd, rfl⟩
    | stage =>
      obtain rfl := Option.some.inj hexec
      exact ⟨columns, hcolumns, h, rfl⟩
  | widen leg c =>
    cases leg with
    | target => exact absurd rfl (hstep c)
    | stage =>
      obtain rfl := Option.some.inj hexec
      exact ⟨columns, hcolumns, h, rfl⟩
  | validity which =>
    obtain ⟨found, hfound, hexec⟩ := Option.bind_eq_some_iff.1 hexec
    obtain rfl := Option.some.inj (hcolumns.symm.trans hfound)
    cases which with
    | validFrom =>
      obtain ⟨added, hadd, hexec⟩ := Option.bind_eq_some_iff.1 hexec
      obtain rfl := Option.some.inj hexec
      exact ⟨added, rfl, h.addColumn hadd, rfl⟩
    | validTo =>
      obtain ⟨added, hadd, hexec⟩ := Option.bind_eq_some_iff.1 hexec
      obtain rfl := Option.some.inj hexec
      exact ⟨added, rfl, h.addColumn hadd, rfl⟩
  | index spec =>
    obtain rfl := Option.some.inj hexec
    exact ⟨columns, hcolumns, h, rfl⟩

/-- However far steps without a change of type come, the columns stay settled. -/
theorem quiet_run (hsteps : ∀ column, .widen .target column ∉ steps) (hcolumns : p.target = some columns)
    (h : Settled schema columns) :
    ∃ columns', (runSteps cast options schema backfill previous fault steps p).1.target = some columns' ∧
      Settled schema columns' ∧
      (runSteps cast options schema backfill previous fault steps p).1.alters = p.alters := by
  induction steps generalizing fault p columns with
  | nil => exact ⟨columns, hcolumns, h, rfl⟩
  | cons step steps ih =>
    rw [runSteps]
    split
    · exact ⟨columns, hcolumns, h, rfl⟩
    · split
      · exact ⟨columns, hcolumns, h, rfl⟩
      · next next hexec =>
        obtain ⟨columns₁, hcolumns₁, h₁, halters⟩ := quiet_step
          (fun column heq => hsteps column (heq ▸ List.mem_cons_self)) hcolumns h hexec
        obtain ⟨columns₂, hcolumns₂, h₂, halters₂⟩ := ih
          (fun column hmem => hsteps column (List.mem_cons_of_mem _ hmem)) hcolumns₁ h₁
        exact ⟨columns₂, hcolumns₂, h₂, halters₂.trans halters⟩

/-- A session that has not ensured the table, or has with the same columns. -/
def Knows (schema : TableSchema) (tables : SessionTables) : Prop :=
  ∀ known mode, tables.lookup schema.table = some (known, mode) → known = schema

theorem noChange_settled (hschema : schema.columnNames.Nodup) (hknows : Knows schema tables)
    (h : Settled schema columns) :
    NoChange schema (planningPrevious tables schema (some columns)) := by
  intro c hc old hold
  cases hlook : tables.lookup schema.table with
  | none =>
    rw [believed_fresh hlook hschema h.nodup hc] at hold
    obtain ⟨shown, hshown, rfl⟩ := Option.map_eq_some_iff.1 hold
    have hlevel := h.level c hc
    rw [isBehind, hshown, Option.any_some] at hlevel
    rw [adopted, if_neg (by rw [hlevel]; exact Bool.false_ne_true)]
  | some entry =>
    obtain ⟨known, mode⟩ := entry
    obtain rfl := hknows known mode hlook
    unfold planningPrevious at hold
    rw [hlook] at hold
    have hname : old.name = c.name := by simpa using List.find?_some hold
    have hmem := List.mem_of_find?_eq_some hold
    rw [List.inj_on_of_nodup_map hschema hmem hc hname]

/-- An ensure of columns that are settled changes none, however it ends. -/
theorem ensure_quiet (hschema : schema.columnNames.Nodup) (hknows : Knows schema tables)
    (h : Settled schema columns) :
    ∃ columns', (ensureTable cast options schema tables mode fault backfill (some columns)).1.target =
        some columns' ∧ Settled schema columns' ∧
      (ensureTable cast options schema tables mode fault backfill (some columns)).1.alters = [] := by
  have hquiet := (quiet_of_noChange (noChange_settled hschema hknows h)).1 .target
  unfold ensureTable
  split
  · exact ⟨columns, rfl, h, rfl⟩
  · dsimp only
    obtain ⟨columns₁, hcolumns₁, h₁, halters₁⟩ := @quiet_run cast options schema backfill fault
      ⟨some columns, []⟩ columns (planningPrevious tables schema (some columns)) _ hquiet rfl h
    split
    · next hran =>
      rw [hran] at hcolumns₁ halters₁
      exact ⟨columns₁, hcolumns₁, h₁, halters₁⟩
    · next hran =>
      rw [hran] at hcolumns₁ halters₁
      split
      · exact ⟨columns₁, hcolumns₁, h₁, halters₁⟩
      · next more hmore =>
        have hmerge : ∀ column, .widen .target column ∉ more := fun column hmem =>
          Ensure.mergeSteps_not_widen hmore hmem .target column rfl
        obtain ⟨columns₂, hcolumns₂, h₂, halters₂⟩ := @quiet_run cast options schema backfill
          (fault.map (· - (schemaSteps schema .append .staged
            (planningPrevious tables schema (some columns))).length)) _ columns₁
          (planningPrevious tables schema (some columns)) more hmerge hcolumns₁ h₁
        split
        · next hran₂ =>
          rw [hran₂] at hcolumns₂ halters₂
          exact ⟨columns₂, hcolumns₂, h₂, halters₂.trans halters₁⟩
        · next hran₂ =>
          rw [hran₂] at hcolumns₂ halters₂
          exact ⟨columns₂, hcolumns₂, h₂, halters₂.trans halters₁⟩

end Later

/-! ## Runs -/

/-- Whoever ensures the table asks for the same columns. -/
def Event.Keeps (schema : TableSchema) : Event → Prop
  | .ensure asked _ _ _ => asked.table = schema.table → asked = schema
  | _ => True

/-- The type changes of a table. -/
def changesOf (table : String) (alters : List Alter) : List Alter :=
  alters.filter fun a => a.table = table

structure Steady (schema : TableSchema) (changes : List Alter) (w : World) : Prop where
  settled : ∃ columns, w.targets schema.table = some columns ∧ Settled schema columns
  knows : ∀ tables, w.session = some tables → Knows schema tables
  unchanged : changesOf schema.table w.alters = changes

section Runs

variable {cast : Cast} {options : DestinationOptions} {schema asked : TableSchema} {backfill : List Int}
  {fault : Option Nat} {p : Progress} {columns columns' : Target} {tables : SessionTables}
  {previous : Option TableSchema} {mode : WriteMode} {changes : List Alter} {w : World}

/-- A step changes types of its own table. -/
theorem exec_alters {step : EnsureStep} {p' : Progress}
    (h : execStep cast options schema backfill previous step p = some p') :
    ∀ a ∈ p'.alters, a ∈ p.alters ∨ a.table = schema.table := by
  cases step with
  | table leg =>
    cases leg with
    | target =>
      rw [(exec_table h).2.1]
      exact fun a ha => .inl ha
    | stage =>
      obtain rfl := Option.some.inj h
      exact fun a ha => .inl ha
  | column leg c =>
    cases leg with
    | target =>
      obtain ⟨_, _, -, -, rfl⟩ := exec_column h
      exact fun a ha => .inl ha
    | stage =>
      obtain rfl := Option.some.inj h
      exact fun a ha => .inl ha
  | widen leg c =>
    cases leg with
    | target =>
      obtain ⟨_, _, _, _, alter, -, -, -, rfl, htable, -⟩ := exec_widen h
      intro a ha
      obtain ha | ha := List.mem_append.1 ha
      · exact .inl ha
      · rw [List.mem_singleton.1 ha]
        exact .inr htable
    | stage =>
      obtain rfl := Option.some.inj h
      exact fun a ha => .inl ha
  | validity which =>
    obtain ⟨_, -, h⟩ := Option.bind_eq_some_iff.1 h
    cases which with
    | validFrom =>
      obtain ⟨_, -, h⟩ := Option.bind_eq_some_iff.1 h
      obtain rfl := Option.some.inj h
      exact fun a ha => .inl ha
    | validTo =>
      obtain ⟨_, -, h⟩ := Option.bind_eq_some_iff.1 h
      obtain rfl := Option.some.inj h
      exact fun a ha => .inl ha
  | index spec =>
    obtain rfl := Option.some.inj h
    exact fun a ha => .inl ha

theorem run_alters (fault : Option Nat) (steps : List EnsureStep) :
    ∀ a ∈ (runSteps cast options schema backfill previous fault steps p).1.alters,
      a ∈ p.alters ∨ a.table = schema.table := by
  induction steps generalizing fault p with
  | nil => exact fun a ha => .inl ha
  | cons step steps ih =>
    rw [runSteps]
    split
    · exact fun a ha => .inl ha
    · split
      · exact fun a ha => .inl ha
      · next next hexec =>
        intro a ha
        obtain ha | ha := ih _ a ha
        · exact exec_alters hexec a ha
        · exact .inr ha

theorem ensure_alters {target : Option Target} :
    ∀ a ∈ (ensureTable cast options schema tables mode fault backfill target).1.alters,
      a.table = schema.table := by
  intro a ha
  have hsteps {fault : Option Nat} {steps : List EnsureStep} {p : Progress}
      (hp : ∀ a ∈ p.alters, a.table = schema.table) :
      ∀ a ∈ (runSteps cast options schema backfill (planningPrevious tables schema target) fault steps
        p).1.alters, a.table = schema.table := by
    intro a ha
    obtain ha | ha := run_alters fault steps a ha
    · exact hp a ha
    · exact ha
  have hstart : ∀ a ∈ (⟨target, []⟩ : Progress).alters, a.table = schema.table :=
    fun a ha => absurd ha List.not_mem_nil
  unfold ensureTable at ha
  split at ha
  · cases ha
  · dsimp only at ha
    split at ha
    · next hran => exact hsteps hstart a (by rw [hran]; exact ha)
    · next hran =>
      have hmid := @hsteps fault (schemaSteps schema .append .staged
        (planningPrevious tables schema target)) ⟨target, []⟩ hstart
      rw [hran] at hmid
      split at ha
      · exact hmid a ha
      · split at ha
        · next hran₂ => exact hsteps hmid a (by rw [hran₂]; exact ha)
        · next hran₂ => exact hsteps hmid a (by rw [hran₂]; exact ha)

/-- A publish changes no type. -/
theorem published_types {contents : String → List Value}
    (h : (columns.mapM fun c => do
      let values ← (contents c.name).mapM (cast.apply c.type)
      return { c with values : TargetColumn }) = some columns') :
    columns'.map TargetColumn.name = columns.map TargetColumn.name ∧
      ∀ name, typeOf name columns' = typeOf name columns := by
  induction columns generalizing columns' with
  | nil =>
    obtain rfl := Option.some.inj h
    exact ⟨rfl, fun _ => rfl⟩
  | cons c columns ih =>
    obtain ⟨c', rest, hhead, hrest, rfl⟩ := Fallible.option_mapM_cons.1 h
    obtain ⟨values, -, hhead⟩ := Option.bind_eq_some_iff.1 hhead
    obtain rfl := Option.some.inj hhead
    obtain ⟨hnames, htypes⟩ := ih hrest
    refine ⟨congrArg (c.name :: ·) hnames, fun name => ?_⟩
    rw [typeOf_cons, typeOf_cons, htypes]

theorem steady_ensure (hschema : schema.columnNames.Nodup) (h : Steady schema changes w)
    (hsession : w.session = some tables) (hasked : asked.table = schema.table → asked = schema) :
    Steady schema changes (w.runEnsure cast options tables asked mode fault backfill) := by
  obtain ⟨columns, hcolumns, hsettled⟩ := h.settled
  have hknows := h.knows tables hsession
  -- the world without the session's new memory
  have hensured : Steady schema changes { w.setTarget asked.table
      (ensureTable cast options asked tables mode fault backfill (w.targets asked.table)).1.target with
      alters := w.alters ++
        (ensureTable cast options asked tables mode fault backfill (w.targets asked.table)).1.alters } := by
    by_cases htable : asked.table = schema.table
    · obtain rfl := hasked htable
      obtain ⟨columns', hcolumns', hsettled', halters⟩ := @ensure_quiet cast options asked backfill
        fault columns tables mode hschema hknows hsettled
      rw [hcolumns]
      refine ⟨⟨columns', (if_pos rfl).trans hcolumns', hsettled'⟩, h.knows, ?_⟩
      rw [halters, List.append_nil]
      exact h.unchanged
    · refine ⟨⟨columns, (if_neg fun heq => htable heq.symm).trans hcolumns, hsettled⟩, h.knows, ?_⟩
      have hnone : changesOf schema.table
          (ensureTable cast options asked tables mode fault backfill (w.targets asked.table)).1.alters =
            [] := by
        rw [changesOf, List.filter_eq_nil_iff]
        intro a ha heq
        exact htable ((ensure_alters a ha).symm.trans (of_decide_eq_true heq))
      rw [changesOf, List.filter_append]
      change changesOf schema.table w.alters ++ changesOf schema.table _ = changes
      rw [hnone, List.append_nil]
      exact h.unchanged
  unfold World.runEnsure
  dsimp only
  split
  · refine ⟨hensured.settled, fun tables' htables' known mode' hlook => ?_, hensured.unchanged⟩
    obtain rfl := Option.some.inj htables'
    rw [lookup_insert] at hlook
    split at hlook
    · next heq =>
      obtain ⟨rfl, -⟩ := Prod.mk.inj (Option.some.inj hlook)
      exact hasked heq.symm
    · exact hknows known mode' hlook
  · exact hensured

theorem steady_publish (h : Steady schema changes w) (table : String) (contents : String → List Value) :
    Steady schema changes (w.runPublish cast table contents) := by
  unfold World.runPublish
  dsimp only
  split
  · next published hpublished =>
    obtain ⟨columns, hcolumns, hmapM⟩ := Option.bind_eq_some_iff.1 hpublished
    obtain ⟨found, hfound, hsettled⟩ := h.settled
    by_cases htable : schema.table = table
    · subst htable
      obtain rfl := Option.some.inj (hcolumns.symm.trans hfound)
      obtain ⟨hnames, htypes⟩ := published_types hmapM
      refine ⟨⟨published, if_pos rfl, ?_⟩, h.knows, h.unchanged⟩
      exact hsettled.congr (by rw [hnames]; exact hsettled.nodup) fun c _ => htypes c.name
    · exact ⟨⟨found, (if_neg htable).trans hfound, hsettled⟩, h.knows, h.unchanged⟩
  · exact h

theorem steady_step (hschema : schema.columnNames.Nodup) (w : World) (event : Event)
    (h : Steady schema changes w) (hkeeps : event.Keeps schema) :
    Steady schema changes (w.step cast options event) := by
  obtain ⟨targets, session, alters⟩ := w
  have hopen : Steady schema changes ⟨targets, some [], alters⟩ := by
    refine ⟨h.settled, fun tables htables known mode hlook => ?_, h.unchanged⟩
    obtain rfl := Option.some.inj htables
    cases hlook
  have hcrash : Steady schema changes ⟨targets, none, alters⟩ :=
    ⟨h.settled, fun tables htables => (by cases htables), h.unchanged⟩
  cases session with
  | none =>
    cases event with
    | «open» => exact hopen
    | crash => exact hcrash
    | _ => exact h
  | some tables =>
    cases event with
    | «open» => exact hopen
    | crash => exact hcrash
    | ensure asked mode fault backfill => exact steady_ensure hschema h rfl hkeeps
    | publish table contents =>
      simp only [World.step]
      split
      · exact steady_publish h table contents
      · exact h

end Runs

/-- What a first ensure that went through leaves. -/
theorem steady_first {cast : Cast} {options : DestinationOptions} {schema : TableSchema}
    {mode : WriteMode} {fault : Option Nat} {backfill : List Int} {w : World} {tables : SessionTables}
    (hunknown : tables.lookup schema.table = none)
    (hnames : ∀ columns, w.targets schema.table = some columns →
      (columns.map TargetColumn.name).Nodup)
    (h : (ensureTable cast options schema tables mode fault backfill (w.targets schema.table)).2 =
      .ok ()) :
    schema.columnNames.Nodup ∧
      ∃ columns, (ensureTable cast options schema tables mode fault backfill
        (w.targets schema.table)).1.target = some columns ∧ Settled schema columns := by
  unfold ensureTable at h ⊢
  split at h
  · cases h
  · dsimp only at h ⊢
    split at h
    · cases h
    · next hran =>
      obtain ⟨hschema, columns, hcolumns, hsettled⟩ := settle_tables hunknown hnames hran
      split at h
      · cases h
      · next more hmore =>
        have hmerge : ∀ column, .widen .target column ∉ more := fun column hmem =>
          Ensure.mergeSteps_not_widen hmore hmem .target column rfl
        obtain ⟨columns₂, hcolumns₂, h₂, -⟩ := @quiet_run cast options schema backfill
          (fault.map (· - (schemaSteps schema .append .staged
            (planningPrevious tables schema (w.targets schema.table))).length)) _ columns
          (planningPrevious tables schema (w.targets schema.table)) more hmerge hcolumns hsettled
        split at h
        · cases h
        · next hran₂ =>
          rw [hran₂] at hcolumns₂
          exact ⟨hschema, columns₂, hcolumns₂, h₂⟩

/-- The first ensure of a session, however it ends, changes types only from the one that the
catalog shows to a wider one, and once it went through, no later run changes a type of the table,
or plans to, as long as it asks for the same columns. -/
theorem ensure_settles (cast : Cast) (options : DestinationOptions) {schema : TableSchema}
    {mode : WriteMode} {fault : Option Nat} {backfill : List Int} {w : World} {tables : SessionTables}
    (hsession : w.session = some tables) (hunknown : tables.lookup schema.table = none)
    (hnames : ∀ columns, w.targets schema.table = some columns →
      (columns.map TargetColumn.name).Nodup) :
    (∀ a ∈ (ensureTable cast options schema tables mode fault backfill
      (w.targets schema.table)).1.alters, a.Along) ∧
    ((ensureTable cast options schema tables mode fault backfill (w.targets schema.table)).2 =
        .ok () → ∀ events, (∀ event ∈ events, event.Keeps schema) →
      let ensured := w.step cast options (.ensure schema mode fault backfill)
      let later := Transition.run (World.step cast options) ensured events
      changesOf schema.table later.alters = changesOf schema.table ensured.alters ∧
        ∀ asking, later.session = some asking ∨ asking.lookup schema.table = none →
          Quiet schema (planningPrevious asking schema (later.targets schema.table))) := by
  refine ⟨along_ensure hunknown hnames, fun h events hevents => ?_⟩
  obtain ⟨hschema, columns, hcolumns, hsettled⟩ := steady_first hunknown hnames h
  obtain ⟨targets, session, alters⟩ := w
  dsimp only at hsession hunknown hnames h hcolumns
  subst hsession
  have hstart : Steady schema (changesOf schema.table (alters ++
      (ensureTable cast options schema tables mode fault backfill (targets schema.table)).1.alters))
      (World.step cast options ⟨targets, some tables, alters⟩ (.ensure schema mode fault backfill)) := by
    simp only [World.step, World.runEnsure, h]
    refine ⟨⟨columns, (if_pos rfl).trans hcolumns, hsettled⟩, fun asking hasking known mode' hlook => ?_,
      rfl⟩
    obtain rfl := Option.some.inj hasking
    rw [lookup_insert, if_pos rfl] at hlook
    exact (Prod.mk.inj (Option.some.inj hlook)).1.symm
  have hlater : Steady schema _ (Transition.run (World.step cast options) _ events) :=
    Transition.run_invariant (fun w event hw hkeeps => steady_step hschema w event hw hkeeps) hstart
      (Transition.meets_of_forall _ hevents)
  refine ⟨hlater.unchanged.trans hstart.unchanged.symm, fun asking hasking => ?_⟩
  obtain ⟨found, hfound, hsettled'⟩ := hlater.settled
  rw [hfound]
  apply quiet_of_noChange
  apply noChange_settled hschema _ hsettled'
  obtain hasking | hunknown := hasking
  · exact hlater.knows asking hasking
  · intro known mode' hlook
    rw [hunknown] at hlook
    cases hlook

/-- A table of integers, and a session that has not seen it. -/
def integers : World :=
  ⟨fun table => if table = "t" then some [⟨"n", .bigint, [.number 7]⟩] else none, some [], []⟩

/-- The session is lost, and another asks for the same. -/
def askedAgain : List Event :=
  [.crash, .open, ensureCounter (.decimal 21 2), .publish "t" fun _ => [.number 7]]

/-- A first ensure that is cut off before its last step, and one that is not. -/
theorem ensure_settles_decimals :
    (integers.step demoCast {} (.ensure (counter (.scalar (.decimal 21 2))) .append (some 3) [])).alters
        ≠ [] ∧
    (∀ a ∈ (ensureTable demoCast {} (counter (.scalar (.decimal 21 2))) [] .append (some 3) []
      (integers.targets "t")).1.alters, a.Along) ∧
    (integers.step demoCast {} (ensureCounter (.decimal 21 2))).alters.length = 1 ∧
    (∀ a ∈ (ensureTable demoCast {} (counter (.scalar (.decimal 21 2))) [] .append none []
      (integers.targets "t")).1.alters, a.Along) ∧
    changesOf "t" (Transition.run (World.step demoCast {})
        (integers.step demoCast {} (ensureCounter (.decimal 21 2))) askedAgain).alters =
      changesOf "t" (integers.step demoCast {} (ensureCounter (.decimal 21 2))).alters := by
  have hnames : ∀ columns, integers.targets "t" = some columns →
      (columns.map TargetColumn.name).Nodup := by
    intro columns hcolumns
    obtain rfl := Option.some.inj hcolumns
    decide
  have hkeeps : ∀ event ∈ askedAgain, event.Keeps (counter (.scalar (.decimal 21 2))) := by
    intro event hevent
    obtain rfl | rfl | rfl | rfl : event = .crash ∨ event = .open ∨
        event = ensureCounter (.decimal 21 2) ∨ event = .publish "t" fun _ => [.number 7] := by
      simpa [askedAgain] using hevent
    · trivial
    · trivial
    · exact fun _ => rfl
    · trivial
  obtain ⟨hcut, -⟩ := @ensure_settles demoCast {} (counter (.scalar (.decimal 21 2))) .append (some 3)
    [] integers [] rfl rfl hnames
  obtain ⟨halong, hlater⟩ := @ensure_settles demoCast {} (counter (.scalar (.decimal 21 2))) .append none
    [] integers [] rfl rfl hnames
  exact ⟨by decide, hcut, by decide, halong, (hlater (by decide) askedAgain hkeeps).1⟩

end DuckCatalog
