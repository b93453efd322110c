import Mathlib.Data.List.Perm.Subperm
import RdltConnectors.Iceberg.Drift
import RdltConnectors.Library.Columnar
import RdltConnectors.Library.Fallible

/-!
# Aligning a batch to the live table

A batch of the stream is written under the table's fields: each field takes the batch's column of
its name, cast where the types differ, or NULLs if it may be missing. Where the drift check passed,
this moves no value under another name.
-/
namespace Iceberg

open Columnar Fallible

variable {A V : Type}

/-- What is used of the library of arrays. -/
structure ArrowLibrary (A V : Type) where
  cast : Column A V → DataType A → Except String (Column A V)
  displayType : DataType A → String
  displayError : BatchError → String

section Align

variable [DecidableEq A] (library : ArrowLibrary A V) (context : String) (batch : Batch A V)

def requiresColumn (name : String) : String :=
  context ++ ": the live table requires column `" ++ name ++
    "` but the stream no longer provides it"

/-- The column written under one field of the table. -/
def alignColumn (field : Columnar.Field A) : Except String (Column A V) :=
  match batch.columnNamed field.name with
  | some column =>
    if column.type = field.type then .ok column
    else (library.cast column field.type).mapError fun e =>
      context ++ ": column `" ++ field.name ++ "` cannot cast " ++ library.displayType column.type ++
        " -> " ++ library.displayType field.type ++ ": " ++ e
  | none =>
    if field.nullable then .ok (nullColumn field.type batch.rowCount)
    else .error (requiresColumn context field.name)

def align (target : List (Columnar.Field A)) : Except String (Batch A V) := do
  let columns ← target.mapM (alignColumn library context batch)
  (Batch.tryNew target columns).mapError fun e =>
    context ++ ": aligning batch: " ++ library.displayError e

end Align

/-! ## The shape of a schema -/

variable (represents : A → PrimitiveType → Prop)

/-- An array type is one of a schema's type: the same names, what is optional is nullable, and each
scalar represents its primitive. -/
inductive Shows : DataType A → IcebergType → Prop
  | primitive {scalar : A} {type : PrimitiveType} (h : represents scalar type) :
    Shows (.scalar scalar) (.primitive type)
  | struct {fields : Fields A} {nested : List NestedField}
    (hnames : fields.toList.map Columnar.Field.name = nested.map NestedField.name)
    (hnull : ∀ f ∈ fields.toList, ∀ n ∈ nested, f.name = n.name → f.nullable = !n.required)
    (htype : ∀ f ∈ fields.toList, ∀ n ∈ nested, f.name = n.name → Shows f.type n.fieldType) :
    Shows (.struct fields) (.struct nested)
  | list {element : Columnar.Field A} {nested : NestedField}
    (hnull : element.nullable = !nested.required)
    (h : Shows element.type nested.fieldType) : Shows (.list element) (.list nested)
  | map {key value : Columnar.Field A} {nestedKey nestedValue : NestedField}
    (hnull : key.nullable = (!nestedKey.required) ∧ value.nullable = !nestedValue.required)
    (hkey : Shows key.type nestedKey.fieldType) (hvalue : Shows value.type nestedValue.fieldType) :
    Shows (.map key value) (.map nestedKey nestedValue)

structure ShowsSchema (fields : List (Columnar.Field A)) (schema : List NestedField) : Prop where
  names : fields.map Columnar.Field.name = schema.map NestedField.name
  nullable : ∀ f ∈ fields, ∀ n ∈ schema, f.name = n.name → f.nullable = !n.required
  types : ∀ f ∈ fields, ∀ n ∈ schema, f.name = n.name → Shows represents f.type n.fieldType

/-- Two scalars represent one primitive. -/
def Represented (source target : A) : Prop := ∃ type, represents source type ∧ represents target type

/-- Each name once, at every depth. -/
def Distinct (schema : List NestedField) : Prop := (IcebergType.struct schema).distinct = true

theorem distinct_iff {schema : List NestedField} :
    Distinct schema ↔ (schema.map NestedField.name).Nodup ∧ ∀ field ∈ schema, field.distinct = true := by
  have hall : ∀ fields : List NestedField,
      allDistinct fields = true ↔ ∀ field ∈ fields, field.distinct = true := by
    intro fields
    induction fields with
    | nil => simp [allDistinct]
    | cons first rest ih => rw [allDistinct, Bool.and_eq_true, ih, List.forall_mem_cons]
  rw [Distinct, IcebergType.distinct, Bool.and_eq_true, decide_eq_true_iff, hall]

/-- The drift check passes for every wanted column. -/
def Accepts (wanted live : List NestedField) : Prop :=
  ∀ field ∈ wanted, ∃ liveField,
    (live.find? fun other => other.name == field.name) = some liveField ∧
      compareField field liveField = none

/-! ## What passed the check can be cast by name -/

variable {represents}

theorem nullable_of_level {f g : Bool} {wanted live : NestedField} (hf : f = !wanted.required)
    (hg : g = !live.required) (h : compareField wanted live = none) (hnull : f = true) : g = true := by
  have hrequired := (compareField_eq_none.1 h).1
  cases hlive : live.required with
  | false => rw [hg, hlive]; rfl
  | true =>
    rw [hf, hrequired hlive] at hnull
    cases hnull

mutual

theorem castable_field : ∀ (wanted live : NestedField) {source target : DataType A},
    compareField wanted live = none → wanted.distinct = true → live.distinct = true →
      Shows represents source wanted.fieldType → Shows represents target live.fieldType →
        Castable (Represented represents) source target
  | .mk _ _ _ type, .mk _ _ _ liveType, source, target, h, hwanted, hlive, hsource, htarget => by
    rw [NestedField.distinct] at hwanted hlive
    exact castable_type type liveType (compareField_eq_none.1 h).2 hwanted hlive hsource htarget

theorem castable_type : ∀ (wanted live : IcebergType) {source target : DataType A},
    compareType wanted live = none → wanted.distinct = true → live.distinct = true →
      Shows represents source wanted → Shows represents target live →
        Castable (Represented represents) source target
  | .primitive type, live, source, target, h, _, _, hsource, htarget => by
    obtain ⟨_, hw, rfl⟩ | ⟨_, _, hw, -⟩ | ⟨_, _, hw, -, -⟩ | ⟨_, _, _, _, hw, -, -, -⟩ :=
      compareType_kind h
    · obtain rfl := IcebergType.primitive.inj hw
      cases hsource with
      | primitive hs =>
        cases htarget with
        | primitive ht => exact .scalar ⟨type, hs, ht⟩
    · cases hw
    · cases hw
    · cases hw
  | .struct wanted, live, source, target, h, hwanted, hlive, hsource, htarget => by
    obtain ⟨_, hw, -⟩ | ⟨_, liveFields, -, rfl⟩ | ⟨_, _, hw, -, -⟩ | ⟨_, _, _, _, hw, -, -, -⟩ :=
      compareType_kind h
    · cases hw
    · rw [compareType_struct] at h
      obtain ⟨hlength, hfound⟩ := h
      obtain ⟨hnodup, hdistinct⟩ := distinct_iff.1 hwanted
      obtain ⟨hliveNodup, hliveDistinct⟩ := distinct_iff.1 hlive
      cases hsource with
      | @struct fields _ hnames hnull htype =>
        cases htarget with
        | @struct liveShown _ hliveNames hliveNull hliveType =>
          have hperm : (wanted.map NestedField.name).Perm (liveFields.map NestedField.name) := by
            apply (List.subperm_of_subset hnodup ?_).perm_of_length_le
            · exact Nat.le_of_eq (by rw [List.length_map, List.length_map, hlength])
            · intro name hname
              obtain ⟨child, hchild, rfl⟩ := List.mem_map.1 hname
              obtain ⟨liveChild, hfind, -⟩ := hfound child hchild
              obtain ⟨hmem, hname⟩ := find_name hfind
              exact hname ▸ List.mem_map_of_mem hmem
          -- fields of one name show a wanted child and the live one it is without drift from
          have hpair : ∀ f ∈ fields.toList, ∀ g ∈ liveShown.toList, f.name = g.name →
              ∃ n ∈ wanted, ∃ m ∈ liveFields, f.name = n.name ∧ g.name = m.name ∧
                compareField n m = none := by
            intro f hf g hg hname
            obtain ⟨n, hn, hfn⟩ := List.mem_map.1 (hnames ▸ List.mem_map_of_mem hf)
            obtain ⟨m, hfind, hdrift⟩ := hfound n hn
            obtain ⟨hm, hmn⟩ := find_name hfind
            exact ⟨n, hn, m, hm, hfn.symm, by rw [hmn, hfn, hname], hdrift⟩
          constructor
          · rw [hnames, hliveNames]
            exact hperm
          · rw [hliveNames]
            exact hliveNodup
          · intro f hf g hg hname
            obtain ⟨n, hn, m, hm, hfn, hgm, hdrift⟩ := hpair f hf g hg hname
            exact nullable_of_level (hnull f hf n hn hfn) (hliveNull g hg m hm hgm) hdrift
          · intro f hf g hg hname
            obtain ⟨n, hn, m, hm, hfn, hgm, hdrift⟩ := hpair f hf g hg hname
            exact castable_all wanted n hn m hdrift (hdistinct n hn) (hliveDistinct m hm)
              (htype f hf n hn hfn) (hliveType g hg m hm hgm)
    · cases hw
    · cases hw
  | .list element, live, source, target, h, hwanted, hlive, hsource, htarget => by
    obtain ⟨_, hw, -⟩ | ⟨_, _, hw, -⟩ | ⟨_, liveElement, hw, rfl, h⟩ | ⟨_, _, _, _, hw, -, -, -⟩ :=
      compareType_kind h
    · cases hw
    · cases hw
    · obtain rfl := IcebergType.list.inj hw
      rw [IcebergType.distinct] at hwanted hlive
      cases hsource with
      | list hnull hshown =>
        cases htarget with
        | list hliveNull hliveShown =>
          apply Castable.list (nullable_of_level hnull hliveNull h)
          exact castable_field element liveElement h hwanted hlive hshown hliveShown
    · cases hw
  | .map key value, live, source, target, h, hwanted, hlive, hsource, htarget => by
    obtain ⟨_, hw, -⟩ | ⟨_, _, hw, -⟩ | ⟨_, _, hw, -, -⟩ |
      ⟨_, _, liveKey, liveValue, hw, rfl, hkey, hvalue⟩ := compareType_kind h
    · cases hw
    · cases hw
    · cases hw
    · obtain ⟨rfl, rfl⟩ := IcebergType.map.inj hw
      rw [IcebergType.distinct, Bool.and_eq_true] at hwanted hlive
      cases hsource with
      | map hnull hkeyShown hvalueShown =>
        cases htarget with
        | map hliveNull hliveKey hliveValue =>
          apply Castable.map
          · exact ⟨nullable_of_level hnull.1 hliveNull.1 hkey,
              nullable_of_level hnull.2 hliveNull.2 hvalue⟩
          · exact castable_field key liveKey hkey hwanted.1 hlive.1 hkeyShown hliveKey
          · exact castable_field value liveValue hvalue hwanted.2 hlive.2 hvalueShown hliveValue

theorem castable_all : ∀ (fields : List NestedField) (wanted : NestedField), wanted ∈ fields →
    ∀ (live : NestedField) {source target : DataType A}, compareField wanted live = none →
      wanted.distinct = true → live.distinct = true → Shows represents source wanted.fieldType →
        Shows represents target live.fieldType → Castable (Represented represents) source target
  | [], _, hmem, _, _, _ => absurd hmem List.not_mem_nil
  | first :: rest, wanted, hmem, live, source, target => by
    intro h hwanted hlive hsource htarget
    by_cases heq : wanted = first
    · exact castable_field first live (heq ▸ h) (heq ▸ hwanted) hlive (heq ▸ hsource) htarget
    · have hrest : wanted ∈ rest := by
        obtain h | h := List.mem_cons.1 hmem
        · exact absurd h heq
        · exact h
      exact castable_all rest wanted hrest live h hwanted hlive hsource htarget

end

/-! ## What is written -/

/-- The batch of the table's fields: each has the rows of its name, or NULLs. -/
structure Aligned (batch : Batch A V) (target : List (Columnar.Field A)) (out : Batch A V) : Prop where
  fields : out.fields = target
  rowCount : out.rowCount = batch.rowCount
  sound : out.Sound
  carried : ∀ field ∈ target, ∃ column, out.columnNamed field.name = some column ∧
    match batch.columnNamed field.name with
    | some source => List.Forall₂ Same source.rows column.rows
    | none => column.rows = List.replicate batch.rowCount .null

/-- A required column of the table that the stream has not. -/
def Missing (wanted live : List NestedField) (name : String) : Prop :=
  ∃ field ∈ live, field.name = name ∧ field.required = true ∧ name ∉ wanted.map NestedField.name

variable [DecidableEq A] {library : ArrowLibrary A V} {context : String} {batch : Batch A V}
  {wanted live : List NestedField} {target : List (Columnar.Field A)}

/-- What a field is given. -/
def Written (batch : Batch A V) (field : Columnar.Field A) (column : Column A V) : Prop :=
  Column.Under batch.rowCount field column ∧
    match batch.columnNamed field.name with
    | some source => List.Forall₂ Same source.rows column.rows
    | none => column.rows = List.replicate batch.rowCount .null

theorem same_required {source out : List (Value V)} (h : List.Forall₂ Same source out)
    (hsource : ∀ v ∈ source, v.isNull = false) : ∀ v ∈ out, v.isNull = false := by
  intro w hw
  obtain ⟨v, hv, hsame⟩ := mem_right h hw
  rw [← hsame.isNull]
  exact hsource v hv

theorem alignColumn_present (hcast : CastsByName (Represented represents) library.cast)
    {field : Columnar.Field A} {source : Column A V} {f : Columnar.Field A}
    (hunder : Column.Under batch.rowCount f source)
    (hcolumn : batch.columnNamed field.name = some source)
    (hcastable : Castable (Represented represents) f.type field.type)
    (hnull : f.nullable = true → field.nullable = true) :
    ∃ column, alignColumn library context batch field = .ok column ∧ Written batch field column := by
  have hrequired : field.nullable = false → ∀ v ∈ source.rows, v.isNull = false :=
    fun h => hunder.required (required_of hnull h)
  unfold alignColumn Written
  rw [hcolumn]
  dsimp only
  by_cases htype : source.type = field.type
  · rw [if_pos htype]
    refine ⟨source, rfl, ⟨htype, hunder.fits, hunder.length, hrequired⟩, ?_⟩
    exact List.forall₂_same.2 fun v _ => .refl v
  · obtain ⟨out, hout, houtType, hfits, hrows⟩ :=
      hcast source field.type hunder.fits (hunder.type ▸ hcastable)
    rw [if_neg htype, hout]
    refine ⟨out, rfl, ⟨houtType, hfits, ?_, ?_⟩, hrows⟩
    · rw [← hrows.length_eq, hunder.length]
    · exact fun h => same_required hrows (hrequired h)

theorem alignColumn_absent {field : Columnar.Field A} (hcolumn : batch.columnNamed field.name = none) :
    (field.nullable = true ∧ ∃ column,
      alignColumn library context batch field = .ok column ∧ Written batch field column) ∨
    (field.nullable = false ∧
      alignColumn library context batch field = .error (requiresColumn context field.name)) := by
  unfold alignColumn Written
  rw [hcolumn]
  dsimp only
  cases hnull : field.nullable with
  | true =>
    refine .inl ⟨rfl, _, rfl, ⟨rfl, ?_, List.length_replicate, ?_⟩, rfl⟩
    · intro v hv
      rw [List.eq_of_mem_replicate hv]
      exact .null _
    · intro h
      rw [hnull] at h
      cases h
  | false => exact .inr ⟨rfl, rfl⟩

/-- A field of the table is written, unless it is required and missing. -/
theorem alignColumn_cases (hcast : CastsByName (Represented represents) library.cast)
    (hwanted : Distinct wanted) (hlive : Distinct live) (haccepts : Accepts wanted live)
    (hsound : batch.Sound) (hbatch : ShowsSchema represents batch.fields wanted)
    (htarget : ShowsSchema represents target live) {field : Columnar.Field A} (hfield : field ∈ target) :
    (¬Missing wanted live field.name ∧ ∃ column,
      alignColumn library context batch field = .ok column ∧ Written batch field column) ∨
    (Missing wanted live field.name ∧
      alignColumn library context batch field = .error (requiresColumn context field.name)) := by
  obtain ⟨hnodup, hdistinct⟩ := distinct_iff.1 hwanted
  obtain ⟨hliveNodup, hliveDistinct⟩ := distinct_iff.1 hlive
  obtain ⟨m, hm, hmname⟩ := List.mem_map.1 (htarget.names ▸ List.mem_map_of_mem hfield)
  have hnull := htarget.nullable field hfield m hm hmname.symm
  by_cases hname : field.name ∈ wanted.map NestedField.name
  · left
    refine ⟨fun ⟨_, _, _, _, hnot⟩ => hnot hname, ?_⟩
    obtain ⟨n, hn, hnname⟩ := List.mem_map.1 hname
    obtain ⟨m', hfind, hdrift⟩ := haccepts n hn
    obtain rfl : m' = m := by
      obtain ⟨hm', hname'⟩ := find_name hfind
      exact List.inj_on_of_nodup_map hliveNodup hm' hm (by rw [hname', hnname, hmname])
    obtain ⟨f, hf, source, hfname, hunder, hcolumn⟩ := hsound.columnNamed (hbatch.names ▸ hname)
    have hfn : f.name = n.name := hfname.trans hnname.symm
    apply alignColumn_present hcast hunder hcolumn
    · exact castable_field n m' hdrift (hdistinct n hn) (hliveDistinct m' hm)
        (hbatch.types f hf n hn hfn) (htarget.types field hfield m' hm hmname.symm)
    · exact nullable_of_level (hbatch.nullable f hf n hn hfn) hnull hdrift
  · have hnone : batch.columnNamed field.name = none := columnNamed_none (hbatch.names ▸ hname)
    have habsent : (_ ∧ ∃ column, alignColumn library context batch field = .ok column ∧ _) ∨
        (_ ∧ alignColumn library context batch field = .error _) := alignColumn_absent hnone
    obtain ⟨hnullable, hwritten⟩ | ⟨hrequired, hrefused⟩ := habsent
    · refine .inl ⟨?_, hwritten⟩
      rintro ⟨m', hm', hname', hrequired, -⟩
      obtain rfl : m' = m :=
        List.inj_on_of_nodup_map hliveNodup hm' hm (hname'.trans hmname.symm)
      rw [hnull, hrequired] at hnullable
      cases hnullable
    · refine .inr ⟨⟨m, hm, hmname, ?_, hname⟩, hrefused⟩
      rw [hrequired] at hnull
      simpa using hnull.symm

theorem written_aligned (hne : target ≠ []) {columns : List (Column A V)}
    (hcolumns : List.Forall₂ (Written batch) target columns) :
    Batch.tryNew target columns = .ok ⟨target, columns, batch.rowCount⟩ ∧
      Aligned batch target ⟨target, columns, batch.rowCount⟩ := by
  have hunder : List.Forall₂ (Column.Under batch.rowCount) target columns :=
    hcolumns.imp fun _ _ h => h.1
  refine ⟨tryNew_sound hunder hne, rfl, rfl, hunder, ?_⟩
  intro field hfield
  obtain ⟨first, -, column, hname, hwritten, hfound⟩ :=
    find_related hcolumns (List.mem_map_of_mem hfield)
  refine ⟨column, ?_, hname ▸ hwritten.2⟩
  rw [Batch.columnNamed, hfound]
  rfl

/-- A batch of a wanted schema that the drift check accepts is aligned to the live table, unless a
required column of the table is missing, and then it is refused for such a column. -/
theorem align_accepted (hcast : CastsByName (Represented represents) library.cast)
    (hwanted : Distinct wanted) (hlive : Distinct live) (haccepts : Accepts wanted live)
    (hne : live ≠ []) (hsound : batch.Sound) (hbatch : ShowsSchema represents batch.fields wanted)
    (htarget : ShowsSchema represents target live) :
    ((∀ name, ¬Missing wanted live name) →
      ∃ out, align library context batch target = .ok out ∧ Aligned batch target out) ∧
    ((∃ name, Missing wanted live name) → ∃ name, Missing wanted live name ∧
      align library context batch target = .error (requiresColumn context name)) := by
  have hcases : ∀ field ∈ target,
      (¬Missing wanted live field.name ∧ ∃ column,
        alignColumn library context batch field = .ok column ∧ Written batch field column) ∨
      (Missing wanted live field.name ∧
        alignColumn library context batch field = .error (requiresColumn context field.name)) :=
    fun field hfield =>
      alignColumn_cases hcast hwanted hlive haccepts hsound hbatch htarget hfield
  constructor
  · intro hnone
    have htargetNe : target ≠ [] := by
      rintro rfl
      have hempty := htarget.names.symm
      rw [List.map_nil, List.map_eq_nil_iff] at hempty
      exact hne hempty
    obtain ⟨columns, hcolumns, hwritten⟩ := mapM_related (R := Written batch) fun field hfield => by
      obtain ⟨-, hwritten⟩ | ⟨hmissing, -⟩ := hcases field hfield
      · exact hwritten
      · exact absurd hmissing (hnone field.name)
    obtain ⟨hok, haligned⟩ := written_aligned htargetNe hwritten
    refine ⟨_, ?_, haligned⟩
    rw [align, hcolumns, bind_ok_left, hok]
    rfl
  · rintro ⟨name, hmissing⟩
    -- the table's field of that name fails
    have hname : name ∈ target.map Columnar.Field.name := by
      obtain ⟨m, hm, hmname, -⟩ := hmissing
      rw [htarget.names, ← hmname]
      exact List.mem_map_of_mem hm
    obtain ⟨field, hfield, rfl⟩ := List.mem_map.1 hname
    have hfails : alignColumn library context batch field =
        .error (requiresColumn context field.name) := by
      obtain ⟨hnot, -⟩ | ⟨-, hrefused⟩ := hcases field hfield
      · exact absurd hmissing hnot
      · exact hrefused
    cases hcolumns : target.mapM (alignColumn library context batch) with
    | ok columns =>
      obtain ⟨column, hcolumn⟩ := mapM_succeeds.1 ⟨columns, hcolumns⟩ field hfield
      rw [hfails] at hcolumn
      cases hcolumn
    | error e =>
      obtain ⟨first, hfirst, hrefused⟩ := mapM_error hcolumns
      obtain ⟨-, column, hcolumn, -⟩ | ⟨hmissingFirst, hfirstRefused⟩ := hcases first hfirst
      · rw [hcolumn] at hrefused
        cases hrefused
      · refine ⟨first.name, hmissingFirst, ?_⟩
        rw [align, hcolumns, bind_error_left]
        rw [hrefused] at hfirstRefused
        rw [Except.error.inj hfirstRefused]

/-- The drift check: a preorder on fields that ignores ids and the order of children, and what it
accepts is aligned to the live table without moving a value to another name. -/
theorem drift_check_sound (hcast : CastsByName (Represented represents) library.cast) :
    (∀ field : NestedField, field.distinct = true → compareField field field = none) ∧
    (∀ wanted between live, compareField wanted between = none → compareField between live = none →
      compareField wanted live = none) ∧
    (∀ wanted wanted' live live', Alike wanted wanted' → Alike live live' → wanted.distinct = true →
      live.distinct = true → (compareField wanted live = none ↔ compareField wanted' live' = none)) ∧
    ∀ (wanted live : List NestedField) (target : List (Columnar.Field A)) (batch : Batch A V)
      (context : String),
      Distinct wanted → Distinct live → Accepts wanted live → live ≠ [] → batch.Sound →
      ShowsSchema represents batch.fields wanted → ShowsSchema represents target live →
        ((∀ name, ¬Missing wanted live name) →
          ∃ out, align library context batch target = .ok out ∧ Aligned batch target out) ∧
        ((∃ name, Missing wanted live name) → ∃ name, Missing wanted live name ∧
          align library context batch target = .error (requiresColumn context name)) := by
  refine ⟨fun _ => compareField_refl, compareField_trans, ?_, ?_⟩
  · intro wanted wanted' live live' hwanted hlive hwd hld
    exact compareField_alike hwanted hlive hwd hld
  · intro wanted live target batch context hwanted hlive haccepts hne hsound hbatch htarget
    exact align_accepted hcast hwanted hlive haccepts hne hsound hbatch htarget

/-! ## A table with the children of a struct in another order -/

/-- Arrays of primitives, cast by name. -/
def plainLibrary : ArrowLibrary PrimitiveType Nat where
  cast := castColumn
  displayType _ := "a type"
  displayError _ := "must either specify a row count or at least one column"

def latField (id : Nat) : NestedField := .mk id "lat" true (.primitive .long)

def nameField (id : Nat) : NestedField := .mk id "name" false (.primitive .string)

def placeWanted : List NestedField := [.mk 1 "place" true (.struct [latField 2, nameField 3])]

def placeLive : List NestedField :=
  [.mk 1 "place" false (.struct [nameField 3, latField 4]), .mk 2 "note" false (.primitive .string)]

def latColumn (id : Option Nat) : Columnar.Field PrimitiveType := .mk "lat" (.scalar .long) false id

def nameColumn (id : Option Nat) : Columnar.Field PrimitiveType := .mk "name" (.scalar .string) true id

def placeBatch : Batch PrimitiveType Nat where
  fields := [.mk "place" (.struct (.cons (latColumn none) (.cons (nameColumn none) .nil))) false none]
  columns := [⟨.struct (.cons (latColumn none) (.cons (nameColumn none) .nil)),
    [.struct [("lat", .scalar 52), ("name", .null)]]⟩]
  rowCount := 1

def placeTarget : List (Columnar.Field PrimitiveType) :=
  [.mk "place" (.struct (.cons (nameColumn (some 3)) (.cons (latColumn (some 4)) .nil))) true (some 1),
    .mk "note" (.scalar .string) true (some 2)]

theorem placeBatch_sound : placeBatch.Sound := by
  refine .cons ⟨rfl, ?_, rfl, ?_⟩ .nil
  · intro v hv
    rw [List.mem_singleton.1 hv]
    apply Fits.struct
    · rfl
    · simp [Fields.toList, latColumn, nameColumn, Columnar.Field.name, Columnar.Field.nullable, Value.isNull]
    · intro field hfield w hw
      simp only [Fields.toList, List.mem_cons, List.not_mem_nil, or_false] at hfield
      obtain rfl | rfl := hfield
      · obtain rfl := Option.some.inj hw
        exact .scalar _ _
      · obtain rfl := Option.some.inj hw
        exact .null _
  · simp [Value.isNull]

theorem place_shown : ShowsSchema (· = ·) placeBatch.fields placeWanted := by
  refine ⟨rfl, ?_, ?_⟩
  · simp [placeBatch, placeWanted, Columnar.Field.nullable, NestedField.required]
  · intro f hf n hn _
    rw [List.mem_singleton.1 hf, List.mem_singleton.1 hn]
    apply Shows.struct
    · rfl
    · simp [Fields.toList, latColumn, nameColumn, latField, nameField, Columnar.Field.name, Columnar.Field.nullable,
        NestedField.name, NestedField.required]
    · simp [Fields.toList, latColumn, nameColumn, latField, nameField, Columnar.Field.name, Columnar.Field.type,
        NestedField.name, NestedField.fieldType, Shows.primitive]

theorem placeTarget_shown : ShowsSchema (· = ·) placeTarget placeLive := by
  refine ⟨rfl, ?_, ?_⟩
  · simp [placeTarget, placeLive, Columnar.Field.nullable, Columnar.Field.name, NestedField.name, NestedField.required]
  · intro f hf n hn hname
    simp only [placeTarget, placeLive, List.mem_cons, List.not_mem_nil, or_false] at hf hn
    obtain rfl | rfl := hf
    · obtain rfl | rfl := hn
      · apply Shows.struct
        · rfl
        · simp [Fields.toList, latColumn, nameColumn, latField, nameField, Columnar.Field.name,
            Columnar.Field.nullable, NestedField.name, NestedField.required]
        · simp [Fields.toList, latColumn, nameColumn, latField, nameField, Columnar.Field.name, Columnar.Field.type,
            NestedField.name, NestedField.fieldType, Shows.primitive]
      · simp [Columnar.Field.name, NestedField.name] at hname
    · obtain rfl | rfl := hn
      · simp [Columnar.Field.name, NestedField.name] at hname
      · exact .primitive rfl

theorem drift_check_sound_place :
    ∃ out, align plainLibrary "table `t`" placeBatch placeTarget = .ok out ∧
      Aligned placeBatch placeTarget out := by
  have h := (@drift_check_sound PrimitiveType Nat (· = ·) _ plainLibrary
    (castColumn_byName _)).2.2.2 placeWanted placeLive placeTarget placeBatch "table `t`" rfl rfl
    (by
      intro field hfield
      rw [List.mem_singleton.1 hfield]
      exact ⟨_, rfl, rfl⟩)
    (List.cons_ne_nil _ _) placeBatch_sound place_shown placeTarget_shown
  apply h.1
  rintro name ⟨field, hfield, -, hrequired, -⟩
  simp only [placeLive, List.mem_cons, List.not_mem_nil, or_false] at hfield
  obtain rfl | rfl := hfield
  · cases hrequired
  · cases hrequired

/-- A field with two children of one name drifts from itself. A table without columns has no batch,
though no required column of it is missing. -/
theorem drift_check_bounds :
    (compareField (.mk 1 "place" true (.struct [latField 2, .mk 3 "lat" true (.primitive .string)]))
      (.mk 1 "place" true (.struct [latField 2, .mk 3 "lat" true (.primitive .string)]))).isSome = true ∧
    Accepts [] [] ∧ (∀ name, ¬Missing [] [] name) ∧
    (⟨[], [], 1⟩ : Batch PrimitiveType Nat).Sound ∧ ShowsSchema (A := PrimitiveType) (· = ·) [] [] ∧
    align plainLibrary "table `t`" ⟨[], [], 1⟩ [] = .error ("table `t`: aligning batch: " ++
      "must either specify a row count or at least one column") := by
  refine ⟨by decide, ?_, ?_, .nil, ?_, rfl⟩
  · exact fun field hfield => absurd hfield List.not_mem_nil
  · rintro name ⟨field, hfield, -⟩
    cases hfield
  · exact ⟨rfl, fun f hf => absurd hf List.not_mem_nil, fun f hf => absurd hf List.not_mem_nil⟩

end Iceberg
