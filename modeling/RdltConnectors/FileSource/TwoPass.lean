import RdltConnectors.FileSource.Csv

/-!
# A file that changes between the two passes

The names and the shapes come from the first content, the cells from the second. What
the conversion compares is one cell with one plan, so a change shows only where a record
is too long or a cell has no value under its plan.
-/
namespace FileSource

open Fallible Numerals

variable {isJson : String → Bool} {path : String} {hasHeader : Bool} {names : List String}
  {shapes : List ValueShape} {hints : List (String × HintType)}

/-- The value a cell has under a plan, wherever it stands. -/
def ColumnPlan.value (isJson : String → Bool) (plan : ColumnPlan) (cell : String) :
    Option JsonValue :=
  (convert "" 0 "" cell isJson plan).toOption

variable (path) in
theorem convert_toOption (row : Nat) (column : String) {cell : String} (plan : ColumnPlan) :
    (convert path row column cell isJson plan).toOption = plan.value isJson cell := by
  unfold ColumnPlan.value
  cases plan with
  | shaped shape =>
    cases shape with
    | unseen => rfl
    | bool => simp only [convert, convertShaped]; split <;> [rfl; (split <;> rfl)]
    | int => simp only [convert, convertShaped]; split <;> rfl
    | float => simp only [convert, convertShaped]; split <;> [(split <;> rfl); rfl]
    | text => rfl
  | hinted hint =>
    cases hint with
    | bool => simp only [convert, convertHinted]; split <;> [rfl; (split <;> rfl)]
    | int64 => simp only [convert, convertHinted]; split <;> rfl
    | float64 => simp only [convert, convertHinted]; split <;> rfl
    | json => simp only [convert, convertHinted]; split <;> rfl
    | utf8 => rfl
    | timestampTz => rfl
    | date => rfl
    | time => rfl
    | uuid => rfl

theorem convert_ok {row : Nat} {column cell : String} {plan : ColumnPlan} {value : JsonValue} :
    convert path row column cell isJson plan = .ok value ↔ plan.value isJson cell = some value := by
  rw [← convert_toOption path row column]
  cases convert path row column cell isJson plan <;> simp [Except.toOption]

theorem encodeCell_ok {row : Nat} {column cell : String} {plan : ColumnPlan} {value : JsonValue} :
    encodeCell isJson path row column cell plan = .ok value ↔
      if cell = "" then value = .null else plan.value isJson cell = some value := by
  unfold encodeCell
  by_cases hempty : cell = ""
  · subst hempty
    constructor
    · exact fun h => (Except.ok.inj h).symm
    · exact fun h => congrArg Except.ok h.symm
  · rw [if_neg hempty, if_neg (by simpa using hempty), convert_ok]

/-- The plans have no place for one of the cells, or no value for it. -/
def Misfits (isJson : String → Bool) (names : List String) (plans : List ColumnPlan)
    (record : List String) : Prop :=
  names.length < record.length ∨ ∃ (i : Nat) (cell : String) (plan : ColumnPlan),
    record[i]? = some cell ∧ cell ≠ "" ∧ plans[i]? = some plan ∧ plan.value isJson cell = none

theorem encodeRow_succeeds {plans : List ColumnPlan} {record : List String} {row : Nat}
    (hplans : plans.length = names.length) :
    (∃ object, encodeRow isJson names plans record path row = .ok object) ↔
      ¬ Misfits isJson names plans record := by
  unfold Misfits
  by_cases hlong : names.length < record.length
  · have hno : ¬ ∃ object, encodeRow isJson names plans record path row = .ok object := by
      rintro ⟨object, hobject⟩
      apply encodeCells_long _ hobject
      rwa [List.length_zip, hplans, Nat.min_self]
    simp [hlong, hno]
  · rw [encodeRow_mapM hplans (by omega), mapM_succeeds]
    simp only [hlong, false_or]
    constructor
    · rintro hall ⟨i, cell, plan, hcell, hne, hplan, hnone⟩
      have hi := (List.getElem?_eq_some_iff.mp hplan).1
      obtain ⟨name, hname⟩ : ∃ name, names[i]? = some name :=
        ⟨_, List.getElem?_eq_getElem (by omega)⟩
      have hplaced : ((names.zip plans).zip record)[i]? = some ((name, plan), cell) := by
        simp [List.getElem?_zip_eq_some, hname, hplan, hcell]
      obtain ⟨member, hmember⟩ := hall _ (List.mem_of_getElem? hplaced)
      obtain ⟨value, hvalue, -⟩ := map_ok.mp hmember
      rw [encodeCell_ok, if_neg hne, hnone] at hvalue
      cases hvalue
    · intro hfits placed hmem
      obtain ⟨i, hplaced⟩ := List.mem_iff_getElem?.mp hmem
      obtain ⟨-, hplan, hcell⟩ := zipped_get hplaced
      by_cases hempty : placed.2 = ""
      · exact ⟨_, map_ok.mpr ⟨.null, encodeCell_ok.mpr (by rw [if_pos hempty]), rfl⟩⟩
      · cases hvalue : placed.1.2.value isJson placed.2 with
        | none => exact absurd ⟨i, placed.2, placed.1.2, hcell, hempty, hplan, hvalue⟩ hfits
        | some value =>
          exact ⟨_, map_ok.mpr ⟨value, encodeCell_ok.mpr (by rw [if_neg hempty, hvalue]), rfl⟩⟩

/-! ## The same names and plans -/

/-- Where the first rows of names agree, and the plans of every column with a value, a
record that is encoded under the one is encoded alike under the other. -/
theorem encodeRow_agree {names' : List String} {plans plans' : List ColumnPlan}
    {record : List String} {row : Nat} {object : Object} (hplans : plans.length = names.length)
    (hplans' : plans'.length = names'.length) (hnames : names.take record.length = names')
    (hfit : record.length ≤ names.length)
    (hsame : ∀ (i : Nat) cell, record[i]? = some cell → cell ≠ "" → plans[i]? = plans'[i]?)
    (h : encodeRow isJson names plans record path row = .ok object) :
    encodeRow isJson names' plans' record path row = .ok object := by
  have hlen' : names'.length = record.length := by
    rw [← hnames, List.length_take, Nat.min_eq_left hfit]
  rw [encodeRow_mapM hplans hfit] at h
  rw [encodeRow_mapM hplans' (le_of_eq hlen'.symm)]
  obtain ⟨hlength, hget⟩ := mapM_getElem h
  apply mapM_of_getElem
  · rw [hlength]
    simp only [List.length_zip, hplans, hplans', Nat.min_self, hlen']
    omega
  · intro i placed' hplaced'
    obtain ⟨hname', hplan', hcell⟩ := zipped_get hplaced'
    have hi : i < record.length := (List.getElem?_eq_some_iff.mp hcell).1
    have hname : names[i]? = some placed'.1.1 := by
      rw [← hname', ← hnames, List.getElem?_take_of_lt hi]
    obtain ⟨plan, hplan⟩ : ∃ plan, plans[i]? = some plan :=
      ⟨_, List.getElem?_eq_getElem (by omega)⟩
    have hplaced : ((names.zip plans).zip record)[i]? = some ((placed'.1.1, plan), placed'.2) := by
      simp [List.getElem?_zip_eq_some, hname, hplan, hcell]
    obtain ⟨member, hmember, hencoded⟩ := hget i _ hplaced
    obtain ⟨value, hvalue, hpair⟩ := map_ok.mp hencoded
    refine ⟨member, hmember, map_ok.mpr ⟨value, ?_, hpair⟩⟩
    rw [encodeCell_ok] at hvalue ⊢
    by_cases hempty : placed'.2 = ""
    · rwa [if_pos hempty] at hvalue ⊢
    · have hplaneq := hsame i placed'.2 hcell hempty
      rw [hplan, hplan', Option.some.injEq] at hplaneq
      rw [if_neg hempty, hplaneq] at hvalue
      rw [if_neg hempty]
      exact hvalue

/-- The shape under which a value was converted. -/
def JsonValue.shape : JsonValue → ValueShape
  | .bool _ => .bool
  | .int _ => .int
  | .float _ => .float
  | .string _ => .text
  | .null => .unseen
  | .document _ => .unseen

theorem value_shape {shape : ValueShape} {cell : String} {value : JsonValue}
    (hseen : shape ≠ .unseen) (h : (ColumnPlan.shaped shape).value isJson cell = some value) :
    shape = value.shape := by
  have h : convertShaped "" 0 "" cell shape = .ok value := convert_ok.mpr h
  cases shape with
  | unseen => exact absurd rfl hseen
  | bool =>
    simp only [convertShaped] at h
    split at h
    · cases h
      rfl
    · split at h
      · cases h
        rfl
      · cases h
  | int =>
    simp only [convertShaped] at h
    split at h
    · cases h
      rfl
    · cases h
  | float =>
    simp only [convertShaped] at h
    split at h
    · rename_i number _
      cases number with
      | finite negative mantissa exponent =>
        cases h
        rfl
      | infinite negative => cases h
      | nan => cases h
    · cases h
  | text =>
    cases h
    rfl

theorem planColumn_plain {name : String} (hplain : hints.lookup name = none)
    (found : Option ValueShape) :
    ∃ shape, shape ≠ ValueShape.unseen ∧ planColumn hints name found = .shaped shape := by
  unfold planColumn
  rw [hplain]
  cases found with
  | none => exact ⟨.text, by decide, rfl⟩
  | some shape => cases shape <;> exact ⟨_, by decide, rfl⟩

/-- Two plans of one column that give a cell the same value are the same. -/
theorem planColumn_inj {name cell : String} {found found' : Option ValueShape} {value : JsonValue}
    (h : (planColumn hints name found).value isJson cell = some value)
    (h' : (planColumn hints name found').value isJson cell = some value) :
    planColumn hints name found = planColumn hints name found' := by
  cases hlookup : hints.lookup name with
  | some hint => simp only [planColumn, hlookup]
  | none =>
    obtain ⟨shape, hseen, hshape⟩ := planColumn_plain hlookup found
    obtain ⟨shape', hseen', hshape'⟩ := planColumn_plain hlookup found'
    rw [hshape] at h ⊢
    rw [hshape'] at h' ⊢
    rw [value_shape hseen h, value_shape hseen' h']

/-- Two encodings of one record to one object used the same names, and the same plan
wherever the cell has a value. -/
theorem encodeRow_forces {names' : List String} {shapes' : List ValueShape} {record : List String}
    {row : Nat} {object : Object} (hfit : record.length ≤ names.length)
    (hlen' : record.length = names'.length)
    (h : encodeRow isJson names (planColumns names shapes hints) record path row = .ok object)
    (h' : encodeRow isJson names' (planColumns names' shapes' hints) record path row =
      .ok object) :
    names.take record.length = names' ∧ ∀ (i : Nat) cell, record[i]? = some cell → cell ≠ "" →
      (planColumns names shapes hints)[i]? = (planColumns names' shapes' hints)[i]? := by
  have hplans : (planColumns names shapes hints).length = names.length := length_planColumns _ _ _
  have hplans' : (planColumns names' shapes' hints).length = names'.length :=
    length_planColumns _ _ _
  constructor
  · rw [← encodeRow_keys hplans hfit h, encodeRow_keys hplans' (le_of_eq hlen') h', hlen',
      List.take_length]
  · intro i cell hcell hne
    have hi : i < record.length := (List.getElem?_eq_some_iff.mp hcell).1
    obtain ⟨name, hname⟩ : ∃ name, names[i]? = some name :=
      ⟨_, List.getElem?_eq_getElem (by omega)⟩
    obtain ⟨name', hname'⟩ : ∃ name', names'[i]? = some name' :=
      ⟨_, List.getElem?_eq_getElem (by omega)⟩
    rw [encodeRow_mapM hplans hfit] at h
    rw [encodeRow_mapM hplans' (le_of_eq hlen')] at h'
    rw [planColumns_get, planColumns_get, hname, hname', Option.map_some, Option.map_some]
    have hplaced : ((names.zip (planColumns names shapes hints)).zip record)[i]? =
        some ((name, planColumn hints name shapes[i]?), cell) := by
      simp [List.getElem?_zip_eq_some, planColumns_get, hname, hcell]
    have hplaced' : ((names'.zip (planColumns names' shapes' hints)).zip record)[i]? =
        some ((name', planColumn hints name' shapes'[i]?), cell) := by
      simp [List.getElem?_zip_eq_some, planColumns_get, hname', hcell]
    obtain ⟨member, hmember, hencoded⟩ := (mapM_getElem h).2 i _ hplaced
    obtain ⟨member', hmember', hencoded'⟩ := (mapM_getElem h').2 i _ hplaced'
    obtain rfl := Option.some.inj (hmember.symm.trans hmember')
    obtain ⟨value, hvalue, rfl⟩ := map_ok.mp hencoded
    obtain ⟨value', hvalue', hpair⟩ := map_ok.mp hencoded'
    obtain ⟨rfl, rfl⟩ := Prod.mk.inj hpair
    rw [encodeCell_ok, if_neg hne] at hvalue hvalue'
    rw [planColumn_inj hvalue hvalue']

/-! ## When a change is noticed -/

theorem readCsv_ok {surveyed converted : Contents hasHeader} {objects : List Object} :
    readCsv isJson path hints surveyed converted = .ok objects ↔
      ∃ names shapes, survey path surveyed = .ok (names, shapes) ∧ converted.broken = none ∧
        (converted.records.zipIdx hasHeader.toNat).mapM (fun placed =>
          encodeRow isJson names (planColumns names shapes hints) placed.1 path (placed.2 + 1)) =
            .ok objects := by
  simp only [readCsv, bind_ok, encodeRows_mapM]
  constructor
  · rintro ⟨⟨names, shapes⟩, hsurvey, objects', hrows, hend⟩
    cases hbroken : converted.broken with
    | some message => simp [hbroken] at hend
    | none =>
      simp only [hbroken, Except.ok.injEq] at hend
      exact ⟨names, shapes, hsurvey, rfl, hend ▸ hrows⟩
  · rintro ⟨names, shapes, hsurvey, hbroken, hrows⟩
    exact ⟨(names, shapes), hsurvey, objects, hrows, by rw [hbroken]⟩

/-- The second content has its columns where the first had them, planned alike. -/
structure SameColumns (hints : List (String × HintType)) (names : List String)
    (shapes : List ValueShape) (names' : List String) (shapes' : List ValueShape)
    (converted : Contents hasHeader) : Prop where
  placed : names.take converted.width = names'
  planned : ∀ (i : Nat), (∃ record ∈ converted.records, ∃ cell, record[i]? = some cell ∧ cell ≠ "") →
    (planColumns names shapes hints)[i]? = (planColumns names' shapes' hints)[i]?

theorem mem_of_zipIdx {records : List (List String)} {start : Nat} {placed : List String × Nat}
    (h : placed ∈ records.zipIdx start) : placed.1 ∈ records := by
  obtain ⟨i, hi⟩ := List.mem_iff_getElem?.mp h
  rw [List.getElem?_zipIdx] at hi
  obtain ⟨record, hrecord, rfl⟩ := Option.map_eq_some_iff.mp hi
  exact List.mem_of_getElem? hrecord

/-- A run emits what the second content alone gives exactly when the survey refuses the
first content, or the conversion meets a record that does not fit, or the second content
reads on its own and, where it has records, has its columns where the first had them and
of the shapes they had. -/
theorem two_passes_agree_iff (isJson : String → Bool) (path : String)
    (hints : List (String × HintType)) (surveyed converted : Contents hasHeader) :
    (∀ objects, readCsv isJson path hints surveyed converted = .ok objects →
        readCsv isJson path hints converted converted = .ok objects) ↔
      ∀ names shapes, survey path surveyed = .ok (names, shapes) → converted.broken = none →
        (∀ record ∈ converted.records,
          ¬ Misfits isJson names (planColumns names shapes hints) record) →
        ∃ names' shapes', survey path converted = .ok (names', shapes') ∧
          (converted.records ≠ [] → SameColumns hints names shapes names' shapes' converted) := by
  constructor
  · intro hagree names shapes hsurvey hbroken hfits
    obtain ⟨objects, hrows⟩ : ∃ objects,
        (converted.records.zipIdx hasHeader.toNat).mapM (fun placed =>
          encodeRow isJson names (planColumns names shapes hints) placed.1 path (placed.2 + 1)) =
            .ok objects := by
      apply mapM_succeeds.mpr
      intro placed hplaced
      exact (encodeRow_succeeds (length_planColumns _ _ _)).mpr (hfits _ (mem_of_zipIdx hplaced))
    have hread := readCsv_ok.mpr ⟨names, shapes, hsurvey, hbroken, hrows⟩
    obtain ⟨names', shapes', hsurvey', -, hrows'⟩ := readCsv_ok.mp (hagree objects hread)
    refine ⟨names', shapes', hsurvey', fun hne => ?_⟩
    have hforces : ∀ record ∈ converted.records, names.take record.length = names' ∧
        ∀ (i : Nat) cell, record[i]? = some cell → cell ≠ "" →
          (planColumns names shapes hints)[i]? = (planColumns names' shapes' hints)[i]? := by
      intro record hrecord
      obtain ⟨k, hk⟩ := List.mem_iff_getElem?.mp hrecord
      have hplaced : (converted.records.zipIdx hasHeader.toNat)[k]? =
          some (record, hasHeader.toNat + k) := by
        simp [List.getElem?_zipIdx, hk]
      obtain ⟨object, hobject, hencoded⟩ := (mapM_getElem hrows).2 k _ hplaced
      obtain ⟨object', hobject', hencoded'⟩ := (mapM_getElem hrows').2 k _ hplaced
      obtain rfl := Option.some.inj (hobject.symm.trans hobject')
      have hfit : record.length ≤ names.length := by
        by_contra hlong
        exact hfits record hrecord (.inl (by omega))
      have hlen' : record.length = names'.length := by
        rw [converted.even record hrecord, names_length hsurvey' hne]
      exact encodeRow_forces hfit hlen' hencoded hencoded'
    constructor
    · obtain ⟨record, records, hrecords⟩ := List.exists_cons_of_ne_nil hne
      have hrecord : record ∈ converted.records := by simp [hrecords]
      rw [← converted.even record hrecord]
      exact (hforces record hrecord).1
    · rintro i ⟨record, hrecord, cell, hcell, hne'⟩
      exact (hforces record hrecord).2 i cell hcell hne'
  · intro hcondition objects hread
    obtain ⟨names, shapes, hsurvey, hbroken, hrows⟩ := readCsv_ok.mp hread
    have hfits : ∀ record ∈ converted.records,
        ¬ Misfits isJson names (planColumns names shapes hints) record := by
      intro record hrecord
      obtain ⟨k, hk⟩ := List.mem_iff_getElem?.mp hrecord
      obtain ⟨object, -, hencoded⟩ := (mapM_getElem hrows).2 k (record, hasHeader.toNat + k) (by
        simp [List.getElem?_zipIdx, hk])
      exact (encodeRow_succeeds (length_planColumns _ _ _)).mp ⟨object, hencoded⟩
    obtain ⟨names', shapes', hsurvey', hcolumns⟩ := hcondition names shapes hsurvey hbroken hfits
    apply readCsv_ok.mpr ⟨names', shapes', hsurvey', hbroken, _⟩
    apply mapM_of_getElem (mapM_length hrows)
    intro k placed hplaced
    obtain ⟨object, hobject, hencoded⟩ := (mapM_getElem hrows).2 k placed hplaced
    have hrecord := mem_of_zipIdx (List.mem_of_getElem? hplaced)
    have hsame := hcolumns (List.ne_nil_of_mem hrecord)
    have hfit : placed.1.length ≤ names.length := by
      by_contra hlong
      exact hfits _ hrecord (.inl (by omega))
    refine ⟨object, hobject, encodeRow_agree (length_planColumns _ _ _) (length_planColumns _ _ _)
      ?_ hfit ?_ hencoded⟩
    · rw [converted.even _ hrecord]
      exact hsame.placed
    · exact fun i cell hcell hne => hsame.planned i ⟨placed.1, hrecord, cell, hcell, hne⟩

def surveyedSheet : Contents true := .sheet ["id", "name"] [["1", "x"]] (by decide)

/-- The same columns the other way round. -/
def reorderedSheet : Contents true := .sheet ["name", "id"] [["7", "y"]] (by decide)

theorem reordered_columns_unnoticed :
    readCsv (fun _ => true) "f.csv" [] surveyedSheet reorderedSheet =
        .ok [[("id", .int 7), ("name", .string "y")]] ∧
      readCsv (fun _ => true) "f.csv" [] reorderedSheet reorderedSheet =
        .ok [[("name", .int 7), ("id", .string "y")]] := by
  constructor <;> decide +kernel

end FileSource
