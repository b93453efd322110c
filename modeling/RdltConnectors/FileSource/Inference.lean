import RdltConnectors.FileSource.Csv
import Mathlib.Data.Set.Basic
import Mathlib.Order.Lattice

/-!
# Inference on a file that stays as it is

The shapes form a semilattice, so a surveyed column bounds the shape of each of its
cells and is the least shape to do so. Below it every cell has a value, all of one
kind, and the kind is read off the set of the cells.
-/
namespace FileSource

open Fallible Numerals

/-! ## Shapes in order -/

instance : Max ValueShape := ⟨ValueShape.join⟩

instance : SemilatticeSup ValueShape :=
  SemilatticeSup.mk' (fun a b => by cases a <;> cases b <;> rfl)
    (fun a b c => by cases a <;> cases b <;> cases c <;> rfl) (fun a => by cases a <;> rfl)

theorem le_iff_join {a b : ValueShape} : a ≤ b ↔ a.join b = b := sup_eq_right.symm

instance : DecidableLE ValueShape := fun _ _ => decidable_of_iff _ le_iff_join.symm

theorem unseen_le (shape : ValueShape) : .unseen ≤ shape := le_iff_join.mpr rfl

/-- The shape a cell adds to its column. -/
def cellShape (cell : String) : ValueShape := if cell = "" then .unseen else .of cell

theorem observeCell_sup (shape : ValueShape) (cell : String) :
    observeCell shape cell = shape ⊔ cellShape cell := by
  unfold observeCell cellShape
  by_cases hempty : cell = ""
  · have hbottom : shape ⊔ ValueShape.unseen = shape := sup_eq_left.mpr (unseen_le shape)
    simp [hempty, hbottom]
  · have hcell : cell.isEmpty = false := by simpa using hempty
    rw [hcell, if_neg hempty]
    rfl

/-- Folding joins gives the least bound. -/
theorem foldl_sup_le {α β : Type} [SemilatticeSup β] {f : α → β} {l : List α} {start bound : β} :
    l.foldl (fun acc a => acc ⊔ f a) start ≤ bound ↔ start ≤ bound ∧ ∀ a ∈ l, f a ≤ bound := by
  induction l generalizing start with
  | nil => simp
  | cons a l ih => rw [List.foldl_cons, ih, sup_le_iff, List.forall_mem_cons, and_assoc]

/-! ## What a column was surveyed to be -/

theorem observe_getD (shapes : List ValueShape) (record : List String) (i : Nat) :
    (observe shapes record).getD i .unseen =
      shapes.getD i .unseen ⊔ cellShape (record.getD i "") := by
  have hbottom : ∀ shape : ValueShape, shape ⊔ cellShape "" = shape :=
    fun shape => sup_eq_left.mpr (unseen_le shape)
  induction record generalizing shapes i with
  | nil => simp [observe, hbottom]
  | cons cell cells ih =>
    cases shapes with
    | nil =>
      cases i with
      | zero => simp [observe, observeCell_sup]
      | succ i => simpa [observe] using ih [] i
    | cons shape shapes =>
      cases i with
      | zero => simp [observe, observeCell_sup]
      | succ i => simpa [observe] using ih shapes i

theorem observed_getD (records : List (List String)) (shapes : List ValueShape) (i : Nat) :
    (records.foldl observe shapes).getD i .unseen =
      records.foldl (fun shape record => shape ⊔ cellShape (record.getD i ""))
        (shapes.getD i .unseen) := by
  induction records generalizing shapes with
  | nil => rfl
  | cons record records ih => rw [List.foldl_cons, ih, observe_getD, List.foldl_cons]

variable {hasHeader : Bool}

def Contents.columnShape (file : Contents hasHeader) (i : Nat) : ValueShape :=
  file.shapes.getD i .unseen

/-- The cells of a column, as a set. -/
def Contents.column (file : Contents hasHeader) (i : Nat) : Set String :=
  {cell | ∃ record ∈ file.records, record[i]? = some cell}

theorem columnShape_le {file : Contents hasHeader} {i : Nat} {bound : ValueShape} :
    file.columnShape i ≤ bound ↔ ∀ cell ∈ file.column i, cellShape cell ≤ bound := by
  rw [Contents.columnShape, Contents.shapes, observed_getD, foldl_sup_le]
  constructor
  · rintro ⟨-, hall⟩ cell ⟨record, hrecord, hcell⟩
    have hle := hall record hrecord
    rwa [List.getD_eq_getElem?_getD, hcell, Option.getD_some] at hle
  · intro hall
    refine ⟨unseen_le bound, fun record hrecord => ?_⟩
    rw [List.getD_eq_getElem?_getD]
    cases hcell : record[i]? with
    | none => exact unseen_le bound
    | some cell => exact hall cell ⟨record, hrecord, hcell⟩

/-! ## The kind of a column -/

inductive Kind where
  | bool
  | number
  | string
  deriving DecidableEq, Repr

/-- Nothing for null, and nothing for a document, whose kind is its own. -/
def JsonValue.kind : JsonValue → Option Kind
  | .bool _ => some .bool
  | .int _ => some .number
  | .float _ => some .number
  | .string _ => some .string
  | .null => none
  | .document _ => none

open Classical in
/-- The kind of the values of a column with these cells. -/
noncomputable def kindOf (cells : Set String) : Kind :=
  if ∀ cell ∈ cells, cell = "" ∨ cell = "true" ∨ cell = "false" then .bool
  else if ∀ cell ∈ cells, cell = "" ∨ parseF64 cell.toList ≠ none then .number
  else .string

def ValueShape.kind : ValueShape → Kind
  | .unseen => .string
  | .bool => .bool
  | .int => .number
  | .float => .number
  | .text => .string

theorem kind_cases {shape : ValueShape} (h : shape ≠ .unseen) :
    shape.kind = if shape ≤ .bool then .bool else if shape ≤ .float then .number else .string := by
  cases shape with
  | unseen => exact absurd rfl h
  | bool => rfl
  | int => rfl
  | float => rfl
  | text => rfl

theorem cellShape_le_bool {cell : String} :
    cellShape cell ≤ .bool ↔ cell = "" ∨ cell = "true" ∨ cell = "false" := by
  unfold cellShape ValueShape.of
  by_cases hempty : cell = ""
  · simp [hempty, unseen_le]
  · by_cases hbool : cell = "true" ∨ cell = "false"
    · simp [hempty, hbool]
    · rw [if_neg hempty, if_neg hbool]
      simp only [hempty, hbool, or_self, iff_false]
      split
      · decide
      · split <;> decide

theorem cellShape_le_float {cell : String} :
    cellShape cell ≤ .float ↔ cell = "" ∨ parseF64 cell.toList ≠ none := by
  unfold cellShape ValueShape.of
  by_cases hempty : cell = ""
  · simp [hempty, unseen_le]
  · rw [if_neg hempty]
    simp only [hempty, false_or]
    by_cases hbool : cell = "true" ∨ cell = "false"
    · have hnone : parseF64 cell.toList = none := by
        obtain rfl | rfl := hbool <;> decide +kernel
      rw [if_pos hbool, hnone]
      decide
    · rw [if_neg hbool]
      cases hint : parseI64 cell.toList with
      | some n =>
        have hfloat : parseF64 cell.toList ≠ none := parseF64_of_parseI64 (by simp [hint])
        simp only [Option.isSome_some, if_true, hfloat, ne_eq, not_false_iff, iff_true]
        decide
      | none =>
        cases parseF64 cell.toList with
        | some number => simp
        | none =>
          simp only [Option.isSome_none, Bool.false_eq_true, if_false, ne_eq, not_true_eq_false,
            iff_false]
          decide

theorem columnShape_seen {file : Contents hasHeader} {i : Nat} {cell : String}
    (hmem : cell ∈ file.column i) (hne : cell ≠ "") : file.columnShape i ≠ .unseen := by
  intro hunseen
  have hle := columnShape_le.mp (le_of_eq hunseen) cell hmem
  rw [cellShape, if_neg hne] at hle
  have hof : ValueShape.of cell ≠ .unseen := by
    unfold ValueShape.of
    split
    · decide
    · split
      · decide
      · split <;> decide
  revert hof hle
  cases ValueShape.of cell <;> decide

/-- The surveyed kind depends on the cells only, and not on their order. -/
theorem kind_columnShape {file : Contents hasHeader} {i : Nat} {cell : String}
    (hmem : cell ∈ file.column i) (hne : cell ≠ "") :
    (file.columnShape i).kind = kindOf (file.column i) := by
  have hbool : file.columnShape i ≤ .bool ↔
      ∀ cell ∈ file.column i, cell = "" ∨ cell = "true" ∨ cell = "false" := by
    simp only [columnShape_le, cellShape_le_bool]
  have hfloat : file.columnShape i ≤ .float ↔
      ∀ cell ∈ file.column i, cell = "" ∨ parseF64 cell.toList ≠ none := by
    simp only [columnShape_le, cellShape_le_float]
  rw [kind_cases (columnShape_seen hmem hne), kindOf]
  simp only [← hbool, ← hfloat]

/-! ## Below its column's shape a cell has a value -/

section

variable {path column cell : String} {row : Nat}

theorem of_cases (cell : String) :
    (ValueShape.of cell = .bool ∧ (cell = "true" ∨ cell = "false")) ∨
      (ValueShape.of cell = .int ∧ ∃ n, parseI64 cell.toList = some n) ∨
      (ValueShape.of cell = .float ∧ ∃ number, parseF64 cell.toList = some number) ∨
      ValueShape.of cell = .text := by
  unfold ValueShape.of
  split
  · rename_i hbool
    exact .inl ⟨rfl, hbool⟩
  · split
    · rename_i hint
      exact .inr (.inl ⟨rfl, Option.isSome_iff_exists.mp hint⟩)
    · split
      · rename_i hfloat
        exact .inr (.inr (.inl ⟨rfl, Option.isSome_iff_exists.mp hfloat⟩))
      · exact .inr (.inr (.inr rfl))

/-- A cell that is a number without a finite value. -/
def NonFinite (cell : String) : Prop :=
  ∃ number, parseF64 cell.toList = some number ∧ Double.toJson number = none

variable (path row column) in
/-- The converter accepts what the survey let through, a number that is not finite apart. -/
theorem convertShaped_below {shape : ValueShape} (hle : ValueShape.of cell ≤ shape) :
    (∃ value, convertShaped path row column cell shape = .ok value ∧
        value.kind = some shape.kind) ∨
      convertShaped path row column cell shape = .error (.nonFinite path row column cell) ∧
        shape = .float ∧ NonFinite cell := by
  cases shape with
  | unseen => exact .inl ⟨.string cell, rfl, rfl⟩
  | text => exact .inl ⟨.string cell, rfl, rfl⟩
  | bool =>
    left
    obtain ⟨-, rfl | rfl⟩ | ⟨hof, -⟩ | ⟨hof, -⟩ | hof := of_cases cell
    · exact ⟨.bool true, rfl, rfl⟩
    · exact ⟨.bool false, rfl, rfl⟩
    all_goals exact absurd (hof ▸ hle) (by decide)
  | int =>
    left
    obtain ⟨hof, -⟩ | ⟨-, n, hn⟩ | ⟨hof, -⟩ | hof := of_cases cell
    · exact absurd (hof ▸ hle) (by decide)
    · exact ⟨.int n, by simp [convertShaped, hn], rfl⟩
    all_goals exact absurd (hof ▸ hle) (by decide)
  | float =>
    have hnumber : ∃ number, parseF64 cell.toList = some number := by
      obtain ⟨hof, -⟩ | ⟨-, n, hn⟩ | ⟨-, hnumber⟩ | hof := of_cases cell
      · exact absurd (hof ▸ hle) (by decide)
      · exact Option.ne_none_iff_exists'.mp (parseF64_of_parseI64 (by simp [hn]))
      · exact hnumber
      · exact absurd (hof ▸ hle) (by decide)
    obtain ⟨number, hnumber⟩ := hnumber
    cases number with
    | finite negative mantissa exponent =>
      exact .inl ⟨.float (.finite negative mantissa exponent),
        by simp [convertShaped, hnumber, Double.toJson], rfl⟩
    | infinite negative =>
      exact .inr ⟨by simp [convertShaped, hnumber, Double.toJson], rfl, _, hnumber, rfl⟩
    | nan => exact .inr ⟨by simp [convertShaped, hnumber, Double.toJson], rfl, _, hnumber, rfl⟩

end

section

variable {file : Contents hasHeader} {isJson : String → Bool} {path : String}
  {names : List String} {shapes : List ValueShape}

/-- Without hints a column with a value converts under its surveyed shape. -/
theorem planned_seen {i : Nat} {name : String} {plan : ColumnPlan}
    (hname : names[i]? = some name) (hplan : (planColumns names file.shapes [])[i]? = some plan)
    (hseen : file.columnShape i ≠ .unseen) : plan = .shaped (file.columnShape i) := by
  rw [planColumns_get, hname, Option.map_some, Option.some.injEq] at hplan
  rw [← hplan, Contents.columnShape, List.getD_eq_getElem?_getD]
  rw [Contents.columnShape, List.getD_eq_getElem?_getD] at hseen
  cases hshape : file.shapes[i]? with
  | none => simp [hshape] at hseen
  | some shape =>
    rw [hshape, Option.getD_some] at hseen
    cases shape with
    | unseen => exact absurd rfl hseen
    | bool => rfl
    | int => rfl
    | float => rfl
    | text => rfl

variable (isJson path) in
/-- A cell of the surveyed file: null, a value of its column's kind, or not finite in a
column of numbers. -/
theorem encodeCell_surveyed {i : Nat} (row : Nat) {name cell : String} {plan : ColumnPlan}
    (hname : names[i]? = some name) (hplan : (planColumns names file.shapes [])[i]? = some plan)
    (hcell : cell ∈ file.column i) :
    (∃ value, encodeCell isJson path row name cell plan = .ok value ∧
        (value = .null ↔ cell = "") ∧
        (value ≠ .null → value.kind = some (kindOf (file.column i)))) ∨
      encodeCell isJson path row name cell plan = .error (.nonFinite path row name cell) ∧
        file.columnShape i = .float ∧ NonFinite cell := by
  unfold encodeCell
  by_cases hempty : cell = ""
  · exact .inl ⟨.null, by simp [hempty], by simp [hempty], fun h => absurd rfl h⟩
  · have hseen := columnShape_seen hcell hempty
    have hle := columnShape_le.mp (le_refl (file.columnShape i)) cell hcell
    rw [cellShape, if_neg hempty] at hle
    obtain rfl := planned_seen hname hplan hseen
    rw [if_neg (by simpa using hempty)]
    obtain ⟨value, hvalue, hkind⟩ | hinfinite :=
      convertShaped_below path name row hle
    · left
      have hnull : value ≠ .null := by
        rintro rfl
        simp [JsonValue.kind] at hkind
      refine ⟨value, hvalue, by simp [hnull, hempty], fun _ => ?_⟩
      rw [hkind, kind_columnShape hcell hempty]
    · exact .inr hinfinite

/-- The member that stands for column `i` of a record. -/
structure Represents (file : Contents hasHeader) (i : Nat) (cell : String) (value : JsonValue) :
    Prop where
  null_iff : value = .null ↔ cell = ""
  kind : value ≠ .null → value.kind = some (kindOf (file.column i))

/-- A cell of column `i`, which is one of floats, that is a number and not finite. -/
structure Overflows (file : Contents hasHeader) (names record : List String) (i : Nat)
    (column cell : String) : Prop where
  named : names[i]? = some column
  placed : record[i]? = some cell
  float : file.columnShape i = .float
  infinite : NonFinite cell

theorem encodeRow_surveyed {record : List String} (hrecord : record ∈ file.records)
    (hlen : record.length = names.length) (row : Nat) :
    (∀ object, encodeRow isJson names (planColumns names file.shapes []) record path row =
        .ok object → object.map Prod.fst = names ∧
          ∀ (i : Nat) cell, record[i]? = some cell →
            ∃ name value, object[i]? = some (name, value) ∧ Represents file i cell value) ∧
      ∀ e, encodeRow isJson names (planColumns names file.shapes []) record path row = .error e →
        ∃ i column cell, e = .nonFinite path row column cell ∧
          Overflows file names record i column cell := by
  have hplans : (planColumns names file.shapes []).length = names.length := length_planColumns _ _ _
  constructor
  · intro object h
    refine ⟨?_, fun i cell hcell => ?_⟩
    · rw [encodeRow_keys hplans (le_of_eq hlen) h, hlen, List.take_length]
    · rw [encodeRow_mapM hplans (le_of_eq hlen)] at h
      obtain ⟨hi, -⟩ := List.getElem?_eq_some_iff.mp hcell
      obtain ⟨placed, hplaced⟩ : ∃ placed,
          ((names.zip (planColumns names file.shapes [])).zip record)[i]? = some placed := by
        apply Option.ne_none_iff_exists'.mp
        rw [ne_eq, List.getElem?_eq_none_iff, List.length_zip, List.length_zip, hplans]
        omega
      obtain ⟨member, hmember, hencoded⟩ := (mapM_getElem h).2 i placed hplaced
      obtain ⟨hname, hplan, hplacedCell⟩ := zipped_get hplaced
      obtain rfl := Option.some.inj (hplacedCell.symm.trans hcell)
      obtain ⟨value, hvalue, rfl⟩ := map_ok.mp hencoded
      obtain ⟨value', hvalue', hnull, hkind⟩ | ⟨herror, -⟩ :=
        encodeCell_surveyed isJson path row hname hplan
          ⟨record, hrecord, hcell⟩
      · obtain rfl := Except.ok.inj (hvalue.symm.trans hvalue')
        exact ⟨placed.1.1, value, hmember, hnull, hkind⟩
      · exact nomatch hvalue.symm.trans herror
  · intro e h
    rw [encodeRow_mapM hplans (le_of_eq hlen)] at h
    obtain ⟨placed, hmem, hencoded⟩ := mapM_error h
    obtain ⟨i, hplaced⟩ := List.mem_iff_getElem?.mp hmem
    obtain ⟨hname, hplan, hcell⟩ := zipped_get hplaced
    obtain ⟨value, hvalue, -⟩ | ⟨herror, hinfinite⟩ :=
      encodeCell_surveyed isJson path row hname hplan
        ⟨record, hrecord, hcell⟩
    · rw [hvalue] at hencoded
      exact nomatch hencoded
    · rw [herror] at hencoded
      exact ⟨i, placed.1.1, placed.2, (Except.error.inj hencoded).symm, hname, hcell, hinfinite.1,
        hinfinite.2⟩

end

/-- A file that both passes see alike, with unique names and without hints: one object
for each record, in order, under the header's names, null for the empty cells and of one
kind in each column; and the only refusal is a number of a float column that is not finite,
named by its place. -/
theorem stable_file_reads (isJson : String → Bool) (path : String) (file : Contents hasHeader)
    (hbroken : file.broken = none)
    (hnames : hasHeader = true → ∃ header, file.header = .ok header ∧ header.Nodup) :
    ∃ names, (if hasHeader then file.header = .ok names else names = synthesized file.shapes.length) ∧
      ((∃ objects, readCsv isJson path [] file file = .ok objects ∧
          objects.length = file.records.length ∧
          ∀ (k : Nat) record, file.records[k]? = some record →
            ∃ object, objects[k]? = some object ∧ object.map Prod.fst = names ∧
              ∀ (i : Nat) cell, record[i]? = some cell →
                ∃ name value, object[i]? = some (name, value) ∧ Represents file i cell value) ∨
        ∃ k i record column cell, file.records[k]? = some record ∧
          Overflows file names record i column cell ∧
          readCsv isJson path [] file file =
            .error (.nonFinite path (hasHeader.toNat + k + 1) column cell)) := by
  have hsurvey : ∃ names, survey path file = .ok (names, file.shapes) := by
    cases hasHeader with
    | true =>
      obtain ⟨header, hheader, hnodup⟩ := hnames rfl
      exact ⟨header, survey_ok.mpr ⟨hbroken, rfl, hheader, hnodup⟩⟩
    | false => exact ⟨_, survey_ok.mpr ⟨hbroken, rfl, rfl⟩⟩
  obtain ⟨names, hsurvey⟩ := hsurvey
  have hlen : ∀ record ∈ file.records, record.length = names.length := by
    intro record hrecord
    rw [file.even record hrecord, names_length hsurvey (List.ne_nil_of_mem hrecord)]
  refine ⟨names, ?_, ?_⟩
  · obtain ⟨-, -, h⟩ := survey_ok.mp hsurvey
    cases hasHeader with
    | true => exact h.1
    | false => exact h
  · simp only [readCsv, hsurvey, bind_ok_left, hbroken, encodeRows_mapM]
    cases hrows : (file.records.zipIdx hasHeader.toNat).mapM fun placed =>
        encodeRow isJson names (planColumns names file.shapes []) placed.1 path (placed.2 + 1) with
    | ok objects =>
      left
      refine ⟨objects, rfl, by simpa using mapM_length hrows, fun k record hrecord => ?_⟩
      obtain ⟨object, hobject, hencoded⟩ := (mapM_getElem hrows).2 k (record, hasHeader.toNat + k) (by
        simp [List.getElem?_zipIdx, hrecord])
      have hmem : record ∈ file.records := List.mem_of_getElem? hrecord
      obtain ⟨hkeys, hcells⟩ := (encodeRow_surveyed hmem (hlen record hmem) _).1 object hencoded
      exact ⟨object, hobject, hkeys, hcells⟩
    | error e =>
      right
      obtain ⟨⟨record, row⟩, hplaced, hencoded⟩ := mapM_error hrows
      obtain ⟨k, hk⟩ := List.mem_iff_getElem?.mp hplaced
      rw [List.getElem?_zipIdx] at hk
      obtain ⟨found, hfound, heq⟩ := Option.map_eq_some_iff.mp hk
      cases heq
      have hmem : record ∈ file.records := List.mem_of_getElem? hfound
      obtain ⟨i, column, cell, rfl, hoverflows⟩ :=
        (encodeRow_surveyed hmem (hlen record hmem) _).2 e hencoded
      exact ⟨k, i, record, column, cell, hfound, hoverflows, rfl⟩

def mixedSheet : Contents true :=
  .sheet ["id", "rate"] [["1", ""], ["02", "5"], ["3", "1.5"]] (by decide)

/-- None of its cells overflows. -/
theorem mixed_sheet_reads : mixedSheet.header = .ok ["id", "rate"] ∧
    ∃ objects, readCsv (fun _ => true) "f.csv" [] mixedSheet mixedSheet = .ok objects ∧
      ∀ (k : Nat) record, mixedSheet.records[k]? = some record →
        ∃ object, objects[k]? = some object ∧ object.map Prod.fst = ["id", "rate"] ∧
          ∀ (i : Nat) cell, record[i]? = some cell → ∃ name value,
            object[i]? = some (name, value) ∧ Represents mixedSheet i cell value := by
  have hfinite : ∀ record ∈ mixedSheet.records, ∀ cell ∈ record, ¬NonFinite cell := by
    intro record hrecord cell hcell
    rintro ⟨number, hnumber, hinfinite⟩
    have hparsed : ∀ record ∈ mixedSheet.records, ∀ cell ∈ record,
        (parseF64 cell.toList).bind Double.toJson = none → parseF64 cell.toList = none := by
      decide
    have hnone := hparsed record hrecord cell hcell (by rw [hnumber]; exact hinfinite)
    rw [hnumber] at hnone
    cases hnone
  obtain ⟨names, hheader, ⟨objects, hread, -, hobjects⟩ | hoverflows⟩ :=
    stable_file_reads (fun _ => true) "f.csv" mixedSheet rfl fun _ => ⟨_, rfl, by decide⟩
  · obtain rfl : names = ["id", "rate"] := (Except.ok.inj hheader).symm
    exact ⟨rfl, objects, hread, hobjects⟩
  · obtain ⟨k, i, record, column, cell, hrecord, hcell, -⟩ := hoverflows
    exact absurd hcell.infinite (hfinite record (List.mem_of_getElem? hrecord) cell
      (List.mem_of_getElem? hcell.placed))

end FileSource
