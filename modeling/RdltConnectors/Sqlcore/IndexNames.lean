import RdltConnectors.Library.Separator
import RdltConnectors.Sqlcore.Ensure

/-!
# Names of indexes

The name of an index is a hash of its table and its columns, behind a prefix that says whether
it is unique. The columns are joined by commas and stand behind a colon, and either can be part
of a name.
-/
namespace Sqlcore.Ensure

open Separator

/-- What is hashed. -/
def indexText (table : String) (columns : List String) : String :=
  table ++ ":" ++ ",".intercalate columns

theorem indexText_toList (table : String) (columns : List String) :
    (indexText table columns).toList =
      table.toList ++ ':' :: [','].intercalate (columns.map String.toList) := by
  simp [indexText]

/-- The columns that are read behind a colon that ends what came before. -/
def behindColon (front : List Char) : List (List Char) → List (List Char)
  | [] => [front ++ [':']]
  | column :: rest => (front ++ ':' :: column) :: rest

theorem joined_behindColon (front : List Char) (columns : List (List Char)) :
    [','].intercalate (behindColon front columns) = front ++ ':' :: [','].intercalate columns := by
  cases columns with
  | nil => simp [behindColon]
  | cons column rest =>
    cases rest with
    | nil => simp [behindColon]
    | cons next rest => simp [behindColon]

/-- The columns' names, cut at every comma that is in them. -/
def namePieces (columns : List String) : List (List Char) := pieces ',' (columns.map String.toList)

/-- The second table's name goes on behind the first's with a colon, and the rest of it is found
at the start of the first's columns. -/
def Spills (table : String) (columns : List String) (table' : String) (columns' : List String) : Prop :=
  ∃ more, table'.toList = table.toList ++ ':' :: more ∧
    namePieces columns = pieces ',' (behindColon more (columns'.map String.toList))

/-- Two indexes that are taken for one another. -/
def Mistaken (table : String) (columns : List String) (table' : String) (columns' : List String) : Prop :=
  (table = table' ∧ columns ≠ columns' ∧ namePieces columns = namePieces columns') ∨
    Spills table columns table' columns' ∨ Spills table' columns' table columns

/-! ## When two texts are one -/

theorem spills_iff {table table' : String} {columns columns' : List String} :
    Spills table columns table' columns' ↔
      ∃ more, table'.toList = table.toList ++ ':' :: more ∧
        [','].intercalate (columns.map String.toList) =
          more ++ ':' :: [','].intercalate (columns'.map String.toList) := by
  constructor
  · rintro ⟨more, htable, hcolumns⟩
    exact ⟨more, htable, by rw [← joined_behindColon]; exact joined_inj.mpr hcolumns⟩
  · rintro ⟨more, htable, hcolumns⟩
    rw [← joined_behindColon] at hcolumns
    exact ⟨more, htable, joined_inj.mp hcolumns⟩

/-- The texts of two indexes are the same for the same index and for a mistaken one. -/
theorem indexText_eq_iff {table table' : String} {columns columns' : List String} :
    indexText table columns = indexText table' columns' ↔
      (table = table' ∧ columns = columns') ∨ Mistaken table columns table' columns' := by
  have hlists : indexText table columns = indexText table' columns' ↔
      table.toList ++ ':' :: [','].intercalate (columns.map String.toList) =
        table'.toList ++ ':' :: [','].intercalate (columns'.map String.toList) := by
    rw [← String.toList_inj, indexText_toList, indexText_toList]
  rw [hlists, append_separator_cases, ← spills_iff, ← spills_iff, String.toList_inj, joined_inj]
  constructor
  · rintro (⟨htable, hcolumns⟩ | hspills)
    · by_cases hsame : columns = columns'
      · exact .inl ⟨htable, hsame⟩
      · exact .inr (.inl ⟨htable, hsame, hcolumns⟩)
    · exact .inr (.inr hspills)
  · rintro (⟨rfl, rfl⟩ | ⟨htable, -, hcolumns⟩ | hspills)
    · exact .inl ⟨rfl, rfl⟩
    · exact .inl ⟨htable, hcolumns⟩
    · exact .inr hspills

/-- A table's name is not one that it goes on to be. -/
theorem table_ne_of_spills {table table' : String} {columns columns' : List String}
    (h : Spills table columns table' columns') : table ≠ table' := by
  rintro rfl
  obtain ⟨more, htable, -⟩ := h
  have hlength := congrArg List.length htable
  rw [List.length_append, List.length_cons] at hlength
  omega

theorem not_mistaken_self (table : String) (columns : List String) :
    ¬Mistaken table columns table columns := by
  rintro (⟨-, hne, -⟩ | hspills | hspills)
  · exact hne rfl
  · exact table_ne_of_spills hspills rfl
  · exact table_ne_of_spills hspills rfl

theorem indexName_eq_iff {identHash : String → Nat → String}
    (hhash : Function.Injective fun text => identHash text 16) {table table' : String}
    {spec spec' : IndexSpec} :
    indexName identHash table spec = indexName identHash table' spec' ↔
      spec.unique = spec'.unique ∧ indexText table spec.columns = indexText table' spec'.columns := by
  have hname (table : String) (spec : IndexSpec) : (indexName identHash table spec).toList =
      (if spec.unique then "rdlt_ux" else "rdlt_ix").toList ++
        ('_' :: (identHash (indexText table spec.columns) 16).toList) := by
    simp [indexName, indexText, String.append_assoc]
  have hlength (unique : Bool) : (if unique then "rdlt_ux" else "rdlt_ix").toList.length = 7 := by
    cases unique <;> rfl
  rw [← String.toList_inj, hname, hname]
  constructor
  · intro h
    obtain ⟨hfront, hhashed⟩ := List.append_inj h ((hlength _).trans (hlength _).symm)
    refine ⟨?_, hhash (String.toList_inj.mp (List.cons.inj hhashed).2)⟩
    revert hfront
    cases spec.unique <;> cases spec'.unique <;> decide
  · rintro ⟨hunique, htext⟩
    rw [hunique, htext]

/-- An index's name is its own unless another index is mistaken for it. -/
theorem index_name_identifies_iff {identHash : String → Nat → String}
    (hhash : Function.Injective fun text => identHash text 16) (table table' : String)
    (spec spec' : IndexSpec) :
    (indexName identHash table spec = indexName identHash table' spec' →
        table = table' ∧ spec = spec') ↔
      ¬(spec.unique = spec'.unique ∧ Mistaken table spec.columns table' spec'.columns) := by
  rw [indexName_eq_iff hhash, indexText_eq_iff]
  constructor
  · rintro h ⟨hunique, hmistaken⟩
    obtain ⟨rfl, rfl⟩ := h ⟨hunique, .inr hmistaken⟩
    exact not_mistaken_self table spec.columns hmistaken
  · rintro h ⟨hunique, ⟨rfl, hcolumns⟩ | hmistaken⟩
    · obtain ⟨unique, columns⟩ := spec
      obtain ⟨unique', columns'⟩ := spec'
      obtain rfl : unique = unique' := hunique
      obtain rfl : columns = columns' := hcolumns
      exact ⟨rfl, rfl⟩
    · exact absurd ⟨hunique, hmistaken⟩ h

theorem index_name_identifies_iff_sample :
    (indexName (fun text _ => text) "t" ⟨true, ["a", "b"]⟩ =
        indexName (fun text _ => text) "t" ⟨true, ["b", "a"]⟩ →
      "t" = "t" ∧ (⟨true, ["a", "b"]⟩ : IndexSpec) = ⟨true, ["b", "a"]⟩) ↔
      ¬(true = true ∧ Mistaken "t" ["a", "b"] "t" ["b", "a"]) :=
  index_name_identifies_iff (fun _ _ h => h) "t" "t" _ _

/-- One column whose name holds a comma, and two columns; a colon in a table's name. -/
theorem commas_are_not_told_apart :
    let identHash : String → Nat → String := fun text _ => text
    (Function.Injective fun text => identHash text 16) ∧
      (indexName identHash "t" ⟨true, ["a,b"]⟩ = indexName identHash "t" ⟨true, ["a", "b"]⟩ ∧
        (⟨true, ["a,b"]⟩ : IndexSpec) ≠ ⟨true, ["a", "b"]⟩) ∧
      indexName identHash "t:a" ⟨false, ["b"]⟩ = indexName identHash "t" ⟨false, ["a:b"]⟩ :=
  ⟨fun _ _ h => h, ⟨by decide, by decide⟩, by decide⟩

end Sqlcore.Ensure
