import Mathlib.Data.List.Sort

/-!
# Reading page by page

A store is asked for the rows that lie behind a position, in the order of their keys, and
gives out so many at a time; the key of the last row given out is the next position. What
a page leaves out lies behind its last row, so as long as the position asked with is not
past that row nothing is skipped, and when it is that row nothing is read twice.
-/
namespace Keyset

variable {ρ κ : Type} [LinearOrder κ]

/-- The rows that are kept, in the order of their keys. -/
def select (key : ρ → κ) (keep : ρ → Bool) (rows : List ρ) : List ρ :=
  (rows.filter keep).insertionSort fun a b => key a ≤ key b

/-- No two rows share a key. -/
def Distinct (key : ρ → κ) (rows : List ρ) : Prop := (rows.map key).Nodup

/-- The keys go up from each row to every later one. -/
def Rising (key : ρ → κ) (rows : List ρ) : Prop := rows.Pairwise fun a b => key a < key b

variable {key : ρ → κ} {keep : ρ → Bool} {rows : List ρ}

theorem mem_select {row : ρ} : row ∈ select key keep rows ↔ row ∈ rows ∧ keep row = true := by
  rw [select, (List.perm_insertionSort _ _).mem_iff, List.mem_filter]

theorem select_congr {keep' : ρ → Bool} (h : ∀ row ∈ rows, keep row = keep' row) :
    select key keep rows = select key keep' rows := by
  rw [select, List.filter_congr h]
  rfl

theorem select_rising (h : Distinct key rows) : Rising key (select key keep rows) := by
  have htotal : Std.Total fun a b : ρ => key a ≤ key b := ⟨fun a b => le_total (key a) (key b)⟩
  have htrans : IsTrans ρ fun a b => key a ≤ key b := ⟨fun _ _ _ => le_trans⟩
  have hsorted := List.pairwise_insertionSort (fun a b => key a ≤ key b) (rows.filter keep)
  have hkept : ((rows.filter keep).map key).Nodup := h.sublist (List.filter_sublist.map key)
  have hdistinct : (select key keep rows).Pairwise fun a b => key a ≠ key b :=
    List.pairwise_map.mp
      ((((List.perm_insertionSort _ _).map key).nodup_iff).mpr hkept)
  exact hsorted.imp₂ (fun _ _ hle hne => lt_of_le_of_ne hle hne) hdistinct

theorem Rising.nodup (h : Rising key rows) : rows.Nodup := by
  apply List.Pairwise.imp _ h
  rintro a b hlt rfl
  exact lt_irrefl _ hlt

/-- What a page leaves out lies behind the page's last row. -/
theorem behind_last (h : Distinct key rows) {count : Nat} {row last : ρ}
    (hlast : ((select key keep rows).take count).getLast? = some last)
    (hrow : row ∈ select key keep rows) (hout : row ∉ (select key keep rows).take count) :
    key last < key row := by
  have hrising : Rising key (select key keep rows) := select_rising h
  rw [← List.take_append_drop count (select key keep rows)] at hrising hrow
  obtain ⟨-, -, hlt⟩ := List.pairwise_append.mp hrising
  obtain hin | hbehind := List.mem_append.mp hrow
  · exact absurd hin hout
  · exact hlt last (List.mem_of_getLast? hlast) row hbehind

/-- What lies behind the last row lies behind them all. -/
theorem Rising.behind_of_last {before : List ρ} {row : ρ} (h : Rising key before)
    (hlast : ∀ last, before.getLast? = some last → key last < key row) :
    ∀ other ∈ before, key other < key row := by
  intro other hother
  cases hend : before.getLast? with
  | none => simp [List.getLast?_eq_none_iff.mp hend] at hother
  | some last =>
    apply lt_of_le_of_lt _ (hlast last hend)
    obtain ⟨front, rfl⟩ := List.getLast?_eq_some_iff.mp hend
    obtain ⟨-, -, hlt⟩ := List.pairwise_append.mp h
    obtain hfront | hsame := List.mem_append.mp hother
    · exact le_of_lt (hlt other hfront last (by simp))
    · rw [List.mem_singleton.mp hsame]

/-- Pages that go up, each behind the last row of those before, go up together. -/
theorem Rising.append {before page : List ρ} (hbefore : Rising key before)
    (hpage : Rising key page)
    (hpast : ∀ last, before.getLast? = some last → ∀ row ∈ page, key last < key row) :
    Rising key (before ++ page) := by
  refine List.pairwise_append.mpr ⟨hbefore, hpage, ?_⟩
  intro row hrow next hnext
  exact hbefore.behind_of_last (fun last hlast => hpast last hlast next hnext) row hrow

/-- What was read is a beginning of the rows in key order. -/
structure Beginning (key : ρ → κ) (read rows : List ρ) : Prop where
  rising : Rising key read
  sub : ∀ row ∈ read, row ∈ rows
  behind : ∀ row ∈ rows, row ∈ read ∨ ∀ before ∈ read, key before < key row

namespace Beginning

variable {read : List ρ}

theorem nil : Beginning key [] rows where
  rising := List.Pairwise.nil
  sub _ h := nomatch h
  behind _ _ := .inr fun _ h => nomatch h

/-- A part of it from the front is one too. -/
theorem of_append {front back : List ρ} (h : Beginning key (front ++ back) rows) :
    Beginning key front rows where
  rising := (List.pairwise_append.mp h.rising).1
  sub row hrow := h.sub row (List.mem_append_left _ hrow)
  behind row hrow := by
    obtain hread | hbehind := h.behind row hrow
    · obtain hfront | hback := List.mem_append.mp hread
      · exact .inl hfront
      · exact .inr fun before hbefore =>
          (List.pairwise_append.mp h.rising).2.2 before hbefore row hback
    · exact .inr fun before hbefore => hbehind before (List.mem_append_left _ hbefore)

/-- A row that lies behind all that was read may be added. -/
theorem insert (h : Beginning key read rows) {row : ρ} (hrow : ∀ before ∈ read, key before < key row) :
    Beginning key read (rows ++ [row]) where
  rising := h.rising
  sub before hbefore := List.mem_append_left _ (h.sub before hbefore)
  behind other hother := by
    obtain hin | hnew := List.mem_append.mp hother
    · exact h.behind other hin
    · rw [List.mem_singleton.mp hnew]
      exact .inr hrow

theorem not_mem_iff (h : Beginning key read rows) {row last : ρ} (hrow : row ∈ rows)
    (hlast : read.getLast? = some last) : row ∉ read ↔ key last < key row := by
  constructor
  · intro hout
    obtain hin | hbehind := h.behind row hrow
    · exact absurd hin hout
    · exact hbehind last (List.mem_of_getLast? hlast)
  · intro hlt hin
    obtain ⟨front, rfl⟩ := List.getLast?_eq_some_iff.mp hlast
    obtain ⟨-, -, hfront⟩ := List.pairwise_append.mp h.rising
    obtain hmem | hsame := List.mem_append.mp hin
    · exact lt_asymm hlt (hfront row hmem last (by simp))
    · rw [List.mem_singleton.mp hsame] at hlt
      exact lt_irrefl _ hlt

/-- A page of exactly the rows not yet read makes a longer beginning. -/
theorem page (h : Beginning key read rows) (hdistinct : Distinct key rows)
    (hkeep : ∀ row ∈ rows, keep row = true ↔ row ∉ read) (count : Nat) :
    Beginning key (read ++ (select key keep rows).take count) rows := by
  have hselect : ∀ row, row ∈ select key keep rows ↔ row ∈ rows ∧ row ∉ read := fun row => by
    rw [mem_select]
    exact and_congr_right fun hrow => hkeep row hrow
  have hpage : ∀ row ∈ (select key keep rows).take count, row ∈ rows ∧ row ∉ read :=
    fun row hrow => (hselect row).mp (List.mem_of_mem_take hrow)
  have hrising : Rising key (select key keep rows) := select_rising hdistinct
  have hpast : ∀ last, read.getLast? = some last →
      ∀ row ∈ (select key keep rows).take count, key last < key row := fun last hlast row hrow =>
    (h.not_mem_iff (hpage row hrow).1 hlast).mp (hpage row hrow).2
  refine ⟨h.rising.append (hrising.sublist (List.take_sublist _ _)) hpast, ?_, ?_⟩
  · intro row hrow
    obtain hread | hnew := List.mem_append.mp hrow
    · exact h.sub row hread
    · exact (hpage row hnew).1
  · intro row hrow
    by_cases hread : row ∈ read
    · exact .inl (List.mem_append_left _ hread)
    by_cases hnew : row ∈ (select key keep rows).take count
    · exact .inl (List.mem_append_right _ hnew)
    apply Or.inr
    intro before hbefore
    obtain hold | hfresh := List.mem_append.mp hbefore
    · obtain hin | hbehind := h.behind row hrow
      · exact absurd hin hread
      · exact hbehind before hold
    · rw [← List.take_append_drop count (select key keep rows)] at hrising
      have hmem : row ∈ select key keep rows := (hselect row).mpr ⟨hrow, hread⟩
      rw [← List.take_append_drop count (select key keep rows), List.mem_append] at hmem
      exact (List.pairwise_append.mp hrising).2.2 before hfresh row (hmem.resolve_left hnew)

end Beginning

/-- A page with room left holds all that was asked for. -/
theorem take_of_short {count : Nat} (h : ((select key keep rows).take count).length < count) :
    (select key keep rows).take count = select key keep rows := by
  rw [List.length_take] at h
  exact List.take_of_length_le (by omega)

end Keyset
