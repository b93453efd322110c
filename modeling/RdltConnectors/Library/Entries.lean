import Mathlib

/-!
# Maps in key order

A map as the list of its entries, which is walked in the order of the keys. Placing an entry
and removing one say what every lookup sees afterwards, whatever the list was; that the keys
stay in order matters only where all entries are walked.
-/
namespace Entries

variable {κ β : Type} [LinearOrder κ]

/-- The entry of a key is replaced, or placed in front of the first greater key. -/
def place (key : κ) (value : β) : List (κ × β) → List (κ × β)
  | [] => [(key, value)]
  | (k, v) :: rest =>
    if key < k then (key, value) :: (k, v) :: rest
    else if key = k then (key, value) :: rest
    else (k, v) :: place key value rest

def remove (key : κ) (entries : List (κ × β)) : List (κ × β) :=
  entries.filter fun entry => entry.1 ≠ key

/-- The keys ascend. -/
def Ascending (entries : List (κ × β)) : Prop := entries.Pairwise fun a b => a.1 < b.1

/-- The value of a key. -/
def find (key : κ) : List (κ × β) → Option β
  | [] => none
  | (k, v) :: rest => if key = k then some v else find key rest

variable {key other : κ} {value : β} {entries : List (κ × β)}

theorem find_eq_none_iff : find key entries = none ↔ ∀ entry ∈ entries, entry.1 ≠ key := by
  induction entries with
  | nil => simp [find]
  | cons first rest ih =>
    obtain ⟨k, v⟩ := first
    rw [find, List.forall_mem_cons, ← ih]
    by_cases h : key = k
    · simp [h]
    · simp [h, Ne.symm h]

theorem find_place_self (key : κ) (value : β) (entries : List (κ × β)) :
    find key (place key value entries) = some value := by
  induction entries with
  | nil => exact if_pos rfl
  | cons first rest ih =>
    obtain ⟨k, v⟩ := first
    rw [place]
    split
    · exact if_pos rfl
    · split
      · exact if_pos rfl
      · rename_i hne
        rw [find, if_neg hne, ih]

theorem find_place_ne (h : other ≠ key) (value : β) (entries : List (κ × β)) :
    find other (place key value entries) = find other entries := by
  induction entries with
  | nil => exact if_neg h
  | cons first rest ih =>
    obtain ⟨k, v⟩ := first
    rw [place]
    split
    · exact if_neg h
    · split
      · rename_i heq
        subst heq
        rw [find, find, if_neg h, if_neg h]
      · rw [find, find, ih]

theorem find_remove_self (key : κ) (entries : List (κ × β)) : find key (remove key entries) = none := by
  rw [find_eq_none_iff]
  intro entry hmem
  exact of_decide_eq_true (List.mem_filter.1 hmem).2

theorem find_remove_ne (h : other ≠ key) (entries : List (κ × β)) :
    find other (remove key entries) = find other entries := by
  induction entries with
  | nil => rfl
  | cons first rest ih =>
    obtain ⟨k, v⟩ := first
    rw [remove] at ih ⊢
    by_cases hk : k = key
    · subst hk
      rw [List.filter_cons_of_neg (by simp), ih, find, if_neg h]
    · rw [List.filter_cons_of_pos (by simpa using hk), find, find, ih]

/-- Removing an entry that is there leaves fewer. -/
theorem length_remove_lt (h : find key entries ≠ none) :
    (remove key entries).length < entries.length := by
  have hmem : ∃ entry ∈ entries, entry.1 = key := by
    by_contra hnone
    exact h (find_eq_none_iff.2 fun entry hentry hkey => hnone ⟨entry, hentry, hkey⟩)
  obtain ⟨entry, hentry, hkey⟩ := hmem
  exact List.length_filter_lt_length_iff_exists.2 ⟨entry, hentry, by simpa using hkey⟩

theorem find_ne_none_of_mem {entry : κ × β} (h : entry ∈ entries) :
    find entry.1 entries ≠ none := fun hnone => find_eq_none_iff.1 hnone entry h rfl

theorem exists_find_iff : (∃ v, find key entries = some v) ↔ key ∈ entries.map Prod.fst := by
  rw [← Option.ne_none_iff_exists', Ne, find_eq_none_iff, List.mem_map]
  push Not
  exact Iff.rfl

/-! ## Walking all entries -/

theorem mem_place {entry : κ × β} (h : entry ∈ place key value entries) :
    entry = (key, value) ∨ entry ∈ entries := by
  induction entries with
  | nil => exact .inl (List.mem_singleton.1 h)
  | cons first rest ih =>
    obtain ⟨k, v⟩ := first
    rw [place] at h
    split at h
    · exact List.mem_cons.1 h
    · split at h
      · obtain rfl | hrest := List.mem_cons.1 h
        · exact .inl rfl
        · exact .inr (List.mem_cons_of_mem _ hrest)
      · obtain rfl | hrest := List.mem_cons.1 h
        · exact .inr List.mem_cons_self
        · exact (ih hrest).imp_right (List.mem_cons_of_mem _)

theorem ascending_place (key : κ) (value : β) (h : Ascending entries) :
    Ascending (place key value entries) := by
  induction entries with
  | nil => exact List.pairwise_singleton _ _
  | cons first rest ih =>
    obtain ⟨k, v⟩ := first
    obtain ⟨hfirst, hrest⟩ := List.pairwise_cons.1 h
    rw [place]
    split
    · rename_i hlt
      refine List.pairwise_cons.2 ⟨fun entry hentry => ?_, h⟩
      obtain rfl | hin := List.mem_cons.1 hentry
      · exact hlt
      · exact lt_trans hlt (hfirst entry hin)
    · split
      · rename_i heq
        subst heq
        exact List.pairwise_cons.2 ⟨hfirst, hrest⟩
      · rename_i hnlt hne
        refine List.pairwise_cons.2 ⟨fun entry hentry => ?_, ih hrest⟩
        obtain rfl | hin := mem_place hentry
        · exact lt_of_le_of_ne (not_lt.1 hnlt) (Ne.symm hne)
        · exact hfirst entry hin

theorem find_of_mem {entry : κ × β} (h : Ascending entries) (hmem : entry ∈ entries) :
    find entry.1 entries = some entry.2 := by
  induction entries with
  | nil => cases hmem
  | cons first rest ih =>
    obtain ⟨hfirst, hrest⟩ := List.pairwise_cons.1 h
    obtain rfl | hin := List.mem_cons.1 hmem
    · exact if_pos rfl
    · exact (if_neg (ne_of_gt (hfirst entry hin))).trans (ih hrest hin)

/-- The order is one of the keys. -/
theorem ascending_iff : Ascending entries ↔ (entries.map Prod.fst).Pairwise (· < ·) :=
  List.pairwise_map.symm

/-- Each key has one entry: what a walk picks for a key is what a lookup finds. -/
theorem flatMap_of_ascending {γ : Type} (f : β → List γ) (key : κ) (h : Ascending entries) :
    (entries.flatMap fun entry => if entry.1 = key then f entry.2 else []) =
      ((find key entries).map f).getD [] := by
  induction entries with
  | nil => rfl
  | cons first rest ih =>
    obtain ⟨k, v⟩ := first
    obtain ⟨hfirst, hrest⟩ := List.pairwise_cons.1 h
    rw [List.flatMap_cons, ih hrest, find]
    by_cases hk : k = key
    · subst hk
      have hnone : find k rest = none :=
        find_eq_none_iff.2 fun entry hentry => (ne_of_lt (hfirst entry hentry)).symm
      simp [hnone]
    · rw [if_neg hk, if_neg (Ne.symm hk), List.nil_append]

end Entries
