import Mathlib.Data.List.Sort

/-!
# Dropping the oldest

A collection is cut by dropping its oldest elements, the order being that of age. What
is dropped is older than everything kept, so an element with few younger ones stays.
-/
namespace Surplus

variable {α : Type} [LinearOrder α]

/-- The `count` oldest. -/
def oldest (count : Nat) (l : List α) : List α := (l.insertionSort (· ≤ ·)).take count

theorem mem_of_mem_oldest {count : Nat} {l : List α} {x : α} (h : x ∈ oldest count l) : x ∈ l :=
  (List.perm_insertionSort (· ≤ ·) l).mem_iff.1 (List.mem_of_mem_take h)

/-- Whatever is dropped, all that is kept is younger. -/
theorem younger_of_mem_oldest {count : Nat} {l : List α} {x : α} (hnodup : l.Nodup)
    (h : x ∈ oldest count l) :
    ∃ kept : List α, kept.Nodup ∧ kept.length = l.length - count ∧
      ∀ y ∈ kept, y ∈ l ∧ x < y := by
  let sorted := l.insertionSort (· ≤ ·)
  have hperm : sorted.Perm l := List.perm_insertionSort (· ≤ ·) l
  have hsplit : sorted = sorted.take count ++ sorted.drop count :=
    (List.take_append_drop count sorted).symm
  have hsorted : (sorted.take count ++ sorted.drop count).Pairwise (· ≤ ·) :=
    hsplit ▸ List.pairwise_insertionSort (· ≤ ·) l
  have hdistinct : (sorted.take count ++ sorted.drop count).Nodup :=
    hsplit ▸ hperm.nodup_iff.2 hnodup
  obtain ⟨-, -, hle⟩ := List.pairwise_append.1 hsorted
  obtain ⟨-, hkept, hne⟩ := List.nodup_append.1 hdistinct
  have hlength : (sorted.drop count).length = l.length - count := by
    rw [List.length_drop, hperm.length_eq]
  have hyounger : ∀ y ∈ sorted.drop count, y ∈ l ∧ x < y := fun y hy =>
    ⟨hperm.mem_iff.1 (List.mem_of_mem_drop hy), lt_of_le_of_ne (hle x h y hy) (hne x h y hy)⟩
  exact ⟨sorted.drop count, hkept, hlength, hyounger⟩

end Surplus
