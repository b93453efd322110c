import Mathlib.Data.List.Basic

/-!
# Cutting a stream into terminated pieces

A stream of symbols arrives a piece at a time and is handed on in pieces that
end on a terminator. Two facts about lists carry that: where the last terminator
of a list is, and how the last so many symbols of everything handed on so far
are kept while further pieces arrive.
-/
namespace Framing

variable {α : Type}

/-- The place of the last occurrence. -/
def lastIndexOf [DecidableEq α] (mark : α) : List α → Option Nat
  | [] => none
  | x :: rest =>
    match lastIndexOf mark rest with
    | some i => some (i + 1)
    | none => if x = mark then some 0 else none

theorem lastIndexOf_none [DecidableEq α] {mark : α} {xs : List α} :
    lastIndexOf mark xs = none ↔ mark ∉ xs := by
  induction xs with
  | nil => simp [lastIndexOf]
  | cons x rest ih =>
    simp only [lastIndexOf, List.mem_cons, not_or]
    cases hrest : lastIndexOf mark rest with
    | some i =>
      have hmem : mark ∈ rest := by
        by_contra hnot
        simp [ih.mpr hnot] at hrest
      simp [hmem]
    | none =>
      have hnot : mark ∉ rest := ih.mp hrest
      by_cases hx : x = mark
      · simp [hx]
      · simp [hx, hnot, Ne.symm hx]

/-- Behind the last occurrence there is no other, and up to it the list ends on it. -/
theorem lastIndexOf_some [DecidableEq α] {mark : α} {xs : List α} {i : Nat}
    (h : lastIndexOf mark xs = some i) :
    (xs.take (i + 1)).getLast? = some mark ∧ mark ∉ xs.drop (i + 1) := by
  induction xs generalizing i with
  | nil => exact nomatch h
  | cons x rest ih =>
    simp only [lastIndexOf] at h
    cases hrest : lastIndexOf mark rest with
    | some j =>
      simp only [hrest, Option.some.injEq] at h
      subst h
      obtain ⟨hlast, hnot⟩ := ih hrest
      constructor
      · rw [List.take_succ_cons, List.getLast?_cons, hlast]
        rfl
      · simpa using hnot
    | none =>
      have hnot : mark ∉ rest := lastIndexOf_none.mp hrest
      by_cases hx : x = mark
      · simp only [hrest, hx, if_true, Option.some.injEq] at h
        subst h
        simpa [hx] using hnot
      · simp [hrest, hx] at h

/-- Every list that ends, ends on the terminator. -/
def EndsOn (mark : α) (xs : List α) : Prop := ∀ x, xs.getLast? = some x → x = mark

theorem EndsOn.nil (mark : α) : EndsOn mark [] := fun _ h => nomatch h

theorem EndsOn.append {mark : α} {xs ys : List α} (hx : EndsOn mark xs) (hy : EndsOn mark ys) :
    EndsOn mark (xs ++ ys) := by
  intro x hlast
  cases hend : ys.getLast? with
  | none =>
    rw [List.getLast?_eq_none_iff.mp hend, List.append_nil] at hlast
    exact hx x hlast
  | some y =>
    rw [List.getLast?_append, hend] at hlast
    exact hy x (by simpa [hend] using hlast)

/-- A list that ends on the terminator has no unterminated end. -/
theorem EndsOn.held_nil {mark : α} {xs held : List α} (h : EndsOn mark (xs ++ held))
    (hnot : mark ∉ held) : held = [] := by
  cases hend : held.getLast? with
  | none => exact List.getLast?_eq_none_iff.mp hend
  | some x =>
    have hx : x = mark := h x (by simp [hend])
    exact absurd (hx ▸ List.mem_of_getLast? hend) hnot

/-! ## The last so many symbols -/

/-- The last `n` symbols, or all of them when there are fewer. -/
def lastOf (n : Nat) (xs : List α) : List α := xs.drop (xs.length - n)

@[simp] theorem length_lastOf (n : Nat) (xs : List α) : (lastOf n xs).length = min xs.length n := by
  simp only [lastOf, List.length_drop]
  omega

/-- Fold a piece into the window kept so far. -/
def roll (n : Nat) (window piece : List α) : List α :=
  if piece.length ≥ n then piece.drop (piece.length - n)
  else window.drop (window.length - (n - piece.length)) ++ piece

/-- The rolling window is the window of everything folded in. -/
theorem roll_lastOf (n : Nat) (xs piece : List α) :
    roll n (lastOf n xs) piece = lastOf n (xs ++ piece) := by
  unfold roll
  by_cases hlong : piece.length ≥ n
  · have hpast : xs.drop (xs.length + piece.length - n) = [] :=
      List.drop_eq_nil_of_le (by omega)
    rw [if_pos hlong, lastOf, List.length_append, List.drop_append, hpast, List.nil_append]
    congr 1
    omega
  · rw [if_neg hlong, length_lastOf, lastOf, lastOf, List.drop_drop, List.length_append,
      List.drop_append_of_le_length (by omega)]
    congr 2
    omega

end Framing
