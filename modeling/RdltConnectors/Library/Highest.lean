import Mathlib.Data.List.Perm.Basic
import Mathlib.Order.MinMax

/-!
# The highest value seen

A running maximum that may have seen nothing yet. It never falls, it does not
depend on the order in which the values come, and past its start it is always
one of them.
-/
namespace Highest

variable {α : Type} [LinearOrder α]

def raise (highest : Option α) (a : α) : Option α :=
  match highest with
  | none => some a
  | some h => if h < a then some a else some h

def raiseAll (highest : Option α) (values : List α) : Option α := values.foldl raise highest

/-- `a` is not above the highest value. -/
def Covers (highest : Option α) (a : α) : Prop := ∃ h, highest = some h ∧ a ≤ h

@[simp] theorem raise_none (a : α) : raise none a = some a := rfl

@[simp] theorem raise_some (h a : α) : raise (some h) a = some (max h a) := by
  by_cases hlt : h < a
  · simp [raise, hlt, max_eq_right (le_of_lt hlt)]
  · simp [raise, hlt, max_eq_left (not_lt.mp hlt)]

@[simp] theorem raiseAll_nil (highest : Option α) : raiseAll highest [] = highest := rfl

@[simp] theorem raiseAll_cons (highest : Option α) (a : α) (values : List α) :
    raiseAll highest (a :: values) = raiseAll (raise highest a) values := rfl

@[simp] theorem raiseAll_append (highest : Option α) (first second : List α) :
    raiseAll highest (first ++ second) = raiseAll (raiseAll highest first) second := by
  simp [raiseAll]

theorem raise_comm (highest : Option α) (a b : α) :
    raise (raise highest a) b = raise (raise highest b) a := by
  cases highest with
  | none => simp [max_comm]
  | some h => simp [max_right_comm]

/-- The order in which the values come does not matter. -/
theorem raiseAll_perm {first second : List α} (h : first.Perm second) (highest : Option α) :
    raiseAll highest first = raiseAll highest second := by
  have : RightCommutative (raise : Option α → α → Option α) := ⟨raise_comm⟩
  exact h.foldl_eq highest

theorem covers_raise (highest : Option α) (a : α) : Covers (raise highest a) a := by
  cases highest with
  | none => exact ⟨a, rfl, le_refl a⟩
  | some h => exact ⟨max h a, raise_some h a, le_max_right h a⟩

theorem Covers.raise {highest : Option α} {a : α} (h : Covers highest a) (b : α) :
    Covers (raise highest b) a := by
  obtain ⟨top, rfl, hle⟩ := h
  exact ⟨max top b, raise_some top b, le_trans hle (le_max_left top b)⟩

theorem Covers.raiseAll {highest : Option α} {a : α} (h : Covers highest a) (values : List α) :
    Covers (raiseAll highest values) a := by
  induction values generalizing highest with
  | nil => exact h
  | cons b values ih => exact ih (h.raise b)

theorem covers_raiseAll (highest : Option α) {values : List α} {a : α} (h : a ∈ values) :
    Covers (raiseAll highest values) a := by
  induction values generalizing highest with
  | nil => cases h
  | cons b values ih =>
    cases h with
    | head => exact (covers_raise highest a).raiseAll values
    | tail _ h => exact ih (Highest.raise highest b) h

/-- The highest value is the one it started from or one of those that came. -/
theorem raiseAll_attained {highest : Option α} {values : List α} {top : α}
    (h : raiseAll highest values = some top) : highest = some top ∨ top ∈ values := by
  induction values generalizing highest with
  | nil => exact .inl h
  | cons b values ih =>
    cases ih h with
    | inr hin => exact .inr (List.mem_cons_of_mem b hin)
    | inl hraise =>
      cases highest with
      | none => exact .inr (by simp_all)
      | some start =>
        rw [raise_some, Option.some.injEq] at hraise
        cases max_choice start b with
        | inl hstart => exact .inl (by rw [← hraise, hstart])
        | inr hb => exact .inr (by rw [← hraise, hb]; exact List.mem_cons_self)

theorem raiseAll_isSome (highest : Option α) {values : List α}
    (h : highest.isSome ∨ values ≠ []) : (raiseAll highest values).isSome := by
  cases values with
  | nil => simpa using h
  | cons a values =>
    have hin : a ∈ a :: values := List.mem_cons_self
    obtain ⟨top, htop, -⟩ := covers_raiseAll highest hin
    simp [htop]

end Highest
