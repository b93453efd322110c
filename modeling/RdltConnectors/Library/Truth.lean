import Mathlib.Data.List.Basic

/-!
# Three-valued conditions

A condition over cells that may be NULL is true, false or unknown; a WHERE clause
keeps what is true. Here are the connectives, the comparisons of cells and of
tuples, and membership in a list of tuples, each with what it takes to be true.
-/
namespace Sql

/-- The value of a condition, `none` when it is unknown. -/
abbrev Truth := Option Bool

/-- What a WHERE clause asks of a condition. -/
def Truth.holds (t : Truth) : Bool := t.getD false

@[simp] theorem holds_some (b : Bool) : Truth.holds (some b) = b := rfl
@[simp] theorem holds_none : Truth.holds none = false := rfl

def Truth.not (t : Truth) : Truth := t.map Bool.not

def Truth.and : Truth → Truth → Truth
  | some false, _ => some false
  | _, some false => some false
  | some true, some true => some true
  | _, _ => none

def Truth.or : Truth → Truth → Truth
  | some true, _ => some true
  | _, some true => some true
  | some false, some false => some false
  | _, _ => none

@[simp] theorem holds_and (a b : Truth) : (a.and b).holds = (a.holds && b.holds) := by
  rcases a with _ | _ | _ <;> rcases b with _ | _ | _ <;> rfl

@[simp] theorem holds_or (a b : Truth) : (a.or b).holds = (a.holds || b.holds) := by
  rcases a with _ | _ | _ <;> rcases b with _ | _ | _ <;> rfl

/-- A negation is true of what is known to be false. -/
theorem holds_not {t : Truth} : t.not.holds = true ↔ t = some false := by
  rcases t with _ | _ | _ <;> simp [Truth.not]

theorem or_eq_false {a b : Truth} : a.or b = some false ↔ a = some false ∧ b = some false := by
  rcases a with _ | _ | _ <;> rcases b with _ | _ | _ <;> simp [Truth.or]

theorem and_eq_false {a b : Truth} : a.and b = some false ↔ a = some false ∨ b = some false := by
  rcases a with _ | _ | _ <;> rcases b with _ | _ | _ <;> simp [Truth.and]

/-- The conjunction of the conditions a list gives. -/
def all {α : Type} (xs : List α) (cond : α → Truth) : Truth :=
  xs.foldr (fun x t => (cond x).and t) (some true)

/-- Their disjunction. -/
def any {α : Type} (xs : List α) (cond : α → Truth) : Truth :=
  xs.foldr (fun x t => (cond x).or t) (some false)

variable {α V : Type} {xs : List α} {cond : α → Truth}

theorem holds_all : (all xs cond).holds = true ↔ ∀ x ∈ xs, (cond x).holds = true := by
  induction xs with
  | nil => simp [all]
  | cons x xs ih =>
    rw [all, List.foldr_cons, ← all, holds_and, Bool.and_eq_true, ih, List.forall_mem_cons]

theorem holds_any : (any xs cond).holds = true ↔ ∃ x ∈ xs, (cond x).holds = true := by
  induction xs with
  | nil => simp [any]
  | cons x xs ih =>
    rw [any, List.foldr_cons, ← any, holds_or, Bool.or_eq_true, ih, List.exists_mem_cons_iff]

theorem any_eq_false : any xs cond = some false ↔ ∀ x ∈ xs, cond x = some false := by
  induction xs with
  | nil => simp [any]
  | cons x xs ih =>
    rw [any, List.foldr_cons, ← any, or_eq_false, ih, List.forall_mem_cons]

/-! ## Cells -/

variable [DecidableEq V]

/-- Equality of cells, unknown if either is NULL. -/
def eq (a b : Option V) : Truth :=
  match a, b with
  | some x, some y => some (decide (x = y))
  | _, _ => none

/-- `IS DISTINCT FROM`: NULL differs from every value and not from NULL. -/
def distinct (a b : Option V) : Truth := some (decide (a ≠ b))

omit [DecidableEq V] in
def isNull (a : Option V) : Truth := some a.isNone

omit [DecidableEq V] in
def isNotNull (a : Option V) : Truth := some a.isSome

omit [DecidableEq V] in
@[simp] theorem holds_isNull (a : Option V) : (isNull a).holds = a.isNone := rfl

omit [DecidableEq V] in
@[simp] theorem holds_isNotNull (a : Option V) : (isNotNull a).holds = a.isSome := rfl

theorem holds_eq {a b : Option V} : (eq a b).holds = true ↔ a = b ∧ a ≠ none := by
  cases a <;> cases b <;> simp [eq]

theorem eq_eq_false {a b : Option V} : eq a b = some false ↔ a ≠ b ∧ a ≠ none ∧ b ≠ none := by
  cases a <;> cases b <;> simp [eq]

@[simp] theorem holds_distinct {a b : Option V} : (distinct a b).holds = true ↔ a ≠ b := by
  simp [distinct]

/-! ## Tuples -/

/-- No component is NULL. -/
def Complete (tuple : List (Option V)) : Prop := ∀ cell ∈ tuple, cell ≠ none

omit [DecidableEq V] in
@[simp] theorem complete_nil : Complete ([] : List (Option V)) := by simp [Complete]

omit [DecidableEq V] in
@[simp] theorem complete_cons {cell : Option V} {tuple : List (Option V)} :
    Complete (cell :: tuple) ↔ cell ≠ none ∧ Complete tuple := List.forall_mem_cons

instance {tuple : List (Option V)} : Decidable (Complete tuple) :=
  inferInstanceAs (Decidable (∀ cell ∈ tuple, cell ≠ none))

/-- Equality of tuples, component by component. -/
def tupleEq : List (Option V) → List (Option V) → Truth
  | [], [] => some true
  | a :: as, b :: bs => (eq a b).and (tupleEq as bs)
  | _, _ => some false

theorem holds_tupleEq {as bs : List (Option V)} :
    (tupleEq as bs).holds = true ↔ as = bs ∧ Complete as := by
  induction as generalizing bs with
  | nil => cases bs <;> simp [tupleEq]
  | cons a as ih =>
    cases bs with
    | nil => simp [tupleEq]
    | cons b bs =>
      rw [tupleEq, holds_and, Bool.and_eq_true, holds_eq, ih, complete_cons, List.cons.injEq]
      exact ⟨fun h => ⟨⟨h.1.1, h.2.1⟩, h.1.2, h.2.2⟩, fun h => ⟨⟨h.1.1, h.2.1⟩, h.1.2, h.2.2⟩⟩

/-- Complete tuples that differ are known to. -/
theorem tupleEq_eq_false {as bs : List (Option V)} (ha : Complete as) (hb : Complete bs) :
    tupleEq as bs = some false ↔ as ≠ bs := by
  induction as generalizing bs with
  | nil => cases bs <;> simp [tupleEq]
  | cons a as ih =>
    cases bs with
    | nil => simp [tupleEq]
    | cons b bs =>
      obtain ⟨hane, ha⟩ := complete_cons.1 ha
      obtain ⟨hbne, hb⟩ := complete_cons.1 hb
      rw [tupleEq, and_eq_false, eq_eq_false, ih ha hb]
      simp only [ne_eq, List.cons.injEq, not_and_or]
      exact or_congr_left ⟨fun h => h.1, fun h => ⟨h, hane, hbne⟩⟩

/-- `tuple IN tuples`. -/
def isIn (tuple : List (Option V)) (tuples : List (List (Option V))) : Truth :=
  any tuples fun other => tupleEq tuple other

/-- `tuple NOT IN tuples`. -/
def notIn (tuple : List (Option V)) (tuples : List (List (Option V))) : Truth :=
  (isIn tuple tuples).not

theorem holds_isIn {tuple : List (Option V)} {tuples : List (List (Option V))} :
    (isIn tuple tuples).holds = true ↔ tuple ∈ tuples ∧ Complete tuple := by
  rw [isIn, holds_any]
  constructor
  · rintro ⟨other, hmem, h⟩
    obtain ⟨rfl, hc⟩ := holds_tupleEq.1 h
    exact ⟨hmem, hc⟩
  · exact fun h => ⟨tuple, h.1, holds_tupleEq.2 ⟨rfl, h.2⟩⟩

/-- Among complete tuples `NOT IN` says what it seems to say. -/
theorem holds_notIn {tuple : List (Option V)} {tuples : List (List (Option V))}
    (ht : Complete tuple) (hts : ∀ other ∈ tuples, Complete other) :
    (notIn tuple tuples).holds = true ↔ tuple ∉ tuples := by
  rw [notIn, holds_not, isIn, any_eq_false]
  constructor
  · intro h hmem
    exact (tupleEq_eq_false ht ht).1 (h tuple hmem) rfl
  · intro hnot other hmem
    rw [tupleEq_eq_false ht (hts other hmem)]
    rintro rfl
    exact hnot hmem

end Sql
