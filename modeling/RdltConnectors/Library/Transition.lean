import Mathlib.Data.List.Basic

/-!
# Runs of a step function

A system is a total step function over a state and a label; a label that does
not apply leaves the state alone. A run is the list of labels taken. Besides
plain runs, this file has runs whose every step meets a condition at the state
it is taken from, which is how a property that holds only of well-behaved
interleavings is stated, and the induction rules that carry an invariant from
one step to a whole run.
-/
namespace Transition

variable {σ τ α : Type}

/-- The state after taking the labels of a run in order. -/
def run (step : σ → α → σ) (s : σ) (labels : List α) : σ := labels.foldl step s

@[simp] theorem run_nil (step : σ → α → σ) (s : σ) : run step s [] = s := rfl

@[simp] theorem run_cons (step : σ → α → σ) (s : σ) (a : α) (labels : List α) :
    run step s (a :: labels) = run step (step s a) labels := rfl

@[simp] theorem run_append (step : σ → α → σ) (s : σ) (first second : List α) :
    run step s (first ++ second) = run step (run step s first) second := by
  simp [run]

/-- Every step of the run meets `ok` at the state it is taken from. -/
def Meets (step : σ → α → σ) (ok : σ → α → Prop) : σ → List α → Prop
  | _, [] => True
  | s, a :: labels => ok s a ∧ Meets step ok (step s a) labels

@[simp] theorem meets_nil (step : σ → α → σ) (ok : σ → α → Prop) (s : σ) :
    Meets step ok s [] := trivial

@[simp] theorem meets_cons (step : σ → α → σ) (ok : σ → α → Prop) (s : σ) (a : α)
    (labels : List α) :
    Meets step ok s (a :: labels) ↔ ok s a ∧ Meets step ok (step s a) labels := Iff.rfl

instance decidableMeets (step : σ → α → σ) (ok : σ → α → Prop)
    [∀ s a, Decidable (ok s a)] : ∀ s labels, Decidable (Meets step ok s labels)
  | _, [] => isTrue trivial
  | s, a :: labels =>
    match decidableMeets step ok (step s a) labels with
    | isTrue h => decidable_of_iff (ok s a) (by simp [h])
    | isFalse h => isFalse (fun hm => h hm.2)

theorem meets_append (step : σ → α → σ) (ok : σ → α → Prop) (s : σ)
    (first second : List α) :
    Meets step ok s (first ++ second) ↔
      Meets step ok s first ∧ Meets step ok (run step s first) second := by
  induction first generalizing s with
  | nil => simp
  | cons a first ih => simp [ih, and_assoc]

theorem meets_and {step : σ → α → σ} {P Q : σ → α → Prop} {s : σ} {labels : List α}
    (hp : Meets step P s labels) (hq : Meets step Q s labels) :
    Meets step (fun s a => P s a ∧ Q s a) s labels := by
  induction labels generalizing s with
  | nil => exact trivial
  | cons a labels ih => exact ⟨⟨hp.1, hq.1⟩, ih hp.2 hq.2⟩

/-- A condition on the labels alone may be met label by label. -/
theorem meets_of_forall {step : σ → α → σ} {P : α → Prop} (s : σ) {labels : List α}
    (h : ∀ a ∈ labels, P a) : Meets step (fun _ a => P a) s labels := by
  induction labels generalizing s with
  | nil => exact trivial
  | cons a labels ih => exact ⟨h a (by simp), ih (step s a) fun b hb => h b (by simp [hb])⟩

/-- An invariant that every admitted step keeps holds at the end of the run. -/
theorem run_invariant {step : σ → α → σ} {P : σ → α → Prop} {I : σ → Prop}
    (hstep : ∀ s a, I s → P s a → I (step s a)) {s : σ} {labels : List α}
    (hs : I s) (hok : Meets step P s labels) : I (run step s labels) := by
  induction labels generalizing s with
  | nil => exact hs
  | cons a labels ih => exact ih (hstep s a hs hok.1) hok.2

/-- The unconditional form: the invariant is kept by every step there is. -/
theorem run_invariant_always {step : σ → α → σ} (I : σ → Prop)
    (hstep : ∀ s a, I s → I (step s a)) {s : σ} (hs : I s) (labels : List α) :
    I (run step s labels) := by
  induction labels generalizing s with
  | nil => exact hs
  | cons a labels ih => exact ih (hstep s a hs)

/-- What the invariant implies of a single step holds of every step of the run. -/
theorem meets_of_invariant {step : σ → α → σ} {P Q : σ → α → Prop} {I : σ → Prop}
    (hstep : ∀ s a, I s → P s a → I (step s a))
    (hgood : ∀ s a, I s → P s a → Q s a) {s : σ} {labels : List α}
    (hs : I s) (hok : Meets step P s labels) : Meets step Q s labels := by
  induction labels generalizing s with
  | nil => exact meets_nil step Q s
  | cons a labels ih =>
    exact ⟨hgood s a hs hok.1, ih (hstep s a hs hok.1) hok.2⟩

/-- Two systems over the same labels stay related when each step keeps them so. -/
theorem run_simulation {step : σ → α → σ} {step' : τ → α → τ} (R : σ → τ → Prop)
    (hstep : ∀ s t a, R s t → R (step s a) (step' t a)) {s : σ} {t : τ} (h : R s t)
    (labels : List α) : R (run step s labels) (run step' t labels) := by
  induction labels generalizing s t with
  | nil => exact h
  | cons a labels ih => exact ih (hstep s t a h)

/-- The relation may rest on what the steps of the first system meet. -/
theorem run_simulation_of_meets {step : σ → α → σ} {step' : τ → α → τ} {P : σ → α → Prop}
    (R : σ → τ → Prop) (hstep : ∀ s t a, R s t → P s a → R (step s a) (step' t a)) {s : σ} {t : τ}
    {labels : List α} (h : R s t) (hok : Meets step P s labels) :
    R (run step s labels) (run step' t labels) := by
  induction labels generalizing s t with
  | nil => exact h
  | cons a labels ih => exact ih (hstep s t a h hok.1) hok.2

end Transition
