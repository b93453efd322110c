import RdltConnectors.Library.Interrupted

/-!
# Computations that die between steps

A computation that changes its state one atomic step at a time and can die before any
of them: it is started with the number of steps it still takes, or with none of them
missing. It can also refuse to go on. A specification says what holds after it and
what holds wherever it dies, and, for a computation that is whole, that it ends.
-/
namespace Mortal

open Interrupted

variable {σ ε α β γ : Type}

/-- A state, and how many more steps are taken on it; `none` when all of them are. -/
structure Budgeted (σ : Type) where
  state : σ
  left : Option Nat

inductive Cut (ε : Type) where
  | died
  | refused (error : ε)

abbrev Call (σ ε α : Type) := Attempt (Budgeted σ) (Cut ε) α

/-- One atomic step. -/
def perform (f : σ → σ) : Call σ ε Unit := do
  let here ← get
  if here.left = some 0 then throw Cut.died
  else modify fun here => ⟨f here.state, here.left.map Nat.pred⟩

/-- Looking at the state takes no step of its own. -/
def look : Call σ ε σ := do
  let here ← get
  pure here.state

def refuse (error : ε) : Call σ ε α := throw (Cut.refused error)

def accept : Except ε α → Call σ ε α
  | .ok a => pure a
  | .error error => refuse error

/-- From P the computation ends with a result and in Q, or stops in I. One that is
whole, by an assumption of the caller's, does not stop. -/
def Spec (whole : Prop) (P : σ → Prop) (m : Call σ ε α) (Q : α → σ → Prop) (I : σ → Prop) : Prop :=
  Triple (fun here => P here.state ∧ (whole → here.left = none)) m
    (fun a here => Q a here.state ∧ (whole → here.left = none))
    (fun here => I here.state ∧ ¬whole)

variable {whole : Prop} {P P' I I' : σ → Prop} {Q Q' : α → σ → Prop} {R : β → σ → Prop}

/-- What a specification says of one run. -/
theorem Spec.outcome {m : Call σ ε α} (h : Spec whole P m Q I) {s : σ} {left : Option Nat} (hs : P s)
    (hleft : whole → left = none) :
    (∃ a here, exec m ⟨s, left⟩ = (.ok a, here) ∧ Q a here.state) ∨
    (∃ cut here, exec m ⟨s, left⟩ = (.error cut, here) ∧ I here.state ∧ ¬whole) := by
  have hrun := h ⟨s, left⟩ ⟨hs, hleft⟩
  cases hexec : exec m ⟨s, left⟩ with
  | mk outcome here =>
    rw [hexec] at hrun
    cases outcome with
    | ok a => exact .inl ⟨a, here, rfl, hrun.1⟩
    | error cut => exact .inr ⟨cut, here, rfl, hrun⟩

theorem spec_pure {a : α} (h : ∀ s, P s → Q a s) : Spec whole P (pure a : Call σ ε α) Q I :=
  triple_pure fun _ hs => ⟨h _ hs.1, hs.2⟩

theorem spec_bind {m : Call σ ε α} {f : α → Call σ ε β} (hm : Spec whole P m Q I)
    (hf : ∀ a, Spec whole (Q a) (f a) R I) : Spec whole P (m >>= f) R I := triple_bind hm hf

theorem spec_weaken {m : Call σ ε α} (h : Spec whole P m Q I) (hpre : ∀ s, P' s → P s)
    (hpost : ∀ a s, Q a s → Q' a s) (hcut : ∀ s, I s → I' s) : Spec whole P' m Q' I' :=
  triple_weaken h (fun _ hs => ⟨hpre _ hs.1, hs.2⟩) (fun a _ hs => ⟨hpost a _ hs.1, hs.2⟩)
    fun _ hs => ⟨hcut _ hs.1, hs.2⟩

theorem spec_ite {c : Prop} [Decidable c] {m m' : Call σ ε α} (hthen : c → Spec whole P m Q I)
    (helse : ¬c → Spec whole P m' Q I) : Spec whole P (if c then m else m') Q I :=
  triple_ite hthen helse

/-- What the start fixes may be used throughout. -/
theorem spec_from {m : Call σ ε α} (h : ∀ s₀, P s₀ → Spec whole (· = s₀) m Q I) :
    Spec whole P m Q I := fun here hs => h here.state hs.1 here ⟨rfl, hs.2⟩

theorem spec_perform {f : σ → σ} {Q : Unit → σ → Prop} (hstep : ∀ s, P s → Q () (f s))
    (hcut : ∀ s, P s → I s) : Spec whole P (perform f : Call σ ε Unit) Q I := by
  refine triple_bind (Q := fun seen here => seen = here ∧ P here.state ∧ (whole → here.left = none))
    (triple_get fun _ hs => ⟨rfl, hs⟩) fun seen => triple_ite (fun hdead => ?_) fun _ => ?_
  · refine triple_throw fun here hs => ⟨hcut _ hs.2.1, fun hwhole => ?_⟩
    have hnone : seen.left = none := by rw [hs.1]; exact hs.2.2 hwhole
    rw [hnone] at hdead
    cases hdead
  · refine triple_modify fun here hs => ⟨hstep _ hs.2.1, fun hwhole => ?_⟩
    rw [hs.2.2 hwhole]
    rfl

theorem spec_look {Q : σ → σ → Prop} (h : ∀ s, P s → Q s s) :
    Spec whole P (look : Call σ ε σ) Q I := by
  refine triple_bind (Q := fun seen here => seen = here ∧ P here.state ∧ (whole → here.left = none))
    (triple_get fun _ hs => ⟨rfl, hs⟩) fun seen => triple_pure fun here hs => ⟨?_, hs.2.2⟩
  rw [hs.1]
  exact h _ hs.2.1

theorem spec_refuse {error : ε} (h : ∀ s, P s → I s) (hwhole : ¬whole) :
    Spec whole P (refuse error : Call σ ε α) Q I := triple_throw fun _ hs => ⟨h _ hs.1, hwhole⟩

theorem spec_accept {answer : Except ε α} (hok : ∀ a, answer = .ok a → ∀ s, P s → Q a s)
    (hcut : ∀ s, P s → I s) (hwhole : whole → ∃ a, answer = .ok a) :
    Spec whole P (accept answer : Call σ ε α) Q I := by
  cases answer with
  | ok a => exact spec_pure (hok a rfl)
  | error error => exact spec_refuse hcut fun hw => nomatch hwhole hw

/-- A loop keeps an assertion about the elements that are still to come. -/
theorem spec_forM {f : α → Call σ ε PUnit} {J : List α → σ → Prop}
    (hstep : ∀ x xs, Spec whole (J (x :: xs)) (f x) (fun _ => J xs) I) (xs : List α) :
    Spec whole (J xs) (xs.forM f) (fun _ => J []) I := by
  induction xs with
  | nil => exact spec_pure fun _ hs => hs
  | cons x xs ih => exact spec_bind (hstep x xs) fun _ => ih

theorem spec_foldlM {f : β → α → Call σ ε β} {J : List α → β → σ → Prop}
    (hstep : ∀ x xs b, Spec whole (J (x :: xs) b) (f b x) (J xs) I) (xs : List α) (b : β) :
    Spec whole (J xs b) (xs.foldlM f b) (J []) I := by
  induction xs generalizing b with
  | nil => exact spec_pure fun _ hs => hs
  | cons x xs ih => exact spec_bind (hstep x xs b) fun b' => ih b'

end Mortal
