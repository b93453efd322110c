import Mathlib.Init

/-!
# Computations that can be cut short

A computation over a state that ends in a result or is cut short by an error,
and keeps the state it has reached either way: a crash or a lost connection
undoes nothing. A triple therefore has two postconditions, one for the result
and one for every state the computation can be cut short in.
-/
namespace Interrupted

variable {σ ε α β : Type}

abbrev Attempt (σ ε α : Type) := ExceptT ε (StateM σ) α

/-- How the computation ends, and the state it leaves. -/
def exec (m : Attempt σ ε α) (s : σ) : Except ε α × σ := m s

@[simp] theorem exec_pure (a : α) (s : σ) :
    exec (pure a : Attempt σ ε α) s = (.ok a, s) := rfl

@[simp] theorem exec_get (s : σ) : exec (get : Attempt σ ε σ) s = (.ok s, s) := rfl

@[simp] theorem exec_modify (f : σ → σ) (s : σ) :
    exec (modify f : Attempt σ ε Unit) s = (.ok (), f s) := rfl

@[simp] theorem exec_throw (e : ε) (s : σ) :
    exec (throw e : Attempt σ ε α) s = (.error e, s) := rfl

theorem exec_bind (m : Attempt σ ε α) (f : α → Attempt σ ε β) (s : σ) :
    exec (m >>= f) s =
      match exec m s with
      | (.ok a, s') => exec (f a) s'
      | (.error e, s') => (.error e, s') := by
  change (m s >>= fun x => ExceptT.bindCont f x.1 x.2 : Id _) = _
  unfold exec
  cases m s with
  | mk outcome s' => cases outcome <;> rfl

@[simp] theorem exec_bind_ok {m : Attempt σ ε α} {s s' : σ} {a : α}
    (h : exec m s = (.ok a, s')) (f : α → Attempt σ ε β) :
    exec (m >>= f) s = exec (f a) s' := by
  rw [exec_bind, h]

/-- From a state with P the computation ends with a result and a state in Q, or
is cut short in a state in I. -/
def Triple (P : σ → Prop) (m : Attempt σ ε α) (Q : α → σ → Prop) (I : σ → Prop) : Prop :=
  ∀ s, P s →
    match exec m s with
    | (.ok a, s') => Q a s'
    | (.error _, s') => I s'

variable {P P' I I' : σ → Prop} {Q Q' : α → σ → Prop} {R : β → σ → Prop}

theorem triple_pure {a : α} (h : ∀ s, P s → Q a s) :
    Triple P (pure a : Attempt σ ε α) Q I := h

theorem triple_throw {e : ε} (h : ∀ s, P s → I s) :
    Triple P (throw e : Attempt σ ε α) Q I := h

theorem triple_get {Q : σ → σ → Prop} (h : ∀ s, P s → Q s s) :
    Triple P (get : Attempt σ ε σ) Q I := h

theorem triple_modify {f : σ → σ} {Q : Unit → σ → Prop} (h : ∀ s, P s → Q () (f s)) :
    Triple P (modify f : Attempt σ ε Unit) Q I := h

theorem triple_bind {m : Attempt σ ε α} {f : α → Attempt σ ε β} (hm : Triple P m Q I)
    (hf : ∀ a, Triple (Q a) (f a) R I) : Triple P (m >>= f) R I := by
  intro s hs
  have hfirst := hm s hs
  rw [exec_bind]
  cases hexec : exec m s with
  | mk outcome s' =>
    rw [hexec] at hfirst
    cases outcome with
    | error e => exact hfirst
    | ok a => exact hf a s' hfirst

theorem triple_weaken {m : Attempt σ ε α} (h : Triple P m Q I) (hpre : ∀ s, P' s → P s)
    (hpost : ∀ a s, Q a s → Q' a s) (hcut : ∀ s, I s → I' s) : Triple P' m Q' I' := by
  intro s hs
  have hrun := h s (hpre s hs)
  cases hexec : exec m s with
  | mk outcome s' =>
    rw [hexec] at hrun
    cases outcome with
    | error e => exact hcut s' hrun
    | ok a => exact hpost a s' hrun

/-- Two specifications of one computation. -/
theorem triple_and {m : Attempt σ ε α} (h : Triple P m Q I) (h' : Triple P' m Q' I') :
    Triple (fun s => P s ∧ P' s) m (fun a s => Q a s ∧ Q' a s) (fun s => I s ∧ I' s) := by
  intro s hs
  have hfirst := h s hs.1
  have hsecond := h' s hs.2
  cases hexec : exec m s with
  | mk ended s' =>
    rw [hexec] at hfirst hsecond
    cases ended with
    | ok a => exact ⟨hfirst, hsecond⟩
    | error e => exact ⟨hfirst, hsecond⟩

theorem triple_ite {c : Prop} [Decidable c] {m m' : Attempt σ ε α}
    (hthen : c → Triple P m Q I) (helse : ¬ c → Triple P m' Q I) :
    Triple P (if c then m else m') Q I := by
  by_cases hc : c
  · rw [if_pos hc]
    exact hthen hc
  · rw [if_neg hc]
    exact helse hc

/-- What does not depend on the state is a hypothesis. -/
theorem triple_given {c : Prop} {m : Attempt σ ε α} (h : c → Triple P m Q I) :
    Triple (fun s => c ∧ P s) m Q I := fun s hs => h hs.1 s hs.2

theorem triple_exists {ι : Type} {P : ι → σ → Prop} {m : Attempt σ ε α}
    (h : ∀ i, Triple (P i) m Q I) : Triple (fun s => ∃ i, P i s) m Q I := by
  rintro s ⟨i, hs⟩
  exact h i s hs

/-- A loop keeps an assertion about the elements that are still to come. -/
theorem triple_forM {f : β → Attempt σ ε PUnit} {J : List β → σ → Prop}
    (hstep : ∀ x xs, Triple (J (x :: xs)) (f x) (fun _ => J xs) I) (xs : List β) :
    Triple (J xs) (xs.forM f) (fun _ => J []) I := by
  induction xs with
  | nil => exact triple_pure fun _ hs => hs
  | cons x xs ih => exact triple_bind (hstep x xs) fun _ => ih

/-- A filter whose test answers for a pure one, and changes nothing that counts. -/
theorem triple_filterM {f : β → Attempt σ ε Bool} {p : β → Bool}
    (hstep : ∀ x, Triple P (f x) (fun b s => b = p x ∧ P s) I) (xs : List β) :
    Triple P (xs.filterM f) (fun kept s => kept = xs.filter p ∧ P s) I := by
  have haux : ∀ xs kept, Triple P (List.filterAuxM f xs kept)
      (fun found s => found = (xs.filter p).reverse ++ kept ∧ P s) I := by
    intro xs
    induction xs with
    | nil => exact fun kept => triple_pure fun s hs => ⟨rfl, hs⟩
    | cons x xs ih =>
      intro kept
      apply triple_bind (hstep x)
      intro b
      apply triple_given
      rintro rfl
      apply triple_weaken (ih _)
      · exact fun s hs => hs
      · rintro found s ⟨rfl, hs⟩
        refine ⟨?_, hs⟩
        rw [List.filter_cons]
        cases p x with
        | true => simp
        | false => rfl
      · exact fun s hs => hs
  apply triple_bind (haux xs [])
  intro found
  apply triple_pure
  rintro s ⟨rfl, hs⟩
  refine ⟨?_, hs⟩
  rw [List.append_nil, List.reverse_reverse]

/-- The computation never cuts its caller short: how it ended is its result. -/
def outcome (m : Attempt σ ε α) : Attempt σ ε (Except ε α) := fun s => (.ok (exec m s).1, (exec m s).2)

theorem exec_outcome (m : Attempt σ ε α) (s : σ) :
    exec (outcome m) s = (.ok (exec m s).1, (exec m s).2) := rfl

theorem triple_outcome {m : Attempt σ ε α} {Q : Except ε α → σ → Prop} {J : σ → Prop}
    (hm : Triple P m (fun a => Q (.ok a)) J) (herror : ∀ e s, J s → Q (.error e) s) :
    Triple P (outcome m) Q I := by
  intro s hs
  have hrun := hm s hs
  rw [exec_outcome]
  cases hexec : exec m s with
  | mk ended s' =>
    rw [hexec] at hrun
    cases ended with
    | ok a => exact hrun
    | error e => exact herror e s' hrun

/-- A state condition that the computation keeps wherever it ends. -/
def Keeps (P : σ → Prop) (m : Attempt σ ε α) : Prop := Triple P m (fun _ => P) P

theorem Keeps.bind {m : Attempt σ ε α} {f : α → Attempt σ ε β} (hm : Keeps P m)
    (hf : ∀ a, Keeps P (f a)) : Keeps P (m >>= f) := triple_bind hm hf

theorem Keeps.cut {m : Attempt σ ε α} (h : Keeps P m) (hcut : ∀ s, P s → I s) :
    Triple P m (fun _ => P) I := triple_weaken h (fun _ hs => hs) (fun _ _ hs => hs) hcut

theorem keeps_pure (a : α) : Keeps P (pure a : Attempt σ ε α) := triple_pure fun _ h => h

theorem keeps_throw (e : ε) : Keeps P (throw e : Attempt σ ε α) := triple_throw fun _ h => h

theorem keeps_get : Keeps P (get : Attempt σ ε σ) := triple_get fun _ h => h

theorem keeps_modify {f : σ → σ} (h : ∀ s, P s → P (f s)) :
    Keeps P (modify f : Attempt σ ε Unit) := triple_modify h

theorem Keeps.forM {f : β → Attempt σ ε PUnit} (h : ∀ x, Keeps P (f x)) (xs : List β) :
    Keeps P (xs.forM f) := triple_forM (J := fun _ => P) (fun x _ => h x) xs

theorem Keeps.filterM {f : β → Attempt σ ε Bool} (h : ∀ x, Keeps P (f x)) (xs : List β) :
    Keeps P (xs.filterM f) := by
  have haux : ∀ xs kept, Keeps P (List.filterAuxM f xs kept) := by
    intro xs
    induction xs with
    | nil => exact fun kept => keeps_pure kept
    | cons x xs ih => exact fun kept => Keeps.bind (h x) fun _ => ih _
  exact Keeps.bind (haux xs []) fun kept => keeps_pure _

end Interrupted
