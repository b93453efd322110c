import Mathlib.Data.List.Basic

/-!
# Computations that may fail

Rules for `Except`: what a successful `bind` or `mapM` was made of. They turn a
hypothesis that a computation succeeded into hypotheses about its parts, so that
no proof has to unfold the monad.
-/
namespace Fallible

variable {ε α β γ : Type}

theorem bind_ok {x : Except ε α} {f : α → Except ε β} {b : β} :
    (x >>= f) = .ok b ↔ ∃ a, x = .ok a ∧ f a = .ok b := by
  cases x with
  | error e => simp [bind, Except.bind]
  | ok a => simp [bind, Except.bind]

@[simp] theorem bind_ok_left (a : α) (f : α → Except ε β) : ((.ok a : Except ε α) >>= f) = f a := rfl

@[simp] theorem bind_error_left (e : ε) (f : α → Except ε β) :
    ((.error e : Except ε α) >>= f) = .error e := rfl

theorem map_ok {x : Except ε α} {f : α → β} {b : β} :
    x.map f = .ok b ↔ ∃ a, x = .ok a ∧ f a = b := by
  cases x with
  | error e => simp [Except.map]
  | ok a => simp [Except.map]

theorem mapError_ok {x : Except ε α} {f : ε → γ} {a : α} :
    x.mapError f = .ok a ↔ x = .ok a := by
  cases x <;> simp [Except.mapError]

@[simp] theorem pure_ok {a b : α} : (pure a : Except ε α) = .ok b ↔ a = b := by
  simp [pure, Except.pure]

/-- Every check of a list passed. -/
theorem forM_ok {check : α → Except ε Unit} {l : List α} :
    l.forM check = .ok () ↔ ∀ a ∈ l, check a = .ok () := by
  induction l with
  | nil => simp [pure, Except.pure]
  | cons a l ih =>
    rw [List.forall_mem_cons, ← ih]
    constructor
    · intro h
      obtain ⟨⟨⟩, hfirst, hrest⟩ := bind_ok.mp h
      exact ⟨hfirst, hrest⟩
    · exact fun h => bind_ok.mpr ⟨(), h.1, h.2⟩

variable {f : α → Except ε β}

theorem mapM_nil_ok {bs : List β} : ([] : List α).mapM f = .ok bs ↔ bs = [] := by
  simp only [List.mapM_nil, pure_ok]
  exact eq_comm

theorem mapM_cons_ok {a : α} {l : List α} {bs : List β} :
    (a :: l).mapM f = .ok bs ↔
      ∃ b bs', f a = .ok b ∧ l.mapM f = .ok bs' ∧ bs = b :: bs' := by
  simp only [List.mapM_cons, bind_ok, pure_ok]
  constructor
  · rintro ⟨b, hb, bs', hbs', rfl⟩
    exact ⟨b, bs', hb, hbs', rfl⟩
  · rintro ⟨b, bs', hb, hbs', rfl⟩
    exact ⟨b, hb, bs', hbs', rfl⟩

theorem mapM_append_ok {l₁ l₂ : List α} {bs : List β} :
    (l₁ ++ l₂).mapM f = .ok bs ↔
      ∃ bs₁ bs₂, l₁.mapM f = .ok bs₁ ∧ l₂.mapM f = .ok bs₂ ∧ bs = bs₁ ++ bs₂ := by
  simp only [List.mapM_append, bind_ok, pure_ok]
  constructor
  · rintro ⟨bs₁, h₁, bs₂, h₂, rfl⟩
    exact ⟨bs₁, bs₂, h₁, h₂, rfl⟩
  · rintro ⟨bs₁, bs₂, h₁, h₂, rfl⟩
    exact ⟨bs₁, h₁, bs₂, h₂, rfl⟩

/-- A successful `mapM` gives one result an element, in order. -/
theorem mapM_getElem {l : List α} {bs : List β} (h : l.mapM f = .ok bs) :
    bs.length = l.length ∧
      ∀ (i : Nat) a, l[i]? = some a → ∃ b, bs[i]? = some b ∧ f a = .ok b := by
  induction l generalizing bs with
  | nil =>
    obtain rfl := mapM_nil_ok.1 h
    simp
  | cons a l ih =>
    obtain ⟨b, bs', hb, hbs', rfl⟩ := mapM_cons_ok.1 h
    obtain ⟨hlen, hget⟩ := ih hbs'
    refine ⟨by simp [hlen], fun i x hx => ?_⟩
    cases i with
    | zero =>
      obtain rfl : a = x := by simpa using hx
      exact ⟨b, rfl, hb⟩
    | succ i => exact hget i x (by simpa using hx)

theorem mapM_of_getElem {l : List α} {bs : List β} (hlen : bs.length = l.length)
    (hget : ∀ (i : Nat) a, l[i]? = some a → ∃ b, bs[i]? = some b ∧ f a = .ok b) :
    l.mapM f = .ok bs := by
  induction l generalizing bs with
  | nil => exact mapM_nil_ok.2 (List.length_eq_zero_iff.1 hlen)
  | cons a l ih =>
    cases bs with
    | nil => simp at hlen
    | cons b bs =>
      obtain ⟨b', hb', hfa⟩ := hget 0 a rfl
      obtain rfl : b = b' := by simpa using hb'
      refine mapM_cons_ok.2 ⟨b, bs, hfa, ih (by simpa using hlen) ?_, rfl⟩
      exact fun i x hx => hget (i + 1) x (by simpa using hx)

theorem mapM_length {l : List α} {bs : List β} (h : l.mapM f = .ok bs) :
    bs.length = l.length := (mapM_getElem h).1

/-- Every result is that of an element. -/
theorem mapM_mem {l : List α} {bs : List β} (h : l.mapM f = .ok bs) {b : β} (hb : b ∈ bs) :
    ∃ a ∈ l, f a = .ok b := by
  induction l generalizing bs with
  | nil =>
    obtain rfl := mapM_nil_ok.1 h
    cases hb
  | cons a l ih =>
    obtain ⟨b', bs', ha, hbs', rfl⟩ := mapM_cons_ok.1 h
    rcases List.mem_cons.1 hb with rfl | hb
    · exact ⟨a, by simp, ha⟩
    · obtain ⟨x, hx, hfx⟩ := ih hbs' hb
      exact ⟨x, by simp [hx], hfx⟩

/-- It succeeds exactly when every element does. -/
theorem mapM_succeeds {l : List α} :
    (∃ bs, l.mapM f = .ok bs) ↔ ∀ a ∈ l, ∃ b, f a = .ok b := by
  induction l with
  | nil => simp
  | cons a l ih =>
    simp only [List.mem_cons, forall_eq_or_imp, ← ih]
    constructor
    · rintro ⟨bs, h⟩
      obtain ⟨b, bs', hb, hbs', -⟩ := mapM_cons_ok.1 h
      exact ⟨⟨b, hb⟩, bs', hbs'⟩
    · rintro ⟨⟨b, hb⟩, bs', hbs'⟩
      exact ⟨b :: bs', mapM_cons_ok.2 ⟨b, bs', hb, hbs', rfl⟩⟩

/-- A failure is that of an element. -/
theorem mapM_error {l : List α} {e : ε} (h : l.mapM f = .error e) : ∃ a ∈ l, f a = .error e := by
  induction l with
  | nil => simp [pure, Except.pure] at h
  | cons a l ih =>
    rw [List.mapM_cons] at h
    cases ha : f a with
    | error e' =>
      simp only [ha, bind_error_left, Except.error.injEq] at h
      exact ⟨a, by simp, h ▸ ha⟩
    | ok b =>
      simp only [ha, bind_ok_left] at h
      cases hl : l.mapM f with
      | error e' =>
        simp only [hl, bind_error_left, Except.error.injEq] at h
        obtain ⟨x, hx, hfx⟩ := ih (h ▸ hl)
        exact ⟨x, by simp [hx], hfx⟩
      | ok bs => simp [hl, pure, Except.pure] at h

/-- Where each element gives its image or fails in an expected way, so does the
whole list. -/
theorem mapM_ok_or {g : α → β} {Expected : ε → Prop} {l : List α}
    (h : ∀ a ∈ l, f a = .ok (g a) ∨ ∃ e, f a = .error e ∧ Expected e) :
    l.mapM f = .ok (l.map g) ∨ ∃ e, l.mapM f = .error e ∧ Expected e := by
  induction l with
  | nil => exact .inl rfl
  | cons a l ih =>
    rcases h a (by simp) with ha | ⟨e, ha, he⟩
    · rcases ih fun x hx => h x (by simp [hx]) with hl | ⟨e, hl, he⟩
      · exact .inl (mapM_cons_ok.2 ⟨g a, l.map g, ha, hl, rfl⟩)
      · exact .inr ⟨e, by simp [ha, hl, bind, Except.bind], he⟩
    · exact .inr ⟨e, by simp [ha, bind, Except.bind], he⟩

/-- Where each element has a related result, so does the whole list. -/
theorem mapM_related {R : α → β → Prop} {l : List α} (h : ∀ a ∈ l, ∃ b, f a = .ok b ∧ R a b) :
    ∃ bs, l.mapM f = .ok bs ∧ List.Forall₂ R l bs := by
  induction l with
  | nil => exact ⟨[], rfl, .nil⟩
  | cons a l ih =>
    rw [List.forall_mem_cons] at h
    obtain ⟨b, hb, hab⟩ := h.1
    obtain ⟨bs, hbs, hall⟩ := ih h.2
    exact ⟨b :: bs, mapM_cons_ok.2 ⟨b, bs, hb, hbs, rfl⟩, .cons hab hall⟩

/-- What each step of a successful fold keeps, told of the elements it has passed. -/
theorem foldlM_ok {step : β → α → Except ε β} {P : List α → β → Prop} {l : List α} {b b' : β}
    (hstart : P [] b)
    (hstep : ∀ passed, ∀ a ∈ l, ∀ b b', P passed b → step b a = .ok b' → P (passed ++ [a]) b')
    (h : l.foldlM step b = .ok b') : P l b' := by
  suffices hall : ∀ passed b, P passed b → ∀ rest, (∀ a ∈ rest, a ∈ l) →
      rest.foldlM step b = .ok b' → P (passed ++ rest) b' from
    hall [] b hstart l (fun _ ha => ha) h
  intro passed b hpassed rest hrest
  induction rest generalizing passed b with
  | nil =>
    intro hdone
    obtain rfl := pure_ok.1 hdone
    rwa [List.append_nil]
  | cons a rest ih =>
    intro hfold
    obtain ⟨next, hnext, hfold⟩ := bind_ok.1 hfold
    obtain ⟨ha, hrest⟩ := List.forall_mem_cons.1 hrest
    have hend := ih (passed ++ [a]) next (hstep passed a ha b next hpassed hnext) hrest hfold
    rwa [List.append_assoc] at hend

/-! ## Failure without an error -/

theorem option_mapM_cons {f : α → Option β} {a : α} {l : List α} {bs : List β} :
    (a :: l).mapM f = some bs ↔
      ∃ b bs', f a = some b ∧ l.mapM f = some bs' ∧ bs = b :: bs' := by
  rw [List.mapM_cons, Option.bind_eq_bind, Option.bind_eq_some_iff]
  refine exists_congr fun b => ?_
  rw [Option.bind_eq_bind, Option.bind_eq_some_iff, ← exists_and_left]
  exact exists_congr fun bs' => by rw [Option.pure_def, Option.some.injEq, eq_comm (a := b :: bs')]

theorem option_mapM_mem {f : α → Option β} {l : List α} {bs : List β} (h : l.mapM f = some bs)
    {b : β} (hb : b ∈ bs) : ∃ a ∈ l, f a = some b := by
  induction l generalizing bs with
  | nil =>
    obtain rfl := Option.some.inj h
    cases hb
  | cons a l ih =>
    obtain ⟨b', bs', ha, hbs', rfl⟩ := option_mapM_cons.1 h
    rcases List.mem_cons.1 hb with rfl | hb
    · exact ⟨a, List.mem_cons_self, ha⟩
    · obtain ⟨x, hx, hfx⟩ := ih hbs' hb
      exact ⟨x, List.mem_cons_of_mem a hx, hfx⟩

end Fallible
