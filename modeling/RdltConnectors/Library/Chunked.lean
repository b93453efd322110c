import Mathlib.Data.List.Basic

/-!
# Readers over a buffer

A reader tries to take something from the front of what it has buffered, and waits for more
where the buffer ends too early. When an attempt never changes its mind about bytes it has
seen, where the input was cut into chunks does not show.
-/
namespace Chunked

variable {α σ β ε : Type}

/-- What one attempt concluded. -/
inductive Attempt (α σ β ε : Type) where
  | more
  | taken (rest : List α) (out : List β) (next : σ)
  | failed (error : ε)

/-- What is seen at the front is not taken back when more arrives, and something is taken
every time. -/
structure Steady (attempt : σ → List α → Attempt α σ β ε) : Prop where
  taken_append : ∀ {s bytes rest out next} (more : List α),
    attempt s bytes = .taken rest out next → attempt s (bytes ++ more) = .taken (rest ++ more) out next
  failed_append : ∀ {s bytes error} (more : List α),
    attempt s bytes = .failed error → attempt s (bytes ++ more) = .failed error
  shorter : ∀ {s bytes rest out next},
    attempt s bytes = .taken rest out next → rest.length < bytes.length

/-- Attempts until one waits or fails: what was put out, and where they ended. -/
inductive Drains (attempt : σ → List α → Attempt α σ β ε) :
    σ → List α → List β → Except ε (σ × List α) → Prop
  | more {s bytes} : attempt s bytes = .more → Drains attempt s bytes [] (.ok (s, bytes))
  | failed {s bytes error} :
      attempt s bytes = .failed error → Drains attempt s bytes [] (.error error)
  | taken {s bytes rest out next outs ending} : attempt s bytes = .taken rest out next →
      Drains attempt next rest outs ending → Drains attempt s bytes (out ++ outs) ending

variable {attempt : σ → List α → Attempt α σ β ε} {s s' : σ} {bytes rest : List α}
  {outs outs' : List β} {ending ending' : Except ε (σ × List α)}

theorem Drains.unique (h : Drains attempt s bytes outs ending)
    (h' : Drains attempt s bytes outs' ending') : outs = outs' ∧ ending = ending' := by
  induction h generalizing outs' with
  | more hmore =>
    cases h' with
    | more => exact ⟨rfl, rfl⟩
    | failed hfailed => rw [hmore] at hfailed; cases hfailed
    | taken htaken => rw [hmore] at htaken; cases htaken
  | failed hfailed =>
    cases h' with
    | more hmore => rw [hfailed] at hmore; cases hmore
    | failed hfailed' =>
      rw [hfailed] at hfailed'
      cases hfailed'
      exact ⟨rfl, rfl⟩
    | taken htaken => rw [hfailed] at htaken; cases htaken
  | taken htaken _ ih =>
    cases h' with
    | more hmore => rw [htaken] at hmore; cases hmore
    | failed hfailed => rw [htaken] at hfailed; cases hfailed
    | taken htaken' hrest =>
      rw [htaken] at htaken'
      cases htaken'
      obtain ⟨rfl, hending⟩ := ih hrest
      exact ⟨rfl, hending⟩

theorem Drains.exists (hsteady : Steady attempt) (s : σ) (bytes : List α) :
    ∃ outs ending, Drains attempt s bytes outs ending := by
  induction hlength : bytes.length using Nat.strongRecOn generalizing s bytes with
  | ind length ih =>
    cases hattempt : attempt s bytes with
    | more => exact ⟨_, _, .more hattempt⟩
    | failed error => exact ⟨_, _, .failed hattempt⟩
    | taken rest out next =>
      obtain ⟨outs, ending, hrest⟩ :=
        ih rest.length (hlength ▸ hsteady.shorter hattempt) next rest rfl
      exact ⟨_, _, .taken hattempt hrest⟩

/-- A reader that has not failed waits. -/
theorem Drains.waits (h : Drains attempt s bytes outs (.ok (s', rest))) :
    attempt s' rest = .more := by
  generalize hending : (Except.ok (s', rest) : Except ε (σ × List α)) = ending at h
  induction h with
  | more hmore =>
    cases hending
    exact hmore
  | failed => cases hending
  | taken _ _ ih => exact ih hending

theorem Drains.append_error (hsteady : Steady attempt) {error : ε} (more : List α)
    (h : Drains attempt s bytes outs (.error error)) :
    Drains attempt s (bytes ++ more) outs (.error error) := by
  generalize hending : (Except.error error : Except ε (σ × List α)) = ending at h
  induction h with
  | more => cases hending
  | failed hfailed =>
    cases hending
    exact .failed (hsteady.failed_append more hfailed)
  | taken htaken _ ih => exact .taken (hsteady.taken_append more htaken) (ih hending)

/-- Reading on from where the first part ended is reading both parts at once. -/
theorem Drains.append (hsteady : Steady attempt) {more : List α}
    (h : Drains attempt s bytes outs (.ok (s', rest)))
    (h' : Drains attempt s' (rest ++ more) outs' ending) :
    Drains attempt s (bytes ++ more) (outs ++ outs') ending := by
  generalize hending : (Except.ok (s', rest) : Except ε (σ × List α)) = first at h
  induction h with
  | more =>
    cases hending
    exact h'
  | failed => cases hending
  | taken htaken _ ih =>
    rw [List.append_assoc]
    exact .taken (hsteady.taken_append more htaken) (ih hending)

/-- Attempts that were made on an input are made on every longer one. -/
theorem Drains.split (hsteady : Steady attempt) {more : List α}
    (h : Drains attempt s (bytes ++ more) outs (.ok (s', rest))) :
    ∃ outs₁ outs₂ middle waiting, outs = outs₁ ++ outs₂ ∧
      Drains attempt s bytes outs₁ (.ok (middle, waiting)) ∧
      Drains attempt middle (waiting ++ more) outs₂ (.ok (s', rest)) := by
  obtain ⟨outs₁, first, hfirst⟩ := Drains.exists hsteady s bytes
  cases first with
  | error error =>
    obtain ⟨-, hending⟩ := (hfirst.append_error hsteady more).unique h
    cases hending
  | ok reached =>
    obtain ⟨outs₂, second, hsecond⟩ := Drains.exists hsteady reached.1 (reached.2 ++ more)
    obtain ⟨houts, hending⟩ := (hfirst.append hsteady hsecond).unique h
    subst hending
    exact ⟨outs₁, outs₂, reached.1, reached.2, houts.symm, hfirst, hsecond⟩

end Chunked
