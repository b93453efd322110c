import Mathlib.Data.List.Induction

/-!
# What precedes what in a log

A log grows at its end. That every entry of one kind comes after an entry it answers
to is kept when an entry is added whose own predecessor is already there, and holds of
every earlier state of the log.
-/
namespace Log

variable {α : Type} {needs : α → Prop} {answers : α → α → Prop} {log more : List α}

/-- Every entry that needs one comes after an entry that answers it. -/
def Preceded (needs : α → Prop) (answers : α → α → Prop) (log : List α) : Prop :=
  ∀ before entry after, log = before ++ entry :: after → needs entry →
    ∃ earlier ∈ before, answers entry earlier

theorem preceded_nil : Preceded needs answers [] := by
  intro before entry after h
  cases before <;> cases h

theorem preceded_append (hlog : Preceded needs answers log) {entry : α}
    (h : needs entry → ∃ earlier ∈ log, answers entry earlier) :
    Preceded needs answers (log ++ [entry]) := by
  intro before e after heq hneeds
  cases after using List.reverseRecOn with
  | nil =>
    obtain ⟨rfl, hlast⟩ := List.append_inj' heq rfl
    obtain rfl := List.head_eq_of_cons_eq hlast
    exact h hneeds
  | append_singleton after last =>
    rw [← List.cons_append, ← List.append_assoc] at heq
    obtain ⟨rfl, -⟩ := List.append_inj' heq rfl
    exact hlog before e after rfl hneeds

/-- What an earlier log held. -/
theorem Preceded.earlier (h : Preceded needs answers (log ++ more)) :
    Preceded needs answers log := by
  intro before entry after heq hneeds
  apply h before entry (after ++ more) _ hneeds
  rw [heq, List.append_assoc, List.cons_append]

/-- An entry of the log has its own predecessor there. -/
theorem Preceded.of_mem (h : Preceded needs answers log) {entry : α} (hmem : entry ∈ log)
    (hneeds : needs entry) : ∃ earlier ∈ log, answers entry earlier := by
  obtain ⟨before, after, rfl⟩ := List.append_of_mem hmem
  obtain ⟨earlier, hearlier, hanswers⟩ := h before entry after rfl hneeds
  exact ⟨earlier, List.mem_append_left _ hearlier, hanswers⟩

end Log
