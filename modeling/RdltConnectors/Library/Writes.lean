import Mathlib

/-!
# Keyed writes

A map into which writes of a key and a value are folded, one after another. Each
key ends with what was written to it last, and with what it had where nothing
was, so writes that are made once more from an earlier one on end the same.
-/
namespace Writes

variable {κ β γ : Type} [DecidableEq κ]

def write (D : κ → β) (entry : κ × β) : κ → β := Function.update D entry.1 entry.2

def writeAll (D : κ → β) (entries : List (κ × β)) : κ → β := entries.foldl write D

/-- What is written to the key last. -/
def last (key : κ) : List (κ × β) → Option β
  | [] => none
  | entry :: entries => (last key entries).or (if entry.1 = key then some entry.2 else none)

variable {key : κ} {D : κ → β} {entries : List (κ × β)}

/-- The last write of a key decides it. -/
theorem writeAll_apply (D : κ → β) (entries : List (κ × β)) (key : κ) :
    writeAll D entries key = (last key entries).getD (D key) := by
  induction entries generalizing D with
  | nil => rfl
  | cons entry entries ih =>
    rw [writeAll, List.foldl_cons, ← writeAll, ih, last]
    cases last key entries with
    | some value => rfl
    | none =>
      rw [Option.none_or, Option.getD_none, write]
      by_cases hkey : entry.1 = key
      · rw [if_pos hkey, ← hkey, Function.update_self, Option.getD_some]
      · rw [if_neg hkey, Function.update_of_ne (Ne.symm hkey), Option.getD_none]

theorem last_append (xs ys : List (κ × β)) :
    last key (xs ++ ys) = (last key ys).or (last key xs) := by
  induction xs with
  | nil => exact Option.or_none.symm
  | cons entry xs ih => rw [List.cons_append, last, ih, last, Option.or_assoc]

theorem last_eq_none_iff : last key entries = none ↔ ∀ entry ∈ entries, entry.1 ≠ key := by
  induction entries with
  | nil => simp [last]
  | cons entry entries ih =>
    rw [last, Option.or_eq_none_iff, ih, List.forall_mem_cons, and_comm]
    simp

/-- Where each key is written at most once, that write is the last. -/
theorem last_of_nodup (hnodup : (entries.map Prod.fst).Nodup) {value : β}
    (hmem : (key, value) ∈ entries) : last key entries = some value := by
  obtain ⟨before, after, rfl⟩ := List.append_of_mem hmem
  have hafter : last key after = none := by
    rw [List.map_append, List.map_cons] at hnodup
    have hfresh := (List.nodup_cons.1 (List.nodup_append.1 hnodup).2.1).1
    exact last_eq_none_iff.2 fun entry hentry heq =>
      hfresh (List.mem_map.2 ⟨entry, hentry, heq⟩)
  rw [last_append, last, hafter]
  simp

theorem last_map (f : β → γ) :
    last key (entries.map (Prod.map id f)) = (last key entries).map f := by
  induction entries with
  | nil => rfl
  | cons entry entries ih =>
    rw [List.map_cons, last, last, ih]
    cases last key entries with
    | some value => rfl
    | none => by_cases hkey : entry.1 = key <;> simp [hkey]

/-- Writes may be made again from the first on before more of them follow. -/
theorem writeAll_again (D : κ → β) (xs ys : List (κ × β)) :
    writeAll (writeAll D xs) (xs ++ ys) = writeAll D (xs ++ ys) := by
  funext key
  rw [writeAll_apply, writeAll_apply, writeAll_apply, last_append]
  cases last key ys with
  | some value => rfl
  | none => cases last key xs <;> rfl

end Writes
