import RdltConnectors.Library.Highest
import RdltConnectors.Rest.Json

/-!
# The highest cursor

Cursor values are strings or numbers and are compared as strings, number or not.
-/
namespace Rest

open Highest

/-- Strings and numbers only; anything else is skipped, never guessed. -/
def renderScalar : Value → Option String
  | .string text => some text
  | .number n => some n.text
  | _ => none

def cursorOf (field : String) (record : Value) : Option String :=
  (record.field field).bind renderScalar

def observe (records : List Value) (field : String) (highest : Option String) : Option String :=
  records.foldl (fun highest record =>
    match cursorOf field record with
    | none => highest
    | some rendered => raise highest rendered) highest

def mergeMaxes (highest : Option String) (childMaxes : List (Option String)) : Option String :=
  childMaxes.foldl (fun highest childMax =>
    match childMax with
    | none => highest
    | some rendered => raise highest rendered) highest

example : observe [.object [("at", .string "2026-01-03")], .object [("at", .string "2026-01-09")],
    .object [("at", .array [])], .object [("other", .string "2026-12-31")]] "at"
    (some "2026-01-05") = some "2026-01-09" := by decide

def cursorsOf (field : String) (records : List Value) : List String :=
  records.filterMap (cursorOf field)

@[simp] theorem cursorsOf_nil (field : String) : cursorsOf field [] = [] := rfl

@[simp] theorem cursorsOf_append (field : String) (first second : List Value) :
    cursorsOf field (first ++ second) = cursorsOf field first ++ cursorsOf field second := by
  simp [cursorsOf]

theorem mem_cursorsOf {field : String} {records : List Value} {c : String} :
    c ∈ cursorsOf field records ↔ ∃ record ∈ records, cursorOf field record = some c := by
  simp [cursorsOf]

theorem observe_eq (records : List Value) (field : String) (highest : Option String) :
    observe records field highest = raiseAll highest (cursorsOf field records) := by
  induction records generalizing highest with
  | nil => rfl
  | cons record records ih =>
    simp only [observe, List.foldl_cons, cursorsOf] at ih ⊢
    cases hcursor : cursorOf field record with
    | none => rw [List.filterMap_cons_none hcursor]; exact ih highest
    | some c => rw [List.filterMap_cons_some hcursor]; exact ih (raise highest c)

theorem mergeMaxes_eq (highest : Option String) (childMaxes : List (Option String)) :
    mergeMaxes highest childMaxes = raiseAll highest (childMaxes.filterMap id) := by
  induction childMaxes generalizing highest with
  | nil => rfl
  | cons childMax childMaxes ih =>
    simp only [mergeMaxes, List.foldl_cons] at ih ⊢
    cases childMax with
    | none => exact ih highest
    | some c => exact ih (raise highest c)

/-- The order in which the children come to an end does not matter. -/
theorem mergeMaxes_perm {first second : List (Option String)} (h : first.Perm second)
    (highest : Option String) : mergeMaxes highest first = mergeMaxes highest second := by
  rw [mergeMaxes_eq, mergeMaxes_eq]
  exact raiseAll_perm (h.filterMap id) highest

end Rest
