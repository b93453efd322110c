import Mathlib

/-!
# Splitting at a separator

A list that is put together around a separator comes apart again at the last
occurrence of it, as long as the part behind holds none. Names that are read from
the right rest on this. At the first occurrence it comes apart when the part before
holds none.
-/
namespace Separator

variable {α : Type} [DecidableEq α]

/-- What stands before and behind the last separator. -/
def rsplitOnce (sep : α) : List α → Option (List α × List α)
  | [] => none
  | x :: xs =>
    match rsplitOnce sep xs with
    | some (before, behind) => some (x :: before, behind)
    | none => if x = sep then some ([], xs) else none

theorem rsplitOnce_none {sep : α} {xs : List α} (h : sep ∉ xs) : rsplitOnce sep xs = none := by
  induction xs with
  | nil => rfl
  | cons x xs ih =>
    obtain ⟨hne, hxs⟩ := List.ne_and_not_mem_of_not_mem_cons h
    rw [rsplitOnce, ih hxs]
    exact if_neg (Ne.symm hne)

theorem rsplitOnce_append {sep : α} (before : List α) {behind : List α} (h : sep ∉ behind) :
    rsplitOnce sep (before ++ sep :: behind) = some (before, behind) := by
  induction before with
  | nil =>
    rw [List.nil_append, rsplitOnce, rsplitOnce_none h]
    exact if_pos rfl
  | cons x before ih => rw [List.cons_append, rsplitOnce, ih]

/-- What holds no separator stays behind the last one. -/
theorem rsplitOnce_append_behind {sep : α} (xs : List α) {behind : List α} (h : sep ∉ behind) :
    rsplitOnce sep (xs ++ behind) =
      (rsplitOnce sep xs).map fun parts => (parts.1, parts.2 ++ behind) := by
  induction xs with
  | nil => rw [List.nil_append, rsplitOnce_none h]; rfl
  | cons x xs ih =>
    rw [List.cons_append, rsplitOnce, rsplitOnce, ih]
    cases rsplitOnce sep xs with
    | some parts => rfl
    | none =>
      simp only [Option.map_none]
      split <;> rfl

/-- The parts around a separator are determined when none is left behind it. -/
theorem append_separator_inj {sep : α} {before before' behind behind' : List α}
    (h : sep ∉ behind) (h' : sep ∉ behind')
    (heq : before ++ sep :: behind = before' ++ sep :: behind') :
    before = before' ∧ behind = behind' := by
  have hsplit := rsplitOnce_append before h
  rw [heq, rsplitOnce_append before' h', Option.some.injEq, Prod.mk.injEq] at hsplit
  exact ⟨hsplit.1.symm, hsplit.2.symm⟩

theorem rsplitOnce_eq_some {sep : α} {xs before behind : List α} :
    rsplitOnce sep xs = some (before, behind) ↔ xs = before ++ sep :: behind ∧ sep ∉ behind := by
  constructor
  · intro h
    by_cases hmem : sep ∈ xs
    · obtain ⟨behind', before', hxs, hnone⟩ :=
        List.eq_append_cons_of_mem (List.mem_reverse.2 hmem)
      have hback : xs = before'.reverse ++ sep :: behind'.reverse := by
        rw [← List.reverse_reverse xs, hxs]
        simp
      have hclean : sep ∉ behind'.reverse := fun hin => hnone (List.mem_reverse.1 hin)
      rw [hback, rsplitOnce_append _ hclean, Option.some.injEq, Prod.mk.injEq] at h
      obtain ⟨rfl, rfl⟩ := h
      exact ⟨hback, hclean⟩
    · rw [rsplitOnce_none hmem] at h
      cases h
  · rintro ⟨rfl, hbehind⟩
    exact rsplitOnce_append before hbehind

/-! ## Two pieces at most -/

theorem splitOn_eq_one {sep : α} {xs piece : List α} :
    xs.splitOn sep = [piece] ↔ xs = piece ∧ sep ∉ piece := by
  constructor
  · intro h
    by_cases hmem : sep ∈ xs
    · obtain ⟨front, rest, rfl, hfront⟩ := List.eq_append_cons_of_mem hmem
      rw [List.splitOn_append_cons_self_of_not_mem hfront] at h
      exact absurd (List.cons.inj h).2 (List.splitOn_ne_nil sep rest)
    · rw [List.splitOn_eq_singleton hmem, List.cons.injEq] at h
      obtain rfl := h.1
      exact ⟨rfl, hmem⟩
  · rintro ⟨rfl, hpiece⟩
    exact List.splitOn_eq_singleton hpiece

theorem splitOn_eq_two {sep : α} {xs before behind : List α} :
    xs.splitOn sep = [before, behind] ↔
      xs = before ++ sep :: behind ∧ sep ∉ before ∧ sep ∉ behind := by
  constructor
  · intro h
    by_cases hmem : sep ∈ xs
    · obtain ⟨front, rest, rfl, hfront⟩ := List.eq_append_cons_of_mem hmem
      rw [List.splitOn_append_cons_self_of_not_mem hfront, List.cons.injEq] at h
      obtain ⟨rfl, hrest⟩ := h
      obtain ⟨rfl, hbehind⟩ := splitOn_eq_one.1 hrest
      exact ⟨rfl, hfront, hbehind⟩
    · rw [List.splitOn_eq_singleton hmem] at h
      cases h
  · rintro ⟨rfl, hbefore, hbehind⟩
    rw [List.splitOn_append_cons_self_of_not_mem hbefore, List.splitOn_eq_singleton hbehind]

/-! ## The first separator -/

/-- What stands before and behind the first separator. -/
def splitOnce (sep : α) (xs : List α) : Option (List α × List α) :=
  match xs.dropWhile (· ≠ sep) with
  | [] => none
  | _ :: behind => some (xs.takeWhile (· ≠ sep), behind)

theorem splitOnce_none {sep : α} {xs : List α} (h : sep ∉ xs) : splitOnce sep xs = none := by
  have hall : ∀ x ∈ xs, decide (x ≠ sep) = true := fun x hx =>
    decide_eq_true fun heq => h (heq ▸ hx)
  rw [splitOnce, List.dropWhile_eq_nil_iff.mpr hall]

theorem splitOnce_append {sep : α} {before : List α} (h : sep ∉ before) (behind : List α) :
    splitOnce sep (before ++ sep :: behind) = some (before, behind) := by
  have hall : ∀ x ∈ before, decide (x ≠ sep) = true := fun x hx =>
    decide_eq_true fun heq => h (heq ▸ hx)
  rw [splitOnce, List.dropWhile_append_of_pos hall, List.takeWhile_append_of_pos hall]
  simp

theorem splitOnce_eq_some {sep : α} {xs before behind : List α}
    (h : splitOnce sep xs = some (before, behind)) : xs = before ++ sep :: behind := by
  rw [splitOnce] at h
  split at h
  · exact absurd h (by rintro ⟨⟩)
  · rename_i x more hdrop
    obtain ⟨hbefore, rfl⟩ := Prod.mk.inj (Option.some.inj h)
    have hhead := List.head?_dropWhile_not (fun x => decide (x ≠ sep)) xs
    rw [hdrop] at hhead
    have hx : x = sep := by simpa using hhead
    have hparts := List.takeWhile_append_dropWhile (p := fun x => decide (x ≠ sep)) (l := xs)
    rw [hdrop, hbefore, hx] at hparts
    exact hparts.symm

/-! ## Joined lists -/

/-- The pieces of lists that are joined by the separator; no list at all is one empty piece. -/
def pieces (sep : α) : List (List α) → List (List α)
  | [] => [[]]
  | x :: xs => (x :: xs).flatMap (List.splitOn sep)

theorem splitOn_joined (sep : α) (xs : List (List α)) :
    ([sep].intercalate xs).splitOn sep = pieces sep xs := by
  induction xs with
  | nil => rfl
  | cons x xs ih =>
    cases xs with
    | nil => rw [List.intercalate_singleton, pieces, List.flatMap_singleton]
    | cons y ys =>
      rw [List.intercalate_cons_cons, List.append_assoc, List.singleton_append,
        List.splitOn_append_cons_self, ih]
      rfl

/-- Joined lists are the same where their pieces are. -/
theorem joined_inj {sep : α} {xs ys : List (List α)} :
    [sep].intercalate xs = [sep].intercalate ys ↔ pieces sep xs = pieces sep ys := by
  constructor
  · intro h
    rw [← splitOn_joined, h, splitOn_joined]
  · intro h
    rw [← @List.intercalate_splitOn _ ([sep].intercalate xs) _ _ sep, splitOn_joined, h,
      ← splitOn_joined, List.intercalate_splitOn]

omit [DecidableEq α] in
/-- A list with a separator in it starts with the shorter of two beginnings. -/
theorem append_separator_cases {sep : α} {before before' behind behind' : List α} :
    before ++ sep :: behind = before' ++ sep :: behind' ↔
      (before = before' ∧ behind = behind') ∨
      (∃ more, before' = before ++ sep :: more ∧ behind = more ++ sep :: behind') ∨
      ∃ more, before = before' ++ sep :: more ∧ behind' = more ++ sep :: behind := by
  rw [List.append_eq_append_iff]
  constructor
  · rintro (⟨more, hbefore, hbehind⟩ | ⟨more, hbefore, hbehind⟩)
    · cases more with
      | nil =>
        rw [List.append_nil] at hbefore
        exact .inl ⟨hbefore.symm, (List.cons.inj hbehind).2⟩
      | cons c more =>
        obtain ⟨rfl, hrest⟩ := List.cons.inj hbehind
        exact .inr (.inl ⟨more, hbefore, hrest⟩)
    · cases more with
      | nil =>
        rw [List.append_nil] at hbefore
        exact .inl ⟨hbefore, (List.cons.inj hbehind).2.symm⟩
      | cons c more =>
        obtain ⟨rfl, hrest⟩ := List.cons.inj hbehind
        exact .inr (.inr ⟨more, hbefore, hrest⟩)
  · rintro (⟨rfl, rfl⟩ | ⟨more, rfl, rfl⟩ | ⟨more, rfl, rfl⟩)
    · exact .inl ⟨[], (List.append_nil _).symm, rfl⟩
    · exact .inl ⟨sep :: more, rfl, rfl⟩
    · exact .inr ⟨sep :: more, rfl, rfl⟩

end Separator
