import RdltConnectors.Library.Quoting

/-!
# Splitting outside of quotes and brackets

A text is cut at the separators that stand in no quotes and in no brackets. Where the brackets
of a piece match, nothing in it is cut, and what it is followed by is split as if it stood alone.
-/
namespace Nesting

variable {α : Type}

structure Marks (α : Type) where
  quote : α
  opening : α
  closing : α
  separator : α

/-- The marks are four. -/
def Marks.Distinct (m : Marks α) : Prop := [m.quote, m.opening, m.closing, m.separator].Nodup

/-- In front of the first piece. -/
def prepend (text : List α) : List (List α) → List (List α)
  | [] => [text]
  | piece :: rest => (text ++ piece) :: rest

@[simp] theorem prepend_nil {pieces : List (List α)} (h : pieces ≠ []) : prepend [] pieces = pieces := by
  cases pieces with
  | nil => exact absurd rfl h
  | cons piece rest => rfl

theorem prepend_ne_nil (text : List α) (pieces : List (List α)) : prepend text pieces ≠ [] := by
  cases pieces with
  | nil => exact List.cons_ne_nil _ _
  | cons piece rest => exact List.cons_ne_nil _ _

@[simp] theorem prepend_prepend (xs ys : List α) (pieces : List (List α)) :
    prepend xs (prepend ys pieces) = prepend (xs ++ ys) pieces := by
  cases pieces with
  | nil => rfl
  | cons piece rest => simp [prepend]

namespace Marks

variable [DecidableEq α] (m : Marks α)

/-- The pieces of a text, read at some depth, in quotes or not. -/
def split : Int → Bool → List α → List (List α)
  | _, _, [] => [[]]
  | depth, quoted, c :: rest =>
    if c = m.quote then prepend [c] (split depth (!quoted) rest)
    else if c = m.opening ∧ quoted = false then prepend [c] (split (depth + 1) quoted rest)
    else if c = m.closing ∧ quoted = false then prepend [c] (split (depth - 1) quoted rest)
    else if c = m.separator ∧ quoted = false ∧ depth = 0 then [] :: split depth quoted rest
    else prepend [c] (split depth quoted rest)

omit [DecidableEq α] in
/-- A text whose brackets match; in brackets it may have separators. -/
inductive Balanced : Bool → List α → Prop
  | nil (inside : Bool) : Balanced inside []
  | plain {inside : Bool} {c : α} (h : c ∉ [m.quote, m.opening, m.closing, m.separator]) :
    Balanced inside [c]
  | separator : Balanced true [m.separator]
  | quoted {inside : Bool} {text : List α} (h : m.quote ∉ text) :
    Balanced inside (m.quote :: (text ++ [m.quote]))
  | nested {inside : Bool} {text : List α} (h : Balanced true text) :
    Balanced inside (m.opening :: (text ++ [m.closing]))
  | append {inside : Bool} {xs ys : List α} (hxs : Balanced inside xs) (hys : Balanced inside ys) :
    Balanced inside (xs ++ ys)

variable {m}

theorem split_ne_nil (depth : Int) (quoted : Bool) (text : List α) :
    m.split depth quoted text ≠ [] := by
  cases text with
  | nil => exact List.cons_ne_nil _ _
  | cons c rest =>
    rw [split]
    split
    · exact prepend_ne_nil _ _
    split
    · exact prepend_ne_nil _ _
    split
    · exact prepend_ne_nil _ _
    split
    · exact List.cons_ne_nil _ _
    · exact prepend_ne_nil _ _

/-- In quotes nothing is a mark but the quote. -/
theorem split_quoted {text : List α} (h : m.quote ∉ text) (depth : Int) (rest : List α) :
    m.split depth true (text ++ m.quote :: rest) =
      prepend (text ++ [m.quote]) (m.split depth false rest) := by
  induction text with
  | nil => rw [List.nil_append, split, if_pos rfl, Bool.not_true, List.nil_append]
  | cons c text ih =>
    obtain ⟨hc, htext⟩ := not_or.1 (fun hmem => h (List.mem_cons.2 hmem))
    rw [List.cons_append, split, if_neg (Ne.symm hc), if_neg (by simp), if_neg (by simp),
      if_neg (by simp), ih htext, prepend_prepend]
    rfl

theorem split_plain {c : α} (h : c ∉ [m.quote, m.opening, m.closing, m.separator]) (depth : Int)
    (rest : List α) : m.split depth false (c :: rest) = prepend [c] (m.split depth false rest) := by
  simp only [List.mem_cons, List.not_mem_nil, or_false, not_or] at h
  rw [split, if_neg h.1, if_neg (fun hc => h.2.1 hc.1), if_neg (fun hc => h.2.2.1 hc.1),
    if_neg (fun hc => h.2.2.2 hc.1)]

/-- What matches is not cut. -/
theorem split_append (hm : m.Distinct) {inside : Bool} {text : List α}
    (h : m.Balanced inside text) {depth : Int} (hdepth : 0 ≤ depth)
    (hinside : inside = true → 0 < depth) (rest : List α) :
    m.split depth false (text ++ rest) = prepend text (m.split depth false rest) := by
  have hmarks := hm
  simp only [Distinct, List.nodup_cons, List.mem_cons, List.not_mem_nil, or_false, not_or] at hmarks
  obtain ⟨⟨hqo, hqc, hqs⟩, ⟨hoc, hos⟩, hcs, -⟩ := hmarks
  induction h generalizing depth rest with
  | nil inside => rw [List.nil_append, prepend_nil (split_ne_nil _ _ _)]
  | plain h => exact split_plain h depth rest
  | separator =>
    have hpos := hinside rfl
    rw [List.singleton_append, split, if_neg (Ne.symm hqs), if_neg (fun hc => hos hc.1.symm),
      if_neg (fun hc => hcs hc.1.symm), if_neg (by omega)]
  | quoted h =>
    rw [List.cons_append, List.append_assoc, split, if_pos rfl, Bool.not_false]
    exact (congrArg _ (split_quoted h depth rest)).trans (prepend_prepend _ _ _)
  | @nested inside text h ih =>
    have hclosing : m.split (depth + 1) false (m.closing :: rest) =
        prepend [m.closing] (m.split depth false rest) := by
      rw [split, if_neg (Ne.symm hqc), if_neg (fun hc => hoc hc.1.symm), if_pos ⟨rfl, rfl⟩,
        Int.add_sub_cancel]
    rw [List.cons_append, List.append_assoc, split, if_neg (Ne.symm hqo), if_pos ⟨rfl, rfl⟩]
    have hdeeper : 0 < depth + 1 := by omega
    have hrest := ih (Int.le_of_lt hdeeper) (fun _ => hdeeper) (m.closing :: rest)
    rw [hclosing, prepend_prepend] at hrest
    exact (congrArg _ hrest).trans (prepend_prepend _ _ _)
  | append hxs hys ihxs ihys =>
    rw [List.append_assoc, ihxs hdepth hinside, ihys hdepth hinside, prepend_prepend]

/-- The pieces of a text that are joined by the separator. -/
theorem split_joined (hm : m.Distinct) {piece : List α} (h : m.Balanced false piece)
    (rest : List α) :
    m.split 0 false (piece ++ m.separator :: rest) = piece :: m.split 0 false rest := by
  have hmarks := hm
  simp only [Distinct, List.nodup_cons, List.mem_cons, List.not_mem_nil, or_false, not_or] at hmarks
  obtain ⟨⟨hqo, hqc, hqs⟩, ⟨hoc, hos⟩, hcs, -⟩ := hmarks
  rw [split_append hm h (Int.le_refl 0) nofun, split, if_neg (Ne.symm hqs),
    if_neg (fun hc => hos hc.1.symm), if_neg (fun hc => hcs hc.1.symm), if_pos ⟨rfl, rfl, rfl⟩]
  simp [prepend]

theorem split_one (hm : m.Distinct) {piece : List α} (h : m.Balanced false piece) :
    m.split 0 false piece = [piece] := by
  have hone := split_append hm h (Int.le_refl 0) nofun []
  rw [List.append_nil] at hone
  rw [hone, split, prepend, List.append_nil]

omit [DecidableEq α] in
/-- Where separators may stand, so may anything that has none. -/
theorem Balanced.inner {inside : Bool} {text : List α} (h : m.Balanced inside text) :
    m.Balanced true text := by
  induction h with
  | nil inside => exact .nil true
  | plain h => exact .plain h
  | separator => exact .separator
  | quoted h => exact .quoted h
  | nested h => exact .nested h
  | append hxs hys ihxs ihys => exact .append ihxs ihys

omit [DecidableEq α] in
theorem balanced_plain {inside : Bool} {text : List α}
    (h : ∀ c ∈ text, c ∉ [m.quote, m.opening, m.closing, m.separator]) : m.Balanced inside text := by
  induction text with
  | nil => exact .nil inside
  | cons c text ih =>
    obtain ⟨hc, htext⟩ := List.forall_mem_cons.1 h
    exact .append (.plain hc) (ih htext)

omit [DecidableEq α] in
theorem balanced_intercalate {inside : Bool} {sep : List α} (hsep : m.Balanced inside sep)
    {pieces : List (List α)} (h : ∀ text ∈ pieces, m.Balanced inside text) :
    m.Balanced inside (sep.intercalate pieces) := by
  induction pieces with
  | nil => exact .nil inside
  | cons piece rest ih =>
    obtain ⟨hpiece, hrest⟩ := List.forall_mem_cons.1 h
    cases rest with
    | nil =>
      rw [List.intercalate_singleton]
      exact hpiece
    | cons next rest =>
      rw [List.intercalate_cons_cons]
      exact .append (.append hpiece hsep) (ih hrest)

/-- A quoted text whose quotes are doubled is one quoted part after the other. -/
theorem balanced_doubled {inside : Bool} (text front : List α) (h : m.quote ∉ front) :
    m.Balanced inside (m.quote :: (front ++ (Quoting.doubled m.quote text ++ [m.quote]))) := by
  induction text generalizing front with
  | nil => exact .quoted h
  | cons c text ih =>
    by_cases hc : c = m.quote
    · subst hc
      have hquoted : m.Balanced inside (m.quote :: (front ++ [m.quote])) := .quoted h
      have hall := Balanced.append hquoted (ih [] List.not_mem_nil)
      simpa [Quoting.doubled, Quoting.double] using hall
    · have hlonger : m.quote ∉ front ++ [c] := by
        rw [List.mem_append, List.mem_singleton]
        exact not_or.2 ⟨h, Ne.symm hc⟩
      have hall := ih (front ++ [c]) hlonger
      simpa [Quoting.doubled, Quoting.double, hc] using hall

/-- Pieces behind a separator and one more character are joined. -/
theorem split_intercalate (hm : m.Distinct) {c : α}
    (hc : c ∉ [m.quote, m.opening, m.closing, m.separator]) {piece : List α}
    {rest : List (List α)} (h : ∀ text ∈ piece :: rest, m.Balanced false text) :
    m.split 0 false ([m.separator, c].intercalate (piece :: rest)) =
      piece :: rest.map (c :: ·) := by
  induction rest generalizing piece with
  | nil =>
    rw [List.intercalate_singleton]
    exact split_one hm (h piece List.mem_cons_self)
  | cons next rest ih =>
    obtain ⟨hpiece, hrest⟩ := List.forall_mem_cons.1 h
    rw [List.intercalate_cons_cons, List.append_assoc, List.cons_append, split_joined hm hpiece,
      List.singleton_append, split_plain hc, ih hrest]
    rfl

/-- The pieces are no longer than the text. -/
theorem length_le_of_mem_split {text piece : List α} {depth : Int} {quoted : Bool}
    (h : piece ∈ m.split depth quoted text) : piece.length ≤ text.length := by
  have hprepend {c : α} {rest : List α} {pieces : List (List α)}
      (ih : ∀ piece ∈ pieces, piece.length ≤ rest.length) {piece : List α}
      (hpiece : piece ∈ prepend [c] pieces) : piece.length ≤ (c :: rest).length := by
    cases pieces with
    | nil =>
      rw [List.mem_singleton.1 hpiece]
      exact Nat.succ_le_succ (Nat.zero_le _)
    | cons first others =>
      obtain rfl | hin := List.mem_cons.1 hpiece
      · exact Nat.succ_le_succ (ih first List.mem_cons_self)
      · exact Nat.le_succ_of_le (ih piece (List.mem_cons_of_mem _ hin))
  induction text generalizing depth quoted piece with
  | nil => exact Nat.le_of_eq (congrArg List.length (List.mem_singleton.1 h))
  | cons c rest ih =>
    rw [split] at h
    split at h
    · exact hprepend (fun _ hin => ih hin) h
    split at h
    · exact hprepend (fun _ hin => ih hin) h
    split at h
    · exact hprepend (fun _ hin => ih hin) h
    split at h
    · obtain rfl | hin := List.mem_cons.1 h
      · exact Nat.zero_le _
      · exact Nat.le_succ_of_le (ih hin)
    · exact hprepend (fun _ hin => ih hin) h

end Marks

end Nesting
