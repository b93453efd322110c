import Mathlib.Data.List.DropRight

/-!
# Templates

A template names values between an opening and a closing mark. One pass from left to right
takes it apart into placeholders and what stays as it is; which of the occurrences of a name
it takes is said by the template alone.
-/
namespace Template

variable {α : Type} {l r : α}

inductive Piece (α : Type) where
  | literal (a : α)
  | placeholder (token : List α)

/-- What a piece was in the template. -/
def Piece.source (l r : α) : Piece α → List α
  | .literal a => [a]
  | .placeholder token => l :: (token ++ [r])

/-- What a piece becomes. -/
def Piece.render (values : List α → List α) : Piece α → List α
  | .literal a => [a]
  | .placeholder token => values token

def sourceOf (l r : α) (pieces : List (Piece α)) : List α := pieces.flatMap (Piece.source l r)

@[simp] theorem sourceOf_cons (piece : Piece α) (pieces : List (Piece α)) :
    sourceOf l r (piece :: pieces) = piece.source l r ++ sourceOf l r pieces := rfl

@[simp] theorem sourceOf_append (pieces pieces' : List (Piece α)) :
    sourceOf l r (pieces ++ pieces') = sourceOf l r pieces ++ sourceOf l r pieces' :=
  List.flatMap_append

/-- The pieces of a template: every placeholder is a declared token, and no mark that is left
opens one. -/
structure OnePass (l r : α) (declared : List α → Prop) (template : List α)
    (pieces : List (Piece α)) : Prop where
  source : sourceOf l r pieces = template
  tokens : ∀ token, .placeholder token ∈ pieces → declared token ∧ r ∉ token
  every : ∀ before behind, pieces = before ++ .literal l :: behind → ∀ token, declared token →
    r ∉ token → ¬ (token ++ [r]) <+: sourceOf l r behind

theorem OnePass.nil (declared : List α → Prop) : OnePass l r declared [] [] :=
  ⟨rfl, nofun, fun before behind h => absurd h (by simp)⟩

variable {declared : List α → Prop} {template : List α} {pieces : List (Piece α)}

theorem OnePass.literal {a : α} (h : OnePass l r declared template pieces)
    (hstays : a = l → ∀ token, declared token → r ∉ token → ¬ (token ++ [r]) <+: template) :
    OnePass l r declared (a :: template) (.literal a :: pieces) := by
  constructor
  case source => rw [sourceOf_cons, h.source]; rfl
  case tokens =>
    intro token hmem
    cases hmem with
    | tail _ hmem => exact h.tokens token hmem
  case every =>
    intro before behind hsplit
    cases before with
    | nil =>
      cases hsplit
      rw [h.source]
      exact hstays rfl
    | cons piece before =>
      cases hsplit
      exact h.every before behind rfl

theorem OnePass.placeholder {token : List α} (h : OnePass l r declared template pieces)
    (hdeclared : declared token) (hclosed : r ∉ token) :
    OnePass l r declared (l :: (token ++ r :: template)) (.placeholder token :: pieces) := by
  constructor
  case source => simp [Piece.source, h.source]
  case tokens =>
    intro other hmem
    cases hmem with
    | head => exact ⟨hdeclared, hclosed⟩
    | tail _ hmem => exact h.tokens other hmem
  case every =>
    intro before behind hsplit
    cases before with
    | nil => cases hsplit
    | cons piece before =>
      cases hsplit
      exact h.every before behind rfl

/-- Which piece a place of the template lies in. -/
theorem piece_at {front behind : List α} {a : α} (h : sourceOf l r pieces = front ++ a :: behind) :
    ∃ before piece after inside left, pieces = before ++ piece :: after ∧
      piece.source l r = inside ++ a :: left ∧ front = sourceOf l r before ++ inside ∧
        behind = left ++ sourceOf l r after := by
  induction pieces generalizing front with
  | nil => simp [sourceOf] at h
  | cons piece pieces ih =>
    rw [sourceOf_cons, List.append_eq_append_iff] at h
    obtain ⟨rest, rfl, hrest⟩ | ⟨rest, hpiece, hrest⟩ := h
    · obtain ⟨before, other, after, inside, left, rfl, hsource, rfl, rfl⟩ := ih hrest
      exact ⟨piece :: before, other, after, inside, left, rfl, hsource, by simp, rfl⟩
    · cases rest with
      | nil =>
        obtain ⟨before, other, after, inside, left, rfl, hsource, hfront, rfl⟩ :=
          ih (hrest.symm.trans (List.nil_append _).symm)
        have hnil := List.append_eq_nil_iff.mp hfront.symm
        refine ⟨piece :: before, other, after, inside, left, rfl, hsource, ?_, rfl⟩
        simp [hpiece, hnil.1, hnil.2]
      | cons first rest =>
        cases hrest
        exact ⟨[], piece, pieces, front, rest, rfl, hpiece, rfl, rfl⟩

/-- A mark within a placeholder: the opening one, or one in its token. -/
theorem placeholder_at {token inside left : List α} (hmarks : l ≠ r)
    (h : (Piece.placeholder token).source l r = inside ++ l :: left) :
    ∃ kept, left = kept ++ [r] ∧
      ((inside = [] ∧ token = kept) ∨ ∃ longer, inside = l :: longer ∧ token = longer ++ l :: kept) := by
  cases inside with
  | nil =>
    cases h
    exact ⟨token, rfl, .inl ⟨rfl, rfl⟩⟩
  | cons first longer =>
    obtain ⟨rfl, htail⟩ := List.cons.inj h
    obtain rfl | ⟨kept, last, rfl⟩ := List.eq_nil_or_concat' left
    · obtain ⟨-, hlast⟩ := List.append_inj' htail rfl
      exact absurd (List.singleton_inj.mp hlast).symm hmarks
    · have htoken : token ++ [r] = (longer ++ l :: kept) ++ [last] := by
        rw [List.append_assoc]
        exact htail
      obtain ⟨rfl, hlast⟩ := List.append_inj' htoken rfl
      obtain rfl := List.singleton_inj.mp hlast
      exact ⟨kept, rfl, .inr ⟨longer, rfl, rfl⟩⟩

/-- What stands in front of the first closing mark. -/
theorem before_first {xs ys behind behind' : List α} (hxs : r ∉ xs) (hys : r ∉ ys)
    (h : xs ++ r :: behind = ys ++ r :: behind') : xs = ys := by
  induction xs generalizing ys with
  | nil =>
    cases ys with
    | nil => rfl
    | cons y ys =>
      cases h
      exact absurd List.mem_cons_self hys
  | cons x xs ih =>
    cases ys with
    | nil =>
      cases h
      exact absurd List.mem_cons_self hxs
    | cons y ys =>
      obtain ⟨rfl, htail⟩ := List.cons.inj h
      rw [ih (fun hmem => hxs (List.mem_cons_of_mem _ hmem))
        (fun hmem => hys (List.mem_cons_of_mem _ hmem)) htail]

theorem literal_at {a : α} {inside left : List α}
    (h : (Piece.literal a).source l r = inside ++ l :: left) : inside = [] ∧ a = l ∧ left = [] := by
  cases inside with
  | nil =>
    cases h
    exact ⟨rfl, rfl, rfl⟩
  | cons first inside => cases inside <;> cases h

/-- An occurrence of a declared token is taken, unless it is the end of a longer one. -/
theorem OnePass.placeholder_iff (h : OnePass l r declared template pieces) (hmarks : l ≠ r)
    {token : List α} :
    .placeholder token ∈ pieces ↔ declared token ∧ r ∉ token ∧ ∃ front behind,
      template = front ++ l :: (token ++ r :: behind) ∧
        ∀ start longer, front = start ++ l :: longer → r ∉ longer →
          ¬ declared (longer ++ l :: token) := by
  constructor
  · intro hmem
    obtain ⟨before, after, rfl⟩ := List.append_of_mem hmem
    obtain ⟨hdeclared, hclosed⟩ := h.tokens token hmem
    refine ⟨hdeclared, hclosed, sourceOf l r before, sourceOf l r after, ?_, ?_⟩
    · rw [← h.source]
      simp [Piece.source]
    · intro start longer hfront hlonger hboth
      obtain ⟨before', piece, after', inside, left, rfl, hsource, -, rfl⟩ := piece_at hfront
      cases piece with
      | literal a =>
        obtain ⟨rfl, rfl, rfl⟩ := literal_at hsource
        have hclosedBoth : r ∉ [] ++ sourceOf a r after' ++ a :: token := by
          intro hmem
          obtain hin | hin := List.mem_append.mp hmem
          · exact hlonger hin
          · obtain rfl | hin := List.mem_cons.mp hin
            · exact hmarks rfl
            · exact hclosed hin
        apply h.every before' (after' ++ .placeholder token :: after) (by simp) _ hboth hclosedBoth
        exact ⟨sourceOf a r after, by simp [Piece.source]⟩
      | placeholder other =>
        -- the closing mark of this placeholder stands in front of the token
        obtain ⟨kept, rfl, -⟩ := placeholder_at hmarks hsource
        exact hlonger (by simp)
  · rintro ⟨hdeclared, hclosed, front, behind, htemplate, hlongest⟩
    obtain ⟨before, piece, after, inside, left, rfl, hsource, rfl, hbehind⟩ :=
      piece_at (h.source.trans htemplate)
    cases piece with
    | literal a =>
      obtain ⟨rfl, rfl, rfl⟩ := literal_at hsource
      refine absurd ?_ (h.every before after rfl token hdeclared hclosed)
      exact ⟨behind, by simpa using hbehind⟩
    | placeholder other =>
      obtain ⟨hother, hotherClosed⟩ := h.tokens other (by simp)
      obtain ⟨kept, rfl, ⟨rfl, rfl⟩ | ⟨longer, rfl, rfl⟩⟩ := placeholder_at hmarks hsource
      · rw [List.append_assoc, List.singleton_append] at hbehind
        rw [before_first hclosed hotherClosed hbehind]
        simp
      · rw [List.append_assoc, List.singleton_append] at hbehind
        have hkept : r ∉ kept := fun hmem => hotherClosed (by simp [hmem])
        obtain rfl := before_first hclosed hkept hbehind
        exact absurd hother (hlongest (sourceOf l r before) longer rfl
          fun hmem => hotherClosed (by simp [hmem]))

/-! ## A rendered template, cut up -/

/-- A literal of a kind. -/
def Piece.is (p : α → Bool) : Piece α → Bool
  | .literal a => p a
  | .placeholder _ => false

/-- A literal of a kind, or any placeholder. -/
def Piece.allows (p : α → Bool) : Piece α → Bool
  | .literal a => p a
  | .placeholder _ => true

def Piece.isPlaceholder : Piece α → Bool
  | .literal _ => false
  | .placeholder _ => true

/-- Of a kind whatever stands for it. -/
def Piece.silent (p : α → Bool) (values : List α → List α) : Piece α → Bool
  | .literal a => p a
  | .placeholder token => (values token).isEmpty

/-- The pieces without the literals of a kind that come last. -/
def trimmed (p : α → Bool) (values : List α → List α) (pieces : List (Piece α)) :
    List (Piece α) :=
  pieces.rdropWhile (Piece.silent p values) ++
    (pieces.rtakeWhile (Piece.silent p values)).filter Piece.isPlaceholder

section Render

variable {values : List α → List α} {p : α → Bool}

theorem render_literal (a : α) (pieces : List (Piece α)) :
    (Piece.literal a :: pieces).flatMap (Piece.render values) =
      a :: pieces.flatMap (Piece.render values) := rfl

theorem render_placeholder (token : List α) (pieces : List (Piece α)) :
    (Piece.placeholder token :: pieces).flatMap (Piece.render values) =
      values token ++ pieces.flatMap (Piece.render values) := rfl

theorem takeWhile_render (h : ∀ token, ∀ a ∈ values token, p a = true) (pieces : List (Piece α)) :
    (pieces.flatMap (Piece.render values)).takeWhile p =
      (pieces.takeWhile (Piece.allows p)).flatMap (Piece.render values) := by
  induction pieces with
  | nil => rfl
  | cons piece pieces ih =>
    cases piece with
    | literal a =>
      rw [render_literal]
      cases ha : p a with
      | true =>
        rw [List.takeWhile_cons_of_pos ha, ih, List.takeWhile_cons_of_pos (by exact ha), render_literal]
      | false =>
        rw [List.takeWhile_cons_of_neg (by simp [ha]),
          List.takeWhile_cons_of_neg (by simp [Piece.allows, ha])]
        rfl
    | placeholder token =>
      rw [render_placeholder, List.takeWhile_append_of_pos (h token), ih,
        List.takeWhile_cons_of_pos rfl, render_placeholder]

theorem dropWhile_render (h : ∀ token, ∀ a ∈ values token, p a = true) (pieces : List (Piece α)) :
    (pieces.flatMap (Piece.render values)).dropWhile p =
      (pieces.dropWhile (Piece.allows p)).flatMap (Piece.render values) := by
  induction pieces with
  | nil => rfl
  | cons piece pieces ih =>
    cases piece with
    | literal a =>
      rw [render_literal]
      cases ha : p a with
      | true => rw [List.dropWhile_cons_of_pos ha, ih, List.dropWhile_cons_of_pos (by exact ha)]
      | false =>
        rw [List.dropWhile_cons_of_neg (by simp [ha]),
          List.dropWhile_cons_of_neg (by simp [Piece.allows, ha]), render_literal]
    | placeholder token =>
      rw [render_placeholder, List.dropWhile_append_of_pos (h token), ih,
        List.dropWhile_cons_of_pos rfl]

theorem filter_render (h : ∀ token, ∀ a ∈ values token, p a = true) (pieces : List (Piece α)) :
    (pieces.flatMap (Piece.render values)).filter p =
      (pieces.filter (Piece.allows p)).flatMap (Piece.render values) := by
  induction pieces with
  | nil => rfl
  | cons piece pieces ih =>
    cases piece with
    | literal a =>
      rw [render_literal]
      cases ha : p a with
      | true => rw [List.filter_cons_of_pos ha, ih, List.filter_cons_of_pos (by exact ha), render_literal]
      | false =>
        rw [List.filter_cons_of_neg (by simp [ha]),
          List.filter_cons_of_neg (by simp [Piece.allows, ha]), ih]
    | placeholder token =>
      rw [render_placeholder, List.filter_append, List.filter_eq_self.mpr (h token), ih,
        List.filter_cons_of_pos rfl, render_placeholder]

theorem splitOnP_append {xs : List α} (h : ∀ a ∈ xs, p a = false) (ys : List α) :
    (xs ++ ys).splitOnP p = (ys.splitOnP p).modifyHead (xs ++ ·) := by
  induction xs with
  | nil =>
    cases hsplit : ys.splitOnP p with
    | nil => exact hsplit
    | cons first rest => exact hsplit
  | cons x xs ih =>
    rw [List.cons_append, List.splitOnP_cons_eq_if_modifyHead, h x List.mem_cons_self,
      ih (fun a ha => h a (List.mem_cons_of_mem _ ha))]
    cases ys.splitOnP p <;> rfl

theorem splitOnP_render (h : ∀ token, ∀ a ∈ values token, p a = false) (pieces : List (Piece α)) :
    (pieces.flatMap (Piece.render values)).splitOnP p =
      (pieces.splitOnP (Piece.is p)).map fun pieces => pieces.flatMap (Piece.render values) := by
  induction pieces with
  | nil => simp
  | cons piece pieces ih =>
    rw [List.splitOnP_cons_eq_if_modifyHead]
    cases piece with
    | literal a =>
      rw [render_literal, List.splitOnP_cons_eq_if_modifyHead, ih, Piece.is]
      split
      · rfl
      · cases pieces.splitOnP (Piece.is p) <;> rfl
    | placeholder token =>
      rw [render_placeholder, splitOnP_append (h token), ih]
      cases pieces.splitOnP (Piece.is p) <;> rfl

/-- Trimming the pieces trims the text. -/
theorem render_trimmed (h : ∀ token, ∀ a ∈ values token, p a = false) (pieces : List (Piece α)) :
    (trimmed p values pieces).flatMap (Piece.render values) =
      (pieces.flatMap (Piece.render values)).rdropWhile p := by
  have hempty : ((pieces.rtakeWhile (Piece.silent p values)).filter Piece.isPlaceholder).flatMap
      (Piece.render values) = [] := by
    rw [List.flatMap_eq_nil_iff]
    intro piece hpiece
    obtain ⟨hmem, hplaceholder⟩ := List.mem_filter.mp hpiece
    have hsilent := List.mem_rtakeWhile_imp hmem
    cases piece with
    | literal a => cases hplaceholder
    | placeholder token => exact List.isEmpty_iff.mp hsilent
  rw [trimmed, List.flatMap_append, hempty, List.append_nil]
  clear hempty
  induction pieces using List.reverseRecOn with
  | nil => rfl
  | append_singleton pieces piece ih =>
    rw [List.flatMap_append, List.flatMap_singleton, List.rdropWhile_concat]
    cases piece with
    | literal a =>
      rw [Piece.render, List.rdropWhile_concat, ← ih, Piece.silent]
      split
      · rfl
      · rw [List.flatMap_append]
        rfl
    | placeholder token =>
      rw [Piece.render, Piece.silent]
      obtain htext | ⟨init, last, htext⟩ := List.eq_nil_or_concat' (values token)
      · rw [htext, List.append_nil, List.isEmpty_nil, if_pos rfl, ih]
      · have hlast : p last = false := h token last (by simp [htext])
        rw [htext, ← List.append_assoc, List.rdropWhile_concat_neg _ _ _ (by simp [hlast]),
          if_neg (by simp), List.flatMap_append, List.flatMap_singleton, Piece.render, htext,
          List.append_assoc]

end Render

end Template
