import Mathlib.Data.List.Basic

/-!
# Quoted tokens

A quoted token ends at the first quote that is neither doubled nor escaped. A text is written
into one by a spelling of each of its characters, and when every spelling is read back as its
character, the token is read back as the text and nothing behind the closing quote is touched.
-/
namespace Quoting

variable {α β : Type} [DecidableEq α]

/-- How a language reads its quoted tokens. -/
structure Lexis (α : Type) where
  /-- opens and closes a token, stands for itself when doubled -/
  quote : α
  escapes : α → Bool
  /-- what stands behind an escape, and how many characters it takes -/
  escaped : List α → Option (α × Nat)

def push (c : α) (token : List α × List α) : List α × List α := (c :: token.1, token.2)

namespace Lexis

variable (L : Lexis α)

/-- The value of a token behind its opening quote, and what follows its closing quote. -/
def body : List α → Option (List α × List α)
  | [] => none
  | c :: rest =>
    if c = L.quote then
      match rest with
      | [] => some ([], [])
      | d :: more => if d = L.quote then (body more).map (push d) else some ([], d :: more)
    else if L.escapes c then
      match L.escaped rest with
      | none => none
      | some (d, taken) => (body (rest.drop taken)).map (push d)
    else (body rest).map (push c)
  termination_by text => text.length
  decreasing_by all_goals (simp_wf; try omega)

/-- The quoted token a text starts with. -/
def token : List α → Option (List α × List α)
  | [] => none
  | c :: rest => if c = L.quote then L.body rest else none

/-- Each character's spelling is read as the character, whatever follows. -/
def Spells (written : α → List α) : Prop :=
  ∀ c rest, L.body (written c ++ rest) = (L.body rest).map (push c)

variable {L}

theorem body_close {rest : List α} (h : rest.head? ≠ some L.quote) :
    L.body (L.quote :: rest) = some ([], rest) := by
  rw [body.eq_def]
  dsimp only
  rw [if_pos rfl]
  cases rest with
  | nil => rfl
  | cons d more => exact if_neg fun he => h (congrArg some he)

theorem body_doubled (rest : List α) :
    L.body (L.quote :: L.quote :: rest) = (L.body rest).map (push L.quote) := by
  rw [body.eq_def]
  dsimp only
  rw [if_pos rfl, if_pos rfl]

theorem body_plain {c : α} (hquote : c ≠ L.quote) (hescape : L.escapes c = false) (rest : List α) :
    L.body (c :: rest) = (L.body rest).map (push c) := by
  rw [body.eq_def]
  dsimp only
  rw [if_neg hquote, if_neg (by simp [hescape])]

theorem body_escape {c d : α} {taken : Nat} {rest : List α} (hquote : c ≠ L.quote)
    (hescape : L.escapes c = true) (h : L.escaped rest = some (d, taken)) :
    L.body (c :: rest) = (L.body (rest.drop taken)).map (push d) := by
  rw [body.eq_def]
  dsimp only
  rw [if_neg hquote, if_pos hescape, h]

theorem body_spelled {written : α → List α} (h : L.Spells written) (value : List α)
    {rest : List α} (hrest : rest.head? ≠ some L.quote) :
    L.body (value.flatMap written ++ L.quote :: rest) = some (value, rest) := by
  induction value with
  | nil => exact body_close hrest
  | cons c value ih =>
    rw [List.flatMap_cons, List.append_assoc, h, ih]
    rfl

/-- What follows a token is shorter than the text. -/
theorem length_lt_of_body {text : List α} {token : List α × List α}
    (h : L.body text = some token) : token.2.length < text.length := by
  fun_induction L.body text generalizing token with
  | case1 => exact absurd h nofun
  | case2 =>
    obtain rfl := Option.some.inj h
    exact Nat.zero_lt_one
  | case3 more ih =>
    obtain ⟨inner, hinner, rfl⟩ := Option.map_eq_some_iff.1 h
    have hshorter := ih hinner
    exact Nat.lt_succ_of_lt (Nat.lt_succ_of_lt hshorter)
  | case4 d more hd =>
    obtain rfl := Option.some.inj h
    exact Nat.lt_succ_self _
  | case5 => exact absurd h nofun
  | case6 c rest hc hescape d taken hescaped ih =>
    obtain ⟨inner, hinner, rfl⟩ := Option.map_eq_some_iff.1 h
    have hshorter := ih hinner
    rw [List.length_drop] at hshorter
    exact Nat.lt_succ_of_lt (Nat.lt_of_lt_of_le hshorter (Nat.sub_le _ _))
  | case7 c rest hc hescape ih =>
    obtain ⟨inner, hinner, rfl⟩ := Option.map_eq_some_iff.1 h
    have hshorter := ih hinner
    exact Nat.lt_succ_of_lt hshorter

/-- A spelled text is one token, which ends at the closing quote. -/
theorem token_spelled {written : α → List α} (h : L.Spells written) (value : List α)
    {rest : List α} (hrest : rest.head? ≠ some L.quote) :
    L.token (L.quote :: (value.flatMap written ++ L.quote :: rest)) = some (value, rest) := by
  rw [token, if_pos rfl]
  exact body_spelled h value hrest

/-- A text that is tokens and separators between them, and nothing else. -/
inductive Separated (L : Lexis α) (sep : α) : List α → List (List α) → Prop
  | one {text value : List α} (h : L.token text = some (value, [])) : Separated L sep text [value]
  | more {text value rest : List α} {values : List (List α)}
    (h : L.token text = some (value, sep :: rest)) (hrest : Separated L sep rest values) :
    Separated L sep text (value :: values)

/-- There is one way to read it. -/
theorem Separated.unique {sep : α} {text : List α} {values values' : List (List α)}
    (h : L.Separated sep text values) (h' : L.Separated sep text values') : values = values' := by
  induction h generalizing values' with
  | one h =>
    cases h' with
    | one h' => rw [(Prod.mk.inj (Option.some.inj (h.symm.trans h'))).1]
    | more h' _ => exact absurd (Prod.mk.inj (Option.some.inj (h.symm.trans h'))).2 nofun
  | more h _ ih =>
    cases h' with
    | one h' => exact absurd (Prod.mk.inj (Option.some.inj (h.symm.trans h'))).2 nofun
    | more h' hrest' =>
      obtain ⟨rfl, hrest⟩ := Prod.mk.inj (Option.some.inj (h.symm.trans h'))
      obtain rfl := (List.cons.inj hrest).2
      rw [ih hrest']

/-- Tokens that are joined by a separator are read as their values. -/
theorem separated_joined {sep : α} (hsep : sep ≠ L.quote) {written : β → List α} {value : β → List α}
    {first : β} {others : List β}
    (h : ∀ b ∈ first :: others, ∀ rest : List α, rest.head? ≠ some L.quote →
      L.token (written b ++ rest) = some (value b, rest)) :
    L.Separated sep ([sep].intercalate ((first :: others).map written))
      ((first :: others).map value) := by
  induction others generalizing first with
  | nil =>
    have htoken := h first List.mem_cons_self [] nofun
    rw [List.append_nil] at htoken
    rw [List.map_singleton, List.intercalate_singleton]
    exact .one htoken
  | cons next others ih =>
    obtain ⟨hfirst, hothers⟩ := List.forall_mem_cons.mp h
    have hrest : (sep :: [sep].intercalate ((next :: others).map written)).head? ≠ some L.quote :=
      fun heq => hsep (Option.some.inj heq)
    rw [List.map_cons, List.map_cons (f := written), List.map_cons, List.intercalate_cons_cons,
      ← List.map_cons, List.append_assoc, List.singleton_append]
    exact .more (hfirst _ hrest) (ih hothers)

end Lexis

/-! ## Doubled quotes -/

/-- Tokens without escapes. -/
def doubling (quote : α) : Lexis α := ⟨quote, fun _ => false, fun _ => none⟩

def double (c d : α) : List α := if d = c then [d, d] else [d]

/-- A character is doubled wherever it stands. -/
def doubled (c : α) (text : List α) : List α := text.flatMap (double c)

theorem doubling_spells (quote : α) : (doubling quote).Spells (double quote) := by
  intro c rest
  rw [double]
  split
  · rename_i hquote
    subst hquote
    exact Lexis.body_doubled rest
  · rename_i hquote
    exact Lexis.body_plain hquote rfl rest

/-! ## Doubled quotes and escapes -/

/-- Tokens with an escape that stands for itself and for the quote when it precedes them. -/
def escaping (quote escape : α) (other : List α → Option (α × Nat)) : Lexis α where
  quote := quote
  escapes c := decide (c = escape)
  escaped
    | [] => other []
    | c :: rest => if c = escape ∨ c = quote then some (c, 1) else other (c :: rest)

def doubleBoth (quote escape c : α) : List α := if c = quote ∨ c = escape then [c, c] else [c]

theorem doubled_doubled {quote escape : α} (h : escape ≠ quote) (text : List α) :
    doubled quote (doubled escape text) = text.flatMap (doubleBoth quote escape) := by
  rw [doubled, doubled, List.flatMap_assoc]
  refine List.flatMap_congr fun c _ => ?_
  by_cases hescape : c = escape
  · subst hescape
    simp [double, doubleBoth, h]
  · by_cases hquote : c = quote
    · subst hquote
      simp [double, doubleBoth, hescape]
    · simp [double, doubleBoth, hescape, hquote]

theorem escaping_spells (quote escape : α) (other : List α → Option (α × Nat)) :
    (escaping quote escape other).Spells (doubleBoth quote escape) := by
  intro c rest
  rw [doubleBoth]
  by_cases hquote : c = quote
  · subst hquote
    rw [if_pos (.inl rfl)]
    exact Lexis.body_doubled rest
  · by_cases hescape : c = escape
    · subst hescape
      rw [if_pos (.inr rfl)]
      have hself : (escaping quote c other).escaped (c :: rest) = some (c, 1) := if_pos (.inl rfl)
      exact Lexis.body_escape hquote (decide_eq_true rfl) hself
    · rw [if_neg (by simp [hquote, hescape])]
      exact Lexis.body_plain (L := escaping quote escape other) hquote
        (decide_eq_false hescape) rest

end Quoting
