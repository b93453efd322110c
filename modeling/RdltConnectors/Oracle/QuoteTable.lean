import RdltConnectors.Oracle.Cursor
import RdltConnectors.Sqlcore.Quote

/-!
# Table names in statements

A table's name is taken apart at its dots, and each part goes into the statement in quotes: as it
stands where it was written in quotes, upper-cased otherwise.
-/
namespace Oracle

open Quoting
open Sqlcore (identifierLexis isWhitespace)

section Names

variable (toUppercase : List Char → List Char)

/-- One identifier, folded and quoted, with any quote in it doubled. -/
def quoteUpper (ident : List Char) : List Char :=
  '"' :: (doubled '"' (toUppercase ident) ++ ['"'])

/-- What stands between the quotes of a part that is written in them. -/
def verbatim (part : List Char) : Option (List Char) :=
  (part.dropPrefix? ['"']).bind fun inner => inner.dropSuffix? ['"']

def quotePart (part : List Char) : List Char :=
  match verbatim (trim part) with
  | some inner => '"' :: (inner ++ ['"'])
  | none => quoteUpper toUppercase (trim part)

/-- A possibly qualified table name, one part at a time. -/
def quoteTable (table : List Char) : List Char :=
  ['.'].intercalate ((table.splitOn '.').map (quotePart toUppercase))

/-! ## Spellings -/

/-- A part of a table's name as it is meant. -/
inductive Part where
  | unquoted (text : List Char)
  | quoted (content : List Char)

def Part.spelling : Part → List Char
  | .unquoted text => text
  | .quoted content => '"' :: (doubled '"' content ++ ['"'])

/-- A dot would separate two parts, and a quote would start a quoted one. -/
def Part.Plain : Part → Prop
  | .unquoted text => '.' ∉ text ∧ '"' ∉ text
  | .quoted content => '.' ∉ content

def Part.identifier : Part → List Char
  | .unquoted text => toUppercase (trim text)
  | .quoted content => content

/-- What is written in quotes has the quotes in it doubled. -/
def Escaped (piece : List Char) : Prop :=
  ∀ inner, verbatim (trim piece) = some inner → ∃ content, inner = doubled '"' content

variable {toUppercase}

/-- A piece becomes one identifier. -/
theorem token_quotePart {piece content rest : List Char} (hrest : rest.head? ≠ some '"')
    (h : (∃ inner, verbatim (trim piece) = some inner ∧ inner = doubled '"' content) ∨
      (verbatim (trim piece) = none ∧ content = toUppercase (trim piece))) :
    identifierLexis.token (quotePart toUppercase piece ++ rest) = some (content, rest) := by
  have htoken : identifierLexis.token ('"' :: (doubled '"' content ++ '"' :: rest)) =
      some (content, rest) := Lexis.token_spelled (doubling_spells '"') content hrest
  obtain ⟨inner, hinner, rfl⟩ | ⟨hnone, rfl⟩ := h
  · rw [quotePart, hinner]
    dsimp only
    rwa [List.cons_append, List.append_assoc]
  · rw [quotePart, hnone]
    dsimp only
    rwa [quoteUpper, List.cons_append, List.append_assoc]

theorem token_of_escaped (toUppercase : List Char → List Char) {piece : List Char} (h : Escaped piece) :
    ∃ content, ∀ rest : List Char, rest.head? ≠ some '"' →
      identifierLexis.token (quotePart toUppercase piece ++ rest) = some (content, rest) := by
  cases hverbatim : verbatim (trim piece) with
  | none => exact ⟨_, fun rest hrest => token_quotePart hrest (.inr ⟨hverbatim, rfl⟩)⟩
  | some inner =>
    obtain ⟨content, hcontent⟩ := h inner hverbatim
    exact ⟨content, fun rest hrest => token_quotePart hrest (.inl ⟨inner, hverbatim, hcontent⟩)⟩

/-- Where what is in quotes is escaped, a table's name is identifiers and the dots between them. -/
theorem quoteTable_separated (toUppercase : List Char → List Char) {table : List Char} (h : ∀ piece ∈ table.splitOn '.', Escaped piece) :
    ∃ identifiers, identifierLexis.Separated '.' (quoteTable toUppercase table) identifiers := by
  obtain ⟨first, others, hpieces⟩ := List.exists_cons_of_ne_nil (List.splitOn_ne_nil '.' table)
  rw [quoteTable]
  rw [hpieces] at h ⊢
  have htokens := fun piece hpiece => token_of_escaped toUppercase (h piece hpiece)
  choose! value hvalue using htokens
  exact ⟨_, Lexis.separated_joined (by decide) hvalue⟩

/-! ## Parts -/

theorem trim_quoted (text : List Char) : trim ('"' :: (text ++ ['"'])) = '"' :: (text ++ ['"']) := by
  have hquote : isWhitespace '"' = false := rfl
  simp [trim, hquote]

theorem verbatim_quoted (text : List Char) : verbatim ('"' :: (text ++ ['"'])) = some text := by
  have hfront : ('"' :: (text ++ ['"'])).dropPrefix? ['"'] = some (text ++ ['"']) :=
    List.dropPrefix?_eq_some_iff.mpr ⟨['"'], rfl, BEq.rfl⟩
  rw [verbatim, hfront, Option.bind_some]
  exact List.dropSuffix?_eq_some_iff.mpr ⟨['"'], rfl, BEq.rfl⟩

theorem mem_of_mem_trim {text : List Char} {c : Char} (h : c ∈ trim text) : c ∈ text := by
  rw [trim, List.mem_reverse] at h
  have hfront := (List.dropWhile_sublist _).subset h
  rw [List.mem_reverse] at hfront
  exact (List.dropWhile_sublist _).subset hfront

theorem verbatim_unquoted {text : List Char} (h : '"' ∉ text) : verbatim (trim text) = none := by
  rw [verbatim]
  cases hinner : (trim text).dropPrefix? ['"'] with
  | none => rfl
  | some inner =>
    obtain ⟨front, htrim, hfront⟩ := List.dropPrefix?_eq_some_iff.mp hinner
    rw [eq_of_beq hfront] at htrim
    exact absurd (mem_of_mem_trim (htrim ▸ List.mem_cons_self)) h

theorem mem_of_mem_doubled {c d : Char} {text : List Char} (h : d ∈ doubled c text) : d ∈ text := by
  obtain ⟨e, he, hd⟩ := List.mem_flatMap.mp h
  rw [double] at hd
  split at hd
  · simp only [List.mem_cons, List.not_mem_nil, or_false, or_self] at hd
    exact hd ▸ he
  · exact List.mem_singleton.mp hd ▸ he

theorem Part.Plain.no_dot {part : Part} (h : part.Plain) : '.' ∉ part.spelling := by
  cases part with
  | unquoted text => exact h.1
  | quoted content =>
    intro hmem
    obtain heq | hmem := List.mem_cons.mp hmem
    · exact absurd heq (by decide)
    obtain hmem | hmem := List.mem_append.mp hmem
    · exact h (mem_of_mem_doubled hmem)
    · exact absurd (List.mem_singleton.mp hmem) (by decide)

theorem token_spelling {part : Part} (h : part.Plain) {rest : List Char} (hrest : rest.head? ≠ some '"') :
    identifierLexis.token (quotePart toUppercase part.spelling ++ rest) =
      some (part.identifier toUppercase, rest) := by
  cases part with
  | unquoted text => exact token_quotePart hrest (.inr ⟨verbatim_unquoted h.2, rfl⟩)
  | quoted content =>
    refine token_quotePart hrest (.inl ⟨doubled '"' content, ?_, rfl⟩)
    rw [Part.spelling, trim_quoted, verbatim_quoted]

/-- A name that is spelled in parts is read as these parts. -/
theorem quoteTable_parts (toUppercase : List Char → List Char) (first : Part) (others : List Part) (h : ∀ part ∈ first :: others, part.Plain) :
    identifierLexis.Separated '.'
      (quoteTable toUppercase (['.'].intercalate ((first :: others).map Part.spelling)))
      ((first :: others).map (Part.identifier toUppercase)) := by
  have hsplit : (['.'].intercalate ((first :: others).map Part.spelling)).splitOn '.' =
      (first :: others).map Part.spelling := by
    refine List.splitOn_intercalate '.' (fun text htext => ?_) (List.cons_ne_nil _ _)
    obtain ⟨part, hpart, rfl⟩ := List.mem_map.mp htext
    exact (h part hpart).no_dot
  rw [quoteTable, hsplit, List.map_map]
  exact Lexis.separated_joined (by decide) fun part hpart rest hrest => token_spelling (h part hpart) hrest

/-- What is in quotes is escaped: then a table's name is complete identifiers and dots, and one
that is spelled in parts is those parts. -/
theorem quote_table_is_exact (toUppercase : List Char → List Char) :
    (∀ table : List Char, (∀ piece ∈ table.splitOn '.', Escaped piece) →
      ∃! identifiers, identifierLexis.Separated '.' (quoteTable toUppercase table) identifiers) ∧
    ∀ (first : Part) (others : List Part), (∀ part ∈ first :: others, part.Plain) →
      ∀ identifiers, identifierLexis.Separated '.'
          (quoteTable toUppercase (['.'].intercalate ((first :: others).map Part.spelling)))
          identifiers ↔
        identifiers = (first :: others).map (Part.identifier toUppercase) := by
  constructor
  · intro table h
    obtain ⟨identifiers, hidentifiers⟩ := quoteTable_separated toUppercase h
    exact ⟨identifiers, hidentifiers, fun other hother => hother.unique hidentifiers⟩
  · intro first others h identifiers
    have hparts := quoteTable_parts toUppercase first others h
    constructor
    · intro hread
      exact hread.unique hparts
    · rintro rfl
      exact hparts

theorem quote_table_is_exact_sample :
    (∃! identifiers, identifierLexis.Separated '.'
      (quoteTable (List.map Char.toUpper) "hr.employees".toList) identifiers) ∧
    identifierLexis.Separated '.'
      (quoteTable (List.map Char.toUpper) (['.'].intercalate
        ([.unquoted " hr ".toList, .quoted "a\" b".toList].map Part.spelling)))
      ["HR".toList, "a\" b".toList] := by
  have hpieces : "hr.employees".toList.splitOn '.' = ["hr".toList, "employees".toList] := by
    decide
  have hplain : ∀ part ∈ [Part.unquoted " hr ".toList, .quoted "a\" b".toList], part.Plain := by
    refine List.forall_mem_cons.mpr ⟨⟨by decide, by decide⟩, List.forall_mem_cons.mpr ⟨?_, nofun⟩⟩
    exact fun hmem => absurd hmem (by decide)
  refine ⟨(quote_table_is_exact _).1 _ fun piece hpiece => ?_,
    ((quote_table_is_exact _).2 _ _ hplain _).mpr (by decide +kernel)⟩
  rw [hpieces] at hpiece
  intro inner hinner
  have hnone : ∀ piece ∈ ["hr".toList, "employees".toList], verbatim (trim piece) = none := by
    decide
  exact absurd ((hnone piece hpiece).symm.trans hinner) nofun

/-- What is in quotes is copied: more of the statement can stand there. A dot in quotes ends a
part all the same. -/
theorem quotes_are_copied :
    (¬∃ identifiers, identifierLexis.Separated '.'
      (quoteTable (List.map Char.toUpper) "\"x\" y\"".toList) identifiers) ∧
    Part.spelling (.quoted "a.b".toList) = "\"a.b\"".toList ∧
      ¬identifierLexis.Separated '.' (quoteTable (List.map Char.toUpper) "\"a.b\"".toList)
        ["a.b".toList] := by
  have htoken : identifierLexis.token (quoteTable (List.map Char.toUpper) "\"x\" y\"".toList) =
      some (['x'], " y\"".toList) := by
    decide +kernel
  have htoken' : identifierLexis.token (quoteTable (List.map Char.toUpper) "\"a.b\"".toList) =
      some ("\"A".toList, ".\"B\"\"\"".toList) := by
    decide +kernel
  refine ⟨?_, by decide, ?_⟩
  · rintro ⟨identifiers, h⟩
    cases h with
    | one h => exact absurd (Prod.mk.inj (Option.some.inj (h.symm.trans htoken))).2 (by decide)
    | more h _ => exact absurd (Prod.mk.inj (Option.some.inj (h.symm.trans htoken))).2 (by simp)
  · intro h
    cases h with
    | one h => exact absurd (h.symm.trans htoken') (by decide)
    | more h hrest => cases hrest

end Names

end Oracle
