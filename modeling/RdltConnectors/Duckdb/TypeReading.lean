import RdltConnectors.Duckdb.TypeText

/-!
# A type is read off its text

Whatever names a struct has, the text that the catalog reports of a type is taken apart into the
fields it was put together from. The text of a type the reader does not know is refused as a
whole. Reading a text is reading the type it is of.
-/
namespace DuckText

open Sqlcore (LogicalType quoteIdentifier identifierLexis isWhitespace)
open Duckdb (SqlType SqlFields)
open Nesting Quoting

variable {P : Type} {inferred : P} {bare : String → Bool}

/-! ## White space -/

/-- A text with no white space at its ends. -/
def Tight (text : List Char) : Prop :=
  (∃ c rest, text = c :: rest ∧ isWhitespace c = false) ∧
    ∃ front c, text = front ++ [c] ∧ isWhitespace c = false

theorem trimStart_of_head {c : Char} (h : isWhitespace c = false) (rest : List Char) :
    trimStart (c :: rest) = c :: rest := List.dropWhile_cons_of_neg (by simp [h])

theorem trim_tight {text : List Char} (h : Tight text) : trim text = text := by
  obtain ⟨⟨c, rest, hfront, hc⟩, front, d, hbehind, hd⟩ := h
  have hstart : trimStart text = text := by
    rw [hfront]
    exact trimStart_of_head hc rest
  rw [trim, hstart, hbehind]
  exact List.rdropWhile_concat_neg _ _ _ (by simp [hd])

theorem trimStart_space {text : List Char} (h : Tight text) : trimStart (' ' :: text) = text := by
  obtain ⟨⟨c, rest, rfl, hc⟩, -⟩ := h
  exact (List.dropWhile_cons_of_pos rfl).trans (trimStart_of_head hc rest)

theorem trim_space {text : List Char} (h : Tight text) : trim (' ' :: text) = text := by
  have htrim := trim_tight h
  rw [trim, trimStart_space h]
  rw [trim] at htrim
  obtain ⟨⟨c, rest, rfl, hc⟩, -⟩ := h
  rwa [trimStart_of_head hc] at htrim

theorem tight_append {front behind : List Char} (hfront : Tight front) (hbehind : Tight behind)
    (middle : List Char) : Tight (front ++ (middle ++ behind)) := by
  obtain ⟨⟨c, rest, rfl, hc⟩, -⟩ := hfront
  obtain ⟨-, before, d, rfl, hd⟩ := hbehind
  exact ⟨⟨c, _, rfl, hc⟩, (c :: rest) ++ (middle ++ before), d, by simp, hd⟩

/-- A literal spelling, by its first and its last character. -/
theorem tight_spelling {text : List Char} (h : text ≠ []) (hfirst : isWhitespace (text.head h) = false)
    (hlast : isWhitespace (text.getLast h) = false) : Tight text :=
  ⟨⟨_, _, (List.cons_head_tail h).symm, hfirst⟩,
    _, _, (List.dropLast_append_getLast h).symm, hlast⟩

theorem tight_closed {text : List Char} (h : Tight text) (middle : List Char) {c : Char}
    (hc : isWhitespace c = false) : Tight (text ++ (middle ++ [c])) :=
  tight_append h ⟨⟨c, [], rfl, hc⟩, [], c, rfl, hc⟩ middle

/-! ## The texts as characters -/

theorem decimal_toList (bare : String → Bool) (precision scale : Nat) :
    (typeText bare (.decimal precision scale)).toList =
      "DECIMAL(".toList ++ (Nat.toDigits 10 precision ++ ',' :: Nat.toDigits 10 scale) ++ [')'] := by
  simp [typeText, toString]

theorem list_toList (bare : String → Bool) (item : SqlType) :
    (typeText bare (.list item)).toList = (typeText bare item).toList ++ ['[', ']'] := by
  simp [typeText, toString]

theorem struct_toList (bare : String → Bool) (fields : SqlFields) :
    (typeText bare (.struct fields)).toList = "STRUCT(".toList ++
      [',', ' '].intercalate ((fieldTexts bare fields).map String.toList) ++ [')'] := by
  simp [typeText]

theorem field_toList (bare : String → Bool) (name : String) (type : SqlType) :
    (s!"{nameText bare name} {typeText bare type}").toList =
      (nameText bare name).toList ++ ' ' :: (typeText bare type).toList := by
  simp [toString]

theorem tight_typeText (bare : String → Bool) : ∀ type : SqlType, Tight (typeText bare type).toList
  | .decimal precision scale => by
    rw [decimal_toList]
    exact ⟨⟨'D', _, rfl, rfl⟩, _, ')', rfl, rfl⟩
  | .list item => by
    rw [list_toList]
    exact tight_closed (tight_typeText bare item) ['['] rfl
  | .struct fields => by
    rw [struct_toList]
    exact ⟨⟨'S', _, rfl, rfl⟩, _, ')', rfl, rfl⟩
  | .boolean | .bigint | .double | .varchar | .json | .blob | .timestampTz | .timestamp | .date
  | .time => by
    rw [typeText]
    exact tight_spelling (by decide) (by decide) (by decide)

/-! ## Scalars -/

/-- The names of the scalars end in none of the brackets. -/
theorem scalarTypeOf_bracket (text : List Char) {c : Char} (hc : c = ')' ∨ c = ']') :
    scalarTypeOf (text ++ [c]) = none := by
  rw [scalarTypeOf, List.lookup_eq_none_iff]
  intro entry hentry
  have hlast : ∀ entry ∈ scalarNames, entry.1.toList.getLast? ≠ some ')' ∧
      entry.1.toList.getLast? ≠ some ']' := by decide
  have hne := hlast entry hentry
  rw [bne_iff_ne]
  rintro heq
  rw [← heq, String.toList_ofList, List.getLast?_concat] at hne
  obtain rfl | rfl := hc
  · exact hne.1 rfl
  · exact hne.2 rfl

theorem scalarTypeOf_typeText (bare : String → Bool) (type : SqlType) :
    scalarTypeOf (typeText bare type).toList = Duckdb.scalarTypeOf type := by
  cases type with
  | decimal precision scale =>
    rw [decimal_toList]
    exact scalarTypeOf_bracket _ (.inl rfl)
  | list item =>
    rw [list_toList, List.append_cons]
    exact scalarTypeOf_bracket _ (.inr rfl)
  | struct fields =>
    rw [struct_toList]
    exact scalarTypeOf_bracket _ (.inl rfl)
  | _ =>
    rw [typeText]
    decide

theorem parseU8_toDigits {n : Nat} (h : n < 256) : parseU8 (Nat.toDigits 10 n) = some n := by
  have hdigits := Digits.allDigits_toDigits n
  have hne : Nat.toDigits 10 n ≠ [] := Nat.toDigits_ne_nil
  rw [parseU8, Digits.value_toDigits, if_pos ⟨hne, List.all_eq_true.2 hdigits, h⟩]
  intro rest heq
  exact absurd (hdigits '+' (heq ▸ List.mem_cons_self)) (by decide)

theorem tight_digits (n : Nat) : Tight (Nat.toDigits 10 n) := by
  have hplain : ∀ c : Char, c.isDigit = true → isWhitespace c = false := by
    intro c hc
    have hbounds := Digits.digit_bounds hc
    simp [isWhitespace]
    omega
  have hdigits := Digits.allDigits_toDigits n
  have hne : Nat.toDigits 10 n ≠ [] := Nat.toDigits_ne_nil
  exact tight_spelling hne (hplain _ (hdigits _ (List.head_mem hne)))
    (hplain _ (hdigits _ (List.getLast_mem hne)))

theorem dropPrefix_append (front text : List Char) : (front ++ text).dropPrefix? front = some text :=
  List.dropPrefix?_eq_some_iff.2 ⟨front, rfl, BEq.rfl⟩

theorem dropSuffix_append (text behind : List Char) : (text ++ behind).dropSuffix? behind = some text :=
  List.dropSuffix?_eq_some_iff.2 ⟨behind, rfl, BEq.rfl⟩

theorem decimalTypeOf_typeText {precision scale : Nat} (hprecision : precision < 256)
    (hscale : scale < 256) :
    decimalTypeOf (typeText bare (.decimal precision scale)).toList =
      some (.decimal precision scale) := by
  have hcomma : ',' ∉ Nat.toDigits 10 precision := fun hmem =>
    absurd (Digits.allDigits_toDigits precision ',' hmem) (by decide)
  rw [decimal_toList, List.append_assoc, decimalTypeOf, dropPrefix_append, Option.bind_some,
    dropSuffix_append, Option.bind_eq_bind, Option.bind_some, Separator.splitOnce_append hcomma,
    Option.bind_eq_bind, Option.bind_some]
  dsimp only
  rw [trim_tight (tight_digits _), trim_tight (tight_digits _), parseU8_toDigits hprecision,
    parseU8_toDigits hscale]
  rfl

/-! ## Names -/

theorem distinct_marks : marks.Distinct := by unfold Marks.Distinct; decide

/-- The names that are left unquoted. -/
def Unquoted (name : String) : Prop :=
  name.toList ≠ [] ∧ ∀ c ∈ name.toList, c.isAlphanum = true ∨ c = '_'

theorem alphanum_bounds {c : Char} (h : c.isAlphanum = true) : 48 ≤ c.toNat ∧ c.toNat ≤ 122 := by
  simp only [Char.isAlphanum, Char.isAlpha, Char.isUpper, Char.isLower, Char.isDigit,
    Bool.or_eq_true, Bool.and_eq_true, decide_eq_true_eq, UInt32.le_iff_toNat_le, ge_iff_le] at h
  have hvalue : c.toNat = c.val.toNat := rfl
  have hdigits : '0'.val.toNat = 48 ∧ '9'.val.toNat = 57 := by decide
  have hupper : 'A'.val.toNat = 65 ∧ 'Z'.val.toNat = 90 := by decide
  have hlower : 'a'.val.toNat = 97 ∧ 'z'.val.toNat = 122 := by decide
  omega

theorem plain_of_unquoted {c : Char} (h : c.isAlphanum = true ∨ c = '_') :
    isWhitespace c = false ∧ c ∉ [marks.quote, marks.opening, marks.closing, marks.separator] := by
  obtain h | rfl := h
  · have hbounds := alphanum_bounds h
    constructor
    · simp [isWhitespace]
      omega
    · intro hmem
      have hmarks : ∀ d ∈ [marks.quote, marks.opening, marks.closing, marks.separator],
          d.toNat < 48 := by simp [marks]
      exact Nat.lt_irrefl 48 (Nat.lt_of_le_of_lt hbounds.1 (hmarks c hmem))
  · decide

theorem quoteIdentifier_toList (name : String) :
    (quoteIdentifier name).toList = '"' :: (doubled '"' name.toList ++ ['"']) := by
  simp [quoteIdentifier]

section Names

variable (hbare : ∀ name, bare name = true → Unquoted name)

include hbare

theorem balanced_nameText (name : String) : marks.Balanced false (nameText bare name).toList := by
  rw [nameText]
  split
  · rename_i h
    exact Marks.balanced_plain fun c hc => (plain_of_unquoted ((hbare name h).2 c hc)).2
  · rw [quoteIdentifier_toList]
    exact Marks.balanced_doubled (m := marks) name.toList [] List.not_mem_nil

theorem tight_nameText (name : String) : Tight (nameText bare name).toList := by
  rw [nameText]
  split
  · rename_i h
    obtain ⟨hne, hplain⟩ := hbare name h
    exact tight_spelling hne (plain_of_unquoted (hplain _ (List.head_mem hne))).1
      (plain_of_unquoted (hplain _ (List.getLast_mem hne))).1
  · rw [quoteIdentifier_toList]
    exact ⟨⟨'"', _, rfl, rfl⟩, _, '"', List.cons_append.symm, rfl⟩

/-- A name is read back, whichever way it is written. -/
theorem splitIdentifier_nameText (name : String) {type : List Char} (h : Tight type) :
    splitIdentifier ((nameText bare name).toList ++ ' ' :: type) = some (name, type) := by
  rw [nameText]
  split
  · rename_i hname
    obtain ⟨hne, hplain⟩ := hbare name hname
    have hword : ∀ c ∈ name.toList, (!isWhitespace c) = true := fun c hc => by
      rw [(plain_of_unquoted (hplain c hc)).1]
      rfl
    have htake : (name.toList ++ ' ' :: type).takeWhile (fun c => !isWhitespace c) = name.toList := by
      rw [List.takeWhile_append_of_pos hword]
      exact List.append_nil _
    have hdrop : (name.toList ++ ' ' :: type).dropWhile (fun c => !isWhitespace c) = ' ' :: type := by
      rw [List.dropWhile_append_of_pos hword]
      rfl
    rw [splitIdentifier, htake, hdrop]
    · dsimp only
      rw [trimStart_space h, String.ofList_toList]
    · intro rest heq
      have hquote : '"' ∈ name.toList := by
        cases hlist : name.toList with
        | nil => exact absurd hlist hne
        | cons c more =>
          rw [hlist, List.cons_append] at heq
          rw [(List.cons.inj heq).1]
          exact List.mem_cons_self
      exact absurd (plain_of_unquoted (hplain _ hquote)).2 (by decide)
  · have hspace : (' ' :: type).head? ≠ some (doubling '"').quote := by
      intro heq
      exact absurd (Option.some.inj heq) (by decide)
    have hbody : identifierLexis.body (doubled '"' name.toList ++ '"' :: ' ' :: type) =
        some (name.toList, ' ' :: type) :=
      Lexis.body_spelled (doubling_spells '"') name.toList hspace
    rw [quoteIdentifier_toList, List.cons_append, List.append_assoc, List.singleton_append,
      splitIdentifier, hbody, Option.map_some]
    dsimp only
    rw [trimStart_space h, String.ofList_toList]

end Names

/-! ## Brackets -/

/-- A text without marks. -/
theorem unmarked {text : List Char} (h : text.all (fun c =>
    decide (c ∉ [marks.quote, marks.opening, marks.closing, marks.separator])) = true) :
    ∀ c ∈ text, c ∉ [marks.quote, marks.opening, marks.closing, marks.separator] :=
  fun c hc => of_decide_eq_true (List.all_eq_true.1 h c hc)

theorem balanced_bracketed (name : List Char) {text : List Char}
    (hname : ∀ c ∈ name, c ∉ [marks.quote, marks.opening, marks.closing, marks.separator])
    (h : marks.Balanced true text) : marks.Balanced false ((name ++ ['(']) ++ text ++ [')']) := by
  rw [List.append_assoc, List.append_assoc]
  exact .append (Marks.balanced_plain hname) (.nested h)

theorem balanced_toDigits (n : Nat) : marks.Balanced true (Nat.toDigits 10 n) := by
  apply Marks.balanced_plain
  intro c hc
  have hdigit : c.isAlphanum = true := by
    rw [Char.isAlphanum, Digits.allDigits_toDigits n c hc, Bool.or_true]
  exact (plain_of_unquoted (.inl hdigit)).2

mutual

/-- The brackets of a type's text match. -/
theorem balanced_typeText (hbare : ∀ name, bare name = true → Unquoted name) :
    ∀ type : SqlType, marks.Balanced false (typeText bare type).toList
  | .decimal precision scale => by
    rw [decimal_toList]
    exact balanced_bracketed "DECIMAL".toList (unmarked (by decide))
      (.append (balanced_toDigits precision) (.append .separator (balanced_toDigits scale)))
  | .list item => by
    rw [list_toList]
    exact .append (balanced_typeText hbare item) (Marks.balanced_plain (unmarked (by decide)))
  | .struct fields => by
    have hspace : marks.Balanced true [',', ' '] := .append .separator (.plain (by decide))
    have hfields : ∀ text ∈ (fieldTexts bare fields).map String.toList, marks.Balanced true text :=
      fun text htext => (balanced_fieldTexts hbare fields text htext).inner
    rw [struct_toList]
    exact balanced_bracketed "STRUCT".toList (unmarked (by decide))
      (Marks.balanced_intercalate hspace hfields)
  | .boolean | .bigint | .double | .varchar | .json | .blob | .timestampTz | .timestamp | .date
  | .time => by
    rw [typeText]
    exact Marks.balanced_plain (unmarked (by decide))

theorem balanced_fieldTexts (hbare : ∀ name, bare name = true → Unquoted name) :
    ∀ fields : SqlFields, ∀ text ∈ (fieldTexts bare fields).map String.toList, marks.Balanced false text
  | .nil => by
    intro text htext
    exact absurd htext List.not_mem_nil
  | .cons name type rest => by
    rw [fieldTexts, List.map_cons, List.forall_mem_cons, field_toList]
    exact ⟨.append (balanced_nameText hbare name)
      (.append (.plain (by decide)) (balanced_typeText hbare type)), balanced_fieldTexts hbare rest⟩

end

theorem tight_field (hbare : ∀ name, bare name = true → Unquoted name) (name : String)
    (type : SqlType) : Tight ((nameText bare name).toList ++ ' ' :: (typeText bare type).toList) :=
  tight_append (tight_nameText hbare name) (tight_typeText bare type) [' ']

theorem tight_fieldTexts (hbare : ∀ name, bare name = true → Unquoted name) (fields : SqlFields) :
    ∀ text ∈ (fieldTexts bare fields).map String.toList, Tight text := by
  match fields with
  | .nil =>
    intro text htext
    exact absurd htext List.not_mem_nil
  | .cons name type rest =>
    rw [fieldTexts, List.map_cons, List.forall_mem_cons, field_toList]
    exact ⟨tight_field hbare name type, tight_fieldTexts hbare rest⟩

/-! ## Reading the fields -/

/-- White space around a field is not read. -/
theorem readFields_congr (read : List Char → Option (ColumnType P)) {pieces others : List (List Char)}
    (h : pieces.map trim = others.map trim) :
    readFields inferred read pieces = readFields inferred read others := by
  induction pieces generalizing others with
  | nil =>
    cases others with
    | nil => rfl
    | cons _ _ => exact absurd h nofun
  | cons piece pieces ih =>
    cases others with
    | nil => exact absurd h nofun
    | cons other others =>
      obtain ⟨hpiece, hrest⟩ := List.cons.inj h
      rw [readFields, readFields, hpiece, ih hrest]

/-- A struct's text is cut into the texts of its fields. -/
theorem splitTopLevel_fields (hbare : ∀ name, bare name = true → Unquoted name) (name : String)
    (type : SqlType) (rest : SqlFields) :
    (splitTopLevel ([',', ' '].intercalate
        ((fieldTexts bare (.cons name type rest)).map String.toList))).map trim =
      ((fieldTexts bare (.cons name type rest)).map String.toList).map trim := by
  have hbalanced := balanced_fieldTexts hbare (.cons name type rest)
  have htight := tight_fieldTexts hbare (.cons name type rest)
  rw [fieldTexts, List.map_cons] at hbalanced htight ⊢
  have hsplit := Marks.split_intercalate distinct_marks (c := ' ') (by decide) hbalanced
  rw [splitTopLevel]
  refine (congrArg _ hsplit).trans ?_
  rw [List.map_cons, List.map_cons, List.map_map]
  refine congrArg _ (List.map_congr_left fun text htext => ?_)
  have hfield := htight text (List.mem_cons_of_mem _ htext)
  exact (trim_space hfield).trans (trim_tight hfield).symm

theorem infix_intercalate (sep : List Char) {pieces : List (List Char)} {text : List Char}
    (h : text ∈ pieces) : text <:+: sep.intercalate pieces := by
  induction pieces with
  | nil => exact absurd h List.not_mem_nil
  | cons piece rest ih =>
    cases rest with
    | nil =>
      obtain rfl := List.mem_singleton.1 h
      simp only [List.intercalate_singleton, List.infix_rfl]
    | cons next rest =>
      rw [List.intercalate_cons_cons]
      obtain rfl | hin := List.mem_cons.1 h
      · exact ((List.prefix_append _ _).trans (List.prefix_append _ _)).isInfix
      · exact (ih hin).trans (List.suffix_append _ _).isInfix

/-! ## Types -/

mutual

/-- A type as it is read back: of its fields the catalog knows no more than name and type. -/
def annotate (inferred : P) : Sqlcore.ColumnType → ColumnType P
  | .scalar scalar => .scalar scalar
  | .struct fields => .struct (annotateFields inferred fields)
  | .scalarList item => .scalarList item

def annotateFields (inferred : P) : Sqlcore.Fields → Columns P
  | .nil => .nil
  | .cons name columnType rest =>
    .cons name (annotate inferred columnType) true inferred (annotateFields inferred rest)

end

mutual

/-- The types whose texts are taken apart: the numbers of a decimal are bytes, as the destination
has them, and a struct has a field. -/
def Parted : SqlType → Prop
  | .decimal precision scale => precision < 256 ∧ scale < 256
  | .list item => Parted item
  | .struct fields => fields ≠ .nil ∧ PartedFields fields
  | _ => True

def PartedFields : SqlFields → Prop
  | .nil => True
  | .cons _ type rest => Parted type ∧ PartedFields rest

end

theorem dropSuffix_closed (text : List Char) : (text ++ [')']).dropSuffix? ['[', ']'] = none := by
  cases hdrop : (text ++ [')']).dropSuffix? ['[', ']'] with
  | none => rfl
  | some front =>
    obtain ⟨behind, heq, hbehind⟩ := List.dropSuffix?_eq_some_iff.1 hdrop
    have hlast := congrArg List.getLast? heq
    rw [eq_of_beq hbehind, List.getLast?_concat, List.getLast?_append] at hlast
    exact absurd (Option.some.inj hlast) (by decide)

mutual

/-- The text of a type is read as the type. -/
theorem columnTypeWithin_typeText (hbare : ∀ name, bare name = true → Unquoted name) :
    ∀ (type : SqlType) (depth : Nat), Parted type → (typeText bare type).toList.length < depth →
      columnTypeWithin inferred depth (typeText bare type).toList =
        (Duckdb.columnTypeOf type).map (annotate inferred)
  | .decimal precision scale, depth + 1, hparted, _ => by
    have hdecimal : decimalTypeOf (typeText bare (.decimal precision scale)).toList =
        some (.decimal precision scale) := decimalTypeOf_typeText hparted.1 hparted.2
    have hscalar := scalarTypeOf_typeText bare (.decimal precision scale)
    rw [columnTypeWithin, hscalar, hdecimal, decimal_toList, dropSuffix_closed]
    rfl
  | .list item, depth + 1, _, _ => by
    rw [list_toList, columnTypeWithin, dropSuffix_append]
    dsimp only
    rw [scalarTypeOf_typeText]
    cases hitem : Duckdb.scalarTypeOf item with
    | none =>
      rw [Duckdb.columnTypeOf, hitem]
      rfl
    | some scalar =>
      rw [Duckdb.columnTypeOf, hitem]
      rfl
  | .struct .nil, _, hparted, _ => absurd rfl hparted.1
  | .struct (.cons name type rest), depth + 1, hparted, hdepth => by
    have hlength : ∀ text ∈ (fieldTexts bare (.cons name type rest)).map String.toList,
        text.length ≤ depth := by
      intro text htext
      have hpiece := (infix_intercalate [',', ' '] htext).length_le
      rw [struct_toList, List.length_append, List.length_append, List.length_singleton] at hdepth
      omega
    have hread := readFields_fieldTexts hbare (.cons name type rest) depth hparted.2 hlength
    rw [struct_toList, columnTypeWithin, dropSuffix_closed, List.append_assoc, dropPrefix_append]
    dsimp only
    rw [Option.bind_some, dropSuffix_append]
    dsimp only
    rw [readFields_congr _ (splitTopLevel_fields hbare name type rest), hread, Duckdb.columnTypeOf]
    cases Duckdb.fieldsOf (.cons name type rest) with
    | none => rfl
    | some fields => rfl
  | .boolean, depth + 1, _, _ | .bigint, depth + 1, _, _ | .double, depth + 1, _, _
  | .varchar, depth + 1, _, _ | .json, depth + 1, _, _ | .blob, depth + 1, _, _
  | .timestampTz, depth + 1, _, _ | .timestamp, depth + 1, _, _ | .date, depth + 1, _, _
  | .time, depth + 1, _, _ => by
    rw [typeText]
    rfl

theorem readFields_fieldTexts (hbare : ∀ name, bare name = true → Unquoted name) :
    ∀ (fields : SqlFields) (depth : Nat), PartedFields fields →
      (∀ text ∈ (fieldTexts bare fields).map String.toList, text.length ≤ depth) →
      readFields inferred (columnTypeWithin inferred depth)
          ((fieldTexts bare fields).map String.toList) =
        (Duckdb.fieldsOf fields).map (annotateFields inferred)
  | .nil, depth, _, _ => rfl
  | .cons name type rest, depth, hparted, hdepth => by
    have htype := tight_typeText bare type
    rw [fieldTexts, List.map_cons, field_toList] at hdepth ⊢
    obtain ⟨hfield, hrest⟩ := List.forall_mem_cons.1 hdepth
    have hshort : (typeText bare type).toList.length < depth := by
      rw [List.length_append, List.length_cons] at hfield
      omega
    have hread := columnTypeWithin_typeText hbare type depth hparted.1 hshort
    rw [readFields, trim_tight (tight_field hbare name type), splitIdentifier_nameText hbare name htype, Option.bind_eq_bind, Option.bind_some]
    dsimp only
    rw [trim_tight htype, hread, readFields_fieldTexts hbare rest depth hparted.2 hrest,
      Duckdb.fieldsOf]
    cases Duckdb.columnTypeOf type with
    | none => rfl
    | some columnType =>
      cases Duckdb.fieldsOf rest with
      | none => rfl
      | some fields => rfl

end

/-! ## The depth -/

theorem length_trim_le (text : List Char) : (trim text).length ≤ text.length :=
  ((List.rdropWhile_prefix _ _).length_le).trans (List.dropWhile_suffix _).length_le

theorem length_splitIdentifier_le {field type : List Char} {name : String}
    (h : splitIdentifier field = some (name, type)) : type.length ≤ field.length := by
  rw [splitIdentifier.eq_def] at h
  split at h
  · obtain ⟨token, htoken, heq⟩ := Option.map_eq_some_iff.1 h
    have hshorter := Lexis.length_lt_of_body htoken
    obtain ⟨-, rfl⟩ := Prod.mk.inj heq
    exact ((List.dropWhile_suffix _).length_le.trans hshorter.le).trans (Nat.le_succ _)
  · split at h
    · exact absurd h nofun
    · obtain ⟨-, rfl⟩ := Prod.mk.inj (Option.some.inj h)
      exact (List.dropWhile_suffix _).length_le.trans (List.dropWhile_suffix _).length_le

/-- Nothing is read in a field that is longer than it. -/
theorem readFields_within {read other : List Char → Option (ColumnType P)} {length : Nat}
    (hread : ∀ text : List Char, text.length ≤ length → read text = other text)
    {pieces : List (List Char)} (h : ∀ piece ∈ pieces, piece.length ≤ length) :
    readFields inferred read pieces = readFields inferred other pieces := by
  induction pieces with
  | nil => rfl
  | cons piece rest ih =>
    obtain ⟨hpiece, hrest⟩ := List.forall_mem_cons.1 h
    rw [readFields, readFields, ih hrest]
    cases hfield : splitIdentifier (trim piece) with
    | none => rfl
    | some field =>
      obtain ⟨name, type⟩ := field
      have htype : (trim type).length ≤ length := (length_trim_le type).trans
        ((length_splitIdentifier_le hfield).trans ((length_trim_le piece).trans hpiece))
      rw [Option.bind_eq_bind, Option.bind_eq_bind, Option.bind_some, Option.bind_some]
      dsimp only
      rw [hread _ htype]

/-- Any depth beyond the length of the text reads the same. -/
theorem columnTypeWithin_deep {text : List Char} {depth more : Nat} (hdepth : text.length < depth)
    (hmore : text.length < more) :
    columnTypeWithin inferred depth text = columnTypeWithin inferred more text := by
  induction depth generalizing text more with
  | zero => exact absurd hdepth (Nat.not_lt_zero _)
  | succ depth ih =>
    cases more with
    | zero => exact absurd hmore (Nat.not_lt_zero _)
    | succ more =>
      rw [columnTypeWithin, columnTypeWithin]
      split
      · rfl
      split
      · rename_i body hbody
        obtain ⟨inner, hinner, hclosed⟩ := Option.bind_eq_some_iff.1 hbody
        obtain ⟨front, rfl, hfront⟩ := List.dropPrefix?_eq_some_iff.1 hinner
        obtain ⟨behind, rfl, hbehind⟩ := List.dropSuffix?_eq_some_iff.1 hclosed
        have hone : 0 < behind.length := by
          rw [eq_of_beq hbehind]
          exact Nat.zero_lt_one
        rw [List.length_append, List.length_append] at hdepth hmore
        have hread : ∀ inside : List Char, inside.length ≤ body.length →
            columnTypeWithin inferred depth inside = columnTypeWithin inferred more inside :=
          fun inside hinside => ih (by omega) (by omega)
        exact congrArg _ (readFields_within hread fun _ hpiece => Marks.length_le_of_mem_split hpiece)
      · rfl

end DuckText
