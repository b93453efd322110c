import Mathlib.Data.List.AList
import Mathlib.Data.List.TakeWhile
import RdltConnectors.Oracle.Value
import RdltConnectors.Sqlcore.Options

/-!
# The watermark cursor

One record per stream: the rendered high-water mark of the cursor column and the ROWID of
the last row read at it. Rendered marks are compared digit by digit where both are decimals
and as texts otherwise, and travel back into SQL as literals whose shape is checked.
-/
namespace Oracle

open Digits Sqlcore

structure StreamCursor where
  watermark : String
  tie : Option String
  deriving DecidableEq, Repr

structure OracleCursor where
  formatVersion : Nat
  streams : AList fun _ : String => StreamCursor

def cursorFormatVersion : Nat := 1

def OracleCursor.default : OracleCursor := ⟨cursorFormatVersion, ∅⟩

def OracleCursor.decode : Option OracleCursor → Except String OracleCursor
  | none => .ok .default
  | some decoded =>
    if cursorFormatVersion < decoded.formatVersion then
      .error s!"oracle cursor format v{decoded.formatVersion} is newer than this build supports (v{cursorFormatVersion}); upgrade rdlt instead of clearing state"
    else .ok decoded

/-! ## Comparing watermarks -/

def trim (text : List Char) : List Char :=
  ((text.dropWhile isWhitespace).reverse.dropWhile isWhitespace).reverse

def stripSign : List Char → Bool × List Char
  | '-' :: rest => (true, rest)
  | '+' :: rest => (false, rest)
  | body => (false, body)

/-- Before and behind the first point. -/
def splitPoint (body : List Char) : List Char × List Char :=
  (body.takeWhile (· != '.'), (body.dropWhile (· != '.')).tail)

def decimalParts (value : String) : Option (Bool × List Char × List Char) :=
  let (negative, body) := stripSign (trim value.toList)
  let (whole, fraction) := splitPoint body
  if whole = [] ∨ ¬AllDigits whole ∨ ¬AllDigits fraction then none
  else some (negative, whole, fraction)

/-- The order of two magnitudes: the longer whole part, then the digits, then the fractions at
one width. -/
def magnitudeLess (aInt aFrac bInt bFrac : List Char) : Bool :=
  let a := trimZeros aInt
  let b := trimZeros bInt
  if a.length < b.length then true
  else if b.length < a.length then false
  else if less a b then true
  else if less b a then false
  else
    let width := max aFrac.length bFrac.length
    less (padRight width aFrac) (padRight width bFrac)

def decimalLess : Bool × List Char × List Char → Bool × List Char × List Char → Bool
  | (aNeg, aInt, aFrac), (bNeg, bInt, bFrac) =>
    if aNeg != bNeg then aNeg
    else
      let magnitude := magnitudeLess aInt aFrac bInt bFrac
      -- the order of the magnitudes turns round
      if aNeg then !magnitude && (trimZeros aInt, aFrac) != (trimZeros bInt, bFrac)
      else magnitude

def watermarkLess (a b : String) : Bool :=
  match decimalParts a, decimalParts b with
  | some x, some y => decimalLess x y
  | _, _ => less a.toList b.toList

/-- Record progress at `candidate`, with the row's ROWID as the tie-break. -/
def OracleCursor.advance (cursor : OracleCursor) (stream candidate : String)
    (tie : Option String) : OracleCursor :=
  match cursor.streams.lookup stream with
  | some existing =>
    if watermarkLess existing.watermark candidate then
      { cursor with streams := cursor.streams.insert stream ⟨candidate, tie⟩ }
    else if existing.watermark = candidate then
      { cursor with streams := cursor.streams.insert stream ⟨existing.watermark, tie⟩ }
    else cursor
  | none => { cursor with streams := cursor.streams.insert stream ⟨candidate, tie⟩ }

@[simp] theorem OracleCursor.advance_formatVersion (cursor : OracleCursor)
    (stream candidate : String) (tie : Option String) :
    (cursor.advance stream candidate tie).formatVersion = cursor.formatVersion := by
  unfold advance
  split
  · split
    · rfl
    · split <;> rfl
  · rfl

/-- The record moves to the candidate, or nothing moves. -/
theorem OracleCursor.advance_cases (cursor : OracleCursor) (stream candidate : String)
    (tie : Option String) :
    (cursor.advance stream candidate tie).streams.lookup stream = some ⟨candidate, tie⟩ ∨
      cursor.advance stream candidate tie = cursor := by
  unfold advance
  split
  · split
    · exact .inl (AList.lookup_insert _)
    · split
      · next hsame => exact .inl (by rw [AList.lookup_insert, hsame])
      · exact .inr rfl
  · exact .inl (AList.lookup_insert _)

/-- The record follows a candidate that is the later text or the same. -/
theorem OracleCursor.advance_lookup {cursor : OracleCursor} {stream candidate : String}
    (h : ∀ existing, cursor.streams.lookup stream = some existing →
      watermarkLess existing.watermark candidate = true ∨ existing.watermark = candidate)
    (tie : Option String) :
    (cursor.advance stream candidate tie).streams.lookup stream = some ⟨candidate, tie⟩ := by
  unfold advance
  split
  · next existing hexisting =>
    split
    · exact AList.lookup_insert _
    · next hless =>
      have hsame := (h existing hexisting).resolve_left hless
      rw [if_pos hsame, AList.lookup_insert, hsame]
  · exact AList.lookup_insert _

/-! ## Watermarks as SQL literals -/

/-- `--` stands somewhere in the text. -/
def hasComment : List Char → Bool
  | '-' :: '-' :: _ => true
  | _ :: rest => hasComment rest
  | [] => false

def wellSigned (value : List Char) : Bool :=
  let body := match value with
    | '-' :: rest | '+' :: rest => rest
    | body => body
  body != [] && !body.any fun c => c == '-' || c == '+'

def numericText (value : List Char) : Bool :=
  value != [] && value.all (fun c => c.isDigit || c == '.' || c == '-' || c == '+') &&
    wellSigned value

def timestampText (value : List Char) : Bool :=
  value != [] &&
    value.all (fun c => c.isDigit || c == '-' || c == ':' || c == 'T' || c == 'Z' || c == '.' ||
      c == '+' || c == ' ') &&
    !hasComment value

def timestampLiteral (value : String) : String :=
  s!"TO_TIMESTAMP_TZ('{value}', 'YYYY-MM-DD\"T\"HH24:MI:SS.FF6TZH:TZM')"

def checkedWatermarkLiteral (value : String) : Except String String :=
  if numericText value.toList then .ok value
  else if timestampText value.toList then .ok (timestampLiteral value)
  else .error s!"cursor watermark `{value}` is neither numeric nor timestamp-shaped — refusing to interpolate it into SQL; clear the pipeline state"

def rowidLiteral (rowid : String) : Except String String :=
  if rowid.toList = [] ∨ ¬(rowid.toList.all fun c => c.isAlphanum || c == '+' || c == '/') then
    .error s!"resume rowid `{rowid}` has an unexpected shape — refusing to interpolate it into SQL; clear the pipeline state"
  else .ok s!"'{rowid}'"

/-! ## Decimals compare by value -/

theorem trim_eq {text : List Char} (h : ∀ c ∈ text, isWhitespace c = false) : trim text = text := by
  have hfront : text.dropWhile isWhitespace = text := by
    cases text with
    | nil => rfl
    | cons c text => rw [List.dropWhile_cons_of_neg (by simp [h c])]
  have hback : text.reverse.dropWhile isWhitespace = text.reverse := by
    cases hrev : text.reverse with
    | nil => rfl
    | cons c rest =>
      have hmem : c ∈ text := by rw [← List.mem_reverse, hrev]; simp
      rw [List.dropWhile_cons_of_neg (by simp [h c hmem])]
  rw [trim, hfront, hback, List.reverse_reverse]

theorem not_whitespace_of_digit {c : Char} (h : c.isDigit = true) : isWhitespace c = false := by
  have hbounds := digit_bounds h
  simp only [isWhitespace, Bool.or_eq_false_iff, decide_eq_false_iff_not, List.mem_cons,
    List.not_mem_nil, or_false]
  omega

theorem ne_of_digit {c : Char} (h : c.isDigit = true) :
    c ≠ '.' ∧ c ≠ '-' ∧ c ≠ '+' ∧ c ≠ 'T' ∧ c ≠ ':' := by
  refine ⟨?_, ?_, ?_, ?_, ?_⟩ <;> rintro rfl <;> simp at h

namespace Decimal

theorem mem_text {d : Decimal} {c : Char} (h : c ∈ d.text) :
    c.isDigit = true ∨ c = '-' ∨ c = '.' := by
  rw [text, List.mem_append, List.mem_append] at h
  obtain hsign | hwhole | hfraction := h
  · split at hsign <;> simp_all
  · exact .inl (d.whole_digits c hwhole)
  · split at hfraction
    · cases hfraction
    · obtain rfl | hmem := List.mem_cons.mp hfraction
      · exact .inr (.inr rfl)
      · exact .inl (d.fraction_digits c hmem)

def body (d : Decimal) : List Char :=
  d.whole ++ if d.fraction = [] then [] else '.' :: d.fraction

theorem body_cons (d : Decimal) : ∃ c rest, d.body = c :: rest ∧ c.isDigit = true := by
  obtain ⟨c, whole, hwhole⟩ := List.exists_cons_of_ne_nil d.whole_ne_nil
  exact ⟨c, _, by rw [body, hwhole]; rfl, d.whole_digits c (by rw [hwhole]; simp)⟩

theorem stripSign_text (d : Decimal) : stripSign d.text = (d.negative, d.body) := by
  obtain ⟨c, rest, hbody, hc⟩ := d.body_cons
  obtain ⟨-, hminus, hplus, -⟩ := ne_of_digit hc
  have htext : d.text = (if d.negative then ['-'] else []) ++ d.body := rfl
  cases hneg : d.negative with
  | true => rw [htext, hneg]; rfl
  | false =>
    rw [htext, hneg, hbody]
    unfold stripSign
    split <;> simp_all

theorem splitPoint_body (d : Decimal) : splitPoint d.body = (d.whole, d.fraction) := by
  have hwhole : ∀ c ∈ d.whole, (c != '.') = true := fun c hc => by
    simpa using (ne_of_digit (d.whole_digits c hc)).1
  rw [splitPoint, body]
  split
  · next hnil =>
    rw [List.append_nil, List.takeWhile_eq_self_iff.mpr hwhole,
      List.dropWhile_eq_nil_iff.mpr hwhole, hnil]
    rfl
  · rw [List.takeWhile_append_of_pos hwhole, List.dropWhile_append_of_pos hwhole]
    simp

/-- A numeral is read back as it was written. -/
theorem parts_text (d : Decimal) :
    decimalParts (String.ofList d.text) = some (d.negative, d.whole, d.fraction) := by
  have htrim : trim d.text = d.text := by
    apply trim_eq
    intro c hc
    obtain hdigit | rfl | rfl := mem_text hc
    · exact not_whitespace_of_digit hdigit
    · rfl
    · rfl
  simp [decimalParts, htrim, d.stripSign_text, d.splitPoint_body, d.whole_ne_nil, d.whole_digits,
    d.fraction_digits]

/-- The digits at `width` places behind the point, as one natural number. -/
def scaled (d : Decimal) (width : Nat) : Nat :=
  Digits.value d.whole * 10 ^ width + Digits.value (padRight width d.fraction)

theorem scaled_eq (d : Decimal) {width : Nat} (h : d.fraction.length ≤ width) :
    (d.scaled width : ℚ) = d.magnitude * 10 ^ width := by
  have hpow : (10 : ℚ) ^ width = 10 ^ d.fraction.length * 10 ^ (width - d.fraction.length) := by
    rw [← pow_add, Nat.add_sub_cancel' h]
  have hne : (10 : ℚ) ^ d.fraction.length ≠ 0 := by positivity
  rw [scaled, magnitude, value_padRight]
  push_cast
  rw [add_mul, hpow]
  field_simp

theorem magnitude_lt_iff {d e : Decimal} {width : Nat} (hd : d.fraction.length ≤ width)
    (he : e.fraction.length ≤ width) : d.magnitude < e.magnitude ↔ d.scaled width < e.scaled width := by
  have hpos : (0 : ℚ) < 10 ^ width := by positivity
  rw [← mul_lt_mul_iff_left₀ hpos, ← scaled_eq d hd, ← scaled_eq e he]
  exact Nat.cast_lt

theorem scaled_lt_iff {d e : Decimal} {width : Nat} (hd : d.fraction.length ≤ width)
    (he : e.fraction.length ≤ width) :
    d.scaled width < e.scaled width ↔ Digits.value d.whole < Digits.value e.whole ∨
      Digits.value d.whole = Digits.value e.whole ∧
        less (padRight width d.fraction) (padRight width e.fraction) = true := by
  have hdigits : AllDigits (padRight width d.fraction) := allDigits_padRight d.fraction_digits
  have hdigits' : AllDigits (padRight width e.fraction) := allDigits_padRight e.fraction_digits
  have hbound := value_lt hdigits
  have hbound' := value_lt hdigits'
  rw [length_padRight hd] at hbound
  rw [length_padRight he] at hbound'
  rw [scaled, scaled, place_lt hbound hbound',
    less_iff (by rw [length_padRight hd, length_padRight he]) hdigits hdigits']

theorem magnitudeLess_iff (d e : Decimal) :
    magnitudeLess d.whole d.fraction e.whole e.fraction = true ↔ d.magnitude < e.magnitude := by
  have hd : d.fraction.length ≤ max d.fraction.length e.fraction.length := le_max_left _ _
  have he : e.fraction.length ≤ max d.fraction.length e.fraction.length := le_max_right _ _
  rw [magnitude_lt_iff hd he, scaled_lt_iff hd he, magnitudeLess]
  have hdw := d.whole_digits
  have hew := e.whole_digits
  split
  · next hlength => simp [value_lt_of_length hdw hew hlength]
  next hge =>
    split
    · next hlength =>
      have := value_lt_of_length hew hdw hlength
      simp only [Bool.false_eq_true, false_iff]
      omega
    next hle =>
      have hlength : (trimZeros d.whole).length = (trimZeros e.whole).length := by omega
      have hless := less_iff hlength (allDigits_trimZeros hdw) (allDigits_trimZeros hew)
      have hless' := less_iff hlength.symm (allDigits_trimZeros hew) (allDigits_trimZeros hdw)
      rw [value_trimZeros, value_trimZeros] at hless hless'
      split
      · next h => simp [hless.mp h]
      next h =>
        split
        · next h' =>
          have := hless'.mp h'
          simp only [Bool.false_eq_true, false_iff]
          omega
        next h' =>
          have hsame : Digits.value d.whole = Digits.value e.whole := by
            have := mt hless.mpr h
            have := mt hless'.mpr h'
            omega
          simp [hsame]

/-- Two numerals of different values compare as their values do. -/
theorem decimalLess_iff {d e : Decimal} (h : d.value ≠ e.value) :
    decimalLess (d.negative, d.whole, d.fraction) (e.negative, e.whole, e.fraction) = true ↔
      d.value < e.value := by
  have hd := d.magnitude_nonneg
  have he := e.magnitude_nonneg
  have hmagnitude := magnitudeLess_iff d e
  unfold decimalLess
  unfold value at h ⊢
  cases hdneg : d.negative <;> cases heneg : e.negative <;>
    simp only [hdneg, heneg, Bool.false_eq_true, if_false, if_true] at h ⊢
  · exact hmagnitude
  · simpa using le_trans (neg_nonpos.mpr he) hd
  · simpa using lt_of_le_of_ne (le_trans (neg_nonpos.mpr hd) he) h
  · have hne : d.magnitude ≠ e.magnitude := fun heq => h (by rw [heq])
    have hparts : (trimZeros d.whole, d.fraction) ≠ (trimZeros e.whole, e.fraction) := by
      intro heq
      obtain ⟨hwhole, hfraction⟩ := Prod.mk.injEq _ _ _ _ ▸ heq
      apply hne
      rw [magnitude, magnitude, (trimZeros_eq_iff d.whole_digits e.whole_digits).mp hwhole,
        hfraction]
    simp [hparts, hmagnitude, ← Bool.not_eq_true, hne.symm.le_iff_lt]

/-- A numeral passes the literal gate as it stands. -/
theorem checked_text (d : Decimal) :
    checkedWatermarkLiteral (String.ofList d.text) = .ok (String.ofList d.text) := by
  obtain ⟨c, rest, hbody, hc⟩ := d.body_cons
  have htext : d.text = (if d.negative then ['-'] else []) ++ d.body := rfl
  have hne : d.text ≠ [] := by
    rw [htext, hbody]
    simp
  have hchars : d.text.all (fun c => c.isDigit || c == '.' || c == '-' || c == '+') = true := by
    rw [List.all_eq_true]
    intro c hc
    obtain hdigit | rfl | rfl := mem_text hc
    · simp [hdigit]
    · rfl
    · rfl
  have hunsigned : ∀ c ∈ d.body, c ≠ '-' ∧ c ≠ '+' := by
    intro c hc
    rw [body, List.mem_append] at hc
    obtain hwhole | hfraction := hc
    · obtain ⟨-, hminus, hplus, -⟩ := ne_of_digit (d.whole_digits c hwhole)
      exact ⟨hminus, hplus⟩
    · split at hfraction
      · cases hfraction
      · obtain rfl | hmem := List.mem_cons.mp hfraction
        · simp
        · obtain ⟨-, hminus, hplus, -⟩ := ne_of_digit (d.fraction_digits c hmem)
          exact ⟨hminus, hplus⟩
  have hsigned : wellSigned d.text = true := by
    have hbodyOk : (d.body != [] && !d.body.any fun c => c == '-' || c == '+') = true := by
      rw [hbody] at hunsigned ⊢
      simpa [not_or] using hunsigned
    obtain ⟨hminus, hplus⟩ := hunsigned c (by rw [hbody]; simp)
    cases hneg : d.negative with
    | true =>
      rw [htext, hneg]
      exact hbodyOk
    | false =>
      rw [htext, hneg]
      rw [hbody] at hbodyOk ⊢
      unfold wellSigned
      simp only [Bool.false_eq_true, if_false, List.nil_append]
      split
      · next heq => exact absurd (List.cons.inj heq).1 hminus
      · next heq => exact absurd (List.cons.inj heq).1 hplus
      · exact hbodyOk
  have hnumeric : numericText d.text = true := by simp [numericText, hne, hchars, hsigned]
  simp [checkedWatermarkLiteral, hnumeric]

end Decimal

/-! ## Instants compare as texts -/

theorem mem_dropWhile {p : Char → Bool} {c : Char} {text : List Char} (h : c ∈ text)
    (hc : p c = false) : c ∈ text.dropWhile p := by
  rw [← List.takeWhile_append_dropWhile (p := p) (l := text), List.mem_append] at h
  obtain htake | hdrop := h
  · rw [List.mem_takeWhile_imp htake] at hc
    cases hc
  · exact hdrop

/-- A text with a letter in it is no decimal. -/
theorem decimalParts_none {value : String} (h : 'T' ∈ value.toList) : decimalParts value = none := by
  have htrim : 'T' ∈ trim value.toList := by
    rw [trim, List.mem_reverse]
    apply mem_dropWhile _ rfl
    rw [List.mem_reverse]
    exact mem_dropWhile h rfl
  have hstrip : 'T' ∈ (stripSign (trim value.toList)).2 := by
    generalize trim value.toList = text at htrim
    unfold stripSign
    split <;> simp_all
  generalize hstripped : stripSign (trim value.toList) = stripped at hstrip
  have hparts : 'T' ∈ (splitPoint stripped.2).1 ∨ 'T' ∈ (splitPoint stripped.2).2 := by
    rw [← List.takeWhile_append_dropWhile (p := (· != '.')) (l := stripped.2),
      List.mem_append] at hstrip
    obtain htake | hdrop := hstrip
    · exact .inl htake
    · apply Or.inr
      rw [splitPoint]
      cases hcut : stripped.2.dropWhile (· != '.') with
      | nil => rw [hcut] at hdrop; cases hdrop
      | cons c rest =>
        rw [hcut] at hdrop
        obtain rfl | hmem := List.mem_cons.mp hdrop
        · have hhead := List.head?_dropWhile_not (· != '.') stripped.2
          rw [hcut] at hhead
          simp at hhead
        · exact hmem
  have hdigits : ¬AllDigits (splitPoint stripped.2).1 ∨ ¬AllDigits (splitPoint stripped.2).2 :=
    hparts.imp (fun hmem hall => by simpa using hall 'T' hmem)
      (fun hmem hall => by simpa using hall 'T' hmem)
  unfold decimalParts
  rw [hstripped]
  exact if_pos (.inr hdigits)

theorem letter_mem_isoMicros (c : Clock) : 'T' ∈ isoMicros c := by
  simp [isoMicros]

theorem mem_isoMicros {c : Clock} {x : Char} (h : x ∈ isoMicros c) :
    x.isDigit = true ∨ x = '-' ∨ x = 'T' ∨ x = ':' ∨ x = '.' ∨ x = '+' := by
  have hpad : ∀ {width n : Nat}, x ∈ padLeft width n → x.isDigit = true :=
    fun hmem => allDigits_padLeft _ _ x hmem
  simp only [isoMicros, List.mem_append, List.mem_cons, List.not_mem_nil, or_false] at h
  obtain h | rfl | h | rfl | h | rfl | h | rfl | h | rfl | h | rfl | h | h := h
  all_goals first
    | exact .inl (hpad h)
    | simp
    | (obtain rfl | rfl | rfl | rfl | rfl | rfl := h <;> simp)

theorem hasComment_cons {c : Char} (h : c ≠ '-') (rest : List Char) :
    hasComment (c :: rest) = hasComment rest :=
  hasComment.eq_2 c rest fun _ heq _ => h heq

theorem hasComment_digits {xs : List Char} (h : AllDigits xs) (ys : List Char) :
    hasComment (xs ++ ys) = hasComment ys := by
  induction xs with
  | nil => rfl
  | cons c xs ih =>
    obtain ⟨hc, hxs⟩ := allDigits_cons.mp h
    obtain ⟨-, hminus, -⟩ := ne_of_digit hc
    rw [List.cons_append, hasComment_cons hminus, ih hxs]

/-- A dash before a digit opens no comment. -/
theorem hasComment_dash {xs : List Char} (h : AllDigits xs) (hne : xs ≠ []) (ys : List Char) :
    hasComment ('-' :: (xs ++ ys)) = hasComment ys := by
  obtain ⟨c, rest, rfl⟩ := List.exists_cons_of_ne_nil hne
  obtain ⟨-, hminus, -⟩ := ne_of_digit (allDigits_cons.mp h).1
  rw [← hasComment_digits h ys]
  exact hasComment.eq_2 '-' _ fun _ _ heq => hminus (List.cons.inj heq).1

theorem hasComment_isoMicros (c : Clock) : hasComment (isoMicros c) = false := by
  have hpad : ∀ width n, AllDigits (padLeft width n) := allDigits_padLeft
  have hpadNe : ∀ width n, padLeft width n ≠ [] := fun width n h =>
    Nat.toDigits_ne_nil (List.append_eq_nil_iff.mp h).2
  rw [isoMicros, hasComment_digits (hpad _ _), hasComment_dash (hpad _ _) (hpadNe _ _),
    hasComment_dash (hpad _ _) (hpadNe _ _), hasComment_cons (by decide),
    hasComment_digits (hpad _ _), hasComment_cons (by decide), hasComment_digits (hpad _ _),
    hasComment_cons (by decide), hasComment_digits (hpad _ _), hasComment_cons (by decide),
    hasComment_digits (hpad _ _)]
  decide

/-- A rendered instant passes the literal gate as a timestamp. -/
theorem checked_isoMicros (c : Clock) : checkedWatermarkLiteral (String.ofList (isoMicros c)) =
    .ok (timestampLiteral (String.ofList (isoMicros c))) := by
  have hne : isoMicros c ≠ [] := List.ne_nil_of_mem (letter_mem_isoMicros c)
  have hnumeric : numericText (isoMicros c) = false := by
    have hall : ¬(isoMicros c).all (fun c => c.isDigit || c == '.' || c == '-' || c == '+') := by
      intro h
      simpa using List.all_eq_true.mp h 'T' (letter_mem_isoMicros c)
    simp only [numericText, hall, Bool.and_false, Bool.false_and]
  have hchars : (isoMicros c).all (fun c => c.isDigit || c == '-' || c == ':' || c == 'T' ||
      c == 'Z' || c == '.' || c == '+' || c == ' ') = true := by
    rw [List.all_eq_true]
    intro x hx
    obtain hdigit | rfl | rfl | rfl | rfl | rfl := mem_isoMicros hx
    · simp [hdigit]
    all_goals rfl
  have htimestamp : timestampText (isoMicros c) = true := by
    simp [timestampText, hne, hchars, hasComment_isoMicros]
  simp [checkedWatermarkLiteral, hnumeric, htimestamp]

theorem watermarkLess_isoMicros {c d : Clock} (hc : c.Valid) (hd : d.Valid) :
    watermarkLess (String.ofList (isoMicros c)) (String.ofList (isoMicros d)) = true ↔
      c.truncated < d.truncated := by
  have hnone : decimalParts (String.ofList (isoMicros c)) = none := by
    apply decimalParts_none
    rw [String.toList_ofList]
    exact letter_mem_isoMicros c
  rw [watermarkLess, hnone, String.toList_ofList, String.toList_ofList]
  exact less_isoMicros hc hd

theorem watermarkLess_text {d e : Decimal} (h : d.value ≠ e.value) :
    watermarkLess (String.ofList d.text) (String.ofList e.text) = true ↔ d.value < e.value := by
  rw [watermarkLess, d.parts_text, e.parts_text]
  exact Decimal.decimalLess_iff h

end Oracle
