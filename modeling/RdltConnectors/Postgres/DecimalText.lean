import Mathlib.Tactic.FieldSimp
import RdltConnectors.Library.Digits
import RdltConnectors.Library.Separator
import RdltConnectors.Postgres.Literal
import RdltConnectors.Postgres.Numeric

/-!
# Decimals as text

A change carries a decimal as text, which is read as a number scaled to its column. A scaled
number goes back into a statement as such a text.
-/
namespace PgTypes

open Digits Separator

/-- A run of digits as an `i128`. -/
def parseI128 (digits : List Char) : Except String Nat :=
  if Digits.value digits < i128Bound then .ok (Digits.value digits)
  else .error "number too large to fit in target type"

def stripMinus : List Char → Bool × List Char
  | '-' :: rest => (true, rest)
  | text => (false, text)

/-- The text of a `numeric` at the declared scale, exactly. -/
def parseDecimalScaled (value : String) (scale : Nat) : Except String Int :=
  let (negative, body) := stripMinus value.toList
  let (integerPart, fractionPart) := (splitOnce '.' body).getD (body, [])
  if (integerPart = [] ∧ fractionPart = []) ∨ ¬AllDigits integerPart ∨ ¬AllDigits fractionPart then
    .error s!"`{value}` is not a plain numeric literal"
  else if fractionPart.length > scale then
    .error s!"`{value}` carries more fractional digits than numeric scale {scale}"
  else
    match parseI128 (integerPart ++ padRight scale fractionPart) with
    | .ok scaled => .ok (if negative then -scaled else scaled)
    | .error e => .error s!"`{value}` overflows the numeric wire range: {e}"

/-! ## Plain numerals -/

/-- A sign, digits, and perhaps a point with digits behind it. -/
structure Numeral where
  negative : Bool
  whole : List Char
  fraction : List Char
  /-- whether there is a point -/
  point : Bool
  whole_digits : AllDigits whole
  fraction_digits : AllDigits fraction
  some_digit : whole ≠ [] ∨ fraction ≠ []
  pointed : fraction ≠ [] → point = true

namespace Numeral

def body (n : Numeral) : List Char := n.whole ++ if n.point then '.' :: n.fraction else []

def text (n : Numeral) : List Char := if n.negative then '-' :: n.body else n.body

def magnitude (n : Numeral) : ℚ := Digits.value (n.whole ++ n.fraction) / 10 ^ n.fraction.length

/-- The number a numeral stands for. -/
def value (n : Numeral) : ℚ := if n.negative then -n.magnitude else n.magnitude

theorem no_point {digits : List Char} (h : AllDigits digits) : '.' ∉ digits :=
  fun hmem => absurd (h '.' hmem) (by decide)

theorem no_minus (n : Numeral) : n.body.head? ≠ some '-' := by
  intro hhead
  have hmem : '-' ∈ n.body := List.mem_of_mem_head? hhead
  rw [body, List.mem_append] at hmem
  obtain hmem | hmem := hmem
  · exact absurd (n.whole_digits '-' hmem) (by decide)
  · split at hmem
    · obtain heq | hmem := List.mem_cons.mp hmem
      · exact absurd heq (by decide)
      · exact absurd (n.fraction_digits '-' hmem) (by decide)
    · exact absurd hmem List.not_mem_nil

theorem stripMinus_text (n : Numeral) : stripMinus n.text = (n.negative, n.body) := by
  rw [text]
  split
  · rename_i hneg
    rw [hneg]
    rfl
  · rename_i hneg
    rw [Bool.eq_false_iff.mpr hneg]
    have hminus := n.no_minus
    cases hbody : n.body with
    | nil => rfl
    | cons c rest =>
      rw [hbody] at hminus
      unfold stripMinus
      split
      · rename_i heq
        rw [heq] at hminus
        exact absurd rfl hminus
      · rfl

theorem splitOnce_body (n : Numeral) :
    (splitOnce '.' n.body).getD (n.body, []) = (n.whole, n.fraction) := by
  rw [body]
  split
  · rw [splitOnce_append (no_point n.whole_digits)]
    rfl
  · rename_i hpoint
    have hnone : n.fraction = [] := by
      by_contra hne
      exact hpoint (n.pointed hne)
    rw [List.append_nil, splitOnce_none (no_point n.whole_digits), hnone]
    rfl

/-- The digits in front of the point and so many behind it, as one number. -/
theorem scaled_eq (n : Numeral) {scale : Nat} (h : n.fraction.length ≤ scale) :
    (Digits.value (n.whole ++ padRight scale n.fraction) : ℚ) = n.magnitude * 10 ^ scale := by
  have hpow : (10 : ℚ) ^ scale = 10 ^ n.fraction.length * 10 ^ (scale - n.fraction.length) := by
    rw [← pow_add, Nat.add_sub_cancel' h]
  have hne : (10 : ℚ) ^ n.fraction.length ≠ 0 := by positivity
  rw [padRight, ← List.append_assoc, value_append, value_zeros, List.length_replicate, magnitude,
    hpow, Nat.add_zero]
  push_cast
  field_simp

end Numeral

/-! ## Reading a numeral -/

/-- A numeral is read by its digits. -/
theorem parse_numeral (n : Numeral) (scale : Nat) :
    parseDecimalScaled (String.ofList n.text) scale =
      if n.fraction.length > scale then
        .error s!"`{String.ofList n.text}` carries more fractional digits than numeric scale {scale}"
      else
        match parseI128 (n.whole ++ padRight scale n.fraction) with
        | .ok scaled => .ok (if n.negative then -scaled else scaled)
        | .error e => .error s!"`{String.ofList n.text}` overflows the numeric wire range: {e}" := by
  have hdigits : ¬((n.whole = [] ∧ n.fraction = []) ∨ ¬AllDigits n.whole ∨ ¬AllDigits n.fraction) := by
    rintro (⟨hwhole, hfraction⟩ | hwhole | hfraction)
    · exact n.some_digit.elim (fun h => h hwhole) (fun h => h hfraction)
    · exact hwhole n.whole_digits
    · exact hfraction n.fraction_digits
  rw [parseDecimalScaled, String.toList_ofList, n.stripMinus_text]
  dsimp only
  rw [n.splitOnce_body]
  dsimp only
  rw [if_neg hdigits]

/-- What is accepted is a numeral. -/
theorem numeral_of_parse {value : String} {scale : Nat} {scaled : Int}
    (h : parseDecimalScaled value scale = .ok scaled) : ∃ n : Numeral, value.toList = n.text := by
  rw [parseDecimalScaled] at h
  cases hsign : stripMinus value.toList with
  | mk negative body =>
    rw [hsign] at h
    dsimp only at h
    cases hparts : (splitOnce '.' body).getD (body, []) with
    | mk whole fraction =>
      rw [hparts] at h
      dsimp only at h
      split at h
      · exact absurd h nofun
      · rename_i hdigits
        obtain ⟨hsome, hrest⟩ := not_or.mp hdigits
        obtain ⟨hwhole, hfraction⟩ := not_or.mp hrest
        have hvalue : value.toList = if negative then '-' :: body else body := by
          revert hsign
          unfold stripMinus
          split
          · rename_i heq
            intro hsign
            obtain ⟨rfl, rfl⟩ := Prod.mk.inj hsign
            exact heq
          · intro hsign
            obtain ⟨rfl, rfl⟩ := Prod.mk.inj hsign
            rfl
        cases hsplit : splitOnce '.' body with
        | none =>
          rw [hsplit] at hparts
          obtain ⟨rfl, rfl⟩ := Prod.mk.inj hparts
          refine ⟨⟨negative, body, [], false, not_not.mp hwhole, fun _ hc => absurd hc List.not_mem_nil,
            .inl fun hnil => hsome ⟨hnil, rfl⟩, fun hne => absurd rfl hne⟩, ?_⟩
          rw [hvalue, Numeral.text, Numeral.body, if_neg Bool.false_ne_true, List.append_nil]
        | some parts =>
          rw [hsplit] at hparts
          obtain rfl : parts = (whole, fraction) := hparts
          refine ⟨⟨negative, whole, fraction, true, not_not.mp hwhole, not_not.mp hfraction,
            not_and_or.mp hsome, fun _ => rfl⟩, ?_⟩
          rw [hvalue, Numeral.text, Numeral.body, if_pos rfl, splitOnce_eq_some hsplit]

/-- A text is accepted at a scale only if its number is a whole one there, and read as that. -/
theorem parse_exact {n : Numeral} {scale : Nat} {scaled : Int}
    (h : parseDecimalScaled (String.ofList n.text) scale = .ok scaled) :
    n.value * 10 ^ scale = scaled := by
  rw [parse_numeral] at h
  split at h
  · exact absurd h nofun
  · rename_i hscale
    have hscaled := n.scaled_eq (Nat.le_of_not_lt hscale)
    unfold parseI128 at h
    split at h
    · rename_i digits hdigits
      split at hdigits
      · obtain rfl := Except.ok.inj hdigits
        obtain rfl := Except.ok.inj h
        rw [Numeral.value]
        split
        · push_cast
          rw [hscaled, neg_mul]
        · push_cast
          exact hscaled.symm
      · exact absurd hdigits nofun
    · exact absurd h nofun

/-! ## The round trip -/

/-- The digits of a scaled integer, one of them in front of the point. -/
def digitsOf (scaled : Int) (scale : Nat) : List Char := padLeft (scale + 1) scaled.natAbs

theorem lt_length_digitsOf (scaled : Int) (scale : Nat) : scale < (digitsOf scaled scale).length :=
  le_length_padLeft (scale + 1) scaled.natAbs

/-- The numeral a scaled integer is written as. -/
def numeralOf (scaled : Int) (scale : Nat) : Numeral where
  negative := scaled < 0
  whole := (digitsOf scaled scale).take ((digitsOf scaled scale).length - scale)
  fraction := (digitsOf scaled scale).drop ((digitsOf scaled scale).length - scale)
  point := scale ≠ 0
  whole_digits c hc := allDigits_padLeft _ _ c (List.mem_of_mem_take hc)
  fraction_digits c hc := allDigits_padLeft _ _ c (List.mem_of_mem_drop hc)
  some_digit := by
    have hlength := lt_length_digitsOf scaled scale
    refine .inl (List.ne_nil_of_length_pos ?_)
    rw [List.length_take]
    omega
  pointed hne := by
    by_contra hzero
    apply hne
    have hscale : scale = 0 := by simpa using hzero
    rw [hscale, Nat.sub_zero]
    exact List.drop_length

theorem numeralOf_digits (scaled : Int) (scale : Nat) :
    (numeralOf scaled scale).whole ++ (numeralOf scaled scale).fraction =
      digitsOf scaled scale := List.take_append_drop _ _

theorem numeralOf_fraction (scaled : Int) (scale : Nat) :
    (numeralOf scaled scale).fraction.length = scale := by
  have hlength := lt_length_digitsOf scaled scale
  rw [numeralOf, List.length_drop]
  omega

theorem decimalText_eq (scaled : Int) (scale : Nat) :
    decimalText scaled scale = String.ofList (numeralOf scaled scale).text := by
  have hdigits : (toString scaled.natAbs).toList = Nat.toDigits 10 scaled.natAbs :=
    String.toList_ofList
  have hsign (digits : List Char) : (if scaled < 0 then "-" else "").toList ++ digits =
      if (numeralOf scaled scale).negative then '-' :: digits else digits := by
    by_cases h : scaled < 0
    · have hneg : (numeralOf scaled scale).negative = true := decide_eq_true h
      rw [if_pos h, if_pos hneg]
      rfl
    · have hneg : (numeralOf scaled scale).negative = false := decide_eq_false h
      rw [if_neg h, hneg]
      rfl
  apply String.toList_inj.mp
  rw [decimalText, hdigits, String.toList_ofList, Numeral.text, ← hsign]
  dsimp only
  split
  · rename_i hzero
    subst hzero
    have hpos : 0 < (Nat.toDigits 10 scaled.natAbs).length :=
      List.length_pos_of_ne_nil Nat.toDigits_ne_nil
    have hpad : padLeft 1 scaled.natAbs = Nat.toDigits 10 scaled.natAbs := by
      rw [padLeft, Nat.sub_eq_zero_of_le hpos]
      rfl
    have hbody : (numeralOf scaled 0).body = Nat.toDigits 10 scaled.natAbs := by
      rw [Numeral.body, numeralOf]
      simp [digitsOf, hpad]
    rw [String.toList_append, String.toList_ofList, hbody]
  · rename_i hscale
    have hbody : (numeralOf scaled scale).body =
        (numeralOf scaled scale).whole ++ '.' :: (numeralOf scaled scale).fraction := by
      have hpoint : (numeralOf scaled scale).point = true := decide_eq_true hscale
      rw [Numeral.body, if_pos hpoint]
    rw [hbody]
    simp only [String.toList_append, String.toList_ofList, List.append_assoc]
    rfl

/-- A scaled integer is read back from its text. A text is accepted at a scale only if it is a
numeral whose number is a whole one there. -/
theorem decimal_text_round_trips :
    (∀ (scaled : Int) (scale : Nat), scaled.natAbs < 10 ^ 38 → scale ≤ 38 →
      parseDecimalScaled (decimalText scaled scale) scale = .ok scaled) ∧
    ∀ (value : String) (scale : Nat) (scaled : Int), parseDecimalScaled value scale = .ok scaled →
      (∃ n : Numeral, value.toList = n.text) ∧
        ∀ n : Numeral, value.toList = n.text → n.value * 10 ^ scale = scaled := by
  constructor
  · intro scaled scale hscaled _
    have hbound : scaled.natAbs < i128Bound := Nat.lt_of_lt_of_le hscaled (by decide)
    have hread : parseI128 (digitsOf scaled scale) = .ok scaled.natAbs := by
      rw [parseI128, digitsOf, value_padLeft, if_pos hbound]
    have hpad : padRight scale (numeralOf scaled scale).fraction =
        (numeralOf scaled scale).fraction := by
      rw [padRight, numeralOf_fraction, Nat.sub_self]
      exact List.append_nil _
    rw [decimalText_eq, parse_numeral, numeralOf_fraction, if_neg (Nat.lt_irrefl _), hpad,
      numeralOf_digits, hread]
    dsimp only
    rw [numeralOf]
    congr 1
    split
    · rename_i hneg
      have hneg' : scaled < 0 := of_decide_eq_true hneg
      omega
    · rename_i hneg
      have hneg' : ¬scaled < 0 := fun h => hneg (decide_eq_true h)
      omega
  · intro value scale scaled h
    refine ⟨numeral_of_parse h, fun n hn => parse_exact ?_⟩
    rwa [← hn, String.ofList_toList]

theorem decimal_text_round_trips_sample :
    parseDecimalScaled (decimalText (-5) 2) 2 = .ok (-5) ∧
      ∀ n : Numeral, "1.5".toList = n.text → n.value * 10 ^ 1 = (15 : Int) :=
  ⟨decimal_text_round_trips.1 (-5) 2 (by decide) (by decide),
    (decimal_text_round_trips.2 "1.5" 1 15 (by decide)).2⟩

end PgTypes
