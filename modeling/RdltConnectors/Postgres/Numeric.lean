import RdltConnectors.Library.Words
import Mathlib.Data.Nat.Digits.Lemmas
import Mathlib.Data.Rat.Cast.Defs
import Mathlib.Tactic.NormNum
import Mathlib.Algebra.Order.Field.Rat

/-!
# NUMERIC on the wire

A decimal travels as groups of four digits, with the weight of the first group, a sign and
a display scale. The encoder makes the groups by division and folds the padding of the
fraction into the first one; the decoder accumulates them in an `i128` and then moves the
point to the declared scale.
-/
namespace PgTypes

open Words

abbrev Bytes := List UInt8

/-- The bound of `i128`. -/
def i128Bound : Nat := 2 ^ 127

def bigEndianI16 (bytes : Bytes) : Except String Int :=
  if bytes.length = 2 then .ok (signed 16 (bigEndian bytes)) else .error "short i16"

/-! ## Decoding -/

def hexWord (word : Nat) : String :=
  let digits := Nat.toDigits 16 word
  String.ofList ("0x".toList ++ List.replicate (4 - digits.length) '0' ++ digits)

/-- Whether the sign word says negative. -/
def signOf (word : Nat) : Except String Bool :=
  if word = 0x0000 then .ok false
  else if word = 0x4000 then .ok true
  else if word = 0xC000 then .error "numeric NaN is not representable as Decimal"
  else if word = 0xD000 ∨ word = 0xF000 then
    .error "numeric ±Infinity is not representable as Decimal"
  else .error s!"numeric: unknown sign word {hexWord word}"

/-- The checked accumulation of so many groups. -/
def accumulate : Nat → Bytes → Nat → Except String Nat
  | 0, _, accumulated => .ok accumulated
  | count + 1, a :: b :: rest, accumulated =>
    let digit := bigEndian [a, b]
    if digit ≥ 10000 then .error "numeric: base-10000 digit out of range"
    else if accumulated * 10000 + digit ≥ i128Bound then
      .error "numeric: overflow while accumulating digits"
    else accumulate count rest (accumulated * 10000 + digit)
  | _ + 1, _, _ => .error "numeric: digit count exceeds field"

def scaleUp : Nat → Nat → Except String Nat
  | 0, value => .ok value
  | n + 1, value =>
    if value * 10 ≥ i128Bound then .error "numeric: overflow while rescaling"
    else scaleUp n (value * 10)

def scaleDown : Nat → Nat → Except String Nat
  | 0, value => .ok value
  | n + 1, value =>
    if value % 10 ≠ 0 then
      .error "numeric: more fractional digits on the wire than the declared scale (schema drift)"
    else scaleDown n (value / 10)

/-- Move the point by powers of ten, exactly or not at all. -/
def rescale (accumulated : Nat) (exponent : Int) : Except String Nat :=
  if exponent ≥ 0 then scaleUp exponent.toNat accumulated
  else scaleDown (-exponent).toNat accumulated

def decodeNumeric (field : Bytes) (scale : Nat) : Except String Int :=
  if field.length < 8 then .error "numeric: header short"
  else do
    let digitCount ← bigEndianI16 (field.take 2)
    let weight ← bigEndianI16 ((field.drop 2).take 2)
    let negative ← signOf (bigEndian ((field.drop 4).take 2))
    if ¬(0 ≤ digitCount ∧ digitCount ≤ 0x4000) ∨ field.length < 8 + digitCount.toNat * 2 then
      .error "numeric: digit count exceeds field"
    else do
      let accumulated ← accumulate digitCount.toNat (field.drop 8) 0
      let value ← rescale accumulated (4 * (weight - digitCount + 1) + scale)
      .ok (if negative then -(value : Int) else value)

/-! ## Encoding -/

/-- The zeros that fill the last group of the fraction. -/
def padOf (scale : Nat) : Nat := (4 - scale % 4) % 4

/-- The groups of the array that are left, least significant first; `none` is a write
past its end or a group that does not fit `u16`. -/
def fillGroups : Nat → Nat → Option (List Nat)
  | _, 0 => some []
  | 0, _ + 1 => none
  | room + 1, remaining + 1 =>
    if (remaining + 1) % 10000 < 2 ^ 16 then
      (fillGroups room ((remaining + 1) / 10000)).map ((remaining + 1) % 10000 :: ·)
    else none

/-- `i16::try_from` of a number about to be written. -/
def fitsI16 (n : Int) : Prop := -2 ^ 15 ≤ n ∧ n < 2 ^ 15

instance (n : Int) : Decidable (fitsI16 n) :=
  inferInstanceAs (Decidable (-2 ^ 15 ≤ n ∧ n < 2 ^ 15))

/-- The bytes appended to `out`; `none` is a panic. -/
def appendNumeric (value : Int) (scale : UInt8) (out : Bytes) : Option Bytes :=
  let pad := padOf scale.toNat
  let lowDivisor := 10 ^ (4 - pad)
  let magnitude := value.natAbs
  let first := magnitude % lowDivisor * 10 ^ pad
  if first ≥ 2 ^ 16 then none
  else
    -- the array has sixteen places, and the first group takes one
    match fillGroups 15 (magnitude / lowDivisor) with
    | none => none
    | some rest =>
      if rest = [] ∧ first = 0 then
        some (out ++ putI16 0 ++ putI16 0 ++ put16 0 ++ putI16 scale.toNat)
      else
        let groups := first :: rest
        let weight : Int := groups.length - 1 - ((scale.toNat + pad) / 4 : Nat)
        let digits := (groups.dropWhile (· = 0)).reverse
        if fitsI16 digits.length ∧ fitsI16 weight then
          some (out ++ putI16 digits.length ++ putI16 weight ++
            put16 (if value < 0 then 0x4000 else 0x0000) ++ putI16 scale.toNat ++
            digits.flatMap put16)
        else none

/-! ## Numbers in groups of four digits -/

/-- A number as the server holds it, the most significant group first. -/
structure Numeric where
  weight : Int
  negative : Bool
  displayScale : Nat
  digits : List Nat
  deriving DecidableEq, Repr

def Numeric.wire (numeric : Numeric) : Bytes :=
  putI16 numeric.digits.length ++ putI16 numeric.weight ++
    put16 (if numeric.negative then 0x4000 else 0x0000) ++ putI16 numeric.displayScale ++
    numeric.digits.flatMap put16

/-- The value of groups of which the first has this weight. -/
def groupsValue : Int → List Nat → ℚ
  | _, [] => 0
  | weight, digit :: digits => digit * (10000 : ℚ) ^ weight + groupsValue (weight - 1) digits

def Numeric.value (numeric : Numeric) : ℚ :=
  (if numeric.negative then -1 else 1) * groupsValue numeric.weight numeric.digits

/-- The canonical form: groups of four digits, no zero group at either end, and a zero
without groups, weight or sign. -/
structure Numeric.Canonical (numeric : Numeric) : Prop where
  below : ∀ digit ∈ numeric.digits, digit < 10000
  leading : ∀ digit, numeric.digits.head? = some digit → digit ≠ 0
  trailing : ∀ digit, numeric.digits.getLast? = some digit → digit ≠ 0
  zero : numeric.digits = [] → numeric.weight = 0 ∧ numeric.negative = false
  count : numeric.digits.length < 2 ^ 15
  weight : fitsI16 numeric.weight

/-- The groups of a magnitude, padded to a whole last group, least significant first. -/
def paddedGroups (magnitude scale : Nat) : List Nat :=
  Nat.digits 10000 (magnitude * 10 ^ padOf scale)

def numericOf (value : Int) (scale : Nat) : Numeric :=
  if value = 0 then ⟨0, false, scale, []⟩
  else
    { weight := (paddedGroups value.natAbs scale).length - 1 - ((scale + padOf scale) / 4 : Nat)
      negative := value < 0
      displayScale := scale
      digits := ((paddedGroups value.natAbs scale).dropWhile (· = 0)).reverse }

theorem padOf_lt (scale : Nat) : padOf scale < 4 := Nat.mod_lt _ (by decide)

theorem padOf_add (scale : Nat) : 4 * ((scale + padOf scale) / 4) = scale + padOf scale := by
  unfold padOf
  omega

theorem ten_pow_pad (scale : Nat) : 10 ^ (4 - padOf scale) * 10 ^ padOf scale = 10000 := by
  rw [← Nat.pow_add, Nat.sub_add_cancel (Nat.le_of_lt (padOf_lt scale))]

theorem fillGroups_digits {room remaining : Nat} (h : remaining < 10000 ^ room) :
    fillGroups room remaining = some (Nat.digits 10000 remaining) := by
  induction room generalizing remaining with
  | zero =>
    obtain rfl : remaining = 0 := by simpa using h
    rfl
  | succ room ih =>
    cases remaining with
    | zero => rfl
    | succ remaining =>
      have hdiv : (remaining + 1) / 10000 < 10000 ^ room := by
        apply Nat.div_lt_of_lt_mul
        rwa [Nat.mul_comm, ← Nat.pow_succ]
      have hmod : (remaining + 1) % 10000 < 2 ^ 16 :=
        Nat.lt_trans (Nat.mod_lt _ (by decide)) (by decide)
      rw [fillGroups, if_pos hmod, ih hdiv, Nat.digits_def' (by decide) (Nat.succ_pos _)]
      rfl

/-- The folded first group and the groups of the quotient are those of the padded number. -/
theorem groups_padded {magnitude : Nat} (scale : Nat) (hpos : 0 < magnitude) :
    magnitude % 10 ^ (4 - padOf scale) * 10 ^ padOf scale ::
        Nat.digits 10000 (magnitude / 10 ^ (4 - padOf scale)) = paddedGroups magnitude scale := by
  have hpad : 0 < 10 ^ padOf scale := Nat.pow_pos (by decide)
  have hpositive : 0 < magnitude * 10 ^ padOf scale := Nat.mul_pos hpos hpad
  have hmod : magnitude * 10 ^ padOf scale % 10000 =
      magnitude % 10 ^ (4 - padOf scale) * 10 ^ padOf scale := by
    rw [← ten_pow_pad scale, Nat.mul_mod_mul_right]
  have hdiv : magnitude * 10 ^ padOf scale / 10000 = magnitude / 10 ^ (4 - padOf scale) := by
    rw [← ten_pow_pad scale, Nat.mul_div_mul_right _ _ hpad]
  rw [paddedGroups, Nat.digits_def' (by decide) hpositive, hmod, hdiv]

theorem paddedGroups_length {magnitude : Nat} (scale : Nat) (h : magnitude ≤ 2 ^ 127) :
    (paddedGroups magnitude scale).length ≤ 11 := by
  rw [paddedGroups, Nat.digits_length_le_iff (by decide)]
  have hpad : 10 ^ padOf scale ≤ 10 ^ 3 :=
    Nat.pow_le_pow_right (by decide) (Nat.le_of_lt_succ (padOf_lt scale))
  calc magnitude * 10 ^ padOf scale ≤ 2 ^ 127 * 10 ^ 3 := Nat.mul_le_mul h hpad
    _ < 10000 ^ 11 := by decide

theorem length_dropWhile_le {α : Type} (p : α → Bool) (l : List α) :
    (l.dropWhile p).length ≤ l.length := (List.dropWhile_sublist p).length_le

/-- The encoder does not panic, and writes the canonical groups. -/
theorem appendNumeric_wire {value : Int} (scale : UInt8) (out : Bytes)
    (h : value.natAbs ≤ 2 ^ 127) :
    appendNumeric value scale out = some (out ++ (numericOf value scale.toNat).wire) := by
  have hpad := padOf_lt scale.toNat
  have hfirst : value.natAbs % 10 ^ (4 - padOf scale.toNat) * 10 ^ padOf scale.toNat < 10000 := by
    have hmod : value.natAbs % 10 ^ (4 - padOf scale.toNat) < 10 ^ (4 - padOf scale.toNat) :=
      Nat.mod_lt _ (Nat.pow_pos (by decide))
    have hmul := Nat.mul_lt_mul_of_pos_right hmod (Nat.pow_pos (by decide) : 0 < 10 ^ padOf scale.toNat)
    rwa [ten_pow_pad] at hmul
  have hrest : fillGroups 15 (value.natAbs / 10 ^ (4 - padOf scale.toNat)) =
      some (Nat.digits 10000 (value.natAbs / 10 ^ (4 - padOf scale.toNat))) := by
    apply fillGroups_digits
    calc value.natAbs / 10 ^ (4 - padOf scale.toNat) ≤ value.natAbs := Nat.div_le_self _ _
      _ ≤ 2 ^ 127 := h
      _ < 10000 ^ 15 := by decide
  simp only [appendNumeric]
  rw [if_neg (by omega), hrest]
  by_cases hzero : value = 0
  · subst hzero
    simp [numericOf, Numeric.wire]
  · have hpos : 0 < value.natAbs := Int.natAbs_pos.mpr hzero
    have hgroups := groups_padded scale.toNat hpos
    have hsome : ¬(Nat.digits 10000 (value.natAbs / 10 ^ (4 - padOf scale.toNat)) = [] ∧
        value.natAbs % 10 ^ (4 - padOf scale.toNat) * 10 ^ padOf scale.toNat = 0) := by
      rintro ⟨hnil, hzero'⟩
      rw [hnil, hzero'] at hgroups
      have hvalue := congrArg (Nat.ofDigits 10000) hgroups
      rw [paddedGroups, Nat.ofDigits_digits, Nat.ofDigits_singleton] at hvalue
      have hmul := Nat.mul_pos hpos (Nat.pow_pos (by decide) : 0 < 10 ^ padOf scale.toNat)
      omega
    have hlength := paddedGroups_length scale.toNat h
    have hdrop := length_dropWhile_le (fun digit => decide (digit = 0))
      (paddedGroups value.natAbs scale.toNat)
    have hscale : scale.toNat < 256 := scale.toNat_lt
    have hne : (paddedGroups value.natAbs scale.toNat).length ≠ 0 := by
      rw [← hgroups, List.length_cons]
      exact Nat.succ_ne_zero _
    simp only
    rw [if_neg hsome, hgroups, if_pos]
    · simp only [numericOf, if_neg hzero, Numeric.wire, List.length_reverse, List.append_assoc,
        decide_eq_true_eq]
    · constructor
      · rw [List.length_reverse]
        constructor <;> omega
      · constructor <;> omega

/-! ## The value that is written -/

/-- The zero groups at the least significant end. -/
def zeroGroups (groups : List Nat) : Nat := (groups.takeWhile (· = 0)).length

theorem ofDigits_dropZeros (groups : List Nat) :
    Nat.ofDigits 10000 groups =
      10000 ^ zeroGroups groups * Nat.ofDigits 10000 (groups.dropWhile (· = 0)) := by
  unfold zeroGroups
  induction groups with
  | nil => rfl
  | cons group groups ih =>
    by_cases hzero : group = 0
    · rw [List.takeWhile_cons_of_pos (by simpa using hzero),
        List.dropWhile_cons_of_pos (by simpa using hzero), Nat.ofDigits_cons, ih, hzero,
        List.length_cons, Nat.pow_succ]
      ring
    · rw [List.takeWhile_cons_of_neg (by simpa using hzero),
        List.dropWhile_cons_of_neg (by simpa using hzero)]
      simp

theorem zeroGroups_add (groups : List Nat) :
    zeroGroups groups + (groups.dropWhile (· = 0)).length = groups.length := by
  rw [zeroGroups, ← List.length_append, List.takeWhile_append_dropWhile]

/-- The groups are the digits of one number, moved by the weight. -/
theorem groupsValue_reverse (groups : List Nat) (weight : Int) :
    groupsValue weight groups.reverse =
      (Nat.ofDigits 10000 groups : Nat) * (10000 : ℚ) ^ (weight - groups.length + 1) := by
  have hmost : ∀ (digits : List Nat) (weight : Int), groupsValue weight digits =
      (Nat.ofDigits 10000 digits.reverse : Nat) * (10000 : ℚ) ^ (weight - digits.length + 1) := by
    intro digits
    induction digits with
    | nil =>
      intro weight
      simp only [groupsValue, List.reverse_nil, Nat.ofDigits_nil, Nat.cast_zero, zero_mul]
    | cons digit digits ih =>
      intro weight
      have hten : (10000 : ℚ) ≠ 0 := by norm_num
      have hshift : weight - 1 - (digits.length : Int) + 1 = weight - (digits.length + 1 : Nat) + 1 := by
        push_cast
        ring
      have hsplit : (10000 : ℚ) ^ weight =
          10000 ^ digits.length * (10000 : ℚ) ^ (weight - (digits.length + 1 : Nat) + 1) := by
        rw [← zpow_natCast, ← zpow_add₀ hten]
        congr 1
        push_cast
        ring
      rw [groupsValue, ih, hshift, hsplit, List.reverse_cons, Nat.ofDigits_append,
        Nat.ofDigits_singleton, List.length_reverse, List.length_cons]
      push_cast
      ring
  rw [hmost, List.reverse_reverse, List.length_reverse]

variable {value : Int} {scale : Nat}

/-- The number the digits spell, with its zero groups taken off. -/
def strippedMagnitude (magnitude scale : Nat) : Nat :=
  Nat.ofDigits 10000 ((paddedGroups magnitude scale).dropWhile (· = 0))

theorem stripped_mul (magnitude scale : Nat) :
    10000 ^ zeroGroups (paddedGroups magnitude scale) * strippedMagnitude magnitude scale =
      magnitude * 10 ^ padOf scale := by
  rw [strippedMagnitude, ← ofDigits_dropZeros, paddedGroups, Nat.ofDigits_digits]

theorem numericOf_value (value : Int) (scale : Nat) :
    (numericOf value scale).value = value * (10 : ℚ) ^ (-scale : Int) := by
  by_cases hzero : value = 0
  · simp [numericOf, hzero, Numeric.value, groupsValue]
  · have hten : (10 : ℚ) ≠ 0 := by norm_num
    have hmul := congrArg (Nat.cast : Nat → ℚ) (stripped_mul value.natAbs scale)
    have hsplit := zeroGroups_add (paddedGroups value.natAbs scale)
    have hpad := padOf_add scale
    have hexponent : ((paddedGroups value.natAbs scale).length - 1 -
        ((scale + padOf scale) / 4 : Nat) : Int) -
          ((paddedGroups value.natAbs scale).dropWhile (· = 0)).length + 1 =
        zeroGroups (paddedGroups value.natAbs scale) - ((scale + padOf scale) / 4 : Nat) := by
      omega
    have hpower : (10000 : ℚ) ^ ((zeroGroups (paddedGroups value.natAbs scale) : Int) -
        ((scale + padOf scale) / 4 : Nat)) =
          10000 ^ zeroGroups (paddedGroups value.natAbs scale) *
            ((10 : ℚ) ^ (-scale : Int) * ((10 : ℚ) ^ padOf scale)⁻¹) := by
      have hbase : (10000 : ℚ) = 10 ^ (4 : Int) := by norm_num
      rw [zpow_sub₀ (by norm_num), zpow_natCast, div_eq_mul_inv]
      congr 1
      rw [hbase, ← zpow_mul, ← zpow_neg, ← zpow_natCast (10 : ℚ) (padOf scale), ← zpow_neg,
        ← zpow_add₀ hten]
      congr 1
      omega
    have hsign : ((if value < 0 then -1 else 1 : ℚ)) * (value.natAbs : ℚ) = value := by
      have hcast : ((value.natAbs : Int) : ℚ) = (value.natAbs : ℚ) := Int.cast_natCast _
      split
      · rename_i hneg
        rw [← hcast, Int.ofNat_natAbs_of_nonpos (Int.le_of_lt hneg)]
        push_cast
        ring
      · rename_i hnonneg
        rw [← hcast, Int.natAbs_of_nonneg (by omega), one_mul]
    rw [numericOf, if_neg hzero, Numeric.value]
    simp only [decide_eq_true_eq]
    rw [groupsValue_reverse, hexponent, hpower]
    push_cast at hmul
    change _ * ((strippedMagnitude value.natAbs scale : ℚ) * _) = _
    calc (if value < 0 then -1 else 1 : ℚ) * (strippedMagnitude value.natAbs scale *
          (10000 ^ zeroGroups (paddedGroups value.natAbs scale) *
            ((10 : ℚ) ^ (-scale : Int) * ((10 : ℚ) ^ padOf scale)⁻¹)))
        = (if value < 0 then -1 else 1 : ℚ) *
            ((10000 ^ zeroGroups (paddedGroups value.natAbs scale) *
              strippedMagnitude value.natAbs scale) * ((10 : ℚ) ^ padOf scale)⁻¹) *
                (10 : ℚ) ^ (-scale : Int) := by ring
      _ = (if value < 0 then -1 else 1 : ℚ) * (value.natAbs : ℚ) * (10 : ℚ) ^ (-scale : Int) := by
        rw [hmul, mul_assoc (value.natAbs : ℚ), mul_inv_cancel₀ (pow_ne_zero _ hten), mul_one]
      _ = value * (10 : ℚ) ^ (-scale : Int) := by rw [hsign]

/-! ## The canonical form -/

theorem dropZeros_ne_nil {magnitude : Nat} (scale : Nat) (hpos : 0 < magnitude) :
    (paddedGroups magnitude scale).dropWhile (· = 0) ≠ [] := by
  intro hnil
  have hmul := stripped_mul magnitude scale
  rw [strippedMagnitude, hnil, Nat.ofDigits_nil, Nat.mul_zero] at hmul
  have hpadded := Nat.mul_pos hpos (Nat.pow_pos (by decide) : 0 < 10 ^ padOf scale)
  omega

theorem most_ne_zero {magnitude scale digit : Nat}
    (h : ((paddedGroups magnitude scale).dropWhile (· = 0)).getLast? = some digit) :
    digit ≠ 0 := by
  have hlast : (paddedGroups magnitude scale).getLast? = some digit := by
    rw [← List.takeWhile_append_dropWhile (p := (· = 0)) (l := paddedGroups magnitude scale),
      List.getLast?_append, h]
    rfl
  have hne : paddedGroups magnitude scale ≠ [] := by
    intro hnil
    rw [hnil] at hlast
    exact absurd hlast nofun
  rw [List.getLast?_eq_some_getLast hne, Option.some_inj] at hlast
  rw [← hlast]
  apply Nat.getLast_digit_ne_zero
  intro hzero
  rw [paddedGroups, hzero, Nat.digits_zero] at hne
  exact hne rfl

theorem least_ne_zero {groups : List Nat} {digit : Nat}
    (h : (groups.dropWhile (· = 0)).head? = some digit) : digit ≠ 0 := by
  have hnot := List.head?_dropWhile_not (· = 0) groups
  rw [h] at hnot
  simpa using hnot

theorem numericOf_canonical {value : Int} {scale : Nat} (h : value.natAbs ≤ 2 ^ 127)
    (hscale : scale < 256) : (numericOf value scale).Canonical := by
  by_cases hzero : value = 0
  · subst hzero
    constructor
    case zero => exact fun _ => ⟨rfl, rfl⟩
    case count => exact Nat.pow_pos (by decide)
    case weight => exact (by decide : fitsI16 0)
    all_goals exact nofun
  · have hpos : 0 < value.natAbs := Int.natAbs_pos.mpr hzero
    have hlength := paddedGroups_length scale h
    have hdrop := length_dropWhile_le (fun digit => decide (digit = 0))
      (paddedGroups value.natAbs scale)
    have hpad := padOf_lt scale
    rw [numericOf, if_neg hzero]
    constructor
    case below =>
      intro digit hmem
      have hgroups := (List.dropWhile_sublist _).mem (List.mem_reverse.mp hmem)
      exact Nat.digits_lt_base (by decide) hgroups
    case leading =>
      intro digit hhead
      rw [List.head?_reverse] at hhead
      exact most_ne_zero hhead
    case trailing =>
      intro digit hlast
      rw [List.getLast?_reverse] at hlast
      exact least_ne_zero hlast
    case zero =>
      intro hnil
      exact absurd (List.reverse_eq_nil_iff.mp hnil) (dropZeros_ne_nil scale hpos)
    case count =>
      rw [List.length_reverse]
      omega
    case weight => constructor <;> simp only <;> omega

/-- Every value of `i128` is written without a panic, in canonical form, at its scale and
exactly. -/
theorem appendNumeric_canonical {value : Int} (scale : UInt8) (out : Bytes)
    (hlow : -2 ^ 127 ≤ value) (hhigh : value < 2 ^ 127) :
    ∃ numeric : Numeric, appendNumeric value scale out = some (out ++ numeric.wire) ∧
      numeric.Canonical ∧ numeric.displayScale = scale.toNat ∧
      numeric.value = value * (10 : ℚ) ^ (-(scale.toNat : Int)) := by
  have hbound : value.natAbs ≤ 2 ^ 127 := by omega
  have hscale : (numericOf value scale.toNat).displayScale = scale.toNat := by
    unfold numericOf
    split <;> rfl
  exact ⟨numericOf value scale.toNat, appendNumeric_wire scale out hbound,
    numericOf_canonical hbound scale.toNat_lt, hscale, numericOf_value value scale.toNat⟩

/-- The least value of `i128`, at a scale that is not a multiple of four. -/
theorem least_value_written :
    -2 ^ 127 ≤ (-2 ^ 127 : Int) ∧ (-2 ^ 127 : Int) < 2 ^ 127 ∧
      ∃ numeric : Numeric, appendNumeric (-2 ^ 127) 37 [] = some ([] ++ numeric.wire) ∧
        numeric.Canonical ∧ numeric.displayScale = (37 : UInt8).toNat ∧
        numeric.value = (-2 ^ 127 : Int) * (10 : ℚ) ^ (-((37 : UInt8).toNat : Int)) :=
  ⟨by decide, by decide, appendNumeric_canonical 37 [] (by decide) (by decide)⟩

/-! ## Reading back what was written -/

/-- Horner's scheme over groups, the most significant first. -/
def horner (accumulated : Nat) (digits : List Nat) : Nat :=
  digits.foldl (fun accumulated digit => accumulated * 10000 + digit) accumulated

theorem le_horner (digits : List Nat) (accumulated : Nat) : accumulated ≤ horner accumulated digits := by
  induction digits generalizing accumulated with
  | nil => exact Nat.le_refl _
  | cons digit digits ih =>
    have hstep := ih (accumulated * 10000 + digit)
    change accumulated ≤ horner (accumulated * 10000 + digit) digits
    omega

theorem horner_reverse (groups : List Nat) : horner 0 groups.reverse = Nat.ofDigits 10000 groups := by
  rw [horner, List.foldl_reverse, Nat.ofDigits_eq_foldr]
  congr 1
  funext digit accumulated
  simp only [Nat.cast_id]
  ring

/-- The checked accumulation fails exactly where the number leaves `i128`. -/
theorem accumulate_digits {digits : List Nat} (hbelow : ∀ digit ∈ digits, digit < 10000)
    {accumulated : Nat} (hstart : accumulated < i128Bound) :
    accumulate digits.length (digits.flatMap put16) accumulated =
      if horner accumulated digits < i128Bound then .ok (horner accumulated digits)
      else .error "numeric: overflow while accumulating digits" := by
  induction digits generalizing accumulated with
  | nil =>
    change Except.ok accumulated = if accumulated < i128Bound then _ else _
    rw [if_pos hstart]
    rfl
  | cons digit digits ih =>
    have hdigit := hbelow digit List.mem_cons_self
    have hword : bigEndian [UInt8.ofNat (digit / 256), UInt8.ofNat digit] = digit :=
      bigEndian_put16 (by omega)
    have hle := le_horner digits (accumulated * 10000 + digit)
    have hcons : horner accumulated (digit :: digits) =
      horner (accumulated * 10000 + digit) digits := rfl
    rw [List.length_cons, List.flatMap_cons, put16]
    simp only [List.cons_append, List.nil_append, accumulate]
    rw [hword, if_neg (by omega), hcons]
    by_cases hover : accumulated * 10000 + digit ≥ i128Bound
    · rw [if_pos hover, if_neg (by omega)]
    · rw [if_neg hover, ih (fun d hmem => hbelow d (List.mem_cons_of_mem _ hmem)) (by omega)]

theorem scaleUp_ok {n value : Nat} (h : value * 10 ^ n < i128Bound) :
    scaleUp n value = .ok (value * 10 ^ n) := by
  induction n generalizing value with
  | zero => rw [Nat.pow_zero, Nat.mul_one]; rfl
  | succ n ih =>
    have hpow : value * 10 * 10 ^ n = value * 10 ^ (n + 1) := by ring
    have hle : value * 10 ≤ value * 10 * 10 ^ n :=
      Nat.le_mul_of_pos_right _ (Nat.pow_pos (by decide))
    rw [scaleUp, if_neg (by omega), ih (by omega), hpow]

theorem scaleDown_ok (n value : Nat) : scaleDown n (value * 10 ^ n) = .ok value := by
  induction n with
  | zero => rw [Nat.pow_zero, Nat.mul_one]; rfl
  | succ n ih =>
    have hpow : value * 10 ^ (n + 1) = value * 10 ^ n * 10 := by ring
    rw [scaleDown, hpow, if_neg (by omega), Nat.mul_div_cancel _ (by decide), ih]

/-- The decoder on a canonical number: its groups in one `i128`, then the point moved. -/
theorem decodeNumeric_wire {numeric : Numeric} (h : numeric.Canonical) (scale : Nat)
    (hcount : numeric.digits.length ≤ 0x4000) :
    decodeNumeric numeric.wire scale =
      if horner 0 numeric.digits < i128Bound then
        (rescale (horner 0 numeric.digits)
          (4 * (numeric.weight - numeric.digits.length + 1) + scale)).map
            fun value : Nat => if numeric.negative then -(value : Int) else value
      else .error "numeric: overflow while accumulating digits" := by
  have hwords : numeric.wire = putI16 numeric.digits.length ++ (putI16 numeric.weight ++
      (put16 (if numeric.negative then 0x4000 else 0x0000) ++ (putI16 numeric.displayScale ++
        numeric.digits.flatMap put16))) := by
    simp only [Numeric.wire, List.append_assoc]
  have hbody : (numeric.digits.flatMap put16).length = numeric.digits.length * 2 := by
    rw [List.length_flatMap]
    simp
  have hlength : numeric.wire.length = 8 + numeric.digits.length * 2 := by
    rw [hwords]
    simp only [List.length_append, length_putI16, length_put16, hbody]
    omega
  have hcountWord : bigEndianI16 (numeric.wire.take 2) = .ok numeric.digits.length := by
    rw [hwords, List.take_left' (length_putI16 _), bigEndianI16, if_pos (length_putI16 _),
      signed_putI16 (by omega) (by omega)]
  have hweightWord : bigEndianI16 ((numeric.wire.drop 2).take 2) = .ok numeric.weight := by
    rw [hwords, List.drop_left' (length_putI16 _), List.take_left' (length_putI16 _),
      bigEndianI16, if_pos (length_putI16 _), signed_putI16 h.weight.1 h.weight.2]
  have hsign : signOf (bigEndian ((numeric.wire.drop 4).take 2)) = .ok numeric.negative := by
    have hdrop : numeric.wire.drop 4 = put16 (if numeric.negative then 0x4000 else 0x0000) ++
        (putI16 numeric.displayScale ++ numeric.digits.flatMap put16) := by
      rw [hwords, ← List.append_assoc (putI16 _) (putI16 _)]
      exact List.drop_left' rfl
    rw [hdrop, List.take_left' (length_put16 _), bigEndian_put16 (by split <;> decide)]
    cases numeric.negative <;> rfl
  have hdigits : numeric.wire.drop 8 = numeric.digits.flatMap put16 := List.drop_left' rfl
  rw [decodeNumeric, if_neg (by omega), hcountWord, hweightWord, hsign]
  simp only [bind, Except.bind]
  rw [if_neg (by omega), hdigits, Int.toNat_natCast, accumulate_digits h.below (by decide)]
  by_cases hfits : horner 0 numeric.digits < i128Bound
  · rw [if_pos hfits, if_pos hfits]
    dsimp only
    cases rescale (horner 0 numeric.digits)
      (4 * (numeric.weight - numeric.digits.length + 1) + scale) <;> rfl
  · rw [if_neg hfits, if_neg hfits]

variable {value : Int} {scale : UInt8}

/-- Whether the encoder's bytes come back as the value. -/
def readsBack (value : Int) (scale : UInt8) : Prop :=
  ∃ bytes, appendNumeric value scale [] = some bytes ∧
    decodeNumeric bytes scale.toNat = .ok value

instance : Decidable (readsBack value scale) :=
  match h : appendNumeric value scale [] with
  | none => .isFalse (by rintro ⟨_, hsome, _⟩; rw [h] at hsome; cases hsome)
  | some bytes => decidable_of_iff (decodeNumeric bytes scale.toNat = .ok value)
      ⟨fun hdecode => ⟨bytes, h, hdecode⟩,
        fun ⟨_, hsome, hdecode⟩ => Option.some_inj.mp (h.symm.trans hsome) ▸ hdecode⟩

theorem horner_numericOf (hzero : value ≠ 0) (scale : Nat) :
    horner 0 (numericOf value scale).digits = strippedMagnitude value.natAbs scale := by
  rw [numericOf, if_neg hzero]
  exact horner_reverse _

/-- How far the point moves: the groups that were taken off, less the padding. -/
theorem numericOf_exponent (hzero : value ≠ 0) (scale : Nat) :
    4 * ((numericOf value scale).weight - (numericOf value scale).digits.length + 1) + scale =
      4 * zeroGroups (paddedGroups value.natAbs scale) - padOf scale := by
  have hsplit := zeroGroups_add (paddedGroups value.natAbs scale)
  have hpad := padOf_add scale
  rw [numericOf, if_neg hzero, List.length_reverse]
  simp only
  omega

theorem signed_natAbs (value : Int) :
    (if decide (value < 0) then -(value.natAbs : Int) else value.natAbs) = value := by
  by_cases hneg : value < 0
  · rw [if_pos (decide_eq_true hneg)]
    omega
  · rw [if_neg (by simpa using hneg)]
    omega

/-- No group is taken off a number that does not end on a whole group. -/
theorem zeroGroups_pos {magnitude : Nat} (scale : Nat) (hpos : 0 < magnitude) :
    0 < zeroGroups (paddedGroups magnitude scale) ↔ 10 ^ (4 - padOf scale) ∣ magnitude := by
  have hpad : 0 < 10 ^ padOf scale := Nat.pow_pos (by decide)
  rw [← groups_padded scale hpos, zeroGroups, Nat.dvd_iff_mod_eq_zero]
  by_cases hmod : magnitude % 10 ^ (4 - padOf scale) = 0
  · rw [List.takeWhile_cons_of_pos (by simp [hmod])]
    simp [hmod]
  · have hfirst : magnitude % 10 ^ (4 - padOf scale) * 10 ^ padOf scale ≠ 0 :=
      Nat.mul_ne_zero hmod (Nat.ne_of_gt hpad)
    rw [List.takeWhile_cons_of_neg (by simpa using hfirst)]
    simp [hmod]

/-- A number whose last group is whole is accumulated without its padding, and so below the
number itself. -/
theorem rescale_whole {magnitude scale : Nat} (hbound : magnitude < i128Bound)
    (hgroups : 0 < zeroGroups (paddedGroups magnitude scale)) :
    strippedMagnitude magnitude scale < i128Bound ∧
      rescale (strippedMagnitude magnitude scale)
        (4 * zeroGroups (paddedGroups magnitude scale) - padOf scale) = .ok magnitude := by
  have hpad := padOf_lt scale
  have hmul := stripped_mul magnitude scale
  generalize hk : zeroGroups (paddedGroups magnitude scale) = k at *
  have hpow : 10000 ^ k = 10 ^ (4 * k - padOf scale) * 10 ^ padOf scale := by
    rw [← Nat.pow_add, Nat.sub_add_cancel (by omega), Nat.pow_mul]
  have hvalue : strippedMagnitude magnitude scale * 10 ^ (4 * k - padOf scale) = magnitude := by
    apply Nat.eq_of_mul_eq_mul_right (Nat.pow_pos (by decide) : 0 < 10 ^ padOf scale)
    rw [← hmul, hpow]
    ring
  have hle : strippedMagnitude magnitude scale ≤ magnitude :=
    calc strippedMagnitude magnitude scale
        ≤ strippedMagnitude magnitude scale * 10 ^ (4 * k - padOf scale) :=
          Nat.le_mul_of_pos_right _ (Nat.pow_pos (by decide))
      _ = magnitude := hvalue
  have hexponent : (4 * (k : Int) - padOf scale).toNat = 4 * k - padOf scale := by omega
  refine ⟨Nat.lt_of_le_of_lt hle hbound, ?_⟩
  rw [rescale, if_pos (by omega), hexponent, scaleUp_ok (by omega), hvalue]

/-- A number that does not end on a whole group is accumulated with its padding. -/
theorem rescale_padded {magnitude scale : Nat}
    (hgroups : zeroGroups (paddedGroups magnitude scale) = 0) :
    strippedMagnitude magnitude scale = magnitude * 10 ^ padOf scale ∧
      rescale (magnitude * 10 ^ padOf scale)
        (4 * zeroGroups (paddedGroups magnitude scale) - padOf scale) = .ok magnitude := by
  have hmul := stripped_mul magnitude scale
  rw [hgroups, Nat.pow_zero, Nat.one_mul] at hmul
  constructor
  · exact hmul
  · rw [hgroups, rescale]
    by_cases hnone : padOf scale = 0
    · rw [if_pos (by omega), hnone, Nat.pow_zero, Nat.mul_one]
      rfl
    · have hexponent : (-(4 * ((0 : Nat) : Int) - padOf scale)).toNat = padOf scale := by omega
      rw [if_neg (by omega), hexponent, scaleDown_ok]

/-- Where the number with its padding stays within `i128`, or needs none of it. -/
def accumulates (magnitude scale : Nat) : Prop :=
  10 ^ (4 - padOf scale) ∣ magnitude ∨ magnitude * 10 ^ padOf scale < i128Bound

instance (magnitude scale : Nat) : Decidable (accumulates magnitude scale) :=
  inferInstanceAs (Decidable (_ ∨ _))

theorem rescale_zero (scale : Nat) :
    rescale 0 (4 * ((0 : Int) - (0 : Nat) + 1) + scale) = .ok 0 := by
  rw [rescale, if_pos (by omega), scaleUp_ok] <;> rw [Nat.zero_mul]
  decide

theorem decodeNumeric_numericOf (hbound : value.natAbs < i128Bound) :
    decodeNumeric (numericOf value scale.toNat).wire scale.toNat =
      if accumulates value.natAbs scale.toNat then .ok value
      else .error "numeric: overflow while accumulating digits" := by
  have hcanonical : (numericOf value scale.toNat).Canonical :=
    numericOf_canonical (Nat.le_of_lt hbound) scale.toNat_lt
  by_cases hzero : value = 0
  · subst hzero
    have hwhole : accumulates (0 : Int).natAbs scale.toNat := .inl (Nat.dvd_zero _)
    have hrescale : Except.map (fun value : Nat => if false then -(value : Int) else value)
        (rescale 0 (4 * ((0 : Int) - (0 : Nat) + 1) + scale.toNat)) = .ok 0 := by
      rw [rescale_zero]
      rfl
    rw [decodeNumeric_wire hcanonical _ (Nat.zero_le _), if_pos hwhole]
    exact hrescale
  · have hpos : 0 < value.natAbs := Int.natAbs_pos.mpr hzero
    have hwhole := zeroGroups_pos scale.toNat hpos
    have hcount : (numericOf value scale.toNat).digits.length ≤ 0x4000 := by
      have hlength := paddedGroups_length scale.toNat (Nat.le_of_lt hbound)
      have hdrop := length_dropWhile_le (fun digit => decide (digit = 0))
        (paddedGroups value.natAbs scale.toNat)
      rw [numericOf, if_neg hzero, List.length_reverse]
      omega
    have hsign : (numericOf value scale.toNat).negative = decide (value < 0) := by
      rw [numericOf, if_neg hzero]
    rw [decodeNumeric_wire hcanonical _ hcount, horner_numericOf hzero, numericOf_exponent hzero,
      hsign]
    by_cases hgroups : 0 < zeroGroups (paddedGroups value.natAbs scale.toNat)
    · obtain ⟨hfits, hrescale⟩ := rescale_whole hbound hgroups
      rw [if_pos hfits, if_pos (.inl (hwhole.mp hgroups)), hrescale]
      exact congrArg Except.ok (signed_natAbs value)
    · obtain ⟨hstripped, hrescale⟩ := rescale_padded (Nat.eq_zero_of_not_pos hgroups)
      rw [hstripped]
      by_cases hfits : value.natAbs * 10 ^ padOf scale.toNat < i128Bound
      · rw [if_pos hfits, if_pos (.inr hfits), hrescale]
        exact congrArg Except.ok (signed_natAbs value)
      · rw [if_neg hfits, if_neg]
        rintro (hdvd | hlt)
        · exact hgroups (hwhole.mpr hdvd)
        · exact hfits hlt

theorem below_i128 {magnitude precision : Nat} (hprecision : precision ≤ 38)
    (h : magnitude < 10 ^ precision) : magnitude < i128Bound :=
  calc magnitude < 10 ^ precision := h
    _ ≤ 10 ^ 38 := Nat.pow_le_pow_right (by decide) hprecision
    _ < i128Bound := by decide

/-- The values of a column that come back exactly: those that end on a whole group, and those
that the padding does not take out of `i128`. -/
theorem readsBack_iff {precision : Nat} (hmost : precision ≤ 38)
    (h : value.natAbs < 10 ^ precision) :
    readsBack value scale ↔ accumulates value.natAbs scale.toNat := by
  have hbound := below_i128 hmost h
  have hwire := appendNumeric_wire scale [] (Nat.le_of_lt hbound)
  have hdecode : decodeNumeric (numericOf value scale.toNat).wire scale.toNat = _ :=
    decodeNumeric_numericOf hbound
  rw [List.nil_append] at hwire
  constructor
  · rintro ⟨bytes, hsome, hok⟩
    obtain rfl := Option.some_inj.mp (hwire.symm.trans hsome)
    by_contra hnot
    rw [hdecode, if_neg hnot] at hok
    cases hok
  · intro hwhole
    refine ⟨_, hwire, ?_⟩
    rw [hdecode, if_pos hwhole]

/-- A price of `NUMERIC(38, 2)` and the condition that holds of it. -/
theorem price_reads_back :
    38 ≤ 38 ∧ (-1999 : Int).natAbs < 10 ^ 38 ∧
      (readsBack (-1999) 2 ↔ accumulates (-1999 : Int).natAbs (2 : UInt8).toNat) :=
  ⟨by decide, by decide, readsBack_iff (by decide : 38 ≤ 38) (by decide)⟩

/-- The greatest value of `NUMERIC(38, 1)` is written and not read back. -/
theorem greatest_lost :
    ¬∀ (precision : Nat) (scale : UInt8) (value : Int), 1 ≤ precision → precision ≤ 38 →
      scale.toNat ≤ precision → value.natAbs < 10 ^ precision → readsBack value scale := by
  intro hall
  have hread := hall 38 1 (10 ^ 38 - 1) (by decide) (by decide) (by decide) (by decide)
  revert hread
  decide +kernel

end PgTypes
