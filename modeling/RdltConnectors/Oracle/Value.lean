import Mathlib.Algebra.Order.Field.Basic
import Mathlib.Algebra.Order.Ring.Rat
import Mathlib.Data.Prod.Lex
import Mathlib.Data.Sum.Order
import Mathlib.Tactic.FieldSimp
import Mathlib.Tactic.Linarith
import RdltConnectors.Library.Digits
import RdltConnectors.Oracle.Schema

/-!
# Cursor values and their texts

The values a cursor column can hold, their order, and how the reader renders each of them
as a watermark: numbers as exact decimal digits, instants to the microsecond.
-/
namespace Oracle

open Digits

/-! ## Numbers -/

/-- A plain decimal numeral: a sign, digits, and perhaps a fraction. -/
structure Decimal where
  negative : Bool
  whole : List Char
  fraction : List Char
  whole_ne_nil : whole ≠ []
  whole_digits : AllDigits whole
  fraction_digits : AllDigits fraction
  deriving DecidableEq

namespace Decimal

def text (d : Decimal) : List Char :=
  (if d.negative then ['-'] else []) ++
    (d.whole ++ if d.fraction = [] then [] else '.' :: d.fraction)

def magnitude (d : Decimal) : ℚ :=
  Digits.value d.whole + Digits.value d.fraction / 10 ^ d.fraction.length

def value (d : Decimal) : ℚ := if d.negative then -d.magnitude else d.magnitude

theorem magnitude_nonneg (d : Decimal) : 0 ≤ d.magnitude := by
  unfold magnitude
  positivity

/-- The rendering of an integer. -/
def ofInt (v : Int) : Decimal where
  negative := v < 0
  whole := Nat.toDigits 10 v.natAbs
  fraction := []
  whole_ne_nil := Nat.toDigits_ne_nil
  whole_digits := allDigits_toDigits _
  fraction_digits := fun _ h => nomatch h

@[simp] theorem ofInt_value (v : Int) : (ofInt v).value = v := by
  simp only [value, magnitude, ofInt, value_toDigits, value_nil, Nat.cast_zero, zero_div, add_zero,
    decide_eq_true_eq, Nat.cast_natAbs]
  split
  · next hneg => rw [abs_of_neg hneg]; simp
  · next hpos => rw [abs_of_nonneg (by omega)]

end Decimal

/-- A NUMBER: decimal digits with the point after all but `scale` of them, no zero at the end. -/
structure Number where
  mantissa : Int
  scale : Nat
  reduced : scale = 0 ∨ ¬10 ∣ mantissa
  deriving DecidableEq

namespace Number

def value (n : Number) : ℚ := n.mantissa / 10 ^ n.scale

theorem eq_of_scale_le {m n : Number} (hscale : m.scale ≤ n.scale) (h : m.value = n.value) :
    m = n := by
  have hpow : n.scale = m.scale + (n.scale - m.scale) := by omega
  have hmul : (m.mantissa : ℚ) * 10 ^ (n.scale - m.scale) = n.mantissa := by
    have hm : (10 : ℚ) ^ m.scale ≠ 0 := by positivity
    have hn : (10 : ℚ) ^ n.scale ≠ 0 := by positivity
    rw [value, value, div_eq_div_iff hm hn] at h
    rw [hpow, pow_add] at h
    have hcancel : ((m.mantissa : ℚ) * 10 ^ (n.scale - m.scale)) * 10 ^ m.scale =
        n.mantissa * 10 ^ m.scale := by rw [← h]; ring
    exact mul_right_cancel₀ hm hcancel
  have hint : m.mantissa * 10 ^ (n.scale - m.scale) = n.mantissa := by exact_mod_cast hmul
  have hsame : n.scale = m.scale := by
    by_contra hne
    obtain ⟨k, hk⟩ : ∃ k, n.scale - m.scale = k + 1 := ⟨n.scale - m.scale - 1, by omega⟩
    rw [hk, pow_succ] at hint
    obtain hzero | hodd := n.reduced
    · omega
    · exact hodd ⟨m.mantissa * 10 ^ k, by rw [← hint]; ring⟩
  rw [hsame, Nat.sub_self, pow_zero, mul_one] at hint
  cases m
  cases n
  simp_all

theorem value_injective : Function.Injective value := by
  intro m n h
  obtain hle | hle := Nat.le_total m.scale n.scale
  · exact eq_of_scale_le hle h
  · exact (eq_of_scale_le hle h.symm).symm

instance : LinearOrder Number := LinearOrder.lift' value value_injective

theorem lt_iff {m n : Number} : m < n ↔ m.value < n.value := Iff.rfl

/-- The number as a 64-bit integer, where it is one. -/
def toInt64 (n : Number) : Option Int :=
  if n.scale = 0 ∧ -2 ^ 63 ≤ n.mantissa ∧ n.mantissa < 2 ^ 63 then some n.mantissa else none

/-- The number has `precision` digits, `scale` of them behind the point. -/
def Fits (n : Number) (precision : Nat) (scale : Int) : Prop :=
  (n.scale : Int) ≤ max scale 0 ∧ |n.value| * 10 ^ scale < 10 ^ precision

end Number

/-! ## Instants -/

/-- A date and a time of day. -/
structure Clock where
  year : Nat
  month : Nat
  day : Nat
  hour : Nat
  minute : Nat
  second : Nat
  nanosecond : Nat
  deriving DecidableEq, Repr

namespace Clock

def daysIn (year month : Nat) : Nat :=
  if month = 2 then
    if year % 4 = 0 ∧ (year % 100 ≠ 0 ∨ year % 400 = 0) then 29 else 28
  else if month ∈ [4, 6, 9, 11] then 30 else 31

theorem daysIn_le (year month : Nat) : daysIn year month ≤ 31 := by
  unfold daysIn
  split <;> split <;> omega

structure Valid (c : Clock) : Prop where
  year_pos : 1 ≤ c.year
  year_le : c.year ≤ 9999
  month_pos : 1 ≤ c.month
  month_le : c.month ≤ 12
  day_pos : 1 ≤ c.day
  day_le : c.day ≤ daysIn c.year c.month
  hour_lt : c.hour < 24
  minute_lt : c.minute < 60
  second_lt : c.second < 60
  nanosecond_lt : c.nanosecond < 10 ^ 9

theorem valid_iff (c : Clock) : c.Valid ↔ 1 ≤ c.year ∧ c.year ≤ 9999 ∧ 1 ≤ c.month ∧
    c.month ≤ 12 ∧ 1 ≤ c.day ∧ c.day ≤ daysIn c.year c.month ∧ c.hour < 24 ∧ c.minute < 60 ∧
    c.second < 60 ∧ c.nanosecond < 10 ^ 9 :=
  ⟨fun ⟨a, b, c, d, e, f, g, h, i, j⟩ => ⟨a, b, c, d, e, f, g, h, i, j⟩,
    fun ⟨a, b, c, d, e, f, g, h, i, j⟩ => ⟨a, b, c, d, e, f, g, h, i, j⟩⟩

instance (c : Clock) : Decidable c.Valid := decidable_of_iff _ c.valid_iff.symm

def fields (c : Clock) : Nat ×ₗ Nat ×ₗ Nat ×ₗ Nat ×ₗ Nat ×ₗ Nat ×ₗ Nat :=
  toLex (c.year, toLex (c.month, toLex (c.day, toLex (c.hour, toLex (c.minute,
    toLex (c.second, c.nanosecond))))))

theorem fields_injective : Function.Injective fields := by
  intro c d h
  cases c
  cases d
  simpa [fields] using h

instance : LinearOrder Clock := LinearOrder.lift' fields fields_injective

/-- The first field that differs decides. -/
theorem lt_iff {c d : Clock} : c < d ↔
    c.year < d.year ∨ c.year = d.year ∧ (c.month < d.month ∨ c.month = d.month ∧
      (c.day < d.day ∨ c.day = d.day ∧ (c.hour < d.hour ∨ c.hour = d.hour ∧
        (c.minute < d.minute ∨ c.minute = d.minute ∧ (c.second < d.second ∨
          c.second = d.second ∧ c.nanosecond < d.nanosecond))))) := by
  show c.fields < d.fields ↔ _
  simp [fields, Prod.Lex.toLex_lt_toLex]

/-- The clock cut to whole microseconds. -/
def truncated (c : Clock) : Clock := { c with nanosecond := c.nanosecond / 1000 * 1000 }

theorem truncated_valid {c : Clock} (h : c.Valid) : c.truncated.Valid :=
  { h with nanosecond_lt := lt_of_le_of_lt (Nat.div_mul_le_self _ _) h.nanosecond_lt }

theorem truncated_le (c : Clock) : c.truncated ≤ c := by
  rw [← not_lt, lt_iff]
  have := Nat.div_mul_le_self c.nanosecond 1000
  simp only [truncated]
  omega

theorem truncated_eq {c : Clock} (h : c.nanosecond % 1000 = 0) : c.truncated = c := by
  have hnano : c.nanosecond / 1000 * 1000 = c.nanosecond := by omega
  rw [truncated, hnano]

end Clock

/-- A point in time Oracle can hold, a zoned one as its UTC instant. -/
abbrev Stamp := { c : Clock // c.Valid }

def Stamp.truncated (t : Stamp) : Stamp := ⟨t.val.truncated, Clock.truncated_valid t.property⟩

theorem Stamp.truncated_le (t : Stamp) : t.truncated ≤ t := Clock.truncated_le t.val

/-- `%Y-%m-%dT%H:%M:%S%.6f+00:00` -/
def isoMicros (c : Clock) : List Char :=
  padLeft 4 c.year ++ '-' :: (padLeft 2 c.month ++ '-' :: (padLeft 2 c.day ++ 'T' ::
    (padLeft 2 c.hour ++ ':' :: (padLeft 2 c.minute ++ ':' :: (padLeft 2 c.second ++ '.' ::
      (padLeft 6 (c.nanosecond / 1000) ++ ['+', '0', '0', ':', '0', '0']))))))

/-- The rendered texts order as the clocks they show. -/
theorem less_isoMicros {c d : Clock} (hc : c.Valid) (hd : d.Valid) :
    less (isoMicros c) (isoMicros d) = true ↔ c.truncated < d.truncated := by
  have hmonth := hc.day_le.trans (Clock.daysIn_le c.year c.month)
  have hmonth' := hd.day_le.trans (Clock.daysIn_le d.year d.month)
  obtain ⟨-, hyear, -, hmonths, -, -, hhour, hminute, hsecond, hnano⟩ := hc
  obtain ⟨-, hyear', -, hmonths', -, -, hhour', hminute', hsecond', hnano'⟩ := hd
  have hcut : c.nanosecond / 1000 * 1000 < d.nanosecond / 1000 * 1000 ↔
      c.nanosecond / 1000 < d.nanosecond / 1000 := by omega
  rw [isoMicros, isoMicros, less_field, less_field, less_field, less_field, less_field, less_field,
    less_field, less_irrefl, Clock.lt_iff]
  · simp only [Clock.truncated, hcut, Bool.false_eq_true, and_false, or_false]
  all_goals omega

/-! ## Values of a cursor column -/

/-- What a cursor column can hold; `F` are the binary floats. -/
inductive Value (F : Type) where
  | number (n : Number)
  | stamp (t : Stamp)
  | float (f : F)

namespace Value

variable {F : Type}

def place : Value F → Number ⊕ₗ Stamp ⊕ₗ F
  | number n => Sum.inlₗ n
  | stamp t => Sum.inrₗ (Sum.inlₗ t)
  | float f => Sum.inrₗ (Sum.inrₗ f)

theorem place_injective : Function.Injective (place : Value F → _) := by
  intro v w h
  cases v <;> cases w <;> simp_all [place, Sum.inlₗ, Sum.inrₗ]

instance [LinearOrder F] : LinearOrder (Value F) := LinearOrder.lift' place place_injective

@[simp] theorem number_lt [LinearOrder F] {m n : Number} :
    (number m : Value F) < number n ↔ m < n := Sum.Lex.inl_lt_inl_iff

@[simp] theorem stamp_lt [LinearOrder F] {t u : Stamp} :
    (stamp t : Value F) < stamp u ↔ t < u :=
  Sum.Lex.inr_lt_inr_iff.trans Sum.Lex.inl_lt_inl_iff

end Value

/-- What a column of a declared type may hold. -/
def OracleType.Holds {F : Type} : OracleType → Value F → Prop
  | .number precision scale, .number n => precision = 0 ∨ n.Fits precision scale
  | .float _, .number _ => True
  | .int64, .number n => n.toInt64 ≠ none
  | .uint64, .number n => n.scale = 0 ∧ 0 ≤ n.mantissa
  | .binaryFloat, .float _ | .binaryDouble, .float _ => True
  | .date, .stamp t => t.val.nanosecond = 0
  | .timestamp precision, .stamp t => t.val.nanosecond % 10 ^ (9 - precision) = 0
  | .timestampTZ precision, .stamp t => t.val.nanosecond % 10 ^ (9 - precision) = 0
  | .timestampLTZ precision, .stamp t => t.val.nanosecond % 10 ^ (9 - precision) = 0
  | _, _ => False

end Oracle
