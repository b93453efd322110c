import Mathlib.Data.List.TakeWhile
import RdltConnectors.Library.Digits

/-!
# Numbers read from text

What a text must look like to be a signed 64-bit integer or a binary64 number, and
which number it is. A text that is an integer is a binary64 number too.
-/
namespace Numerals

open Digits

/-- A leading sign, and what is behind it. -/
def signed : List Char → Bool × List Char
  | '-' :: text => (true, text)
  | '+' :: text => (false, text)
  | text => (false, text)

/-- An optional sign and at least one digit. -/
def integer (text : List Char) : Option Int :=
  if (signed text).2 ≠ [] ∧ AllDigits (signed text).2 then
    some (if (signed text).1 then -(value (signed text).2 : Int) else value (signed text).2)
  else none

/-- `parse::<i64>`. -/
def parseI64 (text : List Char) : Option Int :=
  (integer text).filter fun n => -2 ^ 63 ≤ n && n < 2 ^ 63

/-- A finite value is `mantissa * 2 ^ exponent`, the mantissa below `2 ^ 53`. -/
inductive Double where
  | finite (negative : Bool) (mantissa : Nat) (exponent : Int)
  | infinite (negative : Bool)
  | nan
  deriving DecidableEq, Repr

/-- The place of the highest bit of a positive quotient. -/
def highestBit (num den : Nat) : Int :=
  let guess : Int := (Nat.log2 num : Int) - Nat.log2 den
  if den * 2 ^ guess.toNat ≤ num * 2 ^ (-guess).toNat then guess else guess - 1

/-- The double nearest to a quotient; of two that are equally near, the even one. -/
def nearest (negative : Bool) (num den : Nat) : Double :=
  if num = 0 then .finite negative 0 (-1074)
  else
    let exponent := max (highestBit num den - 52) (-1074)
    let above := num * 2 ^ (-exponent).toNat
    let below := den * 2 ^ exponent.toNat
    let floor := above / below
    let mantissa :=
      if 2 * (above % below) > below ∨ (2 * (above % below) = below ∧ floor % 2 = 1) then floor + 1
      else floor
    -- rounding up may reach the next power of two
    let rounded := if mantissa = 2 ^ 53 then (2 ^ 52, exponent + 1) else (mantissa, exponent)
    if rounded.2 > 971 then .infinite negative else .finite negative rounded.1 rounded.2

/-- The double nearest to `digits * 10 ^ exponent`. -/
def decimal (negative : Bool) (digits : Nat) (exponent : Int) : Double :=
  nearest negative (digits * 10 ^ exponent.toNat) (10 ^ (-exponent).toNat)

/-- What stands behind the digits: nothing, or an exponent. -/
def scale : List Char → Option Int
  | [] => some 0
  | c :: text => if c = 'e' ∨ c = 'E' then integer text else none

def number (negative : Bool) (text : List Char) : Option Double :=
  let whole := text.takeWhile Char.isDigit
  let rest := text.dropWhile Char.isDigit
  let fraction := match rest with
    | '.' :: after => after.takeWhile Char.isDigit
    | _ => []
  let behind := match rest with
    | '.' :: after => after.dropWhile Char.isDigit
    | _ => rest
  if whole = [] ∧ fraction = [] then none
  else (scale behind).map fun exponent =>
    decimal negative (value (whole ++ fraction)) (exponent - fraction.length)

/-- `parse::<f64>`. -/
def parseF64 (text : List Char) : Option Double :=
  let folded := (signed text).2.map Char.toLower
  if folded = "inf".toList ∨ folded = "infinity".toList then some (.infinite (signed text).1)
  else if folded = "nan".toList then some .nan
  else number (signed text).1 (signed text).2

example : parseI64 "+0042".toList = some 42 ∧ parseI64 "9223372036854775808".toList = none := by
  decide

example : parseF64 "-1.5e1".toList = some (.finite true (15 * 2 ^ 49) (-49)) := by decide +kernel

theorem takeWhile_allDigits {text : List Char} (h : AllDigits text) :
    text.takeWhile Char.isDigit = text ∧ text.dropWhile Char.isDigit = [] :=
  ⟨List.takeWhile_eq_self_iff.mpr h, List.dropWhile_eq_nil_iff.mpr h⟩

theorem number_of_digits {text : List Char} (hne : text ≠ []) (h : AllDigits text)
    (negative : Bool) : number negative text = some (decimal negative (value text) 0) := by
  obtain ⟨htake, hdrop⟩ := takeWhile_allDigits h
  simp [number, htake, hdrop, hne, scale]

/-- Whatever parses as an integer parses as a double. -/
theorem parseF64_of_parseI64 {text : List Char} (h : parseI64 text ≠ none) :
    parseF64 text ≠ none := by
  have hinteger : integer text ≠ none := by
    intro hnone
    simp [parseI64, hnone] at h
  have hdigits : (signed text).2 ≠ [] ∧ AllDigits (signed text).2 := by
    by_contra hnot
    exact hinteger (if_neg hnot)
  simp only [parseF64]
  rw [number_of_digits hdigits.1 hdigits.2]
  split
  · exact Option.some_ne_none _
  · split
    · exact Option.some_ne_none _
    · exact Option.some_ne_none _

end Numerals
