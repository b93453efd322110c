import RdltConnectors.Duckdb.Types
import Mathlib.Algebra.Order.Field.Rat
import Mathlib.Algebra.Order.Ring.Abs
import Mathlib.Tactic.Ring
import Mathlib.Tactic.Linarith
import Mathlib.Tactic.Positivity
import Mathlib.Tactic.FieldSimp

/-!
# What columns hold

A type holds the values it represents exactly. Numbers are compared across types, and
whatever has no binary data in it has a text. A wider type in the destination's order
holds all that the narrower one does.
-/
namespace Duckdb

open Sqlcore

mutual

inductive Value where
  | null
  | bool (value : Bool)
  | number (value : ℚ)
  /-- an infinity, or not a number -/
  | notFinite (positive : Option Bool)
  | text (value : String)
  | binary (bytes : List UInt8)
  | timestampTz (micros : Int)
  | timestamp (micros : Int)
  | date (days : Int)
  | time (micros : Int)
  | list (items : Values)
  | struct (items : Values)
  deriving DecidableEq, Repr

inductive Values where
  | nil
  | cons (value : Value) (rest : Values)
  deriving DecidableEq, Repr

end

mutual

/-- Whether the value has a text of its own. -/
def Value.textual : Value → Bool
  | .binary _ => false
  | .list items | .struct items => items.textual
  | _ => true

def Values.textual : Values → Bool
  | .nil => true
  | .cons value rest => value.textual && rest.textual

end

def Values.All (p : Value → Prop) : Values → Prop
  | .nil => True
  | .cons value rest => p value ∧ rest.All p

/-- A binary floating-point number of 64 bits. -/
def IsDouble (q : ℚ) : Prop :=
  ∃ (m : ℤ) (up down : ℕ), |m| < 2 ^ 53 ∧ up ≤ 971 ∧ down ≤ 1074 ∧ q * 2 ^ down = m * 2 ^ up

/-- A number of so many digits, so many of them after the point. -/
def IsDecimal (precision scale : ℕ) (q : ℚ) : Prop :=
  ∃ n : ℤ, |n| < 10 ^ precision ∧ q * 10 ^ scale = n

mutual

def SqlType.Holds : SqlType → Value → Prop
  | _, .null => True
  | .boolean, .bool _ => True
  | .bigint, .number q => ∃ n : ℤ, -2 ^ 63 ≤ n ∧ n < 2 ^ 63 ∧ q = n
  | .double, .number q => IsDouble q
  | .double, .notFinite _ => True
  | .decimal precision scale, .number q => IsDecimal precision scale q
  | .varchar, value | .json, value => value.textual = true
  | .blob, .binary _ => True
  | .timestampTz, .timestampTz _ => True
  | .timestamp, .timestamp _ => True
  | .date, .date _ => True
  | .time, .time _ => True
  | .list item, .list items => items.All item.Holds
  | .struct fields, .struct items => fields.HoldAll items
  | _, _ => False

def SqlFields.HoldAll : SqlFields → Values → Prop
  | .nil, .nil => True
  | .cons _ type rest, .cons value items => type.Holds value ∧ rest.HoldAll items
  | _, _ => False

end

mutual

/-- A decimal the database knows has at most 38 digits, all of its scale among them. -/
def SqlType.valid : SqlType → Bool
  | .decimal precision scale => 1 ≤ precision && precision ≤ 38 && scale ≤ precision
  | .list item => item.valid
  | .struct fields => fields.valid
  | _ => true

def SqlFields.valid : SqlFields → Bool
  | .nil => true
  | .cons _ type rest => type.valid && rest.valid

end

/-! ## Text -/

theorem textual_of_all {p : Value → Prop} (hp : ∀ v, p v → v.textual = true) :
    ∀ {items : Values}, items.All p → items.textual = true
  | .nil, _ => rfl
  | .cons value rest, h => by
    rw [Values.textual, hp value h.1, textual_of_all hp h.2]
    rfl

theorem holds_varchar {v : Value} : SqlType.varchar.Holds v ↔ v.textual = true := by
  cases v with
  | null => exact iff_of_true trivial rfl
  | _ => exact Iff.rfl

theorem holds_json {v : Value} : SqlType.json.Holds v ↔ v.textual = true := by
  cases v with
  | null => exact iff_of_true trivial rfl
  | _ => exact Iff.rfl

theorem scalarType_textual {scalar : LogicalType} (h : scalar ≠ .binary) {v : Value}
    (hv : (scalarType false scalar).Holds v) : v.textual = true := by
  cases scalar with
  | binary => exact absurd rfl h
  | utf8 | uuid => exact holds_varchar.1 hv
  | json => exact holds_json.1 hv
  | _ => cases v <;> first | rfl | exact False.elim hv

mutual

/-- A type without binary data holds values that have a text. -/
theorem sqlType_textual : ∀ {t : ColumnType} {v : Value}, hasBinary t = false →
    (sqlType false t).Holds v → v.textual = true
  | .scalar scalar, v, h, hv => scalarType_textual (of_decide_eq_false h) hv
  | .scalarList item, v, h, hv => by
    cases v with
    | null => rfl
    | list items => exact textual_of_all (fun _ => scalarType_textual (of_decide_eq_false h)) hv
    | _ => exact False.elim hv
  | .struct fields, v, h, hv => by
    cases v with
    | null => rfl
    | struct items => exact sqlFields_textual h hv
    | _ => exact False.elim hv

theorem sqlFields_textual : ∀ {fields : Fields} {items : Values}, anyBinary fields = false →
    (sqlFields false fields).HoldAll items → items.textual = true
  | .nil, .nil, _, _ => rfl
  | .cons name columnType rest, .cons value items, h, hv => by
    obtain ⟨hfirst, hrest⟩ := Bool.or_eq_false_iff.1 h
    rw [Values.textual, sqlType_textual hfirst hv.1, sqlFields_textual hrest hv.2]
    rfl
  | .nil, .cons _ _, _, hv => False.elim hv
  | .cons _ _ _, .nil, _, hv => False.elim hv

end

/-! ## Numbers -/

/-- Nineteen digits before the point are room for every integer of 64 bits. -/
theorem isDecimal_of_int {precision scale : ℕ} (hroom : 19 ≤ precision - scale) {n : ℤ}
    (hlow : -2 ^ 63 ≤ n) (hhigh : n < 2 ^ 63) : IsDecimal precision scale n := by
  refine ⟨n * 10 ^ scale, ?_, by push_cast; ring⟩
  have hn : |n| < 10 ^ 19 := abs_lt.2 ⟨by omega, by omega⟩
  calc |n * 10 ^ scale| = |n| * 10 ^ scale := by rw [abs_mul, abs_pow]; rfl
    _ < 10 ^ 19 * 10 ^ scale := by gcongr
    _ = 10 ^ (19 + scale) := (pow_add _ _ _).symm
    _ ≤ 10 ^ precision := pow_le_pow_right₀ (by norm_num) (by omega)

/-- Neither the digits before the point nor those after it get fewer. -/
theorem isDecimal_widen {precision scale precision' scale' : ℕ} {q : ℚ} (hscale : scale ≤ scale')
    (hroom : precision + scale' ≤ precision' + scale) (h : IsDecimal precision scale q) :
    IsDecimal precision' scale' q := by
  obtain ⟨n, hn, hq⟩ := h
  obtain ⟨more, rfl⟩ := Nat.exists_eq_add_of_le hscale
  refine ⟨n * 10 ^ more, ?_, by push_cast; rw [pow_add, ← mul_assoc, hq]⟩
  calc |n * 10 ^ more| = |n| * 10 ^ more := by rw [abs_mul, abs_pow]; rfl
    _ < 10 ^ precision * 10 ^ more := by gcongr
    _ = 10 ^ (precision + more) := (pow_add _ _ _).symm
    _ ≤ 10 ^ precision' := pow_le_pow_right₀ (by norm_num) (by omega)

/-- An odd number beyond 53 bits is no double. -/
theorem not_isDouble_of_odd {n : ℤ} (hlarge : 2 ^ 53 ≤ n) (hodd : n % 2 = 1) : ¬IsDouble n := by
  rintro ⟨m, up, down, hm, -, -, h⟩
  have hint : n * 2 ^ down = m * 2 ^ up := by exact_mod_cast h
  obtain ⟨k, hk⟩ | ⟨k, hk⟩ : (∃ k, down = up + k) ∨ ∃ k, up = down + (k + 1) := by
    rcases Nat.le_total up down with hle | hle
    · exact .inl (Nat.exists_eq_add_of_le hle)
    · obtain ⟨k, hk⟩ := Nat.exists_eq_add_of_le hle
      cases k with
      | zero => exact .inl ⟨0, hk.symm⟩
      | succ k => exact .inr ⟨k, hk⟩
  · have hm' : n * 2 ^ k = m := by
      have hpos : (2 : ℤ) ^ up ≠ 0 := by positivity
      refine mul_right_cancel₀ hpos ?_
      rw [← hint, hk, pow_add]
      ring
    have hone : (1 : ℤ) ≤ 2 ^ k := one_le_pow₀ (by norm_num)
    have hle : n ≤ m := hm' ▸ le_mul_of_one_le_right (by omega) hone
    have habs := (abs_lt.1 hm).2
    omega
  · have hn : n = 2 * (m * 2 ^ k) := by
      have hpos : (2 : ℤ) ^ down ≠ 0 := by positivity
      refine mul_right_cancel₀ hpos ?_
      rw [hint, hk, pow_add, pow_succ]
      ring
    omega

theorem valid_scale_le {precision scale : ℕ} (h : (SqlType.decimal precision scale).valid = true) :
    scale ≤ precision := by
  rw [SqlType.valid, Bool.and_eq_true, decide_eq_true_iff] at h
  exact h.2

/-- The destination's own widenings lose no value. -/
theorem isWidening_holds {old new : ColumnType} (h : isWidening old new = true)
    (hold : (sqlType false old).valid = true) (hnew : (sqlType false new).valid = true) {v : Value}
    (hv : (sqlType false old).Holds v) : (sqlType false new).Holds v := by
  unfold isWidening at h
  split at h
  · cases h
  · next hbinary =>
    have htextual : v.textual = true := sqlType_textual (Bool.eq_false_iff.2 hbinary) hv
    split at h
    · exact holds_varchar.2 htextual
    · exact holds_json.2 htextual
    · next precision scale =>
      cases v with
      | null => trivial
      | number q =>
        obtain ⟨n, hlow, hhigh, rfl⟩ := hv
        exact isDecimal_of_int (of_decide_eq_true h) hlow hhigh
      | _ => exact False.elim hv
    · next precision scale precision' scale' =>
      cases v with
      | null => trivial
      | number q =>
        rw [Bool.and_eq_true, decide_eq_true_iff, decide_eq_true_iff] at h
        have hle := valid_scale_le hold
        have hle' := valid_scale_le hnew
        exact isDecimal_widen h.1 (by omega) hv
      | _ => exact False.elim hv
    · cases h

end Duckdb
