import Mathlib.Data.List.Basic
import Mathlib.Data.Nat.Basic
import Mathlib.Tactic.Ring

/-!
# Decimal digits and the order of texts

A run of decimal digits has a value, and between runs of one length the order of the
texts is the order of the values. Fixed-width fields therefore compare as text the way
their numbers do, one field after the other.
-/
namespace Digits

/-- The order of texts: the first difference decides, and a proper beginning comes first. -/
def less : List Char → List Char → Bool
  | _, [] => false
  | [], _ :: _ => true
  | x :: xs, y :: ys => x < y || (x == y && less xs ys)

/-- Nothing but decimal digits. -/
def AllDigits (text : List Char) : Prop := ∀ c ∈ text, c.isDigit = true

instance (text : List Char) : Decidable (AllDigits text) :=
  List.decidableBAll (fun c : Char => c.isDigit = true) text

def value (text : List Char) : Nat := Nat.ofDigitChars 10 text 0

/-- The digits of a number, zeros in front up to the width. -/
def padLeft (width n : Nat) : List Char :=
  List.replicate (width - (Nat.toDigits 10 n).length) '0' ++ Nat.toDigits 10 n

/-- Zeros behind, up to the width. -/
def padRight (width : Nat) (text : List Char) : List Char :=
  text ++ List.replicate (width - text.length) '0'

/-- In place notation the higher place decides first. -/
theorem place_lt {unit x y a b : Nat} (ha : a < unit) (hb : b < unit) :
    x * unit + a < y * unit + b ↔ x < y ∨ x = y ∧ a < b := by
  obtain hlt | rfl | hgt := Nat.lt_trichotomy x y
  · have hstep := Nat.mul_le_mul_right unit hlt
    rw [Nat.succ_mul] at hstep
    omega
  · omega
  · have hstep := Nat.mul_le_mul_right unit hgt
    rw [Nat.succ_mul] at hstep
    omega

theorem place_inj {unit x y a b : Nat} (ha : a < unit) (hb : b < unit)
    (h : x * unit + a = y * unit + b) : x = y ∧ a = b := by
  have hforward : ¬(x < y ∨ x = y ∧ a < b) := mt (place_lt ha hb).mpr (by omega)
  have hbackward : ¬(y < x ∨ y = x ∧ b < a) := mt (place_lt hb ha).mpr (by omega)
  omega

/-! ## Texts -/

theorem less_irrefl (text : List Char) : less text text = false := by
  induction text with
  | nil => rfl
  | cons x xs ih => simp [less, ih]

theorem less_append_left (shared xs ys : List Char) :
    less (shared ++ xs) (shared ++ ys) = less xs ys := by
  induction shared with
  | nil => rfl
  | cons x shared ih => simp [less, ih]

/-- Heads of one length decide first. -/
theorem less_append {xs ys : List Char} (hlength : xs.length = ys.length)
    (xs' ys' : List Char) :
    less (xs ++ xs') (ys ++ ys') = true ↔
      less xs ys = true ∨ (xs = ys ∧ less xs' ys' = true) := by
  induction xs generalizing ys with
  | nil =>
    have hnil : ys = [] := List.length_eq_zero_iff.mp hlength.symm
    subst hnil
    simp [less]
  | cons x xs ih =>
    cases ys with
    | nil => simp at hlength
    | cons y ys =>
      have htail := ih (Nat.succ.inj hlength)
      simp only [List.cons_append, less, Bool.or_eq_true, Bool.and_eq_true, decide_eq_true_eq,
        beq_iff_eq, htail, List.cons.injEq]
      tauto

/-! ## Values -/

theorem allDigits_cons {c : Char} {text : List Char} :
    AllDigits (c :: text) ↔ c.isDigit = true ∧ AllDigits text := by
  simp [AllDigits]

theorem allDigits_append {xs ys : List Char} :
    AllDigits (xs ++ ys) ↔ AllDigits xs ∧ AllDigits ys := by
  simp [AllDigits, or_imp, forall_and]

theorem allDigits_replicate (n : Nat) : AllDigits (List.replicate n '0') := by
  intro c hc
  rw [List.eq_of_mem_replicate hc]
  rfl

theorem allDigits_toDigits (n : Nat) : AllDigits (Nat.toDigits 10 n) :=
  fun _ hc => Nat.isDigit_of_mem_toDigits (by omega) (by omega) hc

theorem toString_injective {m n : Nat} (h : toString m = toString n) : m = n := by
  have hdigits : Nat.toDigits 10 m = Nat.toDigits 10 n := String.ofList_injective h
  calc m = Nat.ofDigitChars 10 (Nat.toDigits 10 m) 0 := Nat.ofDigitChars_ten_toDigits.symm
    _ = Nat.ofDigitChars 10 (Nat.toDigits 10 n) 0 := by rw [hdigits]
    _ = n := Nat.ofDigitChars_ten_toDigits

theorem digit_bounds {c : Char} (h : c.isDigit = true) : 48 ≤ c.toNat ∧ c.toNat ≤ 57 :=
  Char.isDigit_iff_toNat.mp h

@[simp] theorem value_nil : value [] = 0 := rfl

theorem value_cons (c : Char) (text : List Char) :
    value (c :: text) = (c.toNat - 48) * 10 ^ text.length + value text := by
  rw [value, Nat.ofDigitChars_cons, Nat.ofDigitChars_eq_ofDigitChars_zero, value, Nat.mul_zero,
    Nat.zero_add, Nat.mul_comm]
  rfl

theorem value_append (xs ys : List Char) :
    value (xs ++ ys) = value xs * 10 ^ ys.length + value ys := by
  rw [value, Nat.ofDigitChars_append, Nat.ofDigitChars_eq_ofDigitChars_zero, Nat.mul_comm]
  rfl

@[simp] theorem value_zeros (n : Nat) : value (List.replicate n '0') = 0 := by
  rw [value, Nat.ofDigitChars_replicate_zero, Nat.mul_zero]

@[simp] theorem value_toDigits (n : Nat) : value (Nat.toDigits 10 n) = n :=
  Nat.ofDigitChars_ten_toDigits

theorem value_lt {text : List Char} (h : AllDigits text) : value text < 10 ^ text.length := by
  induction text with
  | nil => simp
  | cons c text ih =>
    obtain ⟨hc, htext⟩ := allDigits_cons.mp h
    have hdigit : c.toNat - 48 ≤ 9 := by
      have := digit_bounds hc
      omega
    have hprod := Nat.mul_le_mul_right (10 ^ text.length) hdigit
    have := ih htext
    rw [value_cons, List.length_cons, Nat.pow_succ]
    omega

theorem le_value_cons {c : Char} {text : List Char} (hc : c.isDigit = true) (hzero : c ≠ '0') :
    10 ^ text.length ≤ value (c :: text) := by
  have hbounds := digit_bounds hc
  have hne : c.toNat ≠ 48 := fun h => hzero (Char.toNat_inj.mp h)
  have hpos : 1 ≤ c.toNat - 48 := by omega
  calc 10 ^ text.length = 1 * 10 ^ text.length := (Nat.one_mul _).symm
    _ ≤ (c.toNat - 48) * 10 ^ text.length := Nat.mul_le_mul_right _ hpos
    _ ≤ value (c :: text) := by rw [value_cons]; exact Nat.le_add_right _ _

theorem char_lt {c d : Char} (hc : c.isDigit = true) (hd : d.isDigit = true) :
    c < d ↔ c.toNat - 48 < d.toNat - 48 := by
  have hlt : c < d ↔ c.toNat < d.toNat := UInt32.lt_iff_toNat_lt
  have := digit_bounds hc
  have := digit_bounds hd
  rw [hlt]
  omega

theorem char_eq {c d : Char} (hc : c.isDigit = true) (hd : d.isDigit = true) :
    c = d ↔ c.toNat - 48 = d.toNat - 48 := by
  have := digit_bounds hc
  have := digit_bounds hd
  rw [← Char.toNat_inj]
  omega

/-- Digit runs of one length order as their values do. -/
theorem less_iff {xs ys : List Char} (hlength : xs.length = ys.length) (hxs : AllDigits xs)
    (hys : AllDigits ys) : less xs ys = true ↔ value xs < value ys := by
  induction xs generalizing ys with
  | nil =>
    have hnil : ys = [] := List.length_eq_zero_iff.mp hlength.symm
    subst hnil
    simp [less]
  | cons c xs ih =>
    cases ys with
    | nil => simp at hlength
    | cons d ys =>
      obtain ⟨hc, hxs⟩ := allDigits_cons.mp hxs
      obtain ⟨hd, hys⟩ := allDigits_cons.mp hys
      have htail : xs.length = ys.length := Nat.succ.inj hlength
      have hx := value_lt hxs
      rw [htail] at hx
      simp only [less, Bool.or_eq_true, Bool.and_eq_true, decide_eq_true_eq, beq_iff_eq,
        ih htail hxs hys, char_lt hc hd, char_eq hc hd, value_cons]
      rw [htail]
      exact (place_lt hx (value_lt hys)).symm

theorem value_inj {xs ys : List Char} (hlength : xs.length = ys.length) (hxs : AllDigits xs)
    (hys : AllDigits ys) (hvalue : value xs = value ys) : xs = ys := by
  induction xs generalizing ys with
  | nil => exact (List.length_eq_zero_iff.mp hlength.symm).symm
  | cons c xs ih =>
    cases ys with
    | nil => simp at hlength
    | cons d ys =>
      obtain ⟨hc, hxs⟩ := allDigits_cons.mp hxs
      obtain ⟨hd, hys⟩ := allDigits_cons.mp hys
      have htail : xs.length = ys.length := Nat.succ.inj hlength
      have hx := value_lt hxs
      rw [htail] at hx
      rw [value_cons, value_cons, htail] at hvalue
      obtain ⟨hdigit, hrest⟩ := place_inj hx (value_lt hys) hvalue
      rw [(char_eq hc hd).mpr hdigit, ih htail hxs hys hrest]

/-! ## Leading zeros -/

def trimZeros (text : List Char) : List Char := text.dropWhile (· == '0')

theorem value_trimZeros (text : List Char) : value (trimZeros text) = value text := by
  induction text with
  | nil => rfl
  | cons c text ih =>
    by_cases hzero : c = '0'
    · subst hzero
      rw [value_cons]
      simpa [trimZeros] using ih
    · rw [trimZeros, List.dropWhile_cons_of_neg (by simpa using hzero)]

theorem allDigits_trimZeros {text : List Char} (h : AllDigits text) :
    AllDigits (trimZeros text) :=
  fun c hc => h c ((List.dropWhile_sublist _).subset hc)

/-- Without zeros in front, the longer run is the larger number. -/
theorem value_lt_of_length {xs ys : List Char} (hxs : AllDigits xs) (hys : AllDigits ys)
    (h : (trimZeros xs).length < (trimZeros ys).length) : value xs < value ys := by
  rw [← value_trimZeros xs, ← value_trimZeros ys]
  have hx := value_lt (allDigits_trimZeros hxs)
  cases htrim : trimZeros ys with
  | nil => rw [htrim] at h; simp at h
  | cons c rest =>
    rw [htrim] at h
    have hdigits := allDigits_trimZeros hys
    rw [htrim] at hdigits
    have hzero : c ≠ '0' := by
      have hhead := List.head?_dropWhile_not (· == '0') ys
      rw [← trimZeros, htrim] at hhead
      simpa using hhead
    have hlen : (trimZeros xs).length ≤ rest.length := by
      rw [List.length_cons] at h
      omega
    calc value (trimZeros xs) < 10 ^ (trimZeros xs).length := hx
      _ ≤ 10 ^ rest.length := Nat.pow_le_pow_right (by omega) hlen
      _ ≤ value (c :: rest) := le_value_cons (allDigits_cons.mp hdigits).1 hzero

theorem trimZeros_eq_iff {xs ys : List Char} (hxs : AllDigits xs) (hys : AllDigits ys) :
    trimZeros xs = trimZeros ys ↔ value xs = value ys := by
  constructor
  · intro h
    rw [← value_trimZeros xs, h, value_trimZeros]
  · intro h
    apply value_inj _ (allDigits_trimZeros hxs) (allDigits_trimZeros hys)
    · rw [value_trimZeros, value_trimZeros, h]
    · obtain hlt | heq | hgt := Nat.lt_trichotomy (trimZeros xs).length (trimZeros ys).length
      · have := value_lt_of_length hxs hys hlt
        omega
      · exact heq
      · have := value_lt_of_length hys hxs hgt
        omega

/-! ## Fixed widths -/

theorem length_toDigits {width n : Nat} (hwidth : 0 < width) (h : n < 10 ^ width) :
    (Nat.toDigits 10 n).length ≤ width :=
  (Nat.length_toDigits_le_iff (by omega) hwidth).mpr h

theorem length_padLeft {width n : Nat} (hwidth : 0 < width) (h : n < 10 ^ width) :
    (padLeft width n).length = width := by
  have := length_toDigits hwidth h
  simp only [padLeft, List.length_append, List.length_replicate]
  omega

theorem le_length_padLeft (width n : Nat) : width ≤ (padLeft width n).length := by
  simp only [padLeft, List.length_append, List.length_replicate]
  omega

@[simp] theorem value_padLeft (width n : Nat) : value (padLeft width n) = n := by
  rw [padLeft, value_append, value_zeros, value_toDigits, Nat.zero_mul, Nat.zero_add]

theorem allDigits_padLeft (width n : Nat) : AllDigits (padLeft width n) :=
  allDigits_append.mpr ⟨allDigits_replicate _, allDigits_toDigits n⟩

/-- Numbers in fields of one width order as their texts do. -/
theorem less_padLeft {width m n : Nat} (hwidth : 0 < width) (hm : m < 10 ^ width)
    (hn : n < 10 ^ width) : less (padLeft width m) (padLeft width n) = true ↔ m < n := by
  rw [less_iff (by rw [length_padLeft hwidth hm, length_padLeft hwidth hn])
    (allDigits_padLeft _ _) (allDigits_padLeft _ _), value_padLeft, value_padLeft]

theorem padLeft_inj {width m n : Nat} : padLeft width m = padLeft width n ↔ m = n := by
  constructor
  · intro h
    rw [← value_padLeft width m, h, value_padLeft]
  · rintro rfl
    rfl

/-- Fields of one width, with the same text behind each, decide in turn. -/
theorem less_field {width m n : Nat} (hwidth : 0 < width) (hm : m < 10 ^ width)
    (hn : n < 10 ^ width) (c : Char) (xs ys : List Char) :
    less (padLeft width m ++ c :: xs) (padLeft width n ++ c :: ys) = true ↔
      m < n ∨ m = n ∧ less xs ys = true := by
  have hlength : (padLeft width m).length = (padLeft width n).length := by
    rw [length_padLeft hwidth hm, length_padLeft hwidth hn]
  have htail : less (c :: xs) (c :: ys) = less xs ys := less_append_left [c] xs ys
  rw [less_append hlength, less_padLeft hwidth hm hn, padLeft_inj, htail]

theorem length_padRight {width : Nat} {text : List Char} (h : text.length ≤ width) :
    (padRight width text).length = width := by
  rw [padRight, List.length_append, List.length_replicate]
  omega

theorem allDigits_padRight {width : Nat} {text : List Char} (h : AllDigits text) :
    AllDigits (padRight width text) :=
  allDigits_append.mpr ⟨h, allDigits_replicate _⟩

theorem value_padRight (width : Nat) (text : List Char) :
    value (padRight width text) = value text * 10 ^ (width - text.length) := by
  rw [padRight, value_append, value_zeros, List.length_replicate, Nat.add_zero]

end Digits
