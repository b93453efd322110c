import Mathlib.Data.List.Induction
import Mathlib.Data.Nat.Basic
import Mathlib.Tactic.Ring

/-!
# Big-endian words

Numbers as bytes, the most significant first, unsigned and in two's complement.
-/
namespace Words

def bigEndian (bytes : List UInt8) : Nat := bytes.foldl (fun word b => word * 256 + b.toNat) 0

/-- A word of so many bits read in two's complement. -/
def signed (bits word : Nat) : Int := if word < 2 ^ (bits - 1) then word else word - 2 ^ bits

/-- The low sixteen bits of a number. -/
def put16 (n : Nat) : List UInt8 := [UInt8.ofNat (n / 256), UInt8.ofNat n]

def putI16 (n : Int) : List UInt8 := put16 (n % 2 ^ 16).toNat

/-- The low bytes of a number, as many as the width says. -/
def put : Nat → Nat → List UInt8
  | 0, _ => []
  | width + 1, n => put width (n / 256) ++ [UInt8.ofNat n]

def putI32 (n : Int) : List UInt8 := put 4 (n % 2 ^ 32).toNat

@[simp] theorem length_put16 (n : Nat) : (put16 n).length = 2 := rfl

@[simp] theorem length_putI16 (n : Int) : (putI16 n).length = 2 := rfl

theorem bigEndian_lt (bytes : List UInt8) : bigEndian bytes < 256 ^ bytes.length := by
  have hfold : ∀ (bytes : List UInt8) (word width : Nat), word < 256 ^ width →
      bytes.foldl (fun word b => word * 256 + b.toNat) word < 256 ^ (width + bytes.length) := by
    intro bytes
    induction bytes with
    | nil => exact fun _ _ h => h
    | cons b bytes ih =>
      intro word width h
      have hb : b.toNat < 256 := b.toNat_lt
      have hstep : word * 256 + b.toNat < 256 ^ (width + 1) := by
        rw [Nat.pow_succ]
        omega
      rw [List.foldl_cons, List.length_cons, Nat.add_comm bytes.length, ← Nat.add_assoc]
      exact ih _ _ hstep
  have h := hfold bytes 0 0 (by decide)
  rwa [Nat.zero_add] at h

theorem bigEndian_put16 {n : Nat} (h : n < 2 ^ 16) : bigEndian (put16 n) = n := by
  simp only [bigEndian, put16, List.foldl_cons, List.foldl_nil, UInt8.toNat_ofNat']
  omega

theorem signed_putI16 {n : Int} (hlow : -2 ^ 15 ≤ n) (hhigh : n < 2 ^ 15) :
    signed 16 (bigEndian (putI16 n)) = n := by
  rw [putI16, bigEndian_put16 (by omega), signed]
  split <;> omega

theorem bigEndian_concat (bytes : List UInt8) (b : UInt8) :
    bigEndian (bytes ++ [b]) = bigEndian bytes * 256 + b.toNat := by
  rw [bigEndian, List.foldl_append]
  rfl

@[simp] theorem length_put (width n : Nat) : (put width n).length = width := by
  induction width generalizing n with
  | zero => rfl
  | succ width ih => rw [put, List.length_append, ih, List.length_singleton]

theorem bigEndian_put {width n : Nat} (h : n < 256 ^ width) : bigEndian (put width n) = n := by
  induction width generalizing n with
  | zero =>
    obtain rfl : n = 0 := by simpa using h
    rfl
  | succ width ih =>
    have hhigh : n / 256 < 256 ^ width := by
      rw [Nat.pow_succ] at h
      exact Nat.div_lt_of_lt_mul (by omega)
    rw [put, bigEndian_concat, ih hhigh, UInt8.toNat_ofNat']
    omega

theorem put_bigEndian (bytes : List UInt8) : put bytes.length (bigEndian bytes) = bytes := by
  induction bytes using List.reverseRecOn with
  | nil => rfl
  | append_singleton bytes b ih =>
    have hb : b.toNat < 256 := b.toNat_lt
    have hhigh : (bigEndian bytes * 256 + b.toNat) / 256 = bigEndian bytes := by omega
    have hlow : UInt8.ofNat (bigEndian bytes * 256 + b.toNat) = b := by
      rw [← UInt8.toNat_inj, UInt8.toNat_ofNat']
      omega
    rw [List.length_append, List.length_singleton, put, bigEndian_concat, hhigh, hlow, ih]

/-- Bytes are a word of their length and of no other number. -/
theorem eq_put_iff {bytes : List UInt8} {width n : Nat} :
    bytes.length = width ∧ bigEndian bytes = n ↔ n < 256 ^ width ∧ bytes = put width n := by
  constructor
  · rintro ⟨rfl, rfl⟩
    exact ⟨bigEndian_lt bytes, (put_bigEndian bytes).symm⟩
  · rintro ⟨hn, rfl⟩
    exact ⟨length_put width n, bigEndian_put hn⟩

/-- Four bytes in two's complement are the bytes of the number they spell. -/
theorem putI32_signed {bytes : List UInt8} (h : bytes.length = 4) :
    putI32 (signed 32 (bigEndian bytes)) = bytes := by
  have hlt := bigEndian_lt bytes
  rw [h] at hlt
  have hword : (signed 32 (bigEndian bytes) % 2 ^ 32).toNat = bigEndian bytes := by
    rw [signed]
    split <;> omega
  rw [putI32, hword, ← h, put_bigEndian]

/-- A number in two's complement is read back from its low bytes. -/
theorem signed_put {width : Nat} {n : Int} (hwidth : 0 < width) (hlow : -2 ^ (8 * width - 1) ≤ n)
    (hhigh : n < 2 ^ (8 * width - 1)) :
    signed (8 * width) (bigEndian (put width (n % 2 ^ (8 * width)).toNat)) = n := by
  obtain ⟨half, hhalf⟩ : ∃ half : Nat, half = 2 ^ (8 * width - 1) := ⟨_, rfl⟩
  have hwhole : 2 ^ (8 * width) = 2 * half := by
    rw [hhalf, ← Nat.pow_succ']
    congr 1
    omega
  have hbytes : 256 ^ width = 2 * half := by
    rw [← hwhole, Nat.pow_mul]
  have hint : (2 : Int) ^ (8 * width) = 2 * half := by exact_mod_cast hwhole
  have hinthalf : (2 : Int) ^ (8 * width - 1) = half := by exact_mod_cast hhalf.symm
  rw [hinthalf] at hlow hhigh
  have hword : (n % (2 * half : Int)).toNat = if 0 ≤ n then n.toNat else (n + 2 * half).toNat := by
    split
    · rw [Int.emod_eq_of_lt (by omega) (by omega)]
    · rw [← Int.add_emod_right, Int.emod_eq_of_lt (by omega) (by omega)]
  rw [hint, hword, bigEndian_put (by split <;> omega), signed, ← hhalf, hint]
  split <;> split <;> omega

end Words
