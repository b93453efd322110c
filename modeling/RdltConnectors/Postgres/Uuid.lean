import Mathlib.Data.List.DropRight
import RdltConnectors.Postgres.Wire

/-!
# Identifiers as text

A UUID is read from the texts that the server's own input takes: its digits in either case, bare
or with hyphens between the groups, in braces or not, behind the URN prefix or not.
-/
namespace PgTypes

/-- The value of a hexadecimal digit. -/
def toDigit16 (c : Char) : Option Nat :=
  if c.isDigit then some (c.toNat - 48)
  else if 97 ≤ c.toNat ∧ c.toNat ≤ 102 then some (c.toNat - 87)
  else if 65 ≤ c.toNat ∧ c.toNat ≤ 70 then some (c.toNat - 55)
  else none

/-- What the loop over the characters carries. -/
structure Scan where
  /-- the bytes that are full -/
  bytes : Bytes
  highNibble : Option Nat
  hexSeen : Nat
  hyphenAt : Option Nat

/-- How many digits stand in front of each hyphen. -/
def boundaries : List Nat := [8, 12, 16, 20]

/-- Characters beyond ASCII are no digits, as none of their bytes is. -/
def Scan.step (s : Scan) (character : Char) : Option Scan :=
  if character = '-' then
    -- one hyphen at a boundary: the number of digits does not change on a second one
    if s.hexSeen ∉ boundaries ∨ s.hyphenAt = some s.hexSeen then none
    else some { s with hyphenAt := some s.hexSeen }
  else
    match toDigit16 character with
    | none => none
    | some nibble =>
      match s.highNibble with
      | none => some { s with hexSeen := s.hexSeen + 1, highNibble := some nibble }
      | some high =>
        if s.bytes.length ≥ 16 then none
        else some { s with
          hexSeen := s.hexSeen + 1
          bytes := s.bytes ++ [UInt8.ofNat (high * 16 + nibble)]
          highNibble := none }

def withoutUrn (text : List Char) : List Char :=
  ((text.dropPrefix? "urn:uuid:".toList <|> text.dropPrefix? "URN:UUID:".toList)).getD text

def withoutBraces (text : List Char) : List Char :=
  ((text.dropPrefix? ['{']).bind fun inner => inner.dropSuffix? ['}']).getD text

def parseUuidText (text : String) : Option Bytes := do
  let s ← (withoutBraces (withoutUrn text.toList)).foldlM Scan.step ⟨[], none, 0, none⟩
  if s.bytes.length = 16 ∧ s.highNibble = none then some s.bytes else none

/-! ## The texts of an identifier -/

/-- A digit, with a hyphen in front of it or not. -/
def spelled (digit : Bool × Char) : List Char := if digit.1 then ['-', digit.2] else [digit.2]

/-- Hyphens stand in front of the ninth digit, the thirteenth, the seventeenth and the
twenty-first, or of none of these. -/
structure UuidDigits (digits : List (Bool × Char)) : Prop where
  length : digits.length = 32
  hex : ∀ digit ∈ digits, (toDigit16 digit.2).isSome = true
  hyphens : ∀ (i : Nat) (digit : Bool × Char), digits[i]? = some digit → digit.1 = true → i ∈ boundaries

def IsUuidText (text : List Char) : Prop :=
  ∃ urn ∈ [[], "urn:uuid:".toList, "URN:UUID:".toList], ∃ digits, UuidDigits digits ∧
    (text = urn ++ digits.flatMap spelled ∨ text = urn ++ '{' :: (digits.flatMap spelled ++ ['}']))

/-! ## The loop -/

namespace Scan

variable {s s' : Scan} {c : Char}

/-- Two digits are a byte. -/
def Sound (s : Scan) : Prop := s.hexSeen = 2 * s.bytes.length + if s.highNibble.isSome then 1 else 0

theorem step_hyphen (hplace : s.hexSeen ∈ boundaries) (honce : s.hyphenAt ≠ some s.hexSeen) :
    s.step '-' = some { s with hyphenAt := some s.hexSeen } := by
  rw [step, if_pos rfl, if_neg (not_or.mpr ⟨not_not.mpr hplace, honce⟩)]

theorem step_digit (hs : s.Sound) (hc : (toDigit16 c).isSome = true) (hroom : s.hexSeen < 32) :
    ∃ s', s.step c = some s' ∧ s'.Sound ∧ s'.hexSeen = s.hexSeen + 1 ∧ s'.hyphenAt = s.hyphenAt := by
  obtain ⟨nibble, hnibble⟩ := Option.isSome_iff_exists.mp hc
  have hne : c ≠ '-' := by
    rintro rfl
    exact absurd hc (by decide)
  rw [step, if_neg hne, hnibble]
  unfold Sound at hs ⊢
  cases hhigh : s.highNibble with
  | none =>
    rw [hhigh] at hs
    refine ⟨_, rfl, ?_, rfl, rfl⟩
    simpa using hs
  | some high =>
    rw [hhigh] at hs
    have hfew : ¬s.bytes.length ≥ 16 := by
      simp only [Option.isSome_some, if_true] at hs
      omega
    refine ⟨_, if_neg hfew, ?_, rfl, rfl⟩
    simp only [Option.isSome_some, if_true] at hs
    simp [hs]
    omega

/-- A character is a hyphen at a boundary or one more digit. -/
theorem step_cases (hs : s.Sound) (h : s.step c = some s') :
    (c = '-' ∧ s.hexSeen ∈ boundaries ∧ s.hyphenAt ≠ some s.hexSeen ∧
      s' = { s with hyphenAt := some s.hexSeen }) ∨
    ((toDigit16 c).isSome = true ∧ s'.Sound ∧ s'.hexSeen = s.hexSeen + 1 ∧
      s'.hyphenAt = s.hyphenAt) := by
  by_cases hhyphen : c = '-'
  · rw [step, if_pos hhyphen] at h
    split at h
    · exact absurd h nofun
    · rename_i hplace
      obtain ⟨hplace, honce⟩ := not_or.mp hplace
      exact .inl ⟨hhyphen, not_not.mp hplace, honce, (Option.some.inj h).symm⟩
  · rw [step, if_neg hhyphen] at h
    unfold Sound at hs ⊢
    cases hnibble : toDigit16 c with
    | none =>
      rw [hnibble] at h
      exact absurd h nofun
    | some nibble =>
      rw [hnibble] at h
      refine .inr ⟨rfl, ?_⟩
      cases hhigh : s.highNibble with
      | none =>
        rw [hhigh] at h hs
        obtain rfl := Option.some.inj h
        refine ⟨?_, rfl, rfl⟩
        simpa using hs
      | some high =>
        rw [hhigh] at h hs
        dsimp only at h
        split at h
        · exact absurd h nofun
        · obtain rfl := Option.some.inj h
          refine ⟨?_, rfl, rfl⟩
          simp only [Option.isSome_some, if_true] at hs
          simp [hs]
          omega

/-- The loop ends with sixteen bytes when it has seen 32 digits. -/
theorem Sound.full_iff (hs : s.Sound) :
    (s.bytes.length = 16 ∧ s.highNibble = none) ↔ s.hexSeen = 32 := by
  unfold Sound at hs
  cases hhigh : s.highNibble with
  | none =>
    rw [hhigh] at hs
    simp only [Option.isSome_none, Bool.false_eq_true, if_false] at hs
    constructor
    · rintro ⟨hlength, -⟩
      omega
    · intro hseen
      exact ⟨by omega, rfl⟩
  | some high =>
    rw [hhigh] at hs
    simp only [Option.isSome_some, if_true] at hs
    constructor
    · rintro ⟨-, hnone⟩
      exact absurd hnone nofun
    · intro hseen
      omega

theorem Sound.loop {text : List Char} (hs : s.Sound) (h : text.foldlM step s = some s') : s'.Sound := by
  induction text generalizing s with
  | nil =>
    obtain rfl := Option.some.inj h
    exact hs
  | cons c text ih =>
    rw [List.foldlM_cons] at h
    obtain ⟨next, hstep, hrest⟩ := Option.bind_eq_some_iff.mp h
    obtain ⟨-, -, -, rfl⟩ | ⟨-, hnext, -⟩ := step_cases hs hstep
    · have hmarked : Sound { s with hyphenAt := some s.hexSeen } := hs
      exact ih hmarked hrest
    · exact ih hnext hrest

/-- What the loop has read are digits, each behind a hyphen at most. -/
theorem spelled_of_loop {text : List Char} (hs : s.Sound) (h : text.foldlM step s = some s')
    (hfull : s'.hexSeen = 32) :
    ∃ digits : List (Bool × Char), text = digits.flatMap spelled ∧
      s.hexSeen + digits.length = 32 ∧ (∀ digit ∈ digits, (toDigit16 digit.2).isSome = true) ∧
      ∀ (i : Nat) (digit : Bool × Char), digits[i]? = some digit → digit.1 = true →
        s.hexSeen + i ∈ boundaries ∧ (i = 0 → s.hyphenAt ≠ some s.hexSeen) := by
  induction text generalizing s with
  | nil =>
    obtain rfl := Option.some.inj h
    exact ⟨[], rfl, hfull, fun _ hmem => absurd hmem List.not_mem_nil, fun _ _ hnone => nomatch hnone⟩
  | cons c text ih =>
    rw [List.foldlM_cons] at h
    obtain ⟨next, hstep, hrest⟩ := Option.bind_eq_some_iff.mp h
    obtain ⟨rfl, hplace, honce, rfl⟩ | ⟨hc, hnext, hseen, hhyphen⟩ := step_cases hs hstep
    · -- the digit that follows stands behind this hyphen and no other
      have hmarked : Sound { s with hyphenAt := some s.hexSeen } := hs
      obtain ⟨digits, rfl, hlength, hhex, hhyphens⟩ := ih hmarked hrest
      cases digits with
      | nil =>
        have hnone : s.hexSeen = 32 := hlength
        rw [hnone] at hplace
        exact absurd hplace (by decide)
      | cons digit digits =>
        have hfirst : digit.1 = false := by
          by_contra htrue
          exact (hhyphens 0 digit rfl (Bool.eq_true_of_not_eq_false htrue)).2 rfl rfl
        refine ⟨(true, digit.2) :: digits, ?_, hlength, ?_, ?_⟩
        · rw [List.flatMap_cons, List.flatMap_cons, spelled, spelled, hfirst]
          rfl
        · exact List.forall_mem_cons.mpr (List.forall_mem_cons.mp hhex)
        · intro i other hother hflag
          cases i with
          | zero => exact ⟨hplace, fun _ => honce⟩
          | succ i => exact ⟨(hhyphens (i + 1) other hother hflag).1, nofun⟩
    · obtain ⟨digits, rfl, hlength, hhex, hhyphens⟩ := ih hnext hrest
      refine ⟨(false, c) :: digits, rfl, ?_, List.forall_mem_cons.mpr ⟨hc, hhex⟩, ?_⟩
      · rw [List.length_cons]
        omega
      · intro i other hother hflag
        cases i with
        | zero =>
          obtain rfl := Option.some.inj hother
          exact absurd hflag Bool.false_ne_true
        | succ i =>
          have hplace := (hhyphens i other hother hflag).1
          rw [hseen, Nat.add_right_comm] at hplace
          exact ⟨hplace, nofun⟩

/-- The loop reads such digits to their end. -/
theorem loop_of_spelled {digits : List (Bool × Char)} (hs : s.Sound)
    (hbehind : ∀ place, s.hyphenAt = some place → place < s.hexSeen)
    (hlength : s.hexSeen + digits.length = 32)
    (hhex : ∀ digit ∈ digits, (toDigit16 digit.2).isSome = true)
    (hhyphens : ∀ (i : Nat) (digit : Bool × Char), digits[i]? = some digit → digit.1 = true →
      s.hexSeen + i ∈ boundaries) :
    ∃ s', (digits.flatMap spelled).foldlM step s = some s' ∧ s'.Sound ∧ s'.hexSeen = 32 := by
  induction digits generalizing s with
  | nil => exact ⟨s, rfl, hs, hlength⟩
  | cons digit digits ih =>
    obtain ⟨hdigit, hrest⟩ := List.forall_mem_cons.mp hhex
    have hroom : s.hexSeen < 32 := by
      rw [List.length_cons] at hlength
      omega
    have hlater (next : Scan) (hnext : next.hexSeen = s.hexSeen + 1) (i : Nat) (other : Bool × Char)
        (hother : digits[i]? = some other) (hflag : other.1 = true) :
        next.hexSeen + i ∈ boundaries := by
      have hplace := hhyphens (i + 1) other hother hflag
      rwa [hnext, Nat.add_right_comm]
    have hread (start : Scan) (hstart : start.Sound) (hseen : start.hexSeen = s.hexSeen)
        (hplaces : ∀ place, start.hyphenAt = some place → place ≤ s.hexSeen) :
        ∃ s', (digit.2 :: digits.flatMap spelled).foldlM step start = some s' ∧ s'.Sound ∧
          s'.hexSeen = 32 := by
      obtain ⟨next, hstep, hnext, hnextSeen, hnextHyphen⟩ :=
        step_digit hstart hdigit (by rw [hseen]; exact hroom)
      rw [hseen] at hnextSeen
      obtain ⟨s', hloop, hsound, hfull⟩ := ih hnext
        (fun place hplace => by
          rw [hnextSeen]
          exact Nat.lt_succ_of_le (hplaces place (hnextHyphen ▸ hplace)))
        (by rw [hnextSeen]; rw [List.length_cons] at hlength; omega) hrest (hlater next hnextSeen)
      refine ⟨s', ?_, hsound, hfull⟩
      rw [List.foldlM_cons, hstep]
      exact hloop
    rw [List.flatMap_cons, spelled]
    split
    · rename_i hflag
      have hplace := hhyphens 0 digit rfl hflag
      have honce : s.hyphenAt ≠ some s.hexSeen := fun heq => Nat.lt_irrefl _ (hbehind _ heq)
      obtain ⟨s', hloop, hsound, hfull⟩ := hread { s with hyphenAt := some s.hexSeen } hs rfl
        (fun place hat => Nat.le_of_eq (Option.some.inj hat).symm)
      refine ⟨s', ?_, hsound, hfull⟩
      rw [List.cons_append, List.foldlM_cons, step_hyphen hplace honce]
      exact hloop
    · exact hread s hs rfl fun place hat => Nat.le_of_lt (hbehind place hat)

end Scan

/-! ## What stands around the digits -/

/-- A text that starts with a digit is in no braces and behind no prefix. -/
theorem without_digit {c : Char} (hc : (toDigit16 c).isSome = true) (rest : List Char) :
    withoutUrn (c :: rest) = c :: rest ∧ withoutBraces (c :: rest) = c :: rest := by
  have hne : c ≠ 'u' ∧ c ≠ 'U' ∧ c ≠ '{' := by
    refine ⟨?_, ?_, ?_⟩ <;> rintro rfl <;> exact absurd hc (by decide)
  constructor
  · simp [withoutUrn, List.dropPrefix?, hne.1, hne.2.1]
  · simp [withoutBraces, List.dropPrefix?, hne.2.2]

theorem withoutUrn_append {urn : List Char} (h : urn ∈ ["urn:uuid:".toList, "URN:UUID:".toList])
    (text : List Char) : withoutUrn (urn ++ text) = text := by
  simp only [List.mem_cons, List.not_mem_nil, or_false] at h
  obtain rfl | rfl := h
  · rw [withoutUrn, List.dropPrefix?_append_of_beq _ BEq.rfl]
    rfl
  · have hnone : ("URN:UUID:".toList ++ text).dropPrefix? "urn:uuid:".toList = none := rfl
    rw [withoutUrn, hnone, List.dropPrefix?_append_of_beq _ BEq.rfl]
    rfl

theorem withoutBraces_braced (text : List Char) : withoutBraces ('{' :: (text ++ ['}'])) = text := by
  have hinner : (text ++ ['}']).dropSuffix? ['}'] = some text :=
    List.dropSuffix?_eq_some_iff.mpr ⟨['}'], rfl, BEq.rfl⟩
  have hprefix : ('{' :: (text ++ ['}'])).dropPrefix? ['{'] = some (text ++ ['}']) :=
    List.dropPrefix?_eq_some_iff.mpr ⟨['{'], rfl, BEq.rfl⟩
  rw [withoutBraces, hprefix, Option.bind_some, hinner]
  rfl

theorem withoutUrn_cases (text : List Char) :
    ∃ urn ∈ [[], "urn:uuid:".toList, "URN:UUID:".toList], text = urn ++ withoutUrn text := by
  rw [withoutUrn]
  cases hlower : text.dropPrefix? "urn:uuid:".toList with
  | some rest =>
    obtain ⟨urn, rfl, hurn⟩ := List.dropPrefix?_eq_some_iff.mp hlower
    exact ⟨urn, by rw [eq_of_beq hurn]; simp, rfl⟩
  | none =>
    cases hupper : text.dropPrefix? "URN:UUID:".toList with
    | some rest =>
      obtain ⟨urn, rfl, hurn⟩ := List.dropPrefix?_eq_some_iff.mp hupper
      exact ⟨urn, by rw [eq_of_beq hurn]; simp, rfl⟩
    | none => exact ⟨[], List.mem_cons_self, rfl⟩

theorem withoutBraces_cases (text : List Char) :
    text = withoutBraces text ∨ text = '{' :: (withoutBraces text ++ ['}']) := by
  rw [withoutBraces]
  cases hbraced : (text.dropPrefix? ['{']).bind fun inner => inner.dropSuffix? ['}'] with
  | none => exact .inl rfl
  | some body =>
    obtain ⟨inner, hinner, hbody⟩ := Option.bind_eq_some_iff.mp hbraced
    obtain ⟨brace, rfl, hbrace⟩ := List.dropPrefix?_eq_some_iff.mp hinner
    obtain ⟨behind, rfl, hbehind⟩ := List.dropSuffix?_eq_some_iff.mp hbody
    rw [eq_of_beq hbrace, eq_of_beq hbehind]
    exact .inr rfl

/-! ## Reading an identifier -/

theorem parse_isSome (text : String) : (parseUuidText text).isSome = true ↔
    ∃ s, (withoutBraces (withoutUrn text.toList)).foldlM Scan.step ⟨[], none, 0, none⟩ = some s ∧
      s.bytes.length = 16 ∧ s.highNibble = none := by
  rw [parseUuidText]
  cases hloop : (withoutBraces (withoutUrn text.toList)).foldlM Scan.step ⟨[], none, 0, none⟩ with
  | none => simp
  | some s => simp

/-- The loop is satisfied with the digits of an identifier. -/
theorem loop_iff (body : List Char) :
    (∃ s, body.foldlM Scan.step ⟨[], none, 0, none⟩ = some s ∧ s.bytes.length = 16 ∧
      s.highNibble = none) ↔ ∃ digits, UuidDigits digits ∧ body = digits.flatMap spelled := by
  have hstart : Scan.Sound ⟨[], none, 0, none⟩ := rfl
  constructor
  · rintro ⟨s, hloop, hfull⟩
    have hseen := (hstart.loop hloop).full_iff.mp hfull
    obtain ⟨digits, hbody, hlength, hhex, hhyphens⟩ := Scan.spelled_of_loop hstart hloop hseen
    refine ⟨digits, ⟨?_, hhex, fun i digit hdigit hflag => ?_⟩, hbody⟩
    · rwa [Nat.zero_add] at hlength
    · have hplace := (hhyphens i digit hdigit hflag).1
      rwa [Nat.zero_add] at hplace
  · rintro ⟨digits, hdigits, rfl⟩
    obtain ⟨s, hloop, hsound, hseen⟩ := Scan.loop_of_spelled hstart nofun
      (by rw [Nat.zero_add]; exact hdigits.length) hdigits.hex
      (fun i digit hdigit hflag => by rw [Nat.zero_add]; exact hdigits.hyphens i digit hdigit hflag)
    exact ⟨s, hloop, hsound.full_iff.mpr hseen⟩

/-- The digits of an identifier start with a digit. -/
theorem UuidDigits.head {digits : List (Bool × Char)} (h : UuidDigits digits) :
    ∃ c rest, digits.flatMap spelled = c :: rest ∧ (toDigit16 c).isSome = true := by
  cases digits with
  | nil => exact absurd h.length (by decide)
  | cons digit digits =>
    have hfirst : digit.1 = false := by
      by_contra htrue
      exact absurd (h.hyphens 0 digit rfl (Bool.eq_true_of_not_eq_false htrue)) (by decide)
    refine ⟨digit.2, digits.flatMap spelled, ?_, h.hex digit List.mem_cons_self⟩
    rw [List.flatMap_cons, spelled, hfirst]
    rfl

/-- Such a text comes down to the digits. -/
theorem without_uuid {urn text : List Char} {digits : List (Bool × Char)} (h : UuidDigits digits)
    (hurn : urn ∈ [[], "urn:uuid:".toList, "URN:UUID:".toList])
    (htext : text = urn ++ digits.flatMap spelled ∨
      text = urn ++ '{' :: (digits.flatMap spelled ++ ['}'])) :
    withoutBraces (withoutUrn text) = digits.flatMap spelled := by
  obtain ⟨c, rest, hhead, hc⟩ := h.head
  have hbare := without_digit hc rest
  rw [← hhead] at hbare
  obtain rfl | hurn := List.mem_cons.mp hurn
  · obtain rfl | rfl := htext
    · rw [List.nil_append, hbare.1, hbare.2]
    · have hbraced : withoutUrn ('{' :: (digits.flatMap spelled ++ ['}'])) =
          '{' :: (digits.flatMap spelled ++ ['}']) := by
        simp [withoutUrn, List.dropPrefix?]
      rw [List.nil_append, hbraced, withoutBraces_braced]
  · obtain rfl | rfl := htext
    · rw [withoutUrn_append hurn, hbare.2]
    · rw [withoutUrn_append hurn, withoutBraces_braced]

theorem parse_iff (text : String) :
    (parseUuidText text).isSome = true ↔ IsUuidText text.toList := by
  rw [parse_isSome, loop_iff]
  constructor
  · rintro ⟨digits, hdigits, hbody⟩
    obtain ⟨urn, hurn, htext⟩ := withoutUrn_cases text.toList
    refine ⟨urn, hurn, digits, hdigits, ?_⟩
    rw [← hbody]
    obtain hbare | hbraced := withoutBraces_cases (withoutUrn text.toList)
    · rw [← hbare]
      exact .inl htext
    · rw [← hbraced]
      exact .inr htext
  · rintro ⟨urn, hurn, digits, hdigits, htext⟩
    exact ⟨digits, hdigits, without_uuid hdigits hurn htext⟩

/-! ## The round trip -/

theorem toDigit16_digitChar {n : Nat} (h : n < 16) : toDigit16 (Nat.digitChar n) = some n := by
  have hall : ∀ n < 16, toDigit16 (Nat.digitChar n) = some n := by decide
  exact hall n h

theorem digitChar_ne_hyphen {n : Nat} (h : n < 16) : Nat.digitChar n ≠ '-' := by
  have hall : ∀ n < 16, Nat.digitChar n ≠ '-' := by decide
  exact hall n h

/-- Two digits are read as the byte they are the text of. -/
theorem loop_hexByte (b : UInt8) {bytes : Bytes} (hroom : bytes.length < 16) (seen : Nat)
    (hyphenAt : Option Nat) :
    (hexByte b).foldlM Scan.step ⟨bytes, none, seen, hyphenAt⟩ =
      some ⟨bytes ++ [b], none, seen + 2, hyphenAt⟩ := by
  have hb := b.toNat_lt
  have hhigh : b.toNat / 16 < 16 := by omega
  have hlow : b.toNat % 16 < 16 := by omega
  have hbyte : UInt8.ofNat (b.toNat / 16 * 16 + b.toNat % 16) = b := by
    rw [Nat.div_add_mod' b.toNat 16]
    exact UInt8.ofNat_toNat
  have hfirst : Scan.step ⟨bytes, none, seen, hyphenAt⟩ (Nat.digitChar (b.toNat / 16)) =
      some ⟨bytes, some (b.toNat / 16), seen + 1, hyphenAt⟩ := by
    rw [Scan.step, if_neg (digitChar_ne_hyphen hhigh), toDigit16_digitChar hhigh]
  have hsecond : Scan.step ⟨bytes, some (b.toNat / 16), seen + 1, hyphenAt⟩
      (Nat.digitChar (b.toNat % 16)) = some ⟨bytes ++ [b], none, seen + 2, hyphenAt⟩ := by
    rw [Scan.step, if_neg (digitChar_ne_hyphen hlow), toDigit16_digitChar hlow]
    dsimp only
    rw [if_neg (Nat.not_le.mpr hroom), hbyte]
  rw [hexByte, List.foldlM_cons, hfirst, Option.bind_eq_bind, Option.bind_some, List.foldlM_cons,
    hsecond]
  rfl

/-- Behind the first `bytes.length` bytes of an identifier, the text of the others is read. -/
theorem loop_uuidText (rest bytes : Bytes) (hyphenAt : Option Nat)
    (hlength : bytes.length + rest.length = 16)
    (hbehind : ∀ place, hyphenAt = some place → place < 2 * bytes.length) :
    ∃ hyphenAt', (((rest.zipIdx bytes.length).map fun (b, index) =>
        if index = 4 ∨ index = 6 ∨ index = 8 ∨ index = 10 then '-' :: hexByte b
        else hexByte b).flatten).foldlM Scan.step ⟨bytes, none, 2 * bytes.length, hyphenAt⟩ =
      some ⟨bytes ++ rest, none, 32, hyphenAt'⟩ := by
  induction rest generalizing bytes hyphenAt with
  | nil =>
    refine ⟨hyphenAt, ?_⟩
    rw [List.append_nil]
    have hfull : 2 * bytes.length = 32 := by
      rw [List.length_nil] at hlength
      omega
    rw [hfull]
    rfl
  | cons b rest ih =>
    rw [List.length_cons] at hlength
    have hroom : bytes.length < 16 := by omega
    have hnext : (bytes ++ [b]).length = bytes.length + 1 := List.length_append
    -- behind this byte the loop goes on, wherever the last hyphen was
    have hread (last : Option Nat) (hlast : ∀ place, last = some place → place ≤ 2 * bytes.length) :
        ∃ hyphenAt', (((rest.zipIdx (bytes.length + 1)).map fun (b, index) =>
            if index = 4 ∨ index = 6 ∨ index = 8 ∨ index = 10 then '-' :: hexByte b
            else hexByte b).flatten).foldlM Scan.step ⟨bytes ++ [b], none, 2 * bytes.length + 2, last⟩ =
          some ⟨bytes ++ b :: rest, none, 32, hyphenAt'⟩ := by
      have hmore : (bytes ++ [b]).length + rest.length = 16 := by omega
      have hloop := ih (bytes ++ [b]) last hmore fun place hplace => by
        have hle := hlast place hplace
        omega
      rw [hnext, Nat.mul_succ, List.append_assoc] at hloop
      exact hloop
    rw [List.zipIdx_cons, List.map_cons, List.flatten_cons, List.foldlM_append]
    dsimp only
    split
    · rename_i hplace
      have hboundary : 2 * bytes.length ∈ boundaries := by
        obtain heq | heq | heq | heq := hplace <;> rw [heq] <;> decide
      have honce : hyphenAt ≠ some (2 * bytes.length) :=
        fun heq => Nat.lt_irrefl _ (hbehind _ heq)
      have hhyphen : Scan.step ⟨bytes, none, 2 * bytes.length, hyphenAt⟩ '-' =
          some ⟨bytes, none, 2 * bytes.length, some (2 * bytes.length)⟩ :=
        Scan.step_hyphen hboundary honce
      rw [List.foldlM_cons, hhyphen, Option.bind_eq_bind, Option.bind_some, loop_hexByte b hroom]
      exact hread _ fun place heq => Nat.le_of_eq (Option.some.inj heq).symm
    · rw [loop_hexByte b hroom]
      exact hread hyphenAt fun place heq => Nat.le_of_lt (hbehind place heq)

theorem parse_uuidText {bytes : Bytes} (h : bytes.length = 16) :
    parseUuidText (uuidText bytes) = some bytes := by
  have hlength : ([] : Bytes).length + bytes.length = 16 := by
    rw [List.length_nil, Nat.zero_add]
    exact h
  obtain ⟨hyphenAt, hloop⟩ := loop_uuidText bytes [] none hlength nofun
  rw [List.length_nil, Nat.mul_zero] at hloop
  cases bytes with
  | nil => exact absurd h (by decide)
  | cons b rest =>
    have hb := b.toNat_lt
    have hdigit : (toDigit16 (Nat.digitChar (b.toNat / 16))).isSome = true := by
      rw [toDigit16_digitChar (by omega)]
      rfl
    have hhead : (uuidText (b :: rest)).toList =
        Nat.digitChar (b.toNat / 16) :: (uuidText (b :: rest)).toList.tail := by
      rw [uuidText, String.toList_ofList, List.zipIdx_cons, List.map_cons, List.flatten_cons]
      rfl
    have hbare := without_digit hdigit (uuidText (b :: rest)).toList.tail
    rw [← hhead] at hbare
    rw [parseUuidText, hbare.1, hbare.2, uuidText, String.toList_ofList, hloop, Option.bind_eq_bind,
      Option.bind_some]
    exact if_pos ⟨h, rfl⟩

/-- Exactly the texts of an identifier are read, and an identifier's own text is read as it. -/
theorem uuid_text_round_trips :
    (∀ text : String, (parseUuidText text).isSome = true ↔ IsUuidText text.toList) ∧
      ∀ bytes : Bytes, bytes.length = 16 → parseUuidText (uuidText bytes) = some bytes :=
  ⟨parse_iff, fun _ h => parse_uuidText h⟩

theorem uuid_text_round_trips_sample :
    (parseUuidText "550E8400e29b-41d4a716-446655440000").isSome = true ∧
      parseUuidText (uuidText (List.replicate 16 0xa1)) = some (List.replicate 16 0xa1) :=
  ⟨by decide +kernel, uuid_text_round_trips.2 _ rfl⟩

end PgTypes
