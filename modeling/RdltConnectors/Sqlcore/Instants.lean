import Mathlib.Data.Nat.Digits.Defs
import Mathlib.Tactic.Linarith
import RdltConnectors.Sqlcore.Scd2

/-!
# The boundary and the marker

A closed version carries the boundary in its end column and an open one the marker, so the two
must not be one instant to the destination, whose columns hold so many digits of a second and
no more. Validation sees to it that both are zone-explicit timestamps and that their texts
differ; one instant has many texts.
-/
namespace Sqlcore

open Fallible

/-- A timestamp as it is spelled: the date as a number of days, the minute of the day, the
second, the digits behind its point, and the offset to UTC in minutes. -/
structure Rfc3339 where
  day : Int
  minute : Nat
  second : Nat
  fraction : List (Fin 10)
  offset : Int
  /-- 60 in a leap second -/
  second_le : second ≤ 60
  deriving DecidableEq

/-- The minutes that the date and the clock show. -/
def Rfc3339.clock (t : Rfc3339) : Int := t.day * 1440 + t.minute

/-- How finely a destination holds a second, and what it reads of the digits behind the point;
it may round up. -/
structure Resolution where
  perSecond : Nat
  positive : 0 < perSecond
  read : List (Fin 10) → Nat
  read_le : ∀ digits, read digits ≤ perSecond

/-- Of the seconds behind the full minute. -/
def Resolution.seconds (r : Resolution) (t : Rfc3339) : Int :=
  t.second * r.perSecond + r.read t.fraction

def Resolution.minute (r : Resolution) : Int := 60 * r.perSecond

def Resolution.instant (r : Resolution) (t : Rfc3339) : Int :=
  (t.clock - t.offset) * r.minute + r.seconds t

/-- Two spellings of one time: their clocks are as far apart as their offsets, with the same
seconds; or a minute less far, where one rounds up to the minute or shows a leap second. -/
def Respelled (r : Resolution) (t u : Rfc3339) : Prop :=
  (t.clock - u.clock = t.offset - u.offset ∧ r.seconds t = r.seconds u) ∨
    (t.clock - u.clock = t.offset - u.offset - 1 ∧ r.seconds t = r.minute + r.seconds u) ∨
    (t.clock - u.clock = t.offset - u.offset + 1 ∧ r.seconds u = r.minute + r.seconds t)

instance (r : Resolution) (t u : Rfc3339) : Decidable (Respelled r t u) :=
  inferInstanceAs (Decidable ((_ ∧ _) ∨ (_ ∧ _) ∨ (_ ∧ _)))

/-- No seconds are two minutes. -/
theorem seconds_lt (r : Resolution) (t : Rfc3339) :
    0 ≤ r.seconds t ∧ r.seconds t < 2 * r.minute := by
  have hpositive : (0 : Int) < r.perSecond := by exact_mod_cast r.positive
  have hread : (r.read t.fraction : Int) ≤ r.perSecond := by exact_mod_cast r.read_le t.fraction
  have hsecond : (t.second : Int) ≤ 60 := by exact_mod_cast t.second_le
  have hseconds : (t.second : Int) * r.perSecond ≤ 60 * r.perSecond :=
    mul_le_mul_of_nonneg_right hsecond (le_of_lt hpositive)
  unfold Resolution.seconds Resolution.minute
  exact ⟨by positivity, by linarith⟩

/-- Two spellings are one instant to the destination just when they are respelled. -/
theorem instant_eq_iff (r : Resolution) (t u : Rfc3339) :
    r.instant t = r.instant u ↔ Respelled r t u := by
  obtain ⟨htlow, hthigh⟩ := seconds_lt r t
  obtain ⟨hulow, huhigh⟩ := seconds_lt r u
  have hsplit : r.instant t - r.instant u =
      (t.clock - t.offset - (u.clock - u.offset)) * r.minute + (r.seconds t - r.seconds u) := by
    unfold Resolution.instant
    ring
  have hminute : 0 < r.minute := by
    unfold Resolution.minute
    have := r.positive
    omega
  constructor
  · intro hsame
    rw [hsame, sub_self] at hsplit
    generalize hd : t.clock - t.offset - (u.clock - u.offset) = d at hsplit
    -- the seconds cannot make up for two minutes
    have hlow : -2 < d := by
      by_contra hnot
      have : d * r.minute ≤ -2 * r.minute :=
        mul_le_mul_of_nonneg_right (not_lt.mp hnot) (le_of_lt hminute)
      linarith
    have hhigh : d < 2 := by
      by_contra hnot
      have : 2 * r.minute ≤ d * r.minute :=
        mul_le_mul_of_nonneg_right (not_lt.mp hnot) (le_of_lt hminute)
      linarith
    obtain rfl | rfl | rfl : d = 0 ∨ d = -1 ∨ d = 1 := by omega
    · exact .inl ⟨by omega, by linarith⟩
    · exact .inr (.inl ⟨by omega, by linarith⟩)
    · exact .inr (.inr ⟨by omega, by linarith⟩)
  · rintro (⟨hclock, hseconds⟩ | ⟨hclock, hseconds⟩ | ⟨hclock, hseconds⟩)
    · have hd : t.clock - t.offset - (u.clock - u.offset) = 0 := by omega
      rw [hd] at hsplit
      linarith
    · have hd : t.clock - t.offset - (u.clock - u.offset) = -1 := by omega
      rw [hd] at hsplit
      linarith
    · have hd : t.clock - t.offset - (u.clock - u.offset) = 1 := by omega
      rw [hd] at hsplit
      linarith

section Instants

/- The parser of RFC 3339 timestamps, and the destination's columns. -/
variable (parseFromRfc3339 : String → Option Rfc3339) (r : Resolution)

def validateTimestampLiteral (value : String) : Bool := (parseFromRfc3339 value).isSome

/-- The instant that a timestamp in a statement stands for. -/
def instantOf (text : String) : Int := ((parseFromRfc3339 text).map r.instant).getD 0

/-- The boundary is not the marker's instant. -/
def KeepsApart (scd2 : Scd2Options) : Prop :=
  ∀ marker boundary, scd2.activeRecordTimestamp = some marker →
    scd2.boundaryTimestamp = some boundary →
    instantOf parseFromRfc3339 r marker ≠ instantOf parseFromRfc3339 r boundary

/-- No version that is closed at the boundary is read as an open one. -/
def ClosedStaysClosed (scd2 : Scd2Options) : Prop :=
  ∀ boundary (t : Row Int), scd2.boundaryTimestamp = some boundary →
    (isActive (instantOf parseFromRfc3339 r) scd2
      (closeAt scd2.validTo (instantOf parseFromRfc3339 r boundary) t)).holds = false

/-- The boundary is the marker in another spelling. -/
def BoundaryRespelled (scd2 : Scd2Options) : Prop :=
  ∃ marker boundary m b, scd2.activeRecordTimestamp = some marker ∧
    scd2.boundaryTimestamp = some boundary ∧ marker ≠ boundary ∧
    parseFromRfc3339 marker = some m ∧ parseFromRfc3339 boundary = some b ∧ Respelled r m b

variable {parseFromRfc3339} {r}

/-- The history options of a checked table are the defaults or passed their check. -/
theorem scd2_checked {isRfc3339 : String → Bool} {options : DestinationOptions}
    (h : options.validate isRfc3339 = .ok ()) (table : String) :
    options.scd2For table = {} ∨ ∃ opts strategy, opts.scd2 = some (options.scd2For table) ∧
      checkScd2 isRfc3339 table opts strategy = .ok () := by
  have hall : ∀ entry ∈ options.tables, checkTable isRfc3339 options entry.1 entry.2 = .ok () :=
    forM_ok.mp h
  unfold DestinationOptions.scd2For DestinationOptions.tableOptions
  cases hlook : options.tables.lookup table with
  | none => exact .inl rfl
  | some opts =>
    obtain ⟨pre, post, htables, -⟩ := List.lookup_eq_some_iff.1 hlook
    have hchecked := hall (table, opts) (by simp [htables])
    cases hscd2 : opts.scd2 with
    | none => exact .inl (by simp [hscd2])
    | some scd2 =>
      obtain ⟨-, -, hchecked⟩ := bind_ok.1 hchecked
      obtain ⟨-, -, hchecked⟩ := bind_ok.1 hchecked
      obtain ⟨-, -, hchecked⟩ := bind_ok.1 hchecked
      exact .inr ⟨opts, _, by simp [hscd2], hchecked⟩

theorem checkTimestamp_ok {isRfc3339 : String → Bool} {table field value : String}
    (h : checkTimestamp isRfc3339 table field (some value) = .ok ()) : isRfc3339 value = true := by
  rw [checkTimestamp] at h
  split at h
  · assumption
  · cases h

/-- What validation knows of the two timestamps. -/
theorem timestamps_checked {options : DestinationOptions}
    (h : options.validate (validateTimestampLiteral parseFromRfc3339) = .ok ()) {table : String}
    {marker boundary : String}
    (hmarker : (options.scd2For table).activeRecordTimestamp = some marker)
    (hboundary : (options.scd2For table).boundaryTimestamp = some boundary) :
    marker ≠ boundary ∧ ∃ m b, parseFromRfc3339 marker = some m ∧
      parseFromRfc3339 boundary = some b := by
  obtain hdefault | ⟨opts, strategy, hscd2, hchecked⟩ := scd2_checked h table
  · rw [hdefault] at hmarker
    cases hmarker
  · simp only [checkScd2, hscd2, hmarker, hboundary] at hchecked
    split at hchecked
    · cases hchecked
    split at hchecked
    · cases hchecked
    split at hchecked
    · cases hchecked
    obtain ⟨_, hm, hchecked⟩ := bind_ok.1 hchecked
    obtain ⟨_, hb, hchecked⟩ := bind_ok.1 hchecked
    split at hchecked
    · cases hchecked
    rename_i hdiffer
    obtain ⟨m, hparsed⟩ := Option.isSome_iff_exists.1 (checkTimestamp_ok hm)
    obtain ⟨b, hparsed'⟩ := Option.isSome_iff_exists.1 (checkTimestamp_ok hb)
    refine ⟨?_, m, b, hparsed, hparsed'⟩
    rintro rfl
    exact hdiffer ⟨rfl, rfl⟩

theorem instantOf_eq_iff {marker boundary : String} {m b : Rfc3339}
    (hm : parseFromRfc3339 marker = some m) (hb : parseFromRfc3339 boundary = some b) :
    instantOf parseFromRfc3339 r marker = instantOf parseFromRfc3339 r boundary ↔
      Respelled r m b := by
  simp only [instantOf, hm, hb, Option.map_some, Option.getD_some, instant_eq_iff]

/-- In a checked document the two are apart unless one is the other in another spelling. -/
theorem keepsApart_iff {options : DestinationOptions}
    (h : options.validate (validateTimestampLiteral parseFromRfc3339) = .ok ()) (table : String) :
    KeepsApart parseFromRfc3339 r (options.scd2For table) ↔
      ¬ BoundaryRespelled parseFromRfc3339 r (options.scd2For table) := by
  constructor
  · rintro hapart ⟨marker, boundary, m, b, hmarker, hboundary, -, hm, hb, hspelled⟩
    exact hapart marker boundary hmarker hboundary ((instantOf_eq_iff hm hb).2 hspelled)
  · intro hspelled marker boundary hmarker hboundary hsame
    obtain ⟨hne, m, b, hm, hb⟩ := timestamps_checked h hmarker hboundary
    exact hspelled ⟨marker, boundary, m, b, hmarker, hboundary, hne, hm, hb,
      (instantOf_eq_iff hm hb).1 hsame⟩

/-- A version closed at the boundary reads as open just when the boundary is the marker's
instant. -/
theorem closed_holds_iff (scd2 : Scd2Options) (boundary : String) (t : Row Int) :
    (isActive (instantOf parseFromRfc3339 r) scd2
      (closeAt scd2.validTo (instantOf parseFromRfc3339 r boundary) t)).holds = false ↔
    ∀ marker, scd2.activeRecordTimestamp = some marker →
      instantOf parseFromRfc3339 r marker ≠ instantOf parseFromRfc3339 r boundary := by
  have hcell : closeAt scd2.validTo (instantOf parseFromRfc3339 r boundary) t scd2.validTo =
      some (instantOf parseFromRfc3339 r boundary) := if_pos rfl
  unfold isActive
  cases hmarker : scd2.activeRecordTimestamp with
  | none => simp [hcell]
  | some marker => simp [hcell, Sql.eq, eq_comm]

theorem closedStaysClosed_iff (scd2 : Scd2Options) :
    ClosedStaysClosed parseFromRfc3339 r scd2 ↔ KeepsApart parseFromRfc3339 r scd2 := by
  constructor
  · intro hclosed marker boundary hmarker hboundary
    exact (closed_holds_iff scd2 boundary _).1 (hclosed boundary (fun _ => none) hboundary) marker
      hmarker
  · intro hapart boundary t hboundary
    exact (closed_holds_iff scd2 boundary t).2 fun marker hmarker =>
      hapart marker boundary hmarker hboundary

/-- The boundary of a checked document is apart from the marker, and what is closed at it stays
closed, unless the boundary is the marker in another spelling. -/
theorem boundary_apart_iff {options : DestinationOptions}
    (h : options.validate (validateTimestampLiteral parseFromRfc3339) = .ok ()) (table : String) :
    KeepsApart parseFromRfc3339 r (options.scd2For table) ∧
        ClosedStaysClosed parseFromRfc3339 r (options.scd2For table) ↔
      ¬ BoundaryRespelled parseFromRfc3339 r (options.scd2For table) := by
  rw [closedStaysClosed_iff, and_self]
  exact keepsApart_iff h table

end Instants

/-! The last day of the year 9999 as the marker, in columns of microseconds. -/

/-- Six digits, rounded by the seventh. -/
def microseconds : Resolution where
  perSecond := 1000000
  positive := by decide
  read digits := (Nat.ofDigits 10 (((digits ++ List.replicate 7 0).take 7).reverse.map Fin.val) + 5) / 10
  read_le digits := by
    have hlt : Nat.ofDigits 10 (((digits ++ List.replicate 7 0).take 7).reverse.map Fin.val) <
        10 ^ (((digits ++ List.replicate 7 0).take 7).reverse.map Fin.val).length := by
      refine Nat.ofDigits_lt_base_pow_length (by decide) fun d hd => ?_
      obtain ⟨digit, -, rfl⟩ := List.mem_map.mp hd
      exact digit.isLt
    have hlength : (((digits ++ List.replicate 7 0).take 7).reverse.map Fin.val).length = 7 := by
      simp
    rw [hlength] at hlt
    omega

def lastDay (text : String) : Option Rfc3339 :=
  if text = "9999-12-31T00:00:00Z" then some ⟨2932896, 0, 0, [], 0, by decide⟩
  else if text = "9999-12-31T00:00:00.000001Z" then
    some ⟨2932896, 0, 0, [0, 0, 0, 0, 0, 1], 0, by decide⟩
  else if text = "9999-12-31T01:00:00+01:00" then some ⟨2932896, 60, 0, [], 60, by decide⟩
  else if text = "9999-12-30T23:59:59.9999999Z" then
    some ⟨2932895, 1439, 59, [9, 9, 9, 9, 9, 9, 9], 0, by decide⟩
  else none

def historyOptions (boundary : String) : DestinationOptions where
  tables := [("prices",
    { mergeStrategy := some .scd2
      scd2 := some
        { activeRecordTimestamp := some "9999-12-31T00:00:00Z"
          boundaryTimestamp := some boundary } })]

/-- A microsecond is enough. -/
theorem boundary_apart_by_a_microsecond :
    KeepsApart lastDay microseconds
        ((historyOptions "9999-12-31T00:00:00.000001Z").scd2For "prices") ∧
      ClosedStaysClosed lastDay microseconds
        ((historyOptions "9999-12-31T00:00:00.000001Z").scd2For "prices") := by
  refine (boundary_apart_iff (by decide) "prices").2 ?_
  rintro ⟨marker, boundary, m, b, hmarker, hboundary, -, hm, hb, hspelled⟩
  cases hmarker
  cases hboundary
  cases hm
  cases hb
  exact absurd hspelled (by decide)

/-- The checks pass a boundary that is the marker. -/
def AcceptsMarker (boundary : String) : Prop :=
  (historyOptions boundary).validate (validateTimestampLiteral lastDay) = .ok () ∧
    ¬ KeepsApart lastDay microseconds ((historyOptions boundary).scd2For "prices") ∧
    ¬ ClosedStaysClosed lastDay microseconds ((historyOptions boundary).scd2For "prices")

theorem acceptsMarker_of_same {boundary : String}
    (hvalid : (historyOptions boundary).validate (validateTimestampLiteral lastDay) = .ok ())
    (hsame : instantOf lastDay microseconds "9999-12-31T00:00:00Z" =
      instantOf lastDay microseconds boundary) : AcceptsMarker boundary := by
  have hapart : ¬ KeepsApart lastDay microseconds ((historyOptions boundary).scd2For "prices") :=
    fun h => h _ _ rfl rfl hsame
  exact ⟨hvalid, hapart, fun h => hapart ((closedStaysClosed_iff _).1 h)⟩

/-- The marker's instant at another offset passes the checks, and so does a time that rounds up
to it. -/
theorem respelled_boundary_accepted :
    AcceptsMarker "9999-12-31T01:00:00+01:00" ∧ AcceptsMarker "9999-12-30T23:59:59.9999999Z" :=
  ⟨acceptsMarker_of_same (by decide) (by decide), acceptsMarker_of_same (by decide) (by decide)⟩

end Sqlcore
