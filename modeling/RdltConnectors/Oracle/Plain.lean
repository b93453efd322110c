import RdltConnectors.Oracle.Bound

/-!
# A server that reads back what it wrote

ROWIDs are numbers spelled in decimal digits, numbers are written without a zero to spare,
and every literal is read as it stands. What the reader relies on is true of it.
-/
namespace Oracle

open Digits

/-! ## Numbers -/

/-- The number of a mantissa and a scale, zeros at the end dropped. -/
def Number.reduce (mantissa : Int) : Nat → Number
  | 0 => ⟨mantissa, 0, .inl rfl⟩
  | scale + 1 =>
    if h : 10 ∣ mantissa then reduce (mantissa / 10) scale else ⟨mantissa, scale + 1, .inr h⟩

theorem Number.reduce_value (mantissa : Int) (scale : Nat) :
    (reduce mantissa scale).value = mantissa / 10 ^ scale := by
  induction scale generalizing mantissa with
  | zero => rfl
  | succ scale ih =>
    rw [reduce]
    split
    · next hdvd =>
      obtain ⟨m, rfl⟩ := hdvd
      rw [ih, Int.mul_ediv_cancel_left _ (by omega), pow_succ]
      push_cast
      field_simp
    · rfl

def readNumber (text : List Char) : Number :=
  let (negative, body) := stripSign text
  let (whole, fraction) := splitPoint body
  let magnitude : Int := Digits.value (whole ++ fraction)
  .reduce (if negative then -magnitude else magnitude) fraction.length

theorem readNumber_text (d : Decimal) : (readNumber d.text).value = d.value := by
  have hne : (10 : ℚ) ^ d.fraction.length ≠ 0 := by positivity
  simp only [readNumber, d.stripSign_text, d.splitPoint_body, Number.reduce_value, Decimal.value,
    Decimal.magnitude, value_append]
  split
  · push_cast
    field_simp
  · push_cast
    field_simp

/-- Digits, with the fraction as long as the scale. -/
def Number.written (n : Number) : Decimal where
  negative := n.mantissa < 0
  whole := Nat.toDigits 10 (n.mantissa.natAbs / 10 ^ n.scale)
  fraction := if n.scale = 0 then [] else padLeft n.scale (n.mantissa.natAbs % 10 ^ n.scale)
  whole_ne_nil := Nat.toDigits_ne_nil
  whole_digits := allDigits_toDigits _
  fraction_digits := by
    split
    · exact fun _ h => nomatch h
    · exact allDigits_padLeft _ _

theorem Number.written_value (n : Number) : n.written.value = n.value := by
  have hne : (10 : ℚ) ^ n.scale ≠ 0 := by positivity
  have hsplit : ((n.mantissa.natAbs / 10 ^ n.scale : Nat) : ℚ) +
      ((n.mantissa.natAbs % 10 ^ n.scale : Nat) : ℚ) / 10 ^ n.scale =
        (n.mantissa.natAbs : ℚ) / 10 ^ n.scale := by
    rw [eq_div_iff hne, add_mul, div_mul_cancel₀ _ hne]
    exact_mod_cast Nat.div_add_mod' n.mantissa.natAbs (10 ^ n.scale)
  have hmagnitude : n.written.magnitude = (n.mantissa.natAbs : ℚ) / 10 ^ n.scale := by
    have hwhole : n.written.whole = Nat.toDigits 10 (n.mantissa.natAbs / 10 ^ n.scale) := rfl
    have hfraction : n.written.fraction =
        if n.scale = 0 then [] else padLeft n.scale (n.mantissa.natAbs % 10 ^ n.scale) := rfl
    rw [← hsplit, Decimal.magnitude, hwhole, hfraction, value_toDigits]
    by_cases hzero : n.scale = 0
    · simp [hzero, Nat.mod_one]
    · have hpos : 0 < n.scale := Nat.pos_of_ne_zero hzero
      rw [if_neg hzero, value_padLeft, length_padLeft hpos (Nat.mod_lt _ (by positivity))]
  rw [Decimal.value, hmagnitude, value]
  have hcast : ((n.mantissa.natAbs : Nat) : ℚ) = |(n.mantissa : ℚ)| := by
    rw [Nat.cast_natAbs, Int.cast_abs]
  rw [hcast]
  by_cases hneg : n.mantissa < 0
  · rw [if_pos (by simpa [written] using hneg), abs_of_neg (by exact_mod_cast hneg)]
    ring
  · rw [if_neg (by simpa [written] using hneg), abs_of_nonneg (by exact_mod_cast not_lt.mp hneg)]

/-! ## Instants -/

/-- A field of fixed width, and what stands behind its separator. -/
def readField (width : Nat) (text : List Char) : Nat × List Char :=
  (Digits.value (text.take width), text.drop (width + 1))

theorem readField_eq {width n : Nat} (hwidth : 0 < width) (hn : n < 10 ^ width) (c : Char)
    (rest : List Char) : readField width (padLeft width n ++ c :: rest) = (n, rest) := by
  have hlength := length_padLeft hwidth hn
  have htake : (padLeft width n ++ c :: rest).take width = padLeft width n := by
    rw [List.take_append_of_le_length hlength.ge, List.take_of_length_le hlength.le]
  have hdrop : (padLeft width n ++ c :: rest).drop (width + 1) = rest := by
    rw [← List.drop_drop, List.drop_left' hlength]
    rfl
  rw [readField, htake, hdrop, value_padLeft]

def readClock (text : List Char) : Option Stamp :=
  let (year, text) := readField 4 text
  let (month, text) := readField 2 text
  let (day, text) := readField 2 text
  let (hour, text) := readField 2 text
  let (minute, text) := readField 2 text
  let (second, text) := readField 2 text
  let c : Clock := ⟨year, month, day, hour, minute, second, Digits.value (text.take 6) * 1000⟩
  if h : c.Valid then some ⟨c, h⟩ else none

theorem readClock_isoMicros (t : Stamp) (rest : List Char) :
    readClock (isoMicros t.val ++ rest) = some t.truncated := by
  obtain ⟨c, hc⟩ := t
  have hday := hc.day_le.trans (Clock.daysIn_le c.year c.month)
  have hmicro : c.nanosecond / 1000 < 10 ^ 6 := by
    have := hc.nanosecond_lt
    omega
  have hshort : ∀ n, n ≤ 60 → n < 10 ^ 2 := by omega
  have hyearLt : c.year < 10 ^ 4 := by
    have := hc.year_le
    omega
  have hyear : ∀ (x : Char) (rest : List Char),
      readField 4 (padLeft 4 c.year ++ x :: rest) = (c.year, rest) :=
    readField_eq (by omega) hyearLt
  have hfield : ∀ n, n ≤ 60 → ∀ (x : Char) (rest : List Char),
      readField 2 (padLeft 2 n ++ x :: rest) = (n, rest) :=
    fun n hn => readField_eq (by omega) (hshort n hn)
  have hlast : (padLeft 6 (c.nanosecond / 1000) ++ (['+', '0', '0', ':', '0', '0'] ++ rest)).take 6 =
      padLeft 6 (c.nanosecond / 1000) := by
    have hlength : (padLeft 6 (c.nanosecond / 1000)).length = 6 := length_padLeft (by omega) hmicro
    rw [List.take_append_of_le_length hlength.ge, List.take_of_length_le hlength.le]
  have hvalid : (⟨c.year, c.month, c.day, c.hour, c.minute, c.second, c.nanosecond / 1000 * 1000⟩ :
      Clock).Valid := Clock.truncated_valid hc
  simp only [readClock, isoMicros, List.append_assoc, List.cons_append, hyear,
    hfield c.month (by have := hc.month_le; omega), hfield c.day (by omega),
    hfield c.hour (by have := hc.hour_lt; omega), hfield c.minute (by have := hc.minute_lt; omega),
    hfield c.second (by have := hc.second_lt; omega)]
  simp only [List.cons_append, List.nil_append] at hlast
  simp only [List.nil_append, hlast, value_padLeft, hvalid, dif_pos]
  rfl

/-- What stands before the text in a timestamp literal. -/
def literalFront : String := "TO_TIMESTAMP_TZ('"

theorem readClock_literal (t : Stamp) :
    readClock ((timestampLiteral (String.ofList (isoMicros t.val))).toList.drop 17) =
      some t.truncated := by
  have hliteral : timestampLiteral (String.ofList (isoMicros t.val)) =
      literalFront ++ String.ofList (isoMicros t.val) ++
        "', 'YYYY-MM-DD\"T\"HH24:MI:SS.FF6TZH:TZM')" := rfl
  have hfront : literalFront.toList.length = 17 := by decide
  rw [hliteral, String.toList_append, String.toList_append, String.toList_ofList,
    List.append_assoc, List.drop_left' hfront]
  exact readClock_isoMicros t _

/-! ## The server -/

def readLiteral (type : OracleType) (literal : String) : Option (Value Nat) :=
  match type with
  | .binaryFloat | .binaryDouble => some (.float (Digits.value literal.toList))
  | .date | .timestamp _ | .timestampTZ _ | .timestampLTZ _ =>
    (readClock (literal.toList.drop 17)).map .stamp
  | _ => some (.number (readNumber literal.toList))

def Server.plain : Server Nat Nat where
  typeText type := reprStr type
  numberText := Number.written
  floatText f := some (String.ofList (Decimal.ofInt f).text)
  rowidToChar n := String.ofList (Nat.toDigits 10 n)
  charToRowid literal := some (Digits.value (literal.toList.drop 1).dropLast)
  literalValue := readLiteral

theorem Server.plain_exact : Server.plain.Exact where
  number_text := Number.written_value
  number_literal type n d hholds hvalue := by
    have hread : readNumber d.text = n :=
      Number.value_injective ((readNumber_text d).trans hvalue)
    cases type <;> first | exact hholds.elim | skip
    all_goals
      show some (Value.number (readNumber (String.ofList d.text).toList)) = _
      rw [String.toList_ofList, hread]
  stamp_literal type t hholds := by
    have hread : (readClock ((timestampLiteral (String.ofList (isoMicros t.val))).toList.drop 17)).map
        (Value.stamp (F := Nat)) = some (.stamp t.truncated) := by
      rw [readClock_literal, Option.map_some]
    generalize timestampLiteral (String.ofList (isoMicros t.val)) = literal at hread ⊢
    cases type with
    | date | timestamp _ | timestampTZ _ | timestampLTZ _ => exact hread
    | _ => exact hholds.elim
  float_literal type f text literal hholds htext hliteral := by
    cases htext
    rw [Decimal.checked_text] at hliteral
    cases hliteral
    have htoDigits : (Decimal.ofInt f).text = Nat.toDigits 10 f := by
      simp [Decimal.text, Decimal.ofInt]
    have hread : Digits.value (String.ofList (Decimal.ofInt f).text).toList = f := by
      rw [String.toList_ofList, htoDigits, value_toDigits]
    cases type with
    | binaryFloat | binaryDouble => exact congrArg (fun n => some (Value.float n)) hread
    | _ => exact hholds.elim
  rowid_text r := by
    have hchars : (Nat.toDigits 10 r).all (fun c => c.isAlphanum || c == '+' || c == '/') = true := by
      rw [List.all_eq_true]
      intro c hc
      simp [Char.isAlphanum, allDigits_toDigits r c hc]
    have hliteral : rowidLiteral (String.ofList (Nat.toDigits 10 r)) =
        .ok ("'" ++ String.ofList (Nat.toDigits 10 r) ++ "'") := by
      rw [rowidLiteral, String.toList_ofList, hchars, if_neg (by simp [Nat.toDigits_ne_nil])]
      rfl
    refine ⟨_, hliteral, ?_⟩
    show some (Digits.value _) = _
    rw [String.toList_append, String.toList_append, String.toList_ofList]
    simp

/-! ## A stream of it -/

def updatedAt : ColumnInfo := ⟨"UPDATED_AT", .timestamp 7, false⟩

def eventsReader (batchRows : Nat) (h : 0 < batchRows) : Reader Nat Nat :=
  ⟨.plain, "events", "EVENTS", [updatedAt], batchRows, h⟩

def clockValue (c : Clock) : Option (Value Nat) :=
  if h : c.Valid then some (.stamp ⟨c, h⟩) else none

/-- A row stamped so many nanoseconds into a second. -/
def stamped (rowid nanosecond : Nat) : Row Nat Nat where
  rowid := rowid
  values name :=
    if name = "UPDATED_AT" then clockValue ⟨2024, 1, 2, 3, 4, 5, nanosecond⟩ else none

theorem stamped_fits {rowid nanosecond : Nat} (hlt : nanosecond < 10 ^ 9)
    (hdigits : nanosecond % 10 ^ 2 = 0) : (stamped rowid nanosecond).Fits (some updatedAt) := by
  intro column hcolumn
  cases hcolumn
  have hvalid : Clock.Valid ⟨2024, 1, 2, 3, 4, 5, nanosecond⟩ := by
    constructor <;> first | exact hlt | (simp only; decide)
  refine ⟨.stamp ⟨_, hvalid⟩, ?_, hdigits⟩
  show clockValue _ = _
  exact dif_pos hvalid

end Oracle
