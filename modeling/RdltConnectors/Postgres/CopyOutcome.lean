import Mathlib
import RdltConnectors.Postgres.CopyRoundTrip

/-!
# What a copy refuses

With a driver that does not fail, a batch is copied to its end exactly if every cell can be
encoded; else the copy is given up at the first cell that cannot, and the error names its column.
-/
namespace PgTypes

open Words Fallible

/-- The values that have an encoding. -/
def Encodable (chrono : Chrono) : Wire → Cell → Prop
  | .timestampTz, .timestamp microseconds | .timestampNaive, .timestamp microseconds =>
    chrono.firstDay ≤ microseconds / microsecondsPerDay ∧
      microseconds / microsecondsPerDay ≤ chrono.lastDay
  | .date, .date days => chrono.firstDay ≤ days ∧ days ≤ chrono.lastDay
  | .time, .time raw => 0 ≤ raw ∧ raw < microsecondsPerDay
  | .text, .text value => (utf8 value).length < 2 ^ 31
  | .jsonb, .text document => (utf8 document).length + 1 < 2 ^ 31
  | .bytea, .binary value => value.length < 2 ^ 31
  | .uuid, .text value => IsUuidText value.toList
  | _, _ => True

def EncodableCell (chrono : Chrono) (wire : Wire) : Option Cell → Prop
  | none => True
  | some cell => Encodable chrono wire cell

section Cells

variable {chrono : Chrono} {wire : Wire} {cell : Cell} {value out : Bytes} {e : Fault}

theorem framed_ok (h : value.length < 2 ^ 31) :
    framed value out = .ok (out ++ putI32 value.length ++ value) := if_pos h

theorem framed_refused (h : ¬value.length < 2 ^ 31) :
    framed value out = .error (.refused "value exceeds 2 GiB") := if_neg h

theorem encodeTimestamp_iff (hchrono : chrono.Documented) (microseconds : Int) :
    encodeTimestamp chrono microseconds =
      if chrono.firstDay ≤ microseconds / microsecondsPerDay ∧
          microseconds / microsecondsPerDay ≤ chrono.lastDay then
        .ok (putI64 (microseconds - pgEpochMicroseconds))
      else .error (.refused "timestamp out of range") := by
  simp only [encodeTimestamp]
  split
  · rename_i hday
    have hfirst := hchrono.first
    have hlast := hchrono.last
    apply if_pos
    simp only [microsecondsPerDay, pgEpochMicroseconds] at *
    constructor <;> omega
  · rfl

theorem encodeDate_iff (hchrono : chrono.Documented) (days : Int) :
    encodeDate chrono days =
      if chrono.firstDay ≤ days ∧ days ≤ chrono.lastDay then .ok (putI32 (days - pgEpochDays))
      else .error (.refused "date out of range") := by
  have hfirst := hchrono.first
  have hlast := hchrono.last
  rw [encodeDate]
  split
  · rename_i hday
    rw [if_pos hday.2]
    apply if_pos
    simp only [pgEpochDays]
    constructor <;> omega
  · rename_i hday
    rw [if_neg]
    intro hrange
    apply hday
    refine ⟨?_, hrange⟩
    simp only [daysToCommonEra]
    constructor <;> omega

/-- A cell is appended as a field. -/
def Appends (chrono : Chrono) (wire : Wire) (cell : Option Cell) (out : Bytes) : Prop :=
  ∃ next, appendField chrono wire cell out = .ok next

/-- A cell is refused with a reason. -/
def Refuses (chrono : Chrono) (wire : Wire) (cell : Option Cell) (out : Bytes) : Prop :=
  ∃ detail, appendField chrono wire cell out = .error (.refused detail)

theorem appends_of_value (hvalue : encodeValue chrono wire cell = .ok value)
    (hsmall : value.length < 2 ^ 31) : Appends chrono wire (some cell) out := by
  refine ⟨out ++ putI32 value.length ++ value, ?_⟩
  rw [appendField, hvalue]
  exact framed_ok hsmall

theorem refuses_of_value {detail : String}
    (hvalue : encodeValue chrono wire cell = .error (.refused detail)) :
    Refuses chrono wire (some cell) out := by
  refine ⟨detail, ?_⟩
  rw [appendField, hvalue]
  rfl

/-- A value of any length is appended or refused by its length. -/
theorem appends_or_refuses (hvalue : encodeValue chrono wire cell = .ok value) :
    value.length < 2 ^ 31 ∧ Appends chrono wire (some cell) out ∨
      ¬value.length < 2 ^ 31 ∧ Refuses chrono wire (some cell) out := by
  by_cases hsmall : value.length < 2 ^ 31
  · exact .inl ⟨hsmall, appends_of_value hvalue hsmall⟩
  · refine .inr ⟨hsmall, "value exceeds 2 GiB", ?_⟩
    rw [appendField, hvalue]
    exact framed_refused hsmall

theorem length_wire_lt {scale : UInt8} {n : Int} (h : fits 128 n) :
    (numericOf n scale.toNat).wire.length < 2 ^ 31 := by
  have hgroups := paddedGroups_length scale.toNat (natAbs_of_fits h)
  have hdrop := length_dropWhile_le (fun digit => decide (digit = 0))
    (paddedGroups n.natAbs scale.toNat)
  have hdigits : (numericOf n scale.toNat).digits.length ≤ 11 := by
    rw [numericOf]
    split
    · exact Nat.zero_le 11
    · rw [List.length_reverse]
      omega
  have hflat : ((numericOf n scale.toNat).digits.flatMap put16).length =
      2 * (numericOf n scale.toNat).digits.length := by
    simp [List.length_flatMap, Nat.mul_comm]
  rw [Numeric.wire]
  simp only [List.length_append, length_putI16, length_put16, hflat]
  omega

/-- A cell is appended if it has an encoding, and else refused. -/
theorem appends_iff (hchrono : chrono.Documented) (hcell : wire.Carries cell) (out : Bytes) :
    Encodable chrono wire cell ∧ Appends chrono wire (some cell) out ∨
      ¬Encodable chrono wire cell ∧ Refuses chrono wire (some cell) out := by
  cases hcell with
  | bool => exact .inl ⟨trivial, appends_of_value rfl (by simp)⟩
  | int8 => exact .inl ⟨trivial, appends_of_value rfl (by rw [putI64, length_put]; decide)⟩
  | float8 => exact .inl ⟨trivial, appends_of_value rfl (by rw [length_put]; decide)⟩
  | @text value => exact @appends_or_refuses chrono .text (.text value) (utf8 value) out rfl
  | @bytea value => exact @appends_or_refuses chrono .bytea (.binary value) value out rfl
  | @jsonb document =>
    exact @appends_or_refuses chrono .jsonb (.text document) (1 :: utf8 document) out rfl
  | @timestampTz microseconds =>
    have hvalue : encodeValue chrono .timestampTz (.timestamp microseconds) = _ :=
      encodeTimestamp_iff hchrono microseconds
    split at hvalue
    · rename_i hday
      exact .inl ⟨hday, appends_of_value hvalue (by rw [putI64, length_put]; decide)⟩
    · rename_i hday
      exact .inr ⟨hday, refuses_of_value hvalue⟩
  | @timestampNaive microseconds =>
    have hvalue : encodeValue chrono .timestampNaive (.timestamp microseconds) = _ :=
      encodeTimestamp_iff hchrono microseconds
    split at hvalue
    · rename_i hday
      exact .inl ⟨hday, appends_of_value hvalue (by rw [putI64, length_put]; decide)⟩
    · rename_i hday
      exact .inr ⟨hday, refuses_of_value hvalue⟩
  | @date days =>
    have hvalue : encodeValue chrono .date (.date days) = _ := encodeDate_iff hchrono days
    split at hvalue
    · rename_i hday
      exact .inl ⟨hday, appends_of_value hvalue (by rw [putI32, length_put]; decide)⟩
    · rename_i hday
      exact .inr ⟨hday, refuses_of_value hvalue⟩
  | @time raw =>
    have hvalue : encodeValue chrono .time (.time raw) = _ := encodeTime.eq_1 raw
    split at hvalue
    · rename_i hday
      exact .inl ⟨hday, appends_of_value hvalue (by rw [putI64, length_put]; decide)⟩
    · rename_i hday
      exact .inr ⟨hday, refuses_of_value hvalue⟩
  | @numeric scale n h =>
    have hvalue : encodeValue chrono (.numeric scale) (.decimal n) =
        .ok (numericOf n scale.toNat).wire := by
      rw [encodeValue, appendNumeric_wire scale [] (natAbs_of_fits h)]
      rfl
    exact .inl ⟨trivial, appends_of_value hvalue (length_wire_lt h)⟩
  | @uuid text =>
    have hiff := parse_iff text
    cases hparse : parseUuidText text with
    | none =>
      have hvalue : encodeValue chrono .uuid (.text text) =
          .error (.refused s!"`{text}` is not a canonical uuid") := by
        rw [encodeValue, hparse]
      rw [hparse] at hiff
      exact .inr ⟨fun huuid => absurd (hiff.2 huuid) Bool.false_ne_true, refuses_of_value hvalue⟩
    | some bytes =>
      have hvalue : encodeValue chrono .uuid (.text text) = .ok bytes := by
        rw [encodeValue, hparse]
      rw [hparse] at hiff
      refine .inl ⟨hiff.1 rfl, appends_of_value hvalue ?_⟩
      rw [parseUuidText_length hparse]
      decide

end Cells

/-! ## Rows -/

def EncodableRow (chrono : Chrono) (encoders : List (String × Encoder)) (row : Nat) : Prop :=
  ∀ encoder ∈ encoders, EncodableCell chrono encoder.2.wire (encoder.2.cell row)

/-- The error of the first cell of a row that cannot be encoded. -/
def RefusedIn (chrono : Chrono) (encoders : List (String × Encoder)) (row : Nat)
    (e : WriteError) : Prop :=
  ∃ (before : List (String × Encoder)) (name : String) (encoder : Encoder)
    (after : List (String × Encoder)) (detail : String),
    encoders = before ++ (name, encoder) :: after ∧ EncodableRow chrono before row ∧
      ¬EncodableCell chrono encoder.wire (encoder.cell row) ∧
      e = writeFatal s!"column `{name}`: {detail}"

/-- The driver never fails. -/
structure Sink.Healthy (sink : Sink) : Prop where
  opens : sink.opens = none
  feeds : ∀ n, sink.feeds n = none
  flushes : sink.flushes = none
  finishes : sink.finishes = none

section Rows

variable {chrono : Chrono} {encoders : List (String × Encoder)} {row : Nat} {out : Bytes}

theorem cell_cases (hchrono : chrono.Documented) (encoder : Encoder) (row : Nat) (out : Bytes) :
    EncodableCell chrono encoder.wire (encoder.cell row) ∧
        Appends chrono encoder.wire (encoder.cell row) out ∨
      ¬EncodableCell chrono encoder.wire (encoder.cell row) ∧
        Refuses chrono encoder.wire (encoder.cell row) out := by
  cases hcell : encoder.cell row with
  | none => exact .inl ⟨trivial, out ++ putI32 (-1), rfl⟩
  | some cell => exact appends_iff hchrono (cell_carries hcell) out

theorem appendRow_cases (hchrono : chrono.Documented) (encoders : List (String × Encoder))
    (row : Nat) (out : Bytes) :
    (EncodableRow chrono encoders row ∧ ∃ next, appendRow chrono row encoders out = .ok next) ∨
      ∃ e, RefusedIn chrono encoders row e ∧ appendRow chrono row encoders out = .error e := by
  induction encoders generalizing out with
  | nil => exact .inl ⟨fun encoder hmem => absurd hmem List.not_mem_nil, out, rfl⟩
  | cons encoder encoders ih =>
    obtain ⟨name, encoder⟩ := encoder
    obtain ⟨hcell, next, hnext⟩ | ⟨hcell, detail, hdetail⟩ := cell_cases hchrono encoder row out
    · have hrow : appendRow chrono row ((name, encoder) :: encoders) out =
          appendRow chrono row encoders next := by
        rw [appendRow, Encoder.appendField]
        change (((appendField chrono encoder.wire (encoder.cell row) out).mapError
          (Fault.inColumn name)) >>= fun out => appendRow chrono row encoders out) = _
        rw [hnext]
        rfl
      rw [hrow]
      obtain ⟨hrest, hok⟩ | ⟨e, hrefused, herror⟩ := ih next
      · exact .inl ⟨List.forall_mem_cons.2 ⟨hcell, hrest⟩, hok⟩
      · obtain ⟨before, other, bad, after, detail, rfl, hbefore, hbad, rfl⟩ := hrefused
        exact .inr ⟨_, ⟨(name, encoder) :: before, other, bad, after, detail, rfl,
          List.forall_mem_cons.2 ⟨hcell, hbefore⟩, hbad, rfl⟩, herror⟩
    · right
      refine ⟨writeFatal s!"column `{name}`: {detail}", ⟨[], name, encoder, encoders, detail, rfl,
        fun encoder hmem => absurd hmem List.not_mem_nil, hcell, rfl⟩, ?_⟩
      rw [appendRow, Encoder.appendField]
      change (((appendField chrono encoder.wire (encoder.cell row) out).mapError
        (Fault.inColumn name)) >>= fun out => appendRow chrono row encoders out) = _
      rw [hdetail]
      rfl

theorem sendRows_cases (hchrono : chrono.Documented) {sink : Sink} (hsink : sink.Healthy)
    (rows : List Nat) (buffer : Bytes) (sent : List Bytes) :
    ((∀ row ∈ rows, EncodableRow chrono encoders row) ∧
        ∃ after final, sendRows chrono sink encoders rows buffer sent = (after, .ok final)) ∨
      ∃ before row behind e after, rows = before ++ row :: behind ∧
        (∀ row ∈ before, EncodableRow chrono encoders row) ∧ RefusedIn chrono encoders row e ∧
        sendRows chrono sink encoders rows buffer sent = (after, .error e) := by
  induction rows generalizing buffer sent with
  | nil => exact .inl ⟨fun row hmem => absurd hmem List.not_mem_nil, sent, buffer, rfl⟩
  | cons row rows ih =>
    obtain ⟨hrow, next, hnext⟩ | ⟨e, hrefused, herror⟩ :=
      appendRow_cases hchrono encoders row (buffer ++ putI16 encoders.length)
    · have hgoes : ∃ buffer' sent', sendRows chrono sink encoders (row :: rows) buffer sent =
          sendRows chrono sink encoders rows buffer' sent' := by
        rw [sendRows, hnext]
        dsimp only
        split
        · rw [hsink.feeds]
          exact ⟨_, _, rfl⟩
        · exact ⟨_, _, rfl⟩
      obtain ⟨buffer', sent', hgoes⟩ := hgoes
      rw [hgoes]
      obtain ⟨hrest, hok⟩ | ⟨before, bad, behind, e, after, rfl, hbefore, hrefused, herror⟩ :=
        ih buffer' sent'
      · exact .inl ⟨List.forall_mem_cons.2 ⟨hrow, hrest⟩, hok⟩
      · exact .inr ⟨row :: before, bad, behind, e, after, rfl,
          List.forall_mem_cons.2 ⟨hrow, hbefore⟩, hrefused, herror⟩
    · right
      refine ⟨[], row, rows, e, sent, rfl, fun row hmem => absurd hmem List.not_mem_nil, hrefused, ?_⟩
      rw [sendRows, herror]

end Rows

/-! ## Whole copies -/

section Copies

variable {chrono : Chrono} {sink : Sink} {relation : String} {tableSchema : Option Sqlcore.TableSchema}
  {batch : RecordBatch} {encoders : List (String × Encoder)}

theorem sendRows_ne_panic (hchrono : chrono.Documented) (sink : Sink) (rows : List Nat)
    (buffer : Bytes) (sent : List Bytes) :
    (sendRows chrono sink encoders rows buffer sent).2 ≠ .error .panic := by
  induction rows generalizing buffer sent with
  | nil => exact fun h => by cases h
  | cons row rows ih =>
    rw [sendRows]
    obtain ⟨-, next, hnext⟩ | ⟨e, hrefused, herror⟩ :=
      appendRow_cases hchrono encoders row (buffer ++ putI16 encoders.length)
    · rw [hnext]
      dsimp only
      split
      · split
        · exact fun h => by cases h
        · exact ih _ _
      · exact ih _ _
    · obtain ⟨_, _, _, _, _, _, _, _, rfl⟩ := hrefused
      rw [herror]
      exact fun h => by cases h

theorem finishCopy_ne_panic (sink : Sink) (buffer : Bytes) (sent : List Bytes) :
    (finishCopy sink buffer sent).2 ≠ .error .panic := by
  rw [finishCopy]
  split
  · exact fun h => by cases h
  · dsimp only
    split <;> exact fun h => by cases h

/-- What is in front of an element of a range are the numbers below it. -/
theorem range_split {n row : Nat} {before behind : List Nat}
    (h : List.range n = before ++ row :: behind) :
    row < n ∧ ∀ earlier < row, earlier ∈ before := by
  have hlength := congrArg List.length h
  rw [List.length_range, List.length_append, List.length_cons] at hlength
  have hat (i : Nat) (hi : i < n) : (before ++ row :: behind)[i]? = some i := by
    rw [← h, List.getElem?_range hi]
  have hrow := hat before.length (by omega)
  rw [List.getElem?_append_right (Nat.le_refl _), Nat.sub_self, List.getElem?_cons_zero] at hrow
  cases hrow
  refine ⟨by omega, fun earlier hless => ?_⟩
  have hearlier := hat earlier (by omega)
  rw [List.getElem?_append_left hless] at hearlier
  exact List.mem_of_getElem? hearlier

/-- With a driver that does not fail a batch is copied to its end if every cell has an encoding;
else it is given up with the error of the first cell that has none, row by row. With any driver the
encoder does not panic. -/
theorem copy_outcome (hchrono : chrono.Documented)
    (hencoders : encodersOf chrono tableSchema batch = .ok encoders) (relation : String) :
    (∀ sink, (copyBatch chrono sink relation tableSchema batch).outcome ≠ .error .panic) ∧
    ∀ sink : Sink, sink.Healthy →
      ((∀ row < batch.numRows, EncodableRow chrono encoders row) ∧
          (copyBatch chrono sink relation tableSchema batch).outcome = .ok ()) ∨
        ∃ row < batch.numRows, ∃ e, (∀ earlier < row, EncodableRow chrono encoders earlier) ∧
          RefusedIn chrono encoders row e ∧
          (copyBatch chrono sink relation tableSchema batch).outcome = .error e := by
  constructor
  · intro sink
    cases hopens : sink.opens with
    | some error =>
      simp only [copyBatch, hencoders, hopens]
      exact fun h => by cases h
    | none =>
      have hrows := @sendRows_ne_panic chrono encoders hchrono sink (List.range batch.numRows)
        copyInHeader []
      cases hsent : sendRows chrono sink encoders (List.range batch.numRows) copyInHeader [] with
      | mk sent sending =>
        rw [hsent] at hrows
        cases sending with
        | error e =>
          simp only [copyBatch, hencoders, hopens, hsent]
          exact fun h => hrows (congrArg _ (Except.error.inj h))
        | ok buffer =>
          simp only [copyBatch, hencoders, hopens, hsent]
          exact finishCopy_ne_panic sink buffer sent
  · intro sink hsink
    obtain ⟨hrows, after, final, hsent⟩ | ⟨before, row, behind, e, after, hsplit, hbefore, hrefused,
        hsent⟩ := sendRows_cases hchrono hsink (List.range batch.numRows) copyInHeader []
    · left
      refine ⟨fun row hrow => hrows row (List.mem_range.2 hrow), ?_⟩
      simp only [copyBatch, hencoders, hsink.opens, hsent, finishCopy, hsink.feeds, hsink.flushes,
        hsink.finishes, Option.or_none]
    · right
      obtain ⟨hrow, hearlier⟩ := range_split hsplit
      refine ⟨row, hrow, e, fun earlier hless => hbefore earlier (hearlier earlier hless), hrefused,
        ?_⟩
      simp only [copyBatch, hencoders, hsink.opens, hsent]

end Copies

theorem prices_copied :
    (∀ sink, (copyBatch wideCalendar sink "prices" (some priceSchema) priceBatch).outcome ≠
      .error .panic) ∧
    ∀ sink : Sink, sink.Healthy →
      ((∀ row < 2, EncodableRow wideCalendar priceEncoders row) ∧
          (copyBatch wideCalendar sink "prices" (some priceSchema) priceBatch).outcome = .ok ()) ∨
        ∃ row < 2, ∃ e, (∀ earlier < row, EncodableRow wideCalendar priceEncoders earlier) ∧
          RefusedIn wideCalendar priceEncoders row e ∧
          (copyBatch wideCalendar sink "prices" (some priceSchema) priceBatch).outcome = .error e :=
  copy_outcome wideCalendar_documented price_encoders "prices"

end PgTypes
