import Mathlib
import RdltConnectors.Postgres.CopyChunks
import RdltConnectors.Postgres.CopyIn

/-!
# What is written is what is read

The stream of a finished copy is one that the decoder accepts, with the rows of the batch in their
order, in whatever chunks it comes back. Of decimals it reads those that its accumulation has room
for.
-/
namespace PgTypes

open Words Fallible

/-! ## Values -/

/-- The kind of column that reads the wire type. -/
def Wire.Reads : Wire → Kind → Prop
  | .bool, .bool => True
  | .int8, .int64 => True
  | .float8, .float64 => True
  | .text, .text => True
  | .bytea, .bytea => True
  | .timestampTz, .timestampTz => True
  | .timestampNaive, .timestampNaive => True
  | .date, .date => True
  | .time, .time => True
  | .numeric scale, .decimal _ readScale => readScale = scale.toNat
  | .jsonb, .jsonb => True
  | .uuid, .uuid => True
  | _, _ => False

/-- A value as it comes back: an identifier in its canonical text, any other as it is. -/
def Wire.landed : Wire → Cell → Cell
  | .uuid, .text value => .text (uuidText ((parseUuidText value).getD []))
  | _, cell => cell

/-- The values that come back: all but decimals that leave no room for their padding. -/
def Wire.readsBack : Wire → Cell → Prop
  | .numeric scale, .decimal value => accumulates value.natAbs scale.toNat
  | _, _ => True

section Values

variable {chrono : Chrono} {bytes : Bytes} {kind : Kind}

theorem bigEndianI64_putI64 {n : Int} (h : fits 64 n) : bigEndianI64 (putI64 n) = .ok n := by
  have hword := @signed_put 8 n (by decide) h.1 h.2
  rw [bigEndianI64, putI64, if_pos (length_put 8 _)]
  exact congrArg Except.ok hword

theorem bigEndianI32_putI32 {n : Int} (h : fits 32 n) : bigEndianI32 (putI32 n) = .ok n := by
  have hword := @signed_put 4 n (by decide) h.1 h.2
  rw [bigEndianI32, putI32, if_pos (length_put 4 _)]
  exact congrArg Except.ok hword

theorem fromUtf8_utf8 (text error : String) : fromUtf8 (utf8 text) error = .ok text := by
  have hbytes : (⟨(utf8 text).toArray⟩ : ByteArray) = text.toUTF8 := by
    rw [utf8, Array.toArray_toList]
  have hvalid : text.toUTF8.IsValidUTF8 := text.isValidUTF8
  rw [fromUtf8, hbytes, String.fromUTF8?, dif_pos hvalid]
  rfl

theorem rebase_back {bits : Nat} {value offset : Int} (hlow : -2 ^ (bits - 1) < value - offset)
    (hoffset : 0 < offset) (hhigh : value < 2 ^ (bits - 1)) :
    rebase bits (value - offset) offset = value := by
  rw [rebase, if_neg (by omega), if_pos (by omega)]
  omega

theorem encodeTimestamp_ok (hchrono : chrono.Documented) {microseconds : Int}
    (h : encodeTimestamp chrono microseconds = .ok bytes) :
    (bigEndianI64 bytes).map (fun n => Cell.timestamp (rebaseTimestamp n)) =
      .ok (.timestamp microseconds) := by
  simp only [encodeTimestamp] at h
  split at h
  · rename_i hday
    split at h
    · rename_i hfits
      cases h
      have hfirst := hchrono.first
      have hlast := hchrono.last
      have hback : rebaseTimestamp (microseconds - pgEpochMicroseconds) = microseconds := by
        apply rebase_back
        · simp only [microsecondsPerDay, pgEpochMicroseconds] at *
          omega
        · decide
        · simp only [microsecondsPerDay] at *
          omega
      rw [bigEndianI64_putI64 hfits, Except.map, hback]
    · cases h
  · cases h

theorem encodeDate_ok (hchrono : chrono.Documented) {days : Int}
    (h : encodeDate chrono days = .ok bytes) :
    (bigEndianI32 bytes).map (fun n => Cell.date (rebaseDate n)) = .ok (.date days) := by
  rw [encodeDate] at h
  split at h
  · rename_i hday
    split at h
    · rename_i hfits
      cases h
      have hfirst := hchrono.first
      have hlast := hchrono.last
      have hback : rebaseDate (days - pgEpochDays) = days := by
        apply rebase_back
        · simp only [pgEpochDays] at *
          omega
        · decide
        · omega
      rw [bigEndianI32_putI32 hfits, Except.map, hback]
    · cases h
  · cases h

theorem encodeTime_ok {raw : Int} (h : encodeTime raw = .ok bytes) :
    (bigEndianI64 bytes).map Cell.time = .ok (.time raw) := by
  rw [encodeTime] at h
  split at h
  · rename_i hday
    cases h
    have hwhole : raw / 1000000 * 1000000 + raw % 1000000 * 1000 / 1000 = raw := by omega
    have hfits : fits 64 raw := by
      simp only [microsecondsPerDay] at hday
      constructor <;> omega
    rw [hwhole, bigEndianI64_putI64 hfits]
    rfl
  · cases h

theorem parseUuidText_length {text : String} (h : parseUuidText text = some bytes) :
    bytes.length = 16 := by
  rw [parseUuidText, Option.bind_eq_bind, Option.bind_eq_some_iff] at h
  obtain ⟨s, -, h⟩ := h
  split at h
  · rename_i hfull
    cases h
    exact hfull.1
  · cases h

theorem accumulate_lt {count accumulated result : Nat} {rest : Bytes}
    (hstart : accumulated < i128Bound) (h : accumulate count rest accumulated = .ok result) :
    result < i128Bound := by
  induction count generalizing rest accumulated with
  | zero =>
    cases h
    exact hstart
  | succ count ih =>
    cases rest with
    | nil => cases h
    | cons a rest =>
      cases rest with
      | nil => cases h
      | cons b rest =>
        rw [accumulate] at h
        split at h
        · cases h
        · split at h
          · cases h
          · rename_i hroom
            exact ih (Nat.lt_of_not_ge hroom) h

theorem scaleUp_lt {n value result : Nat} (hvalue : value < i128Bound)
    (h : scaleUp n value = .ok result) : result < i128Bound := by
  induction n generalizing value with
  | zero =>
    cases h
    exact hvalue
  | succ n ih =>
    rw [scaleUp] at h
    split at h
    · cases h
    · rename_i hroom
      exact ih (Nat.lt_of_not_ge hroom) h

theorem scaleDown_le {n value result : Nat} (h : scaleDown n value = .ok result) :
    result ≤ value := by
  induction n generalizing value with
  | zero =>
    cases h
    exact Nat.le_refl _
  | succ n ih =>
    rw [scaleDown] at h
    split at h
    · cases h
    · exact Nat.le_trans (ih h) (Nat.div_le_self value 10)

/-- What a decimal is read as stays within `i128`, without its lowest number. -/
theorem decodeNumeric_lt {field : Bytes} {scale : Nat} {value : Int}
    (h : decodeNumeric field scale = .ok value) : value.natAbs < i128Bound := by
  rw [decodeNumeric] at h
  split at h
  · cases h
  · obtain ⟨digitCount, -, h⟩ := bind_ok.1 h
    obtain ⟨weight, -, h⟩ := bind_ok.1 h
    obtain ⟨negative, -, h⟩ := bind_ok.1 h
    split at h
    · cases h
    · obtain ⟨accumulated, haccumulate, h⟩ := bind_ok.1 h
      obtain ⟨magnitude, hrescale, h⟩ := bind_ok.1 h
      have hstart : accumulated < i128Bound := accumulate_lt (by decide) haccumulate
      have hmagnitude : magnitude < i128Bound := by
        rw [rescale] at hrescale
        split at hrescale
        · exact scaleUp_lt hstart hrescale
        · exact Nat.lt_of_le_of_lt (scaleDown_le hrescale) hstart
      cases h
      cases negative with
      | true => simpa using hmagnitude
      | false => simpa using hmagnitude

theorem natAbs_of_fits {value : Int} (h : fits 128 value) : value.natAbs ≤ i128Bound := by
  have hlow : -2 ^ 127 ≤ value := h.1
  have hhigh : value < 2 ^ 127 := h.2
  rw [i128Bound]
  omega

/-- The magnitude that only the lowest number has is never accumulated. -/
theorem not_accumulates_bound (scale : Nat) : ¬accumulates i128Bound scale := by
  have hpad := padOf_lt scale
  rintro (hdvd | hless)
  · have hten : 10 ∣ i128Bound := by
      apply Nat.dvd_trans _ hdvd
      apply dvd_pow_self
      omega
    revert hten
    decide
  · exact absurd hless (Nat.not_lt.2 (Nat.le_mul_of_pos_right _ (Nat.pow_pos (by decide))))

/-- A decimal comes back exactly if the accumulation has room for it. -/
theorem numeric_back {scale : UInt8} {value : Int} (hfits : fits 128 value)
    (h : appendNumeric value scale [] = some bytes) :
    (decodeNumeric bytes scale.toNat).map Cell.decimal = .ok (.decimal value) ↔
      accumulates value.natAbs scale.toNat := by
  have hmost := natAbs_of_fits hfits
  rw [appendNumeric_wire scale [] hmost, List.nil_append] at h
  cases h
  by_cases hbound : value.natAbs < i128Bound
  · rw [decodeNumeric_numericOf hbound]
    split
    · rename_i hroom
      exact iff_of_true rfl hroom
    · rename_i hroom
      exact iff_of_false (fun h => by cases h) hroom
  · have hlowest : value.natAbs = i128Bound := by omega
    rw [hlowest]
    apply iff_of_false _ (not_accumulates_bound scale.toNat)
    intro hback
    obtain ⟨read, hread, hsame⟩ := map_ok.1 hback
    cases hsame
    exact hbound (decodeNumeric_lt hread)

/-- The values of the arrays that an encoder of the wire type casts to. -/
inductive Wire.Carries : Wire → Cell → Prop
  | bool {value : Bool} : Carries .bool (.bool value)
  | int8 {value : Int} (h : fits 64 value) : Carries .int8 (.int64 value)
  | float8 {word : Nat} (h : word < 2 ^ 64) : Carries .float8 (.float64 word)
  | text {value : String} : Carries .text (.text value)
  | bytea {value : Bytes} : Carries .bytea (.binary value)
  | timestampTz {microseconds : Int} : Carries .timestampTz (.timestamp microseconds)
  | timestampNaive {microseconds : Int} : Carries .timestampNaive (.timestamp microseconds)
  | date {days : Int} : Carries .date (.date days)
  | time {raw : Int} : Carries .time (.time raw)
  | numeric {scale : UInt8} {value : Int} (h : fits 128 value) :
    Carries (.numeric scale) (.decimal value)
  | jsonb {document : String} : Carries .jsonb (.text document)
  | uuid {value : String} : Carries .uuid (.text value)

theorem carries_of_cast {wire : Wire} {dataType : DataType} {cell : Cell}
    (hcast : wire.casts dataType = true) (hholds : dataType.Holds cell) : wire.Carries cell := by
  cases dataType with
  | boolean =>
    cases cell with
    | bool value =>
      cases wire with
      | bool => exact .bool
      | _ => cases hcast
    | _ => cases hholds
  | int64 =>
    cases cell with
    | int64 value =>
      cases wire with
      | int8 => exact .int8 hholds
      | _ => cases hcast
    | _ => cases hholds
  | float64 =>
    cases cell with
    | float64 word =>
      cases wire with
      | float8 => exact .float8 hholds
      | _ => cases hcast
    | _ => cases hholds
  | utf8 =>
    cases cell with
    | text value =>
      cases wire with
      | text => exact .text
      | jsonb => exact .jsonb
      | uuid => exact .uuid
      | _ => cases hcast
    | _ => cases hholds
  | binary =>
    cases cell with
    | binary value =>
      cases wire with
      | bytea => exact .bytea
      | _ => cases hcast
    | _ => cases hholds
  | timestamp unit timezone =>
    cases cell with
    | timestamp microseconds =>
      cases wire with
      | timestampTz => exact .timestampTz
      | timestampNaive => exact .timestampNaive
      | _ => cases hcast
    | _ => cases hholds
  | date32 =>
    cases cell with
    | date days =>
      cases wire with
      | date => exact .date
      | _ => cases hcast
    | _ => cases hholds
  | time64 unit =>
    cases cell with
    | time raw =>
      cases wire with
      | time => exact .time
      | _ => cases hcast
    | _ => cases hholds
  | decimal128 precision scale =>
    cases cell with
    | decimal value =>
      cases wire with
      | numeric wireScale => exact .numeric hholds
      | _ => cases hcast
    | _ => cases hholds
  | other name => cases wire <;> cases hcast

theorem encodeValue_ne_panic {wire : Wire} {cell : Cell} (h : wire.Carries cell) :
    encodeValue chrono wire cell ≠ .error .panic := by
  cases h with
  | timestampTz | timestampNaive =>
    simp only [encodeValue, encodeTimestamp]
    split
    · split <;> simp
    · simp
  | date =>
    rw [encodeValue, encodeDate]
    split
    · split <;> simp
    · simp
  | time =>
    rw [encodeValue, encodeTime]
    split <;> simp
  | @numeric scale value h =>
    rw [encodeValue, appendNumeric_wire scale [] (natAbs_of_fits h)]
    simp
  | uuid =>
    rw [encodeValue]
    split <;> simp
  | _ => simp [encodeValue]

/-- A value that was written comes back, unless it is a decimal without room. -/
theorem value_back (hchrono : chrono.Documented) {wire : Wire} {cell : Cell}
    (h : wire.Carries cell) (hreads : wire.Reads kind)
    (hvalue : encodeValue chrono wire cell = .ok bytes) :
    appendWire kind bytes = .ok (wire.landed cell) ↔ wire.readsBack cell := by
  cases h with
  | @bool value =>
    cases kind <;> cases hreads
    cases hvalue
    cases value <;> simp [appendWire, exact, Except.map, Wire.landed, Wire.readsBack]
  | int8 h =>
    cases kind <;> cases hreads
    cases hvalue
    rw [appendWire, bigEndianI64_putI64 h]
    exact iff_of_true rfl trivial
  | float8 h =>
    cases kind <;> cases hreads
    cases hvalue
    rw [appendWire, exact, if_pos (length_put 8 _), Except.map, bigEndian_put h]
    exact iff_of_true rfl trivial
  | text =>
    cases kind <;> cases hreads
    cases hvalue
    rw [appendWire, fromUtf8_utf8]
    exact iff_of_true rfl trivial
  | bytea =>
    cases kind <;> cases hreads
    cases hvalue
    exact iff_of_true rfl trivial
  | timestampTz =>
    cases kind <;> cases hreads
    exact iff_of_true (encodeTimestamp_ok hchrono hvalue) trivial
  | timestampNaive =>
    cases kind <;> cases hreads
    exact iff_of_true (encodeTimestamp_ok hchrono hvalue) trivial
  | date =>
    cases kind <;> cases hreads
    exact iff_of_true (encodeDate_ok hchrono hvalue) trivial
  | time =>
    cases kind <;> cases hreads
    exact iff_of_true (encodeTime_ok hvalue) trivial
  | @numeric scale value h =>
    cases kind with
    | decimal precision readScale =>
      cases hreads
      rw [encodeValue] at hvalue
      split at hvalue
      · rename_i hwritten
        cases hvalue
        exact numeric_back h hwritten
      · cases hvalue
    | _ => cases hreads
  | jsonb =>
    cases kind <;> cases hreads
    cases hvalue
    rw [appendWire]
    simp only [ne_eq, not_true_eq_false, if_false, fromUtf8_utf8]
    exact iff_of_true rfl trivial
  | @uuid value =>
    cases kind <;> cases hreads
    rw [encodeValue] at hvalue
    split at hvalue
    · rename_i hparse
      cases hvalue
      rw [appendWire, exact, if_pos (parseUuidText_length hparse), Wire.landed, hparse]
      exact iff_of_true rfl trivial
    · cases hvalue

end Values

/-! ## Rows -/

/-- A field with the bytes of its value, or none of a null. -/
def wireField : Option Bytes → Bytes
  | none => putI32 (-1)
  | some value => putI32 value.length ++ value

def wireFields (ranges : List (Option Bytes)) : Bytes := ranges.flatMap wireField

/-- The bytes that a cell is written as. -/
inductive Ranged (chrono : Chrono) (wire : Wire) : Option Cell → Option Bytes → Prop
  | null : Ranged chrono wire none none
  | value {cell : Cell} {bytes : Bytes} (h : encodeValue chrono wire cell = .ok bytes)
      (hsmall : bytes.length < 2 ^ 31) : Ranged chrono wire (some cell) (some bytes)

def Encoder.cell (encoder : Encoder) (row : Nat) : Option Cell := encoder.array.cells.getD row none

/-- The bytes that the cells of a row are written as. -/
def RangedRow (chrono : Chrono) (encoders : List (String × Encoder)) (row : Nat)
    (ranges : List (Option Bytes)) : Prop :=
  List.Forall₂ (fun encoder range => Ranged chrono encoder.2.wire (encoder.2.cell row) range)
    encoders ranges

section Rows

variable {chrono : Chrono} {encoders : List (String × Encoder)} {row : Nat}
  {out next rest : Bytes} {ranges : List (Option Bytes)}

theorem appendField_ok {wire : Wire} {cell : Option Cell}
    (h : appendField chrono wire cell out = .ok next) :
    ∃ range, next = out ++ wireField range ∧ Ranged chrono wire cell range := by
  cases cell with
  | none =>
    cases h
    exact ⟨none, rfl, .null⟩
  | some cell =>
    obtain ⟨value, hvalue, h⟩ := bind_ok.1 h
    rw [framed] at h
    split at h
    · rename_i hsmall
      cases h
      exact ⟨some value, List.append_assoc _ _ _, .value hvalue hsmall⟩
    · cases h

theorem appendRow_ok (h : appendRow chrono row encoders out = .ok next) :
    ∃ ranges, next = out ++ wireFields ranges ∧ RangedRow chrono encoders row ranges := by
  induction encoders generalizing out with
  | nil =>
    cases h
    exact ⟨[], (List.append_nil _).symm, .nil⟩
  | cons encoder encoders ih =>
    obtain ⟨between, hfield, h⟩ := bind_ok.1 h
    obtain ⟨range, rfl, hrange⟩ := appendField_ok (mapError_ok.1 hfield)
    obtain ⟨ranges, rfl, hranges⟩ := ih h
    exact ⟨range :: ranges, List.append_assoc _ _ _, .cons hrange hranges⟩

theorem lengthWord_putI32 {n : Int} (h : fits 32 n) : LengthWord (putI32 n) n :=
  ⟨length_put 4 _, @signed_put 4 n (by decide) h.1 h.2⟩

theorem locate_wireFields (h : ∀ value, some value ∈ ranges → value.length < 2 ^ 31)
    (rest : Bytes) :
    locate ranges.length (wireFields ranges ++ rest) = .ok (some (ranges, rest)) := by
  induction ranges with
  | nil => rfl
  | cons range ranges ih =>
    have hrest := ih fun value hvalue => h value (List.mem_cons_of_mem _ hvalue)
    rw [wireFields, List.flatMap_cons, List.append_assoc, List.length_cons]
    cases range with
    | none =>
      rw [wireField, locate_null (lengthWord_putI32 (by decide)), ← wireFields, hrest]
      rfl
    | some value =>
      have hsmall := h value List.mem_cons_self
      have hfits : fits 32 value.length := by
        constructor <;> omega
      rw [wireField, List.append_assoc, locate_value (lengthWord_putI32 hfits), ← wireFields, hrest]
      rfl

theorem ranged_small (h : RangedRow chrono encoders row ranges) :
    ∀ value, some value ∈ ranges → value.length < 2 ^ 31 := by
  induction h with
  | nil => exact fun value hmem => absurd hmem List.not_mem_nil
  | @cons encoder range encoders ranges hrange _ ih =>
    intro value hmem
    obtain hhead | hmem := List.mem_cons.1 hmem
    · generalize encoder.2.cell row = cell at hrange
      cases hrange with
      | null => cases hhead
      | value hvalue hsmall =>
        cases hhead
        exact hsmall
    · exact ih value hmem

end Rows

/-- The cells that a column takes back. -/
def Takes (column : Column) (wire : Wire) : Option Cell → Prop
  | none => column.notNull = false
  | some cell => wire.readsBack cell

def TakesRow (columns : List Column) (encoders : List (String × Encoder)) (row : Nat) : Prop :=
  List.Forall₂ (fun column encoder => Takes column encoder.2.wire (encoder.2.cell row))
    columns encoders

/-- A row of the batch as it comes back. -/
def landedRow (encoders : List (String × Encoder)) (row : Nat) : CopyRow :=
  encoders.map fun encoder => (encoder.2.cell row).map encoder.2.wire.landed

/-- Columns that read the wire types. -/
def ReadsAll (columns : List Column) (encoders : List (String × Encoder)) : Prop :=
  List.Forall₂ (fun column encoder => encoder.2.wire.Reads column.kind) columns encoders

section Takes

variable {chrono : Chrono} {columns : List Column} {encoders : List (String × Encoder)} {row : Nat}
  {ranges : List (Option Bytes)}

theorem cell_carries {encoder : Encoder} {cell : Cell} (h : encoder.cell row = some cell) :
    encoder.wire.Carries cell := by
  apply carries_of_cast encoder.cast
  apply encoder.array.typed
  rw [Encoder.cell, List.getD_eq_getElem?_getD] at h
  cases hcell : encoder.array.cells[row]? with
  | none =>
    rw [hcell] at h
    cases h
  | some found =>
    rw [hcell] at h
    cases h
    exact List.mem_of_getElem? hcell

theorem appendFields_null {column : Column} {cells : CopyRow} :
    appendFields (column :: columns) (none :: ranges) = .ok (none :: cells) ↔
      column.notNull = false ∧ appendFields columns ranges = .ok cells := by
  rw [appendFields]
  cases column.notNull with
  | true => simp
  | false => simp [map_ok]

theorem appendFields_value {column : Column} {bytes : Bytes} {cell : Cell} {cells : CopyRow} :
    appendFields (column :: columns) (some bytes :: ranges) = .ok (some cell :: cells) ↔
      appendWire column.kind bytes = .ok cell ∧ appendFields columns ranges = .ok cells := by
  rw [appendFields]
  cases appendWire column.kind bytes with
  | error detail => simp
  | ok read => simp [map_ok, and_comm]

/-- The second pass of the decoder gives the row of the batch exactly if the columns take it. -/
theorem appendFields_iff (hchrono : chrono.Documented) (hreads : ReadsAll columns encoders)
    (hranges : RangedRow chrono encoders row ranges) :
    appendFields columns ranges = .ok (landedRow encoders row) ↔
      TakesRow columns encoders row := by
  induction hreads generalizing ranges with
  | nil =>
    cases hranges
    exact iff_of_true rfl .nil
  | @cons column encoder columns encoders hkind _ ih =>
    cases hranges with
    | @cons _ range _ ranges hrange hrest =>
      rw [TakesRow, List.forall₂_cons, ← TakesRow, ← ih hrest, landedRow, List.map_cons,
        ← landedRow]
      cases hcell : encoder.2.cell row with
      | none =>
        rw [hcell] at hrange
        cases hrange
        exact appendFields_null
      | some cell =>
        rw [hcell] at hrange
        cases hrange with
        | value hvalue _ =>
          rw [Takes, ← value_back hchrono (cell_carries hcell) hkind hvalue]
          exact appendFields_value

end Takes

/-! ## The stream -/

/-- A tuple of so many fields. -/
def wireTuple (count : Nat) (ranges : List (Option Bytes)) : Bytes :=
  putI16 count ++ wireFields ranges

/-- Tuples up to the trailer. -/
def wireTuples (count : Nat) (tuples : List (List (Option Bytes))) : Bytes :=
  tuples.flatMap (wireTuple count) ++ putI16 (-1)

/-- Tuples of the width whose values have lengths. -/
def Framed (count : Nat) (tuples : List (List (Option Bytes))) : Prop :=
  ∀ ranges ∈ tuples, ranges.length = count ∧ ∀ value, some value ∈ ranges → value.length < 2 ^ 31

section Stream

variable {columns : List Column} {count : Nat} {tuples : List (List (Option Bytes))}
  {rows : List (CopyRow × Nat)}

theorem countWord_putI16 {n : Int} (hlow : -2 ^ 15 ≤ n) (hhigh : n < 2 ^ 15) :
    CountWord (putI16 n) n := ⟨length_putI16 n, signed_putI16 hlow hhigh⟩

theorem CountWord.unique {word : Bytes} {n m : Int} (h : CountWord word n) (h' : CountWord word m) :
    n = m := h.2.symm.trans h'.2

/-- The fields in front of a rest are the ranges that the first pass finds. -/
theorem fields_of_append {fields bytes rest : Bytes} {row : CopyRow} {ranges : List (Option Bytes)}
    (hfields : Fields columns fields row) (hlength : ranges.length = columns.length)
    (hsmall : ∀ value, some value ∈ ranges → value.length < 2 ^ 31)
    (h : fields ++ bytes = wireFields ranges ++ rest) :
    bytes = rest ∧ appendFields columns ranges = .ok row ∧
      tupleBytes ranges = 2 + fields.length := by
  obtain ⟨found, hlocate, happend, hsize⟩ := hfields.located bytes
  rw [h, ← hlength, locate_wireFields hsmall] at hlocate
  cases hlocate
  exact ⟨rfl, happend, hsize⟩

/-- A row that the second pass gives is one whose bytes are the fields of the grammar. -/
theorem fields_of_wire {ranges : List (Option Bytes)} {row : CopyRow}
    (hlength : ranges.length = columns.length)
    (hsmall : ∀ value, some value ∈ ranges → value.length < 2 ^ 31)
    (h : appendFields columns ranges = .ok row) :
    Fields columns (wireFields ranges) row ∧ tupleBytes ranges = 2 + (wireFields ranges).length := by
  have hlocate : locate columns.length (wireFields ranges ++ []) = .ok (some (ranges, [])) := by
    rw [← hlength, locate_wireFields hsmall]
  obtain ⟨fields, hsplit, hfields⟩ := fields_of_located hlocate h
  obtain rfl := List.append_cancel_right hsplit
  exact ⟨hfields, (fields_of_append hfields hlength hsmall hsplit).2.2⟩

theorem wireTuples_cons (count : Nat) (ranges : List (Option Bytes)) :
    wireTuples count (ranges :: tuples) =
      putI16 count ++ (wireFields ranges ++ wireTuples count tuples) := by
  rw [wireTuples, List.flatMap_cons, wireTuple, List.append_assoc, List.append_assoc, wireTuples]

/-- Bytes that begin with one word begin with no other. -/
theorem CountWord.of_append {word bytes rest : Bytes} {n m : Int} (h : CountWord word n)
    (hm : CountWord (putI16 m) m) (hsplit : word ++ bytes = putI16 m ++ rest) :
    n = m ∧ bytes = rest := by
  obtain ⟨rfl, hrest⟩ := List.append_inj hsplit (h.1.trans hm.1.symm)
  exact ⟨h.unique hm, hrest⟩

/-- Written tuples are tuples of the grammar exactly if each is a row of the columns. -/
theorem tuples_iff (hcount : columns.length < 2 ^ 15) (hframed : Framed columns.length tuples) :
    Tuples columns (wireTuples columns.length tuples) rows ↔
      List.Forall₂ (fun ranges row => appendFields columns ranges = .ok row.1 ∧
        row.2 = tupleBytes ranges) tuples rows := by
  have htrailer : CountWord (putI16 (-1)) (-1) := countWord_putI16 (by decide) (by decide)
  have hword : CountWord (putI16 columns.length) columns.length :=
    countWord_putI16 (by omega) (by omega)
  induction tuples generalizing rows with
  | nil =>
    constructor
    · intro h
      generalize hbytes : wireTuples columns.length [] = bytes at h
      cases h with
      | trailer => exact .nil
      | tuple hother =>
        have hsame := hother.of_append htrailer (hbytes.symm.trans (List.append_nil _).symm)
        omega
    · intro h
      cases h
      exact .trailer htrailer
  | cons ranges tuples ih =>
    obtain ⟨hlength, hsmall⟩ := hframed ranges List.mem_cons_self
    have hrest (rows : List (CopyRow × Nat)) :=
      @ih rows fun ranges hmem => hframed ranges (List.mem_cons_of_mem _ hmem)
    rw [wireTuples_cons]
    constructor
    · intro h
      generalize hbytes :
        putI16 columns.length ++ (wireFields ranges ++ wireTuples columns.length tuples) = bytes at h
      cases h with
      | trailer hother =>
        have hsame := hother.of_append hword ((List.append_nil _).trans hbytes.symm)
        omega
      | tuple hother hfields htuples =>
        obtain ⟨-, hbehind⟩ := hother.of_append hword hbytes.symm
        obtain ⟨rfl, happend, hsize⟩ := fields_of_append hfields hlength hsmall hbehind
        exact .cons ⟨happend, hsize.symm⟩ ((hrest _).1 htuples)
    · intro h
      cases h with
      | @cons _ row _ rows hrow hrows =>
        obtain ⟨hfields, hsize⟩ := fields_of_wire hlength hsmall hrow.1
        obtain ⟨cells, size⟩ := row
        obtain rfl : size = 2 + (wireFields ranges).length := hrow.2.trans hsize
        exact .tuple hword hfields ((hrest _).2 hrows)

/-- The header has no extension, so that the tuples stand right behind it. -/
theorem stream_iff {body : Bytes} :
    Stream columns (copyInHeader ++ body) rows ↔ Tuples columns body rows := by
  have hzero : LengthWord (putI32 0) 0 := lengthWord_putI32 (by decide)
  constructor
  · rintro ⟨flags, word, extension, bytes, hbytes, hflags, hword, htuples⟩
    rw [copyInHeader, List.append_assoc, List.append_assoc] at hbytes
    obtain ⟨-, hsized⟩ :=
      List.append_inj (List.append_cancel_left hbytes) (hzero.1.trans hflags.symm)
    obtain ⟨rfl, hbody⟩ := List.append_inj hsized (hzero.1.trans hword.1.symm)
    have hnone : (extension.length : Int) = 0 := hword.2.symm.trans hzero.2
    obtain rfl := List.eq_nil_of_length_eq_zero (Int.natCast_eq_zero.1 hnone)
    rw [hbody]
    exact htuples
  · intro h
    refine ⟨putI32 0, putI32 0, [], body, ?_, hzero.1, hzero, h⟩
    rw [copyInHeader, List.append_assoc, List.append_assoc, List.nil_append]

end Stream

/-! ## Whole copies -/

section Copies

variable {chrono : Chrono} {sink : Sink} {relation : String} {tableSchema : Option Sqlcore.TableSchema}
  {batch : RecordBatch} {encoders : List (String × Encoder)} {columns : List Column}
  {sent after : List Bytes} {buffer final : Bytes}

/-- What went to the sink and what is in the buffer are the rows behind what was there before. -/
theorem sendRows_ok {rows : List Nat}
    (h : sendRows chrono sink encoders rows buffer sent = (after, .ok final)) :
    ∃ tuples, after.flatten ++ final =
        sent.flatten ++ buffer ++ tuples.flatMap (wireTuple encoders.length) ∧
      List.Forall₂ (RangedRow chrono encoders) rows tuples := by
  induction rows generalizing buffer sent with
  | nil =>
    cases h
    exact ⟨[], (List.append_nil _).symm, .nil⟩
  | cons row rows ih =>
    rw [sendRows] at h
    split at h
    · cases h
    · rename_i filled hrow
      obtain ⟨ranges, rfl, hranges⟩ := appendRow_ok hrow
      split at h
      · split at h
        · cases h
        · obtain ⟨tuples, hbytes, htuples⟩ := ih h
          refine ⟨ranges :: tuples, ?_, .cons hranges htuples⟩
          rw [hbytes, List.flatMap_cons, wireTuple]
          simp only [List.flatten_append, List.flatten_cons, List.flatten_nil, List.append_nil,
            List.append_assoc]
      · obtain ⟨tuples, hbytes, htuples⟩ := ih h
        refine ⟨ranges :: tuples, ?_, .cons hranges htuples⟩
        rw [hbytes, List.flatMap_cons, wireTuple]
        simp only [List.append_assoc]

theorem finishCopy_ok (h : finishCopy sink buffer sent = (after, .ok ())) :
    after.flatten = sent.flatten ++ buffer ++ putI16 (-1) := by
  rw [finishCopy] at h
  split at h
  · cases h
  · dsimp only at h
    split at h
    · cases h
    · cases h
      simp

/-- The bytes of a finished copy. -/
theorem copyBatch_ok (hencoders : encodersOf chrono tableSchema batch = .ok encoders)
    (h : (copyBatch chrono sink relation tableSchema batch).outcome = .ok ()) :
    ∃ tuples, (copyBatch chrono sink relation tableSchema batch).chunks.flatten =
        copyInHeader ++ wireTuples encoders.length tuples ∧
      List.Forall₂ (RangedRow chrono encoders) (List.range batch.numRows) tuples := by
  cases hopens : sink.opens with
  | some error =>
    simp only [copyBatch, hencoders, hopens] at h
    cases h
  | none =>
    cases hsent : sendRows chrono sink encoders (List.range batch.numRows) copyInHeader [] with
    | mk sent sending =>
      cases sending with
      | error e =>
        simp only [copyBatch, hencoders, hopens, hsent] at h
        cases h
      | ok buffer =>
        simp only [copyBatch, hencoders, hopens, hsent] at h ⊢
        obtain ⟨tuples, hbytes, htuples⟩ := sendRows_ok hsent
        refine ⟨tuples, ?_, htuples⟩
        rw [finishCopy_ok (Prod.ext rfl h), hbytes, wireTuples]
        simp

theorem flatten_batchesOf (targetBytes maxRows : Nat) (rows : List (CopyRow × Nat))
    (pending : List CopyRow) (pendingBytes : Nat) :
    (batchesOf targetBytes maxRows pending pendingBytes rows).flatten =
      pending ++ rows.map Prod.fst := by
  induction rows generalizing pending pendingBytes with
  | nil =>
    rw [batchesOf]
    split
    · rename_i hnone
      rw [hnone]
      rfl
    · simp
  | cons row rows ih =>
    obtain ⟨cells, size⟩ := row
    rw [batchesOf]
    split
    · rw [List.flatten_cons, ih]
      simp
    · rw [ih]
      simp

theorem encodersOf_length (h : encodersOf chrono tableSchema batch = .ok encoders) :
    encoders.length < 2 ^ 15 := by
  obtain ⟨wires, hwires, h⟩ := bind_ok.1 h
  obtain ⟨cast, hcast, h⟩ := bind_ok.1 h
  split at h
  · rename_i hcount
    cases h
    rw [mapM_length hcast, List.length_zip]
    omega
  · cases h

theorem framed_of_ranged {rows : List Nat} {tuples : List (List (Option Bytes))}
    (h : List.Forall₂ (RangedRow chrono encoders) rows tuples) : Framed encoders.length tuples := by
  induction h with
  | nil => exact fun ranges hmem => absurd hmem List.not_mem_nil
  | cons hranges _ ih =>
    intro ranges hmem
    obtain rfl | hmem := List.mem_cons.1 hmem
    · exact ⟨hranges.length_eq.symm, ranged_small hranges⟩
    · exact ih ranges hmem

/-- The tuples are rows of the columns with the values of the batch exactly if each row is taken. -/
theorem rows_iff (hchrono : chrono.Documented) (hreads : ReadsAll columns encoders)
    {rowNumbers : List Nat} {tuples : List (List (Option Bytes))}
    (h : List.Forall₂ (RangedRow chrono encoders) rowNumbers tuples) :
    (∃ rows : List (CopyRow × Nat), List.Forall₂ (fun ranges row =>
        appendFields columns ranges = .ok row.1 ∧ row.2 = tupleBytes ranges) tuples rows ∧
        rows.map Prod.fst = rowNumbers.map (landedRow encoders)) ↔
      ∀ row ∈ rowNumbers, TakesRow columns encoders row := by
  induction h with
  | nil => exact iff_of_true ⟨[], .nil, rfl⟩ fun row hrow => absurd hrow List.not_mem_nil
  | @cons row ranges rowNumbers tuples hranges _ ih =>
    rw [List.forall_mem_cons, ← ih, ← appendFields_iff hchrono hreads hranges]
    constructor
    · rintro ⟨rows, hrows, hlanded⟩
      cases hrows with
      | cons hrow hrows =>
        obtain ⟨hfirst, hrest⟩ := List.cons.inj hlanded
        exact ⟨hfirst ▸ hrow.1, _, hrows, hrest⟩
    · rintro ⟨hrow, rows, hrows, hlanded⟩
      exact ⟨(landedRow encoders row, tupleBytes ranges) :: rows, .cons ⟨hrow, rfl⟩ hrows,
        congrArg (landedRow encoders row :: ·) hlanded⟩

/-- The stream of a finished copy is read back with every row of the batch, in order and in
whatever chunks, exactly if the columns take every cell: a null only where it is allowed, and of
decimals those that the accumulation has room for. -/
theorem copied_reads_back (hchrono : chrono.Documented)
    (hencoders : encodersOf chrono tableSchema batch = .ok encoders)
    (hdone : (copyBatch chrono sink relation tableSchema batch).outcome = .ok ())
    (hsome : columns ≠ []) (hreads : ReadsAll columns encoders) (targetBytes maxRows : Nat)
    {chunks : List Bytes}
    (hchunks : chunks.flatten = (copyBatch chrono sink relation tableSchema batch).chunks.flatten) :
    (∃ batches, (Decoder.new columns hsome targetBytes maxRows).read chunks = ⟨batches, none⟩ ∧
        batches.flatten = (List.range batch.numRows).map (landedRow encoders)) ↔
      ∀ row < batch.numRows, TakesRow columns encoders row := by
  obtain ⟨tuples, hbytes, htuples⟩ := copyBatch_ok hencoders hdone
  have hwidth : columns.length = encoders.length := hreads.length_eq
  have hcount : columns.length < 2 ^ 15 := hwidth ▸ encodersOf_length hencoders
  have hframed : Framed columns.length tuples := hwidth ▸ framed_of_ranged htuples
  have hstream (rows : List (CopyRow × Nat)) : Stream columns chunks.flatten rows ↔
      List.Forall₂ (fun ranges row => appendFields columns ranges = .ok row.1 ∧
        row.2 = tupleBytes ranges) tuples rows := by
    rw [hchunks, hbytes, stream_iff, ← hwidth, tuples_iff hcount hframed]
  have hread := (copy_read columns hsome targetBytes maxRows chunks.flatten).2.1 chunks
  have hrows := rows_iff hchrono hreads htuples
  simp only [List.mem_range] at hrows
  rw [← hrows]
  constructor
  · rintro ⟨batches, hbatches, hflat⟩
    obtain ⟨rows, hrows, rfl⟩ := (hread batches rfl).1 hbatches
    rw [flatten_batchesOf, List.nil_append] at hflat
    exact ⟨rows, (hstream rows).1 hrows, hflat⟩
  · rintro ⟨rows, hrows, hlanded⟩
    refine ⟨_, (hread _ rfl).2 ⟨rows, (hstream rows).2 hrows, rfl⟩, ?_⟩
    rw [flatten_batchesOf, List.nil_append, hlanded]

end Copies

/-- The calendar of the years from -262143 to 262142. -/
def wideCalendar : Chrono := ⟨fun _ => "Int16", -96465292, 95026236⟩

theorem wideCalendar_documented : wideCalendar.Documented := ⟨by decide, by decide⟩

/-- Identifiers in capitals, and prices of which one is missing. -/
def keyColumn : ArrowArray where
  dataType := .utf8
  cells := [some (.text "550E8400-E29B-41D4-A716-446655440000"),
    some (.text "550e8400e29b41d4a716446655440001")]
  typed := fun cell hmem => by
    simp only [List.mem_cons, List.not_mem_nil, or_false, Option.some.injEq] at hmem
    obtain rfl | rfl := hmem <;> trivial

def priceColumn : ArrowArray where
  dataType := .decimal128 38 2
  cells := [some (.decimal (-1999)), none]
  typed := fun cell hmem => by
    simp only [List.mem_cons, List.not_mem_nil, or_false, Option.some.injEq, reduceCtorEq] at hmem
    subst hmem
    change fits 128 (-1999)
    decide

def priceBatch : RecordBatch where
  columns := [("key", keyColumn), ("price", priceColumn)]
  numRows := 2
  sized := by
    intro column hmem
    simp only [List.mem_cons, List.not_mem_nil, or_false] at hmem
    obtain rfl | rfl := hmem <;> rfl

def priceSchema : Sqlcore.TableSchema :=
  ⟨"prices", none, [⟨"key", .scalar .uuid, false⟩, ⟨"price", .scalar (.decimal 38 2), true⟩]⟩

def priceEncoders : List (String × Encoder) :=
  [("key", ⟨.uuid, keyColumn, rfl⟩), ("price", ⟨.numeric 2, priceColumn, rfl⟩)]

def priceColumns : List Column := [⟨"key", .uuid, true⟩, ⟨"price", .decimal 38 2, false⟩]

def steadySink : Sink := ⟨none, fun _ => none, none, none⟩

def priceCopy : CopyIn := copyBatch wideCalendar steadySink "prices" (some priceSchema) priceBatch

theorem price_encoders :
    encodersOf wideCalendar (some priceSchema) priceBatch = .ok priceEncoders := rfl

theorem price_copied : priceCopy.outcome = .ok () := by decide +kernel

theorem price_columns : ReadsAll priceColumns priceEncoders := by
  apply List.Forall₂.cons
  · exact trivial
  · apply List.Forall₂.cons
    · rfl
    · exact .nil

theorem prices_read_back :
    (∃ batches, (Decoder.new priceColumns (by decide) 1024 1).read priceCopy.chunks =
        ⟨batches, none⟩ ∧
      batches.flatten = (List.range 2).map (landedRow priceEncoders)) ↔
      ∀ row < 2, TakesRow priceColumns priceEncoders row :=
  copied_reads_back wideCalendar_documented price_encoders price_copied (by decide) price_columns
    1024 1 rfl

end PgTypes
