import Mathlib
import RdltConnectors.Sqlcore.Schema
import RdltConnectors.Postgres.Uuid

/-!
# Columns onto the wire

The wire type of a column, decided by its logical type where the array cannot tell, and one cell as
a complete field of a binary copy: a length and the bytes of the value, or a bare -1 for a null.
-/
namespace PgTypes

open Words
open Sqlcore (ColumnType)

inductive TimeUnit where
  | second
  | millisecond
  | microsecond
  | nanosecond
  deriving DecidableEq, Repr

/-- The types that the encoder tells apart. -/
inductive DataType where
  | boolean
  | int64
  | float64
  | utf8
  | binary
  | timestamp (unit : TimeUnit) (timezone : Option String)
  | date32
  | time64 (unit : TimeUnit)
  | decimal128 (precision : UInt8) (scale : Int8)
  | other (name : String)
  deriving DecidableEq

/-- What the encoder relies on: how a type prints, and the first and the last day of the calendar,
counted from the epoch of Unix. -/
structure Chrono where
  display : DataType → String
  firstDay : Int
  lastDay : Int

/-- The calendar reaches about 262 thousand years in both directions. -/
structure Chrono.Documented (chrono : Chrono) : Prop where
  first : -100000000 < chrono.firstDay
  last : chrono.lastDay < 100000000

inductive Wire where
  | bool
  | int8
  | float8
  | text
  | bytea
  | timestampTz
  | timestampNaive
  | date
  | time
  | numeric (scale : UInt8)
  | jsonb
  | uuid
  deriving DecidableEq

/-- The wire type of an array; a negative scale is refused. -/
def wireOfArrow (chrono : Chrono) : DataType → Except String Wire
  | .boolean => .ok .bool
  | .int64 => .ok .int8
  | .float64 => .ok .float8
  | .utf8 => .ok .text
  | .binary => .ok .bytea
  | .timestamp .microsecond (some _) => .ok .timestampTz
  | .timestamp .microsecond none => .ok .timestampNaive
  | .date32 => .ok .date
  | .time64 .microsecond => .ok .time
  | .decimal128 _ scale =>
    if 0 ≤ scale then .ok (.numeric scale.toUInt8)
    else .error s!"negative decimal scale {scale} unsupported"
  | other => .error s!"unsupported arrow type for COPY: {chrono.display other}"

/-- Documents and uuids are texts in the array, so that only the schema tells them. -/
def wireOf (chrono : Chrono) (logical : Option ColumnType) (arrow : DataType) :
    Except String Wire :=
  match logical, arrow with
  | some (.scalar .json), .utf8 => .ok .jsonb
  | some (.scalar .uuid), .utf8 => .ok .uuid
  | _, arrow => wireOfArrow chrono arrow

/-! ## Arrays -/

def fits (bits : Nat) (n : Int) : Prop := -2 ^ (bits - 1) ≤ n ∧ n < 2 ^ (bits - 1)

instance decidableFits (bits : Nat) (n : Int) : Decidable (fits bits n) :=
  inferInstanceAs (Decidable (_ ∧ _))

/-- The values that an array of the type holds. -/
def DataType.Holds : DataType → Cell → Prop
  | .boolean, .bool _ => True
  | .int64, .int64 value => fits 64 value
  | .float64, .float64 word => word < 2 ^ 64
  | .utf8, .text _ => True
  | .binary, .binary _ => True
  | .timestamp _ _, .timestamp microseconds => fits 64 microseconds
  | .date32, .date days => fits 32 days
  | .time64 _, .time microseconds => fits 64 microseconds
  | .decimal128 _ _, .decimal value => fits 128 value
  | .other _, _ => True
  | _, _ => False

/-- An array, a null being `none`. -/
structure ArrowArray where
  dataType : DataType
  cells : List (Option Cell)
  typed : ∀ cell, some cell ∈ cells → dataType.Holds cell

/-- The array that an encoder of the wire type casts to. -/
def Wire.casts : Wire → DataType → Bool
  | .bool, .boolean => true
  | .int8, .int64 => true
  | .float8, .float64 => true
  | .text, .utf8 | .jsonb, .utf8 | .uuid, .utf8 => true
  | .bytea, .binary => true
  | .timestampTz, .timestamp .microsecond _ | .timestampNaive, .timestamp .microsecond _ => true
  | .date, .date32 => true
  | .time, .time64 .microsecond => true
  | .numeric _, .decimal128 _ _ => true
  | _, _ => false

/-- One column, cast once. -/
structure Encoder where
  wire : Wire
  array : ArrowArray
  cast : wire.casts array.dataType = true

def Encoder.new (wire : Wire) (array : ArrowArray) : Except String Encoder :=
  if h : wire.casts array.dataType = true then .ok ⟨wire, array, h⟩
  else .error "array type mismatch"

/-! ## Values -/

/-- A value is refused, or the program would panic. -/
inductive Fault where
  | refused (detail : String)
  | panic
  deriving DecidableEq, Repr

def putI64 (n : Int) : Bytes := put 8 (n % 2 ^ 64).toNat

def utf8 (text : String) : Bytes := text.toUTF8.data.toList

def microsecondsPerDay : Int := 86400000000

/-- Days to the first of the year one. -/
def daysToCommonEra : Int := 719163

/-- `from_timestamp_micros` and `to_sql`. -/
def encodeTimestamp (chrono : Chrono) (microseconds : Int) : Except Fault Bytes :=
  let day := microseconds / microsecondsPerDay
  if chrono.firstDay ≤ day ∧ day ≤ chrono.lastDay then
    if fits 64 (microseconds - pgEpochMicroseconds) then
      .ok (putI64 (microseconds - pgEpochMicroseconds))
    else .error (.refused "value too large to transmit")
  else .error (.refused "timestamp out of range")

def encodeDate (chrono : Chrono) (days : Int) : Except Fault Bytes :=
  -- the shift leaves 32 bits near their ends
  if fits 32 (days + daysToCommonEra) ∧ chrono.firstDay ≤ days ∧ days ≤ chrono.lastDay then
    if fits 32 (days - pgEpochDays) then .ok (putI32 (days - pgEpochDays))
    else .error (.refused "value too large to transmit")
  else .error (.refused "date out of range")

/-- The time goes through seconds and nanoseconds from midnight. -/
def encodeTime (raw : Int) : Except Fault Bytes :=
  if 0 ≤ raw ∧ raw < microsecondsPerDay then
    let seconds := raw / 1000000
    let nanoseconds := raw % 1000000 * 1000
    .ok (putI64 (seconds * 1000000 + nanoseconds / 1000))
  else .error (.refused s!"time {raw} µs is outside a day (0..{microsecondsPerDay})")

/-- The bytes of a value. -/
def encodeValue (chrono : Chrono) : Wire → Cell → Except Fault Bytes
  | .bool, .bool value => .ok [if value then 1 else 0]
  | .int8, .int64 value => .ok (putI64 value)
  | .float8, .float64 word => .ok (put 8 word)
  | .text, .text value => .ok (utf8 value)
  | .bytea, .binary value => .ok value
  | .timestampTz, .timestamp microseconds | .timestampNaive, .timestamp microseconds =>
    encodeTimestamp chrono microseconds
  | .date, .date days => encodeDate chrono days
  | .time, .time raw => encodeTime raw
  | .numeric scale, .decimal value =>
    match appendNumeric value scale [] with
    | some bytes => .ok bytes
    | none => .error .panic
  | .jsonb, .text document => .ok (1 :: utf8 document)
  | .uuid, .text text =>
    match parseUuidText text with
    | some bytes => .ok bytes
    | none => .error (.refused s!"`{text}` is not a canonical uuid")
  -- no array that was cast holds any other
  | _, _ => .error .panic

/-- A length, which is a word of 32 bits, and the bytes behind it. -/
def framed (value : Bytes) (out : Bytes) : Except Fault Bytes :=
  if value.length < 2 ^ 31 then .ok (out ++ putI32 value.length ++ value)
  else .error (.refused "value exceeds 2 GiB")

/-- Append one cell as a field. -/
def appendField (chrono : Chrono) (wire : Wire) (cell : Option Cell) (out : Bytes) :
    Except Fault Bytes :=
  match cell with
  | none => .ok (out ++ putI32 (-1))
  | some cell => do
    let value ← encodeValue chrono wire cell
    framed value out

def Encoder.appendField (encoder : Encoder) (chrono : Chrono) (row : Nat) (out : Bytes) :
    Except Fault Bytes :=
  PgTypes.appendField chrono encoder.wire (encoder.array.cells.getD row none) out

end PgTypes
