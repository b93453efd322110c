import RdltConnectors.Postgres.Vocabulary
import RdltConnectors.Postgres.Numeric

/-!
# Fields on the wire

One field's bytes become one value of its column's kind, or a typed error.
-/
namespace PgTypes

open Words

/-- What a builder was given; a float is the word that stands for it. -/
inductive Cell where
  | bool (value : Bool)
  | int64 (value : Int)
  | float32 (word : Nat)
  | float64 (word : Nat)
  | decimal (value : Int)
  | text (value : String)
  | binary (value : Bytes)
  | timestamp (microseconds : Int)
  | date (days : Int)
  | time (microseconds : Int)
  deriving DecidableEq

/-- Microseconds and days from the epoch of the server to that of Unix. -/
def pgEpochMicroseconds : Int := 946684800000000

def pgEpochDays : Int := 10957

def bigEndianI32 (bytes : Bytes) : Except String Int :=
  if bytes.length = 4 then .ok (signed 32 (bigEndian bytes)) else .error "short i32"

def bigEndianI64 (bytes : Bytes) : Except String Int :=
  if bytes.length = 8 then .ok (signed 64 (bigEndian bytes)) else .error "short i64"

/-- A field of so many bytes. -/
def exact (n : Nat) (field : Bytes) (what : String) : Except String Bytes :=
  if field.length = n then .ok field
  else .error s!"{what}: expected {n} bytes, got {field.length}"

/-- Move a number of so many bits; the sentinels at both ends stay, and what leaves the
range ends on one of them. -/
def rebase (bits : Nat) (value offset : Int) : Int :=
  if value = 2 ^ (bits - 1) - 1 ∨ value = -2 ^ (bits - 1) then value
  else if value + offset < 2 ^ (bits - 1) then value + offset
  else if value > 0 then 2 ^ (bits - 1) - 1
  else -2 ^ (bits - 1)

def rebaseTimestamp (microseconds : Int) : Int := rebase 64 microseconds pgEpochMicroseconds

def rebaseDate (days : Int) : Int := rebase 32 days pgEpochDays

def hexByte (b : UInt8) : List Char := [Nat.digitChar (b.toNat / 16), Nat.digitChar (b.toNat % 16)]

/-- The canonical lower-case text with hyphens. -/
def uuidText (bytes : Bytes) : String :=
  String.ofList ((bytes.zipIdx.map fun (b, index) =>
    if index = 4 ∨ index = 6 ∨ index = 8 ∨ index = 10 then '-' :: hexByte b
    else hexByte b).flatten)

def fromUtf8 (field : Bytes) (error : String) : Except String String :=
  match String.fromUTF8? ⟨field.toArray⟩ with
  | some value => .ok value
  | none => .error error

/-- Append one field of a binary copy to the builder of its kind. -/
def appendWire (kind : Kind) (field : Bytes) : Except String Cell :=
  match kind with
  | .bool => (exact 1 field "bool").map fun bytes => .bool (bytes ≠ [0])
  | .int16 => (bigEndianI16 field).map .int64
  | .int32 => (bigEndianI32 field).map .int64
  | .int64 => (bigEndianI64 field).map .int64
  | .float32 => (exact 4 field "float4").map fun bytes => .float32 (bigEndian bytes)
  | .float64 => (exact 8 field "float8").map fun bytes => .float64 (bigEndian bytes)
  | .decimal _ scale => (decodeNumeric field scale).map .decimal
  | .text => (fromUtf8 field "invalid UTF-8 in text field").map .text
  | .jsonb =>
    match field with
    | [] => .error "empty jsonb field"
    | version :: rest =>
      if version ≠ 1 then .error s!"unknown jsonb version {version.toNat}"
      else (fromUtf8 rest "invalid UTF-8 in jsonb").map .text
  | .uuid => (exact 16 field "uuid").map fun bytes => .text (uuidText bytes)
  | .bytea => .ok (.binary field)
  | .timestampTz | .timestampNaive =>
    (bigEndianI64 field).map fun microseconds => .timestamp (rebaseTimestamp microseconds)
  | .date => (bigEndianI32 field).map fun days => .date (rebaseDate days)
  | .time => (bigEndianI64 field).map .time

end PgTypes
