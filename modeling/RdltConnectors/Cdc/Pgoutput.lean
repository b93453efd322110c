import RdltConnectors.Cdc.Message
import RdltConnectors.Library.Grammar
import RdltConnectors.Library.Words
import RdltConnectors.Postgres.Wire

/-!
# The replication message parser

One cell of the slot's peek is one message of the logical replication protocol, version 1.
What the consumer does not read is parsed and dropped.
-/
namespace Cdc

open Grammar hiding take
open Words

abbrev Parser := Parse UInt8 String

namespace Pgoutput

def take (count : Nat) : Parser (List UInt8) := Grammar.take "message truncated" count

def u8 : Parser UInt8 := do
  let window ← take 1
  return window.headD 0

/-- An unsigned word of so many bytes. -/
def word (width : Nat) : Parser Nat := do
  let window ← take width
  return bigEndian window

def u16 : Parser Nat := word 2

def u32 : Parser Nat := word 4

def u64 : Parser Nat := word 8

def i32 : Parser Int := do
  let window ← take 4
  return signed 32 (bigEndian window)

def cString : Parser String := do
  let piece ← upTo "unterminated string" 0
  match String.fromUTF8? piece.toByteArray with
  | some text => return text
  | none => fail "non-UTF8 identifier"

end Pgoutput

open Pgoutput

/-- The byte of an ASCII character. -/
def byte (c : Char) : UInt8 := UInt8.ofNat c.toNat

def hexText (b : UInt8) : String := "0x" ++ String.ofList (PgTypes.hexByte b)

def tupleValue : Parser TupleValue := do
  let kind ← u8
  if kind = byte 'n' then return .null
  else if kind = byte 'u' then return .unchangedToast
  else if kind = byte 't' then
    let length ← u32
    let bytes ← take length
    return .text bytes.toByteArray
  else if kind = byte 'b' then fail "binary tuple value (unrequested option)"
  else fail s!"unknown tuple value kind {hexText kind}"

def tuple : Parser TupleData := do
  let columnCount ← u16
  bounded columnCount "tuple column count exceeds message" do
    let values ← repeated tupleValue columnCount
    return ⟨values⟩

def relationColumn : Parser RelationColumn := do
  let _flags ← u8
  let name ← cString
  let _typeOid ← u32
  let _typeModifier ← i32
  return ⟨name⟩

def parseRelation : Parser Message := do
  let id ← u32
  let namespace_ ← cString
  let name ← cString
  let _replicaIdentity ← u8
  let columnCount ← u16
  bounded columnCount "relation column count exceeds message" do
    let columns ← repeated relationColumn columnCount
    return .relation ⟨id, namespace_, name, columns⟩

def parseInsert : Parser Message := do
  let relation ← u32
  let marker ← u8
  if marker = byte 'N' then
    let new ← tuple
    return .insert relation new
  else fail s!"insert: expected 'N', got {hexText marker}"

def parseUpdate : Parser Message := do
  let relation ← u32
  let marker ← u8
  if marker = byte 'K' ∨ marker = byte 'O' then
    let old ← tuple
    let behind ← u8
    if behind = byte 'N' then
      let new ← tuple
      return .update relation (some old) new
    else fail s!"update: expected 'N', got {hexText behind}"
  else if marker = byte 'N' then
    let new ← tuple
    return .update relation none new
  else fail s!"update: unknown marker {hexText marker}"

def parseDelete : Parser Message := do
  let relation ← u32
  let marker ← u8
  if marker = byte 'K' ∨ marker = byte 'O' then
    let old ← tuple
    return .delete relation old
  else fail s!"delete: unknown marker {hexText marker}"

def parseTruncate : Parser Message := do
  let relationCount ← u32
  bounded relationCount "truncate relation count exceeds message" do
    let _flags ← u8
    let relations ← repeated u32 relationCount
    return .truncate relations

def message : Parser Message := do
  let tag ← u8
  if tag = byte 'B' then
    let _finalLsn ← u64
    let _commitTimestamp ← u64
    let _transactionId ← u32
    return .begin
  else if tag = byte 'C' then
    let _flags ← u8
    let _commitLsn ← u64
    let _endLsn ← u64
    let _commitTimestamp ← u64
    return .commit
  else if tag = byte 'O' then
    let _lsn ← u64
    let _name ← cString
    return .origin
  else if tag = byte 'R' then parseRelation
  else if tag = byte 'Y' then
    let _oid ← u32
    let _namespace ← cString
    let _name ← cString
    return .type
  else if tag = byte 'I' then parseInsert
  else if tag = byte 'U' then parseUpdate
  else if tag = byte 'D' then parseDelete
  else if tag = byte 'T' then parseTruncate
  else fail s!"unknown message tag {hexText tag}"

/-- Parse one message. -/
def parse (bytes : List UInt8) : Except String Message :=
  whole "trailing bytes after message" message bytes

end Cdc
