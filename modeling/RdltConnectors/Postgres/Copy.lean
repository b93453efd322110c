import RdltConnectors.Library.Chunked
import RdltConnectors.Postgres.Wire

/-!
# The decoder of a binary copy

A header, tuples of length-prefixed fields, and a trailer, read incrementally: chunk
boundaries never align with rows, so what cannot be parsed yet is carried over to the next
chunk. Batches are cut after a row, at the byte target or the row maximum.
-/
namespace PgTypes

open Words

inductive CopyState where
  | header
  | tuples
  | done
  deriving DecidableEq, Repr

/-- One row of the builders; `none` is a null. -/
abbrev CopyRow := List (Option Cell)

/-- What has been taken from the stream. There is a column, so a batch can be assembled. -/
structure Assembly where
  columns : List Column
  some_column : columns ≠ []
  batchTargetBytes : Nat
  batchMaxRows : Nat
  state : CopyState
  /-- the builders, row by row -/
  builders : List CopyRow
  rowsInBatch : Nat
  bytesInBatch : Nat
  rowsTotal : Nat
  deriving DecidableEq

structure Decoder extends Assembly where
  carry : Bytes
  deriving DecidableEq

def Decoder.new (columns : List Column) (some_column : columns ≠ [])
    (batchTargetBytes batchMaxRows : Nat) : Decoder :=
  { columns := columns
    some_column := some_column
    batchTargetBytes := max batchTargetBytes 1
    batchMaxRows := max batchMaxRows 1
    state := .header
    builders := []
    rowsInBatch := 0
    bytesInBatch := 0
    rowsTotal := 0
    carry := [] }

/-- `PGCOPY\n\xff\r\n\0` -/
def headerSignature : Bytes := [80, 71, 67, 79, 80, 89, 10, 255, 13, 10, 0]

/-- Signature, flags, and an extension with its length; the flags and the extension are not
looked at. `none` waits for more. -/
def tryConsumeHeader (window : Bytes) : Except String (Option Bytes) :=
  if window.length < 19 then .ok none
  else if window.take 11 ≠ headerSignature then .error "bad COPY binary signature"
  else
    let extensionLength := signed 32 (bigEndian ((window.drop 15).take 4))
    if extensionLength < 0 then .error "negative header extension length"
    else if window.length < 19 + extensionLength.toNat then .ok none
    else .ok (some (window.drop (19 + extensionLength.toNat)))

/-- The first pass: the fields of a tuple and what follows it; `none` is a partial tuple. -/
def locate : Nat → Bytes → Except String (Option (List (Option Bytes) × Bytes))
  | 0, window => .ok (some ([], window))
  | count + 1, window =>
    if window.length < 4 then .ok none
    else
      let length := signed 32 (bigEndian (window.take 4))
      if length = -1 then
        (locate count (window.drop 4)).map (·.map fun located => (none :: located.1, located.2))
      else if length < 0 then .error s!"negative field length {length}"
      else if (window.drop 4).length < length.toNat then .ok none
      else
        (locate count ((window.drop 4).drop length.toNat)).map
          (·.map fun located => (some ((window.drop 4).take length.toNat) :: located.1, located.2))

/-- The second pass: every field into its column's builder. -/
def appendFields : List Column → List (Option Bytes) → Except String CopyRow
  | column :: columns, none :: ranges =>
    if column.notNull then .error s!"NULL on NOT NULL column `{column.name}` (schema drift)"
    else (appendFields columns ranges).map (none :: ·)
  | column :: columns, some field :: ranges =>
    match appendWire column.kind field with
    | .error detail => .error s!"column `{column.name}`: {detail}"
    | .ok cell => (appendFields columns ranges).map (some cell :: ·)
  | _, _ => .ok []

/-- The bytes of a tuple: the count, and each field with its length. -/
def tupleBytes (ranges : List (Option Bytes)) : Nat :=
  2 + (ranges.map fun range => 4 + (range.getD []).length).sum

inductive Consumed where
  | needMore
  | row (rest : Bytes) (assembly : Assembly)
  | trailer (rest : Bytes)

def Assembly.tryConsumeTuple (assembly : Assembly) (window : Bytes) : Except String Consumed :=
  if window.length < 2 then .ok .needMore
  else
    let fieldCount := signed 16 (bigEndian (window.take 2))
    if fieldCount = -1 then .ok (.trailer (window.drop 2))
    else if fieldCount ≠ assembly.columns.length then
      .error s!"tuple has {fieldCount} fields, schema has {assembly.columns.length} (drift)"
    else
      match locate assembly.columns.length (window.drop 2) with
      | .error error => .error error
      | .ok none => .ok .needMore
      | .ok (some (ranges, rest)) =>
        (appendFields assembly.columns ranges).map fun row => .row rest { assembly with
          builders := assembly.builders ++ [row]
          rowsInBatch := assembly.rowsInBatch + 1
          bytesInBatch := assembly.bytesInBatch + tupleBytes ranges
          rowsTotal := assembly.rowsTotal + 1 }

def Assembly.cutBatch (assembly : Assembly) : List CopyRow × Assembly :=
  (assembly.builders, { assembly with builders := [], rowsInBatch := 0, bytesInBatch := 0 })

/-- The batch that is cut after a row, if one is. -/
def Assembly.cutAfterRow (assembly : Assembly) : List (List CopyRow) × Assembly :=
  if assembly.rowsInBatch ≥ assembly.batchMaxRows ∨
      assembly.bytesInBatch ≥ assembly.batchTargetBytes then
    ([assembly.cutBatch.1], assembly.cutBatch.2)
  else ([], assembly)

/-- Tuples until the window ends or the trailer comes. Every row shortens the window, so its
length is fuel enough. -/
def consumeTuples : Nat → Assembly → Bytes → Except String (Decoder × List (List CopyRow))
  | 0, assembly, window => .ok ({ assembly with carry := window }, [])
  | fuel + 1, assembly, window =>
    match assembly.tryConsumeTuple window with
    | .error error => .error error
    | .ok .needMore => .ok ({ assembly with carry := window }, [])
    | .ok (.trailer rest) =>
      if rest ≠ [] then .error "data after COPY trailer"
      else .ok ({ assembly with state := .done, carry := rest }, [])
    | .ok (.row rest next) =>
      (consumeTuples fuel next.cutAfterRow.2 rest).map fun (decoder, batches) =>
        (decoder, next.cutAfterRow.1 ++ batches)

/-- Feed one chunk; the batches it completed. -/
def Decoder.feed (decoder : Decoder) (chunk : Bytes) :
    Except String (Decoder × List (List CopyRow)) :=
  let window := decoder.carry ++ chunk
  match decoder.state with
  | .done => if chunk = [] then .ok (decoder, []) else .error "data after COPY trailer"
  | .header =>
    match tryConsumeHeader window with
    | .error error => .error error
    | .ok none => .ok ({ decoder with carry := window }, [])
    | .ok (some rest) =>
      consumeTuples (rest.length + 1) { decoder.toAssembly with state := .tuples } rest
  | .tuples => consumeTuples (window.length + 1) decoder.toAssembly window

/-- The end of the stream: the trailer must have been seen, and the tail batch is cut. -/
def Decoder.finish (decoder : Decoder) : Except String (Option (List CopyRow)) :=
  if decoder.state ≠ .done then
    .error "COPY stream ended before the binary trailer (truncated stream)"
  else if decoder.carry ≠ [] then .error "trailing bytes after COPY trailer"
  else if decoder.rowsInBatch = 0 then .ok none
  else .ok (some decoder.cutBatch.1)

/-- What a reader of the stream gets: the batches it was handed, and the error that ended
the read, if one did. -/
structure Reading where
  batches : List (List CopyRow)
  failure : Option String
  deriving DecidableEq

/-- Chunk after chunk, and then the end of the stream. -/
def Decoder.read (decoder : Decoder) : List Bytes → Reading
  | [] =>
    match decoder.finish with
    | .error error => ⟨[], some error⟩
    | .ok tail => ⟨tail.toList, none⟩
  | chunk :: chunks =>
    match decoder.feed chunk with
    | .error error => ⟨[], some error⟩
    | .ok (next, batches) =>
      let reading := next.read chunks
      ⟨batches ++ reading.batches, reading.failure⟩

end PgTypes
