import Mathlib
import RdltConnectors.Library.Fallible
import RdltConnectors.Sqlcore.Quote
import RdltConnectors.Postgres.Copy
import RdltConnectors.Postgres.Encode

/-!
# Writing a batch

One batch goes into one relation as a binary copy: a header, the rows in their order and a trailer,
handed to the driver in chunks. A copy is finished only behind its trailer; a sink that is dropped
before makes the server abort.
-/
namespace PgTypes

open Words
open Sqlcore (TableSchema quoteIdentifier)

inductive WriteError where
  | fatal (text : String)
  /-- a statement or a chunk that the driver failed on -/
  | statement (error : String)
  | panic
  deriving DecidableEq

/-- The text of a fatal error of the phase. -/
def writeFatal (detail : String) : WriteError :=
  .fatal s!"postgres destination, write phase: {detail}"

/-- What the driver fails on: the statement, a chunk by its number, the flush, the end. -/
structure Sink where
  opens : Option String
  feeds : Nat → Option String
  flushes : Option String
  finishes : Option String

structure RecordBatch where
  columns : List (String × ArrowArray)
  numRows : Nat
  sized : ∀ column ∈ columns, column.2.cells.length = numRows

/-- What came to the server. -/
structure CopyIn where
  statement : Option String
  chunks : List Bytes
  /-- whether the copy was finished -/
  outcome : Except WriteError Unit

def flushAt : Nat := 64 * 1024

/-- The signature, the flags and the empty extension. -/
def copyInHeader : Bytes := headerSignature ++ putI32 0 ++ putI32 0

section Write

variable (chrono : Chrono)

def columnWire (tableSchema : Option TableSchema) (column : String × ArrowArray) :
    Except WriteError Wire :=
  let logical := (tableSchema.bind fun schema => schema.column column.1).map (·.columnType)
  (wireOf chrono logical column.2.dataType).mapError writeFatal

def columnEncoder (column : (String × ArrowArray) × Wire) :
    Except WriteError (String × Encoder) :=
  ((Encoder.new column.2 column.1.2).map (column.1.1, ·)).mapError fun detail =>
    writeFatal s!"column `{column.1.1}`: {detail}"

/-- Every column is decided before the first is cast, and both before the statement. -/
def encodersOf (tableSchema : Option TableSchema) (batch : RecordBatch) :
    Except WriteError (List (String × Encoder)) := do
  let wires ← batch.columns.mapM (columnWire chrono tableSchema)
  let encoders ← (batch.columns.zip wires).mapM columnEncoder
  if batch.columns.length < 2 ^ 15 then pure encoders
  else .error (writeFatal "a COPY tuple cannot carry more than 32767 columns")

/-- An error names the column. -/
def Fault.inColumn (name : String) : Fault → WriteError
  | .refused detail => writeFatal s!"column `{name}`: {detail}"
  | .panic => .panic

def appendRow (row : Nat) : List (String × Encoder) → Bytes → Except WriteError Bytes
  | [], out => .ok out
  | (name, encoder) :: encoders, out => do
    let out ← (encoder.appendField chrono row out).mapError (Fault.inColumn name)
    appendRow row encoders out

/-- The rows into the buffer, that goes to the sink when it is full; `sent` is what the sink has
taken. -/
def sendRows (sink : Sink) (encoders : List (String × Encoder)) :
    List Nat → Bytes → List Bytes → List Bytes × Except WriteError Bytes
  | [], buffer, sent => (sent, .ok buffer)
  | row :: rows, buffer, sent =>
    match appendRow chrono row encoders (buffer ++ putI16 encoders.length) with
    | .error e => (sent, .error e)
    | .ok buffer =>
      if flushAt ≤ buffer.length then
        match sink.feeds sent.length with
        | some error => (sent, .error (.statement error))
        | none => sendRows sink encoders rows [] (sent ++ [buffer])
      else sendRows sink encoders rows buffer sent

/-- The trailer, and the end of the copy. -/
def finishCopy (sink : Sink) (buffer : Bytes) (sent : List Bytes) :
    List Bytes × Except WriteError Unit :=
  match sink.feeds sent.length with
  | some error => (sent, .error (.statement error))
  | none =>
    let sent := sent ++ [buffer ++ putI16 (-1)]
    match sink.flushes.or sink.finishes with
    | some error => (sent, .error (.statement error))
    | none => (sent, .ok ())

def copyBatch (sink : Sink) (relation : String) (tableSchema : Option TableSchema)
    (batch : RecordBatch) : CopyIn :=
  let columnNames := ", ".intercalate (batch.columns.map fun column => quoteIdentifier column.1)
  match encodersOf chrono tableSchema batch with
  | .error e => ⟨none, [], .error e⟩
  | .ok encoders =>
    match sink.opens with
    | some error => ⟨none, [], .error (.statement error)⟩
    | none =>
      let statement := s!"COPY {quoteIdentifier relation} ({columnNames}) FROM STDIN BINARY"
      match sendRows chrono sink encoders (List.range batch.numRows) copyInHeader [] with
      | (sent, .error e) => ⟨some statement, sent, .error e⟩
      | (sent, .ok buffer) =>
        let finished := finishCopy sink buffer sent
        ⟨some statement, finished.1, finished.2⟩

end Write

end PgTypes
