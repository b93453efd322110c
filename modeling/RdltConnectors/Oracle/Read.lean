import Mathlib.Order.WithBot
import RdltConnectors.Library.Keyset
import RdltConnectors.Oracle.Cursor

/-!
# Reading a stream

A run reads a table chunk by chunk: each turn states one query from the position reached,
takes at most a batch of the rows it answers, and moves the position to the last of them.
A stream with a cursor column emits a checkpoint behind every batch; a run that stops or
crashes leaves what its last kept checkpoint covers, and the next run resumes from there.
-/
namespace Oracle

variable {R F : Type}

structure Row (R F : Type) where
  rowid : R
  values : String → Option (Value F)

/-- What the driver and the server make of values and texts. -/
structure Server (R F : Type) where
  typeText : OracleType → String
  /-- a NUMBER fetched as text -/
  numberText : Number → Decimal
  /-- a finite binary float, printed -/
  floatText : F → Option String
  rowidToChar : R → String
  /-- `CHARTOROWID` of a literal -/
  charToRowid : String → Option R
  /-- what a literal denotes beside a column of the type -/
  literalValue : OracleType → String → Option (Value F)

inductive ReadError where
  | fatal (message : String)
  /-- the server refuses the statement -/
  | refused
  deriving DecidableEq, Repr

/-! ## One statement -/

/-- The rows a statement asks for, with the literals it is written with. -/
inductive Predicate where
  | all
  | pastRowid (tie : String)
  | above (watermark : String)
  | pastTie (watermark tie : String)
  deriving DecidableEq, Repr

/-- A statement reads the whole row, by the column and ROWID or by ROWID alone. -/
structure Statement where
  column : Option ColumnInfo
  predicate : Predicate
  deriving DecidableEq, Repr

def selectSql (cursor : Option ColumnInfo) (resume : Option StreamCursor) :
    Except String Statement :=
  match cursor with
  | none =>
    -- a full read resumes past the last ROWID seen
    match resume.bind StreamCursor.tie with
    | some tie => do return ⟨none, .pastRowid (← rowidLiteral tie)⟩
    | none => .ok ⟨none, .all⟩
  | some column =>
    match resume with
    | none => .ok ⟨some column, .all⟩
    | some state => do
      let watermark ← checkedWatermarkLiteral state.watermark
      match state.tie with
      | some tie => return ⟨some column, .pastTie watermark (← rowidLiteral tie)⟩
      | none => return ⟨some column, .above watermark⟩

/-- A value's place in ascending order: NULL comes last. -/
def nullsLast : Option (Value F) → WithTop (Value F)
  | some v => v
  | none => ⊤

def rank (column : Option ColumnInfo) (row : Row R F) : WithTop (Value F) :=
  match column with
  | some column => nullsLast (row.values column.name)
  | none => ⊤

/-- The order of a statement: by the column's value, then by ROWID. -/
def orderKey (column : Option ColumnInfo) (row : Row R F) : WithTop (Value F) ×ₗ R :=
  toLex (rank column row, row.rowid)

variable [LinearOrder R] [LinearOrder F]

/-- The rows a predicate keeps; a literal the server cannot read is refused. -/
def keeps (server : Server R F) (statement : Statement) : Except ReadError (Row R F → Bool) :=
  match statement.predicate, statement.column with
  | .all, _ => .ok fun _ => true
  | .pastRowid tie, _ =>
    match server.charToRowid tie with
    | some rowid => .ok fun row => rowid < row.rowid
    | none => .error .refused
  | .above watermark, some column =>
    match server.literalValue column.oracleType watermark with
    | some value => .ok fun row => (row.values column.name).any fun v => value < v
    | none => .error .refused
  | .pastTie watermark tie, some column =>
    match server.literalValue column.oracleType watermark, server.charToRowid tie with
    | some value, some rowid => .ok fun row => (row.values column.name).any fun v =>
        value < v || (v == value && rowid < row.rowid)
    | _, _ => .error .refused
  | _, none => .error .refused

def answer (server : Server R F) (rows : List (Row R F)) (statement : Statement) :
    Except ReadError (List (Row R F)) :=
  (keeps server statement).map fun keep => Keyset.select (orderKey statement.column) keep rows

/-! ## One chunk -/

/-- The watermark, rendered by the declared type. -/
def watermarkText (server : Server R F) (kind : DataType) (value : Option (Value F)) :
    Except String String :=
  let text := match kind, value with
    | .timestamp _, some (.stamp t) => some (String.ofList (isoMicros t.val))
    | .int64, some (.number n) => n.toInt64.map fun v => String.ofList (Decimal.ofInt v).text
    | .float64, some (.float f) => server.floatText f
    | .decimal128 _ _, some (.number n) | .utf8, some (.number n) =>
      some (String.ofList (server.numberText n).text)
    | _, _ => none
  match text with
  | some text => .ok text
  | none => .error "the cursor column yielded a value no watermark can represent — choose another cursor, or read the stream without one"

structure Chunk (R F : Type) where
  batch : List (Row R F)
  /-- the last row's watermark and ROWID; a stream without a cursor has only the second -/
  lastSeen : Option (Option String × String)
  exhausted : Bool

/-- What a stream is read with; the configuration refuses a batch of no rows. -/
structure Reader (R F : Type) where
  server : Server R F
  stream : String
  table : String
  described : List ColumnInfo
  batchRows : Nat
  batchRows_pos : 0 < batchRows

namespace Reader

variable (reader : Reader R F)

/-- The watermark of a row, where the stream has a cursor column. -/
def watermark (cursor : Option ColumnInfo) (row : Row R F) : Except String (Option String) :=
  match cursor with
  | none => .ok none
  | some column => do
    let kind ← arrowType reader.server.typeText column.name column.oracleType
    return some (← watermarkText reader.server kind (row.values column.name))

/-- Pull rows until the batch is full or there are no more. -/
def fill (cursor : Option ColumnInfo) : List (Row R F) → List (Row R F) →
    Option (Option String × String) → Except String (Chunk R F)
  | [], batch, lastSeen => .ok ⟨batch, lastSeen, true⟩
  | row :: rows, batch, _ =>
    match reader.watermark cursor row with
    | .error e => .error e
    | .ok watermark =>
      let lastSeen := some (watermark, reader.server.rowidToChar row.rowid)
      if reader.batchRows ≤ batch.length + 1 then .ok ⟨batch ++ [row], lastSeen, false⟩
      else fill cursor rows (batch ++ [row]) lastSeen

def fetchChunk (cursor : Option ColumnInfo) (position : Option StreamCursor)
    (rows : List (Row R F)) : Except ReadError (Option (Chunk R F)) :=
  match selectSql cursor position with
  | .error message => .error (.fatal message)
  | .ok statement =>
    match answer reader.server rows statement with
    | .error e => .error e
    | .ok answered =>
      match reader.fill cursor answered [] none with
      | .error message => .error (.fatal message)
      | .ok chunk => .ok (if chunk.batch.length = 0 then none else some chunk)

end Reader

/-! ## A run -/

inductive Phase where
  | reading
  | finished
  | failed (error : ReadError)
  deriving DecidableEq, Repr

/-- A call of `read_stream`: where it is, the record it advances, what it fed, and the
checkpoints it emitted. -/
structure Run (R F : Type) where
  cursorAt : Option ColumnInfo
  position : Option StreamCursor
  cursor : OracleCursor
  fed : List (List (Row R F))
  checkpoints : List OracleCursor
  phase : Phase

def Run.failed (error : ReadError) : Run R F := ⟨none, none, .default, [], [], .failed error⟩

namespace Reader

variable (reader : Reader R F)

/-- The cursor column is checked and the position taken from the persisted record. -/
def start (persisted : Option OracleCursor) (cursor : Option String) : Run R F :=
  match OracleCursor.decode persisted with
  | .error message => .failed (.fatal message)
  | .ok record =>
    let resume := record.streams.lookup reader.stream
    match cursor with
    | none => ⟨none, resume, record, [], [], .reading⟩
    | some column =>
      match validateCursor reader.server.typeText reader.stream reader.table reader.described
          column with
      | .error message => .failed (.fatal message)
      | .ok column => ⟨some column, resume, record, [], [], .reading⟩

/-- A turn of the loop. -/
def turn (rows : List (Row R F)) (run : Run R F) : Run R F :=
  match reader.fetchChunk run.cursorAt run.position rows with
  | .error e => { run with phase := .failed e }
  | .ok none => { run with phase := .finished }
  | .ok (some chunk) =>
    let moved : Run R F := { run with
      fed := run.fed ++ [chunk.batch]
      position := match chunk.lastSeen with
        | some (watermark, tie) => some ⟨watermark.getD "", some tie⟩
        | none => run.position
      phase := if chunk.exhausted then .finished else .reading }
    match run.cursorAt, chunk.lastSeen with
    | some _, some (some watermark, tie) =>
      let cursor := run.cursor.advance reader.stream watermark (some tie)
      { moved with cursor := cursor, checkpoints := run.checkpoints ++ [cursor] }
    | _, _ => moved

end Reader

/-- The rows a run leaves delivered: those behind the kept checkpoints, and without a cursor
column those of a run that came to its end. -/
def Run.kept (run : Run R F) (keep : Nat) : List (Row R F) :=
  match run.cursorAt with
  | some _ => (run.fed.take keep).flatten
  | none => if run.phase = .finished then run.fed.flatten else []

/-! ## Runs after runs -/

structure World (R F : Type) where
  rows : List (Row R F)
  persisted : Option OracleCursor
  /-- every row delivered, with the cursor column of the run that delivered it -/
  delivered : List (Option ColumnInfo × Row R F)
  run : Option (Run R F)

inductive Event (R F : Type) where
  | begin (cursor : Option String)
  | turn
  /-- the run ends, and `keep` of the checkpoints it emitted are kept -/
  | stop (keep : Nat)
  | insert (row : Row R F)

def World.start (rows : List (Row R F)) : World R F := ⟨rows, none, [], none⟩

def Reader.act (reader : Reader R F) (w : World R F) : Event R F → World R F
  | .begin cursor =>
    match w.run with
    | none => { w with run := some (reader.start w.persisted cursor) }
    | some _ => w
  | .turn =>
    match w.run with
    | some run =>
      if run.phase = .reading then { w with run := some (reader.turn w.rows run) } else w
    | none => w
  | .stop keep =>
    match w.run with
    | some run => { w with
        persisted := (run.checkpoints.take keep).getLast?.or w.persisted
        delivered := w.delivered ++ (run.kept keep).map fun row => (run.cursorAt, row)
        run := none }
    | none => w
  | .insert row => { w with rows := w.rows ++ [row] }

end Oracle
