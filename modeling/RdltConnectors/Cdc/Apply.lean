import RdltConnectors.Cdc.Message

/-!
# The per-stream apply state machine

Change messages are buffered by transaction, kept or discarded at the commit,
cut into batches there, and checkpointed at commit positions only. An
unappliable record is remembered and raised at its commit; a relation that lost
a planned column is refused as soon as it arrives.
-/
namespace Cdc

open PgTypes

variable {V : Type}

/-! ## Change batches -/

def columnError (column : Column) (detail : String) : String :=
  s!"column `{column.name}`: {detail}"

def cellValue (builder : ColumnBuilder V) (column : Column) : Cell → Except String (Option V)
  | .null => .ok none
  | .text text => ((builder.appendText column.kind text).mapError (columnError column)).map some

/-- One column's array; every change row has a cell for every column. -/
def columnArray (builder : ColumnBuilder V) (rows : List (List Cell)) (indexed : Column × Nat) :
    Except String (List (Option V)) := do
  (builder.new indexed.1.kind).mapError (columnError indexed.1)
  rows.mapM fun row => cellValue builder indexed.1 (row.getD indexed.2 .null)

def flagValue (isDelete : Bool) : Option Bool := if isDelete then some true else none

def batchOf (builder : ColumnBuilder V) (columns : List Column) (flagColumn : String)
    (rows : List (List Cell)) (deleted : List Bool) : Except String (RecordBatch V) := do
  let arrays ← columns.zipIdx.mapM (columnArray builder rows)
  pure ⟨columns.map Column.name ++ [flagColumn], arrays, deleted.map flagValue⟩

/-! ## The stream's decode plan -/

/-- What `Apply` borrows from its context, and the resolved key columns. -/
structure Plan where
  schema : String
  stream : String
  identity : Identity
  columns : List Column
  batchMaxRows : Nat
  flagColumn : String
  keyIndices : List Nat
  deriving DecidableEq, Repr

structure Apply where
  since : Nat
  relationMaps : Nat → Option (Option (List Nat))
  transactionRows : List Row
  readyRows : List Row
  lastCommit : Option Nat
  transactionError : Option SourceError

def Apply.empty (since : Nat) : Apply := ⟨since, fun _ => none, [], [], none, none⟩

/-- Refuses a key column that the decode plan does not carry. -/
def Plan.new (context : StreamContext) (stream : String) : Except SourceError Plan := do
  let keyIndices ← context.identity.key.mapM fun key =>
    match context.columns.findIdx? fun column => column.name == key with
    | some index => pure index
    | none =>
      throw ⟨.slot, some stream, s!"replica-identity key column `{key}` is missing from the decode plan — every key column must survive the column selection"⟩
  pure ⟨context.schema, stream, context.identity, context.columns, context.batchMaxRows,
    context.flagColumn, keyIndices⟩

def Apply.new (context : StreamContext) (stream : String) (since : Nat) :
    Except SourceError (Plan × Apply) := do
  let p ← Plan.new context stream
  pure (p, Apply.empty since)

def Plan.fatal (p : Plan) (detail : String) : SourceError := ⟨.decode, some p.stream, detail⟩

/-- Plan column to relation column, by name; extra relation columns are ignored. -/
def Plan.planMap (p : Plan) (relation : Relation) : Except SourceError (List Nat) :=
  p.columns.mapM fun column =>
    match relation.columns.findIdx? fun c => c.name == column.name with
    | some index => pure index
    | none =>
      throw (p.fatal s!"column `{column.name}` vanished from the replicated table (non-additive schema drift)")

/-- The relation is the stream's own table. -/
def Plan.selects (p : Plan) (relation : Relation) : Bool :=
  relation.namespace_ == p.schema && relation.name == p.stream

def Plan.textCell (p : Plan) (bytes : ByteArray) (column : String) : Except SourceError Cell :=
  match String.fromUTF8? bytes with
  | some text => pure (.text text)
  | none => throw (p.fatal s!"column `{column}`: tuple text is not UTF-8")

def Plan.toastError (p : Plan) (column : String) : SourceError :=
  p.fatal s!"unchanged TOAST value in column `{column}` and no old image to substitute from — `ALTER TABLE {p.schema}.{p.stream} REPLICA IDENTITY FULL` to retain TOAST values"

def Plan.keyToastError (p : Plan) : SourceError :=
  p.fatal "key column arrived as an unchanged-TOAST marker — unusable key data"

def Plan.keylessDeleteError (p : Plan) : SourceError :=
  p.fatal "delete record carries no usable key data — the table's replica identity was weakened mid-stream; restore it"

/-- Plan-ordered cells; an unchanged out-of-line value is taken from the old
image when the replica identity covers all columns. -/
def Plan.tupleRow (p : Plan) (map : List Nat) (tuple : TupleData) (old : Option TupleData) :
    Except SourceError (List Cell) :=
  (map.zip p.columns).mapM fun (relationIndex, column) =>
    match tuple.values[relationIndex]? with
    | none => throw (p.fatal s!"tuple lacks column `{column.name}`")
    | some .null => pure .null
    | some (.text bytes) => p.textCell bytes column.name
    | some .unchangedToast =>
      match old.bind fun oldTuple => oldTuple.values[relationIndex]? with
      | some (.text bytes) =>
        if p.identity.coversAllColumns then p.textCell bytes column.name
        else throw (p.toastError column.name)
      | _ => throw (p.toastError column.name)

def Plan.columnName (p : Plan) (index : Nat) : String :=
  (p.columns[index]?.map Column.name).getD ""

/-- The key cells of an old tuple, key-ordered. -/
def Plan.keyCells (p : Plan) (map : List Nat) (tuple : TupleData) :
    Except SourceError (List Cell) :=
  p.keyIndices.mapM fun columnIndex =>
    match tuple.values[map.getD columnIndex 0]? with
    | none => pure .null
    | some .null => pure .null
    | some (.text bytes) => p.textCell bytes (p.columnName columnIndex)
    | some .unchangedToast => throw p.keyToastError

/-- Key cells in place and every other column NULL. -/
def Plan.deleteRow (p : Plan) (key : List Cell) : List Cell :=
  (p.keyIndices.zip key).foldl (fun row (columnIndex, cell) => row.set columnIndex cell)
    (List.replicate p.columns.length .null)

/-! ## One change message -/

def Plan.insertRows (p : Plan) (map : List Nat) (new : TupleData) : Except SourceError (List Row) := do
  let row ← p.tupleRow map new none
  pure [(row, false)]

/-- An old key cell that is NULL never counts as changed. -/
def keyChanged (oldKey newKey : List Cell) : Bool :=
  (oldKey.zip newKey).any fun (old, new) => old != .null && old != new

/-- A key-changing update is a delete of the old key and then the new row. -/
def Plan.updateRows (p : Plan) (map : List Nat) (old : Option TupleData) (new : TupleData) :
    Except SourceError (List Row) := do
  let oldKey ← old.mapM (p.keyCells map)
  let newRow ← p.tupleRow map new old
  let newKey := p.keyIndices.map fun index => newRow.getD index .null
  match oldKey with
  | some oldKey =>
    if keyChanged oldKey newKey then pure [(p.deleteRow oldKey, true), (newRow, false)]
    else pure [(newRow, false)]
  | none => pure [(newRow, false)]

def Plan.deleteRows (p : Plan) (map : List Nat) (old : TupleData) : Except SourceError (List Row) := do
  let key ← p.keyCells map old
  if key.any fun cell => cell == .null then
    throw p.keylessDeleteError
  else pure [(p.deleteRow key, true)]

def Plan.truncateError (p : Plan) : SourceError :=
  p.fatal "TRUNCATE arrived on this table — truncation does not replicate as row deletes; reset the stream's pipeline state AND re-initialize the destination table (a fresh snapshot starts PAST the truncation but cannot remove rows the truncation deleted), or stop truncating published tables"

/-! ## The state machine -/

def Apply.ourMap (a : Apply) (relation : Nat) : Option (List Nat) :=
  (a.relationMaps relation).bind id

/-- Only the transaction's first unappliable record is kept. -/
def Apply.defer (a : Apply) (error : SourceError) : Apply :=
  if a.transactionError.isNone then { a with transactionError := some error } else a

/-- A change's rows join the transaction, or its failure is deferred. -/
def Apply.record (a : Apply) : Except SourceError (List Row) → Apply
  | .ok rows => { a with transactionRows := a.transactionRows ++ rows }
  | .error e => a.defer e

def Apply.flush (builder : ColumnBuilder V) (p : Plan) (a : Apply) (emitCheckpoint : Bool) :
    Except SourceError (Apply × List (Emit V)) :=
  if a.readyRows.isEmpty then .ok (a, [])
  else
    match batchOf builder p.columns p.flagColumn (a.readyRows.map Prod.fst)
        (a.readyRows.map Prod.snd) with
    | .error detail => .error (p.fatal detail)
    | .ok batch =>
      let checkpoint : List (Emit V) :=
        match emitCheckpoint, a.lastCommit with
        | true, some commit => [.checkpoint commit]
        | _, _ => []
      .ok ({ a with readyRows := [] }, .batch batch :: checkpoint)

/-- The commit decides: rows and error of an applied transaction are dropped. -/
def Apply.commit (builder : ColumnBuilder V) (p : Plan) (a : Apply) (lsn : Nat) :
    Except SourceError (Apply × List (Emit V)) :=
  let taken := { a with transactionRows := [], transactionError := none }
  if lsn ≤ a.since then .ok (taken, [])
  else
    match a.transactionError with
    | some error => .error error
    | none =>
      let ready := { taken with
        readyRows := a.readyRows ++ a.transactionRows, lastCommit := some lsn }
      if ready.readyRows.length ≥ p.batchMaxRows then ready.flush builder p true
      else .ok (ready, [])

def Apply.onMessage (builder : ColumnBuilder V) (p : Plan) (a : Apply) (lsn : Nat) :
    Message → Except SourceError (Apply × List (Emit V))
  | .begin => .ok ({ a with transactionRows := [] }, [])
  | .relation relation =>
    if p.selects relation then
      match p.planMap relation with
      | .error e => .error e
      | .ok map =>
        .ok ({ a with relationMaps := fun id =>
          if id = relation.id then some (some map) else a.relationMaps id }, [])
    else
      .ok ({ a with relationMaps := fun id =>
        if id = relation.id then some none else a.relationMaps id }, [])
  | .insert relation new =>
    match a.ourMap relation with
    | some map => .ok (a.record (p.insertRows map new), [])
    | none => .ok (a, [])
  | .update relation old new =>
    match a.ourMap relation with
    | some map => .ok (a.record (p.updateRows map old new), [])
    | none => .ok (a, [])
  | .delete relation old =>
    match a.ourMap relation with
    | some map => .ok (a.record (p.deleteRows map old), [])
    | none => .ok (a, [])
  | .truncate relations =>
    if relations.any fun id => (a.ourMap id).isSome then .ok (a.defer p.truncateError, [])
    else .ok (a, [])
  | .commit => a.commit builder p lsn
  | .origin => .ok (a, [])
  | .type => .ok (a, [])

/-- The end of the peeked range: an open transaction is dropped. -/
def Apply.finish (builder : ColumnBuilder V) (p : Plan) (a : Apply) (target : Nat) :
    Except SourceError (List (Emit V)) :=
  match ({ a with transactionRows := [], transactionError := none } : Apply).flush builder p
      false with
  | .error e => .error e
  | .ok (_, emits) => .ok (emits ++ [.checkpoint (max target a.since)])

/-! ## A change pass -/

/-- What a pass handed to the feed, in order, and how it ended. A crash or a
cancellation leaves the destination with a prefix of it. -/
structure Pass (V : Type) where
  emits : List (Emit V)
  result : Except SourceError Unit

/-- The peek loop: each message's emits are delivered before the next is read. -/
def consume (builder : ColumnBuilder V) (p : Plan) (target : Nat) (a : Apply) :
    List (Nat × Message) → Pass V
  | [] =>
    match a.finish builder p target with
    | .error e => ⟨[], .error e⟩
    | .ok emits => ⟨emits, .ok ()⟩
  | (lsn, message) :: changes =>
    match a.onMessage builder p lsn message with
    | .error e => ⟨[], .error e⟩
    | .ok (a', emits) =>
      let rest := consume builder p target a' changes
      ⟨emits ++ rest.emits, rest.result⟩

def changePass (builder : ColumnBuilder V) (context : StreamContext) (stream : String)
    (since target : Nat) (changes : List (Nat × Message)) : Pass V :=
  match Apply.new context stream since with
  | .error e => ⟨[], .error e⟩
  | .ok (p, a) => consume builder p target a changes

end Cdc
