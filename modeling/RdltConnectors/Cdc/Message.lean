import Mathlib
import RdltConnectors.Postgres.Vocabulary
import RdltConnectors.Postgres.Errors

/-!
# Logical replication messages

The decoded protocol messages a change pass consumes, and what it is told about
the stream it reads: the columns of the decode plan, the replica identity, and
where batches are cut.
-/
namespace Cdc

open PgTypes

inductive TupleValue where
  | null
  /-- an out-of-line value the update did not carry -/
  | unchangedToast
  | text (bytes : ByteArray)
  deriving DecidableEq

structure TupleData where
  values : List TupleValue
  deriving DecidableEq

structure RelationColumn where
  name : String
  deriving DecidableEq, Repr

structure Relation where
  id : Nat
  namespace_ : String
  name : String
  columns : List RelationColumn
  deriving DecidableEq, Repr

inductive Message where
  | begin
  | commit
  | relation (relation : Relation)
  | insert (relation : Nat) (new : TupleData)
  | update (relation : Nat) (old : Option TupleData) (new : TupleData)
  | delete (relation : Nat) (old : TupleData)
  | truncate (relations : List Nat)
  | origin
  | type
  deriving DecidableEq

/-- Neither end of a transaction. -/
def Message.isChange : Message → Bool
  | .begin => false
  | .commit => false
  | _ => true

structure Identity where
  key : List String
  coversAllColumns : Bool
  deriving DecidableEq, Repr

structure StreamContext where
  schema : String
  columns : List Column
  identity : Identity
  batchMaxRows : Nat
  flagColumn : String
  deriving DecidableEq, Repr

/-- One cell of one change row: SQL NULL or the text form. -/
inductive Cell where
  | null
  | text (text : String)
  deriving DecidableEq, Repr

/-- A change row and whether it deletes its key. -/
abbrev Row := List Cell × Bool

/-- The column builder that turns text forms into array values. -/
structure ColumnBuilder (V : Type) where
  new : Kind → Except String Unit
  appendText : Kind → String → Except String V

/-- Column arrays over one set of rows, and the trailing deletion flag. -/
structure RecordBatch (V : Type) where
  columns : List String
  arrays : List (List (Option V))
  flag : List (Option Bool)
  deriving DecidableEq, Repr

inductive Emit (V : Type) where
  | batch (batch : RecordBatch V)
  | checkpoint (lsn : Nat)
  deriving DecidableEq, Repr

end Cdc
