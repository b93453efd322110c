/-!
# Column kinds

The closed vocabulary every face of the connector speaks: the kind a catalog
type maps to, and a column as the decoders see it.
-/
namespace PgTypes

inductive Kind where
  | bool
  | int16
  | int32
  | int64
  | float32
  | float64
  | decimal (precision scale : Nat)
  | text
  | jsonb
  | uuid
  | bytea
  | timestampTz
  | timestampNaive
  | date
  | time
  deriving DecidableEq, Repr

structure Column where
  name : String
  kind : Kind
  notNull : Bool
  deriving DecidableEq, Repr

end PgTypes
