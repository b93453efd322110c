import RdltConnectors.Sqlcore.Schema

/-!
# DuckDB's column types

A column type is lowered to a type of the database and read back from the catalog,
where it is known. The destination has a widening order of its own, smaller than the
one by which types are joined within a run.
-/
namespace Duckdb

open Sqlcore

mutual

/-- The types of the database that columns are created with. -/
inductive SqlType where
  | boolean
  | bigint
  | double
  | decimal (precision scale : Nat)
  | varchar
  | json
  | blob
  | timestampTz
  | timestamp
  | date
  | time
  | list (item : SqlType)
  | struct (fields : SqlFields)
  deriving DecidableEq, Repr

inductive SqlFields where
  | nil
  | cons (name : String) (type : SqlType) (rest : SqlFields)
  deriving DecidableEq, Repr

end

/-- A stage takes documents as text; their cast on the way to the target checks them. -/
def scalarType (isStage : Bool) : LogicalType → SqlType
  | .bool => .boolean
  | .int64 => .bigint
  | .float64 => .double
  | .decimal precision scale => .decimal precision scale
  | .json => if isStage then .varchar else .json
  | .utf8 | .uuid => .varchar
  | .binary => .blob
  | .timestampTz => .timestampTz
  | .timestampNaive => .timestamp
  | .date => .date
  | .time => .time

mutual

def sqlType (isStage : Bool) : ColumnType → SqlType
  | .scalar scalar => scalarType isStage scalar
  | .struct fields => .struct (sqlFields isStage fields)
  | .scalarList item => .list (scalarType isStage item)

def sqlFields (isStage : Bool) : Fields → SqlFields
  | .nil => .nil
  | .cons name columnType rest => .cons name (sqlType isStage columnType) (sqlFields isStage rest)

end

/-! ## Reading a type back -/

def scalarTypeOf : SqlType → Option LogicalType
  | .boolean => some .bool
  | .bigint => some .int64
  | .double => some .float64
  | .varchar => some .utf8
  | .blob => some .binary
  | .timestampTz => some .timestampTz
  | .timestamp => some .timestampNaive
  | .date => some .date
  | .time => some .time
  | .json => some .json
  | _ => none

mutual

/-- A type this destination does not know is omitted, never guessed. -/
def columnTypeOf : SqlType → Option ColumnType
  | .list item => (scalarTypeOf item).map ColumnType.scalarList
  | .struct fields => (fieldsOf fields).map ColumnType.struct
  | .decimal precision scale => some (.scalar (.decimal precision scale))
  | type => (scalarTypeOf type).map ColumnType.scalar

def fieldsOf : SqlFields → Option Fields
  | .nil => some .nil
  | .cons name type rest => do
    let columnType ← columnTypeOf type
    let rest ← fieldsOf rest
    return .cons name columnType rest

end

theorem scalarType_of_scalarTypeOf {type : SqlType} {scalar : LogicalType}
    (h : scalarTypeOf type = some scalar) : scalarType false scalar = type := by
  cases type <;> simp only [scalarTypeOf, Option.some.injEq, reduceCtorEq] at h <;> subst h <;> rfl

mutual

/-- What is read back stands for the type it was read from. -/
theorem sqlType_of_columnTypeOf : ∀ {type : SqlType} {columnType : ColumnType},
    columnTypeOf type = some columnType → sqlType false columnType = type
  | .list item, columnType, h => by
    obtain ⟨scalar, hscalar, rfl⟩ := Option.map_eq_some_iff.1 h
    exact congrArg SqlType.list (scalarType_of_scalarTypeOf hscalar)
  | .struct fields, columnType, h => by
    obtain ⟨read, hread, rfl⟩ := Option.map_eq_some_iff.1 h
    exact congrArg SqlType.struct (sqlFields_of_fieldsOf hread)
  | .decimal _ _, _, h => by
    obtain rfl := Option.some.inj h
    rfl
  | .boolean, _, h | .bigint, _, h | .double, _, h | .varchar, _, h | .json, _, h | .blob, _, h
  | .timestampTz, _, h | .timestamp, _, h | .date, _, h | .time, _, h => by
    obtain rfl := Option.some.inj h
    rfl

theorem sqlFields_of_fieldsOf : ∀ {fields : SqlFields} {read : Fields},
    fieldsOf fields = some read → sqlFields false read = fields
  | .nil, _, h => by
    obtain rfl := Option.some.inj h
    rfl
  | .cons name type rest, _, h => by
    obtain ⟨columnType, htype, h⟩ := Option.bind_eq_some_iff.1 h
    obtain ⟨more, hmore, h⟩ := Option.bind_eq_some_iff.1 h
    obtain rfl := Option.some.inj h
    exact congrArg₂ (SqlFields.cons name) (sqlType_of_columnTypeOf htype) (sqlFields_of_fieldsOf hmore)

end

/-! ## The widening order -/

mutual

/-- Whether binary data appears anywhere in the type. -/
def hasBinary : ColumnType → Bool
  | .scalar scalar => scalar = .binary
  | .scalarList item => item = .binary
  | .struct fields => anyBinary fields

def anyBinary : Fields → Bool
  | .nil => false
  | .cons _ columnType rest => hasBinary columnType || anyBinary rest

end

/-- The widenings made across runs. Integers to floats are not among them: a column of
committed integers cannot be checked value by value. -/
def isWidening (old new : ColumnType) : Bool :=
  if hasBinary old then false
  else match old, new with
    | _, .scalar .utf8 | _, .scalar .json => true
    | .scalar .int64, .scalar (.decimal precision scale) => 19 ≤ precision - scale
    | .scalar (.decimal precision scale), .scalar (.decimal precision' scale') =>
      scale ≤ scale' && precision - scale ≤ precision' - scale'
    | _, _ => false

end Duckdb
