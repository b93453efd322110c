import Mathlib.Data.List.DropRight
import RdltConnectors.Duckdb.Types
import RdltConnectors.Library.Digits
import RdltConnectors.Library.Nesting
import RdltConnectors.Library.Separator
import RdltConnectors.Sqlcore.Options
import RdltConnectors.Sqlcore.Quote

/-!
# The texts of DuckDB's column types

A column is created with the text of a type, and the catalog reports the type as a text again,
in which the database quotes the names it has to. The destination reads the type of a column off
that text.
-/
namespace DuckText

open Sqlcore (LogicalType quoteIdentifier identifierLexis isWhitespace)
open Duckdb (SqlType SqlFields)
open Nesting (Marks)
open Separator (splitOnce)

variable {P : Type}

/-! ## Column types -/

mutual

/-- A column type with all that its struct fields carry. -/
inductive ColumnType (P : Type) where
  | scalar (scalar : LogicalType)
  | struct (fields : Columns P)
  | scalarList (item : LogicalType)
  deriving DecidableEq

inductive Columns (P : Type) where
  | nil
  | cons (name : String) (columnType : ColumnType P) (nullable : Bool) (provenance : P)
      (rest : Columns P)
  deriving DecidableEq

end

mutual

/-- What stays of a type in the catalog. -/
def ColumnType.plain : ColumnType P → Sqlcore.ColumnType
  | .scalar scalar => .scalar scalar
  | .struct fields => .struct fields.plain
  | .scalarList item => .scalarList item

def Columns.plain : Columns P → Sqlcore.Fields
  | .nil => .nil
  | .cons name columnType _ _ rest => .cons name columnType.plain rest.plain

end

/-! ## Creating a column -/

def scalarType (isStage : Bool) : LogicalType → String
  | .bool => "BOOLEAN"
  | .int64 => "BIGINT"
  | .float64 => "DOUBLE"
  | .decimal precision scale => s!"DECIMAL({precision},{scale})"
  | .json => if isStage then "VARCHAR" else "JSON"
  | .utf8 | .uuid => "VARCHAR"
  | .binary => "BLOB"
  | .timestampTz => "TIMESTAMP WITH TIME ZONE"
  | .timestampNaive => "TIMESTAMP"
  | .date => "DATE"
  | .time => "TIME"

mutual

/-- Lower one column type. -/
def sqlType (isStage : Bool) : ColumnType P → String
  | .scalar scalar => scalarType isStage scalar
  | .struct fields => "STRUCT(" ++ String.intercalate ", " (sqlFields isStage fields) ++ ")"
  | .scalarList item => s!"{scalarType isStage item}[]"

def sqlFields (isStage : Bool) : Columns P → List String
  | .nil => []
  | .cons name columnType _ _ rest =>
    s!"{quoteIdentifier name} {sqlType isStage columnType}" :: sqlFields isStage rest

end

/-! ## Reading a type back -/

def trimStart (text : List Char) : List Char := text.dropWhile isWhitespace

def trim (text : List Char) : List Char := (trimStart text).rdropWhile isWhitespace

def scalarNames : List (String × LogicalType) :=
  [("BOOLEAN", .bool), ("BIGINT", .int64), ("DOUBLE", .float64), ("VARCHAR", .utf8),
    ("BLOB", .binary), ("TIMESTAMP WITH TIME ZONE", .timestampTz), ("TIMESTAMP", .timestampNaive),
    ("DATE", .date), ("TIME", .time), ("JSON", .json)]

def scalarTypeOf (duckdbType : List Char) : Option LogicalType :=
  scalarNames.lookup (String.ofList duckdbType)

/-- The numbers of a decimal are bytes. -/
def parseU8 (text : List Char) : Option Nat :=
  let digits := match text with
    | '+' :: rest => rest
    | _ => text
  if digits ≠ [] ∧ digits.all Char.isDigit ∧ Digits.value digits < 256 then some (Digits.value digits)
  else none

def decimalTypeOf (duckdbType : List Char) : Option LogicalType := do
  let body ← (duckdbType.dropPrefix? "DECIMAL(".toList).bind fun s => s.dropSuffix? [')']
  let (precision, scale) ← splitOnce ',' body
  return .decimal (← parseU8 (trim precision)) (← parseU8 (trim scale))

def marks : Marks Char := ⟨'"', '(', ')', ','⟩

/-- Split the body of a struct on its top-level commas. -/
def splitTopLevel (body : List Char) : List (List Char) := marks.split 0 false body

/-- A field's leading identifier, quoted or bare, and the text of the type that follows it. -/
def splitIdentifier (field : List Char) : Option (String × List Char) :=
  match field with
  | '"' :: rest =>
    (identifierLexis.body rest).map fun (name, behind) => (String.ofList name, trimStart behind)
  | _ =>
    match field.dropWhile fun c => !isWhitespace c with
    | [] => none
    | behind => some (String.ofList (field.takeWhile fun c => !isWhitespace c), trimStart behind)

section Read

variable (inferred : P)

/-- The fields of a struct; one that cannot be read refuses all. -/
def readFields (read : List Char → Option (ColumnType P)) : List (List Char) → Option (Columns P)
  | [] => some .nil
  | field :: rest => do
    let (name, type) ← splitIdentifier (trim field)
    let columnType ← read (trim type)
    let rest ← readFields read rest
    return .cons name columnType true inferred rest

/-- Structs nest less deeply than their text is long. -/
def columnTypeWithin : Nat → List Char → Option (ColumnType P)
  | 0, _ => none
  | depth + 1, duckdbType =>
    match duckdbType.dropSuffix? ['[', ']'] with
    | some item => (scalarTypeOf item).map .scalarList
    | none =>
      match (duckdbType.dropPrefix? "STRUCT(".toList).bind fun s => s.dropSuffix? [')'] with
      | some body => (readFields inferred (columnTypeWithin depth) (splitTopLevel body)).map .struct
      | none => (scalarTypeOf duckdbType <|> decimalTypeOf duckdbType).map .scalar

/-- An unrecognized spelling is omitted, never guessed. -/
def columnTypeOf (duckdbType : String) : Option (ColumnType P) :=
  columnTypeWithin inferred (duckdbType.toList.length + 1) duckdbType.toList

end Read

/-! ## What the catalog reports -/

def nameText (bare : String → Bool) (name : String) : String :=
  if bare name then name else quoteIdentifier name

mutual

/-- The text of a type; `bare` are the names that the database leaves unquoted. -/
def typeText (bare : String → Bool) : SqlType → String
  | .boolean => "BOOLEAN"
  | .bigint => "BIGINT"
  | .double => "DOUBLE"
  | .decimal precision scale => s!"DECIMAL({precision},{scale})"
  | .varchar => "VARCHAR"
  | .json => "JSON"
  | .blob => "BLOB"
  | .timestampTz => "TIMESTAMP WITH TIME ZONE"
  | .timestamp => "TIMESTAMP"
  | .date => "DATE"
  | .time => "TIME"
  | .list item => s!"{typeText bare item}[]"
  | .struct fields => "STRUCT(" ++ String.intercalate ", " (fieldTexts bare fields) ++ ")"

def fieldTexts (bare : String → Bool) : SqlFields → List String
  | .nil => []
  | .cons name type rest => s!"{nameText bare name} {typeText bare type}" :: fieldTexts bare rest

end

end DuckText
