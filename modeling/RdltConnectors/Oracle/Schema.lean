import Mathlib.Data.List.Basic

/-!
# Oracle's declared types and the cursor column

Every declared type has an Arrow type or is refused by name. A cursor column must exist,
must order, and must not admit NULLs; the check stands before the first row is read.
-/
namespace Oracle

inductive OracleType where
  | number (precision : Nat) (scale : Int)
  | float (precision : Nat)
  | binaryFloat
  | binaryDouble
  | int64
  | uint64
  | varchar2 (size : Nat)
  | nvarchar2 (size : Nat)
  | char (size : Nat)
  | nchar (size : Nat)
  | long
  | clob
  | nclob
  | rowid
  | xml
  | raw (size : Nat)
  | longRaw
  | blob
  | date
  | timestamp (precision : Nat)
  | timestampTZ (precision : Nat)
  | timestampLTZ (precision : Nat)
  | boolean
  | json
  | other (name : String)
  deriving DecidableEq, Repr

inductive DataType where
  | int64
  | float64
  | decimal128 (precision : Nat) (scale : Int)
  | utf8
  | binary
  | timestamp (zone : Option String)
  | boolean
  deriving DecidableEq, Repr

/-- A column as the server describes it. -/
structure ColumnInfo where
  name : String
  oracleType : OracleType
  nullable : Bool
  deriving DecidableEq, Repr

/-- NUMBER's three cases. -/
def numberType (precision : Nat) (scale : Int) : DataType :=
  if precision < scale then .utf8
  else if scale < 0 ∨ precision = 0 ∨ 38 < precision then .utf8
  else if scale = 0 ∧ precision ≤ 18 then .int64
  else .decimal128 precision scale

/-- The Arrow type of one column, or the reason it has none; `typeText` is the driver's spelling
of a declared type. -/
def arrowType (typeText : OracleType → String) (name : String) :
    OracleType → Except String DataType
  | .number precision scale => .ok (numberType precision scale)
  | .binaryFloat | .binaryDouble => .ok .float64
  -- a NUMBER with a binary precision, not a binary float
  | .float precision => .ok (numberType precision (-127))
  | .int64 => .ok .int64
  | .uint64 => .ok (.decimal128 20 0)
  | .varchar2 _ | .nvarchar2 _ | .char _ | .nchar _ | .long | .clob | .nclob | .rowid | .xml =>
    .ok .utf8
  | .raw _ | .longRaw | .blob => .ok .binary
  -- DATE carries a time
  | .date | .timestamp _ => .ok (.timestamp none)
  | .timestampTZ _ | .timestampLTZ _ => .ok (.timestamp (some "UTC"))
  | .boolean => .ok .boolean
  | .json => .error s!"column `{name}` is native JSON, which this driver cannot fetch — select it as `JSON_SERIALIZE({name} RETURNING VARCHAR2)` through a view, or exclude it from the stream"
  | .other type => .error s!"column `{name}` is {typeText (.other type)}, which this connector has no mapping for — exclude it from the stream or open an issue naming the type"

def cursorCapable : DataType → Bool
  | .int64 | .float64 | .decimal128 _ _ | .timestamp _ => true
  | _ => false

def isNumeric : OracleType → Bool
  | .number _ _ | .float _ | .binaryFloat | .binaryDouble | .int64 | .uint64 => true
  | _ => false

def eqIgnoreAsciiCase (a b : String) : Bool :=
  a.toList.map Char.toUpper == b.toList.map Char.toUpper

/-- The described column a cursor option names. -/
def validateCursor (typeText : OracleType → String) (stream table : String)
    (described : List ColumnInfo) (column : String) : Except String ColumnInfo :=
  match described.find? fun c => eqIgnoreAsciiCase c.name column with
  | none => .error s!"stream `{stream}`: cursor column `{column}` is not a column of `{table}` — incremental reads would silently re-read everything"
  | some info =>
    if info.nullable then
      .error s!"stream `{stream}`: cursor column `{column}` admits NULLs, which a watermark cannot order — rows holding one would be delivered once and then skipped by every resume. Make the column NOT NULL, choose another cursor, or drop `cursor` to read the stream in full"
    else
      match arrowType typeText info.name info.oracleType with
      | .error e => .error s!"stream `{stream}`: {e}"
      | .ok kind =>
        if !cursorCapable kind && !isNumeric info.oracleType then
          .error s!"stream `{stream}`: cursor column `{column}` is {typeText info.oracleType}, which has no usable order for a watermark — choose a numeric or timestamp column"
        else .ok info

/-- The declared types whose values a watermark can stand for. -/
def OracleType.carriesWatermark : OracleType → Bool
  | .number _ _ | .float _ | .binaryFloat | .binaryDouble | .int64 | .uint64 => true
  | .date | .timestamp _ | .timestampTZ _ | .timestampLTZ _ => true
  | _ => false

/-- What passes the check is a described column without NULLs whose type orders. -/
theorem validateCursor_ok {typeText : OracleType → String} {stream table column : String}
    {described : List ColumnInfo} {info : ColumnInfo}
    (h : validateCursor typeText stream table described column = .ok info) :
    info ∈ described ∧ eqIgnoreAsciiCase info.name column = true ∧ info.nullable = false ∧
      info.oracleType.carriesWatermark = true := by
  unfold validateCursor at h
  split at h
  · cases h
  next found hfound =>
    split at h
    · cases h
    next hnullable =>
      split at h
      · cases h
      next kind hkind =>
        split at h
        · cases h
        next hcapable =>
          cases h
          have hname := List.find?_some hfound
          have htype : info.oracleType.carriesWatermark = true := by
            cases htype : info.oracleType <;> simp_all [arrowType, cursorCapable, isNumeric,
              OracleType.carriesWatermark] <;> subst hkind <;> simp at hcapable
          exact ⟨List.mem_of_find?_eq_some hfound, hname, by simpa using hnullable, htype⟩

end Oracle
