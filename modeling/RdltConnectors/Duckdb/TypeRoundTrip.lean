import Mathlib
import RdltConnectors.Duckdb.TypeReading

/-!
# What a column's type survives

The database takes the text of a type with every name in quotes, and reports it with the quotes
that it needs. The type is read back from that, up to what a struct's fields carry in the
destination alone. A list of decimals is the one type that is written and not read.
-/
namespace DuckText

open Sqlcore (LogicalType)
open Duckdb (SqlType SqlFields)

variable {P : Type} {inferred : P}

/-! ## The text a column is created with -/

theorem scalarType_text (scalar : LogicalType) :
    scalarType false scalar = typeText (fun _ => false) (Duckdb.scalarType false scalar) := by
  cases scalar with
  | json =>
    rw [Duckdb.scalarType, if_neg Bool.false_ne_true, typeText]
    rfl
  | _ =>
    rw [Duckdb.scalarType, typeText]
    rfl

mutual

/-- A column is created with the text of its type, all names in quotes. -/
theorem sqlType_text : ∀ columnType : ColumnType P,
    sqlType false columnType = typeText (fun _ => false) (Duckdb.sqlType false columnType.plain)
  | .scalar scalar => scalarType_text scalar
  | .struct fields => by
    rw [sqlType, ColumnType.plain, Duckdb.sqlType, typeText, sqlFields_text fields]
  | .scalarList item => by
    rw [sqlType, ColumnType.plain, Duckdb.sqlType, typeText, scalarType_text]

theorem sqlFields_text : ∀ fields : Columns P,
    sqlFields false fields = fieldTexts (fun _ => false) (Duckdb.sqlFields false fields.plain)
  | .nil => rfl
  | .cons name columnType nullable provenance rest => by
    rw [sqlFields, Columns.plain, Duckdb.sqlFields, fieldTexts, sqlType_text columnType,
      sqlFields_text rest]
    rfl

end

/-! ## The types that are read back -/

mutual

/-- No identifier types, which the catalog does not tell from text, and no lists of decimals; the
numbers of a decimal are bytes. -/
def Readable : Sqlcore.ColumnType → Prop
  | .scalar (.decimal precision scale) => precision < 256 ∧ scale < 256
  | .scalar scalar => scalar ≠ .uuid
  | .struct fields => ReadableFields fields
  | .scalarList item => item ≠ .uuid ∧ ∀ precision scale, item ≠ .decimal precision scale

def ReadableFields : Sqlcore.Fields → Prop
  | .nil => True
  | .cons _ columnType rest => Readable columnType ∧ ReadableFields rest

end

mutual

/-- No struct is without fields. -/
def Fielded : SqlType → Prop
  | .list item => Fielded item
  | .struct fields => fields ≠ .nil ∧ AllFielded fields
  | _ => True

def AllFielded : SqlFields → Prop
  | .nil => True
  | .cons _ type rest => Fielded type ∧ AllFielded rest

end

mutual

theorem parted_sqlType : ∀ {columnType : Sqlcore.ColumnType}, Readable columnType →
    Fielded (Duckdb.sqlType false columnType) → Parted (Duckdb.sqlType false columnType)
  | .scalar scalar, h, _ => by
    cases scalar with
    | decimal precision scale => exact h
    | _ => trivial
  | .scalarList item, h, _ => by
    cases item with
    | decimal precision scale => exact absurd rfl (h.2 precision scale)
    | _ => trivial
  | .struct _, h, hfielded => ⟨hfielded.1, parted_sqlFields h hfielded.2⟩

theorem parted_sqlFields : ∀ {fields : Sqlcore.Fields}, ReadableFields fields →
    AllFielded (Duckdb.sqlFields false fields) → PartedFields (Duckdb.sqlFields false fields)
  | .nil, _, _ => trivial
  | .cons _ _ _, h, hfielded => ⟨parted_sqlType h.1 hfielded.1, parted_sqlFields h.2 hfielded.2⟩

end

mutual

/-- Lowering such a type loses nothing of it. -/
theorem columnTypeOf_sqlType : ∀ {columnType : Sqlcore.ColumnType}, Readable columnType →
    Duckdb.columnTypeOf (Duckdb.sqlType false columnType) = some columnType
  | .scalar scalar, h => by
    cases scalar with
    | uuid => exact absurd rfl h
    | _ => rfl
  | .scalarList item, h => by
    cases item with
    | uuid => exact absurd rfl h.1
    | decimal precision scale => exact absurd rfl (h.2 precision scale)
    | _ => rfl
  | .struct fields, h => by
    rw [Duckdb.sqlType, Duckdb.columnTypeOf, fieldsOf_sqlFields h]
    rfl

theorem fieldsOf_sqlFields : ∀ {fields : Sqlcore.Fields}, ReadableFields fields →
    Duckdb.fieldsOf (Duckdb.sqlFields false fields) = some fields
  | .nil, _ => rfl
  | .cons name columnType rest, h => by
    rw [Duckdb.sqlFields, Duckdb.fieldsOf, columnTypeOf_sqlType h.1, fieldsOf_sqlFields h.2]
    rfl

end

/-! ## The database -/

/-- What the database does with the text of a column's type. -/
structure Database where
  /-- the names that need no quotes -/
  bare : String → Bool
  /-- the type that the catalog reports of a column created with a type, if it is created -/
  reports : String → Option String
  unquoted : ∀ name, bare name = true → Unquoted name
  reported : ∀ (type : SqlType) (text : String),
    reports (typeText (fun _ => false) type) = some text → Fielded type ∧ text = typeText bare type

mutual

/-- The fields of a type, as far down as they go, are what a read back field is. -/
def AsRead (inferred : P) : ColumnType P → Prop
  | .struct fields => AllAsRead inferred fields
  | _ => True

def AllAsRead (inferred : P) : Columns P → Prop
  | .nil => True
  | .cons _ columnType nullable provenance rest =>
    nullable = true ∧ provenance = inferred ∧ AsRead inferred columnType ∧ AllAsRead inferred rest

end

mutual

theorem annotate_plain : ∀ columnType : ColumnType P,
    annotate inferred columnType.plain = columnType ↔ AsRead inferred columnType
  | .scalar _ => ⟨fun _ => trivial, fun _ => rfl⟩
  | .scalarList _ => ⟨fun _ => trivial, fun _ => rfl⟩
  | .struct fields => by
    rw [ColumnType.plain, annotate, ColumnType.struct.injEq, AsRead]
    exact annotateFields_plain fields

theorem annotateFields_plain : ∀ fields : Columns P,
    annotateFields inferred fields.plain = fields ↔ AllAsRead inferred fields
  | .nil => ⟨fun _ => trivial, fun _ => rfl⟩
  | .cons name columnType nullable provenance rest => by
    rw [Columns.plain, annotateFields, Columns.cons.injEq, AllAsRead, annotate_plain columnType,
      annotateFields_plain rest]
    constructor
    · rintro ⟨-, htype, hnullable, hprovenance, hrest⟩
      exact ⟨hnullable.symm, hprovenance.symm, htype, hrest⟩
    · rintro ⟨hnullable, hprovenance, htype, hrest⟩
      exact ⟨rfl, htype, hnullable.symm, hprovenance.symm, hrest⟩

end

/-- The type of a column is read off what the catalog reports of it, its struct fields nullable
and inferred: it is the type the column was created with exactly when its fields were. -/
theorem column_type_round_trips (db : Database) {columnType : ColumnType P}
    (h : Readable columnType.plain) {text : String}
    (hreports : db.reports (sqlType false columnType) = some text) :
    columnTypeOf inferred text = some (annotate inferred columnType.plain) ∧
      (columnTypeOf inferred text = some columnType ↔ AsRead inferred columnType) := by
  rw [sqlType_text] at hreports
  obtain ⟨hfielded, rfl⟩ := db.reported _ _ hreports
  have hread : columnTypeOf inferred (typeText db.bare (Duckdb.sqlType false columnType.plain)) =
      some (annotate inferred columnType.plain) := by
    rw [columnTypeOf, columnTypeWithin_typeText db.unquoted _ _ (parted_sqlType h hfielded)
      (Nat.lt_succ_self _), columnTypeOf_sqlType h]
    rfl
  exact ⟨hread, by rw [hread, Option.some.injEq, annotate_plain]⟩

/-! ## A database that quotes every name -/

mutual

theorem infix_typeText (bare : String → Bool) : ∀ {type : SqlType}, ¬Fielded type →
    "STRUCT()".toList <:+: (typeText bare type).toList
  | .list item, h => by
    have hitem : ¬Fielded item := h
    rw [list_toList]
    exact (infix_typeText bare hitem).trans (List.prefix_append _ _).isInfix
  | .struct fields, h => by
    rw [struct_toList]
    by_cases hnil : fields = .nil
    · subst hnil
      rw [fieldTexts]
      exact List.infix_rfl
    · obtain ⟨text, htext, hinfix⟩ := infix_fieldTexts bare fun hall => h ⟨hnil, hall⟩
      exact hinfix.trans ((infix_intercalate _ htext).trans
        ((List.suffix_append _ _).isInfix.trans (List.prefix_append _ _).isInfix))
  | .boolean, h | .bigint, h | .double, h | .decimal _ _, h | .varchar, h | .json, h | .blob, h
  | .timestampTz, h | .timestamp, h | .date, h | .time, h => absurd trivial h

theorem infix_fieldTexts (bare : String → Bool) : ∀ {fields : SqlFields}, ¬AllFielded fields →
    ∃ text ∈ (fieldTexts bare fields).map String.toList, "STRUCT()".toList <:+: text
  | .nil, h => absurd trivial h
  | .cons name type rest, h => by
    rw [fieldTexts, List.map_cons, field_toList]
    by_cases htype : Fielded type
    · obtain ⟨text, htext, hinfix⟩ := infix_fieldTexts bare fun hrest => h ⟨htype, hrest⟩
      exact ⟨text, List.mem_cons_of_mem _ htext, hinfix⟩
    · have hinfix := infix_typeText bare htype
      exact ⟨_, List.mem_cons_self, hinfix.trans ((List.suffix_cons ' ' _).isInfix.trans
        (List.suffix_append _ _).isInfix)⟩

end

def quoting : Database where
  bare _ := false
  reports text := if "STRUCT()".toList <:+: text.toList then none else some text
  unquoted _ h := absurd h Bool.false_ne_true
  reported := by
    intro type text h
    split at h
    · exact absurd h nofun
    · rename_i hempty
      refine ⟨?_, (Option.some.inj h).symm⟩
      by_contra hfielded
      exact hempty (infix_typeText _ hfielded)

/-- A struct whose names hold quotes, commas and parentheses, one field of it not nullable. -/
def nested (nullable : Bool) : ColumnType Bool :=
  .struct (.cons "a\", (b" (.scalar (.decimal 18 4)) nullable true
    (.cons ")" (.struct (.cons "c d" (.scalarList .int64) true true .nil)) true true .nil))

theorem column_type_round_trips_nested :
    columnTypeOf true (sqlType false (nested true)) = some (nested true) := by
  have hreadable : Readable (nested true).plain :=
    ⟨⟨by decide, by decide⟩, ⟨⟨nofun, nofun⟩, trivial⟩, trivial⟩
  have hreports : quoting.reports (sqlType false (nested true)) = some (sqlType false (nested true)) :=
    by decide +kernel
  have hread : AsRead true (nested true) :=
    ⟨rfl, rfl, trivial, rfl, rfl, ⟨rfl, rfl, trivial, trivial⟩, trivial⟩
  exact (column_type_round_trips quoting hreadable hreports).2.2 hread

/-- A list of decimals is created and is not read back, and a field that may not be null comes
back as one that may. -/
theorem lists_of_decimals_are_omitted :
    (quoting.reports (sqlType false (.scalarList (.decimal 18 4) : ColumnType Bool)) =
        some "DECIMAL(18,4)[]" ∧
      (columnTypeOf true "DECIMAL(18,4)[]" : Option (ColumnType Bool)) = none) ∧
    quoting.reports (sqlType false (nested false)) = some (sqlType false (nested false)) ∧
      columnTypeOf true (sqlType false (nested false)) = some (nested true) ∧
      nested true ≠ nested false := by
  decide +kernel

end DuckText
