import Mathlib.Data.List.Basic

/-!
# Table schemas

The columns of a delivered table with their logical types, the system columns a
shredder adds, and the chain of parents that leads from a child table to the root
of its documents.
-/
namespace Sqlcore

inductive LogicalType where
  | bool
  | int64
  | float64
  | decimal (precision scale : Nat)
  | utf8
  | binary
  | json
  | uuid
  | timestampTz
  | timestampNaive
  | date
  | time
  deriving DecidableEq, Repr

mutual

inductive ColumnType where
  | scalar (scalar : LogicalType)
  | struct (fields : Fields)
  | scalarList (item : LogicalType)
  deriving DecidableEq, Repr

/-- The fields of a struct, in order. -/
inductive Fields where
  | nil
  | cons (name : String) (columnType : ColumnType) (rest : Fields)
  deriving DecidableEq, Repr

end

structure Column where
  name : String
  columnType : ColumnType
  nullable : Bool
  deriving DecidableEq, Repr

structure TableSchema where
  table : String
  parent : Option String
  columns : List Column
  deriving DecidableEq, Repr

def TableSchema.column (schema : TableSchema) (name : String) : Option Column :=
  schema.columns.find? fun c => c.name = name

def TableSchema.columnNames (schema : TableSchema) : List String := schema.columns.map Column.name

theorem column_isSome_iff {schema : TableSchema} {name : String} :
    (schema.column name).isSome = true ↔ name ∈ schema.columnNames := by
  rw [TableSchema.column, List.find?_isSome, TableSchema.columnNames, List.mem_map]
  exact exists_congr fun c => and_congr_right fun _ => decide_eq_true_iff

/-! ## System columns -/

/-- The shredder's row identity. -/
def idColumn : String := "_rdlt_id"

/-- On a child row, the identity of its root. -/
def rootIdColumn : String := "_rdlt_root_id"

def loadIdColumn : String := "_rdlt_load_id"

inductive WriteMode where
  | append
  | replace
  | merge (key : List String)
  deriving DecidableEq, Repr

def WriteMode.isMerge : WriteMode → Bool
  | .merge _ => true
  | _ => false

structure TableFacts where
  hasIdentity : Bool
  isChild : Bool
  deriving DecidableEq, Repr

def TableFacts.of (schema : TableSchema) : TableFacts :=
  ⟨schema.columns.any fun c => c.name = idColumn, schema.parent.isSome⟩

/-! ## The tables of a session -/

/-- What a session has ensured, by table name. -/
abbrev SessionTables := List (String × TableSchema × WriteMode)

/-- The entry of a table is replaced, or put where its name belongs. -/
def SessionTables.insert (table : String) (entry : TableSchema × WriteMode) :
    SessionTables → SessionTables
  | [] => [(table, entry)]
  | (t, e) :: rest =>
    if table = t then (t, entry) :: rest
    else if table < t then (table, entry) :: (t, e) :: rest
    else (t, e) :: SessionTables.insert table entry rest

theorem lookup_cons_ite {β : Type} (key other : String) (value : β) (rest : List (String × β)) :
    ((key, value) :: rest).lookup other = if other = key then some value else rest.lookup other := by
  rw [List.lookup_cons]
  by_cases h : other = key
  · simp [h]
  · have hbeq : (other == key) = false := by simpa using h
    rw [hbeq, if_neg h]

theorem lookup_insert (tables : SessionTables) (table other : String)
    (entry : TableSchema × WriteMode) :
    (SessionTables.insert table entry tables).lookup other =
      if other = table then some entry else tables.lookup other := by
  induction tables with
  | nil => rw [SessionTables.insert, lookup_cons_ite]
  | cons head rest ih =>
    obtain ⟨t, e⟩ := head
    unfold SessionTables.insert
    by_cases hsame : table = t
    · subst hsame
      rw [if_pos rfl, lookup_cons_ite, lookup_cons_ite]
      by_cases h : other = table
      · rw [if_pos h, if_pos h]
      · rw [if_neg h, if_neg h, if_neg h]
    · rw [if_neg hsame]
      by_cases hlt : table < t
      · rw [if_pos hlt, lookup_cons_ite]
      · rw [if_neg hlt, lookup_cons_ite, ih, lookup_cons_ite]
        by_cases hother : other = t
        · have hne : other ≠ table := fun h => hsame (h ▸ hother)
          rw [if_pos hother, if_neg hne, if_pos hother]
        · rw [if_neg hother, if_neg hother]

/-- The tables are kept in the order of their names. -/
def SessionTables.Sorted (tables : SessionTables) : Prop := tables.Pairwise fun a b => a.1 < b.1

theorem name_lt_trans {a b c : String} (hab : a < b) (hbc : b < c) : a < c :=
  @List.lt_trans Char _ _ _ _ _ hab hbc

theorem name_lt_of_not {a b : String} (hne : a ≠ b) (h : ¬a < b) : b < a := by
  rcases List.le_iff_lt_or_eq.1 (List.not_lt.1 h) with hlt | heq
  · exact hlt
  · exact absurd (String.toList_inj.1 heq).symm hne

theorem mem_insert {tables : SessionTables} {table : String} {entry : TableSchema × WriteMode}
    {e : String × TableSchema × WriteMode} (he : e ∈ SessionTables.insert table entry tables) :
    e = (table, entry) ∨ e ∈ tables := by
  induction tables with
  | nil => exact .inl (List.mem_singleton.1 he)
  | cons head rest ih =>
    unfold SessionTables.insert at he
    split at he
    · next h =>
      rcases List.mem_cons.1 he with rfl | he
      · exact .inl (by rw [h])
      · exact .inr (List.mem_cons_of_mem _ he)
    · split at he
      · rcases List.mem_cons.1 he with rfl | he
        · exact .inl rfl
        · exact .inr he
      · rcases List.mem_cons.1 he with rfl | he
        · exact .inr List.mem_cons_self
        · rcases ih he with rfl | he
          · exact .inl rfl
          · exact .inr (List.mem_cons_of_mem _ he)

theorem insert_sorted {tables : SessionTables} (h : tables.Sorted) (table : String)
    (entry : TableSchema × WriteMode) : (SessionTables.insert table entry tables).Sorted := by
  induction tables with
  | nil => exact List.pairwise_singleton _ _
  | cons head rest ih =>
    obtain ⟨hhead, hrest⟩ := List.pairwise_cons.1 h
    unfold SessionTables.insert
    split
    · exact List.pairwise_cons.2 ⟨hhead, hrest⟩
    · next hne =>
      split
      · next hlt =>
        refine List.pairwise_cons.2 ⟨fun e he => ?_, h⟩
        rcases List.mem_cons.1 he with rfl | he
        · exact hlt
        · exact name_lt_trans hlt (hhead e he)
      · next hnot =>
        refine List.pairwise_cons.2 ⟨fun e he => ?_, ih hrest⟩
        rcases mem_insert he with rfl | he
        · exact name_lt_of_not hne hnot
        · exact hhead e he

theorem SessionTables.Sorted.nodup {tables : SessionTables} (h : tables.Sorted) :
    (tables.map Prod.fst).Nodup := by
  refine List.pairwise_map.2 (h.imp fun {a b} hlt heq => ?_)
  rw [heq] at hlt
  exact List.lt_irrefl b.1.toList hlt

theorem lookup_of_mem {β : Type} {entries : List (String × β)} (h : (entries.map Prod.fst).Nodup)
    {e : String × β} (he : e ∈ entries) : entries.lookup e.1 = some e.2 := by
  induction entries with
  | nil => cases he
  | cons head rest ih =>
    obtain ⟨hnot, hrest⟩ := List.nodup_cons.1 h
    rw [lookup_cons_ite]
    rcases List.mem_cons.1 he with rfl | he
    · exact if_pos rfl
    · have hne : e.1 ≠ head.1 := fun heq => hnot (heq ▸ List.mem_map_of_mem he)
      rw [if_neg hne, ih hrest he]

theorem mem_of_lookup {β : Type} {entries : List (String × β)} {key : String} {value : β}
    (h : entries.lookup key = some value) : (key, value) ∈ entries := by
  obtain ⟨before, after, rfl, -⟩ := List.lookup_eq_some_iff.1 h
  simp

theorem lookup_eq_none_of_not_mem {β : Type} {entries : List (String × β)} {key : String}
    (h : key ∉ entries.map Prod.fst) : entries.lookup key = none := by
  induction entries with
  | nil => rfl
  | cons head rest ih =>
    rw [List.map_cons, List.mem_cons, not_or] at h
    rw [lookup_cons_ite, if_neg h.1, ih h.2]

/-- The bound on the chain of parents. -/
def rootDepthBound : Nat := 64

/-- The end of the chain of parents, or the deepest table walked. -/
def rootWalk (tables : SessionTables) : Nat → String → String
  | 0, current => current
  | bound + 1, current =>
    match (tables.lookup current).bind fun entry => entry.1.parent with
    | some parent => rootWalk tables bound parent
    | none => current

def rootOf (tables : SessionTables) (table : String) : String :=
  rootWalk tables rootDepthBound table

end Sqlcore
