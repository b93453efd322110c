import RdltConnectors.Sqlcore.Options
import RdltConnectors.Sqlcore.Schema

/-!
# The checks of an ensured table

Each option is checked against the table it is set on when the table is ensured.
The error names the table and the column at fault. What a publish relies on follows
from a table that passed: its key and scope columns exist, and its history columns
are not columns of the stream.
-/
namespace Sqlcore

open Fallible

inductive ValidateError where
  | optionRequiresMerge (table option : String)
  | hardDeleteOnChild (table : String)
  | hardDeleteColMissing (table col : String)
  | dedupSortNeedsKeyed (table : String)
  | dedupSortColMissing (table col : String)
  | dedupSortIsHardDelete (table col : String)
  | dedupSortInKey (table col : String)
  | keyColMissing (table col : String)
  | mergeKeyNeedsKeyed (table : String)
  | mergeKeyScd2NeedsRetire (table : String)
  | mergeKeyColMissing (table col : String)
  | mergeKeyColIsHardDelete (table col : String)
  | upsertNeedsKeyed (table : String)
  | scd2NeedsKeyed (table : String)
  | scd2ValidityCollides (table name : String)
  deriving DecidableEq, Repr

def ValidateError.display : ValidateError → String
  | optionRequiresMerge table option =>
    s!"table `{table}`: {option} requires the merge write mode — under append/replace it would be silently inert"
  | hardDeleteOnChild table =>
    s!"table `{table}`: hard_delete applies to the ROOT table of a shredded stream — configure it on the root, not the child"
  | hardDeleteColMissing table col =>
    s!"hard_delete column `{col}` is not a column of table `{table}`"
  | dedupSortNeedsKeyed table =>
    s!"table `{table}`: dedup_sort requires a KEYED structured stream — a shredded stream's identity is a content hash, ordered survivors are meaningless there"
  | dedupSortColMissing table col =>
    s!"dedup_sort column `{col}` is not a column of table `{table}`"
  | dedupSortIsHardDelete table col =>
    s!"table `{table}`: dedup_sort column `{col}` is the hard_delete flag — use a distinct ordering column"
  | dedupSortInKey table col =>
    s!"table `{table}`: dedup_sort column `{col}` is part of the merge key — constant within each identity group, it can never order survivors"
  | keyColMissing table col =>
    s!"merge key column `{col}` is not a column of table `{table}`"
  | mergeKeyNeedsKeyed table =>
    s!"table `{table}`: merge_scope requires a KEYED structured stream — shredded streams replace by root subtree"
  | mergeKeyScd2NeedsRetire table =>
    s!"table `{table}`: merge_scope with scd2 scopes RETIREMENT and requires scd2 \x7babsent: retire\x7d"
  | mergeKeyColMissing table col =>
    s!"merge_scope column `{col}` is not a column of table `{table}`"
  | mergeKeyColIsHardDelete table col =>
    s!"table `{table}`: merge_scope column `{col}` is the hard_delete flag — a deletion flag is not a scope"
  | upsertNeedsKeyed table =>
    s!"table `{table}`: the upsert strategy requires a KEYED structured stream — shredded streams use delete_insert"
  | scd2NeedsKeyed table =>
    s!"table `{table}`: scd2 requires a KEYED structured stream — shredded streams have no declared key"
  | scd2ValidityCollides table name =>
    s!"table `{table}`: scd2 validity column `{name}` collides with a stream column — configure different names"

/-- The first column of the list that fails its check decides. -/
def checkEach (columns : List String) (check : String → Except ValidateError Unit) :
    Except ValidateError Unit :=
  columns.forM check

theorem checkEach_ok {columns : List String} {check : String → Except ValidateError Unit} :
    checkEach columns check = .ok () ↔ ∀ col ∈ columns, check col = .ok () :=
  forM_ok

def refuse (c : Bool) (e : ValidateError) : Except ValidateError Unit :=
  if c then .error e else .ok ()

theorem refuse_ok {c : Bool} {e : ValidateError} : refuse c e = .ok () ↔ c = false := by
  cases c <;> simp [refuse]

/-- The merge-only options, refused where nothing merges. -/
def validateNonMerge (options : DestinationOptions) (table : String) : Except ValidateError Unit := do
  refuse (options.explicitStrategyFor table).isSome (.optionRequiresMerge table "merge_strategy")
  refuse (options.dedupSortFor table).isSome (.optionRequiresMerge table "dedup_sort")
  refuse (options.mergeScopeFor table).isSome (.optionRequiresMerge table "merge_scope")

variable (options : DestinationOptions) (schema : TableSchema) (table : String) (key : List String)
  (facts : TableFacts) (strategy : MergeStrategy)

def checkKey : Except ValidateError Unit :=
  if facts.hasIdentity || facts.isChild then .ok ()
  else checkEach key fun col => refuse (schema.column col).isNone (.keyColMissing table col)

def checkHardDeleteColumn : Except ValidateError Unit :=
  match options.hardDeleteFor table with
  | none => .ok ()
  | some col => do
    refuse facts.isChild (.hardDeleteOnChild table)
    refuse (schema.column col).isNone (.hardDeleteColMissing table col)

def checkDedupSortColumn : Except ValidateError Unit :=
  match options.dedupSortFor table with
  | none => .ok ()
  | some dedup => do
    refuse facts.hasIdentity (.dedupSortNeedsKeyed table)
    refuse (schema.column dedup.column).isNone (.dedupSortColMissing table dedup.column)
    refuse (options.hardDeleteFor table == some dedup.column) (.dedupSortIsHardDelete table dedup.column)
    refuse (key.contains dedup.column) (.dedupSortInKey table dedup.column)

def checkMergeScopeColumns : Except ValidateError Unit :=
  match options.mergeScopeFor table with
  | none => .ok ()
  | some scope => do
    refuse facts.hasIdentity (.mergeKeyNeedsKeyed table)
    refuse (decide (strategy = .scd2 ∧ (options.scd2For table).absent ≠ .retire))
      (.mergeKeyScd2NeedsRetire table)
    checkEach scope fun col => do
      refuse (schema.column col).isNone (.mergeKeyColMissing table col)
      refuse (options.hardDeleteFor table == some col) (.mergeKeyColIsHardDelete table col)

def checkUpsert : Except ValidateError Unit :=
  refuse (decide (strategy = .upsert) && facts.hasIdentity) (.upsertNeedsKeyed table)

def checkScd2Columns : Except ValidateError Unit :=
  if strategy ≠ .scd2 then .ok ()
  else do
    refuse facts.hasIdentity (.scd2NeedsKeyed table)
    checkEach [(options.scd2For table).validFrom, (options.scd2For table).validTo] fun name =>
      refuse (schema.column name).isSome (.scd2ValidityCollides table name)

def validateMerge : Except ValidateError Unit := do
  let strategy := options.strategyFor table
  checkKey schema table key facts
  checkHardDeleteColumn options schema table facts
  checkDedupSortColumn options schema table key facts
  checkMergeScopeColumns options schema table facts strategy
  checkUpsert table facts strategy
  checkScd2Columns options schema table facts strategy

/-- The checks of a table under its write mode. -/
def validateMode (options : DestinationOptions) (schema : TableSchema) (mode : WriteMode) :
    Except ValidateError Unit :=
  match mode with
  | .merge key => validateMerge options schema schema.table key (TableFacts.of schema)
  | _ => validateNonMerge options schema.table

/-! ## What a checked table has -/

variable {options schema table key facts}

/-- A keyed table that passed: the columns its publish binds exist, the history
columns are its own. -/
structure Validated (options : DestinationOptions) (schema : TableSchema) (table : String)
    (key : List String) : Prop where
  key : ∀ col ∈ key, col ∈ schema.columnNames
  scope : ∀ scope, options.mergeScopeFor table = some scope → ∀ col ∈ scope, col ∈ schema.columnNames
  validity : options.strategyFor table = .scd2 →
    (options.scd2For table).validFrom ∉ schema.columnNames ∧
      (options.scd2For table).validTo ∉ schema.columnNames

theorem present_of_check {col : String} {e : ValidateError}
    (h : refuse (schema.column col).isNone e = .ok ()) : col ∈ schema.columnNames := by
  rw [← column_isSome_iff, ← Option.not_isNone, refuse_ok.1 h]
  rfl

theorem validated_of_ok (hkeyed : facts.hasIdentity = false ∧ facts.isChild = false)
    (h : validateMerge options schema table key facts = .ok ()) :
    Validated options schema table key := by
  obtain ⟨⟨⟩, hkey, h⟩ := bind_ok.1 h
  obtain ⟨⟨⟩, -, h⟩ := bind_ok.1 h
  obtain ⟨⟨⟩, -, h⟩ := bind_ok.1 h
  obtain ⟨⟨⟩, hscope, h⟩ := bind_ok.1 h
  obtain ⟨⟨⟩, -, hscd2⟩ := bind_ok.1 h
  have habsent {col : String} (hsome : (schema.column col).isSome = false) :
      col ∉ schema.columnNames := by
    rw [← column_isSome_iff, hsome]
    simp
  refine ⟨fun col hcol => ?_, fun scope hs col hcol => ?_, fun hstrategy => ?_⟩
  · simp only [checkKey, hkeyed.1, hkeyed.2, Bool.or_self, Bool.false_eq_true, if_false] at hkey
    exact present_of_check (checkEach_ok.1 hkey col hcol)
  · simp only [checkMergeScopeColumns, hs] at hscope
    obtain ⟨⟨⟩, -, hscope⟩ := bind_ok.1 hscope
    obtain ⟨⟨⟩, -, hscope⟩ := bind_ok.1 hscope
    obtain ⟨⟨⟩, hcolumn, -⟩ := bind_ok.1 (checkEach_ok.1 hscope col hcol)
    exact present_of_check hcolumn
  · simp only [checkScd2Columns, hstrategy, ne_eq, not_true_eq_false, if_false] at hscd2
    obtain ⟨⟨⟩, -, hscd2⟩ := bind_ok.1 hscd2
    have hall := checkEach_ok.1 hscd2
    exact ⟨habsent (refuse_ok.1 (hall _ (by simp))), habsent (refuse_ok.1 (hall _ (by simp)))⟩

end Sqlcore
