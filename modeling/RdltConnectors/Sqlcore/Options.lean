import Mathlib.Data.List.Basic
import RdltConnectors.Library.Fallible

/-!
# Destination options

How a destination merges: a strategy, and per table the deletion flag, the history
columns, the order of survivors and the scope of a replacement. The lookups resolve
a table's settings; a document is checked when it is parsed.
-/
namespace Sqlcore

open Fallible

inductive MergeStrategy where
  | deleteInsert
  | upsert
  | scd2
  deriving DecidableEq, Repr

/-- As the error texts print it. -/
def MergeStrategy.debug : MergeStrategy → String
  | .deleteInsert => "DeleteInsert"
  | .upsert => "Upsert"
  | .scd2 => "Scd2"

/-- What happens to active keys absent from a load. -/
inductive AbsentPolicy where
  | keep
  | retire
  deriving DecidableEq, Repr

structure Scd2Options where
  validFrom : String := "_rdlt_valid_from"
  validTo : String := "_rdlt_valid_to"
  absent : AbsentPolicy := .keep
  /-- written to open versions instead of NULL -/
  activeRecordTimestamp : Option String := none
  /-- used instead of the transaction's timestamp -/
  boundaryTimestamp : Option String := none
  deriving DecidableEq, Repr

inductive SortOrder where
  | asc
  | desc
  deriving DecidableEq, Repr

structure DedupSort where
  column : String
  order : SortOrder
  deriving DecidableEq, Repr

structure TableOptions where
  mergeStrategy : Option MergeStrategy := none
  hardDelete : Option String := none
  scd2 : Option Scd2Options := none
  dedupSort : Option DedupSort := none
  mergeScope : Option (List String) := none
  deriving DecidableEq, Repr

structure DestinationOptions where
  mergeStrategy : Option MergeStrategy := none
  tables : List (String × TableOptions) := []
  deriving DecidableEq, Repr

namespace DestinationOptions

variable (options : DestinationOptions) (table : String)

def tableOptions : Option TableOptions := options.tables.lookup table

/-- The strategy that was configured, for the table or for all of them. -/
def explicitStrategyFor : Option MergeStrategy :=
  ((options.tableOptions table).bind TableOptions.mergeStrategy).or options.mergeStrategy

def strategyFor : MergeStrategy := (options.explicitStrategyFor table).getD .deleteInsert

def hardDeleteFor : Option String := (options.tableOptions table).bind TableOptions.hardDelete

def scd2For : Scd2Options := ((options.tableOptions table).bind TableOptions.scd2).getD {}

def dedupSortFor : Option DedupSort := (options.tableOptions table).bind TableOptions.dedupSort

def mergeScopeFor : Option (List String) := (options.tableOptions table).bind TableOptions.mergeScope

end DestinationOptions

/-! ## The checks at parse time -/

/-- The characters trimmed off, Unicode's white space. -/
def isWhitespace (c : Char) : Bool :=
  let n := c.toNat
  decide (9 ≤ n ∧ n ≤ 13) || decide (0x2000 ≤ n ∧ n ≤ 0x200A) ||
    decide (n ∈ [0x20, 0x85, 0xA0, 0x1680, 0x2028, 0x2029, 0x202F, 0x205F, 0x3000])

/-- Nothing is left of the name once it is trimmed. -/
def isBlank (column : String) : Bool := column.toList.all isWhitespace

/-- The first element that an earlier one equals. -/
def firstDuplicate : List String → List String → Option String
  | _, [] => none
  | seen, c :: cs => if c ∈ seen then some c else firstDuplicate (c :: seen) cs

def checkHardDelete (table : String) (opts : TableOptions) (strategy : MergeStrategy) :
    Except String Unit :=
  match opts.hardDelete with
  | none => .ok ()
  | some col =>
    if isBlank col then .error s!"tables.{table}.hard_delete: empty column name"
    else if strategy = .scd2 then
      .error s!"tables.{table}.hard_delete: not valid with merge_strategy scd2 (deletion-as-retirement is future work)"
    else .ok ()

def checkDedupSort (table : String) (opts : TableOptions) : Except String Unit :=
  match opts.dedupSort with
  | none => .ok ()
  | some dedup =>
    if isBlank dedup.column then .error s!"tables.{table}.dedup_sort: empty column name"
    else .ok ()

def checkMergeScope (table : String) (opts : TableOptions) (strategy : MergeStrategy) :
    Except String Unit :=
  match opts.mergeScope with
  | none => .ok ()
  | some scope =>
    if scope.isEmpty then .error s!"tables.{table}.merge_scope: empty column list"
    else if scope.any isBlank then .error s!"tables.{table}.merge_scope: empty column name"
    else match firstDuplicate [] scope with
      | some dup => .error s!"tables.{table}.merge_scope: column `{dup}` listed twice"
      | none =>
        if strategy = .scd2 ∧ (opts.scd2.map Scd2Options.absent).getD .keep ≠ .retire then
          .error s!"tables.{table}.merge_scope: with merge_strategy scd2 this scopes RETIREMENT and requires scd2 \x7babsent: retire\x7d — under `keep` it would be silently inert"
        else .ok ()

def checkTimestamp (isRfc3339 : String → Bool) (table field : String) (value : Option String) :
    Except String Unit :=
  match value with
  | none => .ok ()
  | some value =>
    if isRfc3339 value then .ok ()
    else .error s!"tables.{table}.scd2.{field}: `{value}` is not a zone-explicit timestamp (RFC3339 with offset, e.g. `9999-12-31T00:00:00Z` — zone-less literals resolve per session TimeZone)"

def checkScd2 (isRfc3339 : String → Bool) (table : String) (opts : TableOptions)
    (strategy : MergeStrategy) : Except String Unit :=
  match opts.scd2 with
  | none => .ok ()
  | some scd2 =>
    if strategy ≠ .scd2 then
      .error s!"tables.{table}.scd2: options present but merge_strategy is {strategy.debug} — set merge_strategy: scd2"
    else if isBlank scd2.validFrom ∨ isBlank scd2.validTo then
      .error s!"tables.{table}.scd2: validity column names must not be empty"
    else if scd2.validFrom = scd2.validTo then
      .error s!"tables.{table}.scd2: valid_from and valid_to must differ"
    else do
      checkTimestamp isRfc3339 table "active_record_timestamp" scd2.activeRecordTimestamp
      checkTimestamp isRfc3339 table "boundary_timestamp" scd2.boundaryTimestamp
      if scd2.activeRecordTimestamp.isSome ∧ scd2.activeRecordTimestamp = scd2.boundaryTimestamp then
        .error s!"tables.{table}.scd2: boundary_timestamp equals active_record_timestamp — closed versions would read as ACTIVE; pick a marker outside the data's time range (e.g. 9999-12-31T00:00:00Z)"
      else .ok ()

/-- One table's options, its strategy resolved. -/
def checkTable (isRfc3339 : String → Bool) (options : DestinationOptions) (table : String)
    (opts : TableOptions) : Except String Unit := do
  let strategy := (opts.mergeStrategy.or options.mergeStrategy).getD .deleteInsert
  checkHardDelete table opts strategy
  checkDedupSort table opts
  checkMergeScope table opts strategy
  checkScd2 isRfc3339 table opts strategy

def DestinationOptions.validate (isRfc3339 : String → Bool) (options : DestinationOptions) :
    Except String Unit :=
  options.tables.forM fun (table, opts) => checkTable isRfc3339 options table opts

/-! ## The merge context -/

/-- A table's resolved merge configuration. -/
structure MergeContext where
  strategy : MergeStrategy
  scope : Option (List String)
  scd2 : Option Scd2Options
  /-- scd2 with absent keys retired -/
  retire : Bool
  deriving DecidableEq, Repr

def MergeContext.resolve (options : DestinationOptions) (table : String) : MergeContext :=
  let strategy := options.strategyFor table
  let scd2 := if strategy = .scd2 then some (options.scd2For table) else none
  { strategy := strategy
    scope := options.mergeScopeFor table
    scd2 := scd2
    retire := decide (scd2.map Scd2Options.absent = some .retire) }

/-- The stage is read as the whole table, or as the whole of its scopes. -/
def MergeContext.fullFeed (c : MergeContext) : Bool := c.scope.isSome || c.retire

/-! ## What the checks ensure -/

/-- The history columns of a checked document differ. -/
theorem validity_differ {isRfc3339 : String → Bool} {options : DestinationOptions}
    (h : options.validate isRfc3339 = .ok ()) (table : String) :
    (options.scd2For table).validFrom ≠ (options.scd2For table).validTo := by
  have hall : ∀ entry ∈ options.tables, checkTable isRfc3339 options entry.1 entry.2 = .ok () :=
    forM_ok.mp h
  unfold DestinationOptions.scd2For DestinationOptions.tableOptions
  cases hlook : options.tables.lookup table with
  | none => decide
  | some opts =>
    obtain ⟨pre, post, htables, -⟩ := List.lookup_eq_some_iff.1 hlook
    have hchecked := hall (table, opts) (by simp [htables])
    cases hscd2 : opts.scd2 with
    | none => simp [hscd2]
    | some scd2 =>
      intro hsame
      simp only [Option.bind_some, hscd2, Option.getD_some] at hsame
      obtain ⟨-, -, hchecked⟩ := bind_ok.1 hchecked
      obtain ⟨-, -, hchecked⟩ := bind_ok.1 hchecked
      obtain ⟨-, -, hchecked⟩ := bind_ok.1 hchecked
      simp only [checkScd2, hscd2, hsame, if_true] at hchecked
      split at hchecked
      · cases hchecked
      · split at hchecked <;> cases hchecked

end Sqlcore
