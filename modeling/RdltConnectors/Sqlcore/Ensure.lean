import RdltConnectors.Sqlcore.Script
import RdltConnectors.Sqlcore.Validate

/-!
# What a table needs before its rows

Ensuring a table is an ordered list of decisions: each leg of the table exists with
its columns, a type that changed within the session is widened, and a merge table has
its history columns and indexes. A destination lowers them to its own statements.
-/
namespace Sqlcore.Ensure

/-- A supporting index; the unique one arbitrates an upsert. -/
structure IndexSpec where
  unique : Bool
  columns : List String
  deriving DecidableEq, Repr

def indexPlan (options : DestinationOptions) (table : String) (key : List String)
    (hasIdentity isChild : Bool) : List IndexSpec :=
  if hasIdentity then
    ⟨false, [idColumn]⟩ :: if isChild then [⟨false, [rootIdColumn]⟩] else []
  else
    let identity := match options.strategyFor table with
      | .upsert => ⟨true, key⟩
      | .deleteInsert => ⟨false, key⟩
      | .scd2 => ⟨false, key ++ [(options.scd2For table).validTo]⟩
    match options.mergeScopeFor table with
    | some scope => [identity, ⟨false, scope⟩]
    | none => [identity]

/-- The published table, or the twin its rows land in first. -/
inductive Leg where
  | target
  | stage
  deriving DecidableEq, Repr

/-- When a version became current, and when it stopped being so. -/
inductive Validity where
  | validFrom
  | validTo
  deriving DecidableEq, Repr

inductive EnsureStep where
  | table (leg : Leg)
  | column (leg : Leg) (column : Column)
  /-- the column's type changed within the session -/
  | widen (leg : Leg) (column : Column)
  | validity (which : Validity)
  | index (spec : IndexSpec)
  deriving DecidableEq, Repr

def columnSteps (previous : Option TableSchema) (leg : Leg) (column : Column) : List EnsureStep :=
  .column leg column ::
    match previous.bind fun prev => prev.column column.name with
    | some old => if old.columnType ≠ column.columnType then [.widen leg column] else []
    | none => []

def ensureLegs (mode : WriteMode) (publish : FullLoadPublish) : List Leg :=
  .target :: if usesStage mode publish then [.stage] else []

/-- The relations and their columns. The previous schema is the session's last, never the
catalog of the database. -/
def schemaSteps (schema : TableSchema) (mode : WriteMode) (publish : FullLoadPublish)
    (previous : Option TableSchema) : List EnsureStep :=
  (ensureLegs mode publish).flatMap fun leg =>
    .table leg :: schema.columns.flatMap (columnSteps previous leg)

/-- The checks of the options, then the history columns and the indexes. -/
def mergeSteps (options : DestinationOptions) (schema : TableSchema) (mode : WriteMode) :
    Except ValidateError (List EnsureStep) :=
  match mode with
  | .merge key => do
    let facts := TableFacts.of schema
    validateMerge options schema schema.table key facts
    let validity := if options.strategyFor schema.table = .scd2 then
      [EnsureStep.validity .validFrom, .validity .validTo] else []
    return validity ++
      (indexPlan options schema.table key facts.hasIdentity facts.isChild).map EnsureStep.index
  | _ => do
    validateNonMerge options schema.table
    return []

/-! ## Names -/

/-- The order of arrival in a stage. -/
def arrivalColumn : String := "__rdlt_arrival"

/-- Scoped by pipeline, and hashed to bound its length. -/
def stageTable (identHash : String → Nat → String) (pipeline table : String) : String :=
  "_rdlt_stage_" ++ identHash pipeline 8 ++ "_" ++ identHash table 16

def indexName (identHash : String → Nat → String) (table : String) (spec : IndexSpec) : String :=
  (if spec.unique then "rdlt_ux" else "rdlt_ix") ++ "_" ++
    identHash (table ++ ":" ++ ",".intercalate spec.columns) 16

/-! ## What the steps are -/

variable {options : DestinationOptions} {schema : TableSchema} {mode : WriteMode}
  {publish : FullLoadPublish} {previous : Option TableSchema}

/-- A first ensure asks for no less than a later one, and widens nothing. -/
theorem mem_schemaSteps_none {step : EnsureStep} (h : step ∈ schemaSteps schema mode publish none) :
    step ∈ schemaSteps schema mode publish previous ∧ ∀ leg column, step ≠ .widen leg column := by
  obtain ⟨leg, hleg, hstep⟩ := List.mem_flatMap.1 h
  rcases List.mem_cons.1 hstep with rfl | hstep
  · exact ⟨List.mem_flatMap.2 ⟨leg, hleg, List.mem_cons_self⟩, fun _ _ hwiden => nomatch hwiden⟩
  · obtain ⟨column, hcolumn, hstep⟩ := List.mem_flatMap.1 hstep
    obtain rfl : step = .column leg column := List.mem_singleton.1 hstep
    refine ⟨List.mem_flatMap.2 ⟨leg, hleg, List.mem_cons_of_mem _ ?_⟩, fun _ _ hwiden => nomatch hwiden⟩
    exact List.mem_flatMap.2 ⟨column, hcolumn, List.mem_cons_self⟩

theorem mergeSteps_not_widen {steps : List EnsureStep} (h : mergeSteps options schema mode = .ok steps)
    {step : EnsureStep} (hstep : step ∈ steps) (leg : Leg) (column : Column) :
    step ≠ .widen leg column := by
  rintro rfl
  unfold mergeSteps at h
  split at h
  · obtain ⟨⟨⟩, -, h⟩ := Fallible.bind_ok.1 h
    obtain rfl := Except.ok.inj h
    rcases List.mem_append.1 hstep with hstep | hstep
    · split at hstep
      · simp at hstep
      · cases hstep
    · obtain ⟨spec, -, hspec⟩ := List.mem_map.1 hstep
      cases hspec
  · obtain ⟨⟨⟩, -, h⟩ := Fallible.bind_ok.1 h
    obtain rfl := Except.ok.inj h
    cases hstep

end Sqlcore.Ensure
