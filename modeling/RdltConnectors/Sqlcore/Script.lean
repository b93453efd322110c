import RdltConnectors.Sqlcore.Arms

/-!
# The commit script

What a publish executes is decided here, from the tables of the session, the options
and the facts read in the transaction: an ordered list of steps, and the tables whose
single unit it counts. Every table is published before any stage is truncated, and
state and receipt come last.
-/
namespace Sqlcore

/-- How a destination lands the rows of append and replace. -/
inductive FullLoadPublish where
  | staged
  | directToTarget
  deriving DecidableEq, Repr

def usesStage (mode : WriteMode) (publish : FullLoadPublish) : Bool :=
  mode.isMerge || decide (publish = .staged)

inductive Step where
  | clearTarget (table : String)
  | insertSelect (table : String)
  | scopeReplace (table : String) (scope : List String)
  | mergeArm (table : String) (arm : MergeArm)
  | truncateStage (table : String)
  | upsertState
  | insertReceipt
  deriving DecidableEq, Repr

/-- The facts a destination gathers before it plans. -/
structure CommitContext where
  /-- this unit has a receipt -/
  replayed : Bool
  /-- some unit of the load has one -/
  loadCommittedBefore : Bool
  singleUnitDone : List String
  stagedNonempty : List String
  fullLoadPublish : FullLoadPublish
  clearedTargets : List String
  deriving DecidableEq, Repr

/-- What runs against a target before the first row of the load is written into it. -/
def prepareTarget (tables : SessionTables) (ctx : CommitContext) (table : String) : List Step :=
  match tables.lookup table with
  | none => []
  | some (_, mode) =>
    if usesStage mode ctx.fullLoadPublish ∨ mode ≠ .replace then []
    else if table ∈ ctx.clearedTargets then []
    else [.clearTarget table]

structure CommitScript where
  steps : List Step
  marks : List String
  deriving DecidableEq, Repr

inductive CommitError where
  | singleUnit (table : String) (byScope : Bool)
  | armUnsupported (table : String) (what : String)
  deriving DecidableEq, Repr

def singleUnitViolation (table : String) (byScope : Bool) : String :=
  let what := if byScope then "merge_scope replacement" else "scd2 `absent: retire`"
  s!"table `{table}`: {what} requires the table's full feed in a SINGLE commit unit — raise the engine commit thresholds and re-run; the fixed configuration re-delivers the full feed and converges"

def CommitError.display : CommitError → String
  | .singleUnit table byScope => singleUnitViolation table byScope
  | .armUnsupported table what => s!"table `{table}`: {what}"

/-! ## Full feeds -/

inductive SingleUnit where
  /-- nothing staged: an empty stage is not a feed without rows -/
  | skipEmpty
  | violation
  | mark
  deriving DecidableEq, Repr

def checkSingleUnit (alreadyDone staged : Bool) : SingleUnit :=
  if !staged then .skipEmpty else if alreadyDone then .violation else .mark

/-- A merge table read as its full feed. -/
def isFullFeed (options : DestinationOptions) (table : String) (mode : WriteMode) : Bool :=
  mode.isMerge && (MergeContext.resolve options table).fullFeed

/-- The tables whose stage is probed before planning. -/
def stagedProbeTargets (tables : SessionTables) (options : DestinationOptions) : List String :=
  (tables.filter fun entry => isFullFeed options entry.1 entry.2.2).map Prod.fst

/-! ## Planning -/

def selectArm (table : String) (hasIdentity : Bool) (strategy : MergeStrategy)
    (options : DestinationOptions) : Except CommitError MergeArm :=
  match hasIdentity, strategy with
  | false, .deleteInsert => .ok .keyedDeleteInsert
  | false, .upsert => .ok .keyedUpsert
  | true, .deleteInsert => .ok .identityDeleteInsert
  | false, .scd2 => .ok (.scd2 (options.scd2For table))
  | true, .upsert => .error (.armUnsupported table "upsert on a shredded stream")
  | true, .scd2 => .error (.armUnsupported table "scd2 on a shredded stream")

/-- The scope is replaced before the arm, but not under scd2. -/
def mergeSteps (options : DestinationOptions) (table : String) (schema : TableSchema) :
    Except CommitError (List Step) := do
  let context := MergeContext.resolve options table
  let arm ← selectArm table (TableFacts.of schema).hasIdentity context.strategy options
  let scope := match context.scope with
    | some scope => if context.strategy ≠ .scd2 then [.scopeReplace table scope] else []
    | none => []
  return scope ++ [.mergeArm table arm]

/-- The steps that publish a table, and its mark. -/
def publishTable (options : DestinationOptions) (ctx : CommitContext)
    (entry : String × TableSchema × WriteMode) : Except CommitError (List Step × List String) :=
  let (table, schema, mode) := entry
  match mode with
  | .append => .ok (if usesStage mode ctx.fullLoadPublish then [.insertSelect table] else [], [])
  | .replace =>
    if usesStage mode ctx.fullLoadPublish then
      .ok ((if ctx.loadCommittedBefore then [] else [.clearTarget table]) ++ [.insertSelect table],
        [])
    else .ok ([], [])
  | .merge _ =>
    let context := MergeContext.resolve options table
    if context.fullFeed then
      match checkSingleUnit (decide (table ∈ ctx.singleUnitDone))
          (decide (table ∈ ctx.stagedNonempty)) with
      | .skipEmpty => .ok ([], [])
      | .violation => .error (.singleUnit table (context.scope.isSome && !context.retire))
      | .mark => return (← mergeSteps options table schema, [table])
    else return (← mergeSteps options table schema, [])

def truncations (tables : SessionTables) (publish : FullLoadPublish) : List Step :=
  (tables.filter fun entry => usesStage entry.2.2 publish).map fun entry => .truncateStage entry.1

/-- A redelivered feed still counts as its table's unit. -/
def replayMarks (tables : SessionTables) (options : DestinationOptions) (ctx : CommitContext) :
    List String :=
  (tables.filter fun entry => isFullFeed options entry.1 entry.2.2 &&
    decide (entry.1 ∉ ctx.singleUnitDone) && decide (entry.1 ∈ ctx.stagedNonempty)).map Prod.fst

def planCommit (tables : SessionTables) (options : DestinationOptions) (ctx : CommitContext) :
    Except CommitError CommitScript :=
  if ctx.replayed then
    .ok ⟨truncations tables ctx.fullLoadPublish, replayMarks tables options ctx⟩
  else do
    let parts ← tables.mapM (publishTable options ctx)
    return ⟨parts.flatMap Prod.fst ++ truncations tables ctx.fullLoadPublish ++
      [.upsertState, .insertReceipt], parts.flatMap Prod.snd⟩

/-! ## Redelivery -/

/-- What a redelivered unit does with the rows it wrote. -/
inductive ReplayDisposition where
  | discardUnit
  | runScript
  deriving DecidableEq, Repr

def replayDisposition : FullLoadPublish → ReplayDisposition
  | .directToTarget => .discardUnit
  | .staged => .runScript

/-! ## When a plan succeeds -/

open Fallible

variable {options : DestinationOptions} {ctx : CommitContext} {tables : SessionTables}

/-- A checked table has an arm for its strategy. -/
theorem selectArm_ok {schema : TableSchema} {key : List String}
    (hvalid : validateMode options schema (.merge key) = .ok ()) :
    ∃ arm, selectArm schema.table (TableFacts.of schema).hasIdentity
      (options.strategyFor schema.table) options = .ok arm := by
  obtain ⟨⟨⟩, -, hvalid⟩ := bind_ok.1 hvalid
  obtain ⟨⟨⟩, -, hvalid⟩ := bind_ok.1 hvalid
  obtain ⟨⟨⟩, -, hvalid⟩ := bind_ok.1 hvalid
  obtain ⟨⟨⟩, -, hvalid⟩ := bind_ok.1 hvalid
  obtain ⟨⟨⟩, hupsert, hscd2⟩ := bind_ok.1 hvalid
  rw [checkUpsert, refuse_ok, Bool.and_eq_false_iff, decide_eq_false_iff_not] at hupsert
  cases hid : (TableFacts.of schema).hasIdentity with
  | false => cases options.strategyFor schema.table <;> exact ⟨_, rfl⟩
  | true =>
    cases hstrategy : options.strategyFor schema.table with
    | deleteInsert => exact ⟨_, rfl⟩
    | upsert =>
      rcases hupsert with h | h
      · exact absurd hstrategy h
      · rw [hid] at h
        cases h
    | scd2 =>
      simp only [checkScd2Columns, hstrategy, ne_eq, not_true_eq_false, if_false] at hscd2
      obtain ⟨⟨⟩, h, -⟩ := bind_ok.1 hscd2
      rw [refuse_ok, hid] at h
      cases h

/-- A feed that its load already published. -/
def SecondFeed (options : DestinationOptions) (ctx : CommitContext)
    (entry : String × TableSchema × WriteMode) : Prop :=
  isFullFeed options entry.1 entry.2.2 = true ∧ entry.1 ∈ ctx.stagedNonempty ∧
    entry.1 ∈ ctx.singleUnitDone

/-- A checked table is refused for a second feed only. -/
theorem publishTable_ok_iff {schema : TableSchema} {mode : WriteMode}
    (hvalid : validateMode options schema mode = .ok ()) :
    (∃ part, publishTable options ctx (schema.table, schema, mode) = .ok part) ↔
      ¬SecondFeed options ctx (schema.table, schema, mode) := by
  cases mode with
  | append => exact ⟨fun _ h => absurd h.1 (by simp [isFullFeed, WriteMode.isMerge]), fun _ => ⟨_, rfl⟩⟩
  | replace =>
    refine ⟨fun _ h => absurd h.1 (by simp [isFullFeed, WriteMode.isMerge]), fun _ => ?_⟩
    unfold publishTable
    by_cases h : usesStage .replace ctx.fullLoadPublish = true
    · simp [h]
    · simp [h]
  | merge key =>
    obtain ⟨arm, harm⟩ := selectArm_ok hvalid
    have hsteps : ∃ steps, mergeSteps options schema.table schema = .ok steps :=
      ⟨_, bind_ok.2 ⟨arm, harm, rfl⟩⟩
    obtain ⟨steps, hsteps⟩ := hsteps
    unfold SecondFeed isFullFeed publishTable checkSingleUnit
    simp only [WriteMode.isMerge, Bool.true_and, hsteps, bind_ok_left]
    by_cases hfeed : (MergeContext.resolve options schema.table).fullFeed = true
    · by_cases hrows : schema.table ∈ ctx.stagedNonempty
      · by_cases hdone : schema.table ∈ ctx.singleUnitDone
        · simp [hfeed, hrows, hdone]
        · simp [hfeed, hrows, hdone, pure, Except.pure]
      · simp [hfeed, hrows]
    · simp [hfeed, pure, Except.pure]

/-- The mark of a table that published its feed. -/
theorem publishTable_marks {entry : String × TableSchema × WriteMode}
    {part : List Step × List String} (h : publishTable options ctx entry = .ok part) :
    part.2 = if isFullFeed options entry.1 entry.2.2 && decide (entry.1 ∈ ctx.stagedNonempty) then
      [entry.1] else [] := by
  obtain ⟨table, schema, mode⟩ := entry
  unfold isFullFeed
  cases mode with
  | append =>
    obtain rfl := Except.ok.inj h
    rfl
  | replace =>
    unfold publishTable at h
    by_cases hstage : usesStage .replace ctx.fullLoadPublish = true
    · simp only [hstage, if_true] at h
      obtain rfl := Except.ok.inj h
      rfl
    · simp only [hstage] at h
      obtain rfl := Except.ok.inj h
      rfl
  | merge key =>
    unfold publishTable checkSingleUnit at h
    simp only [WriteMode.isMerge, Bool.true_and]
    by_cases hfeed : (MergeContext.resolve options table).fullFeed = true
    · by_cases hrows : table ∈ ctx.stagedNonempty
      · by_cases hdone : table ∈ ctx.singleUnitDone
        · simp [hfeed, hrows, hdone] at h
        · simp only [hfeed, hrows, hdone, if_true, decide_true, decide_false, Bool.not_true,
            Bool.false_eq_true, if_false] at h
          obtain ⟨steps, -, hpart⟩ := bind_ok.1 h
          rw [pure_ok] at hpart
          subst hpart
          simp [hfeed, hrows]
      · simp only [hfeed, hrows, if_true, decide_false, Bool.not_false] at h
        obtain rfl := Except.ok.inj h
        simp [hrows]
    · simp only [hfeed] at h
      obtain ⟨steps, -, hpart⟩ := bind_ok.1 h
      rw [pure_ok] at hpart
      subst hpart
      simp [hfeed]

/-- The tables whose feed a unit delivers. -/
def fedTables (options : DestinationOptions) (tables : SessionTables) (stagedNonempty : List String) :
    List String :=
  (tables.filter fun entry => isFullFeed options entry.1 entry.2.2 &&
    decide (entry.1 ∈ stagedNonempty)).map Prod.fst

theorem marks_eq {parts : List (List Step × List String)}
    (h : tables.mapM (publishTable options ctx) = .ok parts) :
    parts.flatMap Prod.snd = fedTables options tables ctx.stagedNonempty := by
  induction tables generalizing parts with
  | nil =>
    obtain rfl := mapM_nil_ok.1 h
    rfl
  | cons entry rest ih =>
    obtain ⟨part, parts', hpart, hparts, rfl⟩ := mapM_cons_ok.1 h
    rw [List.flatMap_cons, ih hparts, publishTable_marks hpart, fedTables, fedTables,
      List.filter_cons]
    split
    · rfl
    · rfl

/-- The tables of a session, as their ensures left them. -/
structure SessionTables.Checked (options : DestinationOptions) (tables : SessionTables) : Prop where
  sorted : tables.Sorted
  valid : ∀ e ∈ tables, e.2.1.table = e.1 ∧ validateMode options e.2.1 e.2.2 = .ok ()

theorem checked_insert {schema : TableSchema} {mode : WriteMode} (h : tables.Checked options)
    (hvalid : validateMode options schema mode = .ok ()) :
    (tables.insert schema.table (schema, mode)).Checked options where
  sorted := insert_sorted h.sorted _ _
  valid e he := by
    rcases mem_insert he with rfl | he
    · exact ⟨rfl, hvalid⟩
    · exact h.valid e he

/-- A fresh unit is planned unless it delivers a second feed. -/
theorem planCommit_ok_iff (hchecked : tables.Checked options) (hfresh : ctx.replayed = false) :
    (∃ script, planCommit tables options ctx = .ok script) ↔
      ∀ e ∈ tables, ¬SecondFeed options ctx e := by
  have hplan : (∃ script, planCommit tables options ctx = .ok script) ↔
      ∃ parts, tables.mapM (publishTable options ctx) = .ok parts := by
    rw [planCommit, hfresh, if_neg Bool.false_ne_true]
    constructor
    · rintro ⟨script, h⟩
      obtain ⟨parts, hparts, -⟩ := bind_ok.1 h
      exact ⟨parts, hparts⟩
    · rintro ⟨parts, hparts⟩
      exact ⟨_, bind_ok.2 ⟨parts, hparts, rfl⟩⟩
  rw [hplan, mapM_succeeds]
  refine forall₂_congr fun e he => ?_
  obtain ⟨hname, hvalid⟩ := hchecked.valid e he
  obtain ⟨table, schema, mode⟩ := e
  obtain rfl : schema.table = table := hname
  exact publishTable_ok_iff hvalid

/-! ## Direct publishing -/

/-- Not one of the steps that move staged rows of append and replace. -/
def Step.isDirect : Step → Bool
  | .clearTarget _ => false
  | .insertSelect _ => false
  | _ => true

theorem mergeSteps_direct {table : String} {schema : TableSchema} {steps : List Step}
    (h : mergeSteps options table schema = .ok steps) : ∀ step ∈ steps, step.isDirect = true := by
  obtain ⟨arm, -, hsteps⟩ := bind_ok.1 h
  rw [pure_ok] at hsteps
  subst hsteps
  intro step hstep
  rcases List.mem_append.1 hstep with hstep | hstep
  · split at hstep
    · split at hstep
      · rw [List.mem_singleton.1 hstep]
        rfl
      · cases hstep
    · cases hstep
  · rw [List.mem_singleton.1 hstep]
    rfl

theorem publishTable_direct {entry : String × TableSchema × WriteMode}
    {part : List Step × List String} (hdirect : ctx.fullLoadPublish = .directToTarget)
    (h : publishTable options ctx entry = .ok part) : ∀ step ∈ part.1, step.isDirect = true := by
  obtain ⟨table, schema, mode⟩ := entry
  unfold publishTable at h
  rw [hdirect] at h
  cases mode with
  | append =>
    obtain rfl := Except.ok.inj h
    intro step hstep
    cases hstep
  | replace =>
    obtain rfl := Except.ok.inj h
    intro step hstep
    cases hstep
  | merge key =>
    simp only [] at h
    split at h
    · split at h
      · obtain rfl := Except.ok.inj h
        intro step hstep
        cases hstep
      · cases h
      · obtain ⟨steps, hsteps, hpart⟩ := bind_ok.1 h
        rw [pure_ok] at hpart
        subst hpart
        exact mergeSteps_direct hsteps
    · obtain ⟨steps, hsteps, hpart⟩ := bind_ok.1 h
      rw [pure_ok] at hpart
      subst hpart
      exact mergeSteps_direct hsteps

/-- A direct publish never plans the steps of a staged one. -/
theorem planCommit_direct {script : CommitScript} (hdirect : ctx.fullLoadPublish = .directToTarget)
    (h : planCommit tables options ctx = .ok script) :
    ∀ step ∈ script.steps, step.isDirect = true := by
  have htruncations : ∀ step ∈ truncations tables ctx.fullLoadPublish, step.isDirect = true := by
    intro step hstep
    obtain ⟨e, -, rfl⟩ := List.mem_map.1 hstep
    rfl
  unfold planCommit at h
  split at h
  · obtain rfl := Except.ok.inj h
    exact htruncations
  · obtain ⟨parts, hparts, hscript⟩ := bind_ok.1 h
    rw [pure_ok] at hscript
    subst hscript
    intro step hstep
    simp only [List.append_assoc, List.mem_append, List.mem_flatMap] at hstep
    rcases hstep with ⟨part, hpart, hstep⟩ | hstep | hstep
    · obtain ⟨entry, -, hentry⟩ := mapM_mem hparts hpart
      exact publishTable_direct hdirect hentry step hstep
    · exact htruncations step hstep
    · rcases List.mem_cons.1 hstep with rfl | hstep
      · rfl
      · rw [List.mem_singleton.1 hstep]
        rfl

/-! ## Marks -/

theorem planCommit_marks {script : CommitScript} (hfresh : ctx.replayed = false)
    (h : planCommit tables options ctx = .ok script) :
    script.marks = fedTables options tables ctx.stagedNonempty := by
  rw [planCommit, hfresh, if_neg Bool.false_ne_true] at h
  obtain ⟨parts, hparts, hscript⟩ := bind_ok.1 h
  rw [pure_ok] at hscript
  subst hscript
  exact marks_eq hparts

end Sqlcore
