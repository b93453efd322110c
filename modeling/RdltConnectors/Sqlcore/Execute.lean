import RdltConnectors.Sqlcore.Script

/-!
# Executing a script

The tables of a destination with its bookkeeping, and what each step of a commit
script does to them. Beside it stands what a unit is for: applied to the tables as a
whole, with its own rows, its state and its receipt. A script run over the stages
that hold the unit's rows applies the unit.
-/
namespace Sqlcore

open Sql

variable {V D : Type}

/-- What a unit commits besides its rows. -/
structure CommitMeta (D : Type) where
  loadId : String
  commitSeq : UInt64
  pipeline : String
  state : D

/-- A destination's tables and its bookkeeping. The ledger keeps sequence numbers
in a signed column. -/
structure Database (V D : Type) where
  targets : String → List (Row V)
  stages : String → List (Row V)
  state : String → Option D
  receipts : List (String × Int64)
  /-- targets a load has cleared -/
  cleared : List (String × String)

/-- What a destination is configured with. -/
structure Destination (V : Type) where
  dialect : Dialect
  options : DestinationOptions
  yes : V
  literal : String → V

namespace Database

variable (db : Database V D)

def setTarget (table : String) (rows : List (Row V)) : Database V D :=
  { db with targets := fun t => if t = table then rows else db.targets t }

def setStage (table : String) (rows : List (Row V)) : Database V D :=
  { db with stages := fun t => if t = table then rows else db.stages t }

def withTargets (targets : String → List (Row V)) : Database V D := { db with targets := targets }

def withStages (stages : String → List (Row V)) : Database V D := { db with stages := stages }

def clearStages : Database V D := db.withStages fun _ => []

instance lawfulReceipt : LawfulBEq (String × Int64) := inferInstance

/-- `SELECT count(*) … WHERE load_id = … AND commit_seq = …`. -/
def hasReceipt (loadId : String) (seq : Int64) : Bool := decide ((loadId, seq) ∈ db.receipts)

def loadCommitted (loadId : String) : Bool := db.receipts.any fun r => r.1 = loadId

end Database

/-- The plan of a table's merge: its root's stage and schema are looked up. -/
def mergePlan [LinearOrder V] (dest : Destination V) (tables : SessionTables) (table : String)
    (schema : TableSchema) (key : List String) : MergePlan V :=
  let root := rootOf tables table
  buildMergePlan dest.yes dest.dialect dest.options table schema key root
    ((tables.lookup root).map Prod.fst)

/-- What a table's merge sees. -/
def relations (tables : SessionTables) (table : String) (target : List (Row V))
    (stages : String → List (Row V)) : Relations V :=
  ⟨target, stages table, stages (rootOf tables table), []⟩

/-! ## Probes -/

/-- The full-feed tables whose stage has rows. -/
def probeNonempty (options : DestinationOptions) (tables : SessionTables)
    (stages : String → List (Row V)) : List String :=
  (stagedProbeTargets tables options).filter fun table => !(stages table).isEmpty

/-- The full feeds among the rows. -/
def stagedFeeds (options : DestinationOptions) (tables : SessionTables)
    (rows : String → List (Row V)) : List String :=
  (tables.filter fun e => isFullFeed options e.1 e.2.2 && !(rows e.1).isEmpty).map Prod.fst

/-- The stages probed nonempty are those with rows. -/
def Probed (options : DestinationOptions) (tables : SessionTables) (ctx : CommitContext)
    (stages : String → List (Row V)) : Prop :=
  ∀ table schema mode, tables.lookup table = some (schema, mode) →
    isFullFeed options table mode = true → (table ∈ ctx.stagedNonempty ↔ stages table ≠ [])

section Probes

variable {options : DestinationOptions} {tables : SessionTables} {rows : String → List (Row V)}
  {ctx : CommitContext} {fed : List String}

theorem mem_probeNonempty {e : String × TableSchema × WriteMode} (he : e ∈ tables)
    (hfeed : isFullFeed options e.1 e.2.2 = true) :
    e.1 ∈ probeNonempty options tables rows ↔ rows e.1 ≠ [] := by
  have hprobe : e.1 ∈ stagedProbeTargets tables options :=
    List.mem_map_of_mem (List.mem_filter.2 ⟨he, hfeed⟩)
  rw [probeNonempty, List.mem_filter, and_iff_right hprobe, Bool.not_eq_true',
    List.isEmpty_eq_false_iff]

theorem probed_of_eq (hstaged : ctx.stagedNonempty = probeNonempty options tables rows) :
    Probed options tables ctx rows := by
  intro table schema mode hlook hfeed
  rw [hstaged]
  exact mem_probeNonempty (mem_of_lookup hlook) hfeed

theorem mem_stagedFeeds {t : String} : t ∈ stagedFeeds options tables rows ↔
    ∃ e ∈ tables, isFullFeed options e.1 e.2.2 = true ∧ rows e.1 ≠ [] ∧ e.1 = t := by
  rw [stagedFeeds, List.mem_map]
  simp only [List.mem_filter, Bool.and_eq_true, Bool.not_eq_true', List.isEmpty_eq_false_iff,
    and_assoc]

/-- The feeds that are marked are the feeds there are. -/
theorem fedTables_probe : fedTables options tables (probeNonempty options tables rows) =
    stagedFeeds options tables rows := by
  refine congrArg (List.map Prod.fst) (List.filter_congr fun e he => ?_)
  cases hfeed : isFullFeed options e.1 e.2.2 with
  | false => rfl
  | true =>
    rw [Bool.true_and, Bool.true_and, Bool.eq_iff_iff, decide_eq_true_iff,
      mem_probeNonempty he hfeed, Bool.not_eq_true', List.isEmpty_eq_false_iff]

/-- A redelivery marks the feeds that were not marked yet. -/
theorem mem_replayMarks (hdone : ∀ t, t ∈ ctx.singleUnitDone ↔ t ∈ fed)
    (hstaged : ctx.stagedNonempty = probeNonempty options tables rows) (t : String) :
    t ∈ ctx.singleUnitDone ++ replayMarks tables options ctx ↔
      t ∈ fed ++ stagedFeeds options tables rows := by
  rw [List.mem_append, List.mem_append, mem_stagedFeeds, replayMarks, hstaged, List.mem_map, hdone t]
  simp only [List.mem_filter, Bool.and_eq_true, decide_eq_true_eq, and_assoc]
  constructor
  · rintro (hfed | ⟨e, he, hfeed, -, hrows, rfl⟩)
    · exact .inl hfed
    · exact .inr ⟨e, he, hfeed, (mem_probeNonempty he hfeed).1 hrows, rfl⟩
  · rintro (hfed | ⟨e, he, hfeed, hrows, rfl⟩)
    · exact .inl hfed
    · by_cases hfed : e.1 ∈ fed
      · exact .inl hfed
      · refine .inr ⟨e, he, hfeed, fun h => hfed ((hdone _).1 h), ?_, rfl⟩
        exact (mem_probeNonempty he hfeed).2 hrows

/-- A unit is refused for a feed that was delivered before. -/
theorem second_feed_iff (hdone : ∀ t, t ∈ ctx.singleUnitDone ↔ t ∈ fed)
    (hstaged : ctx.stagedNonempty = probeNonempty options tables rows) :
    (∀ e ∈ tables, ¬SecondFeed options ctx e) ↔
      ¬∃ table ∈ stagedFeeds options tables rows, table ∈ fed := by
  unfold SecondFeed
  rw [hstaged]
  constructor
  · rintro h ⟨t, ht, hfed⟩
    obtain ⟨e, he, hfeed, hrows, rfl⟩ := mem_stagedFeeds.1 ht
    exact h e he ⟨hfeed, (mem_probeNonempty he hfeed).2 hrows, (hdone _).2 hfed⟩
  · rintro h e he ⟨hfeed, hrows, hin⟩
    have hrows : rows e.1 ≠ [] := (mem_probeNonempty he hfeed).1 hrows
    exact h ⟨e.1, mem_stagedFeeds.2 ⟨e, he, hfeed, hrows, rfl⟩, (hdone _).1 hin⟩

end Probes

variable [LinearOrder V]

/-! ## Steps -/

/-- One step, in the publish transaction. The receipt's key is the ledger's. -/
def runStep (dest : Destination V) (tables : SessionTables) (metadata : CommitMeta D) (seq : Int64)
    (now : V) (step : Step) (db : Database V D) : Except String (Database V D) :=
  match step with
  | .clearTarget table => .ok (db.setTarget table [])
  | .insertSelect table =>
    match tables.lookup table with
    | none => .error s!"table `{table}` was not ensured"
    | some (schema, _) => .ok (db.setTarget table
        (db.targets table ++ (db.stages table).map (pick schema.columnNames)))
  | .scopeReplace table scope => .ok (db.setTarget table
      (scopeReplaceSql scope (relations tables table (db.targets table) db.stages)).target)
  | .mergeArm table arm =>
    match tables.lookup table with
    | some (schema, .merge key) => .ok (db.setTarget table
        (runAll (renderArm (mergePlan dest tables table schema key) ⟨now, dest.literal⟩ arm)
          (relations tables table (db.targets table) db.stages)).target)
    | _ => .error s!"internal: merge arm planned for non-merge table `{table}`"
  | .truncateStage table => .ok (db.setStage table [])
  | .upsertState => .ok { db with
      state := fun p => if p = metadata.pipeline then some metadata.state else db.state p }
  | .insertReceipt =>
    if db.hasReceipt metadata.loadId seq then .error "duplicate receipt"
    else .ok { db with receipts := db.receipts ++ [(metadata.loadId, seq)] }

def runSteps (dest : Destination V) (tables : SessionTables) (metadata : CommitMeta D) (seq : Int64)
    (now : V) (steps : List Step) (db : Database V D) : Except String (Database V D) :=
  steps.foldlM (fun db step => runStep dest tables metadata seq now step db) db

@[simp] theorem runSteps_nil (dest : Destination V) (tables : SessionTables)
    (metadata : CommitMeta D) (seq : Int64) (now : V) (db : Database V D) :
    runSteps dest tables metadata seq now [] db = .ok db := rfl

@[simp] theorem runSteps_cons (dest : Destination V) (tables : SessionTables)
    (metadata : CommitMeta D) (seq : Int64) (now : V) (step : Step) (steps : List Step)
    (db : Database V D) : runSteps dest tables metadata seq now (step :: steps) db =
      (runStep dest tables metadata seq now step db >>=
        runSteps dest tables metadata seq now steps) := rfl

theorem runSteps_append (dest : Destination V) (tables : SessionTables) (metadata : CommitMeta D)
    (seq : Int64) (now : V) (first second : List Step) (db : Database V D) :
    runSteps dest tables metadata seq now (first ++ second) db =
      (runSteps dest tables metadata seq now first db >>=
        runSteps dest tables metadata seq now second) := List.foldlM_append

/-! ## What a unit does -/

/-- A scope's rows are replaced unless the table is a history. -/
def scopeReplaced (dest : Destination V) (tables : SessionTables) (rows : String → List (Row V))
    (table : String) (target : List (Row V)) : List (Row V) :=
  let context := MergeContext.resolve dest.options table
  match context.scope with
  | some scope =>
    if context.strategy ≠ .scd2 then (scopeReplaceSql scope (relations tables table target rows)).target
    else target
  | none => target

/-- What a unit with these rows makes of a table. -/
def tableResult (dest : Destination V) (tables : SessionTables) (publish : FullLoadPublish) (now : V)
    (first : Bool) (rows : String → List (Row V)) (table : String) (schema : TableSchema)
    (mode : WriteMode) (target : List (Row V)) : List (Row V) :=
  match mode with
  | .append =>
    if usesStage .append publish then target ++ (rows table).map (pick schema.columnNames) else target
  | .replace =>
    if usesStage .replace publish then
      (if first then [] else target) ++ (rows table).map (pick schema.columnNames)
    else target
  | .merge key =>
    if isFullFeed dest.options table (.merge key) && (rows table).isEmpty then target
    else match selectArm table (TableFacts.of schema).hasIdentity
        (MergeContext.resolve dest.options table).strategy dest.options with
      | .ok arm =>
        (runAll (renderArm (mergePlan dest tables table schema key) ⟨now, dest.literal⟩ arm)
          (relations tables table (scopeReplaced dest tables rows table target) rows)).target
      | .error _ => target

/-- The unit applied to the tables: its rows, its state and its receipt at once. -/
def publishUnit (dest : Destination V) (publish : FullLoadPublish) (tables : SessionTables)
    (rows : String → List (Row V)) (metadata : CommitMeta D) (seq : Int64) (now : V)
    (db : Database V D) : Database V D :=
  { db with
    targets := fun table => match tables.lookup table with
      | some (schema, mode) => tableResult dest tables publish now
          (!db.loadCommitted metadata.loadId) rows table schema mode (db.targets table)
      | none => db.targets table
    state := fun p => if p = metadata.pipeline then some metadata.state else db.state p
    receipts := db.receipts ++ [(metadata.loadId, seq)] }

/-! ## The script applies the unit -/

omit [LinearOrder V] in
@[simp] theorem setTarget_self (db : Database V D) (table : String) :
    db.setTarget table (db.targets table) = db := by
  unfold Database.setTarget
  congr 1
  funext t
  split
  · next h => rw [h]
  · rfl

omit [LinearOrder V] in
@[simp] theorem setTarget_setTarget (db : Database V D) (table : String) (rows rows' : List (Row V)) :
    (db.setTarget table rows).setTarget table rows' = db.setTarget table rows' := by
  unfold Database.setTarget
  congr 1
  funext t
  by_cases ht : t = table
  · rw [if_pos ht, if_pos ht]
  · rw [if_neg ht, if_neg ht]
    exact if_neg ht

omit [LinearOrder V] in
@[simp] theorem setTarget_targets (db : Database V D) (table : String) (rows : List (Row V)) :
    (db.setTarget table rows).targets table = rows := if_pos rfl

omit [LinearOrder V] in
theorem setTarget_targets_ne (db : Database V D) {table t : String} (rows : List (Row V))
    (ht : t ≠ table) : (db.setTarget table rows).targets t = db.targets t := if_neg ht

omit [LinearOrder V] in
@[simp] theorem setTarget_stages (db : Database V D) (table : String) (rows : List (Row V)) :
    (db.setTarget table rows).stages = db.stages := rfl

section Script

variable {dest : Destination V} {tables : SessionTables} {metadata : CommitMeta D} {seq : Int64}
  {now : V} {ctx : CommitContext} {db : Database V D}

theorem mergeSteps_run {table : String} {schema : TableSchema} {key : List String} {steps : List Step}
    (metadata : CommitMeta D) (seq : Int64) (now : V) (db : Database V D)
    (hlook : tables.lookup table = some (schema, .merge key))
    (h : mergeSteps dest.options table schema = .ok steps) :
    ∃ arm, selectArm table (TableFacts.of schema).hasIdentity
        (MergeContext.resolve dest.options table).strategy dest.options = .ok arm ∧
      runSteps dest tables metadata seq now steps db = .ok (db.setTarget table
        (runAll (renderArm (mergePlan dest tables table schema key) ⟨now, dest.literal⟩ arm)
          (relations tables table (scopeReplaced dest tables db.stages table (db.targets table))
            db.stages)).target) := by
  obtain ⟨arm, harm, hsteps⟩ := Fallible.bind_ok.1 h
  refine ⟨arm, harm, ?_⟩
  rw [Fallible.pure_ok] at hsteps
  subst hsteps
  unfold scopeReplaced
  cases hscope : (MergeContext.resolve dest.options table).scope with
  | none => simp [hscope, runStep, hlook, bind, Except.bind]
  | some scope =>
    by_cases hscd2 : (MergeContext.resolve dest.options table).strategy = .scd2
    · simp [hscope, hscd2, runStep, hlook, bind, Except.bind]
    · simp [hscope, hscd2, runStep, hlook, bind, Except.bind]

/-- The steps of a table change that table alone, as the unit does. -/
theorem publishTable_run {table : String} {schema : TableSchema} {mode : WriteMode}
    {part : List Step × List String} (hlook : tables.lookup table = some (schema, mode))
    (hprobed : Probed dest.options tables ctx db.stages)
    (h : publishTable dest.options ctx (table, schema, mode) = .ok part) :
    runSteps dest tables metadata seq now part.1 db = .ok (db.setTarget table
      (tableResult dest tables ctx.fullLoadPublish now (!ctx.loadCommittedBefore) db.stages table
        schema mode (db.targets table))) := by
  cases mode with
  | append =>
    obtain rfl := Except.ok.inj h
    unfold tableResult
    by_cases hstage : usesStage .append ctx.fullLoadPublish = true
    · simp [hstage, runStep, hlook, bind, Except.bind]
    · simp [hstage]
  | replace =>
    unfold tableResult
    by_cases hstage : usesStage .replace ctx.fullLoadPublish = true
    · simp only [publishTable, hstage, if_true] at h
      obtain rfl := Except.ok.inj h
      cases hbefore : ctx.loadCommittedBefore with
      | true => simp [hstage, runStep, hlook, bind, Except.bind]
      | false => simp [hstage, runStep, hlook, bind, Except.bind]
    · simp only [publishTable, hstage] at h
      obtain rfl := Except.ok.inj h
      simp [hstage]
  | merge key =>
    have hprobe := hprobed table schema (.merge key) hlook
    have hmerge {steps : List Step} (hsteps : mergeSteps dest.options table schema = .ok steps)
        (hpublished : (isFullFeed dest.options table (.merge key) &&
          (db.stages table).isEmpty) = false) :
        runSteps dest tables metadata seq now steps db = .ok (db.setTarget table
          (tableResult dest tables ctx.fullLoadPublish now (!ctx.loadCommittedBefore) db.stages table
            schema (.merge key) (db.targets table))) := by
      obtain ⟨arm, harm, hrun⟩ := mergeSteps_run metadata seq now db hlook hsteps
      rw [hrun, tableResult, hpublished, harm]
      rfl
    by_cases hfull : (MergeContext.resolve dest.options table).fullFeed = true
    · have hfeed : isFullFeed dest.options table (.merge key) = true := hfull
      simp only [publishTable, hfull, if_true, checkSingleUnit] at h
      by_cases hrows : db.stages table = []
      · have hnot : table ∉ ctx.stagedNonempty := fun hmem => (hprobe hfeed).1 hmem hrows
        simp only [hnot, decide_false, Bool.not_false, if_true] at h
        obtain rfl := Except.ok.inj h
        simp [tableResult, hfeed, hrows]
      · have hmem : table ∈ ctx.stagedNonempty := (hprobe hfeed).2 hrows
        by_cases hdone : table ∈ ctx.singleUnitDone
        · simp [hmem, hdone] at h
        · simp only [hmem, hdone, decide_true, decide_false, Bool.not_true, Bool.false_eq_true,
            if_false] at h
          obtain ⟨steps, hsteps, hpart⟩ := Fallible.bind_ok.1 h
          rw [Fallible.pure_ok] at hpart
          subst hpart
          exact hmerge hsteps (by simp [hrows])
    · have hfeed : isFullFeed dest.options table (.merge key) = false := by
        rw [Bool.eq_false_iff]
        exact hfull
      simp only [publishTable, hfull] at h
      obtain ⟨steps, hsteps, hpart⟩ := Fallible.bind_ok.1 h
      rw [Fallible.pure_ok] at hpart
      subst hpart
      exact hmerge hsteps (by rw [hfeed]; rfl)

/-- All tables of the session, one after another: each reads the stages, which none
of them changes. -/
theorem publishTables_run {entries : SessionTables} {parts : List (List Step × List String)}
    {stages : String → List (Row V)} (hstages : db.stages = stages)
    (hentries : ∀ e ∈ entries, tables.lookup e.1 = some e.2)
    (hnodup : (entries.map Prod.fst).Nodup) (hprobed : Probed dest.options tables ctx stages)
    (h : entries.mapM (publishTable dest.options ctx) = .ok parts) :
    runSteps dest tables metadata seq now (parts.flatMap Prod.fst) db =
      .ok (db.withTargets fun table => match entries.lookup table with
        | some (schema, mode) => tableResult dest tables ctx.fullLoadPublish now
            (!ctx.loadCommittedBefore) stages table schema mode (db.targets table)
        | none => db.targets table) := by
  induction entries generalizing db parts with
  | nil =>
    obtain rfl := Fallible.mapM_nil_ok.1 h
    rfl
  | cons entry entries ih =>
    obtain ⟨part, rest, hpart, hrest, rfl⟩ := Fallible.mapM_cons_ok.1 h
    obtain ⟨table, schema, mode⟩ := entry
    obtain ⟨hnot, hnodup⟩ := List.nodup_cons.1 hnodup
    have hlook : tables.lookup table = some (schema, mode) := hentries (table, schema, mode) (by simp)
    subst hstages
    rw [List.flatMap_cons, runSteps_append, publishTable_run hlook hprobed hpart,
      Fallible.bind_ok_left]
    refine (ih (setTarget_stages db table _) (fun e he => hentries e (by simp [he])) hnodup
      hrest).trans ?_
    refine congrArg (fun f => Except.ok (db.withTargets f)) (funext fun t => ?_)
    rw [lookup_cons_ite]
    by_cases ht : t = table
    · subst ht
      rw [lookup_eq_none_of_not_mem hnot, if_pos rfl]
      exact if_pos rfl
    · rw [if_neg ht, setTarget_targets_ne db _ ht]

/-- The names of the tables with a stage. -/
def stagedNames (tables : SessionTables) (publish : FullLoadPublish) : List String :=
  (tables.filter fun entry => usesStage entry.2.2 publish).map Prod.fst

/-- The stages of these tables emptied. -/
def truncated (names : List String) (db : Database V D) : Database V D :=
  db.withStages fun t => if t ∈ names then [] else db.stages t

theorem truncate_run (names : List String) (db : Database V D) :
    runSteps dest tables metadata seq now (names.map Step.truncateStage) db =
      .ok (truncated names db) := by
  induction names generalizing db with
  | nil => simp [truncated, Database.withStages]
  | cons table names ih =>
    rw [List.map_cons, runSteps_cons]
    refine (ih (db.setStage table [])).trans ?_
    refine congrArg (fun f => Except.ok (db.withStages f)) (funext fun t => ?_)
    by_cases ht : t = table
    · simp [ht, Database.setStage]
    · simp [ht, Database.setStage]

theorem truncations_eq (tables : SessionTables) (publish : FullLoadPublish) :
    truncations tables publish = (stagedNames tables publish).map Step.truncateStage := by
  rw [truncations, stagedNames, List.map_map]
  rfl

theorem bookkeeping_run (hreceipt : db.hasReceipt metadata.loadId seq = false) :
    runSteps dest tables metadata seq now [.upsertState, .insertReceipt] db = .ok { db with
      state := fun p => if p = metadata.pipeline then some metadata.state else db.state p
      receipts := db.receipts ++ [(metadata.loadId, seq)] } := by
  have hsecond : runStep dest tables metadata seq now .insertReceipt { db with
      state := fun p => if p = metadata.pipeline then some metadata.state else db.state p } =
      .ok { db with
        state := fun p => if p = metadata.pipeline then some metadata.state else db.state p
        receipts := db.receipts ++ [(metadata.loadId, seq)] } :=
    if_neg (Bool.eq_false_iff.1 hreceipt)
  rw [runSteps_cons, runStep, Fallible.bind_ok_left, runSteps_cons, hsecond]
  rfl

/-- A fresh unit's script publishes the rows of the stages, and truncates them. -/
theorem fresh_run {script : CommitScript} (hsorted : tables.Sorted)
    (hprobed : Probed dest.options tables ctx db.stages)
    (hbefore : ctx.loadCommittedBefore = db.loadCommitted metadata.loadId)
    (hreceipt : db.hasReceipt metadata.loadId seq = false) (hfresh : ctx.replayed = false)
    (h : planCommit tables dest.options ctx = .ok script) :
    runSteps dest tables metadata seq now script.steps db =
      .ok (truncated (stagedNames tables ctx.fullLoadPublish)
        (publishUnit dest ctx.fullLoadPublish tables db.stages metadata seq now db)) := by
  rw [planCommit, hfresh, if_neg Bool.false_ne_true] at h
  obtain ⟨parts, hparts, hscript⟩ := Fallible.bind_ok.1 h
  rw [Fallible.pure_ok] at hscript
  subst hscript
  have hentries : ∀ e ∈ tables, tables.lookup e.1 = some e.2 := fun e he =>
    lookup_of_mem hsorted.nodup he
  rw [runSteps_append, runSteps_append, publishTables_run rfl hentries hsorted.nodup hprobed hparts,
    Fallible.bind_ok_left, truncations_eq, truncate_run, Fallible.bind_ok_left, hbefore]
  exact bookkeeping_run hreceipt

/-- A redelivered unit's script empties the stages and changes nothing else. -/
theorem replay_run {script : CommitScript} (hreplayed : ctx.replayed = true)
    (h : planCommit tables dest.options ctx = .ok script) :
    runSteps dest tables metadata seq now script.steps db =
      .ok (truncated (stagedNames tables ctx.fullLoadPublish) db) := by
  rw [planCommit, hreplayed, if_pos rfl] at h
  obtain rfl := Except.ok.inj h
  rw [truncations_eq]
  exact truncate_run _ db

end Script

end Sqlcore
