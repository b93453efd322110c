import Mathlib
import RdltConnectors.Postgres.Load
import RdltConnectors.Library.Transition

/-!
# What a load session has delivered

Beside the session stands what its calls come to: the writes that wait for their
commit, what the stages hold, and the units committed so far. The writes go to the
target directly, and of what the session remembers only the durable record of the
clears decides whether one of them clears it. The database follows this ledger
through rollbacks, redeliveries, crashes and reconnects.
-/
namespace PgLoad

open Sqlcore

variable {V D : Type}

/-- A batch that went straight into its target. -/
structure Write (V : Type) where
  table : String
  replace : Bool
  rows : List (Row V)

/-- A replaced target is emptied unless the load has done so before. -/
def prepare (loadId table : String) (db : Database V D) : Database V D :=
  if (loadId, table) ∈ db.cleared then db else recordCleared loadId table (db.setTarget table [])

def applyWrite (loadId : String) (db : Database V D) (write : Write V) : Database V D :=
  let db := if write.replace then prepare loadId write.table db else db
  db.setTarget write.table (db.targets write.table ++ write.rows)

def applyWrites (loadId : String) (writes : List (Write V)) (db : Database V D) : Database V D :=
  writes.foldl (applyWrite loadId) db

/-- A unit as a session delivered it. -/
structure Delivery (V D : Type) where
  tables : SessionTables
  writes : List (Write V)
  staged : String → List (Row V)
  metadata : CommitMeta D
  now : V

def Delivery.key (unit : Delivery V D) : String × Int64 :=
  (unit.metadata.loadId, unit.metadata.commitSeq.toInt64)

/-- What a session is known to have done. -/
structure Attempt (V : Type) where
  loadId : String
  tables : SessionTables
  /-- full-feed tables whose feed it has delivered -/
  fed : List String
  /-- written by the open unit -/
  writes : List (Write V)
  staged : String → List (Row V)

namespace Attempt

def fresh (loadId : String) : Attempt V := ⟨loadId, [], [], [], fun _ => []⟩

/-- The full feeds in the stages. -/
def feeds (options : DestinationOptions) (attempt : Attempt V) : List String :=
  stagedFeeds options attempt.tables attempt.staged

/-- Nothing of the open unit is left, and the stages are as they were. -/
def rolledBack (attempt : Attempt V) (kept : String → List (Row V)) : Attempt V :=
  { attempt with writes := [], staged := kept }

def delivered (options : DestinationOptions) (attempt : Attempt V) (kept : String → List (Row V)) :
    Attempt V :=
  { attempt.rolledBack kept with fed := attempt.fed ++ attempt.feeds options }

/-- The stages after their truncation. -/
def truncated (publish : FullLoadPublish) (attempt : Attempt V) : String → List (Row V) :=
  fun t => if t ∈ stagedNames attempt.tables publish then [] else attempt.staged t

def written (publish : FullLoadPublish) (attempt : Attempt V) (table : String) (mode : WriteMode)
    (rows : List (Row V)) : Attempt V :=
  if usesStage mode publish then
    let staged := fun t => if t = table then attempt.staged table ++ rows else attempt.staged t
    { attempt with staged }
  else { attempt with writes := attempt.writes ++ [⟨table, decide (mode = .replace), rows⟩] }

@[simp] theorem written_loadId (publish : FullLoadPublish) (attempt : Attempt V) (table : String)
    (mode : WriteMode) (rows : List (Row V)) :
    (attempt.written publish table mode rows).loadId = attempt.loadId := by
  unfold written
  split
  · rfl
  · rfl

@[simp] theorem written_tables (publish : FullLoadPublish) (attempt : Attempt V) (table : String)
    (mode : WriteMode) (rows : List (Row V)) :
    (attempt.written publish table mode rows).tables = attempt.tables := by
  unfold written
  split
  · rfl
  · rfl

end Attempt

/-- The committed units, the stages as they are on disk, and the current attempt. -/
structure Ledger (V D : Type) where
  units : List (Delivery V D)
  kept : String → List (Row V)
  attempt : Option (Attempt V)

namespace Ledger

def empty : Ledger V D := ⟨[], fun _ => [], none⟩

def keys (l : Ledger V D) : List (String × Int64) := l.units.map Delivery.key

variable (options : DestinationOptions) (publish : FullLoadPublish)
  (earlier : List (String × Int64))

def rollback (l : Ledger V D) (attempt : Attempt V) : Ledger V D :=
  { l with attempt := some (attempt.rolledBack l.kept) }

/-- What a redelivery leaves in the stages: it is discarded, or truncated. -/
def keptAfter (attempt : Attempt V) (kept : String → List (Row V)) : String → List (Row V) :=
  match replayDisposition publish with
  | .discardUnit => kept
  | .runScript => attempt.truncated publish

def redeliver (l : Ledger V D) (attempt : Attempt V) : Ledger V D :=
  let kept := keptAfter publish attempt l.kept
  { l with kept, attempt := some (attempt.delivered options kept) }

/-- A commit of a unit that was not delivered before, under the session's load. -/
def CommitsFresh (l : Ledger V D) (attempt : Attempt V) (metadata : CommitMeta D) : Prop :=
  metadata.loadId = attempt.loadId ∧
    (metadata.loadId, metadata.commitSeq.toInt64) ∉ earlier ++ l.keys

/-- The unit is delivered, unless it was before or its load published the feed. -/
def commit (l : Ledger V D) (attempt : Attempt V) (metadata : CommitMeta D) (now : V) :
    Ledger V D :=
  if metadata.loadId ≠ attempt.loadId then l.rollback attempt
  else if (metadata.loadId, metadata.commitSeq.toInt64) ∈ earlier ++ l.keys then
    l.redeliver options publish attempt
  else if ∃ table ∈ attempt.feeds options, table ∈ attempt.fed then l.rollback attempt
  else
    let kept := attempt.truncated publish
    ⟨l.units ++ [⟨attempt.tables, attempt.writes, attempt.staged, metadata, now⟩], kept,
      some (attempt.delivered options kept)⟩

def write (l : Ledger V D) (attempt : Attempt V) (table : String) (rows : List (Row V)) :
    Ledger V D :=
  match attempt.tables.lookup table with
  | some (_, mode) => { l with attempt := some (attempt.written publish table mode rows) }
  | none => l

def writeFails (l : Ledger V D) (attempt : Attempt V) (table : String) : Ledger V D :=
  match attempt.tables.lookup table with
  | some _ => l.rollback attempt
  | none => l

def step (l : Ledger V D) (event : Event V D) : Ledger V D :=
  match event, l.attempt with
  | .connect loadId, _ => ⟨l.units, fun _ => [], some (Attempt.fresh loadId)⟩
  | .crash, _ => { l with attempt := none }
  | _, none => l
  | .ensure schema mode, some attempt =>
    match validateMode options schema mode with
    | .ok () =>
      let tables := attempt.tables.insert schema.table (schema, mode)
      { l with attempt := some { attempt with tables } }
    | .error _ => l.rollback attempt
  | .write table rows, some attempt => l.write publish attempt table rows
  | .writeFails table, some attempt => l.writeFails attempt table
  | .commit metadata now, some attempt => l.commit options publish earlier attempt metadata now
  | .commitUnacknowledged metadata now, some attempt =>
    { l.commit options publish earlier attempt metadata now with attempt := none }
  | .fail, some attempt => l.rollback attempt

end Ledger

/-! ## The open unit -/

/-- The open unit has applied the writes to what is durable. -/
structure UnitMatches (db : Database V D) (attempt : Attempt V) (unit : Open V D) : Prop where
  work : unit.work = (applyWrites attempt.loadId attempt.writes db).withStages attempt.staged
  before : unit.loadCommittedBefore = db.loadCommitted attempt.loadId
  cleared : ∀ t, (attempt.loadId, t) ∈ unit.work.cleared ↔
    (attempt.loadId, t) ∈ db.cleared ∨ t ∈ unit.cleared

/-- The session remembers the attempt; its guard claims no clear that is not durable. -/
structure Remembers (db : Database V D) (load : Load V D) (attempt : Attempt V) : Prop where
  loadId : load.loadId = attempt.loadId
  tables : load.tables = attempt.tables
  done : ∀ t, t ∈ load.singleUnitDone ↔ t ∈ attempt.fed
  cleared : ∀ t ∈ load.clearedTargets, (attempt.loadId, t) ∈ db.cleared
  closed : load.unit = none → attempt.writes = [] ∧ attempt.staged = db.stages
  opened : ∀ unit, load.unit = some unit → UnitMatches db attempt unit

variable {db : Database V D} {load : Load V D} {attempt : Attempt V} {unit : Open V D}
  {publish : FullLoadPublish} {table : String}

theorem beginIfClosed_matches (h : Remembers db load attempt) :
    UnitMatches db attempt (beginIfClosed db load) := by
  unfold beginIfClosed
  cases hunit : load.unit with
  | some unit => exact h.opened unit hunit
  | none =>
    obtain ⟨hwrites, hstaged⟩ := h.closed hunit
    refine ⟨?_, congrArg db.loadCommitted h.loadId, fun t => ?_⟩
    · rw [hwrites, hstaged]
      rfl
    · exact ⟨.inl, fun hcleared => hcleared.resolve_right List.not_mem_nil⟩

theorem prepare_cleared (loadId : String) (db : Database V D) (t : String) :
    (loadId, t) ∈ (prepare loadId table db).cleared ↔ (loadId, t) ∈ db.cleared ∨ t = table := by
  unfold prepare
  by_cases h : (loadId, table) ∈ db.cleared
  · rw [if_pos h]
    refine ⟨.inl, ?_⟩
    rintro (hcleared | rfl)
    · exact hcleared
    · exact h
  · have hrecord : (recordCleared loadId table (db.setTarget table [])).cleared =
        db.cleared ++ [(loadId, table)] := if_neg h
    rw [if_neg h, hrecord, List.mem_append, List.mem_singleton, Prod.mk.injEq,
      and_iff_right rfl]

theorem prepare_withStages (loadId : String) (db : Database V D) (stages : String → List (Row V)) :
    prepare loadId table (db.withStages stages) = (prepare loadId table db).withStages stages := by
  by_cases h : (loadId, table) ∈ db.cleared
  · have hsame : (loadId, table) ∈ (db.withStages stages).cleared := h
    rw [prepare, prepare, if_pos h, if_pos hsame]
  · have hsame : (loadId, table) ∉ (db.withStages stages).cleared := h
    rw [prepare, prepare, if_neg h, if_neg hsame]
    rfl

theorem applyWrites_append (loadId : String) (writes : List (Write V)) (write : Write V)
    (db : Database V D) : applyWrites loadId (writes ++ [write]) db =
      applyWrite loadId (applyWrites loadId writes db) write := by
  rw [applyWrites, List.foldl_append]
  rfl

/-! ## What a write prepares -/

/-- What the session's guard and the unit's clears say is what the record says. -/
theorem mem_clearedUnion (table : String) (h : Remembers db load attempt) (hu : UnitMatches db attempt unit) :
    table ∈ clearedUnion (seedCleared load unit table) unit ↔
      (attempt.loadId, table) ∈ unit.work.cleared := by
  unfold seedCleared clearedUnion
  rw [h.loadId]
  by_cases hknown : table ∈ load.clearedTargets ∨ table ∈ unit.cleared
  · rw [if_pos hknown, List.mem_append, iff_true_left hknown, hu.cleared]
    exact hknown.imp_left (h.cleared table)
  · rw [if_neg hknown]
    by_cases hdurable : (attempt.loadId, table) ∈ unit.work.cleared
    · simp [hdurable]
    · rw [if_neg hdurable, List.mem_append]
      exact iff_of_false hknown hdurable

theorem seedCleared_remembers (h : Remembers db load attempt) (hu : UnitMatches db attempt unit)
    (table : String) : Remembers db (seedCleared load unit table) attempt := by
  unfold seedCleared
  split
  · exact h
  · next hknown =>
    split
    · next hdurable =>
      refine ⟨h.loadId, h.tables, h.done, fun t ht => ?_, h.closed, h.opened⟩
      rcases List.mem_append.1 ht with ht | ht
      · exact h.cleared t ht
      · obtain rfl := List.mem_singleton.1 ht
        rw [h.loadId, hu.cleared] at hdurable
        exact hdurable.resolve_right fun hin => hknown (.inr hin)
    · exact h

theorem prepareTarget_eq {schema : TableSchema} {ctx : CommitContext}
    (hlook : attempt.tables.lookup table = some (schema, .replace)) :
    prepareTarget attempt.tables ctx table =
      if usesStage .replace ctx.fullLoadPublish then []
      else if table ∈ ctx.clearedTargets then [] else [.clearTarget table] := by
  rw [prepareTarget, hlook]
  simp

/-- What the writes of a table with this mode find. -/
def prepared (publish : FullLoadPublish) (mode : WriteMode) (loadId table : String)
    (db : Database V D) : Database V D :=
  if !usesStage mode publish && decide (mode = .replace) then prepare loadId table db else db

/-- The unit that a write starts from. -/
structure Prepared (db : Database V D) (attempt : Attempt V) (publish : FullLoadPublish)
    (mode : WriteMode) (table : String) (unit unit' : Open V D) : Prop where
  work : unit'.work = prepared publish mode attempt.loadId table unit.work
  before : unit'.loadCommittedBefore = unit.loadCommittedBefore
  cleared : ∀ t, (attempt.loadId, t) ∈ unit'.work.cleared ↔
    (attempt.loadId, t) ∈ db.cleared ∨ t ∈ unit'.cleared

/-- A write clears exactly when the record of the transaction does not say so yet. -/
theorem prepareForWrite_spec (publish : FullLoadPublish) {schema : TableSchema} {mode : WriteMode}
    (h : Remembers db load attempt) (hu : UnitMatches db attempt unit)
    (hlook : attempt.tables.lookup table = some (schema, mode)) :
    ∃ load' unit', prepareForWrite publish load unit table = (load', .ok unit') ∧
      Remembers db load' attempt ∧ Prepared db attempt publish mode table unit unit' := by
  have hsame : mode ≠ .replace ∨ usesStage mode publish = true →
      Prepared db attempt publish mode table unit unit := by
    rintro (hmode | hstage)
    · exact ⟨by simp [prepared, hmode], rfl, hu.cleared⟩
    · exact ⟨by simp [prepared, hstage], rfl, hu.cleared⟩
  unfold prepareForWrite
  rw [h.tables, hlook]
  cases mode with
  | append => exact ⟨load, unit, rfl, h, hsame (.inl (by simp))⟩
  | merge key => exact ⟨load, unit, rfl, h, hsame (.inl (by simp))⟩
  | replace =>
    have hseeded := seedCleared_remembers h hu table
    refine ⟨seedCleared load unit table, ?_⟩
    simp only [hseeded.tables, prepareTarget_eq hlook]
    by_cases hstage : usesStage .replace publish = true
    · refine ⟨unit, ?_, hseeded, hsame (.inr hstage)⟩
      simp [commitContext, hstage]
    · have hmem := mem_clearedUnion table h hu
      by_cases hcleared : (attempt.loadId, table) ∈ unit.work.cleared
      · refine ⟨unit, ?_, hseeded, ?_, rfl, hu.cleared⟩
        · simp [commitContext, hstage, hmem.2 hcleared]
        · simp [prepared, prepare, hstage, hcleared]
      · have hnot : table ∉ clearedUnion (seedCleared load unit table) unit :=
          fun hin => hcleared (hmem.1 hin)
        refine ⟨{ unit with
          work := recordCleared attempt.loadId table (unit.work.setTarget table [])
          cleared := unit.cleared ++ [table] }, ?_, hseeded, ?_, rfl, fun t => ?_⟩
        · simp [commitContext, hstage, hnot, prepareStep, hseeded.loadId, bind, Except.bind]
        · simp [prepared, prepare, hstage, hcleared]
        · have hprepare : prepare attempt.loadId table unit.work =
              recordCleared attempt.loadId table (unit.work.setTarget table []) := if_neg hcleared
          rw [← hprepare, prepare_cleared, hu.cleared, List.mem_append, List.mem_singleton, or_assoc]

theorem prepared_withStages (publish : FullLoadPublish) (mode : WriteMode) (loadId table : String)
    (db : Database V D) (stages : String → List (Row V)) :
    prepared publish mode loadId table (db.withStages stages) =
      (prepared publish mode loadId table db).withStages stages := by
  unfold prepared
  split
  · exact prepare_withStages loadId db stages
  · rfl

/-- A direct write in terms of what it prepares. -/
theorem applyWrites_direct {mode : WriteMode} (loadId : String) (writes : List (Write V))
    (table : String) (rows : List (Row V)) (db : Database V D) (hstage : ¬usesStage mode publish = true) :
    applyWrites loadId (writes ++ [⟨table, decide (mode = .replace), rows⟩]) db =
      (prepared publish mode loadId table (applyWrites loadId writes db)).setTarget table
        ((prepared publish mode loadId table (applyWrites loadId writes db)).targets table ++ rows) := by
  rw [applyWrites_append, applyWrite, prepared, Bool.eq_false_iff.2 hstage]
  rfl

/-! ## Calls of the session -/

theorem rollback_remembers (h : Remembers db load attempt) :
    Remembers db load.rollback (attempt.rolledBack db.stages) :=
  ⟨h.loadId, h.tables, h.done, h.cleared, fun _ => ⟨rfl, rfl⟩, fun _ hunit => by cases hunit⟩

/-- A write that lands is logged, and one into a stage is staged. -/
theorem write_remembers {schema : TableSchema} {mode : WriteMode} {rows : List (Row V)}
    (h : Remembers db load attempt) (hlook : attempt.tables.lookup table = some (schema, mode)) :
    Remembers db (write publish db load table mode rows true)
      (attempt.written publish table mode rows) := by
  have hu := beginIfClosed_matches h
  obtain ⟨load', unit', hprepare, h', hunit'⟩ := prepareForWrite_spec publish h hu hlook
  rw [write, hprepare]
  have hwork := hunit'.work
  rw [hu.work, prepared_withStages] at hwork
  unfold Attempt.written copyRows
  by_cases hstage : usesStage mode publish = true
  · have hsame : prepared publish mode attempt.loadId table
        (applyWrites attempt.loadId attempt.writes db) =
        applyWrites attempt.loadId attempt.writes db := by simp [prepared, hstage]
    rw [hsame] at hwork
    simp only [hstage, if_true]
    refine ⟨h'.loadId, h'.tables, h'.done, h'.cleared, (nomatch ·),
      fun unit hunit => ?_⟩
    obtain rfl := Option.some.inj hunit
    refine ⟨?_, hunit'.before.trans hu.before, hunit'.cleared⟩
    simp only [hwork]
    rfl
  · simp only [hstage]
    refine ⟨h'.loadId, h'.tables, h'.done, h'.cleared, (nomatch ·),
      fun unit hunit => ?_⟩
    obtain rfl := Option.some.inj hunit
    refine ⟨?_, hunit'.before.trans hu.before, hunit'.cleared⟩
    have hlogged := applyWrites_direct attempt.loadId attempt.writes table rows db hstage
    refine Eq.trans ?_ (congrArg (Database.withStages · attempt.staged) hlogged.symm)
    simp only [hwork]
    rfl

theorem writeFails_remembers {schema : TableSchema} {mode : WriteMode} {rows : List (Row V)}
    (h : Remembers db load attempt) (hlook : attempt.tables.lookup table = some (schema, mode)) :
    Remembers db (write publish db load table mode rows false) (attempt.rolledBack db.stages) := by
  obtain ⟨load', unit', hprepare, h', -⟩ :=
    prepareForWrite_spec publish h (beginIfClosed_matches h) hlook
  rw [write, hprepare]
  exact rollback_remembers h'

variable [LinearOrder V]

def Delivery.apply (dest : Destination V) (publish : FullLoadPublish) (db : Database V D)
    (unit : Delivery V D) : Database V D :=
  Sqlcore.publishUnit dest publish unit.tables unit.staged unit.metadata
    unit.metadata.commitSeq.toInt64 unit.now (applyWrites unit.metadata.loadId unit.writes db)

/-- The database after each unit once, in order. -/
def contents (dest : Destination V) (publish : FullLoadPublish) (init : Database V D)
    (units : List (Delivery V D)) : Database V D := units.foldl (Delivery.apply dest publish) init

/-! ## The transaction of a commit -/

/-- The tables passed their checks; the staged face writes no target. -/
structure Attempt.Sound (options : DestinationOptions) (publish : FullLoadPublish)
    (attempt : Attempt V) : Prop where
  checked : attempt.tables.Checked options
  staged : publish = .staged → attempt.writes = []

theorem runSteps_eq {dest : Destination V} {tables : SessionTables} {metadata : CommitMeta D}
    {seq : Int64} {now : V} {steps : List Step} (publish : FullLoadPublish) (db : Database V D)
    (h : publish = .directToTarget → ∀ step ∈ steps, step.isDirect = true) :
    runSteps dest publish tables metadata seq now steps db =
      Sqlcore.runSteps dest tables metadata seq now steps db := by
  induction steps generalizing db with
  | nil => rfl
  | cons step steps ih =>
    have hstep (db : Database V D) : runStep dest publish tables metadata seq now step db =
        Sqlcore.runStep dest tables metadata seq now step db := by
      unfold runStep
      split
      · exact absurd (h rfl _ List.mem_cons_self) Bool.false_ne_true
      · exact absurd (h rfl _ List.mem_cons_self) Bool.false_ne_true
      · rfl
    rw [runSteps, List.foldlM_cons, hstep, Sqlcore.runSteps_cons]
    refine congrArg (_ >>= ·) (funext fun db => ?_)
    exact ih db fun hdirect step hmem => h hdirect step (by simp [hmem])

section Commit

variable {dest : Destination V} {metadata : CommitMeta D}

/-- The facts a commit's plan is made from. -/
def planContext (options : DestinationOptions) (publish : FullLoadPublish) (load : Load V D)
    (unit : Open V D) (replayed : Bool) : CommitContext :=
  commitContext publish load unit replayed (probeNonempty options load.tables unit.work.stages)

omit [LinearOrder V] in
theorem feeds_eq (h : Remembers db load attempt) (hu : UnitMatches db attempt unit)
    (options : DestinationOptions) :
    stagedFeeds options load.tables unit.work.stages = attempt.feeds options := by
  rw [h.tables, hu.work]
  rfl

theorem replay_spec (metadata : CommitMeta D) (now : V) (h : Remembers db load attempt) (hs : attempt.Sound dest.options publish)
    (hu : UnitMatches db attempt unit) :
    ∃ load', replay dest publish db load unit metadata now =
        .ok (db.withStages (Ledger.keptAfter publish attempt db.stages), load') ∧
      Remembers (db.withStages (Ledger.keptAfter publish attempt db.stages)) load'
        (attempt.delivered dest.options (Ledger.keptAfter publish attempt db.stages)) := by
  let ctx := planContext dest.options publish load unit true
  have hplan : planCommit load.tables dest.options ctx =
      .ok ⟨truncations load.tables publish, replayMarks load.tables dest.options ctx⟩ := rfl
  have hstaged : ctx.stagedNonempty = probeNonempty dest.options load.tables unit.work.stages := rfl
  have hmarks (t : String) : t ∈ load.singleUnitDone ++ replayMarks load.tables dest.options ctx ↔
      t ∈ attempt.fed ++ attempt.feeds dest.options := by
    rw [← feeds_eq h hu]
    exact mem_replayMarks h.done hstaged t
  have hreplay : replay dest publish db load unit metadata now =
      (match replayDisposition publish with
      | .discardUnit => .ok (db, { load.rollback with
          singleUnitDone := load.singleUnitDone ++ replayMarks load.tables dest.options ctx })
      | .runScript => runSteps dest publish load.tables metadata metadata.commitSeq.toInt64 now
          (truncations load.tables publish) unit.work >>= fun work =>
            .ok (work, load.promote unit (replayMarks load.tables dest.options ctx))) := rfl
  rw [hreplay]
  cases publish with
  | directToTarget =>
    refine ⟨_, rfl, h.loadId, h.tables, hmarks, h.cleared, fun _ => ⟨rfl, rfl⟩, ?_⟩
    exact fun unit hunit => nomatch hunit
  | staged =>
    have hwork : unit.work = db.withStages attempt.staged := by
      rw [hu.work, hs.staged rfl]
      rfl
    have hrun : runSteps dest .staged load.tables metadata metadata.commitSeq.toInt64 now
        (truncations load.tables .staged) unit.work =
        .ok (db.withStages (attempt.truncated .staged)) := by
      rw [runSteps_eq .staged unit.work (by simp), truncations_eq, truncate_run, hwork, h.tables]
      rfl
    simp only [replayDisposition, hrun]
    refine ⟨_, rfl, h.loadId, h.tables, hmarks, fun t ht => ?_, fun _ => ⟨rfl, rfl⟩, ?_⟩
    · rcases List.mem_append.1 ht with ht | ht
      · exact h.cleared t ht
      · have hcleared := (hu.cleared t).2 (.inr ht)
        rw [hwork] at hcleared
        exact hcleared
    · exact fun unit hunit => nomatch hunit

omit [LinearOrder V] in
@[simp] theorem prepare_receipts (loadId table : String) (db : Database V D) :
    (prepare loadId table db).receipts = db.receipts := by
  unfold prepare
  split
  · rfl
  · rfl

omit [LinearOrder V] in
@[simp] theorem applyWrites_receipts (loadId : String) (writes : List (Write V))
    (db : Database V D) : (applyWrites loadId writes db).receipts = db.receipts := by
  induction writes generalizing db with
  | nil => rfl
  | cons write writes ih =>
    refine (ih (applyWrite loadId db write)).trans ?_
    unfold applyWrite
    split
    · exact prepare_receipts loadId write.table db
    · rfl

omit [LinearOrder V] in
theorem work_receipts (hu : UnitMatches db attempt unit) : unit.work.receipts = db.receipts := by
  rw [hu.work]
  exact applyWrites_receipts attempt.loadId attempt.writes db

/-- A feed that the session delivered before is refused. -/
theorem publishUnit_second (metadata : CommitMeta D) (now : V) (h : Remembers db load attempt)
    (hs : attempt.Sound dest.options publish)
    (hu : UnitMatches db attempt unit)
    (hsecond : ∃ table ∈ attempt.feeds dest.options, table ∈ attempt.fed) :
    ∃ e, publishUnit dest publish load unit metadata now = .error e := by
  have hchecked : load.tables.Checked dest.options := h.tables ▸ hs.checked
  rw [← feeds_eq h hu] at hsecond
  let ctx := planContext dest.options publish load unit false
  have hplan : ¬∃ script, planCommit load.tables dest.options ctx = .ok script :=
    (planCommit_ok_iff hchecked rfl).not.2 fun hnone => (second_feed_iff h.done rfl).1 hnone hsecond
  have hrun : publishUnit dest publish load unit metadata now =
      ((planCommit load.tables dest.options ctx).mapError CommitError.display >>= fun script =>
        runSteps dest publish load.tables metadata metadata.commitSeq.toInt64 now script.steps
          unit.work >>= fun work => .ok (work, load.promote unit script.marks)) := rfl
  rw [hrun]
  cases hresult : planCommit load.tables dest.options ctx with
  | error e => exact ⟨_, rfl⟩
  | ok script => exact absurd ⟨script, hresult⟩ hplan

/-- A fresh unit is applied to what is durable, and the stages are truncated. -/
theorem publishUnit_fresh (now : V) (h : Remembers db load attempt)
    (hs : attempt.Sound dest.options publish)
    (hu : UnitMatches db attempt unit) (hload : metadata.loadId = attempt.loadId)
    (hreceipt : unit.work.hasReceipt metadata.loadId metadata.commitSeq.toInt64 = false)
    (hfirst : ¬∃ table ∈ attempt.feeds dest.options, table ∈ attempt.fed) :
    ∃ load', publishUnit dest publish load unit metadata now =
        .ok ((Delivery.apply dest publish db
          ⟨attempt.tables, attempt.writes, attempt.staged, metadata, now⟩).withStages
            (attempt.truncated publish), load') ∧
      Remembers ((Delivery.apply dest publish db
          ⟨attempt.tables, attempt.writes, attempt.staged, metadata, now⟩).withStages
            (attempt.truncated publish)) load'
        (attempt.delivered dest.options (attempt.truncated publish)) := by
  let ctx := planContext dest.options publish load unit false
  have hchecked : load.tables.Checked dest.options := h.tables ▸ hs.checked
  obtain ⟨script, hplan⟩ : ∃ script, planCommit load.tables dest.options ctx = .ok script :=
    (planCommit_ok_iff hchecked rfl).2
      ((second_feed_iff h.done rfl).2 (feeds_eq h hu dest.options ▸ hfirst))
  have hprobed : Probed dest.options load.tables ctx unit.work.stages := probed_of_eq rfl
  have hbefore : ctx.loadCommittedBefore = unit.work.loadCommitted metadata.loadId := by
    refine hu.before.trans ?_
    rw [Database.loadCommitted, Database.loadCommitted, work_receipts hu, hload]
  have hmarks : script.marks = attempt.feeds dest.options :=
    (planCommit_marks rfl hplan).trans (fedTables_probe.trans (feeds_eq h hu dest.options))
  have hsteps : runSteps dest publish load.tables metadata metadata.commitSeq.toInt64 now script.steps
      unit.work = .ok ((Delivery.apply dest publish db
          ⟨attempt.tables, attempt.writes, attempt.staged, metadata, now⟩).withStages
            (attempt.truncated publish)) := by
    rw [runSteps_eq publish unit.work fun hdirect => planCommit_direct hdirect hplan,
      fresh_run hchecked.sorted hprobed hbefore hreceipt rfl hplan, h.tables, hu.work, ← hload]
    rfl
  have hrun : publishUnit dest publish load unit metadata now =
      ((planCommit load.tables dest.options ctx).mapError CommitError.display >>= fun script =>
        runSteps dest publish load.tables metadata metadata.commitSeq.toInt64 now script.steps
          unit.work >>= fun work => .ok (work, load.promote unit script.marks)) := rfl
  rw [hrun, hplan]
  simp only [Except.mapError, Fallible.bind_ok_left, hsteps]
  refine ⟨load.promote unit script.marks, rfl, h.loadId, h.tables, fun t => ?_, fun t ht => ?_,
    fun _ => ⟨rfl, rfl⟩, fun unit hunit => nomatch hunit⟩
  · rw [Load.promote, hmarks, List.mem_append, h.done, ← List.mem_append]
    rfl
  · have hcleared : (attempt.loadId, t) ∈ unit.work.cleared := by
      rw [hu.cleared]
      exact (List.mem_append.1 ht).imp_left (h.cleared t)
    rw [hu.work] at hcleared
    simp only [Delivery.apply, Sqlcore.publishUnit, Database.withStages, hload]
    exact hcleared

end Commit

/-! ## The destination follows its ledger -/

section Sound

variable {options : DestinationOptions}

omit [LinearOrder V] in
theorem sound_fresh (options : DestinationOptions) (publish : FullLoadPublish) (loadId : String) :
    (Attempt.fresh loadId : Attempt V).Sound options publish where
  checked := ⟨List.Pairwise.nil, fun _ he => absurd he List.not_mem_nil⟩
  staged _ := rfl

omit [LinearOrder V] in
theorem sound_rolledBack (hs : attempt.Sound options publish) (kept : String → List (Row V)) :
    (attempt.rolledBack kept).Sound options publish := ⟨hs.checked, fun _ => rfl⟩

omit [LinearOrder V] in
theorem sound_delivered (hs : attempt.Sound options publish) (kept : String → List (Row V)) :
    (attempt.delivered options kept).Sound options publish := ⟨hs.checked, fun _ => rfl⟩

omit [LinearOrder V] in
theorem sound_ensured {schema : TableSchema} {mode : WriteMode} (hs : attempt.Sound options publish)
    (hvalid : validateMode options schema mode = .ok ()) :
    ({ attempt with tables := attempt.tables.insert schema.table (schema, mode) } :
      Attempt V).Sound options publish := ⟨checked_insert hs.checked hvalid, hs.staged⟩

omit [LinearOrder V] in
theorem sound_written (hs : attempt.Sound options publish) (table : String) (mode : WriteMode)
    (rows : List (Row V)) : (attempt.written publish table mode rows).Sound options publish := by
  unfold Attempt.written
  split
  · exact ⟨hs.checked, hs.staged⟩
  · next hstage =>
    refine ⟨hs.checked, ?_⟩
    rintro rfl
    simp [usesStage] at hstage

end Sound

/-- A session and what it is known to have done, or neither. -/
inductive Linked (options : DestinationOptions) (publish : FullLoadPublish) (db : Database V D) :
    Option (Load V D) → Option (Attempt V) → Prop where
  | none : Linked options publish db none none
  | some {load : Load V D} {attempt : Attempt V} (remembers : Remembers db load attempt)
      (sound : attempt.Sound options publish) : Linked options publish db (some load) (some attempt)

/-- The targets and the bookkeeping are those of the units. -/
structure Matches (dest : Destination V) (publish : FullLoadPublish) (init : Database V D)
    (w : World V D) (l : Ledger V D) : Prop where
  db : w.db = (contents dest publish init l.units).withStages l.kept
  session : Linked dest.options publish w.db w.session l.attempt

variable {dest : Destination V} {init : Database V D} {w : World V D} {l : Ledger V D}

omit [LinearOrder V] in
theorem applyWrites_withStages (loadId : String) (writes : List (Write V)) (db : Database V D)
    (stages : String → List (Row V)) :
    applyWrites loadId writes (db.withStages stages) =
      (applyWrites loadId writes db).withStages stages := by
  have hone (write : Write V) (db : Database V D) :
      applyWrite loadId (db.withStages stages) write = (applyWrite loadId db write).withStages stages := by
    unfold applyWrite
    split
    · rw [prepare_withStages]
      rfl
    · rfl
  induction writes generalizing db with
  | nil => rfl
  | cons write writes ih =>
    rw [applyWrites, List.foldl_cons, hone]
    exact ih (applyWrite loadId db write)

theorem apply_withStages (db : Database V D) (unit : Delivery V D)
    (stages : String → List (Row V)) :
    unit.apply dest publish (db.withStages stages) = (unit.apply dest publish db).withStages stages := by
  rw [Delivery.apply, applyWrites_withStages]
  rfl

theorem contents_append (units : List (Delivery V D)) (unit : Delivery V D) :
    contents dest publish init (units ++ [unit]) =
      unit.apply dest publish (contents dest publish init units) := by
  rw [contents, List.foldl_append]
  rfl

theorem contents_receipts (units : List (Delivery V D)) :
    (contents dest publish init units).receipts = init.receipts ++ units.map Delivery.key := by
  induction units generalizing init with
  | nil => exact (List.append_nil _).symm
  | cons unit units ih =>
    have hone : (unit.apply dest publish init).receipts = init.receipts ++ [unit.key] := by
      refine congrArg (· ++ [unit.key]) ?_
      exact applyWrites_receipts unit.metadata.loadId unit.writes init
    rw [contents, List.foldl_cons]
    refine ih.trans ?_
    rw [hone, List.map_cons, List.append_assoc, List.singleton_append]

theorem matches_rollback (h : Matches dest publish init w l) {load : Load V D} {attempt : Attempt V}
    (hr : Remembers w.db load attempt) (hs : attempt.Sound dest.options publish) :
    Matches dest publish init ⟨w.db, some load.rollback⟩ (l.rollback attempt) := by
  have hkept : w.db.stages = l.kept := by
    rw [h.db]
    rfl
  refine ⟨h.db, .some ?_ (sound_rolledBack hs l.kept)⟩
  rw [← hkept]
  exact rollback_remembers hr

theorem matches_connect {db : Database V D} {units : List (Delivery V D)}
    {kept : String → List (Row V)} (hdb : db = (contents dest publish init units).withStages kept)
    (loadId : String) :
    Matches dest publish init ⟨db.clearStages, some (Load.connect loadId)⟩
      ⟨units, fun _ => [], some (Attempt.fresh loadId)⟩ := by
  refine ⟨?_, .some ⟨rfl, rfl, fun _ => Iff.rfl, fun _ ht => absurd ht List.not_mem_nil,
    fun _ => ⟨rfl, rfl⟩, fun unit hunit => nomatch hunit⟩ (sound_fresh dest.options publish loadId)⟩
  rw [hdb]
  rfl

theorem matches_lose (h : Matches dest publish init w l) :
    Matches dest publish init w.lose { l with attempt := none } := ⟨h.db, .none⟩

/-- A commit delivers the unit that the ledger delivers. -/
theorem matches_commit {load : Load V D} {attempt : Attempt V} (metadata : CommitMeta D) (now : V)
    (h : Matches dest publish init w l) (hr : Remembers w.db load attempt)
    (hs : attempt.Sound dest.options publish) :
    Matches dest publish init (w.runCommit dest publish load metadata now)
      (l.commit dest.options publish init.receipts attempt metadata now) := by
  have hkept : w.db.stages = l.kept := by
    rw [h.db]
    rfl
  have hu := beginIfClosed_matches hr
  have hreceipts : (beginIfClosed w.db load).work.receipts = init.receipts ++ l.keys := by
    rw [work_receipts hu, h.db]
    exact contents_receipts l.units
  unfold World.runCommit PgLoad.commit Ledger.commit
  rw [hr.loadId]
  by_cases hload : metadata.loadId ≠ attempt.loadId
  · rw [if_pos hload, if_pos hload]
    exact matches_rollback h hr hs
  · rw [if_neg hload, if_neg hload]
    simp only [Database.hasReceipt, hreceipts, decide_eq_true_eq]
    by_cases hreceipt : (metadata.loadId, metadata.commitSeq.toInt64) ∈ init.receipts ++ l.keys
    · obtain ⟨load', hrun, hr'⟩ := replay_spec metadata now hr hs hu
      simp only [if_pos hreceipt, hrun]
      rw [hkept] at hr' ⊢
      refine ⟨?_, .some hr' (sound_delivered hs _)⟩
      simp only [h.db]
      rfl
    · simp only [if_neg hreceipt]
      by_cases hsecond : ∃ table ∈ attempt.feeds dest.options, table ∈ attempt.fed
      · obtain ⟨e, hrun⟩ := publishUnit_second metadata now hr hs hu hsecond
        simp only [if_pos hsecond, hrun]
        exact matches_rollback h hr hs
      · have hfresh : (beginIfClosed w.db load).work.hasReceipt metadata.loadId
            metadata.commitSeq.toInt64 = false := decide_eq_false (hreceipts ▸ hreceipt)
        obtain ⟨load', hrun, hr'⟩ :=
          publishUnit_fresh now hr hs hu (not_not.1 hload) hfresh hsecond
        simp only [if_neg hsecond, hrun]
        refine ⟨?_, .some hr' (sound_delivered hs _)⟩
        simp only [h.db, contents_append, apply_withStages]
        rfl

theorem matches_step (event : Event V D) (h : Matches dest publish init w l) :
    Matches dest publish init (w.step dest publish event)
      (l.step dest.options publish init.receipts event) := by
  obtain ⟨hdb, hsession⟩ := h
  obtain ⟨db, session⟩ := w
  obtain ⟨units, kept, attempt⟩ := l
  have hkept : db.stages = kept := congrArg Database.stages hdb
  cases hsession with
  | none =>
    cases event with
    | connect loadId => exact matches_connect hdb loadId
    | crash => exact ⟨hdb, .none⟩
    | ensure schema mode => exact ⟨hdb, .none⟩
    | write table rows => exact ⟨hdb, .none⟩
    | writeFails table => exact ⟨hdb, .none⟩
    | commit metadata now => exact ⟨hdb, .none⟩
    | commitUnacknowledged metadata now => exact ⟨hdb, .none⟩
    | fail => exact ⟨hdb, .none⟩
  | @some load attempt hr hs =>
    have h : Matches dest publish init ⟨db, some load⟩ ⟨units, kept, some attempt⟩ :=
      ⟨hdb, .some hr hs⟩
    cases event with
    | connect loadId => exact matches_connect hdb loadId
    | crash => exact ⟨hdb, .none⟩
    | ensure schema mode =>
      simp only [World.step, Ledger.step]
      cases hvalid : validateMode dest.options schema mode with
      | error e => exact matches_rollback h hr hs
      | ok checked =>
        refine ⟨hdb, .some ⟨hr.loadId, ?_, hr.done, hr.cleared, hr.closed, ?_⟩ (sound_ensured hs hvalid)⟩
        · rw [hr.tables]
        · exact fun unit hunit => ⟨(hr.opened unit hunit).work, (hr.opened unit hunit).before,
            (hr.opened unit hunit).cleared⟩
    | write table rows =>
      simp only [World.step, Ledger.step, World.runWrite, Ledger.write, hr.tables]
      cases hlook : attempt.tables.lookup table with
      | none => exact h
      | some entry =>
        exact ⟨hdb, .some (write_remembers hr hlook) (sound_written hs table entry.2 rows)⟩
    | writeFails table =>
      simp only [World.step, Ledger.step, World.runWrite, Ledger.writeFails, hr.tables]
      cases hlook : attempt.tables.lookup table with
      | none => exact h
      | some entry =>
        refine ⟨hdb, .some ?_ (sound_rolledBack hs kept)⟩
        rw [← hkept]
        exact writeFails_remembers hr hlook
    | commit metadata now => exact matches_commit metadata now h hr hs
    | commitUnacknowledged metadata now => exact matches_lose (matches_commit metadata now h hr hs)
    | fail => exact matches_rollback h hr hs

theorem Matches.remembers (h : Matches dest publish init w l) {load : Load V D}
    (hload : w.session = some load) :
    ∃ attempt, l.attempt = some attempt ∧ Remembers w.db load attempt ∧
      attempt.Sound dest.options publish := by
  have hlinked := h.session
  rw [hload] at hlinked
  generalize l.attempt = known at hlinked
  cases hlinked with
  | some hr hs => exact ⟨_, rfl, hr, hs⟩

theorem matches_run (dest : Destination V) (publish : FullLoadPublish) (init : Database V D)
    (events : List (Event V D)) :
    Matches dest publish init (Transition.run (World.step dest publish) ⟨init.clearStages, none⟩ events)
      (Transition.run (Ledger.step dest.options publish init.receipts) Ledger.empty events) :=
  Transition.run_simulation (Matches dest publish init) (fun _ _ event h => matches_step event h)
    ⟨rfl, .none⟩ events

/-! ## Units stay -/

section Units

variable {options : DestinationOptions} {earlier : List (String × Int64)}

omit [LinearOrder V] in
theorem commit_units (l : Ledger V D) (attempt : Attempt V) (metadata : CommitMeta D) (now : V) :
    l.units <+: (l.commit options publish earlier attempt metadata now).units := by
  unfold Ledger.commit
  split
  · exact List.prefix_rfl
  · split
    · exact List.prefix_rfl
    · split
      · exact List.prefix_rfl
      · exact List.prefix_append _ _

omit [LinearOrder V] in
theorem step_units (l : Ledger V D) (event : Event V D) :
    l.units <+: (l.step options publish earlier event).units := by
  unfold Ledger.step
  split
  · exact List.prefix_rfl
  · exact List.prefix_rfl
  · exact List.prefix_rfl
  · split
    · exact List.prefix_rfl
    · exact List.prefix_rfl
  · unfold Ledger.write
    split
    · exact List.prefix_rfl
    · exact List.prefix_rfl
  · unfold Ledger.writeFails
    split
    · exact List.prefix_rfl
    · exact List.prefix_rfl
  · exact commit_units l _ _ _
  · exact commit_units l _ _ _
  · exact List.prefix_rfl

omit [LinearOrder V] in
theorem run_units (l : Ledger V D) (events : List (Event V D)) :
    l.units <+: (Transition.run (Ledger.step options publish earlier) l events).units := by
  induction events generalizing l with
  | nil => exact List.prefix_rfl
  | cons event events ih => exact (step_units l event).trans (ih _)

end Units

/-! ## No unit twice -/

/-- The units have keys of their own. -/
structure Ledger.Distinct (earlier : List (String × Int64)) (l : Ledger V D) : Prop where
  nodup : l.keys.Nodup
  fresh : ∀ key ∈ l.keys, key ∉ earlier

section Distinct

variable {options : DestinationOptions} {earlier : List (String × Int64)}

omit [LinearOrder V] in
theorem distinct_empty (earlier : List (String × Int64)) :
    (Ledger.empty : Ledger V D).Distinct earlier :=
  ⟨List.nodup_nil, fun _ h => absurd h List.not_mem_nil⟩

omit [LinearOrder V] in
theorem distinct_commit (h : l.Distinct earlier) (attempt : Attempt V) (metadata : CommitMeta D)
    (now : V) : (l.commit options publish earlier attempt metadata now).Distinct earlier := by
  unfold Ledger.commit
  split
  · exact ⟨h.nodup, h.fresh⟩
  · split
    · exact ⟨h.nodup, h.fresh⟩
    · next hnew =>
      rw [List.mem_append, not_or] at hnew
      split
      · exact ⟨h.nodup, h.fresh⟩
      · refine ⟨?_, fun key hkey => ?_⟩
        · rw [Ledger.keys, List.map_append]
          refine List.nodup_append.2 ⟨h.nodup, List.nodup_singleton _, fun a ha b hb hab => ?_⟩
          rw [List.map_singleton, List.mem_singleton] at hb
          subst hab hb
          exact hnew.2 ha
        · rw [Ledger.keys, List.map_append, List.map_singleton, List.mem_append,
            List.mem_singleton] at hkey
          rcases hkey with hkey | rfl
          · exact h.fresh key hkey
          · exact hnew.1

omit [LinearOrder V] in
theorem distinct_step (l : Ledger V D) (event : Event V D) (h : l.Distinct earlier) :
    (l.step options publish earlier event).Distinct earlier := by
  have hsame (kept : String → List (Row V)) (attempt : Option (Attempt V)) :
      (⟨l.units, kept, attempt⟩ : Ledger V D).Distinct earlier := ⟨h.nodup, h.fresh⟩
  have hcommitted (attempt : Attempt V) (metadata : CommitMeta D) (now : V) :
      ({ l.commit options publish earlier attempt metadata now with attempt := none } :
        Ledger V D).Distinct earlier :=
    have hcommit := distinct_commit h attempt metadata now
    ⟨hcommit.nodup, hcommit.fresh⟩
  unfold Ledger.step
  split
  · exact hsame _ _
  · exact hsame _ _
  · exact h
  · split
    · exact hsame _ _
    · exact hsame _ _
  · unfold Ledger.write
    split
    · exact hsame _ _
    · exact h
  · unfold Ledger.writeFails
    split
    · exact hsame _ _
    · exact h
  · exact distinct_commit h _ _ _
  · exact hcommitted _ _ _
  · exact hsame _ _

end Distinct

end PgLoad
