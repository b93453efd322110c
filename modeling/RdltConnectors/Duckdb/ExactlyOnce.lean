import Mathlib
import RdltConnectors.Duckdb.Load
import RdltConnectors.Library.Transition

/-!
# A unit is published once

What a sequence of calls should come to is said without a database: the rows an
attempt has written since its last commit, and the units that were committed, each with
the rows of the one attempt that delivered it. The tables of the destination are the
units applied one after another, whatever sessions, redeliveries and crashes lie
between them.
-/
namespace Duckdb

open Sqlcore

variable {V D : Type}

/-- A unit as an attempt delivered it. -/
structure Delivery (V D : Type) where
  tables : SessionTables
  rows : String → List (Row V)
  metadata : CommitMeta D
  seq : Int64
  now : V

def Delivery.key (unit : Delivery V D) : String × Int64 := (unit.metadata.loadId, unit.seq)

/-- What a session is known to have done. -/
structure Attempt (V : Type) where
  tables : SessionTables
  /-- written since the session's last commit -/
  rows : String → List (Row V)
  /-- full-feed tables whose feed it has delivered -/
  fed : List String

def Attempt.fresh : Attempt V := ⟨[], fun _ => [], []⟩

/-- The full feeds among the rows. -/
def Attempt.feeds (options : DestinationOptions) (attempt : Attempt V) : List String :=
  stagedFeeds options attempt.tables attempt.rows

/-- The rows have been taken, or were delivered before. -/
def Attempt.committed (options : DestinationOptions) (attempt : Attempt V) : Attempt V :=
  { attempt with rows := fun _ => [], fed := attempt.fed ++ attempt.feeds options }

/-- The committed units, in the order of their first commit, and the current attempt. -/
structure Ledger (V D : Type) where
  units : List (Delivery V D)
  attempt : Option (Attempt V)

namespace Ledger

variable (options : DestinationOptions) (earlier : List (String × Int64))

def keys (l : Ledger V D) : List (String × Int64) := l.units.map Delivery.key

/-- The rows that wait for their commit. -/
def pending (l : Ledger V D) : String → List (Row V) :=
  match l.attempt with
  | some attempt => attempt.rows
  | none => fun _ => []

/-- The unit is delivered, unless it was before; a second feed ends the session. -/
def commit (l : Ledger V D) (attempt : Attempt V) (metadata : CommitMeta D) (now : V) :
    Ledger V D :=
  match ledgerSeq metadata.commitSeq with
  | .error _ => { l with attempt := none }
  | .ok seq =>
    if (metadata.loadId, seq) ∈ earlier ++ l.keys then
      { l with attempt := some (attempt.committed options) }
    else if ∃ table ∈ attempt.feeds options, table ∈ attempt.fed then { l with attempt := none }
    else ⟨l.units ++ [⟨attempt.tables, attempt.rows, metadata, seq, now⟩],
      some (attempt.committed options)⟩

def step (l : Ledger V D) (event : Event V D) : Ledger V D :=
  match event, l.attempt with
  | .open, _ => { l with attempt := some Attempt.fresh }
  | .crash, _ => { l with attempt := none }
  | _, none => l
  | .ensure schema mode, some attempt =>
    match ensureTable options attempt.tables schema mode with
    | .ok tables => { l with attempt := some { attempt with tables } }
    | .error _ => { l with attempt := none }
  | .write table batch, some attempt =>
    match acceptBatch attempt.tables table batch.fields with
    | .ok () =>
      let rows := fun t => if t = table then attempt.rows table ++ batch.rows else attempt.rows t
      { l with attempt := some { attempt with rows } }
    | .error _ => { l with attempt := none }
  | .commit metadata now, some attempt => l.commit options earlier attempt metadata now
  | .commitUnacknowledged metadata now, some attempt =>
    { l.commit options earlier attempt metadata now with attempt := none }

end Ledger

variable [LinearOrder V]

def Delivery.publish (dest : Destination V) (db : Database V D) (unit : Delivery V D) :
    Database V D :=
  publishUnit dest .staged unit.tables unit.rows unit.metadata unit.seq unit.now db

/-- The database after each unit once, in order. -/
def contents (dest : Destination V) (init : Database V D) (units : List (Delivery V D)) :
    Database V D := units.foldl (Delivery.publish dest) init

/-! ## The transaction of a commit -/

/-- The session remembers the attempt. -/
structure Remembers (session : Session) (attempt : Attempt V) : Prop where
  tables : session.tables = attempt.tables
  done : ∀ t, t ∈ session.singleUnitDone ↔ t ∈ attempt.fed

/-- Every table with rows was ensured, and passed its checks. -/
structure Attempt.Sound (options : DestinationOptions) (attempt : Attempt V) : Prop where
  checked : attempt.tables.Checked options
  ensured : ∀ t, attempt.tables.lookup t = none → attempt.rows t = []

section Commit

variable {dest : Destination V} {session : Session} {attempt : Attempt V} {metadata : CommitMeta D}
  {now : V} {db : Database V D} {seq : Int64}

omit [LinearOrder V] in
theorem feeds_eq (hr : Remembers session attempt) (hdb : db.stages = attempt.rows)
    (options : DestinationOptions) :
    stagedFeeds options session.tables db.stages = attempt.feeds options := by
  rw [hr.tables, hdb]
  rfl

omit [LinearOrder V] in
/-- Every ensured table has a stage, and no other holds rows. -/
theorem truncated_eq (hs : attempt.Sound dest.options) (htables : session.tables = attempt.tables)
    (hdb : db.stages = attempt.rows) :
    truncated (stagedNames session.tables .staged) db = db.clearStages := by
  refine congrArg db.withStages (funext fun t => ?_)
  split
  · rfl
  · next hnot =>
    rw [hdb]
    refine hs.ensured t (lookup_eq_none_of_not_mem fun hmem => hnot ?_)
    obtain ⟨e, he, rfl⟩ := List.mem_map.1 hmem
    refine List.mem_map_of_mem (List.mem_filter.2 ⟨htables ▸ he, ?_⟩)
    rw [usesStage, decide_eq_true rfl, Bool.or_true]

/-- The facts a commit's plan is made from. -/
def commitContext (options : DestinationOptions) (session : Session) (metadata : CommitMeta D)
    (seq : Int64) (db : Database V D) : CommitContext :=
  { replayed := db.hasReceipt metadata.loadId seq
    loadCommittedBefore := db.loadCommitted metadata.loadId
    singleUnitDone := session.singleUnitDone
    stagedNonempty := probeNonempty options session.tables db.stages
    fullLoadPublish := .staged
    clearedTargets := [] }

theorem commitInTx_eq (hseq : ledgerSeq metadata.commitSeq = .ok seq) :
    commitInTx dest session metadata now db =
      ((planCommit session.tables dest.options (commitContext dest.options session metadata seq
        db)).mapError CommitError.display >>= fun script =>
      runSteps dest session.tables metadata seq now script.steps db >>= fun db =>
        .ok (db, script.marks)) := by
  rw [commitInTx, hseq]
  rfl

/-- A redelivery leaves empty stages and its marks. -/
theorem commitInTx_replay (now : V) (hr : Remembers session attempt) (hs : attempt.Sound dest.options)
    (hdb : db.stages = attempt.rows) (hseq : ledgerSeq metadata.commitSeq = .ok seq)
    (hreceipt : db.hasReceipt metadata.loadId seq = true) :
    ∃ marks, commitInTx dest session metadata now db = .ok (db.clearStages, marks) ∧
      ∀ t, t ∈ session.singleUnitDone ++ marks ↔ t ∈ attempt.fed ++ attempt.feeds dest.options := by
  let ctx := commitContext dest.options session metadata seq db
  have hplan : planCommit session.tables dest.options ctx =
      .ok ⟨truncations session.tables .staged, replayMarks session.tables dest.options ctx⟩ :=
    if_pos hreceipt
  have hrun : runSteps dest session.tables metadata seq now
      (truncations session.tables .staged) db = .ok db.clearStages :=
    (replay_run hreceipt hplan).trans (congrArg Except.ok (truncated_eq hs hr.tables hdb))
  refine ⟨replayMarks session.tables dest.options ctx, ?_, fun t => ?_⟩
  · rw [commitInTx_eq hseq, hplan]
    change (runSteps dest session.tables metadata seq now
      (truncations session.tables .staged) db >>= _) = _
    rw [hrun]
    rfl
  · have hstaged : ctx.stagedNonempty = probeNonempty dest.options session.tables db.stages := rfl
    rw [← feeds_eq hr hdb]
    exact mem_replayMarks hr.done hstaged t

/-- A second feed of a table is refused, and the transaction rolls back. -/
theorem commitInTx_second (now : V) (hr : Remembers session attempt) (hs : attempt.Sound dest.options)
    (hdb : db.stages = attempt.rows) (hseq : ledgerSeq metadata.commitSeq = .ok seq)
    (hreceipt : db.hasReceipt metadata.loadId seq = false)
    (hsecond : ∃ table ∈ attempt.feeds dest.options, table ∈ attempt.fed) :
    ∃ e, commitInTx dest session metadata now db = .error e := by
  have hchecked : session.tables.Checked dest.options := hr.tables ▸ hs.checked
  rw [← feeds_eq hr hdb] at hsecond
  let ctx := commitContext dest.options session metadata seq db
  have hplan : ¬∃ script, planCommit session.tables dest.options ctx = .ok script :=
    (planCommit_ok_iff hchecked hreceipt).not.2 fun h => (second_feed_iff hr.done rfl).1 h hsecond
  rw [commitInTx_eq hseq]
  cases hresult : planCommit session.tables dest.options ctx with
  | error e => exact ⟨_, rfl⟩
  | ok script => exact absurd ⟨script, hresult⟩ hplan

/-- A fresh unit is applied, and its stages are emptied. -/
theorem commitInTx_fresh (hr : Remembers session attempt) (hs : attempt.Sound dest.options)
    (hdb : db.stages = attempt.rows) (hseq : ledgerSeq metadata.commitSeq = .ok seq)
    (hreceipt : db.hasReceipt metadata.loadId seq = false)
    (hfirst : ¬∃ table ∈ attempt.feeds dest.options, table ∈ attempt.fed) :
    commitInTx dest session metadata now db =
      .ok ((publishUnit dest .staged attempt.tables attempt.rows metadata seq now db).clearStages,
        attempt.feeds dest.options) := by
  let ctx := commitContext dest.options session metadata seq db
  have hchecked : session.tables.Checked dest.options := hr.tables ▸ hs.checked
  obtain ⟨script, hplan⟩ : ∃ script, planCommit session.tables dest.options ctx = .ok script :=
    (planCommit_ok_iff hchecked hreceipt).2
      ((second_feed_iff hr.done rfl).2 (feeds_eq hr hdb dest.options ▸ hfirst))
  have hprobed : Probed dest.options session.tables ctx db.stages := probed_of_eq rfl
  let unit := publishUnit dest .staged session.tables db.stages metadata seq now db
  have hrun : runSteps dest session.tables metadata seq now script.steps db = .ok unit.clearStages :=
    (fresh_run hchecked.sorted hprobed rfl hreceipt hreceipt hplan).trans
      (congrArg Except.ok (truncated_eq hs hr.tables hdb))
  have hmarks : script.marks = attempt.feeds dest.options :=
    (planCommit_marks hreceipt hplan).trans (fedTables_probe.trans (feeds_eq hr hdb dest.options))
  rw [commitInTx_eq hseq]
  change ((planCommit session.tables dest.options ctx).mapError _ >>= _) = _
  rw [hplan]
  change (runSteps dest session.tables metadata seq now script.steps db >>= _) = _
  rw [hrun, hmarks, ← hr.tables, ← hdb]
  rfl

end Commit

/-! ## The destination follows its ledger -/

/-- A session and what it is known to have done, or neither. -/
inductive Linked (options : DestinationOptions) : Option Session → Option (Attempt V) → Prop where
  | none : Linked options none none
  | some {session : Session} {attempt : Attempt V} (remembers : Remembers session attempt)
      (sound : attempt.Sound options) : Linked options (some session) (some attempt)

/-- The targets and the bookkeeping are those of the units, and the stages hold what
waits for its commit. -/
structure Matches (dest : Destination V) (init : Database V D) (w : World V D)
    (l : Ledger V D) : Prop where
  db : w.db = (contents dest init l.units).withStages l.pending
  session : Linked dest.options w.session l.attempt

variable {dest : Destination V} {init : Database V D} {w : World V D} {l : Ledger V D}

omit [LinearOrder V] in
theorem sound_fresh (options : DestinationOptions) : (Attempt.fresh : Attempt V).Sound options where
  checked := ⟨List.Pairwise.nil, fun _ he => absurd he List.not_mem_nil⟩
  ensured _ _ := rfl

omit [LinearOrder V] in
theorem sound_committed {options : DestinationOptions} {attempt : Attempt V}
    (h : attempt.Sound options) : (attempt.committed options).Sound options :=
  ⟨h.checked, fun _ _ => rfl⟩

omit [LinearOrder V] in
theorem ensureTable_ok {options : DestinationOptions} {tables tables' : SessionTables}
    {schema : TableSchema} {mode : WriteMode}
    (h : ensureTable options tables schema mode = .ok tables') :
    validateMode options schema mode = .ok () ∧
      tables' = tables.insert schema.table (schema, mode) := by
  obtain ⟨⟨⟩, -, h⟩ := Fallible.bind_ok.1 h
  obtain ⟨⟨⟩, hvalid, h⟩ := Fallible.bind_ok.1 h
  rw [Fallible.pure_ok] at h
  exact ⟨Fallible.mapError_ok.1 hvalid, h.symm⟩

omit [LinearOrder V] in
theorem sound_ensured {options : DestinationOptions} {attempt : Attempt V} {schema : TableSchema}
    {mode : WriteMode} {tables : SessionTables} (hs : attempt.Sound options)
    (h : ensureTable options attempt.tables schema mode = .ok tables) :
    ({ attempt with tables } : Attempt V).Sound options := by
  obtain ⟨hvalid, rfl⟩ := ensureTable_ok h
  refine ⟨checked_insert hs.checked hvalid, fun t ht => ?_⟩
  rw [lookup_insert] at ht
  split at ht
  · cases ht
  · exact hs.ensured t ht

omit [LinearOrder V] in
theorem sound_written {options : DestinationOptions} {attempt : Attempt V} {table : String}
    {fields : List String} (hs : attempt.Sound options) (batch : List (Row V))
    (h : acceptBatch attempt.tables table fields = .ok ()) :
    ({ attempt with
      rows := fun t => if t = table then attempt.rows table ++ batch else attempt.rows t } :
      Attempt V).Sound options := by
  refine ⟨hs.checked, fun t ht => ?_⟩
  by_cases htable : t = table
  · rw [acceptBatch, ← htable, ht] at h
    cases h
  · exact (if_neg htable).trans (hs.ensured t ht)

theorem cleared_eq (h : Matches dest init w l) :
    w.db.clearStages = (contents dest init l.units).clearStages := by
  rw [h.db]
  rfl

theorem matches_lose (h : Matches dest init w l) : Matches dest init w.lose { l with attempt := none } where
  db := (cleared_eq h :)
  session := .none

theorem matches_open (h : Matches dest init w l) :
    Matches dest init ⟨w.db.clearStages, some ⟨[], []⟩⟩ { l with attempt := some Attempt.fresh } where
  db := (cleared_eq h :)
  session := .some ⟨rfl, fun _ => Iff.rfl⟩ (sound_fresh dest.options)

/-- A receipt is in the ledger when its unit was committed, before the run or in it. -/
theorem contents_receipts (units : List (Delivery V D)) :
    (contents dest init units).receipts = init.receipts ++ units.map Delivery.key := by
  induction units generalizing init with
  | nil => exact (List.append_nil _).symm
  | cons unit units ih =>
    rw [contents, List.foldl_cons]
    refine ih.trans ?_
    rw [List.map_cons, ← List.singleton_append, ← List.append_assoc]
    rfl

theorem contents_append (units : List (Delivery V D)) (unit : Delivery V D) :
    contents dest init (units ++ [unit]) = unit.publish dest (contents dest init units) := by
  rw [contents, List.foldl_append]
  rfl

/-- A commit delivers the unit that the ledger delivers. -/
theorem matches_commit {session : Session} {attempt : Attempt V} {metadata : CommitMeta D} {now : V}
    (h : Matches dest init w l) (hr : Remembers session attempt) (hs : attempt.Sound dest.options)
    (hattempt : l.attempt = some attempt) :
    Matches dest init (w.runCommit dest session metadata now)
      (l.commit dest.options init.receipts attempt metadata now) := by
  have hstages : w.db.stages = attempt.rows := by
    rw [h.db, Ledger.pending, hattempt]
    rfl
  have hreceipts : w.db.receipts = init.receipts ++ l.keys := by
    rw [h.db]
    exact contents_receipts l.units
  unfold World.runCommit Ledger.commit
  cases hseq : ledgerSeq metadata.commitSeq with
  | error e =>
    have hrun : commitInTx dest session metadata now w.db = .error e := by
      rw [commitInTx, hseq]
      rfl
    rw [hrun]
    exact matches_lose h
  | ok seq =>
    simp only []
    by_cases hreceipt : (metadata.loadId, seq) ∈ init.receipts ++ l.keys
    · have hhas : w.db.hasReceipt metadata.loadId seq = true := decide_eq_true (hreceipts ▸ hreceipt)
      obtain ⟨marks, hrun, hmarks⟩ := commitInTx_replay now hr hs hstages hseq hhas
      rw [if_pos hreceipt, hrun]
      exact ⟨(cleared_eq h :), .some ⟨hr.tables, hmarks⟩ (sound_committed hs)⟩
    · have hhas : w.db.hasReceipt metadata.loadId seq = false := decide_eq_false (hreceipts ▸ hreceipt)
      rw [if_neg hreceipt]
      by_cases hsecond : ∃ table ∈ attempt.feeds dest.options, table ∈ attempt.fed
      · obtain ⟨e, hrun⟩ := commitInTx_second now hr hs hstages hseq hhas hsecond
        rw [if_pos hsecond, hrun]
        exact matches_lose h
      · rw [if_neg hsecond, commitInTx_fresh hr hs hstages hseq hhas hsecond]
        refine ⟨?_, .some ⟨hr.tables, fun t => ?_⟩ (sound_committed hs)⟩
        · simp only [contents_append, h.db]
          rfl
        · rw [List.mem_append, hr.done, ← List.mem_append]
          rfl

theorem matches_step (h : Matches dest init w l) (event : Event V D) :
    Matches dest init (w.step dest event) (l.step dest.options init.receipts event) := by
  obtain ⟨hdb, hsession⟩ := h
  obtain ⟨db, session⟩ := w
  obtain ⟨units, attempt⟩ := l
  cases hsession with
  | none =>
    cases event with
    | «open» => exact matches_open ⟨hdb, .none⟩
    | crash => exact matches_lose ⟨hdb, .none⟩
    | ensure schema mode => exact ⟨hdb, .none⟩
    | write table batch => exact ⟨hdb, .none⟩
    | commit metadata now => exact ⟨hdb, .none⟩
    | commitUnacknowledged metadata now => exact ⟨hdb, .none⟩
  | @some session attempt hr hs =>
    have h : Matches dest init ⟨db, some session⟩ ⟨units, some attempt⟩ := ⟨hdb, .some hr hs⟩
    cases event with
    | «open» => exact matches_open h
    | crash => exact matches_lose h
    | ensure schema mode =>
      simp only [World.step, Ledger.step, hr.tables]
      cases hensured : ensureTable dest.options attempt.tables schema mode with
      | error e => exact matches_lose h
      | ok tables => exact ⟨hdb, .some ⟨rfl, hr.done⟩ (sound_ensured hs hensured)⟩
    | write table batch =>
      simp only [World.step, Ledger.step, Duckdb.write, hr.tables]
      cases hbatch : acceptBatch attempt.tables table batch.fields with
      | error e => exact matches_lose h
      | ok accepted =>
        have hwritten : db.setStage table (db.stages table ++ batch.rows) =
            (contents dest init units).withStages fun t =>
              if t = table then attempt.rows table ++ batch.rows else attempt.rows t := by
          rw [show db = (contents dest init units).withStages attempt.rows from hdb]
          rfl
        exact ⟨hwritten, .some ⟨hr.tables, hr.done⟩ (sound_written hs batch.rows hbatch)⟩
    | commit metadata now => exact matches_commit h hr hs rfl
    | commitUnacknowledged metadata now => exact matches_lose (matches_commit h hr hs rfl)

/-! ## No unit twice -/

/-- The units have keys of their own, as the ledger's column keeps them. -/
structure Ledger.Distinct (earlier : List (String × Int64)) (l : Ledger V D) : Prop where
  nodup : l.keys.Nodup
  fresh : ∀ key ∈ l.keys, key ∉ earlier
  seq : ∀ unit ∈ l.units, ledgerSeq unit.metadata.commitSeq = .ok unit.seq

omit [LinearOrder V] in
theorem distinct_commit {options : DestinationOptions} {earlier : List (String × Int64)}
    (h : l.Distinct earlier) (attempt : Attempt V) (metadata : CommitMeta D) (now : V) :
    (l.commit options earlier attempt metadata now).Distinct earlier := by
  unfold Ledger.commit
  cases hseq : ledgerSeq metadata.commitSeq with
  | error e => exact ⟨h.nodup, h.fresh, h.seq⟩
  | ok seq =>
    simp only []
    split
    · exact ⟨h.nodup, h.fresh, h.seq⟩
    · next hnew =>
      rw [List.mem_append, not_or] at hnew
      split
      · exact ⟨h.nodup, h.fresh, h.seq⟩
      · refine ⟨?_, fun key hkey => ?_, fun unit hunit => ?_⟩
        · rw [Ledger.keys, List.map_append]
          refine List.nodup_append.2 ⟨h.nodup, List.nodup_singleton _, fun a ha b hb hab => ?_⟩
          rw [List.map_singleton, List.mem_singleton] at hb
          subst hab hb
          exact hnew.2 ha
        · rw [Ledger.keys, List.map_append, List.map_singleton, List.mem_append,
            List.mem_singleton] at hkey
          rcases hkey with hkey | rfl
          · exact h.fresh key hkey
          · exact hnew.1
        · rcases List.mem_append.1 hunit with hunit | hunit
          · exact h.seq unit hunit
          · rw [List.mem_singleton] at hunit
            subst hunit
            exact hseq

omit [LinearOrder V] in
theorem distinct_step {options : DestinationOptions} {earlier : List (String × Int64)}
    (l : Ledger V D) (event : Event V D) (h : l.Distinct earlier) :
    (l.step options earlier event).Distinct earlier := by
  have hsame (attempt : Option (Attempt V)) : ({ l with attempt } : Ledger V D).Distinct earlier :=
    ⟨h.nodup, h.fresh, h.seq⟩
  have hcommitted (attempt : Attempt V) (metadata : CommitMeta D) (now : V) :
      ({ l.commit options earlier attempt metadata now with attempt := none } :
        Ledger V D).Distinct earlier :=
    have hcommit := distinct_commit h attempt metadata now
    ⟨hcommit.nodup, hcommit.fresh, hcommit.seq⟩
  unfold Ledger.step
  split
  · exact hsame _
  · exact hsame _
  · exact h
  · split
    · exact hsame _
    · exact hsame _
  · split
    · exact hsame _
    · exact hsame _
  · exact distinct_commit h _ _ _
  · exact hcommitted _ _ _

/-- The state of a pipeline is that of its last unit. -/
theorem contents_state (units : List (Delivery V D)) (pipeline : String) :
    (contents dest init units).state pipeline =
      ((units.filter fun unit => unit.metadata.pipeline = pipeline).getLast?.map
        fun unit => unit.metadata.state).or (init.state pipeline) := by
  induction units using List.reverseRecOn with
  | nil => rfl
  | append_singleton units unit ih =>
    rw [contents_append, List.filter_append]
    by_cases h : unit.metadata.pipeline = pipeline
    · simp [Delivery.publish, publishUnit, h]
    · have hother : pipeline ≠ unit.metadata.pipeline := fun heq => h heq.symm
      simp [Delivery.publish, publishUnit, h, hother, ih]

omit [LinearOrder V] in
/-- A commit takes the pending rows, drops them or ends the session. -/
theorem pending_commit (options : DestinationOptions) (earlier : List (String × Int64))
    (l : Ledger V D) (metadata : CommitMeta D) (now : V) (t : String) :
    (l.step options earlier (.commit metadata now)).pending t = [] := by
  obtain ⟨units, attempt⟩ := l
  cases attempt with
  | none => rfl
  | some attempt =>
    change (Ledger.commit options earlier _ attempt metadata now).pending t = []
    unfold Ledger.commit
    split
    · rfl
    · split
      · rfl
      · split
        · rfl
        · rfl

omit [LinearOrder V] in
theorem pending_unacknowledged (options : DestinationOptions) (earlier : List (String × Int64))
    (l : Ledger V D) (metadata : CommitMeta D) (now : V) (t : String) :
    (l.step options earlier (.commitUnacknowledged metadata now)).pending t = [] := by
  obtain ⟨units, attempt⟩ := l
  cases attempt with
  | none => rfl
  | some attempt => rfl

/-- However the calls, the redeliveries and the crashes follow one another, the targets,
the states and the receipts are those of distinct units, each applied once in the order
of their first commit; the stages hold what the current session wrote since its last
commit, and nothing after a commit. -/
theorem published_exactly_once (dest : Destination V) (init : Database V D)
    (events : List (Event V D)) :
    let w := Transition.run (World.step dest) ⟨init.clearStages, none⟩ events
    let l := Transition.run (Ledger.step dest.options init.receipts) ⟨[], none⟩ events
    w.db = (contents dest init l.units).withStages l.pending ∧
    w.db.receipts = init.receipts ++ l.keys ∧
    (∀ pipeline, w.db.state pipeline =
      ((l.units.filter fun unit => unit.metadata.pipeline = pipeline).getLast?.map
        fun unit => unit.metadata.state).or (init.state pipeline)) ∧
    l.Distinct init.receipts ∧
    ∀ metadata now, (∀ t, (w.step dest (.commit metadata now)).db.stages t = []) ∧
      ∀ t, (w.step dest (.commitUnacknowledged metadata now)).db.stages t = [] := by
  intro w l
  have hstart : Matches dest init ⟨init.clearStages, none⟩ ⟨[], none⟩ := ⟨rfl, .none⟩
  have hmatch : Matches dest init w l :=
    Transition.run_simulation (Matches dest init) (fun _ _ event h => matches_step h event) hstart
      events
  have hempty : (⟨[], none⟩ : Ledger V D).Distinct init.receipts :=
    ⟨List.nodup_nil, fun _ h => absurd h List.not_mem_nil, fun _ h => absurd h List.not_mem_nil⟩
  have hdistinct : l.Distinct init.receipts :=
    Transition.run_invariant_always (Ledger.Distinct init.receipts)
      (fun l event h => distinct_step l event h) hempty events
  refine ⟨hmatch.db, ?_, fun pipeline => ?_, hdistinct, fun metadata now => ⟨fun t => ?_, fun t => ?_⟩⟩
  · rw [hmatch.db]
    exact contents_receipts l.units
  · rw [hmatch.db]
    exact contents_state l.units pipeline
  · rw [(matches_step hmatch (.commit metadata now)).db]
    exact pending_commit dest.options init.receipts l metadata now t
  · rw [(matches_step hmatch (.commitUnacknowledged metadata now)).db]
    exact pending_unacknowledged dest.options init.receipts l metadata now t

end Duckdb
