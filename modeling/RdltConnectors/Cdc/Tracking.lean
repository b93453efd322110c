import Mathlib
import RdltConnectors.Cdc.Following

/-!
# Every step keeps the ledger right

Reads of the stream hand over what they should at each checkpoint, and everything
else that happens, a locked section cut short included, leaves the ledger true. So
it is true in every state of a run over one slot whose copies show the table.
-/
namespace Cdc

open PgTypes Fallible Interrupted

variable {V : Type} {config : Config V} {builder : ColumnBuilder V} {stream : String}
  {source : Source} {w : World V} {d : Ledger V} {task : Nat} {t : Task V}

/-- A copy of the stream shows its table as of a position between the opening of
its snapshot and now. -/
structure Views (builder : ColumnBuilder V) (source : Source) (begun : Nat) (server : Server)
    (scan : Haul V) : Prop where
  after : begun ≤ scan.view
  before : scan.view ≤ server.wal
  rows : ∃ scanned : List SourceRow, scanned.Perm (source.asOf scan.view) ∧
    (snapshotRows source.map scanned).mapM (decodeRow builder source.plan.columns) = .ok scan.rows

/-- What the server shows the stream: changes committed with its table published,
and copies of the table. -/
structure Served (builder : ColumnBuilder V) (stream : String) (source : Source) (s : Followed V)
    (move : Label × Haul V) : Prop where
  published : ∀ task since target tail, move.1 = .peek task →
    s.1.reading stream task = some (.changing since target tail) →
      ∀ c ∈ between s.1.server.log since target, c.touches source.plan →
        source.plan.stream ∈ c.published
  views : ∀ task start, move.1 = .copy task →
    s.1.reading stream task = some (.snapshotting start) →
      Views builder source s.2.begun s.1.server move.2

/-- No run leaves out a table with a cursor, the slot stays, and the server shows
the table as it is. -/
structure Honest (builder : ColumnBuilder V) (stream : String) (source : Source) (s : Followed V)
    (move : Label × Haul V) : Prop where
  covers : Covers s.1 move.1
  served : Served builder stream source s move

/-! ## Steps of the stream's read -/

theorem committedRows_self {p : Plan} (log : List Commit) (c : Nat) :
    committedRows p log c c = .ok [] := by
  refine committedRows_eq_nil.2 fun commit hcommit => ?_
  have hin := (List.mem_filter.1 hcommit).2
  simp only [decide_eq_true_eq] at hin
  omega

theorem hand_set (progress : Progress V) (lsn : Nat) :
    (w.set task t progress).hand t lsn = (w.hand t lsn).set task t progress := by
  unfold World.hand
  split <;> rfl

theorem Inv.started_of_live (hinv : Inv w) (hget : w.tasks[task]? = some t)
    (hlive : t.live = true) (hstream : t.stream = stream) : stream ∈ w.started :=
  hstream ▸ (hinv.tasks t (List.mem_of_getElem? hget)).started hlive

/-- A checkpoint of the stream's own read, and where the read goes on. -/
theorem Tracked.checkpoint (h : Tracked builder stream source (w, d)) (hinv : Inv w)
    (hget : w.tasks[task]? = some t) (hlive : t.live = true) (hstream : t.stream = stream)
    {lsn : Nat} (hupto : d.handed.UpTo builder source w.server lsn) {progress : Progress V}
    (hstanding : Standing builder source w.server d.begun d.handed progress) :
    Tracked builder stream source ((w.hand t lsn).set task t progress, d.mark lsn) := by
  have hstarted := hinv.started_of_live hget hlive hstream
  refine (h.mark hlive hstream hstarted hupto).set ?_ fun _ _ _ => ?_
  · rw [hand_tasks]
    exact hget
  · rw [hand_server]
    exact hstanding

theorem Tracked.checkpoint_elsewhere (h : Tracked builder stream source (w, d))
    (hget : w.tasks[task]? = some t) (hnot : ¬ (t.live = true ∧ t.stream = stream)) (lsn : Nat)
    (progress : Progress V) :
    Tracked builder stream source ((w.hand t lsn).set task t progress, d) := by
  refine (h.hand hnot lsn).set ?_ fun hlive hstream => absurd ⟨hlive, hstream⟩ hnot
  rw [hand_tasks]
  exact hget

theorem Tracked.copy (h : Tracked builder stream source (w, d)) (hinv : Inv w)
    (hget : w.tasks[task]? = some t) (hlive : t.live = true) (hstream : t.stream = stream)
    {start : Nat} (hprogress : t.progress = .snapshotting start) {scan : Haul V}
    (hviews : Views builder source d.begun w.server scan) :
    Tracked builder stream source
      ((w.hand t start).set task t (.snapshotted start), d.scanned scan start) := by
  have hread : w.reading stream task = some (.snapshotting start) := by
    rw [reading_get hget, if_pos ⟨hlive, hstream⟩, hprogress]
  obtain ⟨hbegun, hempty⟩ := h.reading task _ hread
  obtain ⟨scanned, hlists, hdecode⟩ := hviews.rows
  have hafter := hviews.after
  have hbefore := hviews.before
  have hupto : Haul.UpTo builder source w.server ⟨scan.view, d.handed.rows ++ scan.rows⟩ start := by
    refine ⟨start, scanned, [], Nat.le_trans hbegun hafter, Nat.le_refl _, ?_, hlists,
      committedRows_self _ _, ?_⟩
    · exact Nat.le_trans hbegun (Nat.le_trans hafter hbefore)
    · rw [List.append_nil, show d.handed.rows = [] from hempty]
      exact hdecode
  have hstarted := hinv.started_of_live hget hlive hstream
  have htaken : Tracked builder stream source (w.set task t (.snapshotted start),
      { d with handed := ⟨scan.view, d.handed.rows ++ scan.rows⟩ }) :=
    h.take hget hlive hstream hstarted hupto
  rw [← hand_set]
  exact htaken.mark hlive hstream hstarted hupto

theorem Tracked.peek (hp : Plan.new (config.context stream) stream = .ok source.plan)
    (h : Tracked config.builder stream source (w, d)) (hinv : Inv w)
    (hget : w.tasks[task]? = some t) {since target : Nat} {tail : Bool}
    (hprogress : t.progress = .changing since target tail)
    (hpublished : t.live = true → t.stream = stream → ∀ c ∈ between w.server.log since target,
      c.touches source.plan → source.plan.stream ∈ c.published) :
    Tracked config.builder stream source (w.peek config task t since target tail, d) := by
  have ht := List.mem_of_getElem? hget
  unfold World.peek
  split
  · next hlt =>
    split
    · exact h.set hget fun _ _ _ => trivial
    · next pass hpass =>
      refine h.set hget fun hlive hstream hstanding => ?_
      subst hstream
      rw [hprogress] at hstanding
      obtain ⟨hupto, htarget⟩ := hstanding
      obtain ⟨messages, hpeek, rfl⟩ := Option.map_eq_some_iff.1 hpass
      obtain ⟨slot, hslot, rfl⟩ := Option.map_eq_some_iff.1 hpeek
      have hconfirmed : slot.confirmedFlush ≤ since :=
        (hinv.slot_below hslot (hinv.tasks t ht).configured).reads t ht rfl hlive since
          (by rw [hprogress]; rfl)
      have hwal := hupto.le_wal
      refine ⟨Nat.le_max_right _ _, by omega, d.handed, [], hupto, ?_, ?_⟩
      · rw [batchRows_nil, List.append_nil]
      · have hmax : max target since = target := by omega
        exact (session_owes hp (logged_sent hinv.sound.logged) hconfirmed).of_published
          (hmax.symm ▸ hpublished hlive rfl)
  · next hle =>
    refine h.set hget fun _ _ hstanding => ?_
    rw [hprogress] at hstanding
    have hmax : max target since = since := by omega
    rw [hmax]
    exact standing_ended hstanding.1

/-- One emit of a pass, or its end. -/
theorem Tracked.deliver (h : Tracked builder stream source (w, d)) (hinv : Inv w)
    (hget : w.tasks[task]? = some t) {since cursor : Nat} {emits : List (Emit V)}
    {result : Except SourceError Unit} {tail : Bool}
    (hprogress : t.progress = .delivering since emits result cursor tail) (w' : World V)
    (scan : Haul V) :
    Tracked builder stream source (w.deliver task t since emits result cursor tail,
      d.after stream w w' scan (.deliver task)) := by
  have hlog := hinv.sound.logged
  have hread := reading_get hget stream
  rw [hprogress] at hread
  cases emits with
  | nil =>
    have hsame : d.after stream w w' scan (.deliver task) = d := by
      by_cases hours : t.live = true ∧ t.stream = stream
      · simp [Ledger.after, hread, hours]
      · simp [Ledger.after, hread, hours]
    rw [hsame]
    cases result with
    | error e => exact h.set hget fun _ _ _ => trivial
    | ok u =>
      refine h.set hget fun _ _ hstanding => ?_
      rw [hprogress] at hstanding
      obtain ⟨hle, hwal, base, done, hbase, hhanded, howes⟩ := hstanding
      obtain ⟨rows, hrows, hdecode⟩ := howes.ends rfl
      rw [hhanded]
      exact standing_ended (hbase.extend hlog hle hwal hrows (by simpa using hdecode))
  | cons emit emits =>
    by_cases hours : t.live = true ∧ t.stream = stream
    · obtain ⟨hlive, hstream⟩ := hours
      rw [if_pos ⟨hlive, hstream⟩] at hread
      have hstarted := hinv.started_of_live hget hlive hstream
      obtain ⟨hle, hwal, base, done, hbase, hhanded, howes⟩ := h.reading task _ hread
      cases emit with
      | batch b =>
        simp only [Ledger.after, hread]
        refine h.take hget hlive hstream hstarted ⟨hle, hwal, base, done ++ [.batch b], hbase, ?_,
          howes.next⟩
        rw [show d.handed = _ from hhanded]
        simp
      | checkpoint lsn =>
        simp only [Ledger.after, hread]
        obtain ⟨hlsn, hcursor, rows, hrows, hdecode⟩ := howes.exact [] lsn emits rfl
        have hupto : d.handed.UpTo builder source w.server lsn := by
          rw [show d.handed = _ from hhanded]
          exact hbase.extend hlog hlsn (Nat.le_trans hcursor hwal) hrows (by simpa using hdecode)
        refine h.checkpoint hinv hget hlive hstream hupto
          ⟨hle, hwal, base, done ++ [.checkpoint lsn], hbase, ?_, howes.next⟩
        rw [show d.handed = _ from hhanded]
        simp
    · rw [if_neg hours] at hread
      simp only [Ledger.after, hread]
      cases emit with
      | batch b => exact h.set hget fun hlive hstream => absurd ⟨hlive, hstream⟩ hours
      | checkpoint lsn => exact h.checkpoint_elsewhere hget hours lsn _

/-! ## Locked sections -/

/-- The run's target is one the log has reached. -/
def Pinned (s : Section) : Prop :=
  ∀ target, s.state.target = some target → target ≤ s.server.wal

theorem lasting_pinned : Lasting Pinned where
  work s works _ hs target htarget :=
    Nat.le_trans (hs target htarget) (work_spec s.server works).2.2.1
  publication _ _ hs := hs
  createSlot _ _ hs := hs
  advance _ _ hs := hs
  state _ _ ht _ _ _ hs target htarget := hs target (ht.symm.trans htarget)

theorem Opened.congr {opened : Nat} {state state' : RunState} (h : Opened opened state)
    (hensured : state'.ensured = state.ensured)
    (hhorizon : state'.snapshotHorizon = state.snapshotHorizon) : Opened opened state' := by
  refine ⟨hensured ▸ h.1, fun server => ?_⟩
  have hsame : freshStart state' server = freshStart state server := by
    unfold freshStart
    rw [hensured, hhorizon]
  exact hsame ▸ h.2 server

/-- A run whose horizon is known or whose slot is new starts snapshots there. -/
theorem Inv.opened (hinv : Inv w) (hopen : w.state.snapshot = true) :
    Opened w.server.wal w.state := by
  obtain ⟨horizon, hhorizon⟩ := Option.isSome_iff_exists.1 (hinv.held hopen)
  obtain ⟨hwal, hensured⟩ := hinv.horizon horizon hhorizon
  refine ⟨hensured, fun server => ?_⟩
  unfold freshStart
  rw [hhorizon]
  cases hpoint : w.state.ensured.bind EnsureOutcome.consistentPoint with
  | none => exact hwal
  | some point =>
    obtain ⟨outcome, houtcome, hp⟩ := Option.bind_eq_some_iff.1 hpoint
    exact hinv.point outcome point houtcome hp

theorem Tracked.completed (h : Tracked builder stream source (w, d))
    (hget : w.tasks[task]? = some t) (cdc : CdcConfig) {cursor : Nat}
    (outcome : Except SourceError (Option Nat))
    (hstanding : Standing builder source w.server d.begun d.handed t.progress →
      Standing builder source w.server d.begun d.handed (.tailing cursor)) :
    Tracked builder stream source (w.completed cdc task t cursor outcome, d) := by
  unfold World.completed
  split
  · exact h.set hget fun _ _ _ => trivial
  · split
    · exact h.set hget fun _ _ => hstanding
    · exact h.erase task

/-- What the last section of a read keeps. -/
def Closing (opened : Nat) (s : Section) : Prop :=
  Pinned s ∧ (s.state.snapshot = true → Opened opened s.state)

theorem lasting_closing (opened : Nat) : Lasting (Closing opened) :=
  lasting_pinned.and_state (fun state => state.snapshot = true → Opened opened state)
    fun _ _ _ he hs hh hopened hopen => (hopened (hs.symm.trans hopen)).congr he hh

theorem closing_closeSnapshot {opened : Nat} (s : Section) (h : Closing opened s) :
    Closing opened { s with state := s.state.closeSnapshot } := ⟨h.1, fun hopen => by cases hopen⟩

/-- The last section moves the server and the run's state on. -/
theorem Tracked.finish (h : Tracked builder stream source (w, d)) (hget : w.tasks[task]? = some t)
    {m : Locked (Option Nat)} (hkeeps : Keeps (Closing d.opened) m)
    (hgrows : Keeps (fun s => Grown w.server s.server) m) (calls : List (List Work))
    (lost : SourceError) (cdc : CdcConfig) {cursor : Nat}
    (hstanding : ∀ server, Standing builder source server d.begun d.handed t.progress →
      Standing builder source server d.begun d.handed (.tailing cursor)) :
    Tracked builder stream source
      ((w.leave (exec m (w.enter calls lost)).2).completed cdc task t cursor
        (exec m (w.enter calls lost)).1, d) := by
  have hkept := hkeeps (w.enter calls lost) ⟨h.pinned, h.opened⟩
  have hgrown := hgrows (w.enter calls lost) (Grown.refl _)
  cases hexec : exec m (w.enter calls lost) with
  | mk outcome s =>
    rw [hexec] at hkept hgrown
    have hleft : Tracked builder stream source (w.leave s, d) := by
      cases outcome with
      | error e => exact h.leave hgrown hkept.1 hkept.2
      | ok lag => exact h.leave hgrown hkept.1 hkept.2
    exact hleft.completed hget cdc outcome (hstanding s.server)

theorem Tracked.complete (h : Tracked builder stream source (w, d)) (config : Config V)
    (hget : w.tasks[task]? = some t) (calls : List (List Work)) (lost : SourceError) :
    Tracked builder stream source (w.stepTask config task t (.complete task calls lost), d) := by
  have hlasting := lasting_closing d.opened
  have hstable := stable_grown w.server
  cases hprogress : t.progress with
  | snapshotted start =>
    simp only [World.stepTask, hprogress]
    refine h.finish hget (hlasting.completeSnapshot closing_closeSnapshot config.cdc t.stream start)
      (hstable.completeSnapshot config.cdc t.stream start) calls lost config.cdc fun _ hs => ?_
    rwa [hprogress] at hs
  | passed cursor =>
    simp only [World.stepTask, hprogress]
    refine h.finish hget (hlasting.completePass closing_closeSnapshot config.cdc t.stream cursor)
      (hstable.completePass config.cdc t.stream cursor) calls lost config.cdc fun _ hs => ?_
    rwa [hprogress] at hs
  | _ => simpa only [World.stepTask, hprogress] using h

theorem reading_append (w : World V) (t : Task V) (started : List String) (other : Nat) :
    World.reading { w with started := started, tasks := w.tasks ++ [t] } stream other =
      if other = w.tasks.length then if t.live ∧ t.stream = stream then some t.progress else none
      else w.reading stream other := by
  unfold World.reading
  rcases Nat.lt_trichotomy other w.tasks.length with hlt | rfl | hgt
  · simp [List.getElem?_append_left hlt, Nat.ne_of_lt hlt]
  · simp
  · have hne : other ≠ w.tasks.length := by omega
    have hlong : (w.tasks ++ [t]).length ≤ other := by
      rw [List.length_append, List.length_singleton]
      omega
    rw [List.getElem?_eq_none hlong, List.getElem?_eq_none (by omega)]
    simp [hne]

/-- A new read: the stream's own, or another's. -/
theorem Tracked.add (h : Tracked builder stream source (w, d)) {other : String}
    (hnone : other = stream → ∀ task, w.reading stream task = none)
    {progress : Progress V} (hstanding : other = stream →
      Standing builder source w.server d.begun d.handed progress) :
    Tracked builder stream source
      ({ w with started := other :: w.started, tasks := w.tasks ++ [⟨other, true, progress⟩] }, d)
    where
  alone first second hfirst hsecond := by
    simp only [reading_append] at hfirst hsecond
    by_cases hown : other = stream
    · have hlast {place : Nat} (hread : (if place = w.tasks.length then
          if True ∧ other = stream then some progress else none
          else w.reading stream place).isSome = true) : place = w.tasks.length := by
        by_contra hne
        simp [hne, hnone hown] at hread
      exact (hlast (by simpa using hfirst)).trans (hlast (by simpa using hsecond)).symm
    · have hearlier {place : Nat} (hread : (if place = w.tasks.length then
          if True ∧ other = stream then some progress else none
          else w.reading stream place).isSome = true) : (w.reading stream place).isSome = true := by
        by_cases hplace : place = w.tasks.length
        · simp [hplace, hown] at hread
        · simpa [hplace] using hread
      exact h.alone _ _ (hearlier (by simpa using hfirst)) (hearlier (by simpa using hsecond))
  reading place progress' hread := by
    simp only [reading_append] at hread
    by_cases hplace : place = w.tasks.length
    · by_cases hown : other = stream
      · obtain rfl : progress = progress' := by simpa [hplace, hown] using hread
        exact hstanding hown
      · simp [hplace, hown] at hread
    · exact h.reading place progress' (by simpa [hplace] using hread)
  handed := h.handed
  points := h.points
  fresh := h.fresh
  stored := h.stored
  idle hnot := h.idle fun hmem => hnot (List.mem_cons_of_mem _ hmem)
  pinned := h.pinned
  opened := h.opened

/-- A section may open the run's snapshot, for the stream's own read or for others. -/
theorem Tracked.begin (h : Tracked builder stream source (w, d)) {opened : Nat} {own : Bool}
    (hnone : own = true → ∀ task, w.reading stream task = none)
    (hopened : w.state.snapshot = true → Opened opened w.state) :
    Tracked builder stream source
      (w, { d with opened := opened, begun := if own then opened else d.begun }) where
  alone := h.alone
  reading task progress hread := by
    cases own with
    | true => simp [hnone rfl] at hread
    | false => exact h.reading task progress hread
  handed := h.handed
  points := h.points
  fresh := h.fresh
  stored := h.stored
  idle := h.idle
  pinned := h.pinned
  opened := hopened

/-- What the first section of a read keeps: a snapshot that is open stays as it is. -/
def Opening (held : Bool) (opened : Nat) (s : Section) : Prop :=
  Pinned s ∧ (held = true → s.state.snapshot = true ∧ Opened opened s.state)

theorem opening_beginRead (held : Bool) (opened : Nat) (cdc : CdcConfig) (tables : List String)
    (stream : String) (since : Option Nat) :
    Triple (Opening held opened) (beginRead cdc tables stream since)
      (fun progress s => Opening held opened s ∧ Progress.Pinned (V := V) s.state progress)
      (Opening held opened) := by
  have hlasting : Lasting (Opening held opened) :=
    lasting_pinned.and_state
      (fun state => held = true → state.snapshot = true ∧ Opened opened state)
      fun _ _ _ he hs hh hopened hheld =>
        ⟨hs.trans (hopened hheld).1, (hopened hheld).2.congr he hh⟩
  refine hlasting.beginRead ?_ ?_ ?_ cdc tables stream since
  · intro s outcome hunset hs
    refine ⟨hs.1, fun hheld => ?_⟩
    have hset := (hs.2 hheld).2.1
    rw [hunset] at hset
    cases hset
  · intro s horizon hshut hs
    refine ⟨hs.1, fun hheld => ?_⟩
    have hopen := (hs.2 hheld).1
    rw [hshut] at hopen
    cases hopen
  · intro s hs
    refine ⟨?_, fun hheld => ⟨(hs.2 hheld).1, (hs.2 hheld).2.congr rfl rfl⟩⟩
    rintro target ⟨⟩
    exact Nat.le_refl _

/-- What a section has done is there whether it ended in a read or in none. -/
theorem Tracked.begun (h : Tracked builder stream source (w, d)) {s : Section} {other : String}
    {progress : Progress V}
    (hinv : Inv { w.leave s with
      started := other :: w.started
      tasks := w.tasks ++ [⟨other, true, progress⟩] })
    (hgrown : Grown w.server s.server) (hopening : Opening w.state.snapshot d.opened s)
    (hnone : other = stream → ∀ task, w.reading stream task = none)
    (hstanding : other = stream → Standing builder source s.server
      (if w.state.snapshot = true then d.opened else s.server.wal) d.handed progress) :
    Tracked builder stream source
      ({ w.leave s with
          started := other :: w.started
          tasks := w.tasks ++ [⟨other, true, progress⟩] },
        d.begin w { w.leave s with
          started := other :: w.started
          tasks := w.tasks ++ [⟨other, true, progress⟩] } (other == stream)) := by
  have hopened : w.state.snapshot = true →
      Opened (if w.state.snapshot = true then d.opened else s.server.wal) w.state := by
    intro hopen
    rw [if_pos hopen]
    exact h.opened hopen
  have hbegin : Tracked builder stream source
      (w, d.begin w { w.leave s with
        started := other :: w.started
        tasks := w.tasks ++ [⟨other, true, progress⟩] } (other == stream)) :=
    h.begin (fun hown => hnone (by simpa using hown)) hopened
  have hleft := hbegin.leave hgrown hopening.1 fun hopen => by
    change Opened (if w.state.snapshot = true then d.opened else s.server.wal) s.state
    split
    · next hbefore => exact (hopening.2 hbefore).2
    · exact Inv.opened hinv hopen
  refine hleft.add hnone fun hown => ?_
  have hown' : (other == stream) = true := by simpa using hown
  change Standing builder source s.server (if (other == stream) = true then
    if w.state.snapshot = true then d.opened else s.server.wal else d.begun) d.handed progress
  rw [if_pos hown']
  exact hstanding hown

/-- A read begins: a fresh one behind the opening of its snapshot, a resumed one
with what is stored, up to a target that is written. -/
theorem Tracked.read (h : Tracked config.builder stream source (w, d)) (hinv : Inv w)
    {other : String} (hmem : other ∈ w.tables) (hfresh : other ∉ w.started)
    (calls : List (List Work)) (lost : SourceError) :
    Tracked config.builder stream source (w.read config other calls lost,
      d.begin w (w.read config other calls lost) (other == stream)) := by
  have hnext := hinv.read config hmem hfresh calls lost
  have hhanded : w.handed other = [] := by
    by_contra hne
    exact hfresh (hinv.handed other hne).1
  have hidle : ∀ t ∈ w.tasks, t.stream = other → t.live = false := by
    intro t ht hs
    by_contra hlive
    exact hfresh (hs ▸ (hinv.tasks t ht).started (by simpa using hlive))
  have hnone (hown : other = stream) (task : Nat) : w.reading stream task = none := by
    cases hget : w.tasks[task]? with
    | none => rw [World.reading, hget, Option.bind_none]
    | some t =>
      rw [reading_get hget, if_neg]
      rintro ⟨hlive, hstream⟩
      rw [hidle t (List.mem_of_getElem? hget) (hstream.trans hown.symm)] at hlive
      cases hlive
  have hkeep := opening_beginRead (V := V) w.state.snapshot d.opened config.cdc w.tables other
    (w.committed other) (w.enter calls lost)
    ⟨h.pinned, fun hopen => ⟨hopen, h.opened hopen⟩⟩
  have hgrown := (stable_grown w.server).beginRead (V := V) config.cdc w.tables other
    (w.committed other) (w.enter calls lost) (Grown.refl _)
  have hbegun := beginRead_spec (w := w) config.cdc hhanded hidle (w.enter calls lost) hinv
  unfold World.read at hnext ⊢
  cases hexec : exec (beginRead config.cdc w.tables other (w.committed other) :
      Locked (Progress V)) (w.enter calls lost) with
  | mk outcome s =>
    rw [hexec] at hnext hkeep hgrown hbegun
    cases outcome with
    | error e =>
      exact h.begun hnext hgrown hkeep hnone fun _ => trivial
    | ok progress =>
      refine h.begun hnext hgrown hkeep.1 hnone fun hown => ?_
      subst hown
      obtain ⟨hgood, -, hprogress⟩ := hbegun
      cases hstored : w.committed other with
      | none =>
        rw [hstored] at hprogress
        obtain rfl := hprogress
        refine ⟨?_, ?_⟩
        · split
          · next hopen => exact (hkeep.1.2 hopen).2.2 s.server
          · exact Inv.freshStart_le hgood
        · rw [h.idle hfresh]
          exact h.fresh hstored
      | some since =>
        rw [hstored] at hprogress
        obtain ⟨⟨target, rfl⟩, -⟩ := hprogress
        refine ⟨?_, hkeep.1.1 target hkeep.2⟩
        rw [h.idle hfresh]
        exact (h.stored since hstored).grown hgrown

/-! ## Stores, runs and attempts -/

theorem Tracked.store (h : Tracked builder stream source (w, d)) (hinv : Inv w) {lsn : Nat}
    (hhanded : lsn ∈ w.handed stream) :
    Tracked builder stream source
      ({ w with committed := Function.update w.committed stream (some lsn) },
        { d with stored := (d.points.lookup lsn).getD d.stored }) := by
  have hstarted := (hinv.handed stream (List.ne_nil_of_mem hhanded)).1
  have hupto : ((d.points.lookup lsn).getD d.stored).UpTo builder source w.server lsn := by
    rw [h.handed] at hhanded
    obtain ⟨point, hpoint, hlsn⟩ := List.mem_map.1 hhanded
    cases hlookup : d.points.lookup lsn with
    | none =>
      have hne := List.lookup_eq_none_iff.1 hlookup point hpoint
      simp [hlsn] at hne
    | some haul =>
      obtain ⟨before, after, hsplit, -⟩ := List.lookup_eq_some_iff.1 hlookup
      exact h.points (lsn, haul) (by rw [show d.points = _ from hsplit]; simp)
  constructor
  case alone => exact h.alone
  case reading => exact h.reading
  case handed => exact h.handed
  case points => exact h.points
  case fresh => simp
  case stored =>
    intro c hc
    obtain rfl : lsn = c := by simpa using hc
    exact hupto
  case idle => exact fun hnot => absurd hstarted hnot
  case pinned => exact h.pinned
  case opened => exact h.opened

theorem Tracked.run (h : Tracked builder stream source (w, d)) (tables : List String) :
    Tracked builder stream source (w.run tables, d.restart) where
  alone task other htask := by simp [World.reading, World.run] at htask
  reading task progress hread := by simp [World.reading, World.run] at hread
  handed := rfl
  points := by simp [Ledger.restart]
  fresh := h.fresh
  stored := h.stored
  idle _ := rfl
  pinned := by simp [World.run, RunState.default]
  opened := by simp [World.run, RunState.default]

theorem reading_retry (task : Nat) : w.retry.reading stream task = none := by
  cases hget : w.tasks[task]? with
  | none => simp [World.reading, World.retry, hget]
  | some t => simp [World.reading, World.retry, hget]

theorem Tracked.retry (h : Tracked builder stream source (w, d)) :
    Tracked builder stream source (w.retry, d.restart) where
  alone task other htask := by simp [reading_retry] at htask
  reading task progress hread := by simp [reading_retry] at hread
  handed := rfl
  points := by simp [Ledger.restart]
  fresh := h.fresh
  stored := h.stored
  idle _ := rfl
  pinned := h.pinned
  opened := h.opened

/-! ## Every step -/

/-- A step of a read that is not the stream's, or of none, adds nothing. -/
theorem after_elsewhere {label : Label} (htask : label.task = some task)
    (hread : w.reading stream task = none) (w' : World V) (scan : Haul V) :
    d.after stream w w' scan label = d := by
  cases label <;> try cases htask
  all_goals simp [Ledger.after, hread]

theorem Tracked.copyTask (h : Tracked config.builder stream source (w, d)) (hinv : Inv w)
    (hget : w.tasks[task]? = some t)
    (hok : Honest config.builder stream source (w, d) (.copy task, scan)) :
    Tracked config.builder stream source (w.stepTask config task t (.copy task),
      d.after stream w (w.stepTask config task t (.copy task)) scan (.copy task)) := by
  have hread := reading_get hget stream
  by_cases hours : t.live = true ∧ t.stream = stream
  · rw [if_pos hours] at hread
    cases hprogress : t.progress with
    | snapshotting start =>
      rw [hprogress] at hread
      simp only [World.stepTask, hprogress, Ledger.after, hread]
      exact h.copy hinv hget hours.1 hours.2 hprogress (hok.served.views task start rfl hread)
    | _ => simpa [World.stepTask, hprogress, Ledger.after, hread] using h
  · rw [if_neg hours] at hread
    rw [after_elsewhere rfl hread _ scan]
    cases hprogress : t.progress with
    | snapshotting start =>
      simp only [World.stepTask, hprogress]
      exact h.checkpoint_elsewhere hget hours start _
    | _ => simpa only [World.stepTask, hprogress] using h

theorem Tracked.tailTask (h : Tracked config.builder stream source (w, d)) (hinv : Inv w)
    (hget : w.tasks[task]? = some t) (scan : Haul V) :
    Tracked config.builder stream source (w.stepTask config task t (.tail task),
      d.after stream w (w.stepTask config task t (.tail task)) scan (.tail task)) := by
  have hread := reading_get hget stream
  by_cases hours : t.live = true ∧ t.stream = stream
  · rw [if_pos hours] at hread
    cases hprogress : t.progress with
    | tailing cursor =>
      rw [hprogress] at hread
      have hupto : d.handed.UpTo config.builder source w.server cursor :=
        h.reading task _ hread
      simp only [World.stepTask, hprogress, Ledger.after, hread]
      exact h.checkpoint hinv hget hours.1 hours.2 hupto ⟨hupto, Nat.le_refl _⟩
    | _ => simpa [World.stepTask, hprogress, Ledger.after, hread] using h
  · rw [if_neg hours] at hread
    rw [after_elsewhere rfl hread _ scan]
    cases hprogress : t.progress with
    | tailing cursor =>
      simp only [World.stepTask, hprogress]
      exact h.checkpoint_elsewhere hget hours cursor _
    | _ => simpa only [World.stepTask, hprogress] using h

theorem Tracked.stepTask (hp : Plan.new (config.context stream) stream = .ok source.plan)
    (h : Tracked config.builder stream source (w, d)) (hinv : Inv w)
    (hget : w.tasks[task]? = some t) {label : Label} (htask : label.task = some task)
    {scan : Haul V} (hok : Honest config.builder stream source (w, d) (label, scan)) :
    Tracked config.builder stream source (w.stepTask config task t label,
      d.after stream w (w.stepTask config task t label) scan label) := by
  have hread := reading_get hget stream
  cases label with
  | copy place =>
    obtain rfl := Option.some.inj htask
    exact h.copyTask hinv hget hok
  | peek place =>
    obtain rfl := Option.some.inj htask
    change Tracked config.builder stream source (w.stepTask config place t (.peek place), d)
    cases hprogress : t.progress with
    | changing since target tail =>
      simp only [World.stepTask, hprogress]
      refine h.peek hp hinv hget hprogress fun hlive hstream => ?_
      refine hok.served.published place since target tail rfl ?_
      rw [hread, if_pos ⟨hlive, hstream⟩, hprogress]
    | _ => simpa only [World.stepTask, hprogress] using h
  | deliver place =>
    obtain rfl := Option.some.inj htask
    cases hprogress : t.progress with
    | delivering since emits result cursor tail =>
      simp only [World.stepTask, hprogress]
      exact h.deliver hinv hget hprogress _ scan
    | _ =>
      rw [hprogress] at hread
      by_cases hours : t.live = true ∧ t.stream = stream
      · rw [if_pos hours] at hread
        simpa [World.stepTask, hprogress, Ledger.after, hread] using h
      · rw [if_neg hours] at hread
        simpa [World.stepTask, hprogress, Ledger.after, hread] using h
  | complete place calls lost =>
    obtain rfl := Option.some.inj htask
    exact h.complete config hget calls lost
  | tail place =>
    obtain rfl := Option.some.inj htask
    exact h.tailTask hinv hget scan
  | fail place =>
    obtain rfl := Option.some.inj htask
    exact h.set hget fun _ _ _ => trivial
  | dropConnections place =>
    obtain rfl := Option.some.inj htask
    change Tracked config.builder stream source
      (w.stepTask config place t (.dropConnections place), d)
    cases hprogress : t.progress with
    | failed =>
      simp only [World.stepTask, hprogress]
      have hdropped : Tracked config.builder stream source
          ({ w with server := w.server, state := w.state.dropConnections }, d) :=
        h.leave (Grown.refl _) h.pinned fun hopen => by cases hopen
      exact hdropped.erase place
    | _ => simpa only [World.stepTask, hprogress] using h
  | abandon place =>
    obtain rfl := Option.some.inj htask
    exact h.erase place
  | _ => cases htask

theorem follow_tracked (hp : Plan.new (config.context stream) stream = .ok source.plan)
    {s : Followed V} {move : Label × Haul V} (h : Tracked config.builder stream source s)
    (hinv : Inv s.1) (hok : Honest config.builder stream source s move) :
    Tracked config.builder stream source (follow config stream s move) := by
  obtain ⟨w, d⟩ := s
  obtain ⟨label, scan⟩ := move
  unfold follow
  cases htask : label.task with
  | some task =>
    dsimp only
    rw [step_task config htask]
    cases hget : w.tasks[task]? with
    | none =>
      have hread : w.reading stream task = none := by
        rw [World.reading, hget, Option.bind_none]
      rw [after_elsewhere htask hread]
      exact h
    | some t =>
      exact h.stepTask hp hinv hget htask hok
  | none =>
    cases label with
    | work work =>
      have hgrown := (Grown.refl w.server).commit work
      exact h.leave hgrown (fun target htarget => Nat.le_trans (h.pinned target htarget) hgrown.wal)
        h.opened
    | publish publication => exact h.leave ⟨(Grown.refl _).log, Nat.le_refl _⟩ h.pinned h.opened
    | occupy activePid walStatus =>
      exact h.leave ⟨(Grown.refl _).log, Nat.le_refl _⟩ h.pinned h.opened
    | createSlot plugin =>
      simp only [step]
      split
      · exact h.leave ⟨(Grown.refl _).log, Nat.le_refl _⟩ h.pinned h.opened
      · exact h
    | dropSlot => exact hok.covers.elim
    | run tables => exact h.run tables
    | retry => exact h.retry
    | read other calls lost =>
      simp only [step, Ledger.after]
      split
      · next hread => exact h.read hinv hread.1 hread.2 calls lost
      · exact h
    | store other lsn =>
      simp only [step, Ledger.after]
      by_cases hown : other = stream
      · subst hown
        by_cases hstore : lsn ∈ w.handed other ∧ ∀ c, w.committed other = some c → c ≤ lsn
        · rw [if_pos hstore, if_pos ⟨rfl, hstore⟩]
          exact h.store hinv hstore.1
        · rw [if_neg hstore, if_neg fun hall => hstore hall.2]
          exact h
      · have hnot : ¬ (other = stream ∧ lsn ∈ w.handed other ∧
            ∀ c, w.committed other = some c → c ≤ lsn) := fun hall => hown hall.1
        rw [if_neg hnot]
        split
        · refine h.shift (Grown.refl _) Function.injective_id
            (fun _ progress hread => ⟨progress, hread, id⟩) rfl ?_ id h.pinned h.opened
          exact Function.update_of_ne (Ne.symm hown) _ _
        · exact h
    | copy | peek | deliver | complete | tail | fail | dropConnections | abandon => cases htask

theorem initial_tracked : Tracked builder stream source (Followed.initial : Followed V) where
  alone task other htask := by simp [Followed.initial, World.reading, World.initial] at htask
  reading task progress hread := by
    simp [Followed.initial, World.reading, World.initial] at hread
  handed := rfl
  points := by simp [Followed.initial, Ledger.empty]
  fresh _ := rfl
  stored c hc := by cases hc
  idle _ := rfl
  pinned target htarget := by cases htarget
  opened hopen := by cases hopen

theorem run_tracked (hp : Plan.new (config.context stream) stream = .ok source.plan)
    {moves : List (Label × Haul V)}
    (hok : Transition.Meets (follow config stream) (Honest config.builder stream source)
      Followed.initial moves) :
    Inv (Transition.run (follow config stream) Followed.initial moves).1 ∧
      Tracked config.builder stream source
        (Transition.run (follow config stream) Followed.initial moves) :=
  Transition.run_invariant
    (I := fun s : Followed V => Inv s.1 ∧ Tracked config.builder stream source s)
    (fun _ _ h hhonest =>
      ⟨step_inv config h.1 hhonest.covers, follow_tracked hp h.2 h.1 hhonest⟩)
    ⟨initial_inv, initial_tracked⟩ hok

end Cdc
