import Mathlib
import RdltConnectors.Cdc.Handover

/-!
# Following a stream through a run

Whatever the server, the reads and the destination do, the rows stored for a
stream, those under each of its checkpoints and those its read stands at are a
snapshot and the commits since, each once. A snapshot starts from a position at
or before the one its transaction was opened at, and a pass resumes from where
the slot still has everything.
-/
namespace Cdc

open PgTypes Fallible Interrupted

variable {V : Type}

/-! ## The log goes on -/

structure Grown (server server' : Server) : Prop where
  log : ∃ later, server'.log = server.log ++ later ∧ ∀ c ∈ later, server.wal < c.position
  wal : server.wal ≤ server'.wal

theorem Grown.refl (server : Server) : Grown server server := ⟨⟨[], by simp⟩, Nat.le_refl _⟩

theorem Grown.commit {server server' : Server} (h : Grown server server') (work : Work) :
    Grown server (server'.commit work) := by
  obtain ⟨later, hlog, hpast⟩ := h.log
  have hwal := h.wal
  constructor
  · refine ⟨later ++ [⟨server'.wal, work.changes, server'.wal + work.bytes + 1,
      server'.publication.getD []⟩], ?_, ?_⟩
    · simp [Server.commit, hlog]
    · intro c hc
      rcases List.mem_append.1 hc with hc | hc
      · exact hpast c hc
      · obtain rfl := List.mem_singleton.1 hc
        change server.wal < server'.wal + work.bytes + 1
        omega
  · change server.wal ≤ server'.wal + work.bytes + 1
    omega

theorem Grown.work {server server' : Server} (h : Grown server server') (works : List Work) :
    Grown server (server'.work works) := by
  induction works generalizing server' with
  | nil => exact h
  | cons work works ih => exact ih (h.commit work)

theorem stable_grown (server : Server) : Stable (Grown server) where
  work _ works h := h.work works
  publication _ _ h := ⟨h.log, h.wal⟩
  createSlot _ _ h := ⟨h.log, h.wal⟩
  advance _ _ h := ⟨h.log, h.wal⟩

/-- Rows up to a position that was written are those the log will have there. -/
theorem committedRows_grown {p : Plan} {server server' : Server} (h : Grown server server')
    {lo hi : Nat} (hhi : hi ≤ server.wal) :
    committedRows p server'.log lo hi = committedRows p server.log lo hi := by
  obtain ⟨later, hlog, hpast⟩ := h.log
  have hnone : between later lo hi = [] := by
    refine List.filter_eq_nil_iff.2 fun c hc => ?_
    have := hpast c hc
    simp only [decide_eq_true_eq]
    omega
  have hsame : between server'.log lo hi = between server.log lo hi := by
    rw [hlog, between, List.filter_append]
    exact (congrArg _ hnone).trans (List.append_nil _)
  rw [committedRows, hsame, committedRows]

/-! ## What should have been handed over -/

/-- The stream's table: how its rows are planned, the columns its old tuples carry,
what it held first, and the changes since. -/
structure Source where
  plan : Plan
  map : List Nat
  carried : Nat → Bool
  table : SourceTable
  history : History

/-- The table as of a position. -/
def Source.asOf (source : Source) (lsn : Nat) : SourceTable :=
  tableAt source.table source.history lsn

/-- A snapshot and the commits since its start, up to `c`, each once and in order. -/
def Haul.UpTo (builder : ColumnBuilder V) (source : Source) (server : Server) (haul : Haul V)
    (c : Nat) : Prop :=
  ∃ start scanned rows, start ≤ haul.view ∧ start ≤ c ∧ c ≤ server.wal ∧
    scanned.Perm (source.asOf haul.view) ∧
    committedRows source.plan server.log start c = .ok rows ∧
    (snapshotRows source.map scanned ++ rows).mapM (decodeRow builder source.plan.columns)
      = .ok haul.rows

variable {builder : ColumnBuilder V} {source : Source} {server server' : Server} {haul : Haul V}
  {c : Nat}

theorem Haul.UpTo.grown (h : haul.UpTo builder source server c) (hgrown : Grown server server') :
    haul.UpTo builder source server' c := by
  obtain ⟨start, scanned, rows, hview, hle, hwal, hlists, hrows, hdecode⟩ := h
  exact ⟨start, scanned, rows, hview, hle, Nat.le_trans hwal hgrown.wal, hlists,
    (committedRows_grown hgrown hwal).trans hrows, hdecode⟩

theorem Haul.UpTo.le_wal (h : haul.UpTo builder source server c) : c ≤ server.wal := by
  obtain ⟨-, -, -, -, -, hwal, -⟩ := h
  exact hwal

/-- The rows of the next range take it further. -/
theorem Haul.UpTo.extend (h : haul.UpTo builder source server c) (hlog : Logged server.log)
    {c' : Nat} (hle : c ≤ c') (hwal : c' ≤ server.wal) {rows : List Row} {out : List (OutRow V)}
    (hrows : committedRows source.plan server.log c c' = .ok rows)
    (hdecode : rows.mapM (decodeRow builder source.plan.columns) = .ok out) :
    Haul.UpTo builder source server ⟨haul.view, haul.rows ++ out⟩ c' := by
  obtain ⟨start, scanned, before, hview, hstart, -, hlists, hbefore, hdecoded⟩ := h
  refine ⟨start, scanned, before ++ rows, hview, Nat.le_trans hstart hle, hwal, hlists, ?_, ?_⟩
  · rw [committedRows_append start c c' hlog hstart hle]
    exact joinRows_ok.2 ⟨before, rows, hbefore, hrows, rfl⟩
  · rw [← List.append_assoc]
    exact mapM_append_ok.2 ⟨_, _, hdecoded, hdecode, rfl⟩

theorem Owes.grown {p : Plan} {since cursor : Nat} {done emits : List (Emit V)}
    {result : Except SourceError Unit}
    (h : Owes builder p server.log since done emits result cursor)
    (hgrown : Grown server server') (hwal : cursor ≤ server.wal) :
    Owes builder p server'.log since done emits result cursor where
  exact pre c post heq := by
    obtain ⟨hle, hcursor, rows, hrows, hdecode⟩ := h.exact pre c post heq
    exact ⟨hle, hcursor, rows,
      (committedRows_grown hgrown (Nat.le_trans hcursor hwal)).trans hrows, hdecode⟩
  ends hok := by
    obtain ⟨rows, hrows, hdecode⟩ := h.ends hok
    exact ⟨rows, (committedRows_grown hgrown hwal).trans hrows, hdecode⟩

/-- Where a read of the stream stands, by what it has handed over. -/
def Standing (builder : ColumnBuilder V) (source : Source) (server : Server) (begun : Nat)
    (handed : Haul V) : Progress V → Prop
  | .snapshotting start => start ≤ begun ∧ handed.rows = []
  | .snapshotted start => handed.UpTo builder source server start
  | .changing since target _ => handed.UpTo builder source server since ∧ target ≤ server.wal
  | .delivering since emits result cursor _ =>
    since ≤ cursor ∧ cursor ≤ server.wal ∧ ∃ base done, Haul.UpTo builder source server base since ∧
      handed = ⟨base.view, base.rows ++ batchRows done⟩ ∧
      Owes builder source.plan server.log since done emits result cursor
  | .passed cursor => handed.UpTo builder source server cursor
  | .tailing cursor => handed.UpTo builder source server cursor
  | .failed => True

theorem Standing.grown {begun : Nat} {handed : Haul V} {progress : Progress V}
    (h : Standing builder source server begun handed progress) (hgrown : Grown server server') :
    Standing builder source server' begun handed progress := by
  cases progress with
  | snapshotting start => exact h
  | snapshotted start => exact Haul.UpTo.grown h hgrown
  | changing since target tail => exact ⟨h.1.grown hgrown, Nat.le_trans h.2 hgrown.wal⟩
  | delivering since emits result cursor tail =>
    obtain ⟨hle, hwal, base, done, hbase, hhanded, howes⟩ := h
    exact ⟨hle, Nat.le_trans hwal hgrown.wal, base, done, hbase.grown hgrown, hhanded,
      howes.grown hgrown hwal⟩
  | passed cursor => exact Haul.UpTo.grown h hgrown
  | tailing cursor => exact Haul.UpTo.grown h hgrown
  | failed => trivial

theorem standing_ended {begun : Nat} {handed : Haul V} {tail : Bool} {cursor : Nat}
    (h : handed.UpTo builder source server cursor) :
    Standing builder source server begun handed (ended tail cursor) := by
  cases tail <;> exact h

/-- A snapshot through a transaction opened there starts no later. -/
def Opened (opened : Nat) (state : RunState) : Prop :=
  state.ensured.isSome ∧ ∀ server, freshStart state server ≤ opened

/-- Everything the ledger says is so. -/
structure Tracked (builder : ColumnBuilder V) (stream : String) (source : Source) (s : Followed V) :
    Prop where
  alone : ∀ task other, (s.1.reading stream task).isSome → (s.1.reading stream other).isSome →
    task = other
  reading : ∀ task progress, s.1.reading stream task = some progress →
    Standing builder source s.1.server s.2.begun s.2.handed progress
  handed : s.1.handed stream = s.2.points.map Prod.fst
  points : ∀ point ∈ s.2.points, point.2.UpTo builder source s.1.server point.1
  fresh : s.1.committed stream = none → s.2.stored.rows = []
  stored : ∀ c, s.1.committed stream = some c → s.2.stored.UpTo builder source s.1.server c
  idle : stream ∉ s.1.started → s.2.handed = s.2.stored
  pinned : ∀ target, s.1.state.target = some target → target ≤ s.1.server.wal
  opened : s.1.state.snapshot = true → Opened s.2.opened s.1.state

variable {stream : String} {w w' : World V} {d : Ledger V} {task : Nat} {t : Task V}

theorem reading_get (hget : w.tasks[task]? = some t) (stream : String) :
    w.reading stream task = if t.live ∧ t.stream = stream then some t.progress else none := by
  rw [World.reading, hget, Option.bind_some]

theorem reading_set (hget : w.tasks[task]? = some t) (progress : Progress V) (other : Nat) :
    (w.set task t progress).reading stream other =
      if other = task then if t.live ∧ t.stream = stream then some progress else none
      else w.reading stream other := by
  have hlt : task < w.tasks.length := (List.getElem?_eq_some_iff.1 hget).1
  unfold World.reading World.set
  by_cases hother : other = task
  · subst hother
    simp [hlt]
  · simp [hother, List.getElem?_set_ne (Ne.symm hother)]

theorem reading_erase (task other : Nat) : (w.erase task).reading stream other =
    w.reading stream (if other < task then other else other + 1) := by
  unfold World.reading World.erase
  rw [List.getElem?_eraseIdx]
  split <;> rfl

/-- A step that hands over and stores nothing of the stream: its read may move
to another place and on to where it stands as well. -/
theorem Tracked.shift (h : Tracked builder stream source (w, d)) (hgrown : Grown w.server w'.server)
    {place : Nat → Nat} (hplace : Function.Injective place)
    (hreads : ∀ task progress, w'.reading stream task = some progress → ∃ before,
      w.reading stream (place task) = some before ∧
        (Standing builder source w'.server d.begun d.handed before →
          Standing builder source w'.server d.begun d.handed progress))
    (hhanded : w'.handed stream = w.handed stream)
    (hcommitted : w'.committed stream = w.committed stream)
    (hstarted : stream ∈ w.started → stream ∈ w'.started)
    (hpinned : ∀ target, w'.state.target = some target → target ≤ w'.server.wal)
    (hopened : w'.state.snapshot = true → Opened d.opened w'.state) :
    Tracked builder stream source (w', d) where
  alone task other htask hother := by
    obtain ⟨progress, hprogress⟩ := Option.isSome_iff_exists.1 htask
    obtain ⟨progress', hprogress'⟩ := Option.isSome_iff_exists.1 hother
    obtain ⟨before, hbefore, -⟩ := hreads task progress hprogress
    obtain ⟨before', hbefore', -⟩ := hreads other progress' hprogress'
    exact hplace (h.alone _ _ (Option.isSome_of_eq_some hbefore)
      (Option.isSome_of_eq_some hbefore'))
  reading task progress hprogress := by
    obtain ⟨before, hbefore, hstanding⟩ := hreads task progress hprogress
    exact hstanding ((h.reading _ before hbefore).grown hgrown)
  handed := hhanded.trans h.handed
  points point hpoint := (h.points point hpoint).grown hgrown
  fresh hnone := h.fresh (hcommitted.symm.trans hnone)
  stored c hc := (h.stored c (hcommitted.symm.trans hc)).grown hgrown
  idle hnot := h.idle fun hmem => hnot (hstarted hmem)
  pinned := hpinned
  opened := hopened

/-- Server and state move on. -/
theorem Tracked.leave (h : Tracked builder stream source (w, d)) {server : Server}
    {state : RunState} (hgrown : Grown w.server server)
    (hpinned : ∀ target, state.target = some target → target ≤ server.wal)
    (hopened : state.snapshot = true → Opened d.opened state) :
    Tracked builder stream source ({ w with server := server, state := state }, d) :=
  h.shift hgrown Function.injective_id (fun _ progress hread => ⟨progress, hread, id⟩) rfl rfl id
    hpinned hopened

theorem Tracked.set (h : Tracked builder stream source (w, d)) (hget : w.tasks[task]? = some t)
    {progress : Progress V} (hstanding : t.live = true → t.stream = stream →
      Standing builder source w.server d.begun d.handed t.progress →
        Standing builder source w.server d.begun d.handed progress) :
    Tracked builder stream source (w.set task t progress, d) := by
  refine h.shift (Grown.refl _) Function.injective_id (fun other progress' hread => ?_) rfl rfl id
    h.pinned h.opened
  rw [reading_set hget] at hread
  by_cases hother : other = task
  · subst hother
    rw [if_pos rfl] at hread
    by_cases hours : t.live = true ∧ t.stream = stream
    · rw [if_pos hours] at hread
      obtain rfl := Option.some.inj hread
      exact ⟨t.progress, by rw [id, reading_get hget, if_pos hours], hstanding hours.1 hours.2⟩
    · rw [if_neg hours] at hread
      cases hread
  · rw [if_neg hother] at hread
    exact ⟨progress', hread, id⟩

theorem Tracked.erase (h : Tracked builder stream source (w, d)) (task : Nat) :
    Tracked builder stream source (w.erase task, d) := by
  have hplace : Function.Injective fun other => if other < task then other else other + 1 := by
    intro first second heq
    simp only at heq
    split at heq <;> split at heq <;> omega
  refine h.shift (Grown.refl _) hplace (fun other progress hread => ⟨progress, ?_, id⟩) rfl rfl id
    h.pinned h.opened
  rw [← reading_erase]
  exact hread

/-- Checkpoints of other reads are no concern of the stream's. -/
theorem Tracked.hand (h : Tracked builder stream source (w, d))
    (hnot : ¬ (t.live = true ∧ t.stream = stream)) (lsn : Nat) :
    Tracked builder stream source (w.hand t lsn, d) := by
  unfold World.hand
  split
  · next hlive =>
    refine h.shift (Grown.refl _) Function.injective_id (fun _ progress hread =>
      ⟨progress, hread, id⟩) ?_ rfl id h.pinned h.opened
    exact Function.update_of_ne (fun heq => hnot ⟨hlive, heq.symm⟩) _ _
  · exact h

/-- A checkpoint of the stream's own read, at what it has handed over. -/
theorem Tracked.mark (h : Tracked builder stream source (w, d)) (hlive : t.live = true)
    (hstream : t.stream = stream) (hstarted : stream ∈ w.started) {lsn : Nat}
    (hupto : d.handed.UpTo builder source w.server lsn) :
    Tracked builder stream source (w.hand t lsn, d.mark lsn) := by
  subst hstream
  rw [World.hand, if_pos hlive]
  constructor
  case alone => exact h.alone
  case reading => exact h.reading
  case handed => simpa [Ledger.mark] using h.handed
  case points =>
    intro point hpoint
    rcases List.mem_cons.1 hpoint with rfl | hpoint
    · exact hupto
    · exact h.points point hpoint
  case fresh => exact h.fresh
  case stored => exact h.stored
  case idle => exact fun hnot => absurd hstarted hnot
  case pinned => exact h.pinned
  case opened => exact h.opened

/-- The stream's own read hands over rows: no other read of it is under way. -/
theorem Tracked.take (h : Tracked builder stream source (w, d)) (hget : w.tasks[task]? = some t)
    (hlive : t.live = true) (hstream : t.stream = stream) (hstarted : stream ∈ w.started)
    {haul : Haul V} {progress : Progress V}
    (hstanding : Standing builder source w.server d.begun haul progress) :
    Tracked builder stream source (w.set task t progress, { d with handed := haul }) := by
  have hown : (w.reading stream task).isSome := by
    rw [reading_get hget, if_pos ⟨hlive, hstream⟩]
    rfl
  constructor
  case alone =>
    intro first second hfirst hsecond
    refine h.alone first second ?_ ?_
    · rw [reading_set hget] at hfirst
      by_cases heq : first = task
      · exact heq ▸ hown
      · rwa [if_neg heq] at hfirst
    · rw [reading_set hget] at hsecond
      by_cases heq : second = task
      · exact heq ▸ hown
      · rwa [if_neg heq] at hsecond
  case reading =>
    intro other progress' hread
    simp only [reading_set hget] at hread
    by_cases heq : other = task
    · rw [if_pos heq, if_pos ⟨hlive, hstream⟩] at hread
      exact Option.some.inj hread ▸ hstanding
    · rw [if_neg heq] at hread
      exact absurd (h.alone other task (Option.isSome_of_eq_some hread) hown) heq
  case handed => exact h.handed
  case points => exact h.points
  case fresh => exact h.fresh
  case stored => exact h.stored
  case idle => exact fun hnot => absurd hstarted hnot
  case pinned => exact h.pinned
  case opened => exact h.opened

end Cdc
