import Mathlib
import RdltConnectors.Cdc.Gap
import RdltConnectors.Cdc.Overlap

/-!
# What the destination has of a stream

A ledger beside the system follows one stream: the rows handed over on top of
what the destination has, the checkpoints among them, and the rows a stored
checkpoint has made durable. A snapshot hands over the table as of a position the
run is free to choose, past the opening of the snapshot it reads through. What
the ledger should hold at a position is said here, and that the passes of a
decoding session add up to it.
-/
namespace Cdc

open PgTypes Fallible Interrupted

variable {V : Type}

/-- Rows of a stream, and where the snapshot they begin with was read. -/
structure Haul (V : Type) where
  view : Nat
  rows : List (OutRow V)
  deriving DecidableEq

structure Ledger (V : Type) where
  /-- where the log stood when the run's shared snapshot was opened, and when
  the one this stream's read holds was -/
  opened : Nat
  begun : Nat
  /-- what the destination would have if it committed now -/
  handed : Haul V
  /-- the checkpoints of this attempt, each with what was handed over before it -/
  points : List (Nat × Haul V)
  /-- what it has -/
  stored : Haul V
  deriving DecidableEq

def Ledger.empty : Ledger V := ⟨0, 0, ⟨0, []⟩, [], ⟨0, []⟩⟩

def Ledger.add (d : Ledger V) (rows : List (OutRow V)) : Ledger V :=
  { d with handed := { d.handed with rows := d.handed.rows ++ rows } }

def Ledger.mark (d : Ledger V) (lsn : Nat) : Ledger V :=
  { d with points := (lsn, d.handed) :: d.points }

/-- A snapshot: its rows, then its checkpoint. -/
def Ledger.scanned (d : Ledger V) (scan : Haul V) (start : Nat) : Ledger V :=
  { d with handed := ⟨scan.view, d.handed.rows ++ scan.rows⟩ }.mark start

/-- Nothing outlives an attempt but what was stored. -/
def Ledger.restart (d : Ledger V) : Ledger V := { d with handed := d.stored, points := [] }

/-- The snapshot transaction is the run's, or opened in this section. -/
def Ledger.begin (d : Ledger V) (w w' : World V) (own : Bool) : Ledger V :=
  let opened := if w.state.snapshot then d.opened else w'.server.wal
  { d with opened := opened, begun := if own then opened else d.begun }

/-- The live read of the stream, if the task is that. -/
def World.reading (w : World V) (stream : String) (task : Nat) : Option (Progress V) :=
  (w.tasks[task]?).bind fun t => if t.live ∧ t.stream = stream then some t.progress else none

/-- What a step from `w` to `w'` hands over and makes durable; `scan` is what a
copy reads in it. -/
def Ledger.after (stream : String) (w w' : World V) (scan : Haul V) (d : Ledger V) :
    Label → Ledger V
  | .run _ => d.restart
  | .retry => d.restart
  | .read other _ _ =>
    if other ∈ w.tables ∧ other ∉ w.started then d.begin w w' (other == stream) else d
  | .copy task =>
    match w.reading stream task with
    | some (.snapshotting start) => d.scanned scan start
    | _ => d
  | .deliver task =>
    match w.reading stream task with
    | some (.delivering _ (.batch b :: _) _ _ _) => d.add b.rows
    | some (.delivering _ (.checkpoint lsn :: _) _ _ _) => d.mark lsn
    | _ => d
  | .tail task =>
    match w.reading stream task with
    | some (.tailing cursor) => d.mark cursor
    | _ => d
  | .store other lsn =>
    if other = stream ∧ lsn ∈ w.handed other ∧ ∀ c, w.committed other = some c → c ≤ lsn then
      { d with stored := (d.points.lookup lsn).getD d.stored }
    else d
  | _ => d

/-- The system and the ledger of one of its streams. -/
abbrev Followed (V : Type) := World V × Ledger V

def follow (config : Config V) (stream : String) (s : Followed V) (move : Label × Haul V) :
    Followed V :=
  let w := step config s.1 move.1
  (w, s.2.after stream s.1 w move.2 move.1)

def Followed.initial : Followed V := (World.initial, Ledger.empty)

/-! ## Checkpoints of a session -/

variable {builder : ColumnBuilder V} {p : Plan} {rel : Relations} {context : StreamContext}
  {stream : String} {log : List Commit} {since confirmed target : Nat}

/-- No relation drifted before a checkpoint that was emitted. -/
theorem passOf_checked {openTail : List (Nat × Message)} {ready : List Row}
    {txs : List Transaction} {c : Nat} (hord : CommitOrdered txs)
    (h : c ∈ checkpoints (passOf builder p since target openTail rel ready txs).emits) :
    ∀ t ∈ txs, t.commit ≤ c → p.checkRelations t.body = .ok () := by
  induction txs generalizing rel ready with
  | nil => simp
  | cons t txs ih =>
    obtain ⟨hlater, hord'⟩ := List.pairwise_cons.1 hord
    cases hsettle : settle builder p since rel ready t with
    | error e => simp [passOf, hsettle, checkpoints] at h
    | ok next =>
      obtain ⟨ready', emits⟩ := next
      have hcheck : p.checkRelations t.body = .ok () := by
        cases hc : p.checkRelations t.body with
        | error e => simp [settle, hc] at hsettle
        | ok u => rfl
      rw [passOf_cons_ok hsettle, checkpoints_append, List.mem_append] at h
      intro t' ht' hle
      rcases List.mem_cons.1 ht' with rfl | ht'
      · exact hcheck
      · rcases h with hhere | hrest
        · -- a checkpoint of its own commit, which every later one is past
          have hc : c = t.commit := by
            rcases settle_spec hsettle with
              ⟨-, -, rfl⟩ | ⟨-, rows, -, ⟨-, rfl⟩ | ⟨-, b, rfl, -⟩⟩
            · simp [checkpoints] at hhere
            · simp [checkpoints] at hhere
            · simpa [checkpoints] using hhere
          have := hlater t' ht'
          omega
        · exact ih hord' hrest t' ht' hle

/-- The commits up to a position come first in what a session sends. -/
theorem decoded_filter {commits : List Commit} (hlog : Logged commits) (c : Nat) :
    (decoded rel commits).filter (fun t => t.commit ≤ c) =
      decoded rel (commits.filter fun commit => commit.position ≤ c) := by
  induction commits generalizing rel with
  | nil => rfl
  | cons first commits ih =>
    obtain ⟨hlater, hlog'⟩ := List.pairwise_cons.1 hlog
    by_cases hle : first.position ≤ c
    · simp only [decoded, List.filter_cons, hle, decide_true, if_true, ih hlog']
    · have hpast : ∀ commit ∈ first :: commits, ¬ commit.position ≤ c := by
        intro commit hmem
        rcases List.mem_cons.1 hmem with rfl | hmem
        · exact hle
        · have := hlater commit hmem
          omega
      have hnone : (first :: commits).filter (fun commit => decide (commit.position ≤ c)) = [] :=
        List.filter_eq_nil_iff.2 fun commit hmem => by simpa using hpast commit hmem
      rw [hnone]
      refine List.filter_eq_nil_iff.2 fun t ht => ?_
      obtain ⟨commit, hmem, heq⟩ := mem_decoded ht
      rw [heq]
      simpa using hpast commit hmem

/-- Before each checkpoint of a pass stand the rows committed up to it, also
where the pass fails later. -/
theorem session_exact (hp : Plan.new context stream = .ok p) (hlog : Logged log)
    (hconfirmed : confirmed ≤ since) {pre post : List (Emit V)} {c : Nat}
    (h : (changePass builder context stream since target (session log confirmed target)).emits
      = pre ++ .checkpoint c :: post) :
    since ≤ c ∧ c ≤ max target since ∧ ∃ rows, committedRows p log since c = .ok rows ∧
      rows.mapM (decodeRow builder p.columns) = .ok (batchRows pre) := by
  have hpass := changePass_stream builder since target [] hp (by simp)
    (decoded noRelations (between log confirmed target))
  rw [List.append_nil] at hpass
  rw [session, hpass] at h
  have hle : ∀ t ∈ decoded noRelations (between log confirmed target), t.commit ≤ target := by
    intro t ht
    obtain ⟨commit, hmem, heq⟩ := mem_decoded ht
    have hin := (List.mem_filter.1 hmem).2
    simp only [decide_eq_true_eq] at hin
    omega
  have hmem : c ∈ checkpoints (passOf builder p since target [] noRelations []
      (decoded noRelations (between log confirmed target))).emits := by
    rw [h, mem_checkpoints]
    simp
  have hbounds : since ≤ c ∧ c ≤ max target since := by
    rcases passOf_checkpoint hmem with rfl | ⟨t, ht, hlt, rfl⟩
    · omega
    · have := hle t ht
      omega
  have hord : CommitOrdered (decoded noRelations (between log confirmed target)) :=
    commitOrdered_decoded (logged_between hlog)
  obtain ⟨rows, hrows, hdecode⟩ := passOf_exact hord hle h
  refine ⟨hbounds.1, hbounds.2, rows, ?_, by simpa using hdecode⟩
  rw [← rowsBetween_filter hord (show c ≤ max c since by omega),
    decoded_filter (logged_between hlog), rowsBetween_decoded described_none] at hrows
  · rw [← hrows, committedRows, committedRows]
    congr 2
    rw [between, between, between, List.filter_filter, List.filter_filter]
    refine List.filter_congr fun commit _ => ?_
    simp only [← Bool.decide_and, decide_eq_decide]
    omega
  · intro t ht
    rw [← decoded_filter (logged_between hlog)] at ht
    obtain ⟨ht, hcommit⟩ := List.mem_filter.1 ht
    exact passOf_checked hord hmem t ht (by simpa using hcommit)

/-- What is left of a pass from `since` that has handed over `done`: the rows
before each checkpoint, and before the end of a pass that succeeds. -/
structure Owes (builder : ColumnBuilder V) (p : Plan) (log : List Commit) (since : Nat)
    (done emits : List (Emit V)) (result : Except SourceError Unit) (cursor : Nat) : Prop where
  exact : ∀ pre c post, emits = pre ++ .checkpoint c :: post → since ≤ c ∧ c ≤ cursor ∧
    ∃ rows, committedRows p log since c = .ok rows ∧
      rows.mapM (decodeRow builder p.columns) = .ok (batchRows (done ++ pre))
  ends : result = .ok () → ∃ rows, committedRows p log since cursor = .ok rows ∧
    rows.mapM (decodeRow builder p.columns) = .ok (batchRows (done ++ emits))

theorem session_owes (hp : Plan.new context stream = .ok p) (hlog : Logged log)
    (hconfirmed : confirmed ≤ since) :
    Owes builder p log since []
      (changePass builder context stream since target (session log confirmed target)).emits
      (changePass builder context stream since target (session log confirmed target)).result
      (max target since) where
  exact pre c post h := session_exact hp hlog hconfirmed h
  ends hok := by
    have hpass := changePass_stream builder since target [] hp (by simp)
      (decoded noRelations (between log confirmed target))
    rw [List.append_nil] at hpass
    have hend : ∃ pre, (changePass builder context stream since target
        (session log confirmed target)).emits = pre ++ [.checkpoint (max target since)] := by
      rw [session, hpass] at hok ⊢
      exact passOf_complete hok
    obtain ⟨pre, hemits⟩ := hend
    obtain ⟨-, -, rows, hrows, hdecode⟩ := session_exact hp hlog hconfirmed hemits
    exact ⟨rows, hrows, by simpa [hemits] using hdecode⟩

/-- Where all of the range was published, it is the log itself that is owed. -/
theorem Owes.of_published {since cursor : Nat} {done emits : List (Emit V)}
    {result : Except SourceError Unit}
    (h : Owes builder p (log.map Commit.sent) since done emits result cursor)
    (hpublished : ∀ c ∈ between log since cursor, c.touches p → p.stream ∈ c.published) :
    Owes builder p log since done emits result cursor where
  exact pre c post heq := by
    obtain ⟨hsince, hcursor, rows, hrows, hdecode⟩ := h.exact pre c post heq
    refine ⟨hsince, hcursor, rows, ?_, hdecode⟩
    rw [← hrows]
    refine (committedRows_published fun commit hmem => hpublished commit ?_).symm
    simp only [between, List.mem_filter, decide_eq_true_eq] at hmem ⊢
    exact ⟨hmem.1, hmem.2.1, Nat.le_trans hmem.2.2 hcursor⟩
  ends hok := by
    obtain ⟨rows, hrows, hdecode⟩ := h.ends hok
    exact ⟨rows, hrows ▸ (committedRows_published hpublished).symm, hdecode⟩

theorem Owes.next {since cursor : Nat} {done emits : List (Emit V)} {emit : Emit V}
    {result : Except SourceError Unit}
    (h : Owes builder p log since done (emit :: emits) result cursor) :
    Owes builder p log since (done ++ [emit]) emits result cursor where
  exact pre c post heq := by
    have hnext := h.exact (emit :: pre) c post (by rw [heq, List.cons_append])
    simpa using hnext
  ends hok := by simpa using h.ends hok

end Cdc
