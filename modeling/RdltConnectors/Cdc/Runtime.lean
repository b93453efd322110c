import RdltConnectors.Cdc.Wal
import RdltConnectors.Library.Interrupted

/-!
# The run's state and the server it talks to

The server has one publication, at most one replication slot, and a log that
other transactions keep extending. A run shares one state among its streams and
touches it under a lock. Every server call made with the lock held lets other
transactions commit first and may be the last one answered, so that a locked
section can end, with what it has done so far, at any of its calls.
-/
namespace Cdc

open PgTypes Interrupted

structure Slot where
  plugin : String
  activePid : Option Int
  walStatus : Option String
  confirmedFlush : Nat
  deriving DecidableEq, Repr

structure Server where
  wal : Nat
  log : List Commit
  publication : Option (List String)
  slot : Option Slot
  deriving DecidableEq

/-- A transaction of someone else: its changes and the log it takes up. -/
structure Work where
  changes : List (Nat × Change)
  bytes : Nat
  deriving DecidableEq

def Server.commit (s : Server) (w : Work) : Server :=
  { s with
    wal := s.wal + w.bytes + 1
    log := s.log ++ [⟨s.wal, w.changes, s.wal + w.bytes + 1, s.publication.getD []⟩] }

def Server.work (s : Server) (works : List Work) : Server := works.foldl Server.commit s

/-- Positions of the log and of the slot lie within what has been written. -/
structure Server.Sound (s : Server) : Prop where
  logged : Logged s.log
  written : ∀ c ∈ s.log, c.position ≤ s.wal
  flushed : ∀ slot, s.slot = some slot → slot.confirmedFlush ≤ s.wal

theorem Server.Sound.commit {s : Server} (h : s.Sound) (w : Work) : (s.commit w).Sound where
  logged := by
    refine List.pairwise_append.2 ⟨h.logged, List.pairwise_singleton _ _, ?_⟩
    intro c hc c' hc'
    obtain rfl := List.mem_singleton.1 hc'
    have := h.written c hc
    change c.position < s.wal + w.bytes + 1
    omega
  written := by
    intro c hc
    rcases List.mem_append.1 hc with hc | hc
    · have := h.written c hc
      change c.position ≤ s.wal + w.bytes + 1
      omega
    · obtain rfl := List.mem_singleton.1 hc
      exact Nat.le_refl _
  flushed := by
    intro slot hslot
    have := h.flushed slot hslot
    change slot.confirmedFlush ≤ s.wal + w.bytes + 1
    omega

/-- Other transactions move the log on and touch nothing else. -/
theorem work_spec (s : Server) (works : List Work) :
    (s.work works).slot = s.slot ∧ (s.work works).publication = s.publication ∧
      s.wal ≤ (s.work works).wal ∧ (s.Sound → (s.work works).Sound) := by
  induction works generalizing s with
  | nil => exact ⟨rfl, rfl, Nat.le_refl _, id⟩
  | cons w works ih =>
    obtain ⟨hslot, hpublication, hwal, hsound⟩ := ih (s.commit w)
    refine ⟨hslot, hpublication, ?_, fun h => hsound (h.commit w)⟩
    have hstep : s.wal ≤ (s.commit w).wal := by
      change s.wal ≤ s.wal + w.bytes + 1
      omega
    exact Nat.le_trans hstep hwal

/-! ## Run state -/

inductive AckMode where
  | auto
  | off
  deriving DecidableEq, Repr

inductive CdcMode where
  | catchup
  | tail
  deriving DecidableEq, Repr

structure CdcConfig where
  slot : String
  publication : String
  createIfMissing : Bool
  ack : AckMode
  mode : CdcMode
  deriving DecidableEq, Repr

/-- Whether this run created the slot, and its consistent point if so. -/
structure EnsureOutcome where
  createdSlot : Bool
  consistentPoint : Option Nat
  deriving DecidableEq, Repr

/-- Positions by stream. -/
abbrev Positions := List (String × Nat)

def Positions.insert (m : Positions) (stream : String) (lsn : Nat) : Positions :=
  (stream, lsn) :: m.filter fun entry => entry.1 != stream

def Positions.get? (m : Positions) (stream : String) : Option Nat := m.lookup stream

def Positions.min? (m : Positions) : Option Nat := (m.map Prod.snd).min?

theorem lookup_cons_ne {name other : String} (hne : other ≠ name) (lsn : Nat) (m : Positions) :
    List.lookup other ((name, lsn) :: m) = List.lookup other m := by
  rw [List.lookup, beq_eq_false_iff_ne.2 hne]

theorem get?_insert (m : Positions) (stream other : String) (lsn : Nat) :
    (m.insert stream lsn).get? other = if other = stream then some lsn else m.get? other := by
  by_cases hsame : other = stream
  · simp [Positions.insert, Positions.get?, hsame]
  · have hfilter : (m.filter fun entry => entry.1 != stream).lookup other = m.lookup other := by
      induction m with
      | nil => rfl
      | cons entry m ih =>
        obtain ⟨name, lsn'⟩ := entry
        by_cases hname : name = stream
        · subst hname
          rw [List.filter_cons_of_neg (by simp), ih, lookup_cons_ne hsame]
        · rw [List.filter_cons_of_pos (by simpa using hname)]
          by_cases hother : other = name
          · simp [hother]
          · rw [lookup_cons_ne hother, lookup_cons_ne hother, ih]
    rw [if_neg hsame, Positions.get?, Positions.insert, lookup_cons_ne hsame, hfilter]
    rfl

/-- The minimum is at or below every entry. -/
theorem min?_le {m : Positions} {stream : String} {lsn floor : Nat} (hmin : m.min? = some floor)
    (hget : m.get? stream = some lsn) : floor ≤ lsn := by
  have hmem : lsn ∈ m.map Prod.snd := by
    obtain ⟨before, after, rfl, -⟩ := List.lookup_eq_some_iff.1 hget
    simp
  exact (List.min?_eq_some_iff.1 hmin).2 lsn hmem

structure RunState where
  control : Bool
  ensured : Option EnsureOutcome
  snapshot : Bool
  snapshotHorizon : Option Nat
  target : Option Nat
  ackFloor : Positions
  pending : Option (List String)
  finalCursor : Positions
  deriving DecidableEq, Repr

def RunState.default : RunState := ⟨false, none, false, none, none, [], none, []⟩

def RunState.closeSnapshot (s : RunState) : RunState := { s with snapshot := false }

def RunState.dropConnections (s : RunState) : RunState :=
  { s with control := false, snapshot := false, snapshotHorizon := none }

/-! ## Locked sections -/

/-- What a locked section sees: the state, the server, what commits before each
of its remaining calls is answered, and the error of the first one that is not. -/
structure Section where
  server : Server
  state : RunState
  calls : List (List Work)
  lost : SourceError
  deriving DecidableEq

abbrev Locked (α : Type) := Attempt Section SourceError α

def call : Locked Unit := do
  let s ← get
  match s.calls with
  | [] => throw s.lost
  | works :: calls => modify fun s => { s with server := s.server.work works, calls := calls }

/-- A command takes effect before its answer, which may still be lost. -/
def command (effect : Server → Server) : Locked Unit := do
  call
  modify fun s => { s with server := effect s.server }
  call

/-- The lifecycle connection, opened if this run has not yet. -/
def control : Locked Unit := do
  let s ← get
  if s.state.control then pure ()
  else
    call
    modify fun s => { s with state := { s.state with control := true } }

/-- The shared snapshot transaction, opened if this run has not yet: a
connection, and the BEGIN on it. -/
def snapshot (horizon : Nat) : Locked Unit := do
  let s ← get
  if s.state.snapshot then pure ()
  else
    call
    call
    modify fun s =>
      { s with state := { s.state with snapshot := true, snapshotHorizon := some horizon } }

end Cdc
