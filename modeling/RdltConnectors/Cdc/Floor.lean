import RdltConnectors.Cdc.Read
import RdltConnectors.Library.Transition

/-!
# What the slot may not pass

A stream still needs the log from its stored cursor on, from any checkpoint it
has handed over and from where a read of it stands; with no cursor yet, from
where a fresh snapshot of this run would start. The slot, the acknowledgement
floors and the starts of snapshots under way stay at or below all of these, in
every order of steps, so the minimum of the floors may become the slot.
-/
namespace Cdc

open PgTypes Interrupted

variable {V : Type}

/-- Where the stream stands while it is read. -/
def Progress.position : Progress V → Option Nat
  | .snapshotting start => some start
  | .snapshotted start => some start
  | .changing since _ _ => some since
  | .delivering since _ _ _ _ => some since
  | .passed cursor => some cursor
  | .tailing cursor => some cursor
  | .failed => none

/-- The start of a snapshot that is not the stream's floor yet. -/
def Progress.start : Progress V → Option Nat
  | .snapshotting start => some start
  | .snapshotted start => some start
  | _ => none

theorem position_of_start {progress : Progress V} {start : Nat}
    (h : progress.start = some start) : progress.position = some start := by
  cases progress <;> simp_all [Progress.start, Progress.position]

/-- What is still to be handed over lies at or past the position. -/
def Progress.Sound : Progress V → Prop
  | .delivering since emits _ cursor _ => since ≤ cursor ∧ ∀ c ∈ checkpoints emits, since ≤ c
  | _ => True

/-- Where a stream without a cursor would start. -/
def freshStart (state : RunState) (server : Server) : Nat :=
  match state.ensured.bind EnsureOutcome.consistentPoint, state.snapshotHorizon with
  | some point, _ => point
  | none, some horizon => horizon
  | none, none => server.wal

/-- The position is at or below everything the stream still needs. -/
structure Below (w : World V) (stream : String) (x : Nat) : Prop where
  committed : ∀ c, w.committed stream = some c → x ≤ c
  handed : ∀ c ∈ w.handed stream, x ≤ c
  reads : ∀ t ∈ w.tasks, t.stream = stream → t.live = true →
    ∀ q, t.progress.position = some q → x ≤ q
  fresh : w.committed stream = none → x ≤ freshStart w.state w.server

/-- The positions that have to stay below. -/
inductive Bound (w : World V) : String → Nat → Prop where
  | slot {stream : String} {slot : Slot} :
      w.server.slot = some slot → stream ∈ w.tables → Bound w stream slot.confirmedFlush
  | floor {stream : String} {lsn : Nat} :
      w.state.ackFloor.get? stream = some lsn → Bound w stream lsn
  | snapshot {t : Task V} {start : Nat} :
      t ∈ w.tasks → t.progress.start = some start → Bound w t.stream start

structure TaskOk (w : World V) (t : Task V) : Prop where
  sound : t.progress.Sound
  configured : t.stream ∈ w.tables
  started : t.live = true → t.stream ∈ w.started
  ensured : t.progress.position.isSome → w.state.ensured.isSome
  floor : t.progress.position.isSome → t.progress.start = none →
    (w.state.ackFloor.get? t.stream).isSome

structure Inv (w : World V) : Prop where
  sound : w.server.Sound
  point : ∀ outcome point, w.state.ensured = some outcome →
    outcome.consistentPoint = some point → point ≤ w.server.wal
  horizon : ∀ horizon, w.state.snapshotHorizon = some horizon →
    horizon ≤ w.server.wal ∧ w.state.ensured.isSome
  held : w.state.snapshot = true → w.state.snapshotHorizon.isSome
  slot : w.state.ensured.isSome → w.server.slot.isSome
  floors : ∀ stream lsn, w.state.ackFloor.get? stream = some lsn → w.state.ensured.isSome
  tasks : ∀ t ∈ w.tasks, TaskOk w t
  handed : ∀ stream, w.handed stream ≠ [] →
    stream ∈ w.started ∧ stream ∈ w.tables ∧ w.state.ensured.isSome
  stored : ∀ stream c, w.committed stream = some c → stream ∈ w.tables ∧ w.server.slot.isSome
  drained : ∀ pending, w.state.pending = some pending → ∀ stream ∈ w.tables, stream ∉ pending →
    (w.state.ackFloor.get? stream).isSome
  bounds : ∀ stream x, Bound w stream x → Below w stream x

variable {w : World V}

theorem freshStart_mono (state : RunState) {server server' : Server}
    (h : server.wal ≤ server'.wal) : freshStart state server ≤ freshStart state server' := by
  unfold freshStart
  split
  · exact Nat.le_refl _
  · exact Nat.le_refl _
  · exact h

theorem Inv.freshStart_le (h : Inv w) : freshStart w.state w.server ≤ w.server.wal := by
  unfold freshStart
  split
  · next point hpoint =>
    obtain ⟨outcome, houtcome, hp⟩ := Option.bind_eq_some_iff.1 hpoint
    exact h.point outcome point houtcome hp
  · next horizon _ hhorizon => exact (h.horizon horizon hhorizon).1
  · exact Nat.le_refl _

/-- A bound of the stream is at or below its fresh start. -/
def Above (w : World V) (start : Nat) : Prop :=
  start ≤ w.server.wal ∧ ∀ stream x, Bound w stream x → w.committed stream = none → x ≤ start

theorem Inv.above (h : Inv w) : Above w (freshStart w.state w.server) :=
  ⟨h.freshStart_le, fun stream x hx hnone => (h.bounds stream x hx).fresh hnone⟩

/-! ## What a locked section may do -/

/-- The server moves on; its slot stays where it is. -/
theorem Inv.server (h : Inv w) (server : Server) (hwal : w.server.wal ≤ server.wal)
    (hsound : server.Sound)
    (hslot : server.slot.map Slot.confirmedFlush = w.server.slot.map Slot.confirmedFlush) :
    Inv { w with server := server } ∧ ∀ start, Above w start → Above { w with server := server } start := by
  have hsome : server.slot.isSome = w.server.slot.isSome := by
    have := congrArg Option.isSome hslot
    simpa using this
  have hbound {stream : String} {x : Nat} (hx : Bound { w with server := server } stream x) :
      Bound w stream x := by
    cases hx with
    | slot hs hmem =>
      rename_i slot
      have hmap : w.server.slot.map Slot.confirmedFlush = some slot.confirmedFlush := by
        rw [← hslot]
        simp [show server.slot = some slot from hs]
      obtain ⟨slot', hs', heq⟩ := Option.map_eq_some_iff.1 hmap
      exact heq ▸ .slot hs' hmem
    | floor hf => exact .floor hf
    | snapshot ht hstart => exact .snapshot ht hstart
  constructor
  · constructor
    case sound => exact hsound
    case point => exact fun outcome point ho hp => Nat.le_trans (h.point outcome point ho hp) hwal
    case horizon =>
      exact fun horizon hh => ⟨Nat.le_trans (h.horizon horizon hh).1 hwal, (h.horizon horizon hh).2⟩
    case held => exact h.held
    case slot => exact fun he => hsome ▸ h.slot he
    case floors => exact h.floors
    case tasks =>
      exact fun t ht => ⟨(h.tasks t ht).sound, (h.tasks t ht).configured, (h.tasks t ht).started,
        (h.tasks t ht).ensured, (h.tasks t ht).floor⟩
    case handed => exact h.handed
    case stored => exact fun stream c hc => ⟨(h.stored stream c hc).1, hsome ▸ (h.stored stream c hc).2⟩
    case drained => exact h.drained
    case bounds =>
      intro stream x hx
      have hb := h.bounds stream x (hbound hx)
      exact ⟨hb.committed, hb.handed, hb.reads,
        fun hnone => Nat.le_trans (hb.fresh hnone) (freshStart_mono w.state hwal)⟩
  · exact fun start ha => ⟨Nat.le_trans ha.1 hwal, fun stream x hx => ha.2 stream x (hbound hx)⟩

/-- The state moves on without touching the floors or what was ensured. -/
theorem Inv.state (h : Inv w) {state : RunState} (hensured : state.ensured = w.state.ensured)
    (hfloor : state.ackFloor = w.state.ackFloor)
    (hhorizon : ∀ horizon, state.snapshotHorizon = some horizon →
      horizon ≤ w.server.wal ∧ w.state.ensured.isSome)
    (hheld : state.snapshot = true → state.snapshotHorizon.isSome)
    (hpending : ∀ pending, state.pending = some pending → ∀ stream ∈ w.tables,
      stream ∉ pending → (w.state.ackFloor.get? stream).isSome)
    (hfresh : Above w (freshStart state w.server)) : Inv { w with state := state } := by
  have hbound {stream : String} {x : Nat} (hx : Bound { w with state := state } stream x) :
      Bound w stream x := by
    cases hx with
    | slot hs hmem => exact .slot hs hmem
    | floor hf => exact .floor (hfloor ▸ hf)
    | snapshot ht hstart => exact .snapshot ht hstart
  constructor
  case sound => exact h.sound
  case point => exact fun outcome point ho hp => h.point outcome point (hensured ▸ ho) hp
  case horizon => exact fun horizon hh => hensured ▸ hhorizon horizon hh
  case held => exact hheld
  case slot => exact fun he => h.slot (hensured ▸ he)
  case floors => exact fun stream lsn hf => hensured ▸ h.floors stream lsn (hfloor ▸ hf)
  case tasks =>
    exact fun t ht => ⟨(h.tasks t ht).sound, (h.tasks t ht).configured, (h.tasks t ht).started,
      fun hp => hensured ▸ (h.tasks t ht).ensured hp,
      fun hp hs => hfloor ▸ (h.tasks t ht).floor hp hs⟩
  case handed => exact fun stream hne => hensured ▸ h.handed stream hne
  case stored => exact h.stored
  case drained => exact fun pending hp stream hs hn => hfloor ▸ hpending pending hp stream hs hn
  case bounds =>
    intro stream x hx
    have hb := h.bounds stream x (hbound hx)
    exact ⟨hb.committed, hb.handed, hb.reads, hfresh.2 stream x (hbound hx)⟩

/-- The slot, once there is one, is remembered; no bound but its own exists yet. -/
theorem Inv.ensure (h : Inv w) (hnone : w.state.ensured = none) {outcome : EnsureOutcome}
    (hslot : w.server.slot.isSome)
    (hpoint : ∀ point, outcome.consistentPoint = some point → point ≤ w.server.wal ∧
      ∀ slot, w.server.slot = some slot → slot.confirmedFlush ≤ point) :
    Inv { w with state := { w.state with ensured := some outcome } } := by
  have hhorizon : w.state.snapshotHorizon = none := by
    cases hh : w.state.snapshotHorizon with
    | none => rfl
    | some horizon => simpa [hnone] using (h.horizon horizon hh).2
  constructor
  case sound => exact h.sound
  case point =>
    rintro _ point ⟨⟩ hp
    exact (hpoint point hp).1
  case horizon => exact fun horizon hh => ⟨(h.horizon horizon hh).1, rfl⟩
  case held => exact h.held
  case slot => exact fun _ => hslot
  case floors => exact fun _ _ _ => rfl
  case tasks =>
    exact fun t ht => ⟨(h.tasks t ht).sound, (h.tasks t ht).configured, (h.tasks t ht).started,
      fun _ => rfl, (h.tasks t ht).floor⟩
  case handed => exact fun stream hne => ⟨(h.handed stream hne).1, (h.handed stream hne).2.1, rfl⟩
  case stored => exact h.stored
  case drained => exact h.drained
  case bounds =>
    intro stream x hx
    cases hx with
    | slot hs hmem =>
      have hb := h.bounds _ _ (.slot hs hmem)
      refine ⟨hb.committed, hb.handed, hb.reads, fun _ => ?_⟩
      change _ ≤ freshStart { w.state with ensured := some outcome } w.server
      unfold freshStart
      simp only [Option.bind_some, hhorizon]
      cases hp : outcome.consistentPoint with
      | none => exact h.sound.flushed _ hs
      | some point => exact (hpoint point hp).2 _ hs
    | floor hf => simpa [hnone] using h.floors _ _ hf
    | snapshot ht hstart =>
      have hposition := Option.isSome_of_eq_some (position_of_start hstart)
      simpa [hnone] using (h.tasks _ ht).ensured hposition

/-- A floor may be set to what lies below everything the stream needs. -/
theorem Inv.floor (h : Inv w) (hensured : w.state.ensured.isSome) {stream : String} {lsn : Nat}
    (hbelow : Below w stream lsn) :
    Inv { w with state := { w.state with ackFloor := w.state.ackFloor.insert stream lsn } } := by
  have hkeep {other : String} (hsome : (w.state.ackFloor.get? other).isSome) :
      ((w.state.ackFloor.insert stream lsn).get? other).isSome := by
    rw [get?_insert]
    split
    · rfl
    · exact hsome
  constructor
  case sound => exact h.sound
  case point => exact h.point
  case horizon => exact h.horizon
  case held => exact h.held
  case slot => exact h.slot
  case floors => exact fun _ _ _ => hensured
  case tasks =>
    exact fun t ht => ⟨(h.tasks t ht).sound, (h.tasks t ht).configured, (h.tasks t ht).started,
      (h.tasks t ht).ensured, fun hp hs => hkeep ((h.tasks t ht).floor hp hs)⟩
  case handed => exact h.handed
  case stored => exact h.stored
  case drained => exact fun pending hp other hs hn => hkeep (h.drained pending hp other hs hn)
  case bounds =>
    intro other x hx
    have hb : Below w other x := by
      cases hx with
      | slot hs hmem => exact h.bounds _ _ (.slot hs hmem)
      | floor hf =>
        rw [show _ = _ from get?_insert w.state.ackFloor stream other lsn] at hf
        by_cases hsame : other = stream
        · subst hsame
          obtain rfl : lsn = x := by simpa using hf
          exact hbelow
        · exact h.bounds _ _ (.floor (by simpa [hsame] using hf))
      | snapshot ht hstart => exact h.bounds _ _ (.snapshot ht hstart)
    exact ⟨hb.committed, hb.handed, hb.reads, hb.fresh⟩

/-- A new slot starts where the log stands: nothing has been read before. -/
theorem Inv.createSlot (h : Inv w) (hnone : w.server.slot = none) (plugin : String) :
    Inv { w with server := w.server.createSlot plugin } := by
  have hensured : w.state.ensured = none := by
    cases he : w.state.ensured with
    | none => rfl
    | some outcome => simpa [hnone] using h.slot (by simp [he])
  have hpoint : freshStart w.state w.server = w.server.wal := by
    have hhorizon : w.state.snapshotHorizon = none := by
      cases hh : w.state.snapshotHorizon with
      | none => rfl
      | some horizon => simpa [hensured] using (h.horizon horizon hh).2
    simp [freshStart, hensured, hhorizon]
  constructor
  case sound =>
    refine ⟨h.sound.logged, h.sound.written, ?_⟩
    rintro slot ⟨⟩
    exact Nat.le_refl _
  case point => exact h.point
  case horizon => exact h.horizon
  case held => exact h.held
  case slot => exact fun _ => rfl
  case floors => exact h.floors
  case tasks =>
    exact fun t ht => ⟨(h.tasks t ht).sound, (h.tasks t ht).configured, (h.tasks t ht).started,
      (h.tasks t ht).ensured, (h.tasks t ht).floor⟩
  case handed => exact h.handed
  case stored => exact fun stream c hc => ⟨(h.stored stream c hc).1, rfl⟩
  case drained => exact h.drained
  case bounds =>
    intro stream x hx
    cases hx with
    | slot hs hmem =>
      obtain rfl := Option.some.inj hs
      refine ⟨fun c hc => ?_, fun c hc => ?_, fun t ht _ _ q hq => ?_, fun _ => ?_⟩
      · simpa [hnone] using (h.stored stream c hc).2
      · simpa [hensured] using (h.handed stream (List.ne_nil_of_mem hc)).2.2
      · simpa [hensured] using (h.tasks t ht).ensured (by simp [hq])
      · exact Nat.le_of_eq hpoint.symm
    | floor hf =>
      have hb := h.bounds _ _ (.floor hf)
      exact ⟨hb.committed, hb.handed, hb.reads, hb.fresh⟩
    | snapshot ht hstart =>
      have hb := h.bounds _ _ (.snapshot ht hstart)
      exact ⟨hb.committed, hb.handed, hb.reads, hb.fresh⟩

/-- The slot may be advanced to what is below every configured stream. -/
theorem Inv.advance (h : Inv w) {upto : Nat}
    (hbelow : ∀ stream ∈ w.tables, ∃ lsn, upto ≤ lsn ∧ Below w stream lsn) :
    Inv { w with server := w.server.advance upto } := by
  have hsome : (w.server.advance upto).slot.isSome = w.server.slot.isSome := by
    simp [Server.advance]
  constructor
  case sound =>
    refine ⟨h.sound.logged, h.sound.written, fun slot hslot => ?_⟩
    obtain ⟨slot', hs', rfl⟩ := Option.map_eq_some_iff.1 hslot
    exact Nat.max_le.2 ⟨h.sound.flushed slot' hs', Nat.min_le_right _ _⟩
  case point => exact h.point
  case horizon => exact h.horizon
  case held => exact h.held
  case slot => exact fun he => hsome ▸ h.slot he
  case floors => exact h.floors
  case tasks =>
    exact fun t ht => ⟨(h.tasks t ht).sound, (h.tasks t ht).configured, (h.tasks t ht).started,
      (h.tasks t ht).ensured, (h.tasks t ht).floor⟩
  case handed => exact h.handed
  case stored => exact fun stream c hc => ⟨(h.stored stream c hc).1, hsome ▸ (h.stored stream c hc).2⟩
  case drained => exact h.drained
  case bounds =>
    intro stream x hx
    have hb : Below w stream x := by
      cases hx with
      | slot hs hmem =>
        obtain ⟨slot', hs', rfl⟩ := Option.map_eq_some_iff.1 hs
        obtain ⟨lsn, hle, hb⟩ := hbelow stream hmem
        have hb' := h.bounds _ _ (.slot hs' hmem)
        have hmax (y : Nat) (h₁ : slot'.confirmedFlush ≤ y) (h₂ : lsn ≤ y) :
            max slot'.confirmedFlush (min upto w.server.wal) ≤ y := by omega
        exact ⟨fun c hc => hmax _ (hb'.committed c hc) (hb.committed c hc),
          fun c hc => hmax _ (hb'.handed c hc) (hb.handed c hc),
          fun t ht hs hl q hq => hmax _ (hb'.reads t ht hs hl q hq) (hb.reads t ht hs hl q hq),
          fun hn => hmax _ (hb'.fresh hn) (hb.fresh hn)⟩
      | floor hf => exact h.bounds _ _ (.floor hf)
      | snapshot ht hstart => exact h.bounds _ _ (.snapshot ht hstart)
    exact ⟨hb.committed, hb.handed, hb.reads, hb.fresh⟩

/-! ## The locked sections -/

variable {P : Section → Prop}

/-- Between calls only the server moves. -/
theorem keeps_call (h : ∀ s works calls, P s →
    P { s with server := s.server.work works, calls := calls }) : Keeps P call := by
  refine triple_bind (Q := fun a s => P s ∧ a = s) (triple_get fun s hs => ⟨hs, rfl⟩) fun s => ?_
  cases hcalls : s.calls with
  | nil => exact triple_throw fun s hs => hs.1
  | cons works calls => exact triple_modify fun s hs => h s works calls hs.1

/-- The invariant, at a section's end or wherever it is cut short. -/
def Good (w : World V) (s : Section) : Prop := Inv (w.leave s)

theorem good_work {s : Section} (h : Good w s) (works : List Work) (calls : List (List Work)) :
    Good w { s with server := s.server.work works, calls := calls } ∧
      ∀ start, Above (w.leave s) start →
        Above (w.leave { s with server := s.server.work works, calls := calls }) start := by
  obtain ⟨hslot, -, hwal, hsound⟩ := work_spec s.server works
  exact Inv.server h _ hwal (hsound h.sound) (by rw [hslot]; rfl)

theorem keeps_command {effect : Server → Server} (hcall : ∀ s works calls, P s →
    P { s with server := s.server.work works, calls := calls })
    (heffect : ∀ s, P s → P { s with server := effect s.server }) : Keeps P (command effect) :=
  (keeps_call hcall).bind fun _ => (keeps_modify heffect).bind fun _ => keeps_call hcall

theorem currentWalLsn_spec (hcall : ∀ s works calls, P s →
    P { s with server := s.server.work works, calls := calls }) :
    Triple P currentWalLsn (fun lsn s => P s ∧ lsn = s.server.wal) P := by
  refine triple_bind (keeps_call hcall) fun _ => ?_
  exact triple_bind (Q := fun a s => P s ∧ a = s) (triple_get fun s hs => ⟨hs, rfl⟩)
    fun s => triple_pure fun s' hs => ⟨hs.1, by rw [hs.2]⟩

theorem initPending_spec (tables : List String) (htables : w.tables ⊆ tables) :
    Keeps (Good w) (initPending tables) := by
  refine keeps_modify fun s hs => Inv.state hs rfl rfl hs.horizon hs.held ?_ hs.above
  rintro pending ⟨⟩ stream hmem hnot
  cases hp : s.state.pending with
  | none =>
    rw [hp] at hnot
    exact absurd (htables hmem) hnot
  | some pending =>
    rw [hp] at hnot
    exact hs.drained pending hp stream hmem hnot

theorem control_spec : Keeps (Good w) control := by
  refine keeps_get.bind fun s => triple_ite (fun _ => keeps_pure ()) fun _ => ?_
  refine (keeps_call (P := Good w) fun s works calls hs =>
    (good_work hs works calls).1).bind fun _ => ?_
  exact keeps_modify fun s hs => Inv.state hs rfl rfl hs.horizon hs.held hs.drained hs.above

theorem ensurePublication_spec (cdc : CdcConfig) (tables : List String) {state : RunState} :
    Keeps (fun s => Good w s ∧ s.state = state) (ensurePublication cdc tables) := by
  have hcall (s : Section) (works : List Work) (calls : List (List Work))
      (hs : Good w s ∧ s.state = state) :
      Good w { s with server := s.server.work works, calls := calls } ∧ s.state = state :=
    ⟨(good_work hs.1 works calls).1, hs.2⟩
  refine (keeps_call hcall).bind fun _ => keeps_get.bind fun s => ?_
  refine triple_ite (fun _ => keeps_pure ()) fun _ => triple_ite (fun _ => keeps_throw _) fun _ => ?_
  exact keeps_command hcall fun s hs =>
    ⟨(Inv.server hs.1 { s.server with publication := some tables } (Nat.le_refl _)
      ⟨hs.1.sound.logged, hs.1.sound.written, hs.1.sound.flushed⟩ rfl).1, hs.2⟩

theorem ensurePublicationCovers_spec (cdc : CdcConfig) (tables : List String) {state : RunState} :
    Keeps (fun s => Good w s ∧ s.state = state) (ensurePublicationCovers cdc tables) := by
  refine (keeps_call fun s works calls hs => ⟨(good_work hs.1 works calls).1, hs.2⟩).bind
    fun _ => keeps_get.bind fun s => ?_
  exact triple_ite (fun _ => keeps_pure ()) fun _ => keeps_throw _

/-- An existing slot is taken as it is; a new one is at its consistent point. -/
def Ensured (outcome : EnsureOutcome) (s : Section) : Prop :=
  s.server.slot.isSome ∧ ∀ point, outcome.consistentPoint = some point → point ≤ s.server.wal ∧
    ∀ slot, s.server.slot = some slot → slot.confirmedFlush ≤ point

theorem ensureSlot_spec (cdc : CdcConfig) {state : RunState} :
    Triple (fun s => Good w s ∧ s.state = state) (ensureSlot cdc)
      (fun outcome s => (Good w s ∧ s.state = state) ∧ Ensured outcome s)
      (fun s => Good w s ∧ s.state = state) := by
  have hcall (s : Section) (works : List Work) (calls : List (List Work))
      (hs : Good w s ∧ s.state = state) :
      Good w { s with server := s.server.work works, calls := calls } ∧ s.state = state :=
    ⟨(good_work hs.1 works calls).1, hs.2⟩
  refine triple_bind (keeps_call hcall) fun _ => ?_
  refine triple_bind (Q := fun a s => (Good w s ∧ s.state = state) ∧ a = s)
    (triple_get fun s hs => ⟨hs, rfl⟩) fun s => ?_
  cases hslot : s.server.slot with
  | some slot =>
    dsimp only
    cases hrejected : slotRejection cdc slot with
    | some error => exact triple_throw fun s hs => hs.1
    | none =>
      refine triple_pure fun s' hs => ⟨hs.1, ?_, by simp⟩
      rw [← hs.2, hslot]
      rfl
  | none =>
    refine triple_ite (fun _ => triple_throw fun s hs => hs.1) fun _ => ?_
    -- the slot is still missing when the command arrives
    have hmissing : Keeps (fun s' => (Good w s' ∧ s'.state = state) ∧ s'.server.slot = none)
        call :=
      keeps_call fun s works calls hs =>
        ⟨hcall s works calls hs.1, by rw [← hs.2]; exact (work_spec s.server works).1⟩
    refine triple_bind (triple_weaken hmissing (fun s' hs => ⟨hs.1, by rw [← hs.2, hslot]⟩)
      (fun _ _ hs => hs) fun _ hs => hs.1) fun _ => ?_
    refine triple_bind (Q := fun a s' =>
      ((Good w s' ∧ s'.state = state) ∧ s'.server.slot = none) ∧ a = s')
      (triple_get fun s hs => ⟨hs, rfl⟩) fun before => ?_
    refine triple_bind (Q := fun _ s' => (Good w s' ∧ s'.state = state) ∧
      Ensured ⟨true, some before.server.wal⟩ s') (triple_modify ?_) fun _ => ?_
    · rintro s' ⟨⟨⟨hgood, hstate⟩, hnone⟩, rfl⟩
      refine ⟨⟨Inv.createSlot hgood hnone "pgoutput", hstate⟩, rfl, ?_⟩
      rintro point ⟨⟩
      refine ⟨Nat.le_refl _, ?_⟩
      rintro slot ⟨⟩
      exact Nat.le_refl _
    · have hcreated : Keeps (fun s' => (Good w s' ∧ s'.state = state) ∧
          Ensured ⟨true, some before.server.wal⟩ s') call := by
        refine keeps_call fun s' works calls hs => ⟨hcall s' works calls hs.1, ?_⟩
        obtain ⟨hsame, -, hwal, -⟩ := work_spec s'.server works
        refine ⟨hsame ▸ hs.2.1, fun point hp => ?_⟩
        exact ⟨Nat.le_trans (hs.2.2 point hp).1 hwal,
          fun slot hslot' => (hs.2.2 point hp).2 slot (hsame ▸ hslot')⟩
      exact triple_bind (hcreated.cut fun _ hs => hs.1) fun _ => triple_pure fun _ hs => hs

/-- Ensured once a run: afterwards the state has the outcome. -/
theorem ensured_spec (cdc : CdcConfig) (tables : List String) :
    Triple (Good w) (ensured cdc tables)
      (fun outcome s => Good w s ∧ s.state.ensured = some outcome) (Good w) := by
  refine triple_bind (Q := fun a s => Good w s ∧ a = s) (triple_get fun s hs => ⟨hs, rfl⟩)
    fun s => ?_
  cases hensured : s.state.ensured with
  | some outcome => exact triple_pure fun s' hs => ⟨hs.1, by rw [← hs.2, hensured]⟩
  | none =>
    have hensure : Triple (fun s' => Good w s' ∧ s'.state = s.state) (ensure cdc tables)
        (fun outcome s' => (Good w s' ∧ s'.state = s.state) ∧ Ensured outcome s')
        (fun s' => Good w s' ∧ s'.state = s.state) :=
      triple_bind (ensurePublication_spec cdc tables) fun _ =>
        triple_bind (ensurePublicationCovers_spec cdc tables) fun _ => ensureSlot_spec cdc
    refine triple_bind (Q := fun outcome s' => (Good w s' ∧ s'.state = s.state) ∧
      Ensured outcome s') (triple_weaken hensure (fun s' hs => ⟨hs.1, hs.2 ▸ rfl⟩)
        (fun _ _ hs => hs) fun _ hs => hs.1) fun outcome => ?_
    refine triple_bind (Q := fun _ s' => Good w s' ∧ s'.state.ensured = some outcome)
      (triple_modify fun s' hs => ⟨?_, rfl⟩) fun _ => triple_pure fun _ hs => hs
    exact Inv.ensure hs.1.1 (by change s'.state.ensured = none; rw [hs.1.2, hensured])
      hs.2.1 hs.2.2

/-- Kept from the lifecycle checks to the end of the section. -/
def Ready (w : World V) (outcome : EnsureOutcome) (s : Section) : Prop :=
  Good w s ∧ s.state.ensured = some outcome

theorem ready_work {outcome : EnsureOutcome} (s : Section) (works : List Work)
    (calls : List (List Work)) (h : Ready w outcome s) :
    Ready w outcome { s with server := s.server.work works, calls := calls } :=
  ⟨(good_work h.1 works calls).1, h.2⟩

/-- A start that is above every bound, and will be the run's fresh start once the
snapshot is open. -/
def Picked (w : World V) (outcome : EnsureOutcome) (start : Nat) (s : Section) : Prop :=
  Ready w outcome s ∧ Above (w.leave s) start ∧
    ((∀ server, freshStart s.state server = start) ∨
      outcome.consistentPoint = none ∧ s.state.snapshotHorizon = none)

theorem picked_work {outcome : EnsureOutcome} {start : Nat} (s : Section) (works : List Work)
    (calls : List (List Work)) (h : Picked w outcome start s) :
    Picked w outcome start { s with server := s.server.work works, calls := calls } :=
  ⟨ready_work s works calls h.1, (good_work h.1.1 works calls).2 start h.2.1, h.2.2⟩

theorem snapshotStart_spec (outcome : EnsureOutcome) :
    Triple (Ready w outcome) (snapshotStart outcome) (fun start => Picked w outcome start)
      (Good w) := by
  refine triple_bind (Q := fun a s => Ready w outcome s ∧ a = s) (triple_get fun s hs => ⟨hs, rfl⟩)
    fun s => ?_
  have hstart {start : Nat} (hs : Ready w outcome s)
      (hfresh : ∀ server, freshStart s.state server = start) : Picked w outcome start s :=
    ⟨hs, hfresh s.server ▸ hs.1.above, .inl hfresh⟩
  cases hpoint : outcome.consistentPoint with
  | some point =>
    refine triple_pure fun s' hs => ?_
    obtain ⟨hs, rfl⟩ := hs
    exact hstart hs fun server => by simp [freshStart, hs.2, hpoint]
  | none =>
    cases hhorizon : s.state.snapshotHorizon with
    | some horizon =>
      refine triple_pure fun s' hs => ?_
      obtain ⟨hs, rfl⟩ := hs
      exact hstart hs fun server => by simp [freshStart, hs.2, hpoint, hhorizon]
    | none =>
      refine triple_weaken (currentWalLsn_spec (P := fun s' =>
          Ready w outcome s' ∧ s'.state.snapshotHorizon = none)
        fun s works calls hs => ⟨ready_work s works calls hs.1, hs.2⟩)
        (fun s' hs => ⟨hs.1, hs.2 ▸ hhorizon⟩) ?_ fun _ hs => hs.1.1
      rintro start s' ⟨⟨hs, hnone⟩, rfl⟩
      refine ⟨hs, ?_, .inr ⟨hpoint, hnone⟩⟩
      have hwal : freshStart s'.state s'.server = s'.server.wal := by
        simp [freshStart, hs.2, hpoint, hnone]
      exact hwal ▸ hs.1.above

/-- With the snapshot open the start is the run's fresh start. -/
theorem snapshot_spec (outcome : EnsureOutcome) (start : Nat) :
    Triple (Picked w outcome start) (snapshot start)
      (fun _ s => Ready w outcome s ∧ freshStart s.state s.server = start) (Good w) := by
  refine triple_bind (Q := fun a s => Picked w outcome start s ∧ a = s)
    (triple_get fun s hs => ⟨hs, rfl⟩) fun s => ?_
  refine triple_ite (fun hopen => triple_pure fun s' hs => ⟨hs.1.1, ?_⟩) fun _ => ?_
  · obtain ⟨⟨hready, -, hpicked⟩, rfl⟩ := hs
    rcases hpicked with hfresh | ⟨-, hnone⟩
    · exact hfresh s.server
    · have hheld := hready.1.held hopen
      rw [show (w.leave s).state.snapshotHorizon = none from hnone] at hheld
      cases hheld
  · have hcalls : Keeps (Picked w outcome start) call := keeps_call picked_work
    refine triple_bind (triple_weaken hcalls (fun _ hs => hs.1) (fun _ _ hs => hs)
      fun _ hs => hs.1.1) fun _ => triple_bind (hcalls.cut fun _ hs => hs.1.1) fun _ => ?_
    refine triple_modify fun s' hs => ?_
    obtain ⟨hready, habove, hpicked⟩ := hs
    have hfresh : freshStart { s'.state with snapshot := true, snapshotHorizon := some start }
        s'.server = start := by
      rcases hpicked with hfresh | ⟨hpoint, -⟩
      · have hs' := hfresh s'.server
        simp only [freshStart, hready.2, Option.bind_some] at hs' ⊢
        cases hp : outcome.consistentPoint with
        | none => rfl
        | some point => simpa [hp] using hs'
      · simp [freshStart, hready.2, hpoint]
    refine ⟨⟨Inv.state hready.1 rfl rfl ?_ (fun _ => rfl) hready.1.drained ?_, hready.2⟩, hfresh⟩
    · rintro horizon ⟨⟩
      exact ⟨habove.1, by simp [World.leave, hready.2]⟩
    · change Above (w.leave s') (freshStart _ s'.server)
      rw [hfresh]
      exact habove

theorem checkCovered_spec {I : Section → Prop} (cdc : CdcConfig) (stream : String)
    (outcome : EnsureOutcome) (since : Nat) (h : ∀ s, P s → I s) :
    Triple P (checkCovered cdc stream outcome since) (fun _ => P) I := by
  have hdone : Triple P (pure () : Locked Unit) (fun _ => P) I := triple_pure fun _ hs => hs
  unfold checkCovered
  split
  · exact triple_ite (fun _ => triple_throw h) fun _ => hdone
  · exact hdone

theorem pinTarget_spec (outcome : EnsureOutcome) :
    Triple (Ready w outcome) pinTarget (fun _ => Ready w outcome) (Good w) := by
  refine triple_bind (Q := fun a s => Ready w outcome s ∧ a = s) (triple_get fun s hs => ⟨hs, rfl⟩)
    fun s => ?_
  cases s.state.target with
  | some target => exact triple_pure fun s' hs => hs.1
  | none =>
    refine triple_bind (triple_weaken (currentWalLsn_spec ready_work) (fun _ hs => hs.1)
      (fun _ _ hs => hs.1) fun _ hs => hs.1) fun target => ?_
    refine triple_bind (Q := fun _ => Ready w outcome) (triple_modify fun s hs => ?_)
      fun _ => triple_pure fun _ hs => hs
    exact ⟨Inv.state hs.1 rfl rfl hs.1.horizon hs.1.held hs.1.drained hs.1.above, hs.2⟩

/-- What the section leaves a read to do. -/
def Begun (w : World V) (stream : String) (progress : Progress V) (s : Section) : Prop :=
  Good w s ∧ s.state.ensured.isSome ∧
    match w.committed stream with
    | none => progress = .snapshotting (freshStart s.state s.server)
    | some since => (∃ target, progress = .changing since target false) ∧
        (s.state.ackFloor.get? stream).isSome

/-- The stored cursor, for a stream with nothing else outstanding. -/
theorem below_stored {stream : String} {since : Nat} (hstored : w.committed stream = some since)
    (hhanded : w.handed stream = []) (hidle : ∀ t ∈ w.tasks, t.stream = stream → t.live = false) :
    Below w stream since where
  committed := fun c hc => by
    rw [hstored, Option.some.injEq] at hc
    exact Nat.le_of_eq hc
  handed := fun c hc => by simp [hhanded] at hc
  reads := fun t ht hs hlive => by simp [hidle t ht hs] at hlive
  fresh := fun hnone => by simp [hstored] at hnone

/-- A read of a stream with nothing else outstanding can begin. -/
theorem beginRead_spec (cdc : CdcConfig) {stream : String} (hhanded : w.handed stream = [])
    (hidle : ∀ t ∈ w.tasks, t.stream = stream → t.live = false) :
    Triple (Good w) (beginRead cdc w.tables stream (w.committed stream))
      (Begun w stream) (Good w) := by
  refine triple_bind (initPending_spec w.tables fun _ h => h) fun _ => ?_
  refine triple_bind control_spec fun _ => triple_bind (ensured_spec cdc w.tables) fun outcome => ?_
  cases hstored : w.committed stream with
  | none =>
    refine triple_bind (snapshotStart_spec outcome) fun start => ?_
    refine triple_bind (snapshot_spec outcome start) fun _ => triple_pure fun s hs => ?_
    refine ⟨hs.1.1, by rw [hs.1.2]; rfl, ?_⟩
    rw [hstored]
    exact congrArg Progress.snapshotting hs.2.symm
  | some since =>
    refine triple_bind (checkCovered_spec cdc stream outcome since fun _ hs => hs.1) fun _ => ?_
    refine triple_bind (pinTarget_spec outcome) fun target => ?_
    refine triple_bind (Q := fun _ s => Begun w stream (.changing since target false) s)
      (triple_modify fun s hs => ?_) fun _ => triple_pure fun _ hs => hs
    have hsome : s.state.ensured.isSome := by rw [hs.2]; rfl
    refine ⟨Inv.floor hs.1 hsome (below_stored hstored hhanded hidle), hsome, ?_⟩
    rw [hstored]
    refine ⟨⟨target, rfl⟩, ?_⟩
    change ((s.state.ackFloor.insert stream since).get? stream).isSome
    rw [get?_insert, if_pos rfl]
    rfl

/-- Once every configured stream has a floor the least of them may be acknowledged. -/
theorem acknowledge_spec (cdc : CdcConfig) (state : RunState) (hdrained : state.pending = some []) :
    Keeps (fun s => Good w s ∧ s.state = state) (acknowledge cdc state.ackFloor.min?) := by
  have hcall (s : Section) (works : List Work) (calls : List (List Work))
      (hs : Good w s ∧ s.state = state) :
      Good w { s with server := s.server.work works, calls := calls } ∧ s.state = state :=
    ⟨(good_work hs.1 works calls).1, hs.2⟩
  unfold acknowledge
  split
  · next floor hmode hfloor =>
    have hadvance (s : Section) (hs : Good w s ∧ s.state = state) :
        Good w { s with server := s.server.advance floor } ∧ s.state = state := by
      refine ⟨Inv.advance hs.1 fun stream hmem => ?_, hs.2⟩
      have hpending : (w.leave s).state.pending = some [] := by
        change s.state.pending = some []
        rw [hs.2, hdrained]
      obtain ⟨lsn, hlsn⟩ := Option.isSome_iff_exists.1
        (hs.1.drained [] hpending stream hmem (by simp))
      have hget : state.ackFloor.get? stream = some lsn := by
        rw [← hs.2]
        exact hlsn
      exact ⟨lsn, min?_le hfloor hget, hs.1.bounds _ _ (.floor hlsn)⟩
    refine Keeps.bind ?_ fun confirmed => ?_
    · refine (keeps_call hcall).bind fun _ => keeps_get.bind fun s => ?_
      cases s.server.slot with
      | none => exact keeps_throw _
      | some slot => exact keeps_pure _
    · exact triple_ite (fun _ => keeps_command hcall hadvance) fun _ => keeps_pure ()
  · exact keeps_pure ()

/-- Floors are final in this section: those it found and the stream's own. -/
def Floored (w : World V) (stream : String) (s : Section) : Prop :=
  Good w s ∧ (s.state.ackFloor.get? stream).isSome

theorem finishStream_spec (stream : String) (cursor : Nat) :
    Keeps (Floored w stream) (finishStream stream cursor) := by
  refine keeps_modify fun s hs => ⟨Inv.state hs.1 rfl rfl hs.1.horizon hs.1.held ?_ hs.1.above, hs.2⟩
  intro pending hpending other hmem hnot
  obtain ⟨before, hbefore, rfl⟩ := Option.map_eq_some_iff.1 hpending
  by_cases hsame : other = stream
  · exact hsame ▸ hs.2
  · refine hs.1.drained before hbefore other hmem fun hin => hnot ?_
    exact List.mem_filter.2 ⟨hin, by simpa using hsame⟩

theorem finishRun_spec (cdc : CdcConfig) (stream : String) :
    Keeps (Floored w stream) (finishRun cdc) := by
  refine triple_bind (Q := fun a s => Floored w stream s ∧ a = s) (triple_get fun s hs => ⟨hs, rfl⟩)
    fun s => ?_
  refine triple_ite (fun hdrained => ?_) fun _ => triple_pure fun _ hs => hs.1
  have hclose : Triple (fun s' => Floored w stream s' ∧ s = s')
      (modify fun s => { s with state := s.state.closeSnapshot } : Locked Unit)
      (fun _ s' => Floored w stream s' ∧ s'.state = s.state.closeSnapshot)
      (Floored w stream) := by
    refine triple_modify fun s' hs => ?_
    obtain ⟨hs, rfl⟩ := hs
    exact ⟨⟨Inv.state hs.1 rfl rfl hs.1.horizon (fun hopen => by cases hopen) hs.1.drained
      hs.1.above, hs.2⟩, rfl⟩
  refine triple_bind hclose fun _ => ?_
  by_cases hfloor : (s.state.ackFloor.get? stream).isSome
  · have hkeep {s' : Section} (hs : Good w s' ∧ s'.state = s.state.closeSnapshot) :
        Floored w stream s' := ⟨hs.1, by rw [hs.2]; exact hfloor⟩
    refine triple_bind (triple_weaken (acknowledge_spec (w := w) cdc
      s.state.closeSnapshot hdrained) (fun s' hs => ⟨hs.1.1, hs.2⟩)
        (fun _ _ hs => hs) fun _ hs => hkeep hs) fun _ => ?_
    refine triple_bind (triple_weaken (currentWalLsn_spec (P := fun s' =>
      Good w s' ∧ s'.state = s.state.closeSnapshot) fun s' works calls hs =>
        ⟨(good_work hs.1 works calls).1, hs.2⟩) (fun _ hs => hs) (fun _ _ hs => hs.1)
          fun _ hs => hkeep hs) fun _ => triple_pure fun _ hs => hkeep hs
  · exact fun s' hs => absurd (by have := hs.1.2; rw [hs.2] at this; exact this) hfloor

theorem completePass_spec (cdc : CdcConfig) (stream : String) (cursor : Nat) :
    Keeps (Floored w stream) (completePass cdc stream cursor) :=
  (finishStream_spec stream cursor).bind fun _ => finishRun_spec cdc stream

/-- A snapshot's start becomes the floor of its stream. -/
theorem completeSnapshot_spec (cdc : CdcConfig) {t : Task V} {start : Nat} (ht : t ∈ w.tasks)
    (hstart : t.progress.start = some start) :
    Triple (Good w) (completeSnapshot cdc t.stream start) (fun _ => Floored w t.stream)
      (Good w) := by
  refine triple_bind (Q := fun _ => Floored w t.stream) (triple_modify fun s hs => ?_) fun _ =>
    triple_weaken (completePass_spec cdc t.stream start) (fun _ hs => hs) (fun _ _ hs => hs)
      fun _ hs => hs.1
  have hensured : s.state.ensured.isSome :=
    (hs.tasks t ht).ensured (Option.isSome_of_eq_some (position_of_start hstart))
  refine ⟨Inv.floor hs hensured (hs.bounds _ _ (.snapshot ht hstart)), ?_⟩
  change ((s.state.ackFloor.insert t.stream start).get? t.stream).isSome
  rw [get?_insert, if_pos rfl]
  rfl

end Cdc
