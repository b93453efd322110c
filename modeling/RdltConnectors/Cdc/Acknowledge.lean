import Mathlib
import RdltConnectors.Cdc.Floor

/-!
# Acknowledgement safety

Every step of the system keeps the slot, the floors and the snapshots under way
below what their streams need, as long as no run leaves out a table that has a
cursor and the slot is not dropped. With a fixed table set that is every run:
the slot never passes a configured stream's cursor, and a stream without one
snapshots at or past the slot.
-/
namespace Cdc

open PgTypes Interrupted

variable {V : Type} {w : World V}

/-! ## Steps of one read -/

theorem mem_set {task : Nat} {t t' : Task V} {progress : Progress V}
    (h : t' ∈ (w.set task t progress).tasks) :
    t' ∈ w.tasks ∨ t' = { t with progress := progress } := List.mem_or_eq_of_mem_set h

/-- A read may move forward, give up its position, or take a new phase over. -/
theorem Inv.set (h : Inv w) {task : Nat} {t : Task V} (ht : t ∈ w.tasks) {progress : Progress V}
    (hsound : progress.Sound)
    (hmove : ∀ q, progress.position = some q → ∃ q', t.progress.position = some q' ∧ q' ≤ q)
    (hstart : ∀ start, progress.start = some start → t.progress.start = some start)
    (hfloor : progress.position.isSome → progress.start = none →
      (w.state.ackFloor.get? t.stream).isSome) : Inv (w.set task t progress) := by
  have htask := h.tasks t ht
  have hbound {stream : String} {x : Nat} (hx : Bound (w.set task t progress) stream x) :
      Bound w stream x := by
    cases hx with
    | slot hs hmem => exact .slot hs hmem
    | floor hf => exact .floor hf
    | snapshot ht' hs =>
      rcases mem_set ht' with hold | rfl
      · exact .snapshot hold hs
      · exact Bound.snapshot (t := t) ht (hstart _ hs)
  constructor
  case sound => exact h.sound
  case point => exact h.point
  case horizon => exact h.horizon
  case held => exact h.held
  case slot => exact h.slot
  case floors => exact h.floors
  case tasks =>
    intro t' ht'
    rcases mem_set ht' with hold | rfl
    · have hok := h.tasks t' hold
      exact ⟨hok.sound, hok.configured, hok.started, hok.ensured, hok.floor⟩
    · refine ⟨hsound, htask.configured, htask.started, fun hp => ?_, hfloor⟩
      obtain ⟨q, hq⟩ := Option.isSome_iff_exists.1 hp
      obtain ⟨q', hq', -⟩ := hmove q hq
      exact htask.ensured (Option.isSome_of_eq_some hq')
  case handed => exact h.handed
  case stored => exact h.stored
  case drained => exact h.drained
  case bounds =>
    intro stream x hx
    have hb := h.bounds stream x (hbound hx)
    refine ⟨hb.committed, hb.handed, fun t' ht' hs hlive q hq => ?_, hb.fresh⟩
    rcases mem_set ht' with hold | rfl
    · exact hb.reads t' hold hs hlive q hq
    · obtain ⟨q', hq', hle⟩ := hmove q hq
      exact Nat.le_trans (hb.reads t ht hs hlive q' hq') hle

theorem Inv.fail (h : Inv w) {task : Nat} {t : Task V} (ht : t ∈ w.tasks) :
    Inv (w.set task t .failed) :=
  h.set ht trivial (by simp [Progress.position]) (by simp [Progress.start])
    (by simp [Progress.position])

theorem Inv.erase (h : Inv w) (task : Nat) : Inv (w.erase task) := by
  have hmem {t : Task V} (ht : t ∈ (w.erase task).tasks) : t ∈ w.tasks :=
    List.mem_of_mem_eraseIdx ht
  constructor
  case sound => exact h.sound
  case point => exact h.point
  case horizon => exact h.horizon
  case held => exact h.held
  case slot => exact h.slot
  case floors => exact h.floors
  case tasks =>
    intro t ht
    have hok := h.tasks t (hmem ht)
    exact ⟨hok.sound, hok.configured, hok.started, hok.ensured, hok.floor⟩
  case handed => exact h.handed
  case stored => exact h.stored
  case drained => exact h.drained
  case bounds =>
    intro stream x hx
    have hb : Below w stream x := by
      cases hx with
      | slot hs hin => exact h.bounds _ _ (.slot hs hin)
      | floor hf => exact h.bounds _ _ (.floor hf)
      | snapshot ht hs => exact h.bounds _ _ (.snapshot (hmem ht) hs)
    exact ⟨hb.committed, hb.handed, fun t ht => hb.reads t (hmem ht), hb.fresh⟩

@[simp] theorem hand_tasks (t : Task V) (lsn : Nat) : (w.hand t lsn).tasks = w.tasks := by
  unfold World.hand
  split <;> rfl

@[simp] theorem hand_server (t : Task V) (lsn : Nat) : (w.hand t lsn).server = w.server := by
  unfold World.hand
  split <;> rfl

@[simp] theorem hand_state (t : Task V) (lsn : Nat) : (w.hand t lsn).state = w.state := by
  unfold World.hand
  split <;> rfl

/-- A checkpoint at or past the read's position may be handed over. -/
theorem Inv.hand (h : Inv w) {t : Task V} (ht : t ∈ w.tasks) {q lsn : Nat}
    (hposition : t.progress.position = some q) (hle : q ≤ lsn) : Inv (w.hand t lsn) := by
  unfold World.hand
  split
  · next hlive =>
    have htask := h.tasks t ht
    constructor
    case sound => exact h.sound
    case point => exact h.point
    case horizon => exact h.horizon
    case held => exact h.held
    case slot => exact h.slot
    case floors => exact h.floors
    case tasks =>
      intro t' ht'
      have hok := h.tasks t' ht'
      exact ⟨hok.sound, hok.configured, hok.started, hok.ensured, hok.floor⟩
    case handed =>
      intro stream hne
      by_cases hsame : stream = t.stream
      · subst hsame
        exact ⟨htask.started hlive, htask.configured,
          htask.ensured (Option.isSome_of_eq_some hposition)⟩
      · exact h.handed stream (by simpa [Function.update, hsame] using hne)
    case stored => exact h.stored
    case drained => exact h.drained
    case bounds =>
      intro stream x hx
      have hb : Below w stream x := by
        cases hx with
        | slot hs hin => exact h.bounds _ _ (.slot hs hin)
        | floor hf => exact h.bounds _ _ (.floor hf)
        | snapshot ht' hs => exact h.bounds _ _ (.snapshot ht' hs)
      refine ⟨hb.committed, fun c hc => ?_, hb.reads, hb.fresh⟩
      by_cases hsame : stream = t.stream
      · subst hsame
        rcases List.mem_cons.1 (by simpa using hc) with rfl | hc
        · exact Nat.le_trans (hb.reads t ht rfl hlive q hposition) hle
        · exact hb.handed c hc
      · exact hb.handed c (by simpa [Function.update, hsame] using hc)
  · exact h

theorem Inv.dropConnections (h : Inv w) :
    Inv { w with state := w.state.dropConnections } := by
  refine Inv.state h rfl rfl (by simp [RunState.dropConnections])
    (by simp [RunState.dropConnections]) h.drained ?_
  have hle : freshStart w.state w.server ≤ freshStart w.state.dropConnections w.server := by
    have hwal := h.freshStart_le
    unfold freshStart at hwal ⊢
    cases hpoint : w.state.ensured.bind EnsureOutcome.consistentPoint with
    | some point => simp [RunState.dropConnections, hpoint]
    | none => simpa [RunState.dropConnections, hpoint] using hwal
  have hupper : freshStart w.state.dropConnections w.server ≤ w.server.wal := by
    have hwal := h.freshStart_le
    unfold freshStart at hwal ⊢
    cases hpoint : w.state.ensured.bind EnsureOutcome.consistentPoint with
    | some point => simpa [RunState.dropConnections, hpoint] using hwal
    | none => simp [RunState.dropConnections, hpoint]
  exact ⟨hupper, fun stream x hx hnone => Nat.le_trans (h.above.2 stream x hx hnone) hle⟩

/-- A pass hands over no checkpoint before its start. -/
theorem passAt_checkpoints {config : Config V} {server : Server} {stream : String}
    {since target : Nat} {pass : Pass V}
    (h : passAt config server stream since target = some pass) :
    ∀ c ∈ checkpoints pass.emits, since ≤ c := by
  obtain ⟨messages, hpeek, rfl⟩ := Option.map_eq_some_iff.1 h
  obtain ⟨slot, -, rfl⟩ := Option.map_eq_some_iff.1 hpeek
  intro c hc
  cases hp : Plan.new (config.context stream) stream with
  | ok p => exact session_checkpoints hp hc
  | error e =>
    have hnew : Apply.new (config.context stream) stream since = .error e := by
      rw [Apply.new, hp]
      rfl
    rw [changePass, hnew] at hc
    simp [checkpoints] at hc

/-- After its section a read is over, or it tails from its cursor. -/
theorem completed_inv (cdc : CdcConfig) {task : Nat} {t : Task V} {q cursor : Nat} {s : Section}
    {outcome : Except SourceError (Option Nat)} (h : Good w s) (ht : t ∈ w.tasks)
    (hposition : t.progress.position = some q) (hle : q ≤ cursor)
    (hfloor : ∀ lag, outcome = .ok lag → (s.state.ackFloor.get? t.stream).isSome) :
    Inv ((w.leave s).completed cdc task t cursor outcome) := by
  unfold World.completed
  split
  · exact Inv.fail h ht
  · next lag =>
    split
    · refine Inv.set h ht trivial ?_ (by simp [Progress.start]) fun _ _ => hfloor lag rfl
      rintro q' ⟨⟩
      exact ⟨q, hposition, hle⟩
    · exact Inv.erase h task

theorem Inv.complete (h : Inv w) (config : Config V) {task : Nat} {t : Task V} (ht : t ∈ w.tasks)
    (calls : List (List Work)) (lost : SourceError) :
    Inv (w.stepTask config task t (.complete task calls lost)) := by
  have hgood : Good w (w.enter calls lost) := h
  cases hprogress : t.progress with
  | snapshotted start =>
    have hrun := completeSnapshot_spec config.cdc ht (by rw [hprogress]; rfl) _ hgood
    simp only [World.stepTask, hprogress]
    cases hexec : exec (completeSnapshot config.cdc t.stream start) (w.enter calls lost) with
    | mk outcome s =>
      rw [hexec] at hrun
      cases outcome with
      | ok lag =>
        exact completed_inv config.cdc hrun.1 ht (by rw [hprogress]; rfl) (Nat.le_refl start)
          fun _ _ => hrun.2
      | error e => exact Inv.fail hrun ht
  | passed cursor =>
    have hfloored : Floored w t.stream (w.enter calls lost) :=
      ⟨hgood, (h.tasks t ht).floor (by rw [hprogress]; rfl) (by rw [hprogress]; rfl)⟩
    have hrun := completePass_spec config.cdc t.stream cursor _ hfloored
    simp only [World.stepTask, hprogress]
    cases hexec : exec (completePass config.cdc t.stream cursor) (w.enter calls lost) with
    | mk outcome s =>
      rw [hexec] at hrun
      cases outcome with
      | ok lag =>
        exact completed_inv config.cdc hrun.1 ht (by rw [hprogress]; rfl) (Nat.le_refl cursor)
          fun _ _ => hrun.2
      | error e => exact Inv.fail hrun.1 ht
  | _ => simpa only [World.stepTask, hprogress] using h

/-- A read that has its floor may go on from its position. -/
theorem Inv.follow (h : Inv w) {task : Nat} {t : Task V} (ht : t ∈ w.tasks) {q q' : Nat}
    {progress : Progress V} (hposition : t.progress.position = some q)
    (hstart : t.progress.start = none) (hsound : progress.Sound)
    (hposition' : progress.position = some q') (hle : q ≤ q') (hstart' : progress.start = none) :
    Inv (w.set task t progress) := by
  refine h.set ht hsound ?_ (by simp [hstart']) fun _ _ =>
    (h.tasks t ht).floor (Option.isSome_of_eq_some hposition) hstart
  intro q'' hq''
  rw [hposition', Option.some.injEq] at hq''
  exact ⟨q, hposition, hq'' ▸ hle⟩

theorem position_ended (tail : Bool) (cursor : Nat) :
    (ended tail cursor : Progress V).position = some cursor ∧
      (ended tail cursor : Progress V).start = none ∧ (ended tail cursor : Progress V).Sound := by
  cases tail <;> exact ⟨rfl, rfl, trivial⟩

theorem Inv.peek (h : Inv w) (config : Config V) {task : Nat} {t : Task V} (ht : t ∈ w.tasks)
    {since target : Nat} {tail : Bool} (hprogress : t.progress = .changing since target tail) :
    Inv (w.peek config task t since target tail) := by
  have hposition : t.progress.position = some since := by rw [hprogress]; rfl
  have hstart : t.progress.start = none := by rw [hprogress]; rfl
  unfold World.peek
  split
  · next hlt =>
    split
    · exact h.fail ht
    · next pass hpass =>
      exact h.follow ht hposition hstart
        ⟨Nat.le_max_right target since, passAt_checkpoints hpass⟩ rfl (Nat.le_refl since) rfl
  · obtain ⟨hposition', hstart', hsound⟩ := position_ended (V := V) tail (max target since)
    exact h.follow ht hposition hstart hsound hposition' (Nat.le_max_right target since) hstart'

theorem Inv.deliver (h : Inv w) {task : Nat} {t : Task V} (ht : t ∈ w.tasks) {since cursor : Nat}
    {emits : List (Emit V)} {result : Except SourceError Unit} {tail : Bool}
    (hprogress : t.progress = .delivering since emits result cursor tail) :
    Inv (w.deliver task t since emits result cursor tail) := by
  have hposition : t.progress.position = some since := by rw [hprogress]; rfl
  have hstart : t.progress.start = none := by rw [hprogress]; rfl
  have hsound := (h.tasks t ht).sound
  rw [hprogress] at hsound
  obtain ⟨hcursor, hemits⟩ := hsound
  cases emits with
  | nil =>
    cases result with
    | ok u =>
      obtain ⟨hposition', hstart', hsound'⟩ := position_ended (V := V) tail cursor
      exact h.follow ht hposition hstart hsound' hposition' hcursor hstart'
    | error e => exact h.fail ht
  | cons emit emits =>
    cases emit with
    | batch b =>
      exact h.follow ht hposition hstart ⟨hcursor, hemits⟩ rfl (Nat.le_refl since) rfl
    | checkpoint lsn =>
      have hle : since ≤ lsn := hemits lsn (by simp [checkpoints])
      have hrest : ∀ c ∈ checkpoints emits, since ≤ c := fun c hc =>
        hemits c (mem_checkpoints.2 (List.mem_cons_of_mem _ (mem_checkpoints.1 hc)))
      refine (h.hand ht hposition hle).follow (t := t) ?_ hposition hstart ⟨hcursor, hrest⟩ rfl
        (Nat.le_refl since) rfl
      rw [hand_tasks]
      exact ht

theorem Inv.stepTask (h : Inv w) (config : Config V) {task : Nat} {t : Task V} (ht : t ∈ w.tasks)
    (label : Label) : Inv (w.stepTask config task t label) := by
  cases label with
  | copy =>
    cases hprogress : t.progress with
    | snapshotting start =>
      simp only [World.stepTask, hprogress]
      refine (h.hand ht (q := start) (by rw [hprogress]; rfl) (Nat.le_refl start)).set (t := t)
        (by rw [hand_tasks]; exact ht) trivial ?_ ?_ (by simp [Progress.start])
      · rintro q ⟨⟩
        exact ⟨start, by rw [hprogress]; rfl, Nat.le_refl start⟩
      · rintro s ⟨⟩
        rw [hprogress]
        rfl
    | _ => simpa only [World.stepTask, hprogress] using h
  | peek =>
    cases hprogress : t.progress with
    | changing since target tail =>
      simp only [World.stepTask, hprogress]
      exact h.peek config ht hprogress
    | _ => simpa only [World.stepTask, hprogress] using h
  | deliver =>
    cases hprogress : t.progress with
    | delivering since emits result cursor tail =>
      simp only [World.stepTask, hprogress]
      exact h.deliver ht hprogress
    | _ => simpa only [World.stepTask, hprogress] using h
  | complete => exact h.complete config ht _ _
  | tail =>
    cases hprogress : t.progress with
    | tailing cursor =>
      simp only [World.stepTask, hprogress]
      refine (h.hand ht (q := cursor) (by rw [hprogress]; rfl) (Nat.le_refl cursor)).follow (t := t)
        (by rw [hand_tasks]; exact ht) (q := cursor) (by rw [hprogress]; rfl)
        (by rw [hprogress]; rfl) trivial rfl (Nat.le_refl cursor) rfl
    | _ => simpa only [World.stepTask, hprogress] using h
  | fail => exact h.fail ht
  | dropConnections =>
    cases hprogress : t.progress with
    | failed =>
      simp only [World.stepTask, hprogress]
      exact h.dropConnections.erase task
    | _ => simpa only [World.stepTask, hprogress] using h
  | abandon => exact h.erase task
  | _ => exact h

/-! ## Steps of the system -/

/-- A read begins with nothing of its stream outstanding in this attempt. -/
theorem Inv.read (h : Inv w) (config : Config V) {stream : String} (hmem : stream ∈ w.tables)
    (hfresh : stream ∉ w.started) (calls : List (List Work)) (lost : SourceError) :
    Inv (w.read config stream calls lost) := by
  have hhanded : w.handed stream = [] := by
    by_contra hne
    exact hfresh (h.handed stream hne).1
  have hidle : ∀ t ∈ w.tasks, t.stream = stream → t.live = false := by
    intro t ht hs
    by_contra hlive
    exact hfresh (hs ▸ (h.tasks t ht).started (by simpa using hlive))
  have hrun := beginRead_spec (w := w) config.cdc hhanded hidle (w.enter calls lost) h
  unfold World.read
  cases hexec : exec (beginRead config.cdc w.tables stream (w.committed stream))
      (w.enter calls lost) with
  | mk outcome s =>
    rw [hexec] at hrun
    -- the new read comes on top of what the section left
    suffices hadd : ∀ progress : Progress V, Good w s → progress.Sound →
        (progress.position.isSome → s.state.ensured.isSome) →
        (progress.position.isSome → progress.start = none →
          (s.state.ackFloor.get? stream).isSome) →
        (∀ q, progress.position = some q → w.committed stream = some q ∨
          w.committed stream = none ∧ q = freshStart s.state s.server) →
        (∀ q, progress.start = some q → w.committed stream = none) →
        Inv { w.leave s with
          started := stream :: w.started
          tasks := w.tasks ++ [⟨stream, true, progress⟩] } by
      cases outcome with
      | error e =>
        exact hadd .failed hrun trivial (by simp [Progress.position]) (by simp [Progress.position])
          (by simp [Progress.position]) (by simp [Progress.start])
      | ok progress =>
        obtain ⟨hgood, hensured, hprogress⟩ := hrun
        cases hstored : w.committed stream with
        | none =>
          rw [hstored] at hprogress
          obtain rfl := hprogress
          refine hadd _ hgood trivial (fun _ => hensured) (by simp [Progress.start]) ?_
            fun _ _ => hstored
          rintro q ⟨⟩
          exact .inr ⟨hstored, rfl⟩
        | some since =>
          rw [hstored] at hprogress
          obtain ⟨⟨target, rfl⟩, hfloor⟩ := hprogress
          refine hadd _ hgood trivial (fun _ => hensured) (fun _ _ => hfloor) ?_
            (by simp [Progress.start])
          rintro q ⟨⟩
          exact .inl hstored
    intro progress hgood hsound hensured hfloor hposition hstart
    have hbelow {other : String} {x : Nat} (hb : Below (w.leave s) other x) : Below
        { w.leave s with
          started := stream :: w.started
          tasks := w.tasks ++ [⟨stream, true, progress⟩] } other x := by
      refine ⟨hb.committed, hb.handed, fun t ht hs hlive q hq => ?_, hb.fresh⟩
      rcases List.mem_append.1 ht with ht | ht
      · exact hb.reads t ht hs hlive q hq
      · obtain rfl := List.mem_singleton.1 ht
        subst hs
        rcases hposition q hq with hc | ⟨hnone, rfl⟩
        · exact hb.committed q hc
        · exact hb.fresh hnone
    constructor
    case sound => exact hgood.sound
    case point => exact hgood.point
    case horizon => exact hgood.horizon
    case held => exact hgood.held
    case slot => exact hgood.slot
    case floors => exact hgood.floors
    case tasks =>
      intro t ht
      rcases List.mem_append.1 ht with ht | ht
      · have hok := hgood.tasks t ht
        exact ⟨hok.sound, hok.configured, fun hl => List.mem_cons_of_mem _ (hok.started hl),
          hok.ensured, hok.floor⟩
      · obtain rfl := List.mem_singleton.1 ht
        exact ⟨hsound, hmem, fun _ => List.mem_cons_self, hensured, hfloor⟩
    case handed =>
      intro other hne
      obtain ⟨hs, hrest⟩ := hgood.handed other hne
      exact ⟨List.mem_cons_of_mem _ hs, hrest⟩
    case stored => exact hgood.stored
    case drained => exact hgood.drained
    case bounds =>
      intro other x hx
      cases hx with
      | slot hs hin => exact hbelow (hgood.bounds _ _ (.slot hs hin))
      | floor hf => exact hbelow (hgood.bounds _ _ (.floor hf))
      | snapshot ht hs =>
        rcases List.mem_append.1 ht with ht | ht
        · exact hbelow (hgood.bounds _ _ (.snapshot ht hs))
        · obtain rfl := List.mem_singleton.1 ht
          have hnone := hstart x hs
          have hq := (hposition x (position_of_start hs)).resolve_left (by simp [hnone])
          refine hbelow ⟨by simp [World.leave, hnone], ?_, ?_, fun _ => Nat.le_of_eq hq.2⟩
          · simp [World.leave, hhanded]
          · intro t' ht' hs' hlive
            simp [hidle t' ht' hs'] at hlive

/-- No run leaves out a table that has a cursor, and the slot stays. -/
def Covers (w : World V) : Label → Prop
  | .run tables => ∀ stream, (w.committed stream).isSome → stream ∈ tables
  | .dropSlot => False
  | _ => True

theorem Inv.run (h : Inv w) {tables : List String}
    (hcovers : ∀ stream, (w.committed stream).isSome → stream ∈ tables) :
    Inv (w.run tables) where
  sound := h.sound
  point := by simp [World.run, RunState.default]
  horizon := by simp [World.run, RunState.default]
  held := by simp [World.run, RunState.default]
  slot := by simp [World.run, RunState.default]
  floors := by simp [World.run, RunState.default, Positions.get?]
  tasks := by simp [World.run]
  handed := by simp [World.run]
  stored := fun stream c hc => ⟨hcovers stream (Option.isSome_of_eq_some hc), (h.stored stream c hc).2⟩
  drained := by simp [World.run, RunState.default]
  bounds := by
    intro stream x hx
    cases hx with
    | slot hs hmem =>
      refine ⟨fun c hc => ?_, by simp [World.run], by simp [World.run], fun _ => h.sound.flushed _ hs⟩
      exact (h.bounds _ _ (.slot hs (h.stored stream c hc).1)).committed c hc
    | floor hf => simp [World.run, RunState.default, Positions.get?] at hf
    | snapshot ht hs => simp [World.run] at ht

theorem Inv.retry (h : Inv w) : Inv w.retry where
  sound := h.sound
  point := h.point
  horizon := h.horizon
  held := h.held
  slot := h.slot
  floors := h.floors
  tasks := by
    intro t ht
    obtain ⟨t', ht', rfl⟩ := List.mem_map.1 ht
    have hok := h.tasks t' ht'
    exact ⟨hok.sound, hok.configured, by simp, hok.ensured, hok.floor⟩
  handed := by simp [World.retry]
  stored := h.stored
  drained := h.drained
  bounds := by
    intro stream x hx
    have hb : Below w stream x := by
      cases hx with
      | slot hs hmem => exact h.bounds _ _ (.slot hs hmem)
      | floor hf => exact h.bounds _ _ (.floor hf)
      | snapshot ht hs =>
        obtain ⟨t', ht', rfl⟩ := List.mem_map.1 ht
        exact h.bounds _ _ (Bound.snapshot (t := t') ht' hs)
    refine ⟨hb.committed, by simp [World.retry], fun t ht _ hlive => ?_, hb.fresh⟩
    obtain ⟨t', -, rfl⟩ := List.mem_map.1 ht
    cases hlive

theorem Inv.store (h : Inv w) {stream : String} {lsn : Nat} (hhanded : lsn ∈ w.handed stream) :
    Inv { w with committed := Function.update w.committed stream (some lsn) } where
  sound := h.sound
  point := h.point
  horizon := h.horizon
  held := h.held
  slot := h.slot
  floors := h.floors
  tasks := fun t ht => ⟨(h.tasks t ht).sound, (h.tasks t ht).configured, (h.tasks t ht).started,
    (h.tasks t ht).ensured, (h.tasks t ht).floor⟩
  handed := h.handed
  stored := by
    intro other c hc
    by_cases hsame : other = stream
    · subst hsame
      obtain ⟨-, hmem, hensured⟩ := h.handed other (List.ne_nil_of_mem hhanded)
      exact ⟨hmem, h.slot hensured⟩
    · exact h.stored other c (by simpa [hsame] using hc)
  drained := h.drained
  bounds := by
    intro other x hx
    have hb : Below w other x := by
      cases hx with
      | slot hs hmem => exact h.bounds _ _ (.slot hs hmem)
      | floor hf => exact h.bounds _ _ (.floor hf)
      | snapshot ht hs => exact h.bounds _ _ (.snapshot ht hs)
    refine ⟨fun c hc => ?_, hb.handed, hb.reads, fun hnone => hb.fresh ?_⟩
    · by_cases hsame : other = stream
      · subst hsame
        obtain rfl : lsn = c := by simpa using hc
        exact hb.handed lsn hhanded
      · exact hb.committed c (by simpa [hsame] using hc)
    · by_cases hsame : other = stream
      · subst hsame
        simp at hnone
      · simpa [hsame] using hnone

theorem step_task (config : Config V) {label : Label} {task : Nat} (h : label.task = some task) :
    step config w label = (w.tasks[task]?).elim w fun t => w.stepTask config task t label := by
  cases label <;> try cases h
  all_goals
    cases hget : w.tasks[task]? with
    | none => simp only [step, Label.task, Option.bind_some, hget, Option.map_none, Option.elim_none]
    | some t => simp only [step, Label.task, Option.bind_some, hget, Option.map_some, Option.elim_some]

theorem step_inv (config : Config V) {label : Label} (h : Inv w) (hok : Covers w label) :
    Inv (step config w label) := by
  cases htask : label.task with
  | some task =>
    rw [step_task config htask]
    cases hget : w.tasks[task]? with
    | none => exact h
    | some t => exact h.stepTask config (List.mem_of_getElem? hget) label
  | none =>
    cases label with
    | work work =>
      refine (h.server (w.server.commit work) ?_ (h.sound.commit work) rfl).1
      change w.server.wal ≤ w.server.wal + work.bytes + 1
      omega
    | publish publication =>
      exact (h.server { w.server with publication := publication } (Nat.le_refl _)
        ⟨h.sound.logged, h.sound.written, h.sound.flushed⟩ rfl).1
    | occupy activePid walStatus =>
      refine (h.server { w.server with slot := w.server.slot.map fun slot =>
        { slot with activePid := activePid, walStatus := walStatus } } (Nat.le_refl _)
        ⟨h.sound.logged, h.sound.written, fun slot hslot => ?_⟩ ?_).1
      · obtain ⟨before, hbefore, rfl⟩ := Option.map_eq_some_iff.1 hslot
        exact h.sound.flushed before hbefore
      · simp [Function.comp_def]
    | createSlot plugin =>
      simp only [step]
      split
      · next hnone => exact h.createSlot (by simpa using hnone) plugin
      · exact h
    | dropSlot => exact False.elim hok
    | run tables => exact h.run hok
    | retry => exact h.retry
    | read stream calls lost =>
      simp only [step]
      split
      · next hread => exact h.read config hread.1 hread.2 calls lost
      · exact h
    | store stream lsn =>
      simp only [step]
      split
      · next hstore => exact h.store hstore.1
      · exact h
    | _ => cases htask

theorem initial_inv : Inv (World.initial : World V) where
  sound := ⟨List.Pairwise.nil, by simp [World.initial], by simp [World.initial]⟩
  point := by simp [World.initial, RunState.default]
  horizon := by simp [World.initial, RunState.default]
  held := by simp [World.initial, RunState.default]
  slot := by simp [World.initial, RunState.default]
  floors := by simp [World.initial, RunState.default, Positions.get?]
  tasks := by simp [World.initial]
  handed := by simp [World.initial]
  stored := by simp [World.initial]
  drained := by simp [World.initial, RunState.default]
  bounds := by
    intro stream x hx
    cases hx with
    | slot hs hmem => simp [World.initial] at hmem
    | floor hf => simp [World.initial, RunState.default, Positions.get?] at hf
    | snapshot ht hs => simp [World.initial] at ht

/-! ## A fixed table set -/

/-- Every run has the same tables, over the same slot. -/
def Label.Fixed (tables : List String) : Label → Prop
  | .run configured => configured = tables
  | .dropSlot => False
  | _ => True

instance (tables : List String) : (label : Label) → Decidable (label.Fixed tables)
  | .run configured => inferInstanceAs (Decidable (configured = tables))
  | .dropSlot => isFalse id
  | .work _ | .publish _ | .occupy _ _ | .createSlot _ | .retry | .read _ _ _ | .copy _ | .peek _
  | .deliver _ | .complete _ _ _ | .tail _ | .fail _ | .dropConnections _ | .abandon _
  | .store _ _ => isTrue trivial

theorem completed_tables (cdc : CdcConfig) (task : Nat) (t : Task V) (cursor : Nat)
    (outcome : Except SourceError (Option Nat)) :
    (w.completed cdc task t cursor outcome).tables = w.tables := by
  unfold World.completed
  split
  · rfl
  · split <;> rfl

theorem stepTask_tables (config : Config V) (task : Nat) (t : Task V) (label : Label) :
    (w.stepTask config task t label).tables = w.tables := by
  have hhand (lsn : Nat) : (w.hand t lsn).tables = w.tables := by
    unfold World.hand
    split <;> rfl
  cases label with
  | copy => cases hprogress : t.progress <;> simp [World.stepTask, hprogress, World.set, hhand]
  | peek =>
    cases hprogress : t.progress <;> simp only [World.stepTask, hprogress]
    unfold World.peek
    repeat' split
    all_goals rfl
  | deliver =>
    cases hprogress : t.progress <;> simp only [World.stepTask, hprogress]
    unfold World.deliver
    split
    · rfl
    · rfl
    · rfl
    · exact hhand _
  | complete =>
    cases hprogress : t.progress <;> simp only [World.stepTask, hprogress, completed_tables]
    · rfl
    · rfl
  | tail => cases hprogress : t.progress <;> simp [World.stepTask, hprogress, World.set, hhand]
  | dropConnections => cases hprogress : t.progress <;> simp [World.stepTask, hprogress, World.erase]
  | _ => rfl

/-- Before the first run there are no tables. -/
theorem step_tables (config : Config V) {label : Label} {tables : List String}
    (hfixed : label.Fixed tables) (h : w.tables = tables ∨ w.tables = []) :
    (step config w label).tables = tables ∨ (step config w label).tables = [] := by
  cases htask : label.task with
  | some task =>
    rw [step_task config htask]
    cases hget : w.tasks[task]? with
    | none => exact h
    | some t => simpa only [Option.elim_some, stepTask_tables] using h
  | none =>
    cases label with
    | run configured => exact .inl hfixed
    | createSlot plugin =>
      simp only [step]
      split <;> exact h
    | read stream calls lost =>
      simp only [step]
      split <;> exact h
    | store stream lsn =>
      simp only [step]
      split <;> exact h
    | copy | peek | deliver | complete | tail | fail | dropConnections | abandon => cases htask
    | _ => exact h

/-- What holds of acknowledgements and snapshots in a state. -/
structure AckSafe (config : Config V) (tables : List String) (w : World V) : Prop where
  /-- the slot is not past the stored cursor of a configured stream -/
  acknowledged : ∀ slot, w.server.slot = some slot → ∀ stream ∈ tables, ∀ cursor,
    w.committed stream = some cursor → slot.confirmedFlush ≤ cursor
  /-- a stream without a cursor snapshots, at or past the slot, or its read fails -/
  fresh : ∀ stream ∈ w.tables, stream ∉ w.started → w.committed stream = none → ∀ calls lost,
    ∃ progress, (step config w (.read stream calls lost)).tasks
        = w.tasks ++ [⟨stream, true, progress⟩] ∧
      (progress = .failed ∨ ∃ start, progress = .snapshotting start ∧
        ∀ slot, (step config w (.read stream calls lost)).server.slot = some slot →
          slot.confirmedFlush ≤ start)
  /-- the slot stays behind a snapshot under way and behind what it hands over -/
  held : ∀ slot, w.server.slot = some slot →
    (∀ t ∈ w.tasks, t.live = true → ∀ start, t.progress.start = some start →
      slot.confirmedFlush ≤ start) ∧
    ∀ stream, ∀ lsn ∈ w.handed stream, slot.confirmedFlush ≤ lsn

/-- The slot is at or below whatever a configured stream still needs. -/
theorem Inv.slot_below (h : Inv w) {slot : Slot} (hslot : w.server.slot = some slot)
    {stream : String} (hmem : stream ∈ w.tables) : Below w stream slot.confirmedFlush :=
  h.bounds stream _ (.slot hslot hmem)

/-- A read takes a snapshot where there is no cursor and resumes where there is. -/
theorem read_snapshots (config : Config V) {stream : String} (hmem : stream ∈ w.tables)
    (hfresh : stream ∉ w.started) (hnone : w.committed stream = none)
    (calls : List (List Work)) (lost : SourceError) (h : Inv w) :
    ∃ progress, (w.read config stream calls lost).tasks = w.tasks ++ [⟨stream, true, progress⟩] ∧
      (progress = .failed ∨ ∃ start, progress = .snapshotting start ∧
        ∀ slot, (w.read config stream calls lost).server.slot = some slot →
          slot.confirmedFlush ≤ start) := by
  have hnext := h.read config hmem hfresh calls lost
  have hhanded : w.handed stream = [] := by
    by_contra hne
    exact hfresh (h.handed stream hne).1
  have hidle : ∀ t ∈ w.tasks, t.stream = stream → t.live = false := by
    intro t ht hs
    by_contra hlive
    exact hfresh (hs ▸ (h.tasks t ht).started (by simpa using hlive))
  have hrun := beginRead_spec (w := w) config.cdc hhanded hidle (w.enter calls lost) h
  unfold World.read at hnext ⊢
  cases hexec : exec (beginRead config.cdc w.tables stream (w.committed stream))
      (w.enter calls lost) with
  | mk outcome s =>
    rw [hexec] at hrun hnext
    cases outcome with
    | error e => exact ⟨.failed, rfl, .inl rfl⟩
    | ok progress =>
      obtain ⟨-, -, hprogress⟩ := hrun
      rw [hnone] at hprogress
      obtain rfl := hprogress
      refine ⟨_, rfl, .inr ⟨_, rfl, fun slot hslot => ?_⟩⟩
      exact (hnext.slot_below hslot hmem).reads _ (List.mem_append_right _ List.mem_cons_self)
        rfl rfl _ rfl

/-- Acknowledgement safety, in every state of every history over one table set:
any order of reads, retries, crashes and commits. -/
theorem cdc_acknowledgement_safe (config : Config V) (tables : List String) (labels : List Label)
    (hfixed : ∀ label ∈ labels, label.Fixed tables) :
    AckSafe config tables (Transition.run (step config) World.initial labels) := by
  have hrun : Inv (Transition.run (step config) World.initial labels) ∧
      ((Transition.run (step config) World.initial labels).tables = tables ∨
        (Transition.run (step config) World.initial labels).tables = []) := by
    refine Transition.run_invariant (P := fun _ label => Label.Fixed tables label)
      (I := fun w : World V => Inv w ∧ (w.tables = tables ∨ w.tables = [])) ?_
      ⟨initial_inv, .inr rfl⟩ (Transition.meets_of_forall _ hfixed)
    rintro w label ⟨hinv, htables⟩ hlabel
    refine ⟨step_inv config hinv ?_, step_tables config hlabel htables⟩
    cases label with
    | run configured =>
      obtain rfl : configured = tables := hlabel
      intro stream hsome
      obtain ⟨c, hc⟩ := Option.isSome_iff_exists.1 hsome
      have hmem := (hinv.stored stream c hc).1
      rcases htables with htables | htables
      · exact htables ▸ hmem
      · simp [htables] at hmem
    | dropSlot => exact hlabel
    | _ => trivial
  obtain ⟨hinv, -⟩ := hrun
  constructor
  · intro slot hslot stream _ cursor hcursor
    exact (hinv.slot_below hslot (hinv.stored stream cursor hcursor).1).committed cursor hcursor
  · intro stream hmem hfresh hnone calls lost
    have hread : step config (Transition.run (step config) World.initial labels)
        (.read stream calls lost)
        = (Transition.run (step config) World.initial labels).read config stream calls lost :=
      if_pos ⟨hmem, hfresh⟩
    rw [hread]
    exact read_snapshots config hmem hfresh hnone calls lost hinv
  · intro slot hslot
    refine ⟨fun t ht hlive start hstart => ?_, fun stream lsn hlsn => ?_⟩
    · exact (hinv.slot_below hslot (hinv.tasks t ht).configured).reads t ht rfl hlive start
        (position_of_start hstart)
    · exact (hinv.slot_below hslot (hinv.handed stream (List.ne_nil_of_mem hlsn)).2.1).handed
        lsn hlsn

/-! ## Two tables over one slot -/

def feedConfig : Config String :=
  ⟨textBuilder, ⟨"rdlt", "rdlt", true, .auto, .catchup⟩, fun _ => ordersContext⟩

def connectionLost : SourceError := ⟨.slot, none, "connection closed"⟩

/-- As many calls as a section can make, and nobody else commits in between. -/
def answered : List (List Work) := List.replicate 12 []

/-- Snapshots of both tables, stored by the destination. -/
def feedSnapshots : List Label :=
  [.work ⟨[], 4⟩, .run ["orders", "items"], .read "orders" answered connectionLost,
    .read "items" answered connectionLost, .copy 0, .copy 1,
    .complete 0 answered connectionLost, .complete 0 answered connectionLost,
    .store "orders" 5, .store "items" 5]

/-- One pass of the tables given, to the position given, stored if it has moved. -/
def feedPass (tables : List String) (position : Nat) : List Label :=
  .run tables :: tables.flatMap fun stream =>
    [.read stream answered connectionLost, .peek 0, .deliver 0, .deliver 0, .store stream position,
      .complete 0 answered connectionLost]

/-- Both tables catch up to 10; the slot follows once both cursors are stored. -/
def feedHistory : List Label :=
  feedSnapshots ++ [.work ⟨[], 4⟩] ++ feedPass ["orders", "items"] 10
    ++ feedPass ["orders", "items"] 10

theorem feed_acknowledgement_safe : AckSafe feedConfig ["orders", "items"]
    (Transition.run (step feedConfig) World.initial feedHistory) :=
  cdc_acknowledgement_safe feedConfig ["orders", "items"] feedHistory (by decide)

example : ((Transition.run (step feedConfig) World.initial feedHistory).server.slot.map
    Slot.confirmedFlush) = some 10 := by decide +kernel

end Cdc
