import Mathlib
import RdltConnectors.Cdc.Floor

/-!
# What locked sections keep

A section changes the server by a few statements, between which other sessions
work on it, and few fields of the run's state. A condition that none of these
breaks is kept by the whole section, also where it is cut short.
-/
namespace Cdc

open PgTypes Interrupted

variable {V : Type}

/-- A condition on the server that nothing a section does can break. -/
structure Stable (P : Server → Prop) : Prop where
  work : ∀ server works, P server → P (server.work works)
  publication : ∀ server publication, P server → P { server with publication := publication }
  createSlot : ∀ server plugin, P server → P (server.createSlot plugin)
  advance : ∀ server upto, P server → P (server.advance upto)

/-- A condition that nothing done to the server breaks, and that rests on no more
of the run than the target, the snapshot and what was ensured. -/
structure Lasting (P : Section → Prop) : Prop where
  work : ∀ s works calls, P s → P { s with server := s.server.work works, calls := calls }
  publication : ∀ s publication, P s →
    P { s with server := { s.server with publication := publication } }
  createSlot : ∀ s plugin, P s → P { s with server := s.server.createSlot plugin }
  advance : ∀ s upto, P s → P { s with server := s.server.advance upto }
  state : ∀ s state, state.target = s.state.target → state.ensured = s.state.ensured →
    state.snapshot = s.state.snapshot → state.snapshotHorizon = s.state.snapshotHorizon → P s →
    P { s with state := state }

theorem Stable.lasting {P : Server → Prop} (h : Stable P) : Lasting fun s => P s.server where
  work s works _ hs := h.work s.server works hs
  publication s publication hs := h.publication s.server publication hs
  createSlot s plugin hs := h.createSlot s.server plugin hs
  advance s upto hs := h.advance s.server upto hs
  state _ _ _ _ _ _ hs := hs

variable {P : Section → Prop}

/-- Such conditions may be joined by one on what they rest on. -/
theorem Lasting.and_state (h : Lasting P) (Q : RunState → Prop)
    (hQ : ∀ state state', state'.target = state.target → state'.ensured = state.ensured →
      state'.snapshot = state.snapshot → state'.snapshotHorizon = state.snapshotHorizon →
      Q state → Q state') : Lasting fun s => P s ∧ Q s.state where
  work s works calls hs := ⟨h.work s works calls hs.1, hs.2⟩
  publication s publication hs := ⟨h.publication s publication hs.1, hs.2⟩
  createSlot s plugin hs := ⟨h.createSlot s plugin hs.1, hs.2⟩
  advance s upto hs := ⟨h.advance s upto hs.1, hs.2⟩
  state s state ht he hs hh hP := ⟨h.state s state ht he hs hh hP.1, hQ _ _ ht he hs hh hP.2⟩

theorem Lasting.call (h : Lasting P) : Keeps P call := keeps_call h.work

theorem Lasting.position (h : Lasting P) : Keeps P currentWalLsn :=
  triple_weaken (currentWalLsn_spec h.work) (fun _ hs => hs) (fun _ _ hs => hs.1) fun _ hs => hs

theorem Lasting.control (h : Lasting P) : Keeps P control :=
  keeps_get.bind fun _ => triple_ite (fun _ => keeps_pure ()) fun _ =>
    h.call.bind fun _ => keeps_modify fun s hs => h.state s _ rfl rfl rfl rfl hs

theorem Lasting.ensureSlot (h : Lasting P) (cdc : CdcConfig) : Keeps P (ensureSlot cdc) := by
  refine h.call.bind fun _ => keeps_get.bind fun s => ?_
  cases s.server.slot with
  | some slot =>
    dsimp only
    cases slotRejection cdc slot with
    | some error => exact keeps_throw error
    | none => exact keeps_pure _
  | none =>
    refine triple_ite (fun _ => keeps_throw _) fun _ => h.call.bind fun _ => ?_
    exact keeps_get.bind fun _ => (keeps_modify fun s hs => h.createSlot s "pgoutput" hs).bind
      fun _ => h.call.bind fun _ => keeps_pure _

theorem Lasting.ensure (h : Lasting P) (cdc : CdcConfig) (tables : List String) :
    Keeps P (ensure cdc tables) := by
  have hpublication : Keeps P (ensurePublication cdc tables) :=
    h.call.bind fun _ => keeps_get.bind fun _ => triple_ite (fun _ => keeps_pure ()) fun _ =>
      triple_ite (fun _ => keeps_throw _) fun _ =>
        keeps_command h.work fun s hs => h.publication s (some tables) hs
  have hcovers : Keeps P (ensurePublicationCovers cdc tables) :=
    h.call.bind fun _ => keeps_get.bind fun _ =>
      triple_ite (fun _ => keeps_pure ()) fun _ => keeps_throw _
  exact hpublication.bind fun _ => hcovers.bind fun _ => h.ensureSlot cdc

/-- The slot and the publication are ensured once in a run. -/
theorem Lasting.ensured (h : Lasting P)
    (hensured : ∀ s outcome, s.state.ensured = none → P s →
      P { s with state := { s.state with ensured := some outcome } })
    (cdc : CdcConfig) (tables : List String) : Keeps P (ensured cdc tables) := by
  refine triple_bind (Q := fun a s => P s ∧ a = s) (triple_get fun s hs => ⟨hs, rfl⟩) fun s => ?_
  cases hnone : s.state.ensured with
  | some outcome => exact triple_pure fun _ hs => hs.1
  | none =>
    have hfresh : Lasting fun s' => P s' ∧ s'.state.ensured = none :=
      h.and_state (fun state => state.ensured = none) fun _ _ _ heq _ _ hs => heq.trans hs
    refine triple_bind (triple_weaken (hfresh.ensure cdc tables)
      (fun s' hs => ⟨hs.1, by rw [← hs.2]; exact hnone⟩) (fun _ _ hs => hs) fun _ hs => hs.1)
      fun outcome => ?_
    refine triple_bind (Q := fun _ => P) (triple_modify fun s' hs => ?_) fun _ => keeps_pure _
    exact hensured s' outcome hs.2 hs.1

theorem Lasting.snapshotStart (h : Lasting P) (outcome : EnsureOutcome) :
    Keeps P (snapshotStart outcome) := by
  refine keeps_get.bind fun s => ?_
  cases outcome.consistentPoint with
  | some point => exact keeps_pure point
  | none =>
    cases s.state.snapshotHorizon with
    | some horizon => exact keeps_pure horizon
    | none => exact h.position

/-- The run's snapshot is opened only while it is shut. -/
theorem Lasting.snapshot (h : Lasting P)
    (hsnapshot : ∀ s horizon, s.state.snapshot = false → P s →
      P { s with state := { s.state with snapshot := true, snapshotHorizon := some horizon } })
    (start : Nat) : Keeps P (snapshot start) := by
  refine triple_bind (Q := fun a s => P s ∧ a = s) (triple_get fun s hs => ⟨hs, rfl⟩)
    fun s => triple_ite (fun _ => triple_pure fun _ hs => hs.1) fun hclosed => ?_
  have hshut : Lasting fun s' => P s' ∧ s'.state.snapshot = false :=
    h.and_state (fun state => state.snapshot = false) fun _ _ _ _ heq _ hs => heq.trans hs
  refine triple_bind (triple_weaken hshut.call (fun s' hs => ⟨hs.1, ?_⟩) (fun _ _ hs => hs)
    fun _ hs => hs.1) fun _ => triple_bind (hshut.call.cut fun _ hs => hs.1) fun _ => ?_
  · rw [← hs.2]
    simpa using hclosed
  · exact triple_modify fun s' hs => hsnapshot s' start hs.2 hs.1

/-- What a target is pinned to stays pinned. -/
theorem Lasting.pinTarget (h : Lasting P)
    (htarget : ∀ s, P s → P { s with state := { s.state with target := some s.server.wal } }) :
    Triple P pinTarget (fun target s => P s ∧ s.state.target = some target) P := by
  refine triple_bind (Q := fun a s => P s ∧ a = s) (triple_get fun s hs => ⟨hs, rfl⟩) fun s => ?_
  cases hset : s.state.target with
  | some target => exact triple_pure fun s' hs => ⟨hs.1, by rw [← hs.2, hset]⟩
  | none =>
    refine triple_bind (triple_weaken (currentWalLsn_spec h.work) (fun _ hs => hs.1)
      (fun _ _ hs => hs) fun _ hs => hs) fun target => ?_
    refine triple_bind (Q := fun _ s => P s ∧ s.state.target = some target)
      (triple_modify fun s' hs => ?_) fun _ => triple_pure fun _ hs => hs
    obtain ⟨hs, rfl⟩ := hs
    exact ⟨htarget s' hs, rfl⟩

/-- A pass goes on to the run's target. -/
def Progress.Pinned (state : RunState) : Progress V → Prop
  | .changing _ target _ => state.target = some target
  | _ => True

theorem Lasting.beginRead (h : Lasting P)
    (hensured : ∀ s outcome, s.state.ensured = none → P s →
      P { s with state := { s.state with ensured := some outcome } })
    (hsnapshot : ∀ s horizon, s.state.snapshot = false → P s →
      P { s with state := { s.state with snapshot := true, snapshotHorizon := some horizon } })
    (htarget : ∀ s, P s → P { s with state := { s.state with target := some s.server.wal } })
    (cdc : CdcConfig) (tables : List String) (stream : String) (since : Option Nat) :
    Triple P (beginRead cdc tables stream since)
      (fun progress s => P s ∧ Progress.Pinned (V := V) s.state progress) P := by
  have hpending : Keeps P (initPending tables) :=
    keeps_modify fun s hs => h.state s _ rfl rfl rfl rfl hs
  refine triple_bind hpending fun _ => triple_bind h.control fun _ =>
    triple_bind (h.ensured hensured cdc tables) fun outcome => ?_
  cases since with
  | none =>
    exact triple_bind (h.snapshotStart outcome) fun start =>
      triple_bind (h.snapshot hsnapshot start) fun _ => triple_pure fun _ hs => ⟨hs, trivial⟩
  | some since =>
    refine triple_bind (checkCovered_spec cdc stream outcome since fun _ hs => hs) fun _ =>
      triple_bind (h.pinTarget htarget) fun target => ?_
    refine triple_bind (Q := fun _ s => P s ∧ s.state.target = some target)
      (triple_modify fun s hs => ⟨h.state s _ rfl rfl rfl rfl hs.1, hs.2⟩) fun _ =>
        triple_pure fun _ hs => hs

/-- The last section of a read may close the run's snapshot, no more. -/
theorem Lasting.completePass (h : Lasting P)
    (hclose : ∀ s, P s → P { s with state := s.state.closeSnapshot }) (cdc : CdcConfig)
    (stream : String) (cursor : Nat) : Keeps P (completePass cdc stream cursor) := by
  have hfinish : Keeps P (finishStream stream cursor) :=
    keeps_modify fun s hs => h.state s _ rfl rfl rfl rfl hs
  have hshut : Keeps P (modify fun s => { s with state := s.state.closeSnapshot } : Locked Unit) :=
    keeps_modify hclose
  have hack (ackFloor : Option Nat) : Keeps P (acknowledge cdc ackFloor) := by
    unfold acknowledge
    split
    · next floor _ =>
      refine Keeps.bind (h.call.bind fun _ => keeps_get.bind fun s => ?_) fun _ =>
        triple_ite (fun _ => keeps_command h.work fun s hs => h.advance s floor hs) fun _ =>
          keeps_pure ()
      cases s.server.slot with
      | none => exact keeps_throw _
      | some slot => exact keeps_pure _
    · exact keeps_pure ()
  exact hfinish.bind fun _ => keeps_get.bind fun _ => triple_ite
    (fun _ => hshut.bind fun _ => (hack _).bind fun _ => h.position.bind fun _ => keeps_pure _)
    fun _ => keeps_pure none

theorem Lasting.completeSnapshot (h : Lasting P)
    (hclose : ∀ s, P s → P { s with state := s.state.closeSnapshot }) (cdc : CdcConfig)
    (stream : String) (start : Nat) : Keeps P (completeSnapshot cdc stream start) := by
  have hfloor : Keeps P (floorAt stream start) :=
    keeps_modify fun s hs => h.state s _ rfl rfl rfl rfl hs
  exact hfloor.bind fun _ => h.completePass hclose cdc stream start

/-! ## Conditions on the server alone -/

theorem Stable.beginRead {P : Server → Prop} (h : Stable P) (cdc : CdcConfig)
    (tables : List String) (stream : String) (since : Option Nat) :
    Keeps (fun s => P s.server) (beginRead cdc tables stream since : Locked (Progress V)) :=
  triple_weaken (h.lasting.beginRead (fun _ _ _ hs => hs) (fun _ _ _ hs => hs) (fun _ hs => hs)
    cdc tables stream since) (fun _ hs => hs) (fun _ _ hs => hs.1) fun _ hs => hs

theorem Stable.completePass {P : Server → Prop} (h : Stable P) (cdc : CdcConfig)
    (stream : String) (cursor : Nat) :
    Keeps (fun s => P s.server) (completePass cdc stream cursor) :=
  h.lasting.completePass (fun _ hs => hs) cdc stream cursor

theorem Stable.completeSnapshot {P : Server → Prop} (h : Stable P) (cdc : CdcConfig)
    (stream : String) (start : Nat) :
    Keeps (fun s => P s.server) (completeSnapshot cdc stream start) :=
  h.lasting.completeSnapshot (fun _ hs => hs) cdc stream start

end Cdc
