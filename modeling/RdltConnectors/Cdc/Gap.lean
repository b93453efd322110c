import RdltConnectors.Cdc.Acknowledge
import RdltConnectors.Cdc.Sections

/-!
# Silent gaps

A peek starts at the slot's confirmed position, whatever cursor the pass resumes
from, and an acknowledgement asks only the streams its run has configured. What
was committed while the publication did not have the table is not sent either,
and a run looks at the publication only when it starts. A pass that succeeds
therefore delivers its whole range exactly when the slot was not advanced past a
change of its table and each was published, which is so in every history whose
runs leave no table with a cursor out while others leave the publication alone.
-/
namespace Cdc

open PgTypes Interrupted

variable {V : Type} {w : World V}

/-! ## The log stays in order -/

theorem stable_sound : Stable Server.Sound where
  work := fun server works h => (work_spec server works).2.2.2 h
  publication := fun _ _ h => ⟨h.logged, h.written, h.flushed⟩
  createSlot := by
    refine fun _ _ h => ⟨h.logged, h.written, ?_⟩
    rintro slot ⟨⟩
    exact Nat.le_refl _
  advance := by
    refine fun _ _ h => ⟨h.logged, h.written, fun slot hslot => ?_⟩
    obtain ⟨slot', hs', rfl⟩ := Option.map_eq_some_iff.1 hslot
    exact Nat.max_le.2 ⟨h.flushed slot' hs', Nat.min_le_right _ _⟩

theorem Stable.stepTask {P : Server → Prop} (h : Stable P) (config : Config V) (task : Nat)
    (t : Task V) (label : Label) (hw : P w.server) :
    P (w.stepTask config task t label).server := by
  have hcompleted (s : Section) (cursor : Nat) (outcome : Except SourceError (Option Nat)) :
      ((w.leave s).completed config.cdc task t cursor outcome).server = s.server := by
    unfold World.completed
    split
    · rfl
    · split <;> rfl
  cases label with
  | copy => cases hprogress : t.progress <;> simpa [World.stepTask, hprogress, World.set]
  | peek =>
    cases hprogress : t.progress <;> simp only [World.stepTask, hprogress]
    case changing since target tail =>
      unfold World.peek
      split
      · split <;> exact hw
      · exact hw
    all_goals exact hw
  | deliver =>
    cases hprogress : t.progress <;> simp only [World.stepTask, hprogress]
    case delivering since emits result cursor tail =>
      unfold World.deliver
      split
      · exact hw
      · exact hw
      · exact hw
      · exact (hand_server t _).symm ▸ hw
    all_goals exact hw
  | complete _ calls lost =>
    have hpass (cursor : Nat) (s : Section) (hs : P s.server) :
        P (exec (Cdc.completePass config.cdc t.stream cursor) s).2.server := by
      have hrun := h.completePass config.cdc t.stream cursor s hs
      cases hexec : exec (Cdc.completePass config.cdc t.stream cursor) s with
      | mk outcome s' =>
        rw [hexec] at hrun
        cases outcome <;> exact hrun
    cases hprogress : t.progress <;> simp only [World.stepTask, hprogress, hcompleted]
    case snapshotted start => exact hpass start _ hw
    case passed cursor => exact hpass cursor _ hw
    all_goals exact hw
  | tail => cases hprogress : t.progress <;> simpa [World.stepTask, hprogress, World.set]
  | dropConnections =>
    cases hprogress : t.progress <;> simpa [World.stepTask, hprogress, World.erase]
  | _ => exact hw

theorem step_sound (config : Config V) (label : Label) (h : w.server.Sound) :
    (step config w label).server.Sound := by
  cases htask : label.task with
  | some task =>
    rw [step_task config htask]
    cases hget : w.tasks[task]? with
    | none => exact h
    | some t => exact stable_sound.stepTask config task t label h
  | none =>
    cases label with
    | work work => exact h.commit work
    | publish publication => exact ⟨h.logged, h.written, h.flushed⟩
    | occupy activePid walStatus =>
      refine ⟨h.logged, h.written, fun slot hslot => ?_⟩
      obtain ⟨before, hbefore, rfl⟩ := Option.map_eq_some_iff.1 hslot
      exact h.flushed before hbefore
    | createSlot plugin =>
      simp only [step]
      split
      · exact stable_sound.createSlot w.server plugin h
      · exact h
    | dropSlot => exact ⟨h.logged, h.written, fun slot hslot => by cases hslot⟩
    | read stream calls lost =>
      simp only [step]
      split
      · have hrun := stable_sound.beginRead (V := V) config.cdc w.tables stream
          (w.committed stream) (w.enter calls lost) h
        unfold World.read
        cases hexec : exec (beginRead config.cdc w.tables stream (w.committed stream) :
            Locked (Progress V)) (w.enter calls lost) with
        | mk outcome s =>
          rw [hexec] at hrun
          cases outcome <;> exact hrun
      · exact h
    | store stream lsn =>
      simp only [step]
      split <;> exact h
    | run | retry => exact h
    | copy | peek | deliver | complete | tail | fail | dropConnections | abandon => cases htask

/-! ## Change passes -/

/-- A live read whose next step is a pass over (since, target]. -/
structure Starts (w : World V) (task : Nat) (t : Task V) (since target : Nat) (tail : Bool) :
    Prop where
  get : w.tasks[task]? = some t
  live : t.live = true
  progress : t.progress = .changing since target tail
  lt : since < target

/-- A change of the table in that range lies behind the slot, or was committed
while the table was not in the publication. -/
def Skips (config : Config V) (w : World V) (t : Task V) (since target : Nat) : Prop :=
  ∃ p slot, Plan.new (config.context t.stream) t.stream = .ok p ∧ w.server.slot = some slot ∧
    ∃ c ∈ between w.server.log since target, c.touches p ∧
      (c.position ≤ slot.confirmedFlush ∨ p.stream ∉ c.published)

/-- Every change of the table committed in (since, target] is in the pass. -/
def DeliversRange (config : Config V) (w : World V) (t : Task V) (since target : Nat)
    (pass : Pass V) : Prop :=
  ∃ p, Plan.new (config.context t.stream) t.stream = .ok p ∧
    Delivers config.builder p w.server.log since target pass.emits

/-- A pass delivers its range or fails. -/
def Faithful (config : Config V) (w : World V) : Label → Prop
  | .peek task => ∀ t since target tail, Starts w task t since target tail → ∀ pass,
      passAt config w.server t.stream since target = some pass → pass.result = .ok () →
      DeliversRange config w t since target pass
  | _ => True

/-- A pass that succeeds delivers its range exactly if it skips nothing. -/
def Exact (config : Config V) (w : World V) : Label → Prop
  | .peek task => ∀ t since target tail, Starts w task t since target tail → ∀ pass,
      passAt config w.server t.stream since target = some pass → pass.result = .ok () →
      (DeliversRange config w t since target pass ↔ ¬ Skips config w t since target)
  | _ => True

/-- What a pass resumes for was all committed with its table published. -/
def Published (config : Config V) (w : World V) : Label → Prop
  | .peek task => ∀ t since target tail, Starts w task t since target tail → ∀ p,
      Plan.new (config.context t.stream) t.stream = .ok p →
      ∀ c ∈ between w.server.log since target, c.touches p → p.stream ∈ c.published
  | _ => True

def Unskipped (config : Config V) (w : World V) : Label → Prop
  | .peek task => ∀ t since target tail, Starts w task t since target tail →
      ¬ Skips config w t since target
  | _ => True

theorem exact_of_sound (config : Config V) (label : Label) (h : w.server.Sound) :
    Exact config w label := by
  cases label with
  | peek task =>
    intro t since target tail hstarts pass hpass hok
    obtain ⟨messages, hpeek, rfl⟩ := Option.map_eq_some_iff.1 hpass
    obtain ⟨slot, hslot, rfl⟩ := Option.map_eq_some_iff.1 hpeek
    cases hp : Plan.new (config.context t.stream) t.stream with
    | error e =>
      have hnew : Apply.new (config.context t.stream) t.stream since = .error e := by
        rw [Apply.new, hp]
        rfl
      rw [changePass, hnew] at hok
      cases hok
    | ok p =>
      have hiff := session_delivers_iff hp h.logged hok
      constructor
      · rintro ⟨p', hp', hdelivers⟩ ⟨p'', slot', hp'', hslot', c, hc, htouches, hlost⟩
        obtain rfl : p = p' := Except.ok.inj (hp.symm.trans hp')
        obtain rfl : p = p'' := Except.ok.inj (hp.symm.trans hp'')
        obtain rfl : slot = slot' := Option.some.inj (hslot.symm.trans hslot')
        obtain ⟨hpast, hpublished⟩ := hiff.1 hdelivers c hc htouches
        exact hlost.elim (Nat.not_le.2 hpast) fun hnot => hnot hpublished
      · intro hskips
        refine ⟨p, hp, hiff.2 fun c hc htouches => ?_⟩
        by_contra hlost
        refine hskips ⟨p, slot, hp, hslot, c, hc, htouches, ?_⟩
        rwa [not_and_or, Nat.not_lt] at hlost
  | _ => trivial

theorem faithful_of_unskipped {config : Config V} {label : Label} (hexact : Exact config w label)
    (h : Unskipped config w label) : Faithful config w label := by
  cases label with
  | peek task =>
    intro t since target tail hstarts pass hpass hok
    exact (hexact t since target tail hstarts pass hpass hok).2 (h t since target tail hstarts)
  | _ => trivial

/-- Under the invariant a live read resumes from at or past the slot. -/
theorem unskipped_of_inv {config : Config V} {label : Label} (h : Inv w)
    (hpublished : Published config w label) : Unskipped config w label := by
  cases label with
  | peek task =>
    rintro t since target tail hstarts ⟨p, slot, hp, hslot, c, hc, htouches, hlost⟩
    have ht := List.mem_of_getElem? hstarts.get
    have hle : slot.confirmedFlush ≤ since :=
      (h.slot_below hslot (h.tasks t ht).configured).reads t ht rfl hstarts.live since
        (by rw [hstarts.progress]; rfl)
    rcases hlost with hbehind | hunpublished
    · have hin := (List.mem_filter.1 hc).2
      simp only [decide_eq_true_eq] at hin
      omega
    · exact hunpublished (hpublished t since target tail hstarts p hp c hc htouches)
  | _ => trivial

/-- When the change passes of a history deliver all they resume for. -/
structure GapFree (config : Config V) (labels : List Label) : Prop where
  /-- a pass that succeeds, in any state reached: exactly if none of its changes
  lies behind the slot or was committed unpublished -/
  exact : Transition.Meets (step config) (Exact config) World.initial labels
  /-- so every pass delivers or fails if none starts with such a change -/
  unskipped : Transition.Meets (step config) (Unskipped config) World.initial labels →
    Transition.Meets (step config) (Faithful config) World.initial labels
  /-- which is so if no run leaves out a table with a cursor, the slot stays, and
  each table is in the publication when a change of it commits -/
  covered : Transition.Meets (step config) Covers World.initial labels →
    Transition.Meets (step config) (Published config) World.initial labels →
    Transition.Meets (step config) (Faithful config) World.initial labels

theorem cdc_no_silent_gap (config : Config V) (labels : List Label) : GapFree config labels := by
  have hsound {P Q : World V → Label → Prop}
      (hgood : ∀ w label, w.server.Sound → P w label → Q w label)
      (hok : Transition.Meets (step config) P World.initial labels) :
      Transition.Meets (step config) Q World.initial labels :=
    Transition.meets_of_invariant (I := fun w : World V => w.server.Sound)
      (fun w label h _ => step_sound config label h) hgood initial_inv.sound hok
  refine ⟨?_, hsound ?_, fun hcovers hpublished => ?_⟩
  · exact hsound (P := fun _ _ => True) (fun w label h _ => exact_of_sound config label h)
      (Transition.meets_of_forall (P := fun _ => True) _ fun _ _ => trivial)
  · exact fun w label h hok => faithful_of_unskipped (exact_of_sound config label h) hok
  · exact Transition.meets_of_invariant (I := Inv)
      (fun w label h hok => step_inv config h hok.1)
      (fun w label h hok => faithful_of_unskipped (exact_of_sound config label h.sound)
        (unskipped_of_inv h hok.2)) initial_inv (Transition.meets_and hcovers hpublished)

/-! ## A table left out for two runs -/

def itemsRelation : Relation := ⟨8, "public", "items", [⟨"id"⟩]⟩

/-- A change of `items` that two runs of `orders` alone acknowledge away. -/
def leftOutHistory : List Label :=
  feedSnapshots ++ [.work ⟨[(6, .insert itemsRelation ⟨[.text "1".toUTF8]⟩)], 4⟩]
    ++ feedPass ["orders"] 10 ++ feedPass ["orders"] 10
    ++ [.run ["orders", "items"], .read "items" answered connectionLost]

def leftOutPlan : Plan :=
  ⟨"public", "items", ⟨["id"], false⟩, [⟨"id", .int64, true⟩], 1, "_rdlt_deleted", [0]⟩

/-- Back in the configuration, items resumes from 5, succeeds, and has lost the
change committed at 10. -/
theorem items_change_is_skipped : ¬ Transition.Meets (step feedConfig) (Faithful feedConfig)
    World.initial (leftOutHistory ++ [.peek 0]) := by
  intro h
  have hfaithful := ((Transition.meets_append _ _ _ _ _).1 h).2.1
  have hsound : (Transition.run (step feedConfig) World.initial leftOutHistory).server.Sound :=
    Transition.run_invariant_always (fun w : World String => w.server.Sound)
      (fun _ label h => step_sound feedConfig label h) initial_inv.sound leftOutHistory
  have hstarts : Starts (Transition.run (step feedConfig) World.initial leftOutHistory) 0
      ⟨"items", true, .changing 5 10 false⟩ 5 10 false :=
    ⟨by decide +kernel, rfl, rfl, by decide⟩
  have hpass : passAt feedConfig
      (Transition.run (step feedConfig) World.initial leftOutHistory).server "items" 5 10
        = some ⟨[.checkpoint 10], .ok ()⟩ := by decide +kernel
  refine (exact_of_sound feedConfig (.peek 0) hsound _ 5 10 false hstarts _ hpass rfl).1
    (hfaithful _ 5 10 false hstarts _ hpass rfl) ⟨leftOutPlan, ?_⟩
  refine ⟨⟨"pgoutput", none, some "reserved", 10⟩, by decide, by decide +kernel, ?_⟩
  refine ⟨⟨5, [(6, .insert itemsRelation ⟨[.text "1".toUTF8]⟩)], 10, ["orders", "items"]⟩,
    by decide +kernel, ?_, .inl (by decide)⟩
  decide

end Cdc
