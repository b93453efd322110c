import Mathlib
import RdltConnectors.Library.Transition
import RdltConnectors.Snowflake.Load

/-!
# Owed clears

A row written under Replace may come into its target only after the target's DELETE,
in what is durable. What carries this through a session is that every target with such
rows on their way is known to be cleared, or is owed a clear. The owed clears leave the
session before they run, so a run of hooks keeps it where none of them fails.
-/
namespace Snowflake

open Sqlcore Interrupted

variable {R D : Type}

/-! ## What must come after a clear -/

def HasReplaced (part : Part R) : Prop := ∃ row ∈ part, row.mode = .replace

instance (part : Part R) : Decidable (HasReplaced part) :=
  inferInstanceAs (Decidable (∃ row ∈ part, row.mode = .replace))

/-- The target whose DELETE a statement has to come after. -/
def needsClear : Statement R D → Option String
  | .copyInto (.target table) _ parts =>
    if ∃ part ∈ parts, HasReplaced part then some table else none
  | .recordCleared table => some table
  | _ => none

def Cleared (table : String) (effects : Effects R D) : Prop :=
  .deleteFrom (.target table) ∈ effects

def ClearedFirst (effects : Effects R D) : Prop :=
  Log.Preceded (fun statement => (needsClear statement).isSome)
    (fun statement earlier => ∃ table, needsClear statement = some table ∧
      earlier = .deleteFrom (.target table)) effects

theorem clearedFirst_append {effects : Effects R D} (h : ClearedFirst effects)
    {statement : Statement R D}
    (hclear : ∀ table, needsClear statement = some table → Cleared table effects) :
    ClearedFirst (effects ++ [statement]) := by
  apply Log.preceded_append h
  intro hneeds
  obtain ⟨table, htable⟩ := Option.isSome_iff_exists.1 hneeds
  exact ⟨_, hclear table htable, table, htable, rfl⟩

theorem Cleared.append {table : String} {effects : Effects R D} (h : Cleared table effects)
    (more : Effects R D) : Cleared table (effects ++ more) := List.mem_append_left _ h

/-- Rows written under Replace come into their target after its DELETE. -/
def ReplacedRowsFollowClear (effects : Effects R D) : Prop :=
  ∀ before table columns parts after,
    effects = before ++ .copyInto (.target table) columns parts :: after →
      (∃ part ∈ parts, ∃ row ∈ part, row.mode = .replace) → .deleteFrom (.target table) ∈ before

theorem ClearedFirst.copies {effects : Effects R D} (h : ClearedFirst effects) :
    ReplacedRowsFollowClear effects := by
  intro before table columns parts after heq hrows
  have hneeds : needsClear (.copyInto (.target table) columns parts : Statement R D) = some table :=
    if_pos hrows
  obtain ⟨earlier, hmem, t, ht, rfl⟩ :=
    h before _ after heq (Option.isSome_iff_exists.2 ⟨table, hneeds⟩)
  rw [hneeds] at ht
  obtain rfl := Option.some.inj ht
  exact hmem

theorem ClearedFirst.recorded {effects : Effects R D} (h : ClearedFirst effects) {table : String}
    (hmem : .recordCleared table ∈ effects) : Cleared table effects := by
  obtain ⟨earlier, hearlier, t, ht, rfl⟩ := Log.Preceded.of_mem h hmem rfl
  obtain rfl := Option.some.inj ht
  exact hearlier

/-! ## The invariant -/

/-- Rows written under Replace are on their way to the target. -/
def Load.Awaits (load : Load R) (table : String) : Prop :=
  (∃ e ∈ load.openParts, e.1 = .target table ∧ HasReplaced e.2) ∨
  (∃ e ∈ load.pending, e.1 = .target table ∧ ∃ part ∈ e.2.parts, HasReplaced part)

instance (load : Load R) (table : String) : Decidable (load.Awaits table) :=
  inferInstanceAs (Decidable ((∃ e ∈ load.openParts, e.1 = .target table ∧ HasReplaced e.2) ∨
    (∃ e ∈ load.pending, e.1 = .target table ∧ ∃ part ∈ e.2.parts, HasReplaced part)))

def Load.Covers (load : Load R) (table : String) : Prop :=
  table ∈ load.cleared ∨ table ∈ load.clearedInUnit ∨ table ∈ load.reclearOwed

/-- What the service holds, and what the session believes committed. -/
structure Core (s : Session R D) : Prop where
  first : ClearedFirst s.service.view
  cleared : ∀ table ∈ s.load.cleared, Cleared table s.service.durable

/-- Every target that awaits rows is covered, or is about to be. -/
structure Kept (extra : List String) (s : Session R D) : Prop extends Core s where
  inUnit : ∀ table ∈ s.load.clearedInUnit, Cleared table s.service.view
  owing : ∀ table, s.load.Awaits table → s.load.Covers table ∨ table ∈ extra

/-- The invariant, with a fact about the session's three sets. -/
def Held (fact : List String → List String → List String → Prop) (s : Session R D) : Prop :=
  Kept [] s ∧ fact s.load.cleared s.load.clearedInUnit s.load.reclearOwed

variable {fact : List String → List String → List String → Prop}

theorem Held.weaken {fact' : List String → List String → List String → Prop} {s : Session R D}
    (h : Held fact s) (hfact : ∀ c i o, fact c i o → fact' c i o) : Held fact' s :=
  ⟨h.1, hfact _ _ _ h.2⟩

/-! ## Statements -/

theorem triple_send {P I : Session R D → Prop} {Q : Unit → Session R D → Prop}
    {effect : Service R D → Service R D}
    (hdone : ∀ s, P s → s.replies.headD .done = .done → Q () (s.answered effect))
    (hrefused : ∀ s, P s → s.replies.headD .done ≠ .done → I (s.answered id))
    (hlost : ∀ s, P s → s.replies.headD .done ≠ .done → I (s.answered effect)) :
    Triple P (send effect) Q I := by
  refine triple_bind (Q := fun seen s => seen = s ∧ P s) (triple_get fun s hs => ⟨rfl, hs⟩)
    fun seen => ?_
  cases hreply : seen.replies.headD .done with
  | done =>
    apply triple_modify
    rintro s ⟨rfl, hs⟩
    exact hdone seen hs hreply
  | refused =>
    refine triple_bind (Q := fun _ => I) (triple_modify ?_) fun _ => triple_throw fun _ h => h
    rintro s ⟨rfl, hs⟩
    exact hrefused seen hs (by rw [hreply]; rintro ⟨⟩)
  | lost =>
    refine triple_bind (Q := fun _ => I) (triple_modify ?_) fun _ => triple_throw fun _ h => h
    rintro s ⟨rfl, hs⟩
    exact hlost seen hs (by rw [hreply]; rintro ⟨⟩)

theorem keeps_send {P : Session R D → Prop} {effect : Service R D → Service R D}
    (hskip : ∀ s, P s → P (s.answered id)) (hstep : ∀ s, P s → P (s.answered effect)) :
    Keeps P (send effect) :=
  triple_send (fun s hs _ => hstep s hs) (fun s hs _ => hskip s hs) fun s hs _ => hstep s hs

/-- The service may move on as long as it forgets nothing and clears what it must. -/
theorem Kept.advance {extra : List String} {s : Session R D} (h : Kept extra s)
    {effect : Service R D → Service R D} (hfirst : ClearedFirst (effect s.service).view)
    (hdurable : s.service.durable <+: (effect s.service).durable)
    (hview : s.service.view <+: (effect s.service).view) : Kept extra (s.answered effect) where
  first := hfirst
  cleared table htable := hdurable.subset (h.cleared table htable)
  inUnit table htable := hview.subset (h.inUnit table htable)
  owing := h.owing

theorem Kept.skip {extra : List String} {s : Session R D} (h : Kept extra s) :
    Kept extra (s.answered id) := ⟨⟨h.first, h.cleared⟩, h.inUnit, h.owing⟩

theorem Kept.execute {extra : List String} {s : Session R D} (h : Kept extra s)
    {statement : Statement R D}
    (hclear : ∀ table, needsClear statement = some table → Cleared table s.service.view) :
    Kept extra (s.answered fun service => service.execute statement) := by
  apply h.advance
  · rw [Service.view_execute]
    exact clearedFirst_append h.first hclear
  · exact s.service.durable_execute statement
  · rw [Service.view_execute]
    exact List.prefix_append _ _

theorem keeps_execute {statement : Statement R D} (hneeds : needsClear statement = none) :
    Keeps (Held fact) (Snowflake.execute statement) := by
  apply keeps_send
  · exact fun s hs => ⟨hs.1.skip, hs.2⟩
  · intro s hs
    refine ⟨hs.1.execute fun table htable => ?_, hs.2⟩
    rw [hneeds] at htable
    cases htable

theorem keeps_ask {α : Type} (query : Effects R D → α) : Keeps (Held fact) (ask query) := by
  apply Keeps.bind
  · exact keeps_send (fun s hs => ⟨hs.1.skip, hs.2⟩) fun s hs => ⟨hs.1.skip, hs.2⟩
  · exact fun _ => Keeps.bind keeps_get fun _ => keeps_pure _

theorem triple_theLoad {P I : Session R D → Prop} {Q : Load R → Session R D → Prop}
    (h : ∀ s, P s → Q s.load s) : Triple P theLoad Q I :=
  triple_bind (Q := fun seen s => seen = s ∧ P s) (triple_get fun s hs => ⟨rfl, hs⟩) fun seen =>
    triple_pure fun s hs => by
      obtain ⟨rfl, hs⟩ := hs
      exact h seen hs

theorem triple_change {P I : Session R D → Prop} {Q : Unit → Session R D → Prop}
    {f : Load R → Load R} (h : ∀ s, P s → Q () { s with load := f s.load }) :
    Triple P (change f) Q I := triple_modify h

/-! ## Opening a unit -/

/-- BEGIN and the capture of the instant succeed, or have done so before. -/
def opens (load : Load R) (replies : List Reply) : Bool :=
  load.unitOpen || (replies.take 2).all fun reply => reply = .done

/-- The answers to owed clears, two statements each. One that fails drops its clear and
those behind it, so no target of them may await rows. -/
def ClearsKept (awaits : String → Prop) : List String → List Reply → Prop
  | [], _ => True
  | table :: owed, replies =>
    (∀ t ∈ table :: owed, ¬awaits t) ∨
      (∀ reply ∈ replies.take 2, reply = .done) ∧ ClearsKept awaits owed (replies.drop 2)

instance decidableClearsKept (awaits : String → Prop) [DecidablePred awaits] :
    (owed : List String) → (replies : List Reply) → Decidable (ClearsKept awaits owed replies)
  | [], _ => .isTrue trivial
  | table :: owed, replies =>
    have := decidableClearsKept awaits owed (replies.drop 2)
    inferInstanceAs (Decidable ((∀ t ∈ table :: owed, ¬awaits t) ∨
      (∀ reply ∈ replies.take 2, reply = .done) ∧ ClearsKept awaits owed (replies.drop 2)))

theorem ClearsKept.head {awaits : String → Prop} {owed : List String} {replies : List Reply}
    (h : ClearsKept awaits owed replies) :
    (∀ t ∈ owed, ¬awaits t) ∨
      (∀ reply ∈ replies.take 2, reply = .done) ∧
        ClearsKept awaits owed.tail (replies.drop 2) := by
  cases owed with
  | nil => exact .inl fun t ht => by cases ht
  | cons table owed => exact h

/-- No owed clear fails while its target or that of one behind it awaits rows. -/
def Reclears (load : Load R) (replies : List Reply) : Prop :=
  opens load replies = true →
    ClearsKept load.Awaits load.reclearOwed (replies.drop (if load.unitOpen then 0 else 2))

instance (load : Load R) (replies : List Reply) : Decidable (Reclears load replies) :=
  inferInstanceAs (Decidable (opens load replies = true →
    ClearsKept load.Awaits load.reclearOwed (replies.drop (if load.unitOpen then 0 else 2))))

/-- The owed clears that are still to run, outside the session, and how many answers
to the first of them are to come. -/
structure Reclearing (start : Load R) (answers : Nat) (owed : List String) (s : Session R D) : Prop
    extends Kept owed s where
  taken : s.load.reclearOwed = []
  same : start.reclearOwed = [] → owed = [] ∧ s.load.clearedInUnit = start.clearedInUnit
  replies : (∀ table ∈ owed, ¬s.load.Awaits table) ∨
    (∀ reply ∈ s.replies.take answers, reply = .done) ∧
      ClearsKept s.load.Awaits owed.tail (s.replies.drop answers)

theorem headD_done {replies : List Reply} {answers : Nat}
    (h : ∀ reply ∈ replies.take (answers + 1), reply = .done) : replies.headD .done = .done := by
  cases replies with
  | nil => rfl
  | cons reply rest => exact h reply List.mem_cons_self

theorem tail_done {replies : List Reply} {answers : Nat}
    (h : ∀ reply ∈ replies.take (answers + 1), reply = .done) :
    ∀ reply ∈ replies.tail.take answers, reply = .done := by
  cases replies with
  | nil => exact fun _ hmem => by simp at hmem
  | cons reply rest => exact fun r hr => h r (List.mem_cons_of_mem _ hr)

theorem Reclearing.stop {start : Load R} {answers : Nat} {owed : List String} {s : Session R D}
    (h : Reclearing start (answers + 1) owed s) (hreply : s.replies.headD .done ≠ .done) :
    Kept [] s := by
  refine ⟨h.toCore, h.inUnit, fun t ht => ?_⟩
  cases h.owing t ht with
  | inl hcovers => exact .inl hcovers
  | inr howed =>
    cases h.replies with
    | inl hnone => exact absurd ht (hnone t howed)
    | inr hdone => exact absurd (headD_done hdone.1) hreply

theorem Reclearing.execute {start : Load R} {answers : Nat} {owed : List String} {s : Session R D}
    (h : Reclearing start (answers + 1) owed s) {statement : Statement R D}
    (hclear : ∀ table, needsClear statement = some table → Cleared table s.service.view) :
    Reclearing start answers owed (s.answered fun service => service.execute statement) where
  toKept := h.toKept.execute hclear
  taken := h.taken
  same := h.same
  replies := h.replies.imp id fun hdone => ⟨tail_done hdone.1, List.drop_tail ▸ hdone.2⟩

/-- One owed clear. -/
theorem clearTarget_reclearing (start : Load R) (table : String) (owed : List String) :
    Triple (Reclearing start 2 (table :: owed)) (clearTarget table)
      (fun _ => Reclearing start 2 owed) (Kept (D := D) []) := by
  refine triple_bind (Q := fun _ s => Reclearing start 1 (table :: owed) s ∧
    Cleared table s.service.view) ?_ fun _ => ?_
  · apply triple_send
    · intro s hs _
      refine ⟨hs.execute (by rintro _ ⟨⟩), ?_⟩
      change Cleared table (s.service.execute _).view
      rw [Service.view_execute]
      exact List.mem_append_right _ List.mem_cons_self
    · exact fun s hs hreply => (hs.stop hreply).skip
    · exact fun s hs hreply => (hs.stop hreply).execute (by rintro _ ⟨⟩)
  · refine triple_bind (Q := fun _ s => Reclearing start 0 (table :: owed) s ∧
      Cleared table s.service.view) ?_ fun _ => ?_
    · apply triple_send
      · intro s hs _
        refine ⟨hs.1.execute fun t ht => ?_, ?_⟩
        · obtain rfl := Option.some.inj ht
          exact hs.2
        · change Cleared table (s.service.execute _).view
          rw [Service.view_execute]
          exact hs.2.append _
      · exact fun s hs hreply => (hs.1.stop hreply).skip
      · intro s hs hreply
        refine (hs.1.stop hreply).execute fun t ht => ?_
        obtain rfl := Option.some.inj ht
        exact hs.2
    · apply triple_change
      rintro s ⟨hs, hclear⟩
      refine ⟨⟨⟨hs.first, hs.cleared⟩, fun t ht => ?_, fun t ht => ?_⟩, hs.taken,
        fun hnone => (by cases (hs.same hnone).1), ?_⟩
      · cases List.mem_append.1 ht with
        | inl ht => exact hs.inUnit t ht
        | inr ht =>
          obtain rfl := List.mem_singleton.1 ht
          exact hclear
      · rcases hs.owing t ht with (hc | hc | hc) | howed
        · exact .inl (.inl hc)
        · exact .inl (.inr (.inl (List.mem_append_left _ hc)))
        · exact .inl (.inr (.inr hc))
        · cases List.mem_cons.1 howed with
          | inl heq => exact .inl (.inr (.inl (List.mem_append_right _ (heq ▸ List.mem_cons_self))))
          | inr howed => exact .inr howed
      · cases hs.replies with
        | inl hnone => exact .inl fun t ht => hnone t (List.mem_cons_of_mem _ ht)
        | inr hdone => exact hdone.2.head

/-- After the start of a transaction the flag is up and its answers are used. -/
theorem beginIfClosed_spec (s₀ : Session R D) (h : Kept [] s₀) :
    Triple (· = s₀) beginIfClosed
      (fun _ s => Kept [] s ∧ opens s₀.load s₀.replies = true ∧
        s.load = { s₀.load with unitOpen := true } ∧
        s.replies = s₀.replies.drop (if s₀.load.unitOpen then 0 else 2)) (Kept []) := by
  apply triple_bind (Q := fun load s => load = s₀.load ∧ s = s₀)
  · apply triple_theLoad
    rintro s rfl
    exact ⟨rfl, rfl⟩
  · intro load
    apply triple_given
    rintro rfl
    apply triple_ite
    · intro hopen
      apply triple_pure
      rintro s rfl
      refine ⟨h, by rw [opens, hopen, Bool.true_or], ?_, by rw [if_pos hopen, List.drop_zero]⟩
      cases hload : s.load
      rw [hload] at hopen
      simp only at hopen
      rw [hopen]
    · intro hclosed
      have hfalse : s₀.load.unitOpen = false := Bool.eq_false_iff.2 hclosed
      have hbegun : Kept [] (s₀.answered Service.begin) :=
        h.advance h.first List.prefix_rfl List.prefix_rfl
      refine triple_bind (Q := fun _ s => s = s₀.answered Service.begin ∧
        s₀.replies.headD .done = .done) (triple_send ?_ ?_ ?_) fun _ => ?_
      · rintro s rfl hreply
        exact ⟨rfl, hreply⟩
      · rintro s rfl -
        exact h.skip
      · rintro s rfl -
        exact hbegun
      · refine triple_bind (Q := fun _ s => Kept [] s ∧ s₀.replies.headD .done = .done ∧
          s.load = { s₀.load with unitOpen := true } ∧ s.replies = s₀.replies.tail)
          (triple_change ?_) fun _ => triple_send ?_ ?_ ?_
        · rintro s ⟨rfl, hreply⟩
          exact ⟨⟨⟨hbegun.first, hbegun.cleared⟩, hbegun.inUnit, hbegun.owing⟩, hreply, rfl, rfl⟩
        · rintro s ⟨hs, hfirst, hload, hreplies⟩ hsecond
          rw [hreplies] at hsecond
          refine ⟨hs.skip, ?_, hload, ?_⟩
          · rw [opens, hfalse, Bool.false_or]
            cases hr : s₀.replies with
            | nil => rfl
            | cons first rest =>
              rw [hr] at hfirst hsecond
              cases rest with
              | nil => simpa using hfirst
              | cons second rest => simpa using ⟨hfirst, hsecond⟩
          · change s.replies.tail = _
            rw [hreplies, hfalse]
            exact (List.drop_one (l := s₀.replies.tail)).symm.trans (by rw [List.drop_tail]; rfl)
        · exact fun s hs _ => hs.1.skip
        · exact fun s hs _ => hs.1.skip

/-- An opened unit owes nothing any more. -/
theorem openUnit_spec (s₀ : Session R D) (h : Kept [] s₀) (hreclears : Reclears s₀.load s₀.replies) :
    Triple (· = s₀) openUnit
      (fun _ => Held fun _ inUnit owed => owed = [] ∧
        (s₀.load.reclearOwed = [] → inUnit = s₀.load.clearedInUnit)) (Kept []) := by
  apply triple_bind (beginIfClosed_spec s₀ h)
  intro _
  refine triple_bind (Q := fun load s => load = { s₀.load with unitOpen := true } ∧ s.load = load ∧
    Kept [] s ∧ opens s₀.load s₀.replies = true ∧
    s.replies = s₀.replies.drop (if s₀.load.unitOpen then 0 else 2))
    (triple_theLoad fun s hs => ⟨hs.2.2.1, rfl, hs.1, hs.2.1, hs.2.2.2⟩) fun load => ?_
  refine triple_bind (Q := fun _ s => load.reclearOwed = s₀.load.reclearOwed ∧
    Reclearing s₀.load 2 load.reclearOwed s)
    (triple_change ?_) fun _ => ?_
  · rintro s ⟨rfl, hload, hs, hopens, hreplies⟩
    refine ⟨rfl, ⟨⟨⟨hs.first, hs.cleared⟩, hs.inUnit, fun t ht => ?_⟩, rfl, fun hnone => ⟨hnone, ?_⟩,
      ?_⟩⟩
    · rcases hs.owing t ht with (hc | hc | hc) | hnone
      · exact .inl (.inl hc)
      · exact .inl (.inr (.inl hc))
      · rw [hload] at hc
        exact .inr hc
      · cases hnone
    · change s.load.clearedInUnit = _
      rw [hload]
    · rw [hreplies]
      change _ ∨ _ ∧ ClearsKept s.load.Awaits _ _
      rw [hload]
      exact (hreclears hopens).head
  · intro s hs
    have hloop := triple_forM (J := fun owed => Reclearing s₀.load 2 owed)
      (clearTarget_reclearing (D := D) s₀.load) load.reclearOwed s hs.2
    cases hexec : exec (load.reclearOwed.forM clearTarget) s with
    | mk ended s' =>
      rw [hexec] at hloop
      cases ended with
      | error e => exact hloop
      | ok a => exact ⟨hloop.toKept, hloop.taken, fun hnone => (hloop.same hnone).2⟩

/-! ## Parts -/

theorem not_awaits_of_empty {load : Load R} (hopen : load.openParts = []) (hpending : load.pending = [])
    (table : String) : ¬load.Awaits table := by
  rintro (⟨e, he, -⟩ | ⟨e, he, -⟩)
  · rw [hopen] at he
    cases he
  · rw [hpending] at he
    cases he

theorem HasReplaced.append {first second : Part R} (h : HasReplaced (first ++ second)) :
    HasReplaced first ∨ HasReplaced second := by
  obtain ⟨row, hrow, hmode⟩ := h
  cases List.mem_append.1 hrow with
  | inl hrow => exact .inl ⟨row, hrow, hmode⟩
  | inr hrow => exact .inr ⟨row, hrow, hmode⟩

/-- A session that lets no new target wait keeps the invariant. -/
theorem Held.reload {s : Session R D} (h : Held fact s) {load : Load R}
    (hcleared : load.cleared = s.load.cleared) (hinUnit : load.clearedInUnit = s.load.clearedInUnit)
    (howed : load.reclearOwed = s.load.reclearOwed)
    (hawaits : ∀ table, load.Awaits table → s.load.Awaits table ∨ s.load.Covers table) :
    Held fact { s with load := load } := by
  refine ⟨⟨⟨h.1.first, fun t ht => h.1.cleared t (hcleared ▸ ht)⟩,
    fun t ht => h.1.inUnit t (hinUnit ▸ ht), fun t ht => .inl ?_⟩, ?_⟩
  · have hcovers : s.load.Covers t := by
      cases hawaits t ht with
      | inl hold => exact (h.1.owing t hold).resolve_right (by rintro ⟨⟩)
      | inr hnew => exact hnew
    unfold Load.Covers
    rw [hcleared, hinUnit, howed]
    exact hcovers
  · change fact load.cleared load.clearedInUnit load.reclearOwed
    rw [hcleared, hinUnit, howed]
    exact h.2

/-- The part an upload carries belongs to a covered target. -/
def Carries (relation : Relation) (part : Part R) (s : Session R D) : Prop :=
  ∀ table, relation = .target table → HasReplaced part → s.load.Covers table

theorem mem_of_lookup_eq {κ β : Type} [DecidableEq κ] {entries : List (κ × β)} {key : κ} {value : β}
    (h : entries.lookup key = some value) : (key, value) ∈ entries := by
  obtain ⟨before, after, rfl, -⟩ := List.lookup_eq_some_iff.1 h
  simp

theorem keeps_closePart (relation : Relation) :
    Keeps (Held fact) (closePart relation : Hook R D Unit) := by
  refine triple_bind (Q := fun load s => s.load = load ∧ Held fact s)
    (triple_theLoad fun s hs => ⟨rfl, hs⟩) fun load => ?_
  cases hpart : load.openParts.lookup relation with
  | none => exact triple_pure fun s hs => hs.2
  | some part =>
    refine triple_bind (Q := fun _ s => Held fact s ∧ Carries relation part s)
      (triple_change ?_) fun _ => ?_
    · rintro s ⟨rfl, hs⟩
      refine ⟨hs.reload rfl rfl rfl fun t ht => .inl ?_, ?_⟩
      · rcases ht with ⟨e, he, h⟩ | h
        · exact .inl ⟨e, List.mem_of_mem_filter he, h⟩
        · exact .inr h
      · rintro t rfl hrows
        exact (hs.1.owing t (.inl ⟨_, mem_of_lookup_eq hpart, rfl, hrows⟩)).resolve_right (by rintro ⟨⟩)
    · apply triple_ite
      · exact fun _ => triple_pure fun s hs => hs.1
      · intro _
        refine triple_bind (Q := fun _ s => Held fact s ∧ Carries relation part s)
          (triple_send ?_ ?_ ?_) fun _ => triple_change ?_
        · exact fun s hs _ => ⟨⟨hs.1.1.skip, hs.1.2⟩, hs.2⟩
        · exact fun s hs _ => ⟨hs.1.1.skip, hs.1.2⟩
        · exact fun s hs _ => ⟨hs.1.1.skip, hs.1.2⟩
        · rintro s ⟨hs, hcarries⟩
          refine hs.reload rfl rfl rfl fun t ht => ?_
          rcases ht with h | ⟨e, he, htarget, p, hp, hrows⟩
          · exact .inl (.inl h)
          · rcases mem_adjust he with he | rfl | ⟨old, hold, rfl⟩
            · exact .inl (.inr ⟨e, he, htarget, p, hp, hrows⟩)
            · obtain rfl := List.mem_singleton.1 hp
              exact .inr (hcarries t htarget hrows)
            · cases List.mem_append.1 hp with
              | inl hp => exact .inl (.inr ⟨_, hold, htarget, p, hp, hrows⟩)
              | inr hp =>
                obtain rfl := List.mem_singleton.1 hp
                exact .inr (hcarries t htarget hrows)

theorem keeps_closeWhen (closes : Bool) (relation : Relation) :
    Keeps (Held fact) (closeWhen closes relation : Hook R D Unit) :=
  triple_ite (fun _ => keeps_closePart relation) fun _ => keeps_pure ()

/-- What a write has seen to before its rows are staged. -/
def Guarded (table : String) (mode : WriteMode) (cleared inUnit owed : List String) : Prop :=
  owed = [] ∧ (mode = .replace → table ∈ cleared ∨ table ∈ inUnit)

theorem keeps_stageRows (table : String) (mode : WriteMode) (columns : List String) (rows : List R)
    (closings : Closings) :
    Keeps (Held (Guarded table mode)) (stageRows (destinationOf table mode) columns
      (rows.map fun row => ⟨row, mode⟩) closings : Hook R D Unit) := by
  apply Keeps.bind (keeps_closeWhen _ _)
  intro _
  apply Keeps.bind
  · apply triple_change
    intro s hs
    have hnew : ∀ t, destinationOf table mode = .target t →
        HasReplaced (rows.map fun row => (⟨row, mode⟩ : Written R)) → s.load.Covers t := by
      intro t htarget hrows
      obtain ⟨row, hrow, hmode⟩ := hrows
      obtain ⟨r, -, rfl⟩ := List.mem_map.1 hrow
      cases hmode
      obtain rfl := Relation.target.inj htarget
      exact (hs.2.2 rfl).imp id .inl
    refine hs.reload rfl rfl rfl fun t ht => ?_
    rcases ht with ⟨e, he, htarget, hrows⟩ | h
    · rcases mem_adjust he with he | rfl | ⟨old, hold, rfl⟩
      · exact .inl (.inl ⟨e, he, htarget, hrows⟩)
      · exact .inr (hnew t htarget hrows)
      · cases hrows.append with
        | inl hrows => exact .inl (.inl ⟨_, hold, htarget, hrows⟩)
        | inr hrows => exact .inr (hnew t htarget hrows)
    · exact .inl (.inr h)
  · intro _
    apply Keeps.bind (keeps_closeWhen _ _)
    intro _
    apply Keeps.bind
    · apply triple_change
      intro s hs
      refine hs.reload rfl rfl rfl fun t ht => ?_
      rcases ht with h | ⟨e, he, htarget, p, hp, hrows⟩
      · exact .inl (.inl h)
      · rcases mem_adjust he with he | rfl | ⟨old, hold, rfl⟩
        · exact .inl (.inr ⟨e, he, htarget, p, hp, hrows⟩)
        · cases hp
        · exact .inl (.inr ⟨_, hold, htarget, p, hp, hrows⟩)
    · exact fun _ => Keeps.forM (fun relation => keeps_closePart relation) closings.budget

/-- The COPY of what waits for it, once nothing is owed any more. -/
theorem keeps_loadStagedParts (hfact : ∀ c i o, fact c i o → o = []) :
    Keeps (Held fact) (loadStagedParts : Hook R D Unit) := by
  refine triple_bind (Q := fun _ => Held fact) (triple_theLoad fun s hs => hs) fun load => ?_
  refine triple_bind (Q := fun _ => Held fact)
    (Keeps.forM (fun relation => keeps_closePart relation) _) fun _ => ?_
  refine triple_bind (Q := fun load s => s.load = load ∧ Held fact s)
    (triple_theLoad fun s hs => ⟨rfl, hs⟩) fun load => ?_
  refine triple_bind (Q := fun _ s => Held fact s ∧ ∀ e ∈ load.pending, ∀ table,
    e.1 = .target table → (∃ part ∈ e.2.parts, HasReplaced part) →
      table ∈ s.load.cleared ∨ table ∈ s.load.clearedInUnit) (triple_change ?_) fun _ => ?_
  · rintro s ⟨rfl, hs⟩
    refine ⟨hs.reload rfl rfl rfl fun t ht => ?_, ?_⟩
    · rcases ht with h | ⟨e, he, -⟩
      · exact .inl (.inl h)
      · cases he
    · rintro e he t htarget ⟨part, hpart, hrows⟩
      have hcovers := (hs.1.owing t (.inr ⟨e, he, htarget, part, hpart, hrows⟩)).resolve_right (by rintro ⟨⟩)
      rcases hcovers with h | h | h
      · exact .inl h
      · exact .inr h
      · rw [hfact _ _ _ hs.2] at h
        cases h
  · let known (entries : List (Relation × Pending R)) (s : Session R D) : Prop :=
      Held fact s ∧ ∀ e ∈ entries, ∀ table, e.1 = .target table →
        (∃ part ∈ e.2.parts, HasReplaced part) →
          table ∈ s.load.cleared ∨ table ∈ s.load.clearedInUnit
    refine triple_weaken (triple_forM (J := known) (I := Held fact) (fun e rest => ?_) load.pending)
      (fun s hs => hs) (fun _ s hs => hs.1) fun s hs => hs
    apply triple_ite
    · exact fun _ => triple_pure fun s hs => ⟨hs.1, fun e he => hs.2 e (List.mem_cons_of_mem _ he)⟩
    · intro _
      have hclear : ∀ s : Session R D, known (e :: rest) s → ∀ table,
          needsClear (.copyInto e.1 e.2.columns e.2.parts : Statement R D) = some table →
            Cleared table s.service.view := by
        intro s hs table htable
        unfold needsClear at htable
        split at htable
        · next t columns parts heq =>
          obtain ⟨htarget, -, rfl⟩ := Statement.copyInto.inj heq
          split at htable
          · next hrows =>
            obtain rfl := Option.some.inj htable
            cases hs.2 e List.mem_cons_self t htarget hrows with
            | inl h => exact s.service.durable_view.subset (hs.1.1.cleared t h)
            | inr h => exact hs.1.1.inUnit t h
          · cases htable
        · next heq => cases heq
        · cases htable
      apply triple_send
      · intro s hs _
        exact ⟨⟨hs.1.1.execute (hclear s hs), hs.1.2⟩,
          fun e he => hs.2 e (List.mem_cons_of_mem _ he)⟩
      · exact fun s hs _ => ⟨hs.1.1.skip, hs.1.2⟩
      · exact fun s hs _ => ⟨hs.1.1.execute (hclear s hs), hs.1.2⟩

/-! ## Steps -/

theorem keeps_executeStep (config : Config D) (metadata : CommitMeta D) (step : Step) :
    Keeps (Held fact) (executeStep config metadata step : Hook R D Unit) := by
  cases step with
  | mergeArm table arm =>
    refine triple_bind (Q := fun _ => Held fact) (triple_theLoad fun s hs => hs) fun load => ?_
    cases hstatements : config.mergeStatements load.tables table arm with
    | error message => exact keeps_throw _
    | ok statements => exact Keeps.forM (fun sql => keeps_execute rfl) statements
  | _ => exact keeps_execute rfl

/-- A write prepares its own target. -/
theorem prepare_spec (config : Config D) (table : String) (schema : TableSchema) (mode : WriteMode) :
    Triple (fun s : Session R D => s.load.tables.lookup table = some (schema, mode) ∧
        Held (fun _ _ owed => owed = []) s)
      (prepare config table) (fun _ => Held (Guarded table mode)) (Kept []) := by
  refine triple_bind (Q := fun load s => (load.tables.lookup table = some (schema, mode)) ∧
    s.load = load ∧ Held (fun _ _ owed => owed = []) s)
    (triple_theLoad fun s hs => ⟨hs.1, rfl, hs.2⟩) fun load => triple_given fun hmode => ?_
  unfold prepareTarget
  rw [hmode]
  dsimp only
  split
  · next hother =>
    apply triple_pure
    rintro s ⟨-, hs⟩
    refine ⟨hs.1, hs.2, fun hreplace => ?_⟩
    subst hreplace
    simp [usesStage, WriteMode.isMerge] at hother
  · split
    · next hcleared =>
      apply triple_pure
      rintro s ⟨rfl, hs⟩
      exact ⟨hs.1, hs.2, fun _ => List.mem_append.1 hcleared⟩
    · refine triple_bind (Q := fun _ => Held (Guarded table mode)) ?_ fun _ => triple_pure fun s hs => hs
      refine triple_bind (Q := fun _ s => Held (fun _ _ owed => owed = []) s ∧
        Cleared table s.service.view) (triple_send ?_ ?_ ?_) fun _ => ?_
      · rintro s ⟨-, hs⟩ -
        refine ⟨⟨hs.1.execute (by rintro _ ⟨⟩), hs.2⟩, ?_⟩
        change Cleared table (s.service.execute _).view
        rw [Service.view_execute]
        exact List.mem_append_right _ List.mem_cons_self
      · exact fun s hs _ => hs.2.1.skip
      · exact fun s hs _ => hs.2.1.execute (by rintro _ ⟨⟩)
      · refine triple_bind (Q := fun _ s => Held (fun _ _ owed => owed = []) s ∧
          Cleared table s.service.view) (triple_send ?_ ?_ ?_) fun _ => triple_change ?_
        · rintro s ⟨hs, hclear⟩ -
          refine ⟨⟨hs.1.execute fun t ht => ?_, hs.2⟩, ?_⟩
          · obtain rfl := Option.some.inj ht
            exact hclear
          · change Cleared table (s.service.execute _).view
            rw [Service.view_execute]
            exact hclear.append _
        · exact fun s hs _ => hs.1.1.skip
        · rintro s ⟨hs, hclear⟩ -
          refine hs.1.execute fun t ht => ?_
          obtain rfl := Option.some.inj ht
          exact hclear
        · rintro s ⟨hs, hclear⟩
          refine ⟨⟨⟨hs.1.first, hs.1.cleared⟩, fun t ht => ?_, fun t ht => .inl ?_⟩, hs.2,
            fun _ => .inr (List.mem_append_right _ List.mem_cons_self)⟩
          · cases List.mem_append.1 ht with
            | inl ht => exact hs.1.inUnit t ht
            | inr ht =>
              obtain rfl := List.mem_singleton.1 ht
              exact hclear
          · rcases (hs.1.owing t ht).resolve_right (by rintro ⟨⟩) with h | h | h
            · exact .inl h
            · exact .inr (.inl (List.mem_append_left _ h))
            · exact .inr (.inr h)

/-! ## Ending a unit -/

/-- What holds of a session whatever the state of its transaction. -/
def Settled (kept : Effects R D → Load R → Prop) (s : Session R D) : Prop :=
  Core s ∧ kept s.service.durable s.load

theorem Core.skip {s : Session R D} (h : Core s) : Core (s.answered id) := ⟨h.first, h.cleared⟩

/-- A rollback forgets the unit's own statements and nothing else. -/
theorem Core.rollback {s : Session R D} (h : Core s) : Core (s.answered Service.rollback) where
  first := by
    change ClearedFirst s.service.rollback.view
    rw [Service.view_rollback]
    exact Log.Preceded.earlier h.first
  cleared := h.cleared

/-- A rollback never fails. -/
theorem rollback_spec {kept : Effects R D → Load R → Prop}
    (hflag : ∀ effects load isOpen, kept effects load → kept effects { load with unitOpen := isOpen }) :
    Triple (Settled kept) (rollback : Hook R D Unit) (fun _ => Settled kept) (Kept []) := by
  refine triple_bind (Q := fun _ => Settled kept) (triple_theLoad fun s hs => hs) fun load => ?_
  apply triple_ite
  · intro _
    refine triple_bind (Q := fun _ => Settled kept)
      (triple_outcome (J := Settled kept) (triple_send ?_ ?_ ?_) fun _ _ hs => hs) fun _ =>
      triple_change fun s hs => ⟨⟨hs.1.first, hs.1.cleared⟩, hflag _ _ _ hs.2⟩
    · exact fun s hs _ => ⟨hs.1.rollback, hs.2⟩
    · exact fun s hs _ => ⟨hs.1.skip, hs.2⟩
    · exact fun s hs _ => ⟨hs.1.rollback, hs.2⟩
  · exact fun _ => triple_pure fun s hs => hs

/-- With nothing staged, nothing is waited for. -/
theorem discardStaged_spec :
    Triple (Settled fun _ load => load.clearedInUnit = []) (discardStaged : Hook R D Unit)
      (fun _ => Kept []) (Kept []) := by
  refine triple_bind (Q := fun _ => Kept []) (triple_change ?_) fun _ => ?_
  · rintro s ⟨hs, hnone⟩
    refine ⟨⟨hs.first, hs.cleared⟩, fun t ht => ?_, fun t ht => ?_⟩
    · change t ∈ s.load.clearedInUnit at ht
      rw [hnone] at ht
      cases ht
    · exact absurd ht (not_awaits_of_empty rfl rfl t)
  · refine triple_bind (Q := fun _ => Kept []) (triple_outcome (J := Kept [])
      (triple_send ?_ ?_ ?_) fun _ _ hs => hs) fun _ => triple_pure fun s hs => hs
    · exact fun s hs _ => hs.skip
    · exact fun s hs _ => hs.skip
    · exact fun s hs _ => hs.skip

theorem abandon_spec (error : DestinationError) :
    Triple (Held fact) (abandon error : Hook R D Unit) (fun _ => Kept []) (Kept []) := by
  refine triple_bind (Q := fun _ => Settled fun _ _ => True)
    (triple_weaken (rollback_spec fun _ _ _ h => h) (fun s hs => ⟨hs.1.toCore, trivial⟩)
      (fun _ s hs => hs) fun s hs => hs) fun _ => ?_
  refine triple_bind (Q := fun _ => Settled fun _ load => load.clearedInUnit = [])
    (triple_change fun s hs => ⟨⟨hs.1.first, hs.1.cleared⟩, rfl⟩) fun _ => ?_
  exact triple_bind discardStaged_spec fun _ => triple_throw fun s hs => hs

/-! ## Hooks -/

/-- Schema work turns the clears of the unit into owed ones. -/
theorem ensureTable_spec (schema : TableSchema) (mode : WriteMode) (work : SchemaWork) :
    Keeps (Kept []) (ensureTable schema mode work : Hook R D Unit) := by
  have hschema : ∀ sql, Keeps (Kept [])
      (send fun service => service.executeSchema sql : Hook R D Unit) := by
    intro sql
    apply keeps_send
    · exact fun s hs => hs.skip
    · intro s hs
      apply hs.advance
      · unfold Service.executeSchema
        rw [Service.view_execute, Service.view_commit]
        exact clearedFirst_append hs.first (by rintro _ ⟨⟩)
      · exact s.service.durable_view.trans (s.service.commit.durable_execute _)
      · unfold Service.executeSchema
        rw [Service.view_execute, Service.view_commit]
        exact List.prefix_append _ _
  apply Keeps.bind
  · refine triple_bind (Q := fun _ => Kept []) (triple_theLoad fun s hs => hs) fun load => ?_
    apply triple_ite
    · intro _
      refine triple_bind (Q := fun _ => Settled fun _ load =>
        ∀ table, load.Awaits table → load.Covers table) ?_ fun _ => triple_change ?_
      · exact triple_weaken (rollback_spec fun _ _ _ h => h)
          (fun s hs => ⟨hs.toCore, fun t ht => (hs.owing t ht).resolve_right (by rintro ⟨⟩)⟩)
          (fun _ s hs => hs) fun s hs => hs
      · rintro s ⟨hs, hcovers⟩
        refine ⟨⟨hs.first, hs.cleared⟩, by rintro _ ⟨⟩, fun t ht => .inl ?_⟩
        rcases hcovers t ht with h | h | h
        · exact .inl h
        · exact .inr (.inr (List.mem_append_right _ h))
        · exact .inr (.inr (List.mem_append_left _ h))
    · exact fun _ => keeps_pure ()
  · intro _
    apply Keeps.bind (Keeps.forM hschema _)
    intro _
    apply Keeps.bind (Keeps.forM hschema _)
    exact fun _ => keeps_modify fun s hs => ⟨⟨hs.first, hs.cleared⟩, hs.inUnit, hs.owing⟩

/-- The tables of the session are set by its ensures alone. -/
theorem openUnit_tables (tables : SessionTables) :
    Keeps (fun s : Session R D => s.load.tables = tables) openUnit := by
  have hsend : ∀ effect : Service R D → Service R D,
      Keeps (fun s : Session R D => s.load.tables = tables) (send effect) :=
    fun effect => keeps_send (fun s hs => hs) fun s hs => hs
  have hchange : ∀ f : Load R → Load R, (∀ load, (f load).tables = load.tables) →
      Keeps (fun s : Session R D => s.load.tables = tables) (change f) :=
    fun f hf => keeps_modify fun s hs => (hf s.load).trans hs
  apply Keeps.bind
  · apply Keeps.bind (triple_theLoad fun s hs => hs)
    intro load
    apply triple_ite
    · exact fun _ => keeps_pure ()
    · intro _
      apply Keeps.bind (hsend _)
      intro _
      exact Keeps.bind (hchange _ fun _ => rfl) fun _ => hsend _
  · intro _
    apply Keeps.bind (triple_theLoad fun s hs => hs)
    intro load
    refine Keeps.bind (hchange _ fun _ => rfl) fun _ => Keeps.forM (fun table => ?_) _
    apply Keeps.bind (hsend _)
    intro _
    apply Keeps.bind (hsend _)
    exact fun _ => hchange _ fun _ => rfl

theorem write_spec (config : Config D) (table : String) (rows : List R) (closings : Closings)
    (s₀ : Session R D) (h : Kept [] s₀)
    (hreclears : (s₀.load.tables.lookup table).isSome → Reclears s₀.load s₀.replies) :
    Triple (· = s₀) (write config table rows closings) (fun _ => Kept []) (Kept []) := by
  refine triple_bind (Q := fun load s => load = s₀.load ∧ s = s₀)
    (triple_theLoad fun s hs => ⟨by rw [hs], hs⟩) fun load => triple_given fun hload => ?_
  subst hload
  cases hlookup : s₀.load.tables.lookup table with
  | none => exact triple_throw fun s hs => hs ▸ h
  | some entry =>
    obtain ⟨schema, mode⟩ := entry
    have hopen := triple_and (openUnit_spec s₀ h (hreclears (by rw [hlookup]; rfl)))
      (openUnit_tables (R := R) (D := D) s₀.load.tables)
    refine triple_bind (Q := fun _ s => s.load.tables.lookup table = some (schema, mode) ∧
      Held (fun _ _ owed => owed = []) s)
      (triple_weaken hopen (fun s hs => ⟨hs, by rw [hs]⟩) (fun _ s hs => ⟨?_, ?_⟩)
        fun s hs => hs.1) fun _ => ?_
    · rw [hs.2]
      exact hlookup
    · exact hs.1.weaken fun _ _ _ hfact => hfact.1
    · refine triple_bind (prepare_spec config table schema mode) fun _ => ?_
      apply triple_ite
      · exact fun _ => triple_pure fun s hs => hs.1
      · exact fun _ => triple_weaken (keeps_stageRows table mode schema.columnNames rows closings)
          (fun s hs => hs) (fun _ s hs => hs.1) fun s hs => hs.1

theorem existingReceipt_spec (config : Config D) (loadId : String) (seq : UInt64)
    (s₀ : Session R D) (h : Kept [] s₀)
    (hreclears : config.loadId = loadId → Reclears s₀.load s₀.replies) :
    Triple (· = s₀) (existingReceipt config loadId seq) (fun _ => Kept []) (Kept []) := by
  apply triple_ite
  · exact fun _ => triple_throw fun s hs => hs ▸ h
  · intro hload
    refine triple_bind (openUnit_spec s₀ h (hreclears (Decidable.not_not.1 hload))) fun _ => ?_
    exact triple_weaken (keeps_ask _) (fun s hs => hs) (fun _ s hs => hs.1) fun s hs => hs.1

/-- The unit's clears are durable as well. -/
def Promotable (effects : Effects R D) (load : Load R) : Prop :=
  ∀ table ∈ load.clearedInUnit, Cleared table effects

/-- The session counts the unit's clears as committed. -/
theorem promote_spec (marks : List String) :
    Triple (Settled (R := R) (D := D) Promotable)
      (change fun load => { load with
        singleUnitDone := load.singleUnitDone ++ marks
        cleared := load.cleared ++ load.clearedInUnit
        clearedInUnit := [] })
      (fun _ => Settled fun _ load => load.clearedInUnit = []) (Kept []) := by
  apply triple_change
  rintro s ⟨hs, hdurable⟩
  refine ⟨⟨hs.first, fun t ht => ?_⟩, rfl⟩
  cases List.mem_append.1 ht with
  | inl ht => exact hs.cleared t ht
  | inr ht => exact hdurable t ht

/-- A replay may promote what is durably cleared. -/
theorem replay_spec :
    Triple (fun s : Session R D => Kept [] s ∧ Promotable s.service.durable s.load)
      replay (fun _ => Kept []) (Kept []) := by
  refine triple_bind (Q := fun _ => Settled Promotable)
    (triple_weaken (rollback_spec fun _ _ _ h => h) (fun s hs => ⟨hs.1.toCore, hs.2⟩)
      (fun _ s hs => hs) fun s hs => hs) fun _ => ?_
  refine triple_bind (Q := fun _ => Settled fun _ load => load.clearedInUnit = [])
    (triple_change ?_) fun _ => discardStaged_spec
  rintro s ⟨hs, hdurable⟩
  refine ⟨⟨hs.first, fun t ht => ?_⟩, rfl⟩
  cases List.mem_append.1 ht with
  | inl ht => exact hs.cleared t ht
  | inr ht => exact hdurable t ht

/-- Only a COMMIT that loses its transaction takes clears back. -/
theorem commitUnit_spec (reply : CommitReply) :
    Triple (Held (R := R) (D := D) fun _ inUnit _ => reply = .abandoned → inUnit = [])
      (commitUnit reply) (fun _ => Settled Promotable) (Kept []) := by
  have hcommitted : ∀ s : Session R D, Kept [] s →
      Kept [] { s with service := s.service.commit } := by
    intro s hs
    refine ⟨⟨?_, fun t ht => ?_⟩, fun t ht => ?_, hs.owing⟩
    · change ClearedFirst s.service.commit.view
      rw [Service.view_commit]
      exact hs.first
    · exact s.service.durable_view.subset (hs.cleared t ht)
    · change Cleared t s.service.commit.view
      rw [Service.view_commit]
      exact hs.inUnit t ht
  cases reply with
  | committed =>
    refine triple_bind (Q := fun _ => Settled Promotable) (triple_modify ?_) fun _ =>
      triple_change fun s hs => ⟨⟨hs.1.first, hs.1.cleared⟩, hs.2⟩
    exact fun s hs => ⟨(hcommitted s hs.1).toCore, hs.1.inUnit⟩
  | refused => exact triple_throw fun s hs => hs.1
  | lost =>
    refine triple_bind (Q := fun _ => Kept []) (triple_modify fun s hs => hcommitted s hs.1) fun _ =>
      triple_throw fun s hs => hs
  | abandoned =>
    refine triple_bind (Q := fun _ => Kept []) (triple_modify ?_) fun _ => triple_throw fun s hs => hs
    intro s hs
    refine ⟨⟨?_, hs.1.cleared⟩, fun t ht => ?_, hs.1.owing⟩
    · change ClearedFirst s.service.rollback.view
      rw [Service.view_rollback]
      exact Log.Preceded.earlier hs.1.first
    · change t ∈ s.load.clearedInUnit at ht
      rw [hs.2 rfl] at ht
      cases ht

theorem settle_spec (config : Config D) (metadata : CommitMeta D) (staged : List String)
    (script : CommitScript) (reply : CommitReply) :
    Triple (Held (R := R) fun _ inUnit _ => reply = .abandoned → inUnit = [])
      (settle config metadata staged script reply) (fun _ => Kept []) (Kept []) := by
  refine triple_bind (Q := fun _ => Held fun _ inUnit _ => reply = .abandoned → inUnit = [])
    (triple_outcome (Keeps.forM (keeps_executeStep config metadata) script.steps)
      fun _ _ hs => hs) fun ended => ?_
  cases ended with
  | error error => exact abandon_spec error
  | ok _ =>
    exact triple_bind (commitUnit_spec reply) fun _ =>
      triple_bind (promote_spec staged) fun _ => discardStaged_spec

/-- What a publish may rely on once its unit is open. -/
def Publishing (reply : CommitReply) (_ inUnit owed : List String) : Prop :=
  owed = [] ∧ (reply = .abandoned → inUnit = [])

theorem publish_spec (config : Config D) (metadata : CommitMeta D) (reply : CommitReply)
    (s₀ : Session R D) (h : Kept [] s₀) (hreclears : Reclears s₀.load s₀.replies)
    (habandoned : reply = .abandoned → s₀.load.clearedInUnit = [] ∧ s₀.load.reclearOwed = []) :
    Triple (· = s₀) (publish config metadata reply) (fun _ => Kept []) (Kept []) := by
  refine triple_bind (Q := fun _ => Held (Publishing reply)) ?_ fun _ => ?_
  · refine triple_weaken (openUnit_spec s₀ h hreclears) (fun s hs => hs) (fun _ s hs => ?_)
      fun s hs => hs
    refine hs.weaken fun _ inUnit owed hfact => ⟨hfact.1, fun hreply => ?_⟩
    rw [hfact.2 (habandoned hreply).2]
    exact (habandoned hreply).1
  · refine triple_bind (triple_outcome (Q := fun _ => Held (Publishing reply))
      (keeps_loadStagedParts fun _ _ _ hfact => hfact.1) fun _ _ hs => hs) fun ended => ?_
    cases ended with
    | error error => exact abandon_spec error
    | ok _ =>
      refine triple_bind (Q := fun _ => Held (Publishing reply)) ?_ fun staged => ?_
      · refine triple_bind (Q := fun _ => Held (Publishing reply)) (triple_theLoad fun s hs => hs)
          fun load => ?_
        exact Keeps.cut (Keeps.filterM (fun table => keeps_ask _) _) fun s hs => hs.1
      · refine triple_bind (Q := fun _ => Held (Publishing reply)) (triple_theLoad fun s hs => hs)
          fun load => ?_
        cases planUnit config load staged with
        | error error => exact triple_throw fun s hs => hs.1
        | ok script =>
          exact triple_weaken (settle_spec config metadata staged script reply)
            (fun s hs => hs.weaken fun _ _ _ hfact => hfact.2) (fun _ s hs => hs) fun s hs => hs

/-! ## Runs -/

/-- No owed clear fails while its target awaits rows; a replay finds the clears of its
unit durable; a COMMIT that loses its transaction takes no clear with it. -/
def ClearsSurvive (config : Config D) (w : World R D) (event : Event R D) : Prop :=
  match event, w.session with
  | .write table _ _ replies, some load =>
    (load.tables.lookup table).isSome → Reclears load replies
  | .existingReceipt loadId _ replies, some load =>
    config.loadId = loadId → Reclears load replies
  | .replay _, some load => Promotable w.service.durable load
  | .publish _ replies commit, some load =>
    Reclears load replies ∧
      (commit = .abandoned → load.clearedInUnit = [] ∧ load.reclearOwed = [])
  | _, _ => True

def World.start : World R D := ⟨⟨[], none⟩, none⟩

/-- Whatever the answers, what the service shows is cleared first. -/
def Steady (w : World R D) : Prop :=
  match w.session with
  | some load => ∀ replies, Kept [] ⟨w.service, replies, load⟩
  | none => ClearedFirst w.service.view

theorem Steady.first {w : World R D} (h : Steady w) : ClearedFirst w.service.view := by
  unfold Steady at h
  cases hsession : w.session with
  | none =>
    rw [hsession] at h
    exact h
  | some load =>
    rw [hsession] at h
    exact (h []).first

theorem Steady.durable {w : World R D} (h : Steady w) : ClearedFirst w.service.durable :=
  Log.Preceded.earlier h.first

theorem hook_steady {α : Type} {w : World R D} {load : Load R} {replies : List Reply}
    {h : Hook R D α}
    (hspec : Triple (· = ⟨w.service, replies, load⟩) h (fun _ => Kept []) (Kept [])) :
    Steady (w.hook load replies h) := by
  have hrun := hspec _ rfl
  intro answers
  unfold World.hook
  cases hexec : exec h ⟨w.service, replies, load⟩ with
  | mk ended s =>
    rw [hexec] at hrun
    have hkept : Kept [] s := by
      cases ended with
      | ok a => exact hrun
      | error e => exact hrun
    exact ⟨⟨hkept.first, hkept.cleared⟩, hkept.inUnit, hkept.owing⟩

theorem crash_steady (config : Config D) {w : World R D} (h : Steady w) :
    Steady (w.step config .crash) := by
  change ClearedFirst w.service.rollback.view
  rw [Service.view_rollback]
  exact h.durable

theorem connect_steady (config : Config D) {w : World R D} (h : Steady w) :
    Steady (w.step config .connect) := by
  intro replies
  refine ⟨⟨crash_steady config h, fun t ht => ?_⟩, by rintro _ ⟨⟩, fun t ht => ?_⟩
  · exact h.durable.recorded (mem_readClearedTargets.1 ht)
  · exact absurd ht (not_awaits_of_empty rfl rfl t)

/-- One step. -/
theorem step_steady (config : Config D) (w : World R D) (event : Event R D) (h : Steady w)
    (hevent : ClearsSurvive config w event) : Steady (w.step config event) := by
  obtain ⟨service, session⟩ := w
  cases session with
  | none =>
    cases event with
    | connect => exact connect_steady config h
    | crash => exact crash_steady config h
    | _ => exact h
  | some load =>
    cases event with
    | connect => exact connect_steady config h
    | crash => exact crash_steady config h
    | ensureTable schema mode work replies =>
      exact hook_steady (triple_weaken (ensureTable_spec schema mode work)
        (fun s hs => hs ▸ h replies) (fun _ s hs => hs) fun s hs => hs)
    | write table rows closings replies =>
      exact hook_steady (write_spec config table rows closings _ (h replies) hevent)
    | existingReceipt loadId seq replies =>
      exact hook_steady (existingReceipt_spec config loadId seq _ (h replies) hevent)
    | replay replies =>
      exact hook_steady (triple_weaken replay_spec (fun s hs => hs ▸ ⟨h replies, hevent⟩)
        (fun _ s hs => hs) fun s hs => hs)
    | publish metadata replies commit =>
      exact hook_steady (publish_spec config metadata commit _ (h replies) hevent.1 hevent.2)

/-- What a run of hooks makes durable, where every step of the run keeps the clears. -/
theorem replaced_rows_follow_clear (config : Config D) (events : List (Event R D))
    (h : Transition.Meets (World.step config) (ClearsSurvive config) World.start events) :
    ReplacedRowsFollowClear (Transition.run (World.step config) World.start events).service.durable := by
  have hsteady : Steady (Transition.run (World.step config) World.start events) :=
    Transition.run_invariant (fun w event hw hevent => step_steady config w event hw hevent)
      Log.preceded_nil h
  exact hsteady.durable.copies

/-! ## A clear that stays, and one that is lost -/

def ordersConfig : Config Unit := ⟨"load-1", "orders", {}, fun _ _ _ => .ok [], ()⟩

def orders : TableSchema := ⟨"orders", none, [⟨"id", .scalar .int64, true⟩]⟩

/-- A unit that schema work ends after its first write, as the service answers the hook that
opens it again. -/
def widenedMidUnit (replies : List Reply) : List (Event Nat Unit) :=
  [.connect,
    .ensureTable orders .replace ⟨["CREATE TABLE"], []⟩ [],
    .write "orders" [1] ⟨false, false, []⟩ [],
    .ensureTable orders .replace ⟨["ALTER TABLE"], []⟩ [],
    .existingReceipt "load-1" 0 replies,
    .publish ⟨"load-1", 0, "orders", ()⟩ [] .committed]

def ordersCopied (replies : List Reply) : Effects Nat Unit :=
  (Transition.run (World.step ordersConfig) World.start (widenedMidUnit replies)).service.durable

theorem widened_unit_is_cleared :
    .copyInto (.target "orders") ["id"] [[⟨1, .replace⟩]] ∈ ordersCopied [] ∧
      ReplacedRowsFollowClear (ordersCopied []) := by
  refine ⟨by decide +kernel, replaced_rows_follow_clear _ _ ?_⟩
  refine ⟨trivial, trivial, ?_, trivial, ?_, ?_, trivial⟩
  · exact fun _ _ => trivial
  · exact fun _ _ => .inr ⟨by decide, trivial⟩
  · exact ⟨fun _ => trivial, by rintro ⟨⟩⟩

/-- The DELETE is refused when the unit opens again, and the next hook publishes without it. -/
theorem refused_reclear_is_lost :
    ¬ReplacedRowsFollowClear (ordersCopied [.done, .done, .refused]) := by
  intro h
  have hclear := h [.schema "CREATE TABLE", .schema "ALTER TABLE"] "orders" ["id"] [[⟨1, .replace⟩]]
    [.upsertState (), .insertReceipt "load-1" 0] (by decide +kernel) (by decide)
  revert hclear
  decide

end Snowflake
