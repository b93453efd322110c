import Mathlib
import RdltConnectors.Snowflake.Ledger

/-!
# A session between its connect and the commit

Until a unit is published, its session adds nothing but clears to what the load has
made durable, and keeps its rows to itself. It knows every clear on record, from the
start of the load on, so it clears a target only before the first unit that writes it.
A hook that fails leaves what is durable as it was.
-/
namespace Snowflake

open Sqlcore Interrupted

variable {R D : Type}

/-! ## Rows on their way -/

theorem lookup_entry {κ β : Type} [DecidableEq κ] (key other : κ) (value : β)
    (rest : List (κ × β)) :
    ((key, value) :: rest).lookup other = if other = key then some value else rest.lookup other := by
  rw [List.lookup_cons]
  by_cases h : other = key
  · rw [if_pos h, beq_iff_eq.2 h]
  · rw [if_neg h, beq_eq_false_iff_ne.2 h]

theorem lookup_adjust {κ β : Type} [DecidableEq κ] (key other : κ) (change : Option β → β)
    (entries : List (κ × β)) :
    (adjust key change entries).lookup other =
      if other = key then some (change (entries.lookup key)) else entries.lookup other := by
  induction entries with
  | nil => exact lookup_entry key other (change none) []
  | cons head rest ih =>
    obtain ⟨k, value⟩ := head
    unfold adjust
    by_cases hkey : k = key
    · subst hkey
      rw [if_pos rfl, lookup_entry, lookup_entry, lookup_entry, if_pos rfl]
      split
      · rfl
      · rfl
    · rw [if_neg hkey, lookup_entry, ih, lookup_entry, lookup_entry, if_neg (Ne.symm hkey)]
      by_cases h : other = k
      · have hother : ¬other = key := fun heq => hkey (h.symm.trans heq)
        rw [if_pos h, if_pos h, if_neg hother]
      · rw [if_neg h, if_neg h]

theorem keys_adjust {κ β : Type} [DecidableEq κ] {key : κ} {change : Option β → β}
    {entries : List (κ × β)} (h : (entries.map Prod.fst).Nodup) :
    ((adjust key change entries).map Prod.fst).Nodup := by
  induction entries with
  | nil => simp [adjust]
  | cons head rest ih =>
    obtain ⟨k, value⟩ := head
    unfold adjust
    rw [List.map_cons, List.nodup_cons] at h
    by_cases hkey : k = key
    · rw [if_pos hkey]
      exact List.nodup_cons.2 h
    · rw [if_neg hkey, List.map_cons, List.nodup_cons]
      refine ⟨fun hmem => ?_, ih h.2⟩
      obtain ⟨e, he, hfst⟩ := List.mem_map.1 hmem
      rcases mem_adjust he with he | rfl | ⟨v, hv, rfl⟩
      · exact h.1 (List.mem_map.2 ⟨e, he, hfst⟩)
      · exact hkey hfst.symm
      · exact hkey hfst.symm

theorem lookup_remove {κ β : Type} [DecidableEq κ] (key other : κ) (entries : List (κ × β)) :
    (entries.filter fun e => e.1 ≠ key).lookup other =
      if other = key then none else entries.lookup other := by
  induction entries with
  | nil =>
    split
    · rfl
    · rfl
  | cons head rest ih =>
    obtain ⟨k, value⟩ := head
    rw [List.filter_cons, lookup_entry]
    by_cases hkey : k = key
    · rw [if_neg (by simpa using hkey), ih]
      by_cases h : other = key
      · rw [if_pos h, if_pos h]
      · have hother : ¬other = k := fun heq => h (heq.trans hkey)
        rw [if_neg h, if_neg h, if_neg hother]
    · rw [if_pos (by simpa using hkey), lookup_entry, ih]
      by_cases h : other = k
      · have hother : ¬other = key := fun heq => hkey (h.symm.trans heq)
        rw [if_pos h, if_pos h, if_neg hother]
      · rw [if_neg h, if_neg h]

namespace Load

variable (load : Load R)

def pendingRows (relation : Relation) : Part R :=
  ((load.pending.lookup relation).map fun entry => entry.parts.flatten).getD []

def openRows (relation : Relation) : Part R := (load.openParts.lookup relation).getD []

/-- The rows a session has taken for a relation, in the order they came. -/
def staged (relation : Relation) : Part R := load.pendingRows relation ++ load.openRows relation

/-- A target that is cleared, or about to be. -/
def Knows (extra : List String) (table : String) : Prop :=
  table ∈ load.cleared ∨ table ∈ load.clearedInUnit ∨ table ∈ load.reclearOwed ∨ table ∈ extra

/-- A clear the session may still take back. -/
def Holds (extra : List String) (table : String) : Prop :=
  table ∈ load.clearedInUnit ∨ table ∈ load.reclearOwed ∨ table ∈ extra

end Load

theorem rowsInto_append (modes : String → WriteMode) (first second : List (String × List R))
    (relation : Relation) :
    rowsInto modes (first ++ second) relation =
      rowsInto modes first relation ++ rowsInto modes second relation := List.flatMap_append

theorem rowsInto_single (modes : String → WriteMode) (table : String) (rows : List R)
    (relation : Relation) :
    rowsInto modes [(table, rows)] relation =
      if destinationOf table (modes table) = relation then rows.map fun row => ⟨row, modes table⟩
      else [] := List.append_nil _

/-! ## The invariant -/

/-- What holds of a session whatever becomes of its transaction. -/
structure Ready (plan : LoadPlan R D) (count : Nat) (extra written : List String)
    (service : Service R D) (load : Load R) : Prop where
  durable : plan.Ledger count service.durable
  view : plan.Ledger count service.view
  inside : load.unitOpen = true → service.transaction.isSome = true
  modes : ∀ table entry, load.tables.lookup table = some entry → entry.2 = plan.modes table
  ensured : ∀ table ∈ written, (load.tables.lookup table).isSome = true
  cleared : ∀ table ∈ load.cleared, .recordCleared table ∈ service.durable
  knows : ∀ table, .recordCleared table ∈ service.view → load.Knows extra table
  covers : ∀ table ∈ written, plan.modes table = .replace → load.Knows extra table
  first : ∀ table, load.Holds extra table →
    plan.modes table = .replace ∧ table ∈ written ∧ plan.Untouched count table

/-- Beside it, what the unit cleared is on record in its transaction. -/
structure Unbroken (plan : LoadPlan R D) (count : Nat) (extra written : List String)
    (service : Service R D) (load : Load R) : Prop
    extends Ready plan count extra written service load where
  inUnit : ∀ table ∈ load.clearedInUnit, .recordCleared table ∈ service.view

/-- The rows of the writes so far, and nothing else, are on their way. -/
structure Staging (plan : LoadPlan R D) (writes : List (String × List R)) (load : Load R) : Prop where
  rows : ∀ relation, load.staged relation = rowsInto plan.modes writes relation
  keys : (load.pending.map Prod.fst).Nodup

/-- A session that has taken the writes of a unit so far. -/
structure Running (plan : LoadPlan R D) (count : Nat) (writes : List (String × List R))
    (s : Session R D) : Prop where
  unbroken : Unbroken plan count [] (writes.map Prod.fst) s.service s.load
  staging : Staging plan writes s.load

/-- What a failed hook leaves. -/
def Durable (plan : LoadPlan R D) (count : Nat) (s : Session R D) : Prop :=
  plan.Ledger count s.service.durable

variable {plan : LoadPlan R D} {count : Nat} {extra written : List String}
  {writes : List (String × List R)}

/-! ## Statements -/

/-- A clear or its record, inside the transaction. -/
theorem Unbroken.execute {service : Service R D} {load : Load R}
    (h : Unbroken plan count extra written service load) (hopen : load.unitOpen = true)
    {statement : Statement R D} (hledger : plan.Ledger count (service.view ++ [statement]))
    (hrecord : ∀ table, statement = .recordCleared table → load.Knows extra table) :
    Unbroken plan count extra written (service.execute statement) load := by
  obtain ⟨effects, heffects⟩ := Option.isSome_iff_exists.1 (h.inside hopen)
  have hexecute : service.execute statement =
      { service with transaction := some (effects ++ [statement]) } := by
    unfold Service.execute
    rw [heffects]
  have hdurable : (service.execute statement).durable = service.durable := by rw [hexecute]
  constructor
  · constructor
    · exact hdurable ▸ h.durable
    · exact (service.view_execute statement).symm ▸ hledger
    · intro _
      rw [hexecute]
      rfl
    · exact h.modes
    · exact h.ensured
    · exact fun table htable => hdurable.symm ▸ h.cleared table htable
    · intro table htable
      rw [Service.view_execute] at htable
      cases List.mem_append.1 htable with
      | inl htable => exact h.knows table htable
      | inr htable => exact hrecord table (List.mem_singleton.1 htable).symm
    · exact h.covers
    · exact h.first
  · intro table htable
    rw [Service.view_execute]
    exact List.mem_append_left _ (h.inUnit table htable)

theorem Unbroken.begin {service : Service R D} {load : Load R}
    (h : Unbroken plan count extra written service load) :
    Unbroken plan count extra written service.begin load :=
  ⟨⟨h.durable, h.view, fun _ => rfl, h.modes, h.ensured, h.cleared, h.knows, h.covers, h.first⟩,
    h.inUnit⟩

/-- A session may leave its unit without the service's knowing. -/
theorem Ready.closed {service : Service R D} {load : Load R}
    (h : Ready plan count extra written service load) :
    Ready plan count extra written service { load with unitOpen := false } :=
  ⟨h.durable, h.view, by rintro ⟨⟩, h.modes, h.ensured, h.cleared, h.knows, h.covers, h.first⟩

/-- A rollback leaves the durable clears on record. -/
theorem Ready.rollback {service : Service R D} {load : Load R}
    (h : Ready plan count extra written service load) (hclosed : load.unitOpen = false) :
    Ready plan count extra written service.rollback load where
  durable := h.durable
  view := (Service.view_rollback service).symm ▸ h.durable
  inside hopen := by
    rw [hclosed] at hopen
    cases hopen
  modes := h.modes
  ensured := h.ensured
  cleared := h.cleared
  knows table htable := by
    rw [Service.view_rollback] at htable
    exact h.knows table (service.durable_view.subset htable)
  covers := h.covers
  first := h.first

theorem Unbroken.schema {service : Service R D} {load : Load R}
    (h : Unbroken plan count extra written service load) (hclosed : load.unitOpen = false)
    (sql : String) : Unbroken plan count extra written (service.executeSchema sql) load := by
  have hdurable : (service.executeSchema sql).durable = service.view ++ [.schema sql] := rfl
  have hview : (service.executeSchema sql).view = service.view ++ [.schema sql] :=
    List.append_nil _
  constructor
  · constructor
    · exact hdurable ▸ h.view.schema sql
    · exact hview ▸ h.view.schema sql
    · intro hopen
      rw [hclosed] at hopen
      cases hopen
    · exact h.modes
    · exact h.ensured
    · intro table htable
      rw [hdurable]
      exact List.mem_append_left _ (service.durable_view.subset (h.cleared table htable))
    · intro table htable
      rw [hview] at htable
      apply h.knows
      simpa using htable
    · exact h.covers
    · exact h.first
  · intro table htable
    rw [hview]
    exact List.mem_append_left _ (h.inUnit table htable)

/-- A send whose failure can only be one that keeps what is durable. -/
theorem triple_send_durable {P : Session R D → Prop} {Q : Unit → Session R D → Prop}
    {effect : Service R D → Service R D} (hP : ∀ s, P s → Durable plan count s)
    (heffect : ∀ s, P s → Durable plan count (s.answered effect))
    (hdone : ∀ s, P s → Q () (s.answered effect)) :
    Triple P (send effect) Q (Durable plan count) :=
  triple_send (fun s hs _ => hdone s hs) (fun s hs _ => hP s hs) fun s hs _ => heffect s hs

/-! ## Opening the unit -/

/-- An open unit with the clears that are still to run. -/
structure Opened (plan : LoadPlan R D) (count : Nat) (extra : List String)
    (writes : List (String × List R)) (s : Session R D) : Prop where
  unbroken : Unbroken plan count extra (writes.map Prod.fst) s.service s.load
  staging : Staging plan writes s.load
  isOpen : s.load.unitOpen = true
  owed : s.load.reclearOwed = []

theorem Opened.durable {s : Session R D} (h : Opened plan count extra writes s) :
    Durable plan count s := h.unbroken.durable

theorem beginIfClosed_running :
    Triple (Running plan count writes) beginIfClosed
      (fun _ s => Running plan count writes s ∧ s.load.unitOpen = true) (Durable plan count) := by
  apply triple_bind (Q := fun load s => Running plan count writes s ∧ s.load = load)
  · exact triple_theLoad fun s hs => ⟨hs, rfl⟩
  · intro load
    apply triple_ite
    · intro hopen
      apply triple_pure
      rintro s ⟨hs, rfl⟩
      exact ⟨hs, hopen⟩
    · intro _
      apply triple_bind (Q := fun _ s => Running plan count writes s ∧
        s.service.transaction.isSome = true)
      · apply triple_send_durable
        · exact fun s hs => hs.1.unbroken.durable
        · exact fun s hs => hs.1.unbroken.durable
        · exact fun s hs => ⟨⟨hs.1.unbroken.begin, hs.1.staging⟩, rfl⟩
      · intro _
        apply triple_bind (Q := fun _ s => Running plan count writes s ∧ s.load.unitOpen = true)
        · apply triple_change
          rintro s ⟨hs, hsome⟩
          have h := hs.unbroken
          exact ⟨⟨⟨⟨h.durable, h.view, fun _ => hsome, h.modes, h.ensured, h.cleared, h.knows,
            h.covers, h.first⟩, h.inUnit⟩, hs.staging.rows, hs.staging.keys⟩, rfl⟩
        · intro _
          apply triple_send_durable
          · exact fun s hs => hs.1.unbroken.durable
          · exact fun s hs => hs.1.unbroken.durable
          · exact fun s hs => ⟨⟨hs.1.unbroken, hs.1.staging⟩, hs.2⟩

/-- One clear, of a target no earlier unit wrote. -/
theorem clearTarget_opened (table : String) (rest : List String) :
    Triple (Opened plan count (table :: rest) writes) (clearTarget table)
      (fun _ => Opened plan count rest writes) (Durable plan count) := by
  apply triple_bind (Q := fun _ s => Opened plan count (table :: rest) writes s ∧
    .deleteFrom (.target table) ∈ s.service.view)
  · apply triple_send
    · intro s hs _
      have hfirst := hs.unbroken.first table (.inr (.inr List.mem_cons_self))
      have hunbroken := hs.unbroken.execute hs.isOpen
        (hs.unbroken.view.clear hfirst.1 hfirst.2.2) (by rintro _ ⟨⟩)
      refine ⟨⟨hunbroken, hs.staging, hs.isOpen, hs.owed⟩, ?_⟩
      change _ ∈ (s.service.execute _).view
      rw [Service.view_execute]
      exact List.mem_append_right _ List.mem_cons_self
    · exact fun s hs _ => hs.durable
    · intro s hs _
      have hfirst := hs.unbroken.first table (.inr (.inr List.mem_cons_self))
      exact (hs.unbroken.execute hs.isOpen (hs.unbroken.view.clear hfirst.1 hfirst.2.2)
        (by rintro _ ⟨⟩)).durable
  · intro _
    have hrecord : ∀ s : Session R D, Opened plan count (table :: rest) writes s →
        .deleteFrom (.target table) ∈ s.service.view →
        Unbroken plan count (table :: rest) (writes.map Prod.fst)
          (s.service.execute (.recordCleared table)) s.load := by
      intro s hs hcleared
      apply hs.unbroken.execute hs.isOpen (hs.unbroken.view.record hcleared)
      intro t ht
      rw [Statement.recordCleared.inj ht]
      exact .inr (.inr (.inr List.mem_cons_self))
    apply triple_bind (Q := fun _ s => Opened plan count (table :: rest) writes s ∧
      .recordCleared table ∈ s.service.view)
    · apply triple_send
      · intro s hs _
        refine ⟨⟨hrecord s hs.1 hs.2, hs.1.staging, hs.1.isOpen, hs.1.owed⟩, ?_⟩
        change _ ∈ (s.service.execute _).view
        rw [Service.view_execute]
        exact List.mem_append_right _ List.mem_cons_self
      · exact fun s hs _ => hs.1.durable
      · exact fun s hs _ => (hrecord s hs.1 hs.2).durable
    · intro _
      apply triple_change
      rintro s ⟨hs, hmem⟩
      have h := hs.unbroken
      constructor
      · constructor
        · constructor
          · exact h.durable
          · exact h.view
          · exact h.inside
          · exact h.modes
          · exact h.ensured
          · exact h.cleared
          · intro t ht
            rcases h.knows t ht with hk | hk | hk | hk
            · exact .inl hk
            · exact .inr (.inl (List.mem_append_left _ hk))
            · exact .inr (.inr (.inl hk))
            · rcases List.mem_cons.1 hk with rfl | hk
              · exact .inr (.inl (List.mem_append_right _ List.mem_cons_self))
              · exact .inr (.inr (.inr hk))
          · intro t ht hmode
            rcases h.covers t ht hmode with hk | hk | hk | hk
            · exact .inl hk
            · exact .inr (.inl (List.mem_append_left _ hk))
            · exact .inr (.inr (.inl hk))
            · rcases List.mem_cons.1 hk with rfl | hk
              · exact .inr (.inl (List.mem_append_right _ List.mem_cons_self))
              · exact .inr (.inr (.inr hk))
          · intro t ht
            apply h.first
            rcases ht with ht | ht | ht
            · cases List.mem_append.1 ht with
              | inl ht => exact .inl ht
              | inr ht =>
                rw [List.mem_singleton.1 ht]
                exact .inr (.inr List.mem_cons_self)
            · exact .inr (.inl ht)
            · exact .inr (.inr (List.mem_cons_of_mem _ ht))
        · intro t ht
          cases List.mem_append.1 ht with
          | inl ht => exact h.inUnit t ht
          | inr ht =>
            rw [List.mem_singleton.1 ht]
            exact hmem
      · exact ⟨hs.staging.rows, hs.staging.keys⟩
      · exact hs.isOpen
      · exact hs.owed

theorem openUnit_running :
    Triple (Running plan count writes) openUnit (fun _ => Opened plan count [] writes)
      (Durable plan count) := by
  apply triple_bind beginIfClosed_running
  intro _
  apply triple_bind (Q := fun load s => (Running plan count writes s ∧ s.load.unitOpen = true) ∧
    s.load = load)
  · exact triple_theLoad fun s hs => ⟨hs, rfl⟩
  · intro load
    apply triple_bind (Q := fun _ => Opened plan count load.reclearOwed writes)
    · apply triple_change
      rintro s ⟨⟨hs, hopen⟩, rfl⟩
      have h := hs.unbroken
      have hknows : ∀ t, s.load.Knows [] t →
          Load.Knows { s.load with reclearOwed := [] } s.load.reclearOwed t := by
        intro t ht
        rcases ht with hk | hk | hk | hk
        · exact .inl hk
        · exact .inr (.inl hk)
        · exact .inr (.inr (.inr hk))
        · cases hk
      constructor
      · constructor
        · constructor
          · exact h.durable
          · exact h.view
          · exact h.inside
          · exact h.modes
          · exact h.ensured
          · exact h.cleared
          · exact fun t ht => hknows t (h.knows t ht)
          · exact fun t ht hmode => hknows t (h.covers t ht hmode)
          · intro t ht
            apply h.first
            rcases ht with ht | ht | ht
            · exact .inl ht
            · cases ht
            · exact .inr (.inl ht)
        · exact h.inUnit
      · exact ⟨hs.staging.rows, hs.staging.keys⟩
      · exact hopen
      · rfl
    · exact fun _ => triple_forM (J := fun owed => Opened plan count owed writes)
        (fun table rest => clearTarget_opened table rest) load.reclearOwed

/-! ## Ending the unit -/

/-- A rollback leaves a closed session, whether the service heard of it or not. -/
theorem rollback_ready :
    Triple (fun s => Ready plan count extra written s.service s.load ∧ Staging plan writes s.load)
      (rollback : Hook R D Unit)
      (fun _ s => Ready plan count extra written s.service s.load ∧ Staging plan writes s.load ∧
        s.load.unitOpen = false) (Durable plan count) := by
  apply triple_bind (Q := fun load s => (Ready plan count extra written s.service s.load ∧
    Staging plan writes s.load) ∧ s.load = load)
  · exact triple_theLoad fun s hs => ⟨hs, rfl⟩
  · intro load
    apply triple_ite
    · intro _
      apply triple_bind (Q := fun _ s =>
        Ready plan count extra written s.service { s.load with unitOpen := false } ∧
          Staging plan writes s.load)
      · apply triple_outcome (J := fun s =>
          Ready plan count extra written s.service { s.load with unitOpen := false } ∧
            Staging plan writes s.load)
        · apply triple_send
          · exact fun s hs _ => ⟨hs.1.1.closed.rollback rfl, hs.1.2⟩
          · exact fun s hs _ => ⟨hs.1.1.closed, hs.1.2⟩
          · exact fun s hs _ => ⟨hs.1.1.closed.rollback rfl, hs.1.2⟩
        · exact fun _ s hs => hs
      · intro _
        apply triple_change
        exact fun s hs => ⟨hs.1, ⟨hs.2.rows, hs.2.keys⟩, rfl⟩
    · intro hclosed
      apply triple_pure
      rintro s ⟨hs, rfl⟩
      exact ⟨hs.1, hs.2, Bool.eq_false_iff.2 hclosed⟩

/-- Schema work turns the clears of the unit into owed ones. -/
theorem endUnit_running (work : SchemaWork) :
    Triple (Running plan count writes) (endUnit work) (fun _ s => Running plan count writes s ∧
      (work.tableStatements = [] ∧ work.mergeStatements = [] ∨ s.load.unitOpen = false))
      (Durable plan count) := by
  apply triple_bind (Q := fun load s => Running plan count writes s ∧ s.load = load)
  · exact triple_theLoad fun s hs => ⟨hs, rfl⟩
  · intro load
    apply triple_ite
    · intro _
      apply triple_bind (Q := fun _ s => Ready plan count [] (writes.map Prod.fst) s.service s.load ∧
        Staging plan writes s.load ∧ s.load.unitOpen = false)
      · exact triple_weaken rollback_ready (fun s hs => ⟨hs.1.unbroken.toReady, hs.1.staging⟩)
          (fun _ s hs => hs) fun s hs => hs
      · intro _
        apply triple_change
        rintro s ⟨h, hstaging, hclosed⟩
        have hknows : ∀ t, s.load.Knows [] t → Load.Knows { s.load with
            reclearOwed := s.load.reclearOwed ++ s.load.clearedInUnit, clearedInUnit := [] } [] t := by
          intro t ht
          rcases ht with hk | hk | hk | hk
          · exact .inl hk
          · exact .inr (.inr (.inl (List.mem_append_right _ hk)))
          · exact .inr (.inr (.inl (List.mem_append_left _ hk)))
          · cases hk
        refine ⟨⟨⟨⟨h.durable, h.view, h.inside, h.modes, h.ensured, h.cleared,
          fun t ht => hknows t (h.knows t ht), fun t ht hmode => hknows t (h.covers t ht hmode), ?_⟩,
          fun t ht => absurd ht List.not_mem_nil⟩, hstaging.rows, hstaging.keys⟩, .inr hclosed⟩
        intro t ht
        apply h.first
        rcases ht with ht | ht | ht
        · cases ht
        · cases List.mem_append.1 ht with
          | inl ht => exact .inr (.inl ht)
          | inr ht => exact .inl ht
        · exact .inr (.inr ht)
    · intro hnone
      apply triple_pure
      rintro s ⟨hs, rfl⟩
      refine ⟨hs, ?_⟩
      cases hopen : s.load.unitOpen with
      | false => exact .inr rfl
      | true =>
        left
        simpa [hopen] using hnone

/-! ## Parts -/

/-- What a session stages does not matter to its clears. -/
theorem Opened.restage {s : Session R D} (h : Opened plan count extra writes s)
    {writes' : List (String × List R)} (hwrites : writes'.map Prod.fst = writes.map Prod.fst)
    {pending : List (Relation × Pending R)} {openParts : List (Relation × Part R)}
    (hstaging : Staging plan writes' { s.load with pending, openParts }) :
    Opened plan count extra writes' { s with load := { s.load with pending, openParts } } := by
  have hu := h.unbroken
  refine ⟨?_, hstaging, h.isOpen, h.owed⟩
  rw [hwrites]
  exact ⟨⟨hu.durable, hu.view, hu.inside, hu.modes, hu.ensured, hu.cleared, hu.knows, hu.covers,
    hu.first⟩, hu.inUnit⟩

/-- The open part of a relation is out of the session's hands. -/
structure Uploading (plan : LoadPlan R D) (count : Nat) (writes : List (String × List R))
    (relation : Relation) (part : Part R) (s : Session R D) : Prop where
  unbroken : Unbroken plan count [] (writes.map Prod.fst) s.service s.load
  isOpen : s.load.unitOpen = true
  owed : s.load.reclearOwed = []
  gone : s.load.openParts.lookup relation = none
  rows : ∀ other, s.load.staged other ++ (if other = relation then part else []) =
    rowsInto plan.modes writes other
  keys : (s.load.pending.map Prod.fst).Nodup

theorem Uploading.dropped {relation : Relation} {s : Session R D}
    (h : Uploading plan count writes relation [] s) : Opened plan count [] writes s := by
  refine ⟨h.unbroken, ⟨fun other => ?_, h.keys⟩, h.isOpen, h.owed⟩
  have hrows := h.rows other
  rw [ite_self, List.append_nil] at hrows
  exact hrows

theorem pendingRows_addPart (load : Load R) (relation other : Relation) (part : Part R) :
    Load.pendingRows { load with pending := adjust relation (Pending.addPart part) load.pending }
      other = load.pendingRows other ++ if other = relation then part else [] := by
  unfold Load.pendingRows
  dsimp only
  rw [lookup_adjust]
  by_cases hother : other = relation
  · subst hother
    rw [if_pos rfl, if_pos rfl]
    cases load.pending.lookup other with
    | none => simp [Pending.addPart]
    | some entry => simp [Pending.addPart]
  · rw [if_neg hother, if_neg hother, List.append_nil]

theorem closePart_opened (relation : Relation) :
    Triple (Opened plan count [] writes) (closePart relation : Hook R D Unit)
      (fun _ => Opened plan count [] writes) (Durable plan count) := by
  apply triple_bind (Q := fun load s => Opened plan count [] writes s ∧ s.load = load)
  · exact triple_theLoad fun s hs => ⟨hs, rfl⟩
  · intro load
    cases hpart : load.openParts.lookup relation with
    | none => exact triple_pure fun s hs => hs.1
    | some part =>
      apply triple_bind (Q := fun _ => Uploading plan count writes relation part)
      · apply triple_change
        rintro s ⟨hs, rfl⟩
        have hu := hs.unbroken
        refine ⟨⟨⟨hu.durable, hu.view, hu.inside, hu.modes, hu.ensured, hu.cleared, hu.knows,
          hu.covers, hu.first⟩, hu.inUnit⟩, hs.isOpen, hs.owed, ?_, ?_, hs.staging.keys⟩
        · exact (lookup_remove relation relation s.load.openParts).trans (if_pos rfl)
        · intro other
          rw [← hs.staging.rows other]
          unfold Load.staged Load.openRows
          rw [lookup_remove, List.append_assoc]
          apply congrArg (s.load.pendingRows other ++ ·)
          by_cases hother : other = relation
          · subst hother
            rw [if_pos rfl, if_pos rfl, hpart]
            rfl
          · rw [if_neg hother, if_neg hother, List.append_nil]
      · intro _
        apply triple_ite
        · intro hempty
          rw [List.isEmpty_iff.1 hempty]
          exact triple_pure fun s hs => hs.dropped
        · intro _
          apply triple_bind (Q := fun _ => Uploading plan count writes relation part)
          · apply triple_send_durable
            · exact fun s hs => hs.unbroken.durable
            · exact fun s hs => hs.unbroken.durable
            · exact fun s hs => ⟨hs.unbroken, hs.isOpen, hs.owed, hs.gone, hs.rows, hs.keys⟩
          · intro _
            apply triple_change
            intro s hs
            have hu := hs.unbroken
            refine ⟨⟨⟨hu.durable, hu.view, hu.inside, hu.modes, hu.ensured, hu.cleared, hu.knows,
              hu.covers, hu.first⟩, hu.inUnit⟩, ⟨fun other => ?_, keys_adjust hs.keys⟩, hs.isOpen,
              hs.owed⟩
            rw [← hs.rows other]
            unfold Load.staged
            rw [pendingRows_addPart]
            change _ ++ s.load.openRows other = _
            by_cases hother : other = relation
            · subst hother
              have hnone : s.load.openRows other = [] := by
                unfold Load.openRows
                rw [hs.gone]
                rfl
              rw [hnone, List.append_nil, List.append_nil]
            · rw [if_neg hother, List.append_nil, List.append_nil]

theorem closeWhen_opened (closes : Bool) (relation : Relation) :
    Triple (Opened plan count [] writes) (closeWhen closes relation : Hook R D Unit)
      (fun _ => Opened plan count [] writes) (Durable plan count) :=
  triple_ite (fun _ => closePart_opened relation) fun _ => triple_pure fun _ hs => hs

theorem openRows_append (load : Load R) (relation other : Relation) (rows : Part R) :
    Load.openRows { load with
        openParts := adjust relation (fun part => part.getD [] ++ rows) load.openParts } other =
      load.openRows other ++ if other = relation then rows else [] := by
  unfold Load.openRows
  dsimp only
  rw [lookup_adjust]
  by_cases hother : other = relation
  · subst hother
    rw [if_pos rfl, if_pos rfl]
    rfl
  · rw [if_neg hother, if_neg hother, List.append_nil]

theorem pendingRows_setColumns (load : Load R) (relation other : Relation) (columns : List String) :
    Load.pendingRows { load with
        pending := adjust relation (Pending.setColumns columns) load.pending } other =
      load.pendingRows other := by
  unfold Load.pendingRows
  dsimp only
  rw [lookup_adjust]
  by_cases hother : other = relation
  · subst hother
    rw [if_pos rfl]
    cases load.pending.lookup other with
    | none => rfl
    | some entry => rfl
  · rw [if_neg hother]

/-- The rows of a write join the parts of their relation. -/
theorem stageRows_opened (table : String) (columns : List String) (rows : List R)
    (closings : Closings) :
    Triple (Opened plan count [] (writes ++ [(table, [])]))
      (stageRows (destinationOf table (plan.modes table)) columns
        (rows.map fun row => ⟨row, plan.modes table⟩) closings : Hook R D Unit)
      (fun _ => Opened plan count [] (writes ++ [(table, rows)])) (Durable plan count) := by
  have htables : (writes ++ [(table, rows)]).map Prod.fst = (writes ++ [(table, [])]).map Prod.fst := by
    simp
  apply triple_bind (closeWhen_opened _ _)
  intro _
  apply triple_bind (Q := fun _ => Opened plan count [] (writes ++ [(table, rows)]))
  · apply triple_change
    intro s hs
    apply hs.restage htables
    refine ⟨fun other => ?_, hs.staging.keys⟩
    have hrows := hs.staging.rows other
    rw [rowsInto_append, rowsInto_single, List.map_nil, ite_self, List.append_nil] at hrows
    rw [rowsInto_append, rowsInto_single, ← hrows]
    unfold Load.staged
    rw [openRows_append, ← List.append_assoc]
    apply congrArg (s.load.pendingRows other ++ s.load.openRows other ++ ·)
    by_cases hother : other = destinationOf table (plan.modes table)
    · rw [if_pos hother, if_pos hother.symm]
    · rw [if_neg hother, if_neg (Ne.symm hother)]
  · intro _
    apply triple_bind (closeWhen_opened _ _)
    intro _
    apply triple_bind (Q := fun _ => Opened plan count [] (writes ++ [(table, rows)]))
    · apply triple_change
      intro s hs
      apply hs.restage rfl
      refine ⟨fun other => ?_, keys_adjust hs.staging.keys⟩
      rw [← hs.staging.rows other]
      unfold Load.staged
      rw [pendingRows_setColumns]
      rfl
    · exact fun _ => triple_forM (J := fun _ => Opened plan count [] (writes ++ [(table, rows)]))
        (fun relation _ => closePart_opened relation) closings.budget

/-! ## The calls of a unit -/

/-- A table the session knows to be cleared, where it has to be, can be written. -/
theorem Opened.touch {s : Session R D} (h : Opened plan count [] writes s) {table : String}
    (hensured : (s.load.tables.lookup table).isSome = true) {extra : List String}
    (hcovers : plan.modes table = .replace → s.load.Knows extra table)
    (hextra : ∀ t ∈ extra, t = table ∧ plan.modes t = .replace ∧ plan.Untouched count t) :
    Opened plan count extra (writes ++ [(table, [])]) s := by
  have hu := h.unbroken
  have hknows : ∀ t, s.load.Knows [] t → s.load.Knows extra t := by
    intro t ht
    rcases ht with hk | hk | hk | hk
    · exact .inl hk
    · exact .inr (.inl hk)
    · exact .inr (.inr (.inl hk))
    · cases hk
  have htables : (writes ++ [(table, ([] : List R))]).map Prod.fst = writes.map Prod.fst ++ [table] := by
    simp
  refine ⟨?_, ⟨fun relation => ?_, h.staging.keys⟩, h.isOpen, h.owed⟩
  · rw [htables]
    constructor
    · constructor
      · exact hu.durable
      · exact hu.view
      · exact hu.inside
      · exact hu.modes
      · intro t ht
        cases List.mem_append.1 ht with
        | inl ht => exact hu.ensured t ht
        | inr ht =>
          rw [List.mem_singleton.1 ht]
          exact hensured
      · exact hu.cleared
      · exact fun t ht => hknows t (hu.knows t ht)
      · intro t ht hmode
        cases List.mem_append.1 ht with
        | inl ht => exact hknows t (hu.covers t ht hmode)
        | inr ht =>
          rw [List.mem_singleton.1 ht] at hmode ⊢
          exact hcovers hmode
      · intro t ht
        have hheld : s.load.Holds [] t ∨ t ∈ extra := by
          rcases ht with ht | ht | ht
          · exact .inl (.inl ht)
          · exact .inl (.inr (.inl ht))
          · exact .inr ht
        cases hheld with
        | inl hheld =>
          have hfirst := hu.first t hheld
          exact ⟨hfirst.1, List.mem_append_left _ hfirst.2.1, hfirst.2.2⟩
        | inr hmem =>
          have hnew := hextra t hmem
          exact ⟨hnew.2.1, List.mem_append_right _ (List.mem_singleton.2 hnew.1), hnew.2.2⟩
    · exact hu.inUnit
  · rw [rowsInto_append, rowsInto_single, List.map_nil, ite_self, List.append_nil]
    exact h.staging.rows relation

/-- A target that the session does not know to be cleared is one that no unit wrote. -/
theorem Opened.untouched {s : Session R D} (h : Opened plan count [] writes s) {table : String}
    (hmode : plan.modes table = .replace) (hunknown : table ∉ s.load.clearedUnion) :
    plan.Untouched count table := by
  intro unit hunit w hw htable
  subst htable
  have hrecorded := h.unbroken.view.touched unit hunit w hw hmode
  apply hunknown
  rcases h.unbroken.knows w.1 hrecorded with hk | hk | hk | hk
  · exact List.mem_append_left _ hk
  · exact List.mem_append_right _ hk
  · rw [h.owed] at hk
    cases hk
  · cases hk

theorem prepare_opened (config : Config D) (table : String) (schema : TableSchema) :
    Triple (fun s => Opened plan count [] writes s ∧
        s.load.tables.lookup table = some (schema, plan.modes table))
      (prepare config table) (fun _ => Opened plan count [] (writes ++ [(table, [])]))
      (Durable plan count) := by
  apply triple_bind (Q := fun load s => load.tables.lookup table = some (schema, plan.modes table) ∧
    Opened plan count [] writes s ∧ s.load = load)
  · exact triple_theLoad fun s hs => ⟨hs.2, hs.1, rfl⟩
  · intro load
    apply triple_given
    intro hlookup
    have hensured : (load.tables.lookup table).isSome = true := by
      rw [hlookup]
      rfl
    unfold prepareTarget
    rw [hlookup]
    dsimp only
    split
    · next hother =>
      apply triple_pure
      rintro s ⟨hs, rfl⟩
      apply hs.touch hensured
      · intro hmode
        rw [hmode] at hother
        simp [usesStage, WriteMode.isMerge] at hother
      · exact fun t ht => absurd ht List.not_mem_nil
    · next hreplace =>
      have hmode : plan.modes table = .replace := by
        rw [not_or, not_not] at hreplace
        exact hreplace.2
      split
      · next hcleared =>
        apply triple_pure
        rintro s ⟨hs, rfl⟩
        apply hs.touch hensured
        · intro _
          cases List.mem_append.1 hcleared with
          | inl hk => exact .inl hk
          | inr hk => exact .inr (.inl hk)
        · exact fun t ht => absurd ht List.not_mem_nil
      · next hunknown =>
        apply triple_bind (Q := fun _ => Opened plan count [] (writes ++ [(table, [])]))
        · apply triple_weaken (@clearTarget_opened R D plan count (writes ++ [(table, [])]) table [])
          · rintro s ⟨hs, rfl⟩
            apply hs.touch hensured
            · exact fun _ => .inr (.inr (.inr List.mem_cons_self))
            · intro t ht
              rw [List.mem_singleton.1 ht]
              exact ⟨rfl, hmode, hs.untouched hmode hunknown⟩
          · exact fun _ s hs => hs
          · exact fun s hs => hs
        · exact fun _ => triple_pure fun s hs => hs

theorem Opened.running {s : Session R D} (h : Opened plan count [] writes s) :
    Running plan count writes s := ⟨h.unbroken, h.staging⟩

theorem write_running (config : Config D) (table : String) (rows : List R) (closings : Closings) :
    Triple (Running plan count writes) (write config table rows closings)
      (fun _ => Running plan count (writes ++ [(table, rows)])) (Durable plan count) := by
  apply triple_bind (Q := fun load s => Running plan count writes s ∧ s.load = load)
  · exact triple_theLoad fun s hs => ⟨hs, rfl⟩
  · intro load
    cases hlookup : load.tables.lookup table with
    | none => exact triple_throw fun s hs => hs.1.unbroken.durable
    | some entry =>
      obtain ⟨schema, mode⟩ := entry
      have hopen := triple_and (@openUnit_running R D plan count writes)
        (openUnit_tables load.tables)
      apply triple_bind (Q := fun _ s => mode = plan.modes table ∧ Opened plan count [] writes s ∧
        s.load.tables.lookup table = some (schema, plan.modes table))
      · apply triple_weaken hopen
        · rintro s ⟨hs, rfl⟩
          exact ⟨hs, rfl⟩
        · rintro _ s ⟨hs, htables⟩
          rw [← htables] at hlookup
          have hmode := hs.unbroken.modes table _ hlookup
          dsimp only at hmode
          subst hmode
          exact ⟨rfl, hs, hlookup⟩
        · exact fun s hs => hs.1
      · intro _
        apply triple_given
        rintro rfl
        apply triple_bind (prepare_opened config table schema)
        intro _
        apply triple_ite
        · intro hempty
          rw [List.isEmpty_iff.1 hempty]
          exact triple_pure fun s hs => hs.running
        · intro _
          exact triple_weaken (stageRows_opened table schema.columnNames rows closings)
            (fun s hs => hs) (fun _ s hs => hs.running) fun s hs => hs

/-- Schema work runs outside the unit. -/
theorem schema_running (statements : List String) :
    Triple (fun s => Running plan count writes s ∧ (statements = [] ∨ s.load.unitOpen = false))
      (statements.forM fun sql => send fun service => service.executeSchema sql)
      (fun _ => Running plan count writes) (Durable plan count) := by
  by_cases hnone : statements = []
  · subst hnone
    exact triple_pure fun s hs => hs.1
  · have hloop : Triple (fun s => Running plan count writes s ∧ s.load.unitOpen = false)
        (statements.forM fun sql => send fun service => service.executeSchema sql)
        (fun _ s => Running plan count writes s ∧ s.load.unitOpen = false) (Durable plan count) := by
      apply triple_forM (J := fun (_ : List String) (s : Session R D) =>
        Running plan count writes s ∧ s.load.unitOpen = false)
      intro sql rest
      apply triple_send_durable
      · exact fun s hs => hs.1.unbroken.durable
      · exact fun s hs => (hs.1.unbroken.schema hs.2 sql).durable
      · exact fun s hs => ⟨⟨hs.1.unbroken.schema hs.2 sql, hs.1.staging⟩, hs.2⟩
    exact triple_weaken hloop (fun s hs => ⟨hs.1, hs.2.resolve_left hnone⟩) (fun _ s hs => hs.1)
      fun s hs => hs

theorem Running.insert {s : Session R D} (h : Running plan count writes s) {schema : TableSchema} :
    Running plan count writes { s with load := { s.load with
      tables := s.load.tables.insert schema.table (schema, plan.modes schema.table) } } := by
  have hu := h.unbroken
  refine ⟨⟨⟨hu.durable, hu.view, hu.inside, ?_, ?_, hu.cleared, hu.knows, hu.covers, hu.first⟩,
    hu.inUnit⟩, h.staging.rows, h.staging.keys⟩
  · intro table entry hlookup
    rw [lookup_insert] at hlookup
    split at hlookup
    · next htable =>
      rw [← Option.some.inj hlookup, htable]
    · exact hu.modes table entry hlookup
  · intro table htable
    rw [lookup_insert]
    split
    · rfl
    · exact hu.ensured table htable

theorem ensureTable_running (schema : TableSchema) (work : SchemaWork) :
    Triple (Running plan count writes) (ensureTable schema (plan.modes schema.table) work)
      (fun _ => Running plan count writes) (Durable plan count) := by
  apply triple_bind (endUnit_running work)
  intro _
  apply triple_bind (Q := fun _ s => Running plan count writes s ∧
    (work.mergeStatements = [] ∨ s.load.unitOpen = false))
  · have hflag : Triple (fun s : Session R D => work.mergeStatements = [] ∨ s.load.unitOpen = false)
        (work.tableStatements.forM fun sql => send fun service => service.executeSchema sql)
        (fun _ s => work.mergeStatements = [] ∨ s.load.unitOpen = false) fun _ => True := by
      apply triple_forM (J := fun (_ : List String) (s : Session R D) =>
        work.mergeStatements = [] ∨ s.load.unitOpen = false)
      intro sql rest
      exact triple_send (fun s hs _ => hs) (fun s hs _ => trivial) fun s hs _ => trivial
    apply triple_weaken (triple_and (schema_running work.tableStatements) hflag)
    · rintro s ⟨hs, hnone | hclosed⟩
      · exact ⟨⟨hs, .inl hnone.1⟩, .inl hnone.2⟩
      · exact ⟨⟨hs, .inr hclosed⟩, .inr hclosed⟩
    · exact fun _ s hs => hs
    · exact fun s hs => hs.1
  · intro _
    apply triple_bind (schema_running work.mergeStatements)
    intro _
    exact triple_change fun s hs => hs.insert

/-- The calls of an attempt, one after the other. -/
theorem calls_running (config : Config D) (calls : List (Call R))
    (hmodes : ∀ call ∈ calls, call.Keeps plan.modes) :
    Triple (Running plan count writes) (calls.forM (Call.run config))
      (fun _ => Running plan count (writes ++ writesOf calls)) (Durable plan count) := by
  induction calls generalizing writes with
  | nil =>
    apply triple_pure
    intro s hs
    exact (List.append_nil writes).symm ▸ hs
  | cons call rest ih =>
    rw [List.forall_mem_cons] at hmodes
    cases call with
    | ensureTable schema mode work =>
      have hmode : mode = plan.modes schema.table := hmodes.1
      subst hmode
      exact triple_bind (ensureTable_running schema work) fun _ => ih hmodes.2
    | write table rows closings =>
      apply triple_bind (write_running config table rows closings)
      intro _
      have hrest := @ih (writes ++ [(table, rows)]) hmodes.2
      rw [List.append_assoc] at hrest
      exact hrest

/-! ## The receipt -/

theorem ofNat_inj {a b : Nat} (ha : a < 2 ^ 64) (hb : b < 2 ^ 64)
    (h : UInt64.ofNat a = UInt64.ofNat b) : a = b := by
  have hnat := congrArg UInt64.toNat h
  rw [UInt64.toNat_ofNat_of_lt' ha, UInt64.toNat_ofNat_of_lt' hb] at hnat
  exact hnat

/-- The first units have receipts, and no other unit of the load. -/
theorem LoadPlan.Ledger.hasReceipt_iff {effects : Effects R D} (h : plan.Ledger count effects)
    (hsize : plan.units.length ≤ 2 ^ 64) {index : Nat} (hindex : index < plan.units.length) :
    hasReceipt effects plan.config.loadId (UInt64.ofNat index) = true ↔ index < count := by
  have hbound := h.history.bound
  rw [Snowflake.hasReceipt_iff, h.receipts_eq, List.mem_map]
  constructor
  · rintro ⟨other, hother, heq⟩
    rw [List.mem_range] at hother
    rw [← ofNat_inj (by omega) (by omega) heq]
    exact hother
  · intro hlt
    exact ⟨index, List.mem_range.2 hlt, rfl⟩

theorem existingReceipt_running (hsize : plan.units.length ≤ 2 ^ 64) {index : Nat}
    (hindex : index < plan.units.length) :
    Triple (Running plan count writes)
      (existingReceipt plan.config plan.config.loadId (UInt64.ofNat index))
      (fun found s => (found = true ↔ index < count) ∧ Opened plan count [] writes s)
      (Durable plan count) := by
  unfold existingReceipt
  rw [if_neg (not_not.2 rfl)]
  apply triple_bind openUnit_running
  intro _
  apply triple_bind (Q := fun _ => Opened plan count [] writes)
  · apply triple_send_durable
    · exact fun s hs => hs.durable
    · exact fun s hs => hs.durable
    · exact fun s hs => ⟨hs.unbroken, hs.staging, hs.isOpen, hs.owed⟩
  · intro _
    apply triple_bind (Q := fun seen s => seen = s ∧ Opened plan count [] writes s)
    · exact triple_get fun s hs => ⟨rfl, hs⟩
    · intro seen
      apply triple_pure
      rintro s ⟨rfl, hs⟩
      exact ⟨hs.unbroken.view.hasReceipt_iff hsize hindex, hs⟩

/-! ## Replays -/

/-- A session between two units. -/
def Resting (plan : LoadPlan R D) (count : Nat) (s : Session R D) : Prop := Running plan count [] s

/-- With nothing staged a session has taken no writes. -/
theorem discardStaged_resting :
    Triple (fun s => Unbroken plan count [] [] s.service s.load) (discardStaged : Hook R D Unit)
      (fun _ => Resting plan count) (Durable plan count) := by
  apply triple_bind (Q := fun _ => Resting plan count)
  · apply triple_change
    intro s h
    exact ⟨⟨⟨h.durable, h.view, h.inside, h.modes, h.ensured, h.cleared, h.knows, h.covers,
      h.first⟩, h.inUnit⟩, fun _ => rfl, List.nodup_nil⟩
  · intro _
    apply triple_bind (Q := fun _ => Resting plan count)
    · apply triple_outcome (J := Resting plan count)
      · apply triple_send
        · exact fun s hs _ => ⟨hs.unbroken, hs.staging⟩
        · exact fun s hs _ => ⟨hs.unbroken, hs.staging⟩
        · exact fun s hs _ => ⟨hs.unbroken, hs.staging⟩
      · exact fun _ s hs => hs
    · exact fun _ => triple_pure fun s hs => hs

/-- A unit with a receipt cleared nothing this time, so a replay has nothing to promote. -/
theorem replay_resting {unit : LoadUnit R D} (hunit : unit ∈ plan.units.take count)
    (htables : ∀ table ∈ writes.map Prod.fst, table ∈ unit.writes.map Prod.fst) :
    Triple (Opened plan count [] writes) replay (fun _ => Resting plan count) (Durable plan count) := by
  have hnone : ∀ s : Session R D,
      Ready plan count [] (writes.map Prod.fst) s.service s.load → ∀ t, ¬s.load.Holds [] t := by
    intro s hs t ht
    have hfirst := hs.first t ht
    obtain ⟨w, hw, hname⟩ := List.mem_map.1 (htables t hfirst.2.1)
    exact hfirst.2.2 unit hunit w hw hname
  apply triple_bind (Q := fun _ s => Ready plan count [] (writes.map Prod.fst) s.service s.load ∧
    Staging plan writes s.load ∧ s.load.unitOpen = false)
  · exact triple_weaken rollback_ready (fun s hs => ⟨hs.unbroken.toReady, hs.staging⟩)
      (fun _ s hs => hs) fun s hs => hs
  · intro _
    apply triple_bind (Q := fun _ s => Unbroken plan count [] [] s.service s.load)
    · apply triple_change
      rintro s ⟨h, -, -⟩
      have hinUnit : s.load.clearedInUnit = [] :=
        List.eq_nil_iff_forall_not_mem.2 fun t ht => hnone s h t (.inl ht)
      have hknows : ∀ t, s.load.Knows [] t → Load.Knows { s.load with
          cleared := s.load.cleared ++ s.load.clearedInUnit, clearedInUnit := [] } [] t := by
        intro t ht
        rcases ht with hk | hk | hk | hk
        · exact .inl (List.mem_append_left _ hk)
        · exact .inl (List.mem_append_right _ hk)
        · exact .inr (.inr (.inl hk))
        · cases hk
      constructor
      · constructor
        · exact h.durable
        · exact h.view
        · exact h.inside
        · exact h.modes
        · exact fun t ht => absurd ht List.not_mem_nil
        · intro t ht
          rw [hinUnit, List.append_nil] at ht
          exact h.cleared t ht
        · exact fun t ht => hknows t (h.knows t ht)
        · exact fun t ht => absurd ht List.not_mem_nil
        · intro t ht
          exfalso
          apply hnone s h t
          rcases ht with ht | ht | ht
          · cases ht
          · exact .inr (.inl ht)
          · exact .inr (.inr ht)
      · exact fun t ht => absurd ht List.not_mem_nil
    · exact fun _ => discardStaged_resting

end Snowflake
