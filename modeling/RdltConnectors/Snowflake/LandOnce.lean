import Mathlib
import RdltConnectors.Snowflake.Running

/-!
# Every unit lands once

A publish copies what its session took, runs the planned statements and commits, all in
one transaction, so that the COMMIT makes the unit durable or nothing at all. Since its
receipt is asked for first, a unit that is already durable is replayed, whatever became
of the answers of earlier attempts.
-/
namespace Snowflake

open Sqlcore Interrupted Fallible

variable {R D : Type}

/-! ## The planned statements -/

theorem mergeSteps_read {options : DestinationOptions} {table : String} {schema : TableSchema}
    {steps : List Step} (h : Sqlcore.mergeSteps options table schema = .ok steps) :
    ∀ step ∈ steps, (∃ scope, step = .scopeReplace table scope) ∨ ∃ arm, step = .mergeArm table arm := by
  obtain ⟨arm, -, hsteps⟩ := bind_ok.1 h
  rw [pure_ok] at hsteps
  subst hsteps
  intro step hstep
  cases List.mem_append.1 hstep with
  | inl hstep =>
    left
    split at hstep
    · next scope _ =>
      split at hstep
      · exact ⟨scope, List.mem_singleton.1 hstep⟩
      · cases hstep
    · cases hstep
  | inr hstep => exact .inr ⟨arm, List.mem_singleton.1 hstep⟩

/-- On a direct publish, only merge tables have steps. -/
theorem publishTable_reads {options : DestinationOptions} {ctx : CommitContext}
    (hdirect : ctx.fullLoadPublish = .directToTarget) {entry : String × TableSchema × WriteMode}
    {part : List Step × List String} (h : publishTable options ctx entry = .ok part) :
    ∀ step ∈ part.1, (∃ table scope, step = .scopeReplace table scope) ∨
      ∃ table arm, step = .mergeArm table arm := by
  have hmerges : ∀ {steps : List Step},
      Sqlcore.mergeSteps options entry.1 entry.2.1 = .ok steps → ∀ step ∈ steps,
        (∃ table scope, step = .scopeReplace table scope) ∨ ∃ table arm, step = .mergeArm table arm := by
    intro steps hsteps step hstep
    rcases mergeSteps_read hsteps step hstep with ⟨scope, heq⟩ | ⟨arm, heq⟩
    · exact .inl ⟨_, scope, heq⟩
    · exact .inr ⟨_, arm, heq⟩
  obtain ⟨table, schema, mode⟩ := entry
  unfold publishTable at h
  rw [hdirect] at h
  cases mode with
  | append =>
    obtain rfl := Except.ok.inj h
    exact fun step hstep => absurd hstep List.not_mem_nil
  | replace =>
    obtain rfl := Except.ok.inj h
    exact fun step hstep => absurd hstep List.not_mem_nil
  | merge key =>
    simp only [] at h
    split at h
    · split at h
      · obtain rfl := Except.ok.inj h
        exact fun step hstep => absurd hstep List.not_mem_nil
      · cases h
      · obtain ⟨steps, hsteps, hpart⟩ := bind_ok.1 h
        rw [pure_ok] at hpart
        subst hpart
        exact hmerges hsteps
    · obtain ⟨steps, hsteps, hpart⟩ := bind_ok.1 h
      rw [pure_ok] at hpart
      subst hpart
      exact hmerges hsteps

/-- Rendered merge steps are statements that read a stage. -/
theorem rendered_reads {config : Config D} {metadata : CommitMeta D} {tables : SessionTables}
    {step : Step} {statements : List (Statement R D)}
    (hstep : (∃ table scope, step = .scopeReplace table scope) ∨ ∃ table arm, step = .mergeArm table arm)
    (h : render config metadata tables step = .ok statements) :
    ∀ statement ∈ statements, statement.readsStage = true := by
  rcases hstep with ⟨table, scope, rfl⟩ | ⟨table, arm, rfl⟩
  · obtain rfl := Except.ok.inj h
    intro statement hmem
    rw [List.mem_singleton.1 hmem]
    rfl
  · obtain ⟨sqls, -, rfl⟩ := map_ok.1 h
    intro statement hmem
    obtain ⟨sql, -, rfl⟩ := List.mem_map.1 hmem
    rfl

theorem rendered_truncations (config : Config D) (metadata : CommitMeta D) (tables : SessionTables)
    (names : List String) :
    (names.map Step.truncateStage).mapM (render (R := R) config metadata tables) =
      .ok (names.map fun table => [.deleteFrom (.stage table)]) := by
  induction names with
  | nil => rfl
  | cons name rest ih => exact mapM_cons_ok.2 ⟨_, _, rfl, ih, rfl⟩

/-- The stages a direct publish truncates. -/
def stagesOf (tables : SessionTables) : List String :=
  (tables.filter fun entry => usesStage entry.2.2 .directToTarget).map Prod.fst

/-- What the plan of a fresh unit renders to. -/
theorem script_renders {config : Config D} {metadata : CommitMeta D} {tables : SessionTables}
    {ctx : CommitContext} {script : CommitScript} {rendered : List (List (Statement R D))}
    (hfresh : ctx.replayed = false) (hdirect : ctx.fullLoadPublish = .directToTarget)
    (hplan : planCommit tables config.options ctx = .ok script)
    (hrender : script.steps.mapM (render config metadata tables) = .ok rendered) :
    ∃ arms : Effects R D, (∀ statement ∈ arms, statement.readsStage = true) ∧
      rendered.flatten = arms ++ (stagesOf tables).map (fun table => .deleteFrom (.stage table)) ++
        [.upsertState metadata.state, .insertReceipt metadata.loadId metadata.commitSeq] := by
  rw [planCommit, hfresh, if_neg Bool.false_ne_true] at hplan
  obtain ⟨parts, hparts, hscript⟩ := bind_ok.1 hplan
  rw [pure_ok] at hscript
  subst hscript
  dsimp only at hrender
  obtain ⟨head, ending, hhead, hending, rfl⟩ := mapM_append_ok.1 hrender
  obtain ⟨arms, truncated, harms, htruncated, rfl⟩ := mapM_append_ok.1 hhead
  refine ⟨arms.flatten, ?_, ?_⟩
  · intro statement hmem
    obtain ⟨statements, hstatements, hmem⟩ := List.mem_flatten.1 hmem
    obtain ⟨step, hstep, hrendered⟩ := mapM_mem harms hstatements
    obtain ⟨part, hpart, hstep⟩ := List.mem_flatMap.1 hstep
    obtain ⟨entry, -, hentry⟩ := mapM_mem hparts hpart
    exact rendered_reads (publishTable_reads hdirect hentry step hstep) hrendered statement hmem
  · have hnames : truncations tables ctx.fullLoadPublish = (stagesOf tables).map Step.truncateStage := by
      rw [hdirect, stagesOf, List.map_map]
      rfl
    rw [hnames, rendered_truncations] at htruncated
    obtain rfl := Except.ok.inj htruncated
    obtain rfl := Except.ok.inj hending
    rw [List.flatten_append, List.flatten_append]
    apply congrArg (· ++ _)
    apply congrArg (arms.flatten ++ ·)
    rw [← List.flatMap_def]
    exact List.flatMap_pure_eq_map ..

/-! ## Statements in a transaction -/

/-- The transaction and the session, exactly. -/
def Within (durable transaction : Effects R D) (load : Load R) (s : Session R D) : Prop :=
  s.service = ⟨durable, some transaction⟩ ∧ s.load = load

/-- The commit has not happened. -/
def Uncommitted (durable : Effects R D) (s : Session R D) : Prop := s.service.durable = durable

variable {durable transaction : Effects R D} {load : Load R}

theorem Within.uncommitted {s : Session R D} (h : Within durable transaction load s) :
    Uncommitted durable s := congrArg Service.durable h.1

theorem execute_within (statement : Statement R D) :
    Triple (Within durable transaction load) (execute statement)
      (fun _ => Within durable (transaction ++ [statement]) load) (Uncommitted durable) := by
  have hexecute : ∀ s : Session R D, Within durable transaction load s →
      s.service.execute statement = ⟨durable, some (transaction ++ [statement])⟩ := by
    intro s hs
    rw [hs.1]
    rfl
  apply triple_send
  · exact fun s hs _ => ⟨hexecute s hs, hs.2⟩
  · exact fun s hs _ => hs.uncommitted
  · exact fun s hs _ => congrArg Service.durable (hexecute s hs)

/-- A loop whose turns execute what is rendered for them. -/
theorem forM_within {β : Type} {act : β → Hook R D Unit} {text : β → Except String (Effects R D)}
    (hstep : ∀ x transaction, Triple (Within durable transaction load) (act x)
      (fun _ s => ∃ statements, text x = .ok statements ∧
        Within durable (transaction ++ statements) load s) (Uncommitted durable)) (xs : List β) :
    Triple (Within durable transaction load) (xs.forM act)
      (fun _ s => ∃ rendered, xs.mapM text = .ok rendered ∧
        Within durable (transaction ++ rendered.flatten) load s) (Uncommitted durable) := by
  induction xs generalizing transaction with
  | nil =>
    apply triple_pure
    intro s hs
    refine ⟨[], rfl, ?_⟩
    rw [List.flatten_nil, List.append_nil]
    exact hs
  | cons x rest ih =>
    apply triple_bind (hstep x transaction)
    intro _
    apply triple_exists
    intro statements
    apply triple_given
    intro htext
    apply triple_weaken ih
    · exact fun s hs => hs
    · rintro _ s ⟨rendered, hrendered, hs⟩
      refine ⟨statements :: rendered, mapM_cons_ok.2 ⟨_, _, htext, hrendered, rfl⟩, ?_⟩
      rw [List.flatten_cons, ← List.append_assoc]
      exact hs
    · exact fun s hs => hs

/-- The same where nothing can fail to render. -/
theorem forM_within_all {β : Type} {act : β → Hook R D Unit} {text : β → Effects R D}
    (hstep : ∀ x transaction, Triple (Within durable transaction load) (act x)
      (fun _ => Within durable (transaction ++ text x) load) (Uncommitted durable)) (xs : List β) :
    Triple (Within durable transaction load) (xs.forM act)
      (fun _ => Within durable (transaction ++ xs.flatMap text) load) (Uncommitted durable) := by
  have hloop := @forM_within R D durable transaction load β act (fun x => .ok (text x))
    (fun x transaction => triple_weaken (hstep x transaction) (fun s hs => hs)
      (fun _ s hs => ⟨_, rfl, hs⟩) fun s hs => hs) xs
  apply triple_weaken hloop
  · exact fun s hs => hs
  · rintro _ s ⟨rendered, hrendered, hs⟩
    have htexts : xs.mapM (fun x => (.ok (text x) : Except String (Effects R D))) = .ok (xs.map text) :=
      List.mapM_pure ..
    rw [htexts] at hrendered
    obtain rfl := Except.ok.inj hrendered
    rw [List.flatMap_def]
    exact hs
  · exact fun s hs => hs

theorem executeStep_within (config : Config D) (metadata : CommitMeta D) (step : Step)
    (transaction : Effects R D) :
    Triple (Within durable transaction load) (executeStep config metadata step)
      (fun _ s => ∃ statements, render config metadata load.tables step = .ok statements ∧
        Within durable (transaction ++ statements) load s) (Uncommitted durable) := by
  cases step with
  | mergeArm table arm =>
    apply triple_bind (Q := fun seen s => seen = load ∧ Within durable transaction load s)
    · exact triple_theLoad fun s hs => ⟨hs.2, hs⟩
    · intro seen
      apply triple_given
      rintro rfl
      dsimp only [render]
      cases hsql : config.mergeStatements seen.tables table arm with
      | error message => exact triple_throw fun s hs => hs.uncommitted
      | ok sqls =>
        have hloop := @forM_within_all R D durable transaction seen String
          (fun sql => execute (.merge sql)) (fun sql => [.merge sql])
          (fun sql transaction => execute_within _) sqls
        apply triple_weaken hloop
        · exact fun s hs => hs
        · intro _ s hs
          refine ⟨_, rfl, ?_⟩
          have hflat : sqls.flatMap (fun sql => [(.merge sql : Statement R D)]) = sqls.map .merge :=
            List.flatMap_pure_eq_map ..
          rw [← hflat]
          exact hs
        · exact fun s hs => hs
  | _ =>
    exact triple_weaken (execute_within _) (fun s hs => hs) (fun _ s hs => ⟨_, rfl, hs⟩) fun s hs => hs

/-! ## Copies -/

/-- The COPY of an entry that has parts. -/
def copyOf (entry : Relation × Pending R) : Effects R D :=
  if entry.2.parts.isEmpty then [] else [.copyInto entry.1 entry.2.columns entry.2.parts]

theorem copiedBy_copyOf (relation : Relation) (entry : Relation × Pending R) :
    copied relation (copyOf (D := D) entry) =
      if entry.1 = relation then entry.2.parts.flatten else [] := by
  unfold copyOf
  split
  · next hempty =>
    rw [List.isEmpty_iff.1 hempty]
    exact (ite_self _).symm
  · exact List.append_nil _

/-- Entries by distinct relations copy what is pending for each. -/
theorem copied_copies {entries : List (Relation × Pending R)} (h : (entries.map Prod.fst).Nodup)
    (relation : Relation) :
    copied relation (entries.flatMap (copyOf (D := D))) =
      ((entries.lookup relation).map fun entry => entry.parts.flatten).getD [] := by
  induction entries with
  | nil => rfl
  | cons entry rest ih =>
    obtain ⟨r, pending⟩ := entry
    rw [List.map_cons, List.nodup_cons] at h
    rw [List.flatMap_cons, copied_append, copiedBy_copyOf, lookup_entry]
    by_cases hr : r = relation
    · subst hr
      rw [if_pos rfl, if_pos rfl]
      have hrest : copied r (rest.flatMap (copyOf (D := D))) = [] := by
        rw [ih h.2]
        cases hlookup : rest.lookup r with
        | none => rfl
        | some found => exact absurd (List.mem_map.2 ⟨_, mem_of_lookup_eq hlookup, rfl⟩) h.1
      rw [hrest, List.append_nil]
      rfl
    · rw [if_neg hr, if_neg (Ne.symm hr), List.nil_append]
      exact ih h.2

theorem copies_within (entries : List (Relation × Pending R)) :
    Triple (Within durable transaction load)
      (entries.forM fun entry => if entry.2.parts.isEmpty then pure ()
        else execute (.copyInto entry.1 entry.2.columns entry.2.parts))
      (fun _ => Within durable (transaction ++ entries.flatMap copyOf) load)
      (Uncommitted (D := D) durable) := by
  apply forM_within_all
  intro entry transaction
  unfold copyOf
  apply triple_ite
  · intro hempty
    apply triple_pure
    intro s hs
    rw [if_pos hempty, List.append_nil]
    exact hs
  · intro hparts
    apply triple_weaken (execute_within _)
    · exact fun s hs => hs
    · intro _ s hs
      rw [if_neg hparts]
      exact hs
    · exact fun s hs => hs

theorem copies_are_copies {entries : List (Relation × Pending R)} :
    ∀ statement ∈ entries.flatMap (copyOf (D := D)), statement.isCopy = true := by
  intro statement hmem
  obtain ⟨entry, -, hmem⟩ := List.mem_flatMap.1 hmem
  unfold copyOf at hmem
  split at hmem
  · cases hmem
  · rw [List.mem_singleton.1 hmem]
    rfl

theorem closePart_shrinks (relation : Relation) (rest : List Relation) :
    Triple (fun s : Session R D => ∀ e ∈ s.load.openParts, e.1 ∈ relation :: rest)
      (closePart relation) (fun _ s => ∀ e ∈ s.load.openParts, e.1 ∈ rest) fun _ => True := by
  apply triple_bind (Q := fun load s =>
    (∀ e ∈ s.load.openParts, e.1 ∈ relation :: rest) ∧ s.load = load)
  · exact triple_theLoad fun s hs => ⟨hs, rfl⟩
  · intro load
    cases hpart : load.openParts.lookup relation with
    | none =>
      apply triple_pure
      rintro s ⟨hs, rfl⟩ e he
      apply (List.mem_cons.1 (hs e he)).resolve_left
      intro heq
      rw [List.lookup_eq_none_iff] at hpart
      exact absurd (hpart e he) (by simp [heq])
    | some part =>
      apply triple_bind (Q := fun _ s => ∀ e ∈ s.load.openParts, e.1 ∈ rest)
      · apply triple_change
        rintro s ⟨hs, rfl⟩ e he
        obtain ⟨hmem, hother⟩ := List.mem_filter.1 he
        exact (List.mem_cons.1 (hs e hmem)).resolve_left (of_decide_eq_true hother)
      · intro _
        apply triple_ite
        · exact fun _ => triple_pure fun s hs => hs
        · intro _
          apply triple_bind (Q := fun _ s => ∀ e ∈ s.load.openParts, e.1 ∈ rest)
          · exact triple_send (fun s hs _ => hs) (fun _ _ _ => trivial) fun _ _ _ => trivial
          · exact fun _ => triple_change fun s hs => hs

variable {plan : LoadPlan R D} {count : Nat} {writes : List (String × List R)}

/-- The rows of the unit are in its transaction, and nothing is durable yet. -/
structure Loaded (plan : LoadPlan R D) (count : Nat) (writes : List (String × List R))
    (durable transaction copies : Effects R D) (load : Load R) : Prop where
  unbroken : Unbroken plan count [] (writes.map Prod.fst) ⟨durable, some transaction⟩ load
  owed : load.reclearOwed = []
  copying : ∀ statement ∈ copies, statement.isCopy = true
  rows : ∀ relation, copied relation copies = rowsInto plan.modes writes relation

theorem loadStagedParts_loaded :
    Triple (Opened plan count [] writes) loadStagedParts
      (fun _ s => ∃ durable transaction copies load,
        Loaded plan count writes durable transaction copies load ∧
          Within durable (transaction ++ copies) load s) (Durable plan count) := by
  apply triple_bind (Q := fun load s => Opened plan count [] writes s ∧ s.load = load)
  · exact triple_theLoad fun s hs => ⟨hs, rfl⟩
  · intro load
    apply triple_bind (Q := fun _ s => Opened plan count [] writes s ∧ s.load.openParts = [])
    · have hclosed := triple_forM (J := fun (_ : List Relation) => Opened plan count [] writes)
        (fun relation _ => closePart_opened relation) (load.openParts.map Prod.fst)
      have hshrunk := triple_forM (J := fun (rest : List Relation) (s : Session R D) =>
        ∀ e ∈ s.load.openParts, e.1 ∈ rest) (fun relation rest => closePart_shrinks relation rest)
        (load.openParts.map Prod.fst)
      apply triple_weaken (triple_and hclosed hshrunk)
      · rintro s ⟨hs, rfl⟩
        exact ⟨hs, fun e he => List.mem_map.2 ⟨e, he, rfl⟩⟩
      · rintro _ s ⟨hs, hnone⟩
        exact ⟨hs, List.eq_nil_iff_forall_not_mem.2 fun e he => absurd (hnone e he) List.not_mem_nil⟩
      · exact fun s hs => hs.1
    · intro _
      apply triple_bind (Q := fun load s => (Opened plan count [] writes s ∧ s.load.openParts = []) ∧
        s.load = load)
      · exact triple_theLoad fun s hs => ⟨hs, rfl⟩
      · intro load
        apply triple_bind (Q := fun _ s => ∃ durable transaction,
          Loaded plan count writes durable transaction (load.pending.flatMap copyOf)
            { load with pending := [] } ∧
          Within durable transaction { load with pending := [] } s)
        · apply triple_change
          rintro s ⟨⟨hs, hopenParts⟩, rfl⟩
          have hu := hs.unbroken
          obtain ⟨transaction, htransaction⟩ := Option.isSome_iff_exists.1 (hu.inside hs.isOpen)
          have hservice : s.service = ⟨s.service.durable, some transaction⟩ := by
            rw [← htransaction]
          refine ⟨s.service.durable, transaction, ⟨?_, hs.owed, copies_are_copies, ?_⟩, hservice, rfl⟩
          · rw [← hservice]
            exact ⟨⟨hu.durable, hu.view, hu.inside, hu.modes, hu.ensured, hu.cleared, hu.knows,
              hu.covers, hu.first⟩, hu.inUnit⟩
          · intro relation
            have hopenRows : s.load.openRows relation = [] := by
              unfold Load.openRows
              rw [hopenParts]
              rfl
            rw [copied_copies hs.staging.keys, ← hs.staging.rows relation]
            unfold Load.staged
            rw [hopenRows, List.append_nil]
            rfl
        · intro _
          apply triple_exists
          intro durable
          apply triple_exists
          intro transaction
          apply triple_given
          intro hloaded
          apply triple_weaken (copies_within load.pending)
          · exact fun s hs => hs
          · exact fun _ s hs => ⟨durable, transaction, _, _, hloaded, hs⟩
          · intro s hs
            unfold Durable
            rw [show s.service.durable = durable from hs]
            exact hloaded.unbroken.durable

/-! ## The commit -/

theorem destinationOf_stage {table other : String} {mode : WriteMode}
    (h : destinationOf table mode = .stage other) : mode.isMerge = true ∧ table = other := by
  unfold destinationOf at h
  split at h
  · next hmerge => exact ⟨hmerge, Relation.stage.inj h⟩
  · cases h

/-- The stages hold what the unit fills them with. -/
theorem Loaded.stage {durable transaction copies : Effects R D} {load : Load R}
    (h : Loaded plan count writes durable transaction copies load) (table : String) :
    contents (.stage table) [] (durable ++ (transaction ++ copies)) =
      rowsInto plan.modes writes (.stage table) := by
  have hdrained : contents (.stage table) [] (durable ++ transaction) = [] := by
    rw [← LoadPlan.contents_work]
    exact h.unbroken.view.history.drained table
  rw [← List.append_assoc, contents_append, hdrained, contents_of_undeleted, h.rows, List.nil_append]
  intro hmem
  cases h.copying _ hmem

/-- What was copied and rendered is what the publish of the unit is to execute. -/
theorem Loaded.publishes {durable transaction copies : Effects R D} {load : Load R}
    (h : Loaded plan count writes durable transaction copies load) {unit : LoadUnit R D}
    (hrows : ∀ relation, rowsInto plan.modes writes relation = rowsInto plan.modes unit.writes relation)
    (htables : ∀ table, table ∈ writes.map Prod.fst ↔ table ∈ unit.writes.map Prod.fst)
    {script : CommitScript} {rendered : List (Effects R D)}
    (hplan : planUnit plan.config load (plan.feeds writes load.tables) = .ok script)
    (hrender : script.steps.mapM (render plan.config (plan.metadata unit count) load.tables) =
      .ok rendered) :
    ∃ arms truncations, plan.Publishes unit count copies arms truncations ∧
      rendered.flatten = arms ++ truncations ++ plan.ending unit count := by
  obtain ⟨arms, harms, hflat⟩ := script_renders rfl rfl hplan hrender
  have hfeeds : plan.feeds writes load.tables = plan.feeds unit.writes load.tables := by
    apply List.filter_congr
    intro table _
    rw [hrows]
  refine ⟨arms, _, ⟨h.copying, fun relation => (h.rows relation).trans (hrows relation), harms, ?_, ?_,
    ⟨load.tables, _, script, rendered, ⟨h.unbroken.modes, ?_, rfl, rfl, hfeeds⟩, hplan, hrender,
      hflat⟩⟩, hflat⟩
  · intro statement hmem
    obtain ⟨table, -, rfl⟩ := List.mem_map.1 hmem
    rfl
  · intro table hfilled
    obtain ⟨w, hw, hinto⟩ : ∃ w ∈ unit.writes, destinationOf w.1 (plan.modes w.1) = .stage table := by
      by_contra hnone
      apply hfilled
      apply List.flatMap_eq_nil_iff.2
      exact fun w hw => if_neg fun hinto => hnone ⟨w, hw, hinto⟩
    obtain ⟨hmerge, rfl⟩ := destinationOf_stage hinto
    have hmem := (htables w.1).2 (List.mem_map.2 ⟨w, hw, rfl⟩)
    obtain ⟨entry, hlookup⟩ := Option.isSome_iff_exists.1 (h.unbroken.ensured w.1 hmem)
    have hmode := h.unbroken.modes w.1 entry hlookup
    apply List.mem_map.2
    refine ⟨w.1, List.mem_map.2 ⟨(w.1, entry), List.mem_filter.2 ⟨mem_of_lookup_eq hlookup, ?_⟩, rfl⟩, rfl⟩
    dsimp only
    rw [hmode]
    unfold usesStage
    rw [hmerge, Bool.true_or]
  · intro table htable
    exact h.unbroken.ensured table ((htables table).2 htable)

/-- The ledger after the COMMIT. -/
theorem Loaded.ledger {durable transaction copies : Effects R D} {load : Load R}
    (h : Loaded plan count writes durable transaction copies load) {unit : LoadUnit R D}
    (hunit : plan.units[count]? = some unit)
    (htables : ∀ table, table ∈ writes.map Prod.fst ↔ table ∈ unit.writes.map Prod.fst)
    {arms truncations : Effects R D}
    (hpublishes : plan.Publishes unit count copies arms truncations) :
    plan.Ledger (count + 1)
      (durable ++ transaction ++ (copies ++ arms ++ truncations ++ plan.ending unit count)) := by
  apply h.unbroken.view.publish hunit hpublishes
  intro w hw hmode
  rcases h.unbroken.covers w.1 ((htables w.1).2 (List.mem_map.2 ⟨w, hw, rfl⟩)) hmode with
    hk | hk | hk | hk
  · exact List.mem_append_left _ (h.unbroken.cleared w.1 hk)
  · exact h.unbroken.inUnit w.1 hk
  · rw [h.owed] at hk
    cases hk
  · cases hk

/-- A failed unit leaves what is durable as it was. -/
theorem abandon_keeps (P : Effects R D → Prop) (error : DestinationError)
    {Q : Unit → Session R D → Prop} :
    Triple (fun s : Session R D => P s.service.durable) (abandon error) Q
      fun s => P s.service.durable := by
  have hchange : ∀ f : Load R → Load R,
      Keeps (fun s : Session R D => P s.service.durable) (change f) :=
    fun f => keeps_modify fun s hs => hs
  have hsend : ∀ effect : Service R D → Service R D,
      (∀ service, (effect service).durable = service.durable) →
      Triple (fun s : Session R D => P s.service.durable) (outcome (send effect))
        (fun _ s => P s.service.durable) fun s => P s.service.durable := by
    intro effect heffect
    have hkeeps : ∀ s : Session R D, P s.service.durable → P (effect s.service).durable := by
      intro s hs
      rw [heffect]
      exact hs
    apply triple_outcome (J := fun s : Session R D => P s.service.durable)
    · exact keeps_send (fun s hs => hs) hkeeps
    · exact fun _ _ hs => hs
  apply triple_bind (Q := fun _ (s : Session R D) => P s.service.durable)
  · apply triple_bind (Q := fun _ (s : Session R D) => P s.service.durable)
    · exact triple_theLoad fun s hs => hs
    · intro load
      apply triple_ite
      · exact fun _ => triple_bind (hsend _ fun _ => rfl) fun _ => hchange _
      · exact fun _ => keeps_pure ()
  · intro _
    apply triple_bind (hchange _)
    intro _
    apply triple_bind (Q := fun _ (s : Session R D) => P s.service.durable)
    · exact triple_bind (hchange _) fun _ => triple_bind (hsend _ fun _ => rfl) fun _ => keeps_pure ()
    · exact fun _ => triple_throw fun s hs => hs

/-- The unit is durable, or nothing of it. -/
def Settles (plan : LoadPlan R D) (count : Nat) (s : Session R D) : Prop :=
  Durable plan count s ∨ Durable plan (count + 1) s

theorem commitUnit_lands {durable transaction : Effects R D} {load : Load R} (reply : CommitReply)
    (hbefore : plan.Ledger count durable) (hafter : plan.Ledger (count + 1) (durable ++ transaction)) :
    Triple (Within durable transaction load) (commitUnit reply)
      (fun _ s => s.service = ⟨durable ++ transaction, none⟩ ∧ s.load = { load with unitOpen := false })
      (Settles plan count) := by
  have hkept : ∀ s : Session R D, Within durable transaction load s → Settles plan count s := by
    intro s hs
    left
    unfold Durable
    rw [hs.1]
    exact hbefore
  cases reply with
  | committed =>
    apply triple_bind (Q := fun _ s => s.service = ⟨durable ++ transaction, none⟩ ∧ s.load = load)
    · apply triple_modify
      intro s hs
      refine ⟨?_, hs.2⟩
      dsimp only
      rw [hs.1]
      rfl
    · intro _
      apply triple_change
      rintro s ⟨hservice, rfl⟩
      exact ⟨hservice, rfl⟩
  | refused => exact triple_throw hkept
  | lost =>
    apply triple_bind (Q := fun _ => Durable plan (count + 1))
    · apply triple_modify
      intro s hs
      unfold Durable
      dsimp only
      rw [hs.1]
      exact hafter
    · exact fun _ => triple_throw fun s hs => .inr hs
  | abandoned =>
    apply triple_bind (Q := fun _ => Durable plan count)
    · apply triple_modify
      intro s hs
      unfold Durable
      dsimp only
      rw [hs.1]
      exact hbefore
    · exact fun _ => triple_throw fun s hs => .inl hs

/-- The effects of the unit's transaction are the next entry of the ledger. -/
theorem commit_lands {durable transaction copies : Effects R D} {load : Load R}
    (h : Loaded plan count writes durable transaction copies load) {unit : LoadUnit R D}
    (hunit : plan.units[count]? = some unit)
    (htables : ∀ table, table ∈ writes.map Prod.fst ↔ table ∈ unit.writes.map Prod.fst)
    {arms truncations rendered : Effects R D}
    (hpublishes : plan.Publishes unit count copies arms truncations)
    (hrendered : rendered = arms ++ truncations ++ plan.ending unit count)
    (reply : CommitReply) (marks : List String) :
    Triple (Within durable (transaction ++ copies ++ rendered) load)
      (do
        commitUnit reply
        change fun load => { load with
          singleUnitDone := load.singleUnitDone ++ marks
          cleared := load.cleared ++ load.clearedInUnit
          clearedInUnit := [] }
        discardStaged)
      (fun _ => Resting plan (count + 1)) (Settles plan count) := by
  have hu := h.unbroken
  have heffects : durable ++ (transaction ++ copies ++ rendered) =
      durable ++ transaction ++ (copies ++ arms ++ truncations ++ plan.ending unit count) := by
    rw [hrendered]
    simp only [List.append_assoc]
  have hledger : plan.Ledger (count + 1) (durable ++ (transaction ++ copies ++ rendered)) := by
    rw [heffects]
    exact h.ledger hunit htables hpublishes
  have hrecords : ∀ table, .recordCleared table ∈ durable ++ (transaction ++ copies ++ rendered) →
      .recordCleared table ∈ durable ++ transaction := by
    intro table hmem
    rw [heffects] at hmem
    apply (List.mem_append.1 hmem).resolve_right
    intro hblock
    cases List.filter_eq_self.1 (work_publish hpublishes) _ hblock
  apply triple_bind (commitUnit_lands reply hu.durable hledger)
  intro _
  apply triple_bind (Q := fun _ s => Unbroken plan (count + 1) [] [] s.service s.load)
  · apply triple_change
    rintro s ⟨hservice, hload⟩
    dsimp only
    rw [hservice, hload]
    constructor
    · constructor
      · exact hledger
      · change plan.Ledger (count + 1) (durable ++ (transaction ++ copies ++ rendered) ++ [])
        rw [List.append_nil]
        exact hledger
      · rintro ⟨⟩
      · exact hu.modes
      · exact fun table htable => absurd htable List.not_mem_nil
      · intro table htable
        cases List.mem_append.1 htable with
        | inl htable => exact List.mem_append_left _ (hu.cleared table htable)
        | inr htable =>
          change _ ∈ durable ++ (transaction ++ copies ++ rendered)
          rw [List.append_assoc transaction, ← List.append_assoc durable]
          exact List.mem_append_left _ (hu.inUnit table htable)
      · intro table htable
        change _ ∈ durable ++ (transaction ++ copies ++ rendered) ++ [] at htable
        rw [List.append_nil] at htable
        rcases hu.knows table (hrecords table htable) with hk | hk | hk | hk
        · exact .inl (List.mem_append_left _ hk)
        · exact .inl (List.mem_append_right _ hk)
        · rw [h.owed] at hk
          cases hk
        · cases hk
      · exact fun table htable => absurd htable List.not_mem_nil
      · intro table htable
        rcases htable with ht | ht | ht
        · cases ht
        · change table ∈ load.reclearOwed at ht
          rw [h.owed] at ht
          cases ht
        · cases ht
    · exact fun table htable => absurd htable List.not_mem_nil
  · intro _
    exact triple_weaken discardStaged_resting (fun s hs => hs) (fun _ s hs => hs) fun s hs => .inr hs

theorem settle_lands {durable transaction copies : Effects R D} {load : Load R}
    (h : Loaded plan count writes durable transaction copies load) {unit : LoadUnit R D}
    (hunit : plan.units[count]? = some unit)
    (hrows : ∀ relation, rowsInto plan.modes writes relation = rowsInto plan.modes unit.writes relation)
    (htables : ∀ table, table ∈ writes.map Prod.fst ↔ table ∈ unit.writes.map Prod.fst)
    {script : CommitScript} (hplan : planUnit plan.config load (plan.feeds writes load.tables) = .ok script)
    (reply : CommitReply) :
    Triple (Within durable (transaction ++ copies) load)
      (settle plan.config (plan.metadata unit count) (plan.feeds writes load.tables) script reply)
      (fun _ => Resting plan (count + 1)) (Settles plan count) := by
  apply triple_bind (Q := fun ended s => (∃ error, ended = .error error ∧ Durable plan count s) ∨
    ended = .ok () ∧ ∃ rendered,
      script.steps.mapM (render plan.config (plan.metadata unit count) load.tables) = .ok rendered ∧
        Within durable (transaction ++ copies ++ rendered.flatten) load s)
  · apply triple_outcome (J := Durable plan count)
    · apply triple_weaken (forM_within (fun step transaction =>
        executeStep_within plan.config (plan.metadata unit count) step transaction) script.steps)
      · exact fun s hs => hs
      · exact fun _ s hs => .inr ⟨rfl, hs⟩
      · intro s hs
        unfold Durable
        rw [show s.service.durable = durable from hs]
        exact h.unbroken.durable
    · exact fun error s hs => .inl ⟨error, rfl, hs⟩
  · intro ended
    cases ended with
    | error error =>
      apply triple_weaken (abandon_keeps (plan.Ledger count) error)
      · rintro s (⟨_, -, hs⟩ | ⟨heq, -⟩)
        · exact hs
        · cases heq
      · exact fun _ s hs => hs
      · exact fun s hs => .inl hs
    | ok result =>
      apply triple_weaken (Q := fun _ => Resting plan (count + 1)) (I := Settles plan count)
        (P := fun s => ∃ rendered,
        script.steps.mapM (render plan.config (plan.metadata unit count) load.tables) = .ok rendered ∧
          Within durable (transaction ++ copies ++ rendered.flatten) load s)
      · apply triple_exists
        intro rendered
        apply triple_given
        intro hrendered
        obtain ⟨arms, truncations, hpublishes, hflat⟩ := h.publishes hrows htables hplan hrendered
        exact commit_lands h hunit htables hpublishes hflat reply _
      · rintro s (⟨_, heq, -⟩ | ⟨-, hs⟩)
        · cases heq
        · exact hs
      · exact fun _ s hs => hs
      · exact fun s hs => hs

/-- The probes find the full-feed stages that the unit fills, and change nothing. -/
theorem probeStaged_within {durable transaction copies : Effects R D} {load : Load R}
    (h : Loaded plan count writes durable transaction copies load) :
    Triple (Within durable (transaction ++ copies) load) (probeStaged plan.config)
      (fun staged s => staged = plan.feeds writes load.tables ∧
        Within durable (transaction ++ copies) load s) (Uncommitted durable) := by
  apply triple_bind (Q := fun seen s => seen = load ∧ Within durable (transaction ++ copies) load s)
  · exact triple_theLoad fun s hs => ⟨hs.2, hs⟩
  · intro seen
    apply triple_given
    rintro rfl
    apply triple_filterM
    intro table
    apply triple_bind (Q := fun _ => Within durable (transaction ++ copies) seen)
    · exact triple_send (fun s hs _ => hs) (fun s hs _ => hs.uncommitted) fun s hs _ => hs.uncommitted
    · intro _
      apply triple_bind (Q := fun here s => here = s ∧ Within durable (transaction ++ copies) seen s)
      · exact triple_get fun s hs => ⟨rfl, hs⟩
      · intro here
        apply triple_pure
        rintro s ⟨rfl, hs⟩
        refine ⟨?_, hs⟩
        have hview : here.service.view = durable ++ (transaction ++ copies) := by
          rw [hs.1]
          rfl
        dsimp only
        rw [stagedRows_eq, hview, h.stage]
        cases rowsInto plan.modes writes (.stage table) with
        | nil => rfl
        | cons row rest => rfl

theorem publish_lands {unit : LoadUnit R D} (hunit : plan.units[count]? = some unit)
    (hrows : ∀ relation, rowsInto plan.modes writes relation = rowsInto plan.modes unit.writes relation)
    (htables : ∀ table, table ∈ writes.map Prod.fst ↔ table ∈ unit.writes.map Prod.fst)
    (reply : CommitReply) :
    Triple (Running plan count writes)
      (publish plan.config (plan.metadata unit count) reply)
      (fun _ => Resting plan (count + 1)) (Settles plan count) := by
  apply triple_bind (Q := fun _ => Opened plan count [] writes)
  · exact triple_weaken openUnit_running (fun s hs => hs) (fun _ s hs => hs) fun s hs => .inl hs
  · intro _
    apply triple_bind (Q := fun ended s => (∃ error, ended = .error error ∧ Durable plan count s) ∨
      ended = .ok () ∧ ∃ durable transaction copies load,
        Loaded plan count writes durable transaction copies load ∧
          Within durable (transaction ++ copies) load s)
    · apply triple_outcome (J := Durable plan count)
      · exact triple_weaken loadStagedParts_loaded (fun s hs => hs) (fun _ s hs => .inr ⟨rfl, hs⟩)
          fun s hs => hs
      · exact fun error s hs => .inl ⟨error, rfl, hs⟩
    · intro ended
      cases ended with
      | error error =>
        apply triple_weaken (abandon_keeps (plan.Ledger count) error)
        · rintro s (⟨_, -, hs⟩ | ⟨heq, -⟩)
          · exact hs
          · cases heq
        · exact fun _ s hs => hs
        · exact fun s hs => .inl hs
      | ok result =>
        apply triple_weaken (Q := fun _ => Resting plan (count + 1)) (I := Settles plan count)
          (P := fun s => ∃ durable transaction copies load,
          Loaded plan count writes durable transaction copies load ∧
            Within durable (transaction ++ copies) load s)
        · apply triple_exists
          intro durable
          apply triple_exists
          intro transaction
          apply triple_exists
          intro copies
          apply triple_exists
          intro load
          apply triple_given
          intro hloaded
          have hcut : ∀ s : Session R D, Uncommitted durable s → Settles plan count s := by
            intro s hs
            left
            unfold Durable
            rw [show s.service.durable = durable from hs]
            exact hloaded.unbroken.durable
          apply triple_bind (Q := fun staged s => staged = plan.feeds writes load.tables ∧
            Within durable (transaction ++ copies) load s)
          · exact triple_weaken (probeStaged_within hloaded) (fun s hs => hs) (fun _ s hs => hs) hcut
          · intro staged
            apply triple_given
            rintro rfl
            apply triple_bind (Q := fun seen s => seen = load ∧ Within durable (transaction ++ copies) load s)
            · exact triple_theLoad fun s hs => ⟨hs.2, hs⟩
            · intro seen
              apply triple_given
              rintro rfl
              cases hplan : planUnit plan.config seen (plan.feeds writes seen.tables) with
              | error error => exact triple_throw fun s hs => hcut s hs.uncommitted
              | ok script => exact settle_lands hloaded hunit hrows htables hplan reply
        · rintro s (⟨_, heq, -⟩ | ⟨-, hs⟩)
          · cases heq
          · exact hs
        · exact fun _ s hs => hs
        · exact fun s hs => hs

/-! ## Deliveries -/

/-- How many units are durable after an attempt at one of them. -/
def Lands (count index landed : Nat) : Prop := landed = count ∨ index = count ∧ landed = count + 1

theorem deliver_lands (hsize : plan.units.length ≤ 2 ^ 64) {index : Nat} {unit : LoadUnit R D}
    (hunit : plan.units[index]? = some unit) (hindex : index ≤ count) {calls : List (Call R)}
    (hdelivers : Delivers plan.modes unit calls) (reply : CommitReply) :
    Triple (Resting plan count)
      (deliver plan.config unit (UInt64.ofNat index) calls reply)
      (fun _ s => ∃ landed, Lands count index landed ∧ index < landed ∧ Resting plan landed s)
      (fun s => ∃ landed, Lands count index landed ∧ Durable plan landed s) := by
  have hbound : index < plan.units.length := (List.getElem?_eq_some_iff.1 hunit).1
  have hcut : ∀ s : Session R D, Durable plan count s →
      ∃ landed, Lands count index landed ∧ Durable plan landed s :=
    fun s hs => ⟨count, .inl rfl, hs⟩
  apply triple_bind (Q := fun _ => Running plan count (writesOf calls))
  · exact triple_weaken (calls_running plan.config calls hdelivers.modes) (fun s hs => hs)
      (fun _ s hs => hs) hcut
  · intro _
    apply triple_bind (Q := fun found s => (found = true ↔ index < count) ∧
      Opened plan count [] (writesOf calls) s)
    · exact triple_weaken (existingReceipt_running hsize hbound) (fun s hs => hs)
        (fun _ s hs => hs) hcut
    · intro found
      apply triple_given
      intro hfound
      apply triple_ite
      · intro hreceipt
        have hlt := hfound.1 hreceipt
        have hmem : unit ∈ plan.units.take count := by
          rw [List.mem_iff_getElem?]
          exact ⟨index, by rw [List.getElem?_take_of_lt hlt, hunit]⟩
        apply triple_weaken (replay_resting hmem fun table => (hdelivers.tables table).1)
        · exact fun s hs => hs
        · exact fun _ s hs => ⟨count, .inl rfl, hlt, hs⟩
        · exact hcut
      · intro hreceipt
        have heq : index = count := by
          have hnot : ¬index < count := fun hlt => hreceipt (hfound.2 hlt)
          omega
        subst heq
        apply triple_weaken (publish_lands hunit hdelivers.rows hdelivers.tables reply)
        · exact fun s hs => hs.running
        · exact fun _ s hs => ⟨index + 1, .inr ⟨rfl, rfl⟩, Nat.lt_succ_self index, hs⟩
        · rintro s (hs | hs)
          · exact hcut s hs
          · exact ⟨index + 1, .inr ⟨rfl, rfl⟩, hs⟩

namespace Host

/-- What holds of a host and its world between two attempts. -/
structure Sound (plan : LoadPlan R D) (h : Host R D) (count : Nat) : Prop where
  least : h.acknowledged ≤ count
  most : count ≤ h.acknowledged + 1
  ledger : plan.Ledger count h.world.service.durable
  session : ∀ load, h.world.session = some load → ∀ replies,
    Resting plan count ⟨h.world.service, replies, load⟩

variable {h : Host R D}

theorem connect_resting {service : Service R D} (hledger : plan.Ledger count service.durable)
    (replies : List Reply) :
    Resting plan count ⟨service.rollback, replies, Load.connect service⟩ := by
  refine ⟨⟨⟨hledger, ?_, ?_, ?_, ?_, ?_, ?_, ?_, ?_⟩, ?_⟩, ⟨fun _ => rfl, List.nodup_nil⟩⟩
  · change plan.Ledger count service.rollback.view
    rw [Service.view_rollback]
    exact hledger
  · rintro ⟨⟩
  · intro table entry hlookup
    cases hlookup
  · exact fun table htable => absurd htable List.not_mem_nil
  · exact fun table htable => mem_readClearedTargets.1 htable
  · intro table htable
    change _ ∈ service.rollback.view at htable
    rw [Service.view_rollback] at htable
    exact .inl (mem_readClearedTargets.2 htable)
  · exact fun table htable => absurd htable List.not_mem_nil
  · rintro table (ht | ht | ht)
    · cases ht
    · cases ht
    · cases ht
  · exact fun table htable => absurd htable List.not_mem_nil

theorem Sound.opened (hs : Sound plan h count) (reconnects : Bool) (replies : List Reply) :
    Resting plan count
      ⟨(h.world.opened reconnects).1, replies, (h.world.opened reconnects).2⟩ := by
  unfold World.opened
  cases hsession : h.world.session with
  | none => exact connect_resting hs.ledger replies
  | some load =>
    cases reconnects with
    | true => exact connect_resting hs.ledger replies
    | false => exact hs.session load hsession replies

/-- One attempt. -/
theorem step_sound (hsize : plan.units.length ≤ 2 ^ 64) {d : Delivery R} (hs : Sound plan h count)
    (hd : InOrder plan h d) : ∃ count, Sound plan (step plan h d) count := by
  obtain ⟨hindex, hdelivers⟩ := hd
  have hleast := hs.least
  have hmost := hs.most
  unfold step
  cases hunit : plan.units[d.index]? with
  | none => exact ⟨count, hs⟩
  | some unit =>
    have hrun := deliver_lands hsize hunit (hindex.trans hleast) (hdelivers unit hunit) d.commit _
      (hs.opened d.reconnects d.replies)
    dsimp only
    cases hexec : exec (deliver plan.config unit (UInt64.ofNat d.index) d.calls d.commit)
        ⟨(h.world.opened d.reconnects).1, d.replies, (h.world.opened d.reconnects).2⟩ with
    | mk ended s =>
      rw [hexec] at hrun
      cases ended with
      | ok result =>
        obtain ⟨landed, hlands, hpast, hresting⟩ := hrun
        refine ⟨landed, ⟨?_, ?_, hresting.unbroken.durable, ?_⟩⟩
        · unfold Lands at hlands
          dsimp only
          omega
        · unfold Lands at hlands
          dsimp only
          omega
        · intro load hload replies
          obtain rfl := Option.some.inj hload
          exact ⟨hresting.unbroken, hresting.staging⟩
      | error e =>
        obtain ⟨landed, hlands, hdurable⟩ := hrun
        refine ⟨landed, ⟨?_, ?_, hdurable, ?_⟩⟩
        · unfold Lands at hlands
          dsimp only
          omega
        · unfold Lands at hlands
          dsimp only
          omega
        · intro load hload
          cases hload

end Host

/-- What the first units of a load have made of the tables. -/
structure LoadPlan.Landed (plan : LoadPlan R D) (count : Nat) (effects : Effects R D) : Prop where
  /-- apart from schema work and clears, each publish is there whole, in order and once -/
  history : plan.History count (work effects)
  receipts : receipts plan.config.loadId effects = (List.range count).map UInt64.ofNat
  states : states effects = (plan.units.take count).map LoadUnit.state
  appended : ∀ table, plan.modes table = .append → ∀ before,
    contents (.target table) before effects = before ++ (plan.units.take count).flatMap fun unit =>
      rowsInto plan.modes unit.writes (.target table)
  replaced : ∀ table, plan.modes table = .replace →
    (∃ unit ∈ plan.units.take count, table ∈ unit.writes.map Prod.fst) → ∀ before,
      contents (.target table) before effects = (plan.units.take count).flatMap fun unit =>
        rowsInto plan.modes unit.writes (.target table)
  merged : plan.Fed effects

/-- Whatever fails, is lost or is attempted again, what is durable is the first units of
the load: those the host knows of, and at most one more. -/
theorem units_land_once (plan : LoadPlan R D) (hsize : plan.units.length ≤ 2 ^ 64)
    (attempts : List (Delivery R))
    (hattempts : Transition.Meets (Host.step plan) (Host.InOrder plan) Host.start attempts) :
    let host := Transition.run (Host.step plan) Host.start attempts
    ∃ count, host.acknowledged ≤ count ∧ count ≤ host.acknowledged + 1 ∧
      plan.Landed count host.world.service.durable := by
  have hstart : ∃ count, Host.Sound plan Host.start count :=
    ⟨0, Nat.le_refl 0, Nat.zero_le 1, LoadPlan.ledger_start, by rintro load ⟨⟩⟩
  have hstep : ∀ (h : Host R D) (d : Delivery R), (∃ count, Host.Sound plan h count) →
      Host.InOrder plan h d → ∃ count, Host.Sound plan (Host.step plan h d) count := by
    rintro h d ⟨count, hs⟩ hd
    exact Host.step_sound hsize hs hd
  obtain ⟨count, hsound⟩ := Transition.run_invariant hstep hstart hattempts
  exact ⟨count, hsound.least, hsound.most, hsound.ledger.history, hsound.ledger.receipts_eq,
    hsound.ledger.states_eq, fun table hmode => hsound.ledger.append_contents hmode,
    fun table hmode hwritten => hsound.ledger.replace_contents hmode hwritten, hsound.ledger.fed⟩

/-! ## A load with a lost COMMIT and a refused COPY -/

def people : TableSchema := ⟨"people", none, [⟨"id", .scalar .int64, true⟩]⟩

def events : TableSchema := ⟨"events", none, [⟨"id", .scalar .int64, true⟩]⟩

def threeTables : LoadPlan Nat Unit where
  config := ⟨"load-1", "orders", ⟨none, [("people", { mergeScope := some ["id"] })]⟩, fun _ table _ => .ok ["MERGE INTO " ++ table], ()⟩
  modes table := if table = "orders" then .replace else if table = "people" then .merge ["id"] else .append
  units := [⟨[("orders", [1, 2]), ("events", [7])], ()⟩, ⟨[("events", [8]), ("people", [5])], ()⟩]

def firstCalls : List (Call Nat) :=
  [.ensureTable orders .replace ⟨["CREATE TABLE"], []⟩, .ensureTable events .append ⟨["CREATE TABLE"], []⟩,
    .write "orders" [1, 2] ⟨false, false, []⟩, .write "events" [7] ⟨false, true, []⟩]

def secondCalls : List (Call Nat) :=
  [.ensureTable events .append ⟨[], []⟩, .ensureTable people (.merge ["id"]) ⟨["CREATE TABLE"], []⟩,
    .write "events" [8] ⟨false, false, []⟩, .write "people" [5] ⟨false, false, []⟩]

/-- The first COMMIT succeeds without an answer, and the first COPY of the second unit
is refused. -/
def troubled : List (Delivery Nat) :=
  [⟨false, 0, firstCalls, [], .lost⟩, ⟨true, 0, firstCalls, [], .committed⟩,
    ⟨false, 1, secondCalls, List.replicate 6 .done ++ [.refused], .committed⟩,
    ⟨false, 1, secondCalls, [], .committed⟩]

def troubledHost : Host Nat Unit := Transition.run (Host.step threeTables) Host.start troubled

theorem firstCalls_deliver : ∀ unit ∈ threeTables.units[0]?, Delivers threeTables.modes unit firstCalls := by
  intro unit hunit
  obtain rfl := Option.some.inj hunit
  refine ⟨fun _ => rfl, fun _ => Iff.rfl, ?_⟩
  simp only [firstCalls, List.forall_mem_cons]
  exact ⟨rfl, rfl, trivial, trivial, fun _ h => absurd h List.not_mem_nil⟩

theorem secondCalls_deliver :
    ∀ unit ∈ threeTables.units[1]?, Delivers threeTables.modes unit secondCalls := by
  intro unit hunit
  obtain rfl := Option.some.inj hunit
  refine ⟨fun _ => rfl, fun _ => Iff.rfl, ?_⟩
  simp only [secondCalls, List.forall_mem_cons]
  exact ⟨rfl, rfl, trivial, trivial, fun _ h => absurd h List.not_mem_nil⟩

theorem troubled_load_lands : troubledHost.acknowledged = 2 ∧
    .scopeReplace "people" ["id"] ∈ troubledHost.world.service.durable ∧ ∃ count,
    troubledHost.acknowledged ≤ count ∧ count ≤ troubledHost.acknowledged + 1 ∧
      threeTables.Landed count troubledHost.world.service.durable := by
  refine ⟨by decide +kernel, by decide +kernel, units_land_once threeTables (by decide) troubled ?_⟩
  refine ⟨⟨?_, firstCalls_deliver⟩, ⟨?_, firstCalls_deliver⟩, ⟨?_, secondCalls_deliver⟩,
    ⟨?_, secondCalls_deliver⟩, trivial⟩
  · decide +kernel
  · decide +kernel
  · decide +kernel
  · decide +kernel

end Snowflake
