import Mathlib
import RdltConnectors.Snowflake.Delivery

/-!
# What a load has made durable

Apart from schema work and clears, the effects of a load are the effects of its first
units, whole and in order. The clears beside them come before the rows of their targets
and are on record. Schema work, a clear, its record and the publish of the next unit
each keep this.
-/
namespace Snowflake

open Sqlcore Interrupted

variable {R D : Type}

/-! ## The publish of a unit -/

def Statement.isCopy : Statement R D → Bool
  | .copyInto _ _ _ => true
  | _ => false

/-- The statements of the merge arms. -/
def Statement.readsStage : Statement R D → Bool
  | .merge _ => true
  | .scopeReplace _ _ => true
  | _ => false

def Statement.truncates : Statement R D → Bool
  | .deleteFrom (.stage _) => true
  | _ => false

/-- The statements of a step. -/
def render (config : Config D) (metadata : CommitMeta D) (tables : SessionTables) :
    Step → Except String (List (Statement R D))
  | .clearTarget table => .ok [.deleteFrom (.target table)]
  | .upsertState => .ok [.upsertState metadata.state]
  | .insertReceipt => .ok [.insertReceipt metadata.loadId metadata.commitSeq]
  | .insertSelect table => .ok [.insertSelect table]
  | .scopeReplace table scope => .ok [.scopeReplace table scope]
  | .mergeArm table arm => (config.mergeStatements tables table arm).map (List.map .merge)
  | .truncateStage table => .ok [.deleteFrom (.stage table)]

namespace LoadPlan

variable (plan : LoadPlan R D)

def metadata (unit : LoadUnit R D) (index : Nat) : CommitMeta D :=
  ⟨plan.config.loadId, UInt64.ofNat index, plan.config.pipeline, unit.state⟩

def ending (unit : LoadUnit R D) (index : Nat) : Effects R D :=
  [.upsertState unit.state, .insertReceipt plan.config.loadId (UInt64.ofNat index)]

/-- The full-feed stages that writes fill. -/
def feeds (writes : List (String × List R)) (tables : SessionTables) : List String :=
  (stagedProbeTargets tables plan.config.options).filter fun table =>
    !(rowsInto plan.modes writes (.stage table)).isEmpty

/-- What the commit of a unit is planned from: a session that ensured every table of the
unit, each under the mode of the load, and the full-feed stages that the unit fills. -/
structure Asks (unit : LoadUnit R D) (tables : SessionTables) (ctx : CommitContext) : Prop where
  modes : ∀ table entry, tables.lookup table = some entry → entry.2 = plan.modes table
  ensured : ∀ table ∈ unit.writes.map Prod.fst, (tables.lookup table).isSome = true
  fresh : ctx.replayed = false
  direct : ctx.fullLoadPublish = .directToTarget
  filled : ctx.stagedNonempty = plan.feeds unit.writes tables

/-- What the publish of a unit executes: the copies of its rows, then what the plan of
the commit says, which is the arms of the merge tables, the truncation of every stage
that was filled, the state and the receipt. -/
structure Publishes (unit : LoadUnit R D) (index : Nat) (copies arms truncations : Effects R D) :
    Prop where
  copying : ∀ statement ∈ copies, statement.isCopy = true
  rows : ∀ relation, copied relation copies = rowsInto plan.modes unit.writes relation
  merging : ∀ statement ∈ arms, statement.readsStage = true
  truncating : ∀ statement ∈ truncations, statement.truncates = true
  emptied : ∀ table, rowsInto plan.modes unit.writes (.stage table) ≠ [] →
    .deleteFrom (.stage table) ∈ truncations
  planned : ∃ tables ctx script rendered, plan.Asks unit tables ctx ∧
    planCommit tables plan.config.options ctx = .ok script ∧
      script.steps.mapM (render plan.config (plan.metadata unit index) tables) = .ok rendered ∧
        rendered.flatten = arms ++ truncations ++ plan.ending unit index

/-- The effects of the first units of a load. -/
inductive History : Nat → Effects R D → Prop
  | start : History 0 []
  | next {count : Nat} {effects copies arms truncations : Effects R D} {unit : LoadUnit R D} :
      History count effects → plan.units[count]? = some unit →
      plan.Publishes unit count copies arms truncations →
      History (count + 1) (effects ++ (copies ++ arms ++ truncations ++ plan.ending unit count))

end LoadPlan

/-! ## Reading the history -/

theorem copied_of_no_copy {relation : Relation} {effects : Effects R D}
    (h : ∀ statement ∈ effects, statement.isCopy = false) : copied relation effects = [] := by
  apply List.flatMap_eq_nil_iff.2
  intro statement hmem
  have hcopy := h statement hmem
  cases statement with
  | copyInto r columns parts => cases hcopy
  | _ => rfl

theorem receipts_eq_nil {loadId : String} {effects : Effects R D}
    (h : ∀ statement ∈ effects, receiptOf loadId statement = none) : receipts loadId effects = [] :=
  List.filterMap_eq_nil_iff.2 h

theorem contents_of_arms {relation : Relation} {before : Part R} {effects : Effects R D}
    (h : ∀ statement ∈ effects, statement.readsStage = true) :
    contents relation before effects = before := by
  rw [contents_of_undeleted, copied_of_no_copy, List.append_nil]
  · intro statement hmem
    have harm := h statement hmem
    cases statement with
    | merge sql => rfl
    | scopeReplace table scope => rfl
    | _ => cases harm
  · intro hmem
    cases h _ hmem

/-- Emptied or never filled. -/
theorem contents_of_truncations {table : String} {before : Part R} {effects : Effects R D}
    (h : ∀ statement ∈ effects, statement.truncates = true)
    (hempty : .deleteFrom (.stage table) ∈ effects ∨ before = []) :
    contents (.stage table) before effects = [] := by
  induction effects generalizing before with
  | nil => exact hempty.resolve_left List.not_mem_nil
  | cons statement rest ih =>
    rw [List.forall_mem_cons] at h
    change contents (.stage table) (land (.stage table) before statement) rest = []
    apply ih h.2
    have htruncates := h.1
    cases statement with
    | deleteFrom relation =>
      by_cases hrelation : relation = .stage table
      · right
        exact if_pos hrelation
      · have hland : land (.stage table) before (.deleteFrom relation : Statement R D) = before :=
          if_neg hrelation
        rw [hland]
        apply hempty.imp_left
        intro hmem
        apply (List.mem_cons.1 hmem).resolve_left
        intro heq
        exact hrelation (Statement.deleteFrom.inj heq).symm
    | _ => cases htruncates

/-- The probe counts what a stage holds. -/
theorem stagedRows_eq (effects : Effects R D) (table : String) :
    stagedRows effects table = (contents (.stage table) [] effects).length := by
  refine @List.foldl_hom (Part R) Nat (Statement R D) List.length (land (.stage table)) _
    effects [] ?_
  intro rows statement
  cases statement with
  | copyInto relation columns parts =>
    cases relation with
    | target t => rfl
    | stage t =>
      by_cases ht : t = table
      · simp [land, ht]
      · simp [land, ht]
  | deleteFrom relation =>
    cases relation with
    | target t => rfl
    | stage t =>
      by_cases ht : t = table
      · simp [land, ht]
      · simp [land, ht]
  | _ => rfl

namespace LoadPlan

variable {plan : LoadPlan R D} {count : Nat} {effects : Effects R D}

section publishes
variable {unit : LoadUnit R D} {index : Nat} {copies arms truncations : Effects R D}

theorem Publishes.copied_all (h : plan.Publishes unit index copies arms truncations)
    (relation : Relation) :
    copied relation (copies ++ arms ++ truncations ++ plan.ending unit index) =
      rowsInto plan.modes unit.writes relation := by
  have harms : copied relation arms = [] := by
    apply copied_of_no_copy
    intro statement hmem
    have harm := h.merging statement hmem
    cases statement with
    | copyInto r columns parts => cases harm
    | _ => rfl
  have htruncations : copied relation truncations = [] := by
    apply copied_of_no_copy
    intro statement hmem
    have htruncates := h.truncating statement hmem
    cases statement with
    | copyInto r columns parts => cases htruncates
    | _ => rfl
  rw [copied_append, copied_append, copied_append, h.rows, harms, htruncations]
  simp [LoadPlan.ending, copied, copiedBy]

/-- The body of a publish holds no receipt and no state. -/
theorem Publishes.body (h : plan.Publishes unit index copies arms truncations) {statement : Statement R D}
    (hmem : statement ∈ copies ++ arms ++ truncations) :
    statement.isCopy = true ∨ statement.readsStage = true ∨ statement.truncates = true := by
  rcases List.mem_append.1 hmem with hmem | hmem
  · cases List.mem_append.1 hmem with
    | inl hmem => exact .inl (h.copying statement hmem)
    | inr hmem => exact .inr (.inl (h.merging statement hmem))
  · exact .inr (.inr (h.truncating statement hmem))

theorem Publishes.receipts_all (h : plan.Publishes unit index copies arms truncations) :
    receipts plan.config.loadId (copies ++ arms ++ truncations ++ plan.ending unit index) =
      [UInt64.ofNat index] := by
  rw [receipts_append, receipts_eq_nil, List.nil_append]
  · exact (List.filterMap_cons_none rfl).trans (List.filterMap_cons_some (if_pos rfl))
  · intro statement hmem
    have hbody := h.body hmem
    cases statement with
    | insertReceipt load seq => simp [Statement.isCopy, Statement.readsStage, Statement.truncates] at hbody
    | _ => rfl

theorem Publishes.states_all (h : plan.Publishes unit index copies arms truncations) :
    states (copies ++ arms ++ truncations ++ plan.ending unit index) = [unit.state] := by
  have hnone : states (copies ++ arms ++ truncations) = [] := by
    apply List.filterMap_eq_nil_iff.2
    intro statement hmem
    have hbody := h.body hmem
    cases statement with
    | upsertState state => simp [Statement.isCopy, Statement.readsStage, Statement.truncates] at hbody
    | _ => rfl
  rw [states_append, hnone]
  rfl

end publishes

theorem take_next {units : List (LoadUnit R D)} {unit : LoadUnit R D} (h : units[count]? = some unit) :
    units.take (count + 1) = units.take count ++ [unit] := by
  rw [List.take_add_one, h]
  rfl

theorem History.bound (h : plan.History count effects) : count ≤ plan.units.length := by
  cases h with
  | start => exact Nat.zero_le _
  | next _ hunit _ => exact (List.getElem?_eq_some_iff.1 hunit).1

theorem History.copied_eq (h : plan.History count effects) (relation : Relation) :
    copied relation effects =
      (plan.units.take count).flatMap fun unit => rowsInto plan.modes unit.writes relation := by
  induction h with
  | start => rfl
  | next hist hunit hpublishes ih =>
    rw [copied_append, hpublishes.copied_all, ih, take_next hunit, List.flatMap_append,
      List.flatMap_singleton]

theorem History.receipts_eq (h : plan.History count effects) :
    receipts plan.config.loadId effects = (List.range count).map UInt64.ofNat := by
  induction h with
  | start => rfl
  | next hist hunit hpublishes ih =>
    rw [receipts_append, hpublishes.receipts_all, ih, List.range_succ, List.map_append]
    rfl

theorem History.states_eq (h : plan.History count effects) :
    states effects = (plan.units.take count).map LoadUnit.state := by
  induction h with
  | start => rfl
  | next hist hunit hpublishes ih =>
    rw [states_append, hpublishes.states_all, ih, take_next hunit, List.map_append]
    rfl

end LoadPlan

/-! ## Schema work and clears apart -/

/-- Neither schema work nor a clear or its record. -/
def Statement.publishes : Statement R D → Bool
  | .deleteFrom (.target _) => false
  | .recordCleared _ => false
  | .schema _ => false
  | _ => true

def work (effects : Effects R D) : Effects R D := effects.filter Statement.publishes

section work
variable {effects more : Effects R D}

@[simp] theorem work_append : work (effects ++ more) = work effects ++ work more :=
  List.filter_append ..

theorem work_eq_self (h : ∀ statement ∈ effects, statement.publishes = true) :
    work effects = effects := List.filter_eq_self.2 h

theorem copied_work (relation : Relation) : copied relation (work effects) = copied relation effects := by
  induction effects with
  | nil => rfl
  | cons statement rest ih =>
    change copied relation (List.filter Statement.publishes (statement :: rest)) = _
    rw [List.filter_cons]
    split
    · change copiedBy relation statement ++ copied relation (work rest) = _
      rw [ih]
      rfl
    · next hskip =>
      have hnone : copiedBy relation statement = [] := by
        cases statement with
        | copyInto r columns parts => exact absurd rfl hskip
        | _ => rfl
      change copied relation (work rest) = copiedBy relation statement ++ copied relation rest
      rw [ih, hnone]
      rfl

theorem filterMap_work {β : Type} {f : Statement R D → Option β}
    (h : ∀ statement, statement.publishes = false → f statement = none) :
    (work effects).filterMap f = effects.filterMap f := by
  induction effects with
  | nil => rfl
  | cons statement rest ih =>
    change (List.filter Statement.publishes (statement :: rest)).filterMap f = _
    rw [List.filter_cons]
    split
    · change (List.filter Statement.publishes rest).filterMap f = _ at ih
      rw [List.filterMap_cons, List.filterMap_cons, ih]
    · next hskip =>
      rw [List.filterMap_cons_none (h statement (Bool.eq_false_iff.2 hskip))]
      exact ih

theorem receipts_work (loadId : String) : receipts loadId (work effects) = receipts loadId effects := by
  apply filterMap_work
  intro statement hskip
  cases statement with
  | insertReceipt load seq => cases hskip
  | _ => rfl

theorem states_work : states (work effects) = states effects := by
  apply filterMap_work
  intro statement hskip
  cases statement with
  | upsertState state => cases hskip
  | _ => rfl

theorem work_publish {plan : LoadPlan R D} {unit : LoadUnit R D} {index : Nat}
    {copies arms truncations : Effects R D}
    (h : plan.Publishes unit index copies arms truncations) :
    work (copies ++ arms ++ truncations ++ plan.ending unit index) =
      copies ++ arms ++ truncations ++ plan.ending unit index := by
  apply work_eq_self
  intro statement hmem
  cases List.mem_append.1 hmem with
  | inl hmem =>
    have hbody := h.body hmem
    cases statement with
    | deleteFrom relation =>
      cases relation with
      | target table => simp [Statement.isCopy, Statement.readsStage, Statement.truncates] at hbody
      | stage table => rfl
    | recordCleared table => simp [Statement.isCopy, Statement.readsStage, Statement.truncates] at hbody
    | schema sql => simp [Statement.isCopy, Statement.readsStage, Statement.truncates] at hbody
    | _ => rfl
  | inr hmem =>
    rcases List.mem_cons.1 hmem with rfl | hmem
    · rfl
    · rw [List.mem_singleton.1 hmem]
      rfl

end work

/-! ## The ledger -/

namespace LoadPlan

variable (plan : LoadPlan R D)

/-- No unit among the first ones writes a table. -/
def Untouched (count : Nat) (table : String) : Prop :=
  ∀ unit ∈ plan.units.take count, ∀ w ∈ unit.writes, w.1 ≠ table

/-- The effects of the first units, and the clears that had to come with them. -/
structure Ledger (count : Nat) (effects : Effects R D) : Prop where
  history : plan.History count (work effects)
  only : ∀ table, .deleteFrom (.target table) ∈ effects → plan.modes table = .replace
  recorded : ∀ table, .recordCleared table ∈ effects → .deleteFrom (.target table) ∈ effects
  clears : ∀ table, .deleteFrom (.target table) ∈ effects → ∀ before,
    contents (.target table) before effects = copied (.target table) effects
  touched : ∀ unit ∈ plan.units.take count, ∀ w ∈ unit.writes, plan.modes w.1 = .replace →
    .recordCleared w.1 ∈ effects

variable {plan} {count : Nat} {effects : Effects R D}

theorem ledger_start : plan.Ledger 0 [] where
  history := .start
  only _ h := absurd h List.not_mem_nil
  recorded _ h := absurd h List.not_mem_nil
  clears _ h := absurd h List.not_mem_nil
  touched _ h := absurd h List.not_mem_nil

theorem Ledger.copied_eq (h : plan.Ledger count effects) (relation : Relation) :
    copied relation effects =
      (plan.units.take count).flatMap fun unit => rowsInto plan.modes unit.writes relation := by
  rw [← copied_work, h.history.copied_eq]

theorem Ledger.receipts_eq (h : plan.Ledger count effects) :
    receipts plan.config.loadId effects = (List.range count).map UInt64.ofNat := by
  rw [← receipts_work, h.history.receipts_eq]

theorem Ledger.states_eq (h : plan.Ledger count effects) :
    states effects = (plan.units.take count).map LoadUnit.state := by
  rw [← states_work, h.history.states_eq]

theorem rowsInto_untouched {modes : String → WriteMode} {writes : List (String × List R)} {table : String}
    (h : ∀ w ∈ writes, w.1 ≠ table) : rowsInto modes writes (.target table) = [] := by
  apply List.flatMap_eq_nil_iff.2
  intro w hw
  apply if_neg
  unfold destinationOf
  split
  · exact Relation.noConfusion
  · exact fun heq => h w hw (Relation.target.inj heq)

theorem Ledger.copied_untouched (h : plan.Ledger count effects) {table : String}
    (huntouched : plan.Untouched count table) : copied (.target table) effects = [] := by
  rw [h.copied_eq]
  apply List.flatMap_eq_nil_iff.2
  exact fun unit hunit => rowsInto_untouched (huntouched unit hunit)

/-- What the first units make of an append table. -/
theorem Ledger.append_contents (h : plan.Ledger count effects) {table : String}
    (hmode : plan.modes table = .append) (before : Part R) :
    contents (.target table) before effects = before ++ (plan.units.take count).flatMap fun unit =>
      rowsInto plan.modes unit.writes (.target table) := by
  rw [contents_of_undeleted, h.copied_eq]
  intro hmem
  have hreplace := h.only table hmem
  rw [hmode] at hreplace
  cases hreplace

/-- What the first units make of a replaced table that one of them wrote. -/
theorem Ledger.replace_contents (h : plan.Ledger count effects) {table : String}
    (hmode : plan.modes table = .replace)
    (hwritten : ∃ unit ∈ plan.units.take count, table ∈ unit.writes.map Prod.fst) (before : Part R) :
    contents (.target table) before effects = (plan.units.take count).flatMap fun unit =>
      rowsInto plan.modes unit.writes (.target table) := by
  obtain ⟨unit, hunit, hmem⟩ := hwritten
  obtain ⟨w, hw, rfl⟩ := List.mem_map.1 hmem
  have hrecorded := h.touched unit hunit w hw hmode
  rw [h.clears w.1 (h.recorded w.1 hrecorded), h.copied_eq]

/-! ## What may be added -/

/-- A statement that is neither a DELETE nor a copy of a target leaves it alone. -/
theorem contents_snoc {relation : Relation} {before : Part R} {statement : Statement R D}
    (h : statement ≠ .deleteFrom relation) :
    contents relation before (effects ++ [statement]) =
      contents relation before effects ++ copiedBy relation statement := by
  rw [contents_append]
  exact land_eq _ _ h

theorem copied_snoc {relation : Relation} {statement : Statement R D} :
    copied relation (effects ++ [statement]) = copied relation effects ++ copiedBy relation statement := by
  rw [copied_append]
  exact congrArg _ (List.append_nil _)

/-- Whatever is no DELETE of a target keeps the order of clears and rows. -/
theorem clears_snoc {table : String} {statement : Statement R D}
    (h : .deleteFrom (.target table) ∈ effects → ∀ before,
      contents (.target table) before effects = copied (.target table) effects)
    (hstatement : statement ≠ .deleteFrom (.target table))
    (hmem : .deleteFrom (.target table) ∈ effects ++ [statement]) (before : Part R) :
    contents (.target table) before (effects ++ [statement]) =
      copied (.target table) (effects ++ [statement]) := by
  have hearlier : .deleteFrom (.target table) ∈ effects := by
    apply (List.mem_append.1 hmem).resolve_right
    intro hlast
    exact hstatement (List.mem_singleton.1 hlast).symm
  rw [contents_snoc hstatement, copied_snoc, h hearlier]

theorem Ledger.schema (h : plan.Ledger count effects) (sql : String) :
    plan.Ledger count (effects ++ [.schema sql]) where
  history := by
    rw [work_append]
    exact (List.append_nil (work effects)).symm ▸ h.history
  only table hmem := by
    apply h.only
    simpa using hmem
  recorded table hmem := by
    apply List.mem_append_left
    apply h.recorded
    simpa using hmem
  clears table := clears_snoc (h.clears table) (by rintro ⟨⟩)
  touched unit hunit w hw hmode := List.mem_append_left _ (h.touched unit hunit w hw hmode)

/-- A target is cleared before the load writes it. -/
theorem Ledger.clear (h : plan.Ledger count effects) {table : String}
    (hmode : plan.modes table = .replace) (huntouched : plan.Untouched count table) :
    plan.Ledger count (effects ++ [.deleteFrom (.target table)]) where
  history := by
    rw [work_append]
    exact (List.append_nil (work effects)).symm ▸ h.history
  only other hmem := by
    cases List.mem_append.1 hmem with
    | inl hmem => exact h.only other hmem
    | inr hmem =>
      have hrelation := Statement.deleteFrom.inj (List.mem_singleton.1 hmem)
      rw [Relation.target.inj hrelation]
      exact hmode
  recorded other hmem := by
    apply List.mem_append_left
    apply h.recorded
    simpa using hmem
  clears other hmem before := by
    by_cases hother : other = table
    · subst hother
      rw [contents_append, copied_snoc, h.copied_untouched huntouched]
      exact if_pos rfl
    · apply clears_snoc (h.clears other) _ hmem
      intro heq
      exact hother (Relation.target.inj (Statement.deleteFrom.inj heq)).symm
  touched unit hunit w hw hmode := List.mem_append_left _ (h.touched unit hunit w hw hmode)

theorem Ledger.record (h : plan.Ledger count effects) {table : String}
    (hcleared : .deleteFrom (.target table) ∈ effects) :
    plan.Ledger count (effects ++ [.recordCleared table]) where
  history := by
    rw [work_append]
    exact (List.append_nil (work effects)).symm ▸ h.history
  only other hmem := by
    apply h.only
    simpa using hmem
  recorded other hmem := by
    apply List.mem_append_left
    cases List.mem_append.1 hmem with
    | inl hmem => exact h.recorded other hmem
    | inr hmem =>
      rw [Statement.recordCleared.inj (List.mem_singleton.1 hmem)]
      exact hcleared
  clears other := clears_snoc (h.clears other) (by rintro ⟨⟩)
  touched unit hunit w hw hmode := List.mem_append_left _ (h.touched unit hunit w hw hmode)

/-- The next unit is published, all it clears being on record. -/
theorem Ledger.publish (h : plan.Ledger count effects) {unit : LoadUnit R D}
    (hunit : plan.units[count]? = some unit) {copies arms truncations : Effects R D}
    (hpublishes : plan.Publishes unit count copies arms truncations)
    (htouched : ∀ w ∈ unit.writes, plan.modes w.1 = .replace → .recordCleared w.1 ∈ effects) :
    plan.Ledger (count + 1) (effects ++ (copies ++ arms ++ truncations ++ plan.ending unit count)) := by
  have hkept : ∀ statement ∈ copies ++ arms ++ truncations ++ plan.ending unit count,
      statement.publishes = true := List.filter_eq_self.1 (work_publish hpublishes)
  have hno : ∀ table, .deleteFrom (.target table) ∉
      copies ++ arms ++ truncations ++ plan.ending unit count := by
    intro table hmem
    cases hkept _ hmem
  constructor
  · rw [work_append, work_publish hpublishes]
    exact .next h.history hunit hpublishes
  · intro table hmem
    exact h.only table ((List.mem_append.1 hmem).resolve_right (hno table))
  · intro table hmem
    apply List.mem_append_left
    apply h.recorded
    apply (List.mem_append.1 hmem).resolve_right
    intro hmem
    cases hkept _ hmem
  · intro table hmem before
    have hearlier := (List.mem_append.1 hmem).resolve_right (hno table)
    rw [contents_append, contents_of_undeleted (hno table), h.clears table hearlier]
    exact copied_append.symm
  · intro other hother w hw hmode
    apply List.mem_append_left
    rw [take_next hunit] at hother
    cases List.mem_append.1 hother with
    | inl hother => exact h.touched other hother w hw hmode
    | inr hother =>
      rw [List.mem_singleton.1 hother] at hw
      exact htouched w hw hmode

/-! ## What merges read -/

/-- Every statement that reads a stage finds exactly the rows of the unit it publishes. -/
def Fed (plan : LoadPlan R D) (effects : Effects R D) : Prop :=
  ∀ earlier statement later, effects = earlier ++ statement :: later →
    statement.readsStage = true → ∃ index unit, plan.units[index]? = some unit ∧
      receipts plan.config.loadId earlier = (List.range index).map UInt64.ofNat ∧
        ∀ table, contents (.stage table) [] earlier = rowsInto plan.modes unit.writes (.stage table)

theorem Publishes.filled {unit : LoadUnit R D} {index : Nat} {copies arms truncations : Effects R D}
    (h : plan.Publishes unit index copies arms truncations) (table : String) :
    contents (.stage table) [] copies = rowsInto plan.modes unit.writes (.stage table) := by
  rw [contents_of_undeleted, h.rows, List.nil_append]
  intro hmem
  cases h.copying _ hmem

/-- The publish of a unit leaves the stages as it found them. -/
theorem History.drained (h : plan.History count effects) (table : String) :
    contents (.stage table) [] effects = [] := by
  induction h with
  | start => rfl
  | next hist hunit hpublishes ih =>
    rw [contents_append, ih, contents_append, contents_append, contents_append, hpublishes.filled,
      contents_of_arms hpublishes.merging, contents_of_truncations hpublishes.truncating]
    · rfl
    · exact (em _).symm.imp_left (hpublishes.emptied table)

section splits
variable {α : Type} {p : α → Bool} {first second before after : List α} {x : α}

/-- An element that the first list cannot hold is in the second. -/
theorem split_second (h : first ++ second = before ++ x :: after) (hx : p x = true)
    (hfirst : ∀ a ∈ first, p a = false) : ∃ rest, before = first ++ rest ∧ second = rest ++ x :: after := by
  rcases List.append_eq_append_iff.1 h with ⟨rest, hbefore, hsecond⟩ | ⟨rest, hfirst', hsecond⟩
  · exact ⟨rest, hbefore, hsecond⟩
  · cases rest with
    | nil => exact ⟨[], by simpa using hfirst'.symm, hsecond.symm⟩
    | cons y rest =>
      obtain ⟨rfl, -⟩ := List.cons.inj hsecond
      have hmem : x ∈ first := by
        rw [hfirst']
        exact List.mem_append_right _ List.mem_cons_self
      rw [hfirst x hmem] at hx
      cases hx

theorem split_first (h : first ++ second = before ++ x :: after) (hx : p x = true)
    (hsecond : ∀ a ∈ second, p a = false) : ∃ rest, first = before ++ x :: rest := by
  rcases List.append_eq_append_iff.1 h with ⟨rest, hbefore, hsecond'⟩ | ⟨rest, hfirst, hrest⟩
  · have hmem : x ∈ second := by
      rw [hsecond']
      exact List.mem_append_right _ List.mem_cons_self
    rw [hsecond x hmem] at hx
    cases hx
  · cases rest with
    | nil =>
      have hmem : x ∈ second := by
        rw [← List.nil_append second, ← hrest]
        exact List.mem_cons_self
      rw [hsecond x hmem] at hx
      cases hx
    | cons y rest =>
      obtain ⟨rfl, -⟩ := List.cons.inj hrest
      exact ⟨rest, hfirst⟩

end splits

section unit
variable {unit : LoadUnit R D} {copies arms truncations : Effects R D}

theorem Publishes.copies_read_nothing (h : plan.Publishes unit count copies arms truncations) :
    ∀ statement ∈ copies, statement.readsStage = false := by
  intro statement hmem
  have hcopy := h.copying statement hmem
  cases statement with
  | copyInto r columns parts => rfl
  | _ => cases hcopy

theorem Publishes.ending_reads_nothing (h : plan.Publishes unit count copies arms truncations) :
    ∀ statement ∈ truncations ++ plan.ending unit count, statement.readsStage = false := by
  intro statement hmem
  cases List.mem_append.1 hmem with
  | inl hmem =>
    have htruncates := h.truncating statement hmem
    cases statement with
    | deleteFrom relation => rfl
    | _ => cases htruncates
  | inr hmem =>
    rcases List.mem_cons.1 hmem with rfl | hmem
    · rfl
    · rw [List.mem_singleton.1 hmem]
      rfl

/-- A merge of the next unit comes after all its copies and before its truncations. -/
theorem Publishes.fed (h : plan.Publishes unit count copies arms truncations)
    (hist : plan.History count effects) (hunit : plan.units[count]? = some unit)
    {mine later : Effects R D} {statement : Statement R D} (hreads : statement.readsStage = true)
    (hblock : copies ++ arms ++ truncations ++ plan.ending unit count = mine ++ statement :: later) :
    ∃ index unit, plan.units[index]? = some unit ∧
      receipts plan.config.loadId (effects ++ mine) = (List.range index).map UInt64.ofNat ∧
        ∀ table, contents (.stage table) [] (effects ++ mine) =
          rowsInto plan.modes unit.writes (.stage table) := by
  rw [List.append_assoc, List.append_assoc] at hblock
  obtain ⟨merged, rfl, hmerged⟩ := split_second hblock hreads h.copies_read_nothing
  obtain ⟨unmerged, rfl⟩ := split_first hmerged hreads h.ending_reads_nothing
  refine ⟨count, unit, hunit, ?_, fun table => ?_⟩
  · rw [receipts_append, hist.receipts_eq, receipts_eq_nil, List.append_nil]
    intro a ha
    have hbody := h.body (List.mem_append_left truncations
      ((List.mem_append.1 ha).elim (List.mem_append_left _)
        fun hmem => List.mem_append_right _ (List.mem_append_left _ hmem)))
    cases a with
    | insertReceipt load seq =>
      simp [Statement.isCopy, Statement.readsStage, Statement.truncates] at hbody
    | _ => rfl
  · rw [contents_append, hist.drained, contents_append, h.filled,
      contents_of_arms fun a ha => h.merging a (List.mem_append_left _ ha)]

end unit

theorem History.fed (h : plan.History count effects) : plan.Fed effects := by
  induction h with
  | start =>
    intro earlier statement later heq
    cases earlier with
    | nil => cases heq
    | cons first rest => cases heq
  | next hist hunit hpublishes ih =>
    intro earlier statement later heq hreads
    rcases List.append_eq_append_iff.1 heq with ⟨mine, rfl, hblock⟩ | ⟨rest, heffects, hrest⟩
    · exact hpublishes.fed hist hunit hreads hblock
    · cases rest with
      | nil =>
        have hfed := @Publishes.fed _ _ _ _ _ _ _ _ _ hpublishes hist hunit [] _ _ hreads hrest.symm
        rw [List.append_nil] at heffects hfed
        rw [← heffects]
        exact hfed
      | cons first rest =>
        obtain ⟨rfl, -⟩ := List.cons.inj hrest
        exact ih earlier _ rest heffects hreads

theorem contents_work (table : String) (before : Part R) :
    contents (.stage table) before (work effects) = contents (.stage table) before effects := by
  induction effects generalizing before with
  | nil => rfl
  | cons statement rest ih =>
    change contents (.stage table) before (List.filter Statement.publishes (statement :: rest)) = _
    rw [List.filter_cons]
    split
    · exact ih (land (.stage table) before statement)
    · next hskip =>
      have hland : land (.stage table) before statement = before := by
        cases statement with
        | deleteFrom relation =>
          cases relation with
          | target t => rfl
          | stage t => exact absurd rfl hskip
        | copyInto r columns parts => exact absurd rfl hskip
        | _ => rfl
      change _ = contents (.stage table) (land (.stage table) before statement) rest
      rw [hland]
      exact ih before

/-- Clears and schema work between the statements change nothing about it. -/
theorem Ledger.fed (h : plan.Ledger count effects) : plan.Fed effects := by
  intro earlier statement later heq hreads
  have hpublishes : statement.publishes = true := by
    cases statement with
    | merge sql => rfl
    | scopeReplace table scope => rfl
    | _ => cases hreads
  have hwork : work effects = work earlier ++ statement :: work later := by
    rw [heq, work_append]
    apply congrArg (work earlier ++ ·)
    exact List.filter_cons_of_pos hpublishes
  obtain ⟨index, unit, hunit, hreceipts, hcontents⟩ := h.history.fed _ statement _ hwork hreads
  refine ⟨index, unit, hunit, (receipts_work _).symm.trans hreceipts, fun table => ?_⟩
  exact (contents_work table []).symm.trans (hcontents table)

end LoadPlan

end Snowflake
