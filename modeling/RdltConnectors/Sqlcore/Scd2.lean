import Mathlib.Data.Nat.Basic
import RdltConnectors.Sqlcore.Survivors

/-!
# Histories

The history merge keeps one open version of each key. A delivered key whose data
changed has its version closed and a new one opened; an unchanged one keeps its
version; an absent one is kept or, on request, closed within the delivered scopes.
Here is what the statements of one publish do to every version, and what follows
for any number of units.
-/
namespace Sqlcore

open Sql

variable {V : Type} [LinearOrder V]

/-- The version is open, and of this key. -/
def openFor (literal : String → V) (scd2 : Scd2Options) (key : List String) (k : List (Option V))
    (t : Row V) : Bool :=
  (isActive literal scd2 t).holds && decide (tuple key t = k)

/-- Each key has at most one open version. -/
def AtMostOneActive (literal : String → V) (scd2 : Scd2Options) (key : List String)
    (target : List (Row V)) : Prop :=
  ∀ k, (target.filter (openFor literal scd2 key k)).length ≤ 1

def closeAt (column : String) (now : V) (t : Row V) : Row V :=
  fun c => if c = column then some now else t c

/-- The version a delivered row opens. -/
def openVersion (plan : MergePlan V) (scd2 : Scd2Options) (clock : Clock V) (d : Row V) : Row V :=
  fun c =>
    if c = scd2.validTo then clock.openValue scd2
    else if c = scd2.validFrom then some (clock.boundary scd2)
    else pick plan.columns d c

/-- The row lies in a delivered scope; NULL is not one. -/
def InScope (plan : MergePlan V) (stage : List (Row V)) (t : Row V) : Prop :=
  ∀ scope, plan.mergeScope = some scope → scope ≠ [] →
    Complete (tuple scope t) ∧ tuple scope t ∈ stage.map (tuple scope)

/-- The two rows have the same data. -/
def SameData (plan : MergePlan V) (t d : Row V) : Prop := ∀ c ∈ plan.dataColumns, t c = d c

/-- What becomes of a version that was there. -/
structure Settled (plan : MergePlan V) (scd2 : Scd2Options) (clock : Clock V)
    (stage : List (Row V)) (t t' : Row V) : Prop where
  closed : (isActive clock.literal scd2 t).holds = false → t' = t
  unchanged : ∀ d, Survives plan.key plan.dedupSort stage d → tuple plan.key d = tuple plan.key t →
    SameData plan t d → t' = t
  changed : (isActive clock.literal scd2 t).holds = true → ∀ d, Survives plan.key plan.dedupSort stage d →
    tuple plan.key d = tuple plan.key t → ¬SameData plan t d →
    t' = closeAt scd2.validTo (clock.boundary scd2) t
  absentKept : Complete (tuple plan.key t) → tuple plan.key t ∉ stage.map (tuple plan.key) →
    ¬(scd2.absent = .retire ∧ InScope plan stage t) → t' = t
  absentRetired : (isActive clock.literal scd2 t).holds = true → Complete (tuple plan.key t) →
    tuple plan.key t ∉ stage.map (tuple plan.key) → scd2.absent = .retire → InScope plan stage t →
    t' = closeAt scd2.validTo (clock.boundary scd2) t

/-- A publish of the history: what was there is settled, delivered rows open the
rest, and each delivered key ends with one open version of its surviving row. -/
structure Merged (plan : MergePlan V) (scd2 : Scd2Options) (clock : Clock V)
    (stage before after : List (Row V)) : Prop where
  versions : ∃ settled opened : List (Row V), after = settled ++ opened.map (openVersion plan scd2 clock) ∧
    List.Forall₂ (Settled plan scd2 clock stage) before settled ∧
    ∀ d ∈ opened, Survives plan.key plan.dedupSort stage d
  delivered : ∀ d, Survives plan.key plan.dedupSort stage d →
    ∃ t, after.filter (openFor clock.literal scd2 plan.key (tuple plan.key d)) = [t] ∧ SameData plan t d

/-! ## Conditions -/

theorem holds_keyMatch {key : List String} {t d : Row V} :
    (keyMatch key t d).holds = true ↔ tuple key t = tuple key d ∧ Complete (tuple key d) := by
  rw [keyMatch, holds_all]
  constructor
  · intro h
    refine ⟨List.map_congr_left fun c hc => (holds_eq.1 (h c hc)).1, fun cell hcell => ?_⟩
    obtain ⟨c, hc, rfl⟩ := List.mem_map.1 hcell
    obtain ⟨hsame, hne⟩ := holds_eq.1 (h c hc)
    rw [← hsame]
    exact hne
  · rintro ⟨hsame, hcomplete⟩ c hc
    have hcell : t c = d c := List.map_inj_left.1 hsame c hc
    exact holds_eq.2 ⟨hcell, hcell ▸ hcomplete _ (List.mem_map_of_mem hc)⟩

theorem changed_iff {plan : MergePlan V} {t d : Row V} :
    (any plan.dataColumns fun c => distinct (t c) (d c)).holds = true ↔ ¬SameData plan t d := by
  rw [holds_any, SameData, not_forall]
  exact exists_congr fun c => by rw [holds_distinct, Classical.not_imp]

/-- A mapped list whose changed rows do not count. -/
theorem filter_map_ite {R : Type} (counts changes : R → Bool) (change : R → R) (rows : List R)
    (h : ∀ r ∈ rows, changes r = true → counts (change r) = false) :
    (rows.map fun r => if changes r then change r else r).filter counts =
      rows.filter fun r => counts r && !changes r := by
  induction rows with
  | nil => rfl
  | cons r rows ih =>
    have ih := ih fun r hr => h r (by simp [hr])
    rw [List.map_cons, List.filter_cons, List.filter_cons, ih]
    by_cases hr : changes r = true
    · rw [if_pos hr, h r (by simp) hr]
      simp [hr]
    · simp [hr]

/-! ## The statements -/

section Statements

variable (plan : MergePlan V) (scd2 : Scd2Options) (clock : Clock V) (survivors stage : List (Row V))

/-- Closed because its key is delivered with other data. -/
def closedByChange (t : Row V) : Bool :=
  (any survivors fun d => ((isActive clock.literal scd2 t).and (keyMatch plan.key t d)).and
    (any plan.dataColumns fun c => distinct (t c) (d c))).holds

/-- Closed because its key is absent. -/
def closedByAbsence (t : Row V) : Bool :=
  decide (scd2.absent = .retire) &&
    (match plan.mergeScope with
      | some scope =>
        if scope.isEmpty then
          (isActive clock.literal scd2 t).and (notIn (tuple plan.key t) (survivors.map (tuple plan.key)))
        else
          ((isActive clock.literal scd2 t).and
            (notIn (tuple plan.key t) (survivors.map (tuple plan.key)))).and
            (isIn (tuple scope t)
              ((selectWhere (scopeNotNull scope) stage).map (tuple scope)))
      | none =>
        (isActive clock.literal scd2 t).and
          (notIn (tuple plan.key t) (survivors.map (tuple plan.key)))).holds

def closeIf (cond : Row V → Bool) (t : Row V) : Row V :=
  if cond t then closeAt scd2.validTo (clock.boundary scd2) t else t

/-- The survivors with no open version left. -/
def fresh (target : List (Row V)) : List (Row V) :=
  survivors.filter fun d => !target.any fun t =>
    ((isActive clock.literal scd2 t).and (keyMatch plan.key t d)).holds

end Statements

/-- Without data columns no version is seen to change. -/
theorem closedByChange_nil {plan : MergePlan V} (hdata : plan.dataColumns = [])
    (scd2 : Scd2Options) (clock : Clock V) (survivors : List (Row V)) (t : Row V) :
    closedByChange plan scd2 clock survivors t = false := by
  rw [closedByChange, Bool.eq_false_iff, ne_eq, holds_any]
  rintro ⟨d, -, h⟩
  simp [hdata, Sql.any] at h

omit [LinearOrder V] in
theorem map_closeIf_false {scd2 : Scd2Options} {clock : Clock V} {cond : Row V → Bool}
    (h : ∀ t, cond t = false) (target : List (Row V)) :
    target.map (closeIf scd2 clock cond) = target := by
  refine (List.map_congr_left fun t _ => ?_).trans (List.map_id target)
  rw [closeIf, h t]
  rfl

def Relations.withTarget (db : Relations V) (target : List (Row V)) : Relations V :=
  { db with target := target }

omit [LinearOrder V] in
@[simp] theorem withTarget_withTarget (db : Relations V) (target target' : List (Row V)) :
    (db.withTarget target).withTarget target' = db.withTarget target' := rfl

/-- Where the survivors are read, they are those of the stage. -/
def Reads (deduped : Query V) (survivors stage : List (Row V)) (db : Relations V) : Prop :=
  db.stage = stage ∧ ∀ target, deduped (db.withTarget target) = survivors

theorem dedupOnce_reads (plan : MergePlan V) (db : Relations V) :
    (runAll (plan.dedupOnce plan.key).1 db).target = db.target ∧
      Reads (plan.dedupOnce plan.key).2 (plan.deduped plan.key db) db.stage
        (runAll (plan.dedupOnce plan.key).1 db) := by
  unfold MergePlan.dedupOnce
  cases plan.dialect.materializesDedup with
  | true => exact ⟨rfl, rfl, fun _ => rfl⟩
  | false => exact ⟨rfl, rfl, fun _ => rfl⟩

section Apply

variable {plan : MergePlan V} {scd2 : Scd2Options} {clock : Clock V} {deduped : Query V}
  {survivors stage : List (Row V)} {db : Relations V}

theorem retire_apply (h : Reads deduped survivors stage db) :
    runAll (if plan.dataColumns.isEmpty then [] else [scd2Retire plan scd2 clock deduped]) db =
      db.withTarget (db.target.map
        (closeIf scd2 clock (closedByChange plan scd2 clock survivors))) := by
  split
  · next hnil =>
    rw [map_closeIf_false (closedByChange_nil (List.isEmpty_iff.1 hnil) scd2 clock survivors)]
    rfl
  · have hread : deduped db = survivors := h.2 db.target
    simp only [runAll_cons, runAll_nil, scd2Retire, update, hread]
    rfl

theorem insert_apply (h : Reads deduped survivors stage db) :
    runAll [scd2Insert plan scd2 clock deduped] db =
      db.withTarget (db.target ++
        (fresh plan scd2 clock survivors db.target).map (openVersion plan scd2 clock)) := by
  have hread : deduped db = survivors := h.2 db.target
  simp only [runAll_cons, runAll_nil, scd2Insert, hread]
  rfl

theorem absent_apply (h : Reads deduped survivors stage db) :
    runAll (if scd2.absent ≠ .retire then [] else [scd2Absent plan scd2 clock deduped]) db =
      db.withTarget (db.target.map
        (closeIf scd2 clock (closedByAbsence plan scd2 clock survivors stage))) := by
  have hread : deduped db = survivors := h.2 db.target
  by_cases habsent : scd2.absent = .retire
  · rw [if_neg (fun hne => hne habsent)]
    obtain ⟨rfl, -⟩ := h
    simp only [runAll_cons, runAll_nil, scd2Absent, update, hread, deliveredScopes]
    refine congrArg db.withTarget ?_
    refine List.map_congr_left fun t _ => ?_
    simp only [closeIf, closedByAbsence, habsent, decide_true, Bool.true_and]
    rfl
  · rw [if_pos habsent, map_closeIf_false fun t => by simp [closedByAbsence, habsent]]
    rfl

end Apply

def MergePlan.survivors (plan : MergePlan V) (stage : List (Row V)) : List (Row V) :=
  plan.dialect.dedupSubquery plan.key plan.dedupSort stage

/-- The target once the changed versions are closed. -/
def MergePlan.changedTarget (plan : MergePlan V) (scd2 : Scd2Options) (clock : Clock V)
    (stage target : List (Row V)) : List (Row V) :=
  target.map (closeIf scd2 clock (closedByChange plan scd2 clock (plan.survivors stage)))

def MergePlan.freshRows (plan : MergePlan V) (scd2 : Scd2Options) (clock : Clock V)
    (stage target : List (Row V)) : List (Row V) :=
  fresh plan scd2 clock (plan.survivors stage) (plan.changedTarget scd2 clock stage target)

/-- The target after the statements of one publish. -/
def MergePlan.scd2Result (plan : MergePlan V) (scd2 : Scd2Options) (clock : Clock V)
    (stage target : List (Row V)) : List (Row V) :=
  (plan.changedTarget scd2 clock stage target ++
    (plan.freshRows scd2 clock stage target).map (openVersion plan scd2 clock)).map
    (closeIf scd2 clock (closedByAbsence plan scd2 clock (plan.survivors stage) stage))

theorem scd2_target (plan : MergePlan V) (scd2 : Scd2Options) (clock : Clock V)
    (db : Relations V) :
    (runAll (scd2MergeSql plan scd2 clock) db).target =
      plan.scd2Result scd2 clock db.stage db.target := by
  obtain ⟨htarget, hreads⟩ := dedupOnce_reads plan db
  have hreads' (target : List (Row V)) : Reads (plan.dedupOnce plan.key).2
      (plan.deduped plan.key db) db.stage
      ((runAll (plan.dedupOnce plan.key).1 db).withTarget target) :=
    ⟨hreads.1, hreads.2⟩
  rw [scd2MergeSql, runAll_append, runAll_append, runAll_append, retire_apply hreads,
    insert_apply (hreads' _), withTarget_withTarget, absent_apply (hreads' _), htarget]
  rfl

/-! ## Versions -/

/-- What a checked table and a publish with its own instant give. -/
structure Ready (plan : MergePlan V) (scd2 : Scd2Options) (clock : Clock V) : Prop where
  key : ∀ c ∈ plan.key, c ∈ plan.columns
  validFrom : scd2.validFrom ∉ plan.columns
  validTo : scd2.validTo ∉ plan.columns
  differ : scd2.validFrom ≠ scd2.validTo
  boundary : ∀ marker, scd2.activeRecordTimestamp = some marker →
    clock.boundary scd2 ≠ clock.literal marker

section Versions

variable {plan : MergePlan V} {scd2 : Scd2Options} {clock : Clock V} {survivors stage : List (Row V)}
  {t d : Row V}

theorem Ready.closeAt_closed (h : Ready plan scd2 clock) (t : Row V) :
    (isActive clock.literal scd2 (closeAt scd2.validTo (clock.boundary scd2) t)).holds = false := by
  have hcell : closeAt scd2.validTo (clock.boundary scd2) t scd2.validTo =
      some (clock.boundary scd2) := if_pos rfl
  unfold isActive
  cases hmarker : scd2.activeRecordTimestamp with
  | none => simp [hcell]
  | some marker => simp [hcell, Sql.eq, h.boundary marker hmarker]

theorem openVersion_open (plan : MergePlan V) (scd2 : Scd2Options) (clock : Clock V) (d : Row V) :
    (isActive clock.literal scd2 (openVersion plan scd2 clock d)).holds = true := by
  have hcell : openVersion plan scd2 clock d scd2.validTo = clock.openValue scd2 := if_pos rfl
  unfold isActive
  cases hmarker : scd2.activeRecordTimestamp with
  | none => simp [hcell, Clock.openValue, hmarker]
  | some marker => simp [hcell, Clock.openValue, hmarker, Sql.eq]

omit [LinearOrder V] in
theorem Ready.openVersion_column (h : Ready plan scd2 clock) {c : String} (hc : c ∈ plan.columns)
    (d : Row V) : openVersion plan scd2 clock d c = d c := by
  have hto : c ≠ scd2.validTo := fun he => h.validTo (he ▸ hc)
  have hfrom : c ≠ scd2.validFrom := fun he => h.validFrom (he ▸ hc)
  rw [openVersion, if_neg hto, if_neg hfrom, pick, if_pos hc]

omit [LinearOrder V] in
theorem Ready.openVersion_key (h : Ready plan scd2 clock) (d : Row V) :
    tuple plan.key (openVersion plan scd2 clock d) = tuple plan.key d :=
  List.map_congr_left fun c hc => h.openVersion_column (h.key c hc) d

omit [LinearOrder V] in
theorem Ready.openVersion_data (h : Ready plan scd2 clock) (d : Row V) :
    SameData plan (openVersion plan scd2 clock d) d :=
  fun _ hc => h.openVersion_column (List.mem_filter.1 hc).1 d

/-! ## What closes a version -/

theorem closedByChange_iff : closedByChange plan scd2 clock survivors t = true ↔
    (isActive clock.literal scd2 t).holds = true ∧ ∃ d ∈ survivors, tuple plan.key t = tuple plan.key d ∧
      Complete (tuple plan.key d) ∧ ¬SameData plan t d := by
  rw [closedByChange, holds_any]
  constructor
  · rintro ⟨d, hd, h⟩
    rw [holds_and, holds_and, Bool.and_eq_true, Bool.and_eq_true, holds_keyMatch, changed_iff] at h
    exact ⟨h.1.1, d, hd, h.1.2.1, h.1.2.2, h.2⟩
  · rintro ⟨hactive, d, hd, hkey, hcomplete, hdata⟩
    refine ⟨d, hd, ?_⟩
    rw [holds_and, holds_and, Bool.and_eq_true, Bool.and_eq_true, holds_keyMatch, changed_iff]
    exact ⟨⟨hactive, hkey, hcomplete⟩, hdata⟩

theorem holds_isIn_delivered {scope : List String} :
    (isIn (tuple scope t) ((selectWhere (scopeNotNull scope) stage).map (tuple scope))).holds = true ↔
      Complete (tuple scope t) ∧ tuple scope t ∈ stage.map (tuple scope) := by
  rw [holds_isIn, and_comm]
  refine and_congr_right fun hcomplete => ⟨fun hmem => ?_, fun hmem => ?_⟩
  · obtain ⟨r, hr, hsame⟩ := List.mem_map.1 hmem
    exact List.mem_map.2 ⟨r, (mem_selectWhere.1 hr).1, hsame⟩
  · obtain ⟨r, hr, hsame⟩ := List.mem_map.1 hmem
    refine List.mem_map.2 ⟨r, mem_selectWhere.2 ⟨hr, holds_all.2 fun c hc => ?_⟩, hsame⟩
    have hcell : r c ≠ none := by
      rw [← hsame] at hcomplete
      exact hcomplete _ (List.mem_map_of_mem hc)
    rw [holds_isNotNull]
    exact Option.isSome_iff_ne_none.2 hcell

/-- Of a version with a complete key. -/
theorem closedByAbsence_iff (ht : Complete (tuple plan.key t))
    (hsurvivors : ∀ d ∈ survivors, Complete (tuple plan.key d)) :
    closedByAbsence plan scd2 clock survivors stage t = true ↔
      (isActive clock.literal scd2 t).holds = true ∧ tuple plan.key t ∉ survivors.map (tuple plan.key) ∧
        scd2.absent = .retire ∧ InScope plan stage t := by
  have hgone : (notIn (tuple plan.key t) (survivors.map (tuple plan.key))).holds = true ↔
      tuple plan.key t ∉ survivors.map (tuple plan.key) := by
    refine holds_notIn ht fun other hother => ?_
    obtain ⟨d, hd, rfl⟩ := List.mem_map.1 hother
    exact hsurvivors d hd
  rw [closedByAbsence, Bool.and_eq_true, decide_eq_true_iff]
  cases hscope : plan.mergeScope with
  | none =>
    have hin : InScope plan stage t := fun scope hs => by rw [hscope] at hs; cases hs
    simp only [holds_and, Bool.and_eq_true, hgone]
    exact ⟨fun h => ⟨h.2.1, h.2.2, h.1, hin⟩, fun h => ⟨h.2.2.1, h.1, h.2.1⟩⟩
  | some scope =>
    by_cases hempty : scope = []
    · have hin : InScope plan stage t := fun scope' hs hne => by
        rw [hscope, Option.some.injEq] at hs
        exact absurd (hs ▸ hempty) hne
      simp only [hempty, List.isEmpty_nil, if_true, holds_and, Bool.and_eq_true, hgone]
      exact ⟨fun h => ⟨h.2.1, h.2.2, h.1, hin⟩, fun h => ⟨h.2.2.1, h.1, h.2.1⟩⟩
    · have hin : InScope plan stage t ↔
          Complete (tuple scope t) ∧ tuple scope t ∈ stage.map (tuple scope) := by
        refine ⟨fun h => h scope hscope hempty, fun h scope' hs _ => ?_⟩
        rw [hscope, Option.some.injEq] at hs
        exact hs ▸ h
      have hempty' : ¬scope.isEmpty = true := fun h => hempty (List.isEmpty_iff.1 h)
      simp only [hempty', Bool.false_eq_true, if_false, holds_and, Bool.and_eq_true, hgone,
        holds_isIn_delivered, ← hin]
      exact ⟨fun h => ⟨h.2.1.1, h.2.1.2, h.1, h.2.2⟩, fun h => ⟨h.2.2.1, ⟨h.1, h.2.1⟩, h.2.2.2⟩⟩

theorem closedByAbsence_open (h : closedByAbsence plan scd2 clock survivors stage t = true) :
    (isActive clock.literal scd2 t).holds = true := by
  rw [closedByAbsence, Bool.and_eq_true] at h
  cases hscope : plan.mergeScope with
  | none =>
    simp only [hscope, holds_and, Bool.and_eq_true] at h
    exact h.2.1
  | some scope =>
    simp only [hscope] at h
    split at h
    · simp only [holds_and, Bool.and_eq_true] at h
      exact h.2.1
    · simp only [holds_and, Bool.and_eq_true] at h
      exact h.2.1.1

end Versions

/-! ## One publish -/

section Publish

variable {plan : MergePlan V} {scd2 : Scd2Options} {clock : Clock V} {stage target : List (Row V)}
  {t d : Row V}

theorem survivor_unique {d' : Row V} (hd : d ∈ plan.survivors stage) (hd' : d' ∈ plan.survivors stage)
    (hkey : tuple plan.key d = tuple plan.key d') : d = d' :=
  List.inj_on_of_nodup_map dedup_keys_nodup hd hd' hkey

theorem not_mem_survivors_key :
    tuple plan.key t ∉ (plan.survivors stage).map (tuple plan.key) ↔
      tuple plan.key t ∉ stage.map (tuple plan.key) :=
  not_congr mem_dedup_keys

theorem settle (h : Ready plan scd2 clock) (hstage : ∀ r ∈ stage, Complete (tuple plan.key r))
    (t : Row V) : Settled plan scd2 clock stage t
      (closeIf scd2 clock (closedByAbsence plan scd2 clock (plan.survivors stage) stage)
        (closeIf scd2 clock (closedByChange plan scd2 clock (plan.survivors stage)) t)) := by
  have hcomplete : ∀ d ∈ plan.survivors stage, Complete (tuple plan.key d) := fun d hd =>
    hstage d (mem_stage_of_mem_dedup hd)
  have hkept (hchange : closedByChange plan scd2 clock (plan.survivors stage) t ≠ true)
      (habsent : closedByAbsence plan scd2 clock (plan.survivors stage) stage t ≠ true) :
      closeIf scd2 clock (closedByAbsence plan scd2 clock (plan.survivors stage) stage)
        (closeIf scd2 clock (closedByChange plan scd2 clock (plan.survivors stage)) t) = t := by
    rw [closeIf, closeIf, if_neg hchange, if_neg habsent]
  have hundelivered (habsent : tuple plan.key t ∉ stage.map (tuple plan.key)) :
      closedByChange plan scd2 clock (plan.survivors stage) t ≠ true := by
    intro hchange
    obtain ⟨-, d, hd, hkey, -⟩ := closedByChange_iff.1 hchange
    exact habsent (hkey ▸ List.mem_map_of_mem (mem_stage_of_mem_dedup hd))
  constructor
  · intro hclosed
    refine hkept (fun hchange => ?_) fun habsent => ?_
    · rw [(closedByChange_iff.1 hchange).1] at hclosed
      cases hclosed
    · rw [closedByAbsence_open habsent] at hclosed
      cases hclosed
  · intro d hd hkey hdata
    have hd : d ∈ plan.survivors stage := mem_dedup.2 hd
    refine hkept (fun hchange => ?_) fun habsent => ?_
    · obtain ⟨-, d', hd', hkey', -, hdata'⟩ := closedByChange_iff.1 hchange
      exact hdata' (survivor_unique hd hd' (hkey.trans hkey') ▸ hdata)
    · have ht : Complete (tuple plan.key t) := hkey ▸ hcomplete d hd
      exact ((closedByAbsence_iff ht hcomplete).1 habsent).2.1 (hkey ▸ List.mem_map_of_mem hd)
  · intro hactive d hd hkey hdata
    have hd : d ∈ plan.survivors stage := mem_dedup.2 hd
    have hchange : closedByChange plan scd2 clock (plan.survivors stage) t = true :=
      closedByChange_iff.2 ⟨hactive, d, hd, hkey.symm, hcomplete d hd, hdata⟩
    have habsent : ¬closedByAbsence plan scd2 clock (plan.survivors stage) stage
        (closeAt scd2.validTo (clock.boundary scd2) t) = true := fun habsent => by
      have := closedByAbsence_open habsent
      rw [h.closeAt_closed t] at this
      cases this
    have hfirst : closeIf scd2 clock (closedByChange plan scd2 clock (plan.survivors stage)) t =
        closeAt scd2.validTo (clock.boundary scd2) t := if_pos hchange
    rw [hfirst, closeIf, if_neg habsent]
  · intro ht hnot hretire
    refine hkept (hundelivered hnot) fun habsent => ?_
    exact hretire ((closedByAbsence_iff ht hcomplete).1 habsent).2.2
  · intro hactive ht hnot hretire hscope
    have habsent : closedByAbsence plan scd2 clock (plan.survivors stage) stage t = true :=
      (closedByAbsence_iff ht hcomplete).2
        ⟨hactive, not_mem_survivors_key.2 hnot, hretire, hscope⟩
    have hfirst : closeIf scd2 clock (closedByChange plan scd2 clock (plan.survivors stage)) t = t :=
      if_neg (hundelivered hnot)
    rw [hfirst, closeIf, if_pos habsent]

/-! The open versions of a key, through the statements. -/

theorem openFor_iff {k : List (Option V)} : openFor clock.literal scd2 plan.key k t = true ↔
    (isActive clock.literal scd2 t).holds = true ∧ tuple plan.key t = k := by
  rw [openFor, Bool.and_eq_true, decide_eq_true_iff]

theorem filter_closeIf (h : Ready plan scd2 clock) (cond : Row V → Bool) (k : List (Option V))
    (rows : List (Row V)) :
    (rows.map (closeIf scd2 clock cond)).filter (openFor clock.literal scd2 plan.key k) =
      rows.filter fun t => openFor clock.literal scd2 plan.key k t && !cond t := by
  refine filter_map_ite _ cond _ rows fun t _ _ => ?_
  rw [openFor, h.closeAt_closed t]
  rfl

theorem filter_openVersion (h : Ready plan scd2 clock) (k : List (Option V)) (rows : List (Row V)) :
    (rows.map (openVersion plan scd2 clock)).filter (openFor clock.literal scd2 plan.key k) =
      (rows.filter fun d => decide (tuple plan.key d = k)).map (openVersion plan scd2 clock) := by
  rw [List.filter_map]
  refine congrArg _ (List.filter_congr fun d _ => ?_)
  rw [Function.comp, openFor, openVersion_open, Bool.true_and, h.openVersion_key]

/-- One row of a list of rows with distinct keys has a given key. -/
theorem filter_key_eq {R K : Type} [DecidableEq K] {key : R → K} {rows : List R} {r : R}
    (hnodup : (rows.map key).Nodup) (hr : r ∈ rows) :
    rows.filter (fun s => decide (key s = key r)) = [r] := by
  induction rows with
  | nil => cases hr
  | cons s rows ih =>
    obtain ⟨hnot, hnodup⟩ := List.nodup_cons.1 hnodup
    rcases List.mem_cons.1 hr with rfl | hr
    · have hnone : rows.filter (fun s => decide (key s = key r)) = [] :=
        List.filter_eq_nil_iff.2 fun s hs hsame =>
          hnot (of_decide_eq_true hsame ▸ List.mem_map_of_mem hs)
      rw [List.filter_cons, decide_eq_true rfl, if_pos rfl, hnone]
    · have hne : key s ≠ key r := fun hsame => hnot (hsame ▸ List.mem_map_of_mem hr)
      rw [List.filter_cons, decide_eq_false hne]
      exact ih hnodup hr

/-- A delivered row opens a version where no open one of its key is left. -/
theorem filter_fresh (hd : d ∈ plan.survivors stage) (hcomplete : Complete (tuple plan.key d)) :
    (fresh plan scd2 clock (plan.survivors stage) target).filter
        (fun d' => decide (tuple plan.key d' = tuple plan.key d)) =
      if target.filter (openFor clock.literal scd2 plan.key (tuple plan.key d)) = [] then [d] else [] := by
  have hleft : (target.any fun t => ((isActive clock.literal scd2 t).and (keyMatch plan.key t d)).holds) =
      true ↔ target.filter (openFor clock.literal scd2 plan.key (tuple plan.key d)) ≠ [] := by
    rw [List.any_eq_true, ne_eq, List.filter_eq_nil_iff, not_forall]
    refine exists_congr fun t => ?_
    rw [Classical.not_imp, not_not, openFor_iff, holds_and, Bool.and_eq_true, holds_keyMatch]
    exact and_congr_right fun _ => and_congr_right fun _ => and_iff_left hcomplete
  rw [fresh, List.filter_filter]
  have hsplit : ((plan.survivors stage).filter fun d' =>
      decide (tuple plan.key d' = tuple plan.key d) &&
        !target.any fun t => ((isActive clock.literal scd2 t).and (keyMatch plan.key t d')).holds) =
      ((plan.survivors stage).filter fun d' => decide (tuple plan.key d' = tuple plan.key d)).filter
        fun d' => !target.any fun t =>
          ((isActive clock.literal scd2 t).and (keyMatch plan.key t d')).holds := by
    rw [List.filter_filter]
    exact List.filter_congr fun _ _ => Bool.and_comm _ _
  have hone : (plan.survivors stage).filter (fun d' => decide (tuple plan.key d' = tuple plan.key d)) =
      [d] := filter_key_eq dedup_keys_nodup hd
  rw [hsplit, hone, List.filter_singleton]
  by_cases hnil : target.filter (openFor clock.literal scd2 plan.key (tuple plan.key d)) = []
  · have hnone := (not_congr hleft).2 (not_not.2 hnil)
    rw [if_pos hnil, Bool.eq_false_iff.2 hnone]
    rfl
  · rw [if_neg hnil, hleft.2 hnil]
    rfl

theorem changed_open_le (stage : List (Row V)) (h : Ready plan scd2 clock)
    (hone : AtMostOneActive clock.literal scd2 plan.key target) (k : List (Option V)) :
    ((plan.changedTarget scd2 clock stage target).filter (openFor clock.literal scd2 plan.key k)).length ≤
      1 := by
  have hle : ((target.filter (openFor clock.literal scd2 plan.key k)).filter fun t =>
      !closedByChange plan scd2 clock (plan.survivors stage) t).length ≤ 1 :=
    Nat.le_trans (List.length_filter_le _ _) (hone k)
  rw [List.filter_filter] at hle
  rw [MergePlan.changedTarget, filter_closeIf h]
  simpa only [Bool.and_comm] using hle

theorem result_filter (h : Ready plan scd2 clock) (k : List (Option V)) :
    (plan.scd2Result scd2 clock stage target).filter (openFor clock.literal scd2 plan.key k) =
      ((plan.changedTarget scd2 clock stage target).filter (openFor clock.literal scd2 plan.key k) ++
        ((plan.freshRows scd2 clock stage target).filter
          fun d => decide (tuple plan.key d = k)).map (openVersion plan scd2 clock)).filter
        fun t => !closedByAbsence plan scd2 clock (plan.survivors stage) stage t := by
  rw [MergePlan.scd2Result, filter_closeIf h, ← filter_openVersion h, ← List.filter_append,
    List.filter_filter]
  exact List.filter_congr fun _ _ => Bool.and_comm _ _

/-- A delivered key ends with one open version, of its surviving row. -/
theorem delivered_open (h : Ready plan scd2 clock)
    (hstage : ∀ r ∈ stage, Complete (tuple plan.key r))
    (hone : AtMostOneActive clock.literal scd2 plan.key target) (hd : d ∈ plan.survivors stage) :
    ∃ t, (plan.scd2Result scd2 clock stage target).filter
      (openFor clock.literal scd2 plan.key (tuple plan.key d)) = [t] ∧ SameData plan t d := by
  have hcomplete : ∀ d ∈ plan.survivors stage, Complete (tuple plan.key d) := fun d hd =>
    hstage d (mem_stage_of_mem_dedup hd)
  -- a delivered key is not absent
  have hpresent (t : Row V) (hkey : tuple plan.key t = tuple plan.key d) :
      (!closedByAbsence plan scd2 clock (plan.survivors stage) stage t) = true := by
    rw [Bool.not_eq_true', Bool.eq_false_iff]
    intro habsent
    refine ((closedByAbsence_iff (hkey ▸ hcomplete d hd) hcomplete).1 habsent).2.1 ?_
    exact hkey ▸ List.mem_map_of_mem hd
  have hle := changed_open_le stage h hone (tuple plan.key d)
  have hfresh : (plan.freshRows scd2 clock stage target).filter
      (fun d' => decide (tuple plan.key d' = tuple plan.key d)) = _ :=
    filter_fresh hd (hcomplete d hd)
  rw [result_filter h, hfresh]
  cases hleft : (plan.changedTarget scd2 clock stage target).filter
      (openFor clock.literal scd2 plan.key (tuple plan.key d)) with
  | nil =>
    refine ⟨openVersion plan scd2 clock d, ?_, h.openVersion_data d⟩
    rw [if_pos rfl, List.nil_append, List.map_singleton, List.filter_singleton,
      hpresent _ (h.openVersion_key d)]
    rfl
  | cons t rest =>
    have hrest : rest = [] := by
      rw [hleft] at hle
      exact List.length_eq_zero_iff.1 (Nat.le_zero.1 (Nat.le_of_succ_le_succ hle))
    have ht : t ∈ target.filter fun t => openFor clock.literal scd2 plan.key (tuple plan.key d) t &&
        !closedByChange plan scd2 clock (plan.survivors stage) t := by
      rw [← filter_closeIf h]
      exact hleft ▸ List.mem_cons_self
    obtain ⟨-, ht⟩ := List.mem_filter.1 ht
    rw [Bool.and_eq_true, openFor_iff, Bool.not_eq_true'] at ht
    obtain ⟨⟨hactive, hkey⟩, hchange⟩ := ht
    refine ⟨t, ?_, ?_⟩
    · rw [if_neg (List.cons_ne_nil t rest), hrest, List.map_nil, List.append_nil,
        List.filter_singleton, hpresent t hkey]
      rfl
    · by_contra hdata
      rw [closedByChange_iff.2 ⟨hactive, d, hd, hkey, hcomplete d hd, hdata⟩] at hchange
      cases hchange

theorem result_atMostOne (h : Ready plan scd2 clock)
    (hstage : ∀ r ∈ stage, Complete (tuple plan.key r))
    (hone : AtMostOneActive clock.literal scd2 plan.key target) :
    AtMostOneActive clock.literal scd2 plan.key (plan.scd2Result scd2 clock stage target) := by
  intro k
  by_cases hdelivered : ∃ d ∈ plan.survivors stage, tuple plan.key d = k
  · obtain ⟨d, hd, rfl⟩ := hdelivered
    obtain ⟨t, ht, -⟩ := delivered_open h hstage hone hd
    rw [ht]
    exact Nat.le_refl 1
  · have hnone : (plan.freshRows scd2 clock stage target).filter
        (fun d => decide (tuple plan.key d = k)) = [] := by
      refine List.filter_eq_nil_iff.2 fun d hd hkey => hdelivered ⟨d, ?_, of_decide_eq_true hkey⟩
      exact List.mem_of_mem_filter hd
    rw [result_filter h, hnone, List.map_nil, List.append_nil]
    exact Nat.le_trans (List.length_filter_le _ _) (changed_open_le stage h hone k)

/-- One publish of the history. -/
theorem publish_merged (h : Ready plan scd2 clock)
    (hstage : ∀ r ∈ stage, Complete (tuple plan.key r))
    (hone : AtMostOneActive clock.literal scd2 plan.key target) :
    Merged plan scd2 clock stage target (plan.scd2Result scd2 clock stage target) where
  versions := by
    refine ⟨(plan.changedTarget scd2 clock stage target).map
      (closeIf scd2 clock (closedByAbsence plan scd2 clock (plan.survivors stage) stage)),
      plan.freshRows scd2 clock stage target, ?_, ?_, fun d hd =>
        mem_dedup.1 (List.mem_of_mem_filter hd)⟩
    · -- what was just opened is not absent
      have hopened : ((plan.freshRows scd2 clock stage target).map (openVersion plan scd2 clock)).map
          (closeIf scd2 clock (closedByAbsence plan scd2 clock (plan.survivors stage) stage)) =
          (plan.freshRows scd2 clock stage target).map (openVersion plan scd2 clock) := by
        rw [List.map_map]
        refine List.map_congr_left fun d hd => if_neg fun habsent => ?_
        have hd : d ∈ plan.survivors stage := List.mem_of_mem_filter hd
        have hkey := h.openVersion_key d
        have hcomplete : ∀ d ∈ plan.survivors stage, Complete (tuple plan.key d) := fun d hd =>
          hstage d (mem_stage_of_mem_dedup hd)
        refine ((closedByAbsence_iff (hkey ▸ hcomplete d hd) hcomplete).1 habsent).2.1 ?_
        exact hkey ▸ List.mem_map_of_mem hd
      rw [MergePlan.scd2Result, List.map_append, hopened]
    · rw [MergePlan.changedTarget, List.map_map, List.forall₂_map_right_iff, List.forall₂_same]
      exact fun t _ => settle h hstage t
  delivered _ hd := delivered_open h hstage hone (mem_dedup.2 hd)

end Publish

/-! ## Any number of units -/

/-- A delivery: the schema ensured, the instant of its publish, and the staged rows. -/
structure HistoryUnit (V : Type) where
  schema : TableSchema
  txTimestamp : V
  stage : List (Row V)

/-- A table kept as a history. -/
structure HistoryTable (V : Type) where
  dialect : Dialect
  options : DestinationOptions
  table : String
  key : List String
  yes : V
  literal : String → V

namespace HistoryTable

variable (h : HistoryTable V)

def scd2 : Scd2Options := h.options.scd2For h.table

def plan (unit : HistoryUnit V) : MergePlan V :=
  buildMergePlan h.yes h.dialect h.options h.table unit.schema h.key h.table (some unit.schema)

def clock (unit : HistoryUnit V) : Clock V := ⟨unit.txTimestamp, h.literal⟩

def publish (target : List (Row V)) (unit : HistoryUnit V) : List (Row V) :=
  (runAll (renderArm (h.plan unit) (h.clock unit) (.scd2 h.scd2))
    ⟨target, unit.stage, unit.stage, []⟩).target

def publishAll (units : List (HistoryUnit V)) (target : List (Row V)) : List (Row V) :=
  units.foldl h.publish target

/-- The table was checked, staged keys are complete, and the instant is not the marker. -/
structure Accepts (unit : HistoryUnit V) : Prop where
  keyed : (TableFacts.of unit.schema).hasIdentity = false ∧ (TableFacts.of unit.schema).isChild = false
  valid : validateMerge h.options unit.schema h.table h.key (TableFacts.of unit.schema) = .ok ()
  stage : ∀ r ∈ unit.stage, Complete (tuple h.key r)
  boundary : ∀ marker, h.scd2.activeRecordTimestamp = some marker →
    (h.clock unit).boundary h.scd2 ≠ h.literal marker

variable {h}

theorem ready {isRfc3339 : String → Bool} (hoptions : h.options.validate isRfc3339 = .ok ())
    (hstrategy : h.options.strategyFor h.table = .scd2) {unit : HistoryUnit V}
    (hunit : h.Accepts unit) : Ready (h.plan unit) h.scd2 (h.clock unit) where
  key := (validated_of_ok hunit.keyed hunit.valid).key
  validFrom := ((validated_of_ok hunit.keyed hunit.valid).validity hstrategy).1
  validTo := ((validated_of_ok hunit.keyed hunit.valid).validity hstrategy).2
  differ := validity_differ hoptions h.table
  boundary := hunit.boundary

theorem publishAll_atMostOne {isRfc3339 : String → Bool}
    (hoptions : h.options.validate isRfc3339 = .ok ())
    (hstrategy : h.options.strategyFor h.table = .scd2) {units : List (HistoryUnit V)}
    (hunits : ∀ unit ∈ units, h.Accepts unit) {target : List (Row V)}
    (hone : AtMostOneActive h.literal h.scd2 h.key target) :
    AtMostOneActive h.literal h.scd2 h.key (h.publishAll units target) := by
  induction units generalizing target with
  | nil => exact hone
  | cons unit units ih =>
    refine ih (fun other hmem => hunits other (by simp [hmem])) ?_
    have hunit := hunits unit (by simp)
    have hresult := result_atMostOne (ready hoptions hstrategy hunit) hunit.stage hone
    rwa [publish, renderArm, scd2_target]

/-- Each unit merges its delivery into the history, and each key has at most one open
version after any number of them. -/
theorem history_exact {isRfc3339 : String → Bool}
    (hoptions : h.options.validate isRfc3339 = .ok ())
    (hstrategy : h.options.strategyFor h.table = .scd2) {units : List (HistoryUnit V)}
    (hunits : ∀ unit ∈ units, h.Accepts unit) {target : List (Row V)}
    (hone : AtMostOneActive h.literal h.scd2 h.key target) :
    AtMostOneActive h.literal h.scd2 h.key (h.publishAll units target) ∧
      ∀ pre unit post, units = pre ++ unit :: post →
        Merged (h.plan unit) h.scd2 (h.clock unit) unit.stage (h.publishAll pre target)
          (h.publishAll (pre ++ [unit]) target) := by
  refine ⟨publishAll_atMostOne hoptions hstrategy hunits hone, fun pre unit post heq => ?_⟩
  have hunit : h.Accepts unit := hunits unit (by simp [heq])
  have hbefore : AtMostOneActive h.literal h.scd2 h.key (h.publishAll pre target) :=
    publishAll_atMostOne hoptions hstrategy (fun other hmem => hunits other (by simp [heq, hmem]))
      hone
  have hmerged := publish_merged (ready hoptions hstrategy hunit) hunit.stage hbefore
  have hlast : h.publishAll (pre ++ [unit]) target = (h.plan unit).scd2Result h.scd2 (h.clock unit)
      unit.stage (h.publishAll pre target) := by
    rw [publishAll, List.foldl_append, List.foldl_cons, List.foldl_nil, publish, renderArm,
      scd2_target]
    rfl
  rw [hlast]
  exact hmerged

end HistoryTable

/-! Prices by region, retired within the delivered regions. -/

def priceColumns : List Column :=
  [⟨"id", .scalar .int64, false⟩, ⟨"region", .scalar .int64, false⟩, ⟨"price", .scalar .int64, true⟩]

def prices : HistoryTable Nat where
  dialect := .postgres
  options :=
    { tables := [("prices",
        { mergeStrategy := some .scd2
          scd2 := some { absent := .retire, activeRecordTimestamp := some "9999-12-31T00:00:00Z" }
          mergeScope := some ["region"] })] }
  table := "prices"
  key := ["id"]
  yes := 1
  literal _ := 9999

def price (id region : Nat) (price : Option Nat) : Row Nat := fun c =>
  if c = "id" then some id else if c = "region" then some region
  else if c = "price" then price else none

def priceUnits : List (HistoryUnit Nat) :=
  [⟨⟨"prices", none, priceColumns⟩, 1, [price 1 7 (some 10), price 2 8 (some 20)]⟩,
    ⟨⟨"prices", none, priceColumns⟩, 2, [price 3 7 none, price 3 7 (some 30)]⟩]

theorem prices_boundary {txTimestamp : Nat} (h : txTimestamp ≠ 9999) :
    (Clock.mk txTimestamp prices.literal).boundary prices.scd2 ≠ 9999 := h

theorem prices_accepted : ∀ unit ∈ priceUnits, prices.Accepts unit := by
  intro unit hunit
  simp only [priceUnits, List.mem_cons, List.not_mem_nil, or_false] at hunit
  rcases hunit with rfl | rfl
  · exact ⟨by decide, by decide, by decide, fun _ _ => prices_boundary (by decide)⟩
  · exact ⟨by decide, by decide, by decide, fun _ _ => prices_boundary (by decide)⟩

theorem prices_history_exact :
    AtMostOneActive prices.literal prices.scd2 prices.key (prices.publishAll priceUnits []) ∧
      ∀ pre unit post, priceUnits = pre ++ unit :: post →
        Merged (prices.plan unit) prices.scd2 (prices.clock unit) unit.stage
          (prices.publishAll pre []) (prices.publishAll (pre ++ [unit]) []) :=
  @HistoryTable.history_exact _ _ prices (fun _ => true) (by decide) (by decide) _
    prices_accepted _ fun _ => Nat.zero_le 1

end Sqlcore
