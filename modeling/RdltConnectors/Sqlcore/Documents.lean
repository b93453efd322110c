import Mathlib.Data.Nat.Basic
import RdltConnectors.Sqlcore.Survivors

/-!
# Document trees

A document is a root row and child rows that carry its root's identity. A publish
deletes the children of every delivered root and inserts the staged ones, the last
of each child identity. Where a root is delivered twice in one unit, the children of
its first delivery are staged as well: they are dropped only if a later row has
their identity.
-/
namespace Sqlcore

open Sql

variable {V : Type}

structure Document (V : Type) where
  id : V
  root : Row V
  children : List (Row V)
  root_id : root idColumn = some id
  children_root : ∀ c ∈ children, c rootIdColumn = some id

/-- What a unit delivers to a root table and one of its child tables. -/
structure DocumentUnit (V : Type) where
  schema : TableSchema
  rootSchema : TableSchema
  documents : List (Document V)

/-- A child table. -/
structure DocumentTable (V : Type) where
  dialect : Dialect
  options : DestinationOptions
  table : String
  root : String
  key : List String
  yes : V
  clock : Clock V

def rootStage (documents : List (Document V)) : List (Row V) := documents.map Document.root

def childStage (documents : List (Document V)) : List (Row V) :=
  documents.flatMap Document.children

def DocumentUnit.Delivers (unit : DocumentUnit V) (id : V) : Prop :=
  ∃ d ∈ unit.documents, d.id = id

variable [LinearOrder V]

/-- The rows of one root. -/
def ofRoot (id : V) (rows : List (Row V)) : List (Row V) :=
  rows.filter fun r => decide (r rootIdColumn = some id)

namespace DocumentTable

variable (h : DocumentTable V)

def plan (unit : DocumentUnit V) : MergePlan V :=
  buildMergePlan h.yes h.dialect h.options h.table unit.schema h.key h.root (some unit.rootSchema)

def publish (target : List (Row V)) (unit : DocumentUnit V) : List (Row V) :=
  (runAll (renderArm (h.plan unit) h.clock .identityDeleteInsert)
    ⟨target, childStage unit.documents, rootStage unit.documents, []⟩).target

def publishAll (units : List (DocumentUnit V)) (target : List (Row V)) : List (Row V) :=
  units.foldl h.publish target

/-- The table was checked, and is a child table with the shredder's columns. -/
structure Accepts (unit : DocumentUnit V) : Prop where
  child : h.table ≠ h.root
  identity : (TableFacts.of unit.schema).hasIdentity = true
  rootId : rootIdColumn ∈ unit.schema.columnNames
  valid : validateMerge h.options unit.schema h.table h.key (TableFacts.of unit.schema) = .ok ()

/-- The root's children in the target are those of this delivery, or none if it is
flagged. -/
def Holds (unit : DocumentUnit V) (d : Document V) (after : List (Row V)) : Prop :=
  if (h.plan unit).flags d.root then ofRoot d.id after = []
  else (ofRoot d.id after).Perm (d.children.map (pick unit.schema.columnNames))

end DocumentTable

/-- A later row has the row's identity. -/
def Carried (c : Row V) (later : List (Row V)) : Prop := ∃ c' ∈ later, c' idColumn = c idColumn

/-- Within its unit, a root's last delivery replaces the earlier ones: each of their
children is carried again, and no child of the last is. -/
structure Replaces (early : List (Document V)) (d : Document V) (late : List (Document V)) :
    Prop where
  superseded : ∀ c later, c :: later <:+ childStage early → c rootIdColumn = some d.id →
    Carried c (later ++ childStage (d :: late))
  last : ∀ c later, c :: later <:+ d.children → ¬Carried c (later ++ childStage late)

/-- The last delivery of a root in a run: its unit, and the documents around it. -/
structure LastDelivery (units : List (DocumentUnit V)) (id : V) (unit : DocumentUnit V)
    (early : List (Document V)) (d : Document V) (late : List (Document V)) : Prop where
  inUnit : ∃ pre post, units = pre ++ unit :: post ∧ ∀ u ∈ post, ¬u.Delivers id
  around : unit.documents = early ++ d :: late
  root : d.id = id
  last : ∀ e ∈ late, e.id ≠ id

/-- What a run owes a root: the children of its last delivery, or what it had. -/
structure DocumentTable.Exact (h : DocumentTable V) (units : List (DocumentUnit V)) (id : V)
    (before after : List (Row V)) : Prop where
  delivered : ∀ unit early d late, LastDelivery units id unit early d late → h.Holds unit d after
  undelivered : (∀ unit ∈ units, ¬unit.Delivers id) → ofRoot id after = ofRoot id before

/-! ## One publish -/

omit [LinearOrder V] in
theorem mem_childStage {documents : List (Document V)} {c : Row V} (hc : c ∈ childStage documents) :
    ∃ d ∈ documents, c rootIdColumn = some d.id := by
  obtain ⟨d, hd, hcd⟩ := List.mem_flatMap.1 hc
  exact ⟨d, hd, d.children_root c hcd⟩

omit [LinearOrder V] in
theorem mem_rootStage_ids {documents : List (Document V)} {k : List (Option V)} :
    k ∈ (rootStage documents).map (tuple [idColumn]) ↔ ∃ d ∈ documents, k = [some d.id] := by
  rw [rootStage, List.map_map, List.mem_map]
  refine exists_congr fun d => and_congr_right fun _ => ?_
  have htuple : tuple [idColumn] d.root = [some d.id] := by
    rw [tuple, List.map_singleton, d.root_id]
  rw [Function.comp, htuple]
  exact eq_comm

/-- The children of another root have another root id. -/
theorem ofRoot_eq_nil {documents : List (Document V)} {id : V} {rows : List (Row V)}
    (hrows : ∀ c ∈ rows, c ∈ childStage documents) (hnone : ∀ d ∈ documents, d.id ≠ id) :
    ofRoot id rows = [] := by
  refine List.filter_eq_nil_iff.2 fun c hc hroot => ?_
  obtain ⟨d, hd, hcd⟩ := mem_childStage (hrows c hc)
  rw [decide_eq_true_iff, hcd, Option.some.injEq] at hroot
  exact hnone d hd hroot

theorem ofRoot_map_pick {columns : List String} (hroot : rootIdColumn ∈ columns) (id : V)
    (rows : List (Row V)) : ofRoot id (rows.map (pick columns)) = (ofRoot id rows).map (pick columns) := by
  rw [ofRoot, List.filter_map]
  refine congrArg _ (List.filter_congr fun r _ => ?_)
  rw [Function.comp, pick, if_pos hroot]

section Publish

variable {h : DocumentTable V} {unit : DocumentUnit V} {target : List (Row V)} {id : V}

/-- The surviving children whose root is not flagged. -/
def DocumentTable.inserted (h : DocumentTable V) (unit : DocumentUnit V) : List (Row V) :=
  selectWhere (fun r => match (h.plan unit).hardDelete with
    | some hd => notIn (tuple [rootIdColumn] r) ((h.plan unit).flaggedRoots hd
        ⟨[], childStage unit.documents, rootStage unit.documents, []⟩)
    | none => some true)
    (h.dialect.dedupSubquery [idColumn] (h.options.dedupSortFor h.table)
      (childStage unit.documents))

theorem publish_eq (hunit : h.Accepts unit) : h.publish target unit =
    deleteWhere (fun t => isIn (tuple [rootIdColumn] t)
      ((rootStage unit.documents).map (tuple [idColumn]))) target ++
      (h.inserted unit).map (pick unit.schema.columnNames) := by
  have hchild : (h.plan unit).isChild = true := decide_eq_true hunit.child
  unfold DocumentTable.publish DocumentTable.inserted renderArm identityDeleteInsertSql
  simp only [hchild]
  cases hhd : (h.plan unit).hardDelete with
  | none => rfl
  | some hd => rfl

theorem ofRoot_deleted_of_delivers (hdelivers : unit.Delivers id) :
    ofRoot id (deleteWhere (fun t => isIn (tuple [rootIdColumn] t)
      ((rootStage unit.documents).map (tuple [idColumn]))) target) = [] := by
  refine List.filter_eq_nil_iff.2 fun t ht hroot => ?_
  rw [decide_eq_true_iff] at hroot
  obtain ⟨d, hd, rfl⟩ := hdelivers
  have hkept := (mem_deleteWhere.1 ht).2
  have htuple : tuple [rootIdColumn] t = [some d.id] := by rw [tuple, List.map_singleton, hroot]
  rw [Bool.eq_false_iff] at hkept
  exact hkept (holds_isIn.2 ⟨mem_rootStage_ids.2 ⟨d, hd, htuple⟩, by simp [htuple]⟩)

theorem ofRoot_deleted_of_not (hnot : ¬unit.Delivers id) :
    ofRoot id (deleteWhere (fun t => isIn (tuple [rootIdColumn] t)
      ((rootStage unit.documents).map (tuple [idColumn]))) target) = ofRoot id target := by
  rw [ofRoot, deleteWhere, List.filter_filter]
  refine List.filter_congr fun t _ => ?_
  by_cases hroot : t rootIdColumn = some id
  · rw [decide_eq_true hroot, Bool.true_and, Bool.not_eq_true', Bool.eq_false_iff]
    intro hin
    obtain ⟨d, hd, hk⟩ := mem_rootStage_ids.1 (holds_isIn.1 hin).1
    rw [tuple, List.map_singleton, hroot] at hk
    have hid : some id = some d.id := by simpa using hk
    exact hnot ⟨d, hd, (Option.some.inj hid).symm⟩
  · rw [decide_eq_false hroot, Bool.false_and]

theorem inserted_sublist_stage : ∀ c ∈ h.inserted unit, c ∈ childStage unit.documents :=
  fun _ hc => mem_stage_of_mem_dedup (mem_selectWhere.1 hc).1

/-- A unit that does not deliver a root leaves its children. -/
theorem publish_other (hunit : h.Accepts unit) (hnot : ¬unit.Delivers id) :
    ofRoot id (h.publish target unit) = ofRoot id target := by
  have hnone : ofRoot id (h.inserted unit) = [] :=
    ofRoot_eq_nil inserted_sublist_stage fun d hd hid => hnot ⟨d, hd, hid⟩
  rw [publish_eq hunit, ofRoot, List.filter_append, ← ofRoot, ← ofRoot,
    ofRoot_deleted_of_not hnot, ofRoot_map_pick hunit.rootId, hnone]
  exact List.append_nil _

theorem publish_delivered (hunit : h.Accepts unit) (hdelivers : unit.Delivers id) :
    ofRoot id (h.publish target unit) =
      (ofRoot id (h.inserted unit)).map (pick unit.schema.columnNames) := by
  rw [publish_eq hunit, ofRoot, List.filter_append, ← ofRoot, ← ofRoot,
    ofRoot_deleted_of_delivers hdelivers, ofRoot_map_pick hunit.rootId]
  rfl

/-! ## Around the last delivery -/

variable {early late : List (Document V)} {d : Document V}

theorem last_root_survives (dialect : Dialect) (hlate : ∀ e ∈ late, e.id ≠ d.id) :
    d.root ∈ dialect.dedupSubquery [idColumn] none (rootStage (early ++ d :: late)) := by
  rw [dedup_perm_lastOfEach.mem_iff, rootStage, List.map_append, List.map_cons, lastOfEach_append]
  refine List.mem_append_right _ ?_
  have hnone : ((late.map Document.root ++ []).any fun r =>
      decide (tuple [idColumn] r = tuple [idColumn] d.root)) = false := by
    rw [List.append_nil, List.any_eq_false]
    intro r hr hsame
    obtain ⟨e, he, rfl⟩ := List.mem_map.1 hr
    have hid : some e.id = some d.id := by
      rw [← e.root_id, ← d.root_id]
      exact List.map_inj_left.1 (of_decide_eq_true hsame) _ (by simp)
    exact hlate e he (Option.some.inj hid)
  rw [lastOfEach, hnone]
  exact List.mem_cons_self

/-- A root is deleted by its last delivery. -/
theorem mem_flaggedRoots (hlate : ∀ e ∈ late, e.id ≠ d.id) (plan : MergePlan V) (hd : HardDelete V)
    {db : Relations V} (hdb : db.rootStage = rootStage (early ++ d :: late)) :
    [some d.id] ∈ plan.flaggedRoots hd db ↔ (hd.flagged d.root).holds = true := by
  have hroot : tuple [idColumn] d.root = [some d.id] := by
    rw [tuple, List.map_singleton, d.root_id]
  have hlast : d.root ∈ plan.dialect.dedupSubquery [idColumn] none (rootStage (early ++ d :: late)) :=
    last_root_survives plan.dialect hlate
  rw [MergePlan.flaggedRoots, hdb, List.mem_map]
  constructor
  · rintro ⟨r, hr, hid⟩
    obtain ⟨hr, hflag⟩ := mem_selectWhere.1 hr
    have hsame : r = d.root :=
      List.inj_on_of_nodup_map dedup_keys_nodup hr hlast (hid.trans hroot.symm)
    exact hsame ▸ hflag
  · exact fun hflag => ⟨d.root, mem_selectWhere.2 ⟨hlast, hflag⟩, hroot⟩

theorem flaggedRoots_complete (plan : MergePlan V) (hd : HardDelete V) {db : Relations V}
    {documents : List (Document V)} (hdb : db.rootStage = rootStage documents) :
    ∀ k ∈ plan.flaggedRoots hd db, Complete k := by
  intro k hk
  obtain ⟨r, hr, rfl⟩ := List.mem_map.1 hk
  have hmem : tuple [idColumn] r ∈ (rootStage documents).map (tuple [idColumn]) :=
    List.mem_map_of_mem (hdb ▸ mem_stage_of_mem_dedup (mem_selectWhere.1 hr).1)
  obtain ⟨e, -, hid⟩ := mem_rootStage_ids.1 hmem
  simp [hid]

/-- Its children survive the dedup, or are dropped with it. -/
theorem ofRoot_inserted (hsplit : unit.documents = early ++ d :: late)
    (hlate : ∀ e ∈ late, e.id ≠ d.id) :
    ofRoot d.id (h.inserted unit) = if (h.plan unit).flags d.root then [] else
      ofRoot d.id (h.dialect.dedupSubquery [idColumn] (h.options.dedupSortFor h.table)
        (childStage unit.documents)) := by
  unfold DocumentTable.inserted MergePlan.flags
  cases hhd : (h.plan unit).hardDelete with
  | none => simp [selectWhere]
  | some hd =>
    let db : Relations V := ⟨[], childStage unit.documents, rootStage unit.documents, []⟩
    have hdb : db.rootStage = rootStage (early ++ d :: late) := congrArg rootStage hsplit
    have hkeep (r : Row V) (hroot : r rootIdColumn = some d.id) :
        (notIn (tuple [rootIdColumn] r) ((h.plan unit).flaggedRoots hd db)).holds =
          !(hd.flagged d.root).holds := by
      have htuple : tuple [rootIdColumn] r = [some d.id] := by
        rw [tuple, List.map_singleton, hroot]
      rw [htuple, Bool.eq_iff_iff, holds_notIn (by simp) (flaggedRoots_complete _ hd hdb),
        mem_flaggedRoots hlate _ hd hdb, Bool.not_eq_true', Bool.not_eq_true]
    have hswap : ofRoot d.id (selectWhere
        (fun r => notIn (tuple [rootIdColumn] r) ((h.plan unit).flaggedRoots hd db))
        (h.dialect.dedupSubquery [idColumn] (h.options.dedupSortFor h.table)
          (childStage unit.documents))) =
        (h.dialect.dedupSubquery [idColumn] (h.options.dedupSortFor h.table)
          (childStage unit.documents)).filter fun r =>
            decide (r rootIdColumn = some d.id) && !(hd.flagged d.root).holds := by
      rw [ofRoot, selectWhere, List.filter_filter]
      refine List.filter_congr fun r _ => ?_
      by_cases hroot : r rootIdColumn = some d.id
      · rw [hkeep r hroot]
      · rw [decide_eq_false hroot, Bool.false_and, Bool.false_and]
    refine hswap.trans ?_
    rw [Option.map_some, Option.getD_some]
    by_cases hflag : (hd.flagged d.root).holds = true
    · simp [hflag]
    · simp [hflag, ofRoot]

/-- The children of the root that survive: those of earlier deliveries that nothing
carries again, and those of the last. -/
theorem ofRoot_survivors (early : List (Document V)) (dialect : Dialect)
    (hlate : ∀ e ∈ late, e.id ≠ d.id) :
    (ofRoot d.id (dialect.dedupSubquery [idColumn] none (childStage (early ++ d :: late)))).Perm
      (ofRoot d.id (lastOfEach (tuple [idColumn]) (childStage (d :: late)) (childStage early)) ++
        lastOfEach (tuple [idColumn]) (childStage late) d.children) := by
  have hstage : childStage (early ++ d :: late) =
      childStage early ++ (d.children ++ childStage late) := by
    rw [childStage, List.flatMap_append, List.flatMap_cons]
    rfl
  have hlast : ofRoot d.id (lastOfEach (tuple [idColumn]) (childStage late) d.children) =
      lastOfEach (tuple [idColumn]) (childStage late) d.children :=
    List.filter_eq_self.2 fun c hc =>
      decide_eq_true (d.children_root c ((lastOfEach_sublist _ _ _).subset hc))
  have hrest : ofRoot d.id (lastOfEach (tuple [idColumn]) [] (childStage late)) = [] :=
    ofRoot_eq_nil (fun c hc => (lastOfEach_sublist _ _ _).subset hc) hlate
  refine (dedup_perm_lastOfEach.filter _).trans (List.Perm.of_eq ?_)
  rw [hstage, lastOfEach_append, lastOfEach_append, List.append_nil, List.append_nil,
    List.filter_append, List.filter_append]
  refine (congrArg₂ _ rfl (congrArg₂ _ hlast hrest)).trans ?_
  rw [List.append_nil]
  rfl

end Publish

/-! ## What replaces what -/

section Replaces

variable {early late : List (Document V)} {d : Document V} {columns : List String}

omit [LinearOrder V] in
theorem tuple_id_eq {a b : Row V} :
    tuple [idColumn] a = tuple [idColumn] b ↔ a idColumn = b idColumn := by
  simp [tuple]

omit [LinearOrder V] in
theorem not_carried {c : Row V} {later : List (Row V)} :
    (∀ s ∈ later, tuple [idColumn] s ≠ tuple [idColumn] c) ↔ ¬Carried c later := by
  unfold Carried
  push Not
  exact forall₂_congr fun s _ => not_congr tuple_id_eq

theorem superseded_iff :
    ofRoot d.id (lastOfEach (tuple [idColumn]) (childStage (d :: late)) (childStage early)) = [] ↔
      ∀ c later, c :: later <:+ childStage early → c rootIdColumn = some d.id →
        Carried c (later ++ childStage (d :: late)) := by
  rw [ofRoot, List.filter_eq_nil_iff]
  constructor
  · intro hnone c later hsuffix hroot
    by_contra hnot
    exact hnone c (mem_lastOfEach.2 ⟨later, hsuffix, not_carried.2 hnot⟩) (decide_eq_true hroot)
  · intro hall c hc hroot
    obtain ⟨later, hsuffix, hnot⟩ := mem_lastOfEach.1 hc
    exact not_carried.1 hnot (hall c later hsuffix (of_decide_eq_true hroot))

theorem last_iff :
    lastOfEach (tuple [idColumn]) (childStage late) d.children = d.children ↔
      ∀ c later, c :: later <:+ d.children → ¬Carried c (later ++ childStage late) := by
  rw [lastOfEach_eq_self]
  exact forall₃_congr fun c later _ => not_carried

/-- The survivors are the last delivery's children only if they are those very rows. -/
theorem survivors_perm_iff (hid : idColumn ∈ columns) :
    ((ofRoot d.id (lastOfEach (tuple [idColumn]) (childStage (d :: late)) (childStage early)) ++
      lastOfEach (tuple [idColumn]) (childStage late) d.children).map (pick columns)).Perm
      (d.children.map (pick columns)) ↔ Replaces early d late := by
  constructor
  · intro hperm
    -- a survivor of an earlier delivery has an identity the last one does not have
    have hnone : ofRoot d.id
        (lastOfEach (tuple [idColumn]) (childStage (d :: late)) (childStage early)) = [] := by
      refine List.eq_nil_iff_forall_not_mem.2 fun c hc => ?_
      have hmem : pick columns c ∈ d.children.map (pick columns) :=
        hperm.mem_iff.1 (List.mem_map_of_mem (List.mem_append_left _ hc))
      obtain ⟨c', hc', hsame⟩ := List.mem_map.1 hmem
      have hcell : c' idColumn = c idColumn := by
        have := congrFun hsame idColumn
        rwa [pick, pick, if_pos hid, if_pos hid] at this
      obtain ⟨later, -, hnot⟩ := mem_lastOfEach.1 (List.mem_of_mem_filter hc)
      have hlater : c' ∈ later ++ childStage (d :: late) :=
        List.mem_append_right _ (List.mem_flatMap.2 ⟨d, List.mem_cons_self, hc'⟩)
      exact hnot c' hlater (tuple_id_eq.2 hcell)
    have hlength := hperm.length_eq
    rw [hnone, List.nil_append, List.length_map, List.length_map] at hlength
    exact ⟨superseded_iff.1 hnone,
      last_iff.1 ((lastOfEach_sublist _ _ _).eq_of_length hlength)⟩
  · intro hreplaces
    rw [superseded_iff.2 hreplaces.superseded, last_iff.2 hreplaces.last]
    exact List.Perm.refl _

end Replaces

/-! ## Runs -/

section Runs

variable {h : DocumentTable V} {units : List (DocumentUnit V)} {target : List (Row V)} {id : V}

omit [LinearOrder V] in
/-- A table with the shredder's identity has no declared order of survivors. -/
theorem dedupSort_none {unit : DocumentUnit V} (hunit : h.Accepts unit) :
    h.options.dedupSortFor h.table = none := by
  obtain ⟨⟨⟩, -, hvalid⟩ := Fallible.bind_ok.1 hunit.valid
  obtain ⟨⟨⟩, -, hvalid⟩ := Fallible.bind_ok.1 hvalid
  obtain ⟨⟨⟩, hsort, -⟩ := Fallible.bind_ok.1 hvalid
  cases hs : h.options.dedupSortFor h.table with
  | none => rfl
  | some s =>
    simp only [checkDedupSortColumn, hs] at hsort
    obtain ⟨⟨⟩, hrefused, -⟩ := Fallible.bind_ok.1 hsort
    rw [refuse_ok, hunit.identity] at hrefused
    cases hrefused

theorem publishAll_other (hunits : ∀ unit ∈ units, h.Accepts unit)
    (hnot : ∀ unit ∈ units, ¬unit.Delivers id) :
    ofRoot id (h.publishAll units target) = ofRoot id target := by
  induction units generalizing target with
  | nil => rfl
  | cons unit units ih =>
    rw [DocumentTable.publishAll, List.foldl_cons, ← DocumentTable.publishAll,
      ih (fun u hu => hunits u (by simp [hu])) fun u hu => hnot u (by simp [hu])]
    exact publish_other (hunits unit (by simp)) (hnot unit (by simp))

omit [LinearOrder V] in
theorem idColumn_mem {unit : DocumentUnit V} (hunit : h.Accepts unit) :
    idColumn ∈ unit.schema.columnNames := by
  have hidentity := hunit.identity
  rw [TableFacts.of] at hidentity
  obtain ⟨c, hc, hname⟩ := List.any_eq_true.1 hidentity
  exact List.mem_map.2 ⟨c, hc, of_decide_eq_true hname⟩

/-- The children after a run are those of the root's last delivery exactly where it
replaces the earlier ones. -/
theorem holds_iff (hunits : ∀ unit ∈ units, h.Accepts unit) {unit : DocumentUnit V}
    {early late : List (Document V)} {d : Document V}
    (hlast : LastDelivery units id unit early d late) :
    h.Holds unit d (h.publishAll units target) ↔
      ((h.plan unit).flags d.root = false → Replaces early d late) := by
  obtain ⟨pre, post, rfl, hpost⟩ := hlast.inUnit
  obtain rfl := hlast.root
  have hunit := hunits unit (by simp)
  have hdelivers : unit.Delivers d.id := ⟨d, by simp [hlast.around], rfl⟩
  have hafter : ofRoot d.id (h.publishAll (pre ++ unit :: post) target) =
      (ofRoot d.id (h.inserted unit)).map (pick unit.schema.columnNames) := by
    have hrun : h.publishAll (pre ++ unit :: post) target =
        h.publishAll post (h.publish (h.publishAll pre target) unit) := by
      rw [DocumentTable.publishAll, List.foldl_append, List.foldl_cons]
      rfl
    rw [hrun, publishAll_other (fun u hu => hunits u (by simp [hu])) hpost,
      publish_delivered hunit hdelivers]
  rw [DocumentTable.Holds, hafter, ofRoot_inserted hlast.around hlast.last, dedupSort_none hunit]
  by_cases hflag : (h.plan unit).flags d.root = true
  · simp [hflag]
  · rw [if_neg hflag, if_neg hflag, hlast.around]
    have hsurvivors := (ofRoot_survivors early h.dialect hlast.last).map
      (pick unit.schema.columnNames)
    refine Iff.trans ⟨hsurvivors.symm.trans, hsurvivors.trans⟩ ?_
    rw [survivors_perm_iff (idColumn_mem hunit)]
    simp [hflag]

/-- After a run every root has the children it is owed exactly where each root's last
delivery is flagged or replaces the earlier ones of its unit. -/
theorem documents_exact_iff (hunits : ∀ unit ∈ units, h.Accepts unit) :
    h.Exact units id target (h.publishAll units target) ↔
      ∀ unit early d late, LastDelivery units id unit early d late →
        (h.plan unit).flags d.root = false → Replaces early d late := by
  constructor
  · intro hexact unit early d late hlast
    exact (holds_iff hunits hlast).1 (hexact.delivered unit early d late hlast)
  · intro hreplaces
    refine ⟨fun unit early d late hlast => ?_, fun hnot => publishAll_other hunits hnot⟩
    exact (holds_iff hunits hlast).2 (hreplaces unit early d late hlast)

end Runs

/-! An order delivered twice in one unit, the second time without its second line. -/

def lineColumns : List Column :=
  [⟨idColumn, .scalar .utf8, false⟩, ⟨rootIdColumn, .scalar .utf8, false⟩,
    ⟨"amount", .scalar .int64, true⟩]

def lines : TableSchema := ⟨"orders__lines", some "orders", lineColumns⟩

def orders : TableSchema := ⟨"orders", none, [⟨idColumn, .scalar .utf8, false⟩]⟩

def orderLines : DocumentTable Nat where
  dialect := .duckdb
  options := {}
  table := "orders__lines"
  root := "orders"
  key := []
  yes := 1
  clock := ⟨0, fun _ => 0⟩

def line (id order amount : Nat) : Row Nat := fun c =>
  if c = idColumn then some id else if c = rootIdColumn then some order
  else if c = "amount" then some amount else none

def order (id : Nat) (lines : List (Nat × Nat)) : Document Nat where
  id := id
  root c := if c = idColumn then some id else none
  children := lines.map fun l => line l.1 id l.2
  root_id := rfl
  children_root := by
    intro c hc
    obtain ⟨l, -, rfl⟩ := List.mem_map.1 hc
    rfl

def orderUnit (documents : List (Document Nat)) : DocumentUnit Nat :=
  ⟨lines, orders, documents⟩

theorem orderUnit_accepted (documents : List (Document Nat)) :
    orderLines.Accepts (orderUnit documents) :=
  ⟨by decide, (by decide : (TableFacts.of lines).hasIdentity = true),
    (by decide : rootIdColumn ∈ lines.columnNames),
    (by decide : validateMerge {} lines "orders__lines" [] (TableFacts.of lines) = .ok ())⟩

theorem dropped_line_stays :
    ¬orderLines.Exact [orderUnit [order 1 [(11, 5), (12, 6)], order 1 [(11, 5)]]] 1 []
      (orderLines.publishAll
        [orderUnit [order 1 [(11, 5), (12, 6)], order 1 [(11, 5)]]] []) := by
  intro hexact
  have hlast : LastDelivery [orderUnit [order 1 [(11, 5), (12, 6)], order 1 [(11, 5)]]] 1
      (orderUnit [order 1 [(11, 5), (12, 6)], order 1 [(11, 5)]]) [order 1 [(11, 5), (12, 6)]]
      (order 1 [(11, 5)]) [] := ⟨⟨[], [], rfl, by simp⟩, rfl, rfl, by simp⟩
  have hlength := List.Perm.length_eq (hexact.delivered _ _ _ _ hlast)
  exact absurd hlength (by decide)

theorem repeated_order_exact :
    orderLines.Exact [orderUnit [order 1 [(11, 5)], order 1 [(11, 5), (12, 6)]]] 1 []
      (orderLines.publishAll [orderUnit [order 1 [(11, 5)], order 1 [(11, 5), (12, 6)]]] []) ↔
      ∀ unit early d late,
        LastDelivery [orderUnit [order 1 [(11, 5)], order 1 [(11, 5), (12, 6)]]] 1 unit early d late →
          (orderLines.plan unit).flags d.root = false → Replaces early d late :=
  documents_exact_iff fun unit hunit => by
    rw [List.mem_singleton.1 hunit]
    exact orderUnit_accepted _

end Sqlcore
