import Mathlib.Data.Nat.Basic
import RdltConnectors.Sqlcore.Survivors

/-!
# Upsert and delete-insert agree

Both keyed arms keep one survivor of each staged key and drop it where it is
flagged. Delete-insert removes every staged key and inserts what is kept; upsert
removes the flagged keys and updates or inserts the rest. On a target keyed by the
merge key the two leave the same rows, whichever dialect spells them.
-/
namespace Sqlcore

open Sql

variable {V : Type}

/-! ## The flag -/

/-- What is kept is what is not flagged, in every spelling. -/
theorem hardDelete_keep [DecidableEq V] (yes : V) (column : String) (rootSchema : TableSchema) (dialect : Dialect)
    (r : Row V) :
    ((HardDelete.new yes column rootSchema dialect).keep r).holds =
      !((HardDelete.new yes column rootSchema dialect).flagged r).holds := by
  unfold HardDelete.new
  split
  · cases dialect <;> cases hr : r column <;>
      simp [Dialect.flagSet, Dialect.flagUnset, hr, Truth.holds, Sql.eq, Sql.distinct]
  · cases hr : r column <;> simp [isNull, isNotNull, hr]

/-- The dialects flag the same rows. -/
theorem hardDelete_flagged [DecidableEq V] (yes : V) (column : String) (rootSchema : TableSchema)
    (dialect dialect' : Dialect) (r : Row V) :
    ((HardDelete.new yes column rootSchema dialect).flagged r).holds =
      ((HardDelete.new yes column rootSchema dialect').flagged r).holds := by
  have hset (d : Dialect) (cell : Option V) :
      (d.flagSet yes cell).holds = decide (cell = some yes) := by
    cases d <;> cases cell <;> simp [Dialect.flagSet, Truth.holds, Sql.eq]
  unfold HardDelete.new
  split
  · rw [hset, hset]
  · rfl

/-- The flag and the survivor filter are complementary. -/
def MergePlan.KeepsUnflagged (plan : MergePlan V) : Prop :=
  ∀ hd, plan.hardDelete = some hd → ∀ r, (hd.keep r).holds = !(hd.flagged r).holds

theorem kept_eq {plan : MergePlan V} (hplan : plan.KeepsUnflagged) (rows : List (Row V)) :
    plan.kept rows = rows.filter fun r => !plan.flags r := by
  unfold MergePlan.kept MergePlan.flags
  cases h : plan.hardDelete with
  | none => simp
  | some hd => exact List.filter_congr fun r _ => hplan hd h r

/-! ## Keys of picked rows -/

theorem tuple_pick {key columns : List String} (hkey : ∀ c ∈ key, c ∈ columns) (r : Row V) :
    tuple key (pick columns r) = tuple key r :=
  List.map_congr_left fun c hc => by rw [pick, if_pos (hkey c hc)]

/-- An update of other columns leaves the key. -/
theorem tuple_update {key columns : List String} (incoming t : Row V) :
    tuple key ((UpsertAction.update (columns.filter fun c => !key.contains c)).apply incoming t) =
      tuple key t := by
  refine List.map_congr_left fun c hc => ?_
  have hnot : c ∉ columns.filter fun c => !key.contains c := by
    intro h
    simp [hc] at h
  exact if_neg hnot

/-- An update of all columns but the key, of a row of the key, is the incoming row. -/
theorem update_eq {key columns : List String} {incoming t : Row V}
    (hincoming : ∀ c, c ∉ columns → incoming c = none) (ht : ∀ c, c ∉ columns → t c = none)
    (hsame : tuple key incoming = tuple key t) :
    (UpsertAction.update (columns.filter fun c => !key.contains c)).apply incoming t = incoming := by
  funext c
  by_cases hset : c ∈ columns.filter fun c => !key.contains c
  · exact if_pos hset
  · refine (if_neg hset).trans ?_
    by_cases hcol : c ∈ columns
    · have hmem : c ∈ key := by
        by_contra hnot
        exact hset (List.mem_filter.2 ⟨hcol, by simpa using hnot⟩)
      exact (List.map_inj_left.1 hsame c hmem).symm
    · rw [ht c hcol, hincoming c hcol]

/-! ## The two arms -/

/-- A target that the publish keys: its columns are the schema's, its keys are
complete and no two rows share one. -/
structure Keyed (key columns : List String) (target : List (Row V)) : Prop where
  columns : ∀ t ∈ target, ∀ c, c ∉ columns → t c = none
  complete : ∀ t ∈ target, Complete (tuple key t)
  nodup : (target.map (tuple key)).Nodup

theorem Keyed.unique [DecidableEq V] {key columns : List String} {target : List (Row V)}
    (h : Keyed key columns target) : Unique (tuple key) target := by
  refine (List.pairwise_map.1 h.nodup).imp fun {a b} hne => ?_
  rw [Bool.eq_false_iff]
  exact fun hconf => hne (conflicts_iff.1 hconf).1

theorem Keyed.filter {key columns : List String} {target : List (Row V)}
    (h : Keyed key columns target) (cond : Row V → Bool) : Keyed key columns (target.filter cond) where
  columns t ht := h.columns t (List.mem_filter.1 ht).1
  complete t ht := h.complete t (List.mem_filter.1 ht).1
  nodup := h.nodup.sublist (List.filter_sublist.map _)

variable [LinearOrder V] {plan : MergePlan V} {db : Relations V}

/-- The rows whose keys were not staged, and the rows that were staged and kept. -/
def MergePlan.keyedResult (plan : MergePlan V) (db : Relations V) : List (Row V) :=
  (db.target.filter fun t => !decide (tuple plan.key t ∈ db.stage.map (tuple plan.key))) ++
    (plan.kept (plan.deduped plan.key db)).map (pick plan.columns)

theorem deleteInsert_result (plan : MergePlan V) (db : Relations V)
    (hkeyed : Keyed plan.key plan.columns db.target) :
    (runAll (keyedDeleteInsertSql plan) db).target = plan.keyedResult db := by
  have hdelete : deleteWhere (fun t => isIn (tuple plan.key t) (db.stage.map (tuple plan.key)))
      db.target = db.target.filter fun t =>
        !decide (tuple plan.key t ∈ db.stage.map (tuple plan.key)) := by
    refine List.filter_congr fun t ht => ?_
    rw [Bool.not_inj_iff, Bool.eq_iff_iff, holds_isIn, decide_eq_true_iff]
    exact and_iff_left (hkeyed.complete t ht)
  exact congrArg (· ++ _) hdelete

omit [LinearOrder V] in
/-- With nothing left to update a row is updated in no column. -/
theorem action_apply (set : List String) :
    (if set.isEmpty then UpsertAction.nothing else .update set).apply (V := V) =
      (UpsertAction.update set).apply := by
  split
  · next h =>
    rw [List.isEmpty_iff.1 h]
    funext incoming t c
    simp [UpsertAction.apply]
  · rfl

/-- However the upsert is spelled. -/
theorem upsertStmt_target {dialect : Dialect} {columns keys : List String} {source : Query V}
    {action : UpsertAction}
    (haction : action.apply (V := V) =
      (UpsertAction.update (columns.filter fun c => !keys.contains c)).apply)
    (hkeys : ∀ c ∈ keys, c ∈ columns) (hnodup : ((source db).map (tuple keys)).Nodup) :
    (dialect.upsertStmt columns keys source action db).target =
      onConflict (tuple keys) action.apply ((source db).map (pick columns)) db.target := by
  cases dialect with
  | postgres => rfl
  | duckdb => rfl
  | snowflake =>
    refine mergeInto_eq_onConflict ?_ fun row _ t _ => ?_
    · have hsame : ((source db).map (pick columns)).map (tuple keys) =
          (source db).map (tuple keys) := by
        rw [List.map_map]
        exact List.map_congr_left fun r _ => tuple_pick hkeys r
      rw [hsame]
      exact hnodup
    · rw [haction]
      exact tuple_update row t

/-- The target once the flagged keys are deleted. -/
def MergePlan.unflagged (plan : MergePlan V) (db : Relations V) : List (Row V) :=
  db.target.filter fun t =>
    !decide (tuple plan.key t ∈ ((plan.deduped plan.key db).filter plan.flags).map (tuple plan.key))

theorem delete_flagged {hd : HardDelete V} (hhd : plan.hardDelete = some hd)
    (hkeyed : Keyed plan.key plan.columns db.target) :
    deleteWhere (fun t => isIn (tuple plan.key t)
      ((selectWhere hd.flagged (plan.deduped plan.key db)).map (tuple plan.key))) db.target =
      plan.unflagged db := by
  refine List.filter_congr fun t ht => ?_
  rw [Bool.not_inj_iff, Bool.eq_iff_iff, holds_isIn, decide_eq_true_iff]
  have hflags : plan.flags = fun r => (hd.flagged r).holds := by
    funext r
    rw [MergePlan.flags, hhd]
    rfl
  rw [hflags]
  exact and_iff_left (hkeyed.complete t ht)

theorem upsert_target (hkeys : ∀ c ∈ plan.key, c ∈ plan.columns) (hplan : plan.KeepsUnflagged)
    (hkeyed : Keyed plan.key plan.columns db.target) :
    (runAll (keyedUpsertSql plan) db).target =
      onConflict (tuple plan.key) (UpsertAction.update (plan.updateSet plan.key)).apply
        ((plan.kept (plan.deduped plan.key db)).map (pick plan.columns)) (plan.unflagged db) := by
  have hnodup : ((plan.kept (plan.deduped plan.key db)).map (tuple plan.key)).Nodup := by
    rw [kept_eq hplan]
    exact dedup_keys_nodup.sublist (List.filter_sublist.map _)
  have haction := action_apply (V := V) (plan.updateSet plan.key)
  cases hhd : plan.hardDelete with
  | none =>
    have hrun : runAll (keyedUpsertSql plan) db = plan.dialect.upsertStmt plan.columns plan.key
        (fun db => plan.kept (plan.deduped plan.key db))
        (if (plan.updateSet plan.key).isEmpty then .nothing else .update (plan.updateSet plan.key))
        db := by
      simp only [keyedUpsertSql, hhd]
      rfl
    have hall : plan.unflagged db = db.target := by
      refine List.filter_eq_self.2 fun t _ => ?_
      simp [MergePlan.flags, hhd]
    rw [hrun, upsertStmt_target haction hkeys hnodup, haction, hall]
  | some hd =>
    have hrun : (runAll (keyedUpsertSql plan) db).target = (plan.dialect.upsertStmt plan.columns
        plan.key (fun _ => plan.kept (plan.deduped plan.key db))
        (if (plan.updateSet plan.key).isEmpty then .nothing else .update (plan.updateSet plan.key))
        { db with target := plan.unflagged db }).target := by
      rw [← delete_flagged hhd hkeyed]
      simp only [keyedUpsertSql, hhd, MergePlan.dedupOnce]
      cases plan.dialect <;> rfl
    rw [hrun, upsertStmt_target haction hkeys hnodup, haction]

/-- A staged key has a survivor, which is flagged or kept. -/
theorem staged_iff (hplan : plan.KeepsUnflagged) {k : List (Option V)} :
    k ∈ db.stage.map (tuple plan.key) ↔
      k ∈ ((plan.deduped plan.key db).filter plan.flags).map (tuple plan.key) ∨
        k ∈ (plan.kept (plan.deduped plan.key db)).map (tuple plan.key) := by
  have hkeys : k ∈ (plan.dialect.dedupSubquery plan.key plan.dedupSort db.stage).map (tuple plan.key) ↔
      k ∈ db.stage.map (tuple plan.key) := mem_dedup_keys
  rw [← hkeys, kept_eq hplan]
  constructor
  · intro hk
    obtain ⟨r, hr, rfl⟩ := List.mem_map.1 hk
    by_cases hflag : plan.flags r = true
    · exact .inl (List.mem_map_of_mem (List.mem_filter.2 ⟨hr, hflag⟩))
    · exact .inr (List.mem_map_of_mem (List.mem_filter.2 ⟨hr, by simpa using hflag⟩))
  · rintro (hk | hk)
    · exact (List.filter_sublist.map _).subset hk
    · exact (List.filter_sublist.map _).subset hk

theorem conflicts_picked (hkeys : ∀ c ∈ plan.key, c ∈ plan.columns) {t : Row V}
    (ht : Complete (tuple plan.key t)) {rows : List (Row V)} :
    ((rows.map (pick plan.columns)).any fun row => conflicts (tuple plan.key) row t) = true ↔
      tuple plan.key t ∈ rows.map (tuple plan.key) := by
  rw [List.any_map, List.any_eq_true, List.mem_map]
  refine exists_congr fun r => and_congr_right fun _ => ?_
  rw [Function.comp, conflicts_iff, tuple_pick hkeys]
  exact and_iff_left_of_imp fun h => h ▸ ht

/-- The upsert leaves the rows of the keys that were not staged and the kept ones. -/
theorem upsert_result (plan : MergePlan V) (db : Relations V)
    (hkeys : ∀ c ∈ plan.key, c ∈ plan.columns) (hplan : plan.KeepsUnflagged)
    (hkeyed : Keyed plan.key plan.columns db.target) :
    (runAll (keyedUpsertSql plan) db).target.Perm (plan.keyedResult db) := by
  have hrest : Keyed plan.key plan.columns (plan.unflagged db) := hkeyed.filter _
  have hpicked (c : String) (hc : c ∉ plan.columns) (r : Row V) : pick plan.columns r c = none :=
    if_neg hc
  rw [upsert_target hkeys hplan hkeyed]
  refine (onConflict_perm (P := fun t => ∀ c, c ∉ plan.columns → t c = none) hrest.unique
    hrest.columns ?_ ?_ ?_).trans ?_
  · intro row hrow c hc
    obtain ⟨r, -, rfl⟩ := List.mem_map.1 hrow
    exact hpicked c hc r
  · rw [List.map_map, kept_eq hplan]
    have hsame : ((plan.deduped plan.key db).filter fun r => !plan.flags r).map
        (tuple plan.key ∘ pick plan.columns) =
        ((plan.deduped plan.key db).filter fun r => !plan.flags r).map (tuple plan.key) :=
      List.map_congr_left fun r _ => tuple_pick hkeys r
    rw [hsame]
    exact dedup_keys_nodup.sublist (List.filter_sublist.map _)
  · intro row hrow t ht hconf
    obtain ⟨r, -, rfl⟩ := List.mem_map.1 hrow
    exact update_eq (fun c hc => hpicked c hc r) ht (conflicts_iff.1 hconf).1
  · refine List.Perm.append_right _ (List.Perm.of_eq ?_)
    rw [MergePlan.unflagged, List.filter_filter]
    refine List.filter_congr fun t ht => ?_
    have hcomplete := hkeyed.complete t ht
    rw [← Bool.not_or, Bool.not_inj_iff, Bool.eq_iff_iff, Bool.or_eq_true, decide_eq_true_iff,
      decide_eq_true_iff, staged_iff hplan, conflicts_picked hkeys hcomplete, Or.comm]

/-! ## The agreement -/

theorem buildMergePlan_keepsUnflagged {yes : V} {dialect : Dialect} {options : DestinationOptions}
    {table : String} {schema : TableSchema} {key : List String} {root : String}
    {rootSchema : Option TableSchema} :
    (buildMergePlan yes dialect options table schema key root rootSchema).KeepsUnflagged := by
  intro hd hhd r
  obtain ⟨col, -, hcol⟩ := Option.bind_eq_some_iff.1 hhd
  obtain ⟨rootSchema', -, rfl⟩ := Option.map_eq_some_iff.1 hcol
  exact hardDelete_keep yes col rootSchema' dialect r

/-- The rows left by delete-insert do not depend on the dialect. -/
theorem keyedResult_perm (yes : V) (d d' : Dialect) (options : DestinationOptions) (table : String)
    (schema : TableSchema) (key : List String) (root : String) (rootSchema : Option TableSchema)
    (db : Relations V) :
    ((buildMergePlan yes d options table schema key root rootSchema).keyedResult db).Perm
      ((buildMergePlan yes d' options table schema key root rootSchema).keyedResult db) := by
  refine List.Perm.append_left _ (List.Perm.map _ ?_)
  rw [kept_eq buildMergePlan_keepsUnflagged, kept_eq buildMergePlan_keepsUnflagged]
  have hflags : (buildMergePlan yes d options table schema key root rootSchema).flags =
      (buildMergePlan yes d' options table schema key root rootSchema).flags := by
    funext r
    unfold MergePlan.flags buildMergePlan
    cases options.hardDeleteFor root with
    | none => rfl
    | some col =>
      cases rootSchema with
      | none => rfl
      | some rootSchema => exact hardDelete_flagged yes col rootSchema d d' r
  rw [hflags]
  exact (dedup_perm d').filter _

/-- A keyed table's upsert and delete-insert leave the same rows in a target keyed by
the merge key, whatever was staged and however either is spelled. -/
theorem keyed_arms_agree (yes : V) (d d' : Dialect) (options : DestinationOptions) (table : String)
    (schema : TableSchema) (key : List String) (root : String) (rootSchema : Option TableSchema)
    (clock : Clock V) (db : Relations V)
    (hkeyed : (TableFacts.of schema).hasIdentity = false ∧ (TableFacts.of schema).isChild = false)
    (hvalid : validateMerge options schema table key (TableFacts.of schema) = .ok ())
    (htarget : Keyed key schema.columnNames db.target) :
    (runAll (renderArm (buildMergePlan yes d options table schema key root rootSchema) clock
      .keyedUpsert) db).target.Perm
    (runAll (renderArm (buildMergePlan yes d' options table schema key root rootSchema) clock
      .keyedDeleteInsert) db).target := by
  have hkeys := (validated_of_ok hkeyed hvalid).key
  have hupsert := upsert_result
    (buildMergePlan yes d options table schema key root rootSchema) db hkeys buildMergePlan_keepsUnflagged htarget
  have hinsert := deleteInsert_result
    (buildMergePlan yes d' options table schema key root rootSchema) db htarget
  have hsame := keyedResult_perm yes d d' options table schema key root rootSchema db
  exact hupsert.trans (hsame.trans (List.Perm.of_eq hinsert.symm))

/-! A delivery with a key staged twice, sorted with a NULL, and a key deleted. -/

def accountColumns : List Column :=
  [⟨"id", .scalar .int64, false⟩, ⟨"rank", .scalar .int64, true⟩, ⟨"gone", .scalar .bool, true⟩]

def accounts : TableSchema := ⟨"accounts", none, accountColumns⟩

def accountOptions : DestinationOptions where
  tables := [("accounts", { hardDelete := some "gone", dedupSort := some ⟨"rank", .desc⟩ })]

def account (id : Nat) (rank gone : Option Nat) : Row Nat := fun c =>
  if c = "id" then some id else if c = "rank" then rank else if c = "gone" then gone else none

def accountsDelivered : Relations Nat where
  target := [account 1 (some 10) none, account 2 (some 20) none]
  stage := [account 1 (some 12) none, account 1 none none, account 2 (some 21) (some 1),
    account 3 none none]
  rootStage := []
  dedup := []

theorem accounts_arms_agree :
    (runAll (renderArm (buildMergePlan 1 .snowflake accountOptions "accounts" accounts ["id"]
      "accounts" (some accounts)) ⟨0, fun _ => 0⟩ .keyedUpsert) accountsDelivered).target.Perm
    (runAll (renderArm (buildMergePlan 1 .postgres accountOptions "accounts" accounts ["id"]
      "accounts" (some accounts)) ⟨0, fun _ => 0⟩ .keyedDeleteInsert) accountsDelivered).target :=
  keyed_arms_agree 1 .snowflake .postgres accountOptions "accounts" accounts ["id"] "accounts"
    (some accounts) ⟨0, fun _ => 0⟩ accountsDelivered (by decide) (by decide)
    { columns := by
        intro t ht c hc
        simp only [accountsDelivered, List.mem_cons, List.not_mem_nil, or_false] at ht
        have hc : c ≠ "id" ∧ c ≠ "rank" ∧ c ≠ "gone" := by
          simpa [accounts, accountColumns, TableSchema.columnNames] using hc
        rcases ht with rfl | rfl <;> simp [account, hc]
      complete := by decide
      nodup := by decide }

end Sqlcore
