import Mathlib
import RdltConnectors.Postgres.Ledger

/-!
# A replaced target is cleared once

The load's first committed write of a target empties it, and the clear is committed
with the rows. From then on the target holds the rows of the load's units, each once,
and no clear, rollback, crash or redelivery takes any of them away.
-/
namespace PgLoad

open Sqlcore

variable {V D : Type}

section Writes

variable {loadId table : String} {writes : List (Write V)} {db : Database V D}

/-- The rows that writes put into a table. -/
def rowsFor (table : String) (writes : List (Write V)) : List (Row V) :=
  (writes.filter fun w => w.table = table).flatMap Write.rows

def wrote (table : String) (writes : List (Write V)) : Bool := writes.any fun w => w.table = table

@[simp] theorem wrote_cons (table : String) (w : Write V) (writes : List (Write V)) :
    wrote table (w :: writes) = (decide (w.table = table) || wrote table writes) := rfl

theorem rowsFor_cons (table : String) (w : Write V) (writes : List (Write V)) :
    rowsFor table (w :: writes) =
      (if w.table = table then w.rows else []) ++ rowsFor table writes := by
  by_cases h : w.table = table
  · simp [rowsFor, h]
  · simp [rowsFor, h]

theorem rowsFor_of_not_wrote (h : ¬wrote table writes = true) : rowsFor table writes = [] := by
  induction writes with
  | nil => rfl
  | cons w writes ih =>
    rw [wrote_cons, Bool.or_eq_true, decide_eq_true_iff, not_or] at h
    rw [rowsFor_cons, if_neg h.1, ih h.2, List.nil_append]

/-- Every write of the table replaces it. -/
def Replaces (table : String) (writes : List (Write V)) : Prop :=
  ∀ w ∈ writes, w.table = table → w.replace = true

theorem prepare_targets_ne {other : String} (hne : table ≠ other) :
    (prepare loadId other db).targets table = db.targets table := by
  unfold prepare
  split
  · rfl
  · exact if_neg hne

theorem prepare_targets (loadId table : String) (db : Database V D) :
    (prepare loadId table db).targets table =
      if (loadId, table) ∈ db.cleared then db.targets table else [] := by
  unfold prepare
  split
  · rfl
  · exact if_pos rfl

theorem applyWrite_cleared (loadId : String) (db : Database V D) (w : Write V)
    (hreplace : w.table = table → w.replace = true) :
    (loadId, table) ∈ (applyWrite loadId db w).cleared ↔
      (loadId, table) ∈ db.cleared ∨ w.table = table := by
  unfold applyWrite
  by_cases h : w.replace = true
  · rw [if_pos h]
    refine (prepare_cleared loadId db table).trans (or_congr_right eq_comm)
  · rw [if_neg h]
    exact (or_iff_left fun htable => h (hreplace htable)).symm

theorem applyWrite_other (loadId : String) (db : Database V D) (w : Write V) (hne : w.table ≠ table) :
    (applyWrite loadId db w).targets table = db.targets table := by
  unfold applyWrite
  refine (setTarget_targets_ne _ _ hne.symm).trans ?_
  split
  · exact prepare_targets_ne hne.symm
  · rfl

theorem applyWrite_replace (loadId : String) (db : Database V D) (w : Write V)
    (htable : w.table = table) (hreplace : w.replace = true) :
    (applyWrite loadId db w).targets table =
      (if (loadId, table) ∈ db.cleared then db.targets table else []) ++ w.rows := by
  subst htable
  unfold applyWrite
  rw [if_pos hreplace]
  exact (setTarget_targets _ _ _).trans (congrArg (· ++ w.rows) (prepare_targets loadId w.table db))

theorem applyWrites_cleared (h : Replaces table writes) :
    (loadId, table) ∈ (applyWrites loadId writes db).cleared ↔
      (loadId, table) ∈ db.cleared ∨ wrote table writes = true := by
  induction writes generalizing db with
  | nil => exact ⟨.inl, fun hcleared => hcleared.resolve_right Bool.false_ne_true⟩
  | cons w writes ih =>
    rw [applyWrites, List.foldl_cons]
    refine (ih fun w' hw' => h w' (by simp [hw'])).trans ?_
    rw [applyWrite_cleared loadId db w (h w (by simp)), wrote_cons, Bool.or_eq_true,
      decide_eq_true_iff, or_assoc]

/-- The writes of a transaction: the first clears what the load has not cleared. -/
theorem applyWrites_targets (h : Replaces table writes) :
    (applyWrites loadId writes db).targets table =
      if wrote table writes then
        (if (loadId, table) ∈ db.cleared then db.targets table else []) ++ rowsFor table writes
      else db.targets table := by
  induction writes generalizing db with
  | nil => rfl
  | cons w writes ih =>
    rw [applyWrites, List.foldl_cons]
    refine (ih fun w' hw' => h w' (by simp [hw'])).trans ?_
    have hcleared := applyWrite_cleared loadId db w (h w (by simp))
    rw [wrote_cons, rowsFor_cons]
    by_cases htable : w.table = table
    · have hrows := applyWrite_replace loadId db w htable (h w (by simp) htable)
      rw [if_pos (hcleared.2 (.inr htable)), hrows, if_pos htable, decide_eq_true htable,
        Bool.true_or, if_pos rfl, List.append_assoc]
      by_cases hrest : wrote table writes = true
      · rw [if_pos hrest]
      · rw [if_neg hrest, rowsFor_of_not_wrote hrest, List.append_nil]
    · have hsame : (loadId, table) ∈ (applyWrite loadId db w).cleared ↔ (loadId, table) ∈ db.cleared :=
        hcleared.trans (or_iff_left htable)
      simp only [hsame, applyWrite_other loadId db w htable, decide_eq_false htable, Bool.false_or,
        if_neg htable, List.nil_append]

end Writes

/-! ## Runs of one load -/

/-- The call belongs to the load, and ensures the table as a replaced one if at all. -/
def Event.Within (loadId table : String) : Event V D → Prop
  | .connect id => id = loadId
  | .ensure schema mode => schema.table = table → mode = .replace
  | _ => True

def OnlyReplaced (table : String) (tables : SessionTables) : Prop :=
  ∀ entry, tables.lookup table = some entry → entry.2 = .replace

/-- The attempt and the units are the load's, and replace the table. -/
structure Steady (loadId table : String) (l : Ledger V D) : Prop where
  attempt : ∀ a, l.attempt = some a →
    a.loadId = loadId ∧ OnlyReplaced table a.tables ∧ Replaces table a.writes
  units : ∀ u ∈ l.units,
    u.metadata.loadId = loadId ∧ OnlyReplaced table u.tables ∧ Replaces table u.writes

section Run

variable {loadId table : String} {l : Ledger V D} {publish : FullLoadPublish}
  {options : DestinationOptions} {earlier : List (String × Int64)} {attempt : Attempt V}

theorem replaces_nil : Replaces table ([] : List (Write V)) := fun _ h => absurd h List.not_mem_nil

theorem onlyReplaced_nil : OnlyReplaced table [] := fun _ h => (by cases h)

theorem onlyReplaced_insert {tables : SessionTables} {schema : TableSchema} {mode : WriteMode}
    (h : OnlyReplaced table tables) (hmode : schema.table = table → mode = .replace) :
    OnlyReplaced table (tables.insert schema.table (schema, mode)) := by
  intro entry hentry
  rw [lookup_insert] at hentry
  split at hentry
  · next htable =>
    obtain rfl := Option.some.inj hentry
    exact hmode htable.symm
  · exact h entry hentry

theorem steady_rollback (h : Steady loadId table l) (hattempt : l.attempt = some attempt) :
    Steady loadId table (l.rollback attempt) := by
  obtain ⟨hload, honly, -⟩ := h.attempt attempt hattempt
  refine ⟨fun a ha => ?_, h.units⟩
  obtain rfl := Option.some.inj ha
  exact ⟨hload, honly, replaces_nil⟩

theorem replaces_written {rows : List (Row V)} {schema : TableSchema} {mode : WriteMode}
    {other : String} (honly : OnlyReplaced table attempt.tables) (h : Replaces table attempt.writes)
    (hlook : attempt.tables.lookup other = some (schema, mode)) :
    Replaces table (attempt.written publish other mode rows).writes := by
  unfold Attempt.written
  split
  · exact h
  · intro w hw htable
    rcases List.mem_append.1 hw with hw | hw
    · exact h w hw htable
    · rw [List.mem_singleton] at hw
      subst hw
      change other = table at htable
      subst htable
      exact decide_eq_true (honly _ hlook)

theorem steady_commit (h : Steady loadId table l) (hattempt : l.attempt = some attempt)
    (metadata : CommitMeta D) (now : V) :
    Steady loadId table (l.commit options publish earlier attempt metadata now) := by
  obtain ⟨hload, honly, hwrites⟩ := h.attempt attempt hattempt
  have hdelivered (units : List (Delivery V D)) (kept : String → List (Row V))
      (hunits : ∀ u ∈ units,
        u.metadata.loadId = loadId ∧ OnlyReplaced table u.tables ∧ Replaces table u.writes) :
      Steady loadId table (⟨units, kept, some (attempt.delivered options kept)⟩ : Ledger V D) := by
    refine ⟨fun a ha => ?_, hunits⟩
    obtain rfl := Option.some.inj ha
    exact ⟨hload, honly, replaces_nil⟩
  unfold Ledger.commit
  split
  · exact steady_rollback h hattempt
  · next hsame =>
    split
    · exact hdelivered l.units _ h.units
    · split
      · exact steady_rollback h hattempt
      · refine hdelivered _ _ fun u hu => ?_
        rcases List.mem_append.1 hu with hu | hu
        · exact h.units u hu
        · rw [List.mem_singleton] at hu
          subst hu
          exact ⟨(not_not.1 hsame).trans hload, honly, hwrites⟩

theorem steady_step (l : Ledger V D) (event : Event V D) (h : Steady loadId table l)
    (hwithin : event.Within loadId table) :
    Steady loadId table (l.step options publish earlier event) := by
  obtain ⟨units, kept, attempt⟩ := l
  cases attempt with
  | none =>
    cases event with
    | connect id =>
      refine ⟨fun a ha => ?_, h.units⟩
      obtain rfl := Option.some.inj ha
      exact ⟨hwithin, onlyReplaced_nil, replaces_nil⟩
    | _ => exact h
  | some attempt =>
    obtain ⟨hload, honly, hwrites⟩ := h.attempt attempt rfl
    cases event with
    | connect id =>
      refine ⟨fun a ha => ?_, h.units⟩
      obtain rfl := Option.some.inj ha
      exact ⟨hwithin, onlyReplaced_nil, replaces_nil⟩
    | crash => exact ⟨fun _ ha => (by cases ha), h.units⟩
    | ensure schema mode =>
      simp only [Ledger.step]
      split
      · refine ⟨fun a ha => ?_, h.units⟩
        obtain rfl := Option.some.inj ha
        exact ⟨hload, onlyReplaced_insert honly hwithin, hwrites⟩
      · exact steady_rollback h rfl
    | write other rows =>
      simp only [Ledger.step, Ledger.write]
      split
      · next schema mode hlook =>
        refine ⟨fun a ha => ?_, h.units⟩
        obtain rfl := Option.some.inj ha
        rw [Attempt.written_loadId, Attempt.written_tables]
        exact ⟨hload, honly, replaces_written honly hwrites hlook⟩
      · exact h
    | writeFails other =>
      simp only [Ledger.step, Ledger.writeFails]
      split
      · exact steady_rollback h rfl
      · exact h
    | commit metadata now => exact steady_commit h rfl metadata now
    | commitUnacknowledged metadata now =>
      exact ⟨fun _ ha => (by cases ha), (steady_commit h rfl metadata now).units⟩
    | fail => exact steady_rollback h rfl

theorem steady_empty : Steady loadId table (Ledger.empty : Ledger V D) :=
  ⟨fun _ ha => (by cases ha), fun _ hu => absurd hu List.not_mem_nil⟩

/-- Whether the load's units wrote the table, and the rows they put there. -/
def unitsWrote (table : String) (units : List (Delivery V D)) : Bool :=
  units.any fun u => wrote table u.writes

def unitRows (table : String) (units : List (Delivery V D)) : List (Row V) :=
  units.flatMap fun u => rowsFor table u.writes

theorem unitRows_of_not_wrote {units : List (Delivery V D)} (h : ¬unitsWrote table units = true) :
    unitRows table units = [] := by
  refine List.flatMap_eq_nil_iff.2 fun u hu => rowsFor_of_not_wrote fun hwrote => h ?_
  exact List.any_eq_true.2 ⟨u, hu, hwrote⟩

variable [LinearOrder V] {dest : Destination V} {db init : Database V D}
  {units : List (Delivery V D)}

/-- The publish itself leaves a replaced table to its writes. -/
theorem apply_targets {u : Delivery V D} (h : OnlyReplaced table u.tables) :
    (u.apply dest .directToTarget db).targets table =
      (applyWrites u.metadata.loadId u.writes db).targets table := by
  unfold Delivery.apply Sqlcore.publishUnit
  dsimp only
  cases hlook : u.tables.lookup table with
  | none => rfl
  | some entry =>
    obtain ⟨schema, mode⟩ := entry
    obtain rfl : mode = .replace := h _ hlook
    rfl

/-- The target is as it was until a unit writes it; from then on it holds the rows of
the units, and the clear is on record. -/
theorem contents_replaced (dest : Destination V) (hnew : (loadId, table) ∉ init.cleared)
    (hunits : ∀ u ∈ units,
      u.metadata.loadId = loadId ∧ OnlyReplaced table u.tables ∧ Replaces table u.writes) :
    ((loadId, table) ∈ (contents dest .directToTarget init units).cleared ↔
      unitsWrote table units = true) ∧
    (contents dest .directToTarget init units).targets table =
      if unitsWrote table units then unitRows table units else init.targets table := by
  induction units using List.reverseRecOn with
  | nil => exact ⟨iff_of_false hnew Bool.false_ne_true, rfl⟩
  | append_singleton units u ih =>
    obtain ⟨hcleared, htargets⟩ := ih fun u' hu' => hunits u' (by simp [hu'])
    obtain ⟨rfl, honly, hreplaces⟩ := hunits u (by simp)
    have hwrote : unitsWrote table (units ++ [u]) =
        (unitsWrote table units || wrote table u.writes) := by simp [unitsWrote]
    have hrows : unitRows table (units ++ [u]) = unitRows table units ++ rowsFor table u.writes := by
      simp [unitRows]
    rw [contents_append, hwrote, hrows]
    constructor
    · rw [Bool.or_eq_true]
      exact (applyWrites_cleared hreplaces).trans (or_congr_left hcleared)
    · rw [apply_targets honly, applyWrites_targets hreplaces, htargets]
      by_cases hlast : wrote table u.writes = true
      · by_cases hbefore : unitsWrote table units = true
        · simp [hlast, hbefore, hcleared]
        · simp [hlast, hbefore, hcleared, unitRows_of_not_wrote hbefore]
      · simp [hlast, rowsFor_of_not_wrote hlast]

/-- What the load has committed to the table stays where it is. -/
theorem contents_prefix {more : List (Delivery V D)} (hnew : (loadId, table) ∉ init.cleared)
    (hfront : units <+: more)
    (hunits : ∀ u ∈ more,
      u.metadata.loadId = loadId ∧ OnlyReplaced table u.tables ∧ Replaces table u.writes)
    (hcleared : (loadId, table) ∈ (contents dest .directToTarget init units).cleared) :
    (contents dest .directToTarget init units).targets table <+:
      (contents dest .directToTarget init more).targets table := by
  obtain ⟨rest, rfl⟩ := hfront
  obtain ⟨hcleared', hbefore⟩ := contents_replaced dest hnew
    fun u hu => hunits u (List.mem_append_left rest hu)
  have hwrote : unitsWrote table units = true := hcleared'.1 hcleared
  have hwrote' : unitsWrote table (units ++ rest) = true := by
    rw [unitsWrote, List.any_append, ← unitsWrote, hwrote, Bool.true_or]
  rw [hbefore, (contents_replaced dest hnew hunits).2, if_pos hwrote, if_pos hwrote', unitRows, unitRows,
    List.flatMap_append]
  exact List.prefix_append _ _

end Run

/-! ## The session of a load -/

section Session

variable [LinearOrder V]

/-- A redelivered unit changes nothing. -/
theorem redelivery_keeps {dest : Destination V} {init : Database V D} {w : World V D}
    {l : Ledger V D} (h : Matches dest .directToTarget init w l) (metadata : CommitMeta D) (now : V)
    (hreceipt : w.db.hasReceipt metadata.loadId metadata.commitSeq.toInt64 = true) :
    (w.step dest .directToTarget (.commit metadata now)).db = w.db := by
  have hreceipts : w.db.receipts = init.receipts ++ l.keys := by
    rw [h.db]
    exact contents_receipts l.units
  have hin : (metadata.loadId, metadata.commitSeq.toInt64) ∈ init.receipts ++ l.keys :=
    hreceipts ▸ of_decide_eq_true hreceipt
  have hsame : ((l.step dest.options .directToTarget init.receipts (.commit metadata now)).units =
      l.units) ∧
      (l.step dest.options .directToTarget init.receipts (.commit metadata now)).kept = l.kept := by
    obtain ⟨units, kept, attempt⟩ := l
    cases attempt with
    | none => exact ⟨rfl, rfl⟩
    | some attempt =>
      simp only [Ledger.step, Ledger.commit, if_pos hin]
      split
      · exact ⟨rfl, rfl⟩
      · exact ⟨rfl, rfl⟩
  rw [(matches_step (.commit metadata now) h).db, hsame.1, hsame.2, ← h.db]

/-- Of a load that only ever replaces the table: the target is untouched until a unit of
the load commits rows to it, with the record of their clear, and then holds the rows of
the load's units in order. Nothing the load has committed is cleared later, not even in
an open unit, and a redelivered unit adds nothing. -/
theorem replaced_once (dest : Destination V) (init : Database V D) (loadId table : String)
    (events : List (Event V D)) (hwithin : ∀ e ∈ events, e.Within loadId table)
    (hnew : (loadId, table) ∉ init.cleared) :
    let w := Transition.run (World.step dest .directToTarget) ⟨init.clearStages, none⟩ events
    let l := Transition.run (Ledger.step dest.options .directToTarget init.receipts) Ledger.empty events
    (w.db.targets table =
      if unitsWrote table l.units then unitRows table l.units else init.targets table) ∧
    ((loadId, table) ∈ w.db.cleared ↔ unitsWrote table l.units = true) ∧
    (∀ load unit, w.session = some load → load.unit = some unit →
      (loadId, table) ∈ w.db.cleared → w.db.targets table <+: unit.work.targets table) ∧
    (∀ first second, events = first ++ second →
      let earlier := Transition.run (World.step dest .directToTarget) ⟨init.clearStages, none⟩ first
      (loadId, table) ∈ earlier.db.cleared →
        earlier.db.targets table <+: w.db.targets table) ∧
    (∀ metadata now, w.db.hasReceipt metadata.loadId metadata.commitSeq.toInt64 = true →
      (w.step dest .directToTarget (.commit metadata now)).db = w.db) ∧
    w.db.receipts = init.receipts ++ l.keys ∧ l.Distinct init.receipts := by
  intro w l
  have hmatch : Matches dest .directToTarget init w l := matches_run dest .directToTarget init events
  have hsteady : Steady loadId table l := Transition.run_invariant
    (fun l e h hin => steady_step l e h hin) steady_empty (Transition.meets_of_forall _ hwithin)
  have hdistinct : l.Distinct init.receipts := Transition.run_invariant_always
    (Ledger.Distinct init.receipts) (fun l e h => distinct_step l e h)
    (distinct_empty init.receipts) events
  obtain ⟨hcleared, htargets⟩ := contents_replaced dest hnew hsteady.units
  have hwdb := hmatch.db
  refine ⟨?_, ?_, fun load unit hload hunit hin => ?_, fun first second hevents hin => ?_,
    fun metadata now => redelivery_keeps hmatch metadata now, ?_, hdistinct⟩
  · rw [hwdb]
    exact htargets
  · rw [hwdb]
    exact hcleared
  · obtain ⟨attempt, hattempt, hr, -⟩ := hmatch.remembers hload
    obtain ⟨hid, -, hreplaces⟩ := hsteady.attempt attempt hattempt
    have hwork : unit.work.targets table =
        (applyWrites loadId attempt.writes w.db).targets table := by
      rw [(hr.opened unit hunit).work, hid]
      rfl
    rw [hwork, applyWrites_targets hreplaces, if_pos hin]
    split
    · exact List.prefix_append _ _
    · exact List.prefix_rfl
  · subst hevents
    have hfirst := (matches_run dest .directToTarget init first).db
    let before := Transition.run (Ledger.step dest.options .directToTarget init.receipts) Ledger.empty
      first
    have hl : l = Transition.run (Ledger.step dest.options .directToTarget init.receipts) before
        second := Transition.run_append _ _ first second
    have hlater : before.units <+: l.units := by
      rw [hl]
      exact run_units before second
    rw [hfirst] at hin ⊢
    rw [hwdb]
    exact contents_prefix hnew hlater hsteady.units hin
  · rw [hwdb]
    exact contents_receipts l.units

end Session

/-! A replaced table that a load writes in its second unit only, and again after the
session lost the acknowledgement. -/

def itemSchema : TableSchema := ⟨"items", none, [⟨"id", .scalar .int64, false⟩]⟩

def item (id : Nat) : Row Nat := fun c => if c = "id" then some id else none

def server : Destination Nat := ⟨.postgres, {}, 1, fun _ => 0⟩

/-- What an earlier load left. -/
def itemsBefore : Database Nat Unit where
  targets t := if t = "items" then [item 1, item 2] else []
  stages _ := []
  state _ := none
  receipts := [("first", 0)]
  cleared := [("first", "items")]

def secondLoad (seq : UInt64) : CommitMeta Unit := ⟨"second", seq, "p", ()⟩

def reload : List (Event Nat Unit) :=
  [.connect "second", .ensure itemSchema .replace, .commit (secondLoad 0) 0,
    .write "items" [item 9], .commitUnacknowledged (secondLoad 1) 0,
    .connect "second", .ensure itemSchema .replace, .write "items" [item 9],
    .commit (secondLoad 1) 0]

theorem reload_replaces_items :
    (Transition.run (World.step server .directToTarget) ⟨itemsBefore.clearStages, none⟩
      reload).db.targets "items" = [item 9] :=
  (replaced_once server itemsBefore "second" "items" reload (by
    intro e he
    simp only [reload, List.mem_cons, List.not_mem_nil, or_false] at he
    rcases he with rfl | rfl | rfl | rfl | rfl | rfl | rfl | rfl | rfl <;>
      simp [Event.Within]) (by decide)).1

end PgLoad
