import Mathlib
import RdltConnectors.Postgres.ReplaceOnce

/-!
# The two faces of a full load

Append and replace tables land through a stage or directly in the target. The staged
face clears every replaced target of the session at the load's first commit; the direct
face clears a target at the load's first write of it. The two agree as long as the
targets to clear are written in the load's first unit, or hold nothing.
-/
namespace PgLoad

open Sqlcore

variable {V D : Type}

def fullLoadMode (replaced : String → Bool) (table : String) : WriteMode :=
  if replaced table then .replace else .append

/-- A row of the ensured columns. -/
def Shaped (schema : TableSchema) (r : Row V) : Prop := ∀ c, c ∉ schema.columnNames → r c = none

theorem pick_shaped {schema : TableSchema} {r : Row V} (h : Shaped schema r) :
    pick schema.columnNames r = r := by
  funext c
  unfold pick
  split
  · rfl
  · next hc => exact (h c hc).symm

theorem map_pick_shaped {schema : TableSchema} {rows : List (Row V)}
    (h : ∀ r ∈ rows, Shaped schema r) : rows.map (pick schema.columnNames) = rows :=
  (List.map_congr_left fun r hr => pick_shaped (h r hr)).trans (List.map_id' rows)

/-- What the staged face holds of the writes of the direct one. -/
structure SameRows (replaced : String → Bool) (tables : SessionTables) (writes : List (Write V))
    (staged : String → List (Row V)) : Prop where
  staged : ∀ t, staged t = rowsFor t writes
  ensured : ∀ w ∈ writes, ∃ schema,
    tables.lookup w.table = some (schema, fullLoadMode replaced w.table) ∧
      ∀ r ∈ w.rows, Shaped schema r
  replace : ∀ w ∈ writes, w.replace = replaced w.table
  modes : ∀ t entry, tables.lookup t = some entry → entry.2 = fullLoadMode replaced t

section Rows

variable {replaced : String → Bool} {tables : SessionTables} {writes : List (Write V)}
  {staged : String → List (Row V)} {t loadId : String} {db : Database V D}

theorem mem_rowsFor {r : Row V} : r ∈ rowsFor t writes ↔ ∃ w ∈ writes, w.table = t ∧ r ∈ w.rows := by
  unfold rowsFor
  simp only [List.mem_flatMap, List.mem_filter, decide_eq_true_eq, and_assoc]

theorem SameRows.replaces (h : SameRows replaced tables writes staged) (ht : replaced t = true) :
    Replaces t writes := fun w hw htable => by rw [h.replace w hw, htable, ht]

theorem SameRows.shaped (h : SameRows replaced tables writes staged) {schema : TableSchema}
    {mode : WriteMode} (hlook : tables.lookup t = some (schema, mode)) :
    ∀ r ∈ rowsFor t writes, Shaped schema r := by
  intro r hr
  obtain ⟨w, hw, rfl, hrow⟩ := mem_rowsFor.1 hr
  obtain ⟨schema', hlook', hshaped⟩ := h.ensured w hw
  rw [hlook] at hlook'
  obtain ⟨rfl, -⟩ := Prod.mk.inj (Option.some.inj hlook')
  exact hshaped r hrow

theorem SameRows.not_wrote (h : SameRows replaced tables writes staged)
    (hlook : tables.lookup t = none) : ¬wrote t writes = true := by
  intro hwrote
  obtain ⟨w, hw, htable⟩ := List.any_eq_true.1 hwrote
  obtain ⟨schema, hlook', -⟩ := h.ensured w hw
  rw [of_decide_eq_true htable, hlook] at hlook'
  cases hlook'

/-- Writes that replace nothing are appended. -/
theorem applyWrites_append_targets (h : ∀ w ∈ writes, w.table = t → w.replace = false) :
    (applyWrites loadId writes db).targets t = db.targets t ++ rowsFor t writes := by
  induction writes generalizing db with
  | nil => exact (List.append_nil _).symm
  | cons w writes ih =>
    rw [applyWrites, List.foldl_cons]
    refine (ih fun w' hw' => h w' (by simp [hw'])).trans ?_
    rw [rowsFor_cons]
    by_cases htable : w.table = t
    · have hkeep : w.replace = false := h w (by simp) htable
      subst htable
      rw [if_pos rfl, ← List.append_assoc, applyWrite, hkeep]
      exact congrArg (· ++ rowsFor w.table writes) (setTarget_targets _ _ _)
    · rw [if_neg htable, applyWrite_other loadId db w htable, List.nil_append]

variable [LinearOrder V]

/-- A replaced target when a unit is committed: either the unit clears it as the first of
its load, or there is nothing to clear, or the load has cleared it before. -/
def SafeTarget (loadId : String) (writes : List (Write V)) (db : Database V D) (t : String) : Prop :=
  (loadId, t) ∉ db.cleared →
    db.targets t = [] ∨ (db.loadCommitted loadId = false ∧ wrote t writes = true)

/-- The direct face: the targets are those of the writes. -/
theorem direct_targets (dest : Destination V) (metadata : CommitMeta D) (now : V)
    (h : SameRows replaced tables writes staged) (t : String) :
    (Delivery.apply dest .directToTarget db ⟨tables, writes, fun _ => [], metadata, now⟩).targets t =
      (applyWrites metadata.loadId writes db).targets t := by
  unfold Delivery.apply Sqlcore.publishUnit
  dsimp only
  cases hlook : tables.lookup t with
  | none => rfl
  | some entry =>
    obtain ⟨schema, mode⟩ := entry
    obtain rfl : mode = fullLoadMode replaced t := h.modes t _ hlook
    unfold fullLoadMode
    cases replaced t with
    | true => rfl
    | false => rfl

/-- The staged face: the rows are appended, to nothing at the first commit of a load
that replaces the table. -/
theorem staged_targets (dest : Destination V) (metadata : CommitMeta D) (now : V)
    (h : SameRows replaced tables writes staged) (t : String) :
    (Delivery.apply dest .staged db ⟨tables, [], staged, metadata, now⟩).targets t =
      (if replaced t && !db.loadCommitted metadata.loadId && (tables.lookup t).isSome then []
        else db.targets t) ++ rowsFor t writes := by
  unfold Delivery.apply Sqlcore.publishUnit
  dsimp only
  cases hlook : tables.lookup t with
  | none =>
    rw [rowsFor_of_not_wrote (h.not_wrote hlook), List.append_nil]
    simp
    rfl
  | some entry =>
    obtain ⟨schema, mode⟩ := entry
    obtain rfl : mode = fullLoadMode replaced t := h.modes t _ hlook
    have hrows : (staged t).map (pick schema.columnNames) = rowsFor t writes := by
      rw [h.staged t]
      exact map_pick_shaped (h.shaped hlook)
    unfold fullLoadMode
    cases hreplaced : replaced t with
    | true =>
      refine Eq.trans ?_ (congrArg _ hrows)
      simp [tableResult, usesStage]
      rfl
    | false =>
      refine Eq.trans ?_ (congrArg _ hrows)
      simp [tableResult, usesStage]
      rfl

/-- Both faces make the same of a target. -/
theorem apply_same (dest : Destination V) {db' : Database V D} {metadata : CommitMeta D} (now : V)
    (h : SameRows replaced tables writes staged) (htargets : db.targets t = db'.targets t)
    (hcommitted : db.loadCommitted metadata.loadId = db'.loadCommitted metadata.loadId)
    (hcleared : replaced t = true → (metadata.loadId, t) ∈ db.cleared →
      db.loadCommitted metadata.loadId = true)
    (hsafe : ∀ schema, tables.lookup t = some (schema, .replace) →
      SafeTarget metadata.loadId writes db t) :
    (Delivery.apply dest .directToTarget db ⟨tables, writes, fun _ => [], metadata, now⟩).targets t =
      (Delivery.apply dest .staged db' ⟨tables, [], staged, metadata, now⟩).targets t := by
  rw [direct_targets dest metadata now h, staged_targets dest metadata now h, ← hcommitted, ← htargets]
  cases hreplaced : replaced t with
  | false =>
    rw [applyWrites_append_targets fun w hw htable => by rw [h.replace w hw, htable, hreplaced]]
    simp
  | true =>
    rw [applyWrites_targets (h.replaces hreplaced)]
    cases hlook : tables.lookup t with
    | none =>
      have hnot := h.not_wrote hlook
      simp [hnot, rowsFor_of_not_wrote hnot]
    | some entry =>
      obtain ⟨schema, mode⟩ := entry
      have hmode : mode = .replace := by
        have hfixed := h.modes t _ hlook
        rwa [fullLoadMode, if_pos hreplaced] at hfixed
      subst hmode
      by_cases hin : (metadata.loadId, t) ∈ db.cleared
      · rw [hcleared hreplaced hin, if_pos hin]
        by_cases hwrote : wrote t writes = true
        · simp [hwrote]
        · simp [hwrote, rowsFor_of_not_wrote hwrote]
      · rw [if_neg hin]
        rcases hsafe schema hlook hin with hempty | ⟨hfirst, hwrote⟩
        · by_cases hwrote : wrote t writes = true
          · simp [hwrote, hempty]
          · simp [hwrote, hempty, rowsFor_of_not_wrote hwrote]
        · simp [hfirst, hwrote]

end Rows

/-! ## Sessions on both faces -/

/-- The same calls under both faces. -/
structure SameAttempt (replaced : String → Bool) (a b : Attempt V) : Prop where
  loadId : a.loadId = b.loadId
  tables : a.tables = b.tables
  unstaged : a.staged = fun _ => []
  unwritten : b.writes = []
  rows : SameRows replaced a.tables a.writes b.staged

inductive SameAttempts (replaced : String → Bool) : Option (Attempt V) → Option (Attempt V) → Prop where
  | none : SameAttempts replaced none none
  | some {a b : Attempt V} (same : SameAttempt replaced a b) :
      SameAttempts replaced (some a) (some b)

section Sessions

variable {replaced : String → Bool} {a b : Attempt V} {options : DestinationOptions}

theorem sameRows_nil {tables : SessionTables}
    (hmodes : ∀ t entry, tables.lookup t = some entry → entry.2 = fullLoadMode replaced t) :
    SameRows replaced tables ([] : List (Write V)) fun _ => [] :=
  ⟨fun _ => rfl, fun _ h => absurd h List.not_mem_nil, fun _ h => absurd h List.not_mem_nil, hmodes⟩

theorem same_fresh (loadId : String) :
    SameAttempt replaced (Attempt.fresh loadId : Attempt V) (Attempt.fresh loadId) :=
  ⟨rfl, rfl, rfl, rfl, sameRows_nil fun _ _ h => by cases h⟩

theorem same_rolledBack (h : SameAttempt replaced a b) :
    SameAttempt replaced (a.rolledBack fun _ => []) (b.rolledBack fun _ => []) :=
  ⟨h.loadId, h.tables, rfl, rfl, sameRows_nil h.rows.modes⟩

theorem same_delivered (h : SameAttempt replaced a b) :
    SameAttempt replaced (a.delivered options fun _ => [])
      (b.delivered options fun _ => []) :=
  ⟨h.loadId, h.tables, rfl, rfl, sameRows_nil h.rows.modes⟩

theorem fullLoadMode_isMerge (replaced : String → Bool) (t : String) :
    (fullLoadMode replaced t).isMerge = false := by
  unfold fullLoadMode
  cases replaced t with
  | true => rfl
  | false => rfl

/-- There are no full feeds among them. -/
theorem same_feeds (options : DestinationOptions) (h : SameAttempt replaced a b) (hsorted : a.tables.Sorted) :
    a.feeds options = [] ∧ b.feeds options = [] := by
  have hnone (rows : String → List (Row V)) : stagedFeeds options a.tables rows = [] := by
    refine List.eq_nil_iff_forall_not_mem.2 fun t ht => ?_
    obtain ⟨e, he, hfeed, -, rfl⟩ := mem_stagedFeeds.1 ht
    have hmode := h.rows.modes e.1 e.2 (lookup_of_mem hsorted.nodup he)
    rw [isFullFeed, hmode, fullLoadMode_isMerge] at hfeed
    cases hfeed
  exact ⟨hnone a.staged, (congrArg (stagedFeeds options · b.staged) h.tables).symm.trans
    (hnone b.staged)⟩

/-- Every stage is truncated that holds a row. -/
theorem same_truncated (h : SameAttempt replaced a b) :
    a.truncated .directToTarget = (fun _ => []) ∧ b.truncated .staged = fun _ => [] := by
  constructor
  · funext t
    unfold Attempt.truncated
    rw [h.unstaged]
    split
    · rfl
    · rfl
  · funext t
    unfold Attempt.truncated
    split
    · rfl
    · next hnot =>
      rw [h.rows.staged t]
      refine rowsFor_of_not_wrote (h.rows.not_wrote (lookup_eq_none_of_not_mem fun hmem => hnot ?_))
      obtain ⟨e, he, rfl⟩ := List.mem_map.1 hmem
      refine List.mem_map_of_mem (List.mem_filter.2 ⟨h.tables ▸ he, ?_⟩)
      rw [usesStage, decide_eq_true rfl, Bool.or_true]

theorem same_ensured (h : SameAttempt replaced a b) {schema : TableSchema}
    (hgrows : ∀ previous, a.tables.lookup schema.table = some previous →
      ∀ c ∈ previous.1.columnNames, c ∈ schema.columnNames) :
    SameAttempt replaced
      { a with tables :=
          a.tables.insert schema.table (schema, fullLoadMode replaced schema.table) }
      { b with tables :=
          b.tables.insert schema.table (schema, fullLoadMode replaced schema.table) } := by
  refine ⟨h.loadId, by rw [h.tables], h.unstaged, h.unwritten, h.rows.staged, fun w hw => ?_,
    h.rows.replace, fun t entry hentry => ?_⟩
  · obtain ⟨previous, hlook, hshaped⟩ := h.rows.ensured w hw
    rw [lookup_insert]
    by_cases htable : w.table = schema.table
    · rw [if_pos htable, htable]
      rw [htable] at hlook
      exact ⟨schema, rfl, fun r hr c hc => hshaped r hr c fun hin => hc (hgrows _ hlook c hin)⟩
    · rw [if_neg htable]
      exact ⟨previous, hlook, hshaped⟩
  · rw [lookup_insert] at hentry
    split at hentry
    · next htable =>
      obtain rfl := Option.some.inj hentry
      rw [htable]
    · exact h.rows.modes t entry hentry

theorem same_written (h : SameAttempt replaced a b) {table : String} {schema : TableSchema}
    {mode : WriteMode} {rows : List (Row V)} (hlook : a.tables.lookup table = some (schema, mode))
    (hshaped : ∀ r ∈ rows, Shaped schema r) :
    SameAttempt replaced (a.written .directToTarget table mode rows)
      (b.written .staged table mode rows) := by
  obtain rfl : mode = fullLoadMode replaced table := h.rows.modes table _ hlook
  have hdirect : usesStage (fullLoadMode replaced table) .directToTarget = false := by
    rw [usesStage, fullLoadMode_isMerge]
    rfl
  have hstaged : usesStage (fullLoadMode replaced table) .staged = true := by
    rw [usesStage, decide_eq_true rfl, Bool.or_true]
  unfold Attempt.written
  simp only [hdirect, hstaged, if_true]
  refine ⟨h.loadId, h.tables, h.unstaged, h.unwritten, fun t => ?_, fun w hw => ?_, fun w hw => ?_,
    h.rows.modes⟩
  · have happend : rowsFor t (a.writes ++ [⟨table, decide (fullLoadMode replaced table = .replace),
        rows⟩]) = rowsFor t a.writes ++ if t = table then rows else [] := by
      rw [rowsFor, List.filter_append, List.flatMap_append, ← rowsFor, ← rowsFor, rowsFor_cons]
      simp [rowsFor, eq_comm]
    refine Eq.trans ?_ happend.symm
    simp only [h.rows.staged]
    by_cases htable : t = table
    · rw [if_pos htable, if_pos htable, htable]
    · rw [if_neg htable, if_neg htable, List.append_nil]
  · rcases List.mem_append.1 hw with hw | hw
    · exact h.rows.ensured w hw
    · obtain rfl := List.mem_singleton.1 hw
      exact ⟨schema, hlook, hshaped⟩
  · rcases List.mem_append.1 hw with hw | hw
    · exact h.rows.replace w hw
    · obtain rfl := List.mem_singleton.1 hw
      unfold fullLoadMode
      cases replaced table with
      | true => rfl
      | false => rfl

end Sessions

/-! ## Loads one after another -/

def ofLoad (loadId : String) (units : List (Delivery V D)) : List (Delivery V D) :=
  units.filter fun u => u.metadata.loadId = loadId

def lastLoad (units : List (Delivery V D)) : Option String :=
  units.getLast?.map fun u => u.metadata.loadId

section Loads

variable {replaced : String → Bool} {loadId t : String} {units : List (Delivery V D)}
  {writes : List (Write V)} {db init : Database V D}

theorem applyWrites_cleared_other {other : String} (hne : loadId ≠ other) :
    (loadId, t) ∈ (applyWrites other writes db).cleared ↔ (loadId, t) ∈ db.cleared := by
  induction writes generalizing db with
  | nil => exact Iff.rfl
  | cons w writes ih =>
    rw [applyWrites, List.foldl_cons]
    refine ih.trans ?_
    unfold applyWrite prepare
    split
    · split
      · exact Iff.rfl
      · next hnew =>
        have hrecord : (recordCleared other w.table (db.setTarget w.table [])).cleared =
            db.cleared ++ [(other, w.table)] := if_neg hnew
        change (loadId, t) ∈ (recordCleared other w.table (db.setTarget w.table [])).cleared ↔ _
        rw [hrecord, List.mem_append, List.mem_singleton, Prod.mk.injEq]
        exact or_iff_left fun h => hne h.1
    · exact Iff.rfl

theorem ofLoad_append (loadId : String) (units : List (Delivery V D)) (u : Delivery V D) :
    ofLoad loadId (units ++ [u]) =
      ofLoad loadId units ++ if u.metadata.loadId = loadId then [u] else [] := by
  rw [ofLoad, List.filter_append]
  refine congrArg (ofLoad loadId units ++ ·) ?_
  by_cases h : u.metadata.loadId = loadId
  · simp [h]
  · simp [h]

theorem unitsWrote_append (t : String) (first second : List (Delivery V D)) :
    unitsWrote t (first ++ second) = (unitsWrote t first || unitsWrote t second) := List.any_append

theorem unitRows_append (t : String) (first second : List (Delivery V D)) :
    unitRows t (first ++ second) = unitRows t first ++ unitRows t second := List.flatMap_append

theorem exists_of_unitsWrote (h : unitsWrote t (ofLoad loadId units) = true) :
    ∃ u ∈ units, u.metadata.loadId = loadId := by
  obtain ⟨u, hu, -⟩ := List.any_eq_true.1 h
  exact ⟨u, (List.mem_filter.1 hu).1, of_decide_eq_true (List.mem_filter.1 hu).2⟩

variable [LinearOrder V]

/-- A load is on record for a replaced target once one of its units wrote it. -/
theorem contents_cleared (dest : Destination V) (ht : ∀ u ∈ units, Replaces t u.writes)
    (hnew : (loadId, t) ∉ init.cleared) :
    (loadId, t) ∈ (contents dest .directToTarget init units).cleared ↔
      unitsWrote t (ofLoad loadId units) = true := by
  induction units using List.reverseRecOn with
  | nil => exact iff_of_false hnew Bool.false_ne_true
  | append_singleton units u ih =>
    have ih := ih fun u' hu' => ht u' (by simp [hu'])
    rw [contents_append, ofLoad_append, unitsWrote_append, Bool.or_eq_true, ← ih]
    by_cases hload : u.metadata.loadId = loadId
    · rw [if_pos hload]
      subst hload
      refine (applyWrites_cleared (ht u (by simp))).trans (or_congr_right ?_)
      rw [unitsWrote, List.any_cons, List.any_nil, Bool.or_false]
    · rw [if_neg hload]
      refine (applyWrites_cleared_other (Ne.symm hload)).trans ?_
      exact (or_iff_left Bool.false_ne_true).symm

theorem loadCommitted_of_mem (dest : Destination V) (publish : FullLoadPublish)
    (h : ∃ u ∈ units, u.metadata.loadId = loadId) :
    (contents dest publish init units).loadCommitted loadId = true := by
  obtain ⟨u, hu, rfl⟩ := h
  rw [Database.loadCommitted, contents_receipts, List.any_append, Bool.or_eq_true]
  exact .inr (List.any_eq_true.2 ⟨u.key, List.mem_map_of_mem hu, decide_eq_true rfl⟩)

end Loads

/-! ## What the calls promise, and when the faces agree -/

/-- Loads follow one another and are new to the database, a table keeps its mode, a
session only appends columns, and a batch has the ensured ones. -/
def Promised (init : Database V D) (replaced : String → Bool) (l : Ledger V D) : Event V D → Prop
  | .connect loadId => (∀ t, (loadId, t) ∉ init.cleared) ∧
    ((∃ u ∈ l.units, u.metadata.loadId = loadId) → lastLoad l.units = some loadId)
  | .ensure schema mode => mode = fullLoadMode replaced schema.table ∧
    ∀ attempt previous, l.attempt = some attempt →
      attempt.tables.lookup schema.table = some previous →
        ∀ c ∈ previous.1.columnNames, c ∈ schema.columnNames
  | .write table rows => ∀ attempt entry, l.attempt = some attempt →
    attempt.tables.lookup table = some entry → ∀ r ∈ rows, Shaped entry.1 r
  | _ => True

variable [LinearOrder V]

/-- A fresh commit finds every replaced target of its session safe. -/
def CommitsSafely (dest : Destination V) (init : Database V D) (l : Ledger V D) : Event V D → Prop
  | .commit metadata _ | .commitUnacknowledged metadata _ =>
    ∀ attempt, l.attempt = some attempt → l.CommitsFresh init.receipts attempt metadata →
      ∀ t schema, attempt.tables.lookup t = some (schema, .replace) →
        SafeTarget attempt.loadId attempt.writes (contents dest .directToTarget init l.units) t
  | _ => True

/-- The targets that the load of the last unit has cleared hold its rows alone, and so do
the replaced targets of that unit's session. -/
structure Owned (dest : Destination V) (init : Database V D) (replaced : String → Bool)
    (l : Ledger V D) : Prop where
  replaces : ∀ u ∈ l.units, ∀ t, replaced t = true → Replaces t u.writes
  session : ∀ attempt, l.attempt = some attempt → (∀ t, (attempt.loadId, t) ∉ init.cleared) ∧
    ((∃ u ∈ l.units, u.metadata.loadId = attempt.loadId) → lastLoad l.units = some attempt.loadId)
  current : ∀ loadId, lastLoad l.units = some loadId → ∀ t, replaced t = true →
    (loadId, t) ∈ (contents dest .directToTarget init l.units).cleared →
      (contents dest .directToTarget init l.units).targets t = unitRows t (ofLoad loadId l.units)
  last : ∀ u, l.units.getLast? = some u → ∀ t schema, u.tables.lookup t = some (schema, .replace) →
    (contents dest .directToTarget init l.units).targets t =
      unitRows t (ofLoad u.metadata.loadId l.units)

section Steps

variable {dest : Destination V} {init : Database V D} {replaced : String → Bool} {l : Ledger V D}
  {attempt : Attempt V} {staged : String → List (Row V)} {metadata : CommitMeta D}

omit [LinearOrder V] in
theorem lastLoad_append (units : List (Delivery V D)) (u : Delivery V D) :
    lastLoad (units ++ [u]) = some u.metadata.loadId := by
  rw [lastLoad, List.getLast?_concat]
  rfl

/-- What a unit leaves in a target of which its load alone has rows. -/
theorem owned_target (h : Owned dest init replaced l) (hattempt : l.attempt = some attempt)
    (hrows : SameRows replaced attempt.tables attempt.writes staged) (now : V)
    (hload : metadata.loadId = attempt.loadId) {t : String} (ht : replaced t = true)
    (hown : (attempt.loadId, t) ∉ (contents dest .directToTarget init l.units).cleared →
      (contents dest .directToTarget init l.units).targets t = [] ∨ wrote t attempt.writes = true) :
    (contents dest .directToTarget init (l.units ++
      [⟨attempt.tables, attempt.writes, fun _ => [], metadata, now⟩])).targets t =
      unitRows t (ofLoad attempt.loadId l.units) ++ rowsFor t attempt.writes := by
  obtain ⟨hnew, hlast⟩ := h.session attempt hattempt
  have hcleared := contents_cleared dest (fun u hu => h.replaces u hu t ht) (hnew t)
  rw [contents_append, direct_targets dest metadata now hrows, hload,
    applyWrites_targets (hrows.replaces ht)]
  by_cases hin : (attempt.loadId, t) ∈ (contents dest .directToTarget init l.units).cleared
  · rw [if_pos hin, h.current attempt.loadId (hlast (exists_of_unitsWrote (hcleared.1 hin))) t ht hin]
    by_cases hwrote : wrote t attempt.writes = true
    · rw [if_pos hwrote]
    · rw [if_neg hwrote, rowsFor_of_not_wrote hwrote, List.append_nil]
  · rw [if_neg hin, unitRows_of_not_wrote fun hwrote => hin (hcleared.2 hwrote)]
    by_cases hwrote : wrote t attempt.writes = true
    · rw [if_pos hwrote]
    · rw [if_neg hwrote, rowsFor_of_not_wrote hwrote]
      exact (hown hin).resolve_right hwrote

theorem owned_deliver (h : Owned dest init replaced l) (hattempt : l.attempt = some attempt)
    (hrows : SameRows replaced attempt.tables attempt.writes staged) (now : V)
    (hload : metadata.loadId = attempt.loadId) (kept : String → List (Row V))
    (hsafe : ∀ t schema, attempt.tables.lookup t = some (schema, .replace) →
      SafeTarget attempt.loadId attempt.writes (contents dest .directToTarget init l.units) t) :
    Owned dest init replaced
      ⟨l.units ++ [⟨attempt.tables, attempt.writes, fun _ => [], metadata, now⟩], kept,
        some (attempt.delivered dest.options kept)⟩ := by
  have hunitRows (t : String) : unitRows t (ofLoad attempt.loadId (l.units ++
      [⟨attempt.tables, attempt.writes, fun _ => [], metadata, now⟩])) =
      unitRows t (ofLoad attempt.loadId l.units) ++ rowsFor t attempt.writes := by
    rw [ofLoad_append, if_pos hload, unitRows_append, unitRows, unitRows, List.flatMap_singleton]
  refine ⟨fun u hu t ht => ?_, fun a ha => ?_, fun loadId hlast t ht hin => ?_,
    fun u hu t schema hlook => ?_⟩
  · rcases List.mem_append.1 hu with hu | hu
    · exact h.replaces u hu t ht
    · rw [List.mem_singleton.1 hu]
      exact hrows.replaces ht
  · obtain rfl := Option.some.inj ha
    refine ⟨(h.session attempt hattempt).1, fun _ => ?_⟩
    exact (lastLoad_append l.units _).trans (congrArg some hload)
  · obtain rfl : attempt.loadId = loadId := by
      rw [lastLoad_append] at hlast
      exact hload.symm.trans (Option.some.inj hlast)
    rw [hunitRows]
    refine owned_target h hattempt hrows now hload ht fun hnot => .inr ?_
    rw [contents_append] at hin
    change (attempt.loadId, t) ∈ (applyWrites metadata.loadId attempt.writes _).cleared at hin
    rw [hload, applyWrites_cleared (hrows.replaces ht)] at hin
    exact hin.resolve_left hnot
  · rw [List.getLast?_concat] at hu
    obtain rfl := Option.some.inj hu
    have ht : replaced t = true := by
      have hmode := hrows.modes t _ hlook
      by_contra hnot
      rw [fullLoadMode, if_neg hnot] at hmode
      cases hmode
    change _ = unitRows t (ofLoad metadata.loadId _)
    rw [hload, hunitRows]
    exact owned_target h hattempt hrows now hload ht fun hnot =>
      (hsafe t schema hlook hnot).imp_right And.right

/-- A call that delivers no unit keeps what is owned. -/
theorem owned_attempt (h : Owned dest init replaced l) (kept : String → List (Row V))
    {known : Option (Attempt V)}
    (hsame : ∀ a, known = some a → ∃ a', l.attempt = some a' ∧ a.loadId = a'.loadId) :
    Owned dest init replaced ⟨l.units, kept, known⟩ := by
  refine ⟨h.replaces, fun a ha => ?_, h.current, h.last⟩
  obtain ⟨a', ha', hload⟩ := hsame a ha
  rw [hload]
  exact h.session a' ha'

/-- Both faces follow the same calls, and have made the same of the targets. -/
structure Faced (dest : Destination V) (init : Database V D) (replaced : String → Bool)
    (ld ls : Ledger V D) : Prop where
  targets : ∀ t, (contents dest .directToTarget init ld.units).targets t =
    (contents dest .staged init ls.units).targets t
  keys : ld.keys = ls.keys
  kept : ld.kept = (fun _ => []) ∧ ls.kept = fun _ => []
  attempt : SameAttempts replaced ld.attempt ls.attempt
  sorted : ∀ a, ld.attempt = some a → a.tables.Sorted
  owned : Owned dest init replaced ld

variable {ld ls : Ledger V D} {a b : Attempt V}

theorem faced_rollback (h : Faced dest init replaced ld ls) (hab : SameAttempt replaced a b)
    (hattempt : ld.attempt = some a) :
    Faced dest init replaced (ld.rollback a) (ls.rollback b) := by
  refine ⟨h.targets, h.keys, h.kept, ?_, fun a' ha' => ?_, owned_attempt h.owned _ fun a' ha' => ?_⟩
  · rw [Ledger.rollback, Ledger.rollback, h.kept.1, h.kept.2]
    exact .some (same_rolledBack hab)
  · obtain rfl := Option.some.inj ha'
    exact h.sorted a hattempt
  · obtain rfl := Option.some.inj ha'
    exact ⟨a, hattempt, rfl⟩

theorem faced_lose (h : Faced dest init replaced ld ls) :
    Faced dest init replaced { ld with attempt := none } { ls with attempt := none } :=
  ⟨h.targets, h.keys, h.kept, .none, fun _ ha => (by cases ha),
    owned_attempt h.owned _ fun _ ha => (by cases ha)⟩

/-- A redelivery leaves both stages empty. -/
theorem faced_redeliver (h : Faced dest init replaced ld ls) (hab : SameAttempt replaced a b)
    (hattempt : ld.attempt = some a) :
    Faced dest init replaced (ld.redeliver dest.options .directToTarget a)
      (ls.redeliver dest.options .staged b) := by
  have hstaged : Ledger.keptAfter .staged b ls.kept = fun _ => [] := (same_truncated hab).2
  have hdirect : Ledger.keptAfter .directToTarget a ld.kept = fun _ => [] := h.kept.1
  rw [Ledger.redeliver, Ledger.redeliver, hstaged, hdirect]
  refine ⟨h.targets, h.keys, ⟨rfl, rfl⟩, .some (same_delivered hab), fun a' ha' => ?_,
    owned_attempt h.owned _ fun a' ha' => ?_⟩
  · obtain rfl := Option.some.inj ha'
    exact h.sorted a hattempt
  · obtain rfl := Option.some.inj ha'
    exact ⟨a, hattempt, rfl⟩

/-- A fresh unit makes the same of every target. -/
theorem faced_deliver (h : Faced dest init replaced ld ls) (hab : SameAttempt replaced a b)
    (hattempt : ld.attempt = some a) (now : V) (hload : metadata.loadId = a.loadId)
    (hsafe : ∀ t schema, a.tables.lookup t = some (schema, .replace) →
      SafeTarget a.loadId a.writes (contents dest .directToTarget init ld.units) t) :
    Faced dest init replaced
      ⟨ld.units ++ [⟨a.tables, a.writes, fun _ => [], metadata, now⟩], fun _ => [],
        some (a.delivered dest.options fun _ => [])⟩
      ⟨ls.units ++ [⟨a.tables, [], b.staged, metadata, now⟩], fun _ => [],
        some (b.delivered dest.options fun _ => [])⟩ := by
  have hnew := (h.owned.session a hattempt).1
  have hcommitted : (contents dest .directToTarget init ld.units).loadCommitted metadata.loadId =
      (contents dest .staged init ls.units).loadCommitted metadata.loadId := by
    rw [Database.loadCommitted, Database.loadCommitted, contents_receipts, contents_receipts,
      ← Ledger.keys, ← Ledger.keys, h.keys]
  refine ⟨fun t => ?_, ?_, ⟨rfl, rfl⟩, .some (same_delivered hab), fun a' ha' => ?_,
    owned_deliver h.owned hattempt hab.rows now hload _ hsafe⟩
  · rw [contents_append, contents_append]
    refine apply_same dest now hab.rows (h.targets t) hcommitted (fun ht hin => ?_) ?_
    · rw [hload] at hin ⊢
      have hwrote := (contents_cleared dest (fun u hu => h.owned.replaces u hu t ht) (hnew t)).1 hin
      exact loadCommitted_of_mem dest .directToTarget (exists_of_unitsWrote hwrote)
    · rw [hload]
      exact hsafe t
  · rw [Ledger.keys, Ledger.keys, List.map_append, List.map_append, ← Ledger.keys, ← Ledger.keys, h.keys]
    rfl
  · obtain rfl := Option.some.inj ha'
    exact h.sorted a hattempt

theorem faced_commit (h : Faced dest init replaced ld ls) (hab : SameAttempt replaced a b)
    (hattempt : ld.attempt = some a) (now : V)
    (hsafe : ld.CommitsFresh init.receipts a metadata →
      ∀ t schema, a.tables.lookup t = some (schema, .replace) →
        SafeTarget a.loadId a.writes (contents dest .directToTarget init ld.units) t) :
    Faced dest init replaced (ld.commit dest.options .directToTarget init.receipts a metadata now)
      (ls.commit dest.options .staged init.receipts b metadata now) := by
  have hfeeds := same_feeds dest.options hab (h.sorted a hattempt)
  obtain ⟨hdirect, hstaged⟩ := same_truncated hab
  unfold Ledger.commit
  rw [← hab.loadId, ← h.keys, hfeeds.1, hfeeds.2]
  by_cases hload : metadata.loadId ≠ a.loadId
  · rw [if_pos hload, if_pos hload]
    exact faced_rollback h hab hattempt
  · rw [if_neg hload, if_neg hload]
    by_cases hkey : (metadata.loadId, metadata.commitSeq.toInt64) ∈ init.receipts ++ ld.keys
    · rw [if_pos hkey, if_pos hkey]
      exact faced_redeliver h hab hattempt
    · rw [if_neg hkey, if_neg hkey]
      simp only [List.not_mem_nil, false_and, exists_false, if_false, hdirect, hstaged, hab.unstaged,
        hab.unwritten, ← hab.tables]
      exact faced_deliver h hab hattempt now (not_not.1 hload) (hsafe ⟨not_not.1 hload, hkey⟩)

theorem faced_step (event : Event V D) (h : Faced dest init replaced ld ls)
    (hpromised : Promised init replaced ld event) (hsafe : CommitsSafely dest init ld event) :
    Faced dest init replaced (ld.step dest.options .directToTarget init.receipts event)
      (ls.step dest.options .staged init.receipts event) := by
  have hconnect (loadId : String) (hnew : (∀ t, (loadId, t) ∉ init.cleared) ∧
      ((∃ u ∈ ld.units, u.metadata.loadId = loadId) → lastLoad ld.units = some loadId)) :
      Faced dest init replaced ⟨ld.units, fun _ => [], some (Attempt.fresh loadId)⟩
        ⟨ls.units, fun _ => [], some (Attempt.fresh loadId)⟩ := by
    refine ⟨h.targets, h.keys, ⟨rfl, rfl⟩, .some (same_fresh loadId), fun a' ha' => ?_,
      h.owned.replaces, fun a' ha' => ?_, h.owned.current, h.owned.last⟩
    · obtain rfl := Option.some.inj ha'
      exact List.Pairwise.nil
    · obtain rfl := Option.some.inj ha'
      exact hnew
  have hattempts := h.attempt
  obtain ⟨ud, kd, ad⟩ := ld
  obtain ⟨us, ks, as⟩ := ls
  cases hattempts with
  | none =>
    cases event with
    | connect loadId => exact hconnect loadId hpromised
    | _ => exact h
  | @some a b hab =>
    cases event with
    | connect loadId => exact hconnect loadId hpromised
    | crash => exact faced_lose h
    | ensure schema mode =>
      obtain ⟨rfl, hgrows⟩ := hpromised
      simp only [Ledger.step]
      split
      · refine ⟨h.targets, h.keys, h.kept, .some (same_ensured hab (hgrows a · rfl)), fun a' ha' => ?_,
          owned_attempt h.owned _ fun a' ha' => ?_⟩
        · obtain rfl := Option.some.inj ha'
          exact insert_sorted (h.sorted a rfl) _ _
        · obtain rfl := Option.some.inj ha'
          exact ⟨a, rfl, rfl⟩
      · exact faced_rollback h hab rfl
    | write table rows =>
      simp only [Ledger.step, Ledger.write, ← hab.tables]
      cases hlook : a.tables.lookup table with
      | none => exact h
      | some entry =>
        obtain ⟨schema, mode⟩ := entry
        refine ⟨h.targets, h.keys, h.kept,
          .some (same_written hab hlook (hpromised a _ rfl hlook)), fun a' ha' => ?_,
          owned_attempt h.owned _ fun a' ha' => ?_⟩
        · obtain rfl := Option.some.inj ha'
          rw [Attempt.written_tables]
          exact h.sorted a rfl
        · obtain rfl := Option.some.inj ha'
          exact ⟨a, rfl, Attempt.written_loadId _ _ _ _ _⟩
    | writeFails table =>
      simp only [Ledger.step, Ledger.writeFails, ← hab.tables]
      cases a.tables.lookup table with
      | none => exact h
      | some entry => exact faced_rollback h hab rfl
    | commit metadata now => exact faced_commit h hab rfl now (hsafe a rfl)
    | commitUnacknowledged metadata now => exact faced_lose (faced_commit h hab rfl now (hsafe a rfl))
    | fail => exact faced_rollback h hab rfl

end Steps

theorem faced_empty (dest : Destination V) (init : Database V D) (replaced : String → Bool) :
    Faced dest init replaced Ledger.empty Ledger.empty :=
  ⟨fun _ => rfl, rfl, ⟨rfl, rfl⟩, .none, fun _ ha => (by cases ha),
    fun _ hu => absurd hu List.not_mem_nil, fun _ ha => (by cases ha), fun _ hlast => (by cases hlast),
    fun _ hlast => (by cases hlast)⟩

/-- As long as every fresh commit finds its replaced targets safe, both faces make the same
of every table, and a replaced table of the last unit's session holds the rows of that
unit's load. -/
theorem faces_agree (dest : Destination V) (init : Database V D) (replaced : String → Bool)
    (events : List (Event V D))
    (hpromised : Transition.Meets (Ledger.step dest.options .directToTarget init.receipts)
      (Promised init replaced) Ledger.empty events)
    (hsafe : Transition.Meets (Ledger.step dest.options .directToTarget init.receipts)
      (CommitsSafely dest init) Ledger.empty events) :
    let direct := Transition.run (World.step dest .directToTarget) ⟨init.clearStages, none⟩ events
    let staged := Transition.run (World.step dest .staged) ⟨init.clearStages, none⟩ events
    let l := Transition.run (Ledger.step dest.options .directToTarget init.receipts) Ledger.empty events
    (∀ t, direct.db.targets t = staged.db.targets t) ∧
    ∀ u, l.units.getLast? = some u → ∀ t schema, u.tables.lookup t = some (schema, .replace) →
      direct.db.targets t = unitRows t (ofLoad u.metadata.loadId l.units) := by
  intro direct staged l
  have hdirect : direct.db = _ := (matches_run dest .directToTarget init events).db
  have hstaged : staged.db = _ := (matches_run dest .staged init events).db
  have hfaced : Faced dest init replaced l
      (Transition.run (Ledger.step dest.options .staged init.receipts) Ledger.empty events) :=
    Transition.run_simulation_of_meets (Faced dest init replaced)
      (fun _ _ event h hboth => faced_step event h hboth.1 hboth.2) (faced_empty dest init replaced)
      (Transition.meets_and hpromised hsafe)
  rw [hdirect, hstaged]
  exact ⟨hfaced.targets, hfaced.owned.last⟩

/-! A second load that does not write its replaced table in its first unit. If it ensured
the table before, only the staged face clears it; if it ensures it later, only the direct
face does. -/

def oneLoad (loadId : String) (id : Nat) : List (Event Nat Unit) :=
  [.connect loadId, .ensure itemSchema .replace, .write "items" [item id],
    .commit ⟨loadId, 0, "p", ()⟩ 0]

def nothingStored : Database Nat Unit := ⟨fun _ => [], fun _ => [], fun _ => none, [], []⟩

def itemIds (publish : FullLoadPublish) (events : List (Event Nat Unit)) : List (Option Nat) :=
  ((Transition.run (World.step server publish) ⟨nothingStored.clearStages, none⟩
    events).db.targets "items").map fun r => r "id"

def twoLoads : List (Event Nat Unit) := oneLoad "first" 1 ++ oneLoad "second" 9

def itemsReplaced (table : String) : Bool := table = "items"

theorem lookup_items {entry : TableSchema × WriteMode} {t : String}
    (h : List.lookup t [("items", itemSchema, WriteMode.replace)] = some entry) :
    t = "items" ∧ entry = (itemSchema, .replace) := by
  rw [List.lookup_cons] at h
  split at h
  · next heq => exact ⟨eq_of_beq heq, (Option.some.inj h).symm⟩
  · cases h

/-- The calls of one load, after loads other than it. -/
theorem oneLoad_promised (id : Nat) {loadId : String} {l : Ledger Nat Unit}
    (hnew : ¬∃ u ∈ l.units, u.metadata.loadId = loadId) :
    Transition.Meets (Ledger.step server.options .directToTarget nothingStored.receipts)
      (Promised nothingStored itemsReplaced) l (oneLoad loadId id) := by
  refine ⟨⟨fun _ => List.not_mem_nil, fun h => absurd h hnew⟩, ⟨rfl, ?_⟩, ?_, trivial, trivial⟩
  · intro attempt previous hattempt hprevious
    obtain rfl := Option.some.inj hattempt
    cases hprevious
  · intro attempt entry hattempt hentry r hr c hc
    obtain rfl := Option.some.inj hattempt
    obtain ⟨-, rfl⟩ := lookup_items hentry
    obtain rfl := List.mem_singleton.1 hr
    exact if_neg fun hid => hc (List.mem_singleton.2 hid)

theorem oneLoad_safe (id : Nat) {loadId : String} {l : Ledger Nat Unit}
    (hnew : ¬∃ u ∈ l.units, u.metadata.loadId = loadId) :
    Transition.Meets (Ledger.step server.options .directToTarget nothingStored.receipts)
      (CommitsSafely server nothingStored) l (oneLoad loadId id) := by
  refine ⟨trivial, trivial, trivial, ?_, trivial⟩
  intro attempt hattempt _ t schema hlook _
  obtain rfl := Option.some.inj hattempt
  obtain ⟨rfl, -⟩ := lookup_items hlook
  refine .inr ⟨?_, rfl⟩
  refine Bool.eq_false_iff.2 fun hcommitted => hnew ?_
  rw [Database.loadCommitted, contents_receipts] at hcommitted
  obtain ⟨key, hkey, hload⟩ := List.any_eq_true.1 hcommitted
  obtain ⟨u, hu, rfl⟩ := List.mem_map.1 hkey
  exact ⟨u, hu, of_decide_eq_true hload⟩

theorem two_loads_agree :
    itemIds .directToTarget twoLoads = [some 9] ∧ itemIds .staged twoLoads = [some 9] := by
  have hnew : ¬∃ u ∈ (Transition.run (Ledger.step server.options .directToTarget
      nothingStored.receipts) Ledger.empty (oneLoad "first" 1)).units,
      u.metadata.loadId = "second" := by
    decide
  have hagree := faces_agree server nothingStored itemsReplaced twoLoads
    ((Transition.meets_append _ _ _ _ _).2
      ⟨oneLoad_promised 1 fun ⟨_, hu, _⟩ => (by cases hu), oneLoad_promised 9 hnew⟩)
    ((Transition.meets_append _ _ _ _ _).2
      ⟨oneLoad_safe 1 fun ⟨_, hu, _⟩ => (by cases hu), oneLoad_safe 9 hnew⟩)
  have hdirect : itemIds .directToTarget twoLoads = [some 9] := by decide
  refine ⟨hdirect, Eq.trans ?_ hdirect⟩
  exact congrArg (List.map fun r : Row Nat => r "id") (hagree.1 "items").symm

def unwrittenItems : List (Event Nat Unit) :=
  oneLoad "first" 1 ++ [.connect "second", .ensure itemSchema .replace, .commit (secondLoad 0) 0]

def lateItems : List (Event Nat Unit) :=
  oneLoad "first" 1 ++ [.connect "second", .commit (secondLoad 0) 0, .ensure itemSchema .replace,
    .write "items" [item 9], .commit (secondLoad 1) 0]

theorem unwritten_items_differ :
    itemIds .directToTarget unwrittenItems = [some 1] ∧ itemIds .staged unwrittenItems = [] ∧
      itemIds .directToTarget lateItems = [some 9] ∧ itemIds .staged lateItems = [some 1, some 9] := by
  decide

end PgLoad
