import RdltConnectors.Cursor.Resume

/-!
# Streams without a key

Without a usable primary key a row is known by a hash of all its cells, so rows
with the same content have the same key. A resume then takes every copy of a row
for delivered once one of them was. A stream that stops between two copies loses
the later ones; one that never does delivers each row as often as the table has it.
-/
namespace Cursor

open PgTypes

variable {D : Type}

/-! ## Row identity -/

/-- A fetched row: the rendering of each selected column, and its cursor column. -/
structure Record (D : Type) where
  cells : List (Option String)
  cursor : Option Scalar
  stored : D
  deriving DecidableEq, Repr

/-- The primary-key columns, if all of them are selected. -/
def keyColumns (primaryKey columns : List String) : Option (List Nat) :=
  if primaryKey.isEmpty then none else primaryKey.mapM fun key => columns.idxOf? key

/-- The key's components, or the hash of the whole row. -/
def rowKey (hash : List (Option String) → String) (keys : Option (List Nat))
    (cells : List (Option String)) : Key :=
  match keys with
  | some indices => indices.map fun index => (cells[index]?).join
  | none => [some (hash cells)]

def Record.row (hash : List (Option String) → String) (keys : Option (List Nat))
    (r : Record D) : Row D :=
  ⟨rowKey hash keys r.cells, r.cursor, r.stored⟩

/-- Rows known by a hash without collisions on the table are the same row if their
keys are. -/
theorem row_injOn {hash : List (Option String) → String} {records : List (Record D)}
    (hhash : ∀ a ∈ records, ∀ b ∈ records, hash a.cells = hash b.cells → a = b) :
    ∀ a ∈ records.map (Record.row hash none), ∀ b ∈ records.map (Record.row hash none),
      a.key = b.key → a = b := by
  simp only [List.mem_map]
  rintro _ ⟨a, ha, rfl⟩ _ ⟨b, hb, rfl⟩ hab
  rw [hhash a ha b hb (by simpa [Record.row, rowKey] using hab)]

/-! ## Reads of one table -/

variable [LinearOrder D]

/-- The rows delivered and the committed state, after any sequence of reads of one
table that were each stopped at a checkpoint or ran to their end. A read that stops
meets `ok` of the rows it handed over and the batches it was answered. -/
inductive Resumed (s : Stream D) (ok : List (Row D) → List (List (Row D)) → Prop)
    (table : List (Row D)) : List (Row D) → Option State → Prop where
  | start : Resumed s ok table [] none
  | stop {out : List (Row D)} {since : Option State} {plan : Incremental}
      (batches : List (List (Row D))) (pre : List (Push D)) {post : List (Push D)} {c : State} :
      Resumed s ok table out since → s.ServerAgrees table since → s.prepare since = .ok plan →
      plan.clauses.Returns s.evaluate table batches.flatten →
      (plan.read batches).pushes = pre ++ .checkpoint c :: post → ok (rowsOf pre) batches →
      Resumed s ok table (out ++ rowsOf pre) (some c)
  | complete {out : List (Row D)} {since : Option State} {plan : Incremental}
      (batches : List (List (Row D))) :
      Resumed s ok table out since → s.ServerAgrees table since → s.prepare since = .ok plan →
      plan.clauses.Returns s.evaluate table batches.flatten →
      (plan.read batches).result = .ok () →
      Resumed s ok table (out ++ rowsOf (plan.read batches).pushes)
        ((checkpoints (plan.read batches).pushes).getLast?.or since)

/-- Of the copies of a row the read handed over all it was answered, or none. -/
def Whole (delivered : List (Row D)) (batches : List (List (Row D))) : Prop :=
  ∀ r ∈ delivered, r.cursor ≠ none → batches.flatten.count r ≤ delivered.count r

/-- No row is delivered more often than the table has it. -/
structure NeverTwice (s : Stream D) (table out : List (Row D)) : Prop where
  bound : ∀ r : Row D, r.cursor ≠ none → out.count r ≤ table.count r
  selected : ∀ r ∈ out, r.cursor ≠ none → r ∈ table ∧ s.Selected r

/-- A read run to its end leaves every selected row delivered as often as the table
has it, and one that is not has met a NULL cursor it was told to fail on. -/
structure EveryCopy (s : Stream D) (table out : List (Row D)) (since : Option State) : Prop where
  complete : ∀ plan (batches : List (List (Row D))), s.ServerAgrees table since →
    s.prepare since = .ok plan → plan.clauses.Returns s.evaluate table batches.flatten →
    (plan.read batches).result = .ok () →
    ∀ r : Row D, r ∈ table → s.Selected r → r.cursor ≠ none →
      (out ++ rowsOf (plan.read batches).pushes).count r = table.count r
  fails : ∀ plan (batches : List (List (Row D))) e, s.ServerAgrees table since →
    s.prepare since = .ok plan → plan.clauses.Returns s.evaluate table batches.flatten →
    (plan.read batches).result = .error e →
    s.facts.config.nulls = .error ∧ ∃ r ∈ table, r.cursor = none

/-! ## Counting copies -/

variable {s : Stream D} {table out rows before after : List (Row D)} {since : Option State}
  {plan : Incremental} {c : State} {r : Row D}

theorem Placed.count_kept (h : Placed s table since plan rows) (hbefore : ∀ r ∈ before, r ∈ rows)
    (hnot : ¬ Covers s.directionMax since r) :
    (before.filter plan.tracker.spec.keeps).count r = before.count r := by
  by_cases hr : r ∈ before
  · exact List.count_filter (List.mem_filter.1 ((h.mem_kept hbefore).2 ⟨hr, hnot⟩)).2
  · rw [List.count_eq_zero_of_not_mem hr,
      List.count_eq_zero_of_not_mem fun hmem => hr (List.mem_filter.1 hmem).1]

theorem Placed.count_dropped (h : Placed s table since plan rows)
    (hbefore : ∀ r ∈ before, r ∈ rows) (hcov : Covers s.directionMax since r) :
    (before.filter plan.tracker.spec.keeps).count r = 0 :=
  List.count_eq_zero_of_not_mem fun hmem => ((h.mem_kept hbefore).1 hmem).2 hcov

/-- The window has every copy of a selected row that is not covered. -/
theorem Placed.count_rows (h : Placed s table since plan rows) (hr : r ∈ table)
    (hv : r.cursor ≠ none) (hsel : s.Selected r) (hnot : ¬ Covers s.directionMax since r) :
    rows.count r = table.count r := by
  have hmem := (h.window.2.2 r hr hv hnot).2 hsel
  rw [h.returns.perm.count_eq,
    List.count_filter (List.mem_filter.1 (h.returns.perm.mem_iff.1 hmem)).2]

/-- Only covered rows were delivered, none of them more often than the table has it. -/
structure Counted (s : Stream D) (table out : List (Row D)) (since : Option State) : Prop where
  unique : ∀ a ∈ table, ∀ b ∈ table, a.key = b.key → a = b
  mark : ∀ state, since = some state →
    ∃ r ∈ table, r.cursor = some state.watermark ∧ s.Selected r
  bound : ∀ r : Row D, r.cursor ≠ none → out.count r ≤ table.count r
  covered : ∀ r ∈ out, r.cursor ≠ none →
    r ∈ table ∧ s.Selected r ∧ Covers s.directionMax since r

/-- Every covered row was delivered as often as the table has it. -/
def Full (s : Stream D) (table out : List (Row D)) (since : Option State) : Prop :=
  ∀ r ∈ table, r.cursor ≠ none → s.Selected r → Covers s.directionMax since r →
    out.count r = table.count r

theorem Counted.count_eq_zero (hc : Counted s table out since) (hv : r.cursor ≠ none)
    (hnot : ¬ Covers s.directionMax since r) : out.count r = 0 :=
  List.count_eq_zero_of_not_mem fun hmem => hnot (hc.covered r hmem hv).2.2

theorem Counted.placed (hc : Counted s table out since) (hlag : s.facts.config.lag = none)
    (hagrees : s.ServerAgrees table since) (hplan : s.prepare since = .ok plan)
    (hret : plan.clauses.Returns s.evaluate table rows) : Placed s table since plan rows :=
  ⟨hlag, hc.unique, hc.mark, hagrees, hplan, hret⟩

/-- Stopped at a checkpoint, or ended on one. -/
theorem Counted.advance (hc : Counted s table out since) (h : Placed s table since plan rows)
    (hsplit : rows = before ++ after) (hreach : Reaches s.directionMax since rows before c) :
    Counted s table (out ++ before.filter plan.tracker.spec.keeps) (some c) := by
  obtain ⟨-, htable, hsel⟩ := h.window
  have hbefore : ∀ r ∈ before, r ∈ rows := fun r hr => by simp [hsplit, hr]
  have hselected {r : Row D} (hr : r ∈ before) (hv : r.cursor ≠ none)
      (hnot : ¬ Covers s.directionMax since r) : s.Selected r :=
    (hsel r (htable r (hbefore r hr)) hv hnot).1 (hbefore r hr)
  refine ⟨hc.unique, ?_, ?_, ?_⟩
  · rintro state ⟨⟩
    obtain ⟨r, hr, hv, hnot⟩ := hreach.mark
    exact ⟨r, htable r (hbefore r hr), hv, hselected hr (by simp [hv]) hnot⟩
  · intro r hv
    rw [List.count_append]
    by_cases hold : Covers s.directionMax since r
    · rw [h.count_dropped hbefore hold]
      exact hc.bound r hv
    · rw [hc.count_eq_zero hv hold, h.count_kept hbefore hold, Nat.zero_add]
      calc before.count r ≤ rows.count r := by rw [hsplit, List.count_append]; omega
        _ ≤ table.count r := by
          rw [h.returns.perm.count_eq]
          exact List.Sublist.count_le r List.filter_sublist
  · intro r hr hv
    rcases List.mem_append.1 hr with hr | hr
    · obtain ⟨hmem, hs, hcov⟩ := hc.covered r hr hv
      exact ⟨hmem, hs, hreach.mono r hcov⟩
    · obtain ⟨hr, hnot⟩ := (h.mem_kept hbefore).1 hr
      exact ⟨htable r (hbefore r hr), hselected hr hv hnot, hreach.own r hr hv⟩

/-- A stop that handed over all copies or none of each row keeps the counts full. -/
theorem Full.advance (hfull : Full s table out since) (hc : Counted s table out since)
    (h : Placed s table since plan rows) (hsplit : rows = before ++ after)
    (hreach : Reaches s.directionMax since rows before c)
    (hwhole : ∀ r ∈ before.filter plan.tracker.spec.keeps, r.cursor ≠ none →
      rows.count r ≤ (before.filter plan.tracker.spec.keeps).count r) :
    Full s table (out ++ before.filter plan.tracker.spec.keeps) (some c) := by
  have hbefore : ∀ r ∈ before, r ∈ rows := fun r hr => by simp [hsplit, hr]
  intro r hr hv hsel hcov
  rw [List.count_append]
  by_cases hold : Covers s.directionMax since r
  · rw [h.count_dropped hbefore hold, hfull r hr hv hsel hold, Nat.add_zero]
  · have hmem := (h.window.2.2 r hr hv hold).2 hsel
    have hkept := (h.mem_kept hbefore).2 ⟨(hreach.only r hmem hcov).resolve_left hold, hold⟩
    have hle := hwhole r hkept hv
    have hge := (hc.advance h hsplit hreach).bound r hv
    rw [List.count_append] at hge
    rw [h.count_rows hr hv hsel hold] at hle
    rw [hc.count_eq_zero hv hold] at hge ⊢
    omega

/-- Rows without a cursor value change no count. -/
theorem count_append_nulls {nulls : List (Row D)} (hnull : ∀ r ∈ nulls, r.cursor = none)
    (hv : r.cursor ≠ none) : (out ++ nulls).count r = out.count r := by
  rw [List.count_append, List.count_eq_zero_of_not_mem fun hmem => hv (hnull r hmem), Nat.add_zero]

theorem Counted.addNulls (hc : Counted s table out since) {nulls : List (Row D)}
    (hnull : ∀ r ∈ nulls, r.cursor = none) : Counted s table (out ++ nulls) since where
  unique := hc.unique
  mark := hc.mark
  bound r hv := by
    rw [count_append_nulls hnull hv]
    exact hc.bound r hv
  covered r hr hv :=
    hc.covered r ((List.mem_append.1 hr).resolve_right fun hmem => hv (hnull r hmem)) hv

/-! ## Every run -/

/-- Every run counts, and one whose stops are whole counts in full. -/
theorem counted_of_resumed (hlag : s.facts.config.lag = none)
    (hunique : ∀ a ∈ table, ∀ b ∈ table, a.key = b.key → a = b)
    {ok : List (Row D) → List (List (Row D)) → Prop} (h : Resumed s ok table out since) :
    Counted s table out since ∧
      ((∀ delivered batches, ok delivered batches → Whole delivered batches) →
        Full s table out since) := by
  induction h with
  | start =>
    exact ⟨⟨hunique, by simp, by simp, by simp⟩, fun _ r _ _ _ hcov => by simp [Covers] at hcov⟩
  | stop _ _ _ hagrees hplan hret hpushes hcut ih =>
    obtain ⟨hc, hfull⟩ := ih
    have hplaced := hc.placed hlag hagrees hplan hret
    obtain ⟨before, after, hsplit, hrows, hreach, -⟩ := hplaced.checkpoint hpushes
    rw [hrows] at hcut ⊢
    exact ⟨hc.advance hplaced hsplit hreach, fun hwhole =>
      (hfull hwhole).advance hc hplaced hsplit hreach (hwhole _ _ hcut)⟩
  | @complete out since plan batches _ hagrees hplan hret hok ih =>
    obtain ⟨hc, hfull⟩ := ih
    have hplaced := hc.placed hlag hagrees hplan hret
    obtain ⟨hrows, ⟨pre, c, hpushes⟩ | ⟨hnone, hnull⟩⟩ := hplaced.complete hok
    · obtain ⟨before, after, hsplit, hpre, hreach, -⟩ := hplaced.checkpoint hpushes
      have hlast : (checkpoints (pre ++ [.checkpoint c])).getLast? = some c := by
        simp [checkpoints]
      have hrowsOf : rowsOf (pre ++ [.checkpoint c]) = rowsOf pre := by simp [rowsOf]
      -- the last checkpoint stands behind everything the read kept
      have hall : before.filter plan.tracker.spec.keeps
          = batches.flatten.filter plan.tracker.spec.keeps := by
        rw [← hpre, ← hrowsOf, ← hpushes, hrows]
      rw [hpushes, hrowsOf, hlast, hpre]
      refine ⟨hc.advance hplaced hsplit hreach, fun hwhole =>
        (hfull hwhole).advance hc hplaced hsplit hreach fun r hr _ => ?_⟩
      rw [hall] at hr ⊢
      exact (List.count_filter (List.mem_filter.1 hr).2).ge
    · rw [hnone, hrows]
      exact ⟨hc.addNulls hnull, fun hwhole r hr hv hsel hcov => by
        rw [count_append_nulls hnull hv]
        exact hfull hwhole r hr hv hsel hcov⟩

/-- Full counts, and a read run to its end, leave no copy out. -/
theorem Full.everyCopy (hfull : Full s table out since) (hc : Counted s table out since)
    (hlag : s.facts.config.lag = none) : EveryCopy s table out since := by
  constructor
  · intro plan batches hagrees hplan hret hok r hr hsel hv
    have hplaced := hc.placed hlag hagrees hplan hret
    rw [(hplaced.complete hok).1, List.count_append]
    by_cases hold : Covers s.directionMax since r
    · rw [hplaced.count_dropped (fun _ h => h) hold, hfull r hr hv hsel hold, Nat.add_zero]
    · rw [hplaced.count_kept (fun _ h => h) hold, hc.count_eq_zero hv hold,
        hplaced.count_rows hr hv hsel hold, Nat.zero_add]
  · intro plan batches e hagrees hplan hret hfail
    obtain ⟨herror, hnull, -⟩ := (hc.placed hlag hagrees hplan hret).fails hfail
    exact ⟨herror, hnull⟩

/-- Streams without a usable key, whatever their tables hold: no run delivers a row
more often than the table has it, and a run whose stops separate no two copies
delivers every copy. -/
theorem keyless_delivers_every_copy (s : Stream D) (hlag : s.facts.config.lag = none)
    (hash : List (Option String) → String) (primaryKey columns : List String)
    (hkey : keyColumns primaryKey columns = none) (records : List (Record D))
    (hhash : ∀ a ∈ records, ∀ b ∈ records, hash a.cells = hash b.cells → a = b)
    (out : List (Row D)) (since : Option State) :
    let table := records.map (Record.row hash (keyColumns primaryKey columns))
    (Resumed s (fun _ _ => True) table out since → NeverTwice s table out) ∧
      (Resumed s Whole table out since → EveryCopy s table out since) := by
  intro table
  have hunique : ∀ a ∈ table, ∀ b ∈ table, a.key = b.key → a = b := by
    simp only [table, hkey]
    exact row_injOn hhash
  constructor
  · intro h
    obtain ⟨hc, -⟩ := counted_of_resumed hlag hunique h
    exact ⟨hc.bound, fun r hr hv => ⟨(hc.covered r hr hv).1, (hc.covered r hr hv).2.1⟩⟩
  · intro h
    obtain ⟨hc, hfull⟩ := counted_of_resumed hlag hunique h
    exact (hfull fun _ _ hcut => hcut).everyCopy hc hlag

/-! ## Twins -/

/-- The keyless row of a bigint cursor at 5. -/
def twin : Record Int := ⟨[some "5", some "x"], some (.int 5), 5⟩

def twinHash (cells : List (Option String)) : String := String.join (cells.map (·.getD ""))

def twins : List (Row Int) :=
  [twin, twin].map (Record.row twinHash (keyColumns [] ["at", "note"]))

theorem twins_returned (plan : Incremental) (batches : List (List (Row Int)))
    (hflat : batches.flatten = twins)
    (hall : twins.filter (plan.clauses.selects countersStream.evaluate) = twins)
    (hasc : plan.clauses.ascending = true) :
    plan.clauses.Returns countersStream.evaluate twins batches.flatten := by
  rw [hflat]
  refine ⟨by rw [hall], ?_⟩
  simp [twins, twin, Record.row, IncrementalClauses.precedes, hasc]

theorem twins_agree (since : Option State)
    (hat : ∀ state, since = some state → state.watermark = .int 5) :
    countersStream.ServerAgrees twins since := by
  have htwin : ∀ r ∈ twins, r.stored = 5 ∧ r.cursor = some (.int 5) := by decide
  refine ⟨fun a ha b hb x y hx hy => ?_, fun state hstate r hr _ => ?_⟩
  · rw [(htwin a ha).2] at hx
    rw [(htwin b hb).2] at hy
    cases hx
    cases hy
    simp [(htwin a ha).1, (htwin b hb).1]
  · rw [(htwin r hr).1, hat state hstate]
    decide

/-- Read in one piece both copies arrive. -/
theorem twins_delivered_whole :
    NeverTwice countersStream twins twins ∧ EveryCopy countersStream twins [] none := by
  have h := keyless_delivers_every_copy countersStream rfl twinHash [] ["at", "note"] rfl
    [twin, twin] (by simp)
  refine ⟨(h twins (some ⟨.int 5, [[some "5x"], [some "5x"]]⟩)).1 ?_, (h [] none).2 .start⟩
  exact .complete [twins] .start (twins_agree none (by simp)) rfl
    (twins_returned _ [twins] rfl (by decide) rfl) rfl

/-- Stopped between the copies and read again to the end, one of them is never
delivered. -/
theorem twin_lost_between_batches :
    Resumed countersStream (fun _ _ => True) twins (twins.take 1)
        (some ⟨.int 5, [[some "5x"]]⟩) ∧
      ¬ EveryCopy countersStream twins (twins.take 1) (some ⟨.int 5, [[some "5x"]]⟩) := by
  have hagrees : countersStream.ServerAgrees twins (some ⟨.int 5, [[some "5x"]]⟩) :=
    twins_agree _ (by rintro state ⟨⟩; rfl)
  constructor
  · exact .stop [twins.take 1, twins.drop 1] [.rows (twins.take 1)] .start
      (twins_agree none (by simp)) rfl (twins_returned _ _ rfl (by decide) rfl) rfl trivial
  · intro h
    have hcount := h.complete _ [twins] hagrees rfl (twins_returned _ _ rfl (by decide) rfl) rfl
      (twin.row twinHash none) (by decide) ⟨_, rfl, by decide⟩ (by decide)
    revert hcount
    decide

end Cursor
