import Mathlib.Data.List.Nodup
import RdltConnectors.Library.Fallible
import RdltConnectors.Cursor.Coverage

/-!
# Exactly once, over every history

The server evaluates the window's literals and returns its rows in cursor order,
ties in any order. Over any history of reads, each stopped at a checkpoint or run
to its end, with rows added in between, every selected row is delivered once. The
server has to order the column as the tracker does, and the literal of a watermark
has to evaluate to the value it was read from.
-/
namespace Cursor

open PgTypes Fallible

variable {D : Type} [LinearOrder D]

/-! ## The server -/

def Comparison.holds : Comparison → D → D → Bool
  | .ge, a, b => decide (b ≤ a)
  | .gt, a, b => decide (b < a)
  | .le, a, b => decide (a ≤ b)
  | .lt, a, b => decide (a < b)

/-- The rows of the window, by the values the server evaluates its bounds to. -/
def IncrementalClauses.selects (evaluate : String → D) (c : IncrementalClauses) (r : Row D) :
    Bool :=
  match r.cursor with
  | none => c.nullsInclude
  | some _ => c.predicates.all fun (op, bound) => op.holds r.stored (evaluate bound)

/-- The order of the window: NULLs first, ties in no particular order. -/
def IncrementalClauses.precedes (c : IncrementalClauses) (a b : Row D) : Prop :=
  match a.cursor, b.cursor with
  | none, _ => True
  | some _, none => False
  | some _, some _ => if c.ascending then a.stored ≤ b.stored else b.stored ≤ a.stored

/-- An answer of the server to the window. -/
structure IncrementalClauses.Returns (evaluate : String → D) (c : IncrementalClauses)
    (table rows : List (Row D)) : Prop where
  perm : rows.Perm (table.filter (c.selects evaluate))
  ordered : rows.Pairwise c.precedes

/-! ## Histories -/

/-- A configured stream: how literals parse, and what the server makes of them. -/
structure Stream (D : Type) where
  parseScalar : Kind → String → Except String Scalar
  facts : CursorFacts
  name : String
  evaluate : String → D

def Stream.prepare (s : Stream D) (since : Option State) : Except SourceError Incremental :=
  Cursor.prepare s.parseScalar s.facts since s.name

abbrev Stream.directionMax (s : Stream D) : Bool := s.facts.config.directionMax

/-- The selection: the rows of the configured window. -/
def Stream.Selected (s : Stream D) (r : Row D) : Prop :=
  ∃ plan, s.prepare none = .ok plan ∧ plan.clauses.selects s.evaluate r = true

/-- A row that may still be added: at or beyond the watermark, strictly beyond it
under an exclusive boundary. -/
def Stream.Addable (s : Stream D) (since : Option State) (r : Row D) : Prop :=
  ∀ state v, since = some state → r.cursor = some v →
    if s.facts.config.boundary = .inclusive then beyond s.directionMax state.watermark v = false
    else beyond s.directionMax v state.watermark = true

/-- The table, the committed rows and the committed state, after any sequence of
reads that were each stopped at a checkpoint or ran to their end, and of rows
added between them. Each read meets `ok` of the table and the state it starts from. -/
inductive History (s : Stream D) (ok : List (Row D) → Option State → Prop) :
    List (Row D) → List (Row D) → Option State → Prop where
  | start {table : List (Row D)} : (table.map Row.key).Nodup → History s ok table [] none
  | add {table out : List (Row D)} {since : Option State} (added : List (Row D)) :
      History s ok table out since → ((table ++ added).map Row.key).Nodup →
      (∀ r ∈ added, s.Addable since r) → History s ok (table ++ added) out since
  | stop {table out : List (Row D)} {since : Option State} {plan : Incremental}
      (batches : List (List (Row D))) (pre : List (Push D)) {post : List (Push D)} {c : State} :
      History s ok table out since → ok table since → s.prepare since = .ok plan →
      plan.clauses.Returns s.evaluate table batches.flatten →
      (plan.read batches).pushes = pre ++ .checkpoint c :: post →
      History s ok table (out ++ rowsOf pre) (some c)
  | complete {table out : List (Row D)} {since : Option State} {plan : Incremental}
      (batches : List (List (Row D))) :
      History s ok table out since → ok table since → s.prepare since = .ok plan →
      plan.clauses.Returns s.evaluate table batches.flatten →
      (plan.read batches).result = .ok () →
      History s ok table (out ++ rowsOf (plan.read batches).pushes)
        ((checkpoints (plan.read batches).pushes).getLast?.or since)

/-- The server orders the column as the tracker orders its decoded values, and
evaluates the watermark's literal to the value the watermark was read from. -/
structure Stream.ServerAgrees (s : Stream D) (table : List (Row D)) (since : Option State) :
    Prop where
  order : ∀ a ∈ table, ∀ b ∈ table, ∀ x y, a.cursor = some x → b.cursor = some y →
    (a.stored ≤ b.stored ↔ x ≤ y)
  exact : ∀ state, since = some state → ∀ r ∈ table, r.cursor = some state.watermark →
    r.stored = s.evaluate (render state.watermark)

variable {s : Stream D}

omit [LinearOrder D] in
/-- A plan without a lag: the lower bound, the end bound, and a fresh tracker. -/
theorem prepare_ok {since : Option State} {plan : Incremental} (hlag : s.facts.config.lag = none)
    (h : s.prepare since = .ok plan) :
    plan.tracker.spec.directionMax = s.directionMax ∧ plan.tracker.spec.stored = since ∧
      plan.tracker = .new plan.tracker.spec ∧
      plan.keepFinalKeys = decide (s.facts.config.boundary = .inclusive) ∧
      (plan.tracker.spec.nullError =
        if s.facts.config.nulls = .error then some (s.name, s.facts.config.column) else none) ∧
      ∃ lower upper, lowerOf s.parseScalar s.facts since s.name = .ok lower ∧
        parseLiteral s.parseScalar s.facts.kind s.name s.facts.config.endValue = .ok upper ∧
        plan.clauses = incrementalClauses s.directionMax lower none
          (upper.map fun value => (value, decide (s.facts.config.endBound = .inclusive)))
          (decide (s.facts.config.nulls ≠ .exclude)) := by
  obtain ⟨-, -, h⟩ := bind_ok.1 h
  obtain ⟨lower, hlower, h⟩ := bind_ok.1 h
  obtain ⟨upper, hupper, h⟩ := bind_ok.1 h
  simp only [hlag, ite_self, Option.isSome_none, Bool.false_eq_true, if_false] at h
  obtain rfl := pure_ok.1 h
  exact ⟨rfl, rfl, rfl, rfl, rfl, lower, upper, hlower, hupper, rfl⟩

/-- A row with a cursor value is selected when it meets both bounds. -/
theorem selects_iff {directionMax nullsInclude : Bool} {lower upper : Option (Scalar × Bool)}
    {evaluate : String → D} {r : Row D} {v : Scalar} (hv : r.cursor = some v) :
    (incrementalClauses directionMax lower none upper nullsInclude).selects evaluate r = true ↔
      (∀ b, lower = some b →
        (lowerOperator directionMax b.2).holds r.stored (evaluate (render b.1)) = true) ∧
      (∀ b, upper = some b →
        (upperOperator directionMax b.2).holds r.stored (evaluate (render b.1)) = true) := by
  cases lower <;> cases upper <;>
    simp [IncrementalClauses.selects, incrementalClauses, hv, lowerBound]

theorem selected_iff {plan : Incremental} (hplan : s.prepare none = .ok plan) {r : Row D} :
    s.Selected r ↔ plan.clauses.selects s.evaluate r = true := by
  constructor
  · rintro ⟨plan', hplan', h⟩
    obtain rfl : plan' = plan := by simpa [hplan] using hplan'.symm
    exact h
  · exact fun h => ⟨plan, hplan, h⟩

/-! ## The server's comparisons and the tracker's -/

section Agreement

variable {table : List (Row D)} {since : Option State} {a b : Row D} {x y : Scalar}

theorem stored_lt_iff (h : s.ServerAgrees table since) (ha : a ∈ table) (hb : b ∈ table)
    (hx : a.cursor = some x) (hy : b.cursor = some y) : a.stored < b.stored ↔ x < y := by
  rw [lt_iff_not_ge, lt_iff_not_ge, h.order b hb a ha y x hy hx]

theorem holds_closed_iff (h : s.ServerAgrees table since) (ha : a ∈ table) (hb : b ∈ table)
    (hx : a.cursor = some x) (hy : b.cursor = some y) (m : Bool) :
    (lowerOperator m true).holds a.stored b.stored = true ↔ beyond m y x = false := by
  cases m with
  | true => simp [lowerOperator, Comparison.holds, beyond, h.order b hb a ha y x hy hx]
  | false => simp [lowerOperator, Comparison.holds, beyond, h.order a ha b hb x y hx hy]

theorem holds_open_iff (h : s.ServerAgrees table since) (ha : a ∈ table) (hb : b ∈ table)
    (hx : a.cursor = some x) (hy : b.cursor = some y) (m : Bool) :
    (lowerOperator m false).holds a.stored b.stored = true ↔ beyond m x y = true := by
  cases m with
  | true => simp [lowerOperator, Comparison.holds, beyond, stored_lt_iff h hb ha hy hx]
  | false => simp [lowerOperator, Comparison.holds, beyond, stored_lt_iff h ha hb hx hy]

/-- What lies at or beyond a value inside a lower bound lies inside it too. -/
theorem holds_lower_mono {m closed : Bool} {d d' bound : D}
    (h : (lowerOperator m closed).holds d bound = true)
    (hd : (lowerOperator m true).holds d' d = true) :
    (lowerOperator m closed).holds d' bound = true := by
  cases m <;> cases closed <;>
    simp only [lowerOperator, Comparison.holds, decide_eq_true_eq] at *
  · exact lt_of_le_of_lt hd h
  · exact le_trans hd h
  · exact lt_of_lt_of_le h hd
  · exact le_trans h hd

/-- A resumed window is the part of the selection at or beyond its watermark, or
strictly beyond it if the state has no keys. -/
theorem resumed_selects_iff (hlag : s.facts.config.lag = none) {state : State}
    (h : s.ServerAgrees table (some state))
    (hmark : ∃ r ∈ table, r.cursor = some state.watermark ∧ s.Selected r) {plan : Incremental}
    (hplan : s.prepare (some state) = .ok plan) (ha : a ∈ table) (hx : a.cursor = some x) :
    plan.clauses.selects s.evaluate a = true ↔ s.Selected a ∧
      if state.boundaryKeys = [] then beyond s.directionMax x state.watermark = true
      else beyond s.directionMax state.watermark x = false := by
  obtain ⟨top, htop, htopv, plan₀, hplan₀, hsel⟩ := hmark
  rw [selected_iff hplan₀]
  obtain ⟨-, -, -, -, -, lower₀, upper₀, hlower₀, hupper₀, hclauses₀⟩ := prepare_ok hlag hplan₀
  obtain ⟨-, -, -, -, -, lower, upper, hlower, hupper, hclauses⟩ := prepare_ok hlag hplan
  obtain rfl : upper₀ = upper := by simpa [hupper₀] using hupper
  obtain rfl : some (state.watermark, !state.boundaryKeys.isEmpty) = lower := by
    simpa [lowerOf] using hlower
  have hstored := h.exact state rfl top htop htopv
  rw [hclauses₀, selects_iff htopv] at hsel
  rw [hclauses, hclauses₀, selects_iff hx, selects_iff hx]
  have hbound : (∀ bound, some (state.watermark, !state.boundaryKeys.isEmpty) = some bound →
      (lowerOperator s.directionMax bound.2).holds a.stored (s.evaluate (render bound.1)) = true) ↔
      if state.boundaryKeys = [] then beyond s.directionMax x state.watermark = true
      else beyond s.directionMax state.watermark x = false := by
    simp only [Option.some.injEq, forall_eq']
    rw [← hstored]
    by_cases hnone : state.boundaryKeys = []
    · simp only [hnone, List.isEmpty_nil, Bool.not_true, if_true]
      exact holds_open_iff h ha htop hx htopv _
    · have hclosed : (!state.boundaryKeys.isEmpty) = true := by simpa using hnone
      simp only [hnone, hclosed, if_false]
      exact holds_closed_iff h ha htop hx htopv _
  rw [hbound]
  constructor
  · rintro ⟨hpast, hupper⟩
    refine ⟨⟨fun bound hb => holds_lower_mono (hsel.1 bound hb) ?_, hupper⟩, hpast⟩
    rw [holds_closed_iff h ha htop hx htopv]
    by_cases hnone : state.boundaryKeys = []
    · rw [if_pos hnone] at hpast
      exact beyond_asymm hpast
    · rwa [if_neg hnone] at hpast
  · exact fun hall => ⟨hall.2, hall.1.2⟩

theorem follows_of_precedes (h : s.ServerAgrees table since) {c : IncrementalClauses}
    (ha : a ∈ table) (hb : b ∈ table) (hab : c.precedes a b) : Follows c.ascending a b := by
  intro x hx
  cases hy : b.cursor with
  | none => simp [IncrementalClauses.precedes, hx, hy] at hab
  | some y =>
    refine ⟨y, rfl, ?_⟩
    simp only [IncrementalClauses.precedes, hx, hy] at hab
    cases hasc : c.ascending with
    | true =>
      rw [hasc, if_pos rfl, h.order a ha b hb x y hx hy] at hab
      simpa [beyond] using hab
    | false =>
      rw [hasc, if_neg (by simp), h.order b hb a ha y x hy hx] at hab
      simpa [beyond] using hab

/-- What a read gets is a window of the selection: the selected rows that its
state does not cover, and rows it does. -/
theorem window_of_returns (hlag : s.facts.config.lag = none) (h : s.ServerAgrees table since)
    (hunique : ∀ a ∈ table, ∀ b ∈ table, a.key = b.key → a = b)
    (hmark : ∀ state, since = some state →
      ∃ r ∈ table, r.cursor = some state.watermark ∧ s.Selected r)
    {plan : Incremental} (hplan : s.prepare since = .ok plan) {rows : List (Row D)}
    (hret : plan.clauses.Returns s.evaluate table rows) :
    Window s.directionMax since rows ∧ (∀ r ∈ rows, r ∈ table) ∧
      ∀ r ∈ table, r.cursor ≠ none → ¬ Covers s.directionMax since r →
        (r ∈ rows ↔ s.Selected r) := by
  have hmem (r : Row D) : r ∈ rows ↔ r ∈ table ∧ plan.clauses.selects s.evaluate r = true := by
    rw [hret.perm.mem_iff, List.mem_filter]
  have htable : ∀ r ∈ rows, r ∈ table := fun r hr => ((hmem r).1 hr).1
  obtain ⟨-, -, -, -, -, lower, upper, hlower, -, hclauses⟩ := prepare_ok hlag hplan
  have hasc : plan.clauses.ascending = s.directionMax := by
    rw [hclauses]
    rfl
  have hunique : ∀ a ∈ rows, ∀ b ∈ rows, a.key = b.key → a = b := fun a ha b hb hab =>
    hunique a (htable a ha) b (htable b hb) hab
  have hordered : InOrder s.directionMax rows := by
    refine hret.ordered.imp_of_mem fun ha hb hab => ?_
    rw [← hasc]
    exact follows_of_precedes h (htable _ ha) (htable _ hb) hab
  cases hsince : since with
  | none =>
    subst hsince
    refine ⟨⟨hordered, hunique, by simp⟩, htable, fun r hr hv _ => ?_⟩
    rw [hmem, selected_iff hplan]
    exact ⟨fun h => h.2, fun h => ⟨hr, h⟩⟩
  | some state =>
    subst hsince
    have hresumed {r : Row D} (hr : r ∈ table) {v : Scalar} (hv : r.cursor = some v) :=
      resumed_selects_iff hlag h (hmark state rfl) hplan hr hv
    refine ⟨⟨hordered, hunique, ?_⟩, htable, ?_⟩
    · rintro st ⟨⟩ r hr v hv
      have hpast := ((hresumed (htable r hr) hv).1 ((hmem r).1 hr).2).2
      by_cases hnone : state.boundaryKeys = []
      · rw [if_pos hnone] at hpast
        exact ⟨beyond_asymm hpast, fun _ => hpast⟩
      · rw [if_neg hnone] at hpast
        exact ⟨hpast, fun hempty => absurd hempty hnone⟩
    · intro r hr hnull hnot
      obtain ⟨v, hv⟩ := Option.ne_none_iff_exists'.1 hnull
      rw [hmem, hresumed hr hv]
      refine ⟨fun hall => hall.2.1, fun hsel => ⟨hr, hsel, ?_⟩⟩
      -- not covered: not behind the watermark, and not at it if there are no keys
      have hbehind : beyond s.directionMax state.watermark v = false := by
        rw [Bool.eq_false_iff]
        exact fun hb => hnot ⟨state, v, rfl, hv, .inl hb⟩
      by_cases hnone : state.boundaryKeys = []
      · rw [if_pos hnone]
        refine (beyond_or_eq hbehind).resolve_left fun hat => ?_
        exact hnot ⟨state, v, rfl, hv, .inr ⟨hat, .inl hnone⟩⟩
      · rwa [if_neg hnone]

end Agreement

/-! ## One read -/

variable {table out : List (Row D)} {since : Option State}

/-- What holds of the committed rows and the committed state. -/
structure Sound (s : Stream D) (table out : List (Row D)) (since : Option State) : Prop where
  keys : (table.map Row.key).Nodup
  once : (out.filter fun r => r.cursor.isSome).Nodup
  mem : ∀ r : Row D, r.cursor ≠ none →
    (r ∈ out ↔ r ∈ table ∧ s.Selected r ∧ Covers s.directionMax since r)
  mark : ∀ state, since = some state →
    ∃ r ∈ table, r.cursor = some state.watermark ∧ s.Selected r
  known : ∀ state, since = some state → ∀ key ∈ state.boundaryKeys, ∃ r ∈ table, r.key = key
  closed : ∀ state, since = some state → s.facts.config.boundary = .inclusive →
    state.boundaryKeys ≠ []

/-- The setting of one read: keys that identify rows, a watermark read from the
selection, a server that agrees, its answer. -/
structure Placed (s : Stream D) (table : List (Row D)) (since : Option State)
    (plan : Incremental) (rows : List (Row D)) : Prop where
  lag : s.facts.config.lag = none
  unique : ∀ a ∈ table, ∀ b ∈ table, a.key = b.key → a = b
  mark : ∀ state, since = some state →
    ∃ r ∈ table, r.cursor = some state.watermark ∧ s.Selected r
  agrees : s.ServerAgrees table since
  prepared : s.prepare since = .ok plan
  returns : plan.clauses.Returns s.evaluate table rows

/-- A read after a sound history. -/
structure Reading (s : Stream D) (table out : List (Row D)) (since : Option State)
    (plan : Incremental) (rows : List (Row D)) : Prop where
  lag : s.facts.config.lag = none
  sound : Sound s table out since
  agrees : s.ServerAgrees table since
  prepared : s.prepare since = .ok plan
  returns : plan.clauses.Returns s.evaluate table rows

section Read

variable {plan : Incremental} {rows before after : List (Row D)} {c : State}

theorem Reading.placed (h : Reading s table out since plan rows) : Placed s table since plan rows :=
  ⟨h.lag, fun _ ha _ hb hab => List.inj_on_of_nodup_map h.sound.keys ha hb hab, h.sound.mark,
    h.agrees, h.prepared, h.returns⟩

theorem Placed.window (h : Placed s table since plan rows) :
    Window s.directionMax since rows ∧ (∀ r ∈ rows, r ∈ table) ∧
      ∀ r ∈ table, r.cursor ≠ none → ¬ Covers s.directionMax since r →
        (r ∈ rows ↔ s.Selected r) :=
  window_of_returns h.lag h.agrees h.unique h.mark h.prepared h.returns

theorem Reading.nodup (h : Reading s table out since plan rows) : rows.Nodup :=
  h.returns.perm.nodup_iff.2 ((List.Nodup.of_map _ h.sound.keys).filter _)

theorem Placed.mem_kept (h : Placed s table since plan rows)
    (hbefore : ∀ r ∈ before, r ∈ rows) {r : Row D} :
    r ∈ before.filter plan.tracker.spec.keeps ↔
      r ∈ before ∧ ¬ Covers s.directionMax since r := by
  obtain ⟨-, hstored, -⟩ := prepare_ok h.lag h.prepared
  rw [List.mem_filter]
  refine and_congr_right fun hr => ?_
  rw [Spec.keeps, Bool.not_eq_true', Bool.eq_false_iff, ne_eq,
    drops_iff_covers h.window.1 hstored (hbefore r hr)]

/-- The rows handed on were not delivered before. -/
theorem Reading.once (h : Reading s table out since plan rows) (hsplit : rows = before ++ after) :
    ((out ++ before.filter plan.tracker.spec.keeps).filter fun r => r.cursor.isSome).Nodup := by
  have hbefore : ∀ r ∈ before, r ∈ rows := fun r hr => by simp [hsplit, hr]
  have hnodup : before.Nodup := by
    have := h.nodup
    rw [hsplit] at this
    exact (List.nodup_append.1 this).1
  rw [List.filter_append, List.nodup_append]
  refine ⟨h.sound.once, (hnodup.filter _).filter _, ?_⟩
  rintro a ha b hb rfl
  obtain ⟨hout, hv⟩ := List.mem_filter.1 ha
  obtain ⟨hkept, -⟩ := List.mem_filter.1 hb
  have hcovered := ((h.sound.mem a (Option.isSome_iff_ne_none.1 hv)).1 hout).2.2
  exact ((h.placed.mem_kept hbefore).1 hkept).2 hcovered

/-- Stopped at a checkpoint, or ended on one, the committed rows are again exactly
those the committed state covers. -/
theorem Reading.advance (h : Reading s table out since plan rows) (hsplit : rows = before ++ after)
    (hreach : Reaches s.directionMax since rows before c)
    (hclosed : s.facts.config.boundary = .inclusive → c.boundaryKeys ≠ []) :
    Sound s table (out ++ before.filter plan.tracker.spec.keeps) (some c) := by
  obtain ⟨hw, htable, hsel⟩ := h.placed.window
  have hbefore : ∀ r ∈ before, r ∈ rows := fun r hr => by simp [hsplit, hr]
  have hselected {r : Row D} (hr : r ∈ before) (hv : r.cursor ≠ none)
      (hnot : ¬ Covers s.directionMax since r) : s.Selected r :=
    (hsel r (htable r (hbefore r hr)) hv hnot).1 (hbefore r hr)
  refine ⟨h.sound.keys, h.once hsplit, ?_, ?_, ?_, ?_⟩
  · intro r hv
    rw [List.mem_append, h.sound.mem r hv, h.placed.mem_kept hbefore]
    constructor
    · rintro (⟨hr, hs, hcov⟩ | ⟨hr, hnot⟩)
      · exact ⟨hr, hs, hreach.mono r hcov⟩
      · exact ⟨htable r (hbefore r hr), hselected hr hv hnot, hreach.own r hr hv⟩
    · rintro ⟨hr, hs, hcov⟩
      by_cases hold : Covers s.directionMax since r
      · exact .inl ⟨hr, hs, hold⟩
      · have hmem := (hsel r hr hv hold).2 hs
        exact .inr ⟨(hreach.only r hmem hcov).resolve_left hold, hold⟩
  · rintro state ⟨⟩
    obtain ⟨r, hr, hv, hnot⟩ := hreach.mark
    exact ⟨r, htable r (hbefore r hr), hv, hselected hr (by simp [hv]) hnot⟩
  · rintro state ⟨⟩ key hkey
    rcases hreach.keys key hkey with ⟨r, hr, hsame⟩ | ⟨state, hstate, hold⟩
    · exact ⟨r, htable r (hbefore r hr), hsame⟩
    · exact h.sound.known state hstate key hold
  · rintro state ⟨⟩
    exact hclosed

/-- A fresh tracker over the window's rows, at each of its checkpoints. -/
theorem Placed.checkpoint {batches : List (List (Row D))} {pre post : List (Push D)}
    (h : Placed s table since plan batches.flatten)
    (hc : (plan.read batches).pushes = pre ++ .checkpoint c :: post) :
    ∃ before after, batches.flatten = before ++ after ∧
      rowsOf pre = before.filter plan.tracker.spec.keeps ∧
      Reaches s.directionMax since batches.flatten before c ∧
      (s.facts.config.boundary = .inclusive → c.boundaryKeys ≠ []) := by
  obtain ⟨hm, hstored, hnew, hkeep, -⟩ := prepare_ok h.lag h.prepared
  have hw := h.window.1
  obtain ⟨before, after, t, hsplit, hrows, hspec, htracked, hstate⟩ :=
    readBatches_checkpoint [] (by rw [hnew]; exact tracked_new _)
      (by rw [hnew]; intro hb; simp [Tracker.new] at hb)
      (by rw [List.nil_append, hm]; exact hw.ordered) hc
  rw [List.nil_append] at htracked
  refine ⟨before, after, hsplit, hrows, ?_⟩
  rw [← hspec] at htracked hm hstored
  rcases hstate with hstate | ⟨rfl, hstate⟩
  · obtain ⟨hreach, hne⟩ := reaches_current hw hsplit hm hstored htracked hstate
    exact ⟨hreach, fun _ => hne⟩
  · rw [List.append_nil] at hsplit
    rw [← hsplit] at htracked ⊢
    obtain ⟨hreach, hne⟩ := reaches_final hw hm hstored htracked hstate
    exact ⟨hreach, fun hincl => hne (by simp [hkeep, hincl])⟩

/-- A read run to its end hands on every row its state does not cover. -/
theorem Placed.complete {batches : List (List (Row D))}
    (h : Placed s table since plan batches.flatten)
    (hok : (plan.read batches).result = .ok ()) :
    rowsOf (plan.read batches).pushes = batches.flatten.filter plan.tracker.spec.keeps ∧
      ((∃ pre c, (plan.read batches).pushes = pre ++ [.checkpoint c]) ∨
        checkpoints (plan.read batches).pushes = [] ∧
          ∀ r ∈ batches.flatten.filter plan.tracker.spec.keeps, r.cursor = none) := by
  obtain ⟨hm, hstored, hnew, hkeep, -⟩ := prepare_ok h.lag h.prepared
  have hw := h.window.1
  obtain ⟨hrows, t, hspec, htracked, hfinal⟩ :=
    readBatches_complete [] (by rw [hnew]; exact tracked_new _)
      (by rw [hnew]; intro hb; simp [Tracker.new] at hb)
      (by rw [List.nil_append, hm]; exact hw.ordered) hok
  refine ⟨hrows, ?_⟩
  cases hstate : t.finalState plan.keepFinalKeys with
  | some c =>
    obtain ⟨pre, hpre⟩ := hfinal c hstate
    exact .inl ⟨pre, c, hpre⟩
  | none =>
    have hcurrent : t.currentState = none := by
      simpa [Tracker.finalState] using hstate
    rw [← hspec] at htracked hm hstored
    have hnull := (currentState_spec htracked hm fun state hs r hr v hv =>
      (hw.forward state (hstored ▸ hs) r (List.mem_filter.1 hr).1 v hv).1).1 hcurrent
    rw [List.nil_append, hspec] at hnull
    refine .inr ⟨List.eq_nil_iff_forall_not_mem.2 fun c hc => ?_, hnull⟩
    -- a checkpoint marks a row handed on with a value
    obtain ⟨pre, post, hpushes⟩ := List.append_of_mem (mem_checkpoints.1 hc)
    obtain ⟨before, after, hsplit, hpre, hreach, -⟩ := h.checkpoint hpushes
    obtain ⟨r, hr, hv, hnot⟩ := hreach.mark
    have hkept := (h.mem_kept (show ∀ r ∈ batches.flatten, r ∈ batches.flatten from fun _ hr => hr)).2
      ⟨by rw [hsplit]; simp [hr], hnot⟩
    rw [hnull r hkept] at hv
    cases hv

/-- It can only fail on a NULL cursor. -/
theorem Placed.fails {batches : List (List (Row D))} {e : SourceError}
    (h : Placed s table since plan batches.flatten)
    (hfail : (plan.read batches).result = .error e) :
    s.facts.config.nulls = .error ∧ (∃ r ∈ table, r.cursor = none) ∧
      e = nullCursor s.name s.facts.config.column := by
  obtain ⟨hm, -, hnew, -, hnull, -⟩ := prepare_ok h.lag h.prepared
  obtain ⟨hw, htable, -⟩ := h.window
  obtain ⟨stream, column, hpolicy, ⟨r, hr, hcursor⟩, he⟩ :=
    readBatches_fails [] (by rw [hnew]; exact tracked_new _)
      (by rw [hnew]; intro hb; simp [Tracker.new] at hb)
      (by rw [List.nil_append, hm]; exact hw.ordered) hfail
  rw [hnull] at hpolicy
  by_cases herror : s.facts.config.nulls = .error
  · rw [if_pos herror] at hpolicy
    obtain ⟨rfl, rfl⟩ : s.name = stream ∧ s.facts.config.column = column := by
      simpa using hpolicy
    exact ⟨herror, ⟨r, htable r hr, hcursor⟩, he⟩
  · rw [if_neg herror] at hpolicy
    cases hpolicy

/-- Rows without a cursor value change nothing that is claimed. -/
theorem Sound.addNulls (h : Sound s table out since) {rows : List (Row D)}
    (hnull : ∀ r ∈ rows, r.cursor = none) : Sound s table (out ++ rows) since where
  keys := h.keys
  once := by
    have hnone : rows.filter (fun r => r.cursor.isSome) = [] :=
      List.filter_eq_nil_iff.2 fun r hr => by simp [hnull r hr]
    rw [List.filter_append, hnone, List.append_nil]
    exact h.once
  mem r hv := by
    have hnot : r ∉ rows := fun hr => hv (hnull r hr)
    rw [List.mem_append, ← h.mem r hv]
    exact ⟨fun hr => hr.resolve_right hnot, .inl⟩
  mark := h.mark
  known := h.known
  closed := h.closed

end Read

/-- Added rows are not covered: none is behind the watermark, and one at it has a
key of its own. -/
theorem Sound.addRows (h : Sound s table out since) {added : List (Row D)}
    (hkeys : ((table ++ added).map Row.key).Nodup) (hadd : ∀ r ∈ added, s.Addable since r) :
    Sound s (table ++ added) out since where
  keys := hkeys
  once := h.once
  mem r hv := by
    rw [h.mem r hv, List.mem_append]
    refine ⟨fun hall => ⟨.inl hall.1, hall.2⟩, ?_⟩
    rintro ⟨hr | hr, hs, hcov⟩
    · exact ⟨hr, hs, hcov⟩
    · obtain ⟨state, v, hstate, hrv, hcase⟩ := hcov
      have hpast := hadd r hr state v hstate hrv
      by_cases hincl : s.facts.config.boundary = .inclusive
      · rw [if_pos hincl] at hpast
        rcases hcase with hbehind | ⟨rfl, hnone | hkey⟩
        · simp [hpast] at hbehind
        · exact absurd hnone (h.closed state hstate hincl)
        · obtain ⟨r', hr', hsame⟩ := h.known state hstate r.key hkey
          rw [List.map_append, List.nodup_append] at hkeys
          exact absurd hsame (hkeys.2.2 _ (List.mem_map_of_mem hr') _ (List.mem_map_of_mem hr))
      · rw [if_neg hincl] at hpast
        rcases hcase with hbehind | ⟨rfl, -⟩
        · rw [beyond_asymm hpast] at hbehind
          cases hbehind
        · simp [beyond_irrefl] at hpast
  mark state hstate := by
    obtain ⟨r, hr, hrest⟩ := h.mark state hstate
    exact ⟨r, List.mem_append_left _ hr, hrest⟩
  known state hstate key hkey := by
    obtain ⟨r, hr, hsame⟩ := h.known state hstate key hkey
    exact ⟨r, List.mem_append_left _ hr, hsame⟩
  closed := h.closed

/-- Every history is sound. -/
theorem sound_of_history (hlag : s.facts.config.lag = none)
    (h : History s s.ServerAgrees table out since) : Sound s table out since := by
  induction h with
  | start hkeys =>
    exact ⟨hkeys, by simp, fun r _ => by simp [Covers], by simp, by simp, by simp⟩
  | add added _ hkeys hadd ih => exact ih.addRows hkeys hadd
  | stop _ _ _ hagrees hplan hret hpushes ih =>
    have hread : Reading s _ _ _ _ _ := ⟨hlag, ih, hagrees, hplan, hret⟩
    obtain ⟨before, after, hsplit, hrows, hreach, hclosed⟩ := hread.placed.checkpoint hpushes
    rw [hrows]
    exact hread.advance hsplit hreach hclosed
  | complete _ _ hagrees hplan hret hok ih =>
    have hread : Reading s _ _ _ _ _ := ⟨hlag, ih, hagrees, hplan, hret⟩
    obtain ⟨hrows, ⟨pre, c, hpushes⟩ | ⟨hnone, hnull⟩⟩ := hread.placed.complete hok
    · obtain ⟨before, after, hsplit, hpre, hreach, hclosed⟩ := hread.placed.checkpoint hpushes
      have hrowsOf : rowsOf (pre ++ [.checkpoint c]) = rowsOf pre := by simp [rowsOf]
      have hlast : (checkpoints (pre ++ [.checkpoint c])).getLast? = some c := by
        simp [checkpoints]
      rw [hpushes, hrowsOf, hlast, hpre]
      exact hread.advance hsplit hreach hclosed
    · rw [hnone, hrows]
      exact ih.addNulls hnull

/-- The property of every history: no selected row with a cursor value is committed
twice, any read run to its end leaves none out, and no watermark moves backwards. -/
structure ExactlyOnce (s : Stream D) (table out : List (Row D)) (since : Option State) : Prop where
  once : (out.filter fun r => r.cursor.isSome).Nodup
  selected : ∀ r ∈ out, r.cursor ≠ none → r ∈ table ∧ s.Selected r
  complete : ∀ (plan : Incremental) (batches : List (List (Row D))),
    s.ServerAgrees table since → s.prepare since = .ok plan →
    plan.clauses.Returns s.evaluate table batches.flatten → (plan.read batches).result = .ok () →
    ∀ r ∈ table, s.Selected r → r.cursor ≠ none → r ∈ out ++ rowsOf (plan.read batches).pushes
  forward : ∀ (plan : Incremental) (batches : List (List (Row D))) pre c post,
    s.ServerAgrees table since → s.prepare since = .ok plan →
    plan.clauses.Returns s.evaluate table batches.flatten →
    (plan.read batches).pushes = pre ++ .checkpoint c :: post →
    (∀ state, since = some state → beyond s.directionMax state.watermark c.watermark = false) ∧
      ∀ later ∈ checkpoints post, beyond s.directionMax c.watermark later.watermark = false
  fails : ∀ (plan : Incremental) (batches : List (List (Row D))) e,
    s.ServerAgrees table since → s.prepare since = .ok plan →
    plan.clauses.Returns s.evaluate table batches.flatten →
    (plan.read batches).result = .error e →
    s.facts.config.nulls = .error ∧ ∃ r ∈ table, r.cursor = none

/-- Exactly once, for every stream without a lag, both directions and boundaries,
every table, every order of ties, every cut into batches and every history. -/
theorem incremental_exactly_once (s : Stream D) (hlag : s.facts.config.lag = none)
    (table out : List (Row D)) (since : Option State)
    (h : History s s.ServerAgrees table out since) : ExactlyOnce s table out since := by
  have hsound := sound_of_history hlag h
  refine ⟨hsound.once, fun r hr hv => ?_, ?_, ?_, ?_⟩
  · obtain ⟨htable, hsel, -⟩ := (hsound.mem r hv).1 hr
    exact ⟨htable, hsel⟩
  · intro plan batches hagrees hplan hret hok r hr hsel hv
    have hread : Reading s _ _ _ _ _ := ⟨hlag, hsound, hagrees, hplan, hret⟩
    rw [(hread.placed.complete hok).1, List.mem_append, hsound.mem r hv]
    by_cases hold : Covers s.directionMax since r
    · exact .inl ⟨hr, hsel, hold⟩
    · exact .inr ((hread.placed.mem_kept fun _ h => h).2
        ⟨(hread.placed.window.2.2 r hr hv hold).2 hsel, hold⟩)
  · intro plan batches pre c post hagrees hplan hret hpushes
    have hread : Reading s _ _ _ _ _ := ⟨hlag, hsound, hagrees, hplan, hret⟩
    obtain ⟨before, after, hsplit, hrows, hreach, -⟩ := hread.placed.checkpoint hpushes
    have hbefore : ∀ r ∈ before, r ∈ batches.flatten := fun r hr => by rw [hsplit]; simp [hr]
    obtain ⟨r, hr, hv, hnew⟩ := hreach.mark
    refine ⟨fun state hstate => (hread.placed.window.1.forward state hstate r (hbefore r hr) _ hv).1, ?_⟩
    intro later hlater
    obtain ⟨mid, post', rfl⟩ := List.append_of_mem (mem_checkpoints.1 hlater)
    have hlater' : (plan.read batches).pushes
        = (pre ++ .checkpoint c :: mid) ++ .checkpoint later :: post' := by simp [hpushes]
    obtain ⟨before', after', hsplit', hrows', hreach', -⟩ := hread.placed.checkpoint hlater'
    have hbefore' : ∀ r ∈ before', r ∈ batches.flatten := fun r hr => by rw [hsplit']; simp [hr]
    -- the row that set the first watermark is among those before the second
    have hkept : r ∈ before'.filter plan.tracker.spec.keeps := by
      rw [← hrows', rowsOf_append, hrows]
      exact List.mem_append_left _ ((hread.placed.mem_kept hbefore).2 ⟨hr, hnew⟩)
    exact hreach'.bound r ((hread.placed.mem_kept hbefore').1 hkept).1 _ hv hnew
  · intro plan batches e hagrees hplan hret hfail
    have hread : Reading s _ _ _ _ _ := ⟨hlag, hsound, hagrees, hplan, hret⟩
    obtain ⟨hpolicy, hnull, -⟩ := hread.placed.fails hfail
    exact ⟨hpolicy, hnull⟩

/-! ## Two streams -/

/-- The integer a literal starts with after `skip` characters. -/
def digitsAt (skip : Nat) (text : String) : Int :=
  ((text.toList.drop skip).takeWhile Char.isDigit).foldl (fun n c => 10 * n + (c.toNat - 48)) 0

def tableConfig (boundary : Bound) : CursorConfig :=
  ⟨"at", none, boundary, true, none, .exclusive, .exclude, none⟩

/-- A bigint cursor: its literal is the number itself. -/
def countersStream : Stream Int :=
  ⟨fun _ _ => .error "", ⟨.int64, tableConfig .inclusive⟩, "counters", digitsAt 0⟩

/-- Two rows that tie. -/
def counters : List (Row Int) :=
  [⟨[some "1"], some (.int 5), 5⟩, ⟨[some "2"], some (.int 5), 5⟩]

/-- Read once up to the first of two tied rows, and again with the tie the other
way round. -/
theorem counters_history :
    History countersStream countersStream.ServerAgrees counters counters
      (some ⟨.int 5, [[some "1"], [some "2"]]⟩) := by
  have hagrees (since : Option State) (hat : ∀ state, since = some state →
      state.watermark = .int 5) : countersStream.ServerAgrees counters since := by
    refine ⟨fun a ha b hb x y hx hy => ?_, fun state hstate r hr _ => ?_⟩
    · simp only [counters, List.mem_cons, List.not_mem_nil, or_false] at ha hb
      rcases ha with rfl | rfl <;> rcases hb with rfl | rfl <;> cases hx <;> cases hy <;> simp
    · rw [hat state hstate]
      simp only [counters, List.mem_cons, List.not_mem_nil, or_false] at hr
      rcases hr with rfl | rfl <;> decide
  have hstopped : History countersStream countersStream.ServerAgrees counters
      [⟨[some "1"], some (.int 5), 5⟩] (some ⟨.int 5, [[some "1"]]⟩) := by
    refine .stop [counters.take 1, counters.drop 1] [.rows (counters.take 1)]
      (.start (by decide)) (hagrees none (by simp)) rfl ⟨.refl _, ?_⟩ rfl
    simp [counters, IncrementalClauses.precedes]
  refine .complete [counters.reverse] hstopped (hagrees _ ?_) rfl ⟨?_, ?_⟩ rfl
  · rintro state ⟨⟩
    rfl
  · decide
  · simp [counters, IncrementalClauses.precedes]

theorem counters_exactly_once :
    ExactlyOnce countersStream counters counters (some ⟨.int 5, [[some "1"], [some "2"]]⟩) :=
  incremental_exactly_once countersStream rfl counters counters _ counters_history

/-- A time-of-day cursor: the sum in its literal wraps at midnight. -/
def clockStream : Stream Int :=
  ⟨fun _ _ => .error "", ⟨.time, tableConfig .inclusive⟩, "clock",
    fun text => digitsAt 16 text % 86400000000⟩

/-- A row late in the day and one at 24:00. -/
def clockTimes : List (Row Int) :=
  [⟨[some "1"], some (.time 82800000000), 82800000000⟩,
   ⟨[some "2"], some (.time 86400000000), 86400000000⟩]

/-- Two reads run to their end: the watermark 24:00 comes back as 00:00, so the
second one fetches and commits the earlier row again. -/
theorem clock_row_committed_twice :
    History clockStream (fun _ _ => True) clockTimes (clockTimes ++ clockTimes.take 1)
        (some ⟨.time 86400000000, [[some "2"]]⟩) ∧
      ¬ ((clockTimes ++ clockTimes.take 1).filter fun r => r.cursor.isSome).Nodup := by
  have hreturns (plan : Incremental)
      (hall : clockTimes.filter (plan.clauses.selects clockStream.evaluate) = clockTimes)
      (hasc : plan.clauses.ascending = true) :
      plan.clauses.Returns clockStream.evaluate clockTimes [clockTimes].flatten := by
    refine ⟨by rw [hall]; exact .refl _, ?_⟩
    simp [clockTimes, IncrementalClauses.precedes, hasc]
  have hfirst : History clockStream (fun _ _ => True) clockTimes clockTimes
      (some ⟨.time 86400000000, [[some "2"]]⟩) :=
    .complete [clockTimes] (.start (by decide)) trivial rfl (hreturns _ (by decide) rfl) rfl
  refine ⟨?_, by decide⟩
  exact .complete [clockTimes] hfirst trivial rfl (hreturns _ (by decide) rfl) rfl

end Cursor
