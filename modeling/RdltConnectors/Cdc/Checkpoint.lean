import RdltConnectors.Cdc.Stream
import RdltConnectors.Cdc.Batch

/-!
# Checkpoints are exact

A checkpoint at `c` is preceded by exactly the rows of the transactions that
committed after the starting position and no later than `c`, whole and in order.
Runs that stop at a checkpoint and resume from it therefore add up: whatever the
history, the rows delivered are those of each transaction once.
-/
namespace Cdc

open PgTypes Fallible

variable {V : Type} {builder : ColumnBuilder V} {p : Plan} {rel : Relations}

/-- The rows of the transactions with `lo < commit ≤ hi`, in commit order; a
failure if one of them is unappliable. -/
def Plan.rowsBetween (p : Plan) (rel : Relations) :
    List Transaction → Nat → Nat → Except SourceError (List Row)
  | [], _, _ => .ok []
  | t :: txs, lo, hi =>
    if lo < t.commit ∧ t.commit ≤ hi then
      joinRows (p.bodyRows rel t.body) (p.rowsBetween (rel.after t.body) txs lo hi)
    else p.rowsBetween (rel.after t.body) txs lo hi

def CommitOrdered (txs : List Transaction) : Prop :=
  txs.Pairwise fun a b => a.commit < b.commit

theorem joinRows_ok {x y : Except SourceError (List Row)} {rows : List Row} :
    joinRows x y = .ok rows ↔ ∃ xs ys, x = .ok xs ∧ y = .ok ys ∧ rows = xs ++ ys := by
  cases x <;> cases y <;> simp [joinRows, Except.bind, Except.map, eq_comm]

theorem rowsBetween_inside {t : Transaction} {lo hi : Nat} (hin : lo < t.commit ∧ t.commit ≤ hi)
    (txs : List Transaction) :
    p.rowsBetween rel (t :: txs) lo hi =
      joinRows (p.bodyRows rel t.body) (p.rowsBetween (rel.after t.body) txs lo hi) := by
  simp only [Plan.rowsBetween, hin, and_self, if_true]

theorem rowsBetween_outside {t : Transaction} {lo hi : Nat}
    (hout : ¬ (lo < t.commit ∧ t.commit ≤ hi)) (txs : List Transaction) :
    p.rowsBetween rel (t :: txs) lo hi = p.rowsBetween (rel.after t.body) txs lo hi := by
  simp only [Plan.rowsBetween, hout, if_false]

/-- Only the commits inside the range matter. -/
theorem rowsBetween_congr {txs : List Transaction} {lo hi lo' hi' : Nat}
    (h : ∀ t ∈ txs, (lo < t.commit ∧ t.commit ≤ hi) ↔ (lo' < t.commit ∧ t.commit ≤ hi')) :
    p.rowsBetween rel txs lo hi = p.rowsBetween rel txs lo' hi' := by
  induction txs generalizing rel with
  | nil => rfl
  | cons t txs ih =>
    have hrest : p.rowsBetween (rel.after t.body) txs lo hi
        = p.rowsBetween (rel.after t.body) txs lo' hi' := ih fun t' ht' => h t' (by simp [ht'])
    simp only [Plan.rowsBetween, h t (by simp), hrest]

theorem rowsBetween_none {txs : List Transaction} {lo hi : Nat}
    (h : ∀ t ∈ txs, ¬ (lo < t.commit ∧ t.commit ≤ hi)) :
    p.rowsBetween rel txs lo hi = .ok [] := by
  induction txs generalizing rel with
  | nil => rfl
  | cons t txs ih =>
    rw [rowsBetween_outside (h t (by simp))]
    exact ih fun t' ht' => h t' (by simp [ht'])

/-- Adjacent ranges add up. -/
theorem rowsBetween_split {txs : List Transaction} {lo mid hi : Nat}
    {first second : List Row} (hord : CommitOrdered txs) (hlm : lo ≤ mid) (hmh : mid ≤ hi)
    (hfirst : p.rowsBetween rel txs lo mid = .ok first)
    (hsecond : p.rowsBetween rel txs mid hi = .ok second) :
    p.rowsBetween rel txs lo hi = .ok (first ++ second) := by
  induction txs generalizing rel first second with
  | nil =>
    simp only [Plan.rowsBetween, Except.ok.injEq] at hfirst hsecond
    subst hfirst hsecond
    rfl
  | cons t txs ih =>
    obtain ⟨hlater, hord'⟩ := List.pairwise_cons.1 hord
    by_cases hmid : t.commit ≤ mid
    · have hskip : ¬ (mid < t.commit ∧ t.commit ≤ hi) := by omega
      rw [rowsBetween_outside hskip] at hsecond
      by_cases hlo : lo < t.commit
      · have hin : lo < t.commit ∧ t.commit ≤ mid := ⟨hlo, hmid⟩
        have hin' : lo < t.commit ∧ t.commit ≤ hi := ⟨hlo, by omega⟩
        rw [rowsBetween_inside hin] at hfirst
        obtain ⟨xs, ys, hxs, hys, rfl⟩ := joinRows_ok.1 hfirst
        rw [rowsBetween_inside hin']
        exact joinRows_ok.2 ⟨xs, ys ++ second, hxs, ih hord' hys hsecond, by simp⟩
      · have hout : ¬ (lo < t.commit ∧ t.commit ≤ mid) := by omega
        have hout' : ¬ (lo < t.commit ∧ t.commit ≤ hi) := by omega
        rw [rowsBetween_outside hout] at hfirst
        rw [rowsBetween_outside hout']
        exact ih hord' hfirst hsecond
    · -- the first transaction past the middle: everything later is past it too
      have hpast : ∀ t' ∈ t :: txs, mid < t'.commit := by
        intro t' ht'
        rcases List.mem_cons.1 ht' with rfl | ht'
        · omega
        · have := hlater t' ht'
          omega
      have hempty : p.rowsBetween rel (t :: txs) lo mid = .ok [] :=
        rowsBetween_none fun t' ht' => by have := hpast t' ht'; omega
      rw [hempty, Except.ok.injEq] at hfirst
      subst hfirst
      rw [List.nil_append, ← hsecond]
      exact rowsBetween_congr fun t' ht' => by have := hpast t' ht'; omega

/-- Reading no further than the target loses nothing up to it. -/
theorem rowsBetween_filter {txs : List Transaction} {lo hi target : Nat}
    (hord : CommitOrdered txs) (hle : hi ≤ max target lo) :
    p.rowsBetween rel (txs.filter fun t => t.commit ≤ target) lo hi =
      p.rowsBetween rel txs lo hi := by
  induction txs generalizing rel with
  | nil => rfl
  | cons t txs ih =>
    obtain ⟨hlater, hord'⟩ := List.pairwise_cons.1 hord
    by_cases ht : t.commit ≤ target
    · simp only [List.filter_cons, ht, decide_true, if_true, Plan.rowsBetween, ih hord']
    · have hpast : ∀ t' ∈ t :: txs, target < t'.commit := by
        intro t' ht'
        rcases List.mem_cons.1 ht' with rfl | ht'
        · omega
        · have := hlater t' ht'
          omega
      have hnone : (t :: txs).filter (fun t => t.commit ≤ target) = [] := by
        rw [List.filter_eq_nil_iff]
        intro t' ht'
        have := hpast t' ht'
        simp only [decide_eq_true_eq]
        omega
      rw [hnone]
      exact (rowsBetween_none fun t' ht' => by have := hpast t' ht'; omega).symm

/-! ## One pass -/

def checkpoints (emits : List (Emit V)) : List Nat :=
  emits.filterMap fun
    | .batch _ => none
    | .checkpoint c => some c

@[simp] theorem checkpoints_append (xs ys : List (Emit V)) :
    checkpoints (xs ++ ys) = checkpoints xs ++ checkpoints ys := by simp [checkpoints]

theorem mem_checkpoints {emits : List (Emit V)} {c : Nat} :
    c ∈ checkpoints emits ↔ Emit.checkpoint c ∈ emits := by
  simp only [checkpoints, List.mem_filterMap]
  constructor
  · rintro ⟨e, he, hc⟩
    cases e with
    | batch b => cases hc
    | checkpoint d =>
      obtain rfl : d = c := by simpa using hc
      exact he
  · exact fun h => ⟨_, h, rfl⟩

/-- A cut hands over everything that was ready, under the commit just applied. -/
theorem cut_spec {ready ready' : List Row} {commit : Nat} {emits : List (Emit V)}
    (h : cut builder p ready commit = .ok (ready', emits)) :
    ready' = [] ∧ (emits = [] ∧ ready = [] ∨
      ∃ b, emits = [.batch b, .checkpoint commit] ∧
        ready.mapM (decodeRow builder p.columns) = .ok b.rows) := by
  unfold cut at h
  by_cases hempty : ready.isEmpty
  · have hnil : ready = [] := by simpa using hempty
    simp only [hempty, if_true, Except.ok.injEq, Prod.mk.injEq] at h
    exact ⟨h.1 ▸ hnil, .inl ⟨h.2.symm, hnil⟩⟩
  · cases hb : batchOf builder p.columns p.flagColumn (ready.map Prod.fst)
        (ready.map Prod.snd) with
    | error detail => simp [hempty, hb] at h
    | ok b =>
      simp only [hempty, hb, if_false, Bool.false_eq_true, Except.ok.injEq, Prod.mk.injEq] at h
      exact ⟨h.1.symm, .inr ⟨b, h.2.symm, batchOf_rows hb⟩⟩

/-- One transaction: skipped, or its rows join what is ready, perhaps to be cut. -/
theorem settle_spec {since : Nat} {ready ready' : List Row} {t : Transaction}
    {emits : List (Emit V)}
    (h : settle builder p since rel ready t = .ok (ready', emits)) :
    t.commit ≤ since ∧ ready' = ready ∧ emits = [] ∨
    since < t.commit ∧ ∃ rows, p.bodyRows rel t.body = .ok rows ∧
      (ready' = ready ++ rows ∧ emits = [] ∨
        ready' = [] ∧ ∃ b, emits = [.batch b, .checkpoint t.commit] ∧
          (ready ++ rows).mapM (decodeRow builder p.columns) = .ok b.rows) := by
  unfold settle at h
  cases hcheck : p.checkRelations t.body with
  | error e => simp [hcheck] at h
  | ok u =>
    simp only [hcheck, decideCommit] at h
    by_cases hle : t.commit ≤ since
    · simp only [hle, if_true, Except.ok.injEq, Prod.mk.injEq] at h
      exact .inl ⟨hle, h.1.symm, h.2.symm⟩
    · simp only [hle, if_false] at h
      cases hbody : p.bodyRows rel t.body with
      | error e => simp [hbody] at h
      | ok rows =>
        simp only [hbody] at h
        refine .inr ⟨by omega, rows, rfl, ?_⟩
        by_cases hfull : (ready ++ rows).length ≥ p.batchMaxRows
        · rw [if_pos hfull] at h
          obtain ⟨hready', hcut⟩ := cut_spec h
          rcases hcut with ⟨hemits, hnil⟩ | ⟨b, hemits, hdecode⟩
          · exact .inl ⟨hready'.trans hnil.symm, hemits⟩
          · exact .inr ⟨hready', b, hemits, hdecode⟩
        · rw [if_neg hfull] at h
          simp only [Except.ok.injEq, Prod.mk.injEq] at h
          exact .inl ⟨h.1.symm, h.2.symm⟩

/-- The end of the range hands over what is left, under the target. -/
theorem finishPass_spec (builder : ColumnBuilder V) (p : Plan) (since target : Nat)
    (ready : List Row) :
    (finishPass builder p since target ready).emits = [] ∧
        (finishPass builder p since target ready).result ≠ .ok () ∨
    ∃ pre, (finishPass builder p since target ready).emits
        = pre ++ [.checkpoint (max target since)] ∧
      checkpoints pre = [] ∧
      ready.mapM (decodeRow builder p.columns) = .ok (batchRows pre) ∧
      (finishPass builder p since target ready).result = .ok () := by
  unfold finishPass
  by_cases hempty : ready.isEmpty
  · have hnil : ready = [] := by simpa using hempty
    exact .inr ⟨[], by simp [hempty], rfl, by simp [hnil], by simp [hempty]⟩
  · cases hb : batchOf builder p.columns p.flagColumn (ready.map Prod.fst)
        (ready.map Prod.snd) with
    | error detail => exact .inl (by simp [hempty])
    | ok b =>
      exact .inr ⟨[.batch b], by simp [hempty], rfl, by simpa using batchOf_rows hb,
        by simp [hempty]⟩

/-- A checkpoint found after a stretch without any lies in what follows it. -/
theorem checkpoint_split {pre post before rest : List (Emit V)} {c : Nat}
    (h : pre ++ .checkpoint c :: post = before ++ rest) (hno : checkpoints before = []) :
    ∃ pre', pre = before ++ pre' ∧ pre' ++ .checkpoint c :: post = rest := by
  rcases List.append_eq_append_iff.1 h with ⟨mid, hbefore, hrest⟩ | ⟨mid, hpre, hrest⟩
  · cases mid with
    | nil => exact ⟨[], by simpa using hbefore.symm, by simpa using hrest⟩
    | cons e mid =>
      simp only [List.cons_append, List.cons.injEq] at hrest
      have hmem : c ∈ checkpoints before := by
        rw [mem_checkpoints, hbefore, ← hrest.1]
        simp
      rw [hno] at hmem
      cases hmem
  · exact ⟨mid, hpre, hrest.symm⟩

variable {since target : Nat} {openTail : List (Nat × Message)}

theorem passOf_cons_ok {ready ready' : List Row} {t : Transaction} {txs : List Transaction}
    {emits : List (Emit V)} (h : settle builder p since rel ready t = .ok (ready', emits)) :
    passOf builder p since target openTail rel ready (t :: txs) =
      ⟨emits ++ (passOf builder p since target openTail (rel.after t.body) ready' txs).emits,
        (passOf builder p since target openTail (rel.after t.body) ready' txs).result⟩ := by
  rw [passOf, h]

/-- Checkpoints name commits past the start, or the target itself. -/
theorem passOf_checkpoint {ready : List Row} {txs : List Transaction} {c : Nat}
    (h : c ∈ checkpoints (passOf builder p since target openTail rel ready txs).emits) :
    c = max target since ∨ ∃ t ∈ txs, since < t.commit ∧ t.commit = c := by
  induction txs generalizing rel ready with
  | nil =>
    unfold passOf at h
    cases hcheck : p.checkRelations openTail with
    | error e => simp [hcheck, checkpoints] at h
    | ok u =>
      simp only [hcheck] at h
      rcases finishPass_spec builder p since target ready with ⟨hnone, -⟩ | ⟨pre, hpre, hno, -, -⟩
      · simp [hnone, checkpoints] at h
      · rw [hpre, checkpoints_append, hno] at h
        exact .inl (by simpa [checkpoints] using h)
  | cons t txs ih =>
    cases hsettle : settle builder p since rel ready t with
    | error e => simp [passOf, hsettle, checkpoints] at h
    | ok next =>
      obtain ⟨ready', emits⟩ := next
      rw [passOf_cons_ok hsettle, checkpoints_append, List.mem_append] at h
      rcases h with hhere | hlater
      · rcases settle_spec hsettle with ⟨-, -, rfl⟩ | ⟨hlt, rows, -, ⟨-, rfl⟩ | ⟨-, b, rfl, -⟩⟩
        · simp [checkpoints] at hhere
        · simp [checkpoints] at hhere
        · exact .inr ⟨t, by simp, hlt, by simpa [checkpoints, eq_comm] using hhere⟩
      · rcases ih hlater with hc | ⟨t', ht', hc⟩
        · exact .inl hc
        · exact .inr ⟨t', by simp [ht'], hc⟩

/-- The exactness of one pass: before a checkpoint stand the rows that were
ready and those of the transactions up to it. -/
theorem passOf_exact {ready : List Row} {txs : List Transaction} {c : Nat}
    {pre post : List (Emit V)} (hord : CommitOrdered txs) (hle : ∀ t ∈ txs, t.commit ≤ target)
    (h : (passOf builder p since target openTail rel ready txs).emits
      = pre ++ .checkpoint c :: post) :
    ∃ rows, p.rowsBetween rel txs since c = .ok rows ∧
      (ready ++ rows).mapM (decodeRow builder p.columns) = .ok (batchRows pre) := by
  induction txs generalizing rel ready pre with
  | nil =>
    unfold passOf at h
    cases hcheck : p.checkRelations openTail with
    | error e => simp [hcheck] at h
    | ok u =>
      simp only [hcheck] at h
      rcases finishPass_spec builder p since target ready with
        ⟨hnone, -⟩ | ⟨pre₀, hpre₀, hno, hdecode, -⟩
      · simp [hnone] at h
      · rw [hpre₀] at h
        obtain ⟨pre', rfl, hrest⟩ := checkpoint_split h.symm hno
        obtain rfl : pre' = [] := by
          cases pre' with
          | nil => rfl
          | cons e pre' => simp at hrest
        exact ⟨[], rfl, by simpa using hdecode⟩
  | cons t txs ih =>
    obtain ⟨hlater, hord'⟩ := List.pairwise_cons.1 hord
    have hle' : ∀ t' ∈ txs, t'.commit ≤ target := fun t' ht' => hle t' (by simp [ht'])
    cases hsettle : settle builder p since rel ready t with
    | error e => simp [passOf, hsettle] at h
    | ok next =>
      obtain ⟨ready', emits⟩ := next
      rw [passOf_cons_ok hsettle] at h
      -- any checkpoint of the rest is at or past this transaction's commit
      have hpast (pre' : List (Emit V))
          (hrest : (passOf builder p since target openTail (rel.after t.body) ready' txs).emits
            = pre' ++ .checkpoint c :: post) : t.commit ≤ c := by
        have hmem : c ∈ checkpoints
            (passOf builder p since target openTail (rel.after t.body) ready' txs).emits := by
          rw [hrest]
          simp [checkpoints]
        rcases passOf_checkpoint hmem with hc | ⟨t', ht', -, hc⟩
        · have := hle t (by simp)
          omega
        · have := hlater t' ht'
          omega
      rcases settle_spec hsettle with
        ⟨hskip, rfl, rfl⟩ | ⟨hlt, rows, hbody, ⟨rfl, rfl⟩ | ⟨rfl, b, rfl, hb⟩⟩
      · obtain ⟨rows', hrows', hdecode⟩ := ih hord' hle' h
        have hout : ¬ (since < t.commit ∧ t.commit ≤ c) := by omega
        exact ⟨rows', (rowsBetween_outside hout txs).trans hrows', hdecode⟩
      · obtain ⟨rows', hrows', hdecode⟩ := ih hord' hle' h
        have hin : since < t.commit ∧ t.commit ≤ c := ⟨hlt, hpast pre h⟩
        refine ⟨rows ++ rows', ?_, by rwa [← List.append_assoc]⟩
        rw [rowsBetween_inside hin]
        exact joinRows_ok.2 ⟨rows, rows', hbody, hrows', rfl⟩
      · obtain ⟨pre', rfl, hrest⟩ :=
          checkpoint_split (show pre ++ _ = [.batch b] ++ _ from h.symm) rfl
        cases pre' with
        | nil =>
          obtain rfl : c = t.commit := by
            simp only [List.nil_append, List.cons.injEq, Emit.checkpoint.injEq] at hrest
            exact hrest.1
          have hin : since < t.commit ∧ t.commit ≤ t.commit := ⟨hlt, Nat.le_refl _⟩
          have hnone : p.rowsBetween (rel.after t.body) txs since t.commit = .ok [] :=
            rowsBetween_none fun t' ht' => by have := hlater t' ht'; omega
          refine ⟨rows, ?_, by simpa using hb⟩
          rw [rowsBetween_inside hin]
          exact joinRows_ok.2 ⟨rows, [], hbody, hnone, by simp⟩
        | cons e pre' =>
          simp only [List.cons_append, List.cons.injEq] at hrest
          obtain ⟨rfl, hrest⟩ := hrest
          obtain ⟨rows', hrows', hdecode⟩ := ih hord' hle' hrest.symm
          have hin : since < t.commit ∧ t.commit ≤ c := ⟨hlt, hpast pre' hrest.symm⟩
          refine ⟨rows ++ rows', ?_, ?_⟩
          · rw [rowsBetween_inside hin]
            exact joinRows_ok.2 ⟨rows, rows', hbody, hrows', rfl⟩
          · rw [← List.append_assoc]
            exact mapM_append_ok.2 ⟨_, _, hb, hdecode, rfl⟩

/-- Checkpoints never go back. -/
theorem passOf_sorted {ready : List Row} {txs : List Transaction} (hord : CommitOrdered txs)
    (hle : ∀ t ∈ txs, t.commit ≤ target) :
    (checkpoints (passOf builder p since target openTail rel ready txs).emits).Pairwise
      (· ≤ ·) := by
  induction txs generalizing rel ready with
  | nil =>
    unfold passOf
    cases hcheck : p.checkRelations openTail with
    | error e => simp [checkpoints]
    | ok u =>
      rcases finishPass_spec builder p since target ready with ⟨hnone, -⟩ | ⟨pre, hpre, hno, -, -⟩
      · simp [hnone, checkpoints]
      · simp only
        rw [hpre, checkpoints_append, hno]
        simp [checkpoints]
  | cons t txs ih =>
    obtain ⟨hlater, hord'⟩ := List.pairwise_cons.1 hord
    have hle' : ∀ t' ∈ txs, t'.commit ≤ target := fun t' ht' => hle t' (by simp [ht'])
    cases hsettle : settle builder p since rel ready t with
    | error e => simp [passOf, hsettle, checkpoints]
    | ok next =>
      obtain ⟨ready', emits⟩ := next
      rw [passOf_cons_ok hsettle]
      simp only [checkpoints_append]
      rcases settle_spec hsettle with ⟨-, -, rfl⟩ | ⟨-, rows, -, ⟨-, rfl⟩ | ⟨-, b, rfl, -⟩⟩
      · simpa [checkpoints] using ih hord' hle'
      · simpa [checkpoints] using ih hord' hle'
      · refine List.pairwise_append.2 ⟨by simp [checkpoints], ih hord' hle', ?_⟩
        intro x hx c hc
        obtain rfl : x = t.commit := by simpa [checkpoints] using hx
        rcases passOf_checkpoint hc with rfl | ⟨t', ht', -, rfl⟩
        · exact Nat.le_trans (hle t (by simp)) (Nat.le_max_left _ _)
        · exact Nat.le_of_lt (hlater t' ht')

/-- A pass that succeeds ends on the target's checkpoint. -/
theorem passOf_complete {ready : List Row} {txs : List Transaction}
    (h : (passOf builder p since target openTail rel ready txs).result = .ok ()) :
    ∃ pre, (passOf builder p since target openTail rel ready txs).emits
      = pre ++ [.checkpoint (max target since)] := by
  induction txs generalizing rel ready with
  | nil =>
    unfold passOf at h ⊢
    cases hcheck : p.checkRelations openTail with
    | error e => simp [hcheck] at h
    | ok u =>
      simp only [hcheck] at h ⊢
      rcases finishPass_spec builder p since target ready with ⟨-, hbad⟩ | ⟨pre, hpre, -⟩
      · exact absurd h hbad
      · exact ⟨pre, hpre⟩
  | cons t txs ih =>
    cases hsettle : settle builder p since rel ready t with
    | error e => simp [passOf, hsettle] at h
    | ok next =>
      obtain ⟨ready', emits⟩ := next
      rw [passOf_cons_ok hsettle] at h ⊢
      obtain ⟨pre, hpre⟩ := ih h
      exact ⟨emits ++ pre, by simp [hpre]⟩

/-! ## When a pass succeeds -/

theorem rowsBetween_mono {txs : List Transaction} {lo lo' hi : Nat} {rows : List Row}
    (hlo : lo ≤ lo') (h : p.rowsBetween rel txs lo hi = .ok rows) :
    ∃ rows', p.rowsBetween rel txs lo' hi = .ok rows' ∧ ∀ r ∈ rows', r ∈ rows := by
  induction txs generalizing rel rows with
  | nil => exact ⟨[], rfl, by simp⟩
  | cons t txs ih =>
    by_cases hin : lo < t.commit ∧ t.commit ≤ hi
    · rw [rowsBetween_inside hin] at h
      obtain ⟨xs, ys, hxs, hys, rfl⟩ := joinRows_ok.1 h
      obtain ⟨ys', hys', hsub⟩ := ih hys
      by_cases hin' : lo' < t.commit ∧ t.commit ≤ hi
      · refine ⟨xs ++ ys', ?_, ?_⟩
        · rw [rowsBetween_inside hin']
          exact joinRows_ok.2 ⟨xs, ys', hxs, hys', rfl⟩
        · intro r hr
          rcases List.mem_append.1 hr with hx | hy
          · simp [hx]
          · simp [hsub r hy]
      · refine ⟨ys', (rowsBetween_outside hin' txs).trans hys', ?_⟩
        intro r hr
        simp [hsub r hr]
    · have hout : ¬ (lo' < t.commit ∧ t.commit ≤ hi) := by omega
      rw [rowsBetween_outside hin] at h
      obtain ⟨rows', hrows', hsub⟩ := ih h
      exact ⟨rows', (rowsBetween_outside hout txs).trans hrows', hsub⟩

theorem cut_succeeds {ready : List Row} {out : List (OutRow V)} (commit : Nat)
    (h : ready.mapM (decodeRow builder p.columns) = .ok out) :
    ∃ next, cut builder p ready commit = .ok next := by
  unfold cut
  by_cases hempty : ready.isEmpty
  · exact ⟨_, by simp only [hempty, if_true]; rfl⟩
  · obtain ⟨b, hb⟩ := batchOf_succeeds p.flagColumn (by simpa using hempty)
      ⟨out, h⟩
    exact ⟨_, by simp only [hempty, hb]; rfl⟩

variable (builder rel) in
theorem settle_succeeds (ready : List Row) {t : Transaction}
    (hcheck : p.checkRelations t.body = .ok ())
    (hrows : since < t.commit → ∃ rows out, p.bodyRows rel t.body = .ok rows ∧
      (ready ++ rows).mapM (decodeRow builder p.columns) = .ok out) :
    ∃ next, settle builder p since rel ready t = .ok next := by
  unfold settle decideCommit
  simp only [hcheck]
  by_cases hle : t.commit ≤ since
  · exact ⟨_, by simp only [hle, if_true]; rfl⟩
  · obtain ⟨rows, out, hbody, hdecode⟩ := hrows (by omega)
    simp only [hle, if_false, hbody]
    by_cases hfull : (ready ++ rows).length ≥ p.batchMaxRows
    · rw [if_pos hfull]
      exact cut_succeeds t.commit hdecode
    · exact ⟨_, by rw [if_neg hfull]⟩

theorem settle_checked {ready : List Row} {t : Transaction} {next : List Row × List (Emit V)}
    (h : settle builder p since rel ready t = .ok next) : p.checkRelations t.body = .ok () := by
  cases hc : p.checkRelations t.body with
  | error e => simp [settle, hc] at h
  | ok u => rfl

/-- What is still to be decoded after a transaction decodes exactly if it did before it. -/
theorem settle_decodes {ready ready' : List Row} {t : Transaction} {emits : List (Emit V)}
    (h : settle builder p since rel ready t = .ok (ready', emits)) (ht : t.commit ≤ target)
    (txs : List Transaction) :
    (∃ rows out, p.rowsBetween rel (t :: txs) since target = .ok rows ∧
        (ready ++ rows).mapM (decodeRow builder p.columns) = .ok out) ↔
      ∃ rows out, p.rowsBetween (rel.after t.body) txs since target = .ok rows ∧
        (ready' ++ rows).mapM (decodeRow builder p.columns) = .ok out := by
  rcases settle_spec h with ⟨hskip, rfl, -⟩ | ⟨hlt, rows₀, hbody, hnext⟩
  · have hout : ¬ (since < t.commit ∧ t.commit ≤ target) := by omega
    rw [rowsBetween_outside hout]
  · rw [rowsBetween_inside ⟨hlt, ht⟩, hbody]
    constructor
    · rintro ⟨rows, out, hrows, hdecode⟩
      obtain ⟨xs, ys, hxs, hys, rfl⟩ := joinRows_ok.1 hrows
      obtain rfl := Except.ok.inj hxs
      rw [← List.append_assoc] at hdecode
      rcases hnext with ⟨rfl, -⟩ | ⟨rfl, b, -, -⟩
      · exact ⟨ys, out, hys, hdecode⟩
      · -- the cut has taken the rows of this transaction away
        obtain ⟨out₁, out₂, -, hout₂, -⟩ := mapM_append_ok.1 hdecode
        exact ⟨ys, out₂, hys, hout₂⟩
    · rintro ⟨rows, out, hrows, hdecode⟩
      rcases hnext with ⟨rfl, -⟩ | ⟨rfl, b, -, hb⟩
      · refine ⟨rows₀ ++ rows, out, joinRows_ok.2 ⟨rows₀, rows, rfl, hrows, rfl⟩, ?_⟩
        rwa [← List.append_assoc]
      · refine ⟨rows₀ ++ rows, b.rows ++ out, joinRows_ok.2 ⟨rows₀, rows, rfl, hrows, rfl⟩, ?_⟩
        rw [← List.append_assoc]
        exact mapM_append_ok.2 ⟨_, _, hb, hdecode, rfl⟩

theorem finishPass_succeeds (builder : ColumnBuilder V) (p : Plan) (since target : Nat)
    (ready : List Row) :
    (finishPass builder p since target ready).result = .ok () ↔
      ∃ out, ready.mapM (decodeRow builder p.columns) = .ok out := by
  constructor
  · intro h
    rcases finishPass_spec builder p since target ready with ⟨-, hbad⟩ | ⟨pre, -, -, hdecode, -⟩
    · exact absurd h hbad
    · exact ⟨_, hdecode⟩
  · intro hout
    unfold finishPass
    by_cases hempty : ready.isEmpty
    · simp [hempty]
    · obtain ⟨b, hb⟩ := batchOf_succeeds p.flagColumn (by simpa using hempty) hout
      simp [hempty, hb]

/-- A pass over a range fails only on a drifted relation, an unappliable record
past the start, or a text the columns cannot take. -/
theorem passOf_succeeds {ready : List Row} {txs : List Transaction}
    (hle : ∀ t ∈ txs, t.commit ≤ target) :
    (passOf builder p since target openTail rel ready txs).result = .ok () ↔
      (∀ t ∈ txs, p.checkRelations t.body = .ok ()) ∧ p.checkRelations openTail = .ok () ∧
        ∃ rows out, p.rowsBetween rel txs since target = .ok rows ∧
          (ready ++ rows).mapM (decodeRow builder p.columns) = .ok out := by
  induction txs generalizing rel ready with
  | nil =>
    simp only [passOf, Plan.rowsBetween, List.not_mem_nil, false_implies, implies_true, true_and]
    cases hcheck : p.checkRelations openTail with
    | error e => simp
    | ok u => simpa [eq_comm] using finishPass_succeeds builder p since target ready
  | cons t txs ih =>
    have hle' : ∀ t' ∈ txs, t'.commit ≤ target := fun t' ht' => hle t' (by simp [ht'])
    have ht : t.commit ≤ target := hle t (by simp)
    constructor
    · intro h
      cases hsettle : settle builder p since rel ready t with
      | error e => simp [passOf, hsettle] at h
      | ok next =>
        obtain ⟨ready', emits⟩ := next
        rw [passOf_cons_ok hsettle] at h
        obtain ⟨hchecks, htail, hrest⟩ := (ih hle').1 h
        exact ⟨List.forall_mem_cons.2 ⟨settle_checked hsettle, hchecks⟩, htail,
          (settle_decodes hsettle ht txs).2 hrest⟩
    · rintro ⟨hchecks, htail, hrest⟩
      obtain ⟨hcheck, hchecks'⟩ := List.forall_mem_cons.1 hchecks
      obtain ⟨⟨ready', emits⟩, hsettle⟩ := settle_succeeds builder rel ready hcheck fun hlt => by
        obtain ⟨rows, out, hrows, hdecode⟩ := hrest
        rw [rowsBetween_inside ⟨hlt, ht⟩] at hrows
        obtain ⟨xs, ys, hxs, -, rfl⟩ := joinRows_ok.1 hrows
        rw [← List.append_assoc] at hdecode
        obtain ⟨out₁, -, hout₁, -, -⟩ := mapM_append_ok.1 hdecode
        exact ⟨xs, out₁, hxs, hout₁⟩
      rw [passOf_cons_ok hsettle]
      exact (ih hle').2 ⟨hchecks', htail, (settle_decodes hsettle ht txs).1 hrest⟩

/-- Whatever a later start skips cannot make it fail. -/
theorem passOf_resume {txs : List Transaction} {since' : Nat} (hle : ∀ t ∈ txs, t.commit ≤ target)
    (hsince : since ≤ since')
    (h : (passOf builder p since target openTail rel [] txs).result = .ok ()) :
    (passOf builder p since' target openTail rel [] txs).result = .ok () := by
  obtain ⟨hchecks, htail, rows, out, hrows, hdecode⟩ := (passOf_succeeds hle).1 h
  obtain ⟨rows', hrows', hsub⟩ := rowsBetween_mono hsince hrows
  have hdecode' : ∃ out', rows'.mapM (decodeRow builder p.columns) = .ok out' :=
    mapM_succeeds.2 fun r hr => mapM_succeeds.1 ⟨out, hdecode⟩ r (hsub r hr)
  obtain ⟨out', hout'⟩ := hdecode'
  exact (passOf_succeeds hle).2 ⟨hchecks, htail, rows', out', hrows', hout'⟩

/-! ## Passes that stop and resume -/

/-- What a peek up to `target` reads of a log. -/
def peeked (log : List Transaction) (target : Nat) : List (Nat × Message) :=
  streamOf (log.filter fun t => t.commit ≤ target)

theorem commit_le_of_read {log : List Transaction} :
    ∀ t ∈ log.filter (fun t => t.commit ≤ target), t.commit ≤ target :=
  fun _ ht => by simpa using (List.mem_filter.1 ht).2

theorem changePass_eq {context : StreamContext} {stream : String} {log : List Transaction}
    (hp : Plan.new context stream = .ok p) (htail : ∀ r ∈ openTail, r.2 ≠ .commit) :
    changePass builder context stream since target (peeked log target ++ openTail) =
      passOf builder p since target openTail noRelations []
        (log.filter fun t => t.commit ≤ target) := by
  have hnew : Apply.new context stream since = .ok (p, Apply.empty since) := by
    rw [Apply.new, hp]
    rfl
  rw [changePass, hnew]
  exact consume_eq_passOf openTail htail _ (settled_empty p since)

/-- Everything the destination can hold after passes over a growing log, each
resumed from the checkpoint the last one stopped at, and that checkpoint. -/
inductive Delivered (builder : ColumnBuilder V) (context : StreamContext) (stream : String)
    (log : List Transaction) (since : Nat) : List (OutRow V) → Nat → Prop where
  | start : Delivered builder context stream log since [] since
  | resume {out : List (OutRow V)} {c c' : Nat} {pre post : List (Emit V)} (target : Nat)
      (openTail : List (Nat × Message)) (htail : ∀ r ∈ openTail, r.2 ≠ .commit) :
      Delivered builder context stream log since out c →
      (changePass builder context stream c target (peeked log target ++ openTail)).emits
        = pre ++ .checkpoint c' :: post →
      Delivered builder context stream log since (out ++ batchRows pre) c'

/-- The exactness of a stream's checkpoints, for one pass and for all histories. -/
structure CheckpointExact (builder : ColumnBuilder V) (context : StreamContext)
    (stream : String) (p : Plan) (log : List Transaction) (since target : Nat)
    (openTail : List (Nat × Message)) : Prop where
  /-- before a checkpoint: the rows of the transactions up to it, whole and in order -/
  exact : ∀ pre c post,
    (changePass builder context stream since target (peeked log target ++ openTail)).emits
      = pre ++ .checkpoint c :: post →
    ∃ rows, p.rowsBetween noRelations log since c = .ok rows ∧
      rows.mapM (decodeRow builder p.columns) = .ok (batchRows pre)
  /-- checkpoints are non-decreasing -/
  sorted : (checkpoints
    (changePass builder context stream since target
      (peeked log target ++ openTail)).emits).Pairwise (· ≤ ·)
  /-- a pass succeeds when no relation drifted, the records past the start are appliable
  and their texts decode, and only then -/
  succeeds :
    (changePass builder context stream since target (peeked log target ++ openTail)).result
        = .ok () ↔
      (∀ t ∈ log, t.commit ≤ target → p.checkRelations t.body = .ok ()) ∧
        p.checkRelations openTail = .ok () ∧
        ∃ rows out, p.rowsBetween noRelations log since target = .ok rows ∧
          rows.mapM (decodeRow builder p.columns) = .ok out
  /-- a pass that succeeds reaches the target -/
  complete :
    (changePass builder context stream since target (peeked log target ++ openTail)).result
      = .ok () →
    ∃ pre, (changePass builder context stream since target
      (peeked log target ++ openTail)).emits = pre ++ [.checkpoint (max target since)]
  /-- stopping at a checkpoint and resuming from it delivers the remaining rows -/
  resumes : ∀ pre c post,
    (changePass builder context stream since target (peeked log target ++ openTail)).result
      = .ok () →
    (changePass builder context stream since target (peeked log target ++ openTail)).emits
      = pre ++ .checkpoint c :: post →
    (changePass builder context stream c target (peeked log target ++ openTail)).result
        = .ok () ∧
      batchRows pre ++ batchRows
          (changePass builder context stream c target (peeked log target ++ openTail)).emits
        = batchRows
          (changePass builder context stream since target (peeked log target ++ openTail)).emits
  /-- over any history of stops and resumes each transaction is delivered once -/
  history : ∀ out c, Delivered builder context stream log since out c →
    ∃ rows, p.rowsBetween noRelations log since c = .ok rows ∧
      rows.mapM (decodeRow builder p.columns) = .ok out

theorem pass_exact {context : StreamContext} {stream : String} {log : List Transaction}
    {pre post : List (Emit V)} {c : Nat} (hp : Plan.new context stream = .ok p)
    (hord : CommitOrdered log) (htail : ∀ r ∈ openTail, r.2 ≠ .commit)
    (h : (changePass builder context stream since target (peeked log target ++ openTail)).emits
      = pre ++ .checkpoint c :: post) :
    since ≤ c ∧ c ≤ max target since ∧ ∃ rows, p.rowsBetween noRelations log since c = .ok rows ∧
      rows.mapM (decodeRow builder p.columns) = .ok (batchRows pre) := by
  rw [changePass_eq hp htail] at h
  have hc : c = max target since ∨ ∃ t ∈ log.filter (fun t => t.commit ≤ target),
      since < t.commit ∧ t.commit = c := by
    have hmem : c ∈ checkpoints (passOf builder p since target openTail noRelations []
        (log.filter fun t => t.commit ≤ target)).emits := by
      rw [h, mem_checkpoints]
      simp
    exact passOf_checkpoint hmem
  have hbounds : since ≤ c ∧ c ≤ max target since := by
    rcases hc with rfl | ⟨t, ht, hlt, rfl⟩
    · exact ⟨Nat.le_max_right _ _, Nat.le_refl _⟩
    · have := commit_le_of_read t ht
      omega
  obtain ⟨rows, hrows, hdecode⟩ := passOf_exact (hord.filter _) commit_le_of_read h
  rw [rowsBetween_filter hord hbounds.2] at hrows
  exact ⟨hbounds.1, hbounds.2, rows, hrows, by simpa using hdecode⟩

theorem pass_complete {context : StreamContext} {stream : String} {log : List Transaction}
    (hp : Plan.new context stream = .ok p) (htail : ∀ r ∈ openTail, r.2 ≠ .commit)
    (h : (changePass builder context stream since target (peeked log target ++ openTail)).result
      = .ok ()) :
    ∃ pre, (changePass builder context stream since target
      (peeked log target ++ openTail)).emits = pre ++ [.checkpoint (max target since)] := by
  rw [changePass_eq hp htail] at h ⊢
  exact passOf_complete h

/-- A pass that stopped at a checkpoint and the one resumed from it make the
whole pass: both end at the target, and the ranges add up. -/
theorem pass_resumes {context : StreamContext} {stream : String} {log : List Transaction}
    {pre post : List (Emit V)} {c : Nat} (hp : Plan.new context stream = .ok p)
    (hord : CommitOrdered log) (htail : ∀ r ∈ openTail, r.2 ≠ .commit)
    (hok : (changePass builder context stream since target (peeked log target ++ openTail)).result
      = .ok ())
    (hemits : (changePass builder context stream since target (peeked log target ++ openTail)).emits
      = pre ++ .checkpoint c :: post) :
    (changePass builder context stream c target (peeked log target ++ openTail)).result = .ok () ∧
      batchRows pre ++ batchRows
          (changePass builder context stream c target (peeked log target ++ openTail)).emits
        = batchRows
          (changePass builder context stream since target (peeked log target ++ openTail)).emits := by
  obtain ⟨hsince, hc, rows, hrows, hdecode⟩ := pass_exact hp hord htail hemits
  have hok' : (changePass builder context stream c target
      (peeked log target ++ openTail)).result = .ok () := by
    rw [changePass_eq hp htail] at hok ⊢
    exact passOf_resume commit_le_of_read hsince hok
  refine ⟨hok', ?_⟩
  obtain ⟨whole, hwhole⟩ := pass_complete hp htail hok
  obtain ⟨later, hlater⟩ := pass_complete hp htail hok'
  obtain ⟨-, -, rows₁, hrows₁, hdecode₁⟩ := pass_exact hp hord htail hwhole
  obtain ⟨-, -, rows₂, hrows₂, hdecode₂⟩ := pass_exact hp hord htail hlater
  have hmax : max target c = max target since := by omega
  rw [hmax] at hrows₂
  have hsplit := rowsBetween_split hord hsince hc hrows hrows₂
  rw [hrows₁, Except.ok.injEq] at hsplit
  rw [hsplit] at hdecode₁
  have hjoin := mapM_append_ok.2 ⟨_, _, hdecode, hdecode₂, rfl⟩
  rw [hdecode₁, Except.ok.injEq] at hjoin
  rw [hwhole, hlater]
  simpa using hjoin.symm

theorem delivered_exact {context : StreamContext} {stream : String} {log : List Transaction}
    {out : List (OutRow V)} {c : Nat} (hp : Plan.new context stream = .ok p)
    (hord : CommitOrdered log) (h : Delivered builder context stream log since out c) :
    since ≤ c ∧ ∃ rows, p.rowsBetween noRelations log since c = .ok rows ∧
      rows.mapM (decodeRow builder p.columns) = .ok out := by
  induction h with
  | start =>
    exact ⟨Nat.le_refl _, [], rowsBetween_none fun t _ => by omega, rfl⟩
  | resume target openTail htail _ hstep ih =>
    obtain ⟨hle, rows, hrows, hdecode⟩ := ih
    obtain ⟨hle', -, rows', hrows', hdecode'⟩ := pass_exact hp hord htail hstep
    exact ⟨by omega, rows ++ rows', rowsBetween_split hord hle hle' hrows hrows',
      mapM_append_ok.2 ⟨_, _, hdecode, hdecode', rfl⟩⟩

/-- Checkpoint exactness, for every log in commit order, every start, every
batch size and every target. -/
theorem cdc_checkpoint_exact (builder : ColumnBuilder V) (context : StreamContext)
    (stream : String) (p : Plan) (hp : Plan.new context stream = .ok p)
    (log : List Transaction) (hord : CommitOrdered log) (since target : Nat)
    (openTail : List (Nat × Message)) (htail : ∀ r ∈ openTail, r.2 ≠ .commit) :
    CheckpointExact builder context stream p log since target openTail where
  exact := fun pre c post h => (pass_exact hp hord htail h).2.2
  sorted := by
    rw [changePass_eq hp htail]
    exact passOf_sorted (hord.filter _) commit_le_of_read
  succeeds := by
    rw [changePass_eq hp htail, passOf_succeeds commit_le_of_read,
      rowsBetween_filter hord (Nat.le_max_left _ _)]
    simp only [List.mem_filter, decide_eq_true_eq, and_imp, List.nil_append]
  complete := pass_complete hp htail
  resumes := fun pre c post => pass_resumes hp hord htail
  history := fun out c h => (delivered_exact hp hord h).2

def textBuilder : ColumnBuilder String := ⟨fun _ => .ok (), fun _ text => .ok text⟩

def ordersContext : StreamContext :=
  ⟨"public", [⟨"id", .int64, true⟩], ⟨["id"], false⟩, 1, "_rdlt_deleted"⟩

def ordersPlan : Plan :=
  ⟨"public", "orders", ⟨["id"], false⟩, [⟨"id", .int64, true⟩], 1, "_rdlt_deleted", [0]⟩

/-- Two transactions of one insert each. -/
def ordersLog : List Transaction :=
  [⟨5, [(5, .relation ⟨7, "public", "orders", [⟨"id"⟩]⟩), (6, .insert 7 ⟨[.text "1".toUTF8]⟩)],
      10, by decide⟩,
   ⟨15, [(16, .insert 7 ⟨[.text "2".toUTF8]⟩)], 20, by decide⟩]

/-- The pass over both succeeds. -/
theorem orders_checkpoint_exact :
    CheckpointExact textBuilder ordersContext "orders" ordersPlan ordersLog 0 20 [] ∧
      (changePass textBuilder ordersContext "orders" 0 20 (peeked ordersLog 20 ++ [])).result
        = .ok () ∧
      checkpoints (changePass textBuilder ordersContext "orders" 0 20
        (peeked ordersLog 20 ++ [])).emits = [10, 20, 20] := by
  have hexact : CheckpointExact textBuilder ordersContext "orders" ordersPlan ordersLog 0 20 [] :=
    cdc_checkpoint_exact textBuilder ordersContext "orders" ordersPlan rfl ordersLog
      (by simp [CommitOrdered, ordersLog]) 0 20 [] (by simp)
  have hrows : ∃ rows out, ordersPlan.rowsBetween noRelations ordersLog 0 20 = .ok rows ∧
      rows.mapM (decodeRow textBuilder ordersPlan.columns) = .ok out := ⟨_, _, rfl, rfl⟩
  exact ⟨hexact, hexact.succeeds.2 ⟨by decide, rfl, hrows⟩, by decide⟩

end Cdc
