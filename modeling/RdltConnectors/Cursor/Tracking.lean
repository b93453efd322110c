import Mathlib
import RdltConnectors.Cursor.Tracker

/-!
# What the tracker has seen

However a cursor-ordered stream is cut into batches, the rows a read hands on are
those its stored state does not cover, and a checkpoint tells exactly how far they
reach: the last value among them and the keys that share it.
-/
namespace Cursor

open PgTypes

variable {D : Type} {m : Bool}

/-! ## The cursor order -/

theorem beyond_irrefl (m : Bool) (a : Scalar) : beyond m a a = false := by
  cases m <;> simp [beyond]

theorem beyond_trans {a b c : Scalar} (hab : beyond m a b = true) (hbc : beyond m b c = true) :
    beyond m a c = true := by
  cases m with
  | true =>
    simp only [beyond, if_true, decide_eq_true_eq] at *
    exact lt_trans hbc hab
  | false =>
    simp only [beyond, Bool.false_eq_true, if_false, decide_eq_true_eq] at *
    exact lt_trans hab hbc

theorem beyond_asymm {a b : Scalar} (h : beyond m a b = true) : beyond m b a = false := by
  cases hba : beyond m b a with
  | false => rfl
  | true =>
    have := beyond_trans h hba
    simp [beyond_irrefl] at this

theorem beyond_or_eq {a b : Scalar} (h : beyond m b a = false) : a = b ∨ beyond m a b = true := by
  cases m with
  | true =>
    simp only [beyond, if_true, decide_eq_false_iff_not, decide_eq_true_eq, not_lt] at *
    exact (eq_or_lt_of_le h).imp_left Eq.symm
  | false =>
    simp only [beyond, Bool.false_eq_true, if_false, decide_eq_false_iff_not, decide_eq_true_eq,
      not_lt] at *
    exact eq_or_lt_of_le h

theorem not_beyond_of_eq {a b : Scalar} (h : a = b) : beyond m a b = false :=
  h ▸ beyond_irrefl m a

/-- NULLs first, then the values in the direction of the read. -/
def Follows (m : Bool) (a b : Row D) : Prop :=
  ∀ x, a.cursor = some x → ∃ y, b.cursor = some y ∧ beyond m x y = false

def InOrder (m : Bool) (rows : List (Row D)) : Prop := rows.Pairwise (Follows m)

/-! ## Screening -/

/-- The stored state covers the row: it is at the watermark, under a kept key. -/
def Spec.drops (spec : Spec) (row : Row D) : Bool :=
  match row.cursor, spec.stored with
  | some value, some stored => decide (value = stored.watermark ∧ row.key ∈ stored.boundaryKeys)
  | _, _ => false

def Spec.keeps (spec : Spec) (row : Row D) : Bool := !spec.drops row

theorem drops_of_beyond {spec : Spec} {row : Row D} {value : Scalar} {stored : State}
    (hvalue : row.cursor = some value) (hstored : spec.stored = some stored)
    (h : beyond m value stored.watermark = true) : spec.drops row = false := by
  have hne : value ≠ stored.watermark := by
    rintro rfl
    simp [beyond_irrefl] at h
  simp [Spec.drops, hvalue, hstored, hne]

/-- Once past the stored watermark, nothing later is covered. -/
def PastBoundary (t : Tracker) (rest : List (Row D)) : Prop :=
  t.inBoundary = false → ∀ row ∈ rest, t.spec.drops row = false

/-- Screening only moves the boundary flag and the count of dropped rows. -/
structure SameTrack (t t' : Tracker) : Prop where
  spec : t'.spec = t.spec
  lastValue : t'.lastValue = t.lastValue
  runKeys : t'.runKeys = t.runKeys

theorem SameTrack.refl (t : Tracker) : SameTrack t t := ⟨rfl, rfl, rfl⟩

theorem SameTrack.trans {a b c : Tracker} (hab : SameTrack a b) (hbc : SameTrack b c) :
    SameTrack a c :=
  ⟨hbc.spec.trans hab.spec, hbc.lastValue.trans hab.lastValue, hbc.runKeys.trans hab.runKeys⟩

theorem screenRow_spec {t : Tracker} {row : Row D} {rest : List (Row D)}
    (hpast : PastBoundary t (row :: rest))
    (hord : ∀ later ∈ rest, Follows t.spec.directionMax row later) :
    (t.screenRow row).2 = t.spec.keeps row ∧ SameTrack t (t.screenRow row).1 ∧
      PastBoundary (t.screenRow row).1 rest := by
  have hrest : PastBoundary t rest := fun h later hl => hpast h later (by simp [hl])
  unfold Tracker.screenRow
  cases hb : t.inBoundary with
  | false =>
    have hdrop := hpast hb row (by simp)
    exact ⟨by simp [Spec.keeps, hdrop], .refl t, hrest⟩
  | true =>
    cases hv : row.cursor with
    | none => exact ⟨by simp [Spec.keeps, Spec.drops, hv], .refl t, hrest⟩
    | some value =>
      cases hs : t.spec.stored with
      | none => exact ⟨by simp [Spec.keeps, Spec.drops, hs], .refl t, hrest⟩
      | some stored =>
        simp only
        by_cases hbeyond : t.isBeyond value stored.watermark
        · -- every later row is past the watermark as well
          rw [if_pos hbeyond]
          refine ⟨by simp [Spec.keeps, drops_of_beyond hv hs hbeyond], ⟨rfl, rfl, rfl⟩, ?_⟩
          intro _ later hl
          obtain ⟨y, hy, hnot⟩ := hord later hl value hv
          refine drops_of_beyond (m := t.spec.directionMax) hy hs ?_
          rcases beyond_or_eq hnot with rfl | hyv
          · exact hbeyond
          · exact beyond_trans hyv hbeyond
        · rw [if_neg hbeyond]
          by_cases hcovered : value = stored.watermark ∧ row.key ∈ stored.boundaryKeys
          · rw [if_pos hcovered]
            exact ⟨by simp [Spec.keeps, Spec.drops, hv, hs, hcovered], ⟨rfl, rfl, rfl⟩,
              fun h => by simp at h⟩
          · rw [if_neg hcovered]
            exact ⟨by simp [Spec.keeps, Spec.drops, hv, hs, hcovered], .refl t, hrest⟩

/-- A batch is screened as its rows would be against the stored state alone. -/
theorem screen_spec {t : Tracker} {batch rest : List (Row D)}
    (hpast : PastBoundary t (batch ++ rest)) (hord : InOrder t.spec.directionMax (batch ++ rest)) :
    (t.screen batch).2 = batch.filter t.spec.keeps ∧ SameTrack t (t.screen batch).1 ∧
      PastBoundary (t.screen batch).1 rest := by
  induction batch generalizing t with
  | nil => exact ⟨rfl, .refl t, hpast⟩
  | cons row batch ih =>
    obtain ⟨hrow, hord'⟩ := List.pairwise_cons.1 hord
    obtain ⟨hkeep, hsame, hpast'⟩ := screenRow_spec hpast hrow
    obtain ⟨hrest, hsame', hpast''⟩ := ih hpast' (by rwa [hsame.spec])
    refine ⟨?_, hsame.trans hsame', hpast''⟩
    rw [hsame.spec] at hrest
    simp only [Tracker.screen, hkeep, hrest, List.filter_cons]

/-! ## Tracking -/

/-- What the last value and its run say about the rows kept so far. -/
structure Tracked (t : Tracker) (kept : List (Row D)) : Prop where
  untouched : t.lastValue = none → ∀ r ∈ kept, r.cursor = none
  reached : ∀ v, t.lastValue = some v → ∃ r ∈ kept, r.cursor = some v
  bound : ∀ v, t.lastValue = some v → ∀ r ∈ kept, ∀ x, r.cursor = some x →
    beyond t.spec.directionMax x v = false
  run : ∀ v, t.lastValue = some v → ∀ key,
    key ∈ t.runKeys ↔ ∃ r ∈ kept, r.cursor = some v ∧ r.key = key

theorem tracked_new (spec : Spec) : Tracked (D := D) (.new spec) [] :=
  ⟨by simp, by simp [Tracker.new], by simp [Tracker.new], by simp [Tracker.new]⟩

theorem Tracked.same {t t' : Tracker} {kept : List (Row D)} (h : Tracked t kept)
    (hsame : SameTrack t t') : Tracked t' kept where
  untouched := by rw [hsame.lastValue]; exact h.untouched
  reached := by rw [hsame.lastValue]; exact h.reached
  bound := by rw [hsame.lastValue, hsame.spec]; exact h.bound
  run := by rw [hsame.lastValue, hsame.runKeys]; exact h.run

/-- A new last value, past all those before, starts a run of its own. -/
theorem Tracked.advance {t : Tracker} {kept : List (Row D)} {row : Row D} {value : Scalar}
    (hrow : row.cursor = some value)
    (hbefore : ∀ r ∈ kept, ∀ x, r.cursor = some x → beyond t.spec.directionMax value x = true) :
    Tracked { t with lastValue := some value, runKeys := [row.key] } (kept ++ [row]) where
  untouched := by simp
  reached := by
    rintro v ⟨⟩
    exact ⟨row, by simp, hrow⟩
  bound := by
    rintro v ⟨⟩ r hr x hx
    rcases List.mem_append.1 hr with hr | hr
    · exact beyond_asymm (hbefore r hr x hx)
    · obtain rfl : r = row := by simpa using hr
      exact not_beyond_of_eq (by simpa [hrow] using hx.symm)
  run := by
    rintro v ⟨⟩ key
    constructor
    · intro hkey
      exact ⟨row, by simp, hrow, (List.mem_singleton.1 hkey).symm⟩
    · rintro ⟨r, hr, hv, rfl⟩
      rcases List.mem_append.1 hr with hr | hr
      · have := hbefore r hr value hv
        simp [beyond_irrefl] at this
      · obtain rfl : r = row := by simpa using hr
        simp

theorem trackRow_spec {t : Tracker} {kept : List (Row D)} {row : Row D} (h : Tracked t kept)
    (hord : ∀ r ∈ kept, Follows t.spec.directionMax r row) :
    ∃ t', t.trackRow row = .ok t' ∧ Tracked t' (kept ++ [row]) ∧ t'.spec = t.spec ∧
      t'.inBoundary = t.inBoundary := by
  cases hv : row.cursor with
  | none =>
    refine ⟨t, by simp [Tracker.trackRow, hv], ?_, rfl, rfl⟩
    constructor
    · intro hlast r hr
      rcases List.mem_append.1 hr with hr | hr
      · exact h.untouched hlast r hr
      · obtain rfl : r = row := by simpa using hr
        exact hv
    · intro v hlast
      obtain ⟨r, hr, hrv⟩ := h.reached v hlast
      exact ⟨r, by simp [hr], hrv⟩
    · intro v hlast r hr x hx
      rcases List.mem_append.1 hr with hr | hr
      · exact h.bound v hlast r hr x hx
      · obtain rfl : r = row := by simpa using hr
        simp [hv] at hx
    · intro v hlast key
      rw [h.run v hlast key]
      constructor
      · rintro ⟨r, hr, hrest⟩
        exact ⟨r, by simp [hr], hrest⟩
      · rintro ⟨r, hr, hrv, hkey⟩
        rcases List.mem_append.1 hr with hr | hr
        · exact ⟨r, hr, hrv, hkey⟩
        · obtain rfl : r = row := by simpa using hr
          simp [hv] at hrv
  | some value =>
    cases hlast : t.lastValue with
    | none =>
      refine ⟨{ t with lastValue := some value, runKeys := [row.key] },
        by simp only [Tracker.trackRow, hv, hlast], ?_, rfl, rfl⟩
      exact Tracked.advance hv fun r hr x hx => by simp [h.untouched hlast r hr] at hx
    | some last =>
      obtain ⟨r₀, hr₀, hcursor⟩ := h.reached last hlast
      obtain ⟨y, hy, hnot⟩ := hord r₀ hr₀ last hcursor
      obtain rfl : value = y := by simpa [hv] using hy
      by_cases hsame : last = value
      · -- the run grows
        subst hsame
        refine ⟨{ t with runKeys := t.runKeys ++ [row.key] },
          by simp only [Tracker.trackRow, hv, hlast, if_true], ?_, rfl, rfl⟩
        constructor
        · simp [hlast]
        · intro v hv'
          obtain rfl : last = v := by simpa [hlast] using hv'
          exact ⟨row, by simp, hv⟩
        · intro v hv' r hr x hx
          obtain rfl : last = v := by simpa [hlast] using hv'
          rcases List.mem_append.1 hr with hr | hr
          · exact h.bound last hlast r hr x hx
          · obtain rfl : r = row := by simpa using hr
            exact not_beyond_of_eq (by simpa [hv] using hx.symm)
        · intro v hv' key
          obtain rfl : last = v := by simpa [hlast] using hv'
          change key ∈ t.runKeys ++ [row.key] ↔ _
          simp only [List.mem_append, h.run last hlast key, List.mem_singleton]
          constructor
          · rintro (⟨r, hr, hrest⟩ | rfl)
            · exact ⟨r, .inl hr, hrest⟩
            · exact ⟨row, .inr rfl, hv, rfl⟩
          · rintro ⟨r, hr | rfl, hrv, hkey⟩
            · exact .inl ⟨r, hr, hrv, hkey⟩
            · exact .inr hkey.symm
      · have hbeyond : t.isBeyond value last = true :=
          (beyond_or_eq hnot).resolve_left fun heq => hsame heq.symm
        refine ⟨{ t with lastValue := some value, runKeys := [row.key] },
          by simp only [Tracker.trackRow, hv, hlast, hsame, hbeyond, if_false, if_true], ?_,
          rfl, rfl⟩
        refine Tracked.advance hv fun r hr x hx => ?_
        rcases beyond_or_eq (h.bound last hlast r hr x hx) with rfl | hlx
        · exact hbeyond
        · exact beyond_trans hbeyond hlx

theorem track_spec {t : Tracker} {kept more : List (Row D)} (h : Tracked t kept)
    (hord : InOrder t.spec.directionMax (kept ++ more)) :
    ∃ t', t.track more = .ok t' ∧ Tracked t' (kept ++ more) ∧ t'.spec = t.spec ∧
      t'.inBoundary = t.inBoundary := by
  induction more generalizing t kept with
  | nil => exact ⟨t, rfl, by simpa using h, rfl, rfl⟩
  | cons row more ih =>
    have hrow : ∀ r ∈ kept, Follows t.spec.directionMax r row := fun r hr =>
      (List.pairwise_append.1 hord).2.2 r hr row (by simp)
    obtain ⟨t₁, hstep, htracked, hspec, hflag⟩ := trackRow_spec h hrow
    obtain ⟨t₂, hrest, htracked', hspec', hflag'⟩ :=
      ih htracked (by rw [hspec]; simpa using hord)
    refine ⟨t₂, ?_, by simpa using htracked', hspec'.trans hspec, hflag'.trans hflag⟩
    rw [Tracker.track, hstep]
    exact hrest

/-! ## Batches and reads -/

def rowsOf (pushes : List (Push D)) : List (Row D) :=
  pushes.flatMap fun
    | .rows batch => batch
    | .checkpoint _ => []

def checkpoints (pushes : List (Push D)) : List State :=
  pushes.filterMap fun
    | .rows _ => none
    | .checkpoint state => some state

@[simp] theorem rowsOf_append (xs ys : List (Push D)) :
    rowsOf (xs ++ ys) = rowsOf xs ++ rowsOf ys := by simp [rowsOf]
@[simp] theorem checkpoints_append (xs ys : List (Push D)) :
    checkpoints (xs ++ ys) = checkpoints xs ++ checkpoints ys := by simp [checkpoints]

theorem mem_checkpoints {pushes : List (Push D)} {c : State} :
    c ∈ checkpoints pushes ↔ Push.checkpoint c ∈ pushes := by
  simp only [checkpoints, List.mem_filterMap]
  constructor
  · rintro ⟨push, hpush, hc⟩
    cases push with
    | rows batch => cases hc
    | checkpoint state =>
      obtain rfl : state = c := by simpa using hc
      exact hpush
  · exact fun h => ⟨_, h, rfl⟩

/-- Handing out a checkpoint changes nothing the next one is made of. -/
theorem checkpoint_spec (t : Tracker) :
    SameTrack t t.checkpoint.1 ∧ t.checkpoint.1.inBoundary = t.inBoundary ∧
      ∀ c, t.checkpoint.2 = some c → t.checkpoint.1.currentState = some c := by
  unfold Tracker.checkpoint
  cases hstate : t.currentState with
  | none => exact ⟨.refl t, rfl, by simp⟩
  | some state =>
    by_cases hsame : t.emitted = some (state.watermark, state.boundaryKeys.length)
    · simp only [hsame, if_true]
      exact ⟨.refl t, by simp⟩
    · simp only [hsame, if_false]
      refine ⟨⟨rfl, rfl, rfl⟩, trivial, ?_⟩
      rintro c ⟨⟩
      exact hstate

theorem survivingRows_filter (batch : List (Row D)) (keep : Row D → Bool) :
    (survivingRows batch (batch.filter keep)).getD [] = batch.filter keep := by
  unfold survivingRows
  by_cases hall : (batch.filter keep).length = batch.length
  · rw [if_pos hall]
    exact (List.filter_eq_self.2 (List.length_filter_eq_length_iff.1 hall)).symm
  · rw [if_neg hall]
    by_cases hnone : (batch.filter keep).isEmpty
    · rw [if_pos hnone, List.isEmpty_iff.1 hnone]
      rfl
    · rw [if_neg hnone]
      rfl

/-- One batch: refused for a NULL cursor, or its rows handed on but for the
covered ones, under a checkpoint of everything so far. -/
theorem process_spec {t : Tracker} {seen batch rest : List (Row D)}
    (htracked : Tracked t (seen.filter t.spec.keeps)) (hpast : PastBoundary t (batch ++ rest))
    (hord : InOrder t.spec.directionMax (seen ++ (batch ++ rest))) :
    (∃ stream column, t.spec.nullError = some (stream, column) ∧ (∃ r ∈ batch, r.cursor = none) ∧
      t.process batch = .error (nullCursor stream column)) ∨
    ∃ t' surviving checkpoint, t.process batch = .ok (t', surviving, checkpoint) ∧
      t'.spec = t.spec ∧ Tracked t' ((seen ++ batch).filter t.spec.keeps) ∧
      PastBoundary t' rest ∧ surviving.getD [] = batch.filter t.spec.keeps ∧
      ∀ c, checkpoint = some c → t'.currentState = some c := by
  obtain ⟨hseen, hbatch, hcross⟩ := List.pairwise_append.1 hord
  obtain ⟨hkept, hsame, hpast'⟩ := screen_spec hpast hbatch
  have hordKept : InOrder t.spec.directionMax
      (seen.filter t.spec.keeps ++ batch.filter t.spec.keeps) := by
    rw [← List.filter_append]
    rw [← List.append_assoc] at hord
    exact (List.pairwise_append.1 hord).1.filter _
  obtain ⟨t₁, htrack, htracked', hspec, hflag⟩ :=
    track_spec (htracked.same hsame) (by rwa [hsame.spec])
  rw [← List.filter_append] at htracked'
  obtain ⟨hsame', hflag', hstate⟩ := checkpoint_spec t₁
  have hspec' : t₁.checkpoint.1.spec = t.spec := hsame'.spec.trans (hspec.trans hsame.spec)
  have hrest : PastBoundary t₁.checkpoint.1 rest := by
    intro hb
    rw [hspec']
    rw [← hsame.spec]
    exact hpast' (by rw [← hflag, ← hflag', hb])
  have hgo : t.process batch
        = .ok (t₁.checkpoint.1, survivingRows batch (batch.filter t.spec.keeps), t₁.checkpoint.2) ∨
      ∃ stream column, t.spec.nullError = some (stream, column) ∧
        (batch.any fun row => row.cursor.isNone) = true ∧
        t.process batch = .error (nullCursor stream column) := by
    unfold Tracker.process
    cases hpolicy : t.spec.nullError with
    | none =>
      refine .inl ?_
      simp only [hkept, htrack]
      rfl
    | some policy =>
      cases hnull : batch.any fun row => row.cursor.isNone with
      | true => exact .inr ⟨policy.1, policy.2, rfl, rfl, rfl⟩
      | false =>
        refine .inl ?_
        simp only [hkept, htrack]
        rfl
  rcases hgo with hgo | ⟨stream, column, hpolicy, hnull, hgo⟩
  · exact .inr ⟨_, _, _, hgo, hspec', htracked'.same hsame', hrest, survivingRows_filter _ _,
      hstate⟩
  · obtain ⟨r, hr, hcursor⟩ := List.any_eq_true.1 hnull
    exact .inl ⟨stream, column, hpolicy, ⟨r, hr, by simpa using hcursor⟩, hgo⟩

@[simp] theorem rowsOf_trackedPushes (surviving : Option (List (Row D)))
    (checkpoint : Option State) :
    rowsOf (trackedPushes surviving checkpoint) = surviving.getD [] := by
  cases surviving <;> cases checkpoint <;> simp [trackedPushes, rowsOf]

@[simp] theorem rowsOf_finish (t : Tracker) (keepFinalKeys pushedAny : Bool) :
    rowsOf (finish (D := D) t keepFinalKeys pushedAny) = [] := by
  unfold finish
  cases pushedAny <;> cases t.finalState keepFinalKeys <;> simp [rowsOf]

/-- A checkpoint of two stretches lies in the first or in the second. -/
theorem checkpoint_in {pre post first rest : List (Push D)} {c : State}
    (h : pre ++ .checkpoint c :: post = first ++ rest) :
    (∃ post', first = pre ++ .checkpoint c :: post') ∨
      ∃ pre', pre = first ++ pre' ∧ rest = pre' ++ .checkpoint c :: post := by
  rcases List.append_eq_append_iff.1 h with ⟨mid, hfirst, hrest⟩ | ⟨mid, hpre, hrest⟩
  · cases mid with
    | nil => exact .inr ⟨[], by simpa using hfirst.symm, by simpa using hrest.symm⟩
    | cons push mid =>
      obtain ⟨rfl, -⟩ : Push.checkpoint c = push ∧ post = mid ++ rest := by simpa using hrest
      exact .inl ⟨mid, hfirst⟩
  · exact .inr ⟨mid, hpre, hrest⟩

theorem trackedPushes_checkpoint {surviving : Option (List (Row D))} {checkpoint : Option State}
    {pre post : List (Push D)} {c : State}
    (h : trackedPushes surviving checkpoint = pre ++ .checkpoint c :: post) :
    checkpoint = some c ∧ rowsOf pre = surviving.getD [] := by
  cases surviving with
  | none =>
    cases checkpoint with
    | none => simp [trackedPushes] at h
    | some state =>
      cases pre with
      | nil =>
        obtain ⟨rfl, -⟩ : state = c ∧ post = [] := by simpa [trackedPushes, eq_comm] using h
        exact ⟨rfl, rfl⟩
      | cons push pre => simp [trackedPushes] at h
  | some rows =>
    cases pre with
    | nil => simp [trackedPushes] at h
    | cons push pre =>
      cases checkpoint with
      | none => simp [trackedPushes] at h
      | some state =>
        cases pre with
        | nil =>
          obtain ⟨rfl, rfl, -⟩ : Push.rows rows = push ∧ state = c ∧ post = [] := by
            simpa [trackedPushes, eq_comm] using h
          exact ⟨rfl, by simp [rowsOf]⟩
        | cons push' pre => simp [trackedPushes] at h

theorem finish_checkpoint {t : Tracker} {keepFinalKeys pushedAny : Bool}
    {pre post : List (Push D)} {c : State}
    (h : finish t keepFinalKeys pushedAny = pre ++ .checkpoint c :: post) :
    t.finalState keepFinalKeys = some c ∧ rowsOf pre = [] := by
  have hmem : c ∈ checkpoints (finish (D := D) t keepFinalKeys pushedAny) := by
    rw [h, mem_checkpoints]
    simp
  have hrows : rowsOf (finish (D := D) t keepFinalKeys pushedAny) = [] := rowsOf_finish ..
  rw [h, rowsOf_append, List.append_eq_nil_iff] at hrows
  refine ⟨?_, hrows.1⟩
  unfold finish at hmem
  cases hstate : t.finalState keepFinalKeys with
  | none => cases pushedAny <;> simp [hstate, checkpoints] at hmem
  | some state =>
    obtain rfl : c = state := by cases pushedAny <;> simpa [hstate, checkpoints] using hmem
    rfl

/-- The rows before a checkpoint are those of a prefix of the stream, without the
covered ones, and the checkpoint is the state of a tracker that has seen them. -/
theorem readBatches_checkpoint {keepFinalKeys pushedAny : Bool} {t : Tracker}
    (seen : List (Row D)) {batches : List (List (Row D))} {pre post : List (Push D)} {c : State}
    (htracked : Tracked t (seen.filter t.spec.keeps)) (hpast : PastBoundary t batches.flatten)
    (hord : InOrder t.spec.directionMax (seen ++ batches.flatten))
    (h : (readBatches keepFinalKeys t pushedAny batches).pushes = pre ++ .checkpoint c :: post) :
    ∃ before after t', batches.flatten = before ++ after ∧
      rowsOf pre = before.filter t.spec.keeps ∧ t'.spec = t.spec ∧
      Tracked t' ((seen ++ before).filter t.spec.keeps) ∧
      (t'.currentState = some c ∨ after = [] ∧ t'.finalState keepFinalKeys = some c) := by
  induction batches generalizing t seen pushedAny pre with
  | nil =>
    obtain ⟨hstate, hrows⟩ := finish_checkpoint h
    exact ⟨[], [], t, rfl, by simpa using hrows, rfl, by simpa using htracked,
      .inr ⟨rfl, hstate⟩⟩
  | cons batch batches ih =>
    rw [List.flatten_cons] at hpast hord
    rcases process_spec htracked hpast hord with
      ⟨stream, column, -, -, hfail⟩ |
      ⟨t₁, surviving, checkpoint, hok, hspec, htracked', hpast', hrows, hstate⟩
    · simp [readBatches, hfail] at h
    · simp only [readBatches, hok] at h
      rcases checkpoint_in h.symm with ⟨post', hfirst⟩ | ⟨pre', rfl, hrest⟩
      · obtain ⟨hc, hpre⟩ := trackedPushes_checkpoint hfirst
        exact ⟨batch, batches.flatten, t₁, rfl, by rw [hpre, hrows], hspec, htracked',
          .inl (hstate c hc)⟩
      · obtain ⟨before, after, t₂, hflat, hrows', hspec', htracked₂, hstate'⟩ :=
          ih (seen ++ batch) (by rwa [hspec]) hpast' (by rw [hspec]; simpa using hord) hrest
        rw [hspec] at hrows' htracked₂ hspec'
        exact ⟨batch ++ before, after, t₂, by simp [hflat], by simp [hrows, hrows'], hspec',
          by simpa using htracked₂, hstate'⟩

/-- A read that succeeds hands on every row that is not covered and ends on the
final state, if there is one. -/
theorem readBatches_complete {keepFinalKeys pushedAny : Bool} {t : Tracker}
    (seen : List (Row D)) {batches : List (List (Row D))}
    (htracked : Tracked t (seen.filter t.spec.keeps)) (hpast : PastBoundary t batches.flatten)
    (hord : InOrder t.spec.directionMax (seen ++ batches.flatten))
    (h : (readBatches keepFinalKeys t pushedAny batches).result = .ok ()) :
    rowsOf (readBatches keepFinalKeys t pushedAny batches).pushes
        = batches.flatten.filter t.spec.keeps ∧
      ∃ t', t'.spec = t.spec ∧ Tracked t' ((seen ++ batches.flatten).filter t.spec.keeps) ∧
        ∀ c, t'.finalState keepFinalKeys = some c →
          ∃ pre, (readBatches keepFinalKeys t pushedAny batches).pushes
            = pre ++ [.checkpoint c] := by
  induction batches generalizing t seen pushedAny with
  | nil =>
    refine ⟨by simp [readBatches], t, rfl, by simpa using htracked, fun c hc => ?_⟩
    exact ⟨if pushedAny then [] else [.rows []], by simp [readBatches, finish, hc]⟩
  | cons batch batches ih =>
    rw [List.flatten_cons] at hpast hord
    rcases process_spec htracked hpast hord with
      ⟨stream, column, -, -, hfail⟩ |
      ⟨t₁, surviving, checkpoint, hok, hspec, htracked', hpast', hrows, -⟩
    · simp [readBatches, hfail] at h
    · simp only [readBatches, hok] at h ⊢
      obtain ⟨hrows', t₂, hspec', htracked₂, hfinal⟩ :=
        ih (seen ++ batch) (by rwa [hspec]) hpast' (by rw [hspec]; simpa using hord) h
      rw [hspec] at hrows' htracked₂ hspec'
      refine ⟨by simp [hrows, hrows'], t₂, hspec', by simpa using htracked₂, fun c hc => ?_⟩
      obtain ⟨pre, hpre⟩ := hfinal c hc
      exact ⟨trackedPushes surviving checkpoint ++ pre, by rw [hpre, List.append_assoc]⟩

/-- A read of ordered rows fails on a NULL cursor only, where that is an error. -/
theorem readBatches_fails {keepFinalKeys pushedAny : Bool} {t : Tracker}
    (seen : List (Row D)) {batches : List (List (Row D))} {e : SourceError}
    (htracked : Tracked t (seen.filter t.spec.keeps)) (hpast : PastBoundary t batches.flatten)
    (hord : InOrder t.spec.directionMax (seen ++ batches.flatten))
    (h : (readBatches keepFinalKeys t pushedAny batches).result = .error e) :
    ∃ stream column, t.spec.nullError = some (stream, column) ∧
      (∃ r ∈ batches.flatten, r.cursor = none) ∧ e = nullCursor stream column := by
  induction batches generalizing t seen pushedAny with
  | nil => simp [readBatches] at h
  | cons batch batches ih =>
    rw [List.flatten_cons] at hpast hord
    rcases process_spec htracked hpast hord with
      ⟨stream, column, hpolicy, ⟨r, hr, hnull⟩, hfail⟩ |
      ⟨t₁, surviving, checkpoint, hok, hspec, htracked', hpast', -, -⟩
    · simp only [readBatches, hfail, Except.error.injEq] at h
      exact ⟨stream, column, hpolicy, ⟨r, by simp [hr], hnull⟩, h.symm⟩
    · simp only [readBatches, hok] at h
      obtain ⟨stream, column, hpolicy, ⟨r, hr, hnull⟩, he⟩ :=
        ih (seen ++ batch) (by rwa [hspec]) hpast' (by rw [hspec]; simpa using hord) h
      exact ⟨stream, column, hspec ▸ hpolicy, ⟨r, by simp [hr], hnull⟩, he⟩

end Cursor
