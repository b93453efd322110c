import RdltConnectors.Cursor.Tracking

/-!
# What a checkpoint covers

A resume state covers the rows before its watermark and, of those at it, the ones
under its keys. Each checkpoint of a read covers what the state it started from
covered and the rows handed on before it, and nothing else of the window.
-/
namespace Cursor

open PgTypes

variable {D : Type} {m : Bool}

theorem mem_dedupNeighbours {key : Key} {keys : List Key} :
    key ∈ dedupNeighbours keys ↔ key ∈ keys := by
  fun_induction dedupNeighbours keys with
  | case1 => rfl
  | case2 only => rfl
  | case3 first rest ih =>
    rw [ih]
    simp
  | case4 first second rest hne ih =>
    simp only [List.mem_cons, ih]

theorem mem_sortDedup {key : Key} {keys : List Key} : key ∈ sortDedup keys ↔ key ∈ keys := by
  rw [sortDedup, mem_dedupNeighbours, List.mem_insertionSort]

/-- The state covers the row: a run resumed from it will not hand it on. -/
def Covers (m : Bool) (since : Option State) (r : Row D) : Prop :=
  ∃ s v, since = some s ∧ r.cursor = some v ∧
    (beyond m s.watermark v = true ∨
      v = s.watermark ∧ (s.boundaryKeys = [] ∨ r.key ∈ s.boundaryKeys))

/-- The rows a resumed window returns: in order, keys unique, none behind the
watermark, and none at it if the state has no keys. -/
structure Window (m : Bool) (since : Option State) (rows : List (Row D)) : Prop where
  ordered : InOrder m rows
  unique : ∀ a ∈ rows, ∀ b ∈ rows, a.key = b.key → a = b
  forward : ∀ s, since = some s → ∀ r ∈ rows, ∀ v, r.cursor = some v →
    beyond m s.watermark v = false ∧ (s.boundaryKeys = [] → beyond m v s.watermark = true)

/-- Inside the window, the covered rows are the ones the tracker drops. -/
theorem drops_iff_covers {spec : Spec} {since : Option State} {rows : List (Row D)}
    (hw : Window m since rows) (hs : spec.stored = since) {r : Row D} (hr : r ∈ rows) :
    spec.drops r = true ↔ Covers m since r := by
  constructor
  · intro h
    cases hv : r.cursor with
    | none => simp [Spec.drops, hv] at h
    | some v =>
      cases hsince : since with
      | none => simp [Spec.drops, hv, hs, hsince] at h
      | some s =>
        obtain ⟨hat, hkey⟩ : v = s.watermark ∧ r.key ∈ s.boundaryKeys := by
          simpa [Spec.drops, hv, hs, hsince] using h
        exact ⟨s, v, rfl, hv, .inr ⟨hat, .inr hkey⟩⟩
  · rintro ⟨s, v, rfl, hv, hcase⟩
    obtain ⟨hnot, hopen⟩ := hw.forward s rfl r hr v hv
    rcases hcase with hbehind | ⟨rfl, hnone | hkey⟩
    · simp [hnot] at hbehind
    · simp [beyond_irrefl] at hopen
      exact absurd hnone hopen
    · simp [Spec.drops, hv, hs, hkey]

theorem currentState_spec {t : Tracker} {kept : List (Row D)} (h : Tracked t kept)
    (hm : t.spec.directionMax = m)
    (hforward : ∀ s, t.spec.stored = some s → ∀ r ∈ kept, ∀ v, r.cursor = some v →
      beyond m s.watermark v = false) :
    (t.currentState = none → ∀ r ∈ kept, r.cursor = none) ∧
    ∀ c, t.currentState = some c → t.lastValue = some c.watermark ∧
      ∀ key, key ∈ c.boundaryKeys ↔ key ∈ t.runKeys ∨
        ∃ s, t.spec.stored = some s ∧ c.watermark = s.watermark ∧ key ∈ s.boundaryKeys := by
  unfold Tracker.currentState
  cases hlast : t.lastValue with
  | none => exact ⟨fun _ => h.untouched hlast, by simp⟩
  | some last =>
    obtain ⟨r, hr, hcursor⟩ := h.reached last hlast
    cases hs : t.spec.stored with
    | none =>
      refine ⟨by simp, ?_⟩
      rintro c ⟨⟩
      exact ⟨rfl, by simp⟩
    | some s =>
      have hnot := hforward s hs r hr last hcursor
      by_cases hat : last = s.watermark
      · -- the run at the old watermark is not empty, and joins its keys
        have hrun : r.key ∈ t.runKeys := (h.run last hlast _).2 ⟨r, hr, hcursor, rfl⟩
        have hne : t.runKeys.isEmpty = false := by
          cases hkeys : t.runKeys with
          | nil => simp [hkeys] at hrun
          | cons key keys => rfl
        simp only [hat, ne_eq, not_true_eq_false, and_false, if_false, if_true, hne,
          Bool.false_eq_true]
        refine ⟨by simp, ?_⟩
        rintro c ⟨⟩
        refine ⟨rfl, fun key => ?_⟩
        simp [mem_sortDedup]
      · have hbeyond : t.isBeyond last s.watermark = true := by
          rw [Tracker.isBeyond, hm]
          exact (beyond_or_eq hnot).resolve_left hat
        simp only [hbeyond, Bool.true_eq_false, false_and, if_false, hat]
        refine ⟨by simp, ?_⟩
        rintro c ⟨⟩
        refine ⟨rfl, fun key => ⟨.inl, ?_⟩⟩
        rintro (hkey | ⟨s', hs', heq, -⟩)
        · exact hkey
        · obtain rfl : s = s' := by simpa using hs'
          exact absurd heq hat

/-- The checkpoint `c` stands right after the prefix `before` of the window. -/
structure Reaches (m : Bool) (since : Option State) (rows before : List (Row D)) (c : State) :
    Prop where
  /-- what was covered still is -/
  mono : ∀ r : Row D, Covers m since r → Covers m (some c) r
  own : ∀ r ∈ before, r.cursor ≠ none → Covers m (some c) r
  only : ∀ r ∈ rows, Covers m (some c) r → Covers m since r ∨ r ∈ before
  /-- the watermark is a value handed on -/
  mark : ∃ r ∈ before, r.cursor = some c.watermark ∧ ¬ Covers m since r
  /-- every row handed on is no further than it -/
  bound : ∀ r ∈ before, ∀ v, r.cursor = some v → ¬ Covers m since r →
    beyond m v c.watermark = false
  keys : ∀ key ∈ c.boundaryKeys, (∃ r ∈ before, r.key = key) ∨
    ∃ s, since = some s ∧ key ∈ s.boundaryKeys

theorem reaches_current {t : Tracker} {since : Option State} {rows before after : List (Row D)}
    {c : State} (hw : Window m since rows) (hsplit : rows = before ++ after)
    (hm : t.spec.directionMax = m) (hs : t.spec.stored = since)
    (htracked : Tracked t (before.filter t.spec.keeps)) (hc : t.currentState = some c) :
    Reaches m since rows before c ∧ c.boundaryKeys ≠ [] := by
  have hbefore : ∀ r ∈ before, r ∈ rows := fun r hr => by simp [hsplit, hr]
  have hforward : ∀ s, t.spec.stored = some s → ∀ r ∈ before.filter t.spec.keeps, ∀ v,
      r.cursor = some v → beyond m s.watermark v = false := fun s hstored r hr v hv =>
    (hw.forward s (hs ▸ hstored) r (hbefore r (List.mem_filter.1 hr).1) v hv).1
  obtain ⟨hlast, hkeys⟩ := (currentState_spec htracked hm hforward).2 c hc
  obtain ⟨top, htop, htopv⟩ := htracked.reached _ hlast
  have htop' := (List.mem_filter.1 htop).1
  have hkept (r : Row D) (hr : r ∈ before) (hnot : ¬ Covers m since r) :
      r ∈ before.filter t.spec.keeps := by
    refine List.mem_filter.2 ⟨hr, ?_⟩
    rw [Spec.keeps, Bool.not_eq_true', Bool.eq_false_iff]
    exact fun hdrop => hnot ((drops_iff_covers hw hs (hbefore r hr)).1 hdrop)
  have hmono : ∀ r : Row D, Covers m since r → Covers m (some c) r := by
    rintro r ⟨s, v, rfl, hv, hcase⟩
    obtain ⟨hnot, hopen⟩ := hw.forward s rfl top (hbefore top htop') _ htopv
    refine ⟨c, v, rfl, hv, ?_⟩
    rcases beyond_or_eq hnot with hat | hpast
    · rcases hcase with hbehind | ⟨rfl, hnone | hkey⟩
      · exact .inl (hat ▸ hbehind)
      · simp [hat, beyond_irrefl] at hopen
        exact absurd hnone hopen
      · exact .inr ⟨hat.symm, .inr ((hkeys _).2 (.inr ⟨s, hs, hat, hkey⟩))⟩
    · rcases hcase with hbehind | ⟨rfl, -⟩
      · exact .inl (beyond_trans hpast hbehind)
      · exact .inl hpast
  have htopNew : ¬ Covers m since top := by
    intro hcov
    have hkeep := (List.mem_filter.1 htop).2
    rw [Spec.keeps, (drops_iff_covers hw hs (hbefore top htop')).2 hcov] at hkeep
    simp at hkeep
  refine ⟨⟨hmono, ?_, ?_, ⟨top, htop', htopv, htopNew⟩, ?_, ?_⟩, ?_⟩
  · intro r hr hnull
    obtain ⟨v, hv⟩ := Option.ne_none_iff_exists'.1 hnull
    by_cases hold : Covers m since r
    · exact hmono r hold
    · have hmem := hkept r hr hold
      refine ⟨c, v, rfl, hv, ?_⟩
      rcases beyond_or_eq (hm ▸ htracked.bound _ hlast r hmem v hv) with rfl | hpast
      · exact .inr ⟨rfl, .inr ((hkeys _).2 (.inl ((htracked.run _ hlast _).2 ⟨r, hmem, hv, rfl⟩)))⟩
      · exact .inl hpast
  · rintro r hr ⟨s, v, ⟨⟩, hv, hcase⟩
    rw [hsplit, List.mem_append] at hr
    rcases hr with hr | hr
    · exact .inr hr
    · -- a row after the watermark's is not before it
      have hord := hw.ordered
      rw [hsplit] at hord
      obtain ⟨y, hy, hnot⟩ := (List.pairwise_append.1 hord).2.2 top htop' r hr _ htopv
      obtain rfl : v = y := by simpa [hv] using hy
      have hmem : r ∈ rows := by simp [hsplit, hr]
      rcases hcase with hbehind | ⟨hat, hnone | hkey⟩
      · simp [hnot] at hbehind
      · have hrun : top.key ∈ c.boundaryKeys :=
          (hkeys _).2 (.inl ((htracked.run _ hlast _).2 ⟨top, htop, htopv, rfl⟩))
        simp [hnone] at hrun
      · rcases (hkeys _).1 hkey with hrun | ⟨s, hstored, heq, hold⟩
        · obtain ⟨r', hr', -, hsame⟩ := (htracked.run _ hlast _).1 hrun
          have hr'before := (List.mem_filter.1 hr').1
          obtain rfl := hw.unique r' (hbefore r' hr'before) r hmem hsame
          exact .inr hr'before
        · exact .inl ⟨s, v, hs ▸ hstored, hv, .inr ⟨hat.trans heq, .inr hold⟩⟩
  · intro r hr v hv hnot
    exact hm ▸ htracked.bound _ hlast r (hkept r hr hnot) v hv
  · intro key hkey
    rcases (hkeys key).1 hkey with hrun | ⟨s, hstored, -, hold⟩
    · obtain ⟨r, hr, -, hsame⟩ := (htracked.run _ hlast _).1 hrun
      exact .inl ⟨r, (List.mem_filter.1 hr).1, hsame⟩
    · exact .inr ⟨s, hs ▸ hstored, hold⟩
  · intro hnone
    have hrun : top.key ∈ c.boundaryKeys :=
      (hkeys _).2 (.inl ((htracked.run _ hlast _).2 ⟨top, htop, htopv, rfl⟩))
    simp [hnone] at hrun

/-- The final checkpoint, its keys kept or stripped, covers the whole window. -/
theorem reaches_final {t : Tracker} {since : Option State} {rows : List (Row D)} {c : State}
    {keepFinalKeys : Bool} (hw : Window m since rows) (hm : t.spec.directionMax = m)
    (hs : t.spec.stored = since) (htracked : Tracked t (rows.filter t.spec.keeps))
    (hc : t.finalState keepFinalKeys = some c) :
    Reaches m since rows rows c ∧ (keepFinalKeys = true → c.boundaryKeys ≠ []) := by
  cases hstate : t.currentState with
  | none => simp [Tracker.finalState, hstate] at hc
  | some state =>
    obtain ⟨hreach, hne⟩ := reaches_current hw (List.append_nil rows).symm hm hs htracked hstate
    cases keepFinalKeys with
    | true =>
      obtain rfl : state = c := by simpa [Tracker.finalState, hstate] using hc
      exact ⟨hreach, fun _ => hne⟩
    | false =>
      obtain rfl : { state with boundaryKeys := [] } = c := by
        simpa [Tracker.finalState, hstate] using hc
      have hstrip (r : Row D) (h : Covers m (some state) r) :
          Covers m (some { state with boundaryKeys := [] }) r := by
        obtain ⟨s, v, ⟨⟩, hv, hcase⟩ := h
        exact ⟨_, v, rfl, hv, hcase.imp id fun hat => ⟨hat.1, .inl rfl⟩⟩
      exact ⟨⟨fun r h => hstrip r (hreach.mono r h), fun r hr hv => hstrip r (hreach.own r hr hv),
        fun r hr _ => .inr hr, hreach.mark, hreach.bound, by simp⟩, by simp⟩

end Cursor
