import RdltConnectors.Iceberg.Load

/-!
# The document of the highest unit

The receipt merges by the larger sequence and the state document is overwritten, in one
commit. While no stamp is behind the recorded sequence, where it is planned and where the
library commits it, the document is that of the highest unit stamped; the replay of an
earlier unit puts an earlier document back.
-/
namespace Iceberg

open Optimistic Transition

variable {R : Type} {scope loadId : String} {marker : Marker} {c : PropertyAction}

/-- The document is that of the highest unit the pipeline stamped, if it stamped any. -/
def HighestDocument (scope : String) (marker : Marker) : Prop :=
  (∀ c ∈ marker.commits, c.scope ≠ scope) ∨
    ∃ c ∈ marker.commits, c.scope = scope ∧
      (∀ c' ∈ marker.commits, c'.scope = scope → c'.stamp.commitSeq ≤ c.stamp.commitSeq) ∧
      readStateDoc (some marker.properties) scope = some (.text c.stateJson)

instance : Decidable (HighestDocument scope marker) := inferInstanceAs (Decidable (_ ∨ _))

/-- The recorded sequence of the load is that of the highest unit stamped. -/
def Abreast (scope loadId : String) (marker : Marker) : Prop :=
  (∀ c ∈ marker.commits, c.scope ≠ scope) ∧
      marker.properties.lookup (receiptKey loadId) = none ∨
    ∃ c ∈ marker.commits, c.scope = scope ∧
      (∀ c' ∈ marker.commits, c'.scope = scope → c'.stamp.commitSeq ≤ c.stamp.commitSeq) ∧
      readStateDoc (some marker.properties) scope = some (.text c.stateJson) ∧
      ∃ ms, marker.properties.lookup (receiptKey loadId) =
        some (.receipt ⟨c.stamp.commitSeq, ms, some scope⟩)

/-- No unit after this one is recorded in the load's receipt. -/
def Marker.notAfter (marker : Marker) (metadata : CommitMeta) : Bool :=
  ((marker.properties.lookup (receiptKey metadata.loadId)).bind receiptRecord).all
    fun recorded => recorded.1 ≤ metadata.commitSeq

/-- A session is not behind the recorded sequence, neither where it is about to plan its stamp nor
where the library is about to build it. -/
def Session.forward (session : Session R) (marker : Marker) : Bool :=
  match session.stage with
  | .stamping (.loaded _ seen) => seen.value.notAfter session.metadata
  | .stamping (.planned _ _ _ _) => marker.notAfter session.metadata
  | _ => true

/-- The condition on a step of the pipeline's sessions. -/
def World.forward (w : World R) (scope : String) : Event R → Bool
  | .step index _ _ =>
    (w.sessions[index]?).all fun session =>
      session.scope != scope || session.forward (markerValue w.marker)
  | _ => true

/-- The load is the pipeline's, and its only one; other pipelines run other loads. -/
def Event.ofLoad (scope loadId : String) : Event R → Prop
  | .publish scope' metadata _ => scope' = scope ↔ metadata.loadId = loadId
  | .replay scope' metadata _ => scope' = scope ↔ metadata.loadId = loadId
  | _ => True

theorem Abreast.highest (h : Abreast scope loadId marker) : HighestDocument scope marker := by
  obtain ⟨hnone, -⟩ | ⟨c, hc, hscope, hhighest, hdoc, -⟩ := h
  · exact .inl hnone
  · exact .inr ⟨c, hc, hscope, hhighest, hdoc⟩

/-- What a session's action does to the load's receipt: the pipeline's own records the unit, and
another's leaves it alone. -/
structure Marks (scope loadId scope' : String) (metadata : CommitMeta) (action : PropertyAction) :
    Prop where
  under : action.scope = scope'
  stamped : action.stamp = ⟨metadata.loadId, metadata.commitSeq⟩
  owned : action.recorded.scope = some scope'
  recorded : scope' = scope → action.recorded.commitSeq = metadata.commitSeq
  kept : scope' ≠ scope → receiptKey loadId ∉ action.stale

theorem notAfter_le {metadata : CommitMeta} (h : marker.notAfter metadata = true)
    {recorded : ReceiptRecord}
    (hlookup : marker.properties.lookup (receiptKey metadata.loadId) = some (.receipt recorded)) :
    recorded.commitSeq ≤ metadata.commitSeq := by
  unfold Marker.notAfter at h
  rw [hlookup] at h
  exact of_decide_eq_true h

/-- Where the load's receipt is read, it is there as the pipeline wrote it, or not at all. -/
theorem Abreast.receipt (h : Abreast scope loadId marker) {value : Property}
    (hlookup : marker.properties.lookup (receiptKey loadId) = some value) :
    ∃ seq ms, value = .receipt ⟨seq, ms, some scope⟩ := by
  obtain ⟨-, hnone⟩ | ⟨d, -, -, -, -, ms, hreceipt⟩ := h
  · rw [hnone] at hlookup
    cases hlookup
  · exact ⟨_, ms, Option.some.inj (hlookup.symm.trans hreceipt)⟩

/-- The action of a session that is not behind where it plans. -/
theorem Abreast.marks (h : Abreast scope loadId marker) {session : Session R} {nowMs : Nat}
    (howner : session.scope = scope ↔ session.metadata.loadId = loadId)
    (hforward : session.scope = scope → marker.notAfter session.metadata = true) :
    Marks scope loadId session.scope session.metadata
      ((session.propertyCommit nowMs).action marker.properties) := by
  refine ⟨rfl, rfl, rfl, fun hscope => ?_, fun hscope => ?_⟩
  · change ((session.propertyCommit nowMs).delta marker.properties).1.commitSeq = _
    have hunit := howner.1 hscope
    cases hlookup : marker.properties.lookup (receiptKey loadId) with
    | none =>
      rw [← hunit] at hlookup
      exact delta_first hlookup
    | some value =>
      obtain ⟨seq, ms, rfl⟩ := h.receipt hlookup
      rw [← hunit] at hlookup
      have hle := notAfter_le (hforward hscope) hlookup
      exact (delta_commitSeq hlookup).trans (Nat.max_eq_right hle)
  · cases hlookup : marker.properties.lookup (receiptKey loadId) with
    | none =>
      intro hstale
      obtain ⟨-, -, value, ms, hvalue, -⟩ := removed_prunable hstale
      rw [hlookup] at hvalue
      cases hvalue
    | some value =>
      obtain ⟨seq, ms, rfl⟩ := h.receipt hlookup
      exact kept_foreign hlookup (.inr (pruneTime_of_foreign fun heq => hscope heq.symm))

/-- Another pipeline's stamp leaves the document and the receipt as they are. -/
theorem Abreast.otherStamp (h : Abreast scope loadId marker) (hscope : c.scope ≠ scope)
    (hload : c.stamp.loadId ≠ loadId) (hkept : receiptKey loadId ∉ c.stale) :
    Abreast scope loadId (marker.stamped c) := by
  have hreceipt : (c.apply marker.properties).lookup (receiptKey loadId) =
      marker.properties.lookup (receiptKey loadId) :=
    PropertyAction.apply_kept (fun heq => hload (receiptKey_injective heq).symm)
      (stateKey_ne_receiptKey _ _).symm hkept
  obtain ⟨hnone, hlookup⟩ | ⟨d, hd, hdscope, hhighest, hdoc, ms, hlookup⟩ := h
  · refine .inl ⟨?_, hreceipt.trans hlookup⟩
    intro c' hc'
    obtain hc' | hc' := List.mem_append.1 hc'
    · exact hnone c' hc'
    · exact List.mem_singleton.1 hc' ▸ hscope
  · refine .inr ⟨d, List.mem_append_left _ hd, hdscope, ?_, ?_, ms, hreceipt.trans hlookup⟩
    · intro c' hc' hc'scope
      obtain hc' | hc' := List.mem_append.1 hc'
      · exact hhighest c' hc' hc'scope
      · exact absurd (List.mem_singleton.1 hc' ▸ hc'scope) hscope
    · exact (PropertyAction.apply_otherDocument hscope).trans hdoc

/-- The pipeline's own stamp, not behind the recorded sequence, is the highest from now on. -/
theorem Abreast.ownStamp (h : Abreast scope loadId marker) (hscope : c.scope = scope)
    (hload : c.stamp.loadId = loadId) (hrecorded : c.recorded.commitSeq = c.stamp.commitSeq)
    (howner : c.recorded.scope = some scope)
    (hforward : ∀ recorded, marker.properties.lookup (receiptKey loadId) = some (.receipt recorded) →
      recorded.commitSeq ≤ c.stamp.commitSeq) :
    Abreast scope loadId (marker.stamped c) := by
  subst hscope hload
  have hhighest : ∀ c' ∈ marker.commits, c'.scope = c.scope →
      c'.stamp.commitSeq ≤ c.stamp.commitSeq := by
    intro c' hc' hc'scope
    obtain ⟨hnone, -⟩ | ⟨d, -, -, hhighest, -, ms, hlookup⟩ := h
    · exact absurd hc'scope (hnone c' hc')
    · exact (hhighest c' hc' hc'scope).trans (hforward _ hlookup)
  refine .inr ⟨c, List.mem_append_right _ List.mem_cons_self, rfl, ?_, c.apply_document,
    c.recorded.stampedAtMs, ?_⟩
  · intro c' hc' hc'scope
    obtain hc' | hc' := List.mem_append.1 hc'
    · exact hhighest c' hc' hc'scope
    · exact (List.mem_singleton.1 hc') ▸ Nat.le_refl _
  · change (c.apply marker.properties).lookup _ = _
    rw [c.apply_receipt, ← hrecorded, ← howner]

/-! ## Every run -/

/-- In a run of the units of a pipeline's load in which no stamp is behind the recorded sequence,
neither where it is planned nor where the library commits it, the document is always that of the
highest unit. -/
theorem document_is_highest (scope loadId : String) (w : World R) (hsessions : w.sessions = [])
    (hcommits : (markerValue w.marker).commits = [])
    (hreceipt : (markerValue w.marker).properties.lookup (receiptKey loadId) = none)
    (events : List (Event R)) (hload : ∀ event ∈ events, event.ofLoad scope loadId)
    (h : Meets World.act (fun w event => w.forward scope event = true) w events) :
    HighestDocument scope (markerValue (run World.act w events).marker) := by
  have hstart : Abreast scope loadId (markerValue w.marker) :=
    .inl ⟨by rw [hcommits]; exact nofun, hreceipt⟩
  have hforward : ∀ (w : World R) index nowMs answer (session : Session R),
      w.forward scope (.step index nowMs answer) = true → w.sessions[index]? = some session →
      session.scope = scope → session.forward (markerValue w.marker) = true := by
    intro w index nowMs answer session hcheck hsession hscope
    rw [World.forward, hsession] at hcheck
    simpa [hscope] using hcheck
  refine (marker_invariant (T := fun scope' metadata => scope' = scope ↔ metadata.loadId = loadId)
    (A := fun scope' metadata _ action => Marks scope loadId scope' metadata action)
    hsessions hstart ?_ ?_ ?_ (meets_and (meets_of_forall w hload) h)).highest
  · rintro w scope' metadata windows (hok | hok)
    · exact hok.1
    · exact hok.1
  · intro w index nowMs answer session attempt seen hok hsession howner hstage habreast
    apply habreast.marks howner
    intro hscope
    have hcheck := hforward w index nowMs answer session hok.2 hsession hscope
    unfold Session.forward at hcheck
    rw [hstage] at hcheck
    exact hcheck
  · intro w index nowMs answer session attempt seen action tries cell hok hsession howner hstage
      hcell _ habreast _ hmarks
    have hscope' := hmarks.under
    have hstamp := hmarks.stamped
    by_cases hscope : session.scope = scope
    · have hcheck := hforward w index nowMs answer session hok.2 hsession hscope
      unfold Session.forward at hcheck
      rw [hstage, hcell] at hcheck
      have hunit : session.metadata.loadId = loadId := howner.1 hscope
      apply habreast.ownStamp (hscope'.trans hscope)
      · rw [hstamp]
        exact hunit
      · rw [hstamp]
        exact hmarks.recorded hscope
      · rw [hmarks.owned, hscope]
      · intro recorded hrecorded
        rw [← hunit] at hrecorded
        rw [hstamp]
        exact notAfter_le hcheck hrecorded
    · apply habreast.otherStamp
      · rw [hscope']
        exact hscope
      · rw [hstamp]
        exact fun hunit => hscope (howner.2 hunit)
      · exact hmarks.kept hscope

/-! ## An earlier unit replayed -/

def unitMeta (commitSeq : Nat) (state : String) : CommitMeta := ⟨"load", commitSeq, state⟩

def lastly (index : Nat) : List (Event Nat) := List.replicate 10 (.step index 5 ⟨true, .ok⟩)

/-- Two units published, one after the other. -/
def twoUnits : List (Event Nat) :=
  .publish "p" (unitMeta 1 "s1") [("t", [[7]])] :: lastly 0 ++
    .publish "p" (unitMeta 2 "s2") [("t", [[8]])] :: lastly 1

theorem two_units_leave_the_second :
    HighestDocument "p" (markerValue (run World.act World.empty twoUnits).marker) :=
  document_is_highest "p" "load" World.empty rfl rfl rfl twoUnits
    (by simp [twoUnits, lastly, unitMeta, Event.ofLoad]) (by decide)

def firstReplayed : List (Event Nat) :=
  twoUnits ++ .replay "p" (unitMeta 1 "s1") [("t", [[7]])] :: lastly 2

/-- The first unit replayed after the second: its document is back, and the receipt stays at two. -/
theorem earlier_replay_regresses :
    ¬ ∀ events : List (Event Nat), (∀ event ∈ events, event.ofLoad "p" "load") →
      HighestDocument "p" (markerValue (run World.act World.empty events).marker) := by
  intro h
  have hload : ∀ event ∈ firstReplayed, event.ofLoad "p" "load" := by
    simp [firstReplayed, twoUnits, lastly, unitMeta, Event.ofLoad]
  have hregress : ¬ HighestDocument "p"
      (markerValue (run World.act World.empty firstReplayed).marker) := by decide
  exact hregress (h firstReplayed hload)

end Iceberg
