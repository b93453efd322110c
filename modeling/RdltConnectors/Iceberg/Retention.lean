import Mathlib.Data.Finset.Card
import RdltConnectors.Iceberg.Load

/-!
# What retention keeps

Each stamp removes the oldest receipts of its own scope beyond a bound. A receipt it
removes has others of the scope no older than itself, one for each load stamped since; so
until as many loads are stamped, the receipt is there, and it records every sequence
stamped since it was last absent. The stamps carry times, and a corrupt receipt counts as
stamped at zero: a stamp at zero is no later than one.

What a stamp records and removes is worked out before the library loads the marker it
commits on. A stamp that lands in between is neither merged into the record nor spared:
so it must be of another load, or record no more, and its receipt not be one to remove.
-/
namespace Iceberg

open Optimistic Transition

variable {R : Type} {start : Properties} {before after commits : List PropertyAction}
  {c d : PropertyAction}

/-- The loads a scope stamped. -/
def loadsOf (scope : String) (commits : List PropertyAction) : Finset String :=
  ((commits.filter fun c => c.scope == scope).map fun c => c.stamp.loadId).toFinset

/-- A time after those of all the stamps and of the receipts there at the start. -/
def isLater (start : Properties) (commits : List PropertyAction) (nowMs : Nat) : Bool :=
  (commits.all fun c => c.nowMs < nowMs) && start.entries.all fun entry =>
    (receiptEntry entry.2).all fun recorded => recorded.stampedAtMs < nowMs

/-- A stamp that landed after an action was planned: it records no more of the action's load, and
the action does not remove its receipt. -/
def PropertyAction.Spares (action landed : PropertyAction) : Prop :=
  (landed.stamp.loadId = action.stamp.loadId →
      landed.recorded.commitSeq ≤ action.recorded.commitSeq) ∧
    receiptKey landed.stamp.loadId ∉ action.stale

instance (action landed : PropertyAction) : Decidable (action.Spares landed) :=
  inferInstanceAs (Decidable (_ ∧ _))

/-- Stamps after the epoch, each later than all before it. -/
structure Aging (start : Properties) (commits : List PropertyAction) : Prop where
  increasing : commits.Pairwise fun c d => c.nowMs < d.nowMs
  positive : ∀ c ∈ commits, 0 < c.nowMs
  later : ∀ c ∈ commits, ∀ key recorded, start.lookup key = some (.receipt recorded) →
    recorded.stampedAtMs < c.nowMs

/-- An action planned on the first of the stamps, which spares those that landed since. -/
def Planned (start : Properties) (commits : List PropertyAction) (action : PropertyAction) : Prop :=
  ∃ seen since, commits = seen ++ since ∧
    action = action.toPropertyCommit.action (propertiesAfter start seen) ∧
      ∀ landed ∈ since, action.Spares landed

/-- Every stamp spares those that landed after it was planned. -/
def Unraced (start : Properties) (commits : List PropertyAction) : Prop :=
  ∀ before c after, commits = before ++ c :: after → Planned start before c

/-- What an action's receipt says of itself. -/
theorem Planned.record (h : Planned start commits c) : c.recorded.stampedAtMs = c.nowMs ∧
    c.recorded.scope = some c.scope ∧ c.stamp.commitSeq ≤ c.recorded.commitSeq := by
  obtain ⟨seen, -, -, heq, -⟩ := h
  rw [heq]
  exact delta_record c.toPropertyCommit (propertiesAfter start seen)

theorem Unraced.record (h : Unraced start commits) (hc : c ∈ commits) :
    c.recorded.stampedAtMs = c.nowMs ∧ c.recorded.scope = some c.scope ∧
      c.stamp.commitSeq ≤ c.recorded.commitSeq := by
  obtain ⟨before, after, hsplit⟩ := List.append_of_mem hc
  exact (h before c after hsplit).record

theorem Unraced.init (h : Unraced start (commits ++ after)) : Unraced start commits := by
  intro before' c after' hsplit
  exact h before' c (after' ++ after) (by rw [hsplit, List.append_assoc, List.cons_append])

theorem loadsOf_append (scope : String) (commits commits' : List PropertyAction) :
    loadsOf scope (commits ++ commits') = loadsOf scope commits ∪ loadsOf scope commits' := by
  unfold loadsOf
  rw [List.filter_append, List.map_append, List.toFinset_append]

theorem mem_loadsOf {scope : String} (hc : c ∈ commits) (hscope : c.scope = scope) :
    c.stamp.loadId ∈ loadsOf scope commits := by
  apply List.mem_toFinset.2
  exact List.mem_map.2 ⟨c, List.mem_filter.2 ⟨hc, beq_iff_eq.2 hscope⟩, rfl⟩

/-- A receipt was there at the start, or is as a stamp set it. -/
theorem propertiesAfter_lookup {key : String} {value : Property}
    (hreceipt : isReceiptKey key = true)
    (h : (propertiesAfter start commits).lookup key = some value) :
    start.lookup key = some value ∨
      ∃ c ∈ commits, key = receiptKey c.stamp.loadId ∧ value = .receipt c.recorded := by
  induction commits using List.reverseRecOn with
  | nil => exact .inl h
  | append_singleton commits d ih =>
    rw [propertiesAfter_snoc] at h
    by_cases hown : key = receiptKey d.stamp.loadId
    · subst hown
      rw [d.apply_receipt] at h
      exact .inr ⟨d, List.mem_append_right _ List.mem_cons_self, rfl, (Option.some.inj h).symm⟩
    · have hstate : key ≠ stateKey d.scope := by
        rintro rfl
        rw [stateKey_not_receipt] at hreceipt
        cases hreceipt
      rw [PropertyAction.apply_other hown hstate] at h
      split at h
      · cases h
      · obtain hstart | ⟨c, hc, hkey, hvalue⟩ := ih h
        · exact .inl hstart
        · exact .inr ⟨c, List.mem_append_left _ hc, hkey, hvalue⟩

/-- The receipts of the start are older than every stamp. -/
theorem Aging.start_older (h : Aging start commits) (hc : c ∈ commits) {key scope : String}
    {value : Property} {ms : Nat} (hstart : start.lookup key = some value)
    (hms : pruneTime scope value = some ms) : ms < c.nowMs := by
  have hpositive := h.positive c hc
  cases value with
  | text s =>
    obtain rfl : 0 = ms := Option.some.inj hms
    exact hpositive
  | receipt recorded =>
    have hlater := h.later c hc key recorded hstart
    obtain ⟨seq, stamped, owner⟩ := recorded
    cases owner with
    | none =>
      obtain rfl : 0 = ms := Option.some.inj hms
      exact hpositive
    | some owner =>
      change (if owner = scope then some stamped else none) = some ms at hms
      split at hms
      · exact Option.some.inj hms ▸ hlater
      · cases hms

/-- A receipt a scope may prune, no older than a stamp, is that stamp's or was set since. -/
theorem stamped_since (haging : Aging start (before ++ c :: after))
    (hunraced : Unraced start (before ++ c :: after)) {key scope : String} {value : Property}
    {ms : Nat} (hreceipt : isReceiptKey key = true) (hne : key ≠ receiptKey c.stamp.loadId)
    (hlookup : (propertiesAfter start (before ++ c :: after)).lookup key = some value)
    (hms : pruneTime scope value = some ms) (hle : c.nowMs ≤ ms) :
    ∃ e ∈ after, e.scope = scope ∧ key = receiptKey e.stamp.loadId := by
  have hc : c ∈ before ++ c :: after := List.mem_append_right _ List.mem_cons_self
  obtain hstart | ⟨e, he, hkey, rfl⟩ := propertiesAfter_lookup hreceipt hlookup
  · have holder := haging.start_older hc hstart hms
    omega
  · obtain ⟨htime, howner, -⟩ := hunraced.record he
    have hage : pruneTime scope (.receipt e.recorded) =
        if e.scope = scope then some e.nowMs else none := by
      rw [← htime]
      cases hrecorded : e.recorded with
      | mk seq stamped owner =>
        rw [hrecorded] at howner
        obtain rfl : owner = some e.scope := howner
        rfl
    rw [hage] at hms
    split at hms
    · next hscope =>
      obtain rfl := Option.some.inj hms
      obtain ⟨-, hrest, hbefore⟩ := List.pairwise_append.1 haging.increasing
      obtain he | he := List.mem_append.1 he
      · have hlt := hbefore e he c List.mem_cons_self
        omega
      · obtain rfl | he := List.mem_cons.1 he
        · exact absurd hkey hne
        · exact ⟨e, he, hscope, hkey⟩
    · cases hms

theorem Aging.init (h : Aging start (commits ++ after)) : Aging start commits where
  increasing := (List.pairwise_append.1 h.increasing).1
  positive := fun c hc => h.positive c (List.mem_append_left _ hc)
  later := fun c hc => h.later c (List.mem_append_left _ hc)

/-- A stamp planned to prune a load's receipt makes the loads stamped since as many as are
retained. -/
theorem loads_of_removed (haging : Aging start (before ++ c :: after))
    (hunraced : Unraced start (before ++ c :: after)) {d : PropertyCommit}
    (hscope : d.scope = c.scope) {recorded : ReceiptRecord}
    (hms : recorded.stampedAtMs = c.nowMs) (howner : recorded.scope = some c.scope)
    (hlookup : (propertiesAfter start (before ++ c :: after)).lookup (receiptKey c.stamp.loadId) =
      some (.receipt recorded))
    (hremoved : receiptKey c.stamp.loadId ∈
      (d.delta (propertiesAfter start (before ++ c :: after))).2) :
    receiptRetention ≤ (insert d.stamp.loadId (loadsOf c.scope after)).card := by
  obtain ⟨seq, ms, owner⟩ := recorded
  obtain rfl : ms = c.nowMs := hms
  obtain rfl : owner = some c.scope := howner
  have htime : pruneTime d.scope (.receipt ⟨seq, c.nowMs, some c.scope⟩) = some c.nowMs :=
    if_pos hscope.symm
  obtain ⟨younger, hnodup, hlength, hyounger⟩ := younger_of_removed hremoved hlookup htime
  have hsubset : younger.toFinset ⊆
      ((insert d.stamp.loadId (loadsOf c.scope after)).erase d.stamp.loadId).image receiptKey := by
    intro key hkey
    obtain ⟨hreceipt, hown, hne, value, ms, hvalue, hprune, hle⟩ :=
      hyounger key (List.mem_toFinset.1 hkey)
    obtain ⟨e, he, hescope, rfl⟩ := stamped_since haging hunraced hreceipt hne hvalue hprune hle
    apply Finset.mem_image_of_mem
    apply Finset.mem_erase.2
    exact ⟨fun heq => hown (congrArg receiptKey heq),
      Finset.mem_insert_of_mem (mem_loadsOf he (hescope.trans hscope))⟩
  have hcard := (Finset.card_le_card hsubset).trans Finset.card_image_le
  have hd : d.stamp.loadId ∈ insert d.stamp.loadId (loadsOf c.scope after) :=
    Finset.mem_insert_self _ _
  rw [List.toFinset_card_of_nodup hnodup, hlength, Finset.card_erase_of_mem hd] at hcard
  have hpos := Finset.card_pos.2 ⟨_, hd⟩
  have height : receiptRetention = 8 := rfl
  omega

/-- What an action planned on the first stamps saw, of a list that has a stamp it spares. -/
theorem seen_split {seen since : List PropertyAction}
    (hsplit : before ++ c :: after = seen ++ since) (hc : c ∉ since) :
    ∃ first, seen = before ++ c :: first ∧ after = first ++ since := by
  obtain ⟨first, rfl, htail⟩ | ⟨rest, rfl, rfl⟩ := List.append_eq_append_iff.1 hsplit
  · cases first with
    | nil =>
      rw [List.nil_append] at htail
      exact absurd (htail ▸ List.mem_cons_self) hc
    | cons e first =>
      obtain ⟨rfl, rfl⟩ := List.cons.inj htail
      exact ⟨first, rfl, rfl⟩
  · exact absurd (List.mem_append_right _ List.mem_cons_self) hc

/-- A load's latest receipt stays until as many loads of its scope are stamped as are retained. -/
theorem receipt_kept (haging : Aging start (before ++ c :: after))
    (hunraced : Unraced start (before ++ c :: after))
    (hlast : ∀ d ∈ after, d.stamp.loadId ≠ c.stamp.loadId)
    (hfew : (loadsOf c.scope after).card < receiptRetention) :
    (propertiesAfter start (before ++ c :: after)).lookup (receiptKey c.stamp.loadId) =
      some (.receipt c.recorded) := by
  obtain ⟨hms, howner, -⟩ := hunraced.record (List.mem_append_right before List.mem_cons_self)
  induction after using List.reverseRecOn with
  | nil => rw [propertiesAfter_snoc, c.apply_receipt]
  | append_singleton after d ih =>
    have hshape : before ++ c :: (after ++ [d]) = before ++ c :: after ++ [d] := by simp
    rw [hshape] at haging hunraced ⊢
    rw [loadsOf_append] at hfew
    have hle : (loadsOf c.scope after).card ≤ (loadsOf c.scope after ∪ loadsOf c.scope [d]).card :=
      Finset.card_le_card Finset.subset_union_left
    have hlookup := ih haging.init hunraced.init
      (fun e he => hlast e (List.mem_append_left _ he)) (by omega)
    have hown : receiptKey c.stamp.loadId ≠ receiptKey d.stamp.loadId := fun heq =>
      hlast d (List.mem_append_right _ List.mem_cons_self) (receiptKey_injective heq).symm
    have hkept : receiptKey c.stamp.loadId ∉ d.stale := by
      intro hstale
      obtain ⟨seen, since, hsplit, hd, hspares⟩ := hunraced (before ++ c :: after) d [] rfl
      -- the plan saw the stamp, so its receipt was as it is now
      obtain ⟨first, rfl, rfl⟩ := seen_split hsplit fun hc => (hspares c hc).2 hstale
      rw [hd] at hstale
      rw [hsplit, propertiesAfter_append] at hlookup
      obtain hseen | ⟨e, he, hkey, -⟩ :=
        propertiesAfter_lookup (isReceiptKey_iff.2 ⟨_, rfl⟩) hlookup
      · rw [hsplit] at haging hunraced
        by_cases hscope : d.scope = c.scope
        · have hmany := loads_of_removed (d := d.toPropertyCommit) haging.init.init
            hunraced.init.init hscope hms howner hseen hstale
          have hsubset : insert d.stamp.loadId (loadsOf c.scope first) ⊆
              loadsOf c.scope (first ++ since) ∪ loadsOf c.scope [d] := by
            intro load hload
            rw [loadsOf_append, Finset.mem_union, Finset.mem_union]
            obtain rfl | hload := Finset.mem_insert.1 hload
            · exact .inr (mem_loadsOf List.mem_cons_self hscope)
            · exact .inl (.inl hload)
          have hcard := Finset.card_le_card hsubset
          omega
        · refine kept_foreign (c := d.toPropertyCommit) hseen (.inr ?_) hstale
          cases hrecorded : c.recorded with
          | mk seq stamped owner =>
            rw [hrecorded] at howner
            obtain rfl : owner = some c.scope := howner
            exact pruneTime_of_foreign fun heq => hscope heq.symm
      · exact hlast e (List.mem_append_left _ (List.mem_append_right _ he))
          (receiptKey_injective hkey).symm
    rw [propertiesAfter_snoc, PropertyAction.apply_kept hown (stateKey_ne_receiptKey _ _).symm hkept,
      hlookup]

/-- What a load's stamp records is no less than what is recorded of the load when it lands. -/
theorem Planned.merges (h : Planned start commits d) {recorded : ReceiptRecord}
    (hlookup : (propertiesAfter start commits).lookup (receiptKey d.stamp.loadId) =
      some (.receipt recorded)) : recorded.commitSeq ≤ d.recorded.commitSeq := by
  obtain ⟨seen, since, rfl, hd, hspares⟩ := h
  rw [propertiesAfter_append] at hlookup
  obtain hseen | ⟨e, he, hkey, hvalue⟩ :=
    propertiesAfter_lookup (isReceiptKey_iff.2 ⟨_, rfl⟩) hlookup
  · rw [hd]
    change _ ≤ (d.toPropertyCommit.delta (propertiesAfter start seen)).1.commitSeq
    rw [delta_commitSeq hseen]
    exact Nat.le_max_left _ _
  · obtain rfl := Property.receipt.inj hvalue
    exact (hspares e he).1 (receiptKey_injective hkey).symm

/-- While a receipt is there, it records every sequence stamped. -/
theorem receipt_records (hunraced : Unraced start (before ++ c :: after))
    (hpresent : ∀ first rest, after = first ++ rest →
      (propertiesAfter start (before ++ c :: first)).lookup (receiptKey c.stamp.loadId) ≠ none) :
    ∃ recorded, (propertiesAfter start (before ++ c :: after)).lookup (receiptKey c.stamp.loadId) =
        some (.receipt recorded) ∧ c.stamp.commitSeq ≤ recorded.commitSeq := by
  induction after using List.reverseRecOn with
  | nil =>
    obtain ⟨-, -, hseq⟩ := hunraced.record (List.mem_append_right before List.mem_cons_self)
    exact ⟨_, by rw [propertiesAfter_snoc, c.apply_receipt], hseq⟩
  | append_singleton after d ih =>
    have hshape : before ++ c :: (after ++ [d]) = before ++ c :: after ++ [d] := by simp
    have hnow := hpresent (after ++ [d]) [] (by simp)
    rw [hshape] at hunraced
    rw [hshape, propertiesAfter_snoc] at hnow ⊢
    obtain ⟨recorded, hlookup, hseq⟩ := ih hunraced.init fun first rest heq =>
      hpresent first (rest ++ [d]) (by rw [heq, List.append_assoc])
    by_cases hload : d.stamp.loadId = c.stamp.loadId
    · rw [← hload] at hlookup ⊢
      have hmerges := (hunraced (before ++ c :: after) d [] rfl).merges hlookup
      exact ⟨_, d.apply_receipt, hseq.trans hmerges⟩
    · let held := propertiesAfter start (before ++ c :: after)
      have hother : (d.apply held).lookup (receiptKey c.stamp.loadId) =
          if receiptKey c.stamp.loadId ∈ d.stale then none
          else held.lookup (receiptKey c.stamp.loadId) :=
        PropertyAction.apply_other (fun heq => hload (receiptKey_injective heq).symm)
          (stateKey_ne_receiptKey d.scope c.stamp.loadId).symm
      rw [hother] at hnow ⊢
      split
      · next hremoved => rw [if_pos hremoved] at hnow; exact absurd rfl hnow
      · exact ⟨recorded, hlookup, hseq⟩

/-! ## Every run -/

/-- The receipt of a stamp that is its load's latest, with few other loads of its scope stamped
since, is there and records every sequence of the load stamped since it was last absent. -/
def ReceiptsKept (start : Properties) (marker : Marker) : Prop :=
  ∀ before c after, marker.commits = before ++ c :: after →
    (∀ d ∈ after, d.stamp.loadId ≠ c.stamp.loadId) →
    (loadsOf c.scope after).card < receiptRetention →
    ∃ recorded,
      marker.properties.lookup (receiptKey c.stamp.loadId) = some (.receipt recorded) ∧
      ∀ first e since, marker.commits = first ++ e :: since → e.stamp.loadId = c.stamp.loadId →
        (∀ head tail, since = head ++ tail →
          (propertiesAfter start (first ++ e :: head)).lookup (receiptKey c.stamp.loadId) ≠ none) →
        e.stamp.commitSeq ≤ recorded.commitSeq

/-- A stamp removes no decodable receipt of another scope, and nothing that is not a receipt. -/
def RemovesNothingForeign (start : Properties) (marker : Marker) : Prop :=
  ∀ before c after, marker.commits = before ++ c :: after → ∀ key value,
    (propertiesAfter start before).lookup key = some value →
    (isReceiptKey key = false ∨ ∃ recorded owner, value = .receipt recorded ∧
      recorded.scope = some owner ∧ owner ≠ c.scope) →
    (propertiesAfter start (before ++ [c])).lookup key ≠ none

/-- What has landed in a marker since an earlier one was seen. -/
def Marker.since (marker seen : Marker) : List PropertyAction :=
  marker.commits.drop seen.commits.length

/-- A stamp the library is about to build is later than all it goes onto. -/
def Session.onTime (start : Properties) (marker : Option (Cell Marker)) (session : Session R) :
    Bool :=
  match session.stage, marker with
  | .stamping (.planned _ _ action _), some cell => isLater start cell.value.commits action.nowMs
  | _, _ => true

/-- A stamp the library is about to build spares those that landed after it was planned. -/
def Session.unraced (marker : Option (Cell Marker)) (session : Session R) : Bool :=
  match session.stage, marker with
  | .stamping (.planned _ seen action _), some cell =>
    (cell.value.since seen.value).all fun landed => action.Spares landed
  | _, _ => true

/-- The stamps' times increase. -/
def World.onTime (w : World R) (start : Properties) : Event R → Bool
  | .step index _ _ => (w.sessions[index]?).all fun session => session.onTime start w.marker
  | _ => true

/-- The condition on a step, that no stamp undoes what landed since its plan. -/
def World.unraced (w : World R) : Event R → Bool
  | .step index _ _ => (w.sessions[index]?).all fun session => session.unraced w.marker
  | _ => true

/-- The clock does not read the epoch, or a time before it. -/
def Event.pastEpoch : Event R → Prop
  | .step _ nowMs _ => 0 < nowMs
  | _ => True

/-- The marker is what its stamps made of it, each later than the others and sparing those that
landed after it was planned. -/
structure Stamped (start : Properties) (marker : Marker) : Prop where
  made : marker.properties = propertiesAfter start marker.commits
  aging : Aging start marker.commits
  unraced : Unraced start marker.commits

theorem Aging.snoc (h : Aging start commits) (hpositive : 0 < c.nowMs)
    (hlater : isLater start commits c.nowMs = true) : Aging start (commits ++ [c]) := by
  obtain ⟨hcommits, hstart⟩ := Bool.and_eq_true_iff.1 hlater
  have hlast : ∀ d ∈ commits ++ [c], d ∈ commits ∨ d = c := fun d hd =>
    (List.mem_append.1 hd).imp_right List.mem_singleton.1
  refine ⟨List.pairwise_append.2 ⟨h.increasing, List.pairwise_singleton _ c, ?_⟩, ?_, ?_⟩
  · intro d hd e he
    obtain rfl := List.mem_singleton.1 he
    exact of_decide_eq_true (List.all_eq_true.1 hcommits d hd)
  · intro d hd
    obtain hd | rfl := hlast d hd
    · exact h.positive d hd
    · exact hpositive
  · intro d hd key recorded hlookup
    obtain hd | rfl := hlast d hd
    · exact h.later d hd key recorded hlookup
    · have hentry := List.all_eq_true.1 hstart _ (AList.mem_lookup_iff.1 hlookup)
      exact of_decide_eq_true hentry

theorem Unraced.snoc (h : Unraced start commits) (hplanned : Planned start commits c) :
    Unraced start (commits ++ [c]) := by
  intro before d after hsplit
  induction after using List.reverseRecOn with
  | nil =>
    obtain ⟨rfl, hlast⟩ := List.append_inj' hsplit rfl
    obtain rfl := List.singleton_inj.1 hlast
    exact hplanned
  | append_singleton after e _ =>
    rw [← List.cons_append, ← List.append_assoc] at hsplit
    exact h before d after (List.append_inj' hsplit rfl).1

theorem Stamped.receiptsKept {marker : Marker} (h : Stamped start marker) :
    ReceiptsKept start marker := by
  obtain ⟨hmade, haging, hunraced⟩ := h
  intro before c after hsplit hlast hfew
  rw [hsplit] at haging hmade hunraced
  have hlookup := receipt_kept haging hunraced hlast hfew
  refine ⟨c.recorded, by rw [hmade, hlookup], ?_⟩
  intro first e since hsplit' hload hpresent
  rw [hsplit] at hsplit'
  rw [hsplit'] at hunraced hlookup
  rw [← hload] at hpresent hlookup
  obtain ⟨recorded, hrecorded, hseq⟩ := receipt_records hunraced hpresent
  obtain rfl := Property.receipt.inj (Option.some.inj (hrecorded.symm.trans hlookup))
  exact hseq

/-- What is foreign to a stamp when it lands was so when it was planned. -/
theorem Stamped.removesNothingForeign {marker : Marker} (h : Stamped start marker) :
    RemovesNothingForeign start marker := by
  intro before c after hsplit key value hlookup hforeign
  rw [propertiesAfter_snoc]
  by_cases hreceipt : key = receiptKey c.stamp.loadId
  · rw [hreceipt, c.apply_receipt]
    exact nofun
  · by_cases hstate : key = stateKey c.scope
    · rw [hstate, c.apply_document]
      exact nofun
    · have hkept : key ∉ c.stale := by
        intro hstale
        have hkey := c.receipts key hstale
        obtain hno | ⟨⟨seq, ms, owner'⟩, owner, rfl, rfl, hne⟩ := hforeign
        · rw [hno] at hkey
          cases hkey
        · obtain ⟨seen, since, rfl, hc, hspares⟩ := h.unraced before c after hsplit
          rw [propertiesAfter_append] at hlookup
          obtain hseen | ⟨e, he, rfl, -⟩ := propertiesAfter_lookup hkey hlookup
          · rw [hc] at hstale
            exact kept_foreign (c := c.toPropertyCommit) hseen (.inr (pruneTime_of_foreign hne))
              hstale
          · exact (hspares e he).2 hstale
      rw [PropertyAction.apply_kept hreceipt hstate hkept, hlookup]
      exact nofun

/-- In a run whose stamps are made after the epoch, each later than those before it, and spare
those that landed after they were planned, retention keeps every receipt that few loads of its scope
were stamped after, and removes nothing foreign. -/
theorem receipts_are_retained (start : Properties) (w : World R) (hsessions : w.sessions = [])
    (hstart : markerValue w.marker = ⟨start, []⟩) (events : List (Event R))
    (hepoch : ∀ event ∈ events, event.pastEpoch)
    (htimes : Meets World.act (fun w event => w.onTime start event = true) w events)
    (h : Meets World.act (fun w event => w.unraced event = true) w events) :
    ReceiptsKept start (markerValue (run World.act w events).marker) ∧
      RemovesNothingForeign start (markerValue (run World.act w events).marker) := by
  have hstamped : Stamped start (markerValue w.marker) := by
    rw [hstart]
    exact ⟨rfl, ⟨List.Pairwise.nil, nofun, nofun⟩, fun before c after hsplit => by simp at hsplit⟩
  have hmarker : Stamped start (markerValue (run World.act w events).marker) := by
    apply marker_invariant (T := fun _ _ => True)
      (A := fun _ _ seen action => action = action.toPropertyCommit.action seen.properties ∧
        0 < action.nowMs)
      hsessions hstamped (fun _ _ _ _ _ => trivial) ?_ ?_
      (meets_and (meets_of_forall w hepoch) (meets_and htimes h))
    · intro w index nowMs answer session attempt seen hok _ _ _ _
      exact ⟨rfl, hok.1⟩
    · intro w index nowMs answer session attempt seen action tries cell hok hsession _ hstage hcell
        hbefore hvalue hseen haction
      obtain ⟨-, htime, hspares⟩ := hok
      rw [World.onTime, hsession] at htime
      rw [World.unraced, hsession] at hspares
      change session.onTime start w.marker = true at htime
      change session.unraced w.marker = true at hspares
      unfold Session.onTime at htime
      unfold Session.unraced at hspares
      rw [hstage, hcell] at htime hspares
      obtain ⟨since, hsince⟩ := hbefore
      dsimp only [Marker.since] at hspares
      rw [← hsince, List.drop_left, List.all_eq_true] at hspares
      obtain ⟨hplan, hpositive⟩ := haction
      refine ⟨?_, hvalue.aging.snoc hpositive htime, hvalue.unraced.snoc ?_⟩
      · change action.apply cell.value.properties = propertiesAfter start (cell.value.commits ++ [action])
        rw [propertiesAfter_snoc, ← hvalue.made]
      · refine ⟨seen.value.commits, since, hsince.symm, ?_, fun landed hlanded =>
          of_decide_eq_true (hspares landed hlanded)⟩
        rw [← hseen.made]
        exact hplan
  exact ⟨hmarker.receiptsKept, hmarker.removesNothingForeign⟩

/-! ## Two stamps under way -/

def corrupt (key : String) : Properties → Properties := AList.insert (receiptKey key) (.text "")

/-- As many corrupt receipts as are retained. -/
def corruptReceipts : Properties :=
  (["x1", "x2", "x3", "x4", "x5", "x6", "x7", "x8"].foldr corrupt ∅)

def stampedWorld (start : Properties) : World Nat := ⟨fun _ => ⟨[], 0⟩, some ⟨⟨start, []⟩, 0⟩, []⟩

/-- Two sessions of a pipeline have planned their stamps, and the second lands first. -/
def overtaken (first second : CommitMeta) : List (Event Nat) :=
  .publish "s" first [] :: .publish "s" second [] ::
    (List.replicate 2 (.step 0 1 ⟨true, .ok⟩) ++ List.replicate 2 (.step 1 2 ⟨true, .ok⟩) ++
      [.step 1 3 ⟨true, .ok⟩, .step 0 4 ⟨true, .ok⟩] ++
      List.replicate 2 (.step 1 5 ⟨true, .ok⟩) ++ List.replicate 2 (.step 0 6 ⟨true, .ok⟩))

/-- Two loads: the receipts of both are there. -/
theorem overtaken_stamp_is_retained :
    ReceiptsKept corruptReceipts (markerValue (run World.act (stampedWorld corruptReceipts)
        (overtaken ⟨"a", 1, ""⟩ ⟨"b", 1, ""⟩)).marker) ∧
      RemovesNothingForeign corruptReceipts (markerValue (run World.act
        (stampedWorld corruptReceipts) (overtaken ⟨"a", 1, ""⟩ ⟨"b", 1, ""⟩)).marker) :=
  receipts_are_retained corruptReceipts (stampedWorld corruptReceipts) rfl rfl
    (overtaken ⟨"a", 1, ""⟩ ⟨"b", 1, ""⟩) (by simp [overtaken, Event.pastEpoch]) (by decide)
    (by decide)

/-- The stamp of a unit of one load, planned where there is no receipt yet. -/
def unitStamp (commitSeq nowMs : Nat) : PropertyAction :=
  PropertyCommit.action ⟨"s", "", ⟨"a", commitSeq⟩, nowMs⟩ ∅

/-- Two units of one load: the first is committed on the second's receipt, which it was not merged
with, and the recorded sequence goes back. -/
theorem overtaken_unit_lowers_receipt :
    ¬ ∀ events : List (Event Nat), (∀ event ∈ events, event.pastEpoch) →
      Meets World.act (fun w event => w.onTime ∅ event = true) (stampedWorld ∅) events →
      ReceiptsKept ∅ (markerValue (run World.act (stampedWorld ∅) events).marker) := by
  intro h
  have hkept := h (overtaken ⟨"a", 1, ""⟩ ⟨"a", 2, ""⟩) (by simp [overtaken, Event.pastEpoch])
    (by decide)
  have hcommits : (markerValue (run World.act (stampedWorld ∅)
      (overtaken ⟨"a", 1, ""⟩ ⟨"a", 2, ""⟩)).marker).commits = [unitStamp 2 3, unitStamp 1 4] := by
    decide
  have hreceipt : (markerValue (run World.act (stampedWorld ∅)
      (overtaken ⟨"a", 1, ""⟩ ⟨"a", 2, ""⟩)).marker).properties.lookup (receiptKey "a") =
        some (.receipt ⟨1, 4, some "s"⟩) := by decide
  obtain ⟨recorded, hlookup, hrecords⟩ :=
    hkept [unitStamp 2 3] (unitStamp 1 4) [] hcommits nofun (by decide)
  obtain rfl := Property.receipt.inj (Option.some.inj (hlookup.symm.trans hreceipt))
  have hsecond := hrecords [] (unitStamp 2 3) [unitStamp 1 4] hcommits rfl
  have hpresent : ∀ head tail, [unitStamp 1 4] = head ++ tail →
      (propertiesAfter ∅ ([] ++ unitStamp 2 3 :: head)).lookup (receiptKey "a") ≠ none := by
    intro head tail hsplit
    obtain ⟨rfl, -⟩ | ⟨rfl, -⟩ := List.append_eq_singleton_iff.1 hsplit.symm
    · decide
    · decide
  have hle : 2 ≤ 1 := hsecond hpresent
  omega

end Iceberg
