import Mathlib
import RdltConnectors.Rest.FanOut

/-!
# Every page of every child

What a child still has to push, what is in the channel, in the forwarder's hand and in
the feed are, one after the other, the pages the server answers that child. So when the
children are all at their end and the channel is drained, everything is in the feed,
whatever the interleaving.
-/
namespace Rest

open Highest Transition

/-! ## What a script comes to -/

section Script

variable (parent : ParentValues) (failure : Option SourceError) (setup : Setup)

/-- What is pushed, up to the first page whose records cannot be made. -/
def ParentValues.outputs : List Page → List (List Char)
  | [] => []
  | page :: rest =>
    if 0 < page.count then
      match parent.records page with
      | .ok records => records :: outputs rest
      | .error _ => []
    else outputs rest

/-- No page is refused, and no request either. -/
def ParentValues.succeeds : List Page → Bool
  | [] => failure.isNone
  | page :: rest =>
    if 0 < page.count then
      match parent.records page with
      | .ok _ => succeeds rest
      | .error _ => false
    else succeeds rest

/-- The highest cursor once the pages are observed. -/
def Setup.highest : List Page → Option String → Option String
  | [], highest => highest
  | page :: rest, highest =>
    Setup.highest rest (if 0 < page.count then setup.observe page highest else highest)

end Script

section Outputs

variable {parent : ParentValues} {failure : Option SourceError} {setup : Setup} {page : Page}
  {rest : List Page} {records : List Char} {highest : Option String}

theorem outputs_empty (h : page.count = 0) :
    parent.outputs (page :: rest) = parent.outputs rest := by simp [ParentValues.outputs, h]

theorem outputs_ok (h : 0 < page.count) (hrecords : parent.records page = .ok records) :
    parent.outputs (page :: rest) = records :: parent.outputs rest := by
  simp [ParentValues.outputs, h, hrecords]

theorem succeeds_empty (h : page.count = 0) :
    parent.succeeds failure (page :: rest) = parent.succeeds failure rest := by
  simp [ParentValues.succeeds, h]

theorem succeeds_ok (h : 0 < page.count) (hrecords : parent.records page = .ok records) :
    parent.succeeds failure (page :: rest) = parent.succeeds failure rest := by
  simp [ParentValues.succeeds, h, hrecords]

theorem highest_empty (h : page.count = 0) :
    setup.highest (page :: rest) highest = setup.highest rest highest := by
  simp [Setup.highest, h]

theorem highest_page (h : 0 < page.count) : setup.highest (page :: rest) highest =
    setup.highest rest (setup.observe page highest) := by simp [Setup.highest, h]

/-- Where nothing is refused, every page that is not empty is pushed, in order. -/
theorem outputs_of_succeeds (pages : List Page) (h : parent.succeeds failure pages = true) :
    (pages.filter (0 < ·.count)).map parent.records = (parent.outputs pages).map .ok := by
  induction pages with
  | nil => rfl
  | cons page rest ih =>
    by_cases hcount : 0 < page.count
    · cases hrecords : parent.records page with
      | ok records =>
        rw [succeeds_ok hcount hrecords] at h
        rw [outputs_ok hcount hrecords, List.filter_cons_of_pos (by simpa using hcount),
          List.map_cons, List.map_cons, ih h, hrecords]
      | error e => simp [ParentValues.succeeds, hcount, hrecords] at h
    · have hempty : page.count = 0 := by omega
      rw [succeeds_empty hempty] at h
      rw [outputs_empty hempty, List.filter_cons_of_neg (by simpa using hcount), ih h]

end Outputs

/-! ## Where the pages are -/

def pagesOf (index : Nat) (pages : List (Nat × List Char)) : List (List Char) :=
  (pages.filter (·.1 = index)).map (·.2)

def Delivery.page : Delivery → Option (Nat × List Char)
  | .records index bytes => some (index, bytes)
  | .checkpoint _ => none

def Forwarder.inHand : Forwarder → List (Nat × List Char)
  | .feeding index records => [(index, records)]
  | _ => []

/-- The pages that the children have pushed, in the order of the feed. -/
def FanOut.pushed (s : FanOut) : List (Nat × List Char) :=
  s.feed.filterMap Delivery.page ++ s.forwarder.inHand ++ s.channel

def Child.pending (child : Child) : List (List Char) :=
  (match child.phase with
    | .sending records => [records]
    | _ => []) ++ child.parent.outputs child.pages

@[simp] theorem pagesOf_nil (index : Nat) : pagesOf index [] = [] := rfl

@[simp] theorem pagesOf_append (index : Nat) (first second : List (Nat × List Char)) :
    pagesOf index (first ++ second) = pagesOf index first ++ pagesOf index second := by
  simp [pagesOf]

theorem pagesOf_same (index : Nat) (records : List Char) :
    pagesOf index [(index, records)] = [records] := by simp [pagesOf]

theorem pagesOf_other {index other : Nat} (records : List Char) (h : index ≠ other) :
    pagesOf other [(index, records)] = [] := by simp [pagesOf, h]

/-! ## The invariant -/

section Invariant

variable (setup : Setup) (scripts : List Script)

/-- The child is on its way through the script. -/
structure Child.Follows (script : Script) (child : Child) : Prop where
  parent : child.parent = script.parent
  succeeds : child.parent.succeeds child.failure child.pages =
    script.parent.succeeds script.failure script.pages
  highest : setup.highest child.pages child.localMax =
    setup.highest script.pages setup.startValue
  done : child.isDone = true → child.pages = [] ∧ child.failure = none

structure Accounted (s : FanOut) : Prop where
  length : s.children.length = scripts.length
  follows : ∀ index child, s.children[index]? = some child →
    ∃ script, scripts[index]? = some script ∧ child.Follows setup script ∧
      (s.feedOpen = true →
        pagesOf index s.pushed ++ child.pending = script.parent.outputs script.pages)
  foreign : ∀ index, s.children[index]? = none → pagesOf index s.pushed = []
  maxes : s.maxes.Perm ((s.children.filter Child.isDone).map (·.localMax))
  collected : s.driven = some (.ok ()) → ∀ child ∈ s.children, child.isDone = true
  ended : s.forwarder = .ended → s.feedOpen = true → s.channel = [] ∧ s.driven.isSome
  returned : s.returned.isSome → s.forwarder = .ended ∧ s.driven.isSome
  outcome : ∀ merged, s.returned = some (.ok merged) →
    s.driven = some (.ok ()) ∧ merged = mergeMaxes setup.startValue s.maxes
  feed : ∃ (pages : List (Nat × List Char)) (checkpoints : List Delivery),
    s.feed = pages.map (fun p => .records p.1 p.2) ++ checkpoints ∧
    (checkpoints ≠ [] → ∃ merged, s.returned = some (.ok merged)) ∧
    (s.feedOpen = true → ∀ merged, s.returned = some (.ok merged) →
      checkpoints = setup.checkpoint merged true)

end Invariant

section Children

variable {setup : Setup} {script : Script} {child next : Child} {index : Nat}
  {children : List Child}

theorem Goes.follows (hgoes : Goes setup child next) (h : child.Follows setup script) :
    next.Follows setup script := by
  cases hgoes with
  | skips hphase hpages hcount =>
    exact
      { parent := h.parent
        succeeds := by rw [← h.succeeds, hpages, succeeds_empty hcount]
        highest := by rw [← h.highest, hpages, highest_empty hcount]
        done := by simp [Child.isDone, hphase] }
  | fetches hphase hpages hcount hrecords =>
    exact
      { parent := h.parent
        succeeds := by rw [← h.succeeds, hpages, succeeds_ok hcount hrecords]
        highest := by rw [← h.highest, hpages, highest_page hcount]
        done := by rintro ⟨⟩ }

theorem Goes.pending (hgoes : Goes setup child next) : next.pending = child.pending := by
  cases hgoes with
  | skips hphase hpages hcount => simp [Child.pending, hphase, hpages, outputs_empty hcount]
  | fetches hphase hpages hcount hrecords =>
    simp [Child.pending, hphase, hpages, outputs_ok hcount hrecords]

theorem Goes.phase (hgoes : Goes setup child next) : child.phase = .fetching := by
  cases hgoes with
  | skips hphase => exact hphase
  | fetches hphase => exact hphase

/-- Another phase changes nothing of what a script comes to, short of the end of it. -/
theorem Child.Follows.phase (h : child.Follows setup script) (phase : Phase)
    (hdone : ({ child with phase := phase } : Child).isDone = true →
      child.pages = [] ∧ child.failure = none) :
    ({ child with phase := phase } : Child).Follows setup script :=
  ⟨h.parent, h.succeeds, h.highest, hdone⟩

theorem getElem?_set_cases {i : Nat} {other : Child}
    (h : (children.set index next)[i]? = some other) :
    i = index ∧ other = next ∨ i ≠ index ∧ children[i]? = some other := by
  rw [List.getElem?_set] at h
  split at h
  · rename_i hi
    split at h
    · cases h
      exact .inl ⟨hi.symm, rfl⟩
    · cases h
  · rename_i hi
    exact .inr ⟨Ne.symm hi, h⟩

theorem filter_done_set (hchild : children[index]? = some child) (hdone : child.isDone = false)
    (next : Child) (hnext : next.isDone = false) :
    (children.set index next).filter Child.isDone = children.filter Child.isDone := by
  obtain ⟨hlt, hget⟩ := List.getElem?_eq_some_iff.mp hchild
  obtain ⟨before, behind, hchildren, -, hset⟩ := List.exists_of_set hlt
  rw [hset, hchildren, hget]
  simp [List.filter_append, hdone, hnext]

theorem filter_done_finished (hchild : children[index]? = some child)
    (hdone : child.isDone = false) (next : Child) (hnext : next.isDone = true) :
    (((children.filter Child.isDone).map (·.localMax)) ++ [next.localMax]).Perm
      (((children.set index next).filter Child.isDone).map (·.localMax)) := by
  obtain ⟨hlt, hget⟩ := List.getElem?_eq_some_iff.mp hchild
  obtain ⟨before, behind, hchildren, -, hset⟩ := List.exists_of_set hlt
  rw [hset, hchildren, hget]
  simp only [List.filter_append, List.filter_cons, hdone, hnext, Bool.false_eq_true, if_false,
    if_true, List.map_append, List.map_cons, List.append_assoc]
  exact List.perm_append_comm.append_left (before.filter Child.isDone |>.map (·.localMax))

end Children

section Step

variable {setup : Setup} {scripts : List Script} {s : FanOut} {child next : Child} {index : Nat}

theorem pagesOf_map_same (index : Nat) (sent : List (List Char)) :
    pagesOf index (sent.map (index, ·)) = sent := by
  induction sent with
  | nil => rfl
  | cons records sent ih =>
    rw [List.map_cons, ← List.singleton_append, pagesOf_append, pagesOf_same, ih]
    rfl

theorem pagesOf_map_other {index other : Nat} (h : index ≠ other) (sent : List (List Char)) :
    pagesOf other (sent.map (index, ·)) = [] := by
  induction sent with
  | nil => rfl
  | cons records sent ih =>
    rw [List.map_cons, ← List.singleton_append, pagesOf_append, pagesOf_other records h, ih]
    rfl

/-- One child goes on; what it no longer has to push is in the channel. -/
theorem Accounted.replaced (h : Accounted setup scripts s) (hdriven : s.driven = none)
    (hchild : s.children[index]? = some child) (next : Child) (sent : List (List Char))
    (maxes : List (Option String))
    (hfollows : ∀ script, child.Follows setup script → next.Follows setup script)
    (hpending : child.pending = sent ++ next.pending)
    (hmaxes : maxes.Perm (((s.children.set index next).filter Child.isDone).map (·.localMax))) :
    Accounted setup scripts { s with
      children := s.children.set index next
      channel := s.channel ++ sent.map (index, ·)
      maxes := maxes } := by
  have hpushed : ∀ i, pagesOf i (FanOut.pushed { s with
      children := s.children.set index next
      channel := s.channel ++ sent.map (index, ·)
      maxes := maxes }) = pagesOf i s.pushed ++ pagesOf i (sent.map (index, ·)) := by
    intro i
    simp [FanOut.pushed]
  have hgoing : s.returned = none := by
    cases hreturned : s.returned with
    | none => rfl
    | some result =>
      have hsome := (h.returned (by simp [hreturned])).2
      simp [hdriven] at hsome
  exact
    { length := by simp [h.length]
      follows := by
        intro i other hother
        obtain ⟨rfl, rfl⟩ | ⟨hi, hold⟩ := getElem?_set_cases hother
        · obtain ⟨script, hscript, hold, hflow⟩ := h.follows i child hchild
          refine ⟨script, hscript, hfollows script hold, ?_⟩
          intro hopen
          rw [hpushed, pagesOf_map_same, List.append_assoc, ← hpending]
          exact hflow hopen
        · obtain ⟨script, hscript, hfollow, hflow⟩ := h.follows i other hold
          refine ⟨script, hscript, hfollow, ?_⟩
          intro hopen
          rw [hpushed, pagesOf_map_other (Ne.symm hi), List.append_nil]
          exact hflow hopen
      foreign := by
        intro i hnone
        rw [List.getElem?_eq_none_iff, List.length_set, ← List.getElem?_eq_none_iff] at hnone
        have hi : index ≠ i := by
          intro he
          rw [he, hnone] at hchild
          cases hchild
        rw [hpushed, pagesOf_map_other hi, List.append_nil]
        exact h.foreign i hnone
      maxes := hmaxes
      collected := by simp [hdriven]
      ended := by
        intro hended hopen
        have hsome := (h.ended hended hopen).2
        simp [hdriven] at hsome
      returned := by simp [hgoing]
      outcome := by simp [hgoing]
      feed := h.feed }

/-- A move that leaves the children and their driver alone. -/
theorem Accounted.forwarded (h : Accounted setup scripts s) {channel : List (Nat × List Char)}
    {forwarder : Forwarder} {feedOpen : Bool} {feed : List Delivery}
    {returned : Option (Except SourceError (Option String))} {t : FanOut}
    (ht : t = ⟨s.children, channel, forwarder, feedOpen, feed, s.maxes, s.driven, returned⟩)
    (hopen : feedOpen = true → s.feedOpen = true)
    (hpushed : ∀ i, s.feedOpen = true → pagesOf i t.pushed = pagesOf i s.pushed)
    (hforeign : ∀ i, pagesOf i s.pushed = [] → pagesOf i t.pushed = [])
    (hended : forwarder = .ended → feedOpen = true → channel = [] ∧ s.driven.isSome)
    (hreturned : returned.isSome → forwarder = .ended ∧ s.driven.isSome)
    (houtcome : ∀ merged, returned = some (.ok merged) →
      s.driven = some (.ok ()) ∧ merged = mergeMaxes setup.startValue s.maxes)
    (hfeed : ∃ (pages : List (Nat × List Char)) (checkpoints : List Delivery),
      feed = pages.map (fun p => .records p.1 p.2) ++ checkpoints ∧
      (checkpoints ≠ [] → ∃ merged, returned = some (.ok merged)) ∧
      (feedOpen = true → ∀ merged, returned = some (.ok merged) →
        checkpoints = setup.checkpoint merged true)) : Accounted setup scripts t := by
  subst ht
  exact
    { length := h.length
      follows := by
        intro i child hchild
        obtain ⟨script, hscript, hfollow, hflow⟩ := h.follows i child hchild
        refine ⟨script, hscript, hfollow, ?_⟩
        intro hnow
        rw [hpushed i (hopen hnow)]
        exact hflow (hopen hnow)
      foreign := fun i hnone => hforeign i (h.foreign i hnone)
      maxes := h.maxes
      collected := h.collected
      ended := hended
      returned := hreturned
      outcome := houtcome
      feed := hfeed }

theorem checkpoint_page (setup : Setup) (merged : Option String) (feedOpen : Bool) :
    (setup.checkpoint merged feedOpen).filterMap Delivery.page = [] := by
  cases hfield : setup.cursorField with
  | none => simp [Setup.checkpoint, hfield]
  | some field => cases merged <;> cases feedOpen <;> simp [Setup.checkpoint, hfield, Delivery.page]

/-- Until it returns well, the feed holds pages and nothing else. -/
theorem Accounted.pages (h : Accounted setup scripts s)
    (hnot : ∀ merged, s.returned ≠ some (.ok merged)) :
    ∃ pages : List (Nat × List Char), s.feed = pages.map fun p => .records p.1 p.2 := by
  obtain ⟨pages, checkpoints, hfeed, hsome, -⟩ := h.feed
  cases checkpoints with
  | nil => exact ⟨pages, by rw [hfeed, List.append_nil]⟩
  | cons checkpoint rest =>
    obtain ⟨merged, hmerged⟩ := hsome (List.cons_ne_nil checkpoint rest)
    exact absurd hmerged (hnot merged)

theorem accounted_step (h : Accounted setup scripts s) (move : Move) :
    Accounted setup scripts (s.step setup move) := by
  have hmoves := step_moves setup s move
  generalize s.step setup move = t at hmoves
  cases hmoves with
  | idle => exact h
  | started hdriven hindex hchild hroom =>
    rename_i index child
    have hwaiting : child.phase = .waiting := by
      obtain ⟨hlt, hget⟩ := List.getElem?_eq_some_iff.mp hchild
      subst hindex
      have hfound : child.isWaiting = true := by rw [← hget]; exact List.findIdx_getElem
      cases hphase : child.phase <;> simp_all [Child.isWaiting]
    have hnot : child.isDone = false := by rw [Child.isDone, hwaiting]
    have hdone := filter_done_set hchild hnot { child with phase := .fetching } rfl
    have hnext := h.replaced hdriven hchild { child with phase := .fetching } [] s.maxes
      (fun script hold => hold.phase .fetching (by rintro ⟨⟩))
      (by simp [Child.pending, hwaiting])
      (by rw [hdone]; exact h.maxes)
    simpa only [List.map_nil, List.append_nil] using hnext
  | went hdriven hchild hgoes =>
    rename_i index child next
    have hnot : child.isDone = false := by rw [Child.isDone, hgoes.phase]
    have hdone := filter_done_set hchild hnot next hgoes.not_done
    have hnext := h.replaced hdriven hchild next [] s.maxes (fun script => hgoes.follows)
      hgoes.pending.symm (by rw [hdone]; exact h.maxes)
    simpa only [List.map_nil, List.append_nil] using hnext
  | finished hdriven hchild hphase hpages hfailure =>
    rename_i index child
    have hnot : child.isDone = false := by rw [Child.isDone, hphase]
    have hdone := filter_done_finished hchild hnot { child with phase := .done } rfl
    have hnext := h.replaced hdriven hchild { child with phase := .done } []
      (s.maxes ++ [child.localMax])
      (fun script hold => hold.phase .done fun _ => ⟨hpages, hfailure⟩)
      (by simp [Child.pending, hphase])
      ((h.maxes.append_right [child.localMax]).trans hdone)
    simpa only [List.map_nil, List.append_nil] using hnext
  | failed hdriven hchild hfails =>
    exact
      { length := h.length
        follows := h.follows
        foreign := h.foreign
        maxes := h.maxes
        collected := by rintro ⟨⟩
        ended := fun hended hopen => ⟨(h.ended hended hopen).1, rfl⟩
        returned := fun hreturned => ⟨(h.returned hreturned).1, rfl⟩
        outcome := by
          intro merged hmerged
          have hold := (h.outcome merged hmerged).1
          rw [hdriven] at hold
          cases hold
        feed := h.feed }
  | sent hdriven hchild hphase hroom =>
    rename_i index child records
    have hnot : child.isDone = false := by rw [Child.isDone, hphase]
    have hdone := filter_done_set hchild hnot { child with phase := .fetching } rfl
    exact h.replaced hdriven hchild { child with phase := .fetching } [records] s.maxes
      (fun script hold => hold.phase .fetching (by rintro ⟨⟩))
      (by simp [Child.pending, hphase])
      (by rw [hdone]; exact h.maxes)
  | abandoned hdriven hreturned =>
    have hsome := (h.returned hreturned).2
    simp [hdriven] at hsome
  | collected hdriven hall =>
    exact
      { length := h.length
        follows := h.follows
        foreign := h.foreign
        maxes := h.maxes
        collected := fun _ => List.all_eq_true.mp hall
        ended := fun hended hopen => ⟨(h.ended hended hopen).1, rfl⟩
        returned := fun hreturned => ⟨(h.returned hreturned).1, rfl⟩
        outcome := fun merged hmerged => ⟨rfl, (h.outcome merged hmerged).2⟩
        feed := h.feed }
  | received hforwarder hchannel =>
    apply h.forwarded rfl id
    · intro i _
      simp [FanOut.pushed, hforwarder, hchannel, Forwarder.inHand]
    · intro i hnil
      simpa [FanOut.pushed, hforwarder, hchannel, Forwarder.inHand] using hnil
    · intro hended
      cases hended
    · intro hreturned
      have hended := (h.returned hreturned).1
      rw [hforwarder] at hended
      cases hended
    · exact h.outcome
    · exact h.feed
  | fed hforwarder hopen =>
    rename_i index records
    have hgoing : s.returned = none := by
      cases hreturned : s.returned with
      | none => rfl
      | some result =>
        have hended := (h.returned (by simp [hreturned])).1
        rw [hforwarder] at hended
        cases hended
    obtain ⟨pages, hfeed⟩ := h.pages (by simp [hgoing])
    apply h.forwarded rfl id
    · intro i _
      simp [FanOut.pushed, hforwarder, Forwarder.inHand, Delivery.page]
    · intro i hnil
      simpa [FanOut.pushed, hforwarder, Forwarder.inHand, Delivery.page] using hnil
    · intro hended
      cases hended
    · simp [hgoing]
    · simp [hgoing]
    · exact ⟨pages ++ [(index, records)], [], by simp [hfeed], by simp, by simp [hgoing]⟩
  | broke _ hforwarder hclosed =>
    have hshut : ¬ s.feedOpen = true := by simp [hclosed]
    apply h.forwarded rfl id
    · exact fun i hopen => absurd hopen hshut
    · intro i hnil
      simp only [FanOut.pushed, pagesOf_append, List.append_eq_nil_iff] at hnil ⊢
      exact ⟨⟨hnil.1.1, rfl⟩, hnil.2⟩
    · exact fun _ hopen => absurd hopen hshut
    · exact fun hreturned => ⟨rfl, (h.returned hreturned).2⟩
    · exact h.outcome
    · exact h.feed
  | drained hforwarder hchannel hdriven =>
    apply h.forwarded rfl id
    · intro i _
      simp [FanOut.pushed, hforwarder, Forwarder.inHand]
    · intro i hnil
      simpa [FanOut.pushed, hforwarder, Forwarder.inHand] using hnil
    · exact fun _ _ => ⟨hchannel, by simp [hdriven]⟩
    · exact fun hreturned => ⟨rfl, (h.returned hreturned).2⟩
    · exact h.outcome
    · exact h.feed
  | closed =>
    obtain ⟨pages, checkpoints, hfeed, hsome, -⟩ := h.feed
    apply h.forwarded rfl
    · intro hopen
      cases hopen
    · exact fun i _ => rfl
    · exact fun i hnil => hnil
    · intro _ hopen
      cases hopen
    · exact h.returned
    · exact h.outcome
    · exact ⟨pages, checkpoints, hfeed, hsome, (by rintro ⟨⟩)⟩
  | refused hreturned hforwarder hdriven =>
    obtain ⟨pages, hfeed⟩ := h.pages (by simp [hreturned])
    apply h.forwarded rfl id
    · exact fun i _ => rfl
    · exact fun i hnil => hnil
    · exact h.ended
    · exact fun _ => ⟨hforwarder, by simp [hdriven]⟩
    · intro merged hmerged
      cases hmerged
    · exact ⟨pages, [], by rw [hfeed, List.append_nil], by simp, fun _ _ h => by cases h⟩
  | joined hreturned hforwarder hdriven =>
    have hpage := checkpoint_page setup (mergeMaxes setup.startValue s.maxes) s.feedOpen
    obtain ⟨pages, hfeed⟩ := h.pages (by simp [hreturned])
    apply h.forwarded rfl id
    · intro i _
      simp [FanOut.pushed, hpage]
    · intro i hnil
      simpa [FanOut.pushed, hpage] using hnil
    · exact h.ended
    · exact fun _ => ⟨hforwarder, by simp [hdriven]⟩
    · rintro _ ⟨⟩
      exact ⟨hdriven, rfl⟩
    · refine ⟨pages, setup.checkpoint (mergeMaxes setup.startValue s.maxes) s.feedOpen, ?_,
        fun _ => ⟨_, rfl⟩, ?_⟩
      · rw [hfeed]
      · rintro hopen _ ⟨⟩
        rw [hopen]

end Step

/-- What holds of a fan-out wherever it stands. -/
structure FannedOut (setup : Setup) (scripts : List Script) (s : FanOut) : Prop where
  pages : ∀ merged, s.returned = some (.ok merged) → s.feedOpen = true →
    ∀ index script, scripts[index]? = some script →
      (script.pages.filter (0 < ·.count)).map script.parent.records =
        (pagesOf index (s.feed.filterMap Delivery.page)).map .ok
  foreign : ∀ index, scripts[index]? = none →
    pagesOf index (s.feed.filterMap Delivery.page) = []
  checkpoint : ∀ merged, s.returned = some (.ok merged) → s.feedOpen = true →
    ∃ pages : List (Nat × List Char),
      s.feed = pages.map (fun p => .records p.1 p.2) ++ setup.checkpoint merged true
  highest : ∀ merged, s.returned = some (.ok merged) →
    merged = mergeMaxes setup.startValue
      (scripts.map fun script => setup.highest script.pages setup.startValue)
  notBelow : ∀ merged, s.returned = some (.ok merged) → ∀ start, setup.startValue = some start →
    ∃ cursor, merged = some cursor ∧ start ≤ cursor
  failing : (∃ script ∈ scripts,
    script.parent.succeeds script.failure script.pages = false) →
      ∀ cursor, .checkpoint cursor ∉ s.feed
  dropped : ∀ e, s.driven = some (.error e) → ∀ cursor, .checkpoint cursor ∉ s.feed

section Outcome

variable {setup : Setup} {scripts : List Script} {s : FanOut} {merged : Option String}

theorem Accounted.script (h : Accounted setup scripts s) {index : Nat} {script : Script}
    (hscript : scripts[index]? = some script) : ∃ child, s.children[index]? = some child ∧
      child.Follows setup script ∧ (s.feedOpen = true →
        pagesOf index s.pushed ++ child.pending = script.parent.outputs script.pages) := by
  obtain ⟨hlt, -⟩ := List.getElem?_eq_some_iff.mp hscript
  rw [← h.length] at hlt
  obtain ⟨script', hscript', hfollows, hflow⟩ :=
    h.follows index s.children[index] (List.getElem?_eq_getElem hlt)
  rw [hscript, Option.some.injEq] at hscript'
  subst hscript'
  exact ⟨s.children[index], List.getElem?_eq_getElem hlt, hfollows, hflow⟩

/-- After a good end every script has come to its own end. -/
theorem Accounted.succeeded (h : Accounted setup scripts s)
    (hreturned : s.returned = some (.ok merged)) {index : Nat} {script : Script} {child : Child}
    (hscript : child.Follows setup script) (hchild : s.children[index]? = some child) :
    script.parent.succeeds script.failure script.pages = true ∧ child.pending = [] ∧
      child.localMax = setup.highest script.pages setup.startValue := by
  have hdone := h.collected (h.outcome merged hreturned).1 child (List.mem_of_getElem? hchild)
  obtain ⟨hpages, hfailure⟩ := hscript.done hdone
  have hphase : child.phase = .done := by
    cases hphase : child.phase <;> simp_all [Child.isDone]
  refine ⟨?_, ?_, ?_⟩
  · rw [← hscript.succeeds, hpages, hfailure]
    rfl
  · simp [Child.pending, hphase, hpages, ParentValues.outputs]
  · rw [← hscript.highest, hpages]
    rfl

theorem Accounted.localMaxes (h : Accounted setup scripts s)
    (hreturned : s.returned = some (.ok merged)) : s.children.map (·.localMax) =
      scripts.map fun script => setup.highest script.pages setup.startValue := by
  apply List.ext_getElem?
  intro index
  rw [List.getElem?_map, List.getElem?_map]
  cases hscript : scripts[index]? with
  | none =>
    have hnone : s.children[index]? = none := by
      rw [List.getElem?_eq_none_iff] at hscript ⊢
      rwa [h.length]
    rw [hnone]
    rfl
  | some script =>
    obtain ⟨child, hchild, hfollows, -⟩ := h.script hscript
    rw [hchild, Option.map_some, Option.map_some, (h.succeeded hreturned hfollows hchild).2.2]

theorem Accounted.mergedMax (h : Accounted setup scripts s)
    (hreturned : s.returned = some (.ok merged)) : merged = mergeMaxes setup.startValue
      (scripts.map fun script => setup.highest script.pages setup.startValue) := by
  obtain ⟨hdriven, hmerged⟩ := h.outcome merged hreturned
  have hall : s.children.filter Child.isDone = s.children :=
    List.filter_eq_self.mpr (h.collected hdriven)
  have hmaxes := h.maxes
  rw [hall, h.localMaxes hreturned] at hmaxes
  rw [hmerged]
  exact mergeMaxes_perm hmaxes setup.startValue

theorem Accounted.marked (h : Accounted setup scripts s) {cursor : String}
    (hcheckpoint : .checkpoint cursor ∈ s.feed) : ∃ merged, s.returned = some (.ok merged) := by
  obtain ⟨pages, checkpoints, hfeed, hsome, -⟩ := h.feed
  apply hsome
  intro hnil
  rw [hfeed, hnil, List.append_nil] at hcheckpoint
  simp at hcheckpoint

theorem Accounted.fannedOut (h : Accounted setup scripts s) : FannedOut setup scripts s where
  pages := by
    intro merged hreturned hopen index script hscript
    obtain ⟨child, hchild, hfollows, hflow⟩ := h.script hscript
    obtain ⟨hsucceeds, hpending, -⟩ := h.succeeded hreturned hfollows hchild
    obtain ⟨hended, -⟩ := h.returned (by simp [hreturned])
    have hpushed : s.pushed = s.feed.filterMap Delivery.page := by
      simp [FanOut.pushed, hended, (h.ended hended hopen).1, Forwarder.inHand]
    have hall := hflow hopen
    rw [hpending, List.append_nil, hpushed] at hall
    rw [hall]
    exact outputs_of_succeeds script.pages hsucceeds
  foreign := by
    intro index hnone
    have hchild : s.children[index]? = none := by
      rw [List.getElem?_eq_none_iff] at hnone ⊢
      rwa [h.length]
    have hnil := h.foreign index hchild
    simp only [FanOut.pushed, pagesOf_append, List.append_eq_nil_iff] at hnil
    exact hnil.1.1
  checkpoint := by
    intro merged hreturned hopen
    obtain ⟨pages, checkpoints, hfeed, -, hmarked⟩ := h.feed
    exact ⟨pages, by rw [hfeed, hmarked hopen merged hreturned]⟩
  highest := fun merged hreturned => h.mergedMax hreturned
  notBelow := by
    intro merged hreturned start hstart
    have hmerged := (h.outcome merged hreturned).2
    rw [mergeMaxes_eq, hstart] at hmerged
    have hcovers : Covers (some start) start := ⟨start, rfl, le_refl start⟩
    obtain ⟨cursor, hcursor, hle⟩ := hcovers.raiseAll (s.maxes.filterMap id)
    exact ⟨cursor, hmerged.trans hcursor, hle⟩
  failing := by
    rintro ⟨script, hin, hfails⟩ cursor hcheckpoint
    obtain ⟨merged, hreturned⟩ := h.marked hcheckpoint
    obtain ⟨index, hscript⟩ := List.mem_iff_getElem?.mp hin
    obtain ⟨child, hchild, hfollows, -⟩ := h.script hscript
    rw [(h.succeeded hreturned hfollows hchild).1] at hfails
    cases hfails
  dropped := by
    intro e hdriven cursor hcheckpoint
    obtain ⟨merged, hreturned⟩ := h.marked hcheckpoint
    have hok := (h.outcome merged hreturned).1
    rw [hdriven] at hok
    cases hok

theorem accounted_initial (setup : Setup) (scripts : List Script) :
    Accounted setup scripts (FanOut.initial setup scripts) where
  length := List.length_map _
  follows := by
    intro index child hchild
    rw [FanOut.initial, List.getElem?_map] at hchild
    cases hscript : scripts[index]? with
    | none => simp [hscript] at hchild
    | some script =>
      rw [hscript, Option.map_some, Option.some.injEq] at hchild
      subst hchild
      refine ⟨script, rfl, ⟨rfl, rfl, rfl, (by rintro ⟨⟩)⟩, ?_⟩
      intro _
      rfl
  foreign := fun _ _ => rfl
  maxes := by
    have hnone : (FanOut.initial setup scripts).children.filter Child.isDone = [] := by
      rw [List.filter_eq_nil_iff]
      intro child hin
      obtain ⟨script, -, rfl⟩ := List.mem_map.mp hin
      simp [Script.child, Child.isDone]
    rw [hnone]
    exact List.Perm.nil
  collected := by rintro ⟨⟩
  ended := by rintro ⟨⟩
  returned := by rintro ⟨⟩
  outcome := by rintro _ ⟨⟩
  feed := ⟨[], [], rfl, fun hne => absurd rfl hne, by rintro _ _ ⟨⟩⟩

end Outcome

/-- Over every interleaving of the children, the forwarder and the host: a good end that
was not cancelled has every page of every child in the feed once and in order, before the
one checkpoint; the highest cursor is that of the scripts; and a failure leaves none. -/
theorem fan_out_complete (setup : Setup) (scripts : List Script) (moves : List Move) :
    FannedOut setup scripts (run (FanOut.step setup) (FanOut.initial setup scripts) moves) := by
  have haccounted : Accounted setup scripts
      (run (FanOut.step setup) (FanOut.initial setup scripts) moves) :=
    run_invariant_always (Accounted setup scripts) (fun s move h => accounted_step h move)
      (accounted_initial setup scripts) moves
  exact haccounted.fannedOut

end Rest
