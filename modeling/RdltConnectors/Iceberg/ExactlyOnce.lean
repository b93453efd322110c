import RdltConnectors.Iceberg.Load

/-!
# Every window once, and the receipt last

The units of one load are attempted one at a time, in whatever order and under whatever
scopes, beside the loads of other pipelines. A table gets a unit's window from one attempt
and every later attempt finds it there, so a session that returns leaves each window once;
the receipt is stamped only then.
-/
namespace Iceberg

open Optimistic Transition

variable {R : Type}

/-- The windows with something to publish, as the rows they add. -/
def unitRows (windows : List (Window R)) : List (String × List R) :=
  (windows.filter fun window => !window.2.isEmpty).map fun window => (window.1, window.2.flatten)

def Stage.over : Stage R → Bool
  | .returned => true
  | .failed => true
  | _ => false

/-- An attempt at a unit of the load that is still under way. -/
def Session.active (session : Session R) (loadId : String) : Bool :=
  session.metadata.loadId == loadId && !session.stage.over

/-- The table has the unit's window, and has it once. -/
def Held (loadId : String) (tables : String → Cell (History R)) (commitSeq : Nat)
    (window : String × List R) : Prop :=
  ∃ snapshot, unitSnapshots (tables window.1).value loadId commitSeq = [snapshot] ∧
    snapshot.files.flatten = window.2

/-- Every window of the unit is held. -/
def Complete (loadId : String) (units : Nat → List (String × List R))
    (tables : String → Cell (History R)) (commitSeq : Nat) : Prop :=
  ∀ window ∈ units commitSeq, Held loadId tables commitSeq window

/-- An attempt begins alone, with the unit's rows. -/
def World.redelivers (w : World R) (loadId : String) (units : Nat → List (String × List R))
    (metadata : CommitMeta) (windows : List (Window R)) : Prop :=
  metadata.loadId = loadId →
    w.sessions.all (fun session => !session.active loadId) = true ∧
      (windows.map Prod.fst).Nodup ∧ unitRows windows = units metadata.commitSeq

/-- The condition on a step: one attempt at a time, with the same rows for a unit. -/
def World.Sequential (w : World R) (loadId : String) (units : Nat → List (String × List R)) :
    Event R → Prop
  | .publish _ metadata windows => w.redelivers loadId units metadata windows
  | .replay _ metadata windows => w.redelivers loadId units metadata windows
  | _ => True

instance [DecidableEq R] (w : World R) (loadId : String) (units : Nat → List (String × List R))
    (metadata : CommitMeta) (windows : List (Window R)) :
    Decidable (w.redelivers loadId units metadata windows) :=
  inferInstanceAs (Decidable (_ → _ ∧ _ ∧ _))

instance [DecidableEq R] (w : World R) (loadId : String) (units : Nat → List (String × List R)) :
    ∀ event : Event R, Decidable (w.Sequential loadId units event)
  | .publish _ metadata windows =>
    inferInstanceAs (Decidable (w.redelivers loadId units metadata windows))
  | .replay _ metadata windows =>
    inferInstanceAs (Decidable (w.redelivers loadId units metadata windows))
  | .step _ _ _ => isTrue trivial
  | .crash _ => isTrue trivial
  | .foreign _ _ => isTrue trivial

/-- Every earlier unit of the load has its receipt. -/
def World.earlierReceipts (w : World R) (ident loadId : String)
    (units : Nat → List (String × List R)) (metadata : CommitMeta) : Prop :=
  metadata.loadId = loadId → ∀ earlier < metadata.commitSeq,
    units earlier = [] ∨ w.existingReceipt ident loadId earlier = .ok (some ⟨loadId, earlier⟩)

/-- The condition on a step that the units begin in the order of their sequences. -/
def World.InOrder (w : World R) (ident loadId : String) (units : Nat → List (String × List R)) :
    Event R → Prop
  | .publish _ metadata _ => w.earlierReceipts ident loadId units metadata
  | .replay _ metadata _ => w.earlierReceipts ident loadId units metadata
  | _ => True

/-! ## Windows of a unit -/

section Tables

variable {loadId : String} {units : Nat → List (String × List R)}
  {tables tables' : String → Cell (History R)} {commitSeq : Nat}

theorem unitRows_append (first second : List (Window R)) :
    unitRows (first ++ second) = unitRows first ++ unitRows second := by
  rw [unitRows, List.filter_append, List.map_append]
  rfl

theorem unitRows_nothing (table : String) : unitRows [((table, []) : Window R)] = [] := rfl

theorem unitRows_singleton {table : String} {files : List (List R)} (h : files.isEmpty = false) :
    unitRows [(table, files)] = [(table, files.flatten)] := by
  rw [unitRows, List.filter_cons_of_pos (by rw [h]; rfl)]
  rfl

/-- A table is in one window of the session, so its rows are those of that window. -/
theorem rows_unique {windows : List (Window R)} (hnodup : (windows.map Prod.fst).Nodup)
    {table : String} {rows rows' : List R} (h : (table, rows) ∈ unitRows windows)
    (h' : (table, rows') ∈ unitRows windows) : rows = rows' := by
  obtain ⟨window, hmem, heq⟩ := List.mem_map.1 h
  obtain ⟨window', hmem', heq'⟩ := List.mem_map.1 h'
  have hsame : window = window' := by
    apply List.inj_on_of_nodup_map hnodup (List.mem_filter.1 hmem).1 (List.mem_filter.1 hmem').1
    exact (congrArg Prod.fst heq).trans (congrArg Prod.fst heq').symm
  subst hsame
  exact (congrArg Prod.snd heq).symm.trans (congrArg Prod.snd heq')

/-- No table has a window of the unit twice, or another window under its name. -/
def Solid (loadId : String) (units : Nat → List (String × List R))
    (tables : String → Cell (History R)) : Prop :=
  ∀ table commitSeq, unitSnapshots (tables table).value loadId commitSeq = [] ∨
    ∃ rows, (table, rows) ∈ units commitSeq ∧ Held loadId tables commitSeq (table, rows)

/-- A table only ever gets a unit it did not have. -/
def Grows (loadId : String) (tables tables' : String → Cell (History R)) : Prop :=
  ∀ table commitSeq, unitSnapshots (tables' table).value loadId commitSeq =
      unitSnapshots (tables table).value loadId commitSeq ∨
    unitSnapshots (tables table).value loadId commitSeq = []

theorem Held.grows {window : String × List R} (h : Held loadId tables commitSeq window)
    (hgrows : Grows loadId tables tables') : Held loadId tables' commitSeq window := by
  obtain ⟨snapshot, hsnapshot, hrows⟩ := h
  obtain heq | hnone := hgrows window.1 commitSeq
  · exact ⟨snapshot, heq.trans hsnapshot, hrows⟩
  · rw [hnone] at hsnapshot
    cases hsnapshot

theorem Complete.grows (h : Complete loadId units tables commitSeq)
    (hgrows : Grows loadId tables tables') : Complete loadId units tables' commitSeq :=
  fun window hwindow => (h window hwindow).grows hgrows

/-- A unit found in a table is the window the attempt has for it. -/
theorem Solid.held (h : Solid loadId units tables) {windows : List (Window R)}
    (hnodup : (windows.map Prod.fst).Nodup) (hrows : unitRows windows = units commitSeq)
    {table : String} {files : List (List R)} (hfiles : files.isEmpty = false)
    (hwindow : (table, files) ∈ windows)
    (hsome : unitSnapshots (tables table).value loadId commitSeq ≠ []) :
    Held loadId tables commitSeq (table, files.flatten) := by
  have hmine : (table, files.flatten) ∈ unitRows windows :=
    List.mem_map.2 ⟨(table, files), List.mem_filter.2 ⟨hwindow, by rw [hfiles]; rfl⟩, rfl⟩
  obtain hnone | ⟨rows, hmem, hheld⟩ := h table commitSeq
  · exact absurd hnone hsome
  · rw [← hrows] at hmem
    rw [rows_unique hnodup hmine hmem]
    exact hheld

end Tables

/-! ## An attempt under way -/

/-- What an attempt has done when it is at a stage. What it appends to does not have the unit, and
did not when the attempt loaded it, since the attempt is alone. -/
def Progress (loadId : String) (tables : String → Cell (History R)) (session : Session R) : Prop :=
  match session.stage with
  | .converging rest => ∃ done, session.windows = done ++ rest ∧
      ∀ window ∈ unitRows done, Held loadId tables session.metadata.commitSeq window
  | .appending table files rest phase => files.isEmpty = false ∧
      (∃ done, session.windows = done ++ (table, files) :: rest ∧
        ∀ window ∈ unitRows done, Held loadId tables session.metadata.commitSeq window) ∧
      unitSnapshots (tables table).value loadId session.metadata.commitSeq = [] ∧
      (∀ attempt seen, phase = .loaded attempt seen →
        loadCommitted seen.value loadId session.metadata.commitSeq = false) ∧
      phase.over = false
  | .failed => True
  | _ => ∀ window ∈ unitRows session.windows,
      Held loadId tables session.metadata.commitSeq window

/-- The unit is complete, and where units begin in order so are all earlier ones. -/
def Reached (loadId : String) (units : Nat → List (String × List R)) (inOrder : Prop)
    (tables : String → Cell (History R)) (commitSeq : Nat) : Prop :=
  Complete loadId units tables commitSeq ∧
    (inOrder → ∀ earlier < commitSeq, Complete loadId units tables earlier)

/-- The marker is what its commits made of it, and every unit a receipt recorded is reached. -/
def Backed (loadId : String) (units : Nat → List (String × List R)) (inOrder : Prop)
    (start : Properties) (tables : String → Cell (History R)) (marker : Marker) : Prop :=
  marker.properties = propertiesAfter start marker.commits ∧
    ∀ c ∈ marker.commits, c.stamp.loadId = loadId →
      Reached loadId units inOrder tables c.recorded.commitSeq

/-- A session's action records a unit of the load that is reached. -/
def Records (loadId : String) (units : Nat → List (String × List R)) (inOrder : Prop)
    (tables : String → Cell (History R)) (action : PropertyAction) : Prop :=
  action.stamp.loadId = loadId → Reached loadId units inOrder tables action.recorded.commitSeq

/-- An attempt at a unit of the load. -/
structure Attempt (loadId : String) (units : Nat → List (String × List R)) (inOrder : Prop)
    (tables : String → Cell (History R)) (session : Session R) : Prop where
  load : session.metadata.loadId = loadId
  nodup : (session.windows.map Prod.fst).Nodup
  rows : unitRows session.windows = units session.metadata.commitSeq
  earlier : inOrder → ∀ earlier < session.metadata.commitSeq, Complete loadId units tables earlier
  progress : Progress loadId tables session

section Steps

variable {loadId : String} {units : Nat → List (String × List R)} {inOrder : Prop}
  {start : Properties} {tables tables' : String → Cell (History R)}
  {marker marker' : Option (Cell Marker)} {session : Session R} {stage : Stage R} {nowMs : Nat}

theorem Reached.grows {commitSeq : Nat} (h : Reached loadId units inOrder tables commitSeq)
    (hgrows : Grows loadId tables tables') : Reached loadId units inOrder tables' commitSeq :=
  ⟨h.1.grows hgrows, fun hinorder earlier hlt => (h.2 hinorder earlier hlt).grows hgrows⟩

theorem Backed.grows {marker : Marker} (h : Backed loadId units inOrder start tables marker)
    (hgrows : Grows loadId tables tables') : Backed loadId units inOrder start tables' marker :=
  ⟨h.1, fun c hc hload => (h.2 c hc hload).grows hgrows⟩

/-- What a table has of the unit changes only by an append of an attempt at it. -/
theorem Session.Steps.view (loadId : String)
    (h : session.Steps nowMs tables marker tables' marker' stage)
    (htracking : session.Tracking tables) (table : String) (commitSeq : Nat) :
    unitSnapshots (tables' table).value loadId commitSeq =
        unitSnapshots (tables table).value loadId commitSeq ∨
      session.metadata.loadId = loadId ∧ session.metadata.commitSeq = commitSeq ∧
        ∃ files rest phase, session.stage = .appending table files rest phase ∧
          unitSnapshots (tables' table).value loadId commitSeq =
            unitSnapshots (tables table).value loadId commitSeq ++
              [⟨session.identity.summaryProps, files⟩] := by
  obtain heq | ⟨files, rest, attempt, seen, tries, next, hstage, -, hvalue⟩ :=
    h.table htracking table
  · exact .inl (by rw [heq])
  · rw [hvalue, unitSnapshots_append]
    split
    · next hcarries =>
      obtain ⟨hload, hseq⟩ := carries_summaryProps.1 hcarries
      exact .inr ⟨hload, hseq, files, rest, _, hstage, rfl⟩
    · exact .inl (List.append_nil _)

/-- What an attempt appends to does not have the unit. -/
theorem Attempt.absent (h : Attempt loadId units inOrder tables session) {table : String}
    {files : List (List R)} {rest : List (Window R)} {phase : Appending R}
    (hstage : session.stage = .appending table files rest phase) :
    unitSnapshots (tables table).value loadId session.metadata.commitSeq = [] := by
  have hprogress := h.progress
  unfold Progress at hprogress
  rw [hstage] at hprogress
  exact hprogress.2.2.1

/-- The window an attempt appends is one of the unit. -/
theorem Attempt.mem_units (h : Attempt loadId units inOrder tables session) {table : String}
    {files : List (List R)} {rest : List (Window R)} {phase : Appending R}
    (hstage : session.stage = .appending table files rest phase) :
    (table, files.flatten) ∈ units session.metadata.commitSeq := by
  have hprogress := h.progress
  unfold Progress at hprogress
  rw [hstage] at hprogress
  obtain ⟨hfiles, ⟨done, hwindows, -⟩, -, -, -⟩ := hprogress
  rw [← h.rows, hwindows, unitRows_append]
  apply List.mem_append_right
  change (table, files.flatten) ∈ unitRows ([(table, files)] ++ rest)
  rw [unitRows_append, unitRows_singleton hfiles]
  exact List.mem_append_left _ List.mem_cons_self

/-- A step of an attempt, or of another load's session, adds at most what was not there. -/
theorem Session.Steps.solid (h : session.Steps nowMs tables marker tables' marker' stage)
    (htracking : session.Tracking tables) (hsolid : Solid loadId units tables)
    (hattempt : session.metadata.loadId = loadId → Attempt loadId units inOrder tables session) :
    Solid loadId units tables' ∧ Grows loadId tables tables' := by
  have hgrows : Grows loadId tables tables' := by
    intro table commitSeq
    obtain heq | ⟨hload, rfl, files, rest, phase, hstage, -⟩ := h.view loadId htracking table commitSeq
    · exact .inl heq
    · exact .inr ((hattempt hload).absent hstage)
  refine ⟨fun table commitSeq => ?_, hgrows⟩
  obtain heq | ⟨hload, rfl, files, rest, phase, hstage, hview⟩ :=
    h.view loadId htracking table commitSeq
  · obtain hnone | ⟨rows, hmem, hheld⟩ := hsolid table commitSeq
    · exact .inl (heq.trans hnone)
    · exact .inr ⟨rows, hmem, hheld.grows hgrows⟩
  · have hmine := hattempt hload
    rw [hmine.absent hstage] at hview
    exact .inr ⟨files.flatten, hmine.mem_units hstage, _, hview, rfl⟩

/-- A session that is over changes nothing. -/
theorem Session.Steps.over (h : session.Steps nowMs tables marker tables' marker' stage)
    (hover : session.stage.over = true) :
    tables' = tables ∧ marker' = marker ∧ stage.over = true := by
  cases h with
  | failing => exact ⟨rfl, rfl, rfl⟩
  | idle => exact ⟨rfl, rfl, hover⟩
  | marked hstage =>
    obtain hstage | hstage := hstage
    · rw [hstage] at hover
      cases hover
    · rw [hstage] at hover
      cases hover
  | converged hstage | nothing hstage | already hstage | fresh hstage | append hstage hsteps
  | absent hstage | outrun hstage | created hstage | lost hstage | stamp hstage hcell hsteps =>
    rw [hstage] at hover
    cases hover

theorem held_snoc {done : List (Window R)} {commitSeq : Nat} {table : String}
    {files : List (List R)} (hfiles : files.isEmpty = false)
    (hdone : ∀ window ∈ unitRows done, Held loadId tables commitSeq window)
    (hheld : Held loadId tables commitSeq (table, files.flatten)) :
    ∀ window ∈ unitRows (done ++ [(table, files)]), Held loadId tables commitSeq window := by
  intro window hwindow
  rw [unitRows_append, unitRows_singleton hfiles] at hwindow
  obtain hwindow | hwindow := List.mem_append.1 hwindow
  · exact hdone window hwindow
  · exact List.mem_singleton.1 hwindow ▸ hheld

/-- A commit that landed leaves the window in the table. -/
theorem Attempt.landed_held (hattempt : Attempt loadId units inOrder tables session)
    {table : String} {files : List (List R)} {rest : List (Window R)} {phase : Appending R}
    (hstage : session.stage = .appending table files rest phase) (hsolid' : Solid loadId units tables')
    {history : History R}
    (hvalue : (tables' table).value = history ++ [⟨session.identity.summaryProps, files⟩]) :
    Held loadId tables' session.metadata.commitSeq (table, files.flatten) := by
  have hprogress := hattempt.progress
  unfold Progress at hprogress
  rw [hstage] at hprogress
  obtain ⟨hfiles, ⟨done, hwindows, -⟩, -⟩ := hprogress
  apply hsolid'.held hattempt.nodup hattempt.rows hfiles
  · rw [hwindows]
    exact List.mem_append_right _ List.mem_cons_self
  · have hcarries : (⟨session.identity.summaryProps, files⟩ : Snapshot R).carries loadId
        session.metadata.commitSeq = true := carries_summaryProps.2 ⟨hattempt.load, rfl⟩
    rw [hvalue, unitSnapshots_append, if_pos hcarries]
    exact List.append_ne_nil_of_right_ne_nil _ (List.cons_ne_nil _ _)

/-- The append of an attempt goes on, or its window is held. It does not settle, since the unit is
not in what it has loaded. -/
theorem Attempt.progress_append (hattempt : Attempt loadId units inOrder tables session)
    (htracking : session.Tracking tables) {table : String} {files : List (List R)}
    {rest : List (Window R)} {phase phase' : Appending R} {cell' : Cell (History R)}
    (hstage : session.stage = .appending table files rest phase)
    (hsteps : appendClient.Steps (appendPlan session.identity files) (tables table) phase cell' phase')
    (hsolid' : Solid loadId units (Function.update tables table cell'))
    (hgrows : Grows loadId tables (Function.update tables table cell')) :
    Progress loadId (Function.update tables table cell')
      ({ session with stage := appended table files rest phase' } : Session R) := by
  have hprogress := hattempt.progress
  unfold Progress at hprogress
  rw [hstage] at hprogress
  obtain ⟨hfiles, ⟨done, hwindows, hdone⟩, hnone, hseen, hrunning⟩ := hprogress
  have hdone' : ∀ window ∈ unitRows done,
      Held loadId (Function.update tables table cell') session.metadata.commitSeq window :=
    fun window hwindow => (hdone window hwindow).grows hgrows
  -- no commit has landed, and the next phase is one under way
  have hgoes : ∀ phase' : Appending R, cell' = tables table → phase'.over = false →
      (∀ attempt seen, phase' = .loaded attempt seen →
        loadCommitted seen.value loadId session.metadata.commitSeq = false) →
      Progress loadId (Function.update tables table cell')
        ({ session with stage := .appending table files rest phase' } : Session R) := by
    intro phase' hcell hrunning' hseen'
    refine ⟨hfiles, ⟨done, hwindows, hdone'⟩, ?_, hseen', hrunning'⟩
    rw [Function.update_self, hcell]
    exact hnone
  cases hsteps with
  | load =>
    apply hgoes _ rfl rfl
    intro attempt seen heq
    cases heq
    exact unitSnapshots_eq_nil.1 hnone
  | settle hsettled =>
    have hfound : loadCommitted _ session.metadata.loadId session.metadata.commitSeq = true :=
      appendPlan_settled hsettled
    rw [hattempt.load, hseen _ _ rfl] at hfound
    cases hfound
  | plan hplan | build hbuild | again htries | reload hattempts => exact hgoes _ rfl rfl nofun
  | land hversion =>
    obtain ⟨⟨_, hplan⟩, -, hbuild⟩ := htracking _ _ _ _ hstage
    obtain ⟨-, rfl⟩ := appendPlan_commit hplan
    obtain rfl := Except.ok.inj hbuild
    have hheld := hattempt.landed_held hstage hsolid' (congrArg Cell.value (Function.update_self table _ tables))
    exact ⟨done ++ [(table, files)], by rw [hwindows, List.append_assoc]; rfl,
      held_snoc hfiles hdone' hheld⟩
  | rest hover =>
    rw [hrunning] at hover
    cases hover
  | _ => trivial

/-- A step of an attempt brings it further, and leaves nothing behind it undone. -/
theorem Attempt.step (hattempt : Attempt loadId units inOrder tables session)
    (htracking : session.Tracking tables) (hsolid : Solid loadId units tables)
    (h : session.Steps nowMs tables marker tables' marker' stage) :
    Progress loadId tables' ({ session with stage := stage } : Session R) := by
  have hprogress := hattempt.progress
  unfold Progress at hprogress
  have hsteps := h
  cases h with
  | converged hstage =>
    rw [hstage] at hprogress
    obtain ⟨done, hwindows, hdone⟩ := hprogress
    rw [List.append_nil] at hwindows
    exact hwindows ▸ hdone
  | @nothing table rest hstage =>
    rw [hstage] at hprogress
    obtain ⟨done, hwindows, hdone⟩ := hprogress
    refine ⟨done ++ [(table, [])], by rw [hwindows, List.append_assoc]; rfl, ?_⟩
    rw [unitRows_append, unitRows_nothing, List.append_nil]
    exact hdone
  | @already table files rest hstage hfiles hfound =>
    rw [hstage] at hprogress
    obtain ⟨done, hwindows, hdone⟩ := hprogress
    refine ⟨done ++ [(table, files)], by rw [hwindows, List.append_assoc]; rfl, ?_⟩
    apply held_snoc hfiles hdone
    apply hsolid.held hattempt.nodup hattempt.rows hfiles
    · rw [hwindows]
      exact List.mem_append_right _ List.mem_cons_self
    · intro hnone
      rw [hattempt.load, unitSnapshots_eq_nil.1 hnone] at hfound
      cases hfound
  | @fresh table files rest hstage hfiles hnot =>
    rw [hstage] at hprogress
    rw [hattempt.load] at hnot
    refine ⟨hfiles, hprogress, unitSnapshots_eq_nil.2 hnot, ?_, rfl⟩
    intro attempt seen heq
    cases heq
    exact hnot
  | append hstage hcommit =>
    obtain ⟨hsolid', hgrows⟩ := hsteps.solid htracking hsolid fun _ => hattempt
    exact hattempt.progress_append htracking hstage hcommit hsolid' hgrows
  | marked hstage hcell =>
    obtain hstage | hstage := hstage
    · rw [hstage] at hprogress
      exact hprogress
    · rw [hstage] at hprogress
      exact hprogress
  | stamp hstage hcell hcommit =>
    rw [hstage] at hprogress
    unfold stamped
    split
    · exact hprogress
    · trivial
    · exact hprogress
  | absent hstage | outrun hstage | created hstage =>
    rw [hstage] at hprogress
    exact hprogress
  | lost hstage | failing => trivial
  | idle => exact hattempt.progress

/-- What other sessions do is nothing to an attempt, while the unit's windows are as they were. -/
theorem Progress.congr (h : Progress loadId tables session)
    (hviews : ∀ table commitSeq, unitSnapshots (tables' table).value loadId commitSeq =
      unitSnapshots (tables table).value loadId commitSeq) : Progress loadId tables' session := by
  have hgrows : Grows loadId tables tables' := fun table commitSeq => .inl (hviews table commitSeq)
  unfold Progress at h ⊢
  split
  · next hstage =>
    rw [hstage] at h
    obtain ⟨done, hwindows, hdone⟩ := h
    exact ⟨done, hwindows, fun window hwindow => (hdone window hwindow).grows hgrows⟩
  · next hstage =>
    rw [hstage] at h
    obtain ⟨hfiles, ⟨done, hwindows, hdone⟩, hnone, hseen, hrunning⟩ := h
    refine ⟨hfiles, ⟨done, hwindows, fun window hwindow => (hdone window hwindow).grows hgrows⟩,
      ?_, hseen, hrunning⟩
    rw [hviews]
    exact hnone
  · trivial
  · next hconverging happending hfailed =>
    split at h
    · next hstage => exact absurd hstage (hconverging _)
    · next hstage => exact absurd hstage (happending _ _ _ _)
    · next hstage => exact absurd hstage hfailed
    · exact fun window hwindow => (h window hwindow).grows hgrows

/-- Nor is it to a session that is over. -/
theorem Progress.over (h : Progress loadId tables session) (hover : session.stage.over = true)
    (hgrows : Grows loadId tables tables') : Progress loadId tables' session := by
  unfold Progress at h ⊢
  cases hstage : session.stage with
  | returned =>
    rw [hstage] at h
    exact fun window hwindow => (h window hwindow).grows hgrows
  | failed => trivial
  | _ =>
    rw [hstage] at hover
    cases hover

theorem Progress.crashed (h : Progress loadId tables session) :
    Progress loadId tables ({ session with stage := session.stage.crashed } : Session R) := by
  unfold Progress at h ⊢
  dsimp only
  obtain ⟨hreturned, hcrashed⟩ | hcrashed := crashed_cases session.stage
  · rw [hcrashed]
    rw [hreturned] at h
    exact h
  · rw [hcrashed]
    trivial

end Steps

/-! ## One attempt at a time -/

/-- At most one attempt at the load's units is under way. -/
def Alone (loadId : String) (w : World R) : Prop :=
  ∀ (i j : Nat) (session other : Session R), w.sessions[i]? = some session →
    w.sessions[j]? = some other → session.active loadId = true → other.active loadId = true → i = j

section Alone

variable {loadId : String} {w : World R} {event : Event R}

theorem inactive_of_over {session : Session R} (h : session.stage.over = true) :
    session.active loadId = false := by
  rw [Session.active, h, Bool.not_true, Bool.and_false]

theorem crashed_over (stage : Stage R) : stage.crashed.over = true := by
  obtain ⟨-, heq⟩ | heq := crashed_cases stage
  · rw [heq]
    rfl
  · rw [heq]
    rfl

/-- A session that is over takes no step, so one that goes on was under way. -/
theorem Session.Steps.active {session : Session R} {nowMs : Nat}
    {tables tables' : String → Cell (History R)} {marker marker' : Option (Cell Marker)}
    {stage : Stage R} (h : session.Steps nowMs tables marker tables' marker' stage)
    (hactive : ({ session with stage := stage } : Session R).active loadId = true) :
    session.active loadId = true := by
  have hnotover : session.stage.over = false := by
    apply Bool.eq_false_iff.2
    intro hover
    have hinactive : ({ session with stage := stage } : Session R).active loadId = false :=
      inactive_of_over (h.over hover).2.2
    rw [hinactive] at hactive
    cases hactive
  rw [Session.active, Bool.and_eq_true] at hactive
  rw [Session.active, hnotover, Bool.not_false, Bool.and_true]
  exact hactive.1

theorem begin_active {scope : String} {metadata : CommitMeta} {windows : List (Window R)} {j : Nat}
    {session' : Session R} (h : (w.begin scope metadata windows).sessions[j]? = some session')
    (hactive : session'.active loadId = true) :
    (∃ session, w.sessions[j]? = some session ∧ session.active loadId = true) ∨
      j = w.sessions.length ∧ metadata.loadId = loadId := by
  change (w.sessions ++ [_])[j]? = some session' at h
  rw [List.getElem?_append] at h
  split at h
  · exact .inl ⟨session', h, hactive⟩
  · next hge =>
    obtain ⟨hlt, -⟩ := List.getElem?_eq_some_iff.1 h
    obtain rfl := List.mem_singleton.1 (List.mem_of_getElem? h)
    rw [List.length_singleton] at hlt
    exact .inr ⟨by omega, beq_iff_eq.1 (Bool.and_eq_true_iff.1 hactive).1⟩

/-- An attempt under way was under way before, or has just begun. -/
theorem act_active {j : Nat} {session' : Session R}
    (h : (w.act event).sessions[j]? = some session') (hactive : session'.active loadId = true) :
    (∃ session, w.sessions[j]? = some session ∧ session.active loadId = true) ∨
      j = w.sessions.length ∧ ∃ scope metadata windows, metadata.loadId = loadId ∧
        (event = .publish scope metadata windows ∨ event = .replay scope metadata windows) := by
  cases event with
  | publish scope metadata windows =>
    obtain hold | ⟨hj, hload⟩ := begin_active h hactive
    · exact .inl hold
    · exact .inr ⟨hj, scope, metadata, windows, hload, .inl rfl⟩
  | replay scope metadata windows =>
    obtain hold | ⟨hj, hload⟩ := begin_active h hactive
    · exact .inl hold
    · exact .inr ⟨hj, scope, metadata, windows, hload, .inr rfl⟩
  | step index nowMs answer =>
    left
    unfold World.act at h
    dsimp only at h
    split at h
    · next session hsession =>
      obtain ⟨tables, marker, stage, hsteps, heq⟩ := advance_steps nowMs answer hsession
      rw [heq] at h
      obtain ⟨rfl, before, hbefore, rfl⟩ | ⟨-, hother⟩ := modify_cases h
      · obtain rfl := Option.some.inj (hbefore.symm.trans hsession)
        exact ⟨before, hsession, hsteps.active hactive⟩
      · exact ⟨session', hother, hactive⟩
    · exact ⟨session', h, hactive⟩
  | crash index =>
    left
    obtain ⟨-, before, hbefore, rfl⟩ | ⟨-, hother⟩ := modify_cases h
    · have hinactive : ({ before with stage := before.stage.crashed } : Session R).active loadId =
          false := inactive_of_over (crashed_over before.stage)
      rw [hinactive] at hactive
      cases hactive
    · exact ⟨session', hother, hactive⟩
  | foreign table snapshot =>
    rw [World.act, (appendForeign_rest w table snapshot).2] at h
    exact .inl ⟨session', h, hactive⟩

/-- An attempt begins only when none is under way. -/
theorem Alone.act {units : Nat → List (String × List R)} (h : Alone loadId w)
    (hok : w.Sequential loadId units event) : Alone loadId (w.act event) := by
  have hnone : ∀ scope metadata windows, metadata.loadId = loadId →
      (event = .publish scope metadata windows ∨ event = .replay scope metadata windows) →
      ∀ (i : Nat) (session : Session R), w.sessions[i]? = some session →
        session.active loadId = true → False := by
    intro scope metadata windows hload hevent i session hsession hactive
    have hall : w.sessions.all (fun session => !session.active loadId) = true := by
      obtain rfl | rfl := hevent
      · exact (hok hload).1
      · exact (hok hload).1
    have hinactive := List.all_eq_true.1 hall session (List.mem_of_getElem? hsession)
    rw [hactive] at hinactive
    cases hinactive
  intro i j session' other' hi hj hactive hactive'
  obtain ⟨session, hsession, hbefore⟩ | ⟨rfl, scope, metadata, windows, hload, hevent⟩ :=
    act_active hi hactive
  · obtain ⟨other, hother, hbefore'⟩ | ⟨-, scope, metadata, windows, hload, hevent⟩ :=
      act_active hj hactive'
    · exact h i j session other hsession hother hbefore hbefore'
    · exact absurd hbefore (hnone scope metadata windows hload hevent i session hsession)
  · obtain ⟨other, hother, hbefore'⟩ | ⟨rfl, -⟩ := act_active hj hactive'
    · exact absurd hbefore' (hnone scope metadata windows hload hevent j other hother)
    · rfl

end Alone

/-! ## Every run -/

section Run

variable {loadId : String} {units : Nat → List (String × List R)} {inOrder : Prop}
  {start : Properties} {ident : String} {w : World R} {event : Event R}

/-- What holds of the catalog, whatever the state of the attempts. -/
def CatalogSound (loadId : String) (units : Nat → List (String × List R)) (inOrder : Prop)
    (start : Properties) (tables : String → Cell (History R)) (marker : Option (Cell Marker)) :
    Prop :=
  Solid loadId units tables ∧ Backed loadId units inOrder start tables (markerValue marker)

/-- What holds of a session, whether of the load or of another. -/
structure SessionSound (loadId : String) (units : Nat → List (String × List R)) (inOrder : Prop)
    (start : Properties) (tables : String → Cell (History R)) (session : Session R) : Prop where
  tracking : session.Tracking tables
  stamp : session.StampHolds (Backed loadId units inOrder start tables)
    fun _ => Records loadId units inOrder tables
  attempt : session.metadata.loadId = loadId → Attempt loadId units inOrder tables session

def World.Sound (w : World R) (loadId : String) (units : Nat → List (String × List R))
    (inOrder : Prop) (start : Properties) : Prop :=
  w.Holds (CatalogSound loadId units inOrder start)
    (fun tables _ session => SessionSound loadId units inOrder start tables session)

/-- A receipt that answers does so by the recorded high water. -/
theorem visible_highWater {commitSeq : Nat}
    (h : w.existingReceipt ident loadId commitSeq = .ok (some ⟨loadId, commitSeq⟩)) :
    ∃ highWater, commitSeq ≤ highWater ∧
      readReceipt ident (w.marker.map fun cell => cell.value.properties) loadId =
        .ok (some highWater) := by
  unfold World.existingReceipt at h
  cases hread : readReceipt ident (w.marker.map fun cell => cell.value.properties) loadId with
  | error text =>
    rw [hread] at h
    cases h
  | ok recorded =>
    rw [hread] at h
    cases recorded with
    | none => cases h
    | some highWater =>
      refine ⟨highWater, ?_, rfl⟩
      by_contra hlt
      change Except.ok (if commitSeq ≤ highWater then some _ else none) = _ at h
      rw [if_neg hlt] at h
      cases h

/-- The high water is the sequence of a unit that is reached. -/
theorem highWater_reached (hreceipt : start.lookup (receiptKey loadId) = none)
    (hsound : w.Sound loadId units inOrder start) {highWater : Nat}
    (h : readReceipt ident (w.marker.map fun cell => cell.value.properties) loadId =
      .ok (some highWater)) :
    Reached loadId units inOrder w.tables highWater := by
  obtain ⟨-, hproperties, hcommits⟩ := hsound.1
  cases hmarker : w.marker with
  | none =>
    rw [hmarker] at h
    cases h
  | some cell =>
    rw [hmarker] at h hproperties hcommits
    change cell.value.properties = propertiesAfter start cell.value.commits at hproperties
    unfold readReceipt at h
    dsimp only [Option.map_some] at h
    cases hlookup : cell.value.properties.lookup (receiptKey loadId) with
    | none =>
      rw [hlookup] at h
      cases h
    | some value =>
      rw [hlookup] at h
      rw [hproperties] at hlookup
      obtain ⟨before, action, after, hsplit, hload, -, rfl⟩ := last_stamp hreceipt _ hlookup
      cases h
      apply hcommits action _ hload
      change action ∈ cell.value.commits
      rw [hsplit]
      exact List.mem_append_right _ List.mem_cons_self

theorem Attempt.begin (hreceipt : start.lookup (receiptKey loadId) = none)
    (hsound : w.Sound loadId units inOrder start) {scope : String} {metadata : CommitMeta}
    {windows : List (Window R)} (hload : metadata.loadId = loadId)
    (hredelivers : w.redelivers loadId units metadata windows)
    (hearlier : inOrder → w.earlierReceipts ident loadId units metadata) :
    Attempt loadId units inOrder w.tables ⟨scope, metadata, windows, .converging windows⟩ where
  load := hload
  nodup := (hredelivers hload).2.1
  rows := (hredelivers hload).2.2
  earlier := by
    intro hinorder earlier hlt
    obtain hnone | hvisible := hearlier hinorder hload earlier hlt
    · intro window hwindow
      rw [hnone] at hwindow
      cases hwindow
    · obtain ⟨highWater, hle, hread⟩ := visible_highWater hvisible
      obtain ⟨hcomplete, hbefore⟩ := highWater_reached hreceipt hsound hread
      obtain rfl | hlt' := Nat.eq_or_lt_of_le hle
      · exact hcomplete
      · exact hbefore hinorder earlier hlt'
  progress := ⟨[], rfl, nofun⟩

/-- The action an attempt plans records the unit it has completed, or one recorded before. -/
theorem Attempt.records {tables : String → Cell (History R)} {session : Session R}
    {nowMs attempt : Nat} {seen : Cell Marker} (hreceipt : start.lookup (receiptKey loadId) = none)
    (hattempt : session.metadata.loadId = loadId → Attempt loadId units inOrder tables session)
    (hstage : session.stage = .stamping (.loaded attempt seen))
    (hseen : Backed loadId units inOrder start tables seen.value) :
    Records loadId units inOrder tables
      ((session.propertyCommit nowMs).action seen.value.properties) := by
  intro hload
  have hunit : session.metadata.loadId = loadId := hload
  have hmine := hattempt hunit
  have hdone := hmine.progress
  unfold Progress at hdone
  rw [hstage] at hdone
  have hreached : Reached loadId units inOrder tables session.metadata.commitSeq :=
    ⟨fun window hwindow => hdone window (hmine.rows ▸ hwindow), hmine.earlier⟩
  obtain ⟨hproperties, hcommits⟩ := hseen
  change Reached loadId units inOrder tables
    ((session.propertyCommit nowMs).delta seen.value.properties).1.commitSeq
  cases hlookup : seen.value.properties.lookup (receiptKey loadId) with
  | none =>
    rw [← hunit] at hlookup
    rw [delta_first hlookup]
    exact hreached
  | some value =>
    have hearlier := hlookup
    rw [hproperties] at hearlier
    obtain ⟨before, action, after, hsplit, hactionLoad, -, rfl⟩ := last_stamp hreceipt _ hearlier
    have hmem : action ∈ seen.value.commits := by
      rw [hsplit]
      exact List.mem_append_right _ List.mem_cons_self
    rw [← hunit] at hlookup
    have hmerged : ((session.propertyCommit nowMs).delta seen.value.properties).1.commitSeq =
        max action.recorded.commitSeq session.metadata.commitSeq := delta_commitSeq hlookup
    rw [hmerged]
    obtain hle | hle := Nat.le_total action.recorded.commitSeq session.metadata.commitSeq
    · rw [Nat.max_eq_right hle]
      exact hreached
    · rw [Nat.max_eq_left hle]
      exact hcommits action hmem hactionLoad

/-- An action that records a unit that is reached, on whatever marker it goes onto. -/
theorem Backed.stamped {tables : String → Cell (History R)} {marker : Marker}
    {action : PropertyAction} (h : Backed loadId units inOrder start tables marker)
    (haction : Records loadId units inOrder tables action) :
    Backed loadId units inOrder start tables (marker.stamped action) := by
  refine ⟨?_, fun c hc hload => ?_⟩
  · change action.apply marker.properties = propertiesAfter start (marker.commits ++ [action])
    rw [propertiesAfter_snoc, ← h.1]
  · obtain hc | hc := List.mem_append.1 hc
    · exact h.2 c hc hload
    · obtain rfl := List.mem_singleton.1 hc
      exact haction hload

/-- What was recorded stays reached. -/
theorem stampHolds_grows {tables tables' : String → Cell (History R)} {session : Session R}
    (h : session.StampHolds (Backed loadId units inOrder start tables)
      fun _ => Records loadId units inOrder tables) (hgrows : Grows loadId tables tables') :
    session.StampHolds (Backed loadId units inOrder start tables')
      fun _ => Records loadId units inOrder tables' :=
  fun phase hstage => (h phase hstage).imp (fun _ hbacked => hbacked.grows hgrows)
    fun _ _ hrecords hload => (hrecords hload).grows hgrows

/-- Another session through the step of one: its own windows do not change, or it is over. -/
theorem SessionSound.other {nowMs : Nat} {session other : Session R}
    {tables tables' : String → Cell (History R)} {marker marker' : Option (Cell Marker)}
    {stage : Stage R} (hother : SessionSound loadId units inOrder start tables other)
    (hsession : SessionSound loadId units inOrder start tables session)
    (h : session.Steps nowMs tables marker tables' marker' stage)
    (hgrows : Grows loadId tables tables')
    (halone : session.active loadId = true → other.active loadId = false) :
    SessionSound loadId units inOrder start tables' other where
  tracking := hother.tracking.changes h.changes
  stamp := stampHolds_grows hother.stamp hgrows
  attempt := by
    intro hload
    obtain ⟨-, hnodup, hrows, hearlier, hprogress⟩ := hother.attempt hload
    refine ⟨hload, hnodup, hrows,
      fun hinorder earlier hlt => (hearlier hinorder earlier hlt).grows hgrows, ?_⟩
    by_cases hactive : session.active loadId = true
    · have hover : other.stage.over = true := by
        have hinactive := halone hactive
        rw [Session.active, hload, beq_self_eq_true, Bool.true_and] at hinactive
        simpa using hinactive
      exact hprogress.over hover hgrows
    · apply hprogress.congr
      intro table commitSeq
      by_cases hover : session.stage.over = true
      · rw [(h.over hover).1]
      · obtain heq | ⟨hload', -⟩ := h.view loadId hsession.tracking table commitSeq
        · exact heq
        · exfalso
          apply hactive
          rw [Session.active, hload', beq_self_eq_true, Bool.true_and]
          simpa using hover

theorem Sound.act (hreceipt : start.lookup (receiptKey loadId) = none)
    (hsound : w.Sound loadId units inOrder start) (halone : Alone loadId w)
    (hok : w.Sequential loadId units event) (horder : inOrder → w.InOrder ident loadId units event) :
    (w.act event).Sound loadId units inOrder start := by
  apply holds_act hsound
  · rintro scope metadata windows (rfl | rfl)
    · exact ⟨nofun, nofun, fun hload => .begin hreceipt hsound hload hok horder⟩
    · exact ⟨nofun, nofun, fun hload => .begin hreceipt hsound hload hok horder⟩
  · intro index nowMs answer session tables marker stage _ hsession hsteps
    have hmine := hsound.2 index session hsession
    obtain ⟨hsolid, hgrows⟩ := hsteps.solid hmine.tracking hsound.1.1 hmine.attempt
    obtain ⟨hbacked, hstamp⟩ := hsteps.markerHolds hsound.1.2 hmine.stamp
      (fun _ _ hstage hseen => Attempt.records hreceipt hmine.attempt hstage hseen)
      fun _ _ _ _ _ _ _ hcell _ haction => hcell.stamped haction
    refine ⟨⟨hsolid, hbacked.grows hgrows⟩, ⟨hsteps.tracking hmine.tracking,
      stampHolds_grows hstamp hgrows, ?_⟩, ?_⟩
    · intro hload
      have hattempt := hmine.attempt hload
      exact ⟨hload, hattempt.nodup, hattempt.rows,
        fun hinorder earlier hlt => (hattempt.earlier hinorder earlier hlt).grows hgrows,
        hattempt.step hmine.tracking hsound.1.1 hsteps⟩
    · intro j other hj hother
      apply (hsound.2 j other hother).other hmine hsteps hgrows
      intro hactive
      apply Bool.eq_false_iff.2
      intro hactive'
      exact hj (halone j index other session hother hsession hactive' hactive)
  · intro session hsession
    refine ⟨.crashed session, .crashed session, fun hload => ?_⟩
    obtain ⟨-, hnodup, hrows, hearlier, hprogress⟩ := hsession.attempt hload
    exact ⟨hload, hnodup, hrows, hearlier, hprogress.crashed⟩
  · intro changed snapshot hforeign
    obtain ⟨hmarker, hsessions⟩ := appendForeign_rest w changed snapshot
    have hviews : ∀ table commitSeq,
        unitSnapshots ((w.appendForeign changed snapshot).tables table).value loadId commitSeq =
          unitSnapshots (w.tables table).value loadId commitSeq := by
      intro table commitSeq
      obtain ⟨-, heq | ⟨-, hvalue⟩⟩ := appendForeign_table w changed snapshot table
      · rw [heq]
      · rw [hvalue, unitSnapshots_append, carries_foreign hforeign]
        exact List.append_nil _
    have hgrows : Grows loadId w.tables (w.appendForeign changed snapshot).tables :=
      fun table commitSeq => .inl (hviews table commitSeq)
    refine ⟨⟨fun table commitSeq => ?_, ?_⟩, fun j session hsession => ?_⟩
    · rw [hviews]
      obtain hnone | ⟨rows, hmem, hheld⟩ := hsound.1.1 table commitSeq
      · exact .inl hnone
      · exact .inr ⟨rows, hmem, hheld.grows hgrows⟩
    · rw [hmarker]
      exact hsound.1.2.grows hgrows
    · obtain ⟨htracking, hstamp, hattempt⟩ := hsound.2 j session (hsessions ▸ hsession)
      refine ⟨htracking.changes fun table => (appendForeign_table w changed snapshot table).1,
        stampHolds_grows hstamp hgrows, fun hload => ?_⟩
      obtain ⟨-, hnodup, hrows, hearlier, hprogress⟩ := hattempt hload
      exact ⟨hload, hnodup, hrows,
        fun hinorder earlier hlt => (hearlier hinorder earlier hlt).grows hgrows,
        hprogress.congr hviews⟩

/-- A receipt is as the load's last commit wrote it, which wrote a document with it; the document
is there as long as its scope has not committed again. -/
def ReceiptWithDocument (loadId : String) (start : Properties) (marker : Marker) : Prop :=
  ∃ before c after, marker.commits = before ++ c :: after ∧ c.stamp.loadId = loadId ∧
    (∀ d ∈ after, d.stamp.loadId ≠ loadId) ∧
    (c.apply (propertiesAfter start before)).lookup (receiptKey loadId) =
      marker.properties.lookup (receiptKey loadId) ∧
    (c.apply (propertiesAfter start before)).lookup (stateKey c.scope) = some (.text c.stateJson) ∧
    ((∀ d ∈ after, d.scope ≠ c.scope) →
      readStateDoc (some marker.properties) c.scope = some (.text c.stateJson))

/-- What a load's attempts leave in the tables and in the marker. -/
structure ExactlyOnce (ident loadId : String) (units : Nat → List (String × List R))
    (start : Properties) (w : World R) : Prop where
  /-- no table has a window of a unit twice, or any other rows for it -/
  solid : Solid loadId units w.tables
  returned : ∀ session ∈ w.sessions, session.metadata.loadId = loadId →
    session.stage = .returned → Complete loadId units w.tables session.metadata.commitSeq
  receipt : ∀ highWater,
    readReceipt ident (w.marker.map fun cell => cell.value.properties) loadId =
      .ok (some highWater) →
    Complete loadId units w.tables highWater ∧
      ReceiptWithDocument loadId start (markerValue w.marker)

theorem receiptWithDocument {marker : Marker} {value : Property}
    (hreceipt : start.lookup (receiptKey loadId) = none)
    (hproperties : marker.properties = propertiesAfter start marker.commits)
    (hlookup : marker.properties.lookup (receiptKey loadId) = some value) :
    ReceiptWithDocument loadId start marker := by
  rw [hproperties] at hlookup
  obtain ⟨before, c, after, hsplit, hload, hlast, rfl⟩ := last_stamp hreceipt _ hlookup
  refine ⟨before, c, after, hsplit, hload, hlast, ?_, c.apply_document, fun hscope => ?_⟩
  · rw [hproperties, hlookup, ← hload]
    exact c.apply_receipt
  · change marker.properties.lookup (stateKey c.scope) = _
    rw [hproperties, hsplit, propertiesAfter_append]
    exact document_stays c.apply_document after hscope

theorem Sound.exactlyOnce (hreceipt : start.lookup (receiptKey loadId) = none)
    (hsound : w.Sound loadId units inOrder start) : ExactlyOnce ident loadId units start w where
  solid := hsound.1.1
  returned := by
    intro session hsession hload hreturned window hwindow
    obtain ⟨j, hj⟩ := List.mem_iff_getElem?.1 hsession
    have hattempt := (hsound.2 j session hj).attempt hload
    have hprogress := hattempt.progress
    unfold Progress at hprogress
    rw [hreturned] at hprogress
    exact hprogress window (hattempt.rows ▸ hwindow)
  receipt := by
    intro highWater hread
    refine ⟨(highWater_reached hreceipt hsound hread).1, ?_⟩
    cases hmarker : w.marker with
    | none =>
      rw [hmarker] at hread
      cases hread
    | some cell =>
      have hproperties := hsound.1.2.1
      rw [hmarker] at hread hproperties
      unfold readReceipt at hread
      dsimp only [Option.map_some] at hread
      cases hlookup : cell.value.properties.lookup (receiptKey loadId) with
      | none =>
        rw [hlookup] at hread
        cases hread
      | some value => exact receiptWithDocument hreceipt hproperties hlookup

/-- An invariant of attempts that may or may not begin in order. -/
theorem sound_run (ident : String) (inOrder : Prop) (hsessions : w.sessions = [])
    (htables : ∀ table commitSeq, unitSnapshots (w.tables table).value loadId commitSeq = [])
    (hmarker : markerValue w.marker = ⟨start, []⟩)
    (hreceipt : start.lookup (receiptKey loadId) = none) {events : List (Event R)}
    (h : Meets World.act (fun w event => w.Sequential loadId units event) w events)
    (horder : inOrder →
      Meets World.act (fun w event => w.InOrder ident loadId units event) w events) :
    (run World.act w events).Sound loadId units inOrder start := by
  have hnone : ∀ (j : Nat) (session : Session R), w.sessions[j]? ≠ some session := by
    intro j session
    rw [hsessions]
    exact nofun
  have hstart : w.Sound loadId units inOrder start :=
    ⟨⟨fun table commitSeq => .inl (htables table commitSeq), by rw [hmarker]; exact ⟨rfl, nofun⟩⟩,
      fun j session hsession => absurd hsession (hnone j session)⟩
  have halone : Alone loadId w := fun i _ session _ hsession => absurd hsession (hnone i session)
  have hboth : Meets World.act (fun w event => w.Sequential loadId units event ∧
      (inOrder → w.InOrder ident loadId units event)) w events := by
    by_cases hinorder : inOrder
    · exact meets_and h (meets_of_invariant (I := fun _ => True) (fun _ _ _ _ => trivial)
        (fun _ _ _ hok _ => hok) trivial (horder hinorder))
    · exact meets_of_invariant (I := fun _ => True) (fun _ _ _ _ => trivial)
        (fun _ _ _ hok => ⟨hok, fun hin => absurd hin hinorder⟩) trivial h
  exact (run_invariant (I := fun w => w.Sound loadId units inOrder start ∧ Alone loadId w)
    (fun w event hw hok => ⟨Sound.act hreceipt hw.1 hw.2 hok.1 hok.2, hw.2.act hok.1⟩)
    ⟨hstart, halone⟩ hboth).1

/-- In a run with one attempt at a time at the units of a load, a table has a window of a unit at
most once, and once an attempt at the unit has returned exactly once; the receipt is written with a
document, after all the windows of the unit it records. Where the units begin in order it answers
for no unit with a window missing. -/
theorem units_exactly_once (ident loadId : String) (units : Nat → List (String × List R))
    (start : Properties) (w : World R) (hsessions : w.sessions = [])
    (htables : ∀ table commitSeq, unitSnapshots (w.tables table).value loadId commitSeq = [])
    (hmarker : markerValue w.marker = ⟨start, []⟩)
    (hreceipt : start.lookup (receiptKey loadId) = none) (events : List (Event R))
    (h : Meets World.act (fun w event => w.Sequential loadId units event) w events) :
    ExactlyOnce ident loadId units start (run World.act w events) ∧
      (Meets World.act (fun w event => w.InOrder ident loadId units event) w events →
        ∀ commitSeq, (run World.act w events).existingReceipt ident loadId commitSeq =
            .ok (some ⟨loadId, commitSeq⟩) →
          Complete loadId units (run World.act w events).tables commitSeq) := by
  refine ⟨Sound.exactlyOnce hreceipt
    (sound_run ident False hsessions htables hmarker hreceipt h False.elim), ?_⟩
  intro horder commitSeq hvisible
  have hsound := sound_run ident True hsessions htables hmarker hreceipt h fun _ => horder
  obtain ⟨highWater, hle, hread⟩ := visible_highWater hvisible
  obtain ⟨hcomplete, hearlier⟩ := highWater_reached hreceipt hsound hread
  obtain rfl | hlt := Nat.eq_or_lt_of_le hle
  · exact hcomplete
  · exact hearlier trivial commitSeq hlt

end Run

/-! ## A crash between two tables, and a unit out of order -/

/-- Two windows in the first unit, one in the second. -/
def twoUnitRows : Nat → List (String × List Nat)
  | 1 => [("t", [7]), ("u", [8])]
  | 2 => [("t", [9])]
  | _ => []

/-- The first attempt crashes between its two tables, and another scope's finishes the unit. -/
def crashedBetween : List (Event Nat) :=
  .publish "a" ⟨"load", 1, "s1"⟩ [("t", [[7]]), ("u", [[8]])] ::
    List.replicate 4 (.step 0 5 ⟨true, .ok⟩) ++ .crash 0 ::
    .publish "b" ⟨"load", 1, "s1"⟩ [("t", [[7]]), ("u", [[8]])] ::
    List.replicate 11 (.step 1 6 ⟨true, .ok⟩)

theorem crashed_between_is_finished_once :
    ExactlyOnce "ns._rdlt_state" "load" twoUnitRows ∅ (run World.act World.empty crashedBetween) ∧
      (Meets World.act (fun w event => w.InOrder "ns._rdlt_state" "load" twoUnitRows event)
          World.empty crashedBetween →
        ∀ commitSeq, (run World.act World.empty crashedBetween).existingReceipt "ns._rdlt_state"
            "load" commitSeq = .ok (some ⟨"load", commitSeq⟩) →
          Complete "load" twoUnitRows (run World.act World.empty crashedBetween).tables commitSeq) :=
  units_exactly_once "ns._rdlt_state" "load" twoUnitRows ∅ World.empty rfl (fun _ _ => rfl) rfl rfl
    crashedBetween (by decide)

def secondFirst : List (Event Nat) :=
  .publish "p" ⟨"load", 2, "s2"⟩ [("t", [[9]])] :: List.replicate 10 (.step 0 5 ⟨true, .ok⟩)

/-- The second unit's receipt answers for the first, of which no table has a window. -/
theorem later_receipt_answers_for_earlier :
    ¬ ∀ events : List (Event Nat),
      Meets World.act (fun w event => w.Sequential "load" twoUnitRows event) World.empty events →
      ∀ commitSeq, (run World.act World.empty events).existingReceipt "ns._rdlt_state" "load"
          commitSeq = .ok (some ⟨"load", commitSeq⟩) →
        Complete "load" twoUnitRows (run World.act World.empty events).tables commitSeq := by
  intro h
  have hvisible : (run World.act World.empty secondFirst).existingReceipt "ns._rdlt_state" "load"
      1 = .ok (some ⟨"load", 1⟩) := by decide
  have hcomplete := h secondFirst (by decide) 1 hvisible
  obtain ⟨snapshot, hsnapshot, -⟩ := hcomplete ("t", [7]) (by decide)
  have hnone : unitSnapshots ((run World.act World.empty secondFirst).tables "t").value "load" 1 =
      [] := by decide
  rw [hnone] at hsnapshot
  cases hsnapshot

end Iceberg
