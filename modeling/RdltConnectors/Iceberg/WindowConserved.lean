import RdltConnectors.Iceberg.WriteWindow

/-!
# The rows of a window

Between two publishes the rows written to a table are in the files that are parked for it and in
its open writer, whichever way its writers were retired. A publish appends these files and no
others, and leaves a history alone that has the unit already.
-/
namespace IcebergWrite

open Iceberg (Appending History Identity Snapshot appendClient appendPlan commitAttempts
  loadCommitted stateTable alreadyCommitted_iff loadCommitted_iff carries_summaryProps
  appendPlan_commit appendPlan_settled)
open Optimistic (Answer Cell Changes Seen)
open Entries Fallible

variable {I T C R : Type}

/-! ## The commit of one table -/

/-- Snapshots of which none is the unit's. -/
def Others (identity : Identity) (snapshots : List (Snapshot R)) : Prop :=
  ∀ snapshot ∈ snapshots, snapshot.carries identity.loadId identity.commitSeq = false

/-- One snapshot of the unit was appended, with these files. -/
def Appends (identity : Identity) (files : List (List R)) (history history' : History R) : Prop :=
  ∃ before behind, Others identity before ∧ Others identity behind ∧
    history' = history ++ before ++ [⟨identity.summaryProps, files⟩] ++ behind

variable {identity : Identity} {files : List (List R)} {history : History R}
  {snapshots more : List (Snapshot R)} {cell cell' : Cell (History R)} {around : Load.Around I R}

theorem others_append (h : Others identity snapshots) (hmore : Others identity more) :
    Others identity (snapshots ++ more) := by
  intro snapshot hmem
  obtain hleft | hright := List.mem_append.1 hmem
  · exact h snapshot hleft
  · exact hmore snapshot hright

theorem loadCommitted_others (h : Others identity snapshots) :
    loadCommitted (history ++ snapshots) identity.loadId identity.commitSeq =
      loadCommitted history identity.loadId identity.commitSeq := by
  have hnone : loadCommitted snapshots identity.loadId identity.commitSeq = false :=
    List.any_eq_false.2 fun snapshot hmem => by simp [h snapshot hmem]
  rw [loadCommitted, List.any_append]
  exact (congrArg _ hnone).trans (Bool.or_false _)

theorem outside_value (identity : Identity) (snapshots : List (Snapshot R))
    (cell : Cell (History R)) :
    ∃ more, Others identity more ∧ (Load.outside identity snapshots cell).value = cell.value ++ more ∧
      Changes cell (Load.outside identity snapshots cell) := by
  have hothers : Others identity (snapshots.filter fun snapshot =>
      !snapshot.carries identity.loadId identity.commitSeq) := by
    intro snapshot hmem
    simpa using (List.mem_filter.1 hmem).2
  rw [Load.outside]
  split
  · exact ⟨[], fun _ hmem => absurd hmem List.not_mem_nil, (List.append_nil _).symm, .inl rfl⟩
  · exact ⟨_, hothers, rfl, .inr rfl⟩

theorem appends_others {history' : History R} (h : Appends identity files history history')
    (hmore : Others identity more) : Appends identity files history (history' ++ more) := by
  obtain ⟨before, behind, hbefore, hbehind, rfl⟩ := h
  exact ⟨before, behind ++ more, hbefore, others_append hbehind hmore, by simp⟩

/-- The commit is not done, and what it is planned on does not have the unit. -/
def Unseen (identity : Identity) : Appending R → Prop
  | .loaded _ seen => loadCommitted seen.value identity.loadId identity.commitSeq = false
  | .done _ => False
  | _ => True

/-- A commit is under way and none of its snapshots is there, or its one is and it is over. -/
def Committing (identity : Identity) (files : List (List R)) (history : History R)
    (cell : Cell (History R)) (phase : Appending R) : Prop :=
  appendClient.Tracks (fun _ : Unit => appendPlan identity files) cell phase ∧
    ((∃ more, Others identity more ∧ cell.value = history ++ more) ∧ Unseen identity phase ∨
      Appends identity files history cell.value ∧ phase.over = true)

theorem committing_others {phase : Appending R}
    (h : Committing identity files history cell phase) (snapshots : List (Snapshot R)) :
    Committing identity files history (Load.outside identity snapshots cell) phase := by
  obtain ⟨more, hmore, hvalue, hchanges⟩ := outside_value identity snapshots cell
  refine ⟨h.1.changes hchanges, ?_⟩
  rw [hvalue]
  obtain ⟨⟨before, hbefore, hcell⟩, hunseen⟩ | ⟨happends, hover⟩ := h.2
  · refine .inl ⟨⟨before ++ more, others_append hbefore hmore, ?_⟩, hunseen⟩
    rw [hcell, List.append_assoc]
  · exact .inr ⟨appends_others happends hmore, hover⟩

/-- Nothing of the unit is there, so a step settles on nothing and goes on. -/
theorem unseen_step {phase phase' : Appending R}
    (h : appendClient.Steps (appendPlan identity files) cell phase cell' phase')
    (hnone : loadCommitted cell.value identity.loadId identity.commitSeq = false)
    (hunseen : Unseen identity phase) : phase'.over = true ∧ cell' ≠ cell ∨ Unseen identity phase' := by
  cases h with
  | load => exact .inr hnone
  | settle hsettled =>
    have hfound := appendPlan_settled hsettled
    rw [hunseen] at hfound
    cases hfound
  | land hversion | lose hversion =>
    refine .inl ⟨rfl, fun heq => ?_⟩
    have hnew := congrArg Cell.version heq
    exact Nat.succ_ne_self _ hnew
  | rest hover => exact .inr hunseen
  | _ => exact .inr trivial

theorem committing_step {phase phase' : Appending R}
    (hfresh : loadCommitted history identity.loadId identity.commitSeq = false)
    (hstep : appendClient.Steps (appendPlan identity files) cell phase cell' phase')
    (h : Committing identity files history cell phase) :
    Committing identity files history cell' phase' := by
  refine ⟨hstep.tracks (t := ()) h.1, ?_⟩
  obtain ⟨⟨more, hmore, hcell⟩, hunseen⟩ | ⟨happends, hover⟩ := h.2
  · have hnone : loadCommitted cell.value identity.loadId identity.commitSeq = false := by
      rw [hcell]
      exact (loadCommitted_others hmore).trans hfresh
    obtain rfl | ⟨_, _, snapshot, _, next, _, rfl, hplan, hbuild, rfl, hover⟩ := hstep.lands h.1
    · obtain ⟨-, hne⟩ | hunseen' := unseen_step hstep hnone hunseen
      · exact absurd rfl hne
      · exact .inl ⟨⟨more, hmore, hcell⟩, hunseen'⟩
    · -- the commit lands on the history the library loaded
      obtain ⟨-, rfl⟩ := appendPlan_commit hplan
      obtain rfl := Except.ok.inj hbuild
      refine .inr ⟨⟨more, [], hmore, fun _ hmem => absurd hmem List.not_mem_nil, ?_⟩, hover⟩
      rw [hcell, List.append_nil]
  · obtain ⟨rfl, rfl⟩ := hstep.over hover
    exact .inr ⟨happends, hover⟩

/-- The steps of a commit are enough for it to end. -/
theorem commit_ends (identity : Identity) (files : List (List R)) (around : Load.Around I R)
    (cell : Cell (History R)) :
    appendClient.stepsLeft (appendClient.drive (appendPlan identity files)
      (Load.turnsOf identity around) Load.commitSteps (cell, .loaded 1 cell)).2 = 0 := by
  apply Optimistic.Client.drive_ends
  exact Nat.le_of_ble_eq_true rfl

theorem appendCommit_appends {library : Library I T C R} {context : String}
    (hfresh : loadCommitted cell.value identity.loadId identity.commitSeq = false)
    (h : Load.appendCommit library context identity files around cell = .ok cell') :
    Appends identity files cell.value cell'.value := by
  have hstart : Committing identity files cell.value cell (.loaded 1 cell) := by
    refine ⟨trivial, .inl ⟨⟨[], ?_, (List.append_nil _).symm⟩, hfresh⟩⟩
    exact fun _ hmem => absurd hmem List.not_mem_nil
  have hend := Optimistic.Client.drive_invariant (Load.turnsOf identity around)
    (I := Committing identity files cell.value)
    (fun n cell phase hphase => committing_others hphase _)
    (fun cell phase cell' phase' hstep hphase => committing_step hfresh hstep hphase)
    Load.commitSteps (cell, .loaded 1 cell) hstart
  unfold Load.appendCommit at h
  split at h
  · rename_i result value hdrive
    obtain rfl := Except.ok.inj h
    rw [hdrive] at hend
    obtain ⟨-, hdone⟩ | ⟨happends, -⟩ := hend.2
    · exact absurd hdone id
    · exact happends
  · cases h
  · cases h

/-- A window published: one snapshot of its files, unless the unit is there or there are none. -/
def Published (identity : Identity) (files : List (List R)) (history history' : History R) : Prop :=
  ∃ before behind, Others identity before ∧ Others identity behind ∧
    history' = history ++ before ++
      (if loadCommitted history identity.loadId identity.commitSeq ∨ files = [] then []
        else [⟨identity.summaryProps, files⟩]) ++ behind

variable {library : Library I T C R} {context : String}

theorem published_nothing (identity : Identity) (history : History R) :
    Published identity [] history history :=
  ⟨[], [], fun _ hmem => absurd hmem List.not_mem_nil, fun _ hmem => absurd hmem List.not_mem_nil,
    by simp⟩

theorem commitWindow_published (hfiles : files ≠ [])
    (h : Load.commitWindow library context identity files around cell = .ok cell') :
    Published identity files cell.value cell'.value := by
  rw [Load.commitWindow] at h
  obtain ⟨⟨⟩, -, h⟩ := bind_ok.1 h
  obtain ⟨more, hmore, hvalue, -⟩ := outside_value identity around.before cell
  have hsame : loadCommitted (Load.outside identity around.before cell).value identity.loadId
      identity.commitSeq = loadCommitted cell.value identity.loadId identity.commitSeq := by
    rw [hvalue]
    exact loadCommitted_others hmore
  dsimp only at h
  split at h
  · rename_i hdone
    obtain rfl := Except.ok.inj h
    refine ⟨more, [], hmore, fun _ hmem => absurd hmem List.not_mem_nil, ?_⟩
    rw [if_pos (.inl (hsame ▸ hdone)), hvalue, List.append_nil, List.append_nil]
  · rename_i hnot
    rw [Bool.not_eq_true] at hnot
    obtain ⟨before, behind, hbefore, hbehind, hcell⟩ := appendCommit_appends hnot h
    refine ⟨more ++ before, behind, others_append hmore hbefore, hbehind, ?_⟩
    rw [if_neg, hcell, hvalue]
    · simp only [List.append_assoc]
    · rw [← hsame, hnot]
      simp [hfiles]

/-! ## One table -/

namespace TableState

/-- The rows that wait for the publish. -/
def held (library : Library I T C R) (state : TableState I T C R) : List R :=
  state.pendingFiles.flatten ++
    (state.writer.map fun writer => writer.written.flatMap library.rows).getD []

/-- The files of a window: the parked ones and those its writer closes into. -/
def Window (library : Library I T C R) (state : TableState I T C R) (files : List (List R)) : Prop :=
  match state.writer with
  | none => files = state.pendingFiles
  | some writer => ∃ closed, library.close writer = .ok closed ∧ files = state.pendingFiles ++ closed

end TableState

section Tables

variable {state state' : TableState I T C R} {target : ArrowSchema T} {table : I}
  {writer : Writer I T C} {closed : List (List R)}

/-- The files that a writer closes into hold what it was handed. -/
def Library.Closes (library : Library I T C R) : Prop :=
  ∀ writer files, library.close writer = .ok files →
    files.flatten.Perm (writer.written.flatMap library.rows)

theorem arrowTarget_ok (h : arrowTarget library context table = .ok target) :
    library.schemaToArrowSchema table = .ok target := mapError_ok.1 h

/-- A writer retired: its files are parked behind the others. -/
theorem held_retired (hcloses : library.Closes) (hwriter : state.writer = some writer)
    (hclosed : library.close writer = .ok closed) :
    (state.pendingFiles ++ closed).flatten.Perm (state.held library) := by
  rw [TableState.held, hwriter, List.flatten_append]
  exact (hcloses writer closed hclosed).append_left _

variable [DecidableEq T]

/-- A column taken over from a batch by its name, cast, or filled with NULLs. -/
def Library.ColumnFrom (library : Library I T C R) (batch : RecordBatch T C) (field : Field T)
    (column : C) : Prop :=
  match (batch.schema.zip batch.columns).find? fun c => c.1.name = field.name with
  | some (_, source) =>
    library.dataType source = field.dataType ∧ column = source ∨
      library.cast source field.dataType = .ok column
  | none => column = library.newNullArray field.dataType batch.numRows

structure Library.Recasts (library : Library I T C R) (batch aligned : RecordBatch T C) : Prop where
  columns : List.Forall₂ (library.ColumnFrom batch) aligned.schema aligned.columns
  checked : library.checkColumns aligned.schema aligned.columns = .ok ()
  numRows : aligned.numRows = (aligned.columns.head?.map library.length).getD 0

/-- Arrow casts columns and fills them row by row. -/
def Library.Casts (library : Library I T C R) : Prop :=
  ∀ table batch aligned, library.schemaToArrowSchema table = .ok aligned.schema →
    library.Recasts batch aligned →
    library.rows aligned = (library.rows batch).map (library.shown aligned.schema)

theorem alignColumn_from {field : Field T} {column : C}
    (h : alignColumn library context batch field = .ok column) :
    library.ColumnFrom batch field column := by
  rw [alignColumn] at h
  rw [Library.ColumnFrom]
  cases hfind : (batch.schema.zip batch.columns).find? fun c => c.1.name = field.name with
  | none =>
    simp only [hfind] at h ⊢
    split at h
    · exact (Except.ok.inj h).symm
    · cases h
  | some found =>
    simp only [hfind] at h ⊢
    split at h
    · rename_i htype
      exact .inl ⟨htype, (Except.ok.inj h).symm⟩
    · exact .inr (mapError_ok.1 h)

/-- An aligned batch has the rows of the one it was made from. -/
theorem align_rows (hcasts : library.Casts)
    (htarget : library.schemaToArrowSchema table = .ok target)
    (h : align library context target batch = .ok aligned) :
    library.rows aligned = (library.rows batch).map (library.shown target) := by
  rw [align] at h
  obtain ⟨columns, hcolumns, h⟩ := bind_ok.1 h
  obtain ⟨⟨⟩, hchecked, h⟩ := bind_ok.1 h
  obtain rfl := Except.ok.inj h
  obtain ⟨columns', hcolumns', hfrom⟩ := mapM_related (R := library.ColumnFrom batch) fun field hfield =>
    (mapM_succeeds.1 ⟨columns, hcolumns⟩ field hfield).imp fun column hcolumn =>
      ⟨hcolumn, alignColumn_from hcolumn⟩
  obtain rfl := Except.ok.inj (hcolumns.symm.trans hcolumns')
  exact hcasts table batch _ htarget ⟨hfrom, mapError_ok.1 hchecked, rfl⟩

/-- What a writer was handed is aligned to the schema it was opened with. -/
def Writer.AlignedTo (library : Library I T C R) (target : ArrowSchema T)
    (writer : Writer I T C) : Prop :=
  library.schemaToArrowSchema writer.schema = .ok target ∧
    ∀ batch ∈ writer.written, ∃ context original, align library context target original = .ok batch

/-- The schemas of the table and of its writer are the one that batches are aligned to. -/
structure StateOk (library : Library I T C R) (state : TableState I T C R) : Prop where
  target : library.schemaToArrowSchema state.table = .ok state.arrowTarget
  writer : ∀ writer ∈ state.writer, writer.AlignedTo library state.arrowTarget

theorem retire_ok (hcloses : library.Closes) (hstate : StateOk library state)
    (htable : library.schemaToArrowSchema table = .ok target)
    (h : Load.retire library state target = .ok state') :
    StateOk library { state' with table := table, arrowTarget := target } ∧
      (state'.held library).Perm (state.held library) ∧ state'.windowSeq = state.windowSeq := by
  rw [Load.retire] at h
  split at h
  · rename_i hnone
    obtain rfl := Except.ok.inj h
    refine ⟨⟨htable, fun writer hwriter => ?_⟩, .refl _, rfl⟩
    rw [hnone] at hwriter
    cases hwriter
  · rename_i writer hwriter
    split at h
    · rename_i hsame
      subst hsame
      obtain rfl := Except.ok.inj h
      exact ⟨⟨htable, hstate.writer⟩, .refl _, rfl⟩
    · obtain ⟨closed, hclosed, h⟩ := bind_ok.1 h
      obtain rfl := Except.ok.inj h
      have hheld := held_retired hcloses hwriter hclosed
      exact ⟨⟨htable, nofun⟩, by simpa [TableState.held] using hheld, rfl⟩

variable {load load' : Load I T C R} {now : Nat} {stream : String}

theorem retireOnTime_ok (hcloses : library.Closes) (hstate : StateOk library state)
    (h : load.retireOnTime library state now = .ok state') :
    StateOk library state' ∧ state'.arrowTarget = state.arrowTarget ∧
      (state'.held library).Perm (state.held library) ∧ state'.windowSeq = state.windowSeq := by
  rw [Load.retireOnTime] at h
  split at h
  · rename_i openedAt writer hopened hwriter
    split at h
    · obtain ⟨closed, hclosed, h⟩ := bind_ok.1 h
      obtain rfl := Except.ok.inj h
      have hheld := held_retired hcloses hwriter hclosed
      exact ⟨⟨hstate.target, nofun⟩, rfl, by simpa [TableState.held] using hheld, rfl⟩
    · obtain rfl := Except.ok.inj h
      exact ⟨hstate, rfl, .refl _, rfl⟩
  · obtain rfl := Except.ok.inj h
    exact ⟨hstate, rfl, .refl _, rfl⟩

/-- The next of a stream's prefixes. -/
def nextOpened (load : Load I T C R) (stream : String) (state : TableState I T C R) :
    String × String × String :=
  (load.tableName stream, s!"{load.loadId}-{state.windowSeq + 1}", load.nonce)

/-- The writer of a window is the one that is open, or one on the next prefix. -/
theorem ensureWriter_ok (hstate : StateOk library state)
    (h : load.ensureWriter library stream state now = .ok (load', state', writer)) :
    writer.AlignedTo library state'.arrowTarget ∧
      state'.table = state.table ∧ state'.arrowTarget = state.arrowTarget ∧
      state'.pendingFiles = state.pendingFiles ∧
      state.held library = state.pendingFiles.flatten ++ writer.written.flatMap library.rows ∧
      (state'.windowSeq = state.windowSeq ∧ load' = load ∨
        state'.windowSeq = state.windowSeq + 1 ∧
          load' = { load with opened := load.opened ++ [nextOpened load stream state] }) := by
  rw [Load.ensureWriter] at h
  split at h
  · rename_i writer' hwriter
    obtain ⟨rfl, rfl, rfl⟩ : load = load' ∧ state = state' ∧ writer' = writer := by
      simpa using Except.ok.inj h
    refine ⟨hstate.writer writer' hwriter, rfl, rfl, rfl, ?_, .inl ⟨rfl, rfl⟩⟩
    rw [TableState.held, hwriter]
    rfl
  · rename_i hnone
    obtain ⟨⟨⟩, -, h⟩ := bind_ok.1 h
    obtain ⟨rfl, hrest⟩ := Prod.mk.inj (Except.ok.inj h)
    obtain ⟨rfl, rfl⟩ := Prod.mk.inj hrest
    refine ⟨⟨hstate.target, nofun⟩, rfl, rfl, rfl, ?_, .inr ⟨rfl, rfl⟩⟩
    rw [TableState.held, hnone]
    rfl

/-! ## Sessions -/

namespace Load

def held (library : Library I T C R) (load : Load I T C R) (stream : String) : List R :=
  ((find stream load.tables).map (TableState.held library)).getD []

/-- The rows of a batch, as its table shows them. -/
def shownRows (library : Library I T C R) (load : Load I T C R) (stream : String)
    (batch : RecordBatch T C) : List R :=
  match find stream load.tables with
  | none => []
  | some state => (library.rows batch).map (library.shown state.arrowTarget)

/-- The rows written to each table since its last publish. -/
def writtenBy (library : Library I T C R) (load : Load I T C R) (rows : String → List R) :
    Event I T C R → String → List R
  | .ensure _ _ _ => rows
  | .write stream batch _ => fun other =>
    rows other ++ if other = stream then load.shownRows library stream batch else []
  | .publish _ _ _ _ => fun _ => []

/-- A session with the rows that were written in it. -/
def track (library : Library I T C R) (tracked : Load I T C R × (String → List R))
    (event : Event I T C R) : Except String (Load I T C R × (String → List R)) :=
  (tracked.1.step library event).map fun load =>
    (load, tracked.1.writtenBy library tracked.2 event)

end Load

/-- A session between two calls. -/
structure Sound (library : Library I T C R) (load : Load I T C R) (rows : String → List R) :
    Prop where
  ascending : Ascending load.tables
  states : ∀ stream state, find stream load.tables = some state → StateOk library state
  conserved : ∀ stream, (load.held library stream).Perm (rows stream)
  named : ∀ stream other, find stream load.tables ≠ none → find other load.tables ≠ none →
    load.tableName stream = load.tableName other → stream = other
  opened : ∀ entry ∈ load.opened, ∃ stream state seq, find stream load.tables = some state ∧
    entry = (load.tableName stream, s!"{load.loadId}-{seq}", load.nonce) ∧ seq ≤ state.windowSeq
  once : load.opened.Nodup

variable {rows rows' : String → List R}

omit [DecidableEq T] in
theorem install_find (load : Load I T C R) (stream : String) (state : TableState I T C R) :
    find stream (load.install stream state).tables = some state := find_place_self _ _ _

omit [DecidableEq T] in
theorem install_find_ne (load : Load I T C R) {other : String} (h : other ≠ stream)
    (state : TableState I T C R) :
    find other (load.install stream state).tables = find other load.tables :=
  (find_place_ne h _ _).trans (find_remove_ne h _)

omit [DecidableEq T] in
theorem prefix_inj {loadId : String} {seq other : Nat}
    (h : (s!"{loadId}-{seq}" : String) = s!"{loadId}-{other}") : seq = other := by
  have hchars := congrArg String.toList h
  simp only [toString, String.toList_append, List.append_cancel_left_eq] at hchars
  exact Digits.toString_injective (String.toList_inj.1 hchars)

/-- The next prefix of a stream has not been opened. -/
theorem nextOpened_fresh (h : Sound library load rows)
    (hfind : find stream load.tables = some state) : nextOpened load stream state ∉ load.opened := by
  intro hmem
  obtain ⟨other, state', seq, hother, heq, hle⟩ := h.opened _ hmem
  obtain ⟨hname, hrest⟩ := Prod.mk.inj heq
  obtain rfl := h.named stream other (by simp [hfind]) (by simp [hother]) hname
  obtain rfl : state = state' := Option.some.inj (hfind.symm.trans hother)
  have hseq := prefix_inj (Prod.mk.inj hrest).1
  omega

/-- A state of one stream is put in the place of the one before. -/
theorem install_sound (h : Sound library load rows) (hok : StateOk library state)
    (hname : ∀ other, find other load.tables ≠ none →
      load.tableName other = load.tableName stream → other = stream)
    (hheld : (state.held library).Perm (rows' stream))
    (hothers : ∀ other, other ≠ stream → rows' other = rows other)
    (hseq : ∀ before, find stream load.tables = some before → before.windowSeq ≤ state.windowSeq) :
    Sound library (load.install stream state) rows' where
  ascending := ascending_place _ _ (h.ascending.filter _)
  states other found hfound := by
    by_cases hother : other = stream
    · subst hother
      rw [install_find] at hfound
      obtain rfl := Option.some.inj hfound
      exact hok
    · rw [install_find_ne _ hother] at hfound
      exact h.states other found hfound
  conserved other := by
    by_cases hother : other = stream
    · subst hother
      rw [Load.held, install_find]
      exact hheld
    · rw [Load.held, install_find_ne _ hother, hothers other hother]
      exact h.conserved other
  named one other hone hother heq := by
    by_cases hsame : one = stream
    · subst hsame
      by_cases hsame' : other = one
      · exact hsame'.symm
      · rw [install_find_ne _ hsame'] at hother
        exact (hname other hother heq.symm).symm
    · rw [install_find_ne _ hsame] at hone
      by_cases hsame' : other = stream
      · subst hsame'
        exact hname one hone heq
      · rw [install_find_ne _ hsame'] at hother
        exact h.named one other hone hother heq
  opened entry hentry := by
    obtain ⟨other, before, seq, hfind, heq, hle⟩ := h.opened entry hentry
    by_cases hother : other = stream
    · subst hother
      exact ⟨other, state, seq, install_find _ _ _, heq, le_trans hle (hseq before hfind)⟩
    · exact ⟨other, before, seq, (install_find_ne _ hother _).trans hfind, heq, hle⟩
  once := h.once

/-- A prefix is opened that was not opened before. -/
theorem opened_sound (h : Sound library load rows) (hfind : find stream load.tables = some state)
    {seq : Nat} (hle : seq ≤ state.windowSeq)
    (hnot : (load.tableName stream, s!"{load.loadId}-{seq}", load.nonce) ∉ load.opened) :
    Sound library { load with opened :=
      load.opened ++ [(load.tableName stream, s!"{load.loadId}-{seq}", load.nonce)] } rows where
  ascending := h.ascending
  states := h.states
  conserved := h.conserved
  named := h.named
  opened entry hentry := by
    obtain hold | hnew := List.mem_append.1 hentry
    · exact h.opened entry hold
    · exact ⟨stream, state, seq, hfind, List.mem_singleton.1 hnew, hle⟩
  once := by
    refine List.nodup_append.2 ⟨h.once, List.nodup_singleton _, ?_⟩
    intro entry hentry new hnew heq
    exact hnot (List.mem_singleton.1 hnew ▸ heq ▸ hentry)

variable {mode : WriteMode} {found : Except String I} {batch : RecordBatch T C} {clock : Nat × Nat}

omit [DecidableEq T] in
theorem held_of_find (hfind : find stream load.tables = some state) :
    load.held library stream = state.held library := by
  rw [Load.held, hfind]
  rfl

theorem ensureTable_sound (hcloses : library.Closes) (h : Sound library load rows)
    (hensure : load.ensureTable library stream mode found = .ok load') :
    Sound library load' rows := by
  rw [Load.ensureTable] at hensure
  obtain ⟨⟨⟩, -, hensure⟩ := bind_ok.1 hensure
  dsimp only at hensure
  split at hensure
  · cases hensure
  split at hensure
  · cases hensure
  rename_i hshared
  obtain ⟨table, -, hensure⟩ := bind_ok.1 hensure
  obtain ⟨target, htarget, hensure⟩ := bind_ok.1 hensure
  obtain ⟨state, hcarried, rfl⟩ := map_ok.1 hensure
  have htable := arrowTarget_ok htarget
  have hname (other : String) (hother : find other load.tables ≠ none)
      (heq : load.tableName other = load.tableName stream) : other = stream := by
    by_contra hne
    refine hother (find_eq_none_iff.2 fun entry hentry hkey => ?_)
    have hnot := List.find?_eq_none.1 hshared entry hentry
    rw [hkey] at hnot
    exact hnot (decide_eq_true ⟨hne, heq⟩)
  rw [Load.carried] at hcarried
  split at hcarried
  · rename_i before hfind
    obtain ⟨kept, hkept, rfl⟩ := map_ok.1 hcarried
    obtain ⟨hok, hheld, hseq⟩ := retire_ok hcloses (h.states stream before hfind) htable hkept
    refine install_sound h hok hname ?_ (fun _ _ => rfl) ?_
    · have hconserved := h.conserved stream
      rw [held_of_find hfind] at hconserved
      exact hheld.trans hconserved
    · intro other hother
      obtain rfl := Option.some.inj (hfind.symm.trans hother)
      exact hseq.ge
  · rename_i hnone
    obtain rfl := Except.ok.inj hcarried
    refine install_sound h ⟨htable, nofun⟩ hname ?_ (fun _ _ => rfl) ?_
    · have hconserved := h.conserved stream
      rw [Load.held, hnone] at hconserved
      exact hconserved
    · intro other hother
      rw [hnone] at hother
      cases hother

theorem write_sound (hcloses : library.Closes) (hcasts : library.Casts) (h : Sound library load rows)
    (hwrite : load.write library stream batch clock = .ok load') :
    Sound library load' (load.writtenBy library rows (.write stream batch clock)) := by
  rw [Load.write] at hwrite
  split at hwrite
  · cases hwrite
  rename_i before hfind
  obtain ⟨aligned, haligned, hwrite⟩ := bind_ok.1 hwrite
  obtain ⟨kept, hkept, hwrite⟩ := bind_ok.1 hwrite
  obtain ⟨⟨ready, state, writer⟩, hready, hwrite⟩ := bind_ok.1 hwrite
  obtain ⟨⟨⟩, -, hwrite⟩ := bind_ok.1 hwrite
  obtain rfl := Except.ok.inj hwrite
  obtain ⟨hok, htarget, hperm, hseq⟩ := retireOnTime_ok hcloses (h.states stream before hfind) hkept
  obtain ⟨hwriter, htable, hsame, hpending, hheld, hopened⟩ := ensureWriter_ok hok hready
  have hrows : load.shownRows library stream batch = library.rows aligned := by
    rw [Load.shownRows, hfind]
    exact (align_rows hcasts (h.states stream before hfind).target haligned).symm
  -- the state that is put back, with the batch behind what the writer was handed before
  have hstate : StateOk library { state with
      writer := some { writer with written := writer.written ++ [aligned] } } := by
    refine ⟨?_, fun other hother => ?_⟩
    · rw [htable, hsame]
      exact hok.target
    · obtain rfl := Option.some.inj hother
      refine ⟨hwriter.1, fun handed hhanded => ?_⟩
      obtain hold | hnew := List.mem_append.1 hhanded
      · exact hwriter.2 handed hold
      · rw [List.mem_singleton.1 hnew, hsame, htarget]
        exact ⟨_, batch, haligned⟩
  have hconserved : (TableState.held library { state with
      writer := some { writer with written := writer.written ++ [aligned] } }).Perm
      (load.writtenBy library rows (.write stream batch clock) stream) := by
    have hbefore := h.conserved stream
    rw [held_of_find hfind] at hbefore
    have hall := (hperm.trans hbefore).append_right (library.rows aligned)
    rw [hheld] at hall
    simpa [TableState.held, Load.writtenBy, hpending, hrows] using hall
  have hothers (other : String) (hne : other ≠ stream) :
      load.writtenBy library rows (.write stream batch clock) other = rows other := by
    simp [Load.writtenBy, hne]
  have hname (other : String) (hother : find other load.tables ≠ none)
      (heq : load.tableName other = load.tableName stream) : other = stream :=
    h.named other stream hother (by simp [hfind]) heq
  obtain ⟨hsame, rfl⟩ | ⟨hnext, rfl⟩ := hopened
  · refine install_sound h hstate hname hconserved hothers ?_
    intro other hother
    obtain rfl := Option.some.inj (hfind.symm.trans hother)
    exact (hsame.trans hseq).ge
  · have hinstalled := install_sound h hstate hname hconserved hothers fun other hother => by
      obtain rfl := Option.some.inj (hfind.symm.trans hother)
      exact (Nat.le_succ _).trans (hnext.trans (congrArg (· + 1) hseq)).ge
    have hfresh := nextOpened_fresh h hfind
    rw [nextOpened, ← hseq] at hfresh
    exact opened_sound hinstalled (install_find _ _ _) hnext.ge hfresh

/-! ## Publishing -/

/-- A table whose window was published. -/
structure Converged (library : Library I T C R) (identity : Identity)
    (state state' : TableState I T C R) (history history' : History R) : Prop where
  published : ∃ files, state.Window library files ∧ Published identity files history history'
  empty : state'.writer = none ∧ state'.pendingFiles = []
  windowSeq : state'.windowSeq = state.windowSeq
  target : library.schemaToArrowSchema state'.table = .ok state'.arrowTarget

omit [DecidableEq T] in
theorem closeWindow_ok (h : Load.closeWindow library state = .ok (files, state')) :
    state.Window library files ∧ state'.writer = none ∧ state'.pendingFiles = [] ∧
      state'.windowSeq = state.windowSeq ∧ state'.table = state.table ∧
      state'.arrowTarget = state.arrowTarget := by
  rw [Load.closeWindow] at h
  split at h
  · rename_i hnone
    obtain ⟨rfl, rfl⟩ := Prod.mk.inj (Except.ok.inj h)
    refine ⟨?_, hnone, rfl, rfl, rfl, rfl⟩
    rw [TableState.Window, hnone]
  · rename_i writer hwriter
    obtain ⟨closed, hclosed, h⟩ := bind_ok.1 h
    obtain ⟨rfl, rfl⟩ := Prod.mk.inj (Except.ok.inj h)
    refine ⟨?_, rfl, rfl, rfl, rfl, rfl⟩
    rw [TableState.Window, hwriter]
    exact ⟨closed, hclosed, rfl⟩

theorem convergeTable_ok (hstate : StateOk library state)
    (h : Load.convergeTable library context identity around cell state = .ok (cell', state')) :
    Converged library identity state state' cell.value cell'.value := by
  rw [Load.convergeTable] at h
  obtain ⟨⟨files, closed⟩, hclosed, h⟩ := bind_ok.1 h
  obtain ⟨hwindow, hwriter, hpending, hseq, htable, htarget⟩ := closeWindow_ok hclosed
  dsimp only at h
  split at h
  · rename_i hempty
    obtain ⟨rfl, rfl⟩ := Prod.mk.inj (Except.ok.inj h)
    obtain rfl := List.isEmpty_iff.1 hempty
    refine ⟨⟨[], hwindow, published_nothing _ _⟩, ⟨hwriter, hpending⟩, hseq, ?_⟩
    rw [htable, htarget]
    exact hstate.target
  · rename_i hfiles
    obtain ⟨committed, hcommitted, h⟩ := bind_ok.1 h
    obtain ⟨target, hnew, h⟩ := bind_ok.1 h
    obtain ⟨rfl, rfl⟩ := Prod.mk.inj (Except.ok.inj h)
    rw [List.isEmpty_iff] at hfiles
    exact ⟨⟨files, hwindow, commitWindow_published hfiles hcommitted⟩, ⟨hwriter, hpending⟩, hseq,
      arrowTarget_ok hnew⟩

variable {entries tables : List (String × TableState I T C R)}
  {catalog catalog' : String → Cell (History R)} {arounds : String → Load.Around I R}

omit [DecidableEq T] in
theorem convergeTables_cons {entry : String × TableState I T C R}
    (h : load.convergeTables library identity arounds (entry :: entries) catalog =
      .ok (tables, catalog')) :
    ∃ cell state rest, Load.convergeTable library s!"table `{load.tableName entry.1}`" identity
        (arounds entry.1) (catalog (load.tableName entry.1)) entry.2 = .ok (cell, state) ∧
      load.convergeTables library identity arounds entries
        (Function.update catalog (load.tableName entry.1) cell) = .ok (rest, catalog') ∧
      tables = (entry.1, state) :: rest := by
  obtain ⟨stream, before⟩ := entry
  rw [Load.convergeTables] at h
  obtain ⟨⟨cell, state⟩, hcell, h⟩ := bind_ok.1 h
  obtain ⟨⟨rest, catalog''⟩, hrest, h⟩ := bind_ok.1 h
  obtain ⟨rfl, rfl⟩ := Prod.mk.inj (Except.ok.inj h)
  exact ⟨cell, state, rest, hcell, hrest, rfl⟩

omit [DecidableEq T] in
/-- The keys stay, and no other table is touched. -/
theorem convergeTables_frame
    (h : load.convergeTables library identity arounds entries catalog = .ok (tables, catalog')) :
    tables.map Prod.fst = entries.map Prod.fst ∧
      ∀ name, (∀ entry ∈ entries, load.tableName entry.1 ≠ name) → catalog' name = catalog name := by
  induction entries generalizing tables catalog with
  | nil =>
    obtain ⟨rfl, rfl⟩ := Prod.mk.inj (Except.ok.inj h)
    exact ⟨rfl, fun _ _ => rfl⟩
  | cons entry entries ih =>
    obtain ⟨cell, state, rest, -, hrest, rfl⟩ := convergeTables_cons h
    obtain ⟨hkeys, hsame⟩ := ih hrest
    refine ⟨by rw [List.map_cons, List.map_cons, hkeys], fun name hname => ?_⟩
    obtain ⟨hfirst, hothers⟩ := List.forall_mem_cons.1 hname
    rw [hsame name hothers, Function.update_of_ne (Ne.symm hfirst)]

theorem convergeTables_ok (hstates : ∀ entry ∈ entries, StateOk library entry.2)
    (hnames : entries.Pairwise fun entry other =>
      load.tableName entry.1 ≠ load.tableName other.1)
    (h : load.convergeTables library identity arounds entries catalog = .ok (tables, catalog')) :
    ∀ entry ∈ tables, ∃ before, (entry.1, before) ∈ entries ∧
      Converged library identity before entry.2 (catalog (load.tableName entry.1)).value
        (catalog' (load.tableName entry.1)).value := by
  induction entries generalizing tables catalog with
  | nil =>
    obtain ⟨rfl, rfl⟩ := Prod.mk.inj (Except.ok.inj h)
    exact fun entry hentry => absurd hentry List.not_mem_nil
  | cons first entries ih =>
    obtain ⟨cell, state, rest, hcell, hrest, rfl⟩ := convergeTables_cons h
    obtain ⟨hfirst, hstates⟩ := List.forall_mem_cons.1 hstates
    obtain ⟨hnew, hnames⟩ := List.pairwise_cons.1 hnames
    refine List.forall_mem_cons.2 ⟨⟨first.2, List.mem_cons_self, ?_⟩, fun entry hentry => ?_⟩
    · have hkept := (convergeTables_frame hrest).2 (load.tableName first.1)
        fun entry hentry => (hnew entry hentry).symm
      rw [Function.update_self] at hkept
      dsimp only
      rw [hkept]
      exact convergeTable_ok hfirst hcell
    · obtain ⟨before, hbefore, hconverged⟩ := ih hstates hnames hrest entry hentry
      refine ⟨before, List.mem_cons_of_mem _ hbefore, ?_⟩
      rwa [Function.update_of_ne (hnew _ hbefore).symm] at hconverged

/-- What a publish does to every table, those of the session and all others. -/
def PublishedAll (library : Library I T C R) (identity : Identity) (load load' : Load I T C R) : Prop :=
  (∀ stream state, find stream load.tables = some state → ∃ state',
    find stream load'.tables = some state' ∧ Converged library identity state state'
      (load.catalog (load.tableName stream)).value
      (load'.catalog (load.tableName stream)).value) ∧
  ∀ name, (∀ stream state, find stream load.tables = some state → load.tableName stream ≠ name) →
    load'.catalog name = load.catalog name

variable {loadId : String} {commitSeq : Nat} {persisted : Except String Unit}

theorem publish_ok (h : Sound library load rows)
    (hpublish : load.publish library loadId commitSeq arounds persisted = .ok load') :
    PublishedAll library ⟨load.scope, loadId, commitSeq⟩ load load' ∧
      load'.tables.map Prod.fst = load.tables.map Prod.fst ∧
      load' = { load with tables := load'.tables, catalog := load'.catalog } := by
  rw [Load.publish] at hpublish
  obtain ⟨⟨tables, catalog⟩, hconverge, hpublish⟩ := bind_ok.1 hpublish
  obtain ⟨⟨⟩, -, hpublish⟩ := bind_ok.1 hpublish
  obtain rfl := Except.ok.inj hpublish
  obtain ⟨hkeys, hframe⟩ := convergeTables_frame hconverge
  have hascending : Ascending tables := by
    rw [ascending_iff, hkeys, ← ascending_iff]
    exact h.ascending
  have hopen {entry : String × TableState I T C R} (hentry : entry ∈ load.tables) :
      find entry.1 load.tables = some entry.2 := find_of_mem h.ascending hentry
  have hnames : load.tables.Pairwise fun entry other =>
      load.tableName entry.1 ≠ load.tableName other.1 := by
    refine h.ascending.imp_of_mem fun {entry other} hentry hother hlt heq => ?_
    have hsame := h.named entry.1 other.1 (by simp [hopen hentry]) (by simp [hopen hother]) heq
    exact lt_irrefl _ (hsame ▸ hlt)
  have hall := convergeTables_ok (fun entry hentry => h.states entry.1 entry.2 (hopen hentry))
    hnames hconverge
  refine ⟨⟨fun stream state hfind => ?_, fun name hname => ?_⟩, hkeys, rfl⟩
  · have hmem : stream ∈ tables.map Prod.fst := by
      rw [hkeys]
      exact exists_find_iff.1 ⟨state, hfind⟩
    obtain ⟨entry, hentry, rfl⟩ := List.mem_map.1 hmem
    obtain ⟨before, hbefore, hconverged⟩ := hall entry hentry
    have hsame : find entry.1 load.tables = some before := find_of_mem h.ascending hbefore
    obtain rfl := Option.some.inj (hfind.symm.trans hsame)
    exact ⟨entry.2, find_of_mem hascending hentry, hconverged⟩
  · exact hframe name fun entry hentry => hname entry.1 entry.2 (hopen hentry)

/-- Nothing is held behind a publish. -/
theorem publish_sound (h : Sound library load rows)
    (hpublish : load.publish library loadId commitSeq arounds persisted = .ok load') :
    Sound library load' fun _ => [] := by
  obtain ⟨⟨hall, -⟩, hkeys, heq⟩ := publish_ok h hpublish
  have hback {stream : String} (hopen : ∃ state', find stream load'.tables = some state') :
      ∃ state, find stream load.tables = some state := by
    rwa [exists_find_iff, hkeys, ← exists_find_iff] at hopen
  have hafter {stream : String} {state' : TableState I T C R}
      (hfind : find stream load'.tables = some state') : ∃ history history' state,
        Converged library ⟨load.scope, loadId, commitSeq⟩ state state' history history' := by
    obtain ⟨state, hbefore⟩ := hback ⟨state', hfind⟩
    obtain ⟨found, hfound, hconverged⟩ := hall stream state hbefore
    obtain rfl := Option.some.inj (hfind.symm.trans hfound)
    exact ⟨_, _, state, hconverged⟩
  have hname : load'.tableName = load.tableName := by
    rw [heq]
    rfl
  have hfound {stream : String} (hopen : find stream load'.tables ≠ none) :
      find stream load.tables ≠ none := by
    rw [Option.ne_none_iff_exists'] at hopen ⊢
    exact hback hopen
  constructor
  · rw [ascending_iff, hkeys, ← ascending_iff]
    exact h.ascending
  · intro stream state' hfind
    obtain ⟨_, _, state, hconverged⟩ := hafter hfind
    refine ⟨hconverged.target, fun writer hwriter => ?_⟩
    rw [hconverged.empty.1] at hwriter
    cases hwriter
  · intro stream
    rw [Load.held]
    cases hfind : find stream load'.tables with
    | none => exact .refl _
    | some state' =>
      obtain ⟨_, _, state, hconverged⟩ := hafter hfind
      simp [TableState.held, hconverged.empty.1, hconverged.empty.2]
  · intro stream other hstream hother
    rw [hname]
    exact h.named stream other (hfound hstream) (hfound hother)
  · intro entry hentry
    rw [heq] at hentry
    obtain ⟨stream, state, seq, hfind, hprefix, hle⟩ := h.opened entry hentry
    obtain ⟨state', hfind', hconverged⟩ := hall stream state hfind
    refine ⟨stream, state', seq, hfind', ?_, by rw [hconverged.windowSeq]; exact hle⟩
    rw [heq]
    exact hprefix
  · rw [heq]
    exact h.once

/-! ## Runs -/

def Load.Fresh (load : Load I T C R) : Prop := load.tables = [] ∧ load.opened = []

omit [DecidableEq T] in
theorem fresh_find (hfresh : load.Fresh) : find stream load.tables = none := by
  rw [hfresh.1]
  rfl

theorem fresh_sound (library : Library I T C R) (hfresh : load.Fresh) :
    Sound library load fun _ => [] where
  ascending := by
    rw [hfresh.1]
    exact List.Pairwise.nil
  states stream state hfind := by
    rw [fresh_find hfresh] at hfind
    cases hfind
  conserved stream := by
    rw [Load.held, fresh_find hfresh]
    exact .refl _
  named stream other hstream := absurd (fresh_find hfresh) hstream
  opened entry hentry := by
    rw [hfresh.2] at hentry
    cases hentry
  once := by
    rw [hfresh.2]
    exact List.nodup_nil

theorem step_sound (hcloses : library.Closes) (hcasts : library.Casts) (h : Sound library load rows)
    {event : Event I T C R} (hstep : load.step library event = .ok load') :
    Sound library load' (load.writtenBy library rows event) := by
  cases event with
  | ensure stream mode found => exact ensureTable_sound hcloses h hstep
  | write stream batch clock => exact write_sound hcloses hcasts h hstep
  | publish loadId commitSeq arounds persisted => exact publish_sound h hstep

theorem track_sound (hcloses : library.Closes) (hcasts : library.Casts) (hfresh : load.Fresh)
    {events : List (Event I T C R)}
    (hrun : events.foldlM (Load.track library) (load, fun _ => []) = .ok (load', rows)) :
    Sound library load' rows := by
  refine foldlM_ok (P := fun _ tracked => Sound library tracked.1 tracked.2)
    (fresh_sound library hfresh) ?_ hrun
  intro _ event _ tracked next htracked hnext
  obtain ⟨load, hstep, rfl⟩ := map_ok.1 hnext
  exact step_sound hcloses hcasts htracked hstep

/-! ## A unit that is there, and two tables -/

/-- A table of one column, versioned by its type. -/
def sampleLibrary : Library Nat Nat (List Nat) Nat where
  schemaToArrowSchema version := .ok [⟨"id", version, true, 1⟩]
  dataType _ := 0
  length := List.length
  typeText := toString
  cast column _ := .ok column
  newNullArray _ _ := []
  checkColumns _ _ := .ok ()
  rows batch := ((batch.schema.zip batch.columns).find? fun column => column.1.name = "id").elim []
    Prod.snd
  shown _ row := row
  classify text := text
  openWriter _ _ _ := .ok ()
  write _ _ := .ok ()
  close writer := .ok [writer.written.flatMap fun batch =>
    ((batch.schema.zip batch.columns).find? fun column => column.1.name = "id").elim [] Prod.snd]

theorem sampleLibrary_closes : sampleLibrary.Closes := by
  intro writer files hclose
  obtain rfl := Except.ok.inj hclose
  rw [List.flatten_singleton]
  exact .refl _

theorem sampleLibrary_casts : sampleLibrary.Casts := by
  rintro version batch ⟨schema, columns, numRows⟩ hschema ⟨hcolumns, -, -⟩
  obtain rfl : [⟨"id", version, true, 1⟩] = schema := Except.ok.inj hschema
  obtain ⟨column, rest, hcolumn, hrest, rfl⟩ := List.forall₂_cons_left_iff.1 hcolumns
  obtain rfl := List.forall₂_nil_left_iff.1 hrest
  have hid : column = ((batch.schema.zip batch.columns).find? fun c => c.1.name = "id").elim []
      Prod.snd := by
    rw [Library.ColumnFrom] at hcolumn
    split at hcolumn
    · rename_i source hfind
      rw [hfind]
      obtain ⟨-, rfl⟩ | hcast := hcolumn
      · rfl
      · exact (Except.ok.inj hcast).symm
    · rename_i hnone
      rw [hnone]
      exact hcolumn
  rw [hid]
  exact (List.map_id _).symm

def sampleLoad (history : History Nat) : Load Nat Nat (List Nat) Nat :=
  ⟨[], some 60, "scope", "l", "n", [], fun _ => ⟨history, 0⟩, []⟩

def sampleBatch (rows : List Nat) : RecordBatch Nat (List Nat) := ⟨[⟨"id", 0, true, 1⟩], [rows], rows.length⟩

/-- Nobody else commits. -/
def quiet (_ : String) : Load.Around Nat Nat := ⟨[], .ok (), fun _ => ([], ⟨true, .ok⟩), 1⟩

/-- Of a unit that an earlier attempt committed nothing is appended, and the first writers of two
tables are opened with one prefix. -/
theorem unit_is_discarded :
    (([.ensure "a" .append (.ok 1), .write "a" (sampleBatch [8]) (0, 0),
        .publish "l" 1 quiet (.ok ())].foldlM (Load.track sampleLibrary)
          (sampleLoad [⟨Identity.summaryProps ⟨"other", "l", 1⟩, [[7]]⟩], fun _ => [])).toOption.map
      fun tracked => (tracked.1.catalog "a").value.map Snapshot.files) = some [[[7]]] ∧
    (([.ensure "a" .append (.ok 1), .ensure "b" .append (.ok 1), .write "a" (sampleBatch [8]) (0, 0),
        .write "b" (sampleBatch [9]) (0, 0)].foldlM (Load.track sampleLibrary)
          (sampleLoad [], fun _ => [])).toOption.map fun tracked => tracked.1.opened.map Prod.snd) =
      some [("l-1", "n"), ("l-1", "n")] := by
  constructor
  · decide +kernel
  · decide +kernel

/-- At every point of a session whose calls have succeeded the parked files of a table and its
writer hold the rows written since its last publish; a writer is handed batches aligned to the
schema it was opened with; no prefix is opened twice for one table. And a publish appends the
files of each table's window in one snapshot, or none where the unit is there already. -/
theorem window_conserves (hcloses : library.Closes) (hcasts : library.Casts) (hfresh : load.Fresh)
    {events : List (Event I T C R)}
    (hrun : events.foldlM (Load.track library) (load, fun _ => []) = .ok (load', rows)) :
    (∀ stream, (load'.held library stream).Perm (rows stream)) ∧
    (∀ stream state writer, find stream load'.tables = some state → state.writer = some writer →
      ∃ target, writer.AlignedTo library target) ∧
    load'.opened.Nodup ∧
    ∀ loadId commitSeq arounds persisted after,
      load'.publish library loadId commitSeq arounds persisted = .ok after →
      PublishedAll library ⟨load'.scope, loadId, commitSeq⟩ load' after := by
  have h := track_sound hcloses hcasts hfresh hrun
  refine ⟨h.conserved, fun stream state writer hfind hwriter => ?_, h.once, ?_⟩
  · exact ⟨state.arrowTarget, (h.states stream state hfind).writer writer hwriter⟩
  · intro loadId commitSeq arounds persisted after hpublish
    exact (publish_ok h hpublish).1

/-- A change of schema, a part that is old enough and a publish. -/
def sampleEvents : List (Event Nat Nat (List Nat) Nat) :=
  [.ensure "a" .append (.ok 1), .write "a" (sampleBatch [1]) (0, 0), .publish "l" 1 quiet (.ok ()),
    .write "a" (sampleBatch [2, 3]) (5, 5), .ensure "a" .append (.ok 2),
    .write "a" (sampleBatch [4]) (9, 9), .write "a" (sampleBatch [5]) (70, 71)]

theorem window_conserves_sample :
    ∃ load rows, sampleEvents.foldlM (Load.track sampleLibrary) (sampleLoad [], fun _ => []) =
      .ok (load, rows) ∧ ∀ stream, (load.held sampleLibrary stream).Perm (rows stream) := by
  have hok : (sampleEvents.foldlM (Load.track sampleLibrary)
      (sampleLoad [], fun _ => [])).isOk = true := by decide +kernel
  cases hrun : sampleEvents.foldlM (Load.track sampleLibrary) (sampleLoad [], fun _ => []) with
  | error e =>
    rw [hrun] at hok
    cases hok
  | ok tracked =>
    obtain ⟨load, rows⟩ := tracked
    exact ⟨load, rows, rfl, (window_conserves sampleLibrary_closes sampleLibrary_casts ⟨rfl, rfl⟩ hrun).1⟩

end Tables

end IcebergWrite
