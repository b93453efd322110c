import RdltConnectors.Library.Framing

/-!
# The cursor of the file source

What is remembered of each file between runs, and how a listing is turned into
read tasks: a new file is read from its start, a grown one from where the last
run stopped, a finished one not at all, and a history that the record cannot
explain refuses. Units are bytes here. A refusal ends the run.
-/
namespace FileSource

abbrev Bytes := List UInt8

def newline : UInt8 := 10

/-- How many of the consumed bytes are hashed again before an offset is trusted. -/
def tailWindow : Nat := 4096

structure FileProgress where
  doneUnits : Nat
  sizeUnits : Nat
  endedAtRecordBoundary : Bool
  mtimeMs : Option Nat
  etag : Option String
  tailHash : Option String
  rowGroupsHash : Option String
  deriving DecidableEq, Repr

structure FileMeta where
  path : String
  sizeUnits : Nat
  mtimeMs : Option Nat
  etag : Option String
  deriving DecidableEq, Repr

inductive ResumeCheck where
  | tailBytes (window : Nat) (hash : String)
  | rowGroupPrefix (hash : String)
  deriving DecidableEq, Repr

structure FileTask where
  path : String
  start : Nat
  sizeUnits : Nat
  mtimeMs : Option Nat
  etag : Option String
  resumeCheck : Option ResumeCheck
  deriving DecidableEq, Repr

/-- Every way a run of plain jsonl files is refused. -/
inductive Refusal where
  | shrank (path : String) (done size now : Nat)
  | etagRewritten (path : String)
  | mtimeRewritten (path : String)
  | midRecord (path : String) (done : Nat)
  | rowGroupCheck (path : String)
  | prefixRewritten (path : String) (start : Nat)
  | shrankWhileRead (path : String) (consumed listed : Nat)
  | malformed (path : String) (offset : Nat) (message : String)
  deriving DecidableEq, Repr

def Refusal.message : Refusal → String
  | .shrank path done size now =>
    s!"file `{path}` shrank or was rewritten (recorded {done} of {size} bytes, now {now}); refusing to read from a stale offset — clear it from the pipeline state or restore the file"
  | .etagRewritten path =>
    s!"file `{path}` was rewritten in place (same size, different etag); refusing to trust recorded progress — clear it from the pipeline state or restore the object"
  | .mtimeRewritten path =>
    s!"file `{path}` was rewritten in place (same size, but modified since the last run); refusing to trust recorded progress — clear it from the pipeline state or restore the file"
  | .midRecord path done =>
    s!"file `{path}` grew after a run that consumed an unterminated final line; the recorded offset {done} points mid-record — clear it from the pipeline state or restore the file"
  | .rowGroupCheck path =>
    s!"file `{path}` recorded a row-group integrity value but is being read as a record stream; refusing to resume without a check this reader can evaluate — clear it from the pipeline state"
  | .prefixRewritten path start =>
    s!"file `{path}` was rewritten before the resume offset (the content preceding byte {start} changed since the last run); refusing to read a stale tail — clear it from the pipeline state or restore the file"
  | .shrankWhileRead path consumed listed =>
    s!"file `{path}` ended at byte {consumed} but its listing recorded {listed} — the file shrank while it was being read; clear it from the pipeline state or restore the file"
  | .malformed path offset message =>
    s!"malformed JSON in `{path}` at byte offset {offset}: {message}"

/-- One record for each path ever matched. -/
structure FileCursor where
  files : String → Option FileProgress

def FileCursor.empty : FileCursor := ⟨fun _ => none⟩

def FileCursor.record (cursor : FileCursor) (path : String) (progress : FileProgress) :
    FileCursor :=
  ⟨fun p => if p = path then some progress else cursor.files p⟩

@[simp] theorem record_same (cursor : FileCursor) (path : String) (progress : FileProgress) :
    (cursor.record path progress).files path = some progress := by simp [FileCursor.record]

theorem record_other (cursor : FileCursor) {path p : String} (progress : FileProgress)
    (h : p ≠ path) : (cursor.record path progress).files p = cursor.files p := by
  simp [FileCursor.record, h]

def fresh (listed : FileMeta) : FileTask :=
  ⟨listed.path, 0, listed.sizeUnits, listed.mtimeMs, listed.etag, none⟩

def checkShrink (listed : FileMeta) (record : FileProgress) : Except Refusal Unit :=
  if listed.sizeUnits < record.sizeUnits ∨ record.doneUnits > listed.sizeUnits then
    .error (.shrank listed.path record.doneUnits record.sizeUnits listed.sizeUnits)
  else .ok ()

/-- Both sides must be present to speak; an absent pair is silent. -/
def differs {α : Type} [DecidableEq α] : Option α → Option α → Bool
  | some a, some b => a ≠ b
  | _, _ => false

/-- The same size with another etag or modification time is a replacement. -/
def checkRewrite (listed : FileMeta) (record : FileProgress) : Except Refusal Unit :=
  if listed.sizeUnits ≠ record.sizeUnits then .ok ()
  else if differs listed.etag record.etag then .error (.etagRewritten listed.path)
  else if differs listed.mtimeMs record.mtimeMs then .error (.mtimeRewritten listed.path)
  else .ok ()

/-- A record with both hashes was written by two readers, so neither is trusted. -/
def resumeCheckFor (record : FileProgress) : Option ResumeCheck :=
  if record.doneUnits = 0 then none
  else
    match record.tailHash, record.rowGroupsHash with
    | some _, some _ => none
    | none, none => none
    | some tail, none => some (.tailBytes (min record.doneUnits tailWindow) tail)
    | none, some groups => some (.rowGroupPrefix groups)

/-- What the planner does with one listed file; `none` skips a finished one. -/
def FileCursor.planFile (cursor : FileCursor) (listed : FileMeta) :
    Except Refusal (Option FileTask) :=
  match cursor.files listed.path with
  | none => .ok (some (fresh listed))
  | some record =>
    match checkShrink listed record with
    | .error e => .error e
    | .ok () =>
      match checkRewrite listed record with
      | .error e => .error e
      | .ok () =>
        if record.doneUnits < record.sizeUnits ∨ record.doneUnits < listed.sizeUnits then
          if record.endedAtRecordBoundary then
            .ok (some ⟨listed.path, record.doneUnits, listed.sizeUnits, listed.mtimeMs,
              listed.etag, resumeCheckFor record⟩)
          else .error (.midRecord listed.path record.doneUnits)
        else .ok none

/-- The planner of byte-resumable files: the first refusal stops it. -/
def FileCursor.plan (cursor : FileCursor) : List FileMeta → Except Refusal (List FileTask)
  | [] => .ok []
  | listed :: rest =>
    match cursor.planFile listed with
    | .error e => .error e
    | .ok task =>
      match cursor.plan rest with
      | .error e => .error e
      | .ok tasks => .ok (task.toList ++ tasks)

/-! ## What a plan says about each file -/

/-- A task continues exactly what is on record, or starts a file with no record. -/
structure Planned (cursor : FileCursor) (listed : FileMeta) (task : FileTask) : Prop where
  path : task.path = listed.path
  size : task.sizeUnits = listed.sizeUnits
  mtime : task.mtimeMs = listed.mtimeMs
  etag : task.etag = listed.etag
  resumes : (cursor.files listed.path = none ∧ task.start = 0 ∧ task.resumeCheck = none) ∨
    ∃ record, cursor.files listed.path = some record ∧ task.start = record.doneUnits ∧
      task.resumeCheck = resumeCheckFor record ∧ record.endedAtRecordBoundary = true

variable {cursor : FileCursor} {listed : FileMeta}

theorem planFile_some {task : FileTask} (h : cursor.planFile listed = .ok (some task)) :
    Planned cursor listed task := by
  unfold FileCursor.planFile at h
  cases hrec : cursor.files listed.path with
  | none =>
    simp only [hrec, Except.ok.injEq, Option.some.injEq] at h
    subst h
    exact ⟨rfl, rfl, rfl, rfl, .inl ⟨hrec, rfl, rfl⟩⟩
  | some record =>
    simp only [hrec] at h
    cases hshrink : checkShrink listed record with
    | error e => simp [hshrink] at h
    | ok u =>
      cases hrewrite : checkRewrite listed record with
      | error e => simp [hshrink, hrewrite] at h
      | ok v =>
        simp only [hshrink, hrewrite] at h
        split at h
        · split at h
          · rename_i hboundary
            simp only [Except.ok.injEq, Option.some.injEq] at h
            subst h
            exact ⟨rfl, rfl, rfl, rfl, .inr ⟨record, hrec, rfl, rfl, hboundary⟩⟩
          · cases h
        · cases h

/-- A file is skipped when its record reaches what was listed. -/
theorem planFile_none (h : cursor.planFile listed = .ok none) :
    ∃ record, cursor.files listed.path = some record ∧
      record.sizeUnits ≤ record.doneUnits ∧ record.doneUnits = listed.sizeUnits := by
  unfold FileCursor.planFile at h
  cases hrec : cursor.files listed.path with
  | none => simp [hrec] at h
  | some record =>
    simp only [hrec] at h
    cases hshrink : checkShrink listed record with
    | error e => simp [hshrink] at h
    | ok u =>
      have hgrown : ¬(listed.sizeUnits < record.sizeUnits ∨
          record.doneUnits > listed.sizeUnits) := by
        intro hbad
        simp [checkShrink, hbad] at hshrink
      cases hrewrite : checkRewrite listed record with
      | error e => simp [hshrink, hrewrite] at h
      | ok v =>
        simp only [hshrink, hrewrite] at h
        split at h
        · split at h <;> cases h
        · rename_i hdone
          exact ⟨record, rfl, by omega, by omega⟩

/-- The histories the planner refuses, by what it sees of a file and its record. -/
inductive Refuses (listed : FileMeta) (record : FileProgress) : Refusal → Prop where
  | shrank : listed.sizeUnits < record.sizeUnits ∨ record.doneUnits > listed.sizeUnits →
      Refuses listed record
        (.shrank listed.path record.doneUnits record.sizeUnits listed.sizeUnits)
  | etag : listed.sizeUnits = record.sizeUnits → differs listed.etag record.etag = true →
      Refuses listed record (.etagRewritten listed.path)
  | mtime : listed.sizeUnits = record.sizeUnits →
      differs listed.mtimeMs record.mtimeMs = true →
      Refuses listed record (.mtimeRewritten listed.path)
  | midRecord : record.endedAtRecordBoundary = false →
      Refuses listed record (.midRecord listed.path record.doneUnits)

theorem checkShrink_error {record : FileProgress} {e : Refusal}
    (h : checkShrink listed record = .error e) : Refuses listed record e := by
  unfold checkShrink at h
  split at h
  · rename_i hbad
    cases h
    exact .shrank hbad
  · cases h

theorem checkRewrite_error {record : FileProgress} {e : Refusal}
    (h : checkRewrite listed record = .error e) : Refuses listed record e := by
  unfold checkRewrite at h
  split at h
  · cases h
  · rename_i hsize
    have hsame : listed.sizeUnits = record.sizeUnits := not_not.mp hsize
    split at h
    · rename_i hetag
      cases h
      exact .etag hsame hetag
    · split at h
      · rename_i hmtime
        cases h
        exact .mtime hsame hmtime
      · cases h

/-- A refused file has a record that its listing contradicts. -/
theorem planFile_error {e : Refusal} (h : cursor.planFile listed = .error e) :
    ∃ record, cursor.files listed.path = some record ∧ Refuses listed record e := by
  unfold FileCursor.planFile at h
  cases hrec : cursor.files listed.path with
  | none => simp [hrec] at h
  | some record =>
    refine ⟨record, rfl, ?_⟩
    simp only [hrec] at h
    cases hshrink : checkShrink listed record with
    | error e' =>
      simp only [hshrink, Except.error.injEq] at h
      exact h ▸ checkShrink_error hshrink
    | ok u =>
      cases hrewrite : checkRewrite listed record with
      | error e' =>
        simp only [hshrink, hrewrite, Except.error.injEq] at h
        exact h ▸ checkRewrite_error hrewrite
      | ok v =>
        simp only [hshrink, hrewrite] at h
        split at h
        · split at h
          · cases h
          · rename_i hboundary
            cases h
            exact .midRecord (by simpa using hboundary)
        · cases h

theorem plan_cons_ok {rest : List FileMeta} {tasks : List FileTask}
    (h : cursor.plan (listed :: rest) = .ok tasks) :
    ∃ task others, cursor.planFile listed = .ok task ∧ cursor.plan rest = .ok others ∧
      tasks = task.toList ++ others := by
  simp only [FileCursor.plan] at h
  cases hfile : cursor.planFile listed with
  | error e => simp [hfile] at h
  | ok task =>
    cases hrest : cursor.plan rest with
    | error e => simp [hfile, hrest] at h
    | ok others =>
      simp only [hfile, hrest, Except.ok.injEq] at h
      exact ⟨task, others, rfl, rfl, h.symm⟩

/-- Every task comes from a listed file. -/
theorem planned_of_plan {listing : List FileMeta} {tasks : List FileTask}
    (h : cursor.plan listing = .ok tasks) :
    ∀ task ∈ tasks, ∃ listed ∈ listing, Planned cursor listed task := by
  induction listing generalizing tasks with
  | nil =>
    cases h
    exact fun task ht => nomatch ht
  | cons listed rest ih =>
    obtain ⟨task, others, hfile, hrest, rfl⟩ := plan_cons_ok h
    intro found hfound
    simp only [List.mem_append, Option.mem_toList] at hfound
    cases hfound with
    | inl hhere =>
      subst hhere
      exact ⟨listed, by simp, planFile_some hfile⟩
    | inr hlater =>
      obtain ⟨other, hother, hplanned⟩ := ih hrest found hlater
      exact ⟨other, by simp [hother], hplanned⟩

/-- No file is planned twice. -/
theorem plan_paths_sublist {listing : List FileMeta} {tasks : List FileTask}
    (h : cursor.plan listing = .ok tasks) :
    (tasks.map (·.path)).Sublist (listing.map (·.path)) := by
  induction listing generalizing tasks with
  | nil =>
    cases h
    exact List.Sublist.slnil
  | cons listed rest ih =>
    obtain ⟨task, others, hfile, hrest, rfl⟩ := plan_cons_ok h
    cases task with
    | none => exact (ih hrest).cons listed.path
    | some task =>
      have hpath : task.path = listed.path := (planFile_some hfile).path
      simp only [Option.toList_some, List.singleton_append, List.map_cons, hpath]
      exact (ih hrest).cons_cons listed.path

/-- What was listed and not planned is finished. -/
theorem finished_of_plan {listing : List FileMeta} {tasks : List FileTask}
    (h : cursor.plan listing = .ok tasks) :
    ∀ listed ∈ listing, listed.path ∉ tasks.map (·.path) →
      cursor.planFile listed = .ok none := by
  induction listing generalizing tasks with
  | nil => exact fun listed hl => nomatch hl
  | cons first rest ih =>
    obtain ⟨task, others, hfile, hrest, rfl⟩ := plan_cons_ok h
    intro listed hlisted hnot
    simp only [List.map_append, List.mem_append, not_or] at hnot
    cases List.mem_cons.mp hlisted with
    | inr hlater => exact ih hrest listed hlater hnot.2
    | inl hhere =>
      subst hhere
      cases task with
      | none => exact hfile
      | some task =>
        have hpath : task.path = listed.path := (planFile_some hfile).path
        simp [hpath] at hnot

/-- A refused plan is the refusal of one listed file. -/
theorem refused_of_plan {listing : List FileMeta} {e : Refusal}
    (h : cursor.plan listing = .error e) :
    ∃ listed ∈ listing, cursor.planFile listed = .error e := by
  induction listing with
  | nil => cases h
  | cons listed rest ih =>
    simp only [FileCursor.plan] at h
    cases hfile : cursor.planFile listed with
    | error e' =>
      simp only [hfile, Except.error.injEq] at h
      subst h
      exact ⟨listed, by simp, hfile⟩
    | ok task =>
      cases hrest : cursor.plan rest with
      | error e' =>
        simp only [hfile, hrest, Except.error.injEq] at h
        subst h
        obtain ⟨other, hother, hrefused⟩ := ih hrest
        exact ⟨other, by simp [hother], hrefused⟩
      | ok others => simp [hfile, hrest] at h

end FileSource
