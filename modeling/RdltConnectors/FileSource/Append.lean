import Mathlib
import RdltConnectors.FileSource.Resume

/-!
# When a healthy append is refused

A record takes its size from the end of the read and its stamps from the listing
before it. Where an append lands between the two and is read, the record pairs the
new size with the old stamps, and the next listing of the file, if nothing more
has been appended, looks like a rewrite of the same size. Files that only grow by
whole lines are refused for no other reason.
-/
namespace FileSource

open Framing Transition

/-- Every append is of whole lines and changes the modification time. -/
def WholeRecords (w : World) : Act → Prop
  | .append path bytes mtimeMs _ =>
    bytes.getLast? = some newline ∧ mtimeMs ≠ (w.files path).mtimeMs
  | .list _ => True
  | .openNext => True
  | .pour _ => True
  | .commit => True
  | .stop => True

instance (w : World) : (a : Act) → Decidable (WholeRecords w a)
  | .append path bytes mtimeMs _ => inferInstanceAs
      (Decidable (bytes.getLast? = some newline ∧ mtimeMs ≠ (w.files path).mtimeMs))
  | .list _ => .isTrue trivial
  | .openNext => .isTrue trivial
  | .pour _ => .isTrue trivial
  | .commit => .isTrue trivial
  | .stop => .isTrue trivial

/-- No append has landed since the listing behind a record, or one has landed that
the run behind it did not read. -/
def Settled (w : World) (p : String) : Prop :=
  ∀ record ∈ w.durable.cursor.files p,
    w.durable.seen p = (w.files p).appends ∨ record.sizeUnits < (w.files p).content.length

instance (w : World) (p : String) : Decidable (Settled w p) :=
  inferInstanceAs (Decidable (∀ record ∈ w.durable.cursor.files p,
    w.durable.seen p = (w.files p).appends ∨ record.sizeUnits < (w.files p).content.length))

def ListsSettled (w : World) : Act → Prop
  | .list paths => ∀ p ∈ paths, Settled w p
  | .append _ _ _ _ => True
  | .openNext => True
  | .pour _ => True
  | .commit => True
  | .stop => True

instance (w : World) : (a : Act) → Decidable (ListsSettled w a)
  | .list paths => inferInstanceAs (Decidable (∀ p ∈ paths, Settled w p))
  | .append _ _ _ _ => .isTrue trivial
  | .openNext => .isTrue trivial
  | .pour _ => .isTrue trivial
  | .commit => .isTrue trivial
  | .stop => .isTrue trivial

/-- Refused as shrunk, rewritten, or mid-record: anything but a line that does not parse. -/
def Refusal.tripwire : Refusal → Bool
  | .malformed _ _ _ => false
  | .shrank _ _ _ _ => true
  | .etagRewritten _ => true
  | .mtimeRewritten _ => true
  | .midRecord _ _ => true
  | .rowGroupCheck _ => true
  | .prefixRewritten _ _ => true
  | .shrankWhileRead _ _ _ => true

/-- No run was refused, and each file a run came to the end of is made up of what
had been committed of it before the run and what the run delivered. -/
structure AcceptsAppends (w : World) : Prop where
  refusals : ∀ e ∈ w.refusals, e.tripwire = false
  exact : ∀ c ∈ w.completions, c.before ++ c.delivered = c.content

/-! ## What the stamps of a record say -/

/-- Stamps taken when the file had seen `appends` appends are still the file's own
as long as it has seen no more. -/
structure StampsOf (file : SourceFile) (appends : Nat) (mtimeMs : Option Nat)
    (etag : Option String) : Prop where
  past : appends ≤ file.appends
  current : appends = file.appends → mtimeMs = file.mtimeMs ∧ etag = file.etag

def Stamped (files : String → SourceFile) (ledger : Ledger) : Prop :=
  ∀ p record, ledger.cursor.files p = some record →
    record.endedAtRecordBoundary = true ∧
      StampsOf (files p) (ledger.seen p) record.mtimeMs record.etag

def TaskStamped (files : String → SourceFile) (run : Run) (task : FileTask) : Prop :=
  StampsOf (files task.path) (run.seen task.path) task.mtimeMs task.etag

structure ReadWhole (files : String → SourceFile) (run : Run) (reading : Reading) : Prop where
  stamped : TaskStamped files run reading.task
  boundary : reading.onBoundary = true
  more : reading.slabs.finished = false
  whole : EndsOn newline (reading.reader.visible (files reading.task.path).content)

structure RunWhole (files : String → SourceFile) (run : Run) : Prop where
  chain : Chain (fun ledger _ => Stamped files ledger) [] run.emitted run.ledger
  tasks : ∀ task ∈ run.tasks, TaskStamped files run task
  reading : ∀ reading, run.reading = some reading → ReadWhole files run reading

structure Whole (w : World) : Prop where
  content : ∀ p, EndsOn newline (w.files p).content
  durable : Stamped w.files w.durable
  run : ∀ run, w.run = some run → RunWhole w.files run
  accepts : AcceptsAppends w

variable {env : Env} {files files' : String → SourceFile} {w : World} {run : Run}

theorem whole_initial (h : ∀ p, EndsOn newline (files p).content) : Whole (.initial files) where
  content := h
  durable := fun _ _ hrec => by cases hrec
  run := fun _ hrun => by cases hrun
  accepts := ⟨(fun _ he => by cases he), (fun _ hc => by cases hc)⟩

theorem Stamped.record {ledger : Ledger} (h : Stamped files ledger) {path : String}
    {progress : FileProgress} {appends : Nat} (hboundary : progress.endedAtRecordBoundary = true)
    (hstamps : StampsOf (files path) appends progress.mtimeMs progress.etag) :
    Stamped files (ledger.record path progress appends) := by
  intro p record hrec
  by_cases hp : p = path
  · subst hp
    simp only [Ledger.record, record_same, Option.some.injEq] at hrec
    subst hrec
    simp only [Ledger.record, if_true]
    exact ⟨hboundary, hstamps⟩
  · simp only [Ledger.record, record_other _ _ hp] at hrec
    simp only [Ledger.record, hp, if_false]
    exact h p record hrec

/-- A chain that asks nothing of the slabs may start anywhere. -/
theorem Chain.commit {ok : Ledger → Prop} {slabs slabs' : List Delivered}
    {emitted : List Emission} {ledger : Ledger}
    (h : Chain (fun l _ => ok l) slabs emitted ledger) :
    Chain (fun l _ => ok l) slabs' emitted ledger := by
  induction emitted generalizing slabs slabs' with
  | nil => exact h
  | cons e rest ih => exact ⟨h.1, ih h.2⟩

/-! ## Appends -/

/-- The step from one directory to another: a file that changes has one more append. -/
def Moves (files files' : String → SourceFile) : Prop :=
  ∀ p, files' p = files p ∨ (files p).appends < (files' p).appends

theorem StampsOf.moves {p : String} {appends : Nat} {mtimeMs : Option Nat} {etag : Option String}
    (h : StampsOf (files p) appends mtimeMs etag) (hm : Moves files files') :
    StampsOf (files' p) appends mtimeMs etag := by
  have hpast := h.past
  cases hm p with
  | inl hsame => rw [hsame]; exact h
  | inr hmore => exact ⟨by omega, fun heq => absurd heq (by omega)⟩

theorem Stamped.moves {ledger : Ledger} (h : Stamped files ledger) (hm : Moves files files') :
    Stamped files' ledger := by
  intro p record hrec
  obtain ⟨hboundary, hstamps⟩ := h p record hrec
  exact ⟨hboundary, hstamps.moves hm⟩

theorem whole_append (h : Whole w) {path : String} {bytes : Bytes} {mtimeMs : Option Nat}
    (etag : Option String) (hbytes : bytes.getLast? = some newline) :
    Whole (w.append path bytes mtimeMs etag) := by
  have hm : Moves w.files (w.append path bytes mtimeMs etag).files := by
    intro p
    by_cases hp : p = path
    · exact .inr (by simp [World.append, hp])
    · exact .inl (by simp [World.append, hp])
  have hends : EndsOn newline bytes := fun x hx => by simpa [hbytes] using hx.symm
  have hcontent : ∀ p, EndsOn newline ((w.append path bytes mtimeMs etag).files p).content := by
    intro p
    by_cases hp : p = path
    · simp only [World.append, hp, if_true]
      exact (h.content path).append hends
    · simp only [World.append, hp, if_false]
      exact h.content p
  refine ⟨hcontent, h.durable.moves hm, ?_, ⟨h.accepts.refusals, h.accepts.exact⟩⟩
  intro run hrun
  obtain ⟨hchain, htasks, hreading⟩ := h.run run hrun
  refine ⟨hchain.mono fun ledger _ hs => hs.moves hm, fun task ht => (htasks task ht).moves hm,
    fun reading hr => ?_⟩
  obtain ⟨hstamped, hboundary, hmore, hwhole⟩ := hreading reading hr
  refine ⟨hstamped.moves hm, hboundary, hmore, ?_⟩
  cases hreader : reading.reader with
  | localFile pos => exact hcontent reading.task.path
  | s3 body pos =>
    rw [hreader] at hwhole
    exact hwhole

/-! ## Beginning a run -/

theorem differs_self {α : Type} [DecidableEq α] (x : Option α) : differs x x = false := by
  cases x with
  | none => rfl
  | some a => simp [differs]

/-- A settled file contradicts none of its record. -/
theorem planFile_accepts (h : Inv env w) (hw : Whole w) {p : String} (hsettled : Settled w p)
    (e : Refusal) : w.durable.cursor.planFile ((w.files p).describe p) ≠ .error e := by
  intro hrefused
  obtain ⟨record, hrec, hrefuses⟩ := planFile_error hrefused
  rw [show ((w.files p).describe p).path = p from rfl] at hrec
  have hagree := h.durable p
  rw [hrec] at hagree
  have hdone := hagree.done_le
  have hsize := hagree.size_le
  obtain ⟨hboundary, hstamps⟩ := hw.durable p record hrec
  have hstill : (w.files p).content.length = record.sizeUnits →
      record.mtimeMs = (w.files p).mtimeMs ∧ record.etag = (w.files p).etag := by
    intro hsame
    cases hsettled record hrec with
    | inl hseen => exact hstamps.current hseen
    | inr hlonger => omega
  cases hrefuses with
  | shrank hbad =>
    simp only [SourceFile.describe] at hbad
    omega
  | etag hsame hdiffers =>
    simp [SourceFile.describe, (hstill hsame).2, differs_self] at hdiffers
  | mtime hsame hdiffers =>
    simp [SourceFile.describe, (hstill hsame).1, differs_self] at hdiffers
  | midRecord hmid => cases hboundary.symm.trans hmid

/-- What the plan skips has been committed to its end. -/
theorem skipped_exact (h : Inv env w) {paths : List String} {tasks : List FileTask}
    (hplan : w.durable.cursor.plan (paths.map fun p => (w.files p).describe p) = .ok tasks) :
    ∀ c ∈ w.skipped paths tasks, c.before ++ c.delivered = c.content := by
  intro c hc
  obtain ⟨p, hp, rfl⟩ := List.mem_map.mp hc
  obtain ⟨hlisted, hnot⟩ := List.mem_filter.mp hp
  have hfinished := finished_of_plan hplan ((w.files p).describe p)
    (List.mem_map.mpr ⟨p, hlisted, rfl⟩) (by simpa [SourceFile.describe] using hnot)
  obtain ⟨record, hrec, -, hdone⟩ := planFile_none hfinished
  rw [show ((w.files p).describe p).path = p from rfl] at hrec
  have hagree := h.durable p
  rw [hrec] at hagree
  rw [List.append_nil, hagree.bytes, hdone]
  exact List.take_length

theorem whole_list (h : Inv env w) (hw : Whole w) {paths : List String}
    (hsettled : ∀ p ∈ paths, Settled w p) : Whole (w.list paths) := by
  unfold World.list
  cases hplan : w.durable.cursor.plan (paths.map fun p => (w.files p).describe p) with
  | error e =>
    obtain ⟨listed, hlisted, hrefused⟩ := refused_of_plan hplan
    obtain ⟨p, hp, rfl⟩ := List.mem_map.mp hlisted
    exact absurd hrefused (planFile_accepts h hw (hsettled p hp) e)
  | ok tasks =>
    refine ⟨hw.content, hw.durable, ?_, ⟨hw.accepts.refusals, fun c hc => ?_⟩⟩
    · intro run hrun
      cases hrun
      refine ⟨hw.durable, fun task ht => ?_, fun reading hr => by cases hr⟩
      obtain ⟨listed, hlisted, hplanned⟩ := planned_of_plan hplan task ht
      obtain ⟨p, -, rfl⟩ := List.mem_map.mp hlisted
      have hpath : task.path = p := hplanned.path
      subst hpath
      exact ⟨Nat.le_refl _, fun _ => ⟨hplanned.mtime, hplanned.etag⟩⟩
    · cases List.mem_append.mp hc with
      | inl hold => exact hw.accepts.exact c hold
      | inr hnew => exact skipped_exact h hplan c hnew

/-! ## The steps of a run -/

theorem whole_run (hw : Whole w) {run' : Run} (hok : RunWhole w.files run')
    {completions : List Completion}
    (hexact : ∀ c ∈ completions, c.before ++ c.delivered = c.content) :
    Whole { w with run := some run', completions := completions } where
  content := hw.content
  durable := hw.durable
  run := fun next hnext => by
    cases hnext
    exact hok
  accepts := ⟨hw.accepts.refusals, hexact⟩

theorem whole_openNext (h : Inv env w) (hw : Whole w) (hrun : w.run = some run) :
    Whole (w.openNext env run) := by
  obtain ⟨-, hok⟩ := h.run run hrun
  obtain ⟨hchain, htasks, -⟩ := hw.run run hrun
  unfold World.openNext
  cases hreading : run.reading with
  | some reading => exact hw
  | none =>
    cases hnext : run.tasks with
    | nil => exact hw
    | cons task rest =>
      have htask : TaskOk env w.files run task := hok.tasks task (by simp [hnext])
      obtain ⟨reader, hopen, -, hseen⟩ := openTask_ok htask.start htask.check
      simp only [hopen]
      refine whole_run hw ?_ hw.accepts.exact
      refine ⟨hchain, fun other hother => ?_, fun reading hr => ?_⟩
      · exact htasks other (by simp [hnext, hother])
      · cases hr
        refine ⟨htasks task (by simp [hnext]), rfl, rfl, ?_⟩
        simp only [hseen]
        exact hw.content task.path

/-- At the end of a file that ends on a newline nothing unterminated is left. -/
theorem no_last {content slab : Bytes} {consumed : Nat} {seen : Bytes} (hseen : seen <+: content)
    (hwhole : EndsOn newline seen)
    (hslab : content.take (consumed + slab.length) = content.take consumed ++ slab)
    (hclean : newline ∉ slab) (hend : consumed + slab.length = seen.length) : slab = [] := by
  have hall : content.take (consumed + slab.length) = seen := by
    rw [hend]
    exact (List.prefix_iff_eq_take.mp hseen).symm
  rw [hall] at hslab
  rw [hslab] at hwhole
  exact hwhole.held_nil hclean

theorem whole_refuse (hw : Whole w) {e : Refusal} (he : e.tripwire = false) :
    Whole (w.refuse e) where
  content := hw.content
  durable := hw.durable
  run := fun run hrun => by cases hrun
  accepts := by
    refine ⟨fun e' he' => ?_, hw.accepts.exact⟩
    simp only [World.refuse, List.mem_append, List.mem_singleton] at he'
    cases he' with
    | inl hold => exact hw.accepts.refusals e' hold
    | inr hnew => rw [hnew]; exact he

theorem whole_pour (h : Inv env w) (hw : Whole w) (hrun : w.run = some run) {reading : Reading}
    (hr : run.reading = some reading) (n : Nat) : Whole (w.pour env run reading n) := by
  obtain ⟨-, hok⟩ := h.run run hrun
  have hread : ReadOk w.files run reading := hok.reading reading hr
  obtain ⟨hchain, htasks, hreading⟩ := hw.run run hrun
  obtain ⟨hstamped, hboundary, hmore, hwhole⟩ := hreading reading hr
  have hpass := next_passed hread.aligned hread.resting (fill_pos n)
  have hvisible := next_visible reading.slabs reading.reader
    (w.files reading.task.path).content (w.files reading.task.path).content
    (min (n + 1) slabBytes)
  unfold World.pour
  dsimp only
  generalize reading.slabs.next reading.reader (w.files reading.task.path).content
    (min (n + 1) slabBytes) = pass at hpass hvisible ⊢
  obtain ⟨next, slabs, reader⟩ := pass
  dsimp only at hpass hvisible ⊢
  cases hpass with
  | again _ _ hopen =>
    refine whole_run hw ?_ hw.accepts.exact
    refine ⟨hchain, htasks, fun next hnext => ?_⟩
    cases hnext
    refine ⟨hstamped, hboundary, hopen, ?_⟩
    rw [hvisible]
    exact hwhole
  | @lines slab _ _ _ _ _ hlast hopen =>
    dsimp only
    split
    · rename_i e he
      apply whole_refuse hw
      split at he
      · obtain ⟨offset, message, rfl⟩ := checkLinesFrom_error he
        rfl
      · cases he
    · refine whole_run hw ?_ hw.accepts.exact
      refine ⟨?_, htasks, fun next hnext => ?_⟩
      · apply hchain.snoc
        exact hchain.last.record (by simp [Reading.progress, Reading.consume, hlast]) hstamped
      · cases hnext
        refine ⟨hstamped, by simp [Reading.consume, hlast], hopen, ?_⟩
        simp only [Reading.consume]
        rw [hvisible]
        exact hwhole
  | @last slab _ _ _ _ hslab hclean hne hend _ =>
    exact absurd (no_last hread.aligned.visible hwhole hslab hclean hend) hne
  | ended _ _ hall =>
    have hconsumed := hall hmore
    have hsize := hread.size
    have hnot : ¬ reading.consumed < reading.task.sizeUnits := by omega
    simp only [hnot, if_false]
    apply whole_run hw
    · unfold Run.complete
      dsimp only
      split
      · exact ⟨hchain, htasks, fun next hnext => by cases hnext⟩
      · refine ⟨?_, htasks, fun next hnext => by cases hnext⟩
        apply hchain.snoc
        exact hchain.last.record hboundary hstamped
    · intro c hc
      cases List.mem_append.mp hc with
      | inl hold => exact hw.accepts.exact c hold
      | inr hnew =>
        rw [List.mem_singleton.mp hnew]
        dsimp only
        rw [← bytesOf_append, hread.bytes, hconsumed]
        exact (List.prefix_iff_eq_take.mp hread.aligned.visible).symm

theorem whole_commit (hw : Whole w) (hrun : w.run = some run) : Whole (w.commit run) := by
  obtain ⟨hchain, htasks, hreading⟩ := hw.run run hrun
  unfold World.commit
  cases hemitted : run.emitted with
  | nil => exact hw
  | cons e rest =>
    rw [hemitted] at hchain
    refine ⟨hw.content, hchain.1, fun next hnext => ?_, ⟨hw.accepts.refusals, hw.accepts.exact⟩⟩
    cases hnext
    refine ⟨hchain.2.commit, htasks, fun reading hr => ?_⟩
    obtain ⟨hstamped, hboundary, hmore, hwhole⟩ := hreading reading hr
    exact ⟨hstamped, hboundary, hmore, hwhole⟩

/-- Whole lines appended, and every listing settled: no run is refused. -/
theorem whole_step (w : World) (a : Act) (h : Inv env w ∧ Whole w)
    (hok : WholeRecords w a ∧ ListsSettled w a) :
    Inv env (step env w a) ∧ Whole (step env w a) := by
  obtain ⟨hinv, hw⟩ := h
  refine ⟨inv_step w a hinv, ?_⟩
  cases a with
  | append path bytes mtimeMs etag => exact whole_append hw etag hok.1.1
  | list paths =>
    simp only [step]
    cases hrun : w.run with
    | some run => exact hw
    | none =>
      by_cases hpaths : paths.Nodup
      · simp only [hpaths, if_true]
        exact whole_list hinv hw hok.2
      · simp only [hpaths, if_false]
        exact hw
  | openNext =>
    simp only [step]
    cases hrun : w.run with
    | none => exact hw
    | some run => exact whole_openNext hinv hw hrun
  | pour n =>
    simp only [step]
    cases hrun : w.run with
    | none => exact hw
    | some run =>
      dsimp only
      split
      · rename_i reading hr
        exact whole_pour hinv hw hrun hr n
      · exact hw
  | commit =>
    simp only [step]
    cases hrun : w.run with
    | none => exact hw
    | some run => exact whole_commit hw hrun
  | stop =>
    exact ⟨hw.content, hw.durable, (fun run hrun => by cases hrun),
      ⟨hw.accepts.refusals, hw.accepts.exact⟩⟩

theorem accepts_healthy_appends (env : Env) (files : String → SourceFile)
    (hfiles : ∀ p, EndsOn newline (files p).content) (acts : List Act)
    (hgrow : Meets (step env) WholeRecords (World.initial files) acts)
    (hsettled : Meets (step env) ListsSettled (World.initial files) acts) :
    AcceptsAppends (Transition.run (step env) (World.initial files) acts) := by
  have hboth : Inv env (Transition.run (step env) (World.initial files) acts) ∧
      Whole (Transition.run (step env) (World.initial files) acts) :=
    run_invariant whole_step ⟨inv_initial files, whole_initial hfiles⟩
      (meets_and hgrow hsettled)
  exact hboth.2.accepts

def plainEnv : Env := ⟨false, true, fun _ => "h", fun _ => none⟩

def emptyFiles : String → SourceFile := fun _ => ⟨[], some 1, none, 0⟩

/-- A run lists one line, a second line is appended, and the run reads both. -/
def appendedBehindListing : List Act :=
  [.append "f" [97, 10] (some 2) none, .list ["f"], .append "f" [98, 10] (some 3) none,
   .openNext, .pour 9, .pour 9, .commit, .stop]

set_option maxRecDepth 100000 in
theorem accepts_healthy_appends_grown :
    AcceptsAppends (Transition.run (step plainEnv) (World.initial emptyFiles)
      (appendedBehindListing ++ [.append "f" [99, 10] (some 4) none, .list ["f"], .openNext,
        .pour 9, .pour 9, .commit])) :=
  accepts_healthy_appends plainEnv emptyFiles (fun _ => EndsOn.nil newline) _
    (by decide) (by decide)

set_option maxRecDepth 100000 in
/-- With no further append, the next listing is refused as a rewrite. -/
theorem refuses_append_behind_listing :
    Meets (step plainEnv) WholeRecords (World.initial emptyFiles)
        (appendedBehindListing ++ [.list ["f"]]) ∧
      ¬ AcceptsAppends (Transition.run (step plainEnv) (World.initial emptyFiles)
        (appendedBehindListing ++ [.list ["f"]])) := by
  refine ⟨by decide, fun h => ?_⟩
  have hrefused : Refusal.mtimeRewritten "f" ∈ (Transition.run (step plainEnv)
      (World.initial emptyFiles) (appendedBehindListing ++ [.list ["f"]])).refusals := by decide
  exact absurd (h.refusals _ hrefused) (by decide)

end FileSource
