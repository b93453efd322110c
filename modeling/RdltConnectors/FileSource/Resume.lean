import RdltConnectors.FileSource.Runs

/-!
# Resuming exactly where the record says

Whatever is appended and wherever a run is cut off, the slabs committed of a file
are the beginning of it that its record speaks of, and the recorded hash is that of
the last bytes of this beginning. The same holds of every checkpoint a run has
handed out, which is why it does not matter which of them was the last to survive.
-/
namespace FileSource

open Framing Transition

/-- What a record says of its file, against the bytes committed of it. -/
structure Recorded (env : Env) (content committed : Bytes) (record : FileProgress) : Prop where
  bytes : committed = content.take record.doneUnits
  done_le : record.doneUnits ≤ record.sizeUnits
  size_le : record.sizeUnits ≤ content.length
  tail : record.tailHash = some (env.hexHash (lastOf tailWindow committed))
  groups : record.rowGroupsHash = none

def FileAgrees (env : Env) (content committed : Bytes) : Option FileProgress → Prop
  | none => committed = []
  | some record => Recorded env content committed record

def Agrees (env : Env) (files : String → SourceFile) (ledger : Ledger) (slabs : List Delivered) :
    Prop :=
  ∀ p, FileAgrees env (files p).content (bytesOf p slabs) (ledger.cursor.files p)

/-- Within a run, only the last slab of a file may lack its newline. -/
def LinesOk (slabs : List Delivered) : Prop :=
  slabs.Pairwise fun d d' => d.run = d'.run → d.path = d'.path → d.slab.getLast? = some newline

/-- `ok` at each open checkpoint, over the slabs up to it, and at the run's own cursor. -/
def Chain (ok : Ledger → List Delivered → Prop) :
    List Delivered → List Emission → Ledger → Prop
  | slabs, [], ledger => ok ledger slabs
  | slabs, e :: rest, ledger =>
    ok e.ledger (slabs ++ e.slab.toList) ∧ Chain ok (slabs ++ e.slab.toList) rest ledger

section Chain

variable {ok ok' : Ledger → List Delivered → Prop} {ledger : Ledger} {emitted : List Emission}
  {slabs : List Delivered}

theorem Chain.last (h : Chain ok slabs emitted ledger) : ok ledger (slabs ++ slabsOf emitted) := by
  induction emitted generalizing slabs with
  | nil => simpa [Chain] using h
  | cons e rest ih =>
    rw [slabsOf_cons, ← List.append_assoc]
    exact ih h.2

theorem Chain.mono (h : Chain ok slabs emitted ledger) (himp : ∀ l s, ok l s → ok' l s) :
    Chain ok' slabs emitted ledger := by
  induction emitted generalizing slabs with
  | nil => exact himp ledger slabs h
  | cons e rest ih => exact ⟨himp _ _ h.1, ih h.2⟩

/-- One more checkpoint at the end. -/
theorem Chain.snoc (h : Chain ok slabs emitted ledger) {slab : Option Delivered}
    {ledger' : Ledger} (hok : ok ledger' (slabs ++ slabsOf emitted ++ slab.toList)) :
    Chain ok slabs (emitted ++ [⟨slab, ledger'⟩]) ledger' := by
  induction emitted generalizing slabs with
  | nil =>
    rw [slabsOf_nil, List.append_nil] at hok
    exact ⟨hok, hok⟩
  | cons e rest ih =>
    rw [slabsOf_cons, ← List.append_assoc] at hok
    exact ⟨h.1, ih h.2 hok⟩

end Chain

/-! ## What holds of a run at every moment -/

structure TaskOk (env : Env) (files : String → SourceFile) (run : Run) (task : FileTask) :
    Prop where
  size : task.sizeUnits ≤ (files task.path).content.length
  start : task.start ≤ (files task.path).content.length
  bytes : bytesOf task.path (run.base ++ run.fed) = (files task.path).content.take task.start
  check : task.resumeCheck = none ∨ ∃ hash, task.resumeCheck = some (.tailBytes
    (min task.start tailWindow) hash) ∧
    hash = env.hexHash (lastOf tailWindow ((files task.path).content.take task.start))
  untouched : ∀ d ∈ run.fed, d.path ≠ task.path

structure ReadOk (files : String → SourceFile) (run : Run) (reading : Reading) : Prop where
  size : reading.task.sizeUnits ≤
    (reading.reader.visible (files reading.task.path).content).length
  bytes : bytesOf reading.task.path (run.base ++ run.fed) =
    (files reading.task.path).content.take reading.consumed
  aligned : Aligned (files reading.task.path).content reading.consumed reading.slabs
    reading.reader
  resting : Resting reading.slabs
  tail : reading.tail =
    lastOf tailWindow ((files reading.task.path).content.take reading.consumed)
  lines : reading.slabs.finished = false →
    ∀ d ∈ run.fed, d.path = reading.task.path → d.slab.getLast? = some newline

def Run.paths (run : Run) : List String :=
  run.reading.toList.map (·.task.path) ++ run.tasks.map (·.path)

structure RunOk (env : Env) (files : String → SourceFile) (committed : List Delivered)
    (run : Run) : Prop where
  chain : Chain (Agrees env files) committed run.emitted run.ledger
  same : committed ++ slabsOf run.emitted = run.base ++ run.fed
  before : ∀ d ∈ run.base, d.run < run.id
  during : ∀ d ∈ run.fed, d.run = run.id
  nodup : run.paths.Nodup
  tasks : ∀ task ∈ run.tasks, TaskOk env files run task
  reading : ∀ reading, run.reading = some reading → ReadOk files run reading
  lines : LinesOk (run.base ++ run.fed)

structure Inv (env : Env) (w : World) : Prop where
  durable : Agrees env w.files w.durable w.committed
  lines : LinesOk w.committed
  runs : ∀ d ∈ w.committed, d.run < w.runs
  run : ∀ run, w.run = some run → run.id < w.runs ∧ RunOk env w.files w.committed run
  trusted : ∀ path start, Refusal.prefixRewritten path start ∉ w.refusals

variable {env : Env} {files : String → SourceFile} {w : World} {run : Run}

theorem inv_initial (files : String → SourceFile) : Inv env (World.initial files) where
  durable := fun p => by simp [World.initial, FileCursor.empty, FileAgrees]
  lines := List.Pairwise.nil
  runs := by simp [World.initial]
  run := by simp [World.initial]
  trusted := by simp [World.initial]

/-! ## Appends -/

theorem FileAgrees.append {content committed : Bytes} {record : Option FileProgress}
    (h : FileAgrees env content committed record) (more : Bytes) :
    FileAgrees env (content ++ more) committed record := by
  cases record with
  | none => exact h
  | some record =>
    have hdone : record.doneUnits ≤ content.length := Nat.le_trans h.done_le h.size_le
    refine ⟨?_, h.done_le, ?_, h.tail, h.groups⟩
    · rw [List.take_append_of_le_length hdone]
      exact h.bytes
    · rw [List.length_append]
      exact Nat.le_trans h.size_le (Nat.le_add_right _ _)

/-- Every file only grows. -/
def Grown (files files' : String → SourceFile) : Prop :=
  ∀ p, ∃ more, (files' p).content = (files p).content ++ more

theorem Agrees.grown {files' : String → SourceFile} {ledger : Ledger} {slabs : List Delivered}
    (h : Agrees env files ledger slabs) (hg : Grown files files') :
    Agrees env files' ledger slabs := by
  intro p
  obtain ⟨more, hmore⟩ := hg p
  rw [hmore]
  exact (h p).append more

theorem TaskOk.grown {files' : String → SourceFile} {task : FileTask}
    (h : TaskOk env files run task) (hg : Grown files files') : TaskOk env files' run task := by
  obtain ⟨more, hmore⟩ := hg task.path
  have hstart := h.start
  constructor
  · rw [hmore, List.length_append]
    exact Nat.le_trans h.size (Nat.le_add_right _ _)
  · rw [hmore, List.length_append]
    exact Nat.le_trans h.start (Nat.le_add_right _ _)
  · rw [hmore, List.take_append_of_le_length hstart]
    exact h.bytes
  · rw [hmore, List.take_append_of_le_length hstart]
    exact h.check
  · exact h.untouched

theorem ReadOk.grown {files' : String → SourceFile} {reading : Reading}
    (h : ReadOk files run reading) (hg : Grown files files') : ReadOk files' run reading := by
  obtain ⟨more, hmore⟩ := hg reading.task.path
  have hconsumed := h.aligned.consumed_le
  constructor
  · rw [hmore]
    apply Nat.le_trans h.size
    cases reading.reader with
    | localFile pos => simp [ByteReader.visible]
    | s3 body pos => exact Nat.le_refl _
  · rw [hmore, List.take_append_of_le_length hconsumed]
    exact h.bytes
  · rw [hmore]
    exact h.aligned.append more
  · exact h.resting
  · rw [hmore, List.take_append_of_le_length hconsumed]
    exact h.tail
  · exact h.lines

theorem grown_append (w : World) (path : String) (bytes : Bytes) (mtimeMs : Option Nat)
    (etag : Option String) : Grown w.files (w.append path bytes mtimeMs etag).files := by
  intro p
  by_cases hp : p = path
  · exact ⟨bytes, by simp [World.append, hp]⟩
  · exact ⟨[], by simp [World.append, hp]⟩

theorem inv_append (h : Inv env w) (path : String) (bytes : Bytes) (mtimeMs : Option Nat)
    (etag : Option String) : Inv env (w.append path bytes mtimeMs etag) := by
  have hg : Grown w.files (w.append path bytes mtimeMs etag).files :=
    grown_append w path bytes mtimeMs etag
  refine ⟨h.durable.grown hg, h.lines, h.runs, ?_, h.trusted⟩
  intro run hrun
  obtain ⟨hid, hok⟩ := h.run run hrun
  refine ⟨hid, ?_⟩
  exact {
    chain := hok.chain.mono fun ledger slabs ha => ha.grown hg
    same := hok.same
    before := hok.before
    during := hok.during
    nodup := hok.nodup
    tasks := fun task ht => (hok.tasks task ht).grown hg
    reading := fun reading hr => (hok.reading reading hr).grown hg
    lines := hok.lines }

/-! ## Beginning a run -/

/-- A record that agrees gives exactly the check that its file passes. -/
theorem check_of_recorded {content committed : Bytes} {record : FileProgress}
    (h : Recorded env content committed record) :
    resumeCheckFor record = none ∨ ∃ hash, resumeCheckFor record = some (.tailBytes
      (min record.doneUnits tailWindow) hash) ∧
      hash = env.hexHash (lastOf tailWindow (content.take record.doneUnits)) := by
  unfold resumeCheckFor
  by_cases hzero : record.doneUnits = 0
  · simp [hzero]
  · simp only [hzero, if_false, h.tail, h.groups]
    exact .inr ⟨_, rfl, by rw [h.bytes]⟩

theorem planned_start {ledger : Ledger} {slabs : List Delivered} {p : String} {task : FileTask}
    (h : Agrees env files ledger slabs)
    (hplan : Planned ledger.cursor ((files p).describe p) task) :
    task.path = p ∧ task.start ≤ (files p).content.length ∧
      bytesOf p slabs = (files p).content.take task.start ∧
      (task.resumeCheck = none ∨ ∃ hash, task.resumeCheck = some (.tailBytes
        (min task.start tailWindow) hash) ∧
        hash = env.hexHash (lastOf tailWindow ((files p).content.take task.start))) := by
  have hagree := h p
  obtain ⟨hnone, hstart, hcheck⟩ | ⟨record, hrec, hstart, hcheck, -⟩ := hplan.resumes
  · rw [show ((files p).describe p).path = p from rfl] at hnone
    rw [hnone] at hagree
    refine ⟨hplan.path, by omega, ?_, .inl hcheck⟩
    rw [hstart, List.take_zero]
    exact hagree
  · rw [show ((files p).describe p).path = p from rfl] at hrec
    rw [hrec] at hagree
    refine ⟨hplan.path, ?_, ?_, ?_⟩
    · rw [hstart]
      exact Nat.le_trans hagree.done_le hagree.size_le
    · rw [hstart]
      exact hagree.bytes
    · rw [hstart, hcheck]
      exact check_of_recorded hagree

theorem inv_list (h : Inv env w) {paths : List String} (hpaths : paths.Nodup)
    (hidle : w.run = none) : Inv env (w.list paths) := by
  have hruns : ∀ d ∈ w.committed, d.run < w.runs + 1 := fun d hd =>
    Nat.lt_succ_of_lt (h.runs d hd)
  unfold World.list
  cases hplan : w.durable.cursor.plan (paths.map fun p => (w.files p).describe p) with
  | error e =>
    refine ⟨h.durable, h.lines, hruns, ?_, ?_⟩
    · intro run hrun
      exact nomatch hidle.symm.trans hrun
    · intro path start hmem
      simp only [List.mem_append, List.mem_singleton] at hmem
      cases hmem with
      | inl hold => exact h.trusted path start hold
      | inr hnew =>
        obtain ⟨listed, -, hrefused⟩ := refused_of_plan hplan
        obtain ⟨record, -, hrefuses⟩ := planFile_error hrefused
        rw [← hnew] at hrefuses
        cases hrefuses
  | ok tasks =>
    refine ⟨h.durable, h.lines, hruns, ?_, h.trusted⟩
    intro run hrun
    simp only [Option.some.injEq] at hrun
    subst hrun
    refine ⟨Nat.lt_succ_self _, ?_⟩
    exact {
      chain := h.durable
      same := rfl
      before := h.runs
      during := fun d hd => nomatch hd
      nodup := by
        have hsub := plan_paths_sublist hplan
        rw [List.map_map] at hsub
        exact (by simpa [Function.comp_def, SourceFile.describe] using hsub :
          (tasks.map (·.path)).Sublist paths).nodup hpaths
      tasks := by
        intro task ht
        obtain ⟨listed, hlisted, hplanned⟩ := planned_of_plan hplan task ht
        obtain ⟨p, -, rfl⟩ := List.mem_map.mp hlisted
        obtain ⟨hpath, hstart, hbytes, hcheck⟩ := planned_start h.durable hplanned
        subst hpath
        refine ⟨?_, hstart, ?_, hcheck, fun d hd => nomatch hd⟩
        · rw [hplanned.size]
          exact Nat.le_refl _
        · rw [List.append_nil]
          exact hbytes
      reading := fun reading hr => nomatch hr
      lines := by
        rw [List.append_nil]
        exact h.lines }

/-! ## The steps of a run -/

theorem inv_refuse (h : Inv env w) {e : Refusal}
    (he : ∀ path start, e ≠ .prefixRewritten path start) : Inv env (w.refuse e) where
  durable := h.durable
  lines := h.lines
  runs := h.runs
  run := fun run hrun => nomatch hrun
  trusted := by
    intro path start hmem
    simp only [World.refuse, List.mem_append, List.mem_singleton] at hmem
    cases hmem with
    | inl hold => exact h.trusted path start hold
    | inr hnew => exact he path start hnew.symm

/-- A run that has changed goes on from where the invariant put it. -/
theorem inv_run (h : Inv env w) {run run' : Run} (hrun : w.run = some run)
    (hid : run'.id = run.id) (hok : RunOk env w.files w.committed run')
    (completions : List Completion) :
    Inv env { w with run := some run', completions := completions } where
  durable := h.durable
  lines := h.lines
  runs := h.runs
  run := by
    intro next hnext
    cases hnext
    exact ⟨hid ▸ (h.run run hrun).1, hok⟩
  trusted := h.trusted

theorem inv_openNext (h : Inv env w) (hrun : w.run = some run) : Inv env (w.openNext env run) := by
  obtain ⟨-, hok⟩ := h.run run hrun
  unfold World.openNext
  cases hreading : run.reading with
  | some reading => exact h
  | none =>
    cases htasks : run.tasks with
    | nil => exact h
    | cons task rest =>
      have htask : TaskOk env w.files run task := hok.tasks task (by simp [htasks])
      obtain ⟨reader, hopen, haligned, hseen⟩ := openTask_ok htask.start htask.check
      have hvisible : task.sizeUnits ≤
          (reader.visible (w.files task.path).content).length := by
        rw [hseen]
        exact htask.size
      have hpaths : (task.path :: rest.map (·.path)).Nodup := by
        simpa [Run.paths, hreading, htasks] using hok.nodup
      simp only [hopen]
      refine inv_run h hrun (by rfl) ?_ w.completions
      exact {
        chain := hok.chain
        same := hok.same
        before := hok.before
        during := hok.during
        nodup := hpaths
        tasks := by
          intro other hother
          obtain ⟨hsize, hstart, hbytes, hcheck, huntouched⟩ :=
            hok.tasks other (by simp [htasks, hother])
          exact ⟨hsize, hstart, hbytes, hcheck, huntouched⟩
        reading := by
          intro reading hr
          cases hr
          refine ⟨hvisible, htask.bytes, haligned, .new, ?_,
            fun _ d hd hpath => absurd hpath (htask.untouched d hd)⟩
          dsimp only
        lines := hok.lines }

/-- A slab of whole lines may be followed by another of the same file. -/
theorem LinesOk.snoc {slabs : List Delivered} (h : LinesOk slabs) {d : Delivered}
    (hd : ∀ d' ∈ slabs, d'.run = d.run → d'.path = d.path → d'.slab.getLast? = some newline) :
    LinesOk (slabs ++ [d]) := by
  apply List.pairwise_append.mpr
  refine ⟨h, List.pairwise_singleton _ _, fun d' hd' x hx => ?_⟩
  rw [List.mem_singleton.mp hx]
  exact hd d' hd'

/-- Feeding a slab extends what is committed of its file and of no other. -/
theorem runOk_emit {committed : List Delivered} {reading : Reading} {slab : Bytes}
    {slabs : Slabs} {reader : ByteReader} (hok : RunOk env files committed run)
    (hr : run.reading = some reading) (hopen : reading.slabs.finished = false)
    (haligned : Aligned (files reading.task.path).content (reading.consumed + slab.length) slabs
      reader) (hrest : Resting slabs)
    (hvisible : reader.visible (files reading.task.path).content =
      reading.reader.visible (files reading.task.path).content)
    (hslab : (files reading.task.path).content.take (reading.consumed + slab.length) =
      (files reading.task.path).content.take reading.consumed ++ slab)
    (hend : slabs.finished = false → slab.getLast? = some newline) :
    RunOk env files committed
      (run.emit env ({ reading with slabs := slabs, reader := reader }.consume slab) slab) := by
  have hread : ReadOk files run reading := hok.reading reading hr
  have hconsumed : reading.consumed + slab.length ≤ (files reading.task.path).content.length :=
    haligned.consumed_le
  have hbytes : bytesOf reading.task.path (run.base ++ run.fed ++
      [⟨run.id, reading.task.path, slab⟩]) =
      (files reading.task.path).content.take (reading.consumed + slab.length) := by
    rw [bytesOf_append, hread.bytes, bytesOf_same, hslab]
  have htail : foldIntoTail reading.tail slab = lastOf tailWindow
      ((files reading.task.path).content.take (reading.consumed + slab.length)) := by
    rw [hread.tail, foldIntoTail_lastOf, hslab]
  have hpaths : (reading.task.path :: run.tasks.map (·.path)).Nodup := by
    simpa [Run.paths, hr] using hok.nodup
  have hother : ∀ task ∈ run.tasks, task.path ≠ reading.task.path := by
    intro task ht heq
    exact (List.nodup_cons.mp hpaths).1 (heq ▸ List.mem_map.mpr ⟨task, ht, rfl⟩)
  constructor
  case chain =>
    apply hok.chain.snoc
    rw [hok.same]
    intro p
    by_cases hp : p = reading.task.path
    · subst hp
      simp only [Ledger.record, Reading.consume, record_same, Option.toList_some,
        Reading.progress]
      refine ⟨hbytes, Nat.le_max_right _ _, ?_, ?_, rfl⟩
      · have hsize : reading.task.sizeUnits ≤ (files reading.task.path).content.length :=
          Nat.le_trans hread.size hread.aligned.visible.length_le
        exact Nat.max_le.mpr ⟨hsize, hconsumed⟩
      · rw [htail, hbytes]
    · have hbefore : FileAgrees env (files p).content (bytesOf p (run.base ++ run.fed))
          (run.ledger.cursor.files p) := by
        have hlast := hok.chain.last p
        rwa [hok.same] at hlast
      simp only [Ledger.record, Reading.consume, record_other _ _ hp,
        Option.toList_some, bytesOf_append, bytesOf_other slab hp, List.append_nil]
      simpa only [bytesOf_append] using hbefore
  case same =>
    simp only [Run.emit, Reading.consume, slabsOf_append, slabsOf_cons, slabsOf_nil,
      Option.toList_some, List.append_nil]
    rw [← List.append_assoc, hok.same, List.append_assoc]
  case before => exact hok.before
  case during =>
    intro d hd
    simp only [Run.emit, Reading.consume, List.mem_append, List.mem_singleton] at hd
    cases hd with
    | inl hold => exact hok.during d hold
    | inr hnew => rw [hnew]; rfl
  case nodup => exact hpaths
  case tasks =>
    intro task ht
    obtain ⟨hsize, hstart, hfed, hcheck, huntouched⟩ := hok.tasks task ht
    refine ⟨hsize, hstart, ?_, hcheck, ?_⟩
    · simp only [Run.emit, Reading.consume, bytesOf_append, bytesOf_other slab (hother task ht),
        List.append_nil]
      simpa only [bytesOf_append] using hfed
    · intro d hd
      simp only [Run.emit, Reading.consume, List.mem_append, List.mem_singleton] at hd
      cases hd with
      | inl hold => exact huntouched d hold
      | inr hnew => rw [hnew]; exact (hother task ht).symm
  case reading =>
    intro next hnext
    cases hnext
    refine ⟨?_, ?_, haligned, hrest, htail, ?_⟩
    · simp only [Reading.consume]
      rw [hvisible]
      exact hread.size
    · simp only [Run.emit, Reading.consume]
      rw [← List.append_assoc]
      exact hbytes
    · intro hfin d hd hpath
      simp only [Run.emit, Reading.consume, List.mem_append, List.mem_singleton] at hd
      cases hd with
      | inl hold => exact hread.lines hopen d hold hpath
      | inr hnew => rw [hnew]; exact hend hfin
  case lines =>
    simp only [Run.emit, Reading.consume]
    rw [← List.append_assoc]
    apply hok.lines.snoc
    intro d hd hid hpath
    cases List.mem_append.mp hd with
    | inl hbase => exact absurd hid (Nat.ne_of_lt (hok.before d hbase))
    | inr hfed => exact hread.lines hopen d hfed hpath

/-- The completion checkpoint commits nothing and records the size that was read. -/
theorem runOk_complete {committed : List Delivered} {reading : Reading}
    (hok : RunOk env files committed run) (hr : run.reading = some reading) :
    RunOk env files committed (run.complete env reading) := by
  have hread : ReadOk files run reading := hok.reading reading hr
  have hpaths : (reading.task.path :: run.tasks.map (·.path)).Nodup := by
    simpa [Run.paths, hr] using hok.nodup
  have hrest : (run.tasks.map (·.path)).Nodup := (List.nodup_cons.mp hpaths).2
  have htasks : ∀ task ∈ run.tasks, TaskOk env files { run with reading := none } task := by
    intro task ht
    obtain ⟨hsize, hstart, hbytes, hcheck, huntouched⟩ := hok.tasks task ht
    exact ⟨hsize, hstart, hbytes, hcheck, huntouched⟩
  unfold Run.complete
  by_cases hsame : run.ledger.cursor.files reading.task.path =
      some (reading.progress env reading.consumed)
  · simp only [hsame, if_true]
    exact ⟨hok.chain, hok.same, hok.before, hok.during, hrest, htasks,
      (fun next hnext => nomatch hnext), hok.lines⟩
  · simp only [hsame, if_false]
    refine ⟨?_, ?_, hok.before, hok.during, hrest, ?_, (fun next hnext => nomatch hnext),
      hok.lines⟩
    · apply hok.chain.snoc
      rw [hok.same, Option.toList_none, List.append_nil]
      intro p
      have hlast := hok.chain.last p
      rw [hok.same] at hlast
      by_cases hp : p = reading.task.path
      · subst hp
        simp only [Ledger.record, record_same, Reading.progress]
        refine ⟨hread.bytes, Nat.le_refl _, hread.aligned.consumed_le, ?_, rfl⟩
        rw [hread.tail, hread.bytes]
      · simp only [Ledger.record, record_other _ _ hp]
        exact hlast
    · simp only [slabsOf_append, slabsOf_cons, slabsOf_nil, Option.toList_none, List.append_nil]
      exact hok.same
    · intro task ht
      obtain ⟨hsize, hstart, hbytes, hcheck, huntouched⟩ := hok.tasks task ht
      exact ⟨hsize, hstart, hbytes, hcheck, huntouched⟩

theorem fill_pos (n : Nat) : 0 < min (n + 1) slabBytes := by
  have hslab : 0 < slabBytes := by simp [slabBytes]
  omega

theorem readOk_again {reading : Reading} (h : ReadOk files run reading) {slabs : Slabs}
    {reader : ByteReader}
    (haligned : Aligned (files reading.task.path).content reading.consumed slabs reader)
    (hrest : Resting slabs)
    (hvisible : reader.visible (files reading.task.path).content =
      reading.reader.visible (files reading.task.path).content)
    (hopen : reading.slabs.finished = false) :
    ReadOk files run { reading with slabs := slabs, reader := reader } := by
  obtain ⟨hsize, hbytes, -, -, htail, hlines⟩ := h
  refine ⟨?_, hbytes, haligned, hrest, htail, fun _ => hlines hopen⟩
  simp only [hvisible]
  exact hsize

/-- One pass moves the reader, not what it can see. -/
theorem next_visible (slabs : Slabs) (reader : ByteReader) (content seen : Bytes) (n : Nat) :
    (slabs.next reader content n).2.2.visible seen = reader.visible seen := by
  unfold Slabs.next
  split
  · rfl
  · split
    · rfl
    · dsimp only
      split
      · simp [ByteReader.readFull]
      · simp [ByteReader.readFull]

/-- Only an open stream has more to give. -/
theorem open_of_next (slabs : Slabs) (reader : ByteReader) (content : Bytes) (n : Nat)
    (h : (slabs.next reader content n).1 ≠ .ended) : slabs.finished = false := by
  cases hfin : slabs.finished with
  | false => rfl
  | true => simp [Slabs.next, hfin] at h

theorem inv_pour (h : Inv env w) (hrun : w.run = some run) {reading : Reading}
    (hr : run.reading = some reading) (n : Nat) : Inv env (w.pour env run reading n) := by
  obtain ⟨-, hok⟩ := h.run run hrun
  have hread : ReadOk w.files run reading := hok.reading reading hr
  have hpass := next_passed hread.aligned hread.resting (fill_pos n)
  have hvisible := next_visible reading.slabs reading.reader
    (w.files reading.task.path).content (w.files reading.task.path).content
    (min (n + 1) slabBytes)
  have hopen := open_of_next reading.slabs reading.reader
    (w.files reading.task.path).content (min (n + 1) slabBytes)
  unfold World.pour
  dsimp only
  generalize reading.slabs.next reading.reader (w.files reading.task.path).content
    (min (n + 1) slabBytes) = pass at hpass hvisible hopen ⊢
  obtain ⟨next, slabs, reader⟩ := pass
  dsimp only at hpass hvisible hopen ⊢
  cases hpass with
  | again haligned hrest _ =>
    have hfin : reading.slabs.finished = false := hopen (by simp)
    refine inv_run h hrun (by rfl) ?_ w.completions
    refine ⟨hok.chain, hok.same, hok.before, hok.during, ?_, ?_, ?_, hok.lines⟩
    · simpa [Run.paths, hr] using hok.nodup
    · intro task ht
      obtain ⟨hsize, hstart, hbytes, hcheck, huntouched⟩ := hok.tasks task ht
      exact ⟨hsize, hstart, hbytes, hcheck, huntouched⟩
    · intro next hnext
      cases hnext
      have hkept := readOk_again hread haligned hrest hvisible hfin
      exact ⟨hkept.size, hkept.bytes, hkept.aligned, hkept.resting, hkept.tail, hkept.lines⟩
  | @lines slab _ _ haligned hrest hslab hlast _ =>
    have hfin : reading.slabs.finished = false := hopen (by simp)
    dsimp only
    split
    · rename_i e he
      apply inv_refuse h
      rintro path start rfl
      split at he
      · obtain ⟨offset, message, hmalformed⟩ := checkLinesFrom_error he
        cases hmalformed
      · cases he
    · refine inv_run h hrun (by rfl) ?_ w.completions
      exact runOk_emit hok hr hfin haligned hrest hvisible hslab fun _ => hlast
  | @last slab _ _ haligned hrest hslab _ _ _ hdone =>
    have hfin : reading.slabs.finished = false := hopen (by simp)
    dsimp only
    split
    · rename_i e he
      apply inv_refuse h
      rintro path start rfl
      split at he
      · obtain ⟨offset, message, hmalformed⟩ := checkLinesFrom_error he
        cases hmalformed
      · cases he
    · refine inv_run h hrun (by rfl) ?_ w.completions
      exact runOk_emit hok hr hfin haligned hrest hvisible hslab
        fun hopen => nomatch hdone.symm.trans hopen
  | ended _ _ _ =>
    dsimp only
    split
    · exact inv_refuse h fun path start he => nomatch he
    · have hid : (run.complete env reading).id = run.id := by
        unfold Run.complete
        dsimp only
        split <;> rfl
      exact inv_run h hrun hid (runOk_complete hok hr) _

theorem inv_commit (h : Inv env w) (hrun : w.run = some run) : Inv env (w.commit run) := by
  obtain ⟨hid, hok⟩ := h.run run hrun
  unfold World.commit
  cases hemitted : run.emitted with
  | nil => exact h
  | cons e rest =>
    have hchain := hok.chain
    have hsame := hok.same
    rw [hemitted] at hchain hsame
    rw [slabsOf_cons, ← List.append_assoc] at hsame
    refine ⟨hchain.1, ?_, ?_, ?_, h.trusted⟩
    · have hlines := hok.lines
      rw [← hsame] at hlines
      exact (List.pairwise_append.mp hlines).1
    · intro d hd
      have hmem : d ∈ run.base ++ run.fed := by
        rw [← hsame]
        exact List.mem_append_left _ hd
      cases List.mem_append.mp hmem with
      | inl hbase =>
        have hless := hok.before d hbase
        dsimp only
        omega
      | inr hfed =>
        have hmine := hok.during d hfed
        dsimp only
        omega
    · intro next hnext
      cases hnext
      refine ⟨hid, hchain.2, hsame, hok.before, hok.during, hok.nodup, ?_, ?_, hok.lines⟩
      · intro task ht
        obtain ⟨hsize, hstart, hbytes, hcheck, huntouched⟩ := hok.tasks task ht
        exact ⟨hsize, hstart, hbytes, hcheck, huntouched⟩
      · intro reading hr
        obtain ⟨hsize, hbytes, haligned, hrest, htail, hlines⟩ := hok.reading reading hr
        exact ⟨hsize, hbytes, haligned, hrest, htail, hlines⟩

/-- Every step keeps the invariant. -/
theorem inv_step (w : World) (a : Act) (h : Inv env w) : Inv env (step env w a) := by
  cases a with
  | append path bytes mtimeMs etag => exact inv_append h path bytes mtimeMs etag
  | list paths =>
    simp only [step]
    cases hrun : w.run with
    | some run => exact h
    | none =>
      by_cases hpaths : paths.Nodup
      · simp only [hpaths, if_true]
        exact inv_list h hpaths hrun
      · simp only [hpaths, if_false]
        exact h
  | openNext =>
    simp only [step]
    cases hrun : w.run with
    | none => exact h
    | some run => exact inv_openNext h hrun
  | pour n =>
    simp only [step]
    cases hrun : w.run with
    | none => exact h
    | some run =>
      dsimp only
      split
      · rename_i reading hr
        exact inv_pour h hrun hr n
      · exact h
  | commit =>
    simp only [step]
    cases hrun : w.run with
    | none => exact h
    | some run => exact inv_commit h hrun
  | stop => exact ⟨h.durable, h.lines, h.runs, (fun run hrun => nomatch hrun), h.trusted⟩

/-- What the committed slabs of a file are, against its record; a record's hash is
that of the last `min done 4096` bytes of what it stands for. -/
structure ExactlyOnce (env : Env) (w : World) : Prop where
  unrecorded : ∀ p, w.durable.cursor.files p = none → bytesOf p w.committed = []
  exact : ∀ p record, w.durable.cursor.files p = some record →
    record.doneUnits ≤ (w.files p).content.length ∧
      bytesOf p w.committed = (w.files p).content.take record.doneUnits
  tail : ∀ p record, w.durable.cursor.files p = some record →
    record.tailHash = some (env.hexHash (((w.files p).content.take record.doneUnits).drop
      (record.doneUnits - min record.doneUnits tailWindow)))
  lines : LinesOk w.committed
  trusted : ∀ path start, Refusal.prefixRewritten path start ∉ w.refusals

theorem Inv.exactlyOnce (h : Inv env w) : ExactlyOnce env w where
  unrecorded := by
    intro p hnone
    have hagree := h.durable p
    rw [hnone] at hagree
    exact hagree
  exact := by
    intro p record hrec
    have hagree := h.durable p
    rw [hrec] at hagree
    exact ⟨Nat.le_trans hagree.done_le hagree.size_le, hagree.bytes⟩
  tail := by
    intro p record hrec
    have hagree := h.durable p
    rw [hrec] at hagree
    have hdone : record.doneUnits ≤ (w.files p).content.length :=
      Nat.le_trans hagree.done_le hagree.size_le
    have hspan : record.doneUnits - min record.doneUnits tailWindow =
        record.doneUnits - tailWindow := by omega
    rw [hagree.tail, hagree.bytes, lastOf, List.length_take, Nat.min_eq_left hdone, hspan]
  lines := h.lines
  trusted := h.trusted

/-- Over every history of appends, runs, slab cuts, commits and crashes, what is
committed of a file is exactly what its record says. -/
theorem resume_exactly_once (env : Env) (files : String → SourceFile) (acts : List Act) :
    ExactlyOnce env (Transition.run (step env) (World.initial files) acts) := by
  have hinv : Inv env (Transition.run (step env) (World.initial files) acts) :=
    run_invariant_always (Inv env) inv_step (inv_initial files) acts
  exact hinv.exactlyOnce

end FileSource
