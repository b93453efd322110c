import RdltConnectors.FileSource.Jsonl
import RdltConnectors.Library.Transition

/-!
# Runs over a directory of growing files

Files are appended to at any time. A run lists some of them, plans its tasks from
the last committed cursor, and reads one task after another; each slab is followed
by a checkpoint. The host commits the checkpoints in order, each with the slab in
front of it, as late as it likes, and a run may stop or die at any point. Beside
what the code has, the world keeps the histories that the statements are about.
-/
namespace FileSource

open Framing Transition

/-- `appends` counts the appends so far; no operation reads it. -/
structure SourceFile where
  content : Bytes
  mtimeMs : Option Nat
  etag : Option String
  appends : Nat
  deriving DecidableEq, Repr

def SourceFile.describe (file : SourceFile) (path : String) : FileMeta :=
  ⟨path, file.content.length, file.mtimeMs, file.etag⟩

/-- A slab on its way to the destination, under the run that read it. -/
structure Delivered where
  run : Nat
  path : String
  slab : Bytes
  deriving DecidableEq, Repr

def bytesOf (path : String) (slabs : List Delivered) : Bytes :=
  ((slabs.filter fun d => d.path = path).map (·.slab)).flatten

@[simp] theorem bytesOf_nil (path : String) : bytesOf path [] = [] := rfl

@[simp] theorem bytesOf_append (path : String) (first second : List Delivered) :
    bytesOf path (first ++ second) = bytesOf path first ++ bytesOf path second := by
  simp [bytesOf]

@[simp] theorem bytesOf_same (run : Nat) (path : String) (slab : Bytes) :
    bytesOf path [⟨run, path, slab⟩] = slab := by simp [bytesOf]

theorem bytesOf_other {run : Nat} {path p : String} (slab : Bytes) (h : p ≠ path) :
    bytesOf p [⟨run, path, slab⟩] = [] := by simp [bytesOf, Ne.symm h]

/-- A cursor and, for each file on record, how many appends had been made when the
run behind the record listed it. The code keeps no such number. -/
structure Ledger where
  cursor : FileCursor
  seen : String → Nat

def Ledger.record (ledger : Ledger) (path : String) (progress : FileProgress) (appends : Nat) :
    Ledger :=
  ⟨ledger.cursor.record path progress, fun p => if p = path then appends else ledger.seen p⟩

/-- A checkpoint handed to the host, with the slab fed since the one before. -/
structure Emission where
  slab : Option Delivered
  ledger : Ledger

def slabsOf (emitted : List Emission) : List Delivered := emitted.flatMap fun e => e.slab.toList

@[simp] theorem slabsOf_nil : slabsOf [] = [] := rfl

@[simp] theorem slabsOf_append (first second : List Emission) :
    slabsOf (first ++ second) = slabsOf first ++ slabsOf second := by simp [slabsOf]

@[simp] theorem slabsOf_cons (e : Emission) (rest : List Emission) :
    slabsOf (e :: rest) = e.slab.toList ++ slabsOf rest := rfl

/-- `base` is what was committed when the run began and `fed` what it has fed since. -/
structure Run where
  id : Nat
  tasks : List FileTask
  reading : Option Reading
  ledger : Ledger
  seen : String → Nat
  emitted : List Emission
  base : List Delivered
  fed : List Delivered

/-- One file a run has come to the end of: what was committed of it when the run
began, what the run fed of it, and what the run could see of it at the end. -/
structure Completion where
  path : String
  before : Bytes
  delivered : Bytes
  content : Bytes
  deriving DecidableEq, Repr

structure World where
  files : String → SourceFile
  durable : Ledger
  committed : List Delivered
  runs : Nat
  run : Option Run
  refusals : List Refusal
  completions : List Completion

def World.initial (files : String → SourceFile) : World :=
  ⟨files, ⟨.empty, fun _ => 0⟩, [], 0, none, [], []⟩

inductive Act where
  /-- bytes are appended to a file, which gives it new stamps -/
  | append (path : String) (bytes : Bytes) (mtimeMs : Option Nat) (etag : Option String)
  /-- a run lists these files and plans its tasks -/
  | list (paths : List String)
  /-- the run opens its next task -/
  | openNext
  /-- one pass over the open file, with a fill of at most `n + 1` bytes -/
  | pour (n : Nat)
  /-- the host makes the oldest open checkpoint durable -/
  | commit
  /-- the run ends, is cancelled, or dies -/
  | stop
  deriving DecidableEq, Repr

def World.refuse (w : World) (e : Refusal) : World :=
  { w with run := none, refusals := w.refusals ++ [e] }

/-- The listed files that the plan found finished. -/
def World.skipped (w : World) (paths : List String) (tasks : List FileTask) : List Completion :=
  (paths.filter fun p => p ∉ tasks.map (·.path)).map fun p =>
    ⟨p, bytesOf p w.committed, [], (w.files p).content⟩

def World.list (w : World) (paths : List String) : World :=
  match w.durable.cursor.plan (paths.map fun p => (w.files p).describe p) with
  | .error e => { w with runs := w.runs + 1, refusals := w.refusals ++ [e] }
  | .ok tasks =>
    { w with
      runs := w.runs + 1
      run := some ⟨w.runs, tasks, none, w.durable, fun p => (w.files p).appends, [],
        w.committed, []⟩
      completions := w.completions ++ w.skipped paths tasks }

/-- A slab is fed, its progress recorded, and the cursor checkpointed. -/
def Run.emit (env : Env) (run : Run) (reading : Reading) (slab : Bytes) : Run :=
  let ledger := run.ledger.record reading.task.path
    (reading.progress env (max reading.task.sizeUnits reading.consumed))
    (run.seen reading.task.path)
  { run with
    reading := some reading
    ledger := ledger
    emitted := run.emitted ++ [⟨some ⟨run.id, reading.task.path, slab⟩, ledger⟩]
    fed := run.fed ++ [⟨run.id, reading.task.path, slab⟩] }

/-- The completion is checkpointed only where it differs from the last record. -/
def Run.complete (env : Env) (run : Run) (reading : Reading) : Run :=
  let complete := reading.progress env reading.consumed
  if run.ledger.cursor.files reading.task.path = some complete then { run with reading := none }
  else
    let ledger := run.ledger.record reading.task.path complete (run.seen reading.task.path)
    { run with reading := none, ledger := ledger, emitted := run.emitted ++ [⟨none, ledger⟩] }

def World.openNext (env : Env) (w : World) (run : Run) : World :=
  match run.reading, run.tasks with
  | none, task :: rest =>
    match openTask env (w.files task.path).content task with
    | .error e => w.refuse e
    | .ok reading => { w with run := some { run with tasks := rest, reading := some reading } }
  | _, _ => w

def World.pour (env : Env) (w : World) (run : Run) (reading : Reading) (n : Nat) : World :=
  let content := (w.files reading.task.path).content
  let pass := reading.slabs.next reading.reader content (min (n + 1) slabBytes)
  match pass.1 with
  | .again =>
    { w with run := some { run with
      reading := some { reading with slabs := pass.2.1, reader := pass.2.2 } } }
  | .slab slab =>
    match (if env.validate then checkLines env slab reading.consumed reading.task.path
      else .ok ()) with
    | .error e => w.refuse e
    | .ok () =>
      { w with run := some (run.emit env
        ({ reading with slabs := pass.2.1, reader := pass.2.2 }.consume slab) slab) }
  | .ended =>
    if reading.consumed < reading.task.sizeUnits then
      w.refuse (.shrankWhileRead reading.task.path reading.consumed reading.task.sizeUnits)
    else
      { w with
        run := some (run.complete env reading)
        completions := w.completions ++ [⟨reading.task.path, bytesOf reading.task.path run.base,
          bytesOf reading.task.path run.fed, reading.reader.visible content⟩] }

def World.commit (w : World) (run : Run) : World :=
  match run.emitted with
  | [] => w
  | e :: rest =>
    { w with
      durable := e.ledger
      committed := w.committed ++ e.slab.toList
      run := some { run with emitted := rest } }

def World.append (w : World) (path : String) (bytes : Bytes) (mtimeMs : Option Nat)
    (etag : Option String) : World :=
  { w with files := fun p =>
      if p = path then
        ⟨(w.files p).content ++ bytes, mtimeMs, etag, (w.files p).appends + 1⟩
      else w.files p }

/-- A listing names each file once. -/
def step (env : Env) (w : World) : Act → World
  | .append path bytes mtimeMs etag => w.append path bytes mtimeMs etag
  | .list paths =>
    match w.run with
    | none => if paths.Nodup then w.list paths else w
    | some _ => w
  | .openNext =>
    match w.run with
    | some run => w.openNext env run
    | none => w
  | .pour n =>
    match w.run with
    | some run =>
      match run.reading with
      | some reading => w.pour env run reading n
      | none => w
    | none => w
  | .commit =>
    match w.run with
    | some run => w.commit run
    | none => w
  | .stop => { w with run := none }

end FileSource
