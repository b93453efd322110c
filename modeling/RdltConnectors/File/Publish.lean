import RdltConnectors.File.Layout
import RdltConnectors.Library.Mortal
import RdltConnectors.Library.Transition
import RdltConnectors.Sqlcore.Schema
import Mathlib.Data.List.AList

/-!
# One load session of the file destination

A session takes rows into open parts, closes parts into staging, and publishes what it
has staged: the stale names of an earlier attempt go, the manifest is written, every
part gets its final name, and the receipt comes last. Every change to the storage is
one atomic step, and the process can die before any of them.
-/
namespace FileLoad

open FileLease (DestinationError Location)
open Sqlcore (WriteMode)
open Mortal

variable {R D : Type}

/-- Files by name, each with the rows it holds. -/
abbrev Objects (R : Type) := AList fun _ : String => List R

/-- The storage as one pipeline sees it: every file below the output root, and the
staging area and the documents under its own scope. -/
structure Store (R D : Type) where
  files : Objects R
  staging : Objects R
  manifest : Option (DocBytes Manifest)
  commits : Option (DocBytes CommitLog)
  state : Option D

abbrev Call (R D α : Type) := Mortal.Call (Store R D) DestinationError α

structure CommitMeta (D : Type) where
  loadId : String
  commitSeq : Nat
  state : D

structure CommitReceipt where
  loadId : String
  commitSeq : Nat
  deriving DecidableEq, Repr

/-- A table and a partition directory: what identifies a part. -/
abbrev PartKey := String × Option String

structure StagedPart where
  key : PartKey
  index : Nat
  stagingTail : String
  deriving DecidableEq, Repr

/-- The session. -/
structure Load (R : Type) where
  location : Location
  format : DestFormat
  partitionBy : Option String
  scope : String
  loadId : String
  tables : AList fun _ : String => WriteMode
  staged : List StagedPart
  openParts : AList fun _ : PartKey => List R

/-! ## Storage steps -/

def deleteFile (name : String) : Call R D Unit :=
  perform fun s => { s with files := s.files.erase name }

def deleteStaged (tail : String) : Call R D Unit :=
  perform fun s => { s with staging := s.staging.erase tail }

def stagePut (tail : String) (rows : List R) : Call R D Unit :=
  perform fun s => { s with staging := s.staging.insert tail rows }

def writeManifest (manifest : Manifest) : Call R D Unit :=
  perform fun s => { s with manifest := some (.json manifest) }

def writeState (state : D) : Call R D Unit :=
  perform fun s => { s with state := some state }

def writeCommitLog (log : CommitLog) : Call R D Unit :=
  perform fun s => { s with commits := some (.json log) }

/-- Disk renames; an object store copies, then deletes. -/
def publishPart (location : Location) (stagingTail finalTail : String) : Call R D Unit := do
  let store ← look
  match store.staging.lookup stagingTail with
  | none => refuse .store
  | some rows =>
    match location with
    | .localDir =>
      perform fun s =>
        { s with files := s.files.insert finalTail rows, staging := s.staging.erase stagingTail }
    | .s3 => do
      perform fun s => { s with files := s.files.insert finalTail rows }
      deleteStaged stagingTail

/-- Clear whatever a dead session left staged under the scope. -/
def prepareStaging : Call R D Unit := do
  let store ← look
  store.staging.keys.forM deleteStaged

/-! ## Taking rows -/

def Load.fresh (location : Location) (format : DestFormat) (partitionBy : Option String)
    (scope loadId : String) : Load R :=
  ⟨location, format, partitionBy, scope, loadId, ∅, [], ∅⟩

def ensureTable (load : Load R) (table : String) (mode : WriteMode) :
    Except DestinationError (Load R) :=
  if mode.isMerge then
    .error (.fatal "file destination does not support Merge (capabilities.merge = false)")
  else .ok { load with tables := load.tables.insert table mode }

/-- Where the rows of one partition value go. -/
def Load.keyOf (load : Load R) (table : String) (value : Option String) : PartKey :=
  (table, load.partitionBy.map fun _ => partitionSlug value)

/-- The rows of one partition group join the open part. -/
def appendRows (load : Load R) (table : String) (value : Option String) (rows : List R) : Load R :=
  let key := load.keyOf table value
  { load with openParts := load.openParts.insert key ((load.openParts.lookup key).getD [] ++ rows) }

/-- A parquet file without rows still has bytes. -/
def DestFormat.encodesNothing (format : DestFormat) (rows : List R) : Bool :=
  format == .jsonl && rows.isEmpty

def Load.stagedOf (load : Load R) (key : PartKey) : List StagedPart :=
  load.staged.filter fun part => part.key = key

def Load.stagedTail (load : Load R) (key : PartKey) (index : Nat) : String :=
  stagingTail load.scope load.loadId (stagedName key.1 key.2 index load.format.extension)

/-- Close one open part and stage it. -/
def closePart (load : Load R) (key : PartKey) : Call R D (Load R) :=
  match load.openParts.lookup key with
  | none => pure load
  | some rows =>
    let closed := { load with openParts := load.openParts.erase key }
    if load.format.encodesNothing rows then pure closed
    else do
      let index := (load.stagedOf key).length
      let tail := load.stagedTail key index
      stagePut tail rows
      pure { closed with staged := load.staged ++ [⟨key, index, tail⟩] }

def closeAllParts (load : Load R) : Call R D (Load R) := load.openParts.keys.foldlM closePart load

/-! ## Publishing -/

def keysOfTable (files : Objects R) (table : String) : List String :=
  files.keys.filterMap (tailUnder table)

def ownedByReplace (frozenPlainParquet : Bool) (tail : String) : Bool :=
  owns tail || (frozenPlainParquet && plainTopLevelParquet tail)

def deleteTableFile (table tail : String) : Call R D Unit := deleteFile s!"{table}/{tail}"

/-- Delete every file Replace owns under a table. -/
def truncateTable (frozenPlainParquet : Bool) (table : String) : Call R D Unit := do
  let store ← look
  ((keysOfTable store.files table).filter (ownedByReplace frozenPlainParquet)).forM
    (deleteTableFile table)

def Load.frozenPlainParquet (load : Load R) : Bool :=
  load.location == .localDir && load.format == .parquet && load.partitionBy.isNone

/-- The tables this session has ensured as Replace. -/
def Load.replaced (load : Load R) : List String :=
  load.tables.keys.filter fun table => load.tables.lookup table = some .replace

def Load.finalName (load : Load R) (metadata : CommitMeta D) (part : StagedPart) : String :=
  finalTail part.key.1 part.key.2 metadata.loadId metadata.commitSeq part.index
    load.format.extension

/-- The names of an earlier attempt of the same commit. -/
def priorNames (prior : Option Manifest) (metadata : CommitMeta D) : List String :=
  match prior with
  | none => []
  | some prior =>
    if prior.loadId = metadata.loadId ∧ prior.commitSeq = metadata.commitSeq then prior.names
    else []

def commitLog (scope : String) : Call R D CommitLog := do
  let store ← look
  accept (CommitLog.decode store.commits (commitsFile scope))

/-- Any earlier commit of this load means its truncation already ran. -/
def truncateReplaced (load : Load R) (loadId : String) (log : CommitLog) : Call R D PUnit :=
  if ∀ receipt ∈ log.receipts, receipt.1 ≠ loadId then
    load.replaced.forM (truncateTable load.frozenPlainParquet)
  else pure ()

/-- The stale names go while their manifest is still the one on record; the new manifest
is written before any of its names is. -/
def recordNames (load : Load R) (metadata : CommitMeta D) : Call R D PUnit := do
  let newNames := load.staged.map (load.finalName metadata)
  let store ← look
  let prior ← accept (Manifest.decode store.manifest (manifestFile load.scope))
  ((priorNames prior metadata).filter fun name => name ∉ newNames).forM deleteFile
  writeManifest ⟨layoutFormatVersion, metadata.loadId, metadata.commitSeq, newNames⟩

/-- The phases once every part is closed; the receipt comes last. -/
def publishStaged (load : Load R) (metadata : CommitMeta D) :
    Call R D (Load R × CommitReceipt) := do
  let log ← commitLog load.scope
  truncateReplaced load metadata.loadId log
  recordNames load metadata
  load.staged.forM fun part =>
    publishPart load.location part.stagingTail (load.finalName metadata part)
  writeState metadata.state
  writeCommitLog ⟨layoutFormatVersion, log.receipts ++ [(metadata.loadId, metadata.commitSeq)]⟩
  pure ({ load with staged := [] }, ⟨metadata.loadId, metadata.commitSeq⟩)

def publish (load : Load R) (metadata : CommitMeta D) : Call R D (Load R × CommitReceipt) := do
  let load ← closeAllParts load
  publishStaged load metadata

instance lawfulReceipt : LawfulBEq (String × Nat) := inferInstance

def existingReceipt (scope : String) (metadata : CommitMeta D) :
    Call R D (Option CommitReceipt) := do
  let log ← commitLog scope
  pure (if (metadata.loadId, metadata.commitSeq) ∈ log.receipts then
    some ⟨metadata.loadId, metadata.commitSeq⟩ else none)

/-- A redelivered commit drops what this session holds of it. -/
def replay (load : Load R) : Call R D (Load R) := do
  load.staged.forM fun part => deleteStaged part.stagingTail
  pure { load with staged := [], openParts := ∅ }

/-- A receipt on record is returned; a commit without one is published. -/
def commit (load : Load R) (metadata : CommitMeta D) : Call R D (Load R × CommitReceipt) := do
  match ← existingReceipt load.scope metadata with
  | some receipt => do
    let load ← replay load
    pure (load, receipt)
  | none => publish load metadata

/-! ## Sessions one after another -/

/-- A call of the engine's. The calls that touch the storage more than once say after
how many steps the process dies. -/
inductive Event (R D : Type) where
  | openLoad (format : DestFormat) (partitionBy : Option String) (loadId : String)
      (left : Option Nat)
  | ensure (table : String) (mode : WriteMode)
  | append (table : String) (value : Option String) (rows : List R)
  | roll (key : PartKey)
  | commit (metadata : CommitMeta D) (left : Option Nat)
  | crash

structure World (R D : Type) where
  store : Store R D
  session : Option (Load R)

/-- A call that stops ends its session. -/
def World.after {α : Type} (answer : Except (Cut DestinationError) α × Budgeted (Store R D))
    (session : α → Load R) : World R D :=
  match answer with
  | (.ok a, here) => ⟨here.state, some (session a)⟩
  | (.error _, here) => ⟨here.state, none⟩

def step (location : Location) (scope : String) (w : World R D) (event : Event R D) : World R D :=
  match event, w.session with
  | .openLoad format partitionBy loadId left, _ =>
    World.after (Interrupted.exec (ε := Cut DestinationError) prepareStaging ⟨w.store, left⟩)
      fun _ => Load.fresh location format partitionBy scope loadId
  | .crash, _ => { w with session := none }
  | _, none => w
  | .ensure table mode, some load =>
    match ensureTable load table mode with
    | .ok load => { w with session := some load }
    | .error _ => w
  | .append table value rows, some load =>
    { w with session := some (appendRows load table value rows) }
  | .roll key, some load => World.after (Interrupted.exec (closePart load key) ⟨w.store, none⟩) id
  | .commit metadata left, some load =>
    World.after (Interrupted.exec (commit load metadata) ⟨w.store, left⟩) Prod.fst

end FileLoad
