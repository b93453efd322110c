import Mathlib
import RdltConnectors.FileSource.Cursor
import RdltConnectors.Library.Fallible

/-!
# Reading a parquet file row group by row group

A task opens its path once for the footer, once more to check the prefix it resumes
behind, and then twice for every group: for its batches and for the digest of the prefix
that now ends with it. Between two opens the file may be replaced as a whole, so each
open sees a version of its own.
-/
namespace FileSource

open Fallible

structure Chunk where
  dictionaryPage : Option Int
  dataPage : Int
  compressedSize : Int
  deriving DecidableEq, Repr

/-- What the digest takes of a leaf column: its path and its types as they print. -/
structure Leaf where
  path : Bytes
  physicalType : Bytes
  logicalType : Bytes
  deriving DecidableEq, Repr

structure ParquetMetadata where
  columns : List Leaf
  rowGroups : List (List Chunk)
  deriving DecidableEq, Repr

/-- What the parquet library reads from the bytes of a version, and the hash. A group
gives batches, and perhaps a failure behind them. -/
structure ParquetLibrary (R : Type) where
  footer : Bytes → Except String ParquetMetadata
  rows : Bytes → Nat → Except String (List R × Option String)
  hash : Bytes → String

inductive ParquetRefusal where
  | wrongKind (path : String)
  | unreadable (path message : String)
  | pastEnd (path : String) (start count : Nat)
  | rewritten (path : String) (start : Nat)
  | corrupt (path : String) (group : Nat) (message : String)
  | extent (path : String) (group : Nat) (what : String)
  | uncovered (path : String) (window : Nat)
  /-- a group index out of range, which the source does not survive -/
  | panicked (path : String)
  deriving DecidableEq, Repr

def ParquetRefusal.message : ParquetRefusal → String
  | .wrongKind path =>
    s!"file `{path}` recorded a byte-window integrity value but is being read as row groups; refusing to resume without a check this reader can evaluate — clear it from the pipeline state"
  | .unreadable path message => s!"reading parquet `{path}`: {message}"
  | .pastEnd path start count =>
    s!"file `{path}` records progress through row group {start} but now holds only {count} — refusing to resume past the end; clear it from the pipeline state or restore the file"
  | .rewritten path start =>
    s!"file `{path}` was rewritten before the resume offset (the content of the {start} row groups preceding it changed since the last run); refusing to read from a stale offset — clear it from the pipeline state or restore the file"
  | .corrupt path group message => s!"corrupt parquet `{path}` (row group {group}): {message}"
  | .extent path group what =>
    s!"parquet `{path}`: row group {group} has {what}; refusing to verify a resume offset against a footer that does not describe itself"
  | .uncovered path window =>
    s!"parquet `{path}`: the {window} bytes ending the consumed prefix could not be read; refusing to trust a resume offset the file no longer covers"
  | .panicked path => s!"panicked reading `{path}`"

/-! ## The prefix digest -/

def chunkEnd (path : String) (last : Nat) (chunk : Chunk) : Except ParquetRefusal Nat :=
  let firstPage := chunk.dictionaryPage.getD chunk.dataPage
  if firstPage < 0 then .error (.extent path last "a negative page offset")
  else if chunk.compressedSize < 0 then .error (.extent path last "a negative chunk size")
  else if firstPage.toNat + chunk.compressedSize.toNat ≥ 2 ^ 64 then
    .error (.extent path last "an overflowing extent")
  else .ok (firstPage.toNat + chunk.compressedSize.toNat)

/-- One past the end of whichever chunk of the group reaches furthest. -/
def prefixEnd (path : String) (metadata : ParquetMetadata) (last : Nat) :
    Except ParquetRefusal Nat :=
  match metadata.rowGroups[last]? with
  | none => .error (.panicked path)
  | some chunks =>
    chunks.foldlM (fun furthest chunk => (chunkEnd path last chunk).map (max furthest)) 0

def littleEndian (n : Nat) : Bytes := (List.range 8).map fun i => UInt8.ofNat (n / 256 ^ i)

def digestInput (metadata : ParquetMetadata) (groups : Nat) (window : Bytes) : Bytes :=
  metadata.columns.flatMap (fun column =>
    column.path ++ [0] ++ column.physicalType ++ [0] ++ column.logicalType ++ [0]) ++
  littleEndian groups ++ window

variable {R : Type}

/-- The digest over the first groups: the footer from one open, the bytes from another. -/
def resumeDigest (library : ParquetLibrary R) (path : String) (metadata : ParquetMetadata)
    (groups : Nat) (content : Bytes) : Except ParquetRefusal String :=
  match groups with
  | 0 => .error (.panicked path)
  | last + 1 => do
    let stop ← prefixEnd path metadata last
    let window := min stop tailWindow
    let buffer := (content.drop (stop - window)).take window
    if buffer.length < window then .error (.uncovered path window)
    else .ok (library.hash (digestInput metadata groups buffer))

/-! ## The reading loop -/

inductive ParquetEvent (R : Type) where
  | batch (group : Nat) (rows : R)
  | checkpoint (progress : FileProgress)
  deriving DecidableEq, Repr

/-- What was fed, and how it ended. -/
abbrev ParquetRun (R : Type) := List (ParquetEvent R) × Except ParquetRefusal Bool

/-- Feed one event after the other; `host k` is the host breaking off at the `k`-th. -/
def feedAll (host : Nat → Bool) : Nat → List (ParquetEvent R) → List (ParquetEvent R) × Bool
  | _, [] => ([], true)
  | fed, event :: events =>
    if host fed then ([event], false)
    else
      let rest := feedAll host (fed + 1) events
      (event :: rest.1, rest.2)

section

variable (library : ParquetLibrary R) (task : FileTask) (metadata : ParquetMetadata)

def groupProgress (group : Nat) (hash : String) : FileProgress :=
  ⟨group + 1, metadata.rowGroups.length, true, task.mtimeMs, task.etag, none, some hash⟩

/-- One group, read from one open and digested from the next. -/
def readGroup (host : Nat → Bool) (fed group : Nat) (content digested : Bytes) : ParquetRun R :=
  match library.rows content group with
  | .error message => ([], .error (.unreadable task.path message))
  | .ok (batches, failure) =>
    let run := feedAll host fed (batches.map (.batch group))
    if run.2 = false then (run.1, .ok false)
    else
      match failure with
      | some message => (run.1, .error (.corrupt task.path group message))
      | none =>
        match resumeDigest library task.path metadata (group + 1) digested with
        | .error refusal => (run.1, .error refusal)
        | .ok hash =>
          (run.1 ++ [.checkpoint (groupProgress task metadata group hash)],
            .ok (!host (fed + batches.length)))

/-- The loop over the groups, the next open being the one numbered `opened`. -/
def readGroups (opens : Nat → Bytes) (host : Nat → Bool) :
    List Nat → Nat → Nat → ParquetRun R
  | [], _, _ => ([], .ok true)
  | group :: groups, opened, fed =>
    let one := readGroup library task metadata host fed group (opens opened) (opens (opened + 1))
    match one.2 with
    | .error refusal => (one.1, .error refusal)
    | .ok false => (one.1, .ok false)
    | .ok true =>
      let rest := readGroups opens host groups (opened + 2) (fed + one.1.length)
      (one.1 ++ rest.1, rest.2)

end

/-- `read_task`; `opens k` is the version the `k`-th open sees. -/
def readParquet (library : ParquetLibrary R) (task : FileTask) (opens : Nat → Bytes)
    (host : Nat → Bool) : ParquetRun R :=
  match task.resumeCheck with
  | some (.tailBytes _ _) => ([], .error (.wrongKind task.path))
  | check =>
    match library.footer (opens 0) with
    | .error message => ([], .error (.unreadable task.path message))
    | .ok metadata =>
      let count := metadata.rowGroups.length
      if task.start > count then ([], .error (.pastEnd task.path task.start count))
      else
        let groups := List.range' task.start (count - task.start)
        match check with
        | some (.rowGroupPrefix hash) =>
          match resumeDigest library task.path metadata task.start (opens 1) with
          | .error refusal => ([], .error refusal)
          | .ok found =>
            if found ≠ hash then ([], .error (.rewritten task.path task.start))
            else readGroups library task metadata opens host groups 2 0
        | _ => readGroups library task metadata opens host groups 1 0

/-! ## What one version gives -/

/-- The batches of a group; those in front of a failure where there is one. -/
def groupBatches (library : ParquetLibrary R) (version : Bytes) (group : Nat) : List R :=
  match library.rows version group with
  | .ok (batches, _) => batches
  | .error _ => []

/-- The batches of a version behind its first groups. -/
def rowsBehind (library : ParquetLibrary R) (version : Bytes) (start : Nat) : List (Nat × R) :=
  match library.footer version with
  | .ok metadata => (List.range' start (metadata.rowGroups.length - start)).flatMap fun group =>
      (groupBatches library version group).map fun batch => (group, batch)
  | .error _ => []

/-- The digest of a version's first groups by its own footer. -/
def versionDigest (library : ParquetLibrary R) (path : String) (version : Bytes) (groups : Nat) :
    Option String :=
  match library.footer version with
  | .ok metadata => (resumeDigest library path metadata groups version).toOption
  | .error _ => none

def delivered (events : List (ParquetEvent R)) : List (Nat × R) :=
  events.filterMap fun event => match event with
    | .batch group rows => some (group, rows)
    | .checkpoint _ => none

theorem delivered_append (events more : List (ParquetEvent R)) :
    delivered (events ++ more) = delivered events ++ delivered more := List.filterMap_append

theorem delivered_batches (group : Nat) (batches : List R) :
    delivered (batches.map (ParquetEvent.batch group)) = batches.map fun batch => (group, batch) := by
  induction batches with
  | nil => rfl
  | cons batch batches ih =>
    rw [List.map_cons, List.map_cons, ← ih]
    rfl

theorem feedAll_prefix (host : Nat → Bool) (fed : Nat) (events : List (ParquetEvent R)) :
    (feedAll host fed events).1 <+: events ∧
      ((feedAll host fed events).2 = true → (feedAll host fed events).1 = events) := by
  induction events generalizing fed with
  | nil => exact ⟨List.prefix_rfl, fun _ => rfl⟩
  | cons event events ih =>
    simp only [feedAll]
    split
    · exact ⟨⟨events, rfl⟩, fun h => nomatch h⟩
    · obtain ⟨hbefore, hall⟩ := ih (fed + 1)
      exact ⟨List.cons_prefix_cons.mpr ⟨rfl, hbefore⟩, fun h => congrArg (event :: ·) (hall h)⟩

/-- The delivered rows are a beginning of the given ones, all of them when the run went
through, and every checkpoint carries the digest of the version. -/
structure FromVersion (library : ParquetLibrary R) (task : FileTask) (metadata : ParquetMetadata)
    (version : Bytes) (rows : List (Nat × R)) (run : ParquetRun R) : Prop where
  begins : delivered run.1 <+: rows
  whole : run.2 = .ok true → delivered run.1 = rows
  digests : ∀ progress, ParquetEvent.checkpoint progress ∈ run.1 → ∃ group hash,
    progress = groupProgress task metadata group hash ∧
      resumeDigest library task.path metadata (group + 1) version = .ok hash

section

variable {library : ParquetLibrary R} {task : FileTask} {metadata : ParquetMetadata}
  {version : Bytes} {host : Nat → Bool} {opens : Nat → Bytes}

theorem FromVersion.refused (rows : List (Nat × R)) (refusal : ParquetRefusal) :
    FromVersion library task metadata version rows ([], .error refusal) :=
  ⟨List.nil_prefix, (fun h => nomatch h), fun _ h => nomatch h⟩

variable (library task metadata version host) in
theorem readGroup_version (fed group : Nat) :
    FromVersion library task metadata version
      ((groupBatches library version group).map fun batch => (group, batch))
      (readGroup library task metadata host fed group version version) := by
  unfold readGroup groupBatches
  cases library.rows version group with
  | error message => exact .refused _ _
  | ok found =>
    obtain ⟨batches, failure⟩ := found
    obtain ⟨hbefore, hall⟩ := feedAll_prefix host fed (batches.map (ParquetEvent.batch group))
    have hbegins : delivered (feedAll host fed (batches.map (ParquetEvent.batch group))).1 <+:
        batches.map fun batch => (group, batch) := by
      rw [← delivered_batches]
      exact hbefore.filterMap _
    have hnone : ∀ progress, ParquetEvent.checkpoint progress ∉
        (feedAll host fed (batches.map (ParquetEvent.batch group))).1 := by
      intro progress hmem
      have hin := hbefore.subset hmem
      simp at hin
    simp only
    split
    · exact ⟨hbegins, (fun h => nomatch h), fun progress h => absurd h (hnone progress)⟩
    · rename_i hrun
      have heq := hall (Bool.not_eq_false _ ▸ hrun)
      cases failure with
      | some message =>
        exact ⟨hbegins, (fun h => nomatch h), fun progress h => absurd h (hnone progress)⟩
      | none =>
        cases hdigest : resumeDigest library task.path metadata (group + 1) version with
        | error refusal =>
          exact ⟨hbegins, (fun h => nomatch h), fun progress h => absurd h (hnone progress)⟩
        | ok hash =>
          have hrows : delivered ((feedAll host fed (batches.map (ParquetEvent.batch group))).1 ++
              [.checkpoint (groupProgress task metadata group hash)]) =
                batches.map fun batch => (group, batch) := by
            rw [heq, delivered_append, delivered_batches]
            exact List.append_nil _
          simp only
          refine ⟨hrows ▸ List.prefix_rfl, fun _ => hrows, fun progress h => ?_⟩
          obtain hbatch | hlast := List.mem_append.mp h
          · exact absurd hbatch (hnone progress)
          · obtain rfl : progress = groupProgress task metadata group hash := by simpa using hlast
            exact ⟨group, hash, rfl, hdigest⟩

variable (library task metadata host) in
/-- Over one version the loop delivers the rows of its groups, one group after the other. -/
theorem readGroups_version (hopens : ∀ k, opens k = version) (groups : List Nat)
    (opened fed : Nat) :
    FromVersion library task metadata version
      (groups.flatMap fun group =>
        (groupBatches library version group).map fun batch => (group, batch))
      (readGroups library task metadata opens host groups opened fed) := by
  induction groups generalizing opened fed with
  | nil => exact ⟨List.prefix_rfl, fun _ => rfl, fun _ h => nomatch h⟩
  | cons group groups ih =>
    have hone := readGroup_version library task metadata version host fed group
    simp only [readGroups, hopens, List.flatMap_cons]
    cases hresult : (readGroup library task metadata host fed group version version).2 with
    | error refusal =>
      exact ⟨hone.begins.trans (List.prefix_append _ _), (fun h => nomatch h), hone.digests⟩
    | ok finished =>
      cases finished with
      | false =>
        exact ⟨hone.begins.trans (List.prefix_append _ _), (fun h => nomatch h), hone.digests⟩
      | true =>
        have hrows := hone.whole hresult
        obtain ⟨hbegins, hwhole, hdigests⟩ := ih (opened + 2)
          (fed + (readGroup library task metadata host fed group version version).1.length)
        constructor
        · rw [delivered_append, hrows]
          exact List.prefix_append_right_inj _ |>.mpr hbegins
        · intro h
          rw [delivered_append, hrows, hwhole h]
        · intro progress h
          obtain hfirst | hrest := List.mem_append.mp h
          · exact hone.digests progress hfirst
          · exact hdigests progress hrest

variable (library task host) in
/-- A run over one version: refused before anything is fed, or the version's own rows
behind its start, whose prefix then passed the check the task carries. -/
theorem readParquet_version (hopens : ∀ k, opens k = version) :
    (∃ refusal, readParquet library task opens host = ([], .error refusal)) ∨
      ∃ metadata, library.footer version = .ok metadata ∧
        FromVersion library task metadata version (rowsBehind library version task.start)
          (readParquet library task opens host) ∧
        ∀ hash, task.resumeCheck = some (.rowGroupPrefix hash) →
          versionDigest library task.path version task.start = some hash := by
  unfold readParquet
  cases hcheck : task.resumeCheck with
  | none =>
    simp only [hopens]
    cases hfooter : library.footer version with
    | error message => exact .inl ⟨_, rfl⟩
    | ok metadata =>
      simp only
      split
      · exact .inl ⟨_, rfl⟩
      · right
        refine ⟨metadata, rfl, ?_, fun _ h => nomatch h⟩
        have hread := readGroups_version library task metadata host hopens
          (List.range' task.start (metadata.rowGroups.length - task.start)) 1 0
        simpa [rowsBehind, hfooter] using hread
  | some check =>
    cases check with
    | tailBytes window hash => exact .inl ⟨_, rfl⟩
    | rowGroupPrefix hash =>
      simp only [hopens]
      cases hfooter : library.footer version with
      | error message => exact .inl ⟨_, rfl⟩
      | ok metadata =>
        simp only
        split
        · exact .inl ⟨_, rfl⟩
        · cases hdigest : resumeDigest library task.path metadata task.start version with
          | error refusal => exact .inl ⟨_, rfl⟩
          | ok found =>
            simp only
            split
            · exact .inl ⟨_, rfl⟩
            · rename_i hsame
              right
              refine ⟨metadata, rfl, ?_, ?_⟩
              · have hread := readGroups_version library task metadata host hopens
                  (List.range' task.start (metadata.rowGroups.length - task.start)) 2 0
                simpa [rowsBehind, hfooter] using hread
              · rintro _ ⟨⟩
                rw [versionDigest, hfooter]
                simpa [hdigest, Except.toOption] using hsame

end

/-- Another version that the check behind `groups` groups cannot tell from this one,
though its later rows are others. -/
def RewrittenBehind (library : ParquetLibrary R) (path : String) (version other : Bytes)
    (groups : Nat) : Prop :=
  versionDigest library path other groups = versionDigest library path version groups ∧
    rowsBehind library other groups ≠ rowsBehind library version groups

/-- A run whose opens all see one version and that goes through delivered that version's
rows and recorded its digests; and a later run that starts from any checkpoint of it, sees
one version and is not refused continues with the same version's rows, unless that version
is another one that only differs behind the checked prefix. -/
theorem one_version_read (library : ParquetLibrary R) (task : FileTask) (opens : Nat → Bytes)
    (host : Nat → Bool) (version : Bytes) (hopens : ∀ k, opens k = version) :
    ((readParquet library task opens host).2 = .ok true →
        delivered (readParquet library task opens host).1 =
          rowsBehind library version task.start) ∧
      ∀ progress, ParquetEvent.checkpoint progress ∈ (readParquet library task opens host).1 →
        (∃ hash, progress.rowGroupsHash = some hash ∧
          versionDigest library task.path version progress.doneUnits = some hash) ∧
        ∀ (cursor : FileCursor) (listed : FileMeta) (resumed : FileTask) (opens' : Nat → Bytes)
          (host' : Nat → Bool) (version' : Bytes), listed.path = task.path →
          (cursor.record task.path progress).planFile listed = .ok (some resumed) →
          (∀ k, opens' k = version') →
          ¬ RewrittenBehind library task.path version version' progress.doneUnits →
          (∀ refusal, (readParquet library resumed opens' host').2 ≠ .error refusal) →
          delivered (readParquet library resumed opens' host').1 <+:
              rowsBehind library version progress.doneUnits ∧
            ((readParquet library resumed opens' host').2 = .ok true →
              delivered (readParquet library resumed opens' host').1 =
                rowsBehind library version progress.doneUnits) := by
  obtain ⟨refusal, hrefused⟩ | ⟨metadata, hfooter, hfrom, -⟩ :=
    readParquet_version library task host hopens
  · rw [hrefused]
    exact ⟨(fun h => nomatch h), fun _ h => nomatch h⟩
  · refine ⟨hfrom.whole, fun progress hmem => ?_⟩
    obtain ⟨group, hash, rfl, hdigest⟩ := hfrom.digests progress hmem
    have hversion : versionDigest library task.path version (group + 1) = some hash := by
      simp [versionDigest, hfooter, hdigest, Except.toOption]
    refine ⟨⟨hash, rfl, hversion⟩, ?_⟩
    intro cursor listed resumed opens' host' version' hpath hplan hopens' hsame hgoes
    have hplanned := planFile_some hplan
    obtain ⟨hnone, -, -⟩ | ⟨record, hrecord, hstart, hcheck, -⟩ := hplanned.resumes
    · simp [hpath] at hnone
    · rw [hpath, record_same, Option.some.injEq] at hrecord
      subst hrecord
      have hstart : resumed.start = group + 1 := hstart
      have hprefix : resumed.resumeCheck = some (.rowGroupPrefix hash) := by
        rw [hcheck]
        simp [resumeCheckFor, groupProgress]
      obtain ⟨refusal, hrefused⟩ | ⟨metadata', hfooter', hfrom', hchecked⟩ :=
        readParquet_version library resumed host' hopens'
      · exact absurd (congrArg Prod.snd hrefused) (hgoes refusal)
      · have hdigest' := hchecked hash hprefix
        rw [hplanned.path, hpath, hstart] at hdigest'
        have hrows : rowsBehind library version' (group + 1) =
            rowsBehind library version (group + 1) := by
          by_contra hother
          exact hsame ⟨hdigest'.trans hversion.symm, hother⟩
        obtain ⟨hbegins, hwhole, -⟩ := hfrom'
        rw [hstart, hrows] at hbegins hwhole
        exact ⟨hbegins, hwhole⟩

/-! ## Two versions of one layout -/

/-- A file with one column `id` and two row groups of one value each. -/
def twoGroups (first second : UInt8) : Bytes :=
  [80, 65, 82, 49, 21, 0, 21, 16, 21, 16, 44, 21, 2, 21, 0, 21, 6, 21, 6, 0, 0, first, 0, 0, 0, 0,
    0, 0, 0, 21, 0, 21, 16, 21, 16, 44, 21, 2, 21, 0, 21, 6, 21, 6, 0, 0, second, 0, 0, 0, 0, 0,
    0, 0, 21, 2, 25, 44, 72, 6, 115, 99, 104, 101, 109, 97, 21, 2, 0, 21, 4, 37, 0, 24, 2, 105,
    100, 0, 22, 4, 25, 44, 25, 28, 38, 8, 28, 21, 4, 25, 21, 0, 25, 24, 2, 105, 100, 21, 0, 22, 2,
    22, 50, 22, 50, 38, 8, 0, 0, 22, 50, 22, 2, 0, 25, 28, 38, 58, 28, 21, 4, 25, 21, 0, 25, 24,
    2, 105, 100, 21, 0, 22, 2, 22, 50, 22, 50, 38, 58, 0, 0, 22, 50, 22, 2, 0, 0, 93, 0, 0, 0, 80,
    65, 82, 49]

/-- What the library reads from such a file; the hash shows its input. -/
def twoGroupsLibrary : ParquetLibrary (List Nat) where
  footer _ := .ok
    { columns := [⟨[105, 100], [73, 78, 84, 54, 52], [78, 111, 110, 101]⟩]
      rowGroups := [[⟨none, 4, 25⟩], [⟨none, 29, 25⟩]] }
  rows content group := .ok ([[(content.getD (21 + 25 * group) 0).toNat]], none)
  hash input := String.ofList (input.map fun b => Char.ofNat b.toNat)

def twoGroupsTask : FileTask := fresh ⟨"rows.parquet", 2, none, none⟩

/-- Replaced between the first checkpoint and the second group, the file is read to its
end and delivered as half of one version and half of the other. -/
theorem replaced_between_groups :
    let run := readParquet twoGroupsLibrary twoGroupsTask
      (fun k => if k < 3 then twoGroups 1 2 else twoGroups 3 4) (fun _ => false)
    run.2 = .ok true ∧ delivered run.1 = [(0, [1]), (1, [4])] ∧
      rowsBehind twoGroupsLibrary (twoGroups 1 2) 0 = [(0, [1]), (1, [2])] ∧
      rowsBehind twoGroupsLibrary (twoGroups 3 4) 0 = [(0, [3]), (1, [4])] := by
  decide +kernel

/-- The checkpoint behind the first group. -/
def firstCheckpoint : FileProgress :=
  ⟨1, 2, true, none, none, none, versionDigest twoGroupsLibrary "rows.parquet" (twoGroups 1 2) 1⟩

def resumedTask : FileTask :=
  ⟨"rows.parquet", 1, 2, none, none, resumeCheckFor firstCheckpoint⟩

theorem two_groups_read :
    (∀ k : Nat, (fun _ : Nat => twoGroups 1 2) k = twoGroups 1 2) ∧
      delivered (readParquet twoGroupsLibrary twoGroupsTask (fun _ => twoGroups 1 2)
        (fun _ => false)).1 = rowsBehind twoGroupsLibrary (twoGroups 1 2) 0 ∧
      delivered (readParquet twoGroupsLibrary resumedTask (fun _ => twoGroups 1 2)
        (fun _ => false)).1 = rowsBehind twoGroupsLibrary (twoGroups 1 2) 1 := by
  obtain ⟨hwhole, hcheckpoints⟩ := one_version_read twoGroupsLibrary twoGroupsTask
    (fun _ => twoGroups 1 2) (fun _ => false) (twoGroups 1 2) fun _ => rfl
  refine ⟨fun _ => rfl, hwhole (by decide +kernel), ?_⟩
  obtain ⟨-, hresume⟩ := hcheckpoints firstCheckpoint (by decide +kernel)
  have hends : (readParquet twoGroupsLibrary resumedTask (fun _ => twoGroups 1 2)
      (fun _ => false)).2 = .ok true := by decide +kernel
  obtain ⟨-, hdelivered⟩ := hresume .empty ⟨"rows.parquet", 2, none, none⟩ resumedTask
    (fun _ => twoGroups 1 2) (fun _ => false) (twoGroups 1 2) rfl (by decide +kernel) (fun _ => rfl)
    (fun h => h.2 rfl) (fun refusal h => nomatch hends.symm.trans h)
  exact hdelivered hends

end FileSource
