import RdltConnectors.FileSource.Csv
import RdltConnectors.FileSource.Slabs

/-!
# Files read whole through a decoder

A compressed file is a row of members, each of which ends where its own bytes say. The
readers that go through a decoder take a file to be complete once the decoder has
nothing more to give, and write the listed size on record.
-/
namespace FileSource

open Fallible

inductive Codec where
  | plain
  | gzip
  | zstd
  deriving DecidableEq, Repr

def codecOf (path : String) : Codec :=
  if ".gz".toList.isSuffixOf path.toList then .gzip
  else if ".zst".toList.isSuffixOf path.toList then .zstd
  else .plain

def gzipMagic : Bytes := [0x1f, 0x8b]

def zstdMagic : Bytes := [0x28, 0xb5, 0x2f, 0xfd]

/-- How a library takes the first member off a file: its content and the bytes behind it. -/
structure MemberFormat where
  first : Bytes → Option (Bytes × Bytes)
  shrinks : ∀ {file content rest}, first file = some (content, rest) → rest.length < file.length

/-- A file that is nothing but members, with their contents in order. -/
inductive MadeOf (format : MemberFormat) : Bytes → List Bytes → Prop where
  | one {file content : Bytes} : format.first file = some (content, []) →
      MadeOf format file [content]
  | more {file content rest : Bytes} {contents : List Bytes} :
      format.first file = some (content, rest) → MadeOf format rest contents →
      MadeOf format file (content :: contents)

/-- The two decompressors. -/
structure Decompressors where
  gzip : MemberFormat
  zstd : MemberFormat

/-- `GzDecoder`: the first member, and then the end of the stream. -/
def gzDecoder (format : MemberFormat) (file : Bytes) : Option Bytes :=
  (format.first file).map Prod.fst

/-- `zstd::stream::read::Decoder`: frame after frame until the file is used up. -/
def zstdDecoder (format : MemberFormat) (file : Bytes) : Option Bytes :=
  match _h : format.first file with
  | none => none
  | some (content, rest) =>
    if rest = [] then some content else (zstdDecoder format rest).map (content ++ ·)
termination_by file.length
decreasing_by exact format.shrinks _h

/-- What a whole-file read is refused for. -/
inductive WholeRefusal where
  | changedOnDisk (path moved : String)
  | lyingExtension (path : String) (head : Bytes)
  | undecodable (path : String)
  | invalidLine (refusal : Refusal)
  | csv (refusal : CsvRefusal)
  deriving DecidableEq, Repr

def WholeRefusal.message : WholeRefusal → String
  | .changedOnDisk path moved =>
    s!"file `{path}` changed on disk between listing and read ({moved}); refusing to load content " ++
      "the plan does not describe — retry the run"
  | .lyingExtension path head =>
    let shown := (", ".intercalate (head.map fun b => String.ofList (Nat.toDigits 16 b.toNat)))
    s!"file `{path}` does not match its compression extension (magic bytes [{shown}]) — fix the " ++
      "name or the content"
  | .undecodable path => s!"reading `{path}`"
  | .invalidLine refusal => refusal.message
  | .csv refusal => refusal.message

/-- The size and the modification time a stat finds. -/
structure Stat where
  size : Nat
  mtimeMs : Option Nat
  deriving DecidableEq, Repr

/-- A staged copy is immutable and passes without a stat. -/
def verifyLocalSnapshot (staged : Bool) (task : FileTask) (seen : Stat) :
    Except WholeRefusal Unit :=
  if staged then .ok ()
  else if seen.size ≠ task.sizeUnits then
    .error (.changedOnDisk task.path s!"listed {task.sizeUnits} bytes, found {seen.size}")
  else if differs task.mtimeMs seen.mtimeMs then
    .error (.changedOnDisk task.path "same size, but modified since the listing")
  else .ok ()

/-- The decoded stream; the first four bytes are compared with the codec's magic. -/
def openDecoded (libraries : Decompressors) (path : String) (codec : Codec) (file : Bytes) :
    Except WholeRefusal Bytes :=
  let head := file.take 4
  match codec with
  | .plain => .ok file
  | .gzip =>
    if head.take 2 ≠ gzipMagic then .error (.lyingExtension path head)
    else
      match gzDecoder libraries.gzip file with
      | some stream => .ok stream
      | none => .error (.undecodable path)
  | .zstd =>
    if head ≠ zstdMagic then .error (.lyingExtension path head)
    else
      match zstdDecoder libraries.zstd file with
      | some stream => .ok stream
      | none => .error (.undecodable path)

/-- The record that marks a whole file complete, from its listing. -/
def FileTask.complete (task : FileTask) : FileProgress :=
  ⟨task.sizeUnits, task.sizeUnits, true, task.mtimeMs, task.etag, none, none⟩

/-- The slabs of a decoded stream. -/
def wholeSlabs (stream : Bytes) (sizes : Nat → ℕ+) : List Bytes :=
  (Slabs.new.drain stream sizes (stream.length + 2) 0 (.openFrom true stream 0)).getD []

def validateSlabs (env : Env) (path : String) (slabs : List Bytes) : Except WholeRefusal Unit :=
  if env.validate then (checkSlabs env path 0 slabs).mapError .invalidLine else .ok ()

/-- A run of `read_task_whole` that the host lets finish: the slabs it feeds and the
record it writes. -/
def readTaskWhole (env : Env) (libraries : Decompressors) (sizes : Nat → ℕ+) (task : FileTask)
    (seen : Stat) (file : Bytes) : Except WholeRefusal (List Bytes × FileProgress) := do
  verifyLocalSnapshot env.s3 task seen
  let stream ← openDecoded libraries task.path (codecOf task.path) file
  validateSlabs env task.path (wholeSlabs stream sizes)
  .ok (wholeSlabs stream sizes, task.complete)

/-- A csv run: what its conversion parsed, what it fed and the record it wrote. -/
structure CsvRead where
  parsed : Bytes
  objects : List Object
  record : FileProgress
  deriving DecidableEq, Repr

/-- The csv reader's options: the parser they configure and the hints. -/
structure CsvSetup (hasHeader : Bool) where
  parse : Bytes → Contents hasHeader
  hints : List (String × HintType)
  isJson : String → Bool

/-- A run of the csv `read_task` over a file that both passes see alike. -/
def readTaskCsv {hasHeader : Bool} (staged : Bool) (libraries : Decompressors)
    (setup : CsvSetup hasHeader) (task : FileTask) (seen : Stat) (file : Bytes) :
    Except WholeRefusal CsvRead := do
  verifyLocalSnapshot staged task seen
  let surveyed ← openDecoded libraries task.path (codecOf task.path) file
  let converted ← openDecoded libraries task.path (codecOf task.path) file
  let objects ← (readCsv setup.isJson task.path setup.hints (setup.parse surveyed)
    (setup.parse converted)).mapError .csv
  .ok ⟨converted, objects, task.complete⟩

/-! ## What the decoders give of a file made of members -/

variable {libraries : Decompressors} {file stream : Bytes} {contents : List Bytes}

theorem MadeOf.ne_nil {format : MemberFormat} (h : MadeOf format file contents) : file ≠ [] := by
  rintro rfl
  cases h with
  | one hfirst => exact absurd (format.shrinks hfirst) (Nat.not_lt_zero _)
  | more hfirst _ => exact absurd (format.shrinks hfirst) (Nat.not_lt_zero _)

theorem zstdDecoder_all {format : MemberFormat} (h : MadeOf format file contents) :
    zstdDecoder format file = some contents.flatten := by
  induction h with
  | one hfirst =>
    rw [zstdDecoder]
    split
    · rename_i hnone
      exact nomatch hfirst.symm.trans hnone
    · rename_i hsome
      obtain ⟨rfl, rfl⟩ := Prod.mk.inj (Option.some.inj (hfirst.symm.trans hsome))
      simp
  | more hfirst hrest ih =>
    rw [zstdDecoder]
    split
    · rename_i hnone
      exact nomatch hfirst.symm.trans hnone
    · rename_i hsome
      obtain ⟨rfl, rfl⟩ := Prod.mk.inj (Option.some.inj (hfirst.symm.trans hsome))
      rw [if_neg hrest.ne_nil, ih]
      rfl

theorem gzDecoder_first {format : MemberFormat} (h : MadeOf format file contents) :
    ∃ content later, contents = content :: later ∧ gzDecoder format file = some content := by
  cases h with
  | one hfirst => exact ⟨_, _, rfl, by simp [gzDecoder, hfirst]⟩
  | more hfirst _ => exact ⟨_, _, rfl, by simp [gzDecoder, hfirst]⟩

/-- The members the codec's library finds in the file. -/
def Compressed (libraries : Decompressors) (codec : Codec) (file : Bytes)
    (contents : List Bytes) : Prop :=
  match codec with
  | .plain => False
  | .gzip => MadeOf libraries.gzip file contents
  | .zstd => MadeOf libraries.zstd file contents

theorem openDecoded_iff {path : String} {codec : Codec}
    (hmade : Compressed libraries codec file contents)
    (h : openDecoded libraries path codec file = .ok stream) :
    stream = contents.flatten ↔ codec = .zstd ∨ ∀ content ∈ contents.tail, content = [] := by
  cases codec with
  | plain => exact hmade.elim
  | gzip =>
    obtain ⟨content, later, rfl, hfirst⟩ := gzDecoder_first hmade
    simp only [openDecoded, hfirst] at h
    split at h
    · cases h
    · obtain rfl := Except.ok.inj h
      simp
  | zstd =>
    simp only [openDecoded, zstdDecoder_all hmade] at h
    split at h
    · cases h
    · obtain rfl := Except.ok.inj h
      simp

theorem wholeSlabs_flatten (stream : Bytes) (sizes : Nat → ℕ+) :
    (wholeSlabs stream sizes).flatten = stream := by
  obtain ⟨pieces, hdrain, hflat, -⟩ := drain_stream true [] stream sizes
  simp only [List.nil_append, List.length_nil] at hdrain
  rw [wholeSlabs, hdrain, Option.getD_some, hflat]

theorem readTaskWhole_ok {env : Env} {sizes : Nat → ℕ+} {task : FileTask} {seen : Stat}
    {slabs : List Bytes} {record : FileProgress}
    (h : readTaskWhole env libraries sizes task seen file = .ok (slabs, record)) :
    openDecoded libraries task.path (codecOf task.path) file = .ok slabs.flatten := by
  obtain ⟨-, -, h⟩ := bind_ok.mp h
  obtain ⟨stream, hopened, h⟩ := bind_ok.mp h
  obtain ⟨-, -, h⟩ := bind_ok.mp h
  obtain ⟨rfl, -⟩ := Prod.mk.inj (Except.ok.inj h)
  rw [wholeSlabs_flatten]
  exact hopened

theorem readTaskCsv_ok {hasHeader staged : Bool} {setup : CsvSetup hasHeader} {task : FileTask}
    {seen : Stat} {read : CsvRead}
    (h : readTaskCsv staged libraries setup task seen file = .ok read) :
    openDecoded libraries task.path (codecOf task.path) file = .ok read.parsed := by
  obtain ⟨-, -, h⟩ := bind_ok.mp h
  obtain ⟨surveyed, -, h⟩ := bind_ok.mp h
  obtain ⟨converted, hopened, h⟩ := bind_ok.mp h
  obtain ⟨objects, -, h⟩ := bind_ok.mp h
  obtain rfl := Except.ok.inj h
  exact hopened

/-- A compressed file that is recorded complete was delivered whole exactly when its codec
is zstd or everything behind the first member is empty. -/
theorem delivered_whole_iff (libraries : Decompressors) (task : FileTask) (file : Bytes)
    (contents : List Bytes) (hmade : Compressed libraries (codecOf task.path) file contents) :
    (∀ env sizes seen slabs record,
        readTaskWhole env libraries sizes task seen file = .ok (slabs, record) →
        (slabs.flatten = contents.flatten ↔
          codecOf task.path = .zstd ∨ ∀ content ∈ contents.tail, content = [])) ∧
      ∀ (hasHeader staged : Bool) (setup : CsvSetup hasHeader) seen read,
        readTaskCsv staged libraries setup task seen file = .ok read →
        (read.parsed = contents.flatten ↔
          codecOf task.path = .zstd ∨ ∀ content ∈ contents.tail, content = []) := by
  constructor
  · intro env sizes seen slabs record h
    exact openDecoded_iff hmade (readTaskWhole_ok h)
  · intro hasHeader staged setup seen read h
    exact openDecoded_iff hmade (readTaskCsv_ok h)

/-! ## Two members -/

/-- A gzip member of one stored block: its header without options, the block, and the
checksum and size behind it. -/
def storedMember : Bytes → Option (Bytes × Bytes)
  | 0x1f :: 0x8b :: 8 :: 0 :: rest =>
    match rest.drop 6 with
    | 1 :: low :: high :: _ :: _ :: block =>
      let size := low.toNat + 256 * high.toNat
      if block.length < size + 8 then none else some (block.take size, block.drop (size + 8))
    | _ => none
  | _ => none

theorem storedMember_shrinks {file content rest : Bytes}
    (h : storedMember file = some (content, rest)) : rest.length < file.length := by
  unfold storedMember at h
  split at h
  · rename_i behind
    split at h
    · rename_i low high check check' block hdrop
      simp only [Option.ite_none_left_eq_some, Option.some.injEq, Prod.mk.injEq] at h
      obtain ⟨-, -, rfl⟩ := h
      have hblock := congrArg List.length hdrop
      simp only [List.length_drop, List.length_cons] at hblock ⊢
      omega
    · cases h
  · cases h

def storedLibraries : Decompressors where
  gzip := ⟨storedMember, storedMember_shrinks⟩
  zstd := ⟨fun _ => none, fun h => nomatch h⟩

/-- Two lines, compressed one by one and put behind one another. -/
def twoMembers : Bytes :=
  [31, 139, 8, 0, 0, 0, 0, 0, 4, 3, 1, 8, 0, 247, 255, 123, 34, 97, 34, 58, 49, 125, 10, 70, 163,
    232, 116, 8, 0, 0, 0] ++
  [31, 139, 8, 0, 0, 0, 0, 0, 4, 3, 1, 8, 0, 247, 255, 123, 34, 97, 34, 58, 50, 125, 10, 31, 29,
    174, 118, 8, 0, 0, 0]

def firstLine : Bytes := [123, 34, 97, 34, 58, 49, 125, 10]

def secondLine : Bytes := [123, 34, 97, 34, 58, 50, 125, 10]

theorem twoMembers_madeOf :
    Compressed storedLibraries .gzip twoMembers [firstLine, secondLine] :=
  .more (by decide : storedMember twoMembers = some (firstLine, twoMembers.drop 31))
    (.one (by decide))

def twoMembersTask : FileTask := fresh ⟨"rows.jsonl.gz", 62, none, none⟩

def lineEnv : Env := ⟨false, true, fun _ => "", fun _ => none⟩

/-- Only the first line is delivered, and the file is on record as complete. -/
theorem second_member_lost :
    Compressed storedLibraries (codecOf twoMembersTask.path) twoMembers
        [firstLine, secondLine] ∧
      readTaskWhole lineEnv storedLibraries (fun _ => ⟨slabBytes, by decide⟩) twoMembersTask
        ⟨62, none⟩ twoMembers = .ok ([firstLine], twoMembersTask.complete) ∧
      [firstLine].flatten ≠ [firstLine, secondLine].flatten := by
  refine ⟨?_, by decide +kernel, by decide⟩
  have hcodec : codecOf twoMembersTask.path = .gzip := by decide +kernel
  rw [hcodec]
  exact twoMembers_madeOf

theorem two_members_delivered :
    Compressed storedLibraries (codecOf twoMembersTask.path) twoMembers
        [firstLine, secondLine] ∧
      ∀ env sizes seen slabs record, readTaskWhole env storedLibraries sizes twoMembersTask seen
          twoMembers = .ok (slabs, record) →
        (slabs.flatten = [firstLine, secondLine].flatten ↔
          codecOf twoMembersTask.path = .zstd ∨ ∀ content ∈ [secondLine], content = []) := by
  have hmade : Compressed storedLibraries (codecOf twoMembersTask.path) twoMembers
      [firstLine, secondLine] := by
    have hcodec : codecOf twoMembersTask.path = .gzip := by decide +kernel
    rw [hcodec]
    exact twoMembers_madeOf
  exact ⟨hmade, (delivered_whole_iff storedLibraries twoMembersTask twoMembers
    [firstLine, secondLine] hmade).1⟩

end FileSource
