import RdltConnectors.File.Lease
import RdltConnectors.Library.Separator

/-!
# The names and documents of the file destination

Every name the destination writes, the names a Replace may delete, and the two
documents a commit leaves beside its files: the manifest of the names it is about to
publish and the log of the receipts. A file name ends in the load, the unit and the
index, so it is read from the right.
-/
namespace FileLoad

open FileLease (DestinationError)
open Separator

def layoutFormatVersion : Nat := 2

inductive DestFormat where
  | parquet
  | jsonl
  deriving DecidableEq, Repr

def DestFormat.all : List DestFormat := [.parquet, .jsonl]

def DestFormat.extension : DestFormat → String
  | .parquet => "parquet"
  | .jsonl => "jsonl"

def commitsFile (scope : String) : String := s!"_rdlt_commits.{scope}.json"

def manifestFile (scope : String) : String := s!"_rdlt_manifest.{scope}.json"

/-- The name of a staged part below its load's staging directory. -/
def stagedName (table : String) (partition : Option String) (index : Nat)
    (extension : String) : String :=
  let slug := partition.getD "all"
  s!"{table}/{slug}-{index}.{extension}"

def stagingTail (scope load name : String) : String := s!".rdlt-staging/{scope}/{load}/{name}"

/-- The name of a published part below the output root. -/
def finalTail (table : String) (partition : Option String) (load : String)
    (seq index : Nat) (extension : String) : String :=
  match partition with
  | some partition => s!"{table}/{partition}/part-{load}-{seq}-{index}.{extension}"
  | none => s!"{table}/part-{load}-{seq}-{index}.{extension}"

/-! ## Partition directories -/

/-- Uppercase. -/
def hexDigit (n : Nat) : Char := if n < 10 then Char.ofNat (48 + n) else Char.ofNat (55 + n)

def percentEncoded (byte : Nat) : List Char := ['%', hexDigit (byte / 16), hexDigit (byte % 16)]

def isAsciiAlphanumeric (byte : Nat) : Bool :=
  (48 ≤ byte && byte ≤ 57) || (65 ≤ byte && byte ≤ 90) || (97 ≤ byte && byte ≤ 122)

/-- `-` anywhere, `_` and `.` except in front. -/
def survives (position byte : Nat) : Bool :=
  isAsciiAlphanumeric byte || byte == 45 || (position != 0 && (byte == 95 || byte == 46))

def encodeByte (position byte : Nat) : List Char :=
  if survives position byte then [Char.ofNat byte] else percentEncoded byte

def utf8Bytes (value : String) : List Nat :=
  (value.toList.flatMap String.utf8EncodeChar).map UInt8.toNat

def windowsReservedBasenames : List String :=
  ["CON", "PRN", "AUX", "NUL", "COM1", "COM2", "COM3", "COM4", "COM5", "COM6", "COM7", "COM8",
    "COM9", "LPT1", "LPT2", "LPT3", "LPT4", "LPT5", "LPT6", "LPT7", "LPT8", "LPT9"]

/-- A device name loses its first letter to an escape. -/
def escapeIfWindowsReserved (encoded : List Char) : List Char :=
  let basename := encoded.takeWhile (· ≠ '.')
  if windowsReservedBasenames.any fun reserved => reserved.toList = basename.map Char.toUpper then
    match encoded with
    | [] => []
    | first :: rest => percentEncoded first.toNat ++ rest
  else encoded

def encodePartitionValue (value : String) : String :=
  if value.isEmpty then "__empty__"
  else
    let encoded := (utf8Bytes value).zipIdx.flatMap fun (byte, position) => encodeByte position byte
    String.ofList (escapeIfWindowsReserved encoded)

def nullPartition : String := "__null__"

/-- The directory of a rendered partition value. -/
def partitionSlug : Option String → String
  | none => nullPartition
  | some value => encodePartitionValue value

/-! ## What a Replace may delete -/

/-- The tail of a name below a table's directory. -/
def tailUnder (table name : String) : Option String :=
  (name.toList.dropPrefix? (table ++ "/").toList).map String.ofList

def numeric (text : List Char) : Bool := !text.isEmpty && text.all Char.isDigit

/-- `part-<load>-<seq>-<index>.<ext>`, read from the right. -/
def ownsName (name : List Char) : Bool :=
  match name.dropPrefix? "part-".toList with
  | none => false
  | some stem =>
    match DestFormat.all.findSome? fun f => stem.dropSuffix? ("." ++ f.extension).toList with
    | none => false
    | some stem =>
      match rsplitOnce '-' stem with
      | none => false
      | some (rest, index) =>
        match rsplitOnce '-' rest with
        | none => false
        | some (load, seq) => numeric index && numeric seq && !load.isEmpty

/-- The shape of the parts this destination writes, in at most one partition directory. -/
def owns (tail : String) : Bool :=
  match tail.toList.splitOn '/' with
  | [name] => ownsName name
  | [directory, name] => !directory.isEmpty && ownsName name
  | _ => false

def plainTopLevelParquet (tail : String) : Bool :=
  !tail.toList.contains '/' && ".parquet".toList.isSuffixOf tail.toList && tail != ".parquet"

/-! ## The persisted documents -/

/-- The bytes of a document, up to what its decoder makes of them. -/
inductive DocBytes (α : Type) where
  | json (doc : α)
  | unparseable (message : String)

structure CommitLog where
  formatVersion : Nat
  receipts : List (String × Nat)
  deriving DecidableEq, Repr

/-- The names one commit intends to publish. -/
structure Manifest where
  formatVersion : Nat
  loadId : String
  commitSeq : Nat
  names : List String
  deriving DecidableEq, Repr

def versionGate (doc file : String) (found : Nat) : Except DestinationError Unit :=
  if found > layoutFormatVersion then
    .error (.fatal s!"{doc} `{file}` format v{found} is newer than this build supports (v{layoutFormatVersion}); upgrade rdlt instead of resetting")
  else if found < layoutFormatVersion then
    .error (.fatal s!"{doc} `{file}` format v{found} predates this build (v{layoutFormatVersion}): the partition-directory encoding changed; point the destination at a fresh path or delete the old output")
  else .ok ()

/-- Absent means that there was no attempt before. -/
def Manifest.decode (bytes : Option (DocBytes Manifest)) (file : String) :
    Except DestinationError (Option Manifest) :=
  match bytes with
  | none => .ok none
  | some (.unparseable message) => .error (.fatal s!"unreadable manifest `{file}`: {message}")
  | some (.json manifest) => do
    versionGate "manifest" file manifest.formatVersion
    return some manifest

/-- Absent means empty. -/
def CommitLog.decode (bytes : Option (DocBytes CommitLog)) (file : String) :
    Except DestinationError CommitLog :=
  match bytes with
  | none => .ok ⟨0, []⟩
  | some (.unparseable message) => .error (.fatal s!"unreadable commit log `{file}`: {message}")
  | some (.json log) => do
    versionGate "commit log" file log.formatVersion
    return log

/-! ## Names are read from the right -/

/-- The directory of a part, relative to the output root. -/
def directory (table : String) : Option String → List Char
  | none => table.toList
  | some partition => table.toList ++ '/' :: partition.toList

theorem finalTail_toList (table : String) (partition : Option String) (load : String)
    (seq index : Nat) (extension : String) :
    (finalTail table partition load seq index extension).toList =
      ((directory table partition ++ "/part-".toList ++ load.toList) ++ '-' :: Nat.toDigits 10 seq)
        ++ '-' :: (Nat.toDigits 10 index ++ '.' :: extension.toList) := by
  cases partition <;> simp [finalTail, directory, toString]

theorem stagedName_toList (table : String) (partition : Option String) (index : Nat)
    (extension : String) :
    (stagedName table partition index extension).toList =
      (table.toList ++ '/' :: (partition.getD "all").toList)
        ++ '-' :: (Nat.toDigits 10 index ++ '.' :: extension.toList) := by
  simp [stagedName, toString]

theorem dash_not_mem_digits (n : Nat) : '-' ∉ Nat.toDigits 10 n := fun h =>
  absurd (Nat.isDigit_of_mem_toDigits (by omega) (by omega) h) (by decide)

theorem toDigits_inj {m n : Nat} (h : Nat.toDigits 10 m = Nat.toDigits 10 n) : m = n := by
  rw [← Nat.ofDigitChars_ten_toDigits (n := m), h, Nat.ofDigitChars_ten_toDigits]

theorem dash_not_mem_extension (format : DestFormat) : '-' ∉ format.extension.toList := by
  cases format <;> decide

theorem dot_not_mem_extension (format : DestFormat) : '.' ∉ format.extension.toList := by
  cases format <;> decide

theorem extension_inj {f f' : DestFormat} (h : f.extension.toList = f'.extension.toList) :
    f = f' := by
  revert h
  cases f <;> cases f' <;> decide

/-- What a name ends in: a dash, an index and an extension. -/
theorem suffix_inj {front front' : List Char} {index index' : Nat} {f f' : DestFormat}
    (h : front ++ '-' :: (Nat.toDigits 10 index ++ '.' :: f.extension.toList) =
      front' ++ '-' :: (Nat.toDigits 10 index' ++ '.' :: f'.extension.toList)) :
    front = front' ∧ index = index' ∧ f = f' := by
  have hdash (n : Nat) (format : DestFormat) :
      '-' ∉ Nat.toDigits 10 n ++ '.' :: format.extension.toList := by
    simp only [List.mem_append, List.mem_cons, not_or]
    exact ⟨dash_not_mem_digits n, by decide, dash_not_mem_extension format⟩
  obtain ⟨hfront, hbehind⟩ := append_separator_inj (hdash index f) (hdash index' f') h
  obtain ⟨hindex, hext⟩ :=
    append_separator_inj (dot_not_mem_extension f) (dot_not_mem_extension f') hbehind
  exact ⟨hfront, toDigits_inj hindex, extension_inj hext⟩

variable {table table' load : String} {partition partition' : Option String} {f f' : DestFormat}
  {seq seq' index index' : Nat}

/-- A load's final name tells the unit, the index, the format and the directory. -/
theorem finalTail_inj
    (h : finalTail table partition load seq index f.extension =
      finalTail table' partition' load seq' index' f'.extension) :
    directory table partition = directory table' partition' ∧ seq = seq' ∧ index = index' ∧
      f = f' := by
  have hchars := congrArg String.toList h
  rw [finalTail_toList, finalTail_toList] at hchars
  obtain ⟨hfront, hindex, hformat⟩ := suffix_inj hchars
  obtain ⟨hload, hseq⟩ :=
    append_separator_inj (dash_not_mem_digits seq) (dash_not_mem_digits seq') hfront
  exact ⟨List.append_cancel_right (List.append_cancel_right hload), toDigits_inj hseq, hindex,
    hformat⟩

/-- A partition directory is one path segment. -/
def OneSegment (partition : Option String) : Prop := ∀ slug ∈ partition, '/' ∉ slug.toList

/-- Parts of one session are all in partition directories or all in none. -/
theorem directory_inj (hsome : partition.isSome = partition'.isSome) (h : OneSegment partition)
    (h' : OneSegment partition') (heq : directory table partition = directory table' partition') :
    table = table' ∧ partition = partition' := by
  cases partition with
  | none =>
    cases partition' with
    | none => exact ⟨String.toList_inj.1 heq, rfl⟩
    | some slug' => cases hsome
  | some slug =>
    cases partition' with
    | none => cases hsome
    | some slug' =>
      obtain ⟨htable, hslug⟩ := append_separator_inj (h slug rfl) (h' slug' rfl) heq
      exact ⟨String.toList_inj.1 htable, congrArg some (String.toList_inj.1 hslug)⟩

theorem stagedName_inj (hsome : partition.isSome = partition'.isSome) (h : OneSegment partition)
    (h' : OneSegment partition')
    (heq : stagedName table partition index f.extension =
      stagedName table' partition' index' f'.extension) :
    table = table' ∧ partition = partition' ∧ index = index' ∧ f = f' := by
  have hchars := congrArg String.toList heq
  rw [stagedName_toList, stagedName_toList] at hchars
  obtain ⟨hfront, hindex, hformat⟩ := suffix_inj hchars
  cases partition with
  | none =>
    cases partition' with
    | none =>
      have htable := List.append_cancel_right hfront
      exact ⟨String.toList_inj.1 htable, rfl, hindex, hformat⟩
    | some slug' => cases hsome
  | some slug =>
    cases partition' with
    | none => cases hsome
    | some slug' =>
      obtain ⟨htable, hslug⟩ := append_separator_inj (h slug rfl) (h' slug' rfl) hfront
      exact ⟨String.toList_inj.1 htable, congrArg some (String.toList_inj.1 hslug), hindex, hformat⟩

theorem stagingTail_inj {scope load name name' : String}
    (h : stagingTail scope load name = stagingTail scope load name') : name = name' := by
  have hchars := congrArg String.toList h
  unfold stagingTail at hchars
  rw [String.toList_append, String.toList_append (t := toString name')] at hchars
  exact String.toList_inj.1 (List.append_cancel_left hchars)

/-! ## Partition directories are one segment -/

theorem char_ne_slash {byte : Nat} (h : byte ≠ 47) : Char.ofNat byte ≠ '/' := by
  unfold Char.ofNat
  split
  · exact fun heq => h (congrArg Char.toNat heq)
  · decide

theorem hexDigit_ne_slash (n : Nat) : hexDigit n ≠ '/' := by
  unfold hexDigit
  split
  · exact char_ne_slash (by omega)
  · exact char_ne_slash (by omega)

theorem slash_not_mem_percentEncoded (byte : Nat) : '/' ∉ percentEncoded byte := by
  simp only [percentEncoded, List.mem_cons, List.not_mem_nil, or_false, not_or]
  exact ⟨by decide, (hexDigit_ne_slash _).symm, (hexDigit_ne_slash _).symm⟩

theorem slash_not_mem_encodeByte (position byte : Nat) : '/' ∉ encodeByte position byte := by
  unfold encodeByte
  split
  · next hsurvives =>
    have hne : byte ≠ 47 := by
      rintro rfl
      simp [survives, isAsciiAlphanumeric] at hsurvives
    rw [List.mem_singleton]
    exact (char_ne_slash hne).symm
  · exact slash_not_mem_percentEncoded byte

theorem slash_not_mem_escape {encoded : List Char} (h : '/' ∉ encoded) :
    '/' ∉ escapeIfWindowsReserved encoded := by
  unfold escapeIfWindowsReserved
  dsimp only
  split
  · cases encoded with
    | nil => exact h
    | cons first rest =>
      rw [List.mem_append, not_or]
      exact ⟨slash_not_mem_percentEncoded first.toNat, fun hrest => h (by simp [hrest])⟩
  · exact h

theorem slash_not_mem_encodePartitionValue (value : String) :
    '/' ∉ (encodePartitionValue value).toList := by
  unfold encodePartitionValue
  split
  · decide
  · rw [String.toList_ofList]
    refine slash_not_mem_escape fun hmem => ?_
    obtain ⟨⟨byte, position⟩, -, hslash⟩ := List.mem_flatMap.1 hmem
    exact slash_not_mem_encodeByte position byte hslash

/-- The directory of a rendered value is one path segment. -/
theorem slash_not_mem_partitionSlug (value : Option String) : '/' ∉ (partitionSlug value).toList := by
  cases value with
  | none => decide
  | some value => exact slash_not_mem_encodePartitionValue value

end FileLoad
