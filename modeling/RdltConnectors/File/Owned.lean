import RdltConnectors.File.Outcome
import RdltConnectors.File.Partition
import RdltConnectors.Library.Digits

/-!
# The parts that a Replace owns

The recogniser of the truncation reads a name from the right, the builder writes it from the
left, and the load between them may hold dashes, digits and dots itself. The recogniser takes
what the builder writes, with numerals of any width.
-/
namespace FileLoad

open Separator
open Digits (padLeft allDigits_padLeft length_padLeft value_padLeft value_inj value_lt)

/-- A part's name, its numerals as they are written. -/
def partName (load seq index : String) (format : DestFormat) : String :=
  s!"part-{load}-{seq}-{index}.{format.extension}"

/-- A name below a table's directory. -/
def partTail (partition : Option String) (name : String) : String :=
  match partition with
  | some partition => s!"{partition}/{name}"
  | none => name

/-- A numeral, leading zeros or not. -/
def Numeral (text : String) : Prop := text ≠ "" ∧ ∀ c ∈ text.toList, c.isDigit

theorem numeric_iff (text : List Char) : numeric text = true ↔ Numeral (String.ofList text) := by
  simp [numeric, Numeral, List.isEmpty_eq_false_iff]

/-- A number in a field. -/
def padded (width n : Nat) : String := String.ofList (padLeft width n)

theorem padded_zero (n : Nat) : padded 0 n = toString n := by
  simp [padded, padLeft, toString, Nat.repr]

/-- Zeros in front are all that numerals add to numbers. -/
theorem numeral_iff {text : String} : Numeral text ↔ ∃ width n, text = padded width n := by
  constructor
  · rintro ⟨hne, hdigits⟩
    have hwidth : 0 < text.toList.length := List.length_pos_iff.2 (by simpa using hne)
    have hvalue := value_lt hdigits
    refine ⟨text.toList.length, Digits.value text.toList, String.toList_inj.1 ?_⟩
    rw [padded, String.toList_ofList]
    exact value_inj (length_padLeft hwidth hvalue).symm hdigits (allDigits_padLeft _ _)
      (value_padLeft _ _).symm
  · rintro ⟨width, n, rfl⟩
    constructor
    · intro h
      have hnil : padLeft width n = [] := by simpa [padded] using h
      exact Nat.toDigits_ne_nil (List.append_eq_nil_iff.1 hnil).2
    · rw [padded, String.toList_ofList]
      exact allDigits_padLeft width n

theorem dash_not_mem_numeral {text : String} (h : Numeral text) : '-' ∉ text.toList := fun hmem =>
  absurd (h.2 _ hmem) (by decide)

/-! ## Names -/

theorem partName_toList (load seq index : String) (format : DestFormat) :
    (partName load seq index format).toList = "part-".toList ++
      (((load.toList ++ '-' :: seq.toList) ++ '-' :: index.toList) ++
        '.' :: format.extension.toList) := by
  simp [partName, toString]

theorem dropSuffix_extension {stem front : List Char} {f : DestFormat} :
    stem.dropSuffix? ("." ++ f.extension).toList = some front ↔
      stem = front ++ '.' :: f.extension.toList := by
  rw [List.dropSuffix?_eq_some_iff, String.toList_append]
  constructor
  · rintro ⟨suffix, rfl, hsuffix⟩
    rw [eq_of_beq hsuffix]
    rfl
  · rintro rfl
    exact ⟨_, rfl, BEq.rfl⟩

/-- The extensions do not overlap, so the first that matches is the only one. -/
theorem findSome_extension {stem front : List Char} :
    (DestFormat.all.findSome? fun f => stem.dropSuffix? ("." ++ f.extension).toList) =
      some front ↔ ∃ f : DestFormat, stem = front ++ '.' :: f.extension.toList := by
  rw [List.findSome?_eq_some_iff]
  constructor
  · rintro ⟨before, f, behind, -, hdrop, -⟩
    exact ⟨f, dropSuffix_extension.1 hdrop⟩
  · rintro ⟨f, rfl⟩
    have hother {g : DestFormat} (hne : g ≠ f) :
        (front ++ '.' :: f.extension.toList).dropSuffix? ("." ++ g.extension).toList = none := by
      cases hdrop : (front ++ '.' :: f.extension.toList).dropSuffix? ("." ++ g.extension).toList with
      | none => rfl
      | some front' =>
        have heq := dropSuffix_extension.1 hdrop
        obtain ⟨-, hext⟩ :=
          append_separator_inj (dot_not_mem_extension f) (dot_not_mem_extension g) heq
        exact absurd (extension_inj hext).symm hne
    cases f with
    | parquet => exact ⟨[], .parquet, [.jsonl], rfl, dropSuffix_extension.2 rfl, by simp⟩
    | jsonl =>
      refine ⟨[.parquet], .jsonl, [], rfl, dropSuffix_extension.2 rfl, ?_⟩
      intro g hg
      rw [List.mem_singleton] at hg
      subst hg
      exact hother (by decide)

theorem dropPart {name stem : List Char} :
    name.dropPrefix? "part-".toList = some stem ↔ name = "part-".toList ++ stem := by
  rw [List.dropPrefix?_eq_some_iff]
  constructor
  · rintro ⟨front, rfl, hfront⟩
    rw [eq_of_beq hfront]
  · rintro rfl
    exact ⟨_, rfl, BEq.rfl⟩

/-- The recogniser's names are the builder's, the numerals of any width. -/
theorem ownsName_iff {name : List Char} :
    ownsName name = true ↔ ∃ load seq index format, load ≠ "" ∧ Numeral seq ∧ Numeral index ∧
      name = (partName load seq index format).toList := by
  constructor
  · intro h
    unfold ownsName at h
    split at h
    · cases h
    rename_i stem hpart
    split at h
    · cases h
    rename_i front hextension
    split at h
    · cases h
    rename_i rest index hindex
    split at h
    · cases h
    rename_i load seq hseq
    obtain ⟨format, rfl⟩ := findSome_extension.1 hextension
    obtain ⟨rfl, -⟩ := rsplitOnce_eq_some.1 hindex
    obtain ⟨rfl, -⟩ := rsplitOnce_eq_some.1 hseq
    rw [Bool.and_eq_true, Bool.and_eq_true, numeric_iff, numeric_iff] at h
    refine ⟨String.ofList load, String.ofList seq, String.ofList index, format, ?_, h.1.2, h.1.1, ?_⟩
    · simpa using h.2
    · simp only [partName_toList, String.toList_ofList]
      exact dropPart.1 hpart
  · rintro ⟨load, seq, index, format, hload, hseq, hindex, rfl⟩
    rw [partName_toList, ownsName, dropPart.2 rfl]
    simp only
    rw [findSome_extension.2 ⟨format, rfl⟩]
    simp only
    rw [rsplitOnce_append _ (dash_not_mem_numeral hindex)]
    simp only
    rw [rsplitOnce_append _ (dash_not_mem_numeral hseq)]
    simp only [Bool.and_eq_true, numeric_iff, String.ofList_toList]
    exact ⟨⟨hindex, hseq⟩, by simpa using hload⟩

theorem slash_not_mem_numeral {text : String} (h : Numeral text) : '/' ∉ text.toList := fun hmem =>
  absurd (h.2 _ hmem) (by decide)

theorem slash_not_mem_partName {load seq index : String} {format : DestFormat}
    (hseq : Numeral seq) (hindex : Numeral index) :
    '/' ∉ (partName load seq index format).toList ↔ '/' ∉ load.toList := by
  have hformat : '/' ∉ format.extension.toList := by cases format <;> decide
  have hpart : '/' ∉ "part-".toList := by decide
  have hdash : '/' ≠ '-' := by decide
  have hdot : '/' ≠ '.' := by decide
  rw [partName_toList]
  simp only [List.mem_append, List.mem_cons, hpart, slash_not_mem_numeral hseq,
    slash_not_mem_numeral hindex, hformat, hdash, hdot, false_or, or_false]

/-! ## Tails -/

theorem partTail_some (directory name : String) :
    (partTail (some directory) name).toList = directory.toList ++ '/' :: name.toList := by
  simp [partTail, toString]

/-- A builder's tail, zeros in front of its numerals or not. -/
def OwnShape (tail : String) : Prop :=
  ∃ (directory : Option String) (load : String) (seqWidth seq indexWidth index : Nat)
    (format : DestFormat),
    (∀ slug ∈ directory, slug ≠ "" ∧ '/' ∉ slug.toList) ∧ load ≠ "" ∧ '/' ∉ load.toList ∧
      tail = partTail directory
        (partName load (padded seqWidth seq) (padded indexWidth index) format)

theorem owns_name {tail : String} (h : '/' ∉ tail.toList) :
    owns tail = ownsName tail.toList := by
  unfold owns
  rw [splitOn_eq_one.2 ⟨rfl, h⟩]

theorem owns_directory {directory name : String} (h : '/' ∉ directory.toList)
    (h' : '/' ∉ name.toList) :
    owns (partTail (some directory) name) = (!directory.isEmpty && ownsName name.toList) := by
  unfold owns
  rw [splitOn_eq_two.2 ⟨partTail_some directory name, h, h'⟩]
  rw [Bool.eq_iff_iff]
  simp

theorem ownShape_of_owns {tail : String} (h : owns tail = true) : OwnShape tail := by
  unfold owns at h
  split at h
  · rename_i name hsplit
    obtain ⟨rfl, hslash⟩ := splitOn_eq_one.1 hsplit
    obtain ⟨load, seq, index, format, hload, hseq, hindex, hname⟩ := ownsName_iff.1 h
    rw [hname, slash_not_mem_partName hseq hindex] at hslash
    obtain ⟨seqWidth, seq, rfl⟩ := numeral_iff.1 hseq
    obtain ⟨indexWidth, index, rfl⟩ := numeral_iff.1 hindex
    exact ⟨none, load, seqWidth, seq, indexWidth, index, format, by simp, hload, hslash,
      String.toList_inj.1 hname⟩
  · rename_i directory name hsplit
    obtain ⟨htail, hdirectory, hslash⟩ := splitOn_eq_two.1 hsplit
    rw [Bool.and_eq_true] at h
    obtain ⟨load, seq, index, format, hload, hseq, hindex, rfl⟩ := ownsName_iff.1 h.2
    rw [slash_not_mem_partName hseq hindex] at hslash
    obtain ⟨seqWidth, seq, rfl⟩ := numeral_iff.1 hseq
    obtain ⟨indexWidth, index, rfl⟩ := numeral_iff.1 hindex
    refine ⟨some (String.ofList directory), load, seqWidth, seq, indexWidth, index, format, ?_,
      hload, hslash, ?_⟩
    · rintro slug ⟨⟩
      exact ⟨by simpa using h.1, by rwa [String.toList_ofList]⟩
    · rw [← String.toList_inj, partTail_some, String.toList_ofList, htail]
  · cases h

theorem owns_of_ownShape {tail : String} (h : OwnShape tail) : owns tail = true := by
  obtain ⟨directory, load, seqWidth, seq, indexWidth, index, format, hdirectory, hload, hslash,
    rfl⟩ := h
  have hseq := numeral_iff.2 ⟨seqWidth, seq, rfl⟩
  have hindex := numeral_iff.2 ⟨indexWidth, index, rfl⟩
  have hname : ownsName (partName load (padded seqWidth seq) (padded indexWidth index)
      format).toList = true := ownsName_iff.2 ⟨load, _, _, format, hload, hseq, hindex, rfl⟩
  replace hslash : '/' ∉ (partName load (padded seqWidth seq) (padded indexWidth index)
      format).toList := (slash_not_mem_partName hseq hindex).2 hslash
  cases directory with
  | none => exact (owns_name hslash).trans hname
  | some directory =>
    obtain ⟨hne, hclean⟩ := hdirectory directory rfl
    rw [owns_directory hclean hslash, hname]
    simpa using hne

/-! ## Builder and recogniser -/

theorem finalTail_eq (table : String) (partition : Option String) (load : String)
    (seq index : Nat) (format : DestFormat) :
    finalTail table partition load seq index format.extension =
      s!"{table}/{partTail partition (partName load (padded 0 seq) (padded 0 index) format)}" := by
  rw [padded_zero, padded_zero]
  cases partition <;> simp [finalTail, partTail, partName, ← String.toList_inj, toString]

/-- The directory of a part: none, the NULL partition's or a value's. -/
def slugOf (value : Option (Option String)) : Option String := value.map partitionSlug

theorem partitionSlug_inj {value value' : Option String}
    (h : partitionSlug value = partitionSlug value') : value = value' := by
  cases value with
  | none =>
    cases value' with
    | none => rfl
    | some value' => exact absurd h.symm (encode_ne_null value')
  | some value =>
    cases value' with
    | none => exact absurd h (encode_ne_null value)
    | some value' => exact congrArg some (encode_inj h)

theorem partitionSlug_ne_empty (value : Option String) : partitionSlug value ≠ "" := by
  cases value with
  | none => decide
  | some value =>
    intro h
    have hread := decode_encode value
    have hempty : decodePartitionValue "" = some "" := fromUTF8_toUTF8 ""
    rw [show encodePartitionValue value = "" from h, hempty] at hread
    obtain rfl := Option.some.inj hread
    exact absurd h (by decide)

theorem oneSegment_slugOf (value : Option (Option String)) : OneSegment (slugOf value) := by
  intro slug hslug
  obtain ⟨value, -, rfl⟩ := Option.map_eq_some_iff.1 hslug
  exact slash_not_mem_partitionSlug value

variable {table table' load load' : String} {value value' : Option (Option String)}
  {f f' : DestFormat} {seq seq' index index' : Nat}

/-- Every name this destination writes is owned. -/
theorem owns_finalTail (hload : load ≠ "") (hslash : '/' ∉ load.toList) :
    ∃ tail, tailUnder table (finalTail table (slugOf value) load seq index f.extension) =
      some tail ∧ owns tail = true := by
  refine ⟨_, tailUnder_eq_some.2 (finalTail_eq table (slugOf value) load seq index f), ?_⟩
  refine owns_of_ownShape ⟨slugOf value, load, 0, seq, 0, index, f, ?_, hload, hslash, rfl⟩
  intro slug hslug
  obtain ⟨value, -, rfl⟩ := Option.map_eq_some_iff.1 hslug
  exact ⟨partitionSlug_ne_empty value, slash_not_mem_partitionSlug value⟩

theorem slugOf_inj (h : slugOf value = slugOf value') : value = value' :=
  Option.map_injective (fun _ _ => partitionSlug_inj) h

theorem slash_mem_directory (table : String) (value : Option String) :
    '/' ∈ directory table (slugOf (some value)) := by
  simp [directory, slugOf]

theorem directory_none (table : String) : directory table (slugOf none) = table.toList := rfl

theorem directory_ne (table : String) (value : Option String) :
    directory table (slugOf (some value)) ≠ table.toList := by
  intro h
  have hlength := congrArg List.length h
  simp [directory, slugOf] at hlength

/-- Two directories are one path only for a table's name that is a path itself. -/
theorem directory_slugOf_inj
    (h : '/' ∉ table.toList ∧ '/' ∉ table'.toList ∨ table = table' ∨ value.isSome = value'.isSome)
    (heq : directory table (slugOf value) = directory table' (slugOf value')) :
    table = table' ∧ value = value' := by
  by_cases hsome : value.isSome = value'.isSome
  · have hslug : (slugOf value).isSome = (slugOf value').isSome := by simpa [slugOf] using hsome
    obtain ⟨rfl, hvalue⟩ :=
      directory_inj hslug (oneSegment_slugOf value) (oneSegment_slugOf value') heq
    exact ⟨rfl, slugOf_inj hvalue⟩
  · cases value with
    | none =>
      cases value' with
      | none => exact absurd rfl hsome
      | some value' =>
        rw [directory_none] at heq
        obtain ⟨hclean, -⟩ | rfl | hboth := h
        · exact absurd (heq ▸ slash_mem_directory table' value') hclean
        · exact absurd heq.symm (directory_ne table value')
        · cases hboth
    | some value =>
      cases value' with
      | some value' => exact absurd rfl hsome
      | none =>
        rw [directory_none] at heq
        obtain ⟨-, hclean'⟩ | rfl | hboth := h
        · exact absurd (heq ▸ slash_mem_directory table value) hclean'
        · exact absurd heq (directory_ne table value)
        · cases hboth

/-- A load's final name tells its load. -/
theorem load_of_finalTail (hload : '/' ∉ load.toList) (hload' : '/' ∉ load'.toList)
    (h : finalTail table (slugOf value) load seq index f.extension =
      finalTail table' (slugOf value') load' seq' index' f'.extension) :
    load = load' ∧ seq = seq' ∧ index = index' ∧ f = f' ∧
      directory table (slugOf value) = directory table' (slugOf value') := by
  have hchars := congrArg String.toList h
  rw [finalTail_toList, finalTail_toList] at hchars
  obtain ⟨hfront, hindex, hformat⟩ := suffix_inj hchars
  obtain ⟨hloads, hseq⟩ :=
    append_separator_inj (dash_not_mem_digits seq) (dash_not_mem_digits seq') hfront
  have hpart {load : String} (hslash : '/' ∉ load.toList) :
      '/' ∉ "part-".toList ++ load.toList := by
    rw [List.mem_append, not_or]
    exact ⟨by decide, hslash⟩
  have hname : directory table (slugOf value) ++ '/' :: ("part-".toList ++ load.toList) =
      directory table' (slugOf value') ++ '/' :: ("part-".toList ++ load'.toList) := by
    simpa using hloads
  obtain ⟨hdirectory, hrest⟩ := append_separator_inj (hpart hload) (hpart hload') hname
  exact ⟨String.toList_inj.1 (List.append_cancel_left hrest), toDigits_inj hseq, hindex, hformat,
    hdirectory⟩

/-- The slug of a staged part is the partition's, or the one that stands for no partition. -/
theorem stagedName_tells
    (h : stagedName table (slugOf value) index f.extension =
      stagedName table' (slugOf value') index' f'.extension) :
    table = table' ∧ (slugOf value).getD "all" = (slugOf value').getD "all" ∧
      index = index' ∧ f = f' := by
  have hclean (value : Option (Option String)) : '/' ∉ ((slugOf value).getD "all").toList := by
    cases value with
    | none => decide
    | some value => exact slash_not_mem_partitionSlug value
  have hchars := congrArg String.toList h
  rw [stagedName_toList, stagedName_toList] at hchars
  obtain ⟨hfront, hindex, hformat⟩ := suffix_inj hchars
  obtain ⟨htable, hslug⟩ := append_separator_inj (hclean value) (hclean value') hfront
  exact ⟨String.toList_inj.1 htable, String.toList_inj.1 hslug, hindex, hformat⟩

/-- The slug that stands for no partition is the one of the value `all`. -/
theorem getD_all_inj (h : (slugOf value).getD "all" = (slugOf value').getD "all") :
    value.getD (some "all") = value'.getD (some "all") := by
  have hslug (value : Option (Option String)) :
      (slugOf value).getD "all" = partitionSlug (value.getD (some "all")) := by
    cases value with
    | none => decide
    | some value => rfl
  rw [hslug, hslug] at h
  exact partitionSlug_inj h

/-- Truncation owns what the destination writes: every final name, and otherwise only names of
that shape with zeros in front of a numeral. A final name tells its load, unit, index, format
and directory, a staged name all but whether the value `all` is one or none. -/
theorem truncation_owns_parts :
    (∀ table load seq index (value : Option (Option String)) (f : DestFormat),
      load ≠ "" → '/' ∉ load.toList →
      ∃ tail, tailUnder table (finalTail table (slugOf value) load seq index f.extension) =
        some tail ∧ owns tail = true) ∧
    (∀ tail, owns tail = true ↔ OwnShape tail) ∧
    (∀ table table' load load' seq seq' index index' (value value' : Option (Option String))
        (f f' : DestFormat),
      '/' ∉ load.toList → '/' ∉ load'.toList →
      finalTail table (slugOf value) load seq index f.extension =
        finalTail table' (slugOf value') load' seq' index' f'.extension →
      load = load' ∧ seq = seq' ∧ index = index' ∧ f = f' ∧
        directory table (slugOf value) = directory table' (slugOf value') ∧
        ('/' ∉ table.toList ∧ '/' ∉ table'.toList ∨ table = table' ∨
          value.isSome = value'.isSome → table = table' ∧ value = value')) ∧
    (∀ table table' index index' (value value' : Option (Option String)) (f f' : DestFormat),
      stagedName table (slugOf value) index f.extension =
        stagedName table' (slugOf value') index' f'.extension →
      table = table' ∧ value.getD (some "all") = value'.getD (some "all") ∧
        index = index' ∧ f = f') := by
  refine ⟨fun _ _ _ _ _ _ hload hslash => owns_finalTail hload hslash,
    fun tail => ⟨ownShape_of_owns, owns_of_ownShape⟩, ?_, ?_⟩
  · intro table table' load load' seq seq' index index' value value' f f' hload hload' h
    obtain ⟨hl, hseq, hindex, hformat, hdirectory⟩ := load_of_finalTail hload hload' h
    exact ⟨hl, hseq, hindex, hformat, hdirectory, fun hcases =>
      directory_slugOf_inj hcases hdirectory⟩
  · intro table table' index index' value value' f f' h
    obtain ⟨htable, hslug, hindex, hformat⟩ := stagedName_tells h
    exact ⟨htable, getD_all_inj hslug, hindex, hformat⟩

/-- No partition and the partition `all` share a staged name; a table whose name is a path
shares a final name with a partition; and a numeral with a zero in front, which no part has,
is owned. -/
theorem names_collide :
    stagedName "t" none 0 "parquet" = stagedName "t" (some (encodePartitionValue "all")) 0 "parquet" ∧
    finalTail "t/eu" none "a" 0 0 "parquet" =
      finalTail "t" (some (encodePartitionValue "eu")) "a" 0 0 "parquet" ∧
    owns "part-a-00-0.parquet" = true ∧
    ∀ partition load seq index format,
      finalTail "t" partition load seq index (DestFormat.extension format) ≠
        "t/part-a-00-0.parquet" := by
  refine ⟨by decide, by decide, by decide, ?_⟩
  intro partition load seq index format h
  have hchars := congrArg String.toList h
  have hname : "t/part-a-00-0.parquet".toList =
      ("t/part-a".toList ++ '-' :: ['0', '0']) ++ '-' :: "0.parquet".toList := by decide
  have hdash : '-' ∉ Nat.toDigits 10 index ++ '.' :: format.extension.toList := by
    simp only [List.mem_append, List.mem_cons, not_or]
    exact ⟨dash_not_mem_digits index, by decide, dash_not_mem_extension format⟩
  rw [finalTail_toList, hname] at hchars
  obtain ⟨hfront, -⟩ := append_separator_inj hdash (by decide) hchars
  obtain ⟨-, hseq⟩ := append_separator_inj (dash_not_mem_digits seq) (by decide) hfront
  have hzero : seq = 0 := by
    rw [← Nat.ofDigitChars_ten_toDigits (n := seq), hseq]
    rfl
  subst hzero
  exact absurd hseq (by decide)

end FileLoad
