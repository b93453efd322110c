import RdltConnectors.File.Publish

/-!
# What a commit leaves behind

Wherever a commit stops, it has either not yet replaced the manifest, and then files
are at most missing, or the manifest names every file whose content may differ from
what the sweep and the truncation leave. A commit that does not stop leaves the parts
it staged under their final names, with the rows that were written to each table and
partition.
-/
namespace FileLoad

open FileLease (DestinationError Location)
open Sqlcore (WriteMode)
open Mortal

variable {R D : Type} {whole : Prop}

/-! ## Closing parts -/

section Parts

variable {load load' : Load R} {rows : PartKey → List R} {s s₀ : Store R D} {key key' : PartKey}

def Store.stagedRows (s : Store R D) (part : StagedPart) : List R :=
  (s.staging.lookup part.stagingTail).getD []

/-- A key of this session: its partition is one directory, present if the session partitions. -/
def Load.Shaped (load : Load R) (key : PartKey) : Prop :=
  key.2.isSome = load.partitionBy.isSome ∧ OneSegment key.2

/-- The staged parts and the open ones hold the rows, in order. -/
structure Holds (load : Load R) (rows : PartKey → List R) (s : Store R D) : Prop where
  named : ∀ part ∈ load.staged, part.stagingTail = load.stagedTail part.key part.index
  shaped : ∀ part ∈ load.staged, load.Shaped part.key
  openShaped : ∀ key ∈ load.openParts, load.Shaped key
  indexed : load.staged.Pairwise fun p q => p.key = q.key → p.index < q.index
  bounded : ∀ part ∈ load.staged, part.index < (load.stagedOf part.key).length
  kept : ∀ part ∈ load.staged, part.stagingTail ∈ s.staging
  conserved : ∀ key, (load.stagedOf key).flatMap s.stagedRows ++
    (load.openParts.lookup key).getD [] = rows key

/-- Only the staging area differs. -/
def StagingOnly (s₀ s : Store R D) : Prop := s = { s₀ with staging := s.staging }

/-- The same session, with other parts. -/
def Load.Continues (load load' : Load R) : Prop :=
  load' = { load with staged := load'.staged, openParts := load'.openParts }

theorem stagingOnly_refl (s : Store R D) : StagingOnly s s := rfl

theorem StagingOnly.staged (h : StagingOnly s₀ s) (staging : Objects R) :
    StagingOnly s₀ { s with staging } := by
  unfold StagingOnly at h ⊢
  rw [h]

theorem continues_refl (load : Load R) : load.Continues load := rfl

theorem Load.Continues.trans {load'' : Load R} (h : load.Continues load')
    (h' : load'.Continues load'') : load.Continues load'' := by
  unfold Load.Continues at h h' ⊢
  rw [h', h]

theorem stagedTail_inj {index index' : Nat} (h : load.Shaped key) (h' : load.Shaped key')
    (heq : load.stagedTail key index = load.stagedTail key' index') :
    key = key' ∧ index = index' := by
  obtain ⟨htable, hpartition, hindex, -⟩ :=
    stagedName_inj (h.1.trans h'.1.symm) h.2 h'.2 (stagingTail_inj heq)
  exact ⟨Prod.ext htable hpartition, hindex⟩

theorem stagedOf_append (load : Load R) (key : PartKey) (part : StagedPart) :
    ({ load with staged := load.staged ++ [part] } : Load R).stagedOf key =
      load.stagedOf key ++ if part.key = key then [part] else [] := by
  unfold Load.stagedOf
  rw [List.filter_append]
  by_cases h : part.key = key
  · simp [h]
  · simp [h]

theorem mem_stagedOf {part : StagedPart} :
    part ∈ load.stagedOf key ↔ part ∈ load.staged ∧ part.key = key := by
  simp [Load.stagedOf]

theorem Holds.tail_free (h : Holds load rows s) {part : StagedPart} (hpart : part ∈ load.staged)
    (hkey : load.Shaped key) :
    part.stagingTail ≠ load.stagedTail key (load.stagedOf key).length := by
  rw [h.named part hpart]
  intro heq
  obtain ⟨rfl, hindex⟩ := stagedTail_inj (h.shaped part hpart) hkey heq
  exact absurd (h.bounded part hpart) (by omega)

/-- An empty encoding holds no rows, and is dropped. -/
theorem Holds.dropped (h : Holds load rows s) (hkey : load.openParts.lookup key = some []) :
    Holds { load with openParts := load.openParts.erase key } rows s := by
  refine ⟨h.named, h.shaped, fun key' hkey' => h.openShaped key' (AList.mem_erase.1 hkey').2,
    h.indexed, h.bounded, h.kept, fun key' => ?_⟩
  rw [← h.conserved key']
  refine congrArg ((load.stagedOf key').flatMap s.stagedRows ++ ·) ?_
  by_cases hne : key' = key
  · rw [hne, AList.lookup_erase, hkey]
    rfl
  · rw [AList.lookup_erase_ne hne]

/-- A closed part is staged under a fresh name. -/
theorem Holds.staged (h : Holds load rows s) {part : List R}
    (hpart : load.openParts.lookup key = some part) :
    Holds
      { load with
        openParts := load.openParts.erase key
        staged := load.staged ++ [⟨key, (load.stagedOf key).length,
          load.stagedTail key (load.stagedOf key).length⟩] }
      rows
      { s with staging := s.staging.insert (load.stagedTail key (load.stagedOf key).length) part } := by
  have hshaped : load.Shaped key :=
    h.openShaped key (AList.lookup_isSome.1 (by rw [hpart]; rfl))
  have hof (key' : PartKey) := stagedOf_append
    { load with openParts := load.openParts.erase key } key'
    ⟨key, (load.stagedOf key).length, load.stagedTail key (load.stagedOf key).length⟩
  have hsame (p : StagedPart) (hp : p ∈ load.staged) :
      (s.staging.insert (load.stagedTail key (load.stagedOf key).length) part).lookup p.stagingTail =
        s.staging.lookup p.stagingTail := AList.lookup_insert_ne (h.tail_free hp hshaped)
  refine ⟨?named, ?shaped, ?openShaped, ?indexed, ?bounded, ?kept, ?conserved⟩
  case named =>
    intro p hp
    rcases List.mem_append.1 hp with hp | hp
    · exact h.named p hp
    · rw [List.mem_singleton.1 hp]
      rfl
  case shaped =>
    intro p hp
    rcases List.mem_append.1 hp with hp | hp
    · exact h.shaped p hp
    · rw [List.mem_singleton.1 hp]
      exact hshaped
  case openShaped => exact fun key' hkey' => h.openShaped key' (AList.mem_erase.1 hkey').2
  case indexed =>
    refine List.pairwise_append.2 ⟨h.indexed, List.pairwise_singleton _ _, fun p hp q hq hkey => ?_⟩
    rw [List.mem_singleton.1 hq] at hkey ⊢
    have hbound := h.bounded p hp
    rwa [hkey] at hbound
  case bounded =>
    intro p hp
    rw [hof, List.length_append]
    rcases List.mem_append.1 hp with hp | hp
    · exact Nat.lt_add_right _ (h.bounded p hp)
    · rw [List.mem_singleton.1 hp, if_pos rfl]
      exact Nat.lt_succ_self _
  case kept =>
    intro p hp
    rw [AList.mem_insert]
    rcases List.mem_append.1 hp with hp | hp
    · exact .inr (h.kept p hp)
    · rw [List.mem_singleton.1 hp]
      exact .inl rfl
  case conserved =>
    intro key'
    rw [hof, List.flatMap_append, ← h.conserved key', List.append_assoc]
    refine congr (congrArg _ (List.flatMap_congr fun p hp => ?_)) ?_
    · exact congrArg (Option.getD · []) (hsame p (mem_stagedOf.1 hp).1)
    · by_cases hne : key' = key
      · rw [hne, if_pos rfl, hpart, AList.lookup_erase]
        simp [Store.stagedRows]
      · rw [if_neg (Ne.symm hne), AList.lookup_erase_ne hne]
        rfl

/-- What holds after a part of a session was closed. -/
structure Closed (load : Load R) (rows : PartKey → List R) (s₀ : Store R D) (load' : Load R)
    (s : Store R D) : Prop where
  holds : Holds load' rows s
  staging : StagingOnly s₀ s
  session : load.Continues load'

theorem closePart_spec (whole : Prop) (load₀ : Load R) (key : PartKey) :
    Spec whole (Closed load₀ rows s₀ load) (closePart load key)
      (fun load' s => Closed load₀ rows s₀ load' s ∧
        ∀ key' ∈ load'.openParts, key' ∈ load.openParts ∧ key' ≠ key)
      (StagingOnly s₀) := by
  unfold closePart
  split
  · next hnone =>
    refine spec_pure fun s h => ⟨h, fun key' hkey' => ⟨hkey', ?_⟩⟩
    rintro rfl
    exact absurd hkey' (AList.lookup_eq_none.1 hnone)
  · next part hpart =>
    dsimp only
    have herased (key' : PartKey) (hkey' : key' ∈ load.openParts.erase key) :
        key' ∈ load.openParts ∧ key' ≠ key := (AList.mem_erase.1 hkey').symm
    refine spec_ite (fun hnothing => ?_) fun _ => ?_
    · refine spec_pure fun s h => ⟨⟨h.holds.dropped ?_, h.staging, h.session.trans rfl⟩, herased⟩
      simp only [DestFormat.encodesNothing, Bool.and_eq_true, List.isEmpty_iff] at hnothing
      rw [hpart, hnothing.2]
    · refine spec_bind (Q := fun _ s => ∃ s', Closed load₀ rows s₀ load s' ∧
        s = { s' with staging :=
          s'.staging.insert (load.stagedTail key (load.stagedOf key).length) part })
        (spec_perform (fun s h => ⟨s, h, rfl⟩) fun s h => h.staging) fun _ => spec_pure ?_
      rintro s ⟨s', h, rfl⟩
      exact ⟨⟨h.holds.staged hpart, h.staging.staged _, h.session.trans rfl⟩, herased⟩

/-- Every part is closed before a publish. -/
theorem closeAllParts_spec (hs : Holds load rows s₀) :
    Spec whole (· = s₀) (closeAllParts load)
      (fun load' s => Closed load rows s₀ load' s ∧ ∀ key, key ∉ load'.openParts)
      (StagingOnly s₀) := by
  refine spec_weaken (spec_foldlM (J := fun rest load' s => Closed load rows s₀ load' s ∧
    ∀ key ∈ load'.openParts, key ∈ rest) (fun key rest load' => spec_from fun s₁ h₁ => ?_) _ _)
    ?_ ?_ fun s h => h
  · refine spec_weaken (closePart_spec whole load key) (fun s hs => hs ▸ h₁.1) (fun load'' s h => ?_)
      fun _ h => h
    refine ⟨h.1, fun key' hkey' => ?_⟩
    obtain ⟨hmem, hne⟩ := h.2 key' hkey'
    exact (List.mem_cons.1 (h₁.2 key' hmem)).resolve_left hne
  · rintro s rfl
    exact ⟨⟨hs, stagingOnly_refl s, continues_refl load⟩, fun key hkey => AList.mem_keys.1 hkey⟩
  · exact fun load' s h => ⟨h.1, fun key hkey => List.not_mem_nil (h.2 key hkey)⟩

end Parts

/-! ## Deleting files -/

section Deleting

variable {doomed gone : String → Prop} {s s₀ : Store R D}

/-- Files are missing at most, and only doomed ones; nothing else differs. -/
def Shrunk (doomed : String → Prop) (s₀ s : Store R D) : Prop :=
  s = { s₀ with files := s.files } ∧
  ∀ name, s.files.lookup name = s₀.files.lookup name ∨ doomed name ∧ s.files.lookup name = none

theorem shrunk_refl (doomed : String → Prop) (s : Store R D) : Shrunk doomed s s :=
  ⟨rfl, fun _ => .inl rfl⟩

theorem Shrunk.erase (h : Shrunk doomed s₀ s) {name : String} (hname : doomed name) :
    Shrunk doomed s₀ { s with files := s.files.erase name } := by
  refine ⟨?_, fun other => ?_⟩
  · rw [h.1]
  · by_cases hne : other = name
    · exact .inr ⟨hne ▸ hname, hne ▸ AList.lookup_erase name s.files⟩
    · rw [AList.lookup_erase_ne hne]
      exact h.2 other

theorem lookup_erase_none {files : Objects R} {name other : String}
    (h : files.lookup other = none ∨ other = name) : (files.erase name).lookup other = none := by
  by_cases hne : other = name
  · exact hne ▸ AList.lookup_erase name files
  · rw [AList.lookup_erase_ne hne]
    exact h.resolve_right hne

/-- What a deletion is known to have done so far. -/
def Cleared (doomed gone : String → Prop) (s₀ s : Store R D) : Prop :=
  Shrunk doomed s₀ s ∧ ∀ name, gone name → s.files.lookup name = none

theorem deleteFiles_spec {α : Type} (doomed gone : String → Prop) (nameOf : α → String)
    (xs : List α) (h : ∀ x ∈ xs, doomed (nameOf x)) :
    Spec whole (Cleared doomed gone s₀) (xs.forM fun x => (deleteFile (nameOf x) : Call R D Unit))
      (fun _ => Cleared doomed (fun name => gone name ∨ ∃ x ∈ xs, name = nameOf x) s₀)
      (Shrunk doomed s₀) := by
  induction xs generalizing gone with
  | nil =>
    refine spec_pure fun s hs => ⟨hs.1, fun name hname => hs.2 name (hname.resolve_right ?_)⟩
    rintro ⟨x, hx, -⟩
    exact List.not_mem_nil hx
  | cons x xs ih =>
    refine spec_bind (Q := fun _ => Cleared doomed (fun name => gone name ∨ name = nameOf x) s₀)
      (spec_perform (fun s hs => ?_) fun s hs => hs.1) fun _ => ?_
    · refine ⟨hs.1.erase (h x (by simp)), fun name hname => lookup_erase_none ?_⟩
      exact hname.imp_left (hs.2 name)
    · refine spec_weaken (ih _ fun y hy => h y (by simp [hy])) (fun _ hs => hs) (fun _ s hs => ?_)
        fun _ hs => hs
      refine ⟨hs.1, fun name hname => hs.2 name ?_⟩
      rcases hname with hname | ⟨y, hy, rfl⟩
      · exact .inl (.inl hname)
      · rcases List.mem_cons.1 hy with rfl | hy
        · exact .inl (.inr rfl)
        · exact .inr ⟨y, hy, rfl⟩

/-- A table's files are its names with the tail behind the slash. -/
theorem tailUnder_eq_some {table name tail : String} :
    tailUnder table name = some tail ↔ name = s!"{table}/{tail}" := by
  simp only [tailUnder, Option.map_eq_some_iff, List.dropPrefix?_eq_some_iff, beq_iff_eq]
  constructor
  · rintro ⟨rest, ⟨front, hname, rfl⟩, rfl⟩
    refine String.toList_inj.1 (hname.trans ?_)
    simp [toString]
  · rintro rfl
    exact ⟨tail.toList, ⟨_, by simp [toString], rfl⟩, String.ofList_toList⟩

/-- The files of a table that Replace owns. -/
def ReplaceOwns (frozenPlainParquet : Bool) (table name : String) : Prop :=
  ∃ tail, tailUnder table name = some tail ∧ ownedByReplace frozenPlainParquet tail = true

theorem truncateTable_spec (gone : String → Prop) (frozenPlainParquet : Bool) (table : String)
    (h : ∀ name, ReplaceOwns frozenPlainParquet table name → doomed name) :
    Spec whole (Cleared doomed gone s₀) (truncateTable frozenPlainParquet table)
      (fun _ => Cleared doomed (fun name => gone name ∨ ReplaceOwns frozenPlainParquet table name) s₀)
      (Shrunk doomed s₀) := by
  refine spec_bind (Q := fun store s => store = s ∧ Cleared doomed gone s₀ s)
    (spec_look fun _ hs => ⟨rfl, hs⟩) fun store => spec_from fun s₁ hs₁ => ?_
  obtain ⟨rfl, hcleared⟩ := hs₁
  have hkeys {tail : String} : tail ∈ (keysOfTable store.files table).filter
      (ownedByReplace frozenPlainParquet) ↔
      s!"{table}/{tail}" ∈ store.files ∧ ownedByReplace frozenPlainParquet tail = true := by
    simp only [keysOfTable, List.mem_filter, List.mem_filterMap, tailUnder_eq_some,
      exists_eq_right, AList.mem_keys]
  refine spec_weaken (deleteFiles_spec doomed (fun name => gone name ∨ name ∉ store.files)
    (fun tail => s!"{table}/{tail}") _ fun tail htail =>
      h _ ⟨tail, tailUnder_eq_some.2 rfl, (hkeys.1 htail).2⟩) ?_ ?_ fun _ hs => hs
  · rintro s rfl
    refine ⟨hcleared.1, fun name hname => ?_⟩
    exact hname.elim (hcleared.2 name) AList.lookup_eq_none.2
  · refine fun _ s hs => ⟨hs.1, fun name hname => hs.2 name ?_⟩
    rcases hname with hname | ⟨tail, htail, howned⟩
    · exact .inl (.inl hname)
    · rw [tailUnder_eq_some] at htail
      by_cases hfile : name ∈ store.files
      · exact .inr ⟨tail, hkeys.2 ⟨htail ▸ hfile, howned⟩, htail⟩
      · exact .inl (.inr hfile)

theorem truncateTables_spec (gone : String → Prop) (frozenPlainParquet : Bool)
    (tables : List String)
    (h : ∀ table ∈ tables, ∀ name, ReplaceOwns frozenPlainParquet table name → doomed name) :
    Spec whole (Cleared doomed gone s₀)
      (tables.forM (truncateTable frozenPlainParquet) : Call R D PUnit)
      (fun _ => Cleared doomed
        (fun name => gone name ∨ ∃ table ∈ tables, ReplaceOwns frozenPlainParquet table name) s₀)
      (Shrunk doomed s₀) := by
  induction tables generalizing gone with
  | nil =>
    refine spec_pure fun s hs => ⟨hs.1, fun name hname => hs.2 name (hname.resolve_right ?_)⟩
    rintro ⟨table, htable, -⟩
    exact List.not_mem_nil htable
  | cons table tables ih =>
    refine spec_bind (truncateTable_spec gone frozenPlainParquet table (h table (by simp)))
      fun _ => ?_
    refine spec_weaken (ih _ fun other hother => h other (by simp [hother])) (fun _ hs => hs)
      (fun _ s hs => ⟨hs.1, fun name hname => hs.2 name ?_⟩) fun _ hs => hs
    rcases hname with hname | ⟨other, hother, howned⟩
    · exact .inl (.inl hname)
    · rcases List.mem_cons.1 hother with rfl | hother
      · exact .inl (.inr howned)
      · exact .inr ⟨other, hother, howned⟩

end Deleting

/-! ## Publishing parts -/

section Parts

variable {location : Location} {nameOf : StagedPart → String} {content : StagedPart → List R}
  {names : List String} {s s₀ : Store R D}

/-- Only the staging area and the named files differ. -/
def FilesOnly (names : List String) (s₀ s : Store R D) : Prop :=
  s = { s₀ with files := s.files, staging := s.staging } ∧
  ∀ name ∉ names, s.files.lookup name = s₀.files.lookup name

theorem filesOnly_refl (names : List String) (s : Store R D) : FilesOnly names s s :=
  ⟨rfl, fun _ _ => rfl⟩

theorem FilesOnly.publish (h : FilesOnly names s₀ s) {name : String} (hname : name ∈ names)
    (rows : List R) (staging : Objects R) :
    FilesOnly names s₀ { s with files := s.files.insert name rows, staging } := by
  refine ⟨?_, fun other hother => ?_⟩
  · rw [h.1]
  · rw [AList.lookup_insert_ne fun heq : other = name => hother (heq ▸ hname)]
    exact h.2 other hother

/-- The part has its final name and is no longer staged, or dies with only the copy made. -/
theorem publishPart_spec {stagingTail finalTail : String} {rows : List R}
    (h : s₀.staging.lookup stagingTail = some rows) :
    Spec whole (· = s₀) (publishPart location stagingTail finalTail)
      (fun _ s => s = { s₀ with
        files := s₀.files.insert finalTail rows
        staging := s₀.staging.erase stagingTail })
      (fun s => s = s₀ ∨ s = { s₀ with files := s₀.files.insert finalTail rows }) := by
  refine spec_bind (Q := fun store s => store = s₀ ∧ s = s₀)
    (spec_look fun _ hs => ⟨hs, hs⟩) fun store => spec_from fun s₁ hs₁ => ?_
  obtain ⟨rfl, rfl⟩ := hs₁
  rw [h]
  dsimp only
  cases location with
  | localDir => exact spec_perform (fun s hs => by rw [hs]) fun s hs => .inl hs
  | s3 =>
    refine spec_bind (Q := fun _ s => s = { s₁ with files := s₁.files.insert finalTail rows })
      (spec_perform (fun s hs => by rw [hs]) fun s hs => .inl hs) fun _ => ?_
    exact spec_perform (fun s hs => by rw [hs]) fun s hs => .inr hs

/-- Where publishing stands: the rest is staged, the others have their final names. -/
structure Publishing (nameOf : StagedPart → String) (content : StagedPart → List R)
    (names : List String) (s₀ : Store R D) (rest done : List StagedPart) (s : Store R D) :
    Prop where
  frame : FilesOnly names s₀ s
  staged : ∀ part ∈ rest, s.staging.lookup part.stagingTail = some (content part)
  published : ∀ part ∈ done, s.files.lookup (nameOf part) = some (content part)

theorem Publishing.next {part : StagedPart} {rest done : List StagedPart}
    (h : Publishing nameOf content names s₀ (part :: rest) done s) (hname : nameOf part ∈ names)
    (htails : ∀ p ∈ rest, part.stagingTail ≠ p.stagingTail)
    (hnames : ∀ p ∈ done, nameOf part ≠ nameOf p) :
    Publishing nameOf content names s₀ rest (done ++ [part])
      { s with
        files := s.files.insert (nameOf part) (content part)
        staging := s.staging.erase part.stagingTail } where
  frame := h.frame.publish hname _ _
  staged := by
    intro p hp
    exact (AList.lookup_erase_ne (htails p hp).symm).trans (h.staged p (by simp [hp]))
  published := by
    intro p hp
    rcases List.mem_append.1 hp with hp | hp
    · exact (AList.lookup_insert_ne (hnames p hp).symm).trans (h.published p hp)
    · rw [List.mem_singleton.1 hp]
      exact AList.lookup_insert _

theorem publishParts_spec (content : StagedPart → List R) (s₀ : Store R D)
    {parts : List StagedPart} (hnames : ∀ part ∈ parts, nameOf part ∈ names)
    (hpairs : parts.Pairwise fun p q =>
      p.stagingTail ≠ q.stagingTail ∧ nameOf p ≠ nameOf q) (done : List StagedPart)
    (hdone : ∀ part ∈ parts, ∀ p ∈ done, nameOf part ≠ nameOf p) :
    Spec whole (Publishing nameOf content names s₀ parts done)
      (parts.forM fun part => (publishPart location part.stagingTail (nameOf part) : Call R D Unit))
      (fun _ => Publishing nameOf content names s₀ [] (done ++ parts))
      (FilesOnly names s₀) := by
  induction parts generalizing done with
  | nil => exact spec_pure fun s hs => by rwa [List.append_nil]
  | cons part parts ih =>
    obtain ⟨hpart, hrest⟩ := List.pairwise_cons.1 hpairs
    refine spec_bind (Q := fun _ => Publishing nameOf content names s₀ parts (done ++ [part]))
      (spec_from fun s₁ h₁ => ?_) fun _ => ?_
    · have hname := hnames part (by simp)
      refine spec_weaken (publishPart_spec (h₁.staged part (by simp))) (fun _ hs => hs)
        (fun _ s hs => ?_) fun s hs => ?_
      · rw [hs]
        exact h₁.next hname (fun p hp => (hpart p hp).1) (hdone part (by simp))
      · rcases hs with rfl | rfl
        · exact h₁.frame
        · exact h₁.frame.publish hname _ _
    · rw [List.append_cons done part parts]
      refine ih (fun p hp => hnames p (by simp [hp])) hrest _ fun p hp q hq => ?_
      rcases List.mem_append.1 hq with hq | hq
      · exact hdone p (by simp [hp]) q hq
      · rw [List.mem_singleton.1 hq]
        exact (hpart p hp).2.symm

end Parts

/-! ## A commit -/

section Commit

variable {load load' : Load R} {metadata : CommitMeta D} {rows : PartKey → List R}
  {s s₀ s₁ : Store R D} {names : List String}

/-- The receipts on record. -/
def Store.receipts (s : Store R D) : List (String × Nat) :=
  match s.commits with
  | some (.json log) => log.receipts
  | _ => []

/-- The manifest on record. -/
def Store.onRecord (s : Store R D) : Option Manifest :=
  match s.manifest with
  | some (.json manifest) => some manifest
  | _ => none

/-- Both documents are absent or of this build's version. -/
structure Readable (s : Store R D) : Prop where
  commits : ∀ bytes ∈ s.commits, ∃ log, bytes = .json log ∧ log.formatVersion = layoutFormatVersion
  manifest : ∀ bytes ∈ s.manifest,
    ∃ manifest, bytes = .json manifest ∧ manifest.formatVersion = layoutFormatVersion

theorem versionGate_current (doc file : String) :
    versionGate doc file layoutFormatVersion = .ok () := by
  simp [versionGate]

theorem decode_receipts {file : String} {log : CommitLog}
    (h : CommitLog.decode s.commits file = .ok log) : log.receipts = s.receipts := by
  unfold CommitLog.decode at h
  unfold Store.receipts
  split at h
  · next hnone => cases h; rw [hnone]
  · cases h
  · next found hjson =>
    rw [hjson]
    cases hgate : versionGate "commit log" file found.formatVersion with
    | error e => rw [hgate] at h; cases h
    | ok _ => rw [hgate] at h; cases h; rfl

theorem decode_onRecord {file : String} {prior : Option Manifest}
    (h : Manifest.decode s.manifest file = .ok prior) : prior = s.onRecord := by
  unfold Manifest.decode at h
  unfold Store.onRecord
  split at h
  · next hnone => cases h; rw [hnone]
  · cases h
  · next found hjson =>
    rw [hjson]
    cases hgate : versionGate "manifest" file found.formatVersion with
    | error e => rw [hgate] at h; cases h
    | ok _ => rw [hgate] at h; cases h; rfl

theorem Readable.decode_commits (h : Readable s) (file : String) :
    ∃ log, CommitLog.decode s.commits file = .ok log := by
  cases hcommits : s.commits with
  | none => exact ⟨_, rfl⟩
  | some bytes =>
    obtain ⟨log, rfl, hversion⟩ := h.commits bytes hcommits
    refine ⟨log, ?_⟩
    simp only [CommitLog.decode, hversion, versionGate_current]
    rfl

theorem Readable.decode_manifest (h : Readable s) (file : String) :
    ∃ prior, Manifest.decode s.manifest file = .ok prior := by
  cases hmanifest : s.manifest with
  | none => exact ⟨_, rfl⟩
  | some bytes =>
    obtain ⟨manifest, rfl, hversion⟩ := h.manifest bytes hmanifest
    refine ⟨some manifest, ?_⟩
    simp only [Manifest.decode, hversion, versionGate_current]
    rfl

/-- No unit of the load has its receipt. -/
def FirstCommit (s : Store R D) (loadId : String) : Prop := ∀ r ∈ s.receipts, r.1 ≠ loadId

/-- The Replace truncation of the load's first commit deletes the file. -/
def Truncates (s : Store R D) (load : Load R) (loadId name : String) : Prop :=
  FirstCommit s loadId ∧
    ∃ table ∈ load.replaced, ReplaceOwns load.frozenPlainParquet table name

/-- What a commit deletes before it records its own names. -/
def Doomed (s : Store R D) (load : Load R) (metadata : CommitMeta D) (name : String) : Prop :=
  name ∈ priorNames s.onRecord metadata ∨ Truncates s load metadata.loadId name

/-- A name of the unit. -/
def NamedFor (loadId : String) (seq : Nat) (name : String) : Prop :=
  ∃ table partition index, ∃ format : DestFormat,
    name = finalTail table partition loadId seq index format.extension

/-- The commit has not recorded its names: doomed files may be missing. -/
structure Unrecorded (load : Load R) (metadata : CommitMeta D) (s₀ s : Store R D) : Prop where
  manifest : s.manifest = s₀.manifest
  commits : s.commits = s₀.commits
  files : ∀ name, s.files.lookup name = s₀.files.lookup name ∨
    Doomed s₀ load metadata name ∧ s.files.lookup name = none

/-- The commit's names are on record: under any other name only the doomed are missing. -/
structure Recorded (load : Load R) (metadata : CommitMeta D) (names : List String)
    (s₀ s : Store R D) : Prop where
  manifest : s.manifest =
    some (.json ⟨layoutFormatVersion, metadata.loadId, metadata.commitSeq, names⟩)
  named : ∀ name ∈ names, NamedFor metadata.loadId metadata.commitSeq name
  deleted : ∀ name ∉ names, Doomed s₀ load metadata name → s.files.lookup name = none
  others : ∀ name ∉ names, ¬Doomed s₀ load metadata name →
    s.files.lookup name = s₀.files.lookup name

/-- The files under the names of parts hold the rows, each name once. -/
structure Readback (nameOf : StagedPart → String) (parts : List StagedPart)
    (rows : PartKey → List R) (files : Objects R) : Prop where
  once : (parts.map nameOf).Nodup
  present : ∀ part ∈ parts, nameOf part ∈ files
  rows_eq : ∀ key, (parts.filter fun part => part.key = key).flatMap
    (fun part => (files.lookup (nameOf part)).getD []) = rows key

/-- The commit has its receipt. -/
structure Landed (load : Load R) (metadata : CommitMeta D) (rows : PartKey → List R)
    (s₀ : Store R D) (load' : Load R) (parts : List StagedPart) (s : Store R D) : Prop where
  recorded : Recorded load metadata (parts.map (load.finalName metadata)) s₀ s
  receipts : s.commits = some (.json
    ⟨layoutFormatVersion, s₀.receipts ++ [(metadata.loadId, metadata.commitSeq)]⟩)
  readback : Readback (load.finalName metadata) parts rows s.files
  session : load.Continues load'
  unstaged : load'.staged = []
  closed : ∀ key, key ∉ load'.openParts

theorem finalName_namedFor (load : Load R) (metadata : CommitMeta D) (part : StagedPart) :
    NamedFor metadata.loadId metadata.commitSeq (load.finalName metadata part) :=
  ⟨part.key.1, part.key.2, part.index, load.format, rfl⟩

theorem finalName_inj {p q : StagedPart} (hp : load.Shaped p.key) (hq : load.Shaped q.key)
    (h : load.finalName metadata p = load.finalName metadata q) :
    p.key = q.key ∧ p.index = q.index := by
  obtain ⟨hdirectory, -, hindex, -⟩ := finalTail_inj h
  obtain ⟨htable, hpartition⟩ := directory_inj (hp.1.trans hq.1.symm) hp.2 hq.2 hdirectory
  exact ⟨Prod.ext htable hpartition, hindex⟩

/-- No two staged parts share a staged or a final name. -/
theorem Holds.distinct (h : Holds load rows s) (metadata : CommitMeta D) :
    load.staged.Pairwise fun p q =>
      p.stagingTail ≠ q.stagingTail ∧ load.finalName metadata p ≠ load.finalName metadata q := by
  refine h.indexed.imp_of_mem fun {p q} hp hq hlt => ⟨fun heq => ?_, fun heq => ?_⟩
  · rw [h.named p hp, h.named q hq] at heq
    obtain ⟨hkey, hindex⟩ := stagedTail_inj (h.shaped p hp) (h.shaped q hq) heq
    exact absurd (hlt hkey) (by omega)
  · obtain ⟨hkey, hindex⟩ := finalName_inj (h.shaped p hp) (h.shaped q hq) heq
    exact absurd (hlt hkey) (by omega)

theorem commitLog_spec (scope : String) (hreadable : whole → Readable s₀) :
    Spec whole (· = s₀) (commitLog scope) (fun log s => s = s₀ ∧ log.receipts = s₀.receipts)
      (· = s₀) := by
  refine spec_bind (Q := fun store s => store = s₀ ∧ s = s₀) (spec_look fun _ hs => ⟨hs, hs⟩)
    fun store => spec_from fun s₁ h₁ => ?_
  obtain ⟨rfl, rfl⟩ := h₁
  exact spec_accept (fun log hlog s hs => ⟨hs, decode_receipts hlog⟩) (fun _ hs => hs)
    fun hwhole => (hreadable hwhole).decode_commits _

/-- After the truncation the files it owns are gone, and no others. -/
theorem truncateReplaced_spec {log : CommitLog} (loadId : String)
    (hlog : log.receipts = s₀.receipts) :
    Spec whole (· = s₀) (truncateReplaced load loadId log)
      (fun _ => Cleared (Truncates s₀ load loadId) (Truncates s₀ load loadId) s₀)
      (Shrunk (Truncates s₀ load loadId) s₀) := by
  refine spec_ite (fun hfirst => ?_) fun hlater => ?_
  · rw [hlog] at hfirst
    refine spec_weaken (truncateTables_spec (fun _ => False) load.frozenPlainParquet
      load.replaced fun table htable name hname => ⟨hfirst, table, htable, hname⟩) ?_ ?_
      fun _ hs => hs
    · rintro s rfl
      exact ⟨shrunk_refl _ s, fun name hname => hname.elim⟩
    · exact fun _ s hs => ⟨hs.1, fun name hname => hs.2 name (.inr hname.2)⟩
  · refine spec_pure fun s hs => ?_
    rw [hs]
    rw [hlog] at hlater
    exact ⟨shrunk_refl _ s₀, fun name hname => absurd hname.1 hlater⟩

/-- From the truncated store to the recorded names: deletions, then the manifest. -/
theorem recordNames_spec (hreadable : whole → Readable s₀) :
    Spec whole
      (Cleared (Truncates s₀ load metadata.loadId) (Truncates s₀ load metadata.loadId) s₀)
      (recordNames load metadata)
      (fun _ s => Recorded load metadata (load.staged.map (load.finalName metadata)) s₀ s ∧
        s.staging = s₀.staging ∧ s.commits = s₀.commits)
      (Shrunk (Doomed s₀ load metadata) s₀) := by
  have hmono {s : Store R D} (hs : Shrunk (Truncates s₀ load metadata.loadId) s₀ s) :
      Shrunk (Doomed s₀ load metadata) s₀ s :=
    ⟨hs.1, fun name => (hs.2 name).imp_right fun h => ⟨.inr h.1, h.2⟩⟩
  unfold recordNames
  dsimp only
  refine spec_from fun s₁ h₁ => ?_
  have hmanifest : s₁.manifest = s₀.manifest := by rw [h₁.1.1]
  refine spec_bind (Q := fun store s => store = s₁ ∧ s = s₁) (spec_look fun _ hs => ⟨hs, hs⟩)
    fun store => spec_from fun s₂ h₂ => ?_
  obtain ⟨rfl, rfl⟩ := h₂
  refine spec_bind (Q := fun prior s => s = s₂ ∧ prior = s₀.onRecord) ?read fun prior => ?_
  case read =>
    rw [hmanifest]
    refine spec_accept (fun prior hprior s hs => ⟨hs, decode_onRecord hprior⟩) ?_
      fun hwhole => (hreadable hwhole).decode_manifest _
    rintro s rfl
    exact hmono h₁.1
  refine spec_from fun s₃ h₃ => ?_
  obtain ⟨rfl, rfl⟩ := h₃
  let newNames := load.staged.map (load.finalName metadata)
  refine spec_bind (spec_weaken (deleteFiles_spec (Doomed s₀ load metadata)
    (Truncates s₀ load metadata.loadId) id
    ((priorNames s₀.onRecord metadata).filter fun name => name ∉ newNames)
    fun name hname => .inl (List.mem_filter.1 hname).1) ?_ (fun _ _ hs => hs) fun _ hs => hs)
    fun _ => ?_
  · rintro s rfl
    exact ⟨hmono h₁.1, h₁.2⟩
  refine spec_perform (fun s hs => ⟨⟨rfl, ?named, ?deleted, ?others⟩, ?_, ?_⟩) fun s hs => hs.1
  case named =>
    intro name hname
    obtain ⟨part, -, rfl⟩ := List.mem_map.1 hname
    exact finalName_namedFor load metadata part
  case deleted =>
    intro name hname hdoomed
    refine hs.2 name ?_
    rcases hdoomed with hstale | htruncates
    · exact .inr ⟨name, List.mem_filter.2 ⟨hstale, decide_eq_true hname⟩, rfl⟩
    · exact .inl htruncates
  case others =>
    exact fun name _ hdoomed => (hs.1.2 name).resolve_right fun h => hdoomed h.1
  · change s.staging = s₀.staging
    rw [hs.1.1]
  · change s.commits = s₀.commits
    rw [hs.1.1]

/-- Publishing changes files under recorded names only. -/
theorem Recorded.frame (h : Recorded load metadata names s₀ s₁) (hframe : FilesOnly names s₁ s) :
    Recorded load metadata names s₀ s where
  manifest := by rw [hframe.1]; exact h.manifest
  named := h.named
  deleted := fun name hname hdoomed => (hframe.2 name hname).trans (h.deleted name hname hdoomed)
  others := fun name hname hdoomed => (hframe.2 name hname).trans (h.others name hname hdoomed)

theorem Recorded.of_files (h : Recorded load metadata names s₀ s₁)
    (hfiles : s.files = s₁.files) (hmanifest : s.manifest = s₁.manifest) :
    Recorded load metadata names s₀ s where
  manifest := hmanifest.trans h.manifest
  named := h.named
  deleted := by rw [hfiles]; exact h.deleted
  others := by rw [hfiles]; exact h.others

theorem Shrunk.unrecorded (h : Shrunk (Doomed s₀ load metadata) s₀ s) :
    Unrecorded load metadata s₀ s where
  manifest := by rw [h.1]
  commits := by rw [h.1]
  files := h.2

/-- Where a publish may stop. -/
def Stopped (load : Load R) (metadata : CommitMeta D) (s₀ s : Store R D) : Prop :=
  Unrecorded load metadata s₀ s ∨
    ∃ names, Recorded load metadata names s₀ s ∧ s.commits = s₀.commits

/-- From closed parts to the receipt. -/
theorem publishStaged_spec (hs : Holds load rows s₀) (hclosed : ∀ key, key ∉ load.openParts)
    (hreadable : whole → Readable s₀) :
    Spec whole (· = s₀) (publishStaged load metadata)
      (fun answer s => Landed load metadata rows s₀ answer.1 load.staged s)
      (Stopped load metadata s₀) := by
  let names := load.staged.map (load.finalName metadata)
  refine spec_bind (spec_weaken (commitLog_spec load.scope hreadable) (fun _ h => h)
    (fun _ _ h => h) ?_) fun log => spec_from fun s₁ h₁ => ?_
  · rintro s rfl
    exact .inl (shrunk_refl _ s).unrecorded
  obtain ⟨rfl, hlog⟩ := h₁
  refine spec_bind (spec_weaken (truncateReplaced_spec metadata.loadId hlog) (fun _ h => h)
    (fun _ _ h => h) fun s h => .inl ?_) fun _ => ?_
  · exact Shrunk.unrecorded ⟨h.1, fun name => (h.2 name).imp_right fun h' => ⟨.inr h'.1, h'.2⟩⟩
  refine spec_bind (spec_weaken (recordNames_spec hreadable) (fun _ h => h) (fun _ _ h => h)
    fun s h => .inl h.unrecorded) fun _ => spec_from fun s₂ h₂ => ?_
  obtain ⟨hrecorded, hstaging, hcommits⟩ := h₂
  refine spec_bind (spec_weaken (publishParts_spec s₁.stagedRows s₂
    (fun part hpart => List.mem_map_of_mem hpart) (hs.distinct metadata) []
    fun _ _ p hp => absurd hp List.not_mem_nil) ?start (fun _ _ h => h) ?stop) fun _ => ?_
  case start =>
    rintro s rfl
    refine ⟨filesOnly_refl names s, fun part hpart => ?_, fun p hp => absurd hp List.not_mem_nil⟩
    obtain ⟨content, hcontent⟩ := Option.isSome_iff_exists.1 (AList.lookup_isSome.2 (hs.kept part hpart))
    rw [hstaging, Store.stagedRows, hcontent]
    rfl
  case stop =>
    refine fun s h => .inr ⟨names, hrecorded.frame h, ?_⟩
    rw [h.1]
    exact hcommits
  refine spec_from fun s₃ h₃ => ?_
  have hrecorded₃ := hrecorded.frame h₃.frame
  have hcommits₃ : s₃.commits = s₁.commits := by rw [h₃.frame.1]; exact hcommits
  refine spec_bind (Q := fun _ s => s = { s₃ with state := some metadata.state })
    (spec_perform (fun s h => by rw [h]) fun s h => ?_) fun _ => ?_
  · rw [h]
    exact .inr ⟨names, hrecorded₃, hcommits₃⟩
  refine spec_bind (Q := fun _ s => s = { s₃ with
      state := some metadata.state
      commits := some (.json
        ⟨layoutFormatVersion, log.receipts ++ [(metadata.loadId, metadata.commitSeq)]⟩) })
    (spec_perform (fun s h => by rw [h]) fun s h => ?_) fun _ => spec_pure ?_
  · rw [h]
    exact .inr ⟨names, hrecorded₃.of_files rfl rfl, hcommits₃⟩
  rintro s rfl
  refine ⟨hrecorded₃.of_files rfl rfl, by rw [hlog], ⟨?_, ?_, ?_⟩, rfl, rfl, hclosed⟩
  · exact List.pairwise_map.2 ((hs.distinct metadata).imp fun h => h.2)
  · exact fun part hpart => AList.lookup_isSome.1 (by rw [h₃.published part hpart]; rfl)
  · intro key
    rw [← hs.conserved key, AList.lookup_eq_none.2 (hclosed key)]
    refine (List.flatMap_congr fun part hpart => ?_).trans (List.append_nil _).symm
    rw [h₃.published part (mem_stagedOf.1 hpart).1]
    rfl

theorem doomed_continues (hstaging : StagingOnly s₀ s₁) (hsession : load.Continues load')
    (name : String) : Doomed s₁ load' metadata name ↔ Doomed s₀ load metadata name := by
  cases s₁
  cases load'
  cases hstaging
  cases hsession
  exact Iff.rfl

theorem Recorded.continues (hstaging : StagingOnly s₀ s₁) (hsession : load.Continues load')
    (h : Recorded load' metadata names s₁ s) : Recorded load metadata names s₀ s where
  manifest := h.manifest
  named := h.named
  deleted := fun name hname hdoomed =>
    h.deleted name hname ((doomed_continues hstaging hsession name).2 hdoomed)
  others := by
    intro name hname hdoomed
    have hsame : s₁.files = s₀.files := by rw [hstaging]
    rw [← hsame]
    exact h.others name hname fun h' => hdoomed ((doomed_continues hstaging hsession name).1 h')

theorem Unrecorded.continues (hstaging : StagingOnly s₀ s₁) (hsession : load.Continues load')
    (h : Unrecorded load' metadata s₁ s) : Unrecorded load metadata s₀ s where
  manifest := by rw [h.manifest, hstaging]
  commits := by rw [h.commits, hstaging]
  files := by
    intro name
    have hsame : s₁.files = s₀.files := by rw [hstaging]
    rw [← hsame]
    exact (h.files name).imp_right (And.imp_left (doomed_continues hstaging hsession name).1)

theorem publish_spec (hs : Holds load rows s₀) (hreadable : whole → Readable s₀) :
    Spec whole (· = s₀) (publish load metadata)
      (fun answer s => ∃ parts, Landed load metadata rows s₀ answer.1 parts s)
      (Stopped load metadata s₀) := by
  refine spec_bind (spec_weaken (closeAllParts_spec hs) (fun _ h => h) (fun _ _ h => h)
    fun s h => .inl ?_) fun load' => spec_from fun s₁ h₁ => ?_
  · rw [h]
    exact ⟨rfl, rfl, fun name => .inl rfl⟩
  obtain ⟨⟨hholds, hstaging, hsession⟩, hclosed⟩ := h₁
  have hcommits : s₁.commits = s₀.commits := by rw [hstaging]
  have hmanifest : s₁.manifest = s₀.manifest := by rw [hstaging]
  refine spec_weaken (publishStaged_spec hholds hclosed fun hwhole => ?_) (fun _ h => h)
    (fun answer s h => ⟨load'.staged, ?_⟩) fun s h => ?_
  · exact ⟨hcommits ▸ (hreadable hwhole).commits, hmanifest ▸ (hreadable hwhole).manifest⟩
  · have hname : load.finalName metadata = load'.finalName metadata := by rw [hsession]; rfl
    have hreceipts : s₁.receipts = s₀.receipts := by rw [hstaging]; rfl
    refine ⟨hname ▸ h.recorded.continues hstaging hsession, ?_, hname ▸ h.readback,
      hsession.trans h.session, h.unstaged, h.closed⟩
    rw [← hreceipts]
    exact h.receipts
  · rcases h with h | ⟨names, h, hsame⟩
    · exact .inl (h.continues hstaging hsession)
    · exact .inr ⟨names, h.continues hstaging hsession, hsame.trans hcommits⟩

/-- The commit was delivered before, and is dropped. -/
structure Replayed (load : Load R) (s₀ : Store R D) (load' : Load R) (s : Store R D) : Prop where
  staging : StagingOnly s₀ s
  session : load.Continues load'
  unstaged : load'.staged = []
  closed : ∀ key, key ∉ load'.openParts

theorem deleteStaged_spec {α : Type} (tailOf : α → String) (xs : List α) :
    Spec whole (StagingOnly s₀)
      (xs.forM fun x => (deleteStaged (tailOf x) : Call R D Unit))
      (fun _ => StagingOnly s₀) (StagingOnly s₀) :=
  spec_forM (J := fun _ => StagingOnly s₀)
    (fun _ _ => spec_perform (fun _ h => h.staged _) fun _ h => h) xs

theorem replay_spec :
    Spec whole (· = s₀) (replay load) (fun load' => Replayed load s₀ load') (StagingOnly s₀) := by
  refine spec_bind (spec_weaken (deleteStaged_spec StagedPart.stagingTail load.staged)
    (fun s h => h ▸ stagingOnly_refl s) (fun _ _ h => h) fun _ h => h) fun _ => spec_pure ?_
  exact fun s h => ⟨h, rfl, rfl, fun key => AList.notMem_empty key⟩

theorem existingReceipt_spec (scope : String) (hreadable : whole → Readable s₀) :
    Spec whole (· = s₀) (existingReceipt scope metadata)
      (fun receipt s => s = s₀ ∧
        (receipt.isSome ↔ (metadata.loadId, metadata.commitSeq) ∈ s₀.receipts))
      (· = s₀) := by
  refine spec_bind (commitLog_spec scope hreadable) fun log => spec_pure fun s h => ⟨h.1, ?_⟩
  rw [h.2]
  split
  · next hmem => exact iff_of_true rfl hmem
  · next hmem => exact iff_of_false Bool.false_ne_true hmem

/-- A commit with a receipt is dropped, and one without is published. -/
theorem commit_spec (whole : Prop) (hs : Holds load rows s₀) (hreadable : whole → Readable s₀) :
    Spec whole (· = s₀) (commit load metadata)
      (fun answer s =>
        if (metadata.loadId, metadata.commitSeq) ∈ s₀.receipts then Replayed load s₀ answer.1 s
        else ∃ parts, Landed load metadata rows s₀ answer.1 parts s)
      (fun s =>
        if (metadata.loadId, metadata.commitSeq) ∈ s₀.receipts then StagingOnly s₀ s
        else Stopped load metadata s₀ s) := by
  refine spec_bind (spec_weaken (existingReceipt_spec load.scope hreadable) (fun _ h => h)
    (fun _ _ h => h) fun s h => ?_) fun receipt => spec_from fun s₁ h₁ => ?_
  · rw [h]
    split
    · exact stagingOnly_refl s₀
    · exact .inl (shrunk_refl _ s₀).unrecorded
  · obtain ⟨rfl, hreceipt⟩ := h₁
    cases receipt with
    | some receipt =>
      simp only [hreceipt.1 rfl, if_true]
      exact spec_bind replay_spec fun load' => spec_pure fun s h => h
    | none =>
      have hnone : (metadata.loadId, metadata.commitSeq) ∉ s₁.receipts := fun h => by
        cases hreceipt.2 h
      simp only [hnone, if_false]
      exact publish_spec hs hreadable

/-! ## Taking rows -/

theorem holds_empty (hstaged : load.staged = []) (hclosed : ∀ key, key ∉ load.openParts)
    (s : Store R D) : Holds load (fun _ => []) s where
  named := by rw [hstaged]; exact fun part h => absurd h List.not_mem_nil
  shaped := by rw [hstaged]; exact fun part h => absurd h List.not_mem_nil
  openShaped := fun key h => absurd h (hclosed key)
  indexed := by rw [hstaged]; exact List.Pairwise.nil
  bounded := by rw [hstaged]; exact fun part h => absurd h List.not_mem_nil
  kept := by rw [hstaged]; exact fun part h => absurd h List.not_mem_nil
  conserved := by
    intro key
    rw [Load.stagedOf, hstaged, AList.lookup_eq_none.2 (hclosed key)]
    rfl

theorem keyOf_shaped (load : Load R) (table : String) (value : Option String) :
    load.Shaped (load.keyOf table value) := by
  unfold Load.Shaped Load.keyOf
  cases load.partitionBy with
  | none => exact ⟨rfl, fun slug h => nomatch h⟩
  | some column =>
    refine ⟨rfl, fun slug h => ?_⟩
    cases h
    exact slash_not_mem_partitionSlug value

/-- Rows join what their table and partition already hold. -/
theorem Holds.append (h : Holds load rows s) (table : String) (value : Option String)
    (batch : List R) :
    Holds (appendRows load table value batch)
      (fun key => if key = load.keyOf table value then rows key ++ batch else rows key) s where
  named := h.named
  shaped := h.shaped
  openShaped := by
    intro key hkey
    rcases AList.mem_insert _ |>.1 hkey with rfl | hkey
    · exact keyOf_shaped load table value
    · exact h.openShaped key hkey
  indexed := h.indexed
  bounded := h.bounded
  kept := h.kept
  conserved := by
    intro key
    change (load.stagedOf key).flatMap s.stagedRows ++ ((load.openParts.insert _ _).lookup key).getD []
      = _
    split
    · next hkey =>
      rw [hkey, AList.lookup_insert, Option.getD_some, ← List.append_assoc, h.conserved]
    · next hkey => rw [AList.lookup_insert_ne hkey, h.conserved]

theorem ensureTable_holds (h : Holds load rows s) {table : String} {mode : WriteMode}
    (hensure : ensureTable load table mode = .ok load') : Holds load' rows s := by
  unfold ensureTable at hensure
  split at hensure
  · cases hensure
  · cases hensure
    exact ⟨h.named, h.shaped, h.openShaped, h.indexed, h.bounded, h.kept, h.conserved⟩

end Commit

end FileLoad
