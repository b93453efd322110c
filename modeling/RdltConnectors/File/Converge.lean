import Mathlib
import RdltConnectors.File.Outcome

/-!
# Units converge

A load's units are delivered one after another, each by as many attempts as it takes.
What a run has done is kept in an account beside it: the names that manifests of the
load claimed, the files its truncation cleared, and the units that have a receipt, each
with the names and the rows of the one attempt that delivered it. The files under those
names hold those rows and nothing else, and a file that no manifest claimed is as it was
before the load, or cleared.
-/
namespace FileLoad

open FileLease (DestinationError Location)
open Sqlcore (WriteMode)
open Mortal

variable {R D : Type}

/-- A unit with a receipt: the names its manifest published, and the rows its attempt was
given. -/
structure Delivery (R : Type) where
  seq : Nat
  names : List String
  rows : PartKey → List R

/-- What a run of one load has done. -/
structure Account (R : Type) where
  /-- written since the session's last commit -/
  rows : PartKey → List R
  claimed : List String
  cleared : List String
  /-- the unit that was tried and has no receipt -/
  pending : Option Nat
  deliveries : List (Delivery R)

def Account.empty : Account R := ⟨fun _ => [], [], [], none, []⟩

/-- The names the manifest on record holds for the load. -/
def Store.claims (s : Store R D) (loadId : String) : List String :=
  match s.onRecord with
  | some manifest => if manifest.loadId = loadId then manifest.names else []
  | none => []

instance (s : Store R D) (loadId : String) : Decidable (FirstCommit s loadId) :=
  inferInstanceAs (Decidable (∀ r ∈ s.receipts, r.1 ≠ loadId))

instance (frozenPlainParquet : Bool) (table name : String) :
    Decidable (ReplaceOwns frozenPlainParquet table name) :=
  decidable_of_iff ((tailUnder table name).any (ownedByReplace frozenPlainParquet) = true)
    (by simp [ReplaceOwns, Option.any_eq_true])

instance (s : Store R D) (load : Load R) (loadId name : String) :
    Decidable (Truncates s load loadId name) :=
  inferInstanceAs (Decidable (FirstCommit s loadId ∧ _))

/-- Files the truncation of a first commit deleted. -/
def clearedBetween (loadId : String) (load : Load R) (s s' : Store R D) : List String :=
  s.files.keys.filter fun name => Truncates s load loadId name ∧ name ∉ s'.files

/-- The account after a commit, which left the store in `s'`. -/
def Account.commit (a : Account R) (loadId : String) (load : Load R) (seq : Nat)
    (s s' : Store R D) : Account R where
  rows := fun _ => []
  claimed := a.claimed ++ s'.claims loadId
  cleared := a.cleared ++ clearedBetween loadId load s s'
  pending :=
    if (loadId, seq) ∈ s.receipts then a.pending
    else if (loadId, seq) ∈ s'.receipts then none
    else some seq
  deliveries :=
    if (loadId, seq) ∉ s.receipts ∧ (loadId, seq) ∈ s'.receipts then
      a.deliveries ++ [⟨seq, s'.claims loadId, a.rows⟩]
    else a.deliveries

/-- The account after one event, which took the world to `w'`. -/
def Account.observe (loadId : String) (w : World R D) (event : Event R D) (w' : World R D)
    (a : Account R) : Account R :=
  match event, w.session with
  | .openLoad _ _ _ _, _ => { a with rows := fun _ => [] }
  | .append table value batch, some load =>
    { a with rows := fun key =>
        if key = load.keyOf table value then a.rows key ++ batch else a.rows key }
  | .commit metadata _, some load => a.commit loadId load metadata.commitSeq w.store w'.store
  | _, _ => a

/-- The world and its account. -/
def stepAccount (location : Location) (scope loadId : String) (x : World R D × Account R)
    (event : Event R D) : World R D × Account R :=
  let w' := step location scope x.1 event
  (w', x.2.observe loadId x.1 event w')

/-- Commits are the load's, and a unit is retried until its receipt lands. -/
def InOrder (loadId : String) (x : World R D × Account R) : Event R D → Prop
  | .commit metadata _ => metadata.loadId = loadId ∧
      (x.2.pending = none ∨ x.2.pending = some metadata.commitSeq ∨
        (loadId, metadata.commitSeq) ∈ x.1.store.receipts)
  | _ => True

/-- The pipeline's documents know nothing of the load. -/
structure FreshLoad (loadId : String) (s : Store R D) : Prop where
  receipts : FirstCommit s loadId
  manifest : ∀ m, s.onRecord = some m → m.loadId ≠ loadId

def unitName (loadId : String) (seq : Nat) (format : DestFormat) (part : StagedPart) : String :=
  finalTail part.key.1 part.key.2 loadId seq part.index format.extension

/-- The unit's names are those of parts that hold its rows. -/
def Delivery.ReadFrom (d : Delivery R) (loadId : String) (files : Objects R) : Prop :=
  ∃ format parts, d.names = parts.map (unitName loadId d.seq format) ∧
    Readback (unitName loadId d.seq format) parts d.rows files

/-- What a run of the load keeps of the store. -/
structure Kept (s₀ : Store R D) (loadId : String) (a : Account R) (s : Store R D) : Prop where
  readable : Readable s₀ → Readable s
  receipts : ∀ seq, (loadId, seq) ∈ s.receipts ↔ ∃ d ∈ a.deliveries, d.seq = seq
  once : (a.deliveries.map Delivery.seq).Nodup
  undelivered : ∀ seq, a.pending = some seq → (loadId, seq) ∉ s.receipts
  manifest : ∀ m, s.onRecord = some m → m.loadId = loadId →
    (∀ name ∈ m.names, NamedFor loadId m.commitSeq name) ∧
    (a.pending = some m.commitSeq ∨ ∃ d ∈ a.deliveries, d.seq = m.commitSeq ∧ d.names = m.names)
  claims : ∀ name ∈ s.claims loadId, name ∈ a.claimed
  claimedFor : ∀ name ∈ a.claimed, ∃ seq, NamedFor loadId seq name
  delivered : ∀ d ∈ a.deliveries, d.ReadFrom loadId s.files ∧ ∀ name ∈ d.names, name ∈ a.claimed
  gone : ∀ name ∈ a.claimed, name ∉ s.claims loadId → (∀ d ∈ a.deliveries, name ∉ d.names) →
    s.files.lookup name = none
  unclaimed : ∀ name ∉ a.claimed,
    s.files.lookup name = if name ∈ a.cleared then none else s₀.files.lookup name

section Kept

variable {loadId : String} {load : Load R} {metadata : CommitMeta D} {a a' : Account R}
  {s₀ s s' : Store R D} {names : List String} {d d' : Delivery R} {name : String}

theorem NamedFor.seq_eq {seq seq' : Nat} (h : NamedFor loadId seq name)
    (h' : NamedFor loadId seq' name) : seq = seq' := by
  obtain ⟨table, partition, index, format, rfl⟩ := h
  obtain ⟨table', partition', index', format', heq⟩ := h'
  exact (finalTail_inj heq).2.1

theorem Delivery.ReadFrom.namedFor {files : Objects R} (h : d.ReadFrom loadId files)
    (hname : name ∈ d.names) : NamedFor loadId d.seq name := by
  obtain ⟨format, parts, hnames, -⟩ := h
  rw [hnames] at hname
  obtain ⟨part, -, rfl⟩ := List.mem_map.1 hname
  exact ⟨part.key.1, part.key.2, part.index, format, rfl⟩

theorem Delivery.ReadFrom.congr {files files' : Objects R} (h : d.ReadFrom loadId files)
    (hsame : ∀ name ∈ d.names, files'.lookup name = files.lookup name) :
    d.ReadFrom loadId files' := by
  obtain ⟨format, parts, hnames, hread⟩ := h
  have hpart (part : StagedPart) (hpart : part ∈ parts) :
      files'.lookup (unitName loadId d.seq format part) =
        files.lookup (unitName loadId d.seq format part) :=
    hsame _ (hnames ▸ List.mem_map_of_mem hpart)
  refine ⟨format, parts, hnames, hread.once, fun part hp => ?_, fun key => ?_⟩
  · rw [← AList.lookup_isSome, hpart part hp, AList.lookup_isSome]
    exact hread.present part hp
  · rw [← hread.rows_eq key]
    exact List.flatMap_congr fun part hp => by rw [hpart part (List.mem_filter.1 hp).1]

theorem freshLoad_kept (h : FreshLoad loadId s) : Kept s loadId Account.empty s where
  readable := id
  receipts := fun seq => iff_of_false (fun hmem => h.receipts _ hmem rfl)
    fun ⟨_, hd, _⟩ => List.not_mem_nil hd
  once := List.nodup_nil
  undelivered := fun seq hpending => nomatch hpending
  manifest := fun m hm hload => absurd hload (h.manifest m hm)
  claims := by
    intro name hname
    unfold Store.claims at hname
    split at hname
    · next m hm =>
      rw [if_neg (h.manifest m hm)] at hname
      exact hname
    · exact hname
  claimedFor := fun name hname => absurd hname List.not_mem_nil
  delivered := fun d hd => absurd hd List.not_mem_nil
  gone := fun name hname => absurd hname List.not_mem_nil
  unclaimed := fun name _ => (if_neg List.not_mem_nil).symm

/-- Neither the staging area nor the rows of the session matter. -/
theorem Kept.staging (h : Kept s₀ loadId a s) (hstaging : StagingOnly s s') :
    Kept s₀ loadId a s' := by
  cases s
  cases s'
  cases hstaging
  exact ⟨fun hr => ⟨(h.readable hr).commits, (h.readable hr).manifest⟩, h.receipts, h.once,
    h.undelivered, h.manifest, h.claims, h.claimedFor, h.delivered, h.gone, h.unclaimed⟩

theorem Kept.recount (h : Kept s₀ loadId a s)
    (hclaimed : ∀ name, name ∈ a'.claimed ↔ name ∈ a.claimed)
    (hcleared : ∀ name, name ∈ a'.cleared ↔ name ∈ a.cleared) (hpending : a'.pending = a.pending)
    (hdeliveries : a'.deliveries = a.deliveries) : Kept s₀ loadId a' s where
  readable := h.readable
  receipts := by rw [hdeliveries]; exact h.receipts
  once := by rw [hdeliveries]; exact h.once
  undelivered := by rw [hpending]; exact h.undelivered
  manifest := by rw [hpending, hdeliveries]; exact h.manifest
  claims := fun name hname => (hclaimed name).2 (h.claims name hname)
  claimedFor := fun name hname => h.claimedFor name ((hclaimed name).1 hname)
  delivered := by
    rw [hdeliveries]
    exact fun d hd => ⟨(h.delivered d hd).1,
      fun name hname => (hclaimed name).2 ((h.delivered d hd).2 name hname)⟩
  gone := by
    rw [hdeliveries]
    exact fun name hname => h.gone name ((hclaimed name).1 hname)
  unclaimed := by
    intro name hname
    rw [h.unclaimed name fun hmem => hname ((hclaimed name).2 hmem)]
    simp only [hcleared name]

/-! ## What a commit keeps -/

theorem mem_claims {loadId : String} (s : Store R D) : name ∈ s.claims loadId ↔
    ∃ m, s.onRecord = some m ∧ m.loadId = loadId ∧ name ∈ m.names := by
  unfold Store.claims
  cases s.onRecord with
  | none => exact iff_of_false List.not_mem_nil fun ⟨_, h, _⟩ => nomatch h
  | some m =>
    by_cases hload : m.loadId = loadId
    · simp [hload]
    · simp [hload]

theorem mem_priorNames {prior : Option Manifest} : name ∈ priorNames prior metadata ↔
    ∃ m, prior = some m ∧ m.loadId = metadata.loadId ∧ m.commitSeq = metadata.commitSeq ∧
      name ∈ m.names := by
  unfold priorNames
  cases prior with
  | none => exact iff_of_false List.not_mem_nil fun ⟨_, h, _⟩ => nomatch h
  | some m =>
    by_cases h : m.loadId = metadata.loadId ∧ m.commitSeq = metadata.commitSeq
    · simp [h]
    · rw [not_and] at h
      simp only [Option.some.injEq, exists_eq_left']
      split
      · next h' => exact absurd h'.2 (h h'.1)
      · exact iff_of_false List.not_mem_nil fun h' => h h'.1 h'.2.1

theorem mem_clearedBetween : name ∈ clearedBetween loadId load s s' ↔
    name ∈ s.files ∧ Truncates s load loadId name ∧ name ∉ s'.files := by
  simp [clearedBetween, AList.mem_keys]

/-- A stale name is the unit's own and claimed. -/
theorem Kept.stale (h : Kept s₀ metadata.loadId a s)
    (hname : name ∈ priorNames s.onRecord metadata) :
    NamedFor metadata.loadId metadata.commitSeq name ∧ name ∈ s.claims metadata.loadId := by
  obtain ⟨m, hm, hload, hseq, hmem⟩ := mem_priorNames.1 hname
  exact ⟨hseq ▸ (h.manifest m hm hload).1 name hmem, (mem_claims s).2 ⟨m, hm, hload, hmem⟩⟩

/-- A claim that no receipt covers is stale for the unit that is being retried. -/
theorem Kept.stale_of_claims (h : Kept s₀ metadata.loadId a s)
    (hseq : a.pending = none ∨ a.pending = some metadata.commitSeq)
    (hname : name ∈ s.claims metadata.loadId) (hnone : ∀ d ∈ a.deliveries, name ∉ d.names) :
    name ∈ priorNames s.onRecord metadata := by
  obtain ⟨m, hm, hload, hmem⟩ := (mem_claims s).1 hname
  rcases (h.manifest m hm hload).2 with hpending | ⟨d, hd, -, hnames⟩
  · rcases hseq with hseq | hseq
    · rw [hseq] at hpending
      cases hpending
    · rw [hseq, Option.some.injEq] at hpending
      exact mem_priorNames.2 ⟨m, hm, hload, hpending.symm, hmem⟩
  · exact absurd (hnames ▸ hmem) (hnone d hd)

/-- A delivered unit is out of a later commit's reach. -/
theorem Kept.delivered_safe (h : Kept s₀ metadata.loadId a s) (load : Load R)
    (hnew : (metadata.loadId, metadata.commitSeq) ∉ s.receipts) (hd : d ∈ a.deliveries)
    (hname : name ∈ d.names) :
    ¬Doomed s load metadata name ∧ ¬NamedFor metadata.loadId metadata.commitSeq name := by
  have hreceipt : (metadata.loadId, d.seq) ∈ s.receipts := (h.receipts d.seq).2 ⟨d, hd, rfl⟩
  have hnamed := (h.delivered d hd).1.namedFor hname
  have hother : ¬NamedFor metadata.loadId metadata.commitSeq name := fun h' => by
    rw [hnamed.seq_eq h'] at hreceipt
    exact hnew hreceipt
  refine ⟨?_, hother⟩
  rintro (hstale | htruncates)
  · exact hother (h.stale hstale).1
  · exact htruncates.1 _ hreceipt rfl

/-- Files that are cleared, and files that are not. -/
theorem lookup_unclaimed
    (h : s.files.lookup name = if name ∈ a.cleared then none else s₀.files.lookup name)
    (hnext : s'.files.lookup name = s.files.lookup name ∨
      Truncates s load loadId name ∧ s'.files.lookup name = none) :
    s'.files.lookup name =
      if name ∈ a.cleared ++ clearedBetween loadId load s s' then none
      else s₀.files.lookup name := by
  by_cases hcleared : name ∈ clearedBetween loadId load s s'
  · rw [if_pos (List.mem_append_right _ hcleared)]
    exact AList.lookup_eq_none.2 (mem_clearedBetween.1 hcleared).2.2
  · have hmem : name ∈ a.cleared ++ clearedBetween loadId load s s' ↔ name ∈ a.cleared := by
      rw [List.mem_append, or_iff_left hcleared]
    simp only [hmem]
    rcases hnext with hsame | ⟨htruncates, hnone⟩
    · exact hsame.trans h
    · have habsent : name ∉ s.files := fun hfile =>
        hcleared (mem_clearedBetween.2 ⟨hfile, htruncates, AList.lookup_eq_none.1 hnone⟩)
      rw [hnone, ← h, AList.lookup_eq_none.2 habsent]

theorem Kept.replayed (h : Kept s₀ loadId a s) {seq : Nat} (hold : (loadId, seq) ∈ s.receipts)
    (hstaging : StagingOnly s s') : Kept s₀ loadId (a.commit loadId load seq s s') s' := by
  have hclaims : s'.claims loadId = s.claims loadId := by rw [hstaging]; rfl
  refine (h.staging hstaging).recount (fun name => ?_) (fun name => ?_) (if_pos hold) ?_
  · simp only [Account.commit, List.mem_append, hclaims, or_iff_left_iff_imp]
    exact h.claims name
  · simp only [Account.commit, List.mem_append, or_iff_left_iff_imp, mem_clearedBetween]
    exact fun hname => absurd rfl (hname.2.1.1 _ hold)
  · exact if_neg fun hnew => hnew.1 hold

theorem Kept.unrecorded (h : Kept s₀ metadata.loadId a s)
    (hseq : a.pending = none ∨ a.pending = some metadata.commitSeq)
    (hnew : (metadata.loadId, metadata.commitSeq) ∉ s.receipts)
    (hstop : Unrecorded load metadata s s') :
    Kept s₀ metadata.loadId (a.commit metadata.loadId load metadata.commitSeq s s') s' := by
  have hreceipts : s'.receipts = s.receipts := by rw [Store.receipts, hstop.commits]; rfl
  have honRecord : s'.onRecord = s.onRecord := by rw [Store.onRecord, hstop.manifest]; rfl
  have hclaims : s'.claims metadata.loadId = s.claims metadata.loadId := by
    rw [Store.claims, honRecord]; rfl
  have hpending : (a.commit metadata.loadId load metadata.commitSeq s s').pending =
      some metadata.commitSeq := by
    simp only [Account.commit, hreceipts, hnew, if_false]
  have hdeliveries : (a.commit metadata.loadId load metadata.commitSeq s s').deliveries =
      a.deliveries := if_neg fun h' => hnew (hreceipts ▸ h'.2)
  have hclaimed (name : String) :
      name ∈ (a.commit metadata.loadId load metadata.commitSeq s s').claimed ↔ name ∈ a.claimed := by
    simp only [Account.commit, List.mem_append, hclaims, or_iff_left_iff_imp]
    exact h.claims name
  have habsent {name : String} (hnone : s.files.lookup name = none) :
      s'.files.lookup name = none := (hstop.files name).elim (fun hsame => hsame.trans hnone) And.right
  refine ⟨fun hr => ?readable, ?receipts, ?once, ?undelivered, ?manifest, ?claims, ?claimedFor,
    ?delivered, ?gone, ?unclaimed⟩
  case readable =>
    exact ⟨hstop.commits ▸ (h.readable hr).commits, hstop.manifest ▸ (h.readable hr).manifest⟩
  case receipts =>
    rw [hreceipts, hdeliveries]
    exact h.receipts
  case once =>
    rw [hdeliveries]
    exact h.once
  case undelivered =>
    intro seq hsome
    rw [hpending, Option.some.injEq] at hsome
    rw [← hsome, hreceipts]
    exact hnew
  case manifest =>
    intro m hm hload
    rw [honRecord] at hm
    refine ⟨(h.manifest m hm hload).1, ?_⟩
    rw [hpending, hdeliveries]
    rcases (h.manifest m hm hload).2 with hsome | hd
    · rcases hseq with hseq | hseq
      · rw [hseq] at hsome
        cases hsome
      · exact .inl (hseq.symm.trans hsome)
    · exact .inr hd
  case claims => exact fun name hname => (hclaimed name).2 (h.claims name (hclaims ▸ hname))
  case claimedFor => exact fun name hname => h.claimedFor name ((hclaimed name).1 hname)
  case delivered =>
    rw [hdeliveries]
    refine fun d hd => ⟨(h.delivered d hd).1.congr fun name hname => ?_,
      fun name hname => (hclaimed name).2 ((h.delivered d hd).2 name hname)⟩
    exact (hstop.files name).resolve_right fun h' =>
      (h.delivered_safe load hnew hd hname).1 h'.1
  case gone =>
    rw [hclaims, hdeliveries]
    exact fun name hname hnot hnone => habsent (h.gone name ((hclaimed name).1 hname) hnot hnone)
  case unclaimed =>
    intro name hname
    have hfree : name ∉ a.claimed := fun hmem => hname ((hclaimed name).2 hmem)
    refine lookup_unclaimed (h.unclaimed name hfree) ((hstop.files name).imp_right ?_)
    rintro ⟨hstale | htruncates, hnone⟩
    · exact absurd (h.claims name (h.stale hstale).2) hfree
    · exact ⟨htruncates, hnone⟩

theorem Recorded.onRecord (h : Recorded load metadata names s s') : s'.onRecord =
    some ⟨layoutFormatVersion, metadata.loadId, metadata.commitSeq, names⟩ := by
  rw [Store.onRecord, h.manifest]

theorem Recorded.claims (h : Recorded load metadata names s s') :
    s'.claims metadata.loadId = names := by
  rw [Store.claims, h.onRecord]
  exact if_pos rfl

theorem Recorded.delivered (h : Recorded load metadata names s s')
    (hkept : Kept s₀ metadata.loadId a s)
    (hnew : (metadata.loadId, metadata.commitSeq) ∉ s.receipts) (hd : d ∈ a.deliveries) :
    d.ReadFrom metadata.loadId s'.files := by
  refine (hkept.delivered d hd).1.congr fun name hname => ?_
  obtain ⟨hdoomed, hother⟩ := hkept.delivered_safe load hnew hd hname
  exact h.others name (fun hmem => hother (h.named name hmem)) hdoomed

theorem Recorded.gone (h : Recorded load metadata names s s')
    (hkept : Kept s₀ metadata.loadId a s)
    (hseq : a.pending = none ∨ a.pending = some metadata.commitSeq) (hclaimed : name ∈ a.claimed)
    (hname : name ∉ names) (hnone : ∀ d ∈ a.deliveries, name ∉ d.names) :
    s'.files.lookup name = none := by
  by_cases hdoomed : Doomed s load metadata name
  · exact h.deleted name hname hdoomed
  · rw [h.others name hname hdoomed]
    exact hkept.gone name hclaimed
      (fun hclaims => hdoomed (.inl (hkept.stale_of_claims hseq hclaims hnone))) hnone

theorem Recorded.unclaimed (h : Recorded load metadata names s s')
    (hkept : Kept s₀ metadata.loadId a s) (hfree : name ∉ a.claimed) (hname : name ∉ names) :
    s'.files.lookup name =
      if name ∈ a.cleared ++ clearedBetween metadata.loadId load s s' then none
      else s₀.files.lookup name := by
  refine lookup_unclaimed (hkept.unclaimed name hfree) ?_
  by_cases hdoomed : Doomed s load metadata name
  · refine .inr ⟨?_, h.deleted name hname hdoomed⟩
    exact hdoomed.resolve_left fun hstale => hfree (hkept.claims name (hkept.stale hstale).2)
  · exact .inl (h.others name hname hdoomed)

theorem Recorded.readable_manifest (h : Recorded load metadata names s s') :
    ∀ bytes ∈ s'.manifest,
      ∃ manifest, bytes = .json manifest ∧ manifest.formatVersion = layoutFormatVersion := by
  rw [h.manifest]
  rintro bytes ⟨⟩
  exact ⟨_, rfl, rfl⟩

theorem Kept.claimedFor_append (h : Kept s₀ metadata.loadId a s)
    (hnamed : ∀ name ∈ names, NamedFor metadata.loadId metadata.commitSeq name) :
    ∀ name ∈ a.claimed ++ names, ∃ seq, NamedFor metadata.loadId seq name := by
  intro name hname
  rcases List.mem_append.1 hname with hname | hname
  · exact h.claimedFor name hname
  · exact ⟨_, hnamed name hname⟩

theorem Kept.recorded (h : Kept s₀ metadata.loadId a s)
    (hseq : a.pending = none ∨ a.pending = some metadata.commitSeq)
    (hnew : (metadata.loadId, metadata.commitSeq) ∉ s.receipts)
    (hstop : Recorded load metadata names s s') (hcommits : s'.commits = s.commits) :
    Kept s₀ metadata.loadId (a.commit metadata.loadId load metadata.commitSeq s s') s' := by
  have hreceipts : s'.receipts = s.receipts := by rw [Store.receipts, hcommits]; rfl
  have haccount : a.commit metadata.loadId load metadata.commitSeq s s' =
      ⟨fun _ => [], a.claimed ++ names, a.cleared ++ clearedBetween metadata.loadId load s s',
        some metadata.commitSeq, a.deliveries⟩ := by
    simp only [Account.commit, hreceipts, hnew, hstop.claims, if_false, and_false]
  rw [haccount]
  refine ⟨fun hr => ⟨hcommits ▸ (h.readable hr).commits, hstop.readable_manifest⟩, ?receipts,
    h.once, ?undelivered, ?manifest, ?claims, h.claimedFor_append hstop.named, ?delivered, ?gone,
    ?unclaimed⟩
  case receipts =>
    rw [hreceipts]
    exact h.receipts
  case undelivered =>
    intro seq hsome
    rw [← Option.some.inj hsome, hreceipts]
    exact hnew
  case manifest =>
    intro m hm _
    rw [hstop.onRecord, Option.some.injEq] at hm
    subst hm
    exact ⟨hstop.named, .inl rfl⟩
  case claims =>
    rw [hstop.claims]
    exact fun name hname => List.mem_append_right _ hname
  case delivered =>
    exact fun d hd => ⟨hstop.delivered h hnew hd,
      fun name hname => List.mem_append_left _ ((h.delivered d hd).2 name hname)⟩
  case gone =>
    rw [hstop.claims]
    intro name hmem hname hnone
    exact hstop.gone h hseq ((List.mem_append.1 hmem).resolve_right hname) hname hnone
  case unclaimed =>
    intro name hmem
    rw [List.mem_append, not_or] at hmem
    exact hstop.unclaimed h hmem.1 hmem.2

theorem Kept.landed (h : Kept s₀ metadata.loadId a s) {load' : Load R} {parts : List StagedPart}
    (hseq : a.pending = none ∨ a.pending = some metadata.commitSeq)
    (hnew : (metadata.loadId, metadata.commitSeq) ∉ s.receipts)
    (hlanded : Landed load metadata a.rows s load' parts s') :
    Kept s₀ metadata.loadId (a.commit metadata.loadId load metadata.commitSeq s s') s' := by
  have hrecorded := hlanded.recorded
  have hreceipts : s'.receipts = s.receipts ++ [(metadata.loadId, metadata.commitSeq)] := by
    rw [Store.receipts, hlanded.receipts]
  let d : Delivery R := ⟨metadata.commitSeq, parts.map (load.finalName metadata), a.rows⟩
  have haccount : a.commit metadata.loadId load metadata.commitSeq s s' =
      ⟨fun _ => [], a.claimed ++ d.names, a.cleared ++ clearedBetween metadata.loadId load s s',
        none, a.deliveries ++ [d]⟩ := by
    simp only [Account.commit, hreceipts, hnew, hrecorded.claims, List.mem_append,
      List.mem_singleton, or_true, if_false, if_true, not_false_eq_true, and_self, d]
  have hreads : d.ReadFrom metadata.loadId s'.files :=
    ⟨load.format, parts, rfl, hlanded.readback⟩
  rw [haccount]
  refine ⟨fun hr => ⟨?_, hrecorded.readable_manifest⟩, ?receipts, ?once,
    fun seq hsome => (nomatch hsome), ?manifest, ?claims, h.claimedFor_append hrecorded.named,
    ?delivered, ?gone, ?unclaimed⟩
  · rw [hlanded.receipts]
    rintro bytes ⟨⟩
    exact ⟨_, rfl, rfl⟩
  case receipts =>
    intro seq
    rw [hreceipts, List.mem_append, h.receipts seq, List.mem_singleton, Prod.mk.injEq]
    simp only [true_and, List.mem_append, List.mem_singleton, or_and_right, exists_or,
      exists_eq_left]
    exact or_congr_right eq_comm
  case once =>
    rw [List.map_append, List.nodup_append]
    refine ⟨h.once, List.nodup_singleton _, ?_⟩
    intro seq hmem seq' hmem' heq
    obtain ⟨d', hd', rfl⟩ := List.mem_map.1 hmem
    rw [List.map_singleton, List.mem_singleton] at hmem'
    exact hnew ((h.receipts _).2 ⟨d', hd', heq.trans hmem'⟩)
  case manifest =>
    intro m hm _
    rw [hrecorded.onRecord, Option.some.injEq] at hm
    subst hm
    exact ⟨hrecorded.named, .inr ⟨d, by simp, rfl, rfl⟩⟩
  case claims =>
    rw [hrecorded.claims]
    exact fun name hname => List.mem_append_right _ hname
  case delivered =>
    intro d' hd'
    rcases List.mem_append.1 hd' with hd' | hd'
    · exact ⟨hrecorded.delivered h hnew hd',
        fun name hname => List.mem_append_left _ ((h.delivered d' hd').2 name hname)⟩
    · rw [List.mem_singleton.1 hd']
      exact ⟨hreads, fun name hname => List.mem_append_right _ hname⟩
  case gone =>
    intro name hmem _ hnone
    have hname : name ∉ d.names := hnone d (by simp)
    exact hrecorded.gone h hseq ((List.mem_append.1 hmem).resolve_right hname) hname
      fun d' hd' => hnone d' (List.mem_append_left _ hd')
  case unclaimed =>
    intro name hmem
    rw [List.mem_append, not_or] at hmem
    exact hrecorded.unclaimed h hmem.1 hmem.2

end Kept

/-! ## Runs -/

section Run

variable {location : Location} {scope loadId : String} {s₀ s s' : Store R D} {a : Account R}
  {x : World R D × Account R} {event : Event R D} {load : Load R}

/-- A call that stops leaves no session. -/
theorem after_cases {α : Type} {whole : Prop} {P I : Store R D → Prop}
    {Q : α → Store R D → Prop} {m : Call R D α} (left : Option Nat) (session : α → Load R)
    (h : Spec whole P m Q I) (hs : P s) (hleft : whole → left = none) :
    (∃ answer s', World.after (Interrupted.exec m ⟨s, left⟩) session = ⟨s', some (session answer)⟩ ∧
      Q answer s') ∨
    (∃ s', World.after (Interrupted.exec m ⟨s, left⟩) session = ⟨s', none⟩ ∧ I s' ∧ ¬whole) := by
  rcases h.outcome hs hleft with ⟨answer, here, hexec, hq⟩ | ⟨cut, here, hexec, hi⟩
  · rw [hexec]
    exact .inl ⟨answer, here.state, rfl, hq⟩
  · rw [hexec]
    exact .inr ⟨here.state, rfl, hi⟩

/-- What a commit does to the store. -/
def Committed (load : Load R) (metadata : CommitMeta D) (rows : PartKey → List R)
    (s s' : Store R D) : Prop :=
  if (metadata.loadId, metadata.commitSeq) ∈ s.receipts then StagingOnly s s'
  else Stopped load metadata s s' ∨ ∃ load' parts, Landed load metadata rows s load' parts s'

/-- The session, if there is one, holds the rows. -/
def World.Holding (w : World R D) (rows : PartKey → List R) : Prop :=
  ∀ load, w.session = some load → Holds load rows w.store

theorem holding_some {rows : PartKey → List R} (h : Holds load rows s) :
    World.Holding ⟨s, some load⟩ rows := by
  intro load' hload
  rw [← Option.some.inj hload]
  exact h

theorem holding_none (s : Store R D) (rows : PartKey → List R) : World.Holding ⟨s, none⟩ rows :=
  fun _ hload => nomatch hload

section Calls

variable {rows : PartKey → List R}

theorem open_outcome (location : Location) (scope : String) (w : World R D) (format : DestFormat) (partitionBy : Option String)
    (id : String) (left : Option Nat) :
    StagingOnly w.store (step location scope w (.openLoad format partitionBy id left)).store ∧
    (step location scope w (.openLoad format partitionBy id left)).Holding fun _ => [] := by
  have hprepare : Spec False (· = w.store) (prepareStaging : Call R D PUnit)
      (fun _ => StagingOnly w.store) (StagingOnly w.store) := by
    refine spec_bind (Q := fun _ => StagingOnly w.store)
      (spec_look fun _ hs => hs ▸ stagingOnly_refl w.store) fun store => ?_
    exact deleteStaged_spec (fun tail => tail) store.staging.keys
  simp only [step]
  rcases after_cases left
    (fun _ => Load.fresh location format partitionBy scope id) hprepare rfl False.elim with
    ⟨answer, s', hafter, hs'⟩ | ⟨s', hafter, hs', -⟩
  · rw [hafter]
    exact ⟨hs', holding_some (holds_empty rfl (fun key => AList.notMem_empty key) s')⟩
  · rw [hafter]
    exact ⟨hs', holding_none s' _⟩

theorem ensure_outcome (location : Location) (scope : String) (h : Holds load rows s) (table : String) (mode : WriteMode) :
    (step location scope ⟨s, some load⟩ (.ensure table mode)).store = s ∧
    (step location scope ⟨s, some load⟩ (.ensure table mode)).Holding rows := by
  simp only [step]
  cases hensure : ensureTable load table mode with
  | error e => exact ⟨rfl, holding_some h⟩
  | ok ensured => exact ⟨rfl, holding_some (ensureTable_holds h hensure)⟩

theorem roll_outcome (location : Location) (scope : String) (h : Holds load rows s) (key : PartKey) :
    StagingOnly s (step location scope ⟨s, some load⟩ (.roll key)).store ∧
    (step location scope ⟨s, some load⟩ (.roll key)).Holding rows := by
  simp only [step]
  rcases after_cases none id (closePart_spec True load key)
    (s := s) ⟨h, stagingOnly_refl s, continues_refl load⟩ (fun _ => rfl) with
    ⟨load', s', hafter, hs'⟩ | ⟨s', hafter, -, hwhole⟩
  · rw [hafter]
    exact ⟨hs'.1.staging, holding_some hs'.1.holds⟩
  · exact absurd trivial hwhole

theorem commit_outcome (location : Location) (scope : String) (h : Holds load rows s)
    (metadata : CommitMeta D) (left : Option Nat) :
    Committed load metadata rows s
      (step location scope ⟨s, some load⟩ (.commit metadata left)).store ∧
    (step location scope ⟨s, some load⟩ (.commit metadata left)).Holding fun _ => [] := by
  simp only [step]
  unfold Committed
  rcases after_cases left Prod.fst (commit_spec False h False.elim) rfl
    False.elim with ⟨answer, s', hafter, hs'⟩ | ⟨s', hafter, hs', -⟩
  · rw [hafter]
    split at hs'
    · next hold =>
      rw [if_pos hold]
      exact ⟨hs'.staging, holding_some (holds_empty hs'.unstaged hs'.closed s')⟩
    · next hnew =>
      rw [if_neg hnew]
      obtain ⟨parts, hlanded⟩ := hs'
      exact ⟨.inr ⟨answer.1, parts, hlanded⟩,
        holding_some (holds_empty hlanded.unstaged hlanded.closed s')⟩
  · rw [hafter]
    split at hs'
    · next hold =>
      rw [if_pos hold]
      exact ⟨hs', holding_none s' _⟩
    · next hnew =>
      rw [if_neg hnew]
      exact ⟨.inl hs', holding_none s' _⟩

end Calls

/-- The store is kept, and the session holds the rows it was given. -/
structure Inv (s₀ : Store R D) (loadId : String) (x : World R D × Account R) : Prop where
  kept : Kept s₀ loadId x.2 x.1.store
  session : x.1.Holding x.2.rows

theorem Kept.committed {metadata : CommitMeta D} (h : Kept s₀ metadata.loadId a s)
    (hseq : a.pending = none ∨ a.pending = some metadata.commitSeq ∨
      (metadata.loadId, metadata.commitSeq) ∈ s.receipts)
    (hstep : Committed load metadata a.rows s s') :
    Kept s₀ metadata.loadId (a.commit metadata.loadId load metadata.commitSeq s s') s' := by
  unfold Committed at hstep
  split at hstep
  · next hold => exact h.replayed hold hstep
  · next hnew =>
    have hunit : a.pending = none ∨ a.pending = some metadata.commitSeq :=
      hseq.imp_right fun h => h.resolve_right hnew
    rcases hstep with (hstop | ⟨names, hstop, hcommits⟩) | ⟨load', parts, hlanded⟩
    · exact h.unrecorded hunit hnew hstop
    · exact h.recorded hunit hnew hstop hcommits
    · exact h.landed hunit hnew hlanded

theorem Kept.reset (h : Kept s₀ loadId a s) (rows : PartKey → List R) :
    Kept s₀ loadId { a with rows } s :=
  h.recount (fun _ => Iff.rfl) (fun _ => Iff.rfl) rfl rfl

theorem inv_step (h : Inv s₀ loadId x) (hok : InOrder loadId x event) :
    Inv s₀ loadId (stepAccount location scope loadId x event) := by
  obtain ⟨⟨s, session⟩, a⟩ := x
  obtain ⟨hkept, hsession⟩ := h
  cases event with
  | openLoad format partitionBy id left =>
    obtain ⟨hstaging, hholding⟩ := open_outcome location scope
      ⟨s, session⟩ format partitionBy id left
    exact ⟨(hkept.staging hstaging).reset _, hholding⟩
  | crash => exact ⟨hkept, holding_none s _⟩
  | ensure table mode =>
    cases session with
    | none => exact ⟨hkept, hsession⟩
    | some load =>
      obtain ⟨hsame, hholding⟩ := ensure_outcome location scope
        (hsession load rfl) table mode
      refine ⟨?_, hholding⟩
      change Kept s₀ loadId a (step location scope ⟨s, some load⟩ (.ensure table mode)).store
      rw [hsame]
      exact hkept
  | append table value batch =>
    cases session with
    | none => exact ⟨hkept, hsession⟩
    | some load =>
      exact ⟨hkept.reset _, holding_some ((hsession load rfl).append table value batch)⟩
  | roll key =>
    cases session with
    | none => exact ⟨hkept, hsession⟩
    | some load =>
      obtain ⟨hstaging, hholding⟩ := roll_outcome location scope
        (hsession load rfl) key
      exact ⟨hkept.staging hstaging, hholding⟩
  | commit metadata left =>
    cases session with
    | none => exact ⟨hkept, hsession⟩
    | some load =>
      obtain ⟨rfl, hseq⟩ := hok
      obtain ⟨hcommitted, hholding⟩ := commit_outcome location scope
        (hsession load rfl) metadata left
      exact ⟨hkept.committed hseq hcommitted, hholding⟩

/-- What a run of the load's comes to. -/
structure Converged (loadId : String) (s₀ s : Store R D) (a : Account R) : Prop where
  /-- a unit has its receipt when it was delivered, and is delivered once -/
  receipts : ∀ seq, (loadId, seq) ∈ s.receipts ↔ ∃ d ∈ a.deliveries, d.seq = seq
  once : (a.deliveries.map Delivery.seq).Nodup
  /-- the names of its manifest are those of parts that hold its rows -/
  readFrom : ∀ d ∈ a.deliveries, d.ReadFrom loadId s.files
  /-- no other file has a name of the unit, but for those that were there before -/
  exactly : ∀ d ∈ a.deliveries, ∀ name, NamedFor loadId d.seq name →
    (name ∈ s.files ↔
      name ∈ d.names ∨ name ∈ s₀.files ∧ name ∉ a.claimed ∧ name ∉ a.cleared)
  claimedFor : ∀ name ∈ a.claimed, ∃ seq, NamedFor loadId seq name
  /-- a file under a name that no manifest claimed is as it was, or cleared -/
  others : ∀ name ∉ a.claimed,
    s.files.lookup name = if name ∈ a.cleared then none else s₀.files.lookup name

theorem Kept.exactly (h : Kept s₀ loadId a s) {d : Delivery R} (hd : d ∈ a.deliveries)
    {name : String} (hname : NamedFor loadId d.seq name) :
    name ∈ s.files ↔ name ∈ d.names ∨ name ∈ s₀.files ∧ name ∉ a.claimed ∧ name ∉ a.cleared := by
  by_cases hmem : name ∈ d.names
  · refine iff_of_true ?_ (.inl hmem)
    obtain ⟨format, parts, hnames, hread⟩ := (h.delivered d hd).1
    rw [hnames] at hmem
    obtain ⟨part, hpart, rfl⟩ := List.mem_map.1 hmem
    exact hread.present part hpart
  rw [or_iff_right hmem]
  have hsame {d' : Delivery R} (hd' : d' ∈ a.deliveries) (hseq : d'.seq = d.seq) : d' = d :=
    List.inj_on_of_nodup_map h.once hd' hd hseq
  by_cases hclaimed : name ∈ a.claimed
  · refine iff_of_false ?_ fun h' => h'.2.1 hclaimed
    rw [← AList.lookup_eq_none]
    refine h.gone name hclaimed (fun hclaims => ?_) fun d' hd' hmem' => ?_
    · obtain ⟨m, hm, hload, hmanifest⟩ := (mem_claims s).1 hclaims
      obtain ⟨hnamed, hunit⟩ := h.manifest m hm hload
      have hseq := (hnamed name hmanifest).seq_eq hname
      rcases hunit with hpending | ⟨d', hd', hseq', hnames⟩
      · exact h.undelivered _ hpending ((h.receipts _).2 ⟨d, hd, hseq.symm⟩)
      · rw [← hnames, hsame hd' (hseq'.trans hseq)] at hmanifest
        exact hmem hmanifest
    · rw [hsame hd' (((h.delivered d' hd').1.namedFor hmem').seq_eq hname)] at hmem'
      exact hmem hmem'
  · rw [← AList.lookup_isSome, h.unclaimed name hclaimed]
    by_cases hcleared : name ∈ a.cleared
    · simp [hcleared]
    · simp [hcleared, hclaimed, AList.lookup_isSome]

theorem Kept.converged (h : Kept s₀ loadId a s) : Converged loadId s₀ s a where
  receipts := h.receipts
  once := h.once
  readFrom := fun d hd => (h.delivered d hd).1
  exactly := fun _ hd _ hname => h.exactly hd hname
  claimedFor := h.claimedFor
  others := h.unclaimed

/-- A commit that does not die gets its receipt. -/
theorem commit_lands {metadata : CommitMeta D} {rows : PartKey → List R}
    (hs : Holds load rows s) (hreadable : Readable s) :
    (metadata.loadId, metadata.commitSeq) ∈
      (step location scope ⟨s, some load⟩ (.commit metadata none)).store.receipts := by
  change _ ∈ (World.after (Interrupted.exec (commit load metadata) ⟨s, none⟩) Prod.fst).store.receipts
  rcases after_cases none Prod.fst (commit_spec True hs fun _ => hreadable) rfl (fun _ => rfl) with ⟨answer, s', hafter, hs'⟩ | ⟨s', -, -, hwhole⟩
  · rw [hafter]
    split at hs'
    · next hold =>
      rw [hs'.staging]
      exact hold
    · obtain ⟨parts, hlanded⟩ := hs'
      rw [Store.receipts, hlanded.receipts]
      exact List.mem_append_right _ (List.mem_singleton.2 rfl)
  · exact absurd trivial hwhole

/-- Over every run of a load's, whatever its attempts and wherever they die, each unit
with a receipt is in the files of one attempt's manifest, each row once; beside them
there are only files that no manifest of the load claimed, which are as they were or
cleared by the truncation. An attempt that does not die lands the receipt. -/
theorem units_converge (location : Location) (scope loadId : String) (s₀ : Store R D)
    (hfresh : FreshLoad loadId s₀) (events : List (Event R D))
    (hrun : Transition.Meets (stepAccount location scope loadId) (InOrder loadId)
      (⟨s₀, none⟩, Account.empty) events) :
    let x := Transition.run (stepAccount location scope loadId) (⟨s₀, none⟩, Account.empty) events
    Converged loadId s₀ x.1.store x.2 ∧
    (Readable s₀ → ∀ load metadata, x.1.session = some load → metadata.loadId = loadId →
      (loadId, metadata.commitSeq) ∈
        (step location scope x.1 (.commit metadata none)).store.receipts) := by
  intro x
  have hinv : Inv s₀ loadId x := Transition.run_invariant (fun _ _ h hok => inv_step h hok)
    ⟨freshLoad_kept hfresh, fun load hload => nomatch hload⟩ hrun
  refine ⟨hinv.kept.converged, fun hreadable load metadata hload hmeta => ?_⟩
  have hworld : x.1 = ⟨x.1.store, some load⟩ := by rw [← hload]
  rw [hworld, ← hmeta]
  exact commit_lands (hinv.session load hload) (hinv.kept.readable hreadable)

end Run

instance (loadId : String) (x : World R D × Account R) (event : Event R D) :
    Decidable (InOrder loadId x event) := by
  cases event <;> unfold InOrder <;> infer_instance

def objectsOf (files : List (String × List R)) : Objects R :=
  files.foldl (fun objects file => objects.insert file.1 file.2) ∅

/-- A store with files and no documents. -/
def plainStore (files : List (String × List Nat)) : Store Nat Unit :=
  ⟨objectsOf files, ∅, none, none, none⟩

theorem plainStore_fresh (loadId : String) (files : List (String × List Nat)) :
    FreshLoad loadId (plainStore files) :=
  ⟨fun _ h => absurd h List.not_mem_nil, fun _ h => nomatch h⟩

/-- The first attempt splits its rows in two parts and dies between the copy and the
delete of the second; the next one writes a single part. -/
def resplitRun : List (Event Nat Unit) :=
  [.openLoad .parquet none "load-a" none, .ensure "events" .replace,
   .append "events" none [1, 2], .roll ("events", none), .append "events" none [3],
   .commit ⟨"load-a", 1, ()⟩ (some 6),
   .openLoad .parquet none "load-a" none, .ensure "events" .replace,
   .append "events" none [1, 2, 3], .commit ⟨"load-a", 1, ()⟩ none,
   .append "events" none [4], .commit ⟨"load-a", 2, ()⟩ none]

def earlierFiles : List (String × List Nat) :=
  [("events/part-load-0-1-0.parquet", [8]), ("orders/part-load-a-1-0.jsonl", [9])]

def resplitEnd : World Nat Unit × Account Nat :=
  Transition.run (stepAccount .s3 "p" "load-a") (⟨plainStore earlierFiles, none⟩, .empty) resplitRun

theorem resplit_run_converges :
    Transition.Meets (stepAccount .s3 "p" "load-a") (InOrder "load-a")
      (⟨plainStore earlierFiles, none⟩, .empty) resplitRun ∧
    Converged "load-a" (plainStore earlierFiles) resplitEnd.1.store resplitEnd.2 := by
  have hrun : Transition.Meets (stepAccount .s3 "p" "load-a") (InOrder "load-a")
      (⟨plainStore earlierFiles, none⟩, .empty) resplitRun := by decide +kernel
  exact ⟨hrun, (units_converge _ _ _ _ (plainStore_fresh _ _) _ hrun).1⟩

/-- Another pipeline's file, under a name of our unit. -/
def collidingFiles : List (String × List Nat) := [("events/part-load-a-1-1.parquet", [9])]

def plainRun : List (Event Nat Unit) :=
  [.openLoad .parquet none "load-a" none, .append "events" none [1],
   .commit ⟨"load-a", 1, ()⟩ none]

def collidingEnd : World Nat Unit × Account Nat :=
  Transition.run (stepAccount .localDir "p" "load-a") (⟨plainStore collidingFiles, none⟩, .empty)
    plainRun

/-- The file is left where it is: the unit's names are not the manifest's alone. -/
theorem colliding_name_stays :
    Transition.Meets (stepAccount .localDir "p" "load-a") (InOrder "load-a")
      (⟨plainStore collidingFiles, none⟩, .empty) plainRun ∧
    ¬∀ d ∈ collidingEnd.2.deliveries, ∀ name, NamedFor "load-a" d.seq name →
      (name ∈ collidingEnd.1.store.files ↔ name ∈ d.names) := by
  refine ⟨by decide +kernel, fun h => ?_⟩
  obtain ⟨d, hd, hseq, hnames⟩ : ∃ d ∈ collidingEnd.2.deliveries,
      d.seq = 1 ∧ "events/part-load-a-1-1.parquet" ∉ d.names := by decide +kernel
  have hname : NamedFor "load-a" d.seq "events/part-load-a-1-1.parquet" :=
    ⟨"events", none, 1, .parquet, by rw [hseq]; decide⟩
  exact hnames ((h d hd _ hname).1 (by decide +kernel))

end FileLoad
