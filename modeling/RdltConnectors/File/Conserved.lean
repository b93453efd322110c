import RdltConnectors.File.Splitting

/-!
# No row is lost between a batch and its part

What was written under a key is what its staged parts and its open part hold, in the order it
was written. Splitting, rolling, a change of schema and the memory ceiling only move the seam
between the two.
-/
namespace FileWrite

open FileLease (DestinationError)
open FileLoad (DestFormat stagedName stagingTail)
open Entries Fallible

variable {S R : Type}

/-! ## What was written -/

section Written

variable (host : Host S R) (partitionBy : Option String)

/-- The rows written under each key since the last publish or replay. -/
def writtenBy (rows : PartKey → List R) : Event S R → PartKey → List R
  | .write table batch _ => fun key =>
    rows key ++ if key.table = table then rowsFor host partitionBy batch key.partition else []
  | .publish => fun _ => []
  | .replay => fun _ => []

def written (events : List (Event S R)) : PartKey → List R :=
  events.foldl (writtenBy host partitionBy) fun _ => []

end Written

/-! ## What is held -/

namespace Load

def stagedRows (load : Load S R) (key : PartKey) : List R :=
  (load.stagedOf key).flatMap fun staged => staged.part.rows

def openRows (load : Load S R) (key : PartKey) : List R :=
  ((find key load.openParts).map fun entry => entry.1.rows).getD []

/-- The loop of the budget: it closes a largest part while the open ones are too large, and
stops. The number counts the parts closed. -/
inductive Budgeted (host : Host S R) : Load S R → Nat → Load S R → Prop
  | within {load : Load S R} (hwithin : load.parts.overBudget (load.openBytes host) = false) :
    Budgeted host load 0 load
  | nothing {load : Load S R} (hnothing : load.openParts = []) : Budgeted host load 0 load
  | close {load closed load' : Load S R} {n : Nat} (entry : PartKey × (OpenPart S R × Nat))
      (hover : load.parts.overBudget (load.openBytes host) = true)
      (hopen : entry ∈ load.openParts)
      (hlargest : ∀ other ∈ load.openParts,
        host.encodedLen other.2.1 ≤ host.encodedLen entry.2.1)
      (hclosed : load.closePart host entry.1 = .ok closed)
      (hrest : Budgeted host closed n load') : Budgeted host load (n + 1) load'

end Load

/-- A part holds rows of one partition, and a parquet part rows of one schema. -/
structure PartOk (host : Host S R) (format : DestFormat) (partitionBy : Option String)
    (key : PartKey) (part : OpenPart S R) : Prop where
  formatted : part.format = format
  sorted : ∀ batch ∈ part.appended, ∀ row ∈ batch.rows,
    partitionOf host partitionBy batch.schema row = .ok key.partition
  uniform : format = .parquet → ∀ batch ∈ part.appended, batch.schema = part.schema

/-- Nothing is lost, and parts are numbered as they come. -/
structure Conserves (host : Host S R) (format : DestFormat) (partitionBy : Option String)
    (load : Load S R) (rows : PartKey → List R) : Prop where
  formatted : load.format = format
  partitioned : load.partitionBy = partitionBy
  conserved : ∀ key, load.stagedRows key ++ load.openRows key = rows key
  openOk : ∀ key entry, find key load.openParts = some entry →
    KeyOk partitionBy key ∧ PartOk host format partitionBy key entry.1
  stagedOk : ∀ staged ∈ load.staged, KeyOk partitionBy staged.key ∧
    PartOk host format partitionBy staged.key staged.part
  numbered : ∀ key, (load.stagedOf key).map StagedPart.index =
    List.range (load.stagedOf key).length
  named : ∀ staged ∈ load.staged, staged.stagingTail = stagingTail load.scope load.loadId
    (stagedName staged.key.table staged.key.partition staged.index format.extension)

/-- An encoder that was given rows has bytes for them. -/
def Host.KeepsRows (host : Host S R) : Prop :=
  ∀ part bytes, host.finish part = .ok bytes → bytes = [] → part.rows = []

variable {host : Host S R} {format : DestFormat} {partitionBy : Option String}
  {load load' : Load S R} {rows : PartKey → List R} {key : PartKey}

namespace Load

theorem openRows_of_find {part : OpenPart S R} {openedAt : Nat}
    (h : find key load.openParts = some (part, openedAt)) : load.openRows key = part.rows := by
  rw [openRows, h]
  rfl

theorem openRows_of_none (h : find key load.openParts = none) : load.openRows key = [] := by
  rw [openRows, h]
  rfl

end Load

/-! ## Closing -/

theorem stagedOf_append (load : Load S R) (staged : StagedPart S R) (key : PartKey) :
    ({ load with staged := load.staged ++ [staged] } : Load S R).stagedOf key =
      load.stagedOf key ++ if staged.key = key then [staged] else [] := by
  by_cases h : staged.key = key
  · simp [Load.stagedOf, List.filter_append, h]
  · simp [Load.stagedOf, List.filter_append, h]

theorem stagedRows_append (load : Load S R) (staged : StagedPart S R) (key : PartKey) :
    ({ load with staged := load.staged ++ [staged] } : Load S R).stagedRows key =
      load.stagedRows key ++ if staged.key = key then staged.part.rows else [] := by
  rw [Load.stagedRows, stagedOf_append, List.flatMap_append]
  split
  · rw [List.flatMap_singleton]
    rfl
  · rfl

/-- An open part leaves the open ones. -/
theorem openRows_remove (load : Load S R) (key other : PartKey) :
    ({ load with openParts := remove key load.openParts } : Load S R).openRows other =
      if key = other then [] else load.openRows other := by
  by_cases h : key = other
  · subst h
    rw [if_pos rfl, Load.openRows_of_none (find_remove_self _ _)]
  · rw [if_neg h, Load.openRows, Load.openRows, find_remove_ne (Ne.symm h)]

theorem openOk_remove (h : Conserves host format partitionBy load rows) {key other : PartKey}
    {entry : OpenPart S R × Nat}
    (hfind : find other (remove key load.openParts) = some entry) :
    KeyOk partitionBy other ∧ PartOk host format partitionBy other entry.1 := by
  by_cases hkey : other = key
  · subst hkey
    rw [find_remove_self] at hfind
    cases hfind
  · rw [find_remove_ne hkey] at hfind
    exact h.openOk other entry hfind

/-- A part with rows leaves the open ones and stands behind the staged ones of its key. -/
theorem staging_conserves (h : Conserves host format partitionBy load rows)
    {part : OpenPart S R} {openedAt : Nat}
    (hopen : find key load.openParts = some (part, openedAt)) :
    Conserves host format partitionBy
      { load with
        openParts := remove key load.openParts
        staged := load.staged ++ [load.staging key part] } rows where
  formatted := h.formatted
  partitioned := h.partitioned
  conserved other := by
    have hstaged := stagedRows_append load (load.staging key part) other
    have hremoved := openRows_remove load key other
    rw [← h.conserved other]
    refine (congrArg₂ (· ++ ·) hstaged hremoved).trans ?_
    by_cases hkey : key = other
    · subst hkey
      rw [Load.openRows_of_find hopen, if_pos rfl, List.append_nil]
      exact congrArg _ (if_pos rfl)
    · rw [if_neg hkey]
      exact congrArg (· ++ _) ((congrArg _ (if_neg hkey)).trans (List.append_nil _))
  openOk other entry hfind := openOk_remove h hfind
  stagedOk staged hstaged := by
    obtain hold | hnew := List.mem_append.1 hstaged
    · exact h.stagedOk staged hold
    · obtain rfl := List.mem_singleton.1 hnew
      exact h.openOk key _ hopen
  numbered other := by
    refine (congrArg (fun parts => parts.map StagedPart.index =
      List.range parts.length) (stagedOf_append load (load.staging key part) other)).mpr ?_
    by_cases hkey : key = other
    · subst hkey
      rw [Load.staging_key, if_pos rfl, List.map_append, List.length_append, h.numbered key]
      exact List.range_succ.symm
    · rw [Load.staging_key, if_neg hkey, List.append_nil]
      exact h.numbered other
  named staged hstaged := by
    obtain hold | hnew := List.mem_append.1 hstaged
    · exact h.named staged hold
    · obtain rfl := List.mem_singleton.1 hnew
      rw [← h.formatted]
      rfl

/-- Closing a part moves its rows behind those that are staged. -/
theorem closePart_conserves (hhost : host.KeepsRows)
    (h : Conserves host format partitionBy load rows)
    (hclose : load.closePart host key = .ok load') :
    Conserves host format partitionBy load' rows := by
  obtain ⟨-, rfl⟩ | ⟨part, openedAt, bytes, hopen, hfinish, ⟨hempty, rfl⟩ | rfl⟩ :=
    Load.closePart_cases hclose
  · exact h
  · refine { h with
      conserved := fun other => ?_
      openOk := fun other entry => openOk_remove h }
    rw [← h.conserved other, openRows_remove]
    by_cases hkey : key = other
    · subst hkey
      rw [if_pos rfl, Load.openRows_of_find hopen, hhost part bytes hfinish hempty]
      rfl
    · rw [if_neg hkey]
      rfl
  · exact staging_conserves h hopen

theorem closeAllParts_conserves (hhost : host.KeepsRows)
    (h : Conserves host format partitionBy load rows)
    (hclose : load.closeAllParts host = .ok load') :
    Conserves host format partitionBy load' rows := by
  refine foldlM_ok (P := fun _ load => Conserves host format partitionBy load rows) h ?_ hclose
  intro _ key _ load next hload hnext
  exact closePart_conserves hhost hload hnext

/-- Nothing stays open behind a commit. -/
theorem closeAllParts_openParts (hclose : load.closeAllParts host = .ok load') :
    load'.openParts = [] := by
  have hclosed := foldlM_ok (P := fun passed (now : Load S R) =>
    ∀ entry ∈ now.openParts, entry ∈ load.openParts ∧ entry.1 ∉ passed)
    (fun entry hentry => ⟨hentry, List.not_mem_nil⟩) ?_ hclose
  · rw [List.eq_nil_iff_forall_not_mem]
    intro entry hentry
    obtain ⟨hopen, hnot⟩ := hclosed entry hentry
    exact hnot (List.mem_map_of_mem hopen)
  · intro passed key _ now next hnow hnext entry hentry
    have hkept : entry ∈ now.openParts ∧ entry.1 ≠ key := by
      obtain ⟨hsame, hnone⟩ | hremoved := Load.closePart_openParts hnext
      · rw [hsame] at hentry
        exact ⟨hentry, find_eq_none_iff.1 hnone entry hentry⟩
      · rw [hremoved] at hentry
        obtain ⟨hmem, hne⟩ := List.mem_filter.1 hentry
        exact ⟨hmem, of_decide_eq_true hne⟩
    obtain ⟨hopen, hnot⟩ := hnow entry hkept.1
    refine ⟨hopen, fun hmem => ?_⟩
    obtain hbefore | hhere := List.mem_append.1 hmem
    · exact hnot hbefore
    · exact hkept.2 (List.mem_singleton.1 hhere)

/-! ## The budget -/

/-- Every entry is at most as large as the one picked. -/
theorem foldl_larger_le {entries : List (PartKey × (OpenPart S R × Nat))}
    {best : Option (PartKey × (OpenPart S R × Nat))} {picked : PartKey × (OpenPart S R × Nat)}
    (h : entries.foldl (Load.larger host) best = some picked) :
    (∀ entry ∈ best, host.encodedLen entry.2.1 ≤ host.encodedLen picked.2.1) ∧
      ∀ entry ∈ entries, host.encodedLen entry.2.1 ≤ host.encodedLen picked.2.1 := by
  induction entries generalizing best with
  | nil =>
    obtain rfl : best = some picked := h
    exact ⟨fun entry hentry => by rw [Option.some.inj hentry], fun entry hentry => by cases hentry⟩
  | cons first rest ih =>
    obtain ⟨hbest, hrest⟩ := ih h
    have hboth : host.encodedLen first.2.1 ≤ host.encodedLen picked.2.1 ∧
        ∀ entry ∈ best, host.encodedLen entry.2.1 ≤ host.encodedLen picked.2.1 := by
      cases best with
      | none => exact ⟨hbest first rfl, fun entry hentry => by cases hentry⟩
      | some other =>
        rw [Load.larger] at hbest
        split at hbest
        · rename_i hle
          refine ⟨hbest first rfl, fun entry hentry => ?_⟩
          obtain rfl := Option.some.inj hentry
          exact le_trans hle (hbest first rfl)
        · rename_i hlt
          refine ⟨?_, fun entry hentry => ?_⟩
          · exact le_trans (by omega) (hbest other rfl)
          · obtain rfl := Option.some.inj hentry
            exact hbest other rfl
    exact ⟨hboth.2, List.forall_mem_cons.2 ⟨hboth.1, hrest⟩⟩

theorem largest_none {openParts : List (PartKey × (OpenPart S R × Nat))}
    (h : Load.largest host openParts = none) : openParts = [] := by
  cases openParts with
  | nil => rfl
  | cons first rest =>
    have hsome : ∀ (entries : List (PartKey × (OpenPart S R × Nat))) best,
        entries.foldl (Load.larger host) (some best) ≠ none := by
      intro entries
      induction entries with
      | nil => simp
      | cons entry entries ih =>
        intro best
        rw [List.foldl_cons, Load.larger]
        split
        · exact ih entry
        · exact ih best
    exact absurd (Option.map_eq_none_iff.1 h) (hsome rest first)

/-- The loop closes largest parts, at most as many as are open. -/
theorem enforceOpenBudget_budgeted (h : load.enforceOpenBudget host = .ok load') :
    ∃ n ≤ load.openParts.length, Load.Budgeted host load n load' := by
  induction hn : load.openParts.length using Nat.strong_induction_on generalizing load with
  | _ n ih =>
    rw [Load.enforceOpenBudget.eq_def] at h
    split at h
    · rename_i hover
      split at h
      · rename_i hnone
        obtain rfl := Except.ok.inj h
        exact ⟨0, Nat.zero_le _, .nothing (largest_none hnone)⟩
      · rename_i key hlargest
        split at h
        · cases h
        · rename_i closed hclosed
          have hshorter := Load.closePart_shorter (Load.largest_open hlargest) hclosed
          obtain ⟨m, hm, hrest⟩ := ih _ (hn ▸ hshorter) h rfl
          obtain ⟨entry, hpicked, rfl⟩ := Option.map_eq_some_iff.1 hlargest
          obtain hnone | hopen := Load.foldl_larger_mem hpicked
          · cases hnone
          · exact ⟨m + 1, by omega, .close entry hover hopen (foldl_larger_le hpicked).2 hclosed hrest⟩
    · rename_i hwithin
      obtain rfl := Except.ok.inj h
      exact ⟨0, Nat.zero_le _, .within (Bool.eq_false_iff.2 hwithin)⟩

theorem budgeted_conserves (hhost : host.KeepsRows) {n : Nat}
    (hbudget : Load.Budgeted host load n load')
    (h : Conserves host format partitionBy load rows) :
    Conserves host format partitionBy load' rows := by
  induction hbudget with
  | within hwithin => exact h
  | nothing hnothing => exact h
  | close entry hover hopen hlargest hclosed hrest ih =>
    exact ih (closePart_conserves hhost h hclosed)

/-! ## Joining a part -/

variable {table : String} {clock : Option String → Nat × Nat} {group : Option String × Batch S R}
  {batch : Batch S R} {part appended : OpenPart S R}

theorem start_ok (h : OpenPart.start host format batch = .ok part) :
    part = ⟨format, batch.schema, []⟩ := by
  cases format with
  | parquet =>
    obtain ⟨-, -, rfl⟩ := map_ok.1 h
    rfl
  | jsonl => exact (Except.ok.inj h).symm

theorem append_ok (h : part.append host batch = .ok appended) :
    appended = { part with appended := part.appended ++ [batch] } := by
  obtain ⟨-, -, rfl⟩ := map_ok.1 h
  rfl

theorem partOk_start (host : Host S R) (format : DestFormat) (partitionBy : Option String)
    (key : PartKey) (schema : S) :
    PartOk host format partitionBy key (⟨format, schema, []⟩ : OpenPart S R) :=
  ⟨rfl, fun _ h => absurd h List.not_mem_nil, fun _ _ h => absurd h List.not_mem_nil⟩

theorem closePart_find (h : load.closePart host key = .ok load') :
    find key load'.openParts = none := by
  obtain ⟨hsame, hnone⟩ | hremoved := Load.closePart_openParts h
  · rw [hsame, hnone]
  · rw [hremoved, find_remove_self]

theorem openFor_cases {now openedAt : Nat}
    (h : load.openFor host key batch now = .ok (part, openedAt)) :
    find key load.openParts = some (part, openedAt) ∨
      find key load.openParts = none ∧ part = ⟨load.format, batch.schema, []⟩ := by
  rw [Load.openFor] at h
  split at h
  · rename_i hfind
    obtain rfl := Except.ok.inj h
    exact .inl hfind
  · rename_i hnone
    obtain ⟨begun, hbegun, heq⟩ := map_ok.1 h
    obtain ⟨rfl, -⟩ := Prod.mk.inj heq
    exact .inr ⟨hnone, start_ok hbegun⟩

variable [DecidableEq S]

theorem partOk_append (hpart : PartOk host format partitionBy key part)
    (hsame : part.schemaDiffers batch = false)
    (hrows : ∀ row ∈ batch.rows, partitionOf host partitionBy batch.schema row = .ok key.partition) :
    PartOk host format partitionBy key { part with appended := part.appended ++ [batch] } where
  formatted := hpart.formatted
  sorted other hother := by
    obtain hold | hnew := List.mem_append.1 hother
    · exact hpart.sorted other hold
    · obtain rfl := List.mem_singleton.1 hnew
      exact hrows
  uniform hparquet other hother := by
    obtain hold | hnew := List.mem_append.1 hother
    · exact hpart.uniform hparquet other hold
    · obtain rfl := List.mem_singleton.1 hnew
      rw [OpenPart.schemaDiffers, hpart.formatted, hparquet] at hsame
      exact (not_not.1 (of_decide_eq_false hsame)).symm

/-- What is open behind a change of schema agrees with the batch. -/
theorem closeOnSchemaChange_cases {ready : Load S R}
    (h : load.closeOnSchemaChange host key batch = .ok ready) :
    (ready = load ∨ load.closePart host key = .ok ready) ∧
      ∀ entry ∈ find key ready.openParts, entry.1.schemaDiffers batch = false := by
  rw [Load.closeOnSchemaChange] at h
  split at h
  · refine ⟨.inr h, fun entry hentry => ?_⟩
    rw [closePart_find h] at hentry
    cases hentry
  · rename_i hsame
    obtain rfl := Except.ok.inj h
    refine ⟨.inl rfl, fun entry hentry => ?_⟩
    rw [Bool.not_eq_true, Option.any_eq_false] at hsame
    exact hsame entry hentry

/-- The part that a group has joined. -/
theorem join_conserves (h : Conserves host format partitionBy load rows)
    (hgroup : GroupOk host partitionBy table group) {openedAt : Nat}
    (hagree : ∀ entry ∈ find ⟨table, group.1⟩ load.openParts,
      entry.1.schemaDiffers group.2 = false)
    (hpart : find ⟨table, group.1⟩ load.openParts = some (part, openedAt) ∨
      find ⟨table, group.1⟩ load.openParts = none ∧
        part = ⟨load.format, group.2.schema, []⟩) :
    Conserves host format partitionBy
      (load.join ⟨table, group.1⟩ { part with appended := part.appended ++ [group.2] } openedAt)
      (fun key => rows key ++ groupAdds table group key) where
  formatted := h.formatted
  partitioned := h.partitioned
  conserved key := by
    have hopen : (load.join ⟨table, group.1⟩
        { part with appended := part.appended ++ [group.2] } openedAt).openRows key =
        load.openRows key ++ groupAdds table group key := by
      rw [Load.join, Load.openRows, groupAdds]
      by_cases hkey : (⟨table, group.1⟩ : PartKey) = key
      · subst hkey
        have hrows : load.openRows ⟨table, group.1⟩ = part.rows := by
          obtain hfind | ⟨hnone, rfl⟩ := hpart
          · exact Load.openRows_of_find hfind
          · exact Load.openRows_of_none hnone
        rw [if_pos rfl, hrows]
        simp only [find_place_self, Option.map_some, Option.getD_some]
        exact List.flatMap_append.trans (congrArg _ (List.flatMap_singleton _ _))
      · rw [if_neg hkey, List.append_nil, Load.openRows]
        simp only [find_place_ne (Ne.symm hkey), find_remove_ne (Ne.symm hkey)]
    rw [hopen, ← List.append_assoc]
    exact congrArg (· ++ _) (h.conserved key)
  openOk key entry hfind := by
    rw [Load.join] at hfind
    by_cases hkey : key = ⟨table, group.1⟩
    · subst hkey
      simp only [find_place_self, Option.some.injEq] at hfind
      subst hfind
      refine ⟨hgroup.placed, ?_⟩
      obtain hopen | ⟨hnone, rfl⟩ := hpart
      · exact partOk_append (h.openOk _ _ hopen).2 (hagree _ hopen) hgroup.sorted
      · refine partOk_append ?_ ?_ hgroup.sorted
        · rw [h.formatted]
          exact partOk_start host format partitionBy _ _
        · rw [OpenPart.schemaDiffers]
          split
          · exact decide_eq_false (not_not.2 rfl)
          · rfl
    · simp only [find_place_ne hkey, find_remove_ne hkey] at hfind
      exact h.openOk key entry hfind
  stagedOk := h.stagedOk
  numbered := h.numbered
  named := h.named

theorem writeGroup_conserves (hhost : host.KeepsRows)
    (h : Conserves host format partitionBy load rows)
    (hgroup : GroupOk host partitionBy table group)
    (hwrite : load.writeGroup host table clock group = .ok load') :
    Conserves host format partitionBy load' fun key => rows key ++ groupAdds table group key := by
  rw [Load.writeGroup] at hwrite
  obtain ⟨ready, hready, hwrite⟩ := bind_ok.1 hwrite
  obtain ⟨⟨part, openedAt⟩, hpart, hwrite⟩ := bind_ok.1 hwrite
  obtain ⟨appended, happended, hwrite⟩ := bind_ok.1 hwrite
  obtain ⟨hclosed, hagree⟩ := closeOnSchemaChange_cases hready
  have hbefore : Conserves host format partitionBy ready rows := by
    obtain rfl | hclosed := hclosed
    · exact h
    · exact closePart_conserves hhost h hclosed
  have hjoined := join_conserves hbefore hgroup hagree (openFor_cases hpart)
  rw [← append_ok happended] at hjoined
  dsimp only at hwrite
  split at hwrite
  · exact closePart_conserves hhost hjoined hwrite
  · obtain rfl := Except.ok.inj hwrite
    exact hjoined

/-! ## Sessions -/

variable {groups : List (Option String × Batch S R)} {event : Event S R} {events : List (Event S R)}

theorem writeGroups_conserves (hhost : host.KeepsRows)
    (h : Conserves host format partitionBy load rows)
    (hgroups : ∀ group ∈ groups, GroupOk host partitionBy table group)
    (hwrite : groups.foldlM (Load.writeGroup host table clock) load = .ok load') :
    Conserves host format partitionBy load'
      fun key => rows key ++ groups.flatMap fun group => groupAdds table group key := by
  refine foldlM_ok (P := fun passed load => Conserves host format partitionBy load
    fun key => rows key ++ passed.flatMap fun group => groupAdds table group key) ?_ ?_ hwrite
  · simpa using h
  · intro passed group hgroup now next hnow hnext
    have hjoined := writeGroup_conserves hhost hnow (hgroups group hgroup) hnext
    simpa [List.flatMap_append, List.append_assoc] using hjoined

theorem write_conserves (hhost : host.KeepsRows)
    (h : Conserves host format partitionBy load rows)
    (hwrite : load.write host table batch clock = .ok load') :
    Conserves host format partitionBy load'
      (writtenBy host partitionBy rows (.write table batch clock)) := by
  rw [Load.write] at hwrite
  obtain ⟨groups, hsplit, hwrite⟩ := bind_ok.1 hwrite
  obtain ⟨joined, hjoined, hbudget⟩ := bind_ok.1 hwrite
  rw [h.partitioned] at hsplit
  have hgroups := writeGroups_conserves hhost h (fun _ => splitPartitions_groupOk hsplit) hjoined
  simp only [splitPartitions_adds hsplit] at hgroups
  obtain ⟨n, -, hbudgeted⟩ := enforceOpenBudget_budgeted hbudget
  exact budgeted_conserves hhost hbudgeted hgroups

/-- A session that holds nothing. -/
def Load.Fresh (load : Load S R) : Prop := load.staged = [] ∧ load.openParts = []

omit [DecidableEq S] in
theorem fresh_conserves (host : Host S R) (hfresh : load.Fresh) :
    Conserves host load.format load.partitionBy load fun _ => [] where
  formatted := rfl
  partitioned := rfl
  conserved key := by simp [Load.stagedRows, Load.stagedOf, Load.openRows, hfresh.1, hfresh.2, find]
  openOk key entry h := by
    rw [hfresh.2] at h
    cases h
  stagedOk staged h := by
    rw [hfresh.1] at h
    cases h
  numbered key := by simp [Load.stagedOf, hfresh.1]
  named staged h := by
    rw [hfresh.1] at h
    cases h

theorem step_conserves (hhost : host.KeepsRows)
    (h : Conserves host format partitionBy load rows)
    (hstep : load.step host event = .ok load') :
    Conserves host format partitionBy load' (writtenBy host partitionBy rows event) := by
  cases event with
  | write table batch clock => exact write_conserves hhost h hstep
  | publish =>
    obtain ⟨closed, hclosed, hdone⟩ := bind_ok.1 hstep
    obtain rfl := Except.ok.inj hdone
    have hkept := closeAllParts_conserves hhost h hclosed
    have hopen := closeAllParts_openParts hclosed
    have hfresh : Load.Fresh ({ closed with staged := [] } : Load S R) := ⟨rfl, hopen⟩
    rw [← hkept.formatted, ← hkept.partitioned]
    exact fresh_conserves host hfresh
  | replay =>
    obtain rfl := Except.ok.inj hstep
    have hfresh : Load.Fresh ({ load with staged := [], openParts := [] } : Load S R) := ⟨rfl, rfl⟩
    rw [← h.formatted, ← h.partitioned]
    exact fresh_conserves host hfresh

theorem run_conserves (hhost : host.KeepsRows) (hfresh : load.Fresh)
    (hrun : load.run host events = .ok load') :
    Conserves host load.format load.partitionBy load'
      (written host load.partitionBy events) := by
  refine foldlM_ok (P := fun passed now => Conserves host load.format load.partitionBy now
    (written host load.partitionBy passed)) (fresh_conserves host hfresh) ?_ hrun
  intro passed event _ now next hnow hnext
  rw [written, List.foldl_append]
  exact step_conserves hhost hnow hnext

/-! ## Names -/

omit [DecidableEq S] in
/-- Parts of one key are told apart by their index. -/
theorem nodup_of_indices {staged : List (StagedPart S R)}
    (h : ∀ key, ((staged.filter fun part => part.key = key).map StagedPart.index).Nodup) :
    (staged.map fun part => (part.key, part.index)).Nodup := by
  induction staged with
  | nil => exact List.nodup_nil
  | cons first rest ih =>
    rw [List.map_cons, List.nodup_cons]
    constructor
    · intro hmem
      obtain ⟨other, hother, heq⟩ := List.mem_map.1 hmem
      obtain ⟨hkey, hindex⟩ := Prod.mk.inj heq
      have hfirst := h first.key
      rw [List.filter_cons_of_pos (by simp), List.map_cons, List.nodup_cons] at hfirst
      refine hfirst.1 (hindex ▸ List.mem_map_of_mem ?_)
      exact List.mem_filter.2 ⟨hother, decide_eq_true hkey⟩
    · refine ih fun key => ((h key).sublist ?_)
      exact ((List.sublist_cons_self first rest).filter _).map _

omit [DecidableEq S] in
/-- No staged file is written twice. -/
theorem tails_nodup (h : Conserves host format partitionBy load rows) :
    (load.staged.map StagedPart.stagingTail).Nodup := by
  have hindices : (load.staged.map fun part => (part.key, part.index)).Nodup := by
    refine nodup_of_indices fun key => ?_
    have hnumbered := h.numbered key
    rw [Load.stagedOf] at hnumbered
    rw [hnumbered]
    exact List.nodup_range
  have htails : load.staged.map StagedPart.stagingTail =
      (load.staged.map fun part => (part.key, part.index)).map fun named =>
        stagingTail load.scope load.loadId
          (stagedName named.1.table named.1.partition named.2 format.extension) := by
    rw [List.map_map]
    exact List.map_congr_left fun part hpart => h.named part hpart
  rw [htails]
  refine hindices.map_on ?_
  intro x hx y hy heq
  obtain ⟨part, hpart, rfl⟩ := List.mem_map.1 hx
  obtain ⟨other, hother, rfl⟩ := List.mem_map.1 hy
  have hkey := (h.stagedOk part hpart).1
  have hkey' := (h.stagedOk other hother).1
  obtain ⟨htable, hpartition, hindex, -⟩ := FileLoad.stagedName_inj
    (hkey.partitioned.trans hkey'.partitioned.symm) hkey.segment hkey'.segment
    (FileLoad.stagingTail_inj heq)
  exact Prod.ext (PartKey.ext htable hpartition) hindex

/-! ## Conservation -/

/-- An encoder of numbered rows, one byte a row. -/
def sampleHost : Host Nat Nat where
  hasColumn _ _ := true
  columnsText _ := ""
  formatter _ _ := .ok ()
  render _ _ row := .ok (if row % 2 = 0 then some "even" else none)
  newWriter _ := .ok ()
  encode _ _ := .ok ()
  encodedLen part := part.rows.length
  finish part := .ok (part.rows.map UInt8.ofNat)
  stagePut _ _ := .ok ()

def sampleLoad (format : DestFormat) (partitionBy : Option String) : Load Nat Nat :=
  ⟨format, partitionBy, "s", "l", ⟨some 3, none, some 4⟩, [], []⟩

theorem sampleHost_keepsRows : sampleHost.KeepsRows := by
  intro part bytes hfinish hempty
  obtain rfl := Except.ok.inj hfinish
  exact List.map_eq_nil_iff.1 hempty

/-- A jsonl part takes batches of two schemas. -/
theorem jsonl_part_mixes_schemas :
    (((sampleLoad .jsonl none).run sampleHost
      [.write "t" ⟨1, [1]⟩ fun _ => (0, 0), .write "t" ⟨2, [2, 3]⟩ fun _ => (0, 0)]).toOption.map
        fun load => load.staged.map fun staged => staged.part.appended) =
      some [[⟨1, [1]⟩, ⟨2, [2, 3]⟩]] := by
  decide +kernel

/-- In any session that has not failed, the staged parts of a key and then its open part hold
what was written under it. A part is of one partition, and of one schema in parquet; the staged
ones of a key are numbered without a gap, and no staged name is taken twice. The loop of the
budget ends, and a largest part is closed each time. -/
theorem write_path_conserves (hhost : host.KeepsRows) (hfresh : load.Fresh)
    (hrun : load.run host events = .ok load') :
    (∀ key, load'.stagedRows key ++ load'.openRows key =
      written host load.partitionBy events key) ∧
    (∀ key entry, find key load'.openParts = some entry →
      PartOk host load.format load.partitionBy key entry.1) ∧
    (∀ staged ∈ load'.staged,
      PartOk host load.format load.partitionBy staged.key staged.part) ∧
    (∀ key, (load'.stagedOf key).map StagedPart.index =
      List.range (load'.stagedOf key).length) ∧
    (load'.staged.map StagedPart.stagingTail).Nodup ∧
    (∀ now : Load S R, (∃ e, now.enforceOpenBudget host = .error e) ∨
      ∃ n ≤ now.openParts.length, ∃ result,
        now.enforceOpenBudget host = .ok result ∧ Load.Budgeted host now n result) := by
  have h := run_conserves hhost hfresh hrun
  refine ⟨h.conserved, fun key entry hentry => (h.openOk key entry hentry).2,
    fun staged hstaged => (h.stagedOk staged hstaged).2, h.numbered, tails_nodup h, ?_⟩
  intro now
  cases hbudget : now.enforceOpenBudget host with
  | error e => exact .inl ⟨e, rfl⟩
  | ok result =>
    obtain ⟨n, hn, hbudgeted⟩ := enforceOpenBudget_budgeted hbudget
    exact .inr ⟨n, hn, result, rfl, hbudgeted⟩

/-- Two partitions, a change of schema and a part that is large enough. -/
def sampleEvents : List (Event Nat Nat) :=
  [.write "t" ⟨1, [2, 3, 4]⟩ fun _ => (0, 0), .write "t" ⟨2, [6, 5, 8, 10]⟩ fun _ => (0, 0)]

theorem write_path_conserves_sample :
    ∃ load, (sampleLoad .parquet (some "parity")).run sampleHost sampleEvents = .ok load ∧
      ∀ key, load.stagedRows key ++ load.openRows key =
        written sampleHost (some "parity") sampleEvents key := by
  have hok : ((sampleLoad .parquet (some "parity")).run sampleHost sampleEvents).isOk = true := by
    decide +kernel
  cases hrun : (sampleLoad .parquet (some "parity")).run sampleHost sampleEvents with
  | error e =>
    rw [hrun] at hok
    cases hok
  | ok load => exact ⟨load, rfl, (write_path_conserves sampleHost_keepsRows ⟨rfl, rfl⟩ hrun).1⟩

end FileWrite
