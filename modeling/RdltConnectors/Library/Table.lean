import Mathlib.Data.List.Dedup
import Mathlib.Data.List.Pairwise
import RdltConnectors.Library.Truth

/-!
# Statements over tables

A table is a list of rows in no order that counts. Here are the statements that
change one, the two ways to write an upsert, and the two ways to keep the first row
of each group, with what they have in common: both upserts leave the same rows, and
so do both selections.
-/
namespace Sql

variable {R K V : Type}

def deleteWhere (cond : R → Truth) (table : List R) : List R :=
  table.filter fun r => !(cond r).holds

def selectWhere (cond : R → Truth) (rows : List R) : List R :=
  rows.filter fun r => (cond r).holds

def updateWhere (cond : R → Truth) (set : R → R) (table : List R) : List R :=
  table.map fun r => if (cond r).holds then set r else r

theorem mem_deleteWhere {cond : R → Truth} {table : List R} {r : R} :
    r ∈ deleteWhere cond table ↔ r ∈ table ∧ (cond r).holds = false := by
  simp [deleteWhere]

theorem mem_selectWhere {cond : R → Truth} {rows : List R} {r : R} :
    r ∈ selectWhere cond rows ↔ r ∈ rows ∧ (cond r).holds = true := by
  simp [selectWhere]

/-! ## Upserts -/

section Upsert

variable [DecidableEq V] (key : R → List (Option V)) (set : R → R → R)

/-- The incoming row has the key of the row at hand. -/
def conflicts (row t : R) : Bool := (tupleEq (key row) (key t)).holds

def insertOrUpdate (table : List R) (row : R) : List R :=
  if table.any (conflicts key row) then
    table.map fun t => if conflicts key row t then set row t else t
  else table ++ [row]

/-- `INSERT … ON CONFLICT (key) DO UPDATE`, row by row. -/
def onConflict (rows table : List R) : List R := rows.foldl (insertOrUpdate key set) table

/-- `MERGE INTO … WHEN MATCHED THEN UPDATE WHEN NOT MATCHED THEN INSERT`, against
the table as it was. -/
def mergeInto (rows table : List R) : List R :=
  table.map (fun t =>
    match rows.find? fun row => conflicts key row t with
    | some row => set row t
    | none => t) ++
  rows.filter fun row => !table.any (conflicts key row)

/-- No two rows have the same complete key. -/
def Unique (table : List R) : Prop := table.Pairwise fun a b => conflicts key a b = false

variable {key set} {rows table : List R} {row t : R}

theorem conflicts_iff : conflicts key row t = true ↔ key row = key t ∧ Complete (key row) :=
  holds_tupleEq

theorem conflicts_comm : conflicts key row t = conflicts key t row := by
  rw [Bool.eq_iff_iff, conflicts_iff, conflicts_iff]
  constructor
  · rintro ⟨h, hc⟩
    exact ⟨h.symm, h ▸ hc⟩
  · rintro ⟨h, hc⟩
    exact ⟨h.symm, h ▸ hc⟩

/-- Rows with distinct keys: what conflicts with one conflicts with no other. -/
theorem conflicts_other {other : R} (hne : key row ≠ key other)
    (h : conflicts key row t = true) : conflicts key other t = false := by
  rw [Bool.eq_false_iff]
  intro h'
  exact hne ((conflicts_iff.1 h).1.trans (conflicts_iff.1 h').1.symm)

theorem conflicts_key {t' : R} (h : key t' = key t) (row : R) :
    conflicts key row t' = conflicts key row t := by
  rw [conflicts, conflicts, h]

/-- Incoming rows with distinct keys may be merged at once or inserted one by one. -/
theorem mergeInto_eq_onConflict (hrows : (rows.map key).Nodup)
    (hset : ∀ row ∈ rows, ∀ t, conflicts key row t = true → key (set row t) = key t) :
    mergeInto key set rows table = onConflict key set rows table := by
  induction rows generalizing table with
  | nil => simp [mergeInto, onConflict]
  | cons row rows ih =>
    obtain ⟨hnew, hrest⟩ := List.nodup_cons.1 hrows
    have hne : ∀ other ∈ rows, key row ≠ key other := fun other hmem heq =>
      hnew (heq ▸ List.mem_map_of_mem hmem)
    have hkeep : ∀ t, conflicts key row t = true → key (set row t) = key t :=
      hset row (by simp)
    have hfind {t : R} (h : conflicts key row t = true) :
        rows.find? (fun other => conflicts key other t) = none :=
      List.find?_eq_none.2 fun other hmem => by simp [conflicts_other (hne other hmem) h]
    rw [onConflict, List.foldl_cons, ← onConflict,
      ← ih hrest fun other hmem => hset other (by simp [hmem])]
    by_cases hany : table.any (conflicts key row) = true
    · have hsame (other : R) : (table.map fun t => if conflicts key row t then set row t else t).any
          (conflicts key other) = table.any (conflicts key other) := by
        rw [List.any_map]
        refine List.any_congr rfl fun t => ?_
        simp only [Function.comp]
        split
        · next h => exact conflicts_key (hkeep t h) other
        · rfl
      simp only [insertOrUpdate, hany, if_true, mergeInto, hsame, List.map_map, List.filter_cons,
        Bool.not_true, Bool.false_eq_true, if_false]
      congr 1
      refine List.map_congr_left fun t _ => ?_
      simp only [Function.comp, List.find?_cons]
      by_cases h : conflicts key row t = true
      · have hset' : conflicts key row (set row t) = true := by
          rw [conflicts_key (hkeep t h) row]
          exact h
        simp only [h, if_true, hfind hset']
      · simp only [h, Bool.false_eq_true, if_false]
    · have hnone : ∀ t ∈ table, conflicts key row t = false := by simpa using hany
      have hself : rows.find? (fun other => conflicts key other row) = none := by
        refine List.find?_eq_none.2 fun other hmem h => ?_
        exact hne other hmem (conflicts_iff.1 h).1.symm
      have hother : ∀ other ∈ rows, conflicts key other row = false := fun other hmem => by
        rw [Bool.eq_false_iff]
        exact fun h => hne other hmem (conflicts_iff.1 h).1.symm
      simp only [insertOrUpdate, hany, Bool.false_eq_true, if_false, mergeInto, List.map_append,
        List.map_cons, List.map_nil, hself, List.filter_cons, Bool.not_false, if_true,
        List.append_assoc, List.cons_append, List.nil_append]
      congr 1
      · refine List.map_congr_left fun t ht => ?_
        rw [List.find?_cons, hnone t ht]
      · congr 1
        refine List.filter_congr fun other hmem => ?_
        simp [hother other hmem]

/-- An incoming row that replaces what it meets stands in for the row of its key. -/
theorem insertOrUpdate_perm (hunique : Unique key table)
    (hset : ∀ t ∈ table, conflicts key row t = true → set row t = row) :
    (insertOrUpdate key set table row).Perm
      (table.filter (fun t => !conflicts key row t) ++ [row]) := by
  by_cases hany : table.any (conflicts key row) = true
  · rw [insertOrUpdate, if_pos hany]
    induction table with
    | nil => simp at hany
    | cons t table ih =>
      obtain ⟨hothers, hunique⟩ := List.pairwise_cons.1 hunique
      by_cases h : conflicts key row t = true
      · -- no second row has this key
        have hnone : ∀ other ∈ table, conflicts key row other = false := fun other hmem => by
          rw [Bool.eq_false_iff]
          intro hother
          have hsame : conflicts key t other = true := conflicts_iff.2
            ⟨(conflicts_iff.1 h).1.symm.trans (conflicts_iff.1 hother).1,
              (conflicts_iff.1 h).1 ▸ (conflicts_iff.1 h).2⟩
          rw [hothers other hmem] at hsame
          cases hsame
        have hmap : table.map (fun t => if conflicts key row t then set row t else t) = table := by
          rw [List.map_congr_left fun other hmem => by rw [hnone other hmem]]
          simp
        have hfilter : table.filter (fun t => !conflicts key row t) = table :=
          List.filter_eq_self.2 fun other hmem => by rw [hnone other hmem]; rfl
        rw [List.map_cons, if_pos h, hset t (by simp) h, hmap, List.filter_cons, h, hfilter]
        exact (List.perm_append_singleton row table).symm
      · have htail : table.any (conflicts key row) = true := by simpa [h] using hany
        rw [List.map_cons, if_neg h, List.filter_cons]
        simp only [h, Bool.not_false, if_true, List.cons_append]
        exact (ih hunique (fun t hmem => hset t (by simp [hmem])) htail).cons t
  · have hfilter : table.filter (fun t => !conflicts key row t) = table :=
      List.filter_eq_self.2 fun t hmem => by
        have hnone : ∀ t ∈ table, conflicts key row t = false := by simpa using hany
        rw [hnone t hmem]
        rfl
    rw [insertOrUpdate, if_neg hany, hfilter]

theorem insertOrUpdate_unique (hunique : Unique key table)
    (hset : ∀ t ∈ table, conflicts key row t = true → set row t = row) :
    Unique key (insertOrUpdate key set table row) := by
  refine (List.Perm.pairwise_iff ?_ (insertOrUpdate_perm hunique hset)).2 ?_
  · intro a b h
    rw [conflicts_comm]
    exact h
  · rw [List.pairwise_append]
    refine ⟨hunique.filter _, List.pairwise_singleton _ _, ?_⟩
    intro t ht other hother
    obtain rfl := List.mem_singleton.1 hother
    rw [conflicts_comm]
    simpa using (List.mem_filter.1 ht).2

/-- Incoming rows with distinct keys that replace what they meet: the table keeps
the rows of other keys and gets the incoming ones. -/
theorem onConflict_perm {P : R → Prop} (hunique : Unique key table) (htable : ∀ t ∈ table, P t)
    (hrows : ∀ row ∈ rows, P row) (hkeys : (rows.map key).Nodup)
    (hset : ∀ row ∈ rows, ∀ t, P t → conflicts key row t = true → set row t = row) :
    (onConflict key set rows table).Perm
      (table.filter (fun t => !rows.any fun row => conflicts key row t) ++ rows) := by
  induction rows generalizing table with
  | nil => simp [onConflict]
  | cons row rows ih =>
    obtain ⟨hnew, hrest⟩ := List.nodup_cons.1 hkeys
    have hset' : ∀ t ∈ table, conflicts key row t = true → set row t = row := fun t ht =>
      hset row (by simp) t (htable t ht)
    have hperm := insertOrUpdate_perm hunique hset'
    have htable' : ∀ t ∈ insertOrUpdate key set table row, P t := fun t ht => by
      rcases List.mem_append.1 (hperm.mem_iff.1 ht) with ht | ht
      · exact htable t (List.mem_filter.1 ht).1
      · rw [List.mem_singleton.1 ht]
        exact hrows row (by simp)
    have hself : (rows.any fun other => conflicts key other row) = false := by
      rw [List.any_eq_false]
      intro other hmem h
      exact hnew ((conflicts_iff.1 h).1 ▸ List.mem_map_of_mem hmem)
    rw [onConflict, List.foldl_cons, ← onConflict]
    refine (ih (insertOrUpdate_unique hunique hset') htable'
      (fun other hmem => hrows other (by simp [hmem])) hrest
      fun other hmem => hset other (by simp [hmem])).trans ?_
    refine ((hperm.filter _).append_right rows).trans ?_
    rw [List.filter_append, List.filter_singleton, hself, List.filter_filter, List.append_assoc]
    refine List.Perm.append_right _ (List.Perm.of_eq (List.filter_congr fun t _ => ?_))
    simp [Bool.and_comm]

end Upsert

/-! ## The first row of each group -/

section Group

variable [DecidableEq K]

/-- The row no other comes before. -/
def leading (before : R → R → Bool) : List R → Option R
  | [] => none
  | r :: rows =>
    match leading before rows with
    | none => some r
    | some s => if before s r then some s else some r

/-- `SELECT DISTINCT ON (key) … ORDER BY key, …`. -/
def distinctOn (key : R → K) (before : R → R → Bool) (rows : List R) : List R :=
  (rows.map key).dedup.filterMap fun k => leading before (rows.filter fun r => key r = k)

/-- `QUALIFY ROW_NUMBER() OVER (PARTITION BY key ORDER BY …) = 1`. -/
def rowNumberOne (key : R → K) (before : R → R → Bool) (rows : List R) : List R :=
  rows.filter fun r => (rows.filter fun s => key s = key r && before s r).length + 1 = 1

/-- An order in which any two rows of the list differ. -/
structure Ranks (before : R → R → Bool) (rows : List R) : Prop where
  irrefl : ∀ a, before a a = false
  trans : ∀ a b c, before a b = true → before b c = true → before a c = true
  total : ∀ a ∈ rows, ∀ b ∈ rows, a ≠ b → before a b = true ∨ before b a = true
  nodup : rows.Nodup

/-- The rows of the list that come first among those of their key. -/
structure Survivors (key : R → K) (before : R → R → Bool) (rows out : List R) : Prop where
  nodup : out.Nodup
  mem : ∀ r, r ∈ out ↔ r ∈ rows ∧ ∀ s ∈ rows, key s = key r → before s r = false

variable {key : R → K} {before : R → R → Bool} {rows out : List R}

theorem leading_spec (hirrefl : ∀ a, before a a = false)
    (htrans : ∀ a b c, before a b = true → before b c = true → before a c = true)
    (htotal : ∀ a ∈ rows, ∀ b ∈ rows, a ≠ b → before a b = true ∨ before b a = true)
    (hne : rows ≠ []) :
    ∃ r ∈ rows, leading before rows = some r ∧ ∀ s ∈ rows, before s r = false := by
  induction rows with
  | nil => exact absurd rfl hne
  | cons r rows ih =>
    by_cases hrest : rows = []
    · subst hrest
      exact ⟨r, by simp, rfl, by simpa using hirrefl r⟩
    · obtain ⟨s, hs, hlead, hfirst⟩ :=
        ih (fun a ha b hb => htotal a (by simp [ha]) b (by simp [hb])) hrest
      simp only [leading, hlead]
      by_cases hbefore : before s r = true
      · rw [if_pos hbefore]
        refine ⟨s, by simp [hs], rfl, ?_⟩
        rintro u hu
        rcases List.mem_cons.1 hu with rfl | hu
        · rw [Bool.eq_false_iff]
          intro h
          exact absurd (htrans _ _ _ h hbefore) (by simp [hirrefl])
        · exact hfirst u hu
      · rw [if_neg hbefore]
        refine ⟨r, by simp, rfl, ?_⟩
        rintro u hu
        rcases List.mem_cons.1 hu with rfl | hu
        · exact hirrefl u
        · rw [Bool.eq_false_iff]
          intro h
          by_cases hus : u = s
          · exact hbefore (hus ▸ h)
          · -- `s` comes before `u`, and so before `r`
            rcases htotal u (by simp [hu]) s (by simp [hs]) hus with hcase | hcase
            · simp [hfirst u hu] at hcase
            · exact hbefore (htrans _ _ _ hcase h)

theorem rowNumberOne_survivors (h : Ranks before rows) :
    Survivors key before rows (rowNumberOne key before rows) := by
  refine ⟨h.nodup.filter _, fun r => ?_⟩
  rw [rowNumberOne, List.mem_filter]
  refine and_congr_right fun _ => ?_
  rw [decide_eq_true_eq, Nat.add_eq_right, List.length_eq_zero_iff, List.filter_eq_nil_iff]
  refine forall₂_congr fun s _ => ?_
  by_cases hkey : key s = key r <;> simp [hkey]

theorem distinctOn_survivors (h : Ranks before rows) :
    Survivors key before rows (distinctOn key before rows) := by
  have hgroup (k : K) (hk : k ∈ rows.map key) :
      ∃ r ∈ rows.filter (fun r => key r = k),
        leading before (rows.filter fun r => key r = k) = some r ∧
          ∀ s ∈ rows.filter (fun r => key r = k), before s r = false := by
    refine leading_spec h.irrefl h.trans (fun a ha b hb =>
      h.total a (List.mem_filter.1 ha).1 b (List.mem_filter.1 hb).1) fun hnil => ?_
    obtain ⟨r, hr, rfl⟩ := List.mem_map.1 hk
    have hmem : r ∈ rows.filter fun r' => key r' = key r := List.mem_filter.2 ⟨hr, by simp⟩
    rw [hnil] at hmem
    cases hmem
  refine ⟨?_, fun r => ?_⟩
  · refine (List.nodup_dedup _).filterMap fun k k' r hk hk' => ?_
    -- a row leads the group of its own key only
    have hkey {k : K} (hk : r ∈ leading before (rows.filter fun r => key r = k)) : key r = k := by
      by_cases hmem : k ∈ rows.map key
      · obtain ⟨s, hs, hlead, -⟩ := hgroup k hmem
        rw [hlead] at hk
        cases hk
        simpa using (List.mem_filter.1 hs).2
      · have hnil : rows.filter (fun r => key r = k) = [] :=
          List.filter_eq_nil_iff.2 fun s hs hsame => hmem (List.mem_map.2 ⟨s, hs, by simpa using hsame⟩)
        rw [hnil] at hk
        cases hk
    exact (hkey hk).symm.trans (hkey hk')
  · rw [distinctOn, List.mem_filterMap]
    constructor
    · rintro ⟨k, hk, hlead⟩
      obtain ⟨s, hs, hlead', hfirst⟩ := hgroup k (List.mem_dedup.1 hk)
      obtain rfl : s = r := by simpa [hlead'] using hlead
      obtain ⟨hmem, hkey⟩ := List.mem_filter.1 hs
      refine ⟨hmem, fun u hu hsame => hfirst u (List.mem_filter.2 ⟨hu, ?_⟩)⟩
      rw [hsame]
      exact hkey
    · rintro ⟨hr, hfirst⟩
      refine ⟨key r, List.mem_dedup.2 (List.mem_map_of_mem hr), ?_⟩
      obtain ⟨s, hs, hlead, hbest⟩ := hgroup (key r) (List.mem_map_of_mem hr)
      obtain ⟨hmem, hkey⟩ := List.mem_filter.1 hs
      rw [hlead]
      by_contra hne
      rcases h.total s hmem r hr (by simpa using hne) with hcase | hcase
      · rw [hfirst s hmem (by simpa using hkey)] at hcase
        cases hcase
      · rw [hbest r (List.mem_filter.2 ⟨hr, by simp⟩)] at hcase
        cases hcase

omit [DecidableEq K] in
/-- One row of a group survives. -/
theorem Survivors.inj (hs : Survivors key before rows out) (h : Ranks before rows) :
    ∀ a ∈ out, ∀ b ∈ out, key a = key b → a = b := by
  intro a ha b hb hkey
  obtain ⟨ha, hafirst⟩ := (hs.mem a).1 ha
  obtain ⟨hb, hbfirst⟩ := (hs.mem b).1 hb
  by_contra hne
  rcases h.total a ha b hb hne with hcase | hcase
  · simp [hbfirst a ha hkey] at hcase
  · simp [hafirst b hb hkey.symm] at hcase

omit [DecidableEq K] in
theorem Survivors.keys_nodup (hs : Survivors key before rows out) (h : Ranks before rows) :
    (out.map key).Nodup :=
  List.Nodup.map_on (fun a ha b hb hkey => hs.inj h a ha b hb hkey) hs.nodup

/-- Every group has a survivor. -/
theorem Survivors.exists_key (hs : Survivors key before rows out) (h : Ranks before rows) {r : R}
    (hr : r ∈ rows) : ∃ s ∈ out, key s = key r := by
  have hne : (rows.filter fun s => key s = key r) ≠ [] :=
    List.ne_nil_of_mem (List.mem_filter.2 ⟨hr, by simp⟩)
  obtain ⟨s, hs', -, hfirst⟩ := leading_spec h.irrefl h.trans
    (fun a ha b hb => h.total a (List.mem_filter.1 ha).1 b (List.mem_filter.1 hb).1) hne
  obtain ⟨hmem, hkey⟩ := List.mem_filter.1 hs'
  have hkey : key s = key r := by simpa using hkey
  refine ⟨s, (hs.mem s).2 ⟨hmem, fun u hu hsame => hfirst u (List.mem_filter.2 ⟨hu, ?_⟩)⟩, hkey⟩
  simpa using hsame.trans hkey

omit [DecidableEq K] in
/-- Whichever way they are selected, the survivors are the same. -/
theorem Survivors.perm {out' : List R} (hs : Survivors key before rows out)
    (hs' : Survivors key before rows out') : out.Perm out' :=
  (List.perm_ext_iff_of_nodup hs.nodup hs'.nodup).2 fun r => (hs.mem r).trans (hs'.mem r).symm

/-! ## The last row of each group -/

/-- The rows that none of their key follows, in the list or in what comes after it. -/
def lastOfEach (key : R → K) (later : List R) : List R → List R
  | [] => []
  | r :: rows =>
    if (rows ++ later).any fun s => decide (key s = key r) then lastOfEach key later rows
    else r :: lastOfEach key later rows

theorem lastOfEach_append (key : R → K) (later rows rows' : List R) :
    lastOfEach key later (rows ++ rows') =
      lastOfEach key (rows' ++ later) rows ++ lastOfEach key later rows' := by
  induction rows with
  | nil => rfl
  | cons r rows ih =>
    rw [List.cons_append, lastOfEach, lastOfEach, List.append_assoc, ih]
    split
    · rfl
    · rfl

theorem lastOfEach_sublist (key : R → K) (later rows : List R) :
    (lastOfEach key later rows).Sublist rows := by
  induction rows with
  | nil => exact List.Sublist.refl []
  | cons r rows ih =>
    rw [lastOfEach]
    split
    · exact ih.cons r
    · exact ih.cons_cons r

/-- A row is kept where none of its key follows. -/
theorem mem_lastOfEach {r : R} {later : List R} : r ∈ lastOfEach key later rows ↔
    ∃ rest, r :: rest <:+ rows ∧ ∀ s ∈ rest ++ later, key s ≠ key r := by
  induction rows with
  | nil => simp [lastOfEach]
  | cons r' rows ih =>
    have hsuffix (rest : List R) : r :: rest <:+ r' :: rows ↔
        (r = r' ∧ rest = rows) ∨ r :: rest <:+ rows := by
      rw [List.suffix_cons_iff, List.cons.injEq]
    have hhead : ((rows ++ later).any fun s => decide (key s = key r')) = true ↔
        ¬∀ s ∈ rows ++ later, key s ≠ key r' := by
      rw [List.any_eq_true]
      push Not
      exact exists_congr fun s => and_congr_right fun _ => decide_eq_true_iff
    rw [lastOfEach]
    by_cases hany : ((rows ++ later).any fun s => decide (key s = key r')) = true
    · rw [if_pos hany, ih]
      constructor
      · exact fun ⟨rest, hrest, hnone⟩ => ⟨rest, (hsuffix rest).2 (.inr hrest), hnone⟩
      · rintro ⟨rest, hrest, hnone⟩
        rcases (hsuffix rest).1 hrest with ⟨rfl, rfl⟩ | hrest
        · exact absurd hnone (hhead.1 hany)
        · exact ⟨rest, hrest, hnone⟩
    · rw [if_neg hany, List.mem_cons, ih]
      constructor
      · rintro (rfl | ⟨rest, hrest, hnone⟩)
        · exact ⟨rows, List.suffix_refl _, not_not.1 fun h => hany (hhead.2 h)⟩
        · exact ⟨rest, (hsuffix rest).2 (.inr hrest), hnone⟩
      · rintro ⟨rest, hrest, hnone⟩
        rcases (hsuffix rest).1 hrest with ⟨rfl, -⟩ | hrest
        · exact .inl rfl
        · exact .inr ⟨rest, hrest, hnone⟩

theorem lastOfEach_eq_self {later : List R} : lastOfEach key later rows = rows ↔
    ∀ r rest, r :: rest <:+ rows → ∀ s ∈ rest ++ later, key s ≠ key r := by
  induction rows with
  | nil => simp [lastOfEach]
  | cons r' rows ih =>
    rw [lastOfEach]
    constructor
    · intro heq r rest hsuffix
      split at heq
      · have hle := (lastOfEach_sublist key later rows).length_le
        rw [heq, List.length_cons] at hle
        omega
      · next hnone =>
        rcases List.suffix_cons_iff.1 hsuffix with hhead | hsuffix
        · obtain ⟨rfl, rfl⟩ := List.cons.inj hhead
          intro s hs hsame
          exact hnone (List.any_eq_true.2 ⟨s, hs, by simpa using hsame⟩)
        · exact ih.1 (List.cons.inj heq).2 r rest hsuffix
    · intro hall
      have hhead := hall r' rows (List.suffix_refl _)
      rw [if_neg, ih.2 fun r rest hsuffix => hall r rest (hsuffix.trans (List.suffix_cons r' rows))]
      rw [List.any_eq_true]
      rintro ⟨s, hs, hsame⟩
      exact hhead s hs (of_decide_eq_true hsame)

/-- In positions: the rows with no later one of their key. -/
theorem lastOfEach_eq_filter (key : R → K) (rows : List R) (n : Nat) :
    ((rows.zipIdx n).filter fun p =>
      !(rows.zipIdx n).any fun q => decide (key q.1 = key p.1) && decide (p.2 < q.2)).map Prod.fst =
      lastOfEach key [] rows := by
  induction rows generalizing n with
  | nil => rfl
  | cons r rows ih =>
    have hlater : ∀ q ∈ rows.zipIdx (n + 1), n < q.2 := fun q hq => by
      obtain ⟨h, -, -⟩ := List.mem_zipIdx hq
      omega
    have hrest : ((rows.zipIdx (n + 1)).filter fun p =>
        !((r, n) :: rows.zipIdx (n + 1)).any fun q =>
          decide (key q.1 = key p.1) && decide (p.2 < q.2)) =
        (rows.zipIdx (n + 1)).filter fun p =>
          !(rows.zipIdx (n + 1)).any fun q =>
            decide (key q.1 = key p.1) && decide (p.2 < q.2) := by
      refine List.filter_congr fun p hp => ?_
      have hearly : decide (p.2 < n) = false := decide_eq_false (by have := hlater p hp; omega)
      rw [List.any_cons]
      simp [hearly]
    have hhead : (((r, n) :: rows.zipIdx (n + 1)).any fun q =>
        decide (key q.1 = key r) && decide (n < q.2)) =
        (rows ++ []).any fun s => decide (key s = key r) := by
      rw [List.append_nil, List.any_cons, decide_eq_false (Nat.lt_irrefl n), Bool.and_false,
        Bool.false_or, Bool.eq_iff_iff, List.any_eq_true, List.any_eq_true]
      constructor
      · rintro ⟨q, hq, h⟩
        exact ⟨q.1, List.fst_mem_of_mem_zipIdx hq, (Bool.and_eq_true _ _ ▸ h).1⟩
      · rintro ⟨s, hs, h⟩
        obtain ⟨i, hi, rfl⟩ := List.mem_iff_getElem.1 hs
        refine ⟨(rows[i], n + 1 + i), ?_, ?_⟩
        · exact List.mk_add_mem_zipIdx_iff_getElem?.2 (List.getElem?_eq_getElem hi)
        · rw [h, Bool.true_and]
          exact decide_eq_true (by omega)
    rw [List.zipIdx_cons, List.filter_cons, hhead, hrest, lastOfEach]
    cases (rows ++ []).any fun s => decide (key s = key r) with
    | true => exact ih (n + 1)
    | false =>
      rw [Bool.not_false, if_pos rfl, List.map_cons, ih (n + 1)]
      rfl

end Group

end Sql
