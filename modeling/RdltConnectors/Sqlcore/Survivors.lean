import Mathlib.Data.List.Nodup
import Mathlib.Order.Basic
import RdltConnectors.Sqlcore.Arms

/-!
# Survivors

Of the staged rows of one identity the arms keep one: the first by the declared
order, and among equals the latest to arrive. The dialects select it by different
statements; what they select is the same.
-/
namespace Sqlcore

open Sql

variable {V : Type}

/-- The row is dropped by the plan's deletion flag. -/
def MergePlan.flags (plan : MergePlan V) (r : Row V) : Bool :=
  (plan.hardDelete.map fun hd => (hd.flagged r).holds).getD false

variable [LinearOrder V]


theorem cellBefore_irrefl (order : SortOrder) (a : Option V) : cellBefore order a a = false := by
  cases a with
  | none => rfl
  | some x => cases order <;> simp [cellBefore]

theorem cellBefore_trans {order : SortOrder} {a b c : Option V} (hab : cellBefore order a b = true)
    (hbc : cellBefore order b c = true) : cellBefore order a c = true := by
  cases a with
  | none => cases hab
  | some x =>
    cases c with
    | none => rfl
    | some z =>
      cases b with
      | none => cases hbc
      | some y =>
        cases order with
        | asc =>
          simp only [cellBefore, decide_eq_true_eq] at hab hbc ⊢
          exact lt_trans hab hbc
        | desc =>
          simp only [cellBefore, decide_eq_true_eq] at hab hbc ⊢
          exact lt_trans hbc hab

theorem cellBefore_total {order : SortOrder} {a b : Option V} (hne : a ≠ b) :
    cellBefore order a b = true ∨ cellBefore order b a = true := by
  cases a with
  | none =>
    cases b with
    | none => exact absurd rfl hne
    | some y => exact .inr rfl
  | some x =>
    cases b with
    | none => exact .inl rfl
    | some y =>
      have hxy : x ≠ y := fun h => hne (by rw [h])
      cases order with
      | asc => simpa [cellBefore] using lt_or_gt_of_ne hxy
      | desc => simpa [cellBefore] using lt_or_gt_of_ne hxy.symm

/-- Of two staged rows one arrived later, so one comes first. -/
theorem ranksBefore_ranks (sort : Option DedupSort) (stage : List (Row V)) :
    Ranks (ranksBefore sort) stage.zipIdx where
  irrefl a := by
    cases sort with
    | none => simp [ranksBefore]
    | some s => simp [ranksBefore, cellBefore_irrefl]
  trans a b c hab hbc := by
    cases sort with
    | none =>
      simp only [ranksBefore, decide_eq_true_eq] at hab hbc ⊢
      omega
    | some s =>
      simp only [ranksBefore, Bool.or_eq_true, Bool.and_eq_true, decide_eq_true_eq] at hab hbc ⊢
      rcases hab with hab | ⟨heq, hab⟩
      · rcases hbc with hbc | ⟨heq, -⟩
        · exact .inl (cellBefore_trans hab hbc)
        · exact .inl (heq ▸ hab)
      · rcases hbc with hbc | ⟨heq', hbc⟩
        · exact .inl (heq ▸ hbc)
        · exact .inr ⟨heq.trans heq', Nat.lt_trans hbc hab⟩
  total a ha b hb hne := by
    have hidx : a.2 ≠ b.2 := by
      intro h
      obtain ⟨-, -, ha⟩ := List.mem_zipIdx ha
      obtain ⟨-, -, hb⟩ := List.mem_zipIdx hb
      refine hne (Prod.ext ?_ h)
      rw [ha, hb]
      simp only [h]
    cases sort with
    | none => simpa [ranksBefore] using Nat.lt_or_gt_of_ne hidx.symm
    | some s =>
      simp only [ranksBefore, Bool.or_eq_true, Bool.and_eq_true, decide_eq_true_eq]
      by_cases heq : a.1 s.column = b.1 s.column
      · rcases Nat.lt_or_gt_of_ne hidx with hlt | hlt
        · exact .inr (.inr ⟨heq.symm, hlt⟩)
        · exact .inl (.inr ⟨heq, hlt⟩)
      · rcases cellBefore_total heq with h | h
        · exact .inl (.inl h)
        · exact .inr (.inl h)
  nodup := by
    refine List.Nodup.of_map Prod.snd ?_
    rw [List.zipIdx_map_snd]
    exact List.nodup_range'

/-- The row and its place in the stage, of each identity. -/
theorem dedupSubquery_survivors (dialect : Dialect) (identity : List String)
    (sort : Option DedupSort) (stage : List (Row V)) :
    ∃ out : List (Row V × Nat), dialect.dedupSubquery identity sort stage = out.map Prod.fst ∧
      Survivors (fun r : Row V × Nat => tuple identity r.1) (ranksBefore sort) stage.zipIdx out := by
  have h := ranksBefore_ranks sort stage
  cases dialect with
  | postgres => exact ⟨_, rfl, distinctOn_survivors h⟩
  | duckdb => exact ⟨_, rfl, distinctOn_survivors h⟩
  | snowflake => exact ⟨_, rfl, rowNumberOne_survivors h⟩

/-- A staged row that no other of its identity comes before. -/
def Survives (identity : List String) (sort : Option DedupSort) (stage : List (Row V))
    (r : Row V) : Prop :=
  ∃ i, (r, i) ∈ stage.zipIdx ∧ ∀ p ∈ stage.zipIdx,
    tuple identity p.1 = tuple identity r → ranksBefore sort p (r, i) = false

section

variable {dialect : Dialect} {identity : List String} {sort : Option DedupSort}
  {stage : List (Row V)}

theorem mem_dedup {r : Row V} :
    r ∈ dialect.dedupSubquery identity sort stage ↔ Survives identity sort stage r := by
  obtain ⟨out, hout, hs⟩ := dedupSubquery_survivors dialect identity sort stage
  rw [hout, List.mem_map]
  constructor
  · rintro ⟨⟨r, i⟩, hp, rfl⟩
    exact ⟨i, (hs.mem _).1 hp⟩
  · rintro ⟨i, h⟩
    exact ⟨(r, i), (hs.mem _).2 h, rfl⟩

omit [LinearOrder V] in
theorem mem_zipIdx_of_mem {r : Row V} (hr : r ∈ stage) : ∃ i, (r, i) ∈ stage.zipIdx := by
  obtain ⟨i, hi, rfl⟩ := List.mem_iff_getElem.1 hr
  exact ⟨i, List.mem_zipIdx_iff_getElem?.2 (List.getElem?_eq_getElem hi)⟩

/-- A survivor was staged. -/
theorem mem_stage_of_mem_dedup {r : Row V}
    (hr : r ∈ dialect.dedupSubquery identity sort stage) : r ∈ stage := by
  obtain ⟨i, hi, -⟩ := mem_dedup.1 hr
  exact List.fst_mem_of_mem_zipIdx hi

/-- Every staged identity has a survivor. -/
theorem exists_dedup {r : Row V} (hr : r ∈ stage) :
    ∃ s ∈ dialect.dedupSubquery identity sort stage, tuple identity s = tuple identity r := by
  obtain ⟨out, hout, hs⟩ := dedupSubquery_survivors dialect identity sort stage
  obtain ⟨i, hi⟩ := mem_zipIdx_of_mem hr
  obtain ⟨p, hp, hkey⟩ := hs.exists_key (ranksBefore_ranks sort stage) hi
  rw [hout]
  exact ⟨p.1, List.mem_map_of_mem hp, hkey⟩

theorem mem_dedup_keys {k : List (Option V)} :
    k ∈ (dialect.dedupSubquery identity sort stage).map (tuple identity) ↔
      k ∈ stage.map (tuple identity) := by
  constructor
  · intro hk
    obtain ⟨r, hr, rfl⟩ := List.mem_map.1 hk
    exact List.mem_map_of_mem (mem_stage_of_mem_dedup hr)
  · intro hk
    obtain ⟨r, hr, rfl⟩ := List.mem_map.1 hk
    exact List.mem_map.2 (exists_dedup hr)

/-- Only one. -/
theorem dedup_keys_nodup :
    ((dialect.dedupSubquery identity sort stage).map (tuple identity)).Nodup := by
  obtain ⟨out, hout, hs⟩ := dedupSubquery_survivors dialect identity sort stage
  rw [hout, List.map_map]
  exact hs.keys_nodup (ranksBefore_ranks sort stage)

/-- The dialects select the same rows. -/
theorem dedup_perm (dialect' : Dialect) :
    (dialect.dedupSubquery identity sort stage).Perm
      (dialect'.dedupSubquery identity sort stage) := by
  obtain ⟨out, hout, hs⟩ := dedupSubquery_survivors dialect identity sort stage
  obtain ⟨out', hout', hs'⟩ := dedupSubquery_survivors dialect' identity sort stage
  rw [hout, hout']
  exact (hs.perm hs').map Prod.fst

/-- Without a declared order the last of each identity survives. -/
theorem dedup_perm_lastOfEach :
    (dialect.dedupSubquery identity none stage).Perm (lastOfEach (tuple identity) [] stage) := by
  obtain ⟨out, hout, hs⟩ := dedupSubquery_survivors dialect identity none stage
  have hlast : Survivors (fun r : Row V × Nat => tuple identity r.1) (ranksBefore none)
      stage.zipIdx (stage.zipIdx.filter fun p => !stage.zipIdx.any fun q =>
        decide (tuple identity q.1 = tuple identity p.1) && decide (p.2 < q.2)) := by
    refine ⟨(ranksBefore_ranks none stage).nodup.filter _, fun r => ?_⟩
    rw [List.mem_filter, Bool.not_eq_true', List.any_eq_false]
    refine and_congr_right fun _ => forall₂_congr fun s _ => ?_
    rw [Bool.and_eq_true, not_and, decide_eq_true_iff, decide_eq_true_iff, ranksBefore,
      decide_eq_false_iff_not]
  rw [hout, ← lastOfEach_eq_filter (tuple identity) stage 0]
  exact (hs.perm hlast).map Prod.fst

end

end Sqlcore
