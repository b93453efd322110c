import RdltConnectors.File.Owned
import RdltConnectors.File.WritePath

/-!
# A batch by its partitions

What the split hands on: each group is the rows of one directory in the order of the batch, and
the groups together are the batch.
-/
namespace FileWrite

open FileLease (DestinationError)
open FileLoad (partitionSlug OneSegment)
open Entries Fallible

variable {S R : Type}

section Partitions

variable (host : Host S R) (partitionBy : Option String)

/-- The partition of a row. -/
def partitionOf (schema : S) (row : R) : Except String (Option String) :=
  match partitionBy with
  | none => .ok none
  | some column => (host.render schema column row).map fun value => some (partitionSlug value)

def inPartition (schema : S) (partition : Option String) (row : R) : Bool :=
  match partitionOf host partitionBy schema row with
  | .ok found => decide (found = partition)
  | .error _ => false

/-- The rows of a batch that go to one partition. -/
def rowsFor (batch : Batch S R) (partition : Option String) : List R :=
  batch.rows.filter (inPartition host partitionBy batch.schema partition)

end Partitions

/-- The directory of a key, as the split names it. -/
structure KeyOk (partitionBy : Option String) (key : PartKey) : Prop where
  partitioned : key.partition.isSome = partitionBy.isSome
  segment : OneSegment key.partition

/-- The rows that a group adds to a key. -/
def groupAdds (table : String) (group : Option String × Batch S R) (key : PartKey) : List R :=
  if (⟨table, group.1⟩ : PartKey) = key then group.2.rows else []

/-- What the split promises of a group. -/
structure GroupOk (host : Host S R) (partitionBy : Option String) (table : String)
    (group : Option String × Batch S R) : Prop where
  placed : KeyOk partitionBy ⟨table, group.1⟩
  sorted : ∀ row ∈ group.2.rows, partitionOf host partitionBy group.2.schema row = .ok group.1

variable {host : Host S R} {partitionBy : Option String}

/-- A row counted into its group. -/
theorem slugAt_ok {column slug : String} {schema : S} {row : R} {index : Nat}
    (h : slugAt host column schema row index = .ok slug) :
    partitionOf host (some column) schema row = .ok (some slug) ∧ '/' ∉ slug.toList := by
  rw [slugAt] at h
  split at h
  · cases h
  · rename_i value hvalue
    split at h
    · obtain rfl := Except.ok.inj h
      exact ⟨map_ok.2 ⟨value, hvalue, rfl⟩, FileLoad.slash_not_mem_partitionSlug value⟩
    · cases h

theorem inPartition_of {schema : S} {row : R} {partition found : Option String}
    (h : partitionOf host partitionBy schema row = .ok found) :
    inPartition host partitionBy schema partition row = decide (found = partition) := by
  rw [inPartition, h]

/-- A group holds the rows of its directory, in order. -/
structure Grouped (host : Host S R) (column : String) (schema : S) (passed : List R)
    (groups : List (String × List R)) : Prop where
  ascending : Ascending groups
  filtered : ∀ slug, (find slug groups).getD [] =
    passed.filter (inPartition host (some column) schema (some slug))
  segment : ∀ group ∈ groups, '/' ∉ group.1.toList
  sorted : ∀ row ∈ passed, ∃ slug, partitionOf host (some column) schema row = .ok (some slug)

theorem groupRows_grouped {column : String} {schema : S} {indexed : List (R × Nat)}
    {passed : List R} {groups groups' : List (String × List R)}
    (h : Grouped host column schema passed groups)
    (hgroups : groupRows host column schema indexed groups = .ok groups') :
    Grouped host column schema (passed ++ indexed.map Prod.fst) groups' := by
  induction indexed generalizing passed groups with
  | nil =>
    obtain rfl := Except.ok.inj hgroups
    rwa [List.map_nil, List.append_nil]
  | cons first rest ih =>
    obtain ⟨row, index⟩ := first
    rw [groupRows] at hgroups
    obtain ⟨slug, hslug, hgroups⟩ := bind_ok.1 hgroups
    obtain ⟨hpartition, hsegment⟩ := slugAt_ok hslug
    rw [List.map_cons, List.append_cons]
    refine ih ?_ hgroups
    constructor
    · exact ascending_place _ _ h.ascending
    · intro other
      rw [List.filter_append, ← h.filtered other]
      by_cases hother : other = slug
      · subst hother
        rw [find_place_self, List.filter_cons_of_pos]
        · rfl
        · rw [inPartition_of hpartition]
          exact decide_eq_true rfl
      · rw [find_place_ne hother, List.filter_cons_of_neg]
        · rw [List.filter_nil, List.append_nil]
        · rw [inPartition_of hpartition, decide_eq_true_eq]
          exact fun heq => hother (Option.some.inj heq).symm
    · intro group hgroup
      obtain rfl | hold := mem_place hgroup
      · exact hsegment
      · exact h.segment group hold
    · intro other hother
      obtain hold | hnew := List.mem_append.1 hother
      · exact h.sorted other hold
      · obtain rfl := List.mem_singleton.1 hnew
        exact ⟨slug, hpartition⟩

theorem grouped_nil (host : Host S R) (column : String) (schema : S) :
    Grouped host column schema [] [] where
  ascending := List.Pairwise.nil
  filtered _ := rfl
  segment _ h := absurd h List.not_mem_nil
  sorted _ h := absurd h List.not_mem_nil

variable {table : String} {batch : Batch S R} {groups : List (Option String × Batch S R)}

/-- The groups of a partitioned batch. -/
theorem splitPartitions_some {column : String}
    (h : splitPartitions host table batch (some column) = .ok groups) :
    ∃ found, Grouped host column batch.schema batch.rows found ∧
      groups = found.map fun group => (some group.1, ⟨batch.schema, group.2⟩) := by
  rw [splitPartitions] at h
  split at h
  · split at h
    · cases h
    · obtain ⟨found, hfound, h⟩ := bind_ok.1 h
      obtain rfl := Except.ok.inj h
      have hgrouped := groupRows_grouped (grouped_nil host column batch.schema) hfound
      rw [List.nil_append, List.zipIdx_map_fst] at hgrouped
      exact ⟨found, hgrouped, rfl⟩
  · cases h

theorem splitPartitions_groupOk (h : splitPartitions host table batch partitionBy = .ok groups)
    {group : Option String × Batch S R} (hgroup : group ∈ groups) :
    GroupOk host partitionBy table group := by
  cases partitionBy with
  | none =>
    obtain rfl := Except.ok.inj h
    obtain rfl := List.mem_singleton.1 hgroup
    exact ⟨⟨rfl, fun _ hnone => by cases hnone⟩, fun _ _ => rfl⟩
  | some column =>
    obtain ⟨found, hfound, rfl⟩ := splitPartitions_some h
    obtain ⟨⟨slug, rows⟩, hmem, rfl⟩ := List.mem_map.1 hgroup
    refine ⟨⟨rfl, ?_⟩, fun row hrow => ?_⟩
    · intro other hother
      obtain rfl := Option.some.inj hother
      exact hfound.segment _ hmem
    · have hrows := hfound.filtered slug
      rw [find_of_mem hfound.ascending hmem, Option.getD_some] at hrows
      dsimp only at hrow hrows
      rw [hrows] at hrow
      obtain ⟨hbatch, hin⟩ := List.mem_filter.1 hrow
      obtain ⟨other, hother⟩ := hfound.sorted row hbatch
      rw [inPartition_of hother] at hin
      rw [hother, of_decide_eq_true hin]

/-- Together the groups are the batch. -/
theorem splitPartitions_adds (h : splitPartitions host table batch partitionBy = .ok groups)
    (key : PartKey) : groups.flatMap (fun group => groupAdds table group key) =
      if key.table = table then rowsFor host partitionBy batch key.partition else [] := by
  obtain ⟨name, partition⟩ := key
  cases partitionBy with
  | none =>
    obtain rfl := Except.ok.inj h
    rw [List.flatMap_singleton, groupAdds, rowsFor]
    by_cases hname : name = table
    · subst hname
      cases partition with
      | none =>
        rw [if_pos rfl, if_pos rfl]
        exact (List.filter_eq_self.2 fun row _ => by simp [inPartition, partitionOf]).symm
      | some slug =>
        rw [if_neg (by simp), if_pos rfl]
        exact (List.filter_eq_nil_iff.2 fun row _ => by simp [inPartition, partitionOf]).symm
    · simp [hname, Ne.symm hname]
  | some column =>
    obtain ⟨found, hfound, rfl⟩ := splitPartitions_some h
    rw [List.flatMap_map]
    by_cases hname : name = table
    · subst hname
      rw [if_pos rfl, rowsFor]
      cases partition with
      | none =>
        have hnone (row : R) (hrow : row ∈ batch.rows) :
            ¬ inPartition host (some column) batch.schema none row = true := by
          obtain ⟨slug, hslug⟩ := hfound.sorted row hrow
          simp [inPartition_of hslug]
        rw [List.filter_eq_nil_iff.2 hnone]
        simp [groupAdds]
      | some slug =>
        rw [← hfound.filtered slug]
        have hwalk := flatMap_of_ascending id slug hfound.ascending
        rw [Option.map_id_apply] at hwalk
        rw [← hwalk]
        simp [groupAdds]
    · simp [groupAdds, hname, Ne.symm hname]

end FileWrite
