import Mathlib
import RdltConnectors.Cdc.Mirror

/-!
# A snapshot and the changes it overlaps

A snapshot reads the table at a position past the one its stream starts from, so
the changes in between reach the destination twice, as rows of the snapshot and
as changes. A change sets its keys to what its record says, whatever they held
before, so once the changes have caught up with the snapshot nothing of the
overlap shows but the keys whose last record is wrong about them.
-/
namespace Cdc

open PgTypes Fallible

variable {p : Plan} {relation : Relation} {map : List Nat} {carried : Nat → Bool}

/-- Rows of a snapshot are upserts. -/
def snapshotRows (map : List Nat) (rows : List SourceRow) : List Row :=
  rows.map fun row => (rowCells map row, false)

/-- A row of a table is the one at its key. -/
theorem Keyed.rowAt_of_mem {T : SourceTable} (h : Keyed p map T) {row : SourceRow}
    (hmem : row ∈ T) : rowAt p map T (p.rowKey map row) = some row := by
  induction T with
  | nil => cases hmem
  | cons first T ih =>
    rw [Keyed, List.map_cons, List.nodup_cons] at h
    rw [rowAt_cons]
    rcases List.mem_cons.1 hmem with rfl | hmem
    · exact if_pos rfl
    · have hne : p.rowKey map first ≠ p.rowKey map row := fun heq =>
        h.1 (heq ▸ List.mem_map_of_mem hmem)
      rw [if_neg hne]
      exact ih h.2 hmem

/-- A snapshot, in whatever order it reads the rows, makes the table it was read
from. -/
theorem fold_snapshot {T : SourceTable} {rows : List SourceRow} (hkeyed : Keyed p map T)
    (hrows : rows.Perm T) :
    p.fold (fun _ => none) (snapshotRows map rows) = project p map T := by
  have hwritten : (snapshotRows map rows).map p.written =
      rows.map fun row => (p.rowKey map row, some (rowCells map row)) := by
    rw [snapshotRows, List.map_map]
    rfl
  funext key
  rw [fold_eq_writeAll, hwritten, Writes.writeAll_apply, project]
  cases hat : rowAt p map T key with
  | none =>
    have hnone : Writes.last key
        (rows.map fun row => (p.rowKey map row, some (rowCells map row))) = none := by
      refine Writes.last_eq_none_iff.2 ?_
      rintro entry hentry rfl
      obtain ⟨row, hrow, rfl⟩ := List.mem_map.1 hentry
      rw [hkeyed.rowAt_of_mem (hrows.subset hrow)] at hat
      cases hat
    rw [hnone]
    rfl
  | some row =>
    have hkey : p.rowKey map row = key := by simpa using List.find?_some hat
    have hmem : row ∈ rows := hrows.symm.subset (List.mem_of_find?_eq_some hat)
    rw [Writes.last_of_nodup ?_ (List.mem_map.2 ⟨row, hmem, by rw [hkey]⟩)]
    · rfl
    · rw [List.map_map]
      exact (hrows.map (p.rowKey map)).nodup_iff.2 hkeyed

theorem opsBetween_append {history : History} (hord : CommitOrdered history.log) {lo mid hi : Nat}
    (hlm : lo ≤ mid) (hmh : mid ≤ hi) :
    opsBetween history lo hi = opsBetween history lo mid ++ opsBetween history mid hi := by
  have hlong := opsUpTo_split hord (Nat.le_trans hlm hmh)
  rw [opsUpTo_split hord hmh, opsUpTo_split hord hlm, List.append_assoc] at hlong
  exact (List.append_cancel_left hlong).symm

/-- A snapshot and the changes from before it to past it make the table there
exactly if the last record of each key is right about it. -/
theorem snapshot_mirrors_iff (h : PlanMap p relation map) {T T' : SourceTable}
    {rows : List SourceRow} (hkeyed : Keyed p map T) (hrows : rows.Perm T) (ops : List Op) :
    p.fold (fun _ => none) (snapshotRows map rows ++ opRows p map carried ops)
        = project p map T' ↔
      ∀ key, ¬ Astray p map carried T ops T' key := by
  rw [fold_append, fold_snapshot hkeyed hrows]
  exact fold_project_iff h

/-- It is where they are plain: made once more they end as they did. -/
theorem snapshot_mirrors_plain (h : PlanMap p relation map) {history : History}
    (T : SourceTable) (hord : CommitOrdered history.log) {start view c : Nat}
    (hstart : start ≤ view) (hview : view ≤ c)
    (hplain : PlainOps p map carried (tableAt T history start) (opsBetween history start c)) :
    ∀ key, ¬ Astray p map carried (tableAt T history view) (opsBetween history start c)
      (tableAt T history c) key := by
  have hwhole := hplain.fold_project h
  rw [← tableAt_split T hord (Nat.le_trans hstart hview)] at hwhole
  rw [opsBetween_append hord hstart hview] at hplain
  have hbefore := (plainOps_append.1 hplain).1.fold_project h
  rw [← tableAt_split T hord hstart] at hbefore
  refine (fold_project_iff h).1 ?_
  rw [← hwhole, ← hbefore, opsBetween_append hord hstart hview, opRows_append]
  simp only [fold_eq_writeAll, List.map_append]
  exact Writes.writeAll_again _ _ _

end Cdc
