import RdltConnectors.Library.Digits
import RdltConnectors.Library.Optimistic

/-!
# Snapshots and their identity

A data commit appends one snapshot to a table's history and stamps the pipeline scope,
the load and the sequence into its summary. Whether a commit is done already is read off
the history: by the load and the sequence when a window converges, by all three keys when
the commit is planned. The library appends to the history it loads last, and reads
nothing off that one.
-/
namespace Iceberg

open Optimistic

variable {R : Type}

/-- A commit's summary and the data files it added. -/
structure Snapshot (R : Type) where
  summary : List (String × String)
  files : List (List R)
  deriving DecidableEq, Repr

/-- A table's snapshots, oldest first. -/
abbrev History (R : Type) := List (Snapshot R)

def propPipeline : String := "rdlt.pipeline"

def propLoadId : String := "rdlt.load-id"

def propCommitSeq : String := "rdlt.commit-seq"

/-- The one retry budget of every commit. -/
def commitAttempts : Nat := 4

/-- How often the table library retries a commit of its own accord. -/
def commitRetries : Nat := 4

structure Identity where
  scope : String
  loadId : String
  commitSeq : Nat
  deriving DecidableEq, Repr

def Identity.summaryProps (identity : Identity) : List (String × String) :=
  [(propPipeline, identity.scope), (propLoadId, identity.loadId),
    (propCommitSeq, toString identity.commitSeq)]

/-- The snapshot was made for the unit, under whatever scope. -/
def Snapshot.carries (snapshot : Snapshot R) (loadId : String) (commitSeq : Nat) : Bool :=
  snapshot.summary.lookup propLoadId == some loadId &&
    snapshot.summary.lookup propCommitSeq == some (toString commitSeq)

/-- Is this identity in the history? -/
def Identity.alreadyCommitted (identity : Identity) (history : History R) : Bool :=
  history.any fun snapshot =>
    snapshot.summary.lookup propPipeline == some identity.scope &&
      snapshot.summary.lookup propLoadId == some identity.loadId &&
        snapshot.summary.lookup propCommitSeq == some (toString identity.commitSeq)

/-- Is the unit in the history under any scope? -/
def loadCommitted (history : History R) (loadId : String) (commitSeq : Nat) : Bool :=
  history.any fun snapshot => snapshot.carries loadId commitSeq

/-- The snapshots made for the unit. -/
def unitSnapshots (history : History R) (loadId : String) (commitSeq : Nat) :
    List (Snapshot R) := history.filter fun snapshot => snapshot.carries loadId commitSeq

/-- The plan of a data commit: one snapshot with all the files, unless the identity is there. -/
def appendPlan (identity : Identity) (files : List (List R)) (history : History R) :
    Plan (Snapshot R) String :=
  if identity.alreadyCommitted history then .settled
  else .commit ⟨identity.summaryProps, files⟩

/-- A data commit under way. -/
abbrev Appending (R : Type) := Phase (History R) (Snapshot R) String

/-- A fast append goes onto any history. -/
def appendClient : Client (History R) (Snapshot R) String :=
  ⟨commitAttempts, commitRetries, fun snapshot history => .ok (history ++ [snapshot])⟩

/-! ## What a commit carries -/

theorem carries_summaryProps {identity : Identity} {files : List (List R)} {loadId : String}
    {commitSeq : Nat} :
    (⟨identity.summaryProps, files⟩ : Snapshot R).carries loadId commitSeq = true ↔
      identity.loadId = loadId ∧ identity.commitSeq = commitSeq := by
  have hlookup : identity.summaryProps.lookup propLoadId = some identity.loadId ∧
      identity.summaryProps.lookup propCommitSeq = some (toString identity.commitSeq) :=
    ⟨rfl, rfl⟩
  rw [Snapshot.carries, Bool.and_eq_true, hlookup.1, hlookup.2, beq_iff_eq, beq_iff_eq,
    Option.some.injEq, Option.some.injEq]
  exact and_congr_right fun _ => ⟨Digits.toString_injective, fun h => h ▸ rfl⟩

theorem loadCommitted_iff {history : History R} {loadId : String} {commitSeq : Nat} :
    loadCommitted history loadId commitSeq = true ↔
      ∃ snapshot ∈ history, snapshot.carries loadId commitSeq = true := List.any_eq_true

/-- A scope match implies a load match. -/
theorem alreadyCommitted_iff {identity : Identity} {history : History R} :
    identity.alreadyCommitted history = true ↔ ∃ snapshot ∈ history,
      snapshot.carries identity.loadId identity.commitSeq = true ∧
        snapshot.summary.lookup propPipeline = some identity.scope := by
  rw [Identity.alreadyCommitted, List.any_eq_true]
  apply exists_congr
  intro snapshot
  apply and_congr_right
  intro _
  rw [Snapshot.carries, Bool.and_assoc, Bool.and_eq_true, beq_iff_eq]
  exact and_comm

theorem unitSnapshots_append (history : History R) (snapshot : Snapshot R) (loadId : String)
    (commitSeq : Nat) :
    unitSnapshots (history ++ [snapshot]) loadId commitSeq = unitSnapshots history loadId commitSeq ++
      if snapshot.carries loadId commitSeq then [snapshot] else [] := by
  rw [unitSnapshots, List.filter_append, List.filter_cons, List.filter_nil]
  rfl

theorem unitSnapshots_eq_nil {history : History R} {loadId : String} {commitSeq : Nat} :
    unitSnapshots history loadId commitSeq = [] ↔
      loadCommitted history loadId commitSeq = false := by
  rw [unitSnapshots, List.filter_eq_nil_iff, loadCommitted, List.any_eq_false]

/-- A commit is planned on a history without the identity. -/
theorem appendPlan_commit {identity : Identity} {files : List (List R)} {history : History R}
    {snapshot : Snapshot R} (h : appendPlan identity files history = .commit snapshot) :
    identity.alreadyCommitted history = false ∧ snapshot = ⟨identity.summaryProps, files⟩ := by
  unfold appendPlan at h
  split at h
  · cases h
  · next hnot => exact ⟨Bool.eq_false_iff.2 hnot, (Plan.commit.inj h).symm⟩

theorem appendPlan_settled {identity : Identity} {files : List (List R)} {history : History R}
    (h : appendPlan identity files history = .settled) :
    loadCommitted history identity.loadId identity.commitSeq = true := by
  unfold appendPlan at h
  split at h
  · next hfound =>
    obtain ⟨snapshot, hmem, hcarries, -⟩ := alreadyCommitted_iff.1 hfound
    exact loadCommitted_iff.2 ⟨snapshot, hmem, hcarries⟩
  · cases h

end Iceberg
