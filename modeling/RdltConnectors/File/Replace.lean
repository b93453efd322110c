import Mathlib
import RdltConnectors.File.Converge

/-!
# A replaced table and the files of other loads

The truncation runs at the first commit of a load, over the tables that the committing
session has ensured as Replace. A table that joins the load later, or that only another
session had ensured, keeps the files earlier loads left in it. This file follows which
tables a load has ensured as Replace and which of them its commits have settled.
-/
namespace FileLoad

open FileLease (DestinationError Location)
open Sqlcore (WriteMode)
open Mortal

variable {R D : Type}

/-- The tables a load has ensured as Replace. -/
structure Watch where
  /-- since the last commit that got its receipt -/
  awaiting : List String
  /-- in a unit that has its receipt, or in an earlier one -/
  settled : List String

def Watch.observe (loadId : String) (w : World R D) (event : Event R D) (w' : World R D)
    (watch : Watch) : Watch :=
  match event, w.session with
  | .ensure table .replace, some _ => { watch with awaiting := watch.awaiting ++ [table] }
  | .commit metadata _, some _ =>
    if (loadId, metadata.commitSeq) ∈ w'.store.receipts then
      ⟨[], watch.settled ++ watch.awaiting⟩
    else watch
  | _, _ => watch

abbrev Watched (R D : Type) := (World R D × Account R) × Watch

def stepWatched (location : Location) (scope loadId : String) (x : Watched R D)
    (event : Event R D) : Watched R D :=
  let x' := stepAccount location scope loadId x.1 event
  (x', x.2.observe loadId x.1.1 event x'.1)

/-- Every file of the table that has the shape this destination writes is a part that a
manifest of the load named. -/
def HoldsOnlyOfLoad (a : Account R) (s : Store R D) (table : String) : Prop :=
  ∀ name ∈ s.files, ReplaceOwns false table name → name ∈ a.claimed

/-- A commit that gets its receipt finds every table the load has ensured as Replace since
the last such commit either within its own truncation, or without files of other loads. -/
def CommitsInTime (location : Location) (scope loadId : String) (x : Watched R D) (load : Load R)
    (metadata : CommitMeta D) (left : Option Nat) : Prop :=
  (loadId, metadata.commitSeq) ∈
      (step location scope x.1.1 (.commit metadata left)).store.receipts →
    ∀ table ∈ x.2.awaiting,
      FirstCommit x.1.1.store loadId ∧ table ∈ load.replaced ∨
      HoldsOnlyOfLoad x.1.2 x.1.1.store table

/-- The commits are the load's, and in time. -/
def InTime (location : Location) (scope loadId : String) (x : Watched R D) :
    Event R D → Prop
  | .commit metadata left => metadata.loadId = loadId ∧
      ∀ load ∈ x.1.1.session, CommitsInTime location scope loadId x load metadata left
  | _ => True

section Replace

variable {location : Location} {scope loadId : String} {s s' : Store R D} {a : Account R}
  {load : Load R} {metadata : CommitMeta D} {rows : PartKey → List R} {table name : String}
  {x : Watched R D} {event : Event R D}

theorem replaceOwns_of_owned {frozenPlainParquet : Bool} (h : ReplaceOwns false table name) :
    ReplaceOwns frozenPlainParquet table name := by
  obtain ⟨tail, htail, howned⟩ := h
  refine ⟨tail, htail, ?_⟩
  rw [ownedByReplace, Bool.false_and, Bool.or_false] at howned
  rw [ownedByReplace, howned, Bool.true_or]

theorem Recorded.files_sub {names : List String} (h : Recorded load metadata names s s')
    (hname : name ∈ s'.files) : name ∈ s'.claims metadata.loadId ∨
      name ∈ s.files ∧ ¬Doomed s load metadata name := by
  by_cases hmem : name ∈ names
  · rw [h.claims]
    exact .inl hmem
  · refine .inr ?_
    by_cases hdoomed : Doomed s load metadata name
    · exact absurd (AList.lookup_eq_none.1 (h.deleted name hmem hdoomed)) (not_not.2 hname)
    · rw [← AList.lookup_isSome, h.others name hmem hdoomed, AList.lookup_isSome] at hname
      exact ⟨hname, hdoomed⟩

theorem StagingOnly.files_eq (h : StagingOnly s s') : s'.files = s.files := by rw [h]

/-- Every file a commit leaves was there before or has a name of the manifest on record. -/
theorem Committed.files_sub (h : Committed load metadata rows s s') (hname : name ∈ s'.files) :
    name ∈ s'.claims metadata.loadId ∨ name ∈ s.files := by
  unfold Committed at h
  split at h
  · exact .inr (h.files_eq ▸ hname)
  · rcases h with (h | ⟨names, h, -⟩) | ⟨load', parts, h⟩
    · refine .inr ?_
      rw [← AList.lookup_isSome] at hname ⊢
      rcases h.files name with hsame | ⟨-, hnone⟩
      · exact hsame ▸ hname
      · rw [hnone] at hname
        cases hname
    · exact (h.files_sub hname).imp_right And.left
    · exact (h.recorded.files_sub hname).imp_right And.left

/-- The first commit that gets its receipt has truncated the tables of its session. -/
theorem Committed.truncated (h : Committed load metadata rows s s')
    (hfirst : FirstCommit s metadata.loadId)
    (hreceipt : (metadata.loadId, metadata.commitSeq) ∈ s'.receipts)
    (htable : table ∈ load.replaced) (hname : name ∈ s'.files)
    (howned : ReplaceOwns false table name) : name ∈ s'.claims metadata.loadId := by
  have hnew : (metadata.loadId, metadata.commitSeq) ∉ s.receipts := fun h => hfirst _ h rfl
  rw [Committed, if_neg hnew] at h
  have hsame {s'' : Store R D} (hcommits : s''.commits = s.commits) :
      s''.receipts = s.receipts := by rw [Store.receipts, hcommits]; rfl
  rcases h with (h | ⟨names, h, hcommits⟩) | ⟨load', parts, h⟩
  · exact absurd (hsame h.commits ▸ hreceipt) hnew
  · exact absurd (hsame hcommits ▸ hreceipt) hnew
  · refine (h.recorded.files_sub hname).resolve_right fun h' => h'.2 (.inr ?_)
    exact ⟨hfirst, table, htable, replaceOwns_of_owned howned⟩

/-- Sessions hold their rows, and settled tables hold only files of the load. -/
structure Settled (x : Watched R D) : Prop where
  session : x.1.1.Holding x.1.2.rows
  only : ∀ table ∈ x.2.settled, HoldsOnlyOfLoad x.1.2 x.1.1.store table

theorem HoldsOnlyOfLoad.files {a' : Account R} (h : HoldsOnlyOfLoad a s table)
    (hfiles : ∀ name ∈ s'.files, name ∈ a'.claimed ∨ name ∈ s.files)
    (hclaimed : ∀ name ∈ a.claimed, name ∈ a'.claimed) : HoldsOnlyOfLoad a' s' table :=
  fun name hname howned =>
    (hfiles name hname).elim id fun hold => hclaimed name (h name hold howned)

theorem settled_committed {watch : Watch} (hs : Holds load a.rows s)
    (honly : ∀ table ∈ watch.settled, HoldsOnlyOfLoad a s table) (left : Option Nat)
    (hok : InTime location scope metadata.loadId ((⟨s, some load⟩, a), watch)
      (.commit metadata left)) :
    Settled (stepWatched location scope metadata.loadId ((⟨s, some load⟩, a), watch)
      (.commit metadata left)) := by
  obtain ⟨hcommitted, hholding⟩ := commit_outcome location scope hs metadata left
  refine ⟨hholding, ?_⟩
  let w' := step location scope ⟨s, some load⟩ (.commit metadata left)
  let a' := a.commit metadata.loadId load metadata.commitSeq s w'.store
  change ∀ table ∈ (if (metadata.loadId, metadata.commitSeq) ∈ w'.store.receipts then
    (⟨[], watch.settled ++ watch.awaiting⟩ : Watch) else watch).settled,
    HoldsOnlyOfLoad a' w'.store table
  have hclaims (name : String) (hname : name ∈ w'.store.claims metadata.loadId) :
      name ∈ a'.claimed := List.mem_append_right _ hname
  have hkeep (table : String) (h : HoldsOnlyOfLoad a s table) :
      HoldsOnlyOfLoad a' w'.store table :=
    h.files (fun name hname => (hcommitted.files_sub hname).imp_left (hclaims name))
      fun name hname => List.mem_append_left _ hname
  split
  · next hreceipt =>
    intro table htable
    rcases List.mem_append.1 htable with htable | htable
    · exact hkeep table (honly table htable)
    · rcases hok.2 load rfl hreceipt table htable with ⟨hfirst, hreplaced⟩ | honlyOfLoad
      · exact fun name hname howned => hclaims name
          (hcommitted.truncated hfirst hreceipt hreplaced hname howned)
      · exact hkeep table honlyOfLoad
  · exact fun table htable => hkeep table (honly table htable)

theorem settled_step (h : Settled x) (hok : InTime location scope loadId x event) :
    Settled (stepWatched location scope loadId x event) := by
  obtain ⟨⟨⟨s, session⟩, a⟩, watch⟩ := x
  obtain ⟨hsession, honly⟩ := h
  cases event with
  | openLoad format partitionBy id left =>
    obtain ⟨hstaging, hholding⟩ := open_outcome location scope ⟨s, session⟩ format partitionBy id left
    exact ⟨hholding, fun table htable => (honly table htable).files
      (fun name hname => .inr (hstaging.files_eq ▸ hname)) fun _ hname => hname⟩
  | crash => exact ⟨holding_none s _, honly⟩
  | ensure table mode =>
    cases session with
    | none => cases mode <;> exact ⟨hsession, honly⟩
    | some load =>
      obtain ⟨hsame, hholding⟩ := ensure_outcome location scope (hsession load rfl) table mode
      refine ⟨hholding, fun other hother => (honly other ?_).files
        (fun name hname => .inr (hsame ▸ hname)) fun _ hname => hname⟩
      cases mode <;> exact hother
  | append table value batch =>
    cases session with
    | none => exact ⟨hsession, honly⟩
    | some load => exact ⟨holding_some ((hsession load rfl).append table value batch), honly⟩
  | roll key =>
    cases session with
    | none => exact ⟨hsession, honly⟩
    | some load =>
      obtain ⟨hstaging, hholding⟩ := roll_outcome location scope (hsession load rfl) key
      exact ⟨hholding, fun table htable => (honly table htable).files
        (fun name hname => .inr (hstaging.files_eq ▸ hname)) fun _ hname => hname⟩
  | commit metadata left =>
    cases session with
    | none => exact ⟨hsession, honly⟩
    | some load =>
      obtain ⟨rfl, hcovered⟩ := hok
      exact settled_committed (hsession load rfl) honly left ⟨rfl, hcovered⟩

/-- Where every commit of the load is in time, each table ensured as Replace in a unit
that has its receipt holds only files of the load. -/
theorem replaced_tables_hold_only_the_load (location : Location) (scope loadId : String)
    (s₀ : Store R D) (events : List (Event R D))
    (hrun : Transition.Meets (stepWatched location scope loadId)
      (InTime location scope loadId) ((⟨s₀, none⟩, Account.empty), ⟨[], []⟩) events) :
    let x := Transition.run (stepWatched location scope loadId)
      ((⟨s₀, none⟩, Account.empty), ⟨[], []⟩) events
    ∀ table ∈ x.2.settled, HoldsOnlyOfLoad x.1.2 x.1.1.store table := by
  intro x
  exact (Transition.run_invariant (fun _ _ h hok => settled_step h hok)
    ⟨holding_none s₀ _, fun table htable => absurd htable List.not_mem_nil⟩ hrun).only

end Replace

instance (a : Account R) (s : Store R D) (table : String) :
    Decidable (HoldsOnlyOfLoad a s table) :=
  inferInstanceAs
    (Decidable (∀ name ∈ s.files.keys, ReplaceOwns false table name → name ∈ a.claimed))

instance (location : Location) (scope loadId : String) (x : Watched R D) (load : Load R)
    (metadata : CommitMeta D) (left : Option Nat) :
    Decidable (CommitsInTime location scope loadId x load metadata left) :=
  inferInstanceAs (Decidable (_ → _))

instance (location : Location) (scope loadId : String) (x : Watched R D) :
    (event : Event R D) → Decidable (InTime location scope loadId x event)
  | .commit metadata left =>
    inferInstanceAs (Decidable (metadata.loadId = loadId ∧
      ∀ load ∈ x.1.1.session, CommitsInTime location scope loadId x load metadata left))
  | .openLoad _ _ _ _ | .ensure _ _ | .append _ _ _ | .roll _ | .crash => isTrue trivial

def oldFiles : List (String × List Nat) :=
  [("items/part-old-1-0.parquet", [9]), ("items/notes.txt", [0])]

/-- The table is ensured before the load's first commit; the session after the crash
commits the next unit. -/
def timelyRun : List (Event Nat Unit) :=
  [.openLoad .parquet none "new" none, .ensure "items" .replace, .append "items" none [1],
   .commit ⟨"new", 1, ()⟩ none, .crash,
   .openLoad .parquet none "new" none, .append "items" none [2], .commit ⟨"new", 2, ()⟩ none]

theorem timely_run_holds_only_the_load :
    Transition.Meets (stepWatched .localDir "p" "new") (InTime .localDir "p" "new")
      ((⟨plainStore oldFiles, none⟩, Account.empty), ⟨[], []⟩) timelyRun ∧
    ∀ table ∈ (Transition.run (stepWatched .localDir "p" "new")
        ((⟨plainStore oldFiles, none⟩, Account.empty), ⟨[], []⟩) timelyRun).2.settled,
      HoldsOnlyOfLoad
        (Transition.run (stepWatched .localDir "p" "new")
          ((⟨plainStore oldFiles, none⟩, Account.empty), ⟨[], []⟩) timelyRun).1.2
        (Transition.run (stepWatched .localDir "p" "new")
          ((⟨plainStore oldFiles, none⟩, Account.empty), ⟨[], []⟩) timelyRun).1.1.store table := by
  have hrun : Transition.Meets (stepWatched .localDir "p" "new") (InTime .localDir "p" "new")
      ((⟨plainStore oldFiles, none⟩, Account.empty), ⟨[], []⟩) timelyRun := by decide +kernel
  exact ⟨hrun, replaced_tables_hold_only_the_load _ _ _ _ _ hrun⟩

/-- The table joins the load in its second unit. -/
def lateRun : List (Event Nat Unit) :=
  [.openLoad .parquet none "new" none, .append "orders" none [1], .commit ⟨"new", 1, ()⟩ none,
   .ensure "items" .replace, .append "items" none [2], .commit ⟨"new", 2, ()⟩ none]

def lateEnd : Watched Nat Unit :=
  Transition.run (stepWatched .localDir "p" "new")
    ((⟨plainStore oldFiles, none⟩, Account.empty), ⟨[], []⟩) lateRun

/-- The earlier load's part is still there beside the new one. -/
theorem late_table_keeps_old_part :
    (∀ event ∈ lateRun, ∀ metadata left, event = .commit metadata left → metadata.loadId = "new") ∧
    ¬∀ table ∈ lateEnd.2.settled, HoldsOnlyOfLoad lateEnd.1.2 lateEnd.1.1.store table := by
  constructor
  · intro event hevent metadata left heq
    subst heq
    simp only [lateRun, List.mem_cons, Event.commit.injEq, reduceCtorEq, false_or, List.not_mem_nil,
      or_false] at hevent
    rcases hevent with ⟨rfl, -⟩ | ⟨rfl, -⟩ <;> rfl
  · intro h
    have hold : "items/part-old-1-0.parquet" ∉ lateEnd.1.2.claimed := by decide +kernel
    exact hold (h "items" (by decide +kernel) _ (by decide +kernel) (by decide +kernel))

end FileLoad
