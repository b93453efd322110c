import RdltConnectors.Postgres.Ledger
import Mathlib.Data.Nat.Basic

/-!
# One unit for a full feed

A full-feed table takes the rows of one unit of its load. The guard is the memory of a
session, and a load outlives its sessions: it holds as long as a session that stages a
second feed has published the first one itself, or had it redelivered.
-/
namespace PgLoad

open Sqlcore

variable {V D : Type}

/-- The full feeds a unit delivered. -/
def Delivery.feeds (options : DestinationOptions) (unit : Delivery V D) : List String :=
  stagedFeeds options unit.tables unit.staged

/-- The units of the load that delivered the table's feed. -/
def feedUnits (options : DestinationOptions) (loadId table : String) (units : List (Delivery V D)) :
    List (Delivery V D) :=
  units.filter fun unit => unit.metadata.loadId = loadId && decide (table ∈ unit.feeds options)

def FedOnce (options : DestinationOptions) (units : List (Delivery V D)) : Prop :=
  ∀ loadId table, (feedUnits options loadId table units).length ≤ 1

section Ledger

variable (options : DestinationOptions) (earlier : List (String × Int64)) (l : Ledger V D)

/-- A staged feed that a unit of the load has delivered before. -/
def FedBefore (attempt : Attempt V) (table : String) : Prop :=
  table ∈ attempt.feeds options ∧ feedUnits options attempt.loadId table l.units ≠ []

/-- The session knows of the earlier feeds of what it has staged. -/
def Remembered : Event V D → Prop
  | .commit metadata _ | .commitUnacknowledged metadata _ =>
    ∀ attempt, l.attempt = some attempt → l.CommitsFresh earlier attempt metadata →
      ∀ table, FedBefore options l attempt table → table ∈ attempt.fed
  | _ => True

/-- The call commits a second feed. -/
def CommitsSecond : Event V D → Prop
  | .commit metadata _ | .commitUnacknowledged metadata _ =>
    ∃ attempt, l.attempt = some attempt ∧ l.CommitsFresh earlier attempt metadata ∧
      ∃ table, FedBefore options l attempt table
  | _ => False

variable {options earlier l} {publish : FullLoadPublish} {attempt : Attempt V}

theorem feedUnits_append (options : DestinationOptions) (loadId table : String)
    (units : List (Delivery V D)) (unit : Delivery V D) :
    feedUnits options loadId table (units ++ [unit]) = feedUnits options loadId table units ++
      if unit.metadata.loadId = loadId ∧ table ∈ unit.feeds options then [unit] else [] := by
  rw [feedUnits, List.filter_append]
  refine congrArg (feedUnits options loadId table units ++ ·) ?_
  by_cases h : unit.metadata.loadId = loadId ∧ table ∈ unit.feeds options
  · simp [h]
  · rw [if_neg h]
    simpa using h

theorem fedOnce_commit (h : FedOnce options l.units) {metadata : CommitMeta D} (now : V)
    (hknown : l.CommitsFresh earlier attempt metadata →
      ∀ table, FedBefore options l attempt table → table ∈ attempt.fed) :
    FedOnce options (l.commit options publish earlier attempt metadata now).units := by
  unfold Ledger.commit
  split
  · exact h
  · next hload =>
    rw [not_not] at hload
    split
    · exact h
    · next hnew =>
      split
      · exact h
      · next hfirst =>
        intro loadId table
        rw [feedUnits_append, List.length_append]
        by_cases hfeed : metadata.loadId = loadId ∧ table ∈ attempt.feeds options
        · have hnone : feedUnits options loadId table l.units = [] := by
            refine not_not.1 fun hbefore => hfirst ⟨table, hfeed.2, ?_⟩
            refine hknown ⟨hload, hnew⟩ table ⟨hfeed.2, ?_⟩
            rw [← hload, hfeed.1]
            exact hbefore
          rw [hnone, List.length_nil, Nat.zero_add]
          split
          · exact Nat.le_refl 1
          · exact Nat.zero_le 1
        · have hother : ¬(metadata.loadId = loadId ∧
              table ∈ Delivery.feeds options (⟨attempt.tables, attempt.writes, attempt.staged,
                metadata, now⟩ : Delivery V D)) := hfeed
          rw [if_neg hother, List.length_nil, Nat.add_zero]
          exact h loadId table

/-- A session that knows of no feed it has staged publishes a second one. -/
theorem forgotten_feed_published {metadata : CommitMeta D} (now : V) {table : String}
    (hfresh : l.CommitsFresh earlier attempt metadata)
    (hunknown : ¬∃ table ∈ attempt.feeds options, table ∈ attempt.fed)
    (hbefore : FedBefore options l attempt table) :
    ¬FedOnce options (l.commit options publish earlier attempt metadata now).units := by
  intro honce
  have hcount := honce attempt.loadId table
  rw [Ledger.commit, if_neg (not_not.2 hfresh.1), if_neg hfresh.2, if_neg hunknown] at hcount
  have hfeed : metadata.loadId = attempt.loadId ∧
      table ∈ Delivery.feeds options (⟨attempt.tables, attempt.writes, attempt.staged,
        metadata, now⟩ : Delivery V D) := ⟨hfresh.1, hbefore.1⟩
  have hpositive := List.length_pos_of_ne_nil hbefore.2
  rw [feedUnits_append, if_pos hfeed, List.length_append, List.length_singleton] at hcount
  omega

/-- Only a commit delivers a unit. -/
theorem step_units_of_not_commit (l : Ledger V D) {event : Event V D}
    (hcommit : ∀ metadata now, event ≠ .commit metadata now)
    (hunacknowledged : ∀ metadata now, event ≠ .commitUnacknowledged metadata now) :
    (l.step options publish earlier event).units = l.units := by
  unfold Ledger.step
  split
  · rfl
  · rfl
  · rfl
  · split
    · rfl
    · rfl
  · unfold Ledger.write
    split
    · rfl
    · rfl
  · unfold Ledger.writeFails
    split
    · rfl
    · rfl
  · exact absurd rfl (hcommit _ _)
  · exact absurd rfl (hunacknowledged _ _)
  · rfl

theorem fedOnce_step (l : Ledger V D) (event : Event V D) (h : FedOnce options l.units)
    (hknown : Remembered options earlier l event) :
    FedOnce options (l.step options publish earlier event).units := by
  cases event with
  | commit metadata now =>
    cases hattempt : l.attempt with
    | none => simpa only [Ledger.step, hattempt] using h
    | some attempt =>
      simp only [Ledger.step, hattempt]
      exact fedOnce_commit h now (hknown attempt hattempt)
  | commitUnacknowledged metadata now =>
    cases hattempt : l.attempt with
    | none => simpa only [Ledger.step, hattempt] using h
    | some attempt =>
      simp only [Ledger.step, hattempt]
      exact fedOnce_commit h now (hknown attempt hattempt)
  | _ =>
    rw [step_units_of_not_commit l (by simp) (by simp)]
    exact h

/-- A second feed that the session knows of is refused. -/
theorem commit_second (attempt : Attempt V) {metadata : CommitMeta D} (now : V)
    (hfresh : l.CommitsFresh earlier attempt metadata)
    (hsecond : ∃ table ∈ attempt.feeds options, table ∈ attempt.fed) :
    l.commit options publish earlier attempt metadata now = l.rollback attempt := by
  rw [Ledger.commit, if_neg (not_not.2 hfresh.1), if_neg hfresh.2, if_pos hsecond]

theorem step_second (publish : FullLoadPublish) (event : Event V D)
    (hknown : Remembered options earlier l event)
    (hsecond : CommitsSecond options earlier l event) :
    (l.step options publish earlier event).units = l.units ∧
      (l.step options publish earlier event).kept = l.kept := by
  cases event with
  | commit metadata now =>
    obtain ⟨attempt, hattempt, hfresh, table, hbefore⟩ := hsecond
    have hfed := hknown attempt hattempt hfresh table hbefore
    simp only [Ledger.step, hattempt, commit_second attempt now hfresh ⟨table, hbefore.1, hfed⟩]
    exact ⟨rfl, rfl⟩
  | commitUnacknowledged metadata now =>
    obtain ⟨attempt, hattempt, hfresh, table, hbefore⟩ := hsecond
    have hfed := hknown attempt hattempt hfresh table hbefore
    simp only [Ledger.step, hattempt, commit_second attempt now hfresh ⟨table, hbefore.1, hfed⟩]
    exact ⟨rfl, rfl⟩
  | _ => exact hsecond.elim

end Ledger

variable [LinearOrder V]

/-- As long as every session knows of the earlier feeds of what it has staged, a load
publishes one feed of a table, and refuses a second before anything changes. -/
theorem full_feed_published_once (dest : Destination V) (publish : FullLoadPublish)
    (init : Database V D) (events : List (Event V D))
    (hknown : Transition.Meets (Ledger.step dest.options publish init.receipts)
      (Remembered dest.options init.receipts) Ledger.empty events) :
    let w := Transition.run (World.step dest publish) ⟨init.clearStages, none⟩ events
    let l := Transition.run (Ledger.step dest.options publish init.receipts) Ledger.empty events
    w.db = (contents dest publish init l.units).withStages l.kept ∧
    FedOnce dest.options l.units ∧
    ∀ event, Remembered dest.options init.receipts l event →
      CommitsSecond dest.options init.receipts l event →
        (w.step dest publish event).db = w.db := by
  intro w l
  have hmatch : Matches dest publish init w l := matches_run dest publish init events
  have honce : FedOnce dest.options l.units := Transition.run_invariant
    (fun l event h hk => fedOnce_step l event h hk) (fun _ _ => Nat.zero_le 1) hknown
  refine ⟨hmatch.db, honce, fun event hk hsecond => ?_⟩
  obtain ⟨hunits, hkept⟩ := step_second publish event hk hsecond
  rw [(matches_step event hmatch).db, hunits, hkept, ← hmatch.db]

/-! A load delivers the feed of a scoped table in two units. One session refuses the
second. A session that recovers the load after the first one's commit does not know of
it: it publishes the second unit too, whose scope replacement deletes the first. -/

def balanceSchema : TableSchema :=
  ⟨"balances", none, [⟨"id", .scalar .int64, false⟩, ⟨"region", .scalar .int64, true⟩]⟩

def balanceServer : Destination Nat :=
  ⟨.postgres, { tables := [("balances", { mergeScope := some ["region"] })] }, 1, fun _ => 0⟩

def balance (id region : Nat) : Row Nat := fun c =>
  if c = "id" then some id else if c = "region" then some region else none

def noBalances : Database Nat Unit := ⟨fun _ => [], fun _ => [], fun _ => none, [], []⟩

def balanceUnit (seq : UInt64) : CommitMeta Unit := ⟨"l", seq, "p", ()⟩

def firstFeed : List (Event Nat Unit) :=
  [.connect "l", .ensure balanceSchema (.merge ["id"]), .write "balances" [balance 1 7],
    .commit (balanceUnit 0) 0]

def recoveredFeed : List (Event Nat Unit) :=
  firstFeed ++ [.crash, .connect "l", .ensure balanceSchema (.merge ["id"]),
    .write "balances" [balance 2 7], .commit (balanceUnit 1) 0]

theorem recovered_feed_published :
    let w := Transition.run (World.step balanceServer .directToTarget) ⟨noBalances, none⟩ recoveredFeed
    let l := Transition.run (Ledger.step balanceServer.options .directToTarget []) Ledger.empty
      recoveredFeed
    ¬FedOnce balanceServer.options l.units ∧ w.db.receipts = [("l", 0), ("l", 1)] ∧
      (w.db.targets "balances").map (fun r => r "id") = [some 2] := by
  refine ⟨fun h => absurd (h "l" "balances") ?_, ?_, ?_⟩
  · decide
  · decide
  · decide

def secondFeed : List (Event Nat Unit) := firstFeed ++ [.write "balances" [balance 2 7]]

theorem second_feed_refused :
    let w := Transition.run (World.step balanceServer .directToTarget) ⟨noBalances.clearStages, none⟩
      secondFeed
    (w.step balanceServer .directToTarget (.commit (balanceUnit 1) 0)).db = w.db := by
  have hfirst (l : Ledger Nat Unit) (hl : l.units = []) (event : Event Nat Unit) :
      Remembered balanceServer.options [] l event := by
    have hnone (attempt : Attempt Nat) (table : String) :
        ¬FedBefore balanceServer.options l attempt table := fun h => h.2 (by rw [hl]; rfl)
    cases event with
    | commit metadata now => exact fun attempt _ _ table h => absurd h (hnone attempt table)
    | commitUnacknowledged metadata now =>
      exact fun attempt _ _ table h => absurd h (hnone attempt table)
    | _ => trivial
  have hknown : Transition.Meets (Ledger.step balanceServer.options .directToTarget [])
      (Remembered balanceServer.options []) Ledger.empty secondFeed :=
    ⟨hfirst _ rfl _, hfirst _ rfl _, hfirst _ rfl _, hfirst _ rfl _, trivial, trivial⟩
  refine (full_feed_published_once balanceServer .directToTarget noBalances secondFeed hknown).2.2
    (.commit (balanceUnit 1) 0) ?_ ?_
  · intro attempt hattempt _ table hbefore
    obtain rfl := Option.some.inj hattempt
    exact hbefore.1
  · refine ⟨_, rfl, ⟨rfl, by decide⟩, "balances", by decide, fun hnone => ?_⟩
    exact absurd (congrArg List.length hnone) (by decide)

end PgLoad
