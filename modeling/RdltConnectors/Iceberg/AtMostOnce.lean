import RdltConnectors.Iceberg.Load

/-!
# One snapshot per unit

Two attempts at one unit may race for a table. Both look for the unit in the history they
plan on, and the library appends to the history it loads after that, where nobody looks. A
table gets the unit twice where another attempt commits it between the two loads, or where
it is there under another scope when the plan is made; else at most once.
-/
namespace Iceberg

open Optimistic Transition

variable {R : Type}

/-- The session is an attempt at the unit. -/
def Session.attempts (session : Session R) (loadId : String) (commitSeq : Nat) : Bool :=
  session.metadata.loadId == loadId && session.metadata.commitSeq == commitSeq

/-- What is asked of an attempt at the unit: a history with the unit it plans on has it under the
attempt's own scope, and no other attempt commits the unit until the library has loaded the
table to append to it. -/
def Session.recognises (session : Session R) (tables : String → Cell (History R)) (loadId : String)
    (commitSeq : Nat) : Bool :=
  match session.stage with
  | .appending _ _ _ (.loaded _ seen) =>
    !(session.attempts loadId commitSeq && loadCommitted seen.value loadId commitSeq) ||
      session.identity.alreadyCommitted seen.value
  | .appending table _ _ (.planned _ seen _ _) =>
    !(session.attempts loadId commitSeq && loadCommitted (tables table).value loadId commitSeq) ||
      loadCommitted seen.value loadId commitSeq
  | _ => true

/-- The condition on a step, at the state it is taken from. -/
def World.recognises (w : World R) (loadId : String) (commitSeq : Nat) : Event R → Bool
  | .step index _ _ =>
    (w.sessions[index]?).all fun session => session.recognises w.tables loadId commitSeq
  | _ => true

/-- An attempt at the unit plans on a history without it, and so does the library append. -/
def Session.Careful (loadId : String) (commitSeq : Nat) (session : Session R) : Prop :=
  session.attempts loadId commitSeq = true →
    match session.stage with
    | .appending _ _ _ (.planned _ seen _ _) => loadCommitted seen.value loadId commitSeq = false
    | .appending _ _ _ (.built _ seen _ _ base _) =>
      loadCommitted seen.value loadId commitSeq = false ∧
        loadCommitted base.value loadId commitSeq = false
    | _ => True

variable {loadId : String} {commitSeq : Nat} {w : World R} {session : Session R}

theorem attempts_iff : session.attempts loadId commitSeq = true ↔
    session.metadata.loadId = loadId ∧ session.metadata.commitSeq = commitSeq := by
  rw [Session.attempts, Bool.and_eq_true, beq_iff_eq, beq_iff_eq]

/-- A session outside a data commit. -/
theorem Session.Careful.idle {stage : Stage R} (h : ∀ table files rest phase,
    stage ≠ .appending table files rest phase) :
    ({ session with stage := stage } : Session R).Careful loadId commitSeq := by
  intro _
  dsimp only
  split
  · exact absurd rfl (h _ _ _ _)
  · exact absurd rfl (h _ _ _ _)
  · trivial

theorem Session.Careful.crashed (session : Session R) :
    ({ session with stage := session.stage.crashed } : Session R).Careful loadId commitSeq := by
  apply Session.Careful.idle
  exact crashed_ne_appending session.stage

/-- One step of a data commit. -/
theorem careful_append {table : String} {files : List (List R)} {rest : List (Window R)}
    {tables : String → Cell (History R)} {phase phase' : Appending R} {cell' : Cell (History R)}
    (hstage : session.stage = .appending table files rest phase)
    (h : appendClient.Steps (appendPlan session.identity files) (tables table) phase cell' phase')
    (hcareful : session.Careful loadId commitSeq)
    (hrecognises : session.recognises tables loadId commitSeq = true) :
    ({ session with stage := appended table files rest phase' } : Session R).Careful
      loadId commitSeq := by
  intro hunit
  have hmine := hcareful hunit
  unfold Session.recognises at hrecognises
  rw [hstage] at hmine hrecognises
  have hattempts : session.attempts loadId commitSeq = true := hunit
  cases h with
  | @plan attempt seen snapshot hplan =>
    -- what is not found is committed, and what is there would be found
    obtain ⟨hnot, -⟩ := appendPlan_commit hplan
    have hnone : loadCommitted seen.value loadId commitSeq = false := by
      simpa [hattempts, hnot] using hrecognises
    exact hnone
  | build hbuild =>
    refine ⟨hmine, ?_⟩
    dsimp only at hrecognises hmine
    simpa [hattempts, hmine] using hrecognises
  | again htries => exact hmine.1
  | rest hover =>
    cases phase with
    | done value => trivial
    | failed failure => trivial
    | _ => cases hover
  | _ => trivial

theorem Session.Steps.careful {nowMs : Nat} {tables tables' : String → Cell (History R)}
    {marker marker' : Option (Cell Marker)} {stage : Stage R}
    (h : session.Steps nowMs tables marker tables' marker' stage)
    (hcareful : session.Careful loadId commitSeq)
    (hrecognises : session.recognises tables loadId commitSeq = true) :
    ({ session with stage := stage } : Session R).Careful loadId commitSeq := by
  cases h with
  | append hstage hsteps => exact careful_append hstage hsteps hcareful hrecognises
  | fresh hstage hfiles hnot => exact fun _ => trivial
  | stamp hstage hcell hsteps =>
    apply Session.Careful.idle
    intro table files rest phase
    unfold stamped
    split
    · exact nofun
    · exact nofun
    · exact nofun
  | idle => exact hcareful
  | _ => exact .idle nofun

/-! ## Every run -/

def AtMostOnce (loadId : String) (commitSeq : Nat) (tables : String → Cell (History R)) : Prop :=
  ∀ table, (unitSnapshots (tables table).value loadId commitSeq).length ≤ 1

theorem Session.Steps.atMostOnce {nowMs : Nat} {tables tables' : String → Cell (History R)}
    {marker marker' : Option (Cell Marker)} {stage : Stage R}
    (h : session.Steps nowMs tables marker tables' marker' stage)
    (hcareful : session.Careful loadId commitSeq) (htracking : session.Tracking tables)
    (honce : AtMostOnce loadId commitSeq tables) : AtMostOnce loadId commitSeq tables' := by
  intro table
  have hbefore := honce table
  obtain heq | ⟨files, rest, attempt, seen, tries, next, hstage, -, hvalue⟩ :=
    h.table htracking table
  · rw [heq]
    exact hbefore
  · rw [hvalue, unitSnapshots_append, List.length_append]
    by_cases hunit : session.metadata.loadId = loadId ∧ session.metadata.commitSeq = commitSeq
    · -- the library appends to the history it has loaded, and that one had no such snapshot
      have hmine := hcareful (attempts_iff.2 hunit)
      rw [hstage] at hmine
      rw [unitSnapshots_eq_nil.2 hmine.2]
      split
      · exact Nat.le_refl 1
      · exact Nat.zero_le 1
    · rw [if_neg fun hcarries => hunit (carries_summaryProps.1 hcarries)]
      exact hbefore

theorem AtMostOnce.appendForeign (h : AtMostOnce loadId commitSeq w.tables) (changed : String)
    (snapshot : Snapshot R) : AtMostOnce loadId commitSeq (w.appendForeign changed snapshot).tables := by
  intro table
  obtain ⟨-, heq | ⟨hload, hvalue⟩⟩ := appendForeign_table w changed snapshot table
  · rw [heq]
    exact h table
  · rw [hvalue, unitSnapshots_append, carries_foreign hload, List.length_append]
    exact h table

/-- A run in which each attempt at the unit recognises it in the history it plans on, and is not
overtaken by another before the library appends, leaves at most one snapshot of it in every
table. -/
theorem unit_at_most_once (loadId : String) (commitSeq : Nat) (w : World R)
    (hsessions : w.sessions = []) (hfresh : AtMostOnce loadId commitSeq w.tables)
    (events : List (Event R))
    (h : Meets World.act (fun w event => w.recognises loadId commitSeq event = true) w events) :
    AtMostOnce loadId commitSeq (run World.act w events).tables := by
  let C := fun (tables : String → Cell (History R)) (_ : Option (Cell Marker)) =>
    AtMostOnce loadId commitSeq tables
  let S := fun (tables : String → Cell (History R)) (_ : Option (Cell Marker))
    (session : Session R) => session.Tracking tables ∧ session.Careful loadId commitSeq
  have hstart : w.Holds C S := by
    refine ⟨hfresh, fun j session hsession => ?_⟩
    rw [hsessions] at hsession
    cases hsession
  refine (run_invariant (I := World.Holds C S) (fun w event hw hok => ?_) hstart h).1
  apply holds_act hw
  · intro scope metadata windows _
    exact ⟨nofun, fun _ => trivial⟩
  · intro index nowMs answer session tables marker stage hevent hsession hsteps
    obtain ⟨htracking, hcareful⟩ := hw.2 index session hsession
    have hrecognises : session.recognises w.tables loadId commitSeq = true := by
      rw [hevent, World.recognises, hsession] at hok
      exact hok
    exact ⟨hsteps.atMostOnce hcareful htracking hw.1,
      ⟨hsteps.tracking htracking, hsteps.careful hcareful hrecognises⟩,
      fun j other _ hother => ⟨(hw.2 j other hother).1.changes hsteps.changes,
        (hw.2 j other hother).2⟩⟩
  · intro session _
    exact ⟨.crashed session, .crashed session⟩
  · intro changed snapshot _
    obtain ⟨-, hrest⟩ := appendForeign_rest w changed snapshot
    refine ⟨hw.1.appendForeign changed snapshot, fun j session hsession => ?_⟩
    obtain ⟨htracking, hcareful⟩ := hw.2 j session (hrest ▸ hsession)
    exact ⟨htracking.changes fun table => (appendForeign_table w changed snapshot table).1, hcareful⟩

/-! ## Two attempts at one unit -/

def lands : Answer := ⟨true, .ok⟩

def unitOne (scope : String) : Event Nat := .publish scope ⟨"load", 1, "s"⟩ [("t", [[7]])]

/-- The first attempt lands without a reply, beside a foreign snapshot that makes the library try
twice; the second, under another scope, converges on what it finds. -/
def lostReply : List (Event Nat) :=
  [unitOne "a", .step 0 0 lands, .step 0 0 lands, .step 0 0 lands, .foreign "t" ⟨[], [[3]]⟩,
    .step 0 0 lands, .step 0 0 lands, .step 0 0 ⟨true, .error⟩,
    unitOne "b", .step 1 0 lands, .step 1 0 lands]

theorem lost_reply_is_once :
    AtMostOnce "load" 1 (run World.act World.empty lostReply).tables ∧
      (unitSnapshots ((run World.act World.empty lostReply).tables "t").value "load" 1).length = 1 :=
  ⟨unit_at_most_once "load" 1 World.empty rfl (fun _ => Nat.zero_le 1) lostReply (by decide),
    by decide⟩

/-- Both attempts plan before either commits. -/
def raced : List (Event Nat) :=
  [unitOne "a", unitOne "a", .step 0 0 lands, .step 1 0 lands, .step 0 0 lands, .step 1 0 lands,
    -- the library appends the second's files, and then the first's to what it finds
    .step 1 0 lands, .step 1 0 lands, .step 0 0 lands, .step 0 0 lands]

/-- Nobody looks at the history that the first attempt's snapshot goes onto. -/
theorem raced_appends_twice :
    ¬ ∀ events : List (Event Nat), AtMostOnce "load" 1 (run World.act World.empty events).tables := by
  intro h
  have htwice : (unitSnapshots ((run World.act World.empty raced).tables "t").value
      "load" 1).length = 2 := by decide
  have honce := h raced "t"
  rw [htwice] at honce
  omega

end Iceberg
