import Mathlib.Init

/-!
# Optimistic commits

A cell holds a value under a version. A writer loads the cell, plans on what it has seen
and hands an action to a library, which loads the cell once more, builds the action on
what it finds there and replaces exactly that value, or conflicts. The library builds again
after a conflict, and once it gives up the writer loads and plans again, each a bounded
number of times. So whatever the other writers do in between, an action that lands was built
on the very value it replaces; the value it was planned on can be an earlier one.
-/
namespace Optimistic

variable {σ τ α ε : Type}

structure Cell (σ : Type) where
  value : σ
  version : Nat
  deriving DecidableEq, Repr

/-- What one attempt decides from the value it has seen. -/
inductive Plan (α ε : Type) where
  /-- the desired state already holds -/
  | settled
  | commit (action : α)
  | refused (error : ε)

/-- What the writer is told of its commit. -/
inductive Told where
  | ok
  | conflict
  | error
  deriving DecidableEq, Repr

/-- Whether a commit may land, and what is told of it: the reply to one that landed can be
lost, but a conflict is told only of one that did not. -/
structure Answer where
  lands : Bool
  told : Told
  deriving DecidableEq, Repr

inductive Failure (ε : Type) where
  | store
  | exhausted
  | refused (error : ε)
  /-- the action does not go onto the value that is there -/
  | rejected (error : ε)
  deriving DecidableEq, Repr

inductive Phase (σ α ε : Type) where
  | loading (attempt : Nat)
  | loaded (attempt : Nat) (seen : Cell σ)
  /-- the library has the action, and is about to load the cell -/
  | planned (attempt : Nat) (seen : Cell σ) (action : α) (tries : Nat)
  | built (attempt : Nat) (seen : Cell σ) (action : α) (tries : Nat) (base : Cell σ) (next : σ)
  | done (value : σ)
  | failed (failure : Failure ε)

def Phase.over : Phase σ α ε → Bool
  | .done _ => true
  | .failed _ => true
  | _ => false

/-- The bounds of the writer's retry and of the library's, and what an action makes of a value. -/
structure Client (σ α ε : Type) where
  attempts : Nat
  retries : Nat
  build : α → σ → Except ε σ

/-- Every change of a cell is a new version. -/
def Changes (cell cell' : Cell σ) : Prop := cell' = cell ∨ cell'.version = cell.version + 1

/-- What a writer has seen is an earlier value of the cell, or its present one. -/
def Seen (cell seen : Cell σ) : Prop :=
  seen.version ≤ cell.version ∧ (seen.version = cell.version → seen = cell)

theorem Seen.refl (cell : Cell σ) : Seen cell cell := ⟨Nat.le_refl _, fun _ => rfl⟩

theorem Seen.changes {cell cell' seen : Cell σ} (h : Seen cell seen) (hchange : Changes cell cell') :
    Seen cell' seen := by
  cases hchange with
  | inl heq => exact heq ▸ h
  | inr hversion =>
    have hle := h.1
    exact ⟨by omega, fun heq => by omega⟩

namespace Client

variable (client : Client σ α ε)

/-- The conflict is the writer's: it loads the cell again, within the bound. -/
def retry (attempt : Nat) : Phase σ α ε :=
  if attempt < client.attempts then .loading (attempt + 1) else .failed .exhausted

/-- What an attempt does with its plan. -/
def follow (attempt : Nat) (seen : Cell σ) : Plan α ε → Phase σ α ε
  | .settled => .done seen.value
  | .commit action => .planned attempt seen action 0
  | .refused error => .failed (.refused error)

/-- The action on the value that is there. -/
def rebase (attempt : Nat) (seen : Cell σ) (action : α) (tries : Nat) (base : Cell σ) :
    Phase σ α ε :=
  match client.build action base.value with
  | .ok next => .built attempt seen action tries base next
  | .error error => .failed (.rejected error)

/-- A commit that did not land: the library builds the action again, within its own bound. -/
def missed (attempt : Nat) (seen : Cell σ) (action : α) (tries : Nat) (told : Told) :
    Phase σ α ε :=
  if told = .error then .failed .store
  else if tries < client.retries then .planned attempt seen action (tries + 1)
  else client.retry attempt

/-- The next step of a writer that plans with `plan`. -/
def advance (plan : σ → Plan α ε) (answer : Answer) (cell : Cell σ) :
    Phase σ α ε → Cell σ × Phase σ α ε
  | .loading attempt =>
    (cell, if answer.told = .error then .failed .store else .loaded attempt cell)
  | .loaded attempt seen => (cell, follow attempt seen (plan seen.value))
  | .planned attempt seen action tries =>
    (cell, if answer.told = .error then .failed .store
      else client.rebase attempt seen action tries cell)
  | .built attempt seen action tries base next =>
    if answer.lands ∧ answer.told ≠ .conflict ∧ base.version = cell.version then
      (⟨next, cell.version + 1⟩, if answer.told = .error then .failed .store else .done next)
    else (cell, client.missed attempt seen action tries answer.told)
  | .done value => (cell, .done value)
  | .failed failure => (cell, .failed failure)

/-! ## What a step can do -/

inductive Steps (plan : σ → Plan α ε) (cell : Cell σ) :
    Phase σ α ε → Cell σ → Phase σ α ε → Prop where
  | load {attempt : Nat} : Steps plan cell (.loading attempt) cell (.loaded attempt cell)
  | settle {attempt : Nat} {seen : Cell σ} : plan seen.value = .settled →
      Steps plan cell (.loaded attempt seen) cell (.done seen.value)
  | plan {attempt : Nat} {seen : Cell σ} {action : α} : plan seen.value = .commit action →
      Steps plan cell (.loaded attempt seen) cell (.planned attempt seen action 0)
  | refuse {attempt : Nat} {seen : Cell σ} {error : ε} : plan seen.value = .refused error →
      Steps plan cell (.loaded attempt seen) cell (.failed (.refused error))
  | build {attempt : Nat} {seen : Cell σ} {action : α} {tries : Nat} {next : σ} :
      client.build action cell.value = .ok next →
      Steps plan cell (.planned attempt seen action tries) cell
        (.built attempt seen action tries cell next)
  | reject {attempt : Nat} {seen : Cell σ} {action : α} {tries : Nat} {error : ε} :
      client.build action cell.value = .error error →
      Steps plan cell (.planned attempt seen action tries) cell (.failed (.rejected error))
  | land {attempt : Nat} {seen base : Cell σ} {action : α} {tries : Nat} {next : σ} :
      base.version = cell.version →
      Steps plan cell (.built attempt seen action tries base next) ⟨next, cell.version + 1⟩
        (.done next)
  /-- it landed, and the reply was lost -/
  | lose {attempt : Nat} {seen base : Cell σ} {action : α} {tries : Nat} {next : σ} :
      base.version = cell.version →
      Steps plan cell (.built attempt seen action tries base next) ⟨next, cell.version + 1⟩
        (.failed .store)
  | again {attempt : Nat} {seen base : Cell σ} {action : α} {tries : Nat} {next : σ} :
      tries < client.retries →
      Steps plan cell (.built attempt seen action tries base next) cell
        (.planned attempt seen action (tries + 1))
  | reload {attempt : Nat} {seen base : Cell σ} {action : α} {tries : Nat} {next : σ} :
      attempt < client.attempts →
      Steps plan cell (.built attempt seen action tries base next) cell (.loading (attempt + 1))
  | exhaust {attempt : Nat} {seen base : Cell σ} {action : α} {tries : Nat} {next : σ} :
      Steps plan cell (.built attempt seen action tries base next) cell (.failed .exhausted)
  | fail {phase : Phase σ α ε} : phase.over = false → Steps plan cell phase cell (.failed .store)
  | rest {phase : Phase σ α ε} : phase.over = true → Steps plan cell phase cell phase

variable {plan : σ → Plan α ε} {cell cell' : Cell σ} {phase phase' : Phase σ α ε}

theorem follow_steps (attempt : Nat) (seen : Cell σ) :
    client.Steps plan cell (.loaded attempt seen) cell (follow attempt seen (plan seen.value)) := by
  cases hplan : plan seen.value with
  | settled => exact .settle hplan
  | commit action => exact .plan hplan
  | refused error => exact .refuse hplan

theorem rebase_steps (attempt : Nat) (seen : Cell σ) (action : α) (tries : Nat) :
    client.Steps plan cell (.planned attempt seen action tries) cell
      (client.rebase attempt seen action tries cell) := by
  unfold rebase
  cases hbuild : client.build action cell.value with
  | ok next => exact .build hbuild
  | error error => exact .reject hbuild

theorem missed_steps (attempt : Nat) (seen : Cell σ) (action : α) (tries : Nat) (base : Cell σ)
    (next : σ) (told : Told) :
    client.Steps plan cell (.built attempt seen action tries base next) cell
      (client.missed attempt seen action tries told) := by
  unfold missed retry
  split
  · exact .fail rfl
  · split
    · next htries => exact .again htries
    · split
      · next hattempt => exact .reload hattempt
      · exact .exhaust

theorem advance_steps (plan : σ → Plan α ε) (answer : Answer) (cell : Cell σ)
    (phase : Phase σ α ε) :
    client.Steps plan cell phase (client.advance plan answer cell phase).1
      (client.advance plan answer cell phase).2 := by
  cases phase with
  | loading attempt =>
    unfold advance
    dsimp only
    split
    · exact .fail rfl
    · exact .load
  | loaded attempt seen => exact client.follow_steps attempt seen
  | planned attempt seen action tries =>
    unfold advance
    dsimp only
    split
    · exact .fail rfl
    · exact client.rebase_steps attempt seen action tries
  | built attempt seen action tries base next =>
    unfold advance
    dsimp only
    split
    · next hlands =>
      split
      · exact .lose hlands.2.2
      · exact .land hlands.2.2
    · exact client.missed_steps attempt seen action tries base next answer.told
  | done value => exact .rest rfl
  | failed failure => exact .rest rfl

variable {client}

theorem Steps.changes (h : client.Steps plan cell phase cell' phase') : Changes cell cell' := by
  cases h with
  | land hversion | lose hversion => exact .inr rfl
  | _ => exact .inl rfl

/-- A writer that is over has nothing more to do. -/
theorem Steps.over (h : client.Steps plan cell phase cell' phase') (hover : phase.over = true) :
    cell' = cell ∧ phase' = phase := by
  cases h with
  | fail hrunning =>
    rw [hover] at hrunning
    cases hrunning
  | rest => exact ⟨rfl, rfl⟩
  | _ => cases hover

/-! ## What a writer is about to commit -/

variable (client)

/-- The action was planned on what the writer has seen, and built on what the cell held last when
the library loaded it. The parameter of a plan is what varies from one attempt to the next. -/
def Tracks (plan : τ → σ → Plan α ε) (cell : Cell σ) : Phase σ α ε → Prop
  | .planned _ seen action _ => ∃ t, plan t seen.value = .commit action
  | .built _ seen action _ base next => (∃ t, plan t seen.value = .commit action) ∧
      Seen cell base ∧ client.build action base.value = .ok next
  | _ => True

variable {client} {plans : τ → σ → Plan α ε}

/-- The steps of other writers. -/
theorem Tracks.changes (h : client.Tracks plans cell phase) (hchange : Changes cell cell') :
    client.Tracks plans cell' phase := by
  cases phase with
  | built attempt seen action tries base next => exact ⟨h.1, h.2.1.changes hchange, h.2.2⟩
  | planned attempt seen action tries => exact h
  | _ => trivial

theorem Steps.tracks {t : τ} (h : client.Steps (plans t) cell phase cell' phase')
    (htracks : client.Tracks plans cell phase) : client.Tracks plans cell' phase' := by
  cases h with
  | plan hplan => exact ⟨t, hplan⟩
  | build hbuild => exact ⟨htracks, Seen.refl _, hbuild⟩
  | again htries => exact htracks.1
  | rest hover => exact htracks
  | _ => trivial

/-- A step leaves the cell alone, or lands the action that was built on the value it replaces. -/
theorem Steps.lands (h : client.Steps plan cell phase cell' phase')
    (htracks : client.Tracks plans cell phase) :
    cell' = cell ∨ ∃ attempt seen action tries next t,
      phase = .built attempt seen action tries cell next ∧ plans t seen.value = .commit action ∧
        client.build action cell.value = .ok next ∧ cell' = ⟨next, cell.version + 1⟩ ∧
        phase'.over = true := by
  cases h with
  | @land attempt seen base action tries next hversion =>
    obtain ⟨⟨t, hplan⟩, hseen, hbuild⟩ := htracks
    obtain rfl := hseen.2 hversion
    exact .inr ⟨attempt, seen, action, tries, next, t, rfl, hplan, hbuild, rfl, rfl⟩
  | @lose attempt seen base action tries next hversion =>
    obtain ⟨⟨t, hplan⟩, hseen, hbuild⟩ := htracks
    obtain rfl := hseen.2 hversion
    exact .inr ⟨attempt, seen, action, tries, next, t, rfl, hplan, hbuild, rfl, rfl⟩
  | _ => exact .inl rfl

/-! ## What every version keeps -/

/-- Of the values a writer has seen, built on or would commit, and of its action, as planned on
what it has seen. -/
def Holds (P : σ → Prop) (A : σ → α → Prop) : Phase σ α ε → Prop
  | .loaded _ seen => P seen.value
  | .planned _ seen action _ => P seen.value ∧ A seen.value action
  | .built _ seen action _ _ next => (P seen.value ∧ A seen.value action) ∧ P next
  | .done value => P value
  | _ => True

variable {P P' : σ → Prop} {A A' : σ → α → Prop}

theorem Holds.imp (himp : ∀ value, P value → P' value)
    (haction : ∀ value action, A value action → A' value action) (h : Holds P A phase) :
    Holds P' A' phase := by
  cases phase with
  | loaded attempt seen => exact himp _ h
  | planned attempt seen action tries => exact ⟨himp _ h.1, haction _ _ h.2⟩
  | built attempt seen action tries base next =>
    exact ⟨⟨himp _ h.1.1, haction _ _ h.1.2⟩, himp _ h.2⟩
  | done value => exact himp _ h
  | _ => trivial

/-- What an action keeps on the value it is built on holds of every version. -/
theorem Steps.holds (h : client.Steps plan cell phase cell' phase') (hcell : P cell.value)
    (hholds : Holds P A phase)
    (hplan : ∀ attempt seen action, phase = .loaded attempt seen →
      plan seen.value = .commit action → A seen.value action)
    (hbuild : ∀ attempt seen action tries next, phase = .planned attempt seen action tries →
      client.build action cell.value = .ok next → P next) :
    P cell'.value ∧ Holds P A phase' := by
  cases h with
  | load => exact ⟨hcell, hcell⟩
  | settle hsettled => exact ⟨hcell, hholds⟩
  | plan hcommit => exact ⟨hcell, hholds, hplan _ _ _ rfl hcommit⟩
  | build hnext => exact ⟨hcell, hholds, hbuild _ _ _ _ _ rfl hnext⟩
  | land hversion => exact ⟨hholds.2, hholds.2⟩
  | lose hversion => exact ⟨hholds.2, trivial⟩
  | again htries => exact ⟨hcell, hholds.1⟩
  | rest hover => exact ⟨hcell, hholds⟩
  | _ => exact ⟨hcell, trivial⟩

/-- What a writer settles on, and what its action makes of any value it can be built on. Until it
is built an action must stay good for the value that is there. -/
def Aims (plan : σ → Plan α ε) (good : σ → α → Prop) (P : σ → Prop) (cell : Cell σ) :
    Phase σ α ε → Prop
  | .loaded _ seen =>
      (plan seen.value = .settled → P seen.value) ∧
        ∀ action, plan seen.value = .commit action → good cell.value action
  | .planned _ _ action _ => good cell.value action
  | .built _ _ action _ _ next => good cell.value action ∧ P next
  | .done value => P value
  | _ => True

variable {good : σ → α → Prop}

/-- The steps of other writers. -/
theorem Aims.others (h : Aims plan good P cell phase)
    (hgood : ∀ action, good cell.value action → good cell'.value action) :
    Aims plan good P cell' phase := by
  cases phase with
  | loaded attempt seen => exact ⟨h.1, fun action hplan => hgood action (h.2 action hplan)⟩
  | planned attempt seen action tries => exact hgood action h
  | built attempt seen action tries base next => exact ⟨hgood action h.1, h.2⟩
  | done value => exact h
  | _ => trivial

theorem Steps.aims (h : client.Steps plan cell phase cell' phase')
    (haims : Aims plan good P cell phase)
    (hsettled : ∀ value, plan value = .settled → P value)
    (hplan : ∀ value action, plan value = .commit action → good value action)
    (hbuild : ∀ value action next, good value action → client.build action value = .ok next →
      P next) : Aims plan good P cell' phase' := by
  cases h with
  | load => exact ⟨hsettled _, hplan _⟩
  | settle heq => exact hsettled _ heq
  | plan hcommit => exact haims.2 _ hcommit
  | build hnext => exact ⟨haims, hbuild _ _ _ haims hnext⟩
  | land hversion => exact haims.2
  | again htries => exact haims.1
  | rest hover => exact haims
  | _ => trivial

/-- What a writer has seen, in an order in which every commit goes up. -/
def Follows (r : σ → σ → Prop) (value : σ) : Phase σ α ε → Prop
  | .loaded _ seen => r seen.value value
  | .planned _ seen _ _ => r seen.value value
  | .built _ seen _ _ _ _ => r seen.value value
  | _ => True

variable {r : σ → σ → Prop} {value value' : σ}

/-- The steps of other writers. -/
theorem Follows.others (h : Follows r value phase) (hup : ∀ seen, r seen value → r seen value') :
    Follows r value' phase := by
  cases phase with
  | loaded attempt seen => exact hup _ h
  | planned attempt seen action tries => exact hup _ h
  | built attempt seen action tries base next => exact hup _ h
  | _ => trivial

theorem Steps.follows (h : client.Steps plan cell phase cell' phase')
    (hrefl : r cell.value cell.value) (hfollows : Follows r cell.value phase) :
    Follows r cell'.value phase' := by
  cases h with
  | load => exact hrefl
  | plan hplan => exact hfollows
  | build hbuild => exact hfollows
  | again htries => exact hfollows
  | rest hover => exact hfollows
  | _ => trivial

/-! ## A whole commit -/

end Client

/-- What the others make of the cell before a step, and what the step is answered. -/
structure Turn (σ : Type) where
  others : Cell σ → Cell σ
  answer : Answer

namespace Client

variable (client : Client σ α ε) (plan : σ → Plan α ε)

def drive (turns : Nat → Turn σ) : Nat → Cell σ × Phase σ α ε → Cell σ × Phase σ α ε
  | 0, writer => writer
  | n + 1, writer =>
    drive turns n (client.advance plan (turns n).answer ((turns n).others writer.1) writer.2)

/-- The steps of an attempt: it loads and plans, and the library loads and commits in each try. -/
def attemptSteps : Nat := 2 * client.retries + 4

/-- How many steps a phase is from its end at most. -/
def stepsLeft : Phase σ α ε → Nat
  | .loading attempt => (client.attempts - attempt) * client.attemptSteps + client.attemptSteps
  | .loaded attempt _ =>
      (client.attempts - attempt) * client.attemptSteps + 2 * client.retries + 3
  | .planned attempt _ _ tries =>
      (client.attempts - attempt) * client.attemptSteps + 2 * (client.retries - tries) + 2
  | .built attempt _ _ tries _ _ =>
      (client.attempts - attempt) * client.attemptSteps + 2 * (client.retries - tries) + 1
  | .done _ => 0
  | .failed _ => 0

variable {client plan} {cell cell' : Cell σ} {phase phase' : Phase σ α ε}

theorem Steps.stepsLeft (h : client.Steps plan cell phase cell' phase') :
    client.stepsLeft phase' ≤ client.stepsLeft phase - 1 := by
  cases h with
  | load | plan hplan | build hbuild =>
    unfold Client.stepsLeft attemptSteps
    dsimp only
    omega
  | again htries =>
    unfold Client.stepsLeft
    dsimp only
    omega
  | @reload attempt seen base action tries next hattempt =>
    -- the next attempt has all its steps again
    obtain ⟨later, hlater⟩ : ∃ later, client.attempts - attempt = later + 1 :=
      Nat.exists_eq_add_one_of_ne_zero (Nat.sub_ne_zero_of_lt hattempt)
    have hnext : client.attempts - (attempt + 1) = later := by omega
    unfold Client.stepsLeft
    dsimp only
    rw [hnext, hlater, Nat.succ_mul]
    omega
  | rest hover =>
    cases phase with
    | done value | failed failure => exact Nat.zero_le _
    | _ => cases hover
  | _ => exact Nat.zero_le _

/-- A commit comes to an end. -/
theorem drive_ends (turns : Nat → Turn σ) {n : Nat} {writer : Cell σ × Phase σ α ε}
    (h : client.stepsLeft writer.2 ≤ n) :
    client.stepsLeft (client.drive plan turns n writer).2 = 0 := by
  induction n generalizing writer with
  | zero => exact Nat.le_zero.1 h
  | succ n ih =>
    apply ih
    have hstep := (client.advance_steps plan (turns n).answer ((turns n).others writer.1)
      writer.2).stepsLeft
    omega

/-- What the others and every step keep holds at the end. -/
theorem drive_invariant (turns : Nat → Turn σ) {I : Cell σ → Phase σ α ε → Prop}
    (hothers : ∀ n cell phase, I cell phase → I ((turns n).others cell) phase)
    (hstep : ∀ cell phase cell' phase', client.Steps plan cell phase cell' phase' →
      I cell phase → I cell' phase')
    (n : Nat) (writer : Cell σ × Phase σ α ε) (h : I writer.1 writer.2) :
    I (client.drive plan turns n writer).1 (client.drive plan turns n writer).2 := by
  induction n generalizing writer with
  | zero => exact h
  | succ n ih =>
    exact ih _ (hstep _ _ _ _ (client.advance_steps plan _ _ _) (hothers n _ _ h))

end Client

end Optimistic
