import Mathlib.Logic.Function.Basic
import RdltConnectors.Iceberg.Commit
import RdltConnectors.Iceberg.State
import RdltConnectors.Library.Transition

/-!
# Sessions over one catalog

Any number of sessions publish or replay units against the same tables. Each call to the
catalog is a step of its own: a session loads a table and plans, the library loads it again
and commits on what it finds, and after conflicts the session loads and plans again; the
reply to a commit that landed can be lost. A session can crash between any two of its
steps, and other writers append snapshots of their own.
-/
namespace Iceberg

open Optimistic

variable {R : Type}

structure CommitMeta where
  loadId : String
  commitSeq : Nat
  state : String
  deriving DecidableEq, Repr

/-- A stream table's window: the data files its writers closed. -/
abbrev Window (R : Type) := String × List (List R)

/-- The marker table: its properties, and the commits that made them, oldest first. -/
structure Marker where
  properties : Properties
  commits : List PropertyAction

/-- A property commit under way. -/
abbrev Stamping := Phase Marker PropertyAction String

/-- Where a session is in `publish` or `replay`. -/
inductive Stage (R : Type) where
  | converging (windows : List (Window R))
  | appending (table : String) (files : List (List R)) (rest : List (Window R))
      (phase : Appending R)
  /-- `write_state` loads the marker table -/
  | marking
  /-- there is none, and it creates one -/
  | creating
  /-- another created it first, and it loads that one -/
  | adopting
  | stamping (phase : Stamping)
  | returned
  | failed

structure Session (R : Type) where
  scope : String
  metadata : CommitMeta
  windows : List (Window R)
  stage : Stage R

structure World (R : Type) where
  tables : String → Cell (History R)
  marker : Option (Cell Marker)
  sessions : List (Session R)

def World.empty : World R := ⟨fun _ => ⟨[], 0⟩, none, []⟩

inductive Event (R : Type) where
  | publish (scope : String) (metadata : CommitMeta) (windows : List (Window R))
  | replay (scope : String) (metadata : CommitMeta) (windows : List (Window R))
  /-- the next step of a session, the clock it reads, and what it is told -/
  | step (index : Nat) (nowMs : Nat) (answer : Answer)
  | crash (index : Nat)
  /-- a snapshot that no load made -/
  | foreign (table : String) (snapshot : Snapshot R)

def Session.identity (session : Session R) : Identity :=
  ⟨session.scope, session.metadata.loadId, session.metadata.commitSeq⟩

/-- The property commit of `persist_state`, at the time its plan is made. -/
def Session.propertyCommit (session : Session R) (nowMs : Nat) : PropertyCommit :=
  ⟨session.scope, session.metadata.state, ⟨session.metadata.loadId, session.metadata.commitSeq⟩,
    nowMs⟩

/-- The plan of `write_state`; it always commits. -/
def writePlan (c : PropertyCommit) (marker : Marker) : Plan PropertyAction String :=
  .commit (c.action marker.properties)

/-- What a property commit makes of the marker it goes onto. -/
def Marker.stamped (marker : Marker) (action : PropertyAction) : Marker :=
  ⟨action.apply marker.properties, marker.commits ++ [action]⟩

/-- The library sets and removes the properties it is given, on whatever properties it finds. -/
def markerClient : Client Marker PropertyAction String :=
  ⟨commitAttempts, commitRetries, fun action marker => .ok (marker.stamped action)⟩

def Marker.created : Marker := ⟨∅, []⟩

def World.setStage (w : World R) (index : Nat) (stage : Stage R) : World R :=
  { w with sessions := w.sessions.modify index fun session => { session with stage := stage } }

def World.begin (w : World R) (scope : String) (metadata : CommitMeta)
    (windows : List (Window R)) : World R :=
  { w with sessions := w.sessions ++ [⟨scope, metadata, windows, .converging windows⟩] }

/-- One window of `converge_tables`: nothing to publish, already committed, or to append. -/
def Session.converge (session : Session R) (cell : Cell (History R)) (told : Told) (table : String)
    (files : List (List R)) (rest : List (Window R)) : Stage R :=
  if files.isEmpty then .converging rest
  else if told = .error then .failed
  else if loadCommitted cell.value session.metadata.loadId session.metadata.commitSeq then
    .converging rest
  else .appending table files rest (.loaded 1 cell)

/-- A data commit that has come to an end goes on to the next window. -/
def appended (table : String) (files : List (List R)) (rest : List (Window R)) :
    Appending R → Stage R
  | .done _ => .converging rest
  | .failed _ => .failed
  | phase => .appending table files rest phase

def stamped : Stamping → Stage R
  | .done _ => .returned
  | .failed _ => .failed
  | phase => .stamping phase

/-- The marker table loaded, or `absent` where there is none. -/
def loadMarker (marker : Option (Cell Marker)) (told : Told) (absent : Stage R) : Stage R :=
  if told = .error then .failed
  else
    match marker with
    | some cell => .stamping (.loaded 1 cell)
    | none => absent

/-- `create_table` of the marker: it can land and be reported as an error. -/
def World.createMarker (w : World R) (index : Nat) (answer : Answer) : World R :=
  match w.marker with
  | some _ => w.setStage index (if answer.told = .error then .failed else .adopting)
  | none =>
    if answer.told = .error then
      { w with marker := if answer.lands then some ⟨.created, 0⟩ else none }.setStage index .failed
    else
      { w with marker := some ⟨.created, 0⟩ }.setStage index (.stamping (.loaded 1 ⟨.created, 0⟩))

def World.append (w : World R) (index : Nat) (session : Session R) (answer : Answer) (table : String)
    (files : List (List R)) (rest : List (Window R)) (phase : Appending R) : World R :=
  let next := appendClient.advance (appendPlan session.identity files) answer (w.tables table) phase
  { w with tables := Function.update w.tables table next.1 }.setStage index
    (appended table files rest next.2)

def World.stamp (w : World R) (index : Nat) (session : Session R) (nowMs : Nat) (answer : Answer)
    (phase : Stamping) : World R :=
  match w.marker with
  | none => w.setStage index .failed
  | some cell =>
    let next := markerClient.advance (writePlan (session.propertyCommit nowMs)) answer cell phase
    { w with marker := some next.1 }.setStage index (stamped next.2)

/-- The next step of `converge_tables` and then of `persist_state`. -/
def World.advance (w : World R) (index : Nat) (session : Session R) (nowMs : Nat) (answer : Answer) :
    World R :=
  match session.stage with
  | .converging [] => w.setStage index .marking
  | .converging ((table, files) :: rest) =>
    w.setStage index (session.converge (w.tables table) answer.told table files rest)
  | .appending table files rest phase => w.append index session answer table files rest phase
  | .marking => w.setStage index (loadMarker w.marker answer.told .creating)
  | .creating => w.createMarker index answer
  | .adopting => w.setStage index (loadMarker w.marker answer.told .failed)
  | .stamping phase => w.stamp index session nowMs answer phase
  | .returned => w
  | .failed => w

/-- A session that has returned or failed does not crash any more. -/
def Stage.crashed : Stage R → Stage R
  | .returned => .returned
  | _ => .failed

def World.crash (w : World R) (index : Nat) : World R :=
  { w with sessions := w.sessions.modify index fun session =>
      { session with stage := session.stage.crashed } }

def World.appendForeign (w : World R) (table : String) (snapshot : Snapshot R) : World R :=
  if snapshot.summary.lookup propLoadId = none then
    let cell := w.tables table
    let next : Cell (History R) := ⟨cell.value ++ [snapshot], cell.version + 1⟩
    { w with tables := Function.update w.tables table next }
  else w

def World.act (w : World R) : Event R → World R
  | .publish scope metadata windows => w.begin scope metadata windows
  | .replay scope metadata windows => w.begin scope metadata windows
  | .step index nowMs answer =>
    match w.sessions[index]? with
    | some session => w.advance index session nowMs answer
    | none => w
  | .crash index => w.crash index
  | .foreign table snapshot => w.appendForeign table snapshot

structure CommitReceipt where
  loadId : String
  commitSeq : Nat
  deriving DecidableEq, Repr

/-- The receipt lookup: the recorded high water answers membership. -/
def World.existingReceipt (w : World R) (ident loadId : String) (commitSeq : Nat) :
    Except String (Option CommitReceipt) :=
  (readReceipt ident (w.marker.map fun cell => cell.value.properties) loadId).map fun
    | some highWater => if commitSeq ≤ highWater then some ⟨loadId, commitSeq⟩ else none
    | none => none

/-! ## What a step can do -/

/-- The steps of one session: what becomes of the tables, the marker and its stage. -/
inductive Session.Steps (session : Session R) (nowMs : Nat)
    (tables : String → Cell (History R)) (marker : Option (Cell Marker)) :
    (String → Cell (History R)) → Option (Cell Marker) → Stage R → Prop where
  | converged : session.stage = .converging [] →
      session.Steps nowMs tables marker tables marker .marking
  | nothing {table : String} {rest : List (Window R)} :
      session.stage = .converging ((table, []) :: rest) →
      session.Steps nowMs tables marker tables marker (.converging rest)
  | already {table : String} {files : List (List R)} {rest : List (Window R)} :
      session.stage = .converging ((table, files) :: rest) → files.isEmpty = false →
      loadCommitted (tables table).value session.metadata.loadId session.metadata.commitSeq = true →
      session.Steps nowMs tables marker tables marker (.converging rest)
  | fresh {table : String} {files : List (List R)} {rest : List (Window R)} :
      session.stage = .converging ((table, files) :: rest) → files.isEmpty = false →
      loadCommitted (tables table).value session.metadata.loadId session.metadata.commitSeq = false →
      session.Steps nowMs tables marker tables marker
        (.appending table files rest (.loaded 1 (tables table)))
  | append {table : String} {files : List (List R)} {rest : List (Window R)}
      {phase phase' : Appending R} {cell' : Cell (History R)} :
      session.stage = .appending table files rest phase →
      appendClient.Steps (appendPlan session.identity files) (tables table) phase cell' phase' →
      session.Steps nowMs tables marker (Function.update tables table cell') marker
        (appended table files rest phase')
  | marked {cell : Cell Marker} : session.stage = .marking ∨ session.stage = .adopting →
      marker = some cell →
      session.Steps nowMs tables marker tables marker (.stamping (.loaded 1 cell))
  | absent : session.stage = .marking →
      session.Steps nowMs tables marker tables marker .creating
  | outrun : session.stage = .creating →
      session.Steps nowMs tables marker tables marker .adopting
  | created : session.stage = .creating → marker = none →
      session.Steps nowMs tables marker tables (some ⟨.created, 0⟩)
        (.stamping (.loaded 1 ⟨.created, 0⟩))
  | lost : session.stage = .creating → marker = none →
      session.Steps nowMs tables marker tables (some ⟨.created, 0⟩) .failed
  | stamp {phase phase' : Stamping} {cell cell' : Cell Marker} :
      session.stage = .stamping phase → marker = some cell →
      markerClient.Steps (writePlan (session.propertyCommit nowMs)) cell phase cell' phase' →
      session.Steps nowMs tables marker tables (some cell') (stamped phase')
  | failing : session.Steps nowMs tables marker tables marker .failed
  | idle : session.Steps nowMs tables marker tables marker session.stage

variable {w : World R} {index nowMs : Nat} {session : Session R} {answer : Answer}

theorem converge_steps {table : String} {files : List (List R)} {rest : List (Window R)}
    (hstage : session.stage = .converging ((table, files) :: rest)) :
    session.Steps nowMs w.tables w.marker w.tables w.marker
      (session.converge (w.tables table) answer.told table files rest) := by
  unfold Session.converge
  split
  · next hempty =>
    obtain rfl := List.isEmpty_iff.1 hempty
    exact .nothing hstage
  · next hfiles =>
    have hnonempty := Bool.eq_false_iff.2 hfiles
    split
    · exact .failing
    · split
      · next hdone => exact .already hstage hnonempty hdone
      · next hdone => exact .fresh hstage hnonempty (Bool.eq_false_iff.2 hdone)

theorem loadMarker_steps {absent : Stage R}
    (hstage : session.stage = .marking ∨ session.stage = .adopting)
    (habsent : session.Steps nowMs w.tables w.marker w.tables w.marker absent) :
    session.Steps nowMs w.tables w.marker w.tables w.marker
      (loadMarker w.marker answer.told absent) := by
  unfold loadMarker
  split
  · exact .failing
  · split
    · next cell hcell => exact .marked hstage hcell
    · exact habsent

theorem createMarker_steps (hstage : session.stage = .creating) :
    ∃ tables marker stage, session.Steps nowMs w.tables w.marker tables marker stage ∧
      w.createMarker index answer =
        World.setStage { w with tables := tables, marker := marker } index stage := by
  obtain ⟨tables, marker, sessions⟩ := w
  cases marker with
  | some cell =>
    by_cases htold : answer.told = .error
    · exact ⟨_, _, _, .failing, congrArg (World.setStage _ index) (if_pos htold)⟩
    · exact ⟨_, _, _, .outrun hstage, congrArg (World.setStage _ index) (if_neg htold)⟩
  | none =>
    unfold World.createMarker
    dsimp only
    split
    · split
      · exact ⟨_, _, _, .lost hstage rfl, rfl⟩
      · exact ⟨_, _, _, .failing, rfl⟩
    · exact ⟨_, _, _, .created hstage rfl, rfl⟩

theorem stamp_steps {phase : Stamping} (hstage : session.stage = .stamping phase) :
    ∃ tables marker stage, session.Steps nowMs w.tables w.marker tables marker stage ∧
      w.stamp index session nowMs answer phase =
        World.setStage { w with tables := tables, marker := marker } index stage := by
  obtain ⟨tables, marker, sessions⟩ := w
  cases marker with
  | none => exact ⟨_, _, _, .failing, rfl⟩
  | some cell => exact ⟨_, _, _, .stamp hstage rfl (markerClient.advance_steps _ answer cell phase), rfl⟩

/-- A session of a list changed at one index is the one changed, or was there. -/
theorem modify_cases {sessions : List (Session R)} {change : Session R → Session R} {j : Nat}
    {session' : Session R} (h : (sessions.modify index change)[j]? = some session') :
    (j = index ∧ ∃ session, sessions[index]? = some session ∧ session' = change session) ∨
      j ≠ index ∧ sessions[j]? = some session' := by
  rw [List.getElem?_modify] at h
  by_cases hj : index = j
  · subst hj
    cases hbefore : sessions[index]? with
    | none =>
      rw [hbefore] at h
      cases h
    | some session =>
      rw [hbefore] at h
      exact .inl ⟨rfl, session, rfl, by simpa using h.symm⟩
  · exact .inr ⟨Ne.symm hj, by simpa [hj] using h⟩

/-- A step is one of those, and touches no other session. -/
theorem advance_steps (nowMs : Nat) (answer : Answer)
    (hsession : w.sessions[index]? = some session) :
    ∃ tables marker stage, session.Steps nowMs w.tables w.marker tables marker stage ∧
      w.advance index session nowMs answer =
        World.setStage { w with tables := tables, marker := marker } index stage := by
  have hidle : w = World.setStage { w with tables := w.tables, marker := w.marker } index
      session.stage := by
    have hmodify : w.sessions.modify index
        (fun other => { other with stage := session.stage }) = w.sessions := by
      apply List.ext_getElem?
      intro j
      rw [List.getElem?_modify]
      by_cases hj : index = j
      · subst hj
        rw [hsession]
        simp
      · simp [hj]
    rw [World.setStage, hmodify]
  unfold World.advance
  split
  · next hstage => exact ⟨_, _, _, .converged hstage, rfl⟩
  · next hstage => exact ⟨_, _, _, converge_steps hstage, rfl⟩
  · next hstage => exact ⟨_, _, _, .append hstage (appendClient.advance_steps _ answer _ _), rfl⟩
  · next hstage => exact ⟨_, _, _, loadMarker_steps (.inl hstage) (.absent hstage), rfl⟩
  · next hstage => exact createMarker_steps hstage
  · next hstage => exact ⟨_, _, _, loadMarker_steps (.inr hstage) .failing, rfl⟩
  · next hstage => exact stamp_steps hstage
  · exact ⟨_, _, _, .idle, hidle⟩
  · exact ⟨_, _, _, .idle, hidle⟩

/-- A crash ends a session, unless it has returned. -/
theorem crashed_cases (stage : Stage R) :
    stage = .returned ∧ stage.crashed = .returned ∨ stage.crashed = .failed := by
  cases stage with
  | returned => exact .inl ⟨rfl, rfl⟩
  | _ => exact .inr rfl

theorem crashed_ne_appending (stage : Stage R) (table : String) (files : List (List R))
    (rest : List (Window R)) (phase : Appending R) :
    stage.crashed ≠ .appending table files rest phase := by
  obtain ⟨-, heq⟩ | heq := crashed_cases stage
  · rw [heq]
    exact nofun
  · rw [heq]
    exact nofun

theorem crashed_ne_stamping (stage : Stage R) (phase : Stamping) :
    stage.crashed ≠ .stamping phase := by
  obtain ⟨-, heq⟩ | heq := crashed_cases stage
  · rw [heq]
    exact nofun
  · rw [heq]
    exact nofun

theorem appended_ne_stamping (table : String) (files : List (List R)) (rest : List (Window R))
    (phase : Appending R) (phase' : Stamping) :
    appended table files rest phase ≠ .stamping phase' := by
  cases phase with
  | _ => exact nofun

/-! ## Invariants of a catalog and its sessions -/

section Invariant

variable (C : (String → Cell (History R)) → Option (Cell Marker) → Prop)
  (S : (String → Cell (History R)) → Option (Cell Marker) → Session R → Prop)

/-- What holds of the catalog, and of every session against it. -/
def World.Holds (w : World R) : Prop :=
  C w.tables w.marker ∧ ∀ (j : Nat) (session : Session R), w.sessions[j]? = some session →
    S w.tables w.marker session

variable {C S}

theorem holds_setStage {tables : String → Cell (History R)} {marker : Option (Cell Marker)}
    {stage : Stage R} (hcatalog : C tables marker) (hsession : w.sessions[index]? = some session)
    (hnext : S tables marker { session with stage := stage })
    (hothers : ∀ (j : Nat) (other : Session R), j ≠ index → w.sessions[j]? = some other →
      S tables marker other) :
    (World.setStage { w with tables := tables, marker := marker } index stage).Holds C S := by
  refine ⟨hcatalog, fun j other hother => ?_⟩
  obtain ⟨rfl, before, hbefore, rfl⟩ | ⟨hj, hother⟩ := modify_cases hother
  · obtain rfl := Option.some.inj (hbefore.symm.trans hsession)
    exact hnext
  · exact hothers j other hj hother

/-- What is asked of an event: a session begins well, a step keeps what holds of the catalog, of the
session and of the others, a crash keeps what holds of a session, and so does a foreign snapshot. -/
theorem holds_act {event : Event R} (h : w.Holds C S)
    (hbegin : ∀ scope metadata windows,
      event = .publish scope metadata windows ∨ event = .replay scope metadata windows →
      S w.tables w.marker ⟨scope, metadata, windows, .converging windows⟩)
    (hstep : ∀ index nowMs answer session tables marker stage, event = .step index nowMs answer →
      w.sessions[index]? = some session →
      session.Steps nowMs w.tables w.marker tables marker stage →
      C tables marker ∧ S tables marker { session with stage := stage } ∧
        ∀ (j : Nat) (other : Session R), j ≠ index → w.sessions[j]? = some other →
          S tables marker other)
    (hcrash : ∀ session : Session R, S w.tables w.marker session →
      S w.tables w.marker { session with stage := session.stage.crashed })
    (hforeign : ∀ table snapshot, snapshot.summary.lookup propLoadId = none →
      (w.appendForeign table snapshot).Holds C S) :
    (w.act event).Holds C S := by
  have hnew : ∀ session : Session R, S w.tables w.marker session →
      World.Holds C S { w with sessions := w.sessions ++ [session] } := by
    intro session hsession
    refine ⟨h.1, fun j other hother => ?_⟩
    rw [List.getElem?_append] at hother
    split at hother
    · exact h.2 j other hother
    · obtain rfl := List.mem_singleton.1 (List.mem_of_getElem? hother)
      exact hsession
  cases event with
  | publish scope metadata windows => exact hnew _ (hbegin scope metadata windows (.inl rfl))
  | replay scope metadata windows => exact hnew _ (hbegin scope metadata windows (.inr rfl))
  | step index nowMs answer =>
    unfold World.act
    dsimp only
    split
    · next session hsession =>
      obtain ⟨tables, marker, stage, hsteps, heq⟩ :=
        advance_steps nowMs answer hsession
      obtain ⟨hcatalog, hnext, hothers⟩ :=
        hstep index nowMs answer session tables marker stage rfl hsession hsteps
      rw [heq]
      exact holds_setStage hcatalog hsession hnext hothers
    · exact h
  | crash index =>
    refine ⟨h.1, fun j other hother => ?_⟩
    obtain ⟨-, session, hbefore, rfl⟩ | ⟨-, hother⟩ := modify_cases hother
    · exact hcrash session (h.2 index session hbefore)
    · exact h.2 j other hother
  | foreign table snapshot =>
    by_cases hload : snapshot.summary.lookup propLoadId = none
    · exact hforeign table snapshot hload
    · change (w.appendForeign table snapshot).Holds C S
      rw [World.appendForeign, if_neg hload]
      exact h

end Invariant

/-! ## Data commits are made on what they replace -/

/-- The plans of a data commit vary with nothing but the history. -/
def Session.Tracking (tables : String → Cell (History R)) (session : Session R) : Prop :=
  ∀ table files rest phase, session.stage = .appending table files rest phase →
    appendClient.Tracks (fun _ : Unit => appendPlan session.identity files) (tables table) phase

theorem Session.Tracking.crashed {tables : String → Cell (History R)} (session : Session R) :
    ({ session with stage := session.stage.crashed } : Session R).Tracking tables :=
  fun table files rest phase hstage =>
    absurd hstage (crashed_ne_appending session.stage table files rest phase)

theorem Session.Tracking.changes {tables tables' : String → Cell (History R)}
    (h : session.Tracking tables) (hchanges : ∀ table, Changes (tables table) (tables' table)) :
    session.Tracking tables' :=
  fun table files rest phase hstage => (h table files rest phase hstage).changes (hchanges table)

/-- A phase that goes on is the phase the session is in. -/
theorem appended_eq {table table' : String} {files files' : List (List R)}
    {rest rest' : List (Window R)} {phase phase' : Appending R}
    (h : appended table files rest phase = .appending table' files' rest' phase') :
    table = table' ∧ files = files' ∧ rest = rest' ∧ phase = phase' := by
  cases phase with
  | done value => cases h
  | failed failure => cases h
  | _ =>
    cases h
    exact ⟨rfl, rfl, rfl, rfl⟩

variable {tables tables' : String → Cell (History R)} {marker marker' : Option (Cell Marker)}
  {stage : Stage R}

/-- Every step changes a table by a new version, if it changes it. -/
theorem Session.Steps.changes (h : session.Steps nowMs tables marker tables' marker' stage)
    (table : String) :
    Changes (tables table) (tables' table) := by
  cases h with
  | @append changed files rest phase phase' cell' hstage hsteps =>
    by_cases htable : table = changed
    · subst htable
      rw [Function.update_self]
      exact hsteps.changes
    · rw [Function.update_of_ne htable]
      exact .inl rfl
  | _ => exact .inl rfl

theorem Session.Steps.tracking (h : session.Steps nowMs tables marker tables' marker' stage)
    (htracking : session.Tracking tables) :
    ({ session with stage := stage } : Session R).Tracking tables' := by
  intro table files rest phase hnext
  cases h with
  | fresh hstage hfiles hnot =>
    cases hnext
    trivial
  | append hstage hsteps =>
    obtain ⟨rfl, rfl, rfl, rfl⟩ := appended_eq hnext
    rw [Function.update_self]
    exact hsteps.tracks (t := ()) (htracking _ _ _ _ hstage)
  | stamp hstage hcell hsteps =>
    dsimp only at hnext
    unfold stamped at hnext
    split at hnext
    · cases hnext
    · cases hnext
    · cases hnext
  | idle => exact htracking table files rest phase hnext
  | _ => cases hnext

/-- A step leaves a table alone, or appends the session's snapshot to the history the library loaded
last. It was planned on a history without the session's identity. -/
theorem Session.Steps.table (h : session.Steps nowMs tables marker tables' marker' stage)
    (htracking : session.Tracking tables) (table : String) :
    tables' table = tables table ∨
      ∃ files rest attempt seen tries next,
        session.stage = .appending table files rest
          (.built attempt seen ⟨session.identity.summaryProps, files⟩ tries (tables table) next) ∧
        session.identity.alreadyCommitted seen.value = false ∧
        (tables' table).value =
          (tables table).value ++ [⟨session.identity.summaryProps, files⟩] := by
  cases h with
  | @append changed files rest phase phase' cell' hstage hsteps =>
    by_cases htable : table = changed
    · subst htable
      rw [Function.update_self]
      obtain heq | ⟨attempt, seen, snapshot, tries, next, _, rfl, hplan, hbuild, rfl, -⟩ :=
        hsteps.lands (htracking table files rest phase hstage)
      · exact .inl heq
      · obtain ⟨hnot, rfl⟩ := appendPlan_commit hplan
        obtain rfl := Except.ok.inj hbuild
        exact .inr ⟨files, rest, attempt, seen, tries, _, hstage, hnot, rfl⟩
    · rw [Function.update_of_ne htable]
      exact .inl rfl
  | _ => exact .inl rfl

/-! ## A snapshot no load made -/

theorem appendForeign_table (w : World R) (changed : String) (snapshot : Snapshot R)
    (table : String) :
    Changes (w.tables table) ((w.appendForeign changed snapshot).tables table) ∧
      ((w.appendForeign changed snapshot).tables table = w.tables table ∨
        snapshot.summary.lookup propLoadId = none ∧
          ((w.appendForeign changed snapshot).tables table).value =
            (w.tables table).value ++ [snapshot]) := by
  unfold World.appendForeign
  split
  · next hload =>
    by_cases htable : table = changed
    · subst htable
      dsimp only
      rw [Function.update_self]
      exact ⟨.inr rfl, .inr ⟨hload, rfl⟩⟩
    · dsimp only
      rw [Function.update_of_ne htable]
      exact ⟨.inl rfl, .inl rfl⟩
  · exact ⟨.inl rfl, .inl rfl⟩

theorem appendForeign_rest (w : World R) (changed : String) (snapshot : Snapshot R) :
    (w.appendForeign changed snapshot).marker = w.marker ∧
      (w.appendForeign changed snapshot).sessions = w.sessions := by
  unfold World.appendForeign
  split
  · exact ⟨rfl, rfl⟩
  · exact ⟨rfl, rfl⟩

theorem carries_foreign {snapshot : Snapshot R} (h : snapshot.summary.lookup propLoadId = none)
    (loadId : String) (commitSeq : Nat) : snapshot.carries loadId commitSeq = false := by
  rw [Snapshot.carries, h]
  rfl

/-! ## Property commits are planned on the marker they replace -/

/-- The marker table as a session finds or creates it. -/
def markerValue (marker : Option (Cell Marker)) : Marker :=
  (marker.map fun cell => cell.value).getD .created

/-- Of what a session has seen of the marker and would make of it, and of its action, as planned on
what it has seen. -/
def Session.StampHolds (P : Marker → Prop) (A : Marker → PropertyAction → Prop)
    (session : Session R) : Prop :=
  ∀ phase, session.stage = .stamping phase → Client.Holds P A phase

theorem stamped_eq {phase phase' : Stamping} (h : (stamped phase : Stage R) = .stamping phase') :
    phase = phase' := by
  cases phase with
  | done value => cases h
  | failed failure => cases h
  | _ =>
    cases h
    rfl

variable {P : Marker → Prop} {A : Marker → PropertyAction → Prop}

theorem Session.StampHolds.crashed (session : Session R) :
    ({ session with stage := session.stage.crashed } : Session R).StampHolds P A :=
  fun phase hstage => absurd hstage (crashed_ne_stamping session.stage phase)

/-- What the action planned in this step, or built in it, keeps holds of the marker and of the
session. -/
theorem Session.Steps.markerHolds
    (h : session.Steps nowMs tables marker tables' marker' stage)
    (hmarker : P (markerValue marker)) (hsession : session.StampHolds P A)
    (hplan : ∀ attempt seen, session.stage = .stamping (.loaded attempt seen) → P seen.value →
      A seen.value ((session.propertyCommit nowMs).action seen.value.properties))
    (hbuild : ∀ attempt seen action tries cell, session.stage =
        .stamping (.planned attempt seen action tries) → marker = some cell → P cell.value →
      P seen.value → A seen.value action → P (cell.value.stamped action)) :
    P (markerValue marker') ∧ ({ session with stage := stage } : Session R).StampHolds P A := by
  cases h with
  | marked hstage hcell =>
    subst hcell
    refine ⟨hmarker, fun phase heq => ?_⟩
    cases heq
    exact hmarker
  | created hstage hnone =>
    subst hnone
    refine ⟨hmarker, fun phase heq => ?_⟩
    cases heq
    exact hmarker
  | lost hstage hnone =>
    subst hnone
    exact ⟨hmarker, fun phase heq => nomatch heq⟩
  | @stamp phase phase' cell cell' hstage hcell hsteps =>
    have hholds := hsession phase hstage
    subst hcell
    have hvalue : P cell.value := hmarker
    have hplanned : ∀ attempt seen action, phase = .loaded attempt seen →
        writePlan (session.propertyCommit nowMs) seen.value = .commit action →
        A seen.value action := by
      rintro attempt seen action rfl hcommit
      cases hcommit
      exact hplan attempt seen hstage hholds
    have hbuilt : ∀ attempt seen action tries next, phase = .planned attempt seen action tries →
        markerClient.build action cell.value = .ok next → P next := by
      rintro attempt seen action tries next rfl hnext
      cases hnext
      exact hbuild attempt seen action tries cell hstage rfl hvalue hholds.1 hholds.2
    obtain ⟨hnext, hphase⟩ := hsteps.holds hvalue hholds hplanned hbuilt
    exact ⟨hnext, fun phase' heq => stamped_eq heq ▸ hphase⟩
  | append hstage hsteps =>
    exact ⟨hmarker, fun phase heq => absurd heq (appended_ne_stamping _ _ _ _ phase)⟩
  | idle => exact ⟨hmarker, fun phase heq => hsession phase heq⟩
  | _ => exact ⟨hmarker, fun phase heq => nomatch heq⟩

/-- One marker comes before another: its commits are the first of the other's. -/
def Marker.Before (marker marker' : Marker) : Prop := marker.commits <+: marker'.commits

/-- A session stamps the marker that is there, and what it has seen of it comes before that. -/
def Session.Following (marker : Option (Cell Marker)) (session : Session R) : Prop :=
  ∀ phase, session.stage = .stamping phase → ∃ cell, marker = some cell ∧
    markerClient.Tracks (fun nowMs => writePlan (session.propertyCommit nowMs)) cell phase ∧
      Client.Follows Marker.Before cell.value phase

theorem Session.Following.crashed (session : Session R) :
    ({ session with stage := session.stage.crashed } : Session R).Following marker :=
  fun phase hstage => absurd hstage (crashed_ne_stamping session.stage phase)

/-- A step leaves the marker alone, creates it, or adds a commit to it. -/
theorem Session.Steps.grows (h : session.Steps nowMs tables marker tables' marker' stage)
    (hfollowing : session.Following marker) {cell : Cell Marker} (hcell : marker = some cell) :
    ∃ cell', marker' = some cell' ∧ Changes cell cell' ∧ cell.value.Before cell'.value := by
  have hsame : ∃ cell', some cell = some cell' ∧ Changes cell cell' ∧
      cell.value.Before cell'.value := ⟨cell, rfl, .inl rfl, List.prefix_rfl⟩
  subst hcell
  cases h with
  | @stamp phase phase' _ cell' hstage hcell hsteps =>
    obtain ⟨present, hpresent, htracks, -⟩ := hfollowing phase hstage
    obtain rfl := Option.some.inj hpresent
    obtain rfl := Option.some.inj hcell
    obtain rfl | ⟨_, _, action, _, next, _, -, -, hbuild, rfl, -⟩ := hsteps.lands htracks
    · exact hsame
    · obtain rfl := Except.ok.inj hbuild
      exact ⟨_, rfl, .inr rfl, List.prefix_append _ _⟩
  | created hstage hnone => cases hnone
  | lost hstage hnone => cases hnone
  | _ => exact hsame

theorem Session.Following.others (h : session.Following marker) {other : Session R}
    (hother : other.Following marker)
    (hsteps : session.Steps nowMs tables marker tables' marker' stage) :
    other.Following marker' := by
  intro phase hstage
  obtain ⟨cell, hcell, htracks, hfollows⟩ := hother phase hstage
  obtain ⟨cell', hcell', hchanges, hbefore⟩ := hsteps.grows h hcell
  exact ⟨cell', hcell', htracks.changes hchanges,
    hfollows.others fun _ hseen => List.IsPrefix.trans hseen hbefore⟩

theorem Session.Steps.following (h : session.Steps nowMs tables marker tables' marker' stage)
    (hfollowing : session.Following marker) :
    ({ session with stage := stage } : Session R).Following marker' := by
  intro phase hnext
  cases h with
  | @marked cell hstage hcell =>
    cases hnext
    exact ⟨cell, hcell, trivial, List.prefix_rfl⟩
  | created hstage hnone =>
    cases hnext
    exact ⟨_, rfl, trivial, List.prefix_rfl⟩
  | @stamp phase' phase'' cell cell' hstage hcell hsteps =>
    obtain ⟨present, hpresent, htracks, hfollows⟩ := hfollowing phase' hstage
    subst hcell
    obtain rfl := Option.some.inj hpresent
    obtain rfl := stamped_eq hnext
    exact ⟨cell', rfl, hsteps.tracks (t := nowMs) htracks, hsteps.follows List.prefix_rfl hfollows⟩
  | append hstage hsteps => exact absurd hnext (appended_ne_stamping _ _ _ _ phase)
  | idle => exact hfollowing phase hnext
  | _ => cases hnext

/-- What every stamp keeps holds of the marker in every run. -/
theorem marker_invariant {P : Marker → Prop}
    {A : String → CommitMeta → Marker → PropertyAction → Prop} {T : String → CommitMeta → Prop}
    {ok : World R → Event R → Prop} {events : List (Event R)} (hsessions : w.sessions = [])
    (hmarker : P (markerValue w.marker))
    (hbegin : ∀ w scope metadata windows,
      ok w (.publish scope metadata windows) ∨ ok w (.replay scope metadata windows) →
        T scope metadata)
    (hplan : ∀ w index nowMs answer (session : Session R) attempt seen,
      ok w (.step index nowMs answer) → w.sessions[index]? = some session →
      T session.scope session.metadata → session.stage = .stamping (.loaded attempt seen) →
      P seen.value → A session.scope session.metadata seen.value
        ((session.propertyCommit nowMs).action seen.value.properties))
    (hbuild : ∀ w index nowMs answer (session : Session R) attempt seen action tries cell,
      ok w (.step index nowMs answer) → w.sessions[index]? = some session →
      T session.scope session.metadata →
      session.stage = .stamping (.planned attempt seen action tries) → w.marker = some cell →
      seen.value.Before cell.value → P cell.value → P seen.value →
      A session.scope session.metadata seen.value action → P (cell.value.stamped action))
    (h : Transition.Meets World.act ok w events) :
    P (markerValue (Transition.run World.act w events).marker) := by
  let C := fun (_ : String → Cell (History R)) (marker : Option (Cell Marker)) =>
    P (markerValue marker)
  let S := fun (_ : String → Cell (History R)) (marker : Option (Cell Marker))
      (session : Session R) =>
    T session.scope session.metadata ∧ session.Following marker ∧
      session.StampHolds P (A session.scope session.metadata)
  have hstart : w.Holds C S := by
    refine ⟨hmarker, fun j session hsession => ?_⟩
    rw [hsessions] at hsession
    cases hsession
  refine (Transition.run_invariant (I := World.Holds C S) (fun w event hw hok => ?_) hstart h).1
  apply holds_act hw
  · rintro scope metadata windows (rfl | rfl)
    · exact ⟨hbegin w scope metadata windows (.inl hok), nofun, nofun⟩
    · exact ⟨hbegin w scope metadata windows (.inr hok), nofun, nofun⟩
  · rintro index nowMs answer session tables marker stage rfl hsession hsteps
    obtain ⟨hT, hfollowing, hstamp⟩ := hw.2 index session hsession
    have hbuilt : ∀ attempt seen action tries cell, session.stage =
        .stamping (.planned attempt seen action tries) → w.marker = some cell → P cell.value →
        P seen.value → A session.scope session.metadata seen.value action →
        P (cell.value.stamped action) := by
      intro attempt seen action tries cell hstage hcell
      obtain ⟨present, hpresent, -, hfollows⟩ := hfollowing _ hstage
      obtain rfl := Option.some.inj (hpresent.symm.trans hcell)
      exact hbuild w index nowMs answer session attempt seen action tries present hok hsession hT
        hstage hcell hfollows
    obtain ⟨hmarker', hsession'⟩ := hsteps.markerHolds hw.1 hstamp
      (fun attempt seen => hplan w index nowMs answer session attempt seen hok hsession hT) hbuilt
    refine ⟨hmarker', ⟨hT, hsteps.following hfollowing, hsession'⟩, fun j other _ hother => ?_⟩
    obtain ⟨hT', hfollowing', hstamp'⟩ := hw.2 j other hother
    exact ⟨hT', hfollowing.others hfollowing' hsteps, hstamp'⟩
  · intro session hsession
    exact ⟨hsession.1, .crashed session, .crashed session⟩
  · intro changed snapshot _
    obtain ⟨hsame, hrest⟩ := appendForeign_rest w changed snapshot
    rw [World.Holds, hsame, hrest]
    exact hw

end Iceberg
