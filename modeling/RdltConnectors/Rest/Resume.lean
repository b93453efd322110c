import Mathlib.Data.List.Perm.Subperm
import RdltConnectors.Library.Transition
import RdltConnectors.Rest.Cursor

/-!
# Resuming an incremental stream

A parentless stream feeds its pages one by one and emits a checkpoint with the highest
cursor after each that is not empty. The host commits the checkpoints in order, each with
the batches in front of it, and the next run asks for the records after the committed
one. The server cuts its answer into pages as it likes.
-/
namespace Rest

open Highest Transition

structure Incremental where
  cursorField : String
  startParam : Option String
  endParam : Option String
  endValue : Option String
  initialValue : Option String
  deriving DecidableEq, Repr

/-- What is merged into every request of the sequence. -/
def bindIncremental (incremental : Incremental) (startValue : Option String) :
    List (String × String) :=
  (match incremental.startParam, startValue with
    | some param, some value => [(param, value)]
    | _, _ => []) ++
  (match incremental.endParam, incremental.endValue with
    | some param, some value => [(param, value)]
    | _, _ => [])

/-- A batch fed to the host, and the checkpoint behind it where there is one. -/
structure Emission where
  batch : List Value
  checkpoint : Option String

structure Reading where
  /-- what the server has still to answer the sequence -/
  pages : List (List Value)
  maxCursor : Option String
  /-- what the host has not committed -/
  emitted : List Emission

/-- One turn of the loop in `deliver_sequence`. -/
def Reading.deliverPage (incremental : Incremental) (reading : Reading) : Reading :=
  match reading.pages with
  | [] => reading
  | page :: rest =>
    if page.isEmpty then { reading with pages := rest }
    else
      let maxCursor := observe page incremental.cursorField reading.maxCursor
      ⟨rest, maxCursor, reading.emitted ++ [⟨page, maxCursor⟩]⟩

/-- The batches up to the first checkpoint, its cursor, and what was emitted after it. -/
def takeCheckpoint : List Emission → Option (List (List Value) × String × List Emission)
  | [] => none
  | ⟨batch, some cursor⟩ :: rest => some ([batch], cursor, rest)
  | ⟨batch, none⟩ :: rest =>
    (takeCheckpoint rest).map fun taken => (batch :: taken.1, taken.2)

structure World where
  /-- the cursor of the last committed checkpoint -/
  durable : Option String
  committed : List (List Value)
  run : Option Reading

def World.initial : World := ⟨none, [], none⟩

/-- The resume point of a run that starts now, and where its highest cursor starts. -/
def World.seed (incremental : Incremental) (w : World) : Option String :=
  w.durable.or incremental.initialValue

inductive Act where
  /-- a run begins; the pages are what the server will answer it -/
  | start (pages : List (List Value))
  | page
  | commit
  /-- the run ends here, crashed, cancelled or read to its end -/
  | stop

def World.commit (w : World) (reading : Reading) : World :=
  match takeCheckpoint reading.emitted with
  | none => w
  | some (batches, cursor, rest) =>
    ⟨some cursor, w.committed ++ batches, some { reading with emitted := rest }⟩

def step (incremental : Incremental) (w : World) : Act → World
  | .start pages =>
    match w.run with
    | some _ => w
    | none => { w with run := some ⟨pages, w.seed incremental, []⟩ }
  | .page =>
    match w.run with
    | none => w
    | some reading => { w with run := some (reading.deliverPage incremental) }
  | .commit =>
    match w.run with
    | none => w
    | some reading => w.commit reading
  | .stop => { w with run := none }

/-! ## The server -/

/-- The records within the window of the fixed parameters, each with its cursor. -/
structure Api (field : String) where
  records : List Value
  keyed : ∀ record ∈ records, (cursorOf field record).isSome

/-- The value under the start parameter of a request. -/
def asked (incremental : Incremental) (startValue : Option String) : Option String :=
  incremental.startParam.bind fun param => (bindIncremental incremental startValue).lookup param

/-- Strictly after the bound; after no bound at all is everything. -/
def after (field : String) (bound : Option String) (record : Value) : Bool :=
  match bound, cursorOf field record with
  | none, _ => true
  | some b, some c => b < c
  | some _, none => false

structure Api.Answers {field : String} (api : Api field) (bound : Option String)
    (answer : List Value) : Prop where
  exact : answer.Perm (api.records.filter (after field bound))
  sorted : (cursorsOf field answer).Pairwise (· ≤ ·)

section Server

variable {incremental : Incremental} (api : Api incremental.cursorField)

/-- The records that a first run asks for. -/
def Api.scope : List Value :=
  api.records.filter (after incremental.cursorField (asked incremental incremental.initialValue))

/-- All that no run resumed from `since` asks for is among the batches. -/
def Behind (since : Option String) (batches : List (List Value)) : Prop :=
  (api.scope.filter fun record =>
    !after incremental.cursorField (asked incremental (since.or incremental.initialValue))
      record).Subperm batches.flatten

/-- A run that starts is answered as its request asks. -/
def Serves (w : World) : Act → Prop
  | .start pages => api.Answers (asked incremental (w.seed incremental)) pages.flatten
  | _ => True

end Server

/-- What the run under way has been or will be answered and the host has not committed. -/
def Reading.unread (reading : Reading) : List Value :=
  (reading.emitted.map (·.batch)).flatten ++ reading.pages.flatten

/-- No run stops with the records of the committed cursor split: some of them committed
with it and some not. -/
def Unsplit (incremental : Incremental) (w : World) : Act → Prop
  | .stop => incremental.startParam.isSome → ∀ reading, w.run = some reading →
      ∀ record ∈ reading.unread, cursorOf incremental.cursorField record ≠ w.durable
  | _ => True

/-- What no later run will ask for is committed, and everything is once a run is read to
its end and committed. -/
structure Delivered {incremental : Incremental} (api : Api incremental.cursorField)
    (w : World) : Prop where
  behind : w.run = none → Behind api w.durable w.committed
  complete : ∀ reading, w.run = some reading → reading.unread = [] →
    api.scope.Subperm w.committed.flatten

/-! ## What is asked for -/

section Asked

variable {incremental : Incremental}

theorem asked_unbound (h : incremental.startParam = none) (startValue : Option String) :
    asked incremental startValue = none := by simp [asked, h]

theorem asked_some {param : String} (h : incremental.startParam = some param) (value : String) :
    asked incremental (some value) = some value := by simp [asked, bindIncremental, h]

@[simp] theorem after_none (field : String) (record : Value) : after field none record = true := rfl

theorem after_some {field : String} {record : Value} {c : String}
    (h : cursorOf field record = some c) (b : String) :
    after field (some b) record = decide (b < c) := by simp [after, h]

end Asked

/-! ## The invariant -/

/-- The checkpoints emitted so far follow the highest cursor from one value to another. -/
def Emits (field : String) : Option String → List Emission → Option String → Prop
  | first, [], last => first = last
  | first, e :: rest, last =>
    e.checkpoint = observe e.batch field first ∧ e.batch ≠ [] ∧ Emits field e.checkpoint rest last

theorem Emits.append {field : String} {first last : Option String} {emitted : List Emission}
    (h : Emits field first emitted last) {page : List Value} (hpage : page ≠ []) :
    Emits field first (emitted ++ [⟨page, observe page field last⟩])
      (observe page field last) := by
  induction emitted generalizing first with
  | nil =>
    cases h
    exact ⟨rfl, hpage, rfl⟩
  | cons e rest ih => exact ⟨h.1, h.2.1, ih h.2.2⟩

section Invariant

variable {incremental : Incremental} (api : Api incremental.cursorField)

/-- A run resumed from `since`, when `before` was committed, has committed `done`. -/
structure Underway (w : World) (reading : Reading) (since : Option String)
    (before done : List (List Value)) : Prop where
  committed : w.committed = before ++ done
  behind : Behind api since before
  answer : api.Answers (asked incremental (since.or incremental.initialValue))
    (done.flatten ++ reading.unread)
  durable : w.durable = since ∧ done.flatten = [] ∨
    w.durable.isSome ∧ w.durable = raiseAll (since.or incremental.initialValue)
      (cursorsOf incremental.cursorField done.flatten)
  emits : Emits incremental.cursorField (w.seed incremental) reading.emitted reading.maxCursor

structure Inv (w : World) : Prop where
  behind : w.run = none → Behind api w.durable w.committed
  run : ∀ reading, w.run = some reading → ∃ since before done,
    Underway api w reading since before done

end Invariant

section Steps

variable {incremental : Incremental} {api : Api incremental.cursorField} {w : World}
  {reading : Reading} {since : Option String} {before done : List (List Value)}

/-- What the run has not reached meets no `q`: then all that does is committed. -/
theorem Underway.covered (h : Underway api w reading since before done) (q : Value → Bool)
    (hbehind : ∀ record ∈ reading.unread, q record = false) :
    (api.scope.filter q).Subperm w.committed.flatten := by
  let bound := asked incremental (since.or incremental.initialValue)
  let late := after incremental.cursorField bound
  have hold : ((api.scope.filter q).filter fun record => !late record).Subperm before.flatten := by
    apply List.Subperm.trans _ h.behind
    rw [List.filter_comm]
    exact List.filter_sublist.subperm
  have hnew : ((api.scope.filter q).filter late).Subperm done.flatten := by
    have hunread : reading.unread.filter q = [] :=
      List.filter_eq_nil_iff.mpr fun record hin => by simp [hbehind record hin]
    have hrecords : ((api.scope.filter q).filter late).Subperm
        ((api.records.filter late).filter q) := by
      rw [List.filter_comm]
      exact ((List.filter_sublist.filter late).filter q).subperm
    have hread : ((api.records.filter late).filter q).Perm
        ((done.flatten ++ reading.unread).filter q) := (h.answer.exact.filter q).symm
    rw [List.filter_append, hunread, List.append_nil] at hread
    exact (hrecords.trans hread.subperm).trans List.filter_sublist.subperm
  rw [h.committed, List.flatten_append]
  apply (List.filter_append_perm late (api.scope.filter q)).symm.subperm.trans
  exact List.perm_append_comm.subperm.trans (hold.append hnew)

theorem Underway.complete (h : Underway api w reading since before done)
    (hunread : reading.unread = []) : api.scope.Subperm w.committed.flatten := by
  have hall := h.covered (fun _ => true) (by simp [hunread])
  rwa [List.filter_true] at hall

/-- Where the records of the committed cursor are not split, what a later run will not ask
for is what was committed. -/
theorem Underway.stopped (h : Underway api w reading since before done)
    (hrun : w.run = some reading) (hok : Unsplit incremental w .stop) :
    Behind api w.durable w.committed := by
  cases hparam : incremental.startParam with
  | none =>
    have hall : asked incremental (w.durable.or incremental.initialValue) = none :=
      asked_unbound hparam (w.durable.or incremental.initialValue)
    simp [Behind, hall]
  | some param =>
    obtain ⟨hdurable, hdone⟩ | ⟨hsome, hdurable⟩ := h.durable
    · have hold := h.behind
      rw [Behind, ← hdurable] at hold
      rw [Behind, h.committed, List.flatten_append, hdone, List.append_nil]
      exact hold
    · obtain ⟨top, htop⟩ := Option.isSome_iff_exists.mp hsome
      apply h.covered
      intro record hin
      have hanswer : record ∈ api.records :=
        List.mem_of_mem_filter (h.answer.exact.subset (List.mem_append_right done.flatten hin))
      obtain ⟨c, hc⟩ := Option.isSome_iff_exists.mp (api.keyed record hanswer)
      have htie : c ≠ top := by
        intro he
        apply hok (by simp [hparam]) reading hrun record hin
        rw [hc, he, htop]
      have hle : top ≤ c := by
        have hsorted := h.answer.sorted
        rw [cursorsOf_append, List.pairwise_append] at hsorted
        rw [htop] at hdurable
        obtain hstart | hread := raiseAll_attained hdurable.symm
        · have hlate := List.of_mem_filter
            (h.answer.exact.subset (List.mem_append_right done.flatten hin))
          rw [hstart, asked_some hparam, after_some hc, decide_eq_true_eq] at hlate
          exact le_of_lt hlate
        · exact hsorted.2.2 top hread c (mem_cursorsOf.mpr ⟨record, hin, hc⟩)
      have hlt : top < c := lt_of_le_of_ne hle (Ne.symm htie)
      rw [htop, Option.some_or, asked_some hparam, after_some hc]
      simp [hlt]

theorem inv_start (h : Inv api w) (hrun : w.run = none) {pages : List (List Value)}
    (hserves : Serves api w (.start pages)) :
    Inv api { w with run := some ⟨pages, w.seed incremental, []⟩ } where
  behind := nofun
  run := by
    rintro _ ⟨⟩
    refine ⟨w.durable, w.committed, [], ?_⟩
    exact
      { committed := (List.append_nil w.committed).symm
        behind := h.behind hrun
        answer := hserves
        durable := .inl ⟨rfl, rfl⟩
        emits := rfl }

theorem inv_page (h : Inv api w) (hrun : w.run = some reading) :
    Inv api { w with run := some (reading.deliverPage incremental) } where
  behind := nofun
  run := by
    rintro _ ⟨⟩
    obtain ⟨since, before, done, hunder⟩ := h.run reading hrun
    refine ⟨since, before, done, ?_⟩
    have hunread : (reading.deliverPage incremental).unread = reading.unread ∧
        Emits incremental.cursorField (w.seed incremental)
          (reading.deliverPage incremental).emitted
          (reading.deliverPage incremental).maxCursor := by
      rw [Reading.deliverPage]
      split
      · exact ⟨rfl, hunder.emits⟩
      · rename_i page rest hpages
        split
        · rename_i hempty
          have hnil : page = [] := List.isEmpty_iff.mp hempty
          exact ⟨by simp [Reading.unread, hpages, hnil], hunder.emits⟩
        · rename_i hempty
          have hpage : page ≠ [] := fun hnil => hempty (List.isEmpty_iff.mpr hnil)
          exact ⟨by simp [Reading.unread, hpages], hunder.emits.append hpage⟩
    exact
      { committed := hunder.committed
        behind := hunder.behind
        answer := by rw [hunread.1]; exact hunder.answer
        durable := hunder.durable
        emits := hunread.2 }

theorem Underway.seed (h : Underway api w reading since before done) :
    w.seed incremental = raiseAll (since.or incremental.initialValue)
      (cursorsOf incremental.cursorField done.flatten) := by
  obtain ⟨hdurable, hdone⟩ | ⟨hsome, hdurable⟩ := h.durable
  · rw [World.seed, hdurable, hdone, cursorsOf_nil, raiseAll_nil]
  · obtain ⟨top, htop⟩ := Option.isSome_iff_exists.mp hsome
    rw [← hdurable, World.seed, htop, Option.some_or]

/-- A batch that is not empty brings a checkpoint: its records have cursors. -/
theorem Underway.checkpoint (h : Underway api w reading since before done) {e : Emission}
    {rest : List Emission} (hemitted : reading.emitted = e :: rest) :
    ∃ c, e.checkpoint = some c ∧
      raiseAll (w.seed incremental) (cursorsOf incremental.cursorField e.batch) = some c := by
  have hemits := h.emits
  rw [hemitted] at hemits
  obtain ⟨hcheckpoint, hbatch, -⟩ := hemits
  rw [observe_eq] at hcheckpoint
  have hcursors : cursorsOf incremental.cursorField e.batch ≠ [] := by
    obtain ⟨record, hrecord⟩ := List.exists_mem_of_ne_nil e.batch hbatch
    have hunread : record ∈ reading.unread := by simp [Reading.unread, hemitted, hrecord]
    have hanswer : record ∈ api.records :=
      List.mem_of_mem_filter (h.answer.exact.subset (List.mem_append_right done.flatten hunread))
    obtain ⟨c, hc⟩ := Option.isSome_iff_exists.mp (api.keyed record hanswer)
    exact List.ne_nil_of_mem (mem_cursorsOf.mpr ⟨record, hrecord, hc⟩)
  obtain ⟨c, hc⟩ := Option.isSome_iff_exists.mp
    (raiseAll_isSome (w.seed incremental) (.inr hcursors))
  exact ⟨c, hcheckpoint.trans hc, hc⟩

theorem inv_commit (h : Inv api w) (hrun : w.run = some reading) :
    Inv api (w.commit reading) := by
  obtain ⟨since, before, done, hunder⟩ := h.run reading hrun
  cases hemitted : reading.emitted with
  | nil => simpa [World.commit, hemitted, takeCheckpoint] using h
  | cons e rest =>
    obtain ⟨c, hcheckpoint, hraise⟩ := hunder.checkpoint hemitted
    have hcommit : w.commit reading =
        ⟨some c, w.committed ++ [e.batch], some { reading with emitted := rest }⟩ := by
      obtain ⟨batch, _⟩ := e
      cases hcheckpoint
      simp [World.commit, hemitted, takeCheckpoint]
    have hemits := hunder.emits
    rw [hemitted] at hemits
    rw [hcommit]
    constructor
    · exact nofun
    · rintro _ ⟨⟩
      refine ⟨since, before, done ++ [e.batch], ?_⟩
      exact
        { committed := by simp [hunder.committed]
          behind := hunder.behind
          answer := by
            have hanswer := hunder.answer
            simpa [Reading.unread, hemitted] using hanswer
          durable := by
            apply Or.inr
            simp [← hunder.seed, hraise]
          emits := by
            have hrest := hemits.2.2
            rw [hcheckpoint] at hrest
            simpa [World.seed] using hrest }

theorem inv_initial : Inv api World.initial where
  behind _ := by simp [Behind, Api.scope, World.initial]
  run := nofun

theorem inv_step (h : Inv api w) (act : Act) (hserves : Serves api w act)
    (hunsplit : Unsplit incremental w act) : Inv api (step incremental w act) := by
  cases act with
  | start pages =>
    simp only [step]
    cases hrun : w.run with
    | none => exact inv_start h hrun hserves
    | some reading => exact h
  | page =>
    simp only [step]
    cases hrun : w.run with
    | none => exact h
    | some reading => exact inv_page h hrun
  | commit =>
    simp only [step]
    cases hrun : w.run with
    | none => exact h
    | some reading => exact inv_commit h hrun
  | stop =>
    constructor
    · intro _
      cases hrun : w.run with
      | none => exact h.behind hrun
      | some reading =>
        obtain ⟨since, before, done, hunder⟩ := h.run reading hrun
        exact hunder.stopped hrun hunsplit
    · exact nofun

theorem Inv.delivered (h : Inv api w) : Delivered api w where
  behind := h.behind
  complete := by
    intro reading hrun hunread
    obtain ⟨since, before, done, hunder⟩ := h.run reading hrun
    exact hunder.complete hunread

end Steps

/-- Over every history of runs, commits and stops, whatever the cut into pages, nothing is
lost as long as no run stops within the records of the committed cursor. -/
theorem incremental_loses_nothing (incremental : Incremental) (api : Api incremental.cursorField)
    (acts : List Act)
    (hacts : Meets (step incremental) (fun w act => Serves api w act ∧ Unsplit incremental w act)
      World.initial acts) :
    Delivered api (run (step incremental) World.initial acts) := by
  have hinv : Inv api (run (step incremental) World.initial acts) :=
    run_invariant (I := Inv api) (fun w act h hok => inv_step h act hok.1 hok.2) inv_initial hacts
  exact hinv.delivered

/-! Two records of one cursor. -/

def byStamp : Incremental := ⟨"stamp", some "since", none, none, none⟩

def stamped (stamp id : String) : Value :=
  .object [("stamp", .string stamp), ("id", .string id)]

def twins : Api byStamp.cursorField where
  records := [stamped "7" "a", stamped "7" "b"]
  keyed := by simp [stamped, byStamp, cursorOf, Value.field, renderScalar]

def twinsAndLater : Api byStamp.cursorField where
  records := [stamped "7" "a", stamped "7" "b", stamped "8" "c"]
  keyed := by simp [stamped, byStamp, cursorOf, Value.field, renderScalar]

/-- The twins on one page; the run stops once they are committed, and the next one brings the
record behind them. -/
theorem incremental_loses_nothing_of_twins :
    Delivered twinsAndLater (run (step byStamp) World.initial
      [.start [[stamped "7" "a", stamped "7" "b"], [stamped "8" "c"]], .page, .commit, .stop,
        .start [[stamped "8" "c"]], .page, .commit]) := by
  apply incremental_loses_nothing
  refine ⟨⟨⟨?_, by decide⟩, trivial⟩, ⟨trivial, trivial⟩, ⟨trivial, trivial⟩, ⟨trivial, ?_⟩,
    ⟨⟨?_, by decide⟩, trivial⟩, ⟨trivial, trivial⟩, ⟨trivial, trivial⟩, trivial⟩
  · exact List.Perm.refl _
  · intro _ reading hrun record hin
    cases hrun
    obtain rfl := List.mem_singleton.1 hin
    decide
  · exact List.Perm.refl _

/-- The twins on two pages: a run that stops between them leaves the second to no run. -/
theorem split_cursor_loses_a_record :
    Meets (step byStamp) (Serves twins) World.initial
      [.start [[stamped "7" "a"], [stamped "7" "b"]], .page, .commit, .stop, .start []] ∧
    ¬ Delivered twins (run (step byStamp) World.initial
      [.start [[stamped "7" "a"], [stamped "7" "b"]], .page, .commit, .stop, .start []]) := by
  constructor
  · refine ⟨⟨?_, by decide⟩, trivial, trivial, trivial, ⟨?_, by decide⟩, trivial⟩
    · exact List.Perm.refl _
    · exact List.Perm.refl _
  · intro h
    have hlength := (h.complete _ rfl rfl).length_le
    revert hlength
    decide

end Rest
