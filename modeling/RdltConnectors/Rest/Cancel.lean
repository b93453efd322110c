import Mathlib
import RdltConnectors.Rest.Forwarding

/-!
# Cancelling a fan-out

When the host has closed the feed, the forwarder ends at the page in its hand and leaves
the channel as it is. The receiver is not dropped with it, so a child that sends waits
for room rather than learn of the cancellation. The fan-out comes to its end as long as
the pages still to be pushed fit in the channel.
-/
namespace Rest

open Transition

/-- The child, or the server for it, ends in an error. -/
def Child.fails (child : Child) : Bool :=
  !child.parent.succeeds child.failure child.pages

/-- The pages still to be pushed. No child starts behind as many failing ones as there may
be in flight, so those behind them do not count. -/
def owed : Nat → List Child → Nat
  | 0, _ => 0
  | _ + 1, [] => 0
  | limit + 1, child :: rest =>
    child.pending.length + owed (if child.fails then limit else limit + 1) rest

/-- A forwarder that finds the feed closed while children are read leaves room in the
channel for all they still have to push. -/
def Fits (setup : Setup) (s : FanOut) : Move → Prop
  | .feed => ∀ index records, s.forwarder = .feeding index records → s.feedOpen = false →
      s.driven = none → s.channel.length + owed setup.limit s.children ≤ setup.capacity
  | _ => True

/-- Something other than the host can still move; and once the forwarder has ended on a
closed feed, whoever sends has room and the fan-out can still return. -/
structure Live (setup : Setup) (s : FanOut) : Prop where
  moves : s.returned.isSome ∨ ∃ move, move ≠ .close ∧ s.step setup move ≠ s
  room : s.forwarder = .ended → s.feedOpen = false → s.driven = none → ∀ child ∈ s.children,
    ∀ records, child.phase = .sending records → s.channel.length < setup.capacity
  finishes : s.forwarder = .ended → s.feedOpen = false →
    ∃ moves, (run (FanOut.step setup) s moves).returned.isSome

/-! ## Pages still to be pushed -/

section Owed

variable {children : List Child} {child next : Child} {index : Nat}

theorem owed_set {limit : Nat} (hchild : children[index]? = some child)
    (hfails : next.fails = child.fails)
    (hbefore : (children.take index).countP Child.fails < limit) :
    owed limit (children.set index next) + child.pending.length =
      owed limit children + next.pending.length := by
  induction children generalizing index limit with
  | nil => simp at hchild
  | cons first rest ih =>
    obtain ⟨limit, rfl⟩ : ∃ l, limit = l + 1 := ⟨limit - 1, by omega⟩
    cases index with
    | zero =>
      rw [List.getElem?_cons_zero, Option.some.injEq] at hchild
      subst hchild
      simp only [List.set_cons_zero, owed, hfails]
      omega
    | succ index =>
      rw [List.getElem?_cons_succ] at hchild
      rw [List.take_succ_cons, List.countP_cons] at hbefore
      have hcount : (rest.take index).countP Child.fails <
          if first.fails then limit else limit + 1 := by split at hbefore <;> simp_all
      have hrest := ih hchild hcount
      simp only [List.set_cons_succ, owed]
      omega

/-- Somebody who has a page to push counts. -/
theorem pending_le_owed {limit : Nat} (hchild : children[index]? = some child)
    (hbefore : (children.take index).countP Child.fails < limit) :
    child.pending.length ≤ owed limit children := by
  induction children generalizing index limit with
  | nil => simp at hchild
  | cons first rest ih =>
    obtain ⟨limit, rfl⟩ : ∃ l, limit = l + 1 := ⟨limit - 1, by omega⟩
    cases index with
    | zero =>
      rw [List.getElem?_cons_zero, Option.some.injEq] at hchild
      subst hchild
      simp only [owed]
      omega
    | succ index =>
      rw [List.getElem?_cons_succ] at hchild
      rw [List.take_succ_cons, List.countP_cons] at hbefore
      have hcount : (rest.take index).countP Child.fails <
          if first.fails then limit else limit + 1 := by split at hbefore <;> simp_all
      have hrest := ih hchild hcount
      simp only [owed]
      omega

end Owed

/-! ## Children in order -/

/-- Children start one after the other, and no more than the limit are in flight. -/
structure InOrder (setup : Setup) (children : List Child) : Prop where
  order : ∀ (i j : Nat) (first second : Child), i < j → children[i]? = some first →
    children[j]? = some second → second.isWaiting = false → first.isWaiting = false
  flight : children.countP Child.inFlight ≤ setup.limit

section InOrder

variable {setup : Setup} {scripts : List Script} {s : FanOut} {children : List Child}
  {child next : Child} {index : Nat}

theorem countP_split (p : Child → Bool) (hchild : children[index]? = some child) :
    children.countP p = (children.take index).countP p + (if p child then 1 else 0) +
      (children.drop (index + 1)).countP p := by
  obtain ⟨hlt, hget⟩ := List.getElem?_eq_some_iff.mp hchild
  have hdrop : children.drop index = child :: children.drop (index + 1) := by
    rw [List.drop_eq_getElem_cons hlt, hget]
  have hsplit : children.countP p =
      (children.take index).countP p + (children.drop index).countP p := by
    rw [← List.countP_append, List.take_append_drop]
  rw [hsplit, hdrop, List.countP_cons]
  omega

theorem countP_set (p : Child → Bool) (hchild : children[index]? = some child) (next : Child) :
    (children.set index next).countP p + (if p child then 1 else 0) =
      children.countP p + (if p next then 1 else 0) := by
  obtain ⟨hlt, hget⟩ := List.getElem?_eq_some_iff.mp hchild
  obtain ⟨before, behind, hchildren, -, hset⟩ := List.exists_of_set hlt
  rw [hset, hchildren, hget]
  simp only [List.countP_append, List.countP_cons]
  omega

/-- Of those that have started, the failing ones are in flight. -/
theorem failing_le_inFlight
    (hbefore : ∀ i other, i < index → children[i]? = some other → other.isWaiting = false)
    (hdone : ∀ other ∈ children, other.isDone = true → other.fails = false) :
    (children.take index).countP Child.fails ≤ (children.take index).countP Child.inFlight := by
  apply List.countP_mono_left
  intro other hin hfails
  obtain ⟨i, hi⟩ := List.mem_iff_getElem?.mp hin
  rw [List.getElem?_take] at hi
  split at hi
  · rename_i hlt
    have hstarted := hbefore i other hlt hi
    have hgoing : other.isDone = false := by
      cases hother : other.isDone with
      | false => rfl
      | true =>
        rw [hdone other (List.mem_of_getElem? hi) hother] at hfails
        cases hfails
    simp [Child.inFlight, hstarted, hgoing]
  · cases hi

/-- Before a child in flight fewer fail than may be in flight. -/
theorem InOrder.failing_before (h : InOrder setup children)
    (hchild : children[index]? = some child) (hflight : child.inFlight = true)
    (hdone : ∀ other ∈ children, other.isDone = true → other.fails = false) :
    (children.take index).countP Child.fails < setup.limit := by
  have hwaiting : child.isWaiting = false := by
    simp only [Child.inFlight, Bool.and_eq_true, Bool.not_eq_true'] at hflight
    exact hflight.1
  have hle := failing_le_inFlight
    (fun i other hlt hi => h.order i index other child hlt hi hchild hwaiting) hdone
  have hsplit := countP_split Child.inFlight hchild
  rw [if_pos hflight] at hsplit
  have hlimit := h.flight
  omega

/-- A child that has started goes on, or comes to its end. -/
theorem InOrder.replaced (h : InOrder setup children) (hchild : children[index]? = some child)
    (hwaiting : child.isWaiting = false) (hnext : next.isWaiting = false)
    (hflight : next.inFlight = true → child.inFlight = true) :
    InOrder setup (children.set index next) where
  order := by
    intro i j first second hij hfirst hsecond hstarted
    obtain ⟨-, rfl⟩ | ⟨-, hbefore⟩ := getElem?_set_cases hfirst
    · exact hnext
    · obtain ⟨rfl, -⟩ | ⟨-, hbehind⟩ := getElem?_set_cases hsecond
      · exact h.order i j first child hij hbefore hchild hwaiting
      · exact h.order i j first second hij hbefore hbehind hstarted
  flight := by
    have hset := countP_set Child.inFlight hchild next
    have hlimit := h.flight
    cases hgoing : next.inFlight with
    | false => simp only [hgoing, Bool.false_eq_true, if_false] at hset; omega
    | true => simp only [hgoing, hflight hgoing, if_true] at hset; omega

theorem inOrder_started (h : InOrder setup children)
    (hindex : index = children.findIdx Child.isWaiting) (hchild : children[index]? = some child)
    (hroom : children.countP Child.inFlight < setup.limit) :
    InOrder setup (children.set index { child with phase := .fetching }) where
  order := by
    intro i j first second hij hfirst hsecond hstarted
    obtain ⟨-, rfl⟩ | ⟨-, hbefore⟩ := getElem?_set_cases hfirst
    · rfl
    · obtain ⟨rfl, -⟩ | ⟨-, hbehind⟩ := getElem?_set_cases hsecond
      · rw [hindex] at hij
        obtain ⟨hlt, hget⟩ := List.getElem?_eq_some_iff.mp hbefore
        have hnot := List.not_of_lt_findIdx hij
        rw [hget] at hnot
        exact hnot
      · exact h.order i j first second hij hbefore hbehind hstarted
  flight := by
    have hset := countP_set Child.inFlight hchild { child with phase := .fetching }
    split at hset <;> split at hset <;> omega

end InOrder

/-! ## Room -/

/-- The fan-out is accounted for, and nobody is left without room. -/
structure Cancellable (setup : Setup) (scripts : List Script) (s : FanOut) : Prop where
  accounted : Accounted setup scripts s
  ordered : InOrder setup s.children
  room : s.forwarder = .ended → s.feedOpen = false → s.driven = none →
    s.channel.length + owed setup.limit s.children ≤ setup.capacity

section Room

variable {setup : Setup} {scripts : List Script} {s : FanOut} {child next : Child} {index : Nat}

theorem Accounted.done_succeeds (h : Accounted setup scripts s) :
    ∀ child ∈ s.children, child.isDone = true → child.fails = false := by
  intro child hin hdone
  obtain ⟨index, hchild⟩ := List.mem_iff_getElem?.mp hin
  obtain ⟨script, -, hfollows, -⟩ := h.follows index child hchild
  obtain ⟨hpages, hfailure⟩ := hfollows.done hdone
  simp [Child.fails, hpages, hfailure, ParentValues.succeeds]

theorem Goes.fails (hgoes : Goes setup child next) : next.fails = child.fails := by
  cases hgoes with
  | skips hphase hpages hcount => simp [Child.fails, hpages, succeeds_empty hcount]
  | fetches hphase hpages hcount hrecords =>
    simp [Child.fails, hpages, succeeds_ok hcount hrecords]

/-- A child in flight moves pages from what it owes to the channel. -/
theorem Cancellable.pushed (h : Cancellable setup scripts s)
    (hchild : s.children[index]? = some child)
    (hbefore : (s.children.take index).countP Child.fails < setup.limit) (next : Child)
    (sent : List (List Char)) (hfails : next.fails = child.fails)
    (hpending : child.pending = sent ++ next.pending) (hended : s.forwarder = .ended)
    (hclosed : s.feedOpen = false) (hdriven : s.driven = none) :
    (s.channel ++ sent.map (index, ·)).length + owed setup.limit (s.children.set index next) ≤
      setup.capacity := by
  have howed := owed_set hchild hfails hbefore
  have hroom := h.room hended hclosed hdriven
  rw [hpending, List.length_append] at howed
  rw [List.length_append, List.length_map]
  omega

theorem cancellable_step (h : Cancellable setup scripts s) (move : Move)
    (hfits : Fits setup s move) : Cancellable setup scripts (s.step setup move) := by
  have haccounted := accounted_step h.accounted move
  have hdone := h.accounted.done_succeeds
  have hmoves := step_moves setup s move
  generalize hstep : s.step setup move = t at hmoves haccounted
  cases hmoves with
  | idle => exact h
  | started hdriven hindex hchild hroom =>
    rename_i index child
    have hbefore : ∀ i other, i < index → s.children[i]? = some other →
        other.isWaiting = false := by
      intro i other hlt hother
      rw [hindex] at hlt
      obtain ⟨hi, hget⟩ := List.getElem?_eq_some_iff.mp hother
      have hnot := List.not_of_lt_findIdx hlt
      rw [hget] at hnot
      exact hnot
    have hcount : (s.children.take index).countP Child.fails < setup.limit := by
      have hle := failing_le_inFlight hbefore hdone
      have hsplit := countP_split Child.inFlight hchild
      omega
    have hwaiting : child.phase = .waiting := by
      obtain ⟨hlt, hget⟩ := List.getElem?_eq_some_iff.mp hchild
      subst hindex
      have hfound : child.isWaiting = true := by rw [← hget]; exact List.findIdx_getElem
      cases hphase : child.phase <;> simp_all [Child.isWaiting]
    have hpushed := h.pushed hchild hcount { child with phase := .fetching } [] rfl
      (by simp [Child.pending, hwaiting])
    exact ⟨haccounted, inOrder_started h.ordered hindex hchild hroom, by simpa using hpushed⟩
  | went hdriven hchild hgoes =>
    rename_i index child next
    have hflight : child.inFlight = true := by
      simp [Child.inFlight, Child.isWaiting, Child.isDone, hgoes.phase]
    have hcount := h.ordered.failing_before hchild hflight hdone
    have hpushed := h.pushed hchild hcount next [] hgoes.fails hgoes.pending.symm
    have hordered : InOrder setup (s.children.set index next) := by
      apply h.ordered.replaced hchild (by simp [Child.isWaiting, hgoes.phase]) _ fun _ => hflight
      cases hgoes with
      | skips hphase => simp [Child.isWaiting, hphase]
      | fetches => rfl
    exact ⟨haccounted, hordered, by simpa using hpushed⟩
  | finished hdriven hchild hphase hpages hfailure =>
    rename_i index child
    have hflight : child.inFlight = true := by
      simp [Child.inFlight, Child.isWaiting, Child.isDone, hphase]
    have hcount := h.ordered.failing_before hchild hflight hdone
    have hpushed := h.pushed hchild hcount { child with phase := .done } [] rfl
      (by simp [Child.pending, hphase])
    have hordered : InOrder setup (s.children.set index { child with phase := .done }) :=
      h.ordered.replaced hchild (by simp [Child.isWaiting, hphase]) rfl fun _ => hflight
    exact ⟨haccounted, hordered, by simpa using hpushed⟩
  | failed hdriven hchild hfails =>
    exact ⟨haccounted, h.ordered, fun _ _ hnone => by cases hnone⟩
  | sent hdriven hchild hphase hroom =>
    rename_i index child records
    have hflight : child.inFlight = true := by
      simp [Child.inFlight, Child.isWaiting, Child.isDone, hphase]
    have hcount := h.ordered.failing_before hchild hflight hdone
    have hpushed := h.pushed hchild hcount { child with phase := .fetching } [records] rfl
      (by simp [Child.pending, hphase])
    have hordered : InOrder setup (s.children.set index { child with phase := .fetching }) :=
      h.ordered.replaced hchild (by simp [Child.isWaiting, hphase]) rfl fun _ => hflight
    exact ⟨haccounted, hordered, hpushed⟩
  | abandoned hdriven hreturned =>
    have hsome := (h.accounted.returned hreturned).2
    simp [hdriven] at hsome
  | collected hdriven hall => exact ⟨haccounted, h.ordered, fun _ _ hnone => by cases hnone⟩
  | received hforwarder hchannel =>
    exact ⟨haccounted, h.ordered, fun hended => by cases hended⟩
  | fed hforwarder hopen => exact ⟨haccounted, h.ordered, fun hended => by cases hended⟩
  | broke hmove hforwarder hclosed =>
    subst hmove
    exact ⟨haccounted, h.ordered, fun _ _ hdriven => hfits _ _ hforwarder hclosed hdriven⟩
  | drained hforwarder hchannel hdriven =>
    refine ⟨haccounted, h.ordered, ?_⟩
    intro _ _ hnone
    rw [hdriven] at hnone
    cases hnone
  | closed =>
    refine ⟨haccounted, h.ordered, ?_⟩
    intro hended _ hdriven
    cases hopen : s.feedOpen with
    | false => exact h.room hended hopen hdriven
    | true =>
      have hsome := (h.accounted.ended hended hopen).2
      have hnone : s.driven = none := hdriven
      simp [hnone] at hsome
  | refused hreturned hforwarder hdriven =>
    refine ⟨haccounted, h.ordered, ?_⟩
    intro _ _ hnone
    rw [hdriven] at hnone
    cases hnone
  | joined hreturned hforwarder hdriven =>
    refine ⟨haccounted, h.ordered, ?_⟩
    intro _ _ hnone
    rw [hdriven] at hnone
    cases hnone

end Room

/-! ## Progress -/

def Child.work (child : Child) : Nat :=
  match child.phase with
  | .waiting => 2 + 5 * child.pages.length
  | .fetching => 1 + 5 * child.pages.length
  | .sending _ => 5 + 5 * child.pages.length
  | .done => 0

def Forwarder.work : Forwarder → Nat
  | .receiving => 1
  | .feeding _ _ => 3
  | .ended => 0

/-- What is left to do until the fan-out returns. -/
def FanOut.work (s : FanOut) : Nat :=
  (s.children.map Child.work).sum + 3 * s.channel.length + s.forwarder.work +
    (if s.driven.isSome then 0 else 1) + (if s.returned.isSome then 0 else 1)

section Progress

variable {setup : Setup} {scripts : List Script} {s : FanOut} {child next : Child} {index : Nat}
  {children : List Child}

theorem work_set (hchild : children[index]? = some child) (next : Child) :
    ((children.set index next).map Child.work).sum + child.work =
      (children.map Child.work).sum + next.work := by
  obtain ⟨hlt, hget⟩ := List.getElem?_eq_some_iff.mp hchild
  obtain ⟨before, behind, hchildren, -, hset⟩ := List.exists_of_set hlt
  rw [hset, hchildren, hget]
  simp only [List.map_append, List.map_cons, List.sum_append, List.sum_cons]
  omega

theorem Goes.work (hgoes : Goes setup child next) : next.work < child.work := by
  cases hgoes with
  | skips hphase hpages hcount => simp [Child.work, hphase, hpages]
  | fetches hphase hpages hcount hrecords =>
    simp only [Child.work, hphase, hpages, List.length_cons]
    omega

theorem work_fetch (hdriven : s.driven = none) (hchild : s.children[index]? = some child)
    (hphase : child.phase = .fetching) : (s.fetch setup index).work < s.work := by
  have hset := work_set hchild
  obtain ⟨next, hfetch, hgoes⟩ | ⟨hfetch, -, -⟩ | ⟨e, hfetch, -⟩ := fetch_cases setup hphase
  · have hstep := hset next
    have hless := hgoes.work
    simp only [FanOut.fetch, hdriven, hchild, hphase, hfetch, FanOut.work]
    omega
  · have hstep := hset { child with phase := .done }
    have hbefore : child.work = 1 + 5 * child.pages.length := by simp [Child.work, hphase]
    have hafter : ({ child with phase := .done } : Child).work = 0 := rfl
    simp only [FanOut.fetch, hdriven, hchild, hphase, hfetch, FanOut.work]
    omega
  · simp [FanOut.fetch, hdriven, hchild, hphase, hfetch, FanOut.work]

theorem work_send {records : List Char} (hdriven : s.driven = none)
    (hreturned : s.returned = none) (hchild : s.children[index]? = some child)
    (hphase : child.phase = .sending records) (hroom : s.channel.length < setup.capacity) :
    (s.send setup index).work < s.work := by
  have hstep := work_set hchild { child with phase := .fetching }
  have hbefore : child.work = 5 + 5 * child.pages.length := by simp [Child.work, hphase]
  have hafter : ({ child with phase := .fetching } : Child).work = 1 + 5 * child.pages.length := rfl
  simp only [FanOut.send, hdriven, hchild, hphase, hreturned, Option.isSome_none,
    Bool.false_eq_true, if_false, if_pos hroom, FanOut.work, List.length_append,
    List.length_singleton]
  omega

theorem work_start (hdriven : s.driven = none)
    (hwaiting : ∃ child ∈ s.children, child.isWaiting = true)
    (hidle : s.children.countP Child.inFlight < setup.limit) : (s.start setup).work < s.work := by
  have hlt : s.children.findIdx Child.isWaiting < s.children.length :=
    List.findIdx_lt_length_of_exists hwaiting
  have hchild := List.getElem?_eq_getElem hlt
  have hphase : s.children[s.children.findIdx Child.isWaiting].phase = .waiting := by
    have hfound := List.findIdx_getElem (w := hlt)
    rw [Child.isWaiting] at hfound
    split at hfound
    · assumption
    · cases hfound
  have hstep := work_set hchild
    { s.children[s.children.findIdx Child.isWaiting] with phase := .fetching }
  simp only [FanOut.start, hdriven, hchild, if_pos hidle, FanOut.work]
  simp only [Child.work, hphase] at hstep
  omega

/-- The forwarder can move unless it has ended or waits at an empty channel. -/
theorem work_forwarder (setup : Setup)
    (h : s.forwarder ≠ .ended) (hbusy : s.channel ≠ [] ∨ s.driven.isSome) :
    ∃ move, move ≠ .close ∧ (s.step setup move).work < s.work := by
  cases hforwarder : s.forwarder with
  | ended => exact absurd hforwarder h
  | feeding index records =>
    refine ⟨.feed, (by rintro ⟨⟩), ?_⟩
    simp only [FanOut.step, FanOut.forward, hforwarder]
    split <;> simp [FanOut.work, hforwarder, Forwarder.work]
  | receiving =>
    cases hchannel : s.channel with
    | cons first rest =>
      refine ⟨.receive, (by rintro ⟨⟩), ?_⟩
      simp only [FanOut.step, FanOut.receive, hforwarder, hchannel, FanOut.work, Forwarder.work,
        List.length_cons]
      omega
    | nil =>
      obtain ⟨result, hdriven⟩ : ∃ result, s.driven = some result := by
        simpa [hchannel, Option.isSome_iff_exists] using hbusy
      refine ⟨.drain, (by rintro ⟨⟩), ?_⟩
      simp [FanOut.step, FanOut.drain, hforwarder, hchannel, hdriven, FanOut.work, Forwarder.work]

theorem Cancellable.sending_has_room (h : Cancellable setup scripts s)
    (hended : s.forwarder = .ended) (hclosed : s.feedOpen = false) (hdriven : s.driven = none)
    (hchild : s.children[index]? = some child) {records : List Char}
    (hphase : child.phase = .sending records) : s.channel.length < setup.capacity := by
  have hflight : child.inFlight = true := by
    simp [Child.inFlight, Child.isWaiting, Child.isDone, hphase]
  have hcount := h.ordered.failing_before hchild hflight h.accounted.done_succeeds
  have hle := pending_le_owed hchild hcount
  have hroom := h.room hended hclosed hdriven
  have hpending : child.pending.length = (child.parent.outputs child.pages).length + 1 := by
    simp [Child.pending, hphase]
  omega

/-- While children are read, one of them can go on, or the forwarder can. -/
theorem Cancellable.progress_driving (h : Cancellable setup scripts s)
    (hreturned : s.returned = none) (hdriven : s.driven = none) :
    ∃ move, move ≠ .close ∧ (s.step setup move).work < s.work := by
  by_cases hall : s.children.all Child.isDone = true
  · refine ⟨.collect, (by rintro ⟨⟩), ?_⟩
    simp [FanOut.step, FanOut.collect, hdriven, hall, FanOut.work]
  by_cases hflight : ∃ child ∈ s.children, child.inFlight = true
  · obtain ⟨child, hin, hgoing⟩ := hflight
    obtain ⟨index, hchild⟩ := List.mem_iff_getElem?.mp hin
    cases hphase : child.phase with
    | waiting => simp [Child.inFlight, Child.isWaiting, hphase] at hgoing
    | done => simp [Child.inFlight, Child.isDone, hphase] at hgoing
    | fetching => exact ⟨.fetch index, (by rintro ⟨⟩), work_fetch hdriven hchild hphase⟩
    | sending records =>
      by_cases hroom : s.channel.length < setup.capacity
      · exact ⟨.send index, (by rintro ⟨⟩), work_send hdriven hreturned hchild hphase hroom⟩
      · have hchannel : s.channel ≠ [] := by
          intro hnil
          have hpositive := setup.positive
          rw [hnil, Setup.capacity] at hroom
          simp only [List.length_nil] at hroom
          omega
        apply work_forwarder setup _ (.inl hchannel)
        intro hended
        cases hopen : s.feedOpen with
        | true => exact hchannel (h.accounted.ended hended hopen).1
        | false => exact hroom (h.sending_has_room hended hopen hdriven hchild hphase)
  · refine ⟨.start, (by rintro ⟨⟩), work_start hdriven ?_ ?_⟩
    · simp only [List.all_eq_true, not_forall] at hall
      obtain ⟨child, hin, hdone⟩ := hall
      refine ⟨child, hin, ?_⟩
      cases hwaiting : child.isWaiting with
      | true => rfl
      | false => exact absurd ⟨child, hin, by simp [Child.inFlight, hwaiting, hdone]⟩ hflight
    · have hnone : s.children.countP Child.inFlight = 0 := by
        rw [List.countP_eq_zero]
        exact fun child hin hgoing => hflight ⟨child, hin, hgoing⟩
      have hpositive := setup.positive
      omega

theorem Cancellable.progress (h : Cancellable setup scripts s) (hreturned : s.returned = none) :
    ∃ move, move ≠ .close ∧ (s.step setup move).work < s.work := by
  cases hdriven : s.driven with
  | none => exact h.progress_driving hreturned hdriven
  | some result =>
    by_cases hended : s.forwarder = .ended
    · refine ⟨.join, (by rintro ⟨⟩), ?_⟩
      cases result with
      | error e => simp [FanOut.step, FanOut.join, hreturned, hended, hdriven, FanOut.work]
      | ok _ => simp [FanOut.step, FanOut.join, hreturned, hended, hdriven, FanOut.work]
    · exact work_forwarder setup hended (.inr (by simp [hdriven]))

theorem ended_stays (h : s.forwarder = .ended) (move : Move) :
    (s.step setup move).forwarder = .ended := by
  have hmoves := step_moves setup s move
  generalize s.step setup move = t at hmoves
  cases hmoves with
  | received hforwarder | fed hforwarder =>
    rw [h] at hforwarder
    cases hforwarder
  | broke | drained => rfl
  | _ => exact h

/-- Once the forwarder has ended, the fan-out can be brought to its end. -/
theorem Cancellable.finishes (h : Cancellable setup scripts s) (hended : s.forwarder = .ended) :
    ∃ moves, (run (FanOut.step setup) s moves).returned.isSome := by
  induction hwork : s.work using Nat.strong_induction_on generalizing s with
  | _ work ih =>
    cases hreturned : s.returned with
    | some result => exact ⟨[], by simp [hreturned]⟩
    | none =>
      obtain ⟨move, -, hless⟩ := h.progress hreturned
      have hfits : Fits setup s move := by
        cases move with
        | feed =>
          intro index records hfeeding
          rw [hended] at hfeeding
          cases hfeeding
        | _ => trivial
      rw [hwork] at hless
      obtain ⟨moves, hmoves⟩ :=
        ih _ hless (cancellable_step h move hfits) (ended_stays hended move) rfl
      exact ⟨move :: moves, hmoves⟩

theorem Cancellable.live (h : Cancellable setup scripts s) : Live setup s where
  moves := by
    cases hreturned : s.returned with
    | some result => exact .inl rfl
    | none =>
      obtain ⟨move, hmove, hless⟩ := h.progress hreturned
      refine .inr ⟨move, hmove, ?_⟩
      intro hsame
      rw [hsame] at hless
      exact Nat.lt_irrefl s.work hless
  room := by
    intro hended hclosed hdriven child hin records hphase
    obtain ⟨index, hchild⟩ := List.mem_iff_getElem?.mp hin
    exact h.sending_has_room hended hclosed hdriven hchild hphase
  finishes := fun hended _ => h.finishes hended

theorem cancellable_initial (setup : Setup) (scripts : List Script) :
    Cancellable setup scripts (FanOut.initial setup scripts) where
  accounted := accounted_initial setup scripts
  ordered :=
    { order := by
        intro i j first second _ _ hsecond hstarted
        obtain ⟨script, -, rfl⟩ := List.mem_map.mp (List.mem_of_getElem? hsecond)
        cases hstarted
      flight := by
        have hnone : (FanOut.initial setup scripts).children.countP Child.inFlight = 0 := by
          rw [List.countP_eq_zero]
          intro child hin
          obtain ⟨script, -, rfl⟩ := List.mem_map.mp hin
          simp [Child.inFlight, Child.isWaiting, Script.child]
        omega }
  room := by rintro ⟨⟩

end Progress

/-- Over every interleaving in which a forwarder that breaks on the closed feed leaves room
for what is still to be pushed, nothing is ever stuck. -/
theorem cancelled_fan_out_ends (setup : Setup) (scripts : List Script) (moves : List Move)
    (hmoves : Meets (FanOut.step setup) (Fits setup) (FanOut.initial setup scripts) moves) :
    Live setup (run (FanOut.step setup) (FanOut.initial setup scripts) moves) := by
  have hcancellable : Cancellable setup scripts
      (run (FanOut.step setup) (FanOut.initial setup scripts) moves) :=
    run_invariant (I := Cancellable setup scripts)
      (fun s move h hfits => cancellable_step h move hfits) (cancellable_initial setup scripts)
      hmoves
  exact hcancellable.live

/-! One parent, one child at a time. -/

def single : Setup := ⟨"items", none, none, 1, Nat.le_refl 1⟩

def pagesOfOne (n : Nat) : List Script :=
  [⟨⟨[("id", "7")], []⟩, List.replicate n ⟨['[', '1', ']'], 1, none⟩, none⟩]

/-- Three pages: the two still to be pushed fit behind the one in the forwarder's hand. -/
theorem cancelled_fan_out_ends_of_three :
    Live single (run (FanOut.step single) (FanOut.initial single (pagesOfOne 3))
      [.start, .fetch 0, .send 0, .receive, .close, .feed]) := by
  apply cancelled_fan_out_ends
  refine ⟨trivial, trivial, trivial, trivial, trivial, ?_, trivial⟩
  intro _ _ _ _ _
  decide

/-- Four pages: two fill the channel, and the child waits for room that nobody makes. -/
theorem cancelled_child_waits_for_ever :
    ¬ Live single (run (FanOut.step single) (FanOut.initial single (pagesOfOne 4))
      [.start, .fetch 0, .send 0, .receive, .close, .feed, .fetch 0, .send 0, .fetch 0, .send 0,
        .fetch 0]) := by
  intro h
  obtain hreturned | ⟨move, hmove, hstep⟩ := h.moves
  · cases hreturned
  · apply hstep
    cases move with
    | close => exact absurd rfl hmove
    | fetch index => cases index <;> rfl
    | send index => cases index <;> rfl
    | _ => rfl

end Rest
