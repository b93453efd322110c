import RdltConnectors.Library.Transition
import RdltConnectors.Rest.Cursor
import RdltConnectors.Rest.Extract

/-!
# Fan-out over a bounded channel

One child sequence is read for each parent record, up to a limit at a time. The children
push their pages into one bounded channel, from which a forwarder feeds the host. Once
all children are at their end and the channel is drained, the stream's highest cursor is
merged and checkpointed. The first child that fails drops all others.
-/
namespace Rest

open Highest Transition

/-- The resolved placeholders of a parent record, and the fields its children embed. -/
structure ParentValues where
  placeholders : List (String × String)
  included : List (String × Value)

def describe (placeholders : List (String × String)) : String :=
  ", ".intercalate (placeholders.map fun placeholder =>
    let token := placeholder.1
    let value := placeholder.2
    s!"{token}={value}")

/-- The context goes around the inner cause; the kind of the error stays. -/
def withParentContext (error : SourceError) (stream : String) (parent : ParentValues) :
    SourceError :=
  let resolved := describe parent.placeholders
  let context := s!"child stream `{stream}` failed for parent ({resolved})"
  match error with
  | .transient inner => .transient s!"{context}: {inner}"
  | .rateLimited retryAfter inner => .rateLimited retryAfter s!"{context}: {inner}"
  | .fatal inner => .fatal s!"{context}: {inner}"

/-- The fields of a record with those of the parent behind them. -/
def embedFields (fields : List (String × Value)) :
    List (String × Value) → Except SourceError (List (String × Value))
  | [] => .ok fields
  | (field, value) :: rest =>
    let key := s!"_parent_{field}"
    if fields.any (·.1 = key) then
      .error (.fatal s!"child record already has a `{key}` field — parent include collides")
    else embedFields (fields ++ [(key, value)]) rest

def embedRecord (included : List (String × Value)) : Value → Except SourceError Value
  | .object fields =>
    match embedFields fields included with
    | .ok fields => .ok (.object fields)
    | .error e => .error e
  | _ => .error (.fatal "child records must be objects to embed parent fields")

def embed (items : List Value) (included : List (String × Value)) :
    Except SourceError (List Char) :=
  match items.mapM (embedRecord included) with
  | .ok items => .ok (Value.array items).render
  | .error e => .error e

/-! ## Children -/

inductive Phase where
  /-- not polled yet -/
  | waiting
  /-- at a request, or about to make one -/
  | fetching
  /-- in `send`, with these records -/
  | sending (records : List Char)
  | done

/-- A child sequence: what the server has still to answer it, whether it fails then, and how
far it is. -/
structure Child where
  parent : ParentValues
  pages : List Page
  failure : Option SourceError
  localMax : Option String
  phase : Phase

structure Setup where
  stream : String
  /-- the cursor field of an incremental stream -/
  cursorField : Option String
  /-- the resume point, from which every child starts -/
  startValue : Option String
  /-- `max_concurrency` -/
  limit : Nat
  positive : 1 ≤ limit

/-- What is observed of a page before it is pushed. -/
def Setup.observe (setup : Setup) (page : Page) (highest : Option String) : Option String :=
  match setup.cursorField with
  | some field => Rest.observe (page.values.getD []) field highest
  | none => highest

/-- Without fields to embed the page's bytes pass through. -/
def ParentValues.records (parent : ParentValues) (page : Page) : Except SourceError (List Char) :=
  if parent.included.isEmpty then .ok page.records
  else embed (page.values.getD []) parent.included

/-- What one turn of `read_child_pages` comes to, up to its `send`. -/
inductive Turn where
  | goes (child : Child)
  | fails (error : SourceError)

def Child.fetch (setup : Setup) (child : Child) : Turn :=
  match child.pages with
  | page :: rest =>
    if 0 < page.count then
      match child.parent.records page with
      | .ok records =>
        .goes { child with
          pages := rest, localMax := setup.observe page child.localMax, phase := .sending records }
      | .error e => .fails e
    else .goes { child with pages := rest }
  | [] =>
    match child.failure with
    | none => .goes { child with phase := .done }
    | some e => .fails e

def Child.isWaiting (child : Child) : Bool :=
  match child.phase with
  | .waiting => true
  | _ => false

def Child.isDone (child : Child) : Bool :=
  match child.phase with
  | .done => true
  | _ => false

def Child.inFlight (child : Child) : Bool := !child.isWaiting && !child.isDone

/-! ## The machine -/

inductive Forwarder where
  | receiving
  | feeding (index : Nat) (records : List Char)
  | ended
  deriving DecidableEq, Repr

/-- What the host gets: pages, each under the child it is of, and checkpoints. -/
inductive Delivery where
  | records (index : Nat) (bytes : List Char)
  | checkpoint (cursor : String)
  deriving DecidableEq, Repr

structure FanOut where
  children : List Child
  channel : List (Nat × List Char)
  forwarder : Forwarder
  feedOpen : Bool
  feed : List Delivery
  /-- what the children that are done have returned, in the order they came to an end -/
  maxes : List (Option String)
  /-- how the driving future ended; the senders are gone with it -/
  driven : Option (Except SourceError Unit)
  returned : Option (Except SourceError (Option String))

/-- `limit * 2`. -/
def Setup.capacity (setup : Setup) : Nat := setup.limit * 2

/-- What the server will answer one child: its pages, and the error behind them if any. -/
structure Script where
  parent : ParentValues
  pages : List Page
  failure : Option SourceError

def Script.child (setup : Setup) (script : Script) : Child :=
  ⟨script.parent, script.pages, script.failure, setup.startValue, .waiting⟩

def FanOut.initial (setup : Setup) (scripts : List Script) : FanOut where
  children := scripts.map (Script.child setup)
  channel := []
  forwarder := .receiving
  feedOpen := true
  feed := []
  maxes := []
  driven := none
  returned := none

inductive Move where
  /-- the next child is polled for the first time -/
  | start
  | fetch (index : Nat)
  | send (index : Nat)
  /-- every child has come to its end -/
  | collect
  | receive
  | feed
  /-- the channel is empty and has no senders -/
  | drain
  /-- the host closes the feed -/
  | close
  | join

/-- `drive` goes on to the next child while fewer than the limit are in flight. -/
def FanOut.start (setup : Setup) (s : FanOut) : FanOut :=
  let index := s.children.findIdx Child.isWaiting
  match s.driven, s.children[index]? with
  | none, some child =>
    if s.children.countP Child.inFlight < setup.limit then
      { s with children := s.children.set index { child with phase := .fetching } }
    else s
  | _, _ => s

def FanOut.fetch (setup : Setup) (s : FanOut) (index : Nat) : FanOut :=
  match s.driven, s.children[index]? with
  | none, some child =>
    match child.phase with
    | .fetching =>
      match child.fetch setup with
      | .goes next =>
        { s with
          children := s.children.set index next
          maxes := if next.isDone then s.maxes ++ [next.localMax] else s.maxes }
      | .fails e =>
        { s with driven := some (.error (withParentContext e setup.stream child.parent)) }
    | _ => s
  | _, _ => s

/-- `send` waits while the channel is full and fails once the receiver is dropped; the
receiver lives until `read_children` returns. -/
def FanOut.send (setup : Setup) (s : FanOut) (index : Nat) : FanOut :=
  match s.driven, s.children[index]? with
  | none, some child =>
    match child.phase with
    | .sending records =>
      if s.returned.isSome then
        { s with
          children := s.children.set index { child with phase := .done }
          maxes := s.maxes ++ [child.localMax] }
      else if s.channel.length < setup.capacity then
        { s with
          children := s.children.set index { child with phase := .fetching }
          channel := s.channel ++ [(index, records)] }
      else s
    | _ => s
  | _, _ => s

def FanOut.collect (s : FanOut) : FanOut :=
  match s.driven with
  | none => if s.children.all Child.isDone then { s with driven := some (.ok ()) } else s
  | some _ => s

def FanOut.receive (s : FanOut) : FanOut :=
  match s.forwarder, s.channel with
  | .receiving, (index, records) :: rest =>
    { s with forwarder := .feeding index records, channel := rest }
  | _, _ => s

/-- A closed feed ends the forwarder. -/
def FanOut.forward (s : FanOut) : FanOut :=
  match s.forwarder with
  | .feeding index records =>
    if s.feedOpen then
      { s with forwarder := .receiving, feed := s.feed ++ [.records index records] }
    else { s with forwarder := .ended }
  | _ => s

def FanOut.drain (s : FanOut) : FanOut :=
  match s.forwarder, s.channel, s.driven with
  | .receiving, [], some _ => { s with forwarder := .ended }
  | _, _, _ => s

/-- Children checkpoint once, at feed end; a closed feed takes nothing any more. -/
def Setup.checkpoint (setup : Setup) (merged : Option String) (feedOpen : Bool) : List Delivery :=
  match setup.cursorField, merged with
  | some _, some cursor => if feedOpen then [.checkpoint cursor] else []
  | _, _ => []

/-- The end of `read_children`, and of `deliver` behind it. -/
def FanOut.join (setup : Setup) (s : FanOut) : FanOut :=
  match s.returned, s.forwarder, s.driven with
  | none, .ended, some (.error e) => { s with returned := some (.error e) }
  | none, .ended, some (.ok ()) =>
    let merged := mergeMaxes setup.startValue s.maxes
    { s with
      returned := some (.ok merged)
      feed := s.feed ++ setup.checkpoint merged s.feedOpen }
  | _, _, _ => s

def FanOut.step (setup : Setup) (s : FanOut) : Move → FanOut
  | .start => s.start setup
  | .fetch index => s.fetch setup index
  | .send index => s.send setup index
  | .collect => s.collect
  | .receive => s.receive
  | .feed => s.forward
  | .drain => s.drain
  | .close => { s with feedOpen := false }
  | .join => s.join setup

/-! ## What a move does -/

section Moves

variable (setup : Setup) (s : FanOut)

/-- A child in flight goes on by itself. -/
inductive Goes : Child → Child → Prop
  | skips {child : Child} {page : Page} {rest : List Page} :
      child.phase = .fetching → child.pages = page :: rest → page.count = 0 →
      Goes child { child with pages := rest }
  | fetches {child : Child} {page : Page} {rest : List Page} {records : List Char} :
      child.phase = .fetching → child.pages = page :: rest → 0 < page.count →
      child.parent.records page = .ok records →
      Goes child { child with
        pages := rest, localMax := setup.observe page child.localMax, phase := .sending records }

/-- A child in flight meets an error, its own or that of its page. -/
inductive Fails (child : Child) : SourceError → Prop
  | page {page : Page} {rest : List Page} {e : SourceError} : child.phase = .fetching →
      child.pages = page :: rest → 0 < page.count → child.parent.records page = .error e →
      Fails child e
  | ending {e : SourceError} : child.phase = .fetching → child.pages = [] →
      child.failure = some e → Fails child e

inductive Moves (move : Move) : FanOut → Prop
  | idle : Moves move s
  | started {index : Nat} {child : Child} : s.driven = none →
      index = s.children.findIdx Child.isWaiting → s.children[index]? = some child →
      s.children.countP Child.inFlight < setup.limit →
      Moves move { s with children := s.children.set index { child with phase := .fetching } }
  | went {index : Nat} {child next : Child} : s.driven = none →
      s.children[index]? = some child → Goes setup child next →
      Moves move { s with children := s.children.set index next }
  | finished {index : Nat} {child : Child} : s.driven = none →
      s.children[index]? = some child → child.phase = .fetching → child.pages = [] →
      child.failure = none →
      Moves move { s with
        children := s.children.set index { child with phase := .done }
        maxes := s.maxes ++ [child.localMax] }
  | failed {index : Nat} {child : Child} {e : SourceError} : s.driven = none →
      s.children[index]? = some child → Fails child e →
      Moves move { s with driven := some (.error (withParentContext e setup.stream child.parent)) }
  | sent {index : Nat} {child : Child} {records : List Char} : s.driven = none →
      s.children[index]? = some child → child.phase = .sending records →
      s.channel.length < setup.capacity →
      Moves move { s with
        children := s.children.set index { child with phase := .fetching }
        channel := s.channel ++ [(index, records)] }
  | abandoned {children : List Child} {maxes : List (Option String)} : s.driven = none →
      s.returned.isSome = true → Moves move { s with children := children, maxes := maxes }
  | collected : s.driven = none → s.children.all Child.isDone = true →
      Moves move { s with driven := some (.ok ()) }
  | received {index : Nat} {records : List Char} {rest : List (Nat × List Char)} :
      s.forwarder = .receiving → s.channel = (index, records) :: rest →
      Moves move { s with forwarder := .feeding index records, channel := rest }
  | fed {index : Nat} {records : List Char} : s.forwarder = .feeding index records →
      s.feedOpen = true →
      Moves move { s with forwarder := .receiving, feed := s.feed ++ [.records index records] }
  | broke {index : Nat} {records : List Char} : move = .feed →
      s.forwarder = .feeding index records → s.feedOpen = false → Moves move { s with forwarder := .ended }
  | drained {result : Except SourceError Unit} : s.forwarder = .receiving → s.channel = [] →
      s.driven = some result → Moves move { s with forwarder := .ended }
  | closed : Moves move { s with feedOpen := false }
  | refused {e : SourceError} : s.returned = none → s.forwarder = .ended →
      s.driven = some (.error e) → Moves move { s with returned := some (.error e) }
  | joined : s.returned = none → s.forwarder = .ended → s.driven = some (.ok ()) →
      Moves move { s with
        returned := some (.ok (mergeMaxes setup.startValue s.maxes))
        feed := s.feed ++
          setup.checkpoint (mergeMaxes setup.startValue s.maxes) s.feedOpen }

variable {setup} in
theorem Goes.not_done {child next : Child} (h : Goes setup child next) : next.isDone = false := by
  cases h with
  | skips hphase => simp [Child.isDone, hphase]
  | fetches => rfl

theorem fetch_cases {child : Child} (hphase : child.phase = .fetching) :
    (∃ next, child.fetch setup = .goes next ∧ Goes setup child next) ∨
    (child.fetch setup = .goes { child with phase := .done } ∧ child.pages = [] ∧
      child.failure = none) ∨
    ∃ e, child.fetch setup = .fails e ∧ Fails child e := by
  rw [Child.fetch]
  split
  · rename_i page rest hpages
    split
    · rename_i hcount
      split
      · rename_i records hrecords
        exact .inl ⟨_, rfl, .fetches hphase hpages hcount hrecords⟩
      · rename_i e hrecords
        exact .inr (.inr ⟨e, rfl, .page hphase hpages hcount hrecords⟩)
    · exact .inl ⟨_, rfl, .skips hphase hpages (by omega)⟩
  · rename_i hpages
    split
    · rename_i hfailure
      exact .inr (.inl ⟨rfl, hpages, hfailure⟩)
    · rename_i e hfailure
      exact .inr (.inr ⟨e, rfl, .ending hphase hpages hfailure⟩)

theorem step_moves (move : Move) : Moves setup s move (s.step setup move) := by
  cases move with
  | start =>
    simp only [FanOut.step, FanOut.start]
    split
    · rename_i child hdriven hchild
      split
      · rename_i hroom
        exact .started hdriven rfl hchild hroom
      · exact .idle
    · exact .idle
  | fetch index =>
    simp only [FanOut.step, FanOut.fetch]
    split
    · rename_i child hdriven hchild
      split
      · rename_i hphase
        obtain ⟨next, hfetch, hgoes⟩ | ⟨hfetch, hpages, hfailure⟩ | ⟨e, hfetch, hfails⟩ :=
          fetch_cases setup hphase
        · simp only [hfetch, hgoes.not_done, Bool.false_eq_true, if_false]
          exact .went hdriven hchild hgoes
        · simp only [hfetch, Child.isDone, if_true]
          exact .finished hdriven hchild hphase hpages hfailure
        · simp only [hfetch]
          exact .failed hdriven hchild hfails
      · exact .idle
    · exact .idle
  | send index =>
    simp only [FanOut.step, FanOut.send]
    split
    · rename_i child hdriven hchild
      split
      · rename_i records hphase
        split
        · rename_i hreturned
          exact .abandoned hdriven hreturned
        · split
          · rename_i hroom
            exact .sent hdriven hchild hphase hroom
          · exact .idle
      · exact .idle
    · exact .idle
  | collect =>
    simp only [FanOut.step, FanOut.collect]
    split
    · rename_i hdriven
      split
      · rename_i hall
        exact .collected hdriven hall
      · exact .idle
    · exact .idle
  | receive =>
    simp only [FanOut.step, FanOut.receive]
    split
    · rename_i index records rest hforwarder hchannel
      exact .received hforwarder hchannel
    · exact .idle
  | feed =>
    simp only [FanOut.step, FanOut.forward]
    split
    · rename_i index records hforwarder
      split
      · rename_i hopen
        exact .fed hforwarder hopen
      · rename_i hclosed
        exact .broke rfl hforwarder (Bool.eq_false_of_not_eq_true hclosed)
    · exact .idle
  | drain =>
    simp only [FanOut.step, FanOut.drain]
    split
    · rename_i result hforwarder hchannel hdriven
      exact .drained hforwarder hchannel hdriven
    · exact .idle
  | close => exact .closed
  | join =>
    simp only [FanOut.step, FanOut.join]
    split
    · rename_i e hreturned hforwarder hdriven
      exact .refused hreturned hforwarder hdriven
    · rename_i hreturned hforwarder hdriven
      exact .joined hreturned hforwarder hdriven
    · exact .idle

end Moves

end Rest
