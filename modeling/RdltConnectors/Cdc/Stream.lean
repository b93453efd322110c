import RdltConnectors.Cdc.Apply
import RdltConnectors.Library.Fallible

/-!
# Change streams by transaction

A peeked range is a list of committed transactions, and perhaps one left open at
its end. Read a transaction at a time, a change pass is a much smaller machine:
it refuses a drifted relation, skips an applied transaction, and otherwise turns
the body into rows or into the body's first unappliable record. This file has
that machine and shows that the message-level one runs exactly as it does.
-/
namespace Cdc

open PgTypes

variable {V : Type}

structure Transaction where
  beginLsn : Nat
  body : List (Nat × Message)
  commit : Nat
  changes : ∀ r ∈ body, r.2.isChange = true

def Transaction.messages (t : Transaction) : List (Nat × Message) :=
  (t.beginLsn, .begin) :: (t.body ++ [(t.commit, .commit)])

def streamOf (txs : List Transaction) : List (Nat × Message) :=
  txs.flatMap Transaction.messages

@[simp] theorem streamOf_nil : streamOf [] = [] := rfl
@[simp] theorem streamOf_cons (t : Transaction) (txs : List Transaction) :
    streamOf (t :: txs) = t.messages ++ streamOf txs := by
  simp [streamOf]
@[simp] theorem streamOf_append (txs txs' : List Transaction) :
    streamOf (txs ++ txs') = streamOf txs ++ streamOf txs' := by
  simp [streamOf]

/-! ## Relations in force -/

/-- The last relation message for each id. -/
abbrev Relations := Nat → Option Relation

def noRelations : Relations := fun _ => none

def Relations.see (rel : Relations) : Message → Relations
  | .relation r => fun id => if id = r.id then some r else rel id
  | _ => rel

def Relations.after (rel : Relations) (messages : List (Nat × Message)) : Relations :=
  messages.foldl (fun rel m => rel.see m.2) rel

@[simp] theorem after_nil (rel : Relations) : rel.after [] = rel := rfl
@[simp] theorem after_cons (rel : Relations) (m : Nat × Message)
    (messages : List (Nat × Message)) :
    rel.after (m :: messages) = (rel.see m.2).after messages := rfl
@[simp] theorem after_append (rel : Relations) (xs ys : List (Nat × Message)) :
    rel.after (xs ++ ys) = (rel.after xs).after ys := by
  simp [Relations.after]
@[simp] theorem after_messages (rel : Relations) (t : Transaction) :
    rel.after t.messages = rel.after t.body := by
  simp [Transaction.messages, Relations.see]

def Plan.mapOf (p : Plan) (relation : Relation) : Option (List Nat) :=
  if p.selects relation then (p.planMap relation).toOption else none

/-- The column map of a relation id, if it is the stream's table. -/
def Plan.ours (p : Plan) (rel : Relations) (id : Nat) : Option (List Nat) :=
  (rel id).bind p.mapOf

/-- Relation messages are checked on arrival. -/
def Plan.checkRelations (p : Plan) : List (Nat × Message) → Except SourceError Unit
  | [] => .ok ()
  | (_, .relation r) :: messages =>
    if p.selects r then
      match p.planMap r with
      | .error e => .error e
      | .ok _ => p.checkRelations messages
    else p.checkRelations messages
  | _ :: messages => p.checkRelations messages

/-! ## The rows of a transaction -/

def Plan.changeRows (p : Plan) (ours : Nat → Option (List Nat)) :
    Message → Except SourceError (List Row)
  | .insert relation new =>
    match ours relation with
    | some map => p.insertRows map new
    | none => .ok []
  | .update relation old new =>
    match ours relation with
    | some map => p.updateRows map old new
    | none => .ok []
  | .delete relation old =>
    match ours relation with
    | some map => p.deleteRows map old
    | none => .ok []
  | .truncate relations =>
    if relations.any fun id => (ours id).isSome then .error p.truncateError else .ok []
  | _ => .ok []

/-- All rows of a body, or its first unappliable record. -/
def Plan.bodyRows (p : Plan) (rel : Relations) :
    List (Nat × Message) → Except SourceError (List Row)
  | [] => .ok []
  | m :: body => do
    let rows ← p.changeRows (p.ours rel) m.2
    let rest ← p.bodyRows (rel.see m.2) body
    pure (rows ++ rest)

/-! ## The transaction-level machine -/

/-- A batch of everything ready, and the checkpoint of the commit just applied. -/
def cut (builder : ColumnBuilder V) (p : Plan) (ready : List Row) (commit : Nat) :
    Except SourceError (List Row × List (Emit V)) :=
  if ready.isEmpty then .ok (ready, [])
  else
    match batchOf builder p.columns p.flagColumn (ready.map Prod.fst) (ready.map Prod.snd) with
    | .error detail => .error (p.fatal detail)
    | .ok batch => .ok ([], [.batch batch, .checkpoint commit])

/-- At the commit: an applied transaction vanishes, rows and error alike. -/
def decideCommit (builder : ColumnBuilder V) (p : Plan) (since : Nat) (ready : List Row)
    (outcome : Except SourceError (List Row)) (commit : Nat) :
    Except SourceError (List Row × List (Emit V)) :=
  if commit ≤ since then .ok (ready, [])
  else
    match outcome with
    | .error e => .error e
    | .ok rows =>
      if (ready ++ rows).length ≥ p.batchMaxRows then cut builder p (ready ++ rows) commit
      else .ok (ready ++ rows, [])

def settle (builder : ColumnBuilder V) (p : Plan) (since : Nat) (rel : Relations)
    (ready : List Row) (t : Transaction) : Except SourceError (List Row × List (Emit V)) :=
  match p.checkRelations t.body with
  | .error e => .error e
  | .ok _ => decideCommit builder p since ready (p.bodyRows rel t.body) t.commit

/-- What is left over at the end of the range, and the target's checkpoint. -/
def finishPass (builder : ColumnBuilder V) (p : Plan) (since target : Nat) (ready : List Row) :
    Pass V :=
  if ready.isEmpty then ⟨[.checkpoint (max target since)], .ok ()⟩
  else
    match batchOf builder p.columns p.flagColumn (ready.map Prod.fst) (ready.map Prod.snd) with
    | .error detail => ⟨[], .error (p.fatal detail)⟩
    | .ok batch => ⟨[.batch batch, .checkpoint (max target since)], .ok ()⟩

def passOf (builder : ColumnBuilder V) (p : Plan) (since target : Nat)
    (openTail : List (Nat × Message)) : Relations → List Row → List Transaction → Pass V
  | _, ready, [] =>
    match p.checkRelations openTail with
    | .error e => ⟨[], .error e⟩
    | .ok _ => finishPass builder p since target ready
  | rel, ready, t :: txs =>
    match settle builder p since rel ready t with
    | .error e => ⟨[], .error e⟩
    | .ok (ready', emits) =>
      let rest := passOf builder p since target openTail (rel.after t.body) ready' txs
      ⟨emits ++ rest.emits, rest.result⟩

/-! ## The message-level machine follows it -/

/-- The maps the state machine holds are those of the relations in force. -/
def Tracks (p : Plan) (rel : Relations) (a : Apply) : Prop :=
  ∀ id, a.ourMap id = p.ours rel id

/-- The open transaction has come to `outcome` so far. -/
def Holds (a : Apply) : Except SourceError (List Row) → Prop
  | .ok rows => a.transactionRows = rows ∧ a.transactionError = none
  | .error e => a.transactionError = some e

def joinRows (outcome more : Except SourceError (List Row)) : Except SourceError (List Row) :=
  outcome.bind fun rows => more.map (rows ++ ·)

theorem holds_record {a : Apply} {outcome : Except SourceError (List Row)} (h : Holds a outcome)
    (more : Except SourceError (List Row)) : Holds (a.record more) (joinRows outcome more) := by
  cases outcome with
  | error e =>
    cases more with
    | ok rows => exact h
    | error e' =>
      have hsame : a.record (.error e') = a := by
        simp [Apply.record, Apply.defer, show a.transactionError = some e from h]
      rw [hsame]
      exact h
  | ok rows =>
    obtain ⟨hrows, herr⟩ := h
    cases more with
    | ok rows' => exact ⟨by simp [Apply.record, hrows], herr⟩
    | error e' => simp [joinRows, Except.bind, Except.map, Apply.record, Apply.defer, herr, Holds]

theorem holds_joinRows_nil {a : Apply} {outcome : Except SourceError (List Row)}
    (h : Holds a outcome) : Holds a (joinRows outcome (.ok [])) := by
  cases outcome with
  | error e => exact h
  | ok rows => simpa [joinRows, Except.bind, Except.map] using h

theorem joinRows_assoc (x y z : Except SourceError (List Row)) :
    joinRows (joinRows x y) z = joinRows x (joinRows y z) := by
  cases x <;> cases y <;> cases z <;> simp [joinRows, Except.bind, Except.map]

theorem bodyRows_cons (p : Plan) (rel : Relations) (m : Nat × Message)
    (body : List (Nat × Message)) :
    p.bodyRows rel (m :: body) =
      joinRows (p.changeRows (p.ours rel) m.2) (p.bodyRows (rel.see m.2) body) := by
  rw [Plan.bodyRows]
  cases p.changeRows (p.ours rel) m.2 with
  | error e => rfl
  | ok rows => cases p.bodyRows (rel.see m.2) body <;> rfl

/-- Everything the rest of the stream depends on but the open transaction. -/
structure SameBase (a a' : Apply) : Prop where
  since : a'.since = a.since
  ready : a'.readyRows = a.readyRows
  last : a'.lastCommit = a.lastCommit

theorem SameBase.trans {a b c : Apply} (hab : SameBase a b) (hbc : SameBase b c) :
    SameBase a c :=
  ⟨hbc.since.trans hab.since, hbc.ready.trans hab.ready, hbc.last.trans hab.last⟩

theorem sameBase_record (a : Apply) (more : Except SourceError (List Row)) :
    SameBase a (a.record more) := by
  cases more with
  | ok rows => exact ⟨rfl, rfl, rfl⟩
  | error e =>
    by_cases h : a.transactionError.isNone
    · simp only [Apply.record, Apply.defer, h, if_true]
      exact ⟨rfl, rfl, rfl⟩
    · simp only [Apply.record, Apply.defer, h]
      exact ⟨rfl, rfl, rfl⟩

@[simp] theorem record_ourMap (a : Apply) (more : Except SourceError (List Row)) (id : Nat) :
    (a.record more).ourMap id = a.ourMap id := by
  cases more with
  | ok rows => rfl
  | error e => by_cases h : a.transactionError.isNone <;> simp [Apply.record, Apply.defer, h,
      Apply.ourMap]

variable {builder : ColumnBuilder V} {p : Plan} {rel : Relations} {a : Apply}

variable (builder) in
/-- A change that is no relation message: its rows or its failure join the
transaction and nothing else moves. -/
theorem onMessage_change {m : Message} (hm : m.isChange = true)
    (hrel : ∀ r, m ≠ .relation r) (htr : Tracks p rel a) (lsn : Nat) :
    a.onMessage builder p lsn m = .ok (a.record (p.changeRows (p.ours rel) m), []) ∨
      a.onMessage builder p lsn m = .ok (a, []) ∧ p.changeRows (p.ours rel) m = .ok [] := by
  cases m with
  | begin => simp [Message.isChange] at hm
  | commit => simp [Message.isChange] at hm
  | relation r => exact absurd rfl (hrel r)
  | insert id new =>
    simp only [Apply.onMessage, Plan.changeRows, htr id]
    cases p.ours rel id <;> simp
  | update id old new =>
    simp only [Apply.onMessage, Plan.changeRows, htr id]
    cases p.ours rel id <;> simp
  | delete id old =>
    simp only [Apply.onMessage, Plan.changeRows, htr id]
    cases p.ours rel id <;> simp
  | truncate ids =>
    simp only [Apply.onMessage, Plan.changeRows, htr _]
    by_cases h : (ids.any fun id => (p.ours rel id).isSome) = true
    · simp [h, Apply.record]
    · simp [h]
  | origin => exact .inr ⟨rfl, rfl⟩
  | type => exact .inr ⟨rfl, rfl⟩

variable (builder) in
/-- A relation message: refused if it drifted, in force from here on otherwise. -/
theorem onMessage_relation (r : Relation) (htr : Tracks p rel a) (lsn : Nat) :
    (∃ e, p.selects r = true ∧ p.planMap r = .error e ∧
      a.onMessage builder p lsn (.relation r) = .error e) ∨
    (p.selects r = true → ∃ map, p.planMap r = .ok map) ∧
      ∃ a', a.onMessage builder p lsn (.relation r) = .ok (a', []) ∧
        Tracks p (rel.see (.relation r)) a' ∧ SameBase a a' ∧
        ∀ outcome, Holds a outcome → Holds a' outcome := by
  have htracks (entry : Option (List Nat)) (hentry : entry = p.mapOf r) :
      Tracks p (rel.see (.relation r))
        { a with relationMaps := fun id =>
          if id = r.id then some entry else a.relationMaps id } := by
    intro id
    by_cases hid : id = r.id
    · simp [Apply.ourMap, Plan.ours, Relations.see, hid, hentry]
    · have := htr id
      simpa [Apply.ourMap, Plan.ours, Relations.see, hid] using this
  by_cases hsel : p.selects r = true
  · cases hmap : p.planMap r with
    | error e => exact .inl ⟨e, hsel, rfl, by simp [Apply.onMessage, hsel, hmap]⟩
    | ok map =>
      refine .inr ⟨fun _ => ⟨map, rfl⟩, _, by simp [Apply.onMessage, hsel, hmap],
        htracks (some map) (by simp [Plan.mapOf, hsel, hmap, Except.toOption]), ⟨rfl, rfl, rfl⟩, ?_⟩
      intro outcome h
      cases outcome <;> exact h
  · refine .inr ⟨fun h => absurd h hsel, _, by simp [Apply.onMessage, hsel],
      htracks none (by simp [Plan.mapOf, hsel]), ⟨rfl, rfl, rfl⟩, ?_⟩
    intro outcome h
    cases outcome <;> exact h

/-- The check a message list passes or fails on arrival, one message at a time. -/
theorem checkRelations_cons (p : Plan) (lsn : Nat) (m : Message)
    (messages : List (Nat × Message)) (hrel : ∀ r, m ≠ .relation r) :
    p.checkRelations ((lsn, m) :: messages) = p.checkRelations messages := by
  cases m with
  | relation r => exact absurd rfl (hrel r)
  | _ => rfl

variable (builder) in
/-- A transaction's body: refused on its first drifted relation, or consumed
into the outcome that the rows in it come to. -/
theorem consume_body (target : Nat) (body rest : List (Nat × Message))
    (hbody : ∀ r ∈ body, r.2.isChange = true) (htr : Tracks p rel a)
    {outcome : Except SourceError (List Row)} (hout : Holds a outcome) :
    (∃ e, p.checkRelations body = .error e ∧
      consume builder p target a (body ++ rest) = ⟨[], .error e⟩) ∨
    p.checkRelations body = .ok () ∧
      ∃ a', consume builder p target a (body ++ rest) = consume builder p target a' rest ∧
        Tracks p (rel.after body) a' ∧ SameBase a a' ∧
        Holds a' (joinRows outcome (p.bodyRows rel body)) := by
  induction body generalizing rel a outcome with
  | nil => exact .inr ⟨rfl, a, rfl, htr, ⟨rfl, rfl, rfl⟩, holds_joinRows_nil hout⟩
  | cons m body ih =>
    obtain ⟨lsn, m⟩ := m
    have hm : m.isChange = true := hbody (lsn, m) (by simp)
    have hrest : ∀ r ∈ body, r.2.isChange = true := fun r hr => hbody r (by simp [hr])
    by_cases hrel : ∃ r, m = .relation r
    · obtain ⟨r, rfl⟩ := hrel
      rcases onMessage_relation builder r htr lsn with
        ⟨e, hsel, hmap, hstep⟩ | ⟨hok, a', hstep, htr', hbase, hkeep⟩
      · exact .inl ⟨e, by simp [Plan.checkRelations, hsel, hmap],
          by simp [consume, hstep]⟩
      · have hcheck : p.checkRelations ((lsn, .relation r) :: body) = p.checkRelations body := by
          by_cases hsel : p.selects r = true
          · obtain ⟨map, hmap⟩ := hok hsel
            simp [Plan.checkRelations, hsel, hmap]
          · simp [Plan.checkRelations, hsel]
        have hrows : p.bodyRows rel ((lsn, .relation r) :: body)
            = p.bodyRows (rel.see (.relation r)) body := by
          rw [bodyRows_cons]
          simp only [Plan.changeRows]
          cases p.bodyRows (rel.see (.relation r)) body <;> rfl
        have hcons : consume builder p target a ((lsn, .relation r) :: body ++ rest)
            = consume builder p target a' (body ++ rest) := by
          simp [consume, hstep]
        rw [hcheck, hcons, hrows]
        rcases ih hrest htr' (hkeep outcome hout) with hbad | ⟨hgood, a'', hc, ht, hb, hh⟩
        · exact .inl hbad
        · exact .inr ⟨hgood, a'', hc, ht, hbase.trans hb, hh⟩
    · have hne : ∀ r, m ≠ .relation r := fun r hr => hrel ⟨r, hr⟩
      have hsee : rel.see m = rel := by
        cases m with
        | relation r => exact absurd rfl (hne r)
        | _ => rfl
      have hstep : ∃ a', a.onMessage builder p lsn m = .ok (a', []) ∧ Tracks p rel a' ∧
          SameBase a a' ∧ Holds a' (joinRows outcome (p.changeRows (p.ours rel) m)) := by
        rcases onMessage_change builder hm hne htr lsn with hrec | ⟨hskip, hnone⟩
        · exact ⟨_, hrec, fun id => by simpa using htr id, sameBase_record a _,
            holds_record hout _⟩
        · exact ⟨a, hskip, htr, ⟨rfl, rfl, rfl⟩, hnone ▸ holds_joinRows_nil hout⟩
      obtain ⟨a', hstep, htr', hbase, hout'⟩ := hstep
      have hcons : consume builder p target a ((lsn, m) :: body ++ rest)
          = consume builder p target a' (body ++ rest) := by
        simp [consume, hstep]
      rw [checkRelations_cons p lsn m body hne, hcons, bodyRows_cons, ← joinRows_assoc,
        after_cons]
      simp only [hsee]
      rcases ih hrest htr' hout' with hbad | ⟨hgood, a'', hc, ht, hb, hh⟩
      · exact .inl hbad
      · exact .inr ⟨hgood, a'', hc, ht, hbase.trans hb, hh⟩

/-- Between transactions: nothing open, nothing deferred. -/
structure Settled (p : Plan) (rel : Relations) (since : Nat) (ready : List Row) (a : Apply) :
    Prop where
  tracks : Tracks p rel a
  since : a.since = since
  ready : a.readyRows = ready
  error : a.transactionError = none

theorem settled_empty (p : Plan) (since : Nat) :
    Settled p noRelations since [] (Apply.empty since) :=
  ⟨fun _ => rfl, rfl, rfl, rfl⟩

variable (builder) in
theorem flush_eq {ready : List Row} {commit : Nat} (hready : a.readyRows = ready)
    (hlast : a.lastCommit = some commit) :
    (∃ e, cut builder p ready commit = .error e ∧ a.flush builder p true = .error e) ∨
      ∃ ready' emits, cut builder p ready commit = .ok (ready', emits) ∧
        a.flush builder p true = .ok ({ a with readyRows := ready' }, emits) := by
  subst hready
  unfold cut Apply.flush
  by_cases hempty : a.readyRows.isEmpty
  · exact .inr ⟨a.readyRows, [], by simp [hempty], by simp [hempty]⟩
  · simp only [hempty, hlast]
    cases batchOf builder p.columns p.flagColumn (a.readyRows.map Prod.fst)
        (a.readyRows.map Prod.snd) with
    | error detail => exact .inl ⟨_, rfl, rfl⟩
    | ok batch => exact .inr ⟨_, _, rfl, rfl⟩

variable (builder) in
/-- The commit decides as the transaction-level machine does. -/
theorem commit_eq {since : Nat} {ready : List Row} {outcome : Except SourceError (List Row)}
    (htr : Tracks p rel a) (hsince : a.since = since) (hready : a.readyRows = ready)
    (hout : Holds a outcome) (commit : Nat) :
    (∃ e, decideCommit builder p since ready outcome commit = .error e ∧
      a.commit builder p commit = .error e) ∨
    ∃ ready' emits a', decideCommit builder p since ready outcome commit = .ok (ready', emits) ∧
      a.commit builder p commit = .ok (a', emits) ∧ Settled p rel since ready' a' := by
  subst hsince hready
  unfold decideCommit Apply.commit
  by_cases hle : commit ≤ a.since
  · simp only [hle, if_true]
    exact .inr ⟨a.readyRows, [], _, rfl, rfl, ⟨htr, rfl, rfl, rfl⟩⟩
  · cases outcome with
    | error e =>
      have herr : a.transactionError = some e := hout
      simp only [hle, if_false, herr]
      exact .inl ⟨e, rfl, rfl⟩
    | ok rows =>
      obtain ⟨rfl, herr⟩ := hout
      simp only [hle, if_false, herr]
      by_cases hfull : (a.readyRows ++ a.transactionRows).length ≥ p.batchMaxRows
      · simp only [if_pos hfull]
        rcases flush_eq builder (p := p)
            (a := { a with
              transactionRows := [], transactionError := none,
              readyRows := a.readyRows ++ a.transactionRows, lastCommit := some commit })
            rfl rfl with
          ⟨e, hcut, hflush⟩ | ⟨ready', emits, hcut, hflush⟩
        · exact .inl ⟨e, hcut, hflush⟩
        · exact .inr ⟨ready', emits, _, hcut, hflush, ⟨htr, rfl, rfl, rfl⟩⟩
      · simp only [if_neg hfull]
        exact .inr ⟨_, [], _, rfl, rfl, ⟨htr, rfl, rfl, rfl⟩⟩

variable (builder) in
/-- One transaction, message by message, is one step of the smaller machine. -/
theorem consume_transaction {since : Nat} (target : Nat) {ready : List Row} (t : Transaction)
    (rest : List (Nat × Message)) (h : Settled p rel since ready a) :
    (∃ e, settle builder p since rel ready t = .error e ∧
      consume builder p target a (t.messages ++ rest) = ⟨[], .error e⟩) ∨
    ∃ ready' emits a', settle builder p since rel ready t = .ok (ready', emits) ∧
      Settled p (rel.after t.body) since ready' a' ∧
      consume builder p target a (t.messages ++ rest) =
        ⟨emits ++ (consume builder p target a' rest).emits,
          (consume builder p target a' rest).result⟩ := by
  have hbegin : consume builder p target a (t.messages ++ rest)
      = consume builder p target { a with transactionRows := [] }
          (t.body ++ ((t.commit, .commit) :: rest)) := by
    simp [Transaction.messages, consume, Apply.onMessage]
  rw [hbegin]
  unfold settle
  rcases consume_body builder target t.body ((t.commit, .commit) :: rest)
      t.changes (a := { a with transactionRows := [] }) h.tracks
      (show Holds _ (.ok []) from ⟨rfl, h.error⟩) with
    ⟨e, hcheck, hc⟩ | ⟨hcheck, a', hc, htr, hbase, hout⟩
  · exact .inl ⟨e, by rw [hcheck], hc⟩
  · have hrows : joinRows (.ok []) (p.bodyRows rel t.body) = p.bodyRows rel t.body := by
      cases p.bodyRows rel t.body <;> simp [joinRows, Except.bind, Except.map]
    rw [hrows] at hout
    rw [hcheck, hc]
    rcases commit_eq builder htr (hbase.since.trans h.since)
        (hbase.ready.trans h.ready) hout t.commit with
      ⟨e, hdecide, hcommit⟩ | ⟨ready', emits, a'', hdecide, hcommit, hset⟩
    · exact .inl ⟨e, hdecide, by simp [consume, Apply.onMessage, hcommit]⟩
    · exact .inr ⟨ready', emits, a'', hdecide, hset, by
        simp [consume, Apply.onMessage, hcommit]⟩

theorem finish_eq {since target : Nat} {ready : List Row} (hsince : a.since = since)
    (hready : a.readyRows = ready) :
    (consume builder p target a []) = finishPass builder p since target ready := by
  subst hsince hready
  unfold consume Apply.finish Apply.flush finishPass
  by_cases hempty : a.readyRows.isEmpty
  · simp [hempty]
  · simp only [hempty]
    cases batchOf builder p.columns p.flagColumn (a.readyRows.map Prod.fst)
        (a.readyRows.map Prod.snd) <;> simp

/-- What is still open at the end of the range is dropped, unless it already
failed on a drifted relation. -/
theorem consume_tail {since target : Nat} {ready : List Row}
    (openTail : List (Nat × Message)) (htail : ∀ r ∈ openTail, r.2 ≠ .commit)
    (htr : Tracks p rel a) (hsince : a.since = since) (hready : a.readyRows = ready) :
    consume builder p target a openTail =
      match p.checkRelations openTail with
      | .error e => ⟨[], .error e⟩
      | .ok _ => finishPass builder p since target ready := by
  induction openTail generalizing rel a with
  | nil => exact finish_eq hsince hready
  | cons m openTail ih =>
    obtain ⟨lsn, m⟩ := m
    have hrest : ∀ r ∈ openTail, r.2 ≠ .commit := fun r hr => htail r (by simp [hr])
    by_cases hrel : ∃ r, m = .relation r
    · obtain ⟨r, rfl⟩ := hrel
      rcases onMessage_relation builder r htr lsn with
        ⟨e, hsel, hmap, hstep⟩ | ⟨hok, a', hstep, htr', hbase, -⟩
      · simp [consume, hstep, Plan.checkRelations, hsel, hmap]
      · have hcheck : p.checkRelations ((lsn, .relation r) :: openTail)
            = p.checkRelations openTail := by
          by_cases hsel : p.selects r = true
          · obtain ⟨map, hmap⟩ := hok hsel
            simp [Plan.checkRelations, hsel, hmap]
          · simp [Plan.checkRelations, hsel]
        have hnext := ih hrest htr' (hbase.since.trans hsince) (hbase.ready.trans hready)
        rw [hcheck, ← hnext]
        simp [consume, hstep]
    · have hne : ∀ r, m ≠ .relation r := fun r hr => hrel ⟨r, hr⟩
      have hstep : ∃ a', a.onMessage builder p lsn m = .ok (a', []) ∧ Tracks p rel a' ∧
          SameBase a a' := by
        by_cases hchange : m.isChange = true
        · rcases onMessage_change builder hchange hne htr lsn with hrec | ⟨hskip, -⟩
          · exact ⟨_, hrec, fun id => by simpa using htr id, sameBase_record a _⟩
          · exact ⟨a, hskip, htr, ⟨rfl, rfl, rfl⟩⟩
        · cases m with
          | begin => exact ⟨_, rfl, htr, ⟨rfl, rfl, rfl⟩⟩
          | commit => exact absurd rfl (htail (lsn, .commit) (by simp))
          | _ => simp [Message.isChange] at hchange
      obtain ⟨a', hstep, htr', hbase⟩ := hstep
      have hnext := ih hrest htr' (hbase.since.trans hsince) (hbase.ready.trans hready)
      rw [checkRelations_cons p lsn m openTail hne, ← hnext]
      simp [consume, hstep]

/-- The simulation: a whole pass, message by message, is a pass of the
transaction-level machine. -/
theorem consume_eq_passOf {since target : Nat} {ready : List Row}
    (openTail : List (Nat × Message)) (htail : ∀ r ∈ openTail, r.2 ≠ .commit)
    (txs : List Transaction) (h : Settled p rel since ready a) :
    consume builder p target a (streamOf txs ++ openTail) =
      passOf builder p since target openTail rel ready txs := by
  induction txs generalizing rel ready a with
  | nil =>
    exact consume_tail openTail htail h.tracks h.since h.ready
  | cons t txs ih =>
    rw [streamOf_cons, List.append_assoc]
    unfold passOf
    rcases consume_transaction builder target t
        (streamOf txs ++ openTail) h with
      ⟨e, hsettle, hc⟩ | ⟨ready', emits, a', hsettle, hset, hc⟩
    · rw [hc, hsettle]
    · rw [hc, hsettle, ih hset]

end Cdc
