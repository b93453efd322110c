import RdltConnectors.Cdc.Checkpoint

/-!
# Replaying applied history

A pass reads the slot's backlog from its start, so most of what it reads may be
applied already. Deferred errors make such transactions harmless, but a relation
message is checked as it arrives, before the commit that would show it to be
old. This file settles when the applied part of a stream can be left out.
-/
namespace Cdc

open PgTypes Fallible

variable {V : Type} {builder : ColumnBuilder V} {p : Plan} {rel : Relations}

/-- The relation has every planned column. -/
def Plan.Carries (p : Plan) (relation : Relation) : Prop :=
  ∀ column ∈ p.columns, ∃ c ∈ relation.columns, c.name = column.name

instance (p : Plan) (relation : Relation) : Decidable (p.Carries relation) :=
  inferInstanceAs (Decidable (∀ column ∈ p.columns, _))

theorem planMap_ok {r : Relation} : (∃ map, p.planMap r = .ok map) ↔ p.Carries r := by
  unfold Plan.planMap Plan.Carries
  rw [mapM_succeeds]
  refine forall₂_congr fun column _ => ?_
  cases hfind : r.columns.findIdx? fun c => c.name == column.name with
  | none =>
    simp only [List.findIdx?_eq_none_iff, beq_eq_false_iff_ne, ne_eq] at hfind
    refine iff_of_false (fun ⟨b, hb⟩ => by cases hb) ?_
    rintro ⟨c, hc, hname⟩
    exact hfind c hc hname
  | some index =>
    obtain ⟨hlt, hname, -⟩ := List.findIdx?_eq_some_iff_getElem.1 hfind
    exact iff_of_true ⟨index, rfl⟩ ⟨r.columns[index], by simp, by simpa using hname⟩

/-- Arrival checks pass exactly when no relation message of the table drifted. -/
theorem checkRelations_ok {messages : List (Nat × Message)} :
    p.checkRelations messages = .ok () ↔
      ∀ lsn r, (lsn, .relation r) ∈ messages → p.selects r = true → p.Carries r := by
  induction messages with
  | nil => simp [Plan.checkRelations]
  | cons m messages ih =>
    obtain ⟨lsn, m⟩ := m
    by_cases hrel : ∃ r, m = .relation r
    · obtain ⟨r, rfl⟩ := hrel
      simp only [Plan.checkRelations, List.mem_cons, Prod.mk.injEq, Message.relation.injEq]
      by_cases hsel : p.selects r = true
      · cases hmap : p.planMap r with
        | error e =>
          have hnot : ¬ p.Carries r := by
            rw [← planMap_ok]
            rintro ⟨map, hok⟩
            simp [hmap] at hok
          simp only [hsel, if_true, reduceCtorEq, false_iff]
          exact fun h => hnot (h lsn r (.inl ⟨rfl, rfl⟩) hsel)
        | ok map =>
          have hcarries : p.Carries r := planMap_ok.1 ⟨map, hmap⟩
          simp only [hsel, if_true, ih]
          constructor
          · rintro h lsn' r' (⟨-, rfl⟩ | hmem) hsel'
            · exact hcarries
            · exact h lsn' r' hmem hsel'
          · exact fun h lsn' r' hmem => h lsn' r' (.inr hmem)
      · simp only [hsel, if_false, Bool.false_eq_true, ih]
        constructor
        · rintro h lsn' r' (⟨-, rfl⟩ | hmem) hsel'
          · exact absurd hsel' hsel
          · exact h lsn' r' hmem hsel'
        · exact fun h lsn' r' hmem => h lsn' r' (.inr hmem)
    · have hne : ∀ r, m ≠ .relation r := fun r hr => hrel ⟨r, hr⟩
      rw [checkRelations_cons p lsn m messages hne, ih]
      constructor
      · intro h lsn' r' hmem
        rcases List.mem_cons.1 hmem with heq | hmem
        · exact absurd (Prod.mk.inj heq).2.symm (hne r')
        · exact h lsn' r' hmem
      · exact fun h lsn' r' hmem => h lsn' r' (by simp [hmem])

/-! ## What is left of the applied part -/

/-- The messages redefine this relation id. -/
def redefines (id : Nat) (messages : List (Nat × Message)) : Bool :=
  messages.any fun m =>
    match m.2 with
    | .relation r => r.id == id
    | _ => false

/-- The table's relation messages still in force at the end: the last one, for
each relation id the table has had. -/
def Plan.inForce (p : Plan) : List (Nat × Message) → List (Nat × Message)
  | [] => []
  | (lsn, .relation r) :: messages =>
    if p.selects r && !redefines r.id messages then (lsn, .relation r) :: p.inForce messages
    else p.inForce messages
  | _ :: messages => p.inForce messages

theorem inForce_cons (lsn : Nat) (m : Message) (messages : List (Nat × Message))
    (hrel : ∀ r, m ≠ .relation r) :
    p.inForce ((lsn, m) :: messages) = p.inForce messages := by
  cases m with
  | relation r => exact absurd rfl (hrel r)
  | _ => rfl

theorem mem_inForce {messages : List (Nat × Message)} {m : Nat × Message}
    (h : m ∈ p.inForce messages) :
    m ∈ messages ∧ ∃ r, m.2 = .relation r ∧ p.selects r = true := by
  induction messages with
  | nil => cases h
  | cons first messages ih =>
    obtain ⟨lsn, first⟩ := first
    by_cases hrel : ∃ r, first = .relation r
    · obtain ⟨r, rfl⟩ := hrel
      by_cases hkeep : (p.selects r && !redefines r.id messages) = true
      · simp only [Plan.inForce, hkeep, if_true, List.mem_cons] at h
        rcases h with rfl | h
        · simp only [Bool.and_eq_true] at hkeep
          exact ⟨by simp, r, rfl, hkeep.1⟩
        · exact ⟨by simp [(ih h).1], (ih h).2⟩
      · simp only [Plan.inForce, hkeep, if_false, Bool.false_eq_true] at h
        exact ⟨by simp [(ih h).1], (ih h).2⟩
    · have hne : ∀ r, first ≠ .relation r := fun r hr => hrel ⟨r, hr⟩
      rw [inForce_cons lsn first messages hne] at h
      exact ⟨by simp [(ih h).1], (ih h).2⟩

theorem after_of_not_redefines {id : Nat} {messages : List (Nat × Message)}
    (h : redefines id messages = false) (rel : Relations) : rel.after messages id = rel id := by
  induction messages generalizing rel with
  | nil => rfl
  | cons m messages ih =>
    simp only [redefines, List.any_cons, Bool.or_eq_false_iff] at h
    rw [after_cons, ih (by simpa [redefines] using h.2)]
    obtain ⟨lsn, m⟩ := m
    cases m with
    | relation r =>
      have hid : id ≠ r.id := by
        rintro rfl
        simp at h
      simp [Relations.see, hid]
    | _ => rfl

theorem after_of_redefines {id : Nat} {messages : List (Nat × Message)}
    (h : redefines id messages = true) (rel rel' : Relations) :
    rel.after messages id = rel'.after messages id := by
  induction messages generalizing rel rel' with
  | nil => simp [redefines] at h
  | cons m messages ih =>
    rw [after_cons, after_cons]
    by_cases hlater : redefines id messages = true
    · exact ih hlater _ _
    · have hnot : redefines id messages = false := by simpa using hlater
      rw [after_of_not_redefines hnot, after_of_not_redefines hnot]
      simp only [redefines, List.any_cons, Bool.or_eq_true] at h
      rcases h with hhere | h
      · obtain ⟨lsn, m⟩ := m
        cases m with
        | relation r =>
          have hid : id = r.id := (beq_iff_eq.1 hhere).symm
          simp [Relations.see, hid]
        | _ => simp at hhere
      · exact absurd h hlater

theorem redefines_inForce {id : Nat} {messages : List (Nat × Message)}
    (h : redefines id messages = false) : redefines id (p.inForce messages) = false := by
  rw [redefines, List.any_eq_false] at h ⊢
  exact fun m hm => h m (mem_inForce hm).1

/-- Keeping only the messages in force maps every id as the whole stream does. -/
theorem ours_inForce (messages : List (Nat × Message)) (id : Nat) :
    p.ours (noRelations.after (p.inForce messages)) id
      = p.ours (noRelations.after messages) id := by
  induction messages with
  | nil => rfl
  | cons m messages ih =>
    obtain ⟨lsn, m⟩ := m
    by_cases hrel : ∃ r, m = .relation r
    · obtain ⟨r, rfl⟩ := hrel
      rw [after_cons]
      by_cases hlater : redefines id messages = true
      · have hrest : p.ours ((noRelations.see (.relation r)).after messages) id
            = p.ours (noRelations.after messages) id := by
          simp only [Plan.ours, after_of_redefines hlater _ noRelations]
        rw [hrest, ← ih]
        by_cases hkeep : (p.selects r && !redefines r.id messages) = true
        · have hid : id ≠ r.id := by
            rintro rfl
            simp [hlater] at hkeep
          simp only [Plan.inForce, hkeep, if_true, after_cons]
          by_cases hforce : redefines id (p.inForce messages) = true
          · simp only [Plan.ours, after_of_redefines hforce _ noRelations]
          · have hnot : redefines id (p.inForce messages) = false := by simpa using hforce
            simp only [Plan.ours, after_of_not_redefines hnot]
            simp [Relations.see, hid]
        · simp [Plan.inForce, hkeep]
      · have hnot : redefines id messages = false := by simpa using hlater
        have hforce := redefines_inForce (p := p) hnot
        have hafter : ((noRelations.see (.relation r)).after messages) id
            = noRelations.see (.relation r) id := after_of_not_redefines hnot _
        by_cases hkeep : (p.selects r && !redefines r.id messages) = true
        · simp only [Plan.inForce, hkeep, if_true, after_cons, Plan.ours, hafter,
            after_of_not_redefines hforce]
        · simp only [Plan.inForce, hkeep, if_false, Bool.false_eq_true, Plan.ours, hafter,
            after_of_not_redefines hforce]
          by_cases hid : id = r.id
          · subst hid
            have hsel : p.selects r = false := by simpa [hnot] using hkeep
            simp [Relations.see, noRelations, Plan.mapOf, hsel]
          · simp [Relations.see, noRelations, hid]
    · have hne : ∀ r, m ≠ .relation r := fun r hr => hrel ⟨r, hr⟩
      have hsee : noRelations.see m = noRelations := by
        cases m with
        | relation r => exact absurd rfl (hne r)
        | _ => rfl
      rw [inForce_cons lsn m messages hne, after_cons]
      simp only [hsee]
      exact ih

/-! ## Insensitivity to applied history -/

/-- The same batches and checkpoints, and success or failure alike. -/
def SameOutcome (x y : Pass V) : Prop :=
  x.emits = y.emits ∧ (x.result = .ok () ↔ y.result = .ok ())

variable {since target : Nat} {openTail : List (Nat × Message)}

/-- The applied transactions only put their relation messages in force, if none
of those drifted. -/
theorem passOf_applied {applied txs : List Transaction} {ready : List Row}
    (happlied : ∀ t ∈ applied, t.commit ≤ since)
    (hcheck : ∀ t ∈ applied, p.checkRelations t.body = .ok ()) :
    passOf builder p since target openTail rel ready (applied ++ txs) =
      passOf builder p since target openTail (rel.after (streamOf applied)) ready txs := by
  induction applied generalizing rel with
  | nil => rfl
  | cons t applied ih =>
    have hsettle : settle builder p since rel ready t = .ok (ready, []) := by
      simp [settle, decideCommit, hcheck t (by simp), happlied t (by simp)]
    rw [List.cons_append, passOf_cons_ok hsettle, streamOf_cons, after_append, after_messages,
      ih (fun t' ht' => happlied t' (by simp [ht'])) (fun t' ht' => hcheck t' (by simp [ht']))]
    simp

variable (builder p since target openTail rel) in
/-- A drifted relation message among them fails the pass before it emits. -/
theorem passOf_drifted (ready : List Row) {applied : List Transaction} (txs : List Transaction)
    (happlied : ∀ t ∈ applied, t.commit ≤ since)
    (hdrift : ∃ t ∈ applied, p.checkRelations t.body ≠ .ok ()) :
    ∃ e, passOf builder p since target openTail rel ready (applied ++ txs)
      = ⟨[], .error e⟩ := by
  induction applied generalizing rel with
  | nil => simp at hdrift
  | cons t applied ih =>
    cases hcheck : p.checkRelations t.body with
    | error e => exact ⟨e, by simp [passOf, settle, hcheck]⟩
    | ok u =>
      have hsettle : settle builder p since rel ready t = .ok (ready, []) := by
        simp [settle, decideCommit, hcheck, happlied t (by simp)]
      have hdrift' : ∃ t' ∈ applied, p.checkRelations t'.body ≠ .ok () := by
        obtain ⟨t', ht', hbad⟩ := hdrift
        rcases List.mem_cons.1 ht' with rfl | ht'
        · exact absurd hcheck hbad
        · exact ⟨t', ht', hbad⟩
      obtain ⟨e, he⟩ := ih (rel.after t.body)
        (fun t' ht' => happlied t' (by simp [ht'])) hdrift'
      exact ⟨e, by rw [List.cons_append, passOf_cons_ok hsettle, he]; rfl⟩

theorem mem_streamOf {txs : List Transaction} {lsn : Nat} {r : Relation} :
    (lsn, .relation r) ∈ streamOf txs ↔ ∃ t ∈ txs, (lsn, Message.relation r) ∈ t.body := by
  simp [streamOf, Transaction.messages]

/-- No relation message of the table in these transactions lacks a planned column. -/
def Plan.NeverDrifts (p : Plan) (txs : List Transaction) : Prop :=
  ∀ lsn r, (lsn, .relation r) ∈ streamOf txs → p.selects r = true → p.Carries r

theorem neverDrifts_iff {txs : List Transaction} :
    p.NeverDrifts txs ↔ ∀ t ∈ txs, p.checkRelations t.body = .ok () := by
  simp only [Plan.NeverDrifts, mem_streamOf, checkRelations_ok]
  constructor
  · exact fun h t ht lsn r hr hsel => h lsn r ⟨t, ht, hr⟩ hsel
  · rintro h lsn r ⟨t, ht, hr⟩ hsel
    exact h t ht lsn r hr hsel

variable (builder since target openTail) in
theorem changePass_stream {context : StreamContext} {stream : String}
    (hp : Plan.new context stream = .ok p) (htail : ∀ r ∈ openTail, r.2 ≠ .commit)
    (txs : List Transaction) :
    changePass builder context stream since target (streamOf txs ++ openTail) =
      passOf builder p since target openTail noRelations [] txs := by
  have hnew : Apply.new context stream since = .ok (p, Apply.empty since) := by
    rw [Apply.new, hp]
    rfl
  rw [changePass, hnew]
  exact consume_eq_passOf openTail htail _ (settled_empty p since)

variable (builder since target) in
/-- Starting from the relation messages in force is starting after the stream
that left them. -/
theorem changePass_inForce {context : StreamContext} {stream : String}
    (hp : Plan.new context stream = .ok p) (htail : ∀ r ∈ openTail, r.2 ≠ .commit)
    (applied txs : List Transaction) :
    (∃ e, p.checkRelations (p.inForce (streamOf applied)) = .error e ∧
      changePass builder context stream since target
        (p.inForce (streamOf applied) ++ (streamOf txs ++ openTail)) = ⟨[], .error e⟩) ∨
    p.checkRelations (p.inForce (streamOf applied)) = .ok () ∧
      changePass builder context stream since target
        (p.inForce (streamOf applied) ++ (streamOf txs ++ openTail)) =
        passOf builder p since target openTail (noRelations.after (streamOf applied)) [] txs := by
  have hnew : Apply.new context stream since = .ok (p, Apply.empty since) := by
    rw [Apply.new, hp]
    rfl
  have hempty := settled_empty p since
  have hchange : ∀ m ∈ p.inForce (streamOf applied), m.2.isChange = true := by
    intro m hm
    obtain ⟨-, r, hr, -⟩ := mem_inForce hm
    rw [hr]
    rfl
  rw [changePass, hnew]
  rcases consume_body builder target (p.inForce (streamOf applied))
      (streamOf txs ++ openTail) hchange hempty.tracks (show Holds _ (.ok []) from ⟨rfl, rfl⟩) with
    ⟨e, hcheck, hc⟩ | ⟨hcheck, a, hc, htr, hbase, hout⟩
  · exact .inl ⟨e, hcheck, hc⟩
  · have hnone : ∀ (messages : List (Nat × Message)) (rel : Relations),
        (∀ m ∈ messages, ∃ r, m.2 = .relation r) → p.bodyRows rel messages = .ok [] := by
      intro messages
      induction messages with
      | nil => exact fun _ _ => rfl
      | cons m messages ih =>
        intro rel hall
        obtain ⟨r, hr⟩ := hall m (by simp)
        rw [bodyRows_cons, hr, ih _ fun m' hm' => hall m' (by simp [hm'])]
        rfl
    rw [hnone _ _ fun m hm => by obtain ⟨-, r, hr, -⟩ := mem_inForce hm; exact ⟨r, hr⟩] at hout
    have hset : Settled p (noRelations.after (streamOf applied)) since [] a :=
      ⟨fun id => by rw [htr id, ours_inForce], hbase.since, hbase.ready, hout.2⟩
    exact .inr ⟨hcheck, hc.trans (consume_eq_passOf openTail htail txs hset)⟩

/-- When the applied part of a stream can be replaced by its relation messages in
force: if none of the table's relation messages in it lacks a planned column, or
one of those in force does too, so that both passes fail at once. -/
theorem applied_history_harmless_iff (builder : ColumnBuilder V) (context : StreamContext)
    (stream : String) (p : Plan) (hp : Plan.new context stream = .ok p) (since : Nat)
    (applied : List Transaction) (happlied : ∀ t ∈ applied, t.commit ≤ since) :
    (∀ (target : Nat) (txs : List Transaction) (openTail : List (Nat × Message)),
      (∀ r ∈ openTail, r.2 ≠ .commit) →
      SameOutcome
        (changePass builder context stream since target
          (streamOf applied ++ (streamOf txs ++ openTail)))
        (changePass builder context stream since target
          (p.inForce (streamOf applied) ++ (streamOf txs ++ openTail)))) ↔
    p.NeverDrifts applied ∨
      ∃ lsn r, (lsn, .relation r) ∈ p.inForce (streamOf applied) ∧ ¬ p.Carries r := by
  have hwhole (target : Nat) (txs : List Transaction) (openTail : List (Nat × Message))
      (htail : ∀ r ∈ openTail, r.2 ≠ .commit) :
      changePass builder context stream since target
          (streamOf applied ++ (streamOf txs ++ openTail))
        = passOf builder p since target openTail noRelations [] (applied ++ txs) := by
    rw [← List.append_assoc, ← streamOf_append]
    exact changePass_stream builder since target openTail hp htail (applied ++ txs)
  have hdrift (h : ¬ p.NeverDrifts applied) : ∃ t ∈ applied, p.checkRelations t.body ≠ .ok () := by
    rw [neverDrifts_iff] at h
    simpa using h
  have hforce : p.checkRelations (p.inForce (streamOf applied)) = .ok () ↔
      ¬ ∃ lsn r, (lsn, .relation r) ∈ p.inForce (streamOf applied) ∧ ¬ p.Carries r := by
    rw [checkRelations_ok]
    constructor
    · rintro h ⟨lsn, r, hmem, hnot⟩
      obtain ⟨-, r', hr', hsel⟩ := mem_inForce hmem
      obtain rfl : r = r' := by simpa using hr'
      exact hnot (h lsn r hmem hsel)
    · intro h lsn r hmem _
      by_contra hnot
      exact h ⟨lsn, r, hmem, hnot⟩
  constructor
  · intro h
    by_contra hcond
    rw [not_or] at hcond
    obtain ⟨hnever, hnone⟩ := hcond
    -- the whole stream fails at once, the shortened one reaches the target
    obtain ⟨hemits, -⟩ := h since [] [] (by simp)
    obtain ⟨e, he⟩ := passOf_drifted builder p noRelations since since [] [] [] happlied (hdrift hnever)
    rcases changePass_inForce builder since since hp
        (show ∀ r ∈ ([] : List (Nat × Message)), r.2 ≠ .commit by simp) applied [] with ⟨e', hbad, -⟩ | ⟨-, hpass⟩
    · simp [hforce.2 hnone] at hbad
    · rw [hwhole since [] [] (by simp), he, hpass] at hemits
      simp [passOf, Plan.checkRelations, finishPass] at hemits
  · intro hcond target txs openTail htail
    rw [hwhole target txs openTail htail]
    by_cases hlate : ∃ lsn r, (lsn, .relation r) ∈ p.inForce (streamOf applied) ∧ ¬ p.Carries r
    · have hnever : ¬ p.NeverDrifts applied := by
        intro hall
        obtain ⟨lsn, r, hmem, hnot⟩ := hlate
        obtain ⟨hstream, r', hr', hsel⟩ := mem_inForce hmem
        obtain rfl : r = r' := by simpa using hr'
        exact hnot (hall lsn r hstream hsel)
      obtain ⟨e, he⟩ := passOf_drifted builder p noRelations since target openTail [] txs happlied
        (hdrift hnever)
      rcases changePass_inForce builder since target
          hp htail applied txs with ⟨e', -, hpass⟩ | ⟨hok, -⟩
      · rw [he, hpass]
        exact ⟨rfl, by simp⟩
      · exact absurd hlate (hforce.1 hok)
    · have hnever : p.NeverDrifts applied := hcond.resolve_right hlate
      rcases changePass_inForce builder since target
          hp htail applied txs with ⟨e', hbad, -⟩ | ⟨-, hpass⟩
      · simp [hforce.2 hlate] at hbad
      · rw [hpass, passOf_applied happlied (neverDrifts_iff.1 hnever)]
        exact ⟨rfl, Iff.rfl⟩

def itemsContext : StreamContext :=
  ⟨"public", [⟨"id", .int64, true⟩, ⟨"name", .text, false⟩], ⟨["id"], false⟩, 1000,
    "_rdlt_deleted"⟩

def itemsPlan : Plan :=
  ⟨"public", "items", ⟨["id"], false⟩, [⟨"id", .int64, true⟩, ⟨"name", .text, false⟩], 1000,
    "_rdlt_deleted", [0]⟩

/-- A row written before the table gained its `name` column, and one after. -/
def itemsApplied : List Transaction :=
  [⟨5, [(6, .relation ⟨7, "public", "items", [⟨"id"⟩]⟩), (6, .insert 7 ⟨[.text "1".toUTF8]⟩)],
      10, by decide⟩,
   ⟨15, [(16, .relation ⟨7, "public", "items", [⟨"id"⟩, ⟨"name"⟩]⟩),
      (16, .insert 7 ⟨[.text "2".toUTF8, .text "b".toUTF8]⟩)], 20, by decide⟩]

/-- Both transactions are applied, yet the first one's relation message fails the
pass that its successor alone would not. -/
theorem items_applied_history_fails :
    ¬ SameOutcome
      (changePass textBuilder itemsContext "items" 20 20 (streamOf itemsApplied ++ []))
      (changePass textBuilder itemsContext "items" 20 20
        ([(16, .relation ⟨7, "public", "items", [⟨"id"⟩, ⟨"name"⟩]⟩)] ++ [])) := by
  rintro ⟨hemits, -⟩
  exact absurd hemits (by decide)

theorem items_applied_history_iff :
    (∀ (target : Nat) (txs : List Transaction) (openTail : List (Nat × Message)),
      (∀ r ∈ openTail, r.2 ≠ .commit) →
      SameOutcome
        (changePass textBuilder itemsContext "items" 20 target
          (streamOf itemsApplied ++ (streamOf txs ++ openTail)))
        (changePass textBuilder itemsContext "items" 20 target
          (itemsPlan.inForce (streamOf itemsApplied) ++ (streamOf txs ++ openTail)))) ↔
    itemsPlan.NeverDrifts itemsApplied ∨
      ∃ lsn r, (lsn, .relation r) ∈ itemsPlan.inForce (streamOf itemsApplied) ∧
        ¬ itemsPlan.Carries r :=
  applied_history_harmless_iff textBuilder itemsContext "items" itemsPlan rfl 20 itemsApplied
    (by simp [itemsApplied])

end Cdc
