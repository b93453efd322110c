import RdltConnectors.Cdc.Replay

/-!
# Passes over a decoding session

The write-ahead log holds committed changes, each under the shape its table had
and next to the tables its publication had. A decoding session reads those past
the slot's confirmed position, leaves out what was not published when it was
committed, and describes a relation before its first change, and again when its
shape is another, so what a pass reads depends on where the session starts. Its
rows do not: a pass that succeeds delivers the changes of its range that the
session still reads.
-/
namespace Cdc

open PgTypes Fallible

variable {V : Type}

/-- A logged change, under the shape its tables had. -/
inductive Change where
  | insert (relation : Relation) (new : TupleData)
  | update (relation : Relation) (old : Option TupleData) (new : TupleData)
  | delete (relation : Relation) (old : TupleData)
  | truncate (relations : List Relation) (distinct : (relations.map Relation.id).Nodup)
  deriving DecidableEq

def Change.relations : Change → List Relation
  | .insert relation _ => [relation]
  | .update relation _ _ => [relation]
  | .delete relation _ => [relation]
  | .truncate relations _ => relations

def Change.message : Change → Message
  | .insert relation new => .insert relation.id new
  | .update relation old new => .update relation.id old new
  | .delete relation old => .delete relation.id old
  | .truncate relations _ => .truncate (relations.map Relation.id)

theorem Change.distinct (change : Change) : (change.relations.map Relation.id).Nodup := by
  cases change with
  | truncate relations distinct => exact distinct
  | _ => simp [Change.relations]

/-- A committed transaction, and the tables in the publication at its commit. -/
structure Commit where
  beginLsn : Nat
  changes : List (Nat × Change)
  position : Nat
  published : List String
  deriving DecidableEq

/-! ## What the publication leaves of a transaction -/

/-- A change is sent only for the published tables it names. -/
def Change.only (published : List String) : Change → Option Change
  | .truncate relations distinct =>
    if relations.any fun r => published.contains r.name then
      some (.truncate (relations.filter fun r => published.contains r.name)
        (distinct.sublist (List.filter_sublist.map Relation.id)))
    else none
  | change =>
    if change.relations.all fun r => published.contains r.name then some change else none

def Commit.sent (c : Commit) : Commit :=
  { c with changes := c.changes.filterMap fun change =>
      (change.2.only c.published).map fun sent => (change.1, sent) }

/-! ## What a session sends -/

/-- The relations whose shape this session has not sent, or sent another of. -/
def describe (rel : Relations) (lsn : Nat) : List Relation → List (Nat × Message)
  | [] => []
  | r :: relations =>
    if rel r.id = some r then describe rel lsn relations
    else (lsn, .relation r) :: describe (rel.see (.relation r)) lsn relations

def announce (rel : Relations) : List (Nat × Change) → List (Nat × Message)
  | [] => []
  | (lsn, change) :: changes =>
    let descriptions := describe rel lsn change.relations
    descriptions ++ (lsn, change.message) :: announce (rel.after descriptions) changes

theorem isChange_message (change : Change) : change.message.isChange = true := by
  cases change <;> rfl

theorem isChange_describe {rel : Relations} {lsn : Nat} {relations : List Relation} :
    ∀ m ∈ describe rel lsn relations, m.2.isChange = true := by
  induction relations generalizing rel with
  | nil => simp [describe]
  | cons r relations ih =>
    by_cases hsent : rel r.id = some r
    · simpa only [describe, hsent, if_true] using ih
    · simp only [describe, hsent, if_false, List.mem_cons]
      rintro m (rfl | hm)
      · rfl
      · exact ih m hm

theorem isChange_announce {rel : Relations} {changes : List (Nat × Change)} :
    ∀ m ∈ announce rel changes, m.2.isChange = true := by
  induction changes generalizing rel with
  | nil => simp [announce]
  | cons c changes ih =>
    obtain ⟨lsn, change⟩ := c
    simp only [announce, List.mem_append, List.mem_cons]
    rintro m (hm | rfl | hm)
    · exact isChange_describe m hm
    · exact isChange_message change
    · exact ih m hm

/-- The transactions a session sends for these commits, starting anywhere. -/
def decoded (rel : Relations) : List Commit → List Transaction
  | [] => []
  | c :: commits =>
    ⟨c.beginLsn, announce rel c.changes, c.position, isChange_announce⟩ ::
      decoded (rel.after (announce rel c.changes)) commits

theorem mem_decoded {rel : Relations} {commits : List Commit} {t : Transaction}
    (h : t ∈ decoded rel commits) : ∃ c ∈ commits, t.commit = c.position := by
  induction commits generalizing rel with
  | nil => cases h
  | cons c commits ih =>
    rcases List.mem_cons.1 h with rfl | h
    · exact ⟨c, by simp, rfl⟩
    · obtain ⟨c', hc', heq⟩ := ih h
      exact ⟨c', by simp [hc'], heq⟩

def Logged (log : List Commit) : Prop := log.Pairwise fun a b => a.position < b.position

theorem commitOrdered_decoded {rel : Relations} {commits : List Commit} (h : Logged commits) :
    CommitOrdered (decoded rel commits) := by
  induction commits generalizing rel with
  | nil => exact List.Pairwise.nil
  | cons c commits ih =>
    obtain ⟨hlater, hrest⟩ := List.pairwise_cons.1 h
    refine List.pairwise_cons.2 ⟨fun t ht => ?_, ih hrest⟩
    obtain ⟨c', hc', heq⟩ := mem_decoded ht
    rw [heq]
    exact hlater c' hc'

/-! ## The rows of a change -/

/-- The rows a change comes to under its own shape, whatever was sent before it. -/
def Change.rows (p : Plan) : Change → Except SourceError (List Row)
  | .insert relation new =>
    if p.selects relation then p.planMap relation >>= fun map => p.insertRows map new
    else .ok []
  | .update relation old new =>
    if p.selects relation then p.planMap relation >>= fun map => p.updateRows map old new
    else .ok []
  | .delete relation old =>
    if p.selects relation then p.planMap relation >>= fun map => p.deleteRows map old
    else .ok []
  | .truncate relations _ => if relations.any p.selects then .error p.truncateError else .ok []

def changesRows (p : Plan) : List (Nat × Change) → Except SourceError (List Row)
  | [] => .ok []
  | c :: changes => joinRows (c.2.rows p) (changesRows p changes)

def between (log : List Commit) (lo hi : Nat) : List Commit :=
  log.filter fun c => lo < c.position ∧ c.position ≤ hi

/-- The rows of the transactions committed in (lo, hi]; a failure if one of
their changes to the table is unappliable. -/
def committedRows (p : Plan) (log : List Commit) (lo hi : Nat) : Except SourceError (List Row) :=
  changesRows p ((between log lo hi).flatMap Commit.changes)

/-- The transaction changes the plan's table. -/
def Commit.touches (p : Plan) (c : Commit) : Prop :=
  ∃ change ∈ c.changes, change.2.relations.any p.selects = true

instance (p : Plan) (c : Commit) : Decidable (c.touches p) :=
  inferInstanceAs (Decidable (∃ change ∈ c.changes, _))

variable {p : Plan} {rel : Relations}

/-- Every relation described so far still carries the plan's columns. -/
def Described (p : Plan) (rel : Relations) : Prop :=
  ∀ id r, rel id = some r → r.id = id ∧ (p.selects r = true → p.Carries r)

theorem described_none : Described p noRelations := by
  intro id r h
  cases h

theorem ours_described {r : Relation} (hsent : rel r.id = some r) :
    p.ours rel r.id = if p.selects r then (p.planMap r).toOption else none := by
  simp [Plan.ours, hsent, Plan.mapOf]

/-- Describing relations puts each of them in force. -/
theorem describe_spec (lsn : Nat) {relations : List Relation} (hrel : Described p rel)
    (hdistinct : (relations.map Relation.id).Nodup)
    (hcheck : p.checkRelations (describe rel lsn relations) = .ok ()) :
    Described p (rel.after (describe rel lsn relations)) ∧
      (∀ r ∈ relations, rel.after (describe rel lsn relations) r.id = some r) ∧
      ∀ id, id ∉ relations.map Relation.id →
        rel.after (describe rel lsn relations) id = rel id := by
  induction relations generalizing rel with
  | nil => exact ⟨hrel, by simp, fun _ _ => rfl⟩
  | cons r relations ih =>
    obtain ⟨hnew, hdistinct'⟩ := List.nodup_cons.1 hdistinct
    by_cases hsent : rel r.id = some r
    · simp only [describe, hsent, if_true] at hcheck ⊢
      obtain ⟨hnext, hforce, hkeep⟩ := ih hrel hdistinct' hcheck
      refine ⟨hnext, ?_, fun id hid => hkeep id (by simp_all)⟩
      rintro r' hr'
      rcases List.mem_cons.1 hr' with rfl | hr'
      · rw [hkeep _ hnew, hsent]
      · exact hforce r' hr'
    · simp only [describe, hsent, if_false, after_cons] at hcheck ⊢
      have hpair := checkRelations_ok.1 hcheck
      have hseen : Described p (rel.see (.relation r)) := by
        intro id r' hr'
        by_cases hid : id = r.id
        · obtain rfl : r = r' := by simpa [Relations.see, hid] using hr'
          exact ⟨hid.symm, hpair lsn r (by simp)⟩
        · exact hrel id r' (by simpa [Relations.see, hid] using hr')
      have hrest : p.checkRelations (describe (rel.see (.relation r)) lsn relations) = .ok () :=
        checkRelations_ok.2 fun lsn' r' hr' => hpair lsn' r' (by simp [hr'])
      obtain ⟨hnext, hforce, hkeep⟩ := ih hseen hdistinct' hrest
      refine ⟨hnext, ?_, fun id hid => ?_⟩
      · rintro r' hr'
        rcases List.mem_cons.1 hr' with rfl | hr'
        · rw [hkeep _ hnew]
          simp [Relations.see]
        · exact hforce r' hr'
      · simp only [List.map_cons, List.mem_cons, not_or] at hid
        rw [hkeep id hid.2]
        simp [Relations.see, hid.1]

theorem bodyRows_describe {lsn : Nat} {relations : List Relation} (rest : List (Nat × Message)) :
    p.bodyRows rel (describe rel lsn relations ++ rest) =
      p.bodyRows (rel.after (describe rel lsn relations)) rest := by
  induction relations generalizing rel with
  | nil => rfl
  | cons r relations ih =>
    by_cases hsent : rel r.id = some r
    · simp only [describe, hsent, if_true]
      exact ih
    · simp only [describe, hsent, if_false, List.cons_append, bodyRows_cons, after_cons]
      rw [ih]
      cases p.bodyRows _ rest <;> rfl

/-- With its relations in force a change's message comes to the change's rows. -/
theorem changeRows_message {change : Change} (hrel : Described p rel)
    (hforce : ∀ r ∈ change.relations, rel r.id = some r) :
    p.changeRows (p.ours rel) change.message = change.rows p := by
  have hmap {r : Relation} (hr : r ∈ change.relations) (hsel : p.selects r = true) :
      ∃ map, p.planMap r = .ok map ∧ p.ours rel r.id = some map := by
    obtain ⟨map, hmap⟩ := planMap_ok.2 ((hrel _ _ (hforce r hr)).2 hsel)
    exact ⟨map, hmap, by rw [ours_described (hforce r hr)]; simp [hsel, hmap, Except.toOption]⟩
  have hnone {r : Relation} (hr : r ∈ change.relations) (hsel : ¬ p.selects r = true) :
      p.ours rel r.id = none := by
    rw [ours_described (hforce r hr)]
    simp [hsel]
  cases change with
  | insert r new =>
    by_cases hsel : p.selects r = true
    · obtain ⟨map, hplan, hours⟩ := hmap (by simp [Change.relations]) hsel
      simp [Change.message, Plan.changeRows, Change.rows, hours, hsel, hplan]
    · simp [Change.message, Plan.changeRows, Change.rows, hsel,
        hnone (r := r) (by simp [Change.relations]) hsel]
  | update r old new =>
    by_cases hsel : p.selects r = true
    · obtain ⟨map, hplan, hours⟩ := hmap (by simp [Change.relations]) hsel
      simp [Change.message, Plan.changeRows, Change.rows, hours, hsel, hplan]
    · simp [Change.message, Plan.changeRows, Change.rows, hsel,
        hnone (r := r) (by simp [Change.relations]) hsel]
  | delete r old =>
    by_cases hsel : p.selects r = true
    · obtain ⟨map, hplan, hours⟩ := hmap (by simp [Change.relations]) hsel
      simp [Change.message, Plan.changeRows, Change.rows, hours, hsel, hplan]
    · simp [Change.message, Plan.changeRows, Change.rows, hsel,
        hnone (r := r) (by simp [Change.relations]) hsel]
  | truncate relations distinct =>
    have hany : ((relations.map Relation.id).any fun id => (p.ours rel id).isSome)
        = relations.any p.selects := by
      rw [List.any_map]
      refine Bool.eq_iff_iff.2 ?_
      simp only [List.any_eq_true, Function.comp]
      refine exists_congr fun r => and_congr_right fun hr => ?_
      by_cases hsel : p.selects r = true
      · obtain ⟨map, -, hours⟩ := hmap hr hsel
        simp [hours, hsel]
      · simp [hnone hr hsel, hsel]
    simp [Change.message, Plan.changeRows, Change.rows, hany]

/-- A body's rows are its changes' own, if nothing described in it drifted. -/
theorem announce_spec {changes : List (Nat × Change)} (hrel : Described p rel)
    (hcheck : p.checkRelations (announce rel changes) = .ok ()) :
    Described p (rel.after (announce rel changes)) ∧
      p.bodyRows rel (announce rel changes) = changesRows p changes := by
  induction changes generalizing rel with
  | nil => exact ⟨hrel, rfl⟩
  | cons c changes ih =>
    obtain ⟨lsn, change⟩ := c
    have hall := checkRelations_ok.1 hcheck
    obtain ⟨hdesc, hforce, -⟩ := describe_spec lsn hrel change.distinct
      (checkRelations_ok.2 fun l r hr => hall l r (by simp [announce, hr]))
    obtain ⟨hnext, hrows⟩ := ih hdesc
      (checkRelations_ok.2 fun l r hr => hall l r (by simp [announce, hr]))
    have hsee (rel : Relations) : rel.see change.message = rel := by
      cases change <;> rfl
    simp only [announce, after_append, after_cons, hsee]
    refine ⟨hnext, ?_⟩
    rw [bodyRows_describe, bodyRows_cons, changeRows_message hdesc hforce, hsee, hrows]
    rfl

theorem nil_joinRows (rows : Except SourceError (List Row)) : joinRows (.ok []) rows = rows := by
  cases rows <;> rfl

theorem changesRows_append (xs ys : List (Nat × Change)) :
    changesRows p (xs ++ ys) = joinRows (changesRows p xs) (changesRows p ys) := by
  induction xs with
  | nil => exact (nil_joinRows _).symm
  | cons c xs ih => simp only [List.cons_append, changesRows, ih, joinRows_assoc]

theorem rowsBetween_decoded {commits : List Commit} {lo hi : Nat} (hrel : Described p rel)
    (hcheck : ∀ t ∈ decoded rel commits, p.checkRelations t.body = .ok ()) :
    p.rowsBetween rel (decoded rel commits) lo hi = committedRows p commits lo hi := by
  induction commits generalizing rel with
  | nil => rfl
  | cons c commits ih =>
    obtain ⟨hnext, hrows⟩ := announce_spec hrel
      (hcheck ⟨c.beginLsn, announce rel c.changes, c.position, isChange_announce⟩
        (by simp [decoded]))
    have hrest := ih hnext fun t ht => hcheck t (by simp [decoded, ht])
    by_cases hin : lo < c.position ∧ c.position ≤ hi
    · have hcons : between (c :: commits) lo hi = c :: between commits lo hi := by
        simp [between, hin]
      simp only [decoded, Plan.rowsBetween, hin, and_self, if_true, hrows, hrest, committedRows,
        hcons, List.flatMap_cons, changesRows_append]
    · have hskip : between (c :: commits) lo hi = between commits lo hi := by
        simp [between, hin]
      simp only [decoded, Plan.rowsBetween, hin, if_false, hrest, committedRows, hskip]

/-! ## Ranges of the log -/

theorem logged_between {log : List Commit} {lo hi : Nat} (h : Logged log) :
    Logged (between log lo hi) := h.filter _

theorem between_append {log : List Commit} {lo mid hi : Nat} (hlog : Logged log)
    (hlm : lo ≤ mid) (hmh : mid ≤ hi) :
    between log lo hi = between log lo mid ++ between log mid hi := by
  induction log with
  | nil => rfl
  | cons c log ih =>
    obtain ⟨hlater, hlog'⟩ := List.pairwise_cons.1 hlog
    by_cases hmid : c.position ≤ mid
    · have hskip : ¬ (mid < c.position ∧ c.position ≤ hi) := by omega
      have hsame : (lo < c.position ∧ c.position ≤ hi) ↔
          (lo < c.position ∧ c.position ≤ mid) := by omega
      have hrest := ih hlog'
      simp only [between, List.filter_cons, hskip, hsame, decide_false, Bool.false_eq_true,
        if_false] at hrest ⊢
      by_cases hin : lo < c.position ∧ c.position ≤ mid
      · simp only [hin, and_self, decide_true, if_true, List.cons_append, hrest]
      · simp only [hin, decide_false, Bool.false_eq_true, if_false, hrest]
    · -- past the middle: so is everything later, and the first range is empty
      have hpast : ∀ c' ∈ c :: log, mid < c'.position := by
        intro c' hc'
        rcases List.mem_cons.1 hc' with rfl | hc'
        · omega
        · have := hlater c' hc'
          omega
      have hnone : between (c :: log) lo mid = [] := by
        refine List.filter_eq_nil_iff.2 fun c' hc' => ?_
        have := hpast c' hc'
        simp only [decide_eq_true_eq]
        omega
      rw [hnone, List.nil_append]
      refine List.filter_congr fun c' hc' => ?_
      have := hpast c' hc'
      simp only [decide_eq_decide]
      omega

/-- In an ordered log the rows of adjacent ranges follow each other. -/
theorem committedRows_append {log : List Commit} (lo mid hi : Nat) (hlog : Logged log)
    (hlm : lo ≤ mid) (hmh : mid ≤ hi) :
    committedRows p log lo hi =
      joinRows (committedRows p log lo mid) (committedRows p log mid hi) := by
  rw [committedRows, between_append hlog hlm hmh, List.flatMap_append, changesRows_append]
  rfl

theorem between_between {log : List Commit} {lo lo' hi hi' : Nat} :
    between (between log lo hi) lo' hi' = between log (max lo lo') (min hi hi') := by
  rw [between, between, List.filter_filter]
  refine List.filter_congr fun c _ => ?_
  simp only [← Bool.decide_and, decide_eq_decide]
  omega

/-- A change to the table never comes to no rows. -/
theorem Change.rows_eq_nil {change : Change} :
    change.rows p = .ok [] ↔ ¬ change.relations.any p.selects = true := by
  cases change with
  | insert r new =>
    by_cases hsel : p.selects r = true
    · simp only [Change.rows, hsel, if_true, Change.relations, List.any_cons, Bool.true_or,
        not_true, iff_false]
      intro h
      obtain ⟨map, -, hrows⟩ := bind_ok.1 h
      obtain ⟨row, -, hpure⟩ := bind_ok.1 hrows
      simp at hpure
    · simp [Change.rows, hsel, Change.relations]
  | update r old new =>
    by_cases hsel : p.selects r = true
    · simp only [Change.rows, hsel, if_true, Change.relations, List.any_cons, Bool.true_or,
        not_true, iff_false]
      intro h
      obtain ⟨map, -, hrows⟩ := bind_ok.1 h
      obtain ⟨oldKey, -, hrows⟩ := bind_ok.1 hrows
      obtain ⟨newRow, -, hrows⟩ := bind_ok.1 hrows
      cases oldKey with
      | none => simp at hrows
      | some key =>
        simp only at hrows
        split at hrows
        · cases hrows
        · cases hrows
    · simp [Change.rows, hsel, Change.relations]
  | delete r old =>
    by_cases hsel : p.selects r = true
    · simp only [Change.rows, hsel, if_true, Change.relations, List.any_cons, Bool.true_or,
        not_true, iff_false]
      intro h
      obtain ⟨map, -, hrows⟩ := bind_ok.1 h
      obtain ⟨key, -, hrows⟩ := bind_ok.1 hrows
      by_cases hnull : (key.any fun cell => cell == .null) = true
      · rw [if_pos hnull] at hrows
        cases hrows
      · rw [if_neg hnull] at hrows
        simp at hrows
    · simp [Change.rows, hsel, Change.relations]
  | truncate relations distinct =>
    by_cases hany : relations.any p.selects = true
    · simp [Change.rows, Change.relations, hany]
    · simp [Change.rows, Change.relations, hany]

theorem joinRows_eq_nil {x y : Except SourceError (List Row)} :
    joinRows x y = .ok [] ↔ x = .ok [] ∧ y = .ok [] := by
  rw [joinRows_ok]
  constructor
  · rintro ⟨xs, ys, rfl, rfl, h⟩
    obtain ⟨rfl, rfl⟩ := List.append_eq_nil_iff.1 h.symm
    exact ⟨rfl, rfl⟩
  · rintro ⟨rfl, rfl⟩
    exact ⟨[], [], rfl, rfl, rfl⟩

theorem changesRows_eq_nil {changes : List (Nat × Change)} :
    changesRows p changes = .ok [] ↔
      ∀ change ∈ changes, ¬ change.2.relations.any p.selects = true := by
  induction changes with
  | nil => simp [changesRows]
  | cons c changes ih =>
    rw [changesRows, joinRows_eq_nil, ih, Change.rows_eq_nil]
    simp only [List.mem_cons, forall_eq_or_imp]

/-- A range without rows is a range that does not touch the table. -/
theorem committedRows_eq_nil {log : List Commit} {lo hi : Nat} :
    committedRows p log lo hi = .ok [] ↔ ∀ c ∈ between log lo hi, ¬ c.touches p := by
  rw [committedRows, changesRows_eq_nil]
  simp only [List.mem_flatMap, Commit.touches, not_exists, not_and]
  constructor
  · exact fun h c hc change hmem => h change ⟨c, hc, hmem⟩
  · rintro h change ⟨c, hc, hmem⟩
    exact h c hc change hmem

/-! ## What the publication left out -/

theorem selects_name {r : Relation} (h : p.selects r = true) : r.name = p.stream := by
  unfold Plan.selects at h
  rw [Bool.and_eq_true, beq_iff_eq, beq_iff_eq] at h
  exact h.2

/-- A change of one table is sent whole or not at all. -/
theorem rows_only_one (published : List String) {change : Change} {r : Relation}
    (hrelations : change.relations = [r]) :
    (if change.relations.all (fun r => published.contains r.name) then some change
      else none).elim (.ok []) (Change.rows p) =
    if p.stream ∈ published then change.rows p else .ok [] := by
  have hother (hne : r.name ≠ p.stream) : change.rows p = .ok [] := by
    refine Change.rows_eq_nil.2 fun hany => hne ?_
    rw [hrelations, List.any_cons, List.any_nil, Bool.or_false] at hany
    exact selects_name hany
  rw [hrelations, List.all_cons, List.all_nil, Bool.and_true]
  by_cases hr : published.contains r.name = true
  · rw [if_pos hr]
    split
    · rfl
    · next hnot => exact hother fun heq => hnot (heq ▸ List.contains_iff_mem.1 hr)
  · rw [if_neg hr]
    split
    · next hin => exact (hother fun heq => hr (List.contains_iff_mem.2 (heq ▸ hin))).symm
    · rfl

theorem any_selects_published (published : List String) (relations : List Relation) :
    (relations.filter fun r => published.contains r.name).any p.selects = true ↔
      p.stream ∈ published ∧ relations.any p.selects = true := by
  simp only [List.any_eq_true, List.mem_filter, List.contains_iff_mem]
  constructor
  · rintro ⟨r, ⟨hr, hin⟩, hsel⟩
    exact ⟨selects_name hsel ▸ hin, r, hr, hsel⟩
  · rintro ⟨hin, r, hr, hsel⟩
    exact ⟨r, ⟨hr, (selects_name hsel).symm ▸ hin⟩, hsel⟩

/-- What is sent of a change has its rows while the table is published. -/
theorem rows_only (published : List String) (change : Change) :
    (change.only published).elim (.ok []) (Change.rows p) =
      if p.stream ∈ published then change.rows p else .ok [] := by
  cases change with
  | insert r new => exact rows_only_one published rfl
  | update r old new => exact rows_only_one published rfl
  | delete r old => exact rows_only_one published rfl
  | truncate relations distinct =>
    have hkept := any_selects_published (p := p) published relations
    by_cases hin : p.stream ∈ published
    · rw [if_pos hin]
      by_cases hany : relations.any p.selects = true
      · have hsome : (relations.any fun r => published.contains r.name) = true := by
          obtain ⟨r, hr, -⟩ := List.any_eq_true.1 (hkept.2 ⟨hin, hany⟩)
          exact List.any_eq_true.2 ⟨r, (List.mem_filter.1 hr).1, (List.mem_filter.1 hr).2⟩
        simp only [Change.only, hsome, if_true, Option.elim_some, Change.rows, hany,
          hkept.2 ⟨hin, hany⟩]
      · have hnone := mt hkept.1 fun hall => hany hall.2
        simp only [Change.only, Change.rows, hany, if_false, Bool.false_eq_true]
        split
        · simp only [Option.elim_some, Change.rows, hnone, if_false, Bool.false_eq_true]
        · rfl
    · have hnone := mt hkept.1 fun hall => hin hall.1
      rw [if_neg hin, Change.only]
      split
      · simp only [Option.elim_some, Change.rows, hnone, if_false, Bool.false_eq_true]
      · rfl

theorem changesRows_sent (c : Commit) :
    changesRows p c.sent.changes =
      if p.stream ∈ c.published then changesRows p c.changes else .ok [] := by
  obtain ⟨beginLsn, changes, position, published⟩ := c
  simp only [Commit.sent]
  induction changes with
  | nil => simp [changesRows]
  | cons change changes ih =>
    have hhead := rows_only (p := p) published change.2
    cases honly : change.2.only published with
    | none =>
      rw [honly, Option.elim_none] at hhead
      simp only [List.filterMap_cons, honly, Option.map_none, ih, changesRows]
      split
      · next hin =>
        rw [if_pos hin] at hhead
        rw [← hhead, nil_joinRows]
      · rfl
    | some sent =>
      rw [honly, Option.elim_some] at hhead
      simp only [List.filterMap_cons, honly, Option.map_some, changesRows, hhead, ih]
      split
      · rfl
      · rfl

theorem changesRows_sent_log (commits : List Commit) :
    changesRows p ((commits.map Commit.sent).flatMap Commit.changes) =
      changesRows p ((commits.filter fun c => p.stream ∈ c.published).flatMap Commit.changes) := by
  induction commits with
  | nil => rfl
  | cons c commits ih =>
    rw [List.map_cons, List.flatMap_cons, changesRows_append, changesRows_sent, ih]
    by_cases hin : p.stream ∈ c.published
    · rw [if_pos hin, List.filter_cons_of_pos (by simpa using hin), List.flatMap_cons,
        changesRows_append]
    · rw [if_neg hin, List.filter_cons_of_neg (by simpa using hin)]
      exact nil_joinRows _

theorem between_sent (log : List Commit) (lo hi : Nat) :
    between (log.map Commit.sent) lo hi = (between log lo hi).map Commit.sent := by
  rw [between, List.filter_map]
  rfl

theorem logged_sent {log : List Commit} (h : Logged log) : Logged (log.map Commit.sent) :=
  List.pairwise_map.2 h

/-- A commit that does not touch the table can be left out, and no other. -/
theorem changesRows_filter (keep : Commit → Bool) {commits : List Commit} {rows : List Row}
    (h : changesRows p (commits.flatMap Commit.changes) = .ok rows) :
    ∃ rest, changesRows p ((commits.filter keep).flatMap Commit.changes) = .ok rest ∧
      rest.length ≤ rows.length ∧
      (rest.length = rows.length → ∀ c ∈ commits, c.touches p → keep c = true) := by
  induction commits generalizing rows with
  | nil => exact ⟨rows, h, Nat.le_refl _, by simp⟩
  | cons c commits ih =>
    rw [List.flatMap_cons, changesRows_append] at h
    obtain ⟨first, later, hfirst, hlater, rfl⟩ := joinRows_ok.1 h
    obtain ⟨rest, hrest, hle, hkept⟩ := ih hlater
    by_cases hkeep : keep c = true
    · refine ⟨first ++ rest, ?_, by simpa using hle, fun hlength => ?_⟩
      · rw [List.filter_cons_of_pos hkeep, List.flatMap_cons, changesRows_append]
        exact joinRows_ok.2 ⟨first, rest, hfirst, hrest, rfl⟩
      · rw [List.length_append, List.length_append] at hlength
        rw [List.forall_mem_cons]
        exact ⟨fun _ => hkeep, hkept (by omega)⟩
    · refine ⟨rest, ?_, ?_, fun hlength => ?_⟩
      · rw [List.filter_cons_of_neg hkeep]
        exact hrest
      · rw [List.length_append]
        omega
      · rw [List.length_append] at hlength
        obtain rfl : first = [] := List.length_eq_zero_iff.1 (by omega)
        rw [List.forall_mem_cons]
        refine ⟨fun htouches => ?_, hkept (by omega)⟩
        obtain ⟨change, hchange, hselects⟩ := htouches
        exact absurd hselects (changesRows_eq_nil.1 hfirst change hchange)

theorem changesRows_filter_touching {commits : List Commit} {keep : Commit → Bool}
    (h : ∀ c ∈ commits, c.touches p → keep c = true) :
    changesRows p ((commits.filter keep).flatMap Commit.changes) =
      changesRows p (commits.flatMap Commit.changes) := by
  induction commits with
  | nil => rfl
  | cons c commits ih =>
    obtain ⟨hc, hcommits⟩ := List.forall_mem_cons.1 h
    by_cases hkeep : keep c = true
    · rw [List.filter_cons_of_pos hkeep, List.flatMap_cons, List.flatMap_cons, changesRows_append,
        changesRows_append, ih hcommits]
    · have hnone : changesRows p c.changes = .ok [] :=
        changesRows_eq_nil.2 fun change hchange hselects => hkeep (hc ⟨change, hchange, hselects⟩)
      rw [List.filter_cons_of_neg hkeep, List.flatMap_cons, changesRows_append, hnone,
        ih hcommits]
      exact (nil_joinRows _).symm

theorem committedRows_published {log : List Commit} {lo hi : Nat}
    (h : ∀ c ∈ between log lo hi, c.touches p → p.stream ∈ c.published) :
    committedRows p (log.map Commit.sent) lo hi = committedRows p log lo hi := by
  rw [committedRows, between_sent, changesRows_sent_log, committedRows]
  exact changesRows_filter_touching fun c hc htouches => decide_eq_true (h c hc htouches)

/-- What a session over the published log has of a range. -/
theorem committedRows_sent (log : List Commit) (since confirmed target : Nat) :
    committedRows p (log.map Commit.sent) (max since confirmed) target =
      changesRows p (((between log since target).filter fun c =>
        confirmed < c.position ∧ p.stream ∈ c.published).flatMap Commit.changes) := by
  rw [committedRows, between_sent, changesRows_sent_log, between, between, List.filter_filter,
    List.filter_filter]
  congr 2
  refine List.filter_congr fun c _ => ?_
  rw [← Bool.decide_and, ← Bool.decide_and, decide_eq_decide, Nat.max_lt]
  tauto

/-! ## A pass over a session -/

variable {builder : ColumnBuilder V} {context : StreamContext} {stream : String}
  {log : List Commit} {since confirmed target : Nat}

/-- The messages of a session from the confirmed position up to upto. -/
def session (log : List Commit) (confirmed upto : Nat) : List (Nat × Message) :=
  streamOf (decoded noRelations (between log confirmed upto))

/-- The pass handed over every row of the table committed in (since, target]. -/
def Delivers (builder : ColumnBuilder V) (p : Plan) (log : List Commit) (since target : Nat)
    (emits : List (Emit V)) : Prop :=
  ∃ rows, committedRows p log since target = .ok rows ∧
    rows.mapM (decodeRow builder p.columns) = .ok (batchRows emits)

/-- A pass that succeeds delivers what the session had of its range. -/
theorem session_delivers (hp : Plan.new context stream = .ok p) (hlog : Logged log)
    (hok : (changePass builder context stream since target
      (session log confirmed target)).result = .ok ()) :
    Delivers builder p log (max since confirmed) target
      (changePass builder context stream since target (session log confirmed target)).emits := by
  have hpass := changePass_stream builder since target [] hp (by simp) (decoded noRelations (between log confirmed target))
  rw [List.append_nil] at hpass
  rw [session, hpass] at hok ⊢
  have hle : ∀ t ∈ decoded noRelations (between log confirmed target), t.commit ≤ target := by
    intro t ht
    obtain ⟨c, hc, heq⟩ := mem_decoded ht
    have hin := (List.mem_filter.1 hc).2
    simp only [decide_eq_true_eq] at hin
    omega
  obtain ⟨hchecks, -, -⟩ := (passOf_succeeds hle).1 hok
  obtain ⟨pre, hemits⟩ := passOf_complete hok
  obtain ⟨rows, hrows, hdecode⟩ :=
    passOf_exact (commitOrdered_decoded (logged_between hlog)) hle
      (show _ = pre ++ .checkpoint _ :: [] from hemits)
  refine ⟨rows, ?_, ?_⟩
  · rw [rowsBetween_decoded described_none hchecks] at hrows
    rw [← hrows, committedRows, committedRows, between_between]
    congr 2
    refine List.filter_congr fun c _ => ?_
    simp only [decide_eq_decide]
    omega
  · rw [hemits]
    simpa using hdecode

/-- It delivers its whole range exactly when no change of the table in it lies
behind the confirmed position or was not published. -/
theorem session_delivers_iff (hp : Plan.new context stream = .ok p) (hlog : Logged log)
    (hok : (changePass builder context stream since target
      (session (log.map Commit.sent) confirmed target)).result = .ok ()) :
    Delivers builder p log since target (changePass builder context stream since target
        (session (log.map Commit.sent) confirmed target)).emits ↔
      ∀ c ∈ between log since target, c.touches p →
        confirmed < c.position ∧ p.stream ∈ c.published := by
  obtain ⟨sent, hsent, hdecode⟩ := session_delivers hp (logged_sent hlog) hok
  rw [committedRows_sent] at hsent
  constructor
  · rintro ⟨rows, hrows, hdecoded⟩
    obtain ⟨rest, hrest, -, hkept⟩ := changesRows_filter
      (fun c => confirmed < c.position ∧ p.stream ∈ c.published) hrows
    obtain rfl : sent = rest := Except.ok.inj (hsent.symm.trans hrest)
    have hlength : sent.length = rows.length :=
      (mapM_length hdecode).symm.trans (mapM_length hdecoded)
    exact fun c hc htouches => of_decide_eq_true (hkept hlength c hc htouches)
  · intro hread
    refine ⟨sent, ?_, hdecode⟩
    rw [← hsent, committedRows]
    exact (changesRows_filter_touching fun c hc htouches =>
      decide_eq_true (hread c hc htouches)).symm

/-- Its checkpoints lie at or past its start. -/
theorem session_checkpoints (hp : Plan.new context stream = .ok p) {c : Nat}
    (hc : c ∈ checkpoints (changePass builder context stream since target
      (session log confirmed target)).emits) : since ≤ c := by
  have hpass := changePass_stream builder since target [] hp (by simp) (decoded noRelations (between log confirmed target))
  rw [List.append_nil] at hpass
  rw [session, hpass] at hc
  rcases passOf_checkpoint hc with rfl | ⟨t, -, hlt, rfl⟩
  · exact Nat.le_max_right _ _
  · omega

end Cdc
