import RdltConnectors.Cdc.Rows

/-!
# The destination mirrors the source

Change rows over whole histories: the transactions a table underwent, the
messages they arrived as, and the destination that folds the rows of every pass.
At each checkpoint it is the source table of that commit, but for the keys whose
last change record is wrong about them.
-/
namespace Cdc

open PgTypes Fallible

variable {V : Type} {builder : ColumnBuilder V} {p : Plan} {relation : Relation} {map : List Nat}
  {carried : Nat → Bool}

/-! ## Histories of one table -/

def applyOps (T : SourceTable) (ops : List Op) : SourceTable := ops.foldl Op.apply T

@[simp] theorem applyOps_append (T : SourceTable) (xs ys : List Op) :
    applyOps T (xs ++ ys) = applyOps (applyOps T xs) ys := by simp [applyOps]
@[simp] theorem opRows_append (xs ys : List Op) :
    opRows p map carried (xs ++ ys) = opRows p map carried xs ++ opRows p map carried ys := by
  simp [opRows]

/-- Each of the changes finds a table in which it is plain. -/
def PlainOps (p : Plan) (map : List Nat) (carried : Nat → Bool) (T : SourceTable) :
    List Op → Prop
  | [] => True
  | op :: ops => op.Plain p map carried T ∧ PlainOps p map carried (op.apply T) ops

theorem plainOps_append {T : SourceTable} {xs ys : List Op} :
    PlainOps p map carried T (xs ++ ys) ↔
      PlainOps p map carried T xs ∧ PlainOps p map carried (applyOps T xs) ys := by
  induction xs generalizing T with
  | nil => simp [PlainOps, applyOps]
  | cons op xs ih => simp [PlainOps, ih, and_assoc, applyOps]

/-- A whole sequence of plain changes, folded. -/
theorem PlainOps.fold_project (h : PlanMap p relation map) {T : SourceTable} {ops : List Op}
    (hplain : PlainOps p map carried T ops) :
    p.fold (project p map T) (opRows p map carried ops) = project p map (applyOps T ops) := by
  induction ops generalizing T with
  | nil => rfl
  | cons op ops ih =>
    have hrest := ih hplain.2
    rw [← hplain.1.fold_project h] at hrest
    simpa [opRows, applyOps] using hrest

/-- A message that is about other tables, or says again what the stream's is. -/
def Foreign (p : Plan) (relation : Relation) : Message → Prop
  | .relation r => r = relation ∨ r.id ≠ relation.id ∧ p.selects r = false
  | .insert id _ => id ≠ relation.id
  | .update id _ _ => id ≠ relation.id
  | .delete id _ => id ≠ relation.id
  | .truncate ids => relation.id ∉ ids
  | .origin => True
  | .type => True
  | .begin => False
  | .commit => False

/-- The messages are those of the changes, in order, among those of other
tables. The table's relation is announced before its first change. -/
inductive BodyOf (p : Plan) (relation : Relation) (carried : Nat → Bool) :
    Relations → SourceTable → List (Nat × Message) → List Op → Prop where
  | nil {rel : Relations} {T : SourceTable} : BodyOf p relation carried rel T [] []
  | own {rel : Relations} {T : SourceTable} {lsn : Nat} {m : Message} {op : Op}
      {body : List (Nat × Message)} {ops : List Op} :
      rel relation.id = some relation → op.Valid T → Encodes p relation carried op m →
      BodyOf p relation carried rel (op.apply T) body ops →
      BodyOf p relation carried rel T ((lsn, m) :: body) (op :: ops)
  | foreign {rel : Relations} {T : SourceTable} {lsn : Nat} {m : Message}
      {body : List (Nat × Message)} {ops : List Op} :
      Foreign p relation m → BodyOf p relation carried (rel.see m) T body ops →
      BodyOf p relation carried rel T ((lsn, m) :: body) ops

/-- Transactions, each with the changes it made to the table. -/
abbrev History := List (Transaction × List Op)

def History.log (history : History) : List Transaction := history.map Prod.fst

/-- The history is one the table underwent and the log tells of. Between its
transactions the merge key is a key. -/
inductive Wrote (p : Plan) (relation : Relation) (map : List Nat) (carried : Nat → Bool) :
    Relations → SourceTable → History → Prop where
  | nil {rel : Relations} {T : SourceTable} :
      Keyed p map T → Wrote p relation map carried rel T []
  | cons {rel : Relations} {T : SourceTable} {t : Transaction} {ops : List Op}
      {history : History} :
      Keyed p map T → BodyOf p relation carried rel T t.body ops →
      Wrote p relation map carried (rel.after t.body) (applyOps T ops) history →
      Wrote p relation map carried rel T ((t, ops) :: history)

/-- The changes of the transactions with `lo < commit ≤ hi`. -/
def opsBetween (history : History) (lo hi : Nat) : List Op :=
  (history.filter fun w => lo < w.1.commit ∧ w.1.commit ≤ hi).flatMap Prod.snd

/-- The source table as of a commit position. -/
def tableAt (T : SourceTable) (history : History) (lsn : Nat) : SourceTable :=
  applyOps T ((history.filter fun w => w.1.commit ≤ lsn).flatMap Prod.snd)

/-- The stream's relation is the only one in force that its plan selects. -/
def Announced (p : Plan) (relation : Relation) (rel : Relations) : Prop :=
  ∀ id r, rel id = some r → r = relation ∧ id = relation.id ∨
    id ≠ relation.id ∧ p.selects r = false

theorem announced_none : Announced p relation noRelations := fun _ _ h => by cases h

theorem announced_see {rel : Relations} {m : Message} (h : Announced p relation rel)
    (hm : Foreign p relation m) : Announced p relation (rel.see m) := by
  cases m with
  | relation r =>
    intro id r' hr'
    by_cases hid : id = r.id
    · obtain rfl : r = r' := by simpa [Relations.see, hid] using hr'
      rcases hm with rfl | ⟨hne, hsel⟩
      · exact .inl ⟨rfl, hid⟩
      · exact .inr ⟨hid ▸ hne, hsel⟩
    · exact h id r' (by simpa [Relations.see, hid] using hr')
  | _ => exact h

theorem ours_eq_none {rel : Relations} (h : Announced p relation rel) {id : Nat}
    (hid : id ≠ relation.id) : p.ours rel id = none := by
  cases hrel : rel id with
  | none => simp [Plan.ours, hrel]
  | some r =>
    rcases h id r hrel with ⟨-, heq⟩ | ⟨-, hsel⟩
    · exact absurd heq hid
    · simp [Plan.ours, hrel, Plan.mapOf, hsel]

theorem ours_eq_some (h : PlanMap p relation map) {rel : Relations}
    (hrel : rel relation.id = some relation) : p.ours rel relation.id = some map := by
  simp [Plan.ours, hrel, Plan.mapOf, h.selected, h.planned, Except.toOption]

/-- Messages about other tables come to nothing. -/
theorem changeRows_foreign {rel : Relations} {m : Message} (h : Announced p relation rel)
    (hm : Foreign p relation m) : p.changeRows (p.ours rel) m = .ok [] := by
  cases m with
  | insert id new => simp [Plan.changeRows, ours_eq_none h hm]
  | update id old new => simp [Plan.changeRows, ours_eq_none h hm]
  | delete id old => simp [Plan.changeRows, ours_eq_none h hm]
  | truncate ids =>
    have hnone : (ids.any fun id => (p.ours rel id).isSome) = false := by
      rw [List.any_eq_false]
      intro id hmem
      have hid : id ≠ relation.id := fun heq => hm (heq ▸ hmem)
      simp [ours_eq_none h hid]
    simp [Plan.changeRows, hnone]
  | begin => exact hm.elim
  | commit => exact hm.elim
  | _ => rfl

theorem encodes_see {op : Op} {m : Message} (henc : Encodes p relation carried op m)
    (rel : Relations) : rel.see m = rel := by
  cases henc <;> rfl

/-- The relations of a body stay the table's. -/
theorem BodyOf.announced {rel : Relations} {T : SourceTable} {body : List (Nat × Message)}
    {ops : List Op} (h : BodyOf p relation carried rel T body ops)
    (hrel : Announced p relation rel) : Announced p relation (rel.after body) := by
  induction h with
  | nil => exact hrel
  | own _ _ henc _ ih => simpa [encodes_see henc] using ih hrel
  | foreign hm _ ih => simpa using ih (announced_see hrel hm)

/-- A body comes to the rows of its changes, or fails on an unappliable one. -/
theorem BodyOf.rows (hplan : PlanMap p relation map) {rel : Relations} {T : SourceTable}
    {body : List (Nat × Message)} {ops : List Op} (h : BodyOf p relation carried rel T body ops)
    (hrel : Announced p relation rel) :
    p.bodyRows rel body = .ok (opRows p map carried ops) ∨
      ∃ e, p.bodyRows rel body = .error e ∧ Unappliable p e := by
  induction h with
  | nil => exact .inl rfl
  | @own rel T lsn m op body ops hown hvalid henc hbody ih =>
    rw [bodyRows_cons]
    simp only [encodes_see henc]
    rcases changeRows_ok_or hplan (ours_eq_some hplan hown) henc with hrows | ⟨e, hfail, he⟩
    · rcases ih hrel with hrest | ⟨e, hrest, he⟩
      · exact .inl (by rw [hrows, hrest]; rfl)
      · exact .inr ⟨e, by rw [hrows, hrest]; rfl, he⟩
    · exact .inr ⟨e, by rw [hfail]; rfl, he⟩
  | @foreign rel T lsn m body ops hm hbody ih =>
    rw [bodyRows_cons, changeRows_foreign hrel hm]
    rcases ih (announced_see hrel hm) with hrest | ⟨e, hrest, he⟩
    · exact .inl (by rw [hrest]; rfl)
    · exact .inr ⟨e, by rw [hrest]; rfl, he⟩

/-- Relations that are the table's own or another's never drift. -/
theorem checkRelations_own (hplan : PlanMap p relation map) {messages : List (Nat × Message)}
    (h : ∀ m ∈ messages, ∀ r, m.2 = .relation r → Foreign p relation (.relation r)) :
    p.checkRelations messages = .ok () := by
  induction messages with
  | nil => rfl
  | cons m messages ih =>
    obtain ⟨lsn, m⟩ := m
    have hrest := ih fun m' hm' => h m' (by simp [hm'])
    cases m with
    | relation r =>
      rcases h (lsn, .relation r) (by simp) r rfl with rfl | ⟨-, hsel⟩
      · simpa [Plan.checkRelations, hplan.selected, hplan.planned] using hrest
      · simpa [Plan.checkRelations, hsel] using hrest
    | _ => exact hrest

theorem BodyOf.undrifted {rel : Relations} {T : SourceTable} {body : List (Nat × Message)}
    {ops : List Op} (h : BodyOf p relation carried rel T body ops) :
    ∀ m ∈ body, ∀ r, m.2 = .relation r → Foreign p relation (.relation r) := by
  induction h with
  | nil => simp
  | own _ _ henc _ ih =>
    intro m hm r hr
    rcases List.mem_cons.1 hm with rfl | hm
    · cases henc <;> cases hr
    · exact ih m hm r hr
  | foreign hforeign _ ih =>
    intro m hm r hr
    rcases List.mem_cons.1 hm with rfl | hm
    · simp only at hr
      exact hr ▸ hforeign
    · exact ih m hm r hr

/-! ## Logs and ranges -/

@[simp] theorem log_nil : History.log [] = [] := rfl
@[simp] theorem log_cons (w : Transaction × List Op) (history : History) :
    History.log (w :: history) = w.1 :: history.log := rfl

theorem log_filter (history : History) (keep : Transaction → Bool) :
    history.log.filter keep = History.log (history.filter fun w => keep w.1) := by
  simp [History.log, List.filter_map, Function.comp_def]

/-- A log in commit order is cut in two by any position. -/
theorem filter_split {history : History} (hord : CommitOrdered history.log) (lsn : Nat) :
    (history.filter fun w => w.1.commit ≤ lsn) ++ (history.filter fun w => lsn < w.1.commit)
      = history := by
  induction history with
  | nil => rfl
  | cons w history ih =>
    obtain ⟨hlater, hord'⟩ := List.pairwise_cons.1 hord
    have hrest := ih hord'
    by_cases hle : w.1.commit ≤ lsn
    · have hnot : ¬ lsn < w.1.commit := by omega
      simp only [List.filter_cons, hle, hnot, decide_true, decide_false, if_true,
        Bool.false_eq_true, if_false, List.cons_append, hrest]
    · have hnone : history.filter (fun w => decide (w.1.commit ≤ lsn)) = [] := by
        rw [List.filter_eq_nil_iff]
        intro w' hw'
        have := hlater w'.1 (List.mem_map_of_mem hw')
        simp only [decide_eq_true_eq]
        omega
      have hall : history.filter (fun w => decide (lsn < w.1.commit)) = history := by
        rw [hnone, List.nil_append] at hrest
        exact hrest
      have hlt : lsn < w.1.commit := by omega
      simp only [List.filter_cons, hle, hlt, decide_true, decide_false, if_true,
        Bool.false_eq_true, if_false, hnone, hall, List.nil_append]

/-- The table at a later position is the earlier one with what came between. -/
theorem opsUpTo_split {history : History} (hord : CommitOrdered history.log) {lo hi : Nat}
    (hle : lo ≤ hi) :
    (history.filter fun w => w.1.commit ≤ hi).flatMap Prod.snd =
      (history.filter fun w => w.1.commit ≤ lo).flatMap Prod.snd ++ opsBetween history lo hi := by
  have hord' : CommitOrdered (History.log (history.filter fun w => w.1.commit ≤ hi)) := by
    have hfilter := log_filter history fun t => decide (t.commit ≤ hi)
    exact hfilter ▸ hord.filter _
  rw [← filter_split hord' lo, opsBetween, List.flatMap_append, List.filter_filter,
    List.filter_filter]
  congr 2
  · refine List.filter_congr fun w _ => ?_
    simp only [← Bool.decide_and, decide_eq_decide]
    omega
  · refine List.filter_congr fun w _ => ?_
    simp only [← Bool.decide_and]

theorem tableAt_split {history : History} (T : SourceTable) (hord : CommitOrdered history.log)
    {lo hi : Nat} (hle : lo ≤ hi) :
    tableAt T history hi = applyOps (tableAt T history lo) (opsBetween history lo hi) := by
  rw [tableAt, opsUpTo_split hord hle, applyOps_append]
  rfl

theorem Wrote.keyed {rel : Relations} {T : SourceTable} {history : History}
    (h : Wrote p relation map carried rel T history) : Keyed p map T := by
  cases h with
  | nil hkeyed => exact hkeyed
  | cons hkeyed => exact hkeyed

theorem Wrote.prefix {rel : Relations} {T : SourceTable} {before after : History}
    (h : Wrote p relation map carried rel T (before ++ after)) :
    Wrote p relation map carried rel T before := by
  induction before generalizing rel T with
  | nil => exact .nil h.keyed
  | cons w before ih =>
    cases h with
    | cons hkeyed hbody hrest => exact .cons hkeyed hbody (ih hrest)

/-- The merge key is a key of the table a history ends with. -/
theorem Wrote.keyed_after {rel : Relations} {T : SourceTable} {history : History}
    (h : Wrote p relation map carried rel T history) :
    Keyed p map (applyOps T (history.flatMap Prod.snd)) := by
  induction h with
  | nil hkeyed => exact hkeyed
  | cons _ _ _ ih => rwa [List.flatMap_cons, applyOps_append]

theorem Wrote.keyed_at {rel : Relations} {T : SourceTable} {history : History}
    (h : Wrote p relation map carried rel T history) (hord : CommitOrdered history.log)
    (lsn : Nat) : Keyed p map (tableAt T history lsn) := by
  rw [← filter_split hord lsn] at h
  exact h.prefix.keyed_after

/-- The rows of a range are those of its changes, unless one is unappliable. -/
theorem Wrote.rowsBetween (hplan : PlanMap p relation map) {rel : Relations} {T : SourceTable}
    {history : History} (h : Wrote p relation map carried rel T history) (hrel : Announced p relation rel)
    (lo hi : Nat) :
    p.rowsBetween rel history.log lo hi = .ok (opRows p map carried (opsBetween history lo hi)) ∨
      ∃ e, p.rowsBetween rel history.log lo hi = .error e ∧ Unappliable p e := by
  induction h with
  | nil => exact .inl rfl
  | @cons rel T t ops history _ hbody hrest ih =>
    have hnext := ih (hbody.announced hrel)
    by_cases hin : lo < t.commit ∧ t.commit ≤ hi
    · have hops : opsBetween ((t, ops) :: history) lo hi = ops ++ opsBetween history lo hi := by
        simp [opsBetween, hin]
      rw [log_cons, rowsBetween_inside hin, hops, opRows_append]
      rcases hbody.rows hplan hrel with hrows | ⟨e, hfail, he⟩
      · rcases hnext with hlater | ⟨e, hlater, he⟩
        · exact .inl (by rw [hrows, hlater]; rfl)
        · exact .inr ⟨e, by rw [hrows, hlater]; rfl, he⟩
      · exact .inr ⟨e, by rw [hfail]; rfl, he⟩
    · have hops : opsBetween ((t, ops) :: history) lo hi = opsBetween history lo hi := by
        simp only [opsBetween, List.filter_cons, hin, decide_false, Bool.false_eq_true, if_false]
      rw [log_cons, rowsBetween_outside hin, hops]
      exact hnext

/-- Rows of a range that are all there include the rows of each transaction. -/
theorem bodyRows_of_rowsBetween {rel : Relations} {before after : List Transaction}
    {t : Transaction} {lo hi : Nat} {rows : List Row}
    (h : p.rowsBetween rel (before ++ t :: after) lo hi = .ok rows) (hlo : lo < t.commit)
    (hhi : t.commit ≤ hi) :
    ∃ own, p.bodyRows (rel.after (streamOf before)) t.body = .ok own := by
  induction before generalizing rel rows with
  | nil =>
    rw [List.nil_append, rowsBetween_inside ⟨hlo, hhi⟩] at h
    obtain ⟨own, rest, hown, -, -⟩ := joinRows_ok.1 h
    exact ⟨own, hown⟩
  | cons first before ih =>
    rw [streamOf_cons, after_append, after_messages]
    by_cases hin : lo < first.commit ∧ first.commit ≤ hi
    · rw [List.cons_append, rowsBetween_inside hin] at h
      obtain ⟨-, rest, -, hrest, -⟩ := joinRows_ok.1 h
      exact ih hrest
    · rw [List.cons_append, rowsBetween_outside hin] at h
      exact ih h

/-! ## Passes over a history -/

variable {since target : Nat} {openTail : List (Nat × Message)}

/-- The column builder reads the row's text forms. -/
def Reads (builder : ColumnBuilder V) (p : Plan) (row : Row) : Prop :=
  ∃ out, decodeRow builder p.columns row = .ok out

/-- A pass over readable values fails on an unappliable record only. -/
theorem Wrote.typed (hplan : PlanMap p relation map) {rel : Relations} {T : SourceTable}
    {history : History} (h : Wrote p relation map carried rel T history) (hrel : Announced p relation rel)
    (hopen : p.checkRelations openTail = .ok ()) (hle : ∀ t ∈ history.log, t.commit ≤ target)
    {ready : List Row} (hready : ∀ row ∈ ready, Reads builder p row)
    (hreads : ∀ row ∈ opRows p map carried (opsBetween history since target), Reads builder p row)
    {e : SourceError}
    (hfail : (passOf builder p since target openTail rel ready history.log).result = .error e) :
    Unappliable p e := by
  induction h generalizing ready with
  | nil =>
    obtain ⟨out, hout⟩ := mapM_succeeds.2 hready
    have hdone : (passOf builder p since target openTail noRelations ready []).result = .ok () :=
      (passOf_succeeds (by simp)).2 ⟨by simp, hopen, [], out, rfl, by simpa using hout⟩
    rw [log_nil, passOf] at hfail
    rw [passOf] at hdone
    rw [hdone] at hfail
    cases hfail
  | @cons rel T t ops history _ hbody hrest ih =>
    have hle' : ∀ t' ∈ history.log, t'.commit ≤ target := fun t' ht' => hle t' (by simp [ht'])
    have ht : t.commit ≤ target := hle t (by simp)
    have hcheck : p.checkRelations t.body = .ok () := checkRelations_own hplan hbody.undrifted
    have hnext (ready' : List Row) (emits : List (Emit V))
        (hsettle : settle builder p since rel ready t = .ok (ready', emits))
        (hready' : ∀ row ∈ ready', Reads builder p row)
        (hreads' : ∀ row ∈ opRows p map carried (opsBetween history since target), Reads builder p row) :
        Unappliable p e := by
      rw [log_cons, passOf_cons_ok hsettle] at hfail
      exact ih (hbody.announced hrel) hle' hready' hreads' hfail
    by_cases hlt : since < t.commit
    · have hops : opsBetween ((t, ops) :: history) since target
          = ops ++ opsBetween history since target := by
        simp [opsBetween, hlt, ht]
      rw [hops, opRows_append] at hreads
      have hown : ∀ row ∈ ready ++ opRows p map carried ops, Reads builder p row := fun row hrow =>
        (List.mem_append.1 hrow).elim (hready row) fun h => hreads row (by simp [h])
      rcases hbody.rows hplan hrel with hrows | ⟨e', hbad, he'⟩
      · obtain ⟨out, hout⟩ := mapM_succeeds.2 hown
        obtain ⟨⟨ready', emits⟩, hsettle⟩ :=
          settle_succeeds builder rel ready hcheck fun _ : since < t.commit =>
            ⟨_, out, hrows, hout⟩
        refine hnext ready' emits hsettle ?_ fun row hrow => hreads row (by simp [hrow])
        rcases settle_spec hsettle with ⟨hskip, -⟩ | ⟨-, rows, hbodyRows, ⟨rfl, -⟩ | ⟨rfl, -⟩⟩
        · omega
        · obtain rfl : rows = opRows p map carried ops := by simpa [hrows] using hbodyRows.symm
          exact hown
        · simp
      · have hsettle : settle builder p since rel ready t = .error e' := by
          simp [settle, hcheck, decideCommit, show ¬ t.commit ≤ since by omega, hbad]
        rw [log_cons, passOf, hsettle] at hfail
        obtain rfl : e' = e := by simpa using hfail
        exact he'
    · have hops : opsBetween ((t, ops) :: history) since target
          = opsBetween history since target := by
        simp [opsBetween, hlt]
      rw [hops] at hreads
      obtain ⟨⟨ready', emits⟩, hsettle⟩ :=
        settle_succeeds builder rel ready hcheck
          fun h => absurd h hlt
      refine hnext ready' emits hsettle ?_ hreads
      rcases settle_spec hsettle with ⟨-, rfl, -⟩ | ⟨hlt', -⟩
      · exact hready
      · exact absurd hlt' hlt

/-- How far a pass over a history keeps its destination the image of the source. -/
structure MirrorsSource (builder : ColumnBuilder V) (context : StreamContext) (stream : String)
    (p : Plan) (map : List Nat) (carried : Nat → Bool) (T : SourceTable) (history : History)
    (since target : Nat) (openTail : List (Nat × Message)) : Prop where
  /-- at a checkpoint the rows so far have made the table at `since` the table
  there, exactly if the last record of each key in between is right about it -/
  exact_iff : ∀ pre c post,
    (changePass builder context stream since target (peeked history.log target ++ openTail)).emits
      = pre ++ .checkpoint c :: post →
    ∃ rows, rows.mapM (decodeRow builder p.columns) = .ok (batchRows pre) ∧
      (p.fold (project p map (tableAt T history since)) rows = project p map (tableAt T history c) ↔
        ∀ key, ¬ Astray p map carried (tableAt T history since) (opsBetween history since c)
          (tableAt T history c) key)
  /-- which it is where each row that left its key was alone there and named -/
  plain : ∀ c, since ≤ c →
    PlainOps p map carried (tableAt T history since) (opsBetween history since c) →
    ∀ key, ¬ Astray p map carried (tableAt T history since) (opsBetween history since c)
      (tableAt T history c) key
  /-- a pass that succeeds reaches the target -/
  complete :
    (changePass builder context stream since target
      (peeked history.log target ++ openTail)).result = .ok () →
    ∃ pre, (changePass builder context stream since target
      (peeked history.log target ++ openTail)).emits = pre ++ [.checkpoint (max target since)]
  /-- over readable values it fails only on an unappliable record -/
  typed : (∀ row ∈ opRows p map carried (opsBetween history since target), Reads builder p row) →
    ∀ e, (changePass builder context stream since target
      (peeked history.log target ++ openTail)).result = .error e → Unappliable p e
  /-- no checkpoint reaches the commit of an unappliable record -/
  prompt : ∀ before w after, history = before ++ w :: after → since < w.1.commit →
    (∃ e, p.bodyRows (noRelations.after (streamOf (History.log before))) w.1.body = .error e) →
    ∀ c ∈ checkpoints (changePass builder context stream since target
      (peeked history.log target ++ openTail)).emits, c < w.1.commit

/-- Reading no further than the end of a range loses none of its changes. -/
theorem opsBetween_filter {history : History} {lo hi : Nat} :
    opsBetween (history.filter fun w => w.1.commit ≤ hi) lo hi = opsBetween history lo hi := by
  rw [opsBetween, opsBetween, List.filter_filter]
  congr 1
  refine List.filter_congr fun w _ => ?_
  simp only [← Bool.decide_and, decide_eq_decide]
  omega

theorem planMap_of_new {context : StreamContext} {stream : String}
    (hp : Plan.new context stream = .ok p) (hsel : p.selects relation = true)
    (hmap : p.planMap relation = .ok map) : PlanMap p relation map where
  selected := hsel
  planned := hmap
  keys := by
    obtain ⟨indices, hindices, hpure⟩ := bind_ok.1 hp
    obtain rfl := pure_ok.1 hpure
    intro index hmem
    obtain ⟨i, hi⟩ := List.mem_iff_getElem?.1 hmem
    obtain ⟨hlen, hget⟩ := mapM_getElem hindices
    have hlt : i < context.identity.key.length := hlen ▸ (List.getElem?_eq_some_iff.1 hi).1
    obtain ⟨found, hfound, hkey⟩ := hget i _ (List.getElem?_eq_getElem hlt)
    obtain rfl : index = found := by simpa [hi] using hfound
    cases hfind : context.columns.findIdx? fun column =>
        column.name == context.identity.key[i] with
    | none =>
      rw [hfind] at hkey
      cases hkey
    | some k =>
      rw [hfind] at hkey
      obtain rfl : k = index := pure_ok.1 hkey
      exact (List.findIdx?_eq_some_iff_getElem.1 hfind).1

/-- Change rows fold to the source table, for every history of one table under
every replica identity, every start, every batch size and every target. -/
theorem cdc_rows_mirror_source (builder : ColumnBuilder V) (context : StreamContext)
    (stream : String) (p : Plan) (hp : Plan.new context stream = .ok p) (relation : Relation)
    (map : List Nat) (hsel : p.selects relation = true) (hmap : p.planMap relation = .ok map)
    (carried : Nat → Bool) (T : SourceTable) (history : History)
    (hwrote : Wrote p relation map carried noRelations T history)
    (hord : CommitOrdered history.log) (since target : Nat) (openTail : List (Nat × Message))
    (hopen : ∀ m ∈ openTail, m.2 ≠ .commit ∧
      ∀ r, m.2 = .relation r → Foreign p relation (.relation r)) :
    MirrorsSource builder context stream p map carried T history since target openTail := by
  have hplan := planMap_of_new hp hsel hmap
  have htail : ∀ m ∈ openTail, m.2 ≠ .commit := fun m hm => (hopen m hm).1
  refine ⟨?_, ?_, ?_, ?_, ?_⟩
  · intro pre c post hemits
    obtain ⟨hle, -, rows, hrows, hdecode⟩ := pass_exact hp hord htail hemits
    refine ⟨rows, hdecode, ?_⟩
    rcases hwrote.rowsBetween hplan announced_none since c with hown | ⟨e, hbad, -⟩
    · rw [hrows, Except.ok.injEq] at hown
      rw [hown]
      exact fold_project_iff hplan
    · rw [hrows] at hbad
      cases hbad
  · intro c hle hplain
    rw [tableAt_split T hord hle]
    exact (fold_project_iff hplan).1 (hplain.fold_project hplan)
  · exact pass_complete hp htail
  · intro hreads e hfail
    rw [changePass_eq hp htail, log_filter] at hfail
    rw [← filter_split hord target] at hwrote
    refine hwrote.prefix.typed hplan announced_none
      (checkRelations_own hplan fun m hm => (hopen m hm).2) ?_ (by simp) ?_ hfail
    · intro t ht
      obtain ⟨w, hw, rfl⟩ := List.mem_map.1 ht
      simpa using (List.mem_filter.1 hw).2
    · rw [opsBetween_filter]
      exact hreads
  · rintro before w after rfl hlt ⟨e, hbad⟩ c hc
    by_contra hge
    obtain ⟨pre, post, hemits⟩ := List.append_of_mem (mem_checkpoints.1 hc)
    obtain ⟨-, -, rows, hrows, -⟩ := pass_exact hp hord htail hemits
    have hlog : History.log (before ++ w :: after)
        = History.log before ++ w.1 :: History.log after := by simp [History.log]
    rw [hlog] at hrows
    obtain ⟨own, hown⟩ := bodyRows_of_rowsBetween hrows hlt (by omega)
    rw [hbad] at hown
    cases hown

/-! ## A key that was NULL -/

def pairsContext : StreamContext :=
  ⟨"public", [⟨"a", .text, true⟩, ⟨"b", .text, false⟩], ⟨["a", "b"], true⟩, 1, "_rdlt_deleted"⟩

def pairsPlan : Plan :=
  ⟨"public", "pairs", ⟨["a", "b"], true⟩, [⟨"a", .text, true⟩, ⟨"b", .text, false⟩], 1,
    "_rdlt_deleted", [0, 1]⟩

def pairsRelation : Relation := ⟨9, "public", "pairs", [⟨"a"⟩, ⟨"b"⟩]⟩

/-- One row whose second key column is NULL. -/
def pairsTable : SourceTable := [[some "1", none]]

/-- The NULL is given a value, under full old images. -/
def pairsHistory : History :=
  [(⟨5, [(5, .relation pairsRelation),
      (6, .update 9 (some ⟨[.text "1".toUTF8, .null]⟩) ⟨[.text "1".toUTF8, .text "x".toUTF8]⟩)],
      10, by decide⟩,
    [.update [some "1", none] [some "1", some "x"]])]

theorem tupleShows_pair {relation : Relation} {shown : Nat → TupleValue → Prop}
    {first second : TupleValue} (hcolumns : relation.columns.length = 2) (h₀ : shown 0 first)
    (h₁ : shown 1 second) : TupleShows relation ⟨[first, second]⟩ shown := by
  intro index hindex
  match index with
  | 0 => exact ⟨first, rfl, h₀⟩
  | 1 => exact ⟨second, rfl, h₁⟩
  | n + 2 => omega

theorem pairs_wrote : Wrote pairsPlan pairsRelation [0, 1] (fun _ => true) noRelations pairsTable
    pairsHistory := by
  refine .cons (by decide) (.foreign (.inl rfl) (.own rfl ?_ (.update ?_ ?_ (by simp)) .nil))
    (.nil (by decide))
  · exact List.mem_singleton_self _
  · exact tupleShows_pair rfl (.inl rfl) (.inl rfl)
  · rintro tuple ⟨⟩
    exact tupleShows_pair rfl (.inl rfl) (.inl rfl)

theorem pairs_mirror_source : MirrorsSource textBuilder pairsContext "pairs" pairsPlan [0, 1]
    (fun _ => true) pairsTable pairsHistory 0 10 [] :=
  cdc_rows_mirror_source textBuilder pairsContext "pairs" pairsPlan rfl pairsRelation [0, 1] rfl rfl
    (fun _ => true) pairsTable pairsHistory pairs_wrote
    (by simp [CommitOrdered, History.log, pairsHistory]) 0 10 [] (by simp)

/-- The pass succeeds, and the destination it makes still holds the old row. -/
theorem pairs_keeps_the_old_row :
    (changePass textBuilder pairsContext "pairs" 0 10 (peeked pairsHistory.log 10)).result = .ok () ∧
    [([Cell.text "1", Cell.text "x"], false)].mapM (decodeRow textBuilder pairsPlan.columns)
      = .ok (batchRows
        (changePass textBuilder pairsContext "pairs" 0 10 (peeked pairsHistory.log 10)).emits) ∧
    pairsPlan.fold (project pairsPlan [0, 1] (tableAt pairsTable pairsHistory 0))
        [([.text "1", .text "x"], false)]
      ≠ project pairsPlan [0, 1] (tableAt pairsTable pairsHistory 10) := by
  refine ⟨by decide, by decide, fun heq => ?_⟩
  have hold := congrFun heq [.text "1", .null]
  revert hold
  decide

/-- Two rows trade keys under a deferred constraint: the second record deletes the
key the first has written. -/
example : Astray pairsPlan [0, 1] (fun _ => true) [[some "1", some "x"], [some "2", some "x"]]
    [.update [some "1", some "x"] [some "2", some "x"],
      .update [some "2", some "x"] [some "1", some "x"]]
    [[some "1", some "x"], [some "2", some "x"]] [.text "2", .text "x"] := by decide

/-- An identity index on `a` that includes `b`: no old tuple is sent for `b`. -/
example : Astray { pairsPlan with identity := ⟨["a", "b"], false⟩ } [0, 1] (· == 0)
    [[some "1", some "x"]] [.update [some "1", some "x"] [some "1", some "y"]]
    [[some "1", some "y"]] [.text "1", .text "x"] := by decide

end Cdc
