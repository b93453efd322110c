import Mathlib
import RdltConnectors.Cdc.Tracking

/-!
# The destination mirrors the source over whole runs

From the empty system on, whatever commits, runs, retries, failures, concurrent
reads, acknowledgements and stores there are: what a destination has stored of a
stream is one snapshot and each commit between its start and the cursor once. So
when the cursor has caught up with the snapshot, folding it gives the source table
there, but for keys whose last change record is wrong about them.
-/
namespace Cdc

open PgTypes Fallible Interrupted

variable {V : Type} {config : Config V} {stream : String} {source : Source}

/-! ## The destination -/

/-- What is stored of a stream, and when it is the source table. -/
structure Mirrored (builder : ColumnBuilder V) (stream : String) (source : Source)
    (s : Followed V) : Prop where
  /-- nothing without a cursor -/
  fresh : s.1.committed stream = none → s.2.stored.rows = []
  /-- with one: a snapshot, then every commit from its start to the cursor, once
  and in order; once the cursor has reached the snapshot they fold to the source
  table there exactly if the last record of each key is right about it, which it is
  where each row that left its key was alone there and named -/
  exact : ∀ c, s.1.committed stream = some c → ∃ start scanned rows,
    start ≤ s.2.stored.view ∧ start ≤ c ∧
    scanned.Perm (source.asOf s.2.stored.view) ∧
    committedRows source.plan s.1.server.log start c = .ok rows ∧
    (snapshotRows source.map scanned ++ rows).mapM (decodeRow builder source.plan.columns)
      = .ok s.2.stored.rows ∧
    (s.2.stored.view ≤ c →
      (source.plan.fold (fun _ => none) (snapshotRows source.map scanned ++ rows)
          = project source.plan source.map (source.asOf c) ↔
        ∀ key, ¬ Astray source.plan source.map source.carried (source.asOf s.2.stored.view)
          (opsBetween source.history start c) (source.asOf c) key) ∧
      (PlainOps source.plan source.map source.carried (source.asOf start)
          (opsBetween source.history start c) →
        ∀ key, ¬ Astray source.plan source.map source.carried (source.asOf s.2.stored.view)
          (opsBetween source.history start c) (source.asOf c) key))

theorem Wrote.checked {p : Plan} {relation : Relation} {map : List Nat} {carried : Nat → Bool}
    {rel : Relations} {T : SourceTable} {history : History} (hplan : PlanMap p relation map)
    (h : Wrote p relation map carried rel T history) :
    ∀ t ∈ history.log, p.checkRelations t.body = .ok () := by
  induction h with
  | nil => simp
  | cons _ hbody _ ih =>
    intro t ht
    rcases List.mem_cons.1 ht with rfl | ht
    · exact checkRelations_own hplan hbody.undrifted
    · exact ih t ht

/-- In every state of every run over one slot, whatever order others' commits,
runs and their crashes, retries, reads of all streams, snapshots, passes, tails,
acknowledgements and stores come in. -/
theorem destination_mirrors_source (config : Config V) (stream : String) (source : Source)
    (relation : Relation) (hp : Plan.new (config.context stream) stream = .ok source.plan)
    (hsel : source.plan.selects relation = true)
    (hmap : source.plan.planMap relation = .ok source.map)
    (hwrote : Wrote source.plan relation source.map source.carried noRelations source.table
      source.history)
    (moves : List (Label × Haul V))
    (hok : Transition.Meets (follow config stream) (Honest config.builder stream source)
      Followed.initial moves)
    (hlog : source.history.log = decoded noRelations
      (Transition.run (follow config stream) Followed.initial moves).1.server.log) :
    Mirrored config.builder stream source
      (Transition.run (follow config stream) Followed.initial moves) := by
  obtain ⟨hinv, htracked⟩ := run_tracked hp hok
  have hplan := planMap_of_new hp hsel hmap
  have hord : CommitOrdered source.history.log := by
    rw [hlog]
    exact commitOrdered_decoded hinv.sound.logged
  refine ⟨htracked.fresh, fun c hc => ?_⟩
  obtain ⟨start, scanned, rows, hview, hstart, -, hlists, hrows, hdecode⟩ := htracked.stored c hc
  refine ⟨start, scanned, rows, hview, hstart, hlists, hrows, hdecode, fun hreached => ?_⟩
  have hchecked := hwrote.checked hplan
  rw [hlog] at hchecked
  have hsame : source.plan.rowsBetween noRelations (decoded noRelations _) start c = _ :=
    rowsBetween_decoded described_none hchecked
  rw [← hlog, hrows] at hsame
  rcases hwrote.rowsBetween hplan announced_none start c with hown | ⟨e, hbad, -⟩
  · rw [hsame, Except.ok.injEq] at hown
    subst hown
    exact ⟨snapshot_mirrors_iff hplan (hwrote.keyed_at hord _) hlists _,
      snapshot_mirrors_plain hplan source.table hord hview hreached⟩
  · rw [hsame] at hbad
    cases hbad

/-! ## A crash between a snapshot and its first pass -/

/-- Over one table set only the server has something to meet. -/
theorem honest_of_fixed (tables : List String) {moves : List (Label × Haul V)}
    (hfixed : ∀ move ∈ moves, move.1.Fixed tables)
    (hserved : Transition.Meets (follow config stream) (Served config.builder stream source)
      Followed.initial moves) :
    Transition.Meets (follow config stream) (Honest config.builder stream source)
      Followed.initial moves := by
  have hcovers {s : Followed V} {label : Label} (hinv : Inv s.1)
      (htables : s.1.tables = tables ∨ s.1.tables = []) (hlabel : label.Fixed tables) :
      Covers s.1 label := by
    cases label with
    | run configured =>
      obtain rfl : configured = tables := hlabel
      intro other hsome
      obtain ⟨c, hc⟩ := Option.isSome_iff_exists.1 hsome
      have hmem := (hinv.stored other c hc).1
      rcases htables with htables | htables
      · exact htables ▸ hmem
      · simp [htables] at hmem
    | dropSlot => exact hlabel
    | _ => trivial
  refine Transition.meets_of_invariant
    (I := fun s : Followed V => Inv s.1 ∧ (s.1.tables = tables ∨ s.1.tables = []))
    (fun s move h hmove => ?_) (fun s move h hmove => ?_) ⟨initial_inv, .inr rfl⟩
    (Transition.meets_and (Transition.meets_of_forall _ hfixed) hserved)
  · exact ⟨step_inv config h.1 (hcovers h.1 h.2 hmove.1), step_tables config hmove.1 h.2⟩
  · exact ⟨hcovers h.1 h.2 hmove.1, hmove.2⟩

def ordersRelation : Relation := ⟨7, "public", "orders", [⟨"id"⟩]⟩

def orderRow (id : String) : SourceRow := [some id]

/-- Two orders, the second written between the slot's creation and the copy. -/
def ordersHistory : History :=
  [(⟨0, [(1, .relation ordersRelation), (1, .insert 7 ⟨[.text "1".toUTF8]⟩)], 5, by decide⟩,
      [.insert (orderRow "1")]),
    (⟨5, [(6, .insert 7 ⟨[.text "2".toUTF8]⟩)], 10, by decide⟩, [.insert (orderRow "2")])]

def ordersSource : Source := ⟨ordersPlan, [0], fun _ => true, [], ordersHistory⟩

def ordersScan : Haul String := ⟨10, [([some "1"], none), ([some "2"], none)]⟩

def ordersMoves : List (Label × Haul String) :=
  [(.work ⟨[(1, .insert ordersRelation ⟨[.text "1".toUTF8]⟩)], 4⟩, ordersScan),
    (.run ["orders"], ordersScan), (.read "orders" answered connectionLost, ordersScan),
    (.work ⟨[(6, .insert ordersRelation ⟨[.text "2".toUTF8]⟩)], 4⟩, ordersScan),
    (.copy 0, ordersScan), (.store "orders" 5, ordersScan),
    (.run ["orders"], ordersScan), (.read "orders" answered connectionLost, ordersScan),
    (.peek 0, ordersScan), (.deliver 0, ordersScan), (.deliver 0, ordersScan),
    (.store "orders" 10, ordersScan)]

theorem order_shown (id : String) :
    TupleShows ordersRelation ⟨[.text id.toUTF8]⟩ fun index =>
      Shows ((orderRow id).getD index none) := by
  intro index hindex
  obtain rfl : index = 0 := by
    change index < 1 at hindex
    omega
  exact ⟨_, rfl, rfl⟩

theorem orders_wrote :
    Wrote ordersPlan ordersRelation [0] (fun _ => true) noRelations [] ordersHistory :=
  .cons (by decide) (.foreign (.inl rfl) (.own rfl trivial (.insert (order_shown "1")) .nil))
    (.cons (by decide) (.own rfl trivial (.insert (order_shown "2")) .nil) (.nil (by decide)))

theorem orders_honest : Transition.Meets (follow feedConfig "orders")
    (Honest feedConfig.builder "orders" ordersSource) Followed.initial ordersMoves := by
  refine honest_of_fixed ["orders"] (by decide) ?_
  -- neither a pass nor a copy
  have hother {label : Label} (hpeek : ∀ task, label ≠ .peek task)
      (hcopy : ∀ task, label ≠ .copy task) (s : Followed String) :
      Served feedConfig.builder "orders" ordersSource s (label, ordersScan) :=
    ⟨fun task _ _ _ heq _ => absurd heq (hpeek task), fun task _ heq _ => absurd heq (hcopy task)⟩
  refine ⟨hother (by simp) (by simp) _, hother (by simp) (by simp) _,
    hother (by simp) (by simp) _, hother (by simp) (by simp) _, ⟨by simp, ?_⟩,
    hother (by simp) (by simp) _, hother (by simp) (by simp) _, hother (by simp) (by simp) _,
    ⟨?_, by simp⟩, hother (by simp) (by simp) _, hother (by simp) (by simp) _,
    hother (by simp) (by simp) _, trivial⟩
  · intro task start _ _
    exact ⟨by decide +kernel, by decide +kernel, [orderRow "1", orderRow "2"], .swap _ _ _,
      by decide⟩
  · rintro task since target tail ⟨rfl⟩ hread
    have hstands : ((Transition.run (follow feedConfig "orders") Followed.initial
        (ordersMoves.take 8)).1).reading "orders" 0 = some (.changing 5 10 false) := by
      decide +kernel
    obtain ⟨rfl, rfl, rfl⟩ := Progress.changing.inj (Option.some.inj (hstands.symm.trans hread))
    decide +kernel

/-- The destination stored the snapshot, the run ended, and the next one brought
the second order once more. -/
theorem orders_mirrored : Mirrored feedConfig.builder "orders" ordersSource
    (Transition.run (follow feedConfig "orders") Followed.initial ordersMoves) :=
  destination_mirrors_source feedConfig "orders" ordersSource ordersRelation rfl (by decide)
    (by decide) orders_wrote ordersMoves orders_honest (by
      have hlog : (Transition.run (follow feedConfig "orders") Followed.initial
          ordersMoves).1.server.log =
          [⟨0, [(1, .insert ordersRelation ⟨[.text "1".toUTF8]⟩)], 5, []⟩,
            ⟨5, [(6, .insert ordersRelation ⟨[.text "2".toUTF8]⟩)], 10, ["orders"]⟩] := by
        decide +kernel
      rw [hlog]
      rfl)

example : (Transition.run (follow feedConfig "orders") Followed.initial
    ordersMoves).1.committed "orders" = some 10 := by decide +kernel

end Cdc
