import Mathlib
import RdltConnectors.Oracle.Progress

/-!
# A stream under changing configurations

The persisted record holds a text and a ROWID but not the column they were recorded for. As
long as every run is configured with the column the record was last written for, its bound
leaves out only rows that runs with that column have delivered.
-/
namespace Oracle

open Keyset Transition

variable {R F : Type}

/-- The column of the last run that left a checkpoint: what the persisted record is about. -/
def World.recordedFor (w : World R F) : Option ColumnInfo :=
  (w.delivered.filterMap Prod.fst).getLast?

namespace Reader

/-- A run is configured with the column of the record it will resume from: without one when
there is no record, and with the same one otherwise. -/
def SameColumn (reader : Reader R F) (w : World R F) : Event R F → Prop
  | .begin none => w.recordedFor = none
  | .begin (some option) => ∀ column,
      validateCursor reader.server.typeText reader.stream reader.table reader.described option =
        .ok column → ∀ recorded ∈ w.recordedFor, recorded = column
  | _ => True

instance (reader : Reader R F) :
    ∀ (w : World R F) (event : Event R F), Decidable (reader.SameColumn w event)
  | w, .begin none => inferInstanceAs (Decidable (w.recordedFor = none))
  | w, .begin (some option) =>
    match hcolumn : validateCursor reader.server.typeText reader.stream reader.table
        reader.described option with
    | .error _ => isTrue fun column h => by rw [hcolumn] at h; cases h
    | .ok column => decidable_of_iff (∀ recorded ∈ w.recordedFor, recorded = column)
        ⟨fun h c hc => by rw [hcolumn] at hc; cases hc; exact h, fun h => h column hcolumn⟩
  | _, .turn => isTrue trivial
  | _, .stop _ => isTrue trivial
  | _, .insert _ => isTrue trivial

end Reader

/-- The table does not change. -/
def Event.keepsRows : Event R F → Bool
  | .insert _ => false
  | _ => true

variable [LinearOrder R] [LinearOrder F]

/-- No configuration makes a completed run skip a row. -/
structure NothingSkipped (reader : Reader R F) (w : World R F) : Prop where
  full : ∀ run, w.run = some run → run.phase = .finished → run.cursorAt = none →
    ∀ row ∈ w.rows, row ∈ run.fed.flatten
  incremental : ∀ run column, w.run = some run → run.phase = .finished →
    run.cursorAt = some column →
    ∀ row ∈ w.rows, (some column, row) ∈ w.delivered ∨ row ∈ run.fed.flatten
  /-- a position is that of a row read under the run's own column -/
  bounds : ∀ run mark, w.run = some run → run.position = some mark →
    ∃ row, reader.Marks run.cursorAt row mark ∧
      ((∃ column, run.cursorAt = some column ∧ (some column, row) ∈ w.delivered) ∨
        row ∈ run.fed.flatten)

/-! ## The invariant -/

section Invariant

variable (reader : Reader R F) (cursor : Option ColumnInfo) (rows : List (Row R F))

/-- The position was written from a row that was read, and whatever was not read its statement
keeps. -/
structure Covers (read : Row R F → Prop) (position : Option StreamCursor) : Prop where
  marked : ∀ mark, position = some mark →
    ∃ row ∈ rows, read row ∧ reader.Marks cursor row mark
  rest : ∀ row ∈ rows, read row ∨
    ∀ keep, reader.asks cursor position = .ok keep → keep row = true

variable {reader cursor rows}

theorem Covers.mono {read read' : Row R F → Prop} {position : Option StreamCursor}
    (h : Covers reader cursor rows read position) (hread : ∀ row, read row → read' row) :
    Covers reader cursor rows read' position where
  marked mark hmark := by
    obtain ⟨row, hrow, hdone, hmarks⟩ := h.marked mark hmark
    exact ⟨row, hrow, hread row hdone, hmarks⟩
  rest row hrow := (h.rest row hrow).imp_left (hread row)

theorem Covers.none (read : Row R F → Prop) : Covers reader cursor rows read none where
  marked := by rintro _ ⟨⟩
  rest row _ := by
    apply Or.inr
    intro keep hasks
    rw [reader.asks_none] at hasks
    cases hasks
    rfl

end Invariant

/-- Delivered under the run's column before, or in the first of its batches. -/
def World.ReadBy (w : World R F) (run : Run R F) (keep : Nat) (row : Row R F) : Prop :=
  (∃ column, run.cursorAt = some column ∧ (some column, row) ∈ w.delivered) ∨
    row ∈ (run.fed.take keep).flatten

structure RunCovers (reader : Reader R F) (w : World R F) (run : Run R F) : Prop where
  fits : ∀ row ∈ w.rows, row.Fits run.cursorAt
  position : Covers reader run.cursorAt w.rows (w.ReadBy run run.fed.length) run.position
  record : run.cursorAt ≠ none → Covers reader run.cursorAt w.rows (w.ReadBy run run.fed.length)
    (run.cursor.streams.lookup reader.stream)
  stops : ∀ keep, run.cursorAt ≠ none → Covers reader run.cursorAt w.rows (w.ReadBy run keep)
    (((run.checkpoints.take keep).getLast?.or w.persisted).bind
      fun record => record.streams.lookup reader.stream)
  paired : run.cursorAt ≠ none → run.checkpoints.length = run.fed.length
  unpaired : run.cursorAt = none → run.checkpoints = []
  fed : ∀ batch ∈ run.fed, batch ≠ []
  finished : run.phase = .finished → ∀ row ∈ w.rows, w.ReadBy run run.fed.length row

structure Recorded (reader : Reader R F) (w : World R F) : Prop where
  distinct : (w.rows.map Row.rowid).Nodup
  fits : ∀ column ∈ reader.described, column.nullable = false →
    column.oracleType.carriesWatermark = true → ∀ row ∈ w.rows, row.Fits (some column)
  unrecorded : w.recordedFor = none → w.position reader = none
  recorded : ∀ column, w.recordedFor = some column →
    Covers reader (some column) w.rows (fun row => (some column, row) ∈ w.delivered)
      (w.position reader)
  run : ∀ run, w.run = some run → RunCovers reader w run

variable {reader : Reader R F} {w : World R F}

/-! ## A turn -/

/-- What is kept and not on the page lies behind the page's last row, where the next statement
looks. -/
theorem covers_page (exact : reader.server.Exact) {cursor : Option ColumnInfo}
    {rows : List (Row R F)} {read : Row R F → Prop} {position : Option StreamCursor}
    {keep : Row R F → Bool} {last : Row R F} {watermark : Option String}
    (hdistinct : (rows.map Row.rowid).Nodup) (hfits : ∀ row ∈ rows, row.Fits cursor)
    (h : Covers reader cursor rows read position) (hasks : reader.asks cursor position = .ok keep)
    (hlast : (reader.page cursor keep rows).getLast? = some last)
    (hwatermark : reader.watermark cursor last = .ok watermark) :
    Covers reader cursor rows (fun row => read row ∨ row ∈ reader.page cursor keep rows)
      (some ⟨watermark.getD "", some (reader.server.rowidToChar last.rowid)⟩) := by
  have hlastPage := List.mem_of_getLast? hlast
  have hlastRow : last ∈ rows := (mem_select.mp (List.mem_of_mem_take hlastPage)).1
  have hmark : reader.Marks cursor last
      ⟨watermark.getD "", some (reader.server.rowidToChar last.rowid)⟩ := ⟨watermark, hwatermark, rfl⟩
  constructor
  · intro mark hsome
    cases hsome
    exact ⟨last, hlastRow, .inr hlastPage, hmark⟩
  · intro row hrow
    obtain hread | hleft := h.rest row hrow
    · exact .inl (.inl hread)
    by_cases hpage : row ∈ reader.page cursor keep rows
    · exact .inl (.inr hpage)
    apply Or.inr
    intro keep' hasks'
    have hselected : row ∈ select (orderKey cursor) keep rows :=
      mem_select.mpr ⟨hrow, hleft keep hasks⟩
    have hbehind := behind_last (distinct_keys hdistinct) hlast hselected hpage
    rw [Reader.asks_mark exact (hfits last hlastRow) hmark hasks' (hfits row hrow)]
    exact lt_of_le_of_lt (bound_le cursor last) hbehind

/-- A page with room left leaves nothing the statement keeps. -/
theorem covers_short {cursor : Option ColumnInfo} {rows : List (Row R F)} {read : Row R F → Prop}
    {position : Option StreamCursor} {keep : Row R F → Bool}
    (h : Covers reader cursor rows read position) (hasks : reader.asks cursor position = .ok keep)
    (hshort : (reader.page cursor keep rows).length < reader.batchRows) :
    ∀ row ∈ rows, read row ∨ row ∈ reader.page cursor keep rows := by
  intro row hrow
  obtain hread | hleft := h.rest row hrow
  · exact .inl hread
  · apply Or.inr
    rw [Reader.page, take_of_short hshort]
    exact mem_select.mpr ⟨hrow, hleft keep hasks⟩

omit [LinearOrder R] [LinearOrder F] in
theorem readBy_append {present : Run R F} {batch : List (Row R F)} {next : Run R F}
    (hcursorAt : next.cursorAt = present.cursorAt) (hfed : next.fed = present.fed ++ [batch])
    (row : Row R F) : w.ReadBy next next.fed.length row ↔
      w.ReadBy present present.fed.length row ∨ row ∈ batch := by
  rw [World.ReadBy, World.ReadBy, hcursorAt, List.take_length, List.take_length, hfed,
    List.flatten_append, List.flatten_singleton, List.mem_append, or_assoc]

/-- A turn keeps what is covered. -/
theorem turn_covers (exact : reader.server.Exact) {present : Run R F}
    (hdistinct : (w.rows.map Row.rowid).Nodup) (h : RunCovers reader w present) :
    RunCovers reader w (reader.turn w.rows present) := by
  have hturned := reader.turn_turned w.rows present
  generalize reader.turn w.rows present = next at hturned
  cases hturned with
  | failed e hwhy =>
    exact ⟨h.fits, h.position, h.record, h.stops, h.paired, h.unpaired, h.fed, (by rintro ⟨⟩)⟩
  | drained keep hasks hempty =>
    refine ⟨h.fits, h.position, h.record, h.stops, h.paired, h.unpaired, h.fed, ?_⟩
    intro _ row hrow
    have hshort : (reader.page present.cursorAt keep w.rows).length < reader.batchRows := by
      rw [hempty]
      exact reader.batchRows_pos
    have hall := covers_short h.position hasks hshort row hrow
    rw [hempty] at hall
    exact hall.resolve_right List.not_mem_nil
  | fed keep last watermark hasks hlast hwatermark =>
    let batch := reader.page present.cursorAt keep w.rows
    let next := reader.moved present batch last watermark
    have hread : ∀ row, w.ReadBy next next.fed.length row ↔
        w.ReadBy present present.fed.length row ∨ row ∈ batch :=
      readBy_append rfl rfl
    have hposition := (covers_page exact hdistinct h.fits h.position hasks hlast hwatermark).mono
      fun row => (hread row).mpr
    have hrecord : present.cursorAt ≠ none → Covers reader present.cursorAt w.rows
        (w.ReadBy next next.fed.length) (next.cursor.streams.lookup reader.stream) := by
      intro hcursor
      have hold := (h.record hcursor).mono fun row hdone => (hread row).mpr (.inl hdone)
      cases watermark with
      | none => exact hold
      | some text =>
        obtain hmoved | hsame := present.cursor.advance_cases reader.stream text
          (some (reader.server.rowidToChar last.rowid))
        · show Covers _ _ _ _ ((present.cursor.advance _ _ _).streams.lookup _)
          rw [hmoved]
          exact hposition
        · show Covers _ _ _ _ ((present.cursor.advance _ _ _).streams.lookup _)
          rw [hsame]
          exact hold
    have hsome : present.cursorAt ≠ none → ∃ text, watermark = some text := by
      intro hcursor
      obtain ⟨column, hcolumn⟩ := Option.ne_none_iff_exists'.mp hcursor
      rw [hcolumn] at hwatermark
      obtain ⟨-, text, -, -, htext⟩ := Reader.watermark_some hwatermark
      exact ⟨text, htext⟩
    refine ⟨h.fits, hposition, hrecord, ?_, ?_, ?_, ?_, ?_⟩
    · intro kept hcursor
      obtain ⟨text, rfl⟩ := hsome hcursor
      show Covers reader present.cursorAt w.rows _
        ((((present.checkpoints ++ [next.cursor]).take kept).getLast?.or w.persisted).bind _)
      obtain hlt | hge := Nat.lt_or_ge kept (present.fed.length + 1)
      · have hold : kept ≤ present.fed.length := Nat.le_of_lt_succ hlt
        rw [List.take_append_of_le_length (h.paired hcursor ▸ hold)]
        apply (h.stops kept hcursor).mono
        intro row hdone
        show (∃ column, _ ∧ _) ∨ row ∈ ((present.fed ++ [batch]).take kept).flatten
        rw [List.take_append_of_le_length hold]
        exact hdone
      · rw [List.take_of_length_le (by simpa [h.paired hcursor] using hge), List.getLast?_concat]
        apply (hrecord hcursor).mono
        intro row hdone
        show (∃ column, _ ∧ _) ∨ row ∈ (next.fed.take kept).flatten
        rw [List.take_of_length_le (by simpa [next, Reader.moved] using hge)]
        rwa [World.ReadBy, List.take_length] at hdone
    · intro hcursor
      obtain ⟨text, rfl⟩ := hsome hcursor
      show (present.checkpoints ++ [_]).length = (present.fed ++ [batch]).length
      rw [List.length_append, List.length_append, h.paired hcursor]
      rfl
    · intro hcursor
      have hnone : watermark = none := by
        rw [show present.cursorAt = none from hcursor] at hwatermark
        exact (Except.ok.inj hwatermark).symm
      subst hnone
      exact h.unpaired hcursor
    · intro b hb
      obtain hold | hnew := List.mem_append.mp hb
      · exact h.fed b hold
      · rw [List.mem_singleton.mp hnew]
        exact fun hnil => by simp [hnil] at hlast
    · intro hphase row hrow
      have hshort : batch.length < reader.batchRows := by
        by_contra hfull
        have hreading : (if batch.length < reader.batchRows then Phase.finished else .reading) =
            .finished := hphase
        rw [if_neg hfull] at hreading
        cases hreading
      exact (hread row).mpr (covers_short h.position hasks hshort row hrow)

/-! ## Every event -/

/-- A run starts from the record of its own column, or from none. -/
theorem start_covers (h : Recorded reader w) {option : Option String}
    (hsame : reader.SameColumn w (.begin option)) :
    RunCovers reader w (reader.start w.persisted option) := by
  have hfailed : ∀ e, RunCovers reader w (Run.failed e) := fun e =>
    ⟨fun _ _ _ hcolumn => (by cases hcolumn), Covers.none _, fun hcursor => absurd rfl hcursor,
      fun _ hcursor => absurd rfl hcursor, fun hcursor => absurd rfl hcursor, fun _ => rfl,
      fun _ hmem => (by cases hmem), (by rintro ⟨⟩)⟩
  unfold Reader.start
  cases hdecode : OracleCursor.decode w.persisted with
  | error message => exact hfailed _
  | ok record =>
    have hlookup : record.streams.lookup reader.stream = w.position reader := by
      rw [World.position]
      cases hpersisted : w.persisted with
      | none => rw [hpersisted] at hdecode; cases hdecode; rfl
      | some persisted =>
        rw [hpersisted, OracleCursor.decode] at hdecode
        split at hdecode
        · cases hdecode
        · cases hdecode; rfl
    dsimp only
    rw [hlookup]
    cases option with
    | none =>
      rw [h.unrecorded hsame]
      exact ⟨fun _ _ _ hcolumn => (by cases hcolumn), Covers.none _, fun hcursor => absurd rfl hcursor,
        fun _ hcursor => absurd rfl hcursor, fun hcursor => absurd rfl hcursor, fun _ => rfl,
        fun _ hmem => (by cases hmem), (by rintro ⟨⟩)⟩
    | some option =>
      dsimp only
      cases hcolumn : validateCursor reader.server.typeText reader.stream reader.table
          reader.described option with
      | error message => exact hfailed _
      | ok column =>
        obtain ⟨hdescribed, -, hnullable, htype⟩ := validateCursor_ok hcolumn
        have hcovers : Covers reader (some column) w.rows
            (fun row => (some column, row) ∈ w.delivered) (w.position reader) := by
          cases hrecorded : w.recordedFor with
          | none =>
            rw [h.unrecorded hrecorded]
            exact Covers.none _
          | some recorded =>
            have heq : recorded = column := hsame column hcolumn recorded hrecorded
            exact heq ▸ h.recorded recorded hrecorded
        have hread : Covers reader (some column) w.rows (fun row =>
            (∃ c, some column = some c ∧ (some c, row) ∈ w.delivered) ∨ row ∈ ([] : List (Row R F)))
            (w.position reader) :=
          hcovers.mono fun row hdone => .inl ⟨column, rfl, hdone⟩
        exact ⟨h.fits column hdescribed hnullable htype, hread,
          fun _ => by rw [hlookup]; exact hread, fun keep _ => by
            rw [List.take_nil]
            exact hcovers.mono fun row hdone => .inl ⟨column, rfl, hdone⟩,
          fun _ => rfl,
          (by rintro ⟨⟩), fun _ hmem => (by cases hmem), (by rintro ⟨⟩)⟩

theorem RunCovers.with_run {present : Run R F} (h : RunCovers reader w present)
    (run : Option (Run R F)) : RunCovers reader { w with run := run } present :=
  ⟨h.fits, h.position, h.record, h.stops, h.paired, h.unpaired, h.fed, h.finished⟩

omit [LinearOrder R] [LinearOrder F] in
theorem recordedFor_stop (present : Run R F) (kept : List (Row R F)) :
    ((w.delivered ++ kept.map fun row => (present.cursorAt, row)).filterMap Prod.fst).getLast? =
      if kept = [] then w.recordedFor else present.cursorAt.or w.recordedFor := by
  rw [List.filterMap_append, List.filterMap_map]
  cases hcursor : present.cursorAt with
  | none =>
    have hnothing : kept.filterMap (Prod.fst ∘ fun row => ((none : Option ColumnInfo), row)) = [] :=
      List.filterMap_eq_nil_iff.mpr fun _ _ => rfl
    rw [hnothing, List.append_nil, Option.none_or, ite_self]
    rfl
  | some column =>
    have hcolumns : kept.filterMap (Prod.fst ∘ fun row => (some column, row)) =
        kept.map fun _ => column := by
      rw [← List.filterMap_eq_map]
      rfl
    rw [hcolumns, List.getLast?_append, List.getLast?_map]
    split
    · next hnil => rw [hnil]; rfl
    · next hne =>
      rw [List.getLast?_eq_some_getLast hne]
      rfl

/-- A record that stays is about the same column. -/
theorem Recorded.keep (h : Recorded reader w) {delivered : List (Option ColumnInfo × Row R F)}
    (hmore : ∀ entry ∈ w.delivered, entry ∈ delivered)
    (hsame : (delivered.filterMap Prod.fst).getLast? = w.recordedFor) :
    Recorded reader { w with delivered := delivered, run := none } where
  distinct := h.distinct
  fits := h.fits
  unrecorded hnone := h.unrecorded (hsame ▸ hnone)
  recorded column hcolumn :=
    (h.recorded column (hsame ▸ hcolumn)).mono fun _ hdone => hmore _ hdone
  run := by rintro _ ⟨⟩

/-- Whoever stops leaves a record of its own column, or the record as it was. -/
theorem stop_recorded (h : Recorded reader w) (keep : Nat) :
    Recorded reader (reader.act w (.stop keep)) := by
  cases hrun : w.run with
  | none => simpa only [Reader.act, hrun] using h
  | some present =>
    have hcovers := h.run present hrun
    let kept := present.kept keep
    let delivered := w.delivered ++ kept.map fun row => (present.cursorAt, row)
    have hact : reader.act w (.stop keep) = { w with
        persisted := (present.checkpoints.take keep).getLast?.or w.persisted
        delivered := delivered
        run := none } := by
      rw [Reader.act, hrun]
    have hrecordedFor : (delivered.filterMap Prod.fst).getLast? =
        if kept = [] then w.recordedFor else present.cursorAt.or w.recordedFor :=
      recordedFor_stop present kept
    have hmore : ∀ entry ∈ w.delivered, entry ∈ delivered :=
      fun entry hentry => List.mem_append_left _ hentry
    have hstay : present.checkpoints.take keep = [] →
        (delivered.filterMap Prod.fst).getLast? = w.recordedFor →
        Recorded reader (reader.act w (.stop keep)) := by
      intro hnothing hsame
      rw [hact, hnothing]
      exact h.keep hmore hsame
    cases hcursor : present.cursorAt with
    | none =>
      apply hstay
      · rw [hcovers.unpaired hcursor, List.take_nil]
      · rw [hrecordedFor, hcursor, Option.none_or, ite_self]
    | some column =>
      have hne : present.cursorAt ≠ none := by simp [hcursor]
      have hkept : kept = (present.fed.take keep).flatten := by
        show present.kept keep = _
        rw [Run.kept, hcursor]
      by_cases hempty : kept = []
      · apply hstay
        · have hbatches : present.fed.take keep = [] := by
            rw [hkept, List.flatten_eq_nil_iff] at hempty
            apply List.eq_nil_iff_forall_not_mem.mpr
            exact fun batch hbatch =>
              hcovers.fed batch (List.mem_of_mem_take hbatch) (hempty batch hbatch)
          have hlength := congrArg List.length hbatches
          rw [List.length_take, List.length_nil] at hlength
          apply List.length_eq_zero_iff.mp
          rw [List.length_take, hcovers.paired hne]
          exact hlength
        · rw [hrecordedFor, if_pos hempty]
      · rw [if_neg hempty, hcursor, Option.some_or] at hrecordedFor
        rw [hact]
        refine ⟨h.distinct, h.fits, fun hnone => ?_, fun recorded hrecorded => ?_, (by rintro _ ⟨⟩)⟩
        · cases hrecordedFor.symm.trans hnone
        · cases hrecordedFor.symm.trans hrecorded
          have hstops := hcovers.stops keep hne
          rw [hcursor] at hstops
          apply hstops.mono
          intro row hdone
          show (some column, row) ∈ delivered
          rw [World.ReadBy, hcursor, ← hkept] at hdone
          obtain ⟨column', hsame, hold⟩ | hnew := hdone
          · cases hsame
            exact hmore _ hold
          · apply List.mem_append_right
            rw [hcursor]
            exact List.mem_map_of_mem hnew

/-- Every event keeps the invariant. -/
theorem act_recorded (exact : reader.server.Exact) {event : Event R F} (h : Recorded reader w)
    (hrows : event.keepsRows = true) (hsame : reader.SameColumn w event) :
    Recorded reader (reader.act w event) := by
  cases event with
  | begin option =>
    cases hrun : w.run with
    | some present => simpa only [Reader.act, hrun] using h
    | none =>
      have hact : reader.act w (.begin option) =
          { w with run := some (reader.start w.persisted option) } := by
        rw [Reader.act, hrun]
      rw [hact]
      refine ⟨h.distinct, h.fits, h.unrecorded, h.recorded, fun present hpresent => ?_⟩
      cases hpresent
      exact (start_covers h hsame).with_run _
  | turn =>
    cases hrun : w.run with
    | none => simpa only [Reader.act, hrun] using h
    | some present =>
      by_cases hreading : present.phase = .reading
      · have hact : reader.act w .turn = { w with run := some (reader.turn w.rows present) } := by
          rw [Reader.act, hrun]
          exact if_pos hreading
        rw [hact]
        refine ⟨h.distinct, h.fits, h.unrecorded, h.recorded, fun next hnext => ?_⟩
        cases hnext
        exact (turn_covers exact h.distinct (h.run present hrun)).with_run _
      · have hact : reader.act w .turn = w := by
          rw [Reader.act, hrun]
          exact if_neg hreading
        rw [hact]
        exact h
  | stop keep => exact stop_recorded h keep
  | insert row => cases hrows

theorem Recorded.nothingSkipped (h : Recorded reader w) : NothingSkipped reader w where
  full present hrun hfinished hcursor row hrow := by
    have hdone := (h.run present hrun).finished hfinished row hrow
    rw [World.ReadBy, List.take_length, hcursor] at hdone
    obtain ⟨column, hcolumn, -⟩ | hfed := hdone
    · cases hcolumn
    · exact hfed
  incremental present column hrun hfinished hcursor row hrow := by
    have hdone := (h.run present hrun).finished hfinished row hrow
    rw [World.ReadBy, List.take_length, hcursor] at hdone
    obtain ⟨column', hcolumn, hold⟩ | hfed := hdone
    · cases hcolumn
      exact .inl hold
    · exact .inr hfed
  bounds present mark hrun hposition := by
    obtain ⟨row, -, hdone, hmarks⟩ := (h.run present hrun).position.marked mark hposition
    rw [World.ReadBy, List.take_length] at hdone
    exact ⟨row, hmarks, hdone⟩

/-- Over any runs of one unchanging table, each configured with the column of the record it
resumes from, no completed run skips a row. -/
theorem configured_alike_skips_nothing (exact : reader.server.Exact) {rows : List (Row R F)}
    (hdistinct : (rows.map Row.rowid).Nodup)
    (hfits : ∀ column ∈ reader.described, column.nullable = false →
      column.oracleType.carriesWatermark = true → ∀ row ∈ rows, row.Fits (some column))
    {events : List (Event R F)} (hrows : ∀ event ∈ events, event.keepsRows = true)
    (hsame : Meets reader.act reader.SameColumn (World.start rows) events) :
    NothingSkipped reader (run reader.act (World.start rows) events) := by
  have hstart : Recorded reader (World.start rows) :=
    ⟨hdistinct, hfits, fun _ => rfl, (by rintro _ ⟨⟩), (by rintro _ ⟨⟩)⟩
  have hstep : ∀ (w : World R F) (event : Event R F), Recorded reader w →
      event.keepsRows = true ∧ reader.SameColumn w event → Recorded reader (reader.act w event) :=
    fun w event h hok => act_recorded exact h hok.1 hok.2
  exact (run_invariant hstep hstart (meets_and (meets_of_forall _ hrows) hsame)).nothingSkipped

set_option maxRecDepth 100000 in
/-- Two incremental runs with a crash between them, the second with the column of the first. -/
theorem configured_alike_skips_nothing_of_events :
    NothingSkipped (eventsReader 1 (by decide))
      (run (eventsReader 1 (by decide)).act (World.start [stamped 1 1000, stamped 3 100])
        [.begin none, .turn, .stop 0, .begin (some "updated_at"), .turn, .turn, .stop 1,
          .begin (some "UPDATED_AT"), .turn]) := by
  have hfits : ∀ row ∈ [stamped 1 1000, stamped 3 100], row.Fits (some updatedAt) := by
    intro row hrow
    obtain rfl | rfl : row = stamped 1 1000 ∨ row = stamped 3 100 := by simpa using hrow
    · exact stamped_fits (by decide) (by decide)
    · exact stamped_fits (by decide) (by decide)
  have hdescribed : ∀ column ∈ [updatedAt], column.nullable = false →
      column.oracleType.carriesWatermark = true →
      ∀ row ∈ [stamped 1 1000, stamped 3 100], row.Fits (some column) := by
    intro column hcolumn _ _
    rw [List.mem_singleton.mp hcolumn]
    exact hfits
  exact configured_alike_skips_nothing Server.plain_exact (by decide) hdescribed (by decide)
    (by decide)

set_option maxRecDepth 100000 in
/-- A full run after an incremental one starts behind the ROWID recorded with the watermark. -/
theorem full_run_skips_rows :
    Server.plain.Exact ∧ (stamped 1 1000).Fits (some updatedAt) ∧
      (∀ event ∈ ([.begin (some "updated_at"), .turn, .stop 1, .begin none, .turn] :
        List (Event Nat Nat)), event.keepsRows = true) ∧
      ¬NothingSkipped (eventsReader 2 (by decide))
        (run (eventsReader 2 (by decide)).act (World.start [stamped 1 1000])
          [.begin (some "updated_at"), .turn, .stop 1, .begin none, .turn]) := by
  refine ⟨Server.plain_exact, stamped_fits (by decide) (by decide), by decide, ?_⟩
  intro h
  have hpresent : (run (eventsReader 2 (by decide)).act (World.start [stamped 1 1000])
      [.begin (some "updated_at"), .turn, .stop 1, .begin none, .turn]).run.map (fun present =>
        (present.phase, present.cursorAt, present.fed.flatten.length)) =
          some (.finished, none, 0) := by decide
  have hrows : 0 < (run (eventsReader 2 (by decide)).act (World.start [stamped 1 1000])
      [.begin (some "updated_at"), .turn, .stop 1, .begin none, .turn]).rows.length := by decide
  obtain ⟨present, hrun, hshape⟩ := Option.map_eq_some_iff.mp hpresent
  obtain ⟨row, hrow⟩ := List.exists_mem_of_length_pos hrows
  obtain ⟨hphase, hcursor, hnothing⟩ : present.phase = .finished ∧ present.cursorAt = none ∧
      present.fed.flatten.length = 0 := by simpa using hshape
  have hfed := h.full present hrun hphase hcursor row hrow
  rw [List.length_eq_zero_iff.mp hnothing] at hfed
  cases hfed

end Oracle
