import RdltConnectors.Library.Transition
import RdltConnectors.Oracle.Plain
import RdltConnectors.Oracle.Turn

/-!
# Every row once

One stream is read over any number of runs by one NOT NULL cursor column of numbers or
clock times; runs stop or crash at a checkpoint, and rows are added between them behind the
last delivered place. As long as no batch ends at a row whose value has digits below the
microsecond, the rows delivered are always a beginning of the table in (cursor, ROWID)
order, and the persisted position is its end.
-/
namespace Oracle

open Keyset Transition

variable {R F : Type}

/-- NUMBER, FLOAT, DATE and TIMESTAMP. -/
def OracleType.numberOrClock : OracleType → Bool
  | .number _ _ | .float _ | .date | .timestamp _ => true
  | _ => false

/-- The rows delivered by earlier runs, then those the present one has fed. -/
def World.read (w : World R F) : List (Row R F) :=
  w.delivered.map Prod.snd ++ (w.run.map fun run => run.fed.flatten).getD []

/-- The stream's persisted position. -/
def World.position (reader : Reader R F) (w : World R F) : Option StreamCursor :=
  w.persisted.bind fun record => record.streams.lookup reader.stream

section Values

variable {reader : Reader R F} {column : ColumnInfo} {w : World R F}

theorem World.read_none (h : w.run = none) : w.read = w.delivered.map Prod.snd := by
  rw [World.read, h]
  exact List.append_nil _

theorem World.read_some {run : Run R F} (h : w.run = some run) :
    w.read = w.delivered.map Prod.snd ++ run.fed.flatten := by
  rw [World.read, h]
  rfl

theorem decode_ok (reader : Reader R F) {persisted : Option OracleCursor}
    (h : ∀ r, persisted = some r → r.formatVersion = cursorFormatVersion) :
    ∃ record, OracleCursor.decode persisted = .ok record ∧
      record.formatVersion = cursorFormatVersion ∧
      record.streams.lookup reader.stream =
        persisted.bind fun r => r.streams.lookup reader.stream := by
  cases persisted with
  | none => exact ⟨_, rfl, rfl, rfl⟩
  | some record =>
    have hversion := h record rfl
    exact ⟨record, by rw [OracleCursor.decode, hversion]; rfl, hversion, rfl⟩

/-! ## Values of the cursor column -/

theorem not_float (htype : column.oracleType.numberOrClock = true) {row : Row R F}
    (hfits : row.Fits (some column)) (f : F) : row.values column.name ≠ some (.float f) := by
  intro hvalue
  obtain ⟨v, hv, hholds⟩ := hfits column rfl
  rw [hvalue] at hv
  cases hv
  cases htype' : column.oracleType <;> rw [htype'] at htype hholds <;>
    first | exact hholds.elim | cases htype

theorem kind_ok (reader : Reader R F) (htype : column.oracleType.numberOrClock = true) :
    ∃ kind, arrowType reader.server.typeText column.name column.oracleType = .ok kind := by
  cases htype' : column.oracleType <;> rw [htype'] at htype <;>
    first | exact ⟨_, rfl⟩ | cases htype

/-- Every row has a watermark. -/
theorem watermark_ok (exact : reader.server.Exact) (htype : column.oracleType.numberOrClock = true)
    {row : Row R F} (hfits : row.Fits (some column)) :
    ∃ text, reader.watermark (some column) row = .ok (some text) := by
  obtain ⟨kind, hkind⟩ := kind_ok reader htype
  obtain ⟨v, hv, hholds⟩ := hfits column rfl
  obtain ⟨text, -, htext, -⟩ := text_and_literal exact hholds hkind
    fun f heq => not_float htype hfits f (by rw [hv, heq])
  rw [← hv] at htext
  refine ⟨text, ?_⟩
  rw [Reader.watermark, hkind, Fallible.bind_ok_left, htext, Fallible.bind_ok_left]
  rfl

/-- Declared with at most six fractional digits, or as a number, a column holds nothing below the
microsecond. -/
theorem whole_of_type (hprecision : ∀ precision, column.oracleType = .timestamp precision →
      precision ≤ 6) (htype : column.oracleType.numberOrClock = true) {row : Row R F}
    (hfits : row.Fits (some column)) : row.Whole column := by
  intro v hv
  obtain ⟨w, hw, hholds⟩ := hfits column rfl
  cases hv.symm.trans hw
  cases v with
  | number n => exact trivial
  | float f => exact trivial
  | stamp t =>
    show t.val.nanosecond % 1000 = 0
    cases hdeclared : column.oracleType <;> rw [hdeclared] at hholds htype <;>
      first | exact hholds.elim | skip
    case date =>
      have hzero : t.val.nanosecond = 0 := hholds
      omega
    case timestamp precision =>
      have hdigits : t.val.nanosecond % 10 ^ (9 - precision) = 0 := hholds
      have hdvd : 10 ^ 3 ∣ 10 ^ (9 - precision) :=
        pow_dvd_pow 10 (by have := hprecision precision hdeclared; omega)
      exact Nat.mod_eq_zero_of_dvd (hdvd.trans (Nat.dvd_of_mod_eq_zero hdigits))
    all_goals cases htype

theorem distinct_keys {cursor : Option ColumnInfo} {rows : List (Row R F)}
    (h : (rows.map Row.rowid).Nodup) : Distinct (orderKey cursor) rows := by
  apply List.Nodup.of_map fun key => (ofLex key).2
  rw [List.map_map]
  exact h

end Values

variable [LinearOrder R] [LinearOrder F]

/-- A row not read yet. -/
def World.unread (w : World R F) (row : Row R F) : Bool := row.rowid ∉ w.read.map Row.rowid

namespace Reader

/-- The runs a stream with one cursor column makes: the column stays configured, and rows are
added between runs, behind the last one delivered. -/
def Undisturbed (column : ColumnInfo) (option : String) (w : World R F) : Event R F → Prop
  | .begin cursor => cursor = some option
  | .turn | .stop _ => True
  | .insert row => w.run = none ∧ row.Fits (some column) ∧ row.rowid ∉ w.rows.map Row.rowid ∧
      ∀ last ∈ (w.delivered.map Prod.snd).getLast?,
        orderKey (some column) last < orderKey (some column) row

/-- The row the next batch ends at, in (cursor, ROWID) order of the rows not yet read, holds a
whole number of microseconds. -/
def EndsWhole (reader : Reader R F) (column : ColumnInfo) (w : World R F) : Event R F → Prop
  | .turn => ∀ run ∈ w.run, run.phase = .reading → ∀ last ∈
      ((select (orderKey (some column)) w.unread w.rows).take reader.batchRows).getLast?,
        last.Whole column
  | _ => True

instance (reader : Reader R F) (column : ColumnInfo) :
    ∀ (w : World R F) (event : Event R F), Decidable (reader.EndsWhole column w event)
  | w, .turn => inferInstanceAs (Decidable (∀ run ∈ w.run, run.phase = .reading → ∀ last ∈
      ((select (orderKey (some column)) w.unread w.rows).take reader.batchRows).getLast?,
        last.Whole column))
  | _, .begin _ => isTrue trivial
  | _, .stop _ => isTrue trivial
  | _, .insert _ => isTrue trivial

end Reader

/-- What exactly-once reading with progress means at one moment. -/
structure ExactlyOnce (reader : Reader R F) (column : ColumnInfo) (w : World R F) : Prop where
  /-- no row comes twice: every batch starts past the last row before it -/
  rising : Rising (orderKey (some column)) w.read
  known : ∀ row ∈ w.read, row ∈ w.rows
  /-- the persisted position keeps the rows not delivered, and only those -/
  position : ∃ keep : Row R F → Bool,
    reader.asks (some column) (w.position reader) = .ok keep ∧
      ∀ row ∈ w.rows, keep row = true ↔ row ∉ w.delivered.map Prod.snd
  /-- a turn finishes the run or feeds it a batch more -/
  moves : ∀ run, w.run = some run → run.phase = .reading →
    (reader.turn w.rows run).phase = .finished ∨
      ((reader.turn w.rows run).phase = .reading ∧
        (reader.turn w.rows run).fed.length = run.fed.length + 1)
  /-- and there are no more batches than rows -/
  ends : ∀ run, w.run = some run → run.fed.length ≤ w.rows.length
  /-- a finished run leaves no row out -/
  complete : ∀ run, w.run = some run → run.phase = .finished → w.read.Perm w.rows

/-! ## The invariant -/

section Invariant

variable (reader : Reader R F) (column : ColumnInfo)

/-- The position is the one written from the last row read. -/
def AtEnd (read : List (Row R F)) (position : Option StreamCursor) : Prop :=
  match read.getLast? with
  | none => position = none
  | some last => last.Whole column ∧
      ∃ mark, position = some mark ∧ reader.Marks (some column) last mark

/-- The record is this format's, and its stream is at the end of what was read. -/
def RecordAtEnd (read : List (Row R F)) (record : Option OracleCursor) : Prop :=
  (∀ r, record = some r → r.formatVersion = cursorFormatVersion) ∧
    AtEnd reader column read (record.bind fun r => r.streams.lookup reader.stream)

structure RunAtEnd (w : World R F) (run : Run R F) : Prop where
  cursorAt : run.cursorAt = some column
  phase : ∀ e, run.phase ≠ .failed e
  position : AtEnd reader column (w.delivered.map Prod.snd ++ run.fed.flatten) run.position
  record : RecordAtEnd reader column (w.delivered.map Prod.snd ++ run.fed.flatten) (some run.cursor)
  /-- stopping keeps a record that is at the end of what it delivers -/
  stops : ∀ keep, RecordAtEnd reader column
    (w.delivered.map Prod.snd ++ (run.fed.take keep).flatten)
    ((run.checkpoints.take keep).getLast?.or w.persisted)
  paired : run.checkpoints.length = run.fed.length
  fed : ∀ batch ∈ run.fed, batch ≠ []
  finished : run.phase = .finished →
    ∀ row ∈ w.rows, row ∈ w.delivered.map Prod.snd ++ run.fed.flatten

structure Standing (w : World R F) : Prop where
  distinct : (w.rows.map Row.rowid).Nodup
  fits : ∀ row ∈ w.rows, row.Fits (some column)
  read : Beginning (orderKey (some column)) w.read w.rows
  persisted : RecordAtEnd reader column (w.delivered.map Prod.snd) w.persisted
  run : ∀ run, w.run = some run → RunAtEnd reader column w run

end Invariant

variable {reader : Reader R F} {column : ColumnInfo} {option : String} {w : World R F}

/-! ## Watermarks and positions -/

/-- A later row's watermark is the later text or the same. -/
theorem watermarks_rise (exact : reader.server.Exact)
    (htype : column.oracleType.numberOrClock = true) {row next : Row R F} {text text' : String}
    (hfits : row.Fits (some column)) (hfits' : next.Fits (some column)) (hwhole : row.Whole column)
    (hwhole' : next.Whole column) (htext : reader.watermark (some column) row = .ok (some text))
    (htext' : reader.watermark (some column) next = .ok (some text'))
    (hlt : orderKey (some column) row < orderKey (some column) next) :
    watermarkLess text text' = true ∨ text = text' := by
  obtain ⟨kind, t, hkind, ht, hsome⟩ := Reader.watermark_some htext
  obtain ⟨kind', t', hkind', ht', hsome'⟩ := Reader.watermark_some htext'
  cases hsome
  cases hsome'
  cases hkind.symm.trans hkind'
  obtain ⟨v, hv, hholds⟩ := hfits column rfl
  obtain ⟨v', hv', hholds'⟩ := hfits' column rfl
  rw [hv] at ht
  rw [hv'] at ht'
  have hle : v ≤ v' := by
    have hrank := Prod.Lex.monotone_fst _ _ hlt.le
    simp only [orderKey, rank, ofLex_toLex, hv, hv', nullsLast] at hrank
    exact WithTop.coe_le_coe.mp hrank
  exact texts_rise exact hholds hholds' hkind (fun f heq => not_float htype hfits f (by rw [hv, heq]))
    (hwhole v hv) (hwhole' v' hv') ht ht' hle

/-- The statement of a position at the end of what was read keeps the rest. -/
theorem asks_atEnd (exact : reader.server.Exact) (htype : column.oracleType.numberOrClock = true)
    {read rows : List (Row R F)} {position : Option StreamCursor}
    (hfits : ∀ row ∈ rows, row.Fits (some column))
    (hread : Beginning (orderKey (some column)) read rows)
    (hposition : AtEnd reader column read position) :
    ∃ keep : Row R F → Bool, reader.asks (some column) position = .ok keep ∧
      ∀ row ∈ rows, keep row = true ↔ row ∉ read := by
  unfold AtEnd at hposition
  cases hlast : read.getLast? with
  | none =>
    rw [hlast] at hposition
    rw [List.getLast?_eq_none_iff.mp hlast, hposition]
    exact ⟨_, reader.asks_none _, fun row _ => by simp⟩
  | some last =>
    rw [hlast] at hposition
    obtain ⟨hwhole, mark, rfl, hmark⟩ := hposition
    have hin := hfits last (hread.sub last (List.mem_of_getLast? hlast))
    obtain ⟨keep, hasks⟩ := Reader.asks_mark_ok exact hin (not_float htype hin) hmark
    refine ⟨keep, hasks, ?_⟩
    intro row hrow
    rw [Reader.asks_mark exact hin hmark hasks (hfits row hrow), bound_eq hwhole,
      hread.not_mem_iff hrow hlast]

/-- The record follows to the row a batch ends at. -/
theorem advance_atEnd (exact : reader.server.Exact)
    (htype : column.oracleType.numberOrClock = true) {read batch rows : List (Row R F)}
    {record : OracleCursor} {last : Row R F} {text : String}
    (hfits : ∀ row ∈ rows, row.Fits (some column))
    (hread : Beginning (orderKey (some column)) (read ++ batch) rows)
    (hlast : batch.getLast? = some last) (hwhole : last.Whole column)
    (htext : reader.watermark (some column) last = .ok (some text))
    (hrecord : RecordAtEnd reader column read (some record)) :
    RecordAtEnd reader column (read ++ batch)
      (some (record.advance reader.stream text (some (reader.server.rowidToChar last.rowid)))) := by
  obtain ⟨hversion, hstream⟩ := hrecord
  have hmem := List.mem_of_getLast? hlast
  have hfollows : ∀ existing, record.streams.lookup reader.stream = some existing →
      watermarkLess existing.watermark text = true ∨ existing.watermark = text := by
    intro existing hexisting
    simp only [AtEnd, Option.bind_some, hexisting] at hstream
    cases hbefore : read.getLast? with
    | none => rw [hbefore] at hstream; cases hstream
    | some before =>
      rw [hbefore] at hstream
      obtain ⟨hwhole', mark, hmark, watermark, hwatermark, rfl⟩ := hstream
      cases hmark
      obtain ⟨kind, shown, -, -, rfl⟩ := Reader.watermark_some hwatermark
      have hbeforeMem := List.mem_of_getLast? hbefore
      exact watermarks_rise exact htype
        (hfits before (hread.sub before (List.mem_append_left _ hbeforeMem)))
        (hfits last (hread.sub last (List.mem_append_right _ hmem))) hwhole' hwhole hwatermark htext
        ((List.pairwise_append.mp hread.rising).2.2 before hbeforeMem last hmem)
  constructor
  · intro r hr
    cases hr
    rw [OracleCursor.advance_formatVersion]
    exact hversion record rfl
  · have hend : (read ++ batch).getLast? = some last := by
      rw [List.getLast?_append, hlast]
      rfl
    rw [AtEnd, hend]
    exact ⟨hwhole, _, OracleCursor.advance_lookup hfollows _, some text, htext, rfl⟩

/-! ## What each event keeps -/

/-- A run starts at the end of what was delivered. -/
theorem start_atEnd (hcursor : validateCursor reader.server.typeText reader.stream reader.table
      reader.described option = .ok column) (h : Standing reader column w) :
    RunAtEnd reader column w (reader.start w.persisted (some option)) := by
  obtain ⟨record, hdecode, hversion, hlookup⟩ := decode_ok reader h.persisted.1
  have hstart : reader.start w.persisted (some option) =
      ⟨some column, record.streams.lookup reader.stream, record, [], [], .reading⟩ := by
    rw [Reader.start, hdecode]
    dsimp only
    rw [hcursor]
  have hend := h.persisted.2
  rw [← hlookup] at hend
  rw [hstart]
  exact {
    cursorAt := rfl
    phase := fun e => nofun
    position := by simpa using hend
    record := ⟨fun r hr => by cases hr; exact hversion, by simpa using hend⟩
    stops := fun keep => by simpa using h.persisted
    paired := rfl
    fed := fun _ hmem => nomatch hmem
    finished := nofun }

theorem run_asks (exact : reader.server.Exact) (htype : column.oracleType.numberOrClock = true)
    {present : Run R F} (h : Standing reader column w) (hrun : w.run = some present) :
    ∃ keep : Row R F → Bool, reader.asks present.cursorAt present.position = .ok keep ∧
      ∀ row ∈ w.rows, keep row = true ↔ row ∉ w.read := by
  have hatEnd := h.run present hrun
  have hread := h.read
  rw [World.read_some hrun] at hread ⊢
  rw [hatEnd.cursorAt]
  exact asks_atEnd exact htype h.fits hread hatEnd.position

/-- A turn does not fail. -/
theorem turn_cases (exact : reader.server.Exact) (htype : column.oracleType.numberOrClock = true)
    {present : Run R F} (h : Standing reader column w) (hrun : w.run = some present) :
    ∃ keep : Row R F → Bool, (∀ row ∈ w.rows, keep row = true ↔ row ∉ w.read) ∧
      ((reader.page (some column) keep w.rows = [] ∧
          reader.turn w.rows present = { present with phase := .finished }) ∨
        ∃ last text, (reader.page (some column) keep w.rows).getLast? = some last ∧
          reader.watermark (some column) last = .ok (some text) ∧
          reader.turn w.rows present =
            reader.moved present (reader.page (some column) keep w.rows) last (some text)) := by
  obtain ⟨keep, hasks, hkeep⟩ := run_asks exact htype h hrun
  have hcursorAt := (h.run present hrun).cursorAt
  refine ⟨keep, hkeep, ?_⟩
  have hturned := reader.turn_turned w.rows present
  generalize reader.turn w.rows present = next at hturned
  cases hturned with
  | failed e hwhy =>
    obtain herror | ⟨row, hrow, message, herror⟩ := hwhy
    · rw [hasks] at herror
      cases herror
    · obtain ⟨text, htext⟩ := watermark_ok exact htype (h.fits row hrow)
      rw [hcursorAt, htext] at herror
      cases herror
  | drained keep' hasks' hempty =>
    cases hasks.symm.trans hasks'
    rw [hcursorAt] at hempty
    exact .inl ⟨hempty, rfl⟩
  | fed keep' last watermark hasks' hlast hwatermark =>
    cases hasks.symm.trans hasks'
    rw [hcursorAt] at hlast hwatermark ⊢
    obtain ⟨kind, text, -, -, rfl⟩ := Reader.watermark_some hwatermark
    exact .inr ⟨last, text, hlast, hwatermark, rfl⟩

/-- A page with room left reaches the end of the table. -/
theorem page_short (reader : Reader R F) (column : ColumnInfo) {keep : Row R F → Bool} {rows read : List (Row R F)}
    (hkeep : ∀ row ∈ rows, keep row = true ↔ row ∉ read)
    (hshort : (reader.page (some column) keep rows).length < reader.batchRows) :
    ∀ row ∈ rows, row ∈ read ++ reader.page (some column) keep rows := by
  intro row hrow
  by_cases hread : row ∈ read
  · exact List.mem_append_left _ hread
  · apply List.mem_append_right
    rw [Reader.page, take_of_short hshort, mem_select]
    exact ⟨hrow, (hkeep row hrow).mpr hread⟩

theorem moved_atEnd (exact : reader.server.Exact)
    (htype : column.oracleType.numberOrClock = true) {present : Run R F} {keep : Row R F → Bool}
    {last : Row R F} {text : String} (h : Standing reader column w) (hrun : w.run = some present)
    (hkeep : ∀ row ∈ w.rows, keep row = true ↔ row ∉ w.read)
    (hlast : (reader.page (some column) keep w.rows).getLast? = some last)
    (htext : reader.watermark (some column) last = .ok (some text)) (hwhole : last.Whole column) :
    RunAtEnd reader column w
      (reader.moved present (reader.page (some column) keep w.rows) last (some text)) := by
  have hatEnd := h.run present hrun
  let batch := reader.page (some column) keep w.rows
  let delivered := w.delivered.map Prod.snd
  have hread : w.read = delivered ++ present.fed.flatten := World.read_some hrun
  have hbeginning : Beginning (orderKey (some column)) (w.read ++ batch) w.rows :=
    h.read.page (distinct_keys h.distinct) hkeep reader.batchRows
  rw [hread] at hbeginning hkeep
  have hfed : delivered ++ (present.fed ++ [batch]).flatten =
      delivered ++ present.fed.flatten ++ batch := by
    rw [List.flatten_append, List.flatten_singleton, List.append_assoc]
  have hend : (delivered ++ (present.fed ++ [batch]).flatten).getLast? = some last := by
    rw [hfed, List.getLast?_append, hlast]
    rfl
  have hrecord := advance_atEnd exact htype h.fits hbeginning hlast hwhole htext hatEnd.record
  rw [← hfed] at hrecord
  exact {
    cursorAt := hatEnd.cursorAt
    phase := fun e => by
      show (if _ then Phase.finished else Phase.reading) ≠ _
      split <;> nofun
    position := by
      show AtEnd reader column (delivered ++ (present.fed ++ [batch]).flatten) _
      rw [AtEnd, hend]
      exact ⟨hwhole, _, rfl, some text, htext, rfl⟩
    record := hrecord
    stops := fun kept => by
      show RecordAtEnd reader column (delivered ++ ((present.fed ++ [batch]).take kept).flatten)
        (((present.checkpoints ++ [_]).take kept).getLast?.or w.persisted)
      obtain hle | hlt := Nat.lt_or_ge kept (present.fed.length + 1)
      · have hold : kept ≤ present.fed.length := Nat.le_of_lt_succ hle
        rw [List.take_append_of_le_length hold,
          List.take_append_of_le_length (hatEnd.paired ▸ hold)]
        exact hatEnd.stops kept
      · rw [List.take_of_length_le (by simpa using hlt),
          List.take_of_length_le (by simpa [hatEnd.paired] using hlt), List.getLast?_concat]
        exact hrecord
    paired := by
      show (present.checkpoints ++ [_]).length = (present.fed ++ [batch]).length
      rw [List.length_append, List.length_append, hatEnd.paired]
      rfl
    fed := fun b hb => by
      obtain hold | hnew := List.mem_append.mp hb
      · exact hatEnd.fed b hold
      · rw [List.mem_singleton.mp hnew]
        exact fun hnil => by simp [hnil] at hlast
    finished := fun hphase row hrow => by
      have hshort : batch.length < reader.batchRows := by
        by_contra hfull
        have hreading : (if batch.length < reader.batchRows then Phase.finished else .reading) =
            .finished := hphase
        rw [if_neg hfull] at hreading
        cases hreading
      show row ∈ delivered ++ (present.fed ++ [batch]).flatten
      rw [hfed]
      exact page_short reader column hkeep hshort row hrow }

omit [LinearOrder R] [LinearOrder F] in
theorem RunAtEnd.with_run {present : Run R F} (h : RunAtEnd reader column w present)
    (run : Option (Run R F)) : RunAtEnd reader column { w with run := run } present :=
  ⟨h.cursorAt, h.phase, h.position, h.record, h.stops, h.paired, h.fed, h.finished⟩

/-- A row that was not read is told by its ROWID. -/
theorem Standing.unread_iff (h : Standing reader column w) {row : Row R F} (hrow : row ∈ w.rows) :
    w.unread row = true ↔ row ∉ w.read := by
  rw [World.unread, decide_eq_true_eq, not_iff_not]
  constructor
  · intro hmem
    obtain ⟨other, hother, hrowid⟩ := List.mem_map.mp hmem
    rwa [← List.inj_on_of_nodup_map h.distinct (h.read.sub other hother) hrow hrowid]
  · exact List.mem_map_of_mem

theorem begin_standing (hcursor : validateCursor reader.server.typeText reader.stream reader.table
      reader.described option = .ok column) (h : Standing reader column w) :
    Standing reader column (reader.act w (.begin (some option))) := by
  cases hrun : w.run with
  | some present => simpa only [Reader.act, hrun] using h
  | none =>
    have hread := h.read
    rw [World.read_none hrun] at hread
    have hact : reader.act w (.begin (some option)) =
        { w with run := some (reader.start w.persisted (some option)) } := by
      rw [Reader.act, hrun]
    have hnothing : (reader.start w.persisted (some option)).fed = [] := by
      unfold Reader.start
      split
      · rfl
      · dsimp only
        split <;> rfl
    rw [hact]
    refine ⟨h.distinct, h.fits, ?_, h.persisted, ?_⟩
    · rw [World.read_some rfl, hnothing]
      simpa using hread
    · intro present hpresent
      cases hpresent
      exact (start_atEnd hcursor h).with_run _

theorem turn_standing (exact : reader.server.Exact)
    (htype : column.oracleType.numberOrClock = true) (h : Standing reader column w)
    (hwhole : reader.EndsWhole column w .turn) : Standing reader column (reader.act w .turn) := by
  cases hrun : w.run with
  | none => simpa only [Reader.act, hrun] using h
  | some present =>
    have hatEnd := h.run present hrun
    by_cases hreading : present.phase = .reading
    · have hact : reader.act w .turn = { w with run := some (reader.turn w.rows present) } := by
        rw [Reader.act, hrun]
        exact if_pos hreading
      have hread := h.read
      rw [World.read_some hrun] at hread
      obtain ⟨keep, hkeep, ⟨hempty, hturn⟩ | ⟨last, text, hlast, htext, hturn⟩⟩ :=
        turn_cases exact htype h hrun
      · have hall := page_short reader column hkeep
          (by rw [hempty]; exact reader.batchRows_pos)
        rw [hempty, List.append_nil, World.read_some hrun] at hall
        rw [hact, hturn]
        refine ⟨h.distinct, h.fits, ?_, h.persisted, ?_⟩
        · rw [World.read_some rfl]
          exact hread
        · intro next hnext
          cases hnext
          exact ⟨hatEnd.cursorAt, fun e => nofun, hatEnd.position, hatEnd.record, hatEnd.stops,
            hatEnd.paired, hatEnd.fed, fun _ => hall⟩
      · have hpage : reader.page (some column) keep w.rows =
            (select (orderKey (some column)) w.unread w.rows).take reader.batchRows := by
          have hsame : ∀ row ∈ w.rows, keep row = w.unread row := fun row hrow => by
            rw [Bool.eq_iff_iff, hkeep row hrow, h.unread_iff hrow]
          rw [Reader.page, select_congr hsame]
        have hlastWhole : last.Whole column :=
          hwhole present hrun hreading last (hpage ▸ hlast)
        have hmoved := moved_atEnd exact htype h hrun hkeep hlast htext hlastWhole
        have hbeginning := h.read.page (distinct_keys h.distinct) hkeep reader.batchRows
        rw [hact, hturn]
        refine ⟨h.distinct, h.fits, ?_, h.persisted, ?_⟩
        · rw [World.read_some rfl]
          show Beginning _ (_ ++ (present.fed ++ [_]).flatten) w.rows
          rw [List.flatten_append, List.flatten_singleton, ← List.append_assoc,
            ← World.read_some hrun]
          exact hbeginning
        · intro next hnext
          cases hnext
          exact hmoved.with_run _
    · have hact : reader.act w .turn = w := by
        rw [Reader.act, hrun]
        exact if_neg hreading
      rw [hact]
      exact h

theorem stop_standing (h : Standing reader column w) (keep : Nat) :
    Standing reader column (reader.act w (.stop keep)) := by
  cases hrun : w.run with
  | none => simpa only [Reader.act, hrun] using h
  | some present =>
    have hatEnd := h.run present hrun
    have hkept : present.kept keep = (present.fed.take keep).flatten := by
      rw [Run.kept, hatEnd.cursorAt]
    have hdelivered : (w.delivered ++ (present.kept keep).map fun row =>
        (present.cursorAt, row)).map Prod.snd =
        w.delivered.map Prod.snd ++ (present.fed.take keep).flatten := by
      rw [List.map_append, List.map_map, hkept]
      simp [Function.comp_def]
    have hread := h.read
    rw [World.read_some hrun, ← List.take_append_drop keep present.fed, List.flatten_append,
      ← List.append_assoc] at hread
    have hact : reader.act w (.stop keep) = { w with
        persisted := (present.checkpoints.take keep).getLast?.or w.persisted
        delivered := w.delivered ++ (present.kept keep).map fun row => (present.cursorAt, row)
        run := none } := by
      rw [Reader.act, hrun]
    rw [hact]
    refine ⟨h.distinct, h.fits, ?_, ?_, fun _ hnone => by cases hnone⟩
    · rw [World.read_none rfl, hdelivered]
      exact hread.of_append
    · show RecordAtEnd reader column ((w.delivered ++ _).map Prod.snd) _
      rw [hdelivered]
      exact hatEnd.stops keep

theorem insert_standing {row : Row R F} (h : Standing reader column w)
    (hundisturbed : Reader.Undisturbed column option w (.insert row)) :
    Standing reader column (reader.act w (.insert row)) := by
  obtain ⟨hnone, hfits, hfresh, hbehind⟩ := hundisturbed
  have hread := h.read
  rw [World.read_none hnone] at hread
  refine ⟨?_, ?_, ?_, h.persisted, ?_⟩
  · show ((w.rows ++ [row]).map Row.rowid).Nodup
    rw [List.map_append]
    refine List.nodup_append.mpr ⟨h.distinct, List.nodup_singleton _, ?_⟩
    intro rowid hold other hnew heq
    rw [List.mem_singleton.mp hnew] at heq
    exact hfresh (heq ▸ hold)
  · intro other hother
    obtain hold | hnew := List.mem_append.mp hother
    · exact h.fits other hold
    · rw [List.mem_singleton.mp hnew]
      exact hfits
  · have hnone' : (reader.act w (.insert row)).run = none := hnone
    rw [World.read_none hnone']
    exact hread.insert (hread.rising.behind_of_last hbehind)
  · intro present hpresent
    rw [show (reader.act w (.insert row)).run = none from hnone] at hpresent
    cases hpresent

/-- Every event keeps the invariant. -/
theorem act_standing (exact : reader.server.Exact)
    (htype : column.oracleType.numberOrClock = true)
    (hcursor : validateCursor reader.server.typeText reader.stream reader.table reader.described
      option = .ok column) {event : Event R F} (h : Standing reader column w)
    (hundisturbed : Reader.Undisturbed column option w event)
    (hwhole : reader.EndsWhole column w event) : Standing reader column (reader.act w event) := by
  cases event with
  | begin cursor =>
    cases hundisturbed
    exact begin_standing hcursor h
  | turn => exact turn_standing exact htype h hwhole
  | stop keep => exact stop_standing h keep
  | insert row => exact insert_standing h hundisturbed

/-! ## Every run -/

theorem Standing.exactlyOnce (exact : reader.server.Exact)
    (htype : column.oracleType.numberOrClock = true) (h : Standing reader column w) :
    ExactlyOnce reader column w where
  rising := h.read.rising
  known := h.read.sub
  position := by
    have hdelivered : Beginning (orderKey (some column)) (w.delivered.map Prod.snd) w.rows := by
      have hread := h.read
      cases hrun : w.run with
      | none => rwa [World.read_none hrun] at hread
      | some present =>
        rw [World.read_some hrun] at hread
        exact hread.of_append
    exact asks_atEnd exact htype h.fits hdelivered h.persisted.2
  moves present hrun hreading := by
    obtain ⟨keep, -, ⟨-, hturn⟩ | ⟨last, text, -, -, hturn⟩⟩ := turn_cases exact htype h hrun
    · exact .inl (by rw [hturn])
    · rw [hturn]
      by_cases hshort : (reader.page (some column) keep w.rows).length < reader.batchRows
      · exact .inl (if_pos hshort)
      · exact .inr ⟨if_neg hshort, List.length_append⟩
  ends present hrun := by
    have hread := h.read
    rw [World.read_some hrun] at hread
    have hnodup := (List.nodup_append.mp hread.rising.nodup).2.1
    have hrows : present.fed.flatten.length ≤ w.rows.length :=
      (List.subperm_of_subset hnodup fun row hrow =>
        hread.sub row (List.mem_append_right _ hrow)).length_le
    have hbatches : (present.fed.map List.length).length ≤ (present.fed.map List.length).sum := by
      apply List.length_le_sum_of_one_le
      intro n hn
      obtain ⟨batch, hbatch, rfl⟩ := List.mem_map.mp hn
      exact List.length_pos_of_ne_nil ((h.run present hrun).fed batch hbatch)
    rw [List.length_map, ← List.length_flatten] at hbatches
    exact hbatches.trans hrows
  complete present hrun hfinished := by
    have hread := h.read
    have hall := (h.run present hrun).finished hfinished
    rw [World.read_some hrun] at hread ⊢
    rw [List.perm_ext_iff_of_nodup hread.rising.nodup h.distinct.of_map]
    exact fun row => ⟨hread.sub row, hall row⟩

/-- Before the first run nothing was read. -/
theorem start_standing {rows : List (Row R F)} (hdistinct : (rows.map Row.rowid).Nodup)
    (hfits : ∀ row ∈ rows, row.Fits (some column)) :
    Standing reader column (World.start rows) where
  distinct := hdistinct
  fits := hfits
  read := Beginning.nil
  persisted := ⟨fun _ hnone => (by cases hnone), rfl⟩
  run _ hnone := by cases hnone

/-- Numbers, dates, and timestamps of up to six digits are read exactly once in any case. -/
theorem turns_exactly_once_of_type (exact : reader.server.Exact)
    (hprecision : ∀ precision, column.oracleType = .timestamp precision → precision ≤ 6)
    (htype : column.oracleType.numberOrClock = true)
    (hcursor : validateCursor reader.server.typeText reader.stream reader.table reader.described
      option = .ok column) {rows : List (Row R F)} (hdistinct : (rows.map Row.rowid).Nodup)
    (hfits : ∀ row ∈ rows, row.Fits (some column)) {events : List (Event R F)}
    (hundisturbed : Meets reader.act (Reader.Undisturbed column option) (World.start rows) events) :
    ExactlyOnce reader column (run reader.act (World.start rows) events) := by
  have hgood : ∀ (w : World R F) (event : Event R F), Standing reader column w →
      reader.EndsWhole column w event := by
    intro w event h
    cases event with
    | turn =>
      intro present _ _ last hlast
      have hmem := List.mem_of_mem_take (List.mem_of_getLast? hlast)
      exact whole_of_type hprecision htype (h.fits last (mem_select.mp hmem).1)
    | _ => exact trivial
  have hstep : ∀ (w : World R F) (event : Event R F), Standing reader column w →
      Reader.Undisturbed column option w event → Standing reader column (reader.act w event) :=
    fun w event h hok => act_standing exact htype hcursor h hok (hgood w event h)
  exact (run_invariant hstep (start_standing hdistinct hfits) hundisturbed).exactlyOnce exact htype

/-- Over any runs that begin, turn, stop and resume, every row is delivered exactly once. -/
theorem turns_exactly_once (exact : reader.server.Exact)
    (htype : column.oracleType.numberOrClock = true)
    (hcursor : validateCursor reader.server.typeText reader.stream reader.table reader.described
      option = .ok column) {rows : List (Row R F)} (hdistinct : (rows.map Row.rowid).Nodup)
    (hfits : ∀ row ∈ rows, row.Fits (some column)) {events : List (Event R F)}
    (hundisturbed : Meets reader.act (Reader.Undisturbed column option) (World.start rows) events)
    (hwhole : Meets reader.act (reader.EndsWhole column) (World.start rows) events) :
    ExactlyOnce reader column (run reader.act (World.start rows) events) := by
  have hstep : ∀ (w : World R F) (event : Event R F), Standing reader column w →
      Reader.Undisturbed column option w event ∧ reader.EndsWhole column w event →
      Standing reader column (reader.act w event) :=
    fun w event h hok => act_standing exact htype hcursor h hok.1 hok.2
  exact (run_invariant hstep (start_standing hdistinct hfits)
    (meets_and hundisturbed hwhole)).exactlyOnce exact htype

/-! ## A column of seven fractional digits -/

set_option maxRecDepth 100000 in
/-- A batch that ends below the microsecond is read again. -/
theorem seventh_digit_read_twice :
    Server.plain.Exact ∧ updatedAt.oracleType.numberOrClock = true ∧
      validateCursor Server.plain.typeText "events" "EVENTS" [updatedAt] "updated_at" =
        .ok updatedAt ∧
      (stamped 1 100).Fits (some updatedAt) ∧
      Meets (eventsReader 1 (by decide)).act (Reader.Undisturbed updatedAt "updated_at")
        (World.start [stamped 1 100]) [.begin (some "updated_at"), .turn, .turn] ∧
      ¬ExactlyOnce (eventsReader 1 (by decide)) updatedAt
        (run (eventsReader 1 (by decide)).act (World.start [stamped 1 100])
          [.begin (some "updated_at"), .turn, .turn]) := by
  refine ⟨Server.plain_exact, rfl, by decide, stamped_fits (by decide) (by decide),
    ⟨rfl, trivial, trivial, trivial⟩, ?_⟩
  intro h
  have hlength := (List.subperm_of_subset h.rising.nodup h.known).length_le
  revert hlength
  decide

set_option maxRecDepth 100000 in
/-- Digits below the microsecond inside a batch do no harm, and rows added later are read. -/
theorem turns_exactly_once_of_events :
    ExactlyOnce (eventsReader 2 (by decide)) updatedAt
      (run (eventsReader 2 (by decide)).act (World.start [stamped 1 1000, stamped 3 100])
        [.begin (some "updated_at"), .turn, .stop 1, .insert (stamped 2 5000),
          .begin (some "updated_at"), .turn]) := by
  have hcursor : validateCursor Server.plain.typeText "events" "EVENTS" [updatedAt] "updated_at" =
      .ok updatedAt := by decide
  have hfits : ∀ row ∈ [stamped 1 1000, stamped 3 100], row.Fits (some updatedAt) := by
    intro row hrow
    obtain rfl | rfl : row = stamped 1 1000 ∨ row = stamped 3 100 := by simpa using hrow
    · exact stamped_fits (by decide) (by decide)
    · exact stamped_fits (by decide) (by decide)
  have hinsert : (stamped 2 5000).Fits (some updatedAt) := stamped_fits (by decide) (by decide)
  exact turns_exactly_once Server.plain_exact rfl hcursor (by decide) hfits
    ⟨rfl, trivial, trivial, ⟨by decide, hinsert, by decide, by decide⟩, rfl, trivial, trivial⟩
    (by decide)

end Oracle
