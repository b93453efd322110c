import RdltConnectors.Library.Fallible
import RdltConnectors.Oracle.Bound

/-!
# What a turn does

A turn fails, finds nothing left, or feeds the first rows of what the position's statement
keeps and moves the position to the last of them. The statement of a position written from a
row keeps the rows behind the place that row shows.
-/
namespace Oracle

open Fallible

variable {R F : Type} [LinearOrder R] [LinearOrder F]

/-- The rank a position shows: that of the value cut to what its text says. -/
def rankShown (cursor : Option ColumnInfo) (row : Row R F) : WithTop (Value F) :=
  match cursor with
  | some column => nullsLast ((row.values column.name).map Value.shown)
  | none => ⊤

/-- A row's place in the order, as its position shows it. -/
def bound (cursor : Option ColumnInfo) (row : Row R F) : WithTop (Value F) ×ₗ R :=
  toLex (rankShown cursor row, row.rowid)

theorem bound_le (cursor : Option ColumnInfo) (row : Row R F) :
    bound cursor row ≤ orderKey cursor row := by
  rw [bound, orderKey, Prod.Lex.toLex_le_toLex']
  refine ⟨?_, fun _ => le_refl _⟩
  cases cursor with
  | none => exact le_refl _
  | some column =>
    rw [rankShown, rank]
    cases row.values column.name with
    | none => exact le_refl _
    | some v => exact WithTop.coe_le_coe.mpr v.shown_le

/-- The row's value loses nothing when it is rendered. -/
def Row.Whole (column : ColumnInfo) (row : Row R F) : Prop :=
  ∀ v ∈ row.values column.name, v.Whole

instance (column : ColumnInfo) (row : Row R F) : Decidable (row.Whole column) :=
  inferInstanceAs (Decidable (∀ v ∈ row.values column.name, v.Whole))

omit [LinearOrder R] [LinearOrder F] in
theorem bound_eq {column : ColumnInfo} {row : Row R F} (h : row.Whole column) :
    bound (some column) row = orderKey (some column) row := by
  have hshown : (row.values column.name).map Value.shown = row.values column.name := by
    cases hvalue : row.values column.name with
    | none => rfl
    | some v => rw [Option.map_some, Value.shown_eq (h v hvalue)]
  rw [bound, orderKey, rankShown, rank, hshown]

/-- A statement is ordered by the column the stream has. -/
theorem selectSql_column {cursor : Option ColumnInfo} {resume : Option StreamCursor}
    {statement : Statement} (h : selectSql cursor resume = .ok statement) :
    statement.column = cursor := by
  unfold selectSql at h
  split at h
  · split at h
    · obtain ⟨tie, -, hstatement⟩ := bind_ok.mp h
      cases hstatement
      rfl
    · cases h
      rfl
  · split at h
    · cases h
      rfl
    · obtain ⟨watermark, -, hrest⟩ := bind_ok.mp h
      split at hrest
      · obtain ⟨tie, -, hstatement⟩ := bind_ok.mp hrest
        cases hstatement
        rfl
      · cases hrest
        rfl

namespace Reader

variable (reader : Reader R F)

/-- The position written from a row. -/
def Marks (cursor : Option ColumnInfo) (row : Row R F) (position : StreamCursor) : Prop :=
  ∃ watermark, reader.watermark cursor row = .ok watermark ∧
    position = ⟨watermark.getD "", some (reader.server.rowidToChar row.rowid)⟩

/-- The rows the statement of a position keeps. -/
def asks (cursor : Option ColumnInfo) (position : Option StreamCursor) :
    Except ReadError (Row R F → Bool) :=
  match selectSql cursor position with
  | .error message => .error (.fatal message)
  | .ok statement => keeps reader.server statement

theorem asks_none (cursor : Option ColumnInfo) : reader.asks cursor none = .ok fun _ => true := by
  cases cursor <;> rfl

variable {reader}

omit [LinearOrder R] [LinearOrder F] in
theorem watermark_some {column : ColumnInfo} {row : Row R F} {watermark : Option String}
    (h : reader.watermark (some column) row = .ok watermark) :
    ∃ kind text, arrowType reader.server.typeText column.name column.oracleType = .ok kind ∧
      watermarkText reader.server kind (row.values column.name) = .ok text ∧
      watermark = some text := by
  obtain ⟨kind, hkind, hrest⟩ := bind_ok.mp h
  obtain ⟨text, htext, hsome⟩ := bind_ok.mp hrest
  exact ⟨kind, text, hkind, htext, (pure_ok.mp hsome).symm⟩

/-- Where a row's text passes the gate, its position's statement keeps what lies behind the place
the text shows. -/
theorem asks_text (exact : reader.server.Exact) {column : ColumnInfo} {row : Row R F} {v : Value F}
    {kind : DataType} {text literal : String} (hv : row.values column.name = some v)
    (hholds : column.oracleType.Holds v)
    (hkind : arrowType reader.server.typeText column.name column.oracleType = .ok kind)
    (htext : watermarkText reader.server kind (some v) = .ok text)
    (hliteral : checkedWatermarkLiteral text = .ok literal) :
    ∃ keep : Row R F → Bool,
      reader.asks (some column) (some ⟨text, some (reader.server.rowidToChar row.rowid)⟩) =
        .ok keep ∧
      ∀ other : Row R F, other.Fits (some column) →
        (keep other = true ↔ bound (some column) row < orderKey (some column) other) := by
  obtain ⟨tie, htie, hrowid⟩ := exact.rowid_text row.rowid
  have hvalue := literal_of_text exact hholds hkind htext hliteral
  have hselect : selectSql (some column) (some ⟨text, some (reader.server.rowidToChar row.rowid)⟩) =
      .ok ⟨some column, .pastTie literal tie⟩ :=
    bind_ok.mpr ⟨literal, hliteral, bind_ok.mpr ⟨tie, htie, rfl⟩⟩
  rw [asks, hselect]
  simp only [keeps, hvalue, hrowid, Except.ok.injEq, exists_eq_left']
  intro other hother
  obtain ⟨w, hw, -⟩ := hother column rfl
  simp [bound, orderKey, rankShown, rank, nullsLast, hv, hw, Prod.Lex.toLex_lt_toLex,
    eq_comm (a := w)]

/-- The statement of a row's position keeps what lies behind the place the row shows. -/
theorem asks_mark (exact : reader.server.Exact) {cursor : Option ColumnInfo} {row other : Row R F}
    {position : StreamCursor} {keep : Row R F → Bool} (hrow : row.Fits cursor)
    (hmark : reader.Marks cursor row position)
    (hasks : reader.asks cursor (some position) = .ok keep) (hother : other.Fits cursor) :
    keep other = true ↔ bound cursor row < orderKey cursor other := by
  obtain ⟨watermark, hwatermark, rfl⟩ := hmark
  cases cursor with
  | none =>
    obtain ⟨tie, htie, hrowid⟩ := exact.rowid_text row.rowid
    have hselect : selectSql none (some ⟨watermark.getD "", some _⟩) = .ok ⟨none, .pastRowid tie⟩ :=
      bind_ok.mpr ⟨tie, htie, rfl⟩
    rw [asks, hselect] at hasks
    simp only [keeps, hrowid, Except.ok.injEq] at hasks
    subst hasks
    simp [bound, orderKey, rankShown, rank, Prod.Lex.toLex_lt_toLex]
  | some column =>
    obtain ⟨kind, text, hkind, htext, rfl⟩ := watermark_some hwatermark
    obtain ⟨v, hv, hholds⟩ := hrow column rfl
    rw [hv] at htext
    cases hliteral : checkedWatermarkLiteral text with
    | error e =>
      have hselect : selectSql (some column) (some ⟨(some text).getD "",
          some (reader.server.rowidToChar row.rowid)⟩) = .error e := by
        rw [selectSql, Option.getD_some, hliteral, bind_error_left]
      rw [asks, hselect] at hasks
      cases hasks
    | ok literal =>
      obtain ⟨keep', hkeep', hbehind⟩ := asks_text exact hv hholds hkind htext hliteral
      cases hkeep'.symm.trans hasks
      exact hbehind other hother

/-- A row whose value always has a text has a position, and its statement is answered. -/
theorem asks_mark_ok (exact : reader.server.Exact) {column : ColumnInfo} {row : Row R F}
    {position : StreamCursor} (hrow : row.Fits (some column))
    (hfloat : ∀ f, row.values column.name ≠ some (.float f))
    (hmark : reader.Marks (some column) row position) :
    ∃ keep : Row R F → Bool, reader.asks (some column) (some position) = .ok keep := by
  obtain ⟨watermark, hwatermark, rfl⟩ := hmark
  obtain ⟨kind, text, hkind, htext, rfl⟩ := watermark_some hwatermark
  obtain ⟨v, hv, hholds⟩ := hrow column rfl
  rw [hv] at htext
  obtain ⟨text', literal, htext', hliteral⟩ := text_and_literal exact hholds hkind
    fun f heq => hfloat f (by rw [hv, heq])
  cases htext.symm.trans htext'
  obtain ⟨keep, hkeep, -⟩ := asks_text exact hv hholds hkind htext hliteral
  exact ⟨keep, hkeep⟩

/-! ## Filling a batch -/

omit [LinearOrder R] [LinearOrder F] in
/-- A filled batch is the first rows answered, and its end is the last of them. -/
theorem fill_ok {cursor : Option ColumnInfo} {rows batch : List (Row R F)}
    {lastSeen : Option (Option String × String)} {chunk : Chunk R F}
    (h : reader.fill cursor rows batch lastSeen = .ok chunk)
    (hroom : batch.length < reader.batchRows) :
    chunk.batch = batch ++ rows.take (reader.batchRows - batch.length) ∧
      chunk.exhausted = decide (chunk.batch.length < reader.batchRows) ∧
      ∀ row, (rows.take (reader.batchRows - batch.length)).getLast? = some row →
        ∃ watermark, reader.watermark cursor row = .ok watermark ∧
          chunk.lastSeen = some (watermark, reader.server.rowidToChar row.rowid) := by
  induction rows generalizing batch lastSeen with
  | nil =>
    cases h
    simp [hroom]
  | cons row rows ih =>
    unfold fill at h
    obtain ⟨room, hroomEq⟩ : ∃ room, reader.batchRows - batch.length = room + 1 :=
      ⟨reader.batchRows - batch.length - 1, by omega⟩
    rw [hroomEq, List.take_succ_cons]
    cases hwatermark : reader.watermark cursor row with
    | error e => rw [hwatermark] at h; cases h
    | ok watermark =>
      rw [hwatermark] at h
      dsimp only at h
      split at h
      · next hfull =>
        cases h
        have hzero : room = 0 := by omega
        subst hzero
        have hlength : ¬batch.length + 1 < reader.batchRows := by omega
        simp [hlength, hwatermark]
      · next hmore =>
        have hroom' : (batch ++ [row]).length < reader.batchRows := by
          rw [List.length_append, List.length_singleton]
          omega
        obtain ⟨hbatch, hexhausted, hlast⟩ := ih h hroom'
        have hrest : reader.batchRows - (batch ++ [row]).length = room := by
          rw [List.length_append, List.length_singleton]
          omega
        rw [hrest] at hbatch hlast
        refine ⟨by rw [hbatch]; simp, hexhausted, ?_⟩
        intro last hgetLast
        rw [List.getLast?_cons] at hgetLast
        cases htail : (rows.take room).getLast? with
        | some tail =>
          rw [htail, Option.getD_some] at hgetLast
          exact hlast last (by rw [htail]; exact hgetLast)
        | none =>
          -- the page ends at this row, so the rest of the answer was empty
          have hempty : rows = [] := by
            have hnil := List.getLast?_eq_none_iff.mp htail
            obtain hzero | hnil := List.take_eq_nil_iff.mp hnil
            · omega
            · exact hnil
          subst hempty
          cases h
          simp only [List.take_nil, List.getLast?_nil, Option.getD_none, Option.some.injEq]
            at hgetLast
          subst hgetLast
          exact ⟨watermark, hwatermark, rfl⟩

omit [LinearOrder R] [LinearOrder F] in
/-- Filling fails only at a row without a watermark. -/
theorem fill_error {cursor : Option ColumnInfo} {rows batch : List (Row R F)}
    {lastSeen : Option (Option String × String)} {message : String}
    (h : reader.fill cursor rows batch lastSeen = .error message) :
    ∃ row ∈ rows, reader.watermark cursor row = .error message := by
  induction rows generalizing batch lastSeen with
  | nil => cases h
  | cons row rows ih =>
    unfold fill at h
    cases hwatermark : reader.watermark cursor row with
    | error e =>
      rw [hwatermark] at h
      cases h
      exact ⟨row, by simp, hwatermark⟩
    | ok watermark =>
      rw [hwatermark] at h
      dsimp only at h
      split at h
      · cases h
      · obtain ⟨other, hother, herror⟩ := ih h
        exact ⟨other, by simp [hother], herror⟩

/-! ## Turning -/

variable (reader) in
/-- The first rows of what is kept. -/
def page (cursor : Option ColumnInfo) (keep : Row R F → Bool) (rows : List (Row R F)) :
    List (Row R F) :=
  (Keyset.select (orderKey cursor) keep rows).take reader.batchRows

variable (reader) in
/-- The run behind a batch that ends at a row. -/
def moved (run : Run R F) (batch : List (Row R F)) (row : Row R F) (watermark : Option String) :
    Run R F :=
  let tie := reader.server.rowidToChar row.rowid
  { cursorAt := run.cursorAt
    position := some ⟨watermark.getD "", some tie⟩
    cursor := match watermark with
      | some text => run.cursor.advance reader.stream text (some tie)
      | none => run.cursor
    fed := run.fed ++ [batch]
    checkpoints := match watermark with
      | some text => run.checkpoints ++ [run.cursor.advance reader.stream text (some tie)]
      | none => run.checkpoints
    phase := if batch.length < reader.batchRows then .finished else .reading }

/-- The ways a turn can go. -/
inductive Turned (reader : Reader R F) (rows : List (Row R F)) (run : Run R F) : Run R F → Prop
  | failed (e : ReadError)
      (hwhy : reader.asks (F := F) run.cursorAt run.position = .error e ∨
        ∃ row ∈ rows, ∃ message, reader.watermark run.cursorAt row = .error message) :
      Turned reader rows run { run with phase := .failed e }
  | drained (keep : Row R F → Bool) (hasks : reader.asks run.cursorAt run.position = .ok keep)
      (hempty : reader.page run.cursorAt keep rows = []) :
      Turned reader rows run { run with phase := .finished }
  | fed (keep : Row R F → Bool) (row : Row R F) (watermark : Option String)
      (hasks : reader.asks run.cursorAt run.position = .ok keep)
      (hlast : (reader.page run.cursorAt keep rows).getLast? = some row)
      (hwatermark : reader.watermark run.cursorAt row = .ok watermark) :
      Turned reader rows run (reader.moved run (reader.page run.cursorAt keep rows) row watermark)

theorem fetchChunk_eq (cursor : Option ColumnInfo) (position : Option StreamCursor)
    (rows : List (Row R F)) : reader.fetchChunk cursor position rows =
      match reader.asks cursor position with
      | .error e => .error e
      | .ok keep =>
        match reader.fill cursor (Keyset.select (orderKey cursor) keep rows) [] none with
        | .error message => .error (.fatal message)
        | .ok chunk => .ok (if chunk.batch.length = 0 then none else some chunk) := by
  unfold fetchChunk asks
  cases hselect : selectSql cursor position with
  | error message => rfl
  | ok statement =>
    have hcolumn := selectSql_column hselect
    subst hcolumn
    dsimp only
    rw [answer]
    cases keeps reader.server statement with
    | error e => rfl
    | ok keep => rfl

variable (reader) in
/-- A turn goes one of these ways. -/
theorem turn_turned (rows : List (Row R F)) (run : Run R F) :
    Turned reader rows run (reader.turn rows run) := by
  unfold turn
  rw [fetchChunk_eq]
  cases hasks : reader.asks run.cursorAt run.position with
  | error e => exact .failed e (.inl hasks)
  | ok keep =>
    dsimp only
    cases hfill : reader.fill run.cursorAt (Keyset.select (orderKey run.cursorAt) keep rows) []
        none with
    | error message =>
      obtain ⟨row, hrow, herror⟩ := fill_error hfill
      exact .failed (.fatal message) (.inr ⟨row, (Keyset.mem_select.mp hrow).1, message, herror⟩)
    | ok chunk =>
      obtain ⟨hbatch, hexhausted, hseen⟩ := fill_ok hfill reader.batchRows_pos
      have hpage : chunk.batch = reader.page run.cursorAt keep rows := hbatch
      dsimp only
      cases hlast : (reader.page run.cursorAt keep rows).getLast? with
      | none =>
        have hempty := List.getLast?_eq_none_iff.mp hlast
        have hlength : chunk.batch.length = 0 := by rw [hpage, hempty]; rfl
        rw [if_pos hlength]
        exact .drained keep hasks hempty
      | some row =>
        obtain ⟨watermark, hwatermark, hlastSeen⟩ := hseen row hlast
        have hlength : chunk.batch.length ≠ 0 := by
          rw [hpage]
          exact fun hzero => by simp [List.length_eq_zero_iff.mp hzero] at hlast
        rw [if_neg hlength]
        have hturned := Turned.fed keep row watermark hasks hlast hwatermark
        rw [← hpage] at hturned
        convert hturned using 1
        cases hcursor : run.cursorAt with
        | none =>
          rw [hcursor] at hwatermark
          cases hwatermark
          simp [moved, hcursor, hlastSeen, hexhausted]
        | some column =>
          rw [hcursor] at hwatermark
          obtain ⟨kind, text, -, -, rfl⟩ := watermark_some hwatermark
          simp [moved, hcursor, hlastSeen, hexhausted]

end Reader

end Oracle
