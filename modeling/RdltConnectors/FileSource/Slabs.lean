import Mathlib
import RdltConnectors.FileSource.Jsonl

/-!
# The slabs of a whole stream

However a stream is poured, its slabs are the stream again, cut behind newlines.
Checking them one after the other is then checking the lines of the stream, and
the offset that is reported does not depend on where the cuts are.
-/
namespace FileSource

open Framing

/-! ## The lines a check goes through -/

/-- A line that is skipped or parses. -/
def Reads (env : Env) (line : Bytes) : Prop :=
  line.all isAsciiWhitespace = true ∨ env.malformedJson line = none

/-- The offset of the first byte behind these lines and their newlines. -/
def behind (lines : List Bytes) : Nat := (lines.map fun line => line.length + 1).sum

@[simp] theorem behind_nil : behind [] = 0 := rfl

@[simp] theorem behind_cons (line : Bytes) (lines : List Bytes) :
    behind (line :: lines) = line.length + 1 + behind lines := rfl

def checkEach (env : Env) (path : String) : Nat → List Bytes → Except Refusal Unit
  | _, [] => .ok ()
  | start, line :: lines =>
    match checkLine env path start line with
    | .error e => .error e
    | .ok () => checkEach env path (start + line.length + 1) lines

variable {env : Env} {path : String}

theorem checkLine_ok {start : Nat} {line : Bytes} :
    checkLine env path start line = .ok () ↔ Reads env line := by
  unfold checkLine Reads
  cases hblank : line.all isAsciiWhitespace with
  | true => simp
  | false => cases hjson : env.malformedJson line <;> simp

@[simp] theorem checkLine_nil (start : Nat) : checkLine env path start [] = .ok () :=
  checkLine_ok.mpr (.inl rfl)

theorem checkLine_error {start : Nat} {line : Bytes} {e : Refusal} :
    checkLine env path start line = .error e ↔
      line.all isAsciiWhitespace = false ∧
        ∃ message, env.malformedJson line = some message ∧ e = .malformed path start message := by
  unfold checkLine
  cases hblank : line.all isAsciiWhitespace with
  | true => simp
  | false => cases hjson : env.malformedJson line <;> simp [eq_comm]

theorem checkEach_ok {start : Nat} {lines : List Bytes} :
    checkEach env path start lines = .ok () ↔ ∀ line ∈ lines, Reads env line := by
  induction lines generalizing start with
  | nil => simp [checkEach]
  | cons line lines ih =>
    simp only [checkEach, List.forall_mem_cons]
    cases hline : checkLine env path start line with
    | ok _ => simp only [ih, checkLine_ok.mp hline, true_and]
    | error e =>
      have hnot : ¬ Reads env line := by
        intro hreads
        simp [checkLine_ok.mpr hreads] at hline
      simp [hnot]

/-- What is reported is the first line that does not read. -/
theorem checkEach_error {start : Nat} {lines : List Bytes} {e : Refusal} :
    checkEach env path start lines = .error e ↔
      ∃ earlier line later message, lines = earlier ++ line :: later ∧
        (∀ first ∈ earlier, Reads env first) ∧ line.all isAsciiWhitespace = false ∧
        env.malformedJson line = some message ∧
        e = .malformed path (start + behind earlier) message := by
  induction lines generalizing start with
  | nil => simp [checkEach]
  | cons line lines ih =>
    simp only [checkEach]
    constructor
    · intro h
      cases hline : checkLine env path start line with
      | ok _ =>
        simp only [hline] at h
        obtain ⟨earlier, bad, later, message, rfl, hearlier, hbad, hmessage, rfl⟩ := ih.mp h
        refine ⟨line :: earlier, bad, later, message, rfl, ?_, hbad, hmessage, ?_⟩
        · exact List.forall_mem_cons.mpr ⟨checkLine_ok.mp hline, hearlier⟩
        · rw [behind_cons]
          congr 1
          omega
      | error e' =>
        simp only [hline] at h
        obtain ⟨hbad, message, hmessage, rfl⟩ := checkLine_error.mp hline
        cases h
        exact ⟨[], line, lines, message, rfl, by simp, hbad, hmessage, rfl⟩
    · rintro ⟨earlier, bad, later, message, hlines, hearlier, hbad, hmessage, rfl⟩
      cases earlier with
      | nil =>
        obtain ⟨rfl, -⟩ := List.cons.inj hlines
        have hline : checkLine env path start line = .error (.malformed path start message) :=
          checkLine_error.mpr ⟨hbad, message, hmessage, rfl⟩
        simp [hline]
      | cons first earlier =>
        obtain ⟨rfl, hrest⟩ := List.cons.inj hlines
        obtain ⟨hfirst, hearlier⟩ := List.forall_mem_cons.mp hearlier
        simp only [checkLine_ok.mpr hfirst]
        apply ih.mpr
        refine ⟨earlier, bad, later, message, hrest, hearlier, hbad, hmessage, ?_⟩
        rw [behind_cons]
        congr 1
        omega

/-- The scan for newlines goes through the lines of the bytes it is given. -/
theorem checkLinesFrom_lines {slab line : Bytes} {start : Nat} (hclean : newline ∉ line) :
    checkLinesFrom env path start line slab =
      checkEach env path start ((line ++ slab).splitOn newline) := by
  induction slab generalizing start line with
  | nil =>
    rw [List.append_nil, List.splitOn_eq_singleton hclean]
    simp only [checkLinesFrom, checkEach]
    cases checkLine env path start line <;> rfl
  | cons b rest ih =>
    simp only [checkLinesFrom]
    by_cases hb : b = newline
    · subst hb
      rw [if_pos rfl, List.splitOn_append_cons_self_of_not_mem hclean]
      simp only [checkEach]
      cases checkLine env path start line with
      | error e => rfl
      | ok _ => exact ih (by simp : newline ∉ [])
    · rw [if_neg hb, ih (by simp [hclean, Ne.symm hb]), List.append_assoc]
      rfl

theorem checkLines_lines (slab : Bytes) (base : Nat) :
    checkLines env slab base path = checkEach env path base (slab.splitOn newline) :=
  checkLinesFrom_lines (by simp : newline ∉ [])

/-! ## Slab after slab -/

/-- The validating part of the reading loop, over the slabs it is handed. -/
def checkSlabs (env : Env) (path : String) : Nat → List Bytes → Except Refusal Unit
  | _, [] => .ok ()
  | consumed, slab :: slabs =>
    match checkLines env slab consumed path with
    | .error e => .error e
    | .ok () => checkSlabs env path (consumed + slab.length) slabs

theorem checkEach_append {start : Nat} {lines more : List Bytes} :
    checkEach env path start (lines ++ more) =
      match checkEach env path start lines with
      | .error e => .error e
      | .ok () => checkEach env path (start + behind lines) more := by
  induction lines generalizing start with
  | nil => rfl
  | cons line lines ih =>
    simp only [List.cons_append, checkEach]
    cases checkLine env path start line with
    | error e => rfl
    | ok _ =>
      rw [ih, behind_cons]
      simp only [Nat.add_assoc]

/-- The lines of bytes and a newline behind each take up the bytes and one newline more. -/
theorem behind_lines {bytes : Bytes} :
    behind (bytes.splitOn newline) = bytes.length + 1 := by
  induction bytes with
  | nil => rfl
  | cons b rest ih =>
    rw [List.splitOn_cons_eq_if_modifyHead]
    obtain ⟨line, lines, hlines⟩ := List.exists_cons_of_ne_nil (List.splitOn_ne_nil newline rest)
    rw [hlines, behind_cons] at ih
    by_cases hb : b = newline
    · simp only [hb, beq_self_eq_true, if_true, hlines, behind_cons, List.length_nil,
        List.length_cons]
      omega
    · simp only [beq_iff_eq, hb, if_false, hlines, List.modifyHead_cons, behind_cons,
        List.length_cons]
      omega

/-- A cut behind a newline is not noticed by the check. -/
theorem checkLines_append {whole rest : Bytes} {base : Nat}
    (hend : whole.getLast? = some newline) :
    checkLines env (whole ++ rest) base path =
      match checkLines env whole base path with
      | .error e => .error e
      | .ok () => checkLines env rest (base + whole.length) path := by
  obtain ⟨lines, rfl⟩ := List.getLast?_eq_some_iff.mp hend
  simp only [checkLines_lines, List.append_assoc, List.singleton_append,
    List.splitOn_append_cons_self, checkEach_append, List.splitOn_nil, behind_lines,
    List.length_append, List.length_singleton]
  cases checkEach env path base (lines.splitOn newline) with
  | error e => rfl
  | ok _ => simp [checkEach]

/-- Slabs that are cut behind newlines are checked as the bytes they came from. -/
theorem checkSlabs_flatten {slabs : List Bytes} {base : Nat}
    (hends : ∀ slab ∈ slabs.dropLast, slab.getLast? = some newline) :
    checkSlabs env path base slabs = checkLines env slabs.flatten base path := by
  induction slabs generalizing base with
  | nil =>
    rw [checkLines_lines]
    simp [checkSlabs, checkEach]
  | cons slab slabs ih =>
    cases slabs with
    | nil =>
      simp only [checkSlabs, List.flatten_cons, List.flatten_nil, List.append_nil]
      cases checkLines env slab base path <;> rfl
    | cons next slabs =>
      obtain ⟨hend, hends⟩ := List.forall_mem_cons.mp hends
      rw [List.flatten_cons, checkLines_append hend, checkSlabs]
      cases checkLines env slab base path with
      | error e => rfl
      | ok _ => exact ih hends

/-! ## Calling for slabs until there are none -/

/-- The passes of `next` up to the first `None`, over a stream that stays as it is.
The pass numbered `k` asks for `sizes k` bytes. -/
def Slabs.drain (content : Bytes) (sizes : Nat → ℕ+) :
    Nat → Nat → Slabs → ByteReader → Option (List Bytes)
  | 0, _, _, _ => none
  | fuel + 1, k, slabs, reader =>
    match slabs.next reader content (sizes k) with
    | (.again, slabs, reader) => drain content sizes fuel (k + 1) slabs reader
    | (.slab slab, slabs, reader) =>
      (drain content sizes fuel (k + 1) slabs reader).map (slab :: ·)
    | (.ended, _, _) => some []

variable {content : Bytes} {consumed n : Nat} {slabs : Slabs} {reader : ByteReader}

theorem next_stream (slabs : Slabs) (reader : ByteReader) (content : Bytes) (n : Nat) :
    (slabs.next reader content n).2.2.visible content = reader.visible content := by
  unfold Slabs.next
  split
  · rfl
  · split
    · rfl
    · dsimp only
      split
      · exact advance_visible _ _ _
      · exact advance_visible _ _ _

/-- A pass that does not end the slabs takes bytes or finishes them. -/
theorem next_progress (hrest : Resting slabs)
    (hnot : (slabs.next reader content n).1 ≠ .ended) :
    reader.pos < (slabs.next reader content n).2.2.pos ∨
      (slabs.next reader content n).2.1.finished = true := by
  cases hfin : slabs.finished with
  | true => simp [Slabs.next, hfin] at hnot
  | false =>
    have hspent : slabs.spent = false := by
      cases hsp : slabs.spent with
      | false => rfl
      | true => cases (hrest.finished hsp).symm.trans hfin
    simp only [Slabs.next, hfin, hspent, Bool.false_eq_true, if_false]
    cases hgot : (reader.readFull content n).1 with
    | nil =>
      right
      have hsplit : ({ slabs with spent := true } : Slabs).split = (slabs.held, []) :=
        split_unterminated hrest.clean
      simp [Slabs.fill, Slabs.cut, hsplit]
    | cons b got =>
      left
      have hpos : (reader.readFull content n).2.pos = reader.pos + (b :: got).length := by
        rw [← hgot]
        exact advance_pos _ _
      have hlt : reader.pos < (reader.readFull content n).2.pos := by
        rw [hpos, List.length_cons]
        omega
      split
      · exact hlt
      · exact hlt

theorem next_finished (hfin : slabs.finished = true) :
    (slabs.next reader content n).1 = .ended := by
  simp [Slabs.next, hfin]

/-- The passes that are left: one for each byte, one to finish and one to end. -/
def passesLeft (content : Bytes) (slabs : Slabs) (reader : ByteReader) : Nat :=
  if slabs.finished then 1 else content.length - reader.pos + 2

theorem append_drop {slab : Bytes}
    (htake : content.take (consumed + slab.length) = content.take consumed ++ slab) :
    slab ++ content.drop (consumed + slab.length) = content.drop consumed := by
  apply (List.append_right_inj (content.take consumed)).mp
  rw [← List.append_assoc, ← htake, List.take_append_drop, List.take_append_drop]

/-- What is left of the stream comes out, cut behind newlines. -/
theorem drain_rest {sizes : Nat → ℕ+} :
    ∀ {fuel k consumed : Nat} {slabs : Slabs} {reader : ByteReader},
      Aligned content consumed slabs reader → Resting slabs →
      reader.visible content = content → (slabs.finished = true → consumed = content.length) →
      passesLeft content slabs reader ≤ fuel →
      ∃ pieces, slabs.drain content sizes fuel k reader = some pieces ∧
        pieces.flatten = content.drop consumed ∧ (∀ piece ∈ pieces, piece ≠ []) ∧
        (∀ piece ∈ pieces.dropLast, piece.getLast? = some newline) ∧
        (slabs.finished = true → pieces = []) := by
  intro fuel
  induction fuel with
  | zero =>
    intro k consumed slabs reader _ _ _ _ hfuel
    unfold passesLeft at hfuel
    split at hfuel <;> omega
  | succ fuel ih =>
    intro k consumed slabs reader halign hrest hvisible hdone hfuel
    have hsize : 0 < (sizes k : Nat) := (sizes k).2
    have hpass := next_passed halign hrest hsize
    have hvisible' := (next_stream slabs reader content (sizes k)).trans hvisible
    have hprogress : (slabs.next reader content (sizes k)).1 ≠ .ended → _ := next_progress hrest
    have hopen : (slabs.next reader content (sizes k)).1 ≠ .ended → slabs.finished = false := by
      intro hnot
      by_contra hfin
      exact hnot (next_finished (Bool.not_eq_false _ ▸ hfin))
    cases hnext : slabs.next reader content (sizes k) with | mk outcome after => ?_
    obtain ⟨slabs', reader'⟩ := after
    simp only [hnext] at hpass hvisible' hprogress hopen
    simp only [Slabs.drain, hnext]
    cases hpass with
    | again halign' hrest' hfin' =>
      have hfin := hopen (by simp)
      have hpos := hprogress (by simp)
      have hwithin := halign'.within
      rw [hvisible'] at hwithin
      simp only [passesLeft, hfin, hfin', Bool.false_eq_true, if_false, or_false] at hfuel hpos
      have hleft : passesLeft content slabs' reader' ≤ fuel := by
        simp only [passesLeft, hfin', Bool.false_eq_true, if_false]
        omega
      obtain ⟨pieces, hdrain, hflat, hne, hends, -⟩ := ih (k := k + 1) halign' hrest' hvisible'
        (fun h => by cases hfin'.symm.trans h) hleft
      exact ⟨pieces, hdrain, hflat, hne, hends, fun h => by cases hfin.symm.trans h⟩
    | @lines slab _ _ halign' hrest' htake hend hfin' =>
      have hfin := hopen (by simp)
      have hpos := hprogress (by simp)
      have hwithin := halign'.within
      rw [hvisible'] at hwithin
      simp only [passesLeft, hfin, hfin', Bool.false_eq_true, if_false, or_false] at hfuel hpos
      have hleft : passesLeft content slabs' reader' ≤ fuel := by
        simp only [passesLeft, hfin', Bool.false_eq_true, if_false]
        omega
      obtain ⟨pieces, hdrain, hflat, hne, hends, -⟩ := ih (k := k + 1) halign' hrest' hvisible'
        (fun h => by cases hfin'.symm.trans h) hleft
      refine ⟨slab :: pieces, by simp only [hdrain, Option.map_some], ?_, ?_, ?_, ?_⟩
      · rw [List.flatten_cons, hflat]
        exact append_drop htake
      · apply List.forall_mem_cons.mpr ⟨_, hne⟩
        intro hempty
        simp [hempty] at hend
      · cases pieces with
        | nil => simp
        | cons piece pieces => exact List.forall_mem_cons.mpr ⟨hend, hends⟩
      · exact fun h => by cases hfin.symm.trans h
    | @last slab _ _ halign' hrest' htake hclean hne hstop hfin' =>
      have hfin := hopen (by simp)
      simp only [passesLeft, hfin, Bool.false_eq_true, if_false] at hfuel
      have hleft : passesLeft content slabs' reader' ≤ fuel := by
        simp only [passesLeft, hfin', if_true]
        omega
      obtain ⟨pieces, hdrain, -, -, -, hnone⟩ := ih (k := k + 1) halign' hrest' hvisible'
        (fun _ => hstop.trans (congrArg List.length hvisible)) hleft
      obtain rfl := hnone hfin'
      refine ⟨[slab], by simp only [hdrain, Option.map_some], ?_, ?_, ?_, ?_⟩
      · rw [← append_drop htake, hstop, hvisible]
        simp
      · simpa using hne
      · simp
      · exact fun h => by cases hfin.symm.trans h
    | ended halign' hrest' hstop =>
      refine ⟨[], rfl, ?_, by simp, by simp, fun _ => rfl⟩
      have hall : consumed = content.length := by
        cases hfin : slabs.finished with
        | true => exact hdone hfin
        | false => exact (hstop hfin).trans (congrArg List.length hvisible)
      simp [hall]

/-- The slabs of the stream behind the opening offset. -/
theorem drain_stream (s3 : Bool) (before stream : Bytes) (sizes : Nat → ℕ+) :
    ∃ pieces, Slabs.new.drain (before ++ stream) sizes (stream.length + 2) 0
          (ByteReader.openFrom s3 (before ++ stream) before.length) = some pieces ∧
      pieces.flatten = stream ∧ (∀ piece ∈ pieces, piece ≠ []) ∧
      ∀ piece ∈ pieces.dropLast, piece.getLast? = some newline := by
  have halign : Aligned (before ++ stream) before.length .new
      (ByteReader.openFrom s3 (before ++ stream) before.length) := by
    constructor
    · simp
    · simp [Slabs.new]
    · simp
    · simp [Slabs.new]
  have hleft : passesLeft (before ++ stream) .new
      (ByteReader.openFrom s3 (before ++ stream) before.length) ≤ stream.length + 2 := by
    simp [passesLeft, Slabs.new]
  obtain ⟨pieces, hdrain, hflat, hne, hends, -⟩ := drain_rest (k := 0) halign .new
    (openFrom_visible _ _ _) (fun h => by cases h) hleft
  rw [List.drop_left] at hflat
  exact ⟨pieces, hdrain, hflat, hne, hends⟩

/-- However the stream behind the opening offset is poured: the slabs are that
stream, cut behind newlines, and checking them slab by slab accepts it exactly
when every line reads, and otherwise names the first byte of the first that does
not. -/
theorem slabs_frame_the_stream (env : Env) (path : String) (s3 : Bool) (before stream : Bytes)
    (sizes : Nat → ℕ+) :
    ∃ pieces, Slabs.new.drain (before ++ stream) sizes (stream.length + 2) 0
          (ByteReader.openFrom s3 (before ++ stream) before.length) = some pieces ∧
      pieces.flatten = stream ∧ (∀ piece ∈ pieces, piece ≠ []) ∧
      (∀ piece ∈ pieces.dropLast, piece.getLast? = some newline) ∧
      (checkSlabs env path before.length pieces = .ok () ↔
        ∀ line ∈ stream.splitOn newline, Reads env line) ∧
      ∀ e, checkSlabs env path before.length pieces = .error e ↔
        ∃ earlier line later message, stream.splitOn newline = earlier ++ line :: later ∧
          (∀ first ∈ earlier, Reads env first) ∧ line.all isAsciiWhitespace = false ∧
          env.malformedJson line = some message ∧
          e = .malformed path (before.length + behind earlier) message := by
  obtain ⟨pieces, hdrain, hflat, hne, hends⟩ := drain_stream s3 before stream sizes
  refine ⟨pieces, hdrain, hflat, hne, hends, ?_⟩
  rw [checkSlabs_flatten hends, hflat, checkLines_lines]
  exact ⟨checkEach_ok, fun e => checkEach_error⟩

end FileSource
