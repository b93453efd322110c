import Mathlib
import RdltConnectors.FileSource.Cursor

/-!
# Reading one plain jsonl file

A task opens its file a little before the offset it resumes from, checks those
bytes against the recorded hash, and then hands the rest on in slabs that end on
a newline. How many bytes one fill brings is left open, and so is how the file
grows in between.
-/
namespace FileSource

open Framing

def slabBytes : Nat := 8 * 2 ^ 20

/-- What a run is given: where the files are, whether lines are validated, the
hash of a tail, and what the JSON parser says about one line. -/
structure Env where
  s3 : Bool
  validate : Bool
  hexHash : Bytes → String
  malformedJson : Bytes → Option String

/-- A local file is seen as it is at each read; an object's body stays what the
object held when it was asked for. -/
inductive ByteReader where
  | localFile (pos : Nat)
  | s3 (body : Bytes) (pos : Nat)
  deriving DecidableEq, Repr

def ByteReader.pos : ByteReader → Nat
  | .localFile pos => pos
  | .s3 _ pos => pos

def ByteReader.visible (content : Bytes) : ByteReader → Bytes
  | .localFile _ => content
  | .s3 body _ => body

def ByteReader.advance (n : Nat) : ByteReader → ByteReader
  | .localFile pos => .localFile (pos + n)
  | .s3 body pos => .s3 body (pos + n)

@[simp] theorem advance_pos (n : Nat) (reader : ByteReader) :
    (reader.advance n).pos = reader.pos + n := by cases reader <;> rfl

@[simp] theorem advance_visible (n : Nat) (content : Bytes) (reader : ByteReader) :
    (reader.advance n).visible content = reader.visible content := by cases reader <;> rfl

def ByteReader.openFrom (s3 : Bool) (content : Bytes) (start : Nat) : ByteReader :=
  if s3 then .s3 content start else .localFile start

@[simp] theorem openFrom_pos (s3 : Bool) (content : Bytes) (start : Nat) :
    (ByteReader.openFrom s3 content start).pos = start := by cases s3 <;> rfl

@[simp] theorem openFrom_visible (s3 : Bool) (content : Bytes) (start : Nat) :
    (ByteReader.openFrom s3 content start).visible content = content := by cases s3 <;> rfl

/-- The next bytes, `n` of them unless the stream ends first. -/
def ByteReader.readFull (content : Bytes) (n : Nat) (reader : ByteReader) : Bytes × ByteReader :=
  let got := ((reader.visible content).drop reader.pos).take n
  (got, reader.advance got.length)

/-! ## Slabs of whole lines -/

structure Slabs where
  /-- read but not yet emitted -/
  held : Bytes
  /-- the fill source has answered 0 -/
  spent : Bool
  /-- nothing further will ever be emitted -/
  finished : Bool
  deriving DecidableEq, Repr

def Slabs.new : Slabs := ⟨[], false, false⟩

/-- One fill, and whether it ends the loop that fills. -/
def Slabs.fill (slabs : Slabs) (got : Bytes) : Bool × Slabs :=
  if got.isEmpty then (true, { slabs with spent := true })
  else ((lastIndexOf newline got).isSome, { slabs with held := slabs.held ++ got })

/-- What one call of `next` may come to: the loop fills again, a slab, or the end. -/
inductive Next where
  | again
  | slab (bytes : Bytes)
  | ended
  deriving DecidableEq, Repr

/-- The held bytes up to the last newline; all of them when there is none. -/
def Slabs.split (slabs : Slabs) : Bytes × Bytes :=
  match lastIndexOf newline slabs.held with
  | some last => (slabs.held.take (last + 1), slabs.held.drop (last + 1))
  | none => (slabs.held, [])

def Slabs.cut (slabs : Slabs) : Next × Slabs :=
  (if slabs.split.1.isEmpty then .ended else .slab slabs.split.1,
    { slabs with
      held := slabs.split.2
      finished := slabs.finished || (slabs.spent && slabs.split.2.isEmpty) })

/-- One pass of `next`, with a fill of at most `n` bytes where it makes one. -/
def Slabs.next (slabs : Slabs) (reader : ByteReader) (content : Bytes) (n : Nat) :
    Next × Slabs × ByteReader :=
  if slabs.finished then (.ended, slabs, reader)
  else if slabs.spent then (slabs.cut.1, slabs.cut.2, reader)
  else
    let r := reader.readFull content n
    let f := slabs.fill r.1
    if f.1 then (f.2.cut.1, f.2.cut.2, r.2) else (.again, f.2, r.2)

/-- The tail holds the last window of everything read so far. -/
def foldIntoTail (tail consumed : Bytes) : Bytes := roll tailWindow tail consumed

/-! ## Checking the lines of a slab -/

def isAsciiWhitespace (b : UInt8) : Bool :=
  b = 9 || b = 10 || b = 12 || b = 13 || b = 32

def checkLine (env : Env) (path : String) (offset : Nat) (line : Bytes) : Except Refusal Unit :=
  if line.all isAsciiWhitespace then .ok ()
  else
    match env.malformedJson line with
    | some message => .error (.malformed path offset message)
    | none => .ok ()

/-- `start` is the offset of the first byte of the line gathered so far. -/
def checkLinesFrom (env : Env) (path : String) (start : Nat) (line : Bytes) :
    Bytes → Except Refusal Unit
  | [] => checkLine env path start line
  | b :: rest =>
    if b = newline then
      match checkLine env path start line with
      | .error e => .error e
      | .ok () => checkLinesFrom env path (start + line.length + 1) [] rest
    else checkLinesFrom env path start (line ++ [b]) rest

def checkLines (env : Env) (slab : Bytes) (base : Nat) (path : String) : Except Refusal Unit :=
  checkLinesFrom env path base [] slab

/-- A slab is refused only for a line that does not parse. -/
theorem checkLinesFrom_error {env : Env} {path : String} {slab : Bytes} {e : Refusal} :
    ∀ {start : Nat} {line : Bytes}, checkLinesFrom env path start line slab = .error e →
      ∃ offset message, e = .malformed path offset message := by
  have hline : ∀ offset line, checkLine env path offset line = .error e →
      ∃ offset message, e = .malformed path offset message := by
    intro offset line h
    unfold checkLine at h
    split at h
    · cases h
    · split at h
      · cases h
        exact ⟨_, _, rfl⟩
      · cases h
  induction slab with
  | nil => exact fun h => hline _ _ h
  | cons b rest ih =>
    intro start line h
    simp only [checkLinesFrom] at h
    split at h
    · cases hchecked : checkLine env path start line with
      | error e' =>
        simp only [hchecked, Except.error.injEq] at h
        exact hline start line (h ▸ hchecked)
      | ok u =>
        simp only [hchecked] at h
        exact ih h
    · exact ih h

/-! ## One read task -/

structure Reading where
  task : FileTask
  reader : ByteReader
  slabs : Slabs
  consumed : Nat
  tail : Bytes
  onBoundary : Bool
  deriving DecidableEq, Repr

/-- The window and hash that must match before the offset is trusted. -/
def FileTask.expected (task : FileTask) : Option (Nat × String) :=
  match task.resumeCheck with
  | some (.tailBytes window hash) => if task.start > 0 then some (window, hash) else none
  | some (.rowGroupPrefix _) => none
  | none => none

/-- The bytes behind the offset are read again on every resume, verified or not. -/
def FileTask.window (task : FileTask) : Nat :=
  match task.expected with
  | some (window, _) => window
  | none => min task.start tailWindow

/-- Everything `read_task` does before its loop. -/
def openTask (env : Env) (content : Bytes) (task : FileTask) : Except Refusal Reading :=
  match task.resumeCheck with
  | some (.rowGroupPrefix _) => .error (.rowGroupCheck task.path)
  | _ =>
    let seeded := (ByteReader.openFrom env.s3 content (task.start - task.window)).readFull content
      task.window
    let reading : Reading := ⟨task, seeded.2, .new, task.start, seeded.1, true⟩
    match task.expected with
    | some (window, hash) =>
      if seeded.1.length ≠ window ∨ env.hexHash seeded.1 ≠ hash then
        .error (.prefixRewritten task.path task.start)
      else .ok reading
    | none => .ok reading

/-- The bookkeeping for one slab, before it is fed. -/
def Reading.consume (reading : Reading) (slab : Bytes) : Reading :=
  { reading with
    onBoundary := slab.getLast? = some newline
    consumed := reading.consumed + slab.length
    tail := foldIntoTail reading.tail slab }

/-- The record written for this reading, given the size to put on it. -/
def Reading.progress (env : Env) (reading : Reading) (size : Nat) : FileProgress :=
  ⟨reading.consumed, size, reading.onBoundary, reading.task.mtimeMs, reading.task.etag,
    some (env.hexHash reading.tail), none⟩

/-! ## What the reader and the slabs keep -/

/-- The bytes handed on and the bytes held are the beginning of the file, and
the reader stands right behind them. -/
structure Aligned (content : Bytes) (consumed : Nat) (slabs : Slabs) (reader : ByteReader) :
    Prop where
  visible : reader.visible content <+: content
  pos : reader.pos = consumed + slabs.held.length
  within : reader.pos ≤ (reader.visible content).length
  spine : content.take reader.pos = content.take consumed ++ slabs.held

/-- Between two passes of `next` nothing held has a newline, and the stream is
spent only where the slabs are finished. -/
structure Resting (slabs : Slabs) : Prop where
  clean : newline ∉ slabs.held
  finished : slabs.spent = true → slabs.finished = true
  empty : slabs.finished = true → slabs.held = []

theorem Resting.new : Resting .new := 
  ⟨by simp [Slabs.new], (fun h => by cases h), (fun h => by cases h)⟩

variable {content more : Bytes} {consumed n : Nat} {slabs : Slabs} {reader : ByteReader}

theorem Aligned.consumed_le (h : Aligned content consumed slabs reader) :
    consumed ≤ content.length := by
  have hvisible : (reader.visible content).length ≤ content.length := h.visible.length_le
  have hpos := h.pos
  have hwithin := h.within
  omega

/-- An append moves nothing that was there. -/
theorem Aligned.append (h : Aligned content consumed slabs reader) (more : Bytes) :
    Aligned (content ++ more) consumed slabs reader := by
  have hvisible : (reader.visible content).length ≤ content.length := h.visible.length_le
  have hpos := h.pos
  have hwithin := h.within
  have hspine := h.spine
  constructor
  · cases reader with
    | localFile pos => exact List.prefix_rfl
    | s3 body pos => exact h.visible.trans (List.prefix_append content more)
  · exact hpos
  · cases reader with
    | localFile pos =>
      simp only [ByteReader.pos, ByteReader.visible, List.length_append] at hwithin ⊢
      omega
    | s3 body pos => exact hwithin
  · rw [List.take_append_of_le_length (by omega), List.take_append_of_le_length (by omega)]
    exact hspine

theorem take_read {seen : Bytes} (h : seen <+: content) {pos : Nat} (hpos : pos ≤ seen.length)
    (n : Nat) :
    content.take (pos + ((seen.drop pos).take n).length) =
      content.take pos ++ (seen.drop pos).take n := by
  obtain ⟨behind, rfl⟩ := h
  have hlen : ((seen.drop pos).take n).length = min n (seen.length - pos) := by simp
  rw [List.take_append_of_le_length (by omega), List.take_append_of_le_length hpos, List.take_add]
  congr 1
  rw [List.take_eq_take_iff]
  simp

/-- A read brings the bytes right behind the reader. -/
theorem Aligned.fill (h : Aligned content consumed slabs reader) (n : Nat) :
    Aligned content consumed { slabs with held := slabs.held ++ (reader.readFull content n).1 }
      (reader.readFull content n).2 := by
  have hpos := h.pos
  have hwithin := h.within
  have hgot : (((reader.visible content).drop reader.pos).take n).length =
      min n ((reader.visible content).length - reader.pos) := by simp
  constructor
  · simpa [ByteReader.readFull] using h.visible
  · simp only [ByteReader.readFull, advance_pos, List.length_append]
    omega
  · simp only [ByteReader.readFull, advance_pos, advance_visible]
    omega
  · simp only [ByteReader.readFull, advance_pos]
    rw [take_read h.visible hwithin, h.spine, List.append_assoc]

theorem split_append (slabs : Slabs) : slabs.split.1 ++ slabs.split.2 = slabs.held := by
  unfold Slabs.split
  split
  · exact List.take_append_drop _ _
  · exact List.append_nil _

theorem split_newline (h : newline ∈ slabs.held) :
    slabs.split.1.getLast? = some newline ∧ newline ∉ slabs.split.2 := by
  unfold Slabs.split
  cases hlast : lastIndexOf newline slabs.held with
  | some last => exact lastIndexOf_some hlast
  | none => exact absurd h (lastIndexOf_none.mp hlast)

theorem split_unterminated (h : newline ∉ slabs.held) : slabs.split = (slabs.held, []) := by
  simp [Slabs.split, lastIndexOf_none.mpr h]

/-- What is cut off the held bytes was the next part of the file. -/
theorem Aligned.cut (h : Aligned content consumed slabs reader) :
    Aligned content (consumed + slabs.split.1.length) slabs.cut.2 reader ∧
      content.take (consumed + slabs.split.1.length) =
        content.take consumed ++ slabs.split.1 := by
  have hpos := h.pos
  have hwithin := h.within
  have hvisible : (reader.visible content).length ≤ content.length := h.visible.length_le
  have hsplit : slabs.split.1 ++ slabs.split.2 = slabs.held := split_append slabs
  have hlen : slabs.split.1.length + slabs.split.2.length = slabs.held.length := by
    rw [← hsplit, List.length_append]
  have hcut : content.take (consumed + slabs.split.1.length) =
      content.take consumed ++ slabs.split.1 := by
    have hspine := congrArg (List.take (consumed + slabs.split.1.length)) h.spine
    rw [List.take_take, Nat.min_eq_left (by omega), ← hsplit, ← List.append_assoc] at hspine
    rw [hspine]
    apply List.take_left'
    rw [List.length_append, List.length_take]
    omega
  refine ⟨⟨h.visible, ?_, hwithin, ?_⟩, hcut⟩
  · simp only [Slabs.cut]
    omega
  · simp only [Slabs.cut]
    rw [hcut, List.append_assoc, hsplit, h.spine]

/-- What one pass of `next` comes to, against the file as it is now. -/
inductive Passed (content : Bytes) (consumed : Nat) (slabs : Slabs) (reader : ByteReader) :
    Next → Slabs → ByteReader → Prop where
  | again {slabs' : Slabs} {reader' : ByteReader} :
      Aligned content consumed slabs' reader' → Resting slabs' → slabs'.finished = false →
      Passed content consumed slabs reader .again slabs' reader'
  /-- whole lines, with more to come -/
  | lines {slab : Bytes} {slabs' : Slabs} {reader' : ByteReader} :
      Aligned content (consumed + slab.length) slabs' reader' → Resting slabs' →
      content.take (consumed + slab.length) = content.take consumed ++ slab →
      slab.getLast? = some newline → slabs'.finished = false →
      Passed content consumed slabs reader (.slab slab) slabs' reader'
  /-- the unterminated end of the stream -/
  | last {slab : Bytes} {slabs' : Slabs} {reader' : ByteReader} :
      Aligned content (consumed + slab.length) slabs' reader' → Resting slabs' →
      content.take (consumed + slab.length) = content.take consumed ++ slab →
      newline ∉ slab → slab ≠ [] → consumed + slab.length = (reader.visible content).length →
      slabs'.finished = true → Passed content consumed slabs reader (.slab slab) slabs' reader'
  | ended {slabs' : Slabs} {reader' : ByteReader} :
      Aligned content consumed slabs' reader' → Resting slabs' →
      (slabs.finished = false → consumed = (reader.visible content).length) →
      Passed content consumed slabs reader .ended slabs' reader'

theorem passed_lines (h : Aligned content consumed slabs reader) (hmark : newline ∈ slabs.held)
    (hspent : slabs.spent = false) (hfin : slabs.finished = false) {old : Slabs}
    {before : ByteReader} :
    Passed content consumed old before slabs.cut.1 slabs.cut.2 reader := by
  obtain ⟨halign, htake⟩ := h.cut
  obtain ⟨hlast, hclean⟩ := split_newline hmark
  have hfirst : slabs.cut.1 = .slab slabs.split.1 := by
    have hne : slabs.split.1 ≠ [] := by
      intro hempty
      simp [hempty] at hlast
    simp [Slabs.cut, hne]
  rw [hfirst]
  apply Passed.lines halign _ htake hlast
  · simp [Slabs.cut, hspent, hfin]
  · constructor
    · exact hclean
    · exact fun hsp => by cases hspent.symm.trans hsp
    · intro hf
      simp [Slabs.cut, hspent, hfin] at hf

/-- Spent, the held bytes are the end of the stream, and they come out last. -/
theorem passed_end (h : Aligned content consumed slabs reader) (hclean : newline ∉ slabs.held)
    (hspent : slabs.spent = true) {old : Slabs} {before : ByteReader}
    (hend : reader.pos = (before.visible content).length) :
    Passed content consumed old before slabs.cut.1 slabs.cut.2 reader := by
  obtain ⟨halign, htake⟩ := h.cut
  have hpos := h.pos
  have hsplit : slabs.split = (slabs.held, []) := split_unterminated hclean
  have hrest : Resting slabs.cut.2 := by
    constructor
    · simp [Slabs.cut, hsplit]
    · intro _
      simp [Slabs.cut, hsplit, hspent]
    · intro _
      simp [Slabs.cut, hsplit]
  by_cases hheld : slabs.held = []
  · have hfirst : slabs.cut.1 = .ended := by simp [Slabs.cut, hsplit, hheld]
    rw [hfirst]
    apply Passed.ended _ hrest
    · intro _
      rw [hheld, List.length_nil] at hpos
      omega
    · simpa [hsplit, hheld] using halign
  · have hfirst : slabs.cut.1 = .slab slabs.held := by simp [Slabs.cut, hsplit, hheld]
    rw [hfirst]
    simp only [hsplit] at halign htake
    apply Passed.last halign hrest htake hclean hheld (by omega)
    simp [Slabs.cut, hsplit, hspent]

/-- The one pass of `next`: a fill with a newline in it gives whole lines, one
without is held, and an empty one gives up what is held. -/
theorem next_passed (h : Aligned content consumed slabs reader) (hrest : Resting slabs)
    (hn : 0 < n) :
    Passed content consumed slabs reader (slabs.next reader content n).1
      (slabs.next reader content n).2.1 (slabs.next reader content n).2.2 := by
  cases hfin : slabs.finished with
  | true =>
    simp only [Slabs.next, hfin, if_true]
    exact .ended h hrest fun hopen => by cases hfin.symm.trans hopen
  | false =>
    have hspent : slabs.spent = false := by
      cases hsp : slabs.spent with
      | false => rfl
      | true => cases (hrest.finished hsp).symm.trans hfin
    have hfill := h.fill n
    simp only [Slabs.next, hfin, hspent, Bool.false_eq_true, if_false]
    cases hgot : (reader.readFull content n).1 with
    | nil =>
      have hread : (((reader.visible content).drop reader.pos).take n).length = 0 :=
        congrArg List.length hgot
      have hwithin := h.within
      rw [hgot, List.append_nil] at hfill
      simp only [Slabs.fill, List.isEmpty_nil, if_true]
      have halign : Aligned content consumed { slabs with spent := true }
          (reader.readFull content n).2 :=
        ⟨hfill.visible, hfill.pos, hfill.within, hfill.spine⟩
      have hend : (reader.readFull content n).2.pos = (reader.visible content).length := by
        simp only [List.length_take, List.length_drop] at hread
        simp only [ByteReader.readFull, advance_pos, List.length_take, List.length_drop]
        omega
      exact passed_end halign hrest.clean rfl hend
    | cons b got =>
      rw [hgot] at hfill
      simp only [Slabs.fill, List.isEmpty_cons, Bool.false_eq_true, if_false]
      by_cases hmark : newline ∈ b :: got
      · have hsome : (lastIndexOf newline (b :: got)).isSome = true := by
          rw [Option.isSome_iff_ne_none, ne_eq, lastIndexOf_none]
          exact not_not.mpr hmark
        simp only [hsome, if_true]
        exact passed_lines hfill (List.mem_append.mpr (.inr hmark)) hspent hfin
      · have hnone : (lastIndexOf newline (b :: got)).isSome = false := by
          rw [lastIndexOf_none.mpr hmark]
          rfl
        simp only [hnone, Bool.false_eq_true, if_false]
        apply Passed.again hfill _ hfin
        constructor
        · simp only [List.mem_append, not_or]
          exact ⟨hrest.clean, hmark⟩
        · exact fun hsp => by cases hspent.symm.trans hsp
        · exact fun hf => by cases hfin.symm.trans hf

/-! ## Opening and keeping the tail -/

/-- The seeding read brings the window before the offset, so that a record whose
hash is that of the window passes the check. -/
theorem openTask_ok {env : Env} {task : FileTask} (hstart : task.start ≤ content.length)
    (hcheck : task.resumeCheck = none ∨ ∃ hash, task.resumeCheck = some (.tailBytes
      (min task.start tailWindow) hash) ∧
      hash = env.hexHash (lastOf tailWindow (content.take task.start))) :
    ∃ reader, openTask env content task =
        .ok ⟨task, reader, .new, task.start, lastOf tailWindow (content.take task.start), true⟩ ∧
      Aligned content task.start .new reader ∧ reader.visible content = content := by
  have hwindow : task.window = min task.start tailWindow := by
    unfold FileTask.window FileTask.expected
    obtain hnone | ⟨hash, hsome, -⟩ := hcheck
    · simp [hnone]
    · simp only [hsome]
      by_cases hpos : task.start > 0
      · simp [hpos]
      · simp [hpos]
  have hseed : ((ByteReader.openFrom env.s3 content (task.start - task.window)).readFull content
      task.window).1 = lastOf tailWindow (content.take task.start) := by
    have hbefore : task.start - min task.start tailWindow = task.start - tailWindow := by omega
    have hspan : task.start - (task.start - tailWindow) = min task.start tailWindow := by omega
    simp only [ByteReader.readFull, openFrom_visible, openFrom_pos, hwindow, lastOf,
      List.length_take, Nat.min_eq_left hstart]
    rw [hbefore, List.drop_take, hspan]
  have hlen : (lastOf tailWindow (content.take task.start)).length = task.window := by
    rw [length_lastOf, List.length_take, hwindow, Nat.min_eq_left hstart]
  refine ⟨((ByteReader.openFrom env.s3 content (task.start - task.window)).readFull content
    task.window).2, ?_, ?_, by simp [ByteReader.readFull]⟩
  · obtain hnone | ⟨hash, hsome, hhash⟩ := hcheck
    · simp only [openTask, hnone, FileTask.expected, hseed]
    · by_cases hpos : task.start > 0
      · have hexp : task.expected = some (task.window, hash) := by
          simp [FileTask.expected, hsome, hpos, hwindow]
        simp only [openTask, hsome, hexp, hseed, hlen, ← hhash, ne_eq, not_true_eq_false,
          or_self, if_false]
      · have hexp : task.expected = none := by
          simp [FileTask.expected, hsome, hpos]
        simp only [openTask, hsome, hexp, hseed]
  · have hpos : ((ByteReader.openFrom env.s3 content (task.start - task.window)).readFull content
        task.window).2.pos = task.start := by
      have hread := congrArg List.length hseed
      rw [hlen] at hread
      simp only [ByteReader.readFull, advance_pos, openFrom_pos] at hread ⊢
      omega
    constructor
    · simp [ByteReader.readFull]
    · rw [hpos]
      rfl
    · rw [hpos]
      simpa [ByteReader.readFull] using hstart
    · rw [hpos]
      simp [Slabs.new]

theorem foldIntoTail_lastOf (xs slab : Bytes) :
    foldIntoTail (lastOf tailWindow xs) slab = lastOf tailWindow (xs ++ slab) :=
  roll_lastOf tailWindow xs slab

end FileSource
