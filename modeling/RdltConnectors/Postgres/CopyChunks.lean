import Mathlib
import RdltConnectors.Postgres.CopyGrammar

/-!
# Chunks of a copy

The decoder is a steady reader over its carry, so the chunks of a stream do not show in how
the stream ends nor in the batches of a stream that is accepted.
-/
namespace PgTypes

open Words Chunked

/-! ## One attempt -/

/-- One attempt of the decoder on its window. -/
def Assembly.attempt (assembly : Assembly) (window : Bytes) :
    Attempt UInt8 Assembly (List CopyRow) String :=
  match assembly.state with
  | .header =>
    match tryConsumeHeader window with
    | .error error => .failed error
    | .ok none => .more
    | .ok (some rest) => .taken rest [] { assembly with state := .tuples }
  | .tuples =>
    match assembly.tryConsumeTuple window with
    | .error error => .failed error
    | .ok .needMore => .more
    | .ok (.trailer rest) => .taken rest [] { assembly with state := .done }
    | .ok (.row rest next) => .taken rest next.cutAfterRow.1 next.cutAfterRow.2
  | .done => if window = [] then .more else .failed "data after COPY trailer"

variable {assembly next final : Assembly} {window rest bytes : Bytes}
  {outs batches : List (List CopyRow)} {error : String}

theorem taken_cases (h : assembly.attempt window = .taken rest outs next) :
    (assembly.state = .header ∧ tryConsumeHeader window = .ok (some rest) ∧ outs = [] ∧
      next = { assembly with state := .tuples }) ∨
    (assembly.state = .tuples ∧ assembly.tryConsumeTuple window = .ok (.trailer rest) ∧
      outs = [] ∧ next = { assembly with state := .done }) ∨
    (assembly.state = .tuples ∧ ∃ row, assembly.tryConsumeTuple window = .ok (.row rest row) ∧
      outs = row.cutAfterRow.1 ∧ next = row.cutAfterRow.2) := by
  rw [Assembly.attempt] at h
  split at h
  · rename_i hstate
    split at h
    · cases h
    · cases h
    · rename_i hheader
      cases h
      exact .inl ⟨hstate, hheader, rfl, rfl⟩
  · rename_i hstate
    split at h
    · cases h
    · cases h
    · rename_i htrailer
      cases h
      exact .inr (.inl ⟨hstate, htrailer, rfl, rfl⟩)
    · rename_i row hrow
      cases h
      exact .inr (.inr ⟨hstate, row, hrow, rfl, rfl⟩)
  · split at h <;> cases h

theorem failed_cases (h : assembly.attempt window = .failed error) :
    (assembly.state = .header ∧ tryConsumeHeader window = .error error) ∨
    (assembly.state = .tuples ∧ assembly.tryConsumeTuple window = .error error) ∨
    (assembly.state = .done ∧ window ≠ [] ∧ error = "data after COPY trailer") := by
  rw [Assembly.attempt] at h
  split at h
  · rename_i hstate
    split at h
    · rename_i hheader
      cases h
      exact .inl ⟨hstate, hheader⟩
    · cases h
    · cases h
  · rename_i hstate
    split at h
    · rename_i htuple
      cases h
      exact .inr (.inl ⟨hstate, htuple⟩)
    · cases h
    · cases h
    · cases h
  · rename_i hstate
    split at h
    · cases h
    · rename_i hne
      cases h
      exact .inr (.inr ⟨hstate, hne, rfl⟩)

theorem attempt_header (hstate : assembly.state = .header)
    (h : tryConsumeHeader window = .ok (some rest)) :
    assembly.attempt window = .taken rest [] { assembly with state := .tuples } := by
  simp only [Assembly.attempt, hstate, h]

theorem attempt_trailer (hstate : assembly.state = .tuples)
    (h : assembly.tryConsumeTuple window = .ok (.trailer rest)) :
    assembly.attempt window = .taken rest [] { assembly with state := .done } := by
  simp only [Assembly.attempt, hstate, h]

theorem attempt_row (hstate : assembly.state = .tuples)
    (h : assembly.tryConsumeTuple window = .ok (.row rest next)) :
    assembly.attempt window = .taken rest next.cutAfterRow.1 next.cutAfterRow.2 := by
  simp only [Assembly.attempt, hstate, h]

theorem attempt_done (hstate : assembly.state = .done) :
    assembly.attempt window = if window = [] then .more else .failed "data after COPY trailer" := by
  simp only [Assembly.attempt, hstate]

/-- A header, a tuple or the trailer is taken whatever follows it, and a refusal stands. -/
theorem attempt_steady : Steady Assembly.attempt := by
  constructor
  case taken_append =>
    intro assembly window rest outs next more h
    obtain ⟨hstate, hheader, rfl, rfl⟩ | ⟨hstate, htrailer, rfl, rfl⟩ |
      ⟨hstate, row, hrow, rfl, rfl⟩ := taken_cases h
    · exact attempt_header hstate ((header_append window more).1 rest hheader)
    · obtain ⟨word, rfl, hword⟩ := trailer_spec.mp htrailer
      apply attempt_trailer hstate
      rw [List.append_assoc]
      exact tuple_trailer hword
    · obtain ⟨word, fields, taken, rfl, hcount, hfields, hnext⟩ := tuple_spec.mp hrow
      apply attempt_row hstate
      apply tuple_spec.mpr
      refine ⟨word, fields, taken, ?_, hcount, hfields, hnext⟩
      simp only [List.append_assoc]
  case failed_append =>
    intro assembly window error more h
    obtain ⟨hstate, hheader⟩ | ⟨hstate, htuple⟩ | ⟨hstate, hne, rfl⟩ := failed_cases h
    · simp only [Assembly.attempt, hstate, (header_append window more).2 _ hheader]
    · simp only [Assembly.attempt, hstate, tuple_error_append more htuple]
    · rw [attempt_done hstate, if_neg (by simp [hne])]
  case shorter =>
    intro assembly window rest outs next h
    obtain ⟨-, hheader, -, -⟩ | ⟨-, htrailer, -, -⟩ | ⟨-, row, hrow, -, -⟩ := taken_cases h
    · obtain ⟨flags, word, extension, rfl, hflags, -⟩ := header_spec.mp hheader
      simp only [List.length_append, hflags]
      omega
    · obtain ⟨word, rfl, hword⟩ := trailer_spec.mp htrailer
      rw [List.length_append, hword.1]
      omega
    · obtain ⟨word, fields, taken, rfl, hcount, -⟩ := tuple_spec.mp hrow
      rw [List.length_append, List.length_append, hcount.1]
      omega

/-! ## Calls -/

/-- What a call returns when its attempts ended so. -/
def returned (outs : List (List CopyRow)) :
    Except String (Assembly × Bytes) → Except String (Decoder × List (List CopyRow))
  | .error error => .error error
  | .ok (assembly, rest) => .ok ({ assembly with carry := rest }, outs)

@[simp] theorem cutAfterRow_state : next.cutAfterRow.2.state = next.state := by
  rw [Assembly.cutAfterRow]
  split <;> rfl

theorem row_state (h : assembly.tryConsumeTuple window = .ok (.row rest next)) :
    next.state = assembly.state := by
  obtain ⟨-, -, -, -, -, -, rfl⟩ := tuple_spec.mp h
  rfl

theorem consumeTuples_drains {fuel : Nat} (hstate : assembly.state = .tuples)
    (hfuel : window.length < fuel) :
    ∃ outs ending, Drains Assembly.attempt assembly window outs ending ∧
      consumeTuples fuel assembly window = returned outs ending := by
  induction fuel generalizing assembly window with
  | zero => omega
  | succ fuel ih =>
    cases htuple : assembly.tryConsumeTuple window with
    | error error =>
      refine ⟨[], .error error, .failed ?_, ?_⟩
      · simp only [Assembly.attempt, hstate, htuple]
      · simp only [consumeTuples, htuple]
        rfl
    | ok consumed =>
      cases consumed with
      | needMore =>
        refine ⟨[], .ok (assembly, window), .more ?_, ?_⟩
        · simp only [Assembly.attempt, hstate, htuple]
        · simp only [consumeTuples, htuple]
          rfl
      | trailer rest =>
        have htaken := attempt_trailer hstate htuple
        have hdone : Assembly.attempt { assembly with state := .done } rest =
          if rest = [] then .more else .failed "data after COPY trailer" := attempt_done rfl
        by_cases hrest : rest = []
        · rw [if_pos hrest] at hdone
          refine ⟨[], _, .taken htaken (.more hdone), ?_⟩
          simp only [consumeTuples, htuple, if_neg (not_not.mpr hrest)]
          rfl
        · rw [if_neg hrest] at hdone
          refine ⟨[], _, .taken htaken (.failed hdone), ?_⟩
          simp only [consumeTuples, htuple, if_pos hrest]
          rfl
      | row rest next =>
        have htaken := attempt_row hstate htuple
        have hshorter := attempt_steady.shorter htaken
        have hnext : next.cutAfterRow.2.state = .tuples := by
          rw [cutAfterRow_state, row_state htuple, hstate]
        obtain ⟨outs, ending, hdrains, hreturned⟩ := ih hnext (Nat.lt_of_lt_of_le hshorter
          (Nat.le_of_lt_succ hfuel))
        refine ⟨_, ending, .taken htaken hdrains, ?_⟩
        simp only [consumeTuples, htuple, hreturned]
        cases ending <;> rfl

/-- What a decoder carries is not enough for another attempt. -/
def Decoder.Waits (decoder : Decoder) : Prop :=
  decoder.toAssembly.attempt decoder.carry = .more

theorem new_waits (columns : List Column) (h : columns ≠ []) (batchTargetBytes batchMaxRows : Nat) :
    (Decoder.new columns h batchTargetBytes batchMaxRows).Waits := rfl

/-- A call makes the attempts that its carry and its chunk allow. -/
theorem feed_drains {decoder : Decoder} (hwaits : decoder.Waits) (chunk : Bytes) :
    ∃ outs ending, Drains Assembly.attempt decoder.toAssembly (decoder.carry ++ chunk) outs ending ∧
      decoder.feed chunk = returned outs ending := by
  cases hstate : decoder.state with
  | header =>
    cases hheader : tryConsumeHeader (decoder.carry ++ chunk) with
    | error error =>
      refine ⟨[], .error error, .failed ?_, ?_⟩
      · simp only [Assembly.attempt, hstate, hheader]
      · simp only [Decoder.feed, hstate, hheader]
        rfl
    | ok found =>
      cases found with
      | none =>
        refine ⟨[], .ok (decoder.toAssembly, decoder.carry ++ chunk), .more ?_, ?_⟩
        · simp only [Assembly.attempt, hstate, hheader]
        · simp only [Decoder.feed, hstate, hheader]
          rfl
      | some rest =>
        have hstate' : ({ decoder.toAssembly with state := .tuples } : Assembly).state = .tuples := rfl
        obtain ⟨outs, ending, hdrains, hreturned⟩ :=
          consumeTuples_drains hstate' (Nat.lt_succ_self rest.length)
        refine ⟨_, ending, .taken (attempt_header hstate hheader) hdrains, ?_⟩
        simp only [Decoder.feed, hstate, hheader, hreturned, List.nil_append]
  | tuples =>
    obtain ⟨outs, ending, hdrains, hreturned⟩ :=
      consumeTuples_drains hstate (Nat.lt_succ_self (decoder.carry ++ chunk).length)
    refine ⟨outs, ending, hdrains, ?_⟩
    simp only [Decoder.feed, hstate]
    exact hreturned
  | done =>
    have hcarry : decoder.carry = [] := by
      rw [Decoder.Waits, attempt_done hstate] at hwaits
      by_contra hne
      rw [if_neg hne] at hwaits
      cases hwaits
    have hdone : decoder.toAssembly.attempt (decoder.carry ++ chunk) = _ := attempt_done hstate
    rw [hcarry, List.nil_append] at hdone ⊢
    by_cases hchunk : chunk = []
    · rw [if_pos hchunk] at hdone
      refine ⟨[], _, .more hdone, ?_⟩
      simp only [Decoder.feed, hstate, if_pos hchunk]
      rw [returned, hchunk, ← hcarry]
    · rw [if_neg hchunk] at hdone
      refine ⟨[], _, .failed hdone, ?_⟩
      simp only [Decoder.feed, hstate, if_neg hchunk]
      rfl

/-! ## Readings -/

/-- What all the attempts on a stream come to. -/
def outcomeOf (outs : List (List CopyRow)) : Except String (Assembly × Bytes) → Reading
  | .error error => ⟨outs, some error⟩
  | .ok (assembly, rest) =>
    match ({ assembly with carry := rest } : Decoder).finish with
    | .error error => ⟨outs, some error⟩
    | .ok tail => ⟨outs ++ tail.toList, none⟩

/-- A reading that ends as the outcome does, and was handed its batches, or the first of them
where it failed. -/
structure Reading.Follows (reading outcome : Reading) : Prop where
  failure : reading.failure = outcome.failure
  batches : reading.batches <+: outcome.batches
  whole : outcome.failure = none → reading.batches = outcome.batches

theorem outcomeOf_append (outs outs' : List (List CopyRow))
    (ending : Except String (Assembly × Bytes)) :
    outcomeOf (outs ++ outs') ending =
      ⟨outs ++ (outcomeOf outs' ending).batches, (outcomeOf outs' ending).failure⟩ := by
  cases ending with
  | error error => rfl
  | ok reached =>
    simp only [outcomeOf]
    split
    · rfl
    · rw [List.append_assoc]

/-- However the stream is cut, the reading follows the attempts on all of it. -/
theorem read_drains {decoder : Decoder} (hwaits : decoder.Waits) (chunks : List Bytes) :
    ∃ outs ending,
      Drains Assembly.attempt decoder.toAssembly (decoder.carry ++ chunks.flatten) outs ending ∧
        (decoder.read chunks).Follows (outcomeOf outs ending) := by
  induction chunks generalizing decoder with
  | nil =>
    rw [List.flatten_nil, List.append_nil]
    refine ⟨[], _, .more hwaits, ?_⟩
    have hsame : decoder.read [] = outcomeOf [] (.ok (decoder.toAssembly, decoder.carry)) := by
      simp only [Decoder.read, outcomeOf]
      cases decoder.finish <;> rfl
    rw [hsame]
    exact ⟨rfl, List.prefix_refl _, fun _ => rfl⟩
  | cons chunk chunks ih =>
    obtain ⟨outs, ending, hdrains, hfeed⟩ := feed_drains hwaits chunk
    rw [List.flatten_cons, ← List.append_assoc]
    cases ending with
    | error error =>
      refine ⟨outs, _, hdrains.append_error attempt_steady _, ?_⟩
      have hread : decoder.read (chunk :: chunks) = ⟨[], some error⟩ := by
        simp only [Decoder.read, hfeed, returned]
      rw [hread]
      exact ⟨rfl, List.nil_prefix, (by rintro ⟨⟩)⟩
    | ok reached =>
      have hwaits' : ({ reached.1 with carry := reached.2 } : Decoder).Waits := hdrains.waits
      obtain ⟨outs', ending', hdrains', hfollows⟩ := ih hwaits'
      refine ⟨_, _, hdrains.append attempt_steady hdrains', ?_⟩
      simp only [Decoder.read, hfeed, returned]
      rw [outcomeOf_append]
      constructor
      · exact hfollows.failure
      · exact (List.prefix_append_right_inj outs).mpr hfollows.batches
      · intro hnone
        rw [hfollows.whole hnone]

theorem read_follows {decoder : Decoder} (hwaits : decoder.Waits) {chunks : List Bytes}
    {ending : Except String (Assembly × Bytes)}
    (h : Drains Assembly.attempt decoder.toAssembly (decoder.carry ++ chunks.flatten) outs ending) :
    (decoder.read chunks).Follows (outcomeOf outs ending) := by
  obtain ⟨outs', ending', hdrains, hfollows⟩ := read_drains hwaits chunks
  obtain ⟨rfl, rfl⟩ := hdrains.unique h
  exact hfollows

/-- A reading without failure ended at the trailer. -/
theorem outcome_done {ending : Except String (Assembly × Bytes)}
    (h : (outcomeOf outs ending).failure = none) :
    ∃ final, ending = .ok (final, []) ∧ final.state = .done := by
  cases ending with
  | error error => cases h
  | ok reached =>
    obtain ⟨final, rest⟩ := reached
    simp only [outcomeOf, Decoder.finish] at h
    by_cases hdone : final.state = .done
    · by_cases hrest : rest = []
      · exact ⟨final, by rw [hrest], hdone⟩
      · rw [if_neg (not_not.mpr hdone), if_pos hrest] at h
        cases h
    · rw [if_pos hdone] at h
      cases h

/-! ## The stream that is accepted -/

@[simp] theorem cutAfterRow_columns : next.cutAfterRow.2.columns = next.columns := by
  rw [Assembly.cutAfterRow]
  split <;> rfl

/-- After the trailer nothing more is taken. -/
theorem drains_done {outs : List (List CopyRow)} (hstate : assembly.state = .done)
    (h : Drains Assembly.attempt assembly bytes outs (.ok (final, rest))) : rest = bytes ∧ bytes = [] := by
  have hattempt : assembly.attempt bytes = _ := attempt_done hstate
  by_cases hempty : bytes = []
  · rw [if_pos hempty] at hattempt
    obtain ⟨-, hending⟩ := h.unique (.more hattempt)
    cases hending
    exact ⟨rfl, hempty⟩
  · rw [if_neg hempty] at hattempt
    obtain ⟨-, hending⟩ := h.unique (.failed hattempt)
    cases hending

theorem tuples_of_drains (hstate : assembly.state = .tuples) (hfinal : final.state = .done)
    (h : Drains Assembly.attempt assembly bytes outs (.ok (final, []))) :
    ∃ rows, Tuples assembly.columns bytes rows := by
  generalize hending : (Except.ok (final, []) : Except String (Assembly × Bytes)) = ending at h
  induction h with
  | more =>
    cases hending
    rw [hstate] at hfinal
    cases hfinal
  | failed => cases hending
  | taken htaken hrest ih =>
    obtain ⟨hheader, -⟩ | ⟨-, htrailer, -, rfl⟩ | ⟨-, row, hrow, -, rfl⟩ := taken_cases htaken
    · rw [hstate] at hheader
      cases hheader
    · subst hending
      obtain ⟨-, rfl⟩ := drains_done rfl hrest
      obtain ⟨word, rfl, hword⟩ := trailer_spec.mp htrailer
      rw [List.append_nil]
      exact ⟨[], .trailer hword⟩
    · obtain ⟨rows, hrows⟩ := ih (by rw [cutAfterRow_state, row_state hrow, hstate]) hending
      obtain ⟨word, fields, cells, rfl, hcount, hfields, rfl⟩ := tuple_spec.mp hrow
      rw [cutAfterRow_columns] at hrows
      exact ⟨_, .tuple hcount hfields hrows⟩

/-- The tuples of the grammar are all taken, and cut into batches where the grammar says. -/
theorem drains_of_tuples {columns : List Column} {rows : List (CopyRow × Nat)}
    (h : Tuples columns bytes rows) (hcolumns : assembly.columns = columns)
    (hstate : assembly.state = .tuples) (hcounted : assembly.rowsInBatch = assembly.builders.length) :
    ∃ outs ending, Drains Assembly.attempt assembly bytes outs ending ∧
      outcomeOf outs ending = ⟨batchesOf assembly.batchTargetBytes assembly.batchMaxRows
        assembly.builders assembly.bytesInBatch rows, none⟩ := by
  induction h generalizing assembly with
  | trailer hword =>
    have htrailer : assembly.tryConsumeTuple _ = .ok (.trailer []) :=
      trailer_spec.mpr ⟨_, (List.append_nil _).symm, hword⟩
    refine ⟨[], _, .taken (attempt_trailer hstate htrailer) (.more rfl), ?_⟩
    simp only [outcomeOf, Decoder.finish, batchesOf, hcounted]
    by_cases hempty : assembly.builders = []
    · simp [hempty]
    · simp [hempty, Assembly.cutBatch]
  | @tuple word fields bytes row rows hcount hfields _ ih =>
    subst hcolumns
    have hrow : assembly.tryConsumeTuple (word ++ (fields ++ bytes)) =
        .ok (.row bytes (assembly.withRow row (2 + fields.length))) :=
      tuple_spec.mpr ⟨word, fields, row, rfl, hcount, hfields, rfl⟩
    have htaken := attempt_row hstate hrow
    have hcolumns : (assembly.withRow row (2 + fields.length)).cutAfterRow.2.columns =
      assembly.columns := cutAfterRow_columns
    have hstate' : (assembly.withRow row (2 + fields.length)).cutAfterRow.2.state = .tuples := by
      rw [cutAfterRow_state]
      exact hstate
    by_cases hcut : assembly.rowsInBatch + 1 ≥ assembly.batchMaxRows ∨
        assembly.bytesInBatch + (2 + fields.length) ≥ assembly.batchTargetBytes
    · have hafter : (assembly.withRow row (2 + fields.length)).cutAfterRow =
          ([assembly.builders ++ [row]],
            (assembly.withRow row (2 + fields.length)).cutBatch.2) := if_pos hcut
      rw [hafter] at htaken hcolumns hstate'
      obtain ⟨outs, ending, hdrains, houtcome⟩ := ih hcolumns hstate' rfl
      refine ⟨_, ending, .taken htaken hdrains, ?_⟩
      rw [outcomeOf_append, houtcome, batchesOf, if_pos (hcounted ▸ hcut)]
      rfl
    · have hafter : (assembly.withRow row (2 + fields.length)).cutAfterRow =
          ([], assembly.withRow row (2 + fields.length)) := if_neg hcut
      rw [hafter] at htaken hcolumns hstate'
      have hcounted' : (assembly.withRow row (2 + fields.length)).rowsInBatch =
          (assembly.withRow row (2 + fields.length)).builders.length := by
        change assembly.rowsInBatch + 1 = (assembly.builders ++ [row]).length
        rw [hcounted, List.length_append, List.length_singleton]
      obtain ⟨outs, ending, hdrains, houtcome⟩ := ih hcolumns hstate' hcounted'
      refine ⟨_, ending, .taken htaken hdrains, ?_⟩
      rw [List.nil_append, houtcome, batchesOf, if_neg (hcounted ▸ hcut)]
      rfl

theorem stream_of_drains (hstate : assembly.state = .header) (hfinal : final.state = .done)
    (h : Drains Assembly.attempt assembly bytes outs (.ok (final, []))) :
    ∃ rows, Stream assembly.columns bytes rows := by
  cases h with
  | more =>
    rw [hstate] at hfinal
    cases hfinal
  | taken htaken hrest =>
    obtain ⟨-, hheader, -, rfl⟩ | ⟨htuples, -⟩ | ⟨htuples, -⟩ := taken_cases htaken
    · obtain ⟨flags, word, extension, rfl, hflags, hword⟩ := header_spec.mp hheader
      obtain ⟨rows, hrows⟩ := tuples_of_drains rfl hfinal hrest
      exact ⟨rows, flags, word, extension, _, rfl, hflags, hword, hrows⟩
    · rw [hstate] at htuples
      cases htuples
    · rw [hstate] at htuples
      cases htuples

theorem drains_of_stream {rows : List (CopyRow × Nat)} (h : Stream assembly.columns bytes rows)
    (hstate : assembly.state = .header) (hcounted : assembly.rowsInBatch = assembly.builders.length) :
    ∃ outs ending, Drains Assembly.attempt assembly bytes outs ending ∧
      outcomeOf outs ending = ⟨batchesOf assembly.batchTargetBytes assembly.batchMaxRows
        assembly.builders assembly.bytesInBatch rows, none⟩ := by
  obtain ⟨flags, word, extension, tuples, rfl, hflags, hword, htuples⟩ := h
  have hheader : tryConsumeHeader (headerSignature ++ (flags ++ (word ++ (extension ++ tuples)))) =
      .ok (some tuples) := header_spec.mpr ⟨flags, word, extension, rfl, hflags, hword⟩
  have hcolumns : ({ assembly with state := .tuples } : Assembly).columns = assembly.columns := rfl
  obtain ⟨outs, ending, hdrains, houtcome⟩ := drains_of_tuples htuples hcolumns rfl hcounted
  exact ⟨_, ending, .taken (attempt_header hstate hheader) hdrains, houtcome⟩

/-- A part of an accepted stream is a truncated one. -/
theorem outcome_truncated {ending : Except String (Assembly × Bytes)} {more : Bytes}
    {rows : List (CopyRow × Nat)} (hstate : assembly.state = .header)
    (hcounted : assembly.rowsInBatch = assembly.builders.length) (hmore : more ≠ [])
    (hstream : Stream assembly.columns (bytes ++ more) rows)
    (h : Drains Assembly.attempt assembly bytes outs ending) :
    (outcomeOf outs ending).failure =
      some "COPY stream ended before the binary trailer (truncated stream)" := by
  obtain ⟨outs', ending', hdrains, houtcome⟩ := drains_of_stream hstream hstate hcounted
  have hnone : (outcomeOf outs' ending').failure = none := by rw [houtcome]
  obtain ⟨final, rfl, -⟩ := outcome_done hnone
  obtain ⟨outs₁, outs₂, middle, waiting, -, hfirst, hsecond⟩ := hdrains.split attempt_steady
  obtain ⟨rfl, rfl⟩ := h.unique hfirst
  have hopen : middle.state ≠ .done := by
    intro hdone
    obtain ⟨-, hempty⟩ := drains_done hdone hsecond
    exact hmore (List.append_eq_nil_iff.mp hempty).2
  simp only [outcomeOf, Decoder.finish]
  rw [if_pos hopen]

/-- A binary copy is decoded alike in all chunkings: it ends the same, the batches of an
accepted stream are the same, and those handed out before a failure are first ones of the
same batches. What is accepted is the grammar, and a part of it is refused as truncated. -/
theorem copy_read (columns : List Column) (h : columns ≠ []) (targetBytes maxRows : Nat)
    (bytes : Bytes) :
    (∃ outcome : Reading, ∀ chunks, chunks.flatten = bytes →
      ((Decoder.new columns h targetBytes maxRows).read chunks).Follows outcome) ∧
    (∀ chunks batches, chunks.flatten = bytes →
      ((Decoder.new columns h targetBytes maxRows).read chunks = ⟨batches, none⟩ ↔
        ∃ rows, Stream columns bytes rows ∧
          batches = batchesOf (max targetBytes 1) (max maxRows 1) [] 0 rows)) ∧
    (∀ chunks more rows, chunks.flatten = bytes → more ≠ [] → Stream columns (bytes ++ more) rows →
      ((Decoder.new columns h targetBytes maxRows).read chunks).failure =
        some "COPY stream ended before the binary trailer (truncated stream)") := by
  have hwaits := new_waits columns h targetBytes maxRows
  obtain ⟨outs, ending, hdrains⟩ := Drains.exists attempt_steady
    (Decoder.new columns h targetBytes maxRows).toAssembly bytes
  have hfollows : ∀ chunks, chunks.flatten = bytes →
      ((Decoder.new columns h targetBytes maxRows).read chunks).Follows (outcomeOf outs ending) := by
    intro chunks hchunks
    apply read_follows hwaits
    rw [hchunks]
    exact hdrains
  refine ⟨⟨_, hfollows⟩, ?_, ?_⟩
  · intro chunks batches hchunks
    have hreading := hfollows chunks hchunks
    constructor
    · intro hread
      rw [hread] at hreading
      have hnone : (outcomeOf outs ending).failure = none := hreading.failure.symm
      obtain ⟨final, rfl, hfinal⟩ := outcome_done hnone
      obtain ⟨rows, hrows⟩ := stream_of_drains rfl hfinal hdrains
      obtain ⟨outs', ending', hdrains', houtcome⟩ := drains_of_stream hrows rfl rfl
      obtain ⟨rfl, rfl⟩ := hdrains'.unique hdrains
      have hbatches : batches = _ := hreading.whole hnone
      refine ⟨rows, hrows, ?_⟩
      rw [hbatches, houtcome]
      rfl
    · rintro ⟨rows, hrows, rfl⟩
      have hstream : Stream (Decoder.new columns h targetBytes maxRows).columns bytes rows := hrows
      obtain ⟨outs', ending', hdrains', houtcome⟩ := drains_of_stream hstream rfl rfl
      obtain ⟨rfl, rfl⟩ := hdrains'.unique hdrains
      have hnone : (outcomeOf outs' ending').failure = none := by rw [houtcome]
      have hbatches := hreading.whole hnone
      rw [houtcome] at hbatches
      have hfailure := hreading.failure
      rw [hnone] at hfailure
      cases hread : (Decoder.new columns h targetBytes maxRows).read chunks with
      | mk batches failure =>
        rw [hread] at hbatches hfailure
        cases hbatches
        cases hfailure
        rfl
  · intro chunks more rows hchunks hmore hstream
    rw [(hfollows chunks hchunks).failure]
    exact outcome_truncated rfl rfl hmore hstream hdrains

/-- A table with one boolean column. -/
def flagColumns : List Column := [⟨"flag", .bool, true⟩]

def copyHeader : Bytes := headerSignature ++ [0, 0, 0, 0, 0, 0, 0, 0]

/-- A tuple that says true, and one that has two fields. -/
def trueTuple : Bytes := [0, 1, 0, 0, 0, 1, 1]

def driftedTuple : Bytes := [0, 2, 0, 0, 0, 1, 1]

theorem true_row_read :
    flagColumns ≠ [] ∧
    (∃ outcome : Reading, ∀ chunks, chunks.flatten = copyHeader ++ (trueTuple ++ [255, 255]) →
      ((Decoder.new flagColumns (by decide) 1024 100).read chunks).Follows outcome) :=
  ⟨by decide, (copy_read flagColumns (by decide) 1024 100 (copyHeader ++ (trueTuple ++ [255, 255]))).1⟩

/-- In one chunk the failing tuple takes the row before it along; in two the row was handed
out. -/
theorem failing_copy_differs :
    ¬∀ (columns : List Column) (h : columns ≠ []) (targetBytes maxRows : Nat)
        (chunks chunks' : List Bytes), chunks.flatten = chunks'.flatten →
      (Decoder.new columns h targetBytes maxRows).read chunks =
        (Decoder.new columns h targetBytes maxRows).read chunks' := by
  intro hall
  have hsame := hall flagColumns (by decide) 1024 1 [copyHeader ++ (trueTuple ++ driftedTuple)]
    [copyHeader ++ trueTuple, driftedTuple] (by decide)
  have hbatches := congrArg Reading.batches hsame
  revert hbatches
  decide +kernel

end PgTypes
