import RdltConnectors.Library.Fallible
import RdltConnectors.Postgres.Copy

/-!
# What the decoder accepts

The grammar of a binary copy, stated on its bytes, and the decoder as a steady reader: a
tuple, an error or the trailer is recognised from the bytes it is made of, whatever follows.
-/
namespace PgTypes

open Words Chunked

/-! ## Grammar -/

/-- A length prefix. -/
def LengthWord (word : Bytes) (length : Int) : Prop :=
  word.length = 4 ∧ signed 32 (bigEndian word) = length

/-- The field count of a tuple. -/
def CountWord (word : Bytes) (count : Int) : Prop :=
  word.length = 2 ∧ signed 16 (bigEndian word) = count

/-- The fields of one tuple: a null where the column takes one, or bytes that are a value of
the column's kind. -/
inductive Fields : List Column → Bytes → CopyRow → Prop
  | nil : Fields [] [] []
  | null {column columns word bytes row} : LengthWord word (-1) → column.notNull = false →
      Fields columns bytes row → Fields (column :: columns) (word ++ bytes) (none :: row)
  | value {column columns word field cell bytes row} : LengthWord word field.length →
      appendWire column.kind field = .ok cell → Fields columns bytes row →
      Fields (column :: columns) (word ++ (field ++ bytes)) (some cell :: row)

/-- Tuples of the declared number of columns, and the trailer; every row with the bytes of
its tuple. -/
inductive Tuples (columns : List Column) : Bytes → List (CopyRow × Nat) → Prop
  | trailer {word} : CountWord word (-1) → Tuples columns word []
  | tuple {word fields bytes row rows} : CountWord word columns.length →
      Fields columns fields row → Tuples columns bytes rows →
      Tuples columns (word ++ (fields ++ bytes)) ((row, 2 + fields.length) :: rows)

/-- A whole stream: header, tuples and trailer. -/
def Stream (columns : List Column) (bytes : Bytes) (rows : List (CopyRow × Nat)) : Prop :=
  ∃ flags word extension tuples,
    bytes = headerSignature ++ (flags ++ (word ++ (extension ++ tuples))) ∧
      flags.length = 4 ∧ LengthWord word extension.length ∧ Tuples columns tuples rows

/-- Where rows are cut into batches: at the row maximum or the byte target, and at the end. -/
def batchesOf (targetBytes maxRows : Nat) (pending : List CopyRow) (pendingBytes : Nat) :
    List (CopyRow × Nat) → List (List CopyRow)
  | [] => if pending = [] then [] else [pending]
  | (row, size) :: rows =>
    if pending.length + 1 ≥ maxRows ∨ pendingBytes + size ≥ targetBytes then
      (pending ++ [row]) :: batchesOf targetBytes maxRows [] 0 rows
    else batchesOf targetBytes maxRows (pending ++ [row]) (pendingBytes + size) rows

/-! ## Fields -/

/-- What a window starts with, as far as the first field goes. -/
inductive FieldAhead : Bytes → Prop
  | short {window} : window.length < 4 → FieldAhead window
  | null {word bytes} : LengthWord word (-1) → FieldAhead (word ++ bytes)
  | negative {word bytes length} : LengthWord word length → length < -1 →
      FieldAhead (word ++ bytes)
  | partialValue {word bytes length} : LengthWord word length → (bytes.length : Int) < length →
      FieldAhead (word ++ bytes)
  | value {word field bytes} : LengthWord word field.length →
      FieldAhead (word ++ (field ++ bytes))

theorem fieldAhead (window : Bytes) : FieldAhead window := by
  by_cases hshort : window.length < 4
  · exact .short hshort
  · have hword : (window.take 4).length = 4 := by
      rw [List.length_take]
      omega
    obtain ⟨length, hlength⟩ : ∃ length, LengthWord (window.take 4) length := ⟨_, hword, rfl⟩
    have hsplit := List.take_append_drop 4 window
    by_cases hnull : length = -1
    · rw [← hsplit]
      exact .null (hnull ▸ hlength)
    · by_cases hnegative : length < -1
      · rw [← hsplit]
        exact .negative hlength hnegative
      · by_cases hcut : ((window.drop 4).length : Int) < length
        · rw [← hsplit]
          exact .partialValue hlength hcut
        · have hfield : ((window.drop 4).take length.toNat).length = length := by
            rw [List.length_take]
            omega
          rw [← hsplit, ← List.take_append_drop length.toNat (window.drop 4)]
          exact .value (by rwa [hfield])

variable {word field bytes window rest : Bytes} {length : Int} {count : Nat}

theorem LengthWord.take (h : LengthWord word length) (bytes : Bytes) :
    ¬(word ++ bytes).length < 4 ∧ (word ++ bytes).take 4 = word ∧ (word ++ bytes).drop 4 = bytes := by
  refine ⟨?_, List.take_left' h.1, List.drop_left' h.1⟩
  rw [List.length_append, h.1]
  omega

theorem locate_short (h : window.length < 4) : locate (count + 1) window = .ok none := by
  rw [locate, if_pos h]

theorem locate_null (h : LengthWord word (-1)) :
    locate (count + 1) (word ++ bytes) =
      (locate count bytes).map (·.map fun located => (none :: located.1, located.2)) := by
  obtain ⟨hlong, htake, hdrop⟩ := h.take bytes
  rw [locate, if_neg hlong, htake, hdrop, h.2]
  rfl

theorem locate_negative (h : LengthWord word length) (hnegative : length < -1) :
    locate (count + 1) (word ++ bytes) = .error s!"negative field length {length}" := by
  obtain ⟨hlong, htake, -⟩ := h.take bytes
  rw [locate, if_neg hlong, htake, h.2]
  simp only
  rw [if_neg (by omega), if_pos (by omega)]

theorem locate_cutShort (h : LengthWord word length) (hcut : (bytes.length : Int) < length) :
    locate (count + 1) (word ++ bytes) = .ok none := by
  obtain ⟨hlong, htake, hdrop⟩ := h.take bytes
  rw [locate, if_neg hlong, htake, hdrop, h.2]
  simp only
  rw [if_neg (by omega), if_neg (by omega), if_pos (by omega)]

theorem locate_value (h : LengthWord word field.length) :
    locate (count + 1) (word ++ (field ++ bytes)) =
      (locate count bytes).map (·.map fun located => (some field :: located.1, located.2)) := by
  obtain ⟨hlong, htake, hdrop⟩ := h.take (field ++ bytes)
  rw [locate, if_neg hlong, htake, hdrop, h.2]
  simp only [Int.toNat_natCast]
  rw [if_neg (by omega), if_neg (by omega), if_neg (by rw [List.length_append]; omega),
    List.take_left, List.drop_left]

/-- What is found in a window is found in a longer one, and so is what is refused. -/
def FoundIn (more : Bytes)
    (found found' : Except String (Option (List (Option Bytes) × Bytes))) : Prop :=
  (∀ ranges rest, found = .ok (some (ranges, rest)) → found' = .ok (some (ranges, rest ++ more))) ∧
    ∀ error, found = .error error → found' = .error error

theorem FoundIn.map {more : Bytes}
    {found found' : Except String (Option (List (Option Bytes) × Bytes))}
    (h : FoundIn more found found') (range : Option Bytes) :
    FoundIn more (found.map (·.map fun located => (range :: located.1, located.2)))
      (found'.map (·.map fun located => (range :: located.1, located.2))) := by
  cases found with
  | error error =>
    rw [h.2 error rfl]
    exact ⟨nofun, fun _ => id⟩
  | ok located =>
    cases located with
    | none => exact ⟨nofun, nofun⟩
    | some located =>
      rw [h.1 located.1 located.2 rfl]
      constructor
      · intro ranges rest hsome
        cases hsome
        rfl
      · exact nofun

theorem locate_append (count : Nat) (window more : Bytes) :
    FoundIn more (locate count window) (locate count (window ++ more)) := by
  induction count generalizing window with
  | zero =>
    constructor
    · intro ranges rest h
      cases h
      rfl
    · exact nofun
  | succ count ih =>
    cases fieldAhead window with
    | short hshort =>
      rw [locate_short hshort]
      exact ⟨nofun, nofun⟩
    | @null word bytes hnull =>
      rw [List.append_assoc, locate_null hnull, locate_null hnull]
      exact (ih bytes).map none
    | negative hnegative hlow =>
      rw [List.append_assoc, locate_negative hnegative hlow, locate_negative hnegative hlow]
      exact ⟨nofun, fun _ => id⟩
    | partialValue hcut hless =>
      rw [locate_cutShort hcut hless]
      exact ⟨nofun, nofun⟩
    | @value word field bytes hvalue =>
      rw [List.append_assoc, List.append_assoc, locate_value hvalue, locate_value hvalue]
      exact (ih bytes).map (some field)

theorem map_located {found : Except String (Option (List (Option Bytes) × Bytes))}
    {range : Option Bytes} {ranges : List (Option Bytes)}
    (h : found.map (·.map fun located => (range :: located.1, located.2)) =
      .ok (some (ranges, rest))) :
    ∃ ranges', ranges = range :: ranges' ∧ found = .ok (some (ranges', rest)) := by
  cases found with
  | error error => cases h
  | ok located =>
    cases located with
    | none => cases h
    | some located =>
      cases h
      exact ⟨located.1, rfl, rfl⟩

/-- The fields that the two passes take are those of the grammar. -/
theorem Fields.located {columns : List Column} {fields : Bytes} {row : CopyRow}
    (h : Fields columns fields row) (rest : Bytes) :
    ∃ ranges, locate columns.length (fields ++ rest) = .ok (some (ranges, rest)) ∧
      appendFields columns ranges = .ok row ∧ tupleBytes ranges = 2 + fields.length := by
  induction h with
  | nil => exact ⟨[], rfl, rfl, rfl⟩
  | null hword hnullable _ ih =>
    obtain ⟨ranges, hlocate, happend, hsize⟩ := ih
    refine ⟨none :: ranges, ?_, ?_, ?_⟩
    · rw [List.append_assoc, List.length_cons, locate_null hword, hlocate]
      rfl
    · rw [appendFields, hnullable, if_neg Bool.false_ne_true, happend]
      rfl
    · rw [tupleBytes] at hsize ⊢
      rw [List.map_cons, List.sum_cons, List.length_append, hword.1]
      change 2 + (4 + 0 + _) = _
      omega
  | @value _ _ _ field _ _ _ hword hcell _ ih =>
    obtain ⟨ranges, hlocate, happend, hsize⟩ := ih
    refine ⟨some field :: ranges, ?_, ?_, ?_⟩
    · rw [List.append_assoc, List.append_assoc, List.length_cons, locate_value hword, hlocate]
      rfl
    · rw [appendFields, hcell]
      simp only [happend]
      rfl
    · rw [tupleBytes] at hsize ⊢
      rw [List.map_cons, List.sum_cons, List.length_append, List.length_append, hword.1]
      change 2 + (4 + field.length + _) = _
      omega

theorem fields_of_located {columns : List Column} {ranges : List (Option Bytes)} {row : CopyRow}
    (hlocate : locate columns.length window = .ok (some (ranges, rest)))
    (happend : appendFields columns ranges = .ok row) :
    ∃ fields, window = fields ++ rest ∧ Fields columns fields row := by
  induction columns generalizing window ranges row with
  | nil =>
    cases hlocate
    cases happend
    exact ⟨[], rfl, .nil⟩
  | cons column columns ih =>
    rw [List.length_cons] at hlocate
    cases fieldAhead window with
    | short hshort => rw [locate_short hshort] at hlocate; cases hlocate
    | negative hnegative hlow => rw [locate_negative hnegative hlow] at hlocate; cases hlocate
    | partialValue hcut hless => rw [locate_cutShort hcut hless] at hlocate; cases hlocate
    | null hnull =>
      rw [locate_null hnull] at hlocate
      obtain ⟨ranges', rfl, hrest⟩ := map_located hlocate
      rw [appendFields] at happend
      split at happend
      · cases happend
      · rename_i hnullable
        obtain ⟨row', happend', rfl⟩ := Fallible.map_ok.mp happend
        obtain ⟨fields, rfl, hfields⟩ := ih hrest happend'
        refine ⟨_, (List.append_assoc _ _ _).symm, .null hnull ?_ hfields⟩
        simpa using hnullable
    | value hvalue =>
      rw [locate_value hvalue] at hlocate
      obtain ⟨ranges', rfl, hrest⟩ := map_located hlocate
      rw [appendFields] at happend
      split at happend
      · cases happend
      · rename_i cell hcell
        obtain ⟨row', happend', rfl⟩ := Fallible.map_ok.mp happend
        obtain ⟨fields, rfl, hfields⟩ := ih hrest happend'
        refine ⟨_, ?_, .value hvalue hcell hfields⟩
        simp only [List.append_assoc]

/-! ## Header -/

theorem header_append (window more : Bytes) :
    (∀ rest, tryConsumeHeader window = .ok (some rest) →
      tryConsumeHeader (window ++ more) = .ok (some (rest ++ more))) ∧
    ∀ error, tryConsumeHeader window = .error error →
      tryConsumeHeader (window ++ more) = .error error := by
  by_cases hshort : window.length < 19
  · rw [tryConsumeHeader, if_pos hshort]
    exact ⟨nofun, nofun⟩
  · have hlong : ¬(window ++ more).length < 19 := by
      rw [List.length_append]
      omega
    have hsignature : (window ++ more).take 11 = window.take 11 :=
      List.take_append_of_le_length (by omega)
    have hword : ((window ++ more).drop 15).take 4 = (window.drop 15).take 4 := by
      rw [List.drop_append_of_le_length (by omega), List.take_append_of_le_length]
      rw [List.length_drop]
      omega
    simp only [tryConsumeHeader, if_neg hshort, if_neg hlong, hsignature, hword]
    split
    · exact ⟨nofun, fun _ => id⟩
    · split
      · exact ⟨nofun, fun _ => id⟩
      · split
        · exact ⟨nofun, nofun⟩
        · rename_i hwhole
          constructor
          · intro rest h
            cases h
            rw [if_neg, List.drop_append_of_le_length (by omega)]
            rw [List.length_append]
            omega
          · exact nofun

theorem header_spec :
    tryConsumeHeader window = .ok (some rest) ↔ ∃ flags word extension,
      window = headerSignature ++ (flags ++ (word ++ (extension ++ rest))) ∧
        flags.length = 4 ∧ LengthWord word extension.length := by
  constructor
  · intro h
    rw [tryConsumeHeader] at h
    split at h
    · cases h
    · rename_i hlong
      split at h
      · cases h
      · rename_i hsignature
        simp only at h
        split at h
        · cases h
        · rename_i hnonneg
          split at h
          · cases h
          · rename_i hwhole
            cases h
            have hextension : ((window.drop 19).take
                (signed 32 (bigEndian ((window.drop 15).take 4))).toNat).length =
                  (signed 32 (bigEndian ((window.drop 15).take 4))).toNat := by
              rw [List.length_take, List.length_drop]
              omega
            refine ⟨(window.drop 11).take 4, (window.drop 15).take 4, (window.drop 19).take
              (signed 32 (bigEndian ((window.drop 15).take 4))).toNat, ?_, ?_, ?_, ?_⟩
            · rw [← List.drop_drop, List.take_append_drop, ← List.drop_drop (i := 4) (j := 15),
                List.take_append_drop, ← List.drop_drop (i := 4) (j := 11), List.take_append_drop,
                ← not_not.mp hsignature, List.take_append_drop]
            · rw [List.length_take, List.length_drop]
              omega
            · rw [List.length_take, List.length_drop]
              omega
            · rw [hextension]
              omega
  · rintro ⟨flags, word, extension, rfl, hflags, hword⟩
    have hsignature : headerSignature.length = 11 := rfl
    have htotal : (headerSignature ++ (flags ++ (word ++ (extension ++ rest)))).length =
        19 + extension.length + rest.length := by
      simp only [List.length_append, hsignature, hflags, hword.1]
      omega
    have hdrop : (headerSignature ++ (flags ++ (word ++ (extension ++ rest)))).drop 15 =
        word ++ (extension ++ rest) := by
      rw [← List.append_assoc]
      exact List.drop_left' (by rw [List.length_append, hsignature, hflags])
    have hrest : (headerSignature ++ (flags ++ (word ++ (extension ++ rest)))).drop
        (19 + extension.length) = rest := by
      simp only [← List.append_assoc]
      apply List.drop_left'
      simp only [List.length_append, hsignature, hflags, hword.1]
    rw [tryConsumeHeader, if_neg (by omega), List.take_left' hsignature, if_neg (not_not.mpr rfl),
      hdrop, List.take_left' hword.1, hword.2]
    simp only [Int.toNat_natCast]
    rw [if_neg (by omega), if_neg (by omega), hrest]

/-! ## Tuples -/

variable {assembly next : Assembly}

/-- A row that the assembly has taken. -/
def Assembly.withRow (assembly : Assembly) (row : CopyRow) (size : Nat) : Assembly :=
  { assembly with
    builders := assembly.builders ++ [row]
    rowsInBatch := assembly.rowsInBatch + 1
    bytesInBatch := assembly.bytesInBatch + size
    rowsTotal := assembly.rowsTotal + 1 }

theorem CountWord.take {count : Int} (h : CountWord word count) (bytes : Bytes) :
    ¬(word ++ bytes).length < 2 ∧ (word ++ bytes).take 2 = word ∧ (word ++ bytes).drop 2 = bytes := by
  refine ⟨?_, List.take_left' h.1, List.drop_left' h.1⟩
  rw [List.length_append, h.1]
  omega

theorem countAhead (window : Bytes) :
    window.length < 2 ∨ ∃ word bytes count, window = word ++ bytes ∧ CountWord word count := by
  by_cases hshort : window.length < 2
  · exact .inl hshort
  · refine .inr ⟨window.take 2, window.drop 2, _, (List.take_append_drop 2 window).symm, ?_, rfl⟩
    rw [List.length_take]
    omega

theorem tuple_short (h : window.length < 2) : assembly.tryConsumeTuple window = .ok .needMore := by
  rw [Assembly.tryConsumeTuple, if_pos h]

theorem tuple_trailer (h : CountWord word (-1)) :
    assembly.tryConsumeTuple (word ++ bytes) = .ok (.trailer bytes) := by
  obtain ⟨hlong, htake, hdrop⟩ := h.take bytes
  rw [Assembly.tryConsumeTuple, if_neg hlong, htake, hdrop, h.2]
  rfl

theorem tuple_drift {count : Int} (h : CountWord word count) (htrailer : count ≠ -1)
    (hdrift : count ≠ assembly.columns.length) :
    assembly.tryConsumeTuple (word ++ bytes) =
      .error s!"tuple has {count} fields, schema has {assembly.columns.length} (drift)" := by
  obtain ⟨hlong, htake, hdrop⟩ := h.take bytes
  rw [Assembly.tryConsumeTuple, if_neg hlong, htake, h.2]
  simp only
  rw [if_neg htrailer, if_pos hdrift]

theorem tuple_fields (h : CountWord word assembly.columns.length) :
    assembly.tryConsumeTuple (word ++ bytes) =
      match locate assembly.columns.length bytes with
      | .error error => .error error
      | .ok none => .ok .needMore
      | .ok (some (ranges, rest)) =>
        (appendFields assembly.columns ranges).map fun row =>
          .row rest (assembly.withRow row (tupleBytes ranges)) := by
  obtain ⟨hlong, htake, hdrop⟩ := h.take bytes
  rw [Assembly.tryConsumeTuple, if_neg hlong, htake, hdrop, h.2]
  simp only
  rw [if_neg (by omega), if_neg (not_not.mpr rfl)]
  rfl

/-- Exactly the tuples of the grammar are taken. -/
theorem tuple_spec :
    assembly.tryConsumeTuple window = .ok (.row rest next) ↔ ∃ word fields row,
      window = word ++ (fields ++ rest) ∧ CountWord word assembly.columns.length ∧
        Fields assembly.columns fields row ∧ next = assembly.withRow row (2 + fields.length) := by
  constructor
  · intro h
    obtain hshort | ⟨word, bytes, count, rfl, hcount⟩ := countAhead window
    · rw [tuple_short hshort] at h
      cases h
    · by_cases htrailer : count = -1
      · rw [tuple_trailer (htrailer ▸ hcount)] at h
        cases h
      · by_cases hdrift : count = assembly.columns.length
        · subst hdrift
          rw [tuple_fields hcount] at h
          split at h
          · cases h
          · cases h
          · rename_i ranges rest' hlocate
            obtain ⟨row, happend, hrow⟩ := Fallible.map_ok.mp h
            cases hrow
            obtain ⟨fields, rfl, hfields⟩ := fields_of_located hlocate happend
            obtain ⟨ranges', hlocate', -, hsize⟩ := hfields.located rest
            rw [hlocate] at hlocate'
            cases hlocate'
            exact ⟨word, fields, row, rfl, hcount, hfields, by rw [hsize]⟩
        · rw [tuple_drift hcount htrailer hdrift] at h
          cases h
  · rintro ⟨word, fields, row, rfl, hcount, hfields, rfl⟩
    obtain ⟨ranges, hlocate, happend, hsize⟩ := hfields.located rest
    rw [tuple_fields hcount, hlocate]
    simp only [happend, hsize]
    rfl

theorem trailer_spec :
    assembly.tryConsumeTuple window = .ok (.trailer rest) ↔
      ∃ word, window = word ++ rest ∧ CountWord word (-1) := by
  constructor
  · intro h
    obtain hshort | ⟨word, bytes, count, rfl, hcount⟩ := countAhead window
    · rw [tuple_short hshort] at h
      cases h
    · by_cases htrailer : count = -1
      · subst htrailer
        rw [tuple_trailer hcount] at h
        cases h
        exact ⟨word, rfl, hcount⟩
      · by_cases hdrift : count = assembly.columns.length
        · subst hdrift
          rw [tuple_fields hcount] at h
          split at h
          · cases h
          · cases h
          · obtain ⟨row, -, hrow⟩ := Fallible.map_ok.mp h
            cases hrow
        · rw [tuple_drift hcount htrailer hdrift] at h
          cases h
  · rintro ⟨word, rfl, hword⟩
    exact tuple_trailer hword

theorem tuple_error_append {error : String} (more : Bytes)
    (h : assembly.tryConsumeTuple window = .error error) :
    assembly.tryConsumeTuple (window ++ more) = .error error := by
  obtain hshort | ⟨word, bytes, count, rfl, hcount⟩ := countAhead window
  · rw [tuple_short hshort] at h
    cases h
  · by_cases htrailer : count = -1
    · rw [tuple_trailer (htrailer ▸ hcount)] at h
      cases h
    · by_cases hdrift : count = assembly.columns.length
      · subst hdrift
        obtain ⟨hsome, herror⟩ := locate_append assembly.columns.length bytes more
        rw [tuple_fields hcount] at h
        rw [List.append_assoc, tuple_fields hcount]
        split at h
        · rename_i hlocate
          rw [herror _ hlocate]
          exact h
        · cases h
        · rename_i hlocate
          rw [hsome _ _ hlocate]
          cases happend : appendFields assembly.columns _ with
          | error detail =>
            rw [happend] at h
            cases h
            simp only [happend]
            rfl
          | ok row =>
            rw [happend] at h
            cases h
      · rw [tuple_drift hcount htrailer hdrift] at h
        rw [List.append_assoc, tuple_drift hcount htrailer hdrift]
        exact h

end PgTypes
