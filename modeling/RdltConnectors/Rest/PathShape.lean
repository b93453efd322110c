import Mathlib
import RdltConnectors.Library.Segments
import RdltConnectors.Rest.Placeholders

/-!
# The shape of a path

The values in a path are remote data. They are encoded so that none of them adds a slash or a
mark; whether the URL parser then takes a segment for dots is another matter, since it reads
an escaped dot as a dot.
-/
namespace Rest

open Template Whatwg

/-! ## Encoded values -/

theorem upperHexDigit_unreserved : ∀ n < 16, unreserved (upperHexDigit n) = true := by decide

/-- An escape of anything but a dot spells no dot. -/
theorem upperHexDigit_dot : ∀ n < 256, upperHexDigit (n / 16) = '2' →
    (upperHexDigit (n % 16) = 'e' ∨ upperHexDigit (n % 16) = 'E') → n = 46 := by decide +kernel

theorem utf8EncodeChar_first (c : Char) : ∃ byte rest,
    String.utf8EncodeChar c = byte :: rest ∧ (byte.toNat = 46 → c = '.') := by
  have hbyte : ∀ n : Nat, (UInt8.ofNat n).toNat = n % 256 := fun n => UInt8.toNat_ofNat'
  simp only [String.utf8EncodeChar]
  split
  · refine ⟨_, _, rfl, ?_⟩
    rw [hbyte]
    intro h
    apply Char.ext
    apply UInt32.toNat_inj.mp
    have hdot : '.'.val.toNat = 46 := rfl
    omega
  · split
    · refine ⟨_, _, rfl, ?_⟩
      rw [hbyte]
      omega
    · split
      · refine ⟨_, _, rfl, ?_⟩
        rw [hbyte]
        omega
      · refine ⟨_, _, rfl, ?_⟩
        rw [hbyte]
        omega

theorem encodeChar_chars {c d : Char} (h : d ∈ encodeChar c) : unreserved d = true ∨ d = '%' := by
  rw [encodeChar] at h
  split at h
  · rename_i hc
    rw [List.mem_singleton.mp h]
    exact .inl hc
  · obtain ⟨byte, -, hd⟩ := List.mem_flatMap.mp h
    have hlt := byte.toNat_lt
    simp only [percentByte, List.mem_cons, List.not_mem_nil, or_false] at hd
    obtain rfl | rfl | rfl := hd
    · exact .inr rfl
    · exact .inl (upperHexDigit_unreserved _ (by omega))
    · exact .inl (upperHexDigit_unreserved _ (by omega))

theorem encodeValue_cases (value : List Char) :
    (value.flatMap encodeChar = ['.'] ∧ encodeValue value = ['%', '2', 'E']) ∨
      (value.flatMap encodeChar = ['.', '.'] ∧
        encodeValue value = ['%', '2', 'E', '%', '2', 'E']) ∨
      (value.flatMap encodeChar ≠ ['.'] ∧ encodeValue value = value.flatMap encodeChar) := by
  simp only [encodeValue]
  split
  · rename_i h
    exact .inl ⟨h, rfl⟩
  · rename_i h
    split
    · rename_i h'
      exact .inr (.inl ⟨h', rfl⟩)
    · exact .inr (.inr ⟨h, rfl⟩)

theorem encodeValue_chars {value : List Char} {d : Char} (h : d ∈ encodeValue value) :
    unreserved d = true ∨ d = '%' := by
  obtain ⟨-, he⟩ | ⟨-, he⟩ | ⟨-, he⟩ := encodeValue_cases value
  · rw [he] at h
    simp only [List.mem_cons, List.not_mem_nil, or_false] at h
    obtain rfl | rfl | rfl := h <;> decide
  · rw [he] at h
    simp only [List.mem_cons, List.not_mem_nil, or_false] at h
    obtain rfl | rfl | rfl | rfl | rfl | rfl := h <;> decide
  · rw [he] at h
    obtain ⟨c, -, hd⟩ := List.mem_flatMap.mp h
    exact encodeChar_chars hd

theorem flatMap_encodeChar {value : List Char} (h : ∀ c ∈ value, unreserved c = true) :
    value.flatMap encodeChar = value := by
  induction value with
  | nil => rfl
  | cons c value ih =>
    rw [List.flatMap_cons, ih (fun d hd => h d (List.mem_cons_of_mem _ hd)), encodeChar,
      if_pos (h c List.mem_cons_self)]
    rfl

/-- A value without escapes is as it was, or has its dots respelled. -/
theorem respelled_encodeValue {value : List Char} (h : ∀ c ∈ value, unreserved c = true) :
    Respelled value (encodeValue value) := by
  have hplain := flatMap_encodeChar h
  obtain ⟨hv, he⟩ | ⟨hv, he⟩ | ⟨-, he⟩ := encodeValue_cases value
  · rw [he, ← hplain, hv]
    exact .dot .nil
  · rw [he, ← hplain, hv]
    exact .dot (.dot .nil)
  · rw [he, hplain]
    exact .refl value

/-- Any other has an escape that spells no dot. -/
theorem encodeValue_reserved {value : List Char} {c : Char} (hc : c ∈ value)
    (h : unreserved c = false) : ∃ front first second behind,
      encodeValue value = front ++ '%' :: first :: second :: behind ∧
        ¬ (first = '2' ∧ (second = 'e' ∨ second = 'E')) := by
  obtain ⟨before, after, rfl⟩ := List.append_of_mem hc
  obtain ⟨byte, rest, hbytes, hdot⟩ := utf8EncodeChar_first c
  have hchar : encodeChar c = '%' :: upperHexDigit (byte.toNat / 16) ::
      upperHexDigit (byte.toNat % 16) :: rest.flatMap percentByte := by
    rw [encodeChar, if_neg (by simp [h]), hbytes]
    rfl
  have hflat : (before ++ c :: after).flatMap encodeChar =
      before.flatMap encodeChar ++ '%' :: upperHexDigit (byte.toNat / 16) ::
        upperHexDigit (byte.toNat % 16) ::
          (rest.flatMap percentByte ++ after.flatMap encodeChar) := by
    simp [hchar]
  have hpercent : '%' ∈ (before ++ c :: after).flatMap encodeChar := by simp [hflat]
  obtain ⟨hv, -⟩ | ⟨hv, -⟩ | ⟨-, he⟩ := encodeValue_cases (before ++ c :: after)
  · rw [hv] at hpercent
    exact absurd hpercent (by decide)
  · rw [hv] at hpercent
    exact absurd hpercent (by decide)
  · refine ⟨_, _, _, _, he.trans hflat, ?_⟩
    rintro ⟨hfirst, hsecond⟩
    obtain rfl := hdot (upperHexDigit_dot _ byte.toNat_lt hfirst hsecond)
    cases h

theorem encodeValue_isEmpty (value : List Char) : (encodeValue value).isEmpty = value.isEmpty := by
  by_cases h : ∀ c ∈ value, unreserved c = true
  · exact (respelled_encodeValue h).isEmpty
  · simp only [not_forall, Bool.not_eq_true] at h
    obtain ⟨c, hc, hreserved⟩ := h
    obtain ⟨front, first, second, behind, he, -⟩ := encodeValue_reserved hc hreserved
    rw [he]
    cases value with
    | nil => cases hc
    | cons d value => simp

/-! ## The segments of a template -/

section Shape

variable (placeholders : List (String × String))

/-- The value of a token, where it has one. -/
def given (token : List Char) : List Char := (valueOf placeholders token).getD []

/-- A template behind its first slashes, as the URL parser reads it: tabs, newlines and the
blanks that come last are no part of it. -/
def shape (pieces : List (Piece Char)) : List (Piece Char) :=
  (trimmed blank (given placeholders) (pieces.dropWhile (Piece.is (· = '/')))).filter
    (Piece.allows fun c => !tabOrNewline c)

def pathSegments (pieces : List (Piece Char)) : List (List (Piece Char)) :=
  ((shape placeholders pieces).takeWhile (Piece.allows inPath)).splitOnP (Piece.is slash)

/-- The query and the fragment of the template. -/
def pathTail (pieces : List (Piece Char)) : List (Piece Char) :=
  (shape placeholders pieces).dropWhile (Piece.allows inPath)

/-- Nothing but empty values stand in front of a slash, and both go with the template's own
first slashes. -/
def LosesStart (pieces : List (Piece Char)) : Prop :=
  ∃ front behind, pieces.dropWhile (Piece.is (· = '/')) = front ++ .literal '/' :: behind ∧
    ∀ piece ∈ front, ∃ token, piece = .placeholder token ∧ given placeholders token = []

/-- With the values as they are a segment spells dots, none of them by a value's escape. -/
def SpellsDots (segment : List (Piece Char)) (n : Nat) : Prop :=
  dots (segment.flatMap (Piece.render (given placeholders))) = some n ∧
    ∀ token, .placeholder token ∈ segment → '%' ∉ given placeholders token

end Shape

/-- A segment without a placeholder is as it was. -/
def Unchanged (segment : List (Piece Char)) (text : List Char) : Prop :=
  ∀ literal : List Char, segment = literal.map .literal → text = literal

/-- The request's path is the base's with the template's segments behind, and its query and
fragment are the template's. -/
structure PathKept (placeholders : List (String × String)) (pieces : List (Piece Char))
    (front : List Char) (url : Url) : Prop where
  segments : ∃ own, url.segments = baseSegments front ++ own ∧
    List.Forall₂ Unchanged (pathSegments placeholders pieces) own
  tail : url.tail = filled placeholders encodeValue (pathTail placeholders pieces)

structure Harmless (placeholders : List (String × String)) (pieces : List (Piece Char))
    (front : List Char) : Prop where
  base : ∀ c ∈ front, inPath c = true
  start : ¬ LosesStart placeholders pieces
  inner : ∀ segment ∈ (pathSegments placeholders pieces).dropLast,
    ¬ SpellsDots placeholders segment 1 ∧ ¬ SpellsDots placeholders segment 2
  last : ∀ segment ∈ (pathSegments placeholders pieces).getLast?,
    (SpellsDots placeholders segment 1 → ∃ token, .placeholder token ∈ segment) ∧
    (SpellsDots placeholders segment 2 → (∃ token, .placeholder token ∈ segment) ∧
      baseSegments front = [] ∧ (pathSegments placeholders pieces).length = 1)

/-! ## The text of a template's segments -/

theorem plain_of_encoded {d : Char} (h : unreserved d = true ∨ d = '%') :
    inPath d = true ∧ slash d = false ∧ blank d = false ∧ tabOrNewline d = false := by
  obtain h | rfl := h
  · simp only [unreserved, Bool.or_eq_true, decide_eq_true_eq] at h
    obtain (((h | rfl) | rfl) | rfl) | rfl := h
    · obtain ⟨hin, hblank, -⟩ := alphanum_plain h
      simp only [inAuthority, Bool.and_eq_true, Bool.not_eq_true', decide_eq_true_eq] at hin
      obtain ⟨⟨hslash, hquery⟩, hfragment⟩ := hin
      refine ⟨by simp [inPath, hquery, hfragment], hslash, hblank, ?_⟩
      cases htab : tabOrNewline d with
      | false => rfl
      | true =>
        simp only [tabOrNewline, Bool.or_eq_true, decide_eq_true_eq] at htab
        obtain (rfl | rfl) | rfl := htab <;> cases hblank
    all_goals decide
  · decide

section Text

variable {placeholders : List (String × String)} {pieces : List (Piece Char)}

theorem filled_encoded (pieces : List (Piece Char)) : filled placeholders encodeValue pieces =
    pieces.flatMap (Piece.render fun token => encodeValue (given placeholders token)) := rfl

theorem encoded_plain (token : List Char) : ∀ d ∈ encodeValue (given placeholders token),
    inPath d = true ∧ slash d = false ∧ blank d = false ∧ tabOrNewline d = false :=
  fun _ hd => plain_of_encoded (encodeValue_chars hd)

theorem filled_shape (pieces : List (Piece Char)) :
    filled placeholders encodeValue (shape placeholders pieces) =
      cleanEnd (filled placeholders encodeValue (pieces.dropWhile (Piece.is (· = '/')))) := by
  have hsilent : Piece.silent blank (given placeholders) =
      Piece.silent blank fun token => encodeValue (given placeholders token) := by
    funext piece
    cases piece with
    | literal c => rfl
    | placeholder token => exact (encodeValue_isEmpty _).symm
  have htab : ∀ token, ∀ d ∈ encodeValue (given placeholders token), (!tabOrNewline d) = true := by
    intro token d hd
    rw [(encoded_plain token d hd).2.2.2]
    rfl
  have hblank : ∀ token, ∀ d ∈ encodeValue (given placeholders token), blank d = false :=
    fun token d hd => (encoded_plain token d hd).2.2.1
  rw [shape, filled_encoded, ← filter_render htab, trimmed, hsilent, ← trimmed,
    render_trimmed hblank]
  rfl

theorem endSegments_filled (placeholders : List (String × String)) (pieces : List (Piece Char)) :
    endSegments (filled placeholders encodeValue (pieces.dropWhile (Piece.is (· = '/')))) =
      (pathSegments placeholders pieces).map (filled placeholders encodeValue) := by
  rw [endSegments, ← filled_shape, filled_encoded,
    takeWhile_render (fun token d hd => (encoded_plain token d hd).1),
    splitOnP_render (fun token d hd => (encoded_plain token d hd).2.1)]
  rfl

theorem endTail_filled (pieces : List (Piece Char)) :
    endTail (filled placeholders encodeValue (pieces.dropWhile (Piece.is (· = '/')))) =
      filled placeholders encodeValue (pathTail placeholders pieces) := by
  rw [endTail, ← filled_shape, filled_encoded,
    dropWhile_render (fun token d hd => (encoded_plain token d hd).1)]
  rfl

theorem dropWhile_filled (pieces : List (Piece Char)) :
    (filled placeholders encodeValue pieces).dropWhile (· = '/') =
      (filled placeholders encodeValue (pieces.dropWhile (Piece.is (· = '/')))).dropWhile
        (· = '/') := by
  induction pieces with
  | nil => rfl
  | cons piece pieces ih =>
    cases hpiece : piece.is (· = '/') with
    | false => rw [List.dropWhile_cons_of_neg (by simp [hpiece])]
    | true =>
      rw [List.dropWhile_cons_of_pos hpiece, ← ih]
      cases piece with
      | placeholder token => cases hpiece
      | literal c => exact List.dropWhile_cons_of_pos hpiece

theorem filled_empties {front : List (Piece Char)}
    (h : ∀ piece ∈ front, ∃ token, piece = .placeholder token ∧ given placeholders token = [])
    (behind : List (Piece Char)) : filled placeholders encodeValue (front ++ behind) =
      filled placeholders encodeValue behind := by
  induction front with
  | nil => rfl
  | cons piece front ih =>
    obtain ⟨token, rfl, hempty⟩ := h piece List.mem_cons_self
    rw [List.cons_append, filled_encoded, render_placeholder, hempty, ← filled_encoded,
      ih (fun other hother => h other (List.mem_cons_of_mem _ hother))]
    rfl

theorem filled_slash {text : List Char} (h : filled placeholders encodeValue pieces = '/' :: text) :
    ∃ front behind, pieces = front ++ .literal '/' :: behind ∧
      ∀ piece ∈ front, ∃ token, piece = .placeholder token ∧ given placeholders token = [] := by
  induction pieces with
  | nil => cases h
  | cons piece pieces ih =>
    cases piece with
    | literal c =>
      rw [filled_encoded, render_literal] at h
      cases h
      exact ⟨[], pieces, rfl, (by rintro _ ⟨⟩)⟩
    | placeholder token =>
      rw [filled_encoded, render_placeholder] at h
      cases hvalue : encodeValue (given placeholders token) with
      | cons d rest =>
        rw [hvalue] at h
        cases h
        have hslash := (encoded_plain token '/' (by rw [hvalue]; exact List.mem_cons_self)).2.1
        cases hslash
      | nil =>
        rw [hvalue] at h
        obtain ⟨front, behind, rfl, hempty⟩ := ih h
        refine ⟨.placeholder token :: front, behind, rfl, ?_⟩
        have hgiven : given placeholders token = [] := by
          rw [← List.isEmpty_iff, ← encodeValue_isEmpty, hvalue]
          rfl
        intro piece hpiece
        obtain rfl | hpiece := List.mem_cons.mp hpiece
        · exact ⟨token, rfl, hgiven⟩
        · exact hempty piece hpiece

/-! ## Segments that spell dots -/

theorem respelled_filled
    (h : ∀ token, .placeholder token ∈ pieces → ∀ c ∈ given placeholders token, unreserved c = true) :
    Respelled (pieces.flatMap (Piece.render (given placeholders)))
      (filled placeholders encodeValue pieces) := by
  induction pieces with
  | nil => exact .nil
  | cons piece pieces ih =>
    have hrest := ih fun token htoken => h token (List.mem_cons_of_mem _ htoken)
    cases piece with
    | literal c => exact .same c hrest
    | placeholder token =>
      exact (respelled_encodeValue (h token List.mem_cons_self)).append hrest

theorem dots_filled (segment : List (Piece Char)) (n : Nat) :
    dots (filled placeholders encodeValue segment) = some n ↔ SpellsDots placeholders segment n := by
  by_cases hplain : ∀ token, .placeholder token ∈ segment →
      ∀ c ∈ given placeholders token, unreserved c = true
  · rw [dots_respelled (respelled_filled hplain)]
    constructor
    · intro h
      refine ⟨h, ?_⟩
      intro token htoken hpercent
      have hunreserved := hplain token htoken '%' hpercent
      cases hunreserved
    · exact And.left
  · simp only [not_forall, Bool.not_eq_true] at hplain
    obtain ⟨token, htoken, c, hc, hreserved⟩ := hplain
    obtain ⟨before, after, rfl⟩ := List.append_of_mem htoken
    constructor
    · intro h
      obtain ⟨front, first, second, behind, hvalue, hescape⟩ := encodeValue_reserved hc hreserved
      have htext : filled placeholders encodeValue (before ++ .placeholder token :: after) =
          (filled placeholders encodeValue before ++ front) ++ '%' :: (first :: second ::
            (behind ++ filled placeholders encodeValue after)) := by
        simp [filled_encoded, Piece.render, hvalue]
      rw [htext] at h
      obtain ⟨e, more, hmore, he⟩ := dots_behind_percent h
      cases hmore
      exact absurd ⟨rfl, he⟩ hescape
    · rintro ⟨h, hpercent⟩
      have hin : c ∈ (before ++ .placeholder token :: after).flatMap
          (Piece.render (given placeholders)) := by
        simp [Piece.render, hc]
      obtain rfl | rfl | rfl | rfl | rfl := dots_chars h c hin
      · cases hreserved
      · exact absurd hc (hpercent token htoken)
      all_goals cases hreserved

end Text

/-! ## A request's path -/

section Path

variable {placeholders : List (String × String)} {pieces : List (Piece Char)} {front : List Char}
  {url : Url}

theorem unchanged_filled (segment : List (Piece Char)) :
    Unchanged segment (filled placeholders encodeValue segment) := by
  rintro literal rfl
  induction literal with
  | nil => rfl
  | cons c literal ih =>
    rw [List.map_cons, filled_encoded, render_literal]
    exact congrArg _ ih

/-- Whatever a segment with a placeholder becomes. -/
theorem unchanged_of_placeholder {segment : List (Piece Char)} {token : List Char}
    (h : .placeholder token ∈ segment) (text : List Char) : Unchanged segment text := by
  rintro literal rfl
  obtain ⟨c, -, hc⟩ := List.mem_map.mp h
  cases hc

theorem placeholder_of_unchanged {segment : List (Piece Char)} (h : Unchanged segment [])
    {n : Nat} (hdots : dots (filled placeholders encodeValue segment) = some (n + 1)) :
    ∃ token, .placeholder token ∈ segment := by
  by_contra hnone
  have hliterals : ∃ literal : List Char, segment = literal.map .literal := by
    clear h hdots
    induction segment with
    | nil => exact ⟨[], rfl⟩
    | cons piece segment ih =>
      cases piece with
      | placeholder token => exact absurd ⟨token, List.mem_cons_self⟩ hnone
      | literal c =>
        obtain ⟨literal, rfl⟩ := ih fun ⟨token, htoken⟩ =>
          hnone ⟨token, List.mem_cons_of_mem _ htoken⟩
        exact ⟨c :: literal, rfl⟩
  obtain ⟨literal, rfl⟩ := hliterals
  obtain rfl := h literal rfl
  cases hdots

theorem forall₂_unchanged (placeholders : List (String × String))
    (segments : List (List (Piece Char))) :
    List.Forall₂ Unchanged segments (segments.map (filled placeholders encodeValue)) := by
  induction segments with
  | nil => exact .nil
  | cons segment segments ih => exact .cons (unchanged_filled segment) ih

/-- What becomes of the last segment, when no other one spells dots. -/
theorem last_iff (base : List (List Char)) (init : List (List (Piece Char)))
    (last : List (Piece Char)) :
    (∃ own, enterLast (base ++ init.map (filled placeholders encodeValue))
        (filled placeholders encodeValue last) = base ++ own ∧
      List.Forall₂ Unchanged (init ++ [last]) own) ↔
    (SpellsDots placeholders last 1 → ∃ token, .placeholder token ∈ last) ∧
      (SpellsDots placeholders last 2 → (∃ token, .placeholder token ∈ last) ∧
        base = [] ∧ (init ++ [last]).length = 1) := by
  simp only [← dots_filled]
  have hinit : (init ++ [last]).length = 1 ↔ init = [] := by simp
  rw [hinit, enterLast]
  have hkept := forall₂_unchanged placeholders init
  split
  · -- both dots: one more segment goes, unless there is none
    rename_i hdots
    rw [hdots]
    constructor
    · rintro ⟨own, hown, hunchanged⟩
      have hlength := congrArg List.length hown
      rw [List.length_append, List.length_append, List.length_dropLast, List.length_append,
        List.length_map, ← hunchanged.length_eq, List.length_append, List.length_singleton,
        List.length_singleton] at hlength
      have hbase : base = [] := List.length_eq_zero_iff.mp (by omega)
      have hempty : init = [] := List.length_eq_zero_iff.mp (by omega)
      subst hbase hempty
      cases hown
      cases hunchanged with
      | cons hlast _ => exact ⟨(by rintro ⟨⟩), fun _ => ⟨placeholder_of_unchanged hlast hdots, rfl, rfl⟩⟩
    · rintro ⟨-, h⟩
      obtain ⟨⟨token, htoken⟩, rfl, rfl⟩ := h rfl
      exact ⟨[[]], rfl, .cons (unchanged_of_placeholder htoken []) .nil⟩
  · rename_i htwo
    split
    · rename_i hdots
      rw [hdots]
      constructor
      · rintro ⟨own, hown, hunchanged⟩
        rw [List.append_assoc, List.append_cancel_left_eq] at hown
        subst hown
        refine ⟨fun _ => ?_, fun h => by cases h⟩
        have hlast := List.forall₂_drop_append _ _ _ hunchanged
        rw [List.length_map, List.drop_left] at hlast
        cases hlast with
        | cons hlast _ => exact placeholder_of_unchanged hlast hdots
      · rintro ⟨h, -⟩
        obtain ⟨token, htoken⟩ := h rfl
        refine ⟨init.map (filled placeholders encodeValue) ++ [[]], by rw [List.append_assoc], ?_⟩
        exact List.rel_append hkept (.cons (unchanged_of_placeholder htoken []) .nil)
    · rename_i hone
      constructor
      · intro _
        exact ⟨fun h => absurd h hone, fun h => absurd h htwo⟩
      · intro _
        refine ⟨(init ++ [last]).map (filled placeholders encodeValue), by simp, ?_⟩
        exact forall₂_unchanged placeholders _

theorem pathKept_of_start (hrest : url.rest = front ++ '/' :: cleanEnd
      ((filled placeholders encodeValue pieces).dropWhile (· = '/')))
    (hfront : ∀ c ∈ front, inPath c = true) (hstart : ¬ LosesStart placeholders pieces) :
    url.segments = removeDots (baseSegments front)
        ((pathSegments placeholders pieces).map (filled placeholders encodeValue)) ∧
      url.tail = filled placeholders encodeValue (pathTail placeholders pieces) := by
  have htext : (filled placeholders encodeValue pieces).dropWhile (· = '/') =
      filled placeholders encodeValue (pieces.dropWhile (Piece.is (· = '/'))) := by
    rw [dropWhile_filled]
    cases hfilled : filled placeholders encodeValue (pieces.dropWhile (Piece.is (· = '/'))) with
    | nil => rfl
    | cons c text =>
      rw [List.dropWhile_cons_of_neg]
      intro hc
      obtain rfl : c = '/' := by simpa using hc
      exact hstart (filled_slash hfilled)
  rw [htext] at hrest
  rw [segments_join hrest hfront, tail_join hrest hfront]
  exact ⟨congrArg _ (endSegments_filled placeholders pieces), endTail_filled pieces⟩

theorem pathKept_iff_of_start (hrest : url.rest = front ++ '/' :: cleanEnd
      ((filled placeholders encodeValue pieces).dropWhile (· = '/')))
    (hfront : ∀ c ∈ front, inPath c = true) (hstart : ¬ LosesStart placeholders pieces) :
    PathKept placeholders pieces front url ↔ Harmless placeholders pieces front := by
  obtain ⟨hsegments, htail⟩ := pathKept_of_start hrest hfront hstart
  have hne : pathSegments placeholders pieces ≠ [] := List.splitOnP_ne_nil _ _
  obtain ⟨init, last, hsplit⟩ := (List.eq_nil_or_concat' _).resolve_left hne
  rw [hsplit, List.map_append, List.map_singleton] at hsegments
  have hlastOnly : ∀ segment ∈ (pathSegments placeholders pieces).getLast?, segment = last := by
    intro segment hsegment
    rw [hsplit, List.getLast?_concat] at hsegment
    exact (Option.some.inj hsegment).symm
  constructor
  · rintro ⟨⟨own, hown, hunchanged⟩, -⟩
    rw [hsplit] at hunchanged
    have hinner : ∀ segment ∈ init, ¬ SpellsDots placeholders segment 1 ∧
        ¬ SpellsDots placeholders segment 2 := by
      intro segment hsegment
      by_contra hdots
      have hfewer := removeDots_fewer (init.map (filled placeholders encodeValue))
        (filled placeholders encodeValue last)
        ⟨_, List.mem_map_of_mem hsegment, by simp only [dots_filled]; tauto⟩ (baseSegments front)
      rw [← hsegments, hown, List.length_append, ← hunchanged.length_eq, List.length_append,
        List.length_map, List.length_singleton] at hfewer
      omega
    have hplain := removeDots_plain (init.map (filled placeholders encodeValue))
      (by simpa [dots_filled] using hinner) (baseSegments front)
        (filled placeholders encodeValue last)
    rw [hsegments, hplain] at hown
    have hlast := (last_iff (baseSegments front) init last).mp ⟨own, hown, hunchanged⟩
    refine ⟨hfront, hstart, by simpa [hsplit] using hinner, ?_⟩
    intro segment hsegment
    obtain rfl := hlastOnly segment hsegment
    rw [hsplit]
    exact hlast
  · intro h
    have hinner : ∀ segment ∈ init, ¬ SpellsDots placeholders segment 1 ∧
        ¬ SpellsDots placeholders segment 2 := by
      have hinner := h.inner
      rw [hsplit, List.dropLast_concat] at hinner
      exact hinner
    have hplain := removeDots_plain (init.map (filled placeholders encodeValue))
      (by simpa [dots_filled] using hinner) (baseSegments front)
        (filled placeholders encodeValue last)
    have hlast := h.last last (by rw [hsplit, List.getLast?_concat]; rfl)
    rw [hsplit] at hlast
    obtain ⟨own, hown, hunchanged⟩ := (last_iff (baseSegments front) init last).mpr hlast
    refine ⟨⟨own, ?_, ?_⟩, htail⟩
    · rw [hsegments, hplain, hown]
    · rw [hsplit]
      exact hunchanged

theorem pathKept_iff (hrest : url.rest = front ++ '/' :: cleanEnd
      ((filled placeholders encodeValue pieces).dropWhile (· = '/'))) :
    PathKept placeholders pieces front url ↔ Harmless placeholders pieces front := by
  by_cases hfront : ∀ c ∈ front, inPath c = true
  case neg =>
    -- the base's own query or fragment takes the whole path in
    constructor
    · rintro ⟨-, htail⟩
      have hlonger := tail_swallows hrest hfront
      have hshort := endTail_length ((filled placeholders encodeValue pieces).dropWhile (· = '/'))
      rw [htail, ← endTail_filled, ← endTail_dropWhile, ← dropWhile_filled] at hlonger
      omega
    · exact fun h => absurd h.base hfront
  case pos =>
    by_cases hstart : LosesStart placeholders pieces
    case neg => exact pathKept_iff_of_start hrest hfront hstart
    case pos =>
      constructor
      · rintro ⟨⟨own, hown, hunchanged⟩, -⟩
        obtain ⟨before, behind, hpieces, hempty⟩ := hstart
        have htext : filled placeholders encodeValue (pieces.dropWhile (Piece.is (· = '/'))) =
            '/' :: filled placeholders encodeValue behind := by
          rw [hpieces, filled_empties hempty]
          rfl
        have hcount := congrArg List.length (endSegments_filled placeholders pieces)
        rw [htext, endSegments_slash, List.length_cons, List.length_map] at hcount
        have hless := endSegments_dropWhile (filled placeholders encodeValue behind)
        have hall := removeDots_length (baseSegments front)
          (endSegments ((filled placeholders encodeValue pieces).dropWhile (· = '/')))
        rw [dropWhile_filled, htext, List.dropWhile_cons_of_pos (by simp)] at hrest hall
        rw [segments_join hrest hfront] at hown
        have hlength := congrArg List.length hown
        rw [List.length_append, ← hunchanged.length_eq, ← endSegments] at hlength
        omega
      · exact fun h => absurd hstart h.start

end Path

/-- What the parser makes of a request's URL has the template's segments behind the base's,
exactly when no value lets it lose one. -/
theorem path_kept_iff {libraries : Libraries} (hlibraries : libraries.FollowsGrammar)
    {base : List Char} {url : Url} (hbase : parse libraries.rules base = some url)
    (hhttp : httpScheme url.scheme = true) :
    ∃ front slashes blanks, url.rest = front ++ slashes ∧ (∀ c ∈ slashes, c = '/') ∧
      (∀ c ∈ blanks, blank c = true) ∧
      ∀ (template : List Char) (placeholders : List (String × String)), ∃ pieces,
        OnePass '{' '}' (fun token => (valueOf placeholders token).isSome) template pieces ∧
        ∀ found,
          parse libraries.rules (joinBaseUrl base (substitutePath template placeholders)) =
            some found →
          found.rest = (front ++ blanks) ++
              '/' :: cleanEnd ((substitutePath template placeholders).dropWhile (· = '/')) ∧
            (PathKept placeholders pieces (front ++ blanks) found ↔
              Harmless placeholders pieces (front ++ blanks)) := by
  have hslashes : ∀ c ∈ base.rtakeWhile (· = '/'), c = '/' := by
    intro c hc
    simpa using List.mem_rtakeWhile_imp hc
  have hsplit : base.rdropWhile (· = '/') ++ base.rtakeWhile (· = '/') = base :=
    List.rdropWhile_append_rtakeWhile
  rw [← hsplit] at hbase
  obtain ⟨front, slashes, blanks, hrest, hall, hblanks, hjoin⟩ :=
    parse_join hlibraries.strict hslashes hbase (defaultPort_of_http hhttp)
  refine ⟨front, slashes, blanks, hrest, hall, hblanks, ?_⟩
  intro template placeholders
  obtain ⟨pieces, hpass, hrender⟩ :=
    replaceTokens_pieces (fun token => (valueOf placeholders token).isSome) template
  have hfilled : substitutePath template placeholders = filled placeholders encodeValue pieces :=
    substitutePath_filled hrender fun _ => Iff.rfl
  refine ⟨pieces, hpass, ?_⟩
  intro found hfound
  obtain hparse | ⟨-, hnone⟩ := hjoin ((substitutePath template placeholders).dropWhile (· = '/'))
  · rw [joinBaseUrl, hparse] at hfound
    cases hfound
    refine ⟨rfl, pathKept_iff ?_⟩
    rw [hfilled]
  · rw [joinBaseUrl, hnone] at hfound
    cases hfound

def apiUrl : Url := ⟨"https".toList, none, some "api.example.com".toList, none, []⟩

theorem path_kept_iff_of_api : parse plainLibraries.rules "https://api.example.com".toList =
      some apiUrl ∧
    ∃ front slashes blanks, apiUrl.rest = front ++ slashes ∧ (∀ c ∈ slashes, c = '/') ∧
      (∀ c ∈ blanks, blank c = true) ∧
      ∀ (template : List Char) (placeholders : List (String × String)), ∃ pieces,
        OnePass '{' '}' (fun token => (valueOf placeholders token).isSome) template pieces ∧
        ∀ found,
          parse plainLibraries.rules (joinBaseUrl "https://api.example.com".toList
            (substitutePath template placeholders)) = some found →
          found.rest = (front ++ blanks) ++
              '/' :: cleanEnd ((substitutePath template placeholders).dropWhile (· = '/')) ∧
            (PathKept placeholders pieces (front ++ blanks) found ↔
              Harmless placeholders pieces (front ++ blanks)) := by
  have hbase : parse plainLibraries.rules "https://api.example.com".toList = some apiUrl := by
    decide +kernel
  exact ⟨hbase, path_kept_iff plainLibraries_follow hbase (by decide +kernel)⟩

def userPieces : List (Piece Char) :=
  "/orgs/acme/users/".toList.map .literal ++ [.placeholder "id".toList]

/-- A user named by two dots: the escaped segment is taken for dots, and the path walks up. -/
theorem escaped_dots_walk_up :
    sourceOf '{' '}' userPieces = "/orgs/acme/users/\x7bid\x7d".toList ∧
      substitutePath "/orgs/acme/users/\x7bid\x7d".toList [("id", "..")] =
        "/orgs/acme/users/%2E%2E".toList ∧
      filled [("id", "..")] encodeValue userPieces = "/orgs/acme/users/%2E%2E".toList ∧
      ∃ found, parse plainLibraries.rules (joinBaseUrl "https://api.example.com".toList
          (substitutePath "/orgs/acme/users/\x7bid\x7d".toList [("id", "..")])) = some found ∧
        found.segments = ["orgs".toList, "acme".toList, []] ∧
        ¬ PathKept [("id", "..")] userPieces [] found := by
  have hsegments : Url.segments { apiUrl with rest := "/orgs/acme/users/%2E%2E".toList } =
      ["orgs".toList, "acme".toList, []] := by decide +kernel
  refine ⟨by decide +kernel, by decide +kernel, by decide +kernel,
    { apiUrl with rest := "/orgs/acme/users/%2E%2E".toList }, by decide +kernel, hsegments, ?_⟩
  rintro ⟨⟨own, hown, hunchanged⟩, -⟩
  have hcount : (pathSegments [("id", "..")] userPieces).length = 4 := by decide +kernel
  have hlength := congrArg List.length (hsegments.symm.trans hown)
  rw [List.length_append, ← hunchanged.length_eq, hcount] at hlength
  simp at hlength

end Rest
