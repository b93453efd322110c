import RdltConnectors.Postgres.ConnectionString

/-!
# The grammar of connection strings

How libpq reads a connection string, of either form: as assignments of values to keywords, of
which the last to a keyword wins. A value is bytes; in a URL they may be written by percent escapes,
in the other form a backslash takes the character behind it as it is.
-/
namespace PgConn

def utf8 (text : List Char) : List UInt8 := text.flatMap String.utf8EncodeChar

/-- A keyword and its value. -/
abbrev Param := List UInt8 × List UInt8

/-! ## The key=value form -/

/-- `isspace` of the C locale. -/
def isSpace (c : Char) : Bool := decide (c ∈ [' ', '\t', '\n', '\x0b', '\x0c', '\r'])

/-- One assignment: how it is written and what it means. -/
structure Assignment where
  key : List Char
  /-- the equals sign and the blanks around it -/
  sign : List Char
  quoted : Bool
  /-- the value as it is written, without the quotes -/
  written : List Char
  value : List Char
  deriving DecidableEq, Repr

def Assignment.span (a : Assignment) : List Char :=
  a.key ++ a.sign ++ if a.quoted then '\'' :: a.written ++ ['\''] else a.written

def Assignment.param (a : Assignment) : Param := (utf8 a.key, utf8 a.value)

/-- To the closing quote, which there must be. -/
def readQuoted : List Char → Option (List Char × List Char × List Char)
  | [] => none
  | '\'' :: rest => some ([], [], rest)
  | ['\\'] => none
  | '\\' :: c :: rest =>
    (readQuoted rest).map fun read => ('\\' :: c :: read.1, c :: read.2.1, read.2.2)
  | c :: rest => (readQuoted rest).map fun read => (c :: read.1, c :: read.2.1, read.2.2)

/-- To the next blank. -/
def readBare : List Char → List Char × List Char × List Char
  | [] => ([], [], [])
  | ['\\'] => (['\\'], [], [])
  | '\\' :: c :: rest =>
    ('\\' :: c :: (readBare rest).1, c :: (readBare rest).2.1, (readBare rest).2.2)
  | c :: rest =>
    if isSpace c then ([], [], c :: rest)
    else (c :: (readBare rest).1, c :: (readBare rest).2.1, (readBare rest).2.2)

/-- A value as it is written, what it means and what is behind it. -/
def readValue (text : List Char) : Option (Bool × List Char × List Char × List Char) :=
  match text with
  | '\'' :: quoted => (readQuoted quoted).map (true, ·)
  | bare => some (false, readBare bare)

/-- An assignment at the start of the text, and what is behind it. -/
def readAssignment (text : List Char) : Option (Assignment × List Char) :=
  let key := text.takeWhile fun c => c ≠ '=' && !isSpace c
  let behind := text.dropWhile fun c => c ≠ '=' && !isSpace c
  match behind.dropWhile isSpace with
  | '=' :: value =>
    (readValue (value.dropWhile isSpace)).map fun read =>
      (⟨key, behind.takeWhile isSpace ++ '=' :: value.takeWhile isSpace, read.1, read.2.1, read.2.2.1⟩,
        read.2.2.2)
  | _ => none

theorem readQuoted_length {text : List Char} {read : List Char × List Char × List Char}
    (h : readQuoted text = some read) : read.2.2.length < text.length := by
  induction text using readQuoted.induct generalizing read with
  | case1 => cases h
  | case2 rest =>
    obtain rfl := Option.some.inj h
    exact Nat.lt_succ_self _
  | case3 => cases h
  | case4 c rest ih =>
    rw [readQuoted] at h
    obtain ⟨inner, hinner, rfl⟩ := Option.map_eq_some_iff.1 h
    have hless := ih hinner
    rw [List.length_cons, List.length_cons]
    dsimp only
    omega
  | case5 c rest hquote hlone hescape ih =>
    rw [readQuoted] at h
    · obtain ⟨inner, hinner, rfl⟩ := Option.map_eq_some_iff.1 h
      have hless := ih hinner
      rw [List.length_cons]
      dsimp only
      omega
    · exact hquote
    · exact hlone
    · exact hescape

theorem readBare_length (text : List Char) : (readBare text).2.2.length ≤ text.length := by
  induction text using readBare.induct with
  | case1 => exact Nat.le_refl _
  | case2 => exact Nat.zero_le _
  | case3 c rest ih =>
    rw [readBare, List.length_cons, List.length_cons]
    dsimp only
    omega
  | case4 c rest hlone hescape hspace =>
    rw [readBare, if_pos hspace]
    · exact hlone
    · exact hescape
  | case5 c rest hlone hescape hspace ih =>
    rw [readBare, if_neg hspace, List.length_cons]
    · dsimp only
      omega
    · exact hlone
    · exact hescape

theorem readValue_length {text : List Char} {read : Bool × List Char × List Char × List Char}
    (h : readValue text = some read) : read.2.2.2.length ≤ text.length := by
  unfold readValue at h
  split at h
  · next quoted =>
    obtain ⟨inner, hinner, rfl⟩ := Option.map_eq_some_iff.1 h
    have hless := readQuoted_length hinner
    rw [List.length_cons]
    dsimp only
    omega
  · obtain rfl := Option.some.inj h
    exact readBare_length text

theorem readAssignment_length {text rest : List Char} {a : Assignment}
    (h : readAssignment text = some (a, rest)) : rest.length < text.length := by
  unfold readAssignment at h
  dsimp only at h
  have hkey := dropWhile_length (fun c => c ≠ '=' && !isSpace c) text
  have hblank := dropWhile_length isSpace (text.dropWhile fun c => c ≠ '=' && !isSpace c)
  split at h
  · next value hvalue =>
    rw [hvalue, List.length_cons] at hblank
    have hbehind := dropWhile_length isSpace value
    obtain ⟨read, hread, heq⟩ := Option.map_eq_some_iff.1 h
    obtain ⟨-, rfl⟩ := Prod.mk.inj heq
    have hless := readValue_length hread
    omega
  · cases h

/-- The assignments of a text, each with the blanks before it, and the blanks at the end. -/
structure Reading where
  assignments : List (List Char × Assignment)
  trailing : List Char
  deriving DecidableEq, Repr

def readAssignments (text : List Char) : Option Reading :=
  match _hbody : text.dropWhile isSpace with
  | [] => some ⟨[], text⟩
  | c :: tail =>
    match _hread : readAssignment (c :: tail) with
    | none => none
    | some (a, rest) =>
      (readAssignments rest).map fun reading =>
        { reading with assignments := (text.takeWhile isSpace, a) :: reading.assignments }
  termination_by text.length
  decreasing_by
    have hless := readAssignment_length _hread
    have hdrop := dropWhile_length isSpace text
    rw [_hbody] at hdrop
    omega

def conninfo (text : List Char) : Option (List Param) :=
  (readAssignments text).map fun reading => reading.assignments.map fun entry => entry.2.param

/-! ## Reading it part by part -/

theorem takeWhile_parts {p : Char → Bool} {front behind : List Char} (hfront : ∀ c ∈ front, p c = true)
    (hbehind : ∀ c, behind.head? = some c → p c = false) :
    (front ++ behind).takeWhile p = front ∧ (front ++ behind).dropWhile p = behind := by
  rw [List.takeWhile_append_of_pos hfront, List.dropWhile_append_of_pos hfront]
  cases behind with
  | nil => simp
  | cons c rest =>
    have hc := hbehind c rfl
    rw [List.takeWhile_cons_of_neg (by simp [hc]), List.dropWhile_cons_of_neg (by simp [hc])]
    simp

theorem head_dropWhile {p : Char → Bool} {text : List Char} {c : Char}
    (h : (text.dropWhile p).head? = some c) : p c = false := by
  have hhead := List.head?_dropWhile_not p text
  rw [h] at hhead
  simpa using hhead

/-- What an assignment consists of: a keyword, blanks, the sign, blanks, and the value. -/
structure Framed (key before after value : List Char) : Prop where
  key : ∀ c ∈ key, c ≠ '=' ∧ isSpace c = false
  before : ∀ c ∈ before, isSpace c = true
  after : ∀ c ∈ after, isSpace c = true
  value : ∀ c, value.head? = some c → isSpace c = false

def framed (key before after value : List Char) : List Char :=
  key ++ (before ++ '=' :: (after ++ value))

theorem readAssignment_framed {key before after value : List Char}
    (h : Framed key before after value) :
    readAssignment (framed key before after value) = (readValue value).map fun read =>
      (⟨key, before ++ '=' :: after, read.1, read.2.1, read.2.2.1⟩, read.2.2.2) := by
  have hkey := @takeWhile_parts (fun c => c ≠ '=' && !isSpace c) key
    (before ++ '=' :: (after ++ value)) (fun c hc => by simp [h.key c hc]) (by
      intro c hc
      cases before with
      | nil =>
        obtain rfl := Option.some.inj hc
        rfl
      | cons b before =>
        obtain rfl := Option.some.inj hc
        simp [h.before b List.mem_cons_self])
  have hbefore := @takeWhile_parts isSpace before ('=' :: (after ++ value)) h.before (by
      intro c hc
      obtain rfl := Option.some.inj hc
      rfl)
  have hafter := takeWhile_parts (p := isSpace) h.after h.value
  unfold readAssignment framed
  dsimp only
  rw [hkey.1, hkey.2, hbefore.1, hbefore.2]
  change (readValue ((after ++ value).dropWhile isSpace)).map (fun read =>
    (Assignment.mk key (before ++ '=' :: (after ++ value).takeWhile isSpace) read.1 read.2.1 read.2.2.1,
      read.2.2.2)) = _
  rw [hafter.1, hafter.2]

theorem readAssignment_parts {text rest : List Char} {a : Assignment}
    (h : readAssignment text = some (a, rest)) :
    ∃ before after value, text = framed a.key before after value ∧ Framed a.key before after value ∧
      a.sign = before ++ '=' :: after ∧ readValue value = some (a.quoted, a.written, a.value, rest) := by
  unfold readAssignment at h
  dsimp only at h
  split at h
  · next value hvalue =>
    obtain ⟨read, hread, heq⟩ := Option.map_eq_some_iff.1 h
    obtain ⟨rfl, rfl⟩ := Prod.mk.inj heq
    refine ⟨_, _, _, ?_, ⟨?_, ?_, ?_, ?_⟩, rfl, hread⟩
    · rw [framed, List.takeWhile_append_dropWhile, ← hvalue, List.takeWhile_append_dropWhile,
        List.takeWhile_append_dropWhile]
    · intro c hc
      have hmem := List.mem_takeWhile_imp hc
      simpa using hmem
    · exact fun c hc => List.mem_takeWhile_imp hc
    · exact fun c hc => List.mem_takeWhile_imp hc
    · exact fun c hc => head_dropWhile hc
  · cases h

/-! ## Reading a value again, with something else behind it -/

/-- Nothing, or a blank. -/
def Ends (rest : List Char) : Prop := ∀ c, rest.head? = some c → isSpace c = true

theorem ends_nil : Ends [] := by
  intro c h
  cases h

theorem readQuoted_parts {text written value rest : List Char}
    (h : readQuoted text = some (written, value, rest)) :
    text = written ++ '\'' :: rest ∧
      ∀ rest', readQuoted (written ++ '\'' :: rest') = some (written, value, rest') := by
  induction text using readQuoted.induct generalizing written value with
  | case1 => cases h
  | case2 behind =>
    obtain ⟨rfl, heq⟩ := Prod.mk.inj (Option.some.inj h)
    obtain ⟨rfl, rfl⟩ := Prod.mk.inj heq
    exact ⟨rfl, fun _ => rfl⟩
  | case3 => cases h
  | case4 c behind ih =>
    rw [readQuoted] at h
    obtain ⟨⟨w, v, r⟩, hinner, heq⟩ := Option.map_eq_some_iff.1 h
    obtain ⟨rfl, hbehind⟩ := Prod.mk.inj heq
    obtain ⟨rfl, rfl⟩ := Prod.mk.inj hbehind
    obtain ⟨htext, hagain⟩ := ih hinner
    refine ⟨by rw [htext]; rfl, fun rest' => ?_⟩
    rw [List.cons_append, List.cons_append, readQuoted, hagain]
    rfl
  | case5 c behind hquote hlone hescape ih =>
    rw [readQuoted] at h
    · obtain ⟨⟨w, v, r⟩, hinner, heq⟩ := Option.map_eq_some_iff.1 h
      obtain ⟨rfl, hbehind⟩ := Prod.mk.inj heq
      obtain ⟨rfl, rfl⟩ := Prod.mk.inj hbehind
      obtain ⟨htext, hagain⟩ := ih hinner
      refine ⟨by rw [htext]; rfl, fun rest' => ?_⟩
      have hc : c ≠ '\\' := by
        rintro rfl
        cases behind with
        | nil => exact hlone rfl rfl
        | cons d more => exact hescape d more rfl rfl
      rw [List.cons_append, readQuoted, hagain]
      · rfl
      · exact hquote
      · exact fun hback => absurd hback hc
      · exact fun _ _ hback => absurd hback hc
    · exact hquote
    · exact hlone
    · exact hescape

theorem readBare_parts {text written value rest : List Char}
    (h : readBare text = (written, value, rest)) :
    text = written ++ rest ∧ Ends rest ∧
      ∀ rest', Ends rest' → (rest = [] → rest' = []) →
        readBare (written ++ rest') = (written, value, rest') := by
  have hends : ∀ rest', Ends rest' → readBare rest' = ([], [], rest') := by
    intro rest' hrest'
    cases rest' with
    | nil => rfl
    | cons c more =>
      have hc := hrest' c rfl
      have hback : c ≠ '\\' := by
        rintro rfl
        cases hc
      rw [readBare, if_pos hc]
      · exact fun h => absurd h hback
      · exact fun _ _ h => absurd h hback
  induction text using readBare.induct generalizing written value with
  | case1 =>
    obtain ⟨rfl, heq⟩ := Prod.mk.inj h
    obtain ⟨rfl, rfl⟩ := Prod.mk.inj heq
    exact ⟨rfl, ends_nil, fun rest' hrest' _ => hends rest' hrest'⟩
  | case2 =>
    obtain ⟨rfl, heq⟩ := Prod.mk.inj h
    obtain ⟨rfl, rfl⟩ := Prod.mk.inj heq
    refine ⟨rfl, ends_nil, fun rest' _ hnone => ?_⟩
    rw [hnone rfl]
    rfl
  | case3 c behind ih =>
    rw [readBare] at h
    obtain ⟨rfl, heq⟩ := Prod.mk.inj h
    obtain ⟨rfl, rfl⟩ := Prod.mk.inj heq
    obtain ⟨htext, hrest, hagain⟩ := ih rfl
    refine ⟨by rw [List.cons_append, List.cons_append, ← htext], hrest, fun rest' hrest' hnone => ?_⟩
    rw [List.cons_append, List.cons_append, readBare, hagain rest' hrest' hnone]
  | case4 c behind hlone hescape hspace =>
    rw [readBare, if_pos hspace] at h
    · obtain ⟨rfl, heq⟩ := Prod.mk.inj h
      obtain ⟨rfl, rfl⟩ := Prod.mk.inj heq
      refine ⟨rfl, ?_, fun rest' hrest' _ => hends rest' hrest'⟩
      intro d hd
      obtain rfl := Option.some.inj hd
      exact hspace
    · exact hlone
    · exact hescape
  | case5 c behind hlone hescape hspace ih =>
    rw [readBare, if_neg hspace] at h
    · obtain ⟨rfl, heq⟩ := Prod.mk.inj h
      obtain ⟨rfl, rfl⟩ := Prod.mk.inj heq
      obtain ⟨htext, hrest, hagain⟩ := ih rfl
      have hc : c ≠ '\\' := by
        rintro rfl
        cases behind with
        | nil => exact hlone rfl rfl
        | cons d more => exact hescape d more rfl rfl
      refine ⟨by rw [List.cons_append, ← htext], hrest, fun rest' hrest' hnone => ?_⟩
      rw [List.cons_append, readBare, if_neg hspace, hagain rest' hrest' hnone]
      · exact fun hback => absurd hback hc
      · exact fun _ _ hback => absurd hback hc
    · exact hlone
    · exact hescape

theorem readValue_parts {text written value rest : List Char} {quoted : Bool}
    (h : readValue text = some (quoted, written, value, rest)) :
    text = (if quoted then '\'' :: written ++ ['\''] else written) ++ rest ∧
      (quoted = false → Ends rest) ∧
      ∀ rest', Ends rest' → (rest = [] → rest' = []) →
        readValue ((if quoted then '\'' :: written ++ ['\''] else written) ++ rest') =
          some (quoted, written, value, rest') := by
  unfold readValue at h
  split at h
  · next inner =>
    obtain ⟨read, hread, heq⟩ := Option.map_eq_some_iff.1 h
    obtain ⟨rfl, rfl⟩ := Prod.mk.inj heq
    obtain ⟨hinner, hagain⟩ := readQuoted_parts hread
    refine ⟨?_, fun h => absurd h.symm Bool.false_ne_true, fun rest' _ _ => ?_⟩
    · rw [hinner]
      simp
    · rw [if_pos rfl, List.cons_append, List.cons_append, List.append_assoc]
      change (readQuoted (_ ++ '\'' :: rest')).map _ = _
      rw [hagain rest']
      rfl
  · next hbare =>
    have heq := Option.some.inj h
    obtain ⟨rfl, hread⟩ := Prod.mk.inj heq
    obtain ⟨htext, hends, hagain⟩ := readBare_parts hread
    refine ⟨htext, fun _ => hends, fun rest' hrest' hnone => ?_⟩
    have hstart : ∀ inner, written ++ rest' ≠ '\'' :: inner := by
      intro inner heq
      cases written with
      | nil =>
        have hquote := hrest' '\'' (by rw [← List.nil_append rest', heq]; rfl)
        cases hquote
      | cons c more =>
        obtain ⟨rfl, -⟩ := List.cons.inj heq
        exact hbare (more ++ rest) (by rw [htext]; rfl)
    rw [if_neg Bool.false_ne_true, readValue]
    · rw [hagain rest' hrest' hnone]
    · exact hstart

/-- An assignment is read again from its text, whatever is behind it. -/
theorem readAssignment_again {text rest rest' : List Char} {a : Assignment}
    (h : readAssignment text = some (a, rest)) (hends : Ends rest') (hnone : rest = [] → rest' = []) :
    readAssignment (a.span ++ rest') = some (a, rest') := by
  obtain ⟨before, after, value, -, hframed, hsign, hvalue⟩ := readAssignment_parts h
  obtain ⟨htext, hstop, hagain⟩ := readValue_parts hvalue
  have hvalue' := hagain rest' hends hnone
  have hspan : a.span ++ rest' = framed a.key before after
      ((if a.quoted then '\'' :: a.written ++ ['\''] else a.written) ++ rest') := by
    simp [Assignment.span, framed, hsign]
  have hframed' : Framed a.key before after
      ((if a.quoted then '\'' :: a.written ++ ['\''] else a.written) ++ rest') := by
    refine ⟨hframed.key, hframed.before, hframed.after, ?_⟩
    intro c hc
    cases hquoted : a.quoted with
    | true =>
      rw [hquoted] at hc
      obtain rfl := Option.some.inj hc
      rfl
    | false =>
      rw [hquoted] at hc htext
      rw [if_neg Bool.false_ne_true] at hc htext
      cases hwritten : a.written with
      | cons d more =>
        rw [hwritten] at hc htext
        exact hframed.value c (by rw [htext]; exact hc)
      | nil =>
        -- no value at all is the end of the text
        rw [hwritten, List.nil_append] at hc htext
        cases rest with
        | nil =>
          rw [hnone rfl] at hc
          cases hc
        | cons d more =>
          have hspace := hstop hquoted d rfl
          rw [hframed.value d (by rw [htext]; rfl)] at hspace
          cases hspace
  rw [hspan, readAssignment_framed hframed', hvalue', ← hsign]
  rfl

end PgConn
