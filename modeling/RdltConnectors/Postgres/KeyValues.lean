import RdltConnectors.Postgres.Extraction

/-!
# The key=value form

Where the scan of a connection string sees the blanks and the values that the grammar sees, its
tokens are the assignments of the grammar, and what is kept of them is read again as it was.
-/
namespace PgConn

/-! ## What the scan makes of an assignment -/

/-- The value that the scan takes. -/
def Assignment.raw (a : Assignment) : List Char :=
  if a.quoted then replaceQuotes a.written else a.written

/-- The scan sees where it starts and where it ends: no blank is a vertical tab, and none is escaped
outside of quotes. -/
structure Assignment.Tame (a : Assignment) : Prop where
  sign : '\x0b' ∉ a.sign
  bare : a.quoted = false → ∀ c ∈ a.written, isAsciiWhitespace c = false

structure Reading.Tame (r : Reading) : Prop where
  lead : ∀ entry ∈ r.assignments, '\x0b' ∉ entry.1
  entry : ∀ entry ∈ r.assignments, entry.2.Tame
  trailing : '\x0b' ∉ r.trailing

theorem isAsciiWhitespace_eq (c : Char) :
    isAsciiWhitespace c = (isSpace c && decide (c ≠ '\x0b')) := by
  unfold isAsciiWhitespace isSpace
  by_cases h : c = '\x0b'
  · subst h
    rfl
  · simp [h]

theorem isAsciiWhitespace_of_isSpace {c : Char} (h : isSpace c = true) (hc : c ≠ '\x0b') :
    isAsciiWhitespace c = true := by
  rw [isAsciiWhitespace_eq, h, decide_eq_true hc]
  rfl

theorem not_isAsciiWhitespace {c : Char} (h : isSpace c = false) : isAsciiWhitespace c = false := by
  rw [isAsciiWhitespace_eq, h]
  rfl

theorem scanQuoted_read {text written value rest : List Char}
    (h : readQuoted text = some (written, value, rest)) : scanQuoted text = (written, rest) := by
  induction text using readQuoted.induct generalizing written value with
  | case1 => cases h
  | case2 behind =>
    obtain ⟨rfl, heq⟩ := Prod.mk.inj (Option.some.inj h)
    obtain ⟨rfl, rfl⟩ := Prod.mk.inj heq
    rfl
  | case3 => cases h
  | case4 c behind ih =>
    rw [readQuoted] at h
    obtain ⟨⟨w, v, r⟩, hinner, heq⟩ := Option.map_eq_some_iff.1 h
    obtain ⟨rfl, hbehind⟩ := Prod.mk.inj heq
    obtain ⟨rfl, rfl⟩ := Prod.mk.inj hbehind
    rw [scanQuoted, ih hinner]
  | case5 c behind hquote hlone hescape ih =>
    rw [readQuoted] at h
    · obtain ⟨⟨w, v, r⟩, hinner, heq⟩ := Option.map_eq_some_iff.1 h
      obtain ⟨rfl, hbehind⟩ := Prod.mk.inj heq
      obtain ⟨rfl, rfl⟩ := Prod.mk.inj hbehind
      rw [scanQuoted, ih hinner]
      · exact hquote
      · exact hescape
    · exact hquote
    · exact hlone
    · exact hescape

theorem scanValue_read {value written meaning rest : List Char} {quoted : Bool}
    (h : readValue value = some (quoted, written, meaning, rest))
    (hbare : quoted = false → ∀ c ∈ written, isAsciiWhitespace c = false)
    (hrest : ∀ c, rest.head? = some c → c ≠ '\x0b') :
    scanValue value = (if quoted then replaceQuotes written else written, rest) := by
  have hparts := readValue_parts h
  unfold readValue at h
  split at h
  · next inner =>
    obtain ⟨read, hread, heq⟩ := Option.map_eq_some_iff.1 h
    obtain ⟨rfl, rfl⟩ := Prod.mk.inj heq
    rw [scanValue, scanQuoted_read hread]
    rfl
  · next hstart =>
    obtain ⟨rfl, -⟩ := Prod.mk.inj (Option.some.inj h)
    obtain ⟨htext, hends, -⟩ := hparts
    have hspan := @takeWhile_parts (fun c => !isAsciiWhitespace c) written rest
      (fun c hc => by rw [hbare rfl c hc]; rfl) fun c hc => by
        rw [isAsciiWhitespace_of_isSpace (hends rfl c hc) (hrest c hc)]
        rfl
    rw [if_neg Bool.false_ne_true] at htext
    rw [scanValue, List.span_eq_takeWhile_dropWhile, htext, hspan.1, hspan.2]
    · rfl
    · exact hstart

/-- The scan reads what the grammar reads, up to the value. -/
theorem scanToken_read {text rest : List Char} {a : Assignment}
    (h : readAssignment text = some (a, rest)) (htame : a.Tame)
    (hrest : ∀ c, rest.head? = some c → c ≠ '\x0b') :
    scanToken text = (a.key, some a.raw, rest) := by
  obtain ⟨before, after, value, rfl, hframed, hsign, hvalue⟩ := readAssignment_parts h
  have hbefore : ∀ c ∈ before, isAsciiWhitespace c = true := fun c hc =>
    isAsciiWhitespace_of_isSpace (hframed.before c hc) fun heq => htame.sign (by
      rw [hsign, ← heq]
      exact List.mem_append_left _ hc)
  have hafter : ∀ c ∈ after, isAsciiWhitespace c = true := fun c hc =>
    isAsciiWhitespace_of_isSpace (hframed.after c hc) fun heq => htame.sign (by
      rw [hsign, ← heq]
      exact List.mem_append_right _ (List.mem_cons_of_mem _ hc))
  have hkey := @takeWhile_parts (fun c => c ≠ '=' && !isAsciiWhitespace c) a.key
    (before ++ '=' :: (after ++ value))
    (fun c hc => by simp [(hframed.key c hc).1, not_isAsciiWhitespace (hframed.key c hc).2]) (by
      intro c hc
      cases before with
      | nil =>
        obtain rfl := Option.some.inj hc
        rfl
      | cons b before =>
        obtain rfl := Option.some.inj hc
        simp [hbefore b List.mem_cons_self])
  have hblank := @takeWhile_parts isAsciiWhitespace before ('=' :: (after ++ value)) hbefore (by
    intro c hc
    obtain rfl := Option.some.inj hc
    rfl)
  have hbehind := takeWhile_parts hafter fun c hc => not_isAsciiWhitespace (hframed.value c hc)
  have hread := scanValue_read hvalue htame.bare hrest
  unfold scanToken framed
  rw [List.span_eq_takeWhile_dropWhile, hkey.1, hkey.2]
  dsimp only
  rw [hblank.2]
  change (a.key, some (scanValue ((after ++ value).dropWhile isAsciiWhitespace)).1,
    (scanValue ((after ++ value).dropWhile isAsciiWhitespace)).2) = _
  rw [hbehind.2, hread]
  rfl

/-! ## The tokens of a text -/

theorem readAssignments_nil {text : List Char} (h : text.dropWhile isSpace = []) :
    readAssignments text = some ⟨[], text⟩ := by
  rw [readAssignments]
  split
  · rfl
  · next c tail hbody =>
    rw [h] at hbody
    cases hbody

theorem readAssignments_cons {text rest : List Char} {c : Char} {tail : List Char} {a : Assignment}
    (h : text.dropWhile isSpace = c :: tail) (hread : readAssignment (c :: tail) = some (a, rest)) :
    readAssignments text = (readAssignments rest).map fun reading =>
      { reading with assignments := (text.takeWhile isSpace, a) :: reading.assignments } := by
  rw [readAssignments]
  split
  · next hbody =>
    rw [h] at hbody
    cases hbody
  · next c' tail' hbody =>
    rw [h] at hbody
    obtain ⟨rfl, rfl⟩ := List.cons.inj hbody
    split
    · next hnone =>
      rw [hread] at hnone
      cases hnone
    · next a' rest' hsome =>
      rw [hread] at hsome
      obtain ⟨rfl, rfl⟩ := Prod.mk.inj (Option.some.inj hsome)
      rfl

/-- Nothing but blanks, or an assignment and what is read behind it. -/
theorem readAssignments_cases {text : List Char} {r : Reading} (h : readAssignments text = some r) :
    (text.dropWhile isSpace = [] ∧ r = ⟨[], text⟩) ∨
    ∃ c tail a rest inner, text.dropWhile isSpace = c :: tail ∧
      readAssignment (c :: tail) = some (a, rest) ∧ readAssignments rest = some inner ∧
      r = { inner with assignments := (text.takeWhile isSpace, a) :: inner.assignments } := by
  cases hbody : text.dropWhile isSpace with
  | nil =>
    rw [readAssignments_nil hbody] at h
    exact .inl ⟨rfl, (Option.some.inj h).symm⟩
  | cons c tail =>
    cases hread : readAssignment (c :: tail) with
    | none =>
      rw [readAssignments] at h
      split at h
      · next hnil =>
        rw [hbody] at hnil
        cases hnil
      · next c' tail' hcons =>
        rw [hbody] at hcons
        obtain ⟨rfl, rfl⟩ := List.cons.inj hcons
        split at h
        · cases h
        · next hsome =>
          rw [hread] at hsome
          cases hsome
    | some read =>
      obtain ⟨a, rest⟩ := read
      rw [readAssignments_cons hbody hread] at h
      obtain ⟨inner, hinner, rfl⟩ := Option.map_eq_some_iff.1 h
      exact .inr ⟨c, tail, a, rest, inner, rfl, hread, hinner, rfl⟩

theorem dropWhile_blank {text : List Char} (h : '\x0b' ∉ text.takeWhile isSpace) :
    text.dropWhile isAsciiWhitespace = text.dropWhile isSpace := by
  have hparts := @takeWhile_parts isAsciiWhitespace (text.takeWhile isSpace) (text.dropWhile isSpace)
    (fun c hc => isAsciiWhitespace_of_isSpace (List.mem_takeWhile_imp hc) fun heq => h (heq ▸ hc))
    fun c hc => not_isAsciiWhitespace (head_dropWhile hc)
  rw [List.takeWhile_append_dropWhile] at hparts
  exact hparts.2

theorem Reading.Tame.blanks {text : List Char} {r : Reading} (h : readAssignments text = some r)
    (htame : r.Tame) : '\x0b' ∉ text.takeWhile isSpace := by
  obtain ⟨-, rfl⟩ | ⟨c, tail, a, rest, inner, -, -, -, rfl⟩ := readAssignments_cases h
  · exact fun hmem => htame.trailing ((List.takeWhile_sublist _).subset hmem)
  · exact htame.lead _ List.mem_cons_self

/-- No text that is read starts with a vertical tab. -/
theorem Reading.Tame.head {text : List Char} {r : Reading} (h : readAssignments text = some r)
    (htame : r.Tame) {c : Char} (hc : text.head? = some c) : c ≠ '\x0b' := by
  rintro rfl
  apply htame.blanks h
  cases text with
  | nil => cases hc
  | cons d rest =>
    obtain rfl := Option.some.inj hc
    rw [List.takeWhile_cons_of_pos (by rfl)]
    exact List.mem_cons_self

theorem readAssignment_text {text rest : List Char} {a : Assignment}
    (h : readAssignment text = some (a, rest)) : text = a.span ++ rest := by
  obtain ⟨before, after, value, rfl, -, hsign, hvalue⟩ := readAssignment_parts h
  obtain ⟨htext, -, -⟩ := readValue_parts hvalue
  simp only [framed, Assignment.span, hsign, htext, List.append_assoc, List.cons_append]

theorem tokens_cons {text : List Char} {c : Char} {tail : List Char}
    (h : text.dropWhile isAsciiWhitespace = c :: tail) :
    tokens text = ⟨(c :: tail).take ((c :: tail).length - (scanToken (c :: tail)).2.2.length),
      (scanToken (c :: tail)).1, (scanToken (c :: tail)).2.1⟩ :: tokens (scanToken (c :: tail)).2.2 := by
  rw [tokens]
  split
  · next hnil =>
    rw [h] at hnil
    cases hnil
  · next c' tail' hcons =>
    rw [h] at hcons
    obtain ⟨rfl, rfl⟩ := List.cons.inj hcons
    rfl

theorem tokens_nil {text : List Char} (h : text.dropWhile isAsciiWhitespace = []) :
    tokens text = [] := by
  rw [tokens]
  split
  · rfl
  · next c tail hcons =>
    rw [h] at hcons
    cases hcons

/-- The tokens are the assignments. -/
theorem tokens_read {text : List Char} {r : Reading} (h : readAssignments text = some r)
    (htame : r.Tame) : tokens text =
      r.assignments.map fun entry => ⟨entry.2.span, entry.2.key, some entry.2.raw⟩ := by
  induction hn : text.length using Nat.strong_induction_on generalizing text r with
  | _ n ih =>
    have hblank := dropWhile_blank (htame.blanks h)
    obtain ⟨hbody, rfl⟩ | ⟨c, tail, a, rest, inner, hbody, hread, hinner, rfl⟩ :=
      readAssignments_cases h
    · rw [tokens_nil (hblank.trans hbody)]
      rfl
    · have htame' : inner.Tame :=
        ⟨fun entry he => htame.lead entry (List.mem_cons_of_mem _ he),
          fun entry he => htame.entry entry (List.mem_cons_of_mem _ he), htame.trailing⟩
      have hscan := scanToken_read hread (htame.entry _ List.mem_cons_self)
        fun c hc => htame'.head hinner hc
      have hless : rest.length < n := by
        have hdrop := dropWhile_length isSpace text
        have hrest := readAssignment_length hread
        rw [hbody] at hdrop
        omega
      have htext := readAssignment_text hread
      have hspan : (c :: tail).take ((c :: tail).length - rest.length) = a.span := by
        rw [htext, List.length_append, Nat.add_sub_cancel, List.take_left]
      rw [tokens_cons (hblank.trans hbody), hscan]
      dsimp only
      rw [ih _ hless hinner htame' rfl, hspan]
      rfl

/-! ## What is kept is read again -/

/-- An assignment that is read again where it stands last. -/
structure Rereads (a : Assignment) : Prop where
  starts : (a.span.head?).any isSpace = false ∧ a.span ≠ []
  alone : readAssignment a.span = some (a, [])

/-- It is read again whatever is behind it. -/
def Anywhere (a : Assignment) : Prop :=
  ∀ rest, Ends rest → readAssignment (a.span ++ rest) = some (a, rest)

theorem rereads_of_read {text : List Char} {c : Char} {tail rest : List Char} {a : Assignment}
    (hbody : text.dropWhile isSpace = c :: tail) (h : readAssignment (c :: tail) = some (a, rest)) :
    Rereads a := by
  have htext := readAssignment_text h
  have hless := readAssignment_length h
  have hhead : (text.dropWhile isSpace).head? = some c := by
    rw [hbody]
    rfl
  have hc : isSpace c = false := head_dropWhile hhead
  refine ⟨?_, ?_⟩
  · cases hspan : a.span with
    | nil =>
      rw [htext, hspan] at hless
      exact absurd hless (Nat.lt_irrefl _)
    | cons d more =>
      rw [hspan] at htext
      obtain ⟨rfl, -⟩ := List.cons.inj htext
      exact ⟨hc, List.cons_ne_nil _ _⟩
  · have hagain := readAssignment_again h ends_nil fun _ => rfl
    rwa [List.append_nil] at hagain

theorem rereads_of_reading {text : List Char} {r : Reading} (h : readAssignments text = some r) :
    (∀ entry ∈ r.assignments, Rereads entry.2) ∧
      r.assignments.Pairwise fun entry _ => Anywhere entry.2 := by
  induction hn : text.length using Nat.strong_induction_on generalizing text r with
  | _ n ih =>
    obtain ⟨hbody, rfl⟩ | ⟨c, tail, a, rest, inner, hbody, hread, hinner, rfl⟩ :=
      readAssignments_cases h
    · exact ⟨fun entry he => absurd he List.not_mem_nil, .nil⟩
    · have hless : rest.length < n := by
        have hdrop := dropWhile_length isSpace text
        have hrest := readAssignment_length hread
        rw [hbody] at hdrop
        omega
      obtain ⟨hall, hpairs⟩ := ih _ hless hinner rfl
      refine ⟨List.forall_mem_cons.2 ⟨rereads_of_read hbody hread, hall⟩, .cons ?_ hpairs⟩
      intro other hother more hmore
      apply readAssignment_again hread hmore
      rintro rfl
      rw [readAssignments_nil rfl] at hinner
      obtain rfl := Option.some.inj hinner
      cases hother

theorem conninfo_cons {lead rest : List Char} {a : Assignment} (hlead : ∀ c ∈ lead, isSpace c = true)
    (ha : Rereads a) (hread : readAssignment (a.span ++ rest) = some (a, rest)) :
    conninfo (lead ++ (a.span ++ rest)) = (conninfo rest).map (a.param :: ·) := by
  have hparts := @takeWhile_parts isSpace lead (a.span ++ rest) hlead (by
    obtain ⟨hhead, hne⟩ := ha.starts
    intro c hc
    cases hspan : a.span with
    | nil => exact absurd hspan hne
    | cons d more =>
      rw [hspan] at hc hhead
      obtain rfl := Option.some.inj hc
      exact hhead)
  cases hbody : a.span ++ rest with
  | nil =>
    have hnil := (List.append_eq_nil_iff.1 hbody).1
    exact absurd hnil ha.starts.2
  | cons c tail =>
    rw [hbody] at hparts hread
    rw [conninfo, readAssignments_cons hparts.2 hread, conninfo, Option.map_map, Option.map_map]
    rfl

theorem conninfo_nil : conninfo [] = some [] := by
  rw [conninfo, readAssignments_nil rfl]
  rfl

/-- Assignments that are joined by blanks are read as they are. -/
theorem conninfo_joined {kept : List Assignment} (hall : ∀ a ∈ kept, Rereads a)
    (hpairs : kept.Pairwise fun a _ => Anywhere a) (lead : List Char)
    (hlead : ∀ c ∈ lead, isSpace c = true) :
    conninfo (lead ++ [' '].intercalate (kept.map Assignment.span)) =
      some (kept.map Assignment.param) := by
  induction kept generalizing lead with
  | nil =>
    have hdrop : (lead ++ []).dropWhile isSpace = [] := by
      rw [List.append_nil]
      exact List.dropWhile_eq_nil_iff.2 hlead
    rw [List.map_nil, List.intercalate_nil, conninfo, readAssignments_nil hdrop]
    rfl
  | cons a kept ih =>
    rw [List.forall_mem_cons] at hall
    obtain ⟨hbefore, hpairs⟩ := List.pairwise_cons.1 hpairs
    cases kept with
    | nil =>
      have halone := hall.1.alone
      rw [← List.append_nil a.span] at halone
      rw [List.map_cons, List.map_nil, List.intercalate_singleton, ← List.append_nil a.span,
        conninfo_cons hlead hall.1 halone, conninfo_nil]
      rfl
    | cons b more =>
      have hblank : ∀ c ∈ [' '], isSpace c = true := by
        intro c hc
        rw [List.mem_singleton.1 hc]
        rfl
      have hends : Ends ([' '] ++ [' '].intercalate ((b :: more).map Assignment.span)) := by
        intro c hc
        obtain rfl := Option.some.inj hc
        rfl
      rw [List.map_cons, List.map_cons, List.intercalate_cons_cons, List.append_assoc,
        ← List.map_cons, conninfo_cons hlead hall.1 (hbefore b List.mem_cons_self _ hends),
        ih hall.2 hpairs [' '] hblank]
      rfl

/-! ## Values that are written plainly -/

/-- A backslash stands only before a quote. -/
def plain : List Char → Bool
  | [] => true
  | '\\' :: '\'' :: rest => plain rest
  | '\\' :: _ => false
  | _ :: rest => plain rest

/-- It is written without escapes, except of quotes in a quoted value. -/
def Assignment.Plain (a : Assignment) : Prop :=
  if a.quoted then plain a.written = true else '\\' ∉ a.written

instance (a : Assignment) : Decidable a.Plain := by
  unfold Assignment.Plain
  infer_instance

theorem replaceQuotes_plain {text written value rest : List Char}
    (h : readQuoted text = some (written, value, rest)) (hplain : plain written = true) :
    replaceQuotes written = value := by
  induction text using readQuoted.induct generalizing written value with
  | case1 => cases h
  | case2 behind =>
    obtain ⟨rfl, heq⟩ := Prod.mk.inj (Option.some.inj h)
    obtain ⟨rfl, rfl⟩ := Prod.mk.inj heq
    rfl
  | case3 => cases h
  | case4 c behind ih =>
    rw [readQuoted] at h
    obtain ⟨⟨w, v, r⟩, hinner, heq⟩ := Option.map_eq_some_iff.1 h
    obtain ⟨rfl, hbehind⟩ := Prod.mk.inj heq
    obtain ⟨rfl, rfl⟩ := Prod.mk.inj hbehind
    by_cases hc : c = '\''
    · subst hc
      rw [plain] at hplain
      rw [replaceQuotes, ih hinner hplain]
    · rw [plain] at hplain
      · cases hplain
      · intro more hmore
        exact hc (List.cons.inj hmore).1
  | case5 c behind hquote hlone hescape ih =>
    rw [readQuoted] at h
    · obtain ⟨⟨w, v, r⟩, hinner, heq⟩ := Option.map_eq_some_iff.1 h
      obtain ⟨rfl, hbehind⟩ := Prod.mk.inj heq
      obtain ⟨rfl, rfl⟩ := Prod.mk.inj hbehind
      have hc : c ≠ '\\' := by
        rintro rfl
        cases behind with
        | nil => exact hlone rfl rfl
        | cons d more => exact hescape d more rfl rfl
      rw [plain] at hplain
      · rw [replaceQuotes, ih hinner hplain]
        exact fun _ hback => absurd hback hc
      · exact fun _ hback => absurd hback hc
      · exact hc
    · exact hquote
    · exact hlone
    · exact hescape

theorem bare_plain {text written value rest : List Char}
    (h : readBare text = (written, value, rest)) (hplain : '\\' ∉ written) : written = value := by
  induction text using readBare.induct generalizing written value with
  | case1 =>
    obtain ⟨rfl, heq⟩ := Prod.mk.inj h
    exact (Prod.mk.inj heq).1
  | case2 =>
    obtain ⟨rfl, -⟩ := Prod.mk.inj h
    exact absurd List.mem_cons_self hplain
  | case3 c behind ih =>
    rw [readBare] at h
    obtain ⟨rfl, -⟩ := Prod.mk.inj h
    exact absurd List.mem_cons_self hplain
  | case4 c behind hlone hescape hspace =>
    rw [readBare, if_pos hspace] at h
    · obtain ⟨rfl, heq⟩ := Prod.mk.inj h
      exact (Prod.mk.inj heq).1
    · exact hlone
    · exact hescape
  | case5 c behind hlone hescape hspace ih =>
    rw [readBare, if_neg hspace] at h
    · obtain ⟨rfl, heq⟩ := Prod.mk.inj h
      obtain ⟨rfl, rfl⟩ := Prod.mk.inj heq
      rw [ih rfl fun hmem => hplain (List.mem_cons_of_mem _ hmem)]
    · exact hlone
    · exact hescape

/-- The scan takes a plain value as the grammar does. -/
theorem Rereads.raw_eq {a : Assignment} (h : Rereads a) (hplain : a.Plain) : a.raw = a.value := by
  obtain ⟨_, _, value, _, _, _, hvalue⟩ := readAssignment_parts h.alone
  unfold readValue at hvalue
  unfold Assignment.Plain at hplain
  unfold Assignment.raw
  split at hvalue
  · obtain ⟨read, hread, heq⟩ := Option.map_eq_some_iff.1 hvalue
    obtain ⟨hquoted, rfl⟩ := Prod.mk.inj heq
    rw [← hquoted, if_pos rfl] at hplain
    rw [← hquoted, if_pos rfl]
    exact replaceQuotes_plain hread hplain
  · obtain ⟨hquoted, hread⟩ := Prod.mk.inj (Option.some.inj hvalue)
    rw [← hquoted, if_neg Bool.false_ne_true] at hplain
    rw [← hquoted, if_neg Bool.false_ne_true]
    exact bare_plain hread hplain

theorem plain_of_replaceQuotes {written : List Char} (h : '\\' ∉ replaceQuotes written) :
    plain written = true := by
  induction written using plain.induct with
  | case1 => rfl
  | case2 rest ih =>
    rw [replaceQuotes] at h
    exact ih fun hmem => h (List.mem_cons_of_mem _ hmem)
  | case3 rest hquote =>
    rw [replaceQuotes] at h
    · exact absurd List.mem_cons_self h
    · exact fun more _ hmore => hquote more hmore
  | case4 c rest hquote hback ih =>
    rw [replaceQuotes] at h
    · rw [plain]
      · exact ih fun hmem => h (List.mem_cons_of_mem _ hmem)
      · exact hquote
      · exact hback
    · exact hquote

theorem plain_of_raw {a : Assignment} (h : '\\' ∉ a.raw) : a.Plain := by
  unfold Assignment.raw at h
  unfold Assignment.Plain
  cases hquoted : a.quoted with
  | true =>
    rw [hquoted, if_pos rfl] at h
    exact plain_of_replaceQuotes h
  | false =>
    rw [hquoted, if_neg Bool.false_ne_true] at h
    exact h

/-! ## What is taken out -/

/-- The pair that the scan reads. -/
def Assignment.pair (a : Assignment) : String × String := (String.ofList a.key, String.ofList a.raw)

theorem bytes_ofList (text : List Char) : bytes (String.ofList text) = utf8 text := by
  rw [bytes, String.toList_ofList]

theorem no_backslash_of_verify {value : String} (h : (verifyModeOf value).isSome = true) :
    '\\' ∉ value.toList := by
  unfold verifyModeOf at h
  split at h
  · next heq =>
    rw [heq]
    decide
  · split at h
    · next heq =>
      rw [heq]
      decide
    · cases h

/-- A TLS parameter that is written plainly is read as the grammar reads it. -/
theorem Rereads.reads {a : Assignment} (h : Rereads a) (hplain : isTls a.param = true → a.Plain) :
    Reads a.pair a.param := by
  have hpair (hraw : a.raw = a.value) : (bytes a.pair.1, bytes a.pair.2) = a.param := by
    rw [Assignment.pair, bytes_ofList, bytes_ofList, hraw]
    rfl
  refine ⟨fun htls => hpair (h.raw_eq (hplain htls)), fun hcaptured => ?_⟩
  rw [isCaptured, Bool.or_eq_true, Bool.and_eq_true] at hcaptured
  obtain hpem | ⟨-, hverify⟩ := hcaptured
  · apply hpair
    apply h.raw_eq
    apply hplain
    have hmem : a.param.1 ∈ pemKeys.map bytes := by
      rw [Assignment.param, ← bytes_ofList]
      exact List.mem_map_of_mem (of_decide_eq_true hpem)
    rw [isTls, decide_eq_true hmem]
    rfl
  · apply hpair
    apply h.raw_eq
    apply plain_of_raw
    have hback := no_backslash_of_verify hverify
    rwa [Assignment.pair, String.toList_ofList] at hback

/-- The assignments of a text, one after another: those that are ours are captured, the others are
kept. -/
theorem foldl_takeToken (found : List Assignment) {e : Extracted} {done : List (String × String)}
    (kept : List (List Char)) (h : Caught e done) (hescape : e.malformedEscape = none) :
    ∃ e', (found.map fun a => (⟨a.span, a.key, some a.raw⟩ : Token)).foldl takeToken (e, kept) =
        (e', kept ++ (found.filter fun a => !isCaptured a.pair).map Assignment.span) ∧
      Caught e' (done ++ found.map Assignment.pair) ∧ e'.malformedEscape = none := by
  induction found generalizing e done kept with
  | nil => exact ⟨e, by simp, by simpa using h, hescape⟩
  | cons a found ih =>
    rw [List.map_cons, List.foldl_cons]
    obtain ⟨hcaptured, e', hcapture, -, -, -, -, hsame⟩ | ⟨hcaptured, hcapture, -⟩ :=
      capture_cases e (String.ofList a.key) (String.ofList a.raw)
    · obtain ⟨e'', hfold, hcaught, hnone⟩ := ih kept (h.capture hcapture) (hsame.trans hescape)
      refine ⟨e'', ?_, ?_, hnone⟩
      · have hstep : takeToken (e, kept) ⟨a.span, a.key, some a.raw⟩ = (e', kept) := by
          rw [takeToken]
          dsimp only
          rw [hcapture]
        have hdrop : (!isCaptured a.pair) = false := by rw [Assignment.pair, hcaptured]; rfl
        rw [hstep, hfold, List.filter_cons, if_neg (by rw [hdrop]; exact Bool.false_ne_true)]
      · rw [List.map_cons, List.append_cons]
        exact hcaught
    · obtain ⟨e'', hfold, hcaught, hnone⟩ := @ih
        { e with driverKeys := e.driverKeys ++ [String.ofList a.key] } _ (kept ++ [a.span])
        (h.keep hcapture ⟨rfl, rfl, rfl, rfl⟩) hescape
      refine ⟨e'', ?_, ?_, hnone⟩
      · have hstep : takeToken (e, kept) ⟨a.span, a.key, some a.raw⟩ =
            ({ e with driverKeys := e.driverKeys ++ [String.ofList a.key] }, kept ++ [a.span]) := by
          rw [takeToken]
          dsimp only
          rw [hcapture]
        have hkeep : (!isCaptured a.pair) = true := by rw [Assignment.pair, hcaptured]; rfl
        rw [hstep, hfold, List.filter_cons, if_pos hkeep, List.map_cons, List.append_assoc]
        rfl
      · rw [List.map_cons, List.append_cons]
        exact hcaught

/-- What is taken out of a text that the scan reads as the grammar does. -/
theorem extractFromKeyValues_read {text : List Char} {r : Reading}
    (h : readAssignments text = some r) (htame : r.Tame)
    (hplain : ∀ entry ∈ r.assignments, isTls entry.2.param = true → entry.2.Plain) :
    ∃ pairs, Caught (extractFromKeyValues text) pairs ∧
      List.Forall₂ Reads pairs (r.assignments.map fun entry => entry.2.param) ∧
      (extractFromKeyValues text).malformedEscape = none ∧
      (extractFromKeyValues text).remainder = [' '].intercalate
        (((r.assignments.map Prod.snd).filter fun a => !isTls a.param).map Assignment.span) ∧
      conninfo (extractFromKeyValues text).remainder =
        some ((r.assignments.map fun entry => entry.2.param).filter fun param => !isTls param) := by
  obtain ⟨hall, hpairs⟩ := rereads_of_reading h
  have hreads : ∀ entry ∈ r.assignments, Reads entry.2.pair entry.2.param :=
    fun entry he => (hall entry he).reads (hplain entry he)
  obtain ⟨e, hfold, hcaught, hnone⟩ := foldl_takeToken (r.assignments.map Prod.snd) [] caught_nil rfl
  have hextract : extractFromKeyValues text = { e with
      remainder := List.intercalate [' ']
        (((r.assignments.map Prod.snd).filter fun a => !isCaptured a.pair).map Assignment.span) } := by
    rw [extractFromKeyValues, tokens_read h htame]
    rw [List.map_map] at hfold
    exact congrArg (fun p : Extracted × List (List Char) =>
      { p.1 with remainder := List.intercalate [' '] p.2 }) hfold
  have hkept : ((r.assignments.map Prod.snd).filter fun a => !isCaptured a.pair) =
      (r.assignments.map Prod.snd).filter fun a => !isTls a.param := by
    apply List.filter_congr
    intro a ha
    obtain ⟨entry, he, rfl⟩ := List.mem_map.1 ha
    rw [(hreads entry he).isTls_eq]
  rw [hkept] at hextract
  have hjoined := @conninfo_joined ((r.assignments.map Prod.snd).filter fun a => !isTls a.param)
    (by
      intro a ha
      obtain ⟨entry, he, rfl⟩ := List.mem_map.1 (List.mem_filter.1 ha).1
      exact hall entry he)
    ((List.pairwise_map.2 hpairs).filter _) [] (fun c hc => absurd hc List.not_mem_nil)
  rw [hextract]
  refine ⟨_, ⟨hcaught.rootCert, hcaught.clientCert, hcaught.clientKey, hcaught.verifyMode⟩, ?_, hnone, rfl, ?_⟩
  · rw [List.nil_append, List.map_map, List.forall₂_map_left_iff, List.forall₂_map_right_iff]
    exact List.forall₂_same.2 hreads
  · rw [List.nil_append] at hjoined
    rw [hjoined, List.filter_map, List.filter_map, List.map_map]
    rfl

end PgConn
