import RdltConnectors.Rest.Paginate

/-!
# Link headers

Well-formed `Link` fields: members of a URI in angle brackets with parameters, whose
values are tokens or quoted strings. The scan ends the parameters of a member at the
first comma, quoted or not, and reads the first field alone.
-/
namespace Rest

/-- A quoted string is its characters, each with whether it is written as a pair. -/
inductive LinkValue where
  | token (text : List Char)
  | quoted (content : List (Bool × Char))
  deriving DecidableEq, Repr

def LinkValue.content : LinkValue → List Char
  | .token text => text
  | .quoted content => content.map (·.2)

def writePair : Bool × Char → List Char
  | (true, c) => ['\\', c]
  | (false, c) => [c]

def LinkValue.text : LinkValue → List Char
  | .token text => text
  | .quoted content => '"' :: content.flatMap writePair ++ ['"']

/-- Blanks may stand before and behind the semicolon, and on both sides of the equals sign. -/
structure LinkParam where
  lead : List Char
  gap : List Char
  name : List Char
  left : List Char
  right : List Char
  value : Option LinkValue
  deriving DecidableEq, Repr

def LinkParam.text (param : LinkParam) : List Char :=
  param.lead ++ ';' :: (param.gap ++ param.name ++
    match param.value with
    | some value => param.left ++ '=' :: (param.right ++ value.text)
    | none => [])

structure LinkMember where
  lead : List Char
  uri : List Char
  params : List LinkParam
  trail : List Char
  deriving DecidableEq, Repr

/-- What stands behind the URI. -/
def LinkMember.tail (member : LinkMember) : List Char :=
  member.params.flatMap LinkParam.text ++ member.trail

def LinkMember.text (member : LinkMember) : List Char :=
  member.lead ++ '<' :: (member.uri ++ '>' :: member.tail)

def lineText : List LinkMember → List Char
  | [] => []
  | [member] => member.text
  | member :: rest => member.text ++ ',' :: lineText rest

theorem lineText_cons (member next : LinkMember) (rest : List LinkMember) :
    lineText (member :: next :: rest) = member.text ++ ',' :: lineText (next :: rest) := rfl

/-! ## Well-formed fields -/

def linkBlank (c : Char) : Bool := c = ' ' || c = '\t'

/-- Visible ASCII without separators. -/
def tokenChar (c : Char) : Bool :=
  32 < c.toNat && c.toNat < 127 && !"()<>@,;:\\\"/[]?=\x7b\x7d".toList.contains c

def LinkValue.WellFormed : LinkValue → Prop
  | .token text => text ≠ [] ∧ ∀ c ∈ text, tokenChar c = true
  | .quoted content => ∀ pair ∈ content, pair.1 = false → pair.2 ≠ '"' ∧ pair.2 ≠ '\\'

-- characters are finitely many, and there are other instances that try them all
local instance (priority := 2000) eachOf {α : Type} (p : α → Prop) [DecidablePred p] (l : List α) :
    Decidable (∀ x ∈ l, p x) := List.decidableBAll p l

instance (value : LinkValue) : Decidable value.WellFormed :=
  match value with
  | .token text => inferInstanceAs (Decidable (text ≠ [] ∧ ∀ c ∈ text, tokenChar c = true))
  | .quoted content => inferInstanceAs
    (Decidable (∀ pair ∈ content, pair.1 = false → pair.2 ≠ '"' ∧ pair.2 ≠ '\\'))

def LinkParam.WellFormed (param : LinkParam) : Prop :=
  (∀ c ∈ param.lead ++ param.gap ++ param.left ++ param.right, linkBlank c = true) ∧
    param.name ≠ [] ∧ (∀ c ∈ param.name, tokenChar c = true) ∧
    ∀ value ∈ param.value, value.WellFormed

instance (param : LinkParam) : Decidable param.WellFormed :=
  inferInstanceAs (Decidable ((∀ c ∈ _, linkBlank c = true) ∧ _ ≠ [] ∧
    (∀ c ∈ _, tokenChar c = true) ∧ ∀ value ∈ param.value, value.WellFormed))

/-- A member may follow empty ones, of which the commas are left. -/
def LinkMember.WellFormed (member : LinkMember) : Prop :=
  (∀ c ∈ member.lead, linkBlank c = true ∨ c = ',') ∧
    (∀ c ∈ member.uri, c ≠ '<' ∧ c ≠ '>') ∧ (∀ c ∈ member.trail, linkBlank c = true) ∧
    ∀ param ∈ member.params, param.WellFormed

instance (member : LinkMember) : Decidable member.WellFormed :=
  inferInstanceAs (Decidable ((∀ c ∈ _, linkBlank c = true ∨ c = ',') ∧
    (∀ c ∈ _, c ≠ '<' ∧ c ≠ '>') ∧ (∀ c ∈ _, linkBlank c = true) ∧
    ∀ param ∈ member.params, param.WellFormed))

/-- The member's first `rel` has `next` among its relation types. -/
def LinkMember.relNext (member : LinkMember) : Bool :=
  match (member.params.find? fun param => param.name.map Char.toLower = "rel".toList).bind
    LinkParam.value with
  | some value => (value.content.splitOn ' ').any fun relation =>
      relation.map Char.toLower = "next".toList
  | none => false

/-! ## What the scan makes of them -/

/-- Of the parameters the scan takes what stands before the first comma. -/
def LinkMember.cut (member : LinkMember) : List Char := member.tail.takeWhile (· ≠ ',')

def LinkMember.seenNext (member : LinkMember) : Bool := isNextLink member.cut

/-- No bracket opens behind a comma within the parameters. -/
def LinkMember.Aligned (member : LinkMember) : Prop :=
  '<' ∉ member.tail.dropWhile (· ≠ ',')

instance (member : LinkMember) : Decidable member.Aligned :=
  inferInstanceAs (Decidable ('<' ∉ _))

section Scan

theorem scanLinks_outside {front : List Char} (h : '<' ∉ front) (rest : List Char) :
    scanLinks .outside (front ++ rest) = scanLinks .outside rest := by
  induction front with
  | nil => rfl
  | cons c front ih =>
    obtain ⟨hc, hfront⟩ := List.ne_and_not_mem_of_not_mem_cons h
    rw [List.cons_append, scanLinks, if_neg (Ne.symm hc), ih hfront]

theorem scanLinks_url {uri : List Char} (h : '>' ∉ uri) (read rest : List Char) :
    scanLinks (.url read) (uri ++ '>' :: rest) =
      scanLinks (.params (read.reverse ++ uri) []) rest := by
  induction uri generalizing read with
  | nil => simp [scanLinks]
  | cons c uri ih =>
    obtain ⟨hc, huri⟩ := List.ne_and_not_mem_of_not_mem_cons h
    rw [List.cons_append, scanLinks, if_neg (Ne.symm hc), ih huri]
    simp

theorem scanLinks_params {front : List Char} (h : ',' ∉ front) (url read rest : List Char) :
    scanLinks (.params url read) (front ++ rest) =
      scanLinks (.params url (front.reverse ++ read)) rest := by
  induction front generalizing read with
  | nil => rfl
  | cons c front ih =>
    obtain ⟨hc, hfront⟩ := List.ne_and_not_mem_of_not_mem_cons h
    rw [List.cons_append, scanLinks, if_neg (Ne.symm hc), ih hfront]
    simp

theorem scanLinks_comma (rest : List Char) :
    scanLinks .outside (',' :: rest) = scanLinks .outside rest := by
  rw [scanLinks, if_neg (by decide)]

theorem scanLinks_cut (url read rest : List Char) :
    scanLinks (.params url read) (',' :: rest) =
      if isNextLink read.reverse then some url else scanLinks .outside rest := by
  rw [scanLinks, if_pos rfl]

/-- A member in its place: followed if seen as next, and passed over otherwise, which takes
that no bracket opens behind the cut. -/
theorem scanLinks_member {member : LinkMember} (hmember : member.WellFormed)
    (haligned : member.seenNext = false → member.Aligned) {rest : List Char}
    (hrest : rest = [] ∨ ∃ t, rest = ',' :: t) :
    scanLinks .outside (member.text ++ rest) =
      if member.seenNext then some member.uri else scanLinks .outside rest := by
  obtain ⟨hlead, huri, -, -⟩ := hmember
  have hopen : '<' ∉ member.lead := by
    intro hin
    obtain hblank | hcomma := hlead '<' hin
    · cases hblank
    · cases hcomma
  have hclose : '>' ∉ member.uri := fun hin => (huri '>' hin).2 rfl
  have hcut : ',' ∉ member.cut := by
    intro hin
    have := List.mem_takeWhile_imp hin
    simp at this
  have hstart : scanLinks .outside (member.text ++ rest) =
      scanLinks (.params member.uri member.cut.reverse)
        (member.tail.dropWhile (· ≠ ',') ++ rest) := by
    have htail : member.tail = member.cut ++ member.tail.dropWhile (· ≠ ',') :=
      List.takeWhile_append_dropWhile.symm
    calc scanLinks .outside (member.text ++ rest)
        = scanLinks .outside (member.lead ++
            '<' :: (member.uri ++ '>' :: (member.tail ++ rest))) := by
          simp [LinkMember.text]
      _ = scanLinks (.url []) (member.uri ++ '>' :: (member.tail ++ rest)) := by
          rw [scanLinks_outside hopen, scanLinks, if_pos rfl]
      _ = scanLinks (.params member.uri []) (member.tail ++ rest) := by
          rw [scanLinks_url hclose, List.reverse_nil, List.nil_append]
      _ = scanLinks (.params member.uri [])
            (member.cut ++ (member.tail.dropWhile (· ≠ ',') ++ rest)) := by
          rw [← List.append_assoc, ← htail]
      _ = scanLinks (.params member.uri member.cut.reverse)
            (member.tail.dropWhile (· ≠ ',') ++ rest) := by
          rw [scanLinks_params hcut, List.append_nil]
  rw [hstart]
  cases hdrop : member.tail.dropWhile (· ≠ ',') with
  | nil =>
    rw [LinkMember.seenNext]
    obtain rfl | ⟨t, rfl⟩ := hrest
    · simp [scanLinks]
    · rw [List.nil_append, scanLinks_cut, List.reverse_reverse, scanLinks_comma]
  | cons c behind =>
    have hc : c = ',' := by
      have hfirst := List.head?_dropWhile_not (fun c => decide (c ≠ ',')) member.tail
      rw [hdrop] at hfirst
      simpa using hfirst
    subst hc
    rw [List.cons_append, scanLinks_cut, List.reverse_reverse]
    cases hseen : member.seenNext with
    | true => rw [show isNextLink member.cut = true from hseen, if_pos rfl, if_pos rfl]
    | false =>
      have hbehind : '<' ∉ behind := by
        have hnone := haligned hseen
        rw [LinkMember.Aligned, hdrop] at hnone
        exact fun hin => hnone (List.mem_cons_of_mem _ hin)
      rw [show isNextLink member.cut = false from hseen, scanLinks_outside hbehind]

/-- The members that the scan passes over. -/
def passedOver (line : List LinkMember) : List LinkMember :=
  line.takeWhile fun member => !member.seenNext

/-- Over a line the scan takes the first member that it sees as next. -/
theorem scanLinks_line {line : List LinkMember} (hline : ∀ member ∈ line, member.WellFormed)
    (haligned : ∀ member ∈ passedOver line, member.Aligned) :
    scanLinks .outside (lineText line) = (line.find? LinkMember.seenNext).map LinkMember.uri := by
  induction line with
  | nil => rfl
  | cons member line ih =>
    obtain ⟨hmember, hline⟩ := List.forall_mem_cons.mp hline
    have hfirst : member.seenNext = false → member.Aligned := by
      intro hseen
      apply haligned
      simp [passedOver, hseen]
    have hstep : ∀ rest : List Char, (rest = [] ∨ ∃ t, rest = ',' :: t) →
        scanLinks .outside (member.text ++ rest) =
          if member.seenNext then some member.uri else scanLinks .outside rest :=
      fun _ => scanLinks_member hmember hfirst
    rw [List.find?_cons]
    cases line with
    | nil =>
      have hone := hstep [] (.inl rfl)
      rw [List.append_nil] at hone
      rw [lineText, hone]
      cases member.seenNext <;> rfl
    | cons next line =>
      have hone := hstep (',' :: lineText (next :: line)) (.inr ⟨_, rfl⟩)
      rw [lineText_cons, hone]
      cases hseen : member.seenNext with
      | true => rfl
      | false =>
        have hbehind : ∀ other ∈ passedOver (next :: line), other.Aligned := by
          intro other hother
          apply haligned
          rw [passedOver, List.takeWhile_cons_of_pos (by simp [hseen])]
          exact List.mem_cons_of_mem _ hother
        rw [if_neg (by simp), scanLinks_comma, ih hline hbehind]

end Scan

/-! ## The paginator -/

/-- The values of the `Link` fields, in their order. -/
def linkFields (headers : List (String × String)) : List String :=
  (headers.filter fun header => lowercase header.1 = lowercase "link").map (·.2)

/-- The member that the lists say is next. -/
def nextMember (lines : List (List LinkMember)) : Option LinkMember :=
  lines.flatten.find? LinkMember.relNext

/-- The next page is at the member, or there is none. -/
def FollowsNext (context : PageContext) (lines : List (List LinkMember)) : Prop :=
  Paginator.linkHeader.decide context = .ok (.linkHeader,
    match nextMember lines with
    | some member => .nextUrl (String.ofList member.uri)
    | none => .done)

/-- What the first line shows to a reader who ends parameters at the first comma. -/
def seenMember : List (List LinkMember) → Option LinkMember
  | [] => none
  | line :: _ =>
    if (headerText (String.ofList (lineText line))).isSome then
      line.find? LinkMember.seenNext
    else none

theorem headerNamed_link (headers : List (String × String)) :
    headerNamed "link" headers = (linkFields headers).head?.bind headerText := by
  induction headers with
  | nil => rfl
  | cons header headers ih =>
    rw [headerNamed, linkFields] at *
    by_cases hname : lowercase header.1 = lowercase "link"
    · simp [hname]
    · simp only [List.find?_cons, hname, decide_false, List.filter_cons, Bool.false_eq_true,
        if_false]
      exact ih

/-- In the line that the scan reads, no bracket opens behind a comma of a member that it
passes over. -/
def Straight (lines : List (List LinkMember)) : Prop :=
  ∀ line ∈ lines.head?, (headerText (String.ofList (lineText line))).isSome →
    ∀ member ∈ passedOver line, member.Aligned

instance (lines : List (List LinkMember)) : Decidable (Straight lines) :=
  match lines with
  | [] => .isTrue fun _ hline => by cases hline
  | line :: _ => decidable_of_iff ((headerText (String.ofList (lineText line))).isSome →
      ∀ member ∈ passedOver line, member.Aligned) (by simp [Straight])

theorem decide_link {context : PageContext} {lines : List (List LinkMember)}
    (hfields : linkFields context.headers = lines.map fun line => String.ofList (lineText line))
    (hwell : ∀ member ∈ lines.flatten, member.WellFormed) (hstraight : Straight lines) :
    Paginator.linkHeader.decide context = .ok (.linkHeader,
      match (seenMember lines).map LinkMember.uri with
      | some uri => .nextUrl (String.ofList uri)
      | none => .done) := by
  rw [Paginator.decide, headerNamed_link, hfields]
  cases lines with
  | nil => rfl
  | cons line lines =>
    rw [List.map_cons, List.head?_cons, Option.bind_some, seenMember]
    cases htext : headerText (String.ofList (lineText line)) with
    | none => rfl
    | some text =>
      have hscan : scanLinks .outside (lineText line) = _ :=
        scanLinks_line (fun member hmember => hwell member (by simp [hmember]))
          (hstraight line rfl (by rw [htext]; rfl))
      have hsame : text = String.ofList (lineText line) := by
        rw [headerText] at htext
        split at htext
        · cases htext
          rfl
        · cases htext
      simp only [Option.bind_some, Option.isSome_some, if_true, hsame, parseLinkNext,
        String.toList_ofList, hscan]
      cases line.find? LinkMember.seenNext <;> rfl

/-- Where no bracket opens behind a quoted comma of a member passed over, the next page is
found exactly when the first line, its members' parameters ended at the first comma, shows
the URI that all of the lines say. -/
theorem link_next_found_iff {context : PageContext} {lines : List (List LinkMember)}
    (hfields : linkFields context.headers = lines.map fun line => String.ofList (lineText line))
    (hwell : ∀ member ∈ lines.flatten, member.WellFormed) (hstraight : Straight lines) :
    FollowsNext context lines ↔
      (seenMember lines).map LinkMember.uri = (nextMember lines).map LinkMember.uri := by
  rw [FollowsNext, decide_link hfields hwell hstraight]
  cases hseen : seenMember lines with
  | none =>
    cases hnext : nextMember lines <;> simp
  | some seen =>
    cases hnext : nextMember lines with
    | none => simp
    | some member =>
      simp only [Option.map_some, Except.ok.injEq, Prod.mk.injEq, Decision.nextUrl.injEq,
        Option.some.injEq, true_and]
      exact String.ofList_inj

/-! A list of three members, and one with a comma in its title. -/

def previousLink : LinkMember :=
  ⟨[], "https://x/a?ids=1,2".toList,
    [⟨[], [' '], "rel".toList, [], [], some (.quoted ("prev".toList.map (false, ·)))⟩], []⟩

def titledLink (title : String) : LinkMember :=
  ⟨[' '], "https://x/b".toList,
    [⟨[], [' '], "title".toList, [], [], some (.quoted (title.toList.map (false, ·)))⟩,
      ⟨[], [' '], "rel".toList, [], [], some (.quoted ("next".toList.map (false, ·)))⟩], []⟩

def linkContext (line : List LinkMember) : PageContext :=
  ⟨none, [("Link", String.ofList (lineText line))], 1, 1⟩

theorem linkFields_context (line : List LinkMember) : linkFields (linkContext line).headers =
    [line].map fun line => String.ofList (lineText line) := by
  have hname : lowercase "Link" = lowercase "link" := by decide
  simp [linkFields, linkContext, hname]

def plainLink : LinkMember :=
  ⟨[' '], "https://x/c".toList,
    [⟨[], [' '], "title".toList, [], [], some (.quoted ("a, <c".toList.map (false, ·)))⟩], []⟩

/-- Behind the member that is followed a bracket may open anywhere. -/
theorem link_next_found_iff_of_three :
    FollowsNext (linkContext [previousLink, titledLink "page 2", plainLink])
        [[previousLink, titledLink "page 2", plainLink]] ∧
      ¬ plainLink.Aligned :=
  ⟨(link_next_found_iff (linkFields_context _) (by decide) (by decide)).mpr (by decide), by decide⟩

/-- A comma in the title, and the pages behind are lost. -/
theorem quoted_comma_ends_the_list :
    linkFields (linkContext [titledLink "a, b"]).headers =
        [[titledLink "a, b"]].map (fun line => String.ofList (lineText line)) ∧
      (∀ member ∈ [[titledLink "a, b"]].flatten, member.WellFormed) ∧
      nextMember [[titledLink "a, b"]] = some (titledLink "a, b") ∧
      Paginator.linkHeader.decide (linkContext [titledLink "a, b"]) = .ok (.linkHeader, .done) ∧
      ¬ FollowsNext (linkContext [titledLink "a, b"]) [[titledLink "a, b"]] := by
  have hnext : nextMember [[titledLink "a, b"]] = some (titledLink "a, b") := by decide
  refine ⟨linkFields_context _, by decide, hnext, by decide, ?_⟩
  rw [link_next_found_iff (linkFields_context _) (by decide) (by decide)]
  decide

end Rest
