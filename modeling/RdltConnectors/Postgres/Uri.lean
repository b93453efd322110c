import RdltConnectors.Postgres.KeyValues

/-!
# The URL form

How libpq reads a URL: what stands before the query names the user, the hosts and the database, and
the pairs of the query are assignments. What stands before the query is read again as it was,
whatever query is put behind it.
-/
namespace PgConn

/-! ## Escapes -/

/-- A percent sign has two hexadecimal digits behind it that are not both zero. -/
def uriDecode : List Char → Option (List UInt8)
  | [] => some []
  | '%' :: high :: low :: rest =>
    match hexDigit high, hexDigit low with
    | some high, some low =>
      if high * 16 + low = 0 then none
      else (uriDecode rest).map (UInt8.ofNat (high * 16 + low) :: ·)
    | _, _ => none
  | '%' :: _ => none
  | c :: rest => (uriDecode rest).map (String.utf8EncodeChar c ++ ·)

theorem percentDecode_of_uriDecode {text : List Char} {decoded : List UInt8}
    (h : uriDecode text = some decoded) : percentDecode text = some decoded := by
  induction text using uriDecode.induct generalizing decoded with
  | case1 => exact h
  | case2 high low rest h₁ h₂ hhigh hlow hzero =>
    rw [uriDecode, hhigh, hlow] at h
    dsimp only at h
    rw [if_pos hzero] at h
    cases h
  | case3 high low rest h₁ h₂ hhigh hlow hzero ih =>
    rw [uriDecode, hhigh, hlow] at h
    dsimp only at h
    rw [if_neg hzero] at h
    obtain ⟨inner, hinner, rfl⟩ := Option.map_eq_some_iff.1 h
    rw [percentDecode, hhigh, hlow, ih hinner]
    rfl
  | case4 high low rest hnone =>
    rw [uriDecode] at h
    split at h
    · next hhigh hlow => exact absurd hlow (hnone _ _ hhigh)
    · cases h
  | case5 rest hshort =>
    rw [uriDecode] at h
    · cases h
    · exact hshort
  | case6 c rest hlong hshort ih =>
    rw [uriDecode] at h
    · obtain ⟨inner, hinner, rfl⟩ := Option.map_eq_some_iff.1 h
      rw [percentDecode, ih hinner]
      · rfl
      · exact hlong
      · exact hshort
    · exact hlong
    · exact hshort

/-! ## Before the query -/

/-- What the scan of the hosts stands in. -/
inductive Place where
  | start
  | opened
  | address
  | closed
  | name
  | port
  deriving DecidableEq, Repr

/-- What a character does: it ends the hosts, it is refused, or it is of a host or a port. -/
inductive Turn where
  | stop
  | refuse
  | go (next : Place) (host port : List Char)

def turn (place : Place) (c : Char) : Turn :=
  match place with
  | .opened => if c = ']' then .refuse else .go .address [c] []
  | .address => if c = ']' then .go .closed [] [] else .go .address [c] []
  | place =>
    if c = '/' ∨ c = '?' then .stop
    else if c = ',' then .go .start [','] [',']
    else if place = .port then .go .port [] [c]
    else if c = ':' then .go .port [] []
    else if place = .closed then .refuse
    else if place = .start ∧ c = '[' then .go .opened [] []
    else .go .name [c] []

/-- The hosts and the ports as they are written, and what is behind them. -/
def netloc (place : Place) : List Char → Option (List Char × List Char × List Char)
  | [] => if place = .opened ∨ place = .address then none else some ([], [], [])
  | c :: rest =>
    match turn place c with
    | .stop => some ([], [], c :: rest)
    | .refuse => none
    | .go next host port =>
      (netloc next rest).map fun read => (host ++ read.1, port ++ read.2.1, read.2.2)

/-- The user's part in front of an `@`, if there is one before the first slash. -/
def userinfo (text : List Char) : Option (List Char) × List Char :=
  match text.dropWhile fun c => c ≠ '@' && c ≠ '/' with
  | '@' :: behind => (some (text.takeWhile fun c => c ≠ '@' && c ≠ '/'), behind)
  | _ => (none, text)

structure UriParts where
  info : Option (List Char)
  hosts : List Char
  ports : List Char
  path : List Char
  query : List Char
  deriving DecidableEq, Repr

def uriParts (text : List Char) : Option UriParts :=
  (netloc .start (userinfo text).2).map fun read =>
    { info := (userinfo text).1
      hosts := read.1
      ports := read.2.1
      path := (read.2.2.takeWhile (· ≠ '?')).drop 1
      query := (read.2.2.dropWhile (· ≠ '?')).drop 1 }

/-- What is empty is not set. -/
def baseOption (key : String) (text : List Char) : Option (List Param) :=
  if text = [] then some [] else (uriDecode text).map fun value => [(bytes key, value)]

def UriParts.base (parts : UriParts) : Option (List Param) := do
  let info := parts.info.getD []
  let user ← baseOption "user" (info.takeWhile (· ≠ ':'))
  let password ← baseOption "password" ((info.dropWhile (· ≠ ':')).drop 1)
  let host ← baseOption "host" parts.hosts
  let port ← baseOption "port" parts.ports
  let dbname ← baseOption "dbname" parts.path
  return user ++ password ++ host ++ port ++ dbname

/-! ## Reading it again, with something else behind it -/

/-- Nothing, the path or the query. -/
def Stops (tail : List Char) : Prop := ∀ c, tail.head? = some c → c = '/' ∨ c = '?'

theorem turn_stop (place : Place) (c : Char) : turn place c = .stop ↔
    (place ≠ .opened ∧ place ≠ .address) ∧ (c = '/' ∨ c = '?') := by
  cases place <;> simp only [turn] <;> split_ifs <;> simp_all

/-- A question mark that does not end the hosts is of an address. -/
theorem turn_question {place next : Place} {host port : List Char}
    (h : turn place '?' = .go next host port) : '?' ∈ host := by
  cases place <;> simp [turn] at h <;> simp [← h.2.1]

theorem netloc_stops {place : Place} {tail : List Char}
    (hplace : place ≠ .opened ∧ place ≠ .address) (htail : Stops tail) :
    netloc place tail = some ([], [], tail) := by
  cases tail with
  | nil => exact if_neg (not_or.2 hplace)
  | cons c rest => rw [netloc, (turn_stop place c).2 ⟨hplace, htail c rfl⟩]

theorem netloc_parts {place : Place} {text hosts ports tail : List Char}
    (h : netloc place text = some (hosts, ports, tail)) :
    Stops tail ∧ ∃ front, text = front ++ tail ∧ ('?' ∈ front → '?' ∈ hosts) ∧
      ∀ tail', Stops tail' → netloc place (front ++ tail') = some (hosts, ports, tail') := by
  induction text generalizing place hosts ports with
  | nil =>
    rw [netloc] at h
    split at h
    · cases h
    · next hplace =>
      obtain ⟨rfl, heq⟩ := Prod.mk.inj (Option.some.inj h)
      obtain ⟨rfl, rfl⟩ := Prod.mk.inj heq
      refine ⟨fun c hc => (by cases hc), [], rfl, fun hmem => (by cases hmem), fun tail' htail' => ?_⟩
      exact netloc_stops (not_or.1 hplace) htail'
  | cons c rest ih =>
    rw [netloc] at h
    split at h
    · next hturn =>
      obtain ⟨rfl, heq⟩ := Prod.mk.inj (Option.some.inj h)
      obtain ⟨rfl, rfl⟩ := Prod.mk.inj heq
      obtain ⟨hplace, hc⟩ := (turn_stop place c).1 hturn
      refine ⟨fun d hd => ?_, [], rfl, fun hmem => (by cases hmem), fun tail' htail' => ?_⟩
      · obtain rfl := Option.some.inj hd
        exact hc
      · exact netloc_stops hplace htail'
    · cases h
    · next next' host port hturn =>
      obtain ⟨⟨hosts', ports', tail'⟩, hread, hparts⟩ := Option.map_eq_some_iff.1 h
      obtain ⟨rfl, hbehind⟩ := Prod.mk.inj hparts
      obtain ⟨rfl, rfl⟩ := Prod.mk.inj hbehind
      obtain ⟨htail, front, hfront, hquestion, hagain⟩ := ih hread
      refine ⟨htail, c :: front, by rw [hfront]; rfl, fun hmem => ?_, fun tail'' htail'' => ?_⟩
      · obtain heq | hmem := List.mem_cons.1 hmem
        · rw [← heq] at hturn
          exact List.mem_append_left _ (turn_question hturn)
        · exact List.mem_append_right _ (hquestion hmem)
      · rw [List.cons_append, netloc, hturn]
        dsimp only
        rw [hagain tail'' htail'']
        rfl

/-- Whether a user's part is met before a slash. -/
def Looks (text : List Char) : Prop :=
  (text.dropWhile fun c => c ≠ '@' && c ≠ '/').head? = some '@'

instance (text : List Char) : Decidable (Looks text) :=
  inferInstanceAs (Decidable (_ = _))

theorem userinfo_none {text : List Char} (h : ¬Looks text) : userinfo text = (none, text) := by
  unfold userinfo
  split
  · next behind hdrop =>
    apply absurd _ h
    rw [Looks, hdrop]
    rfl
  · rfl

theorem userinfo_found {info : List Char} (behind : List Char)
    (hinfo : ∀ c ∈ info, c ≠ '@' ∧ c ≠ '/') :
    userinfo (info ++ '@' :: behind) = (some info, behind) := by
  have hparts := @takeWhile_parts (fun c => c ≠ '@' && c ≠ '/') info ('@' :: behind)
    (fun c hc => by simp [hinfo c hc]) (by
      intro c hc
      obtain rfl := Option.some.inj hc
      rfl)
  rw [userinfo, hparts.2, hparts.1]
  rfl

theorem userinfo_cases (text : List Char) :
    (¬Looks text ∧ userinfo text = (none, text)) ∨
    ∃ info behind, text = info ++ '@' :: behind ∧ (∀ c ∈ info, c ≠ '@' ∧ c ≠ '/') ∧
      userinfo text = (some info, behind) := by
  by_cases h : Looks text
  · right
    have htext := @List.takeWhile_append_dropWhile _ (fun c => c ≠ '@' && c ≠ '/') text
    have hinfo : ∀ c ∈ text.takeWhile (fun c => c ≠ '@' && c ≠ '/'), c ≠ '@' ∧ c ≠ '/' := by
      intro c hc
      simpa using List.mem_takeWhile_imp hc
    unfold Looks at h
    cases hdrop : text.dropWhile (fun c => c ≠ '@' && c ≠ '/') with
    | nil =>
      rw [hdrop] at h
      cases h
    | cons c behind =>
      rw [hdrop] at h
      obtain rfl := Option.some.inj h
      refine ⟨_, behind, ?_, hinfo, ?_⟩
      · rw [← hdrop, htext]
      · have hfound := userinfo_found behind hinfo
        rw [← hdrop, htext] at hfound
        exact hfound
  · exact .inl ⟨h, userinfo_none h⟩

/-- No question mark stands in the user's part or in an address. -/
def UriParts.Tame (parts : UriParts) : Prop :=
  '?' ∉ parts.info.getD [] ∧ '?' ∉ parts.hosts

instance (parts : UriParts) : Decidable parts.Tame := inferInstanceAs (Decidable (_ ∧ _))

/-- What is in front of the first question mark. -/
def beforeQuery (text : List Char) : List Char := text.takeWhile (· ≠ '?')

/-- The user's part is not looked for in what is put behind. -/
def Unmoved (text behind : List Char) : Prop :=
  '@' ∈ beforeQuery text ∨ '/' ∈ beforeQuery text ∨ ¬Looks behind

/-- Nothing, or a query. -/
def Queried (behind : List Char) : Prop := ∀ c, behind.head? = some c → c = '?'

theorem looks_append {front behind : List Char} (h : '@' ∈ front ∨ '/' ∈ front) :
    Looks (front ++ behind) ↔ Looks front := by
  obtain ⟨c, hc, hstop⟩ : ∃ c ∈ front, ¬(c ≠ '@' && c ≠ '/') = true := by
    obtain h | h := h
    · exact ⟨_, h, by decide⟩
    · exact ⟨_, h, by decide⟩
  have hne : front.dropWhile (fun c => c ≠ '@' && c ≠ '/') ≠ [] := by
    intro hnil
    exact hstop (List.dropWhile_eq_nil_iff.1 hnil c hc)
  rw [Looks, Looks, List.dropWhile_append, if_neg (by simpa using hne), List.head?_append_of_ne_nil _ hne]

theorem looks_behind {front behind : List Char} (h : ∀ c ∈ front, c ≠ '@' ∧ c ≠ '/') :
    Looks (front ++ behind) ↔ Looks behind := by
  rw [Looks, Looks, List.dropWhile_append_of_pos fun c hc => by simp [h c hc]]

theorem takeWhile_query {front behind : List Char} (hfront : '?' ∉ front) (hbehind : Queried behind) :
    (front ++ behind).takeWhile (· ≠ '?') = front ∧ (front ++ behind).dropWhile (· ≠ '?') = behind :=
  takeWhile_parts (fun _ hc => decide_eq_true fun heq => hfront (heq ▸ hc))
    fun _ hc => decide_eq_false (not_not_intro (hbehind _ hc))

theorem not_mem_beforeQuery (text : List Char) : '?' ∉ beforeQuery text := by
  intro hmem
  have hne := List.mem_takeWhile_imp hmem
  simp at hne

theorem queried_dropWhile (text : List Char) : Queried (text.dropWhile (· ≠ '?')) := by
  intro c hc
  have hnot := head_dropWhile hc
  simpa using hnot

/-- What is behind the hosts is found again, with another query. -/
theorem netloc_again {text hosts ports tail behind : List Char}
    (h : netloc .start text = some (hosts, ports, tail)) (hhosts : '?' ∉ hosts)
    (hbehind : Queried behind) :
    ∃ front, text = front ++ tail ∧ beforeQuery text = front ++ beforeQuery tail ∧
      text.dropWhile (· ≠ '?') = tail.dropWhile (· ≠ '?') ∧
      netloc .start (beforeQuery text ++ behind) = some (hosts, ports, beforeQuery tail ++ behind) := by
  obtain ⟨hstops, front, hfront, hquestion, hagain⟩ := netloc_parts h
  have hplain : ∀ c ∈ front, decide (c ≠ '?') = true := fun c hc =>
    decide_eq_true fun heq => hhosts (hquestion (heq ▸ hc))
  have hbefore : beforeQuery text = front ++ beforeQuery tail := by
    rw [beforeQuery, hfront, List.takeWhile_append_of_pos hplain, beforeQuery]
  refine ⟨front, hfront, hbefore, by rw [hfront, List.dropWhile_append_of_pos hplain], ?_⟩
  rw [hbefore, List.append_assoc]
  apply hagain
  intro c hc
  cases htail : beforeQuery tail with
  | nil =>
    rw [htail] at hc
    exact .inr (hbehind c hc)
  | cons d more =>
    rw [htail] at hc
    obtain rfl := Option.some.inj hc
    apply hstops
    rw [← @List.takeWhile_append_dropWhile _ (· ≠ '?') tail]
    change (beforeQuery tail ++ _).head? = _
    rw [htail]
    rfl

/-- With another query behind it, what is before the query is read as it was. -/
theorem uriParts_again {text behind : List Char} {parts : UriParts} (h : uriParts text = some parts)
    (htame : parts.Tame) (hbehind : Queried behind) (hunmoved : Unmoved text behind) :
    (text.dropWhile (· ≠ '?')).drop 1 = parts.query ∧
      uriParts (beforeQuery text ++ behind) = some { parts with query := behind.drop 1 } := by
  rw [uriParts] at h
  obtain ⟨⟨hosts, ports, tail⟩, hread, rfl⟩ := Option.map_eq_some_iff.1 h
  obtain ⟨front, hfront, hbefore, hdrop, hagain⟩ := netloc_again hread htame.2 hbehind
  have hquery := takeWhile_query (not_mem_beforeQuery tail) hbehind
  obtain ⟨hlook, huser⟩ | ⟨info, behind', htext, hinfo, huser⟩ := userinfo_cases text
  · rw [huser] at hbefore hdrop hagain ⊢
    have hnot : ¬Looks (beforeQuery text ++ behind) := by
      have htext := @List.takeWhile_append_dropWhile _ (· ≠ '?') text
      by_cases hstop : '@' ∈ beforeQuery text ∨ '/' ∈ beforeQuery text
      · rw [looks_append hstop, ← looks_append hstop, beforeQuery, htext]
        exact hlook
      · rw [not_or] at hstop
        rw [looks_behind fun c hc => ⟨fun heq => hstop.1 (heq ▸ hc), fun heq => hstop.2 (heq ▸ hc)⟩]
        exact (hunmoved.resolve_left hstop.1).resolve_left hstop.2
    refine ⟨congrArg _ hdrop, ?_⟩
    rw [uriParts, userinfo_none hnot]
    dsimp only at hagain ⊢
    rw [hagain, Option.map_some, hquery.1, hquery.2]
    rfl
  · rw [huser] at hbefore hdrop hagain htame ⊢
    have hplain : ∀ c ∈ info ++ ['@'], decide (c ≠ '?') = true := by
      intro c hc
      apply decide_eq_true
      rintro rfl
      obtain hc | hc := List.mem_append.1 hc
      · exact htame.1 hc
      · exact absurd (List.mem_singleton.1 hc) (by decide)
    have htext' : text = (info ++ ['@']) ++ behind' := by rw [htext, List.append_cons]
    have hbefore' : beforeQuery text = info ++ '@' :: beforeQuery behind' := by
      rw [beforeQuery, htext', List.takeWhile_append_of_pos hplain, ← List.append_cons, beforeQuery]
    refine ⟨?_, ?_⟩
    · rw [htext', List.dropWhile_append_of_pos hplain]
      exact congrArg _ hdrop
    · rw [hbefore', List.append_assoc, List.cons_append, uriParts, userinfo_found _ hinfo]
      dsimp only at hagain ⊢
      rw [hagain, Option.map_some, hquery.1, hquery.2]
      rfl

/-! ## The query -/

/-- A pair has one equals sign. -/
def uriPair (pair : List Char) : Option Param :=
  match pair.splitOn '=' with
  | [key, value] => do
    let key ← uriDecode key
    let value ← uriDecode value
    return if key = bytes "ssl" ∧ value = bytes "true" then (bytes "sslmode", bytes "require")
      else (key, value)
  | _ => none

/-- An ampersand may stand at the end. -/
def uriPairs (query : List Char) : List (List Char) :=
  if (query.splitOn '&').getLast? = some [] then (query.splitOn '&').dropLast else query.splitOn '&'

def uri (text : List Char) : Option (List Param) := do
  let parts ← uriParts text
  let base ← parts.base
  let query ← (uriPairs parts.query).mapM uriPair
  return base ++ query

/-- What is behind the scheme. -/
def uriRest (text : List Char) : Option (List Char) :=
  if "postgresql://".toList <+: text then some (text.drop 13)
  else if "postgres://".toList <+: text then some (text.drop 11)
  else none

/-- A connection string, of either form. -/
def libpq (text : List Char) : Option (List Param) :=
  match uriRest text with
  | some rest => uri rest
  | none => conninfo text

end PgConn
