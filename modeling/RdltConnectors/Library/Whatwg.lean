import Mathlib.Data.List.DropRight
import RdltConnectors.Library.Separator

/-!
# URLs up to the path

The grammar of absolute URLs as browsers and most libraries read it: what is stripped
first, the scheme, and for the schemes with an authority the user information, the host
and the port. How a host is read (domains, addresses, percent escapes) is a parameter,
and so is what becomes of the other schemes. A text that extends a URL by a slash and
anything at all keeps what stands in front of the path.
-/
namespace Whatwg

open Separator

/-- Control characters and the space, which are stripped at either end. -/
def blank (c : Char) : Bool := c.toNat ≤ 32

/-- What is removed wherever it stands. -/
def tabOrNewline (c : Char) : Bool := c = '\t' || c = '\n' || c = '\r'

def clean (text : List Char) : List Char :=
  ((text.dropWhile blank).rdropWhile blank).filter fun c => !tabOrNewline c

def schemeChar (c : Char) : Bool := c.isAlphanum || c = '+' || c = '-' || c = '.'

/-- The scheme in lower case, and what stands behind its colon. -/
def splitScheme : List Char → Option (List Char × List Char)
  | [] => none
  | first :: text =>
    if first.isAlpha then
      match (first :: text).dropWhile schemeChar with
      | ':' :: behind => some (((first :: text).takeWhile schemeChar).map Char.toLower, behind)
      | _ => none
    else none

def defaultPort (scheme : List Char) : Option Nat :=
  if scheme = ['h', 't', 't', 'p'] then some 80
  else if scheme = ['h', 't', 't', 'p', 's'] then some 443
  else if scheme = ['w', 's'] then some 80
  else if scheme = ['w', 's', 's'] then some 443
  else if scheme = ['f', 't', 'p'] then some 21
  else none

/-- A backslash counts as a slash. -/
def slash (c : Char) : Bool := c = '/' || c = '\\'

/-- Within the authority. -/
def inAuthority (c : Char) : Bool := !slash c && c ≠ '?' && c ≠ '#'

/-- Host and port, at the first colon outside brackets. -/
def splitPort : Bool → List Char → List Char × Option (List Char)
  | _, [] => ([], none)
  | inside, c :: rest =>
    if c = ':' && !inside then ([], some rest)
    else
      let split := splitPort (if c = '[' then true else if c = ']' then false else inside) rest
      (c :: split.1, split.2)

/-- The port where it is not the scheme's own. -/
def parsePort (scheme : List Char) : Option (List Char) → Option (Option Nat)
  | none => some none
  | some text =>
    if text.all (·.isDigit) then
      if text.isEmpty then some none
      else
        let n := Nat.ofDigitChars 10 text 0
        if n ≤ 65535 then some (if defaultPort scheme = some n then none else some n) else none
    else none

/-- `rest` is what stands behind the authority, not read any further. -/
structure Url where
  scheme : List Char
  userinfo : Option (List Char)
  host : Option (List Char)
  port : Option Nat
  rest : List Char
  deriving DecidableEq, Repr

structure Rules where
  /-- the serialized host for what stands in its place -/
  host : List Char → Option (List Char)
  /-- the URL of a scheme without default port, for what stands behind its colon -/
  other : List Char → List Char → Option Url

structure Rules.Strict (rules : Rules) : Prop where
  /-- no host is made from a text with a control character or a space in it -/
  host : ∀ text host, rules.host text = some host → ∀ c ∈ text, blank c = false
  other : ∀ scheme behind url, rules.other scheme behind = some url → url.scheme = scheme

/-- What stands before the last at sign, and the place behind it. -/
def splitUserinfo (authority : List Char) : Option (List Char) × List Char :=
  match rsplitOnce '@' authority with
  | some (userinfo, place) => (some userinfo, place)
  | none => (none, authority)

def parseAuthority (rules : Rules) (scheme authority rest : List Char) : Option Url :=
  let place := splitPort false (splitUserinfo authority).2
  if place.1.isEmpty then none
  else
    match rules.host place.1, parsePort scheme place.2 with
    | some host, some port => some ⟨scheme, (splitUserinfo authority).1, some host, port, rest⟩
    | _, _ => none

def parseCleaned (rules : Rules) (text : List Char) : Option Url :=
  match splitScheme text with
  | none => none
  | some (scheme, behind) =>
    if (defaultPort scheme).isSome then
      let body := behind.dropWhile slash
      parseAuthority rules scheme (body.takeWhile inAuthority) (body.dropWhile inAuthority)
    else rules.other scheme behind

def parse (rules : Rules) (text : List Char) : Option Url := parseCleaned rules (clean text)

/-- The port in effect. -/
def Url.effectivePort (url : Url) : Option Nat := url.port.or (defaultPort url.scheme)

/-! ## What stands in front of the path -/

section Front

variable {rules : Rules} {front slashes blanks : List Char} {url : Url}

theorem splitScheme_front {scheme behind : List Char} (hslashes : ∀ c ∈ slashes, c = '/')
    (h : splitScheme (front ++ slashes) = some (scheme, behind)) :
    ∃ after, behind = after ++ slashes ∧
      ∀ tail, splitScheme (front ++ tail) = some (scheme, after ++ tail) := by
  cases front with
  | nil =>
    cases slashes with
    | nil => cases h
    | cons c rest =>
      rw [hslashes c List.mem_cons_self] at h
      cases h
  | cons first text =>
    have hstop : slashes.dropWhile schemeChar = slashes := by
      cases slashes with
      | nil => rfl
      | cons c rest =>
        rw [hslashes c List.mem_cons_self]
        rfl
    simp only [List.cons_append, splitScheme] at h ⊢
    split at h
    · rename_i halpha
      simp only [← List.cons_append, List.dropWhile_append, List.takeWhile_append, hstop] at h ⊢
      cases hdrop : (first :: text).dropWhile schemeChar with
      | nil =>
        simp only [hdrop, List.isEmpty_nil, if_true] at h
        split at h
        · have hc := hslashes ':' List.mem_cons_self
          cases hc
        · cases h
      | cons c after =>
        have hlength : ((first :: text).takeWhile schemeChar).length ≠ (first :: text).length := by
          intro he
          have hall := List.takeWhile_append_dropWhile (p := schemeChar) (l := first :: text)
          have htotal := congrArg List.length hall
          rw [List.length_append, he, hdrop, List.length_cons (a := c)] at htotal
          omega
        simp only [hdrop, List.isEmpty_cons, Bool.false_eq_true, if_false, List.cons_append,
          if_neg hlength] at h ⊢
        split at h
        · rename_i behind' hcolon
          cases h
          cases hcolon
          exact ⟨after, rfl, fun tail => by simp [halpha]⟩
        · cases h
    · cases h

theorem parseAuthority_scheme {scheme authority rest : List Char}
    (h : parseAuthority rules scheme authority rest = some url) : url.scheme = scheme := by
  simp only [parseAuthority] at h
  split at h
  · cases h
  · split at h
    · cases h
      rfl
    · cases h

/-- What follows changes the rest alone. -/
theorem parseAuthority_rest {scheme authority rest : List Char}
    (h : parseAuthority rules scheme authority rest = some url) :
    url.rest = rest ∧ ∀ other,
      parseAuthority rules scheme authority other = some { url with rest := other } := by
  simp only [parseAuthority] at h ⊢
  split at h
  · cases h
  · rename_i hempty
    split at h
    · rename_i host port hhost hport
      cases h
      exact ⟨rfl, fun other => if_neg hempty⟩
    · cases h

theorem takeWhile_stop {α : Type} {p : α → Bool} (body : List α) {tail : List α}
    (h : ∀ c ∈ tail.head?, p c = false) : (body ++ tail).takeWhile p = body.takeWhile p := by
  have hstop : tail.takeWhile p = [] := by
    cases tail with
    | nil => rfl
    | cons c rest => simp [h c rfl]
  rw [List.takeWhile_append, hstop]
  split
  · rename_i hlength
    have hall : body.takeWhile p = body :=
      (List.takeWhile_prefix p).eq_of_length hlength
    rw [List.append_nil, hall]
  · rfl

theorem dropWhile_stop {α : Type} {p : α → Bool} (body : List α) {tail : List α}
    (h : ∀ c ∈ tail.head?, p c = false) : (body ++ tail).dropWhile p = body.dropWhile p ++ tail := by
  have hstop : tail.dropWhile p = tail := by
    cases tail with
    | nil => rfl
    | cons c rest => simp [h c rfl]
  rw [List.dropWhile_append, hstop]
  split
  · rename_i hempty
    rw [List.isEmpty_iff.mp hempty, List.nil_append]
  · rfl

/-- Behind the scheme and its slashes stands a body that no longer depends on what follows. -/
theorem parseCleaned_front (hstrict : rules.Strict) (hslashes : ∀ c ∈ slashes, c = '/')
    (h : parseCleaned rules (front ++ slashes) = some url)
    (hspecial : (defaultPort url.scheme).isSome) : ∃ body,
      parseAuthority rules url.scheme (body.takeWhile inAuthority)
        (body.dropWhile inAuthority ++ slashes) = some url ∧
      ∀ tail, parseCleaned rules (front ++ tail) =
        parseAuthority rules url.scheme ((body ++ tail).takeWhile inAuthority)
          ((body ++ tail).dropWhile inAuthority) := by
  simp only [parseCleaned] at h
  cases hsplit : splitScheme (front ++ slashes) with
  | none => simp [hsplit] at h
  | some split =>
    obtain ⟨scheme, behind⟩ := split
    obtain ⟨after, rfl, hfront⟩ := splitScheme_front hslashes hsplit
    simp only [hsplit] at h
    split at h
    · rename_i hport
      have hscheme := parseAuthority_scheme h
      subst hscheme
      have hhead : ∀ c ∈ slashes.head?, inAuthority c = false := by
        intro c hc
        rw [hslashes c (List.mem_of_mem_head? hc)]
        rfl
      cases hbody : after.dropWhile slash with
      | nil =>
        have hall : slashes.dropWhile slash = [] := by
          rw [List.dropWhile_eq_nil_iff]
          intro c hc
          rw [hslashes c hc]
          rfl
        rw [List.dropWhile_append, hbody, List.isEmpty_nil, if_pos rfl, hall] at h
        cases h
      | cons c rest =>
        refine ⟨c :: rest, ?_, ?_⟩
        · rw [List.dropWhile_append, hbody, List.isEmpty_cons, if_neg (by simp),
            takeWhile_stop _ hhead, dropWhile_stop _ hhead] at h
          exact h
        · intro tail
          rw [parseCleaned, hfront tail]
          simp only [if_pos hport, List.dropWhile_append, hbody, List.isEmpty_cons,
            Bool.false_eq_true, if_false]
    · rename_i hport
      rw [hstrict.other _ _ _ h] at hspecial
      exact absurd hspecial hport

theorem splitPort_none (inside : Bool) {place : List Char} (h : ':' ∉ place) :
    splitPort inside place = (place, none) := by
  induction place generalizing inside with
  | nil => rfl
  | cons c rest ih =>
    obtain ⟨hc, hrest⟩ := List.ne_and_not_mem_of_not_mem_cons h
    rw [splitPort, ih _ hrest]
    simp [Ne.symm hc]

/-- A colon behind a place without brackets and colons is that of the port. -/
theorem splitPort_colon {place : List Char} (hcolon : ':' ∉ place) (hbracket : '[' ∉ place)
    (behind : List Char) : splitPort false (place ++ ':' :: behind) = (place, some behind) := by
  induction place with
  | nil => rfl
  | cons c rest ih =>
    obtain ⟨hc, hrest⟩ := List.ne_and_not_mem_of_not_mem_cons hcolon
    obtain ⟨hb, hrest'⟩ := List.ne_and_not_mem_of_not_mem_cons hbracket
    rw [List.cons_append, splitPort]
    simp [Ne.symm hc, Ne.symm hb, ih hrest hrest']

theorem splitPort_append (inside : Bool) (place : List Char) {blanks : List Char}
    (h : ':' ∉ blanks) : splitPort inside (place ++ blanks) =
      match (splitPort inside place).2 with
      | some port => ((splitPort inside place).1, some (port ++ blanks))
      | none => ((splitPort inside place).1 ++ blanks, none) := by
  induction place generalizing inside with
  | nil => exact splitPort_none inside h
  | cons c place ih =>
    simp only [List.cons_append, splitPort]
    split
    · rfl
    · rw [ih]
      cases hport : (splitPort (if c = '[' then true else if c = ']' then false else inside)
        place).2 <;> simp

/-- A place with blanks behind it is none. -/
theorem parseAuthority_blanks (hstrict : rules.Strict) {scheme : List Char}
    (authority rest : List Char) (hblanks : ∀ c ∈ blanks, blank c = true) (hne : blanks ≠ []) :
    parseAuthority rules scheme (authority ++ blanks) rest = none := by
  obtain ⟨c, hc⟩ := List.exists_mem_of_ne_nil blanks hne
  have hfree : ∀ d : Char, blank d = false → d ∉ blanks := by
    intro d hd hin
    rw [hblanks d hin] at hd
    cases hd
  have huserinfo : (splitUserinfo (authority ++ blanks)).2 =
      (splitUserinfo authority).2 ++ blanks := by
    rw [splitUserinfo, rsplitOnce_append_behind authority (hfree '@' rfl), splitUserinfo]
    cases rsplitOnce '@' authority <;> rfl
  simp only [parseAuthority, huserinfo, splitPort_append false _ (hfree ':' rfl)]
  cases hport : (splitPort false (splitUserinfo authority).2).2 with
  | some port =>
    have hdigits : (port ++ blanks).all (·.isDigit) = false := by
      rw [List.all_eq_false]
      refine ⟨c, List.mem_append_right port hc, ?_⟩
      intro hdigit
      have hlow := hblanks c hc
      simp only [blank, decide_eq_true_eq] at hlow
      have hhigh := (Char.isDigit_iff_toNat.mp hdigit).1
      have hzero : '0'.toNat = 48 := rfl
      omega
    simp [parsePort, hdigits]
  | none =>
    have hhost : rules.host ((splitPort false (splitUserinfo authority).2).1 ++ blanks) = none := by
      cases hread : rules.host ((splitPort false (splitUserinfo authority).2).1 ++ blanks) with
      | none => rfl
      | some host =>
        have hno := hstrict.host _ _ hread c (List.mem_append_right _ hc)
        rw [hblanks c hc] at hno
        cases hno
    simp [hhost]

end Front

/-! ## Joining -/

/-- What is left of a text at the end of a URL. -/
def cleanEnd (text : List Char) : List Char :=
  (text.rdropWhile blank).filter fun c => !tabOrNewline c

section Join

variable {rules : Rules} {base slashes : List Char} {url : Url}

theorem rdropWhile_append_cons {α : Type} {p : α → Bool} (front : List α) {c : α}
    (h : p c = false) (behind : List α) :
    (front ++ c :: behind).rdropWhile p = front ++ c :: behind.rdropWhile p := by
  induction behind using List.reverseRecOn with
  | nil =>
    rw [List.rdropWhile_nil]
    exact List.rdropWhile_concat_neg p front c (by simp [h])
  | append_singleton behind d ih =>
    rw [← List.cons_append, ← List.append_assoc, List.rdropWhile_concat, List.rdropWhile_concat]
    split
    · exact ih
    · simp

theorem filter_slashes (hslashes : ∀ c ∈ slashes, c = '/') :
    (slashes.filter fun c => !tabOrNewline c) = slashes := by
  rw [List.filter_eq_self]
  intro c hc
  rw [hslashes c hc]
  rfl

/-- A base and what is joined to it are cleaned to one front, but for blanks behind the base. -/
theorem clean_join (hslashes : ∀ c ∈ slashes, c = '/') (hbase : base.dropWhile blank ≠ []) :
    ∃ front rest blanks, clean (base ++ slashes) = front ++ rest ∧ (∀ c ∈ rest, c = '/') ∧
      (∀ c ∈ blanks, blank c = true) ∧ (rest = [] ∨ blanks = []) ∧
      ∀ behind, clean (base ++ '/' :: behind) = front ++ (blanks ++ '/' :: cleanEnd behind) := by
  have hdrop : ∀ tail, (base ++ tail).dropWhile blank = base.dropWhile blank ++ tail := by
    intro tail
    rw [List.dropWhile_append, if_neg (by simpa using hbase)]
  have hjoin : ∀ behind, clean (base ++ '/' :: behind) =
      ((base.dropWhile blank).filter fun c => !tabOrNewline c) ++ '/' :: cleanEnd behind := by
    intro behind
    rw [clean, hdrop, rdropWhile_append_cons _ rfl, List.filter_append,
      List.filter_cons_of_pos rfl, cleanEnd]
  cases hrest : slashes with
  | cons c rest =>
    refine ⟨(base.dropWhile blank).filter fun c => !tabOrNewline c, slashes, [], ?_, hslashes,
      nofun, .inr rfl, hjoin⟩
    have hc : c = '/' := hslashes c (by simp [hrest])
    have hkeep : (c :: rest).rdropWhile blank = c :: rest := by
      rw [List.rdropWhile_eq_self_iff]
      intro hne
      have hlast := hslashes ((c :: rest).getLast hne) (hrest ▸ List.getLast_mem hne)
      rw [hlast]
      decide
    have hrdrop : (base.dropWhile blank ++ c :: rest).rdropWhile blank =
        base.dropWhile blank ++ c :: rest := by
      rw [hc, rdropWhile_append_cons _ rfl]
      rw [hc, ← List.nil_append ('/' :: rest), rdropWhile_append_cons _ rfl] at hkeep
      rw [List.nil_append, List.nil_append, List.cons.injEq] at hkeep
      rw [hkeep.2]
    rw [clean, hdrop, hrdrop, List.filter_append, ← hrest, filter_slashes hslashes]
  | nil =>
    refine ⟨((base.dropWhile blank).rdropWhile blank).filter fun c => !tabOrNewline c, [],
      ((base.dropWhile blank).rtakeWhile blank).filter fun c => !tabOrNewline c, ?_, nofun, ?_,
      .inl rfl, ?_⟩
    · rw [clean, List.append_nil, List.append_nil]
    · intro c hc
      exact List.mem_rtakeWhile_imp (List.mem_of_mem_filter hc)
    · intro behind
      rw [hjoin, ← List.append_assoc, ← List.filter_append, List.rdropWhile_append_rtakeWhile]

theorem base_of_parse (hslashes : ∀ c ∈ slashes, c = '/')
    (h : parse rules (base ++ slashes) = some url) : base.dropWhile blank ≠ [] := by
  intro hnil
  have hclean : ∀ c ∈ clean (base ++ slashes), c = '/' := by
    intro c hc
    have hin : c ∈ (base ++ slashes).dropWhile blank :=
      List.rdropWhile_prefix blank _ |>.subset (List.mem_of_mem_filter hc)
    rw [List.dropWhile_append, hnil, List.isEmpty_nil, if_pos rfl] at hin
    exact hslashes c ((List.dropWhile_suffix blank).subset hin)
  have hnone : splitScheme (clean (base ++ slashes)) = none := by
    cases htext : clean (base ++ slashes) with
    | nil => rfl
    | cons c rest =>
      rw [hclean c (by rw [htext]; exact List.mem_cons_self)]
      rfl
  simp [parse, parseCleaned, hnone] at h

/-- A text joined to a base by a slash changes nothing in front of the path; at most, for
blanks behind the base, there is no URL at all. -/
theorem parse_join (hstrict : rules.Strict) (hslashes : ∀ c ∈ slashes, c = '/')
    (h : parse rules (base ++ slashes) = some url) (hspecial : (defaultPort url.scheme).isSome) :
    ∃ rest tail blanks, url.rest = rest ++ tail ∧ (∀ c ∈ tail, c = '/') ∧
      (∀ c ∈ blanks, blank c = true) ∧ ∀ behind, parse rules (base ++ '/' :: behind) =
        some { url with rest := rest ++ blanks ++ '/' :: cleanEnd behind } ∨
      blanks ≠ [] ∧ parse rules (base ++ '/' :: behind) = none := by
  obtain ⟨front, tail, blanks, hclean, htail, hblanks, hone, hjoin⟩ :=
    clean_join hslashes (base_of_parse hslashes h)
  rw [parse, hclean] at h
  obtain ⟨body, hurl, hparse⟩ := parseCleaned_front hstrict htail h hspecial
  obtain ⟨hrest, hother⟩ := parseAuthority_rest hurl
  refine ⟨body.dropWhile inAuthority, tail, blanks, hrest, htail, hblanks, ?_⟩
  intro behind
  rw [parse, hjoin, hparse]
  have hlive : ∀ c ∈ blanks, inAuthority c = true := by
    intro c hc
    have hlow := hblanks c hc
    cases hin : inAuthority c with
    | true => rfl
    | false =>
      simp only [inAuthority, slash, Bool.and_eq_false_iff, Bool.not_eq_false', Bool.or_eq_true,
        decide_eq_true_eq, decide_eq_false_iff_not, ne_eq, not_not] at hin
      obtain ((rfl | rfl) | rfl) | rfl := hin <;> cases hlow
  have hslash : ∀ c ∈ ('/' :: cleanEnd behind).head?, inAuthority c = false := by
    intro c hc
    cases hc
    rfl
  cases hbody : body.dropWhile inAuthority with
  | cons c rest =>
    have htake : (body ++ (blanks ++ '/' :: cleanEnd behind)).takeWhile inAuthority =
        body.takeWhile inAuthority := by
      rw [List.takeWhile_append, if_neg]
      intro hlength
      have hall := (List.takeWhile_prefix inAuthority).eq_of_length hlength
      have hsplit := List.takeWhile_append_dropWhile (p := inAuthority) (l := body)
      rw [hall, hbody] at hsplit
      have htotal := congrArg List.length hsplit
      rw [List.length_append, List.length_cons] at htotal
      omega
    rw [htake, List.dropWhile_append, hbody, if_neg (by simp), List.append_assoc]
    exact .inl (hother _)
  | nil =>
    have hwhole : body.takeWhile inAuthority = body := by
      have hsplit := List.takeWhile_append_dropWhile (p := inAuthority) (l := body)
      rwa [hbody, List.append_nil] at hsplit
    cases hempty : blanks with
    | nil =>
      rw [List.nil_append, takeWhile_stop body hslash, dropWhile_stop body hslash, hbody]
      exact .inl (hother _)
    | cons c rest =>
      apply Or.inr
      refine ⟨List.cons_ne_nil c rest, ?_⟩
      rw [← hempty, ← List.append_assoc, takeWhile_stop _ hslash]
      have hfull : (body ++ blanks).takeWhile inAuthority = body ++ blanks := by
        rw [List.takeWhile_append, hwhole, if_pos rfl, List.takeWhile_eq_self_iff.mpr hlive]
      rw [hfull]
      exact parseAuthority_blanks hstrict body _ hblanks (by rw [hempty]; exact List.cons_ne_nil c rest)

end Join

/-! ## Printing -/

/-- How user information, with its at sign, and what stands behind the authority are spelled. -/
structure Printer where
  userinfo : List Char → List Char
  rest : List Char → List Char

def printPort : Option Nat → List Char
  | none => []
  | some n => ':' :: Nat.toDigits 10 n

def Url.authority (printer : Printer) (url : Url) : List Char :=
  url.userinfo.elim [] printer.userinfo ++ (url.host.getD [] ++ printPort url.port)

/-- A URL with an authority. -/
def Url.print (printer : Printer) (url : Url) : List Char :=
  url.scheme ++ ':' :: '/' :: '/' :: (url.authority printer ++ printer.rest url.rest)

/-- What is printed for hosts and user information stays in its place. -/
structure Rules.Prints (rules : Rules) (printer : Printer) : Prop where
  host : ∀ text host, rules.host text = some host → rules.host host = some host ∧
    (∀ c ∈ host, inAuthority c = true ∧ blank c = false ∧ c ≠ '@') ∧ host ≠ []
  /-- no colon stands in a host but within brackets -/
  colon : ∀ text host, rules.host text = some host → splitPort false host = (host, none) ∧
    ∀ behind, splitPort false (host ++ ':' :: behind) = (host, some behind)
  userinfo : ∀ text, (∀ c ∈ printer.userinfo text, inAuthority c = true ∧ blank c = false) ∧
    (printer.userinfo text = [] ∨ ∃ before, printer.userinfo text = before ++ ['@'])
  rest : ∀ text, ∃ path, printer.rest text = '/' :: path ∧ ∀ c ∈ path, blank c = false

section Print

variable {rules : Rules} {printer : Printer} {text : List Char} {url : Url}

theorem clean_eq_self (h : ∀ c ∈ text, blank c = false) : clean text = text := by
  have hdrop : text.dropWhile blank = text := by
    cases text with
    | nil => rfl
    | cons c rest => rw [List.dropWhile_cons_of_neg (by simp [h c List.mem_cons_self])]
  have hrdrop : text.rdropWhile blank = text := by
    rw [List.rdropWhile_eq_self_iff]
    intro hne
    simp [h _ (List.getLast_mem hne)]
  rw [clean, hdrop, hrdrop, List.filter_eq_self]
  intro c hc
  have hblank := h c hc
  simp only [tabOrNewline, Bool.not_eq_true', Bool.or_eq_false_iff, decide_eq_false_iff_not]
  refine ⟨⟨?_, ?_⟩, ?_⟩ <;> rintro rfl <;> cases hblank

/-- Where a URL with a port by default comes from. -/
theorem parse_special (hstrict : rules.Strict) (h : parse rules text = some url)
    (hspecial : (defaultPort url.scheme).isSome) : ∃ place host portText,
      rules.host place = some host ∧ url.host = some host ∧
      parsePort url.scheme portText = some url.port := by
  simp only [parse, parseCleaned] at h
  split at h
  · cases h
  · split at h
    · simp only [parseAuthority] at h
      split at h
      · cases h
      · split at h
        · rename_i host port hhost hport
          cases h
          exact ⟨_, host, _, hhost, rfl, hport⟩
        · cases h
    · rename_i hno
      rw [hstrict.other _ _ _ h] at hspecial
      exact absurd hspecial hno

/-- A port that was read is read again from its print. -/
theorem parsePort_print {scheme : List Char} {portText : Option (List Char)} {port : Nat}
    (h : parsePort scheme portText = some (some port)) :
    parsePort scheme (some (Nat.toDigits 10 port)) = some (some port) := by
  have hall : (Nat.toDigits 10 port).all (·.isDigit) = true := by
    rw [List.all_eq_true]
    intro c hc
    exact Nat.isDigit_of_mem_toDigits (by decide) (by decide) hc
  have hne : (Nat.toDigits 10 port).isEmpty = false := by
    simp [Nat.toDigits_ne_nil]
  have hvalue : Nat.ofDigitChars 10 (Nat.toDigits 10 port) 0 = port :=
    Nat.ofDigitChars_ten_toDigits
  cases portText with
  | none => cases h
  | some digits =>
    simp only [parsePort] at h
    split at h
    · split at h
      · cases h
      · split at h
        · rename_i hbound
          split at h
          · cases h
          · rename_i hdefault
            cases h
            simp only [parsePort, hall, if_true, hne, Bool.false_eq_true, if_false, hvalue,
              if_pos hbound, if_neg hdefault]
        · cases h
    · cases h

theorem parsePort_printed {scheme : List Char} {portText : Option (List Char)}
    {port : Option Nat} (h : parsePort scheme portText = some port) :
    parsePort scheme (port.map (Nat.toDigits 10)) = some port := by
  cases port with
  | none => rfl
  | some n => exact parsePort_print h

theorem splitUserinfo_printed {front place : List Char}
    (hfront : front = [] ∨ ∃ before, front = before ++ ['@']) (hplace : '@' ∉ place) :
    (splitUserinfo (front ++ place)).2 = place := by
  obtain rfl | ⟨before, rfl⟩ := hfront
  · rw [List.nil_append, splitUserinfo, rsplitOnce_none hplace]
  · rw [List.append_assoc, List.singleton_append, splitUserinfo, rsplitOnce_append before hplace]

theorem alphanum_low {c : Char} (h : c.isAlphanum = true) : 48 ≤ c.toNat := by
  have hvalue : c.toNat = c.val.toNat := rfl
  simp only [Char.isAlphanum, Char.isAlpha, Char.isUpper, Char.isLower, Char.isDigit,
    Bool.or_eq_true, Bool.and_eq_true, decide_eq_true_eq, UInt32.le_iff_toNat_le, ge_iff_le] at h
  have hupper : 'A'.val.toNat = 65 := rfl
  have hlower : 'a'.val.toNat = 97 := rfl
  have hdigit : '0'.val.toNat = 48 := rfl
  omega

theorem alphanum_plain {c : Char} (h : c.isAlphanum = true) :
    inAuthority c = true ∧ blank c = false ∧ c ≠ '@' ∧ c ≠ ':' ∧ c ≠ '[' := by
  have hlow := alphanum_low h
  refine ⟨?_, ?_, ?_, ?_, ?_⟩
  · simp only [inAuthority, slash, Bool.and_eq_true, Bool.not_eq_true', Bool.or_eq_false_iff,
      decide_eq_true_eq, decide_eq_false_iff_not]
    refine ⟨⟨⟨?_, ?_⟩, ?_⟩, ?_⟩ <;> rintro rfl <;> cases h
  · simp only [blank, decide_eq_false_iff_not]
    omega
  all_goals
    rintro rfl
    cases h

theorem printPort_plain (port : Option Nat) :
    ∀ c ∈ printPort port, inAuthority c = true ∧ blank c = false ∧ c ≠ '@' := by
  cases port with
  | none => simp [printPort]
  | some n =>
    intro c hc
    obtain rfl | hdigit := List.mem_cons.mp hc
    · decide
    · have hc : c.isDigit = true :=
        Nat.isDigit_of_mem_toDigits (by decide) (by decide) hdigit
      obtain ⟨hin, hblank, hat, -⟩ := alphanum_plain (c := c) (by simp [Char.isAlphanum, hc])
      exact ⟨hin, hblank, hat⟩

/-- The authority that is printed is read as it was. -/
theorem parseAuthority_print (hprints : rules.Prints printer) {place host : List Char}
    {portText : Option (List Char)} (hhost : rules.host place = some host)
    (hurl : url.host = some host) (hport : parsePort url.scheme portText = some url.port)
    (rest : List Char) : ∃ info,
      parseAuthority rules url.scheme (url.authority printer) rest =
        some ⟨url.scheme, info, some host, url.port, rest⟩ := by
  obtain ⟨hagain, hplain, hne⟩ := hprints.host place host hhost
  obtain ⟨hnone, hsome⟩ := hprints.colon place host hhost
  have hfront : url.userinfo.elim [] printer.userinfo = [] ∨
      ∃ before, url.userinfo.elim [] printer.userinfo = before ++ ['@'] := by
    cases url.userinfo with
    | none => exact .inl rfl
    | some text => exact (hprints.userinfo text).2
  have hat : '@' ∉ url.host.getD [] ++ printPort url.port := by
    rw [hurl, List.mem_append]
    rintro (hin | hin)
    · exact (hplain '@' hin).2.2 rfl
    · exact (printPort_plain _ '@' hin).2.2 rfl
  have hsplit : splitPort false (url.host.getD [] ++ printPort url.port) =
      (host, url.port.map (Nat.toDigits 10)) := by
    rw [hurl, Option.getD_some]
    cases url.port with
    | none => rw [printPort, List.append_nil]; exact hnone
    | some n => exact hsome _
  refine ⟨(splitUserinfo (url.authority printer)).1, ?_⟩
  have hplace : (splitUserinfo (url.authority printer)).2 =
      url.host.getD [] ++ printPort url.port := splitUserinfo_printed hfront hat
  rw [parseAuthority, hplace, hsplit]
  simp only [List.isEmpty_iff, if_neg hne, hagain, parsePort_printed hport]

/-- An http URL that is printed and read again keeps scheme, host and port. -/
theorem parse_print (hstrict : rules.Strict) (hprints : rules.Prints printer)
    (h : parse rules text = some url)
    (hhttp : url.scheme = ['h', 't', 't', 'p'] ∨ url.scheme = ['h', 't', 't', 'p', 's']) :
    ∃ again, parse rules (url.print printer) = some again ∧ again.scheme = url.scheme ∧
      again.host = url.host ∧ again.port = url.port := by
  have hspecial : (defaultPort url.scheme).isSome := by
    obtain he | he := hhttp <;> rw [he] <;> rfl
  obtain ⟨place, host, portText, hhost, hurl, hport⟩ := parse_special hstrict h hspecial
  obtain ⟨path, hpath, hpathblank⟩ := hprints.rest url.rest
  obtain ⟨info, hread⟩ := parseAuthority_print hprints hhost hurl hport (printer.rest url.rest)
  have hplain : ∀ c ∈ url.authority printer, inAuthority c = true ∧ blank c = false := by
    intro c hc
    rw [Url.authority, List.mem_append, List.mem_append, hurl] at hc
    obtain hc | hc | hc := hc
    · cases hinfo : url.userinfo with
      | none => simp [hinfo] at hc
      | some userinfo =>
        rw [hinfo] at hc
        exact (hprints.userinfo userinfo).1 c hc
    · obtain ⟨hin, hblank, -⟩ := (hprints.host place host hhost).2.1 c hc
      exact ⟨hin, hblank⟩
    · obtain ⟨hin, hblank, -⟩ := printPort_plain _ c hc
      exact ⟨hin, hblank⟩
  have hblanks : ∀ c ∈ url.print printer, blank c = false := by
    intro c hc
    simp only [Url.print, hpath, List.mem_append, List.mem_cons] at hc
    obtain hc | rfl | rfl | rfl | hc | rfl | hc := hc
    · obtain he | he := hhttp <;>
        (rw [he] at hc; simp only [List.mem_cons, List.not_mem_nil, or_false] at hc)
      · obtain rfl | rfl | rfl | rfl := hc <;> rfl
      · obtain rfl | rfl | rfl | rfl | rfl := hc <;> rfl
    · rfl
    · rfl
    · rfl
    · exact (hplain c hc).2
    · rfl
    · exact hpathblank c hc
  have hscheme : ∀ tail, splitScheme (url.scheme ++ ':' :: tail) = some (url.scheme, tail) := by
    intro tail
    obtain he | he := hhttp <;> rw [he] <;> rfl
  have hauthority : (url.authority printer).head? ≠ none := by
    have hne := (hprints.host place host hhost).2.2
    rw [ne_eq, List.head?_eq_none_iff, Url.authority, hurl]
    simp [hne]
  refine ⟨⟨url.scheme, info, some host, url.port, printer.rest url.rest⟩, ?_, rfl, hurl.symm, rfl⟩
  rw [parse, clean_eq_self hblanks, parseCleaned, Url.print, hscheme]
  have hbody : ('/' :: '/' :: (url.authority printer ++ printer.rest url.rest)).dropWhile slash =
      url.authority printer ++ printer.rest url.rest := by
    cases hfirst : url.authority printer with
    | nil => simp [hfirst] at hauthority
    | cons c tail =>
      have hc := (hplain c (by rw [hfirst]; exact List.mem_cons_self)).1
      have hslash : slash c = false := by
        simp only [inAuthority, Bool.and_eq_true, Bool.not_eq_true'] at hc
        exact hc.1.1
      rw [List.dropWhile_cons_of_pos (by decide), List.dropWhile_cons_of_pos (by decide),
        List.cons_append, List.dropWhile_cons_of_neg (by simp [hslash])]
  have hin : ∀ c ∈ url.authority printer, inAuthority c = true := fun c hc => (hplain c hc).1
  have htake : (url.authority printer ++ '/' :: path).takeWhile inAuthority =
      url.authority printer := by
    rw [List.takeWhile_append_of_pos hin, List.takeWhile_cons_of_neg (by decide), List.append_nil]
  have hdrop : (url.authority printer ++ '/' :: path).dropWhile inAuthority = '/' :: path := by
    rw [List.dropWhile_append_of_pos hin, List.dropWhile_cons_of_neg (by decide)]
  rw [hpath] at hbody hread ⊢
  simp only [hspecial, if_true, hbody, htake, hdrop]
  exact hread

end Print

end Whatwg
