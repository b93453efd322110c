import RdltConnectors.Postgres.Gate

/-!
# What is taken out is what the grammar assigns

Where a connection string, of either form, is read by the code as libpq reads it, the TLS values
that are taken out are the assigned ones, the driver sees every other parameter as it was, and
what is enforced is at least what the string demands.
-/
namespace PgConn

/-! ## The agreement -/

section Agreement

variable (lossy : List UInt8 → String) (text : List Char) (params : List Param)

/-- The extraction of a string agrees with what the grammar assigns. -/
structure Agrees : Prop where
  rootCert : (extractTlsParameters lossy text).rootCert.map bytes =
    lastOf (bytes "sslrootcert") none params
  clientCert : (extractTlsParameters lossy text).clientCert.map bytes =
    lastOf (bytes "sslcert") none params
  clientKey : (extractTlsParameters lossy text).clientKey.map bytes =
    lastOf (bytes "sslkey") none params
  verifyMode : (extractTlsParameters lossy text).verifyMode = expectedVerify params
  /-- every other parameter reaches the driver -/
  rest : libpq (extractTlsParameters lossy text).remainder =
    some (params.filter fun param => !isTls param)
  /-- what is enforced is at least what the string demands -/
  enforced : ∀ gate tlsOverride parsed mode, gate.lossy = lossy → SameGrammar libpq gate →
    parse gate text tlsOverride = .ok parsed → explicitMode params = some mode →
    mode.strength ≤ parsed.enforced.strength

end Agreement

section Core

variable {lossy : List UInt8 → String} {text : List Char} {params base read : List Param}
  {pairs : List (String × String)}

theorem lastOf_apart {key : List UInt8} (h : ∀ param ∈ base, param.1 ≠ key) :
    lastOf key none (base ++ read) = lastOf key none read := by
  have hbase : lastOf key none base = none := by
    cases hlast : lastOf key none base with
    | none => rfl
    | some value => exact absurd rfl (h _ (mem_of_lastOf hlast))
  unfold lastOf at hbase ⊢
  rw [List.foldl_append, hbase]

/-- What the string demands is enforced, if the driver reads what it is given as the grammar does. -/
theorem enforced_of_rest {gate : Gate} {tlsOverride : Option Policy} {parsed : Parsed} {mode : Mode}
    (hverify : (extractTlsParameters gate.lossy text).verifyMode = expectedVerify params)
    (hrest : libpq (extractTlsParameters gate.lossy text).remainder =
      some (params.filter fun param => !isTls param))
    (hgate : SameGrammar libpq gate) (h : parse gate text tlsOverride = .ok parsed)
    (hmode : explicitMode params = some mode) : mode.strength ≤ parsed.enforced.strength := by
  obtain ⟨driver, hdriver, hdemanded⟩ := parse_never_weakens h
  obtain ⟨value, hlast, hvalue⟩ := Option.bind_eq_some_iff.1 hmode
  by_cases hrequire : value = bytes "require"
  · -- the driver has the mode, by the grammar
    rw [if_pos hrequire] at hvalue
    obtain rfl := Option.some.inj hvalue
    subst hrequire
    have hkept := @lastOf_kept params _ _ (fun param => !isTls param) hlast (by decide +kernel)
    obtain ⟨seen, hseen, hsees⟩ := hgate _ _ hdriver
    rw [hrest] at hseen
    obtain rfl := Option.some.inj hseen
    rw [hkept] at hsees
    apply hdemanded.encrypting
    exact Option.some.inj (hsees.symm.trans (by decide +kernel : driverMode (some (bytes "require")) =
      some .require))
  · rw [if_neg hrequire] at hvalue
    apply hdemanded.verifying
    rw [hverify, expectedVerify, hlast]
    exact hvalue

/-- Where the pairs are read as the grammar reads them, the extraction agrees with it exactly if no
other mode is behind a verifying one. -/
theorem agrees_iff (hparams : params = base ++ read)
    (hbase : ∀ param ∈ base, param.1 ∉ ("sslmode" :: pemKeys).map bytes)
    (hreads : List.Forall₂ Reads pairs read)
    (hcaught : Caught (extractTlsParameters lossy text) pairs)
    (hrest : libpq (extractTlsParameters lossy text).remainder =
      some (params.filter fun param => !isTls param)) :
    Agrees lossy text params ↔ VerifyLast params := by
  have hapart {key : String} (hkey : key ∈ "sslmode" :: pemKeys) :
      lastOf (bytes key) none params = lastOf (bytes key) none read := by
    rw [hparams]
    apply lastOf_apart
    intro param hparam heq
    apply hbase param hparam
    rw [heq]
    exact List.mem_map_of_mem hkey
  have hverify : (extractTlsParameters lossy text).verifyMode = params.foldl stepVerify none := by
    have hbefore : base.foldl stepVerify none = none := by
      apply stepVerify_none
      intro param hparam hmode
      apply absurd _ (hbase param hparam)
      rw [hmode]
      exact List.mem_cons_self
    rw [hcaught.verifyMode, lastVerify_reads hreads, hparams, List.foldl_append, hbefore]
    rfl
  have hpem {key : String} (hkey : key ∈ pemKeys) :
      (lastOf key none pairs).map bytes = lastOf (bytes key) none params := by
    rw [hapart (List.mem_cons_of_mem _ hkey)]
    exact lastOf_reads hreads hkey none
  constructor
  · intro hagrees
    rw [← stepVerify_expected, ← hverify]
    exact hagrees.verifyMode
  · intro hlast
    have hexpected := hverify.trans ((stepVerify_expected params).2 hlast)
    refine ⟨?_, ?_, ?_, hexpected, hrest, ?_⟩
    · rw [hcaught.rootCert]
      exact hpem (by decide)
    · rw [hcaught.clientCert]
      exact hpem (by decide)
    · rw [hcaught.clientKey]
      exact hpem (by decide)
    · rintro gate tlsOverride parsed mode rfl hgate hparse hmode
      exact enforced_of_rest hexpected hrest hgate hparse hmode

end Core

/-! ## URLs -/

def schemes : List (List Char) := ["postgresql://".toList, "postgres://".toList]

theorem uriRest_append {scheme : List Char} (h : scheme ∈ schemes) (rest : List Char) :
    uriRest (scheme ++ rest) = some rest := by
  obtain rfl | rfl : scheme = "postgresql://".toList ∨ scheme = "postgres://".toList := by
    simpa [schemes] using h
  · rw [uriRest, if_pos (List.prefix_append _ _)]
    rfl
  · rw [uriRest, if_neg, if_pos (List.prefix_append _ _)]
    · rfl
    · simp [List.cons_prefix_cons]

theorem uriRest_eq_some {text rest : List Char} (h : uriRest text = some rest) :
    ∃ scheme ∈ schemes, text = scheme ++ rest := by
  unfold uriRest at h
  split at h
  · next hprefix =>
    obtain ⟨more, rfl⟩ := hprefix
    obtain rfl := Option.some.inj h
    exact ⟨_, List.mem_cons_self, rfl⟩
  · split at h
    · next hprefix =>
      obtain ⟨more, rfl⟩ := hprefix
      obtain rfl := Option.some.inj h
      exact ⟨_, List.mem_cons_of_mem _ List.mem_cons_self, rfl⟩
    · cases h

theorem baseOption_key {key : String} {text : List Char} {params : List Param}
    (h : baseOption key text = some params) : ∀ param ∈ params, param.1 = bytes key := by
  unfold baseOption at h
  split at h
  · obtain rfl := Option.some.inj h
    exact fun _ hmem => absurd hmem List.not_mem_nil
  · obtain ⟨value, -, rfl⟩ := Option.map_eq_some_iff.1 h
    intro param hmem
    rw [List.mem_singleton.1 hmem]

/-- What is before the query sets none of the TLS keywords. -/
theorem base_keys {parts : UriParts} {base : List Param} (h : parts.base = some base) :
    ∀ param ∈ base, param.1 ∉ ("sslmode" :: pemKeys).map bytes := by
  obtain ⟨user, huser, h⟩ := Option.bind_eq_some_iff.1 h
  obtain ⟨password, hpassword, h⟩ := Option.bind_eq_some_iff.1 h
  obtain ⟨host, hhost, h⟩ := Option.bind_eq_some_iff.1 h
  obtain ⟨port, hport, h⟩ := Option.bind_eq_some_iff.1 h
  obtain ⟨dbname, hdbname, h⟩ := Option.bind_eq_some_iff.1 h
  obtain rfl := Option.some.inj h
  have hother {key : String} (hkey : key ∉ "sslmode" :: pemKeys) {param : Param}
      (hparam : param.1 = bytes key) : param.1 ∉ ("sslmode" :: pemKeys).map bytes := by
    intro hmem
    obtain ⟨name, hname, heq⟩ := List.mem_map.1 hmem
    rw [bytes_inj (heq.trans hparam)] at hname
    exact hkey hname
  intro param hmem
  simp only [List.mem_append] at hmem
  obtain (((hmem | hmem) | hmem) | hmem) | hmem := hmem
  · exact hother (by decide) (baseOption_key huser param hmem)
  · exact hother (by decide) (baseOption_key hpassword param hmem)
  · exact hother (by decide) (baseOption_key hhost param hmem)
  · exact hother (by decide) (baseOption_key hport param hmem)
  · exact hother (by decide) (baseOption_key hdbname param hmem)

/-- The pairs that are none of ours. -/
def keptPairs (query : List Char) : List (List Char) :=
  (uriPairs query).filter fun pair => !(uriPair pair).any isTls

/-- What is put behind the base. -/
def putBehind (kept : List (List Char)) : List Char :=
  if kept = [] then [] else '?' :: ['&'].intercalate kept

theorem queried_putBehind (kept : List (List Char)) : Queried (putBehind kept) := by
  intro c hc
  unfold putBehind at hc
  split at hc
  · cases hc
  · exact (Option.some.inj hc).symm

theorem drop_putBehind (kept : List (List Char)) : (putBehind kept).drop 1 = ['&'].intercalate kept := by
  unfold putBehind
  split
  · next hnil =>
    rw [hnil]
    rfl
  · rfl

/-- The code reads the URL as the grammar does: the first question mark starts the query, the TLS
parameters are written plainly, and taking them out does not make a user's part of the rest. -/
structure UrlAlike (rest : List Char) (parts : UriParts) : Prop where
  tame : parts.Tame
  pairs : ∀ pair ∈ uriPairs parts.query, PlainPair pair
  unmoved : Unmoved rest (putBehind (keptPairs parts.query))

theorem not_isTls_base {base : List Param}
    (h : ∀ param ∈ base, param.1 ∉ ("sslmode" :: pemKeys).map bytes) :
    base.filter (fun param => !isTls param) = base := by
  apply List.filter_eq_self.2
  intro param hparam
  cases htls : isTls param with
  | false => rfl
  | true => exact absurd (mem_of_isTls htls) (h param hparam)

theorem mapM_member {pairs : List (List Char)} {params : List Param}
    (h : pairs.mapM uriPair = some params) {pair : List Char} (hpair : pair ∈ pairs) :
    ∃ param, uriPair pair = some param := by
  induction pairs generalizing params with
  | nil => cases hpair
  | cons first pairs ih =>
    obtain ⟨param, params', hfirst, hparams, -⟩ := Fallible.option_mapM_cons.1 h
    obtain rfl | hpair := List.mem_cons.1 hpair
    · exact ⟨param, hfirst⟩
    · exact ih hparams hpair

theorem agrees_url (lossy : List UInt8 → String) {text rest : List Char} {parts : UriParts}
    {params : List Param} (hrest : uriRest text = some rest) (hparts : uriParts rest = some parts)
    (halike : UrlAlike rest parts) (h : libpq text = some params) :
    Agrees lossy text params ↔ VerifyLast params := by
  obtain ⟨scheme, hscheme, rfl⟩ := uriRest_eq_some hrest
  obtain ⟨hfirst, hagain⟩ := uriParts_again hparts halike.tame (queried_putBehind _) halike.unmoved
  have hplain : ∀ c ∈ scheme, decide (c ≠ '?') = true := by
    have hall : ∀ scheme ∈ schemes, scheme.all (fun c => decide (c ≠ '?')) = true := by decide
    exact List.all_eq_true.1 (hall scheme hscheme)
  have hform : "://".toList <:+: scheme ++ rest := by
    have hall : ∀ scheme ∈ schemes, "://".toList <:+: scheme := by decide
    exact (hall scheme hscheme).trans (List.infix_append' [] scheme rest)
  have hextract : extractTlsParameters lossy (scheme ++ rest) = extractFromUrl lossy (scheme ++ rest) :=
    if_pos hform
  -- the grammar's own reading
  rw [libpq, hrest] at h
  obtain ⟨parts', hparts', h⟩ := Option.bind_eq_some_iff.1 h
  obtain rfl := Option.some.inj (hparts.symm.trans hparts')
  obtain ⟨base, hbase, h⟩ := Option.bind_eq_some_iff.1 h
  obtain ⟨read, hread, h⟩ := Option.bind_eq_some_iff.1 h
  obtain rfl := Option.some.inj h
  have hquery : ((scheme ++ rest).dropWhile (· ≠ '?')).drop 1 = parts.query := by
    rw [List.dropWhile_append_of_pos hplain]
    exact hfirst
  obtain ⟨kept, hcaught, hreads, -, hkept, hremainder, hmapM⟩ :=
    extractFromUrl_read lossy hquery hread halike.pairs
  have hkeptPairs : kept = keptPairs parts.query := by
    rw [hkept, keptPairs]
    apply List.filter_congr
    intro pair hpair
    obtain ⟨param, hparam⟩ := mapM_member hread hpair
    rw [hparam, Option.any_some, (reads_of_plain lossy hparam (halike.pairs pair hpair)).isTls_eq]
  rw [← hextract] at hcaught hremainder
  refine agrees_iff rfl (base_keys hbase) hreads hcaught ?_
  have hbefore : beforeQuery (scheme ++ rest) = scheme ++ beforeQuery rest := by
    rw [beforeQuery, List.takeWhile_append_of_pos hplain, beforeQuery]
  have huri : uri (beforeQuery rest ++ putBehind kept) =
      some ((base ++ read).filter fun param => !isTls param) := by
    have hbase' : ({ parts with query := (putBehind kept).drop 1 } : UriParts).base = some base := hbase
    rw [uri, hkeptPairs, hagain, ← hkeptPairs, Option.bind_eq_bind, Option.bind_some, hbase',
      Option.bind_eq_bind, Option.bind_some]
    dsimp only
    rw [drop_putBehind, hmapM, List.filter_append, not_isTls_base (base_keys hbase)]
    rfl
  rw [hremainder, hbefore, List.append_assoc, libpq, uriRest_append hscheme]
  exact huri

/-! ## Keywords and values -/

theorem span_infix {text : List Char} {r : Reading} (h : readAssignments text = some r) :
    ∀ entry ∈ r.assignments, entry.2.span <:+: text := by
  induction hn : text.length using Nat.strong_induction_on generalizing text r with
  | _ n ih =>
    obtain ⟨-, rfl⟩ | ⟨c, tail, a, rest, inner, hbody, hread, hinner, rfl⟩ := readAssignments_cases h
    · exact fun entry he => absurd he List.not_mem_nil
    · have htext := readAssignment_text hread
      have hless := readAssignment_length hread
      have hdrop := dropWhile_length isSpace text
      have hsuffix := List.dropWhile_suffix (l := text) isSpace
      rw [hbody] at hdrop hsuffix
      have hspan : a.span <:+: c :: tail := by
        rw [htext]
        exact List.infix_append' [] _ _
      have hrest : rest <:+ c :: tail := by
        rw [htext]
        exact List.suffix_append _ _
      refine List.forall_mem_cons.2 ⟨hspan.trans hsuffix.isInfix, fun entry he => ?_⟩
      have hwithin := ih _ (by omega) hinner rfl entry he
      exact hwithin.trans (hrest.trans hsuffix).isInfix

/-- An assignment that starts with a scheme has it in its keyword. -/
theorem scheme_of_assignment {a : Assignment} (ha : Rereads a) {scheme more : List Char}
    (hscheme : scheme ∈ schemes) (h : scheme <+: a.span ++ more) : scheme <+: a.span := by
  obtain ⟨before, after, value, hspan, hframed, -, -⟩ := readAssignment_parts ha.alone
  have hkey := @takeWhile_parts (fun c => c ≠ '=' && !isSpace c) a.key
    (before ++ '=' :: (after ++ (value ++ more))) (fun c hc => by simp [hframed.key c hc]) (by
      intro c hc
      cases before with
      | nil =>
        obtain rfl := Option.some.inj hc
        rfl
      | cons b before =>
        obtain rfl := Option.some.inj hc
        simp [hframed.before b List.mem_cons_self])
  have hall : ∀ scheme ∈ schemes, scheme.all (fun c => c ≠ '=' && !isSpace c) = true := by decide
  have hchars := List.all_eq_true.1 (hall scheme hscheme)
  have hjoined : a.span ++ more = a.key ++ (before ++ '=' :: (after ++ (value ++ more))) := by
    rw [hspan, framed]
    simp only [List.append_assoc, List.cons_append]
  obtain ⟨behind, hbehind⟩ := h
  have hin : scheme <+: a.key := by
    rw [← hkey.1, ← hjoined, ← hbehind, List.takeWhile_append_of_pos hchars]
    exact List.prefix_append _ _
  rw [hspan, framed]
  exact hin.trans (List.prefix_append _ _)

/-- What is kept of keywords and values is not taken for a URL. -/
theorem uriRest_joined {text : List Char} {kept : List Assignment}
    (hform : ¬"://".toList <:+: text) (hrereads : ∀ a ∈ kept, Rereads a)
    (hwithin : ∀ a ∈ kept, a.span <:+: text) :
    uriRest ([' '].intercalate (kept.map Assignment.span)) = none := by
  cases hrest : uriRest ([' '].intercalate (kept.map Assignment.span)) with
  | none => rfl
  | some rest =>
    obtain ⟨scheme, hscheme, heq⟩ := uriRest_eq_some hrest
    have hall : ∀ scheme ∈ schemes, scheme ≠ [] ∧ "://".toList <:+: scheme := by decide
    obtain ⟨hne, hmark⟩ := hall scheme hscheme
    cases kept with
    | nil =>
      have hnil := List.append_eq_nil_iff.1 heq.symm
      exact absurd hnil.1 hne
    | cons a more =>
      rw [List.forall_mem_cons] at hrereads hwithin
      obtain ⟨behind, hbehind⟩ : ∃ behind,
          [' '].intercalate ((a :: more).map Assignment.span) = a.span ++ behind := by
        cases more with
        | nil => exact ⟨[], by rw [List.append_nil]; exact List.intercalate_singleton⟩
        | cons b more => exact ⟨_, List.intercalate_cons_cons.trans (List.append_assoc _ _ _)⟩
      have hprefix : scheme <+: a.span ++ behind := by
        rw [← hbehind, heq]
        exact List.prefix_append _ _
      have hspan := scheme_of_assignment hrereads.1 hscheme hprefix
      exact absurd (hmark.trans (hspan.isInfix.trans hwithin.1)) hform

/-- The code reads the keywords and values as the grammar does: the scan sees their blanks, and the
TLS parameters are written plainly. -/
structure KeyValuesAlike (r : Reading) : Prop where
  tame : r.Tame
  plain : ∀ entry ∈ r.assignments, isTls entry.2.param = true → entry.2.Plain

theorem agrees_keyValues (lossy : List UInt8 → String) {text : List Char} {r : Reading}
    {params : List Param} (hrest : uriRest text = none) (hform : ¬"://".toList <:+: text)
    (hr : readAssignments text = some r) (halike : KeyValuesAlike r) (h : libpq text = some params) :
    Agrees lossy text params ↔ VerifyLast params := by
  have hextract : extractTlsParameters lossy text = extractFromKeyValues text := if_neg hform
  obtain ⟨pairs, hcaught, hreads, -, hremainder, hconninfo⟩ :=
    extractFromKeyValues_read hr halike.tame halike.plain
  rw [libpq, hrest, conninfo, hr] at h
  obtain rfl := Option.some.inj h
  rw [← hextract] at hcaught hremainder hconninfo
  have hall := (rereads_of_reading hr).1
  have hnone : uriRest (extractTlsParameters lossy text).remainder = none := by
    rw [hremainder]
    apply uriRest_joined hform
    · intro a ha
      obtain ⟨entry, he, rfl⟩ := List.mem_map.1 (List.mem_filter.1 ha).1
      exact hall entry he
    · intro a ha
      obtain ⟨entry, he, rfl⟩ := List.mem_map.1 (List.mem_filter.1 ha).1
      exact span_infix hr entry he
  apply agrees_iff (List.nil_append _).symm (fun param hparam => absurd hparam List.not_mem_nil)
    hreads hcaught
  rw [libpq, hnone]
  exact hconninfo

/-! ## Keywords and values that hold a URL -/

/-- What the code takes for a URL without a query is left as it is. -/
theorem extractFromUrl_whole (lossy : List UInt8 → String) {text : List Char} (h : '?' ∉ text) :
    extractFromUrl lossy text = { remainder := text } := by
  rw [extractFromUrl, Separator.splitOnce_none h]
  rfl

theorem agrees_unasked (lossy : List UInt8 → String) {text : List Char} {params : List Param}
    (hform : "://".toList <:+: text) (hquestion : '?' ∉ text)
    (hnone : ∀ param ∈ params, isTls param = false) (h : libpq text = some params) :
    Agrees lossy text params ↔ VerifyLast params := by
  have hextract : extractTlsParameters lossy text = { remainder := text } :=
    (if_pos hform).trans (extractFromUrl_whole lossy hquestion)
  -- a pair of no keyword stands for each parameter
  have hreads : List.Forall₂ Reads (params.map fun _ => ("", "")) params := by
    rw [List.forall₂_map_left_iff, List.forall₂_same]
    intro param hparam
    refine ⟨fun htls => ?_, fun hcaptured => absurd hcaptured (by decide)⟩
    rw [hnone param hparam] at htls
    cases htls
  have hcaught : Caught (extractTlsParameters lossy text) (params.map fun _ => ("", "")) := by
    rw [hextract]
    clear hreads h hnone
    induction params using List.reverseRecOn with
    | nil => exact ⟨rfl, rfl, rfl, rfl⟩
    | append_singleton params param ih =>
      rw [List.map_append, List.map_singleton]
      exact ih.keep rfl ⟨rfl, rfl, rfl, rfl⟩
  apply agrees_iff (List.nil_append _).symm (fun param hparam => absurd hparam List.not_mem_nil)
    hreads hcaught
  rw [hextract, List.filter_eq_self.2 fun param hparam => by rw [hnone param hparam]; rfl]
  exact h

/-! ## Either form -/

/-- The code and the grammar read a string alike. -/
inductive Alike (text : List Char) (params : List Param) : Prop
  | url {rest : List Char} {parts : UriParts} (hrest : uriRest text = some rest)
      (hparts : uriParts rest = some parts) (halike : UrlAlike rest parts)
  | keyValues {r : Reading} (hrest : uriRest text = none) (hform : ¬"://".toList <:+: text)
      (hr : readAssignments text = some r) (halike : KeyValuesAlike r)
  | unasked (hform : "://".toList <:+: text) (hquestion : '?' ∉ text)
      (hnone : ∀ param ∈ params, isTls param = false)

/-- Of a string that is read alike, the extraction agrees with the grammar, and what it demands is
enforced, exactly if a verifying `sslmode` has no other mode behind it. -/
theorem extraction_agrees (lossy : List UInt8 → String) {text : List Char} {params : List Param}
    (h : libpq text = some params) (halike : Alike text params) :
    Agrees lossy text params ↔ VerifyLast params := by
  cases halike with
  | url hrest hparts halike => exact agrees_url lossy hrest hparts halike h
  | keyValues hrest hform hr halike => exact agrees_keyValues lossy hrest hform hr halike h
  | unasked hform hquestion hnone => exact agrees_unasked lossy hform hquestion hnone h

/-- A URL with a verifying mode and a root certificate. -/
def verifyingUrl : List Char :=
  "postgresql://u:p%40ss@h:5432/db?sslmode=verify-full&sslrootcert=%2Fca.pem".toList

def verifyingParams : List Param :=
  [("user", "u"), ("password", "p@ss"), ("host", "h"), ("port", "5432"), ("dbname", "db"),
    ("sslmode", "verify-full"), ("sslrootcert", "/ca.pem")].map fun pair => (bytes pair.1, bytes pair.2)

theorem libpq_verifying : libpq verifyingUrl = some verifyingParams := by decide +kernel

theorem alike_verifying : Alike verifyingUrl verifyingParams :=
  @Alike.url _ _ "u:p%40ss@h:5432/db?sslmode=verify-full&sslrootcert=%2Fca.pem".toList
    ⟨some "u:p%40ss".toList, "h".toList, "5432".toList, "db".toList,
      "sslmode=verify-full&sslrootcert=%2Fca.pem".toList⟩
    (by decide +kernel) (by decide +kernel)
    ⟨by decide +kernel, by decide +kernel, .inl (by decide +kernel)⟩

/-- A driver that reads by the grammar. -/
def grammarGate : Gate where
  driver text :=
    match (libpq text).bind fun params => driverMode (lastOf (bytes "sslmode") none params) with
    | some sslMode => .ok ⟨sslMode, none⟩
    | none => .error "invalid configuration"
  lossy _ := "\uFFFD"
  describe value := value

theorem sameGrammar_grammarGate : SameGrammar libpq grammarGate := by
  intro text config h
  unfold grammarGate at h
  dsimp only at h
  split at h
  · next sslMode hmode =>
    cases h
    obtain ⟨params, hparams, hmode⟩ := Option.bind_eq_some_iff.1 hmode
    exact ⟨params, hparams, hmode⟩
  · cases h

def verifyingParsed : Parsed :=
  ⟨⟨.prefer, some "rdlt"⟩, { mode := .verifyFull, rootCert := some "/ca.pem" }⟩

/-- Through the driver of the grammar the URL is verified in full. -/
theorem extraction_agrees_verifying :
    libpq verifyingUrl = some verifyingParams ∧ Alike verifyingUrl verifyingParams ∧
      Agrees grammarGate.lossy verifyingUrl verifyingParams ∧ SameGrammar libpq grammarGate ∧
      parse grammarGate verifyingUrl none = .ok verifyingParsed ∧
      Mode.verifyFull.strength ≤ verifyingParsed.enforced.strength := by
  have hagrees : Agrees grammarGate.lossy verifyingUrl verifyingParams :=
    (extraction_agrees _ libpq_verifying alike_verifying).2 fun _ => by decide +kernel
  have hparse : parse grammarGate verifyingUrl none = .ok verifyingParsed := by decide +kernel
  have hexplicit : explicitMode verifyingParams = some .verifyFull := by decide +kernel
  exact ⟨libpq_verifying, alike_verifying, hagrees, sameGrammar_grammarGate, hparse,
    hagrees.enforced grammarGate none verifyingParsed .verifyFull rfl sameGrammar_grammarGate hparse
      hexplicit⟩

end PgConn
