import RdltConnectors.Rest.Validate

/-!
# Pinning to an origin

Where the server names the next location, an absolute URL has to share the origin of the
configured base and is refused otherwise; anything else is joined onto the base, behind
a slash, and so stays on it.
-/
namespace Rest

open Whatwg

def sameOrigin (a b : Url) : Bool :=
  a.scheme = b.scheme && a.host = b.host && a.effectivePort = b.effectivePort

/-- One slash at the boundary, whatever either side has there. -/
def joinBaseUrl (base path : List Char) : List Char :=
  base.rdropWhile (· = '/') ++ '/' :: path.dropWhile (· = '/')

/-- The refusal names the host and never the URL, in which a key may stand. -/
def pinNextUrl (libraries : Libraries) (baseUrl next : List Char) : Except String (List Char) :=
  match parse libraries.rules next with
  | none =>
    let e := libraries.parseError next
    .error s!"pagination next-url does not parse: {e}"
  | some url =>
    match parse libraries.rules baseUrl with
    | none =>
      let e := libraries.parseError baseUrl
      .error s!"base_url does not parse: {e}"
    | some base =>
      if sameOrigin base url then .ok (libraries.serialize url)
      else
        let host := (url.host.map String.ofList).getD "<unparsed>"
        .error s!"pagination next-url leaves the source origin ({host}): credentials are pinned to the configured base_url, so the host the response named is refused"

/-! ## Origins -/

theorem sameOrigin_iff {a b : Url} : sameOrigin a b = true ↔
    a.scheme = b.scheme ∧ a.host = b.host ∧ a.effectivePort = b.effectivePort := by
  simp [sameOrigin, and_assoc]

theorem sameOrigin_trans {a b c : Url} (h : sameOrigin a b = true) (h' : sameOrigin b c = true) :
    sameOrigin a c = true := by
  rw [sameOrigin_iff] at *
  obtain ⟨hscheme, hhost, hport⟩ := h
  exact ⟨hscheme.trans h'.1, hhost.trans h'.2.1, hport.trans h'.2.2⟩

theorem sameOrigin_of_front {a b : Url} (hscheme : b.scheme = a.scheme) (hhost : b.host = a.host)
    (hport : b.port = a.port) : sameOrigin a b = true := by
  rw [sameOrigin_iff, Url.effectivePort, Url.effectivePort, hscheme, hhost, hport]
  exact ⟨rfl, rfl, rfl⟩

section Pinned

variable {libraries : Libraries} {base path next text : List Char} {url found : Url}

theorem defaultPort_of_http {scheme : List Char} (h : httpScheme scheme = true) :
    (defaultPort scheme).isSome = true := by
  simp only [httpScheme, Bool.or_eq_true, decide_eq_true_eq] at h
  obtain rfl | rfl := h <;> rfl

/-- Whatever is joined onto the base, the URL stays on its origin. -/
theorem join_keeps_origin (hlibraries : libraries.FollowsGrammar)
    (hbase : parse libraries.rules base = some url) (hhttp : httpScheme url.scheme = true)
    (h : parse libraries.rules (joinBaseUrl base path) = some found) :
    sameOrigin url found = true := by
  have hslashes : ∀ c ∈ base.rtakeWhile (· = '/'), c = '/' := by
    intro c hc
    simpa using List.mem_rtakeWhile_imp hc
  have hsplit : base.rdropWhile (· = '/') ++ base.rtakeWhile (· = '/') = base :=
    List.rdropWhile_append_rtakeWhile
  rw [← hsplit] at hbase
  obtain ⟨rest, tail, blanks, -, -, -, hjoin⟩ :=
    parse_join hlibraries.strict hslashes hbase (defaultPort_of_http hhttp)
  obtain hfound | ⟨-, hnone⟩ := hjoin (path.dropWhile (· = '/'))
  · rw [joinBaseUrl, hfound] at h
    cases h
    exact sameOrigin_of_front rfl rfl rfl
  · rw [joinBaseUrl, hnone] at h
    cases h

/-- A text that is passed is a URL on the base's origin. -/
theorem pin_keeps_origin (hlibraries : libraries.FollowsGrammar)
    (hbase : parse libraries.rules base = some url) (hhttp : httpScheme url.scheme = true)
    (hpin : pinNextUrl libraries base next = .ok text)
    (h : parse libraries.rules text = some found) : sameOrigin url found = true := by
  rw [pinNextUrl] at hpin
  cases hnext : parse libraries.rules next with
  | none =>
    rw [hnext] at hpin
    cases hpin
  | some named =>
    simp only [hnext, hbase] at hpin
    split at hpin
    · rename_i horigin
      cases hpin
      have hscheme : named.scheme = ['h', 't', 't', 'p'] ∨
          named.scheme = ['h', 't', 't', 'p', 's'] := by
        rw [← (sameOrigin_iff.mp horigin).1]
        simpa [httpScheme] using hhttp
      obtain ⟨again, hagain, hsame, hhost, hport⟩ :=
        parse_print hlibraries.strict hlibraries.prints hnext hscheme
      rw [Libraries.serialize, hagain] at h
      cases h
      exact sameOrigin_trans horigin (sameOrigin_of_front hsame hhost hport)
    · cases hpin

end Pinned

end Rest
