import RdltConnectors.Rest.Pinning
import RdltConnectors.Sqlcore.Schema

/-!
# The query that is sent

A request's URL may carry parameters of its own. The stream's parameters, the bindings of
the resume value and the page parameters are appended to them, and a key that is located
in the query after that; the source's defaults are added last, each where its name is
still missing.
-/
namespace Rest

open Sqlcore Whatwg

/-- The parameters that a key located in the query is. -/
def Auth.queryPairs : Auth → List (String × String)
  | .apiKey name key .query => [(name, key)]
  | _ => []

def names (pairs : List (String × String)) : List String := pairs.map Prod.fst

def applyDefaults (defaults existing : List (String × String)) : List (String × String) :=
  existing ++ defaults.filter fun pair => pair.1 ∉ names existing

/-- What is there before the defaults; `own` is what the URL carries. -/
def givenQuery (config : Config) (own : List (String × String)) (request : PageRequest) :
    List (String × String) :=
  own ++ request.query ++ config.auth.queryPairs

def sentQuery (config : Config) (own : List (String × String)) (request : PageRequest) :
    List (String × String) :=
  applyDefaults config.params (givenQuery config own request)

/-! ## One value per name -/

/-- The page parameters that ride in the query. -/
def Endpoint.pageQuery (endpoint : Endpoint) (pageParams : List (String × String)) :
    List (String × String) :=
  match endpoint.stream.method, endpoint.stream.body with
  | .post, some _ => []
  | _, _ => pageParams

/-- The query parameters that a sequence binds its resume value to. -/
def bindings (incremental : Option Incremental) (startValue : Option String) :
    List (String × String) :=
  (incremental.map (bindIncremental · startValue)).getD []

/-- All that is put into a query before the source's defaults. -/
def offered (endpoint : Endpoint) (own bound pageParams : List (String × String)) :
    List (String × String) :=
  own ++ endpoint.params ++ bound ++ endpoint.pageQuery pageParams ++
    endpoint.config.auth.queryPairs

/-- Every name is sent once, with the value of the first that has it: the key, the URL, the
page parameters and bindings, the stream's parameters, the source's. -/
def OneValue (endpoint : Endpoint) (own bound pageParams : List (String × String))
    (request : PageRequest) : Prop :=
  (names (sentQuery endpoint.config own request)).Nodup ∧
    ∀ name, (sentQuery endpoint.config own request).lookup name =
      (endpoint.config.auth.queryPairs ++ own ++ endpoint.pageQuery pageParams ++ bound ++
        endpoint.params ++ endpoint.config.params).lookup name

theorem buildPageRequest_query (endpoint : Endpoint) (url : List Char)
    (pageParams extraParams : List (String × String)) :
    (buildPageRequest endpoint url pageParams extraParams).query =
      endpoint.params ++ extraParams ++ endpoint.pageQuery pageParams := by
  rw [buildPageRequest, Endpoint.pageQuery]
  cases endpoint.stream.method with
  | get => rfl
  | post =>
    cases endpoint.stream.body with
    | none => rfl
    | some template => exact (List.append_nil _).symm

/-- Where all names differ, a lookup does not depend on the order. -/
theorem lookup_perm {pairs others : List (String × String)} (h : (names pairs).Nodup)
    (hperm : pairs.Perm others) (name : String) : pairs.lookup name = others.lookup name := by
  have hothers : (names others).Nodup := (hperm.map Prod.fst).nodup_iff.mp h
  cases hlook : pairs.lookup name with
  | some value =>
    have hin : (name, value) ∈ others := hperm.subset (mem_of_lookup hlook)
    exact (lookup_of_mem hothers hin).symm
  | none =>
    cases hother : others.lookup name with
    | none => rfl
    | some value =>
      have hin : (name, value) ∈ pairs := hperm.symm.subset (mem_of_lookup hother)
      have hfound : pairs.lookup name = some value := lookup_of_mem h hin
      rw [hlook] at hfound
      cases hfound

/-- Defaults whose names are taken are not missed in a lookup. -/
theorem lookup_missing (existing defaults : List (String × String)) (name : String) :
    (applyDefaults defaults existing).lookup name = (existing ++ defaults).lookup name := by
  rw [applyDefaults, List.lookup_append, List.lookup_append]
  cases hlook : existing.lookup name with
  | some value => rfl
  | none =>
    have hmissing : name ∉ names existing := by
      intro hin
      obtain ⟨pair, hpair, rfl⟩ := List.mem_map.mp hin
      rw [List.lookup_eq_none_iff] at hlook
      simpa using hlook pair hpair
    rw [Option.none_or, Option.none_or]
    induction defaults with
    | nil => rfl
    | cons pair defaults ih =>
      by_cases hname : name = pair.1
      · subst hname
        rw [List.filter_cons_of_pos (by simpa using hmissing), lookup_cons_ite, lookup_cons_ite]
        simp
      · rw [lookup_cons_ite, if_neg hname, ← ih]
        by_cases hkeep : pair.1 ∉ names existing
        · rw [List.filter_cons_of_pos (by simpa using hkeep), lookup_cons_ite, if_neg hname]
        · rw [List.filter_cons_of_neg (by simpa using hkeep)]

theorem applyDefaults_nodup {existing defaults : List (String × String)}
    (hexisting : (names existing).Nodup) (hdefaults : (names defaults).Nodup) :
    (names (applyDefaults defaults existing)).Nodup := by
  rw [names, applyDefaults, List.map_append, List.nodup_append]
  refine ⟨hexisting, hdefaults.sublist (List.filter_sublist.map Prod.fst), ?_⟩
  intro name hname other hother heq
  obtain ⟨pair, hpair, rfl⟩ := List.mem_map.mp hother
  have hkeep := (List.mem_filter.mp hpair).2
  simp only [decide_eq_true_eq] at hkeep
  exact hkeep (heq ▸ hname)

/-- One value is sent per name exactly when no name stands twice in what is there before the
defaults. -/
theorem oneValue_iff {endpoint : Endpoint} (hdefaults : (names endpoint.config.params).Nodup)
    (own bound pageParams : List (String × String)) (url : List Char) :
    OneValue endpoint own bound pageParams (buildPageRequest endpoint url pageParams bound) ↔
      (names (offered endpoint own bound pageParams)).Nodup := by
  have hgiven : givenQuery endpoint.config own (buildPageRequest endpoint url pageParams bound) =
      offered endpoint own bound pageParams := by
    rw [givenQuery, buildPageRequest_query, offered]
    simp only [List.append_assoc]
  constructor
  · rintro ⟨hnodup, -⟩
    rw [sentQuery, hgiven] at hnodup
    exact hnodup.sublist ((List.sublist_append_left _ _).map Prod.fst)
  · intro hnodup
    rw [OneValue, sentQuery, hgiven]
    refine ⟨applyDefaults_nodup hnodup hdefaults, ?_⟩
    intro name
    have hperm : (offered endpoint own bound pageParams).Perm
        (endpoint.config.auth.queryPairs ++ own ++ endpoint.pageQuery pageParams ++ bound ++
          endpoint.params) := by
      rw [offered, List.perm_iff_count]
      intro pair
      simp only [List.count_append]
      omega
    rw [lookup_missing, List.lookup_append, List.lookup_append, lookup_perm hnodup hperm]

/-- Whatever pages the responses have led to, the next request sends one value per name exactly
when no name stands twice among its URL's own parameters, the stream's, the bindings, the
page's and the key. -/
theorem one_value_per_name_iff (libraries : Libraries) (pairsOf : Url → List (String × String))
    (endpoint : Endpoint) (hdefaults : (names endpoint.config.params).Nodup)
    (paginator : Paginator) (incremental : Option Incremental) (startValue : Option String)
    (selector : Option Selector) (responses : List Response) (s next : Sequence)
    (hafter : (Sequence.new paginator incremental startValue).after libraries endpoint selector
      responses = some s) (request : PageRequest)
    (hrequest : s.nextRequest libraries endpoint = .ok (some (next, request))) :
    ∀ url, parse libraries.rules request.url = some url →
      (OneValue endpoint (pairsOf url) (bindings incremental startValue) s.pageParams request ↔
        (names (offered endpoint (pairsOf url) (bindings incremental startValue)
          s.pageParams)).Nodup) := by
  intro url _
  have hbound : s.extraParams = bindings incremental startValue := after_bindings hafter
  obtain ⟨-, -, -, rfl⟩ := nextRequest_ok hrequest
  rw [hbound]
  exact oneValue_iff hdefaults (pairsOf url) (bindings incremental startValue) s.pageParams _

/-! An API whose next links carry the parameters of the request they answer. -/

/-- The parameters of a query without escapes. -/
def plainPairs (url : Url) : List (String × String) :=
  match (url.rest.dropWhile (· ≠ '?')).tail.takeWhile (· ≠ '#') with
  | [] => []
  | query => (query.splitOn '&').map fun pair =>
    (String.ofList (pair.takeWhile (· ≠ '=')), String.ofList (pair.dropWhile (· ≠ '=')).tail)

def linkedStream : Stream :=
  { name := "items", path := "/items", params := [("limit", "100")], pagination := .linkHeader }

/-- The source's own defaults are `defaults`. -/
def linkedEndpoint (defaults : List (String × String)) : Endpoint :=
  ⟨{ baseUrl := "https://api.example.com", params := defaults, streams := [linkedStream] },
    linkedStream, none, false⟩

def linkedResponse (query : String) : Response :=
  ⟨200, [("link", s!"</items?{query}>; rel=\"next\"")], ['[', ']'], none⟩

def linkedAfter (defaults : List (String × String)) (query : String) : Option Sequence :=
  (Sequence.new .linkHeader none none).after plainLibraries (linkedEndpoint defaults) none
    [linkedResponse query]

def linkedUrl (query : String) : Url :=
  ⟨"https".toList, none, some "api.example.com".toList, none, s!"/items?{query}".toList⟩

/-- What is asked for at the location in the first response. -/
theorem linked_request (defaults : List (String × String)) (query : String)
    (h : (linkedAfter defaults query).bind (fun s =>
      (s.nextRequest plainLibraries (linkedEndpoint defaults)).toOption.join.map fun asked =>
        (s.pageParams, parse plainLibraries.rules asked.2.url, asked.2.query)) =
      some ([], some (linkedUrl query), linkedStream.params)) :
    ∃ s next request, linkedAfter defaults query = some s ∧ s.pageParams = [] ∧
      s.nextRequest plainLibraries (linkedEndpoint defaults) = .ok (some (next, request)) ∧
      parse plainLibraries.rules request.url = some (linkedUrl query) ∧
      request.query = linkedStream.params := by
  obtain ⟨s, hafter, h⟩ := Option.bind_eq_some_iff.mp h
  obtain ⟨⟨next, request⟩, hasked, h⟩ := Option.map_eq_some_iff.mp h
  simp only [Prod.mk.injEq] at h
  refine ⟨s, next, request, hafter, h.1, ?_, h.2.1, h.2.2⟩
  cases hnext : s.nextRequest plainLibraries (linkedEndpoint defaults) with
  | error e =>
    rw [hnext] at hasked
    cases hasked
  | ok asked =>
    rw [hnext] at hasked
    exact congrArg Except.ok hasked

/-- The second page is asked for with a limit, in place of the source's page. -/
theorem one_value_per_name_iff_of_second : ∃ s next request,
    linkedAfter [("lang", "en"), ("page", "1")] "page=2" = some s ∧
      s.nextRequest plainLibraries (linkedEndpoint [("lang", "en"), ("page", "1")]) =
        .ok (some (next, request)) ∧
      sentQuery (linkedEndpoint [("lang", "en"), ("page", "1")]).config
          (plainPairs (linkedUrl "page=2")) request =
        [("page", "2"), ("limit", "100"), ("lang", "en")] ∧
      OneValue (linkedEndpoint [("lang", "en"), ("page", "1")]) (plainPairs (linkedUrl "page=2"))
        (bindings none none) s.pageParams request := by
  obtain ⟨s, next, request, hafter, hparams, hnext, hurl, hquery⟩ :=
    linked_request [("lang", "en"), ("page", "1")] "page=2" (by decide +kernel)
  refine ⟨s, next, request, hafter, hnext, ?_, ?_⟩
  · rw [sentQuery, givenQuery, hquery]
    decide +kernel
  · refine (one_value_per_name_iff plainLibraries plainPairs _ (by decide) .linkHeader none none
      none _ s next hafter request hnext _ hurl).mpr ?_
    rw [hparams]
    decide +kernel

/-- The second page is asked for with two limits. -/
theorem next_link_repeats_the_limit :
    (linkedEndpoint []).config.validate plainLibraries = .ok () ∧
    ∃ s next request, linkedAfter [] "limit=100&page=2" = some s ∧
      s.nextRequest plainLibraries (linkedEndpoint []) = .ok (some (next, request)) ∧
      sentQuery (linkedEndpoint []).config (plainPairs (linkedUrl "limit=100&page=2")) request =
        [("limit", "100"), ("page", "2"), ("limit", "100")] ∧
      ¬ OneValue (linkedEndpoint []) (plainPairs (linkedUrl "limit=100&page=2"))
        (bindings none none) s.pageParams request := by
  obtain ⟨s, next, request, hafter, hparams, hnext, hurl, hquery⟩ :=
    linked_request [] "limit=100&page=2" (by decide +kernel)
  refine ⟨by decide +kernel, s, next, request, hafter, hnext, ?_, ?_⟩
  · rw [sentQuery, givenQuery, hquery]
    decide +kernel
  · rintro ⟨hnodup, -⟩
    rw [sentQuery, givenQuery, hquery] at hnodup
    revert hnodup
    decide +kernel

end Rest
