import Mathlib
import RdltConnectors.Rest.Paginate
import RdltConnectors.Rest.Pin
import RdltConnectors.Rest.Substitute

/-!
# A paginated sequence of requests

One sequence asks for the pages of a stream, or of one parent record's children, under
two guards: no request is made twice, and there are at most `max_pages`. What the server
answers is an argument.
-/
namespace Rest

open Fallible

/-- What a sequence has fixed. -/
structure Endpoint where
  config : Config
  stream : Stream
  parent : Option ParentValues
  needsValues : Bool

structure Sequence where
  paginator : Paginator
  extraParams : List (String × String)
  pageParams : List (String × String)
  urlOverride : Option (List Char)
  seenRequests : List UInt64
  pages : UInt64
  totalRecords : UInt64
  lastBody : Option Value
  lastHeaders : List (String × String)
  ended : Bool

def Sequence.new (paginator : Paginator) (incremental : Option Incremental)
    (startValue : Option String) : Sequence where
  paginator := paginator
  extraParams := (incremental.map (bindIncremental · startValue)).getD []
  pageParams := paginator.initialParams
  urlOverride := none
  seenRequests := []
  pages := 0
  totalRecords := 0
  lastBody := none
  lastHeaders := []
  ended := false

/-! ## Requests -/

/-- A request before credentials and defaults; the query is appended to the URL's. -/
structure PageRequest where
  method : Method
  url : List Char
  headers : List (String × String)
  query : List (String × String)
  body : Option Value

def Endpoint.path (endpoint : Endpoint) : List Char :=
  match endpoint.parent with
  | some values => substitutePath endpoint.stream.path.toList values.placeholders
  | none => endpoint.stream.path.toList

def Endpoint.baseUrl (endpoint : Endpoint) : List Char :=
  joinBaseUrl endpoint.config.baseUrl.toList endpoint.path

def Endpoint.params (endpoint : Endpoint) : List (String × String) :=
  endpoint.stream.params.map fun (name, value) =>
    match endpoint.parent with
    | some values => (name, String.ofList (substitute value.toList values.placeholders))
    | none => (name, value)

def Endpoint.body (endpoint : Endpoint) (template : Value) : Value :=
  match endpoint.parent with
  | some values => substituteBody values.placeholders template
  | none => template

/-- A field is set in its place, or behind the others. -/
def insertField (key : String) (value : Value) : List (String × Value) → List (String × Value)
  | [] => [(key, value)]
  | (k, v) :: rest => if k = key then (key, value) :: rest else (k, v) :: insertField key value rest

/-- Page parameters go into a body that is an object. -/
def mergeParams (pageParams : List (String × String)) : Value → Value
  | .object fields =>
    .object (pageParams.foldl (fun fields (name, value) => insertField name (.string value) fields)
      fields)
  | body => body

def buildPageRequest (endpoint : Endpoint) (url : List Char)
    (pageParams extraParams : List (String × String)) : PageRequest :=
  match endpoint.stream.method, endpoint.stream.body with
  | .post, some template =>
    ⟨.post, url, endpoint.stream.headers, endpoint.params ++ extraParams,
      some (mergeParams pageParams (endpoint.body template))⟩
  | method, _ =>
    ⟨method, url, endpoint.stream.headers, endpoint.params ++ extraParams ++ pageParams, none⟩

/-! ## Before a request -/

def Sequence.url (endpoint : Endpoint) (s : Sequence) : List Char :=
  s.urlOverride.getD endpoint.baseUrl

def Sequence.fingerprint (libraries : Libraries) (endpoint : Endpoint) (s : Sequence) : UInt64 :=
  libraries.fingerprint (s.url endpoint) s.pageParams s.extraParams

/-- `{:?}` of parameters. -/
def debugParams (params : List (String × String)) : String :=
  let entries := ", ".intercalate (params.map fun (name, value) =>
    let name := String.quote name
    let value := String.quote value
    s!"({name}, {value})")
  s!"[{entries}]"

/-- The next request, and the sequence as it waits for the answer; nothing when it has ended. -/
def Sequence.nextRequest (libraries : Libraries) (endpoint : Endpoint) (s : Sequence) :
    Except SourceError (Option (Sequence × PageRequest)) :=
  let name := endpoint.stream.name
  let pages := s.pages
  let maxPages := endpoint.config.maxPages
  if s.ended then .ok none
  else if s.fingerprint libraries endpoint ∈ s.seenRequests then
    let params := debugParams s.pageParams
    .error (.fatal s!"stream `{name}`: paginator produced the SAME request twice (page {pages}, params {params}) — the API is not advancing; check the pagination config")
  else if endpoint.config.maxPages ≤ s.pages then
    .error (.fatal s!"stream `{name}`: exceeded max_pages ({maxPages}) — raise `max_pages` if the stream is genuinely this long")
  else .ok (some
    ({ s with
        seenRequests := s.fingerprint libraries endpoint :: s.seenRequests, pages := s.pages + 1 },
      buildPageRequest endpoint (s.url endpoint) s.pageParams s.extraParams))

/-! ## After the response -/

structure Response where
  status : UInt16
  headers : List (String × String)
  body : List Char
  /-- as `server_retry_after` reads it -/
  retryAfter : Option Nat

def Response.isSuccess (response : Response) : Bool :=
  200 ≤ response.status && response.status < 300

/-- The undeclared error statuses, in three kinds. -/
def classifyStatus (libraries : Libraries) (status : UInt16) (retryAfter : Option Nat) :
    SourceError :=
  let text := libraries.statusText status
  if status = 429 then .rateLimited retryAfter "HTTP 429 from API"
  else if 500 ≤ status ∧ status < 600 then .transient s!"HTTP {text}"
  else .fatal s!"HTTP {text}"

/-- The characters that the first `bound` bytes hold, one cut through as a replacement. -/
def window : Nat → List Char → List Char
  | _, [] => []
  | bound, c :: rest =>
    if c.utf8Size ≤ bound then c :: window (bound - c.utf8Size) rest
    else if bound = 0 then [] else ['\uFFFD']

def ResponseAction.declares (action : ResponseAction) (status : UInt16) (body : List Char) : Bool :=
  action.status.all (· = status) &&
    action.contentContains.all fun needle => decide (needle.toList <:+: window (64 * 1024) body)

def matchAction (actions : List ResponseAction) (status : UInt16) (body : List Char) :
    Option ResponseAction :=
  actions.find? (·.declares status body)

def Sequence.applyAction (libraries : Libraries) (endpoint : Endpoint) (s : Sequence)
    (response : Response) : ActionKind → Except SourceError (Sequence × Option Page)
  | .error =>
    let name := endpoint.stream.name
    let text := libraries.statusText response.status
    .error (.fatal s!"stream `{name}`: declared error action matched (HTTP {text})")
  | .endStream => .ok ({ s with ended := true }, none)
  | .ignore =>
    .ok ({ s with
      lastBody :=
        if s.paginator.needsBody then (libraries.parseJson response.body).toOption else none },
      some Page.empty)

/-- The body parsed once more, for paginators that read it. -/
def Paginator.keptBody (paginator : Paginator) (libraries : Libraries) (body : List Char) :
    Except SourceError (Option Value) :=
  if paginator.needsBody then (parseBody libraries.parseJson body).map some else .ok none

/-- What the response of a request comes to. Declared actions come first, in their order. -/
def Sequence.receive (libraries : Libraries) (endpoint : Endpoint) (selector : Option Selector)
    (s : Sequence) (response : Response) : Except SourceError (Sequence × Option Page) :=
  match matchAction endpoint.stream.responseActions response.status response.body with
  | some action =>
    { s with lastHeaders := response.headers }.applyAction libraries endpoint response action.kind
  | none =>
    if ¬ response.isSuccess then
      .error (classifyStatus libraries response.status response.retryAfter)
    else do
      let page ← page libraries.parseJson selector endpoint.needsValues response.body
      let lastBody ← s.paginator.keptBody libraries response.body
      pure ({ s with
        totalRecords := s.totalRecords + UInt64.ofNat page.count
        lastHeaders := response.headers
        lastBody := lastBody }, some page)

def isAbsolute (url : List Char) : Bool :=
  "http://".toList.isPrefixOf url || "https://".toList.isPrefixOf url

/-- Where a location that the server names is. -/
def Endpoint.locate (libraries : Libraries) (endpoint : Endpoint) (url : List Char) :
    Except SourceError (List Char) :=
  let name := endpoint.stream.name
  if isAbsolute url then
    (pinNextUrl libraries endpoint.config.baseUrl.toList url).mapError fun reason =>
      .fatal s!"stream `{name}`: {reason}"
  else .ok (joinBaseUrl endpoint.config.baseUrl.toList url)

def Sequence.context (s : Sequence) (page : Page) : PageContext :=
  ⟨s.lastBody, s.lastHeaders, page.count, s.totalRecords⟩

/-- The paginator's next move; whether there is one. -/
def Sequence.advance (libraries : Libraries) (endpoint : Endpoint) (s : Sequence) (page : Page) :
    Except SourceError (Sequence × Bool) :=
  let name := endpoint.stream.name
  if s.ended then .ok (s, false)
  else
    match s.paginator.decide (s.context page) with
    | .error e => .error (.fatal s!"stream `{name}`: {e}")
    | .ok (paginator, .done) => .ok ({ s with paginator := paginator, ended := true }, false)
    | .ok (paginator, .nextParams params) =>
      .ok ({ s with paginator := paginator, pageParams := params, urlOverride := none }, true)
    | .ok (paginator, .nextUrl url) => do
      let absolute ← endpoint.locate libraries url.toList
      pure ({ s with paginator := paginator, urlOverride := some absolute, pageParams := [] }, true)

/-! ## A whole read -/

inductive Ending where
  | complete
  | failed (error : SourceError)
  /-- for a response that is not there yet -/
  | waiting
  deriving DecidableEq, Repr

structure Transcript where
  requests : List PageRequest
  pages : List Page
  ending : Ending

def Transcript.before (request : PageRequest) (page : Page) (behind : Transcript) : Transcript :=
  ⟨request :: behind.requests, page :: behind.pages, behind.ending⟩

/-- The loop of fetch and advance over the responses in their order. -/
def Sequence.read (libraries : Libraries) (endpoint : Endpoint) (selector : Option Selector) :
    List Response → Sequence → Transcript
  | [], s =>
    match s.nextRequest libraries endpoint with
    | .error e => ⟨[], [], .failed e⟩
    | .ok none => ⟨[], [], .complete⟩
    | .ok (some (_, request)) => ⟨[request], [], .waiting⟩
  | response :: responses, s =>
    match s.nextRequest libraries endpoint with
    | .error e => ⟨[], [], .failed e⟩
    | .ok none => ⟨[], [], .complete⟩
    | .ok (some (s, request)) =>
      match s.receive libraries endpoint selector response with
      | .error e => ⟨[request], [], .failed e⟩
      | .ok (_, none) => ⟨[request], [], .complete⟩
      | .ok (s, some page) =>
        match s.advance libraries endpoint page with
        | .error e => ⟨[request], [page], .failed e⟩
        | .ok (_, false) => ⟨[request], [page], .complete⟩
        | .ok (s, true) => .before request page (Sequence.read libraries endpoint selector responses s)

/-- The sequence as it stands when each of the responses has led to a further page. -/
def Sequence.after (libraries : Libraries) (endpoint : Endpoint) (selector : Option Selector) :
    List Response → Sequence → Option Sequence
  | [], s => some s
  | response :: responses, s =>
    match s.nextRequest libraries endpoint with
    | .ok (some (s, _)) =>
      match s.receive libraries endpoint selector response with
      | .ok (s, some page) =>
        match s.advance libraries endpoint page with
        | .ok (s, true) => s.after libraries endpoint selector responses
        | _ => none
      | _ => none
    | _ => none

/-! ## What a step of a sequence does -/

section Steps

variable {libraries : Libraries} {endpoint : Endpoint} {s next : Sequence}

theorem nextRequest_ok {request : PageRequest}
    (h : s.nextRequest libraries endpoint = .ok (some (next, request))) :
    s.fingerprint libraries endpoint ∉ s.seenRequests ∧ s.pages < endpoint.config.maxPages ∧
      next = { s with
        seenRequests := s.fingerprint libraries endpoint :: s.seenRequests, pages := s.pages + 1 } ∧
      request = buildPageRequest endpoint (s.url endpoint) s.pageParams s.extraParams := by
  simp only [Sequence.nextRequest] at h
  split at h
  · cases h
  · split at h
    · cases h
    · rename_i hseen
      split at h
      · cases h
      · rename_i hpages
        cases h
        exact ⟨hseen, UInt64.not_le.mp hpages, rfl, rfl⟩

theorem buildPageRequest_url (url : List Char) (pageParams extraParams : List (String × String)) :
    (buildPageRequest endpoint url pageParams extraParams).url = url := by
  rw [buildPageRequest]
  split <;> rfl

/-- A response leaves alone what decides the next request. -/
theorem receive_frame {selector : Option Selector} {response : Response} {page : Option Page}
    (h : s.receive libraries endpoint selector response = .ok (next, page)) :
    next = { s with
      totalRecords := next.totalRecords
      lastBody := next.lastBody
      lastHeaders := next.lastHeaders
      ended := next.ended } := by
  rw [Sequence.receive] at h
  split at h
  · rename_i action _
    cases hkind : action.kind with
    | error =>
      rw [hkind] at h
      cases h
    | endStream =>
      rw [hkind] at h
      cases h
      rfl
    | ignore =>
      rw [hkind] at h
      cases h
      rfl
  · split at h
    · cases h
    · obtain ⟨page, -, h⟩ := bind_ok.mp h
      obtain ⟨lastBody, -, h⟩ := bind_ok.mp h
      cases h
      rfl

theorem locate_ok {url absolute : List Char}
    (h : endpoint.locate libraries url = .ok absolute) :
    isAbsolute url = true ∧
        pinNextUrl libraries endpoint.config.baseUrl.toList url = .ok absolute ∨
      isAbsolute url = false ∧ absolute = joinBaseUrl endpoint.config.baseUrl.toList url := by
  simp only [Endpoint.locate] at h
  split at h
  · rename_i habsolute
    exact .inl ⟨habsolute, mapError_ok.mp h⟩
  · rename_i hrelative
    cases h
    exact .inr ⟨by simpa using hrelative, rfl⟩

/-- After an advance the sequence is at its end, or asks by parameters, or at a location. -/
theorem advance_ok {page : Page} {more : Bool} (hlive : s.ended = false)
    (h : s.advance libraries endpoint page = .ok (next, more)) :
    ∃ paginator decision, s.paginator.decide (s.context page) = .ok (paginator, decision) ∧
      match decision with
      | .done => more = false ∧ next = { s with paginator := paginator, ended := true }
      | .nextParams params => more = true ∧
        next = { s with paginator := paginator, pageParams := params, urlOverride := none }
      | .nextUrl url => more = true ∧ ∃ absolute,
        endpoint.locate libraries url.toList = .ok absolute ∧
        next = { s with
          paginator := paginator, urlOverride := some absolute, pageParams := [] } := by
  simp only [Sequence.advance] at h
  rw [if_neg (by simp [hlive])] at h
  split at h
  · cases h
  · rename_i paginator hdecide
    cases h
    exact ⟨paginator, .done, hdecide, rfl, rfl⟩
  · rename_i paginator params hdecide
    cases h
    exact ⟨paginator, .nextParams params, hdecide, rfl, rfl⟩
  · rename_i paginator url hdecide
    obtain ⟨absolute, hlocate, h⟩ := bind_ok.mp h
    cases h
    exact ⟨paginator, .nextUrl url, hdecide, rfl, absolute, hlocate, rfl⟩

/-- The bindings of the resume value stay. -/
theorem advance_bindings {page : Page} {more : Bool}
    (h : s.advance libraries endpoint page = .ok (next, more)) :
    next.extraParams = s.extraParams := by
  cases hended : s.ended with
  | true =>
    simp only [Sequence.advance, hended, if_true] at h
    cases h
    rfl
  | false =>
    obtain ⟨paginator, decision, -, hdecision⟩ := advance_ok hended h
    cases decision with
    | done =>
      obtain ⟨-, rfl⟩ := hdecision
      rfl
    | nextParams params =>
      obtain ⟨-, rfl⟩ := hdecision
      rfl
    | nextUrl url =>
      obtain ⟨-, absolute, -, rfl⟩ := hdecision
      rfl

/-- Every request of a read is the one that the sequence makes after some of the responses. -/
theorem read_requests {selector : Option Selector} (responses : List Response) (s : Sequence) :
    ∀ request ∈ (s.read libraries endpoint selector responses).requests,
      ∃ before s' next, before <+: responses ∧
        s.after libraries endpoint selector before = some s' ∧
        s'.nextRequest libraries endpoint = .ok (some (next, request)) := by
  induction responses generalizing s with
  | nil =>
    intro request hrequest
    rw [Sequence.read] at hrequest
    split at hrequest
    · cases hrequest
    · cases hrequest
    · rename_i next first hnext
      cases List.mem_singleton.mp hrequest
      exact ⟨[], s, next, List.prefix_rfl, rfl, hnext⟩
  | cons response responses ih =>
    intro request hrequest
    rw [Sequence.read] at hrequest
    split at hrequest
    · cases hrequest
    · cases hrequest
    · rename_i next first hnext
      have hfirst : ∃ before s' next, before <+: response :: responses ∧
          s.after libraries endpoint selector before = some s' ∧
          s'.nextRequest libraries endpoint = .ok (some (next, first)) :=
        ⟨[], s, next, List.nil_prefix, rfl, hnext⟩
      split at hrequest
      · cases List.mem_singleton.mp hrequest
        exact hfirst
      · cases List.mem_singleton.mp hrequest
        exact hfirst
      · rename_i received page hreceive
        split at hrequest
        · cases List.mem_singleton.mp hrequest
          exact hfirst
        · cases List.mem_singleton.mp hrequest
          exact hfirst
        · rename_i advanced hadvance
          obtain rfl | hbehind := List.mem_cons.mp hrequest
          · exact hfirst
          · obtain ⟨before, s', next', hprefix, hafter, hnext'⟩ := ih advanced request hbehind
            refine ⟨response :: before, s', next', (List.prefix_cons_inj _).mpr hprefix, ?_, hnext'⟩
            simp only [Sequence.after, hnext, hreceive, hadvance, hafter]

/-- The bindings are those that the sequence began with. -/
theorem after_bindings {selector : Option Selector} {responses : List Response}
    (h : s.after libraries endpoint selector responses = some next) :
    next.extraParams = s.extraParams := by
  induction responses generalizing s with
  | nil =>
    cases h
    rfl
  | cons response responses ih =>
    rw [Sequence.after] at h
    split at h
    · rename_i asked _ hnext
      obtain ⟨-, -, rfl, -⟩ := nextRequest_ok hnext
      split at h
      · rename_i received page hreceive
        split at h
        · rename_i advanced hadvance
          rw [ih h, advance_bindings hadvance, receive_frame hreceive]
        · cases h
      · cases h
    · cases h

end Steps

end Rest
