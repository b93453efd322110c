import Mathlib
import RdltConnectors.Library.Fallible
import RdltConnectors.Rest.Libraries
import RdltConnectors.Rest.Select
import RdltConnectors.Sqlcore.Options

/-!
# The validation of a source document

The one gate in front of every source. A refusal is its message.
-/
namespace Rest

open Fallible Whatwg
open Sqlcore (isBlank)

def refuseIf (c : Prop) [Decidable c] (message : String) : Except String Unit :=
  if c then .error message else .ok ()

/-- The URL that every request with credentials answers to. -/
def checkBaseUrl (rules : Rules) (baseUrl : String) : Except String Unit :=
  match parse rules baseUrl.toList with
  | some url =>
    if httpScheme url.scheme ∧ url.host.isSome then .ok ()
    else .error "base_url must be an absolute http(s) URL with a host, e.g. https://api.example.com"
  | none =>
    .error "base_url must be an absolute http(s) URL with a host, e.g. https://api.example.com"

/-- Names that carry a credential. -/
def reservedHeaders : List String :=
  ["authorization", "proxy-authorization", "cookie", "x-api-key", "api-key", "apikey",
    "x-api-token", "x-auth-token", "x-access-token", "x-amz-security-token", "x-goog-api-key",
    "private-token", "x-functions-key"]

def credentialHeaderRefusal (name : String) : Option String :=
  if name.toLower ∈ reservedHeaders then
    some s!"header `{name}` carries a credential — put it under `auth:` (Secret-wrapped and masked), not in a plain `headers:` map that renders verbatim in Debug output"
  else none

/-- The connection-wide headers, where no stream is given, have to parse as well. -/
def checkHeader (libraries : Libraries) (stream : Option String) (name value : String) :
    Except String Unit :=
  if stream.isNone ∧ ¬ libraries.headerName name then
    .error s!"header `{name}`: not a valid HTTP header name"
  else if stream.isNone ∧ ¬ libraries.headerValue value then
    .error s!"header `{name}`: value is not a valid HTTP header value"
  else
    match credentialHeaderRefusal name, stream with
    | some message, some stream => .error s!"stream `{stream}`: {message}"
    | some message, none => .error message
    | none, _ => .ok ()

def validateHeaders (libraries : Libraries) (headers : List (String × String))
    (stream : Option String) : Except String Unit :=
  headers.forM fun (name, value) => checkHeader libraries stream name value

/-- What a body that is no object is called. -/
def bodyKind : Value → String
  | .array _ => "list"
  | .string _ => "string"
  | .null => "null"
  | _ => "scalar"

def validatePostBodyPagination (stream : Stream) : Except String Unit :=
  match stream.body with
  | none => .ok ()
  | some body =>
    if stream.method = .post ∧ stream.pagination.carriesParams ∧ ¬ body.isObject then
      let name := stream.name
      let kind := bodyKind body
      .error s!"stream `{name}`: a paginated POST needs an object `body` — page parameters are merged into it, and a {kind} body has nowhere to carry them, so every page would repeat the first request"
    else .ok ()

def validateCursorSpellings (stream : Stream) : Except String Unit := do
  let name := stream.name
  refuseIf (stream.cursorField.isSome ≠ stream.cursorParam.isSome)
    s!"stream `{name}`: cursor_field and cursor_param must be set together"
  refuseIf (stream.incremental.isSome ∧ stream.cursorField.isSome)
    s!"stream `{name}`: use either the `incremental` block or the legacy cursor_field/cursor_param aliases, not both"
  stream.incremental.toList.forM fun incremental => do
    refuseIf (incremental.endParam.isSome ≠ incremental.endValue.isSome)
      s!"stream `{name}`: incremental.end_param and end_value must be set together (closed windows take explicit values)"
    refuseIf (isBlank incremental.cursorField)
      s!"stream `{name}`: incremental.cursor_field must not be empty"
  refuseIf (stream.body.isSome ∧ stream.method ≠ .post)
    s!"stream `{name}`: `body` requires `method: post`"

def checkSelector (stream label selector : String) : Except String Unit :=
  match Selector.parse selector with
  | .ok _ => .ok ()
  | .error e => .error s!"stream `{stream}`: {label}: {e}"

def validateSelectors (stream : Stream) : Except String Unit := do
  let name := stream.name
  (stream.recordsPath.toList.map (("records_path", ·)) ++ stream.pagination.selectorPaths).forM
    fun (label, selector) => checkSelector name label selector
  match stream.pagination with
  | .page _ _ (some _) (some _) =>
    .error s!"stream `{name}`: pagination declares both total_pages_path and total_count_path — pick one stop condition"
  | _ => .ok ()

def checkResponseAction (stream : String) (index : Nat) (action : ResponseAction) :
    Except String Unit :=
  if action.status.isNone ∧ action.contentContains.isNone then
    .error s!"stream `{stream}`: response_actions[{index}] needs `status` and/or `content_contains` — an unconditional action would swallow every response"
  else
    match action.status with
    | none => .ok ()
    | some status =>
      if 100 ≤ status ∧ status ≤ 599 then .ok ()
      else .error s!"stream `{stream}`: response_actions[{index}]: status {status} is not an HTTP status (100–599)"

def validateResponseActions (stream : Stream) : Except String Unit :=
  stream.responseActions.zipIdx.forM fun (action, index) =>
    checkResponseAction stream.name index action

/-- The token in braces, as templates name it. -/
def braced (token : String) : List Char := '{' :: token.toList ++ ['}']

/-- The braced token stands somewhere in the path, in a parameter's value or in the body as
it is printed. -/
def referenced (stream : Stream) (token : String) : Bool :=
  decide (braced token <:+: stream.path.toList) ||
    stream.params.any (fun param => decide (braced token <:+: param.2.toList)) ||
    stream.body.any fun body => decide (braced token <:+: body.render)

def checkPlaceholder (stream : Stream) (token : String) : Except String Unit :=
  if referenced stream token then .ok ()
  else
    let name := stream.name
    .error s!"stream `{name}`: placeholder `\x7b{token}\x7d` is declared but never used in path, params, or body"

def validateParent (config : Config) (stream : Stream) : Except String Unit :=
  let name := stream.name
  match stream.parent with
  | none =>
    if '{' ∈ stream.path.toList ∧ '}' ∈ stream.path.toList then
      .error s!"stream `{name}`: path contains `\x7bplaceholder\x7d` tokens but no `parent` block declares them"
    else .ok ()
  | some parent =>
    let parentStream := parent.stream
    if parentStream = name then .error s!"stream `{name}`: parent.stream is itself"
    else
      match config.streams.find? (·.name = parentStream) with
      | none => .error s!"stream `{name}`: parent.stream `{parentStream}` is not a declared stream"
      | some declaration =>
        if declaration.parent.isSome then
          .error s!"stream `{name}`: parent.stream `{parentStream}` is itself a child — one level of nesting is supported"
        else if parent.placeholders.isEmpty then
          .error s!"stream `{name}`: parent.placeholders must not be empty"
        else parent.placeholders.forM fun placeholder => checkPlaceholder stream placeholder.1

def validateStream (libraries : Libraries) (config : Config) (stream : Stream) :
    Except String Unit := do
  validatePostBodyPagination stream
  validateHeaders libraries stream.headers (some stream.name)
  validateCursorSpellings stream
  validateSelectors stream
  validateResponseActions stream
  validateParent config stream

def Config.validate (libraries : Libraries) (config : Config) : Except String Unit := do
  refuseIf config.streams.isEmpty "at least one stream is required"
  checkBaseUrl libraries.rules config.baseUrl
  refuseIf (config.maxConcurrency = 0) "max_concurrency must be at least 1"
  refuseIf (config.requestTimeoutSecs = 0)
    "request_timeout_secs must be at least 1 — a request without a deadline can stall a stream forever; raise it rather than disabling it"
  validateHeaders libraries config.headers none
  config.streams.forM (validateStream libraries config)

/-! ## What the checks ensure -/

section Accepted

variable {libraries : Libraries} {config : Config}

theorem checkBaseUrl_ok {rules : Rules} {baseUrl : String} (h : checkBaseUrl rules baseUrl = .ok ()) :
    ∃ url, parse rules baseUrl.toList = some url ∧ httpScheme url.scheme = true ∧
      url.host.isSome = true := by
  rw [checkBaseUrl] at h
  split at h
  · rename_i url hurl
    split at h
    · rename_i hpin
      exact ⟨url, hurl, hpin⟩
    · cases h
  · cases h

theorem validate_ok (h : config.validate libraries = .ok ()) :
    checkBaseUrl libraries.rules config.baseUrl = .ok () ∧
      ∀ stream ∈ config.streams, validateStream libraries config stream = .ok () := by
  obtain ⟨-, -, h⟩ := bind_ok.mp h
  obtain ⟨⟨⟩, hbase, h⟩ := bind_ok.mp h
  obtain ⟨-, -, h⟩ := bind_ok.mp h
  obtain ⟨-, -, h⟩ := bind_ok.mp h
  obtain ⟨-, -, h⟩ := bind_ok.mp h
  exact ⟨hbase, forM_ok.mp h⟩

/-- The base is an http URL with a host. -/
theorem validate_baseUrl (h : config.validate libraries = .ok ()) :
    ∃ url, parse libraries.rules config.baseUrl.toList = some url ∧ httpScheme url.scheme = true ∧
      url.host.isSome = true :=
  checkBaseUrl_ok (validate_ok h).1

/-- Every declared token stands somewhere in the stream's templates, as they are printed. -/
theorem validate_referenced (h : config.validate libraries = .ok ()) {stream : Stream}
    (hstream : stream ∈ config.streams) {parent : Parent} (hparent : stream.parent = some parent) :
    ∀ placeholder ∈ parent.placeholders, referenced stream placeholder.1 = true := by
  have hchecked := (validate_ok h).2 stream hstream
  obtain ⟨-, -, hchecked⟩ := bind_ok.mp hchecked
  obtain ⟨-, -, hchecked⟩ := bind_ok.mp hchecked
  obtain ⟨-, -, hchecked⟩ := bind_ok.mp hchecked
  obtain ⟨-, -, hchecked⟩ := bind_ok.mp hchecked
  obtain ⟨-, -, hchecked⟩ := bind_ok.mp hchecked
  simp only [validateParent, hparent] at hchecked
  split at hchecked
  · cases hchecked
  · split at hchecked
    · cases hchecked
    · split at hchecked
      · cases hchecked
      · split at hchecked
        · cases hchecked
        · intro placeholder hplaceholder
          have hone := forM_ok.mp hchecked placeholder hplaceholder
          rw [checkPlaceholder] at hone
          split at hone
          · assumption
          · cases hone

theorem refuseIf_ok {c : Prop} [Decidable c] {message : String} (h : refuseIf c message = .ok ()) :
    ¬ c := by
  intro hc
  rw [refuseIf, if_pos hc] at h
  cases h

/-- A body is sent. -/
theorem validate_body (h : config.validate libraries = .ok ()) {stream : Stream}
    (hstream : stream ∈ config.streams) (hbody : stream.body.isSome) : stream.method = .post := by
  have hchecked := (validate_ok h).2 stream hstream
  obtain ⟨-, -, hchecked⟩ := bind_ok.mp hchecked
  obtain ⟨-, -, hchecked⟩ := bind_ok.mp hchecked
  obtain ⟨⟨⟩, hcursors, -⟩ := bind_ok.mp hchecked
  obtain ⟨-, -, hcursors⟩ := bind_ok.mp hcursors
  obtain ⟨-, -, hcursors⟩ := bind_ok.mp hcursors
  obtain ⟨-, -, hcursors⟩ := bind_ok.mp hcursors
  by_contra hmethod
  exact refuseIf_ok hcursors ⟨hbody, hmethod⟩

end Accepted

end Rest
