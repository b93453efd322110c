import RdltConnectors.Library.Transition
import RdltConnectors.Rest.Client

/-!
# Where credentials go

Any number of sequences run side by side, over the configured streams and any parent
values. The server answers each of their requests as it likes, by redirects to any
location or by any response; token fetches come and go in between. Every request that is
sent goes into a log.
-/
namespace Rest

open Transition Whatwg

structure Sent where
  url : Url
  credential : Option Credential
  deriving DecidableEq, Repr

inductive Stage where
  | idle
  /-- in a send, with the request to be made once more -/
  | sending (request : PageRequest) (attempts : Attempts)
  /-- the URLs that the request was sent to so far -/
  | flying (request : PageRequest) (attempts : Attempts) (visited : List Url)
      (credential : Option Credential)
  | stopped

structure Running where
  endpoint : Endpoint
  selector : Option Selector
  sequence : Sequence
  stage : Stage

inductive Doing where
  | prepare
  /-- with the access token of the cache, whatever it is -/
  | attempt (accessToken : String)
  | redirect (location : Url)
  /-- `refreshed` is what `on_unauthorized` says -/
  | answer (response : Response) (refreshed : Bool)
  /-- a transport failure or a failed token fetch -/
  | fail

def Running.stop (r : Running) : Running := { r with stage := .stopped }

def Running.prepare (libraries : Libraries) (r : Running) : Running :=
  match r.sequence.nextRequest libraries r.endpoint with
  | .ok (some (sequence, request)) =>
    { r with sequence := sequence, stage := .sending request .fresh }
  | .ok none => r.stop
  | .error _ => r.stop

/-- What the read loop makes of a response that `send` returns. -/
def Running.receive (libraries : Libraries) (r : Running) (response : Response) : Running :=
  match r.sequence.receive libraries r.endpoint r.selector response with
  | .ok (sequence, some page) =>
    match sequence.advance libraries r.endpoint page with
    | .ok (sequence, true) => { r with sequence := sequence, stage := .idle }
    | .ok (_, false) => r.stop
    | .error _ => r.stop
  | .ok (_, none) => r.stop
  | .error _ => r.stop

/-- The sequence after a step, and the request sent in it. -/
def Running.step (libraries : Libraries) (r : Running) : Doing → Running × Option Sent
  | .prepare =>
    match r.stage with
    | .idle => (r.prepare libraries, none)
    | _ => (r, none)
  | .attempt accessToken =>
    match r.stage with
    | .sending request attempts =>
      match parse libraries.rules request.url with
      | some url =>
        let credential := r.endpoint.config.auth.attach accessToken
        ({ r with stage := .flying request attempts [url] credential }, some ⟨url, credential⟩)
      | none => (r.stop, none)
    | _ => (r, none)
  | .redirect location =>
    match r.stage with
    | .flying request attempts visited credential =>
      match followRedirect visited location with
      | .ok () => ({ r with stage := .flying request attempts (visited ++ [location]) credential },
          some ⟨location, credential⟩)
      | .error _ => (r.stop, none)
    | _ => (r, none)
  | .answer response refreshed =>
    match r.stage with
    | .flying request attempts _ _ =>
      match attempts.again r.endpoint.config.retryAfterCapSecs refreshed response with
      | some attempts => ({ r with stage := .sending request attempts }, none)
      | none => (r.receive libraries response, none)
    | _ => (r, none)
  | .fail => (r.stop, none)

/-! ## All of the traffic -/

structure Traffic where
  running : List Running
  /-- the URLs that the token fetch under way was sent to -/
  token : Option (List Url)
  log : List Sent

def Traffic.initial : Traffic := ⟨[], none, []⟩

inductive Happening where
  /-- a sequence over the stream of that index begins -/
  | begin (index : Nat) (parent : Option ParentValues) (needsValues : Bool)
      (incremental : Option Incremental) (startValue : Option String)
  | on (index : Nat) (doing : Doing)
  | fetchToken
  | redirectToken (location : Url)
  | tokenAnswered

def Config.running (config : Config) (stream : Stream) (parent : Option ParentValues)
    (needsValues : Bool) (incremental : Option Incremental) (startValue : Option String) :
    Option Running :=
  match Paginator.build stream.pagination, parseOptionalSelector stream.recordsPath with
  | .ok paginator, .ok selector =>
    some ⟨⟨config, stream, parent, needsValues⟩, selector,
      Sequence.new paginator incremental startValue, .idle⟩
  | _, _ => none

/-- The token endpoint with what is posted to it. -/
def Auth.tokenRequest : Auth → Option (String × Credential)
  | .oauth2ClientCredentials tokenUrl clientId clientSecret _ _ _ =>
    some (tokenUrl, .clientSecret clientId clientSecret)
  | _ => Option.none

def Traffic.step (libraries : Libraries) (config : Config) (t : Traffic) : Happening → Traffic
  | .begin index parent needsValues incremental startValue =>
    match config.streams[index]?.bind fun stream =>
      config.running stream parent needsValues incremental startValue with
    | some r => { t with running := t.running ++ [r] }
    | none => t
  | .on index doing =>
    match t.running[index]? with
    | some r =>
      { t with
        running := t.running.set index (r.step libraries doing).1
        log := t.log ++ (r.step libraries doing).2.toList }
    | none => t
  | .fetchToken =>
    -- single-flight: the cache is locked while one is under way
    match t.token, config.auth.tokenRequest with
    | none, some (tokenUrl, credential) =>
      match parse libraries.rules tokenUrl.toList with
      | some url => { t with token := some [url], log := t.log ++ [⟨url, some credential⟩] }
      | none => t
    | _, _ => t
  | .redirectToken location =>
    match t.token, config.auth.tokenRequest with
    | some visited, some (_, credential) =>
      match followRedirect visited location with
      | .ok () =>
        { t with
          token := some (visited ++ [location]), log := t.log ++ [⟨location, some credential⟩] }
      | .error _ => { t with token := none }
    | _, _ => t
  | .tokenAnswered => { t with token := none }

/-! ## Pinned -/

/-- Whatever URL the text is, it is on the origin of the base. -/
def Targets (libraries : Libraries) (base : Url) (text : List Char) : Prop :=
  ∀ url, parse libraries.rules text = some url → sameOrigin base url = true

/-- A data request on the base's origin, or a token request on that of the token endpoint. -/
inductive Sent.OnOrigin (libraries : Libraries) (config : Config) (base : Url) : Sent → Prop
  | data {url : Url} (accessToken : String) (h : sameOrigin base url = true) :
    OnOrigin libraries config base ⟨url, config.auth.attach accessToken⟩
  | token {url home : Url} {tokenUrl : String} {credential : Credential}
    (hauth : config.auth.tokenRequest = some (tokenUrl, credential))
    (hhome : parse libraries.rules tokenUrl.toList = some home)
    (h : sameOrigin home url = true) : OnOrigin libraries config base ⟨url, some credential⟩

def Stage.Pinned (libraries : Libraries) (config : Config) (base : Url) : Stage → Prop
  | .idle | .stopped => True
  | .sending request _ => Targets libraries base request.url
  | .flying request _ visited credential => Targets libraries base request.url ∧
    (∃ last, visited.getLast? = some last ∧ sameOrigin base last = true) ∧
    ∃ accessToken, credential = config.auth.attach accessToken

structure Running.Pinned (libraries : Libraries) (config : Config) (base : Url) (r : Running) :
    Prop where
  same : r.endpoint.config = config
  override : ∀ text, r.sequence.urlOverride = some text → Targets libraries base text
  stage : r.stage.Pinned libraries config base

structure Traffic.Pinned (libraries : Libraries) (config : Config) (base : Url) (t : Traffic) :
    Prop where
  running : ∀ r ∈ t.running, r.Pinned libraries config base
  token : ∀ visited, t.token = some visited → ∃ tokenUrl credential home last,
    config.auth.tokenRequest = some (tokenUrl, credential) ∧
    parse libraries.rules tokenUrl.toList = some home ∧
    visited.getLast? = some last ∧ sameOrigin home last = true
  log : ∀ sent ∈ t.log, sent.OnOrigin libraries config base

section Pinning

variable {libraries : Libraries} {config : Config} {base : Url}

/-- What a configuration that was accepted says of its base. -/
structure Config.BasedOn (libraries : Libraries) (config : Config) (base : Url) : Prop where
  parses : parse libraries.rules config.baseUrl.toList = some base
  http : httpScheme base.scheme = true

theorem locate_targets (hlibraries : libraries.FollowsGrammar) {endpoint : Endpoint}
    (hbased : endpoint.config.BasedOn libraries base) {url absolute : List Char}
    (h : endpoint.locate libraries url = .ok absolute) : Targets libraries base absolute := by
  intro found hfound
  obtain ⟨-, hpin⟩ | ⟨-, rfl⟩ := locate_ok h
  · exact pin_keeps_origin hlibraries hbased.parses hbased.http hpin hfound
  · exact join_keeps_origin hlibraries hbased.parses hbased.http hfound

theorem url_targets (hlibraries : libraries.FollowsGrammar) {endpoint : Endpoint}
    (hbased : endpoint.config.BasedOn libraries base) {s : Sequence}
    (hoverride : ∀ text, s.urlOverride = some text → Targets libraries base text) :
    Targets libraries base (s.url endpoint) := by
  intro found hfound
  rw [Sequence.url] at hfound
  cases hover : s.urlOverride with
  | none =>
    rw [hover, Option.getD_none, Endpoint.baseUrl] at hfound
    exact join_keeps_origin hlibraries hbased.parses hbased.http hfound
  | some text =>
    rw [hover, Option.getD_some] at hfound
    exact hoverride text hover found hfound

theorem pinned_stop {r : Running} (h : r.Pinned libraries config base) :
    r.stop.Pinned libraries config base :=
  ⟨h.same, h.override, trivial⟩

theorem nothing_sent : ∀ sent ∈ (none : Option Sent), sent.OnOrigin libraries config base := by
  simp

section Steps

variable (hlibraries : libraries.FollowsGrammar) (hbased : config.BasedOn libraries base)
  {r : Running} (h : r.Pinned libraries config base)

include hlibraries hbased h

theorem pinned_prepare : (r.prepare libraries).Pinned libraries config base := by
  have hbase : r.endpoint.config.BasedOn libraries base := h.same ▸ hbased
  rw [Running.prepare]
  split
  · rename_i next request hnext
    obtain ⟨-, -, rfl, rfl⟩ := nextRequest_ok hnext
    refine ⟨h.same, h.override, ?_⟩
    rw [Stage.Pinned, buildPageRequest_url]
    exact url_targets hlibraries hbase h.override
  · exact pinned_stop h
  · exact pinned_stop h

/-- Whatever a response says, the next location is one on the base's origin. -/
theorem pinned_receive (response : Response) :
    (r.receive libraries response).Pinned libraries config base := by
  have hbase : r.endpoint.config.BasedOn libraries base := h.same ▸ hbased
  rw [Running.receive]
  split
  · rename_i next page hreceive
    have hframe := receive_frame hreceive
    have hover : next.urlOverride = r.sequence.urlOverride := by rw [hframe]
    split
    · rename_i last hadvance
      cases hended : next.ended with
      | true => simp [Sequence.advance, hended] at hadvance
      | false =>
        obtain ⟨paginator, decision, -, hdecision⟩ := advance_ok hended hadvance
        refine ⟨h.same, ?_, trivial⟩
        intro text htext
        cases decision with
        | done => exact absurd hdecision.1 (by simp)
        | nextParams params =>
          rw [hdecision.2] at htext
          cases htext
        | nextUrl url =>
          obtain ⟨-, absolute, hlocate, rfl⟩ := hdecision
          cases htext
          exact locate_targets hlibraries hbase hlocate
    · exact pinned_stop h
    · exact pinned_stop h
  · exact pinned_stop h
  · exact pinned_stop h

/-- One step of a sequence: it stays pinned, and what it sends is on the base's origin. -/
theorem pinned_step (doing : Doing) :
    (r.step libraries doing).1.Pinned libraries config base ∧
      ∀ sent ∈ (r.step libraries doing).2, sent.OnOrigin libraries config base := by
  have hstage := h.stage
  cases doing with
  | prepare =>
    simp only [Running.step]
    split
    · exact ⟨pinned_prepare hlibraries hbased h, nothing_sent⟩
    · exact ⟨h, nothing_sent⟩
  | attempt accessToken =>
    simp only [Running.step]
    split
    · rename_i request attempts hsending
      rw [hsending] at hstage
      split
      · rename_i url hurl
        have horigin := hstage url hurl
        constructor
        · refine ⟨h.same, h.override, hstage, ⟨url, rfl, horigin⟩, accessToken, ?_⟩
          rw [h.same]
        · intro sent hsent
          cases hsent
          rw [h.same]
          exact .data accessToken horigin
      · exact ⟨pinned_stop h, nothing_sent⟩
    · exact ⟨h, nothing_sent⟩
  | redirect location =>
    simp only [Running.step]
    split
    · rename_i request attempts visited credential hflying
      rw [hflying] at hstage
      obtain ⟨htargets, ⟨last, hlast, horigin⟩, accessToken, rfl⟩ := hstage
      split
      · rename_i hfollow
        obtain ⟨previous, hprevious, hsame⟩ := followRedirect_ok hfollow
        rw [hlast] at hprevious
        cases hprevious
        have hnext := sameOrigin_trans horigin hsame
        constructor
        · exact ⟨h.same, h.override, htargets, ⟨location, by simp, hnext⟩, accessToken, rfl⟩
        · intro sent hsent
          cases hsent
          exact .data accessToken hnext
      · exact ⟨pinned_stop h, nothing_sent⟩
    · exact ⟨h, nothing_sent⟩
  | answer response refreshed =>
    simp only [Running.step]
    split
    · rename_i request attempts visited credential hflying
      rw [hflying] at hstage
      split
      · exact ⟨⟨h.same, h.override, hstage.1⟩, nothing_sent⟩
      · exact ⟨pinned_receive hlibraries hbased h response, nothing_sent⟩
    · exact ⟨h, nothing_sent⟩
  | fail => exact ⟨pinned_stop h, nothing_sent⟩

end Steps

theorem pinned_running {stream : Stream} {parent : Option ParentValues} {needsValues : Bool}
    {incremental : Option Incremental} {startValue : Option String} {r : Running}
    (h : config.running stream parent needsValues incremental startValue = some r) :
    r.Pinned libraries config base := by
  rw [Config.running] at h
  split at h
  · cases h
    exact ⟨rfl, nofun, trivial⟩
  · cases h

theorem mem_append_singleton {α : Type} {P : α → Prop} {l : List α} {a : α}
    (hl : ∀ x ∈ l, P x) (ha : P a) : ∀ x ∈ l ++ [a], P x := by
  intro x hx
  obtain hx | hx := List.mem_append.mp hx
  · exact hl x hx
  · cases List.mem_singleton.mp hx
    exact ha

/-- What one step of all the traffic preserves. -/
theorem pinned_traffic_step (hlibraries : libraries.FollowsGrammar)
    (hbased : config.BasedOn libraries base) {t : Traffic}
    (h : t.Pinned libraries config base) (happening : Happening) :
    (t.step libraries config happening).Pinned libraries config base := by
  cases happening with
  | begin index parent needsValues incremental startValue =>
    simp only [Traffic.step]
    split
    · rename_i r hr
      obtain ⟨stream, -, hrunning⟩ := Option.bind_eq_some_iff.mp hr
      exact ⟨mem_append_singleton h.running (pinned_running hrunning), h.token, h.log⟩
    · exact h
  | on index doing =>
    simp only [Traffic.step]
    split
    · rename_i r hr
      obtain ⟨hpinned, hsent⟩ :=
        pinned_step hlibraries hbased (h.running r (List.mem_of_getElem? hr)) doing
      refine ⟨?_, h.token, ?_⟩
      · intro other hother
        obtain hmem | rfl := List.mem_or_eq_of_mem_set hother
        · exact h.running other hmem
        · exact hpinned
      · intro sent hin
        obtain hin | hin := List.mem_append.mp hin
        · exact h.log sent hin
        · exact hsent sent (Option.mem_toList.mp hin)
    · exact h
  | fetchToken =>
    simp only [Traffic.step]
    split
    · rename_i tokenUrl credential htoken hauth
      split
      · rename_i url hurl
        have hself : sameOrigin url url = true := sameOrigin_of_front rfl rfl rfl
        refine ⟨h.running, ?_, mem_append_singleton h.log (.token hauth hurl hself)⟩
        intro visited hvisited
        cases hvisited
        exact ⟨tokenUrl, credential, url, url, hauth, hurl, rfl, hself⟩
      · exact h
    · exact h
  | redirectToken location =>
    simp only [Traffic.step]
    split
    · rename_i visited _ credential hvisited hauth
      obtain ⟨tokenUrl, _, home, last, hauth', hhome, hlast, horigin⟩ := h.token visited hvisited
      rw [hauth] at hauth'
      cases hauth'
      split
      · rename_i hfollow
        obtain ⟨previous, hprevious, hsame⟩ := followRedirect_ok hfollow
        rw [hlast] at hprevious
        cases hprevious
        have hnext := sameOrigin_trans horigin hsame
        refine ⟨h.running, ?_, mem_append_singleton h.log (.token hauth hhome hnext)⟩
        intro after hafter
        cases hafter
        exact ⟨_, credential, home, location, hauth, hhome, by simp, hnext⟩
      · exact ⟨h.running, nofun, h.log⟩
    · exact h
  | tokenAnswered => exact ⟨h.running, nofun, h.log⟩

theorem pinned_initial : Traffic.initial.Pinned libraries config base where
  running := by simp [Traffic.initial]
  token := by simp [Traffic.initial]
  log := by simp [Traffic.initial]

theorem pinned_traffic (hlibraries : libraries.FollowsGrammar)
    (hbased : config.BasedOn libraries base) (happenings : List Happening) :
    (run (Traffic.step libraries config) Traffic.initial happenings).Pinned libraries config base :=
  run_invariant_always (Traffic.Pinned libraries config base)
    (fun _ happening h => pinned_traffic_step hlibraries hbased h happening)
    pinned_initial happenings

theorem attach_no_secret (auth : Auth) (accessToken id secret : String) :
    auth.attach accessToken ≠ some (.clientSecret id secret) := by
  cases auth <;> simp [Auth.attach]

theorem tokenRequest_secret {auth : Auth} {tokenUrl : String} {credential : Credential}
    (h : auth.tokenRequest = some (tokenUrl, credential)) :
    ∃ id secret, credential = .clientSecret id secret := by
  cases auth with
  | oauth2ClientCredentials _ id secret _ _ _ =>
    cases h
    exact ⟨id, secret, rfl⟩
  | _ => cases h

end Pinning

/-- Under every accepted configuration and whatever the server answers, a request goes to
the scheme, host and port of the base, but for those with the client secret, which go to
the origin of the token endpoint. -/
theorem credentials_stay_pinned (libraries : Libraries) (hlibraries : libraries.FollowsGrammar)
    (config : Config) (haccepted : config.validate libraries = .ok ())
    (happenings : List Happening) :
    ∃ base, parse libraries.rules config.baseUrl.toList = some base ∧ base.host.isSome = true ∧
      ∀ sent ∈ (run (Traffic.step libraries config) Traffic.initial happenings).log,
        ((∀ id secret, sent.credential ≠ some (.clientSecret id secret)) →
          base.scheme = sent.url.scheme ∧ base.host = sent.url.host ∧
          base.effectivePort = sent.url.effectivePort) ∧
        ∀ id secret, sent.credential = some (.clientSecret id secret) → ∃ tokenUrl home,
          config.auth.tokenRequest = some (tokenUrl, .clientSecret id secret) ∧
          parse libraries.rules tokenUrl.toList = some home ∧
          home.scheme = sent.url.scheme ∧ home.host = sent.url.host ∧
          home.effectivePort = sent.url.effectivePort := by
  obtain ⟨base, hparses, hhttp, hhost⟩ := validate_baseUrl haccepted
  have hpinned := pinned_traffic hlibraries ⟨hparses, hhttp⟩ happenings
  refine ⟨base, hparses, hhost, ?_⟩
  intro sent hsent
  cases hpinned.log sent hsent with
  | data accessToken horigin =>
    constructor
    · exact fun _ => sameOrigin_iff.mp horigin
    · intro id secret hcredential
      exact absurd hcredential (attach_no_secret config.auth accessToken id secret)
  | token hauth hhome horigin =>
    constructor
    · intro hnone
      obtain ⟨id, secret, rfl⟩ := tokenRequest_secret hauth
      exact absurd rfl (hnone id secret)
    · intro id secret hcredential
      cases hcredential
      exact ⟨_, _, hauth, hhome, sameOrigin_iff.mp horigin⟩

/-! A source behind an identity provider. -/

def plainHost (c : Char) : Bool := c.isAlphanum || c = '.' || c = '-'

def plainLibraries : Libraries where
  rules := ⟨fun text => if text.isEmpty then none else if text.all plainHost then some text else none,
    fun _ _ => none⟩
  printer := ⟨fun userinfo => if (userinfo.filter Char.isAlphanum).isEmpty then []
      else userinfo.filter Char.isAlphanum ++ ['@'],
    fun rest => '/' :: (rest.dropWhile slash).filter fun c => !blank c⟩
  parseError := fun _ => "invalid URL"
  headerName := fun name => name.toList.all Char.isAlphanum
  headerValue := fun _ => true
  statusText := fun status => toString status.toNat
  parseJson := fun text => if text = ['[', ']'] then .ok (.array []) else .error "expected value"
  fingerprint := fun url pageParams extraParams =>
    (url ++ (pageParams ++ extraParams).flatMap fun (name, value) =>
      name.toList ++ '=' :: value.toList).foldl (fun h c => h * 31 + UInt64.ofNat c.toNat) 7

theorem plainHost_plain {c : Char} (h : plainHost c = true) :
    inAuthority c = true ∧ blank c = false ∧ c ≠ '@' ∧ c ≠ ':' ∧ c ≠ '[' := by
  simp only [plainHost, Bool.or_eq_true, decide_eq_true_eq] at h
  obtain (h | rfl) | rfl := h
  · exact alphanum_plain h
  · decide
  · decide

theorem plainLibraries_host {text host : List Char}
    (h : plainLibraries.rules.host text = some host) :
    host = text ∧ text ≠ [] ∧ ∀ c ∈ text, plainHost c = true := by
  simp only [plainLibraries] at h
  split at h
  · cases h
  · rename_i hempty
    split at h
    · rename_i hall
      cases h
      exact ⟨rfl, by simpa using hempty, List.all_eq_true.mp hall⟩
    · cases h

theorem plainLibraries_follow : plainLibraries.FollowsGrammar where
  strict := by
    constructor
    · intro text host h c hc
      obtain ⟨-, -, hplain⟩ := plainLibraries_host h
      exact (plainHost_plain (hplain c hc)).2.1
    · intro scheme behind url h
      cases h
  prints := by
    constructor
    · intro text host h
      obtain ⟨rfl, hne, hplain⟩ := plainLibraries_host h
      refine ⟨h, ?_, hne⟩
      intro c hc
      obtain ⟨hin, hblank, hat, -⟩ := plainHost_plain (hplain c hc)
      exact ⟨hin, hblank, hat⟩
    · intro text host h
      obtain ⟨rfl, -, hplain⟩ := plainLibraries_host h
      have hcolon : ':' ∉ host := fun hc => (plainHost_plain (hplain ':' hc)).2.2.2.1 rfl
      have hbracket : '[' ∉ host := fun hc => (plainHost_plain (hplain '[' hc)).2.2.2.2 rfl
      exact ⟨splitPort_none false hcolon, splitPort_colon hcolon hbracket⟩
    · intro text
      simp only [plainLibraries]
      split
      · exact ⟨nofun, .inl rfl⟩
      · constructor
        · apply mem_append_singleton
          · intro c hc
            obtain ⟨hin, hblank, -⟩ := alphanum_plain (List.mem_filter.mp hc).2
            exact ⟨hin, hblank⟩
          · decide
        · exact .inr ⟨_, rfl⟩
    · intro text
      refine ⟨_, rfl, ?_⟩
      intro c hc
      simpa using (List.mem_filter.mp hc).2

def pinnedConfig : Config where
  baseUrl := "https://api.example.com/v1/"
  auth := .oauth2ClientCredentials "https://id.example.com/token" "id" "secret" [] none 60
  streams := [{ name := "items", path := "/items" }]

def secondPage : Url := ⟨"https".toList, none, some "api.example.com".toList, none, "/v2".toList⟩

/-- A token is fetched, and the request with it is sent on to the second version. -/
def pinnedTraffic : List Happening :=
  [.begin 0 none false none none, .on 0 .prepare, .fetchToken, .tokenAnswered,
    .on 0 (.attempt "access"), .on 0 (.redirect secondPage)]

theorem credentials_stay_pinned_to_the_api : ∃ base,
    parse plainLibraries.rules pinnedConfig.baseUrl.toList = some base ∧
    base.host.isSome = true ∧
    ∀ sent ∈ (run (Traffic.step plainLibraries pinnedConfig) Traffic.initial pinnedTraffic).log,
      ((∀ id secret, sent.credential ≠ some (.clientSecret id secret)) →
        base.scheme = sent.url.scheme ∧ base.host = sent.url.host ∧
        base.effectivePort = sent.url.effectivePort) ∧
      ∀ id secret, sent.credential = some (.clientSecret id secret) → ∃ tokenUrl home,
        pinnedConfig.auth.tokenRequest = some (tokenUrl, .clientSecret id secret) ∧
        parse plainLibraries.rules tokenUrl.toList = some home ∧
        home.scheme = sent.url.scheme ∧ home.host = sent.url.host ∧
        home.effectivePort = sent.url.effectivePort :=
  credentials_stay_pinned plainLibraries plainLibraries_follow pinnedConfig (by decide +kernel)
    pinnedTraffic

set_option maxRecDepth 10000 in
example : (run (Traffic.step plainLibraries pinnedConfig) Traffic.initial
    pinnedTraffic).log.length = 3 := by decide +kernel

end Rest
