import Mathlib.Logic.Function.Basic
import RdltConnectors.Rest.Client

/-!
# The token cache

One access token is cached for all sends and replaced when it expires or is rejected. The
generation of the cache tells a 401 for the cached token from a late one for a token that
has been replaced.
-/
namespace Rest

/-! ## Credentials -/

structure CachedToken where
  accessToken : String
  expiresAt : Option Nat
  /-- the fetch that issued it, which tells tokens with one text apart -/
  fetch : Nat
  deriving DecidableEq, Repr

structure TokenState where
  generation : UInt64
  cached : Option CachedToken
  deriving DecidableEq, Repr

/-- What comes back from the token endpoint. -/
inductive TokenReply where
  | lost (detail : String)
  | answered (response : Response)

/-- The margin of a refreshable scheme. -/
def Auth.expiryMargin : Auth → Option Nat
  | .oauth2ClientCredentials _ _ _ _ _ margin => some margin
  | _ => .none

/-- The token in a reply that is read at `now`, in nanoseconds. -/
def issueToken (libraries : Libraries) (margin now fetch : Nat) :
    TokenReply → Except SourceError CachedToken
  | .lost detail => .error (.transient detail)
  | .answered response =>
    let text := libraries.statusText response.status
    if response.isSuccess then
      match libraries.parseJson response.body with
      | .error detail => .error (.fatal s!"oauth2 token response: {detail}")
      | .ok body =>
        match body.field "access_token" with
        | some (.string accessToken) =>
          let expiresAt := ((body.field "expires_in").bind Value.asU64).map fun secs =>
            now + (secs.toNat - margin) * 1000000000
          .ok ⟨accessToken, expiresAt, fetch⟩
        | _ => .error (.fatal "oauth2 token response: missing `access_token` field")
    else if response.status = 429 then
      .error (.rateLimited response.retryAfter s!"oauth2 token endpoint: HTTP {text}")
    else if 500 ≤ response.status ∧ response.status < 600 then
      .error (.transient s!"oauth2 token endpoint: HTTP {text}")
    else .error (.fatal s!"oauth2 token endpoint: HTTP {text} — check client credentials")

/-- The cached token, unless it has expired. -/
def TokenState.fresh (state : TokenState) (now : Nat) : Option CachedToken :=
  state.cached.filter fun token => token.expiresAt.all fun expiry => now < expiry

/-- The token for a request and its generation; `fetched` is what a fetch would bring. The
lock is held across the fetch. -/
def TokenState.currentToken (state : TokenState) (now : Nat)
    (fetched : Except SourceError CachedToken) :
    Except SourceError (CachedToken × UInt64) × TokenState :=
  match state.fresh now with
  | some token => (.ok (token, state.generation), state)
  | none =>
    match fetched with
    | .error error => (.error error, state)
    | .ok token => (.ok (token, state.generation + 1), ⟨state.generation + 1, some token⟩)

/-- Whether a request whose credential was rejected tries again, and the cache after it. -/
def Auth.onUnauthorized (auth : Auth) (state : TokenState) (failed : Option UInt64) :
    Bool × TokenState :=
  if auth.expiryMargin.isNone then (false, state)
  else if failed.any (· ≠ state.generation) then (true, state)
  else if state.cached.isNone then (false, state)
  else (true, ⟨state.generation + 1, .none⟩)

/-! ## Sends -/

/-- A request on its way: the token it carries with its generation, and how often the
generation had changed when it was attached. -/
structure Flight where
  token : CachedToken
  generation : UInt64
  attachedAt : Nat
  deriving DecidableEq, Repr

inductive SendPhase where
  | ready
  | inFlight (flight : Option Flight)
  | ended
  deriving DecidableEq, Repr

/-- One send; `authRetries` counts the rejections it went round again after. -/
structure SendState where
  attempts : Attempts
  phase : SendPhase
  authRetries : Nat
  deriving DecidableEq, Repr

def SendState.fresh : SendState := ⟨.fresh, .ready, 0⟩

def SendState.inPhase (send : SendState) (phase : SendPhase) : SendState :=
  { send with phase := phase }

/-- Round again, or at its end. -/
def SendState.answered (send : SendState) (retryAfterCap : Nat) (refreshed : Bool)
    (response : Response) : SendState :=
  match send.attempts.again retryAfterCap refreshed response with
  | some next => ⟨next, .ready, send.authRetries + if response.status = 401 then 1 else 0⟩
  | none => send.inPhase .ended

/-- What became of the token of a fetch. -/
inductive TokenEvent where
  | failed (fetch : Nat)
  | expired (fetch : Nat)
  | rejected (fetch : Nat)
  deriving DecidableEq, Repr

def TokenEvent.fetch : TokenEvent → Nat
  | .failed fetch => fetch
  | .expired fetch => fetch
  | .rejected fetch => fetch

/-- The cache, any number of sends, and what has happened so far. -/
structure TokenWorld where
  state : TokenState
  sends : Nat → SendState
  changes : Nat
  fetches : Nat
  history : List TokenEvent

def TokenWorld.initial : TokenWorld := ⟨⟨0, none⟩, fun _ => .fresh, 0, 0, []⟩

/-- The steps under the lock: a send attaches its credential, with the reply of the token
endpoint if it has to fetch; a send fails without a response; a response comes back. -/
inductive TokenLabel where
  | attach (send now issuedAt : Nat) (reply : TokenReply)
  | fail (send : Nat)
  | reply (send : Nat) (response : Response)

/-- Which token a fetch finds expired, and whether the fetch fails. -/
def fetchEvents (state : TokenState) (fetch : Nat) (fetched : Except SourceError CachedToken) :
    List TokenEvent :=
  state.cached.toList.map (fun token => .expired token.fetch) ++
    match fetched with
    | .error _ => [.failed fetch]
    | .ok _ => []

variable (libraries : Libraries) (auth : Auth) (retryAfterCap : Nat)

def TokenWorld.attach (w : TokenWorld) (i now issuedAt : Nat) (reply : TokenReply) : TokenWorld :=
  match auth.expiryMargin with
  | none => { w with sends := Function.update w.sends i ((w.sends i).inPhase (.inFlight none)) }
  | some margin =>
    let fetched := issueToken libraries margin issuedAt w.fetches reply
    let fetching := w.state.fresh now = none
    let result := w.state.currentToken now fetched
    let changes := if result.2.generation = w.state.generation then w.changes else w.changes + 1
    { state := result.2
      changes := changes
      fetches := if fetching then w.fetches + 1 else w.fetches
      history := w.history ++ if fetching then fetchEvents w.state w.fetches fetched else []
      sends := Function.update w.sends i ((w.sends i).inPhase (
        match result.1 with
        | .error _ => .ended
        | .ok (token, generation) => .inFlight (some ⟨token, generation, changes⟩))) }

/-- A 401 goes through `on_unauthorized` unless the send has been round after one. -/
def TokenWorld.answer (w : TokenWorld) (i : Nat) (flight : Option Flight) (response : Response) :
    TokenWorld :=
  let unauthorized := if response.status = 401 ∧ ¬(w.sends i).attempts.authRetried then
    auth.onUnauthorized w.state (flight.map Flight.generation) else (false, w.state)
  let rejected := if response.status = 401 then flight.toList.map fun f => .rejected f.token.fetch
    else []
  { state := unauthorized.2
    changes := if unauthorized.2.generation = w.state.generation then w.changes else w.changes + 1
    fetches := w.fetches
    history := w.history ++ rejected
    sends := Function.update w.sends i ((w.sends i).answered retryAfterCap unauthorized.1 response) }

def TokenWorld.step (w : TokenWorld) : TokenLabel → TokenWorld
  | .attach i now issuedAt reply =>
    if (w.sends i).phase = .ready then w.attach libraries auth i now issuedAt reply else w
  | .fail i =>
    if (w.sends i).phase = .ended then w
    else { w with sends := Function.update w.sends i ((w.sends i).inPhase .ended) }
  | .reply i response =>
    match (w.sends i).phase with
    | .inFlight flight => w.answer auth retryAfterCap i flight response
    | _ => w

/-! ## One step -/

variable {libraries auth retryAfterCap} {w : TokenWorld} {i now issuedAt : Nat} {reply : TokenReply}

theorem fresh_some {state : TokenState} {token : CachedToken}
    (h : state.fresh now = some token) : state.cached = some token :=
  (Option.filter_eq_some_iff.mp h).1

theorem issueToken_fetch {margin fetch : Nat} {token : CachedToken}
    (h : issueToken libraries margin issuedAt fetch reply = .ok token) : token.fetch = fetch := by
  cases reply with
  | lost detail => cases h
  | answered response =>
    simp only [issueToken] at h
    split at h
    · split at h
      · cases h
      · split at h
        · cases h
          rfl
        · cases h
    · split at h
      · cases h
      · split at h <;> cases h

theorem attach_cached {margin : Nat} {token : CachedToken} (hscheme : auth.expiryMargin = some margin)
    (hfresh : w.state.fresh now = some token) :
    w.attach libraries auth i now issuedAt reply = { w with
      sends := Function.update w.sends i
        ((w.sends i).inPhase (.inFlight (some ⟨token, w.state.generation, w.changes⟩))) } := by
  simp [TokenWorld.attach, hscheme, TokenState.currentToken, hfresh]

theorem attach_failed {margin : Nat} {error : SourceError} (hscheme : auth.expiryMargin = some margin)
    (hfresh : w.state.fresh now = none)
    (hissue : issueToken libraries margin issuedAt w.fetches reply = .error error) :
    w.attach libraries auth i now issuedAt reply = { w with
      fetches := w.fetches + 1
      history := w.history ++ fetchEvents w.state w.fetches (.error error)
      sends := Function.update w.sends i ((w.sends i).inPhase .ended) } := by
  simp [TokenWorld.attach, hscheme, TokenState.currentToken, hfresh, hissue]

theorem attach_fetched {margin : Nat} {token : CachedToken} (hscheme : auth.expiryMargin = some margin)
    (hfresh : w.state.fresh now = none)
    (hissue : issueToken libraries margin issuedAt w.fetches reply = .ok token) :
    w.attach libraries auth i now issuedAt reply =
      { state := ⟨w.state.generation + 1, some token⟩
        changes := w.changes + 1
        fetches := w.fetches + 1
        history := w.history ++ fetchEvents w.state w.fetches (.ok token)
        sends := Function.update w.sends i ((w.sends i).inPhase
          (.inFlight (some ⟨token, w.state.generation + 1, w.changes + 1⟩))) } := by
  simp [TokenWorld.attach, hscheme, TokenState.currentToken, hfresh, hissue]

/-- What a 401 does to the cache: nothing, or it evicts the token of its own generation. -/
theorem onUnauthorized_cases (auth : Auth) (state : TokenState) (failed : Option UInt64) :
    (auth.onUnauthorized state failed).2 = state ∨
    (auth.expiryMargin ≠ none ∧ (∀ generation, failed = some generation → generation = state.generation) ∧
      auth.onUnauthorized state failed = (true, ⟨state.generation + 1, none⟩)) := by
  rw [Auth.onUnauthorized]
  split
  · exact .inl rfl
  · rename_i hscheme
    split
    · exact .inl rfl
    · rename_i hcurrent
      split
      · exact .inl rfl
      · refine .inr ⟨by simpa using hscheme, ?_, rfl⟩
        rintro generation rfl
        simpa using hcurrent

end Rest
