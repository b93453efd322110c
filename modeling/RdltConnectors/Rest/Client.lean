import RdltConnectors.Rest.Sequence

/-!
# Sending

What is attached to a request, which redirects are followed, and when a send tries
again.
-/
namespace Rest

open Whatwg

/-- What authenticates a request. -/
inductive Credential where
  | bearer (token : String)
  | header (name value : String)
  | basic (username password : String)
  | apiKey (name key : String) (location : KeyLocation)
  | clientSecret (id secret : String)
  deriving DecidableEq, Repr

/-- The credential of a data request; an access token is the one in the cache. -/
def Auth.attach (auth : Auth) (accessToken : String) : Option Credential :=
  match auth with
  | .none => Option.none
  | .bearer token => some (.bearer token)
  | .header name value => some (.header name value)
  | .basic username password => some (.basic username password)
  | .apiKey name key location => some (.apiKey name key location)
  | .oauth2ClientCredentials .. => some (.bearer accessToken)

def maxRedirects : Nat := 10

/-- The redirect policy, for the URLs so far in their order and the next one. -/
def followRedirect (previous : List Url) (next : Url) : Except String Unit :=
  if maxRedirects ≤ previous.length then .error "too many redirects"
  else
    match previous.getLast? with
    | some last =>
      if sameOrigin last next then .ok ()
      else .error "redirect leaves the request's origin — credentials are pinned to the origin the config named"
    | none =>
      .error "redirect leaves the request's origin — credentials are pinned to the origin the config named"

/-- What a send has used up of its two retries. -/
structure Attempts where
  rateLimitWaited : Bool
  authRetried : Bool
  deriving DecidableEq, Repr

def Attempts.fresh : Attempts := ⟨false, false⟩

def Response.isRateLimit (response : Response) : Bool :=
  response.status = 429 || response.status = 503

/-- The state to try again in, if the response is not to be returned. `refreshed` is what
`on_unauthorized` says. -/
def Attempts.again (attempts : Attempts) (retryAfterCap : Nat) (refreshed : Bool)
    (response : Response) : Option Attempts :=
  if response.isSuccess then none
  else if response.status = 401 ∧ ¬ attempts.authRetried ∧ refreshed then
    some { attempts with authRetried := true }
  else if ¬ attempts.rateLimitWaited ∧ response.isRateLimit ∧
      response.retryAfter.any (· ≤ retryAfterCap) then
    some { attempts with rateLimitWaited := true }
  else none

/-- Each retry is made once at most. -/
def Attempts.left (attempts : Attempts) : Nat :=
  (!attempts.rateLimitWaited).toNat + (!attempts.authRetried).toNat

theorem again_left {attempts next : Attempts} {cap : Nat} {refreshed : Bool} {response : Response}
    (h : attempts.again cap refreshed response = some next) : next.left < attempts.left := by
  rw [Attempts.again] at h
  split at h
  · cases h
  · split at h
    · rename_i hauth
      cases h
      simp [Attempts.left, hauth.2.1]
    · split at h
      · rename_i hwait
        cases h
        simp [Attempts.left, hwait.1]
      · cases h

/-- A redirect that is followed stays on the origin of the URL before. -/
theorem followRedirect_ok {previous : List Url} {next : Url}
    (h : followRedirect previous next = .ok ()) :
    ∃ last, previous.getLast? = some last ∧ sameOrigin last next = true := by
  rw [followRedirect] at h
  split at h
  · cases h
  · split at h
    · rename_i last hlast
      split at h
      · rename_i horigin
        exact ⟨last, hlast, horigin⟩
      · cases h
    · cases h

end Rest
