import Mathlib
import RdltConnectors.Library.Transition
import RdltConnectors.Rest.Pinning
import RdltConnectors.Rest.Token

/-!
# Rejections and the cache

Which request a 401 speaks for is read off the generation, so the invariant ties the
generation of each request in flight to the token it carries. The generation is a counter of
64 bits, and it comes round.
-/
namespace Rest

open Transition

variable {libraries : Libraries} {auth : Auth} {retryAfterCap : Nat} {w : TokenWorld}
  {i now issuedAt : Nat} {reply : TokenReply}

/-! ## Invariant -/

/-- The tokens that failed to be fetched, expired or were rejected. -/
def TokenWorld.spent (w : TokenWorld) : Finset Nat := (w.history.map TokenEvent.fetch).toFinset

/-- The generation counts the changes, as far as its width goes. A request whose generation
has not changed since carries the cached token. Every fetch but the one that cached the
token is spent. -/
structure TokenWorld.Sound (auth : Auth) (w : TokenWorld) : Prop where
  generation : w.state.generation = UInt64.ofNat w.changes
  flights : ∀ i flight, (w.sends i).phase = .inFlight (some flight) →
    flight.generation = UInt64.ofNat flight.attachedAt ∧ flight.attachedAt ≤ w.changes ∧
      (flight.attachedAt = w.changes → ∀ token, w.state.cached = some token → flight.token = token)
  plain : ∀ i, (w.sends i).phase = .inFlight none → auth.expiryMargin = none
  spent : ∀ fetch < w.fetches, fetch ∈ w.spent ∨ w.state.cached.map CachedToken.fetch = some fetch
  retries : ∀ i, (w.sends i).authRetries = (w.sends i).attempts.authRetried.toNat

theorem initial_sound (auth : Auth) : TokenWorld.initial.Sound auth :=
  ⟨rfl, (by rintro _ _ ⟨⟩), (by rintro _ ⟨⟩), fun _ h => absurd h (Nat.not_lt_zero _), fun _ => rfl⟩

/-- The generation has changed fewer than `2 ^ 64` times since the request was attached. -/
def Timely (w : TokenWorld) : TokenLabel → Prop
  | .reply i response => response.status = 401 → ∀ flight,
      (w.sends i).phase = .inFlight (some flight) → w.changes < flight.attachedAt + 2 ^ 64
  | _ => True

theorem ofNat_inj_of_near {a b : Nat} (hle : a ≤ b) (hnear : b < a + 2 ^ 64)
    (h : UInt64.ofNat a = UInt64.ofNat b) : a = b := by
  have hmod := congrArg UInt64.toNat h
  rw [UInt64.toNat_ofNat', UInt64.toNat_ofNat'] at hmod
  omega

theorem ofNat_succ (n : Nat) : UInt64.ofNat n + 1 = UInt64.ofNat (n + 1) := by
  rw [UInt64.ofNat_add]
  rfl

theorem spent_append {w : TokenWorld} {events : List TokenEvent} {fetch : Nat} :
    fetch ∈ ((w.history ++ events).map TokenEvent.fetch).toFinset ↔
      fetch ∈ w.spent ∨ fetch ∈ events.map TokenEvent.fetch := by
  rw [List.mem_toFinset, List.map_append, List.mem_append, TokenWorld.spent, List.mem_toFinset]

/-- A phase of an updated send is the new one or that of another send. -/
theorem update_phase {sends : Nat → SendState} {i j : Nat} {send : SendState} {phase : SendPhase}
    (h : (Function.update sends i send j).phase = phase) :
    (j = i ∧ send.phase = phase) ∨ (j ≠ i ∧ (sends j).phase = phase) := by
  by_cases hji : j = i
  · subst hji
    rw [Function.update_self] at h
    exact .inl ⟨rfl, h⟩
  · rw [Function.update_of_ne hji] at h
    exact .inr ⟨hji, h⟩

theorem update_retries {sends : Nat → SendState} {i : Nat} {send : SendState}
    (hsend : send.authRetries = send.attempts.authRetried.toNat)
    (h : ∀ j, (sends j).authRetries = (sends j).attempts.authRetried.toNat) (j : Nat) :
    (Function.update sends i send j).authRetries =
      (Function.update sends i send j).attempts.authRetried.toNat := by
  by_cases hji : j = i
  · rw [hji, Function.update_self]
    exact hsend
  · rw [Function.update_of_ne hji]
    exact h j

/-- A fetch is made where the token before is spent. -/
theorem fetch_spent (hsound : w.Sound auth) (fetched : Except SourceError CachedToken) {fetch : Nat} (h : fetch < w.fetches) :
    fetch ∈ ((w.history ++ fetchEvents w.state w.fetches fetched).map TokenEvent.fetch).toFinset := by
  rw [spent_append]
  obtain hspent | hcached := hsound.spent fetch h
  · exact .inl hspent
  · right
    obtain ⟨token, htoken, rfl⟩ := Option.map_eq_some_iff.mp hcached
    simp [fetchEvents, htoken, TokenEvent.fetch]

/-- What a request in flight knows of the cache. -/
def TokenWorld.Carries (w : TokenWorld) (flight : Flight) : Prop :=
  flight.generation = UInt64.ofNat flight.attachedAt ∧ flight.attachedAt ≤ w.changes ∧
    (flight.attachedAt = w.changes → ∀ token, w.state.cached = some token → flight.token = token)

/-- One send moves on, and the cache stays. -/
theorem TokenWorld.Sound.move (hsound : w.Sound auth) {send : SendState}
    (hflight : ∀ flight, send.phase = .inFlight (some flight) → w.Carries flight)
    (hplain : send.phase = .inFlight none → auth.expiryMargin = none)
    (hretries : send.authRetries = send.attempts.authRetried.toNat) :
    TokenWorld.Sound auth { w with sends := Function.update w.sends i send } := by
  constructor
  case generation => exact hsound.generation
  case flights =>
    intro j flight hphase
    obtain ⟨-, hnew⟩ | ⟨-, hold⟩ := update_phase hphase
    · exact hflight flight hnew
    · exact hsound.flights j flight hold
  case plain =>
    intro j hphase
    obtain ⟨-, hnew⟩ | ⟨-, hold⟩ := update_phase hphase
    · exact hplain hnew
    · exact hsound.plain j hold
  case spent => exact hsound.spent
  case retries => exact update_retries hretries hsound.retries

/-- A fetch that fails is spent itself. -/
theorem TokenWorld.Sound.failed (hsound : w.Sound auth) (error : SourceError) :
    TokenWorld.Sound auth { w with
      fetches := w.fetches + 1
      history := w.history ++ fetchEvents w.state w.fetches (.error error) } := by
  constructor
  case generation => exact hsound.generation
  case flights => exact hsound.flights
  case plain => exact hsound.plain
  case spent =>
    intro fetch hlt
    left
    by_cases hthis : fetch = w.fetches
    · rw [TokenWorld.spent, spent_append]
      right
      simp [fetchEvents, TokenEvent.fetch, hthis]
    · exact fetch_spent hsound _ (Nat.lt_of_le_of_ne (Nat.le_of_lt_succ hlt) hthis)
  case retries => exact hsound.retries

/-- No request in flight has the generation of a token that was just fetched. -/
theorem TokenWorld.Sound.fetched (hsound : w.Sound auth) {token : CachedToken}
    (hfetch : token.fetch = w.fetches) :
    TokenWorld.Sound auth
      { state := ⟨w.state.generation + 1, some token⟩
        changes := w.changes + 1
        fetches := w.fetches + 1
        history := w.history ++ fetchEvents w.state w.fetches (.ok token)
        sends := w.sends } := by
  constructor
  case generation =>
    change w.state.generation + 1 = UInt64.ofNat (w.changes + 1)
    rw [hsound.generation, ofNat_succ]
  case flights =>
    intro j flight hphase
    obtain ⟨hgeneration, hle, -⟩ := hsound.flights j flight hphase
    refine ⟨hgeneration, Nat.le_succ_of_le hle, fun hnow => ?_⟩
    simp only at hnow
    omega
  case plain => exact hsound.plain
  case spent =>
    intro fetch hlt
    by_cases hthis : fetch = w.fetches
    · right
      rw [hthis, ← hfetch]
      rfl
    · left
      exact fetch_spent hsound _ (Nat.lt_of_le_of_ne (Nat.le_of_lt_succ hlt) hthis)
  case retries => exact hsound.retries

theorem attach_sound (hsound : w.Sound auth) :
    (w.attach libraries auth i now issuedAt reply).Sound auth := by
  cases hscheme : auth.expiryMargin with
  | none =>
    have hplain : w.attach libraries auth i now issuedAt reply = { w with
        sends := Function.update w.sends i ((w.sends i).inPhase (.inFlight none)) } := by
      simp only [TokenWorld.attach, hscheme]
    rw [hplain]
    exact hsound.move (by rintro _ ⟨⟩) (fun _ => hscheme) (hsound.retries i)
  | some margin =>
    obtain hfresh | ⟨token, hfresh⟩ := Option.eq_none_or_eq_some (w.state.fresh now)
    · cases hissue : issueToken libraries margin issuedAt w.fetches reply with
      | error error =>
        rw [attach_failed hscheme hfresh hissue]
        exact (hsound.failed error).move (by rintro _ ⟨⟩) (by rintro ⟨⟩) (hsound.retries i)
      | ok token =>
        rw [attach_fetched hscheme hfresh hissue]
        apply (hsound.fetched (issueToken_fetch hissue)).move
        · intro flight hflight
          cases hflight
          refine ⟨?_, Nat.le_refl _, fun _ cached hcached => Option.some_inj.mp hcached⟩
          change w.state.generation + 1 = UInt64.ofNat (w.changes + 1)
          rw [hsound.generation, ofNat_succ]
        · rintro ⟨⟩
        · exact hsound.retries i
    · rw [attach_cached hscheme hfresh]
      apply hsound.move
      · intro flight hflight
        cases hflight
        refine ⟨hsound.generation, Nat.le_refl _, fun _ cached hcached => ?_⟩
        exact Option.some_inj.mp ((fresh_some hfresh).symm.trans hcached)
      · rintro ⟨⟩
      · exact hsound.retries i

variable (retryAfterCap) in
/-- What a response does: an eviction is that of the token the request carried. -/
theorem answer_cases (hsound : w.Sound auth) {flight : Option Flight} {response : Response}
    (hphase : (w.sends i).phase = .inFlight flight)
    (htimely : Timely w (.reply i response)) :
    ((w.answer auth retryAfterCap i flight response).state = w.state ∧
      (w.answer auth retryAfterCap i flight response).changes = w.changes) ∨
    (response.status = 401 ∧ ∃ carried, flight = some carried ∧
      (w.answer auth retryAfterCap i flight response).state = ⟨w.state.generation + 1, none⟩ ∧
      (w.answer auth retryAfterCap i flight response).changes = w.changes + 1 ∧
      ∀ token, w.state.cached = some token → carried.token = token) := by
  have hnext : w.state.generation + 1 ≠ w.state.generation := by simp
  by_cases hhandled : response.status = 401 ∧ ¬(w.sends i).attempts.authRetried
  · obtain hkept | ⟨hscheme, hgeneration, hevicted⟩ :=
      onUnauthorized_cases auth w.state (flight.map Flight.generation)
    · left
      simp only [TokenWorld.answer, if_pos hhandled, hkept, if_true, and_self]
    · right
      cases flight with
      | none => exact absurd (hsound.plain i hphase) hscheme
      | some carried =>
        have hnear := htimely hhandled.1 carried hphase
        obtain ⟨hcarried, hle, hsame⟩ := hsound.flights i carried hphase
        have hnow : carried.attachedAt = w.changes := by
          apply ofNat_inj_of_near hle hnear
          rw [← hcarried, ← hsound.generation]
          exact hgeneration _ rfl
        refine ⟨hhandled.1, carried, rfl, ?_, ?_, hsame hnow⟩
        · simp only [TokenWorld.answer, if_pos hhandled, hevicted]
        · simp only [TokenWorld.answer, if_pos hhandled, hevicted, if_neg hnext]
  · left
    simp only [TokenWorld.answer, if_neg hhandled, if_true, and_self]

theorem answered_phase (send : SendState) (refreshed : Bool) (response : Response)
    (flight : Option Flight) :
    (send.answered retryAfterCap refreshed response).phase ≠ .inFlight flight := by
  rw [SendState.answered]
  split <;> rintro ⟨⟩

/-- A send goes round after one rejection at most. -/
theorem answered_retries {send : SendState} (refreshed : Bool) (response : Response)
    (h : send.authRetries = send.attempts.authRetried.toNat) :
    (send.answered retryAfterCap refreshed response).authRetries =
      (send.answered retryAfterCap refreshed response).attempts.authRetried.toNat := by
  rw [SendState.answered]
  split
  · rename_i next hagain
    simp only [Attempts.again] at hagain
    split at hagain
    · cases hagain
    · split at hagain
      · rename_i hauth
        cases hagain
        simp [hauth.1, hauth.2.1, h]
      · split at hagain
        · rename_i hwait
          cases hagain
          have hstatus : response.status ≠ 401 := by
            intro h401
            have hlimit := hwait.2.1
            simp [Response.isRateLimit, h401] at hlimit
          simp only [if_neg hstatus, Nat.add_zero, h]
        · cases hagain
  · exact h

theorem answer_sound (hsound : w.Sound auth) {flight : Option Flight} {response : Response}
    (hphase : (w.sends i).phase = .inFlight flight) (htimely : Timely w (.reply i response)) :
    (w.answer auth retryAfterCap i flight response).Sound auth := by
  have hflights : ∀ j other,
      ((w.answer auth retryAfterCap i flight response).sends j).phase = .inFlight other →
        (w.sends j).phase = .inFlight other := by
    intro j other hother
    obtain ⟨-, hnew⟩ | ⟨-, hold⟩ := update_phase hother
    · exact absurd hnew (answered_phase _ _ _ _)
    · exact hold
  obtain ⟨hstate, hchanges⟩ | ⟨h401, carried, rfl, hstate, hchanges, hcarried⟩ :=
    answer_cases retryAfterCap hsound hphase htimely
  · constructor
    case generation => rw [hstate, hchanges, hsound.generation]
    case flights =>
      intro j other hother
      rw [hstate, hchanges]
      exact hsound.flights j other (hflights j _ hother)
    case plain => exact fun j hother => hsound.plain j (hflights j _ hother)
    case spent =>
      intro fetch hlt
      rw [hstate, TokenWorld.spent]
      obtain hspent | hcached := hsound.spent fetch hlt
      · exact .inl (spent_append.mpr (.inl hspent))
      · exact .inr hcached
    case retries => exact update_retries (answered_retries _ _ (hsound.retries i)) hsound.retries
  · constructor
    case generation => rw [hstate, hchanges, hsound.generation, ofNat_succ]
    case flights =>
      intro j other hother
      obtain ⟨hgeneration, hle, -⟩ := hsound.flights j other (hflights j _ hother)
      rw [hstate, hchanges]
      exact ⟨hgeneration, Nat.le_succ_of_le hle, fun _ => by rintro _ ⟨⟩⟩
    case plain => exact fun j hother => hsound.plain j (hflights j _ hother)
    case spent =>
      intro fetch hlt
      left
      rw [TokenWorld.spent]
      apply spent_append.mpr
      obtain hspent | hcached := hsound.spent fetch hlt
      · exact .inl hspent
      · right
        obtain ⟨token, htoken, rfl⟩ := Option.map_eq_some_iff.mp hcached
        rw [if_pos h401, ← hcarried token htoken]
        exact List.mem_singleton.mpr rfl
    case retries => exact update_retries (answered_retries _ _ (hsound.retries i)) hsound.retries

theorem step_sound (hsound : w.Sound auth) {label : TokenLabel} (htimely : Timely w label) :
    (w.step libraries auth retryAfterCap label).Sound auth := by
  cases label with
  | attach i now issuedAt reply =>
    simp only [TokenWorld.step]
    split
    · exact attach_sound hsound
    · exact hsound
  | fail i =>
    simp only [TokenWorld.step]
    split
    · exact hsound
    · exact hsound.move (by rintro _ ⟨⟩) (by rintro ⟨⟩) (hsound.retries i)
  | reply i response =>
    simp only [TokenWorld.step]
    split
    · rename_i flight hphase
      exact answer_sound hsound hphase htimely
    · exact hsound

/-! ## Runs -/

variable (libraries auth retryAfterCap)

/-- A token leaves the cache because it has expired, or by a 401 of a request that carried
it. -/
def EvictsForCause (w : TokenWorld) (label : TokenLabel) : Prop :=
  ∀ token, w.state.cached = some token →
    (w.step libraries auth retryAfterCap label).state.cached ≠ some token →
      (∃ i now issuedAt reply expiry, label = .attach i now issuedAt reply ∧
        token.expiresAt = some expiry ∧ expiry ≤ now) ∨
      (∃ i response flight, label = .reply i response ∧ response.status = 401 ∧
        (w.sends i).phase = .inFlight (some flight) ∧ flight.token = token)

/-- A 401 of a request that carried another token leaves the cached one. -/
def KeepsCurrent (w : TokenWorld) (label : TokenLabel) : Prop :=
  ∀ i response flight token, label = .reply i response →
    (w.sends i).phase = .inFlight (some flight) → w.state.cached = some token →
      flight.token ≠ token → (w.step libraries auth retryAfterCap label).state.cached = some token

variable {libraries auth retryAfterCap}

theorem fresh_none {state : TokenState} {token : CachedToken} (hcached : state.cached = some token)
    (h : state.fresh now = none) : ∃ expiry, token.expiresAt = some expiry ∧ expiry ≤ now := by
  rw [TokenState.fresh, hcached] at h
  cases hexpiry : token.expiresAt with
  | none => simp [hexpiry] at h
  | some expiry =>
    refine ⟨expiry, rfl, ?_⟩
    simpa [hexpiry] using h

theorem attach_evicts {token : CachedToken} (hcached : w.state.cached = some token)
    (hgone : (w.attach libraries auth i now issuedAt reply).state.cached ≠ some token) :
    ∃ expiry, token.expiresAt = some expiry ∧ expiry ≤ now := by
  cases hscheme : auth.expiryMargin with
  | none =>
    simp only [TokenWorld.attach, hscheme] at hgone
    exact absurd hcached hgone
  | some margin =>
    obtain hfresh | ⟨fresh, hfresh⟩ := Option.eq_none_or_eq_some (w.state.fresh now)
    · exact fresh_none hcached hfresh
    · rw [attach_cached hscheme hfresh] at hgone
      exact absurd hcached hgone

theorem step_evicts {label : TokenLabel} (hsound : w.Sound auth) (htimely : Timely w label) :
    EvictsForCause libraries auth retryAfterCap w label := by
  intro token hcached hgone
  cases label with
  | attach i now issuedAt reply =>
    simp only [TokenWorld.step] at hgone
    split at hgone
    · obtain ⟨expiry, hexpiry, hpast⟩ := attach_evicts hcached hgone
      exact .inl ⟨i, now, issuedAt, reply, expiry, rfl, hexpiry, hpast⟩
    · exact absurd hcached hgone
  | fail i =>
    simp only [TokenWorld.step] at hgone
    split at hgone <;> exact absurd hcached hgone
  | reply i response =>
    simp only [TokenWorld.step] at hgone
    split at hgone
    · rename_i flight hphase
      obtain ⟨hstate, -⟩ | ⟨h401, carried, rfl, -, -, hcarried⟩ :=
        answer_cases retryAfterCap hsound hphase htimely
      · rw [hstate] at hgone
        exact absurd hcached hgone
      · exact .inr ⟨i, response, carried, rfl, h401, hphase, hcarried token hcached⟩
    · exact absurd hcached hgone

theorem keeps_of_evicts {label : TokenLabel}
    (h : EvictsForCause libraries auth retryAfterCap w label) :
    KeepsCurrent libraries auth retryAfterCap w label := by
  rintro i response flight token rfl hphase hcached hother
  by_contra hgone
  obtain ⟨_, _, _, _, _, hlabel, -⟩ | ⟨_, _, carried, hlabel, -, hcarried, hsame⟩ :=
    h token hcached hgone
  · cases hlabel
  · cases hlabel
    rw [hphase] at hcarried
    cases hcarried
    exact hother hsame

/-- All fetches but one are spent. -/
theorem TokenWorld.Sound.fetches_le (hsound : w.Sound auth) : w.fetches ≤ 1 + w.spent.card := by
  have hsubset : Finset.range w.fetches ⊆
      w.spent ∪ (w.state.cached.map CachedToken.fetch).toFinset := by
    intro fetch hfetch
    rw [Finset.mem_union, Option.mem_toFinset]
    exact hsound.spent fetch (Finset.mem_range.mp hfetch)
  have hone : (w.state.cached.map CachedToken.fetch).toFinset.card ≤ 1 := by
    cases w.state.cached <;> simp
  calc w.fetches = (Finset.range w.fetches).card := (Finset.card_range _).symm
    _ ≤ (w.spent ∪ (w.state.cached.map CachedToken.fetch).toFinset).card := Finset.card_le_card hsubset
    _ ≤ w.spent.card + (w.state.cached.map CachedToken.fetch).toFinset.card := Finset.card_union_le _ _
    _ ≤ 1 + w.spent.card := by omega

/-- In every interleaving in which no request waits for `2 ^ 64` changes of the generation: a
token leaves the cache by expiry or by a 401 of a request that carried it, and not by a late
one; a send goes round after one 401 at most; and the fetches are at most one more than the
tokens that failed to be fetched, expired or were rejected. -/
theorem token_cache (libraries : Libraries) (auth : Auth) (retryAfterCap : Nat)
    (labels : List TokenLabel)
    (h : Meets (TokenWorld.step libraries auth retryAfterCap) Timely .initial labels) :
    Meets (TokenWorld.step libraries auth retryAfterCap)
        (EvictsForCause libraries auth retryAfterCap) .initial labels ∧
      Meets (TokenWorld.step libraries auth retryAfterCap)
        (KeepsCurrent libraries auth retryAfterCap) .initial labels ∧
      (∀ i, ((run (TokenWorld.step libraries auth retryAfterCap) .initial labels).sends i).authRetries
        ≤ 1) ∧
      (run (TokenWorld.step libraries auth retryAfterCap) .initial labels).fetches ≤
        1 + (run (TokenWorld.step libraries auth retryAfterCap) .initial labels).spent.card := by
  have hsteps : ∀ (w : TokenWorld) (label : TokenLabel), w.Sound auth → Timely w label →
      (w.step libraries auth retryAfterCap label).Sound auth :=
    fun _ _ hsound htimely => step_sound hsound htimely
  have hsound := run_invariant hsteps (initial_sound auth) h
  refine ⟨meets_of_invariant hsteps (fun _ _ => step_evicts) (initial_sound auth) h,
    meets_of_invariant hsteps (fun _ _ hs ht => keeps_of_evicts (step_evicts hs ht))
      (initial_sound auth) h, ?_, hsound.fetches_le⟩
  intro i
  rw [hsound.retries i]
  exact Bool.toNat_le _

/-! ## A run of `2 ^ 63` refreshes -/

def grantText : List Char := "\x7b\"access_token\":\"t\"\x7d".toList

def tokenJson (text : List Char) : Except String Value :=
  if text = grantText then .ok (.object [("access_token", .string "t")]) else .error "expected value"

def tokenLibraries : Libraries := { plainLibraries with parseJson := tokenJson }

def clientAuth : Auth := .oauth2ClientCredentials "https://id.example.com/token" "id" "secret" [] none 0

def grant : TokenReply := .answered ⟨200, [], grantText, none⟩

def rejection : Response := ⟨401, [], [], none⟩

theorem grant_issued (fetch : Nat) :
    issueToken tokenLibraries 0 0 fetch grant = .ok ⟨"t", none, fetch⟩ := rfl

abbrev tokenStep : TokenWorld → TokenLabel → TokenWorld :=
  TokenWorld.step tokenLibraries clientAuth 0

/-- Two sends take one token and both are rejected; the first has fetched the next token by
the time the second hears of it. -/
def lateRejection : List TokenLabel :=
  [.attach 0 0 0 grant, .attach 1 0 0 grant, .reply 0 rejection, .attach 0 0 0 grant,
    .reply 1 rejection]

theorem token_cache_of_one_rejection :
    Meets tokenStep Timely .initial lateRejection ∧
      (run tokenStep .initial lateRejection).state.cached = some ⟨"t", none, 1⟩ ∧
      (run tokenStep .initial lateRejection).fetches ≤
        1 + (run tokenStep .initial lateRejection).spent.card := by
  have htimely : Meets tokenStep Timely .initial lateRejection := by
    refine ⟨trivial, trivial, ?_, trivial, ?_, trivial⟩
    · intro _ flight hphase
      cases hphase
      decide
    · intro _ flight hphase
      cases hphase
      decide
  exact ⟨htimely, rfl, (token_cache tokenLibraries clientAuth 0 _ htimely).2.2.2⟩

/-- A send takes the cached token, is rejected, and fetches the next one. -/
def refresh (i : Nat) : List TokenLabel := [.attach i 0 0 grant, .reply i rejection, .attach i 0 0 grant]

/-- After so many refreshes a first request is still in flight. -/
structure Worn (n : Nat) (w : TokenWorld) : Prop where
  state : w.state = ⟨UInt64.ofNat (1 + 2 * n), some ⟨"t", none, n⟩⟩
  fetches : w.fetches = n + 1
  first : w.sends 0 = ⟨.fresh, .inFlight (some ⟨⟨"t", none, 0⟩, 1, 1⟩), 0⟩
  others : ∀ i > n, w.sends i = .fresh

theorem worn_first : Worn 0 (tokenStep .initial (.attach 0 0 0 grant)) := by
  constructor
  case state => rfl
  case fetches => rfl
  case first => rfl
  case others =>
    intro i hi
    exact Function.update_of_ne (Nat.ne_of_gt hi) _ _

theorem step_attach (h : (w.sends i).phase = .ready) :
    w.step libraries auth retryAfterCap (.attach i now issuedAt reply) =
      w.attach libraries auth i now issuedAt reply := if_pos h

theorem step_reply {flight : Option Flight} {response : Response}
    (h : (w.sends i).phase = .inFlight flight) :
    w.step libraries auth retryAfterCap (.reply i response) =
      w.answer auth retryAfterCap i flight response := by
  simp only [TokenWorld.step, h]

/-- A first rejection of the generation that is cached. -/
theorem rejection_evicts {flight : Flight} {token : CachedToken}
    (hgeneration : flight.generation = w.state.generation) (hcached : w.state.cached = some token)
    (hattempts : (w.sends i).attempts = .fresh) :
    w.answer clientAuth 0 i (some flight) rejection =
      { state := ⟨w.state.generation + 1, none⟩
        changes := w.changes + 1
        fetches := w.fetches
        history := w.history ++ [.rejected flight.token.fetch]
        sends := Function.update w.sends i ⟨⟨false, true⟩, .ready, (w.sends i).authRetries + 1⟩ } := by
  have hunauthorized : clientAuth.onUnauthorized w.state (some flight.generation) =
      (true, ⟨w.state.generation + 1, none⟩) := by
    simp [Auth.onUnauthorized, clientAuth, Auth.expiryMargin, hgeneration, hcached]
  have hagain : Attempts.fresh.again 0 true rejection = some ⟨false, true⟩ := by decide
  have hhandled : rejection.status = 401 ∧ ¬Attempts.fresh.authRetried := ⟨rfl, (by rintro ⟨⟩)⟩
  have hnext : w.state.generation + 1 ≠ w.state.generation := by simp
  simp only [TokenWorld.answer, Option.map_some, hunauthorized, if_pos hhandled, if_neg hnext,
    SendState.answered, hattempts, hagain]
  rfl

theorem worn_refresh {n : Nat} {w : TokenWorld} (h : Worn n w) :
    Worn (n + 1) (run tokenStep w (refresh (n + 1))) := by
  have hready : w.sends (n + 1) = .fresh := h.others _ (Nat.lt_succ_self n)
  have hfresh : w.state.fresh 0 = some ⟨"t", none, n⟩ := by rw [h.state]; rfl
  have hcached : tokenStep w (.attach (n + 1) 0 0 grant) = { w with
      sends := Function.update w.sends (n + 1) (SendState.fresh.inPhase
        (.inFlight (some ⟨⟨"t", none, n⟩, w.state.generation, w.changes⟩))) } := by
    rw [tokenStep, step_attach (by rw [hready]; rfl), attach_cached rfl hfresh, hready]
  generalize hattached : tokenStep w (.attach (n + 1) 0 0 grant) = attached at hcached
  have hsend : attached.sends (n + 1) = SendState.fresh.inPhase
      (.inFlight (some ⟨⟨"t", none, n⟩, w.state.generation, w.changes⟩)) := by
    rw [hcached]
    exact Function.update_self _ _ _
  have hevicted : tokenStep attached (.reply (n + 1) rejection) =
      { state := ⟨w.state.generation + 1, none⟩
        changes := w.changes + 1
        fetches := w.fetches
        history := w.history ++ [.rejected n]
        sends := Function.update w.sends (n + 1) ⟨⟨false, true⟩, .ready, 1⟩ } := by
    have hgeneration : attached.state.generation = w.state.generation := by rw [hcached]
    have hstate : attached.state.cached = some ⟨"t", none, n⟩ := by rw [hcached]; simp [h.state]
    rw [tokenStep, step_reply (by rw [hsend]; rfl), rejection_evicts hgeneration.symm hstate
      (by rw [hsend]; rfl), hsend, hcached]
    simp only [Function.update_idem]
    rfl
  generalize hrejected : tokenStep attached (.reply (n + 1) rejection) = rejected at hevicted
  have hagain : rejected.sends (n + 1) = ⟨⟨false, true⟩, .ready, 1⟩ := by
    rw [hevicted]
    exact Function.update_self _ _ _
  have hnone : rejected.state.fresh 0 = none := by rw [hevicted]; rfl
  have hrun : run tokenStep w (refresh (n + 1)) = tokenStep rejected (.attach (n + 1) 0 0 grant) := by
    simp only [refresh, run_cons, run_nil, hattached, hrejected]
  rw [hrun, tokenStep, step_attach (by rw [hagain]), attach_fetched rfl hnone (grant_issued _), hevicted]
  constructor
  case state =>
    simp only [h.state, h.fetches, ofNat_succ]
    rfl
  case fetches => simp only [h.fetches]
  case first =>
    simp only [Function.update_of_ne (Nat.succ_ne_zero n).symm]
    exact h.first
  case others =>
    intro j hj
    simp only [Function.update_of_ne (Nat.ne_of_gt hj)]
    exact h.others j (Nat.lt_of_succ_lt hj)

def wearing (n : Nat) : List TokenLabel :=
  .attach 0 0 0 grant :: (List.range n).flatMap fun k => refresh (k + 1)

theorem worn_run (n : Nat) : Worn n (run tokenStep .initial (wearing n)) := by
  induction n with
  | zero => exact worn_first
  | succ n ih =>
    have hlabels : wearing (n + 1) = wearing n ++ refresh (n + 1) := by
      rw [wearing, wearing, List.range_succ, List.flatMap_append, List.flatMap_singleton]
      rfl
    rw [hlabels, run_append]
    exact worn_refresh ih

/-- The generation has come round, and the late 401 of the first token evicts the last one. -/
theorem late_rejection_evicts :
    ¬∀ (libraries : Libraries) (auth : Auth) (retryAfterCap : Nat) (labels : List TokenLabel),
      Meets (TokenWorld.step libraries auth retryAfterCap)
        (EvictsForCause libraries auth retryAfterCap) .initial labels := by
  intro hall
  have hworn := worn_run (2 ^ 63)
  have hmeets := hall tokenLibraries clientAuth 0 (wearing (2 ^ 63) ++ [.reply 0 rejection])
  have hlast := ((meets_append _ _ _ _ _).mp hmeets).2.1
  generalize run tokenStep .initial (wearing (2 ^ 63)) = w at hworn hlast
  have hphase : (w.sends 0).phase = .inFlight (some ⟨⟨"t", none, 0⟩, 1, 1⟩) := by rw [hworn.first]
  have hcached : w.state.cached = some ⟨"t", none, 2 ^ 63⟩ := by rw [hworn.state]
  have hgeneration : (1 : UInt64) = w.state.generation := by
    rw [hworn.state]
    decide
  have hgone : (tokenStep w (.reply 0 rejection)).state.cached = none := by
    rw [tokenStep, step_reply hphase, rejection_evicts hgeneration hcached (by rw [hworn.first])]
  obtain ⟨_, _, _, _, _, hlabel, -⟩ | ⟨_, _, carried, hlabel, -, hcarried, hsame⟩ :=
    hlast _ hcached (by rw [hgone]; rintro ⟨⟩)
  · cases hlabel
  · cases hlabel
    rw [hphase] at hcarried
    cases hcarried
    cases hsame

end Rest
