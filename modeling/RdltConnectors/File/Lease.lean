import RdltConnectors.Library.Transition

/-!
# The session lease of the file destination

One durable document per pipeline scope names the session that may write. This
file has the document, the four calls a location offers on it, and the three
parties that make those calls: `acquire`, one heartbeat's `renew`, and the
write guard `checkStillHeld`. Both storage arms share everything but the way a
document is replaced and taken over. Every store call is one atomic step, so a
session can pause, lose a reply or crash between any two of them.
-/
namespace FileLease

def leaseFormatVersion : Nat := 1

def heartbeatSecs : Nat := 15

def ttlSecs : Nat := 300

/-- Two missed beats of margin below the age a competitor waits for. -/
def selfExpirySecs : Nat := ttlSecs - 2 * heartbeatSecs

structure LeaseDoc where
  formatVersion : Nat
  pipeline : String
  owner : String
  acquiredAtMs : Nat
  renewedAtMs : Nat
  deriving DecidableEq, Repr

def freshDoc (pipeline owner : String) (now : Nat) : LeaseDoc :=
  ⟨leaseFormatVersion, pipeline, owner, now, now⟩

/-- The bytes of a document, up to what the decoder makes of them. -/
inductive DocBytes where
  | json (doc : LeaseDoc)
  | unparseable (message : String)
  deriving DecidableEq, Repr

inductive DestinationError where
  | fatal (message : String)
  | store
  deriving DecidableEq, Repr

inductive DecodeFailure where
  | unparseable (message : String)
  | newerVersion (found : Nat)
  deriving DecidableEq, Repr

def DecodeFailure.intoDestinationError (path : String) : DecodeFailure → DestinationError
  | .unparseable message => .fatal s!"unreadable destination lease `{path}`: {message}"
  | .newerVersion found =>
    .fatal s!"destination lease `{path}` format v{found} is newer than this build supports (v{leaseFormatVersion}); upgrade rdlt"

def encode (doc : LeaseDoc) : DocBytes := .json doc

def decode : DocBytes → Except DecodeFailure LeaseDoc
  | .unparseable message => .error (.unparseable message)
  | .json doc =>
    if doc.formatVersion > leaseFormatVersion then .error (.newerVersion doc.formatVersion)
    else .ok doc

theorem decode_ok_iff (bytes : DocBytes) (doc : LeaseDoc) :
    decode bytes = .ok doc ↔ bytes = encode doc ∧ doc.formatVersion ≤ leaseFormatVersion := by
  cases bytes with
  | unparseable message => simp [decode, encode]
  | json found =>
    simp only [decode, encode]
    by_cases h : found.formatVersion > leaseFormatVersion
    · simp only [h, if_true, reduceCtorEq, false_iff, DocBytes.json.injEq, not_and]
      rintro rfl
      omega
    · simp only [h, if_false, Except.ok.injEq, DocBytes.json.injEq]
      constructor
      · rintro rfl
        exact ⟨rfl, by omega⟩
      · exact fun hd => hd.1

@[simp] theorem decode_fresh (pipeline owner : String) (now : Nat) :
    decode (encode (freshDoc pipeline owner now)) = .ok (freshDoc pipeline owner now) := rfl

/-! ## One document at a location -/

inductive Location where
  | localDir
  | s3
  deriving DecidableEq, Repr

/-- The handle a later replace needs; the local arm has none. -/
inductive DocVersion where
  | localDoc
  | s3 (etag : Nat)
  deriving DecidableEq, Repr

/-- The stored document. `etag` moves with every write. `unlinks` counts the
exclusive deletes that removed it; no operation reads that counter. -/
structure DocStore where
  doc : Option DocBytes
  etag : Nat
  unlinks : Nat
  deriving DecidableEq, Repr

def DocStore.version (st : DocStore) : Location → DocVersion
  | .localDir => .localDoc
  | .s3 => .s3 st.etag

def DocStore.write (st : DocStore) (bytes : DocBytes) : DocStore :=
  { st with doc := some bytes, etag := st.etag + 1 }

@[simp] theorem write_doc (st : DocStore) (bytes : DocBytes) :
    (st.write bytes).doc = some bytes := rfl
@[simp] theorem write_etag (st : DocStore) (bytes : DocBytes) :
    (st.write bytes).etag = st.etag + 1 := rfl
@[simp] theorem write_unlinks (st : DocStore) (bytes : DocBytes) :
    (st.write bytes).unlinks = st.unlinks := rfl

inductive CreateDoc where
  | created (version : DocVersion)
  | alreadyExists
  deriving DecidableEq, Repr

def createDocExclusive (location : Location) (bytes : DocBytes) (st : DocStore) :
    CreateDoc × DocStore :=
  match st.doc with
  | none => (.created ((st.write bytes).version location), st.write bytes)
  | some _ => (.alreadyExists, st)

/-- What a versioned read hands back, with the delete counter at that moment. -/
structure Seen where
  bytes : DocBytes
  version : DocVersion
  unlinks : Nat
  deriving DecidableEq, Repr

def readDocVersioned (location : Location) (st : DocStore) : Option Seen × DocStore :=
  (st.doc.map fun bytes => ⟨bytes, st.version location, st.unlinks⟩, st)

inductive ReplaceError where
  | staleDocVersion
  | other (error : DestinationError)
  deriving DecidableEq, Repr

/-- The local arm never inspects the version it is handed. -/
def replaceDocIf (location : Location) (bytes : DocBytes) (version : DocVersion)
    (st : DocStore) : Except ReplaceError DocVersion × DocStore :=
  match location, version with
  | .localDir, _ => (.ok .localDoc, st.write bytes)
  | .s3, .localDoc =>
    (.error (.other (.fatal "replace_doc_if: an S3 location needs an S3 version handle, not a local one")), st)
  | .s3, .s3 etag =>
    if st.doc.isSome ∧ etag = st.etag then (.ok (.s3 (st.etag + 1)), st.write bytes)
    else (.error .staleDocVersion, st)

/-- What the recheck before a local takeover's unlink expects to find. -/
inductive Expected where
  | stale (holder : LeaseDoc)
  | stillUndecodable
  deriving DecidableEq, Repr

def Expected.unchanged (expected : Expected) (bytes : DocBytes) : Bool :=
  match expected, decode bytes with
  | .stale holder, .ok doc =>
    doc.owner == holder.owner && doc.renewedAtMs == holder.renewedAtMs
  | .stillUndecodable, .error (.unparseable _) => true
  | _, _ => false

inductive Takeover where
  | won
  | cleared
  | lostRace
  deriving DecidableEq, Repr

/-- Taking over a stale or undecodable document: locally a recheck and the
unlink in one step, on S3 a compare-and-swap. -/
def takeover (location : Location) (expected : Expected) (version : DocVersion)
    (fresh : LeaseDoc) (st : DocStore) : Except DestinationError Takeover × DocStore :=
  match location with
  | .localDir =>
    match st.doc with
    | none => (.ok .lostRace, st)
    | some bytes =>
      if expected.unchanged bytes then
        (.ok .cleared, { st with doc := none, unlinks := st.unlinks + 1 })
      else (.ok .lostRace, st)
  | .s3 =>
    match replaceDocIf .s3 (encode fresh) version st with
    | (.ok _, st') => (.ok .won, st')
    | (.error .staleDocVersion, st') => (.ok .lostRace, st')
    | (.error (.other e), st') => (.error e, st')

/-- What becomes of one call: it is carried out and answered, it is lost, its
reply is lost, or its reply is lost and the client sends it a second time. -/
inductive Delivery where
  | delivered
  | requestLost
  | replyLost
  | retried
  deriving DecidableEq, Repr

/-- The reply the caller sees, `none` for a transport failure, and the store. -/
def Delivery.call {ρ : Type} (d : Delivery) (op : DocStore → ρ × DocStore) (st : DocStore) :
    Option ρ × DocStore :=
  match d with
  | .delivered => (some (op st).1, (op st).2)
  | .requestLost => (none, st)
  | .replyLost => (none, (op st).2)
  | .retried => (some (op (op st).2).1, (op (op st).2).2)

/-! ## Acquiring the lease -/

structure Scope where
  pipeline : String
  docName : String
  undecodableWaitMs : Nat
  deriving DecidableEq, Repr

/-- Where one `acquire` stands. A `now` is the clock read at the loop's top. -/
inductive Acquire where
  | top
  | create (now : Nat)
  | read (now : Nat)
  | wait (now wakeAt : Nat)
  | replace (now : Nat) (holder : LeaseDoc) (seen : Seen)
  | takeoverStale (now : Nat) (holder : LeaseDoc) (seen : Seen)
  | debris (seen : Seen)
  | takeoverDebris (now : Nat) (seen : Seen)
  | acquired (now : Nat)
  | refused (error : DestinationError)
  deriving DecidableEq, Repr

def heldMessage (pipeline holder : String) (ageSecs remaining : Nat) : String :=
  s!"another session of pipeline `{pipeline}` holds the destination lease (owner {holder}, renewed {ageSecs}s ago); if that session is dead the lease expires in {remaining}s"

/-- A decoded holder: our own name, a session presumed dead, or a refusal. -/
def judgeHolder (scope : Scope) (owner : String) (now : Nat) (holder : LeaseDoc)
    (seen : Seen) : Acquire :=
  if holder.owner = owner then .replace now holder seen
  else if (now - holder.renewedAtMs) / 1000 > ttlSecs then .takeoverStale now holder seen
  else
    .refused (.fatal (heldMessage scope.pipeline holder.owner
      ((now - holder.renewedAtMs) / 1000) (ttlSecs - (now - holder.renewedAtMs) / 1000)))

/-- The first read of an existing document: undecodable bytes are waited on. -/
def afterRead (scope : Scope) (owner : String) (clock now : Nat) (seen : Seen) : Acquire :=
  match decode seen.bytes with
  | .ok holder => judgeHolder scope owner now holder seen
  | .error (.newerVersion found) =>
    .refused ((DecodeFailure.newerVersion found).intoDestinationError scope.docName)
  | .error (.unparseable _) => .wait now (clock + scope.undecodableWaitMs)

/-- The second read: bytes still undecodable this much later are debris. -/
def afterWait (scope : Scope) (owner : String) (now : Nat) (seen : Seen) : Acquire :=
  match decode seen.bytes with
  | .ok holder => judgeHolder scope owner now holder seen
  | .error (.newerVersion found) =>
    .refused ((DecodeFailure.newerVersion found).intoDestinationError scope.docName)
  | .error (.unparseable _) => .debris seen

def afterTakeover (now : Nat) : Option (Except DestinationError Takeover) → Acquire
  | none => .refused .store
  | some (.error e) => .refused e
  | some (.ok .won) => .acquired now
  | some (.ok .cleared) => .top
  | some (.ok .lostRace) => .top

/-- One step of `acquire_with_wait`: at most one store call. -/
def acquireStep (location : Location) (scope : Scope) (owner : String) (clock : Nat)
    (d : Delivery) (pc : Acquire) (st : DocStore) : Acquire × DocStore :=
  match pc with
  | .top => (.create clock, st)
  | .create now =>
    match d.call (createDocExclusive location (encode (freshDoc scope.pipeline owner now))) st with
    | (none, st') => (.refused .store, st')
    | (some (.created _), st') => (.acquired now, st')
    | (some .alreadyExists, st') => (.read now, st')
  | .read now =>
    match d.call (readDocVersioned location) st with
    | (none, st') => (.refused .store, st')
    | (some none, st') => (.top, st')
    | (some (some seen), st') => (afterRead scope owner clock now seen, st')
  | .wait now wakeAt =>
    if clock < wakeAt then (.wait now wakeAt, st)
    else
      match d.call (readDocVersioned location) st with
      | (none, st') => (.refused .store, st')
      | (some none, st') => (.top, st')
      | (some (some seen), st') => (afterWait scope owner now seen, st')
  | .replace now _ seen =>
    match d.call (replaceDocIf location (encode (freshDoc scope.pipeline owner now))
        seen.version) st with
    | (none, st') => (.refused .store, st')
    | (some (.ok _), st') => (.acquired now, st')
    | (some (.error .staleDocVersion), st') => (.top, st')
    | (some (.error (.other e)), st') => (.refused e, st')
  | .takeoverStale now holder seen =>
    let r := d.call (takeover location (.stale holder) seen.version
      (freshDoc scope.pipeline owner now)) st
    (afterTakeover now r.1, r.2)
  | .debris seen => (.takeoverDebris clock seen, st)
  | .takeoverDebris now seen =>
    let r := d.call (takeover location .stillUndecodable seen.version
      (freshDoc scope.pipeline owner now)) st
    (afterTakeover now r.1, r.2)
  | .acquired now => (.acquired now, st)
  | .refused error => (.refused error, st)

/-! ## Holding it -/

structure Lease where
  lost : Bool
  lastOkMs : Nat
  deriving DecidableEq, Repr

def Lease.new (acquiredNowMs : Nat) : Lease := ⟨false, acquiredNowMs⟩

/-- The write guard: a lost lease and a stale one both refuse. -/
def Lease.checkStillHeld (scope : Scope) (nowMs : Nat) (lease : Lease) :
    Except DestinationError Unit :=
  if lease.lost then
    .error (.fatal s!"the destination lease for pipeline `{scope.pipeline}` was taken over by another session (this session's heartbeat lost the race); aborting rather than corrupting the new holder's staging")
  else if nowMs - lease.lastOkMs > selfExpirySecs * 1000 then
    .error (.fatal s!"the destination lease for pipeline `{scope.pipeline}` has not been renewed within its TTL (heartbeat starved or stopped); aborting rather than risking a takeover this session cannot see")
  else .ok ()

/-- Where one heartbeat's `renew` stands. -/
inductive Renew where
  | read
  | stamp (doc : LeaseDoc) (seen : Seen)
  | replace (doc : LeaseDoc) (renewedAtMs : Nat) (seen : Seen)
  | storeOk (renewedAtMs : Nat)
  | setLost
  | done
  deriving DecidableEq, Repr

def afterRenewRead (owner : String) (seen : Seen) : Renew :=
  match decode seen.bytes with
  | .error (.newerVersion _) => .setLost
  | .error (.unparseable _) => .done
  | .ok doc => if doc.owner ≠ owner then .setLost else .stamp doc seen

/-- One step of `renew` up to the two stores into the lease's own flags. -/
def renewStep (location : Location) (owner : String) (clock : Nat) (d : Delivery)
    (pc : Renew) (st : DocStore) : Renew × DocStore :=
  match pc with
  | .read =>
    match d.call (readDocVersioned location) st with
    | (none, st') => (.done, st')
    | (some none, st') => (.setLost, st')
    | (some (some seen), st') => (afterRenewRead owner seen, st')
  | .stamp doc seen => (.replace doc clock seen, st)
  | .replace doc renewedAtMs seen =>
    match d.call (replaceDocIf location (encode { doc with renewedAtMs := renewedAtMs })
        seen.version) st with
    | (none, st') => (.done, st')
    | (some (.ok _), st') => (.storeOk renewedAtMs, st')
    | (some (.error .staleDocVersion), st') => (.setLost, st')
    | (some (.error (.other _)), st') => (.done, st')
  | .storeOk _ => (.done, st)
  | .setLost => (.done, st)
  | .done => (.done, st)

/-- A heartbeat in flight, and the number of the lease whose flags it shares. -/
structure Beat where
  lease : Nat
  pc : Renew
  deriving DecidableEq, Repr

inductive Phase where
  | idle
  | acquiring (pc : Acquire)
  | holding (lease : Lease)
  deriving DecidableEq, Repr

/-- One owner token: what it is doing, how many leases it has held so far, and
the heartbeats it started, those of dropped leases included. -/
structure Session where
  phase : Phase
  leases : Nat
  beats : List Beat
  deriving DecidableEq, Repr

def Session.new : Session := ⟨.idle, 0, []⟩

/-- The two stores a heartbeat makes go to its own lease and no other. -/
def Session.record (s : Session) (beat : Beat) : Session :=
  match s.phase with
  | .holding lease =>
    if beat.lease = s.leases then
      match beat.pc with
      | .storeOk renewedAtMs => { s with phase := .holding { lease with lastOkMs := renewedAtMs } }
      | .setLost => { s with phase := .holding { lease with lost := true } }
      | _ => s
    else s
  | _ => s

/-! ## Sessions side by side -/

structure World where
  clock : Nat
  store : DocStore
  session : String → Session

def World.setSession (w : World) (owner : String) (s : Session) : World :=
  { w with session := fun o => if o = owner then s else w.session o }

/-- Any stored document, any clock, and no session running yet. -/
def World.initial (store : DocStore) (clock : Nat) : World :=
  ⟨clock, store, fun _ => Session.new⟩

inductive Act where
  /-- time passes -/
  | tick (ms : Nat)
  /-- the connector is opened and starts to acquire -/
  | openLoad (owner : String)
  /-- the next step of this owner's `acquire` -/
  | acquire (owner : String) (d : Delivery)
  /-- the held lease's next heartbeat begins -/
  | beat (owner : String)
  /-- the next step of this owner's `i`th heartbeat -/
  | renew (owner : String) (i : Nat) (d : Delivery)
  /-- the load is dropped or crashes, its heartbeats possibly still running -/
  | drop (owner : String)
  /-- the runtime cancels this owner's `i`th heartbeat -/
  | abort (owner : String) (i : Nat)
  deriving DecidableEq, Repr

def step (location : Location) (scope : Scope) (w : World) : Act → World
  | .tick ms => { w with clock := w.clock + ms }
  | .openLoad owner =>
    match (w.session owner).phase with
    | .idle => w.setSession owner { w.session owner with phase := .acquiring .top }
    | _ => w
  | .acquire owner d =>
    match (w.session owner).phase with
    | .acquiring (.acquired now) =>
      w.setSession owner
        { w.session owner with
          phase := .holding (.new now), leases := (w.session owner).leases + 1 }
    | .acquiring pc =>
      let r := acquireStep location scope owner w.clock d pc w.store
      { w.setSession owner { w.session owner with phase := .acquiring r.1 } with store := r.2 }
    | _ => w
  | .beat owner =>
    match (w.session owner).phase with
    | .holding lease =>
      if lease.lost = false ∧
          ∀ b ∈ (w.session owner).beats, b.lease = (w.session owner).leases → b.pc = .done then
        w.setSession owner
          { w.session owner with
            beats := (w.session owner).beats ++ [⟨(w.session owner).leases, .read⟩] }
      else w
    | _ => w
  | .renew owner i d =>
    match (w.session owner).beats[i]? with
    | some b =>
      let r := renewStep location owner w.clock d b.pc w.store
      let s := (w.session owner).record b
      { w.setSession owner { s with beats := s.beats.set i { b with pc := r.1 } } with
        store := r.2 }
    | none => w
  | .drop owner => w.setSession owner { w.session owner with phase := .idle }
  | .abort owner i =>
    match (w.session owner).beats[i]? with
    | some b =>
      w.setSession owner
        { w.session owner with beats := (w.session owner).beats.set i { b with pc := .done } }
    | none => w

/-- This owner's writes pass the guard right now. -/
def StillHeld (scope : Scope) (w : World) (owner : String) : Prop :=
  ∃ lease, (w.session owner).phase = .holding lease ∧
    lease.checkStillHeld scope w.clock = .ok ()

def AtMostOneHolder (scope : Scope) (w : World) : Prop :=
  ∀ o o', StillHeld scope w o → StillHeld scope w o' → o = o'

end FileLease
