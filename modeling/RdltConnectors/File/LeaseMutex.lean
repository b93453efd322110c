import RdltConnectors.File.LeaseEvidence

/-!
# One holder at a time

The invariant of the lease protocol for both arms, and its preservation by every
step: each `acquire` and each heartbeat in flight carries only facts that are
still good, or that its next call will find out of date. On S3 the
compare-and-swap does the latter. The local arm has nothing to find out with, so
its replaces are admitted only where nothing came between read and write.
-/
namespace FileLease

def AcquireOk (location : Location) (clock : Nat) (st : DocStore) (owner : String) :
    Acquire → Prop
  | .create now => now ≤ clock
  | .read now => now ≤ clock
  | .wait now _ => now ≤ clock
  | .replace now holder seen =>
    now ≤ clock ∧ holder.owner = owner ∧ seen.bytes = encode holder ∧ Known location st seen
  | .takeoverStale now holder seen =>
    now ≤ clock ∧ Abandoned clock (.stale holder) seen ∧ Known location st seen
  | .debris seen => Abandoned clock .stillUndecodable seen ∧ Known location st seen
  | .takeoverDebris now seen =>
    now ≤ clock ∧ Abandoned clock .stillUndecodable seen ∧ Known location st seen
  | .top => True
  | .acquired _ => True
  | .refused _ => True

/-- On S3 a replace still current carries the latest stamp its session believes. -/
def RenewOk (location : Location) (clock : Nat) (st : DocStore) (s : Session)
    (owner : String) : Renew → Prop
  | .stamp doc seen => doc.owner = owner ∧ seen.bytes = encode doc ∧ Known location st seen
  | .replace doc stamp seen =>
    (doc.owner = owner ∧ seen.bytes = encode doc ∧ Known location st seen) ∧ stamp ≤ clock ∧
      (location = .s3 → Current location st seen → ∀ e, Evidence s e → e ≤ stamp)
  | .read => True
  | .storeOk _ => True
  | .setLost => True
  | .done => True

structure Inv (location : Location) (w : World) : Prop where
  sound : Sound w.clock w.store w.session
  leases : ∀ o, ∀ b ∈ (w.session o).beats, b.lease ≤ (w.session o).leases
  acquire : ∀ o pc, (w.session o).phase = .acquiring pc →
    AcquireOk location w.clock w.store o pc
  renew : ∀ o, ∀ b ∈ (w.session o).beats,
    RenewOk location w.clock w.store (w.session o) o b.pc

theorem inv_initial (location : Location) (store : DocStore) (clock : Nat) :
    Inv location (World.initial store clock) where
  sound := by
    intro o stamp hev
    cases hev with
    | acquired h => simp [World.initial, Session.new] at h
    | held h => simp [World.initial, Session.new] at h
    | renewed h => simp [World.initial, Session.new] at h
  leases := by simp [World.initial, Session.new]
  acquire := by simp [World.initial, Session.new]
  renew := by simp [World.initial, Session.new]

variable {location : Location} {scope : Scope} {clock : Nat} {st st' : DocStore}
  {session : String → Session} {owner : String}

/-! ## Facts in flight survive time, other writes, and fewer beliefs -/

theorem Abandoned.tick {expected : Expected} {seen : Seen} (h : Abandoned clock expected seen)
    (ms : Nat) : Abandoned (clock + ms) expected seen := by
  cases expected with
  | stillUndecodable => exact h
  | stale holder =>
    obtain ⟨hbytes, now, hnow, hage⟩ := h
    exact ⟨hbytes, now, by omega, hage⟩

theorem AcquireOk.tick {pc : Acquire} (h : AcquireOk location clock st owner pc) (ms : Nat) :
    AcquireOk location (clock + ms) st owner pc := by
  cases pc with
  | create now => exact Nat.le_add_right_of_le h
  | read now => exact Nat.le_add_right_of_le h
  | wait now wakeAt => exact Nat.le_add_right_of_le h
  | replace now holder seen => exact ⟨Nat.le_add_right_of_le h.1, h.2⟩
  | takeoverStale now holder seen =>
    exact ⟨Nat.le_add_right_of_le h.1, h.2.1.tick ms, h.2.2⟩
  | debris seen => exact ⟨h.1.tick ms, h.2⟩
  | takeoverDebris now seen => exact ⟨Nat.le_add_right_of_le h.1, h.2.1.tick ms, h.2.2⟩
  | top => trivial
  | acquired now => trivial
  | refused error => trivial

theorem AcquireOk.evolve {pc : Acquire} (h : AcquireOk location clock st owner pc)
    (hst : Evolves location st st') : AcquireOk location clock st' owner pc := by
  cases pc with
  | create now => exact h
  | read now => exact h
  | wait now wakeAt => exact h
  | replace now holder seen => exact ⟨h.1, h.2.1, h.2.2.1, (hst seen h.2.2.2).1⟩
  | takeoverStale now holder seen => exact ⟨h.1, h.2.1, (hst seen h.2.2).1⟩
  | debris seen => exact ⟨h.1, (hst seen h.2).1⟩
  | takeoverDebris now seen => exact ⟨h.1, h.2.1, (hst seen h.2.2).1⟩
  | top => trivial
  | acquired now => trivial
  | refused error => trivial

theorem RenewOk.tick {pc : Renew} {s : Session} (h : RenewOk location clock st s owner pc)
    (ms : Nat) : RenewOk location (clock + ms) st s owner pc := by
  cases pc with
  | replace doc stamp seen => exact ⟨h.1, Nat.le_add_right_of_le h.2.1, h.2.2⟩
  | stamp doc seen => exact h
  | read => trivial
  | storeOk stamp => trivial
  | setLost => trivial
  | done => trivial

theorem RenewOk.evolve {pc : Renew} {s : Session} (h : RenewOk location clock st s owner pc)
    (hst : Evolves location st st') : RenewOk location clock st' s owner pc := by
  cases pc with
  | stamp doc seen => exact ⟨h.1, h.2.1, (hst seen h.2.2).1⟩
  | replace doc stamp seen =>
    obtain ⟨⟨ho, hbytes, hknown⟩, hstamp, hlast⟩ := h
    obtain ⟨hknown', hback⟩ := hst seen hknown
    exact ⟨⟨ho, hbytes, hknown'⟩, hstamp, fun hs3 hcur => hlast hs3 (hback hcur)⟩
  | read => trivial
  | storeOk stamp => trivial
  | setLost => trivial
  | done => trivial

/-- A replace in flight stays sound when its session believes no more than
before, or when a write has just outdated what it read. -/
theorem RenewOk.believe {pc : Renew} {s s' : Session}
    (h : RenewOk location clock st s owner pc)
    (hs : ∀ seen, Known location st seen → location = .s3 → Current location st seen →
      ∀ e, Evidence s' e → Evidence s e) :
    RenewOk location clock st s' owner pc := by
  cases pc with
  | replace doc stamp seen =>
    obtain ⟨⟨ho, hbytes, hknown⟩, hstamp, hlast⟩ := h
    refine ⟨⟨ho, hbytes, hknown⟩, hstamp, fun hs3 hcur e he => ?_⟩
    exact hlast hs3 hcur e (hs seen hknown hs3 hcur e he)
  | stamp doc seen => exact h
  | read => trivial
  | storeOk stamp => trivial
  | setLost => trivial
  | done => trivial

/-! ## One step of an acquire, and of a heartbeat -/

/-- The call just made put `owner`'s name on the document as of `stamp`. -/
def Won (location : Location) (clock : Nat) (st st' : DocStore) (owner : String)
    (stamp : Nat) : Prop :=
  stamp ≤ clock ∧ ∃ st₀, Evolves location st st₀ ∧ Wrote st₀ st' owner stamp

theorem Won.names {stamp : Nat} (h : Won location clock st st' owner stamp) :
    Names st' owner stamp := by
  obtain ⟨-, st₀, -, hw⟩ := h
  exact hw.names

theorem Won.outdated {stamp : Nat} {seen : Seen} (h : Won .s3 clock st st' owner stamp)
    (hknown : Known .s3 st seen) : ¬ Current .s3 st' seen := by
  obtain ⟨-, st₀, hev, doc, rfl, -⟩ := h
  exact outdated_write_s3 _ (hev seen hknown).1

/-- The contract of a step that may write: what all parties rely on survives,
the step's own next stage is in order, and success is earned. -/
structure StepOk (location : Location) (clock : Nat) (st st' : DocStore)
    (session : String → Session) (owner : String) (ok : Prop) (won : Nat → Prop) : Prop where
  sound : Sound clock st' session
  evolves : Evolves location st st'
  next : ok
  earned : ∀ stamp, won stamp → Won location clock st st' owner stamp

theorem judgeHolder_ok {now : Nat} {holder : LeaseDoc} {seen : Seen} (hnow : now ≤ clock)
    (hbytes : seen.bytes = encode holder) (hknown : Known location st seen) :
    AcquireOk location clock st owner (judgeHolder scope owner now holder seen) ∧
      ∀ stamp, judgeHolder scope owner now holder seen ≠ .acquired stamp := by
  unfold judgeHolder
  by_cases ho : holder.owner = owner
  · simp only [ho, if_true]
    exact ⟨⟨hnow, ho, hbytes, hknown⟩, fun stamp h => by simp at h⟩
  · by_cases hage : (now - holder.renewedAtMs) / 1000 > ttlSecs
    · simp only [ho, hage, if_true, if_false]
      exact ⟨⟨hnow, ⟨hbytes, now, hnow, hage⟩, hknown⟩, fun stamp h => by simp at h⟩
    · simp only [ho, hage, if_false]
      exact ⟨trivial, fun stamp h => by simp at h⟩

theorem afterRead_ok {now : Nat} {seen : Seen} (hnow : now ≤ clock)
    (hknown : Known location st seen) :
    AcquireOk location clock st owner (afterRead scope owner clock now seen) ∧
      ∀ stamp, afterRead scope owner clock now seen ≠ .acquired stamp := by
  unfold afterRead
  cases hd : decode seen.bytes with
  | ok holder => exact judgeHolder_ok hnow ((decode_ok_iff _ _).1 hd).1 hknown
  | error failure =>
    cases failure with
    | newerVersion found => exact ⟨trivial, fun stamp h => by simp at h⟩
    | unparseable message => exact ⟨hnow, fun stamp h => by simp at h⟩

theorem afterWait_ok {now : Nat} {seen : Seen} (hnow : now ≤ clock)
    (hknown : Known location st seen) :
    AcquireOk location clock st owner (afterWait scope owner now seen) ∧
      ∀ stamp, afterWait scope owner now seen ≠ .acquired stamp := by
  unfold afterWait
  cases hd : decode seen.bytes with
  | ok holder => exact judgeHolder_ok hnow ((decode_ok_iff _ _).1 hd).1 hknown
  | error failure =>
    cases failure with
    | newerVersion found => exact ⟨trivial, fun stamp h => by simp at h⟩
    | unparseable message =>
      refine ⟨⟨?_, hknown⟩, fun stamp h => by simp at h⟩
      cases hb : seen.bytes with
      | unparseable found => exact ⟨found, hb⟩
      | json doc =>
        rw [hb] at hd
        by_cases hv : doc.formatVersion > leaseFormatVersion <;> simp [decode, hv] at hd

theorem readDocVersioned_call (d : Delivery) (location : Location) (st : DocStore) :
    (d.call (readDocVersioned location) st).2 = st ∧
      ∀ seen, (d.call (readDocVersioned location) st).1 = some (some seen) →
        Known location st seen := by
  cases d with
  | delivered =>
    exact ⟨rfl, fun seen h => known_of_read (by simpa [Delivery.call] using h)⟩
  | requestLost => exact ⟨rfl, fun seen h => by simp [Delivery.call] at h⟩
  | replyLost => exact ⟨rfl, fun seen h => by simp [Delivery.call] at h⟩
  | retried =>
    refine ⟨rfl, fun seen h => known_of_read ?_⟩
    simpa [Delivery.call, readDocVersioned] using h

theorem createDocExclusive_call (location : Location) (doc : LeaseDoc)
    (h : Sound clock st session) (d : Delivery) :
    Sound clock (d.call (createDocExclusive location (encode doc)) st).2 session ∧
    Evolves location st (d.call (createDocExclusive location (encode doc)) st).2 ∧
    ∀ v, (d.call (createDocExclusive location (encode doc)) st).1 = some (.created v) →
      ∃ st₀, Evolves location st st₀ ∧
        Wrote st₀ (d.call (createDocExclusive location (encode doc)) st).2 doc.owner
          doc.renewedAtMs := by
  obtain ⟨⟨hsound, hev⟩, hreply⟩ := call_spec
    (createDocExclusive location (encode doc))
    (P := fun st' => Sound clock st' session ∧ Evolves location st st') ⟨h, Evolves.refl location st⟩
    (fun st' hP => ⟨(createDocExclusive_spec location doc hP.1).1, hP.2.trans (evolves_create _ _)⟩) d
  refine ⟨hsound, hev, fun v hv => ?_⟩
  obtain ⟨st₀, hP, hop⟩ := hreply _ hv
  have hwrote := (createDocExclusive_spec location doc hP.1).2 v
    (by rw [hop])
  rw [hop] at hwrote
  exact ⟨st₀, hP.2, hwrote⟩

theorem replaceDocIf_call (doc : LeaseDoc) {seen : Seen} (h : Sound clock st session)
    (ho : doc.owner = owner) (d : Delivery)
    (hmay : d ≠ .requestLost →
      MayReplace location st (session owner) owner doc.renewedAtMs seen) :
    Sound clock (d.call (replaceDocIf location (encode doc) seen.version) st).2 session ∧
    Evolves location st (d.call (replaceDocIf location (encode doc) seen.version) st).2 ∧
    ∀ v, (d.call (replaceDocIf location (encode doc) seen.version) st).1 = some (.ok v) →
      ∃ st₀, Evolves location st st₀ ∧
        Wrote st₀ (d.call (replaceDocIf location (encode doc) seen.version) st).2 owner
          doc.renewedAtMs := by
  by_cases hd : d = .requestLost
  · subst hd
    exact ⟨h, Evolves.refl location st, fun v hv => by simp [Delivery.call] at hv⟩
  · obtain ⟨⟨hsound, hev, -⟩, hreply⟩ := call_spec
      (replaceDocIf location (encode doc) seen.version)
      (P := fun st' => Sound clock st' session ∧ Evolves location st st' ∧
        MayReplace location st' (session owner) owner doc.renewedAtMs seen)
      ⟨h, Evolves.refl location st, hmay hd⟩
      (fun st' hP => by
        obtain ⟨hs, he, hm, -⟩ := replaceDocIf_spec hP.1 ho hP.2.2
        exact ⟨hs, hP.2.1.trans he, hm⟩) d
    refine ⟨hsound, hev, fun v hv => ?_⟩
    obtain ⟨st₀, hP, hop⟩ := hreply _ hv
    have hwrote := (replaceDocIf_spec hP.1 ho hP.2.2).2.2.2 v (by rw [hop])
    rw [hop] at hwrote
    exact ⟨st₀, hP.2.1, hwrote⟩

theorem takeover_call {expected : Expected} {seen : Seen} (fresh : LeaseDoc)
    (h : Sound clock st session) (hknown : Known location st seen)
    (hab : Abandoned clock expected seen) (d : Delivery) :
    Sound clock (d.call (takeover location expected seen.version fresh) st).2 session ∧
    Evolves location st (d.call (takeover location expected seen.version fresh) st).2 ∧
    ((d.call (takeover location expected seen.version fresh) st).1 = some (.ok .won) →
      ∃ st₀, Evolves location st st₀ ∧
        Wrote st₀ (d.call (takeover location expected seen.version fresh) st).2 fresh.owner
          fresh.renewedAtMs) := by
  obtain ⟨⟨hsound, hev⟩, hreply⟩ := call_spec
    (takeover location expected seen.version fresh)
    (P := fun st' => Sound clock st' session ∧ Evolves location st st') ⟨h, Evolves.refl location st⟩
    (fun st' hP => by
      obtain ⟨hs, he, -⟩ := takeover_spec fresh hP.1 (hP.2 seen hknown).1 hab
      exact ⟨hs, hP.2.trans he⟩) d
  refine ⟨hsound, hev, fun hw => ?_⟩
  obtain ⟨st₀, hP, hop⟩ := hreply _ hw
  have hwrote := (takeover_spec fresh hP.1 (hP.2 seen hknown).1 hab).2.2
    (by rw [hop])
  rw [hop] at hwrote
  exact ⟨st₀, hP.2, hwrote⟩

theorem afterTakeover_acquired {now stamp : Nat}
    {reply : Option (Except DestinationError Takeover)}
    (h : afterTakeover now reply = .acquired stamp) : reply = some (.ok .won) ∧ stamp = now := by
  cases reply with
  | none => simp [afterTakeover] at h
  | some result =>
    cases result with
    | error e => simp [afterTakeover] at h
    | ok outcome => cases outcome <;> simp_all [afterTakeover]

theorem afterTakeover_ok (now : Nat) (reply : Option (Except DestinationError Takeover)) :
    AcquireOk location clock st owner (afterTakeover now reply) := by
  cases reply with
  | none => trivial
  | some result =>
    cases result with
    | error e => trivial
    | ok outcome => cases outcome <;> trivial

/-- A replace on the local arm comes with nothing between its read and itself. -/
def AcquireUndisturbed (location : Location) (st : DocStore) (d : Delivery) :
    Acquire → Prop
  | .replace _ _ seen => location = .localDir → d ≠ .requestLost → Current location st seen
  | _ => True

theorem acquireStep_spec (scope : Scope) {pc : Acquire} (h : Sound clock st session)
    (hok : AcquireOk location clock st owner pc)
    (hnone : ∀ e, ¬ Evidence (session owner) e) (d : Delivery)
    (hund : AcquireUndisturbed location st d pc) (hpc : ∀ now, pc ≠ .acquired now) :
    StepOk location clock st (acquireStep location scope owner clock d pc st).2 session owner
      (AcquireOk location clock (acquireStep location scope owner clock d pc st).2 owner
        (acquireStep location scope owner clock d pc st).1)
      (fun stamp => (acquireStep location scope owner clock d pc st).1 = .acquired stamp) := by
  cases pc with
  | top => exact ⟨h, Evolves.refl _ _, Nat.le_refl _, fun stamp hs => by simp [acquireStep] at hs⟩
  | create now =>
    obtain ⟨hsound, hev, hwrote⟩ := createDocExclusive_call location
      (freshDoc scope.pipeline owner now) h d
    simp only [acquireStep]
    generalize d.call (createDocExclusive location
      (encode (freshDoc scope.pipeline owner now))) st = r at *
    obtain ⟨reply, st'⟩ := r
    rcases reply with - | ⟨v⟩ | -
    · exact ⟨hsound, hev, trivial, fun stamp hs => by simp at hs⟩
    · refine ⟨hsound, hev, trivial, fun stamp hs => ?_⟩
      obtain rfl : now = stamp := by simpa using hs
      exact ⟨hok, hwrote v rfl⟩
    · exact ⟨hsound, hev, hok, fun stamp hs => by simp at hs⟩
  | read now =>
    obtain ⟨hst, hread⟩ := readDocVersioned_call d location st
    simp only [acquireStep]
    generalize d.call (readDocVersioned location) st = r at *
    obtain ⟨reply, st'⟩ := r
    obtain rfl : st' = st := hst
    rcases reply with - | - | seen
    · exact ⟨h, Evolves.refl _ _, trivial, fun stamp hs => by simp at hs⟩
    · exact ⟨h, Evolves.refl _ _, trivial, fun stamp hs => by simp at hs⟩
    · obtain ⟨hnext, hnot⟩ := afterRead_ok hok (hread seen rfl)
      exact ⟨h, Evolves.refl _ _, hnext, fun stamp hs => absurd hs (hnot stamp)⟩
  | wait now wakeAt =>
    simp only [acquireStep]
    by_cases hwake : clock < wakeAt
    · simp only [hwake, if_true]
      exact ⟨h, Evolves.refl _ _, hok, fun stamp hs => by simp at hs⟩
    · simp only [hwake, if_false]
      obtain ⟨hst, hread⟩ := readDocVersioned_call d location st
      generalize d.call (readDocVersioned location) st = r at *
      obtain ⟨reply, st'⟩ := r
      obtain rfl : st' = st := hst
      rcases reply with - | - | seen
      · exact ⟨h, Evolves.refl _ _, trivial, fun stamp hs => by simp at hs⟩
      · exact ⟨h, Evolves.refl _ _, trivial, fun stamp hs => by simp at hs⟩
      · obtain ⟨hnext, hnot⟩ :=
          afterWait_ok hok (hread seen rfl)
        exact ⟨h, Evolves.refl _ _, hnext, fun stamp hs => absurd hs (hnot stamp)⟩
  | replace now holder seen =>
    obtain ⟨hnow, ho, hbytes, hknown⟩ := hok
    have hmay : d ≠ .requestLost →
        MayReplace location st (session owner) owner
          (freshDoc scope.pipeline owner now).renewedAtMs seen := by
      intro hd
      have howned (hcur : Current location st seen) : OwnedBy st owner :=
        ho ▸ hknown.ownedBy hcur hbytes
      cases location with
      | s3 => exact ⟨hknown, fun hcur => ⟨howned hcur, fun e he => absurd he (hnone e)⟩⟩
      | localDir => exact ⟨howned (hund rfl hd), fun e he => absurd he (hnone e)⟩
    obtain ⟨hsound, hev, hwrote⟩ :=
      replaceDocIf_call (freshDoc scope.pipeline owner now) h rfl d hmay
    simp only [acquireStep]
    generalize d.call (replaceDocIf location (encode (freshDoc scope.pipeline owner now))
      seen.version) st = r at *
    obtain ⟨reply, st'⟩ := r
    rcases reply with - | ⟨- | e⟩ | v
    · exact ⟨hsound, hev, trivial, fun stamp hs => by simp at hs⟩
    · exact ⟨hsound, hev, trivial, fun stamp hs => by simp at hs⟩
    · exact ⟨hsound, hev, trivial, fun stamp hs => by simp at hs⟩
    · refine ⟨hsound, hev, trivial, fun stamp hs => ?_⟩
      obtain rfl : now = stamp := by simpa using hs
      exact ⟨hnow, hwrote v rfl⟩
  | takeoverStale now holder seen =>
    obtain ⟨hnow, hab, hknown⟩ := hok
    obtain ⟨hsound, hev, hwrote⟩ := takeover_call
      (freshDoc scope.pipeline owner now) h hknown hab d
    refine ⟨hsound, hev, afterTakeover_ok now _, fun stamp hs => ?_⟩
    obtain ⟨hwon, rfl⟩ := afterTakeover_acquired hs
    exact ⟨hnow, hwrote hwon⟩
  | debris seen =>
    exact ⟨h, Evolves.refl _ _, ⟨Nat.le_refl _, hok.1, hok.2⟩,
      fun stamp hs => by simp [acquireStep] at hs⟩
  | takeoverDebris now seen =>
    obtain ⟨hnow, hab, hknown⟩ := hok
    obtain ⟨hsound, hev, hwrote⟩ := takeover_call
      (freshDoc scope.pipeline owner now) h hknown hab d
    refine ⟨hsound, hev, afterTakeover_ok now _, fun stamp hs => ?_⟩
    obtain ⟨hwon, rfl⟩ := afterTakeover_acquired hs
    exact ⟨hnow, hwrote hwon⟩
  | acquired now => exact absurd rfl (hpc now)
  | refused error =>
    exact ⟨h, Evolves.refl _ _, trivial, fun stamp hs => by simp [acquireStep] at hs⟩

/-- A heartbeat's replace on the local arm: nothing came between, and its stamp
does not fall behind what its session believes by now. -/
def RenewUndisturbed (location : Location) (st : DocStore) (s : Session) (d : Delivery) :
    Renew → Prop
  | .replace _ stamp seen => location = .localDir → d ≠ .requestLost →
      Current location st seen ∧ ∀ e, Evidence s e → e ≤ stamp
  | _ => True

theorem renewStep_spec {pc : Renew} (h : Sound clock st session)
    (hok : RenewOk location clock st (session owner) owner pc) (d : Delivery)
    (hund : RenewUndisturbed location st (session owner) d pc) :
    StepOk location clock st (renewStep location owner clock d pc st).2 session owner
      (RenewOk location clock (renewStep location owner clock d pc st).2 (session owner) owner
        (renewStep location owner clock d pc st).1)
      (fun stamp => (renewStep location owner clock d pc st).1 = .storeOk stamp) := by
  cases pc with
  | read =>
    obtain ⟨hst, hread⟩ := readDocVersioned_call d location st
    simp only [renewStep]
    generalize d.call (readDocVersioned location) st = r at *
    obtain ⟨reply, st'⟩ := r
    obtain rfl : st' = st := hst
    rcases reply with - | - | seen
    · exact ⟨h, Evolves.refl _ _, trivial, fun stamp hs => by simp at hs⟩
    · exact ⟨h, Evolves.refl _ _, trivial, fun stamp hs => by simp at hs⟩
    · simp only [afterRenewRead]
      cases hdec : decode seen.bytes with
      | error failure =>
        cases failure <;>
          exact ⟨h, Evolves.refl _ _, trivial, fun stamp hs => by simp at hs⟩
      | ok doc =>
        by_cases ho : doc.owner = owner
        · simp only [ho, ne_eq, not_true_eq_false, if_false]
          exact ⟨h, Evolves.refl _ _,
            ⟨ho, ((decode_ok_iff _ _).1 hdec).1, hread seen rfl⟩, fun stamp hs => by simp at hs⟩
        · simp only [ho, ne_eq, not_false_eq_true, if_true]
          exact ⟨h, Evolves.refl _ _, trivial, fun stamp hs => by simp at hs⟩
  | stamp doc seen =>
    refine ⟨h, Evolves.refl _ _, ⟨hok, Nat.le_refl _, fun _ _ e he => (h owner e he).1⟩,
      fun stamp hs => by simp [renewStep] at hs⟩
  | replace doc stamp seen =>
    obtain ⟨⟨ho, hbytes, hknown⟩, hstamp, hlast⟩ := hok
    have hmay : d ≠ .requestLost →
        MayReplace location st (session owner) owner
          ({ doc with renewedAtMs := stamp } : LeaseDoc).renewedAtMs seen := by
      intro hd
      have howned (hcur : Current location st seen) : OwnedBy st owner :=
        ho ▸ hknown.ownedBy hcur hbytes
      cases location with
      | s3 => exact ⟨hknown, fun hcur => ⟨howned hcur, hlast rfl hcur⟩⟩
      | localDir => exact ⟨howned (hund rfl hd).1, (hund rfl hd).2⟩
    obtain ⟨hsound, hev, hwrote⟩ :=
      replaceDocIf_call { doc with renewedAtMs := stamp } h ho d hmay
    simp only [renewStep]
    generalize d.call (replaceDocIf location (encode { doc with renewedAtMs := stamp })
      seen.version) st = r at *
    obtain ⟨reply, st'⟩ := r
    rcases reply with - | ⟨- | e⟩ | v
    · exact ⟨hsound, hev, trivial, fun stamp hs => by simp at hs⟩
    · exact ⟨hsound, hev, trivial, fun stamp hs => by simp at hs⟩
    · exact ⟨hsound, hev, trivial, fun stamp hs => by simp at hs⟩
    · refine ⟨hsound, hev, trivial, fun stamp' hs => ?_⟩
      obtain rfl : stamp = stamp' := by simpa using hs
      exact ⟨hstamp, hwrote v rfl⟩
  | storeOk stamp =>
    exact ⟨h, Evolves.refl _ _, trivial, fun stamp hs => by simp [renewStep] at hs⟩
  | setLost => exact ⟨h, Evolves.refl _ _, trivial, fun stamp hs => by simp [renewStep] at hs⟩
  | done => exact ⟨h, Evolves.refl _ _, trivial, fun stamp hs => by simp [renewStep] at hs⟩

/-! ## A session's beliefs change only by a step it takes itself -/

@[simp] theorem record_beats (s : Session) (b : Beat) : (s.record b).beats = s.beats := by
  unfold Session.record
  split
  · split
    · split <;> rfl
    · rfl
  · rfl

@[simp] theorem record_leases (s : Session) (b : Beat) : (s.record b).leases = s.leases := by
  unfold Session.record
  split
  · split
    · split <;> rfl
    · rfl
  · rfl

theorem record_acquiring {s : Session} {b : Beat} {pc : Acquire}
    (h : (s.record b).phase = .acquiring pc) : s.phase = .acquiring pc := by
  cases hp : s.phase with
  | idle => simp [Session.record, hp] at h
  | acquiring found => simpa [Session.record, hp] using h
  | holding lease =>
    obtain ⟨n, bpc⟩ := b
    by_cases hn : n = s.leases
    · cases bpc <;> simp [Session.record, hp, hn] at h
    · simp [Session.record, hp, hn] at h

/-- A recorded heartbeat leaves its own stamp, or the one there was. -/
theorem record_holding {s : Session} {b : Beat} {lease : Lease}
    (h : (s.record b).phase = .holding lease) :
    ∃ before : Lease, s.phase = .holding before ∧
      (lease.lastOkMs = before.lastOkMs ∨
        b.lease = s.leases ∧ b.pc = .storeOk lease.lastOkMs) := by
  cases hp : s.phase with
  | idle => simp [Session.record, hp] at h
  | acquiring found => simp [Session.record, hp] at h
  | holding before =>
    refine ⟨before, rfl, ?_⟩
    obtain ⟨n, bpc⟩ := b
    by_cases hn : n = s.leases
    · cases bpc <;> simp only [Session.record, hp, hn, if_true, Phase.holding.injEq] at h
      case storeOk stamp =>
        subst h
        exact .inr ⟨hn, rfl⟩
      all_goals
        subst h
        exact .inl rfl
    · simp only [Session.record, hp, hn, if_false, Phase.holding.injEq] at h
      exact .inl (by rw [h])

/-- The session after one step of its `i`th heartbeat. -/
def Session.beaten (s : Session) (i : Nat) (b : Beat) (pc : Renew) : Session :=
  { s.record b with beats := (s.record b).beats.set i { b with pc := pc } }

theorem mem_beaten {s : Session} {i : Nat} {b b' : Beat} {pc : Renew}
    (h : b' ∈ (s.beaten i b pc).beats) : b' ∈ s.beats ∨ b' = { b with pc := pc } := by
  simp only [Session.beaten, record_beats] at h
  exact List.mem_or_eq_of_mem_set h

theorem evidence_beaten {s : Session} {i : Nat} {b : Beat} {pc : Renew} {e : Nat}
    (hb : b ∈ s.beats) (h : Evidence (s.beaten i b pc) e) : Evidence s e ∨ pc = .storeOk e := by
  cases h with
  | acquired hphase => exact .inl (.acquired (record_acquiring hphase))
  | held hphase =>
    obtain ⟨before, hbefore, hsame | ⟨hlease, hpc⟩⟩ := record_holding hphase
    · exact .inl (hsame ▸ .held hbefore)
    · exact .inl (.renewed hbefore hb hlease hpc)
  | renewed hphase hmem hlease hpc =>
    obtain ⟨before, hbefore, -⟩ := record_holding hphase
    rcases mem_beaten hmem with hold | rfl
    · exact .inl (.renewed hbefore hold (by simpa [Session.beaten] using hlease) hpc)
    · exact .inr hpc

/-- A fact in flight is carried over a step of its own session: what the session
newly believes it has just written, and that outdates what was read. -/
theorem RenewOk.carry {pc : Renew} {s s' : Session}
    (h : RenewOk location clock st s owner pc) (hst : Evolves location st st')
    (hs : ∀ e, Evidence s' e → Evidence s e ∨ Won location clock st st' owner e) :
    RenewOk location clock st' s' owner pc := by
  cases pc with
  | stamp doc seen => exact ⟨h.1, h.2.1, (hst seen h.2.2).1⟩
  | replace doc stamp seen =>
    obtain ⟨⟨ho, hbytes, hknown⟩, hstamp, hlast⟩ := h
    obtain ⟨hknown', hback⟩ := hst seen hknown
    refine ⟨⟨ho, hbytes, hknown'⟩, hstamp, fun hs3 hcur e he => ?_⟩
    rcases hs e he with hold | hwon
    · exact hlast hs3 (hback hcur) e hold
    · subst hs3
      exact absurd hcur (hwon.outdated hknown)
  | read => trivial
  | storeOk stamp => trivial
  | setLost => trivial
  | done => trivial

/-- One session and the document change together. -/
theorem Inv.change {w : World} {s' : Session} (h : Inv location w)
    (hsound : Sound w.clock st' w.session) (hst : Evolves location w.store st')
    (hbelieve : ∀ e, Evidence s' e →
      Evidence (w.session owner) e ∨ Won location w.clock w.store st' owner e)
    (hleases : ∀ b ∈ s'.beats, b.lease ≤ s'.leases)
    (hacquire : ∀ pc, s'.phase = .acquiring pc → AcquireOk location w.clock st' owner pc)
    (hrenew : ∀ b ∈ s'.beats, RenewOk location w.clock st' s' owner b.pc) :
    Inv location { w.setSession owner s' with store := st' } where
  sound := hsound.change fun e he => (hbelieve e he).imp_right fun hwon =>
    ⟨hwon.1, hwon.names⟩
  leases := by
    intro o b hb
    by_cases ho : o = owner
    · simp only [World.setSession, ho, if_true] at hb ⊢
      exact hleases b hb
    · simp only [World.setSession, ho, if_false] at hb ⊢
      exact h.leases o b hb
  acquire := by
    intro o pc hpc
    by_cases ho : o = owner
    · simp only [World.setSession, ho, if_true] at hpc ⊢
      exact hacquire pc hpc
    · simp only [World.setSession, ho, if_false] at hpc
      exact (h.acquire o pc hpc).evolve hst
  renew := by
    intro o b hb
    by_cases ho : o = owner
    · simp only [World.setSession, ho, if_true] at hb ⊢
      exact hrenew b hb
    · simp only [World.setSession, ho, if_false] at hb ⊢
      exact (h.renew o b hb).evolve hst

/-- A change of one session that leaves the document alone and adds no belief. -/
theorem Inv.changeSession {w : World} {s' : Session} (h : Inv location w)
    (hbelieve : ∀ e, Evidence s' e → Evidence (w.session owner) e)
    (hleases : ∀ b ∈ s'.beats, b.lease ≤ s'.leases)
    (hacquire : ∀ pc, s'.phase = .acquiring pc → AcquireOk location w.clock w.store owner pc)
    (hrenew : ∀ b ∈ s'.beats, b ∈ (w.session owner).beats ∨
      ∀ s, RenewOk location w.clock w.store s owner b.pc) :
    Inv location (w.setSession owner s') := by
  refine h.change h.sound (Evolves.refl _ _) (fun e he => .inl (hbelieve e he)) hleases hacquire ?_
  intro b hb
  rcases hrenew b hb with hold | htriv
  · exact (h.renew owner b hold).believe fun _ _ _ _ e he => hbelieve e he
  · exact htriv s'

/-- What is asked of a step: nothing on S3, and locally that a replace reaching
the disk comes with nothing in between. -/
def Undisturbed (location : Location) (w : World) : Act → Prop
  | .acquire owner d => ∀ pc, (w.session owner).phase = .acquiring pc →
      AcquireUndisturbed location w.store d pc
  | .renew owner i d => ∀ b, (w.session owner).beats[i]? = some b →
      RenewUndisturbed location w.store (w.session owner) d b.pc
  | _ => True

theorem undisturbed_s3 (w : World) (a : Act) : Undisturbed .s3 w a := by
  cases a with
  | acquire owner d =>
    intro pc _
    cases pc <;> first | trivial | exact fun h => by cases h
  | renew owner i d =>
    intro b _
    obtain ⟨n, pc⟩ := b
    cases pc <;> first | trivial | exact fun h => by cases h
  | _ => trivial

theorem inv_step {w : World} {a : Act} (h : Inv location w) (hund : Undisturbed location w a) :
    Inv location (step location scope w a) := by
  cases a with
  | tick ms =>
    exact {
      sound := h.sound.tick ms
      leases := h.leases
      acquire := fun o pc hpc => (h.acquire o pc hpc).tick ms
      renew := fun o b hb => (h.renew o b hb).tick ms }
  | openLoad owner =>
    simp only [step]
    cases hp : (w.session owner).phase with
    | idle =>
      refine h.changeSession ?_ (h.leases owner) ?_ (fun b hb => .inl hb)
      · intro e he
        cases he with
        | acquired hphase => simp at hphase
        | held hphase => simp at hphase
        | renewed hphase => simp at hphase
      · intro pc hpc
        obtain rfl : Acquire.top = pc := by simpa using hpc
        trivial
    | acquiring pc => exact h
    | holding lease => exact h
  | acquire owner d =>
    simp only [step]
    cases hp : (w.session owner).phase with
    | idle => exact h
    | holding lease => exact h
    | acquiring pc =>
      by_cases hacq : ∃ now, pc = .acquired now
      · obtain ⟨now, rfl⟩ := hacq
        -- the lease begins: every heartbeat still running is an older one's
        refine h.changeSession ?_ (fun b hb => Nat.le_succ_of_le (h.leases owner b hb)) ?_
          (fun b hb => .inl hb)
        · intro e he
          cases he with
          | acquired hphase => simp at hphase
          | held hphase =>
            simp only [Phase.holding.injEq] at hphase
            subst hphase
            exact .acquired hp
          | renewed hphase hb hlease =>
            have := h.leases owner _ hb
            simp only at hlease
            omega
        · intro pc hpc
          simp at hpc
      · have hne : ∀ now, pc ≠ .acquired now := fun now hpc => hacq ⟨now, hpc⟩
        have hnone : ∀ e, ¬ Evidence (w.session owner) e := by
          intro e he
          cases he with
          | acquired hphase =>
            rw [hp] at hphase
            exact hne _ (by simpa using hphase)
          | held hphase => simp [hp] at hphase
          | renewed hphase => simp [hp] at hphase
        have hspec := acquireStep_spec scope h.sound (h.acquire owner pc hp) hnone d
          (hund pc hp) hne
        have hbelieve : ∀ e, Evidence
            { w.session owner with
              phase := .acquiring (acquireStep location scope owner w.clock d pc w.store).1 } e →
            Evidence (w.session owner) e ∨
              Won location w.clock w.store
                (acquireStep location scope owner w.clock d pc w.store).2 owner e := by
          intro e he
          cases he with
          | acquired hphase => exact .inr (hspec.earned e (by simpa using hphase))
          | held hphase => simp at hphase
          | renewed hphase => simp at hphase
        have hinv := h.change hspec.sound hspec.evolves hbelieve (h.leases owner)
          (fun pc' hpc' => by
            obtain rfl : _ = pc' := Phase.acquiring.inj hpc'
            exact hspec.next)
          (fun b hb => (h.renew owner b hb).carry hspec.evolves hbelieve)
        cases pc with
        | acquired now => exact absurd rfl (hne now)
        | _ => exact hinv
  | beat owner =>
    simp only [step]
    cases hp : (w.session owner).phase with
    | idle => exact h
    | acquiring pc => exact h
    | holding lease =>
      simp only
      split
      · refine h.changeSession ?_ ?_ (fun pc hpc => by simp at hpc) ?_
        · intro e he
          cases he with
          | acquired hphase => simp at hphase
          | held hphase => exact .held (hp.trans hphase)
          | renewed hphase hb hlease hpc =>
            rcases List.mem_append.1 hb with hold | hnew
            · exact .renewed (hp.trans hphase) hold hlease hpc
            · simp only [List.mem_singleton] at hnew
              simp [hnew] at hpc
        · intro b hb
          rcases List.mem_append.1 hb with hold | hnew
          · exact h.leases owner b hold
          · simp only [List.mem_singleton] at hnew
            simp [hnew]
        · intro b hb
          rcases List.mem_append.1 hb with hold | hnew
          · exact .inl hold
          · simp only [List.mem_singleton] at hnew
            subst hnew
            exact .inr fun s => trivial
      · exact h
  | renew owner i d =>
    simp only [step]
    cases hb : (w.session owner).beats[i]? with
    | none => exact h
    | some b =>
      have hmem : b ∈ (w.session owner).beats := List.mem_of_getElem? hb
      have hspec := renewStep_spec h.sound (h.renew owner b hmem) d (hund b hb)
      have hbelieve : ∀ e, Evidence ((w.session owner).beaten i b
          (renewStep location owner w.clock d b.pc w.store).1) e →
          Evidence (w.session owner) e ∨
            Won location w.clock w.store
              (renewStep location owner w.clock d b.pc w.store).2 owner e :=
        fun e he => (evidence_beaten hmem he).imp_right (hspec.earned e)
      refine h.change hspec.sound hspec.evolves hbelieve ?_ ?_ ?_
      · intro b' hb'
        simp only [record_leases]
        rcases mem_beaten hb' with hold | rfl
        · exact h.leases owner b' hold
        · exact h.leases owner b hmem
      · intro pc hpc
        exact (h.acquire owner pc (record_acquiring hpc)).evolve hspec.evolves
      · intro b' hb'
        rcases mem_beaten hb' with hold | rfl
        · exact (h.renew owner b' hold).carry hspec.evolves hbelieve
        · -- the stepped heartbeat: either it just succeeded, or nothing new is believed
          by_cases hok : ∃ t, (renewStep location owner w.clock d b.pc w.store).1 = .storeOk t
          · obtain ⟨t, ht⟩ := hok
            simp only [ht]
            trivial
          · refine hspec.next.believe fun _ _ _ _ e he => ?_
            rcases evidence_beaten hmem he with hold | hnew
            · exact hold
            · exact absurd ⟨e, hnew⟩ hok
  | drop owner =>
    refine h.changeSession ?_ (h.leases owner) (fun pc hpc => by simp at hpc)
      (fun b hb => .inl hb)
    intro e he
    cases he with
    | acquired hphase => simp at hphase
    | held hphase => simp at hphase
    | renewed hphase => simp at hphase
  | abort owner i =>
    simp only [step]
    cases hb : (w.session owner).beats[i]? with
    | none => exact h
    | some b =>
      have hmem : b ∈ (w.session owner).beats := List.mem_of_getElem? hb
      refine h.changeSession ?_ ?_ (h.acquire owner) ?_
      · intro e he
        cases he with
        | acquired hphase => exact .acquired hphase
        | held hphase => exact .held hphase
        | renewed hphase hb' hlease hpc =>
          rcases List.mem_or_eq_of_mem_set hb' with hold | rfl
          · exact .renewed hphase hold hlease hpc
          · simp at hpc
      · intro b' hb'
        rcases List.mem_or_eq_of_mem_set hb' with hold | rfl
        · exact h.leases owner b' hold
        · exact h.leases owner b hmem
      · intro b' hb'
        rcases List.mem_or_eq_of_mem_set hb' with hold | rfl
        · exact .inl hold
        · exact .inr fun s => trivial

/-- Mutual exclusion on the object-store arm, for every interleaving of store
calls, pauses, crashes and lost replies, from any document found there. -/
theorem s3_at_most_one_holder (scope : Scope) (store : DocStore) (clock : Nat)
    (acts : List Act) :
    AtMostOneHolder scope
      (Transition.run (step .s3 scope) (World.initial store clock) acts) := by
  have hstep (w : World) (a : Act) (h : Inv .s3 w) : Inv .s3 (step .s3 scope w a) :=
    inv_step h (undisturbed_s3 w a)
  have hinv := Transition.run_invariant_always (Inv .s3) hstep (inv_initial .s3 store clock) acts
  exact atMostOneHolder_of_sound hinv.sound

end FileLease
