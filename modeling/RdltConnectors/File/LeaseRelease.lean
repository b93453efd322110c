import Mathlib
import RdltConnectors.File.LeaseEvidence

/-!
# Giving the lease back

`release` stops the heartbeat, reads the document once more, and deletes it when
it still carries this session's name. The read and the delete are two calls, and
the delete is not conditional on what the read saw. The releasing sessions run
here beside everything else the lease protocol does; the world keeps, for the
statements only, who made each write and what each delete took away.
-/
namespace FileLease

open Transition

/-- Where one `release` stands. `delete` keeps the number of writes that had
landed when the document was read; the code has no such number. -/
inductive Release where
  | idle
  | fence
  | read
  | delete (writes : Nat)
  deriving DecidableEq, Repr

/-- Absence already counts as done, and no version is compared. -/
def deleteDoc (st : DocStore) : Unit × DocStore := ((), { st with doc := none })

structure ReleaseWorld where
  world : World
  /-- the owner behind each write of the document, oldest first -/
  writers : List String
  releasing : String → Release
  /-- what each release's delete took away, under the releasing owner -/
  removed : List (String × DocBytes)

def ReleaseWorld.setReleasing (w : ReleaseWorld) (owner : String) (pc : Release) :
    ReleaseWorld :=
  { w with releasing := fun o => if o = owner then pc else w.releasing o }

def ReleaseWorld.initial (store : DocStore) (clock : Nat) : ReleaseWorld :=
  ⟨.initial store clock, [], fun _ => .idle, []⟩

inductive ReleaseAct where
  /-- any step of the acquires and heartbeats -/
  | session (a : Act)
  /-- the publish has ended and `release` is called -/
  | start (owner : String)
  /-- the next step of this owner's `release` -/
  | advance (owner : String) (d : Delivery)
  /-- the releasing process dies -/
  | crash (owner : String)
  deriving DecidableEq, Repr

def Act.owner : Act → Option String
  | .tick _ => none
  | .openLoad owner => some owner
  | .acquire owner _ => some owner
  | .beat owner => some owner
  | .renew owner _ _ => some owner
  | .drop owner => some owner
  | .abort owner _ => some owner

/-- The writes one step made, each under the name of the session that stepped. -/
def Act.writes (a : Act) (before after : DocStore) : List String :=
  match a.owner with
  | some owner => List.replicate (after.etag - before.etag) owner
  | none => []

/-- Aborting the heartbeat and awaiting it: no beat of this lease runs on. -/
def Session.fenced (s : Session) : Session :=
  { s with
    phase := .idle
    beats := s.beats.map fun b => if b.lease = s.leases then { b with pc := .done } else b }

/-- Anything but a decodable document under our own name skips the delete. -/
def afterReleaseRead (owner : String) (writes : Nat) : Option (Option Seen) → Release
  | some (some seen) =>
    match decode seen.bytes with
    | .ok doc => if doc.owner = owner then .delete writes else .idle
    | .error _ => .idle
  | some none => .idle
  | none => .idle

def taken (owner : String) (before after : DocStore) : List (String × DocBytes) :=
  match before.doc, after.doc with
  | some bytes, none => [(owner, bytes)]
  | _, _ => []

/-- One step of `release`: at most one store call. -/
def releaseAdvance (location : Location) (owner : String) (d : Delivery) (w : ReleaseWorld) :
    ReleaseWorld :=
  match w.releasing owner with
  | .idle => w
  | .fence =>
    match (w.world.session owner).phase with
    | .holding lease =>
      { w with world := w.world.setSession owner (w.world.session owner).fenced }.setReleasing
        owner (if lease.lost then .idle else .read)
    | _ => w.setReleasing owner .idle
  | .read =>
    let r := d.call (readDocVersioned location) w.world.store
    { w with world := { w.world with store := r.2 } }.setReleasing owner
      (afterReleaseRead owner w.writers.length r.1)
  | .delete _ =>
    let r := d.call deleteDoc w.world.store
    { w with
      world := { w.world with store := r.2 }
      removed := w.removed ++ taken owner w.world.store r.2 }.setReleasing owner .idle

def releaseStep (location : Location) (scope : Scope) (w : ReleaseWorld) :
    ReleaseAct → ReleaseWorld
  | .session a =>
    { w with
      world := step location scope w.world a
      writers := w.writers ++ a.writes w.world.store (step location scope w.world a).store }
  | .start owner =>
    match (w.world.session owner).phase with
    | .holding _ => w.setReleasing owner .fence
    | _ => w
  | .advance owner d => releaseAdvance location owner d w
  | .crash owner => w.setReleasing owner .idle

/-- No release has taken away a document that names another owner. -/
def OwnerSafe (w : ReleaseWorld) : Prop :=
  ∀ r ∈ w.removed, ∀ doc, r.2 = encode doc → doc.owner = r.1

/-- Only this owner has written the document since the read of its release. -/
def Release.InTime (writers : List String) (owner : String) : Release → Prop
  | .delete writes => ∀ x ∈ writers.drop writes, x = owner
  | .idle => True
  | .fence => True
  | .read => True

instance (writers : List String) (owner : String) :
    (pc : Release) → Decidable (pc.InTime writers owner)
  | .delete writes => inferInstanceAs (Decidable (∀ x ∈ writers.drop writes, x = owner))
  | .idle => .isTrue trivial
  | .fence => .isTrue trivial
  | .read => .isTrue trivial

/-- Between the read of a release and its delete, no other session's write of
the document has landed. -/
def DeletesInTime (w : ReleaseWorld) : ReleaseAct → Prop
  | .advance owner _ => (w.releasing owner).InTime w.writers owner
  | .session _ => True
  | .start _ => True
  | .crash _ => True

instance (w : ReleaseWorld) : (a : ReleaseAct) → Decidable (DeletesInTime w a)
  | .advance owner _ =>
    inferInstanceAs (Decidable ((w.releasing owner).InTime w.writers owner))
  | .session _ => .isTrue trivial
  | .start _ => .isTrue trivial
  | .crash _ => .isTrue trivial

/-! ## What a session's calls can do to the document -/

/-- Short of writing, a session only leaves the document or removes it; once it
has written, the document is gone or carries the session's own name. -/
structure Moved (owner : String) (st st' : DocStore) : Prop where
  forward : st.etag ≤ st'.etag
  unwritten : st'.etag = st.etag → st'.doc = st.doc ∨ st'.doc = none
  written : st'.etag ≠ st.etag → st'.doc = none ∨ OwnedBy st' owner

theorem Moved.refl (owner : String) (st : DocStore) : Moved owner st st :=
  ⟨Nat.le_refl _, fun _ => .inl rfl, fun h => absurd rfl h⟩

theorem Moved.trans {owner : String} {st st' st'' : DocStore} (h : Moved owner st st')
    (h' : Moved owner st' st'') : Moved owner st st'' := by
  have hforward : st.etag ≤ st'.etag := h.forward
  have hforward' : st'.etag ≤ st''.etag := h'.forward
  constructor
  · omega
  · intro he
    have hsame : st'.etag = st.etag := by omega
    have hsame' : st''.etag = st'.etag := by omega
    cases h'.unwritten hsame' with
    | inl hdoc => rw [hdoc]; exact h.unwritten hsame
    | inr hgone => exact .inr hgone
  · intro he
    by_cases hlast : st''.etag = st'.etag
    · have hfirst : st'.etag ≠ st.etag := by omega
      cases h'.unwritten hlast with
      | inr hgone => exact .inl hgone
      | inl hdoc =>
        cases h.written hfirst with
        | inl hgone => exact .inl (hdoc.trans hgone)
        | inr howned =>
          obtain ⟨doc, hst', ho⟩ := howned
          exact .inr ⟨doc, hdoc.trans hst', ho⟩
    · exact h'.written hlast

theorem Moved.write {owner : String} (st : DocStore) {doc : LeaseDoc} (ho : doc.owner = owner) :
    Moved owner st (st.write (encode doc)) := by
  constructor
  · simp
  · intro he
    simp at he
  · exact fun _ => .inr ⟨doc, rfl, ho⟩

theorem Moved.call {ρ : Type} {owner : String} {op : DocStore → ρ × DocStore}
    (hop : ∀ st, Moved owner st (op st).2) (d : Delivery) (st : DocStore) :
    Moved owner st (d.call op st).2 := by
  cases d with
  | delivered => exact hop st
  | requestLost => exact Moved.refl owner st
  | replyLost => exact hop st
  | retried => exact (hop st).trans (hop (op st).2)

variable {location : Location} {scope : Scope} {owner : String}

theorem moved_create {doc : LeaseDoc} (ho : doc.owner = owner) (st : DocStore) :
    Moved owner st (createDocExclusive location (encode doc) st).2 := by
  unfold createDocExclusive
  cases st.doc with
  | none => exact Moved.write st ho
  | some bytes => exact Moved.refl owner st

theorem moved_read (st : DocStore) : Moved owner st (readDocVersioned location st).2 :=
  Moved.refl owner st

theorem moved_replace {doc : LeaseDoc} (ho : doc.owner = owner) (version : DocVersion)
    (st : DocStore) : Moved owner st (replaceDocIf location (encode doc) version st).2 := by
  cases location with
  | localDir => exact Moved.write st ho
  | s3 =>
    cases version with
    | localDoc => exact Moved.refl owner st
    | s3 etag =>
      by_cases hc : st.doc.isSome ∧ etag = st.etag
      · simp only [replaceDocIf, if_pos hc]
        exact Moved.write st ho
      · simp only [replaceDocIf, if_neg hc]
        exact Moved.refl owner st

theorem moved_takeover {fresh : LeaseDoc} (ho : fresh.owner = owner) (expected : Expected)
    (version : DocVersion) (st : DocStore) :
    Moved owner st (takeover location expected version fresh st).2 := by
  cases location with
  | localDir =>
    simp only [takeover]
    cases hdoc : st.doc with
    | none => exact Moved.refl owner st
    | some bytes =>
      by_cases hu : expected.unchanged bytes
      · simp only [hu, if_true]
        exact ⟨Nat.le_refl _, fun _ => .inr rfl, fun h => absurd rfl h⟩
      · simp only [hu, Bool.false_eq_true, if_false]
        exact Moved.refl owner st
  | s3 =>
    have hmoved : Moved owner st (replaceDocIf .s3 (encode fresh) version st).2 :=
      moved_replace ho version st
    have hstore : (takeover .s3 expected version fresh st).2 =
        (replaceDocIf .s3 (encode fresh) version st).2 := by
      simp only [takeover]
      split <;> simp_all
    rw [hstore]
    exact hmoved

theorem fresh_owner (pipeline owner : String) (now : Nat) :
    (freshDoc pipeline owner now).owner = owner := rfl

theorem moved_acquireStep (clock : Nat) (d : Delivery) (pc : Acquire) (st : DocStore) :
    Moved owner st (acquireStep location scope owner clock d pc st).2 := by
  have hread : Moved owner st (d.call (readDocVersioned location) st).2 :=
    Moved.call moved_read d st
  cases pc with
  | top => exact Moved.refl owner st
  | create now =>
    have hcall : Moved owner st (d.call (createDocExclusive location
        (encode (freshDoc scope.pipeline owner now))) st).2 := 
      Moved.call (moved_create (fresh_owner _ _ _)) d st
    simp only [acquireStep]
    split <;> simp_all
  | read now =>
    simp only [acquireStep]
    split <;> simp_all
  | wait now wakeAt =>
    simp only [acquireStep]
    split
    · exact Moved.refl owner st
    · split <;> simp_all
  | replace now holder seen =>
    have hcall : Moved owner st (d.call (replaceDocIf location
        (encode (freshDoc scope.pipeline owner now)) seen.version) st).2 :=
      Moved.call (moved_replace (fresh_owner _ _ _) seen.version) d st
    simp only [acquireStep]
    split <;> simp_all
  | takeoverStale now holder seen =>
    exact Moved.call (moved_takeover (fresh_owner _ _ _) (.stale holder) seen.version) d st
  | debris seen => exact Moved.refl owner st
  | takeoverDebris now seen =>
    exact Moved.call (moved_takeover (fresh_owner _ _ _) .stillUndecodable seen.version) d st
  | acquired now => exact Moved.refl owner st
  | refused error => exact Moved.refl owner st

/-- A heartbeat goes on to replace only a document under its own name. -/
def Renew.Own (owner : String) : Renew → Prop
  | .stamp doc _ => doc.owner = owner
  | .replace doc _ _ => doc.owner = owner
  | .read => True
  | .storeOk _ => True
  | .setLost => True
  | .done => True

theorem own_afterRenewRead (owner : String) (seen : Seen) :
    (afterRenewRead owner seen).Own owner := by
  unfold afterRenewRead
  cases decode seen.bytes with
  | error failure => cases failure <;> exact trivial
  | ok doc =>
    by_cases ho : doc.owner = owner
    · simp [ho, Renew.Own]
    · simp [ho, Renew.Own]

theorem own_renewStep (clock : Nat) (d : Delivery) {pc : Renew} (h : pc.Own owner)
    (st : DocStore) : (renewStep location owner clock d pc st).1.Own owner := by
  cases pc with
  | read =>
    simp only [renewStep]
    split
    · trivial
    · trivial
    · exact own_afterRenewRead owner _
  | stamp doc seen => exact h
  | replace doc stamp seen =>
    simp only [renewStep]
    split <;> trivial
  | storeOk stamp => trivial
  | setLost => trivial
  | done => trivial

theorem moved_renewStep (clock : Nat) (d : Delivery) {pc : Renew} (h : pc.Own owner)
    (st : DocStore) : Moved owner st (renewStep location owner clock d pc st).2 := by
  cases pc with
  | read =>
    have hcall : Moved owner st (d.call (readDocVersioned location) st).2 :=
      Moved.call moved_read d st
    simp only [renewStep]
    split <;> simp_all
  | stamp doc seen => exact Moved.refl owner st
  | replace doc stamp seen =>
    have hown : ({ doc with renewedAtMs := stamp } : LeaseDoc).owner = owner := h
    have hcall : Moved owner st (d.call (replaceDocIf location
        (encode { doc with renewedAtMs := stamp }) seen.version) st).2 :=
      Moved.call (moved_replace hown seen.version) d st
    simp only [renewStep]
    split <;> simp_all
  | storeOk stamp => exact Moved.refl owner st
  | setLost => exact Moved.refl owner st
  | done => exact Moved.refl owner st

/-! ## What a pending delete may rely on -/

def BeatsOwn (session : String → Session) : Prop :=
  ∀ o, ∀ b ∈ (session o).beats, b.pc.Own o

/-- As long as every write since the read was the session's own, so is the
document; nothing else is known once another session has written. -/
def Spared (w : ReleaseWorld) (owner : String) (writes : Nat) : Prop :=
  writes ≤ w.writers.length ∧
    ((∀ x ∈ w.writers.drop writes, x = owner) →
      ∀ doc, w.world.store.doc = some (encode doc) → doc.owner = owner)

structure ReleaseInv (w : ReleaseWorld) : Prop where
  beats : BeatsOwn w.world.session
  pending : ∀ o writes, w.releasing o = .delete writes → Spared w o writes
  safe : OwnerSafe w

theorem releaseInv_initial (store : DocStore) (clock : Nat) :
    ReleaseInv (ReleaseWorld.initial store clock) where
  beats := by simp [BeatsOwn, ReleaseWorld.initial, World.initial, Session.new]
  pending := by simp [ReleaseWorld.initial]
  safe := by simp [OwnerSafe, ReleaseWorld.initial]

theorem BeatsOwn.set {w : World} (h : BeatsOwn w.session) {s : Session}
    (hs : ∀ b ∈ s.beats, b.pc.Own owner) : BeatsOwn (w.setSession owner s).session := by
  intro o b hb
  by_cases ho : o = owner
  · subst ho
    simp only [World.setSession, if_true] at hb
    exact hs b hb
  · simp only [World.setSession, if_neg ho] at hb
    exact h o b hb

theorem record_keeps_beats (s : Session) (b : Beat) : (s.record b).beats = s.beats := by
  unfold Session.record
  split
  · split
    · split <;> rfl
    · rfl
  · rfl

/-- One step of the lease protocol keeps every heartbeat on its own document. -/
theorem beatsOwn_step (a : Act) {w : World} (h : BeatsOwn w.session) :
    BeatsOwn (step location scope w a).session := by
  cases a with
  | tick ms => exact h
  | openLoad owner =>
    simp only [step]
    split
    · exact h.set (h owner)
    · exact h
  | acquire owner d =>
    simp only [step]
    split
    · exact h.set (h owner)
    · exact h.set (h owner)
    · exact h
  | beat owner =>
    simp only [step]
    split
    · split
      · apply h.set
        intro b hb
        simp only [List.mem_append, List.mem_singleton] at hb
        cases hb with
        | inl hold => exact h owner b hold
        | inr hnew => subst hnew; exact trivial
      · exact h
    · exact h
  | renew owner i d =>
    simp only [step]
    split
    · rename_i beat hbeat
      apply h.set
      intro b hb
      cases List.mem_or_eq_of_mem_set hb with
      | inl hold =>
        rw [record_keeps_beats] at hold
        exact h owner b hold
      | inr hnew =>
        subst hnew
        exact own_renewStep w.clock d (h owner beat (List.mem_of_getElem? hbeat)) w.store
    · exact h
  | drop owner =>
    exact h.set (h owner)
  | abort owner i =>
    simp only [step]
    split
    · apply h.set
      intro b hb
      cases List.mem_or_eq_of_mem_set hb with
      | inl hold => exact h owner b hold
      | inr hnew => subst hnew; exact trivial
    · exact h

variable (location scope) in
/-- A step without an owner leaves the document alone; any other moves it as
its owner may. -/
theorem moved_step (a : Act) {w : World} (h : BeatsOwn w.session) :
    match a.owner with
    | some o => Moved o w.store (step location scope w a).store
    | none => (step location scope w a).store = w.store := by
  cases a with
  | tick ms => rfl
  | openLoad owner =>
    simp only [step, Act.owner]
    split <;> exact Moved.refl owner w.store
  | acquire owner d =>
    simp only [step, Act.owner]
    split
    · exact Moved.refl owner w.store
    · exact moved_acquireStep w.clock d _ w.store
    · exact Moved.refl owner w.store
  | beat owner =>
    simp only [step, Act.owner]
    split
    · split <;> exact Moved.refl owner w.store
    · exact Moved.refl owner w.store
  | renew owner i d =>
    simp only [step, Act.owner]
    split
    · rename_i beat hbeat
      exact moved_renewStep w.clock d (h owner beat (List.mem_of_getElem? hbeat)) w.store
    · exact Moved.refl owner w.store
  | drop owner => exact Moved.refl owner w.store
  | abort owner i =>
    simp only [step, Act.owner]
    split <;> exact Moved.refl owner w.store

/-- A pending delete stays as safe as its writers, whoever moves next. -/
theorem Spared.move {w : ReleaseWorld} {writes : Nat} (h : Spared w owner writes) {o : String}
    {world : World} (hm : Moved o w.world.store world.store) :
    Spared { w with
      world := world
      writers := w.writers ++ List.replicate (world.store.etag - w.world.store.etag) o }
      owner writes := by
  obtain ⟨hlen, hdoc⟩ := h
  constructor
  · simp only [List.length_append]
    omega
  · intro hall doc hstored
    simp only [List.drop_append_of_le_length hlen, List.mem_append] at hall
    have hbefore : ∀ x ∈ w.writers.drop writes, x = owner := fun x hx => hall x (.inl hx)
    by_cases he : world.store.etag = w.world.store.etag
    · cases hm.unwritten he with
      | inl hsame => exact hdoc hbefore doc (hsame ▸ hstored)
      | inr hgone => exact absurd (hgone ▸ hstored) (by simp)
    · have hforward : w.world.store.etag ≤ world.store.etag := hm.forward
      have hmem : o ∈ List.replicate (world.store.etag - w.world.store.etag) o := by
        rw [List.mem_replicate]
        exact ⟨by omega, rfl⟩
      have ho : o = owner := hall o (.inr hmem)
      cases hm.written he with
      | inl hgone => exact absurd (hgone ▸ hstored) (by simp)
      | inr howned =>
        obtain ⟨found, hfound, hname⟩ := howned
        rw [hfound] at hstored
        simp only [encode, Option.some.injEq, DocBytes.json.injEq] at hstored
        rw [← hstored, hname, ho]

theorem inv_session (a : Act) {w : ReleaseWorld} (h : ReleaseInv w) :
    ReleaseInv (releaseStep location scope w (.session a)) where
  beats := beatsOwn_step a h.beats
  safe := h.safe
  pending := by
    intro o writes hpc
    have hspared : Spared w o writes := h.pending o writes hpc
    have hmoved := moved_step location scope a h.beats
    simp only [releaseStep, Act.writes]
    cases howner : a.owner with
    | some mover =>
      rw [howner] at hmoved
      exact hspared.move hmoved
    | none =>
      rw [howner] at hmoved
      simp only [List.append_nil]
      exact ⟨hspared.1, fun hall doc hdoc => hspared.2 hall doc (hmoved ▸ hdoc)⟩

/-- A pc set to anything but a pending delete asks for nothing new. -/
theorem pending_set {w : ReleaseWorld} {pc : Release} {owner : String}
    (h : ∀ o writes, w.releasing o = .delete writes → Spared w o writes)
    (hpc : ∀ writes, pc = .delete writes → Spared w owner writes) :
    ∀ o writes, (w.setReleasing owner pc).releasing o = .delete writes →
      Spared (w.setReleasing owner pc) o writes := by
  intro o writes ho
  by_cases he : o = owner
  · subst he
    simp only [ReleaseWorld.setReleasing, if_true] at ho
    exact hpc writes ho
  · simp only [ReleaseWorld.setReleasing, if_neg he] at ho
    exact h o writes ho

variable (location) in
theorem readDoc_call (d : Delivery) (st : DocStore) :
    (d.call (readDocVersioned location) st).2 = st ∧
      ∀ seen, (d.call (readDocVersioned location) st).1 = some (some seen) →
        st.doc = some seen.bytes := by
  cases d with
  | delivered =>
    refine ⟨rfl, fun seen hseen => ?_⟩
    simp only [Delivery.call, readDocVersioned, Option.some.injEq, Option.map_eq_some_iff] at hseen
    obtain ⟨bytes, hbytes, rfl⟩ := hseen
    exact hbytes
  | requestLost => exact ⟨rfl, fun seen hseen => by cases hseen⟩
  | replyLost => exact ⟨rfl, fun seen hseen => by cases hseen⟩
  | retried =>
    refine ⟨rfl, fun seen hseen => ?_⟩
    simp only [Delivery.call, readDocVersioned, Option.some.injEq, Option.map_eq_some_iff] at hseen
    obtain ⟨bytes, hbytes, rfl⟩ := hseen
    exact hbytes

theorem deleteDoc_call (d : Delivery) (st : DocStore) :
    (d.call deleteDoc st).2 = st ∨ (d.call deleteDoc st).2 = { st with doc := none } := by
  cases d with
  | delivered => exact .inr rfl
  | requestLost => exact .inl rfl
  | replyLost => exact .inr rfl
  | retried => exact .inr rfl

/-- The re-read arms the delete only over a document under the session's own name. -/
theorem spared_of_read {w : ReleaseWorld} {reply : Option (Option Seen)} {writes : Nat}
    (hreply : ∀ seen, reply = some (some seen) → w.world.store.doc = some seen.bytes)
    (h : afterReleaseRead owner w.writers.length reply = .delete writes) :
    Spared w owner writes := by
  cases reply with
  | none => cases h
  | some found =>
    cases found with
    | none => cases h
    | some seen =>
      have hbytes : w.world.store.doc = some seen.bytes := hreply seen rfl
      simp only [afterReleaseRead] at h
      cases hdec : decode seen.bytes with
      | error failure => simp [hdec] at h
      | ok doc =>
        by_cases ho : doc.owner = owner
        · simp only [hdec, ho, if_true, Release.delete.injEq] at h
          subst h
          refine ⟨Nat.le_refl _, fun _ found hfound => ?_⟩
          obtain ⟨henc, -⟩ := (decode_ok_iff seen.bytes doc).mp hdec
          rw [hbytes, henc] at hfound
          simp only [encode, Option.some.injEq, DocBytes.json.injEq] at hfound
          rw [← hfound, ho]
        · simp [hdec, ho] at h

/-- A document that is only ever removed leaves every pending delete as safe. -/
theorem Spared.shrink {w w' : ReleaseWorld} {writes : Nat} (h : Spared w owner writes)
    (hwriters : w'.writers = w.writers)
    (hdoc : w'.world.store.doc = w.world.store.doc ∨ w'.world.store.doc = none) :
    Spared w' owner writes := by
  obtain ⟨hlen, hnames⟩ := h
  refine ⟨by rw [hwriters]; exact hlen, fun hall doc hstored => ?_⟩
  cases hdoc with
  | inl hsame =>
    rw [hwriters] at hall
    exact hnames hall doc (hsame ▸ hstored)
  | inr hgone => exact absurd (hgone ▸ hstored) (by simp)

theorem inv_advance (d : Delivery) {w : ReleaseWorld} (h : ReleaseInv w)
    (hok : DeletesInTime w (.advance owner d)) : ReleaseInv (releaseAdvance location owner d w) := by
  cases hpc : w.releasing owner with
  | idle =>
    simp only [releaseAdvance, hpc]
    exact h
  | fence =>
    cases hphase : (w.world.session owner).phase with
    | holding lease =>
      simp only [releaseAdvance, hpc, hphase]
      constructor
      · apply h.beats.set
        intro b hb
        simp only [Session.fenced, List.mem_map] at hb
        obtain ⟨old, hold, rfl⟩ := hb
        split
        · exact trivial
        · exact h.beats owner old hold
      · apply pending_set
        · exact fun o writes ho => (h.pending o writes ho).shrink rfl (.inl rfl)
        · intro writes hw
          split at hw <;> cases hw
      · exact h.safe
    | idle =>
      simp only [releaseAdvance, hpc, hphase]
      exact ⟨h.beats, pending_set h.pending (fun writes hw => by cases hw), h.safe⟩
    | acquiring pc =>
      simp only [releaseAdvance, hpc, hphase]
      exact ⟨h.beats, pending_set h.pending (fun writes hw => by cases hw), h.safe⟩
  | read =>
    obtain ⟨hstore, hseen⟩ := readDoc_call location d w.world.store
    simp only [releaseAdvance, hpc, hstore]
    exact ⟨h.beats, pending_set h.pending (fun writes hw => spared_of_read hseen hw), h.safe⟩
  | delete writes =>
    have hspared : Spared w owner writes := h.pending owner writes hpc
    have hwriters : (Release.delete writes).InTime w.writers owner := hpc ▸ hok
    have hown : ∀ doc, w.world.store.doc = some (encode doc) → doc.owner = owner :=
      hspared.2 hwriters
    have hcall := deleteDoc_call d w.world.store
    simp only [releaseAdvance, hpc]
    constructor
    · exact h.beats
    · apply pending_set
      · intro o pending ho
        refine Spared.shrink (h.pending o pending ho) rfl ?_
        cases hcall with
        | inl hsame => exact .inl (by rw [hsame])
        | inr hgone => exact .inr (by rw [hgone])
      · exact fun pending hw => by cases hw
    · intro r hr doc hdoc
      simp only [ReleaseWorld.setReleasing, List.mem_append] at hr
      cases hr with
      | inl hold => exact h.safe r hold doc hdoc
      | inr hnew =>
        cases hstored : w.world.store.doc with
        | none => simp [taken, hstored] at hnew
        | some bytes =>
          have hr' : r = (owner, bytes) := by
            simp only [taken, hstored] at hnew
            split at hnew
            · rename_i found hfound _
              cases hfound
              simpa using hnew
            · simp at hnew
          subst hr'
          exact hown doc (hdoc ▸ hstored)

/-- One step keeps the invariant, provided no delete comes too late. -/
theorem releaseInv_step (w : ReleaseWorld) (a : ReleaseAct) (h : ReleaseInv w)
    (hok : DeletesInTime w a) : ReleaseInv (releaseStep location scope w a) := by
  cases a with
  | session a => exact inv_session a h
  | start owner =>
    simp only [releaseStep]
    split
    · exact ⟨h.beats, pending_set h.pending (fun writes hw => by cases hw), h.safe⟩
    · exact h
  | advance owner d => exact inv_advance d h hok
  | crash owner => exact ⟨h.beats, pending_set h.pending (fun writes hw => by cases hw), h.safe⟩

/-- Where no other session writes between a release's read and its delete, no
release ever takes away another owner's document. -/
theorem release_spares_other_owners (location : Location) (scope : Scope) (store : DocStore)
    (clock : Nat) (acts : List ReleaseAct)
    (h : Meets (releaseStep location scope) DeletesInTime (.initial store clock) acts) :
    OwnerSafe (run (releaseStep location scope) (.initial store clock) acts) := by
  have hinv : ReleaseInv (run (releaseStep location scope) (.initial store clock) acts) :=
    run_invariant releaseInv_step (releaseInv_initial store clock) h
  exact hinv.safe

/-- Two sessions over one stored document. -/
def releaseScope : Scope := ⟨"p", "lease.json", 1000⟩

/-- `a` holds the lease and its release has just read the document; `b` has met
that same document, by now too old to be alive. -/
def releaseMeetsTakeover : List ReleaseAct :=
  [.session (.openLoad "a"), .session (.acquire "a" .delivered),
   .session (.acquire "a" .delivered), .session (.acquire "a" .delivered),
   .session (.tick 301000),
   .session (.openLoad "b"), .session (.acquire "b" .delivered),
   .session (.acquire "b" .delivered), .session (.acquire "b" .delivered),
   .start "a", .advance "a" .delivered, .advance "a" .delivered]

def emptyDocStore : DocStore := ⟨none, 0, 0⟩

set_option maxRecDepth 100000 in
theorem release_spares_other_owners_run :
    Meets (releaseStep .s3 releaseScope) DeletesInTime (.initial emptyDocStore 0)
        (releaseMeetsTakeover ++ [.advance "a" .delivered]) ∧
      OwnerSafe (run (releaseStep .s3 releaseScope) (.initial emptyDocStore 0)
        (releaseMeetsTakeover ++ [.advance "a" .delivered])) := by
  have h : Meets (releaseStep .s3 releaseScope) DeletesInTime (.initial emptyDocStore 0)
      (releaseMeetsTakeover ++ [.advance "a" .delivered]) := by decide
  exact ⟨h, release_spares_other_owners .s3 releaseScope emptyDocStore 0 _ h⟩

set_option maxRecDepth 100000 in
/-- One takeover between the read and the delete, on either arm: `a` deletes the
document that names `b`. -/
theorem release_removes_the_new_owner :
    ¬ OwnerSafe (run (releaseStep .s3 releaseScope) (.initial emptyDocStore 0)
        (releaseMeetsTakeover ++
          [.session (.acquire "b" .delivered), .advance "a" .delivered])) ∧
      ¬ OwnerSafe (run (releaseStep .localDir releaseScope) (.initial emptyDocStore 0)
        (releaseMeetsTakeover ++
          [.session (.acquire "b" .delivered), .session (.acquire "b" .delivered),
           .session (.acquire "b" .delivered), .advance "a" .delivered])) := by
  constructor
  · intro h
    exact absurd (h ("a", encode (freshDoc "p" "b" 301000)) (by decide) _ rfl) (by decide)
  · intro h
    exact absurd (h ("a", encode (freshDoc "p" "b" 301000)) (by decide) _ rfl) (by decide)

end FileLease
