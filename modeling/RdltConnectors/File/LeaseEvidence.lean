import RdltConnectors.File.Lease

/-!
# What a session may believe about its lease

A session passes the write guard on the strength of a time stamp it remembers:
the last moment it is sure to have held the lease. The invariant says that every
stamp so remembered is either too old to pass, or the stored document names the
session with a stamp at least as late. A pending replace relies on what it read;
`Known` says how much of that still holds, for either arm.
-/
namespace FileLease

/-- A stamp on whose strength the session passes, or is about to pass, the guard. -/
inductive Evidence (s : Session) : Nat → Prop where
  | acquired {now : Nat} : s.phase = .acquiring (.acquired now) → Evidence s now
  | held {lease : Lease} : s.phase = .holding lease → Evidence s lease.lastOkMs
  | renewed {lease : Lease} {b : Beat} {now : Nat} : s.phase = .holding lease →
      b ∈ s.beats → b.lease = s.leases → b.pc = .storeOk now → Evidence s now

/-- The same stamps, listed. -/
def Session.believed (s : Session) : List Nat :=
  match s.phase with
  | .acquiring (.acquired now) => [now]
  | .holding lease =>
    lease.lastOkMs :: s.beats.filterMap fun b =>
      match b.pc with
      | .storeOk now => if b.lease = s.leases then some now else none
      | _ => none
  | _ => []

theorem mem_believed {s : Session} {stamp : Nat} (h : Evidence s stamp) :
    stamp ∈ s.believed := by
  cases h with
  | acquired hphase => simp [Session.believed, hphase]
  | held hphase => simp [Session.believed, hphase]
  | renewed hphase hb hlease hpc =>
    simp only [Session.believed, hphase, List.mem_cons, List.mem_filterMap]
    exact .inr ⟨_, hb, by simp [hpc, hlease]⟩

/-- Too old for `checkStillHeld`. -/
def Expired (clock stamp : Nat) : Prop := clock - stamp > selfExpirySecs * 1000

def OwnedBy (st : DocStore) (owner : String) : Prop :=
  ∃ doc : LeaseDoc, st.doc = some (encode doc) ∧ doc.owner = owner

/-- The stored document names `owner`, stamped `stamp` or later. -/
def Names (st : DocStore) (owner : String) (stamp : Nat) : Prop :=
  ∃ doc : LeaseDoc, st.doc = some (encode doc) ∧ doc.owner = owner ∧
    stamp ≤ doc.renewedAtMs

def Sound (clock : Nat) (st : DocStore) (session : String → Session) : Prop :=
  ∀ o stamp, Evidence (session o) stamp →
    stamp ≤ clock ∧ (Expired clock stamp ∨ Names st o stamp)

/-- A document naming `owner` as of `stamp` is what was written last. -/
def Wrote (st st' : DocStore) (owner : String) (stamp : Nat) : Prop :=
  ∃ doc : LeaseDoc, st' = st.write (encode doc) ∧ doc.owner = owner ∧ doc.renewedAtMs = stamp

theorem Wrote.names {st st' : DocStore} {o : String} {stamp : Nat} (h : Wrote st st' o stamp) :
    Names st' o stamp := by
  obtain ⟨doc, rfl, ho, hstamp⟩ := h
  exact ⟨doc, rfl, ho, Nat.le_of_eq hstamp.symm⟩

theorem Names.ownedBy {st : DocStore} {o : String} {stamp : Nat} (h : Names st o stamp) :
    OwnedBy st o := by
  obtain ⟨doc, hdoc, ho, -⟩ := h
  exact ⟨doc, hdoc, ho⟩

theorem OwnedBy.unique {st : DocStore} {o o' : String} (h : OwnedBy st o)
    (h' : OwnedBy st o') : o = o' := by
  obtain ⟨doc, hdoc, rfl⟩ := h
  obtain ⟨doc', hdoc', rfl⟩ := h'
  rw [hdoc] at hdoc'
  simp only [encode, Option.some.injEq, DocBytes.json.injEq] at hdoc'
  rw [hdoc']

theorem Expired.mono {clock clock' stamp : Nat} (h : Expired clock stamp)
    (hle : clock ≤ clock') : Expired clock' stamp := by
  unfold Expired at *
  omega

/-- Past the takeover age a stamp no longer passes the guard: the margin between
the two thresholds is what the order of a refusal and a takeover rests on. -/
theorem expired_of_ttl {clock now renewed stamp : Nat} (hnow : now ≤ clock)
    (hage : (now - renewed) / 1000 > ttlSecs) (hle : stamp ≤ renewed) :
    Expired clock stamp := by
  unfold Expired
  simp only [selfExpirySecs, ttlSecs, heartbeatSecs] at *
  omega

/-- The guard passes only on evidence that has not expired. -/
theorem evidence_of_stillHeld {scope : Scope} {w : World} {o : String}
    (h : StillHeld scope w o) :
    ∃ stamp, Evidence (w.session o) stamp ∧ ¬ Expired w.clock stamp := by
  obtain ⟨lease, hphase, hcheck⟩ := h
  refine ⟨lease.lastOkMs, .held hphase, ?_⟩
  intro hexp
  cases hl : lease.lost with
  | true => simp [Lease.checkStillHeld, hl] at hcheck
  | false => simp [Lease.checkStillHeld, hl, show w.clock - lease.lastOkMs > _ from hexp] at hcheck

/-- Sound evidence is all that mutual exclusion needs. -/
theorem atMostOneHolder_of_sound {scope : Scope} {w : World}
    (h : Sound w.clock w.store w.session) : AtMostOneHolder scope w := by
  intro o o' ho ho'
  obtain ⟨stamp, hev, hfresh⟩ := evidence_of_stillHeld ho
  obtain ⟨stamp', hev', hfresh'⟩ := evidence_of_stillHeld ho'
  have hn : Names w.store o stamp := (h o stamp hev).2.resolve_left hfresh
  have hn' : Names w.store o' stamp' := (h o' stamp' hev').2.resolve_left hfresh'
  exact hn.ownedBy.unique hn'.ownedBy

/-! ## How soundness survives a change of the document -/

variable {clock : Nat} {st st' : DocStore} {session : String → Session}

theorem Sound.tick (h : Sound clock st session) (ms : Nat) :
    Sound (clock + ms) st session := by
  intro o stamp hev
  obtain ⟨hle, hor⟩ := h o stamp hev
  refine ⟨by omega, ?_⟩
  rcases hor with hexp | hnames
  · exact .inl (hexp.mono (by omega))
  · exact .inr hnames

/-- The owner of the document may rewrite it under a stamp no older than what it
believes; everyone else's evidence has expired already. -/
theorem Sound.rewrite {o : String} {doc : LeaseDoc} (h : Sound clock st session)
    (howned : OwnedBy st o) (hdoc : st'.doc = some (encode doc)) (ho : doc.owner = o)
    (hmine : ∀ stamp, Evidence (session o) stamp → stamp ≤ doc.renewedAtMs) :
    Sound clock st' session := by
  intro o' stamp hev
  obtain ⟨hle, hor⟩ := h o' stamp hev
  refine ⟨hle, ?_⟩
  rcases hor with hexp | hnames
  · exact .inl hexp
  · obtain rfl : o = o' := howned.unique hnames.ownedBy
    exact .inr ⟨doc, hdoc, ho, hmine stamp hev⟩

/-- Where all evidence has expired, the document may become anything. -/
theorem Sound.overwrite (h : Sound clock st session)
    (hexp : ∀ o stamp, Evidence (session o) stamp → Names st o stamp → Expired clock stamp) :
    Sound clock st' session := by
  intro o stamp hev
  obtain ⟨hle, hor⟩ := h o stamp hev
  exact ⟨hle, .inl (hor.elim id (hexp o stamp hev))⟩

/-- A change of one session: each stamp it now believes was believed before, or
is vouched for by the document. -/
theorem Sound.change {o : String} {s : Session} (h : Sound clock st session)
    (hnew : ∀ stamp, Evidence s stamp →
      Evidence (session o) stamp ∨ stamp ≤ clock ∧ Names st o stamp) :
    Sound clock st (fun o' => if o' = o then s else session o') := by
  intro o' stamp hev
  by_cases ho : o' = o
  · subst ho
    simp only [if_true] at hev
    rcases hnew stamp hev with hold | ⟨hle, hnames⟩
    · exact h o' stamp hold
    · exact ⟨hle, .inr hnames⟩
  · simp only [ho, if_false] at hev
    exact h o' stamp hev

/-! ## What a read is still good for -/

/-- The arm's own sign that nothing came between: the version S3 compares, or
locally that no takeover has unlinked the document. -/
def Current (location : Location) (st : DocStore) (seen : Seen) : Prop :=
  match location with
  | .s3 => seen.version = .s3 st.etag
  | .localDir => seen.unlinks = st.unlinks

/-- A read handed out by this store, and what it still says while current: on S3
the bytes themselves, locally the owner they named. -/
def Known (location : Location) (st : DocStore) (seen : Seen) : Prop :=
  match location with
  | .s3 =>
    (∃ etag ≤ st.etag, seen.version = .s3 etag) ∧
      (Current .s3 st seen → st.doc = some seen.bytes)
  | .localDir =>
    seen.unlinks ≤ st.unlinks ∧
      (Current .localDir st seen → ∀ doc : LeaseDoc, seen.bytes = encode doc →
        OwnedBy st doc.owner)

/-- Every read stays as good as a change of the document lets it. -/
def Evolves (location : Location) (st st' : DocStore) : Prop :=
  ∀ seen, Known location st seen →
    Known location st' seen ∧ (Current location st' seen → Current location st seen)

theorem Evolves.refl (location : Location) (st : DocStore) : Evolves location st st :=
  fun _ h => ⟨h, id⟩

theorem Evolves.trans {location : Location} {a b c : DocStore}
    (hab : Evolves location a b) (hbc : Evolves location b c) : Evolves location a c := by
  intro seen h
  obtain ⟨hb, hba⟩ := hab seen h
  obtain ⟨hc, hcb⟩ := hbc seen hb
  exact ⟨hc, hba ∘ hcb⟩

theorem known_of_read {location : Location} {seen : Seen}
    (h : (readDocVersioned location st).1 = some seen) : Known location st seen := by
  simp only [readDocVersioned, Option.map_eq_some_iff] at h
  obtain ⟨bytes, hdoc, rfl⟩ := h
  cases location with
  | s3 => exact ⟨⟨st.etag, Nat.le_refl _, rfl⟩, fun _ => hdoc⟩
  | localDir => exact ⟨Nat.le_refl _, fun _ doc hd => ⟨doc, hdoc.trans (congrArg some hd), rfl⟩⟩

theorem Known.ownedBy {location : Location} {seen : Seen} {doc : LeaseDoc}
    (h : Known location st seen) (hcur : Current location st seen)
    (hbytes : seen.bytes = encode doc) : OwnedBy st doc.owner := by
  cases location with
  | s3 => exact ⟨doc, (h.2 hcur).trans (congrArg some hbytes), rfl⟩
  | localDir => exact h.2 hcur doc hbytes

/-- A write on S3 outdates every read. -/
theorem outdated_write_s3 {seen : Seen} (bytes : DocBytes) (h : Known .s3 st seen) :
    ¬ Current .s3 (st.write bytes) seen := by
  obtain ⟨⟨etag, hle, hv⟩, -⟩ := h
  intro hcur
  have he : DocVersion.s3 etag = .s3 (st.etag + 1) := hv.symm.trans hcur
  simp only [DocVersion.s3.injEq] at he
  omega

theorem evolves_write_s3 (bytes : DocBytes) : Evolves .s3 st (st.write bytes) := by
  intro seen h
  have hstale := outdated_write_s3 bytes h
  obtain ⟨⟨etag, hle, hv⟩, -⟩ := h
  exact ⟨⟨⟨etag, by simp only [write_etag]; omega, hv⟩, fun hcur => absurd hcur hstale⟩,
    fun hcur => absurd hcur hstale⟩

/-- A local write under the name the document already bears keeps every read. -/
theorem evolves_write_local {doc : LeaseDoc} (howned : OwnedBy st doc.owner) :
    Evolves .localDir st (st.write (encode doc)) := by
  rintro seen ⟨hle, hknown⟩
  refine ⟨⟨hle, fun hcur old hold => ?_⟩, id⟩
  have heq : old.owner = doc.owner := (hknown hcur old hold).unique howned
  exact ⟨doc, rfl, heq.symm⟩

theorem evolves_create (location : Location) (bytes : DocBytes) :
    Evolves location st (createDocExclusive location bytes st).2 := by
  unfold createDocExclusive
  cases hdoc : st.doc with
  | some old => exact Evolves.refl location st
  | none =>
    cases location with
    | s3 => exact evolves_write_s3 bytes
    | localDir =>
      rintro seen ⟨hle, hknown⟩
      refine ⟨⟨hle, fun hcur old hold => ?_⟩, id⟩
      obtain ⟨doc, hd, -⟩ := hknown hcur old hold
      simp [hdoc] at hd

/-- A local unlink outdates every read. -/
theorem evolves_unlink :
    Evolves .localDir st { st with doc := none, unlinks := st.unlinks + 1 } := by
  rintro seen ⟨hle, -⟩
  have hstale :
      ¬ Current .localDir { st with doc := none, unlinks := st.unlinks + 1 } seen := by
    intro hcur
    simp only [Current] at hcur
    omega
  exact ⟨⟨by simp only; omega, fun hcur => absurd hcur hstale⟩, fun hcur => absurd hcur hstale⟩

/-! ## One call, however it is delivered -/

/-- What every application of an operation keeps holds after the call, and the
reply, if there is one, is that of an application to such a store. -/
theorem call_spec {ρ : Type} (op : DocStore → ρ × DocStore) {P : DocStore → Prop}
    (hP : P st) (hop : ∀ st, P st → P (op st).2) (d : Delivery) :
    P (d.call op st).2 ∧
      ∀ r, (d.call op st).1 = some r → ∃ st₀, P st₀ ∧ op st₀ = (r, (d.call op st).2) := by
  cases d with
  | delivered =>
    exact ⟨hop _ hP, fun r hr => ⟨st, hP, by
      simp only [Delivery.call, Option.some.injEq] at hr ⊢
      rw [← hr]⟩⟩
  | requestLost => exact ⟨hP, fun r hr => by simp [Delivery.call] at hr⟩
  | replyLost => exact ⟨hop _ hP, fun r hr => by simp [Delivery.call] at hr⟩
  | retried =>
    exact ⟨hop _ (hop _ hP), fun r hr => ⟨(op st).2, hop _ hP, by
      simp only [Delivery.call, Option.some.injEq] at hr ⊢
      rw [← hr]⟩⟩

/-- What entitles a session to replace the document: on S3 that the version is
still the one it read only while its stamp is the latest it believes; locally
that the document is its own right now. -/
def MayReplace (location : Location) (st : DocStore) (s : Session) (owner : String)
    (stamp : Nat) (seen : Seen) : Prop :=
  match location with
  | .s3 => Known .s3 st seen ∧
      (Current .s3 st seen → OwnedBy st owner ∧ ∀ e, Evidence s e → e ≤ stamp)
  | .localDir => OwnedBy st owner ∧ ∀ e, Evidence s e → e ≤ stamp

/-- The spec of a replace under one's own name: soundness and every read survive
it, the right to repeat it remains, and a success is vouched for. -/
theorem replaceDocIf_spec {location : Location} {o : String} {doc : LeaseDoc} {seen : Seen}
    (h : Sound clock st session) (ho : doc.owner = o)
    (hmay : MayReplace location st (session o) o doc.renewedAtMs seen) :
    Sound clock (replaceDocIf location (encode doc) seen.version st).2 session ∧
    Evolves location st (replaceDocIf location (encode doc) seen.version st).2 ∧
    MayReplace location (replaceDocIf location (encode doc) seen.version st).2 (session o) o
      doc.renewedAtMs seen ∧
    ∀ v, (replaceDocIf location (encode doc) seen.version st).1 = .ok v →
      Wrote st (replaceDocIf location (encode doc) seen.version st).2 o doc.renewedAtMs := by
  cases location with
  | localDir =>
    obtain ⟨howned, hmine⟩ := hmay
    refine ⟨h.rewrite howned rfl ho hmine, ?_, ⟨⟨doc, rfl, ho⟩, hmine⟩, ?_⟩
    · exact evolves_write_local (ho ▸ howned)
    · exact fun _ _ => ⟨doc, rfl, ho, rfl⟩
  | s3 =>
    obtain ⟨hknown, hcur⟩ := hmay
    obtain ⟨⟨etag, hle, hv⟩, -⟩ := id hknown
    by_cases hmatch : st.doc.isSome ∧ etag = st.etag
    · have hop : replaceDocIf .s3 (encode doc) seen.version st
          = (.ok (.s3 (st.etag + 1)), st.write (encode doc)) := by
        simp [replaceDocIf, hv, hmatch]
      have hc : Current .s3 st seen := hv.trans (by rw [hmatch.2])
      rw [hop]
      obtain ⟨hk', hback⟩ := evolves_write_s3 (encode doc) seen hknown
      refine ⟨h.rewrite (hcur hc).1 rfl ho (hcur hc).2, evolves_write_s3 _, ⟨hk', ?_⟩, ?_⟩
      · exact fun _ => ⟨⟨doc, rfl, ho⟩, (hcur hc).2⟩
      · exact fun _ _ => ⟨doc, rfl, ho, rfl⟩
    · have hop : replaceDocIf .s3 (encode doc) seen.version st
          = (.error .staleDocVersion, st) := by
        simp [replaceDocIf, hv, hmatch]
      rw [hop]
      exact ⟨h, Evolves.refl _ _, ⟨hknown, hcur⟩, fun v hok => by simp at hok⟩

/-- The spec of an exclusive create: it takes nothing from anyone. -/
theorem createDocExclusive_spec (location : Location) (doc : LeaseDoc)
    (h : Sound clock st session) :
    Sound clock (createDocExclusive location (encode doc) st).2 session ∧
    ∀ v, (createDocExclusive location (encode doc) st).1 = .created v →
      Wrote st (createDocExclusive location (encode doc) st).2 doc.owner doc.renewedAtMs := by
  unfold createDocExclusive
  cases hdoc : st.doc with
  | some old => exact ⟨h, fun v hv => by simp at hv⟩
  | none =>
    refine ⟨h.overwrite ?_, fun _ _ => ⟨doc, rfl, rfl, rfl⟩⟩
    rintro o stamp - ⟨d, hd, -⟩
    simp [hdoc] at hd

/-- What a takeover was decided on: a holder past the takeover age, or debris. -/
def Abandoned (clock : Nat) (expected : Expected) (seen : Seen) : Prop :=
  match expected with
  | .stale holder => seen.bytes = encode holder ∧
      ∃ now ≤ clock, (now - holder.renewedAtMs) / 1000 > ttlSecs
  | .stillUndecodable => ∃ message, seen.bytes = .unparseable message

/-- A document that is still what the takeover was decided on vouches for
nothing that could pass the guard. -/
theorem expired_of_abandoned {expected : Expected} {seen : Seen} {bytes : DocBytes}
    (hab : Abandoned clock expected seen) (hdoc : st.doc = some bytes)
    (hsame : bytes = seen.bytes ∨ expected.unchanged bytes = true) {o : String} {stamp : Nat}
    (hnames : Names st o stamp) : Expired clock stamp := by
  obtain ⟨doc, hd, -, hle⟩ := hnames
  obtain rfl : bytes = encode doc := Option.some.inj (hdoc.symm.trans hd)
  cases expected with
  | stillUndecodable =>
    obtain ⟨message, hm⟩ := hab
    rcases hsame with hsame | hsame
    · rw [hm] at hsame
      cases hsame
    · by_cases hv : doc.formatVersion > leaseFormatVersion <;>
        simp [Expected.unchanged, decode, encode, hv] at hsame
  | stale holder =>
    obtain ⟨hbytes, now, hnow, hage⟩ := hab
    have hren : doc.renewedAtMs = holder.renewedAtMs := by
      rcases hsame with hsame | hsame
      · rw [hbytes] at hsame
        simp only [encode, DocBytes.json.injEq] at hsame
        rw [hsame]
      · by_cases hv : doc.formatVersion > leaseFormatVersion
        · simp [Expected.unchanged, decode, encode, hv] at hsame
        · simp only [Expected.unchanged, decode, encode, hv, if_false, Bool.and_eq_true,
            beq_iff_eq] at hsame
          exact hsame.2
    exact expired_of_ttl hnow hage (hren ▸ hle)

/-- The spec of a takeover: only abandoned evidence is lost by it. -/
theorem takeover_spec {location : Location} {expected : Expected} {seen : Seen}
    (fresh : LeaseDoc) (h : Sound clock st session) (hknown : Known location st seen)
    (hab : Abandoned clock expected seen) :
    Sound clock (takeover location expected seen.version fresh st).2 session ∧
    Evolves location st (takeover location expected seen.version fresh st).2 ∧
    ((takeover location expected seen.version fresh st).1 = .ok .won →
      Wrote st (takeover location expected seen.version fresh st).2 fresh.owner
        fresh.renewedAtMs) := by
  cases location with
  | localDir =>
    unfold takeover
    cases hdoc : st.doc with
    | none => exact ⟨h, Evolves.refl _ _, fun hw => by simp at hw⟩
    | some bytes =>
      by_cases hun : expected.unchanged bytes = true
      · simp only [hun, if_true]
        refine ⟨h.overwrite ?_, evolves_unlink, fun hw => by simp at hw⟩
        exact fun o stamp _ hn => expired_of_abandoned hab hdoc (.inr hun) hn
      · simp only [hun]
        exact ⟨h, Evolves.refl _ _, fun hw => by simp at hw⟩
  | s3 =>
    obtain ⟨⟨etag, hle, hv⟩, htold⟩ := id hknown
    by_cases hmatch : st.doc.isSome ∧ etag = st.etag
    · have hop : takeover .s3 expected seen.version fresh st
          = (.ok .won, st.write (encode fresh)) := by
        simp [takeover, replaceDocIf, hv, hmatch]
      have hdoc : st.doc = some seen.bytes := htold (hv.trans (by rw [hmatch.2]))
      rw [hop]
      refine ⟨h.overwrite ?_, evolves_write_s3 _, fun _ => ⟨fresh, rfl, rfl, rfl⟩⟩
      exact fun o stamp _ hn => expired_of_abandoned hab hdoc (.inl rfl) hn
    · have hop : takeover .s3 expected seen.version fresh st = (.ok .lostRace, st) := by
        simp [takeover, replaceDocIf, hv, hmatch]
      rw [hop]
      exact ⟨h, Evolves.refl _ _, fun hw => by simp at hw⟩

end FileLease
