import Mathlib
import RdltConnectors.Postgres.UrlPairs

/-!
# What the gate accepts

A string and a block are accepted exactly if they agree, on the mode and on every PEM input, and
what comes of them enforces at least what either of them demands.
-/
namespace PgConn

/-! ## One PEM input -/

/-- The value that stands for the platform's own roots. -/
def platform (parameter value : String) : Bool :=
  decide (parameter = "sslrootcert" ∧ value = "system")

/-- Both give it and it is the same, or one of them gives it. -/
def Merges (parameter : String) (connectionValue field merged : Option String) : Prop :=
  (∀ value ∈ connectionValue, ∀ existing ∈ field,
    existing = value ∧ platform parameter value = false) ∧
  field.or (connectionValue.filter fun value => !platform parameter value) = merged

theorem mergePemParameter_ok (describe : String → String) (parameter policyField : String)
    (connectionValue field merged : Option String) :
    mergePemParameter describe parameter policyField connectionValue field = .ok merged ↔
      Merges parameter connectionValue field merged := by
  cases connectionValue with
  | none =>
    rw [mergePemParameter, Merges, Option.filter_none, Option.or_none]
    constructor
    · intro h
      exact ⟨fun _ hvalue => absurd hvalue (Option.not_mem_none _), Except.ok.inj h⟩
    · rintro ⟨-, rfl⟩
      rfl
  | some value =>
    cases field with
    | none =>
      rw [mergePemParameter, Merges, Option.none_or]
      unfold platform
      by_cases hsystem : parameter = "sslrootcert" ∧ value = "system"
      · rw [if_pos hsystem, Option.filter_some, decide_eq_true hsystem]
        simp
      · rw [if_neg hsystem, Option.filter_some, decide_eq_false hsystem]
        simp
    | some existing =>
      rw [mergePemParameter, Merges, Option.some_or]
      unfold platform
      by_cases hsystem : parameter = "sslrootcert" ∧ value = "system"
      · simp [hsystem]
      · by_cases hsame : existing = value
        · subst hsame
          rw [if_neg (not_or.2 ⟨hsystem, not_not_intro rfl⟩)]
          have hours := decide_eq_false hsystem
          simpa using fun _ : some existing = merged => not_and.1 hsystem
        · simp [hsystem, hsame]

/-! ## String and block -/

/-- A string and a block that agree, and the policy that they come to. -/
structure Agreeing (e : Extracted) (driver : DriverConfig) (block : Option Policy) (tls : Policy) :
    Prop where
  /-- the block may keep or strengthen what the string says -/
  consistent : ∀ own ∈ block, contradicts driver.sslMode own.mode = false ∧
    ∀ mode ∈ e.verifyMode, mode.strength ≤ own.mode.strength
  mode : tls.mode = (block.map Policy.mode).getD (e.verifyMode.getD (modeOf driver.sslMode))
  rootCert : Merges "sslrootcert" e.rootCert (block.bind Policy.rootCert) tls.rootCert
  clientCert : Merges "sslcert" e.clientCert (block.bind Policy.clientCert) tls.clientCert
  clientKey : Merges "sslkey" e.clientKey (block.bind Policy.clientKey) tls.clientKey
  paired : tls.clientCert.isSome = tls.clientKey.isSome
  encrypted : tls.clientCert.isSome = true → tls.mode ≠ .disable

theorem resolve_ok (sslMode : SslMode) (block : Option Policy) (policy : Policy) :
    resolve sslMode block = .ok policy ↔
      (∀ own ∈ block, contradicts sslMode own.mode = false) ∧
        block.getD { mode := modeOf sslMode } = policy := by
  cases block with
  | none => simp [resolve]
  | some own =>
    rw [resolve]
    cases hcontradicts : contradicts sslMode own.mode with
    | true => simp [hcontradicts]
    | false => simp [hcontradicts]

theorem applyVerifyMode_ok (block : Option Policy) (verifyMode : Option Mode) (before policy : Policy) :
    applyVerifyMode block verifyMode before = .ok policy ↔
      (∀ own ∈ block, ∀ mode ∈ verifyMode, mode.strength ≤ own.mode.strength) ∧
        (if block = none then { before with mode := verifyMode.getD before.mode } else before) = policy := by
  cases verifyMode with
  | none => cases block <;> simp [applyVerifyMode]
  | some mode =>
    cases block with
    | none => simp [applyVerifyMode]
    | some own =>
      rw [applyVerifyMode]
      by_cases hle : mode.strength ≤ own.mode.strength
      · simp [hle]
      · simp [hle]

theorem validateCredentials_ok (policy : Policy) : validateCredentials policy = .ok () ↔
    policy.clientCert.isSome = policy.clientKey.isSome ∧
      (policy.clientCert.isSome = true → policy.mode ≠ .disable) := by
  unfold validateCredentials
  cases policy.clientCert with
  | none => cases policy.clientKey <;> simp
  | some cert =>
    cases policy.clientKey with
    | none => simp
    | some key =>
      by_cases hdisable : policy.mode = .disable
      · simp [hdisable]
      · simp [hdisable]

theorem runDriver_ok (gate : Gate) (e : Extracted) (driver : DriverConfig) :
    runDriver gate e = .ok driver ↔ gate.driver e.remainder = .ok driver := by
  unfold runDriver
  cases gate.driver e.remainder with
  | ok config =>
    dsimp only
    rw [Except.ok.injEq, Except.ok.injEq]
  | error text =>
    dsimp only
    split
    · exact ⟨fun h => (by cases h), fun h => (by cases h)⟩
    · exact ⟨fun h => (by cases h), fun h => (by cases h)⟩

/-- A string is accepted exactly if its escapes are well formed, the driver takes what is left of
it, and the string and the block agree. -/
theorem parse_ok_iff (gate : Gate) (text : List Char) (block : Option Policy) (parsed : Parsed) :
    parse gate text block = .ok parsed ↔
      (extractTlsParameters gate.lossy text).malformedEscape = none ∧ ∃ driver,
        gate.driver (extractTlsParameters gate.lossy text).remainder = .ok driver ∧
        Agreeing (extractTlsParameters gate.lossy text) driver block parsed.tls ∧
        parsed.driver = { driver with applicationName := driver.applicationName.or (some "rdlt") } := by
  unfold parse
  dsimp only
  generalize extractTlsParameters gate.lossy text = e
  cases hescape : e.malformedEscape with
  | some found =>
    constructor
    · intro h
      obtain ⟨_, hthrow, -⟩ := Fallible.bind_ok.1 h
      cases hthrow
    · rintro ⟨hnone, -⟩
      cases hnone
  | none =>
    constructor
    · intro h
      obtain ⟨driver, hdriver, h⟩ := Fallible.bind_ok.1 h
      obtain ⟨before, hbefore, h⟩ := Fallible.bind_ok.1 h
      obtain ⟨policy, hpolicy, h⟩ := Fallible.bind_ok.1 h
      obtain ⟨rootCert, hroot, h⟩ := Fallible.bind_ok.1 h
      obtain ⟨clientCert, hcert, h⟩ := Fallible.bind_ok.1 h
      obtain ⟨clientKey, hkey, h⟩ := Fallible.bind_ok.1 h
      obtain ⟨_, hvalid, h⟩ := Fallible.bind_ok.1 h
      obtain rfl := Except.ok.inj h
      obtain ⟨hcontradicts, rfl⟩ := (resolve_ok _ _ _).1 hbefore
      obtain ⟨hstronger, rfl⟩ := (applyVerifyMode_ok _ _ _ _).1 hpolicy
      obtain ⟨hpaired, hencrypted⟩ := (validateCredentials_ok _).1 hvalid
      have hroot := (mergePemParameter_ok _ _ _ _ _ _).1 hroot
      have hcert := (mergePemParameter_ok _ _ _ _ _ _).1 hcert
      have hkey := (mergePemParameter_ok _ _ _ _ _ _).1 hkey
      refine ⟨rfl, driver, (runDriver_ok _ _ _).1 hdriver, ?_, rfl⟩
      cases block with
      | none =>
        exact ⟨fun own hown => absurd hown (Option.not_mem_none own), rfl, hroot, hcert, hkey,
          hpaired, hencrypted⟩
      | some own =>
        exact ⟨fun own hown => ⟨hcontradicts own hown, hstronger own hown⟩, rfl, hroot, hcert, hkey,
          hpaired, hencrypted⟩
    · rintro ⟨-, driver, hdriver, hagree, hparsed⟩
      have hbefore := (resolve_ok driver.sslMode block _).2
        ⟨fun own hown => (hagree.consistent own hown).1, rfl⟩
      have hpolicy := (applyVerifyMode_ok block e.verifyMode (block.getD { mode := modeOf driver.sslMode }) _).2
        ⟨fun own hown => (hagree.consistent own hown).2, rfl⟩
      refine Fallible.bind_ok.2 ⟨driver, (runDriver_ok _ _ _).2 hdriver, Fallible.bind_ok.2
        ⟨_, hbefore, Fallible.bind_ok.2 ⟨_, hpolicy, ?_⟩⟩⟩
      obtain ⟨config, ⟨mode, rootCert, clientCert, clientKey⟩⟩ := parsed
      dsimp only at hparsed
      subst hparsed
      have hmode := hagree.mode
      dsimp only at hmode
      subst hmode
      have hvalid := (validateCredentials_ok ⟨_, rootCert, clientCert, clientKey⟩).2
        ⟨hagree.paired, hagree.encrypted⟩
      have hroot := (mergePemParameter_ok gate.describe _ "root_cert" _ _ _).2 hagree.rootCert
      have hcert := (mergePemParameter_ok gate.describe _ "client_cert" _ _ _).2 hagree.clientCert
      have hkey := (mergePemParameter_ok gate.describe _ "client_key" _ _ _).2 hagree.clientKey
      cases block with
      | none =>
        exact Fallible.bind_ok.2 ⟨_, hroot, Fallible.bind_ok.2 ⟨_, hcert, Fallible.bind_ok.2
          ⟨_, hkey, Fallible.bind_ok.2 ⟨_, hvalid, rfl⟩⟩⟩⟩
      | some own =>
        exact Fallible.bind_ok.2 ⟨_, hroot, Fallible.bind_ok.2 ⟨_, hcert, Fallible.bind_ok.2
          ⟨_, hkey, Fallible.bind_ok.2 ⟨_, hvalid, rfl⟩⟩⟩⟩

/-! ## What is demanded is enforced -/

/-- Neither side's value is dropped or replaced, and there is no other. -/
structure Keeps (parameter : String) (connectionValue field merged : Option String) : Prop where
  ofString : ∀ value ∈ connectionValue, platform parameter value = false → merged = some value
  ofBlock : ∀ existing ∈ field, merged = some existing
  ofEither : ∀ value ∈ merged, value ∈ connectionValue ∨ value ∈ field
  /-- the platform's own roots, which is no certificate of its own and none of the block's -/
  ofSystem : ∀ value ∈ connectionValue, platform parameter value = true →
    merged = none ∧ field = none

theorem Merges.keeps {parameter : String} {connectionValue field merged : Option String}
    (h : Merges parameter connectionValue field merged) :
    Keeps parameter connectionValue field merged := by
  obtain ⟨hagree, rfl⟩ := h
  constructor
  · rintro value rfl hours
    cases field with
    | none => rw [Option.none_or, Option.filter_some, hours, Bool.not_false, if_pos rfl]
    | some existing =>
      obtain ⟨rfl, -⟩ := hagree value rfl existing rfl
      rfl
  · rintro existing rfl
    rfl
  · intro value hvalue
    cases field with
    | none =>
      rw [Option.none_or] at hvalue
      exact .inl (Option.mem_filter_iff.1 hvalue).1
    | some existing => exact .inr hvalue
  · rintro value rfl hsystem
    cases field with
    | none => exact ⟨by rw [Option.none_or, Option.filter_some, hsystem]; rfl, rfl⟩
    | some existing =>
      have hours := (hagree value rfl existing rfl).2
      rw [hsystem] at hours
      cases hours

/-- What either side demands of the connection is what it gets. -/
structure Demanded (e : Extracted) (driver : DriverConfig) (block : Option Policy) (parsed : Parsed) :
    Prop where
  verifying : ∀ mode ∈ e.verifyMode, mode.strength ≤ parsed.enforced.strength
  encrypting : driver.sslMode = .require → Mode.require.strength ≤ parsed.enforced.strength
  ofBlock : ∀ own ∈ block, Mode.require.strength ≤ own.mode.strength →
    own.mode.strength ≤ parsed.enforced.strength
  /-- plaintext only where one of them says so -/
  plaintext : parsed.enforced = .disable →
    driver.sslMode = .disable ∨ ∃ own ∈ block, own.mode = .disable
  rootCert : Keeps "sslrootcert" e.rootCert (block.bind Policy.rootCert) parsed.tls.rootCert
  clientCert : Keeps "sslcert" e.clientCert (block.bind Policy.clientCert) parsed.tls.clientCert
  clientKey : Keeps "sslkey" e.clientKey (block.bind Policy.clientKey) parsed.tls.clientKey
  credentials : parsed.tls.clientCert.isSome = parsed.tls.clientKey.isSome
  /-- a certificate may go with a mode that falls back, but not with plaintext by the policy -/
  presented : parsed.tls.clientCert.isSome = true → parsed.tls.mode ≠ .disable

/-- The mode that was captured verifies. -/
def Verifies (e : Extracted) : Prop := ∀ mode ∈ e.verifyMode, Mode.verifyCa.strength ≤ mode.strength

theorem verifyModeOf_strength {value : String} {mode : Mode} (h : verifyModeOf value = some mode) :
    Mode.verifyCa.strength ≤ mode.strength := by
  unfold verifyModeOf at h
  split at h
  · obtain rfl := Option.some.inj h
    decide
  · split at h
    · obtain rfl := Option.some.inj h
      decide
    · cases h

theorem Verifies.capture {e e' : Extracted} {key value : String} (h : Verifies e)
    (hcapture : e.capture key value = some e') : Verifies e' := by
  obtain ⟨-, e'', he, -, -, -, hmode, -⟩ | ⟨-, hnone, -⟩ := capture_cases e key value
  · rw [he] at hcapture
    obtain rfl := Option.some.inj hcapture
    intro mode hmem
    rw [hmode] at hmem
    split at hmem
    · obtain hfound | ⟨-, hbefore⟩ := Option.or_eq_some_iff.1 hmem
      · exact verifyModeOf_strength hfound
      · exact h mode hbefore
    · exact h mode hmem
  · rw [hnone] at hcapture
    cases hcapture

theorem verifies_takePair (lossy : List UInt8 → String) {e : Extracted × List (List Char)}
    (h : Verifies e.1) (pair : List Char) : Verifies (takePair lossy e pair).1 := by
  unfold takePair
  dsimp only
  cases percentDecode ((Separator.splitOnce '=' pair).getD (pair, [])).2 with
  | some decoded =>
    dsimp only
    split
    · next captured hcapture => exact h.capture hcapture
    · exact h
  | none =>
    have hmarked (found : Option (String × String)) :
        Verifies { e.1 with malformedEscape := found } := h
    dsimp only
    split
    · next captured hcapture => exact (hmarked _).capture hcapture
    · exact h

theorem verifies_takeToken {e : Extracted × List (List Char)} (h : Verifies e.1) (token : Token) :
    Verifies (takeToken e token).1 := by
  unfold takeToken
  split
  · exact h
  · split
    · next captured hcapture => exact h.capture hcapture
    · exact h

/-- Whatever the text. -/
theorem verifies_extracted (lossy : List UInt8 → String) (text : List Char) :
    Verifies (extractTlsParameters lossy text) := by
  have hnil : Verifies ({} : Extracted) := fun mode hmode => absurd hmode (Option.not_mem_none mode)
  unfold extractTlsParameters
  split
  · exact @List.foldlRecOn _ _ (fun e => Verifies e.1) _ (takePair lossy) ({}, []) hnil
      fun _ he pair _ => verifies_takePair lossy he pair
  · exact @List.foldlRecOn _ _ (fun e => Verifies e.1) _ takeToken ({}, []) hnil
      fun _ he token _ => verifies_takeToken he token

/-- The policy's mode is at least every mode that is demanded, and it is enforced where it
encrypts. -/
theorem Agreeing.mode_strength {e : Extracted} {driver : DriverConfig} {block : Option Policy}
    {tls : Policy} (h : Agreeing e driver block tls) :
    (∀ mode ∈ e.verifyMode, mode.strength ≤ tls.mode.strength) ∧
      (driver.sslMode = .require → e.verifyMode = none → tls.mode ≠ .disable) ∧
      (∀ own ∈ block, tls.mode = own.mode) := by
  cases block with
  | none =>
    have hmode : tls.mode = e.verifyMode.getD (modeOf driver.sslMode) := h.mode
    refine ⟨fun mode hfound => ?_, fun hrequire hnone => ?_, fun own hown => ?_⟩
    · rw [hmode, Option.mem_def.1 hfound]
      exact Nat.le_refl _
    · rw [hmode, hnone, hrequire]
      exact Mode.noConfusion
    · cases hown
  | some own =>
    have hmode : tls.mode = own.mode := h.mode
    obtain ⟨hcontradicts, hstronger⟩ := h.consistent own rfl
    refine ⟨fun mode hfound => ?_, fun hrequire _ hdisable => ?_, fun other hother => ?_⟩
    · rw [hmode]
      exact hstronger mode hfound
    · rw [hrequire, ← hmode, hdisable] at hcontradicts
      exact absurd hcontradicts (by decide)
    · rw [← Option.some.inj hother]
      exact hmode

theorem enforced_plaintext {parsed : Parsed} (h : parsed.enforced = .disable) :
    parsed.tls.mode = .disable ∨ (parsed.tls.mode = .prefer ∧ parsed.driver.sslMode = .disable) := by
  have hweak : ¬2 ≤ parsed.tls.mode.strength := by
    intro hle
    have hone := Nat.le_trans hle ((enforced_strength parsed).1 hle)
    rw [h] at hone
    exact absurd hone (by decide)
  obtain ⟨config, tls⟩ := parsed
  unfold Parsed.enforced Parsed.connectSslMode at h
  dsimp only at h hweak ⊢
  cases hmode : tls.mode with
  | disable => exact .inl rfl
  | prefer =>
    rw [hmode] at h
    refine .inr ⟨rfl, ?_⟩
    cases hssl : config.sslMode with
    | disable => rfl
    | prefer =>
      rw [hssl] at h
      exact absurd h (by decide)
    | require =>
      rw [hssl] at h
      exact absurd h (by decide)
  | require =>
    rw [hmode] at hweak
    exact absurd (by decide) hweak
  | verifyCa =>
    rw [hmode] at hweak
    exact absurd (by decide) hweak
  | verifyFull =>
    rw [hmode] at hweak
    exact absurd (by decide) hweak

theorem Agreeing.plaintext {e : Extracted} {driver : DriverConfig} {block : Option Policy}
    {tls : Policy} (h : Agreeing e driver block tls) (hverifies : Verifies e)
    (hplain : tls.mode = .disable ∨ (tls.mode = .prefer ∧ driver.sslMode = .disable)) :
    driver.sslMode = .disable ∨ ∃ own ∈ block, own.mode = .disable := by
  obtain hplain | ⟨-, hplain⟩ := hplain
  · cases block with
    | none =>
      have hmode : tls.mode = e.verifyMode.getD (modeOf driver.sslMode) := h.mode
      cases hfound : e.verifyMode with
      | some mode =>
        rw [hplain, hfound] at hmode
        have hle := hverifies mode hfound
        rw [← show Mode.disable = mode from hmode] at hle
        exact absurd hle (by decide)
      | none =>
        rw [hplain, hfound] at hmode
        left
        cases hssl : driver.sslMode with
        | disable => rfl
        | prefer =>
          rw [hssl] at hmode
          cases hmode
        | require =>
          rw [hssl] at hmode
          cases hmode
    | some own =>
      have hmode : tls.mode = own.mode := h.mode
      exact .inr ⟨own, rfl, hmode.symm.trans hplain⟩
  · exact .inl hplain

/-- Whatever the string and the block: if they are accepted, what either of them demands is what
the connection gets. -/
theorem parse_never_weakens {gate : Gate} {text : List Char} {block : Option Policy}
    {parsed : Parsed} (h : parse gate text block = .ok parsed) : ∃ driver,
      gate.driver (extractTlsParameters gate.lossy text).remainder = .ok driver ∧
      Demanded (extractTlsParameters gate.lossy text) driver block parsed := by
  obtain ⟨-, driver, hdriver, hagree, hconfig⟩ := (parse_ok_iff gate text block parsed).1 h
  have hverifies := verifies_extracted gate.lossy text
  obtain ⟨hverify, hrequire, hblock⟩ := hagree.mode_strength
  obtain ⟨hown, hwith⟩ := enforced_strength parsed
  have hsslMode : parsed.driver.sslMode = driver.sslMode := by rw [hconfig]
  have hencrypts : ∀ mode ∈ (extractTlsParameters gate.lossy text).verifyMode,
      mode.strength ≤ parsed.enforced.strength := by
    intro mode hmode
    have hle := hverify mode hmode
    have htwo : 2 ≤ parsed.tls.mode.strength :=
      Nat.le_trans (Nat.le_trans (Nat.le_succ 2) (hverifies mode hmode)) hle
    exact Nat.le_trans hle (hown htwo)
  refine ⟨driver, hdriver, hencrypts, ?_, ?_, ?_, hagree.rootCert.keeps, hagree.clientCert.keeps,
    hagree.clientKey.keeps, hagree.paired, hagree.encrypted⟩
  · intro hssl
    cases hfound : (extractTlsParameters gate.lossy text).verifyMode with
    | none => exact hwith (hrequire hssl hfound) (hsslMode.trans hssl)
    | some mode =>
      have hthree := Nat.le_trans (hverifies mode hfound) (hencrypts mode hfound)
      exact Nat.le_trans (Nat.le_succ 2) hthree
  · intro own hmem hle
    have hmode := hblock own hmem
    rw [← hmode] at hle ⊢
    exact hown hle
  · intro hplain
    have hplain := enforced_plaintext hplain
    rw [hsslMode] at hplain
    exact hagree.plaintext hverifies hplain

/-- A driver that takes every string, and has no mode of its own. -/
def plainGate : Gate where
  driver _ := .ok ⟨.prefer, none⟩
  lossy _ := "\uFFFD"
  describe value := value

def strongerBlock : Policy := { mode := .verifyFull }

/-- The root certificate is the string's, and the mode is the block's. -/
def strongerParsed : Parsed :=
  ⟨⟨.prefer, some "rdlt"⟩, { mode := .verifyFull, rootCert := some "ca.pem" }⟩

/-- The platform's roots, and the mode of the string. -/
def systemParsed : Parsed := ⟨⟨.prefer, some "rdlt"⟩, { mode := .verifyFull }⟩

theorem parse_never_weakens_stronger :
    let text := "postgresql://h/db?sslmode=verify-ca&sslrootcert=ca.pem".toList
    let system := "sslmode=verify-full sslrootcert=system".toList
    (parse plainGate text (some strongerBlock) = .ok strongerParsed ∧ ∃ driver,
      plainGate.driver (extractTlsParameters plainGate.lossy text).remainder = .ok driver ∧
      Demanded (extractTlsParameters plainGate.lossy text) driver (some strongerBlock)
        strongerParsed) ∧
    (parse plainGate system none = .ok systemParsed ∧ ∃ driver,
      plainGate.driver (extractTlsParameters plainGate.lossy system).remainder = .ok driver ∧
      Demanded (extractTlsParameters plainGate.lossy system) driver none systemParsed) := by
  have h : parse plainGate "postgresql://h/db?sslmode=verify-ca&sslrootcert=ca.pem".toList
      (some strongerBlock) = .ok strongerParsed := by decide +kernel
  have hsystem : parse plainGate "sslmode=verify-full sslrootcert=system".toList none =
      .ok systemParsed := by
    decide +kernel
  exact ⟨⟨h, parse_never_weakens h⟩, hsystem, parse_never_weakens hsystem⟩

end PgConn
