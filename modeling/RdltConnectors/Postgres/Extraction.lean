import RdltConnectors.Postgres.Conninfo

/-!
# What is taken out of a connection string

The parameters that are taken out, told from the pairs that were read: of several values to a
keyword the last one counts. Where the pairs are read as the grammar reads them, what is taken
out is what the grammar assigns.
-/
namespace PgConn

/-! ## The last value of a keyword -/

section Last

variable {K V : Type} [DecidableEq K]

def lastOf (key : K) (found : Option V) (pairs : List (K × V)) : Option V :=
  pairs.foldl (fun found pair => if pair.1 = key then some pair.2 else found) found

@[simp] theorem lastOf_nil (key : K) (found : Option V) : lastOf key found [] = found := rfl

@[simp] theorem lastOf_cons (key : K) (found : Option V) (pair : K × V) (rest : List (K × V)) :
    lastOf key found (pair :: rest) =
      lastOf key (if pair.1 = key then some pair.2 else found) rest := rfl

theorem lastOf_found {key : K} {pairs : List (K × V)} (found : Option V) :
    lastOf key found pairs = (lastOf key none pairs).or found := by
  induction pairs generalizing found with
  | nil => rfl
  | cons pair rest ih =>
    rw [lastOf_cons, lastOf_cons, ih, ih (if pair.1 = key then some pair.2 else none)]
    by_cases hkey : pair.1 = key
    · rw [if_pos hkey, if_pos hkey]
      cases lastOf key none rest <;> rfl
    · rw [if_neg hkey, if_neg hkey]
      cases lastOf key none rest <;> rfl

/-- The last value is one that is given. -/
theorem mem_of_lastOf {key : K} {pairs : List (K × V)} {value : V}
    (h : lastOf key none pairs = some value) : (key, value) ∈ pairs := by
  induction pairs with
  | nil => cases h
  | cons pair rest ih =>
    rw [lastOf_cons, lastOf_found] at h
    cases hrest : lastOf key none rest with
    | some other =>
      rw [hrest] at h
      obtain rfl := Option.some.inj h
      exact List.mem_cons_of_mem _ (ih hrest)
    | none =>
      rw [hrest, Option.none_or] at h
      split at h
      · next hkey =>
        obtain rfl := Option.some.inj h
        rw [← hkey]
        exact List.mem_cons_self
      · cases h

end Last

/-! ## What is captured -/

def verifyModeOf (value : String) : Option Mode :=
  if value = "verify-ca" then some .verifyCa
  else if value = "verify-full" then some .verifyFull
  else none

/-- The keywords of PEM inputs. -/
def pemKeys : List String := ["sslrootcert", "sslcert", "sslkey"]

/-- A pair that is ours. -/
def isCaptured (pair : String × String) : Bool :=
  decide (pair.1 ∈ pemKeys) || (decide (pair.1 = "sslmode") && (verifyModeOf pair.2).isSome)

/-- The verifying mode that was captured last. -/
def lastVerify (found : Option Mode) (pairs : List (String × String)) : Option Mode :=
  pairs.foldl (fun found pair =>
    if pair.1 = "sslmode" then (verifyModeOf pair.2).or found else found) found

/-- What is captured is captured under its keyword, and nothing else is. -/
theorem capture_cases (e : Extracted) (key value : String) :
    (isCaptured (key, value) = true ∧ ∃ e', e.capture key value = some e' ∧
      e'.rootCert = (if key = "sslrootcert" then some value else e.rootCert) ∧
      e'.clientCert = (if key = "sslcert" then some value else e.clientCert) ∧
      e'.clientKey = (if key = "sslkey" then some value else e.clientKey) ∧
      e'.verifyMode = (if key = "sslmode" then (verifyModeOf value).or e.verifyMode else e.verifyMode) ∧
      e'.malformedEscape = e.malformedEscape) ∨
    (isCaptured (key, value) = false ∧ e.capture key value = none ∧ key ∉ pemKeys ∧
      (key = "sslmode" → verifyModeOf value = none)) := by
  unfold Extracted.capture
  split
  · exact .inl ⟨rfl, _, rfl, rfl, rfl, rfl, rfl, rfl⟩
  · exact .inl ⟨rfl, _, rfl, rfl, rfl, rfl, rfl, rfl⟩
  · exact .inl ⟨rfl, _, rfl, rfl, rfl, rfl, rfl, rfl⟩
  · unfold isCaptured verifyModeOf
    by_cases hca : value = "verify-ca"
    · subst hca
      exact .inl ⟨rfl, _, rfl, rfl, rfl, rfl, rfl, rfl⟩
    · by_cases hfull : value = "verify-full"
      · subst hfull
        exact .inl ⟨rfl, _, rfl, rfl, rfl, rfl, rfl, rfl⟩
      · rw [if_neg hca, if_neg hfull]
        refine .inr ⟨?_, ?_, by decide, fun _ => rfl⟩
        · simp [pemKeys]
        · rw [if_neg hca, if_neg hfull]
  · next hroot hcert hkey hmode =>
    have hpem : key ∉ pemKeys := by
      intro hmem
      obtain heq | heq | heq : key = "sslrootcert" ∨ key = "sslcert" ∨ key = "sslkey" := by
        simpa [pemKeys] using hmem
      · exact hroot heq
      · exact hcert heq
      · exact hkey heq
    refine .inr ⟨?_, rfl, hpem, fun heq => absurd heq hmode⟩
    have hmode : ¬key = "sslmode" := hmode
    rw [isCaptured, decide_eq_false hpem, decide_eq_false hmode]
    rfl

/-- What an extraction took out, of the pairs it read. -/
structure Caught (e : Extracted) (pairs : List (String × String)) : Prop where
  rootCert : e.rootCert = lastOf "sslrootcert" none pairs
  clientCert : e.clientCert = lastOf "sslcert" none pairs
  clientKey : e.clientKey = lastOf "sslkey" none pairs
  verifyMode : e.verifyMode = lastVerify none pairs

theorem caught_nil : Caught {} [] := ⟨rfl, rfl, rfl, rfl⟩

theorem lastOf_snoc {K V : Type} [DecidableEq K] (key : K) (found : Option V) (pairs : List (K × V))
    (pair : K × V) : lastOf key found (pairs ++ [pair]) =
      if pair.1 = key then some pair.2 else lastOf key found pairs := by
  unfold lastOf
  rw [List.foldl_concat]

theorem lastVerify_snoc (found : Option Mode) (pairs : List (String × String))
    (pair : String × String) : lastVerify found (pairs ++ [pair]) =
      if pair.1 = "sslmode" then (verifyModeOf pair.2).or (lastVerify found pairs)
      else lastVerify found pairs := by
  unfold lastVerify
  rw [List.foldl_concat]

/-- One more pair that is captured. -/
theorem Caught.capture {e e' : Extracted} {pairs : List (String × String)} {key value : String}
    (h : Caught e pairs) (hcapture : e.capture key value = some e') :
    Caught e' (pairs ++ [(key, value)]) := by
  obtain ⟨-, e'', he, hroot, hcert, hkey, hmode, -⟩ | ⟨-, hnone, -⟩ := capture_cases e key value
  · rw [he] at hcapture
    obtain rfl := Option.some.inj hcapture
    constructor
    · rw [lastOf_snoc, hroot, h.rootCert]
    · rw [lastOf_snoc, hcert, h.clientCert]
    · rw [lastOf_snoc, hkey, h.clientKey]
    · rw [lastVerify_snoc, hmode, h.verifyMode]
  · rw [hnone] at hcapture
    cases hcapture

/-- One more pair that is not. -/
theorem Caught.keep {e e' : Extracted} {pairs : List (String × String)} {key value : String}
    (h : Caught e pairs) (hcapture : e.capture key value = none)
    (hsame : e'.rootCert = e.rootCert ∧ e'.clientCert = e.clientCert ∧ e'.clientKey = e.clientKey ∧
      e'.verifyMode = e.verifyMode) : Caught e' (pairs ++ [(key, value)]) := by
  obtain ⟨-, e'', he, -⟩ | ⟨-, -, hpem, hmode⟩ := capture_cases e key value
  · rw [hcapture] at he
    cases he
  · simp only [pemKeys, List.mem_cons, List.not_mem_nil, or_false, not_or] at hpem
    obtain ⟨hroot, hcert, hkey⟩ := hpem
    constructor
    · rw [lastOf_snoc, if_neg hroot, hsame.1, h.rootCert]
    · rw [lastOf_snoc, if_neg hcert, hsame.2.1, h.clientCert]
    · rw [lastOf_snoc, if_neg hkey, hsame.2.2.1, h.clientKey]
    · rw [lastVerify_snoc, hsame.2.2.2, h.verifyMode]
      split
      · next heq => rw [hmode heq, Option.none_or]
      · rfl

/-! ## What the grammar assigns -/

def bytes (text : String) : List UInt8 := utf8 text.toList

theorem bytes_inj {s t : String} (h : bytes s = bytes t) : s = t := by
  have htext (r : String) : r.toUTF8 = (bytes r).toByteArray := by
    rw [bytes, utf8, String.toUTF8_eq_toByteArray, ← String.utf8Encode_toList]
    rfl
  have hutf8 : s.toUTF8 = t.toUTF8 := by rw [htext, htext, h]
  exact String.toByteArray_inj.1 hutf8

def verifyModeOfBytes (value : List UInt8) : Option Mode :=
  if value = bytes "verify-ca" then some .verifyCa
  else if value = bytes "verify-full" then some .verifyFull
  else none

/-- A TLS parameter that the driver does not take. -/
def isTls (param : Param) : Bool :=
  decide (param.1 ∈ pemKeys.map bytes) ||
    (decide (param.1 = bytes "sslmode") && (verifyModeOfBytes param.2).isSome)

/-- The verifying mode that the string sets, by its last `sslmode`. -/
def expectedVerify (params : List Param) : Option Mode :=
  (lastOf (bytes "sslmode") none params).bind verifyModeOfBytes

/-- The mode that the string demands. -/
def explicitMode (params : List Param) : Option Mode :=
  (lastOf (bytes "sslmode") none params).bind fun value =>
    if value = bytes "require" then some .require else verifyModeOfBytes value

/-- A verifying `sslmode` has no other mode behind it. -/
def VerifyLast (params : List Param) : Prop :=
  (∃ param ∈ params, param.1 = bytes "sslmode" ∧ (verifyModeOfBytes param.2).isSome = true) →
    (expectedVerify params).isSome = true

theorem verifyModeOf_bytes (value : String) : verifyModeOfBytes (bytes value) = verifyModeOf value := by
  have hiff (name : String) : bytes value = bytes name ↔ value = name :=
    ⟨bytes_inj, fun h => h ▸ rfl⟩
  simp only [verifyModeOfBytes, verifyModeOf, hiff]

/-- A pair was read as the grammar reads it, as far as it is one of the TLS parameters. -/
structure Reads (pair : String × String) (param : Param) : Prop where
  ours : isTls param = true → (bytes pair.1, bytes pair.2) = param
  captured : isCaptured pair = true → (bytes pair.1, bytes pair.2) = param

theorem isTls_bytes (pair : String × String) : isTls (bytes pair.1, bytes pair.2) = isCaptured pair := by
  have hiff (name : String) : bytes pair.1 = bytes name ↔ pair.1 = name :=
    ⟨bytes_inj, fun h => h ▸ rfl⟩
  simp only [isTls, isCaptured, verifyModeOf_bytes, pemKeys, List.map_cons, List.map_nil,
    List.mem_cons, List.not_mem_nil, or_false, hiff]

theorem Reads.isTls_eq {pair : String × String} {param : Param} (h : Reads pair param) :
    isTls param = isCaptured pair := by
  rw [Bool.eq_iff_iff]
  constructor
  · intro htls
    rw [← isTls_bytes, h.ours htls]
    exact htls
  · intro hcaptured
    rw [← h.captured hcaptured, isTls_bytes]
    exact hcaptured

variable {pairs : List (String × String)} {params : List Param}

/-- The last value of a PEM keyword is the one that the grammar assigns. -/
theorem lastOf_reads (h : List.Forall₂ Reads pairs params) {key : String} (hkey : key ∈ pemKeys)
    (found : Option String) : (lastOf key found pairs).map bytes =
      lastOf (bytes key) (found.map bytes) params := by
  induction h generalizing found with
  | nil => rfl
  | @cons pair param pairs params hread _ ih =>
    rw [lastOf_cons, lastOf_cons, ih]
    congr 1
    by_cases hpair : pair.1 = key
    · have hcaptured : isCaptured pair = true := by simp [isCaptured, hpair, hkey]
      have hparam := hread.captured hcaptured
      rw [if_pos hpair, ← hparam, if_pos (by rw [hpair])]
      rfl
    · rw [if_neg hpair, if_neg]
      intro heq
      have htls : isTls param = true := by
        simp [isTls, heq, List.mem_map_of_mem (f := bytes) hkey]
      have hparam := hread.ours htls
      rw [← hparam] at heq
      exact hpair (bytes_inj heq)

/-- The verifying mode that was captured, told from what the grammar assigns. -/
theorem lastVerify_reads (h : List.Forall₂ Reads pairs params) (found : Option Mode) :
    lastVerify found pairs = params.foldl (fun found param =>
      if param.1 = bytes "sslmode" then (verifyModeOfBytes param.2).or found else found) found := by
  induction h generalizing found with
  | nil => rfl
  | @cons pair param pairs params hread _ ih =>
    unfold lastVerify at ih ⊢
    rw [List.foldl_cons, List.foldl_cons, ih]
    congr 1
    by_cases hcaptured : isCaptured pair = true
    · rw [← hread.captured hcaptured]
      have hiff : bytes pair.1 = bytes "sslmode" ↔ pair.1 = "sslmode" :=
        ⟨bytes_inj, fun h => h ▸ rfl⟩
      simp only [hiff, verifyModeOf_bytes]
    · have htls : isTls param = false := by
        rw [hread.isTls_eq]
        exact Bool.not_eq_true _ ▸ hcaptured
      have hnone (hmode : param.1 = bytes "sslmode") : verifyModeOfBytes param.2 = none := by
        simpa [isTls, hmode] using (Bool.or_eq_false_iff.1 htls).2
      have hnone' (hmode : pair.1 = "sslmode") : verifyModeOf pair.2 = none := by
        simp only [isCaptured, Bool.not_eq_true, Bool.or_eq_false_iff] at hcaptured
        simpa [hmode] using hcaptured.2
      split
      · next hmode =>
        rw [hnone' hmode, Option.none_or]
        split
        · next hparam => rw [hnone hparam, Option.none_or]
        · rfl
      · split
        · next hparam => rw [hnone hparam, Option.none_or]
        · rfl

/-- A pair of `sslmode` decides; any other leaves what was found. -/
def stepVerify (found : Option Mode) (param : Param) : Option Mode :=
  if param.1 = bytes "sslmode" then (verifyModeOfBytes param.2).or found else found

theorem expectedVerify_snoc (params : List Param) (param : Param) :
    expectedVerify (params ++ [param]) =
      if param.1 = bytes "sslmode" then verifyModeOfBytes param.2 else expectedVerify params := by
  rw [expectedVerify, lastOf_snoc]
  split
  · rfl
  · rfl

theorem stepVerify_none {params : List Param}
    (h : ∀ param ∈ params, param.1 = bytes "sslmode" → verifyModeOfBytes param.2 = none) :
    params.foldl stepVerify none = none := by
  induction params with
  | nil => rfl
  | cons param rest ih =>
    rw [List.forall_mem_cons] at h
    rw [List.foldl_cons, stepVerify]
    split
    · next hmode =>
      rw [h.1 hmode, Option.none_or]
      exact ih h.2
    · exact ih h.2

/-- A verifying mode that was found stays found. -/
theorem stepVerify_found {params : List Param} {param : Param} (hparam : param ∈ params)
    (hmode : param.1 = bytes "sslmode") (hsome : (verifyModeOfBytes param.2).isSome = true) :
    (params.foldl stepVerify none).isSome = true := by
  induction params using List.reverseRecOn with
  | nil => cases hparam
  | append_singleton params last ih =>
    rw [List.foldl_concat, stepVerify]
    obtain hparam | hparam := List.mem_append.1 hparam
    · split
      · rw [Option.isSome_or, ih hparam, Bool.or_true]
      · exact ih hparam
    · obtain rfl := List.mem_singleton.1 hparam
      rw [if_pos hmode, Option.isSome_or, hsome, Bool.true_or]

/-- What was captured last is what the string sets exactly where no other mode is behind it. -/
theorem stepVerify_expected (params : List Param) :
    params.foldl stepVerify none = expectedVerify params ↔ VerifyLast params := by
  induction params using List.reverseRecOn with
  | nil =>
    refine ⟨fun _ h => ?_, fun _ => rfl⟩
    obtain ⟨param, hparam, -⟩ := h
    cases hparam
  | append_singleton params param ih =>
    rw [List.foldl_concat, expectedVerify_snoc, stepVerify, VerifyLast, expectedVerify_snoc]
    by_cases hmode : param.1 = bytes "sslmode"
    · rw [if_pos hmode, if_pos hmode]
      cases hverify : verifyModeOfBytes param.2 with
      | some mode => exact ⟨fun _ _ => rfl, fun _ => rfl⟩
      | none =>
        rw [Option.none_or]
        constructor
        · rintro hnone ⟨other, hother, hkey, hsome⟩
          exfalso
          obtain hother | hother := List.mem_append.1 hother
          · have hfound := stepVerify_found hother hkey hsome
            rw [hnone] at hfound
            cases hfound
          · obtain rfl := List.mem_singleton.1 hother
            rw [hverify] at hsome
            cases hsome
        · intro hlast
          apply stepVerify_none
          intro other hother hkey
          cases hsome : verifyModeOfBytes other.2 with
          | none => rfl
          | some mode =>
            have hnone := hlast ⟨other, List.mem_append_left _ hother, hkey, by rw [hsome]; rfl⟩
            cases hnone
    · rw [if_neg hmode, if_neg hmode, ih, VerifyLast]
      have hiff : (∃ other ∈ params ++ [param], other.1 = bytes "sslmode" ∧
          (verifyModeOfBytes other.2).isSome = true) ↔
          ∃ other ∈ params, other.1 = bytes "sslmode" ∧ (verifyModeOfBytes other.2).isSome = true := by
        constructor
        · rintro ⟨other, hother, hkey, hsome⟩
          obtain hother | hother := List.mem_append.1 hother
          · exact ⟨other, hother, hkey, hsome⟩
          · obtain rfl := List.mem_singleton.1 hother
            exact absurd hkey hmode
        · rintro ⟨other, hother, hkey, hsome⟩
          exact ⟨other, List.mem_append_left _ hother, hkey, hsome⟩
      rw [hiff]

/-- The last of the kept values of a keyword is the last of all, if that one is kept. -/
theorem lastOf_kept {key : List UInt8} {value : List UInt8} {p : Param → Bool}
    (hlast : lastOf key none params = some value) (hkept : p (key, value) = true) :
    lastOf key none (params.filter p) = some value := by
  induction params using List.reverseRecOn with
  | nil => cases hlast
  | append_singleton params param ih =>
    rw [lastOf_snoc] at hlast
    rw [List.filter_append]
    split at hlast
    · next hkey =>
      obtain rfl := Option.some.inj hlast
      have hp : p param = true := by
        rw [← hkey] at hkept
        exact hkept
      rw [List.filter_cons_of_pos hp, List.filter_nil, lastOf_snoc, if_pos hkey]
    · next hkey =>
      by_cases hp : p param = true
      · rw [List.filter_cons_of_pos hp, List.filter_nil, lastOf_snoc, if_neg hkey, ih hlast]
      · rw [List.filter_cons_of_neg hp, List.filter_nil, List.append_nil, ih hlast]

/-! ## What is enforced -/

/-- The mode that the driver takes from an `sslmode`; it knows no others. -/
def driverMode : Option (List UInt8) → Option SslMode
  | none => some .prefer
  | some value =>
    if value = bytes "disable" then some .disable
    else if value = bytes "prefer" then some .prefer
    else if value = bytes "require" then some .require
    else none

/-- The driver reads what it is given by the same grammar. -/
def SameGrammar (libpq : List Char → Option (List Param)) (gate : Gate) : Prop :=
  ∀ text config, gate.driver text = .ok config → ∃ params, libpq text = some params ∧
    driverMode (lastOf (bytes "sslmode") none params) = some config.sslMode

/-- What a policy enforces: at least a verifying mode of its own, and the driver's mode unless it
is plaintext. -/
theorem enforced_strength (parsed : Parsed) :
    (2 ≤ parsed.tls.mode.strength → parsed.tls.mode.strength ≤ parsed.enforced.strength) ∧
    (parsed.tls.mode ≠ .disable → parsed.driver.sslMode = .require → 2 ≤ parsed.enforced.strength) := by
  obtain ⟨driver, tls⟩ := parsed
  unfold Parsed.enforced Parsed.connectSslMode
  dsimp only
  cases hmode : tls.mode with
  | disable => exact ⟨fun h => absurd h (by decide), fun h => absurd rfl h⟩
  | prefer =>
    refine ⟨fun h => absurd h (by decide), fun _ hrequire => ?_⟩
    rw [hrequire]
    decide
  | require => exact ⟨fun _ => Nat.le_refl 2, fun _ _ => Nat.le_refl 2⟩
  | verifyCa => exact ⟨fun _ => Nat.le_refl 3, fun _ _ => Nat.le_succ 2⟩
  | verifyFull => exact ⟨fun _ => Nat.le_refl 4, fun _ _ => Nat.le_add_right 2 2⟩

end PgConn
