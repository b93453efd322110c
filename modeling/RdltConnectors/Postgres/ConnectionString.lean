import Mathlib.Data.List.Infix
import RdltConnectors.Library.Separator
import RdltConnectors.Postgres.Tls

/-!
# The gate of connection strings

The TLS parameters of libpq are taken out of a connection string, in either of its forms, and
the rest is handed to the driver. What was taken out is reconciled with the `tls:` block.
-/
namespace PgConn

/-! ## What is taken out -/

structure Extracted where
  /-- the string without the TLS parameters -/
  remainder : List Char := []
  /-- the first malformed percent escape, with its parameter -/
  malformedEscape : Option (String × String) := none
  /-- the keys left for the driver -/
  driverKeys : List String := []
  rootCert : Option String := none
  clientCert : Option String := none
  clientKey : Option String := none
  verifyMode : Option Mode := none
  deriving DecidableEq, Repr

/-- A parameter that is ours is captured. -/
def Extracted.capture (e : Extracted) (key value : String) : Option Extracted :=
  match key with
  | "sslrootcert" => some { e with rootCert := some value }
  | "sslcert" => some { e with clientCert := some value }
  | "sslkey" => some { e with clientKey := some value }
  | "sslmode" =>
    if value = "verify-ca" then some { e with verifyMode := some .verifyCa }
    else if value = "verify-full" then some { e with verifyMode := some .verifyFull }
    else none
  | _ => none

/-! ## The URL form -/

def hexDigit (c : Char) : Option Nat :=
  if '0' ≤ c ∧ c ≤ '9' then some (c.toNat - 48)
  else if 'a' ≤ c ∧ c ≤ 'f' then some (c.toNat - 87)
  else if 'A' ≤ c ∧ c ≤ 'F' then some (c.toNat - 55)
  else none

/-- Strict: a percent sign has two hexadecimal digits behind it. -/
def percentDecode : List Char → Option (List UInt8)
  | [] => some []
  | '%' :: high :: low :: rest =>
    match hexDigit high, hexDigit low with
    | some high, some low => (percentDecode rest).map (UInt8.ofNat (high * 16 + low) :: ·)
    | _, _ => none
  | '%' :: _ => none
  | c :: rest => (percentDecode rest).map (String.utf8EncodeChar c ++ ·)

section Lossy

variable (lossy : List UInt8 → String)

/-- The text of the bytes, or what stands for bytes that are no UTF-8. -/
def fromUtf8Lossy (bytes : List UInt8) : String :=
  (String.fromUTF8? ⟨bytes.toArray⟩).getD (lossy bytes)

/-- One pair of a query: captured, or kept for the driver. -/
def takePair (e : Extracted × List (List Char)) (pair : List Char) :
    Extracted × List (List Char) :=
  let (key, raw) := (Separator.splitOnce '=' pair).getD (pair, [])
  let (value, e') :=
    match percentDecode raw with
    | some bytes => (fromUtf8Lossy lossy bytes, e.1)
    | none => (String.ofList raw, { e.1 with
        malformedEscape := e.1.malformedEscape.or (some (String.ofList key, String.ofList raw)) })
  match e'.capture (String.ofList key) value with
  | some captured => (captured, e.2)
  | none => ({ e' with driverKeys := e'.driverKeys ++ [String.ofList key] }, e.2 ++ [pair])

def extractFromUrl (text : List Char) : Extracted :=
  let (base, query) := (Separator.splitOnce '?' text).getD (text, [])
  let (e, kept) := ((query.splitOn '&').filter (· ≠ [])).foldl (takePair lossy) ({}, [])
  { e with remainder := if kept = [] then base else base ++ '?' :: ['&'].intercalate kept }

end Lossy

/-! ## The key=value form -/

def isAsciiWhitespace (c : Char) : Bool := decide (c ∈ [' ', '\t', '\n', '\x0c', '\r'])

/-- To the closing quote; the character behind a backslash is passed over. -/
def scanQuoted : List Char → List Char × List Char
  | [] => ([], [])
  | '\'' :: rest => ([], rest)
  | '\\' :: c :: rest => ('\\' :: c :: (scanQuoted rest).1, (scanQuoted rest).2)
  | c :: rest => (c :: (scanQuoted rest).1, (scanQuoted rest).2)

/-- `replace("\\'", "'")`. -/
def replaceQuotes : List Char → List Char
  | [] => []
  | '\\' :: '\'' :: rest => '\'' :: replaceQuotes rest
  | c :: rest => c :: replaceQuotes rest

/-- The value, and what is behind it. -/
def scanValue (text : List Char) : List Char × List Char :=
  match text with
  | '\'' :: rest => (replaceQuotes (scanQuoted rest).1, (scanQuoted rest).2)
  | _ => text.span fun c => !isAsciiWhitespace c

/-- A key, its value if there is an equals sign, and the text they were read from. -/
structure Token where
  span : List Char
  key : List Char
  value : Option (List Char)
  deriving DecidableEq, Repr

/-- The first token of a text that does not start with a blank, and what is behind it. -/
def scanToken (text : List Char) : List Char × Option (List Char) × List Char :=
  let named := text.span fun c => c ≠ '=' && !isAsciiWhitespace c
  match named.2.dropWhile isAsciiWhitespace with
  | '=' :: behind =>
    let valued := scanValue (behind.dropWhile isAsciiWhitespace)
    (named.1, some valued.1, valued.2)
  | rest => (named.1, none, rest)

theorem scanQuoted_length (text : List Char) : (scanQuoted text).2.length ≤ text.length := by
  induction text using scanQuoted.induct with
  | case1 => exact Nat.le_refl _
  | case2 rest => exact Nat.le_succ _
  | case3 c rest ih =>
    rw [scanQuoted, List.length_cons, List.length_cons]
    dsimp only
    omega
  | case4 c rest hquote hescape ih =>
    rw [scanQuoted, List.length_cons]
    · dsimp only
      omega
    · exact hquote
    · exact hescape

theorem dropWhile_length (p : Char → Bool) (text : List Char) :
    (text.dropWhile p).length ≤ text.length := (List.dropWhile_suffix p).length_le

theorem scanValue_length (text : List Char) : (scanValue text).2.length ≤ text.length := by
  unfold scanValue
  split
  · next rest =>
    rw [List.length_cons]
    have h := scanQuoted_length rest
    dsimp only
    omega
  · rw [List.span_eq_takeWhile_dropWhile]
    exact dropWhile_length _ _

/-- A token takes up some text. -/
theorem scanToken_length {c : Char} {tail : List Char} (hc : isAsciiWhitespace c = false) :
    (scanToken (c :: tail)).2.2.length < (c :: tail).length := by
  unfold scanToken
  rw [List.span_eq_takeWhile_dropWhile]
  dsimp only
  split
  · next behind hdrop =>
    have hvalue := scanValue_length (behind.dropWhile isAsciiWhitespace)
    have hbehind := dropWhile_length isAsciiWhitespace behind
    have hnamed := dropWhile_length isAsciiWhitespace
      ((c :: tail).dropWhile fun c => c ≠ '=' && !isAsciiWhitespace c)
    have hkey := dropWhile_length (fun c => c ≠ '=' && !isAsciiWhitespace c) (c :: tail)
    rw [hdrop, List.length_cons] at hnamed
    dsimp only
    omega
  · next hnot =>
    dsimp only
    by_cases heq : c = '='
    · subst heq
      exact absurd rfl (hnot tail)
    · have hdrop : (c :: tail).dropWhile (fun c => c ≠ '=' && !isAsciiWhitespace c) =
          tail.dropWhile fun c => c ≠ '=' && !isAsciiWhitespace c :=
        List.dropWhile_cons_of_pos (by simp [heq, hc])
      rw [hdrop]
      have hblank := dropWhile_length isAsciiWhitespace
        (tail.dropWhile fun c => c ≠ '=' && !isAsciiWhitespace c)
      have hkey := dropWhile_length (fun c => c ≠ '=' && !isAsciiWhitespace c) tail
      rw [List.length_cons]
      omega

def tokens (text : List Char) : List Token :=
  match _hbody : text.dropWhile isAsciiWhitespace with
  | [] => []
  | c :: tail =>
    let scanned := scanToken (c :: tail)
    ⟨(c :: tail).take ((c :: tail).length - scanned.2.2.length), scanned.1, scanned.2.1⟩ ::
      tokens scanned.2.2
  termination_by text.length
  decreasing_by
    have hc : isAsciiWhitespace c = false := by
      have hhead := List.head?_dropWhile_not isAsciiWhitespace text
      rw [_hbody] at hhead
      simpa using hhead
    have hless := @scanToken_length c tail hc
    have hdrop := dropWhile_length isAsciiWhitespace text
    rw [_hbody] at hdrop
    omega

/-- One token: captured, or kept for the driver; what has no equals sign is left for the driver to
describe. -/
def takeToken (e : Extracted × List (List Char)) (token : Token) : Extracted × List (List Char) :=
  match token.value with
  | none => (e.1, e.2 ++ [token.span])
  | some value =>
    match e.1.capture (String.ofList token.key) (String.ofList value) with
    | some captured => (captured, e.2)
    | none => ({ e.1 with driverKeys := e.1.driverKeys ++ [String.ofList token.key] },
        e.2 ++ [token.span])

def extractFromKeyValues (text : List Char) : Extracted :=
  let (e, kept) := (tokens text).foldl takeToken ({}, [])
  { e with remainder := [' '].intercalate kept }

/-- The form is told by what is in the text. -/
def extractTlsParameters (lossy : List UInt8 → String) (text : List Char) : Extracted :=
  if "://".toList <:+: text then extractFromUrl lossy text else extractFromKeyValues text

/-! ## The gate -/

/-- What the driver made of its string. -/
structure DriverConfig where
  sslMode : SslMode
  applicationName : Option String
  deriving DecidableEq, Repr

structure Parsed where
  driver : DriverConfig
  tls : Policy
  deriving DecidableEq, Repr

def driverParameters : List String :=
  ["user", "password", "dbname", "options", "application_name", "sslmode", "host", "hostaddr",
    "port", "connect_timeout", "tcp_user_timeout", "keepalives", "keepalives_idle",
    "keepalives_interval", "keepalives_retries", "target_session_attrs", "channel_binding",
    "load_balance_hosts"]

def unsupportedParameterHint (parameter : String) : String :=
  if parameter = "sslpassword" then
    "encrypted client keys are unsupported — provide an unencrypted PKCS#8/RSA/SEC1 key via tls.client_key"
  else if parameter ∈ ["gssencmode", "krbsrvname", "gsslib"] then
    "GSS/Kerberos transport is not supported"
  else if parameter = "requiressl" then
    "use sslmode= (requiressl is the pre-7.2 libpq spelling)"
  else if parameter ∈ ["sslcrl", "sslcrldir"] then
    "certificate revocation lists are not supported"
  else if parameter = "service" then
    "libpq service files are not read — inline the parameters"
  else s!"`{parameter}` has no rdlt equivalent; see the supported parameter list"

/-- The environment of the gate: the driver's parser and the wording of PEM inputs. -/
structure Gate where
  driver : List Char → Except String DriverConfig
  lossy : List UInt8 → String
  describe : String → String

def runDriver (gate : Gate) (extracted : Extracted) : Except ConfigError DriverConfig :=
  match gate.driver extracted.remainder with
  | .ok driver => .ok driver
  | .error text =>
    match extracted.driverKeys.find? fun key => key ∉ driverParameters with
    | some key => .error (.unsupportedParameter key (unsupportedParameterHint key))
    | none => .error (.syntaxError text)

/-- A verifying mode of the string sets the mode; a block may keep it or strengthen it. -/
def applyVerifyMode (tlsOverride : Option Policy) (verifyMode : Option Mode) (policy : Policy) :
    Except ConfigError Policy :=
  match verifyMode, tlsOverride with
  | none, _ => .ok policy
  | some mode, none => .ok { policy with mode := mode }
  | some mode, some block =>
    if mode.strength ≤ block.mode.strength then .ok policy
    else .error (.contradiction (if mode = .verifyCa then "verify-ca" else "verify-full") block.mode)

/-- A connection value fills an absent field, and agrees with one that is there. -/
def mergePemParameter (describe : String → String) (parameter policyField : String)
    (connectionValue field : Option String) : Except ConfigError (Option String) :=
  match connectionValue with
  | none => .ok field
  | some value =>
    match field with
    | none => .ok (if parameter = "sslrootcert" ∧ value = "system" then none else some value)
    | some existing =>
      if (parameter = "sslrootcert" ∧ value = "system") ∨ existing ≠ value then
        .error (.parameterConflict parameter policyField value (describe existing))
      else .ok (some existing)

def parse (gate : Gate) (connectionString : List Char) (tlsOverride : Option Policy) :
    Except ConfigError Parsed := do
  let extracted := extractTlsParameters gate.lossy connectionString
  match extracted.malformedEscape with
  | some (parameter, value) =>
    throw (.syntaxError s!"malformed percent-escape in `{parameter}` value `{value}`")
  | none => pure ()
  let driver ← runDriver gate extracted
  let policy ← resolve driver.sslMode tlsOverride
  let policy ← applyVerifyMode tlsOverride extracted.verifyMode policy
  let rootCert ← mergePemParameter gate.describe "sslrootcert" "root_cert" extracted.rootCert
    policy.rootCert
  let clientCert ← mergePemParameter gate.describe "sslcert" "client_cert" extracted.clientCert
    policy.clientCert
  let clientKey ← mergePemParameter gate.describe "sslkey" "client_key" extracted.clientKey
    policy.clientKey
  let policy := { policy with rootCert, clientCert, clientKey }
  validateCredentials policy
  return ⟨{ driver with applicationName := driver.applicationName.or (some "rdlt") }, policy⟩

/-! ## What a connection enforces -/

/-- The driver's mode when it connects. -/
def Parsed.connectSslMode (parsed : Parsed) : SslMode :=
  if parsed.tls.mode = .disable then .disable
  else if parsed.tls.mode.wantsEncryption ∧ parsed.tls.mode ≠ .prefer then .require
  else parsed.driver.sslMode

/-- Where it stands on the ladder: a verifying mode verifies, others go as far as the driver. -/
def Parsed.enforced (parsed : Parsed) : Mode :=
  match parsed.tls.mode, parsed.connectSslMode with
  | .verifyCa, .require => .verifyCa
  | .verifyFull, .require => .verifyFull
  | _, sslMode => modeOf sslMode

end PgConn
