import Mathlib.Data.Nat.Basic

/-!
# The TLS posture of a connection

How strictly a connection encrypts and verifies, on a ladder, and how a connection
string's `sslmode` meets an explicit `tls:` block: it may be refined, never reversed.
-/
namespace PgConn

inductive Mode where
  | disable
  | prefer
  | require
  | verifyCa
  | verifyFull
  deriving DecidableEq, Repr

namespace Mode

def debug : Mode → String
  | disable => "Disable"
  | prefer => "Prefer"
  | require => "Require"
  | verifyCa => "VerifyCa"
  | verifyFull => "VerifyFull"

def wantsEncryption (mode : Mode) : Bool := decide (mode ≠ disable)

/-- The position on the ladder. -/
def strength : Mode → Nat
  | disable => 0
  | prefer => 1
  | require => 2
  | verifyCa => 3
  | verifyFull => 4

end Mode

/-- The PEM inputs are paths or inline texts. -/
structure Policy where
  mode : Mode := .prefer
  rootCert : Option String := none
  clientCert : Option String := none
  clientKey : Option String := none
  deriving DecidableEq, Repr

/-- The driver's own modes. -/
inductive SslMode where
  | disable
  | prefer
  | require
  deriving DecidableEq, Repr

inductive ConfigError where
  | contradiction (connectionSslmode : String) (overrideMode : Mode)
  | clientCredential (input detail : String)
  | parameterConflict (parameter policyField connectionValue overrideValue : String)
  | unsupportedParameter (parameter hint : String)
  | syntaxError (text : String)
  deriving DecidableEq, Repr

def ConfigError.display : ConfigError → String
  | contradiction connectionSslmode overrideMode =>
    s!"tls.mode `{overrideMode.debug}` contradicts the conn string's sslmode `{connectionSslmode}` — silently out-ranking an explicit sslmode is how plaintext surprises happen; align them or drop one"
  | clientCredential input detail => s!"tls client credential `{input}`: {detail}"
  | parameterConflict parameter policyField connectionValue overrideValue =>
    s!"conn parameter `{parameter}={connectionValue}` conflicts with the tls block's {policyField} `{overrideValue}` — align them or drop one"
  | unsupportedParameter parameter hint => s!"unsupported connection parameter `{parameter}`: {hint}"
  | syntaxError text => s!"conn string does not parse: {text}"

def SslMode.name : SslMode → String
  | .disable => "disable"
  | .prefer => "prefer"
  | .require => "require"

/-- The block demands what the string's mode excludes. -/
def contradicts : SslMode → Mode → Bool
  | .disable, mode => decide (mode ∈ [Mode.require, .verifyCa, .verifyFull])
  | .require, mode => decide (mode = .disable)
  | .prefer, _ => false

def modeOf : SslMode → Mode
  | .disable => .disable
  | .require => .require
  | .prefer => .prefer

/-- The block wins where it is consistent with the string. -/
def resolve (connectionSslmode : SslMode) (tlsOverride : Option Policy) : Except ConfigError Policy :=
  match tlsOverride with
  | none => .ok { mode := modeOf connectionSslmode }
  | some block =>
    if contradicts connectionSslmode block.mode then
      .error (.contradiction connectionSslmode.name block.mode)
    else .ok block

/-- A certificate and its key come together, and not in plaintext. -/
def validateCredentials (policy : Policy) : Except ConfigError Unit :=
  match policy.clientCert, policy.clientKey with
  | some _, none => .error (.clientCredential "client_cert"
      "client_key is missing — a certificate cannot authenticate without its private key")
  | none, some _ => .error (.clientCredential "client_key"
      "client_cert is missing — a private key alone is not a credential")
  | some _, some _ =>
    if policy.mode = .disable then .error (.clientCredential "client_cert"
      "tls.mode is `disable` — a client certificate cannot be presented over plaintext; enable TLS or drop the credential")
    else .ok ()
  | none, none => .ok ()

end PgConn
