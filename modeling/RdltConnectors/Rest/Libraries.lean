import RdltConnectors.Library.Whatwg
import RdltConnectors.Rest.Config

/-!
# What the source relies on

The HTTP client's URLs, headers and statuses, the JSON parser, and the hasher of request
fingerprints.
-/
namespace Rest

open Whatwg

structure Libraries where
  rules : Rules
  printer : Printer
  /-- the text of the error for what is no URL -/
  parseError : List Char → String
  headerName : String → Bool
  headerValue : String → Bool
  /-- a status with its reason -/
  statusText : UInt16 → String
  parseJson : List Char → Except String Value
  fingerprint : List Char → List (String × String) → List (String × String) → UInt64

def httpScheme (scheme : List Char) : Bool :=
  scheme = ['h', 't', 't', 'p'] || scheme = ['h', 't', 't', 'p', 's']

/-- `to_string` of an http URL. -/
def Libraries.serialize (libraries : Libraries) (url : Url) : List Char :=
  url.print libraries.printer

structure Libraries.FollowsGrammar (libraries : Libraries) : Prop where
  strict : libraries.rules.Strict
  prints : libraries.rules.Prints libraries.printer

end Rest
