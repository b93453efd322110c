import Mathlib.Data.String.Basic

/-!
# JSON values

A parsed response body, and the compact rendering that pages of records and request
bodies are sent in. Objects keep their fields in the order of the document.
-/
namespace Rest

/-- A number that fits `u64` under its value, any other under the text it prints as. -/
inductive Number where
  | unsigned (value : UInt64)
  | printed (text : String)
  deriving DecidableEq, Repr

/-- `to_string`. -/
def Number.text : Number → String
  | .unsigned value => toString value.toNat
  | .printed text => text

/-- At most one field stands under each key. -/
inductive Value where
  | null
  | bool (b : Bool)
  | number (n : Number)
  | string (text : String)
  | array (items : List Value)
  | object (fields : List (String × Value))
  deriving Repr

namespace Value

/-- `get` with a string. -/
def field (key : String) : Value → Option Value
  | .object fields => fields.lookup key
  | _ => none

/-- `get` with a number. -/
def item (index : Nat) : Value → Option Value
  | .array items => items[index]?
  | _ => none

/-- `as_u64`. -/
def asU64 : Value → Option UInt64
  | .number (.unsigned value) => some value
  | _ => none

def isObject : Value → Bool
  | .object _ => true
  | _ => false

/-- `value_kind`. -/
def kind : Value → String
  | .null => "null"
  | .bool _ => "a bool"
  | .number _ => "a number"
  | .string _ => "a string"
  | .array _ => "an array"
  | .object _ => "an object"

def hexDigit (n : Nat) : Char :=
  if n < 10 then Char.ofNat (48 + n) else Char.ofNat (87 + n)

/-- What one character of a string is written as between the quotes. -/
def escape (c : Char) : List Char :=
  if c = '"' then ['\\', '"']
  else if c = '\\' then ['\\', '\\']
  else if c = '\n' then ['\\', 'n']
  else if c = '\r' then ['\\', 'r']
  else if c = '\t' then ['\\', 't']
  else if c.toNat = 8 then ['\\', 'b']
  else if c.toNat = 12 then ['\\', 'f']
  else if c.toNat < 32 then
    ['\\', 'u', '0', '0', hexDigit (c.toNat / 16), hexDigit (c.toNat % 16)]
  else [c]

def quote (text : List Char) : List Char := '"' :: text.flatMap escape ++ ['"']

mutual

/-- `to_string`, the compact form that `to_vec` writes as well. -/
def render : Value → List Char
  | .null => ['n', 'u', 'l', 'l']
  | .bool true => ['t', 'r', 'u', 'e']
  | .bool false => ['f', 'a', 'l', 's', 'e']
  | .number n => n.text.toList
  | .string text => quote text.toList
  | .array items => '[' :: renderItems items ++ [']']
  | .object fields => '{' :: renderFields fields ++ ['}']

def renderItems : List Value → List Char
  | [] => []
  | [v] => render v
  | v :: rest => render v ++ ',' :: renderItems rest

def renderFields : List (String × Value) → List Char
  | [] => []
  | [f] => renderField f
  | f :: rest => renderField f ++ ',' :: renderFields rest

def renderField : String × Value → List Char
  | (key, v) => quote key.toList ++ ':' :: render v

end

example : render (.object [("a", .array [.number (.unsigned 3), .null]), ("b\n", .bool true)]) =
    "\x7b\"a\":[3,null],\"b\\n\":true\x7d".toList := by decide

end Value

end Rest
