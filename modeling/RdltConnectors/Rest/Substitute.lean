import RdltConnectors.Rest.Config
import RdltConnectors.Rest.FanOut

/-!
# Placeholders

Templates name fields of a parent record as `{token}`. One pass from left to right puts
the record's values in; a brace that opens no declared token stays, and what was put in
is not read again. In a path the values are percent-encoded.
-/
namespace Rest

/-- What stands before the next closing brace, if there is one. -/
def tokenAt (text : List Char) : Option (List Char) :=
  if text.contains '}' then some (text.takeWhile (· != '}')) else none

/-- The pass over a template. `skip` characters of it are already read: the rest of a token
and its closing brace. -/
def replaceFrom (values : List Char → Option (List Char)) : Nat → List Char → List Char
  | _, [] => []
  | skip + 1, _ :: rest => replaceFrom values skip rest
  | 0, c :: rest =>
    if c = '{' then
      match tokenAt rest with
      | some token =>
        match values token with
        | some value => value ++ replaceFrom values (token.length + 1) rest
        | none => c :: replaceFrom values 0 rest
      | none => c :: replaceFrom values 0 rest
    else c :: replaceFrom values 0 rest

def replaceTokens (template : List Char) (values : List Char → Option (List Char)) : List Char :=
  replaceFrom values 0 template

def valueOf (placeholders : List (String × String)) (token : List Char) : Option (List Char) :=
  (placeholders.lookup (String.ofList token)).map String.toList

/-- Query parameters and body strings take the values as they are. -/
def substitute (template : List Char) (placeholders : List (String × String)) : List Char :=
  replaceTokens template (valueOf placeholders)

/-- RFC 3986 unreserved. -/
def unreserved (c : Char) : Bool :=
  c.isAlphanum || c = '-' || c = '.' || c = '_' || c = '~'

def upperHexDigit (n : Nat) : Char :=
  if n < 10 then Char.ofNat (48 + n) else Char.ofNat (55 + n)

def percentByte (byte : UInt8) : List Char :=
  ['%', upperHexDigit (byte.toNat / 16), upperHexDigit (byte.toNat % 16)]

def encodeChar (c : Char) : List Char :=
  if unreserved c then [c] else (String.utf8EncodeChar c).flatMap percentByte

/-- A value in a path. One that encodes to a dot segment has its dots escaped as well. -/
def encodeValue (value : List Char) : List Char :=
  let encoded := value.flatMap encodeChar
  if encoded = ['.'] then ['%', '2', 'E']
  else if encoded = ['.', '.'] then ['%', '2', 'E', '%', '2', 'E']
  else encoded

def substitutePath (template : List Char) (placeholders : List (String × String)) : List Char :=
  replaceTokens template fun token => (valueOf placeholders token).map encodeValue

mutual

/-- String leaves take the values, at any depth; keys stay as they are. -/
def substituteBody (placeholders : List (String × String)) : Value → Value
  | .string text => .string (String.ofList (substitute text.toList placeholders))
  | .array items => .array (substituteItems placeholders items)
  | .object fields => .object (substituteFields placeholders fields)
  | .null => .null
  | .bool b => .bool b
  | .number n => .number n

def substituteItems (placeholders : List (String × String)) : List Value → List Value
  | [] => []
  | item :: rest => substituteBody placeholders item :: substituteItems placeholders rest

def substituteFields (placeholders : List (String × String)) :
    List (String × Value) → List (String × Value)
  | [] => []
  | (key, value) :: rest =>
    (key, substituteBody placeholders value) :: substituteFields placeholders rest

end

example : substitutePath "/orgs/acme/users/\x7bid\x7d".toList [("id", "../admin")] =
    "/orgs/acme/users/..%2Fadmin".toList := by decide

/-! ## The values of a parent record -/

/-- Strings, numbers and booleans; a container or null is refused. -/
def renderPlaceholder (token fieldPath : String) : Value → Except SourceError String
  | .string text => .ok text
  | .number n => .ok n.text
  | .bool b => .ok (toString b)
  | other =>
    let kind := other.kind
    .error (.fatal s!"parent field `{fieldPath}` for placeholder `\x7b{token}\x7d` is {kind} — placeholders take scalars")

def placeholderValue (item : Value) (token fieldPath : String) :
    Except SourceError (String × String) :=
  match Selector.parse fieldPath with
  | .error e => .error (.fatal s!"parent placeholder `{token}`: {e}")
  | .ok selector =>
    match selector.selectOne item with
    | none =>
      .error (.fatal s!"parent record lacks field `{fieldPath}` for placeholder `\x7b{token}\x7d`")
    | some value => (renderPlaceholder token fieldPath value).map (token, ·)

def parentValuesOf (parent : Parent) (item : Value) : Except SourceError ParentValues := do
  let placeholders ← parent.placeholders.mapM fun (token, fieldPath) =>
    placeholderValue item token fieldPath
  pure ⟨placeholders, parent.included.map fun field => (field, (item.field field).getD .null)⟩

/-- The values of every record on a page of the parent stream. -/
def parentValues (items : List Value) (parent : Parent) : Except SourceError (List ParentValues) :=
  items.mapM (parentValuesOf parent)

end Rest
