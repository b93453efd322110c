import RdltConnectors.Rest.Json

/-!
# Selectors

The subset of JSONPath that configurations name parts of a response with: dot paths,
`[*]` wildcards and `[N]` indices.
-/
namespace Rest

inductive Segment where
  | field (name : String)
  | index (n : Nat)
  | wildcard
  deriving DecidableEq, Repr

/-- `raw` is the spelling that the segments were read from. -/
structure Selector where
  segments : List Segment
  raw : String
  deriving DecidableEq, Repr

/-- `str::parse::<usize>`: decimal digits, with a plus sign in front or without. -/
def parseUsize (text : List Char) : Option Nat :=
  let digits := match text with
    | '+' :: rest => rest
    | _ => text
  if digits.isEmpty then none
  else if digits.all (·.isDigit) then
    let n := Nat.ofDigitChars 10 digits 0
    if n < 2 ^ 64 then some n else none
  else none

/-- What stands between a pair of brackets. -/
def bracketSegment (raw : String) (inner : List Char) : Except String Segment :=
  if inner = ['*'] then .ok .wildcard
  else
    match parseUsize inner with
    | some n => .ok (.index n)
    | none =>
      let n := String.ofList inner
      .error s!"selector `{raw}`: `[{n}]` is neither `[*]` nor an index (supported: dot paths, [*], [N])"

/-- The brackets behind the field of one part. Within a pair, `inner` is what was read of
it, last character first. -/
def brackets (raw : String) : Option (List Char) → List Char → Except String (List Segment)
  | none, [] => .ok []
  | none, c :: rest =>
    if c = '[' then brackets raw (some []) rest
    else
      let behind := String.ofList (c :: rest)
      .error s!"selector `{raw}`: unexpected `{behind}` after `]`"
  | some _, [] =>
    .error s!"selector `{raw}`: unclosed `[` (supported: dot paths, [*], [N])"
  | some inner, c :: rest =>
    if c = ']' then do
      let segment ← bracketSegment raw inner.reverse
      let segments ← brackets raw none rest
      pure (segment :: segments)
    else brackets raw (some (c :: inner)) rest

/-- `field`, `field[*]`, `field[N]`, or bare `[*]` and `[N]`. -/
def parsePart (raw : String) (part : List Char) : Except String (List Segment) :=
  if part.isEmpty then
    .error s!"selector `{raw}`: empty segment (supported: dot paths, [*], [N])"
  else do
    let name := part.takeWhile (· != '[')
    let segments ← brackets raw none (part.dropWhile (· != '['))
    pure (if name.isEmpty then segments else .field (String.ofList name) :: segments)

def Selector.parse (raw : String) : Except String Selector :=
  if raw.isEmpty then .error "empty selector"
  else do
    let segments ← (raw.toList.splitOn '.').mapM (parsePart raw)
    pure ⟨segments.flatten, raw⟩

example : Selector.parse "data.items[*][0]" =
    .ok ⟨[.field "data", .field "items", .wildcard, .index 0], "data.items[*][0]"⟩ := by decide

/-! ## Selection -/

/-- What one segment selects under one node. -/
def Segment.next : Segment → Value → List Value
  | .field name, node => (node.field name).toList
  | .index n, node => (node.item n).toList
  | .wildcard, .array items => items
  | .wildcard, _ => []

/-- A wildcard at an array that is there and has nothing in it. -/
def Segment.meetsEmpty : Segment → Value → Bool
  | .wildcard, .array items => items.isEmpty
  | _, _ => false

/-- The matches, and whether a wildcard met an empty array on the way. -/
def Selector.selectTracking (selector : Selector) (root : Value) : List Value × Bool :=
  selector.segments.foldl (fun selected segment =>
    (selected.1.flatMap segment.next, selected.2 || selected.1.any segment.meetsEmpty))
    ([root], false)

def Selector.select (selector : Selector) (root : Value) : List Value :=
  (selector.selectTracking root).1

def Selector.selectOne (selector : Selector) (root : Value) : Option Value :=
  (selector.select root).head?

def Selector.hasWildcard (selector : Selector) : Bool := selector.segments.contains .wildcard

/-! ## What is selected -/

/-- The matches of a path in the order of the document. -/
def found : List Segment → Value → List Value
  | [], node => [node]
  | segment :: rest, node => (segment.next node).flatMap (found rest)

/-- Some wildcard of the path meets an empty array. -/
def meetsEmpty : List Segment → Value → Bool
  | [], _ => false
  | segment :: rest, node => segment.meetsEmpty node || (segment.next node).any (meetsEmpty rest)

theorem any_or_any_flatMap {α β : Type} (nodes : List α) (f : α → Bool) (next : α → List β)
    (g : β → Bool) : (nodes.any f || (nodes.flatMap next).any g) =
      nodes.any fun node => f node || (next node).any g := by
  induction nodes with
  | nil => rfl
  | cons node nodes ih =>
    rw [List.any_cons, List.flatMap_cons, List.any_append, List.any_cons, ← ih]
    ac_rfl

theorem foldl_selected (segments : List Segment) (nodes : List Value) (saw : Bool) :
    segments.foldl (fun selected segment =>
      (selected.1.flatMap segment.next, selected.2 || selected.1.any segment.meetsEmpty))
      (nodes, saw) = (nodes.flatMap (found segments), saw || nodes.any (meetsEmpty segments)) := by
  induction segments generalizing nodes saw with
  | nil =>
    have hfound : found [] = fun node => [node] := rfl
    have hmeets : meetsEmpty [] = fun _ => false := rfl
    simp [hfound, hmeets]
  | cons segment rest ih =>
    have hfound : found (segment :: rest) = fun node => (segment.next node).flatMap (found rest) :=
      rfl
    rw [List.foldl_cons, ih, hfound, List.flatMap_assoc, Bool.or_assoc, any_or_any_flatMap]
    rfl

/-- Segment by segment over all nodes comes to the order of the document. -/
theorem selectTracking_eq (selector : Selector) (root : Value) :
    selector.selectTracking root =
      (found selector.segments root, meetsEmpty selector.segments root) := by
  rw [Selector.selectTracking, foldl_selected]
  simp

end Rest
