import Mathlib.Data.List.DropRight
import RdltConnectors.Rest.Config
import RdltConnectors.Rest.Select
import RdltConnectors.Sqlcore.Options

/-!
# Paginators

Seven families of state machines that decide after each page where the next request
goes. Counters are 64 bits wide.
-/
namespace Rest

open Sqlcore (isWhitespace)

/-- What a paginator sees of a response. -/
structure PageContext where
  body : Option Value
  headers : List (String × String)
  recordCount : Nat
  totalRecords : UInt64

inductive Decision where
  | done
  | nextParams (params : List (String × String))
  | nextUrl (url : String)
  deriving DecidableEq, Repr

inductive Paginator where
  | singlePage
  | pageNumber (param : String) (next start : UInt64) (totalPages totalCount : Option Selector)
  | offsetLimit (offsetParam limitParam : String) (pageSize offset : UInt64)
      (totalCount : Option Selector)
  | bodyCursor (path : Selector) (param : String)
  | headerCursor (header param : String)
  | nextUrl (path : Selector)
  | linkHeader
  deriving DecidableEq, Repr

def parseOptionalSelector : Option String → Except String (Option Selector)
  | none => .ok none
  | some path => do
    let selector ← Selector.parse path
    pure (some selector)

def Paginator.build : Pagination → Except String Paginator
  | .none => .ok .singlePage
  | .page param start totalPagesPath totalCountPath => do
    let totalPages ← parseOptionalSelector totalPagesPath
    let totalCount ← parseOptionalSelector totalCountPath
    pure (.pageNumber param start start totalPages totalCount)
  | .offset offsetParam limitParam pageSize totalCountPath => do
    let totalCount ← parseOptionalSelector totalCountPath
    pure (.offsetLimit offsetParam limitParam pageSize 0 totalCount)
  | .bodyCursor cursorPath param => do
    let path ← Selector.parse cursorPath
    pure (.bodyCursor path param)
  | .headerCursor header param => .ok (.headerCursor header param)
  | .nextUrl nextUrlPath => do
    let path ← Selector.parse nextUrlPath
    pure (.nextUrl path)
  | .linkHeader => .ok .linkHeader

def decimal (n : UInt64) : String := toString n.toNat

def offsetParams (offsetParam limitParam : String) (offset pageSize : UInt64) :
    List (String × String) :=
  [(offsetParam, decimal offset), (limitParam, decimal pageSize)]

def Paginator.initialParams : Paginator → List (String × String)
  | .pageNumber param next _ _ _ => [(param, decimal next)]
  | .offsetLimit offsetParam limitParam pageSize offset _ =>
    offsetParams offsetParam limitParam offset pageSize
  | _ => []

def Paginator.needsBody : Paginator → Bool
  | .pageNumber _ _ _ totalPages totalCount => totalPages.isSome || totalCount.isSome
  | .offsetLimit _ _ _ _ totalCount => totalCount.isSome
  | .bodyCursor .. | .nextUrl _ => true
  | .singlePage | .headerCursor .. | .linkHeader => false

/-! ## Reading the response -/

/-- The number that a declared total stands at. -/
def declared (selector : Option Selector) (context : PageContext) : Option UInt64 :=
  match selector, context.body with
  | some selector, some body => (selector.selectOne body).bind Value.asU64
  | _, _ => none

def totalCountReached (selector : Option Selector) (context : PageContext) : Bool :=
  (declared selector context).any fun total => total ≤ context.totalRecords

/-- `to_str`: visible ASCII and tabs. -/
def headerText (value : String) : Option String :=
  if value.toList.all fun c => 32 ≤ c.toNat && c.toNat < 127 || c = '\t' then some value else none

def lowercase (name : String) : List Char := name.toList.map Char.toLower

/-- The first header of the name, whatever its case, if it is a text. -/
def headerNamed (name : String) (headers : List (String × String)) : Option String :=
  (headers.find? fun header => lowercase header.1 = lowercase name).bind fun header =>
    headerText header.2

def trim (text : List Char) : List Char := (text.dropWhile isWhitespace).rdropWhile isWhitespace

/-- Some parameter of a link says `rel=next`, with quotes or without. -/
def isNextLink (params : List Char) : Bool :=
  (params.splitOn ';').any fun param =>
    let param := (trim param).map Char.toLower
    param = "rel=next".toList || param = "rel=\"next\"".toList

/-- Where in a link header a scan is. What was read of the URL or of its parameters stands
last character first. -/
inductive LinkScan where
  | outside
  | url (read : List Char)
  | params (url read : List Char)

def scanLinks : LinkScan → List Char → Option (List Char)
  | .outside, [] => none
  | .outside, c :: rest => scanLinks (if c = '<' then .url [] else .outside) rest
  | .url _, [] => none
  | .url read, c :: rest =>
    scanLinks (if c = '>' then .params read.reverse [] else .url (c :: read)) rest
  | .params url read, [] => if isNextLink read.reverse then some url else none
  | .params url read, c :: rest =>
    if c = ',' then
      if isNextLink read.reverse then some url else scanLinks .outside rest
    else scanLinks (.params url (c :: read)) rest

def parseLinkNext (header : String) : Option String :=
  (scanLinks .outside header.toList).map String.ofList

example : parseLinkNext "<https://x/a?ids=1,2>; rel=\"prev\", <https://x/b>; Rel=next" =
    some "https://x/b" := by decide

/-! ## Deciding -/

def cursorDecision (path : Selector) (param : String) : Option Value → Except String Decision
  | none | some .null => .ok .done
  | some (.string cursor) =>
    .ok (if cursor.isEmpty then .done else .nextParams [(param, cursor)])
  | some (.number n) => .ok (.nextParams [(param, n.text)])
  | some other =>
    let raw := path.raw
    let kind := other.kind
    .error s!"cursor at `{raw}` is {kind} — expected string or number"

def nextUrlDecision (path : Selector) : Option Value → Except String Decision
  | none | some .null => .ok .done
  | some (.string url) => .ok (if url.isEmpty then .done else .nextUrl url)
  | some _ =>
    let raw := path.raw
    .error s!"next url at `{raw}` is not a string"

def Paginator.decide (context : PageContext) : Paginator → Except String (Paginator × Decision)
  | .singlePage => .ok (.singlePage, .done)
  | .pageNumber param next start totalPages totalCount =>
    let current := Paginator.pageNumber param next start totalPages totalCount
    if context.recordCount = 0 then .ok (current, .done)
    -- a declared total stops before the request of an empty page
    else if (declared totalPages context).any fun total => total ≤ next - start + 1 then
      .ok (current, .done)
    else if totalCountReached totalCount context then .ok (current, .done)
    else .ok (.pageNumber param (next + 1) start totalPages totalCount,
      .nextParams [(param, decimal (next + 1))])
  | .offsetLimit offsetParam limitParam pageSize offset totalCount =>
    let current := Paginator.offsetLimit offsetParam limitParam pageSize offset totalCount
    if context.recordCount < pageSize.toNat then .ok (current, .done)
    else if totalCountReached totalCount context then .ok (current, .done)
    else .ok (.offsetLimit offsetParam limitParam pageSize (offset + pageSize) totalCount,
      .nextParams (offsetParams offsetParam limitParam (offset + pageSize) pageSize))
  | .bodyCursor path param =>
    match context.body with
    | none => .ok (.bodyCursor path param, .done)
    | some body =>
      (cursorDecision path param (path.selectOne body)).map (Paginator.bodyCursor path param, ·)
  | .headerCursor header param =>
    match headerNamed header context.headers with
    | none => .ok (.headerCursor header param, .done)
    | some cursor =>
      .ok (.headerCursor header param,
        if cursor.isEmpty then .done else .nextParams [(param, cursor)])
  | .nextUrl path =>
    match context.body with
    | none => .ok (.nextUrl path, .done)
    | some body => (nextUrlDecision path (path.selectOne body)).map (Paginator.nextUrl path, ·)
  | .linkHeader =>
    match (headerNamed "link" context.headers).bind parseLinkNext with
    | some url => .ok (.linkHeader, .nextUrl url)
    | none => .ok (.linkHeader, .done)

end Rest
