import RdltConnectors.Rest.Resume

/-!
# The source document

What a configuration says: the connection-wide settings and, for each stream, its
endpoint, how it paginates and which stream it fans out from. Maps are lists of their
entries in order.
-/
namespace Rest

inductive KeyLocation where
  | header
  | query
  deriving DecidableEq, Repr

inductive Auth where
  | none
  | bearer (token : String)
  | header (name value : String)
  | basic (username password : String)
  | apiKey (name key : String) (location : KeyLocation)
  | oauth2ClientCredentials (tokenUrl clientId clientSecret : String) (scopes : List String)
      (audience : Option String) (expiryMarginSecs : Nat)
  deriving DecidableEq, Repr

inductive Method where
  | get
  | post
  deriving DecidableEq, Repr

inductive Pagination where
  | none
  | page (pageParam : String) (start : UInt64) (totalPagesPath totalCountPath : Option String)
  | offset (offsetParam limitParam : String) (pageSize : UInt64) (totalCountPath : Option String)
  | bodyCursor (cursorPath cursorParam : String)
  | headerCursor (header cursorParam : String)
  | nextUrl (nextUrlPath : String)
  | linkHeader
  deriving DecidableEq, Repr

inductive ActionKind where
  | ignore
  | endStream
  | error
  deriving DecidableEq, Repr

structure ResponseAction where
  status : Option UInt16
  contentContains : Option String
  kind : ActionKind
  deriving DecidableEq, Repr

structure Parent where
  stream : String
  /-- each token with the path of the parent's field -/
  placeholders : List (String × String)
  included : List String
  deriving DecidableEq, Repr

structure Stream where
  name : String
  path : String
  method : Method := .get
  body : Option Value := none
  params : List (String × String) := []
  headers : List (String × String) := []
  recordsPath : Option String := none
  pagination : Pagination := .none
  incremental : Option Incremental := none
  cursorField : Option String := none
  cursorParam : Option String := none
  responseActions : List ResponseAction := []
  parent : Option Parent := none

structure Config where
  baseUrl : String
  auth : Auth := .none
  headers : List (String × String) := []
  params : List (String × String) := []
  maxConcurrency : Nat := 1
  retryAfterCapSecs : Nat := 300
  requestTimeoutSecs : Nat := 300
  maxPages : UInt64 := 10000
  streams : List Stream

/-- The block, or the two older fields put together. -/
def Stream.effectiveIncremental (stream : Stream) : Option Incremental :=
  stream.incremental.or (stream.cursorField.map fun field =>
    ⟨field, stream.cursorParam, none, none, none⟩)

/-- Every selector of the family, under its name in error texts. -/
def Pagination.selectorPaths : Pagination → List (String × String)
  | .page _ _ totalPagesPath totalCountPath =>
    totalPagesPath.toList.map (("pagination.total_pages_path", ·)) ++
      totalCountPath.toList.map (("pagination.total_count_path", ·))
  | .offset _ _ _ totalCountPath =>
    totalCountPath.toList.map (("pagination.total_count_path", ·))
  | .bodyCursor cursorPath _ => [("pagination.cursor_path", cursorPath)]
  | .nextUrl nextUrlPath => [("pagination.next_url_path", nextUrlPath)]
  | .none | .headerCursor _ _ | .linkHeader => []

/-- The families whose page is asked for by parameters. -/
def Pagination.carriesParams : Pagination → Bool
  | .page .. | .offset .. | .bodyCursor .. | .headerCursor .. => true
  | .none | .nextUrl _ | .linkHeader => false

end Rest
