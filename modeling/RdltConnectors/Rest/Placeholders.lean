import RdltConnectors.Library.Template
import RdltConnectors.Rest.Pinning
import Mathlib.Data.List.Forall2

/-!
# What placeholders stand for

Validation looks for a declared token in the templates as they are printed; substitution
takes it out of the path, the parameters and the strings of the body. A token that only
the printed body has, in a key for instance, is found by the first and left by the second.
-/
namespace Rest

open Fallible Template

/-! ## One pass over a template -/

variable {values : List Char → Option (List Char)}

theorem replaceFrom_skip (skip : Nat) (text : List Char) :
    replaceFrom values skip text = replaceFrom values 0 (text.drop skip) := by
  induction text generalizing skip with
  | nil => cases skip <;> rfl
  | cons c rest ih =>
    cases skip with
    | zero => rfl
    | succ skip => exact ih skip

theorem tokenAt_some {text token : List Char} (h : tokenAt text = some token) :
    '}' ∉ token ∧ ∃ behind, text = token ++ '}' :: behind := by
  rw [tokenAt] at h
  split at h
  · rename_i hmem
    cases h
    have hin : '}' ∈ text := List.contains_iff_mem.mp hmem
    constructor
    · intro hclosed
      have hfree := List.mem_takeWhile_imp hclosed
      simp at hfree
    · cases hsplit : text.dropWhile (· != '}') with
      | nil =>
        have hfree := List.dropWhile_eq_nil_iff.mp hsplit '}' hin
        simp at hfree
      | cons c behind =>
        have hfirst := List.head?_dropWhile_not (· != '}') text
        rw [hsplit] at hfirst
        obtain rfl : c = '}' := by simpa using hfirst
        exact ⟨behind, by rw [← hsplit, List.takeWhile_append_dropWhile]⟩
  · cases h

theorem tokenAt_append {token : List Char} (h : '}' ∉ token) (behind : List Char) :
    tokenAt (token ++ '}' :: behind) = some token := by
  have hkept : ∀ c ∈ token, (c != '}') = true := by
    intro c hc
    simp only [bne_iff_ne]
    rintro rfl
    exact h hc
  rw [tokenAt, if_pos (by simp), List.takeWhile_append_of_pos hkept]
  simp

theorem replaceTokens_taken {token value : List Char} (hclosed : '}' ∉ token)
    (hvalue : values token = some value) (behind : List Char) :
    replaceTokens ('{' :: (token ++ '}' :: behind)) values =
      value ++ replaceTokens behind values := by
  have hbehind : (token ++ '}' :: behind).drop (token.length + 1) = behind := by
    rw [← List.drop_drop, List.drop_left]
    rfl
  simp only [replaceTokens]
  rw [replaceFrom, if_pos rfl]
  simp only [tokenAt_append hclosed, hvalue]
  rw [replaceFrom_skip, hbehind]

theorem replaceTokens_kept {c : Char} {rest : List Char}
    (h : c = '{' → ∀ token, tokenAt rest = some token → values token = none) :
    replaceTokens (c :: rest) values = c :: replaceTokens rest values := by
  simp only [replaceTokens]
  rw [replaceFrom]
  split
  · rename_i hc
    split
    · rename_i token htoken
      rw [h hc token htoken]
    · rfl
  · rfl

/-- The pass takes the template apart by the names of the tokens alone, and puts each token's
value in its place. -/
theorem replaceTokens_pieces (declared : List Char → Prop) (template : List Char) :
    ∃ pieces, OnePass '{' '}' declared template pieces ∧
      ∀ values : List Char → Option (List Char), (∀ token, (values token).isSome ↔ declared token) →
        replaceTokens template values =
          pieces.flatMap (Piece.render fun token => (values token).getD []) := by
  -- by the length of what is left of the template, since a placeholder is read at once
  induction hlength : template.length using Nat.strong_induction_on generalizing template with
  | _ n ih =>
    cases template with
    | nil => exact ⟨[], .nil _, fun _ _ => rfl⟩
    | cons c rest =>
      by_cases htaken : ∃ token behind, c :: rest = '{' :: (token ++ '}' :: behind) ∧
          '}' ∉ token ∧ declared token
      · obtain ⟨token, behind, heq, hclosed, hdeclared⟩ := htaken
        obtain ⟨rfl, rfl⟩ := List.cons.inj heq
        have hshorter : behind.length < n := by
          simp only [← hlength, List.length_cons, List.length_append]
          omega
        obtain ⟨pieces, hpass, hrender⟩ := ih behind.length hshorter behind rfl
        refine ⟨.placeholder token :: pieces, hpass.placeholder hdeclared hclosed, ?_⟩
        intro values hvalues
        obtain ⟨value, hvalue⟩ := Option.isSome_iff_exists.mp ((hvalues token).mpr hdeclared)
        rw [replaceTokens_taken hclosed hvalue, hrender values hvalues]
        simp [Piece.render, hvalue]
      · obtain ⟨pieces, hpass, hrender⟩ := ih rest.length (by simp [← hlength]) rest rfl
        have hstays : c = '{' → ∀ token, declared token → '}' ∉ token →
            ¬ (token ++ ['}']) <+: rest := by
          rintro rfl token hdeclared hclosed ⟨behind, rfl⟩
          exact htaken ⟨token, behind, by simp, hclosed, hdeclared⟩
        refine ⟨.literal c :: pieces, hpass.literal hstays, ?_⟩
        intro values hvalues
        rw [replaceTokens_kept, hrender values hvalues]
        · rfl
        · rintro rfl token htoken
          obtain ⟨hclosed, behind, rfl⟩ := tokenAt_some htoken
          cases hvalue : values token with
          | none => rfl
          | some value =>
            have hdeclared := (hvalues token).mp (by rw [hvalue]; rfl)
            exact absurd ⟨token, behind, rfl, hclosed, hdeclared⟩ htaken

/-! ## The strings of a body -/

namespace Value

mutual

/-- Its strings, in their order; keys are not among them. -/
def leaves : Value → List String
  | .string text => [text]
  | .array items => leavesOfItems items
  | .object fields => leavesOfFields fields
  | .null => []
  | .bool _ => []
  | .number _ => []

def leavesOfItems : List Value → List String
  | [] => []
  | item :: rest => leaves item ++ leavesOfItems rest

def leavesOfFields : List (String × Value) → List String
  | [] => []
  | (_, value) :: rest => leaves value ++ leavesOfFields rest

end

mutual

/-- What is left of it without its strings. -/
def outline : Value → Value
  | .string _ => .string ""
  | .array items => .array (outlineOfItems items)
  | .object fields => .object (outlineOfFields fields)
  | .null => .null
  | .bool b => .bool b
  | .number n => .number n

def outlineOfItems : List Value → List Value
  | [] => []
  | item :: rest => outline item :: outlineOfItems rest

def outlineOfFields : List (String × Value) → List (String × Value)
  | [] => []
  | (key, value) :: rest => (key, outline value) :: outlineOfFields rest

end

/-- A body without some of its own fields. -/
def without (names : List String) : Value → Value
  | .object fields => .object (fields.filter fun field => field.1 ∉ names)
  | body => body

end Value

section Bodies

variable (placeholders : List (String × String))

def substituteText (text : String) : String := String.ofList (substitute text.toList placeholders)

mutual

theorem leaves_substituteBody (body : Value) :
    (substituteBody placeholders body).leaves = body.leaves.map (substituteText placeholders) := by
  cases body with
  | string text => rfl
  | array items => exact leaves_substituteItems items
  | object fields => exact leaves_substituteFields fields
  | null => rfl
  | bool b => rfl
  | number n => rfl

theorem leaves_substituteItems (items : List Value) :
    Value.leavesOfItems (substituteItems placeholders items) =
      (Value.leavesOfItems items).map (substituteText placeholders) := by
  cases items with
  | nil => rfl
  | cons item rest =>
    simp only [substituteItems, Value.leavesOfItems, List.map_append]
    rw [leaves_substituteBody item, leaves_substituteItems rest]

theorem leaves_substituteFields (fields : List (String × Value)) :
    Value.leavesOfFields (substituteFields placeholders fields) =
      (Value.leavesOfFields fields).map (substituteText placeholders) := by
  cases fields with
  | nil => rfl
  | cons field rest =>
    simp only [substituteFields, Value.leavesOfFields, List.map_append]
    rw [leaves_substituteBody field.2, leaves_substituteFields rest]

end

mutual

theorem outline_substituteBody (body : Value) :
    (substituteBody placeholders body).outline = body.outline := by
  cases body with
  | string text => rfl
  | array items => exact congrArg Value.array (outline_substituteItems items)
  | object fields => exact congrArg Value.object (outline_substituteFields fields)
  | null => rfl
  | bool b => rfl
  | number n => rfl

theorem outline_substituteItems (items : List Value) :
    Value.outlineOfItems (substituteItems placeholders items) = Value.outlineOfItems items := by
  cases items with
  | nil => rfl
  | cons item rest =>
    simp only [substituteItems, Value.outlineOfItems]
    rw [outline_substituteBody item, outline_substituteItems rest]

theorem outline_substituteFields (fields : List (String × Value)) :
    Value.outlineOfFields (substituteFields placeholders fields) =
      Value.outlineOfFields fields := by
  cases fields with
  | nil => rfl
  | cons field rest =>
    simp only [substituteFields, Value.outlineOfFields]
    rw [outline_substituteBody field.2, outline_substituteFields rest]

end

theorem filter_substituteFields (names : List String) (fields : List (String × Value)) :
    (substituteFields placeholders fields).filter (fun field => field.1 ∉ names) =
      substituteFields placeholders (fields.filter fun field => field.1 ∉ names) := by
  induction fields with
  | nil => rfl
  | cons field rest ih =>
    simp only [substituteFields, List.filter_cons]
    split
    · rw [ih]
      rfl
    · exact ih

theorem without_substituteBody (names : List String) (body : Value) :
    (substituteBody placeholders body).without names =
      substituteBody placeholders (body.without names) := by
  cases body with
  | object fields => exact congrArg Value.object (filter_substituteFields placeholders names fields)
  | array items => rfl
  | string text => rfl
  | null => rfl
  | bool b => rfl
  | number n => rfl

end Bodies

theorem filter_insertField {key : String} {names : List String} (h : key ∈ names) (value : Value)
    (fields : List (String × Value)) :
    (insertField key value fields).filter (fun field => field.1 ∉ names) =
      fields.filter fun field => field.1 ∉ names := by
  induction fields with
  | nil => simp [insertField, h]
  | cons field rest ih =>
    obtain ⟨name, old⟩ := field
    rw [insertField]
    split
    · rename_i hkey
      simp [hkey, h]
    · simp only [List.filter_cons, ih]

/-- Page parameters leave the other fields of a body alone. -/
theorem without_mergeParams {pageParams : List (String × String)} {names : List String}
    (h : ∀ param ∈ pageParams, param.1 ∈ names) (body : Value) :
    (mergeParams pageParams body).without names = body.without names := by
  cases body with
  | object fields =>
    simp only [mergeParams, Value.without, Value.object.injEq]
    induction pageParams generalizing fields with
    | nil => rfl
    | cons param rest ih =>
      rw [List.foldl_cons, ih (fun other hother => h other (List.mem_cons_of_mem _ hother))]
      exact filter_insertField (h param List.mem_cons_self) _ fields
  | array items => rfl
  | string text => rfl
  | null => rfl
  | bool b => rfl
  | number n => rfl

/-! ## The values of a record -/

theorem placeholderValue_token {item : Value} {token fieldPath : String} {value : String × String}
    (h : placeholderValue item token fieldPath = .ok value) : value.1 = token := by
  rw [placeholderValue] at h
  split at h
  · cases h
  · split at h
    · cases h
    · obtain ⟨rendered, -, rfl⟩ := map_ok.mp h
      rfl

section Values

variable {item : Value} {declared resolved : List (String × String)}

theorem mapM_placeholder_names
    (h : declared.mapM (fun x => placeholderValue item x.1 x.2) = .ok resolved) :
    resolved.map Prod.fst = declared.map Prod.fst := by
  induction declared generalizing resolved with
  | nil =>
    obtain rfl := mapM_nil_ok.mp h
    rfl
  | cons placeholder rest ih =>
    obtain ⟨value, behind, hvalue, hbehind, rfl⟩ := mapM_cons_ok.mp h
    rw [List.map_cons, List.map_cons, ih hbehind, placeholderValue_token hvalue]

theorem mapM_placeholder_lookup
    (h : declared.mapM (fun x => placeholderValue item x.1 x.2) = .ok resolved)
    {token fieldPath : String} (hdeclared : declared.lookup token = some fieldPath) :
    ∃ value, placeholderValue item token fieldPath = .ok (token, value) ∧
      resolved.lookup token = some value := by
  induction declared generalizing resolved with
  | nil => cases hdeclared
  | cons placeholder rest ih =>
    obtain ⟨⟨name, value⟩, behind, hvalue, hbehind, rfl⟩ := mapM_cons_ok.mp h
    obtain rfl : name = placeholder.1 := placeholderValue_token hvalue
    rw [List.lookup_cons] at hdeclared ⊢
    cases hname : token == placeholder.1 with
    | true =>
      simp only [hname] at hdeclared ⊢
      obtain rfl := beq_iff_eq.mp hname
      cases hdeclared
      exact ⟨value, hvalue, rfl⟩
    | false =>
      simp only [hname] at hdeclared ⊢
      exact ih hbehind hdeclared

end Values

/-! ## The request of a child -/

/-- Where a request has its placeholders: page parameters take the place of the body's fields
of their names. -/
def Stream.templates (stream : Stream) (pageParams : List (String × String)) : List (List Char) :=
  stream.path.toList :: (stream.params.map (·.2.toList) ++ stream.body.toList.flatMap fun body =>
    (body.without (pageParams.map Prod.fst)).leaves.map String.toList)

def Parent.Declares (parent : Parent) (token : List Char) : Prop :=
  String.ofList token ∈ parent.placeholders.map Prod.fst

/-- The token in braces stands in a template, and not only as the end of a longer one. -/
def Stream.Mentions (stream : Stream) (parent : Parent) (pageParams : List (String × String))
    (token : List Char) : Prop :=
  ∃ template ∈ stream.templates pageParams, ∃ front behind,
    template = front ++ '{' :: (token ++ '}' :: behind) ∧
      ∀ start longer, front = start ++ '{' :: longer → '}' ∉ longer →
        ¬ parent.Declares (longer ++ '{' :: token)

/-- The pieces of a template with the values in their places. -/
def filled (placeholders : List (String × String)) (encode : List Char → List Char)
    (pieces : List (Piece Char)) : List Char :=
  pieces.flatMap (Piece.render fun token => encode ((valueOf placeholders token).getD []))

theorem substitutePath_filled {declared : List Char → Prop} {template : List Char}
    {pieces : List (Piece Char)} {placeholders : List (String × String)}
    (hrender : ∀ values : List Char → Option (List Char),
      (∀ token, (values token).isSome ↔ declared token) → replaceTokens template values =
        pieces.flatMap (Piece.render fun token => (values token).getD []))
    (h : ∀ token, (valueOf placeholders token).isSome ↔ declared token) :
    substitutePath template placeholders = filled placeholders encodeValue pieces := by
  rw [substitutePath, hrender]
  · apply List.flatMap_congr
    intro piece _
    cases piece with
    | literal c => rfl
    | placeholder token =>
      cases hvalue : valueOf placeholders token with
      | none => simp [Piece.render, hvalue, encodeValue]
      | some value => simp [Piece.render, hvalue]
  · intro token
    rw [Option.isSome_map]
    exact h token

/-- A request whose templates are taken apart once. -/
structure Substituted (endpoint : Endpoint) (parent : Parent) (values : ParentValues)
    (pageParams extraParams : List (String × String)) (pieces : List Char → List (Piece Char))
    (request : PageRequest) : Prop where
  onePass : ∀ template, OnePass '{' '}' parent.Declares template (pieces template)
  url : request.url = joinBaseUrl endpoint.config.baseUrl.toList
    (filled values.placeholders encodeValue (pieces endpoint.stream.path.toList))
  query : request.query = (endpoint.stream.params.map fun (name, template) =>
      (name, String.ofList (filled values.placeholders id (pieces template.toList)))) ++
    extraParams ++ if request.body.isSome then [] else pageParams
  body : ∀ template, endpoint.stream.body = some template → ∃ body, request.body = some body ∧
    (body.without (pageParams.map Prod.fst)).outline =
      (template.without (pageParams.map Prod.fst)).outline ∧
    (body.without (pageParams.map Prod.fst)).leaves =
      (template.without (pageParams.map Prod.fst)).leaves.map fun text =>
        String.ofList (filled values.placeholders id (pieces text.toList))

section Child

variable {parent : Parent} {item : Value} {values : ParentValues}

theorem parentValuesOf_ok (h : parentValuesOf parent item = .ok values) :
    parent.placeholders.mapM (fun x => placeholderValue item x.1 x.2) = .ok values.placeholders := by
  obtain ⟨resolved, hresolved, hvalues⟩ := bind_ok.mp h
  obtain rfl := pure_ok.mp hvalues
  exact hresolved

theorem valueOf_isSome (h : parentValuesOf parent item = .ok values) (token : List Char) :
    (valueOf values.placeholders token).isSome ↔ parent.Declares token := by
  rw [valueOf, Option.isSome_map, Parent.Declares,
    ← mapM_placeholder_names (parentValuesOf_ok h), List.lookup_isSome_iff]
  simp

/-- The pieces of every template under the parent's tokens. -/
theorem exists_pieces (h : parentValuesOf parent item = .ok values) :
    ∃ pieces : List Char → List (Piece Char),
      (∀ template, OnePass '{' '}' parent.Declares template (pieces template)) ∧
      (∀ template, substitute template values.placeholders =
        filled values.placeholders id (pieces template)) ∧
      ∀ template, substitutePath template values.placeholders =
        filled values.placeholders encodeValue (pieces template) := by
  choose pieces hpass hrender using replaceTokens_pieces parent.Declares
  refine ⟨pieces, hpass, fun template => ?_, fun template => ?_⟩
  · exact hrender template _ (valueOf_isSome h)
  · exact substitutePath_filled (hrender template) (valueOf_isSome h)

theorem mentioned_iff {pieces : List Char → List (Piece Char)} {stream : Stream}
    (hpass : ∀ template, OnePass '{' '}' parent.Declares template (pieces template))
    {pageParams : List (String × String)} {token : List Char} (hdeclared : parent.Declares token) :
    (∃ template ∈ stream.templates pageParams, .placeholder token ∈ pieces template) ↔
      '}' ∉ token ∧ stream.Mentions parent pageParams token := by
  constructor
  · rintro ⟨template, htemplate, hmem⟩
    obtain ⟨-, hclosed, hplace⟩ := ((hpass template).placeholder_iff (by decide)).mp hmem
    exact ⟨hclosed, template, htemplate, hplace⟩
  · rintro ⟨hclosed, template, htemplate, hplace⟩
    have hmem := ((hpass template).placeholder_iff (by decide)).mpr ⟨hdeclared, hclosed, hplace⟩
    exact ⟨template, htemplate, hmem⟩

/-- The body of a request, where the stream has one. -/
theorem buildPageRequest_body {endpoint : Endpoint} {template : Value}
    (hmethod : endpoint.stream.method = .post) (hbody : endpoint.stream.body = some template)
    (url : List Char) (pageParams extraParams : List (String × String)) :
    buildPageRequest endpoint url pageParams extraParams =
      ⟨.post, url, endpoint.stream.headers, endpoint.params ++ extraParams,
        some (mergeParams pageParams (endpoint.body template))⟩ := by
  rw [buildPageRequest, hmethod, hbody]

theorem buildPageRequest_plain {endpoint : Endpoint} (hbody : endpoint.stream.body = none)
    (url : List Char) (pageParams extraParams : List (String × String)) :
    buildPageRequest endpoint url pageParams extraParams =
      ⟨endpoint.stream.method, url, endpoint.stream.headers,
        endpoint.params ++ extraParams ++ pageParams, none⟩ := by
  rw [buildPageRequest, hbody]
  cases endpoint.stream.method <;> rfl

/-- Every occurrence is replaced in one pass over the path, the parameters and the strings of
the body; a declared token is taken from one of these exactly when it is mentioned there. -/
theorem child_request {libraries : Libraries} {config : Config}
    (h : config.validate libraries = .ok ()) {stream : Stream} (hstream : stream ∈ config.streams)
    (hvalues : parentValuesOf parent item = .ok values) (needsValues : Bool)
    (pageParams extraParams : List (String × String)) :
    ∃ pieces,
      Substituted ⟨config, stream, some values, needsValues⟩ parent values pageParams extraParams
        pieces (buildPageRequest ⟨config, stream, some values, needsValues⟩
          (Endpoint.baseUrl ⟨config, stream, some values, needsValues⟩) pageParams extraParams) ∧
      ∀ token fieldPath, parent.placeholders.lookup token = some fieldPath →
        (∃ value, placeholderValue item token fieldPath = .ok (token, value) ∧
          valueOf values.placeholders token.toList = some value.toList) ∧
        ((∃ template ∈ stream.templates pageParams, .placeholder token.toList ∈ pieces template) ↔
          '}' ∉ token.toList ∧ stream.Mentions parent pageParams token.toList) := by
  obtain ⟨pieces, hpass, hplain, hencoded⟩ := exists_pieces hvalues
  have hurl : Endpoint.baseUrl ⟨config, stream, some values, needsValues⟩ =
      joinBaseUrl config.baseUrl.toList
        (filled values.placeholders encodeValue (pieces stream.path.toList)) :=
    congrArg (joinBaseUrl config.baseUrl.toList) (hencoded stream.path.toList)
  have hparams : Endpoint.params ⟨config, stream, some values, needsValues⟩ =
      stream.params.map fun (name, template) =>
        (name, String.ofList (filled values.placeholders id (pieces template.toList))) := by
    apply List.map_congr_left
    intro param _
    exact congrArg (fun text => (param.1, String.ofList text)) (hplain param.2.toList)
  refine ⟨pieces, ?_, ?_⟩
  · cases hbody : stream.body with
    | none =>
      rw [buildPageRequest_plain hbody]
      refine ⟨hpass, hurl, ?_, ?_⟩
      · simp [hparams]
      · intro template htemplate
        cases hbody.symm.trans htemplate
    | some template =>
      rw [buildPageRequest_body (validate_body h hstream (by simp [hbody])) hbody]
      refine ⟨hpass, hurl, ?_, ?_⟩
      · simp [hparams]
      · intro other hother
        obtain rfl : template = other := Option.some.inj (hbody.symm.trans hother)
        have hwithout : (mergeParams pageParams (substituteBody values.placeholders template)).without
            (pageParams.map Prod.fst) =
              substituteBody values.placeholders (template.without (pageParams.map Prod.fst)) := by
          rw [without_mergeParams (fun param hparam => List.mem_map_of_mem hparam),
            without_substituteBody]
        refine ⟨_, rfl, ?_, ?_⟩
        · rw [Endpoint.body, hwithout, outline_substituteBody]
        · rw [Endpoint.body, hwithout, leaves_substituteBody]
          apply List.map_congr_left
          intro text _
          exact congrArg String.ofList (hplain text.toList)
  · intro token fieldPath hlookup
    obtain ⟨value, hvalue, hresolved⟩ :=
      mapM_placeholder_lookup (parentValuesOf_ok hvalues) hlookup
    have hdeclared : parent.Declares token.toList := by
      rw [← valueOf_isSome hvalues]
      simp [valueOf, hresolved]
    exact ⟨⟨value, hvalue, by simp [valueOf, hresolved]⟩, mentioned_iff hpass hdeclared⟩

end Child

/-! ## Users of organisations -/

def orgs : Parent := ⟨"orgs", [("id", "id")], []⟩

def org (id : String) : Value := .object [("id", .string id)]

def usersAt (path : String) (body : Option Value) : Stream :=
  { name := "users", path := path, method := .post, body := body, parent := some orgs }

def nestedConfig (users : Stream) : Config :=
  { baseUrl := "https://api.example.com", streams := [{ name := "orgs", path := "/orgs" }, users] }

def nestedUsers : Stream := usersAt "/orgs/\x7bid\x7d/users" none

theorem child_request_in_path :
    (nestedConfig nestedUsers).validate plainLibraries = .ok () ∧
      parentValuesOf orgs (org "acme") = .ok ⟨[("id", "acme")], []⟩ ∧
        ∃ pieces,
          Substituted ⟨nestedConfig nestedUsers, nestedUsers, some ⟨[("id", "acme")], []⟩, false⟩
            orgs ⟨[("id", "acme")], []⟩ [] [] pieces
            (buildPageRequest
              ⟨nestedConfig nestedUsers, nestedUsers, some ⟨[("id", "acme")], []⟩, false⟩
              (Endpoint.baseUrl
                ⟨nestedConfig nestedUsers, nestedUsers, some ⟨[("id", "acme")], []⟩, false⟩)
              [] []) ∧
          ∀ token fieldPath, orgs.placeholders.lookup token = some fieldPath →
            (∃ value, placeholderValue (org "acme") token fieldPath = .ok (token, value) ∧
              valueOf [("id", "acme")] token.toList = some value.toList) ∧
            ((∃ template ∈ nestedUsers.templates [],
                .placeholder token.toList ∈ pieces template) ↔
              '}' ∉ token.toList ∧ nestedUsers.Mentions orgs [] token.toList) := by
  have hvalid : (nestedConfig nestedUsers).validate plainLibraries = .ok () := by decide +kernel
  exact ⟨hvalid, rfl, child_request hvalid (List.mem_cons_of_mem _ List.mem_cons_self) rfl
    false [] []⟩

def keyedUsers : Stream :=
  usersAt "/users" (some (.object [("\x7bid\x7d", .number (.unsigned 1))]))

def keyedEndpoint (id : String) : Endpoint :=
  ⟨nestedConfig keyedUsers, keyedUsers, some ⟨[("id", id)], []⟩, false⟩

/-- A token that is a key of the body is accepted, and every organisation is asked for alike. -/
theorem keyed_token_stays : (nestedConfig keyedUsers).validate plainLibraries = .ok () ∧
    keyedUsers ∈ (nestedConfig keyedUsers).streams ∧ keyedUsers.parent = some orgs ∧
      parentValuesOf orgs (org "acme") = .ok ⟨[("id", "acme")], []⟩ ∧
      parentValuesOf orgs (org "umbrella") = .ok ⟨[("id", "umbrella")], []⟩ ∧
      ∀ id ∈ ["acme", "umbrella"],
        buildPageRequest (keyedEndpoint id) (keyedEndpoint id).baseUrl [] [] =
          ⟨.post, "https://api.example.com/users".toList, [], [],
            some (.object [("\x7bid\x7d", .number (.unsigned 1))])⟩ := by
  have hurl : ∀ id ∈ ["acme", "umbrella"],
      (keyedEndpoint id).baseUrl = "https://api.example.com/users".toList := by decide +kernel
  refine ⟨by decide +kernel, List.mem_cons_of_mem _ List.mem_cons_self, rfl, rfl, rfl, ?_⟩
  intro id hid
  rw [buildPageRequest_body rfl rfl, hurl id hid]
  rfl

end Rest
