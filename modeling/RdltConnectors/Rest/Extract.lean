import RdltConnectors.Rest.Select

/-!
# Records of a page

Without a selector the body has to be an array and its bytes are passed on untouched;
with one the selected records are written anew. `parse` is the library's JSON parser.
-/
namespace Rest

inductive SourceError where
  | transient (message : String)
  | rateLimited (retryAfter : Option Nat) (message : String)
  | fatal (message : String)
  deriving DecidableEq, Repr

/-- The bytes of the records array, their number, and their values for who needs them. -/
structure Page where
  records : List Char
  count : Nat
  values : Option (List Value)

def Page.empty : Page := ⟨['[', ']'], 0, some []⟩

def parseBody (parse : List Char → Except String Value) (body : List Char) :
    Except SourceError Value :=
  match parse body with
  | .ok value => .ok value
  | .error e => .error (.fatal s!"response is not valid JSON: {e}")

def topLevelKeys : Value → String
  | .object fields =>
    let keys := ", ".intercalate ((fields.map (·.1)).take 8)
    s!"object with keys [{keys}]"
  | .array items =>
    let n := items.length
    s!"array of {n} items"
  | .null => "null"
  | .bool _ => "bool"
  | .number _ => "number"
  | .string _ => "string"

def Selector.unmatched (selector : Selector) (value : Value) : SourceError :=
  let raw := selector.raw
  let top := topLevelKeys value
  .fatal s!"records_path `{raw}` matched nothing in the response (top-level: {top})"

/-- The records among the matches: one match has to be the array of them. -/
def recordsOf (selector : Selector) : List Value → Except SourceError (List Value)
  | [.array items] => .ok items
  | [_] =>
    let raw := selector.raw
    .error (.fatal s!"records_path `{raw}` selected a non-array; append [*] to select elements")
  | found => .ok found

def page (parse : List Char → Except String Value) (selector : Option Selector)
    (needsValues : Bool) (body : List Char) : Except SourceError Page :=
  match selector with
  | none =>
    match parseBody parse body with
    | .error e => .error e
    | .ok (.array items) => .ok ⟨body, items.length, some items⟩
    | .ok _ => .error (.fatal "response body is not a JSON array; set records_path")
  | some selector =>
    match parseBody parse body with
    | .error e => .error e
    | .ok value =>
      let selected := selector.selectTracking value
      if selected.1.isEmpty then
        if selected.2 then .ok Page.empty else .error (selector.unmatched value)
      else
        match recordsOf selector selected.1 with
        | .error e => .error e
        | .ok items =>
          .ok ⟨(Value.array items).render, items.length, if needsValues then some items else none⟩

/-! ## What a page holds -/

/-- Count and values are those of the items. -/
structure Page.Holds (p : Page) (items : List Value) : Prop where
  count : p.count = items.length
  values : ∀ values ∈ p.values, values = items

/-- A selector with a wildcard stands for its matches in document order, however many; one
without for the elements of the array it selects. -/
structure Extracts (selector : Selector) (needsValues : Bool) (value : Value)
    (result : Except SourceError Page) : Prop where
  wildcard : selector.hasWildcard = true → ∃ p, result = .ok p ∧
    p.Holds (found selector.segments value) ∧ (needsValues = true → p.values.isSome) ∧
    p.records = (Value.array (found selector.segments value)).render
  single : selector.hasWildcard = false → ∀ items, found selector.segments value = [.array items] →
    ∃ p, result = .ok p ∧ p.Holds items ∧ (needsValues = true → p.values.isSome) ∧
      p.records = (Value.array items).render

/-- A wildcard that is not down to one match, nor to none for want of the path. -/
def Selector.Plural (selector : Selector) (value : Value) : Prop :=
  selector.hasWildcard = true → 2 ≤ (found selector.segments value).length ∨
    found selector.segments value = [] ∧ meetsEmpty selector.segments value = true

/-- The page that the given records are written to. -/
def Page.written (items : List Value) (needsValues : Bool) : Page :=
  ⟨(Value.array items).render, items.length, if needsValues then some items else none⟩

theorem written_holds (items : List Value) (needsValues : Bool) :
    (Page.written items needsValues).Holds items where
  count := rfl
  values := by cases needsValues <;> simp [Page.written]

theorem empty_holds : Page.empty.Holds [] where
  count := rfl
  values := by simp [Page.empty]

/-- An array is never written as the array around it. -/
theorem render_nested (items : List Value) :
    (Value.array [.array items]).render ≠ (Value.array items).render := by
  intro h
  have hlength := congrArg List.length h
  simp [Value.render, Value.renderItems] at hlength

section Page

variable {parse : List Char → Except String Value} {body : List Char} {value : Value}

theorem page_selected (hparse : parse body = .ok value) (selector : Selector)
    (needsValues : Bool) : page parse (some selector) needsValues body =
      if (found selector.segments value).isEmpty then
        if meetsEmpty selector.segments value then .ok Page.empty
        else .error (selector.unmatched value)
      else
        match recordsOf selector (found selector.segments value) with
        | .error e => .error e
        | .ok items => .ok (Page.written items needsValues) := by
  simp [page, parseBody, hparse, selectTracking_eq, Page.written]

/-- Whatever a page is made from, its count, bytes and values agree. -/
theorem page_agrees {selector : Option Selector} {needsValues : Bool} {p : Page}
    (h : page parse selector needsValues body = .ok p) : ∃ items, p.Holds items ∧
      (p.records = (Value.array items).render ∨
        p.records = body ∧ parse body = .ok (.array items)) := by
  cases hparse : parse body with
  | error e => cases selector <;> simp [page, parseBody, hparse] at h
  | ok value =>
    cases selector with
    | none =>
      cases value with
      | array items =>
        simp only [page, parseBody, hparse, Except.ok.injEq] at h
        cases h
        exact ⟨items, ⟨rfl, by simp⟩, .inr ⟨rfl, rfl⟩⟩
      | _ => simp [page, parseBody, hparse] at h
    | some selector =>
      rw [page_selected hparse] at h
      split at h
      · split at h
        · cases h
          exact ⟨[], empty_holds, .inl rfl⟩
        · cases h
      · split at h
        · cases h
        · cases h
          exact ⟨_, written_holds _ needsValues, .inl rfl⟩

theorem extracts_of_plural (hparse : parse body = .ok value) {selector : Selector}
    (needsValues : Bool) (h : selector.Plural value) :
    Extracts selector needsValues value (page parse (some selector) needsValues body) := by
  rw [page_selected hparse]
  constructor
  · intro hwild
    obtain htwo | ⟨hnone, hempty⟩ := h hwild
    · match hfound : found selector.segments value with
      | [] => simp [hfound] at htwo
      | [match_] => simp [hfound] at htwo
      | first :: second :: rest =>
        refine ⟨Page.written (first :: second :: rest) needsValues, by simp [recordsOf],
          written_holds _ needsValues, ?_, rfl⟩
        intro hneeds
        simp [Page.written, hneeds]
    · rw [hnone]
      exact ⟨Page.empty, by simp [hempty], empty_holds, fun _ => rfl, rfl⟩
  · intro _ items hfound
    refine ⟨Page.written items needsValues, by simp [hfound, recordsOf],
      written_holds items needsValues, ?_, rfl⟩
    intro hneeds
    simp [Page.written, hneeds]

theorem plural_of_extracts (hparse : parse body = .ok value) {selector : Selector}
    {needsValues : Bool}
    (h : Extracts selector needsValues value (page parse (some selector) needsValues body)) :
    selector.Plural value := by
  intro hwild
  obtain ⟨p, hp, hholds, -, hrecords⟩ := h.wildcard hwild
  rw [page_selected hparse] at hp
  match hfound : found selector.segments value with
  | [] =>
    cases hempty : meetsEmpty selector.segments value with
    | true => exact .inr ⟨rfl, rfl⟩
    | false => simp [hfound, hempty] at hp
  | [.array items] =>
    simp only [hfound, recordsOf, List.isEmpty_cons, Bool.false_eq_true, if_false,
      Except.ok.injEq] at hp
    rw [hfound, ← hp] at hrecords
    exact absurd hrecords.symm (render_nested items)
  | [.null] | [.bool _] | [.number _] | [.string _] | [.object _] =>
    simp [hfound, recordsOf] at hp
  | first :: second :: rest => exact .inl (by simp)

end Page

/-- On every body, a selector means the same for any number of matches exactly when it has
no wildcard, or at least two matches, or none under an empty array; and what a page
holds agrees in any case. -/
theorem extraction_exact_iff (parse : List Char → Except String Value) {body : List Char}
    {value : Value} (hparse : parse body = .ok value) (needsValues : Bool) :
    (∀ selector, Extracts selector needsValues value
        (page parse (some selector) needsValues body) ↔ selector.Plural value) ∧
    (∀ selector p, page parse selector needsValues body = .ok p → ∃ items, p.Holds items ∧
      (p.records = (Value.array items).render ∨
        p.records = body ∧ parse body = .ok (.array items))) := by
  constructor
  · exact fun selector =>
      ⟨plural_of_extracts hparse, extracts_of_plural hparse needsValues⟩
  · exact fun selector p hp => page_agrees hp

/-! A page of one record. -/

def everyItem : Selector := ⟨[.field "items", .wildcard], "items[*]"⟩

def listing (items : List Value) : Value := .object [("items", .array items)]

def row (id : UInt64) : Value := .object [("id", .number (.unsigned id))]

/-- A parser as far as one document goes. -/
def parserOf (value : Value) (text : List Char) : Except String Value :=
  if text = value.render then .ok value else .error "expected value"

theorem parserOf_render (value : Value) : parserOf value value.render = .ok value := by
  simp [parserOf]

theorem extraction_exact_iff_of_two :
    Extracts everyItem true (listing [row 1, row 2])
      (page (parserOf (listing [row 1, row 2])) (some everyItem) true
        (listing [row 1, row 2]).render) := by
  apply ((extraction_exact_iff (parserOf (listing [row 1, row 2]))
    (parserOf_render (listing [row 1, row 2])) true).1 everyItem).mpr
  exact fun _ => .inl (by decide)

/-- With two records on the page they are taken, with one the page is refused. -/
theorem one_record_is_refused : Selector.parse "items[*]" = .ok everyItem ∧
    ¬ Extracts everyItem true (listing [row 1])
      (page (parserOf (listing [row 1])) (some everyItem) true (listing [row 1]).render) := by
  constructor
  · decide
  · intro h
    obtain ⟨p, hp, -⟩ := h.wildcard (by decide)
    rw [page_selected (parserOf_render (listing [row 1]))] at hp
    cases hp

end Rest
