import Mathlib
import RdltConnectors.Rest.Sequence

/-!
# A read along a route

The pages of a result set stand at places: a location and the parameters of a page. A sequence that
asks for the page of one place, and whose paginator then decides for the place behind it, reads all
the pages in their order and ends behind the last.
-/
namespace Rest

open Fallible

/-- Where a request of a sequence goes. -/
structure Place where
  url : List Char
  params : List (String × String)
  deriving DecidableEq, Repr

/-- A decision goes on at the place. -/
def Leads (libraries : Libraries) (endpoint : Endpoint) : Decision → Place → Prop
  | .done, _ => False
  | .nextParams params, place => place = ⟨endpoint.baseUrl, params⟩
  | .nextUrl url, place => place.params = [] ∧ endpoint.locate libraries url.toList = .ok place.url

/-- The records of a document, by the selector that the stream declares. -/
def Records (document : Value) (items : List Value) : Option Selector → Prop
  | none => document = .array items
  | some selector =>
    found selector.segments document = [.array items] ∨
      found selector.segments document = items ∧
        (2 ≤ items.length ∨ items = [] ∧ meetsEmpty selector.segments document = true)

/-- A page holds the items and ships them. -/
structure Page.Carries (p : Page) (libraries : Libraries) (body : List Char)
    (items : List Value) : Prop where
  holds : p.Holds items
  ships : p.records = (Value.array items).render ∨
    p.records = body ∧ libraries.parseJson body = .ok (.array items)

theorem page_of_records {libraries : Libraries} {body : List Char} {document : Value}
    {items : List Value} {selector : Option Selector} (needsValues : Bool)
    (hparse : libraries.parseJson body = .ok document) (h : Records document items selector) :
    ∃ p, page libraries.parseJson selector needsValues body = .ok p ∧
      p.Carries libraries body items := by
  cases selector with
  | none =>
    cases h
    exact ⟨⟨body, items.length, some items⟩, by simp [page, parseBody, hparse],
      ⟨rfl, by simp⟩, .inr ⟨rfl, hparse⟩⟩
  | some selector =>
    have hwritten : (Page.written items needsValues).Carries libraries body items :=
      ⟨written_holds items needsValues, .inl rfl⟩
    rw [page_selected hparse]
    obtain hone | ⟨hfound, htwo | ⟨rfl, hempty⟩⟩ := h
    · exact ⟨_, by simp [hone, recordsOf], hwritten⟩
    · refine ⟨_, ?_, hwritten⟩
      rw [hfound]
      cases items with
      | nil => cases htwo
      | cons first items =>
        cases items with
        | nil => exact absurd htwo (by simp)
        | cons second items => simp [recordsOf]
    · exact ⟨Page.empty, by simp [hfound, hempty], empty_holds, .inl rfl⟩

/-! ## Routes -/

/-- What a sequence reads from, and from which value it resumes. -/
structure Setting where
  libraries : Libraries
  endpoint : Endpoint
  selector : Option Selector
  incremental : Option Incremental
  startValue : Option String
  serve : PageRequest → Response

/-- The places of a result set, the records of their pages and the documents they are in. -/
structure Course where
  place : Nat → Place
  items : Nat → List Value
  document : Nat → Value

/-- The number of records on the first pages. -/
def Course.before (course : Course) : Nat → Nat
  | 0 => 0
  | k + 1 => course.before k + (course.items k).length

/-- The paginator as it stands after so many pages. -/
def Paginator.turned (k : Nat) : Paginator → Paginator
  | .pageNumber param next start totalPages totalCount =>
    .pageNumber param (next + UInt64.ofNat k) start totalPages totalCount
  | .offsetLimit offsetParam limitParam pageSize offset totalCount =>
    .offsetLimit offsetParam limitParam pageSize (offset + UInt64.ofNat (k * pageSize.toNat))
      totalCount
  | paginator => paginator

theorem turned_zero (paginator : Paginator) : paginator.turned 0 = paginator := by
  cases paginator <;> simp [Paginator.turned]

theorem turned_needsBody (k : Nat) (paginator : Paginator) :
    (paginator.turned k).needsBody = paginator.needsBody := by
  cases paginator <;> rfl

namespace Setting

/-- What every request is bound to. -/
def bindings (setting : Setting) : List (String × String) :=
  (setting.incremental.map (bindIncremental · setting.startValue)).getD []

def request (setting : Setting) (place : Place) : PageRequest :=
  buildPageRequest setting.endpoint place.url place.params setting.bindings

def fingerprint (setting : Setting) (place : Place) : UInt64 :=
  setting.libraries.fingerprint place.url place.params setting.bindings

def answer (setting : Setting) (place : Place) : Response := setting.serve (setting.request place)

/-- A response with these records, that no declared action is about. -/
structure Gives (setting : Setting) (response : Response) (document : Value)
    (items : List Value) : Prop where
  success : response.isSuccess = true
  undeclared :
    matchAction setting.endpoint.stream.responseActions response.status response.body = none
  parses : setting.libraries.parseJson response.body = .ok document
  records : Records document items setting.selector

/-- What the paginator sees behind a page. -/
def seen (setting : Setting) (course : Course) (paginator : Paginator) (k : Nat) :
    PageContext where
  body := if paginator.needsBody then some (course.document k) else none
  headers := (setting.answer (course.place k)).headers
  recordCount := (course.items k).length
  totalRecords := UInt64.ofNat (course.before (k + 1))

/-- The server has a page at each of so many places. -/
structure Served (setting : Setting) (course : Course) (n : Nat) : Prop where
  gives : ∀ k < n,
    setting.Gives (setting.answer (course.place k)) (course.document k) (course.items k)
  /-- the fingerprints tell the places apart -/
  apart : ∀ i < n, ∀ j < n,
    setting.fingerprint (course.place i) = setting.fingerprint (course.place j) → i = j

/-- The paginator leads from each place to the next, and no further than the last. -/
structure Route (setting : Setting) (course : Course) (paginator : Paginator) (n : Nat) : Prop
    extends setting.Served course n where
  leads : ∀ k, k + 1 < n → ∃ decision,
    (paginator.turned k).decide (setting.seen course paginator k) =
      .ok (paginator.turned (k + 1), decision) ∧
    Leads setting.libraries setting.endpoint decision (course.place (k + 1))
  ends : ∀ k, k + 1 = n → ∃ last,
    (paginator.turned k).decide (setting.seen course paginator k) = .ok (last, .done)

/-- The sequence is about to ask for a page. -/
structure Ready (setting : Setting) (course : Course) (paginator : Paginator) (s : Sequence)
    (k : Nat) : Prop where
  live : s.ended = false
  seen : ∀ f ∈ s.seenRequests, ∃ i < k, f = setting.fingerprint (course.place i)
  stands : Place.mk (s.url setting.endpoint) s.pageParams = course.place k
  decides : s.paginator = paginator.turned k
  pages : s.pages = UInt64.ofNat k
  total : s.totalRecords = UInt64.ofNat (course.before k)
  binds : s.extraParams = setting.bindings

def read (setting : Setting) (responses : List Response) (s : Sequence) : Transcript :=
  s.read setting.libraries setting.endpoint setting.selector responses

/-- The read of the pages at the places, whole and in their order. -/
structure Reads (setting : Setting) (course : Course) (places : List Nat)
    (t : Transcript) : Prop where
  requests : t.requests = places.map fun k => setting.request (course.place k)
  pages : List.Forall₂ (fun k p => Page.Carries p setting.libraries
    (setting.answer (course.place k)).body (course.items k)) places t.pages
  ending : t.ending = .complete

end Setting

/-! ## One turn -/

section Turns

variable {setting : Setting} {course : Course} {paginator : Paginator} {s : Sequence} {n k : Nat}

theorem fingerprint_stands (h : setting.Ready course paginator s k) :
    s.fingerprint setting.libraries setting.endpoint = setting.fingerprint (course.place k) := by
  rw [Sequence.fingerprint, Setting.fingerprint, ← h.stands, h.binds]

/-- The sequence as it waits for the answer. -/
def Sequence.asking (s : Sequence) (setting : Setting) : Sequence :=
  { s with
    seenRequests := s.fingerprint setting.libraries setting.endpoint :: s.seenRequests
    pages := s.pages + 1 }

/-- Neither guard stops a sequence along a route. -/
theorem nextRequest_ready (hroute : setting.Route course paginator n) (h : setting.Ready course paginator s k)
    (hk : k < n) (hmax : n ≤ setting.endpoint.config.maxPages.toNat) :
    s.nextRequest setting.libraries setting.endpoint =
      .ok (some (s.asking setting, setting.request (course.place k))) := by
  have hfresh : s.fingerprint setting.libraries setting.endpoint ∉ s.seenRequests := by
    intro hseen
    obtain ⟨i, hi, hsame⟩ := h.seen _ hseen
    rw [fingerprint_stands h] at hsame
    have := hroute.apart k hk i (by omega) hsame
    omega
  have hsize := UInt64.toNat_lt_size setting.endpoint.config.maxPages
  have hbound : ¬setting.endpoint.config.maxPages ≤ s.pages := by
    rw [h.pages, UInt64.le_iff_toNat_le, UInt64.toNat_ofNat_of_lt' (by omega)]
    omega
  simp only [Sequence.nextRequest]
  rw [if_neg (by simp [h.live]), if_neg hfresh, if_neg hbound, Setting.request, ← h.stands,
    ← h.binds]
  rfl

/-- The sequence with the page that it asked for. -/
def Sequence.received (s : Sequence) (response : Response) (document : Value)
    (items : List Value) : Sequence :=
  { s with
    totalRecords := s.totalRecords + UInt64.ofNat items.length
    lastHeaders := response.headers
    lastBody := if s.paginator.needsBody then some document else none }

/-- The response of a page is counted, and kept for the paginator. -/
theorem receive_gives {response : Response} {document : Value} {items : List Value}
    (h : setting.Gives response document items) (s : Sequence) :
    ∃ p, p.Carries setting.libraries response.body items ∧
      s.receive setting.libraries setting.endpoint setting.selector response =
        .ok (s.received response document items, some p) := by
  obtain ⟨p, hp, hcarries⟩ := page_of_records setting.endpoint.needsValues h.parses h.records
  have hkept : s.paginator.keptBody setting.libraries response.body =
      .ok (if s.paginator.needsBody then some document else none) := by
    rw [Paginator.keptBody]
    split
    · rw [parseBody, h.parses]
      rfl
    · rfl
  refine ⟨p, hcarries, ?_⟩
  rw [Sequence.receive, h.undeclared]
  dsimp only
  rw [if_neg (not_not_intro h.success), hp, hkept, Sequence.received, ← hcarries.holds.count]
  rfl

/-- The sequence with the page of the place that it stood at. -/
def Sequence.fetched (s : Sequence) (setting : Setting) (course : Course) (k : Nat) : Sequence :=
  (s.asking setting).received (setting.answer (course.place k)) (course.document k) (course.items k)

theorem fetched_context (h : setting.Ready course paginator s k) {p : Page} (hp : p.Holds (course.items k)) :
    (s.fetched setting course k).context p = setting.seen course paginator k := by
  simp only [Sequence.context, Sequence.fetched, Sequence.received, Sequence.asking, Setting.seen,
    h.decides, turned_needsBody, h.total, hp.count, Course.before, UInt64.ofNat_add]

theorem advance_leads {p : Page} {last : Paginator} {decision : Decision} {place : Place}
    (hlive : s.ended = false) (hdecide : s.paginator.decide (s.context p) = .ok (last, decision))
    (hleads : Leads setting.libraries setting.endpoint decision place) :
    ∃ urlOverride, urlOverride.getD setting.endpoint.baseUrl = place.url ∧
      s.advance setting.libraries setting.endpoint p = .ok
        ({ s with paginator := last, pageParams := place.params, urlOverride := urlOverride },
          true) := by
  simp only [Sequence.advance]
  rw [if_neg (by simp [hlive]), hdecide]
  cases decision with
  | done => exact hleads.elim
  | nextParams params =>
    cases hleads
    exact ⟨none, rfl, rfl⟩
  | nextUrl url =>
    obtain ⟨hparams, hlocate⟩ := hleads
    refine ⟨some place.url, rfl, ?_⟩
    dsimp only
    rw [hlocate, hparams]
    rfl

theorem advance_done {p : Page} {last : Paginator} (hlive : s.ended = false)
    (hdecide : s.paginator.decide (s.context p) = .ok (last, .done)) :
    s.advance setting.libraries setting.endpoint p =
      .ok ({ s with paginator := last, ended := true }, false) := by
  simp only [Sequence.advance]
  rw [if_neg (by simp [hlive]), hdecide]

/-- Behind a page the sequence stands at the next place. -/
theorem ready_next (h : setting.Ready course paginator s k) {urlOverride : Option (List Char)}
    (hurl : urlOverride.getD setting.endpoint.baseUrl = (course.place (k + 1)).url) :
    setting.Ready course paginator { s.fetched setting course k with
      paginator := paginator.turned (k + 1)
      pageParams := (course.place (k + 1)).params
      urlOverride := urlOverride } (k + 1) where
  live := h.live
  seen := by
    intro f hf
    obtain rfl | hf := List.mem_cons.1 hf
    · exact ⟨k, by omega, fingerprint_stands h⟩
    · obtain ⟨i, hi, hsame⟩ := h.seen f hf
      exact ⟨i, by omega, hsame⟩
  stands := by rw [Sequence.url, hurl]
  decides := rfl
  pages := by
    change s.pages + 1 = _
    rw [h.pages, UInt64.ofNat_add]
    rfl
  total := by
    change s.totalRecords + UInt64.ofNat (course.items k).length = _
    rw [h.total, ← UInt64.ofNat_add]
    rfl
  binds := h.binds

/-! ## The whole read -/

theorem read_more (hroute : setting.Route course paginator n) (h : setting.Ready course paginator s k)
    (hk : k + 1 < n) (hmax : n ≤ setting.endpoint.config.maxPages.toNat) :
    ∃ (p : Page) (next : Sequence),
      p.Carries setting.libraries (setting.answer (course.place k)).body (course.items k) ∧
      setting.Ready course paginator next (k + 1) ∧
      ∀ responses, setting.read (setting.answer (course.place k) :: responses) s =
        .before (setting.request (course.place k)) p (setting.read responses next) := by
  have hasks := nextRequest_ready hroute h (by omega) hmax
  obtain ⟨p, hcarries, hreceive⟩ := receive_gives (hroute.gives k (by omega)) (s.asking setting)
  obtain ⟨decision, hdecide, hleads⟩ := hroute.leads k hk
  rw [← fetched_context h hcarries.holds, ← h.decides] at hdecide
  obtain ⟨urlOverride, hurl, hadvance⟩ :=
    @advance_leads setting (s.fetched setting course k) p _ _ _ h.live hdecide hleads
  refine ⟨p, _, hcarries, ready_next h hurl, fun responses => ?_⟩
  rw [Setting.read, Sequence.read, hasks]
  dsimp only
  rw [hreceive]
  dsimp only
  rw [Sequence.fetched] at hadvance
  rw [hadvance]
  rfl

theorem read_last (hroute : setting.Route course paginator n) (h : setting.Ready course paginator s k)
    (hk : k + 1 = n) (hmax : n ≤ setting.endpoint.config.maxPages.toNat) :
    ∃ p : Page,
      p.Carries setting.libraries (setting.answer (course.place k)).body (course.items k) ∧
      setting.read [setting.answer (course.place k)] s =
        ⟨[setting.request (course.place k)], [p], .complete⟩ := by
  have hasks := nextRequest_ready hroute h (by omega) hmax
  obtain ⟨p, hcarries, hreceive⟩ := receive_gives (hroute.gives k (by omega)) (s.asking setting)
  obtain ⟨last, hdecide⟩ := hroute.ends k hk
  rw [← fetched_context h hcarries.holds, ← h.decides] at hdecide
  have hadvance := @advance_done setting (s.fetched setting course k) p _ h.live hdecide
  refine ⟨p, hcarries, ?_⟩
  rw [Setting.read, Sequence.read, hasks]
  dsimp only
  rw [hreceive]
  dsimp only
  rw [Sequence.fetched] at hadvance
  rw [hadvance]

/-- From any place of the route, the read is of the places to its end. -/
theorem reads_from (hroute : setting.Route course paginator n)
    (hmax : n ≤ setting.endpoint.config.maxPages.toNat) (behind : Nat) {k : Nat} {s : Sequence}
    (hk : k + behind + 1 = n) (h : setting.Ready course paginator s k) :
    setting.Reads course (List.range' k (behind + 1)) (setting.read
      ((List.range' k (behind + 1)).map fun k => setting.answer (course.place k)) s) := by
  induction behind generalizing k s with
  | zero =>
    obtain ⟨p, hcarries, hread⟩ := read_last hroute h hk hmax
    change setting.Reads course [k] (setting.read [setting.answer (course.place k)] s)
    rw [hread]
    exact ⟨rfl, .cons hcarries .nil, rfl⟩
  | succ behind ih =>
    obtain ⟨p, next, hcarries, hready, hread⟩ := read_more hroute h (by omega) hmax
    obtain ⟨hrequests, hpages, hending⟩ := ih (by omega) hready
    rw [List.range'_succ, List.map_cons, hread]
    constructor
    · rw [Transcript.before, hrequests]
      rfl
    · exact .cons hcarries hpages
    · exact hending

theorem ready_new
    (hbegins : course.place 0 = ⟨setting.endpoint.baseUrl, paginator.initialParams⟩) :
    setting.Ready course paginator (.new paginator setting.incremental setting.startValue) 0 where
  live := rfl
  seen := fun _ hf => absurd hf List.not_mem_nil
  stands := hbegins.symm
  decides := (turned_zero paginator).symm
  pages := rfl
  total := rfl
  binds := rfl

/-- A sequence that begins at the first place of a route reads the page of every place once, in
their order. -/
theorem reads_route (hroute : setting.Route course paginator (n + 1))
    (hmax : n + 1 ≤ setting.endpoint.config.maxPages.toNat)
    (hbegins : course.place 0 = ⟨setting.endpoint.baseUrl, paginator.initialParams⟩) :
    setting.Reads course (List.range (n + 1)) (setting.read
      ((List.range (n + 1)).map fun k => setting.answer (course.place k))
      (.new paginator setting.incremental setting.startValue)) := by
  rw [List.range_eq_range']
  exact reads_from hroute hmax n (by omega) (ready_new hbegins)

end Turns

end Rest
