import Mathlib
import RdltConnectors.Rest.Pinning
import RdltConnectors.Rest.Route

/-!
# Paginated reads are complete

A server that keeps to the conventions of a paginator family has its whole result set read, each
record once and in order, with no request behind the last page but one for an empty page where no
total told that the pages were over.
-/
namespace Rest

/-! ## Servers that name the next page -/

/-- What a response says about the page behind it, to a paginator that goes by the response. -/
inductive Marks (document : Value) (headers : List (String × String)) :
    Paginator → Option Decision → Prop
  | single : Marks document headers .singlePage none
  | cursor {path : Selector} {param c : String} (hc : c ≠ "")
      (h : path.selectOne document = some (.string c)) :
      Marks document headers (.bodyCursor path param) (some (.nextParams [(param, c)]))
  | cursorNumber {path : Selector} {param : String} {n : Number}
      (h : path.selectOne document = some (.number n)) :
      Marks document headers (.bodyCursor path param) (some (.nextParams [(param, n.text)]))
  | lastCursor {path : Selector} {param : String}
      (h : path.selectOne document = none ∨ path.selectOne document = some .null ∨
        path.selectOne document = some (.string "")) :
      Marks document headers (.bodyCursor path param) none
  | header {header param c : String} (hc : c ≠ "") (h : headerNamed header headers = some c) :
      Marks document headers (.headerCursor header param) (some (.nextParams [(param, c)]))
  | lastHeader {header param : String}
      (h : headerNamed header headers = none ∨ headerNamed header headers = some "") :
      Marks document headers (.headerCursor header param) none
  | url {path : Selector} {u : String} (hu : u ≠ "")
      (h : path.selectOne document = some (.string u)) :
      Marks document headers (.nextUrl path) (some (.nextUrl u))
  | lastUrl {path : Selector}
      (h : path.selectOne document = none ∨ path.selectOne document = some .null ∨
        path.selectOne document = some (.string "")) :
      Marks document headers (.nextUrl path) none
  | link {u : String} (h : (headerNamed "link" headers).bind parseLinkNext = some u) :
      Marks document headers .linkHeader (some (.nextUrl u))
  | lastLink (h : (headerNamed "link" headers).bind parseLinkNext = none) :
      Marks document headers .linkHeader none

theorem marks_initialParams {document : Value} {headers : List (String × String)}
    {paginator : Paginator} {mark : Option Decision} (h : Marks document headers paginator mark) :
    paginator.initialParams = [] := by
  cases h <;> rfl

theorem decide_marks {context : PageContext} {document : Value} {paginator : Paginator}
    {mark : Option Decision} (h : Marks document context.headers paginator mark)
    (hbody : context.body = if paginator.needsBody then some document else none) :
    paginator.decide context = .ok (paginator, mark.getD .done) := by
  cases h with
  | single => rfl
  | cursor hc h =>
    simp [Paginator.decide, hbody, Paginator.needsBody, cursorDecision, h, hc, Except.map]
  | cursorNumber h =>
    simp [Paginator.decide, hbody, Paginator.needsBody, cursorDecision, h, Except.map]
  | lastCursor h =>
    obtain h | h | h := h <;>
      simp [Paginator.decide, hbody, Paginator.needsBody, cursorDecision, h, Except.map]
  | header hc h => simp [Paginator.decide, h, hc]
  | lastHeader h => obtain h | h := h <;> simp [Paginator.decide, h]
  | url hu h =>
    simp [Paginator.decide, hbody, Paginator.needsBody, nextUrlDecision, h, hu, Except.map]
  | lastUrl h =>
    obtain h | h | h := h <;>
      simp [Paginator.decide, hbody, Paginator.needsBody, nextUrlDecision, h, Except.map]
  | link h => simp [Paginator.decide, h]
  | lastLink h => simp [Paginator.decide, h]

theorem marks_turned {document : Value} {headers : List (String × String)}
    {paginator : Paginator} {mark : Option Decision} (h : Marks document headers paginator mark)
    (k : Nat) : paginator.turned k = paginator := by
  cases h <;> rfl

/-- Each response names the place of the page behind it, and the last one none. -/
structure Setting.Chained (setting : Setting) (course : Course) (paginator : Paginator)
    (n : Nat) : Prop extends setting.Served course n where
  first : course.place 0 = ⟨setting.endpoint.baseUrl, []⟩
  marks : ∀ k, k + 1 < n → ∃ decision,
    Marks (course.document k) (setting.answer (course.place k)).headers paginator (some decision) ∧
    Leads setting.libraries setting.endpoint decision (course.place (k + 1))
  last : ∀ k, k + 1 = n →
    Marks (course.document k) (setting.answer (course.place k)).headers paginator none

section Chained

variable {setting : Setting} {course : Course} {paginator : Paginator} {n k : Nat}

theorem chained_route (h : setting.Chained course paginator n) :
    setting.Route course paginator n where
  toServed := h.toServed
  leads := by
    intro k hk
    obtain ⟨decision, hmarks, hleads⟩ := h.marks k hk
    rw [marks_turned hmarks, marks_turned hmarks]
    exact ⟨decision, @decide_marks (setting.seen course paginator k) _ _ _ hmarks rfl, hleads⟩
  ends := by
    intro k hk
    have hmarks := h.last k hk
    rw [marks_turned hmarks]
    exact ⟨paginator, @decide_marks (setting.seen course paginator k) _ _ _ hmarks rfl⟩

theorem chained_begins (h : setting.Chained course paginator (n + 1)) :
    course.place 0 = ⟨setting.endpoint.baseUrl, paginator.initialParams⟩ := by
  have hparams : paginator.initialParams = [] := by
    cases n with
    | zero => exact marks_initialParams (h.last 0 rfl)
    | succ n =>
      obtain ⟨decision, hmarks, -⟩ := h.marks 0 (by omega)
      exact marks_initialParams hmarks
  rw [h.first, hparams]

end Chained

/-! ## Totals -/

/-- The total that a document declares at the selector. -/
def totalAt (selector : Option Selector) (document : Value) : Option UInt64 :=
  selector.bind fun selector => (selector.selectOne document).bind Value.asU64

/-- The total is declared, and no more than this. -/
def reached (selector : Option Selector) (document : Value) (bound : UInt64) : Bool :=
  (totalAt selector document).any fun total => total ≤ bound

theorem reached_eq_false {selector : Option Selector} {document : Value} {bound : UInt64}
    (h : ∀ total, totalAt selector document = some total → bound.toNat < total.toNat) :
    reached selector document bound = false := by
  cases htotal : totalAt selector document with
  | none => simp [reached, htotal]
  | some total =>
    simp [reached, htotal, UInt64.lt_iff_toNat_lt, h total htotal]

theorem reached_eq_true {selector : Option Selector} {document : Value} {bound total : UInt64}
    (htotal : totalAt selector document = some total) (h : total.toNat ≤ bound.toNat) :
    reached selector document bound = true := by
  simp [reached, htotal, UInt64.le_iff_toNat_le, h]

theorem declared_of_body {selector : Option Selector} {context : PageContext} {document : Value}
    {needsBody : Bool} (hneeds : selector.isSome = true → needsBody = true)
    (hbody : context.body = if needsBody then some document else none) :
    declared selector context = totalAt selector document := by
  cases selector with
  | none => rfl
  | some selector => simp [declared, totalAt, hbody, hneeds rfl]

/-- Whether the document of the last page tells that nothing is behind it: if no total is there, a
request for an empty page is. -/
def surplus (course : Course) (totals : List (Option Selector)) : Nat → Nat
  | 0 => 1
  | n + 1 => if totals.any fun total => (totalAt total (course.document n)).isSome then 0 else 1

theorem before_eq (course : Course) (k : Nat) :
    course.before k = ((List.range k).map course.items).flatten.length := by
  induction k with
  | zero => rfl
  | succ k ih => simp [Course.before, ih, List.range_succ]

section Surplus

variable {course : Course} {totals : List (Option Selector)} {n : Nat}

theorem surplus_le (course : Course) (totals : List (Option Selector)) (n : Nat) :
    surplus course totals n ≤ 1 := by
  cases n with
  | zero => exact Nat.le_refl 1
  | succ n =>
    rw [surplus]
    split <;> omega

/-- One more page is asked for only if no total is there. -/
theorem totalAt_of_surplus (h : surplus course totals (n + 1) ≠ 0) {selector : Option Selector}
    (hmem : selector ∈ totals) : totalAt selector (course.document n) = none := by
  rw [surplus] at h
  split at h
  · exact absurd rfl h
  · rename_i hnone
    simp only [List.any_eq_true, not_exists, not_and, Bool.not_eq_true] at hnone
    exact Option.isSome_eq_false_iff.1 (hnone selector hmem) |> Option.isNone_iff_eq_none.1

theorem untold {k : Nat} (hk : k + 1 < n + surplus course totals n) (hlast : k + 1 = n)
    {selector : Option Selector} (hmem : selector ∈ totals) :
    totalAt selector (course.document k) = none := by
  subst hlast
  exact totalAt_of_surplus (by omega) hmem

theorem told_of_no_surplus (h : surplus course totals (n + 1) = 0) :
    ∃ selector ∈ totals, ∃ total, totalAt selector (course.document n) = some total := by
  rw [surplus] at h
  split at h
  · rename_i hsome
    obtain ⟨selector, hmem, htotal⟩ := List.any_eq_true.1 hsome
    exact ⟨selector, hmem, Option.isSome_iff_exists.1 htotal⟩
  · cases h

end Surplus

/-! ## Servers of numbered pages -/

/-- The pages stand under their numbers, no page is empty up to the last, and behind it an empty
one stands if it is asked for. The totals that are declared are true. -/
structure Setting.Numbered (setting : Setting) (course : Course) (param : String) (start : UInt64)
    (totalPages totalCount : Option Selector) (pages : List (List Value)) : Prop
    extends setting.Served course
      (pages.length + surplus course [totalPages, totalCount] pages.length) where
  filled : [] ∉ pages
  items : ∀ k, course.items k = pages.getD k []
  place : ∀ k, course.place k =
    ⟨setting.endpoint.baseUrl, [(param, toString (start.toNat + k))]⟩
  fits : start.toNat + pages.length < UInt64.size
  pagesTold : ∀ k < pages.length, ∀ total, totalAt totalPages (course.document k) = some total →
    total.toNat = pages.length
  countTold : ∀ k < pages.length, ∀ total, totalAt totalCount (course.document k) = some total →
    total.toNat = pages.flatten.length

theorem flatten_getD {α : Type} (pages : List (List α)) (k : Nat) :
    ((List.range k).map fun j => pages.getD j []).flatten = (pages.take k).flatten := by
  induction k with
  | zero => rfl
  | succ k ih =>
    rw [List.range_succ, List.map_append, List.flatten_append, ih, List.take_add_one,
      List.flatten_append]
    cases hpage : pages[k]? <;> simp [List.getD, hpage]

theorem taken_lt {α : Type} {pages : List (List α)} (hfilled : [] ∉ pages) {k : Nat}
    (hk : k < pages.length) : (pages.take k).flatten.length < pages.flatten.length := by
  have hpage : 0 < pages[k].length := by
    apply List.length_pos_iff.2
    intro hempty
    exact hfilled (hempty ▸ List.getElem_mem hk)
  have hsplit : pages = pages.take k ++ pages[k] :: pages.drop (k + 1) := by
    rw [List.cons_getElem_drop_succ, List.take_append_drop]
  have hlength := congrArg (List.length ∘ List.flatten) hsplit
  simp only [Function.comp_apply, List.flatten_append, List.flatten_cons, List.length_append]
    at hlength
  omega

section Numbered

variable {setting : Setting} {course : Course} {param : String} {start : UInt64}
  {totalPages totalCount : Option Selector} {pages : List (List Value)} {k : Nat}

theorem numbered_before
    (h : setting.Numbered course param start totalPages totalCount pages) (k : Nat) :
    course.before k = (pages.take k).flatten.length := by
  rw [before_eq, ← flatten_getD, funext h.items]

theorem decide_numbered (setting : Setting) (course : Course) (param : String) (start : UInt64)
    (totalPages totalCount : Option Selector) (k : Nat) :
    ((Paginator.pageNumber param start start totalPages totalCount).turned k).decide
        (setting.seen course (.pageNumber param start start totalPages totalCount) k) =
      if (course.items k).isEmpty || reached totalPages (course.document k) (UInt64.ofNat (k + 1)) ||
          reached totalCount (course.document k) (UInt64.ofNat (course.before (k + 1))) then
        .ok ((Paginator.pageNumber param start start totalPages totalCount).turned k, .done)
      else
        .ok ((Paginator.pageNumber param start start totalPages totalCount).turned (k + 1),
          .nextParams [(param, decimal (start + UInt64.ofNat (k + 1)))]) := by
  have hpages := @declared_of_body totalPages
    (setting.seen course (.pageNumber param start start totalPages totalCount) k)
    (course.document k) (totalPages.isSome || totalCount.isSome) (by simp_all) rfl
  have hcount := @declared_of_body totalCount
    (setting.seen course (.pageNumber param start start totalPages totalCount) k)
    (course.document k) (totalPages.isSome || totalCount.isSome) (by simp_all) rfl
  have hnext : start + UInt64.ofNat k + 1 = start + UInt64.ofNat (k + 1) := by
    rw [UInt64.add_assoc, UInt64.ofNat_add]
    rfl
  have hturn : start + UInt64.ofNat k - start + 1 = UInt64.ofNat (k + 1) := by
    rw [UInt64.add_comm start, UInt64.add_sub_cancel, UInt64.ofNat_add]
    rfl
  have hempty : (setting.seen course (.pageNumber param start start totalPages totalCount)
      k).recordCount = 0 ↔ (course.items k).isEmpty = true := by
    rw [List.isEmpty_iff, ← List.length_eq_zero_iff]
    rfl
  simp only [Paginator.turned, Paginator.decide, totalCountReached, hpages, hcount, hnext, hturn,
    hempty]
  rw [← reached]
  simp only [Bool.or_eq_true, ite_or]
  rfl

/-- A page with another place behind it is filled, and no total is reached. -/
theorem numbered_leads (h : setting.Numbered course param start totalPages totalCount pages)
    (hk : k + 1 < pages.length + surplus course [totalPages, totalCount] pages.length) :
    (course.items k).isEmpty = false ∧
    reached totalPages (course.document k) (UInt64.ofNat (k + 1)) = false ∧
    reached totalCount (course.document k) (UInt64.ofNat (course.before (k + 1))) = false := by
  have hle := surplus_le course [totalPages, totalCount] pages.length
  have hpage : k < pages.length := by omega
  refine ⟨?_, ?_, ?_⟩
  · rw [h.items, List.getD_eq_getElem _ _ hpage, List.isEmpty_eq_false_iff]
    intro hempty
    exact h.filled (hempty ▸ List.getElem_mem hpage)
  · apply reached_eq_false
    intro total htotal
    have htrue := h.pagesTold k hpage total htotal
    have hmore : k + 1 ≠ pages.length := by
      intro hlast
      rw [untold hk hlast (by simp)] at htotal
      cases htotal
    have hfits := h.fits
    rw [UInt64.toNat_ofNat_of_lt' (by omega), htrue]
    omega
  · apply reached_eq_false
    intro total htotal
    have htrue := h.countTold k hpage total htotal
    have hmore : k + 1 ≠ pages.length := by
      intro hlast
      rw [untold hk hlast (by simp)] at htotal
      cases htotal
    have hless := @taken_lt _ pages h.filled (k + 1) (by omega)
    have hsize := UInt64.toNat_lt_size total
    rw [numbered_before h, UInt64.toNat_ofNat_of_lt' (by omega), htrue]
    exact hless

/-- At the last page a total is reached, and a page behind it is empty. -/
theorem numbered_ends (h : setting.Numbered course param start totalPages totalCount pages)
    (hk : k + 1 = pages.length + surplus course [totalPages, totalCount] pages.length) :
    (course.items k).isEmpty = true ∨
    reached totalPages (course.document k) (UInt64.ofNat (k + 1)) = true ∨
    reached totalCount (course.document k) (UInt64.ofNat (course.before (k + 1))) = true := by
  have hle := surplus_le course [totalPages, totalCount] pages.length
  obtain hlast | hbehind : k + 1 = pages.length ∨ pages.length = k := by omega
  · right
    rw [← hlast] at hk
    obtain ⟨selector, hmem, total, htotal⟩ := told_of_no_surplus (Nat.left_eq_add.1 hk)
    obtain rfl | rfl : selector = totalPages ∨ selector = totalCount := by simpa using hmem
    · left
      have htrue := h.pagesTold k (by omega) total htotal
      have hfits := h.fits
      apply reached_eq_true htotal
      rw [UInt64.toNat_ofNat_of_lt' (by omega)]
      omega
    · right
      have htrue := h.countTold k (by omega) total htotal
      have hsize := UInt64.toNat_lt_size total
      have hall : course.before (k + 1) = total.toNat := by
        rw [numbered_before h, hlast, List.take_length, htrue]
      apply reached_eq_true htotal
      rw [hall, UInt64.toNat_ofNat_of_lt' hsize]
  · left
    rw [h.items, List.getD_eq_default _ _ (by omega)]
    rfl

theorem numbered_route (h : setting.Numbered course param start totalPages totalCount pages) :
    setting.Route course (.pageNumber param start start totalPages totalCount)
      (pages.length + surplus course [totalPages, totalCount] pages.length) where
  toServed := h.toServed
  leads := by
    intro k hk
    obtain ⟨hfilled, hpages, hcount⟩ := numbered_leads h hk
    have hle := surplus_le course [totalPages, totalCount] pages.length
    have hfits := h.fits
    have hnumber : decimal (start + UInt64.ofNat (k + 1)) = toString (start.toNat + (k + 1)) := by
      rw [decimal, UInt64.toNat_add, UInt64.toNat_ofNat_of_lt' (by omega),
        Nat.mod_eq_of_lt (Nat.lt_of_le_of_lt (by omega) hfits)]
    rw [decide_numbered, hfilled, hpages, hcount, hnumber]
    exact ⟨_, rfl, h.place (k + 1)⟩
  ends := by
    intro k hk
    rw [decide_numbered, if_pos (by simpa [or_assoc] using numbered_ends h hk)]
    exact ⟨_, rfl⟩

end Numbered

/-! ## Servers of windows -/

/-- The number of windows of a size that are asked for: a short one is the last. -/
def windows (course : Course) (totalCount : Option Selector) (count size : Nat) : Nat :=
  count / size + if count % size = 0 then surplus course [totalCount] (count / size) else 1

/-- The window of the size stands at each offset. The totals that are declared are true. -/
structure Setting.Windowed (setting : Setting) (course : Course) (offsetParam limitParam : String)
    (pageSize : UInt64) (totalCount : Option Selector) (records : List Value) : Prop
    extends setting.Served course (windows course totalCount records.length pageSize.toNat) where
  sized : 0 < pageSize.toNat
  items : ∀ k, course.items k = (records.drop (k * pageSize.toNat)).take pageSize.toNat
  place : ∀ k, course.place k = ⟨setting.endpoint.baseUrl,
    [(offsetParam, toString (k * pageSize.toNat)), (limitParam, toString pageSize.toNat)]⟩
  fits : records.length < UInt64.size
  countTold : ∀ k, (k + 1) * pageSize.toNat ≤ records.length →
    ∀ total, totalAt totalCount (course.document k) = some total → total.toNat = records.length

theorem flatten_windows {α : Type} (records : List α) (size k : Nat) :
    ((List.range k).map fun j => (records.drop (j * size)).take size).flatten =
      records.take (k * size) := by
  induction k with
  | zero => simp
  | succ k ih =>
    rw [List.range_succ, List.map_append, List.flatten_append, ih, Nat.succ_mul, List.take_add]
    simp

/-- The windows hold everything, and one is asked for if there is nothing. -/
theorem windows_cover (course : Course) (totalCount : Option Selector) (count : Nat) {size : Nat}
    (hsize : 0 < size) : 0 < windows course totalCount count size ∧
      count ≤ windows course totalCount count size * size := by
  have hsplit := Nat.div_add_mod' count size
  have hrest := Nat.mod_lt count hsize
  rw [windows]
  split
  · rename_i hmod
    constructor
    · cases count / size with
      | zero => exact Nat.one_pos
      | succ q => exact Nat.add_pos_left (Nat.succ_pos q) _
    · rw [Nat.add_mul]
      omega
  · constructor
    · exact Nat.succ_pos _
    · rw [Nat.add_mul]
      omega

theorem decide_windowed (setting : Setting) (course : Course) (offsetParam limitParam : String)
    (pageSize : UInt64) (totalCount : Option Selector) (k : Nat) :
    ((Paginator.offsetLimit offsetParam limitParam pageSize 0 totalCount).turned k).decide
        (setting.seen course (.offsetLimit offsetParam limitParam pageSize 0 totalCount) k) =
      if (course.items k).length < pageSize.toNat ∨
          reached totalCount (course.document k) (UInt64.ofNat (course.before (k + 1))) = true then
        .ok ((Paginator.offsetLimit offsetParam limitParam pageSize 0 totalCount).turned k, .done)
      else
        .ok ((Paginator.offsetLimit offsetParam limitParam pageSize 0 totalCount).turned (k + 1),
          .nextParams (offsetParams offsetParam limitParam
            (UInt64.ofNat ((k + 1) * pageSize.toNat)) pageSize)) := by
  have hcount := @declared_of_body totalCount
    (setting.seen course (.offsetLimit offsetParam limitParam pageSize 0 totalCount) k)
    (course.document k) totalCount.isSome id rfl
  have hnext : UInt64.ofNat (k * pageSize.toNat) + pageSize =
      UInt64.ofNat ((k + 1) * pageSize.toNat) := by
    rw [Nat.succ_mul, UInt64.ofNat_add, UInt64.ofNat_toNat]
  simp only [Paginator.turned, Paginator.decide, totalCountReached, hcount, UInt64.zero_add, hnext]
  rw [← reached, ite_or]
  rfl

section Windowed

variable {setting : Setting} {course : Course} {offsetParam limitParam : String}
  {pageSize : UInt64} {totalCount : Option Selector} {records : List Value} {k : Nat}

theorem windowed_before
    (h : setting.Windowed course offsetParam limitParam pageSize totalCount records) (k : Nat) :
    course.before k = (records.take (k * pageSize.toNat)).length := by
  rw [before_eq, ← flatten_windows, funext h.items]

/-- A window with another behind it is full, and the total is not reached. -/
theorem windowed_leads
    (h : setting.Windowed course offsetParam limitParam pageSize totalCount records)
    (hk : k + 1 < windows course totalCount records.length pageSize.toNat) :
    (k + 1) * pageSize.toNat ≤ records.length ∧
    (course.items k).length = pageSize.toNat ∧
    reached totalCount (course.document k) (UInt64.ofNat (course.before (k + 1))) = false := by
  have hle := surplus_le course [totalCount] (records.length / pageSize.toNat)
  have hwhole : k + 1 ≤ records.length / pageSize.toNat := by
    rw [windows] at hk
    split at hk <;> omega
  have hroom : (k + 1) * pageSize.toNat ≤ records.length :=
    (Nat.le_div_iff_mul_le h.sized).1 hwhole
  refine ⟨hroom, ?_, ?_⟩
  · rw [h.items, List.length_take, List.length_drop]
    rw [Nat.succ_mul] at hroom
    omega
  · apply reached_eq_false
    intro total htotal
    have htrue := h.countTold k hroom total htotal
    have hmore : (k + 1) * pageSize.toNat ≠ records.length := by
      intro hlast
      have hdiv : records.length / pageSize.toNat = k + 1 := by
        rw [← hlast, Nat.mul_div_cancel _ h.sized]
      have hmod : records.length % pageSize.toNat = 0 := by
        rw [← hlast, Nat.mul_mod_left]
      rw [windows, if_pos hmod, hdiv] at hk
      rw [untold hk rfl (by simp)] at htotal
      cases htotal
    have hfits := h.fits
    rw [windowed_before h, List.length_take, Nat.min_eq_left hroom,
      UInt64.toNat_ofNat_of_lt' (by omega), htrue]
    omega

theorem windowed_ends
    (h : setting.Windowed course offsetParam limitParam pageSize totalCount records)
    (hk : k + 1 = windows course totalCount records.length pageSize.toNat) :
    (course.items k).length < pageSize.toNat ∨
    reached totalCount (course.document k) (UInt64.ofNat (course.before (k + 1))) = true := by
  have hle := surplus_le course [totalCount] (records.length / pageSize.toNat)
  have hsplit := Nat.div_add_mod' records.length pageSize.toNat
  have hrest := Nat.mod_lt records.length h.sized
  rw [h.items, List.length_take, List.length_drop]
  rw [windows] at hk
  split at hk
  · rename_i hmod
    obtain hlast | hbehind : k + 1 = records.length / pageSize.toNat ∨
        k = records.length / pageSize.toNat := by omega
    · right
      rw [← hlast] at hk hsplit
      obtain ⟨selector, hmem, total, htotal⟩ := told_of_no_surplus (Nat.left_eq_add.1 hk)
      obtain rfl : selector = totalCount := by simpa using hmem
      have hall : (k + 1) * pageSize.toNat = records.length := by omega
      have htrue := h.countTold k (by omega) total htotal
      have hfits := h.fits
      apply reached_eq_true htotal
      rw [windowed_before h, hall, List.take_length, UInt64.toNat_ofNat_of_lt' hfits, htrue]
    · left
      rw [← hbehind] at hsplit
      omega
  · left
    have hlast : k = records.length / pageSize.toNat := by omega
    rw [← hlast] at hsplit
    omega

theorem windowed_route
    (h : setting.Windowed course offsetParam limitParam pageSize totalCount records) :
    setting.Route course (.offsetLimit offsetParam limitParam pageSize 0 totalCount)
      (windows course totalCount records.length pageSize.toNat) where
  toServed := h.toServed
  leads := by
    intro k hk
    obtain ⟨hroom, hfull, hcount⟩ := windowed_leads h hk
    have hfits := h.fits
    have hparams : offsetParams offsetParam limitParam
        (UInt64.ofNat ((k + 1) * pageSize.toNat)) pageSize =
          [(offsetParam, toString ((k + 1) * pageSize.toNat)),
            (limitParam, toString pageSize.toNat)] := by
      rw [offsetParams, decimal, UInt64.toNat_ofNat_of_lt' (by omega), decimal]
    rw [decide_windowed, if_neg (by simp [hfull, hcount]), hparams]
    exact ⟨_, rfl, h.place (k + 1)⟩
  ends := by
    intro k hk
    rw [decide_windowed, if_pos (windowed_ends h hk)]
    exact ⟨_, rfl⟩

end Windowed

/-! ## Whole reads -/

/-- A result set behind a paginator as the source builds it, and the number of requests for it. -/
inductive Setting.Lists (setting : Setting) : Paginator → List Value → Nat → Prop
  | chained {course : Course} {paginator : Paginator} {n : Nat}
      (h : setting.Chained course paginator (n + 1)) :
      setting.Lists paginator ((List.range (n + 1)).map course.items).flatten (n + 1)
  | numbered {course : Course} {param : String} {start : UInt64}
      {totalPages totalCount : Option Selector} {pages : List (List Value)}
      (h : setting.Numbered course param start totalPages totalCount pages) :
      setting.Lists (.pageNumber param start start totalPages totalCount) pages.flatten
        (pages.length + surplus course [totalPages, totalCount] pages.length)
  | windowed {course : Course} {offsetParam limitParam : String} {pageSize : UInt64}
      {totalCount : Option Selector} {records : List Value}
      (h : setting.Windowed course offsetParam limitParam pageSize totalCount records) :
      setting.Lists (.offsetLimit offsetParam limitParam pageSize 0 totalCount) records
        (windows course totalCount records.length pageSize.toNat)

/-- A read to its end, of so many requests, whose pages carry the records once and in order. -/
structure Setting.ReadsWhole (setting : Setting) (records : List Value) (n : Nat)
    (t : Transcript) : Prop where
  requests : t.requests.length = n
  pages : t.pages.length = n
  carries : ∃ items, items.flatten = records ∧
    List.Forall₂ (fun (exchange : PageRequest × Page) items =>
      exchange.2.Carries setting.libraries (setting.serve exchange.1).body items)
      (t.requests.zip t.pages) items
  ending : t.ending = .complete

section Whole

variable {setting : Setting} {course : Course} {t : Transcript} {paginator : Paginator}
  {records : List Value} {n : Nat}

theorem carries_zip {places : List Nat} {pages : List Page}
    (h : List.Forall₂ (fun k p => Page.Carries p setting.libraries
      (setting.answer (course.place k)).body (course.items k)) places pages) :
    List.Forall₂ (fun (exchange : PageRequest × Page) items =>
      exchange.2.Carries setting.libraries (setting.serve exchange.1).body items)
      ((places.map fun k => setting.request (course.place k)).zip pages)
      (places.map course.items) := by
  induction h with
  | nil => exact .nil
  | cons hpage _ ih => exact .cons hpage ih

theorem whole_of_reads {places : List Nat} (h : setting.Reads course places t) :
    setting.ReadsWhole (places.map course.items).flatten places.length t where
  requests := by rw [h.requests, List.length_map]
  pages := h.pages.length_eq.symm
  carries := ⟨places.map course.items, rfl, h.requests ▸ carries_zip h.pages⟩
  ending := h.ending

theorem whole_of_route (hroute : setting.Route course paginator n) (hn : 0 < n)
    (hmax : n ≤ setting.endpoint.config.maxPages.toNat)
    (hbegins : course.place 0 = ⟨setting.endpoint.baseUrl, paginator.initialParams⟩)
    (hrecords : ((List.range n).map course.items).flatten = records) :
    ∃ t, setting.read (t.requests.map setting.serve)
        (.new paginator setting.incremental setting.startValue) = t ∧
      setting.ReadsWhole records n t := by
  obtain ⟨m, rfl⟩ := Nat.exists_eq_add_one_of_ne_zero hn.ne'
  have hreads := reads_route hroute hmax hbegins
  have hwhole := whole_of_reads hreads
  rw [hrecords, List.length_range] at hwhole
  refine ⟨_, ?_, hwhole⟩
  rw [hreads.requests, List.map_map]
  rfl

/-- From a server that keeps to the conventions of the paginator's family, a sequence reads every
record of the result set once and in order, with the requests that the declared totals leave. -/
theorem read_whole (h : setting.Lists paginator records n)
    (hmax : n ≤ setting.endpoint.config.maxPages.toNat) :
    ∃ t, setting.read (t.requests.map setting.serve)
        (.new paginator setting.incremental setting.startValue) = t ∧
      setting.ReadsWhole records n t := by
  cases h with
  | chained h =>
    exact whole_of_route (chained_route h) (Nat.succ_pos _) hmax (chained_begins h) rfl
  | @numbered course param start totalPages totalCount pages h =>
    have hpos : 0 < pages.length + surplus course [totalPages, totalCount] pages.length := by
      cases pages with
      | nil => exact Nat.one_pos
      | cons page pages => exact Nat.add_pos_left (Nat.succ_pos _) _
    apply whole_of_route (numbered_route h) hpos hmax
    · rw [h.place 0]
      rfl
    · rw [funext h.items, flatten_getD, List.take_of_length_le (Nat.le_add_right _ _)]
  | @windowed course offsetParam limitParam pageSize totalCount records h =>
    obtain ⟨hpos, hcover⟩ := windows_cover course totalCount records.length h.sized
    apply whole_of_route (windowed_route h) hpos hmax
    · rw [h.place 0, Nat.zero_mul]
      rfl
    · rw [funext h.items, flatten_windows, List.take_of_length_le hcover]

end Whole

/-- Two numbered pages that tell how many there are. -/
def shelf (items : List Value) : Value :=
  .object [("items", .array items), ("pages", .number (.unsigned 2))]

def shelves : List (List Value) := [[row 1, row 2], [row 3]]

def shelfAt (k : Nat) : Value := shelf (shelves.getD k [])

def shelfJson (text : List Char) : Except String Value :=
  if text = (shelfAt 0).render then .ok (shelfAt 0)
  else if text = (shelfAt 1).render then .ok (shelfAt 1) else .error "expected value"

def shelfStream : Stream :=
  { name := "items", path := "/items", pagination := .page "page" 1 (some "pages") none }

def shelfSetting : Setting where
  libraries := { plainLibraries with parseJson := shelfJson }
  endpoint := ⟨{ baseUrl := "https://api.example.com", streams := [shelfStream] }, shelfStream, none,
    false⟩
  selector := some ⟨[.field "items"], "items"⟩
  incremental := none
  startValue := none
  serve := fun request =>
    ⟨200, [], (shelfAt (if request.query = [("page", "1")] then 0 else 1)).render, none⟩

def shelfCourse : Course where
  place := fun k => ⟨"https://api.example.com/items".toList, [("page", toString (1 + k))]⟩
  items := fun k => shelves.getD k []
  document := shelfAt

def pageCount : Option Selector := some ⟨[.field "pages"], "pages"⟩

theorem shelf_surplus : surplus shelfCourse [pageCount, none] 2 = 0 := by decide +kernel

theorem shelf_place (k : Nat) : shelfCourse.place k =
    ⟨shelfSetting.endpoint.baseUrl, [("page", toString ((1 : UInt64).toNat + k))]⟩ := by
  have hbase : shelfSetting.endpoint.baseUrl = "https://api.example.com/items".toList := by
    decide +kernel
  rw [hbase]
  rfl

theorem shelf_answer (k : Nat) : shelfSetting.answer (shelfCourse.place k) =
    ⟨200, [], (shelfAt (if toString (1 + k) = "1" then 0 else 1)).render, none⟩ := by
  have hquery : (shelfSetting.request (shelfCourse.place k)).query = [("page", toString (1 + k))] :=
    rfl
  change Response.mk 200 [] (shelfAt (if (shelfSetting.request (shelfCourse.place k)).query =
    [("page", "1")] then 0 else 1)).render none = _
  rw [hquery]
  simp only [List.cons.injEq, Prod.mk.injEq, and_true, true_and]

theorem shelf_parses (k : Nat) (hk : k < 2) : shelfJson (shelfAt k).render = .ok (shelfAt k) := by
  have hother : (shelfAt 1).render ≠ (shelfAt 0).render := by decide +kernel
  obtain rfl | rfl : k = 0 ∨ k = 1 := by omega
  · exact if_pos rfl
  · rw [shelfJson, if_neg hother, if_pos rfl]

theorem shelf_gives (k : Nat) (hk : k < 2) :
    shelfSetting.Gives (shelfSetting.answer (shelfCourse.place k)) (shelfCourse.document k)
      (shelfCourse.items k) := by
  have hpage : (if toString (1 + k) = "1" then 0 else 1) = k := by
    obtain rfl | rfl : k = 0 ∨ k = 1 := by omega
    · decide +kernel
    · decide +kernel
  rw [shelf_answer, hpage]
  exact ⟨rfl, rfl, shelf_parses k hk, .inl rfl⟩

theorem shelf_numbered : shelfSetting.Numbered shelfCourse "page" 1 pageCount none shelves where
  gives := by
    intro k hk
    apply shelf_gives
    have htold := shelf_surplus
    change k < 2 + surplus shelfCourse [pageCount, none] 2 at hk
    omega
  apart := by decide +kernel
  filled := by simp [shelves]
  items := fun _ => rfl
  place := shelf_place
  fits := by decide
  pagesTold := by
    intro k _ total htotal
    cases htotal
    rfl
  countTold := by
    intro k _ total htotal
    cases htotal

/-- The three records of two pages are read with two requests. -/
theorem read_whole_of_shelves : ∃ t, shelfSetting.read (t.requests.map shelfSetting.serve)
      (.new (.pageNumber "page" 1 1 pageCount none) none none) = t ∧
    shelfSetting.ReadsWhole [row 1, row 2, row 3] 2 t := by
  have h := read_whole (.numbered shelf_numbered) (by decide +kernel)
  exact h

end Rest
