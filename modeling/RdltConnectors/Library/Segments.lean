import RdltConnectors.Library.Whatwg

/-!
# The path of a URL

What stands behind the authority up to a query or a fragment is cut at its slashes, and
segments that spell one or two dots are taken out. The escapes that single characters of a
segment are written with are left out.
-/
namespace Whatwg

/-- Within the path. -/
def inPath (c : Char) : Bool := c ≠ '?' && c ≠ '#'

/-- How many dots a text spells, where `%2e` is one in either case; none for any other text. -/
def dots : List Char → Option Nat
  | [] => some 0
  | '.' :: rest => (dots rest).map (· + 1)
  | '%' :: '2' :: e :: rest => if e = 'e' ∨ e = 'E' then (dots rest).map (· + 1) else none
  | _ => none

/-- A segment with a slash behind it. -/
def enter (stack : List (List Char)) (segment : List Char) : List (List Char) :=
  if dots segment = some 2 then stack.dropLast
  else if dots segment = some 1 then stack
  else stack ++ [segment]

def enterLast (stack : List (List Char)) (segment : List Char) : List (List Char) :=
  if dots segment = some 2 then stack.dropLast ++ [[]]
  else if dots segment = some 1 then stack ++ [[]]
  else stack ++ [segment]

def removeDots (stack : List (List Char)) : List (List Char) → List (List Char)
  | [] => stack
  | [last] => enterLast stack last
  | segment :: next :: more => removeDots (enter stack segment) (next :: more)

/-- What stands between the slashes of a path, behind its first one. -/
def cut : List Char → List (List Char)
  | [] => [[]]
  | _ :: path => path.splitOnP slash

/-- The segments of a URL's path. -/
def Url.segments (url : Url) : List (List Char) := removeDots [] (cut (url.rest.takeWhile inPath))

/-- Its query and its fragment, with the marks in front of them. -/
def Url.tail (url : Url) : List Char := url.rest.dropWhile inPath

/-- The segments of what stands behind an authority, as they are when a slash follows. -/
def baseSegments : List Char → List (List Char)
  | [] => []
  | _ :: path => (path.splitOnP slash).foldl enter []

example : Url.segments ⟨"https".toList, none, none, none, "/v1/./a/.%2E/b/%2e?x".toList⟩ =
    ["v1".toList, "b".toList, []] := by decide +kernel

/-! ## Taking dots out -/

section Dots

variable {stack : List (List Char)} {segment : List Char}

theorem enter_plain (h₁ : dots segment ≠ some 1) (h₂ : dots segment ≠ some 2) :
    enter stack segment = stack ++ [segment] := by
  rw [enter, if_neg h₂, if_neg h₁]

theorem enter_dots (stack : List (List Char)) (h : dots segment = some 1 ∨ dots segment = some 2) :
    (enter stack segment).length ≤ stack.length := by
  obtain h | h := h
  · simp [enter, h]
  · simp [enter, h]

theorem enterLast_length : (enterLast stack segment).length ≤ stack.length + 1 := by
  rw [enterLast]
  split
  · rw [List.length_append, List.length_dropLast, List.length_singleton]
    omega
  · split <;> simp

theorem enter_length (stack : List (List Char)) (segment : List Char) :
    (enter stack segment).length ≤ stack.length + 1 := by
  rw [enter]
  split
  · rw [List.length_dropLast]
    omega
  · split <;> simp

/-- Segments only get fewer. -/
theorem removeDots_length (stack segments : List (List Char)) :
    (removeDots stack segments).length ≤ stack.length + segments.length := by
  induction segments generalizing stack with
  | nil => exact Nat.le_refl _
  | cons segment more ih =>
    cases more with
    | nil => exact enterLast_length
    | cons next more =>
      have hrest := ih (enter stack segment)
      have hone := enter_length stack segment
      rw [removeDots]
      simp only [List.length_cons] at hrest ⊢
      omega

/-- None of them goes when only the last one may be dots. -/
theorem removeDots_plain (init : List (List Char))
    (h : ∀ segment ∈ init, dots segment ≠ some 1 ∧ dots segment ≠ some 2)
    (stack : List (List Char)) (last : List Char) :
    removeDots stack (init ++ [last]) = enterLast (stack ++ init) last := by
  induction init generalizing stack with
  | nil => rw [List.append_nil]; rfl
  | cons segment more ih =>
    obtain ⟨h₁, h₂⟩ := h segment List.mem_cons_self
    have hstep : removeDots stack (segment :: more ++ [last]) =
        removeDots (enter stack segment) (more ++ [last]) := by
      cases more <;> rfl
    rw [hstep, enter_plain h₁ h₂, ih (fun other hother => h other (List.mem_cons_of_mem _ hother)),
      List.append_assoc, List.singleton_append]

/-- One goes for good when it has another behind it. -/
theorem removeDots_fewer (init : List (List Char)) (last : List Char)
    (h : ∃ segment ∈ init, dots segment = some 1 ∨ dots segment = some 2)
    (stack : List (List Char)) :
    (removeDots stack (init ++ [last])).length < stack.length + (init.length + 1) := by
  induction init generalizing stack with
  | nil =>
    obtain ⟨segment, hmem, -⟩ := h
    cases hmem
  | cons segment more ih =>
    have hstep : removeDots stack (segment :: more ++ [last]) =
        removeDots (enter stack segment) (more ++ [last]) := by
      cases more <;> rfl
    rw [hstep, List.length_cons]
    obtain ⟨dotted, hmem, hdots⟩ := h
    obtain rfl | hmem := List.mem_cons.mp hmem
    · have hrest := removeDots_length (enter stack dotted) (more ++ [last])
      have hone := enter_dots stack hdots
      rw [List.length_append, List.length_singleton] at hrest
      omega
    · have hrest := ih ⟨dotted, hmem, hdots⟩ (enter stack segment)
      have hone := enter_length stack segment
      omega

end Dots

/-! ## What is joined to a front -/

theorem removeDots_append (init : List (List Char)) {segments : List (List Char)}
    (hne : segments ≠ []) (stack : List (List Char)) :
    removeDots stack (init ++ segments) = removeDots (init.foldl enter stack) segments := by
  induction init generalizing stack with
  | nil => rfl
  | cons segment more ih =>
    have hstep : removeDots stack (segment :: more ++ segments) =
        removeDots (enter stack segment) (more ++ segments) := by
      cases hmore : more ++ segments with
      | nil => exact absurd (List.append_eq_nil_iff.mp hmore).2 hne
      | cons next rest => rw [List.cons_append, hmore, removeDots]
    rw [hstep, ih, List.foldl_cons]

theorem cut_join (front behind : List Char) : ∃ init, cut (front ++ '/' :: behind) =
    init ++ behind.splitOnP slash ∧ init.foldl enter [] = baseSegments front := by
  cases front with
  | nil => exact ⟨[], rfl, rfl⟩
  | cons c path => exact ⟨path.splitOnP slash, List.splitOnP_append_cons path behind rfl, rfl⟩

section Join

variable {url : Url} {front behind : List Char}

theorem segments_join (hrest : url.rest = front ++ '/' :: behind)
    (hfront : ∀ c ∈ front, inPath c = true) :
    url.segments = removeDots (baseSegments front) ((behind.takeWhile inPath).splitOnP slash) := by
  rw [Url.segments, hrest, List.takeWhile_append_of_pos hfront, List.takeWhile_cons_of_pos rfl]
  obtain ⟨init, hcut, hbase⟩ := cut_join front (behind.takeWhile inPath)
  rw [hcut, removeDots_append _ (List.splitOnP_ne_nil _ _), hbase]

theorem tail_join (hrest : url.rest = front ++ '/' :: behind)
    (hfront : ∀ c ∈ front, inPath c = true) : url.tail = behind.dropWhile inPath := by
  rw [Url.tail, hrest, List.dropWhile_append_of_pos hfront, List.dropWhile_cons_of_pos rfl]

/-- A query or a fragment in front takes all of it. -/
theorem tail_swallows (hrest : url.rest = front ++ '/' :: behind)
    (hfront : ¬ ∀ c ∈ front, inPath c = true) : behind.length < url.tail.length := by
  have hne : front.dropWhile inPath ≠ [] := by
    rw [ne_eq, List.dropWhile_eq_nil_iff]
    exact hfront
  rw [Url.tail, hrest, List.dropWhile_append, if_neg (by simpa using hne), List.length_append,
    List.length_cons]
  omega

end Join

/-- The segments that a text at the end of a URL has. -/
def endSegments (text : List Char) : List (List Char) :=
  ((cleanEnd text).takeWhile inPath).splitOnP slash

def endTail (text : List Char) : List Char := (cleanEnd text).dropWhile inPath

theorem cleanEnd_slash (text : List Char) : cleanEnd ('/' :: text) = '/' :: cleanEnd text := by
  rw [cleanEnd, ← List.nil_append ('/' :: text), rdropWhile_append_cons [] rfl]
  rfl

theorem endSegments_slash (text : List Char) :
    endSegments ('/' :: text) = [] :: endSegments text := by
  rw [endSegments, cleanEnd_slash, List.takeWhile_cons_of_pos rfl]
  exact List.splitOnP_append_cons [] _ rfl

theorem endTail_slash (text : List Char) : endTail ('/' :: text) = endTail text := by
  rw [endTail, cleanEnd_slash, List.dropWhile_cons_of_pos rfl]
  rfl

/-- Without the slashes that come first there are no more segments. -/
theorem endSegments_dropWhile (text : List Char) :
    (endSegments (text.dropWhile (· = '/'))).length ≤ (endSegments text).length := by
  induction text with
  | nil => exact Nat.le_refl _
  | cons c text ih =>
    by_cases hc : c = '/'
    · subst hc
      rw [List.dropWhile_cons_of_pos (by simp), endSegments_slash, List.length_cons]
      omega
    · rw [List.dropWhile_cons_of_neg (by simpa using hc)]

theorem endTail_dropWhile (text : List Char) :
    endTail (text.dropWhile (· = '/')) = endTail text := by
  induction text with
  | nil => rfl
  | cons c text ih =>
    by_cases hc : c = '/'
    · subst hc
      rw [List.dropWhile_cons_of_pos (by simp), endTail_slash, ih]
    · rw [List.dropWhile_cons_of_neg (by simpa using hc)]

theorem endTail_length (text : List Char) : (endTail text).length ≤ (cleanEnd text).length :=
  (List.dropWhile_suffix inPath).length_le

/-! ## Spelling dots -/

/-- A text with some of its dots written as `%2E`. -/
inductive Respelled : List Char → List Char → Prop where
  | nil : Respelled [] []
  | same {x y : List Char} (c : Char) (h : Respelled x y) : Respelled (c :: x) (c :: y)
  | dot {x y : List Char} (h : Respelled x y) : Respelled ('.' :: x) ('%' :: '2' :: 'E' :: y)

theorem Respelled.refl (x : List Char) : Respelled x x := by
  induction x with
  | nil => exact .nil
  | cons c x ih => exact .same c ih

theorem Respelled.isEmpty {x y : List Char} (h : Respelled x y) : y.isEmpty = x.isEmpty := by
  cases h <;> rfl

theorem Respelled.append {x y x' y' : List Char} (h : Respelled x y) (h' : Respelled x' y') :
    Respelled (x ++ x') (y ++ y') := by
  induction h with
  | nil => exact h'
  | same c _ ih => exact .same c ih
  | dot _ ih => exact .dot ih

theorem dots_other {c : Char} (hdot : c ≠ '.') (hpercent : c ≠ '%') (rest : List Char) :
    dots (c :: rest) = none := by
  simp [dots, hdot, hpercent]

theorem dots_percent {rest : List Char} (h : ∀ e more, rest ≠ '2' :: e :: more) :
    dots ('%' :: rest) = none := by
  cases rest with
  | nil => rfl
  | cons c rest =>
    cases rest with
    | nil => simp [dots]
    | cons e more =>
      have hc : c ≠ '2' := by
        rintro rfl
        exact h e more rfl
      simp [dots, hc]

theorem dots_respelled {x y : List Char} (h : Respelled x y) : dots y = dots x := by
  induction x using dots.induct generalizing y with
  | case1 =>
    cases h
    rfl
  | case2 rest ih =>
    cases h with
    | same c h => simp only [dots, ih h]
    | dot h => simp [dots, ih h]
  | case3 e rest he ih =>
    cases h with
    | same _ h =>
      cases h with
      | same _ h =>
        cases h with
        | same _ h => simp only [dots, ih h]
        | dot h => simp at he
  | case4 e rest he =>
    cases h with
    | same _ h =>
      cases h with
      | same _ h =>
        cases h with
        | same _ h => simp [dots, he]
        | dot h => simp [dots]
  | case5 x hnil hdot hpercent =>
    cases h with
    | nil => exact absurd rfl hnil
    | dot h => exact absurd rfl (hdot _)
    | same c h =>
      rename_i x y
      by_cases hc : c = '%'
      · subst hc
        have hshort : ∀ e more, y ≠ '2' :: e :: more := by
          rintro e more rfl
          cases h with
          | same _ h =>
            cases h with
            | same _ h => exact hpercent _ _ rfl
            | dot h => exact hpercent _ _ rfl
        rw [dots_percent hshort, dots_percent]
        rintro e more rfl
        exact hpercent e more rfl
      · have hdot' : c ≠ '.' := by
          rintro rfl
          exact hdot _ rfl
        rw [dots_other hdot' hc, dots_other hdot' hc]

/-- Every percent sign of dots begins one. -/
theorem dots_behind_percent {front behind : List Char} {n : Nat}
    (h : dots (front ++ '%' :: behind) = some n) :
    ∃ e more, behind = '2' :: e :: more ∧ (e = 'e' ∨ e = 'E') := by
  induction htext : front ++ '%' :: behind using dots.induct generalizing front n with
  | case1 => simp at htext
  | case2 rest ih =>
    rw [htext, dots, Option.map_eq_some_iff] at h
    obtain ⟨m, hm, -⟩ := h
    cases front with
    | nil => cases htext
    | cons c front =>
      cases htext
      exact ih hm rfl
  | case3 e rest he ih =>
    rw [htext, dots, if_pos he, Option.map_eq_some_iff] at h
    obtain ⟨m, hm, -⟩ := h
    obtain _ | ⟨c, _ | ⟨d, _ | ⟨f, front⟩⟩⟩ := front
    · cases htext
      exact ⟨e, rest, rfl, he⟩
    · cases htext
    · cases htext
      obtain he | he := he <;> cases he
    · cases htext
      exact ih hm rfl
  | case4 e rest he =>
    rw [htext, dots, if_neg he] at h
    cases h
  | case5 x hnil hdot hpercent =>
    rw [htext, dots.eq_4 x hnil hdot hpercent] at h
    cases h

theorem dots_chars {text : List Char} {n : Nat} (h : dots text = some n) :
    ∀ c ∈ text, c = '.' ∨ c = '%' ∨ c = '2' ∨ c = 'e' ∨ c = 'E' := by
  induction text using dots.induct generalizing n with
  | case1 => exact nofun
  | case2 rest ih =>
    rw [dots, Option.map_eq_some_iff] at h
    obtain ⟨m, hm, -⟩ := h
    intro c hc
    obtain rfl | hc := List.mem_cons.mp hc
    · exact .inl rfl
    · exact ih hm c hc
  | case3 e rest he ih =>
    rw [dots, if_pos he, Option.map_eq_some_iff] at h
    obtain ⟨m, hm, -⟩ := h
    intro c hc
    simp only [List.mem_cons] at hc
    obtain rfl | rfl | rfl | hc := hc
    · exact .inr (.inl rfl)
    · exact .inr (.inr (.inl rfl))
    · exact .inr (.inr (.inr he))
    · exact ih hm c hc
  | case4 e rest he =>
    rw [dots, if_neg he] at h
    cases h
  | case5 x hnil hdot hpercent =>
    rw [dots.eq_4 x hnil hdot hpercent] at h
    cases h

end Whatwg
