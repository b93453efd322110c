import Mathlib.Data.List.TakeWhile
import RdltConnectors.Library.Fallible

/-!
# Readers and grammars

A reader walks over a list and hands on what it takes off the front. A grammar says which
lists stand for which values. A reader is exact for a grammar when it takes just what the
grammar derives and leaves the rest untouched; exact readers compose the way their grammars
do, and no list of an exact reader's grammar continues another one.
-/
namespace Grammar

open Fallible

variable {α ε β γ : Type}

/-- A list and a place in it. -/
structure Reader (α : Type) where
  bytes : List α
  position : Nat
  inside : position ≤ bytes.length

/-- What is still to be read. -/
def Reader.rest (r : Reader α) : List α := r.bytes.drop r.position

def Reader.isDone (r : Reader α) : Bool := decide (r.position = r.bytes.length)

abbrev Parse (α ε : Type) := StateT (Reader α) (Except ε)

/-- The window of the next so many elements, when there are so many. -/
def take (truncated : ε) (count : Nat) : Parse α ε (List α) := fun r =>
  if h : r.position + count ≤ r.bytes.length then
    .ok ((r.bytes.drop r.position).take count, ⟨r.bytes, r.position + count, h⟩)
  else .error truncated

def fail (error : ε) : Parse α ε β := fun _ => .error error

/-- Refuse a count that the whole list cannot hold. -/
def bounded (count : Nat) (exceeds : ε) (p : Parse α ε β) : Parse α ε β := fun r =>
  if count > r.bytes.length then .error exceeds else p r

def repeated (p : Parse α ε β) : Nat → Parse α ε (List β)
  | 0 => pure []
  | count + 1 => do
    let first ← p
    let others ← repeated p count
    return first :: others

/-- Read a whole list. -/
def whole (trailing : ε) (p : Parse α ε β) (bytes : List α) : Except ε β := do
  let (value, r) ← p ⟨bytes, 0, Nat.zero_le _⟩
  if r.isDone then return value else throw trailing

/-! ## Exact readers -/

/-- The reader takes what the grammar derives, and leaves the rest. -/
def Takes (p : Parse α ε β) (G : β → List α → Prop) : Prop :=
  ∀ r a r', p r = .ok (a, r') ↔ r'.bytes = r.bytes ∧ ∃ front, G a front ∧ r.rest = front ++ r'.rest

/-- One grammar behind another. -/
def Seq (G : β → List α → Prop) (H : β → γ → List α → Prop) (c : γ) (bytes : List α) : Prop :=
  ∃ a front behind, G a front ∧ H a c behind ∧ bytes = front ++ behind

theorem Reader.length_rest (r : Reader α) : r.rest.length = r.bytes.length - r.position :=
  List.length_drop

theorem Reader.ext_rest {r r' : Reader α} (hbytes : r.bytes = r'.bytes) (hrest : r.rest = r'.rest) :
    r = r' := by
  have hlength := congrArg List.length hrest
  rw [r.length_rest, r'.length_rest] at hlength
  have hinside := r.inside
  have hinside' := r'.inside
  cases r
  cases r'
  dsimp only at hbytes hlength hinside hinside'
  subst hbytes
  congr 1
  omega

/-- A reader that has taken a front off is that much further. -/
theorem Reader.eq_advance {r r' : Reader α} {front : List α} (hbytes : r'.bytes = r.bytes)
    (hrest : r.rest = front ++ r'.rest) :
    ∃ h : r.position + front.length ≤ r.bytes.length,
      r' = ⟨r.bytes, r.position + front.length, h⟩ := by
  have hlength := congrArg List.length hrest
  rw [r.length_rest, List.length_append, r'.length_rest, hbytes] at hlength
  have hinside := r.inside
  have hinside' := r'.inside
  rw [hbytes] at hinside'
  refine ⟨by omega, ?_⟩
  cases r'
  dsimp only at hbytes hlength hinside'
  subst hbytes
  congr 1
  omega

theorem isDone_iff (r : Reader α) : r.isDone = true ↔ r.rest = [] := by
  have hinside := r.inside
  rw [Reader.isDone, decide_eq_true_eq, ← List.length_eq_zero_iff, r.length_rest]
  omega

variable {p : Parse α ε β} {G G' : β → List α → Prop}

theorem Takes.congr (h : Takes p G) (hG : ∀ a bytes, G a bytes ↔ G' a bytes) : Takes p G' := by
  intro r a r'
  rw [h r a r']
  exact and_congr_right fun _ => exists_congr fun front => and_congr_left fun _ => hG a front

theorem takes_pure (a : β) : Takes (pure a : Parse α ε β) fun b bytes => b = a ∧ bytes = [] := by
  intro r b r'
  constructor
  · intro h
    cases h
    exact ⟨rfl, [], ⟨rfl, rfl⟩, rfl⟩
  · rintro ⟨hbytes, front, ⟨rfl, rfl⟩, hrest⟩
    have hsame : r = r' := Reader.ext_rest hbytes.symm hrest
    rw [hsame]
    rfl

theorem takes_fail (error : ε) : Takes (fail error : Parse α ε β) fun _ _ => False := by
  intro r a r'
  constructor
  · intro h
    cases h
  · rintro ⟨-, front, hfalse, -⟩
    exact hfalse.elim

theorem Takes.bind {k : β → Parse α ε γ} {H : β → γ → List α → Prop} (hp : Takes p G)
    (hk : ∀ a, Takes (k a) (H a)) : Takes (p >>= k) (Seq G H) := by
  intro r c r'
  have hrun : (p >>= k) r = .ok (c, r') ↔ ∃ a s, p r = .ok (a, s) ∧ k a s = .ok (c, r') := by
    change (p r >>= fun (a, s) => k a s) = _ ↔ _
    rw [bind_ok]
    exact Prod.exists
  rw [hrun]
  constructor
  · rintro ⟨a, s, hfirst, hsecond⟩
    obtain ⟨hbytes, front, hG, hrest⟩ := (hp r a s).1 hfirst
    obtain ⟨hbytes', behind, hH, hrest'⟩ := (hk a s c r').1 hsecond
    refine ⟨hbytes'.trans hbytes, front ++ behind, ⟨a, front, behind, hG, hH, rfl⟩, ?_⟩
    rw [hrest, hrest', List.append_assoc]
  · rintro ⟨hbytes, bytes, ⟨a, front, behind, hG, hH, rfl⟩, hrest⟩
    have hlength := congrArg List.length hrest
    rw [r.length_rest, List.length_append, List.length_append] at hlength
    have hinside := r.inside
    -- the place between the two
    let s : Reader α := ⟨r.bytes, r.position + front.length, by omega⟩
    have hs : s.rest = behind ++ r'.rest := by
      have hdrop : s.rest = r.rest.drop front.length := (List.drop_drop ..).symm
      rw [hdrop, hrest, List.append_assoc, List.drop_left]
    refine ⟨a, s, (hp r a s).2 ⟨rfl, front, hG, ?_⟩, (hk a s c r').2 ⟨hbytes, behind, hH, hs⟩⟩
    rw [hs, hrest, List.append_assoc]

theorem Takes.ite {c : Prop} [Decidable c] {q : Parse α ε β} {H : β → List α → Prop}
    (hp : c → Takes p G) (hq : ¬ c → Takes q H) :
    Takes (if c then p else q) fun a bytes => if c then G a bytes else H a bytes := by
  by_cases h : c
  · simp only [if_pos h]
    exact hp h
  · simp only [if_neg h]
    exact hq h

theorem takes_take (truncated : ε) (count : Nat) :
    Takes (take truncated count : Parse α ε (List α)) fun window bytes =>
      bytes = window ∧ window.length = count := by
  intro r window r'
  constructor
  · intro h
    rw [take] at h
    split at h
    · rename_i hinside
      cases h
      refine ⟨rfl, _, ⟨rfl, ?_⟩, ?_⟩
      · rw [List.length_take, List.length_drop]
        omega
      · rw [Reader.rest, Reader.rest, ← List.drop_drop]
        exact (List.take_append_drop ..).symm
    · cases h
  · rintro ⟨hbytes, front, ⟨rfl, rfl⟩, hrest⟩
    obtain ⟨hfits, rfl⟩ := Reader.eq_advance hbytes hrest
    rw [take, dif_pos hfits, ← Reader.rest, hrest, List.take_left]

/-- Up to a terminator, which is taken too. -/
def upTo [DecidableEq α] (unterminated : ε) (mark : α) : Parse α ε (List α) := fun r =>
  let piece := r.rest.takeWhile (· ≠ mark)
  if h : r.position + piece.length + 1 ≤ r.bytes.length then
    .ok (piece, ⟨r.bytes, r.position + piece.length + 1, h⟩)
  else .error unterminated

theorem takes_upTo [DecidableEq α] (unterminated : ε) (mark : α) :
    Takes (upTo unterminated mark : Parse α ε (List α)) fun piece bytes =>
      bytes = piece ++ [mark] ∧ mark ∉ piece := by
  intro r piece r'
  constructor
  · intro h
    rw [upTo] at h
    split at h
    · rename_i hinside
      cases h
      -- a terminator was there, so what follows the piece begins with it
      have hsplit := List.takeWhile_append_dropWhile (p := (· ≠ mark)) (l := r.rest)
      generalize hpiece : r.rest.takeWhile (· ≠ mark) = piece at hsplit hinside ⊢
      have hlength := congrArg List.length hsplit
      rw [List.length_append, r.length_rest] at hlength
      cases hdrop : r.rest.dropWhile (· ≠ mark) with
      | nil =>
        rw [hdrop, List.length_nil] at hlength
        omega
      | cons c more =>
        have hhead := List.head?_dropWhile_not (· ≠ mark) r.rest
        obtain rfl : c = mark := by
          rw [hdrop] at hhead
          simpa using hhead
        rw [hdrop] at hsplit
        have hbehind : r.bytes.drop (r.position + piece.length + 1) = more := by
          rw [Nat.add_assoc, ← List.drop_drop, ← Reader.rest, ← hsplit, List.append_cons]
          exact List.drop_left' (by simp)
        refine ⟨rfl, piece ++ [c], ⟨rfl, ?_⟩, ?_⟩
        · intro hmem
          rw [← hpiece] at hmem
          simpa using List.mem_takeWhile_imp hmem
        · rw [← hsplit, Reader.rest, hbehind, List.append_assoc]
          rfl
    · cases h
  · rintro ⟨hbytes, front, ⟨rfl, hmark⟩, hrest⟩
    obtain ⟨hfits, rfl⟩ := Reader.eq_advance hbytes hrest
    have htake : r.rest.takeWhile (· ≠ mark) = piece := by
      have hpiece : ∀ c ∈ piece, (fun c => decide (c ≠ mark)) c = true := by
        intro c hc
        exact decide_eq_true fun he => hmark (he ▸ hc)
      rw [hrest, List.append_assoc, List.takeWhile_append_of_pos hpiece]
      simp
    rw [List.length_append] at hfits
    simp only [upTo, htake]
    rw [dif_pos (by simpa [Nat.add_assoc] using hfits)]
    simp [Nat.add_assoc]

theorem Takes.bounded (h : Takes p G) {count : Nat} (exceeds : ε)
    (hcount : ∀ a bytes, G a bytes → count ≤ bytes.length) : Takes (bounded count exceeds p) G := by
  intro r a r'
  rw [Grammar.bounded]
  split
  · rename_i hexceeds
    constructor
    · intro hrun
      cases hrun
    · rintro ⟨-, front, hG, hrest⟩
      have hlength := congrArg List.length hrest
      rw [r.length_rest, List.length_append] at hlength
      have hfront := hcount a front hG
      omega
  · exact h r a r'

/-- So many pieces of one grammar. -/
inductive Many (G : β → List α → Prop) : List β → List α → Prop
  | nil : Many G [] []
  | cons {a as front behind} : G a front → Many G as behind → Many G (a :: as) (front ++ behind)

theorem Takes.repeated (h : Takes p G) (count : Nat) :
    Takes (repeated p count) fun as bytes => as.length = count ∧ Many G as bytes := by
  induction count with
  | zero =>
    refine (takes_pure []).congr fun as bytes => ?_
    constructor
    · rintro ⟨rfl, rfl⟩
      exact ⟨rfl, .nil⟩
    · rintro ⟨hlength, hmany⟩
      cases hmany with
      | nil => exact ⟨rfl, rfl⟩
      | cons => cases hlength
  | succ count ih =>
    refine (h.bind fun a => ih.bind fun as => takes_pure (a :: as)).congr fun as bytes => ?_
    constructor
    · rintro ⟨a, front, behind, hG, ⟨others, middle, last, ⟨rfl, hmany⟩, ⟨rfl, rfl⟩, rfl⟩, rfl⟩
      rw [List.append_nil]
      exact ⟨rfl, .cons hG hmany⟩
    · rintro ⟨hlength, hmany⟩
      cases hmany with
      | nil => cases hlength
      | @cons a others front behind hG hmany =>
        exact ⟨a, front, behind, hG, ⟨others, behind, [], ⟨Nat.succ.inj hlength, hmany⟩, ⟨rfl, rfl⟩,
          (List.append_nil _).symm⟩, rfl⟩

/-- Pieces that are written from something are written one after the other. -/
theorem many_written {P : γ → Prop} {value : γ → β} {written : γ → List α} {as : List β}
    {bytes : List α} :
    Many (fun a front => ∃ w, P w ∧ a = value w ∧ front = written w) as bytes ↔
      ∃ ws : List γ, (∀ w ∈ ws, P w) ∧ as = ws.map value ∧ bytes = ws.flatMap written := by
  constructor
  · intro h
    induction h with
    | nil => exact ⟨[], by simp, rfl, rfl⟩
    | cons hG _ ih =>
      obtain ⟨w, hw, rfl, rfl⟩ := hG
      obtain ⟨ws, hws, rfl, rfl⟩ := ih
      exact ⟨w :: ws, List.forall_mem_cons.2 ⟨hw, hws⟩, rfl, rfl⟩
  · rintro ⟨ws, hws, rfl, rfl⟩
    induction ws with
    | nil => exact .nil
    | cons w ws ih =>
      obtain ⟨hw, hws⟩ := List.forall_mem_cons.1 hws
      exact .cons ⟨w, hw, rfl, rfl⟩ (ih hws)

theorem length_le_flatMap {written : γ → List α} (hne : ∀ w, written w ≠ []) (ws : List γ) :
    ws.length ≤ (ws.flatMap written).length := by
  induction ws with
  | nil => exact Nat.le_refl _
  | cons w ws ih =>
    have hw := List.length_pos_iff.2 (hne w)
    rw [List.flatMap_cons, List.length_cons, List.length_append]
    omega

/-- So many written pieces, and what is made of them. -/
theorem Takes.collected {P : γ → Prop} {value : γ → β} {written : γ → List α} {δ : Type}
    (h : Takes p fun a front => ∃ w, P w ∧ a = value w ∧ front = written w) (count : Nat)
    (f : List β → δ) :
    Takes (Grammar.repeated p count >>= fun as => pure (f as)) fun d bytes =>
      ∃ ws : List γ, (∀ w ∈ ws, P w) ∧ ws.length = count ∧ d = f (ws.map value) ∧
        bytes = ws.flatMap written := by
  refine ((h.repeated count).bind fun as => takes_pure (f as)).congr fun d bytes => ?_
  constructor
  · rintro ⟨as, front, behind, ⟨rfl, hmany⟩, ⟨rfl, rfl⟩, rfl⟩
    obtain ⟨ws, hws, rfl, rfl⟩ := many_written.1 hmany
    exact ⟨ws, hws, (List.length_map _).symm, rfl, List.append_nil _⟩
  · rintro ⟨ws, hws, rfl, rfl, rfl⟩
    exact ⟨ws.map value, _, [], ⟨List.length_map _, many_written.2 ⟨ws, hws, rfl, rfl⟩⟩,
      ⟨rfl, rfl⟩, (List.append_nil _).symm⟩

/-- A piece that its value spells, and what follows it. -/
theorem seq_written {P : β → Prop} {written : β → List α} {H : β → γ → List α → Prop} {c : γ}
    {bytes : List α} :
    Seq (fun a front => P a ∧ front = written a) H c bytes ↔
      ∃ a behind, P a ∧ H a c behind ∧ bytes = written a ++ behind := by
  constructor
  · rintro ⟨a, front, behind, ⟨hP, rfl⟩, hH, rfl⟩
    exact ⟨a, behind, hP, hH, rfl⟩
  · rintro ⟨a, behind, hP, hH, rfl⟩
    exact ⟨a, _, behind, ⟨hP, rfl⟩, hH, rfl⟩

/-! ## Whole lists -/

/-- Reading a whole list is deriving it. -/
theorem Takes.whole_iff (h : Takes p G) (trailing : ε) (bytes : List α) (a : β) :
    whole trailing p bytes = .ok a ↔ G a bytes := by
  have hstart : (⟨bytes, 0, Nat.zero_le _⟩ : Reader α).rest = bytes := rfl
  rw [whole, bind_ok]
  constructor
  · rintro ⟨⟨b, r⟩, hrun, hdone⟩
    obtain ⟨-, front, hG, hrest⟩ := (h _ b r).1 hrun
    by_cases hempty : r.isDone = true
    · rw [hstart, (isDone_iff r).1 hempty, List.append_nil] at hrest
      obtain rfl : b = a := by simpa [hempty, pure, Except.pure] using hdone
      exact hrest ▸ hG
    · simp [hempty, throw, throwThe, MonadExceptOf.throw] at hdone
  · intro hG
    let r : Reader α := ⟨bytes, bytes.length, Nat.le_refl _⟩
    have hr : r.rest = [] := List.drop_length
    refine ⟨(a, r), (h _ a r).2 ⟨rfl, bytes, hG, ?_⟩, ?_⟩
    · rw [hstart, hr, List.append_nil]
    · exact if_pos ((isDone_iff r).2 hr)

/-- No list of the grammar continues another one. -/
theorem Takes.prefix_free (h : Takes p G) {a b : β} {front more : List α} (hfront : G a front)
    (hwhole : G b (front ++ more)) : more = [] := by
  let start : Reader α := ⟨front ++ more, 0, Nat.zero_le _⟩
  let r : Reader α := ⟨front ++ more, front.length, by simp⟩
  let r' : Reader α := ⟨front ++ more, (front ++ more).length, Nat.le_refl _⟩
  have hr : r.rest = more := List.drop_left
  have hr' : r'.rest = [] := List.drop_length
  have hrun : p start = .ok (a, r) :=
    (h start a r).2 ⟨rfl, front, hfront, by rw [hr]; rfl⟩
  have hrun' : p start = .ok (b, r') :=
    (h start b r').2 ⟨rfl, front ++ more, hwhole, by rw [hr', List.append_nil]; rfl⟩
  rw [hrun] at hrun'
  injection hrun' with hpair
  injection hpair with _ hplace
  rw [← hr, hplace, hr']

end Grammar
