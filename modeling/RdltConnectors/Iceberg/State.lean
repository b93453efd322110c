import Mathlib.Data.List.AList
import Mathlib.Data.List.Induction
import Mathlib.Data.Prod.Lex
import Mathlib.Data.String.Basic
import RdltConnectors.Library.Surplus

/-!
# The marker table's properties

The state document of each pipeline and the receipt of each load are properties of one
marker table. A stamp writes both in one commit: the receipt merges with the recorded one
by the larger sequence, and the oldest receipts of the stamping scope are removed. What is
set and removed is worked out from the properties it is planned on, and applied to those
the library finds.
-/
namespace Iceberg

open Surplus

def propStatePrefix : String := "rdlt.state."

def stateTable : String := "_rdlt_state"

def stateKey (scope : String) : String := propStatePrefix ++ scope

def propReceiptPrefix : String := "rdlt.receipt."

/-- How many receipts of a scope are retained. -/
def receiptRetention : Nat := 8

def receiptKey (loadId : String) : String := propReceiptPrefix ++ loadId

def isReceiptKey (key : String) : Bool := propReceiptPrefix.toList.isPrefixOf key.toList

structure ReceiptStamp where
  loadId : String
  commitSeq : Nat
  deriving DecidableEq, Repr

structure ReceiptRecord where
  commitSeq : Nat
  stampedAtMs : Nat
  scope : Option String
  deriving DecidableEq, Repr

/-- A property's value: the text of a receipt record, or any other text. -/
inductive Property where
  | receipt (recorded : ReceiptRecord)
  | text (value : String)
  deriving DecidableEq, Repr

abbrev Properties := AList fun _ : String => Property

/-- A value decoded; what is not a receipt record decodes to nothing. -/
def receiptEntry : Property → Option ReceiptRecord
  | .receipt recorded => some recorded
  | .text _ => none

/-- The reader's view: the highest committed sequence and the stamp's time. -/
def receiptRecord (value : Property) : Option (Nat × Nat) :=
  (receiptEntry value).map fun recorded => (recorded.commitSeq, recorded.stampedAtMs)

/-- The time a stamp of `scope` orders a receipt by; another scope's receipt has none. -/
def pruneTime (scope : String) (value : Property) : Option Nat :=
  match receiptEntry value with
  | some ⟨_, ms, some owner⟩ => if owner = scope then some ms else none
  -- no record or no scope: it prunes ahead of anything real
  | _ => some 0

/-- The property at hand, if a stamp of `scope` under `key` may prune it, with its age. -/
def prunable (scope key : String) (entry : (_ : String) × Property) : Option (Nat ×ₗ String) :=
  if isReceiptKey entry.1 = true ∧ entry.1 ≠ key then
    (pruneTime scope entry.2).map fun ms => toLex (ms, entry.1)
  else none

/-- The record a stamp sets under its load's key, and the stale keys it removes. -/
def receiptDelta (properties : Properties) (stamp : ReceiptStamp) (scope : String) (nowMs : Nat) :
    ReceiptRecord × List String :=
  let key := receiptKey stamp.loadId
  let recorded := (properties.lookup key).bind receiptRecord
  let seq := (recorded.map fun entry => max entry.1 stamp.commitSeq).getD stamp.commitSeq
  let own := properties.entries.filterMap (prunable scope key)
  let excess := own.length + 1 - receiptRetention
  (⟨seq, nowMs, some scope⟩, (oldest excess own).map fun entry => (ofLex entry).2)

/-- What one property commit is made of. -/
structure PropertyCommit where
  scope : String
  stateJson : String
  stamp : ReceiptStamp
  nowMs : Nat
  deriving DecidableEq, Repr

def PropertyCommit.delta (c : PropertyCommit) (properties : Properties) :
    ReceiptRecord × List String := receiptDelta properties c.stamp c.scope c.nowMs

/-- A property commit as the library is handed it: the receipt to set and the stale keys to
remove, which are receipts of other loads. -/
structure PropertyAction extends PropertyCommit where
  recorded : ReceiptRecord
  stale : List String
  receipts : ∀ key ∈ stale, isReceiptKey key = true
  others : receiptKey stamp.loadId ∉ stale
  deriving DecidableEq

/-- The properties after a commit: the document and the receipt set, the stale keys removed. -/
def PropertyAction.apply (action : PropertyAction) (properties : Properties) : Properties :=
  action.stale.foldl (fun left stale => left.erase stale)
    ((properties.insert (stateKey action.scope) (.text action.stateJson)).insert
      (receiptKey action.stamp.loadId) (.receipt action.recorded))

/-- The properties a sequence of commits makes of those it starts from. -/
def propertiesAfter (start : Properties) (actions : List PropertyAction) : Properties :=
  actions.foldl (fun properties action => action.apply properties) start

/-- The highest sequence recorded for a load; a value out of shape is an error. -/
def readReceipt (ident : String) (marker : Option Properties) (loadId : String) :
    Except String (Option Nat) :=
  match marker with
  | none => .ok none
  | some properties =>
    match properties.lookup (receiptKey loadId) with
    | none => .ok none
    | some (.receipt recorded) => .ok (some recorded.commitSeq)
    | some (.text value) => .error ("receipt property `" ++ receiptKey loadId ++ "` on `" ++ ident ++
        "` is not the recorded shape: `" ++ value ++ "`")

def readStateDoc (marker : Option Properties) (scope : String) : Option Property :=
  marker.bind fun properties => properties.lookup (stateKey scope)

/-! ## The keys -/

theorem receiptKey_injective {a b : String} (h : receiptKey a = receiptKey b) : a = b :=
  (String.append_right_inj propReceiptPrefix).1 h

theorem stateKey_injective {a b : String} (h : stateKey a = stateKey b) : a = b :=
  (String.append_right_inj propStatePrefix).1 h

theorem isReceiptKey_iff {key : String} :
    isReceiptKey key = true ↔ ∃ loadId, key = receiptKey loadId := by
  rw [isReceiptKey, List.isPrefixOf_iff_prefix]
  constructor
  · rintro ⟨rest, hrest⟩
    refine ⟨String.ofList rest, String.ext ?_⟩
    rw [receiptKey, String.toList_append, String.toList_ofList, hrest]
  · rintro ⟨loadId, rfl⟩
    exact ⟨loadId.toList, by rw [receiptKey, String.toList_append]⟩

/-- No state document is under a receipt's key: the two prefixes part at their sixth letter. -/
theorem stateKey_ne_receiptKey (scope loadId : String) : stateKey scope ≠ receiptKey loadId := by
  intro h
  have hchar := congrArg (fun key => key.toList[5]?) h
  simp [stateKey, receiptKey, propStatePrefix, propReceiptPrefix] at hchar

theorem stateKey_not_receipt (scope : String) : isReceiptKey (stateKey scope) = false := by
  rw [Bool.eq_false_iff]
  intro h
  obtain ⟨loadId, heq⟩ := isReceiptKey_iff.1 h
  exact stateKey_ne_receiptKey scope loadId heq

/-! ## What a commit removes -/

theorem prunable_eq_some {scope key : String} {entry : (_ : String) × Property}
    {aged : Nat ×ₗ String} :
    prunable scope key entry = some aged ↔ isReceiptKey entry.1 = true ∧ entry.1 ≠ key ∧
      pruneTime scope entry.2 = some (ofLex aged).1 ∧ (ofLex aged).2 = entry.1 := by
  unfold prunable
  split
  · next hkey =>
    rw [Option.map_eq_some_iff]
    constructor
    · rintro ⟨ms, hms, rfl⟩
      exact ⟨hkey.1, hkey.2, hms, rfl⟩
    · rintro ⟨-, -, hms, hname⟩
      exact ⟨(ofLex aged).1, hms, by rw [← hname]; rfl⟩
  · next hkey =>
    constructor
    · intro h
      cases h
    · rintro ⟨hreceipt, hne, -⟩
      exact absurd ⟨hreceipt, hne⟩ hkey

/-- The receipts a commit may prune. -/
def PropertyCommit.own (c : PropertyCommit) (properties : Properties) : List (Nat ×ₗ String) :=
  properties.entries.filterMap (prunable c.scope (receiptKey c.stamp.loadId))

variable {c : PropertyCommit} {properties : Properties}

theorem mem_own {aged : Nat ×ₗ String} :
    aged ∈ c.own properties ↔ isReceiptKey (ofLex aged).2 = true ∧
      (ofLex aged).2 ≠ receiptKey c.stamp.loadId ∧ ∃ value,
        properties.lookup (ofLex aged).2 = some value ∧
        pruneTime c.scope value = some (ofLex aged).1 := by
  rw [PropertyCommit.own, List.mem_filterMap]
  constructor
  · rintro ⟨⟨key, value⟩, hmem, haged⟩
    obtain ⟨hreceipt, hne, htime, hname⟩ := prunable_eq_some.1 haged
    rw [hname]
    exact ⟨hreceipt, hne, value, AList.mem_lookup_iff.2 hmem, htime⟩
  · rintro ⟨hreceipt, hne, value, hlookup, htime⟩
    exact ⟨⟨(ofLex aged).2, value⟩, AList.mem_lookup_iff.1 hlookup,
      prunable_eq_some.2 ⟨hreceipt, hne, htime, rfl⟩⟩

/-- A key is there once, so it is a candidate once. -/
theorem own_nodup : (c.own properties).Nodup := by
  apply List.pairwise_filterMap.2
  apply (List.nodupKeys_iff_pairwise.1 properties.nodupKeys).imp
  intro entry entry' hne aged haged aged' haged' heq
  apply hne
  rw [← (prunable_eq_some.1 haged).2.2.2, ← (prunable_eq_some.1 haged').2.2.2, heq]

theorem mem_removed {key : String} (h : key ∈ (c.delta properties).2) :
    ∃ ms, toLex (ms, key) ∈
      oldest ((c.own properties).length + 1 - receiptRetention) (c.own properties) := by
  obtain ⟨aged, haged, rfl⟩ := List.mem_map.1 h
  exact ⟨(ofLex aged).1, haged⟩

/-- Only receipts are removed, none of another scope's, and never the load's own. -/
theorem removed_prunable {key : String} (h : key ∈ (c.delta properties).2) :
    isReceiptKey key = true ∧ key ≠ receiptKey c.stamp.loadId ∧
      ∃ value ms, properties.lookup key = some value ∧ pruneTime c.scope value = some ms := by
  obtain ⟨ms, hms⟩ := mem_removed h
  obtain ⟨hreceipt, hne, value, hlookup, htime⟩ := mem_own.1 (mem_of_mem_oldest hms)
  exact ⟨hreceipt, hne, value, ms, hlookup, htime⟩

/-- What a commit hands to the library, planned on these properties. -/
def PropertyCommit.action (c : PropertyCommit) (properties : Properties) : PropertyAction where
  toPropertyCommit := c
  recorded := (c.delta properties).1
  stale := (c.delta properties).2
  receipts := fun _ h => (removed_prunable h).1
  others := fun h => (removed_prunable h).2.1 rfl

/-- What is removed has `receiptRetention - 1` others that are no older. -/
theorem younger_of_removed {key : String} {value : Property} {ms : Nat}
    (h : key ∈ (c.delta properties).2) (hvalue : properties.lookup key = some value)
    (hms : pruneTime c.scope value = some ms) :
    ∃ younger : List String, younger.Nodup ∧ younger.length = receiptRetention - 1 ∧
      ∀ other ∈ younger, isReceiptKey other = true ∧ other ≠ receiptKey c.stamp.loadId ∧
        other ≠ key ∧ ∃ value' ms', properties.lookup other = some value' ∧
          pruneTime c.scope value' = some ms' ∧ ms ≤ ms' := by
  obtain ⟨time, htime⟩ := mem_removed h
  obtain ⟨-, -, value₁, hlookup₁, hms₁⟩ := mem_own.1 (mem_of_mem_oldest htime)
  obtain rfl : value₁ = value := Option.some.inj (hlookup₁.symm.trans hvalue)
  obtain rfl : time = ms := Option.some.inj (hms₁.symm.trans hms)
  obtain ⟨kept, hnodup, hlength, hkept⟩ := younger_of_mem_oldest own_nodup htime
  have hcount : 0 < (c.own properties).length + 1 - receiptRetention := by
    apply Nat.pos_of_ne_zero
    intro hzero
    rw [hzero, oldest, List.take_zero] at htime
    cases htime
  have hinj : ∀ a ∈ kept, ∀ b ∈ kept, (ofLex a).2 = (ofLex b).2 → a = b := by
    intro a ha b hb hname
    obtain ⟨-, -, va, hva, hta⟩ := mem_own.1 (hkept a ha).1
    obtain ⟨-, -, vb, hvb, htb⟩ := mem_own.1 (hkept b hb).1
    rw [hname] at hva
    obtain rfl : va = vb := Option.some.inj (hva.symm.trans hvb)
    exact congrArg toLex (Prod.ext (Option.some.inj (hta.symm.trans htb)) hname)
  refine ⟨kept.map fun entry => (ofLex entry).2, hnodup.map_on hinj, ?_, ?_⟩
  · rw [List.length_map, hlength]
    omega
  · intro other hother
    obtain ⟨aged, haged, rfl⟩ := List.mem_map.1 hother
    obtain ⟨hmem, hlt⟩ := hkept aged haged
    obtain ⟨hreceipt, hne, value', hlookup', hms'⟩ := mem_own.1 hmem
    refine ⟨hreceipt, hne, ?_, value', (ofLex aged).1, hlookup', hms', ?_⟩
    · intro heq
      rw [heq, hvalue] at hlookup'
      obtain rfl := Option.some.inj hlookup'
      have hsame : (ofLex aged).1 = time := Option.some.inj (hms'.symm.trans hms)
      exact absurd hlt (by rw [← congrArg toLex (Prod.ext hsame heq : ofLex aged = (time, key))]; exact lt_irrefl _)
    · rcases Prod.Lex.lt_iff.1 hlt with hlt | ⟨heq, -⟩
      · exact hlt.le
      · exact heq.le

/-! ## What a commit leaves -/

theorem lookup_eraseAll (stale : List String) (left : Properties) (key : String) :
    (stale.foldl (fun left stale => left.erase stale) left).lookup key =
      if key ∈ stale then none else left.lookup key := by
  induction stale generalizing left with
  | nil => rfl
  | cons first stale ih =>
    rw [List.foldl_cons, ih]
    by_cases hfirst : key = first
    · rw [hfirst, AList.lookup_erase, if_pos List.mem_cons_self, ite_self]
    · rw [AList.lookup_erase_ne hfirst]
      simp only [List.mem_cons, hfirst, false_or]

namespace PropertyAction

variable (action : PropertyAction)

theorem apply_receipt :
    (action.apply properties).lookup (receiptKey action.stamp.loadId) =
      some (.receipt action.recorded) := by
  rw [apply, lookup_eraseAll, if_neg action.others, AList.lookup_insert]

theorem apply_document :
    (action.apply properties).lookup (stateKey action.scope) =
      some (.text action.stateJson) := by
  have hstate : stateKey action.scope ∉ action.stale := by
    intro h
    have hreceipt := action.receipts _ h
    rw [stateKey_not_receipt] at hreceipt
    cases hreceipt
  rw [apply, lookup_eraseAll, if_neg hstate,
    AList.lookup_insert_ne (stateKey_ne_receiptKey _ _), AList.lookup_insert]

variable {action}

/-- Every other property stays as it was, or is removed. -/
theorem apply_other {key : String} (hreceipt : key ≠ receiptKey action.stamp.loadId)
    (hstate : key ≠ stateKey action.scope) :
    (action.apply properties).lookup key =
      if key ∈ action.stale then none else properties.lookup key := by
  rw [apply, lookup_eraseAll, AList.lookup_insert_ne hreceipt, AList.lookup_insert_ne hstate]

/-- What is neither set nor removed stays as it was. -/
theorem apply_kept {key : String} (hreceipt : key ≠ receiptKey action.stamp.loadId)
    (hstate : key ≠ stateKey action.scope) (hkept : key ∉ action.stale) :
    (action.apply properties).lookup key = properties.lookup key := by
  rw [apply_other hreceipt hstate, if_neg hkept]

/-- Another scope's document is no receipt, so it is not removed. -/
theorem apply_otherDocument {scope : String} (hscope : action.scope ≠ scope) :
    (action.apply properties).lookup (stateKey scope) = properties.lookup (stateKey scope) := by
  apply apply_kept (stateKey_ne_receiptKey _ _) fun heq => hscope (stateKey_injective heq).symm
  intro h
  have hreceipt := action.receipts _ h
  rw [stateKey_not_receipt] at hreceipt
  cases hreceipt

end PropertyAction

/-- A receipt of another scope, and whatever is not a receipt, is not removed by a commit
planned on it. -/
theorem kept_foreign {key : String} {value : Property} (hlookup : properties.lookup key = some value)
    (hforeign : isReceiptKey key = false ∨ pruneTime c.scope value = none) :
    key ∉ (c.action properties).stale := by
  intro h
  obtain ⟨hkey, -, value', ms, hvalue', hms⟩ := removed_prunable h
  obtain rfl := Option.some.inj (hvalue'.symm.trans hlookup)
  cases hforeign with
  | inl hno => exact absurd hkey (by rw [hno]; exact Bool.false_ne_true)
  | inr hnone => exact absurd hms (by rw [hnone]; exact nofun)

theorem pruneTime_of_foreign {scope owner : String} {seq ms : Nat} (h : owner ≠ scope) :
    pruneTime scope (.receipt ⟨seq, ms, some owner⟩) = none := if_neg h

/-- What the commit's own receipt says of itself. -/
theorem delta_record (c : PropertyCommit) (properties : Properties) :
    (c.delta properties).1.stampedAtMs = c.nowMs ∧
      (c.delta properties).1.scope = some c.scope ∧
      c.stamp.commitSeq ≤ (c.delta properties).1.commitSeq := by
  refine ⟨rfl, rfl, ?_⟩
  change c.stamp.commitSeq ≤ Option.getD _ c.stamp.commitSeq
  cases ((properties.lookup (receiptKey c.stamp.loadId)).bind receiptRecord) with
  | none => exact Nat.le_refl _
  | some entry => exact Nat.le_max_right entry.1 c.stamp.commitSeq

/-- The merge never lowers a recorded sequence. -/
theorem delta_commitSeq {recorded : ReceiptRecord}
    (h : properties.lookup (receiptKey c.stamp.loadId) = some (.receipt recorded)) :
    (c.delta properties).1.commitSeq = max recorded.commitSeq c.stamp.commitSeq := by
  change Option.getD (Option.map _ ((properties.lookup (receiptKey c.stamp.loadId)).bind
    receiptRecord)) c.stamp.commitSeq = _
  rw [h]
  rfl

theorem delta_first (h : properties.lookup (receiptKey c.stamp.loadId) = none) :
    (c.delta properties).1.commitSeq = c.stamp.commitSeq := by
  change Option.getD (Option.map _ ((properties.lookup (receiptKey c.stamp.loadId)).bind
    receiptRecord)) c.stamp.commitSeq = _
  rw [h]
  rfl

theorem propertiesAfter_append (start : Properties) (before after : List PropertyAction) :
    propertiesAfter start (before ++ after) = propertiesAfter (propertiesAfter start before) after :=
  List.foldl_append

theorem propertiesAfter_snoc (start : Properties) (actions : List PropertyAction)
    (action : PropertyAction) :
    propertiesAfter start (actions ++ [action]) = action.apply (propertiesAfter start actions) :=
  propertiesAfter_append start actions [action]

/-! ## Where a receipt comes from -/

/-- A receipt that was not there at the start is as the load's last commit wrote it. -/
theorem last_stamp {start : Properties} {loadId : String} {value : Property}
    (hstart : start.lookup (receiptKey loadId) = none) (actions : List PropertyAction)
    (h : (propertiesAfter start actions).lookup (receiptKey loadId) = some value) :
    ∃ before action after, actions = before ++ action :: after ∧
      action.stamp.loadId = loadId ∧ (∀ d ∈ after, d.stamp.loadId ≠ loadId) ∧
      value = .receipt action.recorded := by
  induction actions using List.reverseRecOn with
  | nil =>
    change start.lookup _ = _ at h
    rw [hstart] at h
    cases h
  | append_singleton actions d ih =>
    rw [propertiesAfter_snoc] at h
    by_cases hload : d.stamp.loadId = loadId
    · subst hload
      rw [d.apply_receipt] at h
      exact ⟨actions, d, [], rfl, rfl, nofun, (Option.some.inj h).symm⟩
    · have hother := h
      rw [PropertyAction.apply_other (fun heq => hload (receiptKey_injective heq).symm)
        (stateKey_ne_receiptKey _ _).symm] at hother
      split at hother
      · cases hother
      · obtain ⟨before, action, after, rfl, haction, hlast, hvalue⟩ := ih hother
        refine ⟨before, action, after ++ [d], by rw [List.append_assoc]; rfl, haction, ?_, hvalue⟩
        intro e he
        obtain he | he := List.mem_append.1 he
        · exact hlast e he
        · exact List.mem_singleton.1 he ▸ hload

/-- A scope's document stays until the scope commits again. -/
theorem document_stays {scope : String} {value : Property} {before : Properties}
    (h : before.lookup (stateKey scope) = some value) (after : List PropertyAction)
    (hscope : ∀ d ∈ after, d.scope ≠ scope) :
    (propertiesAfter before after).lookup (stateKey scope) = some value := by
  induction after using List.reverseRecOn with
  | nil => exact h
  | append_singleton after d ih =>
    rw [propertiesAfter_snoc, PropertyAction.apply_otherDocument]
    · exact ih fun e he => hscope e (List.mem_append_left _ he)
    · exact hscope d (List.mem_append_right _ List.mem_cons_self)

end Iceberg
