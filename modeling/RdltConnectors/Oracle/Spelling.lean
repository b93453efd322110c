import RdltConnectors.Oracle.Cursor

/-!
# Watermarks that spell one number twice

A number has many texts. Between texts of different numbers the comparison is that of the
numbers, and a text is the same as itself. Two texts of one number are neither compared as equal
nor recognized as the mark that is already held.
-/
namespace Oracle

open Digits

/-- The number that a text is taken for. -/
def Spells (text : String) (d : Decimal) : Prop :=
  decimalParts text = some (d.negative, d.whole, d.fraction)

/-- Every text that is taken apart spells a number. -/
theorem spells_of_parts {text : String} (h : (decimalParts text).isSome = true) :
    ∃ d, Spells text d := by
  obtain ⟨⟨negative, whole, fraction⟩, hparts⟩ := Option.isSome_iff_exists.mp h
  have hdigits := hparts
  unfold decimalParts at hdigits
  dsimp only at hdigits
  split at hdigits
  · exact absurd hdigits nofun
  · rename_i hgood
    obtain ⟨hne, hgood⟩ := not_or.mp hgood
    obtain ⟨hwhole, hfraction⟩ := not_or.mp hgood
    obtain ⟨-, rfl, rfl⟩ := Prod.mk.injEq .. ▸ Option.some.inj hdigits
    exact ⟨⟨negative, _, _, hne, not_not.mp hwhole, not_not.mp hfraction⟩, hparts⟩

theorem spells_unique {text : String} {d e : Decimal} (hd : Spells text d) (he : Spells text e) :
    d = e := by
  have hparts := Option.some.inj (hd.symm.trans he)
  cases d
  cases e
  simp_all

theorem magnitudeLess_self (d : Decimal) :
    magnitudeLess d.whole d.fraction d.whole d.fraction = false := by
  apply Bool.eq_false_iff.mpr
  rw [Ne, Decimal.magnitudeLess_iff]
  exact lt_irrefl _

theorem watermarkLess_self {text : String} {d : Decimal} (h : Spells text d) :
    watermarkLess text text = false := by
  rw [watermarkLess, h]
  dsimp only
  unfold decimalLess
  cases hneg : d.negative <;> simp [magnitudeLess_self]

theorem watermarkLess_spells {a b : String} {d e : Decimal} (ha : Spells a d) (hb : Spells b e)
    (h : d.value ≠ e.value) : watermarkLess a b = true ↔ d.value < e.value := by
  rw [watermarkLess, ha, hb]
  exact Decimal.decimalLess_iff h

/-- What the order of watermarks is for: the texts compare as their numbers do, a stream's mark
is not lowered, and at an equal one the tie moves on. -/
def OrdersByValue (a b : String) (d e : Decimal) : Prop :=
  (watermarkLess a b = true ↔ d.value < e.value) ∧
    ∀ (cursor : OracleCursor) (stream : String) (held tie : Option String),
      cursor.streams.lookup stream = some ⟨a, held⟩ →
      ∃ mark f moved, (cursor.advance stream b tie).streams.lookup stream = some ⟨mark, moved⟩ ∧
        Spells mark f ∧ d.value ≤ f.value ∧ (d.value = e.value → moved = tie)

/-- One text is compared right with itself. -/
theorem orders_same {a : String} {d : Decimal} (ha : Spells a d) : OrdersByValue a a d d := by
  have hless := watermarkLess_self ha
  refine ⟨by simp [hless], fun cursor stream held tie hlookup => ⟨a, d, tie, ?_, ha, le_rfl, fun _ => rfl⟩⟩
  rw [OracleCursor.advance, hlookup]
  dsimp only
  rw [hless, if_neg Bool.false_ne_true, if_pos rfl]
  exact AList.lookup_insert _

theorem orders_different {a b : String} {d e : Decimal} (ha : Spells a d) (hb : Spells b e)
    (h : d.value ≠ e.value) : OrdersByValue a b d e := by
  have hless := watermarkLess_spells ha hb h
  have hne : a ≠ b := by
    rintro rfl
    exact h (congrArg Decimal.value (spells_unique ha hb))
  refine ⟨hless, fun cursor stream held tie hlookup => ?_⟩
  rw [OracleCursor.advance, hlookup]
  dsimp only
  split
  · rename_i hmoves
    exact ⟨b, e, tie, AList.lookup_insert _, hb, (hless.mp hmoves).le, fun _ => rfl⟩
  · exact ⟨a, d, held, hlookup, ha, le_rfl, fun heq => absurd heq h⟩

/-- Another text of the same number is taken for a later one, or the tie behind it is lost. -/
theorem not_orders_respelled {a b : String} {d e : Decimal} (hvalue : d.value = e.value) (hne : a ≠ b) : ¬OrdersByValue a b d e := by
  rintro ⟨hless, hadvance⟩
  let cursor : OracleCursor :=
    { OracleCursor.default with streams := OracleCursor.default.streams.insert "s" ⟨a, none⟩ }
  have hlookup : cursor.streams.lookup "s" = some ⟨a, none⟩ := AList.lookup_insert _
  have hnot : watermarkLess a b ≠ true := fun h => absurd (hless.mp h) (hvalue ▸ lt_irrefl _)
  have hkept : cursor.advance "s" b (some "tie") = cursor := by
    rw [OracleCursor.advance, hlookup]
    dsimp only
    rw [if_neg hnot, if_neg hne]
  obtain ⟨mark, f, moved, hafter, -, -, htie⟩ := hadvance cursor "s" none (some "tie") hlookup
  rw [hkept, hlookup] at hafter
  obtain ⟨-, hmoved⟩ := StreamCursor.mk.inj (Option.some.inj hafter)
  rw [← hmoved] at htie
  exact absurd (htie hvalue) nofun

/-- Two texts are ordered by their numbers exactly when they do not spell one number in two
ways. -/
theorem orders_by_value_iff {a b : String} {d e : Decimal} (ha : Spells a d) (hb : Spells b e) :
    OrdersByValue a b d e ↔ (d.value = e.value → a = b) := by
  constructor
  · intro horders hvalue
    by_contra hne
    exact not_orders_respelled hvalue hne horders
  · intro hsame
    by_cases hvalue : d.value = e.value
    · obtain rfl := hsame hvalue
      obtain rfl := spells_unique ha hb
      exact orders_same ha
    · exact orders_different ha hb hvalue

/-- Half a unit, with so many zeros behind it. -/
def half (negative : Bool) (zeros : Nat) : Decimal where
  negative := negative
  whole := ['0']
  fraction := '5' :: List.replicate zeros '0'
  whole_ne_nil := List.cons_ne_nil _ _
  whole_digits := by decide
  fraction_digits := allDigits_cons.mpr ⟨rfl, allDigits_replicate zeros⟩

theorem orders_by_value_iff_half : OrdersByValue "-0.5" "0.5" (half true 0) (half false 0) ↔
    ((half true 0).value = (half false 0).value → "-0.5" = "0.5") := by
  have hminus : decimalParts "-0.5" = some (true, ['0'], ['5']) := by decide +kernel
  have hplus : decimalParts "0.5" = some (false, ['0'], ['5']) := by decide +kernel
  exact orders_by_value_iff hminus hplus

/-- A zero behind a negative fraction makes it less than itself; a zero behind a positive one
leaves the tie of an equal mark where it was. -/
theorem respelled_numbers_differ :
    (Spells "-0.5" (half true 0) ∧ Spells "-0.50" (half true 1) ∧
      (half true 0).value = (half true 1).value ∧ watermarkLess "-0.5" "-0.50" = true) ∧
    Spells "0.5" (half false 0) ∧ Spells "0.50" (half false 1) ∧
      (half false 0).value = (half false 1).value ∧
      ∃ cursor : OracleCursor, cursor.streams.lookup "s" = some ⟨"0.5", some "A"⟩ ∧
        (cursor.advance "s" "0.50" (some "B")).streams.lookup "s" = some ⟨"0.5", some "A"⟩ := by
  have hvalue (negative : Bool) : (half negative 0).value = (half negative 1).value := by
    have hfive : Digits.value ['5'] = 5 := by decide
    have hfifty : Digits.value ['5', '0'] = 50 := by decide
    have hmagnitude : (half negative 0).magnitude = (half negative 1).magnitude := by
      simp only [Decimal.magnitude, half, List.replicate, hfive, hfifty]
      norm_num
    rw [Decimal.value, Decimal.value, hmagnitude]
    rfl
  have hminus : decimalParts "-0.5" = some (true, ['0'], ['5']) := by decide +kernel
  have hminus' : decimalParts "-0.50" = some (true, ['0'], ['5', '0']) := by decide +kernel
  have hplus : decimalParts "0.5" = some (false, ['0'], ['5']) := by decide +kernel
  have hplus' : decimalParts "0.50" = some (false, ['0'], ['5', '0']) := by decide +kernel
  refine ⟨⟨hminus, hminus', hvalue true, by decide +kernel⟩, hplus, hplus', hvalue false,
    ⟨1, (∅ : AList fun _ : String => StreamCursor).insert "s" ⟨"0.5", some "A"⟩⟩, rfl, ?_⟩
  decide +kernel

end Oracle
