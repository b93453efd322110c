import RdltConnectors.Oracle.Read

/-!
# What a position stands for

A position is written from the last row read: the text of its cursor value and its ROWID.
Read back by the server it bounds the next statement, and the bound is the row's own place
in the order up to the microseconds the text leaves out.
-/
namespace Oracle

variable {R F : Type}

/-- What the reader relies on: exact texts and literals, and ROWIDs that read back. -/
structure Server.Exact (server : Server R F) : Prop where
  number_text : ∀ n, (server.numberText n).value = n.value
  number_literal : ∀ (type : OracleType) (n : Number) (d : Decimal),
    type.Holds (.number n : Value F) → d.value = n.value →
      server.literalValue type (String.ofList d.text) = some (.number n)
  /-- a timestamp literal is the instant its text shows -/
  stamp_literal : ∀ (type : OracleType) (t : Stamp), type.Holds (.stamp t : Value F) →
    server.literalValue type (timestampLiteral (String.ofList (isoMicros t.val))) =
      some (.stamp t.truncated)
  float_literal : ∀ (type : OracleType) (f : F) (text literal : String), type.Holds (.float f) →
    server.floatText f = some text → checkedWatermarkLiteral text = .ok literal →
      server.literalValue type literal = some (.float f)
  rowid_text : ∀ r, ∃ literal, rowidLiteral (server.rowidToChar r) = .ok literal ∧
    server.charToRowid literal = some r

/-- The row holds a value of the cursor column's type. -/
def Row.Fits (cursor : Option ColumnInfo) (row : Row R F) : Prop :=
  ∀ column, cursor = some column → ∃ v, row.values column.name = some v ∧ column.oracleType.Holds v

/-- The value a watermark's text still shows. -/
def Value.shown : Value F → Value F
  | .stamp t => .stamp t.truncated
  | v => v

theorem Value.shown_le [LinearOrder F] (v : Value F) : v.shown ≤ v := by
  cases v with
  | number n => exact le_refl _
  | float f => exact le_refl _
  | stamp t => exact not_lt.mp fun h => not_lt.mpr t.truncated_le (Value.stamp_lt.mp h)

/-- The text of a value with nothing below the microsecond loses nothing. -/
def Value.Whole : Value F → Prop
  | .stamp t => t.val.nanosecond % 1000 = 0
  | _ => True

instance : DecidablePred (Value.Whole : Value F → Prop)
  | .stamp t => inferInstanceAs (Decidable (t.val.nanosecond % 1000 = 0))
  | .number _ => inferInstanceAs (Decidable True)
  | .float _ => inferInstanceAs (Decidable True)

theorem Value.shown_eq {v : Value F} (h : v.Whole) : v.shown = v := by
  cases v with
  | number n => rfl
  | float f => rfl
  | stamp t => exact congrArg Value.stamp (Subtype.ext (Clock.truncated_eq h))

/-! ## Texts by type -/

theorem numberType_int64 {precision : Nat} {scale : Int}
    (h : numberType precision scale = .int64) : precision ≠ 0 ∧ scale = 0 ∧ precision ≤ 18 := by
  unfold numberType at h
  split at h
  · cases h
  split at h
  · cases h
  next hrange =>
    split at h
    · next hint => exact ⟨fun hzero => hrange (.inr (.inl hzero)), hint⟩
    · cases h

/-- The kinds a NUMBER can land in. -/
theorem numberType_cases (precision : Nat) (scale : Int) : numberType precision scale = .utf8 ∨
    numberType precision scale = .int64 ∨ numberType precision scale = .decimal128 precision scale := by
  unfold numberType
  split
  · exact .inl rfl
  split
  · exact .inl rfl
  split
  · exact .inr (.inl rfl)
  · exact .inr (.inr rfl)

theorem Number.toInt64_of_fits {n : Number} {precision : Nat} (hprecision : precision ≤ 18)
    (h : n.Fits precision 0) : n.toInt64 = some n.mantissa := by
  obtain ⟨hscale, hvalue⟩ := h
  have hzero : n.scale = 0 := by omega
  have hbound : |(n.mantissa : ℚ)| < 10 ^ 18 := by
    have hpow : (10 : ℚ) ^ precision ≤ 10 ^ 18 := pow_le_pow_right₀ (by norm_num) hprecision
    rw [Number.value, hzero, pow_zero, div_one, zpow_zero, mul_one] at hvalue
    exact lt_of_lt_of_le hvalue hpow
  have hint : |n.mantissa| < 10 ^ 18 := by exact_mod_cast hbound
  obtain ⟨hlow, hhigh⟩ := abs_lt.mp hint
  exact if_pos ⟨hzero, by omega, by omega⟩

section Texts

variable {server : Server R F} {type : OracleType} {kind : DataType} {name text literal : String}

/-- A number is rendered as a numeral of its value. -/
theorem watermarkText_number (exact : server.Exact) {n : Number}
    (hholds : type.Holds (.number n : Value F))
    (hkind : arrowType server.typeText name type = .ok kind) :
    ∃ d : Decimal, watermarkText server kind (some (.number n)) = .ok (String.ofList d.text) ∧
      d.value = n.value := by
  have hint : ∀ v, n.toInt64 = some v → (Decimal.ofInt v).value = n.value := by
    intro v hv
    unfold Number.toInt64 at hv
    split at hv
    · next hrange =>
      cases hv
      rw [Decimal.ofInt_value, Number.value, hrange.1, pow_zero, div_one]
    · cases hv
  have hdigits : ∃ d : Decimal, server.numberText n = d ∧ d.value = n.value :=
    ⟨_, rfl, exact.number_text n⟩
  obtain ⟨digits, hdigits, hvalue⟩ := hdigits
  have hlanded : ∀ precision scale, numberType precision scale = kind →
      (numberType precision scale = .int64 → n.toInt64 ≠ none) →
      ∃ d : Decimal, watermarkText server kind (some (.number n)) = .ok (String.ofList d.text) ∧
        d.value = n.value := by
    rintro precision scale rfl hfits
    obtain hutf8 | hint64 | hdecimal := numberType_cases precision scale
    · rw [hutf8]
      exact ⟨digits, by rw [watermarkText, hdigits], hvalue⟩
    · obtain ⟨v, hv⟩ := Option.ne_none_iff_exists'.mp (hfits hint64)
      rw [hint64]
      exact ⟨_, by simp only [watermarkText, hv, Option.map_some], hint v hv⟩
    · rw [hdecimal]
      exact ⟨digits, by rw [watermarkText, hdigits], hvalue⟩
  cases type with
  | number precision scale =>
    apply hlanded precision scale (Except.ok.inj hkind)
    intro hint64
    obtain ⟨hprecision, rfl, hle⟩ := numberType_int64 hint64
    obtain hzero | hfits := hholds
    · exact absurd hzero hprecision
    · rw [Number.toInt64_of_fits hle hfits]
      simp
  | float precision =>
    apply hlanded precision (-127) (Except.ok.inj hkind)
    intro hint64
    obtain ⟨-, hzero, -⟩ := numberType_int64 hint64
    omega
  | int64 =>
    cases hkind
    obtain ⟨v, hv⟩ := Option.ne_none_iff_exists'.mp hholds
    exact ⟨_, by simp only [watermarkText, hv, Option.map_some], hint v hv⟩
  | uint64 =>
    cases hkind
    exact ⟨digits, by rw [watermarkText, hdigits], hvalue⟩
  | _ => exact hholds.elim

theorem watermarkText_stamp {t : Stamp} (hholds : type.Holds (.stamp t : Value F))
    (hkind : arrowType server.typeText name type = .ok kind) :
    watermarkText server kind (some (.stamp t)) = .ok (String.ofList (isoMicros t.val)) := by
  cases type with
  | date | timestamp _ | timestampTZ _ | timestampLTZ _ =>
    cases hkind
    rfl
  | _ => exact hholds.elim

theorem watermarkText_float {f : F} (hholds : type.Holds (.float f))
    (hkind : arrowType server.typeText name type = .ok kind)
    (htext : watermarkText server kind (some (.float f)) = .ok text) :
    server.floatText f = some text := by
  cases type with
  | binaryFloat | binaryDouble =>
    cases hkind
    cases hprinted : server.floatText f with
    | none =>
      rw [watermarkText, hprinted] at htext
      cases htext
    | some printed =>
      rw [watermarkText, hprinted] at htext
      cases htext
      rfl
  | _ => exact hholds.elim

/-- Written back into SQL, a watermark denotes what its text shows. -/
theorem literal_of_text (exact : server.Exact) {v : Value F} (hholds : type.Holds v)
    (hkind : arrowType server.typeText name type = .ok kind)
    (htext : watermarkText server kind (some v) = .ok text)
    (hliteral : checkedWatermarkLiteral text = .ok literal) :
    server.literalValue type literal = some v.shown := by
  cases v with
  | number n =>
    obtain ⟨d, hd, hvalue⟩ := watermarkText_number exact hholds hkind
    cases hd.symm.trans htext
    rw [d.checked_text] at hliteral
    cases hliteral
    exact exact.number_literal type n d hholds hvalue
  | stamp t =>
    cases (watermarkText_stamp hholds hkind).symm.trans htext
    rw [checked_isoMicros] at hliteral
    cases hliteral
    exact exact.stamp_literal type t hholds
  | float f =>
    exact exact.float_literal type f text literal hholds (watermarkText_float hholds hkind htext)
      hliteral

/-- A number or an instant always has a text, and the text passes the gate. -/
theorem text_and_literal (exact : server.Exact) {v : Value F} (hholds : type.Holds v)
    (hkind : arrowType server.typeText name type = .ok kind) (hfloat : ∀ f, v ≠ .float f) :
    ∃ text literal, watermarkText server kind (some v) = .ok text ∧
      checkedWatermarkLiteral text = .ok literal := by
  cases v with
  | number n =>
    obtain ⟨d, hd, -⟩ := watermarkText_number exact hholds hkind
    exact ⟨_, _, hd, d.checked_text⟩
  | stamp t => exact ⟨_, _, watermarkText_stamp hholds hkind, checked_isoMicros t.val⟩
  | float f => exact absurd rfl (hfloat f)

/-- Of two whole values of one column the later one's text is the later text, or the same. -/
theorem texts_rise [LinearOrder F] (exact : server.Exact) {v w : Value F} {text text' : String}
    (hv : type.Holds v) (hw : type.Holds w) (hkind : arrowType server.typeText name type = .ok kind)
    (hfloat : ∀ f, v ≠ .float f) (hwhole : v.Whole) (hwhole' : w.Whole)
    (htext : watermarkText server kind (some v) = .ok text)
    (htext' : watermarkText server kind (some w) = .ok text') (hle : v ≤ w) :
    watermarkLess text text' = true ∨ text = text' := by
  obtain rfl | hlt := hle.eq_or_lt
  · exact .inr (Except.ok.inj (htext.symm.trans htext'))
  apply Or.inl
  cases v with
  | number m =>
    cases w with
    | number n =>
      obtain ⟨d, hd, hdvalue⟩ := watermarkText_number exact hv hkind
      obtain ⟨e, he, hevalue⟩ := watermarkText_number exact hw hkind
      cases hd.symm.trans htext
      cases he.symm.trans htext'
      have hvalue : d.value < e.value := by
        rw [hdvalue, hevalue]
        exact Number.lt_iff.mp (Value.number_lt.mp hlt)
      exact (watermarkLess_text hvalue.ne).mpr hvalue
    | stamp u => cases type <;> first | exact hv.elim | exact hw.elim
    | float g => cases type <;> first | exact hv.elim | exact hw.elim
  | stamp t =>
    cases w with
    | stamp u =>
      cases (watermarkText_stamp hv hkind).symm.trans htext
      cases (watermarkText_stamp hw hkind).symm.trans htext'
      rw [watermarkLess_isoMicros t.property u.property, Clock.truncated_eq hwhole,
        Clock.truncated_eq hwhole']
      exact Value.stamp_lt.mp hlt
    | number n => cases type <;> first | exact hv.elim | exact hw.elim
    | float g => cases type <;> first | exact hv.elim | exact hw.elim
  | float f => exact absurd rfl (hfloat f)

end Texts

end Oracle
