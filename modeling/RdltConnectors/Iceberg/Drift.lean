import Mathlib.Data.List.Forall2
import Mathlib.Data.List.Perm.Basic
import RdltConnectors.Iceberg.Schema

/-!
# Absence of drift as an order

A wanted field without drift from a live one can be written under it. Here is what that relation
is: every field is under itself, what is under a field is under all that one is under, and neither
ids nor the order of a struct's children count, at any depth.
-/
namespace Iceberg

/-- The children of a struct are without drift when each has a live one of its name. -/
theorem compareChildren_eq_none {missing : Drift} {wanted live : List NestedField} :
    compareChildren missing live wanted = none ↔
      ∀ child ∈ wanted, ∃ liveChild,
        (live.find? fun field => field.name == child.name) = some liveChild ∧
          compareField child liveChild = none := by
  induction wanted with
  | nil =>
    rw [compareChildren]
    exact ⟨fun _ _ h => absurd h List.not_mem_nil, fun _ => rfl⟩
  | cons first rest ih =>
    rw [compareChildren, List.forall_mem_cons]
    cases hfind : live.find? fun field => field.name == first.name with
    | none =>
      constructor
      · intro h
        cases h
      · rintro ⟨⟨_, h, -⟩, -⟩
        cases h
    | some liveFirst =>
      dsimp only
      cases hdrift : compareField first liveFirst with
      | some drift =>
        constructor
        · intro h
          cases h
        · rintro ⟨⟨_, h, hnone⟩, -⟩
          obtain rfl := Option.some.inj h
          rw [hdrift] at hnone
          cases hnone
      | none =>
        rw [← ih]
        constructor
        · exact fun h => ⟨⟨liveFirst, rfl, hdrift⟩, h⟩
        · exact fun h => h.2

theorem compareField_eq_none {wanted live : NestedField} :
    compareField wanted live = none ↔
      (live.required = true → wanted.required = true) ∧
        compareType wanted.fieldType live.fieldType = none := by
  obtain ⟨id, name, required, type⟩ := wanted
  rw [compareField]
  change (if live.required && !required then _ else _) = none ↔
    (live.required = true → required = true) ∧ compareType type live.fieldType = none
  cases live.required with
  | false => simp
  | true => cases required <;> simp

theorem compareType_struct {wanted live : List NestedField} :
    compareType (.struct wanted) (.struct live) = none ↔
      wanted.length = live.length ∧ ∀ child ∈ wanted, ∃ liveChild,
        (live.find? fun field => field.name == child.name) = some liveChild ∧
          compareField child liveChild = none := by
  rw [compareType]
  split
  · next h => exact ⟨fun hnone => (nomatch hnone), fun hboth => absurd hboth.1 h⟩
  · next h =>
    rw [compareChildren_eq_none]
    exact ⟨fun hall => ⟨not_not.1 h, hall⟩, fun hboth => hboth.2⟩

/-- Types of different kinds are drift. -/
theorem compareType_kind {wanted live : IcebergType} (h : compareType wanted live = none) :
    (∃ type, wanted = .primitive type ∧ live = .primitive type) ∨
    (∃ fields liveFields, wanted = .struct fields ∧ live = .struct liveFields) ∨
    (∃ element liveElement, wanted = .list element ∧ live = .list liveElement ∧
      compareField element liveElement = none) ∨
    ∃ key value liveKey liveValue, wanted = .map key value ∧ live = .map liveKey liveValue ∧
      compareField key liveKey = none ∧ compareField value liveValue = none := by
  cases wanted with
  | primitive type =>
    cases live with
    | primitive liveType =>
      rw [compareType] at h
      split at h
      · next heq => exact .inl ⟨type, rfl, by rw [heq]⟩
      · cases h
    | _ => cases h
  | struct fields =>
    cases live with
    | struct liveFields => exact .inr (.inl ⟨fields, liveFields, rfl, rfl⟩)
    | _ => cases h
  | list element =>
    cases live with
    | list liveElement =>
      rw [compareType] at h
      exact .inr (.inr (.inl ⟨element, liveElement, rfl, rfl, h⟩))
    | _ => cases h
  | map key value =>
    cases live with
    | map liveKey liveValue =>
      rw [compareType, Option.or_eq_none_iff] at h
      exact .inr (.inr (.inr ⟨key, value, liveKey, liveValue, rfl, rfl, h.1, h.2⟩))
    | _ => cases h

/-! ## Reflexive and transitive -/

theorem compareField_refl {field : NestedField} (h : field.distinct = true) :
    compareField field field = none :=
  compareField_shape field field h rfl

theorem find_name {fields : List NestedField} {name : String} {field : NestedField}
    (h : (fields.find? fun field => field.name == name) = some field) :
    field ∈ fields ∧ field.name = name := by
  have hname := List.find?_some h
  exact ⟨List.mem_of_find?_eq_some h, beq_iff_eq.1 hname⟩

mutual

theorem compareField_trans : ∀ (wanted between live : NestedField),
    compareField wanted between = none → compareField between live = none →
      compareField wanted live = none
  | .mk id name required type, between, live, hleft, hright => by
    obtain ⟨hleftRequired, hleft⟩ := compareField_eq_none.1 hleft
    obtain ⟨hrightRequired, hright⟩ := compareField_eq_none.1 hright
    rw [compareField_eq_none]
    exact ⟨fun h => hleftRequired (hrightRequired h), compareType_trans type _ _ hleft hright⟩

theorem compareType_trans : ∀ (wanted between live : IcebergType),
    compareType wanted between = none → compareType between live = none →
      compareType wanted live = none
  | .primitive type, between, live, hleft, hright => by
    obtain ⟨_, hw, rfl⟩ | ⟨_, _, hw, -⟩ | ⟨_, _, hw, -, -⟩ | ⟨_, _, _, _, hw, -, -, -⟩ :=
      compareType_kind hleft
    · exact IcebergType.primitive.inj hw ▸ hright
    · cases hw
    · cases hw
    · cases hw
  | .struct fields, between, live, hleft, hright => by
    obtain ⟨_, hw, -⟩ | ⟨_, betweenFields, -, rfl⟩ | ⟨_, _, hw, -, -⟩ | ⟨_, _, _, _, hw, -, -, -⟩ :=
      compareType_kind hleft
    · cases hw
    · obtain ⟨_, hb, -⟩ | ⟨_, liveFields, -, rfl⟩ | ⟨_, _, hb, -, -⟩ | ⟨_, _, _, _, hb, -, -, -⟩ :=
        compareType_kind hright
      · cases hb
      · rw [compareType_struct] at hleft hright ⊢
        refine ⟨hleft.1.trans hright.1, ?_⟩
        exact compareAll_trans fields _ _ hleft.2 hright.2
      · cases hb
      · cases hb
    · cases hw
    · cases hw
  | .list element, between, live, hleft, hright => by
    obtain ⟨_, hw, -⟩ | ⟨_, _, hw, -⟩ | ⟨_, betweenElement, hw, rfl, hleft⟩ |
      ⟨_, _, _, _, hw, -, -, -⟩ := compareType_kind hleft
    · cases hw
    · cases hw
    · obtain rfl := IcebergType.list.inj hw
      obtain ⟨_, hb, -⟩ | ⟨_, _, hb, -⟩ | ⟨_, liveElement, hb, rfl, hright⟩ |
        ⟨_, _, _, _, hb, -, -, -⟩ := compareType_kind hright
      · cases hb
      · cases hb
      · obtain rfl := IcebergType.list.inj hb
        rw [compareType]
        exact compareField_trans element _ _ hleft hright
      · cases hb
    · cases hw
  | .map key value, between, live, hleft, hright => by
    obtain ⟨_, hw, -⟩ | ⟨_, _, hw, -⟩ | ⟨_, _, hw, -, -⟩ |
      ⟨_, _, betweenKey, betweenValue, hw, rfl, hleftKey, hleftValue⟩ := compareType_kind hleft
    · cases hw
    · cases hw
    · cases hw
    · obtain ⟨rfl, rfl⟩ := IcebergType.map.inj hw
      obtain ⟨_, hb, -⟩ | ⟨_, _, hb, -⟩ | ⟨_, _, hb, -, -⟩ |
        ⟨_, _, liveKey, liveValue, hb, rfl, hrightKey, hrightValue⟩ := compareType_kind hright
      · cases hb
      · cases hb
      · cases hb
      · obtain ⟨rfl, rfl⟩ := IcebergType.map.inj hb
        rw [compareType, compareField_trans key _ _ hleftKey hrightKey,
          compareField_trans value _ _ hleftValue hrightValue]
        rfl

theorem compareAll_trans : ∀ (wanted between live : List NestedField),
    (∀ child ∈ wanted, ∃ betweenChild,
      (between.find? fun field => field.name == child.name) = some betweenChild ∧
        compareField child betweenChild = none) →
    (∀ child ∈ between, ∃ liveChild,
      (live.find? fun field => field.name == child.name) = some liveChild ∧
        compareField child liveChild = none) →
    ∀ child ∈ wanted, ∃ liveChild,
      (live.find? fun field => field.name == child.name) = some liveChild ∧
        compareField child liveChild = none
  | [], _, _, _, _ => fun _ h => nomatch h
  | first :: rest, between, live, hleft, hright => by
    rw [List.forall_mem_cons] at hleft ⊢
    constructor
    · obtain ⟨betweenFirst, hfind, hfirst⟩ := hleft.1
      obtain ⟨hmem, hname⟩ := find_name hfind
      obtain ⟨liveFirst, hlive, hbetween⟩ := hright betweenFirst hmem
      rw [hname] at hlive
      exact ⟨liveFirst, hlive, compareField_trans first _ _ hfirst hbetween⟩
    · exact compareAll_trans rest _ _ hleft.2 hright

end

/-! ## Ids and the order of children do not count -/

mutual

/-- The same field, up to ids and the order of children at any depth. -/
inductive Alike : NestedField → NestedField → Prop
  | mk {id id' : Nat} {name : String} {required : Bool} {type type' : IcebergType}
    (h : AlikeType type type') : Alike (.mk id name required type) (.mk id' name required type')

inductive AlikeType : IcebergType → IcebergType → Prop
  | primitive (type : PrimitiveType) : AlikeType (.primitive type) (.primitive type)
  | struct {fields fields' reordered : List NestedField} (h : AlikeAll fields fields')
    (hperm : fields'.Perm reordered) : AlikeType (.struct fields) (.struct reordered)
  | list {element element' : NestedField} (h : Alike element element') :
    AlikeType (.list element) (.list element')
  | map {key key' value value' : NestedField} (hkey : Alike key key') (hvalue : Alike value value') :
    AlikeType (.map key value) (.map key' value')

inductive AlikeAll : List NestedField → List NestedField → Prop
  | nil : AlikeAll [] []
  | cons {first first' : NestedField} {rest rest' : List NestedField} (hfirst : Alike first first')
    (hrest : AlikeAll rest rest') : AlikeAll (first :: rest) (first' :: rest')

end

theorem Alike.name_eq {field other : NestedField} (h : Alike field other) :
    other.name = field.name := by
  cases h
  rfl

theorem AlikeAll.names {fields others : List NestedField} (h : AlikeAll fields others) :
    others.map NestedField.name = fields.map NestedField.name := by
  induction fields generalizing others with
  | nil =>
    cases h
    rfl
  | cons first rest ih =>
    cases h with
    | cons hfirst hrest => rw [List.map_cons, List.map_cons, hfirst.name_eq, ih hrest]

/-- Among fields that name each once, a field is found by its name. -/
theorem find_of_mem {fields : List NestedField} {field : NestedField}
    (hnodup : (fields.map NestedField.name).Nodup) (h : field ∈ fields) :
    (fields.find? fun other => other.name == field.name) = some field := by
  cases hfind : fields.find? fun other => other.name == field.name with
  | none => exact absurd (beq_self_eq_true field.name) (List.find?_eq_none.1 hfind field h)
  | some found =>
    obtain ⟨hmem, hname⟩ := find_name hfind
    rw [List.inj_on_of_nodup_map hnodup hmem h hname]

/-- Each is without drift from the other. -/
def Level (field other : NestedField) : Prop :=
  compareField field other = none ∧ compareField other field = none

mutual

theorem alike_level : ∀ (field other : NestedField), Alike field other → field.distinct = true →
    Level field other
  | .mk id name required type, other, h, hdistinct => by
    cases h with
    | mk htype =>
      rw [NestedField.distinct] at hdistinct
      obtain ⟨hthere, hback⟩ := alikeType_level type _ htype hdistinct
      constructor
      · exact compareField_eq_none.2 ⟨fun h => h, hthere⟩
      · exact compareField_eq_none.2 ⟨fun h => h, hback⟩

theorem alikeType_level : ∀ (type other : IcebergType), AlikeType type other →
    type.distinct = true → compareType type other = none ∧ compareType other type = none
  | .primitive type, other, h, _ => by
    cases h
    rw [compareType, if_pos rfl]
    exact ⟨rfl, rfl⟩
  | .struct fields, other, h, hdistinct => by
    cases h with
    | @struct _ fields' reordered hall hperm =>
      rw [IcebergType.distinct, Bool.and_eq_true] at hdistinct
      have hnodup := of_decide_eq_true hdistinct.1
      have hnames := hall.names
      have hnodup' : (reordered.map NestedField.name).Nodup :=
        (hperm.map NestedField.name).nodup_iff.1 (hnames ▸ hnodup)
      have hlength : fields.length = reordered.length := by
        rw [← hperm.length_eq, ← List.length_map NestedField.name, ← hnames, List.length_map]
      obtain ⟨hthere, hback⟩ := alikeAll_level fields fields' hall hdistinct.2
      rw [compareType_struct, compareType_struct]
      refine ⟨⟨hlength, ?_⟩, hlength.symm, ?_⟩
      · intro child hchild
        obtain ⟨partner, hpartner, hname, hlevel⟩ := hthere child hchild
        have hmem := hperm.mem_iff.1 hpartner
        exact ⟨partner, hname ▸ find_of_mem hnodup' hmem, hlevel.1⟩
      · intro child hchild
        obtain ⟨partner, hpartner, hname, hlevel⟩ := hback child (hperm.mem_iff.2 hchild)
        exact ⟨partner, hname ▸ find_of_mem hnodup hpartner, hlevel.2⟩
  | .list element, other, h, hdistinct => by
    cases h with
    | list helement =>
      rw [IcebergType.distinct] at hdistinct
      rw [compareType, compareType]
      exact alike_level element _ helement hdistinct
  | .map key value, other, h, hdistinct => by
    cases h with
    | map hkey hvalue =>
      rw [IcebergType.distinct, Bool.and_eq_true] at hdistinct
      obtain ⟨hkeyThere, hkeyBack⟩ := alike_level key _ hkey hdistinct.1
      obtain ⟨hvalueThere, hvalueBack⟩ := alike_level value _ hvalue hdistinct.2
      rw [compareType, compareType, hkeyThere, hkeyBack, hvalueThere, hvalueBack]
      exact ⟨rfl, rfl⟩

/-- Each field has its partner, there and back. -/
theorem alikeAll_level : ∀ (fields others : List NestedField), AlikeAll fields others →
    allDistinct fields = true →
    (∀ field ∈ fields, ∃ other ∈ others, other.name = field.name ∧ Level field other) ∧
      ∀ other ∈ others, ∃ field ∈ fields, field.name = other.name ∧ Level field other
  | [], others, h, _ => by
    cases h
    exact ⟨fun _ h => absurd h List.not_mem_nil, fun _ h => absurd h List.not_mem_nil⟩
  | first :: rest, others, h, hdistinct => by
    cases h with
    | cons hfirst hrest =>
      rw [allDistinct, Bool.and_eq_true] at hdistinct
      have hlevel := alike_level first _ hfirst hdistinct.1
      obtain ⟨hthere, hback⟩ := alikeAll_level rest _ hrest hdistinct.2
      constructor
      · intro field hfield
        obtain rfl | hfield := List.mem_cons.1 hfield
        · exact ⟨_, List.mem_cons_self, hfirst.name_eq, hlevel⟩
        · obtain ⟨other, hother, hname, hlevel⟩ := hthere field hfield
          exact ⟨other, List.mem_cons_of_mem _ hother, hname, hlevel⟩
      · intro other hother
        obtain rfl | hother := List.mem_cons.1 hother
        · exact ⟨first, List.mem_cons_self, hfirst.name_eq.symm, hlevel⟩
        · obtain ⟨field, hfield, hname, hlevel⟩ := hback other hother
          exact ⟨field, List.mem_cons_of_mem _ hfield, hname, hlevel⟩

end

/-- Drift is the same between fields that differ in ids and the order of children. -/
theorem compareField_alike {wanted wanted' live live' : NestedField} (hwanted : Alike wanted wanted')
    (hlive : Alike live live') (hwd : wanted.distinct = true) (hld : live.distinct = true) :
    compareField wanted live = none ↔ compareField wanted' live' = none := by
  obtain ⟨hthere, hback⟩ := alike_level wanted wanted' hwanted hwd
  obtain ⟨hliveThere, hliveBack⟩ := alike_level live live' hlive hld
  constructor
  · intro h
    exact compareField_trans _ _ _ (compareField_trans _ _ _ hback h) hliveThere
  · intro h
    exact compareField_trans _ _ _ (compareField_trans _ _ _ hthere h) hliveBack

end Iceberg
