import Mathlib.Data.List.Nodup

/-!
# Schemas and drift

A wanted column is compared with the live one by structure: field ids are ignored, the
children of a struct are matched by name, and a live column may be optional where the
stream's is required, but not the other way about.
-/
namespace Iceberg

inductive PrimitiveType where
  | boolean
  | int
  | long
  | float
  | double
  | decimal (precision scale : Nat)
  | date
  | time
  | timestamp
  | timestamptz
  | timestampNs
  | timestamptzNs
  | string
  | uuid
  | fixed (length : Nat)
  | binary
  deriving DecidableEq, Repr

mutual

inductive IcebergType where
  | primitive (type : PrimitiveType)
  | struct (fields : List NestedField)
  | list (elementField : NestedField)
  | map (keyField valueField : NestedField)

inductive NestedField where
  | mk (id : Nat) (name : String) (required : Bool) (fieldType : IcebergType)

end

namespace NestedField

def id : NestedField → Nat
  | .mk id _ _ _ => id

def name : NestedField → String
  | .mk _ name _ _ => name

def required : NestedField → Bool
  | .mk _ _ required _ => required

def fieldType : NestedField → IcebergType
  | .mk _ _ _ fieldType => fieldType

end NestedField

/-- How a wanted column can disagree with the live one. -/
inductive Drift where
  | type (wanted live : IcebergType)
  | nestedFields (wanted live : IcebergType)
  | nullability

/-- The wording of a refusal, over the library's rendering of a type. -/
def Drift.detail (display : IcebergType → String) : Drift → String
  | .type wanted live =>
    "stream type " ++ display wanted ++ " conflicts with the table's " ++ display live
  | .nestedFields wanted live =>
    "stream shape " ++ display wanted ++ " conflicts with the table's " ++ display live ++
      " — a nested field was added, removed or renamed, which additive evolution cannot express"
  | .nullability => "the table requires a value this stream may not supply"

mutual

def compareField : NestedField → NestedField → Option Drift
  | .mk _ _ wantedRequired wanted, live =>
    if live.required && !wantedRequired then some .nullability
    else compareType wanted live.fieldType

def compareType : IcebergType → IcebergType → Option Drift
  | .primitive wanted, .primitive live =>
    if wanted = live then none else some (.type (.primitive wanted) (.primitive live))
  | .struct wanted, .struct live =>
    if wanted.length ≠ live.length then some (.nestedFields (.struct wanted) (.struct live))
    else compareChildren (.nestedFields (.struct wanted) (.struct live)) live wanted
  | .list wanted, .list live => compareField wanted live
  | .map wantedKey wantedValue, .map liveKey liveValue =>
    (compareField wantedKey liveKey).or (compareField wantedValue liveValue)
  | wanted, live => some (.type wanted live)

/-- The children of a struct, by name. -/
def compareChildren (missing : Drift) (live : List NestedField) :
    List NestedField → Option Drift
  | [] => none
  | wantedChild :: rest =>
    match live.find? fun field => field.name == wantedChild.name with
    | none => some missing
    | some liveChild =>
      match compareField wantedChild liveChild with
      | some drift => some drift
      | none => compareChildren missing live rest

end

mutual

/-- A field and all those nested in it. -/
def NestedField.flatten : NestedField → List NestedField
  | .mk id name required fieldType => .mk id name required fieldType :: fieldType.flatten

def IcebergType.flatten : IcebergType → List NestedField
  | .primitive _ => []
  | .struct fields => flattenAll fields
  | .list elementField => elementField.flatten
  | .map keyField valueField => keyField.flatten ++ valueField.flatten

def flattenAll : List NestedField → List NestedField
  | [] => []
  | field :: rest => field.flatten ++ flattenAll rest

end

def fieldById (fields : List NestedField) (id : Nat) : Option NestedField :=
  (flattenAll fields).find? fun field => field.id == id

/-! ## Fields by id -/

theorem mem_flattenAll {fields : List NestedField} {nested : NestedField} :
    nested ∈ flattenAll fields ↔ ∃ field ∈ fields, nested ∈ field.flatten := by
  induction fields with
  | nil =>
    rw [flattenAll]
    exact ⟨nofun, fun ⟨_, h, _⟩ => nomatch h⟩
  | cons field rest ih => rw [flattenAll, List.mem_append, ih, List.exists_mem_cons_iff]

theorem fieldById_mem {fields : List NestedField} {id : Nat} {field : NestedField}
    (h : fieldById fields id = some field) : field ∈ flattenAll fields ∧ field.id = id := by
  unfold fieldById at h
  have hid := List.find?_some h
  exact ⟨List.mem_of_find?_eq_some h, beq_iff_eq.1 hid⟩

/-- Where no id is used twice, a field is found by its id. -/
theorem fieldById_eq_some {fields : List NestedField} {id : Nat} {field : NestedField}
    (hids : ((flattenAll fields).map NestedField.id).Nodup) :
    fieldById fields id = some field ↔ field ∈ flattenAll fields ∧ field.id = id := by
  refine ⟨fieldById_mem, ?_⟩
  rintro ⟨hmem, rfl⟩
  cases hfind : fieldById fields field.id with
  | none =>
    have hnone := List.find?_eq_none.1 hfind field hmem
    exact absurd (beq_self_eq_true field.id) hnone
  | some found =>
    obtain ⟨hfound, hid⟩ := fieldById_mem hfind
    rw [List.inj_on_of_nodup_map hids hfound hmem hid]

/-! ## Shapes -/

mutual

/-- A field without the ids. -/
def NestedField.shape : NestedField → NestedField
  | .mk _ name required fieldType => .mk 0 name required fieldType.shape

def IcebergType.shape : IcebergType → IcebergType
  | .primitive type => .primitive type
  | .struct fields => .struct (shapes fields)
  | .list elementField => .list elementField.shape
  | .map keyField valueField => .map keyField.shape valueField.shape

def shapes : List NestedField → List NestedField
  | [] => []
  | field :: rest => field.shape :: shapes rest

end

mutual

/-- No struct in it has two children of one name. -/
def NestedField.distinct : NestedField → Bool
  | .mk _ _ _ fieldType => fieldType.distinct

def IcebergType.distinct : IcebergType → Bool
  | .primitive _ => true
  | .struct fields => decide (fields.map NestedField.name).Nodup && allDistinct fields
  | .list elementField => elementField.distinct
  | .map keyField valueField => keyField.distinct && valueField.distinct

def allDistinct : List NestedField → Bool
  | [] => true
  | field :: rest => field.distinct && allDistinct rest

end

theorem shapes_eq_map (fields : List NestedField) : shapes fields = fields.map NestedField.shape := by
  induction fields with
  | nil => rfl
  | cons field rest ih => rw [shapes, ih, List.map_cons]

theorem shape_name (field : NestedField) : field.shape.name = field.name := by
  cases field with
  | mk id name required fieldType =>
    rw [NestedField.shape]
    rfl

/-- Of fields with the same shapes, those of one name have the same shape. -/
theorem find_shape {wanted live : List NestedField} (hshapes : shapes wanted = shapes live)
    (hnodup : (wanted.map NestedField.name).Nodup) {child : NestedField} (h : child ∈ wanted) :
    ∃ liveChild, (live.find? fun field => field.name == child.name) = some liveChild ∧
      child.shape = liveChild.shape := by
  induction wanted generalizing live with
  | nil => cases h
  | cons first rest ih =>
    cases live with
    | nil => cases hshapes
    | cons liveFirst liveRest =>
      obtain ⟨hfirst, hrest⟩ := List.cons.inj hshapes
      have hname : liveFirst.name = first.name := by
        rw [← shape_name, ← hfirst, shape_name]
      obtain ⟨hnew, hnodup⟩ := List.nodup_cons.1 hnodup
      obtain rfl | h := List.mem_cons.1 h
      · exact ⟨liveFirst, List.find?_cons_of_pos (beq_iff_eq.2 hname), hfirst⟩
      · obtain ⟨liveChild, hfind, hshape⟩ := ih hrest hnodup h
        refine ⟨liveChild, ?_, hshape⟩
        rw [List.find?_cons_of_neg, hfind]
        intro heq
        rw [hname] at heq
        exact hnew (beq_iff_eq.1 heq ▸ List.mem_map_of_mem h)

mutual

theorem compareField_shape : ∀ (wanted live : NestedField), wanted.distinct = true →
    wanted.shape = live.shape → compareField wanted live = none
  | .mk _ _ wantedRequired wanted, .mk _ _ liveRequired live, hdistinct, hshape => by
    rw [NestedField.shape, NestedField.shape] at hshape
    obtain ⟨-, -, rfl, htype⟩ := NestedField.mk.inj hshape
    rw [NestedField.distinct] at hdistinct
    rw [compareField]
    change (if wantedRequired && !wantedRequired then _ else compareType wanted live) = none
    rw [Bool.and_not_self, if_neg Bool.false_ne_true]
    exact compareType_shape wanted live hdistinct htype

theorem compareType_shape : ∀ (wanted live : IcebergType), wanted.distinct = true →
    wanted.shape = live.shape → compareType wanted live = none
  | .primitive wanted, live, _, hshape => by
    cases live with
    | primitive live =>
      obtain rfl := IcebergType.primitive.inj hshape
      rw [compareType, if_pos rfl]
    | _ => cases hshape
  | .struct wanted, live, hdistinct, hshape => by
    cases live with
    | struct live =>
      rw [IcebergType.shape, IcebergType.shape] at hshape
      have hshapes := IcebergType.struct.inj hshape
      rw [IcebergType.distinct, Bool.and_eq_true] at hdistinct
      have hlength : wanted.length = live.length := by
        rw [← List.length_map NestedField.shape, ← shapes_eq_map, hshapes, shapes_eq_map,
          List.length_map]
      rw [compareType, if_neg (not_not.2 hlength)]
      exact compareChildren_shape wanted _ live hdistinct.2
        fun child hchild => find_shape hshapes (of_decide_eq_true hdistinct.1) hchild
    | _ => cases hshape
  | .list wanted, live, hdistinct, hshape => by
    cases live with
    | list live =>
      rw [IcebergType.distinct] at hdistinct
      rw [compareType]
      exact compareField_shape wanted live hdistinct (IcebergType.list.inj hshape)
    | _ => cases hshape
  | .map wantedKey wantedValue, live, hdistinct, hshape => by
    cases live with
    | map liveKey liveValue =>
      rw [IcebergType.shape, IcebergType.shape] at hshape
      obtain ⟨hkey, hvalue⟩ := IcebergType.map.inj hshape
      rw [IcebergType.distinct, Bool.and_eq_true] at hdistinct
      rw [compareType, compareField_shape wantedKey liveKey hdistinct.1 hkey,
        compareField_shape wantedValue liveValue hdistinct.2 hvalue]
      rfl
    | _ => cases hshape

theorem compareChildren_shape : ∀ (wanted : List NestedField) (missing : Drift)
    (live : List NestedField), allDistinct wanted = true →
    (∀ child ∈ wanted, ∃ liveChild,
      (live.find? fun field => field.name == child.name) = some liveChild ∧
        child.shape = liveChild.shape) →
    compareChildren missing live wanted = none
  | [], _, _, _, _ => by rw [compareChildren]
  | wantedChild :: rest, missing, live, hdistinct, hfind => by
    rw [allDistinct, Bool.and_eq_true] at hdistinct
    obtain ⟨liveChild, hlive, hshape⟩ := hfind wantedChild List.mem_cons_self
    rw [compareChildren, hlive]
    dsimp only
    rw [compareField_shape wantedChild liveChild hdistinct.1 hshape]
    exact compareChildren_shape rest missing live hdistinct.2
      fun child hchild => hfind child (List.mem_cons_of_mem _ hchild)

end

end Iceberg
