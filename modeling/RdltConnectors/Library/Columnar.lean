import Mathlib.Data.List.Basic
import Mathlib.Data.List.Forall2
import Mathlib.Data.List.Perm.Basic

/-!
# Columns of nested values

A column has a value a row: a scalar, a struct of named children, a list, or nothing. What a value
shows is found along paths into it, by name and by position, so it does not depend on the order of
a struct's children. A cast by name gives its target's shape to what its source showed.
-/
namespace Columnar

mutual

/-- Types over the representations of scalars. -/
inductive DataType (A : Type) where
  | scalar (type : A)
  | struct (fields : Fields A)
  | list (element : Field A)
  /-- a list of entries -/
  | map (key value : Field A)
  deriving DecidableEq, Repr

inductive Field (A : Type) where
  | mk (name : String) (type : DataType A) (nullable : Bool) (fieldId : Option Nat)
  deriving DecidableEq, Repr

inductive Fields (A : Type) where
  | nil
  | cons (field : Field A) (rest : Fields A)
  deriving DecidableEq, Repr

end

inductive Value (V : Type) where
  | null
  | scalar (value : V)
  | struct (children : List (String × Value V))
  | list (items : List (Value V))

variable {A V E : Type}

namespace Field

def name : Field A → String
  | .mk name _ _ _ => name

def type : Field A → DataType A
  | .mk _ type _ _ => type

def nullable : Field A → Bool
  | .mk _ _ nullable _ => nullable

end Field

def Fields.toList : Fields A → List (Field A)
  | .nil => []
  | .cons field rest => field :: rest.toList

def Value.isNull : Value V → Bool
  | .null => true
  | _ => false

/-! ## What a value shows -/

inductive Step where
  | child (name : String)
  | item (index : Nat)
  deriving DecidableEq, Repr

/-- What is at the end of a path. -/
inductive Node (V : Type) where
  | null
  | scalar (value : V)
  | struct
  | list (length : Nat)
  deriving DecidableEq, Repr

def Value.node : Value V → Node V
  | .null => .null
  | .scalar value => .scalar value
  | .struct _ => .struct
  | .list items => .list items.length

def observe : List Step → Value V → Option (Node V)
  | [], value => some value.node
  | .child name :: rest, .struct children => (children.lookup name).bind (observe rest)
  | .item index :: rest, .list items => items[index]?.bind (observe rest)
  | _ :: _, _ => none

/-- The same along every path. -/
def Same (v w : Value V) : Prop := ∀ path, observe path v = observe path w

theorem Same.refl (v : Value V) : Same v v := fun _ => rfl

theorem Same.trans {u v w : Value V} (huv : Same u v) (hvw : Same v w) : Same u w :=
  fun path => (huv path).trans (hvw path)

theorem Same.isNull {v w : Value V} (h : Same v w) : v.isNull = w.isNull := by
  have hnode : v.node = w.node := Option.some.inj (h [])
  cases v <;> cases w <;> first | rfl | cases hnode

theorem same_struct {vs ws : List (String × Value V)}
    (h : ∀ name, (vs.lookup name = none ∧ ws.lookup name = none) ∨
      ∃ v w, vs.lookup name = some v ∧ ws.lookup name = some w ∧ Same v w) :
    Same (.struct vs) (.struct ws) := by
  intro path
  cases path with
  | nil => rfl
  | cons step rest =>
    cases step with
    | item index => rfl
    | child name =>
      rw [observe, observe]
      obtain ⟨hv, hw⟩ | ⟨v, w, hv, hw, hsame⟩ := h name
      · rw [hv, hw]
      · rw [hv, hw]
        exact hsame rest

theorem same_list {vs ws : List (Value V)} (h : List.Forall₂ Same vs ws) :
    Same (.list vs) (.list ws) := by
  intro path
  cases path with
  | nil =>
    simp only [observe, Value.node]
    rw [h.length_eq]
  | cons step rest =>
    cases step with
    | child name => rfl
    | item index =>
      rw [observe, observe]
      induction h generalizing index with
      | nil => rfl
      | cons hfirst _ ih =>
        cases index with
        | zero => exact hfirst rest
        | succ index => exact ih index

/-! ## Values of a type -/

inductive Fits : DataType A → Value V → Prop
  | null (type : DataType A) : Fits type .null
  | scalar (type : A) (value : V) : Fits (.scalar type) (.scalar value)
  | struct {fields : Fields A} {children : List (String × Value V)}
    (hnames : children.map Prod.fst = fields.toList.map Field.name)
    (hnull : ∀ field ∈ fields.toList, ∀ v, children.lookup field.name = some v →
      field.nullable = false → v.isNull = false)
    (hfits : ∀ field ∈ fields.toList, ∀ v, children.lookup field.name = some v → Fits field.type v) :
    Fits (.struct fields) (.struct children)
  | list {element : Field A} {items : List (Value V)}
    (hnull : ∀ v ∈ items, element.nullable = false → v.isNull = false)
    (hfits : ∀ v ∈ items, Fits element.type v) : Fits (.list element) (.list items)
  | map {key value : Field A} {entries : List (Value V × Value V)}
    (hnull : ∀ e ∈ entries, (key.nullable = false → e.1.isNull = false) ∧
      (value.nullable = false → e.2.isNull = false))
    (hkey : ∀ e ∈ entries, Fits key.type e.1) (hvalue : ∀ e ∈ entries, Fits value.type e.2) :
    Fits (.map key value) (.list (entries.map fun e => .struct [("key", e.1), ("value", e.2)]))

/-! ## Casts by name -/

/-- One type can be cast to the other by name: scalars represent the same, structs name the same
children, each once, and what may be missing may be missing there too. -/
inductive Castable (same : A → A → Prop) : DataType A → DataType A → Prop
  | scalar {source target : A} (h : same source target) : Castable same (.scalar source) (.scalar target)
  | struct {source target : Fields A}
    (hnames : (source.toList.map Field.name).Perm (target.toList.map Field.name))
    (hnodup : (target.toList.map Field.name).Nodup)
    (hnull : ∀ f ∈ source.toList, ∀ g ∈ target.toList, f.name = g.name →
      f.nullable = true → g.nullable = true)
    (hchild : ∀ f ∈ source.toList, ∀ g ∈ target.toList, f.name = g.name →
      Castable same f.type g.type) : Castable same (.struct source) (.struct target)
  | list {source target : Field A} (hnull : source.nullable = true → target.nullable = true)
    (h : Castable same source.type target.type) : Castable same (.list source) (.list target)
  | map {key value key' value' : Field A}
    (hnull : (key.nullable = true → key'.nullable = true) ∧
      (value.nullable = true → value'.nullable = true))
    (hkey : Castable same key.type key'.type) (hvalue : Castable same value.type value'.type) :
    Castable same (.map key value) (.map key' value')

structure Column (A V : Type) where
  type : DataType A
  rows : List (Value V)

def Column.Fits (column : Column A V) : Prop := ∀ v ∈ column.rows, Columnar.Fits column.type v

/-- What a cast promises: where the types can be cast by name it succeeds, and each row shows what
it showed. -/
def CastsByName (same : A → A → Prop) (cast : Column A V → DataType A → Except E (Column A V)) :
    Prop :=
  ∀ column target, column.Fits → Castable same column.type target →
    ∃ out, cast column target = .ok out ∧ out.type = target ∧ out.Fits ∧
      List.Forall₂ Same column.rows out.rows

/-- An entry of a map, its key and its value mapped. -/
def mapEntry (onKey onValue : Value V → Value V) : Value V → Value V
  | .struct children =>
    .struct [("key", onKey ((children.lookup "key").getD .null)),
      ("value", onValue ((children.lookup "value").getD .null))]
  | v => v

mutual

/-- A value under the target's children, in the target's order. -/
def castValue : DataType A → Value V → Value V
  | .scalar _, v => v
  | .struct fields, .struct children => .struct (castChildren fields children)
  | .list element, .list items => .list (items.map fun v => castItem element v)
  | .map key value, .list entries =>
    .list (entries.map (mapEntry (fun v => castItem key v) fun v => castItem value v))
  | _, v => v

def castItem : Field A → Value V → Value V
  | .mk _ type _ _, v => castValue type v

def castChildren : Fields A → List (String × Value V) → List (String × Value V)
  | .nil, _ => []
  | .cons field rest, children =>
    (field.name, castItem field ((children.lookup field.name).getD .null)) ::
      castChildren rest children

end

theorem castItem_eq (field : Field A) (v : Value V) : castItem field v = castValue field.type v := by
  cases field
  rw [castItem, Field.type]

theorem castChildren_eq (fields : Fields A) (children : List (String × Value V)) :
    castChildren fields children = fields.toList.map fun field =>
      (field.name, castValue field.type ((children.lookup field.name).getD .null)) := by
  induction h : fields.toList generalizing fields with
  | nil =>
    cases fields with
    | nil => rw [castChildren, List.map_nil]
    | cons field rest => cases h
  | cons head tail ih =>
    cases fields with
    | nil => cases h
    | cons field rest =>
      obtain ⟨rfl, hrest⟩ := List.cons.inj h
      rw [castChildren, castItem_eq, ih rest hrest, List.map_cons]

theorem lookup_map_of_mem {fields : List (Field A)} {f : Field A → Value V} {field : Field A}
    (hnodup : (fields.map Field.name).Nodup) (h : field ∈ fields) :
    (fields.map fun field => (field.name, f field)).lookup field.name = some (f field) := by
  induction fields with
  | nil => cases h
  | cons first rest ih =>
    obtain ⟨hnew, hrest⟩ := List.nodup_cons.1 hnodup
    rw [List.map_cons, List.lookup_cons]
    obtain rfl | h := List.mem_cons.1 h
    · rw [beq_self_eq_true]
    · have hne : field.name ≠ first.name := by
        intro heq
        exact hnew (heq ▸ List.mem_map_of_mem h)
      rw [beq_eq_false_iff_ne.2 hne]
      exact ih hrest h

theorem lookup_of_names {children : List (String × Value V)} {name : String}
    (h : name ∈ children.map Prod.fst) : ∃ v, children.lookup name = some v := by
  cases hlookup : children.lookup name with
  | some v => exact ⟨v, rfl⟩
  | none =>
    obtain ⟨⟨_, v⟩, hmem, rfl⟩ := List.mem_map.1 h
    exact absurd (List.lookup_eq_none_iff.1 hlookup _ hmem) (by simp)

theorem lookup_none_of_names {children : List (String × Value V)} {name : String}
    (h : name ∉ children.map Prod.fst) : children.lookup name = none := by
  rw [List.lookup_eq_none_iff]
  intro entry hentry
  rw [bne_iff_ne]
  rintro rfl
  exact h (List.mem_map_of_mem hentry)

/-- What the target requires, its source does. -/
theorem required_of {source target : Bool} (hnull : source = true → target = true)
    (h : target = false) : source = false := by
  cases source with
  | false => rfl
  | true => exact (hnull rfl).symm.trans h

/-- A value cast by name shows what it showed, and fits its new type. -/
theorem castValue_carries {same : A → A → Prop} {source target : DataType A}
    (h : Castable same source target) {v : Value V} (hfits : Fits source v) :
    Fits target (castValue target v) ∧ Same v (castValue target v) := by
  induction h generalizing v with
  | scalar h =>
    cases hfits with
    | null => exact ⟨.null _, .refl _⟩
    | scalar => exact ⟨.scalar _ _, .refl _⟩
  | @struct source target hnames hnodup hnull hchild ih =>
    cases hfits with
    | null => exact ⟨.null _, .refl _⟩
    | @struct _ children hcnames hcnull hcfits =>
      rw [castValue, castChildren_eq]
      -- a child of the target is one of the source, and so of the value
      have hfound : ∀ g ∈ target.toList, ∃ w, children.lookup g.name = some w ∧
          Fits g.type (castValue g.type w) ∧ Same w (castValue g.type w) ∧
            (g.nullable = false → (castValue g.type w).isNull = false) := by
        intro g hg
        obtain ⟨f, hf, hname⟩ := List.mem_map.1 (hnames.mem_iff.2 (List.mem_map_of_mem hg))
        obtain ⟨w, hw⟩ := lookup_of_names (hcnames ▸ List.mem_map_of_mem hf)
        obtain ⟨hfit, hsame⟩ := ih f hf g hg hname (hcfits f hf w hw)
        refine ⟨w, hname ▸ hw, hfit, hsame, ?_⟩
        intro hrequired
        rw [← hsame.isNull]
        exact hcnull f hf w hw (required_of (hnull f hf g hg hname) hrequired)
      have hlookup : ∀ g ∈ target.toList, (target.toList.map fun field =>
          (field.name, castValue field.type ((children.lookup field.name).getD .null))).lookup g.name =
            some (castValue g.type ((children.lookup g.name).getD .null)) :=
        fun g hg => lookup_map_of_mem hnodup hg
      constructor
      · constructor
        · rw [List.map_map]
          rfl
        · intro g hg w hw
          obtain ⟨u, hu, -, -, hrequired⟩ := hfound g hg
          rw [hlookup g hg, hu] at hw
          obtain rfl := Option.some.inj hw
          exact hrequired
        · intro g hg w hw
          obtain ⟨u, hu, hfit, -, -⟩ := hfound g hg
          rw [hlookup g hg, hu] at hw
          obtain rfl := Option.some.inj hw
          exact hfit
      · apply same_struct
        intro name
        by_cases hname : name ∈ target.toList.map Field.name
        · obtain ⟨g, hg, rfl⟩ := List.mem_map.1 hname
          obtain ⟨u, hu, -, hsame, -⟩ := hfound g hg
          refine .inr ⟨u, _, hu, hlookup g hg, ?_⟩
          rw [hu]
          exact hsame
        · left
          constructor
          · apply lookup_none_of_names
            rw [hcnames, hnames.mem_iff]
            exact hname
          · apply lookup_none_of_names
            rw [List.map_map]
            exact hname
  | @list source target hnull h ih =>
    cases hfits with
    | null => exact ⟨.null _, .refl _⟩
    | @list _ items hinull hifits =>
      simp only [castValue, castItem_eq]
      constructor
      · constructor
        · intro w hw hrequired
          obtain ⟨v, hv, rfl⟩ := List.mem_map.1 hw
          rw [← (ih (hifits v hv)).2.isNull]
          exact hinull v hv (required_of hnull hrequired)
        · intro w hw
          obtain ⟨v, hv, rfl⟩ := List.mem_map.1 hw
          exact (ih (hifits v hv)).1
      · apply same_list
        rw [List.forall₂_map_right_iff, List.forall₂_same]
        exact fun v hv => (ih (hifits v hv)).2
  | @map key value key' value' hnull hkey hvalue ihkey ihvalue =>
    cases hfits with
    | null => exact ⟨.null _, .refl _⟩
    | @map _ _ entries henull hekey hevalue =>
      simp only [castValue, castItem_eq, List.map_map]
      have hentries : entries.map (mapEntry (castValue key'.type) (castValue value'.type) ∘
          fun e => .struct [("key", e.1), ("value", e.2)]) =
          (entries.map fun e => (castValue key'.type e.1, castValue value'.type e.2)).map
            fun e => .struct [("key", e.1), ("value", e.2)] := by
        rw [List.map_map]
        rfl
      rw [hentries]
      constructor
      · constructor
        · intro e he
          obtain ⟨e, hmem, rfl⟩ := List.mem_map.1 he
          obtain ⟨hknull, hvnull⟩ := henull e hmem
          rw [← (ihkey (hekey e hmem)).2.isNull, ← (ihvalue (hevalue e hmem)).2.isNull]
          constructor
          · exact fun hrequired => hknull (required_of hnull.1 hrequired)
          · exact fun hrequired => hvnull (required_of hnull.2 hrequired)
        · intro e he
          obtain ⟨e, hmem, rfl⟩ := List.mem_map.1 he
          exact (ihkey (hekey e hmem)).1
        · intro e he
          obtain ⟨e, hmem, rfl⟩ := List.mem_map.1 he
          exact (ihvalue (hevalue e hmem)).1
      · apply same_list
        rw [List.map_map, List.forall₂_map_right_iff, List.forall₂_map_left_iff, List.forall₂_same]
        intro e he
        apply same_struct
        intro name
        dsimp only [Function.comp_apply, List.lookup_cons]
        by_cases hk : name = "key"
        · subst hk
          exact .inr ⟨_, _, rfl, rfl, (ihkey (hekey e he)).2⟩
        · rw [beq_eq_false_iff_ne.2 hk]
          by_cases hv : name = "value"
          · subst hv
            exact .inr ⟨_, _, rfl, rfl, (ihvalue (hevalue e he)).2⟩
          · rw [beq_eq_false_iff_ne.2 hv]
            exact .inl ⟨rfl, rfl⟩

def castColumn (column : Column A V) (target : DataType A) : Except E (Column A V) :=
  .ok ⟨target, column.rows.map (castValue target)⟩

theorem castColumn_byName (same : A → A → Prop) :
    CastsByName same (castColumn : Column A V → DataType A → Except E (Column A V)) := by
  intro column target hfits hcastable
  refine ⟨_, rfl, rfl, ?_, ?_⟩
  · intro w hw
    obtain ⟨v, hv, rfl⟩ := List.mem_map.1 hw
    exact (castValue_carries hcastable (hfits v hv)).1
  · rw [List.forall₂_map_right_iff, List.forall₂_same]
    exact fun v hv => (castValue_carries hcastable (hfits v hv)).2

/-! ## Batches -/

structure Batch (A V : Type) where
  fields : List (Field A)
  columns : List (Column A V)
  rowCount : Nat

/-- The first column of a name. -/
def Batch.columnNamed (batch : Batch A V) (name : String) : Option (Column A V) :=
  ((batch.fields.zip batch.columns).find? fun entry => entry.1.name == name).map Prod.snd

def nullColumn (type : DataType A) (rowCount : Nat) : Column A V :=
  ⟨type, List.replicate rowCount .null⟩

inductive BatchError where
  | columnCount
  /-- there is no column to count rows of -/
  | rowCount
  | nulls (name : String)
  | lengths
  | types
  deriving DecidableEq, Repr

/-- A required field with a NULL. -/
def hasNulls (entry : Field A × Column A V) : Bool :=
  !entry.1.nullable && entry.2.rows.any Value.isNull

/-- A batch of the fields, its row count that of its first column. -/
def Batch.tryNew [DecidableEq A] (fields : List (Field A)) (columns : List (Column A V)) :
    Except BatchError (Batch A V) :=
  if fields.length ≠ columns.length then .error .columnCount
  else
    match columns.head? with
    | none => .error .rowCount
    | some first =>
      match (fields.zip columns).find? hasNulls with
      | some entry => .error (.nulls entry.1.name)
      | none =>
        if columns.any fun column => column.rows.length ≠ first.rows.length then .error .lengths
        else if (fields.zip columns).any fun entry => entry.2.type ≠ entry.1.type then .error .types
        else .ok ⟨fields, columns, first.rows.length⟩

/-- A column of a field. -/
structure Column.Under (rowCount : Nat) (field : Field A) (column : Column A V) : Prop where
  type : column.type = field.type
  fits : column.Fits
  length : column.rows.length = rowCount
  required : field.nullable = false → ∀ v ∈ column.rows, v.isNull = false

def Batch.Sound (batch : Batch A V) : Prop :=
  List.Forall₂ (Column.Under batch.rowCount) batch.fields batch.columns

theorem mem_right {α β : Type} {R : α → β → Prop} {l : List α} {m : List β}
    (h : List.Forall₂ R l m) {b : β} (hb : b ∈ m) : ∃ a ∈ l, R a b := by
  induction h with
  | nil => cases hb
  | cons hfirst _ ih =>
    obtain rfl | hb := List.mem_cons.1 hb
    · exact ⟨_, List.mem_cons_self, hfirst⟩
    · obtain ⟨a, ha, hab⟩ := ih hb
      exact ⟨a, List.mem_cons_of_mem _ ha, hab⟩

/-- Columns under their fields are a batch, if there are any. -/
theorem tryNew_sound [DecidableEq A] {fields : List (Field A)} {columns : List (Column A V)}
    {rowCount : Nat} (h : List.Forall₂ (Column.Under rowCount) fields columns) (hne : fields ≠ []) :
    Batch.tryNew fields columns = .ok ⟨fields, columns, rowCount⟩ := by
  have hlength : ∀ column ∈ columns, column.rows.length = rowCount := by
    intro column hcolumn
    obtain ⟨field, -, hfield⟩ := mem_right h hcolumn
    exact hfield.length
  have hnulls : (fields.zip columns).find? hasNulls = none := by
    rw [List.find?_eq_none]
    rintro ⟨field, column⟩ hentry hnull
    have hunder : Column.Under rowCount field column := List.forall₂_zip h hentry
    rw [hasNulls, Bool.and_eq_true, Bool.not_eq_true', List.any_eq_true] at hnull
    obtain ⟨hrequired, v, hv, hvnull⟩ := hnull
    rw [hunder.required hrequired v hv] at hvnull
    cases hvnull
  have htypes : ((fields.zip columns).any fun entry => entry.2.type ≠ entry.1.type) = false := by
    rw [List.any_eq_false]
    rintro ⟨field, column⟩ hentry
    have hunder : Column.Under rowCount field column := List.forall₂_zip h hentry
    simp [hunder.type]
  cases columns with
  | nil =>
    cases h
    exact absurd rfl hne
  | cons first rest =>
    have hfirst : first.rows.length = rowCount := hlength first List.mem_cons_self
    have hlengths : ((first :: rest).any fun column => column.rows.length ≠ first.rows.length) = false := by
      rw [List.any_eq_false]
      intro column hcolumn
      simp [hlength column hcolumn, hfirst]
    rw [Batch.tryNew, if_neg (not_not.2 h.length_eq), List.head?_cons]
    dsimp only
    rw [hnulls]
    dsimp only
    rw [hlengths, htypes, hfirst]
    rfl

/-- The first field of a name, with what it goes with. -/
theorem find_related {R : Field A → Column A V → Prop} {fields : List (Field A)}
    {columns : List (Column A V)} (h : List.Forall₂ R fields columns) {name : String}
    (hname : name ∈ fields.map Field.name) :
    ∃ field ∈ fields, ∃ column, field.name = name ∧ R field column ∧
      ((fields.zip columns).find? fun entry => entry.1.name == name) = some (field, column) := by
  induction h with
  | nil => cases hname
  | @cons first column fields columns hfirst _ ih =>
    rw [List.zip_cons_cons, List.find?_cons]
    by_cases heq : first.name = name
    · rw [beq_iff_eq.2 heq]
      exact ⟨first, List.mem_cons_self, column, heq, hfirst, rfl⟩
    · rw [beq_eq_false_iff_ne.2 heq]
      obtain hname | hname := List.mem_cons.1 hname
      · exact absurd hname.symm heq
      · obtain ⟨field, hfield, found, hfname, hunder, hfound⟩ := ih hname
        exact ⟨field, List.mem_cons_of_mem _ hfield, found, hfname, hunder, hfound⟩

/-- A field of a batch has its column. -/
theorem Batch.Sound.columnNamed {batch : Batch A V} (h : batch.Sound) {name : String}
    (hname : name ∈ batch.fields.map Field.name) :
    ∃ field ∈ batch.fields, ∃ column, field.name = name ∧
      Column.Under batch.rowCount field column ∧ batch.columnNamed name = some column := by
  obtain ⟨field, hfield, column, hfname, hunder, hfound⟩ := find_related h hname
  refine ⟨field, hfield, column, hfname, hunder, ?_⟩
  rw [Batch.columnNamed, hfound]
  rfl

theorem columnNamed_none {batch : Batch A V} {name : String}
    (hname : name ∉ batch.fields.map Field.name) : batch.columnNamed name = none := by
  rw [Batch.columnNamed, Option.map_eq_none_iff, List.find?_eq_none]
  rintro ⟨field, column⟩ hentry heq
  rw [beq_iff_eq] at heq
  exact hname (heq ▸ List.mem_map_of_mem (List.of_mem_zip hentry).1)

end Columnar
