import Mathlib
import RdltConnectors.Cdc.Checkpoint
import RdltConnectors.Library.Writes

/-!
# What change rows mean

The source table, the changes made to it, and the tuples each replica identity
puts on the wire for them. Folding the rows a transaction comes to, deleting by
key and upserting otherwise, leaves each key as the change records speak of it
last. That is what the table has there, unless a row leaves its key and no record
says so, or a record deletes a key that another row has as well.
-/
namespace Cdc

open PgTypes Fallible

variable {V : Type} {builder : ColumnBuilder V} {p : Plan}

/-! ## The source table -/

/-- A stored value: NULL or its text form. -/
abbrev SourceValue := Option String

/-- A stored row, by relation column. -/
abbrev SourceRow := List SourceValue

def cellOf : SourceValue → Cell
  | none => .null
  | some text => .text text

/-- The planned columns of a stored row. -/
def rowCells (map : List Nat) (row : SourceRow) : List Cell :=
  map.map fun index => cellOf (row.getD index none)

/-- The merge key of a change row. -/
def Plan.keyOf (p : Plan) (cells : List Cell) : List Cell :=
  p.keyIndices.map fun index => cells.getD index .null

def Plan.rowKey (p : Plan) (map : List Nat) (row : SourceRow) : List Cell :=
  p.keyOf (rowCells map row)

/-- A table's rows, the latest first. -/
abbrev SourceTable := List SourceRow

abbrev DestTable := List Cell → Option (List Cell)

/-- No two rows share a merge key. A deferred constraint lets them inside a
transaction. -/
def Keyed (p : Plan) (map : List Nat) (T : SourceTable) : Prop := (T.map (p.rowKey map)).Nodup

instance (p : Plan) (map : List Nat) (T : SourceTable) : Decidable (Keyed p map T) :=
  inferInstanceAs (Decidable (T.map (p.rowKey map)).Nodup)

inductive Op where
  | insert (row : SourceRow)
  | update (old new : SourceRow)
  | delete (row : SourceRow)
  | truncate

/-- The change is one the table can undergo. -/
def Op.Valid (T : SourceTable) : Op → Prop
  | .insert _ => True
  | .update old _ => old ∈ T
  | .delete row => row ∈ T
  | .truncate => True

def Op.apply (T : SourceTable) : Op → SourceTable
  | .insert row => row :: T
  | .update old new => new :: T.erase old
  | .delete row => T.erase row
  | .truncate => []

/-- The row the table has at the key. -/
def rowAt (p : Plan) (map : List Nat) (T : SourceTable) (key : List Cell) : Option SourceRow :=
  T.find? fun row => p.rowKey map row = key

/-- The destination's image of the source table: its planned columns. -/
def project (p : Plan) (map : List Nat) (T : SourceTable) : DestTable :=
  fun key => (rowAt p map T key).map (rowCells map)

/-- Delete the key where the flag is set, otherwise upsert by key. -/
def Plan.applyRow (p : Plan) (D : DestTable) (row : Row) : DestTable :=
  Function.update D (p.keyOf row.1) (if row.2 then none else some row.1)

def Plan.fold (p : Plan) (D : DestTable) (rows : List Row) : DestTable :=
  rows.foldl p.applyRow D

@[simp] theorem fold_nil (D : DestTable) : p.fold D [] = D := rfl
@[simp] theorem fold_append (D : DestTable) (xs ys : List Row) :
    p.fold D (xs ++ ys) = p.fold (p.fold D xs) ys := by simp [Plan.fold]

/-! ## What a change puts on the wire -/

/-- The tuple column shows the value. -/
def Shows (value : SourceValue) (column : TupleValue) : Prop :=
  column = match value with
    | none => .null
    | some text => .text text.toUTF8

/-- The value, or for an out-of-line value the marker that it was left out. -/
def ShowsOrToast (value : SourceValue) (column : TupleValue) : Prop :=
  Shows value column ∨ value ≠ none ∧ column = .unchangedToast

/-- The tuple has a column for each of the relation's, each as `show` says. -/
def TupleShows (relation : Relation) (tuple : TupleData)
    (shown : Nat → TupleValue → Prop) : Prop :=
  ∀ index < relation.columns.length, ∃ column, tuple.values[index]? = some column ∧
    shown index column

/-- The relation columns an old tuple has: all under an identity that covers all
columns, otherwise the identity's own. An identity index may have columns it only
includes, which the merge key takes in and the old tuple does not. -/
def Plan.carries (p : Plan) (carried : Nat → Bool) (index : Nat) : Bool :=
  p.identity.coversAllColumns || carried index

/-- An old tuple: the columns it carries, and NULLs. -/
def ShowsOld (p : Plan) (relation : Relation) (carried : Nat → Bool) (row : SourceRow)
    (tuple : TupleData) : Prop :=
  TupleShows relation tuple fun index column =>
    if p.carries carried index then ShowsOrToast (row.getD index none) column else column = .null

/-- The messages a change can arrive as. Without full images an update sends the
old tuple only if a column of it changes; an unchanged out-of-line value may be
left out. -/
inductive Encodes (p : Plan) (relation : Relation) (carried : Nat → Bool) :
    Op → Message → Prop where
  | insert {row : SourceRow} {new : TupleData} :
      TupleShows relation new (fun index => Shows (row.getD index none)) →
      Encodes p relation carried (.insert row) (.insert relation.id new)
  | update {old new : SourceRow} {oldTuple : Option TupleData} {newTuple : TupleData} :
      TupleShows relation newTuple (fun index column =>
        Shows (new.getD index none) column ∨
          new.getD index none = old.getD index none ∧ column = .unchangedToast) →
      (∀ tuple, oldTuple = some tuple → ShowsOld p relation carried old tuple) →
      (oldTuple = none → p.identity.coversAllColumns = false ∧
        ∀ index, carried index = true → new.getD index none = old.getD index none) →
      Encodes p relation carried (.update old new) (.update relation.id oldTuple newTuple)
  | delete {row : SourceRow} {tuple : TupleData} :
      ShowsOld p relation carried row tuple →
      Encodes p relation carried (.delete row) (.delete relation.id tuple)
  | truncate {relations : List Nat} :
      relation.id ∈ relations → Encodes p relation carried .truncate (.truncate relations)

/-- The errors a change record raises: unchanged TOAST without an image, key data
missing or unusable, truncation. -/
def Unappliable (p : Plan) (e : SourceError) : Prop :=
  e = p.truncateError ∨ e = p.keylessDeleteError ∨ e = p.keyToastError ∨
    ∃ column, e = p.toastError column

/-! ## Rows out of tuples -/

theorem textCell_utf8 (text column : String) : p.textCell text.toUTF8 column = .ok (.text text) := by
  have hvalid : text.toUTF8.IsValidUTF8 := text.isValidUTF8
  have hdecode : String.fromUTF8? text.toUTF8 = some text := by
    rw [String.fromUTF8?, dif_pos hvalid]
    rfl
  rw [Plan.textCell, hdecode]
  rfl

/-- The stream's own relation and the column map it gives the decode plan. -/
structure PlanMap (p : Plan) (relation : Relation) (map : List Nat) : Prop where
  selected : p.selects relation = true
  planned : p.planMap relation = .ok map
  keys : ∀ index ∈ p.keyIndices, index < p.columns.length

variable {relation : Relation} {map : List Nat} {carried : Nat → Bool}

theorem PlanMap.length (h : PlanMap p relation map) : map.length = p.columns.length :=
  mapM_length h.planned

theorem PlanMap.lt (h : PlanMap p relation map) {index : Nat} (hmem : index ∈ map) :
    index < relation.columns.length := by
  obtain ⟨i, hi, rfl⟩ := List.getElem_of_mem hmem
  have hlen := h.length
  obtain ⟨-, hget⟩ := mapM_getElem h.planned
  obtain ⟨b, hb, hfound⟩ := hget i p.columns[i] (by simp)
  have hb' : map[i] = b := by simpa [List.getElem?_eq_getElem hi] using hb
  rw [hb']
  cases hfind : relation.columns.findIdx? fun c => c.name == (p.columns[i]).name with
  | none =>
    rw [hfind] at hfound
    cases hfound
  | some found =>
    rw [hfind] at hfound
    obtain rfl : found = b := pure_ok.1 hfound
    exact (List.findIdx?_eq_some_iff_getElem.1 hfind).1

/-- A key index read through a planned row is the stored value's cell. -/
theorem rowCells_getD (h : PlanMap p relation map) (row : SourceRow) {index : Nat}
    (hlt : index < p.columns.length) :
    (rowCells map row).getD index .null = cellOf (row.getD (map.getD index 0) none) := by
  have hmap : index < map.length := h.length ▸ hlt
  simp [rowCells, List.getD, hmap]

/-- A tuple's plan cells, when each of its columns decodes or fails as expected. -/
theorem tupleRow_ok_or (h : PlanMap p relation map) {tuple : TupleData} {old : Option TupleData}
    {row : SourceRow} {Expected : SourceError → Prop}
    (hcolumn : ∀ index < relation.columns.length, ∀ column ∈ p.columns, ∀ out,
      out = (match tuple.values[index]? with
        | none => throw (p.fatal s!"tuple lacks column `{column.name}`")
        | some .null => pure .null
        | some (.text bytes) => p.textCell bytes column.name
        | some .unchangedToast =>
          match old.bind fun oldTuple => oldTuple.values[index]? with
          | some (.text bytes) =>
            if p.identity.coversAllColumns then p.textCell bytes column.name
            else throw (p.toastError column.name)
          | _ => throw (p.toastError column.name) : Except SourceError Cell) →
      out = .ok (cellOf (row.getD index none)) ∨ ∃ e, out = .error e ∧ Expected e) :
    p.tupleRow map tuple old = .ok (rowCells map row) ∨
      ∃ e, p.tupleRow map tuple old = .error e ∧ Expected e := by
  have hpairs : (map.zip p.columns).map (fun pair => cellOf (row.getD pair.1 none))
      = rowCells map row := by
    have hfst : (map.zip p.columns).map Prod.fst = map :=
      List.map_fst_zip (Nat.le_of_eq h.length)
    conv_rhs => rw [rowCells, ← hfst]
    rw [List.map_map]
    rfl
  rw [← hpairs]
  refine mapM_ok_or fun pair hpair => ?_
  obtain ⟨hindex, hcol⟩ := List.of_mem_zip hpair
  exact hcolumn pair.1 (h.lt hindex) pair.2 hcol _ rfl

/-- The key cells of an old tuple: NULL for a key column it does not carry. -/
def Plan.sentKey (p : Plan) (map : List Nat) (carried : Nat → Bool) (row : SourceRow) :
    List Cell :=
  p.keyIndices.map fun index =>
    if p.carries carried (map.getD index 0) then (rowCells map row).getD index .null else .null

/-- An old tuple's key cells are those it carries, or unusable. -/
theorem keyCells_ok_or (h : PlanMap p relation map) {row : SourceRow} {tuple : TupleData}
    (hold : ShowsOld p relation carried row tuple) :
    p.keyCells map tuple = .ok (p.sentKey map carried row) ∨
      ∃ e, p.keyCells map tuple = .error e ∧ Unappliable p e := by
  refine mapM_ok_or fun keyIndex hkey => ?_
  have hlt := h.keys keyIndex hkey
  have hmap : keyIndex < map.length := h.length ▸ hlt
  have hindex : map.getD keyIndex 0 < relation.columns.length := by
    have hget : map.getD keyIndex 0 = map[keyIndex] := by simp [List.getD, hmap]
    rw [hget]
    exact h.lt (List.getElem_mem hmap)
  obtain ⟨column, hcolumn, hshown⟩ := hold (map.getD keyIndex 0) hindex
  simp only [hcolumn]
  by_cases hcarried : p.carries carried (map.getD keyIndex 0) = true
  · rw [if_pos hcarried] at hshown ⊢
    rw [rowCells_getD h row hlt]
    rcases hshown with hshown | ⟨-, rfl⟩
    · cases hv : row.getD (map.getD keyIndex 0) none with
      | none =>
        simp only [Shows, hv] at hshown
        subst hshown
        exact .inl rfl
      | some text =>
        simp only [Shows, hv] at hshown
        subst hshown
        exact .inl (textCell_utf8 text _)
    · exact .inr ⟨_, rfl, .inr (.inr (.inl rfl))⟩
  · rw [if_neg hcarried] at hshown ⊢
    subst hshown
    exact .inl rfl

/-- A key that is sent without a NULL is the row's. -/
theorem sentKey_eq_of_no_null {row : SourceRow}
    (hnull : ¬ ((p.sentKey map carried row).any fun cell => cell == .null) = true) :
    p.sentKey map carried row = p.rowKey map row := by
  refine List.map_congr_left fun index hindex => ?_
  by_cases hcarried : p.carries carried (map.getD index 0) = true
  · exact if_pos hcarried
  · refine absurd (List.any_eq_true.2 ⟨.null, List.mem_map.2 ⟨index, hindex, ?_⟩, rfl⟩) hnull
    exact if_neg hcarried

/-- Where the new row has the key cells that are sent, the key counts as unchanged. -/
theorem keyChanged_sentKey {old new : SourceRow}
    (hsame : ∀ index ∈ p.keyIndices, p.carries carried (map.getD index 0) = true →
      (rowCells map new).getD index .null = (rowCells map old).getD index .null) :
    keyChanged (p.sentKey map carried old) (p.rowKey map new) = false := by
  rw [keyChanged, Plan.sentKey, Plan.rowKey, Plan.keyOf, List.zip_map', List.any_map,
    List.any_eq_false]
  intro index hindex
  by_cases hcarried : p.carries carried (map.getD index 0) = true
  · simp only [Function.comp_apply, hcarried, if_true, hsame index hindex hcarried,
      bne_self_eq_false, Bool.and_false, Bool.false_eq_true, not_false_eq_true]
  · simp only [Function.comp_apply, hcarried, if_false, bne_self_eq_false, Bool.false_and,
      Bool.false_eq_true, not_false_eq_true]

/-- An old image's key is the old row's, when the tuple carries it. -/
theorem deleteRow_keyOf (p : Plan) (cell : Nat → Cell)
    (hkeys : ∀ index ∈ p.keyIndices, index < p.columns.length) :
    p.keyOf (p.deleteRow (p.keyIndices.map cell)) = p.keyIndices.map cell := by
  have hfold (indices : List Nat) (row : List Cell) :
      (indices.zip (indices.map cell)).foldl (fun row pair => row.set pair.1 pair.2) row
        = indices.foldl (fun row index => row.set index (cell index)) row := by
    induction indices generalizing row with
    | nil => rfl
    | cons index indices ih => exact ih _
  have hrow : p.deleteRow (p.keyIndices.map cell) =
      p.keyIndices.foldl (fun row index => row.set index (cell index))
        (List.replicate p.columns.length .null) := hfold _ _
  -- a cell set once keeps its value: it is only ever set to the same one again
  have hget (indices : List Nat) (row : List Cell) (index : Nat) (hlt : index < row.length)
      (hset : index ∈ indices ∨ row.getD index .null = cell index) :
      (indices.foldl (fun row index => row.set index (cell index)) row).getD index .null
        = cell index := by
    induction indices generalizing row with
    | nil => simpa using hset
    | cons first indices ih =>
      refine ih _ (by simpa using hlt) ?_
      by_cases hfirst : first = index
      · subst hfirst
        exact .inr (by simp [List.getD, hlt])
      · rcases hset with hmem | hrow
        · exact .inl ((List.mem_cons.1 hmem).resolve_left (Ne.symm hfirst))
        · refine .inr ?_
          simpa [List.getD, List.getElem?_set_ne hfirst] using hrow
  rw [Plan.keyOf, hrow]
  refine List.map_congr_left fun index hmem => ?_
  exact hget _ _ _ (by simpa using hkeys index hmem) (.inl hmem)

/-! ## What a change comes to -/

/-- The rows a change is turned into. -/
def Op.rows (p : Plan) (map : List Nat) (carried : Nat → Bool) : Op → List Row
  | .insert row => [(rowCells map row, false)]
  | .update old new =>
    if keyChanged (p.sentKey map carried old) (p.rowKey map new) then
      [(p.deleteRow (p.sentKey map carried old), true), (rowCells map new, false)]
    else [(rowCells map new, false)]
  | .delete row => [(p.deleteRow (p.rowKey map row), true)]
  | .truncate => []

/-- A new tuple's cells, each shown, or left out where it is the old row's. -/
theorem newRow_ok_or (h : PlanMap p relation map) {new old : SourceRow} {tuple : TupleData}
    {oldTuple : Option TupleData}
    (hnew : TupleShows relation tuple fun index column =>
      Shows (new.getD index none) column ∨
        new.getD index none = old.getD index none ∧ column = .unchangedToast)
    (hold : ∀ image, oldTuple = some image → ShowsOld p relation carried old image) :
    p.tupleRow map tuple oldTuple = .ok (rowCells map new) ∨
      ∃ e, p.tupleRow map tuple oldTuple = .error e ∧ Unappliable p e := by
  have htoast (column : Column) : Unappliable p (p.toastError column.name) :=
    .inr (.inr (.inr ⟨_, rfl⟩))
  refine tupleRow_ok_or h fun index hindex column _ out hout => ?_
  obtain ⟨shown, hshown, hcase⟩ := hnew index hindex
  rw [hshown] at hout
  rcases hcase with hshows | ⟨hsame, rfl⟩
  · cases hv : new.getD index none with
    | none =>
      simp only [Shows, hv] at hshows
      subst hshows hout
      exact .inl rfl
    | some text =>
      simp only [Shows, hv] at hshows
      subst hshows hout
      exact .inl (textCell_utf8 text _)
  · cases himage : oldTuple with
    | none =>
      subst himage hout
      exact .inr ⟨_, rfl, htoast column⟩
    | some image =>
      subst himage
      obtain ⟨oldShown, holdShown, hcase⟩ := hold image rfl index hindex
      simp only [Option.bind_some, holdShown] at hout
      cases oldShown with
      | null => exact .inr ⟨_, hout, htoast column⟩
      | unchangedToast => exact .inr ⟨_, hout, htoast column⟩
      | text bytes =>
        by_cases hfull : p.identity.coversAllColumns
        · -- the whole old image is there, so its text is the unchanged value
          simp only [hfull, if_true] at hout
          rw [if_pos (by rw [Plan.carries, hfull, Bool.true_or])] at hcase
          rcases hcase with hshows | ⟨-, htoasted⟩
          · rw [hsame]
            cases hv : old.getD index none with
            | none =>
              simp only [Shows, hv] at hshows
              cases hshows
            | some text =>
              simp only [Shows, hv, TupleValue.text.injEq] at hshows
              subst hshows hout
              exact .inl (textCell_utf8 text _)
          · cases htoasted
        · simp only [hfull, if_false, Bool.false_eq_true] at hout
          exact .inr ⟨_, hout, htoast column⟩

theorem insertRows_ok_or (h : PlanMap p relation map) {row : SourceRow} {new : TupleData}
    (hnew : TupleShows relation new fun index => Shows (row.getD index none)) :
    p.insertRows map new = .ok [(rowCells map row, false)] ∨
      ∃ e, p.insertRows map new = .error e ∧ Unappliable p e := by
  have hshown : TupleShows relation new fun index column =>
      Shows (row.getD index none) column ∨
        row.getD index none = row.getD index none ∧ column = .unchangedToast := by
    intro index hindex
    obtain ⟨column, hcolumn, hshows⟩ := hnew index hindex
    exact ⟨column, hcolumn, .inl hshows⟩
  rcases newRow_ok_or h hshown
      (show ∀ image, none = some image → ShowsOld p relation (fun _ => true) row image by simp) with hrow | ⟨e, hrow, he⟩
  · exact .inl (by rw [Plan.insertRows, hrow]; rfl)
  · exact .inr ⟨e, by rw [Plan.insertRows, hrow]; rfl, he⟩

theorem deleteRows_ok_or (h : PlanMap p relation map) {row : SourceRow} {tuple : TupleData}
    (hold : ShowsOld p relation carried row tuple) :
    p.deleteRows map tuple = .ok (Op.rows p map carried (.delete row)) ∨
      ∃ e, p.deleteRows map tuple = .error e ∧ Unappliable p e := by
  rcases keyCells_ok_or h hold with hkey | ⟨e, hkey, he⟩
  · by_cases hnull : ((p.sentKey map carried row).any fun cell => cell == .null) = true
    · exact .inr ⟨_, by rw [Plan.deleteRows, hkey, bind_ok_left, if_pos hnull]; rfl,
        .inr (.inl rfl)⟩
    · refine .inl ?_
      rw [Plan.deleteRows, hkey, bind_ok_left, if_neg hnull, sentKey_eq_of_no_null hnull]
      rfl
  · exact .inr ⟨e, by rw [Plan.deleteRows, hkey]; rfl, he⟩

theorem updateRows_ok_or (h : PlanMap p relation map) {old new : SourceRow}
    {oldTuple : Option TupleData} {newTuple : TupleData}
    (hnew : TupleShows relation newTuple fun index column =>
      Shows (new.getD index none) column ∨
        new.getD index none = old.getD index none ∧ column = .unchangedToast)
    (hold : ∀ image, oldTuple = some image → ShowsOld p relation carried old image)
    (hsame : oldTuple = none → p.identity.coversAllColumns = false ∧
      ∀ index, carried index = true → new.getD index none = old.getD index none) :
    p.updateRows map oldTuple newTuple = .ok (Op.rows p map carried (.update old new)) ∨
      ∃ e, p.updateRows map oldTuple newTuple = .error e ∧ Unappliable p e := by
  cases himage : oldTuple with
  | none =>
    subst himage
    obtain ⟨hkeyonly, hcells⟩ := hsame rfl
    have hunchanged : keyChanged (p.sentKey map carried old) (p.rowKey map new) = false := by
      refine keyChanged_sentKey fun index hindex hcarried => ?_
      rw [Plan.carries, hkeyonly, Bool.false_or] at hcarried
      rw [rowCells_getD h new (h.keys index hindex), rowCells_getD h old (h.keys index hindex),
        hcells _ hcarried]
    rcases newRow_ok_or h hnew hold with hrow | ⟨e, hrow, he⟩
    · refine .inl ?_
      rw [Op.rows, hunchanged]
      simp [Plan.updateRows, hrow, bind, Except.bind, pure, Except.pure]
    · exact .inr ⟨e, by simp [Plan.updateRows, hrow, bind, Except.bind, pure, Except.pure], he⟩
  | some image =>
    subst himage
    rcases keyCells_ok_or h (hold image rfl) with hkey | ⟨e, hkey, he⟩
    · rcases newRow_ok_or h hnew hold with hrow | ⟨e, hrow, he⟩
      · refine .inl ?_
        simp only [Plan.updateRows, Option.mapM_some, hkey, hrow, map_eq_pure_bind, bind_ok_left,
          pure_bind]
        rw [Op.rows]
        by_cases hchanged : keyChanged (p.sentKey map carried old) (p.rowKey map new) = true
        · rw [if_pos hchanged]
          exact if_pos hchanged
        · rw [if_neg hchanged]
          exact if_neg hchanged
      · exact .inr ⟨e, by simp [Plan.updateRows, hkey, hrow, bind, Except.bind, Functor.map,
          Except.map], he⟩
    · exact .inr ⟨e, by simp [Plan.updateRows, hkey, bind, Except.bind, Functor.map,
          Except.map], he⟩

/-- One change on the wire: its rows, or an unappliable record. -/
theorem changeRows_ok_or (h : PlanMap p relation map) {ours : Nat → Option (List Nat)}
    (hours : ours relation.id = some map) {op : Op} {m : Message}
    (henc : Encodes p relation carried op m) :
    p.changeRows ours m = .ok (op.rows p map carried) ∨
      ∃ e, p.changeRows ours m = .error e ∧ Unappliable p e := by
  cases henc with
  | insert hnew =>
    simp only [Plan.changeRows, hours]
    exact insertRows_ok_or h hnew
  | update hnew hold hsame =>
    simp only [Plan.changeRows, hours]
    exact updateRows_ok_or h hnew hold hsame
  | delete hold =>
    simp only [Plan.changeRows, hours]
    exact deleteRows_ok_or h hold
  | @truncate relations hmem =>
    refine .inr ⟨_, if_pos ?_, .inl rfl⟩
    exact List.any_eq_true.2 ⟨relation.id, hmem, by simp [hours]⟩

/-! ## What the records say of a key -/

/-- What a change record says of a key: the row it has now, or that it has none. -/
def Op.tells (p : Plan) (map : List Nat) (carried : Nat → Bool) :
    Op → List (List Cell × Option SourceRow)
  | .insert row => [(p.rowKey map row, some row)]
  | .update old new =>
    if keyChanged (p.sentKey map carried old) (p.rowKey map new) then
      [(p.sentKey map carried old, none), (p.rowKey map new, some new)]
    else [(p.rowKey map new, some new)]
  | .delete row => [(p.rowKey map row, none)]
  | .truncate => []

/-- A change row as a write of its key. -/
def Plan.written (p : Plan) (row : Row) : List Cell × Option (List Cell) :=
  (p.keyOf row.1, if row.2 then none else some row.1)

theorem fold_eq_writeAll (D : DestTable) (rows : List Row) :
    p.fold D rows = Writes.writeAll D (rows.map p.written) := by
  rw [Writes.writeAll, List.foldl_map]
  rfl

theorem keyOf_deleteRow (h : PlanMap p relation map) (cell : Nat → Cell) :
    p.keyOf (p.deleteRow (p.keyIndices.map cell)) = p.keyIndices.map cell :=
  deleteRow_keyOf p cell h.keys

/-- The rows of a change write what its record says. -/
theorem Op.written_rows (h : PlanMap p relation map) (op : Op) :
    (op.rows p map carried).map p.written =
      (op.tells p map carried).map (Prod.map id (Option.map (rowCells map))) := by
  cases op with
  | insert row => rfl
  | delete row =>
    simp only [Op.rows, Op.tells, List.map_cons, List.map_nil, Plan.written]
    rw [show p.keyOf (p.deleteRow (p.rowKey map row)) = p.rowKey map row from keyOf_deleteRow h _]
    rfl
  | truncate => rfl
  | update old new =>
    rw [Op.rows, Op.tells]
    split
    · simp only [List.map_cons, List.map_nil, Plan.written]
      rw [Plan.sentKey, keyOf_deleteRow h]
      rfl
    · rfl

/-- What the records of some changes say of a key last, and what the table had
there where none names it. -/
def said (p : Plan) (map : List Nat) (carried : Nat → Bool) (T : SourceTable) (ops : List Op)
    (key : List Cell) : Option SourceRow :=
  (Writes.last key (ops.flatMap (Op.tells p map carried))).getD (rowAt p map T key)

/-- The last word on a key is wrong: the row it speaks of is not there any more and
no record names the key since, or the key was deleted and there is a row. -/
def Astray (p : Plan) (map : List Nat) (carried : Nat → Bool) (T : SourceTable) (ops : List Op)
    (T' : SourceTable) (key : List Cell) : Prop :=
  (said p map carried T ops key).map (rowCells map) ≠ project p map T' key

instance (p : Plan) (map : List Nat) (carried : Nat → Bool) (T : SourceTable) (ops : List Op)
    (T' : SourceTable) (key : List Cell) : Decidable (Astray p map carried T ops T' key) :=
  inferInstanceAs (Decidable (_ ≠ _))

def opRows (p : Plan) (map : List Nat) (carried : Nat → Bool) (ops : List Op) : List Row :=
  ops.flatMap (Op.rows p map carried)

theorem written_opRows (h : PlanMap p relation map) (ops : List Op) :
    (opRows p map carried ops).map p.written =
      (ops.flatMap (Op.tells p map carried)).map (Prod.map id (Option.map (rowCells map))) := by
  rw [opRows, List.map_flatMap, List.map_flatMap]
  exact List.flatMap_congr fun op _ => op.written_rows h

/-- Folding changes into the image of a table gives the image of another exactly
when the last word on each key is right there. -/
theorem fold_project_iff (h : PlanMap p relation map) {T T' : SourceTable} {ops : List Op} :
    p.fold (project p map T) (opRows p map carried ops) = project p map T' ↔
      ∀ key, ¬ Astray p map carried T ops T' key := by
  rw [funext_iff]
  refine forall_congr' fun key => ?_
  rw [fold_eq_writeAll, Writes.writeAll_apply, written_opRows h, Writes.last_map, Astray, not_not,
    said, project]
  cases Writes.last key (ops.flatMap (Op.tells p map carried)) <;> rfl

/-! ## Changes as made -/

/-- A row that leaves its key is the only one there, and its record names the key. -/
def Op.Plain (p : Plan) (map : List Nat) (carried : Nat → Bool) (T : SourceTable) : Op → Prop
  | .insert _ => True
  | .update old new =>
    p.rowKey map new = p.rowKey map old ∨
      (∀ row ∈ T.erase old, p.rowKey map row ≠ p.rowKey map old) ∧
        p.sentKey map carried old = p.rowKey map old ∧
        keyChanged (p.rowKey map old) (p.rowKey map new) = true
  | .delete row => ∀ other ∈ T.erase row, p.rowKey map other ≠ p.rowKey map row
  | .truncate => False

theorem rowAt_cons (row : SourceRow) (T : SourceTable) (key : List Cell) :
    rowAt p map (row :: T) key = if p.rowKey map row = key then some row else rowAt p map T key := by
  rw [rowAt, List.find?_cons, rowAt]
  by_cases hkey : p.rowKey map row = key <;> simp [hkey]

theorem rowAt_eq_none {T : SourceTable} {key : List Cell}
    (h : ∀ row ∈ T, p.rowKey map row ≠ key) : rowAt p map T key = none :=
  List.find?_eq_none.2 fun row hrow => by simpa using h row hrow

theorem rowAt_erase_of_ne {T : SourceTable} {row : SourceRow} {key : List Cell}
    (hne : p.rowKey map row ≠ key) : rowAt p map (T.erase row) key = rowAt p map T key := by
  induction T with
  | nil => rfl
  | cons first T ih =>
    by_cases hfirst : first = row
    · rw [hfirst, List.erase_cons_head, rowAt_cons, if_neg hne]
    · rw [List.erase_cons_tail (by simpa using hfirst), rowAt_cons, ih, rowAt_cons]

/-- The table's image after a row has been put at its key. -/
theorem project_cons (row : SourceRow) (T : SourceTable) :
    project p map (row :: T) =
      Function.update (project p map T) (p.rowKey map row) (some (rowCells map row)) := by
  funext key
  rw [project, rowAt_cons]
  by_cases hkey : p.rowKey map row = key
  · rw [if_pos hkey, ← hkey, Function.update_self, Option.map_some]
  · rw [if_neg hkey, Function.update_of_ne (Ne.symm hkey), project]

/-- And after the only one there has left it. -/
theorem project_erase {T : SourceTable} {row : SourceRow}
    (halone : ∀ other ∈ T.erase row, p.rowKey map other ≠ p.rowKey map row) :
    project p map (T.erase row) = Function.update (project p map T) (p.rowKey map row) none := by
  funext key
  by_cases hkey : p.rowKey map row = key
  · rw [← hkey, Function.update_self, project, rowAt_eq_none halone, Option.map_none]
  · rw [Function.update_of_ne (Ne.symm hkey), project, rowAt_erase_of_ne hkey, project]

/-- A row leaving the key it comes back to. -/
theorem update_project_erase {T : SourceTable} {row : SourceRow} {key : List Cell}
    (hkey : p.rowKey map row = key) (cells : Option (List Cell)) :
    Function.update (project p map (T.erase row)) key cells =
      Function.update (project p map T) key cells := by
  funext other
  by_cases hother : other = key
  · rw [hother, Function.update_self, Function.update_self]
  · rw [Function.update_of_ne hother, Function.update_of_ne hother, project,
      rowAt_erase_of_ne (fun heq => hother (heq.symm.trans hkey)), project]

/-- One such change, folded. -/
theorem Op.Plain.fold_project (h : PlanMap p relation map) {T : SourceTable} {op : Op}
    (hplain : op.Plain p map carried T) :
    p.fold (project p map T) (op.rows p map carried) = project p map (op.apply T) := by
  rw [fold_eq_writeAll, op.written_rows h]
  cases op with
  | insert row => exact (project_cons row T).symm
  | delete row => exact (project_erase hplain).symm
  | truncate => exact hplain.elim
  | update old new =>
    rw [Op.apply, project_cons, Op.tells]
    rcases hplain with hsame | ⟨halone, hsent, hchanged⟩
    · have hunchanged : keyChanged (p.sentKey map carried old) (p.rowKey map new) = false :=
        keyChanged_sentKey fun index hindex _ => List.map_inj_left.1 hsame index hindex
      rw [hunchanged, update_project_erase hsame.symm]
      rfl
    · rw [hsent, hchanged, project_erase halone]
      rfl

end Cdc
