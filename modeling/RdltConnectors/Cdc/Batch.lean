import RdltConnectors.Cdc.Apply
import RdltConnectors.Library.Fallible

/-!
# The rows of a change batch

A batch is column arrays; what it means is its rows. Assembling one succeeds
exactly when every row decodes by itself, and its rows are those, in order, so
cutting the same rows into other batches changes nothing.
-/
namespace Cdc

open PgTypes Fallible

variable {V : Type}

/-- A decoded row: its values in plan order, and its deletion flag. -/
abbrev OutRow (V : Type) := List (Option V) × Option Bool

/-- The rows an array-wise batch holds. -/
def RecordBatch.rows (b : RecordBatch V) : List (OutRow V) :=
  (List.range b.flag.length).map fun i =>
    (b.arrays.map fun array => (array[i]?).join, (b.flag[i]?).join)

def batchRows (emits : List (Emit V)) : List (OutRow V) :=
  emits.flatMap fun
    | .batch b => b.rows
    | .checkpoint _ => []

@[simp] theorem batchRows_nil : batchRows ([] : List (Emit V)) = [] := rfl
@[simp] theorem batchRows_append (xs ys : List (Emit V)) :
    batchRows (xs ++ ys) = batchRows xs ++ batchRows ys := by simp [batchRows]
@[simp] theorem batchRows_batch (b : RecordBatch V) (xs : List (Emit V)) :
    batchRows (.batch b :: xs) = b.rows ++ batchRows xs := rfl
@[simp] theorem batchRows_checkpoint (c : Nat) (xs : List (Emit V)) :
    batchRows (.checkpoint c :: xs) = batchRows xs := rfl

def decodeCell (builder : ColumnBuilder V) (cells : List Cell) (indexed : Column × Nat) :
    Except String (Option V) := do
  (builder.new indexed.1.kind).mapError (columnError indexed.1)
  cellValue builder indexed.1 (cells.getD indexed.2 .null)

def decodeRow (builder : ColumnBuilder V) (columns : List Column) (row : Row) :
    Except String (OutRow V) := do
  let values ← columns.zipIdx.mapM (decodeCell builder row.1)
  pure (values, flagValue row.2)

variable {builder : ColumnBuilder V} {columns : List Column}

theorem columnArray_ok {rows : List (List Cell)} {indexed : Column × Nat}
    {array : List (Option V)} (h : columnArray builder rows indexed = .ok array) :
    array.length = rows.length ∧
      ∀ (i : Nat) cells, rows[i]? = some cells →
        ∃ v, array[i]? = some v ∧ decodeCell builder cells indexed = .ok v := by
  obtain ⟨u, hnew, hcells⟩ := bind_ok.1 h
  obtain ⟨hlen, hget⟩ := mapM_getElem hcells
  refine ⟨hlen, fun i cells hi => ?_⟩
  obtain ⟨v, hv, hcell⟩ := hget i cells hi
  exact ⟨v, hv, bind_ok.2 ⟨u, hnew, hcell⟩⟩

/-- The rows of an assembled batch are the rows it was assembled from. -/
theorem batchOf_rows {flagColumn : String} {rows : List Row} {b : RecordBatch V}
    (h : batchOf builder columns flagColumn (rows.map Prod.fst) (rows.map Prod.snd) = .ok b) :
    rows.mapM (decodeRow builder columns) = .ok b.rows := by
  obtain ⟨arrays, harrays, hb⟩ := bind_ok.1 h
  obtain rfl := pure_ok.1 hb
  obtain ⟨hlen, hget⟩ := mapM_getElem harrays
  refine mapM_of_getElem (by simp [RecordBatch.rows]) fun i row hi => ?_
  have hirows : i < rows.length := by
    by_contra hout
    rw [List.getElem?_eq_none (by omega)] at hi
    cases hi
  refine ⟨(arrays.map fun array => (array[i]?).join, flagValue row.2), ?_, ?_⟩
  · have hrow : rows[i] = row := by simpa [List.getElem?_eq_getElem hirows] using hi
    simp [RecordBatch.rows, hirows, hrow]
  · refine bind_ok.2 ⟨arrays.map fun array => (array[i]?).join, ?_, rfl⟩
    refine mapM_of_getElem (by simpa using hlen) fun j indexed hj => ?_
    obtain ⟨array, hjarray, harray⟩ := hget j indexed hj
    obtain ⟨-, hcells⟩ := columnArray_ok harray
    obtain ⟨v, hv, hdecode⟩ := hcells i row.1 (by simp [hi])
    exact ⟨v, by simp [hjarray, hv], hdecode⟩

/-- Rows that each decode assemble, however they are grouped. -/
theorem batchOf_succeeds (flagColumn : String) {rows : List Row} (hne : rows ≠ [])
    (h : ∃ out, rows.mapM (decodeRow builder columns) = .ok out) :
    ∃ b, batchOf builder columns flagColumn (rows.map Prod.fst) (rows.map Prod.snd) = .ok b := by
  have hrow := mapM_succeeds.1 h
  suffices harrays : ∃ arrays, columns.zipIdx.mapM
      (columnArray builder (rows.map Prod.fst)) = .ok arrays by
    obtain ⟨arrays, harrays⟩ := harrays
    exact ⟨_, bind_ok.2 ⟨arrays, harrays, rfl⟩⟩
  refine mapM_succeeds.2 fun indexed hindexed => ?_
  have hcell (row : Row) (hmem : row ∈ rows) :
      ∃ v, decodeCell builder row.1 indexed = .ok v := by
    obtain ⟨out, hout⟩ := hrow row hmem
    obtain ⟨values, hvalues, -⟩ := bind_ok.1 hout
    exact mapM_succeeds.1 ⟨values, hvalues⟩ indexed hindexed
  obtain ⟨first, rest, rfl⟩ := List.exists_cons_of_ne_nil hne
  obtain ⟨v, hv⟩ := hcell first (by simp)
  obtain ⟨u, hnew, -⟩ := bind_ok.1 hv
  suffices hall : ∃ array, ((first :: rest).map Prod.fst).mapM
      (fun row => cellValue builder indexed.1 (row.getD indexed.2 .null)) = .ok array by
    obtain ⟨array, harray⟩ := hall
    exact ⟨array, bind_ok.2 ⟨u, hnew, harray⟩⟩
  refine mapM_succeeds.2 fun cells hcells => ?_
  obtain ⟨row, hmem, rfl⟩ := List.mem_map.1 hcells
  obtain ⟨v, hv⟩ := hcell row hmem
  obtain ⟨-, -, hvalue⟩ := bind_ok.1 hv
  exact ⟨v, hvalue⟩

end Cdc
