import RdltConnectors.FileSource.Cursor
import RdltConnectors.Library.Digits
import RdltConnectors.Library.Fallible
import RdltConnectors.Library.Numerals

/-!
# Reading a csv file in two passes

The first pass joins the shapes of each column's values over the whole file, the
second turns every record into a JSON object under the shapes it found. The file
is opened once for each pass, so the two may see different contents.
-/
namespace FileSource

open Fallible Numerals

/-- What a column's values have looked like so far. -/
inductive ValueShape where
  | unseen
  | bool
  | int
  | float
  | text
  deriving DecidableEq, Repr

def ValueShape.of (cell : String) : ValueShape :=
  if cell = "true" ∨ cell = "false" then .bool
  else if (parseI64 cell.toList).isSome then .int
  else if (parseF64 cell.toList).isSome then .float
  else .text

def ValueShape.join : ValueShape → ValueShape → ValueShape
  | .unseen, shape => shape
  | shape, .unseen => shape
  | .int, .float => .float
  | .float, .int => .float
  | a, b => if a = b then a else .text

inductive HintType where
  | bool | int64 | float64 | utf8 | timestampTz | date | time | uuid | json
  deriving DecidableEq, Repr

/-- How one column's cells become JSON. -/
inductive ColumnPlan where
  | hinted (hint : HintType)
  | shaped (shape : ValueShape)
  deriving DecidableEq, Repr

/-- A cell under a json hint is the document it spells. -/
inductive JsonValue where
  | null
  | bool (b : Bool)
  | int (n : Int)
  | float (number : Double)
  | string (text : String)
  | document (text : String)
  deriving DecidableEq, Repr

/-- Members stay in the order in which they were inserted. -/
abbrev Object := List (String × JsonValue)

/-- What the parser makes of one file's bytes: the header row when there is one, the
records behind it, and the failure it stops at. All rows are of one width. -/
structure Contents (hasHeader : Bool) where
  header : Except String (List String)
  records : List (List String)
  broken : Option String
  width : Nat
  even : ∀ record ∈ records, record.length = width
  header_even : hasHeader = true → ∀ names, header = .ok names → names.length = width

/-- A file that parses, with a header of its own. -/
def Contents.sheet (header : List String) (records : List (List String))
    (even : ∀ record ∈ records, record.length = header.length) : Contents true :=
  ⟨.ok header, records, none, header.length, even, fun _ _ h => Except.ok.inj h ▸ rfl⟩

inductive CsvRefusal where
  | header (path message : String)
  | duplicate (path name : String)
  | malformed (path : String) (row : Nat) (message : String)
  | fields (path : String) (row fields columns : Nat)
  | changed (path : String) (row : Nat) (column expected : String)
  | nonFinite (path : String) (row : Nat) (column cell : String)
  | unmet (path : String) (row : Nat) (column expected : String)
  deriving DecidableEq, Repr

def CsvRefusal.message : CsvRefusal → String
  | .header path message => s!"reading CSV header of `{path}`: {message}"
  | .duplicate path name =>
    s!"duplicate CSV column `{name}` in `{path}` — every header name must be unique; rename the " ++
      "column, or drop the duplicate"
  | .malformed path row message => s!"malformed CSV in `{path}` at row {row}: {message}"
  | .fields path row cells columns =>
    s!"malformed CSV in `{path}` at row {row}: {cells} fields, {columns} columns"
  | .changed path row column expected =>
    s!"`{path}` row {row} column `{column}`: value no longer parses as the inferred {expected} — " ++
      "the file changed between the inference and conversion passes; retry the run"
  | .nonFinite path row column cell =>
    s!"`{path}` row {row} column `{column}`: non-finite value `{cell}` has no JSON representation — " ++
      "declare a utf8 type hint to load it as a string"
  | .unmet path row column expected =>
    s!"`{path}` row {row} column `{column}`: value does not satisfy the declared {expected} hint"

/-! ## The survey -/

def observeCell (shape : ValueShape) (cell : String) : ValueShape :=
  if cell.isEmpty then shape else shape.join (.of cell)

/-- One record folded into the shapes, which grow to its width. -/
def observe : List ValueShape → List String → List ValueShape
  | shapes, [] => shapes
  | [], cell :: cells => observeCell .unseen cell :: observe [] cells
  | shape :: shapes, cell :: cells => observeCell shape cell :: observe shapes cells

/-- The first name that already stood before. -/
def repeated (seen : List String) : List String → Option String
  | [] => none
  | name :: names => if name ∈ seen then some name else repeated (name :: seen) names

variable {hasHeader : Bool}

/-- `row` where the reader stands once it has read these records. -/
def rowsRead (hasHeader : Bool) (records : List (List String)) : Nat :=
  hasHeader.toNat + records.length

def Contents.shapes (file : Contents hasHeader) : List ValueShape :=
  file.records.foldl observe []

def headerNames (path : String) (file : Contents hasHeader) : Except CsvRefusal (List String) :=
  if hasHeader then file.header.mapError (.header path) else .ok []

/-- `c0`, `c1` and so on, for a file without a header. -/
def synthesized (n : Nat) : List String := (List.range n).map fun i => s!"c{i}"

def survey (path : String) (file : Contents hasHeader) :
    Except CsvRefusal (List String × List ValueShape) := do
  let header ← headerNames path file
  match repeated [] header with
  | some name => .error (.duplicate path name)
  | none =>
    match file.broken with
    | some message => .error (.malformed path (rowsRead hasHeader file.records + 1) message)
    | none =>
      .ok (if hasHeader then header else synthesized file.shapes.length, file.shapes)

/-- A declared hint wins outright, and a column without values converts as text. -/
def planColumn (hints : List (String × HintType)) (name : String) (shape : Option ValueShape) :
    ColumnPlan :=
  match hints.lookup name with
  | some hint => .hinted hint
  | none =>
    match shape with
    | some .unseen => .shaped .text
    | none => .shaped .text
    | some shape => .shaped shape

def planColumns (names : List String) (shapes : List ValueShape)
    (hints : List (String × HintType)) : List ColumnPlan :=
  names.mapIdx fun i name => planColumn hints name shapes[i]?

/-! ## The conversion -/

/-- `Number::from_f64`. -/
def Double.toJson : Double → Option JsonValue
  | .finite negative mantissa exponent => some (.float (.finite negative mantissa exponent))
  | .infinite _ => none
  | .nan => none

section

variable (path : String) (row : Nat) (column cell : String)

def convertShaped : ValueShape → Except CsvRefusal JsonValue
  | .bool =>
    if cell = "true" then .ok (.bool true)
    else if cell = "false" then .ok (.bool false)
    else .error (.changed path row column "bool")
  | .int =>
    match parseI64 cell.toList with
    | some n => .ok (.int n)
    | none => .error (.changed path row column "int64")
  | .float =>
    match parseF64 cell.toList with
    | some number =>
      match Double.toJson number with
      | some finite => .ok finite
      | none => .error (.nonFinite path row column cell)
    | none => .error (.changed path row column "float64")
  | .unseen => .ok (.string cell)
  | .text => .ok (.string cell)

def convertHinted (isJson : String → Bool) : HintType → Except CsvRefusal JsonValue
  | .bool =>
    if cell = "true" then .ok (.bool true)
    else if cell = "false" then .ok (.bool false)
    else .error (.unmet path row column "bool")
  | .int64 =>
    match parseI64 cell.toList with
    | some n => .ok (.int n)
    | none => .error (.unmet path row column "int64")
  | .float64 =>
    match (parseF64 cell.toList).bind Double.toJson with
    | some finite => .ok finite
    | none => .error (.unmet path row column "float64")
  | .json => if isJson cell then .ok (.document cell) else .error (.unmet path row column "json")
  | .utf8 => .ok (.string cell)
  | .timestampTz => .ok (.string cell)
  | .date => .ok (.string cell)
  | .time => .ok (.string cell)
  | .uuid => .ok (.string cell)

def convert (isJson : String → Bool) : ColumnPlan → Except CsvRefusal JsonValue
  | .shaped shape => convertShaped path row column cell shape
  | .hinted hint => convertHinted path row column cell isJson hint

end

/-- Empty cells are null. -/
def encodeCell (isJson : String → Bool) (path : String) (row : Nat) (column cell : String)
    (plan : ColumnPlan) : Except CsvRefusal JsonValue :=
  if cell.isEmpty then .ok .null else convert path row column cell isJson plan

/-- The loop over a record's cells. The names are unique, so an insert is at the end. -/
def encodeCells (isJson : String → Bool) (path : String) (row : Nat) (refusal : CsvRefusal) :
    List (String × ColumnPlan) → List String → Except CsvRefusal Object
  | _, [] => .ok []
  | [], _ :: _ => .error refusal
  | (name, plan) :: columns, cell :: cells => do
    let value ← encodeCell isJson path row name cell plan
    let object ← encodeCells isJson path row refusal columns cells
    .ok ((name, value) :: object)

def encodeRow (isJson : String → Bool) (names : List String) (plans : List ColumnPlan)
    (record : List String) (path : String) (row : Nat) : Except CsvRefusal Object :=
  encodeCells isJson path row (.fields path row record.length names.length) (names.zip plans) record

/-- The records behind row `row`. -/
def encodeRows (isJson : String → Bool) (names : List String) (plans : List ColumnPlan)
    (path : String) : Nat → List (List String) → Except CsvRefusal (List Object)
  | _, [] => .ok []
  | row, record :: records => do
    let object ← encodeRow isJson names plans record path (row + 1)
    let objects ← encodeRows isJson names plans path (row + 1) records
    .ok (object :: objects)

/-- The objects fed by a run whose survey sees one content and whose conversion sees
another. -/
def readCsv (isJson : String → Bool) (path : String) (hints : List (String × HintType))
    (surveyed converted : Contents hasHeader) : Except CsvRefusal (List Object) := do
  let found ← survey path surveyed
  let plans := planColumns found.1 found.2 hints
  let objects ← encodeRows isJson found.1 plans path hasHeader.toNat converted.records
  match converted.broken with
  | some message => .error (.malformed path (rowsRead hasHeader converted.records + 1) message)
  | none => .ok objects

/-! ## What the survey accepts -/

theorem repeated_none {seen names : List String} :
    repeated seen names = none ↔ names.Nodup ∧ ∀ name ∈ names, name ∉ seen := by
  induction names generalizing seen with
  | nil => simp [repeated]
  | cons name names ih =>
    simp only [repeated, List.nodup_cons, List.forall_mem_cons]
    by_cases hseen : name ∈ seen
    · simp [hseen]
    · rw [if_neg hseen, ih]
      simp only [List.mem_cons, not_or]
      constructor
      · intro h
        have hnot : name ∉ names := fun hin => (h.2 name hin).1 rfl
        exact ⟨⟨hnot, h.1⟩, hseen, fun other hother => (h.2 other hother).2⟩
      · intro h
        refine ⟨h.1.2, fun other hother => ⟨?_, h.2.2 other hother⟩⟩
        rintro rfl
        exact h.1.1 hother

variable {file : Contents hasHeader} {path : String} {names : List String}
  {shapes : List ValueShape}

theorem survey_ok :
    survey path file = .ok (names, shapes) ↔
      file.broken = none ∧ shapes = file.shapes ∧
        if hasHeader then file.header = .ok names ∧ names.Nodup
        else names = synthesized file.shapes.length := by
  have hcheck : ∀ header : List String, repeated [] header = none ↔ header.Nodup := fun header => by
    simp [repeated_none]
  cases hasHeader with
  | false =>
    have hnil : repeated [] ([] : List String) = none := rfl
    simp only [survey, headerNames, Bool.false_eq_true, if_false, bind_ok_left, hnil]
    cases file.broken with
    | some message => simp
    | none => simp only [Except.ok.injEq, Prod.mk.injEq, true_and]; grind
  | true =>
    simp only [survey, headerNames, if_true]
    cases file.header with
    | error e => simp [Except.mapError]
    | ok header =>
      simp only [Except.mapError, bind_ok_left, Except.ok.injEq]
      cases hrepeated : repeated [] header with
      | some name =>
        have hnot : ¬ header.Nodup := by
          rw [← hcheck, hrepeated]
          exact Option.some_ne_none name
        simp only [reduceCtorEq, false_iff, not_and]
        rintro - - rfl
        exact hnot
      | none =>
        have hnodup := (hcheck header).mp hrepeated
        cases file.broken with
        | some message => simp
        | none =>
          simp only [Except.ok.injEq, Prod.mk.injEq, true_and]
          constructor
          · rintro ⟨rfl, rfl⟩
            exact ⟨rfl, rfl, hnodup⟩
          · rintro ⟨rfl, rfl, -⟩
            exact ⟨rfl, rfl⟩

theorem length_observe (shapes : List ValueShape) (record : List String) :
    (observe shapes record).length = max shapes.length record.length := by
  induction record generalizing shapes with
  | nil => simp [observe]
  | cons cell cells ih =>
    cases shapes with
    | nil => simp [observe, ih]
    | cons shape shapes =>
      simp only [observe, List.length_cons, ih]
      omega

theorem length_observed {records : List (List String)} {width : Nat}
    (heven : ∀ record ∈ records, record.length = width) {shapes : List ValueShape}
    (hshapes : shapes.length = width) : (records.foldl observe shapes).length = width := by
  induction records generalizing shapes with
  | nil => exact hshapes
  | cons record records ih =>
    obtain ⟨hrecord, heven⟩ := List.forall_mem_cons.mp heven
    apply ih heven
    rw [length_observe, hshapes, hrecord, Nat.max_self]

theorem shapes_length (hne : file.records ≠ []) : file.shapes.length = file.width := by
  obtain ⟨record, records, hrecords⟩ := List.exists_cons_of_ne_nil hne
  have heven := file.even
  rw [Contents.shapes, hrecords, List.foldl_cons]
  rw [hrecords] at heven
  obtain ⟨hrecord, heven⟩ := List.forall_mem_cons.mp heven
  apply length_observed heven
  rw [length_observe, hrecord]
  exact Nat.max_eq_right (Nat.zero_le _)

theorem names_length (hsurvey : survey path file = .ok (names, shapes)) (hne : file.records ≠ []) :
    names.length = file.width := by
  obtain ⟨-, -, hnames⟩ := survey_ok.mp hsurvey
  split at hnames
  · rename_i hheader
    exact file.header_even hheader names hnames.1
  · rw [hnames, synthesized, List.length_map, List.length_range, shapes_length hne]

/-! ## The conversion, cell by cell -/

variable {isJson : String → Bool} {row : Nat}

@[simp] theorem length_planColumns (names : List String) (shapes : List ValueShape)
    (hints : List (String × HintType)) :
    (planColumns names shapes hints).length = names.length := by simp [planColumns]

theorem encodeCells_mapM {columns : List (String × ColumnPlan)} {cells : List String}
    {refusal : CsvRefusal} (h : cells.length ≤ columns.length) :
    encodeCells isJson path row refusal columns cells =
      (columns.zip cells).mapM fun placed =>
        (encodeCell isJson path row placed.1.1 placed.2 placed.1.2).map (placed.1.1, ·) := by
  induction columns generalizing cells with
  | nil =>
    cases cells with
    | nil => rfl
    | cons cell cells => simp at h
  | cons column columns ih =>
    cases cells with
    | nil => rfl
    | cons cell cells =>
      rw [encodeCells, ih (by simpa using h), List.zip_cons_cons, List.mapM_cons]
      cases encodeCell isJson path row column.1 cell column.2 <;> rfl

theorem encodeCells_long {columns : List (String × ColumnPlan)} {cells : List String}
    {refusal : CsvRefusal} (h : columns.length < cells.length) {object : Object} :
    encodeCells isJson path row refusal columns cells ≠ .ok object := by
  induction columns generalizing cells object with
  | nil =>
    cases cells with
    | nil => simp at h
    | cons cell cells => simp [encodeCells]
  | cons column columns ih =>
    cases cells with
    | nil => simp at h
    | cons cell cells =>
      intro hok
      obtain ⟨value, -, hok⟩ := bind_ok.mp hok
      obtain ⟨rest, hrest, -⟩ := bind_ok.mp hok
      exact ih (by simpa using h) hrest

theorem planColumns_get (hints : List (String × HintType)) (i : Nat) :
    (planColumns names shapes hints)[i]? =
      names[i]?.map fun name => planColumn hints name shapes[i]? := by
  simp [planColumns]

theorem zipped_get {plans : List ColumnPlan} {record : List String} {i : Nat}
    {placed : (String × ColumnPlan) × String}
    (h : ((names.zip plans).zip record)[i]? = some placed) :
    names[i]? = some placed.1.1 ∧ plans[i]? = some placed.1.2 ∧ record[i]? = some placed.2 := by
  obtain ⟨hcolumn, hcell⟩ := List.getElem?_zip_eq_some.mp h
  obtain ⟨hname, hplan⟩ := List.getElem?_zip_eq_some.mp hcolumn
  exact ⟨hname, hplan, hcell⟩

theorem encodeRow_mapM {plans : List ColumnPlan} {record : List String} {row : Nat}
    (hplans : plans.length = names.length) (hlen : record.length ≤ names.length) :
    encodeRow isJson names plans record path row =
      ((names.zip plans).zip record).mapM fun placed =>
        (encodeCell isJson path row placed.1.1 placed.2 placed.1.2).map (placed.1.1, ·) := by
  apply encodeCells_mapM
  rw [List.length_zip, hplans, Nat.min_self]
  exact hlen

theorem encodeRow_keys {plans : List ColumnPlan} {record : List String} {row : Nat}
    {object : Object} (hplans : plans.length = names.length) (hlen : record.length ≤ names.length)
    (h : encodeRow isJson names plans record path row = .ok object) :
    object.map Prod.fst = names.take record.length := by
  rw [encodeRow_mapM hplans hlen] at h
  obtain ⟨hlength, hget⟩ := mapM_getElem h
  apply List.ext_getElem?
  intro i
  cases hplaced : ((names.zip plans).zip record)[i]? with
  | some placed =>
    obtain ⟨member, hmember, hcell⟩ := hget i placed hplaced
    obtain ⟨hname, -, hrecord⟩ := zipped_get hplaced
    obtain ⟨value, -, rfl⟩ := map_ok.mp hcell
    have hi : i < record.length := (List.getElem?_eq_some_iff.mp hrecord).1
    rw [List.getElem?_map, hmember, List.getElem?_take_of_lt hi, hname]
    rfl
  | none =>
    have hi := List.getElem?_eq_none_iff.mp hplaced
    rw [List.getElem?_eq_none (by rw [List.length_map, hlength]; exact hi)]
    symm
    apply List.getElem?_eq_none
    simp only [List.length_zip, hplans, Nat.min_self] at hi
    rw [List.length_take]
    exact hi.trans' (le_of_eq (Nat.min_comm _ _))

theorem encodeRows_mapM {plans : List ColumnPlan} {records : List (List String)} :
    encodeRows isJson names plans path row records =
      (records.zipIdx row).mapM fun placed =>
        encodeRow isJson names plans placed.1 path (placed.2 + 1) := by
  induction records generalizing row with
  | nil => rfl
  | cons record records ih =>
    rw [encodeRows, ih, List.zipIdx_cons, List.mapM_cons]
    rfl

end FileSource
