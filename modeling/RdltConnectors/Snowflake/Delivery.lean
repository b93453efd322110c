import Mathlib
import RdltConnectors.Snowflake.OwedClears

/-!
# Delivering a load to the warehouse

A host delivers the units of a load in order. An attempt at a unit writes it anew, asks
for its receipt, and ends in a replay or a publish; an attempt that fails is the end of
its session. Beside it stands what the effects of a load amount to: what a relation
holds, what was copied into it, and the receipts.
-/
namespace Snowflake

open Sqlcore Interrupted

variable {R D : Type}

/-! ## What is delivered -/

/-- A unit: its rows, table by table in the order they are written, and its state. -/
structure LoadUnit (R D : Type) where
  writes : List (String × List R)
  state : D

/-- A load: what its sessions are configured with, the mode of each table, and its
units in order. -/
structure LoadPlan (R D : Type) where
  config : Config D
  modes : String → WriteMode
  units : List (LoadUnit R D)

/-- The rows of the writes that go to a relation. -/
def rowsInto (modes : String → WriteMode) (writes : List (String × List R)) (relation : Relation) :
    Part R :=
  writes.flatMap fun w =>
    if destinationOf w.1 (modes w.1) = relation then w.2.map fun row => ⟨row, modes w.1⟩ else []

/-- What a host asks of a session before the commit. -/
inductive Call (R : Type) where
  | ensureTable (schema : TableSchema) (mode : WriteMode) (work : SchemaWork)
  | write (table : String) (rows : List R) (closings : Closings)

def Call.run (config : Config D) : Call R → Hook R D Unit
  | .ensureTable schema mode work => Snowflake.ensureTable schema mode work
  | .write table rows closings => Snowflake.write config table rows closings

def Call.writes : Call R → List (String × List R)
  | .ensureTable _ _ _ => []
  | .write table rows _ => [(table, rows)]

/-- A table is ensured under one mode throughout the load. -/
def Call.Keeps (modes : String → WriteMode) : Call R → Prop
  | .ensureTable schema mode _ => mode = modes schema.table
  | .write _ _ _ => True

def writesOf (calls : List (Call R)) : List (String × List R) := calls.flatMap Call.writes

/-- However the calls split its writes, they deliver the unit. -/
structure Delivers (modes : String → WriteMode) (unit : LoadUnit R D) (calls : List (Call R)) :
    Prop where
  rows : ∀ relation, rowsInto modes (writesOf calls) relation = rowsInto modes unit.writes relation
  tables : ∀ table, table ∈ (writesOf calls).map Prod.fst ↔ table ∈ unit.writes.map Prod.fst
  modes : ∀ call ∈ calls, call.Keeps modes

/-- One attempt at a unit. -/
def deliver (config : Config D) (unit : LoadUnit R D) (seq : UInt64) (calls : List (Call R))
    (commit : CommitReply) : Hook R D Unit := do
  calls.forM (Call.run config)
  if ← existingReceipt config config.loadId seq then replay
  else publish config ⟨config.loadId, seq, config.pipeline, unit.state⟩ commit

/-! ## The host -/

/-- An attempt, as the host and the service make it come about. -/
structure Delivery (R : Type) where
  /-- on a new session, although the last one may be good -/
  reconnects : Bool
  index : Nat
  calls : List (Call R)
  replies : List Reply
  commit : CommitReply

/-- The world, and how many units of the load the host knows to be committed. -/
structure Host (R D : Type) where
  world : World R D
  acknowledged : Nat

/-- A session for the next attempt. -/
def World.opened (w : World R D) (reconnects : Bool) : Service R D × Load R :=
  match w.session with
  | some load => if reconnects then (w.service.rollback, Load.connect w.service) else (w.service, load)
  | none => (w.service.rollback, Load.connect w.service)

namespace Host

def start : Host R D := ⟨World.start, 0⟩

/-- A session whose attempt failed is dropped, and its transaction with it. -/
def step (plan : LoadPlan R D) (h : Host R D) (d : Delivery R) : Host R D :=
  match plan.units[d.index]? with
  | none => h
  | some unit =>
    let opened := h.world.opened d.reconnects
    let ended := exec (deliver plan.config unit (UInt64.ofNat d.index) d.calls d.commit)
      ⟨opened.1, d.replies, opened.2⟩
    match ended.1 with
    | .ok () => ⟨⟨ended.2.service, some ended.2.load⟩, max h.acknowledged (d.index + 1)⟩
    | .error _ => ⟨⟨ended.2.service.rollback, none⟩, h.acknowledged⟩

/-- A unit is attempted once all before it are acknowledged, any number of times, and
with the same content each time. -/
def InOrder (plan : LoadPlan R D) (h : Host R D) (d : Delivery R) : Prop :=
  d.index ≤ h.acknowledged ∧ ∀ unit ∈ plan.units[d.index]?, Delivers plan.modes unit d.calls

end Host

/-! ## What effects amount to -/

/-- The rows a statement copies into a relation. -/
def copiedBy (relation : Relation) : Statement R D → Part R
  | .copyInto r _ parts => if r = relation then parts.flatten else []
  | _ => []

/-- All rows ever copied into a relation. -/
def copied (relation : Relation) (effects : Effects R D) : Part R :=
  effects.flatMap (copiedBy relation)

/-- What a statement leaves in a relation that only copies fill. -/
def land (relation : Relation) (rows : Part R) : Statement R D → Part R
  | .copyInto r _ parts => if r = relation then rows ++ parts.flatten else rows
  | .deleteFrom r => if r = relation then [] else rows
  | _ => rows

/-- What a relation holds, from the rows it held before the load. -/
def contents (relation : Relation) (before : Part R) (effects : Effects R D) : Part R :=
  effects.foldl (land relation) before

def receiptOf (loadId : String) : Statement R D → Option UInt64
  | .insertReceipt load seq => if load = loadId then some seq else none
  | _ => none

/-- The receipts of a load, in order. -/
def receipts (loadId : String) (effects : Effects R D) : List UInt64 :=
  effects.filterMap (receiptOf loadId)

/-- The state documents that were written, in order. -/
def states (effects : Effects R D) : List D :=
  effects.filterMap fun
    | .upsertState state => some state
    | _ => none

section reading
variable {relation : Relation} {before : Part R} {effects more : Effects R D}

@[simp] theorem copied_append :
    copied relation (effects ++ more) = copied relation effects ++ copied relation more :=
  List.flatMap_append

@[simp] theorem contents_append :
    contents relation before (effects ++ more) =
      contents relation (contents relation before effects) more := List.foldl_append

@[simp] theorem receipts_append (loadId : String) :
    receipts loadId (effects ++ more) = receipts loadId effects ++ receipts loadId more :=
  List.filterMap_append

@[simp] theorem states_append : states (effects ++ more) = states effects ++ states more :=
  List.filterMap_append

theorem land_eq (rows : Part R) (statement : Statement R D) (h : statement ≠ .deleteFrom relation) :
    land relation rows statement = rows ++ copiedBy relation statement := by
  cases statement with
  | copyInto r columns parts =>
    simp only [land, copiedBy]
    split
    · rfl
    · exact (List.append_nil _).symm
  | deleteFrom r =>
    have hother : ¬r = relation := fun heq => h (heq ▸ rfl)
    simp only [land, copiedBy, if_neg hother, List.append_nil]
  | _ => exact (List.append_nil _).symm

/-- Without a DELETE a relation gains what is copied. -/
theorem contents_of_undeleted (h : .deleteFrom relation ∉ effects) :
    contents relation before effects = before ++ copied relation effects := by
  induction effects generalizing before with
  | nil => exact (List.append_nil _).symm
  | cons statement rest ih =>
    rw [List.mem_cons, not_or] at h
    change contents relation (land relation before statement) rest = _
    rw [ih h.2, land_eq before statement (Ne.symm h.1), List.append_assoc]
    rfl

theorem hasReceipt_iff {loadId : String} {seq : UInt64} :
    hasReceipt effects loadId seq = true ↔ seq ∈ receipts loadId effects := by
  unfold hasReceipt receipts
  rw [List.any_eq_true, List.mem_filterMap]
  apply exists_congr
  intro statement
  apply and_congr_right
  intro _
  cases statement with
  | insertReceipt load s =>
    simp only [receiptOf, Bool.and_eq_true, beq_iff_eq]
    constructor
    · rintro ⟨rfl, rfl⟩
      exact if_pos rfl
    · intro h
      split at h
      · next hload => exact ⟨hload, Option.some.inj h⟩
      · cases h
  | _ =>
    constructor
    · intro h
      cases h
    · intro h
      cases h

end reading

end Snowflake
