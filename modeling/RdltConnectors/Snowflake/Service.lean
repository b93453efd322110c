import RdltConnectors.Library.Interrupted
import RdltConnectors.Library.Log
import RdltConnectors.Sqlcore.Script

/-!
# The warehouse a unit runs against

The service executes statements one by one. Inside a transaction their effects wait
for its COMMIT; outside one each is durable at once, and schema work commits whatever
transaction is open. A statement can be refused, and it can take effect although its
answer is an error.
-/
namespace Snowflake

open Sqlcore Interrupted

variable {R D : Type}

/-- A target table, or the stage its merge rows land in. -/
inductive Relation where
  | target (table : String)
  | stage (table : String)
  deriving DecidableEq, Repr

/-- A row on its way, with the mode its table had when it was written. -/
structure Written (R : Type) where
  row : R
  mode : WriteMode
  deriving DecidableEq, Repr

abbrev Part (R : Type) := List (Written R)

inductive Statement (R D : Type) where
  | deleteFrom (relation : Relation)
  /-- the durable record beside a Replace clear -/
  | recordCleared (table : String)
  | copyInto (relation : Relation) (columns : List String) (parts : List (Part R))
  | insertSelect (table : String)
  | scopeReplace (table : String) (scope : List String)
  | merge (sql : String)
  | upsertState (state : D)
  | insertReceipt (loadId : String) (seq : UInt64)
  | schema (sql : String)
  deriving DecidableEq

/-- The statements that have taken effect, in order. -/
abbrev Effects (R D : Type) := List (Statement R D)

structure Service (R D : Type) where
  durable : Effects R D
  transaction : Option (Effects R D)

namespace Service

variable (service : Service R D)

/-- What a statement of the session sees. -/
def view : Effects R D := service.durable ++ service.transaction.getD []

/-- BEGIN; ignored where a transaction is open. -/
def begin : Service R D := { service with transaction := some (service.transaction.getD []) }

def commit : Service R D := ⟨service.view, none⟩

def rollback : Service R D := ⟨service.durable, none⟩

def execute (statement : Statement R D) : Service R D :=
  match service.transaction with
  | some effects => { service with transaction := some (effects ++ [statement]) }
  | none => { service with durable := service.durable ++ [statement] }

/-- Schema work commits the open transaction as a side effect. -/
def executeSchema (sql : String) : Service R D := service.commit.execute (.schema sql)

@[simp] theorem view_begin : service.begin.view = service.view := rfl

@[simp] theorem durable_begin : service.begin.durable = service.durable := rfl

@[simp] theorem view_commit : service.commit.view = service.view := List.append_nil _

@[simp] theorem durable_commit : service.commit.durable = service.view := rfl

@[simp] theorem view_rollback : service.rollback.view = service.durable := List.append_nil _

@[simp] theorem durable_rollback : service.rollback.durable = service.durable := rfl

@[simp] theorem view_execute (statement : Statement R D) :
    (service.execute statement).view = service.view ++ [statement] := by
  unfold execute view
  cases service.transaction with
  | some effects => exact (List.append_assoc _ _ _).symm
  | none => simp

/-- What is durable stays so. -/
theorem durable_execute (statement : Statement R D) :
    service.durable <+: (service.execute statement).durable := by
  unfold execute
  cases service.transaction with
  | some effects => exact List.prefix_rfl
  | none => exact List.prefix_append _ _

theorem durable_view : service.durable <+: service.view := List.prefix_append _ _

end Service

/-! ## Asking -/

def hasReceipt (effects : Effects R D) (loadId : String) (seq : UInt64) : Bool :=
  effects.any fun
    | .insertReceipt load s => load == loadId && s == seq
    | _ => false

/-- How many rows a stage table holds. -/
def stagedRows (effects : Effects R D) (table : String) : Nat :=
  effects.foldl (fun rows statement =>
    match statement with
    | .copyInto (.stage t) _ parts => if t = table then rows + parts.flatten.length else rows
    | .deleteFrom (.stage t) => if t = table then 0 else rows
    | _ => rows) 0

/-- The targets a load recorded as cleared. -/
def readClearedTargets (effects : Effects R D) : List String :=
  effects.filterMap fun
    | .recordCleared table => some table
    | _ => none

theorem mem_readClearedTargets {effects : Effects R D} {table : String} :
    table ∈ readClearedTargets effects ↔ .recordCleared table ∈ effects := by
  unfold readClearedTargets
  rw [List.mem_filterMap]
  constructor
  · rintro ⟨statement, hmem, h⟩
    cases statement with
    | recordCleared t =>
      obtain rfl := Option.some.inj h
      exact hmem
    | _ => cases h
  · intro hmem
    exact ⟨_, hmem, rfl⟩

/-! ## Answers -/

inductive Reply where
  | done
  /-- an error, and no effect -/
  | refused
  /-- an error, although the statement took effect -/
  | lost
  deriving DecidableEq, Repr

/-- How a COMMIT is answered. -/
inductive CommitReply where
  | committed
  /-- an error, and the transaction stays open -/
  | refused
  /-- an error, although the transaction committed -/
  | lost
  /-- an error, and the service rolled the transaction back -/
  | abandoned
  deriving DecidableEq, Repr

inductive DestinationError where
  | service
  | fatal (message : String)
  deriving DecidableEq, Repr

end Snowflake
