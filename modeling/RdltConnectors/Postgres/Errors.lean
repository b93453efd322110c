/-!
# Source errors

The typed, phase-tagged failures of the source. Only fatal ones are here: a
transient failure ends a read anywhere, as a crash does.
-/
namespace PgTypes

/-- Where in the source lifecycle a failure happened. -/
inductive Phase where
  | connect
  | reflect
  | copy
  | decode
  | slot
  deriving DecidableEq, Repr

/-- A fatal source error: its phase, its table, and its text. -/
structure SourceError where
  phase : Phase
  table : Option String
  detail : String
  deriving DecidableEq, Repr

end PgTypes
