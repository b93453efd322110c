import Mathlib.Data.Prod.Lex
import Mathlib.Data.String.Basic
import Mathlib.Order.Lattice

/-!
# Scalars and their literals

The typed values cursors and predicates speak, their order, and the SQL text each
is rendered to. COPY takes no binds, so a resume predicate carries its watermark
as such a text, which the server evaluates again.
-/
namespace PgTypes

inductive Scalar where
  | int (value : Int)
  | decimal (scaled : Int) (scale : Nat)
  | text (value : String)
  | uuid (value : String)
  /-- microseconds since the Unix epoch -/
  | timestampTz (microseconds : Int)
  | timestampNaive (microseconds : Int)
  /-- days since the Unix epoch -/
  | date (days : Int)
  /-- microseconds since midnight -/
  | time (microseconds : Int)
  deriving DecidableEq, Repr

/-- The derived order: by variant, then by the fields in turn. -/
def Scalar.ranked : Scalar → ℕ ×ₗ ℤ ×ₗ ℕ ×ₗ String
  | .int value => toLex (0, toLex (value, toLex (0, "")))
  | .decimal scaled scale => toLex (1, toLex (scaled, toLex (scale, "")))
  | .text value => toLex (2, toLex (0, toLex (0, value)))
  | .uuid value => toLex (3, toLex (0, toLex (0, value)))
  | .timestampTz microseconds => toLex (4, toLex (microseconds, toLex (0, "")))
  | .timestampNaive microseconds => toLex (5, toLex (microseconds, toLex (0, "")))
  | .date days => toLex (6, toLex (days, toLex (0, "")))
  | .time microseconds => toLex (7, toLex (microseconds, toLex (0, "")))

theorem ranked_injective : Function.Injective Scalar.ranked := by
  intro a b h
  cases a <;> cases b <;> simp_all [Scalar.ranked]

instance : LinearOrder Scalar := LinearOrder.lift' Scalar.ranked ranked_injective

@[simp] theorem time_lt_time {a b : Int} : Scalar.time a < Scalar.time b ↔ a < b := by
  change Scalar.ranked _ < Scalar.ranked _ ↔ _
  simp [Scalar.ranked, Prod.Lex.toLex_lt_toLex]

@[simp] theorem int_lt_int {a b : Int} : Scalar.int a < Scalar.int b ↔ a < b := by
  change Scalar.ranked _ < Scalar.ranked _ ↔ _
  simp [Scalar.ranked, Prod.Lex.toLex_lt_toLex]

/-! ## The literal face -/

/-- A scaled integer as plain decimal text, zero-padded to its scale. -/
def decimalText (scaled : Int) (scale : Nat) : String :=
  let sign := if scaled < 0 then "-" else ""
  let digits := (toString scaled.natAbs).toList
  if scale = 0 then sign ++ String.ofList digits
  else
    let padded := List.replicate (scale + 1 - digits.length) '0' ++ digits
    sign ++ String.ofList (padded.take (padded.length - scale)) ++ "."
      ++ String.ofList (padded.drop (padded.length - scale))

/-- Single quotes doubled. -/
def escapeQuotes (value : String) : String :=
  String.ofList (value.toList.flatMap fun c => if c = Char.ofNat 39 then [c, c] else [c])

def render : Scalar → String
  | .int value => s!"{value}::int8"
  | .decimal scaled scale => s!"'{decimalText scaled scale}'::numeric"
  | .text value => s!"'{escapeQuotes value}'::text"
  | .uuid value => s!"'{escapeQuotes value}'::uuid"
  | .timestampTz microseconds =>
    s!"(TIMESTAMPTZ 'epoch' + {microseconds}::int8 * INTERVAL '1 microsecond')"
  | .timestampNaive microseconds =>
    s!"(TIMESTAMP 'epoch' + {microseconds}::int8 * INTERVAL '1 microsecond')"
  | .date days => s!"(DATE 'epoch' + {days}::int4)"
  | .time microseconds => s!"(TIME '00:00' + {microseconds}::int8 * INTERVAL '1 microsecond')"

example : render (.decimal (-5) 2) = "'-0.05'::numeric" := by decide

end PgTypes
