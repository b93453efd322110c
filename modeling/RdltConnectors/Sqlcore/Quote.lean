import RdltConnectors.Library.Quoting

/-!
# Identifiers and literals

Names and texts go into a statement in quotes, a quote inside them doubled. That is all the
escaping that Postgres and DuckDB read; Snowflake reads a backslash inside a literal as well.
-/
namespace Sqlcore

open Quoting

def quoteIdentifier (ident : String) : String :=
  String.ofList ('"' :: (doubled '"' ident.toList ++ ['"']))

/-- A validated timestamp as a literal. -/
def sqlLiteral (value : String) : String :=
  String.ofList ('\'' :: (doubled '\'' value.toList ++ ['\'']))

/-! ## The lexers -/

/-- Quoted identifiers, in every dialect. -/
def identifierLexis : Lexis Char := doubling '"'

/-- The literals of Postgres and DuckDB. -/
def literalLexis : Lexis Char := doubling '\''

/-- Snowflake's literals, up to the escapes of other characters than the backslash and the
quote. -/
def snowflakeLexis (other : List Char → Option (Char × Nat)) : Lexis Char :=
  escaping '\'' '\\' other

variable {rest : List Char}

theorem quoteIdentifier_token (ident : String) (h : rest.head? ≠ some '"') :
    identifierLexis.token ((quoteIdentifier ident).toList ++ rest) = some (ident.toList, rest) := by
  have hlist : (quoteIdentifier ident).toList ++ rest =
      '"' :: (doubled '"' ident.toList ++ '"' :: rest) := by
    simp [quoteIdentifier]
  rw [hlist]
  exact Lexis.token_spelled (doubling_spells '"') ident.toList h

/-- What stands behind the opening quote of a text whose quotes are doubled. -/
theorem doubled_token (value : List Char) (h : rest.head? ≠ some '\'') :
    literalLexis.token ('\'' :: (doubled '\'' value ++ '\'' :: rest)) = some (value, rest) :=
  Lexis.token_spelled (doubling_spells '\'') value h

theorem sqlLiteral_toList (value : String) :
    (sqlLiteral value).toList ++ rest =
      '\'' :: (doubled '\'' value.toList ++ '\'' :: rest) := by
  simp [sqlLiteral]

theorem sqlLiteral_token (value : String) (h : rest.head? ≠ some '\'') :
    literalLexis.token ((sqlLiteral value).toList ++ rest) = some (value.toList, rest) := by
  rw [sqlLiteral_toList]
  exact doubled_token value.toList h

/-- Without a backslash in it, a literal is the same to Snowflake. -/
theorem sqlLiteral_snowflake {value : String} (hplain : '\\' ∉ value.toList)
    (other : List Char → Option (Char × Nat)) (h : rest.head? ≠ some '\'') :
    (snowflakeLexis other).token ((sqlLiteral value).toList ++ rest) =
      some (value.toList, rest) := by
  have hspelled : doubled '\'' value.toList = value.toList.flatMap (doubleBoth '\'' '\\') := by
    refine List.flatMap_congr fun c hc => ?_
    have hne : c ≠ '\\' := fun he => hplain (he ▸ hc)
    simp [double, doubleBoth, hne]
  rw [sqlLiteral_toList, hspelled]
  exact Lexis.token_spelled (escaping_spells '\'' '\\' other) value.toList h

end Sqlcore
