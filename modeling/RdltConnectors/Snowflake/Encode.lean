import RdltConnectors.Postgres.Literal
import RdltConnectors.Sqlcore.Quote

/-!
# Short texts in Snowflake's statements

Rows travel as files, so only the state document, the receipt and the names of a load become
literals. The service reads a backslash as an escape: backslashes double before the quotes do.
-/
namespace Snowflake

open Quoting Sqlcore

/-- The inside of a literal. -/
def sqlLiteralBody (value : String) : String :=
  String.ofList (doubled '\'' (doubled '\\' value.toList))

variable {rest : List Char}

theorem sqlLiteralBody_token (value : String) (other : List Char → Option (Char × Nat))
    (h : rest.head? ≠ some '\'') :
    (snowflakeLexis other).token ('\'' :: ((sqlLiteralBody value).toList ++ '\'' :: rest)) =
      some (value.toList, rest) := by
  rw [sqlLiteralBody, String.toList_ofList, doubled_doubled (by decide)]
  exact Lexis.token_spelled (escaping_spells '\'' '\\' other) value.toList h

theorem escapeQuotes_toList (value : String) :
    (PgTypes.escapeQuotes value).toList = doubled '\'' value.toList := by
  rw [PgTypes.escapeQuotes, String.toList_ofList, doubled]
  refine List.flatMap_congr fun c _ => ?_
  rw [double]

theorem render_text_toList (value : String) :
    (PgTypes.render (.text value)).toList ++ rest =
      '\'' :: (doubled '\'' value.toList ++ '\'' :: ("::text".toList ++ rest)) := by
  have htext : PgTypes.render (.text value) = "'" ++ PgTypes.escapeQuotes value ++ "'::text" := rfl
  rw [htext, String.toList_append, String.toList_append, escapeQuotes_toList]
  simp

/-- Whatever a text holds, it is written as one token that reads back as the text and ends at
its closing quote: identifiers in every dialect, literals in their own. A shared literal reaches
Snowflake too, where it reads back as long as there is no backslash in it. -/
theorem quoted_texts_read_back (value : String) (rest : List Char) :
    (rest.head? ≠ some '"' →
      identifierLexis.token ((quoteIdentifier value).toList ++ rest) =
        some (value.toList, rest)) ∧
    literalLexis.token ((PgTypes.render (.text value)).toList ++ rest) =
      some (value.toList, "::text".toList ++ rest) ∧
    (rest.head? ≠ some '\'' →
      literalLexis.token ((sqlLiteral value).toList ++ rest) = some (value.toList, rest) ∧
      ∀ other : List Char → Option (Char × Nat),
        (snowflakeLexis other).token ('\'' :: ((sqlLiteralBody value).toList ++ '\'' :: rest)) =
          some (value.toList, rest) ∧
        ('\\' ∉ value.toList →
          (snowflakeLexis other).token ((sqlLiteral value).toList ++ rest) =
            some (value.toList, rest))) := by
  refine ⟨quoteIdentifier_token value, ?_, fun h => ⟨sqlLiteral_token value h, fun other =>
    ⟨sqlLiteralBody_token value other h, fun hplain => sqlLiteral_snowflake hplain other h⟩⟩⟩
  rw [render_text_toList]
  exact doubled_token value.toList (by simp)

/-- To Snowflake a shared literal with a backslash ends early: the rest of the text is read as
SQL. Escapes of other characters stand for the characters here. -/
theorem backslash_ends_shared_literal :
    (snowflakeLexis fun rest => rest.head?.map (·, 1)).token
        (sqlLiteral "\\'; DROP TABLE t; --").toList =
      some (['\''], "; DROP TABLE t; --'".toList) := by
  have hliteral : (sqlLiteral "\\'; DROP TABLE t; --").toList =
      '\'' :: '\\' :: '\'' :: '\'' :: "; DROP TABLE t; --'".toList := by decide
  have hescaped : (snowflakeLexis fun rest => rest.head?.map (·, 1)).escaped
      ('\'' :: '\'' :: "; DROP TABLE t; --'".toList) = some ('\'', 1) := by decide
  rw [hliteral, Lexis.token, if_pos (by decide),
    Lexis.body_escape (by decide) (by decide) hescaped]
  exact congrArg _ (Lexis.body_close (by decide))

end Snowflake
