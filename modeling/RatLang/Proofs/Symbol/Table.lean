import RatLang.Proofs.Symbol.Entries
import RatLang.Vocabulary

/-!
# Lookups in the table of spellings

The spellings of the language make a table. So a lexeme is looked up to the symbol that it spells,
and a symbol to its spelling.
-/

namespace RatLang

namespace SymbolTable

theorem mirrors_standard : Mirrors standard spellings := ⟨rfl, rfl⟩

/-- The spellings of the language make its table. -/
theorem ofEntries_spellings : ofEntries spellings = .ok standard := by
  have builds := builds_ofEntries spellings
  generalize ofEntries spellings = outcome at builds
  cases builds with
  | built mirrors => rw [mirrors.unique mirrors_standard]
  | clashes first => exact absurd mirrors_standard.distinct first.not_distinct

end SymbolTable

namespace Symbol

variable {lexeme : String} {symbol : Symbol}

theorem ofLexeme?_eq_some_iff :
    ofLexeme? lexeme = some symbol ↔ (lexeme, symbol) ∈ spellings :=
  SymbolTable.mirrors_standard.symbol?_eq_some_iff

theorem lexeme?_eq_some_iff : symbol.lexeme? = some lexeme ↔ (lexeme, symbol) ∈ spellings :=
  SymbolTable.mirrors_standard.lexeme?_eq_some_iff

/-- A symbol is shown as the lexeme that spells it. -/
theorem text_of_ofLexeme? (spelled : ofLexeme? lexeme = some symbol) : symbol.text = lexeme := by
  have spelling : symbol.lexeme? = some lexeme :=
    lexeme?_eq_some_iff.mpr (ofLexeme?_eq_some_iff.mp spelled)
  rw [text, spelling]
  rfl

/-- Every keyword, every type and every operator spells a symbol. -/
theorem exists_ofLexeme? (word : lexeme ∈ keywords ++ types ++ operators) :
    ∃ symbol, ofLexeme? lexeme = some symbol := by
  have checked : ∀ entry ∈ keywords ++ types ++ operators, (ofLexeme? entry).isSome := by
    decide +kernel
  exact Option.isSome_iff_exists.mp (checked lexeme word)

/-- A symbol is a type if its lexeme names one. -/
theorem isType_iff (spelled : ofLexeme? lexeme = some symbol) :
    symbol.isType ↔ isTypeName lexeme := by
  have checked : ∀ entry ∈ spellings, entry.2.isType = isTypeName entry.1 := by decide +kernel
  rw [checked (lexeme, symbol) (ofLexeme?_eq_some_iff.mp spelled)]

end Symbol

end RatLang
