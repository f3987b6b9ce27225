import RatLang.Proofs.Lexer.Fits
import RatLang.Proofs.Parser.Course

/-!
# The parser relies on the lexer

The parser asks for the symbol of a token without another look at its lexeme. On the tokens of a
text the answer is always there: a lexeme belongs to its kind, and every entry of a table that the
lexer knows has a symbol.
-/

namespace RatLang

open RatLang.Parser (Happens)

/-- Every token of a text fits its kind, and the marks and the bodies of comments stand in pairs.
So each time the parser looks up the symbol of a token, it finds one. -/
theorem lookups_succeed {text : String} {tokens : List Token} (lexed : tokenize text = .ok tokens) :
    (∀ t ∈ tokens, t.Fits) ∧
    (∀ (i : Nat) (t : Token), tokens[i]? = some t →
      (t.kind = .commentSeparator →
        ∃ body : Token, tokens[i + 1]? = some body ∧ body.kind = .commentBody) ∧
      (t.kind = .commentBody →
        ∃ (j : Nat) (mark : Token),
          i = j + 1 ∧ tokens[j]? = some mark ∧ mark.kind = .commentSeparator)) ∧
    ∀ t, Happens tokens (.lookup t) → ∃ symbol, Symbol.ofLexeme? t.lexeme = some symbol := by
  have fits := fits_of_mem lexed
  have paired := paired_of_tokenize lexed
  refine ⟨fits, fun i t found => ⟨paired.body_of_mark i t found, paired.mark_of_body i t found⟩, ?_⟩
  intro t asked
  obtain ⟨mem, type | spells⟩ := Parser.within_of_happens asked
  · have inside : t ∈ tokens := List.mem_of_mem_filter ((mergeTerminators_sublist _).subset mem)
    have name := fits t inside
    rw [Token.Fits, type] at name
    exact Symbol.exists_ofLexeme? (by simp [name])
  · exact spells

/-- In a function with a comment behind it the keyword of the function is looked up. -/
theorem lookups_succeed_function :
    let keyword : Token := ⟨.keyword, "fn?", ⟨1, 1⟩⟩
    let tokens : List Token :=
      [keyword, ⟨.identifier, "f", ⟨1, 5⟩⟩, ⟨.punctuator, "(", ⟨1, 6⟩⟩, ⟨.punctuator, ")", ⟨1, 7⟩⟩,
        ⟨.punctuator, "\x7b", ⟨1, 9⟩⟩, ⟨.keyword, "ret", ⟨1, 11⟩⟩, ⟨.operator, "-", ⟨1, 15⟩⟩,
        ⟨.numericLiteral, "1u", ⟨1, 16⟩⟩, ⟨.punctuator, "\x7d", ⟨1, 19⟩⟩,
        ⟨.commentSeparator, "//", ⟨1, 21⟩⟩, ⟨.commentBody, " end", ⟨1, 23⟩⟩]
    tokenize "fn? f() \x7b ret -1u \x7d // end" = .ok tokens ∧
      (∀ t ∈ tokens, t.Fits) ∧ Happens tokens (.lookup keyword) ∧
      ∃ symbol, Symbol.ofLexeme? keyword.lexeme = some symbol := by
  refine ⟨?lexed, (lookups_succeed ?lexed).1, ?asked, (lookups_succeed ?lexed).2.2 _ ?asked⟩
  case lexed => decide +kernel
  case asked =>
    refine .inside (.behind rfl (.look (.inside (.look (.inside (.inside ?_))))))
    exact .pop rfl .asked

end RatLang
