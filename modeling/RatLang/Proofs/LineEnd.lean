import RatLang.Proofs.Comment
import RatLang.Proofs.Lexer.LineEnd

/-!
# Line ends have no meaning

A text whose lines end with a carriage return and a newline gives the same tokens and the same
program as with newlines alone, or fails in the same way.
-/

namespace RatLang

namespace SameTokens

variable {behind : Bool} {ts ts' : List Token}

theorem words (h : SameTokens behind ts ts') :
    ts'.map (fun t => (t.kind, t.lexeme)) = ts.map fun t => (t.kind, t.lexeme) := by
  induction h with
  | nil => rfl
  | cons kind lexeme _ _ ih => rw [List.map_cons, List.map_cons, kind, lexeme, ih]

/-- Where tokens stand in the two lists. -/
theorem places (h : SameTokens behind ts ts') {i : Nat} {t t' : Token} (at_ts : ts[i]? = some t)
    (at_ts' : ts'[i]? = some t') :
    t'.position = t.position ∨ t.isTerminator ∧
      (i = 0 ∧ behind ∨ ∃ j b, i = j + 1 ∧ ts[j]? = some b ∧ b.kind = .commentBody) := by
  induction h generalizing i with
  | nil => cases at_ts
  | @cons behind u u' us us' kind lexeme place _ ih =>
    cases i with
    | zero =>
      cases at_ts
      cases at_ts'
      exact place.imp_right fun other => ⟨other.2, .inl ⟨rfl, other.1⟩⟩
    | succ i =>
      rcases ih at_ts at_ts' with same | ⟨ends, ⟨rfl, body⟩ | ⟨j, b, rfl, inside, body⟩⟩
      · exact .inl same
      · exact .inr ⟨ends, .inr ⟨0, u, rfl, rfl, by simpa using body⟩⟩
      · exact .inr ⟨ends, .inr ⟨j + 1, b, rfl, inside, body⟩⟩

/-- Only the places of terminators differ. -/
theorem alike (h : SameTokens behind ts ts') : Grammar.Alike ts' ts := by
  induction h with
  | nil => rfl
  | @cons behind t t' ts ts' kind lexeme place _ ih =>
    have same : t'.unplaced = t.unplaced := by
      rcases place with eq | ⟨-, ends⟩
      · have whole : t' = t := by
          cases t
          cases t'
          cases kind
          cases lexeme
          cases eq
          rfl
        rw [whole]
      · refine Token.unplaced_of_terminators ?_ ends
        rwa [Token.isTerminator, kind]
    rw [Grammar.Alike, List.map_cons, List.map_cons, same, ih]

end SameTokens

/-- Line ends do not matter: with a carriage return in front of every newline a text gives tokens
with the same kinds and lexemes, and at the same positions but for terminators behind the body of a
comment, or it fails with the same error at the same position. It means the same program, or
none. -/
theorem compile_crlf {text : String} (clean : '\r' ∉ text.toList) (name name' : String) :
    (∀ ts, tokenize text = .ok ts →
      ∃ ts', tokenize (String.ofList (crlf text.toList)) = .ok ts' ∧
        ts'.map (fun t => (t.kind, t.lexeme)) = ts.map (fun t => (t.kind, t.lexeme)) ∧
        ∀ i t t', ts[i]? = some t → ts'[i]? = some t' →
          t'.position = t.position ∨
            t.isTerminator ∧ ∃ j b, i = j + 1 ∧ ts[j]? = some b ∧ b.kind = .commentBody) ∧
    (∀ cause, tokenize text = .error cause →
      ∃ cause', tokenize (String.ofList (crlf text.toList)) = .error cause' ∧
        cause.Alike cause') ∧
    (compile name' (String.ofList (crlf text.toList))).toOption =
      (compile name text).toOption := by
  rw [tokenize_eq_cut, tokenize_eq_cut, compile_eq_cut, compile_eq_cut, String.toList_ofList]
  cases cuts : Piece.cut .start text.toList with
  | ok ts =>
    obtain ⟨ts', eq, same⟩ := (Piece.cuts_of_cut cuts).crlf clean
    rw [eq]
    refine ⟨?_, ?_, ?_⟩
    · rintro _ ⟨⟩
      refine ⟨_, rfl, same.mergeTerminators.words, fun i t t' at_ts at_ts' => ?_⟩
      rcases same.mergeTerminators.places at_ts at_ts' with place | ⟨ends, front⟩
      · exact .inl place
      · exact .inr ⟨ends, front.resolve_left (by simp)⟩
    · intro cause failed
      cases failed
    · have parsed := toOption_parse_congr (significant_alike same.alike)
      simp only [toOption_mapError, parse_mergeTerminators]
      exact parsed
  | error cause =>
    obtain ⟨cause', eq, alike⟩ := (Piece.fails_of_cut cuts).crlf clean
    rw [eq]
    refine ⟨?_, ?_, rfl⟩
    · intro ts lexed
      cases lexed
    · rintro _ ⟨⟩
      exact ⟨cause', rfl, alike⟩

/-- The terminator behind a comment moves by one column. -/
theorem compile_crlf_comment :
    let text := "a // one\nb"
    let ts : List Token :=
      [⟨.identifier, "a", ⟨1, 1⟩⟩, ⟨.commentSeparator, "//", ⟨1, 3⟩⟩,
        ⟨.commentBody, " one", ⟨1, 5⟩⟩, ⟨.statementTerminator, ";", ⟨1, 9⟩⟩,
        ⟨.identifier, "b", ⟨2, 1⟩⟩]
    '\r' ∉ text.toList ∧ tokenize text = .ok ts ∧ (compile "t.rat" text).toOption.isSome ∧
    (∃ ts', tokenize "a // one\r\nb" = .ok ts' ∧
      ts'.map (fun t => (t.kind, t.lexeme)) = ts.map (fun t => (t.kind, t.lexeme)) ∧
      ts'[3]?.map Token.position = some ⟨1, 10⟩) ∧
    (compile "t.rat" "a // one\r\nb").toOption = (compile "t.rat" text).toOption := by
  intro text ts
  have clean : '\r' ∉ text.toList := by decide
  have lexed : tokenize text = .ok ts := by decide +kernel
  have returned : String.ofList (crlf text.toList) = "a // one\r\nb" := by decide +kernel
  obtain ⟨same, -, program⟩ := compile_crlf clean "t.rat" "t.rat"
  obtain ⟨ts', lexed', words, -⟩ := same ts lexed
  rw [returned] at lexed' program
  have moved : (tokenize "a // one\r\nb").toOption.bind (·[3]?.map Token.position) =
      some ⟨1, 10⟩ := by
    decide +kernel
  rw [lexed'] at moved
  exact ⟨clean, lexed, by decide +kernel, ⟨ts', lexed', words, moved⟩, program⟩

end RatLang
