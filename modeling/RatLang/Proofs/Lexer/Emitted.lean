import RatLang.Proofs.Lexer.Cuts

/-!
# The tokens that a text gives

Every token of a text that is no part of a comment is a lexeme that stands somewhere at the front of
what is left of the text. So its spelling belongs to its kind. A terminator spells the mark that ends
a statement, also where whitespace has given it.
-/

namespace RatLang

/-- No lexeme is the body of a comment. -/
theorem Munch.not_commentBody {text chars : List Char} {kind : TokenKind}
    (h : ofText text = .lexeme kind chars) : kind ≠ .commentBody := by
  unfold ofText ofWord ofOther ofGrammar at h
  grind

namespace Piece

variable {p : Position} {text : List Char} {piece : Piece} {t : Token}

/-- The piece is the lexeme of the token, and it stands at the front of the text. -/
def Spells (t : Token) (text : List Char) : Prop :=
  text ≠ [] ∧ ofText t.position text = .ok (lexeme t.kind t.lexeme.toList t.position)

theorem spells_of_lexeme {kind : TokenKind} {chars : List Char} (left : text ≠ [])
    (found : ofText p text = .ok (lexeme kind chars p)) (mem : t ∈ (lexeme kind chars p).tokens) :
    Spells t text := by
  obtain rfl := List.mem_singleton.mp mem
  refine ⟨left, ?_⟩
  simpa using found

/-- What a piece can be: one lexeme that belongs to no comment, or a comment with its line. -/
inductive Form (p : Position) : List Char → Piece → Prop where
  | lexeme {text : List Char} (kind : TokenKind) (chars : List Char)
    (opens : kind ≠ .commentSeparator) (goes : kind ≠ .commentBody) :
    Form p text (.lexeme kind chars p)
  | comment (rest : List Char) :
    Form p (commentMark.toList ++ rest)
      (.comment commentMark.toList (rest.takeWhile (· != '\n')) p)

theorem form_of_ofText (left : text ≠ []) (found : ofText p text = .ok piece) :
    Form p text piece := by
  obtain ⟨d, l, rfl⟩ := List.exists_cons_of_ne_nil left
  cases Front.of d with
  | string =>
    obtain ⟨-, rfl⟩ := ofString_eq_ok.mp found
    exact .lexeme _ _ (by simp) (by simp)
  | char =>
    obtain ⟨-, -, rfl⟩ := ofChar_eq_ok.mp found
    exact .lexeme _ _ (by simp) (by simp)
  | terminator =>
    cases found
    exact .lexeme .statementTerminator [terminatorMark] (by simp) (by simp)
  | punctuator double single mark =>
    rw [ofText_punctuator double single mark] at found
    cases found
    exact .lexeme _ _ (by simp) (by simp)
  | munch goes plain =>
    rw [ofText_munch goes plain] at found
    cases munch : Munch.ofText (d :: l) with
    | unrecognized chars =>
      rw [munch] at found
      cases found
    | lexeme kind chars =>
      rw [munch, ofMunch] at found
      split at found
      · rename_i separator
        subst separator
        obtain ⟨⟨rest, split⟩, -⟩ := Munch.prefix_of_ofText munch
        rw [Munch.eq_commentMark munch] at split found
        rw [← split, List.drop_left] at found
        cases found
        rw [← split]
        exact .comment rest
      · rename_i word
        cases found
        exact .lexeme kind chars word (Munch.not_commentBody munch)

/-- A token of a piece is part of a comment or all of the piece. -/
theorem spells_of_ofText (left : text ≠ []) (found : ofText p text = .ok piece)
    (mem : t ∈ piece.tokens) (word : ¬t.isComment) : Spells t text := by
  cases form_of_ofText left found with
  | lexeme kind chars => exact spells_of_lexeme left found mem
  | comment rest =>
    simp only [comment, List.mem_cons, List.not_mem_nil, or_false] at mem
    rcases mem with rfl | rfl <;> exact absurd rfl word

/-- The mark that ends a statement spells the terminator that it gives. -/
theorem spells_terminator (p : Position) : Spells (.terminator p) [terminatorMark] := by
  refine ⟨List.cons_ne_nil _ _, ?_⟩
  simp [ofText_terminator, Token.terminator, lexeme]

theorem kind_of_lexeme_eq {kind kind' : TokenKind} {chars chars' : List Char} {q : Position}
    (h : lexeme kind chars p = lexeme kind' chars' q) : kind = kind' := by
  simp only [lexeme, Piece.mk.injEq, List.cons.injEq, Token.mk.injEq] at h
  exact h.2.1.1

/-- A token that is no literal and no punctuation mark is a lexeme of its own. -/
theorem munch_of_spells (spells : Spells t text)
    (kind : t.kind ∉ [.stringLiteral, .charLiteral, .punctuator, .statementTerminator]) :
    Munch.ofText text = .lexeme t.kind t.lexeme.toList := by
  obtain ⟨left, found⟩ := spells
  simp only [List.mem_cons, List.not_mem_nil, or_false, not_or] at kind
  obtain ⟨d, l, rfl⟩ := List.exists_cons_of_ne_nil left
  cases Front.of d with
  | string =>
    obtain ⟨-, eq⟩ := ofString_eq_ok.mp found
    exact absurd (kind_of_lexeme_eq eq) kind.1
  | char =>
    obtain ⟨-, -, eq⟩ := ofChar_eq_ok.mp found
    exact absurd (kind_of_lexeme_eq eq) kind.2.1
  | terminator =>
    rw [ofText_terminator] at found
    injection found with eq
    have same : lexeme .statementTerminator [terminatorMark] t.position =
        lexeme t.kind t.lexeme.toList t.position := eq
    exact absurd (kind_of_lexeme_eq same).symm kind.2.2.2
  | punctuator double single mark =>
    rw [ofText_punctuator double single mark] at found
    injection found with eq
    exact absurd (kind_of_lexeme_eq eq).symm kind.2.2.1
  | munch goes plain =>
    rw [ofText_munch goes plain] at found
    exact (ofMunch_alone found).1

/-- Every token comes from the text at some place. -/
theorem spells_of_mem_cuts {ts : List Token} (cuts : Cuts p text ts) (mem : t ∈ ts)
    (word : ¬t.isComment) : ∃ behind, Spells t behind := by
  induction cuts with
  | done => cases mem
  | newline _ _ _ _ ih =>
    rcases List.mem_cons.mp mem with rfl | mem
    · exact ⟨_, spells_terminator _⟩
    · exact ih mem
  | piece _ _ _ left found _ _ ih =>
    rcases List.mem_append.mp mem with mem | mem
    · exact ⟨_, spells_of_ofText left found mem word⟩
    · exact ih mem

end Piece

/-- The tokens of a text are those of its pieces, with terminators merged. -/
theorem exists_cuts {text : String} {tokens : List Token} (lexed : tokenize text = .ok tokens) :
    ∃ ts, Piece.Cuts .start text.toList ts ∧ tokens = mergeTerminators ts := by
  rw [tokenize_eq_cut] at lexed
  obtain ⟨ts, cuts, rfl⟩ := Piece.ok_of_map lexed
  exact ⟨ts, Piece.cuts_of_cut cuts, rfl⟩

/-- A token of a text stands where it is recognized. -/
theorem spells_of_mem {text : String} {tokens : List Token} {t : Token}
    (lexed : tokenize text = .ok tokens) (mem : t ∈ tokens) (word : ¬t.isComment) :
    ∃ behind, Piece.Spells t behind := by
  obtain ⟨ts, cuts, rfl⟩ := exists_cuts lexed
  exact Piece.spells_of_mem_cuts cuts ((mergeTerminators_sublist ts).subset mem) word

/-- A lexeme with the kind of a type names one. -/
theorem Munch.isTypeName_of_ofText {text chars : List Char}
    (h : ofText text = .lexeme .type chars) : isTypeName (String.ofList chars) := by
  unfold ofText ofWord ofOther ofGrammar at h
  grind

/-- The types among the tokens of a text are names of types. -/
theorem isTypeName_of_mem {text : String} {tokens : List Token} {t : Token}
    (lexed : tokenize text = .ok tokens) (mem : t ∈ tokens) (kind : t.kind = .type) :
    isTypeName t.lexeme := by
  have word : ¬t.isComment := by simp [Token.isComment, kind]
  obtain ⟨behind, spells⟩ := spells_of_mem lexed mem word
  have found := Piece.munch_of_spells spells (by simp [kind])
  rw [kind] at found
  simpa using Munch.isTypeName_of_ofText found

end RatLang
