import RatLang.Compile
import RatLang.Proofs.Lexer.Comment
import RatLang.Proofs.Parser.Terminator

/-!
# Comments have no meaning

A comment on a line changes neither what a text means nor where its parts stand: with and without
it, the text gives the same program, or none.
-/

namespace RatLang

namespace Compile

/-! ### From a text to its program -/

theorem program_run (tokens : List Token) (log : List LogLine) :
    ((program tokens).run.run log).1 = (parse tokens).mapError .parsing := by
  unfold program parse
  cases Parser.sequence false (.ofTokens tokens) <;> rfl

theorem tokens_run (source : Source) (log : List LogLine) :
    ((tokens source).run.run log).1 =
      match (Lexer.ofSource source).run with
      | .error cause _ => .error (.lexing cause)
      | .ok _ lexer => .ok lexer.tokens.toList := by
  unfold tokens
  cases (Lexer.ofSource source).run <;> rfl

/-- The log that is kept so far has no part in what a computation comes to. -/
theorem bind_run {α β : Type} (x : Compile α) (f : α → Compile β) (log : List LogLine) :
    ((x >>= f).run.run log).1 =
      match (x.run.run log).1 with
      | .error cause => .error cause
      | .ok a => ((f a).run.run (x.run.run log).2).1 := by
  rw [ExceptT.run_bind, StateT.run_bind]
  rcases x.run.run log with ⟨result, more⟩
  cases result <;> rfl

theorem textProgram_run (name text : String) (log : List LogLine) :
    ((textProgram name text).run.run log).1 =
      match (Lexer.ofSource (.ofString name text)).run with
      | .error cause _ => .error (.lexing cause)
      | .ok _ lexer => (parse lexer.tokens.toList).mapError .parsing := by
  unfold textProgram
  rw [bind_run]
  show ((tokens (.ofString name text) >>= program).run.run _).1 = _
  rw [bind_run, tokens_run]
  cases (Lexer.ofSource (.ofString name text)).run with
  | error cause lexer => rfl
  | ok u lexer => exact program_run lexer.tokens.toList _

end Compile

/-- What a text compiles to is the program of the tokens of its pieces. -/
theorem compile_eq_cut (name text : String) :
    compile name text =
      match Piece.cut .start text.toList with
      | .error cause => .error (.lexing cause)
      | .ok ts => (parse (mergeTerminators ts)).mapError .parsing := by
  have run := Lexer.run_ofString name text
  refine (Compile.textProgram_run name text []).trans ?_
  cases cuts : Piece.cut .start text.toList with
  | error cause =>
    rw [cuts] at run
    obtain ⟨final, eq⟩ := run
    rw [eq]
  | ok ts =>
    rw [cuts] at run
    obtain ⟨final, eq, merged⟩ := run
    rw [eq]
    show (parse final.tokens.toList).mapError CompileError.parsing = _
    rw [merged]

theorem toOption_mapError {ε ε' α : Type} (f : ε → ε') (x : Except ε α) :
    (x.mapError f).toOption = x.toOption := by
  cases x <;> rfl

/-! ### Where a line ends -/

/-- Of terminators side by side the first one stays. -/
theorem mergeTerminators_breaks {t : Token} {v : List Token} (ends : t.isTerminator)
    (breaks : Grammar.Breaks v) (us ws : List Token) :
    mergeTerminators (us ++ t :: (v ++ ws)) = mergeTerminators (us ++ t :: ws) := by
  induction v with
  | nil => rfl
  | cons u v ih =>
    have more : Grammar.Breaks v := fun t' mem => breaks t' (List.mem_cons_of_mem u mem)
    rw [← ih more]
    exact mergeTerminators_twice us (v ++ ws) ends (breaks u List.mem_cons_self)

/-- Where a line ends, one terminator counts. -/
theorem significant_endsLine {v : List Token} (ends : Piece.EndsLine v) (us ws : List Token) :
    ∃ t, t.isTerminator ∧ significant (us ++ v ++ ws) =
      mergeTerminators (us.filter (fun t => !t.isComment) ++
        t :: ws.filter fun t => !t.isComment) := by
  obtain ⟨⟨u, mem, ends⟩, nothing⟩ := ends
  have breaks : Grammar.Breaks (v.filter fun t => !t.isComment) := by
    intro t mem
    obtain ⟨inside, word⟩ := List.mem_filter.mp mem
    exact (nothing t inside).resolve_right (by simpa using word)
  have kept : u ∈ v.filter fun t => !t.isComment :=
    List.mem_filter.mpr ⟨mem, by simpa using noComment_of_terminator ends⟩
  rw [significant, List.filter_append, List.filter_append, List.append_assoc]
  cases left : v.filter fun t => !t.isComment with
  | nil =>
    rw [left] at kept
    cases kept
  | cons t v =>
    rw [left] at breaks
    have first := breaks t List.mem_cons_self
    have more : Grammar.Breaks v := fun t' mem => breaks t' (List.mem_cons_of_mem t mem)
    exact ⟨t, first, mergeTerminators_breaks first more _ _⟩

/-- Between the same tokens a line may end in any way. -/
theorem alike_of_endsLine {v v' : List Token} (ends : Piece.EndsLine v)
    (ends' : Piece.EndsLine v') (us ws : List Token) :
    Grammar.Alike (significant (us ++ v ++ ws)) (significant (us ++ v' ++ ws)) := by
  obtain ⟨t, terminator, eq⟩ := significant_endsLine ends us ws
  obtain ⟨t', terminator', eq'⟩ := significant_endsLine ends' us ws
  rw [Grammar.Alike, eq, eq', ← mergeTerminators_unplaced, ← mergeTerminators_unplaced,
    List.map_append, List.map_append, List.map_cons, List.map_cons,
    Token.unplaced_of_terminators terminator terminator']

/-- A comment at the end of a line is invisible: without it the text gives the same program, with
the same positions, or fails as well. -/
theorem compile_comment (name : String) {before comment : String} {tokens : List Token}
    (lexed : tokenize before = .ok tokens)
    (ended : ∀ c ∈ before.toList.getLast?, Text.isBlank c) (single : '\n' ∉ comment.toList)
    (behind : String) :
    (compile name (before ++ "//" ++ comment ++ "\n" ++ behind)).toOption =
      (compile name (before ++ "\n" ++ behind)).toOption := by
  rw [tokenize_eq_cut] at lexed
  cases cuts : Piece.cut .start before.toList with
  | error cause =>
    rw [cuts] at lexed
    cases lexed
  | ok ts =>
    obtain ⟨us, v, v', further, ends, ends', eq, eq'⟩ :=
      Piece.cut_line ended cuts single behind.toList
    have text : (before ++ "//" ++ comment ++ "\n" ++ behind).toList =
        before.toList ++ (commentMark.toList ++ comment.toList ++ '\n' :: behind.toList) := by
      simp [commentMark]
    have text' : (before ++ "\n" ++ behind).toList = before.toList ++ '\n' :: behind.toList := by
      simp
    rw [compile_eq_cut, compile_eq_cut, text, text', eq, eq']
    cases further with
    | error cause => rfl
    | ok ws =>
      have same := toOption_parse_congr (alike_of_endsLine ends ends' us ws)
      rw [← parse_mergeTerminators, ← parse_mergeTerminators (us ++ v' ++ ws)] at same
      show ((parse _).mapError CompileError.parsing).toOption =
        ((parse _).mapError CompileError.parsing).toOption
      rw [toOption_mapError, toOption_mapError]
      exact same

/-- A comment in front of an `else`, behind another comment on the same line. -/
theorem compile_comment_else :
    let before := "if a \x7b f() \x7d // one "
    let behind := "else \x7b g() \x7d"
    (compile "t.rat" (before ++ "//" ++ " two" ++ "\n" ++ behind)).toOption.isSome ∧
    (compile "t.rat" (before ++ "//" ++ " two" ++ "\n" ++ behind)).toOption =
      (compile "t.rat" (before ++ "\n" ++ behind)).toOption := by
  have lexed : tokenize "if a \x7b f() \x7d // one " = .ok
      [⟨.keyword, "if", ⟨1, 1⟩⟩, ⟨.identifier, "a", ⟨1, 4⟩⟩, ⟨.punctuator, "\x7b", ⟨1, 6⟩⟩,
        ⟨.identifier, "f", ⟨1, 8⟩⟩, ⟨.punctuator, "(", ⟨1, 9⟩⟩, ⟨.punctuator, ")", ⟨1, 10⟩⟩,
        ⟨.punctuator, "\x7d", ⟨1, 12⟩⟩, ⟨.commentSeparator, "//", ⟨1, 14⟩⟩,
        ⟨.commentBody, " one ", ⟨1, 16⟩⟩] := by
    decide +kernel
  have ended : ∀ c ∈ "if a \x7b f() \x7d // one ".toList.getLast?, Text.isBlank c := by
    rintro c ⟨⟩
    decide
  exact ⟨by decide +kernel, compile_comment "t.rat" lexed ended (by decide) _⟩

end RatLang
