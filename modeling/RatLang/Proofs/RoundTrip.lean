import RatLang.Proofs.Lexer.Reprint
import RatLang.Proofs.Parser.Grammar.Complete
import RatLang.Proofs.Print.Derives

/-!
# Printing and reading back

A program that is printed and read again is the same program, up to positions.
-/

namespace RatLang

/-- The tokens of written lines have no terminators side by side. -/
theorem tidy_linesTokens {lines : List (List Token)} (written : ∀ line ∈ lines, WrittenLine line) :
    Tidy (linesTokens lines) := by
  induction lines using List.reverseRecOn with
  | nil => exact ⟨List.forall_mem_nil _, .nil⟩
  | append_singleton lines line ih =>
    rw [List.forall_mem_append, List.forall_mem_singleton] at written
    obtain ⟨nonempty, words⟩ := written.2
    have front := (ih written.1).append_plain fun t mem => (words t mem).plain
    rw [linesTokens_append, linesTokens_cons, linesTokens_nil, ← List.append_assoc]
    refine ⟨?_, List.isChain_append.mpr ⟨front.apart, .singleton _, ?_⟩⟩
    · intro t mem
      rcases List.mem_append.mp mem with inside | last
      · exact front.noComment t inside
      · rw [List.mem_singleton.mp last]
        exact Bool.false_ne_true
    · -- The last word of the line is no terminator.
      intro t last u _ ends
      rw [List.getLast?_append_of_ne_nil _ nonempty] at last
      exact absurd ends (words t (List.mem_of_getLast? last)).plain.1

/-- Whatever program of the language is printed, the text is cut into tokens and the tokens are
parsed, and the program that is read is the one that was printed, up to positions. -/
theorem print_roundtrip {p : List Stmt} (wf : Stmt.BodyWellFormed p) :
    ∃ tokens p', tokenize (printProgram p) = .ok tokens ∧ parse tokens = .ok p' ∧
      Stmt.bareBody p' = Stmt.bareBody p := by
  have written := Stmt.written_body p wf
  obtain ⟨ts, cuts, same⟩ := Piece.cut_linesText (fun line mem => (written line mem).nonempty)
    (fun line mem t inside => ((written line mem).words t inside).recognized) .start
  have tidy : Tidy ts := (tidy_linesTokens written).relocate same
  have lexed : tokenize (printProgram p) = .ok ts := by
    rw [tokenize_eq_cut, printProgram, cuts]
    exact congrArg Except.ok (mergeTerminators_eq tidy.apart)
  obtain ⟨p', derived, bare⟩ := (Stmt.derives_body p wf).relocate same
  rw [← tidy.significant_eq] at derived
  refine ⟨ts, p', lexed, parse_of_derives derived, ?_⟩
  rw [bare]
  exact Stmt.mapBody_mapBody Position.forget Position.forget p

/-- A product of a sum and a negated difference, in a function with a chain of branches. -/
theorem print_roundtrip_product :
    let name (s : String) : Expr := .identifier ⟨s, .start⟩
    let product : Expr := .binary .arithmeticMul
      (.binary .arithmeticAdd (name "a") (name "b") .start)
      (.unary .arithmeticSub (.binary .arithmeticSub (name "a")
        (.numeric .typeInt "1" .start) .start) .start) .start
    let p : List Stmt :=
      [.functionDecl .functionDeclarationF "f" .start [⟨"a", .start⟩, ⟨"b", .start⟩] .typeInt
        [.conditional
          (.mk .conditionalIf .start (some (.call "g" [name "a", name "b"] .start))
            [.ret .functionReturn .start (some product)])
          [.mk .conditionalElseIf .start (some (name "b")) [],
            .mk .conditionalElse .start none
              [.variableDecl .variableDeclarationLet "s" .start (some .typeString)
                  (some (.string "\"\"" .start)),
                .ret .functionReturnVoid .start none]]]]
    printProgram p = "fn f ( a , b ) -> int \x7b\nif g ( a , b ) \x7b\n" ++
      "ret ( a + b ) * - ( a - 1 )\n\x7d else if b \x7b\n\x7d else \x7b\n" ++
      "let s : string = \"\"\nrev\n\x7d\n\x7d\n" ∧
    ∃ tokens p', tokenize (printProgram p) = .ok tokens ∧ parse tokens = .ok p' ∧
      Stmt.bareBody p' = Stmt.bareBody p := by
  intro name product p
  have one : IsLiteral .numericLiteral "1" :=
    ⟨"1", [⟨.numericLiteral, "1", .start⟩], by decide +kernel, _, List.mem_cons_self, rfl, rfl⟩
  have empty : IsLiteral .stringLiteral "\"\"" :=
    ⟨"\"\"", [⟨.stringLiteral, "\"\"", .start⟩], by decide +kernel, _, List.mem_cons_self, rfl, rfl⟩
  have names : ∀ s ∈ ["f", "g", "a", "b", "s"], IsName s := by
    unfold IsName
    decide +kernel
  have integer : numericType "1" = .typeInt := by decide +kernel
  have levels : ∀ op ∈ [Symbol.arithmeticAdd, .arithmeticSub, .arithmeticMul],
      ∃ level, op.text ∈ Precedence.lexemes level := by
    intro op mem
    simp only [List.mem_cons, List.not_mem_nil, or_false] at mem
    rcases mem with rfl | rfl | rfl
    · exact ⟨.additive, by decide⟩
    · exact ⟨.additive, by decide⟩
    · exact ⟨.term, by decide⟩
  have wf : Stmt.BodyWellFormed p := by
    simp [p, product, name, Stmt.BodyWellFormed, Stmt.WellFormed, Branch.WellFormed,
      Branch.ChainWellFormed, Branch.kind, Expr.WellFormed, Expr.ArgsWellFormed, VariableShape,
      functionKinds, Symbol.isType, one, empty, names, integer, levels]
  exact ⟨by decide +kernel, print_roundtrip wf⟩

end RatLang
