import Mathlib
import RatLang.Proofs.Comment
import RatLang.Proofs.Lexer.Seam
import RatLang.Proofs.Parser.SideBySide

/-!
# Programs compose

Where a newline stands between two programs, the end of the first one becomes the end of a line and
changes nothing that was read so far. The program of the whole text is that of its parts, one behind
the other, and the parts keep their columns.
-/

namespace RatLang

/-- A text compiles where its pieces are found and their tokens form a program. -/
theorem compile_eq_ok_iff {name text : String} {program : List Stmt} :
    compile name text = .ok program ↔
      ∃ ts, Piece.cut .start text.toList = .ok ts ∧ parse ts = .ok program := by
  rw [compile_eq_cut]
  cases Piece.cut .start text.toList with
  | error cause => simp
  | ok ts =>
    simp only [Except.ok.injEq, exists_eq_left', parse_mergeTerminators]
    cases parse ts <;> simp [Except.mapError]

namespace Piece

/-- A text at the start of a later line. -/
theorem cut_further {text : List Char} {ts : List Token} (n : Nat)
    (cuts : cut .start text = .ok ts) :
    cut ⟨n + 1, 1⟩ text = .ok (ts.map (Token.mapPosition (Position.shift n))) := by
  have start : Position.mk (n + 1) 1 = Position.start.shift n := by
    rw [Position.shift, Position.start, Nat.add_comm]
  rw [start, cut_shift, cuts]
  rfl

/-- The tokens of two texts with a newline between them, up to terminators side by side. -/
theorem exists_cut_seam {p : Position} {a r : List Char} {ts us : List Token} {n : Nat}
    (line : p.line + a.count '\n' = n) (first : cut p a = .ok ts)
    (second : cut ⟨n + 1, 1⟩ r = .ok us) :
    ∃ q vs, cut p (a ++ '\n' :: r) = .ok vs ∧
      mergeTerminators vs = mergeTerminators (ts ++ .terminator q :: us) := by
  have merged := cut_seam (cuts_of_cut first) r
  rw [line_after, line, second] at merged
  obtain ⟨vs, eq, same⟩ := ok_of_map merged
  exact ⟨_, vs, eq, same.symm⟩

end Piece

/-- Two programs with a newline between them are one program, and so are a program between braces
and a program behind it: the statements of both, with the same columns, on lines further down. -/
theorem compile_compose {name name' a b : String} {p q : List Stmt}
    (first : compile name a = .ok p) (second : compile name' b = .ok q) (name'' : String) :
    compile name'' (a ++ "\n" ++ b) =
      .ok (p ++ Stmt.mapBody (Position.shift (a.toList.count '\n' + 1)) q) ∧
    compile name'' ("\x7b\n" ++ a ++ "\n\x7d\n" ++ b) =
      .ok (Stmt.mapBody (Position.shift 1) p ++
        Stmt.mapBody (Position.shift (a.toList.count '\n' + 3)) q) := by
  obtain ⟨ts, cutA, parsedA⟩ := compile_eq_ok_iff.mp first
  obtain ⟨us, cutB, parsedB⟩ := compile_eq_ok_iff.mp second
  constructor
  · have behind := Piece.cut_further (a.toList.count '\n' + 1) cutB
    obtain ⟨_, vs, eq, merged⟩ := Piece.exists_cut_seam (Nat.add_comm 1 _) cutA behind
    refine compile_eq_ok_iff.mpr ⟨vs, by simpa using eq, ?_⟩
    rw [← parse_mergeTerminators, merged, parse_mergeTerminators]
    exact parse_append rfl parsedA (parse_mapPosition _ parsedB)
  · let lines := a.toList.count '\n'
    have opening : Piece.cut .start ['\x7b'] = .ok [⟨.punctuator, "\x7b", ⟨1, 1⟩⟩] := by
      decide +kernel
    have closing : Piece.cut .start ['\x7d'] = .ok [⟨.punctuator, "\x7d", ⟨1, 1⟩⟩] := by
      decide +kernel
    -- The lines of the text, from the last one to the first.
    obtain ⟨_, vs, cut₁, merged₁⟩ := Piece.exists_cut_seam rfl
      (Piece.cut_further (lines + 2) closing) (Piece.cut_further (lines + 3) cutB)
    obtain ⟨_, vs', cut₂, merged₂⟩ := Piece.exists_cut_seam (Nat.add_comm 2 lines)
      (Piece.cut_further 1 cutA) cut₁
    obtain ⟨_, ws, cut₃, merged₃⟩ := Piece.exists_cut_seam rfl opening cut₂
    refine compile_eq_ok_iff.mpr ⟨ws, by simpa using cut₃, ?_⟩
    have whole := merged₃.trans (mergeTerminators_append_congr _ (mergeTerminators_congr _
      (merged₂.trans (mergeTerminators_append_congr _ (mergeTerminators_congr _ merged₁)))))
    rw [← parse_mergeTerminators, whole, parse_mergeTerminators]
    exact parse_block rfl rfl rfl rfl rfl (parse_mapPosition _ parsedA)
      (parse_mapPosition _ parsedB)

/-- A conditional whose `else` could still follow, with a comment behind it, in front of a
declaration. -/
theorem compile_compose_conditional :
    let p : List Stmt := [.conditional
      (.mk .conditionalIf ⟨1, 1⟩ (some (.identifier ⟨"a", ⟨1, 4⟩⟩))
        [.expression (.call "f" [] ⟨1, 8⟩) ⟨1, 8⟩]) []]
    let q : List Stmt :=
      [.variableDecl .variableDeclarationLet "b" ⟨1, 1⟩ none (some (.numeric .typeInt "1" ⟨1, 9⟩))]
    let a := "if a \x7b f() \x7d // one\n"
    let b := "let b = 1"
    compile "a.rat" a = .ok p ∧ compile "b.rat" b = .ok q ∧
    compile "c.rat" (a ++ "\n" ++ b) = .ok (p ++ Stmt.mapBody (Position.shift 2) q) ∧
    compile "c.rat" ("\x7b\n" ++ a ++ "\n\x7d\n" ++ b) =
      .ok (Stmt.mapBody (Position.shift 1) p ++ Stmt.mapBody (Position.shift 4) q) := by
  intro p q a b
  have first : compile "a.rat" a = .ok p := by
    refine compile_eq_ok_iff.mpr ⟨[⟨.keyword, "if", ⟨1, 1⟩⟩, ⟨.identifier, "a", ⟨1, 4⟩⟩,
      ⟨.punctuator, "\x7b", ⟨1, 6⟩⟩, ⟨.identifier, "f", ⟨1, 8⟩⟩, ⟨.punctuator, "(", ⟨1, 9⟩⟩,
      ⟨.punctuator, ")", ⟨1, 10⟩⟩, ⟨.punctuator, "\x7d", ⟨1, 12⟩⟩,
      ⟨.commentSeparator, "//", ⟨1, 14⟩⟩, ⟨.commentBody, " one", ⟨1, 16⟩⟩,
      ⟨.statementTerminator, ";", ⟨1, 20⟩⟩], by decide +kernel, ?_⟩
    cbv
  have second : compile "b.rat" b = .ok q := by
    refine compile_eq_ok_iff.mpr ⟨[⟨.keyword, "let", ⟨1, 1⟩⟩, ⟨.identifier, "b", ⟨1, 5⟩⟩,
      ⟨.operator, "=", ⟨1, 7⟩⟩, ⟨.numericLiteral, "1", ⟨1, 9⟩⟩], by decide +kernel, ?_⟩
    cbv
  have lines : a.toList.count '\n' = 1 := by decide
  have composed := compile_compose first second "c.rat"
  rw [lines] at composed
  exact ⟨first, second, composed⟩

end RatLang
