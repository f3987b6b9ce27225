import RatLang.Lexer
import RatLang.Proofs.Parser.CorrectPrefix

/-!
# What a lexer never holds

The steps of a lexer can be taken in any order, also behind a failure, and any token can be added in
between. Whatever has been done, no two terminators stand side by side: nothing but `push` adds a
token, and it drops the second one.
-/

namespace RatLang

/-- The lexer after a step, also after one that failed. -/
def Lexer.Outcome.lexer {α : Type} : Lexer.Outcome α → Lexer
  | .ok _ lexer | .error _ lexer => lexer

namespace Lexer

/-- What can be done with a lexer. -/
inductive Operation where
  | advance | run | string | char
  | push (token : Token)
deriving DecidableEq, Repr

/-- The lexer after an operation. -/
def perform (lexer : Lexer) : Operation → Lexer
  | .advance => lexer.advance.lexer
  | .run => lexer.run.lexer
  | .string => lexer.string.lexer
  | .char => lexer.char.lexer
  | .push token => lexer.push token

/-- The lexer after operations one after the other. -/
def performAll (lexer : Lexer) (history : List Operation) : Lexer := history.foldl perform lexer

/-- No two terminators stand side by side among the tokens. -/
def Spread (lexer : Lexer) : Prop := lexer.tokens.toList.IsChain Apart

namespace Spread

variable {lexer : Lexer}

theorem ofSource (source : Source) : (Lexer.ofSource source).Spread := .nil

theorem push (h : lexer.Spread) (token : Token) : (lexer.push token).Spread := by
  unfold Lexer.push
  split
  · exact h
  · rename_i stays
    rw [Spread, Array.toList_push]
    refine List.isChain_append.mpr ⟨h, .singleton token, ?_⟩
    rintro last before next ⟨⟩ ends ends'
    rw [Array.getLast?_toList] at before
    have back : lexer.tokens.back?.any Token.isTerminator := by
      simp [Option.mem_def.mp before, ends]
    exact stays (Bool.and_eq_true_iff.mpr ⟨ends', back⟩)

theorem reading (h : lexer.Spread) (source : Source) : { lexer with source : Lexer }.Spread := h

theorem take (h : lexer.Spread) (n : Nat) (kind : TokenKind) : (lexer.take n kind).Spread :=
  (h.reading _).push _

theorem commentBody (h : lexer.Spread) : lexer.commentBody.Spread := (h.reading _).push _

theorem string (h : lexer.Spread) : lexer.string.lexer.Spread := by
  unfold Lexer.string
  dsimp only
  split
  · exact h.take _ _
  · exact h
  · exact h

theorem char (h : lexer.Spread) : lexer.char.lexer.Spread := by
  unfold Lexer.char
  dsimp only
  split
  · exact h
  · exact h
  · split
    · exact h.take _ _
    · exact h

theorem finish (h : lexer.Spread) (lexeme : String) (p : Position) :
    (lexer.finish lexeme p).lexer.Spread := by
  unfold Lexer.finish
  split
  · exact h.push _
  · exact h

theorem candidate (h : lexer.Spread) : lexer.candidate.lexer.Spread := by
  unfold Lexer.candidate
  dsimp only
  split
  · show (if _ then _ else _ : Lexer).Spread
    split
    · exact (h.take _ _).commentBody
    · exact h.take _ _
  · exact (h.reading _).finish _ _
  · split
    · exact (h.reading _).finish _ _
    · exact h

theorem lexer_found (outcome : Outcome Unit) : outcome.found.lexer = outcome.lexer := by
  cases outcome <;> rfl

theorem advance (h : lexer.Spread) : lexer.advance.lexer.Spread := by
  have skipped := h.reading lexer.source.skipBlanks.2
  unfold Lexer.advance
  dsimp only
  split
  · exact skipped.push _
  · split
    · exact skipped
    · exact lexer_found _ ▸ skipped.string
    · exact lexer_found _ ▸ skipped.char
    · split
      · exact skipped.take _ _
      · split
        · exact skipped.take _ _
        · exact lexer_found _ ▸ skipped.candidate

/-- A run is a step after the other. -/
theorem run (h : lexer.Spread) : lexer.run.lexer.Spread := by
  fun_induction Lexer.run lexer with
  | case1 lexer next found _ ih => exact ih (by simpa [found, Outcome.lexer] using h.advance)
  | case2 lexer next found => simpa [found, Outcome.lexer] using h.advance
  | case3 lexer cause next found => simpa [found, Outcome.lexer] using h.advance

theorem perform (h : lexer.Spread) (operation : Operation) : (lexer.perform operation).Spread := by
  cases operation with
  | advance => exact h.advance
  | run => exact h.run
  | string => exact h.string
  | char => exact h.char
  | push token => exact h.push token

theorem performAll (h : lexer.Spread) (history : List Operation) :
    (lexer.performAll history).Spread := by
  induction history generalizing lexer with
  | nil => exact h
  | cons operation history ih => exact ih (h.perform operation)

end Spread

end Lexer

end RatLang
