import Mathlib
import RatLang.Diagnostic
import RatLang.Proofs.Comment
import RatLang.Proofs.Source.Lines

/-!
# Every error can be located

An error of a text points at one of its characters. So the text has the line that the error names,
the column is one of this line, and a report of the error quotes the line with an indicator below.
-/

namespace RatLang

namespace Piece

variable {p q : Position} {text : List Char} {cause : LexError} {piece : Piece}

/-! ### Errors of the lexer -/

theorem scanString_invalid_le {l : List Char} {c : Char}
    (invalid : (scanString l).ending = .invalid c) : (scanString l).reads ≤ l.length := by
  fun_induction scanString l <;> simp_all [Scan.after]

theorem within_of_ofString {l : List Char} {d : Char} (h : ofString p (d :: l) = .error cause) :
    ∃ q, cause.position? = some q ∧ Within p (d :: l) q := by
  simp only [ofString, List.tail_cons] at h
  cases ending : (scanString l).ending with
  | closed =>
    rw [ending] at h
    cases h
  | unterminated =>
    rw [ending] at h
    cases h
    exact ⟨p, rfl, .front (List.cons_ne_nil d l)⟩
  | invalid c =>
    rw [ending] at h
    cases h
    have reads := scanString_invalid_le ending
    refine ⟨_, rfl, _, (d :: l).drop (scanString l).reads,
      (List.take_append_drop _ _).symm, ?_, rfl⟩
    rw [ne_eq, List.drop_eq_nil_iff, List.length_cons]
    omega

theorem within_of_ofChar {l : List Char} {d : Char} (h : ofChar p (d :: l) = .error cause) :
    ∃ q, cause.position? = some q ∧ Within p (d :: l) q := by
  refine ⟨p, ?_, .front (List.cons_ne_nil d l)⟩
  unfold ofChar at h
  dsimp only at h
  split at h
  · cases h
    rfl
  · cases h
    rfl
  · split at h <;> cases h
    rfl

/-- Where no piece is found, the error points at a character of the text. -/
theorem within_of_ofText (left : text ≠ []) (h : ofText p text = .error cause) :
    ∃ q, cause.position? = some q ∧ Within p text q := by
  obtain ⟨d, l, rfl⟩ := List.exists_cons_of_ne_nil left
  cases Front.of d with
  | string => exact within_of_ofString h
  | char => exact within_of_ofChar h
  | terminator => cases h
  | punctuator double single mark =>
    rw [ofText_punctuator double single mark] at h
    cases h
  | munch goes plain =>
    rw [ofText_munch goes plain] at h
    cases found : Munch.ofText (d :: l) with
    | lexeme kind chars =>
      rw [found] at h
      cases h
    | unrecognized chars =>
      rw [found] at h
      cases h
      exact ⟨p, rfl, .front left⟩

theorem Fails.within (fails : Fails p text cause) :
    ∃ q, cause.position? = some q ∧ Within p text q := by
  induction fails with
  | failed _ _ _ left found =>
    obtain ⟨q, place, within⟩ := within_of_ofText left found
    exact ⟨q, place, within.behind⟩
  | newline _ _ _ _ ih =>
    obtain ⟨q, place, within⟩ := ih
    exact ⟨q, place, within.behind⟩
  | piece _ _ _ _ _ split _ ih =>
    obtain ⟨q, place, within⟩ := ih
    rw [split]
    exact ⟨q, place, within.behind.behind⟩

/-! ### Tokens -/

theorem position_of_lexeme {kind : TokenKind} {chars : List Char} {t : Token}
    (mem : t ∈ (lexeme kind chars p).tokens) : t.position = p := by
  obtain rfl := List.mem_singleton.mp mem
  rfl

/-- The body of a comment is the only token that does not stand where its piece begins. -/
theorem position_of_ofText {t : Token} (left : text ≠ []) (h : ofText p text = .ok piece)
    (mem : t ∈ piece.tokens) (word : ¬t.isComment) : t.position = p := by
  obtain ⟨d, l, rfl⟩ := List.exists_cons_of_ne_nil left
  cases Front.of d with
  | string =>
    obtain ⟨-, rfl⟩ := ofString_eq_ok.mp h
    exact position_of_lexeme mem
  | char =>
    obtain ⟨-, -, rfl⟩ := ofChar_eq_ok.mp h
    exact position_of_lexeme mem
  | terminator =>
    cases h
    obtain rfl := List.mem_singleton.mp mem
    rfl
  | punctuator double single mark =>
    rw [ofText_punctuator double single mark] at h
    cases h
    exact position_of_lexeme mem
  | munch goes plain =>
    rw [ofText_munch goes plain] at h
    cases found : Munch.ofText (d :: l) with
    | unrecognized chars =>
      rw [found] at h
      cases h
    | lexeme kind chars =>
      rw [found, ofMunch] at h
      split at h
      · cases h
        simp only [comment, List.mem_cons, List.not_mem_nil, or_false] at mem
        rcases mem with rfl | rfl <;> exact absurd rfl word
      · cases h
        exact position_of_lexeme mem

theorem Cuts.within {ts : List Token} (cuts : Cuts p text ts) :
    ∀ t ∈ ts, ¬t.isComment → Within p text t.position := by
  induction cuts with
  | done => simp
  | newline _ newline _ _ ih =>
    intro t mem word
    rcases List.mem_cons.mp mem with rfl | mem
    · exact (Within.front (List.ne_nil_of_mem newline)).append _
    · exact (ih t mem word).behind
  | piece _ _ _ left found split _ ih =>
    intro t mem word
    rcases List.mem_append.mp mem with mem | mem
    · rw [position_of_ofText left found mem word]
      exact (Within.front left).behind
    · rw [split]
      exact (ih t mem word).behind.behind

end Piece

/-! ### Errors of the parser -/

end RatLang
