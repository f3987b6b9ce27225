import RatLang.Proofs.Lexer.Comment
import RatLang.Proofs.Lexer.Emitted
import RatLang.Proofs.Parser.Shift

/-!
# Two texts with a newline between them

A newline belongs to no lexeme, so a text is cut apart at it: what stands in front of it gives its
tokens whatever comes next, and what stands behind it gives the tokens of its own text, on lines
further down.
-/

namespace RatLang

/-! ### Lines further down -/

/-- The same column, some lines further down. -/
def Position.shift (n : Nat) (p : Position) : Position := ⟨p.line + n, p.column⟩

namespace Position

theorem next_shift (n : Nat) (p : Position) (c : Char) :
    (p.shift n).next c = (p.next c).shift n := by
  unfold next
  split
  · simp only [shift, Nat.add_right_comm]
  · rfl

theorem after_shift (n : Nat) (p : Position) (chars : List Char) :
    (p.shift n).after chars = (p.after chars).shift n := by
  induction chars generalizing p with
  | nil => rfl
  | cons c chars ih => rw [after_cons, after_cons, next_shift, ih]

end Position

/-- The error at another position. -/
def LexError.mapPosition (f : Position → Position) : LexError → LexError
  | ambiguousToken lexeme p => ambiguousToken lexeme (f p)
  | unrecognizedToken lexeme p => unrecognizedToken lexeme (f p)
  | unterminatedString p => unterminatedString (f p)
  | invalidStringChar c p => invalidStringChar c (f p)
  | unterminatedChar p => unterminatedChar (f p)
  | invalidCharLiteral lexeme p => invalidCharLiteral lexeme (f p)
  | seek cause => seek cause

/-- The tokens further down, or the error further down. -/
def shiftTokens (n : Nat) (x : Except LexError (List Token)) : Except LexError (List Token) :=
  (x.map (List.map (Token.mapPosition (Position.shift n)))).mapError
    (LexError.mapPosition (Position.shift n))

namespace Piece

variable {p : Position} {text a r : List Char} {piece : Piece} {ts : List Token} {n : Nat}

/-- The piece further down. -/
def shift (n : Nat) (piece : Piece) : Piece :=
  { piece with tokens := piece.tokens.map (Token.mapPosition (Position.shift n)) }

/-- The piece further down, or the error further down. -/
def shiftResult (n : Nat) (x : Except LexError Piece) : Except LexError Piece :=
  (x.map (shift n)).mapError (LexError.mapPosition (Position.shift n))

theorem ofString_shift (n : Nat) (p : Position) (text : List Char) :
    ofString (p.shift n) text = shiftResult n (ofString p text) := by
  simp only [ofString]
  cases (scanString text.tail).ending with
  | closed | unterminated => rfl
  | invalid c =>
    dsimp only
    rw [Position.after_shift]
    rfl

theorem ofChar_shift (n : Nat) (p : Position) (text : List Char) :
    ofChar (p.shift n) text = shiftResult n (ofChar p text) := by
  simp only [ofChar]
  cases (scanChar text.tail).ending with
  | unterminated | control => rfl
  | closed =>
    dsimp only
    split <;> rfl

theorem ofMunch_shift (n : Nat) (p : Position) (text : List Char) (munch : Munch) :
    ofMunch (p.shift n) text munch = shiftResult n (ofMunch p text munch) := by
  cases munch with
  | unrecognized chars => rfl
  | lexeme kind chars =>
    simp only [ofMunch]
    split
    · rw [comment, Position.after_shift]
      rfl
    · rfl

theorem ofText_shift (n : Nat) (p : Position) (text : List Char) :
    ofText (p.shift n) text = shiftResult n (ofText p text) := by
  cases text with
  | nil => rfl
  | cons c l =>
    cases Front.of c with
    | string => exact ofString_shift n p _
    | char => exact ofChar_shift n p _
    | terminator => rfl
    | punctuator double single mark =>
      rw [ofText_punctuator double single mark, ofText_punctuator double single mark]
      rfl
    | munch goes plain =>
      rw [ofText_munch goes plain, ofText_munch goes plain]
      exact ofMunch_shift n p _ _

theorem next_shift (n : Nat) (p : Position) (text : List Char) :
    next (p.shift n) text =
      ((next p text).map (Option.map (shift n))).mapError
        (LexError.mapPosition (Position.shift n)) := by
  unfold next
  dsimp only
  split
  · rfl
  · split
    · rfl
    · rw [Position.after_shift, ofText_shift]
      cases ofText (p.after (text.takeWhile Text.isBlank)) (text.dropWhile Text.isBlank) <;> rfl

/-- A text gives the same tokens further down. -/
theorem cut_shift (n : Nat) (p : Position) (text : List Char) :
    cut (p.shift n) text = shiftTokens n (cut p text) := by
  have moved := next_shift n p text
  cases found : next p text with
  | error cause =>
    rw [found] at moved
    rw [cut_error found, cut_error moved]
    rfl
  | ok piece? =>
    rw [found] at moved
    cases piece? with
    | none =>
      rw [cut_none found, cut_none moved]
      rfl
    | some piece =>
      obtain ⟨⟨rest, split⟩, -⟩ := prefix_of_next found
      have := shorter_of_next found
      have behind : text.drop piece.chars.length = rest := by rw [← split, List.drop_left]
      have more := cut_shift n (p.after piece.chars) (text.drop piece.chars.length)
      rw [behind, ← Position.after_shift] at more
      rw [cut_some found split.symm, cut_some moved split.symm]
      show (cut ((p.shift n).after piece.chars) rest).map _ = _
      rw [more]
      cases cut (p.after piece.chars) rest with
      | error cause => rfl
      | ok ts => exact congrArg Except.ok List.map_append.symm
termination_by text.length

/-! ### In front of a newline -/

/-- A newline behind a text joins none of its pieces. -/
theorem ofText_newline (left : text ≠ []) (found : ofText p text = .ok piece) (r : List Char) :
    ofText p (text ++ '\n' :: r) = .ok piece := by
  obtain ⟨d, l, rfl⟩ := List.exists_cons_of_ne_nil left
  cases Front.of d with
  | string => exact ofString_append found ('\n' :: r)
  | char => exact ofChar_append found (by simp)
  | terminator => exact found
  | punctuator double single mark =>
    rw [List.cons_append, ofText_punctuator double single mark]
    rwa [ofText_punctuator double single mark] at found
  | munch goes plain =>
    rw [ofText_munch goes plain] at found
    rw [List.cons_append, ofText_munch goes plain, ← List.cons_append,
      Munch.ofText_mark (by decide) left]
    cases munch : Munch.ofText (d :: l) with
    | unrecognized chars =>
      rw [munch] at found
      cases found
    | lexeme kind chars =>
      obtain ⟨⟨u, split⟩, -⟩ := Munch.prefix_of_ofText munch
      rw [munch, ofMunch, ← split, List.drop_left] at found
      rw [ofMunch, ← split, List.append_assoc, List.drop_left, takeWhile_stop (by simp)]
      exact found

/-- What is merged in the same way is merged in the same way behind more tokens. -/
theorem map_merged {x y : Except LexError (List Token)} {g : List Token → List Token}
    (same : x.map mergeTerminators = y.map fun us => mergeTerminators (g us))
    (ts : List Token) :
    (x.map (ts ++ ·)).map mergeTerminators = y.map fun us => mergeTerminators (ts ++ g us) := by
  cases x with
  | error cause =>
    cases y with
    | error cause' =>
      cases same
      rfl
    | ok us => cases same
  | ok vs =>
    cases y with
    | error cause => cases same
    | ok us =>
      injection same with same
      exact congrArg Except.ok (mergeTerminators_append_congr ts same)

/-- Whitespace without a newline is skipped. -/
theorem cut_skip {blanks text : List Char} (blank : ∀ c ∈ blanks, Text.isBlank c)
    (plain : '\n' ∉ blanks) (stops : ∀ c ∈ text.head?, ¬Text.isBlank c) :
    cut p (blanks ++ text) = cut (p.after blanks) text := by
  have none_skipped : next (p.after blanks) text =
      if text = [] then .ok none else (ofText (p.after blanks) text).map some := by
    have := next_blanks (p := p.after blanks) (List.forall_mem_nil _) stops
    simpa using this
  have skipped := next_blanks (p := p) blank stops
  rw [if_neg plain] at skipped
  by_cases left : text = []
  · rw [if_pos left] at skipped none_skipped
    rw [cut_none skipped, cut_none none_skipped]
  · rw [if_neg left] at skipped none_skipped
    cases found : ofText (p.after blanks) text with
    | error cause =>
      rw [found] at skipped none_skipped
      rw [cut_error skipped, cut_error none_skipped]
    | ok piece =>
      obtain ⟨⟨rest, split⟩, -⟩ := prefix_of_ofText left found
      rw [found] at none_skipped
      rw [cut_piece blank plain stops left found split.symm, cut_some none_skipped split.symm]

/-- Behind a terminator the whitespace at the front of a line makes no difference. -/
theorem cutNextLine_merged (line : Nat) (q : Position) (ts : List Token) (r : List Char) :
    (cutNextLine line r).map (fun us => mergeTerminators (ts ++ .terminator q :: us)) =
      (cut ⟨line + 1, 1⟩ r).map fun us => mergeTerminators (ts ++ .terminator q :: us) := by
  have blank := blank_takeWhile r
  have stops := stops_dropWhile r
  have split : r.takeWhile Text.isBlank ++ r.dropWhile Text.isBlank = r :=
    List.takeWhile_append_dropWhile
  unfold cutNextLine
  by_cases newline : '\n' ∈ r.takeWhile Text.isBlank
  · have whole := cut_newline (p := ⟨line + 1, 1⟩) blank newline stops
    rw [split] at whole
    rw [whole]
    cases cut (Position.after ⟨line + 1, 1⟩ (r.takeWhile Text.isBlank))
        (r.dropWhile Text.isBlank) with
    | error cause => rfl
    | ok us => exact congrArg Except.ok (mergeTerminators_twice ts us rfl rfl).symm
  · rw [← cut_skip blank newline stops, split]

theorem Cuts.eq_nil (cuts : Cuts p [] ts) : ts = [] := by
  generalize empty : ([] : List Char) = text at cuts
  cases cuts with
  | done => rfl
  | newline _ newline =>
    rw [(List.append_eq_nil_iff.mp empty.symm).1] at newline
    cases newline
  | piece _ _ _ left => exact absurd (List.append_eq_nil_iff.mp empty.symm).2 left

/-- Whitespace with a newline behind it gives a terminator. -/
theorem cut_blank_line {blanks : List Char} (blank : ∀ c ∈ blanks, Text.isBlank c)
    (r : List Char) :
    (cut p (blanks ++ '\n' :: r)).map mergeTerminators =
      (cut ⟨(p.after blanks).line + 1, 1⟩ r).map fun us =>
        mergeTerminators (.terminator p :: us) := by
  have merged := cutNextLine_merged (p.after blanks).line p [] r
  simp only [List.nil_append] at merged
  rw [cut_break blank, ← merged]
  cases cutNextLine (p.after blanks).line r <;> rfl

/-- A text without tokens holds nothing but whitespace. -/
theorem Cuts.plain_of_nil (cuts : Cuts p text []) : '\n' ∉ text ∧ ∀ c ∈ text, Text.isBlank c := by
  generalize none_cut : ([] : List Token) = ts at cuts
  cases cuts with
  | done blank plain => exact ⟨plain, blank⟩
  | newline => cases none_cut
  | piece _ _ _ left found =>
    have empty := (List.append_eq_nil_iff.mp none_cut.symm).1
    cases form_of_ofText left found with
    | lexeme | comment => cases empty

end Piece

/-- Where a line ends: behind its last token, and at the start of the text if it has none. A comment
reads its line to the end. -/
def lineEnd (p : Position) (text : List Char) (tokens : List Token) : Position :=
  match tokens.getLast? with
  | none => p
  | some t => if t.kind = .commentBody then p.after text else t.position.after t.lexeme.toList

theorem lineEnd_append (p : Position) (front rest : List Char) (before : List Token)
    {ts : List Token} (some_cut : ts ≠ []) :
    lineEnd p (front ++ rest) (before ++ ts) = lineEnd (p.after front) rest ts := by
  rw [lineEnd, lineEnd, List.getLast?_append_of_ne_nil before some_cut, Position.after_append,
    List.getLast?_eq_some_getLast some_cut]

namespace Piece

variable {p : Position} {text a rest : List Char} {piece : Piece} {ts : List Token}

/-- The line of a last piece ends behind the piece. -/
theorem lineEnd_piece {blanks : List Char} (left : text ≠ [])
    (found : ofText (p.after blanks) text = .ok piece) (split : text = piece.chars ++ rest)
    (single : '\n' ∉ rest) :
    lineEnd p (blanks ++ text) piece.tokens = (p.after blanks).after piece.chars := by
  cases form_of_ofText left found with
  | lexeme kind chars opens goes => simp [lineEnd, lexeme, goes]
  | comment behind =>
    have whole : behind.dropWhile (· != '\n') = rest := by
      have line : behind = behind.takeWhile (· != '\n') ++ rest := by simpa [comment] using split
      refine List.append_cancel_left (Eq.trans ?_ line)
      exact List.takeWhile_append_dropWhile
    -- The comment reads up to a newline, and there is none.
    have spent : rest = [] := by
      cases rest with
      | nil => rfl
      | cons c rest =>
        have stops := List.head?_dropWhile_not (· != '\n') behind
        rw [whole] at stops
        simp_all
    rw [← Position.after_append]
    subst spent
    rw [split, List.append_nil]
    simp [lineEnd, comment]

/-- A text with a newline behind it gives its tokens and a terminator where its last line ends, and
then what comes next gives its own tokens. -/
theorem cut_seam (cuts : Cuts p a ts) (r : List Char) :
    (cut p (a ++ '\n' :: r)).map mergeTerminators =
      (cut ⟨(p.after a).line + 1, 1⟩ r).map fun us =>
        mergeTerminators (ts ++ .terminator (lineEnd p a ts) :: us) := by
  induction cuts with
  | done blank => exact cut_blank_line blank r
  | @newline p blanks rest ts blank newline stops more ih =>
    by_cases left : rest = []
    · -- The newline of the seam joins the whitespace at the end of the text.
      subst left
      obtain rfl := more.eq_nil
      have twice (q : Position) (us : List Token) :
          mergeTerminators ([.terminator p] ++ .terminator q :: us) =
            mergeTerminators (.terminator p :: us) := mergeTerminators_twice [] us rfl rfl
      simp only [twice, List.append_nil]
      exact cut_blank_line blank r
    · have some_cut : ts ≠ [] := by
        rintro rfl
        obtain ⟨c, l, rfl⟩ := List.exists_cons_of_ne_nil left
        exact stops c rfl (more.plain_of_nil.2 c List.mem_cons_self)
      have stops' : ∀ c ∈ (rest ++ '\n' :: r).head?, ¬Text.isBlank c := by
        rwa [List.head?_append_of_ne_nil _ left]
      have ends := lineEnd_append p blanks rest [.terminator p] some_cut
      rw [List.singleton_append] at ends
      rw [List.append_assoc, cut_newline blank newline stops', Position.after_append, ends]
      exact map_merged ih [.terminator p]
  | @piece p blanks text rest piece ts blank plain stops left found split more ih =>
    have ends : lineEnd p (blanks ++ text) (piece.tokens ++ ts) =
        lineEnd ((p.after blanks).after piece.chars) rest ts := by
      by_cases last : ts = []
      · subst last
        rw [List.append_nil, lineEnd_piece left found split more.plain_of_nil.1]
        rfl
      · rw [split, ← List.append_assoc, lineEnd_append p _ rest _ last, Position.after_append]
    have stops' : ∀ c ∈ (text ++ '\n' :: r).head?, ¬Text.isBlank c := by
      rwa [List.head?_append_of_ne_nil _ left]
    have split' : text ++ '\n' :: r = piece.chars ++ (rest ++ '\n' :: r) := by
      rw [split, List.append_assoc]
    rw [List.append_assoc,
      cut_piece blank plain stops' (by simp [left]) (ofText_newline left found r) split', ends,
      Position.after_append, split, Position.after_append]
    have same := map_merged ih piece.tokens
    rw [same]
    simp only [List.append_assoc]

end Piece

end RatLang
