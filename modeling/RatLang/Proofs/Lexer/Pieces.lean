import RatLang.Proofs.Lexer.LongestMatch
import RatLang.Proofs.Parser.CorrectPrefix

/-!
# A text is cut into pieces

The tokens of a text, said without a lexer: the pieces that are cut off the front of the text one
after the other. A piece depends on nothing but the text that is left and its position, so two texts
can be compared piece by piece. Of the tokens of all pieces the lexer keeps those that remain when
terminators side by side are merged.
-/

namespace RatLang

/-- What is cut off the front of a text: its characters, and the tokens that they give. -/
structure Piece where
  chars : List Char
  tokens : List Token

namespace Piece

/-- A piece that is one lexeme. -/
def lexeme (kind : TokenKind) (chars : List Char) (p : Position) : Piece :=
  ⟨chars, [⟨kind, String.ofList chars, p⟩]⟩

/-- The string literal at the front of a text, whose first character is its opening quote. -/
def ofString (p : Position) (text : List Char) : Except LexError Piece :=
  let scan := scanString text.tail
  match scan.ending with
  | .closed => .ok (lexeme .stringLiteral (text.take (scan.reads + 1)) p)
  | .unterminated => .error (.unterminatedString p)
  | .invalid c => .error (.invalidStringChar c (p.after (text.take scan.reads)))

/-- The char literal at the front of a text, whose first character is its opening quote. -/
def ofChar (p : Position) (text : List Char) : Except LexError Piece :=
  let scan := scanChar text.tail
  let chars := text.take (scan.reads + 1)
  match scan.ending with
  | .unterminated => .error (.unterminatedChar p)
  | .control => .error (.invalidCharLiteral (String.ofList chars) p)
  | .closed =>
    if isCharLiteral (String.ofList chars) then .ok (lexeme .charLiteral chars p)
    else .error (.invalidCharLiteral (String.ofList chars) p)

/-- A comment: its mark, and the line behind it as its body. -/
def comment (mark line : List Char) (p : Position) : Piece :=
  ⟨mark ++ line, [⟨.commentSeparator, String.ofList mark, p⟩,
    ⟨.commentBody, String.ofList (Source.dropCarriageReturn line), p.after mark⟩]⟩

/-- The piece of a lexeme that stands at the front of a text. -/
def ofMunch (p : Position) (text : List Char) : Munch → Except LexError Piece
  | .lexeme kind chars =>
    .ok (if kind = .commentSeparator then
      comment chars ((text.drop chars.length).takeWhile (· != '\n')) p
    else lexeme kind chars p)
  | .unrecognized chars => .error (.unrecognizedToken (String.ofList chars) p)

/-- The piece at the front of a text that begins with no whitespace. -/
def ofText (p : Position) (text : List Char) : Except LexError Piece :=
  match text.head? with
  | some '"' => ofString p text
  | some '\'' => ofChar p text
  | some c =>
    if c = terminatorMark then .ok ⟨[c], [.terminator p]⟩
    else if isPunctuator c then .ok (lexeme .punctuator [c] p)
    else ofMunch p text (.ofText text)
  | none => .ok ⟨[], []⟩

/-- The next piece of a text, if one is left. Whitespace in front of it belongs to it, and
whitespace that holds a newline is a piece of its own. -/
def next (p : Position) (text : List Char) : Except LexError (Option Piece) :=
  let blanks := text.takeWhile Text.isBlank
  let behind := text.dropWhile Text.isBlank
  if '\n' ∈ blanks then .ok (some ⟨blanks, [.terminator p]⟩)
  else if behind = [] then .ok none
  else (ofText (p.after blanks) behind).map fun piece =>
    some { piece with chars := blanks ++ piece.chars }

end Piece

namespace Munch

/-- What stands at the front of a text never ends a statement. -/
theorem visible_of_ofText {text chars : List Char} {kind : TokenKind}
    (h : ofText text = .lexeme kind chars) : kind ≠ .statementTerminator := by
  unfold ofText ofWord ofOther ofGrammar at h
  grind

theorem ofGrammar_eq {chars chars' : List Char} {kind : TokenKind}
    (h : ofGrammar chars = .lexeme kind chars') : chars' = chars := by
  unfold ofGrammar at h
  split at h
  · cases h
    rfl
  · split at h <;> cases h
    rfl

/-- A lexeme is not empty, and it stands at the front of the text. -/
theorem prefix_of_ofText {text chars : List Char} {kind : TokenKind}
    (h : ofText text = .lexeme kind chars) : chars <+: text ∧ chars ≠ [] := by
  unfold ofText at h
  split at h
  · rename_i name
    cases text with
    | nil => simp at name
    | cons c text =>
      have first : isNameChar c := by simpa using name
      have longer : isWordChar c := by simp [isWordChar, first]
      have word :
          (c :: text).takeWhile isNameChar ++ (c :: text).dropWhile isNameChar = c :: text :=
        List.takeWhile_append_dropWhile
      unfold ofWord at h
      dsimp only at h
      split at h
      · split at h
        · cases h
        · cases h
          refine ⟨⟨((c :: text).dropWhile isNameChar).drop 1, ?_⟩, by simp [first]⟩
          rw [List.append_assoc, List.take_append_drop, word]
      · split at h
        · cases h
          exact ⟨List.takeWhile_prefix _, by simp [first]⟩
        · split at h
          · cases h
            exact ⟨List.takeWhile_prefix _, by simp [first]⟩
          · rw [ofGrammar_eq h]
            exact ⟨List.takeWhile_prefix _, by simp [longer]⟩
  · unfold ofOther at h
    split at h
    · rename_i symbol longest
      cases h
      obtain ⟨mem, front, -⟩ := longestSymbol?_eq_some_iff.mp longest
      refine ⟨front, fun empty => ?_⟩
      have size := length_of_symbol symbol mem
      rw [empty] at size
      simp at size
    · cases h

end Munch

namespace Piece

variable {p : Position} {text : List Char} {piece : Piece}

/-! ### First characters -/

/-- What the first character of a text opens. -/
inductive Front : Char → Prop where
  | string : Front '"'
  | char : Front '\''
  | terminator : Front terminatorMark
  | punctuator {c : Char} (double : c ≠ '"') (single : c ≠ '\'') (mark : isPunctuator c) : Front c
  | munch {c : Char} (goes : c ≠ terminatorMark) (plain : ¬isPunctuator c) : Front c

theorem Front.of (c : Char) : Front c := by
  by_cases double : c = '"'
  · exact double ▸ .string
  by_cases single : c = '\''
  · exact single ▸ .char
  by_cases mark : isPunctuator c
  · exact .punctuator double single mark
  by_cases ends : c = terminatorMark
  · exact ends ▸ .terminator
  · exact .munch ends mark

theorem ofText_string (l : List Char) : ofText p ('"' :: l) = ofString p ('"' :: l) := rfl

theorem ofText_char (l : List Char) : ofText p ('\'' :: l) = ofChar p ('\'' :: l) := rfl

theorem ofText_terminator (l : List Char) :
    ofText p (terminatorMark :: l) = .ok ⟨[terminatorMark], [.terminator p]⟩ := rfl

theorem ofText_punctuator {c : Char} (double : c ≠ '"') (single : c ≠ '\'')
    (mark : isPunctuator c) (l : List Char) :
    ofText p (c :: l) = .ok (lexeme .punctuator [c] p) := by
  have goes : c ≠ terminatorMark := by
    rintro rfl
    exact absurd mark (by decide)
  unfold ofText
  split <;> simp_all

theorem ofText_munch {c : Char} (goes : c ≠ terminatorMark) (plain : ¬isPunctuator c)
    (l : List Char) : ofText p (c :: l) = ofMunch p (c :: l) (.ofText (c :: l)) := by
  have double : c ≠ '"' := by
    rintro rfl
    exact plain (by decide)
  have single : c ≠ '\'' := by
    rintro rfl
    exact plain (by decide)
  unfold ofText
  split <;> simp_all

/-- A piece is not empty, and it stands at the front of the text. -/
theorem prefix_of_ofText (left : text ≠ []) (h : ofText p text = .ok piece) :
    piece.chars <+: text ∧ piece.chars ≠ [] := by
  obtain ⟨c, tail, rfl⟩ := List.exists_cons_of_ne_nil left
  cases Front.of c with
  | string =>
    rw [ofText_string] at h
    unfold ofString at h
    dsimp only at h
    split at h <;> cases h
    exact ⟨List.take_prefix _ _, by simp [lexeme]⟩
  | char =>
    rw [ofText_char] at h
    unfold ofChar at h
    dsimp only at h
    split at h
    · cases h
    · cases h
    · split at h <;> cases h
      exact ⟨List.take_prefix _ _, by simp [lexeme]⟩
  | terminator =>
    rw [ofText_terminator] at h
    cases h
    exact ⟨⟨tail, rfl⟩, List.cons_ne_nil _ _⟩
  | punctuator double single mark =>
    rw [ofText_punctuator double single mark] at h
    cases h
    exact ⟨⟨tail, rfl⟩, List.cons_ne_nil _ _⟩
  | munch goes plain =>
    rw [ofText_munch goes plain] at h
    cases found : Munch.ofText (c :: tail) with
    | unrecognized chars =>
      rw [found] at h
      cases h
    | lexeme kind chars =>
      obtain ⟨⟨rest, split⟩, some_read⟩ := Munch.prefix_of_ofText found
      rw [found, ofMunch, ← split, List.drop_left] at h
      cases h
      rw [← split]
      split
      · refine ⟨(List.prefix_append_right_inj chars).mpr (List.takeWhile_prefix _), ?_⟩
        simp [comment, some_read]
      · exact ⟨List.prefix_append chars rest, some_read⟩

theorem prefix_of_next (h : next p text = .ok (some piece)) :
    piece.chars <+: text ∧ piece.chars ≠ [] := by
  have split : text.takeWhile Text.isBlank ++ text.dropWhile Text.isBlank = text :=
    List.takeWhile_append_dropWhile
  unfold next at h
  dsimp only at h
  split at h
  · rename_i newline
    cases h
    exact ⟨List.takeWhile_prefix _, List.ne_nil_of_mem newline⟩
  · split at h
    · cases h
    · rename_i left
      cases found : ofText (p.after (text.takeWhile Text.isBlank))
          (text.dropWhile Text.isBlank) with
      | error cause =>
        rw [found] at h
        cases h
      | ok piece' =>
        rw [found] at h
        cases h
        obtain ⟨front, some_read⟩ := prefix_of_ofText left found
        refine ⟨?_, by simp [some_read]⟩
        conv_rhs => rw [← split]
        exact (List.prefix_append_right_inj _).mpr front

theorem shorter_of_next (h : next p text = .ok (some piece)) :
    text.length - piece.chars.length < text.length := by
  obtain ⟨front, some_read⟩ := prefix_of_next h
  have := front.length_le
  have := List.length_pos_iff.mpr some_read
  omega

/-- The tokens of all pieces of a text. -/
def cut (p : Position) (text : List Char) : Except LexError (List Token) :=
  match found : next p text with
  | .error cause => .error cause
  | .ok none => .ok []
  | .ok (some piece) =>
    have := shorter_of_next found
    (cut (p.after piece.chars) (text.drop piece.chars.length)).map (piece.tokens ++ ·)
termination_by text.length

theorem cut_error {cause : LexError} (h : next p text = .error cause) :
    cut p text = .error cause := by
  rw [cut]
  split <;> simp_all

theorem cut_none (h : next p text = .ok none) : cut p text = .ok [] := by
  rw [cut]
  split <;> simp_all

theorem cut_some {rest : List Char} (h : next p text = .ok (some piece))
    (split : text = piece.chars ++ rest) :
    cut p text = (cut (p.after piece.chars) rest).map (piece.tokens ++ ·) := by
  have behind : text.drop piece.chars.length = rest := by rw [split, List.drop_left]
  rw [cut]
  split <;> rename_i found <;> rw [h] at found <;> cases found
  rw [behind]

end Piece

namespace Lexer

/-- Adds several tokens, one after the other. -/
def pushAll (lexer : Lexer) (tokens : List Token) : Lexer := tokens.foldl push lexer

theorem pushAll_append (lexer : Lexer) (ts us : List Token) :
    lexer.pushAll (ts ++ us) = (lexer.pushAll ts).pushAll us :=
  List.foldl_append

/-- What is added depends only on what is there. -/
theorem tokens_pushAll_congr {lexer other : Lexer} (same : lexer.tokens = other.tokens)
    (ts : List Token) : (lexer.pushAll ts).tokens = (other.pushAll ts).tokens := by
  induction ts generalizing lexer other with
  | nil => exact same
  | cons t ts ih => exact ih (tokens_push_congr same t)

/-! ### A step cuts one piece -/

/-- A step reads a piece and adds its tokens, or fails for the same reason. -/
def Agrees (lexer : Lexer) (outcome : Outcome Bool) : Except LexError Piece → Prop
  | .ok piece => ∃ next : Lexer, outcome = .ok true next ∧
      lexer.source.Reads piece.chars next.source ∧
      next.tokens = (lexer.pushAll piece.tokens).tokens
  | .error cause => ∃ next, outcome = .error cause next

theorem agrees_take (lexer : Lexer) (n : Nat) (kind : TokenKind) :
    lexer.Agrees (.ok true (lexer.take n kind))
      (.ok (.lexeme kind (lexer.source.rest.take n) lexer.source.position)) := by
  refine ⟨_, rfl, ?_, ?_⟩
  · rw [source_take]
    exact Source.advanceBy_reads n lexer.source
  · let read : Lexer := { lexer with source := lexer.source.advanceBy n }
    have same : read.tokens = lexer.tokens := rfl
    exact tokens_push_congr same _

theorem agrees_string (lexer : Lexer) :
    lexer.Agrees lexer.string.found (Piece.ofString lexer.source.position lexer.source.rest) := by
  simp only [string, Piece.ofString]
  cases (scanString lexer.source.rest.tail).ending with
  | closed => exact agrees_take lexer _ _
  | unterminated => exact ⟨_, rfl⟩
  | invalid c =>
    rw [(Source.advanceBy_reads _ lexer.source).position]
    exact ⟨_, rfl⟩

theorem agrees_char (lexer : Lexer) :
    lexer.Agrees lexer.char.found (Piece.ofChar lexer.source.position lexer.source.rest) := by
  simp only [char, Piece.ofChar]
  cases (scanChar lexer.source.rest.tail).ending with
  | unterminated | control => exact ⟨_, rfl⟩
  | closed =>
    dsimp only
    split
    · exact agrees_take lexer _ _
    · exact ⟨_, rfl⟩

/-- The body of a comment is the rest of its line. -/
theorem commentBody_reads (lexer : Lexer) :
    lexer.source.Reads (lexer.source.rest.takeWhile (· != '\n')) lexer.commentBody.source := by
  rw [commentBody, source_push]
  exact Source.advanceBy_prefix List.takeWhile_append_dropWhile.symm

theorem agrees_munch {lexer : Lexer} {munch : Munch} {outcome : Outcome Bool}
    (yields : lexer.Yields munch outcome)
    (visible : ∀ kind chars, munch = .lexeme kind chars → kind ≠ .statementTerminator) :
    lexer.Agrees outcome (Piece.ofMunch lexer.source.position lexer.source.rest munch) := by
  cases yields with
  | unrecognized => exact ⟨_, rfl⟩
  | @lexeme kind chars taken reads tokens =>
    let token : Token := ⟨kind, String.ofList chars, lexer.source.position⟩
    have unseen : ¬token.isTerminator := by
      simpa [Token.isTerminator, token] using visible kind chars rfl
    have behind : lexer.source.rest.drop chars.length = taken.source.rest := by
      rw [reads.rest, List.drop_left]
    have added : taken.tokens = (lexer.push token).tokens := by rw [tokens, tokens_push unseen]
    show lexer.Agrees _ (.ok _)
    rw [behind]
    split
    · rename_i separator
      subst separator
      refine ⟨_, rfl, reads.trans taken.commentBody_reads, ?_⟩
      let line := taken.source.rest.takeWhile (· != '\n')
      let read : Lexer := { taken with source := taken.source.advanceBy line.length }
      have same : read.tokens = (lexer.push token).tokens := added
      rw [commentBody, reads.position]
      exact tokens_push_congr same _
    · exact ⟨taken, rfl, reads, added⟩

/-- A step at a character that is no whitespace. -/
theorem agrees_advance {lexer : Lexer} {c : Char} {tail : List Char}
    (front : lexer.source.rest = c :: tail) (visible : ¬Text.isBlank c) :
    lexer.Agrees lexer.advance (Piece.ofText lexer.source.position lexer.source.rest) := by
  have none_skipped : lexer.source.skipBlanks = (false, lexer.source) := by
    rw [Source.skipBlanks_eq, Source.blanks, front, List.takeWhile_cons_of_neg visible]
    rfl
  have peeked : lexer.source.peek = some c := by
    rw [Source.peek, front]
    rfl
  have peeked' : lexer.source.rest.head? = some c := peeked
  by_cases double : c = '"'
  · subst double
    simp only [advance, none_skipped, peeked, Piece.ofText, peeked', Bool.false_eq_true, if_false]
    exact lexer.agrees_string
  · by_cases single : c = '\''
    · subst single
      simp only [advance, none_skipped, peeked, Piece.ofText, peeked', Bool.false_eq_true, if_false]
      exact lexer.agrees_char
    · have plain : lexer.advance =
          if c = terminatorMark then .ok true (lexer.take 1 .statementTerminator)
          else if isPunctuator c then .ok true (lexer.take 1 .punctuator)
          else Outcome.found lexer.candidate := by
        simp only [advance, none_skipped, peeked, Bool.false_eq_true, if_false]
      have one : lexer.source.rest.take 1 = [c] := by rw [front]; rfl
      simp only [plain, Piece.ofText, peeked']
      by_cases mark : c = terminatorMark
      · rw [if_pos mark, if_pos mark]
        have taken := lexer.agrees_take 1 .statementTerminator
        rw [one, mark] at taken
        exact mark ▸ taken
      · rw [if_neg mark, if_neg mark]
        by_cases punctuator : isPunctuator c
        · rw [if_pos punctuator, if_pos punctuator, ← one]
          exact lexer.agrees_take 1 .punctuator
        · rw [if_neg punctuator, if_neg punctuator]
          have yields := yields_of_candidate lexer
          rw [front, ofScan_eq_ofText (by simp [isMark, visible, punctuator, mark]), ← front]
            at yields
          exact agrees_munch yields fun kind chars eq => Munch.visible_of_ofText eq

/-! ### All steps -/

theorem rest_skipBlanks (source : Source) :
    source.skipBlanks.2.rest = source.rest.dropWhile Text.isBlank := by
  have split : source.blanks ++ source.skipBlanks.2.rest =
      source.blanks ++ source.rest.dropWhile Text.isBlank := by
    rw [← source.skipBlanks_reads.rest, Source.blanks, List.takeWhile_append_dropWhile]
  exact List.append_cancel_left split

/-- Whitespace ends at a character that is none. -/
theorem visible_of_dropWhile {text tail : List Char} {c : Char}
    (h : text.dropWhile Text.isBlank = c :: tail) : ¬Text.isBlank c := by
  have first := List.head?_dropWhile_not Text.isBlank text
  rw [h] at first
  simpa using first

/-- Whitespace without a newline makes no difference to a step. -/
theorem advance_skipBlanks {lexer : Lexer} (plain : '\n' ∉ lexer.source.blanks) :
    lexer.advance = ({ lexer with source := lexer.source.skipBlanks.2 } : Lexer).advance := by
  have none_left : lexer.source.skipBlanks.2.blanks = [] := by
    rw [Source.blanks, rest_skipBlanks]
    cases behind : lexer.source.rest.dropWhile Text.isBlank with
    | nil => rfl
    | cons c tail => exact List.takeWhile_cons_of_neg (visible_of_dropWhile behind)
  have nothing : lexer.source.skipBlanks.2.skipBlanks = (false, lexer.source.skipBlanks.2) := by
    rw [Source.skipBlanks_eq, none_left]
    rfl
  have quiet : lexer.source.skipBlanks.1 = false := by simpa [Source.skipBlanks_eq] using plain
  simp only [advance, nothing, quiet, Bool.false_eq_true, if_false]

/-- A step cuts the next piece, if one is left. -/
theorem advance_cuts (lexer : Lexer) :
    match Piece.next lexer.source.position lexer.source.rest with
    | .ok none => ∃ next, lexer.advance = .ok false next ∧ next.tokens = lexer.tokens
    | .ok (some piece) => lexer.Agrees lexer.advance (.ok piece)
    | .error cause => lexer.Agrees lexer.advance (.error cause) := by
  have reads := lexer.source.skipBlanks_reads
  let skipped : Lexer := { lexer with source := lexer.source.skipBlanks.2 }
  have same : skipped.tokens = lexer.tokens := rfl
  unfold Piece.next
  dsimp only
  by_cases newline : '\n' ∈ lexer.source.rest.takeWhile Text.isBlank
  · have found : lexer.source.skipBlanks.1 := by
      simpa [Source.skipBlanks_eq, Source.blanks] using newline
    rw [if_pos newline]
    refine ⟨_, by simp only [advance, found, if_true]; rfl, ?_, ?_⟩
    · rw [source_push]
      exact reads
    · exact tokens_push_congr same _
  · have step : lexer.advance = skipped.advance := advance_skipBlanks newline
    have behind : skipped.source.rest = lexer.source.rest.dropWhile Text.isBlank :=
      rest_skipBlanks lexer.source
    rw [if_neg newline, step]
    cases left : lexer.source.rest.dropWhile Text.isBlank with
    | nil =>
      rw [left] at behind
      have nothing : skipped.source.skipBlanks = (false, skipped.source) := by
        rw [Source.skipBlanks_eq, Source.blanks, behind]
        rfl
      have empty : skipped.source.peek = none := by rw [Source.peek, behind]; rfl
      rw [if_pos rfl]
      exact ⟨skipped, by simp only [advance, nothing, empty, Bool.false_eq_true, if_false], same⟩
    | cons c tail =>
      have agrees := agrees_advance (behind.trans left) (visible_of_dropWhile left)
      have position : skipped.source.position =
          lexer.source.position.after (lexer.source.rest.takeWhile Text.isBlank) := reads.position
      rw [behind, left, position] at agrees
      rw [if_neg (List.cons_ne_nil c tail)]
      cases found : Piece.ofText
          (lexer.source.position.after (lexer.source.rest.takeWhile Text.isBlank)) (c :: tail) with
      | error cause =>
        rw [found] at agrees
        exact agrees
      | ok piece =>
        rw [found] at agrees
        obtain ⟨next, eq, reads', tokens⟩ := agrees
        exact ⟨next, eq, reads.trans reads', tokens.trans (tokens_pushAll_congr same _)⟩

theorem run_of_found {lexer next : Lexer} (h : lexer.advance = .ok true next) :
    lexer.run = next.run := by
  rw [run]
  split <;> simp_all

theorem run_of_done {lexer next : Lexer} (h : lexer.advance = .ok false next) :
    lexer.run = .ok () next := by
  rw [run]
  split <;> simp_all

theorem run_of_error {lexer next : Lexer} {cause : LexError}
    (h : lexer.advance = .error cause next) : lexer.run = .error cause next := by
  rw [run]
  split <;> simp_all

/-- A run adds the tokens of all pieces. -/
theorem run_cuts (lexer : Lexer) :
    match Piece.cut lexer.source.position lexer.source.rest with
    | .ok ts => ∃ final, lexer.run = .ok () final ∧ final.tokens = (lexer.pushAll ts).tokens
    | .error cause => ∃ final, lexer.run = .error cause final := by
  have step := lexer.advance_cuts
  cases found : Piece.next lexer.source.position lexer.source.rest with
  | error cause =>
    rw [found] at step
    obtain ⟨next, eq⟩ := step
    rw [Piece.cut_error found]
    exact ⟨next, run_of_error eq⟩
  | ok piece? =>
    cases piece? with
    | none =>
      rw [found] at step
      obtain ⟨next, eq, tokens⟩ := step
      rw [Piece.cut_none found]
      exact ⟨next, run_of_done eq, tokens⟩
    | some piece =>
      rw [found] at step
      obtain ⟨next, eq, reads, tokens⟩ := step
      have := remaining_of_advance eq
      have more := run_cuts next
      rw [Piece.cut_some found reads.rest, ← reads.position, run_of_found eq]
      cases behind : Piece.cut next.source.position next.source.rest with
      | error cause =>
        rw [behind] at more
        exact more
      | ok ts =>
        rw [behind] at more
        obtain ⟨final, eq', added⟩ := more
        refine ⟨final, eq', ?_⟩
        rw [added, tokens_pushAll_congr tokens, ← pushAll_append]
termination_by lexer.remaining

/-- Adding tokens merges the terminators among them. -/
theorem tokens_pushAll {lexer : Lexer} (apart : lexer.tokens.toList.IsChain Apart)
    (ts : List Token) :
    (lexer.pushAll ts).tokens.toList = mergeTerminators (lexer.tokens.toList ++ ts) := by
  induction ts generalizing lexer with
  | nil => rw [List.append_nil, mergeTerminators_eq apart]; rfl
  | cons t ts ih =>
    show ((lexer.push t).pushAll ts).tokens.toList = _
    by_cases again : t.isTerminator && lexer.tokens.back?.any Token.isTerminator
    · have same : lexer.push t = lexer := if_pos again
      rw [same, ih apart]
      rw [Bool.and_eq_true, Option.any_eq_true] at again
      obtain ⟨ends, x, last, ends'⟩ := again
      rw [← Array.getLast?_toList] at last
      obtain ⟨before, eq⟩ := List.getLast?_eq_some_iff.mp last
      rw [eq, List.append_assoc, List.append_assoc]
      exact (mergeTerminators_twice before ts ends' ends).symm
    · have added : (lexer.push t).tokens = lexer.tokens.push t := by
        rw [push, if_neg again]
      rw [ih, added, Array.toList_push, List.append_assoc]
      · rfl
      · rw [added, Array.toList_push]
        refine List.isChain_append.mpr ⟨apart, .singleton t, ?_⟩
        rintro x last t' ⟨⟩ ends' ends
        rw [Array.getLast?_toList] at last
        rw [last] at again
        exact again (by simp [ends, ends'])

/-- The tokens of a text are those of its pieces, with terminators merged; what the text is called
makes no difference. -/
theorem run_ofString (name text : String) :
    match Piece.cut .start text.toList with
    | .error cause => ∃ final, (ofSource (.ofString name text)).run = .error cause final
    | .ok ts => ∃ final, (ofSource (.ofString name text)).run = .ok () final ∧
        final.tokens.toList = mergeTerminators ts := by
  have run := (ofSource (.ofString name text)).run_cuts
  have start : Piece.cut (ofSource (.ofString name text)).source.position
      (ofSource (.ofString name text)).source.rest = Piece.cut .start text.toList := rfl
  rw [start] at run
  cases cuts : Piece.cut .start text.toList with
  | error cause =>
    rw [cuts] at run
    exact run
  | ok ts =>
    rw [cuts] at run
    obtain ⟨final, eq, added⟩ := run
    refine ⟨final, eq, ?_⟩
    rw [added, tokens_pushAll .nil]
    rfl

end Lexer

theorem tokenize_eq_cut (text : String) :
    tokenize text = (Piece.cut .start text.toList).map mergeTerminators := by
  have run := Lexer.run_ofString "<input>" text
  unfold tokenize
  cases cuts : Piece.cut .start text.toList with
  | error cause =>
    rw [cuts] at run
    obtain ⟨final, eq⟩ := run
    rw [eq]
    rfl
  | ok ts =>
    rw [cuts] at run
    obtain ⟨final, eq, merged⟩ := run
    rw [eq]
    show Except.ok final.tokens.toList = _
    rw [merged]
    rfl

end RatLang
