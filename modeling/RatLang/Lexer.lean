import RatLang.Lexer.Scan
import RatLang.Source
import RatLang.Text.Quoted

/-!
# From text to tokens

A lexer holds a source and the tokens found so far. `Lexer.advance` finds the next token, and
`Lexer.run` repeats it until the text is used up. Whitespace that holds a newline becomes the
terminator of a statement, and terminators never follow each other. What was read before an error
stays read, and the tokens found before it stay.
-/

namespace RatLang

/-- Why no token can be found. -/
inductive LexError where
  | ambiguousToken (lexeme : String) (position : Position)
  | unrecognizedToken (lexeme : String) (position : Position)
  | unterminatedString (position : Position)
  | invalidStringChar (c : Char) (position : Position)
  | unterminatedChar (position : Position)
  | invalidCharLiteral (lexeme : String) (position : Position)
  | seek (cause : SeekError)
deriving DecidableEq, Repr

namespace LexError

/-- The wording of the error. -/
def message : LexError → String
  | ambiguousToken lexeme position =>
    "ambiguous token '" ++ lexeme ++ "' at " ++ position.text ++
      ": both a numeric literal and an identifier"
  | unrecognizedToken lexeme position =>
    "unrecognized token '" ++ lexeme ++ "' at " ++ position.text
  | unterminatedString position =>
    "unterminated string literal starting at " ++ position.text
  | invalidStringChar c position =>
    "invalid character " ++ Text.quotedChar c ++ " in string literal at " ++ position.text
  | unterminatedChar position =>
    "unterminated char literal starting at " ++ position.text
  | invalidCharLiteral lexeme position =>
    "invalid char literal " ++ lexeme ++ " at " ++ position.text
  | seek cause => cause.message

/-- The place the error points at. -/
def position? : LexError → Option Position
  | ambiguousToken _ position | unrecognizedToken _ position | unterminatedString position
  | invalidStringChar _ position | unterminatedChar position | invalidCharLiteral _ position =>
    some position
  | seek cause => cause.position?

end LexError

/-- A source and the tokens that were found in it. -/
structure Lexer where
  source : Source
  tokens : Array Token
deriving DecidableEq, Repr

namespace Lexer

/-- The outcome of a step. The lexer after it is there also when it fails. -/
abbrev Outcome (α : Type) := EStateM.Result LexError Lexer α

/-- A lexer before the first token. -/
def ofSource (source : Source) : Lexer := ⟨source, #[]⟩

/-- Adds a token. A terminator that would follow another terminator is dropped, so blank lines
make no empty statements. -/
def push (lexer : Lexer) (token : Token) : Lexer :=
  if token.isTerminator && lexer.tokens.back?.any Token.isTerminator then lexer
  else { lexer with tokens := lexer.tokens.push token }

/-- Reads `n` characters and adds them as a token of the given kind. -/
def take (lexer : Lexer) (n : Nat) (kind : TokenKind) : Lexer :=
  let lexeme := String.ofList (lexer.source.rest.take n)
  { lexer with source := lexer.source.advanceBy n }.push ⟨kind, lexeme, lexer.source.position⟩

/-- Reads a string literal. Whatever comes next is taken for its opening quote. -/
def string (lexer : Lexer) : Outcome Unit :=
  let source := lexer.source
  let scan := scanString source.rest.tail
  let reached := { lexer with source := source.advanceBy (scan.reads + 1) }
  match scan.ending with
  | .closed => .ok () (lexer.take (scan.reads + 1) .stringLiteral)
  | .unterminated => .error (.unterminatedString source.position) reached
  | .invalid c => .error (.invalidStringChar c (source.advanceBy scan.reads).position) reached

/-- Reads a char literal. Whatever comes next is taken for its opening quote, and the form of the
literal is checked when its end is known. -/
def char (lexer : Lexer) : Outcome Unit :=
  let source := lexer.source
  let scan := scanChar source.rest.tail
  let lexeme := String.ofList (source.rest.take (scan.reads + 1))
  let reached := { lexer with source := source.advanceBy (scan.reads + 1) }
  match scan.ending with
  | .unterminated => .error (.unterminatedChar source.position) reached
  | .control => .error (.invalidCharLiteral lexeme source.position) reached
  | .closed =>
    if isCharLiteral lexeme then .ok () (lexer.take (scan.reads + 1) .charLiteral)
    else .error (.invalidCharLiteral lexeme source.position) reached

/-- Reads the rest of a line as the body of a comment. A carriage return at its end is read but
does not belong to the body. -/
def commentBody (lexer : Lexer) : Lexer :=
  let line := lexer.source.rest.takeWhile (· != '\n')
  let body := String.ofList (Source.dropCarriageReturn line)
  { lexer with source := lexer.source.advanceBy line.length }.push
    ⟨.commentBody, body, lexer.source.position⟩

/-- The kind of a lexeme that is not fixed. -/
def classify (lexeme : String) (position : Position) : Except LexError TokenKind :=
  match isNumeric lexeme, isName lexeme with
  | true, true => .error (.ambiguousToken lexeme position)
  | true, false => .ok .numericLiteral
  | false, true => .ok .identifier
  | false, false => .error (.unrecognizedToken lexeme position)

/-- Adds a finished candidate whose characters have been read, if it is a name or a number. -/
def finish (lexer : Lexer) (lexeme : String) (position : Position) : Outcome Unit :=
  match classify lexeme position with
  | .ok kind => .ok () (lexer.push ⟨kind, lexeme, position⟩)
  | .error cause => .error cause lexer

/-- Reads the longest candidate and adds it. The character that shows where a name or a number
ends has been read by then and is un-read. -/
def candidate (lexer : Lexer) : Outcome Unit :=
  let source := lexer.source
  let scan := scanCandidate "" false source.rest
  let lexeme := String.ofList (source.rest.take scan.reads)
  let beyond := source.advanceBy (scan.reads + 1)
  match scan.ending with
  | .fixed kind =>
    let taken := lexer.take scan.reads kind
    .ok () (if kind = .commentSeparator then taken.commentBody else taken)
  | .exhausted => { lexer with source := beyond }.finish lexeme source.position
  | .boundary =>
    match beyond.reverse with
    | .ok reached => { lexer with source := reached }.finish lexeme source.position
    | .error cause => .error (.seek cause) { lexer with source := beyond }

/-- The outcome of a step that has found something. -/
def Outcome.found : Outcome Unit → Outcome Bool
  | .ok _ lexer => .ok true lexer
  | .error cause lexer => .error cause lexer

/-- Finds the next token. The answer is `false` when the text is used up. -/
def advance (lexer : Lexer) : Outcome Bool :=
  let source := lexer.source.skipBlanks.2
  let skipped := { lexer with source := source }
  if lexer.source.skipBlanks.1 then
    .ok true (skipped.push
      ⟨.statementTerminator, String.singleton terminatorMark, lexer.source.position⟩)
  else
    match source.peek with
    | none => .ok false skipped
    | some '"' => Outcome.found skipped.string
    | some '\'' => Outcome.found skipped.char
    | some c =>
      if c = terminatorMark then .ok true (skipped.take 1 .statementTerminator)
      else if isPunctuator c then .ok true (skipped.take 1 .punctuator)
      else Outcome.found skipped.candidate

@[simp] theorem source_push (lexer : Lexer) (token : Token) :
    (lexer.push token).source = lexer.source := by
  unfold push
  split <;> rfl

@[simp] theorem source_take (lexer : Lexer) (n : Nat) (kind : TokenKind) :
    (lexer.take n kind).source = lexer.source.advanceBy n := by
  simp [take]

/-- The number of characters that a lexer has still to read. -/
def remaining (lexer : Lexer) : Nat := lexer.source.rest.length

@[simp] theorem remaining_push (lexer : Lexer) (token : Token) :
    (lexer.push token).remaining = lexer.remaining := by
  simp [remaining]

@[simp] theorem remaining_take (lexer : Lexer) (n : Nat) (kind : TokenKind) :
    (lexer.take n kind).remaining = lexer.remaining - n := by
  simp [remaining, Source.length_rest_advanceBy]

theorem remaining_commentBody (lexer : Lexer) :
    lexer.commentBody.remaining ≤ lexer.remaining := by
  simp [commentBody, remaining, Source.length_rest_advanceBy]

theorem remaining_of_string {lexer next : Lexer} (h : lexer.string = .ok () next) :
    ∃ reads, next.remaining = lexer.remaining - (reads + 1) := by
  simp only [string] at h
  split at h <;> cases h
  exact ⟨_, remaining_take ..⟩

theorem remaining_of_char {lexer next : Lexer} (h : lexer.char = .ok () next) :
    ∃ reads, next.remaining = lexer.remaining - (reads + 1) := by
  simp only [char] at h
  split at h
  · cases h
  · cases h
  · split at h <;> cases h
    exact ⟨_, remaining_take ..⟩

theorem remaining_of_finish {lexer next : Lexer} {lexeme : String} {position : Position}
    (h : lexer.finish lexeme position = .ok () next) : next.remaining = lexer.remaining := by
  simp only [finish] at h
  split at h <;> cases h
  exact remaining_push ..

theorem remaining_of_candidate {lexer next : Lexer} (some_left : 0 < lexer.remaining)
    (h : lexer.candidate = .ok () next) : next.remaining < lexer.remaining := by
  have joined : 0 < (scanCandidate "" false lexer.source.rest).reads := by
    unfold remaining at some_left
    cases eq : lexer.source.rest with
    | nil => simp [eq] at some_left
    | cons c rest => exact scanCandidate_reads_pos c rest
  simp only [candidate] at h
  split at h
  · rename_i kind fixed
    cases h
    have taken : (lexer.take (scanCandidate "" false lexer.source.rest).reads kind).remaining <
        lexer.remaining := by
      rw [remaining_take]
      omega
    split
    · exact Nat.lt_of_le_of_lt (remaining_commentBody _) taken
    · exact taken
  · have := remaining_of_finish h
    simp only [remaining, Source.length_rest_advanceBy] at *
    omega
  · rename_i boundary
    have inner := scanCandidate_reads_lt _ _ _ boundary
    rw [Source.reverse_advanceBy inner] at h
    have := remaining_of_finish h
    simp only [remaining, Source.length_rest_advanceBy] at *
    omega

/-- Whitespace that holds a newline is not empty. -/
theorem blanks_pos_of_newline {source : Source} (h : source.skipBlanks.1) :
    0 < source.blanks.length ∧ source.blanks.length ≤ source.rest.length := by
  refine ⟨?_, (List.takeWhile_prefix _).length_le⟩
  cases eq : source.blanks with
  | nil => simp [Source.skipBlanks_eq, eq] at h
  | cons c rest => simp

theorem ok_of_found {outcome : Outcome Unit} {next : Lexer} (h : outcome.found = .ok true next) :
    outcome = .ok () next := by
  unfold Outcome.found at h
  split at h <;> simp_all

/-- A step that finds something uses up at least one character. -/
theorem remaining_of_advance {lexer next : Lexer} (h : lexer.advance = .ok true next) :
    next.remaining < lexer.remaining := by
  have skipped : lexer.source.skipBlanks.2.rest.length =
      lexer.source.rest.length - lexer.source.blanks.length := by
    simp [Source.skipBlanks_eq, Source.length_rest_advanceBy]
  have left {c : Char} (peeked : lexer.source.skipBlanks.2.peek = some c) :
      0 < lexer.source.skipBlanks.2.rest.length := by
    rw [Source.peek, List.head?_eq_some_iff] at peeked
    obtain ⟨rest, eq⟩ := peeked
    simp [eq]
  simp only [advance] at h
  split at h
  · rename_i newline
    have := blanks_pos_of_newline newline
    cases h
    rw [remaining_push]
    simp only [remaining]
    omega
  · split at h
    · cases h
    · rename_i peeked
      have := left peeked
      obtain ⟨reads, eq⟩ := remaining_of_string (ok_of_found h)
      simp only [remaining] at *
      omega
    · rename_i peeked
      have := left peeked
      obtain ⟨reads, eq⟩ := remaining_of_char (ok_of_found h)
      simp only [remaining] at *
      omega
    · rename_i peeked
      have := left peeked
      split at h
      · cases h
        rw [remaining_take]
        simp only [remaining]
        omega
      · split at h
        · cases h
          rw [remaining_take]
          simp only [remaining]
          omega
        · have := remaining_of_candidate (by simpa only [remaining] using this) (ok_of_found h)
          simp only [remaining] at *
          omega

/-- Finds tokens until the text is used up. -/
def run (lexer : Lexer) : Outcome Unit :=
  match h : lexer.advance with
  | .ok true next =>
    have := remaining_of_advance h
    next.run
  | .ok false next => .ok () next
  | .error cause next => .error cause next
termination_by lexer.remaining

end Lexer

/-- The tokens of a text, or the first error. -/
def tokenize (text : String) : Except LexError (List Token) :=
  match (Lexer.ofSource (.ofString "<input>" text)).run with
  | .ok () lexer => .ok lexer.tokens.toList
  | .error cause _ => .error cause

example : (tokenize "a <<= 1.5f").toOption.map (·.map Token.text) =
    some ["IDENTIFIER 'a' @ 1:1", "OPERATOR '<<' @ 1:3", "OPERATOR '=' @ 1:5",
      "NUMERIC_LITERAL '1.5f' @ 1:7"] := by
  decide +kernel

end RatLang
