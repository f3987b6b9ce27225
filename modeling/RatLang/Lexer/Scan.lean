import RatLang.Literal
import RatLang.Token

/-!
# Scanning one lexeme

The scans look at the characters that remain and say how many of them to read and why to stop
there. They know neither positions nor tokens. A scan of a literal counts its reads, so it counts
one more than there are characters when it ends because no character is left.
-/

namespace RatLang

/-- What a scan has found: the number of characters to read, and why it stopped. -/
structure Scan (Ending : Type) where
  reads : Nat
  ending : Ending
deriving DecidableEq, Repr

/-- The scan of a text that begins with `n` more characters. -/
def Scan.after {Ending : Type} (n : Nat) (scan : Scan Ending) : Scan Ending :=
  ⟨scan.reads + n, scan.ending⟩

/-- Why the scan of a string literal stops. -/
inductive StringEnd where
  | closed
  | unterminated
  | invalid (c : Char)
deriving DecidableEq, Repr

/-- Scans the characters after the opening quote of a string literal. A backslash takes the
character after it along, so a quote behind it does not close the literal. -/
def scanString : List Char → Scan StringEnd
  | [] => ⟨1, .unterminated⟩
  | '"' :: _ => ⟨1, .closed⟩
  | '\n' :: _ => ⟨1, .unterminated⟩
  | ['\\'] => ⟨2, .unterminated⟩
  | '\\' :: c :: rest =>
    if c = '\n' then ⟨2, .unterminated⟩
    else if isStringChar c then (scanString rest).after 2
    else ⟨2, .invalid c⟩
  | c :: rest =>
    if isStringChar c then (scanString rest).after 1 else ⟨1, .invalid c⟩

/-- Why the scan of a char literal stops. -/
inductive CharEnd where
  | closed
  | unterminated
  | control
deriving DecidableEq, Repr

/-- Scans the characters after the opening quote of a char literal. The scan stops at the first
quote and takes a second quote right behind it along; what lies between is not looked at. -/
def scanChar : List Char → Scan CharEnd
  | [] => ⟨1, .unterminated⟩
  | '\'' :: '\'' :: _ => ⟨2, .closed⟩
  | '\'' :: _ => ⟨1, .closed⟩
  | c :: rest =>
    if isCharLiteralChar c then (scanChar rest).after 1 else ⟨1, .control⟩

/-- The kind of a fixed lexeme. -/
def fixedKind? (lexeme : String) : Option TokenKind :=
  if isKeyword lexeme then some .keyword
  else if isTypeName lexeme then some .type
  else if isCommentMark lexeme then some .commentSeparator
  else if isOperator lexeme then some .operator
  else none

/-- Does the character end the candidate instead of joining it? A candidate that begins like a
name goes on with the characters of names and with points; any other goes on until a character of
names comes. -/
def isBoundary (candidate : String) (c : Char) : Bool :=
  if Text.isBlank c || isPunctuator c || c == terminatorMark then true
  else if candidate.toList.head?.any isNameChar then !(isNameChar c || c == '.')
  else isNameChar c

/-- Why the scan of a candidate stops. -/
inductive CandidateEnd where
  /-- The candidate is a fixed lexeme and cannot grow into a longer one. -/
  | fixed (kind : TokenKind)
  /-- The next character belongs to another lexeme. -/
  | boundary
  /-- No character is left. -/
  | exhausted
deriving DecidableEq, Repr

/-- Is the candidate still a fixed lexeme with the next character added? -/
def growsInto (candidate : String) (next : Option Char) : Bool :=
  next.any fun c => isFixedLexeme (candidate.push c)

/-- Is the next character one that joins a keyword or a type into a longer word? -/
def wordGoesOn (kind : TokenKind) (next : Option Char) : Bool :=
  (kind == .keyword || kind == .type) && next.any isNameChar

/-- Lets a candidate grow, one character at a time, and gives the number of characters that join
it. `extending` says that the next character is known to make a longer fixed lexeme and is
therefore no boundary. -/
def scanCandidate (candidate : String) (extending : Bool) : List Char → Scan CandidateEnd
  | [] => ⟨0, .exhausted⟩
  | c :: rest =>
    if candidate ≠ "" ∧ extending = false ∧ isBoundary candidate c then ⟨0, .boundary⟩
    else
      match fixedKind? (candidate.push c) with
      | none => (scanCandidate (candidate.push c) false rest).after 1
      | some kind =>
        if growsInto (candidate.push c) rest.head? then
          (scanCandidate (candidate.push c) true rest).after 1
        else if wordGoesOn kind rest.head? then
          (scanCandidate (candidate.push c) false rest).after 1
        else ⟨1, .fixed kind⟩

/-- The first character always joins. -/
theorem scanCandidate_reads_pos (c : Char) (rest : List Char) :
    0 < (scanCandidate "" false (c :: rest)).reads := by
  simp only [scanCandidate, ne_eq, not_true_eq_false, false_and, if_false]
  split
  · simp [Scan.after]
  · split
    · simp [Scan.after]
    · split <;> simp [Scan.after]

/-- A boundary is a character of the text. -/
theorem scanCandidate_reads_lt (candidate : String) (extending : Bool) (chars : List Char)
    (h : (scanCandidate candidate extending chars).ending = .boundary) :
    (scanCandidate candidate extending chars).reads < chars.length := by
  fun_induction scanCandidate candidate extending chars <;> simp_all [Scan.after]

end RatLang
