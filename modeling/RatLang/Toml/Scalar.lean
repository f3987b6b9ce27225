import RatLang.Toml

/-!
# TOML keys and scalars

Readers for the parts of a document that hold no other values: names, strings, numbers, dates and
times. A reader takes characters from the front of a text and gives what is left of it, or fails.
-/

namespace RatLang.Toml

/-- Takes a value from the front of a text. -/
abbrev Reader (α : Type) := List Char → Option (α × List Char)

namespace Read

/-- Is the character a space or a tab? -/
def isInlineBlank (c : Char) : Bool := c == ' ' || c == '\t'

/-- Is the character printable ASCII or outside of ASCII? -/
def isPlain (c : Char) : Bool := (' ' ≤ c && c ≤ '~') || 0x80 ≤ c.toNat

/-- May the character stand in a comment? -/
def isCommentChar (c : Char) : Bool := c == '\t' || isPlain c

/-- May the character stand in a basic string as itself? -/
def isBasicChar (c : Char) : Bool := c != '"' && c != '\\' && isCommentChar c

/-- May the character stand in a literal string? -/
def isLiteralChar (c : Char) : Bool := c != '\'' && isCommentChar c

/-- May the character stand in a name without quotes? -/
def isBareChar (c : Char) : Bool := c.isAlphanum || c == '_' || c == '-'

/-- The value of a hexadecimal digit. -/
def hexValue? (c : Char) : Option Nat :=
  if c.isDigit then some (c.toNat - 48)
  else if 'a' ≤ c && c ≤ 'f' then some (c.toNat - 87)
  else if 'A' ≤ c && c ≤ 'F' then some (c.toNat - 55)
  else none

/-- The character of a number in hexadecimal digits. -/
def numberedChar? (digits : List Char) : Option Char := do
  let values ← digits.mapM hexValue?
  let n := values.foldl (fun n digit => 16 * n + digit) 0
  if n.isValidChar then some (Char.ofNat n) else none

/-- The character that a short escape stands for. -/
def shortEscape? : Char → Option Char
  | 'b' => some '\x08'
  | 't' => some '\t'
  | 'n' => some '\n'
  | 'f' => some '\x0c'
  | 'r' => some '\r'
  | '"' => some '"'
  | '\\' => some '\\'
  | _ => none

/-- Puts a character in front of what a reader has found. -/
def consChar (c : Char) (found : Option (List Char × List Char)) :
    Option (List Char × List Char) :=
  found.map fun (chars, rest) => (c :: chars, rest)

/-- Reads a basic string after its opening quote. -/
def basicString : Reader (List Char)
  | [] => none
  | '"' :: rest => some ([], rest)
  | '\\' :: 'u' :: a :: b :: c :: d :: rest =>
    (numberedChar? [a, b, c, d]).bind fun x => consChar x (basicString rest)
  | '\\' :: 'U' :: a :: b :: c :: d :: e :: f :: g :: h :: rest =>
    (numberedChar? [a, b, c, d, e, f, g, h]).bind fun x => consChar x (basicString rest)
  | '\\' :: escape :: rest =>
    (shortEscape? escape).bind fun x => consChar x (basicString rest)
  | c :: rest => if isBasicChar c then consChar c (basicString rest) else none

/-- Reads a literal string after its opening quote. -/
def literalString : Reader (List Char)
  | [] => none
  | '\'' :: rest => some ([], rest)
  | c :: rest => if isLiteralChar c then consChar c (literalString rest) else none

/-- Is nothing left of a line but blanks? -/
def atLineEnd (chars : List Char) : Bool :=
  match chars.dropWhile isInlineBlank with
  | '\n' :: _ | '\r' :: '\n' :: _ => true
  | _ => false

/-- Reads a basic string of several lines after its opening quotes. A backslash at the end of a
line drops all blanks and newlines up to the next character; `trimming` says that this is going
on. -/
def basicLines (trimming : Bool) : Reader (List Char)
  | [] => none
  | '\n' :: rest => if trimming then basicLines true rest else consChar '\n' (basicLines false rest)
  | '\r' :: '\n' :: rest =>
    if trimming then basicLines true rest else consChar '\n' (basicLines false rest)
  | '"' :: '"' :: '"' :: '"' :: '"' :: rest => some (['"', '"'], rest)
  | '"' :: '"' :: '"' :: '"' :: rest => some (['"'], rest)
  | '"' :: '"' :: '"' :: rest => some ([], rest)
  | '"' :: rest => consChar '"' (basicLines false rest)
  | '\\' :: 'u' :: a :: b :: c :: d :: rest =>
    (numberedChar? [a, b, c, d]).bind fun x => consChar x (basicLines false rest)
  | '\\' :: 'U' :: a :: b :: c :: d :: e :: f :: g :: h :: rest =>
    (numberedChar? [a, b, c, d, e, f, g, h]).bind fun x => consChar x (basicLines false rest)
  | '\\' :: escape :: rest =>
    match shortEscape? escape with
    | some x => consChar x (basicLines false rest)
    | none => if atLineEnd (escape :: rest) then basicLines true (escape :: rest) else none
  | c :: rest =>
    if trimming && isInlineBlank c then basicLines true rest
    else if isBasicChar c then consChar c (basicLines false rest)
    else none

/-- Reads a literal string of several lines after its opening quotes. -/
def literalLines : Reader (List Char)
  | [] => none
  | '\n' :: rest => consChar '\n' (literalLines rest)
  | '\r' :: '\n' :: rest => consChar '\n' (literalLines rest)
  | '\'' :: '\'' :: '\'' :: '\'' :: '\'' :: rest => some (['\'', '\''], rest)
  | '\'' :: '\'' :: '\'' :: '\'' :: rest => some (['\''], rest)
  | '\'' :: '\'' :: '\'' :: rest => some ([], rest)
  | c :: rest =>
    if c == '\'' || isLiteralChar c then consChar c (literalLines rest) else none

/-- Drops the newline with which a string of several lines may open. -/
def dropNewline : List Char → List Char
  | '\n' :: rest => rest
  | '\r' :: '\n' :: rest => rest
  | chars => chars

/-- Reads a string of any of the four forms. -/
def string? : Reader String
  | '"' :: '"' :: '"' :: rest => (basicLines false (dropNewline rest)).map (·.map String.ofList id)
  | '"' :: rest => (basicString rest).map (·.map String.ofList id)
  | '\'' :: '\'' :: '\'' :: rest => (literalLines (dropNewline rest)).map (·.map String.ofList id)
  | '\'' :: rest => (literalString rest).map (·.map String.ofList id)
  | _ => none

/-- Reads one part of a key. -/
def keyPart : Reader String
  | '"' :: rest => (basicString rest).map (·.map String.ofList id)
  | '\'' :: rest => (literalString rest).map (·.map String.ofList id)
  | chars =>
    let bare := chars.takeWhile isBareChar
    if bare.isEmpty then none else some (String.ofList bare, chars.drop bare.length)

/-- Reads a sign, if there is one. The answer is whether the number is negative. -/
def sign : List Char → Bool × List Char
  | '-' :: rest => (true, rest)
  | '+' :: rest => (false, rest)
  | chars => (false, chars)

/-- Reads digits that may have single underscores between them, after the first one. -/
def moreDigits (isDigit : Char → Bool) : List Char → List Char × List Char
  | '_' :: c :: rest =>
    if isDigit c then
      let (digits, rest) := moreDigits isDigit rest
      (c :: digits, rest)
    else ([], '_' :: c :: rest)
  | c :: rest =>
    if isDigit c then
      let (digits, rest) := moreDigits isDigit rest
      (c :: digits, rest)
    else ([], c :: rest)
  | [] => ([], [])

/-- Reads at least one digit, with single underscores between digits. -/
def digits (isDigit : Char → Bool) : Reader (List Char)
  | c :: rest =>
    if isDigit c then
      let (more, rest) := moreDigits isDigit rest
      some (c :: more, rest)
    else none
  | [] => none

/-- Reads the digits of a decimal integer, which has no needless zero in front. -/
def decimalDigits : Reader (List Char)
  | '0' :: rest => some (['0'], rest)
  | chars => digits Char.isDigit chars

/-- The number that digits stand for. -/
def ofDigits (base : Nat) (digits : List Char) : Nat :=
  digits.foldl (fun n c => base * n + (hexValue? c).getD 0) 0

/-- An integer of 64 bits, if it is one. -/
def integer? (n : Int) : Option Toml :=
  if -Nat.pow 2 63 ≤ n ∧ n < Nat.pow 2 63 then some (.integer n) else none

/-- Reads digits of the given base as an integer. -/
def basedInteger (base : Nat) (isDigit : Char → Bool) : Reader Toml := fun chars => do
  let (found, rest) ← digits isDigit chars
  let value ← integer? (ofDigits base found)
  return (value, rest)

/-- Reads an integer. -/
def integer : Reader Toml
  | '0' :: 'x' :: rest => basedInteger 16 (fun c => (hexValue? c).isSome) rest
  | '0' :: 'o' :: rest => basedInteger 8 (fun c => '0' ≤ c && c ≤ '7') rest
  | '0' :: 'b' :: rest => basedInteger 2 (fun c => c == '0' || c == '1') rest
  | chars => do
    let (negative, unsigned) := sign chars
    let (found, rest) ← decimalDigits unsigned
    let magnitude : Int := ofDigits 10 found
    let value ← integer? (if negative then -magnitude else magnitude)
    return (value, rest)

/-- Reads the exponent of a floating number. -/
def exponent : Reader Int
  | c :: rest =>
    if c == 'e' || c == 'E' then do
      let (negative, unsigned) := sign rest
      let (found, rest) ← digits Char.isDigit unsigned
      let magnitude : Int := ofDigits 10 found
      return (if negative then -magnitude else magnitude, rest)
    else none
  | [] => none

/-- Is `m * 10 ^ e` so large that no double is near it? The bound lies halfway between the largest
double and the next power of two. -/
def overflows (m : Nat) (e : Int) : Bool :=
  let size : Int := (Nat.toDigits 10 m).length + e
  if m = 0 ∨ size < 300 then false
  else if 310 < size then true
  else
    let bound := Nat.pow 2 1024 - Nat.pow 2 970
    if 0 ≤ e then bound ≤ m * Nat.pow 10 e.toNat else bound * Nat.pow 10 (-e).toNat ≤ m

/-- Reads a floating number in digits: with a fraction, with an exponent or with both. -/
def decimalFloat : Reader Toml := fun chars => do
  let (negative, unsigned) := sign chars
  let (whole, rest) ← decimalDigits unsigned
  let (fraction, scale, rest) ←
    match rest with
    | '.' :: rest => do
      let (fraction, rest) ← digits Char.isDigit rest
      match exponent rest with
      | some (scale, rest) => some (fraction, scale, rest)
      | none => some (fraction, 0, rest)
    | rest => (exponent rest).map fun (scale, rest) => ([], scale, rest)
  if !negative && overflows (ofDigits 10 (whole ++ fraction)) (scale - fraction.length) then none
  else return (.float, rest)

/-- Reads infinity or a number that is none. -/
def specialFloat : Reader Toml := fun chars =>
  match (sign chars).2 with
  | 'i' :: 'n' :: 'f' :: rest => some (.float, rest)
  | 'n' :: 'a' :: 'n' :: rest => some (.float, rest)
  | _ => none

/-- Reads exactly `n` digits as a number. -/
def fixedDigits (n : Nat) : Reader Nat := fun chars =>
  let found := chars.take n
  if found.length = n ∧ found.all Char.isDigit then some (ofDigits 10 found, chars.drop n)
  else none

/-- Reads one given character. -/
def exactly (c : Char) : Reader Unit
  | x :: rest => if x = c then some ((), rest) else none
  | [] => none

/-- The number of days in a month. -/
def daysInMonth (year month : Nat) : Nat :=
  if month = 2 then
    if year % 4 = 0 ∧ (year % 100 ≠ 0 ∨ year % 400 = 0) then 29 else 28
  else if month = 4 ∨ month = 6 ∨ month = 9 ∨ month = 11 then 30
  else 31

/-- Reads a date of the calendar. -/
def date : Reader Unit := fun chars => do
  let (year, rest) ← fixedDigits 4 chars
  let (_, rest) ← exactly '-' rest
  let (month, rest) ← fixedDigits 2 rest
  let (_, rest) ← exactly '-' rest
  let (day, rest) ← fixedDigits 2 rest
  if 1 ≤ month ∧ month ≤ 12 ∧ 1 ≤ day ∧ day ≤ daysInMonth year month then some ((), rest)
  else none

/-- Drops the fraction of a second, if there is one. -/
def dropFraction : List Char → List Char
  | '.' :: c :: rest => if c.isDigit then rest.dropWhile Char.isDigit else '.' :: c :: rest
  | chars => chars

/-- Reads a time of the day, a leap second included. -/
def time : Reader Unit := fun chars => do
  let (hour, rest) ← fixedDigits 2 chars
  let (_, rest) ← exactly ':' rest
  let (minute, rest) ← fixedDigits 2 rest
  let (_, rest) ← exactly ':' rest
  let (second, rest) ← fixedDigits 2 rest
  if hour ≤ 23 ∧ minute ≤ 59 ∧ second ≤ 60 then some ((), dropFraction rest) else none

/-- Reads the offset from universal time. -/
def offset : Reader Unit
  | [] => none
  | c :: rest =>
    if c == 'Z' || c == 'z' then some ((), rest)
    else if c == '+' || c == '-' then do
      let (hour, rest) ← fixedDigits 2 rest
      let (_, rest) ← exactly ':' rest
      let (minute, rest) ← fixedDigits 2 rest
      if hour ≤ 23 ∧ minute ≤ 59 then some ((), rest) else none
    else none

/-- Drops what a reader finds, if it finds something. -/
def dropOptional (reader : Reader Unit) (chars : List Char) : List Char :=
  match reader chars with
  | some (_, rest) => rest
  | none => chars

/-- Reads the time that may follow a date. -/
def timeAfterDate : Reader Unit
  | [] => none
  | c :: rest =>
    if c == 'T' || c == 't' || c == ' ' then
      (time rest).map fun (_, rest) => ((), dropOptional offset rest)
    else none

/-- Reads a date, a time, or both. -/
def datetime : Reader Toml := fun chars =>
  match date chars with
  | some (_, rest) => some (.datetime, dropOptional timeAfterDate rest)
  | none => (time chars).map fun (_, rest) => (.datetime, rest)

/-- Reads a number, a date or a time. -/
def numberOrDate : Reader Toml := fun chars =>
  datetime chars <|> decimalFloat chars <|> specialFloat chars <|> integer chars

/-- Reads a word that stands for a value. -/
def word : Reader Toml
  | 't' :: 'r' :: 'u' :: 'e' :: rest => some (.boolean true, rest)
  | 'f' :: 'a' :: 'l' :: 's' :: 'e' :: rest => some (.boolean false, rest)
  | chars => specialFloat chars

/-- Reads a value that holds no other value. -/
def scalar : Reader Toml := fun chars =>
  (string? chars).map (·.map Toml.string id) <|> numberOrDate chars <|> word chars

end Read

end RatLang.Toml
