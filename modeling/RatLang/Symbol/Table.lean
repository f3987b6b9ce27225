import RatLang.OrderedMap
import RatLang.Symbol

/-!
# The table of spellings

A symbol table has two maps, from lexemes to symbols and back. Both are filled from one list of
pairs, and the first pair that would give a lexeme two symbols or a symbol two lexemes is refused,
so each lookup undoes the other. The table of the language is `SymbolTable.standard`.
-/

namespace RatLang

/-- Why a pair cannot enter a table. -/
inductive TableError where
  | duplicateLexeme (lexeme : String)
  | duplicateSymbol (symbol : Symbol)
deriving DecidableEq, Repr

/-- The wording of a refusal. -/
def TableError.message : TableError → String
  | .duplicateLexeme lexeme => "lexeme '" ++ lexeme ++ "' is mapped twice"
  | .duplicateSymbol symbol => "symbol " ++ symbol.name ++ " is mapped twice"

/-- The symbol of each lexeme and the lexeme of each symbol. -/
@[ext]
structure SymbolTable where
  forward : OrderedMap String Symbol
  reverse : OrderedMap Symbol String

namespace SymbolTable

/-- The table without entries. -/
def empty : SymbolTable := ⟨.empty, .empty⟩

/-- The pairs of a lexeme and its symbol, in the order in which they were given. -/
def entries (table : SymbolTable) : List (String × Symbol) := table.forward.entries

/-- The number of entries. -/
def size (table : SymbolTable) : Nat := table.forward.size

/-- Is there no entry? -/
def isEmpty (table : SymbolTable) : Bool := table.forward.isEmpty

/-- The symbol that a lexeme spells. -/
def symbol? (table : SymbolTable) (lexeme : String) : Option Symbol := table.forward.get? lexeme

/-- The lexeme that spells a symbol. -/
def lexeme? (table : SymbolTable) (symbol : Symbol) : Option String := table.reverse.get? symbol

/-- Enters a pair in both directions. That its lexeme or its symbol is taken shows only when it
replaces something, and the lexeme is entered first. -/
def insert (table : SymbolTable) (lexeme : String) (symbol : Symbol) :
    Except TableError SymbolTable :=
  match table.forward.insert lexeme symbol with
  | (some _, _) => .error (.duplicateLexeme lexeme)
  | (none, forward) =>
    match table.reverse.insert symbol lexeme with
    | (some _, _) => .error (.duplicateSymbol symbol)
    | (none, reverse) => .ok ⟨forward, reverse⟩

/-- Enters pairs from the left, up to the first one that is refused. -/
def insertAll : SymbolTable → List (String × Symbol) → Except TableError SymbolTable
  | table, [] => .ok table
  | table, (lexeme, symbol) :: rest =>
    match table.insert lexeme symbol with
    | .ok larger => larger.insertAll rest
    | .error cause => .error cause

/-- The table of the given pairs, or the first clash among them. -/
def ofEntries (entries : List (String × Symbol)) : Except TableError SymbolTable :=
  empty.insertAll entries

end SymbolTable

/-- The spellings of the language. -/
def spellings : List (String × Symbol) :=
  [("int", .typeInt), ("float", .typeFloat), ("double", .typeDouble), ("bool", .typeBool),
   ("char", .typeChar), ("long", .typeLong), ("short", .typeShort), ("pointer", .typePointer),
   ("uint", .typeUint), ("ulong", .typeUlong), ("ushort", .typeUshort), ("uchar", .typeUchar),
   ("string", .typeString), ("void", .typeVoid),
   ("let", .variableDeclarationLet), ("op", .variableDeclarationOp),
   ("fn", .functionDeclarationF), ("fn_", .functionDeclarationFVoid),
   ("fn?", .functionDeclarationFOptional), ("fn/", .functionDeclarationFLambda),
   ("ret", .functionReturn), ("rev", .functionReturnVoid),
   ("if", .conditionalIf), ("else", .conditionalElse), ("else if", .conditionalElseIf),
   ("match", .patternMatch), ("null", .nullLiteral),
   (":", .colon), ("'", .singleQuote), ("\"", .doubleQuote), (",", .comma),
   ("[", .bracketOpen), ("]", .bracketClose), ("\x7b", .braceOpen), ("\x7d", .braceClose),
   ("(", .parenthesesOpen), (")", .parenthesesClose),
   ("//", .commentLine), ("/*", .commentBlockOpen), ("*/", .commentBlockClose), (";", .newline),
   ("=", .assignment),
   ("+", .arithmeticAdd), ("-", .arithmeticSub), ("*", .arithmeticMul), ("/", .arithmeticDiv),
   ("%", .arithmeticMod),
   ("==", .comparisonEq), ("!=", .comparisonNeq), ("<", .comparisonLt), (">", .comparisonGt),
   ("<=", .comparisonLte), (">=", .comparisonGte),
   ("&&", .logicalAnd), ("||", .logicalOr), ("!", .logicalNot),
   ("&", .bitwiseAnd), ("|", .bitwiseOr), ("^", .bitwiseXor), ("~", .bitwiseNeg),
   ("<<", .bitwiseSl), (">>", .bitwiseSr),
   ("->", .arrow), ("=>", .fatArrow)]

/-- The table of the language, which holds its spellings in both directions. -/
def SymbolTable.standard : SymbolTable where
  forward := ⟨spellings, by decide +kernel⟩
  reverse := ⟨spellings.map Prod.swap, by decide +kernel⟩

namespace Symbol

/-- The symbol that a lexeme spells in the language. -/
def ofLexeme? (lexeme : String) : Option Symbol := SymbolTable.standard.symbol? lexeme

/-- The spelling of a symbol in the language; `variableId` and `functionId` have none. -/
def lexeme? (s : Symbol) : Option String := SymbolTable.standard.lexeme? s

/-- The way a symbol is shown: its spelling, or its name when it has none. -/
def text (s : Symbol) : String := s.lexeme?.getD s.name

end Symbol

end RatLang
