import RatLang.Main
import RatLang.Output
import RatLang.World.FileTree
import RatLang.Proofs.Parser.Ladder
import RatLang.Proofs.Parser.Discipline
import RatLang.Proofs.Parser.Incremental
import RatLang.Proofs.Parser.Incremental.Expression
import RatLang.Proofs.Parser.Incremental.Statement
import RatLang.Proofs.Parser.Incremental.Sequence
import RatLang.Proofs.Parser.CorrectPrefix
import RatLang.Proofs.Runs
import RatLang.Proofs.Lexer.Step
import RatLang.Proofs.Lexer.Layout
import RatLang.Proofs.Lexer.Vocabulary
import RatLang.Proofs.Lexer.Munch
import RatLang.Proofs.Lexer.LongestMatch
import RatLang.Proofs.Parser.Grammar
import RatLang.Proofs.Parser.Grammar.Sound
import RatLang.Proofs.Parser.Grammar.Complete
import RatLang.Proofs.Lexer.Pieces
import RatLang.Proofs.Lexer.Context
import RatLang.Proofs.Lexer.Comment
import RatLang.Proofs.Parser.Terminator
import RatLang.Proofs.Comment
import RatLang.Proofs.Symbol.Table
import RatLang.Proofs.Lexer.Emitted
import RatLang.Proofs.Lexer.Progress
import RatLang.Proofs.Parser.Surface
import RatLang.Proofs.Parser.Position
import RatLang.Proofs.Lexer.Spaced
import RatLang.Proofs.Print
import RatLang.Proofs.RoundTrip
import RatLang.Proofs.Parser.WellFormed
import RatLang.Proofs.Parser.Shift
import RatLang.Proofs.Lexer.Seam
import RatLang.Proofs.Parser.SideBySide
import RatLang.Proofs.Composition
import RatLang.Proofs.Source.Lines
import RatLang.Proofs.Source.History
import RatLang.Proofs.Located
import RatLang.Proofs.Lexer.LineEnd
import RatLang.Proofs.LineEnd
import RatLang.Proofs.Lexer.Locality
import RatLang.Proofs.Lexer.Reprint
import RatLang.Proofs.Parser.Grammar.Neighbours
import RatLang.Proofs.Unspaced
import RatLang.Proofs.Lexer.Literal
import RatLang.Proofs.Lexer.Fits
import RatLang.Proofs.Lexer.History
import RatLang.Proofs.Parser.Program
import RatLang.Proofs.Parser.Course
import RatLang.Proofs.Lookup
import RatLang.Proofs.Apart
import RatLang.Proofs.Json
import RatLang.Proofs.Syntax.Shape
import RatLang.Proofs.Dump
import RatLang.Proofs.Parser.Termination
import RatLang.Proofs.Parser.EntryPoints
import RatLang.Proofs.Print.Rendering
import RatLang.Proofs.Cli
import RatLang.Proofs.Source.Reverse
import RatLang.Proofs.Source.Seek
import RatLang.Proofs.Diagnostic
import RatLang.Proofs.Lexer.StringLiteral
import RatLang.Proofs.Lexer.CharLiteral
import RatLang.Proofs.Lexer.Number
import RatLang.Proofs.Symbol.Entries
import RatLang.Proofs.Syntax.Text
import RatLang.Proofs.Settings.Origin
import RatLang.Proofs.Toml.Distinct
import RatLang.Proofs.Settings.Fields
import RatLang.Proofs.Settings.Edit
