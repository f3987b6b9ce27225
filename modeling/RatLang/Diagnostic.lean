import RatLang.Compile
import RatLang.Json
import RatLang.Syntax.Shape

/-!
# Reports

A diagnostic says what is wrong and where. It is shown to readers as a few lines of text, with the
line of the source that it points at, or written as a JSON object.
-/

namespace RatLang

/-- How grave a report is. -/
inductive Severity where
  | error | warning
deriving DecidableEq, Repr

/-- The name of a severity. -/
def Severity.text : Severity → String
  | error => "error"
  | warning => "warning"

/-- A report: what is wrong, and where. -/
structure Diagnostic where
  severity : Severity
  message : String
  position : Option Position
deriving DecidableEq, Repr

/-- The report of an error, which names the stage that has found it. -/
def CompileError.diagnostic (error : CompileError) : Diagnostic :=
  ⟨.error, error.stage ++ " error: " ++ error.message, error.position?⟩

/-- How reports are shown to readers. -/
structure ReportStyle where
  /-- Color the severity and the indicator. -/
  colors : Bool := true
  /-- Quote the line that the report points at. -/
  showSource : Bool := true
  /-- The character below the place that the report points at. -/
  indicator : Char := '^'
deriving DecidableEq, Repr

namespace ReportStyle

/-- The number of the color of a severity. -/
def colorCode : Severity → String
  | .error => "31"
  | .warning => "33"

/-- A text in bold and in the color of a severity, if colors are wanted. -/
def paint (style : ReportStyle) (severity : Severity) (text : String) : String :=
  if style.colors then
    "\x1b[1m\x1b[" ++ colorCode severity ++ "m" ++ text ++ "\x1b[39m\x1b[0m"
  else text

end ReportStyle

namespace Diagnostic

/-- The first line of a report. -/
def header (diagnostic : Diagnostic) (style : ReportStyle) : String :=
  style.paint diagnostic.severity diagnostic.severity.text ++ ": " ++ diagnostic.message ++ "\n"

/-- As many blanks as there are digits in a line number. -/
def gutter (line : Nat) : String :=
  String.ofList (List.replicate (toString line).length ' ')

/-- What stands in front of the indicator: a blank for each character before the column, and a tab
for each tab, so that the indicator stands below the character of the column. -/
def indentation (line : String) (column : Nat) : String :=
  String.ofList ((line.toList.take (column - 1)).map fun c => if c = '\t' then '\t' else ' ')

/-- A line of the source and the source behind it. -/
def quotedLine (source : Source) (line : Nat) : Except SeekError (String × Source) :=
  match source.seekLine line with
  | .ok reached => .ok reached.readLine
  | .error cause => .error cause

/-- The quoted line with its number, between a line of blanks and the line of the indicator. -/
def snippet (diagnostic : Diagnostic) (style : ReportStyle) (position : Position)
    (line : String) : String :=
  let margin := gutter position.line
  let marker := style.paint diagnostic.severity (String.singleton style.indicator)
  margin ++ " |\n" ++
    toString position.line ++ " | " ++ line ++ "\n" ++
    margin ++ " | " ++ indentation line position.column ++ marker ++ "\n"

/-- The text of a report, and the source after the quoted line. A position outside of the source is
shown without a line. -/
def render (diagnostic : Diagnostic) (style : ReportStyle) (source : Source) : String × Source :=
  let header := diagnostic.header style
  match diagnostic.position with
  | none => (header, source)
  | some position =>
    let located :=
      header ++ gutter position.line ++ "--> " ++ source.name ++ ":" ++ position.text ++ "\n"
    if style.showSource then
      match quotedLine source position.line with
      | .ok (line, reached) => (located ++ diagnostic.snippet style position line, reached)
      | .error _ => (located, source)
    else (located, source)

/-- Why a report that is to quote its line cannot do so. -/
def missingLine? (diagnostic : Diagnostic) (style : ReportStyle) (source : Source) :
    Option SeekError :=
  match diagnostic.position with
  | none => none
  | some position =>
    if style.showSource then
      match quotedLine source position.line with
      | .ok _ => none
      | .error cause => some cause
    else none

/-- The report as a JSON object, with the name of the file that it is about. -/
def toJson (diagnostic : Diagnostic) (file : String) : Json :=
  .object
    [("severity", .string diagnostic.severity.text), ("message", .string diagnostic.message),
     ("file", .string file), ("line", .ofNat? (diagnostic.position.map Position.line)),
     ("column", .ofNat? (diagnostic.position.map Position.column))]

/-- The outline of a report. -/
def shape (diagnostic : Diagnostic) : Shape :=
  .record "Diagnostic"
    [("severity", .bare diagnostic.severity.text), ("message", .text diagnostic.message),
     ("position", .ofOption Position.shape diagnostic.position)]

end Diagnostic

end RatLang
