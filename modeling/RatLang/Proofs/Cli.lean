import Mathlib
import RatLang.Cli
import RatLang.Proofs.Comment
import RatLang.Proofs.Json
import RatLang.Proofs.Syntax.Shape

/-!
# Runs in JSON

A run that prints JSON prints one document, whatever is in the files and whichever command it was
given: what the command answers, or the report of the error that has ended it. The commands agree
with each other about a file.
-/

namespace RatLang

namespace Compile

/-! ### What computations come to -/

/-- The last step of a computation leaves the log alone. -/
theorem result_bind_pure {α β : Type} (x : Compile α) (f : α → β) :
    (x >>= fun a => pure (f a)).result = x.result.map f := by
  rw [result, outcome, bind_run, result, outcome]
  cases (x.run.run []).1 <;> rfl

/-- Tokens are parsed in the same way whatever the log says so far. -/
theorem result_bind_program {β : Type} (x : Compile (List Token))
    (f : List Token → List Stmt → β) :
    (x >>= fun tokens => program tokens >>= fun p => pure (f tokens p)).result =
      x.result.bind fun tokens => ((parse tokens).mapError .parsing).map (f tokens) := by
  rw [result, outcome, bind_run, result, outcome]
  cases (x.run.run []).1 with
  | error cause => rfl
  | ok tokens =>
    show ((program tokens >>= fun p => pure (f tokens p)).run.run _).1 =
      ((parse tokens).mapError CompileError.parsing).map (f tokens)
    rw [bind_run, program_run]
    cases parse tokens <;> rfl

theorem fileProgram_result (world : World) (file : String) :
    (fileProgram world file).result =
      (fileTokens world file).result.bind fun tokens => (parse tokens).mapError .parsing := by
  rw [fileProgram, result, outcome, bind_run, result, outcome]
  cases ((fileTokens world file).run.run []).1 with
  | error cause => rfl
  | ok tokens => exact program_run tokens _

end Compile

namespace Cli

/-! ### Answers -/

/-- What a command says about a file in JSON, made of what the stages of compilation come to. -/
def answer (world : World) (file : String) : Command → Except CompileError Json
  | .tokens => do
    let tokens ← (Compile.fileTokens world file).result
    return (Shape.list (tokens.map Token.shape)).toJson
  | .parse => do
    let program ← (Compile.fileProgram world file).result
    return (Shape.list (Stmt.shapes program)).toJson
  | .check => do
    let tokens ← (Compile.fileTokens world file).result
    let program ← (Compile.fileProgram world file).result
    return .object
      [("file", .string file), ("statements", .number program.length),
       ("tokens", .number tokens.length)]

/-- What is printed in JSON is the answer of the command. -/
theorem output_json (world : World) (file : String) (command : Command) :
    (output world .json command file).result = (answer world file command).map Json.document := by
  cases command with
  | tokens =>
    refine (Compile.result_bind_pure _ _).trans ?_
    rw [answer]
    cases (Compile.fileTokens world file).result <;> rfl
  | parse =>
    refine (Compile.result_bind_pure _ _).trans ?_
    rw [answer]
    cases (Compile.fileProgram world file).result <;> rfl
  | check =>
    refine (Compile.result_bind_program _ _).trans ?_
    rw [answer, Compile.fileProgram_result]
    cases (Compile.fileTokens world file).result with
    | error cause => rfl
    | ok tokens =>
      show ((parse tokens).mapError CompileError.parsing).map _ =
        (((parse tokens).mapError CompileError.parsing).bind _).map _
      cases parse tokens <;> rfl

/-- The report of an error about a file. -/
def errorJson (file : String) (error : CompileError) : Json :=
  let (line, column) : Json × Json :=
    match error.position? with
    | none => (.null, .null)
    | some p => (.number p.line, .number p.column)
  .object [("severity", .string "error"),
    ("message", .string (error.stage ++ " error: " ++ error.message)), ("file", .string file),
    ("line", line), ("column", column)]

theorem toJson_diagnostic (file : String) (error : CompileError) :
    error.diagnostic.toJson file = errorJson file error := by
  rw [errorJson, Diagnostic.toJson, CompileError.diagnostic]
  cases error.position? <;> rfl

/-! ### Runs -/

/-- The command line asks for a command on a file. The settings can be loaded, and with the options
applied to them they ask for JSON. -/
def AsksForJson (args : List String) (world : World) (command : Command) (file : String) : Prop :=
  ∃ options settings, parseArguments args = .ok ⟨options, command, file⟩ ∧
    resolveSettings world options = .ok settings ∧ settings.format = .json

/-- What a run prints is a single document with a newline behind it. -/
def Prints (exit : Exit) (json : Json) : Prop :=
  ∃ text, exit.stdout = text ++ "\n" ∧ ∀ json', Json.IsText text json' ↔ json' = json

theorem prints_document {exit : Exit} {json : Json} (written : exit.stdout = json.document) :
    Prints exit json := by
  refine ⟨json.pretty, written, fun json' => ⟨fun h => h.unique (Json.isText_pretty json), ?_⟩⟩
  rintro rfl
  exact Json.isText_pretty json'

/-- What a run in JSON leaves behind on standard output and as its code. -/
structure Answers (exit : Exit) (file : String) (answered : Except CompileError Json) : Prop where
  code : exit.code = 0 ↔ ∃ json, answered = .ok json
  success : ∀ json, answered = .ok json → Prints exit json
  failure : ∀ error, answered = .error error → exit.code = 1 ∧ Prints exit (errorJson file error)

/-- A run in JSON prints the answer of its command, or else the report of the error. -/
theorem answers_of_asksForJson {args : List String} {world : World} {command : Command}
    {file : String} (asked : AsksForJson args world command file) :
    Answers (run args world) file (answer world file command) := by
  obtain ⟨options, settings, parsed, resolved, format⟩ := asked
  have started : run args world = runCommand world settings command file := by
    simp only [run, parsed, resolved]
  have printed := output_json world file command
  rw [Compile.result] at printed
  rw [started, runCommand, format]
  generalize (output world .json command file).outcome = outcome at printed ⊢
  obtain ⟨result, log⟩ := outcome
  obtain rfl : result = _ := printed
  cases answer world file command with
  | ok json =>
    refine ⟨⟨fun _ => ⟨json, rfl⟩, fun _ => rfl⟩, ?_, by simp⟩
    rintro _ ⟨⟩
    exact prints_document rfl
  | error error =>
    refine ⟨by simp [Except.map], by simp, ?_⟩
    rintro _ ⟨⟩
    exact ⟨rfl, prints_document (congrArg Json.document (toJson_diagnostic file error))⟩

/-! ### Commands side by side -/

section

variable {world : World} {file : String}

/-- A file that has a program has tokens. -/
theorem fileTokens_of_fileProgram {program : List Stmt}
    (parsed : (Compile.fileProgram world file).result = .ok program) :
    ∃ tokens, (Compile.fileTokens world file).result = .ok tokens := by
  rw [Compile.fileProgram_result] at parsed
  cases lexed : (Compile.fileTokens world file).result with
  | error cause =>
    rw [lexed] at parsed
    cases parsed
  | ok tokens => exact ⟨tokens, rfl⟩

/-- The answers to a file that has a program. -/
theorem answer_of_fileProgram {program : List Stmt}
    (parsed : (Compile.fileProgram world file).result = .ok program) :
    ∃ statements tokens : List Json, answer world file .parse = .ok (.array statements) ∧
      answer world file .tokens = .ok (.array tokens) ∧
      answer world file .check = .ok (.object [("file", .string file),
        ("statements", .number statements.length), ("tokens", .number tokens.length)]) := by
  obtain ⟨tokens, lexed⟩ := fileTokens_of_fileProgram parsed
  refine ⟨Shape.itemsToJson (Stmt.shapes program),
    Shape.itemsToJson (tokens.map Token.shape), ?_, ?_, ?_⟩
  · rw [answer, parsed]
    rfl
  · rw [answer, lexed]
    rfl
  · simp only [answer, parsed, lexed, Shape.length_itemsToJson, Stmt.length_shapes, List.length_map]
    rfl

/-- Commands that are about the program of a file answer only if there is one. -/
theorem fileProgram_of_answer {json : Json} {command : Command} (parses : command ≠ .tokens)
    (answered : answer world file command = .ok json) :
    ∃ program, (Compile.fileProgram world file).result = .ok program := by
  cases parsed : (Compile.fileProgram world file).result with
  | ok program => exact ⟨program, rfl⟩
  | error cause =>
    cases command with
    | tokens => exact absurd rfl parses
    | parse =>
      rw [answer, parsed] at answered
      cases answered
    | check =>
      simp only [answer, parsed] at answered
      cases lexed : (Compile.fileTokens world file).result with
      | error cause' =>
        rw [lexed] at answered
        cases answered
      | ok tokens =>
        rw [lexed] at answered
        cases answered

theorem answers_iff {command : Command} (parses : command ≠ .tokens) :
    (∃ json, answer world file command = .ok json) ↔
      ∃ program, (Compile.fileProgram world file).result = .ok program := by
  constructor
  · rintro ⟨json, answered⟩
    exact fileProgram_of_answer parses answered
  · rintro ⟨program, parsed⟩
    obtain ⟨statements, tokens, printed, -, counted⟩ := answer_of_fileProgram parsed
    cases command with
    | tokens => exact absurd rfl parses
    | parse => exact ⟨_, printed⟩
    | check => exact ⟨_, counted⟩

end

/-- A run that is asked for JSON prints one document and nothing else. It succeeds if the stages
behind its command do, and otherwise the document is the report of the error. A file is found
correct by one run if another one prints its program, and what is counted are the parts of the
program and of the list of tokens that are printed. -/
theorem run_json (world : World) (file : String) :
    (∀ args command, AsksForJson args world command file →
      Answers (run args world) file (answer world file command)) ∧
    ∀ checking parsing, AsksForJson checking world .check file →
      AsksForJson parsing world .parse file →
      ((run checking world).code = 0 ↔ (run parsing world).code = 0) ∧
      ∀ lexing, AsksForJson lexing world .tokens file → (run checking world).code = 0 →
        ∃ statements tokens : List Json, Prints (run parsing world) (.array statements) ∧
          Prints (run lexing world) (.array tokens) ∧
          Prints (run checking world) (.object [("file", .string file),
            ("statements", .number statements.length), ("tokens", .number tokens.length)]) := by
  refine ⟨fun args command asked => answers_of_asksForJson asked, ?_⟩
  intro checking parsing asked asked'
  have checked := answers_of_asksForJson asked
  have parsed := answers_of_asksForJson asked'
  refine ⟨?agree, ?count⟩
  case agree => rw [checked.code, parsed.code, answers_iff (by decide), answers_iff (by decide)]
  case count =>
    intro lexing asked'' succeeded
    have lexed := answers_of_asksForJson asked''
    obtain ⟨json, answered⟩ := checked.code.mp succeeded
    obtain ⟨program, found⟩ := fileProgram_of_answer (by decide) answered
    obtain ⟨statements, tokens, printed, listed, counted⟩ := answer_of_fileProgram found
    exact ⟨statements, tokens, parsed.success _ printed, lexed.success _ listed,
      checked.success _ counted⟩

/-- A file of two statements, and one that ends behind `ret`. -/
theorem run_json_statements :
    let world : World := ⟨[], fun path =>
      if path = "a.rat" then .file "rev\n-1".toUTF8
      else if path = "b.rat" then .file "ret".toUTF8
      else .missing .notFound⟩
    let line (command file : String) := [command, file, "--format", "json"]
    let incomplete : CompileError := .parsing (.outOfTokens "an expression" ⟨1, 1⟩)
    (AsksForJson (line "check" "a.rat") world .check "a.rat" ∧
      AsksForJson (line "parse" "a.rat") world .parse "a.rat" ∧
      AsksForJson (line "tokens" "a.rat") world .tokens "a.rat" ∧
      (run (line "check" "a.rat") world).code = 0 ∧ (run (line "parse" "a.rat") world).code = 0 ∧
      ∃ statements tokens : List Json,
        Prints (run (line "parse" "a.rat") world) (.array statements) ∧
        Prints (run (line "tokens" "a.rat") world) (.array tokens) ∧
        Prints (run (line "check" "a.rat") world) (.object [("file", .string "a.rat"),
          ("statements", .number statements.length), ("tokens", .number tokens.length)])) ∧
    AsksForJson (line "parse" "b.rat") world .parse "b.rat" ∧
      answer world "b.rat" .parse = .error incomplete ∧
      (run (line "parse" "b.rat") world).code = 1 ∧
      Prints (run (line "parse" "b.rat") world) (errorJson "b.rat" incomplete) := by
  intro world line incomplete
  have settled : resolveSettings world { format := some .json } = .ok { format := .json } := by
    decide +kernel
  have checking : AsksForJson (line "check" "a.rat") world .check "a.rat" :=
    ⟨{ format := some .json }, _, by decide +kernel, settled, rfl⟩
  have parsing : AsksForJson (line "parse" "a.rat") world .parse "a.rat" :=
    ⟨{ format := some .json }, _, by decide +kernel, settled, rfl⟩
  have lexing : AsksForJson (line "tokens" "a.rat") world .tokens "a.rat" :=
    ⟨{ format := some .json }, _, by decide +kernel, settled, rfl⟩
  have failing : AsksForJson (line "parse" "b.rat") world .parse "b.rat" :=
    ⟨{ format := some .json }, _, by decide +kernel, settled, rfl⟩
  have succeeded : (run (line "check" "a.rat") world).code = 0 := by decide +kernel
  have lexed : (Compile.fileTokens world "b.rat").result = .ok [⟨.keyword, "ret", ⟨1, 1⟩⟩] := by
    decide +kernel
  have failed : answer world "b.rat" .parse = .error incomplete := by
    rw [answer, Compile.fileProgram_result, lexed]
    cbv
  obtain ⟨agree, count⟩ := (run_json world "a.rat").2 _ _ checking parsing
  have reported := ((run_json world "b.rat").1 _ _ failing).failure _ failed
  exact ⟨⟨checking, parsing, lexing, succeeded, agree.mp succeeded, count _ lexing succeeded⟩,
    failing, failed, reported⟩

end Cli

end RatLang
