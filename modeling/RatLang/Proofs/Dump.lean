import RatLang.Output
import RatLang.Proofs.Json
import RatLang.Proofs.Syntax.Shape

/-!
# The dump of a program

A dump that a stream takes in full is one JSON text and a newline, and it is the dump of one program
or of one list of tokens only.
-/

namespace RatLang

open Shape

/-- A stream that takes a document in full gets its text as UTF-8. -/
theorem Sink.bytes_eq_of_write {sink : Sink} {json : Json} {bytes : ByteArray}
    (written : sink.write json = (bytes, none)) : bytes = json.document.toUTF8 := by
  unfold Sink.write at written
  cases room : sink.room with
  | none =>
    rw [room] at written
    exact (congrArg Prod.fst written).symm
  | some n =>
    simp only [room] at written
    split_ifs at written with fits
    · exact (congrArg Prod.fst written).symm
    · cases written

/-- Two documents that are written alike are of one value. -/
theorem Sink.eq_of_write {sink sink' : Sink} {json json' : Json} {bytes : ByteArray}
    (written : sink.write json = (bytes, none)) (written' : sink'.write json' = (bytes, none)) :
    json = json' := by
  have same : json.document.toUTF8 = json'.document.toUTF8 :=
    (bytes_eq_of_write written).symm.trans (bytes_eq_of_write written')
  have documents : json.pretty ++ "\n" = json'.pretty ++ "\n" := by
    rwa [String.toUTF8_eq_toByteArray, String.toUTF8_eq_toByteArray, String.toByteArray_inj] at same
  exact Json.pretty_injective ((String.append_left_inj _).mp documents)

/-- Programs are told apart by their dumps, with every position in them, and so are lists of
tokens. A dump is a single text of JSON with a newline behind it. -/
theorem dump_lossless :
    (∀ (sink sink' : Sink) (program program' : List Stmt) (bytes : ByteArray),
      sink.write (Shape.list (Stmt.shapes program)).toJson = (bytes, none) →
      sink'.write (Shape.list (Stmt.shapes program')).toJson = (bytes, none) →
        program = program') ∧
    (∀ (sink sink' : Sink) (tokens tokens' : List Token) (bytes : ByteArray),
      sink.write (Shape.list (tokens.map Token.shape)).toJson = (bytes, none) →
      sink'.write (Shape.list (tokens'.map Token.shape)).toJson = (bytes, none) →
        tokens = tokens') ∧
    ∀ json : Json, ∃ text : String, Json.IsText text json ∧
      (∀ complaint, (Sink.mk none complaint).write json = ((text ++ "\n").toUTF8, none)) ∧
      ∀ sink bytes, Sink.write sink json = (bytes, none) → bytes = (text ++ "\n").toUTF8 := by
  refine ⟨?programs, ?tokens, ?document⟩
  case programs =>
    intro sink sink' program program' bytes written written'
    have same := Sink.eq_of_write written written'
    simp only [toJson, Json.array.injEq] at same
    exact Stmt.eq_of_itemsToJson program program' same
  case tokens =>
    intro sink sink' tokens tokens' bytes written written'
    have same := Sink.eq_of_write written written'
    simp only [toJson, Json.array.injEq] at same
    exact (itemsToJson_map_inj Token.toJson_inj).mp same
  case document =>
    intro json
    exact ⟨json.pretty, Json.isText_pretty json, fun _ => rfl,
      fun _ _ written => Sink.bytes_eq_of_write written⟩

/-- A return without a value is dumped over twelve lines. -/
theorem dump_lossless_return :
    let program : List Stmt := [.ret .functionReturnVoid ⟨1, 1⟩ none]
    let tokens : List Token := [⟨.keyword, "rev", ⟨1, 1⟩⟩]
    let dump := (Shape.list (Stmt.shapes program)).toJson
    let tokenDump := (Shape.list (tokens.map Token.shape)).toJson
    let lines :=
      "[\n  \x7b\n    \"Return\": \x7b\n      \"kind\": \"FunctionReturnVoid\",\n" ++
        "      \"position\": \x7b\n        \"line\": 1,\n        \"column\": 1\n      \x7d,\n" ++
        "      \"value\": null\n    \x7d\n  \x7d\n]\n"
    let narrow : Sink := ⟨some 200, "full"⟩
    let wide : Sink := ⟨none, "full"⟩
    (narrow.write dump = (lines.toUTF8, none) ∧ wide.write dump = (lines.toUTF8, none) ∧
      program = program) ∧
    (wide.write tokenDump = (tokenDump.document.toUTF8, none) ∧ tokens = tokens) ∧
    ∃ text, Json.IsText text dump ∧ lines.toUTF8 = (text ++ "\n").toUTF8 := by
  intro program tokens dump tokenDump lines narrow wide
  have document : dump.document = lines := by decide +kernel
  have narrowly : narrow.write dump = (lines.toUTF8, none) := by decide +kernel
  have widely : wide.write dump = (lines.toUTF8, none) := document ▸ rfl
  have listed : wide.write tokenDump = (tokenDump.document.toUTF8, none) := rfl
  obtain ⟨programs, lists, documents⟩ := dump_lossless
  obtain ⟨text, reads, -, behind⟩ := documents dump
  exact ⟨⟨narrowly, widely, programs narrow wide program program _ narrowly widely⟩,
    ⟨listed, lists wide wide tokens tokens _ listed listed⟩, text, reads, behind narrow _ narrowly⟩

end RatLang
