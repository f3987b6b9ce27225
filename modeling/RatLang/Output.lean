import RatLang.Json

/-!
# Writing documents

A document is written to a stream of bytes, which may have no room for all of it.
-/

namespace RatLang

/-- Why a document is not written in full, in the words of the stream. -/
structure WriteError where
  cause : String
deriving DecidableEq, Repr

/-- The wording of the error. -/
def WriteError.message (error : WriteError) : String :=
  "cannot write output: " ++ error.cause

/-- A stream of bytes. -/
structure Sink where
  /-- The number of bytes that the stream has room for, if there is a limit. -/
  room : Option Nat
  /-- What the stream says when it is full. -/
  complaint : String
deriving DecidableEq, Repr

/-- The bytes of a document that a stream takes, and the error if they are not all of it. -/
def Sink.write (sink : Sink) (json : Json) : ByteArray × Option WriteError :=
  let bytes := json.document.toUTF8
  match sink.room with
  | none => (bytes, none)
  | some room =>
    if bytes.size ≤ room then (bytes, none)
    else (bytes.extract 0 room, some ⟨sink.complaint⟩)

end RatLang
