import ClassScript.Cbor.Codec
import ClassScript.Session

/-!
# Reports

The outcome of a run or check for other programs to read. A report is a record whose fields have
numbers, and so is each of its problems. A codec writes it and reads it back.
-/

namespace ClassScript

/-- The outcome of a run or check. -/
structure Report where
  /-- The name of the source. -/
  source : String := ""
  /-- The problems, or nothing where no list was ever made. -/
  diagnostics : Option (List Diagnostic) := none
  /-- Whether a problem was found before a program ran. -/
  hadStaticError : Bool := false
  /-- Whether a program failed while it ran. -/
  hadRuntimeError : Bool := false
  /-- The exit status. -/
  exitCode : Int64 := 0
  /-- The name of the session. -/
  session : String := ""
deriving DecidableEq

/-- The report of a session about a source. -/
def Session.toReport (s : Session) (source session : String) : Report where
  source := source
  diagnostics := some s.diagnostics
  hadStaticError := s.hadStaticError
  hadRuntimeError := s.hadRuntimeError
  exitCode := Int64.ofNat s.exit.code
  session := session

/-! ### What a codec is told -/

/-- The fields of a problem. -/
abbrev Diagnostic.shape : Cbor.Shape :=
  .record <| .field 1 false .byte <| .field 2 false .int <| .field 3 false .int <|
    .field 4 true .text <| .field 5 false .text <| .field 6 true .flag .none

/-- The values of the fields of a problem. -/
def Diagnostic.value (d : Diagnostic) : shape.Value :=
  (d.kind.code, d.line, d.column, d.lexeme, d.message, d.atEnd, ())

/-- The problem whose fields have these values. -/
def Diagnostic.ofValue : shape.Value → Diagnostic
  | (code, line, column, lexeme, message, atEnd, ()) =>
    { kind := ⟨code⟩, line, column, lexeme, message, atEnd }

/-- The fields of a report. -/
abbrev Report.shape : Cbor.Shape :=
  .record <| .field 1 true .text <| .field 2 false (.list Diagnostic.shape) <|
    .field 3 false .flag <| .field 4 false .flag <| .field 5 false .int <| .field 6 true .text .none

/-- The values of the fields of a report. -/
def Report.value (r : Report) : shape.Value :=
  (r.source, r.diagnostics.map (·.map Diagnostic.value), r.hadStaticError, r.hadRuntimeError,
    r.exitCode, r.session, ())

/-- The report whose fields have these values. -/
def Report.ofValue : shape.Value → Report
  | (source, diagnostics, hadStaticError, hadRuntimeError, exitCode, session, ()) =>
    { source, diagnostics := diagnostics.map (·.map Diagnostic.ofValue), hadStaticError
      hadRuntimeError, exitCode, session }

/-! ### Writing and reading -/

/-- The bytes of a report. -/
def Report.encode (codec : Cbor.Codec) (r : Report) : Except String (List UInt8) :=
  codec.marshal shape r.value

/-- The report that bytes stand for. -/
def Report.decode (codec : Cbor.Codec) (bytes : List UInt8) : Except String Report :=
  match codec.unmarshal shape bytes with
  | .ok x => .ok (ofValue x)
  | .error reason => .error ("session: unmarshal report: " ++ reason)

end ClassScript
