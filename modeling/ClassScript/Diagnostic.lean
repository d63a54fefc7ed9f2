import ClassScript.Token.Basic

/-!
# Diagnostics

A problem that was found in a program, with the pass that found it and its place in the source.
Diagnostics are also read back from reports, so that every kind, line and column can occur.
-/

namespace ClassScript

namespace Diagnostic

/-- The pass that found a problem, as a number. -/
structure Kind where
  /-- The number. -/
  code : UInt8
deriving DecidableEq, Inhabited

namespace Kind

/-- The program does not follow the grammar. -/
def parse : Kind := ⟨1⟩

/-- A name is not used properly. -/
def resolve : Kind := ⟨2⟩

/-- The types of the program do not fit. -/
def type : Kind := ⟨3⟩

/-- The program failed while it ran. -/
def runtime : Kind := ⟨4⟩

/-- The name of a kind; a number without a name is shown as it is. -/
def name (k : Kind) : String :=
  if k = parse then "parse"
  else if k = resolve then "resolve"
  else if k = type then "type"
  else if k = runtime then "runtime"
  else s!"Kind({k.code.toNat})"

/-- Whether the problem was found before the program ran. -/
def isStatic (k : Kind) : Bool := k != runtime

end Kind

end Diagnostic

/-- A problem with its place in the source. -/
structure Diagnostic where
  /-- The pass that found the problem. -/
  kind : Diagnostic.Kind := ⟨0⟩
  /-- The line. -/
  line : Int64 := 0
  /-- The column. -/
  column : Int64 := 0
  /-- The offending source text. -/
  lexeme : String := ""
  /-- What is wrong. -/
  message : String := ""
  /-- Whether the source ended too early. -/
  atEnd : Bool := false
deriving DecidableEq, Inhabited

namespace Diagnostic

/-- A problem at a token. -/
def atToken (kind : Kind) (t : Token) (message : String) : Diagnostic :=
  { kind
    line := Int64.ofNat t.line
    column := Int64.ofNat t.column
    lexeme := t.lexeme
    message
    atEnd := t.kind = .eof }

/-- The problem as a text. -/
def text (d : Diagnostic) : String :=
  let line := d.line.toInt
  if d.kind = .runtime then s!"{d.message}\n[line {line}]"
  else if d.atEnd then s!"[line {line}] Error at end: {d.message}"
  else if d.lexeme.isEmpty then s!"[line {line}] Error: {d.message}"
  else s!"[line {line}] Error at '{d.lexeme}': {d.message}"

end Diagnostic

end ClassScript
