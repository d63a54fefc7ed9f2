import ClassScript.Syntax.Basic

/-!
# Reading tokens

The state of a parse, the complaints it can make, and the steps that look at tokens and take them.
A complaint may let the parse go on, or give up the declaration at hand; either way what was
taken and said before is kept.
-/

namespace ClassScript.Parse

/-- Something the grammar asks for at one place. -/
inductive Expected where
  | className | superclassName | classOpen | methodName | classClose
  | functionName | paramsOpen | paramName | paramsClose
  | variableName | loopVariable | loopIn | blockOpen | blockClose
  | propertyName | argumentsClose | superMethodName | superUse
  | groupClose | listClose | expression
deriving DecidableEq

/-- What the grammar asks for, in words. -/
def Expected.message : Expected → String
  | className => "expected class name"
  | superclassName => "expected superclass name"
  | classOpen => "expected '\x7b' before class body"
  | methodName => "expected method name"
  | classClose => "expected '\x7d' after class body"
  | functionName => "expected function name"
  | paramsOpen => "expected '(' before parameters"
  | paramName => "expected parameter name"
  | paramsClose => "expected ')' after parameters"
  | variableName => "expected variable name"
  | loopVariable => "expected loop variable after 'for'"
  | loopIn => "expected 'in' after loop variable"
  | blockOpen => "expected '\x7b'"
  | blockClose => "expected '\x7d' after block"
  | propertyName => "expected property name after '.'"
  | argumentsClose => "expected ')' after arguments"
  | superMethodName => "expected superclass method name"
  | superUse => "expected '.' or '(' after 'super'"
  | groupClose => "expected ')' after expression"
  | listClose => "expected ']' after list elements"
  | expression => "expected expression"

/-- What can be wrong with a program's form. -/
inductive Complaint where
  /-- A token the grammar asks for is not there. -/
  | expected (what : Expected)
  /-- A parameter stands behind a variadic one. -/
  | variadicNotLast
  /-- A required parameter stands behind one with a default. -/
  | requiredAfterDefault
  /-- A variadic parameter has a default. -/
  | variadicDefault
  /-- Two parameters of a function have one name. -/
  | duplicateParam (name : String)
  /-- Two named arguments of a call have one name. -/
  | duplicateNamed (name : String)
  /-- A positional argument stands behind a named one. -/
  | positionalAfterNamed
  /-- The left side of an assignment is neither a variable nor a field. -/
  | invalidTarget
deriving DecidableEq

/-- A complaint in words. -/
def Complaint.message : Complaint → String
  | expected what => what.message
  | variadicNotLast => "variadic parameter must be last"
  | requiredAfterDefault => "parameter without default follows parameter with default"
  | variadicDefault => "variadic parameter cannot have a default"
  | duplicateParam name => "duplicate parameter '" ++ name ++ "'"
  | duplicateNamed name => "duplicate named argument '" ++ name ++ "'"
  | positionalAfterNamed => "positional argument follows named argument"
  | invalidTarget => "invalid assignment target"

/-- A complaint about a token. -/
structure Error where
  /-- The offending token. -/
  token : Token
  /-- What is wrong. -/
  complaint : Complaint

namespace Error

/-- The words of an error; an illegal token speaks for itself. -/
def message (e : Error) : String :=
  if e.token.kind = .illegal then e.token.lexeme else e.complaint.message

/-- Whether the input ended too early. -/
def atEnd (e : Error) : Bool := e.token.kind = .eof

/-- The text of an error with a line, at the end of the input or at a lexeme. -/
def textAt (line : Int) (atEnd : Bool) (lexeme message : String) : String :=
  if atEnd then s!"line {line}: at end: {message}" else s!"line {line}: at '{lexeme}': {message}"

/-- The error as a text. -/
def text (e : Error) : String := textAt e.token.line e.atEnd e.token.lexeme e.message

end Error

/-- The state of a parse. -/
structure State where
  /-- The tokens not taken yet; the last one marks the end of the input. -/
  rest : List Token
  /-- The token taken last. -/
  previous : Token := .absent
  /-- What was wrong so far, the latest error first. -/
  errors : List Error := []
  /-- The identity of the next node. -/
  nextId : NodeId := 0

/-- Why a part of the grammar was left early. -/
inductive Stop where
  /-- The declaration at hand is given up. -/
  | bailout
  /-- The bound on nesting was used up. -/
  | exhausted
deriving DecidableEq

/-- A step of a parse. What it did to the state stays done when it stops early. -/
abbrev Parser := EStateM Stop State

/-- A step that reads and changes the state succeeds with what it read. -/
theorem modifyGet_apply {α : Type} (f : State → α × State) (s : State) :
    (modifyGet f : Parser α) s = .ok (f s).1 (f s).2 := rfl

/-- A new node identity. -/
def fresh : Parser NodeId :=
  modifyGet fun s => (s.nextId, { s with nextId := s.nextId + 1 })

/-- The first token not taken yet. -/
def peek : Parser Token := return (← get).rest.headD .absent

/-- The token behind the first one not taken yet; the end of the input has no token behind it. -/
def peekNext : Parser Token := do
  match (← get).rest with
  | _ :: next :: _ => return next
  | [last] => return last
  | [] => return .absent

/-- The token taken last. -/
def previous : Parser Token := return (← get).previous

/-- Whether the next token is of a kind. -/
def check (kind : Token.Kind) : Parser Bool := return (← peek).kind = kind

/-- Whether all tokens are taken. -/
def atEnd : Parser Bool := check .eof

/-- Takes a token, unless it marks the end of the input; answers the token taken last. -/
def advance : Parser Token :=
  modifyGet fun s =>
    match s.rest with
    | t :: rest => if t.kind = .eof then (s.previous, s) else (t, { s with rest, previous := t })
    | [] => (s.previous, s)

/-- A token that does not mark the end is taken. -/
theorem advance_cons {s : State} {t : Token} {rest : List Token} (hs : s.rest = t :: rest)
    (ht : t.kind ≠ .eof) : advance s = .ok t { s with rest, previous := t } := by
  rw [advance, modifyGet_apply]
  simp only [hs, if_neg ht]

/-- The mark of the end is not taken. -/
theorem advance_eof {s : State} {t : Token} {rest : List Token} (hs : s.rest = t :: rest)
    (ht : t.kind = .eof) : advance s = .ok s.previous s := by
  rw [advance, modifyGet_apply]
  simp only [hs, if_pos ht]

/-- Without tokens nothing is taken. -/
theorem advance_nil {s : State} (hs : s.rest = []) : advance s = .ok s.previous s := by
  rw [advance, modifyGet_apply]
  simp only [hs]

/-- Takes the next token if it is of one of the kinds. -/
def accept? (kinds : List Token.Kind) : Parser (Option Token) := do
  let t ← peek
  if kinds.contains t.kind then return some (← advance) else return none

/-- Takes the next token if it is of a kind, and says whether it was. -/
def accept (kind : Token.Kind) : Parser Bool := return (← accept? [kind]).isSome

/-- Notes an error and goes on. -/
def complain (token : Token) (complaint : Complaint) : Parser Unit :=
  modify fun s => { s with errors := ⟨token, complaint⟩ :: s.errors }

/-- Notes an error and gives up the declaration at hand. -/
def fail {α : Type} (token : Token) (what : Expected) : Parser α := do
  complain token (.expected what)
  throw .bailout

/-- Takes a token that has to be of a kind. -/
def expect (kind : Token.Kind) (what : Expected) : Parser Token := do
  if ← check kind then advance else fail (← peek) what

end ClassScript.Parse
