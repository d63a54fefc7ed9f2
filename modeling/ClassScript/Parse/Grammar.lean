import ClassScript.Parse.Basic
import ClassScript.Token.Scan

/-!
# The grammar

Each part of the grammar is a step that may use the two parts it nests, expressions and
declarations, one level further down. Tying the levels together bounds the nesting, and the bound
is the number of tokens: every level takes at least one of them before it goes further down.

Operators bind by level, from disjunction, the loosest, to multiplication, the tightest; all of
them associate to the left. An assignment associates to the right and binds looser than all.
-/

namespace ClassScript.Parse

/-- The parts of the grammar that other parts nest. -/
structure Nested where
  /-- An expression. -/
  expression : Parser Expr
  /-- A declaration or statement. -/
  declaration : Parser Stmt

/-- The number of tokens left, which bounds how often a loop that takes tokens can run. -/
def remaining : Parser Nat := return (← get).rest.length

/-! ### Expressions -/

/-- The levels of the operators between two operands, the loosest first. -/
inductive Level where
  | disjunction | conjunction | equality | comparison | sum | product
deriving DecidableEq

namespace Level

/-- The operators of a level. -/
def operators : Level → List Token.Kind
  | disjunction => [.orWord]
  | conjunction => [.andWord]
  | equality => [.bangEqual, .equalEqual]
  | comparison => [.greater, .greaterEqual, .less, .lessEqual]
  | sum => [.minus, .plus]
  | product => [.slash, .star, .percent]

/-- The node of an operator of a level. -/
def node : Level → NodeId → Expr → Token → Expr → Expr
  | disjunction | conjunction => .logical
  | equality | comparison | sum | product => .binary

/-- The levels, the tightest first. -/
def tightestFirst : List Level := [product, sum, comparison, equality, conjunction, disjunction]

end Level

/-- Goes on with a left operand while operators of a level follow. -/
def operands (operand : Parser Expr) (level : Level) : Nat → Expr → Parser Expr
  | 0, left => return left
  | fuel + 1, left => do
    match ← accept? level.operators with
    | none => return left
    | some op =>
      let right ← operand
      operands operand level fuel (level.node (← fresh) left op right)

/-- Operands of a level with its operators between them. -/
def binary (operand : Parser Expr) (level : Level) : Parser Expr := do
  let left ← operand
  operands operand level (← remaining) left

/-- One named argument behind its name and colon. -/
def namedArgument (g : Nested) (prior : List NamedArg) : Parser NamedArg := do
  let name ← advance
  let _ ← advance
  for other in prior do
    if other.name.lexeme = name.lexeme then complain name (.duplicateNamed name.lexeme)
  return ⟨name, ← g.expression⟩

/-- The arguments of a call. -/
structure Arguments where
  /-- The positional arguments. -/
  args : List Expr := []
  /-- The named arguments. -/
  named : List NamedArg := []

/-- Goes on with the arguments of a call. -/
def arguments (g : Nested) : Nat → Arguments → Parser Arguments
  | 0, a => return a
  | fuel + 1, a => do
    -- Only the colon behind it tells a name from an expression.
    let a ← if (← check .identifier) && (← peekNext).kind = .colon then
        pure { a with named := a.named ++ [← namedArgument g a.named] }
      else do
        let arg ← g.expression
        unless a.named.isEmpty do complain arg.token .positionalAfterNamed
        pure { a with args := a.args ++ [arg] }
    if ← accept .comma then arguments g fuel a else return a

/-- A call behind its opening parenthesis. -/
def callRest (g : Nested) (callee : Expr) : Parser Expr := do
  let a ← if ← check .rightParen then pure {} else arguments g (← remaining) {}
  let paren ← expect .rightParen .argumentsClose
  return .call (← fresh) callee paren a.args a.named

/-- Goes on with calls and member accesses. A parenthesis on a line below the callee starts a
statement of its own. -/
def postfixes (g : Nested) : Nat → Expr → Parser Expr
  | 0, e => return e
  | fuel + 1, e => do
    let next ← peek
    if next.kind = .leftParen && next.line = (← previous).line then
      let _ ← advance
      postfixes g fuel (← callRest g e)
    else if ← accept .dot then
      let name ← expect .identifier .propertyName
      postfixes g fuel (.get (← fresh) e name)
    else return e

/-- One parameter: a type, dots, a name and a default, of which only the name is required. -/
def parameter (g : Nested) (prior : List Param) : Parser Param := do
  -- A first name is the type only if another name or dots follow it.
  let next := (← peekNext).kind
  let typed := (← check .identifier) && (next = .identifier || next = .ellipsis)
  let type ← if typed then advance else pure (.synthetic "Object")
  let variadic ← accept .ellipsis
  let name ← expect .identifier .paramName
  let defaultValue ← if ← accept .equal then some <$> g.expression else pure none
  if let some last := prior.getLast? then
    if last.variadic then complain name .variadicNotLast
    if last.defaultValue.isSome && defaultValue.isNone && !variadic then
      complain name .requiredAfterDefault
  if variadic && defaultValue.isSome then complain name .variadicDefault
  for other in prior do
    if other.name.lexeme = name.lexeme then complain name (.duplicateParam name.lexeme)
  return { type, name, defaultValue, variadic }

/-- Goes on with the parameters of a function. -/
def parameters (g : Nested) : Nat → List Param → Parser (List Param)
  | 0, params => return params
  | fuel + 1, params => do
    let params := params ++ [← parameter g params]
    if ← accept .comma then parameters g fuel params else return params

/-- Goes on with declarations up to a closing brace. -/
def declarations (g : Nested) : Nat → List Stmt → Parser (List Stmt)
  | 0, body => return body
  | fuel + 1, body => do
    if (← check .rightBrace) || (← atEnd) then return body
    else declarations g fuel (body ++ [← g.declaration])

/-- A block. -/
def block (g : Nested) : Parser Block := do
  let brace ← expect .leftBrace .blockOpen
  let body ← declarations g (← remaining) []
  let _ ← expect .rightBrace .blockClose
  return ⟨← fresh, brace, body⟩

/-- The parameters and body of a function. -/
def lambdaRest (g : Nested) (keyword : Token) (name : Option Token) : Parser Lambda := do
  let _ ← expect .leftParen .paramsOpen
  let params ← if ← check .rightParen then pure [] else parameters g (← remaining) []
  let _ ← expect .rightParen .paramsClose
  let body ← block g
  return ⟨← fresh, keyword, name, params, body.body⟩

/-- Goes on with the elements of a list display. -/
def elements (g : Nested) : Nat → List Expr → Parser (List Expr)
  | 0, es => return es
  | fuel + 1, es => do
    let es := es ++ [← g.expression]
    if ← accept .comma then elements g fuel es else return es

/-- A constant that its token stands for. -/
def constant? (t : Token) : Option Literal :=
  match t.kind with
  | .falseWord => some (.bool false)
  | .trueWord => some (.bool true)
  | .nilWord => some .nil
  | .integer | .float | .string => some (t.literal.getD .nil)
  | _ => none

/-- A use of the superclasses behind its keyword. -/
def superRest (keyword : Token) : Parser Expr := do
  if ← accept .dot then
    let method ← expect .identifier .superMethodName
    return .super (← fresh) keyword (some method)
  else if ← check .leftParen then return .super (← fresh) keyword none
  else fail (← peek) .superUse

/-- An expression without operators. -/
def primary (g : Nested) : Parser Expr := do
  let t ← peek
  match constant? t with
  | some value =>
    let _ ← advance
    return .literal (← fresh) t value
  | none =>
    match t.kind with
    | .identifier =>
      let _ ← advance
      return .var ⟨← fresh, t⟩
    | .selfWord =>
      let _ ← advance
      return .self (← fresh) t
    | .superWord =>
      let _ ← advance
      superRest t
    | .funWord =>
      let _ ← advance
      return .lambda (← lambdaRest g t none)
    | .leftParen =>
      let _ ← advance
      let inner ← g.expression
      let _ ← expect .rightParen .groupClose
      return .group (← fresh) t inner
    | .leftBracket =>
      let _ ← advance
      let es ← if ← check .rightBracket then pure [] else elements g (← remaining) []
      let _ ← expect .rightBracket .listClose
      return .list (← fresh) t es
    | _ => fail t .expression

/-- A primary expression with the calls and member accesses behind it. -/
def call (g : Nested) : Parser Expr := do
  let e ← primary g
  postfixes g (← remaining) e

/-- An operand with the operators in front of it. -/
def unary (g : Nested) : Nat → Parser Expr
  | 0 => call g
  | fuel + 1 => do
    match ← accept? [.bang, .minus] with
    | none => call g
    | some op =>
      let right ← unary g fuel
      return .unary (← fresh) op right

/-- An expression with all operators between operands. -/
def operation (g : Nested) : Parser Expr :=
  Level.tightestFirst.foldl binary (do unary g (← remaining))

/-- The node that gives a target a value, if the target can have one. -/
def assignment? (id : NodeId) (value : Expr) : Expr → Option Expr
  | .var use => some (.assign id use.name value)
  | .get _ object name => some (.set id object name value)
  | _ => none

/-- An assignment, or an expression that is none. -/
def assignment (g : Nested) : Nat → Parser Expr
  | 0 => operation g
  | fuel + 1 => do
    let target ← operation g
    match ← accept? [.equal] with
    | none => return target
    | some equals =>
      let value ← assignment g fuel
      match assignment? (← fresh) value target with
      | some e => return e
      | none =>
        complain equals .invalidTarget
        return target

/-- An expression. -/
def expression (g : Nested) : Parser Expr := do assignment g (← remaining)

/-! ### Statements -/

/-- A function with a name, behind its keyword. -/
def function (g : Nested) (keyword : Token) : Parser Lambda := do
  let name ← expect .identifier .functionName
  lambdaRest g keyword (some name)

/-- Goes on with the superclasses of a class. -/
def superclasses : Nat → List NameUse → Parser (List NameUse)
  | 0, supers => return supers
  | fuel + 1, supers => do
    let name ← expect .identifier .superclassName
    let supers := supers ++ [⟨← fresh, name⟩]
    if ← accept .comma then superclasses fuel supers else return supers

/-- Goes on with the methods of a class, each with or without the word `fun`. -/
def methods (g : Nested) : Nat → List Lambda → Parser (List Lambda)
  | 0, ms => return ms
  | fuel + 1, ms => do
    if (← check .rightBrace) || (← atEnd) then return ms
    else
      let keyword ← peek
      let _ ← accept .funWord
      unless ← check .identifier do fail (← peek) .methodName
      let m ← function g keyword
      let _ ← accept .semicolon
      methods g fuel (ms ++ [m])

/-- A class behind its keyword. -/
def classRest (g : Nested) : Parser Stmt := do
  let name ← expect .identifier .className
  let supers ← if ← accept .less then superclasses (← remaining) [] else pure []
  let _ ← expect .leftBrace .classOpen
  let ms ← methods g (← remaining) []
  let _ ← expect .rightBrace .classClose
  return .classDecl (← fresh) name supers ms

/-- A variable behind its keyword. -/
def varRest (g : Nested) : Parser Stmt := do
  let name ← expect .identifier .variableName
  let initial ← if ← accept .equal then some <$> expression g else pure none
  return .varDecl (← fresh) name initial

/-- A loop over elements behind its keyword. -/
def forRest (g : Nested) (keyword : Token) : Parser Stmt := do
  let name ← expect .identifier .loopVariable
  let _ ← expect .inWord .loopIn
  let iterable ← expression g
  let body ← block g
  return .forIn (← fresh) keyword name iterable body

/-- A conditional behind its keyword. -/
def ifRest (g : Nested) : Nat → Token → Parser Stmt
  | 0, _ => throw .exhausted
  | fuel + 1, keyword => do
    let condition ← expression g
    let body ← block g
    let otherwise ←
      if ← accept .elseWord then
        match ← accept? [.ifWord] with
        | some keyword' => some <$> ifRest g fuel keyword'
        | none => some <$> Stmt.block <$> block g
      else pure none
    return .ifElse (← fresh) keyword condition body otherwise

/-- A result behind its keyword; it has to start on the same line. -/
def returnRest (g : Nested) (keyword : Token) : Parser Stmt := do
  let next ← peek
  let ends := next.kind = .rightBrace || next.kind = .semicolon || next.kind = .eof
  let value ← if next.line = keyword.line && !ends then some <$> expression g else pure none
  return .ret (← fresh) keyword value

/-- A loop with a condition behind its keyword. -/
def whileRest (g : Nested) (keyword : Token) : Parser Stmt := do
  let condition ← expression g
  let body ← block g
  return .whileLoop (← fresh) keyword condition body

/-- A statement that declares nothing. -/
def statement (g : Nested) : Parser Stmt := do
  match ← accept? [.forWord, .ifWord, .whileWord, .returnWord] with
  | some keyword =>
    match keyword.kind with
    | .forWord => forRest g keyword
    | .ifWord => ifRest g ((← remaining) + 1) keyword
    | .whileWord => whileRest g keyword
    | _ => returnRest g keyword
  | none =>
    if ← check .leftBrace then return .block (← block g)
    else
      let value ← expression g
      return .expr (← fresh) value

/-- A declaration or statement. -/
def bareDeclaration (g : Nested) : Parser Stmt := do
  if ← accept .classWord then classRest g
  else if (← check .funWord) && (← peekNext).kind = .identifier then
    let keyword ← advance
    let fn ← function g keyword
    return .function (← fresh) fn
  else if ← accept .varWord then varRest g
  else statement g

/-- A declaration or statement, with the semicolon that may end it. -/
def declaration (g : Nested) : Parser Stmt := do
  let stmt ← bareDeclaration g
  let _ ← accept .semicolon
  return stmt

/-- The nested parts, down to a number of levels. -/
def nested : Nat → Nested
  | 0 => ⟨throw .exhausted, throw .exhausted⟩
  | levels + 1 =>
    { expression := do expression (nested levels)
      declaration := do declaration (nested levels) }

/-! ### Programs -/

/-- The keywords that a parse goes on with after an error. -/
def startsStatement : Token.Kind → Bool
  | .classWord | .funWord | .varWord | .forWord | .ifWord | .whileWord | .returnWord => true
  | _ => false

/-- Takes tokens up to a likely start of a statement. -/
def skipToStatement : Nat → Parser Unit
  | 0 => return
  | fuel + 1 => do
    if ← atEnd then return
    else if (← previous).kind = .semicolon then return
    else if startsStatement (← peek).kind then return
    else
      let _ ← advance
      skipToStatement fuel

/-- Goes to a likely start of a statement behind the token that caused an error. -/
def synchronize : Parser Unit := do
  let _ ← advance
  skipToStatement (← remaining)

/-- Declarations up to the end of the input, without those that were given up. -/
def programFrom (g : Nested) : Nat → State → List Stmt × State
  | 0, s => ([], s)
  | fuel + 1, s =>
    if (s.rest.headD .absent).kind = .eof then ([], s)
    else match declaration g s with
      | .ok stmt s' =>
        let (program, s'') := programFrom g fuel s'
        (stmt :: program, s'')
      | .error .bailout s' =>
        -- What was given up leaves no statement, but its errors and identities stay.
        match synchronize s' with
        | .ok _ s'' => programFrom g fuel s''
        | .error _ s'' => ([], s'')
      | .error .exhausted s' => ([], s')

end Parse

/-- A parsed source. -/
structure Parsed where
  /-- The declarations without errors that made the parse give them up. -/
  program : List Stmt
  /-- What was wrong, in source order. -/
  errors : List Parse.Error
  /-- The first node identity not used yet. -/
  nextId : NodeId

namespace Parse

/-- Parses tokens, with node identities from the given one on. -/
def tokens (ts : List Token) (nextId : NodeId) : Parsed :=
  let (program, s) := programFrom (nested (ts.length + 1)) ts.length { rest := ts, nextId }
  { program, errors := s.errors.reverse, nextId := s.nextId }

/-- Parses a source, with node identities from the given one on. -/
def source (src : String) (nextId : NodeId) : Parsed := tokens (Token.scanText src) nextId

end Parse

/-- Whether the input ended in the middle of a construct. -/
def Parsed.incomplete (p : Parsed) : Bool := p.errors.any Parse.Error.atEnd

end ClassScript
