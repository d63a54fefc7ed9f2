import ClassScript.Decimal.Text
import ClassScript.Syntax.Basic

/-!
# Trees as text

A tree is written as nested forms in parentheses, each with its operator or keyword first.
-/

namespace ClassScript

/-- A constant as it is written in a form. -/
def Literal.form : Literal → String
  | .nil => "nil"
  | .bool b => if b then "true" else "false"
  | .int n => toString n.toInt
  | .float x => Decimal.compactText x
  | .string s => Text.quote s

mutual

/-- An expression as a form. -/
def Expr.form : Expr → String
  | .assign _ name value => "(= " ++ name.lexeme ++ " " ++ value.form ++ ")"
  | .binary _ left op right => "(" ++ op.lexeme ++ " " ++ left.form ++ " " ++ right.form ++ ")"
  | .call _ callee _ args named =>
    "(call " ++ callee.form ++ Expr.forms args ++ NamedArg.forms named ++ ")"
  | .get _ object name => "(. " ++ object.form ++ " " ++ name.lexeme ++ ")"
  | .set _ object name value =>
    "(.= " ++ object.form ++ " " ++ name.lexeme ++ " " ++ value.form ++ ")"
  | .group _ _ inner => "(group " ++ inner.form ++ ")"
  | .literal _ _ value => value.form
  | .list _ _ elements => "(list" ++ Expr.forms elements ++ ")"
  | .logical _ left op right => "(" ++ op.lexeme ++ " " ++ left.form ++ " " ++ right.form ++ ")"
  | .self _ _ => "self"
  | .super _ _ none => "super"
  | .super _ _ (some method) => "super." ++ method.lexeme
  | .unary _ op right => "(" ++ op.lexeme ++ " " ++ right.form ++ ")"
  | .var use => use.name.lexeme
  | .lambda fn => fn.form

/-- Expressions as forms, each behind a blank. -/
def Expr.forms : List Expr → String
  | [] => ""
  | e :: rest => " " ++ e.form ++ Expr.forms rest

/-- Named arguments as forms, each behind a blank. -/
def NamedArg.forms : List NamedArg → String
  | [] => ""
  | ⟨name, value⟩ :: rest => " " ++ name.lexeme ++ ":" ++ value.form ++ NamedArg.forms rest

/-- A parameter as a form. -/
def Param.form : Param → String
  | ⟨type, name, none, variadic⟩ =>
    (if variadic then "..." else "") ++ name.lexeme ++ ":" ++ type.lexeme
  | ⟨type, name, some value, variadic⟩ =>
    (if variadic then "..." else "") ++ name.lexeme ++ ":" ++ type.lexeme ++ "=" ++ value.form

/-- Parameters as forms with blanks between them. -/
def Param.forms : List Param → String
  | [] => ""
  | [p] => p.form
  | p :: rest => p.form ++ " " ++ Param.forms rest

/-- A function as a form. -/
def Lambda.form : Lambda → String
  | ⟨_, _, name, params, body⟩ =>
    "(fun " ++ (name.map Token.lexeme).getD "lambda" ++ " (" ++ Param.forms params ++ ")"
      ++ Stmt.forms body ++ ")"

/-- Methods as forms, each behind a blank. -/
def Lambda.forms : List Lambda → String
  | [] => ""
  | fn :: rest => " " ++ fn.form ++ Lambda.forms rest

/-- A block as a form. -/
def Block.form : Block → String
  | ⟨_, _, body⟩ => "(block" ++ Stmt.forms body ++ ")"

/-- A statement as a form. -/
def Stmt.form : Stmt → String
  | .block b => b.form
  | .classDecl _ name supers methods =>
    "(class " ++ name.lexeme ++ String.join (supers.map fun s => " <" ++ s.name.lexeme)
      ++ Lambda.forms methods ++ ")"
  | .expr _ value => value.form
  | .function _ fn => fn.form
  | .ifElse _ _ condition body none => "(if " ++ condition.form ++ " " ++ body.form ++ ")"
  | .ifElse _ _ condition body (some otherwise) =>
    "(if " ++ condition.form ++ " " ++ body.form ++ " " ++ otherwise.form ++ ")"
  | .forIn _ _ name iterable body =>
    "(for " ++ name.lexeme ++ " " ++ iterable.form ++ " " ++ body.form ++ ")"
  | .ret _ _ none => "(return)"
  | .ret _ _ (some value) => "(return " ++ value.form ++ ")"
  | .varDecl _ name none => "(var " ++ name.lexeme ++ ")"
  | .varDecl _ name (some value) => "(var " ++ name.lexeme ++ " " ++ value.form ++ ")"
  | .whileLoop _ _ condition body => "(while " ++ condition.form ++ " " ++ body.form ++ ")"

/-- Statements as forms, each behind a blank. -/
def Stmt.forms : List Stmt → String
  | [] => ""
  | s :: rest => " " ++ s.form ++ Stmt.forms rest

end

end ClassScript
