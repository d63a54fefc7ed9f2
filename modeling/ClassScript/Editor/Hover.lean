import ClassScript.Editor.Word
import ClassScript.Session
import ClassScript.Syntax.Nodes
import ClassScript.Syntax.Printer

/-!
# Hovering

What an editor shows about the place under the pointer: the type of the node there or, where there
is no node, that of the global name.
-/

namespace ClassScript

/-- Whether a node tells an editor nothing that the nodes below it do not tell better. -/
def Node.isStructural : Node → Bool
  | .expr (.call ..) | .expr (.group ..) | .expr (.list ..) | .stmt (.block ..) | .stmt (.expr ..)
  | .stmt (.ifElse ..) | .stmt (.whileLoop ..) | .stmt (.ret ..) => true
  | _ => false

/-- The source text that a node stands for. -/
def Node.label : Node → String
  | .expr (.binary id left op right) => (Expr.binary id left op right).form
  | .expr (.super id keyword method) => (Expr.super id keyword method).form
  | .stmt (.function _ fn) => fn.title
  | .expr (.lambda fn) => fn.title
  | n => n.token.lexeme

namespace Editor

/-- The innermost node at a place that has a type, or the innermost one of all. -/
def nodeAt? (a : Analysis) (p : Position) : Option Node :=
  let covering := (allNodes a.program).filter fun n => !n.isStructural && p.touches n.token
  (covering.filter fun n => (a.checker.types[n.id]?).isSome).getLast? <|> covering.getLast?

/-- A label with a type, if there is something at a place. -/
def subjectAt? (a : Analysis) (text : String) (p : Position) :
    Option (String × Option Typing.Ty) :=
  match nodeAt? a p with
  | some n => some (n.label, a.checker.types[n.id]?)
  | none =>
    let word := wordAt text p
    if word.isEmpty then none else (a.checker.lookup? word).map (word, ·)

/-- A type in words, unless these have no end; a class comes with its superclasses. -/
def describeType? (c : Typing.Checker) (t : Option Typing.Ty) : Option String :=
  (c.typeText? t).map fun text =>
    match t with
    | some (.class ⟨_, _, s :: rest, _⟩) =>
      text ++ " < " ++ String.intercalate ", " ((s :: rest).map (·.name))
    | _ => text

/-- The members of the objects of a class that is not native. -/
def shownMembers (c : Typing.Checker) (t : Option Typing.Ty) : List String :=
  match t with
  | some (.instance ⟨_, _, _, none⟩) => c.memberNames t
  | _ => []

/-- A label with a type, in Markdown, unless the text of the type has no end. -/
def card? (c : Typing.Checker) (label : String) (t : Option Typing.Ty) : Option String :=
  (describeType? c t).map fun type =>
    let members := shownMembers c t
    "```kestrel\n" ++ label ++ ": " ++ type ++ "\n```"
      ++ if members.isEmpty then ""
        else "\n\nMembers: `" ++ String.intercalate "`, `" members ++ "`"

/-- What is shown about a place, which can be nothing. There is no answer if the text of the type
there has no end. -/
def hover? (a : Analysis) (text : String) (p : Position) : Option (Option String) :=
  match subjectAt? a text p with
  | some (label, t) => (card? a.checker label t).map some
  | none => some none

end Editor

end ClassScript
