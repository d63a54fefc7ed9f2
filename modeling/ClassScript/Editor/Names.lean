import ClassScript.Editor.Position
import ClassScript.Syntax.Nodes

/-!
# Names in a document

Where a program declares names, and where it uses them. Both go by the spelling alone.
-/

namespace ClassScript

/-- The names that a node itself declares. -/
def Node.declaredNames : Node → List Token
  | .stmt (.classDecl _ name _ _) => [name]
  | .expr (.lambda fn) => fn.name.toList ++ fn.params.map (·.name)
  | .stmt (.varDecl _ name _) => [name]
  | .stmt (.forIn _ _ name _ _) => [name]
  | _ => []

/-- The names that a node itself uses. -/
def Node.usedNames : Node → List Token
  | .expr (.var use) => [use.name]
  | .expr (.assign _ name _) => [name]
  | .expr (.get _ _ name) => [name]
  | .expr (.set _ _ name _) => [name]
  | .expr (.super _ _ method) => method.toList
  | .expr (.call _ _ _ _ named) => named.map (·.name)
  | _ => []

namespace Editor

/-- All names that a program declares. -/
def allDeclarations (program : List Stmt) : List Token :=
  (allNodes program).flatMap Node.declaredNames

/-- The places where a program declares a name. Every declaration goes with the empty name. -/
def declarations (program : List Stmt) (name : String) : List Token :=
  (allDeclarations program).filter fun t => name = "" || t.lexeme = name

/-- Every declaration goes with the empty name. -/
@[simp] theorem declarations_empty (program : List Stmt) :
    declarations program "" = allDeclarations program := by
  simp [declarations]

/-- Only the declarations of that name go with any other name. -/
theorem declarations_of_ne {name : String} (hname : name ≠ "") (program : List Stmt) :
    declarations program name = (allDeclarations program).filter (·.lexeme = name) := by
  simp [declarations, hname]

/-- Whether a token does not stand behind another one. -/
def inSourceOrder (a b : Token) : Bool :=
  a.line < b.line || (a.line = b.line && a.column ≤ b.column)

/-- The places where a program uses a name and, if asked for, declares it, in source order. -/
def references (program : List Stmt) (name : String) (withDeclarations : Bool) : List Token :=
  let uses := ((allNodes program).flatMap Node.usedNames).filter (·.lexeme = name)
  let all := if withDeclarations then uses ++ declarations program name else uses
  all.mergeSort inSourceOrder

/-- The locations of tokens in a document. -/
def locations (uri : String) (tokens : List Token) : List Location :=
  tokens.map fun t => { uri, range := .ofToken t }

end Editor

end ClassScript
