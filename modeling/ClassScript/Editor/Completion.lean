import ClassScript.Editor.Names
import ClassScript.Editor.Word
import ClassScript.Session
import ClassScript.Text.Case

/-!
# Completion

What a word that is being typed can become. Behind a dot these are the members of the value in
front of it; elsewhere they are the global names, the names that the document declares and the
reserved words. Case does not matter.
-/

namespace ClassScript.Editor

/-- What a proposal stands for. -/
inductive ProposalKind where
  /-- A member of a value. -/
  | member
  /-- A function. -/
  | function
  /-- Any other value. -/
  | value
  /-- A class. -/
  | classValue
  /-- A reserved word. -/
  | keyword
deriving DecidableEq, Inhabited

/-- The number of a kind in the protocol of editors. -/
def ProposalKind.code : ProposalKind → Nat
  | member => 2
  | function => 3
  | value => 6
  | classValue => 7
  | keyword => 14

/-- The kind of a name of some type. -/
def ProposalKind.ofType : Option Typing.Ty → ProposalKind
  | some (.class _) => .classValue
  | some (.function _) => .function
  | _ => .value

/-- What a word can become. -/
structure Proposal where
  /-- The word. -/
  label : String
  /-- What the word stands for. -/
  kind : ProposalKind
  /-- More about it. -/
  detail : String
deriving DecidableEq, Inhabited

/-- The greatest number of proposals, members apart. -/
def proposalLimit : Nat := 100

/-- Whether a word starts like a fragment, whatever the case of both. -/
def startsLike (fragment word : String) : Bool :=
  (Text.lower fragment).toList.isPrefixOf (Text.lower word).toList

/-- The type of the node if it is a variable of a given name. -/
def variableType? (c : Typing.Checker) (name : String) (n : Node) : Option Typing.Ty :=
  let typeIf (t : Token) : Option Typing.Ty := if t.lexeme = name then c.types[n.id]? else none
  match n with
  | .expr (.var use) => typeIf use.name
  | .stmt (.varDecl _ t _) => typeIf t
  | .expr (.assign _ t _) => typeIf t
  | _ => none

/-- The type of a variable: where it last has one, or that of the global name. -/
def typeOfName (a : Analysis) (name : String) : Option Typing.Ty :=
  ((allNodes a.program).filterMap (variableType? a.checker name)).getLast?
    <|> (a.checker.lookup? name).join

/-- A member of a value with a type. There is none if the text of the type has no end. -/
def memberProposal? (c : Typing.Checker) (t : Option Typing.Ty) (label : String) :
    Option Proposal :=
  (c.typeText? t).map fun detail => { label, kind := .member, detail }

/-- The members of a value with a type. -/
def memberProposals? (c : Typing.Checker) (t : Option Typing.Ty) : Option (List Proposal) :=
  (c.memberNames t).mapM (memberProposal? c t)

/-- A global name with its type. There is none if the text of the type has no end. -/
def globalProposal? (c : Typing.Checker) : String × Option Typing.Ty → Option Proposal
  | (label, t) => (c.typeText? t).map fun detail => { label, kind := .ofType t, detail }

/-- The global names. -/
def globalProposals? (c : Typing.Checker) : Option (List Proposal) :=
  c.globals.toList.mapM (globalProposal? c)

/-- The names that a document declares and that are not global. -/
def localProposals (a : Analysis) : List Proposal :=
  (((declarations a.program "").map (·.lexeme)).filter fun name =>
      (a.checker.lookup? name).isNone).eraseDups.map
    fun label => { label, kind := .value, detail := "local" }

/-- The reserved words. -/
def keywordProposals : List Proposal :=
  Token.Kind.keywords.map fun k => { label := k.name, kind := .keyword, detail := "keyword" }

/-- Of all proposals those that start like a fragment, by their words and not too many. -/
def choose (fragment : String) (all : List Proposal) : List Proposal :=
  ((all.filter fun p => startsLike fragment p.label).mergeSort
    fun a b => decide (a.label ≤ b.label)).take proposalLimit

/-- The proposals at a place. All of them are made before any is left out, so there is no answer if
the text of one type has no end. -/
def complete? (a : Analysis) (text : String) (p : Position) : Option (List Proposal) :=
  let fragment := fragmentAt text p
  let receiver := receiverAt text p
  -- Members come in their own order and without a limit.
  if !receiver.isEmpty then
    (memberProposals? a.checker (typeOfName a receiver)).map
      (·.filter fun m => startsLike fragment m.label)
  else if fragment.isEmpty then some []
  else (globalProposals? a.checker).map fun globals =>
    choose fragment (globals ++ localProposals a ++ keywordProposals)

end ClassScript.Editor
