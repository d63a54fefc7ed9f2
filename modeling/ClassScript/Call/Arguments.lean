import ClassScript.Call.Arity

/-!
# Matching arguments to parameters

Positional arguments fill the parameters from left to right and a variadic last parameter
collects the rest; named arguments fill the parameters of their name. Every argument ends up in
one place, and a parameter without an argument needs a default.
-/

namespace ClassScript

/-- What can be wrong with the arguments of a call. -/
inductive Mismatch where
  /-- There are too few or too many. -/
  | count (arity : Arity) (given : Nat)
  /-- No parameter has the name. -/
  | unknown (name : String)
  /-- The parameter of the name is variadic. -/
  | variadicByName (name : String)
  /-- The parameter of the name has an argument already. -/
  | twice (name : String)
  /-- A required parameter has no argument. -/
  | missing (name : String)
deriving DecidableEq

/-- A mismatch in words. -/
def Mismatch.message : Mismatch → String
  | count arity given => s!"Expected {arity.text} arguments but got {given}."
  | unknown name => "Unknown parameter '" ++ name ++ "'."
  | variadicByName name => "Can't pass variadic parameter '" ++ name ++ "' by name."
  | twice name => "Parameter '" ++ name ++ "' given twice."
  | missing name => "Missing argument for parameter '" ++ name ++ "'."

/-- What a parameter receives. -/
inductive Slot (α : Type) where
  /-- Nothing: its default applies. -/
  | omitted
  /-- One argument. -/
  | given (value : α)
  /-- The arguments that a variadic parameter collects. -/
  | collected (values : List α)

namespace Slot

variable {α : Type}

/-- Whether a parameter receives nothing. -/
def isOmitted : Slot α → Bool
  | omitted => true
  | _ => false

/-- The slots of the parameters after the positional arguments. -/
def ofPositional (params : List Param) (positional : List α) : List (Slot α) :=
  let fixed := fixedCount params
  let filled := (positional.take fixed).map given
  let padding := List.replicate (fixed - filled.length) omitted
  filled ++ padding ++ if Arity.isVariadic params then [collected (positional.drop fixed)] else []

/-- Fills the slot of a named argument. -/
def fill (params : List Param) (slots : List (Slot α)) (name : String) (value : α) :
    Except Mismatch (List (Slot α)) :=
  match params.findIdx? (·.name.lexeme = name) with
  | none => .error (.unknown name)
  | some i =>
    if params[i]?.any (·.variadic) then .error (.variadicByName name)
    else if slots[i]?.all isOmitted then .ok (slots.set i (given value))
    else .error (.twice name)

/-- The first parameter that needs an argument and receives none. -/
def missing? (params : List Param) (slots : List (Slot α)) : Option Param :=
  (((params.zip slots).take (fixedCount params)).find? fun (p, s) =>
    s.isOmitted && p.defaultValue.isNone).map Prod.fst

/-- Matches arguments to parameters. -/
def ofArguments (params : List Param) (positional : List α) (named : List (String × α)) :
    Except Mismatch (List (Slot α)) := do
  let slots ← named.foldlM (fun slots (name, value) => fill params slots name value)
    (ofPositional params positional)
  match missing? params slots with
  | some p => .error (.missing p.name.lexeme)
  | none => return slots

/-- Where the named arguments find their slots, the first missing argument decides. -/
theorem ofArguments_of_filled {params : List Param} {positional : List α}
    {named : List (String × α)} {slots : List (Slot α)}
    (h : named.foldlM (fun slots (name, value) => fill params slots name value)
      (ofPositional params positional) = .ok slots) :
    ofArguments params positional named =
      match missing? params slots with
      | some p => .error (.missing p.name.lexeme)
      | none => .ok slots := by
  unfold ofArguments
  rw [h]
  rfl

/-- The first named argument without a slot fails the call. -/
theorem ofArguments_of_unfilled {params : List Param} {positional : List α}
    {named : List (String × α)} {m : Mismatch}
    (h : named.foldlM (fun slots (name, value) => fill params slots name value)
      (ofPositional params positional) = .error m) :
    ofArguments params positional named = .error m := by
  unfold ofArguments
  rw [h]
  rfl

/-- Matches arguments to parameters, if their number is right. -/
def ofCall (params : List Param) (positional : List α) (named : List (String × α)) :
    Except Mismatch (List (Slot α)) :=
  let arity := Arity.ofParams params
  let count := positional.length + named.length
  if arity.admits count then ofArguments params positional named else .error (.count arity count)

end Slot

end ClassScript
