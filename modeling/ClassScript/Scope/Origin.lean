import ClassScript.Syntax.Basic

/-!
# Origins of scopes

A scope belongs to one place in the syntax: static scopes are opened when the place is analysed,
run-time scopes when it is executed.
-/

namespace ClassScript.Scope

/-- The syntax that opens a scope. -/
inductive Origin where
  /-- The outermost scope. -/
  | globals
  /-- A block. -/
  | block (id : NodeId)
  /-- A function, for its parameters and body. -/
  | call (id : NodeId)
  /-- A loop over elements, for its variable. -/
  | loop (id : NodeId)
  /-- A class, for its superclasses. -/
  | supers (id : NodeId)
  /-- A class, for the receiver of its methods. -/
  | receiver (id : NodeId)
deriving DecidableEq, Inhabited

end ClassScript.Scope
