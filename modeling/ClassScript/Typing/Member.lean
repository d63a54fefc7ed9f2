import ClassScript.Typing.Relation

/-!
# Members of types

Methods are inherited by the rule of the language. Fields are inherited only from superclasses
whose initializer runs: a class with an initializer of its own has the fields of its superclasses
if that initializer uses them.
-/

namespace ClassScript.Typing

namespace Checker

/-- What is known of the members of a class. -/
def body (s : Checker) (c : ClassType) : ClassBody := s.bodies[c.id]?.getD default

/-- The lookup of methods. -/
def methods (s : Checker) : Hierarchy ClassType SignatureId where
  own c name := (s.body c).members[name]?
  supers := ClassType.supers
  name := ClassType.name
  acyclic := ClassType.acyclic

/-- Whether the objects of a class have the fields of its superclasses. -/
def inheritsAttributes (s : Checker) (c : ClassType) : Bool :=
  match (s.body c).members["init"]? with
  | none => true
  | some init => (s.signature init).callsSuper

/-- The superclasses whose fields the objects of a class have. -/
def attributeSupers (s : Checker) (c : ClassType) : List ClassType :=
  if s.inheritsAttributes c then c.supers else []

/-- No class has the fields of itself through its superclasses. -/
theorem acyclic_attributeSupers (s : Checker) :
    WellFounded fun a c : ClassType => a ∈ s.attributeSupers c := by
  refine Subrelation.wf ?_ ClassType.acyclic
  intro a c h
  unfold attributeSupers at h
  split at h
  · exact h
  · simp at h

/-- The lookup of fields. -/
def attributes (s : Checker) : Hierarchy ClassType Ty where
  own c name := (s.body c).attributes[name]?
  supers := s.attributeSupers
  name := ClassType.name
  acyclic := s.acyclic_attributeSupers

/-- The names that a class declares itself, with or without its fields. -/
def ownNames (s : Checker) (c : ClassType) (withAttributes : Bool) : List String :=
  let native := match c.native? with
    | some n => n.methods.map (·.name) ++ n.properties.map (·.name)
    | none => []
  native ++ (s.body c).members.keys ++ if withAttributes then (s.body c).attributes.keys else []

mutual

/-- The names that a class and its superclasses declare. -/
def namesOf (s : Checker) (withAttributes : Bool) : ClassType → List String
  | ⟨id, name, supers, native?⟩ =>
    let c : ClassType := ⟨id, name, supers, native?⟩
    s.ownNames c withAttributes ++ s.namesOfAll (withAttributes && s.inheritsAttributes c) supers

/-- The names that several classes and their superclasses declare. -/
def namesOfAll (s : Checker) (withAttributes : Bool) : List ClassType → List String
  | [] => []
  | c :: rest => s.namesOf withAttributes c ++ s.namesOfAll withAttributes rest

end

/-- The names of the members of a value, in order; those of every object are among them. -/
def memberNames (s : Checker) (t : Option Ty) : List String :=
  let declared := match t with
    | some (.instance c) => s.namesOf true c
    | _ => []
  let all := NativeClass.object.methods.map (·.name) ++ declared
  (all.foldl (fun acc name => acc.insert name ()) (∅ : Std.TreeMap String Unit)).keys

end Checker

end ClassScript.Typing
