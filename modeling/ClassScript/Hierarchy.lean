/-!
# Member lookup under multiple inheritance

A member declared by a class itself wins. Otherwise the superclass branch with the nearest
declaration wins, and two branches that are equally near make the lookup ambiguous, even when
both lead to the same declaration.
-/

namespace ClassScript

/-- The outcome of a member lookup. -/
inductive Lookup (M : Type) where
  /-- No class declares the member. -/
  | absent
  /-- The member, with the number of inheritance steps to its declaration. -/
  | found (member : M) (depth : Nat)
  /-- Several branches are equally near; their names in declaration order. -/
  | ambiguous (branches : List String)

namespace Lookup

variable {M : Type}

/-- The branches of an ambiguous outcome. -/
def conflict? : Lookup M → Option (List String)
  | ambiguous branches => some branches
  | _ => none

/-- The member and depth of a successful outcome. -/
def hit? : Lookup M → Option (M × Nat)
  | found member depth => some (member, depth)
  | _ => none

/-- A member that was found in a branch, with the name of the branch. -/
structure Hit (M : Type) where
  /-- The name of the branch. -/
  branch : String
  /-- The member. -/
  member : M
  /-- The number of steps from the branch to the declaration. -/
  depth : Nat

/-- The outcome of a class without a declaration of its own, from the outcomes of its branches:
an ambiguity inside a branch is final, and a single nearest hit wins. -/
def merge (branches : List (String × Lookup M)) : Lookup M :=
  match branches.findSome? (·.2.conflict?) with
  | some names => .ambiguous names
  | none =>
    let hits : List (Hit M) := branches.filterMap fun b => b.2.hit?.map fun h => ⟨b.1, h.1, h.2⟩
    match (hits.map Hit.depth).min? with
    | none => .absent
    | some least =>
      match hits.filter (·.depth = least) with
      | [hit] => .found hit.member (least + 1)
      | tied => .ambiguous (tied.map Hit.branch)

/-- The text of a list of names: commas between them, and a word before the last. -/
def joinNames : List String → String
  | [] => "several superclasses"
  | [name] => name
  | names => String.intercalate ", " names.dropLast ++ " and " ++ names.getLast?.getD ""

/-- The text of an ambiguity. -/
def ambiguityText (name : String) (branches : List String) : String :=
  "Ambiguous method '" ++ name ++ "': inherited through " ++ joinNames branches ++ "."

end Lookup

/-- A class graph without cycles. -/
structure Hierarchy (C M : Type) where
  /-- The member a class declares itself. -/
  own : C → String → Option M
  /-- The immediate superclasses in declaration order. -/
  supers : C → List C
  /-- The name of a class. -/
  name : C → String
  /-- No chain of superclasses goes on for ever. -/
  acyclic : WellFounded fun s c => s ∈ supers c

namespace Hierarchy

variable {C M : Type}

/-- Looks a member up on a class. -/
def lookup (h : Hierarchy C M) (member : String) (c : C) : Lookup M :=
  match h.own c member with
  | some m => .found m 0
  | none => .merge ((h.supers c).attach.map fun ⟨s, _⟩ => (h.name s, h.lookup member s))
termination_by h.acyclic.wrap c
decreasing_by assumption

/-- Looks a member up on superclasses alone. -/
def lookupSupers (h : Hierarchy C M) (member : String) (supers : List C) : Lookup M :=
  .merge (supers.map fun s => (h.name s, h.lookup member s))

end Hierarchy

/-- A class with its ancestors, by name. -/
inductive Lineage where
  /-- A class with the members it declares and its superclasses. -/
  | mk (name : String) (own : List String) (supers : List Lineage)

namespace Lineage

/-- The name of the class. -/
def name : Lineage → String
  | mk name _ _ => name

/-- The members the class declares. -/
def own : Lineage → List String
  | mk _ own _ => own

/-- The immediate superclasses. -/
def supers : Lineage → List Lineage
  | mk _ _ supers => supers

/-- No lineage is among its own ancestors. -/
theorem acyclic : WellFounded fun s c : Lineage => s ∈ c.supers := by
  refine Subrelation.wf (r := InvImage (· < ·) sizeOf) ?_ (InvImage.wf _ Nat.lt_wfRel.wf)
  intro s c h
  cases c
  have := List.sizeOf_lt_of_mem h
  simp only [InvImage, mk.sizeOf_spec]
  simp only [supers] at this
  omega

/-- Lineages with their members, each shown with the class that declares it. -/
def hierarchy : Hierarchy Lineage String where
  own c member := if c.own.contains member then some (c.name ++ "." ++ member) else none
  supers := supers
  name := name
  acyclic := acyclic

/-- A class as it is declared: a name, the names of the superclasses and the members. -/
structure Declaration where
  /-- The name. -/
  name : String
  /-- The names of the superclasses. -/
  supers : List String
  /-- The members. -/
  own : List String

/-- The lineage of a declared class, followed upward for a number of generations. Of several
declarations with one name the last one counts. -/
def ofDeclarations (declarations : List Declaration) : Nat → String → Option Lineage
  | 0, _ => none
  | generations + 1, name => do
    let d ← declarations.reverse.find? (·.name = name)
    return mk d.name d.own (d.supers.filterMap (ofDeclarations declarations generations))

end Lineage

end ClassScript
