import ClassScript.Proofs.Hierarchy.Height
import ClassScript.Proofs.Typing.Rollback

/-!
# Every search on the checker's classes comes to an end

A class type is within reach of a state if the state mentions it in the type of a function, a field,
a node or a name, or as an ancestor of one that it mentions. A state is grounded if the superclasses
within reach have no cycle, and so every search through them ends within as many generations as
there are classes. A closed state is, and so is every state that checks of programs lead to, those
that are rejected included.
-/

namespace ClassScript.Typing

namespace Checker

/-! ### What is within reach -/

/-- The types that a state mentions. -/
inductive Mentions (s : Checker) : Ty → Prop where
  /-- The type of a parameter. -/
  | param {f : SignatureId} {sig : Signature} {t : Ty} (h : s.signatures[f]? = some sig)
    (ht : t ∈ sig.paramTypes) : Mentions s t
  /-- The type of a result. -/
  | result {f : SignatureId} {sig : Signature} {t : Ty} (h : s.signatures[f]? = some sig)
    (ht : sig.returns = some t) : Mentions s t
  /-- The type of a result for a class of the first argument. -/
  | resultByArg {f : SignatureId} {sig : Signature} {p : String × Ty}
    (h : s.signatures[f]? = some sig) (hp : p ∈ sig.returnsByArg) : Mentions s p.2
  /-- The type of a field. -/
  | field {i : Nat} {b : ClassBody} {name : String} {t : Ty} (h : s.bodies[i]? = some b)
    (ht : b.attributes[name]? = some t) : Mentions s t
  /-- The type of a node. -/
  | node {id : NodeId} {t : Ty} (h : s.types[id]? = some t) : Mentions s t
  /-- The type of a global name. -/
  | global {name : String} {t : Ty} (h : s.globals[name]? = some (some t)) : Mentions s t
  /-- The type of a local name. -/
  | local {sc : StaticScope} {p : String × Option Ty} {t : Ty} (h : sc ∈ s.locals)
    (hp : p ∈ sc.vars) (ht : p.2 = some t) : Mentions s t
  /-- The type of a result of the function that is being checked. -/
  | returned {c : Context} {p : Ty × Token} (h : s.context = some c) (hp : p ∈ c.returns) :
    Mentions s p.1

/-- The class types within reach. -/
inductive HasClass (s : Checker) : ClassType → Prop where
  /-- A native class. -/
  | native (c : NativeClass) : HasClass s (nativeType c)
  /-- The class of a type of objects. -/
  | instance {c : ClassType} (h : s.Mentions (.instance c)) : HasClass s c
  /-- A class as a type. -/
  | class {c : ClassType} (h : s.Mentions (.class c)) : HasClass s c
  /-- The class around the function that is being checked. -/
  | enclosing {ctx : Context} {c : ClassType} (h : s.context = some ctx)
    (hc : ctx.class? = some c) : HasClass s c
  /-- An immediate superclass. -/
  | super {c d : ClassType} (h : HasClass s c) (hd : d ∈ c.supers) : HasClass s d

/-- One identity is that of an immediate superclass of a class type with another one. -/
def Inherits (s : Checker) (a b : Nat) : Prop :=
  ∃ c, s.HasClass c ∧ c.id = b ∧ ∃ d ∈ c.supers, d.id = a

/-- The names that a class and its superclasses declare, collected through at most a number of
generations. -/
def namesUpTo (s : Checker) : Nat → Bool → ClassType → Option (List String)
  | 0, _, _ => none
  | n + 1, withAttributes, c =>
    (c.supers.mapM (s.namesUpTo n (withAttributes && s.inheritsAttributes c))).map fun names =>
      s.ownNames c withAttributes ++ names.flatten

/-- A state on which every search through classes comes to an end. -/
structure Grounded (s : Checker) : Prop where
  /-- No class type within reach is, by identity, above itself. -/
  acyclic : WellFounded s.Inherits
  /-- A lookup of a method ends. -/
  lookupMethod : ∀ c name n, s.HasClass c → s.bodies.size ≤ n →
    s.methods.lookupUpTo name n c = some (s.methods.lookup name c)
  /-- A lookup of a method on superclasses ends. -/
  lookupSupers : ∀ cs name n, (∀ c ∈ cs, s.HasClass c) → s.bodies.size ≤ n →
    s.methods.lookupSupersUpTo name n cs = some (s.methods.lookupSupers name cs)
  /-- A lookup of a field ends. -/
  lookupAttribute : ∀ c name n, s.HasClass c → s.bodies.size ≤ n →
    s.attributes.lookupUpTo name n c = some (s.attributes.lookup name c)
  /-- The question whether a class inherits from another one is answered. -/
  subclassOf : ∀ c (other : ClassType) n, s.HasClass c → s.bodies.size ≤ n →
    inheritsUpTo ClassType.supers (fun c => c.id = other.id) n c =
      some (ClassType.subclassOf other c)
  /-- All names of a class and its superclasses are collected. -/
  names : ∀ c withAttributes n, s.HasClass c → s.bodies.size ≤ n →
    s.namesUpTo n withAttributes c = some (s.namesOf withAttributes c)

end Checker

/-! ### Classes and their ancestors -/

/-- A class is another one or has a superclass that inherits from it. -/
theorem ClassType.subclassOf_eq (other c : ClassType) :
    ClassType.subclassOf other c =
      (decide (c.id = other.id) || c.supers.any (ClassType.subclassOf other)) := by
  have hany : ∀ cs : List ClassType,
      ClassType.anySubclassOf other cs = cs.any (ClassType.subclassOf other) := by
    intro cs
    induction cs with
    | nil => rfl
    | cons c rest ih => rw [ClassType.anySubclassOf, ih, List.any_cons]
  obtain ⟨id, name, supers, native?⟩ := c
  rw [ClassType.subclassOf, hany]

/-- The names of a class are its own ones and those of its superclasses. -/
theorem Checker.namesOf_eq (s : Checker) (withAttributes : Bool) (c : ClassType) :
    s.namesOf withAttributes c = s.ownNames c withAttributes ++
      (c.supers.map (s.namesOf (withAttributes && s.inheritsAttributes c))).flatten := by
  have hall : ∀ (withAttributes : Bool) (cs : List ClassType),
      s.namesOfAll withAttributes cs = (cs.map (s.namesOf withAttributes)).flatten := by
    intro withAttributes cs
    induction cs with
    | nil => rfl
    | cons c rest ih => rw [Checker.namesOfAll, ih, List.map_cons, List.flatten_cons]
  obtain ⟨id, name, supers, native?⟩ := c
  rw [Checker.namesOf, hall]

/-- As many generations as there are above a class are enough for its names. -/
theorem Checker.namesUpTo_eq (s : Checker) {n : Nat} {c : ClassType}
    (hc : Height ClassType.supers n c) (withAttributes : Bool) :
    s.namesUpTo n withAttributes c = some (s.namesOf withAttributes c) := by
  induction hc generalizing withAttributes with
  | @mk n c _ ih => rw [namesUpTo, namesOf_eq, mapM_eq_some fun d hd => ih d hd _, Option.map_some]

/-- The superclass of a native class comes before it in their order, and has none itself. -/
theorem super_nativeType {c : NativeClass} {d : ClassType} (hd : d ∈ (nativeType c).supers) :
    d.id < nativeId c ∧ ∃ p, d = nativeType p := by
  cases c <;> simp [nativeType, NativeClass.parent?] at hd <;> subst hd <;>
    exact ⟨by decide, .number, rfl⟩

namespace ClassType.Within

variable {n : Nat} {c : ClassType}

/-- The superclasses of a class that exists do. -/
theorem supers (h : c.Within n) : ∀ d ∈ c.supers, d.Within n := by
  cases h with
  | native c =>
    intro d hd
    obtain ⟨-, p, rfl⟩ := super_nativeType hd
    exact .native p
  | mk _ _ hs => exact hs

/-- The superclasses of a class are older. -/
theorem older (h : c.Within n) : ∀ d ∈ c.supers, d.id < c.id := by
  cases h with
  | native c => exact fun d hd => (super_nativeType hd).1
  | mk _ older _ => exact older

/-- There are fewer generations above a class than there are classes. -/
theorem height (h : c.Within n) (hn : NativeClass.all.length ≤ n) {k : Nat} (hk : n ≤ k) :
    Height ClassType.supers k c := by
  have hlt : c.id < n := by
    cases h with
    | native c =>
      have hc : nativeId c < NativeClass.all.length :=
        List.idxOf_lt_length_iff.2 (by cases c <;> decide)
      exact Nat.lt_of_lt_of_le hc hn
    | mk hid _ _ => exact hid
  exact Height.of_descends ClassType.id (fun _ hc d hd => ⟨hc.supers d hd, hc.older d hd⟩) h
    (Nat.lt_of_lt_of_le hlt hk)

end ClassType.Within

/-! ### Closed states are grounded -/

namespace Closed

variable {base e : Extent} {s : Checker}

/-- A closed state mentions only types that exist. -/
theorem mentions (h : Closed base e s) {t : Ty} (ht : s.Mentions t) : t.Within e := by
  cases ht with
  | param hf ht => exact (h.signatures _ _ hf).paramTypes _ ht
  | result hf ht => exact (h.signatures _ _ hf).returns _ ht
  | resultByArg hf hp => exact (h.signatures _ _ hf).returnsByArg _ hp
  | field hb ht => exact (h.bodies _ _ hb).attributes _ _ ht
  | node ht => exact h.types _ _ ht
  | global ht => exact h.globals _ _ ht
  | «local» hsc hp ht => exact h.locals _ hsc _ hp _ ht
  | returned hc hp => exact (h.context _ hc).returns _ hp

/-- A class within reach exists, and so do its superclasses, each older than the class. -/
theorem hasClass (h : Closed base e s) {c : ClassType} (hc : s.HasClass c) :
    c.Within e.classes := by
  induction hc with
  | native c => exact .native c
  | «instance» ht => exact h.mentions ht
  | «class» ht => exact h.mentions ht
  | enclosing hctx hc => exact (h.context _ hctx).class? _ hc
  | super _ hd ih => exact ih.supers _ hd

/-- Every search on a closed state ends, since superclasses are older than the class. -/
theorem grounded (h : Closed base s.extent s) (hn : NativeClass.all.length ≤ s.bodies.size) :
    s.Grounded := by
  have height : ∀ {c n}, s.HasClass c → s.bodies.size ≤ n → Height ClassType.supers n c :=
    fun hc => (h.hasClass hc).height hn
  refine ⟨?_, fun c name n hc hk => ?_, fun cs name n hcs hk => ?_, fun c name n hc hk => ?_,
    fun c other n hc hk => ?_, fun c withAttributes n hc hk => ?_⟩
  · refine Subrelation.wf (r := (· < ·)) ?_ Nat.lt_wfRel.wf
    rintro _ _ ⟨c, hc, rfl, d, hd, rfl⟩
    exact (h.hasClass hc).older d hd
  · exact Hierarchy.lookupUpTo_eq (height hc hk)
  · exact Hierarchy.lookupSupersUpTo_eq fun c hc => height (hcs c hc) hk
  · -- Fields are not inherited from all superclasses.
    refine Hierarchy.lookupUpTo_eq ((height hc hk).subset fun c => ?_)
    show s.attributeSupers c ⊆ c.supers
    unfold Checker.attributeSupers
    split
    · exact List.Subset.refl _
    · exact List.nil_subset _
  · exact inheritsUpTo_eq (ClassType.subclassOf_eq other) (height hc hk)
  · exact s.namesUpTo_eq (height hc hk) withAttributes

end Closed

/-- A state between programs is grounded, and so is the state that a check of a further program ends
in before anything is put back. -/
theorem Checker.Reachable.grounded {s : Checker} (h : s.Reachable) :
    s.Grounded ∧ ∀ program, ((Check.stmts program).final s.idle).Grounded := by
  obtain ⟨hclosed, hnatives⟩ := h.closed
  constructor
  · -- A new checker, or one that has checked a program.
    cases h with
    | seeded globals =>
      exact Closed.grounded (closed_seeds globals closed_natives) hnatives
    | checked h program =>
      obtain ⟨hchecked, -⟩ := closed_check h.closed.1 program
      exact hchecked.grounded hnatives
  · intro program
    obtain ⟨hfinal, hkeeps⟩ :=
      (Check.closes_stmts s.extent program).state s.idle hclosed (le_refl _)
    exact hfinal.grounded (Nat.le_trans hnatives hkeeps.extent.2)

end ClassScript.Typing
