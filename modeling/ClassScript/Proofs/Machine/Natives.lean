import ClassScript.Proofs.Machine.Handed
import ClassScript.Proofs.Machine.Meets

/-!
# Native code makes no functions

Members and native code hand on the functions that they are given, and call them back. Whatever
condition the functions of a machine meet, the results meet it too: native code does so in every
regime, and a receiver changes nothing about a method that a condition is on. The only thing left to
ask of two engines is that they call values alike.
-/

namespace ClassScript

open Exec (Stays Supplies Runs)

variable {P : Condition} {home : String}

/-! ### Steps on the store -/

namespace Exec

/-- A new identity keeps the condition. -/
theorem runs_freshId : Runs P home freshId freshId := stays_iff.2 fun _ => abides_freshId

/-- So does a new scope, which binds nothing. -/
theorem runs_newScope (origin : Scope.Origin) (parent : ScopeId) :
    Runs P home (newScope origin parent) (newScope origin parent) :=
  .allocate fun _ hs => ⟨hs.pushScope .., trivial⟩

/-- So does a binding of a value that meets it. -/
theorem runs_define (scope : ScopeId) (name : String) {v : Value} (hv : v.Meets P) :
    Runs P home (define scope name v) (define scope name v) :=
  .update fun _ hs => ⟨(hs.assign scope name hv).bindings, { hs.contents with }⟩

/-- So does one in the current scope. -/
theorem runs_defineHere (name : String) {v : Value} (hv : v.Meets P) :
    Runs P home (defineHere name v) (defineHere name v) :=
  .getBind fun _ _ => runs_define _ name hv

/-- The innermost call refers to the method that it is known to refer to. -/
theorem stays_home : Stays P home Exec.home Exec.home (· = home) :=
  .getBind fun _ hm => .pure hm.home

end Exec

/-! ### Members -/

namespace Class

variable {name : String} {fn : Closure} {depth : Nat}

namespace Meets

variable {c : Class}

/-- The superclasses of a class meet the condition with it. -/
theorem supers (h : c.Meets P) : ∀ s ∈ c.supers, s.Meets P := by
  cases h with
  | mk supers _ => exact supers

/-- So do its methods. -/
theorem methods (h : c.Meets P) : ∀ p ∈ c.methods, p.2.Meets P := by
  cases h with
  | mk _ methods => exact methods

/-- A method that is found is a method of the class or of a superclass. -/
theorem lookup (h : c.Meets P) (hl : c.lookup name = .found fn depth) : fn.Meets P :=
  have ⟨_, hc, hfn⟩ := method_of_lookup (fun _ hc => hc.supers) h hl
  hc.methods _ hfn

end Meets

/-- So does a method that is found on superclasses. -/
theorem lookupSupers_meets {supers : List Class} (h : ∀ c ∈ supers, c.Meets P)
    (hl : hierarchy.lookupSupers name supers = .found fn depth) : fn.Meets P :=
  have ⟨_, hc, hfn⟩ := method_of_lookupSupers (fun _ hc => hc.supers) h hl
  hc.methods _ hfn

end Class

/-- A receiver changes neither the declaration of a method nor what the method refers to. -/
theorem Closure.stays_bind {fn : Closure} {receiver : Value} (hfn : fn.Meets P)
    (hr : receiver.Meets P) :
    Stays P home (fn.bind receiver) (fn.bind receiver) (Closure.Meets P) :=
  .readBind fun _ _ => (Exec.runs_newScope ..).bind fun _ _ =>
    (Exec.runs_define _ "self" hr).bind fun _ _ => Exec.runs_freshId.bind fun _ _ => .pure hfn

/-- A method with its receiver is declared as before, and refers to the same method. -/
theorem Regime.meets_binds (P : Condition) (home : String) :
    (Regime.meets P home).BindsMethods := by
  intro m place cls name fn depth hv hl
  have hcls : cls.Meets P := by
    cases hv with
    | «instance» _ h => exact h
  exact (Exec.stays_iff.1 (Closure.stays_bind (hcls.lookup hl) hv) m).mono
    fun _ _ _ _ hfn => .closure hfn

/-- So is a method of the superclasses. -/
theorem Regime.meets_bindsSupers (P : Condition) (home : String) :
    (Regime.meets P home).BindsSupers := by
  intro m supers name fn depth receiver hsupers hl hr
  have hclasses : ∀ c ∈ supers, c.Meets P := by
    cases hsupers with
    | superclasses h => exact h
  exact (Exec.stays_iff.1 (Closure.stays_bind (Class.lookupSupers_meets hclasses hl) hr) m).mono
    fun _ _ _ _ hfn => .closure hfn

/-! ### Engines -/

/-- Two engines that call values alike: values that meet a condition, with arguments that meet it,
have results that meet it, inside of whatever call. -/
structure Engine.CallsAlike (P : Condition) (eng eng' : Engine) : Prop where
  /-- The calls are alike. -/
  invoke : ∀ {home : String} (site : Token) {callee : Value} {positional : List Value}
    {named : List (String × Value)}, callee.Meets P → (∀ v ∈ positional, v.Meets P) →
    (∀ p ∈ named, p.2.Meets P) →
    Supplies P home (eng.invoke site callee positional named)
      (eng'.invoke site callee positional named)

namespace Engine

variable {eng eng' : Engine}

/-- Engines that call values alike do so in the regime of every method. -/
theorem CallsAlike.callsBy (h : CallsAlike P eng eng') (home : String) :
    CallsBy (.meets P home) eng eng' where
  binds := Regime.meets_binds P home
  invoke {m} site _ _ _ hc hp hn := Exec.stays_iff.1 (h.invoke site hc hp hn) m

end Engine

end ClassScript
