import Mathlib.Logic.Function.Basic
import ClassScript.Typing.Check
import ClassScript.Proofs.Hierarchy
import ClassScript.Proofs.Typing.Settling

/-!
# Renamings of functions and classes

The checker numbers functions and classes in the order it meets them. A `Renaming` gives them other
numbers, and `Mirror` says that a state is another one with the numbers renamed. Comparisons, texts
and lookups do not depend on the numbers: in a mirrored state they answer what they answer in the
other one, with the numbers renamed.
-/

namespace ClassScript.Typing

/-- Other numbers for functions and classes. Native classes keep theirs. -/
structure Renaming where
  /-- The number of a function. -/
  sig : SignatureId → SignatureId
  /-- The number of a class. -/
  cls : Nat → Nat
  /-- No two functions get the same number. -/
  sig_injective : Function.Injective sig
  /-- No two classes get the same number. -/
  cls_injective : Function.Injective cls
  /-- A native class keeps its number. -/
  cls_native : ∀ c, cls (nativeId c) = nativeId c

variable {ρ : Renaming}

/-! ### Renamed types -/

mutual

/-- A class with its number and those of its superclasses renamed. -/
def ClassType.rename (ρ : Renaming) : ClassType → ClassType
  | ⟨id, name, supers, native?⟩ => ⟨ρ.cls id, name, ClassType.renameAll ρ supers, native?⟩

/-- Several classes with their numbers renamed. -/
def ClassType.renameAll (ρ : Renaming) : List ClassType → List ClassType
  | [] => []
  | c :: rest => ClassType.rename ρ c :: ClassType.renameAll ρ rest

end

/-- A type with the numbers in it renamed. -/
def Ty.rename (ρ : Renaming) : Ty → Ty
  | .instance c => .instance (c.rename ρ)
  | .class c => .class (c.rename ρ)
  | .function f => .function (ρ.sig f)

/-- A signature with the numbers in it renamed. -/
def Signature.rename (ρ : Renaming) (sig : Signature) : Signature :=
  { sig with
    paramTypes := sig.paramTypes.map (Ty.rename ρ)
    returns := sig.returns.map (Ty.rename ρ)
    returnsByArg := sig.returnsByArg.map fun (arg, t) => (arg, t.rename ρ) }

/-- A context with the numbers in it renamed. -/
def Context.rename (ρ : Renaming) (c : Context) : Context :=
  { c with
    returns := c.returns.map fun (t, keyword) => (t.rename ρ, keyword)
    method? := c.method?.map ρ.sig
    class? := c.class?.map (ClassType.rename ρ) }

/-- Names with renamed types. -/
def renameVars (ρ : Renaming) (vars : List (String × Option Ty)) : List (String × Option Ty) :=
  vars.map fun (name, t) => (name, t.map (Ty.rename ρ))

/-- A scope with renamed types. -/
def StaticScope.rename (ρ : Renaming) (sc : StaticScope) : StaticScope :=
  { sc with vars := renameVars ρ sc.vars }

/-- Several classes are renamed one by one. -/
@[simp] theorem ClassType.renameAll_eq (cs : List ClassType) :
    ClassType.renameAll ρ cs = cs.map (ClassType.rename ρ) := by
  induction cs with
  | nil => rfl
  | cons c rest ih => rw [ClassType.renameAll, ih, List.map_cons]

/-- A class gets the renamed number. -/
@[simp] theorem ClassType.rename_id (c : ClassType) : (c.rename ρ).id = ρ.cls c.id := by
  cases c
  rfl

/-- It keeps its name. -/
@[simp] theorem ClassType.rename_name (c : ClassType) : (c.rename ρ).name = c.name := by
  cases c
  rfl

/-- It is native if it was. -/
@[simp] theorem ClassType.rename_native? (c : ClassType) : (c.rename ρ).native? = c.native? := by
  cases c
  rfl

/-- Its superclasses are renamed too. -/
@[simp] theorem ClassType.rename_supers (c : ClassType) :
    (c.rename ρ).supers = c.supers.map (ClassType.rename ρ) := by
  cases c
  rw [ClassType.rename, ClassType.renameAll_eq]

/-- Native classes are the same under every renaming. -/
@[simp] theorem rename_nativeType (c : NativeClass) : (nativeType c).rename ρ = nativeType c := by
  unfold nativeType
  cases c.parent? with
  | none => simp [ClassType.rename, ρ.cls_native]
  | some p => simp [ClassType.rename, ρ.cls_native]

/-- The objects of native classes are not renamed. -/
@[simp] theorem rename_builtin (c : NativeClass) : (builtin c).rename ρ = builtin c := by
  unfold builtin
  rw [Ty.rename, rename_nativeType]

/-- Neither are those of the root class. -/
@[simp] theorem rename_objectType : objectType.rename ρ = objectType := rename_builtin .object

/-! ### Relations between renamed types -/

mutual

/-- Renamed classes inherit from each other as the classes do. -/
theorem subclassOf_rename (d c : ClassType) :
    ClassType.subclassOf (d.rename ρ) (c.rename ρ) = ClassType.subclassOf d c := by
  cases c with
  | mk id name supers native? =>
    rw [ClassType.rename, ClassType.subclassOf, ClassType.subclassOf, ClassType.rename_id,
      anySubclassOf_rename d supers]
    simp only [ρ.cls_injective.eq_iff]

/-- So they do from one of several. -/
theorem anySubclassOf_rename (d : ClassType) (cs : List ClassType) :
    ClassType.anySubclassOf (d.rename ρ) (ClassType.renameAll ρ cs) =
      ClassType.anySubclassOf d cs := by
  cases cs with
  | nil => rfl
  | cons c rest =>
    rw [ClassType.renameAll, ClassType.anySubclassOf, ClassType.anySubclassOf,
      subclassOf_rename d c, anySubclassOf_rename d rest]

end

/-- A renamed type stands for every value if the type does. -/
@[simp] theorem isObject_rename (t : Option Ty) : isObject (t.map (Ty.rename ρ)) = isObject t := by
  rcases t with _ | _ | _ | _
  · rfl
  · simp [isObject, Ty.rename]
  · rfl
  · rfl

/-- So does one that is not missing. -/
@[simp] theorem isObject_some_rename (t : Ty) : isObject (some (t.rename ρ)) = isObject (some t) :=
  isObject_rename (some t)

/-- Renamed types are identical if the types are. -/
theorem identical_rename (a b : Ty) : (a.rename ρ).identical (b.rename ρ) = a.identical b := by
  cases a <;> cases b <;>
    simp [Ty.identical, Ty.rename, ρ.cls_injective.eq_iff, ρ.sig_injective.eq_iff]

/-- Parameters are paired up with their renamed types. -/
theorem paramPairs?_rename (f g : Signature) :
    Checker.paramPairs? (f.rename ρ) (g.rename ρ) =
      (Checker.paramPairs? f g).map (List.map fun ((p, t), (q, u)) =>
        ((p, t.rename ρ), (q, u.rename ρ))) := by
  unfold Checker.paramPairs? Signature.rename
  simp only [List.length_map]
  split
  · rw [List.zip_map_right, List.zip_map_right, List.zip_map, Option.map_some]
    rfl
  · rfl

/-- Renamed parameters are compared like the parameters. -/
theorem sameParamsBy_rename {same same' : Option Ty → Option Ty → Option Bool}
    (h : ∀ a b, same' (a.map (Ty.rename ρ)) (b.map (Ty.rename ρ)) = same a b)
    (pairs : List ((Param × Ty) × (Param × Ty))) :
    Checker.sameParamsBy same' (pairs.map fun ((p, t), (q, u)) =>
        ((p, t.rename ρ), (q, u.rename ρ))) =
      Checker.sameParamsBy same pairs := by
  induction pairs with
  | nil => rfl
  | cons pair rest ih =>
    obtain ⟨⟨p, t⟩, q, u⟩ := pair
    have htu : same' (some (t.rename ρ)) (some (u.rename ρ)) =
        same (some t) (some u) :=
      h (some t) (some u)
    rw [List.map_cons, Checker.sameParamsBy, Checker.sameParamsBy, htu, ih]

/-- So are renamed signatures. -/
theorem sameSignaturesBy_rename {same same' : Option Ty → Option Ty → Option Bool}
    (h : ∀ a b, same' (a.map (Ty.rename ρ)) (b.map (Ty.rename ρ)) = same a b) (f g : Signature) :
    Checker.sameSignaturesBy same' (f.rename ρ) (g.rename ρ) =
      Checker.sameSignaturesBy same f g := by
  unfold Checker.sameSignaturesBy
  rw [paramPairs?_rename]
  cases Checker.paramPairs? f g with
  | none => rfl
  | some pairs =>
    have hreturns : same' (f.rename ρ).returns (g.rename ρ).returns = same f.returns g.returns :=
      h _ _
    simp only [Option.map_some]
    rw [sameParamsBy_rename h, hreturns]

/-! ### Texts of renamed types -/

/-- Renamed parameters have the texts of the parameters. -/
theorem paramTextsBy_rename {text text' : Ty → Option String}
    (h : ∀ t, text' (t.rename ρ) = text t) (params : List (Param × Ty)) :
    Checker.paramTextsBy text' (params.map fun (p, t) => (p, t.rename ρ)) =
      Checker.paramTextsBy text params := by
  induction params with
  | nil => rfl
  | cons param rest ih =>
    obtain ⟨p, t⟩ := param
    rw [List.map_cons, Checker.paramTextsBy, Checker.paramTextsBy, h, ih]

/-- So have renamed signatures. -/
theorem signatureTextBy_rename {text text' : Ty → Option String}
    (h : ∀ t, text' (t.rename ρ) = text t) (sig : Signature) :
    Checker.signatureTextBy text' (sig.rename ρ) = Checker.signatureTextBy text sig := by
  -- The names of the parameters are kept; only their types are renamed.
  have hparams : Checker.paramTextsBy text' ((sig.rename ρ).params.zip (sig.rename ρ).paramTypes) =
      Checker.paramTextsBy text (sig.params.zip sig.paramTypes) := by
    rw [← paramTextsBy_rename h]
    unfold Signature.rename
    rw [List.zip_map_right]
    rfl
  have hresult : Checker.resultTextBy text' (sig.rename ρ).returns =
      Checker.resultTextBy text sig.returns := by
    unfold Signature.rename
    cases sig.returns with
    | none => rfl
    | some t => exact h t
  unfold Checker.signatureTextBy
  rw [hparams, hresult]

end ClassScript.Typing
