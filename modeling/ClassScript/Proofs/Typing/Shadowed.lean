import ClassScript.Proofs.Scope.Uses
import ClassScript.Proofs.Typing.Operators
import ClassScript.Proofs.Typing.Rollback

/-!
# Shadowed native classes

The checker looks the classes that native code names up among the global names, and a program can
give these names other values. `Upholds kept s` says what holds as long as the names in `kept` are
left alone: the native methods whose types have no other names got their own signatures.
`Shadowed kept hidden s s'` compares such a state with one in which the global names in `hidden`
have other values. As far as a step mentions none of these names, and the native methods whose types
have them were used before, it does not see the difference.
-/

namespace ClassScript

/-! ### Names -/

/-- The names of the classes in the signature of a native method. That of every object is not looked
up. -/
def NativeMethod.typeNames (m : NativeMethod) : List String :=
  (m.returns :: (m.params.map (·.type.lexeme) ++ m.returnsByArg.map (·.2))).filter (· ≠ "Object")

/-- The names of the classes that are looked up at every use of a native class: those of its
elements, its properties and the parameters of its constructor. -/
def NativeClass.lateNames (c : NativeClass) : List String :=
  (c.elements :: (c.properties.map (·.returns) ++ c.params.map (·.type.lexeme))).filter
    (· ≠ "Object")

/-- The names of variables and classes in a node itself. -/
def Node.mentions : Node → List String
  | .expr (.var use) => [use.name.lexeme]
  | .expr (.assign _ name _) => [name.lexeme]
  | .expr (.lambda fn) => fn.params.map (·.type.lexeme)
  | _ => []

/-- The variable that a node itself gives a value. -/
def Node.assigned : Node → List String
  | .expr (.assign _ name _) => [name.lexeme]
  | _ => []

/-- The names that a statement declares in the scope around it. -/
def Stmt.declared : Stmt → List String
  | .varDecl _ name _ | .classDecl _ name _ _ => [name.lexeme]
  | .function _ fn => [fn.title]
  | .ifElse _ _ _ _ (some otherwise) => otherwise.declared
  | _ => []

/-- A program leaves the values of some global names alone: it neither declares nor assigns them. -/
structure Stmt.Spares (kept : List String) (program : List Stmt) : Prop where
  /-- No global of such a name is declared. -/
  declared : ∀ s ∈ program, ∀ name ∈ s.declared, name ∉ kept
  /-- No variable of such a name is given a value. -/
  assigned : ∀ n ∈ allNodes program, ∀ name ∈ n.assigned, name ∉ kept

/-- There is always no name that a program leaves alone. -/
theorem Stmt.spares_nil (program : List Stmt) : Stmt.Spares [] program :=
  ⟨fun _ _ _ _ => List.not_mem_nil, fun _ _ _ _ => List.not_mem_nil⟩

/-- A program has none of some names. -/
def Stmt.Avoids (hidden : List String) (program : List Stmt) : Prop :=
  ∀ n ∈ allNodes program, ∀ name ∈ n.mentions, name ∉ hidden

/-- A node neither gives the kept names a value nor mentions the hidden ones. -/
structure Node.Discreet (kept hidden : List String) (n : Node) : Prop where
  /-- The kept names get no value. -/
  assigned : ∀ name ∈ n.assigned, name ∉ kept
  /-- The hidden names are not mentioned. -/
  mentions : ∀ name ∈ n.mentions, name ∉ hidden

/-- The types of the parameters are mentioned by a function. -/
theorem Node.Discreet.types {kept hidden : List String} {fn : Lambda}
    (h : (Node.expr (.lambda fn)).Discreet kept hidden) :
    ∀ p ∈ fn.params, p.type.lexeme ∉ hidden :=
  fun _ hp => h.mentions _ (List.mem_map_of_mem hp)

/-- Nodes that neither give the kept names a value nor mention the hidden ones. -/
def Node.AllDiscreet (kept hidden : List String) (ns : List Node) : Prop :=
  ∀ n ∈ ns, n.Discreet kept hidden

/-- A row of nodes is discreet if the first one is and the others are. -/
@[simp]
theorem Node.allDiscreet_cons {kept hidden : List String} {n : Node} {ns : List Node} :
    AllDiscreet kept hidden (n :: ns) ↔ n.Discreet kept hidden ∧ AllDiscreet kept hidden ns :=
  List.forall_mem_cons

/-- Two rows of nodes are discreet together if both are. -/
@[simp]
theorem Node.allDiscreet_append {kept hidden : List String} {ns ns' : List Node} :
    AllDiscreet kept hidden (ns ++ ns') ↔
      AllDiscreet kept hidden ns ∧ AllDiscreet kept hidden ns' :=
  List.forall_mem_append

namespace Typing

/-! ### States -/

namespace Checker

/-- A function of a program: it exists and is no native method. -/
def Own (s : Checker) (f : SignatureId) : Prop :=
  f < s.signatures.size ∧ ∀ op, (op, f) ∉ s.nativeMethods

/-- Some global names have the native classes as their values, and the native methods whose types
have no other names have their own signatures. -/
structure Upholds (kept : List String) (s : Checker) : Prop where
  /-- The names. -/
  globals : ∀ c : NativeClass, c.name ∈ kept →
    s.globals[c.name]? = some (some (.class (nativeType c)))
  /-- The native methods that were used. -/
  natives : ∀ op f, (op, f) ∈ s.nativeMethods → f < s.signatures.size ∧
    ∃ (c : NativeClass) (m : NativeMethod), m ∈ c.methods ∧ m.operation = op ∧
      (m.typeNames ⊆ kept → s.signatures[f]? = some m.signature)
  /-- The methods of classes are not native. -/
  members : ∀ (i : Nat) (b : ClassBody) (name : String) (f : SignatureId),
    s.bodies[i]? = some b → b.members[name]? = some f → s.Own f
  /-- The method around the place is not native. -/
  method : ∀ f, s.context.bind Context.method? = some f → s.Own f

/-- A later state has no fewer functions, and the same native methods as far as they were used
before. -/
structure Later (s s' : Checker) : Prop where
  /-- There are no fewer functions. -/
  size : s.signatures.size ≤ s'.signatures.size
  /-- Functions that were there do not become native methods. -/
  fresh : ∀ op f, (op, f) ∈ s'.nativeMethods → (op, f) ∈ s.nativeMethods ∨ s.signatures.size ≤ f
  /-- The native methods are kept. -/
  natives : ∀ op f, s.nativeMethods.lookup op = some f → s'.nativeMethods.lookup op = some f

/-- The native methods whose types have one of some names were used. -/
def Settled (hidden : List String) (s : Checker) : Prop :=
  ∀ (c : NativeClass), ∀ m ∈ c.methods, (∃ n ∈ m.typeNames, n ∈ hidden) →
    (s.nativeMethods.lookup m.operation).isSome

namespace Later

variable {s s' s'' : Checker}

/-- A state is not before itself. -/
theorem refl (s : Checker) : Later s s := ⟨Nat.le_refl _, fun _ _ h => .inl h, fun _ _ h => h⟩

/-- What is later than a later state is later. -/
theorem trans (h : Later s s') (h' : Later s' s'') : Later s s'' where
  size := Nat.le_trans h.size h'.size
  fresh op f hf :=
    (h'.fresh op f hf).elim (h.fresh op f) fun hle => .inr (Nat.le_trans h.size hle)
  natives op f hf := h'.natives op f (h.natives op f hf)

/-- A state with as many functions and the same native methods is not before the other one. -/
theorem of_eq (hsize : s'.signatures.size = s.signatures.size)
    (hnatives : s'.nativeMethods = s.nativeMethods) : Later s s' := by
  refine ⟨Nat.le_of_eq hsize.symm, fun op f hf => .inl ?_, fun op f hf => ?_⟩
  · exact hnatives ▸ hf
  · exact hnatives ▸ hf

/-- Native methods that were used stay used. -/
theorem settled {hidden : List String} (h : Later s s') (hs : s.Settled hidden) :
    s'.Settled hidden := by
  intro c m hm hname
  obtain ⟨f, hf⟩ := Option.isSome_iff_exists.1 (hs c m hm hname)
  rw [h.natives _ f hf]
  rfl

end Later

/-- A function of the program stays one. -/
theorem Own.mono {s s' : Checker} {f : SignatureId} (hf : s.Own f) (h : Later s s') :
    s'.Own f :=
  ⟨Nat.lt_of_lt_of_le hf.1 h.size, fun op hop =>
    (h.fresh op f hop).elim (hf.2 op) fun hle => absurd hf.1 (Nat.not_lt.2 hle)⟩

namespace Upholds

variable {kept : List String} {s s' : Checker}

/-- What a state upholds does not depend on its scopes and notes. -/
theorem of_eq (h : s.Upholds kept) (hglobals : s'.globals = s.globals)
    (hsignatures : s'.signatures = s.signatures) (hbodies : s'.bodies = s.bodies)
    (hmethod : ∀ f, s'.context.bind Context.method? = some f → s.Own f)
    (hnatives : s'.nativeMethods = s.nativeMethods) : s'.Upholds kept where
  globals c hc := by
    rw [hglobals]
    exact h.globals c hc
  natives op f hf := by
    rw [hsignatures]
    exact h.natives op f (hnatives ▸ hf)
  -- Whether a function is one of the program's own is seen from the functions and the natives.
  members i b name f hb hf := by
    unfold Own
    rw [hsignatures, hnatives]
    exact h.members i b name f (hbodies ▸ hb) hf
  method f hf := by
    unfold Own
    rw [hsignatures, hnatives]
    exact hmethod f hf

/-- The methods of classes are functions of the program. -/
theorem own_member (h : s.Upholds kept) {c : ClassType} {name : String} {f : SignatureId}
    (hf : (s.body c).members[name]? = some f) : s.Own f := by
  unfold body at hf
  cases hb : s.bodies[c.id]? with
  | some b =>
    rw [hb] at hf
    exact h.members c.id b name f hb hf
  | none =>
    rw [hb, show (none.getD default : ClassBody).members = ∅ from rfl] at hf
    simp at hf

/-- A name that is not a kept one may get any value. -/
theorem insertGlobal (h : s.Upholds kept) {name : String} (hname : name ∉ kept) (t : Option Ty) :
    ({ s with globals := s.globals.insert name t } : Checker).Upholds kept where
  globals c hc := by
    have hne : name ≠ c.name := fun heq => hname (heq ▸ hc)
    rw [Std.TreeMap.getElem?_insert, if_neg (by simpa using hne)]
    exact h.globals c hc
  natives := h.natives
  members := h.members
  method := h.method

/-- A function may be made. -/
theorem pushSignature (h : s.Upholds kept) (sig : Signature) :
    ({ s with signatures := s.signatures.push sig } : Checker).Upholds kept where
  globals := h.globals
  natives op f hf := by
    obtain ⟨hlt, c, m, hm, hop, hsig⟩ := h.natives op f hf
    refine ⟨?_, c, m, hm, hop, fun hkept => ?_⟩
    · exact Nat.lt_of_lt_of_le hlt (by simp)
    · rw [Array.getElem?_push_lt hlt, ← hsig hkept, Array.getElem?_eq_getElem hlt]
  members i b name f hb hf :=
    (h.members i b name f hb hf).mono ⟨by simp, fun _ _ h => .inl h, fun _ _ h => h⟩
  method f hf := (h.method f hf).mono ⟨by simp, fun _ _ h => .inl h, fun _ _ h => h⟩

/-- A function of the program is changed. -/
theorem modifySignature (h : s.Upholds kept) {f : SignatureId} (hf : s.Own f)
    (u : Signature → Signature) :
    ({ s with signatures := s.signatures.modify f u } : Checker).Upholds kept := by
  have hlater : Later s { s with signatures := s.signatures.modify f u } :=
    .of_eq Array.size_modify rfl
  refine ⟨h.globals, fun op g hg => ?_, fun i b name g hb hg => ?_, fun g hg => ?_⟩
  · obtain ⟨hlt, c, m, hm, hop, hsig⟩ := h.natives op g hg
    refine ⟨by simpa using hlt, c, m, hm, hop, fun hkept => ?_⟩
    have hne : f ≠ g := fun heq => hf.2 op (heq ▸ hg)
    rw [Array.getElem?_modify, if_neg hne]
    exact hsig hkept
  · exact (h.members i b name g hb hg).mono hlater
  · exact (h.method g hg).mono hlater

/-- A class keeps its methods, or gets one of the program. -/
theorem modifyBody (h : s.Upholds kept) (i : Nat) {u : ClassBody → ClassBody}
    (hu : ∀ b (name : String) f, (u b).members[name]? = some f →
      b.members[name]? = some f ∨ s.Own f) :
    ({ s with bodies := s.bodies.modify i u } : Checker).Upholds kept where
  globals := h.globals
  natives := h.natives
  members j b name f hb hf := by
    dsimp only at hb
    rw [Array.getElem?_modify] at hb
    split at hb
    · obtain ⟨old, hold, rfl⟩ := Option.map_eq_some_iff.1 hb
      exact (hu old name f hf).elim (h.members j old name f hold) id
    · exact h.members j b name f hb hf
  method := h.method

/-- A class may be made. -/
theorem pushBody (h : s.Upholds kept) :
    ({ s with bodies := s.bodies.push {} } : Checker).Upholds kept where
  globals := h.globals
  natives := h.natives
  members i b name f hb hf := by
    dsimp only at hb
    rw [Array.getElem?_push] at hb
    split at hb
    · obtain rfl := Option.some.inj hb
      simp at hf
    · exact h.members i b name f hb hf
  method := h.method

end Upholds

/-! ### What does not depend on the global names -/

variable {s s' : Checker}

/-- Types are compared by the signatures alone. -/
theorem sameUpTo_of_eq (h : s'.signature = s.signature) (n : Nat) (a b : Option Ty) :
    s'.sameUpTo n a b = s.sameUpTo n a b := by
  induction n generalizing a b with
  | zero => rcases a with _ | _ | _ | f <;> rcases b with _ | _ | _ | g <;> rfl
  | succ n ih =>
    have hn : s'.sameUpTo n = s.sameUpTo n := funext fun a => funext (ih a)
    rcases a with _ | _ | _ | f <;> rcases b with _ | _ | _ | g <;> try rfl
    rw [sameUpTo_function_succ, sameUpTo_function_succ, hn, h]

/-- The text of a type depends on the signatures only. -/
theorem typeTextUpTo_of_eq (h : s'.signature = s.signature) (n : Nat) (t : Ty) :
    s'.typeTextUpTo n t = s.typeTextUpTo n t := by
  induction n generalizing t with
  | zero => cases t <;> rfl
  | succ n ih =>
    have hn : s'.typeTextUpTo n = s.typeTextUpTo n := funext ih
    cases t with
    | «instance» c => rfl
    | «class» c => rfl
    | function f => rw [typeTextUpTo_function_succ, typeTextUpTo_function_succ, hn, h]

section Globals

variable (s : Checker) (globals : Std.TreeMap String (Option Ty))

/-- The signatures of functions are apart from the global names. -/
theorem signature_globals : ({ s with globals } : Checker).signature = s.signature := rfl

/-- Whether two types are the same does not depend on the global names. -/
theorem same?_globals (a b : Option Ty) : { s with globals }.same? a b = s.same? a b :=
  sameUpTo_of_eq (signature_globals s globals) _ a b

/-- Neither does the more general type of two. -/
theorem unify?_globals (a b : Option Ty) : { s with globals }.unify? a b = s.unify? a b := by
  unfold unify?
  rw [same?_globals]

/-- Neither does whether a type may be passed. -/
theorem assignable?_globals (param arg : Option Ty) :
    { s with globals }.assignable? param arg = s.assignable? param arg := by
  unfold assignable?
  rw [same?_globals]

/-- Neither does the text of a type. -/
theorem typeText?_globals (t : Option Ty) : { s with globals }.typeText? t = s.typeText? t := by
  cases t with
  | none => rfl
  | some t => exact typeTextUpTo_of_eq (signature_globals s globals) _ t

end Globals

end Checker

/-- Names that are looked up neither at every use of a native class nor for the receiver. -/
structure Hideable (hidden : List String) : Prop where
  /-- They are not looked up at every use of a native class. -/
  late : ∀ c : NativeClass, ∀ n ∈ c.lateNames, n ∉ hidden
  /-- None of them stands for the receiver. -/
  self : "self" ∉ hidden

/-- A state that upholds the kept names, and the same state but for the values of the hidden ones.
The native methods whose types have hidden names were used before. -/
structure Shadowed (kept hidden : List String) (s s' : Checker) : Prop where
  /-- Only global names have other values. -/
  same : s' = { s with globals := s'.globals }
  /-- Only hidden names have. -/
  globals : ∀ name : String, name ∉ hidden → s'.globals[name]? = s.globals[name]?
  /-- The kept names are upheld. -/
  upholds : s.Upholds kept
  /-- The native methods whose types have hidden names were used. -/
  settled : s.Settled hidden
  /-- The names can be hidden. -/
  hideable : Hideable hidden

/-- A name in the signature of a native method is that of every object or one that counts. -/
theorem mem_of_forall_filter {P : String → Prop} {names : List String}
    (h : ∀ n ∈ names.filter (· ≠ "Object"), P n) {name : String} (hname : name ∈ names) :
    name = "Object" ∨ P name := by
  by_cases hobject : name = "Object"
  · exact .inl hobject
  · exact .inr (h name (List.mem_filter.2 ⟨hname, by simpa using hobject⟩))

namespace Checker.Upholds

variable {kept : List String} {s : Checker}

/-- A kept name declares the objects of its native class. -/
theorem globalType (h : s.Upholds kept) {name : String}
    (hname : name ∈ NativeClass.all.map (·.name)) (hkept : name = "Object" ∨ name ∈ kept) :
    Check.globalType s name = builtin (.named name) := by
  obtain rfl | hkept := hkept
  · rfl
  · obtain ⟨c, -, rfl⟩ := List.mem_map.1 hname
    rw [Check.globalType, h.globals c hkept, Check.named_name]
    cases c <;> rfl

/-- A native method that is used now gets its own signature. -/
theorem nativeMethodSignature (h : s.Upholds kept) {c : NativeClass} {m : NativeMethod}
    (hm : m ∈ c.methods) (hkept : m.typeNames ⊆ kept) :
    Check.nativeMethodSignature s m = m.signature := by
  obtain ⟨hreturns, hparams, hbyArg⟩ := Check.names_mem_all hm
  have hnames := @mem_of_forall_filter (· ∈ kept) _ fun n hn => hkept hn
  -- All names that the signature mentions are kept ones.
  have hparamTypes : m.params.map (fun p => Check.globalType s p.type.lexeme)
      = m.params.map fun p => builtin (.named p.type.lexeme) :=
    List.map_congr_left fun p hp => h.globalType (hparams p hp)
      (hnames (.tail _ (List.mem_append_left _ (List.mem_map_of_mem hp))))
  have hreturnsByArg : ∀ r ∈ m.returnsByArg, Check.globalType s r.2 = builtin (.named r.2) :=
    fun r hr => h.globalType (hbyArg r hr)
      (hnames (.tail _ (List.mem_append_right _ (List.mem_map_of_mem hr))))
  rw [Check.nativeMethodSignature, Check.nativeSignature, hparamTypes,
    h.globalType hreturns (hnames (.head _)), NativeMethod.signature]
  congr 1
  exact List.map_congr_left fun r hr => congrArg (r.1, ·) (hreturnsByArg r hr)

/-- A native method is used for the first time. -/
theorem useNative (h : s.Upholds kept) {c : NativeClass} {m : NativeMethod} (hm : m ∈ c.methods) :
    ({ s with
      signatures := s.signatures.push (Check.nativeMethodSignature s m)
      nativeMethods := (m.operation, s.signatures.size) :: s.nativeMethods } : Checker).Upholds
      kept := by
  have hpushed := h.pushSignature (Check.nativeMethodSignature s m)
  -- The new signature stands behind those of the program.
  have hown : ∀ f, s.Own f → f < (s.signatures.push (Check.nativeMethodSignature s m)).size ∧
      ∀ op, (op, f) ∉ (m.operation, s.signatures.size) :: s.nativeMethods := by
    intro f hf
    refine ⟨Nat.lt_of_lt_of_le hf.1 (by simp), fun op hop => ?_⟩
    rcases List.mem_cons.1 hop with heq | hop
    · exact absurd (congrArg Prod.snd heq) (Nat.ne_of_lt hf.1)
    · exact hf.2 op hop
  refine ⟨h.globals, fun op f hf => ?_, fun i b name f hb hf => hown f (h.members i b name f hb hf),
    fun f hf => hown f (h.method f hf)⟩
  rcases List.mem_cons.1 hf with heq | hf
  · obtain ⟨rfl, rfl⟩ := Prod.mk.inj heq
    refine ⟨by simp, c, m, hm, rfl, fun hkept => ?_⟩
    rw [← h.nativeMethodSignature hm hkept]
    exact Array.getElem?_push_size
  · exact hpushed.natives op f hf

end Checker.Upholds

namespace Shadowed

variable {kept hidden : List String} {s s' : Checker}

/-- Both states have the same local scopes. -/
theorem locals (h : Shadowed kept hidden s s') : s'.locals = s.locals := by
  rw [h.same]

/-- Both states have the same context. -/
theorem context (h : Shadowed kept hidden s s') : s'.context = s.context := by
  rw [h.same]

/-- Both states have made the same native methods. -/
theorem nativeMethods (h : Shadowed kept hidden s s') : s'.nativeMethods = s.nativeMethods := by
  rw [h.same]

/-- Both states have the same functions. -/
theorem signature (h : Shadowed kept hidden s s') : s'.signature = s.signature := by
  rw [h.same]
  rfl

/-- Both states have the same classes. -/
theorem body (h : Shadowed kept hidden s s') : s'.body = s.body := by
  rw [h.same]
  rfl

/-- Both states find the same methods. -/
theorem methods (h : Shadowed kept hidden s s') : s'.methods = s.methods := by
  rw [h.same]
  rfl

/-- Both states find the same fields. -/
theorem attributes (h : Shadowed kept hidden s s') : s'.attributes = s.attributes := by
  rw [h.same]
  rfl

/-- A function inside has the same context in both states. -/
theorem childContext (h : Shadowed kept hidden s s') :
    Check.childContext s' = Check.childContext s := by
  rw [h.same]
  rfl

/-- A name that is not hidden is found alike. -/
theorem lookup? (h : Shadowed kept hidden s s') {name : String} (hname : name ∉ hidden) :
    Check.lookup? s' name = Check.lookup? s name := by
  unfold Check.lookup?
  rw [h.locals, h.globals name hname]

/-- A place belongs to the same scope in both states. -/
theorem origin (h : Shadowed kept hidden s s') (place : Check.Place) :
    place.origin s' = place.origin s := by
  cases place with
  | «local» i =>
    unfold Check.Place.origin
    rw [h.locals]
  | global => rfl

/-- A name that is not hidden has the same type. -/
theorem variableType (h : Shadowed kept hidden s s') {name : String} (hname : name ∉ hidden) :
    Check.variableType s' name = Check.variableType s name := by
  unfold Check.variableType
  rw [h.lookup? hname]

/-- The type of `self` is the same, as its name cannot be hidden. -/
theorem selfType (h : Shadowed kept hidden s s') : Check.selfType s' = Check.selfType s := by
  unfold Check.selfType
  rw [h.lookup? h.hideable.self]

/-- A name that is not hidden declares the same objects. -/
theorem globalType (h : Shadowed kept hidden s s') {name : String}
    (hname : name = "Object" ∨ name ∉ hidden) :
    Check.globalType s' name = Check.globalType s name := by
  obtain rfl | hname := hname
  · rfl
  · unfold Check.globalType
    rw [h.globals name hname]

/-- A native method that was not used yet gets the same signature. -/
theorem nativeMethodSignature (h : Shadowed kept hidden s s') {m : NativeMethod}
    (hm : ∀ n ∈ m.typeNames, n ∉ hidden) :
    Check.nativeMethodSignature s' m = Check.nativeMethodSignature s m := by
  have hnames := @mem_of_forall_filter (· ∉ hidden) _ hm
  have hparamTypes : m.params.map (fun p => Check.globalType s' p.type.lexeme)
      = m.params.map fun p => Check.globalType s p.type.lexeme :=
    List.map_congr_left fun p hp => h.globalType
      (hnames (.tail _ (List.mem_append_left _ (List.mem_map_of_mem hp))))
  have hreturnsByArg : ∀ r ∈ m.returnsByArg, Check.globalType s' r.2 = Check.globalType s r.2 :=
    fun r hr => h.globalType
      (hnames (.tail _ (List.mem_append_right _ (List.mem_map_of_mem hr))))
  unfold Check.nativeMethodSignature Check.nativeSignature
  rw [hparamTypes, h.globalType (hnames (.head _))]
  dsimp only
  congr 1
  exact List.map_congr_left fun r hr => congrArg (r.1, ·) (hreturnsByArg r hr)

/-- A change that does not look at the global names. -/
theorem update (h : Shadowed kept hidden s s') {u : Checker → Checker}
    (hsame : ∀ globals, u { s with globals } = { u s with globals })
    (hglobals : (u s).globals = s.globals) (hlater : s.Later (u s))
    (hupholds : (u s).Upholds kept) : Shadowed kept hidden (u s) (u s') := by
  have hu : u s' = { u s with globals := s'.globals } := by
    rw [h.same, hsame]
  refine ⟨?_, fun name hname => ?_, hupholds, hlater.settled h.settled, h.hideable⟩
  · rw [hu]
  · rw [hu, hglobals]
    exact h.globals name hname

end Shadowed

namespace Check

variable {α β : Type} {kept hidden : List String} {A : Prop} {w : Checker}

/-- Two outcomes with the same value, or the same reason to stop early. -/
inductive Matched (kept hidden : List String) (s : Checker) (Q : Checker → α → Prop) :
    EStateM.Result Stop Checker α → EStateM.Result Stop Checker α → Prop where
  /-- Both steps ended, with as many scopes as before. -/
  | ok {a : α} {t t' : Checker} (h : Shadowed kept hidden t t') (hlater : s.Later t)
    (hlocals : t.locals.length = s.locals.length) (hvalue : Q t a) :
    Matched kept hidden s Q (.ok a t) (.ok a t')
  /-- Both steps were left for the same reason. -/
  | error {e : Stop} {t t' : Checker} (h : Shadowed kept hidden t t') (hlater : s.Later t) :
    Matched kept hidden s Q (.error e t) (.error e t')

/-- Two steps do not see what hidden names stand for, and uphold the kept ones. They start behind
`w`, and where no scope is left open, what they declare has to be `A`. -/
structure Overlooks (kept hidden : List String) (A : Prop) (w : Checker) (Q : Checker → α → Prop)
    (x y : Check α) : Prop where
  /-- The outcomes match. -/
  run : ∀ {s s'}, Shadowed kept hidden s s' → w.Later s → (s.locals = [] → A) →
    Matched kept hidden s Q (x s) (y s')

/-- Any value. -/
def Any (_ : Checker) (_ : α) : Prop := True

/-- Outcomes that match behind a later state match behind an earlier one. -/
theorem Matched.behind {s t : Checker} {Q : Checker → α → Prop}
    {r r' : EStateM.Result Stop Checker α} (h : Matched kept hidden t Q r r') (hlater : s.Later t)
    (hlocals : t.locals.length = s.locals.length) : Matched kept hidden s Q r r' := by
  cases h with
  | ok h hlater' hlocals' hvalue =>
    exact .ok h (hlater.trans hlater') (hlocals'.trans hlocals) hvalue
  | error h hlater' => exact .error h (hlater.trans hlater')

namespace Overlooks

variable {Q : Checker → α → Prop} {R : Checker → β → Prop} {x y : Check α}

/-! ### Rules -/

/-- A value is the same on both sides. -/
theorem pure {a : α} (h : ∀ s, w.Later s → Q s a) :
    Overlooks kept hidden A w Q (Pure.pure a) (Pure.pure a) :=
  ⟨fun hs hw _ => .ok hs (.refl _) rfl (h _ hw)⟩

/-- So is one of which nothing is said. -/
theorem done (a : α) : Overlooks kept hidden A w Any (Pure.pure a) (Pure.pure a) :=
  .pure fun _ _ => trivial

/-- Both sides may stop for the same reason. -/
theorem throw (e : Stop) :
    Overlooks kept hidden A w Q (MonadExcept.throw e) (MonadExcept.throw e) :=
  ⟨fun hs _ _ => .error hs (.refl _)⟩

/-- A change that does not look at the global names. -/
theorem change {u : Checker → Checker}
    (hsame : ∀ s globals, u { s with globals } = { u s with globals })
    (hglobals : ∀ s, (u s).globals = s.globals)
    (hlocals : ∀ s, (u s).locals.length = s.locals.length)
    (h : ∀ s, s.Upholds kept → w.Later s → s.Later (u s) ∧ (u s).Upholds kept) :
    Overlooks kept hidden A w Any (modify u : Check PUnit) (modify u) where
  run {s _} hs hw _ := by
    obtain ⟨hlater, hupholds⟩ := h s hs.upholds hw
    exact .ok (hs.update (hsame s) (hglobals s) hlater hupholds) hlater (hlocals s) trivial

/-- One step after another: the second one starts behind the first one. -/
theorem bind {f g : α → Check β} (hx : Overlooks kept hidden A w Q x y)
    (hf : ∀ w' a, w.Later w' → Q w' a → Overlooks kept hidden A w' R (f a) (g a)) :
    Overlooks kept hidden A w R (x >>= f) (y >>= g) where
  run {s s'} hs hw hA := by
    have hfirst := hx.run hs hw hA
    rw [bind_apply, bind_apply]
    generalize x s = r at hfirst ⊢
    generalize y s' = r' at hfirst ⊢
    cases hfirst with
    | error h hlater => exact .error h hlater
    | ok h hlater hlocals hvalue =>
      -- No scope is open behind the first step only if none was in front of it.
      refine ((hf _ _ (hw.trans hlater) hvalue).run h (.refl _) fun hnil => hA ?_).behind hlater
        hlocals
      rw [hnil] at hlocals
      exact List.eq_nil_of_length_eq_zero hlocals.symm

/-- Both steps look at their state and go on. -/
theorem getBind {f g : Checker → Check β}
    (hf : ∀ {s s'}, Shadowed kept hidden s s' → w.Later s →
      Overlooks kept hidden A s R (f s) (g s')) :
    Overlooks kept hidden A w R (MonadState.get >>= f) (MonadState.get >>= g) :=
  ⟨fun hs hw hA => (hf hs hw).run hs (.refl _) hA⟩

/-- A step that may start early may start later. -/
theorem later {w' : Checker} (hx : Overlooks kept hidden A w Q x y) (hw : w.Later w') :
    Overlooks kept hidden A w' Q x y :=
  ⟨fun hs hw' hA => hx.run hs (hw.trans hw') hA⟩

/-- What a step declares may be more than it has to be. -/
theorem weaken {B : Prop} (hx : Overlooks kept hidden A w Q x y) (h : B → A) :
    Overlooks kept hidden B w Q x y :=
  ⟨fun hs hw hB => hx.run hs hw fun hnil => h (hB hnil)⟩

/-- The same test in both steps. -/
theorem ite {c : Prop} [Decidable c] {x' y' : Check α} (h : Overlooks kept hidden A w Q x y)
    (h' : Overlooks kept hidden A w Q x' y') :
    Overlooks kept hidden A w Q (if c then x else x') (if c then y else y') := by
  split
  · exact h
  · exact h'

/-- A test in front of a step, which is left early or goes on. -/
theorem guard {c : Prop} [Decidable c] {x y : Check PUnit} {k l : PUnit → Check β}
    (hx : Overlooks kept hidden A w Any x y)
    (hk : ∀ w' r, w.Later w' → Overlooks kept hidden A w' R (k r) (l r)) :
    Overlooks kept hidden A w R (if c then x >>= k else k ()) (if c then y >>= l else l ()) :=
  .ite (hx.bind fun w' r hw _ => hk w' r hw) (hk w () (.refl w))

/-- A test in front of a step, the other way round. -/
theorem guardNot {c : Prop} [Decidable c] {x y : Check PUnit} {k l : PUnit → Check β}
    (hx : Overlooks kept hidden A w Any x y)
    (hk : ∀ w' r, w.Later w' → Overlooks kept hidden A w' R (k r) (l r)) :
    Overlooks kept hidden A w R (if c then k () else x >>= k) (if c then l () else y >>= l) :=
  .ite (hk w () (.refl w)) (hx.bind fun w' r hw _ => hk w' r hw)

end Overlooks

end Check

end Typing

end ClassScript
