import Mathlib.Data.List.Nodup
import ClassScript.Session
import ClassScript.Proofs.Machine.Answers
import ClassScript.Proofs.Typing.Edits

/-!
# The types of operators

What the checker makes of an expression that is built from constants, parentheses, list displays and
operators. Only native classes have to do with such an expression, so its type does not depend on
what the checker has seen before: `computes_expr` shows that every checker that knows the native
classes finds the class that `Expr.predicted?` computes from the signatures of the native methods,
or rejects the expression if there is none.
-/

namespace ClassScript

open Typing

/-! ### Messages between native classes -/

/-- An argument of a class is accepted for a parameter of a class. Nothing is checked where either
stands for every value. -/
def NativeClass.admits (want arg : NativeClass) : Bool :=
  want = object || arg = object || arg.isSubclassOf want

/-- A method is accepted with at most one argument. -/
def NativeMethod.accepts (m : NativeMethod) (arg : Option NativeClass) : Bool :=
  match m.params, arg with
  | [], none => true
  | [p], some a => (NativeClass.named p.type.lexeme).admits a
  | _, _ => false

/-- The class that the checker finds for the answer to a message with at most one argument. An
object of an unknown class may answer anything. -/
def NativeClass.reply? (c : NativeClass) (name : String) (arg : Option NativeClass) :
    Option NativeClass :=
  if c = object then some object
  else (c.method? name).bind fun m => if m.accepts arg then some (m.answer arg) else none

/-- The class that the checker finds for an operator between two values. -/
def NativeClass.operator? (op : Token) (left right : NativeClass) : Option NativeClass :=
  (left.reply? (Check.operatorMethod op.kind) (some right)).map fun c =>
    if Check.answersBool op.kind then bool else c

/-- The class that the checker finds for values of one of two classes: the more general one, or that
of every object. -/
def NativeClass.join (c d : NativeClass) : NativeClass :=
  if c = d then c
  else if c = object || d = object then object
  else if c.isSubclassOf d then d
  else if d.isSubclassOf c then c
  else object

/-! ### Expressions -/

mutual

/-- An expression of constants, parentheses, list displays and operators. -/
def Expr.IsPlain : Expr → Prop
  | .literal .. => True
  | .group _ _ inner => inner.IsPlain
  | .list _ _ elements => Expr.ArePlain elements
  | .unary _ _ right => right.IsPlain
  | .binary _ left _ right | .logical _ left _ right => left.IsPlain ∧ right.IsPlain
  | _ => False

/-- Expressions of constants, parentheses, list displays and operators. -/
def Expr.ArePlain : List Expr → Prop
  | [] => True
  | e :: rest => e.IsPlain ∧ Expr.ArePlain rest

end

/-- The class of a constant. -/
def Literal.nativeClass : Literal → NativeClass
  | .nil => .nil
  | .bool _ => .bool
  | .int _ => .int
  | .float _ => .float
  | .string _ => .string

/-- The message of an operator in front of its operand. -/
def prefixMethod (op : Token) : String := if op.kind = .minus then "negate" else "isNotTrue"

mutual

/-- The class that the checker finds for a plain expression, unless it rejects it. -/
def Expr.predicted? : Expr → Option NativeClass
  | .literal _ _ value => some value.nativeClass
  | .group _ _ inner => inner.predicted?
  | .list _ _ elements => (Expr.predictedAll? elements).map fun _ => .list
  | .unary _ op right => right.predicted?.bind fun c => c.reply? (prefixMethod op) none
  | .binary _ left op right =>
    left.predicted?.bind fun c => right.predicted?.bind fun d => NativeClass.operator? op c d
  | .logical _ left _ right =>
    left.predicted?.bind fun c => right.predicted?.map fun d => c.join d
  | _ => none

/-- The classes that the checker finds for plain expressions, unless it rejects one of them. -/
def Expr.predictedAll? : List Expr → Option (List NativeClass)
  | [] => some []
  | e :: rest => e.predicted?.bind fun c => (Expr.predictedAll? rest).map fun cs => c :: cs

end

/-! ### Classes of plain expressions -/

/-- The classes that the checker finds for plain expressions. -/
def NativeClass.plain : List NativeClass := [object, nil, bool, int, float, string, list]

/-- The messages of operators; there is none that has no name. -/
def operatorMessages : List String :=
  ["", "add", "subtract", "multiply", "divide", "modulo", "equals", "greaterThan"]

/-- The message of an operator is one of operators. -/
theorem operatorMethod_mem (kind : Token.Kind) :
    Check.operatorMethod kind ∈ operatorMessages := by
  cases kind <;> decide

/-- The classes of plain expressions have no fields. -/
theorem NativeClass.property?_of_plain {c : NativeClass} (hc : c ∈ plain) (name : String) :
    c.property? name = none := by
  simp only [plain, List.mem_cons, List.not_mem_nil, or_false] at hc
  rcases hc with rfl | rfl | rfl | rfl | rfl | rfl | rfl <;> rfl

/-- The answer to the message of an operator is of such a class again. -/
theorem NativeClass.plain_reply {c d r : NativeClass} (hc : c ∈ plain) (hd : d ∈ plain)
    {name : String} (hname : name ∈ operatorMessages) (h : c.reply? name (some d) = some r) :
    r ∈ plain := by
  have htable : ∀ c ∈ plain, ∀ d ∈ plain, ∀ name ∈ operatorMessages,
      ∀ r ∈ c.reply? name (some d), r ∈ plain := by decide +kernel
  exact htable c hc d hd name hname r h

/-- So is the answer to that of an operator in front of its operand. -/
theorem NativeClass.plain_reply_prefix {c r : NativeClass} (hc : c ∈ plain) (op : Token)
    (h : c.reply? (prefixMethod op) none = some r) : r ∈ plain := by
  have htable : ∀ c ∈ plain, ∀ name ∈ ["negate", "isNotTrue"],
      ∀ r ∈ c.reply? name none, r ∈ plain := by decide +kernel
  have hname : prefixMethod op ∈ ["negate", "isNotTrue"] := by
    unfold prefixMethod
    split <;> decide
  exact htable c hc _ hname r h

/-- So is the result of an operator. -/
theorem NativeClass.plain_operator {op : Token} {c d r : NativeClass} (hc : c ∈ plain)
    (hd : d ∈ plain) (h : operator? op c d = some r) : r ∈ plain := by
  obtain ⟨q, hq, rfl⟩ := Option.map_eq_some_iff.1 h
  split
  · decide
  · exact plain_reply hc hd (operatorMethod_mem op.kind) hq

/-- So is the more general one of two such classes. -/
theorem NativeClass.plain_join {c d : NativeClass} (hc : c ∈ plain) (hd : d ∈ plain) :
    c.join d ∈ plain := by
  unfold join
  repeat' split
  all_goals first | assumption | decide

/-- The class of a plain expression. -/
theorem Expr.plain_predicted {c : NativeClass} : ∀ e : Expr, e.predicted? = some c →
    c ∈ NativeClass.plain
  | .literal _ _ value, h => by
    obtain rfl := Option.some.inj h
    cases value <;> simp [Literal.nativeClass, NativeClass.plain]
  | .group _ _ inner, h => inner.plain_predicted h
  | .list _ _ _, h => by
    obtain ⟨-, -, rfl⟩ := Option.map_eq_some_iff.1 h
    decide
  | .unary _ op right, h => by
    obtain ⟨d, hd, hreply⟩ := Option.bind_eq_some_iff.1 h
    exact NativeClass.plain_reply_prefix (right.plain_predicted hd) op hreply
  | .binary _ left op right, h => by
    obtain ⟨l, hl, h⟩ := Option.bind_eq_some_iff.1 h
    obtain ⟨r, hr, hoperator⟩ := Option.bind_eq_some_iff.1 h
    exact NativeClass.plain_operator (left.plain_predicted hl) (right.plain_predicted hr) hoperator
  | .logical _ left _ right, h => by
    obtain ⟨l, hl, h⟩ := Option.bind_eq_some_iff.1 h
    obtain ⟨r, hr, rfl⟩ := Option.map_eq_some_iff.1 h
    exact NativeClass.plain_join (left.plain_predicted hl) (right.plain_predicted hr)
  | .var _, h | .self .., h | .super .., h | .assign .., h | .get .., h | .set .., h | .call .., h
  | .lambda _, h => nomatch (h : none = some c)

/-! ### What the checker knows of the native classes -/

/-- The signature of a native method, with the native classes that its types name. -/
def NativeMethod.signature (m : NativeMethod) : Signature where
  name := m.name
  params := m.params
  paramTypes := m.params.map fun p => builtin (.named p.type.lexeme)
  returns := some (builtin (.named m.returns))
  returnsByArg := m.returnsByArg.map fun (arg, ret) => (arg, builtin (.named ret))

namespace Typing

/-- A checker that knows the native classes by their names. The native methods that it used so far
have their own signatures. -/
structure Checker.Seeded (s : Checker) : Prop where
  /-- The names of the native classes. -/
  globals : ∀ c : NativeClass, s.globals[c.name]? = some (some (.class (nativeType c)))
  /-- The native methods. -/
  natives : ∀ op f, s.nativeMethods.lookup op = some f →
    ∃ (c : NativeClass) (m : NativeMethod), m ∈ c.methods ∧ m.operation = op ∧
      s.signatures[f]? = some m.signature

/-- Before it has seen a program, a checker knows the native classes. -/
theorem seeded_initial : (Checker.ofMachine .initial).Seeded where
  globals c := by cases c <;> rfl
  natives := by
    have hnone : (Checker.ofMachine .initial).nativeMethods = [] := rfl
    rw [hnone]
    nofun

/-- A step has the given result, or it is left early if none is given. -/
def Check.Outcome {α : Type} : Option α → EStateM.Result Stop Checker α → Prop
  | some a, r => ∃ s', r = .ok a s' ∧ s'.Seeded
  | none, r => ∃ e s', r = .error e s'

/-- A step with the same outcome on all checkers that know the native classes. -/
def Check.Computes {α : Type} (x : Check α) (o : Option α) : Prop :=
  ∀ s : Checker, s.Seeded → Outcome o (x s)

namespace Check.Computes

variable {α β : Type} {x : Check α} {f : α → Check β} {o : Option α} {g : α → Option β}

/-- A value is computed. -/
theorem pure (a : α) : Computes (Pure.pure a) (some a) := fun s hs => ⟨s, rfl, hs⟩

/-- A step that stops computes nothing. -/
theorem throw (e : Stop) : Computes (throw e : Check α) none := fun s _ => ⟨e, s, rfl⟩

/-- One step after another: the second one computes on from the value of the first one. -/
theorem bind (hx : Computes x o) (hf : ∀ a, o = some a → Computes (f a) (g a)) :
    Computes (x >>= f) (o.bind g) := by
  intro s hs
  have hfirst := hx s hs
  cases o with
  | none =>
    obtain ⟨e, s', hstop⟩ := hfirst
    refine ⟨e, s', ?_⟩
    rw [bind_apply, hstop]
  | some a =>
    obtain ⟨s', hok, hs'⟩ := hfirst
    have hthen : (x >>= f) s = f a s' := by
      rw [bind_apply, hok]
    rw [hthen]
    exact hf a rfl s' hs'

/-- A step whose first part computes what stands for something else. -/
theorem bindMap {γ : Type} {h : γ → α} {o : Option γ} {g : γ → Option β}
    (hx : Computes x (o.map h)) (hf : ∀ c, o = some c → Computes (f (h c)) (g c)) :
    Computes (x >>= f) (o.bind g) := by
  cases o with
  | none => exact hx.bind (g := fun _ => none) nofun
  | some c =>
    have hall := hx.bind (g := fun _ => g c) fun a ha => Option.some.inj ha ▸ hf c rfl
    exact hall

/-- A step that reads the checker first. -/
theorem getBind {k : Checker → Check β} {p : Option β}
    (h : ∀ s : Checker, s.Seeded → Outcome p (k s s)) : Computes (get >>= k) p := h

/-- A step that goes on with what it computes. -/
theorem thenPure (hx : Computes x o) (h : α → β) :
    Computes (x >>= fun a => Pure.pure (h a)) (o.map h) := by
  rw [Option.map_eq_bind]
  exact hx.bind fun a _ => .pure (h a)

/-- What rejects the program in the end, whether or not it finds the words for it. -/
theorem reject {k : α → Check β} (hx : ∃ o, Computes x o) (hk : ∀ a, Computes (k a) none) :
    Computes (x >>= k) none := by
  obtain ⟨o, ho⟩ := hx
  have hall : o.bind (fun _ => (none : Option β)) = none := by
    cases o <;> rfl
  rw [← hall]
  exact ho.bind fun a _ => hk a

end Check.Computes

namespace Check

/-- The type of a node is recorded and given back. -/
theorem computes_record (id : NodeId) (t : Ty) : Computes (record id t) (some t) :=
  fun s hs => ⟨{ s with types := s.types.insert id t }, rfl, ⟨hs.globals, hs.natives⟩⟩

/-- A step whose result is the type of a node. -/
theorem Computes.recorded {x : Check Ty} {o : Option Ty} (hx : Computes x o) (id : NodeId) :
    Computes (x >>= fun t => record id t) o := by
  have hall := hx.bind fun t _ => computes_record id t
  rwa [Option.bind_fun_some] at hall

/-! ### Relations between native classes -/

/-- The class of all objects is the only one that stands for every value. -/
theorem isObject_builtin (c : NativeClass) : isObject (some (builtin c)) = decide (c = .object) := by
  cases c <;> rfl

/-- Native classes have identical types only if they are one. -/
theorem identical_builtin (c d : NativeClass) :
    (builtin c).identical (builtin d) = decide (c = d) := by
  cases c <;> cases d <;> rfl

/-- The subclasses of a native class are those that native code says. -/
theorem subclassOf_nativeType (c d : NativeClass) :
    ClassType.subclassOf (nativeType d) (nativeType c) = c.isSubclassOf d := by
  cases c <;> cases d <;> rfl

/-- Two native classes are the same only if they are one. -/
theorem same?_builtin (s : Checker) (c d : NativeClass) :
    s.same? (some (builtin c)) (some (builtin d)) = some (decide (c = d)) := by
  rw [← identical_builtin]
  rfl

/-- An argument of a native class is accepted as native code says. -/
theorem assignable?_builtin (s : Checker) (want arg : NativeClass) :
    s.assignable? (some (builtin want)) (some (builtin arg)) = some (want.admits arg) := by
  have hcases : s.assignable? (some (builtin want)) (some (builtin arg)) =
      if (decide (want = .object) || decide (arg = .object)) = true then some true
      else if decide (want = arg) = true then some true
      else some (ClassType.subclassOf (nativeType want) (nativeType arg)) := by
    unfold Checker.assignable?
    rw [isObject_builtin, isObject_builtin, same?_builtin]
    rfl
  rw [hcases, subclassOf_nativeType]
  cases want <;> cases arg <;> rfl

/-- Two native classes always have a common type, if only that of every object. -/
theorem unify?_builtin (s : Checker) (c d : NativeClass) :
    ∃ u, s.unify? (some (builtin c)) (some (builtin d)) = some u ∧
      u.join.getD objectType = builtin (c.join d) := by
  -- Of the comparisons only those of classes are left, which are decided by the tables.
  have hcases : s.unify? (some (builtin c)) (some (builtin d)) =
      if decide (c = d) = true then some (some (some (builtin c)))
      else if decide (c = .object) = true then some (some (some (builtin c)))
      else if decide (d = .object) = true then some (some (some (builtin d)))
      else if ClassType.subclassOf (nativeType d) (nativeType c) = true then
        some (some (some (builtin d)))
      else if ClassType.subclassOf (nativeType c) (nativeType d) = true then
        some (some (some (builtin c)))
      else some none := by
    unfold Checker.unify?
    rw [same?_builtin, isObject_builtin, isObject_builtin]
    rfl
  rw [hcases, subclassOf_nativeType, subclassOf_nativeType]
  cases c <;> cases d <;> exact ⟨_, rfl, rfl⟩

/-! ### Messages -/

/-- A complaint computes nothing. -/
theorem computes_reject {α : Type} (token : Token) (fault : Fault) :
    Computes (reject token fault : Check α) none := .throw _

/-- A question whose answer does not depend on the checker is computed. -/
theorem computes_answer {α : Type} {question : Checker → Option α} {a : α}
    (h : ∀ s, question s = some a) : Computes (answer question) (some a) := by
  refine .getBind fun s hs => ?_
  rw [h s]
  exact ⟨s, rfl, hs⟩

/-- The text of a native class is its name. -/
theorem computes_text (c : NativeClass) : Computes (text (builtin c)) (some c.name) :=
  computes_answer fun _ => rfl

/-- An argument for a parameter of a native class. -/
theorem computes_argument (site : Token) {sig : Signature} {p : Nat} {param : Param}
    {want : NativeClass} (htype : sig.paramTypes[p]? = some (builtin want))
    (hparam : sig.params[p]? = some param) (a : NativeClass) :
    Computes (argument site sig p (builtin a)) (if want.admits a then some () else none) := by
  unfold argument
  rw [htype, hparam]
  -- Whether the argument is admitted does not depend on the state.
  have hassignable : Computes (answer (·.assignable? (some (builtin want)) (some (builtin a))))
      (some (want.admits a)) := computes_answer fun s => assignable?_builtin s want a
  have hall := hassignable.bind (f := fun ok => if ok = true then Pure.pure () else do
    reject site (.badArgument (← text (builtin want)) param.name.lexeme sig.name
      (← text (builtin a)))) (g := fun ok => if ok = true then some () else none) ?_
  · exact hall
  · rintro ok -
    cases ok with
    | true => exact .pure ()
    | false =>
      refine .reject ⟨_, computes_text want⟩ fun _ => ?_
      exact .reject ⟨_, computes_text a⟩ fun _ => computes_reject _ _

/-- The number of arguments is checked first. -/
theorem computes_count {site : Token} {sig : Signature} (hrequired : Param.AllRequired sig.params)
    {args : List Ty} (hcount : args.length ≠ sig.params.length) :
    Computes (arguments site sig args []) none := by
  have hadmits : (Arity.ofParams sig.params).admits (args.length + 0) = false := by
    rw [hrequired.fixed.2, Arity.admits, Option.all_some, ← Bool.decide_and, decide_eq_false_iff_not]
    show ¬(sig.params.length ≤ args.length + 0 ∧ args.length + 0 ≤ sig.params.length)
    omega
  unfold arguments
  dsimp only [List.length_nil]
  rw [hadmits]
  exact (computes_reject _ _).bind (g := fun _ => none) fun _ hb => by cases hb

/-- One argument for one parameter. -/
theorem arguments_single {site : Token} {sig : Signature} {p : Param} (hparams : sig.params = [p])
    (hvariadic : p.variadic = false) (hdefault : p.defaultValue = none) (t : Ty) :
    arguments site sig [t] [] = argument site sig 0 t := by
  -- The only parameter is neither variadic nor optional, so exactly one argument is admitted.
  have hfixed : fixedCount [p] = 1 := by
    simp [fixedCount, Arity.isVariadic, hvariadic]
  have hadmits : (Arity.ofParams sig.params).admits 1 = true := by
    simp [hparams, Arity.ofParams, Arity.isVariadic, Arity.isRequired, Arity.admits, hvariadic,
      hdefault]
  unfold arguments
  dsimp only [List.length_singleton, List.length_nil, Nat.add_zero]
  rw [hadmits, if_pos rfl]
  simp only [positional, hparams, hfixed]
  funext s
  rw [bind_apply, bind_apply]
  show _ = argument site sig (min 0 1) t s
  cases argument site sig (min 0 1) t s with
  | ok u s' => rfl
  | error e s' => rfl

/-- The arguments of a message are checked against the signature of a native method. -/
theorem computes_arguments (site : Token) {c : NativeClass} {m : NativeMethod} (hm : m ∈ c.methods)
    (arg : Option NativeClass) :
    Computes (arguments site m.signature (arg.toList.map builtin) [])
      (if m.accepts arg then some () else none) := by
  have hrequired := allRequired_params hm
  -- Native methods that operators use have no parameter or one; with more, every count is wrong.
  obtain ⟨name, params, returns, operation, returnsByArg⟩ := m
  rcases params with _ | ⟨p, _ | ⟨q, params⟩⟩
  · cases arg with
    | none => exact .pure ()
    | some a => exact computes_count hrequired nofun
  · cases arg with
    | none => exact computes_count hrequired nofun
    | some a =>
      obtain ⟨hdefault, hvariadic⟩ := hrequired p List.mem_cons_self
      let m : NativeMethod := ⟨name, [p], returns, operation, returnsByArg⟩
      have hsingle : arguments site m.signature [builtin a] []
          = argument site m.signature 0 (builtin a) :=
        arguments_single rfl hvariadic (Option.isNone_iff_eq_none.1 hdefault) (builtin a)
      show Computes (arguments site m.signature [builtin a] []) _
      rw [hsingle]
      exact computes_argument site rfl rfl a
  · cases arg with
    | none => exact computes_count hrequired nofun
    | some a => exact computes_count hrequired nofun

/-- The name of a native class names it. -/
theorem named_name (c : NativeClass) : NativeClass.named c.name = c := by
  cases c <;> rfl

/-- The name of a native class declares its objects. -/
theorem globalType_named {s : Checker} (hs : s.Seeded) {name : String}
    (hname : name ∈ NativeClass.all.map (·.name)) :
    globalType s name = builtin (.named name) := by
  obtain ⟨c, -, rfl⟩ := List.mem_map.1 hname
  rw [globalType, hs.globals, named_name]
  cases c <;> rfl

/-- The signatures of native methods name native classes only. -/
theorem names_mem_all {c : NativeClass} {m : NativeMethod} (hm : m ∈ c.methods) :
    m.returns ∈ NativeClass.all.map (·.name) ∧
      (∀ p ∈ m.params, p.type.lexeme ∈ NativeClass.all.map (·.name)) ∧
      ∀ r ∈ m.returnsByArg, r.2 ∈ NativeClass.all.map (·.name) := by
  have htable : ∀ c ∈ NativeClass.all, ∀ m ∈ c.methods,
      m.returns ∈ NativeClass.all.map (·.name) ∧
      (∀ p ∈ m.params, p.type.lexeme ∈ NativeClass.all.map (·.name)) ∧
      ∀ r ∈ m.returnsByArg, r.2 ∈ NativeClass.all.map (·.name) := by decide +kernel
  exact htable c c.mem_all m hm

/-- The signature that a checker makes for a native method. -/
theorem nativeSignature_eq {s : Checker} (hs : s.Seeded) {c : NativeClass} {m : NativeMethod}
    (hm : m ∈ c.methods) :
    nativeMethodSignature s m = m.signature := by
  obtain ⟨hreturns, hparams, hbyArg⟩ := names_mem_all hm
  have hparamTypes : m.params.map (fun p => globalType s p.type.lexeme)
      = m.params.map fun p => builtin (.named p.type.lexeme) :=
    List.map_congr_left fun p hp => globalType_named hs (hparams p hp)
  have hreturnsByArg : m.returnsByArg.map (fun (arg, ret) => (arg, globalType s ret))
      = m.returnsByArg.map fun (arg, ret) => (arg, builtin (.named ret)) :=
    List.map_congr_left fun r hr => congrArg (r.1, ·) (globalType_named hs (hbyArg r hr))
  rw [nativeMethodSignature, nativeSignature, hparamTypes, hreturnsByArg,
    globalType_named hs hreturns]
  rfl

/-- Two native methods that do the same are one method. -/
theorem eq_of_operation_eq {c d : NativeClass} {m n : NativeMethod} (hm : m ∈ c.methods)
    (hn : n ∈ d.methods) (h : m.operation = n.operation) : m = n := by
  have hnodup : ((NativeClass.all.flatMap (·.methods)).map (·.operation)).Nodup := by
    decide +kernel
  have hmem : ∀ {c : NativeClass} {m : NativeMethod}, m ∈ c.methods →
      m ∈ NativeClass.all.flatMap (·.methods) :=
    fun {c} _ h => List.mem_flatMap.2 ⟨c, c.mem_all, h⟩
  exact List.inj_on_of_nodup_map hnodup (hmem hm) (hmem hn) h

/-- The type of a native method is a function of its own signature. -/
theorem nativeMethod_seeded {s : Checker} (hs : s.Seeded) {c : NativeClass} {m : NativeMethod}
    (hm : m ∈ c.methods) :
    ∃ f s', nativeMethod m s = .ok (.function f) s' ∧ s'.Seeded ∧ s'.signature f = m.signature := by
  have hstep := nativeMethod_apply m s
  -- The function was made before, or it is made now.
  cases hlookup : s.nativeMethods.lookup m.operation with
  | some f =>
    obtain ⟨d, n, hn, hop, hsig⟩ := hs.natives _ _ hlookup
    obtain rfl := eq_of_operation_eq hn hm hop
    rw [hlookup] at hstep
    refine ⟨f, s, hstep, hs, ?_⟩
    rw [Checker.signature, hsig]
    rfl
  | none =>
    rw [hlookup, nativeSignature_eq hs hm] at hstep
    refine ⟨_, _, hstep, ⟨hs.globals, ?_⟩, ?_⟩
    · intro op f hf
      rw [List.lookup_cons] at hf
      split at hf
      · next hop =>
        obtain rfl := Option.some.inj hf
        exact ⟨c, m, hm, (beq_iff_eq.1 hop).symm, Array.getElem?_push_size⟩
      · -- The functions of other methods are in front of the new one.
        obtain ⟨d, n, hn, hop, hsig⟩ := hs.natives op f hf
        have hlt : f < s.signatures.size := (Array.getElem?_eq_some_iff.1 hsig).1
        refine ⟨d, n, hn, hop, ?_⟩
        rw [Array.getElem?_push_lt hlt, ← hsig, Array.getElem?_eq_getElem hlt]
    · rw [Checker.signature, Array.getElem?_push_size]
      rfl

/-- The type of the answer to a call of a native method. -/
theorem answer_signature (m : NativeMethod) (arg : Option NativeClass) :
    ((match arg.toList.map builtin with
        | .instance c :: _ => m.signature.returnsByArg.lookup c.name
        | _ => none) <|> m.signature.returns).getD objectType = builtin (m.answer arg) := by
  cases arg with
  | none => rfl
  | some a =>
    -- To look the rows up by the name of the class goes along with their types.
    have hlookup : ∀ rows : List (String × String),
        (rows.map fun (arg, ret) => (arg, builtin (.named ret))).lookup a.name
          = (rows.lookup a.name).map fun ret => builtin (.named ret) := by
      intro rows
      induction rows with
      | nil => rfl
      | cons row rows ih =>
        rw [List.map_cons, List.lookup_cons, List.lookup_cons]
        split
        · rfl
        · exact ih
    show ((m.signature.returnsByArg.lookup a.name) <|> m.signature.returns).getD objectType = _
    have hrows : m.signature.returnsByArg.lookup a.name = _ := hlookup m.returnsByArg
    rw [hrows]
    unfold NativeMethod.answer
    dsimp only [Option.bind_some]
    cases m.returnsByArg.lookup a.name <;> rfl

/-- The type of a call of a native method. -/
theorem computes_callType {s : Checker} (hs : s.Seeded) (site : Token) {c : NativeClass}
    {m : NativeMethod} (hm : m ∈ c.methods) {f : SignatureId} (hf : s.signature f = m.signature)
    (arg : Option NativeClass) :
    Outcome (if m.accepts arg then some (builtin (m.answer arg)) else none)
      (callType site (.function f) (arg.toList.map builtin) [] s) := by
  have hstep : callType site (.function f) (arg.toList.map builtin) [] s
      = (do
          arguments site m.signature (arg.toList.map builtin) []
          return builtin (m.answer arg) : Check Ty) s := by
    rw [← answer_signature, ← hf]
    rfl
  -- The arguments are checked first, and the result is known by then.
  rw [hstep]
  have hall := (computes_arguments site hm arg).thenPure fun _ => builtin (m.answer arg)
  have hresult := hall s hs
  split at hresult
  · next haccepts => rw [if_pos haccepts]; exact hresult
  · next hrejects => rw [if_neg hrejects]; exact hresult

/-- The type of a member of an object of a native class without properties. -/
theorem member_builtin {c : NativeClass} (hc : c ≠ .object) {name : Token}
    (hproperty : c.property? name.lexeme = none) :
    member (builtin c) name = match c.method? name.lexeme with
      | some m => nativeMethod m
      | none => objectMember (builtin c) name := by
  unfold member
  rw [isObject_builtin, decide_eq_false hc, if_neg Bool.false_ne_true]
  have hnative : (nativeType c).native? = some c := rfl
  cases hmethod : c.method? name.lexeme with
  | some m => simp only [builtin, hnative, hmethod]
  | none => simp only [builtin, hnative, hmethod, hproperty]

/-- What no object has is rejected. -/
theorem computes_objectMember (c : NativeClass) (name : Token)
    (hmethod : c.method? name.lexeme = none) : Computes (objectMember (builtin c) name) none := by
  -- A class has what everything has, so what it does not have, nothing has.
  have hown : NativeClass.object.ownMethod? name.lexeme = none := by
    unfold NativeClass.method? at hmethod
    cases hobject : NativeClass.object.ownMethod? name.lexeme with
    | none => rfl
    | some m =>
      rw [hobject] at hmethod
      cases hown : c.ownMethod? name.lexeme <;>
        cases hparent : c.parent?.bind (·.ownMethod? name.lexeme) <;> simp_all
  unfold objectMember
  rw [hown]
  exact .reject ⟨_, computes_text c⟩ fun _ => computes_reject _ _

/-- The type of the answer to a message to an object of a native class without properties. -/
theorem computes_send (site : Token) {c : NativeClass} {name : String}
    (hproperty : c.property? name = none) (arg : Option NativeClass) :
    Computes (send site (builtin c) name (arg.toList.map builtin))
      ((c.reply? name arg).map builtin) := by
  intro s hs
  rw [send_apply]
  unfold NativeClass.reply?
  by_cases hc : c = .object
  · subst hc
    exact ⟨s, rfl, hs⟩
  · rw [if_neg hc, member_builtin hc hproperty]
    dsimp only
    cases hmethod : c.method? name with
    | some m =>
      -- The method has its own signature, whatever the state has seen before.
      obtain ⟨d, hm⟩ := NativeClass.exists_of_method? hmethod
      obtain ⟨f, s', hok, hs', hf⟩ := nativeMethod_seeded hs hm
      have hcall := computes_callType hs' site hm hf arg
      simp only [hok, Option.bind_some]
      split at hcall
      · next haccepts => rw [if_pos haccepts]; exact hcall
      · next hrejects => rw [if_neg hrejects]; exact hcall
    | none =>
      obtain ⟨e, s', herror⟩ := computes_objectMember c { site with lexeme := name } hmethod s hs
      simp only [herror]
      cases e <;> exact ⟨_, _, rfl⟩

/-! ### Operators -/

/-- An operator between native classes has the result that native code says. -/
theorem computes_binaryType (op : Token) {c d : NativeClass} (hc : c ∈ NativeClass.plain) :
    Computes (binaryType op (builtin c) (builtin d))
      ((NativeClass.operator? op c d).map builtin) := by
  have hproperty := NativeClass.property?_of_plain hc (operatorMethod op.kind)
  have hsend := computes_send op hproperty (some d)
  have hall := hsend.thenPure fun t => if answersBool op.kind then builtin .bool else t
  have hclass : ((c.reply? (operatorMethod op.kind) (some d)).map builtin).map
      (fun t => if answersBool op.kind then builtin .bool else t)
        = (NativeClass.operator? op c d).map builtin := by
    unfold NativeClass.operator?
    rw [Option.map_map, Option.map_map]
    congr 1
    funext q
    exact (apply_ite builtin ..).symm
  rw [← hclass]
  exact hall

/-- Both sides together have the more general class. -/
theorem computes_logicalType (c d : NativeClass) :
    Computes (logicalType (builtin c) (builtin d)) (some (builtin (c.join d))) := by
  intro s hs
  obtain ⟨u, hunify, hjoin⟩ := unify?_builtin s c d
  have hstep : logicalType (builtin c) (builtin d) s = .ok (u.join.getD objectType) s := by
    unfold logicalType answer
    rw [bind_apply, bind_apply]
    dsimp only [MonadState.get, getThe, MonadStateOf.get, EStateM.get]
    rw [hunify]
    rfl
  exact ⟨s, by rw [hstep, hjoin], hs⟩

mutual

/-- The checker finds the class that the signatures of the native methods lead to. -/
theorem computes_expr : ∀ e : Expr, e.IsPlain → Computes (expr e) (e.predicted?.map builtin)
  | .literal id _ value, _ => by
    have hliteral : literalType value = builtin value.nativeClass := by
      cases value <;> rfl
    show Computes (record id (literalType value)) (some (builtin value.nativeClass))
    rw [hliteral]
    exact computes_record id _
  | .group id _ inner, h => (computes_expr inner h).recorded id
  | .list id _ elements, h => by
    have hall := (computes_exprs elements h).bind fun _ _ => computes_record id (builtin .list)
    have hlist : ((Expr.predictedAll? elements).map fun cs => cs.map builtin).bind
        (fun _ => some (builtin .list))
          = ((Expr.predictedAll? elements).map fun _ => NativeClass.list).map builtin := by
      cases Expr.predictedAll? elements <;> rfl
    rw [hlist] at hall
    exact hall
  | .unary id op right, h => by
    show Computes _ ((right.predicted?.bind fun c => c.reply? (prefixMethod op) none).map builtin)
    rw [Option.map_bind]
    refine (computes_expr right h).bindMap fun c hc => Computes.recorded ?_ id
    exact computes_send op (NativeClass.property?_of_plain (right.plain_predicted hc) _) none
  | .binary id left op right, h => by
    show Computes _ ((left.predicted?.bind fun c =>
      right.predicted?.bind fun d => NativeClass.operator? op c d).map builtin)
    rw [Option.map_bind]
    refine (computes_expr left h.1).bindMap fun c hc => ?_
    show Computes _ ((right.predicted?.bind fun d => NativeClass.operator? op c d).map builtin)
    rw [Option.map_bind]
    refine (computes_expr right h.2).bindMap fun d _ => Computes.recorded ?_ id
    exact computes_binaryType op (left.plain_predicted hc)
  | .logical id left _ right, h => by
    show Computes _ ((left.predicted?.bind fun c =>
      right.predicted?.map fun d => c.join d).map builtin)
    rw [Option.map_bind]
    refine (computes_expr left h.1).bindMap fun c _ => ?_
    show Computes _ ((right.predicted?.map fun d => c.join d).map builtin)
    rw [Option.map_map, Option.map_eq_bind]
    refine (computes_expr right h.2).bindMap fun d _ => Computes.recorded ?_ id
    exact computes_logicalType c d
  | .var _, h | .self .., h | .super .., h | .assign .., h | .get .., h | .set .., h | .call .., h
  | .lambda _, h => False.elim h

/-- Plain expressions in a row have the predicted classes. -/
theorem computes_exprs : ∀ es : List Expr, Expr.ArePlain es →
    Computes (exprs es) ((Expr.predictedAll? es).map fun cs => cs.map builtin)
  | [], _ => .pure []
  | e :: rest, h => by
    show Computes _ ((e.predicted?.bind fun c =>
      (Expr.predictedAll? rest).map fun cs => c :: cs).map fun cs => cs.map builtin)
    rw [Option.map_bind]
    refine (computes_expr e h.1).bindMap fun c _ => ?_
    show Computes _ (((Expr.predictedAll? rest).map fun cs => c :: cs).map fun cs => cs.map builtin)
    rw [Option.map_map, Option.map_eq_bind]
    exact (computes_exprs rest h.2).bindMap fun cs _ => .pure _

end

end Check

end Typing

end ClassScript
