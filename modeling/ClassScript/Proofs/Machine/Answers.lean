import ClassScript.Machine.Evaluate
import ClassScript.Proofs.Machine.Restores

/-!
# What native methods answer

The signature of a native method names the class of its answer. `answers_run` shows that the native
code keeps to it: whatever a method does on the way, an answer that it gives is of the class that
its operation stands for, and `returns_eq_answer` compares this class with the one in the signature.

`Exec.Answers` speaks only of the results of steps, in whatever state they start. A step that fails
answers nothing.
-/

namespace ClassScript

/-! ### Results of steps -/

/-- Every result of a step has a property. -/
def Exec.Answers {α : Type} (x : Exec α) (Q : α → Prop) : Prop := ∀ m a m', x m = .ok a m' → Q a

namespace Exec.Answers

variable {α β : Type} {Q : α → Prop} {R : β → Prop} {x : Exec α} {f : α → Exec β}

/-- A value with the property is the only answer of a step that gives it. -/
theorem pure {a : α} (h : Q a) : Answers (Pure.pure a) Q := by
  intro m b m' hok
  cases hok
  exact h

/-- A step that stops has no answer. -/
theorem throw {e : Interrupt} : Answers (throw e : Exec α) Q := by
  intro m a m' hok
  cases hok

/-- A step that crashes has no answer. -/
theorem fault : Answers (Exec.fault : Exec α) Q := throw

/-- The answers of two steps in a row are those of the second one. -/
theorem bind (hx : Answers x Q) (hf : ∀ a, Q a → Answers (f a) R) : Answers (x >>= f) R := by
  intro m b m' hok
  rw [bind_apply] at hok
  split at hok
  · next a m₁ hstep => exact hf a (hx m a m₁ hstep) m₁ b m' hok
  · cases hok

/-- A step whose result does not matter. -/
theorem skip (hf : ∀ a, Answers (f a) R) : Answers (x >>= f) R :=
  bind (fun _ _ _ _ => trivial) fun a (_ : True) => hf a

/-- What is made of every answer has the property. -/
theorem map {g : α → β} (hx : Answers x fun a => R (g a)) : Answers (g <$> x) R :=
  bind hx fun _ ha => pure ha

/-- The call site does not matter to the answers. -/
theorem located (hx : Answers x Q) (site : Token) : Answers (Exec.located site x) Q := by
  intro m a m' hok
  unfold Exec.located at hok
  split at hok
  · next hstep => cases hok; exact hx _ _ _ hstep
  · cases hok

/-- Neither does the place of an error. -/
theorem atSite (hx : Answers x Q) (site : Token) : Answers (Exec.atSite site x) Q := by
  intro m a m' hok
  unfold Exec.atSite at hok
  dsimp only at hok
  split at hok
  · next hstep => cases hok; exact hx _ _ _ hstep
  · cases hok

end Exec.Answers

open Exec (Answers)

/-! ### Native operations -/

/-- The class of what a native operation answers if its first argument is of a class; every value is
an object. -/
def Operation.answer : Operation → Option NativeClass → NativeClass
  | .intArithmetic _, some .float => .float
  | .intArithmetic _, _ => .int
  | .objectEquals, _ | .objectIsTrue, _ | .objectIsNotTrue, _ | .nilIsTrue, _ | .boolIsTrue, _
  | .boolIsNotTrue, _ | .boolEquals, _ | .intGreaterThan, _ | .intEquals, _ | .intIsTrue, _
  | .floatGreaterThan, _ | .floatEquals, _ | .floatIsTrue, _ | .stringContains, _
  | .stringEquals, _ | .stringGreaterThan, _ | .stringIsTrue, _ | .listContains, _
  | .listEquals, _ | .mapHas, _ => .bool
  | .objectToString, _ | .nilToString, _ | .boolToString, _ | .intToString, _ | .floatToString, _
  | .stringAdd, _ | .stringGet, _ | .stringUpper, _ | .stringLower, _ | .stringToString, _
  | .listToString, _ | .varargsToString, _ | .mapToString, _ | .pairToString, _ => .string
  | .objectInit, _ | .listAdd, _ | .listSet, _ | .mapSet, _ => .nil
  | .intNegate, _ | .floatToInt, _ | .stringLength, _ | .listLength, _ | .varargsLength, _
  | .mapLength, _ => .int
  | .intToFloat, _ | .floatArithmetic _, _ | .floatNegate, _ | .floatFloor, _ => .float
  | .stringSplit, _ | .varargsToList, _ | .mapKeys, _ => .list
  | .intIterate, _ | .stringIterate, _ | .listIterate, _ | .varargsIterate, _ | .mapIterate, _
  | .iteratorIterate, _ => .iterator
  | .iteratorNext, _ => .iteratorResult
  | .listGet, _ | .listPop, _ | .varargsGet, _ | .mapGet, _ | .mapRemove, _ => .object

/-- A value is of a class; every value is an object. -/
def Value.IsOf (v : Value) (c : NativeClass) : Prop := c = .object ∨ v.nativeClass? = some c

/-- The class of the first argument of a call. -/
def firstClass? (args : List Value) : Option NativeClass := args.head?.map Value.classOf

/-- A new list is a list. -/
theorem answers_newList (items : List Value) :
    Answers (Exec.newList items) fun v => v.nativeClass? = some .list :=
  .skip fun _ => .pure rfl

/-- A new iterator is an iterator. -/
theorem answers_newIterator (c : Cursor) :
    Answers (Exec.newIterator c) fun v => v.nativeClass? = some .iterator :=
  .skip fun _ => .pure rfl

/-- Arithmetic on an integer answers an integer or a float, as the other operand is. -/
theorem answers_onInt (op : Arithmetic) (a : Int64) (v : Value) :
    Answers (Exec.ofExcept (op.onInt a v)) fun r =>
      r.IsOf ((Operation.intArithmetic op).answer (firstClass? [v])) := by
  -- An integer with an integer stays one; a float makes the answer a float.
  cases v with
  | int b =>
    show Answers (Exec.ofExcept (Value.int <$> op.onInts a b)) _
    cases op.onInts a b with
    | ok c => exact .pure (.inr rfl)
    | error cause => exact .throw
  | float y =>
    show Answers (Exec.ofExcept (Value.float <$> op.onFloats a.toFloat y)) _
    cases op.onFloats a.toFloat y with
    | ok x => exact .pure (.inr rfl)
    | error cause => exact .throw
  | _ => exact .throw

/-- Arithmetic on a float answers a float. -/
theorem answers_onFloat (op : Arithmetic) (x : Float) (v : Value) :
    Answers (Exec.ofExcept (op.onFloat x v)) fun r => r.nativeClass? = some .float := by
  cases v with
  | int b =>
    show Answers (Exec.ofExcept (Value.float <$> op.onFloats x b.toFloat)) _
    cases op.onFloats x b.toFloat with
    | ok z => exact .pure rfl
    | error cause => exact .throw
  | float y =>
    show Answers (Exec.ofExcept (Value.float <$> op.onFloats x y)) _
    cases op.onFloats x y with
    | ok z => exact .pure rfl
    | error cause => exact .throw
  | _ => exact .throw

variable (eng : Engine)

/-- The methods of all objects answer what their signatures say. -/
theorem answers_runObject (op : Operation) (self : Value) (args : List Value) :
    Answers (eng.runObject op self args) fun r => r.IsOf (op.answer (firstClass? args)) := by
  unfold Engine.runObject
  split
  · exact .pure (.inr rfl)
  · exact .pure (.inr rfl)
  · exact .skip fun _ => .pure (.inr rfl)
  · exact .pure (.inr rfl)
  · exact .pure (.inr rfl)
  · exact .fault

/-- So do those of numbers and truth values. -/
theorem answers_runPlain (op : Operation) (self : Value) (args : List Value) :
    Answers (Engine.runPlain op self args) fun r => r.IsOf (op.answer (firstClass? args)) := by
  unfold Engine.runPlain
  split
  case h_7 op a v => exact answers_onInt op a v
  case h_14 => exact fun m r m' h => .inr (answers_newIterator _ m r m' h)
  case h_15 op x v => exact fun m r m' h => .inr (answers_onFloat op x v m r m' h)
  case h_9 => exact .map fun _ _ _ _ => .inr rfl
  case h_17 => exact .map fun _ _ _ _ => .inr rfl
  case h_23 => exact .fault
  all_goals exact .pure (.inr rfl)

/-- So do those of texts. -/
theorem answers_runText (op : Operation) (self : Value) (args : List Value) :
    Answers (Engine.runText op self args) fun r => r.IsOf (op.answer (firstClass? args)) := by
  unfold Engine.runText
  split
  case h_5 => exact .skip fun _ m r m' h => .inr (answers_newList _ m r m' h)
  case h_12 => exact fun m r m' h => .inr (answers_newIterator _ m r m' h)
  case h_1 | h_3 | h_4 | h_9 => exact .skip fun _ => .pure (.inr rfl)
  case h_13 => exact .fault
  all_goals exact .pure (.inr rfl)

/-- So do those of lists. -/
theorem answers_runList (op : Operation) (self : Value) (args : List Value) :
    Answers (eng.runList op self args) fun r => r.IsOf (op.answer (firstClass? args)) := by
  unfold Engine.runList
  split
  -- The answer of these is any value, and every value is an object.
  case h_2 | h_5 | h_11 => exact fun _ _ _ _ => .inl rfl
  case h_3 => exact .skip fun _ => .skip fun _ => .skip fun _ => .pure (.inr rfl)
  case h_7 =>
    -- Two lists are compared item by item only if they have one length.
    split
    · refine .skip fun _ => .skip fun _ => ?_
      split
      · exact .skip fun _ => .pure (.inr rfl)
      · exact .pure (.inr rfl)
    · exact .pure (.inr rfl)
  case h_8 | h_12 => exact fun m r m' h => .inr (answers_newIterator _ m r m' h)
  case h_13 => exact fun m r m' h => .inr (answers_newList _ m r m' h)
  case h_6 | h_9 => exact .skip fun _ => .skip fun _ => .pure (.inr rfl)
  case h_1 | h_4 | h_14 => exact .skip fun _ => .pure (.inr rfl)
  case h_15 => exact .fault
  all_goals exact .pure (.inr rfl)

/-- So do those of maps. -/
theorem answers_runMap (op : Operation) (self : Value) (args : List Value) :
    Answers (eng.runMap op self args) fun r => r.IsOf (op.answer (firstClass? args)) := by
  unfold Engine.runMap
  split
  -- A value, or the value of a key, may be anything.
  case h_2 | h_4 => exact fun _ _ _ _ => .inl rfl
  case h_6 => exact .skip fun _ m r m' h => .inr (answers_newList _ m r m' h)
  case h_7 => exact .skip fun _ m r m' h => .inr (answers_newIterator _ m r m' h)
  case h_1 | h_3 | h_5 | h_9 => exact .skip fun _ => .pure (.inr rfl)
  case h_8 => exact .skip fun _ => .skip fun _ => .pure (.inr rfl)
  -- The next step of an iterator is of one of three kinds, and answers alike in all of them.
  case h_10 =>
    refine .skip fun step => ?_
    cases step with
    | element v next => exact .skip fun _ => .skip fun _ => .pure (.inr rfl)
    | entry key value next => exact .skip fun _ => .skip fun _ => .skip fun _ => .pure (.inr rfl)
    | finished => exact .skip fun _ => .skip fun _ => .pure (.inr rfl)
  case h_11 => exact .pure (.inr rfl)
  case h_12 => exact .fault

/-- A native operation answers a value of its class. -/
theorem answers_run (op : Operation) (self : Value) (args : List Value) :
    Answers (eng.run op self args) fun r => r.IsOf (op.answer (firstClass? args)) := by
  unfold Engine.run
  split
  all_goals first
    | exact answers_runObject eng _ self args
    | exact answers_runText _ self args
    | exact answers_runList eng _ self args
    | exact answers_runMap eng _ self args
    | exact answers_runPlain _ self args

/-! ### Signatures -/

/-- The native class that a signature names; every value is an object. -/
def NativeClass.named (name : String) : NativeClass := (ofName? name).getD object

/-- The class that a signature names for the answer if the first argument is of a class. -/
def NativeMethod.answer (m : NativeMethod) (arg : Option NativeClass) : NativeClass :=
  .named ((arg.bind fun c => m.returnsByArg.lookup c.name).getD m.returns)

/-- Every native class is in the list of them. -/
theorem NativeClass.mem_all (c : NativeClass) : c ∈ all := by
  cases c <;> decide

/-- The signature of a native method names the class that its operation answers. -/
theorem answer_eq_answer {c : NativeClass} {m : NativeMethod} (hm : m ∈ c.methods)
    (arg : Option NativeClass) : m.answer arg = m.operation.answer arg := by
  have htable : ∀ c ∈ NativeClass.all, ∀ m ∈ c.methods, ∀ arg ∈ none :: NativeClass.all.map some,
      m.answer arg = m.operation.answer arg := by decide +kernel
  apply htable c c.mem_all m hm arg
  cases arg with
  | none => exact List.mem_cons_self
  | some a => exact List.mem_cons_of_mem _ (List.mem_map_of_mem a.mem_all)

/-! ### Messages -/

/-- A method that is found by its name is a method of the class. -/
theorem NativeClass.mem_of_ownMethod? {c : NativeClass} {name : String} {m : NativeMethod}
    (h : c.ownMethod? name = some m) : m ∈ c.methods := List.mem_of_find?_eq_some h

/-- The method of a name is declared by some native class. -/
theorem NativeClass.exists_of_method? {c : NativeClass} {name : String} {m : NativeMethod}
    (h : c.method? name = some m) : ∃ d : NativeClass, m ∈ d.methods := by
  have hcases : c.ownMethod? name = some m ∨ (c.parent?.bind (·.ownMethod? name)) = some m ∨
      object.ownMethod? name = some m := by
    unfold method? at h
    cases hown : c.ownMethod? name <;> cases hparent : c.parent?.bind (·.ownMethod? name) <;>
      simp_all
  rcases hcases with h | h | h
  · exact ⟨c, mem_of_ownMethod? h⟩
  · obtain ⟨p, -, h⟩ := Option.bind_eq_some_iff.1 h
    exact ⟨p, mem_of_ownMethod? h⟩
  · exact ⟨object, mem_of_ownMethod? h⟩

/-- All parameters are required, and none is variadic. -/
def Param.AllRequired (params : List Param) : Prop :=
  ∀ p ∈ params, p.defaultValue.isNone ∧ p.variadic = false

/-- Every parameter of a native method is required. -/
theorem allRequired_params {c : NativeClass} {m : NativeMethod} (hm : m ∈ c.methods) :
    Param.AllRequired m.params := by
  have htable : ∀ c ∈ NativeClass.all, ∀ m ∈ c.methods, ∀ p ∈ m.params,
      p.defaultValue.isNone ∧ p.variadic = false := by decide
  exact htable c c.mem_all m hm

/-- Parameters that are all required take just as many arguments. -/
theorem Param.AllRequired.fixed {params : List Param} (h : AllRequired params) :
    Arity.isVariadic params = false ∧ Arity.ofParams params = ⟨params.length, some params.length⟩ := by
  have hvariadic : Arity.isVariadic params = false := by
    unfold Arity.isVariadic
    -- Only the last parameter could be variadic.
    cases hlast : params.getLast? with
    | none => rfl
    | some p => exact (h p (List.mem_of_getLast? hlast)).2
  have hrequired : params.filter Arity.isRequired = params := by
    apply List.filter_eq_self.2
    intro p hp
    rw [Arity.isRequired, (h p hp).1, (h p hp).2]
    rfl
  exact ⟨hvariadic, by simp [Arity.ofParams, hvariadic, hrequired]⟩

/-- Required parameters take the positional arguments one by one. -/
theorem Slot.ofCall_required {α : Type} {params : List Param} {args : List α}
    {slots : List (Slot α)} (hparams : Param.AllRequired params)
    (h : Slot.ofCall params args [] = .ok slots) : slots = args.map .given := by
  obtain ⟨hvariadic, harity⟩ := hparams.fixed
  unfold ofCall at h
  dsimp only at h
  split at h
  · next hcount =>
    -- Without a variadic parameter and without defaults the numbers are the same.
    have hlength : args.length = params.length := by
      simp only [harity, Arity.admits, List.length_nil, Nat.add_zero, Bool.and_eq_true,
        decide_eq_true_eq, Option.all_some] at hcount
      exact Nat.le_antisymm hcount.2 hcount.1
    have hfilled : ofPositional params args = args.map .given := by
      unfold ofPositional fixedCount
      simp [hvariadic, hlength, List.take_of_length_le (Nat.le_of_eq hlength)]
    -- There are no named arguments left, so nothing is filled behind the positional ones.
    rw [ofArguments_of_filled (List.foldlM_nil ..), hfilled] at h
    split at h
    · cases h
    · cases h
      rfl
  · cases h

/-- Arguments that are all given go to native code as they are. -/
theorem nativeArguments_given (args : List Value) (m : Machine) :
    Engine.nativeArguments (args.map .given) m = .ok args m := by
  induction args with
  | nil => rfl
  | cons v rest ih =>
    have hstep : Engine.nativeArguments ((v :: rest).map .given)
        = (do return v :: (← Engine.nativeArguments (rest.map .given))) := rfl
    rw [hstep, Exec.bind_apply, ih]
    rfl

/-- A call of a native method answers what its signature names. -/
theorem answers_invokeWith {c : NativeClass} {method : NativeMethod} (hm : method ∈ c.methods)
    (site : Token) (id : ObjectId) (receiver : Value) (args : List Value) :
    Answers (eng.invokeWith site (.boundMethod id receiver method) args []) fun r =>
      r.IsOf (method.answer (firstClass? args)) := by
  unfold Engine.invokeWith Value.params?
  dsimp only
  split
  · exact .throw
  · next slots hslots =>
    -- The slots hold the arguments one by one, so the operation gets them as they are.
    rw [Slot.ofCall_required (allRequired_params hm) hslots]
    apply Answers.located
    apply Answers.atSite
    intro m r m' hok
    change (Engine.nativeArguments (args.map .given) >>= eng.run method.operation receiver) m
      = .ok r m' at hok
    rw [Exec.bind_apply, nativeArguments_given] at hok
    rw [answer_eq_answer hm]
    exact answers_run eng method.operation receiver args m r m' hok

/-- A member of a value of a native class without properties. -/
theorem member_native {v : Value} {c : NativeClass} (hv : v.nativeClass? = some c) {site : Token}
    {name : String} (hproperty : c.property? name = none) :
    member site v name = match c.method? name with
      | some method => method.bind v
      | none => Exec.raiseAt site (.undefinedProperty name) := by
  cases v with
  | «instance» place cls => cases hv
  | _ =>
    cases hmethod : c.method? name <;>
      simp only [member, hv, hproperty, hmethod, Option.bind_none]

/-- A message to a value of a native class without properties is answered by a method of the class,
as its signature says. -/
theorem answers_send {v : Value} {c : NativeClass} (hv : v.nativeClass? = some c) {name : String}
    (hproperty : c.property? name = none) (levels : Nat) (site : Token) (args : List Value) :
    Answers ((engine levels).send site v name args) fun r =>
      ∃ method, c.method? name = some method ∧ r.IsOf (method.answer (firstClass? args)) := by
  unfold Engine.send
  rw [member_native hv hproperty]
  -- The class has no properties, so the member is a method of the class or there is none.
  cases hmethod : c.method? name with
  | none => exact .bind (Q := fun _ => False) .throw fun _ h => h.elim
  | some method =>
    obtain ⟨d, hd⟩ := NativeClass.exists_of_method? hmethod
    have hbound : Answers (method.bind v) fun r => ∃ id, r = .boundMethod id v method :=
      .skip fun id => .pure ⟨id, rfl⟩
    refine .bind hbound ?_
    rintro _ ⟨id, rfl⟩
    -- Without a level left the call stops.
    cases levels with
    | zero => exact .throw
    | succ levels =>
      intro m r m' hok
      exact ⟨method, rfl, answers_invokeWith (engine levels) hd site id v args m r m' hok⟩

end ClassScript
