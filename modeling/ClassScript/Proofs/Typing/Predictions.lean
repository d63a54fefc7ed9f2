import ClassScript.Proofs.Typing.Operators

/-!
# Predicted classes

The class that the checker finds for a plain expression, and the class of the value that the machine
computes. The two agree up to one gap: the signatures of the arithmetic methods of `Int` name the
class of the answer for an argument that is known to be a `Float`, and for all others they say
`Int`, also if nothing is known of the argument. So an expression whose type is `Int` may have a
`Float` as its value, and this is all that can happen (`plain_value_fits`). Where no `Int` meets an
argument of which nothing is known, the class of the value is the predicted one.
-/

namespace ClassScript

open Typing
open Exec (Answers)

/-! ### Plain values -/

/-- A checker that has seen no program finds that the values of an expression are objects of a
native class. -/
def Expr.Predicts (e : Expr) (c : NativeClass) : Prop :=
  ∃ s, Check.expr e (Checker.ofMachine .initial) = .ok (builtin c) s

/-- The operators of arithmetic. -/
def Token.Kind.arithmetic : List Token.Kind := [.plus, .minus, .star, .slash, .percent]

/-- In no arithmetic that an expression gets its value from, an `Int` meets an argument of which
nothing is known. -/
def Expr.Definite : Expr → Prop
  | .group _ _ inner => inner.Definite
  | .unary _ _ right => right.Definite
  | .binary _ left op right =>
    left.Definite ∧ right.Definite ∧
      (op.kind ∈ Token.Kind.arithmetic → left.Predicts .int → ¬right.Predicts .object)
  | .logical _ left _ right => left.Definite ∧ right.Definite
  | _ => True

/-- The classes of the values of plain expressions. -/
def NativeClass.values : List NativeClass := [nil, bool, int, float, string, list]

/-- A value of a class may come from an expression with a predicted class. -/
def NativeClass.Fits (strict : Bool) (predicted actual : NativeClass) : Prop :=
  predicted = object ∨ actual = predicted ∨ (strict = false ∧ predicted = int ∧ actual = float)

instance (strict : Bool) (c d : NativeClass) : Decidable (NativeClass.Fits strict c d) :=
  inferInstanceAs (Decidable (_ ∨ _ ∨ _))

/-- A value of a plain expression with a predicted class. -/
def Value.Fits (strict : Bool) (predicted : NativeClass) (v : Value) : Prop :=
  ∃ d ∈ NativeClass.values, v.nativeClass? = some d ∧ NativeClass.Fits strict predicted d

/-- The messages of arithmetic. -/
def arithmeticMessages : List String := Arithmetic.all.map (·.name)

/-- A value of the predicted class fits. -/
theorem NativeClass.fits_refl (strict : Bool) (c : NativeClass) : Fits strict c c := .inr (.inl rfl)

/-- The methods that operators send have answers of the classes of plain values. -/
theorem answer_mem_values {d b : NativeClass} {name : String} {m : NativeMethod}
    (hd : d ∈ NativeClass.values) (hname : name ∈ operatorMessages)
    (hmethod : d.method? name = some m) : m.answer (some b) ∈ NativeClass.values := by
  have htable : ∀ d ∈ NativeClass.values, ∀ b ∈ NativeClass.all, ∀ name ∈ operatorMessages,
      ∀ m ∈ d.method? name, m.answer (some b) ∈ NativeClass.values := by decide +kernel
  exact htable d hd b b.mem_all name hname m hmethod

/-- Only the arithmetic of `Int` tells an argument that is a `Float` from others. -/
theorem answer_eq_or {c a b : NativeClass} {name : String} {m : NativeMethod}
    (hc : c ∈ NativeClass.values) (ha : a ≠ .float) (hname : name ∈ operatorMessages)
    (hmethod : c.method? name = some m) :
    m.answer (some b) = m.answer (some a) ∨
      (c = .int ∧ name ∈ arithmeticMessages ∧ m.answer (some a) = .int ∧
        m.answer (some b) = .float) := by
  have htable : ∀ c ∈ NativeClass.values, ∀ name ∈ operatorMessages, ∀ m ∈ c.method? name,
      ∀ a ∈ NativeClass.all, ∀ b ∈ NativeClass.all, a ≠ .float →
      m.answer (some b) = m.answer (some a) ∨
        (c = .int ∧ name ∈ arithmeticMessages ∧ m.answer (some a) = .int ∧
          m.answer (some b) = .float) := by decide +kernel
  exact htable c hc name hname m hmethod a a.mem_all b b.mem_all ha

/-- A `Float` in place of an `Int` answers like an `Int` or with a `Float` in place of one. -/
theorem fits_float_for_int {a b : NativeClass} {name : String} {m n : NativeMethod}
    (hname : name ∈ operatorMessages) (hint : NativeClass.int.method? name = some m)
    (hfloat : NativeClass.float.method? name = some n) :
    NativeClass.Fits false (m.answer (some a)) (n.answer (some b)) := by
  have htable : ∀ name ∈ operatorMessages, ∀ m ∈ NativeClass.int.method? name,
      ∀ n ∈ NativeClass.float.method? name, ∀ a ∈ NativeClass.all, ∀ b ∈ NativeClass.all,
      NativeClass.Fits false (m.answer (some a)) (n.answer (some b)) := by decide +kernel
  exact htable name hname m hint n hfloat a a.mem_all b b.mem_all

/-- The answer to a message is that of the method with its name. -/
theorem reply?_eq {c r : NativeClass} {name : String} {arg : Option NativeClass} (hc : c ≠ .object)
    (h : c.reply? name arg = some r) : ∃ m, c.method? name = some m ∧ r = m.answer arg := by
  unfold NativeClass.reply? at h
  rw [if_neg hc] at h
  obtain ⟨m, hmethod, h⟩ := Option.bind_eq_some_iff.1 h
  split at h
  · exact ⟨m, hmethod, (Option.some.inj h).symm⟩
  · cases h

/-- A message with an argument to a value is answered by a value that fits the prediction. -/
theorem fits_answer {strict : Bool} {c d a b r : NativeClass} {name : String} {m : NativeMethod}
    (hd : d ∈ NativeClass.values) (hc : NativeClass.Fits strict c d)
    (ha : NativeClass.Fits strict a b) (hname : name ∈ operatorMessages)
    (hdefinite : strict = true → name ∈ arithmeticMessages → c = .int → a ≠ .object)
    (hreply : c.reply? name (some a) = some r) (hmethod : d.method? name = some m) :
    NativeClass.Fits strict r (m.answer (some b)) := by
  have hobject : NativeClass.object ∉ NativeClass.values := by decide
  rcases hc with rfl | rfl | ⟨rfl, rfl, rfl⟩
  · -- Nothing is predicted of what an unknown object answers.
    exact .inl (Option.some.inj hreply).symm
  · obtain ⟨n, hn, rfl⟩ := reply?_eq (fun h => hobject (h ▸ hd)) hreply
    obtain rfl : m = n := Option.some.inj (hmethod.symm.trans hn)
    rcases ha with rfl | rfl | ⟨rfl, rfl, rfl⟩
    · rcases answer_eq_or (a := .object) (b := b) hd (by decide) hname hmethod with
        heq | ⟨rfl, harith, hint, hfloat⟩
      · exact heq ▸ NativeClass.fits_refl _ _
      · cases strict with
        | true => exact absurd rfl (hdefinite rfl harith rfl)
        | false => exact .inr (.inr ⟨rfl, hint, hfloat⟩)
    · exact NativeClass.fits_refl _ _
    · rcases answer_eq_or (a := .int) (b := .float) hd (by decide) hname hmethod with
        heq | ⟨-, -, hint, hfloat⟩
      · exact heq ▸ NativeClass.fits_refl _ _
      · exact .inr (.inr ⟨rfl, hint, hfloat⟩)
  · obtain ⟨n, hn, rfl⟩ := reply?_eq (by decide) hreply
    exact fits_float_for_int hname hn hmethod

/-- A message without arguments to a value is answered by a value that fits the prediction. -/
theorem fits_answer_prefix {strict : Bool} {c d r : NativeClass} {op : Token} {m : NativeMethod}
    (hd : d ∈ NativeClass.values) (hc : NativeClass.Fits strict c d)
    (hreply : c.reply? (prefixMethod op) none = some r)
    (hmethod : d.method? (prefixMethod op) = some m) :
    m.answer none ∈ NativeClass.values ∧ NativeClass.Fits strict r (m.answer none) := by
  have htable : ∀ strict ∈ [true, false], ∀ c ∈ NativeClass.all, ∀ d ∈ NativeClass.values,
      NativeClass.Fits strict c d → ∀ name ∈ ["negate", "isNotTrue"],
      ∀ r ∈ c.reply? name none, ∀ m ∈ d.method? name,
      m.answer none ∈ NativeClass.values ∧ NativeClass.Fits strict r (m.answer none) := by
    decide +kernel
  have hname : prefixMethod op ∈ ["negate", "isNotTrue"] := by
    unfold prefixMethod
    split <;> decide
  exact htable strict (by cases strict <;> decide) c c.mem_all d hd hc _ hname r hreply m hmethod

/-- A value fits the more general class if it fits either one. -/
theorem fits_join {strict : Bool} {c d e : NativeClass} (hc : c ∈ NativeClass.plain)
    (hd : d ∈ NativeClass.plain) (h : NativeClass.Fits strict c e ∨ NativeClass.Fits strict d e) :
    NativeClass.Fits strict (c.join d) e := by
  have htable : ∀ c ∈ NativeClass.plain, ∀ d ∈ NativeClass.plain, c ≠ d → c.join d = .object := by
    decide
  by_cases hcd : c = d
  · subst hcd
    rw [NativeClass.join, if_pos rfl]
    exact h.elim id id
  · exact .inl (htable c hc d hd hcd)

/-! ### Values of expressions -/

variable {strict : Bool}

/-- A value of a class that fits is a value that fits. -/
theorem Value.fits_of_isOf {v : Value} {c d : NativeClass} (hd : d ∈ NativeClass.values)
    (hfits : NativeClass.Fits strict c d) (h : v.IsOf d) : v.Fits strict c := by
  rcases h with rfl | h
  · exact absurd hd (by decide)
  · exact ⟨d, hd, h, hfits⟩

/-- The classes of the values of plain expressions are among those that are found for them. -/
theorem plain_of_mem_values {d : NativeClass} (hd : d ∈ NativeClass.values) :
    d ∈ NativeClass.plain := List.mem_cons_of_mem _ hd

/-- A message with an argument, from one value to another. -/
theorem answers_send_plain {c a r : NativeClass} {v w : Value} {name : String}
    (hv : v.Fits strict c) (hw : w.Fits strict a) (hname : name ∈ operatorMessages)
    (hdefinite : strict = true → name ∈ arithmeticMessages → c = .int → a ≠ .object)
    (hreply : c.reply? name (some a) = some r) (levels : Nat) (site : Token) :
    Answers ((engine levels).send site v name [w]) fun u => u.Fits strict r := by
  obtain ⟨d, hd, hvd, hc⟩ := hv
  obtain ⟨b, hb, hwb, ha⟩ := hw
  have hproperty := NativeClass.property?_of_plain (plain_of_mem_values hd) name
  have hfirst : firstClass? [w] = some b := by
    show some (w.nativeClass?.getD .object) = some b
    rw [hwb]
    rfl
  -- Dispatch finds a method whose answer is of the class that is predicted, or of a part of it.
  intro m u m' hok
  obtain ⟨method, hmethod, hu⟩ := answers_send hvd hproperty levels site [w] m u m' hok
  rw [hfirst] at hu
  exact Value.fits_of_isOf (answer_mem_values hd hname hmethod)
    (fits_answer hd hc ha hname hdefinite hreply hmethod) hu

/-- The classes of two values say whether one equals the other. -/
theorem answers_equals {v : Value} {d : NativeClass} (hd : d ∈ NativeClass.values)
    (hv : v.nativeClass? = some d) (w : Value) (levels : Nat) (site : Token) :
    Answers ((engine levels).send site v "equals" [w]) fun u => u.nativeClass? = some .bool := by
  have hequals : ∀ d ∈ NativeClass.values, ∀ m ∈ d.method? "equals", ∀ arg ∈ NativeClass.all,
      m.answer (some arg) = .bool := by decide +kernel
  have hproperty := NativeClass.property?_of_plain (plain_of_mem_values hd) "equals"
  intro m u m' hok
  obtain ⟨method, hmethod, hu⟩ := answers_send hv hproperty levels site [w] m u m' hok
  have hbool : method.answer (firstClass? [w]) = .bool :=
    hequals d hd method hmethod w.classOf w.classOf.mem_all
  rw [hbool] at hu
  exact hu.resolve_left (by decide)

/-- The machine and the checker take an operator for the same message. -/
theorem operatorMethod?_eq {kind : Token.Kind} {name : String}
    (h : operatorMethod? kind = some name) :
    Check.operatorMethod kind = name ∧ Check.answersBool kind = false ∧
      (name ∈ arithmeticMessages → kind ∈ Token.Kind.arithmetic) := by
  cases kind <;> cases h <;> decide

/-- An operator between two values. -/
theorem answers_operate {op : Token} {c a r : NativeClass} {v w : Value} (hv : v.Fits strict c)
    (hw : w.Fits strict a)
    (hdefinite : strict = true → op.kind ∈ Token.Kind.arithmetic → c = .int → a ≠ .object)
    (hoperator : NativeClass.operator? op c a = some r) (levels : Nat) :
    Answers ((engine levels).operate op v w) fun u => u.Fits strict r := by
  obtain ⟨q, hreply, rfl⟩ := Option.map_eq_some_iff.1 hoperator
  have hbool : ∀ b : Bool, (Value.bool b).Fits strict .bool :=
    fun b => ⟨.bool, by decide, rfl, NativeClass.fits_refl _ _⟩
  unfold Engine.operate
  -- Most operators are messages to the left value; the others are made of comparisons.
  cases hmethod : operatorMethod? op.kind with
  | some name =>
    obtain ⟨rfl, hanswer, harith⟩ := operatorMethod?_eq hmethod
    rw [hanswer]
    exact answers_send_plain hv hw (operatorMethod_mem op.kind)
      (fun hstrict hname => hdefinite hstrict (harith hname)) hreply levels op
  | none =>
    cases hkind : op.kind
    -- What is not equal is a Bool, and its negation is another one.
    case bangEqual =>
      obtain ⟨d, hd, hvd, -⟩ := hv
      refine .bind (answers_equals hd hvd w levels op) fun eq heq => ?_
      intro m u m' hok
      obtain ⟨method, hmethod, hu⟩ := answers_send heq (NativeClass.property?_of_plain (by decide) _)
        levels op [] m u m' hok
      have hnot : ∀ m ∈ NativeClass.bool.method? "isNotTrue", m.answer none = .bool := by decide
      have hbool : u.IsOf .bool := hnot method hmethod ▸ hu
      exact Value.fits_of_isOf (d := .bool) (by decide) (NativeClass.fits_refl _ _) hbool
    case lessEqual => exact .skip fun _ => .skip fun _ => .pure (hbool _)
    case greaterEqual =>
      -- What is greater may be equal, too, or be neither.
      refine .skip fun _ => .skip fun greater => ?_
      cases greater with
      | true => exact .pure (hbool _)
      | false => exact .skip fun _ => .skip fun _ => .pure (hbool _)
    case less =>
      refine .skip fun _ => .skip fun greater => ?_
      cases greater with
      | true => exact .pure (hbool _)
      | false => exact .skip fun _ => .skip fun _ => .pure (hbool _)
    all_goals exact .fault

/-- A checker without a past finds what the signatures of the native methods lead to. -/
theorem predicts_of_predicted {e : Expr} (he : e.IsPlain) {c : NativeClass}
    (h : e.predicted? = some c) : e.Predicts c := by
  have hall := Check.computes_expr e he _ seeded_initial
  rw [h] at hall
  obtain ⟨s, hok, -⟩ := hall
  exact ⟨s, hok⟩

/-- The value of a plain expression fits the class that the checker finds. -/
theorem answers_evaluate (strict : Bool) : ∀ e : Expr, e.IsPlain → (strict = true → e.Definite) →
    ∀ c, e.predicted? = some c → ∀ levels,
    Answers ((engine levels).evaluate e) fun v => v.Fits strict c
  | _, _, _, _, _, 0 => .throw
  | .literal _ _ value, _, _, c, hc, levels + 1 => by
    obtain rfl := Option.some.inj hc
    apply Answers.pure
    cases value <;> exact ⟨_, by decide, rfl, NativeClass.fits_refl _ _⟩
  | .group _ _ inner, he, hdefinite, c, hc, levels + 1 =>
    answers_evaluate strict inner he hdefinite c hc levels
  | .list _ _ elements, _, _, c, hc, levels + 1 => by
    obtain ⟨-, -, rfl⟩ := Option.map_eq_some_iff.1 hc
    refine .skip fun items m v m' hok => ?_
    exact ⟨.list, by decide, answers_newList items m v m' hok, NativeClass.fits_refl _ _⟩
  | .unary _ op right, he, hdefinite, c, hc, levels + 1 => by
    obtain ⟨q, hq, hreply⟩ := Option.bind_eq_some_iff.1 hc
    refine .bind (answers_evaluate strict right he hdefinite q hq levels) ?_
    rintro v ⟨d, hd, hvd, hfits⟩ m u m' hok
    obtain ⟨method, hmethod, hu⟩ := answers_send hvd
      (NativeClass.property?_of_plain (plain_of_mem_values hd) _) levels op [] m u m' hok
    obtain ⟨hmem, hanswer⟩ := fits_answer_prefix hd hfits hreply hmethod
    exact Value.fits_of_isOf hmem hanswer hu
  | .binary _ left op right, he, hdefinite, c, hc, levels + 1 => by
    obtain ⟨l, hl, hc⟩ := Option.bind_eq_some_iff.1 hc
    obtain ⟨r, hr, hoperator⟩ := Option.bind_eq_some_iff.1 hc
    refine .bind (answers_evaluate strict left he.1 (fun h => (hdefinite h).1) l hl levels)
      fun v hv => ?_
    refine .bind (answers_evaluate strict right he.2 (fun h => (hdefinite h).2.1) r hr levels)
      fun w hw => ?_
    apply answers_operate hv hw ?_ hoperator
    rintro hstrict harith rfl rfl
    exact (hdefinite hstrict).2.2 harith (predicts_of_predicted he.1 hl)
      (predicts_of_predicted he.2 hr)
  | .logical _ left op right, he, hdefinite, c, hc, levels + 1 => by
    obtain ⟨l, hl, hc⟩ := Option.bind_eq_some_iff.1 hc
    obtain ⟨r, hr, rfl⟩ := Option.map_eq_some_iff.1 hc
    -- Either operand may be the value, so the class found is the one that both classes join to.
    have hplain := And.intro (left.plain_predicted hl) (right.plain_predicted hr)
    refine .bind (answers_evaluate strict left he.1 (fun h => (hdefinite h).1) l hl levels)
      fun v hv => ?_
    refine .skip fun truth => ?_
    split
    · obtain ⟨d, hd, hvd, hfits⟩ := hv
      exact .pure ⟨d, hd, hvd, fits_join hplain.1 hplain.2 (.inl hfits)⟩
    · intro m w m' hok
      obtain ⟨d, hd, hwd, hfits⟩ :=
        answers_evaluate strict right he.2 (fun h => (hdefinite h).2) r hr levels m w m' hok
      exact ⟨d, hd, hwd, fits_join hplain.1 hplain.2 (.inr hfits)⟩
  | .var _, h, _, _, _, _ | .self .., h, _, _, _, _ | .super .., h, _, _, _, _
  | .assign .., h, _, _, _, _ | .get .., h, _, _, _, _ | .set .., h, _, _, _, _
  | .call .., h, _, _, _, _ | .lambda _, h, _, _, _, _ => False.elim h

/-! ### Predictions -/

/-- The checker finds one class for a plain expression, that of the signatures. -/
theorem predicted_of_check {e : Expr} (he : e.IsPlain) {t : ClassType} {c : NativeClass}
    {s : Checker} (hcheck : Check.expr e (Checker.ofMachine .initial) = .ok (.instance t) s)
    (ht : t.native? = some c) : e.predicted? = some c := by
  have hall := Check.computes_expr e he _ seeded_initial
  -- Without a predicted class the check fails, and with one it answers this class.
  cases hpredicted : e.predicted? with
  | none =>
    rw [hpredicted] at hall
    obtain ⟨error, s', herror⟩ := hall
    cases hcheck.symm.trans herror
  | some d =>
    rw [hpredicted] at hall
    obtain ⟨s', hok, -⟩ := hall
    obtain ⟨rfl, -⟩ : t = nativeType d ∧ s = s' := by
      cases hcheck.symm.trans hok
      exact ⟨rfl, rfl⟩
    exact ht

/-- If a checker without a past predicts for a plain expression that its values are objects of a
native class, and the class is not that of every object, then they are objects of the class or of a
subclass, except that a predicted `Int` may be a `Float`. There is no exception where no arithmetic
has an `Int` on its left and a value of which nothing is known on its right. -/
theorem plain_value_fits (e : Expr) (he : e.IsPlain) {t : ClassType} {c : NativeClass} {s : Checker}
    (hcheck : Check.expr e (Checker.ofMachine .initial) = .ok (.instance t) s)
    (ht : t.native? = some c) (hc : c ≠ .object) {fuel : Nat} {v : Value} {m : Machine}
    (hrun : (engine fuel).evaluate e .initial = .ok v m) :
    ∃ d, v.nativeClass? = some d ∧ (d.isSubclassOf c ∨ (c = .int ∧ d = .float)) ∧
      (e.Definite → d.isSubclassOf c) := by
  have hpredicted := predicted_of_check he hcheck ht
  have hself : ∀ d : NativeClass, d.isSubclassOf d = true := by
    intro d
    cases d <;> rfl
  -- Without arithmetic on what is not known, no predicted `Int` turns out to be a `Float`.
  have hexact : e.Definite → ∀ d, v.nativeClass? = some d → d.isSubclassOf c = true := by
    intro hdefinite d hd
    obtain ⟨d', -, hd', rfl | rfl | ⟨hstrict, -⟩⟩ :=
      answers_evaluate true e he (fun _ => hdefinite) c hpredicted fuel _ v m hrun
    · exact absurd rfl hc
    · obtain rfl := Option.some.inj (hd.symm.trans hd')
      exact hself _
    · cases hstrict
  obtain ⟨d, -, hd, rfl | rfl | ⟨-, rfl, rfl⟩⟩ :=
    answers_evaluate false e he nofun c hpredicted fuel _ v m hrun
  · exact absurd rfl hc
  · exact ⟨_, hd, .inl (hself _), fun _ => hself _⟩
  · exact ⟨_, hd, .inr ⟨rfl, rfl⟩, fun hdefinite => hexact hdefinite _ hd⟩

/-- An integer constant. -/
def Expr.ofInt (n : Int64) : Expr := .literal 0 .absent (.int n)

/-- A sum. -/
def Expr.sum (left right : Expr) : Expr := .binary 0 left { Token.absent with kind := .plus } right

/-- A floating-point constant. -/
def Expr.ofFloat (x : Float) : Expr := .literal 0 .absent (.float x)

/-- The conjunction of an integer and a floating-point number, whose class the checker does not
find. -/
def Expr.mixed : Expr := .logical 0 (.ofInt 1) { Token.absent with kind := .andWord } (.ofFloat 1)

/-- An integer plus a floating-point number. -/
theorem plain_value_fits_sum : ∃ t s v m,
    Check.expr (.sum (.ofInt 1) (.ofFloat 1)) (Checker.ofMachine .initial) = .ok (.instance t) s ∧
    t.native? = some .float ∧
    (engine 5).evaluate (.sum (.ofInt 1) (.ofFloat 1)) .initial = .ok v m ∧
    ∃ d, v.nativeClass? = some d ∧
      (d.isSubclassOf .float ∨ (NativeClass.float = .int ∧ d = .float)) ∧
      ((Expr.sum (.ofInt 1) (.ofFloat 1)).Definite → d.isSubclassOf .float) := by
  have hplain : (Expr.sum (.ofInt 1) (.ofFloat 1)).IsPlain := ⟨trivial, trivial⟩
  obtain ⟨s, hs⟩ : ∃ s, Check.expr (.sum (.ofInt 1) (.ofFloat 1)) (Checker.ofMachine .initial)
      = .ok (builtin .float) s := ⟨_, rfl⟩
  obtain ⟨v, m, hm⟩ : ∃ v m, (engine 5).evaluate (.sum (.ofInt 1) (.ofFloat 1)) .initial
      = .ok v m := ⟨_, _, rfl⟩
  exact ⟨_, s, v, m, hs, rfl, hm, plain_value_fits _ hplain hs rfl (by decide) hm⟩

/-- An integer plus an operand whose value is a `Float`, which the checker does not find. The type
of the sum is `Int`, and its value is a `Float`. -/
theorem plain_value_misses_prediction :
    ¬∀ (e : Expr) (t : ClassType) (c : NativeClass) (s : Checker) (fuel : Nat) (v : Value)
      (m : Machine), e.IsPlain →
      Check.expr e (Checker.ofMachine .initial) = .ok (.instance t) s → t.native? = some c →
      c ≠ .object → (engine fuel).evaluate e .initial = .ok v m →
      ∃ d, v.nativeClass? = some d ∧ d.isSubclassOf c := by
  intro h
  have hplain : (Expr.sum (.ofInt 1) .mixed).IsPlain := ⟨trivial, trivial, trivial⟩
  obtain ⟨s, hs⟩ : ∃ s, Check.expr (.sum (.ofInt 1) .mixed) (Checker.ofMachine .initial)
      = .ok (builtin .int) s := ⟨_, rfl⟩
  -- The machine runs, and the sum is a `Float`.
  have hfloat : (match (engine 8).evaluate (.sum (.ofInt 1) .mixed) .initial with
      | .ok v _ => v.nativeClass?
      | .error _ _ => none) = some .float := by decide +kernel
  cases hrun : (engine 8).evaluate (.sum (.ofInt 1) .mixed) .initial with
  | error e m =>
    rw [hrun] at hfloat
    cases hfloat
  | ok v m =>
    rw [hrun] at hfloat
    obtain ⟨d, hd, hsub⟩ := h _ _ .int s 8 v m hplain hs rfl (by decide) hrun
    obtain rfl := Option.some.inj (hfloat.symm.trans hd)
    revert hsub
    decide

end ClassScript
