import Mathlib
import ClassScript.Proofs.Machine.Answers

/-!
# Operators between integers

An operator between two expressions is a message to the value of the first one. If both values are
integers, a native operation on 64-bit words answers it, and the machine is the same as before but
for the identities of the bound methods. `integer_operators` says what the answers are in terms of
the integers that the words stand for: sums, differences, products and negations wrap around,
division is cut toward zero and the remainder goes with it, only a division by zero fails, and the
six comparisons follow the order of the integers.
-/

namespace ClassScript

/-- A machine that gave out a number of further identities. -/
def Machine.spend (m : Machine) (count : Nat) : Machine :=
  { m with store.nextId := m.store.nextId + count }

/-- Identities that are given out one after the other add up. -/
theorem Machine.spend_spend (m : Machine) (i j : Nat) : (m.spend i).spend j = m.spend (i + j) := by
  simp only [spend, Nat.add_assoc]

/-! ### Messages to native values -/

namespace Exec

/-- What a native operation on plain values leads to: its result on the same machine, or an error
at a place. -/
def settle {α : Type} (site : Token) (m : Machine) :
    Except Cause α → EStateM.Result Interrupt Machine α
  | .ok a => .ok a m
  | .error cause => .error (.located ⟨site, cause⟩) m

end Exec

variable {levels : Nat} {m m₁ m₂ : Machine} {site : Token}

/-- A message to a value of a native class without properties runs the operation of its method. A
bound method is made for it, which has an identity. -/
theorem send_native {v : Value} {c : NativeClass} (hv : v.nativeClass? = some c) {name : String}
    (hproperty : c.property? name = none) {method : NativeMethod}
    (hmethod : c.method? name = some method) {args : List Value}
    (hslots : Slot.ofCall method.params args [] = .ok (args.map .given)) {r : Except Cause Value}
    (hrun : (engine levels).run method.operation v args = Exec.ofExcept r) :
    (engine (levels + 1)).send site v name args m = Exec.settle site (m.spend 1) r := by
  -- The message makes a bound method first.
  have hbind : member site v name m = .ok (.boundMethod m.store.nextId v method) (m.spend 1) := by
    rw [member_native hv hproperty, hmethod]
    rfl
  -- The arguments fit the parameters, so the call applies the method to them.
  have hinvoke : (engine (levels + 1)).invoke site (.boundMethod m.store.nextId v method) args [] =
      Exec.located site (Exec.atSite site ((engine levels).apply
        (.boundMethod m.store.nextId v method) site (args.map .given))) := by
    have hinvoke : (engine (levels + 1)).invoke = (engine levels).invokeWith := rfl
    simp only [hinvoke, Engine.invokeWith, Value.params?, hslots]
  -- Applying it runs the operation, which answers without the machine.
  have happly : ∀ m', (engine levels).apply (.boundMethod m.store.nextId v method) site
      (args.map .given) m' = Exec.ofExcept r m' := by
    intro m'
    show (Engine.nativeArguments (args.map .given) >>=
      (engine levels).run method.operation v) m' = _
    rw [Exec.bind_apply, nativeArguments_given]
    dsimp only
    rw [hrun]
  -- An error gets the place of the message.
  unfold Engine.send
  rw [Exec.bind_apply, hbind]
  dsimp only
  rw [hinvoke]
  simp only [Exec.located, Exec.atSite, happly]
  cases r <;> rfl

/-! ### Messages to integers -/

section Messages

variable (levels) (m) (site) (a b : Int64)

/-- A message of arithmetic to an integer is answered on words. -/
theorem send_arithmetic (arith : Arithmetic) :
    (engine (levels + 1)).send site (.int a) arith.name [.int b] m =
      Exec.settle site (m.spend 1) (.int <$> arith.onInts a b) := by
  cases arith with
  | _ => exact send_native (c := .int) rfl rfl rfl rfl rfl

/-- An integer answers with its negative. -/
theorem send_negate :
    (engine (levels + 1)).send site (.int a) "negate" [] m = .ok (.int (-a)) (m.spend 1) :=
  send_native (r := .ok (.int (-a))) (c := .int) rfl rfl rfl rfl rfl

/-- An integer answers whether it is greater than another one. -/
theorem send_greaterThan :
    (engine (levels + 1)).send site (.int a) "greaterThan" [.int b] m =
      .ok (.bool (decide (b < a))) (m.spend 1) :=
  send_native (r := .ok (.bool (decide (b < a)))) (c := .int) rfl rfl rfl rfl rfl

/-- An integer answers whether it equals another one. -/
theorem send_equals :
    (engine (levels + 1)).send site (.int a) "equals" [.int b] m =
      .ok (.bool (a == b)) (m.spend 1) :=
  send_native (r := .ok (.bool (a == b))) (c := .int) rfl rfl rfl rfl rfl

/-- A truth value answers with the other one. -/
theorem send_isNotTrue (t : Bool) :
    (engine (levels + 1)).send site (.bool t) "isNotTrue" [] m = .ok (.bool !t) (m.spend 1) :=
  send_native (r := .ok (.bool !t)) (c := .bool) rfl rfl rfl rfl rfl

end Messages

/-! ### Operators -/

section Operators

variable {op : Token} {a b : Int64}

/-- A condition that is a truth value is asked nothing. -/
theorem condition_bool (eng : Engine) (t : Bool) : eng.condition site (.bool t) m = .ok t m := rfl

/-- An operator of arithmetic on integers is the message of its name. -/
theorem operate_arithmetic {arith : Arithmetic} (h : operatorMethod? op.kind = some arith.name) :
    (engine (levels + 1)).operate op (.int a) (.int b) m =
      Exec.settle op (m.spend 1) (.int <$> arith.onInts a b) := by
  simp only [Engine.operate, h, send_arithmetic]

/-- What a comparison says of two integers. The machine makes all of them of `>` and `==`. -/
def comparison? (a b : Int64) : Token.Kind → Option Bool
  | .greater => some (decide (b < a))
  | .equalEqual => some (a == b)
  | .lessEqual => some !decide (b < a)
  | .bangEqual => some !(a == b)
  | .greaterEqual => some (decide (b < a) || a == b)
  | .less => some !(decide (b < a) || a == b)
  | _ => none

/-- A comparison of integers says what the words say. -/
theorem operate_comparison {t : Bool} (h : comparison? a b op.kind = some t) :
    ∃ count, (engine (levels + 1)).operate op (.int a) (.int b) m =
      .ok (.bool t) (m.spend count) := by
  unfold comparison? at h
  unfold Engine.operate
  split at h
  case h_1 hkind | h_2 hkind =>
    cases h
    refine ⟨1, ?_⟩
    simp only [hkind, operatorMethod?, send_greaterThan, send_equals]
  case h_3 hkind =>
    cases h
    refine ⟨1, ?_⟩
    simp only [hkind, operatorMethod?, Exec.bind_apply, send_greaterThan, condition_bool]
    rfl
  case h_4 hkind =>
    cases h
    refine ⟨2, ?_⟩
    simp only [hkind, operatorMethod?, Exec.bind_apply, send_equals, send_isNotTrue,
      Machine.spend_spend]
  case h_5 hkind | h_6 hkind =>
    cases h
    simp only [hkind, operatorMethod?, Exec.bind_apply, send_greaterThan, condition_bool]
    -- The question of equality is put only if the first answer leaves something open.
    cases decide (b < a) with
    | true => exact ⟨1, rfl⟩
    | false =>
      refine ⟨2, ?_⟩
      simp only [Bool.false_eq_true, if_false, Exec.bind_apply, send_equals, condition_bool,
        Machine.spend_spend, Bool.false_or]
      rfl
  case h_7 => cases h

end Operators

/-! ### Words -/

/-- The quotient and the remainder of two words make up the dividend again. -/
theorem bmod_div_mul_add_mod (a b : Int64) :
    ((a / b).toInt * b.toInt + (a % b).toInt).bmod (2 ^ 64) = a.toInt := by
  rw [Int64.toInt_div, Int64.toInt_mod, ← Int.bmod_add_bmod, Int.bmod_mul_bmod,
    Int.bmod_add_bmod, Int.tdiv_mul_add_tmod]
  exact Int64.toInt_bmod a

/-- A remainder is smaller than the divisor. -/
theorem natAbs_mod_lt {a b : Int64} (hb : b ≠ 0) :
    (a % b).toInt.natAbs < b.toInt.natAbs := by
  have hnonzero : b.toInt ≠ 0 := fun h => hb (Int64.toInt_inj.1 h)
  rw [Int64.toInt_mod, Int.natAbs_tmod]
  exact Nat.mod_lt _ (Int.natAbs_pos.2 hnonzero)

/-- A remainder that is left has the sign of the dividend. -/
theorem sign_mod (a b : Int64) :
    (a % b).toInt = 0 ∨ (a % b).toInt.sign = a.toInt.sign := by
  rw [Int64.toInt_mod]
  by_cases hdvd : b.toInt ∣ a.toInt
  · exact .inl (Int.tmod_eq_zero_of_dvd hdvd)
  · exact .inr (by rw [Int.sign_tmod, if_neg hdvd])

/-- One word is greater than another one exactly if its integer is. -/
theorem greater_iff {a b : Int64} : decide (b < a) = true ↔ b.toInt < a.toInt := by
  rw [decide_eq_true_eq, Int64.lt_iff_toInt_lt]

/-- Two words are equal exactly if their integers are. -/
theorem equal_iff {a b : Int64} : (a == b) = true ↔ a.toInt = b.toInt := by
  rw [beq_iff_eq, Int64.toInt_inj]

/-- One word is less than another one if it is neither greater nor equal. -/
theorem less_iff {a b : Int64} :
    (!(decide (b < a) || a == b)) = true ↔ a.toInt < b.toInt := by
  rw [Bool.not_eq_true', Bool.or_eq_false_iff, ← Bool.not_eq_true, ← Bool.not_eq_true,
    greater_iff, equal_iff]
  omega

/-- Two integers are in just one of the three relations. -/
theorem count_comparisons (a b : Int64) :
    [!(decide (b < a) || a == b), a == b, decide (b < a)].count true = 1 := by
  have hnotBoth : ¬ ((a == b) = true ∧ decide (b < a) = true) := by
    rw [equal_iff, greater_iff]
    omega
  cases hequal : a == b <;> cases hgreater : decide (b < a) <;> simp_all

/-! ### The operators between two expressions -/

section Expressions

variable (levels) (left right : Expr) (m m' : Machine)

/-- Every operator of a kind between two expressions has one result. But for the identities that
were given out, the machine is then a known one; an error is at the operator. -/
def BinaryResult (kind : Token.Kind) (r : Except Cause Value) : Prop :=
  ∀ (id : NodeId) (op : Token), op.kind = kind → ∃ count,
    (engine levels).evaluate (.binary id left op right) m = Exec.settle op (m'.spend count) r

/-- Every operator of a kind in front of an expression has one result. -/
def UnaryResult (kind : Token.Kind) (r : Except Cause Value) : Prop :=
  ∀ (id : NodeId) (op : Token), op.kind = kind → ∃ count,
    (engine levels).evaluate (.unary id op left) m = Exec.settle op (m'.spend count) r

end Expressions

/-- The operators between two expressions are those of two's complement. The words `a` and `b` are
what the expressions evaluate to, one after the other, and `m₁` and `m₂` are the machines then. -/
structure TwosComplement (levels : Nat) (left right : Expr) (a b : Int64) (m m₁ m₂ : Machine) :
    Prop where
  /-- A sum wraps around. -/
  sum : ∃ c, BinaryResult levels left right m m₂ .plus (.ok (.int c)) ∧
    c.toInt = (a.toInt + b.toInt).bmod (2 ^ 64)
  /-- A difference wraps around. -/
  difference : ∃ c, BinaryResult levels left right m m₂ .minus (.ok (.int c)) ∧
    c.toInt = (a.toInt - b.toInt).bmod (2 ^ 64)
  /-- A product wraps around. -/
  product : ∃ c, BinaryResult levels left right m m₂ .star (.ok (.int c)) ∧
    c.toInt = (a.toInt * b.toInt).bmod (2 ^ 64)
  /-- A negation wraps around. -/
  negation : ∃ c, UnaryResult levels left m m₁ .minus (.ok (.int c)) ∧
    c.toInt = (-a.toInt).bmod (2 ^ 64)
  /-- A division fails just if it is one by zero. -/
  divide_fails_iff : ∀ (id : NodeId) (op : Token), op.kind = .slash →
    ((∃ m', (engine levels).evaluate (.binary id left op right) m =
      .error (.located ⟨op, .divisionByZero⟩) m') ↔ b = 0)
  /-- A remainder fails just if it is one of a division by zero. -/
  modulo_fails_iff : ∀ (id : NodeId) (op : Token), op.kind = .percent →
    ((∃ m', (engine levels).evaluate (.binary id left op right) m =
      .error (.located ⟨op, .divisionByZero⟩) m') ↔ b = 0)
  /-- Otherwise the quotient is cut toward zero and wraps around, and the remainder is what is
  left: it is smaller than the divisor and has the sign of the dividend. -/
  quotient : b ≠ 0 → ∃ q r, BinaryResult levels left right m m₂ .slash (.ok (.int q)) ∧
    BinaryResult levels left right m m₂ .percent (.ok (.int r)) ∧
    q.toInt = (a.toInt.tdiv b.toInt).bmod (2 ^ 64) ∧
    (q.toInt * b.toInt + r.toInt).bmod (2 ^ 64) = a.toInt ∧
    r.toInt.natAbs < b.toInt.natAbs ∧ (r.toInt = 0 ∨ r.toInt.sign = a.toInt.sign)
  /-- The comparisons are those of the integers, so just one of the first three holds; the others
  are their complements. -/
  comparison : ∃ less equal greater : Bool,
    BinaryResult levels left right m m₂ .less (.ok (.bool less)) ∧
    BinaryResult levels left right m m₂ .equalEqual (.ok (.bool equal)) ∧
    BinaryResult levels left right m m₂ .greater (.ok (.bool greater)) ∧
    BinaryResult levels left right m m₂ .greaterEqual (.ok (.bool !less)) ∧
    BinaryResult levels left right m m₂ .bangEqual (.ok (.bool !equal)) ∧
    BinaryResult levels left right m m₂ .lessEqual (.ok (.bool !greater)) ∧
    (less ↔ a.toInt < b.toInt) ∧ (equal ↔ a.toInt = b.toInt) ∧ (greater ↔ b.toInt < a.toInt) ∧
    [less, equal, greater].count true = 1

section Results

variable {left right : Expr} {a b : Int64}

/-- The order of evaluation: the left operand, the right one, the operator. -/
theorem evaluate_binary {l r : Value} (hleft : (engine levels).evaluate left m = .ok l m₁)
    (hright : (engine levels).evaluate right m₁ = .ok r m₂) (id : NodeId) (op : Token) :
    (engine (levels + 1)).evaluate (.binary id left op right) m =
      (engine levels).operate op l r m₂ := by
  show (do
    let l ← (engine levels).evaluate left
    let r ← (engine levels).evaluate right
    (engine levels).operate op l r) m = _
  simp only [Exec.bind_apply, hleft, hright]

/-- Arithmetic between expressions is arithmetic on the words that they evaluate to. -/
theorem binary_arithmetic (hleft : (engine (levels + 1)).evaluate left m = .ok (.int a) m₁)
    (hright : (engine (levels + 1)).evaluate right m₁ = .ok (.int b) m₂) {kind : Token.Kind}
    (arith : Arithmetic) (hkind : operatorMethod? kind = some arith.name) :
    BinaryResult (levels + 2) left right m m₂ kind (.int <$> arith.onInts a b) := by
  rintro id op rfl
  exact ⟨1, (evaluate_binary hleft hright id op).trans (operate_arithmetic hkind)⟩

/-- A comparison between expressions is one of the words that they evaluate to. -/
theorem binary_comparison (hleft : (engine (levels + 1)).evaluate left m = .ok (.int a) m₁)
    (hright : (engine (levels + 1)).evaluate right m₁ = .ok (.int b) m₂) {kind : Token.Kind}
    {t : Bool} (ht : comparison? a b kind = some t) :
    BinaryResult (levels + 2) left right m m₂ kind (.ok (.bool t)) := by
  rintro id op rfl
  exact (operate_comparison ht).imp fun count hcount =>
    (evaluate_binary hleft hright id op).trans hcount

/-- A minus in front of an expression negates its word. -/
theorem unary_minus (hleft : (engine (levels + 1)).evaluate left m = .ok (.int a) m₁) :
    UnaryResult (levels + 2) left m m₁ .minus (.ok (.int (-a))) := by
  intro id op hkind
  refine ⟨1, ?_⟩
  show (do
    let v ← (engine (levels + 1)).evaluate left
    (engine (levels + 1)).send op v
      (if op.kind = Token.Kind.minus then "negate" else "isNotTrue") []) m = _
  simp only [Exec.bind_apply, hleft, hkind, if_true, send_negate]
  rfl

/-- An operator of a division fails just if the divisor is zero. -/
theorem BinaryResult.fails_iff {kind : Token.Kind} {cause : Cause} {c : Int64}
    (h : BinaryResult levels left right m m₂ kind
      (.int <$> if b = 0 then .error cause else .ok c))
    (id : NodeId) (op : Token) (hkind : op.kind = kind) :
    (∃ m', (engine levels).evaluate (.binary id left op right) m =
      .error (.located ⟨op, cause⟩) m') ↔ b = 0 := by
  obtain ⟨count, hcount⟩ := h id op hkind
  by_cases hb : b = 0
  · rw [if_pos hb] at hcount
    exact ⟨fun _ => hb, fun _ => ⟨_, hcount⟩⟩
  · rw [if_neg hb] at hcount
    refine ⟨?_, fun h => (hb h).elim⟩
    rintro ⟨m', herror⟩
    rw [hcount] at herror
    cases herror

/-- A division is free of errors if the divisor is not zero. -/
theorem BinaryResult.of_ne_zero {kind : Token.Kind} {cause : Cause} {c : Int64}
    (h : BinaryResult levels left right m m₂ kind
      (.int <$> if b = 0 then .error cause else .ok c)) (hb : b ≠ 0) :
    BinaryResult levels left right m m₂ kind (.ok (.int c)) := by
  rwa [if_neg hb] at h

/-- The operators between expressions that evaluate to integers are those of two's complement. -/
theorem integer_operators (hleft : (engine levels).evaluate left m = .ok (.int a) m₁)
    (hright : (engine levels).evaluate right m₁ = .ok (.int b) m₂) :
    TwosComplement (levels + 1) left right a b m m₁ m₂ := by
  -- Without a level nothing is evaluated.
  cases levels with
  | zero => cases hleft
  | succ levels =>
    -- All operators of arithmetic, and then all comparisons.
    have harith : ∀ arith {kind}, operatorMethod? kind = some (Arithmetic.name arith) →
        BinaryResult (levels + 2) left right m m₂ kind (.int <$> arith.onInts a b) :=
      fun arith _ => binary_arithmetic hleft hright arith
    have hcompare : ∀ {kind t}, comparison? a b kind = some t →
        BinaryResult (levels + 2) left right m m₂ kind (.ok (.bool t)) :=
      fun ht => binary_comparison hleft hright ht
    have hdivide := harith .divide (show operatorMethod? .slash = _ from rfl)
    have hmodulo := harith .modulo (show operatorMethod? .percent = _ from rfl)
    exact {
      sum := ⟨a + b, harith .add rfl, Int64.toInt_add a b⟩
      difference := ⟨a - b, harith .subtract rfl, Int64.toInt_sub a b⟩
      product := ⟨a * b, harith .multiply rfl, Int64.toInt_mul a b⟩
      negation := ⟨-a, unary_minus hleft, Int64.toInt_neg a⟩
      divide_fails_iff := hdivide.fails_iff
      modulo_fails_iff := hmodulo.fails_iff
      quotient := fun hb => ⟨a / b, a % b, hdivide.of_ne_zero hb, hmodulo.of_ne_zero hb,
        Int64.toInt_div a b, bmod_div_mul_add_mod a b, natAbs_mod_lt hb, sign_mod a b⟩
      comparison := ⟨!(decide (b < a) || a == b), a == b, decide (b < a), hcompare rfl,
        hcompare rfl, hcompare rfl, hcompare (congrArg some (Bool.not_not _).symm), hcompare rfl,
        hcompare rfl, less_iff, equal_iff, greater_iff, count_comparisons a b⟩ }

/-- An integer as an expression. -/
def Expr.number (n : Int64) : Expr := .literal 0 .absent (.int n)

/-- The negation of an integer. -/
def Expr.negative (n : Int64) : Expr := .unary 0 { Token.absent with kind := .minus } (.number n)

/-- The least integer, which is not a negated literal: `-9223372036854775807 - 1`. -/
def Expr.least : Expr :=
  .binary 0 (.negative Int64.maxValue) { Token.absent with kind := .minus } (.number 1)

/-- The least integer and minus one, whose quotient wraps around. -/
theorem integer_operators_least :
    (engine 3).evaluate .least Machine.initial =
      .ok (.int Int64.minValue) (Machine.initial.spend 2) ∧
    (engine 3).evaluate (.negative 1) (Machine.initial.spend 2) =
      .ok (.int (-1)) (Machine.initial.spend 3) ∧
    TwosComplement 4 .least (.negative 1) Int64.minValue (-1) Machine.initial
      (Machine.initial.spend 2) (Machine.initial.spend 3) :=
  ⟨rfl, rfl, integer_operators rfl rfl⟩

end Results

end ClassScript
