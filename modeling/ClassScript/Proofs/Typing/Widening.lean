import Mathlib
import ClassScript.Proofs.Typing.Grounded
import ClassScript.Proofs.Typing.Shadowed

/-!
# What the checker remembers of an assignment

A type bounds another one if it is the more general of the two. The more general of two types bounds
both, because no class inherits from a class that inherits from it. So an accepted assignment leaves
a variable, and a field that a class has itself, with a type that bounds the value and the type
before. A field that is inherited keeps the type it has in the superclass, which need not bound the
value.
-/

namespace ClassScript.Typing

/-- A type is the more general one of itself and another one. -/
def Checker.Bounds (s : Checker) (t u : Ty) : Prop :=
  s.unify? (some t) (some u) = some (some (some t))

/-! ### The more general of two types -/

/-- A class is not older than one that it inherits from. -/
theorem ClassType.Within.id_le_of_subclassOf {n : Nat} {c d : ClassType} (h : c.Within n)
    (hd : ClassType.subclassOf d c = true) : d.id ≤ c.id := by
  induction hid : c.id using Nat.strong_induction_on generalizing c with
  | _ i ih =>
    subst hid
    rw [ClassType.subclassOf_eq, Bool.or_eq_true, decide_eq_true_eq, List.any_eq_true] at hd
    obtain hsame | ⟨p, hp, hinherits⟩ := hd
    · exact hsame.ge
    · have holder := h.older p hp
      exact (ih p.id holder (h.supers p hp) hinherits rfl).trans holder.le

namespace Checker

variable {s s' : Checker} {e : Extent}

/-- The more general of two types, where it is known whether they are the same. -/
theorem unify?_eq {t u : Ty} {r : Bool} (h : s.same? (some t) (some u) = some r) :
    s.unify? (some t) (some u) =
      if r then some (some (some t))
      else if isObject (some t) then some (some (some t))
      else if isObject (some u) then some (some (some u))
      else
        match t, u with
        | .instance c, .instance d =>
          if ClassType.subclassOf d c then some (some (some u))
          else if ClassType.subclassOf c d then some (some (some t))
          else some none
        | _, _ => some none := by
  unfold unify?
  rw [h]
  rcases t with c | c | f <;> rcases u with d | d | g <;> rfl

/-- A type bounds itself. -/
theorem bounds_self (s : Checker) (t : Ty) : s.Bounds t t :=
  unify?_eq (sameUpTo_self s _ t)

/-- A type that stands for every value bounds every type. -/
theorem bounds_of_isObject {t : Ty} (h : isObject (some t) = true) (u : Ty) : s.Bounds t u := by
  obtain ⟨r, hr⟩ : ∃ r, s.same? (some t) (some u) = some r := by
    cases t with
    | «instance» c => exact ⟨_, sameUpTo_instance s _ c u⟩
    | «class» c => cases h
    | function f => cases h
  refine (unify?_eq hr).trans ?_
  rw [if_pos h, ite_self]

/-- The type of the objects of a class bounds that of the objects of a subclass. -/
theorem bounds_of_subclassOf {c d : ClassType} (hd : d.Within e.classes) (hc : c.Within e.classes)
    (hobject : isObject (some (.instance c)) = false) (h : ClassType.subclassOf d c = true) :
    s.Bounds (.instance d) (.instance c) := by
  have hsame : s.same? (some (.instance d)) (some (.instance c)) = some (decide (d.id = c.id)) :=
    sameUpTo_instance s _ d _
  refine (unify?_eq hsame).trans ?_
  by_cases hid : d.id = c.id
  · rw [if_pos (decide_eq_true hid)]
  · have hback : ¬ClassType.subclassOf c d = true := fun hback =>
      hid (Nat.le_antisymm (hc.id_le_of_subclassOf h) (hd.id_le_of_subclassOf hback))
    simp only [decide_eq_false hid, hobject, hback, h, if_true, ite_self, Bool.false_eq_true,
      if_false]

/-- The more general one of two types bounds both. -/
theorem bounds_of_unify? {t u : Ty} {v : Option Ty} (ht : t.Within e) (hu : u.Within e)
    (h : s.unify? (some t) (some u) = some (some v)) :
    ∃ w, v = some w ∧ s.Bounds w t ∧ s.Bounds w u := by
  cases hsame : s.same? (some t) (some u) with
  | none =>
    unfold unify? at h
    rw [hsame] at h
    cases h
  | some r =>
    have hcases := h
    rw [unify?_eq hsame] at hcases
    -- Where the first type is the answer, the question is the one for the bound.
    have hleft : v = some t → ∃ w, v = some w ∧ s.Bounds w t ∧ s.Bounds w u := by
      rintro rfl
      exact ⟨t, rfl, bounds_self s t, h⟩
    split at hcases
    · exact hleft (by cases hcases; rfl)
    split at hcases
    · exact hleft (by cases hcases; rfl)
    split at hcases
    · cases hcases
      exact ⟨u, rfl, bounds_of_isObject ‹_› t, bounds_self s u⟩
    split at hcases
    · split at hcases
      · cases hcases
        exact ⟨_, rfl, bounds_of_subclassOf hu ht (Bool.eq_false_iff.2 ‹_›) ‹_›, bounds_self s _⟩
      split at hcases
      · exact hleft (by cases hcases; rfl)
      · cases hcases
    · cases hcases

/-- Bounds are about the functions alone. -/
theorem Bounds.of_eq {t u : Ty} (h : s.Bounds t u) (hs : s'.signatures = s.signatures) :
    s'.Bounds t u := by
  have hsignature : s'.signature = s.signature := by
    unfold signature
    rw [hs]
  have hsame : s'.same? (some t) (some u) = s.same? (some t) (some u) := by
    unfold same?
    rw [hs, sameUpTo_of_eq hsignature]
  unfold Bounds unify? at h ⊢
  rwa [hsame]

end Checker

namespace Check

variable {s s' : Checker} {base e : Extent}

/-! ### Variables -/

/-- A name that gets a type in a scope is found there first, if it was. -/
theorem findIdx?_redefine {locals : List StaticScope} {name : String} {i : Nat}
    (h : locals.findIdx? (fun sc => (sc.vars.lookup name).isSome) = some i) (t : Option Ty) :
    let locals' := locals.modify i fun sc => { sc with vars := (name, t) :: sc.vars }
    locals'.findIdx? (fun sc => (sc.vars.lookup name).isSome) = some i ∧
      locals'[i]?.bind (·.vars.lookup name) = some t := by
  intro locals'
  obtain ⟨hlt, -, hbefore⟩ := List.findIdx?_eq_some_iff_getElem.1 h
  have hlt' : i < locals'.length := by rwa [List.length_modify]
  have hfound : locals'[i].vars.lookup name = some t := by
    rw [List.getElem_modify, if_pos rfl, List.lookup_cons_self]
  -- The scopes in front are left as they are, and have no such name.
  refine ⟨List.findIdx?_eq_some_iff_getElem.2 ⟨hlt', ?_, fun j hj => ?_⟩, ?_⟩
  · rw [hfound]
    rfl
  · rw [List.getElem_modify, if_neg (Nat.ne_of_gt hj)]
    exact hbefore j hj
  · rw [List.getElem?_eq_getElem hlt', Option.bind_some, hfound]

/-- A name that a local scope has is found in the innermost one of those. -/
theorem lookup?_of_local {name : String} {i : Nat}
    (h : s.locals.findIdx? (fun sc => (sc.vars.lookup name).isSome) = some i) :
    lookup? s name = some (.local i, (s.locals[i]?.bind (·.vars.lookup name)).join) := by
  unfold lookup?
  rw [h]

/-- A name that no local scope has is looked up among the global ones. -/
theorem lookup?_of_not_local {name : String}
    (h : s.locals.findIdx? (fun sc => (sc.vars.lookup name).isSome) = none) :
    lookup? s name = s.globals[name]?.map fun t => (.global, t) := by
  unfold lookup?
  rw [h]

/-- A name that is in no local scope gets a global type. -/
theorem lookup?_defineAt_global {name : String}
    (h : s.locals.findIdx? (fun sc => (sc.vars.lookup name).isSome) = none) (t : Option Ty) :
    lookup? ((defineAt .global name t).final s) name = some (.global, t) := by
  refine (lookup?_of_not_local (s := (defineAt .global name t).final s) h).trans ?_
  exact congrArg (Option.map _) Std.TreeMap.getElem?_insert_self

/-- A name that gets a type where it was found, or globally where it was not, has it there. -/
theorem lookup?_defineAt (s : Checker) (name : String) (t : Option Ty) :
    let place := ((lookup? s name).map Prod.fst).getD .global
    lookup? ((defineAt place name t).final s) name = some (place, t) := by
  cases h : s.locals.findIdx? fun sc => (sc.vars.lookup name).isSome with
  | some i =>
    rw [lookup?_of_local h]
    obtain ⟨hindex, hfound⟩ := findIdx?_redefine h t
    refine (lookup?_of_local (s := (defineAt (.local i) name t).final s) hindex).trans ?_
    exact congrArg (fun found => some (Place.local i, found.join)) hfound
  | none =>
    rw [lookup?_of_not_local h]
    cases s.globals[name]? <;> exact lookup?_defineAt_global h t

/-- A definition leaves the functions as they are. -/
theorem signatures_defineAt (place : Place) (name : String) (t : Option Ty) :
    ((defineAt place name t).final s).signatures = s.signatures := by
  cases place <;> rfl

/-- A step that goes on with the more general of two types, or else is left early, goes on. -/
theorem unified_of_ok {α : Type} {t u : Ty} {token : Token} {fault : String → String → Fault}
    {k : Option Ty → Check α} {r : α}
    (h : (do
      match ← answer (·.unify? (some t) (some u)) with
      | none => reject token (fault (← text t) (← text u))
      | some v => k v : Check α) s = .ok r s') :
    ∃ v, s.unify? (some t) (some u) = some (some v) ∧ k v s = .ok r s' := by
  obtain ⟨answered, s₁, ha, hr⟩ := bind_eq_ok.1 h
  rw [answer_apply] at ha
  cases hq : s.unify? (some t) (some u) with
  | none =>
    rw [hq] at ha
    cases ha
  | some found =>
    rw [hq] at ha
    cases ha
    cases answered with
    | none =>
      -- Without a common type the step ends in a complaint, which is no way to go on.
      obtain ⟨_, _, _, hr⟩ := bind_eq_ok.1 hr
      obtain ⟨_, _, _, hr⟩ := bind_eq_ok.1 hr
      cases hr
    | some v => exact ⟨v, rfl, hr⟩

/-- The type that is recorded for a variable after an assignment bounds the value and the type
before. -/
theorem assign_bounds {name : Token} {v : Ty} (h : Closed base e s) (hv : v.Within e)
    (hr : assign name v s = .ok () s') :
    s'.signatures = s.signatures ∧ ∃ t,
      lookup? s' name.lexeme = some (((lookup? s name.lexeme).map Prod.fst).getD .global, some t) ∧
        s.Bounds t v ∧ ∀ old, (lookup? s name.lexeme).bind Prod.snd = some old → s.Bounds t old := by
  unfold assign at hr
  obtain ⟨_, _, hget, hr⟩ := bind_eq_ok.1 hr
  cases hget
  have hafter := fun t => lookup?_defineAt s name.lexeme (some t)
  have hbefore : ∀ place old, lookup? s name.lexeme = some (place, some old) → old.Within e :=
    fun _ _ => h.lookup?
  generalize lookup? s name.lexeme = found at hr hafter hbefore ⊢
  -- A name that is new or has no type yet gets the type of the value.
  rcases found with _ | ⟨place, _ | existing⟩
  · obtain rfl := final_ok hr
    exact ⟨signatures_defineAt .., v, hafter v, s.bounds_self v, nofun⟩
  · obtain rfl := final_ok hr
    exact ⟨signatures_defineAt .., v, hafter v, s.bounds_self v, nofun⟩
  · -- Else it gets the common type, which is above both.
    obtain ⟨u, hu, hr⟩ := unified_of_ok hr
    obtain ⟨t, rfl, hexisting, hvalue⟩ :=
      Checker.bounds_of_unify? (hbefore place existing rfl) hv hu
    obtain rfl := final_ok hr
    refine ⟨signatures_defineAt .., t, hafter t, hvalue, ?_⟩
    rintro _ ⟨⟩
    exact hexisting

/-! ### Fields -/

/-- A field of an object of a class of the program gets a value. -/
theorem setAttribute_apply {c : ClassType} (hc : c.native? = none) (name : Token) (v : Ty)
    (s : Checker) :
    setAttribute (.instance c) name v s =
      (match s.attributes.lookup name.lexeme c with
      | .ambiguous branches => reject name (.ambiguous name.lexeme branches)
      | .absent => putAttribute c name.lexeme v
      | .found existing _ => do
        match ← answer (·.unify? (some existing) (some v)) with
        | none => reject name (.redefinedAttribute (← text existing) (← text v))
        | some u =>
          if ((← get).body c).attributes.contains name.lexeme then
            putAttribute c name.lexeme (u.getD existing) : Check Unit) s := by
  obtain ⟨id, title, supers, native?⟩ := c
  cases hc
  rfl

/-- A field that a class gets is found on the class itself. -/
theorem lookup_putAttribute {c : ClassType} (hc : c.id < s.bodies.size) (name : String) (t : Ty) :
    ((putAttribute c name t).final s).attributes.lookup name c = .found t 0 := by
  refine Hierarchy.lookup_of_own ?_
  change ((((s.bodies.modify c.id _)[c.id]?).getD default).attributes)[name]? = some t
  rw [Array.getElem?_modify, if_pos rfl, Array.getElem?_eq_getElem hc]
  exact Std.TreeMap.getElem?_insert_self

/-- An assignment to a field that is found: the class gets the more general type if it has the field
itself. -/
theorem setAttribute_found {c : ClassType} {name : Token} {v existing : Ty} {depth : Nat}
    (h : Closed base s.extent s) (hnative : c.native? = none) (hv : v.Within s.extent)
    (hl : s.attributes.lookup name.lexeme c = .found existing depth)
    (hr : setAttribute (.instance c) name v s = .ok () s') :
    ∃ t, (t = existing ∨ t = v) ∧ s.Bounds t existing ∧ s.Bounds t v ∧
      (if (s.body c).attributes.contains name.lexeme then putAttribute c name.lexeme t
        else pure () : Check Unit) s = .ok () s' := by
  rw [setAttribute_apply hnative, hl] at hr
  obtain ⟨u, hu, hput⟩ := unified_of_ok hr
  obtain ⟨t, rfl, hexisting, hvalue⟩ := Checker.bounds_of_unify? (h.lookup_attribute hl) hv hu
  refine ⟨t, (eq_of_unify? hu).imp Option.some.inj Option.some.inj, hexisting, hvalue, ?_⟩
  exact hput

/-- The type that is recorded for a field after an assignment bounds the type before, and the value
unless the field is inherited. -/
theorem setAttribute_bounds {c : ClassType} {name : Token} {v : Ty} (h : Closed base s.extent s)
    (hc : c.Within s.extent.classes) (hnative : c.native? = none) (hv : v.Within s.extent)
    (hr : setAttribute (.instance c) name v s = .ok () s') :
    s'.signatures = s.signatures ∧ ∃ t depth,
      s'.attributes.lookup name.lexeme c = .found t depth ∧
        (∀ old d, s.attributes.lookup name.lexeme c = .found old d → d = depth ∧ s.Bounds t old) ∧
        if depth = 0 then s.Bounds t v
        else s.attributes.lookup name.lexeme c = .found t depth ∧
          (s.Bounds t v ∨ s.Bounds v t) := by
  have hlt := hc.id_lt hnative
  cases hl : s.attributes.lookup name.lexeme c with
  | ambiguous branches =>
    rw [setAttribute_apply hnative, hl] at hr
    cases hr
  | absent =>
    rw [setAttribute_apply hnative, hl] at hr
    obtain rfl := final_ok hr
    exact ⟨rfl, v, 0, lookup_putAttribute hlt name.lexeme v, nofun, s.bounds_self v⟩
  | found existing depth =>
    obtain ⟨t, ht, hexisting, hvalue, hput⟩ := setAttribute_found h hnative hv hl hr
    rw [Std.TreeMap.contains_eq_isSome_getElem?] at hput
    cases hown : (s.body c).attributes[name.lexeme]? with
    | some m =>
      rw [Hierarchy.lookup_of_own hown] at hl
      cases hl
      rw [hown, if_pos Option.isSome_some] at hput
      obtain rfl := final_ok hput
      refine ⟨rfl, t, 0, lookup_putAttribute hlt name.lexeme t, ?_, hvalue⟩
      rintro _ _ ⟨⟩
      exact ⟨rfl, hexisting⟩
    | none =>
      -- The field is inherited, and nothing changes.
      rw [hown, if_neg (Bool.eq_false_iff.1 Option.isSome_none)] at hput
      cases hput
      refine ⟨rfl, existing, depth, hl, ?_, ?_⟩
      · rintro _ _ ⟨⟩
        exact ⟨rfl, s.bounds_self existing⟩
      · rw [if_neg (Hierarchy.depth_pos_of_lookup hown hl).ne']
        rcases ht with rfl | rfl
        · exact ⟨rfl, .inl hvalue⟩
        · exact ⟨rfl, .inr hexisting⟩

/-! ### Assignments -/

/-- The type of an expression exists in the state behind the expression, which is closed. -/
theorem closed_of_expr {x : Expr} {t : Ty} (h : Closed base s.extent s)
    (hr : expr x s = .ok t s') :
    Closed base s'.extent s' ∧ t.Within s'.extent ∧ s.extent ≤ s'.extent := by
  have hrun : Closes base s.extent Ty.Within (expr x) := closes_expr s.extent x
  obtain ⟨hclosed, hkeeps⟩ := hrun.state s h (le_refl _)
  rw [final_ok hr] at hclosed hkeeps
  exact ⟨hclosed, hrun.value h (le_refl _) hr, hkeeps.extent⟩

/-- The checker remembers an accepted assignment. The type that is recorded for a variable
afterwards, where the variable was found, bounds the value and the type before. The same holds of a
field that the class of the object has itself or gets. A field that is inherited keeps its type,
which bounds the value or is bounded by it. Every state that a check goes through is closed. -/
theorem accepted_assignments_widen (h : Closed base s.extent s) :
    (∀ id name value v s', expr (.assign id name value) s = .ok v s' →
      ∃ s₁ t, expr value s = .ok v s₁ ∧
        lookup? s' name.lexeme =
          some (((lookup? s₁ name.lexeme).map Prod.fst).getD .global, some t) ∧
        s'.Bounds t v ∧
        ∀ old, (lookup? s₁ name.lexeme).bind Prod.snd = some old → s'.Bounds t old) ∧
    ∀ id object name value v s', expr (.set id object name value) s = .ok v s' →
      ∃ r s₁ s₂, expr object s = .ok r s₁ ∧ expr value s₁ = .ok v s₂ ∧
        ∀ c, r = .instance c → c.native? = none →
          ∃ t depth, s'.attributes.lookup name.lexeme c = .found t depth ∧
            (∀ old d, s₂.attributes.lookup name.lexeme c = .found old d →
              d = depth ∧ s'.Bounds t old) ∧
            if depth = 0 then s'.Bounds t v
            else s₂.attributes.lookup name.lexeme c = .found t depth ∧
              (s'.Bounds t v ∨ s'.Bounds v t) := by
  constructor
  · intro id name value v s' hr
    obtain ⟨v', s₁, hvalue, hr₁⟩ := bind_eq_ok.1 hr
    obtain ⟨_, s₂, hnote, hr₂⟩ := bind_eq_ok.1 hr₁
    obtain ⟨_, s₃, hassign, hrecord⟩ := bind_eq_ok.1 hr₂
    cases hnote
    cases hrecord
    obtain ⟨hclosed, hwithin, -⟩ := closed_of_expr h hvalue
    -- The note of the use leaves the variables as they were.
    obtain ⟨hsigs, t, hlookup, hv, hold⟩ := assign_bounds (hclosed.withFound _) hwithin hassign
    exact ⟨s₁, t, hvalue, hlookup, hv.of_eq hsigs, fun old ho => (hold old ho).of_eq hsigs⟩
  · intro id object name value v s' hr
    obtain ⟨r, s₁, hobject, hr₁⟩ := bind_eq_ok.1 hr
    obtain ⟨v', s₂, hvalue, hr₂⟩ := bind_eq_ok.1 hr₁
    obtain ⟨_, s₃, hset, hrecord⟩ := bind_eq_ok.1 hr₂
    cases hrecord
    refine ⟨r, s₁, s₂, hobject, hvalue, ?_⟩
    rintro c rfl hnative
    obtain ⟨hclosed₁, hreceiver, -⟩ := closed_of_expr h hobject
    obtain ⟨hclosed₂, hwithin, hlater⟩ := closed_of_expr hclosed₁ hvalue
    obtain ⟨hsigs, t, depth, hlookup, hold, hbound⟩ := setAttribute_bounds hclosed₂
      (ClassType.Within.mono hreceiver hlater.2) hnative hwithin hset
    refine ⟨t, depth, hlookup, fun old d ho => ⟨(hold old d ho).1, (hold old d ho).2.of_eq hsigs⟩, ?_⟩
    -- An own field is put in again; an inherited one stays with the superclass.
    by_cases hdepth : depth = 0
    · rw [if_pos hdepth] at hbound ⊢
      exact hbound.of_eq hsigs
    · rw [if_neg hdepth] at hbound ⊢
      exact ⟨hbound.1, hbound.2.imp (·.of_eq hsigs) (·.of_eq hsigs)⟩

/-- Whether a step is not left early. -/
def succeeds {α : Type} (x : Check α) (s : Checker) : Bool :=
  match x s with
  | .ok .. => true
  | .error .. => false

/-- A step that is not left early has a value. -/
theorem exists_of_succeeds {α : Type} {x : Check α} (h : succeeds x s = true) :
    ∃ a s', x s = .ok a s' := by
  unfold succeeds at h
  split at h
  · next a s' hr => exact ⟨a, s', hr⟩
  · cases h

/-- A new checker that has checked a source. -/
def checkedSource (source : String) : Checker :=
  ((Checker.ofMachine .initial).check (Parse.source source 0).program).2

/-- A checker that has checked a source is in a state that programs lead to. -/
theorem reachable_checkedSource (source : String) : (checkedSource source).Reachable :=
  .checked (.seeded _) _

/-- A variable that holds an object of a class gets one of its superclass. -/
theorem accepted_assignments_widen_superclass :
    let s := checkedSource "class P \x7b\x7d class Q < P \x7b\x7d var v = Q()"
    let value := Expr.call 101 (.var ⟨102, .synthetic "P"⟩) (.synthetic ")") [] []
    Closed s.extent s.idle.extent s.idle ∧ ∃ v s' s₁ t,
      expr (.assign 100 (.synthetic "v") value) s.idle = .ok v s' ∧ expr value s.idle = .ok v s₁ ∧
        lookup? s' "v" = some (((lookup? s₁ "v").map Prod.fst).getD .global, some t) ∧
        s'.Bounds t v ∧ ∀ old, (lookup? s₁ "v").bind Prod.snd = some old → s'.Bounds t old := by
  have haccepted : succeeds (expr (.assign 100 (.synthetic "v")
      (.call 101 (.var ⟨102, .synthetic "P"⟩) (.synthetic ")") [] [])))
      (checkedSource "class P \x7b\x7d class Q < P \x7b\x7d var v = Q()").idle = true := by cbv
  obtain ⟨v, s', hr⟩ := exists_of_succeeds haccepted
  have hclosed := (reachable_checkedSource
    "class P \x7b\x7d class Q < P \x7b\x7d var v = Q()").closed.1
  obtain ⟨s₁, t, hwidened⟩ := (accepted_assignments_widen hclosed).1 100 (.synthetic "v") _ v s' hr
  exact ⟨hclosed, v, s', s₁, t, hr, hwidened⟩

/-- Whether an assignment to a field is accepted although the type of the field does not bound the
value afterwards. -/
def forgets (s : Checker) (object : Expr) (name : Token) (value : Expr) : Bool :=
  match expr object s, expr (.set 0 object name value) s with
  | .ok (.instance c) _, .ok v s' => c.native?.isNone &&
    match s'.attributes.lookup name.lexeme c with
    | .found t _ =>
      match s'.unify? (some t) (some v) with
      | some (some (some u)) => !u.identical t
      | _ => true
    | _ => true
  | _, _ => false

/-- Where a field forgets, its type does not bound the value that was assigned. -/
theorem exists_of_forgets {object : Expr} {name : Token} {value : Expr}
    (h : forgets s object name value = true) : ∃ c v s₁ s',
      expr object s = .ok (.instance c) s₁ ∧ c.native? = none ∧
      expr (.set 0 object name value) s = .ok v s' ∧
      ∀ t depth, s'.attributes.lookup name.lexeme c = .found t depth → ¬s'.Bounds t v := by
  unfold forgets at h
  split at h
  · next c s₁ v s' hobject hset =>
    obtain ⟨hnative, h⟩ := Bool.and_eq_true_iff.1 h
    -- The class, the value and the two states are those that the test ran through.
    refine ⟨c, v, s₁, s', hobject, Option.isNone_iff_eq_none.1 hnative, hset, ?_⟩
    intro t depth hlookup hbound
    unfold Checker.Bounds at hbound
    rw [hlookup] at h
    dsimp only at h
    rw [hbound] at h
    cases t <;> simp [Ty.identical] at h
  · cases h

/-- A field that is inherited does not remember a value of a superclass: it keeps its type, although
the assignment is accepted. -/
theorem inherited_field_forgets_assignment :
    ¬∀ (s : Checker) (id : NodeId) (object : Expr) (name : Token) (value : Expr) (c : ClassType)
      (v : Ty) (s₁ s' : Checker), s.Reachable → expr object s.idle = .ok (.instance c) s₁ →
      c.native? = none → expr (.set id object name value) s.idle = .ok v s' →
      ∃ t depth, s'.attributes.lookup name.lexeme c = .found t depth ∧ s'.Bounds t v := by
  intro h
  have hforgets : forgets (checkedSource ("class P \x7b\x7d class Q < P \x7b\x7d " ++
      "class A \x7b init() \x7b self.x = Q() \x7d \x7d class B < A \x7b\x7d var b = B()")).idle
      (.var ⟨201, .synthetic "b"⟩) (.synthetic "x")
      (.call 202 (.var ⟨203, .synthetic "P"⟩) (.synthetic ")") [] []) = true := by cbv
  obtain ⟨c, v, s₁, s', hobject, hnative, hset, hnot⟩ := exists_of_forgets hforgets
  obtain ⟨t, depth, hlookup, hbound⟩ :=
    h _ 0 _ _ _ c v s₁ s' (reachable_checkedSource _) hobject hnative hset
  exact hnot t depth hlookup hbound

end Check

end ClassScript.Typing
