import ClassScript.Proofs.Typing.Overlooks

/-!
# The types of native code

The types of native methods, properties and constructors are looked up by name among the global
names, and those of a method are kept from its first use on. As long as programs leave the names
alone, the types are those of the native classes (`Upholds`); a method that was used keeps its types
whatever programs do later; and a class that takes the name of a native one does not matter to
programs without the name, if all methods whose types have it were used before. Otherwise it does
matter: `class_changes_verdict_without_name`.
-/

namespace ClassScript.Typing

/-! ### Programs in a row -/

namespace Checker

variable {kept hidden : List String} {s t : Checker}

/-- The state behind programs that are checked in a row, accepted or not. -/
def after (s : Checker) (programs : List (List Stmt)) : Checker :=
  programs.foldl (fun s program => (s.check program).2) s

/-- The states behind programs that leave some global names alone, accepted or not. -/
inductive Spared (kept : List String) : Checker → Prop where
  /-- No program was checked yet. -/
  | initial : Spared kept (ofMachine .initial)
  /-- One more program was checked. -/
  | checked {s : Checker} (h : Spared kept s) {program : List Stmt}
    (hprogram : Stmt.Spares kept program) : Spared kept (s.check program).2

/-- A new checker has the native classes under their names. -/
theorem upholds_initial (kept : List String) : (ofMachine .initial).Upholds kept where
  globals c _ := seeded_initial.globals c
  natives := by
    have hnone : (ofMachine .initial).nativeMethods = [] := rfl
    rw [hnone]
    nofun
  -- No class has members of its own yet.
  members i b name f hb hf := by
    have hbodies : (ofMachine .initial).bodies = Array.replicate NativeClass.all.length {} :=
      size_seeds ..
    rw [hbodies, Array.getElem?_replicate] at hb
    split at hb
    · obtain rfl := Option.some.inj hb
      simp at hf
    · cases hb
  method := by
    have hnone : (ofMachine .initial).context = none := rfl
    rw [hnone]
    nofun

namespace Upholds

/-- Between programs the kept names are upheld. -/
theorem idle (h : s.Upholds kept) : s.idle.Upholds kept := h.of_eq rfl rfl rfl nofun rfl

/-- Fields that are put back leave the methods alone. -/
theorem restoreFields (h : t.Upholds kept) (fields : List (Nat × Std.TreeMap String Ty)) :
    ({ t with
      bodies := fields.foldl (fun bs (id, attributes) => bs.modify id ({ · with attributes }))
        t.bodies } : Checker).Upholds kept := by
  induction fields generalizing t with
  | nil => exact h
  | cons p rest ih =>
    have hmodified := h.modifyBody p.1 (u := ({ · with attributes := p.2 })) fun _ _ _ hf => .inl hf
    exact ih hmodified

/-- After a rejected program they are upheld too. -/
theorem restore (h : s.Upholds kept) (ht : t.Upholds kept) :
    (t.restore s.globals s.globalAttributes).Upholds kept :=
  let hfields := ht.restoreFields s.globalAttributes
  ⟨h.globals, hfields.natives, hfields.members, hfields.method⟩

/-- A state is its own shadow if no name is hidden. -/
theorem shadowed (h : s.Upholds kept) : Shadowed kept [] s s where
  same := rfl
  globals _ _ := rfl
  upholds := h
  settled _ _ _ hnames := by simp at hnames
  hideable := ⟨fun _ _ _ => List.not_mem_nil, List.not_mem_nil⟩

/-- A program that leaves the kept names alone, accepted or not. -/
theorem check (h : s.Upholds kept) {program : List Stmt} (hprogram : Stmt.Spares kept program) :
    (s.check program).2.Upholds kept ∧ s.Later (s.check program).2 := by
  -- No name is hidden, so the state is compared with itself.
  have hnodes : Node.AllDiscreet kept [] (Stmt.nodesOf everywhere program) := fun n hn =>
    ⟨hprogram.assigned n hn, fun _ _ => List.not_mem_nil⟩
  have hrun := (Check.overlooks_stmts s.idle program hnodes).run h.idle.shadowed (.refl _)
    fun _ => hprogram.declared
  unfold Checker.check
  cases hr : Check.stmts program s.idle with
  | ok a t =>
    rw [hr] at hrun
    cases hrun with
    | ok ht hlater =>
      have hstart : s.Later s.idle := .of_eq rfl rfl
      exact ⟨ht.upholds, hstart.trans hlater⟩
  | error e t =>
    rw [hr] at hrun
    cases hrun with
    | error ht hlater =>
      have hstart : s.Later s.idle := .of_eq rfl rfl
      have hback : t.Later (t.restore s.globals s.globalAttributes).idle := .of_eq rfl rfl
      have hboth := And.intro (h.restore ht.upholds).idle (hstart.trans (hlater.trans hback))
      cases e <;> exact hboth

end Upholds

namespace Spared

/-- Programs that spare the kept names uphold them. -/
theorem upholds (h : s.Spared kept) : s.Upholds kept := by
  induction h with
  | initial => exact upholds_initial kept
  | checked _ hprogram ih => exact (ih.check hprogram).1

/-- What spares names spares no names. -/
theorem nil (h : s.Spared kept) : s.Spared [] := by
  induction h with
  | initial => exact .initial
  | checked _ _ ih => exact ih.checked (Stmt.spares_nil _)

/-- The states behind such programs are states that programs lead to. -/
theorem reachable (h : s.Spared kept) : s.Reachable := by
  induction h with
  | initial => exact .seeded _
  | checked _ _ ih => exact ih.checked _

/-- The native methods that were used keep their signatures in all later programs. -/
theorem natives_after (h : s.Spared []) (programs : List (List Stmt)) {op : Operation}
    {f : SignatureId} (hf : s.nativeMethods.lookup op = some f) :
    (s.after programs).nativeMethods.lookup op = some f ∧
      (s.after programs).signature f = s.signature f := by
  induction programs generalizing s with
  | nil => exact ⟨hf, rfl⟩
  | cons program rest ih =>
    obtain ⟨-, hlater⟩ := h.upholds.check (Stmt.spares_nil program)
    obtain ⟨hrest, hsame⟩ := ih (h.checked (Stmt.spares_nil program)) (hlater.natives op f hf)
    obtain ⟨-, hkeeps⟩ := closed_check h.reachable.closed.1 program
    have hlt : f < s.signatures.size := (h.upholds.natives op f (mem_of_lookup hf)).1
    refine ⟨hrest, hsame.trans ?_⟩
    unfold signature
    rw [hkeeps.signatures f hlt]

end Spared

end Checker

/-! ### Types by name -/

/-- The types of native code are those of the native classes that it names, where these names are
kept. -/
structure Checker.NativeTypes (kept : List String) (s : Checker) : Prop where
  /-- The parameters and results of methods. -/
  methods : ∀ c : NativeClass, ∀ m ∈ c.methods, m.typeNames ⊆ kept →
    ∃ f s', Check.nativeMethod m s = .ok (.function f) s' ∧ s'.signature f = m.signature
  /-- The values of properties. -/
  properties : ∀ c : NativeClass, c.lateNames ⊆ kept → ∀ p ∈ c.properties, ∀ name : Token,
    name.lexeme = p.name → Check.member (builtin c) name s = .ok (builtin (.named p.returns)) s
  /-- The parameters and results of constructors. -/
  constructors : ∀ c : NativeClass, c.lateNames ⊆ kept → c.name ∈ kept → ∀ params,
    c.constructor? = some params → ∀ site, Check.constructor site (nativeType c) s =
      .ok { name := c.name, params, returns := some (builtin c),
            paramTypes := params.map fun p => builtin (.named p.type.lexeme) } s
  /-- The elements that are iterated over. -/
  elements : ∀ c : NativeClass, c ≠ .object → c.lateNames ⊆ kept → c.method? "iterate" ≠ none →
    ∀ keyword, Check.elementType keyword (builtin c) s = .ok (builtin (.named c.elements)) s

namespace Checker.Upholds

variable {kept : List String} {s : Checker}

/-- A method that was used has its own signature, and one that was not gets it. -/
theorem nativeMethod (h : s.Upholds kept) {c : NativeClass} {m : NativeMethod} (hm : m ∈ c.methods)
    (hkept : m.typeNames ⊆ kept) :
    ∃ f s', Check.nativeMethod m s = .ok (.function f) s' ∧ s'.signature f = m.signature := by
  rw [Check.nativeMethod_apply]
  -- The signature stands from an earlier use, or it is made from the kept names now.
  cases hlookup : s.nativeMethods.lookup m.operation with
  | some f =>
    obtain ⟨-, d, n, hn, hop, hsig⟩ := h.natives _ _ (mem_of_lookup hlookup)
    obtain rfl := Check.eq_of_operation_eq hn hm hop
    refine ⟨f, s, rfl, ?_⟩
    rw [signature, hsig hkept]
    rfl
  | none =>
    refine ⟨_, _, rfl, ?_⟩
    rw [signature, Array.getElem?_push_size, h.nativeMethodSignature hm hkept]
    rfl

/-- The late names of a native class name native classes. -/
theorem lateType (h : s.Upholds kept) {c : NativeClass} (hkept : c.lateNames ⊆ kept) {name : String}
    (hname : name ∈ c.elements :: (c.properties.map (·.returns) ++ c.params.map (·.type.lexeme))) :
    Check.globalType s name = builtin (.named name) := by
  have htable : ∀ c ∈ NativeClass.all, ∀ name ∈
      c.elements :: (c.properties.map (·.returns) ++ c.params.map (·.type.lexeme)),
      name ∈ NativeClass.all.map (·.name) := by decide +kernel
  exact h.globalType (htable c c.mem_all name hname)
    (mem_of_forall_filter (fun n hn => hkept hn) hname)

/-- A field of a native class has the class that native code names. -/
theorem member_property (h : s.Upholds kept) {c : NativeClass} (hkept : c.lateNames ⊆ kept)
    {p : NativeProperty} (hp : p ∈ c.properties) {name : Token} (hname : name.lexeme = p.name) :
    Check.member (builtin c) name s = .ok (builtin (.named p.returns)) s := by
  -- Two native classes have fields, and no method has the name of one.
  have hfound : c ≠ .object ∧ c.method? p.name = none ∧ c.property? p.name = some p := by
    cases c <;> first
      | exact absurd hp List.not_mem_nil
      | (rcases List.mem_pair.1 hp with rfl | rfl <;> exact ⟨nofun, rfl, rfl⟩)
  obtain ⟨hobject, hmethod, hproperty⟩ := hfound
  have hmember : Check.member (builtin c) name s = .ok (Check.globalType s p.returns) s := by
    unfold Check.member
    rw [Check.isObject_builtin, decide_eq_false hobject, if_neg Bool.false_ne_true]
    have hnative : (nativeType c).native? = some c := rfl
    simp only [builtin, hnative, hname, hmethod, hproperty]
    rfl
  rw [hmember, h.lateType hkept (.tail _ (List.mem_append_left _ (List.mem_map_of_mem hp)))]

/-- So have the parameters of its constructor. -/
theorem constructor_native (h : s.Upholds kept) {c : NativeClass} (hkept : c.lateNames ⊆ kept)
    (hname : c.name ∈ kept) {params : List Param} (hparams : c.constructor? = some params)
    (site : Token) :
    Check.constructor site (nativeType c) s =
      .ok { name := c.name, params, returns := some (builtin c),
            paramTypes := params.map fun p => builtin (.named p.type.lexeme) } s := by
  have hconstructor : Check.constructor site (nativeType c) s =
      .ok (Check.nativeSignature s c.name params c.name) s := by
    unfold Check.constructor
    have hnative : (nativeType c).native? = some c := rfl
    simp only [hnative, hparams]
    rfl
  -- The types of the parameters are looked up late, and their names are kept.
  have hparamTypes : params.map (fun p => Check.globalType s p.type.lexeme)
      = params.map fun p => builtin (.named p.type.lexeme) := by
    refine List.map_congr_left fun p hp => h.lateType hkept
      (.tail _ (List.mem_append_right _ (List.mem_map_of_mem ?_)))
    rwa [NativeClass.params, hparams]
  have hreturns : Check.globalType s c.name = builtin c := by
    rw [h.globalType (List.mem_map_of_mem c.mem_all) (.inr hname), Check.named_name]
  rw [hconstructor, Check.nativeSignature, hparamTypes, hreturns]

/-- So have its elements. -/
theorem elementType_native (h : s.Upholds kept) {c : NativeClass} (hobject : c ≠ .object)
    (hkept : c.lateNames ⊆ kept) (hiterate : c.method? "iterate" ≠ none) (keyword : Token) :
    Check.elementType keyword (builtin c) s = .ok (builtin (.named c.elements)) s := by
  obtain ⟨m, hm⟩ := Option.ne_none_iff_exists'.1 hiterate
  have helements : Check.elementType keyword (builtin c) s =
      .ok (Check.globalType s c.elements) s := by
    unfold Check.elementType
    rw [Check.isObject_builtin, decide_eq_false hobject, if_neg Bool.false_ne_true]
    have hnative : (nativeType c).native? = some c := rfl
    simp only [builtin, hnative, hm]
    rfl
  rw [helements, h.lateType hkept (.head _)]

/-- As long as the kept names are upheld, native code has the types that it names. -/
theorem nativeTypes (h : s.Upholds kept) : s.NativeTypes kept where
  methods _ _ hm hkept := h.nativeMethod hm hkept
  properties _ hkept _ hp _ hname := h.member_property hkept hp hname
  constructors _ hkept hname _ hparams site := h.constructor_native hkept hname hparams site
  elements _ hobject hkept hiterate keyword :=
    h.elementType_native hobject hkept hiterate keyword

end Checker.Upholds

/-! ### Programs without hidden names -/

/-- Nothing has changed but the values of hidden global names; functions and classes may have been
added. -/
structure Checker.OnlyBinds (hidden : List String) (s s' : Checker) : Prop where
  /-- The other global names have the types they had. -/
  globals : ∀ name : String, name ∉ hidden → s'.globals[name]? = s.globals[name]?
  /-- No native method was used for the first time. -/
  natives : s'.nativeMethods = s.nativeMethods
  /-- The fields of the classes that were there have the types they had. -/
  fields : ∀ c : ClassType, c.id < s.bodies.size → ∀ name : String,
    (s'.body c).attributes[name]? = (s.body c).attributes[name]?

namespace Checker

variable {kept hidden : List String} {s t : Checker}

/-- A class with nothing in it binds its name. -/
theorem onlyBinds_class (s : Checker) (id : NodeId) (name : Token) :
    s.OnlyBinds [name.lexeme] (s.check [.classDecl id name [] []]).2 := by
  let c : ClassType := { id := s.bodies.size, name := name.lexeme, supers := [], native? := none }
  have hcheck : (s.check [.classDecl id name [] []]).2 =
      { s.idle with
        bodies := s.bodies.push {}
        globals := s.globals.insert name.lexeme (some (.class c))
        types := s.types.insert id (.class c) } := rfl
  rw [hcheck]
  refine ⟨fun n hn => ?_, rfl, fun d hlt n => ?_⟩
  · have hne : name.lexeme ≠ n := fun heq => hn (heq ▸ .head _)
    rw [Std.TreeMap.getElem?_insert, if_neg (by simpa using hne)]
  · unfold body
    rw [Array.getElem?_push_lt hlt, Array.getElem?_eq_getElem hlt]

/-- A program that mentions no hidden names gets the same verdict. -/
theorem verdict_of_shadowed (h : Shadowed [] hidden s.idle t.idle) {program : List Stmt}
    (hprogram : Stmt.Avoids hidden program) : (t.check program).1 = (s.check program).1 := by
  have hnodes : Node.AllDiscreet [] hidden (Stmt.nodesOf everywhere program) := fun n hn =>
    ⟨fun _ _ => List.not_mem_nil, hprogram n hn⟩
  have hrun := (Check.overlooks_stmts s.idle program hnodes).run h (.refl _)
    fun _ _ _ _ _ => List.not_mem_nil
  unfold check
  generalize Check.stmts program s.idle = r at hrun ⊢
  generalize Check.stmts program t.idle = r' at hrun ⊢
  cases hrun with
  | ok => rfl
  | @error e => cases e <;> rfl

/-- The state behind a program is the one before it with later functions and classes renamed, but
for the hidden names. -/
theorem verdict_behind (hs : s.Spared kept) {program : List Stmt}
    (hbinds : s.OnlyBinds hidden (s.check program).2) (hsettled : s.Settled hidden)
    (hhideable : Hideable hidden) {later : List Stmt} (hlater : Stmt.Avoids hidden later) :
    ((s.check program).2.check later).1 = (s.check later).1 := by
  obtain ⟨hclosed, hn⟩ := hs.reachable.closed
  obtain ⟨-, hkeeps⟩ := closed_check hclosed program
  have hupholds := (hs.nil.checked (Stmt.spares_nil program)).upholds
  generalize (s.check program).2 = s' at hbinds hkeeps hupholds ⊢
  -- With the global names from before it, the state behind the program is `s` but for the numbers
  -- of functions and classes. The real one differs from that in hidden names only.
  let t : Checker := { s' with globals := s.globals }
  have hkept : Keeps s.extent s t := ⟨hkeeps.extent, hkeeps.signatures, hkeeps.members⟩
  have hmirror := mirror_of_kept hclosed hn hkept rfl hbinds.natives hbinds.fields
  have hshadowed : Shadowed [] hidden t.idle s'.idle :=
    { same := rfl
      globals := hbinds.globals
      upholds := ⟨nofun, hupholds.natives, hupholds.members, nofun⟩
      settled := fun c m hm hnames => hbinds.natives ▸ hsettled c m hm hnames
      hideable := hhideable }
  exact (verdict_of_shadowed hshadowed hlater).trans (hmirror.check later).1

/-- Where no program has bound the kept names so far, the types of native code that has no other
names are those of the native classes. A native method that was used keeps its types, whatever later
programs bind. And if the native methods with certain names were used before, then a program that
binds only these names changes no verdict on a later one without them. -/
theorem native_types_stand (hs : s.Spared kept) :
    s.NativeTypes kept ∧
    (∀ (programs : List (List Stmt)) (op : Operation) (f : SignatureId),
      s.nativeMethods.lookup op = some f →
        (s.after programs).nativeMethods.lookup op = some f ∧
          (s.after programs).signature f = s.signature f) ∧
    ∀ (program : List Stmt) (hidden : List String), s.OnlyBinds hidden (s.check program).2 →
      s.Settled hidden → Hideable hidden → ∀ later, Stmt.Avoids hidden later →
        ((s.check program).2.check later).1 = (s.check later).1 :=
  ⟨hs.upholds.nativeTypes, fun programs _ _ hf => hs.nil.natives_after programs hf,
    fun _ _ hbinds hsettled hhideable _ hlater =>
      verdict_behind hs hbinds hsettled hhideable hlater⟩

/-- The class of the numbers is hidden after all methods that take a number were used. -/
theorem native_types_stand_number :
    let calculation := (Parse.source
      "1+2; 1-2; 1*2; 1/2; 1%2; 1>2; 1.0+2; 1.0-2; 1.0*2; 1.0/2; 1.0%2; 1.0>2" 0).program
    let number := [Stmt.classDecl 100 (.synthetic "Number") [] []]
    let sum := (Parse.source "1 + 2" 200).program
    let kept := NativeClass.all.map (·.name)
    let s := ((ofMachine .initial).check calculation).2
    s.Spared kept ∧ s.NativeTypes kept ∧
      s.OnlyBinds ["Number"] (s.check number).2 ∧ s.Settled ["Number"] ∧ Hideable ["Number"] ∧
      Stmt.Avoids ["Number"] sum ∧ ((s.check number).2.check sum).1 = (s.check sum).1 := by
  intro calculation number sum kept s
  have hspared : s.Spared kept := .checked .initial ⟨by decide +kernel, by decide +kernel⟩
  have hbinds : s.OnlyBinds ["Number"] (s.check number).2 :=
    onlyBinds_class s 100 (.synthetic "Number")
  -- Every method that takes a number was used, so its types are settled.
  have hsettled : s.Settled ["Number"] := by
    have hused : ∀ c ∈ NativeClass.all, ∀ m ∈ c.methods, (∃ n ∈ m.typeNames, n ∈ ["Number"]) →
        (s.nativeMethods.lookup m.operation).isSome := by decide +kernel
    exact fun c => hused c c.mem_all
  -- No other native class is looked up by that name later on.
  have hhideable : Hideable ["Number"] := by
    have hlate : ∀ c ∈ NativeClass.all, ∀ n ∈ c.lateNames, n ∉ ["Number"] := by decide +kernel
    exact ⟨fun c => hlate c c.mem_all, by decide⟩
  have hsum : Stmt.Avoids ["Number"] sum := by
    unfold Stmt.Avoids
    decide +kernel
  obtain ⟨hnative, -, hverdict⟩ := native_types_stand hspared
  exact ⟨hspared, hnative, hbinds, hsettled, hhideable, hsum,
    hverdict number _ hbinds hsettled hhideable sum hsum⟩

/-- A class with the name of a native one does change a verdict on a later program without the name,
if a native method with the name in its types was not used before: the sum of two numbers is
rejected then. -/
theorem class_changes_verdict_without_name :
    ¬∀ (s : Checker) (id : NodeId) (name : Token) (later : List Stmt), s.Reachable →
      name.lexeme ∈ NativeClass.all.map (·.name) →
      (s.check [.classDecl id name [] []]).1 = .accepted → Stmt.Avoids [name.lexeme] later →
      ((s.check [.classDecl id name [] []]).2.check later).1 = (s.check later).1 := by
  intro h
  have hsum : Stmt.Avoids ["Number"] (Parse.source "1 + 2" 100).program := by
    unfold Stmt.Avoids
    decide +kernel
  have hsame := h (ofMachine .initial) 0 (.synthetic "Number") _ (.seeded _) (by decide +kernel)
    rfl hsum
  have hrejects := congrArg Verdict.rejects hsame
  revert hrejects
  decide +kernel

end Checker

end ClassScript.Typing
