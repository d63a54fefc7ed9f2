import Mathlib.Data.Set.Function
import ClassScript.Proofs.Parse.Yields
import ClassScript.Proofs.Typing.Edits
import ClassScript.Session

/-!
# Every node of an accepted program has a type

The checker gives types to nodes all over its functions, and in another order than the walk over a
program lists them. `Check.Records` says of one step which nodes it gives a type, and that it gives
none to any other node. The function of a statement is the one node of a walk that gets no type of
its own: its type belongs to the statement.
-/

namespace ClassScript

/-! ### Functions of statements -/

/-- A node of a list is the function of a statement of the list. -/
def Node.HeldIn (ns : List Node) (n : Node) : Prop :=
  ∃ id fn, .stmt (.function id fn) ∈ ns ∧ n = .expr (.lambda fn)

/-- Whether a node is the statement of a function. -/
def Node.isFunction : Node → Bool
  | .stmt (.function ..) => true
  | _ => false

/-- A node that is the statement of a function has the form of one. -/
theorem Node.eq_of_isFunction {n : Node} (h : n.isFunction = true) :
    ∃ id fn, n = .stmt (.function id fn) := by
  unfold isFunction at h
  split at h
  · next id fn => exact ⟨id, fn, rfl⟩
  · cases h

/-- A walk, and the same walk without the functions of statements. Such a function comes right
behind its statement. -/
inductive Unheld : List Node → List Node → Prop where
  /-- There is no node. -/
  | nil : Unheld [] []
  /-- A node that is not the statement of a function. -/
  | node {n : Node} {ns rs : List Node} (h : n.isFunction = false) (rest : Unheld ns rs) :
    Unheld (n :: ns) (n :: rs)
  /-- The statement of a function. -/
  | function (id : NodeId) (fn : Lambda) {ns rs : List Node} (rest : Unheld ns rs) :
    Unheld (.stmt (.function id fn) :: .expr (.lambda fn) :: ns) (.stmt (.function id fn) :: rs)

namespace Unheld

variable {ns ns' rs rs' : List Node} {id : NodeId} {fn : Lambda}

/-- Two walks in a row lose the functions of statements of both. -/
theorem append (h : Unheld ns rs) (h' : Unheld ns' rs') : Unheld (ns ++ ns') (rs ++ rs') := by
  induction h with
  | nil => exact h'
  | node hn _ ih => exact .node hn ih
  | function id fn _ ih => exact .function id fn ih

/-- What is left of a walk was in it. -/
theorem mem_of_mem (h : Unheld ns rs) {n : Node} (hn : n ∈ rs) : n ∈ ns := by
  induction h with
  | nil => exact hn
  | node _ _ ih =>
    rcases List.mem_cons.1 hn with rfl | hn
    · exact List.mem_cons_self
    · exact List.mem_cons_of_mem _ (ih hn)
  | function _ _ _ ih =>
    rcases List.mem_cons.1 hn with rfl | hn
    · exact List.mem_cons_self
    · exact List.mem_cons_of_mem _ (List.mem_cons_of_mem _ (ih hn))

/-- A node in front of a walk does not take a function from its statement. -/
theorem heldIn_cons {n m : Node} (h : n.HeldIn ns) : n.HeldIn (m :: ns) := by
  obtain ⟨id, fn, hmem, hn⟩ := h
  exact ⟨id, fn, List.mem_cons_of_mem _ hmem, hn⟩

/-- Only functions of statements are left out. -/
theorem mem_or_heldIn (h : Unheld ns rs) {n : Node} (hn : n ∈ ns) : n ∈ rs ∨ n.HeldIn ns := by
  -- Along the list of nodes, in which the function of a statement comes right behind it.
  induction h with
  | nil => exact .inl hn
  | node _ _ ih =>
    rcases List.mem_cons.1 hn with rfl | hn
    · exact .inl List.mem_cons_self
    · exact (ih hn).imp (List.mem_cons_of_mem _) heldIn_cons
  | function id fn _ ih =>
    rcases List.mem_cons.1 hn with rfl | hn
    · exact .inl List.mem_cons_self
    rcases List.mem_cons.1 hn with rfl | hn
    · exact .inr ⟨id, fn, List.mem_cons_self, rfl⟩
    · exact (ih hn).imp (List.mem_cons_of_mem _) fun h => heldIn_cons (heldIn_cons h)

/-- No statement is left out. -/
theorem statement_mem (h : Unheld ns rs) {s : Stmt} (hs : .stmt s ∈ ns) : .stmt s ∈ rs := by
  rcases h.mem_or_heldIn hs with hmem | ⟨_, _, _, he⟩
  · exact hmem
  · cases he

/-- The function of a statement is a node too. -/
theorem function_mem (h : Unheld ns rs) (hf : .stmt (.function id fn) ∈ ns) :
    .expr (.lambda fn) ∈ ns := by
  induction h with
  | nil => cases hf
  | node hn _ ih =>
    rcases List.mem_cons.1 hf with rfl | hf
    · cases hn
    · exact List.mem_cons_of_mem _ (ih hf)
  | function _ _ _ ih =>
    rcases List.mem_cons.1 hf with he | hf
    · cases he
      exact List.mem_cons_of_mem _ List.mem_cons_self
    rcases List.mem_cons.1 hf with he | hf
    · cases he
    · exact List.mem_cons_of_mem _ (List.mem_cons_of_mem _ (ih hf))

/-- The function of a statement is left out for good if all nodes have identities of their own. -/
theorem id_ne (h : Unheld ns rs) (hids : (ns.map Node.id).Nodup)
    (hf : .stmt (.function id fn) ∈ ns) {n : Node} (hn : n ∈ rs) : n.id ≠ fn.id := by
  -- On the walk; the function is in the list as soon as its statement is.
  induction h with
  | nil => cases hn
  | @node m ns rs hm rest ih =>
    obtain ⟨hm', hids⟩ := List.nodup_cons.1 hids
    have hbehind : Node.stmt (.function id fn) ∈ ns :=
      (List.mem_cons.1 hf).resolve_left fun he => by cases he; cases hm
    have hbelow : fn.id ∈ ns.map Node.id := List.mem_map_of_mem (rest.function_mem hbehind)
    rcases List.mem_cons.1 hn with rfl | hn
    · exact fun he => hm' (he ▸ hbelow)
    · exact ih hids hbehind hn
  | @function id' fn' ns rs rest ih =>
    obtain ⟨hstatement, hids⟩ := List.nodup_cons.1 hids
    obtain ⟨hlambda, hids⟩ := List.nodup_cons.1 hids
    rcases List.mem_cons.1 hf with he | hf
    · cases he
      rcases List.mem_cons.1 hn with rfl | hn
      · exact fun he => hstatement (List.mem_cons.2 (.inl he))
      · exact fun he => hlambda (List.mem_map.2 ⟨n, rest.mem_of_mem hn, he⟩)
    have hbehind : Node.stmt (.function id fn) ∈ ns := (List.mem_cons.1 hf).resolve_left nofun
    have hbelow : fn.id ∈ ns.map Node.id := List.mem_map_of_mem (rest.function_mem hbehind)
    rcases List.mem_cons.1 hn with rfl | hn
    · exact fun he => hstatement (List.mem_cons_of_mem _ (he ▸ hbelow))
    · exact ih hids hbehind hn

end Unheld

namespace Typing

/-! ### Types of nodes -/

namespace Checker

variable {s s' s'' : Checker} {rs rs' : List Node}

/-- The signature of a function has a name and parameters. -/
def Signs (s : Checker) (f : SignatureId) (name : String) (params : List Param) : Prop :=
  ∃ sig, s.signatures[f]? = some sig ∧ sig.name = name ∧ sig.params = params

/-- The functions of one state have their names and parameters in another one. -/
def KeepsSigned (s s' : Checker) : Prop :=
  ∀ f name params, s.Signs f name params → s'.Signs f name params

/-- A type that a node can get: the statement of a function gets the type of the function. -/
def Suits (s : Checker) (t : Ty) (n : Node) : Prop :=
  ∀ id fn, n = .stmt (.function id fn) → ∃ f, t = .function f ∧ s.Signs f fn.title fn.params

/-- A state with the same functions keeps their names and parameters. -/
theorem KeepsSigned.of_eq (h : s'.signatures = s.signatures) : s.KeepsSigned s' := by
  intro f name params hf
  unfold Signs
  rwa [h]

/-- So does a state with one function more. -/
theorem KeepsSigned.push {sig : Signature} (h : s'.signatures = s.signatures.push sig) :
    s.KeepsSigned s' := by
  rintro f name params ⟨old, hold, hsig⟩
  obtain ⟨hlt, hold⟩ := Array.getElem?_eq_some_iff.1 hold
  exact ⟨old, by rw [h, Array.getElem?_push_lt hlt, hold], hsig⟩

/-- So does one in which a function was changed in other respects. -/
theorem KeepsSigned.modify {g : SignatureId} {u : Signature → Signature}
    (h : s'.signatures = s.signatures.modify g u)
    (hu : ∀ sig, (u sig).name = sig.name ∧ (u sig).params = sig.params) : s.KeepsSigned s' := by
  rintro f name params ⟨old, hold, hname, hparams⟩
  unfold Signs
  rw [h, Array.getElem?_modify, hold]
  split
  · exact ⟨u old, rfl, (hu old).1.trans hname, (hu old).2.trans hparams⟩
  · exact ⟨old, rfl, hname, hparams⟩

/-- A type that suits a node goes on suiting it. -/
theorem Suits.mono {t : Ty} {n : Node} (h : s.Suits t n) (hs : s.KeepsSigned s') :
    s'.Suits t n := by
  intro id fn hn
  obtain ⟨f, ht, hf⟩ := h id fn hn
  exact ⟨f, ht, hs f _ _ hf⟩

/-- Between two states exactly the nodes of a list got a type. -/
structure Records (rs : List Node) (s s' : Checker) : Prop where
  /-- Functions keep their names and parameters. -/
  signed : s.KeepsSigned s'
  /-- Every node of the list has a type, which it got as a node of the list. -/
  given : ∀ n ∈ rs, ∃ m ∈ rs, m.id = n.id ∧ ∃ t, s'.types[n.id]? = some t ∧ s'.Suits t m
  /-- No other node got a type. -/
  others : ∀ id, (∀ n ∈ rs, n.id ≠ id) → s'.types[id]? = s.types[id]?

namespace Records

/-- Where the types of nodes stay, no node got one. -/
theorem of_keepsSigned (h : s.KeepsSigned s') (ht : s'.types = s.types) : Records [] s s' :=
  ⟨h, nofun, fun _ _ => by rw [ht]⟩

/-- A node gets a type. -/
theorem insert {n : Node} (t : Ty) (ht : s.Suits t n) :
    Records [n] s { s with types := s.types.insert n.id t } where
  signed := .of_eq rfl
  given m hm := by
    cases List.mem_singleton.1 hm
    exact ⟨n, hm, rfl, t, Std.TreeMap.getElem?_insert_self, ht⟩
  others id hid := by
    have hne := hid n List.mem_cons_self
    dsimp only
    rw [Std.TreeMap.getElem?_insert]
    simp [hne]

/-- The order does not matter. -/
theorem of_mem_iff (h : Records rs s s') (hmem : ∀ n, n ∈ rs' ↔ n ∈ rs) : Records rs' s s' where
  signed := h.signed
  given n hn := by
    obtain ⟨m, hm, ht⟩ := h.given n ((hmem n).1 hn)
    exact ⟨m, (hmem m).2 hm, ht⟩
  others id hid := h.others id fun n hn => hid n ((hmem n).2 hn)

/-- First some nodes get a type, and then some others. -/
theorem trans (h : Records rs s s') (h' : Records rs' s' s'') : Records (rs ++ rs') s s'' where
  signed f name params hf := h'.signed f name params (h.signed f name params hf)
  given n hn := by
    by_cases hlater : ∃ m ∈ rs', m.id = n.id
    · obtain ⟨m, hm, hid⟩ := hlater
      obtain ⟨m', hm', hid', t, ht, hsuits⟩ := h'.given m hm
      exact ⟨m', List.mem_append_right _ hm', hid'.trans hid, t, hid ▸ ht, hsuits⟩
    · -- The type is the one that the node got first.
      have hfirst : n ∈ rs := (List.mem_append.1 hn).resolve_right fun hn => hlater ⟨n, hn, rfl⟩
      obtain ⟨m, hm, hid, t, ht, hsuits⟩ := h.given n hfirst
      have hkept := h'.others n.id fun m hm he => hlater ⟨m, hm, he⟩
      exact ⟨m, List.mem_append_left _ hm, hid, t, hkept.trans ht, hsuits.mono h'.signed⟩
  others id hid := by
    have hkept := h'.others id fun n hn => hid n (List.mem_append_right _ hn)
    exact hkept.trans (h.others id fun n hn => hid n (List.mem_append_left _ hn))

end Records

end Checker

/-- Changes that leave the scopes alone keep the names and parameters of functions. -/
theorem Edit.keepsSigned {s s' : Checker} (h : Edit s s') : s.KeepsSigned s' := by
  cases h with
  | sign sig => exact .push rfl
  | mark f _ => exact .modify (u := ({ · with callsSuper := true })) rfl fun _ => ⟨rfl, rfl⟩
  | _ => exact .of_eq rfl

namespace Check

variable {α β : Type} {rs rs' : List Node} {n : Node} {x : Check α}

/-- A step that gives a type to the nodes of a list and to no other node. -/
structure Records (rs : List Node) (x : Check α) : Prop where
  /-- If the step ends, the nodes got their types. -/
  ok : ∀ {s a s'}, x s = .ok a s' → Checker.Records rs s s'

namespace Records

/-! ### Rules -/

/-- A step that stops does not go through. -/
theorem throw (e : Stop) : Records rs (MonadExcept.throw e : Check α) := ⟨nofun⟩

/-- A value gives no node a type. -/
theorem pure (a : α) : Records [] (Pure.pure a : Check α) where
  ok hr := by
    cases hr
    exact .of_keepsSigned (.of_eq rfl) rfl

/-- A change of the state gives no node a type if it leaves the types alone. -/
theorem change {f : Checker → Checker} (hf : ∀ s : Checker, s.KeepsSigned (f s))
    (ht : ∀ s, (f s).types = s.types) : Records [] (modify f : Check Unit) where
  ok hr := by
    cases hr
    exact .of_keepsSigned (hf _) (ht _)

/-- A quiet step gives no node a type. -/
theorem quiet (h : x.Quiet) : Records [] x where
  ok {s a s'} hr := by
    have htypes := h.types s
    have hedits := h.edits.edits s
    rw [final_ok hr] at htypes hedits
    refine .of_keepsSigned ?_ htypes
    clear hr htypes
    induction hedits with
    | refl => exact .of_eq rfl
    | tail _ he ih =>
      exact fun f name params hf => he.keepsSigned f name params (ih f name params hf)

/-- The nodes that get a type may be listed in any order. -/
theorem of_mem_iff (h : Records rs x) (hmem : ∀ n, n ∈ rs' ↔ n ∈ rs) : Records rs' x :=
  ⟨fun hr => (h.ok hr).of_mem_iff hmem⟩

/-- The nodes of two steps get their types one after the other. -/
theorem bind {f : α → Check β} (hx : Records rs x) (hf : ∀ a, Records rs' (f a)) :
    Records (rs ++ rs') (x >>= f) where
  ok hr := by
    obtain ⟨a, s', hx', hr⟩ := bind_eq_ok.1 hr
    exact (hx.ok hx').trans ((hf a).ok hr)

/-- A step that gives no type, in front. -/
theorem first {f : α → Check β} (hx : Records [] x) (hf : ∀ a, Records rs (f a)) :
    Records rs (x >>= f) :=
  hx.bind hf

/-- A step that gives no type, behind. -/
theorem last {f : α → Check β} (hx : Records rs x) (hf : ∀ a, Records [] (f a)) :
    Records rs (x >>= f) :=
  (hx.bind hf).of_mem_iff fun _ => by rw [List.append_nil]

/-- A node gets its type behind the nodes below it, which come in two steps. -/
theorem under {f : α → Check β} (hx : Records rs x) (hf : ∀ a, Records (n :: rs') (f a)) :
    Records (n :: (rs ++ rs')) (x >>= f) :=
  (hx.bind hf).of_mem_iff fun _ => List.perm_middle.symm.mem_iff

/-- A node gets its type behind the nodes below it. -/
theorem below {f : α → Check β} (hx : Records rs x) (hf : ∀ a, Records [n] (f a)) :
    Records (n :: rs) (x >>= f) :=
  (hx.bind hf).of_mem_iff fun _ => (List.perm_append_singleton n rs).symm.mem_iff

/-- Looks at the state and goes on. -/
theorem getBind {f : Checker → Check β} (hf : ∀ s, Records rs (f s)) :
    Records rs (MonadState.get >>= f) :=
  ⟨fun {s _ _} hr => (hf s).ok hr⟩

/-- Both branches of a choice have to give types to the same nodes. -/
theorem ite {c : Prop} [Decidable c] {y : Check α} (hx : Records rs x) (hy : Records rs y) :
    Records rs (if c then x else y) := by
  split
  · exact hx
  · exact hy

/-- A step in a new scope. -/
theorem inScope (scope : StaticScope) (hx : Records rs x) : Records rs (inScope scope x) :=
  .first (.change (fun _ => .of_eq rfl) fun _ => rfl) fun _ => hx.last fun a =>
    .first (.change (fun _ => .of_eq rfl) fun _ => rfl) fun _ => .pure a

end Records

/-! ### Names and functions -/

/-- A node that is not the statement of a function gets a type. -/
theorem records_record (n : Node) (hn : n.isFunction = false) (t : Ty) :
    Records [n] (record n.id t) where
  ok hr := by
    cases hr
    refine .insert t ?_
    rintro id fn rfl
    cases hn

/-- A use of a name is noted without a type. -/
theorem records_noteUse (id : NodeId) (name : String) : Records [] (noteUse id name) :=
  .change (fun _ => .of_eq rfl) fun _ => rfl

/-- A variable in use gets a type. -/
theorem records_useVariable (use : NameUse) :
    Records [.expr (.var use)] (useVariable use) :=
  .first (records_noteUse ..) fun _ => .getBind fun _ =>
    records_record (.expr (.var use)) rfl _

/-- A name that is defined is not a node. -/
theorem records_defineAt (place : Place) (name : String) (t : Option Ty) :
    Records [] (defineAt place name t) :=
  .change (fun _ => by cases place <;> exact .of_eq rfl) fun _ => by cases place <;> rfl

/-- Neither is one that is defined in the innermost scope. -/
theorem records_define (name : String) (t : Option Ty) : Records [] (define name t) :=
  .getBind fun _ => records_defineAt ..

/-- Neither is one that is assigned to. -/
theorem records_assign (name : Token) (value : Ty) : Records [] (assign name value) := by
  refine .getBind fun s => ?_
  split
  · exact records_defineAt ..
  · exact records_defineAt ..
  · refine .first (.quiet (quiet_answer _)) fun u => ?_
    split
    · exact .first (.quiet (quiet_text _)) fun _ => .first (.quiet (quiet_text _)) fun _ =>
        .throw _
    · exact records_defineAt ..

/-- A method that is put in a class is not a node. -/
theorem records_putMember (c : ClassType) (name : String) (f : SignatureId) :
    Records [] (putMember c name f) :=
  .change (fun _ => .of_eq rfl) fun _ => rfl

/-- A class that is made is not a node. -/
theorem records_newClass (name : String) (supers : List ClassType) :
    Records [] (newClass name supers) where
  ok hr := by
    cases hr
    exact .of_keepsSigned (.of_eq rfl) rfl

/-- The body of a function gives types to the nodes that its statements give types to. -/
theorem records_functionBody (id : NodeId) (params : List Param) (f : SignatureId)
    (context : Context) {body : Check Unit} (hb : Records rs body) :
    Records rs (functionBody id params f context body) := by
  refine .getBind fun s => ?_
  dsimp only
  split
  · exact .throw _
  · refine .getBind fun s' => .first (.change (fun _ => .of_eq rfl) fun _ => rfl) fun _ => ?_
    refine (hb.inScope _).last fun _ => .getBind fun _ => ?_
    refine .first (.quiet (quiet_resultType ..)) fun result =>
      .change (fun _ => .modify (u := ({ · with returns := some result })) rfl ?_) fun _ => rfl
    exact fun _ => ⟨rfl, rfl⟩

/-- The statement of a function gets the type of the function before the body is checked. -/
theorem records_function (id : NodeId) (fn : Lambda) (types : List Ty)
    {body : SignatureId → Check Unit} (hb : ∀ f, Records rs (body f)) :
    Records (.stmt (.function id fn) :: rs) (do
      let f ← newSignature
        { name := fn.title, params := fn.params, paramTypes := types, returns := none }
      define fn.title (some (.function f))
      let _ ← record id (.function f)
      body f) where
  ok {s a s'} hr := by
    obtain ⟨f, s₁, hf, hr⟩ := bind_eq_ok.1 hr
    obtain ⟨_, s₂, hdefine, hr⟩ := bind_eq_ok.1 hr
    obtain ⟨_, s₃, hrecord, hr⟩ := bind_eq_ok.1 hr
    -- The function is signed before its name is defined, and stays signed.
    have hsigned : s₁.Signs f fn.title fn.params := by
      cases hf
      exact ⟨_, Array.getElem?_push_size, rfl, rfl⟩
    have hnamed : Checker.Records [] s₁ s₂ := (records_define _ _).ok hdefine
    have hnode : Checker.Records [.stmt (.function id fn)] s₂ s₃ := by
      cases hrecord
      refine .insert (n := .stmt (.function id fn)) (.function f) ?_
      rintro _ _ ⟨⟩
      exact ⟨f, rfl, hnamed.signed _ _ _ hsigned⟩
    have hstart : Checker.Records [] s s₁ := (Records.quiet (quiet_newSignature _)).ok hf
    exact hstart.trans (hnamed.trans (hnode.trans ((hb f).ok hr)))

/-! ### Expressions and statements -/

/-- The names of superclasses get types. -/
theorem records_superclasses (supers : List NameUse) :
    ∃ rs, Unheld (supers.flatMap fun u => Node.visit everywhere (.expr (.var u)) []) rs ∧
      Records rs (superclasses supers) := by
  induction supers with
  | nil => exact ⟨[], .nil, .pure _⟩
  | cons u rest ih =>
    obtain ⟨rs, hu, hr⟩ := ih
    refine ⟨.expr (.var u) :: rs, .node rfl hu, (records_useVariable u).bind fun t => ?_⟩
    split
    · next c =>
      have hrest : Records rs (do return c :: (← superclasses rest)) := hr.last fun _ => .pure _
      exact .ite (.first (.throw _) fun _ => hrest) hrest
    · exact .throw _

mutual

/-- The nodes of an expression get types, all but the functions of statements. -/
theorem records_expr : ∀ e : Expr, ∃ rs, Unheld (e.nodes everywhere) rs ∧ Records rs (expr e)
  | .literal id token value =>
    ⟨[_], .node rfl .nil, records_record (.expr (.literal id token value)) rfl _⟩
  | .group id paren inner => by
    obtain ⟨rs, hu, hr⟩ := records_expr inner
    refine ⟨_ :: rs, .node rfl hu, hr.below fun t => ?_⟩
    exact records_record (.expr (.group id paren inner)) rfl _
  | .list id bracket elements => by
    obtain ⟨rs, hu, hr⟩ := records_exprs elements
    refine ⟨_ :: rs, .node rfl hu, hr.below fun t => ?_⟩
    exact records_record (.expr (.list id bracket elements)) rfl _
  | .var use => ⟨[_], .node rfl .nil, records_useVariable use⟩
  | .self id keyword => by
    refine ⟨[_], .node rfl .nil, .getBind fun s => ?_⟩
    exact records_record (.expr (.self id keyword)) rfl _
  | .assign id name value => by
    obtain ⟨rs, hu, hr⟩ := records_expr value
    refine ⟨_ :: rs, .node rfl hu, hr.below fun t => .first (records_noteUse ..) fun _ =>
      .first (records_assign ..) fun _ => ?_⟩
    exact records_record (.expr (.assign id name value)) rfl _
  | .super id keyword method => by
    refine ⟨[_], .node rfl .nil, .first (.quiet (quiet_superType ..)) fun t => ?_⟩
    exact records_record (.expr (.super id keyword method)) rfl _
  | .unary id op right => by
    obtain ⟨rs, hu, hr⟩ := records_expr right
    refine ⟨_ :: rs, .node rfl hu, hr.below fun t => .first (.quiet (quiet_send ..)) fun u => ?_⟩
    exact records_record (.expr (.unary id op right)) rfl _
  | .binary id left op right => by
    obtain ⟨ls, hlu, hl⟩ := records_expr left
    obtain ⟨rs, hru, hr⟩ := records_expr right
    refine ⟨_ :: (ls ++ rs), .node rfl (hlu.append hru), hl.under fun l => hr.below fun r =>
      .first (.quiet (quiet_binaryType ..)) fun t => ?_⟩
    exact records_record (.expr (.binary id left op right)) rfl _
  | .logical id left op right => by
    obtain ⟨ls, hlu, hl⟩ := records_expr left
    obtain ⟨rs, hru, hr⟩ := records_expr right
    refine ⟨_ :: (ls ++ rs), .node rfl (hlu.append hru), hl.under fun l => hr.below fun r =>
      .first (.quiet (quiet_logicalType ..)) fun t => ?_⟩
    exact records_record (.expr (.logical id left op right)) rfl _
  | .call id callee paren args named => by
    obtain ⟨cs, hcu, hc⟩ := records_expr callee
    obtain ⟨as, hau, ha⟩ := records_exprs args
    obtain ⟨ns, hnu, hn⟩ := records_namedArgs named
    -- The walk goes from left to right, and the types are given in the same order.
    refine ⟨_ :: (cs ++ (as ++ ns)), .node rfl ?_, hc.under fun fn => ha.under fun ts =>
      hn.below fun us => .first (.quiet (quiet_callType ..)) fun t => ?_⟩
    · rw [← List.append_assoc]
      exact (hcu.append hau).append hnu
    · exact records_record (.expr (.call id callee paren args named)) rfl _
  | .get id object name => by
    obtain ⟨rs, hu, hr⟩ := records_expr object
    refine ⟨_ :: rs, .node rfl hu, hr.below fun t => .first (.quiet (quiet_member ..)) fun u => ?_⟩
    exact records_record (.expr (.get id object name)) rfl _
  | .set id object name value => by
    obtain ⟨os, hou, ho⟩ := records_expr object
    obtain ⟨vs, hvu, hv⟩ := records_expr value
    refine ⟨_ :: (os ++ vs), .node rfl (hou.append hvu), ho.under fun t => hv.below fun v =>
      .first (.quiet (quiet_setAttribute ..)) fun _ => ?_⟩
    exact records_record (.expr (.set id object name value)) rfl _
  | .lambda ⟨id, keyword, name, params, body⟩ => by
    obtain ⟨ps, hpu, hp⟩ := records_paramTypes params
    obtain ⟨bs, hbu, hb⟩ := records_stmts body
    refine ⟨_ :: (ps ++ bs), .node rfl (hpu.append hbu), hp.under fun types =>
      .first (.quiet (quiet_newSignature _)) fun f => .getBind fun s =>
        (records_functionBody id params f _ hb).below fun _ => ?_⟩
    exact records_record (.expr (.lambda ⟨id, keyword, name, params, body⟩)) rfl _

/-- So do those of expressions in a row. -/
theorem records_exprs :
    ∀ es : List Expr, ∃ rs, Unheld (Expr.nodesOf everywhere es) rs ∧ Records rs (exprs es)
  | [] => ⟨[], .nil, .pure _⟩
  | e :: rest => by
    obtain ⟨es, heu, he⟩ := records_expr e
    obtain ⟨rs, hru, hr⟩ := records_exprs rest
    exact ⟨es ++ rs, heu.append hru, he.bind fun t => hr.last fun _ => .pure _⟩

/-- So do those of named arguments. -/
theorem records_namedArgs :
    ∀ args : List NamedArg, ∃ rs, Unheld (NamedArg.nodesOf everywhere args) rs ∧
      Records rs (namedArgs args)
  | [] => ⟨[], .nil, .pure _⟩
  | ⟨name, value⟩ :: rest => by
    obtain ⟨vs, hvu, hv⟩ := records_expr value
    obtain ⟨rs, hru, hr⟩ := records_namedArgs rest
    exact ⟨vs ++ rs, hvu.append hru, hv.bind fun t => hr.last fun _ => .pure _⟩

/-- So do those of the defaults of parameters. -/
theorem records_paramTypes :
    ∀ params : List Param, ∃ rs, Unheld (Param.nodesOf everywhere params) rs ∧
      Records rs (paramTypes params)
  | [] => ⟨[], .nil, .pure _⟩
  | ⟨type, name, none, variadic⟩ :: rest => by
    obtain ⟨rs, hu, hr⟩ := records_paramTypes rest
    exact ⟨rs, hu, .first (.quiet (quiet_declaredType type)) fun t => hr.last fun _ => .pure _⟩
  | ⟨type, name, some value, variadic⟩ :: rest => by
    obtain ⟨vs, hvu, hv⟩ := records_expr value
    obtain ⟨rs, hru, hr⟩ := records_paramTypes rest
    have hrest : ∀ t : Ty, Records rs (do return t :: (← paramTypes rest)) := fun t =>
      hr.last fun _ => .pure _
    refine ⟨vs ++ rs, hvu.append hru, .first (.quiet (quiet_declaredType type)) fun t =>
      hv.bind fun d => .first (.quiet (quiet_answer _)) fun fits => .ite (hrest t) ?_⟩
    exact .first (.quiet (quiet_text t)) fun _ => .first (.quiet (quiet_text d)) fun _ =>
      .first (.throw _) fun _ => hrest t

/-- The methods of a class are declared first, and their bodies are checked in two runs. -/
theorem records_methods :
    ∀ methods : List Lambda, ∃ rs ds is os, Unheld (Lambda.nodesOf everywhere methods) rs ∧
      (∀ n, n ∈ rs ↔ n ∈ ds ++ (is ++ os)) ∧ ∀ c, Records ds (declareMethods c methods) ∧
        Records is (initializerBodies c methods) ∧ Records os (otherBodies c methods)
  | [] => ⟨[], [], [], [], .nil, fun _ => Iff.rfl, fun _ => ⟨.pure _, .pure _, .pure _⟩⟩
  | ⟨id, keyword, name, params, body⟩ :: rest => by
    obtain ⟨ps, hpu, hp⟩ := records_paramTypes params
    obtain ⟨bs, hbu, hb⟩ := records_stmts body
    obtain ⟨rs, ds, is, os, hru, hmem, hr⟩ := records_methods rest
    let fn : Lambda := ⟨id, keyword, name, params, body⟩
    have hwalk := (Unheld.node (n := .expr (.lambda fn)) rfl (hpu.append hbu)).append hru
    have hdeclare : ∀ c,
        Records (.expr (.lambda fn) :: (ps ++ ds)) (declareMethods c (fn :: rest)) := by
      refine fun c => hp.under fun types => .first (.quiet (quiet_newSignature _)) fun f =>
        .first (records_putMember ..) fun _ => ?_
      exact (records_record (.expr (.lambda fn)) rfl _).bind fun _ => (hr c).1
    -- A body is looked up by its name; without a function of that name there is no run.
    have hbody : ∀ c, Records bs (methodBody c fn) := by
      refine fun c => .getBind fun s => ?_
      cases (s.body c).members[(name.map Token.lexeme).getD "lambda"]? with
      | none => exact .throw _
      | some f => exact records_functionBody id params f _ hb
    -- The body belongs to the first run or to the second, by the name of the method.
    by_cases hinit : fn.title = "init"
    · refine ⟨_, _, is ++ bs, os, hwalk, fun n => ?_, fun c => ⟨hdeclare c, ?_, ?_⟩⟩
      · simp only [List.mem_append, List.mem_cons, hmem n]
        tauto
      · refine (hr c).2.1.bind fun _ => ?_
        rw [if_pos hinit]
        exact hbody c
      · unfold otherBodies
        rw [if_neg (not_not.2 hinit)]
        exact (hr c).2.2
    · refine ⟨_, _, is, bs ++ os, hwalk, fun n => ?_, fun c => ⟨hdeclare c, ?_, ?_⟩⟩
      · simp only [List.mem_append, List.mem_cons, hmem n]
        tauto
      · refine (hr c).2.1.last fun _ => ?_
        rw [if_neg hinit]
        exact .pure _
      · unfold otherBodies
        rw [if_pos hinit]
        exact (hbody c).bind fun _ => (hr c).2.2

/-- So do those of a block. -/
theorem records_block : ∀ b : Block, ∃ rs, Unheld (b.nodes everywhere) rs ∧ Records rs (block b)
  | ⟨id, brace, body⟩ => by
    obtain ⟨rs, hu, hr⟩ := records_stmts body
    refine ⟨_ :: rs, .node rfl hu, ?_⟩
    exact (records_record (.stmt (.block ⟨id, brace, body⟩)) rfl _).bind fun _ => hr.inScope _

/-- So do those of a statement. -/
theorem records_stmt : ∀ s : Stmt, ∃ rs, Unheld (s.nodes everywhere) rs ∧ Records rs (stmt s)
  | .expr id value => by
    obtain ⟨rs, hu, hr⟩ := records_expr value
    refine ⟨_ :: rs, .node rfl hu, hr.below fun t => ?_⟩
    exact (records_record (.stmt (.expr id value)) rfl t).last fun _ => .pure _
  | .varDecl id name none => by
    refine ⟨[_], .node rfl .nil, .first (records_define ..) fun _ => ?_⟩
    exact (records_record (.stmt (.varDecl id name none)) rfl _).last fun _ => .pure _
  | .varDecl id name (some value) => by
    obtain ⟨rs, hu, hr⟩ := records_expr value
    refine ⟨_ :: rs, .node rfl hu, hr.below fun t => .first (records_define ..) fun _ => ?_⟩
    exact (records_record (.stmt (.varDecl id name (some value))) rfl t).last fun _ => .pure _
  | .function id ⟨fid, keyword, name, params, body⟩ => by
    obtain ⟨ps, hpu, hp⟩ := records_paramTypes params
    obtain ⟨bs, hbu, hb⟩ := records_stmts body
    refine ⟨_ :: (ps ++ bs), .function id _ (hpu.append hbu), hp.under fun types => ?_⟩
    exact records_function id ⟨fid, keyword, name, params, body⟩ types fun f => .getBind fun s =>
      records_functionBody fid params f _ hb
  | .classDecl id name supers methods => by
    obtain ⟨ss, hsu, hs⟩ := records_superclasses supers
    obtain ⟨rs, ds, is, os, hru, hmem, hr⟩ := records_methods methods
    -- The three runs give types to all of the methods together.
    have hmethods : ∀ c, Records rs (do
        declareMethods c methods
        initializerBodies c methods
        otherBodies c methods) := fun c =>
      ((hr c).1.bind fun _ => (hr c).2.1.bind fun _ => (hr c).2.2).of_mem_iff hmem
    refine ⟨_ :: (ss ++ rs), .node rfl (hsu.append hru), hs.under fun cs =>
      .first (records_newClass ..) fun c => .first (records_define ..) fun _ => ?_⟩
    exact (records_record (.stmt (.classDecl id name supers methods)) rfl _).bind fun _ =>
      (hmethods c).inScope _
  | .block b => records_block b
  | .ifElse id keyword condition body none => by
    obtain ⟨cs, hcu, hc⟩ := records_expr condition
    obtain ⟨bs, hbu, hb⟩ := records_block body
    refine ⟨_ :: (cs ++ bs), .node rfl (hcu.append hbu), ?_⟩
    exact (records_record (.stmt (.ifElse id keyword condition body none)) rfl _).bind fun _ =>
      hc.bind fun _ => hb
  | .ifElse id keyword condition body (some otherwise) => by
    obtain ⟨cs, hcu, hc⟩ := records_expr condition
    obtain ⟨bs, hbu, hb⟩ := records_block body
    obtain ⟨os, hou, ho⟩ := records_stmt otherwise
    refine ⟨_ :: (cs ++ (bs ++ os)), .node rfl ?_, ?_⟩
    · rw [← List.append_assoc]
      exact (hcu.append hbu).append hou
    · exact (records_record (.stmt (.ifElse id keyword condition body (some otherwise)))
        rfl _).bind fun _ => hc.bind fun _ => hb.bind fun _ => ho
  | .whileLoop id keyword condition body => by
    obtain ⟨cs, hcu, hc⟩ := records_expr condition
    obtain ⟨bs, hbu, hb⟩ := records_block body
    refine ⟨_ :: (cs ++ bs), .node rfl (hcu.append hbu), ?_⟩
    exact (records_record (.stmt (.whileLoop id keyword condition body)) rfl _).bind fun _ =>
      hc.bind fun _ => hb
  | .forIn id keyword name iterable body => by
    obtain ⟨is, hiu, hi⟩ := records_expr iterable
    obtain ⟨bs, hbu, hb⟩ := records_block body
    refine ⟨_ :: (is ++ bs), .node rfl (hiu.append hbu), ?_⟩
    exact (records_record (.stmt (.forIn id keyword name iterable body)) rfl _).bind fun _ =>
      hi.bind fun t => .first (.quiet (quiet_elementType ..)) fun e => hb.inScope _
  | .ret id keyword none => by
    refine ⟨[_], .node rfl .nil, ?_⟩
    exact (records_record (.stmt (.ret id keyword none)) rfl _).last fun t =>
      .quiet (quiet_noteReturn ..)
  | .ret id keyword (some value) => by
    obtain ⟨rs, hu, hr⟩ := records_expr value
    refine ⟨_ :: rs, .node rfl hu, hr.below fun t => ?_⟩
    exact (records_record (.stmt (.ret id keyword (some value))) rfl t).last fun _ =>
      .quiet (quiet_noteReturn ..)

/-- So do those of statements in a row. -/
theorem records_stmts :
    ∀ body : List Stmt, ∃ rs, Unheld (Stmt.nodesOf everywhere body) rs ∧ Records rs (stmts body)
  | [] => ⟨[], .nil, .pure _⟩
  | s :: rest => by
    obtain ⟨ss, hsu, hs⟩ := records_stmt s
    obtain ⟨rs, hru, hr⟩ := records_stmts rest
    exact ⟨ss ++ rs, hsu.append hru, hs.bind fun _ => hr⟩

end

end Check

/-- Whether a verdict accepts a program. -/
def Verdict.accepts : Verdict → Bool
  | .accepted => true
  | _ => false

/-- A verdict that accepts a program is the one that does. -/
theorem Verdict.eq_of_accepts {v : Verdict} (h : v.accepts = true) : v = .accepted := by
  cases v with
  | accepted => rfl
  | _ => cases h

namespace Checker

/-- Every node of an accepted program has a type, the functions of statements apart: the type of
such a function belongs to the statement, and the node of the function gets none if all nodes have
identities of their own. -/
theorem typed_of_accepted {s s' : Checker} {program : List Stmt}
    (h : s.check program = (.accepted, s')) :
    (∀ n ∈ allNodes program,
      (∃ t, s'.types[n.id]? = some t) ∨ n.HeldIn (allNodes program)) ∧
    ({n | n ∈ allNodes program}.InjOn Node.id →
      ∀ id fn, .stmt (.function id fn) ∈ allNodes program →
        ∃ f, s'.types[id]? = some (.function f) ∧ s'.Signs f fn.title fn.params) ∧
    (((allNodes program).map Node.id).Nodup →
      ∀ id fn, .stmt (.function id fn) ∈ allNodes program →
        s'.types[fn.id]? = s.types[fn.id]?) := by
  obtain ⟨rs, hwalk, hrecords⟩ := Check.records_stmts program
  -- Only a run without an error is accepted.
  have hrun : Check.stmts program s.idle = .ok () s' := by
    unfold check at h
    cases hr : Check.stmts program s.idle with
    | ok _ s₁ =>
      rw [hr] at h
      cases h
      rfl
    | error e s₁ =>
      rw [hr] at h
      cases e <;> cases h
  have hr : Records rs s.idle s' := hrecords.ok hrun
  refine ⟨fun n hn => ?_, fun hids id fn hf => ?_, fun hids id fn hf => ?_⟩
  · refine (hwalk.mem_or_heldIn hn).imp_left fun hmem => ?_
    obtain ⟨_, _, _, t, ht, _⟩ := hr.given n hmem
    exact ⟨t, ht⟩
  · -- The statement is the only node with its identity, so the type is that of its function.
    obtain ⟨m, hm, hid, t, ht, hsuits⟩ := hr.given _ (hwalk.statement_mem hf)
    cases hids (hwalk.mem_of_mem hm) hf hid
    obtain ⟨f, rfl, hsigned⟩ := hsuits id fn rfl
    exact ⟨f, ht, hsigned⟩
  · exact hr.others fn.id fun n hn => hwalk.id_ne hids hf hn

/-- A program with a function, a default, a method, an argument by name and both branches of a
conditional. The type of the function belongs to its statement. -/
theorem typed_of_accepted_default :
    let s := ofMachine .initial
    let program := (Parse.source ("fun f(a = 1) \x7b return a; \x7d " ++
      "class A \x7b m() \x7b return f(a: 2); \x7d \x7d " ++
      "if true \x7b\x7d else \x7b f(); \x7d") 0).program
    let s' := (s.check program).2
    s.check program = (.accepted, s') ∧
    (∀ n ∈ allNodes program, (∃ t, s'.types[n.id]? = some t) ∨ n.HeldIn (allNodes program)) ∧
    ∃ id fn, .stmt (.function id fn) ∈ allNodes program ∧ s'.types[fn.id]? = none ∧
      ∃ f, s'.types[id]? = some (.function f) ∧ s'.Signs f fn.title fn.params := by
  intro s program s'
  obtain ⟨haccepts, hfunction⟩ :
      (s.check program).1.accepts = true ∧ ∃ n ∈ allNodes program, n.isFunction = true := by
    decide +kernel
  have hcheck : s.check program = (.accepted, s') :=
    Prod.ext (Verdict.eq_of_accepts haccepts) rfl
  obtain ⟨n, hn, hisFunction⟩ := hfunction
  obtain ⟨id, fn, rfl⟩ := Node.eq_of_isFunction hisFunction
  have hids : ((allNodes program).map Node.id).Nodup := (Parse.formed_source _ _).nodup
  obtain ⟨htyped, hstatement, hlambda⟩ := typed_of_accepted hcheck
  -- The new checker has given no node a type.
  have huntyped : s.types[fn.id]? = none := rfl
  have hinj := List.inj_on_of_nodup_map hids
  exact ⟨hcheck, htyped, id, fn, hn, (hlambda hids id fn hn).trans huntyped,
    hstatement (fun m hm n hn => hinj hm hn) id fn hn⟩

end Checker

end Typing

end ClassScript
