import ClassScript.Proofs.Machine.Agreement

/-!
# Soundness of calls

A call of a sound function binds the parameters one after the other in a new scope. The scope lies
inside the one that the function keeps, so that it stands for the function's body as soon as all
parameters are bound.
-/

namespace ClassScript

open Scope
open Exec (Tracks)

variable {L : Ledger} {m : Machine}

/-! ### Calls -/

/-- The default of a parameter is resolved as part of the function. -/
theorem Ledger.Settled.default {outer : List Region} {params : List Param}
    (h : L.Settled (Param.usesOf outer params) (Param.nodesOf everywhere params)) {p : Param}
    (hp : p ∈ params) {e : Expr} (he : p.defaultValue = some e) :
    L.Settled (e.uses outer) (e.nodes everywhere) := by
  induction params with
  | nil => cases hp
  | cons q rest ih =>
    obtain ⟨type, name, value, variadic⟩ := q
    -- A parameter without a default has no uses, so the others are settled as they are.
    cases value with
    | none =>
      rcases List.mem_cons.1 hp with rfl | hp
      · cases he
      · exact ih h hp
    | some e' =>
      -- The uses of this default come in front of those of the others.
      obtain ⟨hfirst, hrest⟩ := Settled.append.1 h
      rcases List.mem_cons.1 hp with rfl | hp
      · cases he
        exact hfirst
      · exact ih hrest hp

/-- The parts of a function: its defaults, its body, and the names of its parameters. -/
theorem Ledger.Settled.lambda {outer scopes : List Region} {fn : Lambda}
    (h : L.Settled (fn.uses outer scopes) (fn.nodes everywhere)) :
    L.Settled (Param.usesOf outer fn.params) (Param.nodesOf everywhere fn.params) ∧
      L.Settled (Stmt.usesOf (.call fn.id fn.params :: scopes) fn.body)
        (Stmt.nodesOf everywhere fn.body) ∧
      ∀ p ∈ fn.params, p.name.IsName := by
  obtain ⟨id, keyword, name, params, body⟩ := fn
  obtain ⟨hd, hb⟩ := Settled.append.1 h.below
  exact ⟨hd, hb, h.proper⟩

/-- A call on its way: the function is sound, the new scope lies inside the one that the function
keeps, and of the parameters only some are still to be bound. -/
structure Machine.Binding (L : Ledger) (m : Machine) (fn : Closure) (scope : ScopeId)
    (slots : List (Param × Slot Value)) (outer scopes : List Region) : Prop where
  /-- The function is sound. -/
  sound : fn.SoundAt L m.store.environments outer scopes
  /-- The new scope lies inside the one that the function keeps. -/
  chain : m.store.environments.Chain scope (⟨.call fn.declaration.id, [], []⟩ :: scopes)
  /-- The names that are left are those of parameters. -/
  params : ∀ a ∈ slots, a.1 ∈ fn.declaration.params
  /-- The other parameters are bound. -/
  bound : ∀ p ∈ fn.declaration.params, p ∈ slots.map Prod.fst ∨
    m.store.environments.binds scope p.name.lexeme = true

namespace Machine.Binding

variable {m' : Machine} {fn : Closure} {scope : ScopeId} {p : Param} {slot : Slot Value}
  {slots : List (Param × Slot Value)} {outer scopes : List Region}

/-- A call on its way stays so on a later machine. -/
theorem later (hl : m.Later m') (h : m.Binding L fn scope slots outer scopes) :
    m'.Binding L fn scope slots outer scopes where
  sound := ⟨h.sound.atDefaults.grows hl.environments, h.sound.atBody.grows hl.environments,
    h.sound.settled⟩
  chain := h.chain.grows hl.environments
  params := h.params
  bound p hp := (h.bound p hp).imp_right (hl.environments.binds _ _)

/-- All parameters are left when the scope of the call is new. -/
theorem start (hfn : fn.SoundAt L m.store.environments outer scopes) {slots : List (Slot Value)}
    (hlen : slots.length = fn.declaration.params.length) (hl : m.Later m')
    (he : m'.store.environments =
      m.store.environments.push (.call fn.declaration.id) (some fn.scope)) :
    m'.Binding L fn m.store.environments.table.size (fn.declaration.params.zip slots) outer
      scopes where
  sound := ⟨hfn.atDefaults.grows hl.environments, hfn.atBody.grows hl.environments, hfn.settled⟩
  chain := he ▸ hfn.atBody.chain.push (.call fn.declaration.id)
  params a ha := (List.of_mem_zip ha).1
  bound p hp := by
    rw [List.map_fst_zip (Nat.le_of_eq hlen.symm)]
    exact .inl hp

/-- The default of a parameter is in place in the scope that the function keeps. -/
theorem default (h : m.Binding L fn scope ((p, slot) :: slots) outer scopes) {e : Expr}
    (he : p.defaultValue = some e) :
    m.store.environments.Stands fn.scope outer ∧ L.Settled (e.uses outer) (e.nodes everywhere) :=
  ⟨h.sound.atDefaults, h.sound.settled.lambda.1.default (h.params _ List.mem_cons_self) he⟩

/-- Binding a parameter leaves the others to be bound. -/
theorem bind (h : m.Binding L fn scope ((p, slot) :: slots) outer scopes) {v : Value}
    (hv : m.Holds L v) :
    Tracks L m (Exec.define scope p.name.lexeme v) (Exec.define scope p.name.lexeme v)
      fun _ m' => m'.Binding L fn scope slots outer scopes := by
  have hname := h.sound.settled.lambda.2.2 p (h.params _ List.mem_cons_self)
  refine (Exec.tracks_define h.chain.lt_size hv fun e => absurd e hname.ne_super).mono
    fun _ m' hl _ hbound => ?_
  refine { h.later hl with
    params := fun a ha => h.params a (List.mem_cons_of_mem _ ha), bound := fun q hq => ?_ }
  rcases (h.later hl).bound q hq with hleft | hdone
  · rcases List.mem_cons.1 hleft with rfl | hleft
    · exact .inr hbound
    · exact .inl hleft
  · exact .inr hdone

/-- The new scope stands for the body when all parameters are bound. -/
theorem stands (h : m.Binding L fn scope [] outer scopes) :
    m.store.environments.Stands scope
      (.call fn.declaration.id fn.declaration.params :: scopes) := by
  refine ⟨h.chain.region rfl fun name hname => ?_,
    h.sound.atBody.orderly.call _ h.sound.settled.lambda.2.2⟩
  obtain ⟨p, hp, rfl⟩ := List.mem_map.1 hname
  exact (h.bound p hp).resolve_left List.not_mem_nil

end Machine.Binding

end ClassScript
