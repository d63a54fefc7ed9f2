import ClassScript.Proofs.Machine.Execution

/-!
# Watched execution

A watched engine looks at every expression that it evaluates. If the expression is the use of a
name and the machine does not find the scope that the resolver counted to, the engine does
something else instead, whatever that is. On a sound machine watching changes nothing.
-/

namespace ClassScript

open Scope
open Exec (Tracks Gives Passes)

/-! ### Watched engines -/

/-- What has to be the case when an expression was evaluated on a machine with some outcome. A use
of a name with a distance arrives at the scope that was recorded for it. There a variable can only
be missing if it was not declared yet, an assignment takes place, and receivers and superclasses
are found in any case. -/
def Upheld (targets : Targets) (m : Machine) (r : EStateM.Result Interrupt Machine Value) :
    Expr → Prop
  | .var use => ∀ d, m.distances[use.id]? = some d → ∃ j, m.LeadsTo targets use.id d j ∧
    ∀ e m', r = .error e m' → (j, use.name.lexeme) ∉ m.store.declared
  | .assign id name _ => ∀ d, m.distances[id]? = some d → ∃ j, m.LeadsTo targets id d j ∧
    ∀ v m', r = .ok v m' → (m'.store.environments.bindings j)[name.lexeme]? = some v
  | .self id _ => ∃ d j, m.distances[id]? = some d ∧ m.LeadsTo targets id d j ∧
    ∃ v, r = .ok v m
  | .super id keyword _ => ∃ d j, m.distances[id]? = some d ∧ m.LeadsTo targets id d j ∧
    ∀ m', r ≠ .error (.located ⟨keyword, .superHere⟩) m'
  | _ => True

open Classical in
/-- The machine's execution with an alarm for expressions that do not uphold what they have to. -/
noncomputable def watched (targets : Targets) (alarm : Expr → Exec Value) : Nat → Engine
  | 0 => engine 0
  | levels + 1 =>
    { fuel := levels
      evaluate := fun e m =>
        let r := (watched targets alarm levels).evaluateWith e m
        if Upheld targets m r e then r else alarm e m
      execute := fun s => (watched targets alarm levels).executeWith s
      invoke := fun site callee positional named =>
        (watched targets alarm levels).invokeWith site callee positional named }

section Agreement

variable {L : Ledger} {m : Machine} {eng eng' : Engine} {scopes : List Region}

/-- On a sound machine every expression upholds what it has to. -/
theorem upheld_evaluateWith (h : Engine.Agree L eng eng') (hm : m.Sound L) (e : Expr)
    (hs : m.Stands scopes) (he : L.Settled (e.uses scopes) (e.nodes everywhere)) :
    Upheld L.tables.targets m (eng.evaluateWith e m) e := by
  cases e with
  | var use =>
    intro d hd
    have hu : L.Settles (use.use scopes) := he.uses _ List.mem_cons_self
    obtain ⟨-, j, hj, -⟩ := hm.leads (u := use.use scopes) hs hu hd
    refine ⟨j, hj, fun e m' hr hdeclared => ?_⟩
    -- A declared name is bound, and a bound name is found.
    obtain ⟨v, hv⟩ := (Environments.binds_iff ..).1 (hm.store.declared _ hdeclared)
    dsimp only [Engine.evaluateWith] at hr
    rw [lookUpVariable_apply _ _ hd hj.ancestor, hv] at hr
    cases hr
  | assign id name value =>
    intro d hd
    have hu : L.Settles ⟨.write, id, name.lexeme, scopes⟩ := he.uses _ (by simp [Expr.uses])
    have hvalue := he.below.mono (List.subset_append_left ..) (List.Subset.refl _)
    obtain ⟨-, j, hj, -⟩ := hm.leads (u := ⟨.write, id, name.lexeme, scopes⟩) hs hu hd
    refine ⟨j, hj, fun v m' hr => ?_⟩
    exact ((Engine.tracks_assign h hs hvalue he.proper).ok hm hr).2.2.2 d j hd hj.ancestor
  | self id keyword =>
    have hu : L.Settles ⟨.self, id, "self", scopes⟩ := he.uses _ List.mem_cons_self
    obtain ⟨d, hd⟩ := hm.known hu (.inl rfl)
    obtain ⟨hidx, j, hj, hbound⟩ := hm.leads (u := ⟨.self, id, "self", scopes⟩) hs hu hd
    obtain ⟨r, _, hr, -, hself⟩ := hs.orderly.self_found hidx
    obtain ⟨v, hv⟩ := (Environments.binds_iff ..).1 (hbound r hr "self" hself)
    refine ⟨d, j, hd, hj, v, ?_⟩
    dsimp only [Engine.evaluateWith]
    rw [lookUpVariable_apply _ _ hd hj.ancestor, hv]
  | super id keyword method =>
    have hu : L.Settles ⟨.super, id, "super", scopes⟩ := he.uses _ List.mem_cons_self
    obtain ⟨d, j, supers, self, hd, hj, hsupers, hself⟩ :=
      hm.superclasses (u := ⟨.super, id, "super", scopes⟩) hs hu rfl rfl
    exact ⟨d, j, hd, hj, evaluateSuper_ne_superHere keyword method hd hsupers hself⟩
  | _ => trivial

/-- Watching an engine changes nothing on a sound machine. -/
theorem agree_watched (L : Ledger) (alarm : Expr → Exec Value) (levels : Nat) :
    Engine.Agree L (engine levels) (watched L.tables.targets alarm levels) := by
  induction levels with
  | zero =>
    exact ⟨rfl, fun _ _ _ => .throw _, fun _ _ _ => .throw _, fun {_} _ {_ _ _} _ _ _ => .throw _⟩
  | succ levels ih =>
    refine ⟨rfl, fun {m scopes} e hs he => ?_, fun s hs hst => ?_, fun {_} site {_ _ _} hc hp hn => ?_⟩
    · have h := Engine.gives_evaluateWith ih e hs he
      -- The alarm is not raised, since on a sound machine everything watched for is upheld.
      refine { h with same := fun hm => ?_ }
      have hsame := h.same hm
      have hupheld := upheld_evaluateWith ih hm e hs he
      dsimp only [watched, engine]
      rw [hsame, if_pos hupheld]
    · exact Engine.tracks_executeWith ih s hs hst
    · exact Engine.gives_invokeWith ih site hc hp hn

/-- A whole program on a sound machine: two engines that agree do the same, and the machine is
sound again when the program is over. -/
theorem Machine.Sound.interpretBy (h : Engine.Agree L eng eng') {program : List Stmt}
    (hm : m.Sound L) (hscope : m.scope = globalScope)
    (hp : L.Settled (Stmt.usesOf [] program) (Stmt.nodesOf everywhere program)) :
    m.interpretBy eng' program = m.interpretBy eng program ∧
      (m.interpretBy eng program).2.Sound L := by
  induction program generalizing m with
  | nil => exact ⟨rfl, hm⟩
  | cons s rest ih =>
    obtain ⟨hfirst, hrest⟩ := Ledger.Settled.append.1 hp
    have hs : m.Stands [] := ⟨⟨hscope, hm.store.globals⟩, .nil⟩
    have hstep := h.execute s hs hfirst
    have hafter : s.after [] = [] := Stmt.after_nil s
    unfold Machine.interpretBy
    rw [hstep.same hm]
    cases hr : eng.execute s m with
    | ok c m' =>
      -- Globals are declared in no scope, so the machine stands at the same place for the next
      -- statement.
      obtain ⟨hl, hm', -⟩ := hstep.ok hm hr
      exact ih hm' (hl.scope.trans hscope) (hafter ▸ hrest)
    | error e m' =>
      -- An error ends the program in the outermost scope.
      obtain ⟨-, hm'⟩ := hstep.error hm hr
      have hidle : m'.idle.Sound L := ⟨hm'.store, hm'.distances⟩
      refine ⟨rfl, ?_⟩
      dsimp only
      split <;> exact hidle

end Agreement

end ClassScript
