import ClassScript.Proofs.Machine.Grounded
import ClassScript.Proofs.Typing.Grounded

/-!
# Class graphs and scope chains are well-founded

Names of classes can be bound again and again, also to a class whose superclass has the same name,
and scopes are kept by functions long after they were left. Still no class ever gets above itself,
neither on a machine nor in the state of a checker, and every scope leads outward to the outermost
one. So no search through superclasses or scopes goes on for ever.
-/

namespace ClassScript

/-- Whatever programs and calls led to a machine, and whatever programs a checker was given,
accepted or not, the machine and the checker are grounded: superclasses have no cycle, scopes lead
to the outermost one, and every search ends. A machine is grounded also at every expression,
statement and call of a further program or call: guards around all of them change nothing, whatever
their alarm is. And a checker is so where the check of a further program stops, before anything is
put back. -/
theorem graphs_well_founded {m : Machine} {held : List Value} {s : Typing.Checker}
    (hm : m.Reached held) (hs : s.Reachable) :
    m.Grounded held ∧
    (∀ (alarm : Interrupt) (distances : Scope.Distances) (fuel : Nat) (program : List Stmt),
      (m.addDistances distances).interpretBy (supervised alarm fuel) program =
        (m.addDistances distances).interpret fuel program) ∧
    (∀ (alarm : Interrupt) (fuel : Nat), ∀ callee ∈ held, ∀ args ⊆ held,
      m.ask ((supervised alarm fuel).invoke m.site callee args []) = m.call fuel callee args) ∧
    s.Grounded ∧
    ∀ program, ((Typing.Check.stmts program).final s.idle).Grounded := by
  obtain ⟨hfounded, hheld⟩ := hm.founded
  obtain ⟨hgrounded, hfinal⟩ := hs.grounded
  refine ⟨hfounded.grounded hheld, fun alarm distances fuel program => ?_,
    fun alarm fuel callee hc args ha => ?_, hgrounded, hfinal⟩
  · -- Guarded and unguarded steps agree in a grounded machine.
    have hready := (hm.run distances 0 []).founded.1
    exact (hready.interpretBy (founds_supervised alarm fuel) program).1
  · have hcall := (founds_supervised alarm fuel).invoke m.site (hheld callee hc)
      (fun v hv => hheld v (ha hv)) (List.forall_mem_nil _)
    unfold Machine.call Machine.ask
    rw [hcall.eq rfl hfounded]

/-- The class that a value is, if it is one. -/
def Value.class? : Value → Option Class
  | .class c => some c
  | _ => none

/-- A class that is declared again with itself as the superclass: the two have different
identities. -/
theorem graphs_well_founded_redeclared : ∃ (m : Machine) (c : Class) (s : Typing.Checker),
    m.Reached [.class c] ∧ s.Reachable ∧ c.id = 1 ∧ c.supers.map Class.id = [0] ∧
      m.Grounded [.class c] ∧ s.Grounded := by
  -- The class that is left on the machine, with its identity and that of its superclass.
  have hids : ((((Machine.initial.addDistances ∅).interpret 20
      (Parse.source "class A \x7b\x7d class A < A \x7b\x7d" 0).program).2.global? "A").bind
        Value.class?).map (fun c => (c.id, c.supers.map Class.id)) = some (1, [0]) := by
    decide +kernel
  obtain ⟨c, hc, hpair⟩ := Option.map_eq_some_iff.1 hids
  obtain ⟨v, hv, hvc⟩ := Option.bind_eq_some_iff.1 hc
  have hclass : v = .class c := by
    cases v <;> cases hvc
    rfl
  have hm := (Machine.Reached.initial.run ∅ 20
    (Parse.source "class A \x7b\x7d class A < A \x7b\x7d" 0).program).read (hclass ▸ hv)
  have hs := (Typing.Checker.Reachable.seeded []).checked
    (Parse.source "class A \x7b\x7d class A < A \x7b\x7d" 0).program
  have hgraphs := graphs_well_founded hm hs
  exact ⟨_, c, _, hm, hs, congrArg Prod.fst hpair, congrArg Prod.snd hpair, hgraphs.1,
    hgraphs.2.2.2.1⟩

end ClassScript
