import ClassScript.Proofs.Machine.History
import ClassScript.Proofs.Scope.Distinct
import ClassScript.Proofs.Typing.Follows
import ClassScript.Session

/-!
# The resolver and the checker on names

Both passes go through the uses of a program with the same scopes. The resolver stops at the first
scope that knows a name, even if its declaration is only pending; the checker stops at the first
scope in which the declaration is over. They agree on every use outside of the declaration of its
own name, and on no other one.
-/

namespace ClassScript

open Scope

namespace Scope.Use

variable {u : Use} {r : Region}

/-- A use inside the declaration of its own name: in the initial value of a variable, the defaults
of a function or the superclasses of a class, where the scope has no earlier declaration. -/
def Pending (u : Use) : Prop := ∃ r, u.region? = some r ∧ u.name ∉ r.declared

/-- Where no scope knows a name, none declares it. -/
theorem declarer?_eq_none (h : u.region? = none) : u.declarer? = none := by
  unfold region? at h
  unfold declarer?
  rw [List.find?_eq_none] at h ⊢
  intro r hr hdeclared
  refine h r hr ?_
  unfold Region.knows
  rw [hdeclared, Bool.true_or]

/-- Where the first scope that knows a name declares it, it is the first one that does. -/
theorem declarer?_eq_some (h : u.region? = some r) (hd : u.name ∈ r.declared) :
    u.declarer? = some r := by
  unfold region? at h
  unfold declarer?
  rw [List.find?_eq_some_iff_append] at h ⊢
  obtain ⟨-, before, behind, hscopes, hbefore⟩ := h
  refine ⟨List.contains_iff_mem.2 hd, before, behind, hscopes, fun r' hr' => ?_⟩
  have hunknown := hbefore r' hr'
  unfold Region.knows at hunknown
  rw [Bool.not_eq_true', Bool.or_eq_false_iff] at hunknown
  rw [hunknown.1, Bool.not_false]

/-- The first scope that knows a name is one of those around the use. -/
theorem mem_of_region? (h : u.region? = some r) : r ∈ u.scopes := List.mem_of_find?_eq_some h

end Scope.Use

namespace Typing

/-- What is noted of a use is the scope that the resolver counted to, unless the name is
pending. -/
theorem Noted.eq_iff {u : Use} {o : Option Origin} (h : Noted u o)
    (hdistinct : (origins u.scopes).Nodup ∧ .globals ∉ origins u.scopes) {r : Region}
    (hr : u.region? = some r) : o = some r.origin ↔ ¬u.Pending := by
  have hmem := Use.mem_of_region? hr
  unfold Noted at h
  constructor
  · rintro ho ⟨r', hr', hpending⟩
    rw [hr] at hr'
    cases hr'
    -- The scope of the note would be another scope of the same syntax, or the outermost one.
    split at h
    · next r' hfound =>
      have hdeclared : u.name ∈ r'.declared := by
        unfold Scope.Use.declarer? at hfound
        simpa using List.find?_some hfound
      have horigin : r'.origin = r.origin := Option.some.inj (h.symm.trans ho)
      have hsame : r' = r :=
        List.inj_on_of_nodup_map hdistinct.1 (List.mem_of_find?_eq_some hfound) hmem horigin
      exact hpending (hsame ▸ hdeclared)
    · have hglobals : r.origin ≠ .globals := fun e =>
        hdistinct.2 (e ▸ List.mem_map_of_mem hmem)
      rcases h with h | h
      · exact hglobals (Option.some.inj (ho.symm.trans h))
      · cases ho.symm.trans h
  · intro hpending
    have hdeclared : u.name ∈ r.declared := by
      by_contra hd
      exact hpending ⟨r, hr, hd⟩
    rw [Use.declarer?_eq_some hr hdeclared] at h
    exact h

/-- A check of a program from its start notes the uses of the program. -/
theorem notes_check {program : List Stmt}
    (hp : ∀ n ∈ Stmt.nodesOf everywhere program, n.Proper) (s : Checker) :
    Notes (Stmt.usesOf [] program) s (s.check program).2 := by
  have hfollows := Check.follows_stmts [] program hp
  unfold Checker.check
  cases hr : Check.stmts program s.idle with
  | ok a s' => exact (hfollows.ok (s := s.idle) .nil hr).2
  | error e s' =>
    have hnotes := hfollows.error (s := s.idle) .nil hr
    cases e <;> exact hnotes

end Typing

open Typing in
/-- The resolver and the checker bind names to the same declarations, except inside of them. After
any history, when a source is resolved without anything wrong, then for every variable that the
checker reaches, read or given a value: if the resolver recorded a distance, the checker found the
name in the scope that the distance denotes exactly if the use does not lie in the declaration of
its own name; and if it recorded none, the checker found a global name or none. -/
theorem checker_finds_resolved_scope {n : NodeId} {r r' : Resolver} {m : Machine}
    (h : History n r m) (source : String)
    (hr : r.run (Parse.source source n).program = ([], r')) (s : Checker) (id : NodeId)
    (o : Option Origin)
    (ho : ({ s with found := ∅ }.check (Parse.source source n).program).2.found[id]? = some o) :
    ∃ u ∈ Stmt.usesOf [] (Parse.source source n).program, u.id = id ∧
      (∀ d, r'.distances[id]? = some d →
        ∃ target, r'.targets[id]? = some target ∧ (o = some target ↔ ¬u.Pending)) ∧
      (r'.distances[id]? = none → o = some .globals ∨ o = none) := by
  have hformed := Parse.formed_source source n
  have hsettled := h.prepared.settled source hr
  have hdistinct := Stmt.distinctOf [] (Parse.source source n).program
    ⟨.nil, List.not_mem_nil, hformed.nodup, List.forall_mem_nil _⟩
  rcases notes_check hformed.proper { s with found := ∅ } id with hsame | ⟨u, hu, rfl, o', ho', hnoted⟩
  · -- Nothing was noted before.
    rw [ho] at hsame
    simp at hsame
  · have hsame : o' = o := Option.some.inj (ho'.symm.trans ho)
    subst hsame
    obtain ⟨hdistance, htarget⟩ := (hsettled.uses u hu).holds
    refine ⟨u, hu, rfl, fun d hd => ?_, fun hd => ?_⟩
    · have hidx : u.scopes.findIdx? (·.knows u.name) = some d := hdistance.symm.trans hd
      obtain ⟨region, -, hfind⟩ := getElem?_of_findIdx? hidx
      have hregion : u.region? = some region := hfind
      refine ⟨region.origin, ?_, hnoted.eq_iff (hdistinct u hu) hregion⟩
      rw [hregion] at htarget
      exact htarget
    · have hidx : u.scopes.findIdx? (·.knows u.name) = none := hdistance.symm.trans hd
      have hregion : u.region? = none := by
        rw [List.findIdx?_eq_none_iff] at hidx
        exact List.find?_eq_none.2 fun x hx => by rw [hidx x hx]; exact Bool.false_ne_true
      unfold Noted at hnoted
      rw [Use.declarer?_eq_none hregion] at hnoted
      exact hnoted

open Typing in
/-- A variable of a block that is read behind its declaration. -/
theorem checker_finds_resolved_scope_block : ∃ r' : Resolver,
    ({} : Resolver).run (Parse.source "\x7b var x = 3; x; \x7d" 0).program = ([], r') ∧
    ({ Checker.ofMachine .initial with found := ∅ }.check
      (Parse.source "\x7b var x = 3; x; \x7d" 0).program).2.found[2]? =
        some (some (.block 4)) ∧
    ∃ u ∈ Stmt.usesOf [] (Parse.source "\x7b var x = 3; x; \x7d" 0).program, u.id = 2 ∧
      (∀ d, r'.distances[2]? = some d →
        ∃ target, r'.targets[2]? = some target ∧ (some (.block 4) = some target ↔ ¬u.Pending)) ∧
      (r'.distances[2]? = none →
        some (Origin.block 4) = some .globals ∨ some (Origin.block 4) = none) := by
  have hresolved : ({} : Resolver).run
      (Parse.source "\x7b var x = 3; x; \x7d" 0).program = ([], _) :=
    Prod.ext (List.isEmpty_iff.1 (by decide +kernel)) rfl
  have hfound : ({ Checker.ofMachine .initial with found := ∅ }.check
      (Parse.source "\x7b var x = 3; x; \x7d" 0).program).2.found[2]? =
        some (some (.block 4)) := by decide +kernel
  exact ⟨_, hresolved, hfound,
    checker_finds_resolved_scope (.start 0) _ hresolved (Checker.ofMachine .initial) 2 _ hfound⟩

open Typing in
/-- In the initial value of a local variable the checker does not find the variable's scope. -/
theorem checker_misses_pending_scope :
    ¬∀ (source : String) (r' : Resolver) (id : NodeId) (o : Option Origin) (target : Origin),
      ({} : Resolver).run (Parse.source source 0).program = ([], r') →
      ((Checker.ofMachine .initial).check (Parse.source source 0).program).2.found[id]? = some o →
      r'.targets[id]? = some target → o = some target := by
  intro h
  have hresolved : ({} : Resolver).run
      (Parse.source "\x7b var x = (x = 3); \x7d" 0).program = ([], _) :=
    Prod.ext (List.isEmpty_iff.1 (by decide +kernel)) rfl
  have hfound : ((Checker.ofMachine .initial).check
      (Parse.source "\x7b var x = (x = 3); \x7d" 0).program).2.found[2]? = some none := by
    decide +kernel
  have htarget : (({} : Resolver).run
      (Parse.source "\x7b var x = (x = 3); \x7d" 0).program).2.targets[2]? = some (.block 5) := by
    decide +kernel
  -- The checker finds the name in no scope, and the resolver in that of the block.
  cases h _ _ 2 none (.block 5) hresolved hfound htarget

end ClassScript
