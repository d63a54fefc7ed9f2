import ClassScript.Proofs.Machine.Handed
import ClassScript.Proofs.Machine.Tracks

/-!
# Soundness of every step

Two engines agree on sound machines if, wherever the current scope stands for the place of the
syntax at hand, they give the same sound values and keep the machine sound. Native code does so as
in every regime, since a method that gets a receiver is a sound function.
-/

namespace ClassScript

open Scope
open Exec (Tracks Gives Passes)

variable {L : Ledger} {m : Machine}

/-! ### Steps on the store -/

namespace Exec

/-- A new identity changes nothing that matters. -/
theorem tracks_freshId : Passes L m freshId freshId := tracks_iff.2 abides_freshId

/-- A new scope is the next one of the table. -/
theorem tracks_newScope (origin : Origin) (parent : ScopeId) :
    Tracks L m (newScope origin parent) (newScope origin parent) fun i m' =>
      i = m.store.environments.table.size ∧
      m'.store.environments = m.store.environments.push origin (some parent) :=
  (Tracks.allocate fun hm => ⟨m.store.environments.grows_push .., hm.store.pushScope ..⟩).mono
    fun _ _ _ _ h => ⟨h.1, h.2 ▸ rfl⟩

/-- A name is declared with a value that is sound as soon as the name is declared. -/
theorem tracks_declare {scope : ScopeId} (hs : scope < m.store.environments.table.size)
    {name : String} {v : Value} (hv : v.Sound L (m.store.environments.define scope name v))
    (hsuper : name = "super" → ∃ cs, v = .superclasses cs) :
    Tracks L m (define scope name v) (define scope name v) fun _ m' =>
      m'.store.environments.binds scope name = true :=
  (Tracks.update fun hm =>
    ⟨m.store.environments.grows_define .., hm.store.define hs hv hsuper⟩).mono
    fun _ _ _ _ h => h ▸ m.store.environments.binds_define_self hs name v

/-- A binding of a sound value keeps the machine sound; the name for superclasses is bound to
superclasses only. -/
theorem tracks_define {scope : ScopeId} (hs : scope < m.store.environments.table.size)
    {name : String} {v : Value} (hv : m.Holds L v)
    (hsuper : name = "super" → ∃ cs, v = .superclasses cs) :
    Tracks L m (define scope name v) (define scope name v) fun _ m' =>
      m'.store.environments.binds scope name = true :=
  tracks_declare hs (hv.grows (m.store.environments.grows_define ..)) hsuper

/-- The method that the innermost call refers to is the same for both steps. -/
theorem tracks_home : Passes L m home home := .getBind fun _ => .pure fun _ => trivial

end Exec

/-! ### Classes -/

namespace Class

variable {es : Environments} {name : String} {fn : Closure} {depth : Nat}

namespace Sound

variable {c : Class}

/-- The superclasses of a sound class are sound. -/
theorem supers (h : c.Sound L es) : ∀ s ∈ c.supers, s.Sound L es := by
  cases h with
  | mk supers _ => exact supers

/-- So are its own methods. -/
theorem methods (h : c.Sound L es) : ∀ p ∈ c.methods, p.2.SoundMethod L es := by
  cases h with
  | mk _ methods => exact methods

/-- A method that is found in a sound class is sound. -/
theorem lookup (h : c.Sound L es) (hl : c.lookup name = .found fn depth) : fn.SoundMethod L es :=
  have ⟨_, hc, hfn⟩ := method_of_lookup (fun _ hc => hc.supers) h hl
  hc.methods _ hfn

end Sound

/-- So is a method that is found on superclasses. -/
theorem lookupSupers_sound {supers : List Class} (h : ∀ c ∈ supers, c.Sound L es)
    (hl : hierarchy.lookupSupers name supers = .found fn depth) : fn.SoundMethod L es :=
  have ⟨_, hc, hfn⟩ := method_of_lookupSupers (fun _ hc => hc.supers) h hl
  hc.methods _ hfn

end Class

/-! ### Members -/

/-- A method that gets a receiver is a sound function. -/
theorem Closure.tracks_bind {fn : Closure} {receiver : Value}
    (hfn : fn.SoundMethod L m.store.environments) (hr : m.Holds L receiver) :
    Tracks L m (fn.bind receiver) (fn.bind receiver) fun fn' m' =>
      fn'.Sound L m'.store.environments ∧ fn'.declaration = fn.declaration := by
  obtain ⟨id, scopes, hfn⟩ := hfn
  refine .readBind fun _ => ?_
  have ho : m.store.environments.table[fn.scope]?.map (·.origin) = some (.supers id) :=
    hfn.chain.1
  simp only [ho]
  refine (Exec.tracks_newScope _ _).bind ?_
  rintro _ m₁ hl₁ - ⟨rfl, he₁⟩
  have hchain := he₁ ▸ hfn.chain.push (.receiver id)
  refine (Exec.tracks_define hchain.lt_size (hl₁.holds hr) fun h => absurd h (by decide)).bind
    fun _ m₂ hl₂ _ hself => ?_
  refine Exec.tracks_freshId.bind fun i m₃ hl₃ _ _ => .pure fun _ => ?_
  -- The new scope stands for the receiver, inside the scope of the class.
  have hstands : m₃.store.environments.Stands m.store.environments.table.size
      (methodScopes id scopes) :=
    ⟨((hchain.grows hl₂.environments).declareIn hself).grows hl₃.environments,
      hfn.orderly.methodScopes id⟩
  exact ⟨⟨_, _, hstands, hstands, hfn.settled⟩, rfl⟩

/-- The method that is found on a sound object is a sound function with its receiver. -/
theorem Regime.sound_binds (L : Ledger) : (Regime.sound L).BindsMethods := by
  intro m place cls name fn depth hv hl
  have hcls : cls.Sound L m.store.environments := by
    cases hv with
    | «instance» _ h => exact h
  exact Exec.tracks_iff.1 ((Closure.tracks_bind (hcls.lookup hl) hv).mono
    fun _ _ _ _ hfn => .closure hfn.1)

/-- So is a method of sound superclasses. -/
theorem Regime.sound_bindsSupers (L : Ledger) : (Regime.sound L).BindsSupers := by
  intro m supers name fn depth receiver hsupers hl hr
  have hclasses : ∀ c ∈ supers, c.Sound L m.store.environments := by
    cases hsupers with
    | superclasses h => exact h
  exact Exec.tracks_iff.1 ((Closure.tracks_bind (Class.lookupSupers_sound hclasses hl) hr).mono
    fun _ _ _ _ hfn => .closure hfn.1)

/-! ### Engines -/

/-- Named arguments that are sound. -/
abbrev NamedSound (L : Ledger) (m : Machine) (named : List (String × Value)) : Prop :=
  ∀ p ∈ named, m.Holds L p.2

/-- A completion with a sound result, if it has one. -/
def Completion.Sound (L : Ledger) (es : Environments) : Completion → Prop
  | .normal => True
  | .returning v => v.Sound L es

/-- Two engines that agree on sound machines and keep them sound. -/
structure Engine.Agree (L : Ledger) (eng eng' : Engine) : Prop where
  /-- Loops have the same bound. -/
  fuel : eng'.fuel = eng.fuel
  /-- Expressions whose place the current scope stands for have sound values. -/
  evaluate : ∀ {m : Machine} {scopes : List Region} (e : Expr), m.Stands scopes →
    L.Settled (e.uses scopes) (e.nodes everywhere) → Gives L m (eng.evaluate e) (eng'.evaluate e)
  /-- Behind a statement the current scope stands for the place behind it. -/
  execute : ∀ {m : Machine} {scopes : List Region} (s : Stmt), m.Stands scopes →
    L.Settled (s.uses scopes) (s.nodes everywhere) →
    Tracks L m (eng.execute s) (eng'.execute s) fun c m' =>
      c.Sound L m'.store.environments ∧ (c = .normal → m'.Stands (s.after scopes))
  /-- Calls of sound values with sound arguments have sound results. -/
  invoke : ∀ {m : Machine} (site : Token) {callee : Value} {positional : List Value}
    {named : List (String × Value)}, m.Holds L callee → (∀ v ∈ positional, m.Holds L v) →
    NamedSound L m named →
    Gives L m (eng.invoke site callee positional named) (eng'.invoke site callee positional named)

namespace Engine

variable {eng eng' : Engine}

/-- Engines that agree call sound values alike. -/
theorem Agree.callsBy (h : Agree L eng eng') : CallsBy (.sound L) eng eng' where
  binds := Regime.sound_binds L
  invoke site _ _ _ hc hp hn := Exec.tracks_iff.1 (h.invoke site hc hp hn)

end Engine

end ClassScript
