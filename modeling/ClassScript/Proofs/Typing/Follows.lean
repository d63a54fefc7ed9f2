import ClassScript.Proofs.Parse.Formed
import ClassScript.Proofs.Scope.Uses
import ClassScript.Proofs.Typing.Edits

/-!
# The checker and the uses of a program

The checker opens a scope where the walk over the uses does, but only one for a class. It defines
the name of a variable behind its initial value, and the name of a function behind its defaults,
so that it finds a name in the first scope that declares it in front of the use: names that are
only pending do not count. `Check.Follows` says so of one step. A step may be left early, and the
methods of a class are not checked in their order, so a step is compared with a set of uses.
-/

namespace ClassScript

open Scope

/-- The scope that declares the name in front of the use. -/
def Scope.Use.declarer? (u : Use) : Option Region := u.scopes.find? (·.declared.contains u.name)

namespace Typing

/-! ### Scopes of the checker and scopes of the walk -/

/-- A scope of the checker is a scope of the walk. -/
structure StaticScope.Fits (sc : StaticScope) (r : Region) : Prop where
  /-- They belong to the same syntax. -/
  origin : sc.origin = r.origin
  /-- The checker knows the names that are declared. -/
  vars : ∀ name, (sc.vars.lookup name).isSome = r.declared.contains name
  /-- The superclasses of a class have no scope in the checker. -/
  plain : ∀ id, r.origin ≠ .supers id

/-- The scopes of the checker are the scopes of the walk without those of superclasses. -/
inductive Fit : List StaticScope → List Region → Prop where
  /-- There is no scope. -/
  | nil : Fit [] []
  /-- A scope of both. -/
  | cons {sc : StaticScope} {r : Region} {locals : List StaticScope} {scopes : List Region}
    (h : sc.Fits r) (rest : Fit locals scopes) : Fit (sc :: locals) (r :: scopes)
  /-- The one scope of a class and the two scopes of the walk. -/
  | methods {sc : StaticScope} {r : Region} {locals : List StaticScope} {scopes : List Region}
    (id : NodeId) (h : sc.Fits r) (rest : Fit locals scopes) :
    Fit (sc :: locals) (r :: .supers id :: scopes)

namespace Fit

variable {locals : List StaticScope} {scopes : List Region}

/-- The innermost scope is never one of superclasses. -/
theorem ne_supers (h : Fit locals scopes) (id : NodeId) (rest : List Region) :
    scopes ≠ .supers id :: rest := by
  rintro rfl
  cases h with
  | cons h _ => exact h.plain id rfl
  | methods _ h _ => exact h.plain id rfl

/-- The innermost scope is closed. -/
theorem tail (h : Fit locals scopes) (hs : ∀ id rest, scopes.tail ≠ .supers id :: rest) :
    Fit locals.tail scopes.tail := by
  cases h with
  | nil => exact .nil
  | cons _ rest => exact rest
  | methods id _ _ => exact absurd rfl (hs id _)

/-- The scope of a class is closed. -/
theorem close {r : Region} {id : NodeId} (h : Fit locals (r :: .supers id :: scopes)) :
    Fit locals.tail scopes := by
  cases h with
  | cons _ rest => exact absurd rfl (rest.ne_supers id scopes)
  | methods _ _ rest => exact rest

/-- Names that are only pending do not matter. -/
theorem pendIn_iff (name : String) : Fit locals (pendIn name scopes) ↔ Fit locals scopes := by
  -- Being pending changes the region, but nothing that a scope of the checker is compared with.
  cases scopes with
  | nil => exact Iff.rfl
  | cons r scopes =>
    constructor
    · intro h
      cases h with
      | cons h rest => exact .cons ⟨h.origin, h.vars, h.plain⟩ rest
      | methods id h rest => exact .methods id ⟨h.origin, h.vars, h.plain⟩ rest
    · intro h
      cases h with
      | cons h rest => exact .cons ⟨h.origin, h.vars, h.plain⟩ rest
      | methods id h rest => exact .methods id ⟨h.origin, h.vars, h.plain⟩ rest

end Fit

/-- A scope with one more name. -/
theorem StaticScope.Fits.declare {sc : StaticScope} {r : Region} (h : sc.Fits r) (name : String)
    (t : Option Ty) : StaticScope.Fits { sc with vars := (name, t) :: sc.vars } (r.declare name) where
  origin := h.origin
  vars x := by
    have hx := h.vars x
    rw [List.lookup_cons]
    simp only [Region.declare, List.contains_cons]
    cases hxn : x == name with
    | true => rfl
    | false => simpa using hx
  plain := h.plain

/-- A name that a scope has already gets another type. -/
theorem StaticScope.Fits.redefine {sc : StaticScope} {r : Region} (h : sc.Fits r) {name : String}
    (hn : (sc.vars.lookup name).isSome = true) (t : Option Ty) :
    StaticScope.Fits { sc with vars := (name, t) :: sc.vars } r where
  origin := h.origin
  vars x := by
    rw [List.lookup_cons]
    cases hxn : x == name with
    | true =>
      have e : x = name := by simpa using hxn
      rw [← h.vars x, e, hn]
      rfl
    | false => exact h.vars x
  plain := h.plain

/-- The scope that has a name gets another type for it. -/
theorem Fit.redefine {locals : List StaticScope} {scopes : List Region} (h : Fit locals scopes)
    {name : String} {i : Nat}
    (hi : locals.findIdx? (fun sc => (sc.vars.lookup name).isSome) = some i) (t : Option Ty) :
    Fit (locals.modify i fun sc => { sc with vars := (name, t) :: sc.vars }) scopes := by
  -- On the scopes, from the innermost outwards; the scopes of superclasses hold no names of the
  -- checker.
  induction h generalizing i with
  | nil => cases hi
  | @cons sc r locals scopes h rest ih =>
    rw [List.findIdx?_cons] at hi
    split at hi
    · next hn =>
      cases hi
      exact .cons (h.redefine hn t) rest
    · obtain ⟨j, hj, rfl⟩ := Option.map_eq_some_iff.1 hi
      exact .cons h (ih hj)
  | @methods sc r locals scopes id h rest ih =>
    rw [List.findIdx?_cons] at hi
    split at hi
    · next hn =>
      cases hi
      exact .methods id (h.redefine hn t) rest
    · obtain ⟨j, hj, rfl⟩ := Option.map_eq_some_iff.1 hi
      exact .methods id h (ih hj)

/-- The parameters of a function, in any order of definition. -/
theorem StaticScope.fits_params {id : NodeId} {params : List Param}
    {vars : List (String × Option Ty)} (h : vars.map Prod.fst = params.map (·.name.lexeme)) :
    StaticScope.Fits { origin := .call id, vars := vars.reverse } (.call id params) where
  origin := rfl
  vars name := by
    rw [Bool.eq_iff_iff, Option.isSome_iff_ne_none, List.contains_iff_mem, ne_eq,
      List.lookup_eq_none_iff]
    simp only [Region.call, ← h, List.mem_map, List.mem_reverse]
    -- A name has a type in the scope exactly if it is one of the parameters.
    constructor
    · intro hne
      by_contra hall
      exact hne fun p hp => by
        simpa using fun e => hall ⟨p, hp, e.symm⟩
    · rintro ⟨p, hp, rfl⟩ hall
      simpa using hall p hp
  plain _ := nofun

/-- The scope of a block starts without names on both sides. -/
theorem StaticScope.fits_block (id : NodeId) :
    StaticScope.Fits { origin := .block id } (.block id) where
  origin := rfl
  vars _ := rfl
  plain _ := nofun

/-- A scope with one name from the start. -/
theorem StaticScope.fits_single (origin : Origin) (ho : ∀ id, origin ≠ .supers id) (name : String)
    (t : Option Ty) :
    StaticScope.Fits { origin := origin, vars := [(name, t)] } ⟨origin, [name], []⟩ where
  origin := rfl
  vars x := by
    rw [List.lookup_cons, List.contains_cons, List.contains_nil, Bool.or_false]
    cases x == name <;> rfl
  plain := ho

/-- The parameters inside a body have the names of the parameters. -/
theorem paramVars_names {params : List Param} {types : List Ty} {vars : List (String × Option Ty)}
    (h : Check.paramVars params types = some vars) :
    vars.map Prod.fst = params.map (·.name.lexeme) := by
  induction params generalizing types vars with
  | nil =>
    cases h
    rfl
  | cons p rest ih =>
    unfold Check.paramVars at h
    -- A variadic parameter has its type from elsewhere, but its name like the others.
    split at h
    · obtain ⟨more, hmore, hvars⟩ := Option.bind_eq_some_iff.1 h
      cases hvars
      rw [List.map_cons, List.map_cons, ih hmore]
    · split at h
      · cases h
      · obtain ⟨more, hmore, hvars⟩ := Option.bind_eq_some_iff.1 h
        cases hvars
        rw [List.map_cons, List.map_cons, ih hmore]

/-! ### Notes of uses -/

/-- What the checker notes of a use: the syntax of the first scope that declares the name in front
of the use, and otherwise that the name is a global one or that there is none. -/
def Noted (u : Use) (o : Option Origin) : Prop :=
  match u.declarer? with
  | some r => o = some r.origin
  | none => o = some .globals ∨ o = none

/-- A name other than that of the superclasses is found where the walk says. -/
theorem Fit.find {locals : List StaticScope} {scopes : List Region} (h : Fit locals scopes)
    {name : String} (hn : name ≠ "super") :
    (∀ i, locals.findIdx? (fun sc => (sc.vars.lookup name).isSome) = some i →
      ∃ r, scopes.find? (·.declared.contains name) = some r ∧
        ∃ sc, locals[i]? = some sc ∧ sc.origin = r.origin) ∧
    (locals.findIdx? (fun sc => (sc.vars.lookup name).isSome) = none →
      scopes.find? (·.declared.contains name) = none) := by
  have hsuper : ∀ id, (Region.supers id).declared.contains name = false := by
    intro id
    simpa [Region.supers] using hn
  -- On the scopes, from the innermost outwards: a scope and its region declare the same names.
  induction h with
  | nil => exact ⟨nofun, fun _ => rfl⟩
  | @cons sc r locals scopes h rest ih =>
    rw [List.findIdx?_cons, List.find?_cons, h.vars name]
    cases hr : r.declared.contains name with
    | true =>
      refine ⟨fun i hi => ⟨r, rfl, sc, ?_, h.origin⟩, nofun⟩
      cases hi
      rfl
    | false =>
      simp only [Bool.false_eq_true, if_false, Option.map_eq_some_iff, Option.map_eq_none_iff]
      refine ⟨?_, ih.2⟩
      rintro _ ⟨i, hi, rfl⟩
      exact ih.1 i hi
  | @methods sc r locals scopes id h rest ih =>
    rw [List.findIdx?_cons, List.find?_cons, h.vars name]
    cases hr : r.declared.contains name with
    | true =>
      refine ⟨fun i hi => ⟨r, rfl, sc, ?_, h.origin⟩, nofun⟩
      cases hi
      rfl
    | false =>
      -- Around the methods is the region of the superclasses, which has no other name.
      rw [List.find?_cons, hsuper id]
      simp only [Bool.false_eq_true, if_false, Option.map_eq_some_iff, Option.map_eq_none_iff]
      refine ⟨?_, ih.2⟩
      rintro _ ⟨i, hi, rfl⟩
      exact ih.1 i hi

/-- What a lookup finds is what is to be noted of the use. -/
theorem Fit.noted {s : Checker} {u : Use} (h : Fit s.locals u.scopes) (hn : u.name ≠ "super") :
    Noted u ((Check.lookup? s u.name).map (·.1.origin s)) := by
  obtain ⟨hsome, hnone⟩ := h.find hn
  unfold Check.lookup? Noted Scope.Use.declarer?
  -- Found in a local scope, or looked for among the global names.
  cases hi : s.locals.findIdx? fun sc => (sc.vars.lookup u.name).isSome with
  | some i =>
    obtain ⟨r, hr, sc, hsc, ho⟩ := hsome i hi
    rw [hr]
    simp only [Option.map_some, Check.Place.origin, hsc, ho, Option.getD_some]
  | none =>
    rw [hnone hi]
    cases s.globals[u.name]? with
    | some t => exact .inl rfl
    | none => exact .inr rfl

/-- Everything that was noted on the way is right, and belongs to uses of a list. -/
def Notes (us : List Use) (s s' : Checker) : Prop :=
  ∀ id : NodeId, s'.found[id]? = s.found[id]? ∨
    ∃ u ∈ us, u.id = id ∧ ∃ o, s'.found[id]? = some o ∧ Noted u o

namespace Notes

variable {us us' : List Use} {s s' s'' : Checker}

/-- Where nothing was noted there is nothing wrong. -/
theorem of_eq (h : s'.found = s.found) : Notes us s s' := fun _ => .inl (by rw [h])

/-- The notes belong to a greater list of uses too. -/
theorem mono (h : Notes us s s') (hsub : us ⊆ us') : Notes us' s s' := by
  intro id
  rcases h id with h | ⟨u, hu, hid, ho⟩
  · exact .inl h
  · exact .inr ⟨u, hsub hu, hid, ho⟩

/-- Notes on the way to a state and on the way from it belong to both lists. -/
theorem trans (h : Notes us s s') (h' : Notes us' s' s'') : Notes (us ++ us') s s'' := by
  intro id
  rcases h' id with h' | ⟨u, hu, hid, ho⟩
  · rcases h id with h | ⟨u, hu, hid, o, ho, hnoted⟩
    · exact .inl (h'.trans h)
    · exact .inr ⟨u, List.mem_append_left _ hu, hid, o, h'.trans ho, hnoted⟩
  · exact .inr ⟨u, List.mem_append_right _ hu, hid, ho⟩

end Notes

namespace Check

variable {α β : Type} {scopes scopes' scopes'' : List Region} {us us' : List Use}

/-- A step that leads from a place of the walk to another one, and notes uses of a list. -/
structure Follows (scopes : List Region) (x : Check α) (scopes' : List Region) (us : List Use) :
    Prop where
  /-- At the end the scopes are those of the other place, and what was noted is right. -/
  ok : ∀ {s a s'}, Fit s.locals scopes → x s = .ok a s' → Fit s'.locals scopes' ∧ Notes us s s'
  /-- What was noted is right if the step is left early. -/
  error : ∀ {s e s'}, Fit s.locals scopes → x s = .error e s' → Notes us s s'

end Check

/-- Edits leave the scopes and the notes alone. -/
theorem Edits.scopes {s s' : Checker} (h : Edits s s') :
    s'.locals = s.locals ∧ s'.found = s.found := by
  induction h with
  | refl => exact ⟨rfl, rfl⟩
  | tail _ h ih => cases h <;> exact ih

namespace Check.Follows

variable {α β : Type} {scopes scopes' scopes'' : List Region} {us us' : List Use} {x : Check α}

/-! ### Rules -/

/-- A step that notes nothing. -/
theorem silent (h : ∀ s, Fit s.locals scopes →
    Fit (x.final s).locals scopes' ∧ (x.final s).found = s.found) :
    Follows scopes x scopes' us where
  ok {s a s'} hs hr := by
    have hq := h s hs
    rw [Check.final_ok hr] at hq
    exact ⟨hq.1, .of_eq hq.2⟩
  error {s e s'} hs hr := by
    have hq := h s hs
    rw [Check.final_error hr] at hq
    exact .of_eq hq.2

/-- A step that leaves the scopes and the notes alone. -/
theorem quiet (h : ∀ s, (x.final s).locals = s.locals ∧ (x.final s).found = s.found) :
    Follows scopes x scopes us :=
  silent fun s hs => ⟨(h s).1 ▸ hs, (h s).2⟩

/-- A step that makes only edits stays at its place. -/
theorem edits (h : x.Edits) : Follows scopes x scopes us :=
  quiet fun s => (h.edits s).scopes

/-- A step that stops does not arrive. -/
theorem throw (e : Stop) : Follows scopes (MonadExcept.throw e : Check α) scopes' us where
  ok _ hr := by cases hr
  error _ hr := by
    cases hr
    exact .of_eq rfl

/-- A value stays at its place. -/
theorem pure (a : α) : Follows scopes (Pure.pure a : Check α) scopes us := edits (.pure a)

/-- So does a change that leaves the scopes and the notes alone. -/
theorem change {f : Checker → Checker} (h : ∀ s, (f s).locals = s.locals ∧ (f s).found = s.found) :
    Follows scopes (modify f : Check Unit) scopes us :=
  quiet h

/-- A step notes uses of a greater list too. -/
theorem mono (h : Follows scopes x scopes' us) (hsub : us ⊆ us') : Follows scopes x scopes' us' where
  ok hs hr := ⟨(h.ok hs hr).1, (h.ok hs hr).2.mono hsub⟩
  error hs hr := (h.error hs hr).mono hsub

/-- Steps in a row note what each of them notes. -/
theorem bind {f : α → Check β} (hx : Follows scopes x scopes' us)
    (hf : ∀ a, Follows scopes' (f a) scopes'' us') : Follows scopes (x >>= f) scopes'' (us ++ us') where
  ok {s b s''} hs hr := by
    rw [bind_apply] at hr
    cases hx' : x s with
    | ok a s' =>
      -- The second step begins with the regions that the first one left.
      rw [hx'] at hr
      obtain ⟨hs', hn⟩ := hx.ok hs hx'
      obtain ⟨hs'', hn'⟩ := (hf a).ok hs' hr
      exact ⟨hs'', hn.trans hn'⟩
    | error e s' =>
      rw [hx'] at hr
      cases hr
  error {s e s''} hs hr := by
    rw [bind_apply] at hr
    cases hx' : x s with
    | ok a s' =>
      rw [hx'] at hr
      obtain ⟨hs', hn⟩ := hx.ok hs hx'
      exact hn.trans ((hf a).error hs' hr)
    | error e' s' =>
      rw [hx'] at hr
      cases hr
      exact (hx.error hs hx').mono (List.subset_append_left ..)

/-- Steps in a row that note uses of one list. -/
theorem andThen {f : α → Check β} (hx : Follows scopes x scopes' us)
    (hf : ∀ a, Follows scopes' (f a) scopes'' us) : Follows scopes (x >>= f) scopes'' us :=
  (hx.bind hf).mono (by simp)

/-- A step in front that notes nothing. -/
theorem first {f : α → Check β} (hx : x.Edits) (hf : ∀ a, Follows scopes (f a) scopes' us) :
    Follows scopes (x >>= f) scopes' us :=
  (edits hx).andThen hf

/-- Looks at the state and goes on. -/
theorem getBind {f : Checker → Check β} (hf : ∀ s, Follows scopes (f s) scopes' us) :
    Follows scopes (MonadState.get >>= f) scopes' us :=
  first .get hf

/-- A step behind that notes nothing. -/
theorem thenEdits {f : α → Check β} (hx : Follows scopes x scopes' us) (hf : ∀ a, (f a).Edits) :
    Follows scopes (x >>= f) scopes' us :=
  hx.andThen fun a => edits (hf a)

/-- A step inside a declaration. -/
theorem pending {name : String} (hx : Follows (pendIn name scopes) x (pendIn name scopes) us) :
    Follows scopes x scopes us where
  ok hs hr :=
    have ⟨hs', hn⟩ := hx.ok ((Fit.pendIn_iff name).2 hs) hr
    ⟨(Fit.pendIn_iff name).1 hs', hn⟩
  error hs hr := hx.error ((Fit.pendIn_iff name).2 hs) hr

/-- A step in a new scope. -/
theorem inScope {sc : StaticScope} {inner inner' : List Region}
    (hopen : ∀ locals, Fit locals scopes → Fit (sc :: locals) inner)
    (hclose : ∀ locals locals', Fit locals scopes → Fit locals' inner' → Fit locals'.tail scopes)
    (hx : Follows inner x inner' us) : Follows scopes (Check.inScope sc x) scopes us where
  ok {s a s'} hs hr := by
    unfold Check.inScope at hr
    rw [bind_apply, modify_apply] at hr
    dsimp only at hr
    rw [bind_apply] at hr
    cases hx' : x { s with locals := sc :: s.locals } with
    | ok b s₁ =>
      -- The scope is taken off on the way out, whatever names it got in between.
      rw [hx'] at hr
      obtain ⟨hs₁, hn⟩ := hx.ok (hopen _ hs) hx'
      cases hr
      exact ⟨hclose _ _ hs hs₁, hn⟩
    | error e s₁ =>
      rw [hx'] at hr
      cases hr
  error {s e s'} hs hr := by
    unfold Check.inScope at hr
    rw [bind_apply, modify_apply] at hr
    dsimp only at hr
    rw [bind_apply] at hr
    cases hx' : x { s with locals := sc :: s.locals } with
    | ok b s₁ =>
      rw [hx'] at hr
      cases hr
    | error e' s₁ =>
      rw [hx'] at hr
      cases hr
      exact hx.error (s := { s with locals := sc :: s.locals }) (hopen _ hs) hx'

/-- A step in the scope of a block, a function or a loop. -/
theorem inRegion {sc : StaticScope} {r : Region} {inner : List Region} (hr : sc.Fits r)
    (hx : Follows (r :: scopes) x inner us) (htail : inner.tail = scopes) :
    Follows scopes (Check.inScope sc x) scopes us := by
  refine hx.inScope (fun _ h => .cons hr h) fun locals locals' h h' => ?_
  have hclosed := h'.tail fun id rest => htail ▸ h.ne_supers id rest
  rwa [htail] at hclosed

/-- A step in the scope of a class. -/
theorem inClass {sc : StaticScope} {id : NodeId} (hr : sc.Fits (.receiver id))
    (hx : Follows (methodScopes id scopes) x (methodScopes id scopes) us) :
    Follows scopes (Check.inScope sc x) scopes us :=
  hx.inScope (fun _ h => .methods id hr h) fun _ _ _ h' => h'.close

end Check.Follows

namespace Check

variable {scopes scopes' : List Region} {us : List Use}

/-! ### Names -/

/-- A use is noted where the name is found. -/
theorem follows_noteUse {u : Use} (hu : u.scopes = scopes) (hn : u.name ≠ "super") :
    Follows scopes (noteUse u.id u.name) scopes [u] := by
  subst hu
  refine ⟨fun {s _ s'} hs hr => ?_, fun _ hr => by cases hr⟩
  cases hr
  refine ⟨hs, fun id => ?_⟩
  -- The note is made for this node, and all other ones are left.
  by_cases hid : u.id = id
  · refine .inr ⟨u, List.mem_cons_self, hid, _, ?_, hs.noted hn⟩
    dsimp only
    rw [Std.TreeMap.getElem?_insert, hid]
    simp
  · left
    dsimp only
    rw [Std.TreeMap.getElem?_insert]
    simp [hid]

/-- A use of a variable is noted. -/
theorem follows_useVariable (scopes : List Region) {u : NameUse} (hu : u.name.IsName) :
    Follows scopes (useVariable u) scopes [u.use scopes] :=
  (follows_noteUse (u := u.use scopes) rfl hu.ne_super).thenEdits fun _ =>
    .getBind fun _ => edits_record ..

/-- Without a scope a definition is global. -/
theorem final_define_of_nil {s : Checker} (hl : s.locals = []) (name : String) (t : Option Ty) :
    (define name t).final s = { s with globals := s.globals.insert name t } := by
  have hempty : s.locals.isEmpty = true := by rw [hl, List.isEmpty_nil]
  change (defineAt (if s.locals.isEmpty then .global else .local 0) name t).final s = _
  rw [if_pos hempty]
  rfl

/-- Otherwise it goes to the innermost scope. -/
theorem final_define_of_cons {s : Checker} {sc : StaticScope} {locals : List StaticScope}
    (hl : s.locals = sc :: locals) (name : String) (t : Option Ty) :
    (define name t).final s =
      { s with locals := { sc with vars := (name, t) :: sc.vars } :: locals } := by
  change (defineAt (if s.locals.isEmpty then .global else .local 0) name t).final s = _
  simp [hl, defineAt, final, modify_apply]

/-- A name is declared in the innermost scope. -/
theorem follows_define (name : String) (t : Option Ty) :
    Follows scopes (define name t) (declareIn name scopes) us := by
  refine .silent fun s hs => ?_
  cases hl : s.locals with
  | nil =>
    rw [final_define_of_nil hl]
    rw [hl] at hs
    cases hs
    exact ⟨hl ▸ .nil, rfl⟩
  | cons sc locals =>
    rw [final_define_of_cons hl]
    rw [hl] at hs
    cases hs with
    | cons h rest => exact ⟨.cons (h.declare name t) rest, rfl⟩
    | methods id h rest => exact ⟨.methods id (h.declare name t) rest, rfl⟩

/-- A name gets a type where it was found. -/
theorem fit_defineAt {s : Checker} {name : String} {place : Place} {old : Option Ty}
    (hs : Fit s.locals scopes) (hfound : lookup? s name = some (place, old)) (t : Option Ty) :
    Fit ((defineAt place name t).final s).locals scopes ∧
      ((defineAt place name t).final s).found = s.found := by
  cases place with
  | global => exact ⟨hs, rfl⟩
  | «local» i =>
    -- The scope is the first one with the name, and stays so.
    refine ⟨hs.redefine ?_ t, rfl⟩
    unfold lookup? at hfound
    split at hfound
    · next j hj =>
      cases hfound
      exact hj
    · obtain ⟨_, _, h⟩ := Option.map_eq_some_iff.1 hfound
      cases h

/-- An assignment ends where the definition that it stands for ends. -/
theorem final_assign (name : Token) (value : Ty) (s : Checker) :
    (assign name value).final s =
      (match lookup? s name.lexeme with
      | none => defineAt .global name.lexeme (some value)
      | some (place, none) => defineAt place name.lexeme (some value)
      | some (place, some existing) => do
        match ← answer (·.unify? (some existing) (some value)) with
        | none => reject name (.redefinedVariable (← text existing) (← text value))
        | some u => defineAt place name.lexeme u : Check Unit).final s := rfl

/-- An assignment defines no further local name. -/
theorem follows_assign (name : Token) (value : Ty) : Follows scopes (assign name value) scopes us := by
  refine .silent fun s hs => ?_
  rw [final_assign]
  cases hl : lookup? s name.lexeme with
  | none => exact ⟨hs, rfl⟩
  | some found =>
    obtain ⟨place, old⟩ := found
    cases old with
    | none => exact fit_defineAt hs hl _
    | some existing =>
      -- A name that has a type already keeps its place and gets the common type of both.
      dsimp only
      unfold final
      rw [bind_apply, answer_apply]
      cases s.unify? (some existing) (some value) with
      | none => exact ⟨hs, rfl⟩
      | some u =>
        cases u with
        | none =>
          -- A rejected assignment writes two texts and nothing else.
          have hrejected : (do
              reject name (.redefinedVariable (← text existing) (← text value)) : Check Unit).Edits :=
            (edits_text _).bind fun _ => (edits_text _).bind fun _ => edits_reject ..
          have hsame := (hrejected.edits s).scopes
          exact ⟨hsame.1 ▸ hs, hsame.2⟩
        | some u => exact fit_defineAt hs hl u

/-! ### Functions and classes -/

/-- The body of a function is checked in a scope with the parameters. -/
theorem follows_functionBody {id : NodeId} {params : List Param} (f : SignatureId)
    (context : Context) {body : Check Unit} {inner : List Region}
    (hb : Follows (.call id params :: scopes) body inner us) (htail : inner.tail = scopes) :
    Follows scopes (functionBody id params f context body) scopes us := by
  refine .getBind fun s => ?_
  dsimp only
  split
  · exact .throw _
  · next vars hvars =>
    refine .getBind fun s' => Follows.andThen (.change fun _ => ?_) fun _ => ?_
    · exact ⟨rfl, rfl⟩
    -- The body is checked inside of the new scope, and the result is noted outside.
    have hscope := hb.inRegion (StaticScope.fits_params (paramVars_names hvars)) htail
    refine hscope.andThen fun _ => .getBind fun s'' => ?_
    refine .first (edits_resultType ..) fun _ => .change fun _ => ?_
    exact ⟨rfl, rfl⟩

/-- A method that is put in a class is not a use. -/
theorem follows_putMember (c : ClassType) (name : String) (f : SignatureId) :
    Follows scopes (putMember c name f) scopes us :=
  .quiet fun _ => ⟨rfl, rfl⟩

/-- A class that is made is not a use. -/
theorem follows_newClass (name : String) (supers : List ClassType) :
    Follows scopes (newClass name supers) scopes us :=
  .quiet fun _ => ⟨rfl, rfl⟩

/-- The names of superclasses are noted. -/
theorem follows_superclasses (scopes : List Region) {supers : List NameUse}
    (h : ∀ u ∈ supers, u.name.IsName) :
    Follows scopes (superclasses supers) scopes (supers.map (NameUse.use scopes)) := by
  induction supers with
  | nil => exact .pure _
  | cons u rest ih =>
    have hrest := ih fun v hv => h v (List.mem_cons_of_mem _ hv)
    have hfirst := follows_useVariable scopes (h u List.mem_cons_self)
    -- What is no class, or cannot be inherited from, is rejected after it was noted.
    refine hfirst.bind fun t => ?_
    split
    · split
      · exact .first (edits_reject ..) fun _ => hrest.thenEdits fun _ => .pure _
      · exact hrest.thenEdits fun _ => .pure _
    · exact .edits (edits_reject ..)

/-! ### Expressions and statements -/

/-- The names of superclasses are names. -/
theorem isName_of_proper {supers : List NameUse}
    (h : ∀ n ∈ supers.flatMap fun u => Node.visit everywhere (.expr (.var u)) [], n.Proper) :
    ∀ u ∈ supers, u.name.IsName := fun u hu =>
  h (.expr (.var u)) (List.mem_flatMap.2 ⟨u, hu, List.mem_cons_self⟩)

mutual

/-- The uses of an expression are noted. -/
theorem follows_expr (scopes : List Region) : ∀ e : Expr, (∀ n ∈ e.nodes everywhere, n.Proper) →
    Follows scopes (expr e) scopes (e.uses scopes)
  | .literal id token value, _ => .edits (edits_record ..)
  | .group id paren inner, h =>
    (follows_expr scopes inner (List.forall_mem_cons.1 h).2).thenEdits fun _ => edits_record ..
  | .list id bracket elements, h =>
    (follows_exprs scopes elements (List.forall_mem_cons.1 h).2).thenEdits fun _ => edits_record ..
  | .var use, h => follows_useVariable scopes (List.forall_mem_cons.1 h).1
  | .self id keyword, _ => .getBind fun _ => .edits (edits_record ..)
  | .assign id name value, h => by
    obtain ⟨hname, hvalue⟩ := List.forall_mem_cons.1 h
    refine (follows_expr scopes value hvalue).bind fun t => ?_
    have hnote := follows_noteUse (u := ⟨.write, id, name.lexeme, scopes⟩) rfl hname.ne_super
    exact hnote.andThen fun _ => (follows_assign name t).thenEdits fun _ => edits_record ..
  | .super id keyword method, _ =>
    .edits ((edits_superType ..).bind fun _ => edits_record ..)
  | .unary id op right, h =>
    (follows_expr scopes right (List.forall_mem_cons.1 h).2).thenEdits fun _ =>
      (edits_send ..).bind fun _ => edits_record ..
  | .binary id left op right, h => by
    obtain ⟨hleft, hright⟩ := List.forall_mem_append.1 (List.forall_mem_cons.1 h).2
    refine (follows_expr scopes left hleft).bind fun l => ?_
    exact (follows_expr scopes right hright).thenEdits fun r =>
      (edits_binaryType ..).bind fun _ => edits_record ..
  | .logical id left op right, h => by
    obtain ⟨hleft, hright⟩ := List.forall_mem_append.1 (List.forall_mem_cons.1 h).2
    refine (follows_expr scopes left hleft).bind fun l => ?_
    exact (follows_expr scopes right hright).thenEdits fun r =>
      (edits_logicalType ..).bind fun _ => edits_record ..
  | .call id callee paren args named, h => by
    obtain ⟨hfront, hnamed⟩ := List.forall_mem_append.1 (List.forall_mem_cons.1 h).2
    obtain ⟨hcallee, hargs⟩ := List.forall_mem_append.1 hfront
    unfold Expr.uses
    rw [List.append_assoc]
    refine (follows_expr scopes callee hcallee).bind fun fn => ?_
    refine (follows_exprs scopes args hargs).bind fun ts => ?_
    exact (follows_namedArgs scopes named hnamed).thenEdits fun ns =>
      (edits_callType ..).bind fun _ => edits_record ..
  | .get id object name, h =>
    (follows_expr scopes object (List.forall_mem_cons.1 h).2).thenEdits fun _ =>
      (edits_member ..).bind fun _ => edits_record ..
  | .set id object name value, h => by
    obtain ⟨hobject, hvalue⟩ := List.forall_mem_append.1 (List.forall_mem_cons.1 h).2
    have hboth := (follows_expr scopes object hobject).bind fun t =>
      (follows_expr scopes value hvalue).thenEdits fun v =>
        (edits_setAttribute t name v).bind fun _ => edits_record id v
    -- The walk lists the value in front of the object.
    refine hboth.mono fun u hu => ?_
    exact List.mem_append.2 (List.mem_append.1 hu).symm
  | .lambda ⟨id, keyword, name, params, body⟩, h => by
    obtain ⟨hparams, hbody⟩ := List.forall_mem_append.1 (List.forall_mem_cons.1 h).2
    refine (follows_paramTypes scopes params hparams).bind fun types => ?_
    refine .first (edits_newSignature _) fun f => .getBind fun s => ?_
    refine Follows.thenEdits ?_ fun _ => edits_record ..
    exact follows_functionBody f _ (follows_stmts _ body hbody) (Stmt.tail_afterAll _ body)

/-- So are those of expressions in a row. -/
theorem follows_exprs (scopes : List Region) : ∀ es : List Expr,
    (∀ n ∈ Expr.nodesOf everywhere es, n.Proper) →
    Follows scopes (exprs es) scopes (Expr.usesOf scopes es)
  | [], _ => .pure _
  | e :: rest, h => by
    obtain ⟨hfirst, hrest⟩ := List.forall_mem_append.1 h
    refine (follows_expr scopes e hfirst).bind fun t => ?_
    exact (follows_exprs scopes rest hrest).thenEdits fun _ => .pure _

/-- So are those of named arguments. -/
theorem follows_namedArgs (scopes : List Region) : ∀ args : List NamedArg,
    (∀ n ∈ NamedArg.nodesOf everywhere args, n.Proper) →
    Follows scopes (namedArgs args) scopes (NamedArg.usesOf scopes args)
  | [], _ => .pure _
  | ⟨name, value⟩ :: rest, h => by
    obtain ⟨hfirst, hrest⟩ := List.forall_mem_append.1 h
    refine (follows_expr scopes value hfirst).bind fun t => ?_
    exact (follows_namedArgs scopes rest hrest).thenEdits fun _ => .pure _

/-- So are those of the defaults of parameters. -/
theorem follows_paramTypes (scopes : List Region) : ∀ params : List Param,
    (∀ n ∈ Param.nodesOf everywhere params, n.Proper) →
    Follows scopes (paramTypes params) scopes (Param.usesOf scopes params)
  | [], _ => .pure _
  | ⟨type, name, none, variadic⟩ :: rest, h =>
    .first (edits_declaredType _) fun _ =>
      (follows_paramTypes scopes rest h).thenEdits fun _ => .pure _
  | ⟨type, name, some value, variadic⟩ :: rest, h => by
    obtain ⟨hvalue, hrest⟩ := List.forall_mem_append.1 h
    refine .first (edits_declaredType _) fun t => ?_
    refine (follows_expr scopes value hvalue).bind fun d => ?_
    refine .first (edits_answer _) fun fits => ?_
    -- The other parameters are checked whether or not the default fits.
    have htypes : Follows scopes (do return t :: (← paramTypes rest)) scopes
        (Param.usesOf scopes rest) :=
      (follows_paramTypes scopes rest hrest).thenEdits fun _ => .pure _
    dsimp only
    split
    · exact htypes
    · exact .first (edits_text _) fun _ => .first (edits_text _) fun _ =>
        .first (edits_reject ..) fun _ => htypes

/-- So are those of the defaults of methods, outside the bodies. -/
theorem follows_declareMethods (scopes : List Region) (c : ClassType) : ∀ fns : List Lambda,
    (∀ n ∈ Lambda.nodesOf everywhere fns, n.Proper) →
    Follows scopes (declareMethods c fns) scopes (Lambda.usesOf scopes fns)
  | [], _ => .pure _
  | ⟨id, keyword, name, params, body⟩ :: rest, h => by
    obtain ⟨hfirst, hrest⟩ := List.forall_mem_append.1 h
    obtain ⟨hparams, -⟩ := List.forall_mem_append.1 (List.forall_mem_cons.1 hfirst).2
    have hdefaults := (follows_paramTypes scopes params hparams).mono
      (List.subset_append_left _ (Stmt.usesOf (.call id params :: scopes) body))
    refine hdefaults.bind fun types => .first (edits_newSignature _) fun f => ?_
    refine Follows.andThen (follows_putMember ..) fun _ => ?_
    exact .first (edits_record ..) fun _ => follows_declareMethods scopes c rest hrest

/-- So are those of the body of a method. -/
theorem follows_methodBody (scopes : List Region) (c : ClassType) : ∀ fn : Lambda,
    (∀ n ∈ fn.nodes everywhere, n.Proper) →
    Follows scopes (methodBody c fn) scopes (fn.uses scopes scopes)
  | ⟨id, keyword, name, params, body⟩, h => by
    obtain ⟨-, hbody⟩ := List.forall_mem_append.1 (List.forall_mem_cons.1 h).2
    refine .getBind fun s => ?_
    split
    · exact .throw _
    · refine (follows_functionBody _ _ (follows_stmts _ body hbody)
        (Stmt.tail_afterAll _ body)).mono ?_
      exact List.subset_append_right ..

/-- So are those of the bodies of the initializers. -/
theorem follows_initializerBodies (scopes : List Region) (c : ClassType) : ∀ fns : List Lambda,
    (∀ n ∈ Lambda.nodesOf everywhere fns, n.Proper) →
    Follows scopes (initializerBodies c fns) scopes (Lambda.usesOf scopes fns)
  | [], _ => .pure _
  | fn :: rest, h => by
    obtain ⟨hfirst, hrest⟩ := List.forall_mem_append.1 h
    have hlater := (follows_initializerBodies scopes c rest hrest).mono
      (List.subset_append_right (fn.uses scopes scopes) _)
    refine hlater.andThen fun _ => ?_
    split
    · exact (follows_methodBody scopes c fn hfirst).mono (List.subset_append_left ..)
    · exact .pure _

/-- So are those of the bodies of the other methods. -/
theorem follows_otherBodies (scopes : List Region) (c : ClassType) : ∀ fns : List Lambda,
    (∀ n ∈ Lambda.nodesOf everywhere fns, n.Proper) →
    Follows scopes (otherBodies c fns) scopes (Lambda.usesOf scopes fns)
  | [], _ => .pure _
  | fn :: rest, h => by
    obtain ⟨hfirst, hrest⟩ := List.forall_mem_append.1 h
    have hbody := follows_methodBody scopes c fn hfirst
    have hlater := follows_otherBodies scopes c rest hrest
    unfold otherBodies
    dsimp only
    split
    · exact hbody.bind fun _ => hlater
    · exact hlater.mono (List.subset_append_right ..)

/-- So are those of a block, which leads back to its place. -/
theorem follows_block (scopes : List Region) : ∀ b : Block,
    (∀ n ∈ b.nodes everywhere, n.Proper) → Follows scopes (block b) scopes (b.uses scopes)
  | ⟨id, brace, body⟩, h => by
    obtain ⟨-, hbody⟩ := List.forall_mem_cons.1 h
    have hinner := follows_stmts (.block id :: scopes) body hbody
    refine .first (edits_record ..) fun _ => ?_
    exact hinner.inRegion (StaticScope.fits_block id) (Stmt.tail_afterAll _ body)

/-- The checker follows a statement to the place behind it. -/
theorem follows_stmt (scopes : List Region) : ∀ s : Stmt, (∀ n ∈ s.nodes everywhere, n.Proper) →
    Follows scopes (stmt s) (s.after scopes) (s.uses scopes)
  | .expr id value, h =>
    (follows_expr scopes value (List.forall_mem_cons.1 h).2).thenEdits fun _ =>
      (edits_record ..).bind fun _ => .pure _
  | .varDecl id name none, _ =>
    (follows_define ..).thenEdits fun _ => (edits_record ..).bind fun _ => .pure _
  | .varDecl id name (some value), h => by
    have hvalue := follows_expr (pendIn name.lexeme scopes) value (List.forall_mem_cons.1 h).2
    -- The name is pending while its value is checked, and declared behind it.
    refine hvalue.pending.andThen fun t => ?_
    exact (follows_define ..).thenEdits fun _ => (edits_record ..).bind fun _ => .pure _
  | .function id ⟨fid, keyword, name, params, body⟩, h => by
    obtain ⟨⟨token, hname, -⟩, hfn⟩ := List.forall_mem_cons.1 h
    obtain ⟨hparams, hbody⟩ := List.forall_mem_append.1 (List.forall_mem_cons.1 hfn).2
    cases hname
    -- So is the name of a function while the defaults are checked, but not in its body.
    have hdefaults := follows_paramTypes (pendIn token.lexeme scopes) params hparams
    refine hdefaults.pending.bind fun types => .first (edits_newSignature _) fun f => ?_
    refine (follows_define token.lexeme _).andThen fun _ => .first (edits_record ..) fun _ => ?_
    refine .getBind fun s => ?_
    exact follows_functionBody f _ (follows_stmts _ body hbody) (Stmt.tail_afterAll _ body)
  | .classDecl id name supers methods, h => by
    obtain ⟨hname, hparts⟩ := List.forall_mem_cons.1 h
    obtain ⟨hsupers, hmethods⟩ := List.forall_mem_append.1 hparts
    have hclasses := follows_superclasses (pendIn name.lexeme scopes) (isName_of_proper hsupers)
    refine hclasses.pending.bind fun classes => (follows_newClass ..).andThen fun c => ?_
    refine (follows_define name.lexeme _).andThen fun _ => .first (edits_record ..) fun _ => ?_
    -- The scope with the object stands for two regions, that of the superclasses and that of the
    -- methods.
    refine Follows.inClass (StaticScope.fits_single (.receiver id) (fun _ => nofun) "self" _) ?_
    refine (follows_declareMethods _ c methods hmethods).andThen fun _ => ?_
    refine (follows_initializerBodies _ c methods hmethods).andThen fun _ => ?_
    exact follows_otherBodies _ c methods hmethods
  | .block b, h => follows_block scopes b h
  | .ifElse id keyword condition body none, h => by
    obtain ⟨hcondition, hbody⟩ := List.forall_mem_append.1 (List.forall_mem_cons.1 h).2
    refine .first (edits_record ..) fun _ => (follows_expr scopes condition hcondition).bind ?_
    exact fun _ => follows_block scopes body hbody
  | .ifElse id keyword condition body (some otherwise), h => by
    obtain ⟨hfront, hother⟩ := List.forall_mem_append.1 (List.forall_mem_cons.1 h).2
    obtain ⟨hcondition, hbody⟩ := List.forall_mem_append.1 hfront
    -- Condition and branches are used from left to right.
    unfold Stmt.uses
    rw [List.append_assoc]
    refine .first (edits_record ..) fun _ => (follows_expr scopes condition hcondition).bind ?_
    refine fun _ => (follows_block scopes body hbody).bind fun _ => ?_
    exact follows_stmt scopes otherwise hother
  | .whileLoop id keyword condition body, h => by
    obtain ⟨hcondition, hbody⟩ := List.forall_mem_append.1 (List.forall_mem_cons.1 h).2
    refine .first (edits_record ..) fun _ => (follows_expr scopes condition hcondition).bind ?_
    exact fun _ => follows_block scopes body hbody
  | .forIn id keyword name iterable body, h => by
    obtain ⟨hiterable, hbody⟩ := List.forall_mem_append.1 (List.forall_mem_cons.1 h).2
    refine .first (edits_record ..) fun _ => (follows_expr scopes iterable hiterable).bind ?_
    refine fun t => .first (edits_elementType ..) fun e => ?_
    have hbody := follows_block (.loop id name :: scopes) body hbody
    exact hbody.inRegion (StaticScope.fits_single (.loop id) (fun _ => nofun) name.lexeme _) rfl
  | .ret id keyword none, _ =>
    .edits ((edits_record ..).bind fun _ => edits_noteReturn ..)
  | .ret id keyword (some value), h =>
    (follows_expr scopes value (List.forall_mem_cons.1 h).2).thenEdits fun _ =>
      (edits_record ..).bind fun _ => edits_noteReturn ..

/-- Statements lead to the place behind them, and their uses are noted. -/
theorem follows_stmts (scopes : List Region) : ∀ body : List Stmt,
    (∀ n ∈ Stmt.nodesOf everywhere body, n.Proper) →
    Follows scopes (stmts body) (Stmt.afterAll scopes body) (Stmt.usesOf scopes body)
  | [], _ => .pure _
  | s :: rest, h => by
    obtain ⟨hfirst, hrest⟩ := List.forall_mem_append.1 h
    exact (follows_stmt scopes s hfirst).bind fun _ => follows_stmts (s.after scopes) rest hrest

end

end Check

end Typing

end ClassScript
