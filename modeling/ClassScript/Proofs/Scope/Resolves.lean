import Mathlib.Data.List.Forall2
import ClassScript.Proofs.Scope.Uses
import ClassScript.Scope.Resolve

/-!
# The resolver and the uses of a program

The resolver records the uses of a program one after the other, in the order of the walk over the
uses and with the scopes that the walk sees. `Resolver.Resolves` says so of one step: it leads from
one place of the walk to another one and records a list of uses, unless it finds something wrong.
Steps in a row add up, and the resolver follows the syntax like the walk does.
-/

namespace ClassScript.Scope

/-- The distances of uses and the scopes that they lead to. -/
structure Tables where
  /-- The distances. -/
  distances : Distances
  /-- The scopes that they lead to. -/
  targets : Targets

/-- The tables with one more use, if its name is declared in a scope around it. -/
def Tables.record (t : Tables) (u : Use) : Tables :=
  match u.distance? with
  | none => t
  | some d =>
    { distances := t.distances.insert u.id d
      targets := t.targets.alter u.id fun _ => u.region?.map (·.origin) }

/-- Tables that say the same of a node. -/
def Tables.Same (t t' : Tables) (id : NodeId) : Prop :=
  t.distances[id]? = t'.distances[id]? ∧ t.targets[id]? = t'.targets[id]?

/-- An open scope of the resolver is a scope of the walk. -/
structure Frame.Fits (f : Frame) (r : Region) : Prop where
  /-- They belong to the same syntax. -/
  origin : f.origin = r.origin
  /-- They declare the same names. -/
  knows : ∀ name, (f.ready? name).isSome = r.knows name

/-- The open scopes of the resolver are the scopes of the walk. -/
abbrev Fit (frames : List Frame) (scopes : List Region) : Prop :=
  List.Forall₂ Frame.Fits frames scopes

/-- Where the walk is. -/
structure Place where
  /-- The class around the place. -/
  inClass : ClassContext
  /-- The scopes around the place, the innermost first. -/
  scopes : List Region

/-- In a class there is a receiver, and in a class with superclasses there are superclasses. -/
structure Place.Grounded (p : Place) : Prop where
  /-- A receiver is declared in every class. -/
  self : p.inClass ≠ .outside → ∃ r ∈ p.scopes, r.knows "self" = true
  /-- Superclasses are declared in every class that has some. -/
  super : p.inClass = .derived → ∃ r ∈ p.scopes, r.knows "super" = true

/-- Uses of receivers and superclasses whose scopes declare them. -/
def Known (us : List Use) : Prop :=
  ∀ u ∈ us, u.role = .self ∨ u.role = .super → ∃ r ∈ u.scopes, r.knows u.name = true

namespace Resolver

/-- The tables of a resolver. -/
def tables (r : Resolver) : Tables := ⟨r.distances, r.targets⟩

/-- A resolver at a place of the walk. -/
structure At (p : Place) (r : Resolver) : Prop where
  /-- The class is that of the place. -/
  inClass : r.inClass = p.inClass
  /-- The open scopes are those of the place. -/
  frames : Fit r.frames p.scopes

/-- The resolver went on to another place. If nothing was wrong up to there, it recorded some
uses, and receivers and superclasses were used where there are some. -/
structure Resolved (p' : Place) (us : List Use) (r r' : Resolver) : Prop where
  /-- The resolver is at the other place. -/
  place : r'.At p'
  /-- No report goes away. -/
  reports : r'.reports = [] → r.reports = []
  /-- The uses were recorded one after the other. -/
  tables : r'.reports = [] → r'.tables = us.foldl Tables.record r.tables
  /-- The uses of receivers and superclasses lie in classes. -/
  known : r'.reports = [] → Known us
  /-- Nothing else was recorded, whether or not something was wrong. -/
  frame : ∀ id, id ∉ us.map Use.id → r'.tables.Same r.tables id

/-- A step that leads from a place to another one and records uses. -/
def Resolves (p : Place) (x : Step) (p' : Place) (us : List Use) : Prop :=
  ∀ r : Resolver, r.At p → Resolved p' us r (x r).2

end Resolver

/-! ### Recorded uses -/

namespace Tables

/-- A record says nothing of other nodes. -/
theorem same_record (t : Tables) {u : Use} {id : NodeId} (h : id ≠ u.id) :
    (t.record u).Same t id := by
  unfold Tables.record
  split
  · exact ⟨rfl, rfl⟩
  · simp [Tables.Same, Std.TreeMap.getElem?_insert, Std.TreeMap.getElem?_alter, h.symm]

/-- What the tables say of a use: its distance and the scope that declares its name, if there is
one. -/
def Holds (t : Tables) (u : Use) : Prop :=
  t.distances[u.id]? = u.distance? ∧ t.targets[u.id]? = u.region?.map (·.origin)

/-- The tables hold of a use that was just recorded for the first time. -/
theorem holds_record (t : Tables) {u : Use} (h : t.distances[u.id]? = none ∧ t.targets[u.id]? = none) :
    (t.record u).Holds u := by
  unfold Tables.record Holds
  cases hd : u.distance? with
  | none =>
    have hr : u.region? = none := by
      unfold Use.distance? at hd
      unfold Use.region?
      rw [List.findIdx?_eq_none_iff] at hd
      simpa using hd
    simp [h, hr]
  | some d => simp

/-- Recording the uses of other nodes does not change what the tables say of a node. -/
theorem same_foldl (us : List Use) (t : Tables) {id : NodeId} (h : id ∉ us.map Use.id) :
    (us.foldl Tables.record t).Same t id := by
  induction us generalizing t with
  | nil => exact ⟨rfl, rfl⟩
  | cons u rest ih =>
    rw [List.map_cons, List.mem_cons, not_or] at h
    have h₁ := t.same_record h.1
    have h₂ := ih (t.record u) h.2
    exact ⟨h₂.1.trans h₁.1, h₂.2.trans h₁.2⟩

/-- After uses of different nodes were recorded, the tables say of each what is to be said. -/
theorem holds_foldl {us : List Use} (hn : (us.map Use.id).Nodup) (t : Tables)
    (hf : ∀ u ∈ us, t.distances[u.id]? = none ∧ t.targets[u.id]? = none) {u : Use} (hu : u ∈ us) :
    (us.foldl Tables.record t).Holds u := by
  -- On the uses. What is recorded for one node is not touched by the uses of others.
  induction us generalizing t with
  | nil => cases hu
  | cons v rest ih =>
    rw [List.map_cons, List.nodup_cons] at hn
    cases hu with
    | head =>
      have h₁ := t.holds_record (hf u List.mem_cons_self)
      have h₂ := same_foldl rest (t.record u) hn.1
      exact ⟨h₂.1.trans h₁.1, h₂.2.trans h₁.2⟩
    | tail _ hu =>
      refine ih hn.2 (t.record v) (fun w hw => ?_) hu
      have hne : w.id ≠ v.id := fun e => hn.1 (e ▸ List.mem_map_of_mem hw)
      have h := t.same_record hne
      have hw' := hf w (List.mem_cons_of_mem _ hw)
      exact ⟨h.1.trans hw'.1, h.2.trans hw'.2⟩

end Tables

/-! ### Scopes of the resolver and scopes of the walk -/

namespace Frame

/-- A name that is put into a scope is found there, and the others stay. -/
@[simp]
theorem ready?_put (f : Frame) (name x : String) (ready : Bool) :
    (f.put name ready).ready? x = if x = name then some ready else f.ready? x := by
  by_cases h : x = name
  · simp [ready?, put, h]
  · have h' : (x == name) = false := by simpa using h
    simp [ready?, put, List.lookup_cons, h', h]

/-- A name that is put into a scope is pending on the walk too. -/
theorem Fits.put_pend {f : Frame} {r : Region} (h : f.Fits r) (name : String) (ready : Bool) :
    (f.put name ready).Fits (r.pend name) where
  origin := h.origin
  knows x := by
    rw [ready?_put, Region.knows_pend, ← h.knows x]
    by_cases e : x = name <;> simp [e]

end Frame

/-- The open scopes with a name in the innermost one. -/
def putIn (name : String) (ready : Bool) : List Frame → List Frame
  | [] => []
  | f :: rest => f.put name ready :: rest

/-- A name that is put into the innermost scope as pending. -/
theorem fit_pendIn {frames : List Frame} {scopes : List Region} (h : Fit frames scopes)
    (name : String) (ready : Bool) :
    Fit (putIn name ready frames) (pendIn name scopes) := by
  cases h with
  | nil => exact .nil
  | cons hf hrest => exact .cons (hf.put_pend name ready) hrest

/-- Names that are pending and names that are declared look alike to the resolver. -/
theorem fit_pendIn_iff {frames : List Frame} {scopes : List Region} (name : String) :
    Fit frames (pendIn name scopes) ↔ Fit frames (declareIn name scopes) := by
  cases scopes with
  | nil => exact Iff.rfl
  | cons r rest =>
    -- A frame has one set of names, and a name is in it from the time on when it is pending.
    have alike : ∀ f : Frame, f.Fits (r.pend name) ↔ f.Fits (r.declare name) := by
      intro f
      refine ⟨fun h => ⟨h.origin, fun x => ?_⟩, fun h => ⟨h.origin, fun x => ?_⟩⟩
      · rw [h.knows x, Region.knows_pend, Region.knows_declare]
      · rw [h.knows x, Region.knows_pend, Region.knows_declare]
    cases frames with
    | nil => exact ⟨nofun, nofun⟩
    | cons f fs =>
      simp only [pendIn, declareIn, List.forall₂_cons, alike f]

/-- A name stays declared when it is declared once more. -/
theorem fit_define {frames : List Frame} {scopes : List Region} {name : String}
    (h : Fit frames (pendIn name scopes)) (ready : Bool) :
    Fit (putIn name ready frames) (declareIn name scopes) := by
  cases scopes with
  | nil =>
    cases h
    exact .nil
  | cons r rest =>
    cases h with
    | cons hf hrest =>
      refine .cons ⟨hf.origin, fun x => ?_⟩ hrest
      rw [Frame.ready?_put, Region.knows_declare]
      have hx := hf.knows x
      rw [Region.knows_pend] at hx
      -- The name itself is declared on both sides; nothing changes for the others.
      by_cases e : x = name
      · simp [e]
      · simpa [e] using hx

/-- The resolver finds a name in the scope in which the walk finds it. -/
theorem Fit.distance? {frames : List Frame} {scopes : List Region} (h : Fit frames scopes)
    (name : String) :
    Resolver.distance? frames name = scopes.findIdx? (·.knows name) := by
  unfold Resolver.distance?
  induction h with
  | nil => rfl
  | cons hf _ ih => rw [List.findIdx?_cons, List.findIdx?_cons, hf.knows, ih]

/-- The scope that the resolver notes for a distance is the one in which the walk finds the
name. -/
theorem Fit.target? {frames : List Frame} {scopes : List Region} (h : Fit frames scopes)
    {name : String} {d : Nat} (hd : scopes.findIdx? (·.knows name) = some d) :
    Resolver.target? frames d = (scopes.find? (·.knows name)).map (·.origin) := by
  unfold Resolver.target?
  -- On the scopes, from the innermost outwards.
  induction h generalizing d with
  | nil => simp at hd
  | @cons f r frames scopes hf _ ih =>
    rw [List.findIdx?_cons] at hd
    by_cases hr : r.knows name = true
    · rw [if_pos hr, Option.some.injEq] at hd
      subst hd
      simp [hr, hf.origin]
    · rw [if_neg hr, Option.map_eq_some_iff] at hd
      obtain ⟨d, hd, rfl⟩ := hd
      have skip : (r :: scopes).find? (·.knows name) = scopes.find? (·.knows name) :=
        List.find?_cons_of_neg hr
      rw [skip, ← ih hd]
      rfl

/-! ### Places in a class -/

namespace Place.Grounded

/-- A place in the same class stays grounded if its scopes still know what they knew. -/
theorem of_known {p p' : Place} (h : p.Grounded) (hc : p'.inClass = p.inClass)
    (hs : ∀ name, (∃ r ∈ p.scopes, r.knows name = true) → ∃ r ∈ p'.scopes, r.knows name = true) :
    p'.Grounded where
  self hp := hs _ (h.self (hc ▸ hp))
  super hp := hs _ (h.super (hc ▸ hp))

/-- A further scope takes nothing away. -/
theorem cons {c : ClassContext} {scopes : List Region} (h : Grounded ⟨c, scopes⟩) (r : Region) :
    Grounded ⟨c, r :: scopes⟩ :=
  h.of_known rfl fun _ ⟨r, hr, hk⟩ => ⟨r, List.mem_cons_of_mem _ hr, hk⟩

/-- So it does behind a declaration. -/
theorem declareIn {c : ClassContext} {scopes : List Region} (h : Grounded ⟨c, scopes⟩)
    (name : String) : Grounded ⟨c, declareIn name scopes⟩ := by
  refine h.of_known rfl ?_
  rintro x ⟨r, hr, hk⟩
  cases scopes with
  | nil => cases hr
  | cons r₀ rest =>
    cases hr with
    | head => exact ⟨_, List.mem_cons_self, by simp [hk]⟩
    | tail _ hr => exact ⟨r, List.mem_cons_of_mem _ hr, hk⟩

/-- So it does inside a declaration. -/
theorem pendIn {c : ClassContext} {scopes : List Region} (h : Grounded ⟨c, scopes⟩)
    (name : String) : Grounded ⟨c, pendIn name scopes⟩ := by
  refine h.of_known rfl ?_
  rintro x ⟨r, hr, hk⟩
  cases scopes with
  | nil => cases hr
  | cons r₀ rest =>
    cases hr with
    | head => exact ⟨_, List.mem_cons_self, by simp [hk]⟩
    | tail _ hr => exact ⟨r, List.mem_cons_of_mem _ hr, hk⟩

/-- So it does behind a statement. -/
theorem after {c : ClassContext} {scopes : List Region} (h : Grounded ⟨c, scopes⟩) (s : Stmt) :
    Grounded ⟨c, s.after scopes⟩ := by
  rcases s.after_cases scopes with e | ⟨name, e⟩
  · rwa [e]
  · rw [e]
    exact h.declareIn name

/-- The methods of a class have a receiver and superclasses around them. -/
theorem methods (c : ClassContext) (id : NodeId) (scopes : List Region) :
    Grounded ⟨c, methodScopes id scopes⟩ where
  self _ := ⟨.receiver id, by simp [methodScopes], rfl⟩
  super _ := ⟨.supers id, by simp [methodScopes], rfl⟩

end Place.Grounded

/-! ### Steps of the resolver -/

namespace Resolver

/-- Putting a name changes nothing but the innermost scope. -/
theorem put_eq (name : String) (ready : Bool) :
    put name ready = modify fun r => { r with frames := putIn name ready r.frames } := by
  unfold put
  congr 1
  funext r
  split
  · next hf =>
    rw [hf, putIn, ← hf]
  · next hf => rw [hf, putIn]

/-- A declaration puts a name as pending and complains of one that is there already. Globals are not
declared. -/
theorem declare_apply (name : Token) (r : Resolver) :
    declare name r =
      (match r.frames with
      | [] => (pure () : Step)
      | f :: _ => do
        if (f.ready? name.lexeme).isSome then note name .redeclared
        put name.lexeme false) r := rfl

/-- A use is recorded with its distance if its name is declared in a scope. -/
theorem record_apply (id : NodeId) (name : String) (r : Resolver) :
    (record id name r).2 =
      match distance? r.frames name with
      | none => r
      | some d =>
        { r with
          distances := r.distances.insert id d
          targets := r.targets.alter id fun _ => target? r.frames d } := rfl

namespace Resolves

variable {p p₁ p₂ p₃ : Place} {us us₁ us₂ : List Use}

/-- Nothing happens. -/
theorem skip (p : Place) : Resolves p (pure ()) p [] := fun _ h =>
  ⟨h, id, fun _ => rfl, fun _ => nofun, fun _ _ => ⟨rfl, rfl⟩⟩

/-- Steps in a row. -/
theorem seq {x y : Step} (hx : Resolves p₁ x p₂ us₁) (hy : Resolves p₂ y p₃ us₂) :
    Resolves p₁ (do x; y) p₃ (us₁ ++ us₂) := by
  intro r hr
  have h₁ := hx r hr
  have h₂ := hy _ h₁.place
  -- A report of the first step is still there behind the second, so none of both means none of
  -- either.
  refine ⟨h₂.place, fun h => h₁.reports (h₂.reports h), fun h => ?_, fun h => ?_, fun id hid => ?_⟩
  · rw [List.foldl_append, ← h₁.tables (h₂.reports h)]
    exact h₂.tables h
  · intro u hu
    rcases List.mem_append.1 hu with hu | hu
    · exact h₁.known (h₂.reports h) u hu
    · exact h₂.known h u hu
  · rw [List.map_append, List.mem_append, not_or] at hid
    have f₁ := h₁.frame id hid.1
    have f₂ := h₂.frame id hid.2
    exact ⟨f₂.1.trans f₁.1, f₂.2.trans f₁.2⟩

/-- A first step that records nothing. -/
theorem pre {x y : Step} (hx : Resolves p₁ x p₂ []) (hy : Resolves p₂ y p₃ us) :
    Resolves p₁ (do x; y) p₃ us := hx.seq hy

/-- A last step that records nothing. -/
theorem post {x y : Step} (hx : Resolves p₁ x p₂ us) (hy : Resolves p₂ y p₃ []) :
    Resolves p₁ (do x; y) p₃ us := by
  have h := hx.seq hy
  rwa [List.append_nil] at h

/-- A change to the open scopes and the class alone. -/
theorem change {f : Resolver → Resolver} (hf : ∀ r : Resolver, r.At p → (f r).At p')
    (hr : ∀ r : Resolver, (f r).reports = r.reports) (ht : ∀ r : Resolver, (f r).tables = r.tables) :
    Resolves p (modify f) p' [] := fun r h =>
  ⟨hf r h, fun h => hr r ▸ h, fun _ => ht r, fun _ => nofun, fun _ _ => (ht r).symm ▸ ⟨rfl, rfl⟩⟩

/-- Where something is wrong, nothing is promised. -/
theorem note (p : Place) (token : Token) (misuse : Misuse) (us : List Use) :
    Resolves p (note token misuse) p us := fun _ h =>
  ⟨⟨h.inClass, h.frames⟩, nofun, nofun, nofun, fun _ _ => ⟨rfl, rfl⟩⟩

/-- A misuse that may be noted in front of a step. -/
theorem noteIf {x : Step} (c : Prop) [Decidable c] (token : Token) (misuse : Misuse)
    (hx : Resolves p₁ x p₂ us) :
    Resolves p₁ (do
      if c then Resolver.note token misuse
      x) p₂ us := by
  by_cases hc : c
  · simp only [if_pos hc]
    exact (note p₁ token misuse []).pre hx
  · simp only [if_neg hc]
    exact hx

/-- A step that may be left out in front of another one. -/
theorem unlessDo {x y : Step} (b : Bool) (hy : Resolves p₁ y p₂ us)
    (hxy : Resolves p₁ (do x; y) p₂ us) :
    Resolves p₁ (do
      unless b do x
      y) p₂ us := by
  cases b with
  | true => exact hy
  | false => exact hxy

/-- A scope is opened on the walk as well. -/
theorem openScope (c : ClassContext) (scopes : List Region) (origin : Origin) :
    Resolves ⟨c, scopes⟩ (openScope origin) ⟨c, ⟨origin, [], []⟩ :: scopes⟩ [] :=
  .change (fun _ h => ⟨h.inClass, .cons ⟨rfl, fun _ => rfl⟩ h.frames⟩) (fun _ => rfl) fun _ => rfl

/-- A scope is closed on the walk as well. -/
theorem closeScope (c : ClassContext) (scopes : List Region) :
    Resolves ⟨c, scopes⟩ closeScope ⟨c, scopes.tail⟩ [] := by
  refine .change (fun r h => ⟨h.inClass, ?_⟩) (fun _ => rfl) fun _ => rfl
  have hf := h.frames
  generalize r.frames = frames at hf
  cases hf with
  | nil => exact .nil
  | cons _ hrest => exact hrest

/-- The flag for functions is not seen by the walk. -/
theorem inFunction (p : Place) (b : Bool) :
    Resolves p (modify ({ · with inFunction := b })) p [] :=
  .change (fun _ h => ⟨h.inClass, h.frames⟩) (fun _ => rfl) fun _ => rfl

/-- The kind of a class is part of the place. -/
theorem inClass (c c' : ClassContext) (scopes : List Region) :
    Resolves ⟨c, scopes⟩ (modify ({ · with inClass := c' })) ⟨c', scopes⟩ [] :=
  .change (fun _ h => ⟨rfl, h.frames⟩) (fun _ => rfl) fun _ => rfl

/-- A name that is put into the innermost scope. -/
theorem put {c : ClassContext} {scopes scopes' : List Region} (name : String) (ready : Bool)
    (h : ∀ frames, Fit frames scopes → Fit (putIn name ready frames) scopes') :
    Resolves ⟨c, scopes⟩ (put name ready) ⟨c, scopes'⟩ [] := by
  rw [put_eq]
  exact .change (fun r hr => ⟨hr.inClass, h _ hr.frames⟩) (fun _ => rfl) fun _ => rfl

/-- A declaration makes a name pending. -/
theorem declare (c : ClassContext) (scopes : List Region) (name : Token) :
    Resolves ⟨c, scopes⟩ (declare name) ⟨c, pendIn name.lexeme scopes⟩ [] := by
  intro r hr
  rw [declare_apply]
  cases hf : r.frames with
  | nil =>
    have hfit := hr.frames
    rw [hf] at hfit
    cases hfit
    exact skip _ r hr
  | cons f rest => exact noteIf _ _ _ (put _ _ fun _ h => fit_pendIn h _ _) r hr

/-- A definition makes a pending name known. -/
theorem define (c : ClassContext) (scopes : List Region) (name : Token) :
    Resolves ⟨c, pendIn name.lexeme scopes⟩ (define name) ⟨c, declareIn name.lexeme scopes⟩ [] :=
  put _ _ fun _ h => fit_define h true

/-- A declaration that is complete at once. -/
theorem declared (c : ClassContext) (scopes : List Region) (name : Token) :
    Resolves ⟨c, scopes⟩ (do Resolver.declare name; Resolver.define name)
      ⟨c, declareIn name.lexeme scopes⟩ [] :=
  (declare c scopes name).pre (define c scopes name)

/-- A name that a new scope starts with. -/
theorem declaredAt (c : ClassContext) (origin : Origin) (scopes : List Region) (name : String) :
    Resolves ⟨c, ⟨origin, [], []⟩ :: scopes⟩ (Resolver.put name true)
      ⟨c, ⟨origin, [name], []⟩ :: scopes⟩ [] :=
  put _ _ fun _ h => (fit_pendIn_iff name).1 (fit_pendIn h _ _)

/-- A use is recorded with the scopes of the place. -/
theorem record (c : ClassContext) (scopes : List Region) (role : Role) (id : NodeId)
    (name : String) (h : role = .self ∨ role = .super → ∃ r ∈ scopes, r.knows name = true) :
    Resolves ⟨c, scopes⟩ (record id name) ⟨c, scopes⟩ [⟨role, id, name, scopes⟩] := by
  intro r hr
  -- The resolver counts the same scopes as the specification of the use.
  have e : (Resolver.record id name r).2 =
      { r with
        distances := (r.tables.record ⟨role, id, name, scopes⟩).distances
        targets := (r.tables.record ⟨role, id, name, scopes⟩).targets } := by
    have hd := hr.frames.distance? name
    unfold Tables.record Use.distance? Use.region?
    rw [record_apply, hd]
    cases h : scopes.findIdx? (·.knows name) with
    | none => rfl
    | some d =>
      dsimp only
      rw [hr.frames.target? h]
      rfl
  rw [e]
  refine ⟨⟨hr.inClass, hr.frames⟩, fun h => h, fun _ => rfl, fun _ u hu => ?_, fun x hx => ?_⟩
  · obtain rfl := List.mem_singleton.1 hu
    exact h
  · exact r.tables.same_record fun e => hx (by simp [e])

/-- The use of a variable is recorded. -/
theorem useName (c : ClassContext) (scopes : List Region) (use : NameUse) :
    Resolves ⟨c, scopes⟩ (useName use) ⟨c, scopes⟩ [use.use scopes] := by
  intro r hr
  exact noteIf _ _ _ (record c scopes .read use.id use.name.lexeme (by simp)) r hr

/-- The receiver is a misuse outside of classes, and is recorded inside of one. -/
theorem useSelf_apply (id : NodeId) (keyword : Token) (r : Resolver) :
    Resolver.useSelf id keyword r =
      (match r.inClass with
      | .outside => Resolver.note keyword .selfOutside
      | _ => Resolver.record id "self") r := rfl

/-- The use of a receiver is recorded in a grounded place. -/
theorem useSelf {c : ClassContext} {scopes : List Region} (h : Place.Grounded ⟨c, scopes⟩)
    (id : NodeId) (keyword : Token) :
    Resolves ⟨c, scopes⟩ (useSelf id keyword) ⟨c, scopes⟩ [⟨.self, id, "self", scopes⟩] := by
  intro r hr
  rw [useSelf_apply, hr.inClass]
  cases c with
  | outside => exact note _ _ _ _ r hr
  | plain => exact record _ _ _ _ _ (fun _ => h.self (by simp)) r hr
  | derived => exact record _ _ _ _ _ (fun _ => h.self (by simp)) r hr

/-- The superclasses are a misuse where there are none, and are recorded otherwise. -/
theorem useSuper_apply (id : NodeId) (keyword : Token) (r : Resolver) :
    Resolver.useSuper id keyword r =
      (match r.inClass with
      | .outside => Resolver.note keyword .superOutside
      | .plain => Resolver.note keyword .superWithoutSuperclass
      | .derived => Resolver.record id "super") r := rfl

/-- The use of superclasses is recorded in a grounded place. -/
theorem useSuper {c : ClassContext} {scopes : List Region} (h : Place.Grounded ⟨c, scopes⟩)
    (id : NodeId) (keyword : Token) :
    Resolves ⟨c, scopes⟩ (useSuper id keyword) ⟨c, scopes⟩ [⟨.super, id, "super", scopes⟩] := by
  intro r hr
  rw [useSuper_apply, hr.inClass]
  cases c with
  | outside => exact note _ _ _ _ r hr
  | plain => exact note _ _ _ _ r hr
  | derived => exact record _ _ _ _ _ (fun _ => h.super rfl) r hr

/-- A class that names itself is noted; every other superclass is a use. -/
theorem useSuperclass (c : ClassContext) (scopes : List Region) (className : String)
    (use : NameUse) :
    Resolves ⟨c, scopes⟩ (useSuperclass className use) ⟨c, scopes⟩ [use.use scopes] := by
  unfold Resolver.useSuperclass
  split
  · exact note _ _ _ _
  · exact useName c scopes use

/-- The superclasses of a class are used one after the other. -/
theorem useSuperclasses (c : ClassContext) (scopes : List Region) (className : String)
    (supers : List NameUse) :
    Resolves ⟨c, scopes⟩ (supers.forM (Resolver.useSuperclass className)) ⟨c, scopes⟩
      (supers.map (NameUse.use scopes)) := by
  induction supers with
  | nil => exact skip _
  | cons use rest ih => exact (useSuperclass c scopes className use).seq ih

/-- Places that look alike to the resolver can stand for each other. -/
theorem alike {c : ClassContext} {s₁ s₁' s₂ s₂' : List Region} {x : Step}
    (h₁ : ∀ frames, Fit frames s₁ → Fit frames s₁') (h₂ : ∀ frames, Fit frames s₂' → Fit frames s₂)
    (hx : Resolves ⟨c, s₁'⟩ x ⟨c, s₂'⟩ us) : Resolves ⟨c, s₁⟩ x ⟨c, s₂⟩ us := by
  intro r hr
  have h := hx r ⟨hr.inClass, h₁ _ hr.frames⟩
  exact ⟨⟨h.place.inClass, h₂ _ h.place.frames⟩, h.reports, h.tables, h.known, h.frame⟩

/-- The scope of a function knows its parameters, in whatever order they were declared. -/
theorem declareParams (c : ClassContext) (id : NodeId) (scopes : List Region)
    (params : List Param) :
    Resolves ⟨c, ⟨.call id, [], []⟩ :: scopes⟩ (declareParams params)
      ⟨c, .call id params :: scopes⟩ [] := by
  -- The parameters pile up in front of those declared before.
  have run : ∀ (params : List Param) (done : List String),
      Resolves ⟨c, ⟨.call id, done, []⟩ :: scopes⟩ (Resolver.declareParams params)
        ⟨c, ⟨.call id, (params.map (·.name.lexeme)).reverse ++ done, []⟩ :: scopes⟩ [] := by
    intro params
    induction params with
    | nil => exact fun done => skip _
    | cons p rest ih =>
      intro done
      rw [List.map_cons, List.reverse_cons, List.append_assoc]
      exact (declared c _ p.name).pre (ih (p.name.lexeme :: done))
  refine alike (fun _ h => h) (fun frames h => ?_) (run params [])
  cases h with
  | cons hf hrest =>
    refine .cons ⟨hf.origin, fun x => ?_⟩ hrest
    rw [hf.knows x]
    simp [Region.knows, Region.call]

/-- The check of a return uses nothing. -/
theorem checkReturn (p : Place) (keyword : Token) : Resolves p (checkReturn keyword) p [] := by
  intro r hr
  have e : Resolver.checkReturn keyword r =
      (if r.inFunction then (pure () : Step) else Resolver.note keyword .returnOutside) r := rfl
  rw [e]
  split
  · exact skip p r hr
  · exact note p _ _ _ r hr

end Resolves

/-! ### The syntax -/

mutual

/-- The resolver records the uses in an expression. -/
theorem resolves_expr {c : ClassContext} {scopes : List Region}
    (h : Place.Grounded ⟨c, scopes⟩) :
    ∀ e : Expr, Resolves ⟨c, scopes⟩ (expr e) ⟨c, scopes⟩ (e.uses scopes)
  | .assign id name value =>
    (resolves_expr h value).seq (.record _ _ .write id name.lexeme (by simp))
  | .binary _ left _ right | .logical _ left _ right =>
    (resolves_expr h left).seq (resolves_expr h right)
  | .call _ callee _ args named => by
    -- The uses of a call are listed from left to right, in another grouping.
    have hrest := (resolves_exprs h args).seq (resolves_namedArgs h named)
    have hall := (resolves_expr h callee).seq hrest
    rw [← List.append_assoc] at hall
    exact hall
  | .get _ object _ => resolves_expr h object
  | .set _ object _ value => (resolves_expr h value).seq (resolves_expr h object)
  | .group _ _ inner => resolves_expr h inner
  | .literal .. => .skip _
  | .list _ _ elements => resolves_exprs h elements
  | .self id keyword => .useSelf h id keyword
  | .super id keyword _ => .useSuper h id keyword
  | .unary _ _ right => resolves_expr h right
  | .var use => .useName _ _ use
  | .lambda fn => resolves_function h h (fun _ => Iff.rfl) fn

/-- Expressions in a row record their uses. -/
theorem resolves_exprs {c : ClassContext} {scopes : List Region}
    (h : Place.Grounded ⟨c, scopes⟩) :
    ∀ es : List Expr, Resolves ⟨c, scopes⟩ (exprs es) ⟨c, scopes⟩ (Expr.usesOf scopes es)
  | [] => .skip _
  | e :: rest => (resolves_expr h e).seq (resolves_exprs h rest)

/-- So do named arguments. -/
theorem resolves_namedArgs {c : ClassContext} {scopes : List Region}
    (h : Place.Grounded ⟨c, scopes⟩) :
    ∀ args : List NamedArg,
      Resolves ⟨c, scopes⟩ (namedArgs args) ⟨c, scopes⟩ (NamedArg.usesOf scopes args)
  | [] => .skip _
  | ⟨_, value⟩ :: rest => (resolves_expr h value).seq (resolves_namedArgs h rest)

/-- So do the defaults of parameters. -/
theorem resolves_defaults {c : ClassContext} {scopes : List Region}
    (h : Place.Grounded ⟨c, scopes⟩) :
    ∀ params : List Param,
      Resolves ⟨c, scopes⟩ (defaults params) ⟨c, scopes⟩ (Param.usesOf scopes params)
  | [] => .skip _
  | ⟨_, _, none, _⟩ :: rest => resolves_defaults h rest
  | ⟨_, _, some value, _⟩ :: rest => (resolves_expr h value).seq (resolves_defaults h rest)

/-- The resolver records the uses in a function. Its defaults lie at a place that looks like the
place of the function to the resolver. -/
theorem resolves_function {c : ClassContext} {outer scopes : List Region}
    (ho : Place.Grounded ⟨c, outer⟩) (h : Place.Grounded ⟨c, scopes⟩)
    (ha : ∀ frames, Fit frames scopes ↔ Fit frames outer) :
    ∀ fn : Lambda, Resolves ⟨c, scopes⟩ (function fn) ⟨c, scopes⟩ (fn.uses outer scopes)
  | ⟨id, _, _, params, body⟩ => by
    have hd := Resolves.alike (fun _ => (ha _).1) (fun _ => (ha _).2) (resolves_defaults ho params)
    refine hd.seq fun r hr => ?_
    have hb := resolves_stmts (h.cons (.call id params)) body
    have hclose := Resolves.closeScope c (Stmt.afterAll (.call id params :: scopes) body)
    rw [Stmt.tail_afterAll] at hclose
    exact ((Resolves.inFunction _ true).pre <| (Resolves.openScope c scopes (.call id)).pre <|
      (Resolves.declareParams c id scopes params).pre <| hb.post <|
      hclose.pre (.inFunction _ r.inFunction)) r hr

/-- So do the methods of a class. -/
theorem resolves_functions {c : ClassContext} {scopes : List Region}
    (h : Place.Grounded ⟨c, scopes⟩) :
    ∀ fns : List Lambda,
      Resolves ⟨c, scopes⟩ (functions fns) ⟨c, scopes⟩ (Lambda.usesOf scopes fns)
  | [] => .skip _
  | fn :: rest =>
    (resolves_function h h (fun _ => Iff.rfl) fn).seq (resolves_functions h rest)

/-- So does a block; its scope is closed again. -/
theorem resolves_block {c : ClassContext} {scopes : List Region}
    (h : Place.Grounded ⟨c, scopes⟩) :
    ∀ b : Block, Resolves ⟨c, scopes⟩ (block b) ⟨c, scopes⟩ (b.uses scopes)
  | ⟨id, _, body⟩ => by
    have hb := resolves_stmts (h.cons (.block id)) body
    have hclose := Resolves.closeScope c (Stmt.afterAll (.block id :: scopes) body)
    rw [Stmt.tail_afterAll] at hclose
    exact (Resolves.openScope c scopes (.block id)).pre (hb.post hclose)

/-- The resolver records the uses in a statement. -/
theorem resolves_stmt {c : ClassContext} {scopes : List Region}
    (h : Place.Grounded ⟨c, scopes⟩) :
    ∀ s : Stmt, Resolves ⟨c, scopes⟩ (stmt s) ⟨c, s.after scopes⟩ (s.uses scopes)
  | .block b => resolves_block h b
  | .varDecl _ name none => .declared c scopes name
  | .varDecl _ name (some value) =>
    (Resolves.declare c scopes name).pre <|
      (resolves_expr (h.pendIn name.lexeme) value).post (.define c scopes name)
  | .function _ fn =>
    (Resolves.declare c scopes fn.token).pre <| (Resolves.define c scopes fn.token).pre <|
      resolves_function (h.pendIn fn.token.lexeme) (h.declareIn fn.token.lexeme)
        (fun _ => (fit_pendIn_iff fn.token.lexeme).symm) fn
  | .classDecl id name supers methods => by
    intro r hr
    -- The name of the class is pending in the list of its superclasses.
    have hs := Resolves.alike
      (fun _ => (fit_pendIn_iff name.lexeme).2) (fun _ => (fit_pendIn_iff name.lexeme).1)
      (Resolves.useSuperclasses .plain (pendIn name.lexeme scopes) name.lexeme supers)
    have hm (c' : ClassContext) := resolves_functions
      (Place.Grounded.methods c' id (declareIn name.lexeme scopes)) methods
    have hrest (c' : ClassContext) :=
      (Resolves.openScope c' (declareIn name.lexeme scopes) (.supers id)).pre <|
      (Resolves.declaredAt c' (.supers id) _ "super").pre <|
      (Resolves.openScope c' _ (.receiver id)).pre <|
      (Resolves.declaredAt c' (.receiver id) _ "self").pre <| (hm c').post <|
      (Resolves.closeScope c' _).pre <| (Resolves.closeScope c' _).pre <|
      Resolves.inClass c' r.inClass (declareIn name.lexeme scopes)
    -- The methods are resolved once in a context that hangs on whether there are superclasses.
    have hall := (Resolves.inClass c .plain scopes).pre <|
      (Resolves.declare .plain scopes name).pre <| (Resolves.define .plain scopes name).pre <|
      hs.seq <| Resolves.unlessDo supers.isEmpty (hrest .plain)
        ((Resolves.inClass _ .derived _).pre (hrest .derived))
    rw [hr.inClass] at hall
    -- The context around the class comes back behind it.
    have e : r.inClass = c := hr.inClass
    subst e
    exact hall r hr
  | .expr _ value => resolves_expr h value
  | .ifElse _ _ condition body none => (resolves_expr h condition).seq (resolves_block h body)
  | .ifElse _ _ condition body (some otherwise) => by
    have hall := (resolves_expr h condition).seq ((resolves_block h body).seq
      (resolves_stmt h otherwise))
    rw [← List.append_assoc] at hall
    exact hall
  | .whileLoop _ _ condition body => (resolves_expr h condition).seq (resolves_block h body)
  | .forIn id _ name iterable body =>
    (resolves_expr h iterable).seq <| (Resolves.openScope c scopes (.loop id)).pre <|
      (Resolves.declare c _ name).pre <| (Resolves.define c _ name).pre <|
      (resolves_block (h.cons (.loop id name)) body).post (.closeScope c _)
  | .ret _ keyword none => .checkReturn _ keyword
  | .ret _ keyword (some value) => (Resolves.checkReturn _ keyword).pre (resolves_expr h value)

/-- The resolver records the uses in statements in a row. -/
theorem resolves_stmts {c : ClassContext} {scopes : List Region}
    (h : Place.Grounded ⟨c, scopes⟩) :
    ∀ body : List Stmt,
      Resolves ⟨c, scopes⟩ (stmts body) ⟨c, Stmt.afterAll scopes body⟩ (Stmt.usesOf scopes body)
  | [] => .skip _
  | s :: rest => (resolves_stmt h s).seq (resolves_stmts (h.after s) rest)

end

/-! ### Programs -/

/-- A resolver between programs. -/
abbrev Ready (r : Resolver) : Prop := r.At ⟨.outside, []⟩

/-- A new resolver is ready. -/
theorem ready_empty : Ready {} := ⟨rfl, .nil⟩

/-- Outside of all classes a place is grounded. -/
theorem grounded_outside : Place.Grounded ⟨.outside, []⟩ := ⟨nofun, nofun⟩

/-- What the resolver makes of a program. -/
theorem run_resolved {r : Resolver} (hr : r.Ready) (program : List Stmt) :
    Resolved ⟨.outside, Stmt.afterAll [] program⟩ (Stmt.usesOf [] program)
      { r with reports := [] } (r.run program).2 :=
  resolves_stmts grounded_outside program _ ⟨hr.inClass, hr.frames⟩

/-- After a program the resolver is ready for the next one. -/
theorem ready_run {r : Resolver} (hr : r.Ready) (program : List Stmt) : (r.run program).2.Ready := by
  have h := (run_resolved hr program).place
  rwa [Stmt.afterAll_nil] at h

/-- Only the uses of a program are recorded. -/
theorem run_same {r : Resolver} (hr : r.Ready) (program : List Stmt) {id : NodeId}
    (h : id ∉ (Stmt.usesOf [] program).map Use.id) :
    (r.run program).2.tables.Same r.tables id :=
  (run_resolved hr program).frame id h

/-- If nothing is wrong with a program, the tables say of each use what is to be said. -/
theorem run_holds {r : Resolver} (hr : r.Ready) {program : List Stmt}
    (hp : (r.run program).1 = []) (hn : ((Stmt.usesOf [] program).map Use.id).Nodup)
    (hf : ∀ u ∈ Stmt.usesOf [] program, r.distances[u.id]? = none ∧ r.targets[u.id]? = none)
    {u : Use} (hu : u ∈ Stmt.usesOf [] program) : (r.run program).2.tables.Holds u := by
  have h := (run_resolved hr program).tables (List.reverse_eq_nil_iff.1 hp)
  rw [h]
  exact Tables.holds_foldl hn _ hf hu

/-- If nothing is wrong with a program, receivers and superclasses are used in classes. -/
theorem run_known {r : Resolver} (hr : r.Ready) {program : List Stmt}
    (hp : (r.run program).1 = []) : Known (Stmt.usesOf [] program) :=
  (run_resolved hr program).known (List.reverse_eq_nil_iff.1 hp)

end Resolver

end ClassScript.Scope
