import ClassScript.Proofs.Typing.Grounded
import ClassScript.Proofs.Typing.Observes

/-!
# Native classes and classes of programs

A class type within reach of a checker is that of a native class, the same at all times, or that of
a class of a program. The places of the native classes come first and hold no members; the classes
of programs come behind them and inherit from each other only. No two classes have one identity. A
`Roster` of the classes gives a law, and where a class is made the roster gets longer, so a check
keeps to such laws, and so does a rejected program whose effects are taken back.
-/

namespace ClassScript.Typing

/-! ### Classes -/

/-- A class of a program. Its place is behind those of the native classes, and its superclasses are
classes of programs. -/
inductive ClassType.User : ClassType → Prop where
  /-- A class of classes of programs. -/
  | mk {id : Nat} {name : String} {supers : List ClassType} (hid : NativeClass.all.length ≤ id)
    (hs : ∀ c ∈ supers, User c) : User ⟨id, name, supers, none⟩

/-- A class type is that of a native class, or of a class of a program. -/
def ClassType.Genuine (c : ClassType) : Prop := (∃ n, c = nativeType n) ∨ c.User

namespace ClassType

variable {c d : ClassType} {n : NativeClass}

/-- The place of a class of a program is behind those of the native classes. -/
theorem User.le_id (h : c.User) : NativeClass.all.length ≤ c.id := by
  cases h with
  | mk hid _ => exact hid

/-- Its superclasses are classes of programs. -/
theorem User.supers (h : c.User) : ∀ d ∈ c.supers, d.User := by
  cases h with
  | mk _ hs => exact hs

/-- It is no native class. -/
theorem User.native? (h : c.User) : c.native? = none := by
  cases h
  rfl

/-- A genuine class that is not native is one of a program. -/
theorem Genuine.user (h : c.Genuine) (hn : c.native? = none) : c.User := by
  rcases h with ⟨n, rfl⟩ | h
  · cases hn
  · exact h

/-- A class that stands for a native class is the type of that class. -/
theorem Genuine.eq_nativeType (h : c.Genuine) (hn : c.native? = some n) : c = nativeType n := by
  rcases h with ⟨m, rfl⟩ | h
  · cases hn
    rfl
  · rw [h.native?] at hn
    cases hn

/-- The superclasses of a genuine class are genuine. -/
theorem Genuine.supers (h : c.Genuine) : ∀ d ∈ c.supers, d.Genuine := by
  rcases h with ⟨n, rfl⟩ | h
  · exact fun d hd => .inl (super_nativeType hd).2
  · exact fun d hd => .inr (h.supers d hd)

end ClassType

/-- Every native class is in the list of them. -/
theorem mem_all (c : NativeClass) : c ∈ NativeClass.all := by
  cases c <;> decide

/-- The places of the native classes come first. -/
theorem nativeId_lt (c : NativeClass) : nativeId c < NativeClass.all.length :=
  List.idxOf_lt_length_iff.2 (mem_all c)

/-- No two native classes have one place. -/
theorem nativeId_injective {c d : NativeClass} (h : nativeId c = nativeId d) : c = d :=
  (List.idxOf_inj (mem_all c)).1 h

/-! ### The law -/

/-- The places of the native classes hold no members. -/
def NativesBare (bodies : Array ClassBody) : Prop :=
  ∀ i < NativeClass.all.length, bodies[i]? = some {}

namespace NativesBare

variable {bodies : Array ClassBody}

/-- There is a place for every native class. -/
theorem length_le (h : NativesBare bodies) : NativeClass.all.length ≤ bodies.size := by
  by_contra hlt
  have hlast := h bodies.size (Nat.not_le.1 hlt)
  rw [Array.getElem?_eq_none (Nat.le_refl _)] at hlast
  cases hlast

/-- A class that is made leaves the places of the native classes bare. -/
theorem push (h : NativesBare bodies) (b : ClassBody) : NativesBare (bodies.push b) := by
  intro i hi
  rw [Array.getElem?_push, if_neg (Nat.ne_of_lt (Nat.lt_of_lt_of_le hi h.length_le))]
  exact h i hi

/-- A place behind those of the native classes may change. -/
theorem modify (h : NativesBare bodies) {j : Nat} (hj : NativeClass.all.length ≤ j)
    (u : ClassBody → ClassBody) : NativesBare (bodies.modify j u) := by
  intro i hi
  rw [Array.getElem?_modify, if_neg (Nat.ne_of_gt (Nat.lt_of_lt_of_le hi hj))]
  exact h i hi

end NativesBare

/-- In every signature there are as many types as parameters. -/
def Sized (sigs : Array Signature) : Prop :=
  ∀ (f : SignatureId) sig, sigs[f]? = some sig → sig.paramTypes.length = sig.params.length

namespace Sized

variable {sigs : Array Signature}

/-- A function that is made needs as many types as parameters. -/
theorem push (h : Sized sigs) {sig : Signature}
    (hsig : sig.paramTypes.length = sig.params.length) : Sized (sigs.push sig) := by
  intro f sig' hf
  rw [Array.getElem?_push] at hf
  split at hf
  · cases hf
    exact hsig
  · exact h f sig' hf

/-- The parameters and their types stay. -/
theorem modify (h : Sized sigs) (f : SignatureId) {u : Signature → Signature}
    (hu : ∀ sig, (u sig).paramTypes = sig.paramTypes ∧ (u sig).params = sig.params) :
    Sized (sigs.modify f u) := by
  intro g sig hg
  rw [Array.getElem?_modify] at hg
  split at hg
  · obtain ⟨old, hold, rfl⟩ := Option.map_eq_some_iff.1 hg
    rw [(hu old).1, (hu old).2]
    exact h g old hold
  · exact h g sig hg

/-- A function has as many types as parameters, and a number without a function has none of both. -/
theorem length_signature {s : Checker} (h : Sized s.signatures) (f : SignatureId) :
    (s.signature f).paramTypes.length = (s.signature f).params.length := by
  unfold Checker.signature
  cases hf : s.signatures[f]? with
  | none => rfl
  | some sig => exact h f sig hf

end Sized

/-- The class types that a check may know. -/
structure Roster where
  /-- The types. -/
  knows : ClassType → Prop
  /-- The native classes are always known. -/
  native (c : NativeClass) : knows (nativeType c)
  /-- No other class types are known than those of native classes and of classes of programs. -/
  genuine {c : ClassType} (hc : knows c) : c.Genuine
  /-- With a class its superclasses are known. -/
  supers {c d : ClassType} (hc : knows c) (hd : d ∈ c.supers) : knows d
  /-- There is one class for an identity. -/
  unique {c d : ClassType} (hc : knows c) (hd : knows d) (hid : c.id = d.id) : c = d

namespace Roster

/-- A roster is later than another one if it has more classes. -/
instance : Preorder Roster where
  le T T' := ∀ c, T.knows c → T'.knows c
  le_refl _ _ h := h
  le_trans _ _ _ h h' c hc := h' c (h c hc)

/-- The native classes. -/
def natives : Roster where
  knows c := ∃ n, c = nativeType n
  native n := ⟨n, rfl⟩
  genuine hc := .inl hc
  supers := by
    rintro _ d ⟨n, rfl⟩ hd
    exact (super_nativeType hd).2
  unique := by
    rintro _ _ ⟨n, rfl⟩ ⟨m, rfl⟩ hid
    rw [nativeId_injective hid]

/-- One more class, with an identity that no other one has. -/
def add (T : Roster) (c : ClassType) (hc : c.User) (hs : ∀ d ∈ c.supers, T.knows d)
    (hid : ∀ d, T.knows d → d.id ≠ c.id) : Roster where
  knows d := T.knows d ∨ d = c
  native n := .inl (T.native n)
  genuine := by
    rintro d (hd | rfl)
    · exact T.genuine hd
    · exact .inr hc
  supers := by
    rintro d p (hd | rfl) hp
    · exact .inl (T.supers hd hp)
    · exact .inl (hs p hp)
  unique := by
    rintro d p (hd | rfl) (hp | rfl) heq
    · exact T.unique hd hp heq
    · exact absurd heq (hid d hd)
    · exact absurd heq.symm (hid p hp)
    · rfl

/-- The known classes have a place in the table of classes, where the native classes have no
members, and the parameters of functions have types. -/
structure Tables (T : Roster) (sigs : Array Signature) (bodies : Array ClassBody) : Prop where
  /-- In every signature there are as many types as parameters. -/
  sized : Sized sigs
  /-- The native classes have no members. -/
  bare : NativesBare bodies
  /-- Every known class has a place. -/
  place (c : ClassType) (hc : T.knows c) : c.id < bodies.size

/-- What is known of a class of a program changes. -/
theorem Tables.modify {T : Roster} {sigs : Array Signature} {bodies : Array ClassBody}
    (h : T.Tables sigs bodies) {i : Nat} (hi : NativeClass.all.length ≤ i)
    (u : ClassBody → ClassBody) : T.Tables sigs (bodies.modify i u) where
  sized := h.sized
  bare := h.bare.modify hi u
  place c hc := by
    rw [Array.size_modify]
    exact h.place c hc

/-- All class types in a state are known, and the tables are as the roster has it. -/
def law (T : Roster) : Law where
  classes := T.knows
  fresh := ClassType.User
  tables := T.Tables
  native := T.native
  sign h _ hsig := ⟨h.sized.push hsig, h.bare, h.place⟩
  mark h f := ⟨h.sized.modify f fun _ => ⟨rfl, rfl⟩, h.bare, h.place⟩
  settle h f _ := ⟨h.sized.modify f fun _ => ⟨rfl, rfl⟩, h.bare, h.place⟩
  member h _ hc _ _ := h.modify hc.le_id _
  field h _ hc hn _ _ := h.modify ((T.genuine hc).user hn).le_id _

/-- Where a class is made it becomes known. -/
def laws : Laws where
  Stage := Roster
  law := law
  classes_mono {T T'} (hT : ∀ c, T.knows c → T'.knows c) c hc := hT c hc
  fresh_mono _ _ hc := hc
  make {T _ bodies} h name supers hs := by
    have huser : ClassType.User ⟨bodies.size, name, supers, none⟩ :=
      .mk h.bare.length_le fun c hc => (T.genuine (hs c hc).1).user (hs c hc).2
    refine ⟨T.add _ huser (fun d hd => (hs d hd).1) fun d hd => Nat.ne_of_lt (h.place d hd),
      fun _ hc => .inl hc, ⟨.inr rfl, huser⟩, h.sized, h.bare.push {}, ?_⟩
    rintro c (hc | rfl)
    · rw [Array.size_push]
      exact Nat.lt_succ_of_lt (h.place c hc)
    · rw [Array.size_push]
      exact Nat.lt_succ_self _

end Roster

namespace Checker

variable {s t : Checker}

/-! ### What is within reach -/

section Reach

variable {P : ClassType → Prop}

/-- The types that a state mentions are of classes that have the property. -/
theorem Only.mentions (h : s.Only P) {t : Ty} (ht : s.Mentions t) : t.Only P := by
  cases ht with
  | param hf ht => exact (h.signatures _ _ hf).paramTypes _ ht
  | result hf ht => exact (h.signatures _ _ hf).returns _ ht
  | resultByArg hf hp => exact (h.signatures _ _ hf).returnsByArg _ hp
  | field hb ht => exact h.attributes _ _ hb _ _ ht
  | node ht => exact h.types _ _ ht
  | global ht => exact h.globals _ _ ht
  | «local» hsc hp ht => exact h.locals _ hsc _ hp _ ht
  | returned hc hp => exact (h.context _ hc).returns _ hp

/-- A property of all class types in a state that goes up to the superclasses is one of all class
types within reach. -/
theorem Only.hasClass (h : s.Only P) (hnative : ∀ c, P (nativeType c))
    (hsupers : ∀ c, P c → ∀ d ∈ c.supers, P d) {c : ClassType} (hc : s.HasClass c) : P c := by
  induction hc with
  | native c => exact hnative c
  | «instance» ht => exact h.mentions ht
  | «class» ht => exact h.mentions ht
  | enclosing hctx hc => exact (h.context _ hctx).class? _ hc
  | super _ hd ih => exact hsupers _ ih _ hd

end Reach

/-- The classes within reach of a state under the law of a roster are known to the roster. -/
theorem knows_of_hasClass {T : Roster} (h : T.law.Holds s) {c : ClassType} (hc : s.HasClass c) :
    T.knows c :=
  h.only.hasClass T.native (fun _ hc _ hd => T.supers hc hd) hc

/-! ### Between programs -/

variable {T T' : Roster}

/-- Fields of classes of programs are put back. -/
theorem law_restoreFields {fields : List (Nat × Std.TreeMap String Ty)}
    (hf : ∀ p ∈ fields, NativeClass.all.length ≤ p.1 ∧
      ∀ (name : String) u, p.2[name]? = some u → u.Only T.knows)
    (h : T.law.Holds t) :
    T.law.Holds { t with
      bodies := fields.foldl (fun bs (id, attributes) => bs.modify id ({ · with attributes }))
        t.bodies } := by
  induction fields generalizing t with
  | nil => exact h
  | cons p rest ih =>
    obtain ⟨⟨hid, hp⟩, hrest⟩ := List.forall_mem_cons.1 hf
    have honly := h.only.modifyBody p.1 (u := ({ · with attributes := p.2 })) fun _ _ => hp
    exact ih hrest ⟨honly, Roster.Tables.modify h.tables hid ({ · with attributes := p.2 })⟩

/-- What a check of a program did is taken back. -/
theorem law_restore (hT : T ≤ T') (h : T.law.Holds s) (ht : T'.law.Holds t) :
    T'.law.Holds (t.restore s.globals s.globalAttributes) := by
  have hs : s.Only T'.knows := h.only.mono hT
  -- The fields that are put back were known before the program.
  have hold : ∀ p ∈ s.globalAttributes, NativeClass.all.length ≤ p.1 ∧
      ∀ (name : String) u, p.2[name]? = some u → u.Only T'.knows := by
    rintro ⟨id, attributes⟩ hp
    obtain ⟨name, c, hc, hnative, hpair⟩ := mem_globalAttributes.1 hp
    cases hpair
    have hknown : T'.knows c := hs.globals name (.class c) hc
    exact ⟨((T'.genuine hknown).user hnative).le_id, fun _ _ => hs.ownAttribute⟩
  have hfields := law_restoreFields hold ht
  have honly := hfields.only
  exact ⟨⟨honly.signatures, honly.attributes, honly.types, hs.globals, honly.locals,
    honly.context⟩, hfields.tables⟩

/-- Between programs the roster is as it was. -/
theorem law_idle (h : T.law.Holds s) : T.law.Holds s.idle := h.of_eq h.only.idle rfl rfl

/-- A check of a program ends, early or not, under the law of a later roster. -/
theorem law_final (h : T.law.Holds s) (program : List Stmt) :
    ∃ T', T ≤ T' ∧ T'.law.Holds ((Check.stmts program).final s.idle) := by
  have hrun : Check.Abides Roster.laws T (Check.stmts program) :=
    Check.abides_stmts (R := Roster.laws) T program
  obtain ⟨T', hT, hfinal, -⟩ := hrun.run T (le_refl T) s.idle (law_idle h)
  exact ⟨T', hT, hfinal⟩

/-- After a program the roster has the classes of the program as well. -/
theorem law_check (h : T.law.Holds s) (program : List Stmt) :
    ∃ T', T ≤ T' ∧ T'.law.Holds (s.check program).2 := by
  obtain ⟨T', hT, hfinal⟩ := law_final h program
  refine ⟨T', hT, ?_⟩
  unfold Check.final at hfinal
  unfold check
  -- An accepted program leaves its state, and any other one what is restored from it.
  cases hr : Check.stmts program s.idle with
  | ok a s' =>
    rw [hr] at hfinal
    exact hfinal
  | error e s' =>
    rw [hr] at hfinal
    have hrestored := law_idle (law_restore hT h hfinal)
    cases e <;> exact hrestored

/-- A global name of the machine is of a native class. -/
theorem law_seed (h : T.law.Holds s) (name : String) (seed : Seed) :
    T.law.Holds (s.seed name seed) := by
  cases seed with
  | nativeClass c =>
    exact h.of_eq (h.only.insertGlobal name (only_some (t := .class (nativeType c)) (T.native c)))
      rfl rfl
  | other =>
    exact h.of_eq (h.only.insertGlobal name (only_some (t := objectType) (T.native .object)))
      rfl rfl
  | nativeFunction f =>
    have hsig := h.only.nativeSignature T.native f.name f.params f.returns
    have hfunction : (Ty.function s.signatures.size).Only T.knows := trivial
    exact ⟨(h.only.pushSignature hsig).insertGlobal name (only_some hfunction),
      T.law.sign h.tables (List.length_map _)⟩

/-- So are all of them. -/
theorem law_seeds (globals : List (String × Seed)) (h : T.law.Holds s) :
    T.law.Holds (globals.foldl (fun s (name, v) => s.seed name v) s) := by
  induction globals generalizing s with
  | nil => exact h
  | cons g rest ih => exact ih (law_seed h g.1 g.2)

/-- The state with nothing but the native classes. -/
theorem law_natives :
    Roster.natives.law.Holds { bodies := Array.replicate NativeClass.all.length {} } where
  -- Nothing has a type yet, and the classes have nothing of their own.
  only := {
    signatures := nofun
    attributes := fun i b hb name t ht => by
      rw [Array.getElem?_replicate] at hb
      split at hb
      · cases hb
        simp at ht
      · cases hb
    types := fun id t ht => by simp at ht
    globals := fun name t ht => by simp at ht
    locals := List.forall_mem_nil _
    context := nofun }
  tables := by
    refine ⟨fun f sig hf => by simp at hf, fun i hi => by
      rw [Array.getElem?_replicate, if_pos hi], ?_⟩
    rintro _ ⟨n, rfl⟩
    rw [Array.size_replicate]
    exact nativeId_lt n

/-- The classes of a checker are on a roster. -/
theorem Reachable.roster (h : s.Reachable) : ∃ T : Roster, T.law.Holds s := by
  induction h with
  | seeded globals => exact ⟨.natives, law_seeds globals law_natives⟩
  | checked _ program ih =>
    obtain ⟨T, hT⟩ := ih
    obtain ⟨T', -, hT'⟩ := law_check hT program
    exact ⟨T', hT'⟩

/-- So are those of a checker where the check of a further program ends. -/
theorem Reachable.roster_final (h : s.Reachable) (program : List Stmt) :
    ∃ T : Roster, T.law.Holds ((Check.stmts program).final s.idle) := by
  obtain ⟨T, hT⟩ := h.roster
  obtain ⟨T', -, hT'⟩ := law_final hT program
  exact ⟨T', hT'⟩

end Checker

end ClassScript.Typing
