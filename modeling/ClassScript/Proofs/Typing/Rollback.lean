import ClassScript.Parse.Grammar
import ClassScript.Proofs.Typing.Closes
import ClassScript.Proofs.Typing.Mirrors
import ClassScript.Session

/-!
# What a rejected program leaves behind

A rejected program leaves its functions and classes behind, but nothing refers to them: the state
afterwards is the one before it with the functions and classes that are made later renamed, so that
later programs get the same verdicts and the same global types. Two things are not put back. The
signatures of native methods that were used for the first time are kept, with the classes that their
types named at that moment, and so are the fields of classes that no global name holds. `Untouched`
says that the program changed neither.
-/

namespace ClassScript.Typing

/-! ### What is put back -/

namespace Checker

variable {s : Checker}

/-- The fields that are put back are those of the classes that global names hold. -/
theorem mem_globalAttributes {id : Nat} {attributes : Std.TreeMap String Ty compare} :
    (id, attributes) ∈ s.globalAttributes ↔ ∃ (name : String) (c : ClassType),
      s.globals[name]? = some (some (.class c)) ∧ c.native? = none ∧
        (id, attributes) = (c.id, (s.body c).attributes) := by
  unfold globalAttributes
  rw [List.mem_filterMap]
  constructor
  · rintro ⟨⟨name, g⟩, hmem, hp⟩
    have hg : s.globals[name]? = some g := Std.TreeMap.mem_toList_iff_getElem?_eq_some.1 hmem
    -- Of the types of global names only classes have fields, and only those of users.
    rcases g with _ | (c | c | f)
    · cases hp
    · cases hp
    · dsimp only at hp
      split at hp
      · next hnative =>
        cases hp
        exact ⟨name, c, hg, Option.isNone_iff_eq_none.1 hnative, rfl⟩
      · cases hp
    · cases hp
  · rintro ⟨name, c, hg, hnative, hp⟩
    cases hp
    refine ⟨(name, some (.class c)), Std.TreeMap.mem_toList_iff_getElem?_eq_some.2 hg, ?_⟩
    dsimp only
    rw [if_pos (Option.isNone_iff_eq_none.2 hnative)]

/-- What is put back leaves as many classes as there were. -/
theorem size_bodies_restore (s t : Checker) :
    (t.restore s.globals s.globalAttributes).bodies.size = t.bodies.size := by
  unfold restore
  induction s.globalAttributes generalizing t with
  | nil => rfl
  | cons p rest ih =>
    have hrest := ih { t with bodies := t.bodies.modify p.1 ({ · with attributes := p.2 }) }
    exact hrest.trans (Array.size_modify ..)

end Checker

/-! ### Closed states between programs -/

namespace Closed

variable {base e : Extent} {s t : Checker}

/-- Between programs a closed state is closed. -/
theorem idle (h : Closed base e s) : Closed base e s.idle where
  base_le := h.base_le
  signatures := h.signatures
  bodies := h.bodies
  types := h.types
  globals := h.globals
  locals := nofun
  context := nofun
  natives := h.natives

/-- Between two programs every function and class is older than the next program. -/
theorem rebase (h : Closed base s.extent s) : Closed s.extent s.extent s.idle where
  base_le := le_refl _
  signatures := h.signatures
  bodies i b hb := by
    have hi : i < s.bodies.size := (Array.getElem?_eq_some_iff.1 hb).1
    have hbody := h.bodies i b hb
    refine ⟨fun name f hf => ⟨(hbody.members name f hf).1, fun hle => ?_⟩, hbody.attributes⟩
    exact absurd hi (Nat.not_lt.2 hle)
  types := h.types
  globals := h.globals
  locals := nofun
  context := nofun
  natives := h.natives

/-- The fields of classes may be put back to types that exist. -/
theorem restoreFields (h : Closed base e t) {fields : List (Nat × Std.TreeMap String Ty)}
    (hf : ∀ p ∈ fields, ∀ (name : String) u, p.2[name]? = some u → u.Within e) :
    Closed base e { t with
      bodies := fields.foldl (fun bs (id, attributes) => bs.modify id ({ · with attributes }))
        t.bodies } := by
  induction fields generalizing t with
  | nil => exact h
  | cons p rest ih =>
    obtain ⟨hp, hrest⟩ := List.forall_mem_cons.1 hf
    have hmodified := h.modifyBody p.1 (u := ({ · with attributes := p.2 })) fun b hb =>
      ⟨hb.members, hp⟩
    exact ih hmodified hrest

/-- So may the global names with them. -/
theorem restore (h : Closed base e s) (ht : Closed base e t) :
    Closed base e (t.restore s.globals s.globalAttributes) := by
  have hfields : ∀ p ∈ s.globalAttributes, ∀ (name : String) u,
      p.2[name]? = some u → u.Within e := by
    rintro ⟨id, attributes⟩ hp name u hu
    obtain ⟨_, c, _, _, hc⟩ := Checker.mem_globalAttributes.1 hp
    cases hc
    exact (h.body c).attributes name u hu
  have hbodies := ht.restoreFields hfields
  exact ⟨ht.base_le, ht.signatures, hbodies.bodies, ht.types, h.globals, ht.locals, ht.context,
    ht.natives⟩

end Closed

/-- Fields that are put back leave the methods alone. -/
theorem Keeps.restore {base : Extent} (s t : Checker) :
    Keeps base t (t.restore s.globals s.globalAttributes) := by
  have hfields : ∀ (fields : List (Nat × Std.TreeMap String Ty)) (t : Checker),
      Keeps base t { t with
        bodies := fields.foldl (fun bs (id, attributes) => bs.modify id ({ · with attributes }))
          t.bodies } := by
    intro fields
    -- On the classes; to put fields back changes no class but in its fields.
    induction fields with
    | nil => exact fun t => .refl base t
    | cons p rest ih =>
      intro t
      have hfirst : Keeps base t
          { t with bodies := t.bodies.modify p.1 ({ · with attributes := p.2 }) } :=
        .modifyBody (.inr fun _ => rfl)
      exact hfirst.trans (ih _)
  have hrestored := hfields s.globalAttributes t
  exact ⟨hrestored.extent, hrestored.signatures, hrestored.members⟩

namespace Checker

variable {s : Checker}

/-- A check of a program, accepted or not, ends in a closed state that keeps what is older. -/
theorem closed_check (h : Closed s.extent s.extent s.idle) (program : List Stmt) :
    Closed s.extent (s.check program).2.extent (s.check program).2 ∧
      Keeps s.extent s (s.check program).2 := by
  have hrun := (Check.closes_stmts s.extent program).state s.idle h (le_refl _)
  have hstart : Keeps s.extent s s.idle := .of_eq rfl rfl
  unfold Check.final at hrun
  unfold check
  cases hr : Check.stmts program s.idle with
  | ok a s' =>
    rw [hr] at hrun
    exact ⟨hrun.1, hstart.trans hrun.2⟩
  | error e s' =>
    rw [hr] at hrun
    obtain ⟨hclosed, hkeeps⟩ := hrun
    -- What is put back was there in front of the check, so it exists behind it.
    have hkeeps' : Keeps s.extent s' (s'.restore s.globals s.globalAttributes).idle :=
      (Keeps.restore s s').trans (.of_eq rfl rfl)
    have hrestored : Closed s.extent s'.extent (s'.restore s.globals s.globalAttributes).idle :=
      ((h.mono hkeeps.extent).restore hclosed).idle
    have hboth := And.intro (hrestored.mono hkeeps'.extent) (hstart.trans (hkeeps.trans hkeeps'))
    cases e <;> exact hboth

/-- The states that a checker can be in. -/
inductive Reachable : Checker → Prop where
  /-- The state that knows given globals. -/
  | seeded (globals : List (String × Seed)) : Reachable (ofGlobals globals)
  /-- The state behind the check of a program, accepted or not. -/
  | checked {s : Checker} (h : Reachable s) (program : List Stmt) : Reachable (s.check program).2

/-- A global name of the machine has a type that exists. -/
theorem closed_seed {base : Extent} (h : Closed base s.extent s) (name : String) (seed : Seed) :
    Closed base (s.seed name seed).extent (s.seed name seed) := by
  cases seed with
  | nativeClass c => exact h.insertGlobal name (.some (t := .class (nativeType c)) (.native c))
  | other => exact h.insertGlobal name (.some (within_objectType _))
  | nativeFunction f =>
    have hkeeps := Keeps.pushSignature h.base_le
      (Check.nativeSignature s f.name f.params f.returns)
    have hpushed := (h.pushSignature (h.nativeSignature f.name f.params f.returns)).mono hkeeps.extent
    refine hpushed.insertGlobal name (.some (t := .function s.signatures.size) ?_)
    simp [Ty.Within, extent]

/-- A global name of the machine makes no class. -/
theorem size_seed (s : Checker) (name : String) (seed : Seed) :
    (s.seed name seed).bodies = s.bodies := by
  cases seed <;> rfl

/-- All global names of the machine have types that exist. -/
theorem closed_seeds (globals : List (String × Seed)) {base : Extent}
    (h : Closed base s.extent s) :
    Closed base (globals.foldl (fun s (name, v) => s.seed name v) s).extent
      (globals.foldl (fun s (name, v) => s.seed name v) s) := by
  induction globals generalizing s with
  | nil => exact h
  | cons g rest ih => exact ih (closed_seed h g.1 g.2)

/-- They make no classes. -/
theorem size_seeds (globals : List (String × Seed)) (s : Checker) :
    (globals.foldl (fun s (name, v) => s.seed name v) s).bodies = s.bodies := by
  induction globals generalizing s with
  | nil => rfl
  | cons g rest ih => exact (ih _).trans (size_seed s g.1 g.2)

/-- The state with nothing but native classes without fields. -/
theorem closed_natives :
    Closed ⟨0, 0⟩ (extent { bodies := Array.replicate NativeClass.all.length {} })
      { bodies := Array.replicate NativeClass.all.length {} } where
  base_le := ⟨Nat.zero_le _, Nat.zero_le _⟩
  signatures := nofun
  bodies i b hb := by
    rw [Array.getElem?_replicate] at hb
    split at hb
    · cases hb
      exact ⟨fun name f hf => by simp at hf, fun name t ht => by simp at ht⟩
    · cases hb
  types id t ht := by simp at ht
  globals name t ht := by simp at ht
  locals := nofun
  context := nofun
  natives := nofun

/-- A reachable state is closed, and has the native classes. -/
theorem Reachable.closed (h : s.Reachable) :
    Closed s.extent s.extent s.idle ∧ NativeClass.all.length ≤ s.bodies.size := by
  induction h with
  | seeded globals =>
    constructor
    · exact (closed_seeds globals closed_natives).rebase
    · unfold ofGlobals
      rw [size_seeds]
      simp
  | checked _ program ih =>
    obtain ⟨hclosed, hkeeps⟩ := closed_check ih.1 program
    exact ⟨hclosed.rebase, Nat.le_trans ih.2 hkeeps.extent.2⟩

end Checker

/-! ### Places that make room -/

/-- The places from `n` on moved up by `k`. -/
def makeRoom (n k i : Nat) : Nat := if i < n then i else i + k

/-- The places in front of the room stay. -/
theorem makeRoom_of_lt {n i : Nat} (k : Nat) (h : i < n) : makeRoom n k i = i := if_pos h

/-- The places behind it move up. -/
theorem makeRoom_add (n k j : Nat) : makeRoom n k (n + j) = n + j + k :=
  if_neg (Nat.not_lt.2 (Nat.le_add_right n j))

/-- No two places become one. -/
theorem makeRoom_injective (n k : Nat) : Function.Injective (makeRoom n k) := by
  intro i j h
  unfold makeRoom at h
  split at h <;> split at h <;> omega

/-- An array that begins like another one, up to a relation, corresponds to it when the places
behind make room for the rest. -/
theorem Mirrored.of_begins {α : Type} {R : α → α → Prop} {xs ys : Array α}
    (hsize : xs.size ≤ ys.size)
    (h : ∀ (i : Nat) (x : α), xs[i]? = some x → ∃ y, ys[i]? = some y ∧ R x y) :
    Mirrored (makeRoom xs.size (ys.size - xs.size)) R xs ys where
  entry i := by
    -- In front of the size entries keep their places, and behind it there are none on either side.
    by_cases hi : i < xs.size
    · rw [makeRoom_of_lt _ hi]
      obtain ⟨y, hy, hxy⟩ := h i xs[i] (Array.getElem?_eq_getElem hi)
      rw [Array.getElem?_eq_getElem hi, hy]
      exact .some hxy
    · obtain ⟨j, rfl⟩ := Nat.exists_eq_add_of_le (Nat.not_lt.1 hi)
      have hout : ys.size ≤ xs.size + j + (ys.size - xs.size) := by omega
      rw [makeRoom_add, Array.getElem?_eq_none (Nat.le_add_right _ _), Array.getElem?_eq_none hout]
      exact .none
  next k := by
    rw [makeRoom_add]
    omega

/-- The renaming that makes room, behind the functions and classes of an extent, for those that
another extent has more. -/
def Renaming.between (e e' : Extent) (h : NativeClass.all.length ≤ e.classes) : Renaming where
  sig := makeRoom e.sigs (e'.sigs - e.sigs)
  cls := makeRoom e.classes (e'.classes - e.classes)
  sig_injective := makeRoom_injective ..
  cls_injective := makeRoom_injective ..
  cls_native c := by
    have hc : nativeId c < NativeClass.all.length :=
      List.idxOf_lt_length_iff.2 (by cases c <;> decide)
    exact makeRoom_of_lt _ (Nat.lt_of_lt_of_le hc h)

section Between

variable {e e' : Extent} {h : NativeClass.all.length ≤ e.classes}

/-- What exists already keeps its number. -/
theorem ClassType.Within.rename_eq {c : ClassType} (hc : c.Within e.classes) :
    c.rename (.between e e' h) = c := by
  induction hc with
  | native c => exact rename_nativeType c
  | mk hid _ _ ih =>
    rw [ClassType.rename, ClassType.renameAll_eq, List.map_congr_left ih, List.map_id']
    exact congrArg (ClassType.mk · _ _ _) (makeRoom_of_lt _ hid)

/-- A type in front of the room is not renamed. -/
theorem Ty.Within.rename_eq {t : Ty} (ht : t.Within e) : t.rename (.between e e' h) = t := by
  cases t with
  | «instance» c => exact congrArg Ty.instance (ClassType.Within.rename_eq ht)
  | «class» c => exact congrArg Ty.class (ClassType.Within.rename_eq ht)
  | function f => exact congrArg Ty.function (makeRoom_of_lt _ ht)

/-- Neither is the type of a name. -/
theorem OptionWithin.rename_eq {t : Option Ty} (ht : OptionWithin e t) :
    t.map (Ty.rename (.between e e' h)) = t := by
  cases t with
  | none => rfl
  | some t => exact congrArg Option.some (ht t rfl).rename_eq

/-- Neither are the results of a native method by the class of its argument. -/
theorem Signature.Within.rename_returnsByArg {sig : Signature} (hsig : sig.Within e) :
    sig.returnsByArg.map (fun (arg, t) => (arg, t.rename (.between e e' h))) =
      sig.returnsByArg := by
  conv_rhs => rw [← List.map_id' sig.returnsByArg]
  refine List.map_congr_left fun p hp => ?_
  exact Prod.ext rfl (hsig.returnsByArg p hp).rename_eq

/-- Neither is a signature. -/
theorem Signature.Within.rename_eq {sig : Signature} (hsig : sig.Within e) :
    sig.rename (.between e e' h) = sig := by
  have hparams : sig.paramTypes.map (Ty.rename (.between e e' h)) = sig.paramTypes := by
    rw [List.map_congr_left fun t ht => (hsig.paramTypes t ht).rename_eq, List.map_id']
  have hreturns : sig.returns.map (Ty.rename (.between e e' h)) = sig.returns :=
    OptionWithin.rename_eq hsig.returns
  unfold Signature.rename
  rw [hparams, hreturns, hsig.rename_returnsByArg]

end Between

/-! ### The state behind a rejected program -/

namespace Checker

variable {s s' : Checker}

/-- A class of the program that a global name holds. -/
def Held (s : Checker) (c : ClassType) : Prop :=
  ∃ (name : String) (d : ClassType),
    s.globals[name]? = some (some (.class d)) ∧ d.native? = none ∧ d.id = c.id

/-- The program in between used no native method for the first time, and of the classes that were
there, those that no global name holds have fields of the types they had. -/
structure Untouched (s s' : Checker) : Prop where
  /-- No native signature was made. -/
  natives : s'.nativeMethods = s.nativeMethods
  /-- No field that is not put back has another type. -/
  fields : ∀ c : ClassType, c.id < s.bodies.size → ¬s.Held c → ∀ name : String,
    (s'.body c).attributes[name]? = (s.body c).attributes[name]?

/-- A program that is not accepted ends with the globals and the fields put back. -/
theorem restored_of_rejected {program : List Stmt} {error : Error}
    (h : (s.check program).1 = .rejected error) :
    ∃ t : Checker, (s.check program).2 = (t.restore s.globals s.globalAttributes).idle := by
  unfold check at h ⊢
  cases hr : Check.stmts program s.idle with
  | ok a s' =>
    rw [hr] at h
    cases h
  | error e s' =>
    refine ⟨s', ?_⟩
    cases e <;> rfl

/-- A class for which fields are put back, always the same ones, ends up with these fields. -/
theorem attributes_restored {fields : List (Nat × Std.TreeMap String Ty)} {i : Nat}
    {attributes : Std.TreeMap String Ty} (hsame : ∀ p ∈ fields, p.1 = i → p.2 = attributes)
    {bs : Array ClassBody} (hi : i < bs.size)
    (hput : bs[i]?.map (·.attributes) = some attributes ∨ ∃ p ∈ fields, p.1 = i) :
    (fields.foldl (fun bs (id, attributes) => bs.modify id ({ · with attributes })) bs)[i]?.map
      (·.attributes) = some attributes := by
  -- On the classes. Whatever comes later for the class puts the same fields back.
  induction fields generalizing bs with
  | nil =>
    obtain hput | ⟨p, hp, _⟩ := hput
    · exact hput
    · cases hp
  | cons p rest ih =>
    obtain ⟨hfirst, hrest⟩ := List.forall_mem_cons.1 hsame
    have hi' : i < (bs.modify p.1 ({ · with attributes := p.2 })).size := by
      rw [Array.size_modify]
      exact hi
    refine ih hrest hi' ?_
    rw [Array.getElem?_modify]
    by_cases hpi : p.1 = i
    · rw [if_pos hpi, Array.getElem?_eq_getElem hi, ← hfirst hpi]
      exact .inl rfl
    · rw [if_neg hpi]
      refine hput.imp id ?_
      rintro ⟨q, hq, hqi⟩
      rcases List.mem_cons.1 hq with rfl | hq
      · exact absurd hqi hpi
      · exact ⟨q, hq, hqi⟩

/-- A rejected program leaves the classes that global names hold with the fields they had. -/
theorem attributes_of_held {program : List Stmt} {error : Error}
    (h : (s.check program).1 = .rejected error)
    (hsize : s.bodies.size ≤ (s.check program).2.bodies.size) {c : ClassType} (hc : s.Held c)
    (hlt : c.id < s.bodies.size) :
    ((s.check program).2.body c).attributes = (s.body c).attributes := by
  obtain ⟨t, ht⟩ := restored_of_rejected h
  rw [ht] at hsize ⊢
  have hlt' : c.id < t.bodies.size := by
    rw [← size_bodies_restore s t]
    exact Nat.lt_of_lt_of_le hlt hsize
  -- A class may be held by several names, which all stand for one body.
  have hsame : ∀ p ∈ s.globalAttributes, p.1 = c.id → p.2 = (s.body c).attributes := by
    rintro ⟨id, attributes⟩ hp hid
    obtain ⟨_, d, _, _, hd⟩ := mem_globalAttributes.1 hp
    cases hd
    unfold body
    rw [show d.id = c.id from hid]
  have hentry : ∃ p ∈ s.globalAttributes, p.1 = c.id := by
    obtain ⟨name, d, hd, hnative, hid⟩ := hc
    exact ⟨_, mem_globalAttributes.2 ⟨name, d, hd, hnative, rfl⟩, hid⟩
  have hrestored := attributes_restored hsame hlt' (.inr hentry)
  obtain ⟨b, hb, hattributes⟩ := Option.map_eq_some_iff.1 hrestored
  have hbody : (t.restore s.globals s.globalAttributes).idle.body c = b :=
    congrArg (·.getD default) hb
  rw [hbody]
  exact hattributes

/-- No field of a class that was there has another type. -/
theorem Untouched.attributes {program : List Stmt} {error : Error}
    (h : s.Untouched (s.check program).2) (hrejected : (s.check program).1 = .rejected error)
    (hsize : s.bodies.size ≤ (s.check program).2.bodies.size) {c : ClassType}
    (hlt : c.id < s.bodies.size) (name : String) :
    ((s.check program).2.body c).attributes[name]? = (s.body c).attributes[name]? := by
  by_cases hc : s.Held c
  · rw [attributes_of_held hrejected hsize hc hlt]
  · exact h.fields c hlt hc name

/-- A class that kept its methods and its fields has them with later functions and classes renamed.
-/
theorem body_of_kept (hclosed : Closed s.extent s.extent s.idle)
    (hn : NativeClass.all.length ≤ s.extent.classes) (hkeeps : Keeps s.extent s s') {i : Nat}
    {b : ClassBody} (hb : s.bodies[i]? = some b)
    (hfields : ∀ name : String,
      (s'.body ⟨i, "", [], none⟩).attributes[name]? =
        (s.body ⟨i, "", [], none⟩).attributes[name]?) :
    ∃ b', s'.bodies[i]? = some b' ∧
      ClassBody.Mirror (.between s.extent s'.extent hn) b b' := by
  have hlt : i < s.bodies.size := (Array.getElem?_eq_some_iff.1 hb).1
  have hlt' : i < s'.bodies.size := Nat.lt_of_lt_of_le hlt hkeeps.extent.2
  have hb' : s'.bodies[i]? = some s'.bodies[i] := Array.getElem?_eq_getElem hlt'
  have hwithin := hclosed.bodies i b hb
  refine ⟨s'.bodies[i], hb', fun name => ?_, fun name => ?_⟩
  · -- The functions of its methods are older than what was made since, so none is renamed.
    have hmembers := hkeeps.members i hlt
    rw [hb, hb', Option.map_some, Option.map_some] at hmembers
    rw [Option.some.inj hmembers]
    cases hf : b.members[name]? with
    | none => rfl
    | some f => exact congrArg some (makeRoom_of_lt _ (hwithin.members name f hf).1).symm
  · have hkept := hfields name
    unfold body at hkept
    rw [hb, hb', Option.getD_some, Option.getD_some] at hkept
    rw [hkept]
    exact (OptionWithin.rename_eq fun u hu => hwithin.attributes name u hu).symm

/-- A state that kept everything is the earlier one with later functions and classes renamed. -/
theorem mirror_of_kept (hclosed : Closed s.extent s.extent s.idle)
    (hn : NativeClass.all.length ≤ s.extent.classes) (hkeeps : Keeps s.extent s s')
    (hglobals : s'.globals = s.globals) (hnatives : s'.nativeMethods = s.nativeMethods)
    (hfields : ∀ c : ClassType, c.id < s.bodies.size → ∀ name : String,
      (s'.body c).attributes[name]? = (s.body c).attributes[name]?) :
    Mirror (.between s.extent s'.extent hn) s.idle s'.idle where
  signatures := by
    refine .of_begins hkeeps.extent.1 fun f sig hf => ⟨sig, ?_, ?_⟩
    · have hlt : f < s.signatures.size := (Array.getElem?_eq_some_iff.1 hf).1
      exact (hkeeps.signatures f hlt).trans hf
    · exact (hclosed.signatures f sig hf).rename_eq.symm
  bodies := by
    refine .of_begins hkeeps.extent.2 fun i b hb => body_of_kept hclosed hn hkeeps hb ?_
    exact hfields ⟨i, "", [], none⟩ (Array.getElem?_eq_some_iff.1 hb).1
  -- The types of the globals exist already, so none of them is renamed.
  globals name := by
    have hname : s'.idle.globals[name]? = s.globals[name]? := congrArg (·[name]?) hglobals
    rw [hname]
    have hsame : s.idle.globals[name]? = s.globals[name]? := rfl
    rw [hsame]
    cases hg : s.globals[name]? with
    | none => rfl
    | some t =>
      refine congrArg some (OptionWithin.rename_eq fun u hu => ?_).symm
      exact hclosed.globals name u (hu ▸ hg)
  locals := rfl
  context := rfl
  nativeMethods := by
    have hidle : s'.idle.nativeMethods = s.nativeMethods := hnatives
    rw [hidle]
    conv_lhs => rw [← List.map_id' s.nativeMethods]
    refine List.map_congr_left fun p hp => ?_
    exact Prod.ext rfl (makeRoom_of_lt _ (hclosed.natives p hp)).symm

/-! ### Later programs -/

/-- The global names with the texts of their types. -/
def globalTexts (s : Checker) : List (String × Option String) :=
  s.globals.toList.map fun (name, t) => (name, s.typeText? t)

/-- The text of a type is the same between programs. -/
theorem typeTextUpTo_idle (s : Checker) (n : Nat) (t : Ty) :
    s.idle.typeTextUpTo n t = s.typeTextUpTo n t := by
  induction n generalizing t with
  | zero => cases t <;> rfl
  | succ n ih =>
    cases t with
    | «instance» c => rfl
    | «class» c => rfl
    | function f =>
      rw [typeTextUpTo_function_succ, typeTextUpTo_function_succ, funext ih]
      rfl

/-- So are the texts of the global types. -/
theorem globalTexts_idle (s : Checker) : s.idle.globalTexts = s.globalTexts := by
  unfold globalTexts
  refine List.map_congr_left fun p _ => ?_
  obtain ⟨name, _ | t⟩ := p
  · rfl
  · exact Prod.ext rfl (typeTextUpTo_idle s _ t)

/-- The verdicts on programs that are checked in a row, each with the global types behind it. -/
def checkAll (s : Checker) : List (List Stmt) → List (Verdict × List (String × Option String))
  | [] => []
  | program :: rest =>
    ((s.check program).1, (s.check program).2.globalTexts) :: (s.check program).2.checkAll rest

end Checker

namespace Mirror

variable {ρ : Renaming} {s s' : Checker}

/-- Mirrored states have the same texts of global types. -/
theorem globalTexts (h : Mirror ρ s s') : s'.globalTexts = s.globalTexts := by
  unfold Checker.globalTexts
  rw [h.toList_globals, List.map_map]
  refine List.map_congr_left fun p _ => ?_
  exact Prod.ext rfl (h.typeText? p.2)

/-- From mirrored states, programs in a row get the same verdicts and texts. -/
theorem checkAll (h : Mirror ρ s.idle s'.idle) (programs : List (List Stmt)) :
    s'.checkAll programs = s.checkAll programs := by
  induction programs generalizing s s' with
  | nil => rfl
  | cons program rest ih =>
    obtain ⟨hverdict, hmirror⟩ := h.check program
    unfold Checker.checkAll
    rw [hverdict, hmirror.globalTexts, ih hmirror.idle]

end Mirror

/-- Whether a verdict rejects a program. -/
def Verdict.rejects : Verdict → Bool
  | .rejected _ => true
  | _ => false

/-- A verdict that rejects a program has an error. -/
theorem Verdict.exists_of_rejects {v : Verdict} (h : v.rejects = true) :
    ∃ error, v = .rejected error := by
  cases v with
  | rejected error => exact ⟨error, rfl⟩
  | _ => cases h

namespace Checker

/-- A rejected program that used no native method for the first time and left no field with another
type behind leaves no trace: the global types are what they were, and every later row of programs
gets the verdicts, with the same messages, and the global types that it gets without the rejected
program. -/
theorem rejected_leaves_no_trace {s : Checker} (hs : s.Reachable) {program : List Stmt}
    {error : Error} (hrejected : (s.check program).1 = .rejected error)
    (huntouched : s.Untouched (s.check program).2) :
    (s.check program).2.globalTexts = s.globalTexts ∧
      ∀ later, (s.check program).2.checkAll later = s.checkAll later := by
  obtain ⟨hclosed, hn⟩ := hs.closed
  obtain ⟨_, hkeeps⟩ := closed_check hclosed program
  have hglobals : (s.check program).2.globals = s.globals := by
    obtain ⟨t, ht⟩ := restored_of_rejected hrejected
    rw [ht]
    rfl
  -- The two states differ only in what nothing reaches any more.
  have hmirror := mirror_of_kept hclosed hn hkeeps hglobals huntouched.natives
    fun _ hlt => huntouched.attributes hrejected hkeeps.extent.2 hlt
  have htexts := hmirror.globalTexts
  rw [globalTexts_idle, globalTexts_idle] at htexts
  exact ⟨htexts, hmirror.checkAll⟩

/-- A program that declares a subclass of a global class and then gives a global variable a value of
another type. -/
theorem rejected_leaves_no_trace_subclass :
    let s := ((ofMachine .initial).check
      (Parse.source "class A \x7b fun m() \x7b return 1; \x7d \x7d var a = 1;" 0).program).2
    let program := (Parse.source "class B < A \x7b\x7d a = nil;" 100).program
    ∃ error, s.Reachable ∧ (s.check program).1 = .rejected error ∧
      s.Untouched (s.check program).2 ∧
      (s.check program).2.globalTexts = s.globalTexts ∧
      ∀ later, (s.check program).2.checkAll later = s.checkAll later := by
  intro s program
  have hs : s.Reachable := .checked (.seeded _) _
  obtain ⟨error, hrejected⟩ : ∃ error, (s.check program).1 = .rejected error :=
    Verdict.exists_of_rejects (by decide +kernel)
  have hnatives : (s.check program).2.nativeMethods = s.nativeMethods := by
    have hbefore : s.nativeMethods.isEmpty = true := by decide +kernel
    have hafter : (s.check program).2.nativeMethods.isEmpty = true := by decide +kernel
    rw [List.isEmpty_iff.1 hbefore, List.isEmpty_iff.1 hafter]
  have huntouched : s.Untouched (s.check program).2 := by
    refine ⟨hnatives, fun c hlt _ name => ?_⟩
    -- None of the classes has a field, neither before nor behind.
    have hsize : s.bodies.size = 14 := by decide +kernel
    have hbefore : ∀ i < 14, (s.bodies[i]?.getD default).attributes.isEmpty = true := by
      decide +kernel
    have hafter : ∀ i < 14,
        ((s.check program).2.bodies[i]?.getD default).attributes.isEmpty = true := by
      decide +kernel
    unfold body
    rw [hsize] at hlt
    rw [Std.TreeMap.getElem?_of_isEmpty (hbefore c.id hlt),
      Std.TreeMap.getElem?_of_isEmpty (hafter c.id hlt)]
  exact ⟨error, hs, hrejected, huntouched, rejected_leaves_no_trace hs hrejected huntouched⟩

/-- A rejected program does leave a trace if a native method was used for the first time while one
of its types was hidden by a class of the program: the sum of two numbers is rejected ever after. -/
theorem rejected_leaves_native_signature :
    ¬∀ (s : Checker) (program : List Stmt) (error : Error), s.Reachable →
      (s.check program).1 = .rejected error →
      ∀ later, (s.check program).2.checkAll later = s.checkAll later := by
  intro h
  have hs : (ofMachine .initial).Reachable := .seeded _
  obtain ⟨error, hrejected⟩ : ∃ error, ((ofMachine .initial).check
      (Parse.source "class Number \x7b\x7d 1 + 2" 0).program).1 = .rejected error :=
    Verdict.exists_of_rejects (by decide +kernel)
  have hsame := h _ _ _ hs hrejected [(Parse.source "1 + 2" 100).program]
  have hverdicts := congrArg (List.map fun v => v.1.rejects) hsame
  revert hverdicts
  decide +kernel

end Checker

end ClassScript.Typing
