import ClassScript.Proofs.Hierarchy

/-!
# Lookups and shortest paths

A path goes from a class upward through entries of superclass lists, and an entry that is repeated
makes paths of its own. The rule of the language is that the class at the end of the shortest path
to a declaration wins, and that two shortest paths are an ambiguity. A lookup decides branch by
branch, and an ambiguity inside a branch ends it even where another branch is nearer. So a member
is found if there is one shortest path and none of the classes that the search goes through has
several.
-/

namespace ClassScript

/-! ### The outcomes of branches -/

namespace Lookup

variable {M : Type}

/-- Whether an outcome is a member at a depth. -/
def isAt (depth : Nat) (l : Lookup M) : Bool := l.hit?.any (·.2 = depth)

/-- An outcome is at a depth if it is a member found there. -/
theorem isAt_iff {depth : Nat} {l : Lookup M} : l.isAt depth ↔ ∃ m, l = .found m depth := by
  cases l <;> simp [isAt, hit?]

/-- A list has two elements of a kind exactly if it has them at two places. -/
theorem two_le_countP_iff {α : Type} {p : α → Bool} {l : List α} :
    2 ≤ l.countP p ↔
      ∃ (i j : Nat) (a b : α), i < j ∧ l[i]? = some a ∧ l[j]? = some b ∧ p a ∧ p b := by
  constructor
  · intro h
    induction l with
    | nil => simp at h
    | cons x rest ih =>
      rw [List.countP_cons] at h
      by_cases hx : p x = true
      · -- The first place is here, and the rest has another one.
        rw [if_pos hx] at h
        have hrest : 0 < rest.countP p := by omega
        obtain ⟨b, hb, hpb⟩ := List.countP_pos_iff.1 hrest
        obtain ⟨j, hj⟩ := List.mem_iff_getElem?.1 hb
        exact ⟨0, j + 1, x, b, Nat.succ_pos j, rfl, hj, hx, hpb⟩
      · rw [if_neg hx, Nat.add_zero] at h
        obtain ⟨i, j, a, b, hij, hi, hj, ha, hb⟩ := ih h
        exact ⟨i + 1, j + 1, a, b, Nat.succ_lt_succ hij, hi, hj, ha, hb⟩
  · rintro ⟨i, j, a, b, hij, hi, hj, ha, hb⟩
    have hfirst : a ∈ l.take j :=
      List.mem_iff_getElem?.2 ⟨i, by rw [List.getElem?_take, if_pos hij, hi]⟩
    have hsecond : b ∈ l.drop j :=
      List.mem_iff_getElem?.2 ⟨0, by rw [List.getElem?_drop, Nat.add_zero, hj]⟩
    have hsplit : l.countP p = (l.take j).countP p + (l.drop j).countP p := by
      rw [← List.countP_append, List.take_append_drop]
    have h₁ : 0 < (l.take j).countP p := List.countP_pos_iff.2 ⟨a, hfirst, ha⟩
    have h₂ : 0 < (l.drop j).countP p := List.countP_pos_iff.2 ⟨b, hsecond, hb⟩
    omega

/-- The hits at a depth are counted by the branches that have one. -/
theorem length_filter_hits (branches : List (String × Lookup M)) (depth : Nat) :
    ((hits branches).filter (·.depth = depth)).length = branches.countP (·.2.isAt depth) := by
  unfold hits
  rw [← List.countP_eq_length_filter, List.countP_filterMap]
  congr 1
  funext b
  cases b.2 <;> rfl

/-- A hit is a branch with its member. -/
theorem mem_hits {branches : List (String × Lookup M)} {hit : Hit M} :
    hit ∈ hits branches ↔
      ∃ b ∈ branches, b.1 = hit.branch ∧ b.2 = .found hit.member hit.depth := by
  unfold hits
  rw [List.mem_filterMap]
  refine exists_congr fun b => and_congr_right fun _ => ?_
  obtain ⟨name, l⟩ := b
  obtain ⟨branch, member, depth⟩ := hit
  cases l <;> simp [hit?]

/-- The depth of the nearest branches. -/
def Least (branches : List (String × Lookup M)) (least : Nat) : Prop :=
  ∀ b ∈ branches, ∀ m depth, b.2 = .found m depth → least ≤ depth

/-- A branch with a member is a hit. -/
theorem mem_hits_of_found {branches : List (String × Lookup M)} {b : String × Lookup M} {m : M}
    {depth : Nat} (hb : b ∈ branches) (hl : b.2 = .found m depth) :
    (⟨b.1, m, depth⟩ : Hit M) ∈ hits branches :=
  mem_hits.2 ⟨b, hb, rfl, hl⟩

/-- What the nearest branches can make of a lookup: one of them, or an ambiguity. -/
theorem nearest_cases {branches : List (String × Lookup M)} {least : Nat}
    (hmin : ((hits branches).map Hit.depth).min? = some least) :
    (∃ b ∈ branches, ∃ m, b.2 = .found m least ∧ nearest (hits branches) = .found m (least + 1) ∧
        branches.countP (·.2.isAt least) = 1) ∨
      2 ≤ branches.countP (·.2.isAt least) ∧
        ∃ names, nearest (hits branches) = .ambiguous names := by
  have hcount := length_filter_hits branches least
  unfold nearest
  rw [hmin]
  dsimp only
  rcases htied : (hits branches).filter (·.depth = least) with _ | ⟨hit, _ | ⟨other, more⟩⟩
  · -- The least depth is that of some hit.
    obtain ⟨hit, hhit, hdepth⟩ := List.mem_map.1 (List.min?_eq_some_iff.1 hmin).1
    have hmem : hit ∈ (hits branches).filter (·.depth = least) :=
      List.mem_filter.2 ⟨hhit, decide_eq_true hdepth⟩
    rw [htied] at hmem
    cases hmem
  · have hmem : hit ∈ (hits branches).filter (·.depth = least) :=
      htied ▸ List.mem_singleton.2 rfl
    obtain ⟨hhit, hdepth⟩ := List.mem_filter.1 hmem
    obtain ⟨b, hb, -, hl⟩ := mem_hits.1 hhit
    rw [of_decide_eq_true hdepth] at hl
    rw [htied] at hcount ⊢
    exact .inl ⟨b, hb, hit.member, hl, rfl, hcount.symm⟩
  · rw [htied] at hcount ⊢
    refine .inr ⟨?_, _, rfl⟩
    rw [← hcount]
    exact Nat.succ_le_succ (Nat.succ_le_succ (Nat.zero_le _))

/-- What the outcomes of the branches can make of a lookup. -/
theorem merge_cases (branches : List (String × Lookup M)) :
    (∃ b ∈ branches, ∃ names, b.2 = .ambiguous names ∧ merge branches = .ambiguous names) ∨
    (∀ b ∈ branches, ∀ names, b.2 ≠ .ambiguous names) ∧
      ((∀ b ∈ branches, b.2 = .absent) ∧ merge branches = .absent ∨
        ∃ least, Least branches least ∧
          ((∃ b ∈ branches, ∃ m, b.2 = .found m least ∧ merge branches = .found m (least + 1) ∧
              branches.countP (·.2.isAt least) = 1) ∨
            2 ≤ branches.countP (·.2.isAt least) ∧ ∃ names, merge branches = .ambiguous names)) := by
  rw [merge_eq]
  cases hconflict : branches.findSome? (·.2.conflict?) with
  | some names =>
    -- The first conflict of a branch is passed on.
    obtain ⟨b, hb, hnames⟩ := List.exists_of_findSome?_eq_some hconflict
    refine .inl ⟨b, hb, names, ?_, rfl⟩
    cases hl : b.2 <;> rw [hl] at hnames <;> cases hnames
    rfl
  | none =>
    have hclear : ∀ b ∈ branches, ∀ names, b.2 ≠ .ambiguous names := by
      intro b hb names he
      have hnone := List.findSome?_eq_none_iff.1 hconflict b hb
      rw [he] at hnone
      cases hnone
    refine .inr ⟨hclear, ?_⟩
    dsimp only
    cases hmin : ((hits branches).map Hit.depth).min? with
    | none =>
      -- Without hits no branch has found anything.
      have hempty : hits branches = [] := List.map_eq_nil_iff.1 (List.min?_eq_none_iff.1 hmin)
      refine .inl ⟨fun b hb => ?_, by rw [nearest, hmin]⟩
      cases hl : b.2 with
      | absent => rfl
      | ambiguous names => exact absurd hl (hclear b hb names)
      | found m depth => exact absurd (mem_hits_of_found hb hl) (hempty ▸ List.not_mem_nil)
    | some least =>
      refine .inr ⟨least, fun b hb m depth hl => ?_, nearest_cases hmin⟩
      exact (List.min?_eq_some_iff.1 hmin).2 depth
        (List.mem_map_of_mem (mem_hits_of_found hb hl))

end Lookup

/-! ### Paths -/

namespace Hierarchy

variable {C M : Type} (h : Hierarchy C M) (member : String)

/-- A path from a class upward, given by the entries of the superclass lists that it takes. -/
inductive Path : C → List Nat → C → Prop where
  /-- The path that stays where it is. -/
  | here (c : C) : Path c [] c
  /-- A path that goes on from a superclass. -/
  | up {c s d : C} {entry : Nat} {steps : List Nat} (hs : (h.supers c)[entry]? = some s)
    (hp : Path s steps d) : Path c (entry :: steps) d

/-- A path from a class to one that declares the member. -/
def Reaches (c : C) (steps : List Nat) (m : M) : Prop :=
  ∃ d, h.Path c steps d ∧ h.own d member = some m

/-- A path to a declaration than which no other one is shorter. -/
structure Shortest (c : C) (steps : List Nat) (m : M) : Prop where
  /-- The path leads to a declaration. -/
  reaches : h.Reaches member c steps m
  /-- No path to a declaration is shorter. -/
  le : ∀ steps' m', h.Reaches member c steps' m' → steps.length ≤ steps'.length

/-- Two shortest paths lead to declarations. -/
def Tied (c : C) : Prop :=
  ∃ steps steps' m m', h.Shortest member c steps m ∧ h.Shortest member c steps' m' ∧
    steps ≠ steps'

/-- The classes that a search from a class goes through: it ends at a declaration. -/
inductive Searches : C → C → Prop where
  /-- The class itself. -/
  | here (c : C) : Searches c c
  /-- A class that is searched from a superclass. -/
  | up {c s d : C} (hc : h.own c member = none) (hs : s ∈ h.supers c) (hd : Searches s d) :
    Searches c d

variable {h member} {c s : C} {m : M} {steps : List Nat}

/-- The entries of a path lead to one class. -/
theorem Path.unique {d d' : C} (hp : h.Path c steps d) (hp' : h.Path c steps d') : d = d' := by
  induction hp with
  | here c =>
    cases hp'
    rfl
  | up hs _ ih =>
    cases hp' with
    | up hs' hp' =>
      cases Option.some.inj (hs.symm.trans hs')
      exact ih hp'

/-- A path leads to one member. -/
theorem Reaches.unique {m' : M} (hr : h.Reaches member c steps m)
    (hr' : h.Reaches member c steps m') : m = m' := by
  obtain ⟨d, hp, hd⟩ := hr
  obtain ⟨d', hp', hd'⟩ := hr'
  rw [hp.unique hp'] at hd
  exact Option.some.inj (hd.symm.trans hd')

/-- A path from a superclass is one from the class, with one more entry. -/
theorem Reaches.up {entry : Nat} (hs : (h.supers c)[entry]? = some s)
    (hr : h.Reaches member s steps m) : h.Reaches member c (entry :: steps) m := by
  obtain ⟨d, hp, hd⟩ := hr
  exact ⟨d, .up hs hp, hd⟩

/-- From a class without a declaration of its own, a path to one goes through a superclass. -/
theorem Reaches.down (hc : h.own c member = none) (hr : h.Reaches member c steps m) :
    ∃ entry s steps', (h.supers c)[entry]? = some s ∧ steps = entry :: steps' ∧
      h.Reaches member s steps' m := by
  obtain ⟨d, hp, hd⟩ := hr
  cases hp with
  | here => cases hc.symm.trans hd
  | up hs hp => exact ⟨_, _, _, hs, rfl, d, hp, hd⟩

/-- A class that declares the member is the end of its shortest path. -/
theorem shortest_own (hc : h.own c member = some m) : h.Shortest member c [] m :=
  ⟨⟨c, .here c, hc⟩, fun _ _ _ => Nat.zero_le _⟩

/-- All shortest paths have one length. -/
theorem Shortest.length_eq {m' : M} {steps' : List Nat} (hs : h.Shortest member c steps m)
    (hs' : h.Shortest member c steps' m') : steps.length = steps'.length :=
  Nat.le_antisymm (hs.le _ _ hs'.reaches) (hs'.le _ _ hs.reaches)

/-- A class that declares the member is not tied. -/
theorem not_tied_own (hc : h.own c member = some m) : ¬h.Tied member c := by
  rintro ⟨p, q, _, _, hp, hq, hne⟩
  have hp' := hp.length_eq (shortest_own hc)
  have hq' := hq.length_eq (shortest_own hc)
  exact hne ((List.length_eq_zero_iff.1 hp').trans (List.length_eq_zero_iff.1 hq').symm)

/-! ### Lookups -/

/-- What the outcome of a lookup says of the paths from its class. -/
def Explains (h : Hierarchy C M) (member : String) (c : C) : Lookup M → Prop
  | .absent => ∀ steps m, ¬h.Reaches member c steps m
  | .found m depth =>
    (∀ d, h.Searches member c d → ¬h.Tied member d) ∧
      ∃ steps, steps.length = depth ∧ h.Shortest member c steps m
  | .ambiguous _ => ∃ d, h.Searches member c d ∧ h.Tied member d

/-- What a class that is searched reaches can be reached from where the search starts. -/
theorem Searches.reaches {d : C} (hs : h.Searches member c d) (hr : h.Reaches member d steps m) :
    ∃ steps', h.Reaches member c steps' m := by
  induction hs with
  | here c => exact ⟨steps, hr⟩
  | up _ hs _ ih =>
    obtain ⟨steps', hr'⟩ := ih hr
    obtain ⟨entry, hentry⟩ := List.mem_iff_getElem?.1 hs
    exact ⟨entry :: steps', hr'.up hentry⟩

/-- Where nothing is ambiguous or found, nothing that is searched is tied. -/
theorem Explains.not_tied {l : Lookup M} (hl : h.Explains member c l)
    (hclear : ∀ names, l ≠ .ambiguous names) {d : C} (hd : h.Searches member c d) :
    ¬h.Tied member d := by
  cases l with
  | ambiguous names => exact absurd rfl (hclear names)
  | found m depth => exact hl.1 d hd
  | absent =>
    rintro ⟨_, _, _, _, hp, _, _⟩
    obtain ⟨steps', hr⟩ := hd.reaches hp.reaches
    exact hl _ _ hr

/-- Where a declaration can be reached and nothing is ambiguous, a nearest one was found. -/
theorem Explains.found_of_reaches {l : Lookup M} (hl : h.Explains member c l)
    (hclear : ∀ names, l ≠ .ambiguous names) (hr : h.Reaches member c steps m) :
    ∃ m' depth, l = .found m' depth ∧ depth ≤ steps.length := by
  cases l with
  | ambiguous names => exact absurd rfl (hclear names)
  | absent => exact absurd hr (hl _ _)
  | found m' depth =>
    obtain ⟨-, steps', hlength, hshortest⟩ := hl
    exact ⟨m', depth, rfl, hlength ▸ hshortest.le _ _ hr⟩

section Branches

variable (h member) in
/-- The branches of a class with their outcomes. -/
def branches (supers : List C) : List (String × Lookup M) :=
  supers.map fun s => (h.name s, h.lookup member s)

/-- A branch that is no nearer than the nearest ones has no shorter path than they have. -/
theorem least_le_length {supers : List C} {least : Nat}
    (ih : ∀ s ∈ supers, h.Explains member s (h.lookup member s))
    (hclear : ∀ s ∈ supers, ∀ names, h.lookup member s ≠ .ambiguous names)
    (hleast : Lookup.Least (h.branches member supers) least) (hs : s ∈ supers)
    (hr : h.Reaches member s steps m) : least ≤ steps.length := by
  obtain ⟨m', depth, hfound, hle⟩ := (ih s hs).found_of_reaches (hclear s hs) hr
  exact Nat.le_trans (hleast _ (List.mem_map_of_mem hs) m' depth hfound) hle

/-- A shortest path of the nearest branches goes on to a shortest path of the class. -/
theorem shortest_up {least entry : Nat} (hc : h.own c member = none)
    (ih : ∀ s ∈ h.supers c, h.Explains member s (h.lookup member s))
    (hclear : ∀ s ∈ h.supers c, ∀ names, h.lookup member s ≠ .ambiguous names)
    (hleast : Lookup.Least (h.branches member (h.supers c)) least)
    (hs : (h.supers c)[entry]? = some s) (hfound : h.lookup member s = .found m least) :
    ∃ steps, steps.length = least ∧ h.Shortest member c (entry :: steps) m := by
  have hexplains := ih s (List.mem_of_getElem? hs)
  rw [hfound] at hexplains
  obtain ⟨-, steps, hlength, hshortest⟩ := hexplains
  refine ⟨steps, hlength, hshortest.reaches.up hs, fun steps' m' hr => ?_⟩
  obtain ⟨entry', s', steps'', hs', rfl, hr'⟩ := hr.down hc
  have hle := least_le_length ih hclear hleast (List.mem_of_getElem? hs') hr'
  rw [List.length_cons, List.length_cons, hlength]
  exact Nat.succ_le_succ hle

/-- A shortest path of a class goes through a branch that is one of the nearest. -/
theorem shortest_down {least : Nat} (hc : h.own c member = none)
    (ih : ∀ s ∈ h.supers c, h.Explains member s (h.lookup member s))
    (hclear : ∀ s ∈ h.supers c, ∀ names, h.lookup member s ≠ .ambiguous names)
    (hleast : Lookup.Least (h.branches member (h.supers c)) least)
    (hshortest : h.Shortest member c steps m) (hlength : steps.length = least + 1) :
    ∃ entry s steps', (h.supers c)[entry]? = some s ∧ steps = entry :: steps' ∧
      h.Shortest member s steps' m ∧ (h.lookup member s).isAt least := by
  obtain ⟨entry, s, steps', hs, rfl, hr⟩ := hshortest.reaches.down hc
  have hmem := List.mem_of_getElem? hs
  have hlength' : steps'.length = least := Nat.succ.inj hlength
  obtain ⟨m', depth, hfound, hle⟩ := (ih s hmem).found_of_reaches (hclear s hmem) hr
  have hge := hleast _ (List.mem_map_of_mem hmem) m' depth hfound
  have hdepth : depth = least := by omega
  refine ⟨entry, s, steps', hs, rfl, ⟨hr, fun p m'' hp => ?_⟩, Lookup.isAt_iff.2 ⟨m', ?_⟩⟩
  · rw [hlength']
    exact least_le_length ih hclear hleast hmem hp
  · rw [hfound, hdepth]

/-- A class with a single nearest branch has no two shortest paths: they would go through one entry,
and be two shortest paths of the superclass there. -/
theorem not_tied_of_one_branch {least : Nat} (hc : h.own c member = none)
    (ih : ∀ s ∈ h.supers c, h.Explains member s (h.lookup member s))
    (hclear : ∀ s ∈ h.supers c, ∀ names, h.lookup member s ≠ .ambiguous names)
    (hleast : Lookup.Least (h.branches member (h.supers c)) least)
    (hone : (h.supers c).countP (fun s => (h.lookup member s).isAt least) = 1)
    (hshortest : h.Shortest member c steps m) (hlength : steps.length = least + 1) :
    ¬h.Tied member c := by
  rintro ⟨p, q, _, _, hp, hq, hne⟩
  have hpl : p.length = least + 1 := hp.length_eq hshortest ▸ hlength
  have hql : q.length = least + 1 := hq.length_eq hshortest ▸ hlength
  -- Both paths begin with an entry whose branch is nearest.
  obtain ⟨i, a, p', hi, rfl, hp', ha⟩ := shortest_down hc ih hclear hleast hp hpl
  obtain ⟨j, b, q', hj, rfl, hq', hb⟩ := shortest_down hc ih hclear hleast hq hql
  -- Two entries would be two nearest branches.
  have htwice : ∀ i j a b, i < j → (h.supers c)[i]? = some a → (h.supers c)[j]? = some b →
      (h.lookup member a).isAt least → (h.lookup member b).isAt least →
      2 ≤ (h.supers c).countP fun s => (h.lookup member s).isAt least :=
    fun i j a b hij hi hj ha hb =>
      Lookup.two_le_countP_iff.2 ⟨i, j, a, b, hij, hi, hj, ha, hb⟩
  rcases Nat.lt_trichotomy i j with hij | rfl | hij
  · exact absurd (htwice i j a b hij hi hj ha hb) (by omega)
  · cases Option.some.inj (hi.symm.trans hj)
    have hmem := List.mem_of_getElem? hi
    refine (ih a hmem).not_tied (hclear a hmem) (.here a) ⟨p', q', _, _, hp', hq', ?_⟩
    rintro rfl
    exact hne rfl
  · exact absurd (htwice j i b a hij hj hi hb ha) (by omega)

/-- A class with two nearest branches has a shortest path through each of them. -/
theorem tied_of_two_branches {least : Nat} (hc : h.own c member = none)
    (ih : ∀ s ∈ h.supers c, h.Explains member s (h.lookup member s))
    (hclear : ∀ s ∈ h.supers c, ∀ names, h.lookup member s ≠ .ambiguous names)
    (hleast : Lookup.Least (h.branches member (h.supers c)) least)
    (htwo : 2 ≤ (h.supers c).countP fun s => (h.lookup member s).isAt least) :
    h.Tied member c := by
  obtain ⟨i, j, a, b, hij, hi, hj, ha, hb⟩ := Lookup.two_le_countP_iff.1 htwo
  obtain ⟨m, hm⟩ := Lookup.isAt_iff.1 ha
  obtain ⟨m', hm'⟩ := Lookup.isAt_iff.1 hb
  obtain ⟨p, -, hp⟩ := shortest_up hc ih hclear hleast hi hm
  obtain ⟨q, -, hq⟩ := shortest_up hc ih hclear hleast hj hm'
  refine ⟨i :: p, j :: q, m, m', hp, hq, fun he => ?_⟩
  exact absurd (List.cons.inj he).1 (Nat.ne_of_lt hij)

/-- The outcome for a class without a declaration of its own explains its paths if the outcomes for
its superclasses explain theirs. -/
theorem explains_supers (hc : h.own c member = none)
    (ih : ∀ s ∈ h.supers c, h.Explains member s (h.lookup member s)) :
    h.Explains member c (h.lookupSupers member (h.supers c)) := by
  have hbranch : ∀ b ∈ h.branches member (h.supers c),
      ∃ s ∈ h.supers c, b = (h.name s, h.lookup member s) := by
    intro b hb
    obtain ⟨s, hs, rfl⟩ := List.mem_map.1 hb
    exact ⟨s, hs, rfl⟩
  have hcount : ∀ least, (h.branches member (h.supers c)).countP (·.2.isAt least) =
      (h.supers c).countP fun s => (h.lookup member s).isAt least :=
    fun least => List.countP_map
  change h.Explains member c (.merge (h.branches member (h.supers c)))
  rcases Lookup.merge_cases (h.branches member (h.supers c)) with
    ⟨b, hb, names, hnames, hmerge⟩ | ⟨hclear, ⟨habsent, hmerge⟩ | ⟨least, hleast, hnearest⟩⟩
  · -- An ambiguity inside a branch is one of the class.
    obtain ⟨s, hs, rfl⟩ := hbranch b hb
    have hexplains := ih s hs
    rw [show h.lookup member s = _ from hnames] at hexplains
    obtain ⟨d, hd, htied⟩ := hexplains
    rw [hmerge]
    exact ⟨d, .up hc hs hd, htied⟩
  · rw [hmerge]
    intro steps m hr
    obtain ⟨entry, s, steps', hs, -, hr'⟩ := hr.down hc
    have hmem := List.mem_of_getElem? hs
    have hexplains := ih s hmem
    rw [show h.lookup member s = _ from habsent _ (List.mem_map_of_mem hmem)] at hexplains
    exact hexplains _ _ hr'
  · have hclear' : ∀ s ∈ h.supers c, ∀ names, h.lookup member s ≠ .ambiguous names :=
      fun s hs => hclear _ (List.mem_map_of_mem hs)
    rw [hcount] at hnearest
    rcases hnearest with ⟨b, hb, m, hm, hmerge, hone⟩ | ⟨htwo, names, hmerge⟩
    · rw [hmerge]
      obtain ⟨s, hs, rfl⟩ := hbranch b hb
      obtain ⟨entry, hentry⟩ := List.mem_iff_getElem?.1 hs
      obtain ⟨steps, hlength, hshortest⟩ := shortest_up hc ih hclear' hleast hentry hm
      have hlength' : (entry :: steps).length = least + 1 := congrArg Nat.succ hlength
      refine ⟨fun d hd => ?_, entry :: steps, hlength', hshortest⟩
      cases hd with
      | up _ hs' hd => exact (ih _ hs').not_tied (hclear' _ hs') hd
      | here => exact not_tied_of_one_branch hc ih hclear' hleast hone hshortest hlength'
    · rw [hmerge]
      exact ⟨c, .here c, tied_of_two_branches hc ih hclear' hleast htwo⟩

end Branches

/-- The outcome of every lookup explains the paths from its class. -/
theorem explains_lookup (h : Hierarchy C M) (member : String) (c : C) :
    h.Explains member c (h.lookup member c) := by
  induction c using h.acyclic.induction with
  | _ c ih =>
    rw [lookup_eq]
    cases hc : h.own c member with
    | none => exact explains_supers hc ih
    | some m =>
      refine ⟨fun d hd => ?_, [], rfl, shortest_own hc⟩
      cases hd with
      | here => exact not_tied_own hc
      | up hc' _ _ => cases hc.symm.trans hc'

/-- Lookups follow shortest paths. Nothing is found exactly if no path leads to a declaration. A
member is found, at a depth, exactly if there is a single shortest path to a declaration, of that
length and to that member, and no class that the search goes through has several. And a lookup is
ambiguous exactly if some class that the search goes through has several shortest paths. -/
theorem lookup_follows_shortest_paths (h : Hierarchy C M) (member : String) (c : C) :
    (h.lookup member c = .absent ↔ ∀ steps m, ¬h.Reaches member c steps m) ∧
    (∀ m depth, h.lookup member c = .found m depth ↔
      (∃ steps, steps.length = depth ∧ h.Shortest member c steps m ∧
        ∀ steps' m', h.Shortest member c steps' m' → steps' = steps) ∧
      ∀ d, h.Searches member c d → ¬h.Tied member d) ∧
    ((∃ names, h.lookup member c = .ambiguous names) ↔
      ∃ d, h.Searches member c d ∧ h.Tied member d) := by
  have hexplains := explains_lookup h member c
  have hclear : (∀ d, h.Searches member c d → ¬h.Tied member d) →
      ∀ names, h.lookup member c ≠ .ambiguous names := by
    intro hd names he
    rw [he] at hexplains
    obtain ⟨d, hs, htied⟩ := hexplains
    exact hd d hs htied
  refine ⟨⟨fun he => ?_, fun hnone => ?_⟩, fun m depth => ⟨fun he => ?_, ?_⟩, ?_, ?_⟩
  · rw [he] at hexplains
    exact hexplains
  · -- Without a path to a declaration nothing is tied, and nothing is found.
    have hties : ∀ d, h.Searches member c d → ¬h.Tied member d := by
      rintro d hd ⟨_, _, _, _, hp, _, _⟩
      obtain ⟨steps, hr⟩ := hd.reaches hp.reaches
      exact hnone _ _ hr
    cases hl : h.lookup member c with
    | absent => rfl
    | ambiguous names => exact absurd hl (hclear hties names)
    | found m depth =>
      rw [hl] at hexplains
      obtain ⟨-, steps, -, hshortest⟩ := hexplains
      exact absurd hshortest.reaches (hnone _ _)
  · rw [he] at hexplains
    obtain ⟨hties, steps, hlength, hshortest⟩ := hexplains
    refine ⟨⟨steps, hlength, hshortest, fun steps' m' hs' => ?_⟩, hties⟩
    refine Decidable.byContradiction fun hne => ?_
    exact hties c (.here c) ⟨steps', steps, m', m, hs', hshortest, hne⟩
  · rintro ⟨⟨steps, hlength, hshortest, hunique⟩, hties⟩
    obtain ⟨m', depth', hl, -⟩ := hexplains.found_of_reaches (hclear hties) hshortest.reaches
    rw [hl] at hexplains
    obtain ⟨-, steps', hlength', hshortest'⟩ := hexplains
    cases hunique _ _ hshortest'
    rw [hl, ← hlength, ← hlength', hshortest.reaches.unique hshortest'.reaches]
  · rintro ⟨names, he⟩
    rw [he] at hexplains
    exact hexplains
  · rintro ⟨d, hd, htied⟩
    refine Classical.byContradiction fun hambiguous => ?_
    refine hexplains.not_tied (fun names he => ?_) hd htied
    exact hambiguous ⟨names, he⟩

/-- A class that is next to a declaration has a single shortest path to it, but its lookup is
ambiguous if another branch is: here `C` inherits `m` from `Near` and, two steps up, from `X` and
`Y`. -/
theorem lookup_misses_nearest_branch :
    let x := Lineage.mk "X" ["m"] []
    let y := Lineage.mk "Y" ["m"] []
    let near := Lineage.mk "Near" ["m"] []
    let c := Lineage.mk "C" [] [.mk "D" [] [x, y], near]
    (∃ steps, Lineage.hierarchy.Shortest "m" c steps "Near.m" ∧
      ∀ steps' m', Lineage.hierarchy.Shortest "m" c steps' m' → steps' = steps) ∧
    Lineage.hierarchy.lookup "m" c = .ambiguous ["X", "Y"] := by
  intro x y near c
  have hown : Lineage.hierarchy.own c "m" = none := by decide +kernel
  have hnear : Lineage.hierarchy.Reaches "m" c [1] "Near.m" :=
    ⟨near, .up rfl (.here near), by decide +kernel⟩
  have hle : ∀ steps m, Lineage.hierarchy.Reaches "m" c steps m → 1 ≤ steps.length := by
    intro steps m hr
    obtain ⟨entry, s, steps', _, rfl, _⟩ := hr.down hown
    exact Nat.succ_le_succ (Nat.zero_le _)
  refine ⟨⟨[1], ⟨hnear, hle⟩, fun steps m hs => ?_⟩, ?_⟩
  · obtain ⟨entry, s, steps', hentry, rfl, hr⟩ := hs.reaches.down hown
    have hlength : steps' = [] :=
      List.length_eq_zero_iff.1 (Nat.le_zero.1 (Nat.le_of_succ_le_succ (hs.le _ _ hnear)))
    subst hlength
    obtain ⟨d, hp, hd⟩ := hr
    cases hp
    -- Only the second superclass declares the member.
    match entry, hentry with
    | 0, rfl =>
      have hnone : Lineage.hierarchy.own (.mk "D" [] [x, y]) "m" = none := by decide +kernel
      cases hnone.symm.trans hd
    | 1, _ => rfl
    | n + 2, hentry => cases hentry
  · have hx : Lineage.hierarchy.lookup "m" x = .found "X.m" 0 := by
      rw [lookup_eq]
      rfl
    have hy : Lineage.hierarchy.lookup "m" y = .found "Y.m" 0 := by
      rw [lookup_eq]
      rfl
    have hd : Lineage.hierarchy.lookup "m" (.mk "D" [] [x, y]) = .ambiguous ["X", "Y"] := by
      rw [lookup_eq]
      change Lookup.merge [("X", Lineage.hierarchy.lookup "m" x),
        ("Y", Lineage.hierarchy.lookup "m" y)] = _
      rw [hx, hy]
      rfl
    rw [lookup_eq]
    change Lookup.merge [("D", Lineage.hierarchy.lookup "m" (.mk "D" [] [x, y])),
      ("Near", Lineage.hierarchy.lookup "m" near)] = _
    rw [hd]
    rfl

end Hierarchy

end ClassScript
