import ClassScript.Proofs.Parse.Faithful.Programs
import ClassScript.Proofs.Parse.Parts
import ClassScript.Proofs.Token.Places

/-!
# Parameters and arguments stand in order

In a source without errors the parameters of every function have different names, the required ones
come first and a variadic one comes last, and in every call the positional arguments stand in front
of the named ones. A parameter is only compared with those in front of it, so that the order of all
of them is that of any two; and where an argument stands in the source is read off the tokens that
its tree keeps.
-/

namespace ClassScript

/-! ### Parameters -/

namespace Param

/-- A parameter that every call has to give a value. -/
def Required (p : Param) : Prop := p.defaultValue = none ∧ p.variadic = false

/-- Parameters as the calls of their function rely on them. -/
structure InOrder (params : List Param) : Prop where
  /-- The names are different. -/
  distinct : (params.map (·.name.lexeme)).Nodup
  /-- At most one parameter collects further arguments. -/
  one_variadic : params.countP (·.variadic) ≤ 1
  /-- It is the last one and has no default. -/
  variadic_last : ∀ p ∈ params, p.variadic → params.getLast? = some p ∧ p.defaultValue = none
  /-- No required parameter stands behind one with a default. -/
  required_first : params.Pairwise fun p q => p.defaultValue.isSome → ¬q.Required

variable {params : List Param}

/-- A parameter in front of others is not variadic, so that a variadic one is the last. -/
theorem getLast?_of_variadic (h : params.Pairwise Precedes) {p : Param} (hp : p ∈ params)
    (hvariadic : p.variadic) : params.getLast? = some p := by
  obtain ⟨before, after, rfl⟩ := List.append_of_mem hp
  have hafter := (List.pairwise_cons.1 (List.pairwise_append.1 h).2.1).1
  cases after with
  | nil => rw [List.getLast?_append_cons, List.getLast?_singleton]
  | cons q rest =>
    have hplain := (hafter q List.mem_cons_self).1
    rw [hplain] at hvariadic
    cases hvariadic

/-- No parameter stands behind a variadic one, so there is one at most. -/
theorem countP_variadic_le (h : params.Pairwise Precedes) : params.countP (·.variadic) ≤ 1 := by
  induction params with
  | nil => exact Nat.zero_le _
  | cons p rest ih =>
    obtain ⟨hp, hrest⟩ := List.pairwise_cons.1 h
    cases rest with
    | nil => exact List.countP_le_length
    | cons q rest =>
      have hplain : p.variadic = false := (hp q List.mem_cons_self).1
      rw [List.countP_cons_of_neg (by simp [hplain])]
      exact ih hrest

/-- Parameters that may precede each other stand in order. -/
theorem inOrder_of_precedes {lone : Prop} (h : params.Pairwise Precedes)
    (hparams : AllGrammatical lone params) : InOrder params where
  distinct := (List.pairwise_map.2 (h.imp fun hpq => hpq.2.2))
  one_variadic := countP_variadic_le h
  variadic_last p hp hvariadic := by
    refine ⟨getLast?_of_variadic h hp hvariadic, Option.eq_none_iff_forall_ne_some.2 ?_⟩
    intro value hvalue
    have hg := grammatical_iff.1 ((allGrammatical_iff lone).1 hparams p hp)
    -- A parameter with a default is no variadic one.
    have hplain := (hg.2.2.2 value hvalue).1
    rw [hplain] at hvariadic
    cases hvariadic
  required_first := h.imp fun hpq hdefault hrequired => by
    rcases hpq.2.1 hdefault with hq | hq
    · rw [hrequired.1] at hq
      cases hq
    · rw [hrequired.2] at hq
      cases hq

end Param

/-! ### Tokens that a tree keeps -/

section Kept

variable {ts us vs piece : List Token} {t u : Token}

/-- A tree keeps the tokens whose lexemes vary. -/
theorem Token.Kept.eq_of_varies (h : t.Kept u) (hu : u.kind.varies = true) : u = t := by
  rcases h with rfl | ⟨ht, rfl⟩
  · rfl
  · have hmark : t.kind.varies = true := hu
    rw [ht] at hmark
    cases hmark

/-- Tokens that are kept for a row in two parts come in two parts themselves. -/
theorem exists_append_of_kept (h : List.Forall₂ Token.Kept ts (us ++ vs)) :
    ∃ ts₁ ts₂, ts = ts₁ ++ ts₂ ∧ List.Forall₂ Token.Kept ts₁ us ∧
      List.Forall₂ Token.Kept ts₂ vs :=
  ⟨_, _, (List.take_append_drop us.length ts).symm, List.forall₂_take_append ts us vs h,
    List.forall₂_drop_append ts us vs h⟩

/-- What is spelled in one piece is read in one piece. -/
theorem exists_piece_of_kept (h : List.Forall₂ Token.Kept ts us) (hpiece : piece <:+: us) :
    ∃ read, read <:+: ts ∧ List.Forall₂ Token.Kept read piece := by
  obtain ⟨before, after, rfl⟩ := hpiece
  obtain ⟨ts₁, ts₂, rfl, hts₁, -⟩ := exists_append_of_kept h
  obtain ⟨ts₃, ts₄, rfl, -, hts₄⟩ := exists_append_of_kept hts₁
  exact ⟨ts₄, ⟨ts₃, ts₂, rfl⟩, hts₄⟩

/-- A name that is spelled is a token of the source. -/
theorem mem_of_kept (h : List.Forall₂ Token.Kept ts us) (hu : u ∈ us)
    (hname : u.kind = .identifier) : u ∈ ts := by
  obtain ⟨before, after, rfl⟩ := List.append_of_mem hu
  obtain ⟨ts₁, ts₂, rfl, -, hts₂⟩ := exists_append_of_kept h
  cases hts₂ with
  | cons hkept _ =>
    rw [hkept.eq_of_varies (hname ▸ rfl)]
    exact List.mem_append_right _ List.mem_cons_self

end Kept

/-! ### Arguments -/

namespace Expr

/-- The arguments of a call as their order in the source has them. -/
structure InOrder (ts : List Token) (args : List Expr) (named : List NamedArg) : Prop where
  /-- The names are different. -/
  distinct : (named.map (·.name.lexeme)).Nodup
  /-- The names are tokens of the source. -/
  named_mem : ∀ arg ∈ named, arg.name ∈ ts
  /-- A positional argument is read in one piece, and all of it in front of all names. -/
  positional_first : ∀ e ∈ args, ∃ read, read <:+: ts ∧
    List.Forall₂ Token.Kept read (e.spell .omitted) ∧
    ∀ arg ∈ named, ∀ t ∈ read, t.Before arg.name

variable {ts us : List Token} {args : List Expr} {named : List NamedArg}

/-- A name between the commas. -/
theorem name_mem_commas {ending : Endings} {arg : NamedArg} (harg : arg ∈ named)
    (pieces : List (List Token)) :
    arg.name ∈ Token.commas (pieces ++ NamedArg.spellEach ending named) := by
  have hpiece : (arg.name :: .mark .colon :: arg.value.spell ending) ∈
      NamedArg.spellEach ending named := by
    rw [NamedArg.spellEach_eq_map]
    exact List.mem_map_of_mem (f := fun arg : NamedArg =>
      arg.name :: .mark .colon :: arg.value.spell ending) harg
  exact (piece_between (List.infix_refl _) _ (List.mem_append_right _ hpiece)).subset
    List.mem_cons_self

/-- Arguments that are read between parentheses are in order if the tokens are. -/
theorem inOrder_of_kept (hts : ts.Pairwise Token.Before)
    (h : List.Forall₂ Token.Kept ts
      (Token.commas (spellEach .omitted args ++ NamedArg.spellEach .omitted named)))
    (hnames : ∀ arg ∈ named, arg.name.kind = .identifier)
    (hdistinct : (named.map (·.name.lexeme)).Nodup) : InOrder ts args named where
  distinct := hdistinct
  named_mem arg harg := mem_of_kept h (name_mem_commas harg _) (hnames arg harg)
  positional_first e he := by
    have hpiece : e.spell .omitted ∈ spellEach .omitted args := by
      rw [spellEach_eq_map]
      exact List.mem_map_of_mem he
    by_cases hnone : NamedArg.spellEach .omitted named = []
    · obtain rfl : named = [] := by
        rw [NamedArg.spellEach_eq_map] at hnone
        exact List.map_eq_nil_iff.1 hnone
      obtain ⟨read, hread, hkept⟩ := exists_piece_of_kept h
        (piece_between (List.infix_refl _) _ (List.mem_append_left _ hpiece))
      exact ⟨read, hread, hkept, nofun⟩
    · -- The comma behind the positional arguments parts the tokens.
      rw [Token.commas_append (List.ne_nil_of_mem hpiece) hnone] at h
      obtain ⟨ts₁, ts₂, rfl, hts₁, hts₂⟩ := exists_append_of_kept h
      obtain ⟨read, hread, hkept⟩ := exists_piece_of_kept hts₁
        (piece_between (List.infix_refl _) _ hpiece)
      refine ⟨read, hread.trans (List.prefix_append _ _).isInfix, hkept, fun arg harg t ht => ?_⟩
      have hname := mem_of_kept hts₂
        (List.mem_cons_of_mem _ (name_mem_commas harg [])) (hnames arg harg)
      exact (List.pairwise_append.1 hts).2.2 t (hread.subset ht) arg.name hname

end Expr

/-! ### Programs -/

/-- A node whose parameters or arguments stand in order among given tokens. -/
def Node.InOrder (ts : List Token) : Node → Prop
  | expr (.lambda fn) => Param.InOrder fn.params
  | expr (.call _ _ _ args named) => Expr.InOrder ts args named
  | _ => True

/-- Arguments stand in order among more tokens as well. -/
theorem Expr.InOrder.mono {ts ts' : List Token} {args : List Expr} {named : List NamedArg}
    (h : Expr.InOrder ts args named) (hts : ts <:+: ts') : Expr.InOrder ts' args named where
  distinct := h.distinct
  named_mem arg harg := hts.subset (h.named_mem arg harg)
  positional_first e he := by
    obtain ⟨read, hread, hkept, hbefore⟩ := h.positional_first e he
    exact ⟨read, hread.trans hts, hkept, hbefore⟩

/-- A node of the grammar that is read from a piece of ordered tokens is in order. -/
theorem Node.inOrder {lone : Prop} {ts read us : List Token} {n : Node}
    (h : n.PartOf lone .omitted us) (hkept : List.Forall₂ Token.Kept read us)
    (hread : read <:+: ts) (hts : ts.Pairwise Token.Before) : n.InOrder ts := by
  unfold InOrder
  split
  · next fn =>
    obtain ⟨id, keyword, name, params, body⟩ := fn
    exact Param.inOrder_of_precedes h.grammatical.1 h.grammatical.2.1
  · -- The names of the arguments stand in a piece of the tokens that are in order.
    next args named =>
    rcases h.grammatical with hbare | hg
    · exact hbare.elim
    · obtain ⟨-, -, -, -, hnamed, hdistinct⟩ := hg
      obtain ⟨inner, hinner, hpieces⟩ := exists_piece_of_kept hkept
        (piece_left (piece_behind (piece_right h.piece)))
      have hpart := hinner.trans hread
      have hnames := (NamedArg.allGrammatical_iff lone).1 hnamed
      exact (Expr.inOrder_of_kept (hts.sublist hpart.sublist) hpieces
        (fun arg harg => (hnames arg harg).1) hdistinct).mono hpart
  · trivial

namespace Parse

/-- In a source that is parsed without errors the parameters of every function and the arguments of
every call stand in order: the names are different, required parameters come first and a variadic
one comes last, and positional arguments stand in front of named ones. -/
theorem parse_keeps_order (src : List Glyph) (n : NodeId)
    (h : (tokens (Token.scan src) n).errors = []) :
    ∀ node ∈ allNodes (tokens (Token.scan src) n).program,
      node.InOrder ((Token.scan src).filter (·.kind ≠ .semicolon)) := by
  obtain ⟨taken, last, hscan, -, -, hwritten, hprogram⟩ := written_tokens h
  intro node hnode
  have hpart : node.PartOf True .omitted
      (Stmt.spellAll .omitted (tokens (Token.scan src) n).program) :=
    Stmt.partsOf _ hprogram (List.infix_refl _) node hnode
  refine node.inOrder hpart hwritten.kept ?_ ((Token.inOrder_scan src).filter _)
  rw [hscan, List.filter_append]
  exact (List.prefix_append _ _).isInfix

/-- Parameters and arguments of all sorts, with a further call among the positional arguments. -/
theorem parse_keeps_order_nested :
    let src := Glyph.ofString "fun f(a, Int b = 1, ...c) { f(f(1, b: 2), a, b: c) }"
    let nodes := allNodes (tokens (Token.scan src) 0).program
    (tokens (Token.scan src) 0).errors = [] ∧
      (nodes.filterMap fun
        | .expr (.lambda fn) => some fn.params.length
        | _ => none) = [3] ∧
      (nodes.filterMap fun
        | .expr (.call _ _ _ args named) => some (args.length, named.length)
        | _ => none) = [(2, 1), (1, 1)] ∧
      ∀ node ∈ nodes, node.InOrder ((Token.scan src).filter (·.kind ≠ .semicolon)) := by
  intro src nodes
  have herrors : (tokens (Token.scan src) 0).errors = [] :=
    List.isEmpty_iff.1 (by decide +kernel)
  exact ⟨herrors, by decide +kernel, by decide +kernel, parse_keeps_order src 0 herrors⟩

end Parse

end ClassScript
