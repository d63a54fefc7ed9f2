import ClassScript.Proofs.Parse.Faithful.Programs
import ClassScript.Proofs.Parse.Opens

/-!
# Blocks and functions are accepted

Parts of the grammar that are `Nested` are `Complete` if they accept all trees with fewer tokens
than a bound. Rows with commas, blocks, and the parameters of functions are accepted with such
parts.
-/

namespace ClassScript

namespace Parse

variable {g : Nested} {line n : Nat} {ending : Endings} {behind : Bool} {xs ys : List Token}
  {F : Token.Kind → Prop}

/-- A step accepts the expressions of a rank at least that have fewer tokens than a bound. -/
def AcceptsExpr (line : Nat) (ending : Endings) (n r : Nat) (x : Parser Expr) : Prop :=
  ∀ (e : Expr) (behind : Bool), e.Grammatical False → r ≤ e.rank → (e.spell ending).length < n →
    Accepts line behind x (e.spell ending) (Stops r) (·.unplaced = e.unplaced)

/-- Nested parts accept what has fewer tokens than a bound. -/
structure Nested.Complete (g : Nested) (line : Nat) (ending : Endings) (n : Nat) : Prop where
  /-- An expression. -/
  expression : AcceptsExpr line ending n 0 g.expression
  /-- A statement with its semicolon. -/
  declaration : ∀ (s : Stmt) (behind : Bool), s.Grammatical False →
    (s.spell ending ++ ending.stmt).length < n →
    Accepts line behind g.declaration (s.spell ending ++ ending.stmt) (fun _ => True)
      (·.unplaced = s.unplaced)

/-! ### Rows -/

/-- A row of things with commas between them, each of which is accepted in front of a comma or of
what can follow the row. What is known of the things so far depends on the things to come. -/
theorem accepts_row {σ ι : Type} {loop : Nat → σ → Parser σ} (item : σ → Parser σ)
    (Inv : List ι → σ → Prop)
    (hloop : ∀ fuel acc, loop (fuel + 1) acc = (do
      let acc' ← item acc
      if ← accept .comma then loop fuel acc' else return acc'))
    {spell : ι → List Token} {items : List ι}
    (hcomma : ∀ k, F k → k ≠ .comma)
    (hitem : ∀ i ∈ items, spell i ≠ [] ∧ ∀ rest acc behind, Inv (i :: rest) acc →
      Accepts line behind (item acc) (spell i) (fun k => k = .comma ∨ F k) (Inv rest))
    (hne : items ≠ []) {fuel : Nat} (hfuel : (Token.commas (items.map spell)).length ≤ fuel)
    {acc : σ} (hacc : Inv items acc) :
    Accepts line behind (loop fuel acc) (Token.commas (items.map spell)) F (Inv []) := by
  -- On the things; what was read so far and the fuel go along.
  induction items generalizing fuel acc behind with
  | nil => exact absurd rfl hne
  | cons i rest ih =>
    obtain ⟨⟨hi, haccepts⟩, hrest⟩ := List.forall_mem_cons.1 hitem
    cases fuel with
    | zero =>
      -- Each thing has a token, so there is fuel for it.
      have hmem : spell i ∈ (i :: rest).map spell := List.mem_map_of_mem List.mem_cons_self
      have hlength := Nat.eq_zero_of_le_zero (Nat.le_trans (Token.length_le_commas hmem) hfuel)
      exact absurd (List.length_eq_zero_iff.1 hlength) hi
    | succ fuel =>
      rw [hloop]
      cases rest with
      | nil =>
        -- The last thing: no comma can follow it.
        rw [List.map_singleton, Token.commas_singleton]
        exact (haccepts [] acc behind hacc).bind_nil (fun _ => .inr) fun acc' _ hacc' _ =>
          .accept_false hcomma (.pure hacc')
      | cons j rest =>
        -- A comma stands behind the first thing, and the others behind the comma.
        have hsplit : Token.commas ((i :: j :: rest).map spell) =
            spell i ++ .mark .comma :: Token.commas ((j :: rest).map spell) :=
          Token.commas_cons _ (List.cons_ne_nil _ _)
        rw [hsplit, List.length_append, List.length_cons] at hfuel
        rw [hsplit]
        refine (haccepts (j :: rest) acc behind hacc).bind (by rintro _ rfl; exact .inl rfl)
          fun acc' _ hacc' _ => .accept_true rfl (by decide) ?_
        exact ih hrest (List.cons_ne_nil _ _) (by omega) hacc'

/-! ### Blocks and functions -/

/-- The statements of a block are accepted. -/
theorem accepts_declarations (h : g.Complete line ending n) {body : List Stmt}
    (hbody : Stmt.AllGrammatical False body) (hlength : (Stmt.spellAll ending body).length < n)
    {fuel : Nat} (hfuel : (Stmt.spellAll ending body).length ≤ fuel) (acc : List Stmt) :
    Accepts line behind (declarations g fuel acc) (Stmt.spellAll ending body) (· = .rightBrace)
      fun all => all.map Stmt.unplaced = (acc ++ body).map Stmt.unplaced := by
  induction body generalizing fuel acc behind with
  | nil =>
    rw [List.append_nil]
    cases fuel with
    | zero => exact .pure rfl
    | succ fuel =>
      -- The brace is next, and the loop ends in front of it.
      refine .check true (by rintro _ rfl; rfl) (.check false (by rintro _ rfl; rfl) ?_)
      exact .pure rfl
  | cons s rest ih =>
    obtain ⟨hs, hrest⟩ := hbody
    obtain ⟨x, xs, hx, hbrace, heof⟩ := opens_stmt ending hs
    rw [Stmt.spellAll, List.length_append] at hlength hfuel
    have hpos : 0 < (s.spell ending ++ ending.stmt).length := by rw [hx]; simp
    obtain ⟨fuel, rfl⟩ := Nat.exists_eq_add_one_of_ne_zero (n := fuel) (by omega)
    rw [Stmt.spellAll]
    -- No statement begins with what ends a block.
    refine .check false ?_ (.check false ?_ ?_)
    · rw [hx]
      rintro _ rfl
      exact decide_eq_false hbrace
    · rw [hx]
      rintro _ rfl
      exact decide_eq_false heof
    · refine (h.declaration s behind hs (by omega)).bind (fun _ _ => trivial) fun s' b hs' _ => ?_
      refine (ih hrest (by omega) (by omega) (acc ++ [s'])).mono (fun _ => id) fun all hall => ?_
      simp only [hall, List.map_append, List.map_cons, hs', List.append_assoc,
        List.cons_append, List.nil_append]

/-- A block is accepted. -/
theorem accepts_block (h : g.Complete line ending n) {b : Block} (hb : b.Grammatical False)
    (hlength : (b.spell ending).length ≤ n + 1) :
    Accepts line behind (block g) (b.spell ending) (fun _ => True) (·.unplaced = b.unplaced) := by
  obtain ⟨id, brace, body⟩ := b
  obtain ⟨hbrace, hbody⟩ := hb
  simp only [Block.spell, List.length_cons, List.length_append, List.length_nil] at hlength
  refine .expect hbrace (by decide) fun t ht => .remaining fun fuel hfuel => ?_
  rw [List.length_append] at hfuel
  refine (accepts_declarations h hbody (by omega) (by omega) []).bind (by rintro _ rfl; rfl)
    fun all b hall _ => .expect rfl (by decide) fun _ _ => .fresh fun id => .pure ?_
  rw [List.nil_append] at hall
  rw [Block.unplaced, Block.unplaced, ht.1, Stmt.unplacedAll_eq_map, Stmt.unplacedAll_eq_map, hall]

/-- A parameter that fits those in front of it passes the checks. -/
theorem parameterChecked_eq {prior : List Param} {p : Param} (hprior : ∀ q ∈ prior, q.Precedes p)
    (hboth : (p.variadic && p.defaultValue.isSome) = false) :
    parameterChecked prior p = pure p := by
  have hnames : ∀ q ∈ prior, ¬q.name.lexeme = p.name.lexeme := fun q hq => (hprior q hq).2.2
  unfold parameterChecked
  rw [complaints_eq _ _ hnames, hboth]
  cases hlast : prior.getLast? with
  | none => rfl
  | some last =>
    -- The checks compare the parameter with the last one in front of it.
    obtain ⟨hvariadic, hdefault, -⟩ := hprior last (List.mem_of_getLast? hlast)
    have hrequired :
        (last.defaultValue.isSome && p.defaultValue.isNone && !p.variadic) = false := by
      cases hvalue : last.defaultValue.isSome with
      | false => rfl
      | true =>
        rcases hdefault hvalue with hsome | hvariadic
        · rw [← Option.not_isSome, hsome]
          rfl
        · rw [hvariadic, Bool.not_true, Bool.and_false]
    simp only [hvariadic, hrequired]
    rfl

/-- A parameter is accepted behind its type. -/
theorem accepts_parameterNamed (h : g.Complete line ending n) {prior : List Param} {p : Param}
    {type : Token} (hp : p.Grammatical False) (htype : type.unplaced = p.type.unplaced)
    (hprior : ∀ q ∈ prior, q.unplaced.Precedes p.unplaced) (hlength : (p.spell ending).length ≤ n) :
    Accepts line behind (parameterNamed g prior type p.variadic)
      (p.name :: Expr.spellGiven ending p.defaultValue) AfterItem (·.unplaced = p.unplaced) := by
  obtain ⟨-, -, hname, hdefault⟩ := Param.grammatical_iff.1 hp
  -- Whatever the places are, the parameter that is made is the one that was spelled.
  have made : ∀ (name : Token) (value : Option Expr) (b : Bool), name.unplaced = p.name.unplaced →
      value.map Expr.unplaced = p.defaultValue.map Expr.unplaced →
      Accepts line b (parameterChecked prior ⟨type, name, value, p.variadic⟩) [] AfterItem
      (·.unplaced = p.unplaced) := by
    intro name value b hn hv
    have heq : (Param.mk type name value p.variadic).unplaced = p.unplaced := by
      rw [Param.unplaced_eq, Param.unplaced_eq p, htype, hn, hv]
    have hsome : value.isSome = p.defaultValue.isSome := by
      rw [← Option.isSome_map (f := Expr.unplaced), hv, Option.isSome_map]
    rw [parameterChecked_eq]
    · exact .pure heq
    · exact fun q hq => Param.precedes_unplaced.1 (heq ▸ hprior q hq)
    · change (p.variadic && value.isSome) = false
      rw [hsome]
      cases hvalue : p.defaultValue with
      | none => exact Bool.and_false _
      | some v => rw [(hdefault v hvalue).1, Bool.false_and]
  refine .expect hname (by decide) fun name hn => ?_
  rw [Param.spell_eq] at hlength
  cases hvalue : p.defaultValue with
  | none =>
    refine .accept_false (by rintro _ (rfl | rfl) <;> decide) (.known ?_)
    exact made name none true hn.1 (by rw [hvalue])
  | some v =>
    rw [hvalue] at hlength
    simp only [Expr.spellGiven, List.length_append, List.length_cons] at hlength
    refine .accept_true rfl (by decide) ?_
    have hv := h.expression v true (hdefault v hvalue).2 (Nat.zero_le _) (by omega)
    refine hv.some.bind_nil (fun _ => AfterItem.stops) ?_
    exact fun value b hv' _ => made name value b hn.1 (by rw [hv', hvalue]; rfl)

/-- A parameter is accepted behind those that may precede it. -/
theorem accepts_parameter (h : g.Complete line ending n) {prior : List Param} {p : Param}
    (hp : p.Grammatical False) (hprior : ∀ q ∈ prior, q.unplaced.Precedes p.unplaced)
    (hlength : (p.spell ending).length ≤ n) :
    Accepts line behind (parameter g prior) (p.spell ending) AfterItem
      (·.unplaced = p.unplaced) := by
  obtain ⟨htype, himplied, hname, -⟩ := Param.grammatical_iff.1 hp
  -- Behind the type there may be dots.
  have dotted : ∀ (type : Token) (b : Bool), type.unplaced = p.type.unplaced →
      Accepts line b (do parameterNamed g prior type (← accept .ellipsis))
        ((if p.variadic then [.mark .ellipsis] else []) ++
          p.name :: Expr.spellGiven ending p.defaultValue) AfterItem (·.unplaced = p.unplaced) := by
    intro type b ht
    have hnamed : ∀ b, Accepts line b (parameterNamed g prior type p.variadic) _ _ _ := fun b =>
      accepts_parameterNamed h hp ht hprior hlength
    cases hvariadic : p.variadic with
    | true =>
      rw [hvariadic] at hnamed
      exact .accept_true rfl (by decide) (hnamed true)
    | false =>
      rw [hvariadic] at hnamed
      exact .accept_false (by rintro _ rfl; rw [hname]; decide) (hnamed b)
  rw [Param.spell_eq, parameter_eq]
  cases hwritten : p.type.isImplied with
  | false =>
    -- Behind a type there is a name or dots.
    refine .peekNext fun t ht => .check true (by rintro _ rfl; exact decide_eq_true htype) ?_
    have htyped : (t.kind = .identifier || t.kind = .ellipsis) = true := by
      cases hvariadic : p.variadic <;> rw [hvariadic] at ht <;> simp_all [Next, Token.mark]
    simp only [htyped, Bool.and_self, if_true]
    exact .advance (by rw [htype]; decide) fun t ht => dotted t true ht.1
  | true =>
    have hnamed := fun b => dotted (.synthetic "Object") b (by rw [himplied hwritten])
    cases hvariadic : p.variadic with
    | true =>
      rw [hvariadic] at hnamed
      refine .peekNext fun _ _ => .check false (by rintro _ rfl; rfl) ?_
      exact .known (hnamed behind)
    | false =>
      rw [hvariadic] at hnamed
      refine .peekNext fun t ht => .check true (by rintro _ rfl; exact decide_eq_true hname) ?_
      have huntyped : (t.kind = .identifier || t.kind = .ellipsis) = false := by
        cases hvalue : p.defaultValue <;> rw [hvalue] at ht
        · rcases ht with ht | ht <;> rw [ht] <;> rfl
        · replace ht : t.kind = .equal := ht
          rw [ht]
          rfl
      simp only [huntyped, Bool.and_false]
      exact .known (hnamed behind)

/-- The parameters of a function are accepted. -/
theorem accepts_parameters (h : g.Complete line ending n) {params : List Param}
    (hparams : Param.AllGrammatical False params) (hpairs : params.Pairwise Param.Precedes)
    (hne : params ≠ []) (hlength : (Token.commas (Param.spellEach ending params)).length ≤ n)
    {fuel : Nat} (hfuel : (Token.commas (Param.spellEach ending params)).length ≤ fuel) :
    Accepts line behind (parameters g fuel []) (Token.commas (Param.spellEach ending params))
      (· = .rightParen) fun all => all.map Param.unplaced = params.map Param.unplaced := by
  rw [Param.spellEach_eq_map] at *
  -- A row of parameters, where what is known is that those that were read and those to come are the
  -- spelled ones.
  refine (accepts_row (fun ps => do return ps ++ [← parameter g ps])
    (fun rest ps => (ps ++ rest).map Param.unplaced = params.map Param.unplaced)
    (fun fuel ps => ?_) (by rintro _ rfl; decide) (fun p hp => ⟨?_, fun rest ps behind hinv => ?_⟩)
    hne hfuel rfl).mono (fun _ => id) fun all hall => by rwa [List.append_nil] at hall
  · simp only [parameters, bind_assoc, pure_bind]
  · rw [Param.spell_eq]
    simp
  · -- The parameters that were read may precede the next one, since those that they were made from
    -- may.
    have hpairs' : (params.map Param.unplaced).Pairwise Param.Precedes :=
      List.pairwise_map.2 (hpairs.imp Param.precedes_unplaced.2)
    rw [← hinv, List.map_append, List.map_cons] at hpairs'
    have hprior : ∀ q ∈ ps, q.unplaced.Precedes p.unplaced := fun q hq =>
      (List.pairwise_append.1 hpairs').2.2 _ (List.mem_map_of_mem hq) _ List.mem_cons_self
    have hp' := (Param.allGrammatical_iff False).1 hparams p hp
    have hle := Token.length_le_commas (List.mem_map_of_mem (f := (Param.spell ending ·)) hp)
    refine (accepts_parameter h hp' hprior (Nat.le_trans hle hlength)).bind_nil (fun _ => id)
      fun p' _ hp'' _ => .pure ?_
    simpa [hp''] using hinv

/-- The parameters and the body of a function are accepted. -/
theorem accepts_lambdaRest (h : g.Complete line ending n) {keyword : Token} {name : Option Token}
    {fn : Lambda} (hfn : fn.Grammatical False) (hkeyword : keyword.unplaced = fn.keyword.unplaced)
    (hname : name.map Token.unplaced = fn.name.map Token.unplaced)
    (hlength : (Lambda.spellRest ending fn).length ≤ n) :
    Accepts line behind (lambdaRest g keyword name) (Lambda.spellRest ending fn) (fun _ => True)
      (·.unplaced = fn.unplaced) := by
  obtain ⟨id, keyword', name', params, body⟩ := fn
  obtain ⟨hpairs, hparams, hbody⟩ := hfn
  dsimp only [Lambda.spellRest] at hlength ⊢
  simp only [List.length_cons, List.length_append] at hlength
  -- Behind the parameters, whatever they were made from, there is the body.
  have finish : ∀ (params' : List Param) (b : Bool),
      params'.map Param.unplaced = params.map Param.unplaced → Accepts line b
        (do
          let _ ← expect .rightParen .paramsClose
          let body ← block g
          return (⟨← fresh, keyword, name, params', body.body⟩ : Lambda))
        (.mark .rightParen :: .mark .leftBrace ::
          (Stmt.spellAll ending body ++ [.mark .rightBrace]))
        (fun _ => True) (·.unplaced = Lambda.unplaced ⟨id, keyword', name', params, body⟩) := by
    intro params' b hparams'
    refine .expect rfl (by decide) fun _ _ => ?_
    have hblock : Accepts line true (block g) (Block.spell ending ⟨0, .mark .leftBrace, body⟩)
        _ _ :=
      accepts_block h ⟨rfl, hbody⟩
        (by simp only [Block.spell, List.length_cons, List.length_append]; omega)
    refine hblock.bind_nil (fun _ _ => trivial) fun block' _ hb _ => .fresh fun id => .pure ?_
    obtain ⟨_, _, body'⟩ := block'
    have hbody' : Stmt.unplacedAll body' = Stmt.unplacedAll body := congrArg Block.body hb
    simp only [Lambda.unplaced, hkeyword, hname, Param.unplacedAll_eq_map, hparams', hbody']
  refine .expect rfl (by decide) fun _ _ => ?_
  cases params with
  | nil => exact .check true (by rintro _ rfl; rfl) (.known (finish [] true rfl))
  | cons p rest =>
    refine .check false ?_ (.remaining fun fuel hfuel => ?_)
    · -- A parameter does not begin with a closing parenthesis.
      obtain ⟨x, xs, hx, hkind⟩ := Param.spell_head ending hparams.1
      obtain ⟨ys, hys⟩ := Token.exists_commas_eq x xs (Param.spellEach ending rest)
      rw [Param.spellEach, hx, hys]
      rintro _ rfl
      exact decide_eq_false hkind
    · rw [List.length_append] at hfuel
      exact (accepts_parameters h hparams hpairs (List.cons_ne_nil _ _) (by omega) (by omega)).bind
        (by rintro _ rfl; rfl) fun params' b hparams' _ => finish params' b hparams'

end Parse

end ClassScript
