import ClassScript.Proofs.Parse.Accepts

/-!
# How trees begin and where expressions end

The grammar tells by the first token, and for names and functions by the second one, which tree is
there. An expression ends in front of a kind that `Stops` it: one that binds less tightly than the
expression may, or not at all.
-/

namespace ClassScript

/-- The kinds of tokens that stand for constants. -/
def Token.Kind.constants : List Token.Kind :=
  [.falseWord, .trueWord, .nilWord, .integer, .float, .string]

/-- The kinds of tokens that expressions begin with. -/
def Token.Kind.opening : List Token.Kind :=
  constants ++ [.identifier, .selfWord, .superWord, .funWord, .leftParen, .leftBracket, .bang,
    .minus]

/-- A kind that no expression begins with is none that one begins with. -/
theorem Token.Kind.ne_of_opening {k kind : Token.Kind} (h : k ∈ opening) (hkind : kind ∉ opening) :
    k ≠ kind :=
  fun he => hkind (he ▸ h)

namespace Parse

/-! ### Expressions -/

/-- Tokens begin as an expression of a rank does. Two parts of the grammar look at the second token:
behind a name there is no colon, unless one can follow, and behind `fun` there are parameters. -/
def Opens (r : Nat) (F : Token.Kind → Prop) (xs : List Token) : Prop :=
  ∃ x rest, xs = x :: rest ∧ x.kind ∈ Token.Kind.opening ∧
    (r = 8 → x.kind ≠ .bang ∧ x.kind ≠ .minus) ∧
    (x.kind = .identifier → ∀ k, Next F rest k → k ≠ .colon) ∧
    (x.kind = .funWord → ∀ k, Next F rest k → k = .leftParen)

namespace Opens

variable {r r' : Nat} {F F' : Token.Kind → Prop} {x : Token} {xs ys : List Token}

/-- What opens an expression opens a longer one. -/
theorem append (h : Opens r F xs) (hr : r' = 8 → r = 8) (hnext : ∀ k, Next F' ys k → F k) :
    Opens r' F' (xs ++ ys) := by
  obtain ⟨x, rest, rfl, hx, htight, hname, hfun⟩ := h
  exact ⟨x, rest ++ ys, rfl, hx, fun h8 => htight (hr h8),
    fun hk k hk' => hname hk k (hk'.of_append (hnext k)),
    fun hk k hk' => hfun hk k (hk'.of_append (hnext k))⟩

/-- A token that is neither a name nor the word `fun` begins an expression whatever is behind it. -/
theorem single {kind : Token.Kind} (hx : x.kind = kind)
    (hkind : kind ∈ Token.Kind.opening ∧ kind ≠ .identifier ∧ kind ≠ .funWord)
    (htight : r = 8 → kind ≠ .bang ∧ kind ≠ .minus) : Opens r F (x :: xs) := by
  subst hx
  exact ⟨x, xs, rfl, hkind.1, htight, fun h => absurd h hkind.2.1, fun h => absurd h hkind.2.2⟩

/-- A name begins an expression if no colon is behind it. -/
theorem name (hx : x.kind = .identifier) (h : ∀ k, Next F xs k → k ≠ .colon) :
    Opens r F (x :: xs) := by
  refine ⟨x, xs, rfl, ?_, fun _ => ?_, fun _ => h, ?_⟩ <;> rw [hx]
  · decide
  · decide
  · exact nofun

end Opens

/-- A token with a value is of a kind of constants. -/
theorem kind_of_constant? {t : Token} {value : Literal} (h : constant? t = some value) :
    t.kind ∈ Token.Kind.constants := by
  unfold constant? at h
  split at h
  case h_7 => cases h
  all_goals simp [Token.Kind.constants, *]

/-- A token of any other kind has no value. -/
theorem constant?_eq_none {t : Token} {kind : Token.Kind} (ht : t.kind = kind)
    (hkind : kind ∉ Token.Kind.constants) : constant? t = none :=
  Option.eq_none_iff_forall_ne_some.2 fun _ h => hkind (ht ▸ kind_of_constant? h)

/-- The operator behind the left operand is no colon, and its expression not one of calls. -/
theorem Opens.operand {low high : Nat} {left right : Expr} {op : Token} {xs : List Token}
    (hjoined : Expr.Joined low high left op right) (hhigh : high < 8)
    (hleft : Opens left.rank (· ≠ .colon) xs) (ys : List Token) :
    Opens (op.kind.binding?.getD 0) (· ≠ .colon) (xs ++ op :: ys) := by
  obtain ⟨r, hbinding, -, hr, -⟩ := hjoined
  refine hleft.append (fun h8 => ?_) ?_
  · rw [hbinding, Option.getD_some] at h8
    omega
  · rintro _ rfl hcolon
    rw [hcolon] at hbinding
    cases hbinding

/-- Every expression of the grammar begins as one. -/
theorem opens_expr (ending : Endings) {lone : Prop} (e : Expr)
    (he : e.BareSuper ∨ e.Grammatical lone) : Opens e.rank (· ≠ .colon) (e.spell ending) := by
  match e, he with
  | .assign .., .inr ⟨hname, _⟩ => exact .name hname (by rintro _ rfl; decide)
  | .binary _ left op right, .inr ⟨hjoined, hleft, _⟩ =>
    exact .operand hjoined (by decide) (opens_expr ending left (.inr hleft)) _
  | .logical _ left op right, .inr ⟨hjoined, hleft, _⟩ =>
    exact .operand hjoined (by decide) (opens_expr ending left (.inr hleft)) _
  | .call _ callee .., .inr ⟨hrank, hcallee, _⟩ =>
    -- What is behind the callee matters only where the rank is that of a postfix.
    exact (opens_expr ending callee hcallee).append (fun _ => hrank) (by rintro _ rfl; decide)
  | .get _ object _, .inr ⟨hrank, hobject, _⟩ =>
    exact (opens_expr ending object (.inr hobject)).append (fun _ => hrank)
      (by rintro _ rfl; decide)
  | .set _ object .., .inr ⟨_, hobject, _⟩ =>
    exact (opens_expr ending object (.inr hobject)).append (fun h8 => by cases h8)
      (by rintro _ rfl; decide)
  | .group .., .inr ⟨hparen, _⟩ => exact .single hparen (by decide) fun _ => by decide
  | .literal .., .inr hvalue =>
    have hall : ∀ kind ∈ Token.Kind.constants,
        (kind ∈ Token.Kind.opening ∧ kind ≠ .identifier ∧ kind ≠ .funWord) ∧
          kind ≠ .bang ∧ kind ≠ .minus := by decide
    obtain ⟨hkind, htight⟩ := hall _ (kind_of_constant? hvalue)
    exact .single rfl hkind fun _ => htight
  | .list .., .inr ⟨hbracket, _⟩ => exact .single hbracket (by decide) fun _ => by decide
  | .self .., .inr hkeyword => exact .single hkeyword (by decide) fun _ => by decide
  | .super _ keyword none, he =>
    have hkeyword : keyword.kind = .superWord := he.elim id And.right
    exact .single hkeyword (by decide) fun _ => by decide
  | .super _ _ (some _), .inr ⟨hkeyword, _⟩ =>
    exact .single hkeyword (by decide) fun _ => by decide
  | .unary .., .inr ⟨hop, _⟩ =>
    rcases hop with hop | hop <;> exact .single hop (by decide) fun h8 => by cases h8
  | .var use, .inr hname => exact .name hname fun _ => id
  | .lambda ⟨_, keyword, name, params, body⟩, .inr ⟨hkeyword, hname, _⟩ =>
    -- A lambda is spelled with its keyword, and a parenthesis stands behind it.
    replace hkeyword : keyword.kind = .funWord := hkeyword
    obtain rfl : name = none := hname
    rw [Expr.spell, Lambda.spell, if_pos hkeyword]
    refine ⟨keyword, _, rfl, ?_, fun _ => ?_, ?_, ?_⟩
    · rw [hkeyword]
      decide
    · rw [hkeyword]
      decide
    · rw [hkeyword]
      intro hname
      cases hname
    · rintro - _ rfl
      rfl

/-! ### Statements and their parts -/

section Parts

variable {lone : Prop}

/-- Every statement of the grammar begins neither with a closing brace nor with the end. -/
theorem opens_stmt (ending : Endings) {s : Stmt} (hs : s.Grammatical lone) :
    ∃ x rest, s.spell ending = x :: rest ∧ x.kind ≠ .rightBrace ∧ x.kind ≠ .eof := by
  -- A statement opens with an expression or with a mark of its own.
  have expr : ∀ e : Expr, e.Grammatical lone → ∃ x rest,
      e.spell ending = x :: rest ∧ x.kind ≠ .rightBrace ∧ x.kind ≠ .eof := by
    intro e he
    obtain ⟨x, rest, heq, hx, -⟩ := opens_expr ending e (.inr he)
    exact ⟨x, rest, heq, Token.Kind.ne_of_opening hx (by decide),
      Token.Kind.ne_of_opening hx (by decide)⟩
  have mark : ∀ (x : Token) (rest : List Token) {kind : Token.Kind}, x.kind = kind →
      kind ≠ .rightBrace ∧ kind ≠ .eof → ∃ x' rest',
        x :: rest = x' :: rest' ∧ x'.kind ≠ .rightBrace ∧ x'.kind ≠ .eof := by
    rintro x rest _ rfl hx
    exact ⟨x, rest, rfl, hx⟩
  match s, hs with
  | .block ⟨_, _, _⟩, ⟨hbrace, _⟩ => exact mark _ _ hbrace (by decide)
  | .classDecl .., _ => exact mark _ _ rfl (by decide)
  | .expr _ value, hvalue => exact expr value hvalue
  | .function _ ⟨_, keyword, name, params, body⟩, ⟨_, hkeyword, _⟩ =>
    refine ⟨keyword, _, by simp only [Stmt.spell, Lambda.spell, if_pos hkeyword]; rfl, ?_⟩
    rw [hkeyword]
    decide
  | .ifElse _ _ _ _ none, ⟨hkeyword, _⟩ => exact mark _ _ hkeyword (by decide)
  | .ifElse _ _ _ _ (some _), ⟨hkeyword, _⟩ => exact mark _ _ hkeyword (by decide)
  | .forIn .., ⟨hkeyword, _⟩ => exact mark _ _ hkeyword (by decide)
  | .ret _ _ none, hkeyword => exact mark _ _ hkeyword (by decide)
  | .ret _ _ (some _), ⟨hkeyword, _⟩ => exact mark _ _ hkeyword (by decide)
  | .varDecl _ _ none, _ => exact mark _ _ rfl (by decide)
  | .varDecl _ _ (some _), _ => exact mark _ _ rfl (by decide)
  | .whileLoop .., ⟨hkeyword, _⟩ => exact mark _ _ hkeyword (by decide)

/-- A block begins with a brace. -/
theorem head_block {ending : Endings} {F : Token.Kind → Prop} {xs : List Token} {b : Block}
    {k : Token.Kind} (hb : b.Grammatical lone) (hk : Next F (b.spell ending ++ xs) k) :
    k = .leftBrace := by
  obtain ⟨id, brace, body⟩ := b
  exact Eq.trans hk hb.1

end Parts

/-! ### Ends -/

/-- A kind binds what stands in front of it less tightly than a rank, if at all. -/
def Stops (r : Nat) (k : Token.Kind) : Prop := ∀ q, k.binding? = some q → q < r

/-- What stops an expression stops a tighter one. -/
theorem Stops.mono {r r' : Nat} {k : Token.Kind} (h : Stops r k) (hr : r ≤ r') : Stops r' k :=
  fun q hq => Nat.lt_of_lt_of_le (h q hq) hr

/-- What binds nothing stops every expression. -/
theorem stops_of_none {r : Nat} {k : Token.Kind} (h : k.binding? = none) : Stops r k :=
  fun q hq => by rw [h] at hq; cases hq

/-- What can follow a parameter or an argument. -/
def AfterItem (k : Token.Kind) : Prop := k = .comma ∨ k = .rightParen

/-- Every expression stops in front of what can follow a parameter or an argument. -/
theorem AfterItem.stops {r : Nat} {k : Token.Kind} (h : AfterItem k) : Stops r k := by
  rcases h with rfl | rfl <;> exact stops_of_none rfl

end Parse

end ClassScript
