import Mathlib.Data.List.Forall2
import ClassScript.Proofs.Parse.Reads

/-!
# Steps that accept what is written on one line

A tree without the identities of its nodes and without the places of its tokens is `unplaced`; two
trees that are the same then differ in nothing that a source could say. `Placed` tokens are given
ones at other places of one line, and a step that `Accepts` them ends behind them without a
complaint.

What may follow the tokens is a predicate on kinds, since the grammar has no mark that ends an
expression: an operator of a level goes on with whatever its left operand could be.
-/

namespace ClassScript

/-! ### Trees without places -/

/-- A token without its place. -/
def Token.unplaced (t : Token) : Token := { t with line := 0, column := 0 }

/-- A use of a name without its identity and place. -/
def NameUse.unplaced (use : NameUse) : NameUse := ⟨0, use.name.unplaced⟩

mutual

/-- An expression without identities and places. -/
def Expr.unplaced : Expr → Expr
  | .assign _ name value => .assign 0 name.unplaced value.unplaced
  | .binary _ left op right => .binary 0 left.unplaced op.unplaced right.unplaced
  | .call _ callee paren args named =>
    .call 0 callee.unplaced paren.unplaced (Expr.unplacedAll args) (NamedArg.unplacedAll named)
  | .get _ object name => .get 0 object.unplaced name.unplaced
  | .set _ object name value => .set 0 object.unplaced name.unplaced value.unplaced
  | .group _ paren inner => .group 0 paren.unplaced inner.unplaced
  | .literal _ token value => .literal 0 token.unplaced value
  | .list _ bracket elements => .list 0 bracket.unplaced (Expr.unplacedAll elements)
  | .logical _ left op right => .logical 0 left.unplaced op.unplaced right.unplaced
  | .self _ keyword => .self 0 keyword.unplaced
  | .super _ keyword method => .super 0 keyword.unplaced (method.map Token.unplaced)
  | .unary _ op right => .unary 0 op.unplaced right.unplaced
  | .var use => .var use.unplaced
  | .lambda fn => .lambda fn.unplaced

/-- Expressions without identities and places. -/
def Expr.unplacedAll : List Expr → List Expr
  | [] => []
  | e :: rest => e.unplaced :: Expr.unplacedAll rest

/-- Named arguments without identities and places. -/
def NamedArg.unplacedAll : List NamedArg → List NamedArg
  | [] => []
  | ⟨name, value⟩ :: rest => ⟨name.unplaced, value.unplaced⟩ :: NamedArg.unplacedAll rest

/-- A parameter without identities and places. -/
def Param.unplaced : Param → Param
  | ⟨type, name, none, variadic⟩ => ⟨type.unplaced, name.unplaced, none, variadic⟩
  | ⟨type, name, some value, variadic⟩ =>
    ⟨type.unplaced, name.unplaced, some value.unplaced, variadic⟩

/-- Parameters without identities and places. -/
def Param.unplacedAll : List Param → List Param
  | [] => []
  | p :: rest => p.unplaced :: Param.unplacedAll rest

/-- A function without identities and places. -/
def Lambda.unplaced : Lambda → Lambda
  | ⟨_, keyword, name, params, body⟩ =>
    ⟨0, keyword.unplaced, name.map Token.unplaced, Param.unplacedAll params,
      Stmt.unplacedAll body⟩

/-- Methods without identities and places. -/
def Lambda.unplacedAll : List Lambda → List Lambda
  | [] => []
  | fn :: rest => fn.unplaced :: Lambda.unplacedAll rest

/-- A block without identities and places. -/
def Block.unplaced : Block → Block
  | ⟨_, brace, body⟩ => ⟨0, brace.unplaced, Stmt.unplacedAll body⟩

/-- A statement without identities and places. -/
def Stmt.unplaced : Stmt → Stmt
  | .block b => .block b.unplaced
  | .classDecl _ name supers methods =>
    .classDecl 0 name.unplaced (supers.map NameUse.unplaced) (Lambda.unplacedAll methods)
  | .expr _ value => .expr 0 value.unplaced
  | .function _ fn => .function 0 fn.unplaced
  | .ifElse _ keyword condition body none =>
    .ifElse 0 keyword.unplaced condition.unplaced body.unplaced none
  | .ifElse _ keyword condition body (some otherwise) =>
    .ifElse 0 keyword.unplaced condition.unplaced body.unplaced (some otherwise.unplaced)
  | .forIn _ keyword name iterable body =>
    .forIn 0 keyword.unplaced name.unplaced iterable.unplaced body.unplaced
  | .ret _ keyword none => .ret 0 keyword.unplaced none
  | .ret _ keyword (some value) => .ret 0 keyword.unplaced (some value.unplaced)
  | .varDecl _ name none => .varDecl 0 name.unplaced none
  | .varDecl _ name (some value) => .varDecl 0 name.unplaced (some value.unplaced)
  | .whileLoop _ keyword condition body =>
    .whileLoop 0 keyword.unplaced condition.unplaced body.unplaced

/-- Statements without identities and places. -/
def Stmt.unplacedAll : List Stmt → List Stmt
  | [] => []
  | s :: rest => s.unplaced :: Stmt.unplacedAll rest

end

/-- Expressions in a row lose their places one by one. -/
theorem Expr.unplacedAll_eq_map (es : List Expr) : Expr.unplacedAll es = es.map Expr.unplaced := by
  induction es with
  | nil => rfl
  | cons e rest ih => rw [Expr.unplacedAll, ih, List.map_cons]

/-- A named argument without identities and places. -/
def NamedArg.unplaced (arg : NamedArg) : NamedArg := ⟨arg.name.unplaced, arg.value.unplaced⟩

/-- So do named arguments. -/
theorem NamedArg.unplacedAll_eq_map (args : List NamedArg) :
    NamedArg.unplacedAll args = args.map NamedArg.unplaced := by
  induction args with
  | nil => rfl
  | cons arg rest ih =>
    obtain ⟨name, value⟩ := arg
    rw [NamedArg.unplacedAll, ih, List.map_cons, NamedArg.unplaced]

/-- So do parameters. -/
theorem Param.unplacedAll_eq_map (params : List Param) :
    Param.unplacedAll params = params.map Param.unplaced := by
  induction params with
  | nil => rfl
  | cons p rest ih => rw [Param.unplacedAll, ih, List.map_cons]

/-- So do methods. -/
theorem Lambda.unplacedAll_eq_map (fns : List Lambda) :
    Lambda.unplacedAll fns = fns.map Lambda.unplaced := by
  induction fns with
  | nil => rfl
  | cons fn rest ih => rw [Lambda.unplacedAll, ih, List.map_cons]

/-- So do statements. -/
theorem Stmt.unplacedAll_eq_map (body : List Stmt) :
    Stmt.unplacedAll body = body.map Stmt.unplaced := by
  induction body with
  | nil => rfl
  | cons s rest ih => rw [Stmt.unplacedAll, ih, List.map_cons]

/-- The parts of a parameter lose their places one by one. -/
theorem Param.unplaced_eq (p : Param) :
    p.unplaced = ⟨p.type.unplaced, p.name.unplaced, p.defaultValue.map Expr.unplaced,
      p.variadic⟩ := by
  obtain ⟨type, name, _ | value, variadic⟩ := p <;> rfl

/-- The parts of a call lose their places one by one. -/
theorem Expr.unplaced_call {id : NodeId} {callee : Expr} {paren : Token} {args : List Expr}
    {named : List NamedArg} : (Expr.call id callee paren args named).unplaced =
      .call 0 callee.unplaced paren.unplaced (args.map Expr.unplaced)
        (named.map NamedArg.unplaced) := by
  rw [Expr.unplaced, Expr.unplacedAll_eq_map, NamedArg.unplacedAll_eq_map]

/-- So do those of a list. -/
theorem Expr.unplaced_list {id : NodeId} {bracket : Token} {es : List Expr} :
    (Expr.list id bracket es).unplaced = .list 0 bracket.unplaced (es.map Expr.unplaced) := by
  rw [Expr.unplaced, Expr.unplacedAll_eq_map]

/-- So do those of a class. -/
theorem Stmt.unplaced_classDecl {id : NodeId} {name : Token} {supers : List NameUse}
    {methods : List Lambda} : (Stmt.classDecl id name supers methods).unplaced =
      .classDecl 0 name.unplaced (supers.map NameUse.unplaced) (methods.map Lambda.unplaced) := by
  rw [Stmt.unplaced, Lambda.unplacedAll_eq_map]

/-- Which parameters may stand in front of others does not depend on places. -/
theorem Param.precedes_unplaced {p q : Param} : p.unplaced.Precedes q.unplaced ↔ p.Precedes q := by
  rw [Param.unplaced_eq, Param.unplaced_eq]
  simp only [Param.Precedes, Option.isSome_map, Token.unplaced]

section Optional

variable {id : NodeId} {keyword name : Token} {value : Option Expr} {condition : Expr}
  {body : Block} {otherwise : Option Stmt}

/-- So do those of a variable's declaration. -/
theorem Stmt.unplaced_varDecl : (Stmt.varDecl id name value).unplaced =
    .varDecl 0 name.unplaced (value.map Expr.unplaced) := by
  cases value <;> rfl

/-- So do those of a return. -/
theorem Stmt.unplaced_ret : (Stmt.ret id keyword value).unplaced =
    .ret 0 keyword.unplaced (value.map Expr.unplaced) := by
  cases value <;> rfl

/-- So do those of a conditional. -/
theorem Stmt.unplaced_ifElse :
    (Stmt.ifElse id keyword condition body otherwise).unplaced =
      .ifElse 0 keyword.unplaced condition.unplaced body.unplaced (otherwise.map Stmt.unplaced) := by
  cases otherwise <;> rfl

end Optional

/-! ### Placed tokens -/

/-- A token is another one, at a place of a line. -/
def Token.PlacedAt (line : Nat) (t x : Token) : Prop := t.unplaced = x.unplaced ∧ t.line = line

/-- Tokens are other ones, at places of one line. -/
abbrev Token.Placed (line : Nat) : List Token → List Token → Prop := List.Forall₂ (PlacedAt line)

/-- A token at another place has the same kind. -/
theorem Token.PlacedAt.kind {line : Nat} {t x : Token} (h : PlacedAt line t x) :
    t.kind = x.kind := by
  have hkind := congrArg Token.kind h.1
  exact hkind

/-- It has the same lexeme. -/
theorem Token.PlacedAt.lexeme {line : Nat} {t x : Token} (h : PlacedAt line t x) :
    t.lexeme = x.lexeme := by
  have hlexeme := congrArg Token.lexeme h.1
  exact hlexeme

/-- Tokens in a row are placed one part after the other. -/
theorem Token.Placed.split {line : Nat} {ts xs ys : List Token} (h : Placed line ts (xs ++ ys)) :
    ∃ ts₁ ts₂, ts = ts₁ ++ ts₂ ∧ Placed line ts₁ xs ∧ Placed line ts₂ ys :=
  ⟨_, _, (List.take_append_drop xs.length ts).symm, List.forall₂_take_append ts xs ys h,
    List.forall₂_drop_append ts xs ys h⟩

namespace Parse

/-! ### Steps that accept -/

/-- The kinds that the next token can have, in front of given tokens and what may follow them. -/
def Next (F : Token.Kind → Prop) : List Token → Token.Kind → Prop
  | [] => F
  | x :: _ => (· = x.kind)

/-- A step accepts tokens in front of a token of a kind that may follow: it takes them without a
complaint and keeps a promise of its result. `behind` says whether the last token taken stands on
the line already. -/
def Accepts {α : Type} (line : Nat) (behind : Bool) (x : Parser α) (xs : List Token)
    (F : Token.Kind → Prop) (P : α → Prop) : Prop :=
  ∀ (ts : List Token) (next : Token) (rest : List Token) (s : State), Token.Placed line ts xs →
    s.rest = ts ++ next :: rest → F next.kind → (behind = true → s.previous.line = line) →
    ∃ a s', x s = .ok a s' ∧ s'.rest = next :: rest ∧ s'.errors = s.errors ∧
      (behind = true ∨ xs ≠ [] → s'.previous.line = line) ∧ P a

/-- What may come next in front of some tokens may follow the ones before them. -/
theorem Next.of_append {F F' : Token.Kind → Prop} {xs ys : List Token} {k : Token.Kind}
    (h : Next F' (xs ++ ys) k) (hnext : Next F' ys k → F k) : Next F xs k := by
  cases xs with
  | nil => exact hnext h
  | cons x xs => exact h

/-- More kinds may follow. -/
theorem Next.mono {F F' : Token.Kind → Prop} {xs : List Token} {k : Token.Kind} (h : Next F xs k)
    (hF : F k → F' k) : Next F' xs k := by
  cases xs with
  | nil => exact hF h
  | cons x xs => exact h

namespace Accepts

variable {α β : Type} {line : Nat} {behind : Bool} {x : Token} {xs ys : List Token}
  {F F₁ : Token.Kind → Prop} {P : α → Prop} {Q : β → Prop}

/-- A value is accepted in front of anything. -/
theorem pure {a : α} (h : P a) : Accepts line behind (Pure.pure a) [] F P := by
  intro ts next rest s hts hs hF hb
  cases hts
  exact ⟨a, s, rfl, hs, rfl, fun h => hb (h.resolve_right (absurd rfl)), h⟩

/-- Steps in a row. -/
theorem bind {y : Parser α} {f : α → Parser β} (hy : Accepts line behind y xs F₁ P)
    (hnext : ∀ k, Next F ys k → F₁ k)
    (hf : ∀ a b, P a → (behind = true ∨ xs ≠ [] → b = true) → Accepts line b (f a) ys F Q) :
    Accepts line behind (y >>= f) (xs ++ ys) F Q := by
  intro ts next rest s hts hs hF hb
  obtain ⟨ts₁, ts₂, rfl, hts₁, hts₂⟩ := hts.split
  -- The token behind the first step is the first one of the second step, if there is one.
  obtain ⟨next₁, rest₁, hsplit, hF₁⟩ : ∃ next₁ rest₁,
      ts₂ ++ next :: rest = next₁ :: rest₁ ∧ F₁ next₁.kind := by
    cases hts₂ with
    | nil => exact ⟨next, rest, rfl, hnext _ hF⟩
    | cons ht _ => exact ⟨_, _, rfl, hnext _ ht.kind⟩
  obtain ⟨a, s₁, hrun, hrest, herrors, hline, ha⟩ :=
    hy ts₁ next₁ rest₁ s hts₁ (by rw [hs, List.append_assoc, hsplit]) hF₁ hb
  obtain ⟨b, s', hrun', hrest', herrors', hline', hq⟩ :=
    hf a (behind || !xs.isEmpty) ha (by simp) ts₂ next rest s₁ hts₂ (hrest.trans hsplit.symm) hF
      (by simpa using hline)
  refine ⟨b, s', ?_, hrest', herrors'.trans herrors, fun h => hline' ?_, hq⟩
  · simp only [Bind.bind, EStateM.bind, hrun, hrun']
  · rcases h with h | h
    · exact .inl (by rw [h, Bool.true_or])
    · by_cases hxs : xs = []
      · exact .inr (by rwa [hxs] at h)
      · exact .inl (by simp [hxs])

/-- A known value may be used by the step behind it. -/
theorem known {a : α} {f : α → Parser β} (h : Accepts line behind (f a) xs F Q) :
    Accepts line behind (Pure.pure a >>= f) xs F Q := h

/-- Less may follow, and less be promised. -/
theorem mono {y : Parser α} {P' : α → Prop} {F' : Token.Kind → Prop}
    (h : Accepts line behind y xs F P) (hF : ∀ k, F' k → F k) (hP : ∀ a, P a → P' a) :
    Accepts line behind y xs F' P' := by
  intro ts next rest s hts hs hF' hb
  obtain ⟨a, s', hrun, hrest, herrors, hline, ha⟩ := h ts next rest s hts hs (hF _ hF') hb
  exact ⟨a, s', hrun, hrest, herrors, hline, hP a ha⟩

/-- A last step that takes nothing. -/
theorem bind_nil {y : Parser α} {f : α → Parser β} (hy : Accepts line behind y xs F₁ P)
    (hnext : ∀ k, F k → F₁ k)
    (hf : ∀ a b, P a → (behind = true ∨ xs ≠ [] → b = true) → Accepts line b (f a) [] F Q) :
    Accepts line behind (y >>= f) xs F Q := by
  have hbind : Accepts line behind (y >>= f) (xs ++ []) F Q := hy.bind hnext hf
  rwa [List.append_nil] at hbind

/-- What is made of an accepted thing keeps what follows from its promise. -/
theorem map {y : Parser α} {f : α → β} (h : Accepts line behind y xs F P)
    (hP : ∀ a, P a → Q (f a)) : Accepts line behind (f <$> y) xs F Q :=
  h.bind_nil (f := fun a => Pure.pure (f a)) (fun _ => id) fun a _ ha _ => .pure (hP a ha)

/-! ### Tokens -/

/-- A step that only looks. -/
theorem looking {y : Parser α} {f : α → Parser β} (p : α → Prop)
    (hy : ∀ ts next rest (s : State), Token.Placed line ts xs → s.rest = ts ++ next :: rest →
      F next.kind → ∃ a s', y s = .ok a s' ∧ s'.rest = s.rest ∧ s'.errors = s.errors ∧
        s'.previous = s.previous ∧ p a)
    (h : ∀ a, p a → Accepts line behind (f a) xs F Q) :
    Accepts line behind (y >>= f) xs F Q := by
  intro ts next rest s hts hs hF hb
  obtain ⟨a, s₁, hrun, hrest, herrors, hprevious, ha⟩ := hy ts next rest s hts hs hF
  obtain ⟨b, s', hrun', hrest', herrors', hline', hq⟩ :=
    h a ha ts next rest s₁ hts (hrest.trans hs) hF (by rwa [hprevious])
  exact ⟨b, s', by simp only [Bind.bind, EStateM.bind, hrun, hrun'], hrest',
    herrors'.trans herrors, hline', hq⟩

/-- A step that takes the next token. -/
theorem taking {y : Parser α} {f : α → Parser β} (p : Token → α → Prop)
    (hy : ∀ t rest (s : State), s.rest = t :: rest → t.kind = x.kind →
      ∃ a, y s = .ok a { s with rest, previous := t } ∧ p t a)
    (h : ∀ t a, Token.PlacedAt line t x → p t a → Accepts line true (f a) xs F Q) :
    Accepts line behind (y >>= f) (x :: xs) F Q := by
  intro ts next rest s hts hs hF _
  cases hts with
  | @cons t _ ts _ ht hts =>
    obtain ⟨a, hrun, ha⟩ := hy t (ts ++ next :: rest) s hs ht.kind
    obtain ⟨b, s', hrun', hrest', herrors', hline', hq⟩ :=
      h t a ht ha ts next rest { s with rest := ts ++ next :: rest, previous := t } hts rfl hF
        fun _ => ht.2
    exact ⟨b, s', by simp only [Bind.bind, EStateM.bind, hrun, hrun'], hrest', herrors',
      fun _ => hline' (.inl rfl), hq⟩

/-- A node may get any new number. -/
theorem fresh {f : NodeId → Parser α} (h : ∀ id, Accepts line behind (f id) xs F P) :
    Accepts line behind (Parse.fresh >>= f) xs F P :=
  looking (fun _ => True) (fun _ _ _ _ _ _ _ => ⟨_, _, rfl, rfl, rfl, rfl, trivial⟩)
    fun id _ => h id

/-- The token taken last, which stands on the line. -/
theorem previous {f : Token → Parser α}
    (h : ∀ t, t.line = line → Accepts line true (f t) xs F P) :
    Accepts line true (Parse.previous >>= f) xs F P :=
  fun ts next rest s hts hs hF hb => h s.previous (hb rfl) ts next rest s hts hs hF hb

/-- There are at least as many tokens left as are accepted. -/
theorem remaining {f : Nat → Parser α}
    (h : ∀ n, xs.length < n → Accepts line behind (f n) xs F P) :
    Accepts line behind (Parse.remaining >>= f) xs F P := by
  refine looking (xs.length < ·) (fun ts next rest s hts hs _ => ⟨_, s, rfl, rfl, rfl, rfl, ?_⟩) h
  rw [hs, List.length_append, hts.length_eq, List.length_cons]
  omega

/-- The next token, whose kind is known. -/
theorem head_kind {ts rest : List Token} {next : Token} (hts : Token.Placed line ts xs)
    (hF : F next.kind) : Next F xs ((ts ++ next :: rest).headD .absent).kind := by
  cases hts with
  | nil => exact hF
  | cons ht _ => exact ht.kind

/-- The next token has a kind that may stand there. -/
theorem peek {f : Token → Parser α}
    (h : ∀ t, Next F xs t.kind → Accepts line behind (f t) xs F P) :
    Accepts line behind (Parse.peek >>= f) xs F P :=
  looking (fun t => Next F xs t.kind)
    (fun _ _ _ s hts hs hF => ⟨_, s, rfl, rfl, rfl, rfl, hs ▸ head_kind hts hF⟩) h

/-- The next token, if it is one of those that are accepted. -/
theorem peek_cons {f : Token → Parser α}
    (h : ∀ t, Token.PlacedAt line t x → Accepts line behind (f t) (x :: xs) F P) :
    Accepts line behind (Parse.peek >>= f) (x :: xs) F P := by
  refine looking (Token.PlacedAt line · x)
    (fun ts _ _ s hts hs _ => ⟨s.rest.headD .absent, s, rfl, rfl, rfl, rfl, ?_⟩) h
  cases hts with
  | cons ht _ => rwa [hs]

/-- A check gives the answer that all kinds that may stand there agree on. -/
theorem check {kind : Token.Kind} {f : Bool → Parser α} (answer : Bool)
    (hanswer : ∀ k, Next F xs k → decide (k = kind) = answer)
    (h : Accepts line behind (f answer) xs F P) :
    Accepts line behind (Parse.check kind >>= f) xs F P :=
  looking (· = answer) (fun _ _ _ s hts hs hF =>
    ⟨_, s, rfl, rfl, rfl, rfl, by rw [hs]; exact hanswer _ (head_kind hts hF)⟩) fun _ ha => ha ▸ h

/-- The token behind the next one. -/
theorem peekNext {f : Token → Parser α}
    (h : ∀ t, Next F xs t.kind → Accepts line behind (f t) (x :: xs) F P) :
    Accepts line behind (Parse.peekNext >>= f) (x :: xs) F P := by
  refine looking (fun t => Next F xs t.kind)
    (fun ts next rest s hts hs hF => ⟨Parse.behind s.rest, s, ?_, rfl, rfl, rfl, ?_⟩) h
  · exact peekNext_apply s
  · cases hts with
    | cons ht hts =>
      rw [hs]
      cases hts with
      | nil => exact hF
      | cons ht' _ => exact ht'.kind

/-- A token is taken. -/
theorem advance {f : Token → Parser α} (hx : x.kind ≠ .eof)
    (h : ∀ t, Token.PlacedAt line t x → Accepts line true (f t) xs F P) :
    Accepts line behind (Parse.advance >>= f) (x :: xs) F P := by
  refine taking (fun t a => a = t) (fun t rest s hs hkind => ⟨t, ?_, rfl⟩)
    fun t _ ht ha => ha ▸ h t ht
  exact advance_cons hs (hkind ▸ hx)

/-- A token of the kind that is expected is taken. -/
theorem expect {kind : Token.Kind} {what : Expected} {f : Token → Parser α} (hx : x.kind = kind)
    (hkind : kind ≠ .eof) (h : ∀ t, Token.PlacedAt line t x → Accepts line true (f t) xs F P) :
    Accepts line behind (Parse.expect kind what >>= f) (x :: xs) F P := by
  rw [Parse.expect, bind_assoc]
  refine check true (fun k hk => decide_eq_true (Eq.trans hk hx)) ?_
  exact advance (hx ▸ hkind) h

/-- A token of one of the kinds is taken. -/
theorem accept?_some {kinds : List Token.Kind} {f : Option Token → Parser α}
    (hx : x.kind ∈ kinds) (hkinds : .eof ∉ kinds)
    (h : ∀ t, Token.PlacedAt line t x → Accepts line true (f (some t)) xs F P) :
    Accepts line behind (Parse.accept? kinds >>= f) (x :: xs) F P := by
  rw [Parse.accept?, bind_assoc]
  refine peek_cons fun t ht => ?_
  rw [if_pos (by rw [ht.kind]; exact List.contains_iff_mem.2 hx), bind_assoc]
  exact advance (fun he => hkinds (he ▸ hx)) h

/-- Where no such kind may stand, nothing is taken. -/
theorem accept?_none {kinds : List Token.Kind} {f : Option Token → Parser α}
    (hnone : ∀ k, Next F xs k → k ∉ kinds) (h : Accepts line behind (f none) xs F P) :
    Accepts line behind (Parse.accept? kinds >>= f) xs F P := by
  rw [Parse.accept?, bind_assoc]
  refine peek fun t ht => ?_
  rw [if_neg fun hmem => hnone _ ht (List.contains_iff_mem.1 hmem)]
  exact h

/-- A token of the kind is taken. -/
theorem accept_true {kind : Token.Kind} {f : Bool → Parser α} (hx : x.kind = kind)
    (hkind : kind ≠ .eof) (h : Accepts line true (f true) xs F P) :
    Accepts line behind (Parse.accept kind >>= f) (x :: xs) F P := by
  rw [Parse.accept, bind_assoc]
  exact accept?_some (List.mem_singleton.2 hx) (fun he => hkind (List.mem_singleton.1 he).symm)
    fun _ _ => h

/-- Where the kind may not stand, nothing is taken. -/
theorem accept_false {kind : Token.Kind} {f : Bool → Parser α}
    (hnone : ∀ k, Next F xs k → k ≠ kind) (h : Accepts line behind (f false) xs F P) :
    Accepts line behind (Parse.accept kind >>= f) xs F P := by
  rw [Parse.accept, bind_assoc]
  exact accept?_none (fun k hk hmem => hnone k hk (List.mem_singleton.1 hmem)) h

/-- An expression that may have been left out. -/
theorem some {y : Parser Expr} {e : Expr}
    (h : Accepts line behind y xs F (·.unplaced = e.unplaced)) :
    Accepts line behind (Option.some <$> y) xs F fun v =>
      v.map Expr.unplaced = Option.some e.unplaced :=
  h.map fun _ => congrArg Option.some

end Accepts

/-- There is no complaint where nothing is wrong with what came before. -/
theorem complaints_eq {α γ : Type} {xs : List γ} {c : γ → Prop} [DecidablePred c] (token : Token)
    (complaint : Complaint) {x : Parser α} (h : ∀ a ∈ xs, ¬c a) :
    (do
      for a in xs do
        if c a then complain token complaint
      x) = x := by
  induction xs with
  | nil => rfl
  | cons a rest ih =>
    rw [List.forIn_cons, if_neg (h a List.mem_cons_self)]
    exact ih fun b hb => h b (List.mem_cons_of_mem _ hb)

end Parse

end ClassScript
