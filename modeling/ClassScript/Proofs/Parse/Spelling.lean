import ClassScript.Proofs.Parse.Yields

/-!
# Writing trees down

`spell` writes a tree down as tokens in the order of the grammar: the tokens that the nodes keep,
and between them the words and symbols of the grammar that no node keeps. What is written behind a
statement or a method is a parameter, since the semicolon there may be left out.

`Grammatical` says which trees the grammar makes. Every expression has a rank, from assignments, the
loosest, to calls, the tightest, and an operator needs operands of a rank that fits its own.
-/

namespace ClassScript

/-! ### Tokens -/

/-- A word or symbol that the grammar puts between the parts of a tree. -/
def Token.mark (kind : Token.Kind) : Token :=
  { kind, lexeme := kind.name, spelling := Glyph.ofString kind.name }

/-- Pieces of source text with commas between them. -/
def Token.commas (pieces : List (List Token)) : List Token := [Token.mark .comma].intercalate pieces

/-- Whether a parameter's type was left out in the source. -/
def Token.isImplied (type : Token) : Bool := type.line = 0 && type.lexeme = "Object"

/-- What is written behind a statement and behind a method, where the grammar lets semicolons stand.
-/
structure Endings where
  /-- Behind a statement. -/
  stmt : List Token
  /-- Behind a method. -/
  method : List Token

/-- No semicolons. -/
def Endings.omitted : Endings := ⟨[], []⟩

/-- Semicolons behind all statements and methods. -/
def Endings.full : Endings := ⟨[.mark .semicolon], [.mark .semicolon]⟩

/-- Semicolons stand behind all statements, and behind all methods or none. -/
structure Endings.Separates (ending : Endings) : Prop where
  /-- Behind a statement. -/
  stmt : ending.stmt = [.mark .semicolon]
  /-- Behind a method. -/
  method : ending.method = [] ∨ ending.method = [.mark .semicolon]

/-! ### Spelling -/

/-- The tokens of a class's superclasses. -/
def NameUse.spellSupers : List NameUse → List Token
  | [] => []
  | s :: rest => .mark .less :: Token.commas ((s :: rest).map fun s => [s.name])

mutual

/-- The tokens of an expression. -/
def Expr.spell (ending : Endings) : Expr → List Token
  | .assign _ name value => name :: .mark .equal :: value.spell ending
  | .binary _ left op right => left.spell ending ++ op :: right.spell ending
  | .call _ callee paren args named =>
    callee.spell ending ++ .mark .leftParen ::
      (Token.commas (Expr.spellEach ending args ++ NamedArg.spellEach ending named) ++ [paren])
  | .get _ object name => object.spell ending ++ [.mark .dot, name]
  | .set _ object name value =>
    object.spell ending ++ .mark .dot :: name :: .mark .equal :: value.spell ending
  | .group _ paren inner => paren :: (inner.spell ending ++ [.mark .rightParen])
  | .literal _ token _ => [token]
  | .list _ bracket elements =>
    bracket :: (Token.commas (Expr.spellEach ending elements) ++ [.mark .rightBracket])
  | .logical _ left op right => left.spell ending ++ op :: right.spell ending
  | .self _ keyword => [keyword]
  | .super _ keyword none => [keyword]
  | .super _ keyword (some method) => [keyword, .mark .dot, method]
  | .unary _ op right => op :: right.spell ending
  | .var use => [use.name]
  | .lambda fn => fn.spell ending

/-- The tokens of expressions, one by one. -/
def Expr.spellEach (ending : Endings) : List Expr → List (List Token)
  | [] => []
  | e :: rest => e.spell ending :: Expr.spellEach ending rest

/-- The tokens of named arguments, one by one. -/
def NamedArg.spellEach (ending : Endings) : List NamedArg → List (List Token)
  | [] => []
  | ⟨name, value⟩ :: rest =>
    (name :: .mark .colon :: value.spell ending) :: NamedArg.spellEach ending rest

/-- The tokens of a parameter; a type that was left out is not written. -/
def Param.spell (ending : Endings) : Param → List Token
  | ⟨type, name, none, variadic⟩ =>
    (if type.isImplied then [] else [type]) ++ (if variadic then [.mark .ellipsis] else [])
      ++ [name]
  | ⟨type, name, some value, variadic⟩ =>
    (if type.isImplied then [] else [type]) ++ (if variadic then [.mark .ellipsis] else [])
      ++ name :: .mark .equal :: value.spell ending

/-- The tokens of parameters, one by one. -/
def Param.spellEach (ending : Endings) : List Param → List (List Token)
  | [] => []
  | p :: rest => p.spell ending :: Param.spellEach ending rest

/-- The tokens of a function. A method without the word `fun` starts with its name. -/
def Lambda.spell (ending : Endings) : Lambda → List Token
  | ⟨_, keyword, name, params, body⟩ =>
    (if keyword.kind = .funWord then [keyword] else []) ++ name.toList
      ++ .mark .leftParen :: (Token.commas (Param.spellEach ending params)
      ++ .mark .rightParen :: .mark .leftBrace :: (Stmt.spellAll ending body
      ++ [.mark .rightBrace]))

/-- The tokens of methods in a row. -/
def Lambda.spellAll (ending : Endings) : List Lambda → List Token
  | [] => []
  | fn :: rest => fn.spell ending ++ ending.method ++ Lambda.spellAll ending rest

/-- The tokens of a block. -/
def Block.spell (ending : Endings) : Block → List Token
  | ⟨_, brace, body⟩ => brace :: (Stmt.spellAll ending body ++ [.mark .rightBrace])

/-- The tokens of a statement without what ends it. -/
def Stmt.spell (ending : Endings) : Stmt → List Token
  | .block b => b.spell ending
  | .classDecl _ name supers methods =>
    .mark .classWord :: name :: (NameUse.spellSupers supers
      ++ .mark .leftBrace :: (Lambda.spellAll ending methods ++ [.mark .rightBrace]))
  | .expr _ value => value.spell ending
  | .function _ fn => fn.spell ending
  | .ifElse _ keyword condition body none =>
    keyword :: (condition.spell ending ++ body.spell ending)
  | .ifElse _ keyword condition body (some otherwise) =>
    keyword :: (condition.spell ending ++ body.spell ending
      ++ .mark .elseWord :: otherwise.spell ending)
  | .forIn _ keyword name iterable body =>
    keyword :: name :: .mark .inWord :: (iterable.spell ending ++ body.spell ending)
  | .ret _ keyword none => [keyword]
  | .ret _ keyword (some value) => keyword :: value.spell ending
  | .varDecl _ name none => [.mark .varWord, name]
  | .varDecl _ name (some value) => .mark .varWord :: name :: .mark .equal :: value.spell ending
  | .whileLoop _ keyword condition body =>
    keyword :: (condition.spell ending ++ body.spell ending)

/-- The tokens of statements in a row, each with what ends it. -/
def Stmt.spellAll (ending : Endings) : List Stmt → List Token
  | [] => []
  | s :: rest => s.spell ending ++ ending.stmt ++ Stmt.spellAll ending rest

end

/-! ### Ranks -/

/-- How tightly a symbol binds what stands in front of it, if it goes on with an expression. -/
def Token.Kind.binding? : Token.Kind → Option Nat
  | .equal => some 0
  | .orWord => some 1
  | .andWord => some 2
  | .bangEqual | .equalEqual => some 3
  | .greater | .greaterEqual | .less | .lessEqual => some 4
  | .minus | .plus => some 5
  | .slash | .star | .percent => some 6
  | .leftParen | .dot => some 8
  | _ => none

/-- How tightly an expression holds together: 0 for an assignment, 1 to 6 for operators between two
operands, 7 for an operator in front of its operand, and 8 for everything at the level of calls. -/
def Expr.rank : Expr → Nat
  | .assign .. | .set .. => 0
  | .binary _ _ op _ | .logical _ _ op _ => op.kind.binding?.getD 0
  | .unary .. => 7
  | _ => 8

/-- Nothing holds together more tightly than calls. -/
theorem Expr.rank_le (e : Expr) : e.rank ≤ 8 := by
  have hbinding : ∀ kind : Token.Kind, kind.binding?.getD 0 ≤ 8 := by
    intro kind
    cases kind <;> decide
  cases e with
  | binary id left op right => exact hbinding op.kind
  | logical id left op right => exact hbinding op.kind
  | _ => simp [Expr.rank]

/-! ### Trees of the grammar -/

/-- Operands fit an operator of a rank within bounds: the left one binds at least as tightly as the
operator, and the right one more tightly. -/
def Expr.Joined (low high : Nat) (left : Expr) (op : Token) (right : Expr) : Prop :=
  ∃ r, op.kind.binding? = some r ∧ low ≤ r ∧ r ≤ high ∧ r ≤ left.rank ∧ r < right.rank

/-- A use of the superclasses without a name. -/
def Expr.BareSuper : Expr → Prop
  | .super _ keyword none => keyword.kind = .superWord
  | _ => False

/-- A parameter may stand in front of another one. -/
def Param.Precedes (p q : Param) : Prop :=
  p.variadic = false ∧ (p.defaultValue.isSome → q.defaultValue.isSome ∨ q.variadic) ∧
    p.name.lexeme ≠ q.name.lexeme

/-- A function with a name. -/
def Lambda.Named (fn : Lambda) : Prop := ∃ name, fn.name = some name ∧ name.kind = .identifier

mutual

/-- The expressions of the grammar. `lone` says whether the word `super` without a name may stand
alone and not only in front of arguments. -/
def Expr.Grammatical (lone : Prop) : Expr → Prop
  | .assign _ name value => name.kind = .identifier ∧ value.Grammatical lone
  | .binary _ left op right =>
    Expr.Joined 3 6 left op right ∧ left.Grammatical lone ∧ right.Grammatical lone
  | .call _ callee paren args named =>
    callee.rank = 8 ∧ (callee.BareSuper ∨ callee.Grammatical lone) ∧ paren.kind = .rightParen ∧
      Expr.AllGrammatical lone args ∧ NamedArg.AllGrammatical lone named ∧
      (named.map (·.name.lexeme)).Nodup
  | .get _ object name =>
    object.rank = 8 ∧ object.Grammatical lone ∧ name.kind = .identifier
  | .set _ object name value =>
    object.rank = 8 ∧ object.Grammatical lone ∧ name.kind = .identifier ∧ value.Grammatical lone
  | .group _ paren inner => paren.kind = .leftParen ∧ inner.Grammatical lone
  | .literal _ token value => Parse.constant? token = some value
  | .list _ bracket elements =>
    bracket.kind = .leftBracket ∧ Expr.AllGrammatical lone elements
  | .logical _ left op right =>
    Expr.Joined 1 2 left op right ∧ left.Grammatical lone ∧ right.Grammatical lone
  | .self _ keyword => keyword.kind = .selfWord
  | .super _ keyword none => lone ∧ keyword.kind = .superWord
  | .super _ keyword (some method) => keyword.kind = .superWord ∧ method.kind = .identifier
  | .unary _ op right =>
    (op.kind = .bang ∨ op.kind = .minus) ∧ 7 ≤ right.rank ∧ right.Grammatical lone
  | .var use => use.name.kind = .identifier
  | .lambda fn => fn.keyword.kind = .funWord ∧ fn.name = none ∧ fn.Grammatical lone

/-- Expressions of the grammar in a row. -/
def Expr.AllGrammatical (lone : Prop) : List Expr → Prop
  | [] => True
  | e :: rest => e.Grammatical lone ∧ Expr.AllGrammatical lone rest

/-- Named arguments of the grammar. -/
def NamedArg.AllGrammatical (lone : Prop) : List NamedArg → Prop
  | [] => True
  | ⟨name, value⟩ :: rest =>
    (name.kind = .identifier ∧ value.Grammatical lone) ∧ NamedArg.AllGrammatical lone rest

/-- The parameters of the grammar. -/
def Param.Grammatical (lone : Prop) : Param → Prop
  | ⟨type, name, none, _⟩ =>
    type.kind = .identifier ∧ (type.isImplied → type = .synthetic "Object") ∧
      name.kind = .identifier
  | ⟨type, name, some value, variadic⟩ =>
    type.kind = .identifier ∧ (type.isImplied → type = .synthetic "Object") ∧
      name.kind = .identifier ∧ variadic = false ∧ value.Grammatical lone

/-- Parameters of the grammar in a row. -/
def Param.AllGrammatical (lone : Prop) : List Param → Prop
  | [] => True
  | p :: rest => p.Grammatical lone ∧ Param.AllGrammatical lone rest

/-- The functions of the grammar, whatever they are called. -/
def Lambda.Grammatical (lone : Prop) : Lambda → Prop
  | ⟨_, _, _, params, body⟩ =>
    params.Pairwise Param.Precedes ∧ Param.AllGrammatical lone params ∧
      Stmt.AllGrammatical lone body

/-- The methods of the grammar, with or without the word `fun`. -/
def Lambda.AllGrammatical (lone : Prop) : List Lambda → Prop
  | [] => True
  | fn :: rest =>
    (fn.Named ∧ (fn.keyword.kind = .funWord ∨ fn.name = some fn.keyword) ∧ fn.Grammatical lone) ∧
      Lambda.AllGrammatical lone rest

/-- The blocks of the grammar. -/
def Block.Grammatical (lone : Prop) : Block → Prop
  | ⟨_, brace, body⟩ => brace.kind = .leftBrace ∧ Stmt.AllGrammatical lone body

/-- The statements of the grammar. -/
def Stmt.Grammatical (lone : Prop) : Stmt → Prop
  | .block b => b.Grammatical lone
  | .classDecl _ name supers methods =>
    name.kind = .identifier ∧ (∀ s ∈ supers, s.name.kind = .identifier) ∧
      Lambda.AllGrammatical lone methods
  | .expr _ value => value.Grammatical lone
  | .function _ fn => fn.Named ∧ fn.keyword.kind = .funWord ∧ fn.Grammatical lone
  | .ifElse _ keyword condition body none =>
    keyword.kind = .ifWord ∧ condition.Grammatical lone ∧ body.Grammatical lone
  | .ifElse _ keyword condition body (some otherwise) =>
    keyword.kind = .ifWord ∧ condition.Grammatical lone ∧ body.Grammatical lone ∧
      Parse.Branch otherwise ∧ otherwise.Grammatical lone
  | .forIn _ keyword name iterable body =>
    keyword.kind = .forWord ∧ name.kind = .identifier ∧ iterable.Grammatical lone ∧
      body.Grammatical lone
  | .ret _ keyword none => keyword.kind = .returnWord
  | .ret _ keyword (some value) => keyword.kind = .returnWord ∧ value.Grammatical lone
  | .varDecl _ name none => name.kind = .identifier
  | .varDecl _ name (some value) => name.kind = .identifier ∧ value.Grammatical lone
  | .whileLoop _ keyword condition body =>
    keyword.kind = .whileWord ∧ condition.Grammatical lone ∧ body.Grammatical lone

/-- Statements of the grammar in a row. -/
def Stmt.AllGrammatical (lone : Prop) : List Stmt → Prop
  | [] => True
  | s :: rest => s.Grammatical lone ∧ Stmt.AllGrammatical lone rest

end

/-! ### Ranks of trees -/

/-- An operator between operands has a rank within the bounds. -/
theorem Expr.Joined.rank_le {low high : Nat} {left right : Expr} {op : Token}
    (h : Expr.Joined low high left op right) :
    low ≤ op.kind.binding?.getD 0 ∧ op.kind.binding?.getD 0 ≤ high := by
  obtain ⟨r, hbinding, hlow, hhigh, -⟩ := h
  rw [hbinding]
  exact ⟨hlow, hhigh⟩

/-- A use of the superclasses without a name is one of the word `super`. -/
theorem Expr.BareSuper.eq {e : Expr} (h : e.BareSuper) :
    ∃ id keyword, e = .super id keyword none ∧ keyword.kind = .superWord := by
  cases e with
  | super id keyword method =>
    cases method with
    | none => exact ⟨id, keyword, rfl, h⟩
    | some => exact h.elim
  | _ => exact h.elim

/-- An expression that binds more tightly than the operators between operands is an operator in
front of its operand, if it is not at the level of calls. -/
theorem Expr.unary_of_rank {lone : Prop} {e : Expr} (he : e.Grammatical lone) (hrank : 7 ≤ e.rank) :
    e.rank = 8 ∨ ∃ id op right, e = .unary id op right := by
  cases e with
  | unary id op right => exact .inr ⟨id, op, right, rfl⟩
  | binary | logical =>
    have hle := (Expr.Joined.rank_le he.1).2
    rw [Expr.rank] at hrank
    omega
  | assign | set => cases hrank
  | _ => exact .inl rfl

/-! ### Trees in a row -/

section Rows

variable (ending : Endings) (lone : Prop)

/-- Expressions in a row are spelled one by one. -/
theorem Expr.spellEach_eq_map (es : List Expr) :
    Expr.spellEach ending es = es.map (·.spell ending) := by
  induction es with
  | nil => rfl
  | cons e rest ih => rw [Expr.spellEach, ih, List.map_cons]

/-- So are named arguments, each with its name and a colon. -/
theorem NamedArg.spellEach_eq_map (args : List NamedArg) :
    NamedArg.spellEach ending args =
      args.map fun arg => arg.name :: .mark .colon :: arg.value.spell ending := by
  induction args with
  | nil => rfl
  | cons arg rest ih =>
    obtain ⟨name, value⟩ := arg
    rw [NamedArg.spellEach, ih, List.map_cons]

/-- So are parameters. -/
theorem Param.spellEach_eq_map (params : List Param) :
    Param.spellEach ending params = params.map (·.spell ending) := by
  induction params with
  | nil => rfl
  | cons p rest ih => rw [Param.spellEach, ih, List.map_cons]

/-- Expressions in a row are of the grammar if each one is. -/
theorem Expr.allGrammatical_iff {es : List Expr} :
    Expr.AllGrammatical lone es ↔ ∀ e ∈ es, e.Grammatical lone := by
  induction es with
  | nil => exact ⟨nofun, fun _ => trivial⟩
  | cons e rest ih => rw [Expr.AllGrammatical, ih, List.forall_mem_cons]

/-- So are named arguments. -/
theorem NamedArg.allGrammatical_iff {args : List NamedArg} :
    NamedArg.AllGrammatical lone args ↔
      ∀ arg ∈ args, arg.name.kind = .identifier ∧ arg.value.Grammatical lone := by
  induction args with
  | nil => exact ⟨nofun, fun _ => trivial⟩
  | cons arg rest ih =>
    obtain ⟨name, value⟩ := arg
    rw [NamedArg.AllGrammatical, ih, List.forall_mem_cons]

/-- So are parameters. -/
theorem Param.allGrammatical_iff {params : List Param} :
    Param.AllGrammatical lone params ↔ ∀ p ∈ params, p.Grammatical lone := by
  induction params with
  | nil => exact ⟨nofun, fun _ => trivial⟩
  | cons p rest ih => rw [Param.AllGrammatical, ih, List.forall_mem_cons]

end Rows

/-! ### No tree is spelled with nothing -/

/-- Every function is spelled with some token. -/
theorem Lambda.spell_ne_nil (ending : Endings) (fn : Lambda) : fn.spell ending ≠ [] := by
  obtain ⟨id, keyword, name, params, body⟩ := fn
  simp [Lambda.spell]

/-- Every expression is spelled with some token. -/
theorem Expr.spell_ne_nil (ending : Endings) (e : Expr) : e.spell ending ≠ [] := by
  cases e with
  | lambda fn => exact fn.spell_ne_nil ending
  | super id keyword method => cases method <;> simp [Expr.spell]
  | _ => simp [Expr.spell]

/-- Every statement is spelled with some token. -/
theorem Stmt.spell_ne_nil (ending : Endings) (s : Stmt) : s.spell ending ≠ [] := by
  cases s with
  | block b =>
    obtain ⟨id, brace, body⟩ := b
    simp [Stmt.spell, Block.spell]
  | expr id value => exact value.spell_ne_nil ending
  | function id fn => exact fn.spell_ne_nil ending
  | ifElse id keyword condition body otherwise => cases otherwise <;> simp [Stmt.spell]
  | ret id keyword value => cases value <;> simp [Stmt.spell]
  | varDecl id name value => cases value <;> simp [Stmt.spell]
  | _ => simp [Stmt.spell]

/-! ### Commas -/

/-- A comma stands between two rows of pieces. -/
theorem Token.commas_append {xs ys : List (List Token)} (hx : xs ≠ []) (hy : ys ≠ []) :
    Token.commas (xs ++ ys) = Token.commas xs ++ .mark .comma :: Token.commas ys := by
  induction xs with
  | nil => exact absurd rfl hx
  | cons x rest ih =>
    unfold Token.commas at ih ⊢
    cases rest with
    | nil =>
      rw [List.singleton_append, List.intercalate_cons_of_ne_nil hy, List.intercalate_singleton,
        List.append_assoc, List.singleton_append]
    | cons x' rest =>
      rw [List.cons_append, List.intercalate_cons_of_ne_nil (by simp), ih (List.cons_ne_nil _ _),
        List.intercalate_cons_of_ne_nil (List.cons_ne_nil _ _), List.append_assoc, List.append_assoc,
        List.append_assoc]

/-- One piece needs no commas. -/
theorem Token.commas_singleton (piece : List Token) : Token.commas [piece] = piece :=
  List.intercalate_singleton

/-- A comma stands behind the first of several pieces. -/
theorem Token.commas_cons {pieces : List (List Token)} (piece : List Token) (h : pieces ≠ []) :
    Token.commas (piece :: pieces) = piece ++ .mark .comma :: Token.commas pieces := by
  rw [← List.singleton_append, Token.commas_append (List.cons_ne_nil _ _) h,
    Token.commas_singleton]

/-- A row begins as its first piece does. -/
theorem Token.exists_commas_eq (x : Token) (xs : List Token) (pieces : List (List Token)) :
    ∃ rest, Token.commas ((x :: xs) :: pieces) = x :: rest := by
  cases pieces with
  | nil => exact ⟨xs, Token.commas_singleton _⟩
  | cons piece pieces => exact ⟨_, Token.commas_cons _ (List.cons_ne_nil _ _)⟩

/-- Every piece is a part of its row. -/
theorem Token.length_le_commas {piece : List Token} {pieces : List (List Token)}
    (h : piece ∈ pieces) : piece.length ≤ (Token.commas pieces).length := by
  induction pieces with
  | nil => cases h
  | cons first rest ih =>
    cases rest with
    | nil =>
      exact Nat.le_of_eq (by rw [List.mem_singleton.1 h, Token.commas_singleton])
    | cons second rest =>
      rw [Token.commas_cons _ (List.cons_ne_nil _ _), List.length_append, List.length_cons]
      rcases List.mem_cons.1 h with rfl | h
      · omega
      · have hle := ih h
        omega

/-! ### Parts that may be left out -/

/-- The tokens that give a value to a variable or a parameter. -/
def Expr.spellGiven (ending : Endings) : Option Expr → List Token
  | none => []
  | some value => .mark .equal :: value.spell ending

/-- A parameter is spelled as its type, its dots, its name and its default, as far as it has them.
-/
theorem Param.spell_eq (ending : Endings) (p : Param) :
    p.spell ending = (if p.type.isImplied then [] else [p.type]) ++
      ((if p.variadic then [.mark .ellipsis] else []) ++
        p.name :: Expr.spellGiven ending p.defaultValue) := by
  obtain ⟨type, name, _ | value, variadic⟩ := p <;>
    simp only [Param.spell, Expr.spellGiven, List.append_assoc]

/-- The parts of a parameter of the grammar are of the grammar, and a variadic one has no default.
-/
theorem Param.grammatical_iff {lone : Prop} {p : Param} :
    p.Grammatical lone ↔ p.type.kind = .identifier ∧
      (p.type.isImplied → p.type = .synthetic "Object") ∧ p.name.kind = .identifier ∧
      ∀ value ∈ p.defaultValue, p.variadic = false ∧ value.Grammatical lone := by
  obtain ⟨type, name, _ | value, variadic⟩ := p <;> simp [Param.Grammatical]

/-- No parameter begins with a closing parenthesis. -/
theorem Param.spell_head (ending : Endings) {lone : Prop} {p : Param} (hp : p.Grammatical lone) :
    ∃ x rest, p.spell ending = x :: rest ∧ x.kind ≠ .rightParen := by
  obtain ⟨htype, -, hname, -⟩ := Param.grammatical_iff.1 hp
  rw [Param.spell_eq]
  cases p.type.isImplied with
  | false => exact ⟨_, _, rfl, by rw [htype]; decide⟩
  | true =>
    cases p.variadic with
    | true => exact ⟨_, _, rfl, by decide⟩
    | false => exact ⟨_, _, rfl, by rw [hname]; decide⟩

/-- The parameters and the body of a function. -/
def Lambda.spellRest (ending : Endings) (fn : Lambda) : List Token :=
  .mark .leftParen :: (Token.commas (Param.spellEach ending fn.params) ++ .mark .rightParen ::
    .mark .leftBrace :: (Stmt.spellAll ending fn.body ++ [.mark .rightBrace]))

/-- A function is spelled as its word and its name, if it has them, and the rest. -/
theorem Lambda.spell_eq (ending : Endings) (fn : Lambda) :
    fn.spell ending = (if fn.keyword.kind = .funWord then [fn.keyword] else []) ++
      (fn.name.toList ++ Lambda.spellRest ending fn) := by
  obtain ⟨id, keyword, name, params, body⟩ := fn
  rw [Lambda.spell, Lambda.spellRest, List.append_assoc]

/-- A method begins with the word `fun` or with its name. -/
theorem Lambda.spell_head (ending : Endings) {fn : Lambda} (hnamed : fn.Named) :
    ∃ x rest, fn.spell ending = x :: rest ∧ (x.kind = .funWord ∨ x.kind = .identifier) := by
  obtain ⟨name, hname, hkind⟩ := hnamed
  rw [Lambda.spell_eq, hname]
  by_cases hword : fn.keyword.kind = .funWord
  · rw [if_pos hword]
    exact ⟨_, _, rfl, .inl hword⟩
  · rw [if_neg hword]
    exact ⟨name, _, rfl, .inr hkind⟩

/-- The tokens of the other branch of a conditional. -/
def Stmt.spellElse (ending : Endings) : Option Stmt → List Token
  | none => []
  | some otherwise => .mark .elseWord :: otherwise.spell ending

/-- The tokens of a conditional behind its word. -/
def Stmt.spellBranches (ending : Endings) (condition : Expr) (body : Block)
    (otherwise : Option Stmt) : List Token :=
  condition.spell ending ++ (body.spell ending ++ Stmt.spellElse ending otherwise)

section Optional

variable {ending : Endings} {lone : Prop} {id : NodeId} {keyword name : Token}
  {value : Option Expr} {condition : Expr} {body : Block} {otherwise : Option Stmt}

/-- A variable's declaration is spelled as its word, its name and its value. -/
theorem Stmt.spell_varDecl : (Stmt.varDecl id name value).spell ending =
    .mark .varWord :: name :: Expr.spellGiven ending value := by
  cases value <;> rfl

/-- A variable's declaration is of the grammar if its value is. -/
theorem Stmt.grammatical_varDecl : (Stmt.varDecl id name value).Grammatical lone ↔
    name.kind = .identifier ∧ ∀ e ∈ value, e.Grammatical lone := by
  cases value <;> simp [Stmt.Grammatical]

/-- A return is spelled as its word and its value. -/
theorem Stmt.spell_ret : (Stmt.ret id keyword value).spell ending =
    keyword :: value.elim [] (·.spell ending) := by
  cases value <;> rfl

/-- A return is of the grammar if its value is. -/
theorem Stmt.grammatical_ret : (Stmt.ret id keyword value).Grammatical lone ↔
    keyword.kind = .returnWord ∧ ∀ e ∈ value, e.Grammatical lone := by
  cases value <;> simp [Stmt.Grammatical]

/-- A conditional is spelled as its word, its condition and its branches. -/
theorem Stmt.spell_ifElse : (Stmt.ifElse id keyword condition body otherwise).spell ending =
    keyword :: Stmt.spellBranches ending condition body otherwise := by
  cases otherwise with
  | none => rw [Stmt.spell, Stmt.spellBranches, Stmt.spellElse, List.append_nil]
  | some => rw [Stmt.spell, Stmt.spellBranches, Stmt.spellElse, List.append_assoc]

/-- A conditional is of the grammar if its parts are and the other branch is a block or a
conditional. -/
theorem Stmt.grammatical_ifElse :
    (Stmt.ifElse id keyword condition body otherwise).Grammatical lone ↔
      keyword.kind = .ifWord ∧ condition.Grammatical lone ∧ body.Grammatical lone ∧
        ∀ s ∈ otherwise, Parse.Branch s ∧ s.Grammatical lone := by
  cases otherwise <;> simp [Stmt.Grammatical]

end Optional

end ClassScript
