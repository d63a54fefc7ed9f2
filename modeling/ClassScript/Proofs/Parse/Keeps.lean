import ClassScript.Proofs.Parse.Identifiers
import ClassScript.Proofs.Parse.Progress.Basic

/-!
# A parse keeps to the tokens of its source

Whether a source follows the grammar or not, what a parse makes of it consists of its tokens: every
node has a token of the source, every name in a node is an identifier of the source, and every
complaint is about a token of the source. `Keeps` has one rule for every way of building a parser.
-/

namespace ClassScript

/-- An identifier among tokens. -/
def Token.NameIn (ts : List Token) (t : Token) : Prop := t ∈ ts ∧ t.kind = .identifier

namespace Node

/-- A node that consists of given tokens. -/
structure Within (ts : List Token) (n : Node) : Prop where
  /-- The token that locates the node is one of them. -/
  token : n.token ∈ ts
  /-- The names in the node are identifiers among them. -/
  names : ∀ t ∈ n.names, t.NameIn ts

/-- Nodes that consist of given tokens. -/
def AllWithin (ts : List Token) (ns : List Node) : Prop := ∀ n ∈ ns, n.Within ts

namespace AllWithin

variable {ts : List Token} {n : Node} {ns ms : List Node}

/-- No nodes consist of any tokens. -/
theorem nil : AllWithin ts [] := List.forall_mem_nil _

/-- A node in front of others consists of given tokens if it does and they do. -/
theorem cons (hn : n.Within ts) (hns : AllWithin ts ns) : AllWithin ts (n :: ns) :=
  List.forall_mem_cons.2 ⟨hn, hns⟩

/-- Nodes in two rows consist of given tokens together. -/
theorem append (hns : AllWithin ts ns) (hms : AllWithin ts ms) : AllWithin ts (ns ++ ms) :=
  List.forall_mem_append.2 ⟨hns, hms⟩

/-- The first of two rows of nodes consists of the tokens of both. -/
theorem left (h : AllWithin ts (ns ++ ms)) : AllWithin ts ns := (List.forall_mem_append.1 h).1

/-- So does the second one. -/
theorem right (h : AllWithin ts (ns ++ ms)) : AllWithin ts ms := (List.forall_mem_append.1 h).2

/-- The first node of a row consists of the tokens of the row. -/
theorem head (h : AllWithin ts (n :: ns)) : n.Within ts := (List.forall_mem_cons.1 h).1

/-- So do the nodes behind it. -/
theorem tail (h : AllWithin ts (n :: ns)) : AllWithin ts ns := (List.forall_mem_cons.1 h).2

end AllWithin

/-- A node without names. -/
theorem within_of_names_nil {ts : List Token} {n : Node} (ht : n.token ∈ ts) (hn : n.names = []) :
    n.Within ts := ⟨ht, hn ▸ List.forall_mem_nil _⟩

section Names

variable {ts : List Token} {fn : Lambda}

/-- The name of a function is one of its node. -/
theorem Within.title (h : (Node.expr (.lambda fn)).Within ts) :
    ∀ name ∈ fn.name, name.NameIn ts := fun name hname =>
  h.names name (List.mem_append_left _ (List.mem_append_right _
    (List.mem_append_left _ (Option.mem_toList.2 hname))))

/-- So are the names of its parameters. -/
theorem Within.params (h : (Node.expr (.lambda fn)).Within ts) :
    ∀ p ∈ fn.params, p.name.NameIn ts := fun p hp =>
  h.names p.name (List.mem_append_left _ (List.mem_append_right _
    (List.mem_append_right _ (List.mem_map_of_mem hp))))

/-- So are the types of its parameters, where the source has them. -/
theorem Within.types (h : (Node.expr (.lambda fn)).Within ts) :
    ∀ p ∈ fn.params, p.type.isImplied = false → p.type.NameIn ts := fun p hp himplied =>
  h.names p.type (List.mem_append_right _
    (List.mem_filter.2 ⟨List.mem_map_of_mem hp, by rw [himplied]; rfl⟩))

/-- The superclasses of a class are nodes below it. -/
theorem AllWithin.supers {supers : List NameUse}
    (h : AllWithin ts (supers.flatMap fun s => visit everywhere (.expr (.var s)) [])) :
    ∀ use ∈ supers, use.name ∈ ts := fun use huse =>
  (h (.expr (.var use)) (List.mem_flatMap.2 ⟨use, huse, List.mem_cons_self⟩)).token

end Names

end Node

open Node (AllWithin)

/-- A parameter that consists of given tokens, its type only where the source has it. -/
structure Param.Within (ts : List Token) (p : Param) : Prop where
  /-- The nodes of the default. -/
  nodes : AllWithin ts (Param.nodesOf everywhere [p])
  /-- The name. -/
  name : p.name.NameIn ts
  /-- The type. -/
  type : p.type.isImplied = false → p.type.NameIn ts

/-- The names that parameters declare and the types they name are among the tokens. -/
theorem Param.names_of_within {ts : List Token} {params : List Param}
    (h : ∀ p ∈ params, p.Within ts) :
    ∀ t ∈ params.map (·.name) ++ Param.writtenTypes params, t.NameIn ts := by
  refine List.forall_mem_append.2 ⟨List.forall_mem_map.2 fun p hp => (h p hp).name, ?_⟩
  intro t ht
  obtain ⟨htypes, himplied⟩ := List.mem_filter.1 ht
  obtain ⟨p, hp, rfl⟩ := List.mem_map.1 htypes
  exact (h p hp).type (by simpa using himplied)

namespace Parse

/-! ### Steps -/

/-- A state at a token of a row whose complaints so far are about tokens of the row. -/
structure State.Cites (ts : List Token) (s : State) : Prop where
  /-- The state stands at a token. -/
  on : s.On ts
  /-- The complaints are about tokens of the row. -/
  errors : ∀ e ∈ s.errors, e.token ∈ ts

/-- A step from given tokens of a row on. It leaves its state at a token of the row, complains about
tokens of the row only, and promises something about its result. -/
structure Keeps {α : Type} (ts rest : List Token) (x : Parser α) (Q : α → Prop) : Prop where
  /-- The step ends with a result. -/
  ok : ∀ {s s' : State} {a : α}, s.rest = rest → s.Cites ts → x s = .ok a s' → s'.Cites ts ∧ Q a
  /-- The step gives up. -/
  error : ∀ {s s' : State} {e : Stop}, s.rest = rest → s.Cites ts → x s = .error e s' →
    s'.Cites ts

namespace Keeps

variable {α β : Type} {ts rest : List Token} {t : Token} {P Q : α → Prop} {R : β → Prop}

/-- A result that is promised needs no tokens. -/
theorem pure {a : α} (h : Q a) : Keeps ts rest (Pure.pure a) Q where
  ok := by
    rintro s _ _ - hs ⟨⟩
    exact ⟨hs, h⟩
  error := by
    rintro s _ _ - - ⟨⟩

/-- A step that stops leaves its state as it was. -/
theorem throw (e : Stop) : Keeps ts rest (MonadExcept.throw e : Parser α) Q where
  ok := by
    rintro s _ _ - - ⟨⟩
  error := by
    rintro s _ _ - hs ⟨⟩
    exact hs

/-- Steps in a row, of which the first one may leave any tokens. -/
theorem bind {x : Parser α} {f : α → Parser β} (hx : Keeps ts rest x P)
    (hf : ∀ rest' a, P a → Keeps ts rest' (f a) R) : Keeps ts rest (x >>= f) R where
  ok := by
    intro s s' b hrest hs h
    simp only [Bind.bind, EStateM.bind] at h
    split at h
    · -- The first step went well, so the second begins with the tokens it left.
      next a s₁ h₁ =>
      obtain ⟨hs₁, hp⟩ := hx.ok hrest hs h₁
      exact (hf s₁.rest a hp).ok rfl hs₁ h
    · cases h
  error := by
    intro s s' e hrest hs h
    simp only [Bind.bind, EStateM.bind] at h
    split at h
    · next a s₁ h₁ =>
      obtain ⟨hs₁, hp⟩ := hx.ok hrest hs h₁
      exact (hf s₁.rest a hp).error rfl hs₁ h
    · next h₁ =>
      cases h
      exact hx.error hrest hs h₁

/-- A result that is known in front of the next step. -/
theorem known {a : α} {f : α → Parser β} (h : Keeps ts rest (f a) R) :
    Keeps ts rest (Pure.pure a >>= f) R := by rwa [pure_bind]

/-- A result may be changed as long as the promise is. -/
theorem map {x : Parser α} {f : α → β} (hx : Keeps ts rest x P) (h : ∀ a, P a → R (f a)) :
    Keeps ts rest (f <$> x) R :=
  bind hx fun _ a hp => pure (h a hp)

/-- A test between two steps. -/
theorem ite {c : Prop} [Decidable c] {x y : Parser α} (hx : c → Keeps ts rest x Q)
    (hy : ¬ c → Keeps ts rest y Q) : Keeps ts rest (if c then x else y) Q := by
  split
  · next hc => exact hx hc
  · next hc => exact hy hc

/-- What is known of the tokens may be used: there is one, and they are the last ones of the row. -/
theorem on {x : Parser α} (h : rest ≠ [] → rest <:+ ts → Keeps ts rest x Q) :
    Keeps ts rest x Q where
  ok := by
    rintro s s' a rfl hs
    exact (h hs.on.rest_ne_nil hs.on.suffix).ok rfl hs
  error := by
    rintro s s' e rfl hs
    exact (h hs.on.rest_ne_nil hs.on.suffix).error rfl hs

/-! ### Tokens -/

/-- A step that only looks. -/
theorem looking {x : Parser α} {f : α → Parser β} (P : α → Prop)
    (hx : ∀ s : State, s.rest = rest → s.Cites ts → ∃ a s', x s = .ok a s' ∧ s'.rest = s.rest ∧
      s'.Cites ts ∧ P a)
    (h : ∀ a, P a → Keeps ts rest (f a) R) : Keeps ts rest (x >>= f) R where
  ok := by
    intro s s' b hrest hs hrun
    obtain ⟨a, s₁, hok, hrest₁, hs₁, hp⟩ := hx s hrest hs
    simp only [Bind.bind, EStateM.bind, hok] at hrun
    exact (h a hp).ok (hrest₁.trans hrest) hs₁ hrun
  error := by
    intro s s' e hrest hs hrun
    obtain ⟨a, s₁, hok, hrest₁, hs₁, hp⟩ := hx s hrest hs
    simp only [Bind.bind, EStateM.bind, hok] at hrun
    exact (h a hp).error (hrest₁.trans hrest) hs₁ hrun

/-- A new identity is not a token. -/
theorem fresh {f : NodeId → Parser α} (h : ∀ id, Keeps ts rest (f id) Q) :
    Keeps ts rest (Parse.fresh >>= f) Q :=
  looking (fun _ => True)
    (fun _ _ hs => ⟨_, _, rfl, rfl, ⟨hs.on.congr rfl rfl, hs.errors⟩, trivial⟩) fun id _ => h id

/-- The number of tokens that are left takes none of them. -/
theorem remaining {f : Nat → Parser α} (h : Keeps ts rest (f rest.length) Q) :
    Keeps ts rest (Parse.remaining >>= f) Q :=
  looking (· = rest.length) (fun s hrest hs => ⟨_, s, rfl, rfl, hs, hrest ▸ rfl⟩) fun _ hn => hn ▸ h

/-- A complaint about a token of the row. -/
theorem complain {complaint : Complaint} {f : Unit → Parser α} (ht : t ∈ ts)
    (h : Keeps ts rest (f ()) Q) : Keeps ts rest (Parse.complain t complaint >>= f) Q := by
  refine looking (fun _ => True) (fun s _ hs => ⟨_, _, rfl, rfl, ⟨?_, ?_⟩, trivial⟩) fun _ _ => h
  · exact hs.on.congr rfl rfl
  · exact List.forall_mem_cons.2 ⟨ht, hs.errors⟩

/-- The next token is one of the row, as long as there is one. -/
theorem head_mem (hne : rest ≠ []) (hsuffix : rest <:+ ts) : rest.headD .absent ∈ ts := by
  obtain ⟨t, rest', rfl⟩ := List.exists_cons_of_ne_nil hne
  exact hsuffix.subset List.mem_cons_self

/-- The next token is looked at, and it is one of the row. -/
theorem peek {f : Token → Parser α}
    (h : rest.headD .absent ∈ ts → Keeps ts rest (f (rest.headD .absent)) Q) :
    Keeps ts rest (Parse.peek >>= f) Q :=
  .on fun hne hsuffix =>
    looking (· = rest.headD .absent) (fun s hrest hs => ⟨_, s, rfl, rfl, hs, hrest ▸ rfl⟩)
      fun _ ht => ht ▸ h (head_mem hne hsuffix)

/-- So is the token behind it. -/
theorem peekNext {f : Token → Parser α} (h : Keeps ts rest (f (behind rest)) Q) :
    Keeps ts rest (Parse.peekNext >>= f) Q :=
  looking (· = behind rest)
    (fun s hrest hs => ⟨_, s, peekNext_apply s, rfl, hs, by rw [hrest]⟩) fun _ ht => ht ▸ h

/-- So is the token before it, of which nothing is promised. -/
theorem previous {f : Token → Parser α} (h : ∀ t, Keeps ts rest (f t) Q) :
    Keeps ts rest (Parse.previous >>= f) Q :=
  looking (fun _ => True) (fun s _ hs => ⟨_, s, rfl, rfl, hs, trivial⟩) fun t _ => h t

/-- The kind of the next token is that of the token. -/
theorem check {kind : Token.Kind} {f : Bool → Parser α}
    (h : Keeps ts rest (f (decide ((rest.headD .absent).kind = kind))) Q) :
    Keeps ts rest (Parse.check kind >>= f) Q := by
  rw [Parse.check, bind_assoc]
  exact peek fun _ => known h

/-- The row is at its end where its next token is the last kind of all. -/
theorem atEnd {f : Bool → Parser α}
    (h : Keeps ts rest (f (decide ((rest.headD .absent).kind = .eof))) Q) :
    Keeps ts rest (Parse.atEnd >>= f) Q := check h

/-- A token that does not mark the end is taken. -/
theorem advance {f : Token → Parser α} (ht : t.kind ≠ .eof) (h : Keeps ts rest (f t) Q) :
    Keeps ts (t :: rest) (Parse.advance >>= f) Q where
  ok := by
    intro s s' a hrest hs hrun
    simp only [Bind.bind, EStateM.bind, advance_cons hrest ht] at hrun
    exact h.ok rfl ⟨hs.on.take hrest ht, hs.errors⟩ hrun
  error := by
    intro s s' e hrest hs hrun
    simp only [Bind.bind, EStateM.bind, advance_cons hrest ht] at hrun
    exact h.error rfl ⟨hs.on.take hrest ht, hs.errors⟩ hrun

/-- A token is taken because of its kind. -/
theorem advance_of_head {kind : Token.Kind} {f : Token → Parser α}
    (hhead : (rest.headD .absent).kind = kind) (hkind : kind ≠ .eof)
    (h : ∀ t rest', t ∈ ts → t.kind = kind → Keeps ts rest' (f t) Q) :
    Keeps ts rest (Parse.advance >>= f) Q := by
  obtain ⟨t, rest', rfl⟩ := Reads.exists_cons_of_head hhead hkind
  have ht : t.kind = kind := hhead
  refine .on fun hne hsuffix => ?_
  exact advance (ht ▸ hkind) (h t rest' (head_mem hne hsuffix) ht)

/-- The mark of the end is not taken. -/
theorem advanceUnlessEnd {f : Token → Parser α} (h : ∀ t rest', Keeps ts rest' (f t) Q) :
    Keeps ts rest (Parse.advance >>= f) Q := by
  refine .on fun hne _ => ?_
  obtain ⟨t, rest', rfl⟩ := List.exists_cons_of_ne_nil hne
  by_cases ht : t.kind = .eof
  · refine looking (fun _ => True) (fun s hrest hs => ?_) fun t' _ => h t' _
    exact ⟨s.previous, s, advance_eof hrest ht, rfl, hs, trivial⟩
  · exact advance ht (h t rest')

/-- A step that gives up with a complaint about a token of the row. -/
theorem fail {what : Expected} (ht : t ∈ ts) : Keeps ts rest (Parse.fail t what : Parser α) Q :=
  complain ht (throw .bailout)

/-- Nothing follows a step that gives up. -/
theorem fail_bind {what : Expected} {f : α → Parser β} (ht : t ∈ ts) :
    Keeps ts rest (Parse.fail t what >>= f) R :=
  bind (fail ht (Q := fun _ => False)) fun _ _ hnever => hnever.elim

/-- A token that is expected and found is one of the row; a complaint about another one names a
token of the row. -/
theorem expect {kind : Token.Kind} {what : Expected} {f : Token → Parser α} (hkind : kind ≠ .eof)
    (h : ∀ t rest', t ∈ ts → t.kind = kind → Keeps ts rest' (f t) Q) :
    Keeps ts rest (Parse.expect kind what >>= f) Q := by
  rw [Parse.expect, bind_assoc]
  refine check ?_
  split
  · next hhead => exact advance_of_head (of_decide_eq_true hhead) hkind h
  · rw [bind_assoc]
    exact peek fun ht => fail_bind ht

/-- A name is an identifier of the row. -/
theorem expectName {what : Expected} {f : Token → Parser α}
    (h : ∀ t rest', t.NameIn ts → Keeps ts rest' (f t) Q) :
    Keeps ts rest (Parse.expect .identifier what >>= f) Q :=
  expect (by decide) fun t rest' ht hkind => h t rest' ⟨ht, hkind⟩

/-- A token that is taken is one of the row. -/
theorem accept? {kinds : List Token.Kind} {f : Option Token → Parser α} (hkinds : .eof ∉ kinds)
    (hnone : Keeps ts rest (f none) Q)
    (hsome : ∀ t rest', t ∈ ts → Keeps ts rest' (f (some t)) Q) :
    Keeps ts rest (Parse.accept? kinds >>= f) Q := by
  rw [Parse.accept?, bind_assoc]
  refine peek fun _ => ?_
  split
  · next hhead =>
    have hmem := List.contains_iff_mem.1 hhead
    rw [bind_assoc]
    exact advance_of_head rfl (fun he => hkinds (he ▸ hmem)) fun t rest' ht _ =>
      known (hsome t rest' ht)
  · exact known hnone

/-- A token that is taken leaves the state at a token of the row. -/
theorem accept {kind : Token.Kind} {f : Bool → Parser α} (hkind : kind ≠ .eof)
    (h : ∀ taken rest', Keeps ts rest' (f taken) Q) :
    Keeps ts rest (Parse.accept kind >>= f) Q := by
  rw [Parse.accept, bind_assoc]
  exact accept? (fun he => hkind (List.mem_singleton.1 he).symm) (known (h _ _))
    fun t rest' _ => known (h _ _)

/-- A complaint that may be made on the way. -/
theorem complainIf (c : Prop) [Decidable c] {complaint : Complaint} {x : Parser α} (ht : t ∈ ts)
    (hx : Keeps ts rest x Q) :
    Keeps ts rest (do
      if c then Parse.complain t complaint
      x) Q := by
  split
  · exact complain ht hx
  · exact hx

/-- A complaint for some of the things that came before. -/
theorem complaints {γ : Type} (xs : List γ) (c : γ → Prop) [DecidablePred c]
    {complaint : Complaint} {x : Parser α} (ht : t ∈ ts) (hx : Keeps ts rest x Q) :
    Keeps ts rest (do
      for a in xs do
        if c a then Parse.complain t complaint
      x) Q := by
  induction xs with
  | nil => exact hx
  | cons a more ih =>
    rw [List.forIn_cons, bind_assoc]
    split
    · rw [bind_assoc]
      exact complain ht (known ih)
    · exact known ih

end Keeps

/-! ### Expressions -/

variable {g : Nested} {ts rest : List Token}

/-- Nested parts keep to the tokens of a row. -/
structure Nested.Keeping (ts : List Token) (g : Nested) : Prop where
  /-- An expression. -/
  expression : ∀ rest, Keeps ts rest g.expression fun e => AllWithin ts (e.nodes everywhere)
  /-- A declaration. -/
  declaration : ∀ rest, Keeps ts rest g.declaration fun s => AllWithin ts (s.nodes everywhere)

/-- The token of an expression is that of its first node. -/
theorem token_mem_of_allWithin {e : Expr} (h : AllWithin ts (e.nodes everywhere)) :
    e.token ∈ ts := by
  cases e with
  | lambda fn =>
    obtain ⟨id, keyword, name, params, body⟩ := fn
    exact h.head.token
  | _ => exact h.head.token

/-- An operator between two operands is a node with a token of the row. -/
theorem Level.within_node (level : Level) {left right : Expr} {op : Token} (hop : op ∈ ts)
    (hleft : AllWithin ts (left.nodes everywhere)) (hright : AllWithin ts (right.nodes everywhere))
    (id : NodeId) : AllWithin ts ((level.node id left op right).nodes everywhere) := by
  rw [level.nodes_node]
  refine (hleft.append hright).cons ?_
  cases level <;> exact Node.within_of_names_nil hop rfl

section Operands

variable {operand : Parser Expr}
  (h : ∀ rest, Keeps ts rest operand fun e => AllWithin ts (e.nodes everywhere))

include h

/-- The operands of a level are joined by operators of the row. -/
theorem keeps_operands (level : Level) (fuel : Nat) (rest : List Token) {left : Expr}
    (hleft : AllWithin ts (left.nodes everywhere)) :
    Keeps ts rest (operands operand level fuel left) fun e =>
      AllWithin ts (e.nodes everywhere) := by
  induction fuel generalizing rest left with
  | zero => exact .pure hleft
  | succ fuel ih =>
    refine .accept? level.eof_not_mem_operators (.pure hleft) fun op rest hop => ?_
    refine (h rest).bind fun rest right hright => .fresh fun id => ?_
    exact ih rest (level.within_node hop hleft hright id)

/-- A level of operators keeps to the tokens if its operands do. -/
theorem keeps_binary (level : Level) (rest : List Token) :
    Keeps ts rest (binary operand level) fun e => AllWithin ts (e.nodes everywhere) :=
  (h rest).bind fun rest _ hleft => .remaining (keeps_operands h level _ rest hleft)

end Operands

/-- Arguments of a call that consist of tokens of a row. -/
structure Arguments.Within (ts : List Token) (a : Arguments) : Prop where
  /-- The nodes of the arguments. -/
  nodes : AllWithin ts a.nodes
  /-- The names of named arguments. -/
  names : ∀ arg ∈ a.named, arg.name.NameIn ts

/-- No arguments consist of any tokens. -/
theorem Arguments.within_empty : Arguments.Within ts {} := ⟨.nil, List.forall_mem_nil _⟩

/-- A named argument has an identifier of the row for its name. -/
theorem keeps_namedArgument (h : g.Keeping ts) (prior : List NamedArg)
    (hname : (rest.headD .absent).kind = .identifier) (hcolon : (behind rest).kind = .colon) :
    Keeps ts rest (namedArgument g prior) fun arg =>
      arg.name.NameIn ts ∧ AllWithin ts (arg.value.nodes everywhere) := by
  obtain ⟨name, colon, rest, rfl⟩ := exists_behind hname hcolon (by decide) (by decide)
  have hkind : name.kind = .identifier := hname
  have hcolon' : colon.kind = .colon := hcolon
  refine .on fun _ hsuffix => ?_
  have hmem : name ∈ ts := hsuffix.subset List.mem_cons_self
  refine .advance (by rw [hkind]; decide) (.advance (by rw [hcolon']; decide) ?_)
  refine .complaints prior _ hmem ?_
  exact (h.expression rest).bind fun _ value hvalue => .pure ⟨⟨hmem, hkind⟩, hvalue⟩

/-- Arguments keep to the tokens. -/
theorem keeps_arguments (h : g.Keeping ts) (fuel : Nat) (rest : List Token) {a : Arguments}
    (ha : a.Within ts) : Keeps ts rest (arguments g fuel a) (Arguments.Within ts) := by
  induction fuel generalizing rest a with
  | zero => exact .pure ha
  | succ fuel ih =>
    -- whatever the next argument is, a comma decides whether another one follows
    have go : ∀ (rest : List Token) {a : Arguments}, a.Within ts →
        Keeps ts rest (do if ← accept .comma then arguments g fuel a else return a)
          (Arguments.Within ts) := by
      intro rest a ha
      refine .accept (by decide) fun more rest => ?_
      split
      · exact ih rest ha
      · exact .pure ha
    refine .check (.peekNext ?_)
    dsimp only
    split
    · next hnext =>
      obtain ⟨hname, hcolon⟩ := Bool.and_eq_true_iff.1 hnext
      refine (keeps_namedArgument h a.named (of_decide_eq_true hname)
        (of_decide_eq_true hcolon)).bind fun rest arg harg => .known (go rest ⟨?_, ?_⟩)
      · obtain ⟨name, value⟩ := arg
        unfold Arguments.nodes
        rw [NamedArg.nodesOf_append]
        exact ha.nodes.left.append (ha.nodes.right.append (harg.2.append .nil))
      · exact List.forall_mem_append.2 ⟨ha.names, List.forall_mem_singleton.2 harg.1⟩
    · refine (h.expression rest).bind fun rest arg harg => ?_
      have hadded : Arguments.Within ts { a with args := a.args ++ [arg] } := by
        refine ⟨?_, ha.names⟩
        unfold Arguments.nodes
        rw [Expr.nodesOf_append]
        exact (ha.nodes.left.append (harg.append .nil)).append ha.nodes.right
      split
      · exact .known (go rest hadded)
      · exact .complain (token_mem_of_allWithin harg) (.known (go rest hadded))

/-- The rest of a call keeps to the tokens. -/
theorem keeps_callRest (h : g.Keeping ts) (rest : List Token) {callee : Expr}
    (hcallee : AllWithin ts (callee.nodes everywhere)) :
    Keeps ts rest (callRest g callee) fun e => AllWithin ts (e.nodes everywhere) := by
  -- Both ways in, with arguments and without, close the call alike.
  have close : ∀ (rest : List Token) (a : Arguments), a.Within ts →
      Keeps ts rest (do
        let paren ← expect .rightParen .argumentsClose
        return Expr.call (← fresh) callee paren a.args a.named)
        fun e => AllWithin ts (e.nodes everywhere) := by
    intro rest a ha
    refine .expect (by decide) fun paren _ hparen _ => .fresh fun id => .pure ?_
    refine ((hcallee.append ha.nodes.left).append ha.nodes.right).cons ⟨hparen, ?_⟩
    change ∀ t ∈ a.named.map (·.name) ++ [] ++ [], t.NameIn ts
    rw [List.append_nil, List.append_nil]
    exact List.forall_mem_map.2 ha.names
  refine .check ?_
  dsimp only
  split
  · exact .known (close rest {} Arguments.within_empty)
  · exact .remaining ((keeps_arguments h _ rest Arguments.within_empty).bind close)

/-- Calls, members and places behind an operand keep to the tokens. -/
theorem keeps_postfixes (h : g.Keeping ts) (fuel : Nat) (rest : List Token) {e : Expr}
    (he : AllWithin ts (e.nodes everywhere)) :
    Keeps ts rest (postfixes g fuel e) fun e => AllWithin ts (e.nodes everywhere) := by
  -- On the fuel, for any operand that is built from the row so far.
  induction fuel generalizing rest e with
  | zero => exact .pure he
  | succ fuel ih =>
    refine .peek fun _ => .previous fun last => ?_
    split
    · exact .advanceUnlessEnd fun _ rest => (keeps_callRest h rest he).bind fun rest _ => ih rest
    · refine .accept (by decide) fun dotted rest => ?_
      split
      · refine .expectName fun name rest hname => .fresh fun id => ih rest (he.cons ⟨hname.1, ?_⟩)
        exact List.forall_mem_singleton.2 hname
      · exact .pure he

/-! ### Functions and blocks -/

/-- A part that may be missing keeps to the tokens if it does where it stands. -/
theorem keeps_optional {x : Parser Expr}
    (h : ∀ rest, Keeps ts rest x fun e => AllWithin ts (e.nodes everywhere)) (rest : List Token) :
    Keeps ts rest (some <$> x) fun v =>
      AllWithin ts ((v.map (Expr.nodes everywhere)).getD []) :=
  (h rest).map fun _ he => he

/-- Complaints about a parameter change nothing about it. -/
theorem keeps_paramComplaints (prior : List Param) (rest : List Token) {type name : Token}
    (variadic : Bool) {value : Option Expr} (htype : type.isImplied = false → type.NameIn ts)
    (hname : name.NameIn ts) (hvalue : AllWithin ts ((value.map (Expr.nodes everywhere)).getD [])) :
    Keeps ts rest (do
      if let some last := prior.getLast? then
        if last.variadic then complain name .variadicNotLast
        if last.defaultValue.isSome && value.isNone && !variadic then
          complain name .requiredAfterDefault
      if variadic && value.isSome then complain name .variadicDefault
      for other in prior do
        if other.name.lexeme = name.lexeme then complain name (.duplicateParam name.lexeme)
      return ({ type, name, defaultValue := value, variadic } : Param)) (Param.Within ts) := by
  -- All complaints are about the name; what they are does not matter.
  have hlast : Keeps ts rest (do
      for other in prior do
        if other.name.lexeme = name.lexeme then complain name (.duplicateParam name.lexeme)
      return ({ type, name, defaultValue := value, variadic } : Param)) (Param.Within ts) := by
    refine .complaints prior _ hname.1 (.pure ⟨?_, hname, htype⟩)
    rw [Param.nodes_default]
    exact hvalue
  dsimp only
  split
  · exact .complainIf _ hname.1 (.complainIf _ hname.1 (.complainIf _ hname.1 hlast))
  · exact .complainIf _ hname.1 hlast

/-- A parameter keeps to the tokens, its implied type apart. -/
theorem keeps_parameter (h : g.Keeping ts) (prior : List Param) (rest : List Token) :
    Keeps ts rest (parameter g prior) (Param.Within ts) := by
  -- Behind the type, written or implied, the rest of the parameter is the same.
  have go : ∀ (rest : List Token) (type : Token), (type.isImplied = false → type.NameIn ts) →
      Keeps ts rest (do
        let variadic ← accept .ellipsis
        let name ← expect .identifier .paramName
        let value ← if ← accept .equal then some <$> g.expression else pure none
        if let some last := prior.getLast? then
          if last.variadic then complain name .variadicNotLast
          if last.defaultValue.isSome && value.isNone && !variadic then
            complain name .requiredAfterDefault
        if variadic && value.isSome then complain name .variadicDefault
        for other in prior do
          if other.name.lexeme = name.lexeme then complain name (.duplicateParam name.lexeme)
        return ({ type, name, defaultValue := value, variadic } : Param)) (Param.Within ts) := by
    intro rest type htype
    refine .accept (by decide) fun variadic rest => .expectName fun name rest hname => ?_
    refine .accept (by decide) fun given rest => ?_
    cases given with
    | true =>
      exact (keeps_optional h.expression rest).bind fun rest value hvalue =>
        keeps_paramComplaints prior rest variadic htype hname hvalue
    | false => exact .known (keeps_paramComplaints prior rest variadic htype hname .nil)
  refine .peekNext (.check (.ite (fun htyped => ?_) fun _ => ?_))
  · have hkind := of_decide_eq_true (Bool.and_eq_true_iff.1 htyped).1
    exact .advance_of_head hkind (by decide) fun type rest htype hidentifier =>
      go rest type fun _ => ⟨htype, hidentifier⟩
  · refine .known (go rest _ fun himplied => ?_)
    -- An implied type is no token of the source, and nothing is asked of it.
    cases himplied

/-- Parameters keep to the tokens. -/
theorem keeps_parameters (h : g.Keeping ts) (fuel : Nat) (rest : List Token) {params : List Param}
    (hparams : ∀ p ∈ params, p.Within ts) :
    Keeps ts rest (parameters g fuel params) fun params => ∀ p ∈ params, p.Within ts := by
  induction fuel generalizing rest params with
  | zero => exact .pure hparams
  | succ fuel ih =>
    refine (keeps_parameter h params rest).bind fun rest p hp => ?_
    have hall := List.forall_mem_append.2 ⟨hparams, List.forall_mem_singleton.2 hp⟩
    refine .accept (by decide) fun more rest => ?_
    split
    · exact ih rest hall
    · exact .pure hall

/-- The defaults of parameters consist of the tokens of the parameters. -/
theorem allWithin_params {params : List Param} (h : ∀ p ∈ params, p.Within ts) :
    AllWithin ts (Param.nodesOf everywhere params) := by
  induction params with
  | nil => exact .nil
  | cons p rest ih =>
    obtain ⟨hp, hrest⟩ := List.forall_mem_cons.1 h
    rw [← List.singleton_append, Param.nodesOf_append]
    exact hp.nodes.append (ih hrest)

/-- Declarations in a row keep to the tokens. -/
theorem keeps_declarations (h : g.Keeping ts) (fuel : Nat) (rest : List Token) {body : List Stmt}
    (hbody : AllWithin ts (Stmt.nodesOf everywhere body)) :
    Keeps ts rest (declarations g fuel body) fun body =>
      AllWithin ts (Stmt.nodesOf everywhere body) := by
  induction fuel generalizing rest body with
  | zero => exact .pure hbody
  | succ fuel ih =>
    refine .check (.atEnd ?_)
    split
    · exact .pure hbody
    · refine (h.declaration rest).bind fun rest s hs => ih rest ?_
      rw [Stmt.nodesOf_append]
      exact hbody.append (hs.append .nil)

/-- A block keeps to the tokens. -/
theorem keeps_block (h : g.Keeping ts) (rest : List Token) :
    Keeps ts rest (block g) fun b => AllWithin ts (b.nodes everywhere) := by
  refine .expect (by decide) fun brace rest hbrace _ => .remaining ?_
  refine (keeps_declarations h _ rest .nil).bind fun rest body hbody => ?_
  refine .expect (by decide) fun _ rest _ _ => .fresh fun id => .pure ?_
  exact hbody.cons (Node.within_of_names_nil hbrace rfl)

/-- A function whose name, or else its keyword, is among the tokens. -/
theorem keeps_lambdaRest (h : g.Keeping ts) (rest : List Token) {keyword : Token}
    {name : Option Token} (hkeyword : keyword ∈ ts) (hname : ∀ t ∈ name, t.NameIn ts) :
    Keeps ts rest (lambdaRest g keyword name) fun fn => AllWithin ts (fn.nodes everywhere) := by
  -- Behind the parameters, given or not, come the parenthesis and the body.
  have finish : ∀ (rest : List Token) (params : List Param), (∀ p ∈ params, p.Within ts) →
      Keeps ts rest (do
        let _ ← expect .rightParen .paramsClose
        let body ← block g
        return (⟨← fresh, keyword, name, params, body.body⟩ : Lambda)) fun fn =>
        AllWithin ts (fn.nodes everywhere) := by
    intro rest params hparams
    refine .expect (by decide) fun _ rest _ _ => (keeps_block h rest).bind fun rest body hbody => ?_
    obtain ⟨id, brace, body⟩ := body
    refine .fresh fun id => .pure (((allWithin_params hparams).append hbody.tail).cons ⟨?_, ?_⟩)
    · -- The node stands at its name, or at its keyword if it has none.
      change name.getD keyword ∈ ts
      cases name with
      | none => exact hkeyword
      | some t => exact (hname t rfl).1
    · change ∀ t ∈ [] ++ (name.toList ++ params.map (·.name)) ++ Param.writtenTypes params, _
      rw [List.nil_append, List.append_assoc]
      exact List.forall_mem_append.2
        ⟨fun t ht => hname t (Option.mem_toList.1 ht), Param.names_of_within hparams⟩
  refine .expect (by decide) fun _ rest _ _ => .check ?_
  dsimp only
  split
  · exact .known (finish rest [] (List.forall_mem_nil _))
  · exact .remaining ((keeps_parameters h _ rest (List.forall_mem_nil _)).bind finish)

/-- The elements of a list keep to the tokens. -/
theorem keeps_elements (h : g.Keeping ts) (fuel : Nat) (rest : List Token) {es : List Expr}
    (hes : AllWithin ts (Expr.nodesOf everywhere es)) :
    Keeps ts rest (elements g fuel es) fun es => AllWithin ts (Expr.nodesOf everywhere es) := by
  induction fuel generalizing rest es with
  | zero => exact .pure hes
  | succ fuel ih =>
    refine (h.expression rest).bind fun rest e he => ?_
    have hall : AllWithin ts (Expr.nodesOf everywhere (es ++ [e])) := by
      rw [Expr.nodesOf_append]
      exact hes.append (he.append .nil)
    refine .accept (by decide) fun more rest => ?_
    split
    · exact ih rest hall
    · exact .pure hall

/-- A use of `super` keeps to the tokens. -/
theorem keeps_superRest {keyword : Token} (hkeyword : keyword ∈ ts) (rest : List Token) :
    Keeps ts rest (superRest keyword) fun e => AllWithin ts (e.nodes everywhere) := by
  refine .accept (by decide) fun dotted rest => ?_
  split
  · refine .expectName fun method rest hmethod => .fresh fun id => .pure ?_
    exact AllWithin.nil.cons ⟨hkeyword, List.forall_mem_singleton.2 hmethod⟩
  · refine .check ?_
    split
    · exact .fresh fun id => .pure (AllWithin.nil.cons (Node.within_of_names_nil hkeyword rfl))
    · exact .peek fun ht => .fail ht

/-- An operand without operators keeps to the tokens. -/
theorem keeps_primary (h : g.Keeping ts) (rest : List Token) :
    Keeps ts rest (primary g) fun e => AllWithin ts (e.nodes everywhere) := by
  refine .peek fun ht => ?_
  generalize rest.headD .absent = t at ht
  -- An operand that is made of one token has itself as its only node.
  have leaf : ∀ (rest : List Token) {f : NodeId → Expr},
      (∀ id, AllWithin ts ((f id).nodes everywhere)) →
      Keeps ts rest (do return f (← fresh)) fun e => AllWithin ts (e.nodes everywhere) :=
    fun rest f hf => .fresh fun id => .pure (hf id)
  split
  · exact .advanceUnlessEnd fun _ rest => leaf rest fun _ =>
      AllWithin.nil.cons (Node.within_of_names_nil ht rfl)
  · split
    · next hkind =>
      exact .advanceUnlessEnd fun _ rest => leaf rest fun _ =>
        AllWithin.nil.cons ⟨ht, List.forall_mem_singleton.2 ⟨ht, hkind⟩⟩
    · exact .advanceUnlessEnd fun _ rest => leaf rest fun _ =>
        AllWithin.nil.cons (Node.within_of_names_nil ht rfl)
    · exact .advanceUnlessEnd fun _ rest => keeps_superRest ht rest
    · exact .advanceUnlessEnd fun _ rest =>
        (keeps_lambdaRest h rest ht fun _ hnone => by cases hnone).bind fun _ _ hfn => .pure hfn
    · refine .advanceUnlessEnd fun _ rest => (h.expression rest).bind fun rest inner hinner => ?_
      refine .expect (by decide) fun _ rest _ _ => leaf rest fun _ => ?_
      exact hinner.cons (Node.within_of_names_nil ht rfl)
    · have close : ∀ (rest : List Token) (es : List Expr),
          AllWithin ts (Expr.nodesOf everywhere es) →
          Keeps ts rest (do
            let _ ← expect .rightBracket .listClose
            return Expr.list (← fresh) t es) fun e => AllWithin ts (e.nodes everywhere) := by
        intro rest es hes
        exact .expect (by decide) fun _ rest _ _ => leaf rest fun _ =>
          hes.cons (Node.within_of_names_nil ht rfl)
      refine .advanceUnlessEnd fun _ rest => .check ?_
      dsimp only
      split
      · exact .known (close rest [] .nil)
      · exact .remaining ((keeps_elements h _ rest .nil).bind close)
    · exact .fail ht

/-- So does one with calls and members behind it. -/
theorem keeps_call (h : g.Keeping ts) (rest : List Token) :
    Keeps ts rest (call g) fun e => AllWithin ts (e.nodes everywhere) :=
  (keeps_primary h rest).bind fun rest _ he => .remaining (keeps_postfixes h _ rest he)

/-- So does one with operators in front of it. -/
theorem keeps_unary (h : g.Keeping ts) (fuel : Nat) (rest : List Token) :
    Keeps ts rest (unary g fuel) fun e => AllWithin ts (e.nodes everywhere) := by
  induction fuel generalizing rest with
  | zero => exact keeps_call h rest
  | succ fuel ih =>
    refine .accept? (by decide) (keeps_call h rest) fun op rest hop => ?_
    refine (ih rest).bind fun rest right hright => .fresh fun id => .pure ?_
    exact hright.cons (Node.within_of_names_nil hop rfl)

/-- So do all levels of operators. -/
theorem keeps_operation (h : g.Keeping ts) (rest : List Token) :
    Keeps ts rest (operation g) fun e => AllWithin ts (e.nodes everywhere) := by
  have levels : ∀ (levels : List Level) (operand : Parser Expr),
      (∀ rest, Keeps ts rest operand fun e => AllWithin ts (e.nodes everywhere)) →
      ∀ rest, Keeps ts rest (levels.foldl binary operand) fun e =>
        AllWithin ts (e.nodes everywhere) := by
    intro levels
    induction levels with
    | nil => exact fun _ ho => ho
    | cons level rest ih => exact fun operand ho => ih _ (keeps_binary ho level)
  exact levels _ _ (fun rest => .remaining (keeps_unary h _ rest)) rest

/-- A target that is given a value leaves its own node out. -/
theorem allWithin_assignment? {id : NodeId} {value target e : Expr}
    (ht : AllWithin ts (target.nodes everywhere)) (hv : AllWithin ts (value.nodes everywhere))
    (he : assignment? id value target = some e) : AllWithin ts (e.nodes everywhere) := by
  unfold assignment? at he
  split at he
  · next use =>
    cases he
    exact hv.cons ⟨ht.head.token, ht.head.names⟩
  · next object name =>
    cases he
    exact (ht.tail.append hv).cons ⟨ht.head.token, ht.head.names⟩
  · cases he

/-- An assignment keeps to the tokens. -/
theorem keeps_assignment (h : g.Keeping ts) (fuel : Nat) (rest : List Token) :
    Keeps ts rest (assignment g fuel) fun e => AllWithin ts (e.nodes everywhere) := by
  induction fuel generalizing rest with
  | zero => exact keeps_operation h rest
  | succ fuel ih =>
    refine (keeps_operation h rest).bind fun rest target htarget => ?_
    refine .accept? (by decide) (.pure htarget) fun equals rest hequals => ?_
    refine (ih rest).bind fun rest value hvalue => .fresh fun id => ?_
    split
    · next he => exact .pure (allWithin_assignment? htarget hvalue he)
    · exact .complain hequals (.pure htarget)

/-- An expression keeps to the tokens. -/
theorem keeps_expression (h : g.Keeping ts) (rest : List Token) :
    Keeps ts rest (expression g) fun e => AllWithin ts (e.nodes everywhere) :=
  .remaining (keeps_assignment h _ rest)

/-! ### Statements -/

/-- A function keeps to the tokens. -/
theorem keeps_function (h : g.Keeping ts) {keyword : Token} (hkeyword : keyword ∈ ts)
    (rest : List Token) :
    Keeps ts rest (function g keyword) fun fn => AllWithin ts (fn.nodes everywhere) := by
  refine .expectName fun name rest hname => keeps_lambdaRest h rest hkeyword ?_
  rintro _ ⟨⟩
  exact hname

/-- The superclasses of a declaration are names of the row. -/
theorem keeps_superclasses (fuel : Nat) (rest : List Token) {supers : List NameUse}
    (hs : AllWithin ts (superNodes supers)) :
    Keeps ts rest (superclasses fuel supers) fun supers => AllWithin ts (superNodes supers) := by
  induction fuel generalizing rest supers with
  | zero => exact .pure hs
  | succ fuel ih =>
    refine .expectName fun name rest hname => .fresh fun id => ?_
    have hall : AllWithin ts (superNodes (supers ++ [⟨id, name⟩])) := by
      unfold superNodes
      rw [List.flatMap_append]
      exact hs.append (AllWithin.nil.cons ⟨hname.1, List.forall_mem_singleton.2 hname⟩)
    refine .accept (by decide) fun more rest => ?_
    split
    · exact ih rest hall
    · exact .pure hall

/-- The methods of a class keep to the tokens. -/
theorem keeps_methods (h : g.Keeping ts) (fuel : Nat) (rest : List Token) {ms : List Lambda}
    (hm : AllWithin ts (Lambda.nodesOf everywhere ms)) :
    Keeps ts rest (methods g fuel ms) fun ms => AllWithin ts (Lambda.nodesOf everywhere ms) := by
  induction fuel generalizing rest ms with
  | zero => exact .pure hm
  | succ fuel ih =>
    refine .check (.atEnd ?_)
    split
    · exact .pure hm
    · refine .peek fun hkeyword => .accept (by decide) fun _ rest => .check ?_
      -- The keyword is the one in front of the name, or the name itself.
      have method : ∀ {keyword : Token}, keyword ∈ ts → Keeps ts rest (do
          let fn ← function g keyword
          let _ ← accept .semicolon
          methods g fuel (ms ++ [fn])) fun ms => AllWithin ts (Lambda.nodesOf everywhere ms) := by
        intro keyword hkeyword
        refine (keeps_function h hkeyword rest).bind fun rest fn hfn => ?_
        refine .accept (by decide) fun _ rest => ih rest ?_
        rw [Lambda.nodesOf_append]
        exact hm.append (hfn.append .nil)
      split
      · exact method hkeyword
      · exact .peek fun ht => .fail_bind ht

/-- A class keeps to the tokens. -/
theorem keeps_classRest (h : g.Keeping ts) (rest : List Token) :
    Keeps ts rest (classRest g) fun s => AllWithin ts (s.nodes everywhere) := by
  refine .expectName fun name rest hname => ?_
  -- The body goes alike behind superclasses and without them.
  have body : ∀ (rest : List Token) (supers : List NameUse), AllWithin ts (superNodes supers) →
      Keeps ts rest (do
        let _ ← expect .leftBrace .classOpen
        let ms ← methods g (← remaining) []
        let _ ← expect .rightBrace .classClose
        return Stmt.classDecl (← fresh) name supers ms) fun s =>
        AllWithin ts (s.nodes everywhere) := by
    intro rest supers hs
    refine .expect (by decide) fun _ rest _ _ => .remaining ?_
    refine (keeps_methods h _ rest .nil).bind fun rest ms hm => ?_
    refine .expect (by decide) fun _ rest _ _ => .fresh fun id => .pure ?_
    exact (hs.append hm).cons ⟨hname.1, List.forall_mem_singleton.2 hname⟩
  refine .accept (by decide) fun derived rest => ?_
  dsimp only
  split
  · exact .remaining ((keeps_superclasses _ rest .nil).bind body)
  · exact .known (body rest [] .nil)

/-- A declaration of a variable keeps to the tokens. -/
theorem keeps_varRest (h : g.Keeping ts) (rest : List Token) :
    Keeps ts rest (varRest g) fun s => AllWithin ts (s.nodes everywhere) := by
  refine .expectName fun name rest hname => ?_
  -- With a value or without one, the declaration is made in the same way.
  have finish : ∀ (rest : List Token) (v : Option Expr),
      AllWithin ts ((v.map (Expr.nodes everywhere)).getD []) →
      Keeps ts rest (do return Stmt.varDecl (← fresh) name v) fun s =>
        AllWithin ts (s.nodes everywhere) := by
    intro rest v hv
    refine .fresh fun id => .pure ?_
    cases v <;> exact hv.cons ⟨hname.1, List.forall_mem_singleton.2 hname⟩
  refine .accept (by decide) fun given rest => ?_
  dsimp only
  split
  · exact (keeps_optional (keeps_expression h) rest).bind finish
  · exact .known (finish rest none .nil)

/-- A loop over elements keeps to the tokens. -/
theorem keeps_forRest (h : g.Keeping ts) {keyword : Token} (hkeyword : keyword ∈ ts)
    (rest : List Token) :
    Keeps ts rest (forRest g keyword) fun s => AllWithin ts (s.nodes everywhere) := by
  refine .expectName fun name rest hname => .expect (by decide) fun _ rest _ _ => ?_
  refine (keeps_expression h rest).bind fun rest iterable hi => ?_
  refine (keeps_block h rest).bind fun rest body hb => .fresh fun id => .pure ?_
  exact (hi.append hb).cons ⟨hkeyword, List.forall_mem_singleton.2 hname⟩

/-- The other branch of a conditional keeps to the tokens if it does as a statement. -/
theorem keeps_otherwise {x : Parser Stmt}
    (h : Keeps ts rest x fun s => AllWithin ts (s.nodes everywhere)) :
    Keeps ts rest (some <$> x) fun o => AllWithin ts ((o.map (Stmt.nodes everywhere)).getD []) :=
  h.map fun _ hs => hs

/-- A conditional keeps to the tokens. -/
theorem keeps_ifRest (h : g.Keeping ts) (fuel : Nat) {keyword : Token} (hkeyword : keyword ∈ ts)
    (rest : List Token) :
    Keeps ts rest (ifRest g fuel keyword) fun s => AllWithin ts (s.nodes everywhere) := by
  -- On the conditionals that are chained by `else if`.
  induction fuel generalizing rest keyword with
  | zero => exact .throw _
  | succ fuel ih =>
    refine (keeps_expression h rest).bind fun rest condition hc => ?_
    refine (keeps_block h rest).bind fun rest body hb => ?_
    -- Whatever the other branch is, the node is made last.
    have finish : ∀ (rest : List Token) (otherwise : Option Stmt),
        AllWithin ts ((otherwise.map (Stmt.nodes everywhere)).getD []) →
        Keeps ts rest (do return Stmt.ifElse (← fresh) keyword condition body otherwise) fun s =>
          AllWithin ts (s.nodes everywhere) := by
      intro rest otherwise ho
      refine .fresh fun id => .pure ?_
      have hnode : ∀ o, (Node.stmt (.ifElse id keyword condition body o)).Within ts :=
        fun o => Node.within_of_names_nil hkeyword rfl
      cases otherwise with
      | none => exact (hc.append hb).cons (hnode none)
      | some s => exact ((hc.append hb).append ho).cons (hnode (some s))
    refine .accept (by decide) fun more rest => ?_
    dsimp only
    split
    · refine .accept? (by decide) ?_ fun keyword' rest hkeyword' => ?_
      · have hblock : Keeps ts rest (Stmt.block <$> block g) fun s =>
            AllWithin ts (s.nodes everywhere) := (keeps_block h rest).map fun _ hb => hb
        exact (keeps_otherwise hblock).bind finish
      · exact (keeps_otherwise (ih hkeyword' rest)).bind finish
    · exact .known (finish rest none .nil)

/-- A return keeps to the tokens. -/
theorem keeps_returnRest (h : g.Keeping ts) {keyword : Token} (hkeyword : keyword ∈ ts)
    (rest : List Token) :
    Keeps ts rest (returnRest g keyword) fun s => AllWithin ts (s.nodes everywhere) := by
  have finish : ∀ (rest : List Token) (v : Option Expr),
      AllWithin ts ((v.map (Expr.nodes everywhere)).getD []) →
      Keeps ts rest (do return Stmt.ret (← fresh) keyword v) fun s =>
        AllWithin ts (s.nodes everywhere) := by
    intro rest v hv
    refine .fresh fun id => .pure ?_
    cases v <;> exact hv.cons (Node.within_of_names_nil hkeyword rfl)
  refine .peek fun _ => ?_
  dsimp only
  split
  · exact (keeps_optional (keeps_expression h) rest).bind finish
  · exact .known (finish rest none .nil)

/-- A loop keeps to the tokens. -/
theorem keeps_whileRest (h : g.Keeping ts) {keyword : Token} (hkeyword : keyword ∈ ts)
    (rest : List Token) :
    Keeps ts rest (whileRest g keyword) fun s => AllWithin ts (s.nodes everywhere) := by
  refine (keeps_expression h rest).bind fun rest condition hc => ?_
  refine (keeps_block h rest).bind fun rest body hb => .fresh fun id => .pure ?_
  exact (hc.append hb).cons (Node.within_of_names_nil hkeyword rfl)

/-- A statement keeps to the tokens. -/
theorem keeps_statement (h : g.Keeping ts) (rest : List Token) :
    Keeps ts rest (statement g) fun s => AllWithin ts (s.nodes everywhere) := by
  -- Without a keyword it is a block or an expression; otherwise the keyword decides.
  refine .accept? (by decide) (.check ?_) fun keyword rest hkeyword => ?_
  · split
    · exact (keeps_block h rest).bind fun _ _ hb => .pure hb
    · refine (keeps_expression h rest).bind fun rest value hv => .fresh fun id => .pure ?_
      exact hv.cons (Node.within_of_names_nil (token_mem_of_allWithin hv) rfl)
  · dsimp only
    split
    · exact keeps_forRest h hkeyword rest
    · exact .remaining (keeps_ifRest h _ hkeyword rest)
    · exact keeps_whileRest h hkeyword rest
    · exact keeps_returnRest h hkeyword rest

/-- A declaration without what goes around it keeps to the tokens. -/
theorem keeps_bareDeclaration (h : g.Keeping ts) (rest : List Token) :
    Keeps ts rest (bareDeclaration g) fun s => AllWithin ts (s.nodes everywhere) := by
  refine .accept (by decide) fun isClass rest => ?_
  split
  · exact keeps_classRest h rest
  · refine .check (.peekNext ?_)
    split
    · next hfun =>
      have hhead := of_decide_eq_true (Bool.and_eq_true_iff.1 hfun).1
      refine .advance_of_head hhead (by decide) fun keyword rest hkeyword _ => ?_
      refine (keeps_function h hkeyword rest).bind fun rest fn hfn => .fresh fun id => .pure ?_
      refine hfn.cons (Node.within_of_names_nil ?_ rfl)
      obtain ⟨id, keyword, name, params, body⟩ := fn
      exact hfn.head.token
    · refine .accept (by decide) fun isVar rest => ?_
      split
      · exact keeps_varRest h rest
      · exact keeps_statement h rest

/-- A declaration keeps to the tokens. -/
theorem keeps_declaration (h : g.Keeping ts) (rest : List Token) :
    Keeps ts rest (declaration g) fun s => AllWithin ts (s.nodes everywhere) :=
  (keeps_bareDeclaration h rest).bind fun _ _ hs => .accept (by decide) fun _ _ => .pure hs

/-- However deep expressions and declarations nest, they keep to the tokens. -/
theorem nested_keeping (ts : List Token) (levels : Nat) : (nested levels).Keeping ts := by
  induction levels with
  | zero => exact ⟨fun _ => .throw _, fun _ => .throw _⟩
  | succ levels ih => exact ⟨keeps_expression ih, keeps_declaration ih⟩

/-! ### Programs -/

/-- To skip tokens is to go on at a token of the row. -/
theorem keeps_skipToStatement (fuel : Nat) (rest : List Token) :
    Keeps ts rest (skipToStatement fuel) fun _ => True := by
  induction fuel generalizing rest with
  | zero => exact .pure trivial
  | succ fuel ih =>
    refine .atEnd ?_
    split
    · exact .pure trivial
    · refine .previous fun last => ?_
      split
      · exact .pure trivial
      · refine .peek fun _ => ?_
        split
        · exact .pure trivial
        · exact .advanceUnlessEnd fun _ rest => ih rest

/-- After a mistake the parse goes on at a token of the row. -/
theorem keeps_synchronize (rest : List Token) : Keeps ts rest synchronize fun _ => True :=
  .advanceUnlessEnd fun _ rest => .remaining (keeps_skipToStatement _ rest)

/-- A program keeps to the tokens, also where parts of it were given up. -/
theorem cites_programFrom (h : g.Keeping ts) (fuel : Nat) {s : State} (hs : s.Cites ts) :
    (programFrom g fuel s).2.Cites ts ∧
      AllWithin ts (Stmt.nodesOf everywhere (programFrom g fuel s).1) := by
  -- On the rounds; a round that gives a declaration up adds no node.
  induction fuel generalizing s with
  | zero => exact ⟨hs, .nil⟩
  | succ fuel ih =>
    unfold programFrom
    split
    · exact ⟨hs, .nil⟩
    · split
      · next stmt s' hd =>
        obtain ⟨hs', hstmt⟩ := (keeps_declaration h s.rest).ok rfl hs hd
        obtain ⟨hend, hrest⟩ := ih hs'
        exact ⟨hend, hstmt.append hrest⟩
      · next s' hd =>
        have hs' := (keeps_declaration h s.rest).error rfl hs hd
        split
        · next s'' hsync => exact ih ((keeps_synchronize s'.rest).ok rfl hs' hsync).1
        · next s'' hsync => exact ⟨(keeps_synchronize s'.rest).error rfl hs' hsync, .nil⟩
      · next s' hd => exact ⟨(keeps_declaration h s.rest).error rfl hs hd, .nil⟩

/-- What is made of a source, with errors or without them, consists of its tokens: those that locate
nodes, the names in nodes, and those that are complained about. -/
theorem within_tokens (src : List Glyph) (n : NodeId) :
    (∀ e ∈ (tokens (Token.scan src) n).errors, e.token ∈ Token.scan src) ∧
      AllWithin (Token.scan src) (allNodes (tokens (Token.scan src) n).program) := by
  have hstart : ({ rest := Token.scan src, nextId := n } : State).Cites (Token.scan src) :=
    ⟨⟨(proper_scan src).ends, 0, List.length_pos_iff.2 (proper_scan src).ne_nil, rfl, nofun⟩,
      List.forall_mem_nil _⟩
  obtain ⟨hend, hprogram⟩ := cites_programFrom (nested_keeping _ _) _ hstart
  exact ⟨fun e he => hend.errors e (List.mem_reverse.1 he), hprogram⟩

end Parse

end ClassScript
