import ClassScript.Proofs.Parse.Formed

/-!
# The word `super` in front of a parenthesis

The word `super` without a name is written in front of an opening parenthesis. If the parenthesis
is on the same line, it begins the arguments of a call that has the word as its callee; on a later
line it begins a statement of its own. `Called` says so of the nodes of a tree and the tokens of
its source.
-/

namespace ClassScript

/-- A node that neither is the word `super` without a name nor calls it. -/
def Node.Plain : Node → Prop
  | expr (.super _ _ none) | expr (.call _ (.super _ _ none) _ _ _) => False
  | _ => True

/-- A call of anything else is a plain node. -/
theorem Node.plain_call {callee : Expr} (h : ∀ id word, callee ≠ .super id word none) (id : NodeId)
    (close : Token) (args : List Expr) (named : List NamedArg) :
    (Node.expr (.call id callee close args named)).Plain := by
  unfold Plain
  split
  · next heq => cases heq
  · next heq =>
    cases heq
    exact h _ _ rfl
  · trivial

namespace Parse

/-- The word stands in a row of tokens in front of an opening parenthesis. -/
def Opened (ts : List Token) (word paren : Token) : Prop :=
  ∃ after, word :: paren :: after <:+ ts ∧ paren.kind = .leftParen

/-- Among nodes there is a call of the word `super` without a name. -/
def Calls (ns : List Node) (id : NodeId) (word : Token) : Prop :=
  ∃ call close args named, .expr (.call call (.super id word none) close args named) ∈ ns

/-- Behind the word there is a parenthesis, and on the line of the word it begins a call of it. -/
def Followed (ts : List Token) (ns : List Node) (id : NodeId) (word : Token) : Prop :=
  ∃ paren, Opened ts word paren ∧ (paren.line = word.line → Calls ns id word)

/-- More nodes may contain the call. -/
theorem Followed.mono {ts : List Token} {ns ns' : List Node} {id : NodeId} {word : Token}
    (h : Followed ts ns id word) (hns : ns ⊆ ns') : Followed ts ns' id word := by
  obtain ⟨paren, hopened, hcalls⟩ := h
  refine ⟨paren, hopened, fun hline => ?_⟩
  obtain ⟨call, close, args, named, hmem⟩ := hcalls hline
  exact ⟨call, close, args, named, hns hmem⟩

/-- Among nodes, the word `super` without a name is called if a parenthesis is behind it on its
line, which is also the only way to call it. -/
structure Called (ts : List Token) (ns : List Node) : Prop where
  /-- The word stands in front of a parenthesis, which calls it on its line. -/
  followed : ∀ {id : NodeId} {word : Token}, .expr (.super id word none) ∈ ns →
    Followed ts ns id word
  /-- A call of the word begins on its line. -/
  joined : ∀ {id : NodeId} {word : Token}, Calls ns id word →
    ∃ paren, Opened ts word paren ∧ paren.line = word.line

namespace Called

variable {ts : List Token} {ns ns₁ ns₂ : List Node} {n : Node} {id : NodeId} {word paren : Token}

/-- Where there are no nodes, nothing is left uncalled. -/
theorem nil : Called ts [] := ⟨nofun, nofun⟩

/-- Nodes of two parts are called if those of each part are. -/
theorem append (h₁ : Called ts ns₁) (h₂ : Called ts ns₂) : Called ts (ns₁ ++ ns₂) where
  followed hmem := by
    rcases List.mem_append.1 hmem with hmem | hmem
    · exact (h₁.followed hmem).mono (List.subset_append_left _ _)
    · exact (h₂.followed hmem).mono (List.subset_append_right _ _)
  joined := by
    rintro id word ⟨call, close, args, named, hmem⟩
    rcases List.mem_append.1 hmem with hmem | hmem
    · exact h₁.joined ⟨call, close, args, named, hmem⟩
    · exact h₂.joined ⟨call, close, args, named, hmem⟩

/-- A node that has nothing to do with the word. -/
theorem cons (h : Called ts ns) (hn : n.Plain) : Called ts (n :: ns) where
  followed hmem := by
    rcases List.mem_cons.1 hmem with rfl | hmem
    · exact hn.elim
    · exact (h.followed hmem).mono (List.subset_cons_self _ _)
  joined := by
    rintro id word ⟨call, close, args, named, hmem⟩
    rcases List.mem_cons.1 hmem with rfl | hmem
    · exact hn.elim
    · exact h.joined ⟨call, close, args, named, hmem⟩

/-- A plain node in front may be left out. -/
theorem of_cons (h : Called ts (n :: ns)) (hn : n.Plain) : Called ts ns where
  followed hmem := by
    obtain ⟨paren, hopened, hcalls⟩ := h.followed (List.mem_cons_of_mem _ hmem)
    refine ⟨paren, hopened, fun hline => ?_⟩
    obtain ⟨call, close, args, named, hcall⟩ := hcalls hline
    rcases List.mem_cons.1 hcall with rfl | hcall
    · exact hn.elim
    · exact ⟨call, close, args, named, hcall⟩
  joined := by
    rintro id word ⟨call, close, args, named, hmem⟩
    exact h.joined ⟨call, close, args, named, List.mem_cons_of_mem _ hmem⟩

/-- The word with a parenthesis on a later line. -/
theorem alone (hopened : Opened ts word paren) (hline : paren.line ≠ word.line) :
    Called ts [.expr (.super id word none)] where
  followed hmem := by
    cases List.mem_singleton.1 hmem
    exact ⟨paren, hopened, fun h => absurd h hline⟩
  joined := by
    rintro id word ⟨call, close, args, named, hmem⟩
    cases List.mem_singleton.1 hmem

/-- A call of the word. -/
theorem call {call : NodeId} {close : Token} {args : List Expr} {named : List NamedArg}
    (hopened : Opened ts word paren) (hline : paren.line = word.line) (h : Called ts ns) :
    Called ts (.expr (.call call (.super id word none) close args named) ::
      .expr (.super id word none) :: ns) where
  followed hmem := by
    -- The call is in front of the word it calls, and both are new.
    rcases List.mem_cons.1 hmem with hmem | hmem
    · cases hmem
    rcases List.mem_cons.1 hmem with hmem | hmem
    · cases hmem
      exact ⟨paren, hopened, fun _ => ⟨_, _, _, _, List.mem_cons_self⟩⟩
    · exact (h.followed hmem).mono fun _ hn =>
        List.mem_cons_of_mem _ (List.mem_cons_of_mem _ hn)
  joined := by
    rintro id word ⟨call, close, args, named, hmem⟩
    rcases List.mem_cons.1 hmem with hmem | hmem
    · cases hmem
      exact ⟨paren, hopened, hline⟩
    rcases List.mem_cons.1 hmem with hmem | hmem
    · cases hmem
    · exact h.joined ⟨call, close, args, named, hmem⟩

end Called

end Parse

end ClassScript
