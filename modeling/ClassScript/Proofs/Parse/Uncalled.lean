import ClassScript.Proofs.Parse.Progress.Programs
import ClassScript.Proofs.Token.Places

/-!
# Where the word `super` is left uncalled

Two parts of the grammar look at the parenthesis behind the word `super` without a name: one asks
for it wherever it stands, the other begins the arguments with it only on the line of the word. So
the word is called if and only if its parenthesis is on its line, and on a later line it is left
uncalled without an error.
-/

namespace ClassScript.Parse

/-- A token stands only once in the tokens of a source, and so does the one behind it. -/
theorem behind_unique {ts after after' : List Token} {word paren paren' : Token}
    (hts : ts.Pairwise Token.Before) (h : word :: paren :: after <:+ ts)
    (h' : word :: paren' :: after' <:+ ts) : paren = paren' := by
  have hnot : ∀ {xs ys : List Token}, word :: xs <:+ ts → word :: ys <:+ ts →
      (word :: xs).length ≤ (word :: ys).length → word :: xs = word :: ys := by
    intro xs ys hx hy hle
    rcases List.suffix_cons_iff.1 (List.suffix_of_suffix_length_le hx hy hle) with heq | hbehind
    · exact heq
    · -- The word would stand behind itself.
      have hbefore := (List.pairwise_cons.1 (hts.sublist hy.sublist)).1 word
        (hbehind.subset List.mem_cons_self)
      unfold Token.Before Token.Position.Before at hbefore
      omega
  rcases Nat.le_total (word :: paren :: after).length (word :: paren' :: after').length with
    hle | hle
  · cases hnot h h' hle
    rfl
  · cases hnot h' h hle
    rfl

/-- In the program of a source, with errors or without them, the word `super` without a name stands
in front of a parenthesis, and it is called if and only if the parenthesis is on its line. -/
theorem super_called_on_its_line (src : List Glyph) (n : NodeId) {id : NodeId} {word : Token}
    (h : .expr (.super id word none) ∈ allNodes (tokens (Token.scan src) n).program) :
    ∃ before paren after, Token.scan src = before ++ word :: paren :: after ∧
      paren.kind = .leftParen ∧
      (Calls (allNodes (tokens (Token.scan src) n).program) id word ↔ paren.line = word.line) := by
  obtain ⟨-, -, -, hcalled⟩ := programFrom_ends (nested_steady (Token.scan src) _) _
    (on_start src n) (Nat.le_succ _) (Nat.le_refl _)
  obtain ⟨paren, ⟨after, hsuffix, hparen⟩, hcalls⟩ := hcalled.followed h
  obtain ⟨before, hsplit⟩ := hsuffix
  refine ⟨before, paren, after, hsplit.symm, hparen, fun hcall => ?_, hcalls⟩
  obtain ⟨paren', ⟨after', hsuffix', -⟩, hline⟩ := hcalled.joined hcall
  rwa [behind_unique (Token.inOrder_scan src) ⟨before, hsplit⟩ hsuffix']

/-- Whether a node is the word `super` without a name. -/
def isSuper : Node → Bool
  | .expr (.super _ _ none) => true
  | _ => false

/-- Whether a node calls the word `super` without a name. -/
def callsSuper : Node → Bool
  | .expr (.call _ (.super _ _ none) _ _ _) => true
  | _ => false

/-- The check finds the word `super` without a name among nodes. -/
theorem exists_super {ns : List Node} (h : ns.any isSuper = true) :
    ∃ id word, .expr (.super id word none) ∈ ns := by
  obtain ⟨n, hn, hsuper⟩ := List.any_eq_true.1 h
  unfold isSuper at hsuper
  split at hsuper
  · exact ⟨_, _, hn⟩
  · cases hsuper

/-- Where the check finds no call of the word, there is none. -/
theorem not_calls {ns : List Node} (h : ns.any callsSuper = false) (id : NodeId) (word : Token) :
    ¬Calls ns id word := by
  rintro ⟨call, close, args, named, hn⟩
  exact List.any_eq_false.1 h _ hn rfl

/-- The superclass is made with the arguments of the class. -/
theorem super_called_on_its_line_init :
    let src := Glyph.ofString "class B < A { init(n) { super(n) } }"
    let nodes := allNodes (tokens (Token.scan src) 0).program
    ∃ id word, .expr (.super id word none) ∈ nodes ∧
      ∃ before paren after, Token.scan src = before ++ word :: paren :: after ∧
        paren.kind = .leftParen ∧ (Calls nodes id word ↔ paren.line = word.line) := by
  intro src nodes
  have hany : nodes.any isSuper = true := by decide +kernel
  obtain ⟨id, word, hmem⟩ := exists_super hany
  exact ⟨id, word, hmem, super_called_on_its_line src 0 hmem⟩

/-- The parenthesis on the next line is a statement of its own. The source has no errors, and the
word `super` is not called. -/
theorem super_uncalled_without_error :
    let src := Glyph.ofString "class B < A \x7b init(n) \x7b super\n(n) \x7d \x7d"
    let parsed := tokens (Token.scan src) 0
    parsed.errors = [] ∧ ∃ id word, .expr (.super id word none) ∈ allNodes parsed.program ∧
      ¬Calls (allNodes parsed.program) id word := by
  intro src parsed
  have hany : (allNodes parsed.program).any isSuper = true := by decide +kernel
  have hnone : (allNodes parsed.program).any callsSuper = false := by decide +kernel
  obtain ⟨id, word, hmem⟩ := exists_super hany
  exact ⟨List.isEmpty_iff.1 (by decide +kernel), id, word, hmem, not_calls hnone id word⟩

end ClassScript.Parse
