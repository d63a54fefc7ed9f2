import ClassScript.Proofs.Scope.Reports
import ClassScript.Proofs.Typing.Blames
import ClassScript.Proofs.Typing.Rollback
import ClassScript.Session

/-!
# What an analysis takes from its document

An analysis comes from the tokens of its document, in every pass: its statements consist of them,
its problems are at them, and besides the globals of the machine its checker knows only names that
are identifiers among them.
-/

namespace ClassScript

open Node (AllWithin)
open Typing (Checker Nameable)

/-- Problems at given tokens. -/
def Diagnostic.Located (ts : List Token) (ds : List Diagnostic) : Prop :=
  ∀ d ∈ ds, ∃ t ∈ ts, d = .atToken d.kind t d.message

/-- An analysis of given tokens. -/
structure Analysis.Within (ts : List Token) (a : Analysis) : Prop where
  /-- The statements consist of the tokens. -/
  program : AllWithin ts (allNodes a.program)
  /-- The problems are at the tokens. -/
  diagnostics : Diagnostic.Located ts a.diagnostics
  /-- A global name is one of the machine, or the program can make it. -/
  globals : ∀ name ∈ a.checker.globals,
    name ∈ (Checker.ofMachine .initial).globals ∨ Nameable ts name

namespace Session

variable {ts : List Token} {s : Session} {program : List Stmt}

/-- Problems at given tokens stay so when others are added. -/
theorem located_reportAll {ds : List Diagnostic} (hs : Diagnostic.Located ts s.diagnostics)
    (hds : Diagnostic.Located ts ds) : Diagnostic.Located ts (s.reportAll ds).diagnostics :=
  List.forall_mem_append.2 ⟨hs, hds⟩

/-- Problems that are made of something else, each at its token. -/
theorem located_map {α : Type} {f : α → Diagnostic} {token : α → Token}
    (hf : ∀ x, f x = .atToken (f x).kind (token x) (f x).message) {xs : List α}
    (h : ∀ x ∈ xs, token x ∈ ts) : Diagnostic.Located ts (xs.map f) :=
  List.forall_mem_map.2 fun x hx => ⟨token x, h x hx, hf x⟩

/-- A check of the types reports a token of the program, if it reports anything, and makes global
what the program can make so. -/
theorem within_checkTypes (hs : Diagnostic.Located ts s.diagnostics)
    (h : AllWithin ts (allNodes program)) :
    Diagnostic.Located ts (s.checkTypes program).2.diagnostics ∧
      ∀ name ∈ (s.checkTypes program).2.checker.globals,
        name ∈ s.checker.globals ∨ Nameable ts name := by
  obtain ⟨hblamed, hglobals⟩ := s.checker.blames_check h
  unfold checkTypes
  generalize s.checker.check program = answer at hblamed hglobals ⊢
  obtain ⟨verdict, checker⟩ := answer
  -- Only a rejected program has anything reported, and this at the token that is to blame.
  cases verdict with
  | accepted => exact ⟨hs, hglobals⟩
  | endless => exact ⟨hs, hglobals⟩
  | fault => exact ⟨hs, hglobals⟩
  | rejected e =>
    have hfault : Diagnostic.Located ts [.ofTyping e] :=
      List.forall_mem_singleton.2 ⟨e.token, hblamed e rfl, rfl⟩
    exact ⟨located_reportAll hs hfault, hglobals⟩

/-- So do all passes in front of a run. -/
theorem within_analyze (s : Session) (program : List Stmt)
    (hs : Diagnostic.Located ts s.diagnostics) (h : AllWithin ts (allNodes program)) :
    Diagnostic.Located ts (s.analyze program).2.diagnostics ∧
      ∀ name ∈ (s.analyze program).2.checker.globals,
        name ∈ s.checker.globals ∨ Nameable ts name := by
  let resolved : Session := { s with resolver := (s.resolver.run program).2 }
  have hreports : Diagnostic.Located ts
      (resolved.reportAll ((s.resolver.run program).1.map .ofScope)).diagnostics :=
    located_reportAll hs (located_map (fun _ => rfl) (s.resolver.cites_run h))
  unfold analyze
  dsimp only
  -- After a report of the resolver the types are not checked.
  split
  · exact ⟨hreports, fun _ => .inl⟩
  · split
    · exact within_checkTypes hreports h
    · exact ⟨hreports, fun _ => .inl⟩

/-- After a check of the types the checker is in a state that programs lead to. -/
theorem reachable_checkTypes (h : s.checker.Reachable) :
    (s.checkTypes program).2.checker.Reachable := by
  have hchecked := h.checked program
  unfold checkTypes
  generalize s.checker.check program = answer at hchecked ⊢
  obtain ⟨verdict, checker⟩ := answer
  cases verdict <;> exact hchecked

/-- So it is after all passes in front of a run. -/
theorem reachable_analyze (h : s.checker.Reachable) :
    (s.analyze program).2.checker.Reachable := by
  unfold analyze
  dsimp only
  split
  · exact h
  · split
    · exact reachable_checkTypes h
    · exact h

end Session

/-- The checker behind an analysis is in a state that programs lead to. -/
theorem Analysis.reachable_ofSource? {text : String} {a : Analysis} (h : ofSource? text = some a) :
    a.checker.Reachable := by
  unfold ofSource? at h
  dsimp only at h
  split at h
  · cases h
  · next hanalyze =>
    cases h
    let read := ({ checksTypes := true } : Session).parse text
    have hreachable : (read.2.analyze read.1.program).2.checker.Reachable :=
      Session.reachable_analyze (.seeded _)
    rwa [hanalyze] at hreachable

/-- An analysis of a document is one of its tokens. -/
theorem Analysis.within_ofSource? {text : String} {a : Analysis} (h : ofSource? text = some a) :
    a.Within (Token.scanText text) := by
  obtain ⟨herrors, hprogram⟩ := Parse.within_tokens (Glyph.ofString text) 0
  let program := (({ checksTypes := true } : Session).parse text).1.program
  let s := (({ checksTypes := true } : Session).parse text).2
  have hs : Diagnostic.Located (Token.scanText text) s.diagnostics :=
    Session.located_reportAll (List.forall_mem_nil _)
      (Session.located_map (fun _ => rfl) herrors)
  obtain ⟨hdiagnostics, hglobals⟩ := s.within_analyze program hs hprogram
  unfold ofSource? at h
  dsimp only at h
  -- Where there is an analysis, it has what the session ended with.
  split at h
  · cases h
  · next s' _ hanalyze =>
    cases h
    change s.analyze program = (_, s') at hanalyze
    rw [hanalyze] at hdiagnostics hglobals
    exact ⟨hprogram, hdiagnostics, hglobals⟩

end ClassScript
