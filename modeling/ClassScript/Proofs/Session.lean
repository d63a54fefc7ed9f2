import ClassScript.Session

/-!
# The problems of a session

Problems are only ever appended, and the two flags of a session follow them. So after any calls the
flags say what kinds of problems there are, and a run says by its outcome what it appended: nothing,
problems found before it ran, or its own failure.
-/

namespace ClassScript

namespace Session

/-! ### Calls -/

/-- A call of a session. -/
inductive Call where
  /-- To read, analyse and run a source. -/
  | run (source : String)
  /-- To read and analyse a source. -/
  | check (source : String)
  /-- To read a source. -/
  | parse (source : String)
  /-- To analyse a program. -/
  | analyze (program : List Stmt)
  /-- To forget all problems. -/
  | reset

/-- The session after a call. -/
def after (s : Session) : Call → Session
  | .run source => (s.run source).2
  | .check source => (s.check source).2
  | .parse source => (s.parse source).2
  | .analyze program => (s.analyze program).2
  | .reset => s.reset

/-- The session after calls in a row. -/
def afterAll (s : Session) (calls : List Call) : Session := calls.foldl after s

/-- The flags say which kinds of problems there are. -/
structure Consistent (s : Session) : Prop where
  /-- The one flag stands for the problems found before a run. -/
  static : s.hadStaticError = true ↔ ∃ d ∈ s.diagnostics, d.kind.isStatic = true
  /-- The other one stands for the failures of runs. -/
  runtime : s.hadRuntimeError = true ↔ ∃ d ∈ s.diagnostics, d.kind = .runtime

/-- What a run leaves behind, by its outcome. -/
def Accounts (s : Session) : RunOutcome × Session → Prop
  | (.finished, s') => s'.diagnostics = s.diagnostics
  | (.rejected, s') => s'.machine = s.machine ∧ ∃ ds ≠ [],
    (∀ d ∈ ds, d.kind.isStatic = true) ∧ s'.diagnostics = s.diagnostics ++ ds
  | (.failed e, s') => ∃ d, s'.diagnostics = s.diagnostics ++ [d] ∧
    d.kind = .runtime ∧ d.message = e.cause.message ∧ d.lexeme = e.token.lexeme ∧
    d.line = .ofNat e.token.line ∧ d.column = .ofNat e.token.column
  | (.undecided, s') => s'.diagnostics = s.diagnostics

/-! ### What a pass adds -/

/-- From one session to the next, problems are appended, and the flags follow them. -/
structure Adds (s s' : Session) (ds : List Diagnostic) : Prop where
  /-- The new problems come last. -/
  diagnostics : s'.diagnostics = s.diagnostics ++ ds
  /-- A problem found before a run sets its flag. -/
  static : s'.hadStaticError = (s.hadStaticError || ds.any (·.kind.isStatic))
  /-- A failure of a run sets the other flag. -/
  runtime : s'.hadRuntimeError = (s.hadRuntimeError || ds.any (!·.kind.isStatic))

namespace Adds

variable {s s' s'' : Session} {ds es : List Diagnostic}

/-- Nothing is added where the problems and the flags are the same. -/
theorem of_eq (hd : s'.diagnostics = s.diagnostics) (hs : s'.hadStaticError = s.hadStaticError)
    (hr : s'.hadRuntimeError = s.hadRuntimeError) : Adds s s' [] where
  diagnostics := by simpa using hd
  static := by simpa using hs
  runtime := by simpa using hr

/-- What two steps add, they add together. -/
theorem trans (h : Adds s s' ds) (h' : Adds s' s'' es) : Adds s s'' (ds ++ es) where
  diagnostics := by rw [h'.diagnostics, h.diagnostics, List.append_assoc]
  static := by rw [h'.static, h.static, List.any_append, Bool.or_assoc]
  runtime := by rw [h'.runtime, h.runtime, List.any_append, Bool.or_assoc]

/-- Additions keep the flags consistent. -/
theorem consistent (h : Adds s s' ds) (hs : s.Consistent) : s'.Consistent where
  static := by
    rw [h.static, h.diagnostics, Bool.or_eq_true, hs.static, List.any_eq_true]
    simp only [List.mem_append, or_and_right, exists_or]
  runtime := by
    have hkind (d : Diagnostic) : (!d.kind.isStatic) = true ↔ d.kind = .runtime := by
      simp [Diagnostic.Kind.isStatic]
    rw [h.runtime, h.diagnostics, Bool.or_eq_true, hs.runtime, List.any_eq_true]
    simp only [hkind, List.mem_append, or_and_right, exists_or]

end Adds

/-- Noting problems adds them. -/
theorem adds_reportAll (s : Session) (ds : List Diagnostic) : Adds s (s.reportAll ds) ds :=
  ⟨rfl, rfl, rfl⟩

/-! ### Passes -/

variable {s s' : Session} {source : String} {program : List Stmt}

/-- A pass before a run rejects exactly if it adds problems. Those are of kinds that are found
before a run, and the machine is left alone. -/
structure Passes (s s' : Session) (rejects : Prop) (ds : List Diagnostic) : Prop where
  /-- The problems are added. -/
  adds : Adds s s' ds
  /-- They are of kinds that are found before a run. -/
  static : ∀ d ∈ ds, d.kind.isStatic = true
  /-- There are some exactly if the pass rejects. -/
  rejects_iff : rejects ↔ ds ≠ []
  /-- The machine is left alone. -/
  machine : s'.machine = s.machine

namespace Passes

/-- A pass that notes problems of one kind. -/
theorem of_map {α : Type} {s₁ : Session} {f : α → Diagnostic} {problems : List α}
    (h : Adds s s₁ []) (hmachine : s₁.machine = s.machine)
    (hf : ∀ a, (f a).kind.isStatic = true) :
    Passes s (s₁.reportAll (problems.map f)) (problems ≠ []) (problems.map f) where
  adds := h.trans (adds_reportAll s₁ (problems.map f))
  static d hd := by
    obtain ⟨a, -, rfl⟩ := List.mem_map.1 hd
    exact hf a
  rejects_iff := by simp
  machine := hmachine

/-- A pass that follows one without problems. -/
theorem after {s₀ : Session} {p q : Prop} {ds : List Diagnostic} (h : Passes s₀ s p [])
    (h' : Passes s s' q ds) : Passes s₀ s' q ds where
  adds := h.adds.trans h'.adds
  static := h'.static
  rejects_iff := h'.rejects_iff
  machine := h'.machine.trans h.machine

/-- The answer of a pass can be put in other words. -/
theorem congr {p q : Prop} {ds : List Diagnostic} (h : Passes s s' p ds) (hiff : q ↔ p) :
    Passes s s' q ds := { h with rejects_iff := hiff.trans h.rejects_iff }

end Passes

/-- The parser rejects a source exactly if it finds errors, and adds these. -/
theorem passes_parse (s : Session) (source : String) :
    Passes s (s.parse source).2 ((s.parse source).1.errors ≠ [])
      ((s.parse source).1.errors.map .ofParse) :=
  .of_map (.of_eq rfl rfl rfl) rfl fun _ => rfl

/-- The type checker rejects a program exactly if it adds problems. -/
theorem passes_checkTypes (s : Session) (program : List Stmt) :
    ∃ ds, Passes s (s.checkTypes program).2 ((s.checkTypes program).1 = .rejected) ds := by
  unfold checkTypes
  rcases s.checker.check program with ⟨verdict, checker⟩
  have hsame : Passes s { s with checker } False [] :=
    ⟨.of_eq rfl rfl rfl, by simp, by simp, rfl⟩
  -- Only a rejection is a problem; a checker without an answer reports nothing.
  cases verdict with
  | accepted => exact ⟨[], hsame.congr (by simp)⟩
  | rejected e =>
    have hreport : Passes s ({ s with checker }.reportAll ([e].map .ofTyping)) ([e] ≠ [])
        ([e].map .ofTyping) := .of_map hsame.adds rfl fun _ => rfl
    exact ⟨_, hreport.congr (by simp)⟩
  | endless => exact ⟨[], hsame.congr (by simp)⟩
  | fault => exact ⟨[], hsame.congr (by simp)⟩

/-- So do the resolver and the type checker together. -/
theorem passes_analyze (s : Session) (program : List Stmt) :
    ∃ ds, Passes s (s.analyze program).2 ((s.analyze program).1 = .rejected) ds := by
  unfold analyze
  rcases s.resolver.run program with ⟨reports, resolver⟩
  have hresolve : Passes s ({ s with resolver }.reportAll (reports.map .ofScope)) (reports ≠ [])
      (reports.map .ofScope) := .of_map (.of_eq rfl rfl rfl) rfl fun _ => rfl
  -- The types are checked only if nothing was reported of the scopes, and if they are to be
  -- checked.
  cases reports with
  | nil =>
    dsimp only [List.isEmpty_nil, Bool.not_true] at hresolve ⊢
    split
    · contradiction
    split
    · obtain ⟨ds, hcheck⟩ := passes_checkTypes _ program
      exact ⟨ds, hresolve.after hcheck⟩
    · exact ⟨[], hresolve.congr (by simp)⟩
  | cons r reports => exact ⟨_, hresolve.congr (by simp)⟩

/-- So do all passes that come before a run. -/
theorem passes_check (s : Session) (source : String) :
    ∃ ds, Passes s (s.check source).2 ((s.check source).1 = .rejected) ds := by
  have hparse := passes_parse s source
  unfold check
  generalize s.parse source = r at hparse ⊢
  obtain ⟨parsed, s₁⟩ := r
  dsimp only at hparse ⊢
  -- The later passes see only a program that was parsed without errors.
  split
  next hempty =>
    rw [List.isEmpty_iff.1 hempty] at hparse
    obtain ⟨ds, hanalyze⟩ := passes_analyze s₁ parsed.program
    exact ⟨ds, hparse.after hanalyze⟩
  next hsome => exact ⟨_, hparse.congr (by simpa using hsome)⟩

/-! ### Runs -/

/-- A run goes on from a check that passed, and otherwise ends with it. -/
theorem run_eq (s : Session) (source : String) :
    s.run source = match s.check source with
      | (.passed, s') => s'.execute (s.parse source).1.program
      | (.rejected, s') => (.rejected, s')
      | (.undecided, s') => (.undecided, s') := by
  unfold run check
  generalize s.parse source = r
  obtain ⟨parsed, s₁⟩ := r
  dsimp only
  split <;> rfl

/-- A run of a program that was analysed adds its failure, if it fails, and nothing else. -/
theorem adds_execute (s : Session) (program : List Stmt) :
    ∃ ds, Adds s (s.execute program).2 ds ∧ Accounts s (s.execute program) := by
  unfold execute
  generalize Machine.interpret _ _ _ = r
  obtain ⟨ending, machine⟩ := r
  have hsame : Adds s { s with machine } [] := .of_eq rfl rfl rfl
  -- A failure at run time is the one problem that a run can add.
  cases ending with
  | finished => exact ⟨_, hsame, rfl⟩
  | failed e =>
    exact ⟨_, hsame.trans (adds_reportAll _ [.ofRuntime e]), .ofRuntime e, rfl, rfl, rfl, rfl, rfl,
      rfl⟩
  | fault => exact ⟨_, hsame, rfl⟩
  | exhausted => exact ⟨_, hsame, rfl⟩

/-- What is appended to a session is appended to any other one with its problems and machine. -/
theorem Accounts.of_eq {r : RunOutcome × Session} (h : Accounts s' r)
    (hdiagnostics : s'.diagnostics = s.diagnostics) (hmachine : s'.machine = s.machine) :
    Accounts s r := by
  unfold Accounts at h ⊢
  rwa [hdiagnostics, hmachine] at h

/-- A run adds what the passes before it add or, if they pass, its own failure, and says so by its
outcome. -/
theorem adds_run (s : Session) (source : String) :
    ∃ ds, Adds s (s.run source).2 ds ∧ Accounts s (s.run source) := by
  obtain ⟨ds, hcheck⟩ := passes_check s source
  rw [run_eq]
  generalize s.check source = r at hcheck ⊢
  obtain ⟨outcome, s₁⟩ := r
  -- A check that does not reject the program has added nothing.
  have hsame (h : outcome ≠ .rejected) : s₁.diagnostics = s.diagnostics := by
    obtain rfl : ds = [] := by simpa [h] using hcheck.rejects_iff
    simpa using hcheck.adds.diagnostics
  cases outcome with
  | passed =>
    obtain ⟨es, hadds, haccounts⟩ := adds_execute s₁ (s.parse source).1.program
    exact ⟨_, hcheck.adds.trans hadds, haccounts.of_eq (hsame (by simp)) hcheck.machine⟩
  | rejected =>
    exact ⟨ds, hcheck.adds, hcheck.machine, ds, hcheck.rejects_iff.1 rfl, hcheck.static,
      hcheck.adds.diagnostics⟩
  | undecided => exact ⟨ds, hcheck.adds, hsame (by simp)⟩

/-! ### Calls in a row -/

/-- A call keeps the flags consistent. -/
theorem Consistent.after (h : s.Consistent) (call : Call) : (s.after call).Consistent := by
  -- One case for each call; a reset is the only one that takes problems away.
  cases call with
  | run source =>
    obtain ⟨_, hadds, -⟩ := adds_run s source
    exact hadds.consistent h
  | check source =>
    obtain ⟨_, hpasses⟩ := passes_check s source
    exact hpasses.adds.consistent h
  | parse source => exact (passes_parse s source).adds.consistent h
  | analyze program =>
    obtain ⟨_, hpasses⟩ := passes_analyze s program
    exact hpasses.adds.consistent h
  | reset => exact ⟨by simp [Session.after, reset], by simp [Session.after, reset]⟩

/-- Calls in a row keep the flags consistent. -/
theorem Consistent.afterAll (h : s.Consistent) (calls : List Call) :
    (s.afterAll calls).Consistent := by
  induction calls generalizing s with
  | nil => exact h
  | cons call calls ih => exact ih (h.after call)

end Session

end ClassScript
