import ClassScript.Editor.Server

/-!
# Fresh analyses

The steps of several messages can alternate: first the text of a document is changed or read, and
later the worker carries a task out. What the worker keeps about a document depends only on the
order of the tasks on that document. If they end in the order in which they began, and every text
has an analysis, then the analysis that is kept is that of the text as soon as no task is left.
Without the order, or without an analysis, the one of an earlier text can stay.
-/

namespace ClassScript.Editor

/-- The document of a task. -/
def Task.uri : Task → String
  | analyze uri _ => uri
  | forget uri => uri
  | consult uri _ => uri

/-- What is kept about the document of a task after it, by what was kept before. -/
def Task.outcome (stored : Option Analysis) : Task → Option Analysis
  | analyze _ text => (Analysis.ofSource? text).or stored
  | forget _ => none
  | consult _ text => stored.or (Analysis.ofSource? text)

namespace Server

/-- What is kept about a document. -/
def stored (s : Server) (uri : String) : Option Analysis := s.worker.state.analyses[uri]?

/-- What is kept is not out of date: it is the analysis of the text of an open document, and nothing
where the document is not open. -/
def UpToDate (stored : Option Analysis) : Option String → Prop
  | some text => ∀ a, stored = some a → Analysis.ofSource? text = some a
  | none => stored = none

/-- What is kept about each document is not out of date. -/
def Fresh (s : Server) : Prop := ∀ uri, UpToDate (s.stored uri) s.documents[uri]?

end Server

/-! ### Messages in progress -/

/-- A server with the messages that have begun and not ended yet. -/
structure Progress where
  /-- The server. -/
  server : Server := {}
  /-- The tasks of the messages, in the order in which they began. -/
  tasks : List Task := []

/-- A step of a message. -/
inductive Event where
  /-- A message begins. -/
  | begin (message : Message)
  /-- One of the tasks in progress is carried out. -/
  | finish (index : Nat)

namespace Progress

/-- Takes a step. A step of a task that is not there does nothing. -/
def step (p : Progress) : Event → Progress
  | .begin message =>
    let (task, server) := p.server.begin message
    { server, tasks := p.tasks ++ task.toList }
  | .finish i => match p.tasks[i]? with
    | some task => { server := (p.server.finish task).2, tasks := p.tasks.eraseIdx i }
    | none => p

/-- Takes steps in a row. -/
def run (p : Progress) (events : List Event) : Progress := events.foldl step p

/-- Tasks on one document end in the order in which they began. -/
def InOrder (p : Progress) : List Event → Prop
  | [] => True
  | .begin message :: events => (p.step (.begin message)).InOrder events
  | .finish i :: events =>
    (∀ task ∈ p.tasks[i]?, ∀ t ∈ p.tasks.take i, t.uri ≠ task.uri) ∧
      (p.step (.finish i)).InOrder events

end Progress

/-- Whether tasks end in their order can be found out. -/
def Progress.decidableInOrder (p : Progress) : (events : List Event) → Decidable (p.InOrder events)
  | [] => isTrue trivial
  | .begin message :: events => (p.step (.begin message)).decidableInOrder events
  | .finish i :: events =>
    have := (p.step (.finish i)).decidableInOrder events
    inferInstanceAs (Decidable (_ ∧ _))

instance (p : Progress) (events : List Event) : Decidable (p.InOrder events) :=
  p.decidableInOrder events

/-- The text that an event gives to a document, if any, has an analysis. -/
def Event.HasAnalysis : Event → Prop
  | begin (.update _ text) => (Analysis.ofSource? text).isSome = true
  | _ => True

instance : DecidablePred Event.HasAnalysis
  | .begin (.update _ text) => inferInstanceAs (Decidable ((Analysis.ofSource? text).isSome = true))
  | .begin (.close _) => isTrue trivial
  | .begin (.ask _) => isTrue trivial
  | .finish _ => isTrue trivial

/-! ### Tasks -/

/-- What is kept about a document after a task on any document. -/
def Task.effect (uri : String) (stored : Option Analysis) (task : Task) : Option Analysis :=
  if task.uri = uri then task.outcome stored else stored

/-- What is kept about a document after tasks in a row. -/
def Task.effects (uri : String) (tasks : List Task) (stored : Option Analysis) : Option Analysis :=
  tasks.foldl (effect uri) stored

/-- A task on one document leaves what is kept about another one alone. -/
theorem Task.effect_other {task : Task} {uri : String} (h : task.uri ≠ uri)
    (stored : Option Analysis) : Task.effect uri stored task = stored := if_neg h

namespace Worker

variable {σ α : Type} {w : Worker σ} {job : Job σ α}

/-- The state after a job. One that fails leaves it as it was. -/
def stateAfter (state : σ) : Except String (α × σ) → σ
  | .ok (_, state') => state'
  | .error _ => state

/-- A worker that has not stopped has the state after its job. -/
theorem state_perform (h : w.stopped = false) :
    (w.perform job).2.state = stateAfter w.state (job w.state) := by
  unfold perform
  rw [h]
  cases job w.state <;> rfl

/-- No job stops the worker. -/
theorem stopped_perform : (w.perform job).2.stopped = w.stopped := by
  unfold perform
  split
  · rfl
  · cases job w.state <;> rfl

end Worker

open Worker (stateAfter)

/-- What is kept after a text was analysed. -/
theorem Workspace.analyses_analyze (w : Workspace) (u text uri : String) :
    (stateAfter w (reply (w.analyze u text))).analyses[uri]? =
      if u = uri then (Analysis.ofSource? text).or w.analyses[uri]? else w.analyses[uri]? := by
  unfold analyze
  cases Analysis.ofSource? text with
  | none => simp [reply, stateAfter]
  | some a => simp [reply, stateAfter, Std.TreeMap.getElem?_insert]

/-- What is kept after an analysis was looked up. -/
theorem Workspace.analyses_consult (w : Workspace) (u text uri : String) :
    (stateAfter w (reply (w.consult u text))).analyses[uri]? =
      if u = uri then w.analyses[uri]?.or (Analysis.ofSource? text) else w.analyses[uri]? := by
  unfold consult
  by_cases hu : u = uri
  · subst hu
    cases h : w.analyses[u]? with
    | none => simp [w.analyses_analyze, h]
    | some a => simp [reply, stateAfter, h]
  · cases w.analyses[u]? with
    | none => simp [w.analyses_analyze, hu]
    | some a => simp [reply, stateAfter, hu]

/-- What is kept after a task. -/
theorem Task.analyses_job (task : Task) (w : Workspace) (uri : String) :
    (stateAfter w (task.job w)).analyses[uri]? = task.effect uri w.analyses[uri]? := by
  cases task with
  | analyze u text => exact w.analyses_analyze u text uri
  | forget u =>
    by_cases hu : u = uri <;>
      simp [job, stateAfter, Workspace.forget, Std.TreeMap.getElem?_erase, effect, Task.uri,
        outcome, hu]
  | consult u text => exact w.analyses_consult u text uri

namespace Server

variable {s : Server} {task : Task} {uri : String}

/-- The texts of documents are left alone by tasks. -/
@[simp] theorem documents_finish : (s.finish task).2.documents = s.documents := rfl

/-- Changes of texts leave what is kept alone. -/
@[simp] theorem stored_documents (documents : Std.TreeMap String String) :
    Server.stored { documents, worker := s.worker } uri = s.stored uri := rfl

/-- No task stops the worker. -/
@[simp] theorem stopped_finish : (s.finish task).2.worker.stopped = s.worker.stopped :=
  Worker.stopped_perform

/-- What is kept after a task of a running worker. -/
theorem stored_finish (hrun : s.worker.stopped = false) :
    (s.finish task).2.stored uri = task.effect uri (s.stored uri) := by
  have hstate : (s.finish task).2.worker.state = _ := Worker.state_perform hrun
  rw [stored, hstate, Task.analyses_job, stored]

end Server

/-- Tasks on other documents change nothing. -/
theorem Task.effects_others {tasks : List Task} {uri : String} (h : ∀ t ∈ tasks, t.uri ≠ uri)
    (stored : Option Analysis) : Task.effects uri tasks stored = stored := by
  induction tasks with
  | nil => rfl
  | cons t tasks ih =>
    rw [effects, List.foldl_cons, effect_other (h t List.mem_cons_self)]
    exact ih fun t ht => h t (List.mem_cons_of_mem _ ht)

/-! ### Runs -/

namespace Progress

open Server (UpToDate)

variable {p : Progress} {uri : String}

/-- What will be kept about a document once the tasks in progress are carried out in their order. -/
def settled (p : Progress) (uri : String) : Option Analysis :=
  Task.effects uri p.tasks (p.server.stored uri)

/-- What holds throughout a run: the worker runs, and once the tasks in progress are carried out in
their order, nothing is out of date. -/
structure Settles (p : Progress) : Prop where
  /-- The worker runs. -/
  running : p.server.worker.stopped = false
  /-- In the end nothing is out of date. -/
  upToDate : ∀ uri, UpToDate (p.settled uri) p.server.documents[uri]?

/-- What will be kept does not depend on when the first task on a document is carried out. -/
theorem settled_finish {i : Nat} {task : Task} (hrun : p.server.worker.stopped = false)
    (htask : p.tasks[i]? = some task) (hfirst : ∀ t ∈ p.tasks.take i, t.uri ≠ task.uri) :
    (p.step (.finish i)).settled uri = p.settled uri := by
  obtain ⟨hi, rfl⟩ := List.getElem?_eq_some_iff.1 htask
  have hsplit : p.tasks = p.tasks.take i ++ p.tasks[i] :: p.tasks.drop (i + 1) := by simp
  have hstep : p.step (.finish i) =
      { server := (p.server.finish p.tasks[i]).2, tasks := p.tasks.eraseIdx i } := by
    simp [step, htask]
  calc (p.step (.finish i)).settled uri
      = Task.effects uri (p.tasks.take i ++ p.tasks.drop (i + 1))
          (p.tasks[i].effect uri (p.server.stored uri)) := by
        rw [hstep, settled, Server.stored_finish hrun, List.eraseIdx_eq_take_drop_succ]
    _ = Task.effects uri (p.tasks.take i ++ p.tasks[i] :: p.tasks.drop (i + 1))
          (p.server.stored uri) := by
        unfold Task.effects
        rw [List.foldl_append, List.foldl_append, List.foldl_cons]
        congr 1
        -- The tasks in front are on other documents, so this one may as well be carried out first.
        by_cases huri : p.tasks[i].uri = uri
        · rw [huri] at hfirst
          exact (Task.effects_others hfirst _).trans
            (congrArg (p.tasks[i].effect uri) (Task.effects_others hfirst _).symm)
        · rw [Task.effect_other huri, Task.effect_other huri]
    _ = p.settled uri := by rw [← hsplit]; rfl

/-- One more task is carried out last. It is enough that it brings its own document up to date, if
it comes with a change of that one only. -/
theorem Settles.snoc (h : p.Settles) {s : Server} (task : Task)
    (hworker : s.worker = p.server.worker)
    (hothers : ∀ uri, task.uri ≠ uri → s.documents[uri]? = p.server.documents[uri]?)
    (hown : UpToDate (task.outcome (p.settled task.uri)) s.documents[task.uri]?) :
    Settles { server := s, tasks := p.tasks ++ [task] } where
  running := hworker ▸ h.running
  upToDate uri := by
    have hsettled : settled { server := s, tasks := p.tasks ++ [task] } uri =
        task.effect uri (p.settled uri) := by
      simp [settled, Task.effects, Server.stored, hworker]
    rw [hsettled]
    -- The task changes its own document only.
    by_cases huri : task.uri = uri
    · subst huri
      rwa [Task.effect, if_pos rfl]
    · rw [Task.effect_other huri, hothers uri huri]
      exact h.upToDate uri

/-- A message that begins leaves its task to be done last. -/
theorem Settles.begin (h : p.Settles) {message : Message}
    (htext : (Event.begin message).HasAnalysis) : (p.step (.begin message)).Settles := by
  cases message with
  | update u text =>
    refine h.snoc (.analyze u text) rfl (fun uri hu => ?_) ?_
    · have hu : u ≠ uri := hu
      simp [Std.TreeMap.getElem?_insert, hu]
    · obtain ⟨a, ha⟩ := Option.isSome_iff_exists.1 htext
      simp [Task.uri, Task.outcome, UpToDate, ha]
  | close u =>
    refine h.snoc (.forget u) rfl (fun uri hu => ?_) ?_
    · have hu : u ≠ uri := hu
      simp [Std.TreeMap.getElem?_erase, hu]
    · simp [Task.uri, Task.outcome, UpToDate]
  | ask u =>
    cases htext : p.server.documents[u]? with
    | none =>
      have hstep : p.step (.begin (.ask u)) = p := by simp [step, Server.begin, htext]
      rwa [hstep]
    | some text =>
      have hstep : p.step (.begin (.ask u)) =
          { server := p.server, tasks := p.tasks ++ [.consult u text] } := by
        simp [step, Server.begin, htext]
      rw [hstep]
      refine h.snoc (.consult u text) rfl (fun _ _ => rfl) ?_
      -- What is kept was up to date before, and what is missing is made from the same text.
      have hold := h.upToDate u
      simp only [Task.uri, Task.outcome, htext] at hold ⊢
      intro a ha
      obtain ha | ⟨-, ha⟩ := Option.or_eq_some_iff.1 ha
      · exact hold a ha
      · exact ha

/-- A task that ends before no earlier one on its document changes nothing in the end. -/
theorem Settles.finish (h : p.Settles) {i : Nat}
    (hfirst : ∀ task ∈ p.tasks[i]?, ∀ t ∈ p.tasks.take i, t.uri ≠ task.uri) :
    (p.step (.finish i)).Settles := by
  cases htask : p.tasks[i]? with
  | none => simpa [step, htask] using h
  | some task =>
    have hstep : p.step (.finish i) =
        { server := (p.server.finish task).2, tasks := p.tasks.eraseIdx i } := by
      simp [step, htask]
    refine ⟨by rw [hstep]; exact Server.stopped_finish.trans h.running, fun uri => ?_⟩
    rw [settled_finish h.running htask (hfirst task htask), hstep]
    exact h.upToDate uri

/-- Steps in a row, in the order of the messages on each document. -/
theorem Settles.run (h : p.Settles) {events : List Event}
    (htexts : ∀ e ∈ events, e.HasAnalysis) (horder : p.InOrder events) :
    (p.run events).Settles := by
  induction events generalizing p with
  | nil => exact h
  | cons e events ih =>
    have hrest : ∀ e ∈ events, e.HasAnalysis := fun e he => htexts e (List.mem_cons_of_mem _ he)
    cases e with
    | begin message => exact ih (h.begin (htexts _ List.mem_cons_self)) hrest horder
    | finish i => exact ih (h.finish horder.1) hrest horder.2

/-- At the start there is nothing that could be out of date. -/
theorem settles_start : Settles {} :=
  ⟨rfl, fun uri => by simp [settled, Task.effects, Server.stored, UpToDate]⟩

/-- Nothing that is kept is out of date whenever no message is in progress, in whatever way the
steps of the messages alternate. Only tasks on the same document have to end in the order in which
they began, and each text that a document has had must have an analysis. -/
theorem analyses_stay_fresh (events : List Event) (htexts : ∀ e ∈ events, e.HasAnalysis)
    (horder : ({} : Progress).InOrder events) (hdone : (({} : Progress).run events).tasks = []) :
    (({} : Progress).run events).server.Fresh := by
  have hend := (settles_start.run htexts horder).upToDate
  intro uri
  simpa [settled, hdone, Task.effects] using hend uri

/-- Three messages on one document, and one on another that overlaps with all of them. -/
theorem analyses_stay_fresh_overlap :
    let events := [.begin (.update "u" "1"), .begin (.ask "u"), .begin (.update "v" "("), .finish 2,
      .finish 0, .begin (.close "u"), .finish 0, .finish 0]
    (∀ e ∈ events, e.HasAnalysis) ∧ ({} : Progress).InOrder events ∧
      (({} : Progress).run events).tasks = [] ∧ (({} : Progress).run events).server.Fresh := by
  intro events
  have htexts : ∀ e ∈ events, e.HasAnalysis := by decide +kernel
  have horder : ({} : Progress).InOrder events := by decide +kernel
  exact ⟨htexts, horder, rfl, analyses_stay_fresh events htexts horder rfl⟩

/-- A message whose steps nothing comes between is handled as a whole. -/
theorem handle_eq_run (s : Server) (message : Message) :
    ({ server := s } : Progress).run [.begin message, .finish 0] =
      { server := (s.handle message).2 } := by
  simp only [run, List.foldl_cons, List.foldl_nil, step, Server.handle]
  rcases s.begin message with ⟨_ | task, s'⟩
  · rfl
  · dsimp only
    rcases hfinish : s'.finish task with ⟨_ | _, _⟩ <;> simp [hfinish]

/-- A message that is handled as a whole leaves nothing out of date. -/
theorem Settles.handle {s : Server} (h : Settles { server := s }) {message : Message}
    (htext : (Event.begin message).HasAnalysis) : Settles { server := (s.handle message).2 } := by
  rw [← handle_eq_run]
  have htexts : ∀ e ∈ [Event.begin message, .finish 0], e.HasAnalysis :=
    List.forall_mem_cons.2 ⟨htext, List.forall_mem_singleton.2 trivial⟩
  -- No task is in front of the first one.
  exact h.run htexts ⟨fun _ _ t ht => (nomatch ht), trivial⟩

/-- A server that handles one message after the other keeps nothing that is out of date, as long as
each text that a document gets has an analysis. -/
theorem fresh_handled (messages : List Message)
    (htexts : ∀ message ∈ messages, (Event.begin message).HasAnalysis) :
    (messages.foldl (fun s message => (s.handle message).2) ({} : Server)).Fresh := by
  -- From any settled server, so that the induction on the messages goes through.
  have hsettles : ∀ (messages : List Message) (s : Server), Settles { server := s } →
      (∀ message ∈ messages, (Event.begin message).HasAnalysis) →
      Settles { server := messages.foldl (fun s message => (s.handle message).2) s } := by
    intro messages
    induction messages with
    | nil => exact fun s h _ => h
    | cons message rest ih =>
      intro s h htexts
      obtain ⟨hfirst, hrest⟩ := List.forall_mem_cons.1 htexts
      exact ih _ (h.handle hfirst) hrest
  have hend := (hsettles messages {} settles_start htexts).upToDate
  intro uri
  simpa [settled, Task.effects] using hend uri

/-- A text with another number of problems has another analysis. -/
theorem ne_of_problems {text text' : String}
    (h : (Analysis.ofSource? text).map (·.diagnostics.length) ≠
      (Analysis.ofSource? text').map (·.diagnostics.length)) :
    Analysis.ofSource? text ≠ Analysis.ofSource? text' := fun heq => h (by rw [heq])

/-- Two changes of a document that end in the other order: the analysis of the first text stays. -/
theorem stale_out_of_order :
    let events := [.begin (.update "u" "("), .begin (.update "u" "1"), .finish 1, .finish 0]
    (∀ e ∈ events, e.HasAnalysis) ∧ (({} : Progress).run events).tasks = [] ∧
      ¬(({} : Progress).run events).server.Fresh := by
  intro events
  refine ⟨by decide +kernel, rfl, fun hfresh => ?_⟩
  have hdocument : (({} : Progress).run events).server.documents["u"]? = some "1" := by
    decide +kernel
  have hsome : (Analysis.ofSource? "(").isSome = true := by decide +kernel
  obtain ⟨a, ha⟩ := Option.isSome_iff_exists.1 hsome
  -- The first change is carried out last.
  have hstored : (({} : Progress).run events).server.stored "u" = some a := by
    simp [events, run, step, Server.begin, Server.stored_finish, Task.effect, Task.uri,
      Task.outcome, ha]
  have hold := hfresh "u"
  rw [hdocument] at hold
  refine ne_of_problems ?_ ((hold a hstored).trans ha.symm)
  decide +kernel

/-- A change to a text without an analysis: that of the text before stays, although the messages do
not overlap. -/
theorem stale_without_analysis :
    let events := [.begin (.update "u" "1"), .finish 0,
      .begin (.update "u" "class A \x7b fun m(a, b) \x7b\x7d fun m(a) \x7b\x7d \x7d"), .finish 0]
    ({} : Progress).InOrder events ∧ (({} : Progress).run events).tasks = [] ∧
      ¬(({} : Progress).run events).server.Fresh := by
  intro events
  refine ⟨by decide +kernel, rfl, fun hfresh => ?_⟩
  -- The body of the first method has more parameters than the signature of the second one.
  have hnone : Analysis.ofSource?
      "class A \x7b fun m(a, b) \x7b\x7d fun m(a) \x7b\x7d \x7d" = none :=
    Option.isNone_iff_eq_none.1 (by decide +kernel)
  have hdocument : (({} : Progress).run events).server.documents["u"]? =
      some "class A \x7b fun m(a, b) \x7b\x7d fun m(a) \x7b\x7d \x7d" := by
    decide +kernel
  have hsome : (Analysis.ofSource? "1").isSome = true := by decide +kernel
  obtain ⟨a, ha⟩ := Option.isSome_iff_exists.1 hsome
  have hstored : (({} : Progress).run events).server.stored "u" = some a := by
    simp [events, run, step, Server.begin, Server.stored_finish, Task.effect, Task.uri,
      Task.outcome, ha, hnone]
  have hold := hfresh "u"
  rw [hdocument] at hold
  cases hnone.symm.trans (hold a hstored)

/-- Neither the order of the tasks nor the analyses of the texts can be done without. -/
theorem analyses_go_stale :
    (¬∀ events : List Event, (∀ e ∈ events, e.HasAnalysis) →
      (({} : Progress).run events).tasks = [] → (({} : Progress).run events).server.Fresh) ∧
    ¬∀ events : List Event, ({} : Progress).InOrder events →
      (({} : Progress).run events).tasks = [] → (({} : Progress).run events).server.Fresh :=
  have ⟨htexts, hdone, hstale⟩ := stale_out_of_order
  have ⟨horder, hdone', hstale'⟩ := stale_without_analysis
  ⟨fun h => hstale (h _ htexts hdone), fun h => hstale' (h _ horder hdone')⟩

end Progress

end ClassScript.Editor
