/-!
# Workers

A worker owns a state and carries out one job on it after the other. A job that fails leaves the
state as it was, and a worker that was stopped takes no further jobs.
-/

namespace ClassScript.Editor

/-- The owner of a state. -/
structure Worker (σ : Type) where
  /-- The state. -/
  state : σ
  /-- Whether the worker was stopped. -/
  stopped : Bool := false

/-- A piece of work on a state, which may fail for a reason. -/
abbrev Job (σ α : Type) := σ → Except String (α × σ)

namespace Worker

variable {σ α : Type}

/-- Why a stopped worker takes no job. -/
def stoppedText : String := "server: worker stopped"

/-- Carries a job out. -/
def perform (w : Worker σ) (job : Job σ α) : Except String α × Worker σ :=
  if w.stopped then (.error stoppedText, w)
  else match job w.state with
    | .ok (answer, state) => (.ok answer, { w with state })
    | .error reason => (.error reason, w)

/-- Stops the worker. -/
def stop (w : Worker σ) : Worker σ := { w with stopped := true }

/-- Carries jobs out in a row. -/
def performAll (w : Worker σ) : List (Job σ α) → List (Except String α) × Worker σ
  | [] => ([], w)
  | job :: rest =>
    let (answer, w) := w.perform job
    let (answers, w) := w.performAll rest
    (answer :: answers, w)

end Worker

end ClassScript.Editor
