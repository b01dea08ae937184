import FormSchema.Command.Run
import FormSchema.Proofs.Attempt

/-!
# What jobs come to

A job that reads from a tree of files comes to a result or to an error.  No job looks at what has
been logged before it, so the outcome of a job is put together from the outcomes of its parts: as
far as outcomes are concerned, jobs are plain computations that may fail.
-/

namespace FormSchema

namespace Job

variable {α β : Type} {files : FileTree}

/-- What a job comes to if nothing has been logged before. -/
def outcome (files : FileTree) (job : Job (ReaderM FileTree) α) : Except CommandError α :=
  ((job.run.run []).run files).1

/-- What a job logs if nothing has been logged before. -/
def events (files : FileTree) (job : Job (ReaderM FileTree) α) : List Event :=
  ((job.run.run []).run files).2

/-- The job comes to the same whatever has been logged before. -/
def Steady (job : Job (ReaderM FileTree) α) : Prop :=
  ∀ files log, ((job.run.run log).run files).1 = job.outcome files

theorem steady_pure (result : α) : Steady (pure result) :=
  fun _ _ => rfl

theorem steady_throw (error : CommandError) : Steady (throw error : Job (ReaderM FileTree) α) :=
  fun _ _ => rfl

theorem steady_log (events : List Event) : Steady (log events) :=
  fun _ _ => rfl

/-- Reading from the tree of files. -/
theorem steady_lift (read : ReaderM FileTree α) :
    Steady (monadLift read : Job (ReaderM FileTree) α) :=
  fun _ _ => rfl

theorem outcome_lift (read : ReaderM FileTree α) :
    outcome files (monadLift read : Job (ReaderM FileTree) α) = .ok (read.run files) :=
  rfl

/-- What the first part has logged is no matter of the second part. -/
theorem run_bind {first : Job (ReaderM FileTree) α} {next : α → Job (ReaderM FileTree) β}
    (steady : ∀ between, Steady (next between)) (log : List Event) :
    (((first >>= next).run.run log).run files).1 =
      ((first.run.run log).run files).1 >>= fun between => (next between).outcome files := by
  have unfolded : ((first >>= next).run.run log).run files =
      match (first.run.run log).run files with
      | (ending, more) => ((ExceptT.bindCont next ending).run more).run files := rfl
  rw [unfolded]
  rcases (first.run.run log).run files with ⟨_ | between, more⟩
  · rfl
  · exact steady between files more

theorem outcome_bind {first : Job (ReaderM FileTree) α} {next : α → Job (ReaderM FileTree) β}
    (steady : ∀ between, Steady (next between)) :
    (first >>= next).outcome files =
      first.outcome files >>= fun between => (next between).outcome files :=
  run_bind steady []

theorem Steady.bind {first : Job (ReaderM FileTree) α} {next : α → Job (ReaderM FileTree) β}
    (firstSteady : Steady first) (steady : ∀ between, Steady (next between)) :
    Steady (first >>= next) := by
  intro files log
  rw [run_bind steady, firstSteady, outcome_bind steady]

theorem steady_mapM {action : α → Job (ReaderM FileTree) β}
    (steady : ∀ item, Steady (action item)) (items : List α) : Steady (items.mapM action) := by
  induction items with
  | nil => exact steady_pure []
  | cons item rest inductionHypothesis =>
      rw [List.mapM_cons]
      exact (steady item).bind fun _ => inductionHypothesis.bind fun _ => steady_pure _

theorem outcome_mapM {action : α → Job (ReaderM FileTree) β}
    (steady : ∀ item, Steady (action item)) (items : List α) :
    (items.mapM action).outcome files = items.mapM fun item => (action item).outcome files := by
  induction items with
  | nil => rfl
  | cons item rest inductionHypothesis =>
      have restSteady := steady_mapM steady rest
      rw [List.mapM_cons, List.mapM_cons,
        outcome_bind fun _ => restSteady.bind fun _ => steady_pure _]
      refine congrArg _ (funext fun first => ?_)
      rw [outcome_bind fun _ => steady_pure _, inductionHypothesis]
      rfl

end Job

end FormSchema
