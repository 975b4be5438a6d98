import FinmarsWorkflow.Chain.Halt

/-! The clean-up after a failed chain.
The launcher of the failure hook is to save and run a task for the hook, and to have the
tasks that never started canceled. It looks the hook up among the Celery tasks, where user
code never registers, and saves the task of a hook that is found there without a space. -/
namespace FinmarsWorkflow.Chain
open Interleave

/-- A task that never started was canceled, and is marked as finished. -/
def CanceledUnstarted (task : Task) : Prop := task.workerName = none → task.status = .canceled ∧ task.finishedAt = true

/-- What the clean-up is to leave of a workflow: no pending task, what had not started is
canceled, and the launcher has saved a task of the hook, which has started. -/
structure CleanedUp (events : List (Origin × Work)) (broker : Broker) (workflow : WorkflowId) (hook : Entry) : Prop where
  settled : ∀ task ∈ broker.db.tasks, task.workflow = workflow → task.status ≠ .init
  canceled : ∀ task ∈ broker.db.tasks, task.workflow = workflow → CanceledUnstarted task
  hooked : ∃ payload context row, (.message (.failureHooksLauncher workflow [hook] payload context),.tenant (.createTask row)) ∈ events ∧
    .single row.name = hook ∧ ∃ task ∈ broker.db.tasks, task.workflow = workflow ∧ task.name = row.name ∧ task.status ≠ .init

/-- The launcher of a hook raises before it has done anything, in any state. -/
theorem launcher_raises (registered : String → Bool) (workflow : WorkflowId) (hook : Entry) (context : SpaceId) (outside : Outside)
    (broker : Broker) : ∃ error, (failureHooksLauncher registered workflow [hook] (some context)).run Work.effect outside broker =
      (.error error,broker) := by
  obtain ⟨error,raises⟩ := launchHooks_raises registered workflow hook []
  refine ⟨error,?_⟩
  rw [failureHooksLauncher,raises]
  rfl

/-- No launcher of a failure hook ever saves a task. -/
def SavesNoHook (origin : Origin) (work : Work) : Prop := ∀ workflow tasksNames payload context,
  origin = .message (.failureHooksLauncher workflow tasksNames payload context) → ∀ row, work ≠ .tenant (.createTask row)

theorem program_saves_no_hook (definitions : Definitions) (registered : String → Bool) (origin : Origin) :
    (origin.program definitions registered).Ensures (fun _ => True) (SavesNoHook origin) (fun _ => True) := by
  have others (apart : ∀ workflow tasksNames payload context,
      origin ≠ .message (.failureHooksLauncher workflow tasksNames payload context)) :
      (origin.program definitions registered).Ensures (fun _ => True) (SavesNoHook origin) (fun _ => True) :=
    Program.Ensures.mono (.anything _) (fun _ holds => holds)
      (fun _ _ workflow tasksNames payload context same => absurd same (apart workflow tasksNames payload context))
      (fun _ holds => holds)
  cases origin with
  | message message =>
    cases message with
    | failureHooksLauncher workflow tasksNames payload context =>
      refine Program.Ensures.attempt (launcher_ensures registered workflow tasksNames context ?_ ?_)
      · intro _ _ _ _ _ row same
        cases same
      · intro _ _ _ _ _ row same
        cases same
    | member | hooks | markAsCanceledInitTasks =>
      apply others
      intro _ _ _ _ same
      cases same
  | cancel workflow =>
    apply others
    intro _ _ _ _ same
    cases same

/-- No run cleans up after a workflow, whatever fails in its chain and when. -/
theorem no_chain_is_cleaned_up {definitions : Definitions} {registered : String → Bool} {allowed : Allowed}
    {templates : List WorkflowTemplate} {events : List (Origin × Work)} {last : Installation}
    (run : Execution definitions registered allowed (installed templates) events last) (workflow : WorkflowId) (hook : Entry) :
    ¬CleanedUp events last.shared workflow hook := by
  intro cleaned
  obtain ⟨payload,context,row,saved,_⟩ := cleaned.hooked
  exact run.performs (program_saves_no_hook definitions registered) rfl _ saved _ _ _ _ rfl row rfl

/-- Two tasks and a hook; the first task fails, and the launcher is delivered. -/
def failed : List (Line Outside Environment) :=
  [.take (.move (.launch "space.t" (.obj []) 0 none ⟨[.single "a",.single "b"],none,none,some (.single "hook")⟩ (.returns .null))),
    .take (.move (.deliver 0)),.finish 0 (.returns .null),.take (.move (.deliver 0)),.finish 0 (.raises "failed"),
    .take (.move (.deliver 0)),.finish 0 (.returns .null)]

/-- Nothing is left to do, and the second task has not started. -/
def leftPending (S : Installation) : Bool := (S.threads.isEmpty && S.shared.queue.isEmpty) &&
  decide (S.shared.db.tasks.map (fun task => (task.workflow,task.name,task.status)) = [(0,"a",.error),(0,"b",.init)])

theorem failed_run : ∃ events last, Execution versionOne (fun _ => false) celery (installed []) events last ∧
    last.threads.isEmpty = true ∧ last.shared.queue.isEmpty = true ∧
    last.shared.db.tasks.map (fun task => (task.workflow,task.name,task.status)) = [(0,"a",.error),(0,"b",.init)] := by
  have computed : ((installed []).execute machine (Origin.program versionOne (fun _ => false)) celery failed).any leftPending =
      true := by decide
  obtain ⟨events,last,run,found⟩ := execute_any failed computed
  obtain ⟨idle,tasks⟩ := Bool.and_eq_true_iff.mp found
  obtain ⟨threads,queue⟩ := Bool.and_eq_true_iff.mp idle
  exact ⟨events,last,run,threads,queue,of_decide_eq_true tasks⟩

theorem no_chain_is_cleaned_up_failed : ∃ events last,
    Execution versionOne (fun _ => false) celery (installed []) events last ∧ ¬CleanedUp events last.shared 0 (.single "hook") := by
  obtain ⟨events,last,run,_⟩ := failed_run
  exact ⟨events,last,run,no_chain_is_cleaned_up run 0 (.single "hook")⟩

/-- When all is done, the second task is still pending, and there is no task of the hook. -/
theorem failed_chain_stays_pending : ∃ events last,
    Execution versionOne (fun _ => false) celery (installed []) events last ∧
    last.threads.isEmpty = true ∧ last.shared.queue.isEmpty = true ∧
    last.shared.db.tasks.map (fun task => (task.workflow,task.name,task.status)) = [(0,"a",.error),(0,"b",.init)] ∧
    ¬CleanedUp events last.shared 0 (.single "hook") := by
  obtain ⟨events,last,run,threads,queue,tasks⟩ := failed_run
  refine ⟨events,last,run,threads,queue,tasks,fun cleaned => ?_⟩
  have pending : (0,"b",TaskStatus.init) ∈ last.shared.db.tasks.map (fun task => (task.workflow,task.name,task.status)) := by
    rw [tasks]
    exact List.mem_cons_of_mem _ List.mem_cons_self
  obtain ⟨task,member,same⟩ := List.mem_map.mp pending
  simp only [Prod.mk.injEq] at same
  exact cleaned.settled task member same.1 same.2.2

end FinmarsWorkflow.Chain
