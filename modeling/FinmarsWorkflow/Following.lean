import FinmarsWorkflow.Control

/-! The control points follow the programs.
One statement for each source function: from its first control point, the points
perform its operations and end where the postcondition says. -/
namespace FinmarsWorkflow
open Interleave
variable {definitions : Definitions}

private abbrev Ends {α : Type} (_ : Except Error α) (control : Control) : Prop := control.operation = none

theorem dispatch_follows (messages : List Message) :
    Follows (controls definitions) (dispatch messages) (.send messages) Ends := by
  induction messages with
  | nil => rfl
  | cons message rest ih => exact ⟨rfl,fun _ _ => ih⟩

/-- The post of the calls: the code goes on to its outcome, or a lookup failed. -/
private def Called (celery : CeleryId) (outcome : Except Error Json) (result : Except Error Unit) (control : Control) : Prop :=
  match result with
  | .ok () => control = .returned celery outcome
  | .error error => control = .failRead celery error

private theorem performCalls_follows (celery : CeleryId) (id : TaskId) (task : Task) (calls : List Call)
    (outcome : Except Error Json) :
    Follows (controls definitions) (performCalls id task calls) (.calling celery id task calls outcome)
      (Called celery outcome) := by
  induction calls generalizing task with
  | nil => exact rfl
  | cons call rest ih => cases call with
    | log message => exact ⟨rfl,fun _ _ => ih _⟩
    | updateProgress progress =>
      refine ⟨rfl,fun db outside => ?_⟩
      cases found : db.getTask id with
      | error error =>
        simp only [Control.calling,Control.next,found]
        exact rfl
      | ok row =>
        simp only [Control.calling,Control.next,found]
        exact ⟨rfl,fun _ _ => ih _⟩

theorem userCode_follows (celery : CeleryId) (id : TaskId) (task : Task) (kwargs : Kwargs) :
    Follows (controls definitions) (userCode id task kwargs) (.runCode celery id task kwargs)
      (fun result control => control = .returned celery result) := by
  refine ⟨rfl,fun _ outside => ?_⟩
  refine Follows.bind (performCalls_follows celery id task outside.calls outside.outcome) ?_ ?_
  · intro _ reached called
    have continues : reached = .returned celery outside.outcome := called
    subst reached
    cases outside.outcome with
    | ok retval => exact rfl
    | error error => exact rfl
  · intro error reached called
    exact called

theorem executeWorkflowStep_follows (celery : CeleryId) (id : TaskId) (task : Task) (kwargs : Kwargs) :
    Follows (controls definitions) (executeWorkflowStep definitions id task kwargs) (.stepRead celery id task kwargs)
      (fun result control => control = .returned celery result) := by
  refine ⟨rfl,fun db outside => ?_⟩
  cases loaded : db.getWorkflow task.workflow with
  | error error =>
    simp only [Control.next,loaded]
    exact rfl
  | ok workflow =>
    simp only [Control.next,loaded,Program.lift_ok,Program.bind_pure,Program.monad_bind]
    split
    · exact userCode_follows celery id task kwargs
    · cases version : definitions workflow.space (targetWorkflowUserCode task.name) with
      | error error => exact rfl
      | ok version =>
        simp only [Program.lift_ok,Program.bind_pure]
        split
        · refine ⟨rfl,fun db outside => ?_⟩
          cases found : db.templateByUserCode (targetWorkflowUserCode task.name) workflow.space with
          | error error =>
            simp only [Control.next,found]
            exact rfl
          | ok template =>
            simp only [Control.next,found]
            exact ⟨rfl,fun _ _ => ⟨rfl,fun _ _ => ⟨rfl,fun _ _ => rfl⟩⟩⟩
        · exact userCode_follows celery id task kwargs

private theorem step_follows (celery : CeleryId) (kwargs : Kwargs) :
    Follows (controls definitions) (do
        let (id,task) ← beforeStart celery
        executeWorkflowStep definitions id task kwargs) (.startRead celery kwargs)
      (fun result control => control = .returned celery result) := by
  refine ⟨rfl,fun db outside => ?_⟩
  cases found : db.taskByCeleryId celery with
  | error error =>
    simp only [Control.next,found]
    exact rfl
  | ok pair =>
    simp only [Control.next,found]
    exact ⟨rfl,fun _ _ => executeWorkflowStep_follows celery pair.1 _ kwargs⟩

/-- The post of `handle_task_success`: it has ended, or its exception goes to `on_failure`. -/
private def Handled (celery : CeleryId) (result : Except Error Unit) (control : Control) : Prop :=
  match result with
  | .ok () => control.operation = none
  | .error error => control = .failRead celery error

private theorem handled_dispatch (celery : CeleryId) (messages : List Message) :
    Follows (controls definitions) (dispatch messages) (.send messages) (Handled celery) := by
  induction messages with
  | nil => exact rfl
  | cons message rest ih => exact ⟨rfl,fun _ _ => ih⟩

theorem handleTaskSuccess_follows (celery : CeleryId) (depth : Nat) (id : TaskId) (task : Task) (retval : Json) :
    Follows (controls definitions) (handleTaskSuccess depth id task retval) (.handling celery depth id task retval)
      (Handled celery) := by
  induction depth generalizing id task with
  | zero => exact rfl
  | succ depth ih =>
    simp only [handleTaskSuccess,Control.handling]
    split
    · exact rfl
    · refine ⟨rfl,fun _ _ => ⟨rfl,fun db _ => ?_⟩⟩
      simp only [Control.next]
      cases loaded : db.getWorkflow (task.succeeded retval).workflow with
      | error error => exact rfl
      | ok workflow =>
        simp only [Program.lift_ok,Program.bind_pure,Program.monad_bind]
        split
        · exact rfl
        · refine ⟨rfl,fun db _ => ?_⟩
          simp only [Control.next]
          cases data : db.templateData workflow with
          | error error => exact rfl
          | ok g =>
            simp only [Program.lift_ok,Program.bind_pure]
            cases found : successors g (task.succeeded retval).nodeId retval with
            | error error => exact rfl
            | ok nodeIds =>
              simp only [Program.lift_ok,Program.bind_pure]
              split
              · refine ⟨rfl,fun _ _ => ?_⟩
                simp only [Control.next,Program.bind_pure]
                cases workflow.parent with
                | none => exact rfl
                | some parent =>
                  refine ⟨rfl,fun db _ => ?_⟩
                  simp only [Control.next]
                  cases above : db.parentTask parent workflow.nodeId workflow.space with
                  | error error => exact rfl
                  | ok pair => exact ih pair.1 _
              · exact handled_dispatch celery _

private theorem onSuccess_follows (celery : CeleryId) (retval : Json) :
    Follows (controls definitions) (onSuccess celery retval) (.successRead celery retval) (Handled celery) := by
  refine ⟨rfl,fun db _ => ?_⟩
  simp only [Control.next]
  cases found : db.taskByCeleryId celery with
  | error error => exact rfl
  | ok pair => exact handleTaskSuccess_follows celery db.workflows.length pair.1 pair.2 retval

theorem failTask_follows (depth : Nat) (id : TaskId) (task : Task) (error : Error) :
    Follows (controls definitions) (failTask depth id task error) (.failing depth id task error) Ends := by
  induction depth generalizing id task with
  | zero => exact rfl
  | succ depth ih =>
    refine ⟨rfl,fun db _ => ?_⟩
    simp only [Control.failing,Control.next]
    cases loaded : db.getWorkflow task.workflow with
    | error error => exact rfl
    | ok workflow =>
      refine ⟨rfl,fun _ _ => ⟨rfl,fun _ _ => ⟨rfl,fun db _ => ?_⟩⟩⟩
      simp only [Control.next]
      cases again : db.getWorkflow task.workflow with
      | error error => exact rfl
      | ok workflow =>
        simp only [Program.lift_ok,Program.bind_pure]
        cases workflow.parent with
        | none => exact rfl
        | some parent =>
          refine ⟨rfl,fun db _ => ?_⟩
          simp only [Control.next]
          cases above : db.parentTask parent workflow.nodeId workflow.space with
          | error error => exact rfl
          | ok pair =>
            refine ⟨rfl,fun db _ => ?_⟩
            simp only [Control.next]
            cases reloaded : db.taskByCeleryId pair.2.celeryTaskId with
            | error error => exact rfl
            | ok found => exact ih found.1 found.2

private theorem onFailure_follows (celery : CeleryId) (error : Error) :
    Follows (controls definitions) (onFailure celery error) (.failRead celery error) Ends := by
  refine ⟨rfl,fun db _ => ?_⟩
  simp only [Control.next]
  cases found : db.taskByCeleryId celery with
  | error error => exact rfl
  | ok pair => exact failTask_follows db.workflows.length pair.1 pair.2 error

private theorem follows_outcome {α : Type} {program : Prog α} {control : Control} {post : Except Error α → Control → Prop}
    (follows : Follows (controls definitions) program control post) :
    Follows (controls definitions) program.outcome control
      (fun result reached => ∃ inner, result = .ok inner ∧ post inner reached) :=
  Follows.outcome (follows.mono (fun result _ reached => ⟨result,rfl,reached⟩))

theorem applyStep_follows (celery : CeleryId) (kwargs : Kwargs) :
    Follows (controls definitions) (applyStep definitions celery kwargs) (.startRead celery kwargs) Ends := by
  refine Follows.bind (follows_outcome (step_follows celery kwargs)) ?_ ?_
  · rintro result reached ⟨inner,equal,rfl⟩
    cases equal
    cases result with
    | error error => exact Follows.attempt (onFailure_follows celery error)
    | ok retval =>
      refine Follows.bind (follows_outcome (onSuccess_follows celery retval)) ?_ ?_
      · rintro outcome reached ⟨inner,equal,handled⟩
        cases equal
        cases outcome with
        | ok _ => exact handled
        | error error =>
          cases handled
          exact Follows.bind (Follows.attempt (onFailure_follows celery error)) (fun _ _ ends => ends)
            (fun _ _ ends => ends)
      · rintro error reached ⟨inner,equal,_⟩
        cases equal
  · rintro error reached ⟨inner,equal,_⟩
    cases equal

/-- The post of `are_inputs_ready`: it admits the node, or the message is dropped. -/
private def Checked (job : Job) (row : Workflow) (node : Node) (result : Except Error Bool) (control : Control) : Prop :=
  match result with
  | .ok true => control = .admitted job row node
  | _ => control.operation = none

private theorem areInputsReady_follows (job : Job) (row : Workflow) (node : Node) (inputs : List NodeId) :
    Follows (controls definitions) (areInputsReady job.workflow inputs) (.checking job row node inputs)
      (Checked job row node) := by
  induction inputs with
  | nil => exact rfl
  | cons input rest ih =>
    refine ⟨rfl,fun db _ => ?_⟩
    simp only [Control.checking,Control.next,Program.bind_pure]
    split
    · exact ih
    · exact rfl

private theorem admitted_follows (job : Job) (row : Workflow) (node : Node) :
    Follows (controls definitions) (do
        let output ← previousOutput job node
        let payload ← nodePayload job row node
        let celery ← createTask (newTask job.workflow row node payload)
        applyStep definitions celery ⟨payload,output⟩) (.admitted job row node) Ends := by
  have created (payload : Json) (output : Option Json) : Follows (controls definitions)
      ((createTask (newTask job.workflow row node payload)).bind
        (fun celery => applyStep definitions celery ⟨payload,output⟩)) (.create job row node payload output) Ends :=
    ⟨rfl,fun db _ => applyStep_follows db.uuid ⟨payload,output⟩⟩
  have paid (output : Option Json) : Follows (controls definitions) ((nodePayload job row node).bind fun payload =>
      (createTask (newTask job.workflow row node payload)).bind
        (fun celery => applyStep definitions celery ⟨payload,output⟩)) (.withOutput job row node output) Ends := by
    simp only [nodePayload,Control.withOutput]
    cases feedingNode job.graph node "payload_input" with
    | none => exact created row.payload output
    | some source => exact ⟨rfl,fun db _ => created _ output⟩
  simp only [previousOutput,Control.admitted,Program.monad_bind]
  cases feedingNode job.graph node "in" with
  | none => exact paid none
  | some source => exact ⟨rfl,fun db _ => paid _⟩

theorem processNextNode_follows (job : Job) :
    Follows (controls definitions) (processNextNode definitions job) (.take job) Ends := by
  refine Follows.attempt ⟨rfl,fun db _ => ?_⟩
  simp only [Control.next]
  cases loaded : db.getWorkflow job.workflow with
  | error error => exact rfl
  | ok row =>
    simp only [Program.lift_ok,Program.bind_pure]
    cases job.graph.node? job.currentNodeId with
    | none => exact rfl
    | some node =>
      dsimp only
      split
      · exact ⟨rfl,fun _ _ => rfl⟩
      · refine Follows.bind (areInputsReady_follows job row node _) ?_ (fun _ _ checked => checked)
        intro ready reached checked
        cases ready with
        | false => exact checked
        | true =>
          cases checked
          exact admitted_follows job row node

theorem executeWorkflowV2_follows (workflow : WorkflowId) :
    Follows (controls definitions) (executeWorkflowV2 workflow) (.openRead workflow) Ends := by
  refine Follows.attempt ⟨rfl,fun db _ => ?_⟩
  simp only [Control.next]
  cases loaded : db.getWorkflow workflow with
  | error error => exact rfl
  | ok row =>
    refine ⟨rfl,fun _ _ => ⟨rfl,fun db _ => ?_⟩⟩
    simp only [Control.next]
    cases data : db.templateData row with
    | error error => exact rfl
    | ok g =>
      simp only [Program.lift_ok,Program.bind_pure]
      cases g.adjacencyList with
      | error error => exact rfl
      | ok adjacency => exact dispatch_follows _

private theorem cancelTasks_follows (workflow : WorkflowId) (row : Workflow) (tasks : List (TaskId × Task)) :
    Follows (controls definitions) (do
        cancelTasks tasks
        saveWorkflow workflow {row with status := .canceled}) (.cancelling workflow row tasks) Ends := by
  induction tasks with
  | nil => exact ⟨rfl,fun _ _ => rfl⟩
  | cons pair rest ih =>
    simp only [cancelTasks,Control.cancelling]
    split
    · exact ⟨rfl,fun _ _ => ih⟩
    · exact ih

theorem request_follows (request : Request) :
    Follows (controls definitions) request.program (Origin.request request).control Ends := by
  cases request with
  | launch userCode payload space platformTaskId =>
    exact Follows.attempt ⟨rfl,fun _ _ => ⟨rfl,fun _ _ => ⟨rfl,fun _ _ => rfl⟩⟩⟩
  | pause workflow =>
    refine Follows.attempt ⟨rfl,fun db _ => ?_⟩
    simp only [Origin.control,Control.next]
    cases loaded : db.getWorkflow workflow with
    | error error => exact rfl
    | ok row =>
      simp only [Program.lift_ok,Program.bind_pure]
      split
      · exact ⟨rfl,fun _ _ => rfl⟩
      · exact rfl
  | resume workflow payload =>
    refine Follows.attempt ⟨rfl,fun db _ => ?_⟩
    simp only [Origin.control,Control.next]
    cases loaded : db.getWorkflow workflow with
    | error error => exact rfl
    | ok row =>
      simp only [Program.lift_ok,Program.bind_pure]
      split
      · refine ⟨rfl,fun db _ => ?_⟩
        simp only [Control.next,Program.bind_pure]
        split
        · exact rfl
        · refine ⟨rfl,fun _ _ => ?_⟩
          simp only [Control.next,Program.bind_pure]
          cases row.currentNodeId.filter (· != "") with
          | none => exact rfl
          | some node =>
            refine ⟨rfl,fun db _ => ?_⟩
            simp only [Control.next]
            cases data : db.templateData row with
            | error error => exact rfl
            | ok g =>
              simp only [Program.lift_ok,Program.bind_pure]
              cases g.adjacencyList with
              | error error => exact rfl
              | ok adjacency => exact ⟨rfl,fun _ _ => rfl⟩
      · exact rfl
  | cancel workflow =>
    refine Follows.attempt ⟨rfl,fun db _ => ?_⟩
    simp only [Origin.control,Control.next]
    cases loaded : db.getWorkflow workflow with
    | error error => exact rfl
    | ok row =>
      simp only [Program.lift_ok,Program.bind_pure]
      split
      · exact rfl
      · exact ⟨rfl,fun db _ => cancelTasks_follows workflow row (db.tasksOf workflow)⟩
  | updateTemplate template data => exact Follows.attempt ⟨rfl,fun _ _ => rfl⟩

/-- Every thread of the installation starts at the control point that follows it. -/
theorem origin_simulated (origin : Origin) :
    Simulated (controls definitions) (origin.program definitions) origin.control := by
  cases origin with
  | request request => exact request_follows request
  | message message => cases message with
    | executeWorkflowV2 workflow => exact executeWorkflowV2_follows workflow
    | processNextNode job => exact processNextNode_follows job

abbrev Controlled (definitions : Definitions) := System Origin (controls definitions)

/-- The installation with templates only, before any thread has started. -/
def unused (definitions : Definitions) (templates : List WorkflowTemplate) : Controlled definitions :=
  ⟨(installed templates).shared,[]⟩

theorem installed_alike (templates : List WorkflowTemplate) :
    Alike (installed templates) (unused definitions templates) :=
  ⟨rfl,.nil⟩

/-- Every execution is one of control points, with the same view at its end. -/
theorem execution_follow {allowed : Allowed} {templates : List WorkflowTemplate} {events : List (Origin × Operation)}
    {last : Installation} (run : Execution definitions allowed (installed templates) events last) :
    ∃ reached : Controlled definitions,
      Run machine Origin.control allowed (unused definitions templates) events reached ∧ Alike last reached :=
  run.follow origin_simulated (installed_alike templates)

end FinmarsWorkflow
