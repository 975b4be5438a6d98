import FinmarsWorkflow.Engine

/-! The requests that act on workflows from outside the workers: launching,
pausing, resuming, cancelling, and editing a template. -/
namespace FinmarsWorkflow
open Interleave

structure Response where
  status : Nat
  message : String
deriving DecidableEq, Repr

/-- `".".join(user_code.split(".")[1:])`. -/
def spaceLessUserCode (userCode : String) : String :=
  String.ofList ((userCode.toList.dropWhile (· != '.')).drop 1)

/-- The version-2 path of `execute_workflow`, once it has found the definition. -/
def executeWorkflow (userCode : String) (payload : Json) (space : SpaceId) (platformTaskId : Option Int) :
    Prog Unit := do
  let template ← query fun db => (db.templateByUserCode (spaceLessUserCode userCode) space).toOption.map Prod.fst
  let workflow ← createWorkflow
    { status := .init, workflowTemplate := template, currentNodeId := none, lastTaskOutput := none,
      nodeId := none, userCode := userCode, payload := workflowPayload payload,
      platformTaskId := platformTaskId, space := space, finishedAt := false, parent := none }
  applyAsync (.executeWorkflowV2 workflow)

/-- `WorkflowViewSet.pause_workflow`. -/
def pauseWorkflow (id : WorkflowId) : Prog Response := do
  let workflow ← fetch (·.getWorkflow id)
  if workflow.status = .progress then
    saveWorkflow id {workflow with status := .wait}
    return ⟨200,"Workflow " ++ toString id ++ " paused successfully."⟩
  else
    return ⟨400,"Cannot pause workflow that is not in progress."⟩

/-- The tasks that keep `resume_workflow` from resuming. -/
def Db.hasActiveTasks (db : Db) (workflow : WorkflowId) : Bool :=
  db.tasks.any (fun task => task.workflow == workflow && (task.status == .progress || task.status == .init))

/-- The row that `resume_workflow` saves. -/
def Workflow.resumed (workflow : Workflow) (payload : Option Json) : Workflow :=
  { workflow with
    status := .progress
    payload := match payload with
      | some value => if value.truthy then value else workflow.payload
      | none => workflow.payload }

/-- `WorkflowViewSet.resume_workflow`. -/
def resumeWorkflow (id : WorkflowId) (payload : Option Json) : Prog Response := do
  let workflow ← fetch (·.getWorkflow id)
  if workflow.status = .wait then
    if ← query (·.hasActiveTasks id) then
      return ⟨400,"Cannot resume workflow while there are active tasks running."⟩
    else
      saveWorkflow id (workflow.resumed payload)
      match workflow.currentNodeId.filter (· != "") with
      | none => return ⟨400,"No node to resume from."⟩
      | some node =>
        let g ← fetch (·.templateData workflow)
        let _ ← .lift g.adjacencyList
        applyAsync (.processNextNode ⟨node,id,g⟩)
        return ⟨200,"Workflow " ++ toString id ++ " resumed successfully."⟩
  else
    return ⟨400,"Cannot resume workflow that is not paused."⟩

/-- `status_to_cancel`. -/
def TaskStatus.cancellable : TaskStatus → Bool
  | .progress | .init | .nestedProgress => true
  | .success | .error | .timeout | .canceled => false

def cancelTasks : List (TaskId × Task) → Prog Unit
  | [] => .pure ()
  | (id,task)::rest => do
    if task.status.cancellable then
      saveTask id {task with status := .canceled,finishedAt := true}
    cancelTasks rest

/-- `Workflow.cancel` on a loaded row. Revoking the `celery_task_id` of a task
reaches no worker here: its step runs inside a `process_next_node` message. -/
def Workflow.cancel (id : WorkflowId) (workflow : Workflow) : Prog Unit := do
  let tasks ← query (·.tasksOf id)
  cancelTasks tasks
  saveWorkflow id {workflow with status := .canceled}

/-- `WorkflowViewSet.cancel`. -/
def cancelWorkflow (id : WorkflowId) : Prog Unit := do
  let workflow ← fetch (·.getWorkflow id)
  if workflow.status.terminal then
    return
  else
    workflow.cancel id

/-- `WorkflowTemplateSerializer.update` of the `data` of a template. -/
def updateTemplate (id : TemplateId) (data : Graph) : Prog Unit :=
  .step (.saveTemplate id data) (fun _ _ => .pure ())

/-- The requests that leave the rows of workflows in place. `bulk_delete` is none of them: it
runs `Workflow.cancel` on rows of any status, and deletes them. -/
inductive Request where
  | launch (userCode : String) (payload : Json) (space : SpaceId) (platformTaskId : Option Int)
  | pause (workflow : WorkflowId)
  | resume (workflow : WorkflowId) (payload : Option Json)
  | cancel (workflow : WorkflowId)
  | updateTemplate (template : TemplateId) (data : Graph)

/-- The workflow that a request is about. -/
def Request.asks : Request → Option WorkflowId
  | .pause workflow | .cancel workflow => some workflow
  | .resume workflow _ => some workflow
  | .launch _ _ _ _ | .updateTemplate _ _ => none

def Request.program : Request → Prog Unit
  | .launch userCode payload space platformTaskId => (executeWorkflow userCode payload space platformTaskId).attempt
  | .pause workflow => (pauseWorkflow workflow).attempt
  | .resume workflow payload => (resumeWorkflow workflow payload).attempt
  | .cancel workflow => (cancelWorkflow workflow).attempt
  | .updateTemplate template data => (FinmarsWorkflow.updateTemplate template data).attempt

end FinmarsWorkflow
