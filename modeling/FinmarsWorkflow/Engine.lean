import FinmarsWorkflow.Database

/-! The Celery tasks of a version-2 workflow and the signals around them.
Each function is the source function of its name, one step for each query, save
or message. Code outside the repository enters as `Outside` and `Definitions`:
the former is how user code behaves, the latter the definitions in storage. -/
namespace FinmarsWorkflow
open Interleave

/-- `BaseTask.log` saves the copy of the row that `before_start` loaded, while
`BaseTask.update_progress` saves a copy loaded for the occasion. -/
def performCalls (id : TaskId) : Task → List Call → Prog Unit
  | _,[] => .pure ()
  | task,.log message::rest => do
    let task := {task with log := some (task.log.getD "" ++ message ++ "\n")}
    saveTask id task
    performCalls id task rest
  | task,.updateProgress progress::rest => do
    let row ← fetch (·.getTask id)
    saveTask id {row with progress := match progress with | .null => none | value => some value}
    performCalls id task rest

def userCode (id : TaskId) (task : Task) (kwargs : Kwargs) : Prog Json :=
  .step (.userCode id kwargs) fun _ outside => do
    performCalls id task outside.calls
    .lift outside.outcome

/-- `name[:-5]` of a name that ends with `.task`. -/
def targetWorkflowUserCode (name : String) : String :=
  if ".task".toList <:+ name.toList then String.ofList (name.toList.take (name.toList.length-5)) else name

/-- The `payload` property of a workflow after it was set to a value. -/
def workflowPayload (value : Json) : Json := if value.truthy then value else .obj []

def runsSourceCode (task : Task) : Bool := match task.sourceCode with
  | some code => code != ""
  | none => false

/-- `execute_workflow_step`: user code, or a nested workflow for a version-2
definition. Importing the module of a version-1 definition is part of `userCode`. -/
def executeWorkflowStep (definitions : Definitions) (id : TaskId) (task : Task) (kwargs : Kwargs) : Prog Json := do
  let workflow ← fetch (·.getWorkflow task.workflow)
  if runsSourceCode task then
    userCode id task kwargs
  else
    let target := targetWorkflowUserCode task.name
    let version ← .lift (definitions workflow.space target)
    if version = 2 then
      let template ← fetch (·.templateByUserCode target workflow.space)
      let child ← createWorkflow
        { status := .init, workflowTemplate := some template.1, currentNodeId := none,
          lastTaskOutput := none, nodeId := task.nodeId, userCode := target,
          payload := workflowPayload kwargs.payload, platformTaskId := none,
          space := workflow.space, finishedAt := false, parent := some task.workflow }
      applyAsync (.executeWorkflowV2 child)
      saveTask id {task with status := .nestedProgress}
      return .null
    else
      userCode id task kwargs

/-- `BaseTask.before_start`; the row it saves stays in `self.task`. -/
def beforeStart (celery : CeleryId) : Prog (TaskId × Task) := do
  let (id,task) ← .step .read fun db outside => .lift ((db.taskByCeleryId celery).map fun (id,task) =>
    (id,{task with status := .progress,workerName := some outside.host}))
  saveTask id task
  return (id,task)

/-- `next_node_ids` of `handle_task_success`. -/
def nextNodeIds (g : Graph) (adjacencyList : NodeId → List NodeId) (node : Node) (retval : Json) :
    Except Error (List NodeId) :=
  if node.isCondition then
    (getNextNodeByCondition node.id retval g.connections).map fun
      | some next => if next != "" then [next] else []
      | none => []
  else
    .ok (adjacencyList node.id)

/-- The graph of a workflow, the node its task belongs to and where to go next. -/
def successors (g : Graph) (nodeId : Option NodeId) (retval : Json) : Except Error (List NodeId) := do
  let adjacencyList ← g.adjacencyList
  match nodeId.bind g.node? with
  | none => .error (.of ((nodeId.map Python.repr).getD "None"))
  | some node => nextNodeIds g adjacencyList node retval

def processMessages (g : Graph) (workflow : WorkflowId) (nodeIds : List NodeId) : List Message :=
  (nodeIds.filter (fun id => (g.node? id).isSome)).map (fun id => .processNextNode ⟨id,workflow,g⟩)

def noResults : Json := .obj [("message",.str "Task finished successfully. No results returned")]

/-- The task row that `handle_task_success` saves. -/
def Task.succeeded (task : Task) (retval : Json) : Task :=
  {task with status := .success,result := some (if retval.truthy then retval else noResults),finishedAt := true}

/-- The workflow row that `handle_task_success` saves when there is no next node. -/
def Workflow.completed (workflow : Workflow) (nodeId : Option NodeId) (retval : Json) : Workflow :=
  {workflow with status := .success,finishedAt := true,currentNodeId := nodeId,lastTaskOutput := some retval}

def recursionError : Error := .of "maximum recursion depth exceeded"

/-- `Task.handle_task_success`. The depth bounds the climb to the parents. -/
def handleTaskSuccess : Nat → TaskId → Task → Json → Prog Unit
  | 0,_,_,_ => .raise recursionError
  | depth+1,id,self,retval => do
    if self.status = .nestedProgress then
      return
    let self := self.succeeded retval
    saveTask id self
    let workflow ← fetch (·.getWorkflow self.workflow)
    if workflow.workflowTemplate.isNone then
      return
    let g ← fetch (·.templateData workflow)
    let next ← .lift (successors g self.nodeId retval)
    if next.isEmpty then
      saveWorkflow self.workflow (workflow.completed self.nodeId retval)
      match workflow.parent with
      | none => return
      | some parent =>
        let (parentId,parentTask) ← fetch (·.parentTask parent workflow.nodeId workflow.space)
        handleTaskSuccess depth parentId {parentTask with status := .progress} retval
    else
      dispatch (processMessages g self.workflow next)

/-- `BaseTask.on_success`. A chain of parents is never longer than the table. -/
def onSuccess (celery : CeleryId) (retval : Json) : Prog Unit := do
  let ((id,task),depth) ← fetch fun db => (db.taskByCeleryId celery).map (fun found => (found,db.workflows.length))
  handleTaskSuccess depth id task retval

def Error.taskStatus (error : Error) : TaskStatus := if error.timeLimit then .timeout else .error

def Error.workflowStatus (error : Error) : WorkflowStatus := if error.timeLimit then .timeout else .error

/-- The task row that `on_failure` saves. -/
def Task.failed (task : Task) (error : Error) : Task :=
  { task with
    status := error.taskStatus
    errorMessage := some error.message
    finishedAt := true
    result := some (.obj [("exception",.str error.message),("traceback",.str error.traceback)]) }

/-- `on_failure` of a task that is loaded, up the chain of parents. -/
def failTask : Nat → TaskId → Task → Error → Prog Unit
  | 0,_,_,_ => .raise recursionError
  | depth+1,id,task,error => do
    let workflow ← fetch (·.getWorkflow task.workflow)
    saveTask id (task.failed error)
    saveWorkflow task.workflow {workflow with status := error.workflowStatus}
    let workflow ← fetch (·.getWorkflow task.workflow)
    match workflow.parent with
    | none => return
    | some parent =>
      let (_,parentTask) ← fetch (·.parentTask parent workflow.nodeId workflow.space)
      let (parentId,parentTask) ← fetch (·.taskByCeleryId parentTask.celeryTaskId)
      failTask depth parentId parentTask error

/-- `on_failure`, the handler of `task_failure` and `task_internal_error`. -/
def onFailure (celery : CeleryId) (error : Error) : Prog Unit := do
  let ((id,task),depth) ← fetch fun db => (db.taskByCeleryId celery).map (fun found => (found,db.workflows.length))
  failTask depth id task error

/-- `signature.apply()`: Celery's tracer runs the step in place. An exception of
the step is a task failure, one of `on_success` an internal error; both signals
reach `on_failure`, whose own exceptions are only logged. -/
def applyStep (definitions : Definitions) (celery : CeleryId) (kwargs : Kwargs) : Prog Unit := do
  let result ← Program.outcome do
    let (id,task) ← beforeStart celery
    executeWorkflowStep definitions id task kwargs
  match result with
  | .error error => (onFailure celery error).attempt
  | .ok retval =>
    match ← (onSuccess celery retval).outcome with
    | .ok () => return
    | .error error =>
      (onFailure celery error).attempt
      .raise error

/-- `are_inputs_ready`, over the input nodes that are left. -/
def areInputsReady (workflow : WorkflowId) : List NodeId → Prog Bool
  | [] => .pure true
  | input::rest => do
    if ← query (·.inputReady workflow input) then
      areInputsReady workflow rest
    else
      return false

def taskName (node : Node) : String := match node.kind with
  | .sourceCode _ => "custom_code"
  | .condition _ => "condition"
  | .workflow userCode => userCode

def taskSourceCode (node : Node) : Option String := match node.kind with
  | .sourceCode code | .condition code => some code
  | .workflow _ => none

/-- The node whose newest result feeds an input, if the node has that input. -/
def feedingNode (g : Graph) (node : Node) (input : String) : Option NodeId :=
  if node.inputs.contains input then (g.feeding node.id input).filter (· != "") else none

def newTask (workflow : WorkflowId) (row : Workflow) (node : Node) (payload : Json) : Task :=
  { workflow := workflow, nodeId := some node.id, celeryTaskId := 0, name := taskName node,
    sourceCode := taskSourceCode node, status := .init, workerName := none,
    payload := match payload with | .null => none | value => some value,
    result := none, progress := none, log := none, errorMessage := none,
    finishedAt := false, space := row.space }

/-- `previous_output`: the newest result of the node connected to `in`. -/
def previousOutput (job : Job) (node : Node) : Prog (Option Json) :=
  match feedingNode job.graph node "in" with
  | none => .pure none
  | some previous => query fun db => (db.newestTask job.workflow previous).bind Task.result

/-- The payload: that of the workflow, or the newest result connected to `payload_input`. -/
def nodePayload (job : Job) (row : Workflow) (node : Node) : Prog Json :=
  match feedingNode job.graph node "payload_input" with
  | none => .pure row.payload
  | some generator => query fun db => match db.newestTask job.workflow generator with
    | some task => task.result.getD .null
    | none => row.payload

/-- `process_next_node`. -/
def processNextNode (definitions : Definitions) (job : Job) : Prog Unit := Program.attempt do
  let row ← fetch (·.getWorkflow job.workflow)
  match job.graph.node? job.currentNodeId with
  | none => .raise (.of (Python.repr job.currentNodeId))
  | some node =>
    if row.status = .wait then
      saveWorkflow job.workflow {row with currentNodeId := some job.currentNodeId}
    else if ← areInputsReady job.workflow (job.graph.inputNodes job.currentNodeId) then
      let output ← previousOutput job node
      let payload ← nodePayload job row node
      let celery ← createTask (newTask job.workflow row node payload)
      applyStep definitions celery ⟨payload,output⟩

/-- `execute_workflow_v2`; the tracer logs what it raises. -/
def executeWorkflowV2 (workflow : WorkflowId) : Prog Unit := Program.attempt do
  let row ← fetch (·.getWorkflow workflow)
  saveWorkflow workflow {row with status := .progress}
  let g ← fetch (·.templateData row)
  let _ ← .lift g.adjacencyList
  dispatch (g.startNodes.map (fun id => .processNextNode ⟨id,workflow,g⟩))

end FinmarsWorkflow
