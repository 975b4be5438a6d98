import FinmarsWorkflow.Requests
import FinmarsWorkflow.Interleave.Ensures

/-! Version-1 workflows, which run as chains of Celery tasks.
The builder saves a task for every name and posts one chain: start, the hook before it,
the tasks and groups of the definition, and the end. Celery sends the next member when one
has returned, before the callbacks of that one have run; it drops members that are revoked
and sends the error callbacks of a member that fails. -/
namespace FinmarsWorkflow.Chain
open Interleave

/-- An entry of `tasks`, or a hook: a name, a dict with the names of a group, or neither. -/
inductive Entry where
  | single (name : String)
  | group (names : List String)
  | other
deriving DecidableEq

/-- `wf["workflow"]` of a version-1 definition, without the hooks that are false. -/
structure Manifest where
  tasks : List Entry
  beforeStart : Option Entry
  success : Option Entry
  failure : Option Entry

inductive Member where
  | start
  | step (celery : CeleryId)
  | group (celeries : List CeleryId)
  | finish
deriving DecidableEq

/-- What a worker takes from the queue: a member, or one task of a group with its chord. -/
inductive Piece where
  | start
  | step (celery : CeleryId)
  | part (celery : CeleryId) (chord : Nat)
  | finish
deriving DecidableEq

/-- What all signatures of a chain carry: the workflow with its payload and context, and the
hook that the launcher of its error callback is given. -/
structure Plan where
  workflow : WorkflowId
  payload : Json
  context : SpaceId
  failureHook : Option Entry

structure Delivery where
  plan : Plan
  piece : Piece
  rest : List Member

/-- The `celery_task_id` of a piece; start and end have none that a task row knows. -/
def Piece.celery : Piece → Option CeleryId
  | .step celery | .part celery _ => some celery
  | .start | .finish => none

inductive Message where
  | member (delivery : Delivery)
  | failureHooksLauncher (workflow : WorkflowId) (tasksNames : List Entry) (payload : Json) (context : Option SpaceId)
  | hooks (signatures : List (String × CeleryId))
  | markAsCanceledInitTasks (workflow : WorkflowId) (context : Option SpaceId)

/-- The tenant schema, and what Celery keeps: its queue, the revoked ids, and for every
chord how many of its tasks have not returned. -/
structure Broker where
  db : Db
  queue : List Message
  revoked : List CeleryId
  chords : List Nat

namespace Broker

def push (broker : Broker) (message : Message) : Broker := {broker with queue := broker.queue ++ [message]}

/-- Celery sends the first member of a chain with the rest of it; a group that is empty has returned. -/
def post (broker : Broker) (plan : Plan) : List Member → Broker
  | [] => broker
  | .start::rest => broker.push (.member ⟨plan,.start,rest⟩)
  | .step celery::rest => broker.push (.member ⟨plan,.step celery,rest⟩)
  | .finish::rest => broker.push (.member ⟨plan,.finish,rest⟩)
  | .group celeries::rest =>
    if celeries = [] then broker.post plan rest
    else {broker with
      chords := broker.chords ++ [celeries.length]
      queue := broker.queue ++ celeries.map (fun celery => .member ⟨plan,.part celery broker.chords.length,rest⟩)}

/-- The chain goes on after a piece that returned, unless others of its chord have not. -/
def complete (broker : Broker) (delivery : Delivery) : Broker :=
  match delivery.piece with
  | .part _ chord => match broker.chords[chord]? with
    | some 1 => {broker with chords := broker.chords.set chord 0}.post delivery.plan delivery.rest
    | some (left+2) => {broker with chords := broker.chords.set chord (left+1)}
    | _ => broker
  | _ => broker.post delivery.plan delivery.rest

/-- The error callbacks of a member that failed. -/
def errback (broker : Broker) (plan : Plan) : Broker := match plan.failureHook with
  | some hook => broker.push (.failureHooksLauncher plan.workflow [hook] plan.payload (some plan.context))
  | none => broker

end Broker

inductive Work where
  | tenant (operation : Operation)
  | revoke (celery : CeleryId)
  | post (plan : Plan) (members : List Member)
  | complete (delivery : Delivery)
  | errback (plan : Plan)
  | send (message : Message)

def Work.effect : Work → Broker → Broker
  | .tenant operation,broker => {broker with db := operation.effect broker.db}
  | .revoke celery,broker => {broker with revoked := celery::broker.revoked}
  | .post plan members,broker => broker.post plan members
  | .complete delivery,broker => broker.complete delivery
  | .errback plan,broker => broker.errback plan
  | .send message,broker => broker.push message

abbrev Chained (α : Type) := Program Broker Work Outside Error α

def tenant {α : Type} (program : Prog α) : Chained α := program.within Broker.db .tenant

def perform (work : Work) : Chained Unit := .step work (fun _ _ => .pure ())

section builder

/-- The task that the builder saves; it belongs to no node. -/
def taskRow (workflow : WorkflowId) (name : String) (space : SpaceId) : Task :=
  { workflow := workflow, nodeId := none, celeryTaskId := 0, name := name, sourceCode := none, status := .init,
    workerName := none, payload := none, result := none, progress := none, log := none, errorMessage := none,
    finishedAt := false, space := space }

/-- `WorkflowBuilder.new_task` -/
def newTask (workflow : WorkflowId) (row : Workflow) (name : String) : Chained CeleryId :=
  tenant (createTask (taskRow workflow name row.space))

def newTasks (workflow : WorkflowId) (row : Workflow) : List String → Chained (List CeleryId)
  | [] => .pure []
  | name::names => do
    let celery ← newTask workflow row name
    let others ← newTasks workflow row names
    return celery::others

/-- `WorkflowBuilder.parse_flat_tasks` -/
def parseFlatTasks (workflow : WorkflowId) (row : Workflow) : List Entry → Chained (List Member)
  | [] => .pure []
  | .single name::tasks => do
    let celery ← newTask workflow row name
    let canvas ← parseFlatTasks workflow row tasks
    return .step celery::canvas
  | .group names::tasks => do
    let celeries ← newTasks workflow row names
    let canvas ← parseFlatTasks workflow row tasks
    return .group celeries::canvas
  | .other::_ => .raise (.of "WorkflowSyntaxError")

/-- `WorkflowBuilder.build` -/
def build (workflow : WorkflowId) (row : Workflow) (manifest : Manifest) : Chained (List Member) := do
  let canvas ← parseFlatTasks workflow row manifest.tasks
  let before ← parseFlatTasks workflow row manifest.beforeStart.toList
  return .start::(before ++ canvas ++ [.finish])

/-- `WorkflowBuilder.run`: the success hook is linked to the end of the chain, and the
launcher of the failure hook to the failure of any member. Celery may refuse the chain. -/
def run (workflow : WorkflowId) (row : Workflow) (manifest : Manifest) (canvas : List Member) : Chained Unit := do
  let link ← parseFlatTasks workflow row manifest.success.toList
  .step (.tenant .read) fun _ outside => match outside.outcome with
    | .ok _ => perform (.post ⟨workflow,row.payload,row.space,manifest.failure⟩ (canvas ++ link))
    | .error error => do
      tenant (saveWorkflow workflow {row with status := .error})
      .raise error

/-- The workflow that `execute_workflow` saves. -/
def workflowRow (template : Option TemplateId) (userCode : String) (payload : Json) (space : SpaceId)
    (platformTaskId : Option Int) : Workflow :=
  { status := .init, workflowTemplate := template, currentNodeId := none, lastTaskOutput := none,
    nodeId := none, userCode := userCode, payload := workflowPayload payload,
    platformTaskId := platformTaskId, space := space, finishedAt := false, parent := none }

/-- The version-1 path of `execute_workflow`, once it has found the definition. -/
def executeWorkflow (userCode : String) (payload : Json) (space : SpaceId) (platformTaskId : Option Int)
    (manifest : Manifest) : Chained Unit := do
  let template ← tenant (query fun db => (db.templateByUserCode (spaceLessUserCode userCode) space).toOption.map Prod.fst)
  let workflow ← tenant (createWorkflow (workflowRow template userCode payload space platformTaskId))
  let row ← tenant (fetch (·.getWorkflow workflow))
  let canvas ← build workflow row manifest
  run workflow row manifest canvas

end builder

section members

/-- `start` -/
def startWorkflow (workflow : WorkflowId) : Prog Unit := do
  let row ← fetch (·.getWorkflow workflow)
  saveWorkflow workflow {row with status := .progress}

/-- `end` -/
def endWorkflow (workflow : WorkflowId) : Prog Unit := do
  let row ← fetch (·.getWorkflow workflow)
  if row.status ≠ .error then
    saveWorkflow workflow {row with status := .success}

/-- `before_start` and `execute_workflow_step`. -/
def stepBody (definitions : Definitions) (payload : Json) (celery : CeleryId) : Prog Json := do
  let (id,task) ← beforeStart celery
  executeWorkflowStep definitions id task ⟨payload,none⟩

/-- What Celery does after a start or an end; neither has a task that `on_failure` could find. -/
def concluded (delivery : Delivery) : Except Error Unit → Chained Unit
  | .ok () => perform (.complete delivery)
  | .error _ => perform (.errback delivery.plan)

def runBound (delivery : Delivery) (body : Prog Unit) : Chained Unit := do
  let result ← (tenant body).outcome
  concluded delivery result

/-- Celery's tracer around a task: the chain goes on before `on_success`, whose exceptions
are internal errors, and the error callbacks are sent before `on_failure`. -/
def runStep (definitions : Definitions) (delivery : Delivery) (celery : CeleryId) : Chained Unit := do
  match ← (tenant (stepBody definitions delivery.plan.payload celery)).outcome with
  | .error error =>
    perform (.errback delivery.plan)
    tenant (onFailure celery error).attempt
  | .ok retval =>
    perform (.complete delivery)
    match ← (tenant (onSuccess celery retval)).outcome with
    | .ok () => return
    | .error error => tenant (onFailure celery error).attempt

def runMember (definitions : Definitions) (delivery : Delivery) : Chained Unit := match delivery.piece with
  | .start => runBound delivery (startWorkflow delivery.plan.workflow)
  | .finish => runBound delivery (endWorkflow delivery.plan.workflow)
  | .step celery | .part celery _ => runStep definitions delivery celery

end members

section hooks
variable (registered : String → Bool)

/-- Saving a task; its space is a foreign key that is not null. -/
def saveNewTask (space : Option SpaceId) (row : SpaceId → Task) : Chained CeleryId := match space with
  | some space => tenant (createTask (row space))
  | none => .raise (.of "null value in column \"space_id\" of relation \"workflow_task\" violates not-null constraint")

/-- The loop of `failure_hooks_launcher`. `celery_app.tasks.get` finds what is registered as a
Celery task, the task of the hook is given no space, and a dict cannot be looked up. -/
def launchHooks (workflow : WorkflowId) : List Entry → Chained (List (String × CeleryId))
  | [] => .pure []
  | .single taskName::tasksNames => do
    if registered taskName then
      let celery ← saveNewTask none (taskRow workflow taskName)
      let canvas ← launchHooks workflow tasksNames
      return (taskName,celery)::canvas
    else
      .raise (.of "'NoneType' object has no attribute 'subtask'")
  | _::_ => .raise (.of "unhashable type: 'dict'")

/-- The loop ends at its first hook, whatever is registered. -/
theorem launchHooks_raises (workflow : WorkflowId) (hook : Entry) (tasksNames : List Entry) :
    ∃ error, launchHooks registered workflow (hook::tasksNames) = .raise error := by
  cases hook with
  | single taskName =>
    unfold launchHooks
    split
    · exact ⟨_,rfl⟩
    · exact ⟨_,rfl⟩
  | group names => exact ⟨_,rfl⟩
  | other => exact ⟨_,rfl⟩

/-- `set_schema_from_context` of a space that has a schema. -/
def setSchemaFromContext : Option SpaceId → Chained Unit
  | some _ => .pure ()
  | none => .raise (.of "No context in kwargs")

/-- `failure_hooks_launcher`; the clean-up is sent without a context. -/
def failureHooksLauncher (workflow : WorkflowId) (tasksNames : List Entry) (context : Option SpaceId) : Chained Unit := do
  setSchemaFromContext context
  let canvas ← launchHooks registered workflow tasksNames
  perform (.send (.hooks canvas))
  perform (.send (.markAsCanceledInitTasks workflow none))

def markAsCanceled : List (TaskId × Task) → Prog Unit
  | [] => .pure ()
  | (id,task)::tasks => do
    if task.status = .init then
      saveTask id {task with status := .canceled,finishedAt := true}
    markAsCanceled tasks

/-- `mark_as_canceled_init_tasks` -/
def markAsCanceledInitTasks (workflow : WorkflowId) (context : Option SpaceId) : Chained Unit := do
  setSchemaFromContext context
  let tasks ← tenant (query (·.tasksOf workflow))
  tenant (markAsCanceled tasks)

end hooks

section requests

/-- The loop of `Workflow.cancel`, which revokes the tasks that it cancels. -/
def cancelTasks : List (TaskId × Task) → Chained Unit
  | [] => .pure ()
  | (id,task)::tasks => do
    if task.status.cancellable then
      perform (.revoke task.celeryTaskId)
      tenant (saveTask id {task with status := .canceled,finishedAt := true})
    cancelTasks tasks

/-- `Workflow.cancel` on a loaded row. -/
def cancel (workflow : WorkflowId) (row : Workflow) : Chained Unit := do
  let tasks ← tenant (query (·.tasksOf workflow))
  cancelTasks tasks
  tenant (saveWorkflow workflow {row with status := .canceled})

/-- `WorkflowViewSet.cancel` -/
def cancelWorkflow (workflow : WorkflowId) : Chained Unit := do
  let row ← tenant (fetch (·.getWorkflow workflow))
  if row.status.terminal then
    return
  else
    cancel workflow row

end requests

section machine

inductive Origin where
  | message (message : Message)
  | cancel (workflow : WorkflowId)

/-- The piece of a chain that a thread works on. -/
def Origin.delivery? : Origin → Option Delivery
  | .message (.member delivery) => some delivery
  | _ => none

/-- The `celery_task_id` that revoking reaches a thread by. -/
def Origin.celery (origin : Origin) : Option CeleryId := origin.delivery?.bind (fun delivery => delivery.piece.celery)

def Message.celery (message : Message) : Option CeleryId := (Origin.message message).celery

inductive Environment where
  /-- a user launches a definition, up to the chain that is posted or refused -/
  | launch (userCode : String) (payload : Json) (space : SpaceId) (platformTaskId : Option Int) (manifest : Manifest)
      (outside : Outside)
  | cancel (workflow : WorkflowId)
  /-- a worker takes a message that is not revoked -/
  | deliver (index : Nat)
  /-- a worker drops a revoked message, with the rest of its chain -/
  | discard (index : Nat)
  /-- the process of a revoked task is killed -/
  | kill (index : Nat)
  /-- the rest of the installation, which may leave the schema in any other state -/
  | elsewhere (db : Db)

def Broker.revoked? (broker : Broker) (celery : Option CeleryId) : Bool := celery.any broker.revoked.contains

def react : Environment → Broker → List Origin → Option (Broker × Turn Origin)
  | .launch userCode payload space platformTaskId manifest outside,broker,_ =>
    some (((executeWorkflow userCode payload space platformTaskId manifest).run Work.effect outside broker).2,.keep)
  | .cancel workflow,broker,_ => some (broker,.spawn (.cancel workflow))
  | .deliver index,broker,_ => match broker.queue[index]? with
    | some message => if broker.revoked? message.celery then none
      else some ({broker with queue := broker.queue.eraseIdx index},.spawn (.message message))
    | none => none
  | .discard index,broker,_ => match broker.queue[index]? with
    | some message => if broker.revoked? message.celery then some ({broker with queue := broker.queue.eraseIdx index},.keep)
      else none
    | none => none
  | .kill index,broker,origins => match origins[index]? with
    | some origin => if broker.revoked? origin.celery then some (broker,.drop index) else none
    | none => none
  | .elsewhere db,broker,_ => some ({broker with db := db},.keep)

def machine : Machine Broker Work Origin Environment := ⟨Work.effect,react⟩

abbrev programs : Language Broker Work Outside := Program.language Broker Work Outside Error

/-- The program of a thread; what a registered task does is outside. -/
def Origin.program (definitions : Definitions) (registered : String → Bool) : Origin → Chained Unit
  | .message (.member delivery) => runMember definitions delivery
  | .message (.failureHooksLauncher workflow tasksNames _ context) =>
    (failureHooksLauncher registered workflow tasksNames context).attempt
  | .message (.hooks _) => .step (.tenant .read) (fun _ outside => (Program.lift (outside.outcome.map fun _ => ())).attempt)
  | .message (.markAsCanceledInitTasks workflow context) => (markAsCanceledInitTasks workflow context).attempt
  | .cancel workflow => (cancelWorkflow workflow).attempt

abbrev Installation := System Origin programs
abbrev Seen := View Broker Origin Work
abbrev Action := Label Outside Environment
abbrev Allowed := Condition Broker Origin Work Outside Environment

def installed (templates : List WorkflowTemplate) : Installation := ⟨⟨⟨[],[],templates,[],0⟩,[],[],[]⟩,[]⟩

/-- Revoking a task takes effect at once: it takes no further step. -/
def advancesRevoked (view : Seen) : Action → Bool
  | .advance index _ => match view.threads[index]? with
    | some (origin,_) => view.shared.revoked? origin.celery
    | none => false
  | _ => false

/-- What is assumed of Celery about revoked tasks. -/
def celery : Allowed := fun view label => advancesRevoked view label = false

instance (view : Seen) (label : Action) : Decidable (celery view label) := inferInstanceAs (Decidable (_ = _))

abbrev Execution (definitions : Definitions) (registered : String → Bool) (allowed : Allowed) (first : Installation)
    (events : List (Origin × Work)) (last : Installation) : Prop :=
  Run machine (Origin.program definitions registered) allowed first events last

end machine

end FinmarsWorkflow.Chain
