import FinmarsWorkflow.Data
import FinmarsWorkflow.Interleave.System

/-! One tenant schema with its broker queue, and the atomic operations on them.
Primary keys are positions: rows are added at the end and are never deleted. A
save writes the whole row of the copy it is called on, as the source does. -/
namespace FinmarsWorkflow
open Interleave

structure Db where
  workflows : List Workflow
  tasks : List Task
  templates : List WorkflowTemplate
  queue : List Message
  /-- the next uuid that Celery hands out -/
  uuid : CeleryId

/-- The one row that a `get` may return, or why it raises. -/
def getRow {α : Type} (model : String) (matches? : α → Bool) (rows : List α) : Except Error (Nat × α) :=
  match rows.zipIdx.filter (fun row => matches? row.1) with
  | [(row,id)] => .ok (id,row)
  | [] => .error (.of (model ++ " matching query does not exist."))
  | found => .error (.of ("get() returned more than one " ++ model ++ " -- it returned " ++
      toString found.length ++ "!"))

namespace Db

def getWorkflow (db : Db) (id : WorkflowId) : Except Error Workflow := match db.workflows[id]? with
  | some workflow => .ok workflow
  | none => .error (.of "Workflow matching query does not exist.")

def getTask (db : Db) (id : TaskId) : Except Error Task := match db.tasks[id]? with
  | some task => .ok task
  | none => .error (.of "Task matching query does not exist.")

def taskByCeleryId (db : Db) (celery : CeleryId) : Except Error (TaskId × Task) :=
  getRow "Task" (fun task => task.celeryTaskId == celery) db.tasks

def taskByNode (db : Db) (workflow : WorkflowId) (node : NodeId) : Except Error (TaskId × Task) :=
  getRow "Task" (fun task => task.workflow == workflow && task.nodeId == some node) db.tasks

def parentTask (db : Db) (workflow : WorkflowId) (node : Option NodeId) (space : SpaceId) :
    Except Error (TaskId × Task) :=
  getRow "Task" (fun task => task.workflow == workflow && task.nodeId == node && task.space == space) db.tasks

def templateByUserCode (db : Db) (userCode : String) (space : SpaceId) : Except Error (TemplateId × WorkflowTemplate) :=
  getRow "WorkflowTemplate" (fun template => template.userCode == userCode && template.space == space) db.templates

/-- `filter(workflow, node_id).order_by("-created_at").first()`. -/
def newestTask (db : Db) (workflow : WorkflowId) (node : NodeId) : Option Task :=
  db.tasks.reverse.find? (fun task => task.workflow == workflow && task.nodeId == some node)

/-- `workflow_template.data` behind the foreign key of a workflow. -/
def templateData (db : Db) (workflow : Workflow) : Except Error Graph :=
  match workflow.workflowTemplate with
  | none => .error (.of "'NoneType' object has no attribute 'data'")
  | some id => match db.templates[id]? with
    | some template => .ok template.data
    | none => .error (.of "WorkflowTemplate matching query does not exist.")

/-- `Task.objects.filter(workflow_id=...)`, newest first. -/
def tasksOf (db : Db) (workflow : WorkflowId) : List (TaskId × Task) :=
  (db.tasks.zipIdx.filter (fun row => row.1.workflow == workflow)).reverse.map (fun row => (row.2,row.1))

/-- Whether one input of a node is ready: `are_inputs_ready` inside its loop. -/
def inputReady (db : Db) (workflow : WorkflowId) (input : NodeId) : Bool :=
  match db.taskByNode workflow input with
  | .ok (_,task) => task.status == .success
  | .error _ => false

end Db

inductive Operation where
  | read
  | userCode (task : TaskId) (kwargs : Kwargs)
  | saveWorkflow (id : WorkflowId) (row : Workflow)
  | saveTask (id : TaskId) (row : Task)
  | createWorkflow (row : Workflow)
  | createTask (row : Task)
  | saveTemplate (id : TemplateId) (data : Graph)
  | send (message : Message)

/-- A created task gets a fresh `celery_task_id`; every other column is as given. -/
def Operation.effect : Operation → Db → Db
  | .read,db | .userCode _ _,db => db
  | .saveWorkflow id row,db => {db with workflows := db.workflows.set id row}
  | .saveTask id row,db => {db with tasks := db.tasks.set id row}
  | .createWorkflow row,db => {db with workflows := db.workflows ++ [row]}
  | .createTask row,db => {db with tasks := db.tasks ++ [{row with celeryTaskId := db.uuid}],uuid := db.uuid+1}
  | .saveTemplate id data,db => {db with
      templates := db.templates.modify id (fun template => {template with data := data})}
  | .send message,db => {db with queue := db.queue ++ [message]}

abbrev Prog (α : Type) := Program Db Operation Outside Error α

/-- One query, answered from the state it finds. -/
def query {α : Type} (ask : Db → α) : Prog α := .step .read (fun db _ => .pure (ask db))

/-- One query that may raise. -/
def fetch {α : Type} (ask : Db → Except Error α) : Prog α := .step .read (fun db _ => .lift (ask db))

def saveWorkflow (id : WorkflowId) (row : Workflow) : Prog Unit :=
  .step (.saveWorkflow id row) (fun _ _ => .pure ())

def saveTask (id : TaskId) (row : Task) : Prog Unit := .step (.saveTask id row) (fun _ _ => .pure ())

def createWorkflow (row : Workflow) : Prog WorkflowId :=
  .step (.createWorkflow row) (fun db _ => .pure db.workflows.length)

/-- Saves a new task under a fresh `celery_task_id`, which is returned. -/
def createTask (row : Task) : Prog CeleryId := .step (.createTask row) (fun db _ => .pure db.uuid)

def applyAsync (message : Message) : Prog Unit := .step (.send message) (fun _ _ => .pure ())

/-- A dispatch loop: one message after the other. -/
def dispatch : List Message → Prog Unit
  | [] => .pure ()
  | message::rest => do
    applyAsync message
    dispatch rest

end FinmarsWorkflow
