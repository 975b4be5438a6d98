import FinmarsWorkflow.Data
import FinmarsWorkflow.Registry
import FinmarsWorkflow.Python.Effects

/-! `WorkflowBuilder`: a version-1 definition becomes a chain and one task row for each name.
The parser reads whatever the definition file holds, so its errors are those of Python as
well as its own. Every task keeps the ids of the stage before it in `previous`, which the
builder threads through one attribute. -/
namespace FinmarsWorkflow.Build
open Tenant Python

/-- The exceptions of a launch, by their classes. -/
inductive Raised where
  | workflowSyntaxError | workflowNotFound | doesNotExist | multipleObjectsReturned | validationError
  | indexError | keyError | typeError | attributeError | operationalError
deriving DecidableEq

/-- What Python makes of the values that only have their text: whether they are true, and what
iterating over them gives. Numbers and dates are not iterated; sets and bytes are. -/
structure Objects where
  truthy : String → Bool
  members : String → Option (List Yaml)

namespace Objects
variable (objects : Objects)

def truth : Yaml → Bool
  | .str text => text != ""
  | .map entries => !entries.isEmpty
  | .seq items => !items.isEmpty
  | .other text => objects.truthy text

/-- `for item in value`: a string by its characters, a mapping by its keys. -/
def iter : Yaml → Except Raised (List Yaml)
  | .str text => .ok (text.toList.map (fun char => .str (String.singleton char)))
  | .map entries => .ok (entries.map Prod.fst)
  | .seq items => .ok items
  | .other text => match objects.members text with
    | some items => .ok items
    | none => .error .typeError

/-- `key in value` -/
def contains (key : String) : Yaml → Except Raised Bool
  | .str text => .ok (Python.contains key text)
  | .map entries => .ok (entries.any (fun entry => entry.1.isStr key))
  | .seq items => .ok (items.any (Yaml.isStr key))
  | .other text => match objects.members text with
    | some items => .ok (items.any (Yaml.isStr key))
    | none => .error .typeError

end Objects

/-- `value[key]` for a string key. -/
def item (key : String) : Yaml → Except Raised Yaml
  | .map entries => match (Yaml.map entries).get key with
    | some value => .ok value
    | none => .error .keyError
  | _ => .error .typeError

/-- `prefix + value` for a string prefix. -/
def plain : Yaml → Except Raised String
  | .str text => .ok text
  | _ => .error .typeError

structure Context where
  realmCode : Option String
  spaceCode : String
deriving DecidableEq

/-- A signature of `execute_workflow_step`. -/
structure Signature where
  id : CeleryId
  workflow : WorkflowId
  payload : Json
  context : Context
  imports : Option Yaml
  queue : Yaml

/-- A task row as the builder saves it. -/
structure Row where
  celeryTaskId : CeleryId
  name : String
  previous : Option (List CeleryId)
  workflow : WorkflowId
  nodeId : Option NodeId
  status : TaskStatus
  isHook : Bool
deriving DecidableEq

/-- What a builder knows when it parses: the workflow that it was made for, and the queues and
imports of its definition. -/
structure Job where
  workflow : WorkflowId
  payload : Json
  context : Context
  queue : Yaml
  customQueues : Yaml
  imports : Option Yaml

/-- A member of a canvas. -/
inductive Element where
  | start (workflow : WorkflowId) (context : Context) (queue : Yaml)
  | step (signature : Signature)
  | group (id : CeleryId) (queue : Option Yaml) (members : List Signature)
  | finish (workflow : WorkflowId) (context : Context) (queue : Yaml)
  | failureHooksLauncher (workflow : WorkflowId) (queue : Yaml) (tasksNames : List Yaml) (payload : Json) (context : Context)

/-- `canvas.set(queue=queue)` -/
def Element.setQueue (queue : Yaml) : Element → Element
  | .start workflow context _ => .start workflow context queue
  | .step signature => .step {signature with queue := queue}
  | .group id _ members => .group id (some queue) members
  | .finish workflow context _ => .finish workflow context queue
  | .failureHooksLauncher workflow _ names payload context => .failureHooksLauncher workflow queue names payload context

/-- The ids of the tasks that an element runs. -/
def Element.ids : Element → List CeleryId
  | .step signature => [signature.id]
  | .group _ _ members => members.map Signature.id
  | .start _ _ _ | .finish _ _ _ | .failureHooksLauncher _ _ _ _ _ => []

/-- What a launch sends: a version-2 workflow, or a chain with the callbacks of its end and of its failure. -/
inductive Message where
  | executeWorkflowV2 (workflow : WorkflowId) (context : Context)
  | chain (id : CeleryId) (canvas : List Element) (link linkError : List Element)

/-- The row of the workflow that a launch saves. -/
structure Launched where
  owner : String
  userCode : String
  payload : Json
  template : Option TemplateId
  isManager : Bool
  platformTaskId : Option Int
  crontabId : Option Nat
  status : WorkflowStatus

/-- What a launch has written: its workflow and its tasks, the messages that the broker took, the ids
drawn so far, and the attribute `previous` of the builder. -/
structure Draft where
  workflow : Option Launched
  rows : List Row
  sent : List Message
  uuids : Nat
  previous : Option (List CeleryId)

/-- The rows saved before an exception stay saved. -/
abbrev Building (α : Type) := EStateM Raised Draft α

/-- `uuid()` -/
def uuid : Building CeleryId := modifyGet fun draft => (draft.uuids,{draft with uuids := draft.uuids + 1})

def setPrevious (previous : Option (List CeleryId)) : Building Unit := modify fun draft => {draft with previous := previous}

section parser
variable (objects : Objects) (job : Job) (isHook : Bool)

/-- `self.custom_queues.get(prefixed_name, self.queue)` -/
def Job.queueOf (name : String) : Yaml :=
  (job.customQueues.get (job.context.spaceCode ++ "." ++ name)).getD job.queue

/-- The row that `new_task` saves. -/
def Job.row (previous : Option (List CeleryId)) (id : CeleryId) (name : String) : Row :=
  { celeryTaskId := id, name := name, previous := previous, workflow := job.workflow, nodeId := none,
    status := .init, isHook := isHook }

/-- The signature that `new_task` returns. -/
def Job.signature (id : CeleryId) (name : String) : Signature :=
  { id := id, workflow := job.workflow, payload := job.payload, context := job.context, imports := job.imports,
    queue := job.queueOf name }

/-- `WorkflowBuilder.new_task` -/
def newTask (single : Bool) (taskName : Yaml) : Building Signature := do
  let id ← uuid
  let name ← attempt (plain taskName)
  let signature := job.signature id name
  modify fun draft => {draft with rows := draft.rows ++ [job.row isHook draft.previous id name]}
  if single then
    setPrevious (some [signature.id])
  return signature

/-- The comprehension over the members of a group. -/
def newTasks : List Yaml → Building (List Signature)
  | [] => return []
  | taskName::rest => do
    let signature ← newTask job isHook false taskName
    let others ← newTasks rest
    return signature::others

/-- One round of the loop of `parse_flat_tasks`. A mapping without a type is asked for it once more. -/
def parseTask : Yaml → Building Element
  | .str name => do
    let signature ← newTask job isHook true (.str name)
    return .step signature
  | .map [] => throw .indexError
  | .map ((_,value)::_) => do
    let typed ← attempt (objects.contains "type" value)
    if !typed then
      let kind ← attempt (item "type" value)
      if !kind.isStr "group" then throw .workflowSyntaxError
    let tasks ← attempt (item "tasks" value)
    let names ← attempt (objects.iter tasks)
    let members ← newTasks job isHook names
    let id ← uuid
    setPrevious (some (members.map Signature.id))
    return .group id none members
  | _ => throw .workflowSyntaxError

/-- `WorkflowBuilder.parse_flat_tasks` -/
def parseFlatTasks : List Yaml → Building (List Element)
  | [] => return []
  | task::rest => do
    let element ← parseTask objects job isHook task
    let canvas ← parseFlatTasks rest
    return element::canvas

end parser

section definition
variable (objects : Objects) (definition : Yaml)

/-- `value.get(key)`, which only mappings have. -/
def dictGet (key : String) : Yaml → Except Raised (Option Yaml)
  | .map entries => .ok ((Yaml.map entries).get key)
  | _ => .error .attributeError

/-- `SystemWorkflowManager.get_queue`, once the definition is found. -/
def getQueue : Except Raised Yaml :=
  match (item "workflow" definition).bind (item "queue") with
  | .error .keyError => .ok (.str "workflow")
  | result => result

/-- `SystemWorkflowManager.get_tasks` -/
def getTasks : Except Raised Yaml := do
  let tasks ← (item "workflow" definition).bind (dictGet "tasks")
  return tasks.getD (.seq [])

/-- `SystemWorkflowManager.get_hook_task` -/
def getHookTask (hookName : String) : Except Raised (Option Yaml) := do
  let workflow ← item "workflow" definition
  if ← objects.contains "hooks" workflow then
    let hooks ← item "hooks" workflow
    if ← objects.contains hookName hooks then
      let hook ← item hookName hooks
      return some hook
  return none

/-- `SystemWorkflowManager.get_imports` -/
def getImports : Except Raised (Option Yaml) := (item "workflow" definition).bind (dictGet "imports")

/-- `WorkflowBuilder.parse_queues`: the queue and the custom queues. -/
def parseQueues (queue : Yaml) : Except Raised (Yaml × Yaml) :=
  let parsed := match queue with
    | .map entries => (((Yaml.map entries).get "default").getD (.str "celery"),
        ((Yaml.map entries).get "customs").getD (.map []))
    | queue => (queue,.map [])
  match parsed with
  | (.str text,.map customs) => .ok (.str text,.map customs)
  | _ => .error .workflowSyntaxError

/-- A hook that is set, and true. -/
def Objects.hook (hook : Option Yaml) : Option Yaml := hook.filter objects.truth

end definition

/-- What `build` leaves in the attributes of the builder. -/
structure Built where
  job : Job
  canvas : List Element
  failureHook : Option Yaml
  successHook : Option Yaml

section build
variable (objects : Objects) (definition : Yaml) (workflow : WorkflowId) (payload : Json) (context : Context)

/-- The part of `build` that adds the hook before the start, which leaves `previous` as it was. -/
def addBeforeStart (job : Job) (beforeStart : Option Yaml) (canvas : List Element) : Building (List Element) := do
  match objects.hook beforeStart with
  | none => return canvas
  | some hook =>
    let initialPrevious := (← get).previous
    setPrevious none
    let parsed ← parseFlatTasks objects job true [hook]
    setPrevious initialPrevious
    return (parsed.take 1).map (Element.setQueue job.queue) ++ canvas

/-- `WorkflowBuilder.build` -/
def build : Building Built := do
  setPrevious (some [])
  let queue ← attempt (getQueue definition)
  let tasks ← attempt (getTasks definition)
  let failureHook ← attempt (getHookTask objects definition "failure")
  let successHook ← attempt (getHookTask objects definition "success")
  let beforeStart ← attempt (getHookTask objects definition "before_start")
  let (queue,customQueues) ← attempt (parseQueues queue)
  let imports ← attempt (getImports definition)
  let job : Job := ⟨workflow,payload,context,queue,customQueues,imports⟩
  let entries ← attempt (objects.iter tasks)
  let canvas ← parseFlatTasks objects job false entries
  let canvas ← addBeforeStart objects job beforeStart canvas
  return {
    job := job
    canvas := .start workflow context queue::canvas ++ [.finish workflow context queue]
    failureHook := failureHook
    successHook := successHook }

end build

end FinmarsWorkflow.Build
