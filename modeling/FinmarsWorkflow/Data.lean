import Mathlib.Data.Rat.Init
import Mathlib.Data.List.Infix
import FinmarsWorkflow.Python.Text

/-! The stored and transmitted data of the workflow engine.
Rows keep the columns that the modelled functions read or write. A template is
its parsed `data` column: nodes with what their type needs, and connections. -/
namespace FinmarsWorkflow

abbrev NodeId := String
abbrev WorkflowId := Nat
abbrev TaskId := Nat
abbrev TemplateId := Nat
abbrev SpaceId := Nat
abbrev CeleryId := Nat

inductive Json where
  | null
  | bool (value : Bool)
  | num (value : Int)
  | float (value : Rat)
  | str (value : String)
  | arr (items : List Json)
  | obj (fields : List (String × Json))

/-- Python truth of a decoded JSON value. -/
def Json.truthy : Json → Bool
  | .null => false
  | .bool value => value
  | .num value => value != 0
  | .float value => value != 0
  | .str value => value != ""
  | .arr items => !items.isEmpty
  | .obj fields => !fields.isEmpty

/-- An exception: whether it is a (soft or hard) time limit, its text and traceback. -/
structure Error where
  timeLimit : Bool
  message : String
  traceback : String

def Error.of (message : String) : Error := ⟨false,message,""⟩

inductive WorkflowStatus where
  | init | progress | wait | success | error | timeout | canceled
deriving DecidableEq, Repr

inductive TaskStatus where
  | init | progress | nestedProgress | success | error | timeout | canceled
deriving DecidableEq, Repr

/-- The finished statuses of a workflow. -/
def WorkflowStatus.terminal : WorkflowStatus → Bool
  | .success | .error | .timeout | .canceled => true
  | .init | .progress | .wait => false

/-- `data.node.type` with the data that this type reads. -/
inductive NodeKind where
  | sourceCode (code : String)
  | condition (code : String)
  | workflow (userCode : String)
deriving DecidableEq, Repr

structure Node where
  id : NodeId
  kind : NodeKind
  inputs : List String
deriving DecidableEq, Repr

def Node.isCondition (node : Node) : Bool := match node.kind with
  | .condition _ => true
  | _ => false

structure Connection where
  source : NodeId
  target : NodeId
  sourceOutput : String
  targetInput : String
deriving DecidableEq, Repr

structure Graph where
  nodes : List Node
  connections : List Connection
deriving DecidableEq, Repr

namespace Graph

/-- Keys of `{node["id"]: node for node in nodes}`, in insertion order. -/
def ids (g : Graph) : List NodeId := (g.nodes.map Node.id).eraseDups

/-- `nodes.get(id)`: the last node with an id is the one its key holds. -/
def node? (g : Graph) (id : NodeId) : Option Node := g.nodes.reverse.find? (fun node => node.id == id)

/-- `start_nodes`: the ids that no connection has as its target. -/
def startNodes (g : Graph) : List NodeId :=
  g.ids.filter (fun id => !g.connections.any (fun connection => id == connection.target))

/-- One entry of `adjacency_list`. -/
def adjacent (g : Graph) (id : NodeId) : List NodeId :=
  (g.connections.filter (fun connection => connection.source == id)).map Connection.target

/-- Filling `adjacency_list` is a `KeyError` at the first source that is no node. -/
def adjacencyList (g : Graph) : Except Error (NodeId → List NodeId) :=
  match g.connections.find? (fun connection => !g.ids.contains connection.source) with
  | some connection => .error (.of (Python.repr connection.source))
  | none => .ok g.adjacent

/-- `input_nodes` of `are_inputs_ready`, one entry for each connection. -/
def inputNodes (g : Graph) (id : NodeId) : List NodeId :=
  (g.connections.filter (fun connection => connection.target == id)).map Connection.source

/-- The source of the first connection into an input of a node. -/
def feeding (g : Graph) (id : NodeId) (input : String) : Option NodeId :=
  (g.connections.find? (fun connection => connection.target == id && connection.targetInput == input)).map
    Connection.source

end Graph

/-- `get_next_node_by_condition`. -/
def getNextNodeByCondition (current : NodeId) (result : Json) (connections : List Connection) :
    Except Error (Option NodeId) :=
  match result with
  | .obj fields => match fields.lookup "result" with
    | some value =>
      let output := if value.truthy then "out_true" else "out_false"
      .ok ((connections.find? (fun connection =>
        connection.source == current && connection.sourceOutput == output)).map Connection.target)
    | none => .error (.of "Wrong condition_result")
  -- `in` also works on lists and strings, but subscripting them by a string does not
  | .arr items => if items.any (fun | .str text => text == "result" | _ => false)
      then .error (.of "list indices must be integers or slices, not str")
      else .error (.of "Wrong condition_result")
  | .str text => if "result".toList <:+: text.toList
      then .error (.of "string indices must be integers, not 'str'")
      else .error (.of "Wrong condition_result")
  | .null => .error (.of "argument of type 'NoneType' is not iterable")
  | .bool _ => .error (.of "argument of type 'bool' is not iterable")
  | .num _ => .error (.of "argument of type 'int' is not iterable")
  | .float _ => .error (.of "argument of type 'float' is not iterable")

structure WorkflowTemplate where
  userCode : String
  space : SpaceId
  data : Graph

structure Workflow where
  status : WorkflowStatus
  workflowTemplate : Option TemplateId
  currentNodeId : Option NodeId
  lastTaskOutput : Option Json
  nodeId : Option NodeId
  userCode : String
  payload : Json
  platformTaskId : Option Int
  space : SpaceId
  /-- whether `finished_at` is set -/
  finishedAt : Bool
  parent : Option WorkflowId

structure Task where
  workflow : WorkflowId
  nodeId : Option NodeId
  celeryTaskId : CeleryId
  name : String
  sourceCode : Option String
  status : TaskStatus
  workerName : Option String
  payload : Option Json
  result : Option Json
  progress : Option Json
  log : Option String
  errorMessage : Option String
  /-- whether `finished_at` is set -/
  finishedAt : Bool
  space : SpaceId

/-- The columns of a task that no save ever changes. -/
structure TaskKey where
  workflow : WorkflowId
  nodeId : Option NodeId
  celeryTaskId : CeleryId
  name : String
  sourceCode : Option String
  space : SpaceId
deriving DecidableEq

def Task.key (task : Task) : TaskKey :=
  ⟨task.workflow,task.nodeId,task.celeryTaskId,task.name,task.sourceCode,task.space⟩

/-- The columns of a workflow that no save ever changes. -/
structure WorkflowKey where
  workflowTemplate : Option TemplateId
  nodeId : Option NodeId
  userCode : String
  space : SpaceId
  parent : Option WorkflowId
deriving DecidableEq

def Workflow.key (workflow : Workflow) : WorkflowKey :=
  ⟨workflow.workflowTemplate,workflow.nodeId,workflow.userCode,workflow.space,workflow.parent⟩

/-- What a `process_next_node` message asks for, with the graph it carries. -/
structure Job where
  currentNodeId : NodeId
  workflow : WorkflowId
  graph : Graph

inductive Message where
  | executeWorkflowV2 (workflow : WorkflowId)
  | processNextNode (job : Job)

def Message.workflow : Message → WorkflowId
  | .executeWorkflowV2 workflow => workflow
  | .processNextNode job => job.workflow

/-- The keyword arguments that reach the code of a node. -/
structure Kwargs where
  payload : Json
  previousOutput : Option Json

/-- What the code of a node may call on its task while it runs. -/
inductive Call where
  | log (message : String)
  | updateProgress (progress : Json)

/-- What the world outside answers to a step: the host that executes it and how
the user code behaves, if the step runs any. -/
structure Outside where
  host : String
  calls : List Call
  outcome : Except Error Json

/-- `int(manager.get_by_user_code(...).get("version", 1))` of the definitions in
storage, or the exception it ends in. -/
abbrev Definitions := SpaceId → String → Except Error Int

end FinmarsWorkflow
