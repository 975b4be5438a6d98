import FinmarsWorkflow.Requests

/-! The running installation: workers on one queue, and requests beside them.
Messages are taken in any order. With late acknowledgement a message belongs to
its worker until the worker is done with it, and may be delivered again before. -/
namespace FinmarsWorkflow
open Interleave

inductive Origin where
  | message (message : Message)
  | request (request : Request)

inductive Environment where
  /-- a worker takes the message at a position of the queue -/
  | deliver (index : Nat)
  | request (request : Request)
  /-- the broker delivers an unacknowledged message again while its worker goes on -/
  | redeliver (index : Nat)
  /-- the process of a thread is lost; an unacknowledged message returns to the queue -/
  | lose (index : Nat)

def react : Environment → Db → List Origin → Option (Db × Turn Origin)
  | .deliver index,db,_ => (db.queue[index]?).map fun message =>
      ({db with queue := db.queue.eraseIdx index},.spawn (.message message))
  | .request request,db,_ => some (db,.spawn (.request request))
  | .redeliver index,db,origins => match origins[index]? with
    | some (.message message) => some ({db with queue := db.queue ++ [message]},.keep)
    | _ => none
  | .lose index,db,origins => match origins[index]? with
    | some (.message message) => some ({db with queue := db.queue ++ [message]},.drop index)
    | some (.request _) => some (db,.drop index)
    | none => none

def machine : Machine Db Operation Origin Environment := ⟨Operation.effect,react⟩

abbrev programs : Language Db Operation Outside := Program.language Db Operation Outside Error

def Origin.program (definitions : Definitions) : Origin → Prog Unit
  | .message (.executeWorkflowV2 workflow) => executeWorkflowV2 workflow
  | .message (.processNextNode job) => processNextNode definitions job
  | .request asked => asked.program

abbrev Installation := System Origin programs
abbrev Seen := View Db Origin Operation
abbrev Action := Label Outside Environment
abbrev Allowed := Condition Db Origin Operation Outside Environment

/-- Every step is allowed. -/
def anything : Allowed := fun _ _ => True

instance (view : Seen) (label : Action) : Decidable (anything view label) := .isTrue trivial

/-- An installation with templates and nothing else yet. -/
def installed (templates : List WorkflowTemplate) : Installation := ⟨⟨[],[],templates,[],0⟩,[]⟩

/-- A run of the installation whose steps all meet a condition. -/
abbrev Execution (definitions : Definitions) (allowed : Allowed) (first : Installation)
    (events : List (Origin × Operation)) (last : Installation) : Prop :=
  Run machine (Origin.program definitions) allowed first events last

abbrev Schedule := List (Line Outside Environment)

/-- A schedule that can be performed is an execution. -/
theorem schedule_execution (definitions : Definitions) (allowed : Allowed)
    [∀ view label, Decidable (allowed view label)] (templates : List WorkflowTemplate) (schedule : Schedule)
    (found : Installation → Bool)
    (computed : ((installed templates).execute machine (Origin.program definitions) allowed schedule).any found = true) :
    ∃ events last, Execution definitions allowed (installed templates) events last ∧ found last = true :=
  execute_any schedule computed

/-- The same, with a property of the operations that are performed. -/
theorem schedule_recorded (definitions : Definitions) (allowed : Allowed)
    [∀ view label, Decidable (allowed view label)] (templates : List WorkflowTemplate) (schedule : Schedule)
    (found : List (Origin × Operation) × Installation → Bool)
    (computed : ((installed templates).record machine (Origin.program definitions) allowed schedule).any found = true) :
    ∃ events last, Execution definitions allowed (installed templates) events last ∧ found (events,last) = true :=
  record_any schedule computed

/-- A node with user code and a connection between two of them, for schedules on small templates. -/
def codeNode (id : NodeId) : Node := ⟨id,.sourceCode "code",["in"]⟩

def codeConnection (source target : NodeId) : Connection := ⟨source,target,"out","in"⟩

/-- Every definition in storage is one of version 1. -/
def versionOne : Definitions := fun _ _ => .ok 1

/-- An answer of the outside: user code that returns a value and calls nothing. -/
def Outside.returns (value : Json) : Outside := ⟨"worker",[],.ok value⟩

/-- User code that raises an exception. -/
def Outside.raises (message : String) : Outside := ⟨"worker",[],.error (.of message)⟩

/-- A worker takes a queued message and is done with it before anything else happens. -/
def processed (index : Nat) (value : Json) : Schedule :=
  [.take (.move (.deliver index)),.finish 0 (.returns value)]

/-- The template with the user code `t` is launched and opened. -/
def opened : Schedule :=
  [.take (.move (.request (.launch "space.t" (.obj []) 0 none))),.finish 0 (.returns .null)] ++ processed 0 .null

/-- Two nodes in a row. -/
def twoNodes : Graph := ⟨[codeNode "a",codeNode "b"],[codeConnection "a" "b"]⟩

/-- One node before two that run side by side. -/
def fork : Graph where
  nodes := [codeNode "a",codeNode "b",codeNode "c"]
  connections := [codeConnection "a" "b",codeConnection "a" "c"]

end FinmarsWorkflow
