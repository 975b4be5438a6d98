import FinmarsWorkflow.Chain.Halt

/-! The finish times of rows, under all programs of the repository at once.
Every program saves copies of rows that it has loaded, so a row keeps its time with its
status if every copy does. Three programs end a workflow without setting the time, and
three restart a row without clearing it; all others keep the two together. -/
namespace FinmarsWorkflow
open Interleave

def TaskStatus.terminal : TaskStatus → Bool
  | .success | .error | .timeout | .canceled => true
  | .init | .progress | .nestedProgress => false

/-- The finish time is set exactly if the status is a finished one. -/
def Workflow.Timed (row : Workflow) : Prop := row.finishedAt = row.status.terminal

def Task.Timed (row : Task) : Prop := row.finishedAt = row.status.terminal

instance (row : Workflow) : Decidable row.Timed := inferInstanceAs (Decidable (_ = _))

instance (row : Task) : Decidable row.Timed := inferInstanceAs (Decidable (_ = _))

structure Db.Timed (db : Db) : Prop where
  workflows : ∀ row ∈ db.workflows, row.Timed
  tasks : ∀ row ∈ db.tasks, row.Timed

/-- The row that is stored is timed. -/
def Operation.Timed : Operation → Prop
  | .saveWorkflow _ row | .createWorkflow row => row.Timed
  | .saveTask _ row | .createTask row => row.Timed
  | .read | .userCode _ _ | .saveTemplate _ _ | .send _ => True

namespace Timestamps

/-- The loop of `cancel_all_existing_tasks` over the tasks without workflows. -/
def cancelOwn : List (TaskId × Task) → Chain.Chained Unit
  | [] => .pure ()
  | (id,task)::tasks => do
    Chain.perform (.revoke task.celeryTaskId)
    Chain.tenant (saveTask id {task with status := .canceled,finishedAt := true})
    cancelOwn tasks

def cancelEach : List (WorkflowId × Workflow) → Chain.Chained Unit
  | [] => .pure ()
  | (id,row)::rows => do
    Chain.cancel id row
    cancelEach rows

/-- The tasks of a worker in one of the statuses. -/
def workerTasks (statuses : List TaskStatus) (workerName : String) (db : Db) : List (TaskId × Task) :=
  (db.tasks.zipIdx.filter (fun row => statuses.contains row.1.status && row.1.workerName == some workerName)).map
    (fun row => (row.2,row.1))

/-- `cancel_all_existing_tasks` -/
def cancelAllExistingTasks (workerName : String) : Chain.Chained Unit := do
  let tasks ← Chain.tenant (query (workerTasks [.progress,.init] workerName))
  let ids := tasks.map (fun row => row.2.workflow)
  let workflows ← Chain.tenant (query fun db => (db.workflows.zipIdx.filter (fun row =>
    (row.1.status == .progress || row.1.status == .init) && ids.contains row.2)).map (fun row => (row.2,row.1)))
  cancelEach workflows
  let tasks ← Chain.tenant (query (workerTasks [.progress,.init,.nestedProgress] workerName))
  cancelOwn tasks

inductive Origin where
  /-- a message or a request of version 2, or a request of both versions -/
  | engine (origin : FinmarsWorkflow.Origin)
  /-- a message of a chain, or a cancel that revokes -/
  | chain (origin : Chain.Origin)
  /-- a launch of a version-1 definition -/
  | launch (userCode : String) (payload : Json) (space : SpaceId) (platformTaskId : Option Int) (manifest : Chain.Manifest)
  | cancelAllExistingTasks (workerName : String)

def Origin.program (definitions : Definitions) (registered : String → Bool) : Origin → Chain.Chained Unit
  | .engine origin => Chain.tenant (origin.program definitions)
  | .chain origin => origin.program definitions registered
  | .launch userCode payload space platformTaskId manifest =>
    (Chain.executeWorkflow userCode payload space platformTaskId manifest).attempt
  | .cancelAllExistingTasks workerName => (Timestamps.cancelAllExistingTasks workerName).attempt

inductive Environment where
  /-- some program is started: a message is delivered, also once more, or a request is made -/
  | call (origin : Origin)
  /-- the process of a thread is lost -/
  | lose (index : Nat)

def react : Environment → Chain.Broker → List Origin → Option (Chain.Broker × Turn Origin)
  | .call origin,broker,_ => some (broker,.spawn origin)
  | .lose index,broker,_ => some (broker,.drop index)

def machine : Machine Chain.Broker Chain.Work Origin Environment := ⟨Chain.Work.effect,react⟩

abbrev programs : Language Chain.Broker Chain.Work Outside := Program.language Chain.Broker Chain.Work Outside Error
abbrev Seen := View Chain.Broker Origin Chain.Work
abbrev Action := Label Outside Environment
abbrev Allowed := Condition Chain.Broker Origin Chain.Work Outside Environment

/-- Templates, and no workflow or task yet. -/
def installed (templates : List WorkflowTemplate) : System Origin programs := ⟨⟨⟨[],[],templates,[],0⟩,[],[],[]⟩,[]⟩

abbrev Execution (definitions : Definitions) (registered : String → Bool) (allowed : Allowed)
    (first : System Origin programs) (events : List (Origin × Chain.Work)) (last : System Origin programs) : Prop :=
  Run machine (Origin.program definitions registered) allowed first events last

/-- What a worker around a task may do wrong: `before_start` restarts a task that has
finished, and `on_failure` gives a workflow that has not finished a status, but no time. -/
def WorkerSlips : Operation → Bool
  | .saveTask _ row => (row.status == .progress || row.status == .nestedProgress) && row.finishedAt
  | .saveWorkflow _ row => (row.status == .error || row.status == .timeout) && !row.finishedAt
  | _ => false

def Restarts : Operation → Bool
  | .saveWorkflow _ row => row.finishedAt
  | _ => false

def EndsUntimed : Operation → Bool
  | .saveWorkflow _ row => !row.finishedAt
  | _ => false

/-- The branches that part the time from the status. -/
def Slips : Origin → Operation → Bool
  -- `execute_workflow_v2` opens a workflow that has finished
  | .engine (.message (.executeWorkflowV2 _)) => Restarts
  | .engine (.message (.processNextNode _)) => WorkerSlips
  -- `Workflow.cancel` ends a workflow that has not finished
  | .engine (.request (.cancel _)) | .chain (.cancel _) | .cancelAllExistingTasks _ => EndsUntimed
  | .chain (.message (.member delivery)) => match delivery.piece with
    -- `start` opens a workflow that has finished, and `end` ends one that has not
    | .start => Restarts
    | .finish => EndsUntimed
    | .step _ | .part _ _ => WorkerSlips
  -- a chain that Celery refuses ends its workflow
  | .launch _ _ _ _ _ => EndsUntimed
  | _ => fun _ => false

/-- The step that a label takes does not go wrong. -/
def careful : Allowed := fun view label => match label with
  | .advance index _ => match view.threads[index]? with
    | some (origin,some (.tenant operation)) => Slips origin operation = false
    | _ => True
  | _ => True

instance (view : Seen) (label : Action) : Decidable (careful view label) := by
  unfold careful
  split
  · split <;> infer_instance
  · infer_instance

section rows
variable {db : Db} {workflow : Workflow} {task : Task} {id : Nat}

theorem getWorkflow_timed (timed : db.Timed) (found : db.getWorkflow id = .ok workflow) : workflow.Timed := by
  unfold Db.getWorkflow at found
  split at found
  next row stored =>
    cases found
    exact timed.workflows _ (List.mem_of_getElem? stored)
  next => cases found

theorem getTask_timed (timed : db.Timed) (found : db.getTask id = .ok task) : task.Timed := by
  unfold Db.getTask at found
  split at found
  next row stored =>
    cases found
    exact timed.tasks _ (List.mem_of_getElem? stored)
  next => cases found

private theorem forall_set {α : Type} {P : α → Prop} {rows : List α} {row : α} (position : Nat)
    (all : ∀ other ∈ rows, P other) (new : P row) : ∀ other ∈ rows.set position row, P other := by
  intro other member
  rcases List.mem_or_eq_of_mem_set member with inside | same
  · exact all other inside
  · rw [same]
    exact new

theorem effect_timed {operation : Operation} (timed : db.Timed) (stores : operation.Timed) : (operation.effect db).Timed := by
  obtain ⟨workflows,tasks⟩ := timed
  cases operation with
  | read | userCode | saveTemplate | send => exact ⟨workflows,tasks⟩
  | saveWorkflow position row => exact ⟨forall_set position workflows stores,tasks⟩
  | saveTask position row => exact ⟨workflows,forall_set position tasks stores⟩
  | createWorkflow row => exact ⟨List.forall_mem_append.mpr ⟨workflows,List.forall_mem_singleton.mpr stores⟩,tasks⟩
  | createTask row => exact ⟨workflows,List.forall_mem_append.mpr ⟨tasks,List.forall_mem_singleton.mpr stores⟩⟩

theorem completed_timed (workflow : Workflow) (nodeId : Option NodeId) (retval : Json) :
    (workflow.completed nodeId retval).Timed := rfl

theorem succeeded_timed (task : Task) (retval : Json) : (task.succeeded retval).Timed := rfl

theorem failed_timed (task : Task) (error : Error) : (task.failed error).Timed := by
  unfold Task.Timed Task.failed Error.taskStatus
  split <;> rfl

end rows

section tenants
variable {may : Operation → Prop}

/-- What a program loads is timed, and what it does with it may be done. -/
theorem fetch_timed {α β : Type} {ask : Db → Except Error α} {next : α → Prog β} {Good : α → Prop} (read : may .read)
    (good : ∀ db found, db.Timed → ask db = .ok found → Good found)
    (rest : ∀ found, Good found → (next found).Ensures Db.Timed may (fun _ => True)) :
    ((fetch ask).bind next).Ensures Db.Timed may (fun _ => True) := by
  refine ⟨read,fun db outside timed => ?_⟩
  dsimp only
  cases found : ask db with
  | error error => trivial
  | ok value => exact rest value (good db value timed found)

theorem fetch_any {α β : Type} {ask : Db → Except Error α} {next : α → Prog β} (read : may .read)
    (rest : ∀ found, (next found).Ensures Db.Timed may (fun _ => True)) :
    ((fetch ask).bind next).Ensures Db.Timed may (fun _ => True) :=
  fetch_timed read (fun _ _ _ _ => trivial) (fun found _ => rest found)

theorem lift_any {α β : Type} {result : Except Error α} {next : α → Prog β}
    (rest : ∀ found, (next found).Ensures Db.Timed may (fun _ => True)) :
    ((Program.lift result).bind next).Ensures Db.Timed may (fun _ => True) := by
  cases result with
  | error error => trivial
  | ok value => exact rest value

/-- What a worker does around a task. -/
def Works (operation : Operation) : Prop := operation.Timed ∨ WorkerSlips operation = true

theorem works_read : Works .read := .inl trivial

/-- A task that a worker runs on is saved with a status to come. -/
theorem works_saveTask (id : TaskId) {task : Task} (runs : task.status = .progress ∨ task.status = .nestedProgress) :
    Works (.saveTask id task) := by
  have open_ : task.status.terminal = false := by
    rcases runs with same | same <;> rw [same] <;> rfl
  cases time : task.finishedAt with
  | false => exact .inl (time.trans open_.symm)
  | true =>
    refine .inr ?_
    rcases runs with same | same <;> simp [WorkerSlips,same,time]

theorem works_fail (id : WorkflowId) {row : Workflow} (failed : row.status = .error ∨ row.status = .timeout) :
    Works (.saveWorkflow id row) := by
  have ended : row.status.terminal = true := by
    rcases failed with same | same <;> rw [same] <;> rfl
  cases time : row.finishedAt with
  | true => exact .inl (time.trans ended.symm)
  | false =>
    refine .inr ?_
    rcases failed with same | same <;> simp [WorkerSlips,same,time]

theorem performCalls_timed (id : TaskId) {task : Task} (runs : task.status = .progress) (calls : List Call) :
    (performCalls id task calls).Ensures Db.Timed Works (fun _ => True) := by
  induction calls generalizing task with
  | nil => trivial
  | cons call rest ih =>
    cases call with
    | log message => exact ⟨works_saveTask id (.inl runs),fun _ _ _ => ih runs⟩
    | updateProgress progress =>
      apply fetch_timed works_read (fun db row timed found => getTask_timed timed found)
      intro row timed
      exact ⟨.inl timed,fun _ _ _ => ih runs⟩

theorem userCode_timed (id : TaskId) {task : Task} (runs : task.status = .progress) (kwargs : Kwargs) :
    (userCode id task kwargs).Ensures Db.Timed Works (fun _ => True) := by
  refine ⟨.inl trivial,fun s b _ => ?_⟩
  apply (performCalls_timed id runs b.calls).andThen
  intro _
  exact .lift trivial

theorem executeWorkflowStep_timed (definitions : Definitions) (id : TaskId) {task : Task} (runs : task.status = .progress)
    (kwargs : Kwargs) : (executeWorkflowStep definitions id task kwargs).Ensures Db.Timed Works (fun _ => True) := by
  apply fetch_any works_read
  intro workflow
  split
  · exact userCode_timed id runs kwargs
  · apply lift_any
    intro version
    split
    · apply fetch_any works_read
      intro template
      exact ⟨.inl rfl,fun _ _ _ => ⟨.inl trivial,fun _ _ _ => ⟨works_saveTask id (.inr rfl),fun _ _ _ => trivial⟩⟩⟩
    · exact userCode_timed id runs kwargs

/-- `before_start` and the step after it. -/
theorem step_timed (definitions : Definitions) (celery : CeleryId) (kwargs : Kwargs) :
    ((beforeStart celery).bind fun found => executeWorkflowStep definitions found.1 found.2 kwargs).Ensures Db.Timed Works
      (fun _ => True) := by
  have started : (beforeStart celery).Ensures Db.Timed Works (fun result => ∀ found, result = .ok found →
      found.2.status = .progress) := by
    refine ⟨works_read,fun db outside _ => ?_⟩
    dsimp only
    cases db.taskByCeleryId celery with
    | error error =>
      intro found same
      cases same
    | ok row =>
      refine ⟨works_saveTask row.1 (.inl rfl),fun _ _ _ found same => ?_⟩
      cases same
      rfl
  apply started.bind
  · intro found runs
    exact executeWorkflowStep_timed definitions _ (runs found rfl) kwargs
  · exact fun _ _ => trivial

theorem dispatch_timed (may : Operation → Prop) (send : ∀ message, may (.send message)) (messages : List Message) :
    (dispatch messages).Ensures Db.Timed may (fun _ => True) := by
  induction messages with
  | nil => trivial
  | cons message rest ih => exact ⟨send message,fun _ _ _ => ih⟩

theorem handleTaskSuccess_timed (depth : Nat) (id : TaskId) (task : Task) (retval : Json) :
    (handleTaskSuccess depth id task retval).Ensures Db.Timed Works (fun _ => True) := by
  induction depth generalizing id task with
  | zero => trivial
  | succ depth ih =>
    unfold handleTaskSuccess
    split
    · trivial
    · refine ⟨.inl (succeeded_timed task retval),fun _ _ _ => ?_⟩
      apply fetch_any works_read
      intro workflow
      split
      · trivial
      · apply fetch_any works_read
        intro graph
        apply lift_any
        intro next
        split
        · refine ⟨.inl (completed_timed workflow _ retval),fun _ _ _ => ?_⟩
          cases workflow.parent with
          | none => trivial
          | some parent =>
            apply fetch_any works_read
            intro above
            exact ih _ _
        · exact dispatch_timed Works (fun _ => .inl trivial) _

theorem onSuccess_timed (celery : CeleryId) (retval : Json) :
    (onSuccess celery retval).Ensures Db.Timed Works (fun _ => True) := by
  apply fetch_any works_read
  intro found
  exact handleTaskSuccess_timed _ _ _ _

theorem failTask_timed (depth : Nat) (id : TaskId) (task : Task) (error : Error) :
    (failTask depth id task error).Ensures Db.Timed Works (fun _ => True) := by
  induction depth generalizing id task with
  | zero => trivial
  | succ depth ih =>
    have failed : error.workflowStatus = .error ∨ error.workflowStatus = .timeout := by
      unfold Error.workflowStatus
      split
      · exact .inr rfl
      · exact .inl rfl
    apply fetch_any works_read
    intro workflow
    refine ⟨.inl (failed_timed task error),fun _ _ _ => ⟨works_fail _ failed,fun _ _ _ => ?_⟩⟩
    apply fetch_any works_read
    intro row
    cases row.parent with
    | none => trivial
    | some parent =>
      apply fetch_any works_read
      intro found
      apply fetch_any works_read
      intro above
      exact ih _ _

theorem onFailure_timed (celery : CeleryId) (error : Error) :
    (onFailure celery error).Ensures Db.Timed Works (fun _ => True) := by
  apply fetch_any works_read
  intro found
  exact failTask_timed _ _ _ _

theorem query_any {α β : Type} {ask : Db → α} {next : α → Prog β} (read : may .read)
    (rest : ∀ found, (next found).Ensures Db.Timed may (fun _ => True)) :
    ((query ask).bind next).Ensures Db.Timed may (fun _ => True) :=
  ⟨read,fun db _ _ => rest (ask db)⟩

theorem applyStep_timed (definitions : Definitions) (celery : CeleryId) (kwargs : Kwargs) :
    (applyStep definitions celery kwargs).Ensures Db.Timed Works (fun _ => True) := by
  apply (Program.Ensures.outcome (step_timed definitions celery kwargs) (fun _ _ => trivial)).andThen
  intro result
  cases result with
  | error error => exact Program.Ensures.attempt (onFailure_timed celery error)
  | ok retval =>
    apply (Program.Ensures.outcome (onSuccess_timed celery retval) (fun _ _ => trivial)).andThen
    intro ended
    cases ended with
    | ok => trivial
    | error error =>
      apply (Program.Ensures.attempt (onFailure_timed celery error)).andThen
      exact fun _ => trivial

theorem areInputsReady_timed (workflow : WorkflowId) (inputs : List NodeId) :
    (areInputsReady workflow inputs).Ensures Db.Timed Works (fun _ => True) := by
  induction inputs with
  | nil => trivial
  | cons input rest ih =>
    apply query_any works_read
    intro ready
    split
    · exact ih
    · trivial

theorem admitted_timed (definitions : Definitions) (job : Job) (row : Workflow) (node : Node) :
    (do
      let output ← previousOutput job node
      let payload ← nodePayload job row node
      let celery ← createTask (newTask job.workflow row node payload)
      applyStep definitions celery ⟨payload,output⟩ : Prog Unit).Ensures Db.Timed Works (fun _ => True) := by
  have output : (previousOutput job node).Ensures Db.Timed Works (fun _ => True) := by
    unfold previousOutput
    split
    · trivial
    · exact ⟨works_read,fun _ _ _ => trivial⟩
  have payload : (nodePayload job row node).Ensures Db.Timed Works (fun _ => True) := by
    unfold nodePayload
    split
    · trivial
    · exact ⟨works_read,fun _ _ _ => trivial⟩
  apply output.andThen
  intro previous
  apply payload.andThen
  intro given
  exact ⟨.inl rfl,fun _ _ _ => applyStep_timed definitions _ _⟩

theorem processNextNode_timed (definitions : Definitions) (job : Job) :
    (processNextNode definitions job).Ensures Db.Timed Works (fun _ => True) := by
  apply Program.Ensures.attempt
  apply fetch_timed works_read (fun db row timed found => getWorkflow_timed timed found)
  intro row timed
  cases job.graph.node? job.currentNodeId with
  | none => trivial
  | some node =>
    dsimp only
    split
    · exact ⟨.inl timed,fun _ _ _ => trivial⟩
    · apply (areInputsReady_timed job.workflow _).andThen
      intro ready
      split
      · exact admitted_timed definitions job row node
      · trivial

theorem executeWorkflowV2_timed (workflow : WorkflowId) :
    (executeWorkflowV2 workflow).Ensures Db.Timed (fun operation => operation.Timed ∨ Restarts operation = true)
      (fun _ => True) := by
  apply Program.Ensures.attempt
  apply fetch_any (.inl trivial)
  intro row
  refine ⟨?_,fun _ _ _ => ?_⟩
  · cases time : row.finishedAt with
    | false => exact .inl rfl
    | true => exact .inr rfl
  · apply fetch_any (.inl trivial)
    intro graph
    apply lift_any
    intro adjacencyList
    exact dispatch_timed _ (fun _ => .inl trivial) _

theorem launch_timed (userCode : String) (payload : Json) (space : SpaceId) (platformTaskId : Option Int) :
    (executeWorkflow userCode payload space platformTaskId).Ensures Db.Timed Operation.Timed (fun _ => True) := by
  apply query_any trivial
  intro template
  exact ⟨rfl,fun _ _ _ => ⟨trivial,fun _ _ _ => trivial⟩⟩

theorem pauseWorkflow_timed (id : WorkflowId) : (pauseWorkflow id).Ensures Db.Timed Operation.Timed (fun _ => True) := by
  apply fetch_timed trivial (fun db row timed found => getWorkflow_timed timed found)
  intro row timed
  split
  next runs =>
    have untimed : row.finishedAt = false := timed.trans (by rw [runs]; rfl)
    exact ⟨untimed,fun _ _ _ => trivial⟩
  next => trivial

theorem resumeWorkflow_timed (id : WorkflowId) (payload : Option Json) :
    (resumeWorkflow id payload).Ensures Db.Timed Operation.Timed (fun _ => True) := by
  apply fetch_timed trivial (fun db row timed found => getWorkflow_timed timed found)
  intro row timed
  split
  next waits =>
    have untimed : row.finishedAt = false := timed.trans (by rw [waits]; rfl)
    apply query_any trivial
    intro active
    split
    · trivial
    · refine ⟨untimed,fun _ _ _ => ?_⟩
      split
      · trivial
      · apply fetch_any trivial
        intro graph
        apply lift_any
        intro adjacencyList
        exact ⟨trivial,fun _ _ _ => trivial⟩
  next => trivial

/-- What a cancel does. -/
def Cancels (operation : Operation) : Prop := operation.Timed ∨ EndsUntimed operation = true

theorem cancels_saveWorkflow (id : WorkflowId) (row : Workflow) : Cancels (.saveWorkflow id {row with status := .canceled}) := by
  cases time : row.finishedAt with
  | true => exact .inl rfl
  | false => exact .inr rfl

theorem cancelWorkflow_timed (id : WorkflowId) : (cancelWorkflow id).Ensures Db.Timed Cancels (fun _ => True) := by
  have tasks (entries : List (TaskId × Task)) : (cancelTasks entries).Ensures Db.Timed Cancels (fun _ => True) := by
    induction entries with
    | nil => trivial
    | cons entry rest ih =>
      unfold cancelTasks
      split
      · exact ⟨.inl rfl,fun _ _ _ => ih⟩
      · exact ih
  apply fetch_any (.inl trivial)
  intro row
  split
  · trivial
  · apply query_any (.inl trivial)
    intro entries
    apply (tasks entries).andThen
    intro _
    exact ⟨cancels_saveWorkflow id row,fun _ _ _ => trivial⟩

end tenants

section chains
variable {origin : Origin}

/-- What the programs of an origin may do to the schema. -/
def May (origin : Origin) : Chain.Work → Prop
  | .tenant operation => operation.Timed ∨ Slips origin operation = true
  | _ => True

/-- The schema that a broker finds is timed. -/
def Relies (broker : Chain.Broker) : Prop := broker.db.Timed

abbrev Chained (origin : Origin) {α : Type} (program : Chain.Chained α) : Prop :=
  program.Ensures Relies (May origin) (fun _ => True)

theorem tenant_chained {α : Type} {may : Operation → Prop} {program : Prog α}
    (ensures : program.Ensures Db.Timed may (fun _ => True))
    (allows : ∀ operation, may operation → operation.Timed ∨ Slips origin operation = true) :
    Chained origin (Chain.tenant program) :=
  ensures.within (fun _ relies => relies) allows

theorem tenant_timed {α : Type} {program : Prog α} (ensures : program.Ensures Db.Timed Operation.Timed (fun _ => True)) :
    Chained origin (Chain.tenant program) :=
  tenant_chained ensures (fun _ timed => .inl timed)

theorem read_timed {α : Type} (ask : Db → α) : Chained origin (Chain.tenant (query ask)) :=
  ⟨.inl trivial,fun _ _ _ => trivial⟩

theorem fetched_timed {α : Type} (ask : Db → Except Error α) : Chained origin (Chain.tenant (fetch ask)) := by
  refine ⟨.inl trivial,fun broker _ _ => ?_⟩
  dsimp only
  cases ask broker.db <;> trivial

theorem perform_chained (work : Chain.Work) (may : May origin work) : Chained origin (Chain.perform work) :=
  ⟨may,fun _ _ _ => trivial⟩

theorem startWorkflow_timed (workflow : WorkflowId) : (Chain.startWorkflow workflow).Ensures Db.Timed
    (fun operation => operation.Timed ∨ Restarts operation = true) (fun _ => True) := by
  apply fetch_any (.inl trivial)
  intro row
  refine ⟨?_,fun _ _ _ => trivial⟩
  cases time : row.finishedAt with
  | false => exact .inl rfl
  | true => exact .inr rfl

theorem endWorkflow_timed (workflow : WorkflowId) : (Chain.endWorkflow workflow).Ensures Db.Timed Cancels (fun _ => True) := by
  apply fetch_any (.inl trivial)
  intro row
  split
  · refine ⟨?_,fun _ _ _ => trivial⟩
    cases time : row.finishedAt with
    | false => exact .inr rfl
    | true => exact .inl rfl
  · trivial

theorem runBound_chained {delivery : Chain.Delivery} {body : Prog Unit} (fine : Chained origin (Chain.tenant body)) :
    Chained origin (Chain.runBound delivery body) := by
  apply (Program.Ensures.outcome fine (fun _ _ => trivial)).andThen
  intro result
  cases result with
  | ok => exact perform_chained (.complete delivery) trivial
  | error error => exact perform_chained (.errback delivery.plan) trivial

theorem runStep_chained (definitions : Definitions) (delivery : Chain.Delivery) (celery : CeleryId)
    (works : ∀ operation, Works operation → operation.Timed ∨ Slips origin operation = true) :
    Chained origin (Chain.runStep definitions delivery celery) := by
  have failure (error : Error) : Chained origin (Chain.tenant (onFailure celery error).attempt) :=
    tenant_chained (Program.Ensures.attempt (onFailure_timed celery error)) works
  have body : Chained origin (Chain.tenant (Chain.stepBody definitions delivery.plan.payload celery)) :=
    tenant_chained (step_timed definitions celery _) works
  apply (Program.Ensures.outcome body (fun _ _ => trivial)).andThen
  intro result
  cases result with
  | error error =>
    apply (perform_chained (.errback delivery.plan) trivial).andThen
    exact fun _ => failure error
  | ok retval =>
    apply (perform_chained (.complete delivery) trivial).andThen
    intro _
    have success : Chained origin (Chain.tenant (onSuccess celery retval)) :=
      tenant_chained (onSuccess_timed celery retval) works
    apply (Program.Ensures.outcome success (fun _ _ => trivial)).andThen
    intro ended
    cases ended with
    | ok => trivial
    | error error => exact failure error

theorem runMember_chained (definitions : Definitions) (delivery : Chain.Delivery) :
    Chained (.chain (.message (.member delivery))) (Chain.runMember definitions delivery) := by
  obtain ⟨plan,piece,rest⟩ := delivery
  cases piece with
  | start => exact runBound_chained (tenant_chained (startWorkflow_timed plan.workflow) (fun _ may => may))
  | finish => exact runBound_chained (tenant_chained (endWorkflow_timed plan.workflow) (fun _ may => may))
  | step celery => exact runStep_chained definitions _ celery (fun _ may => may)
  | part celery chord => exact runStep_chained definitions _ celery (fun _ may => may)

theorem cancelTasks_chained (tasks : List (TaskId × Task)) : Chained origin (Chain.cancelTasks tasks) := by
  induction tasks with
  | nil => trivial
  | cons entry rest ih =>
    unfold Chain.cancelTasks
    split
    · exact ⟨trivial,fun _ _ _ => ⟨.inl rfl,fun _ _ _ => ih⟩⟩
    · exact ih

theorem cancel_chained (cancels : ∀ operation, Cancels operation → operation.Timed ∨ Slips origin operation = true)
    (id : WorkflowId) (row : Workflow) : Chained origin (Chain.cancel id row) := by
  apply (read_timed (·.tasksOf id)).andThen
  intro tasks
  apply (cancelTasks_chained tasks).andThen
  intro _
  exact ⟨cancels _ (cancels_saveWorkflow id row),fun _ _ _ => trivial⟩

theorem cancelWorkflow_chained (workflow : WorkflowId) :
    Chained (.chain (.cancel workflow)) (Chain.cancelWorkflow workflow) := by
  apply (fetched_timed (·.getWorkflow workflow)).andThen
  intro row
  split
  · trivial
  · have cancels : ∀ operation, Cancels operation →
        operation.Timed ∨ Slips (.chain (.cancel workflow)) operation = true := fun _ may => may
    exact cancel_chained cancels workflow row

theorem failureHooksLauncher_chained (registered : String → Bool) (workflow : WorkflowId) (tasksNames : List Chain.Entry)
    (context : Option SpaceId) : Chained origin (Chain.failureHooksLauncher registered workflow tasksNames context) := by
  cases context with
  | none => trivial
  | some space =>
    cases tasksNames with
    | nil => exact ⟨trivial,fun _ _ _ => ⟨trivial,fun _ _ _ => trivial⟩⟩
    | cons hook rest =>
      obtain ⟨error,raises⟩ := Chain.launchHooks_raises registered workflow hook rest
      unfold Chain.failureHooksLauncher
      rw [raises]
      trivial

theorem markAsCanceledInitTasks_chained (workflow : WorkflowId) (context : Option SpaceId) :
    Chained origin (Chain.markAsCanceledInitTasks workflow context) := by
  have marks (tasks : List (TaskId × Task)) :
      (Chain.markAsCanceled tasks).Ensures Db.Timed Operation.Timed (fun _ => True) := by
    induction tasks with
    | nil => trivial
    | cons entry rest ih =>
      unfold Chain.markAsCanceled
      split
      · exact ⟨rfl,fun _ _ _ => ih⟩
      · exact ih
  cases context with
  | none => trivial
  | some space =>
    apply (read_timed (·.tasksOf workflow)).andThen
    intro tasks
    exact tenant_timed (marks tasks)

theorem chain_chained (definitions : Definitions) (registered : String → Bool) (chain : Chain.Origin) :
    Chained (.chain chain) (chain.program definitions registered) := by
  cases chain with
  | cancel workflow => exact Program.Ensures.attempt (cancelWorkflow_chained workflow)
  | message message =>
    cases message with
    | member delivery => exact runMember_chained definitions delivery
    | failureHooksLauncher workflow tasksNames payload context =>
      exact Program.Ensures.attempt (failureHooksLauncher_chained registered workflow tasksNames context)
    | hooks signatures => exact ⟨.inl trivial,fun _ _ _ => Program.Ensures.attempt (.lift trivial)⟩
    | markAsCanceledInitTasks workflow context =>
      exact Program.Ensures.attempt (markAsCanceledInitTasks_chained workflow context)

theorem newTask_chained (workflow : WorkflowId) (row : Workflow) (name : String) :
    Chained origin (Chain.newTask workflow row name) := ⟨.inl rfl,fun _ _ _ => trivial⟩

theorem newTasks_chained (workflow : WorkflowId) (row : Workflow) (names : List String) :
    Chained origin (Chain.newTasks workflow row names) := by
  induction names with
  | nil => trivial
  | cons name rest ih =>
    apply (newTask_chained workflow row name).andThen
    intro celery
    apply ih.andThen
    exact fun _ => trivial

theorem parseFlatTasks_chained (workflow : WorkflowId) (row : Workflow) (tasks : List Chain.Entry) :
    Chained origin (Chain.parseFlatTasks workflow row tasks) := by
  induction tasks with
  | nil => trivial
  | cons entry rest ih =>
    cases entry with
    | single name =>
      apply (newTask_chained workflow row name).andThen
      intro celery
      apply ih.andThen
      exact fun _ => trivial
    | group names =>
      apply (newTasks_chained workflow row names).andThen
      intro celeries
      apply ih.andThen
      exact fun _ => trivial
    | other => trivial

theorem build_chained (workflow : WorkflowId) (row : Workflow) (manifest : Chain.Manifest) :
    Chained origin (Chain.build workflow row manifest) := by
  apply (parseFlatTasks_chained workflow row manifest.tasks).andThen
  intro canvas
  apply (parseFlatTasks_chained workflow row _).andThen
  exact fun _ => trivial

/-- The row is new when the chain is refused. -/
theorem run_chained (cancels : ∀ operation, Cancels operation → operation.Timed ∨ Slips origin operation = true)
    (workflow : WorkflowId) (row : Workflow) (manifest : Chain.Manifest) (canvas : List Chain.Member) :
    Chained origin (Chain.run workflow row manifest canvas) := by
  apply (parseFlatTasks_chained workflow row _).andThen
  intro link
  refine ⟨.inl trivial,fun _ outside _ => ?_⟩
  dsimp only
  cases outside.outcome with
  | ok retval => exact perform_chained (.post _ _) trivial
  | error error =>
    refine ⟨cancels _ ?_,fun _ _ _ => trivial⟩
    cases time : row.finishedAt with
    | true => exact .inl rfl
    | false => exact .inr rfl

theorem executeWorkflow_chained (userCode : String) (payload : Json) (space : SpaceId) (platformTaskId : Option Int)
    (manifest : Chain.Manifest) : Chained (.launch userCode payload space platformTaskId manifest)
      (Chain.executeWorkflow userCode payload space platformTaskId manifest) := by
  refine ⟨.inl trivial,fun _ _ _ => ⟨.inl rfl,fun _ _ _ => ?_⟩⟩
  apply (fetched_timed (·.getWorkflow _)).andThen
  intro row
  apply (build_chained _ row manifest).andThen
  intro canvas
  have cancels : ∀ operation, Cancels operation →
      operation.Timed ∨ Slips (.launch userCode payload space platformTaskId manifest) operation = true := fun _ may => may
  exact run_chained cancels _ row manifest canvas

theorem cancelAllExistingTasks_chained (workerName : String) :
    Chained (.cancelAllExistingTasks workerName) (Timestamps.cancelAllExistingTasks workerName) := by
  have own (tasks : List (TaskId × Task)) : Chained (.cancelAllExistingTasks workerName) (cancelOwn tasks) := by
    induction tasks with
    | nil => trivial
    | cons entry rest ih => exact ⟨trivial,fun _ _ _ => ⟨.inl rfl,fun _ _ _ => ih⟩⟩
  have each (rows : List (WorkflowId × Workflow)) : Chained (.cancelAllExistingTasks workerName) (cancelEach rows) := by
    induction rows with
    | nil => trivial
    | cons entry rest ih =>
      have cancels : ∀ operation, Cancels operation →
          operation.Timed ∨ Slips (.cancelAllExistingTasks workerName) operation = true := fun _ may => may
      apply (cancel_chained cancels entry.1 entry.2).andThen
      exact fun _ => ih
  apply (read_timed _).andThen
  intro tasks
  apply (read_timed _).andThen
  intro workflows
  apply (each workflows).andThen
  intro _
  apply (read_timed _).andThen
  intro others
  exact own others

theorem engine_chained (definitions : Definitions) (engine : FinmarsWorkflow.Origin) :
    Chained (.engine engine) (Chain.tenant (engine.program definitions)) := by
  cases engine with
  | message message =>
    cases message with
    | executeWorkflowV2 workflow => exact tenant_chained (executeWorkflowV2_timed workflow) (fun _ may => may)
    | processNextNode job => exact tenant_chained (processNextNode_timed definitions job) (fun _ may => may)
  | request request =>
    cases request with
    | launch userCode payload space platformTaskId =>
      exact tenant_timed (Program.Ensures.attempt (launch_timed userCode payload space platformTaskId))
    | pause workflow =>
      exact tenant_timed (Program.Ensures.attempt ((pauseWorkflow_timed workflow).mono (fun _ relies => relies)
        (fun _ may => may) (fun _ _ => trivial)))
    | resume workflow payload => exact tenant_timed (Program.Ensures.attempt (resumeWorkflow_timed workflow payload))
    | cancel workflow =>
      exact tenant_chained (Program.Ensures.attempt (cancelWorkflow_timed workflow)) (fun _ may => may)
    | updateTemplate template data => exact ⟨.inl trivial,fun _ _ _ => trivial⟩

theorem program_chained (definitions : Definitions) (registered : String → Bool) (origin : Origin) :
    Chained origin (origin.program definitions registered) := by
  cases origin with
  | engine engine => exact engine_chained definitions engine
  | chain chain => exact chain_chained definitions registered chain
  | launch userCode payload space platformTaskId manifest =>
    exact Program.Ensures.attempt (executeWorkflow_chained userCode payload space platformTaskId manifest)
  | cancelAllExistingTasks workerName => exact Program.Ensures.attempt (cancelAllExistingTasks_chained workerName)

end chains

/-- What Celery does changes nothing in the schema. -/
theorem work_relies {broker : Chain.Broker} {work : Chain.Work} (relies : Relies broker)
    (stores : ∀ operation, work = .tenant operation → operation.Timed) : Relies (work.effect broker) := by
  unfold Relies
  cases work with
  | tenant operation => exact effect_timed relies (stores operation rfl)
  | revoke => exact relies
  | post plan members =>
    rw [Chain.Work.effect,(Chain.post_kept _ _ _).1]
    exact relies
  | complete delivery =>
    rw [Chain.Work.effect,(Chain.complete_kept _ _).1]
    exact relies
  | errback plan =>
    rw [Chain.Work.effect,Chain.Broker.errback]
    split <;> exact relies
  | send => exact relies

theorem react_relies {environment : Environment} {broker after : Chain.Broker} {origins : List Origin} {turn : Turn Origin}
    (relies : Relies broker) (reacts : react environment broker origins = some (after,turn)) : Relies after := by
  cases environment with
  | call => cases reacts; exact relies
  | lose => cases reacts; exact relies

/-- In every run whose steps are careful, a workflow and a task have a finish time
exactly if their status is a finished one. -/
theorem finish_times_track (definitions : Definitions) (registered : String → Bool) (templates : List WorkflowTemplate)
    (events : List (Origin × Chain.Work)) (last : System Origin programs)
    (run : Execution definitions registered careful (installed templates) events last) :
    (∀ row ∈ last.shared.db.workflows, row.finishedAt = true ↔ row.status.terminal = true) ∧
      ∀ row ∈ last.shared.db.tasks, row.finishedAt = true ↔ row.status.terminal = true := by
  have timed : Relies last.shared := by
    refine run.relies (program_chained definitions registered) ?_ ?_ rfl
      ⟨fun _ member => absurd member List.not_mem_nil,fun _ member => absurd member List.not_mem_nil⟩
    · intro view index answer origin work relies allowed seen may
      apply work_relies relies
      intro operation same
      subst same
      simp only [careful,seen] at allowed
      exact may.resolve_right (by rw [allowed]; exact Bool.false_ne_true)
    · intro view environment after turn relies _ reacts
      exact react_relies relies reacts
  refine ⟨fun row member => ?_,fun row member => ?_⟩
  · rw [timed.workflows row member]
  · rw [timed.tasks row member]

/-- The message of the only node of the template. -/
def onlyNode : Job := ⟨"a",0,⟨[codeNode "a"],[]⟩⟩

/-- A template of one node is launched and opened, and its node is processed. -/
def oneNode (outside : Outside) : List (Line Outside Environment) :=
  [.take (.move (.call (.engine (.request (.launch "space.t" (.obj []) 0 none))))),.finish 0 outside,
    .take (.move (.call (.engine (.message (.executeWorkflowV2 0))))),.finish 0 outside,
    .take (.move (.call (.engine (.message (.processNextNode onlyNode))))),.finish 0 outside]

theorem finish_times_track_success : ∃ events last,
    Execution versionOne (fun _ => false) careful (installed [⟨"t",0,onlyNode.graph⟩]) events last ∧
    last.shared.db.workflows.map Workflow.status = [.success] ∧
    (∀ row ∈ last.shared.db.workflows, row.finishedAt = true ↔ row.status.terminal = true) ∧
    ∀ row ∈ last.shared.db.tasks, row.finishedAt = true ↔ row.status.terminal = true := by
  have computed : ((installed [⟨"t",0,onlyNode.graph⟩]).execute machine (Origin.program versionOne (fun _ => false)) careful
      (oneNode (.returns .null))).any (fun S => decide (S.shared.db.workflows.map Workflow.status = [.success])) = true := by
    decide
  obtain ⟨events,last,run,reached⟩ := execute_any (oneNode (.returns .null)) computed
  exact ⟨events,last,run,of_decide_eq_true reached,finish_times_track versionOne (fun _ => false) _ events last run⟩

/-- Every step is allowed. -/
def anything : Allowed := fun _ _ => True

instance (view : Seen) (label : Action) : Decidable (anything view label) := .isTrue trivial

/-- The code of the node fails: the workflow is in error, and has no finish time. -/
theorem failure_sets_no_time : ¬ ∀ events last,
    Execution versionOne (fun _ => false) anything (installed [⟨"t",0,onlyNode.graph⟩]) events last →
    (∀ row ∈ last.shared.db.workflows, row.finishedAt = true ↔ row.status.terminal = true) ∧
      ∀ row ∈ last.shared.db.tasks, row.finishedAt = true ↔ row.status.terminal = true := by
  intro always
  have computed : ((installed [⟨"t",0,onlyNode.graph⟩]).execute machine (Origin.program versionOne (fun _ => false)) anything
      (oneNode (.raises "failed"))).any (fun S => decide (S.shared.db.workflows.map
        (fun row => (row.status,row.finishedAt)) = [(.error,false)])) = true := by decide
  obtain ⟨events,last,run,reached⟩ := execute_any (oneNode (.raises "failed")) computed
  have failed : (WorkflowStatus.error,false) ∈ last.shared.db.workflows.map (fun row => (row.status,row.finishedAt)) := by
    rw [of_decide_eq_true reached]
    exact List.mem_singleton.mpr rfl
  obtain ⟨row,stored,same⟩ := List.mem_map.mp failed
  obtain ⟨status,time⟩ := Prod.mk.inj same
  have tracks := ((always events last run).1 row stored).mpr (by rw [status]; rfl)
  rw [time] at tracks
  cases tracks

end Timestamps
end FinmarsWorkflow
