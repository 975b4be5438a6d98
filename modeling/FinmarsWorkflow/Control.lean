import FinmarsWorkflow.Workers
import FinmarsWorkflow.Interleave.Simulation

/-! The control points of the engine's programs, each with the rows it holds.
A point names the operation that comes next and what was loaded for it. The
programs of every message and request are followed point by point, so that the
runs of the installation are the runs of these points. -/
namespace FinmarsWorkflow
open Interleave

inductive Control where
  | done
  | send (messages : List Message)
  -- execute_workflow_v2
  | openRead (workflow : WorkflowId)
  | openSave (workflow : WorkflowId) (row : Workflow)
  | openData (workflow : WorkflowId) (row : Workflow)
  -- process_next_node
  | take (job : Job)
  | park (job : Job) (row : Workflow)
  | inputRead (job : Job) (row : Workflow) (node : Node) (input : NodeId) (rest : List NodeId)
  | previousRead (job : Job) (row : Workflow) (node : Node) (source : NodeId)
  | payloadRead (job : Job) (row : Workflow) (node : Node) (output : Option Json) (source : NodeId)
  | create (job : Job) (row : Workflow) (node : Node) (payload : Json) (output : Option Json)
  -- before_start and execute_workflow_step
  | startRead (celery : CeleryId) (kwargs : Kwargs)
  | startSave (celery : CeleryId) (id : TaskId) (task : Task) (kwargs : Kwargs)
  | stepRead (celery : CeleryId) (id : TaskId) (task : Task) (kwargs : Kwargs)
  | runCode (celery : CeleryId) (id : TaskId) (task : Task) (kwargs : Kwargs)
  | logSave (celery : CeleryId) (id : TaskId) (task : Task) (rest : List Call) (outcome : Except Error Json)
  | progressRead (celery : CeleryId) (id : TaskId) (task : Task) (progress : Json) (rest : List Call)
      (outcome : Except Error Json)
  | progressSave (celery : CeleryId) (id : TaskId) (task row : Task) (rest : List Call)
      (outcome : Except Error Json)
  | templateRead (celery : CeleryId) (id : TaskId) (task : Task) (kwargs : Kwargs) (workflow : Workflow)
  | childCreate (celery : CeleryId) (id : TaskId) (task : Task) (child : Workflow)
  | childSend (celery : CeleryId) (id : TaskId) (task : Task) (child : WorkflowId)
  | childSave (celery : CeleryId) (id : TaskId) (task : Task)
  -- on_success and handle_task_success
  | successRead (celery : CeleryId) (retval : Json)
  | successSave (celery : CeleryId) (depth : Nat) (id : TaskId) (task : Task) (retval : Json)
  | successRow (celery : CeleryId) (depth : Nat) (id : TaskId) (task : Task) (retval : Json)
  | successData (celery : CeleryId) (depth : Nat) (id : TaskId) (task : Task) (workflow : Workflow) (retval : Json)
  | closeSave (celery : CeleryId) (depth : Nat) (id : TaskId) (task : Task) (workflow : Workflow) (retval : Json)
  | climb (celery : CeleryId) (depth : Nat) (child parent : WorkflowId) (workflow : Workflow) (retval : Json)
  -- on_failure
  | failRead (celery : CeleryId) (error : Error)
  | failRow (depth : Nat) (id : TaskId) (task : Task) (error : Error)
  | failSave (depth : Nat) (id : TaskId) (task : Task) (workflow : Workflow) (error : Error)
  | failClose (depth : Nat) (id : TaskId) (task : Task) (workflow : Workflow) (error : Error)
  | failParent (depth : Nat) (id : TaskId) (task : Task) (error : Error)
  | failClimb (depth : Nat) (child parent : WorkflowId) (workflow : Workflow) (error : Error)
  | failReload (depth : Nat) (id : TaskId) (task : Task) (error : Error)
  -- requests
  | launchRead (userCode : String) (payload : Json) (space : SpaceId) (platformTaskId : Option Int)
  | launchCreate (row : Workflow)
  | pauseRead (workflow : WorkflowId)
  | pauseSave (workflow : WorkflowId) (row : Workflow)
  | resumeRead (workflow : WorkflowId) (payload : Option Json)
  | resumeTasks (workflow : WorkflowId) (row : Workflow) (payload : Option Json)
  | resumeSave (workflow : WorkflowId) (row : Workflow) (payload : Option Json)
  | resumeData (workflow : WorkflowId) (row : Workflow) (node : NodeId)
  | cancelRead (workflow : WorkflowId)
  | cancelTasks (workflow : WorkflowId) (row : Workflow)
  | cancelTask (workflow : WorkflowId) (row : Workflow) (id : TaskId) (task : Task) (rest : List (TaskId × Task))
  | cancelSave (workflow : WorkflowId) (row : Workflow)
  | templateSave (template : TemplateId) (data : Graph)

namespace Control

def returned (celery : CeleryId) : Except Error Json → Control
  | .ok retval => .successRead celery retval
  | .error error => .failRead celery error

/-- The next call of the user code on its task, or the end of the code. -/
def calling (celery : CeleryId) (id : TaskId) (task : Task) : List Call → Except Error Json → Control
  | [],outcome => returned celery outcome
  | .log message::rest,outcome =>
    .logSave celery id {task with log := some (task.log.getD "" ++ message ++ "\n")} rest outcome
  | .updateProgress progress::rest,outcome => .progressRead celery id task progress rest outcome

/-- The entry of `handle_task_success`. -/
def handling (celery : CeleryId) : Nat → TaskId → Task → Json → Control
  | 0,_,_,_ => .failRead celery recursionError
  | depth+1,id,task,retval =>
    if task.status = .nestedProgress then .done
    else .successSave celery depth id (task.succeeded retval) retval

def failing : Nat → TaskId → Task → Error → Control
  | 0,_,_,_ => .done
  | depth+1,id,task,error => .failRow depth id task error

def withOutput (job : Job) (row : Workflow) (node : Node) (output : Option Json) : Control :=
  match feedingNode job.graph node "payload_input" with
  | none => .create job row node row.payload output
  | some source => .payloadRead job row node output source

/-- The inputs are ready. -/
def admitted (job : Job) (row : Workflow) (node : Node) : Control :=
  match feedingNode job.graph node "in" with
  | none => withOutput job row node none
  | some source => .previousRead job row node source

def checking (job : Job) (row : Workflow) (node : Node) : List NodeId → Control
  | [] => admitted job row node
  | input::rest => .inputRead job row node input rest

def cancelling (workflow : WorkflowId) (row : Workflow) : List (TaskId × Task) → Control
  | [] => .cancelSave workflow row
  | (id,task)::rest =>
    if task.status.cancellable then
      .cancelTask workflow row id {task with status := .canceled,finishedAt := true} rest
    else cancelling workflow row rest

def operation : Control → Option Operation
  | .done | .send [] => none
  | .send (message::_) => some (.send message)
  | .openSave workflow row => some (.saveWorkflow workflow {row with status := .progress})
  | .park job row => some (.saveWorkflow job.workflow {row with currentNodeId := some job.currentNodeId})
  | .create job row node payload _ => some (.createTask (newTask job.workflow row node payload))
  | .startSave _ id task _ => some (.saveTask id task)
  | .runCode _ id _ kwargs => some (.userCode id kwargs)
  | .logSave _ id task _ _ => some (.saveTask id task)
  | .progressSave _ id _ row _ _ => some (.saveTask id row)
  | .childCreate _ _ _ child => some (.createWorkflow child)
  | .childSend _ _ _ child => some (.send (.executeWorkflowV2 child))
  | .childSave _ id task => some (.saveTask id {task with status := .nestedProgress})
  | .successSave _ _ id task _ => some (.saveTask id task)
  | .closeSave _ _ _ task workflow retval =>
    some (.saveWorkflow task.workflow (workflow.completed task.nodeId retval))
  | .failSave _ id task _ error => some (.saveTask id (task.failed error))
  | .failClose _ _ task workflow error =>
    some (.saveWorkflow task.workflow {workflow with status := error.workflowStatus})
  | .launchCreate row => some (.createWorkflow row)
  | .pauseSave workflow row => some (.saveWorkflow workflow {row with status := .wait})
  | .resumeSave workflow row payload => some (.saveWorkflow workflow (row.resumed payload))
  | .cancelTask _ _ id task _ => some (.saveTask id task)
  | .cancelSave workflow row => some (.saveWorkflow workflow {row with status := .canceled})
  | .templateSave template data => some (.saveTemplate template data)
  | _ => some .read

/-- The child row that a delegating step creates. -/
def childRow (task : Task) (kwargs : Kwargs) (workflow : Workflow) (template : TemplateId) : Workflow :=
  { status := .init, workflowTemplate := some template, currentNodeId := none,
    lastTaskOutput := none, nodeId := task.nodeId, userCode := targetWorkflowUserCode task.name,
    payload := workflowPayload kwargs.payload, platformTaskId := none,
    space := workflow.space, finishedAt := false, parent := some task.workflow }

def launchedRow (userCode : String) (payload : Json) (space : SpaceId) (platformTaskId : Option Int)
    (template : Option TemplateId) : Workflow :=
  { status := .init, workflowTemplate := template, currentNodeId := none, lastTaskOutput := none,
    nodeId := none, userCode := userCode, payload := workflowPayload payload,
    platformTaskId := platformTaskId, space := space, finishedAt := false, parent := none }

def next (definitions : Definitions) (db : Db) (outside : Outside) : Control → Control
  | .done => .done
  | .send messages => .send messages.tail
  | .openRead workflow => match db.getWorkflow workflow with
    | .ok row => .openSave workflow row
    | .error _ => .done
  | .openSave workflow row => .openData workflow row
  | .openData workflow row => match db.templateData row with
    | .ok g => match g.adjacencyList with
      | .ok _ => .send (g.startNodes.map (fun id => .processNextNode ⟨id,workflow,g⟩))
      | .error _ => .done
    | .error _ => .done
  | .take job => match db.getWorkflow job.workflow with
    | .ok row => match job.graph.node? job.currentNodeId with
      | some node => if row.status = .wait then .park job row
          else checking job row node (job.graph.inputNodes job.currentNodeId)
      | none => .done
    | .error _ => .done
  | .park _ _ => .done
  | .inputRead job row node input rest =>
    if db.inputReady job.workflow input then checking job row node rest else .done
  | .previousRead job row node source =>
    withOutput job row node ((db.newestTask job.workflow source).bind Task.result)
  | .payloadRead job row node output source => .create job row node (match db.newestTask job.workflow source with
    | some task => task.result.getD .null
    | none => row.payload) output
  | .create _ _ _ payload output => .startRead db.uuid ⟨payload,output⟩
  | .startRead celery kwargs => match db.taskByCeleryId celery with
    | .ok (id,task) =>
      .startSave celery id {task with status := .progress,workerName := some outside.host} kwargs
    | .error error => .failRead celery error
  | .startSave celery id task kwargs => .stepRead celery id task kwargs
  | .stepRead celery id task kwargs => match db.getWorkflow task.workflow with
    | .ok workflow =>
      if runsSourceCode task then .runCode celery id task kwargs
      else match definitions workflow.space (targetWorkflowUserCode task.name) with
        | .ok version => if version = 2 then .templateRead celery id task kwargs workflow
            else .runCode celery id task kwargs
        | .error error => .failRead celery error
    | .error error => .failRead celery error
  | .runCode celery id task _ => calling celery id task outside.calls outside.outcome
  | .logSave celery id task rest outcome => calling celery id task rest outcome
  | .progressRead celery id task progress rest outcome => match db.getTask id with
    | .ok row => .progressSave celery id task
        {row with progress := match progress with | .null => none | value => some value} rest outcome
    | .error error => .failRead celery error
  | .progressSave celery id task _ rest outcome => calling celery id task rest outcome
  | .templateRead celery id task kwargs workflow =>
    match db.templateByUserCode (targetWorkflowUserCode task.name) workflow.space with
    | .ok (template,_) => .childCreate celery id task (childRow task kwargs workflow template)
    | .error error => .failRead celery error
  | .childCreate celery id task _ => .childSend celery id task db.workflows.length
  | .childSend celery id task _ => .childSave celery id task
  | .childSave celery _ _ => .successRead celery .null
  | .successRead celery retval => match db.taskByCeleryId celery with
    | .ok (id,task) => handling celery db.workflows.length id task retval
    | .error error => .failRead celery error
  | .successSave celery depth id task retval => .successRow celery depth id task retval
  | .successRow celery depth id task retval => match db.getWorkflow task.workflow with
    | .ok workflow => if workflow.workflowTemplate.isNone then .done
        else .successData celery depth id task workflow retval
    | .error error => .failRead celery error
  | .successData celery depth id task workflow retval => match db.templateData workflow with
    | .ok g => match successors g task.nodeId retval with
      | .ok nodeIds => if nodeIds.isEmpty then .closeSave celery depth id task workflow retval
          else .send (processMessages g task.workflow nodeIds)
      | .error error => .failRead celery error
    | .error error => .failRead celery error
  | .closeSave celery depth _ task workflow retval => match workflow.parent with
    | none => .done
    | some parent => .climb celery depth task.workflow parent workflow retval
  | .climb celery depth _ parent workflow retval => match db.parentTask parent workflow.nodeId workflow.space with
    | .ok (id,task) => handling celery depth id {task with status := .progress} retval
    | .error error => .failRead celery error
  | .failRead celery error => match db.taskByCeleryId celery with
    | .ok (id,task) => failing db.workflows.length id task error
    | .error _ => .done
  | .failRow depth id task error => match db.getWorkflow task.workflow with
    | .ok workflow => .failSave depth id task workflow error
    | .error _ => .done
  | .failSave depth id task workflow error => .failClose depth id task workflow error
  | .failClose depth id task _ error => .failParent depth id task error
  | .failParent depth _ task error => match db.getWorkflow task.workflow with
    | .ok workflow => match workflow.parent with
      | none => .done
      | some parent => .failClimb depth task.workflow parent workflow error
    | .error _ => .done
  | .failClimb depth _ parent workflow error => match db.parentTask parent workflow.nodeId workflow.space with
    | .ok (id,task) => .failReload depth id task error
    | .error _ => .done
  | .failReload depth _ task error => match db.taskByCeleryId task.celeryTaskId with
    | .ok (id,task) => failing depth id task error
    | .error _ => .done
  | .launchRead userCode payload space platformTaskId => .launchCreate (launchedRow userCode payload space platformTaskId
      ((db.templateByUserCode (spaceLessUserCode userCode) space).toOption.map Prod.fst))
  | .launchCreate _ => .send [.executeWorkflowV2 db.workflows.length]
  | .pauseRead workflow => match db.getWorkflow workflow with
    | .ok row => if row.status = .progress then .pauseSave workflow row else .done
    | .error _ => .done
  | .pauseSave _ _ => .done
  | .resumeRead workflow payload => match db.getWorkflow workflow with
    | .ok row => if row.status = .wait then .resumeTasks workflow row payload else .done
    | .error _ => .done
  | .resumeTasks workflow row payload =>
    if db.hasActiveTasks workflow then .done else .resumeSave workflow row payload
  | .resumeSave workflow row _ => match row.currentNodeId.filter (· != "") with
    | none => .done
    | some node => .resumeData workflow row node
  | .resumeData workflow row node => match db.templateData row with
    | .ok g => match g.adjacencyList with
      | .ok _ => .send [.processNextNode ⟨node,workflow,g⟩]
      | .error _ => .done
    | .error _ => .done
  | .cancelRead workflow => match db.getWorkflow workflow with
    | .ok row => if row.status.terminal then .done else .cancelTasks workflow row
    | .error _ => .done
  | .cancelTasks workflow row => cancelling workflow row (db.tasksOf workflow)
  | .cancelTask workflow row _ _ rest => cancelling workflow row rest
  | .cancelSave _ _ => .done
  | .templateSave _ _ => .done

section entries
variable {P : Control → Prop} {celery : CeleryId} {id : TaskId} {task : Task}

theorem calling_elim {calls : List Call} {outcome : Except Error Json}
    (ok : ∀ retval, calls = [] → outcome = .ok retval → P (.successRead celery retval))
    (error : ∀ raised, calls = [] → outcome = .error raised → P (.failRead celery raised))
    (log : ∀ message rest, P (.logSave celery id {task with log := some (task.log.getD "" ++ message ++ "\n")}
      rest outcome))
    (progress : ∀ value rest, P (.progressRead celery id task value rest outcome)) :
    P (calling celery id task calls outcome) := by
  cases calls with
  | nil => cases outcome with
    | ok retval => exact ok retval rfl rfl
    | error raised => exact error raised rfl rfl
  | cons call rest => cases call with
    | log message => exact log message rest
    | updateProgress value => exact progress value rest

theorem handling_elim {depth : Nat} {retval : Json} (deep : P (.failRead celery recursionError))
    (waits : task.status = .nestedProgress → P .done)
    (save : ∀ rest, depth = rest+1 → task.status ≠ .nestedProgress →
      P (.successSave celery rest id (task.succeeded retval) retval)) :
    P (handling celery depth id task retval) := by
  cases depth with
  | zero => exact deep
  | succ rest =>
    simp only [handling]
    split
    next same => exact waits same
    next differs => exact save rest rfl differs

theorem failing_elim {depth : Nat} {error : Error} (deep : P .done)
    (row : ∀ rest, depth = rest+1 → P (.failRow rest id task error)) : P (failing depth id task error) := by
  cases depth with
  | zero => exact deep
  | succ rest => exact row rest rfl

section admission
variable {job : Job} {row : Workflow} {node : Node} (create : ∀ payload output, P (.create job row node payload output))
  (payload : ∀ output source, P (.payloadRead job row node output source))
include create payload

theorem withOutput_elim {output : Option Json} : P (withOutput job row node output) := by
  unfold withOutput
  split
  · exact create _ _
  · exact payload _ _

variable (previous : ∀ source, P (.previousRead job row node source))
include previous

theorem admitted_elim : P (admitted job row node) := by
  unfold admitted
  split
  · exact withOutput_elim create payload
  · exact previous _

end admission

theorem checking_elim {job : Job} {row : Workflow} {node : Node} {inputs : List NodeId}
    (input : ∀ next rest, inputs = next::rest → P (.inputRead job row node next rest))
    (ready : inputs = [] → P (admitted job row node)) : P (checking job row node inputs) := by
  cases inputs with
  | nil => exact ready rfl
  | cons next rest => exact input next rest rfl

theorem cancelling_elim {workflow : WorkflowId} {row : Workflow} {entries : List (TaskId × Task)}
    (save : (∀ entry ∈ entries, entry.2.status.cancellable = false) → P (.cancelSave workflow row))
    (cancel : ∀ front id task rest, entries = front ++ (id,task)::rest →
      (∀ entry ∈ front, entry.2.status.cancellable = false) → task.status.cancellable = true →
      P (.cancelTask workflow row id {task with status := .canceled,finishedAt := true} rest)) :
    P (cancelling workflow row entries) := by
  induction entries with
  | nil => exact save (fun _ member => absurd member List.not_mem_nil)
  | cons entry rest ih =>
    simp only [cancelling]
    split
    next active => exact cancel [] entry.1 entry.2 rest rfl (fun _ member => absurd member List.not_mem_nil) active
    next done =>
      have ended : entry.2.status.cancellable = false := by simpa using done
      refine ih (fun all => save ?_) (fun front id task tail same all active => cancel (entry::front) id task tail ?_ ?_ active)
      · exact List.forall_mem_cons.mpr ⟨ended,all⟩
      · rw [same,List.cons_append]
      · exact List.forall_mem_cons.mpr ⟨ended,all⟩

end entries

end Control

/-- The part of a program that a control point belongs to. -/
inductive Stage where
  | idle | sending | opening | taking | parking | checking | admitted | running | delegating | finishing
  | closing | climbing | failing | launching | pausing | resuming | cancelling | editing
deriving DecidableEq

namespace Stage

/-- The stages that one step may lead to. -/
def next : Stage → List Stage
  | idle | parking | editing => [idle]
  | sending => [sending]
  | opening => [opening,sending,idle]
  | taking => [parking,checking,admitted,idle]
  | checking => [checking,admitted,idle]
  | admitted => [admitted,running]
  | running => [running,delegating,finishing,failing]
  | delegating => [delegating,finishing,failing]
  | finishing => [finishing,closing,sending,failing,idle]
  | closing => [climbing,idle]
  | climbing => [finishing,failing,idle]
  | failing => [failing,idle]
  | launching => [launching,sending]
  | pausing => [pausing,idle]
  | resuming => [resuming,sending,idle]
  | cancelling => [cancelling,idle]

end Stage

namespace Control

def stage : Control → Stage
  | .done => .idle
  | .send _ => .sending
  | .openRead _ | .openSave _ _ | .openData _ _ => .opening
  | .take _ => .taking
  | .park _ _ => .parking
  | .inputRead _ _ _ _ _ => .checking
  | .previousRead _ _ _ _ | .payloadRead _ _ _ _ _ | .create _ _ _ _ _ => .admitted
  | .startRead _ _ | .startSave _ _ _ _ | .stepRead _ _ _ _ | .runCode _ _ _ _ | .logSave _ _ _ _ _
  | .progressRead _ _ _ _ _ _ | .progressSave _ _ _ _ _ _ => .running
  | .templateRead _ _ _ _ _ | .childCreate _ _ _ _ | .childSend _ _ _ _ | .childSave _ _ _ => .delegating
  | .successRead _ _ | .successSave _ _ _ _ _ | .successRow _ _ _ _ _ | .successData _ _ _ _ _ _ => .finishing
  | .closeSave _ _ _ _ _ _ => .closing
  | .climb _ _ _ _ _ _ => .climbing
  | .failRead _ _ | .failRow _ _ _ _ | .failSave _ _ _ _ _ | .failClose _ _ _ _ _ | .failParent _ _ _ _
  | .failClimb _ _ _ _ _ | .failReload _ _ _ _ => .failing
  | .launchRead _ _ _ _ | .launchCreate _ => .launching
  | .pauseRead _ | .pauseSave _ _ => .pausing
  | .resumeRead _ _ | .resumeTasks _ _ _ | .resumeSave _ _ _ | .resumeData _ _ _ => .resuming
  | .cancelRead _ | .cancelTasks _ _ | .cancelTask _ _ _ _ _ | .cancelSave _ _ => .cancelling
  | .templateSave _ _ => .editing

section stages

-- makes the equations of `next` here, once for all the proofs that unfold it
attribute [local simp] next

theorem stage_next (definitions : Definitions) (db : Db) (outside : Outside) (control : Control) :
    (control.next definitions db outside).stage ∈ control.stage.next := by
  have checks {job : Job} {row : Workflow} {node : Node} {inputs : List NodeId} {stages : List Stage}
      (first : Stage.checking ∈ stages) (second : Stage.admitted ∈ stages) :
      (checking job row node inputs).stage ∈ stages := by
    refine checking_elim (P := fun point => point.stage ∈ stages) (fun _ _ _ => first) (fun _ => ?_)
    exact admitted_elim (P := fun point => point.stage ∈ stages) (fun _ _ => second) (fun _ _ => second)
      (fun _ => second)
  cases control with
  | take | inputRead =>
    simp only [next]
    repeat' split
    all_goals first
      | exact checks (by simp [stage,Stage.next]) (by simp [stage,Stage.next])
      | simp [stage,Stage.next]
  | previousRead =>
    exact withOutput_elim (P := fun point => point.stage ∈ Stage.admitted.next) (fun _ _ => by simp [stage,Stage.next])
      (fun _ _ => by simp [stage,Stage.next])
  | runCode | logSave | progressSave =>
    exact calling_elim (P := fun point => point.stage ∈ Stage.running.next) (fun _ _ _ => by simp [stage,Stage.next])
      (fun _ _ _ => by simp [stage,Stage.next]) (fun _ _ => by simp [stage,Stage.next])
      (fun _ _ => by simp [stage,Stage.next])
  | successRead | climb =>
    simp only [next]
    split
    · refine handling_elim (P := fun point => point.stage ∈ Stage.next _) ?_ (fun _ => ?_) (fun _ _ _ => ?_) <;>
        simp [stage,Stage.next]
    · simp [stage,Stage.next]
  | failRead | failReload =>
    simp only [next]
    split
    · refine failing_elim (P := fun point => point.stage ∈ Stage.failing.next) ?_ (fun _ _ => ?_) <;>
        simp [stage,Stage.next]
    · simp [stage,Stage.next]
  | cancelTasks | cancelTask =>
    refine cancelling_elim (P := fun point => point.stage ∈ Stage.cancelling.next) (fun _ => ?_) (fun _ _ _ _ _ _ _ => ?_) <;>
      simp [stage,Stage.next]
  | _ =>
    simp only [next]
    repeat' split
    all_goals simp [stage,Stage.next]

end stages

theorem stage_avoids {definitions : Definitions} {db : Db} {outside : Outside} {control : Control} {avoided : Stage}
    (absent : control.stage.next.contains avoided = false) : (control.next definitions db outside).stage ≠ avoided := by
  rintro rfl
  have present := List.contains_iff_mem.mpr (stage_next definitions db outside control)
  exact Bool.false_ne_true (absent.symm.trans present)

end Control

/-- The language of control points. -/
abbrev controls (definitions : Definitions) : Language Db Operation Outside where
  Thread := Control
  operation := Control.operation
  next control db outside := control.next definitions db outside

def Origin.control : Origin → Control
  | .message (.executeWorkflowV2 workflow) => .openRead workflow
  | .message (.processNextNode job) => .take job
  | .request (.launch userCode payload space platformTaskId) => .launchRead userCode payload space platformTaskId
  | .request (.pause workflow) => .pauseRead workflow
  | .request (.resume workflow payload) => .resumeRead workflow payload
  | .request (.cancel workflow) => .cancelRead workflow
  | .request (.updateTemplate template data) => .templateSave template data

end FinmarsWorkflow
