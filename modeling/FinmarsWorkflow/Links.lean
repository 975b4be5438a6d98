import FinmarsWorkflow.Following
import FinmarsWorkflow.Keys

/-! What a control point knows about the rows it holds.
Every copy has the key of its stored row, a worker knows the task it created, and
the workflow it acts on is that of its message or an ancestor. These links hold in
every reachable state, whatever requests, redeliveries and failures there are. -/
namespace FinmarsWorkflow
open Interleave Relation

/-- The workflow that a thread was started for lies below a workflow, or is that one. -/
def Scope (db : Db) : Origin → WorkflowId → Prop
  | .message message,workflow => db.Above message.workflow workflow
  | .request (.launch _ _ _ _),workflow => ∃ key, db.workflowKey workflow = some key ∧ key.parent = none
  | .request (.pause asked),workflow | .request (.cancel asked),workflow => asked = workflow
  | .request (.resume asked _),workflow => asked = workflow
  | .request (.updateTemplate _ _),_ => False

/-- The worker created the task with this `celery_task_id`. -/
def Owns (db : Db) (origin : Origin) (celery : CeleryId) : Prop :=
  ∃ job id key, origin = .message (.processNextNode job) ∧ db.taskKey id = some key ∧
    key.celeryTaskId = celery ∧ key.workflow = job.workflow ∧ key.nodeId = some job.currentNodeId

/-- The worker has admitted a node of its message. -/
structure Taken (db : Db) (origin : Origin) (job : Job) (row : Workflow) (node : Node) : Prop where
  message : origin = .message (.processNextNode job)
  stored : db.workflowKey job.workflow = some row.key
  known : job.graph.node? job.currentNodeId = some node

/-- The worker runs its own task and holds a copy of it. -/
structure Runs (db : Db) (origin : Origin) (celery : CeleryId) (id : TaskId) (task : Task) : Prop where
  owns : Owns db origin celery
  stored : db.taskKey id = some task.key
  own : task.celeryTaskId = celery

/-- The worker finishes a task, its own or one that delegated to it. -/
structure Handles (db : Db) (origin : Origin) (celery : CeleryId) (id : TaskId) (task : Task) : Prop where
  owns : Owns db origin celery
  stored : db.taskKey id = some task.key
  scope : Scope db origin task.workflow
  level : task.celeryTaskId = celery ∨ ∃ child, db.Delegated child task.workflow

/-- The worker fails a task, its own or one that delegated to it. -/
structure Fails (db : Db) (origin : Origin) (id : TaskId) (task : Task) : Prop where
  worker : ∃ job, origin = .message (.processNextNode job)
  stored : db.taskKey id = some task.key
  scope : Scope db origin task.workflow
  level : (∃ job, origin = .message (.processNextNode job) ∧ task.workflow = job.workflow ∧
    task.nodeId = some job.currentNodeId) ∨ ∃ child, db.Delegated child task.workflow

/-- A closed child whose parent is next. -/
structure Climbs (db : Db) (origin : Origin) (child parent : WorkflowId) (workflow : Workflow) : Prop where
  stored : db.workflowKey child = some workflow.key
  delegated : workflow.parent = some parent
  scope : Scope db origin child

def Control.Linked (db : Db) (origin : Origin) : Control → Prop
  | .done | .templateSave _ _ => True
  | .send messages => ∀ message ∈ messages,
      (db.workflowKey message.workflow).isSome ∧ Scope db origin message.workflow
  | .openRead workflow => origin = .message (.executeWorkflowV2 workflow)
  | .openSave workflow row | .openData workflow row =>
    origin = .message (.executeWorkflowV2 workflow) ∧ db.workflowKey workflow = some row.key
  | .take job => origin = .message (.processNextNode job)
  | .park job row => origin = .message (.processNextNode job) ∧ db.workflowKey job.workflow = some row.key
  | .inputRead job row node _ _ | .previousRead job row node _ | .payloadRead job row node _ _
  | .create job row node _ _ => Taken db origin job row node
  | .startRead celery _ | .successRead celery _ | .failRead celery _ => Owns db origin celery
  | .startSave celery id task _ | .stepRead celery id task _ | .runCode celery id task _
  | .logSave celery id task _ _ | .progressRead celery id task _ _ _ | .childSave celery id task =>
    Runs db origin celery id task
  | .progressSave celery id task row _ _ => Runs db origin celery id task ∧ db.taskKey id = some row.key
  | .templateRead celery id task _ workflow =>
    Runs db origin celery id task ∧ db.workflowKey task.workflow = some workflow.key
  | .childCreate celery id task child => Runs db origin celery id task ∧
      child.parent = some task.workflow ∧ child.nodeId = task.nodeId
  | .childSend celery id task child => Runs db origin celery id task ∧ db.Delegated child task.workflow
  | .successSave celery _ id task _ | .successRow celery _ id task _ => Handles db origin celery id task
  | .successData celery _ id task workflow _ | .closeSave celery _ id task workflow _ =>
    Handles db origin celery id task ∧ db.workflowKey task.workflow = some workflow.key
  | .climb celery _ child parent workflow _ => Owns db origin celery ∧ Climbs db origin child parent workflow
  | .failRow _ id task _ | .failParent _ id task _ | .failReload _ id task _ => Fails db origin id task
  | .failSave _ id task workflow _ | .failClose _ id task workflow _ =>
    Fails db origin id task ∧ db.workflowKey task.workflow = some workflow.key
  | .failClimb _ child parent workflow _ =>
    (∃ job, origin = .message (.processNextNode job)) ∧ Climbs db origin child parent workflow
  | .launchRead _ _ _ _ => ∃ userCode payload space platform, origin = .request (.launch userCode payload space platform)
  | .launchCreate row => row.parent = none ∧
      ∃ userCode payload space platform, origin = .request (.launch userCode payload space platform)
  | .pauseRead workflow => origin = .request (.pause workflow)
  | .pauseSave workflow row => origin = .request (.pause workflow) ∧ db.workflowKey workflow = some row.key
  | .resumeRead workflow payload => origin = .request (.resume workflow payload)
  | .resumeTasks workflow row payload | .resumeSave workflow row payload =>
    origin = .request (.resume workflow payload) ∧ db.workflowKey workflow = some row.key
  | .resumeData workflow row _ => (∃ payload, origin = .request (.resume workflow payload)) ∧
      db.workflowKey workflow = some row.key
  | .cancelRead workflow => origin = .request (.cancel workflow)
  | .cancelTasks workflow row | .cancelSave workflow row =>
    origin = .request (.cancel workflow) ∧ db.workflowKey workflow = some row.key
  | .cancelTask workflow row id task rest => origin = .request (.cancel workflow) ∧
      db.workflowKey workflow = some row.key ∧
      ∀ entry ∈ (id,task)::rest, db.taskKey entry.1 = some entry.2.key ∧ entry.2.workflow = workflow

/-- The rows refer to each other, and the queue to rows. -/
structure Consistent (db : Db) : Prop where
  fresh : ∀ id key, db.taskKey id = some key → key.celeryTaskId < db.uuid
  unique : ∀ id other key another, db.taskKey id = some key → db.taskKey other = some another →
    key.celeryTaskId = another.celeryTaskId → id = other
  workflow : ∀ id key, db.taskKey id = some key → (db.workflowKey key.workflow).isSome
  parent : ∀ id key parent, db.workflowKey id = some key → key.parent = some parent → parent < id
  queue : ∀ message ∈ db.queue, (db.workflowKey message.workflow).isSome

section growing
variable {db later : Db} {origin : Origin} (grows : Grows db later)
include grows

theorem Grows.known {id : WorkflowId} (known : (db.workflowKey id).isSome) : (later.workflowKey id).isSome := by
  obtain ⟨key,found⟩ := Option.isSome_iff_exists.mp known
  exact Option.isSome_iff_exists.mpr ⟨key,grows.workflow id key found⟩

theorem Grows.scope {workflow : WorkflowId} (scope : Scope db origin workflow) : Scope later origin workflow := by
  cases origin with
  | message message => exact grows.above scope
  | request request => cases request with
    | launch =>
      obtain ⟨key,found,top⟩ := scope
      exact ⟨key,grows.workflow _ _ found,top⟩
    | pause => exact scope
    | resume => exact scope
    | cancel => exact scope
    | updateTemplate => exact scope

theorem Grows.owns {celery : CeleryId} (owns : Owns db origin celery) : Owns later origin celery := by
  obtain ⟨job,id,key,message,found,rest⟩ := owns
  exact ⟨job,id,key,message,grows.task id key found,rest⟩

theorem Grows.runs {celery : CeleryId} {id : TaskId} {task : Task} (runs : Runs db origin celery id task) :
    Runs later origin celery id task :=
  ⟨grows.owns runs.owns,grows.task _ _ runs.stored,runs.own⟩

theorem Grows.handles {celery : CeleryId} {id : TaskId} {task : Task} (handles : Handles db origin celery id task) :
    Handles later origin celery id task :=
  ⟨grows.owns handles.owns,grows.task _ _ handles.stored,grows.scope handles.scope,
    handles.level.imp_right (fun ⟨child,below⟩ => ⟨child,grows.delegated below⟩)⟩

theorem Grows.fails {id : TaskId} {task : Task} (fails : Fails db origin id task) : Fails later origin id task :=
  ⟨fails.worker,grows.task _ _ fails.stored,grows.scope fails.scope,
    fails.level.imp_right (fun ⟨child,below⟩ => ⟨child,grows.delegated below⟩)⟩

theorem Grows.climbs {child parent : WorkflowId} {workflow : Workflow}
    (climbs : Climbs db origin child parent workflow) : Climbs later origin child parent workflow :=
  ⟨grows.workflow _ _ climbs.stored,climbs.delegated,grows.scope climbs.scope⟩

theorem Grows.taken {job : Job} {row : Workflow} {node : Node} (taken : Taken db origin job row node) :
    Taken later origin job row node :=
  ⟨taken.message,grows.workflow _ _ taken.stored,taken.known⟩

/-- What a control point knows stays true while rows are added and keep their keys. -/
theorem Grows.linked {control : Control} (linked : control.Linked db origin) : control.Linked later origin := by
  cases control with
  | done | templateSave => trivial
  | send => exact fun message member => ⟨grows.known (linked message member).1,grows.scope (linked message member).2⟩
  | openRead | take | launchRead | launchCreate | pauseRead | resumeRead | cancelRead => exact linked
  | openSave | openData | park | pauseSave | resumeTasks | resumeSave | resumeData | cancelTasks | cancelSave =>
    exact ⟨linked.1,grows.workflow _ _ linked.2⟩
  | inputRead | previousRead | payloadRead | create => exact grows.taken linked
  | startRead | successRead | failRead => exact grows.owns linked
  | startSave | stepRead | runCode | logSave | progressRead | childSave => exact grows.runs linked
  | progressSave => exact ⟨grows.runs linked.1,grows.task _ _ linked.2⟩
  | templateRead => exact ⟨grows.runs linked.1,grows.workflow _ _ linked.2⟩
  | childCreate => exact ⟨grows.runs linked.1,linked.2⟩
  | childSend => exact ⟨grows.runs linked.1,grows.delegated linked.2⟩
  | successSave | successRow => exact grows.handles linked
  | successData | closeSave => exact ⟨grows.handles linked.1,grows.workflow _ _ linked.2⟩
  | climb => exact ⟨grows.owns linked.1,grows.climbs linked.2⟩
  | failRow | failParent | failReload => exact grows.fails linked
  | failSave | failClose => exact ⟨grows.fails linked.1,grows.workflow _ _ linked.2⟩
  | failClimb => exact ⟨linked.1,grows.climbs linked.2⟩
  | cancelTask =>
    exact ⟨linked.1,grows.workflow _ _ linked.2.1,
      fun entry member => ⟨grows.task _ _ (linked.2.2 entry member).1,(linked.2.2 entry member).2⟩⟩

end growing

section steps
variable {definitions : Definitions} {db : Db} {origin : Origin} {outside : Outside}

theorem calling_linked {celery : CeleryId} {id : TaskId} {task : Task} (calls : List Call)
    (outcome : Except Error Json) (runs : Runs db origin celery id task) :
    (Control.calling celery id task calls outcome).Linked db origin :=
  Control.calling_elim (fun _ _ _ => runs.owns) (fun _ _ _ => runs.owns)
    (fun _ _ => ⟨runs.owns,runs.stored,runs.own⟩) (fun _ _ => runs)

theorem handling_linked {celery : CeleryId} {id : TaskId} {task : Task} (depth : Nat) (retval : Json)
    (handles : Handles db origin celery id task) :
    (Control.handling celery depth id task retval).Linked db origin :=
  Control.handling_elim handles.owns (fun _ => trivial)
    (fun _ _ _ => ⟨handles.owns,handles.stored,handles.scope,handles.level⟩)

theorem failing_linked {id : TaskId} {task : Task} (depth : Nat) (error : Error) (fails : Fails db origin id task) :
    (Control.failing depth id task error).Linked db origin :=
  Control.failing_elim trivial (fun _ _ => fails)

theorem checking_linked {job : Job} {row : Workflow} {node : Node} (taken : Taken db origin job row node)
    (inputs : List NodeId) : (Control.checking job row node inputs).Linked db origin :=
  Control.checking_elim (fun _ _ _ => taken)
    (fun _ => Control.admitted_elim (fun _ _ => taken) (fun _ _ => taken) (fun _ => taken))

theorem cancelling_linked {workflow : WorkflowId} {row : Workflow} (entries : List (TaskId × Task))
    (request : origin = .request (.cancel workflow)) (stored : db.workflowKey workflow = some row.key)
    (held : ∀ entry ∈ entries, db.taskKey entry.1 = some entry.2.key ∧ entry.2.workflow = workflow) :
    (Control.cancelling workflow row entries).Linked db origin := by
  refine Control.cancelling_elim (fun _ => ⟨request,stored⟩) (fun front id task rest same _ _ => ⟨request,stored,?_⟩)
  intro other member
  rcases List.mem_cons.mp member with rfl | inside
  · exact held (id,task) (by simp [same])
  · exact held other (by simp [same,inside])

/-- Every save of a control point is one of a copy with the key of its row. -/
theorem linked_keyed {control : Control} {operation : Operation} (linked : control.Linked db origin)
    (busy : control.operation = some operation) : operation.Keyed db := by
  cases control with
  | done => cases busy
  | send messages => cases messages <;> cases busy; trivial
  | openSave | park | pauseSave | resumeSave | cancelSave => cases busy; exact linked.2
  | closeSave | failClose => cases busy; exact linked.2
  | startSave | logSave | childSave | successSave => cases busy; exact linked.stored
  | progressSave => cases busy; exact linked.2
  | failSave => cases busy; exact linked.1.stored
  | cancelTask => cases busy; exact (linked.2.2 _ List.mem_cons_self).1
  | _ => cases busy; trivial

theorem owner_scope {celery : CeleryId} {id : TaskId} {task : Task} (consistent : Consistent db)
    (owns : Owns db origin celery) (stored : db.taskKey id = some task.key) (own : task.celeryTaskId = celery) :
    ∃ job, origin = .message (.processNextNode job) ∧ task.workflow = job.workflow ∧
      task.nodeId = some job.currentNodeId := by
  obtain ⟨job,other,key,message,found,same,workflow,node⟩ := owns
  have equal : other = id := consistent.unique other id key task.key found stored (same.trans own.symm)
  subst other
  rw [found] at stored
  cases Option.some.inj stored
  exact ⟨job,message,workflow,node⟩

theorem Owns.worker {celery : CeleryId} (owns : Owns db origin celery) :
    ∃ job, origin = .message (.processNextNode job) := by
  obtain ⟨job,_,_,message,_⟩ := owns
  exact ⟨job,message⟩

theorem Climbs.parent {child parent : WorkflowId} {workflow : Workflow}
    (climbs : Climbs db origin child parent workflow) : db.Delegated child parent :=
  ⟨workflow.key,climbs.stored,climbs.delegated⟩

theorem climbed_scope {child parent : WorkflowId} {workflow : Workflow} {task : Task}
    (worker : ∃ job, origin = .message (.processNextNode job)) (climbs : Climbs db origin child parent workflow)
    (same : task.workflow = parent) : Scope db origin task.workflow := by
  obtain ⟨job,rfl⟩ := worker
  rw [same]
  exact ReflTransGen.tail climbs.scope climbs.parent

/-- One step of a thread, at the next control point. -/
theorem linked_next {control : Control} {operation : Operation} (consistent : Consistent db)
    (linked : control.Linked db origin) (busy : control.operation = some operation) :
    (control.next definitions db outside).Linked (operation.effect db) origin := by
  have grows := keyed_grows (linked_keyed linked busy)
  cases control with
  | done => cases busy
  | templateSave => trivial
  | send messages =>
    refine grows.linked (fun message member => linked message ?_)
    exact List.mem_of_mem_tail member
  | openRead workflow =>
    cases busy
    simp only [Control.next]
    split
    next row found => exact ⟨linked,getWorkflow_key found⟩
    next => trivial
  | openSave => exact grows.linked linked
  | openData workflow row =>
    cases busy
    simp only [Control.next]
    split
    next g data =>
      split
      next =>
        intro message member
        obtain ⟨id,_,rfl⟩ := List.mem_map.mp member
        exact ⟨Option.isSome_iff_exists.mpr ⟨_,linked.2⟩,linked.1 ▸ ReflTransGen.refl⟩
      next => trivial
    next => trivial
  | take job =>
    cases busy
    simp only [Control.next]
    split
    next row found =>
      split
      next node known =>
        split
        · exact ⟨linked,getWorkflow_key found⟩
        · exact checking_linked ⟨linked,getWorkflow_key found,known⟩ _
      next => trivial
    next => trivial
  | park => trivial
  | inputRead job row node input rest =>
    cases busy
    simp only [Control.next]
    split
    · exact checking_linked linked rest
    · trivial
  | previousRead => cases busy; exact Control.withOutput_elim (fun _ _ => linked) (fun _ _ => linked)
  | payloadRead => cases busy; exact linked
  | create job row node payload output =>
    cases busy
    -- the task just created is the one that the worker owns
    refine ⟨job,db.tasks.length,{newTask job.workflow row node payload with celeryTaskId := db.uuid}.key,
      linked.message,?_,rfl,rfl,?_⟩
    · rw [createTask_taskKey,if_pos rfl]
    · exact congrArg some (node?_id linked.known)
  | startRead celery kwargs =>
    cases busy
    simp only [Control.next]
    split
    next id task found => exact ⟨linked,(taskByCeleryId_key found).1,(taskByCeleryId_key found).2⟩
    next => exact linked
  | startSave => exact grows.linked linked
  | stepRead celery id task kwargs =>
    cases busy
    simp only [Control.next]
    split
    next workflow found =>
      split
      · exact linked
      · split
        · split
          · exact ⟨linked,getWorkflow_key found⟩
          · exact linked
        · exact linked.owns
    next => exact linked.owns
  | runCode => cases busy; exact calling_linked _ _ linked
  | logSave => exact grows.linked (calling_linked _ _ linked)
  | progressRead celery id task progress rest outcome =>
    cases busy
    simp only [Control.next]
    split
    next row found =>
      have stored := getTask_key found
      exact ⟨linked,stored⟩
    next => exact linked.owns
  | progressSave => exact grows.linked (calling_linked _ _ linked.1)
  | templateRead celery id task kwargs workflow =>
    cases busy
    simp only [Control.next]
    split
    next => exact ⟨linked.1,rfl,rfl⟩
    next => exact linked.1.owns
  | childCreate celery id task child =>
    cases busy
    refine ⟨grows.runs linked.1,child.key,?_,linked.2.1⟩
    rw [createWorkflow_workflowKey,if_pos rfl]
  | childSend => exact grows.linked linked.1
  | childSave => exact grows.linked linked.owns
  | successRead celery retval =>
    cases busy
    simp only [Control.next]
    split
    next id task found =>
      obtain ⟨stored,own⟩ := taskByCeleryId_key found
      obtain ⟨job,message,workflow,_⟩ := owner_scope consistent linked stored own
      refine handling_linked _ _ ⟨linked,stored,?_,.inl own⟩
      rw [message,workflow]
      exact ReflTransGen.refl
    next => exact linked
  | successSave => exact grows.linked linked
  | successRow celery depth id task retval =>
    cases busy
    simp only [Control.next]
    split
    next workflow found =>
      split
      · trivial
      · exact ⟨linked,getWorkflow_key found⟩
    next => exact linked.owns
  | successData celery depth id task workflow retval =>
    cases busy
    simp only [Control.next]
    split
    next g data =>
      split
      next nodeIds routed =>
        split
        · exact linked
        · intro message member
          obtain ⟨node,_,rfl⟩ := List.mem_map.mp member
          exact ⟨Option.isSome_iff_exists.mpr ⟨_,linked.2⟩,linked.1.scope⟩
      next => exact linked.1.owns
    next => exact linked.1.owns
  | closeSave celery depth id task workflow retval =>
    refine grows.linked ?_
    simp only [Control.next]
    split
    · trivial
    next parent above => exact ⟨linked.1.owns,linked.2,above,linked.1.scope⟩
  | climb celery depth child parent workflow retval =>
    cases busy
    simp only [Control.next]
    split
    next id task found =>
      obtain ⟨stored,same,_⟩ := parentTask_key found
      refine handling_linked _ _ ⟨linked.1,stored,climbed_scope linked.1.worker linked.2 same,.inr ⟨child,?_⟩⟩
      exact same ▸ linked.2.parent
    next => exact linked.1
  | failRead celery error =>
    cases busy
    simp only [Control.next]
    split
    next id task found =>
      obtain ⟨stored,own⟩ := taskByCeleryId_key found
      obtain ⟨job,message,workflow,node⟩ := owner_scope consistent linked stored own
      refine failing_linked _ _ ⟨⟨job,message⟩,stored,?_,.inl ⟨job,message,workflow,node⟩⟩
      rw [message,workflow]
      exact ReflTransGen.refl
    next => trivial
  | failRow depth id task error =>
    cases busy
    simp only [Control.next]
    split
    next workflow found => exact ⟨linked,getWorkflow_key found⟩
    next => trivial
  | failSave => exact grows.linked linked
  | failClose => exact grows.linked linked.1
  | failParent depth id task error =>
    cases busy
    simp only [Control.next]
    split
    next workflow found =>
      split
      · trivial
      next parent above => exact ⟨linked.worker,getWorkflow_key found,above,linked.scope⟩
    next => trivial
  | failClimb depth child parent workflow error =>
    cases busy
    simp only [Control.next]
    split
    next id task found =>
      obtain ⟨stored,same,_⟩ := parentTask_key found
      exact ⟨linked.1,stored,climbed_scope linked.1 linked.2 same,.inr ⟨child,same ▸ linked.2.parent⟩⟩
    next => trivial
  | failReload depth id task error =>
    cases busy
    simp only [Control.next]
    split
    next other again found =>
      obtain ⟨stored,own⟩ := taskByCeleryId_key found
      have equal : other = id := consistent.unique _ _ _ _ stored linked.stored own
      subst other
      have same := linked.stored.symm.trans stored
      have workflow : task.workflow = again.workflow := congrArg TaskKey.workflow (Option.some.inj same)
      have node : task.nodeId = again.nodeId := congrArg TaskKey.nodeId (Option.some.inj same)
      exact failing_linked _ _ ⟨linked.worker,stored,workflow ▸ linked.scope,workflow ▸ node ▸ linked.level⟩
    next => trivial
  | launchRead => cases busy; exact ⟨rfl,linked⟩
  | launchCreate row =>
    cases busy
    obtain ⟨top,userCode,payload,space,platform,rfl⟩ := linked
    have created : ((Operation.createWorkflow row).effect db).workflowKey db.workflows.length = some row.key := by
      rw [createWorkflow_workflowKey,if_pos rfl]
    intro message member
    cases List.mem_singleton.mp member
    exact ⟨Option.isSome_iff_exists.mpr ⟨_,created⟩,row.key,created,top⟩
  | pauseRead workflow =>
    cases busy
    simp only [Control.next]
    split
    next row found =>
      split
      · exact ⟨linked,getWorkflow_key found⟩
      · trivial
    next => trivial
  | pauseSave => trivial
  | resumeRead workflow payload =>
    cases busy
    simp only [Control.next]
    split
    next row found =>
      split
      · exact ⟨linked,getWorkflow_key found⟩
      · trivial
    next => trivial
  | resumeTasks workflow row payload =>
    cases busy
    simp only [Control.next]
    split
    · trivial
    · exact linked
  | resumeSave workflow row payload =>
    refine grows.linked ?_
    simp only [Control.next]
    split
    · trivial
    · exact ⟨⟨payload,linked.1⟩,linked.2⟩
  | resumeData workflow row node =>
    cases busy
    simp only [Control.next]
    split
    next g data =>
      split
      next =>
        intro message member
        cases List.mem_singleton.mp member
        obtain ⟨⟨payload,rfl⟩,stored⟩ := linked
        exact ⟨Option.isSome_iff_exists.mpr ⟨_,stored⟩,rfl⟩
      next => trivial
    next => trivial
  | cancelRead workflow =>
    cases busy
    simp only [Control.next]
    split
    next row found =>
      split
      · trivial
      · exact ⟨linked,getWorkflow_key found⟩
    next => trivial
  | cancelTasks workflow row =>
    cases busy
    exact cancelling_linked _ linked.1 linked.2 (fun entry member => tasksOf_key member)
  | cancelTask workflow row id task rest =>
    refine grows.linked (cancelling_linked rest linked.1 linked.2.1 ?_)
    exact fun entry member => linked.2.2 entry (List.mem_cons_of_mem _ member)
  | cancelSave => trivial

end steps

section inversions
variable {control : Control}

theorem createTask_inv {row : Task} (busy : control.operation = some (.createTask row)) :
    ∃ job workflow node payload output, control = .create job workflow node payload output ∧
      row = newTask job.workflow workflow node payload := by
  cases control with
  | create job workflow node payload output =>
    cases busy
    exact ⟨job,workflow,node,payload,output,rfl,rfl⟩
  | send messages => cases messages <;> cases busy
  | _ => cases busy

theorem createWorkflow_inv {row : Workflow} (busy : control.operation = some (.createWorkflow row)) :
    (∃ celery id task, control = .childCreate celery id task row) ∨ control = .launchCreate row := by
  cases control with
  | childCreate celery id task child =>
    cases busy
    exact .inl ⟨celery,id,task,rfl⟩
  | launchCreate =>
    cases busy
    exact .inr rfl
  | send messages => cases messages <;> cases busy
  | _ => cases busy

theorem send_inv {message : Message} (busy : control.operation = some (.send message)) :
    (∃ rest, control = .send (message::rest)) ∨
      ∃ celery id task child, control = .childSend celery id task child ∧ message = .executeWorkflowV2 child := by
  cases control with
  | send messages =>
    cases messages with
    | nil => cases busy
    | cons head rest =>
      cases busy
      exact .inl ⟨rest,rfl⟩
  | childSend celery id task child =>
    cases busy
    exact .inr ⟨celery,id,task,child,rfl,rfl⟩
  | _ => cases busy

end inversions

section soundness
variable {definitions : Definitions} {db : Db} {origin : Origin}

theorem delegated_known {child parent : WorkflowId} (delegated : db.Delegated child parent) :
    (db.workflowKey child).isSome := by
  obtain ⟨key,found,_⟩ := delegated
  exact Option.isSome_iff_exists.mpr ⟨key,found⟩

theorem consistent_effect {control : Control} {operation : Operation} (consistent : Consistent db)
    (linked : control.Linked db origin) (busy : control.operation = some operation) :
    Consistent (operation.effect db) := by
  have keyed := linked_keyed linked busy
  have grows := keyed_grows keyed
  obtain ⟨fresh,unique,workflow,parent,queue⟩ := consistent
  cases operation with
  | read | userCode | saveTemplate => exact ⟨fresh,unique,workflow,parent,queue⟩
  | saveWorkflow id row =>
    have keys := saveWorkflow_workflowKey keyed
    refine ⟨fresh,unique,fun id key found => ?_,fun id key above found => ?_,fun message member => ?_⟩
    · rw [keys]; exact workflow id key found
    · exact parent id key above (keys id ▸ found)
    · rw [keys]; exact queue message member
  | saveTask id row =>
    have keys := saveTask_taskKey keyed
    refine ⟨fun id key found => fresh id key (keys id ▸ found),?_,fun id key found => ?_,parent,queue⟩
    · intro id other key another found also_ same
      exact unique id other key another (keys id ▸ found) (keys other ▸ also_) same
    · exact workflow id key (keys id ▸ found)
  | send message =>
    have known : (db.workflowKey message.workflow).isSome := by
      rcases send_inv busy with ⟨rest,rfl⟩ | ⟨celery,id,task,child,rfl,rfl⟩
      · exact (linked message List.mem_cons_self).1
      · exact delegated_known linked.2
    refine ⟨fresh,unique,workflow,parent,fun other member => ?_⟩
    rcases List.mem_append.mp member with inside | inside
    · exact queue other inside
    · cases List.mem_singleton.mp inside
      exact known
  | createWorkflow row =>
    refine ⟨fresh,unique,fun id key found => grows.known (workflow id key found),fun id key above found up => ?_,
      fun message member => grows.known (queue message member)⟩
    rw [createWorkflow_workflowKey] at found
    split at found
    next equal =>
      cases Option.some.inj found
      subst id
      rcases createWorkflow_inv busy with ⟨celery,id,task,rfl⟩ | rfl
      · cases (linked.2.1.symm.trans up)
        obtain ⟨key,stored⟩ := Option.isSome_iff_exists.mp (workflow _ _ linked.1.stored)
        exact workflowKey_lt stored
      · cases (linked.1.symm.trans up)
    next => exact parent id key above found up
  | createTask row =>
    obtain ⟨job,wf,node,payload,output,rfl,rfl⟩ := createTask_inv busy
    have keys := createTask_taskKey db (newTask job.workflow wf node payload)
    refine ⟨fun id key found => ?_,fun id other key another found also_ same => ?_,fun id key found => ?_,parent,queue⟩
    · rw [keys] at found
      split at found
      · cases Option.some.inj found
        exact Nat.lt_succ_self _
      · exact Nat.lt_succ_of_lt (fresh id key found)
    · -- a celery id that is in use already is below the fresh one
      rw [keys] at found also_
      split at found <;> split at also_
      next one two => exact one.trans two.symm
      next one two =>
        cases Option.some.inj found
        exact absurd same.symm (Nat.ne_of_lt (fresh other another also_))
      next one two =>
        cases Option.some.inj also_
        exact absurd same (Nat.ne_of_lt (fresh id key found))
      next => exact unique id other key another found also_ same
    · rw [keys] at found
      split at found
      · cases Option.some.inj found
        exact Option.isSome_iff_exists.mpr ⟨_,linked.stored⟩
      · exact workflow id key found

/-- The message of a worker is about a stored workflow. -/
def Origin.Known (db : Db) (origin : Origin) : Prop :=
  ∀ message, origin = .message message → (db.workflowKey message.workflow).isSome

theorem origin_linked (origin : Origin) : origin.control.Linked db origin := by
  cases origin with
  | message message => cases message <;> exact rfl
  | request request => cases request with
    | launch userCode payload space platform => exact ⟨userCode,payload,space,platform,rfl⟩
    | updateTemplate => trivial
    | _ => exact rfl

/-- Consistent rows, and control points linked to them. -/
abbrev Sound (S : Controlled definitions) : Prop :=
  Locally Consistent (fun db origin (control : Control) => origin.Known db ∧ control.Linked db origin) S

/-- What the environment may do: rows stay, a message moves between the queue and a worker. -/
theorem react_inv {environment : Environment} {origins : List Origin} {changed : Db} {turn : Turn Origin}
    (reacts : react environment db origins = some (changed,turn)) :
    (∃ index message, environment = .deliver index ∧ db.queue[index]? = some message ∧
      changed = {db with queue := db.queue.eraseIdx index} ∧ turn = .spawn (.message message)) ∨
    (∃ request, environment = .request request ∧ changed = db ∧ turn = .spawn (.request request)) ∨
    (∃ index message, environment = .redeliver index ∧ origins[index]? = some (.message message) ∧
      changed = {db with queue := db.queue ++ [message]} ∧ turn = .keep) ∨
    (∃ index message, environment = .lose index ∧ origins[index]? = some (.message message) ∧
      changed = {db with queue := db.queue ++ [message]} ∧ turn = .drop index) ∨
    (∃ index request, environment = .lose index ∧ origins[index]? = some (.request request) ∧
      changed = db ∧ turn = .drop index) := by
  cases environment with
  | deliver index =>
    obtain ⟨message,found,equal⟩ := Option.map_eq_some_iff.mp reacts
    cases equal
    exact .inl ⟨index,message,rfl,found,rfl,rfl⟩
  | request request =>
    cases reacts
    exact .inr (.inl ⟨request,rfl,rfl,rfl⟩)
  | redeliver index =>
    simp only [react] at reacts
    split at reacts
    next message found =>
      cases reacts
      exact .inr (.inr (.inl ⟨index,message,rfl,found,rfl,rfl⟩))
    next => cases reacts
  | lose index =>
    simp only [react] at reacts
    split at reacts
    next message found =>
      cases reacts
      exact .inr (.inr (.inr (.inl ⟨index,message,rfl,found,rfl,rfl⟩)))
    next request found =>
      cases reacts
      exact .inr (.inr (.inr (.inr ⟨index,request,rfl,found,rfl,rfl⟩)))
    next => cases reacts

/-- A queue with other messages, and nothing else changed. -/
theorem react_queue {environment : Environment} {origins : List Origin} {changed : Db} {turn : Turn Origin}
    (reacts : react environment db origins = some (changed,turn)) :
    ∃ queue, changed = {db with queue := queue} ∧
      (∀ message ∈ queue, message ∈ db.queue ∨ Origin.message message ∈ origins) ∧
      (∀ message, turn = .spawn (.message message) → message ∈ db.queue) ∧
      ∀ request, turn = .spawn (.request request) → environment = .request request := by
  have returned {index : Nat} {message : Message} (found : origins[index]? = some (.message message)) :
      ∀ other ∈ db.queue ++ [message], other ∈ db.queue ∨ Origin.message other ∈ origins := by
    intro other member
    rcases List.mem_append.mp member with inside | inside
    · exact .inl inside
    · cases List.mem_singleton.mp inside
      exact .inr (List.mem_of_getElem? found)
  rcases react_inv reacts with ⟨index,message,_,found,rfl,rfl⟩ | ⟨request,same,rfl,rfl⟩ |
    ⟨index,message,_,found,rfl,rfl⟩ | ⟨index,message,_,found,rfl,rfl⟩ | ⟨index,request,_,found,rfl,rfl⟩
  · refine ⟨_,rfl,fun other member => .inl (List.mem_of_mem_eraseIdx member),?_,by rintro _ ⟨⟩⟩
    rintro _ ⟨⟩
    exact List.mem_of_getElem? found
  · exact ⟨_,rfl,fun other member => .inl member,by rintro _ ⟨⟩,by rintro _ ⟨⟩; exact same⟩
  · exact ⟨_,rfl,returned found,by rintro _ ⟨⟩,by rintro _ ⟨⟩⟩
  · exact ⟨_,rfl,returned found,by rintro _ ⟨⟩,by rintro _ ⟨⟩⟩
  · exact ⟨_,rfl,fun other member => .inl member,by rintro _ ⟨⟩,by rintro _ ⟨⟩⟩

/-- Every step keeps the links and the keys of the rows. -/
theorem sound_step {before after : Controlled definitions} {label : Action} (sound : Sound before)
    (step : Step machine Origin.control before label after) : Sound after ∧ Grows before.shared after.shared := by
  refine step.locally Grows Grows.refl ?_ ?_ ?_ sound
  · rintro db later origin control grows ⟨known,linked⟩
    exact ⟨fun message same => grows.known (known message same),grows.linked linked⟩
  · rintro origin control operation answer _ ⟨known,linked⟩ busy
    have grows := keyed_grows (linked_keyed linked busy)
    exact ⟨consistent_effect sound.shared linked busy,grows,fun message same => grows.known (known message same),
      linked_next sound.shared linked busy⟩
  · intro environment changed turn _ reacts
    obtain ⟨queue,rfl,queued,spawned,_⟩ := react_queue reacts
    obtain ⟨fresh,unique,workflow,parent,known⟩ := sound.shared
    refine ⟨⟨fresh,unique,workflow,parent,fun message member => ?_⟩,⟨fun _ _ found => found,fun _ _ found => found⟩,?_⟩
    · rcases queued message member with inside | inside
      · exact known message inside
      · obtain ⟨thread,present,same⟩ := List.mem_map.mp inside
        exact (sound.threads thread present).1 message same
    · rintro origin rfl
      refine ⟨?_,origin_linked origin⟩
      rintro message rfl
      exact known message (spawned message rfl)

theorem unused_sound (templates : List WorkflowTemplate) : Sound (unused definitions templates) := by
  have absent (id : Nat) (key : TaskKey) : ¬(unused definitions templates).shared.taskKey id = some key := by
    simp [unused,installed,Db.taskKey]
  have nowhere (id : Nat) (key : WorkflowKey) : ¬(unused definitions templates).shared.workflowKey id = some key := by
    simp [unused,installed,Db.workflowKey]
  refine ⟨⟨?_,?_,?_,?_,?_⟩,fun thread member => absurd member List.not_mem_nil⟩
  · exact fun id key found => absurd found (absent id key)
  · exact fun id _ key _ found => absurd found (absent id key)
  · exact fun id key found => absurd found (absent id key)
  · exact fun id key _ found => absurd found (nowhere id key)
  · exact fun message member => absurd member List.not_mem_nil

/-- Along every run the links hold and rows keep their keys. -/
theorem sound_run {allowed : Allowed} {first last : Controlled definitions} {events : List (Origin × Operation)}
    (run : Run machine Origin.control allowed first events last) (sound : Sound first) :
    Sound last ∧ Grows first.shared last.shared := by
  refine run.invariant (fun S => Sound S ∧ Grows first.shared S.shared) ?_ ⟨sound,Grows.refl _⟩
  rintro before label after ⟨here,grown⟩ _ step
  obtain ⟨there,grows⟩ := sound_step here step
  exact ⟨there,grown.trans grows⟩

/-- Between two states of an execution rows are added and keep their keys. -/
theorem execution_grows {allowed : Allowed} {templates : List WorkflowTemplate}
    {front back : List (Origin × Operation)} {middle last : Installation}
    (head : Execution definitions allowed (installed templates) front middle)
    (tail : Execution definitions allowed middle back last) : Grows middle.shared last.shared := by
  obtain ⟨near,run,alike⟩ := execution_follow head
  obtain ⟨reached,rest,after⟩ := tail.follow origin_simulated alike
  have sound := (sound_run run (unused_sound templates)).1
  rw [alike.shared,after.shared]
  exact (sound_run rest sound).2

end soundness

end FinmarsWorkflow
