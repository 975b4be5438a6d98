import FinmarsWorkflow.Order
import FinmarsWorkflow.Family

/-! What leads to a node.
A message is sent for a start node, or for a node that a finished task leads to: one of the
next nodes that its result selects. Parking and resuming keep that, and so does an update of
the template, as long as the workflow is not opened. -/
namespace FinmarsWorkflow
open Interleave Relation

/-- The step is an update of the workflow's template that leaves other data than it found. -/
def reshapes (workflow : WorkflowId) (view : Seen) : Action → Bool
  | .advance index _ => match view.threads[index]? with
    | some (_,some (.saveTemplate id data)) =>
      decide (((Operation.saveTemplate id data).effect view.shared).graph workflow ≠ view.shared.graph workflow)
    | _ => false
  | _ => false

/-- The workflow is not there yet, or `execute_workflow_v2` has not started it. -/
def unopened (db : Db) (workflow : WorkflowId) : Bool :=
  (db.workflows[workflow]?).all (fun row => row.status == .init)

/-- No update changes the data of the workflow's template once it is opened. -/
def editedBefore (workflow : WorkflowId) : Allowed := fun view label =>
  reshapes workflow view label = true → unopened view.shared workflow = true

instance (workflow : WorkflowId) (view : Seen) (label : Action) : Decidable (editedBefore workflow view label) :=
  inferInstanceAs (Decidable (_ → _))

/-- The row of a task that has succeeded with a value. -/
def Task.Succeeds (task : Task) (retval : Json) : Prop :=
  task.status = .success ∧ task.result = some (if retval.truthy then retval else noResults)

/-- In the events of a run a task of the node has been saved with this result. -/
def Finished (events : List (Origin × Operation)) (workflow : WorkflowId) (source : NodeId) (retval : Json) : Prop :=
  ∃ origin id task, (origin,.saveTask id task) ∈ events ∧ task.workflow = workflow ∧ task.nodeId = some source ∧
    task.Succeeds retval

/-- A start node, or one of the next nodes of a finished task. -/
def Leads (events : List (Origin × Operation)) (workflow : WorkflowId) (g : Graph) (node : NodeId) : Prop :=
  node ∈ g.startNodes ∨ ∃ source retval nodeIds, Finished events workflow source retval ∧
    successors g (some source) retval = .ok nodeIds ∧ node ∈ nodeIds

/-- The workflow is there and has been started, paused, cancelled or failed. -/
def Begun (db : Db) (workflow : WorkflowId) : Prop := ∃ row, db.workflows[workflow]? = some row ∧ row.status ≠ .init

section routes
variable (events : List (Origin × Operation)) (db : Db) (workflow : WorkflowId)

/-- The workflow has been opened, and its graph leads to the node. -/
def Reached (node : NodeId) : Prop := Begun db workflow ∧ ∃ g, db.graph workflow = some g ∧ Leads events workflow g node

/-- A row of the workflow has no node in `current_node_id` that was not reached. -/
def Slotted (row : Workflow) : Prop := ∀ node, row.currentNodeId = some node → Reached events db workflow node

/-- The task row was made for a node of the workflow's graph that was reached. -/
def Steered (key : TaskKey) : Prop :=
  ∃ g node, db.graph workflow = some g ∧ g.node? node.id = some node ∧ key.nodeId = some node.id ∧
    key.name = taskName node ∧ key.sourceCode = taskSourceCode node ∧ Reached events db workflow node.id

def Message.Steered : Message → Prop
  | .processNextNode job => job.workflow = workflow →
      db.graph workflow = some job.graph ∧ Reached events db workflow job.currentNodeId
  | .executeWorkflowV2 _ => True

def Origin.Steered : Origin → Prop
  | .message taken => taken.Steered events db workflow
  | .request _ => True

/-- The messages about to be sent follow the graph, and so does `current_node_id` in the rows that
will be saved. Who goes on from a task has saved its success. -/
def Control.Steered : Control → Prop
  | .send messages => ∀ message ∈ messages, message.Steered events db workflow
  | .openData opened _ => opened = workflow → Begun db workflow
  | .openSave asked row | .pauseSave asked row | .resumeTasks asked row _ | .resumeSave asked row _
  | .cancelTasks asked row | .cancelTask asked row _ _ _ | .cancelSave asked row =>
    asked = workflow → Slotted events db workflow row
  | .park job row => job.workflow = workflow → Slotted events db workflow row
  | .successSave _ _ _ task retval => task.Succeeds retval
  | .successRow _ _ _ task retval | .successData _ _ _ task _ retval => task.workflow = workflow →
      ∀ source, task.nodeId = some source → Finished events workflow source retval
  | .failSave _ _ task row _ | .failClose _ _ task row _ => task.workflow = workflow → Slotted events db workflow row
  | .resumeData asked _ node => asked = workflow → Reached events db workflow node
  | .childCreate _ _ _ row | .launchCreate row => row.currentNodeId = none
  | _ => True

structure SteeredRows : Prop where
  sent : ∀ origin message, (origin,.send message) ∈ events → message.Steered events db workflow
  queue : ∀ message ∈ db.queue, message.Steered events db workflow
  slot : ∀ row, db.workflows[workflow]? = some row → Slotted events db workflow row
  tasks : ∀ id key, db.taskKey id = some key → key.workflow = workflow → Steered events db workflow key

end routes

/-- The rows stay, an opened workflow stays opened with the graph it has, and the events are recorded. -/
structure Onward (workflow : WorkflowId) (events later : List (Origin × Operation)) (db after : Db) : Prop where
  grows : Grows db after
  opened : Begun db workflow → Begun after workflow ∧ after.graph workflow = db.graph workflow
  keeps : events ⊆ later

namespace Onward
variable {workflow : WorkflowId} {events later : List (Origin × Operation)} {db after : Db}
  (onward : Onward workflow events later db after)
include onward

theorem finished {source : NodeId} {retval : Json} (finished : Finished events workflow source retval) :
    Finished later workflow source retval := by
  obtain ⟨origin,id,task,saved,rest⟩ := finished
  exact ⟨origin,id,task,onward.keeps saved,rest⟩

theorem leads {g : Graph} {node : NodeId} (leads : Leads events workflow g node) : Leads later workflow g node := by
  rcases leads with start | ⟨source,retval,nodeIds,finished,selected,member⟩
  · exact .inl start
  · exact .inr ⟨source,retval,nodeIds,onward.finished finished,selected,member⟩

theorem reached {node : NodeId} (reached : Reached events db workflow node) : Reached later after workflow node := by
  obtain ⟨begun,g,graph,leads⟩ := reached
  obtain ⟨still,same⟩ := onward.opened begun
  exact ⟨still,g,same.trans graph,onward.leads leads⟩

theorem slotted {row : Workflow} (slotted : Slotted events db workflow row) : Slotted later after workflow row :=
  fun node found => onward.reached (slotted node found)

theorem steered {key : TaskKey} (steered : Steered events db workflow key) : Steered later after workflow key := by
  obtain ⟨g,node,graph,known,id,name,code,reached⟩ := steered
  exact ⟨g,node,(onward.opened reached.1).2.trans graph,known,id,name,code,onward.reached reached⟩

theorem message {message : Message} (steered : message.Steered events db workflow) : message.Steered later after workflow := by
  cases message with
  | executeWorkflowV2 => trivial
  | processNextNode job =>
    intro same
    obtain ⟨graph,reached⟩ := steered same
    exact ⟨(onward.opened reached.1).2.trans graph,onward.reached reached⟩

theorem origin {origin : Origin} (steered : origin.Steered events db workflow) : origin.Steered later after workflow := by
  cases origin with
  | message message => exact onward.message steered
  | request => trivial

theorem control {control : Control} (steered : control.Steered events db workflow) : control.Steered later after workflow := by
  cases control with
  | send => exact fun message member => onward.message (steered message member)
  | openData => exact fun same => (onward.opened (steered same)).1
  | openSave | pauseSave | resumeTasks | resumeSave | cancelTasks | cancelTask | cancelSave | park | failSave | failClose =>
    exact fun same => onward.slotted (steered same)
  | successRow | successData => exact fun same source named => onward.finished (steered same source named)
  | resumeData => exact fun same => onward.reached (steered same)
  | childCreate | launchCreate | successSave => exact steered
  | _ => trivial

end Onward

section steering
variable {definitions : Definitions} {events later : List (Origin × Operation)} {db after : Db} {workflow : WorkflowId}
  {origin : Origin} {control : Control} {operation : Operation}

/-- Whoever saves a workflow has started it. -/
theorem saved_started {id : WorkflowId} {saved : Workflow} (statused : control.Statused)
    (busy : control.operation = some (.saveWorkflow id saved)) : saved.status ≠ .init := by
  cases control with
  | park job row =>
    cases busy
    have waits : row.status = .wait := statused
    simp [waits]
  | failClose depth failed task row error =>
    cases busy
    simp only [Error.workflowStatus]
    split <;> exact WorkflowStatus.noConfusion
  | openSave | closeSave | pauseSave | resumeSave | cancelSave =>
    cases busy
    exact WorkflowStatus.noConfusion
  | send messages => cases messages <;> cases busy
  | _ => cases busy

theorem begun_effect (statused : control.Statused) (busy : control.operation = some operation)
    (begun : Begun db workflow) : Begun (operation.effect db) workflow := by
  obtain ⟨row,stored,started⟩ := begun
  have bound := (List.getElem?_eq_some_iff.mp stored).1
  cases operation with
  | saveWorkflow id saved =>
    by_cases same : id = workflow
    · subst id
      exact ⟨saved,List.getElem?_set_self bound,saved_started statused busy⟩
    · exact ⟨row,(List.getElem?_set_ne same).trans stored,started⟩
  | createWorkflow created => exact ⟨row,(List.getElem?_append_left bound).trans stored,started⟩
  | _ => exact ⟨row,stored,started⟩

/-- The opened workflow keeps its graph, unless an update changes it. -/
theorem graph_effect (linked : control.Linked db origin) (busy : control.operation = some operation)
    (unedited : ∀ id data, operation = .saveTemplate id data → (operation.effect db).graph workflow = db.graph workflow)
    (known : (db.workflowKey workflow).isSome) : (operation.effect db).graph workflow = db.graph workflow := by
  cases operation with
  | saveTemplate id data => exact unedited id data rfl
  | _ =>
    obtain ⟨key,stored⟩ := Option.isSome_iff_exists.mp known
    have kept := (keyed_grows (linked_keyed linked busy)).workflow workflow key stored
    unfold Db.graph
    rw [kept,stored]
    rfl

theorem Begun.known (begun : Begun db workflow) : (db.workflowKey workflow).isSome := by
  obtain ⟨row,stored,_⟩ := begun
  rw [Db.workflowKey,stored]
  rfl

theorem Origin.Steered.elim {job : Job} (steered : (Origin.message (.processNextNode job)).Steered events db workflow)
    (same : job.workflow = workflow) : db.graph workflow = some job.graph ∧ Reached events db workflow job.currentNodeId :=
  steered same

/-- `current_node_id` in a row that is saved is that of the copy, the node of a parked
message, or the node of the last task. -/
theorem saved_slotted {saved : Workflow} (linked : control.Linked db origin) (rows : SteeredRows events db workflow)
    (taken : origin.Steered events db workflow) (steered : control.Steered events db workflow)
    (busy : control.operation = some (.saveWorkflow workflow saved)) : Slotted events db workflow saved := by
  cases control with
  | openSave | pauseSave | resumeSave | cancelSave | failClose =>
    cases busy
    exact steered rfl
  | park job row =>
    cases busy
    rintro node ⟨⟩
    rw [linked.1] at taken
    exact (taken.elim rfl).2
  | closeSave celery depth id task row retval =>
    cases busy
    intro node found
    obtain ⟨g,known,_,_,named,_,_,reached⟩ := rows.tasks id task.key linked.1.stored rfl
    have same : some node = some known.id := found.symm.trans named
    cases same
    exact reached
  | send messages => cases messages <;> cases busy
  | _ => cases busy

theorem getWorkflow_slotted {asked : WorkflowId} {row : Workflow} (rows : SteeredRows events db workflow)
    (found : db.getWorkflow asked = .ok row) (same : asked = workflow) : Slotted events db workflow row := by
  subst same
  unfold Db.getWorkflow at found
  split at found
  next stored =>
    cases found
    exact rows.slot row stored
  next => cases found

theorem cancelling_steered {asked : WorkflowId} {row : Workflow} (entries : List (TaskId × Task))
    (slotted : asked = workflow → Slotted events db workflow row) :
    (Control.cancelling asked row entries).Steered events db workflow :=
  Control.cancelling_elim (fun _ => slotted) (fun _ _ _ _ _ _ _ => slotted)

theorem handling_steered {celery : CeleryId} {depth : Nat} {id : TaskId} {task : Task} {retval : Json} :
    (Control.handling celery depth id task retval).Steered events db workflow :=
  Control.handling_elim trivial (fun _ => trivial) (fun _ _ _ => ⟨rfl,rfl⟩)

theorem checking_steered {job : Job} {row : Workflow} {node : Node} {inputs : List NodeId} :
    (Control.checking job row node inputs).Steered events db workflow :=
  Control.checking_elim (fun _ _ _ => trivial)
    (fun _ => Control.admitted_elim (fun _ _ => trivial) (fun _ _ => trivial) (fun _ => trivial))

/-- The messages that follow a finished task go to the next nodes of its result. -/
theorem processMessages_steered {g : Graph} {source : NodeId} {retval : Json} {nodeIds : List NodeId} {asked : WorkflowId}
    (begun : asked = workflow → Begun db workflow) (graph : asked = workflow → db.graph workflow = some g)
    (finished : asked = workflow → Finished events workflow source retval)
    (selected : successors g (some source) retval = .ok nodeIds) :
    ∀ message ∈ processMessages g asked nodeIds, message.Steered events db workflow := by
  intro message member
  obtain ⟨node,inside,rfl⟩ := List.mem_map.mp member
  rintro rfl
  have leads : Leads events asked g node := .inr ⟨source,retval,nodeIds,finished rfl,selected,List.mem_of_mem_filter inside⟩
  exact ⟨graph rfl,begun rfl,g,graph rfl,leads⟩

theorem steered_next {outside : Outside} (linked : control.Linked db origin)
    (rows : SteeredRows events db workflow) (steered : control.Steered events db workflow)
    (busy : control.operation = some operation) (onward : Onward workflow events later db (operation.effect db))
    (recorded : (origin,operation) ∈ later) :
    (control.next definitions db outside).Steered later (operation.effect db) workflow := by
  have slotted {asked : WorkflowId} {row : Workflow} (found : db.getWorkflow asked = .ok row) (same : asked = workflow) :
      Slotted later (operation.effect db) workflow row :=
    onward.slotted (getWorkflow_slotted rows found same)
  cases control with
  | done => cases busy
  | send messages => exact fun message member => onward.message (steered message (List.mem_of_mem_tail member))
  | openRead asked =>
    simp only [Control.next]
    split
    next row found => exact slotted found
    next => trivial
  | openSave asked row =>
    cases busy
    rintro rfl
    obtain ⟨old,stored,_⟩ := Option.map_eq_some_iff.mp linked.2
    have bound := (List.getElem?_eq_some_iff.mp stored).1
    exact ⟨_,List.getElem?_set_self bound,WorkflowStatus.noConfusion⟩
  | openData asked row =>
    cases busy
    simp only [Control.next]
    split
    next g data =>
      split
      next =>
        intro message member
        obtain ⟨id,start,rfl⟩ := List.mem_map.mp member
        rintro rfl
        have graph : db.graph asked = some g := templateData_graph linked.2 data
        exact ⟨graph,steered rfl,g,graph,.inl start⟩
      next => trivial
    next => trivial
  | take job =>
    simp only [Control.next]
    split
    next row found =>
      split
      · split
        · exact slotted found
        · exact checking_steered
      · trivial
    next => trivial
  | successRead celery retval =>
    simp only [Control.next]
    split
    · exact handling_steered
    · trivial
  | climb =>
    simp only [Control.next]
    split
    · exact handling_steered
    · trivial
  | successSave celery depth id task retval =>
    cases busy
    exact fun same source named => ⟨origin,id,task,recorded,same,named,steered⟩
  | successRow =>
    simp only [Control.next]
    split
    · split
      · trivial
      · exact fun same source named => onward.finished (steered same source named)
    · trivial
  | successData celery depth id task row retval =>
    cases busy
    simp only [Control.next]
    split
    next g data =>
      split
      next nodeIds selected =>
        split
        · trivial
        · cases named : task.nodeId with
          | none =>
            rw [named] at selected
            unfold successors at selected
            cases listed : g.adjacencyList <;> simp [listed,Option.bind,bind,Except.bind] at selected
          | some source =>
            refine processMessages_steered (fun same => ?_) (fun same => ?_) (fun same => ?_) (named ▸ selected)
            · obtain ⟨_,_,_,_,_,_,_,reached⟩ := rows.tasks id task.key linked.1.stored same
              exact reached.1
            · exact same ▸ templateData_graph linked.2 data
            · exact onward.finished (steered same source named)
      next => trivial
    next => trivial
  | failRow depth id task error =>
    simp only [Control.next]
    split
    next row found => exact slotted found
    next => trivial
  | failSave => exact fun same => onward.slotted (steered same)
  | templateRead =>
    simp only [Control.next]
    split
    · exact rfl
    · trivial
  | launchRead => exact rfl
  | launchCreate =>
    intro message member
    cases List.mem_singleton.mp member
    trivial
  | pauseRead asked =>
    simp only [Control.next]
    split
    next row found =>
      split
      · exact slotted found
      · trivial
    next => trivial
  | resumeRead asked payload =>
    simp only [Control.next]
    split
    next row found =>
      split
      · exact slotted found
      · trivial
    next => trivial
  | resumeTasks =>
    simp only [Control.next]
    split
    · trivial
    · exact fun same => onward.slotted (steered same)
  | resumeSave asked row payload =>
    simp only [Control.next]
    split
    · trivial
    next node found =>
      have stored := (Option.filter_eq_some_iff.mp found).1
      exact fun same => onward.reached (steered same node stored)
  | resumeData asked row node =>
    cases busy
    simp only [Control.next]
    split
    next g data =>
      split
      next =>
        intro message member
        cases List.mem_singleton.mp member
        rintro rfl
        exact ⟨templateData_graph linked.2 data,onward.reached (steered rfl)⟩
      next => trivial
    next => trivial
  | cancelRead asked =>
    simp only [Control.next]
    split
    next row found =>
      split
      · trivial
      · exact slotted found
    next => trivial
  | cancelTasks => exact cancelling_steered _ (fun same => onward.slotted (steered same))
  | cancelTask => exact cancelling_steered _ (fun same => onward.slotted (steered same))
  | runCode | logSave | progressSave =>
    exact Control.calling_elim (fun _ _ _ => trivial) (fun _ _ _ => trivial) (fun _ _ => trivial) (fun _ _ => trivial)
  | previousRead => exact Control.withOutput_elim (fun _ _ => trivial) (fun _ _ => trivial)
  | failRead | failReload =>
    simp only [Control.next]
    split
    · exact Control.failing_elim trivial (fun _ _ => trivial)
    · trivial
  | inputRead =>
    simp only [Control.next]
    split
    · exact checking_steered
    · trivial
  | _ =>
    simp only [Control.next]
    repeat' split
    all_goals trivial

end steering

/-- All that is stored, queued, at work or sent so far follows the graph of the workflow. -/
structure Steering {definitions : Definitions} (events : List (Origin × Operation)) (S : Controlled definitions)
    (workflow : WorkflowId) : Prop where
  sound : Sound S
  statused : Statused S
  rows : SteeredRows events S.shared workflow
  threads : ∀ thread ∈ S.threads, thread.1.Steered events S.shared workflow ∧
    Control.Steered events S.shared workflow thread.2

section step
variable {definitions : Definitions} {events : List (Origin × Operation)} {before after : Controlled definitions}
  {label : Action} {workflow : WorkflowId} {origin : Origin} {control : Control} {operation : Operation}

/-- No allowed update changes the graph of a workflow that has been opened. -/
theorem edited_before {index : Nat} {answer : Outside} {id : TemplateId} {data : Graph}
    (allowed : editedBefore workflow before.view (.advance index answer))
    (found : before.threads[index]? = some (origin,control)) (busy : control.operation = some (.saveTemplate id data))
    (begun : Begun before.shared workflow) :
    ((Operation.saveTemplate id data).effect before.shared).graph workflow = before.shared.graph workflow := by
  have seen := System.view_found found
  change before.view.threads[index]? = some (origin,control.operation) at seen
  rw [busy] at seen
  by_contra differs
  have early := allowed (by simp only [reshapes,seen]; exact decide_eq_true differs)
  obtain ⟨row,stored,started⟩ := begun
  change (before.shared.workflows[workflow]?).all (fun row => row.status == .init) = true at early
  rw [stored] at early
  exact started (by simpa using early)

theorem onward_effect (events : List (Origin × Operation)) {index : Nat} {answer : Outside} (sound : Sound before)
    (statused : Statused before)
    (allowed : editedBefore workflow before.view (.advance index answer))
    (found : before.threads[index]? = some (origin,control)) (busy : control.operation = some operation) :
    Onward workflow events (events ++ [(origin,operation)]) before.shared (operation.effect before.shared) := by
  have member := List.mem_of_getElem? found
  have linked := (sound.threads _ member).2
  refine ⟨keyed_grows (linked_keyed linked busy),fun begun => ⟨?_,?_⟩,List.subset_append_left _ _⟩
  · exact begun_effect (statused _ member) busy begun
  · refine graph_effect linked busy (fun id data same => ?_) begun.known
    subst same
    exact edited_before allowed found busy begun

/-- The rows and the messages of a workflow after an operation. -/
theorem rows_steered {later : List (Origin × Operation)} (steering : Steering events before workflow)
    (member : (origin,control) ∈ before.threads) (busy : control.operation = some operation)
    (onward : Onward workflow events later before.shared (operation.effect before.shared))
    (recorded : ∀ event ∈ later, event ∈ events ∨ event = (origin,operation)) :
    SteeredRows later (operation.effect before.shared) workflow := by
  obtain ⟨taken,steered⟩ := steering.threads _ member
  have linked := (steering.sound.threads _ member).2
  have sends (message : Message) (sent : operation = .send message) : message.Steered events before.shared workflow := by
    subst sent
    rcases send_inv busy with ⟨rest,rfl⟩ | ⟨_,_,_,_,rfl,rfl⟩
    · exact steered message List.mem_cons_self
    · trivial
  refine ⟨fun other message sent => onward.message ?_,fun message queued => onward.message ?_,fun row stored => ?_,
    fun id key stored owner => ?_⟩
  · rcases recorded _ sent with old | new
    · exact steering.rows.sent other message old
    · exact sends message (congrArg Prod.snd new).symm
  · cases operation with
    | send message =>
      rcases List.mem_append.mp queued with old | new
      · exact steering.rows.queue _ old
      · cases List.mem_singleton.mp new
        exact sends message rfl
    | _ => exact steering.rows.queue _ queued
  · cases operation with
    | saveWorkflow id saved =>
      refine onward.slotted ?_
      change (before.shared.workflows.set id saved)[workflow]? = _ at stored
      rw [List.getElem?_set] at stored
      split at stored
      next same =>
        subst id
        split at stored
        · cases stored
          exact saved_slotted linked steering.rows taken steered busy
        · cases stored
      next => exact steering.rows.slot row stored
    | createWorkflow created =>
      refine onward.slotted ?_
      change (before.shared.workflows ++ [created])[workflow]? = _ at stored
      rw [List.getElem?_append] at stored
      split at stored
      · exact steering.rows.slot row stored
      · cases List.mem_singleton.mp (List.mem_of_getElem? stored)
        intro node found
        rcases createWorkflow_inv busy with ⟨_,_,_,rfl⟩ | rfl
        all_goals cases steered.symm.trans found
    | _ => exact onward.slotted (steering.rows.slot row stored)
  · by_cases creates : ∃ row, operation = .createTask row
    · obtain ⟨row,rfl⟩ := creates
      rw [createTask_taskKey] at stored
      split at stored
      next =>
        -- the new row is that of the node which the message of its worker names
        obtain ⟨job,found,node,payload,output,rfl,rfl⟩ := createTask_inv busy
        cases Option.some.inj stored
        rw [linked.message] at taken
        obtain ⟨graph,reached⟩ := taken.elim owner
        have same := node?_id linked.known
        exact onward.steered ⟨job.graph,node,graph,same ▸ linked.known,rfl,rfl,rfl,same ▸ reached⟩
      next => exact onward.steered (steering.rows.tasks id key stored owner)
    · have kept := taskKey_effect (linked_keyed linked busy) (fun row made => creates ⟨row,made⟩) id
      exact onward.steered (steering.rows.tasks id key (kept.symm.trans stored) owner)

theorem origin_steered (events : List (Origin × Operation)) (db : Db) (workflow : WorkflowId) (origin : Origin) :
    origin.control.Steered events db workflow := by
  cases origin with
  | message message => cases message <;> trivial
  | request request => cases request <;> trivial

theorem steering_step (steering : Steering events before workflow) (allowed : editedBefore workflow before.view label)
    (step : Step machine Origin.control before label after) : Steering (events ++ before.event label) after workflow := by
  have sound := (sound_step steering.sound step).1
  have statused := statused_step steering.statused step
  cases step with
  | advance index answer origin control operation found busy =>
    have member := List.mem_of_getElem? found
    rw [event_advance found busy]
    have onward := onward_effect events steering.sound steering.statused allowed found busy
    have rows := rows_steered steering member busy onward (fun event there => by simpa using there)
    refine ⟨sound,statused,rows,fun thread inside => ?_⟩
    rcases List.mem_or_eq_of_mem_set inside with others | rfl
    · obtain ⟨taken,steered⟩ := steering.threads _ others
      exact ⟨onward.origin taken,onward.control steered⟩
    · obtain ⟨taken,steered⟩ := steering.threads _ member
      exact ⟨onward.origin taken,steered_next (steering.sound.threads _ member).2 steering.rows steered busy onward
        (List.mem_append_right _ (List.mem_singleton_self _))⟩
  | close index =>
    rw [show before.event (.close index : Action) = [] from rfl,List.append_nil]
    exact ⟨sound,statused,steering.rows,fun thread inside => steering.threads _ (List.mem_of_mem_eraseIdx inside)⟩
  | keep environment changed reacts | spawn environment changed origin reacts | drop environment changed index reacts =>
    rw [show before.event (.move environment : Action) = [] from rfl,List.append_nil]
    obtain ⟨queue,rfl,queued,spawned,_⟩ := react_queue reacts
    have onward : Onward workflow events events before.shared {before.shared with queue := queue} :=
      ⟨⟨fun _ _ found => found,fun _ _ found => found⟩,fun begun => ⟨begun,rfl⟩,List.Subset.refl _⟩
    have rows : SteeredRows events {before.shared with queue := queue} workflow := by
      refine ⟨fun other message sent => onward.message (steering.rows.sent other message sent),fun message inside => ?_,
        fun row stored => onward.slotted (steering.rows.slot row stored),
        fun id key stored owner => onward.steered (steering.rows.tasks id key stored owner)⟩
      rcases queued message inside with old | taken
      · exact onward.message (steering.rows.queue _ old)
      · obtain ⟨thread,present,same⟩ := List.mem_map.mp taken
        have steered := (steering.threads _ present).1
        rw [same] at steered
        exact onward.message steered
    have others (thread : Origin × Control) (inside : thread ∈ before.threads) :
        thread.1.Steered events {before.shared with queue := queue} workflow ∧
          Control.Steered events {before.shared with queue := queue} workflow thread.2 := by
      obtain ⟨taken,steered⟩ := steering.threads _ inside
      exact ⟨onward.origin taken,onward.control steered⟩
    refine ⟨sound,statused,rows,fun thread inside => ?_⟩
    first
    | exact others _ inside
    | exact others _ (List.mem_of_mem_eraseIdx inside)
    | rcases List.mem_append.mp inside with old | new
      · exact others _ old
      · cases List.mem_singleton.mp new
        refine ⟨?_,origin_steered _ _ _ _⟩
        cases origin with
        | message message => exact onward.message (steering.rows.queue _ (spawned message rfl))
        | request => trivial

/-- An opened workflow stays opened, with the graph it has. -/
theorem begun_step (sound : Sound before) (statused : Statused before) (allowed : editedBefore workflow before.view label)
    (step : Step machine Origin.control before label after) (begun : Begun before.shared workflow) :
    Begun after.shared workflow ∧ after.shared.graph workflow = before.shared.graph workflow := by
  rcases step.shared_cases with equal | ⟨index,answer,origin,control,operation,rfl,found,busy,equal⟩ | ⟨_,_,_,reacts⟩
  · rw [equal]
    exact ⟨begun,rfl⟩
  · rw [equal]
    exact (onward_effect [] sound statused allowed found busy).opened begun
  · obtain ⟨queue,equal,_⟩ := react_queue reacts
    rw [equal]
    exact ⟨begun,rfl⟩

end step

section run
variable {definitions : Definitions} {workflow : WorkflowId}

theorem unused_steering (definitions : Definitions) (templates : List WorkflowTemplate) (workflow : WorkflowId) :
    Steering [] (unused definitions templates) workflow := by
  refine ⟨unused_sound templates,fun _ member => absurd member List.not_mem_nil,⟨fun _ _ member => absurd member List.not_mem_nil,
    fun _ member => absurd member List.not_mem_nil,fun row stored => ?_,fun id key found => ?_⟩,
    fun _ member => absurd member List.not_mem_nil⟩
  · simp [unused,installed] at stored
  · simp [unused,installed,Db.taskKey] at found

theorem steering_run {templates : List WorkflowTemplate} {events : List (Origin × Operation)} {last : Controlled definitions}
    (run : Run machine Origin.control (editedBefore workflow) (unused definitions templates) events last) :
    Steering events last workflow :=
  run.recorded (fun events S => Steering events S workflow)
    (fun _ _ _ _ steering allowed step => steering_step steering allowed step) (unused_steering definitions templates workflow)

theorem begun_run {events : List (Origin × Operation)} {first last : Controlled definitions}
    (run : Run machine Origin.control (editedBefore workflow) first events last) (sound : Sound first)
    (statused : Statused first) (begun : Begun first.shared workflow) :
    Begun last.shared workflow ∧ last.shared.graph workflow = first.shared.graph workflow := by
  refine (run.invariant (fun S => Sound S ∧ Statused S ∧ Begun S.shared workflow ∧
    S.shared.graph workflow = first.shared.graph workflow) ?_ ⟨sound,statused,begun,rfl⟩).2.2
  rintro before label after ⟨sound,statused,begun,same⟩ allowed step
  obtain ⟨still,kept⟩ := begun_step sound statused allowed step begun
  exact ⟨(sound_step sound step).1,statused_step statused step,still,kept.trans same⟩

end run

end FinmarsWorkflow
