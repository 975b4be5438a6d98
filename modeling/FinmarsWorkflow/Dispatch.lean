import FinmarsWorkflow.Carriers
import FinmarsWorkflow.Isolation
import FinmarsWorkflow.Routes

/-! What a finished task leads to is sent for.
Between the save of a success and the last message to a next node there is a worker
that goes on with it. Where no worker is lost and the data of the template stays, every
success that is stored has been followed by the messages to all its next nodes, or a
worker is about to send them. -/
namespace FinmarsWorkflow
open Interleave Relation

/-- A worker of the workflow, or of one nested in it, is lost. -/
def forsakes (workflow : WorkflowId) (view : Seen) : Action → Bool
  | .move (.lose index) => match view.threads[index]? with
    | some (.message message,_) => view.shared.within workflow message.workflow
    | _ => false
  | _ => false

/-- No update changes the data of the workflow's template once it is opened, and no worker of it is lost. -/
def steady (workflow : WorkflowId) : Allowed := fun view label =>
  editedBefore workflow view label ∧ forsakes workflow view label = false

instance (workflow : WorkflowId) (view : Seen) (label : Action) : Decidable (steady workflow view label) :=
  inferInstanceAs (Decidable (_ ∧ _))

section owing
variable (workflow : WorkflowId) (g : Graph) (target : NodeId)

/-- A message to the node has been sent. -/
def Sent (events : List (Origin × Operation)) : Prop :=
  ∃ origin job, (origin,.send (.processNextNode job)) ∈ events ∧ job.workflow = workflow ∧ job.currentNodeId = target

/-- Who goes on here sends a message to the node. -/
def Control.Owes : Control → Prop
  | .send messages => ∃ job, .processNextNode job ∈ messages ∧ job.workflow = workflow ∧ job.currentNodeId = target
  | .successRow _ _ _ task retval | .successData _ _ _ task _ retval => task.workflow = workflow ∧
      ∃ nodeIds, successors g task.nodeId retval = .ok nodeIds ∧ target ∈ nodeIds
  | _ => False

/-- A message to the node has been sent, or a worker is about to send it. -/
def Owed {definitions : Definitions} (events : List (Origin × Operation)) (S : Controlled definitions) : Prop :=
  Sent workflow target events ∨ ∃ thread ∈ S.threads, (∃ job, thread.1 = .message (.processNextNode job)) ∧
    Control.Owes workflow g target thread.2

end owing

section owed
variable {definitions : Definitions} {events : List (Origin × Operation)} {before after : Controlled definitions}
  {label : Action} {workflow : WorkflowId} {g : Graph} {target : NodeId} {origin : Origin} {control : Control}
  {operation : Operation}

theorem Sent.mono {later : List (Origin × Operation)} (sent : Sent workflow target events) (keeps : events ⊆ later) :
    Sent workflow target later := by
  obtain ⟨origin,job,member,rest⟩ := sent
  exact ⟨origin,job,keeps member,rest⟩

/-- A row with the key of a workflow that has a graph finds this graph. -/
theorem graph_templateData {db : Db} {row : Workflow} (graph : db.graph workflow = some g)
    (stored : db.workflowKey workflow = some row.key) :
    db.templateData row = .ok g ∧ row.workflowTemplate.isNone = false := by
  unfold Db.graph at graph
  rw [stored] at graph
  cases template : row.workflowTemplate with
  | none =>
    have none : row.key.workflowTemplate = none := template
    simp [none] at graph
  | some id =>
    have same : row.key.workflowTemplate = some id := template
    simp only [Option.bind_some,same,Option.map_eq_some_iff] at graph
    obtain ⟨found,there,rfl⟩ := graph
    simp [Db.templateData,template,there]

theorem getWorkflow_known {db : Db} {id : WorkflowId} (known : (db.workflowKey id).isSome) :
    ∃ row, db.getWorkflow id = .ok row := by
  obtain ⟨key,stored⟩ := Option.isSome_iff_exists.mp known
  obtain ⟨row,there,_⟩ := Option.map_eq_some_iff.mp stored
  exact ⟨row,by simp [Db.getWorkflow,there]⟩

/-- Who owes a message has a step left, and sends it then or owes it afterwards. -/
theorem owes_next {db : Db} {outside : Outside} (linked : control.Linked db origin) (graph : db.graph workflow = some g)
    (known : (g.node? target).isSome) (owes : control.Owes workflow g target) :
    ∃ operation, control.operation = some operation ∧
      ((∃ job, operation = .send (.processNextNode job) ∧ job.workflow = workflow ∧ job.currentNodeId = target) ∨
        (control.next definitions db outside).Owes workflow g target) := by
  cases control with
  | send messages =>
    obtain ⟨job,member,owner,node⟩ := owes
    cases messages with
    | nil => cases member
    | cons head rest =>
      refine ⟨_,rfl,?_⟩
      rcases List.mem_cons.mp member with rfl | inside
      · exact .inl ⟨job,rfl,owner,node⟩
      · exact .inr ⟨job,inside,owner,node⟩
  | successRow celery depth id task retval =>
    refine ⟨_,rfl,.inr ?_⟩
    obtain ⟨rfl,nodeIds,selected,member⟩ := owes
    cases stored : db.workflowKey task.workflow with
    | none => simp [Db.graph,stored] at graph
    | some key =>
      obtain ⟨row,found⟩ := getWorkflow_known (Option.isSome_iff_exists.mpr ⟨key,stored⟩)
      obtain ⟨_,template⟩ := graph_templateData graph (getWorkflow_key found)
      simp only [Control.next,found,template]
      exact ⟨rfl,nodeIds,selected,member⟩
  | successData celery depth id task row retval =>
    refine ⟨_,rfl,.inr ?_⟩
    obtain ⟨rfl,nodeIds,selected,member⟩ := owes
    obtain ⟨data,_⟩ := graph_templateData graph linked.2
    cases nodeIds with
    | nil => cases member
    | cons head rest =>
      simp only [Control.next,data,selected]
      exact ⟨_,List.mem_map.mpr ⟨target,List.mem_filter.mpr ⟨member,known⟩,rfl⟩,rfl,rfl⟩
  | _ => cases owes

/-- Who owes a message works for the workflow or for one nested in it. -/
theorem owes_below {db : Db} {job : Job} (linked : control.Linked db (.message (.processNextNode job)))
    (owes : control.Owes workflow g target) : db.Above job.workflow workflow := by
  cases control with
  | send messages =>
    obtain ⟨next,member,rfl,_⟩ := owes
    exact (linked _ member).2
  | successRow =>
    obtain ⟨rfl,_⟩ := owes
    exact linked.scope
  | successData =>
    obtain ⟨rfl,_⟩ := owes
    exact linked.1.scope
  | _ => cases owes

/-- A message that is owed stays owed until it is sent. -/
theorem owed_step (sound : Sound before) (graph : before.shared.graph workflow = some g) (known : (g.node? target).isSome)
    (allowed : forsakes workflow before.view label = false) (step : Step machine Origin.control before label after)
    (owed : Owed workflow g target events before) : Owed workflow g target (events ++ before.event label) after := by
  rcases owed with sent | ⟨⟨origin,control⟩,member,worker,owes⟩
  · exact .inl (sent.mono (List.subset_append_left _ _))
  obtain ⟨job,rfl⟩ := worker
  have linked := (sound.threads _ member).2
  have goes (answer : Outside) := @owes_next definitions _ _ _ _ _ _ answer linked graph known owes
  rcases step.remains member with inside | ⟨index,answer,operation,rfl,found,busy,_,new⟩ | idle | ⟨_,_,rfl,there,reacts⟩
  · exact .inr ⟨_,inside,⟨job,rfl⟩,owes⟩
  · obtain ⟨performed,operates,sends⟩ := goes answer
    cases Option.some.inj (operates.symm.trans busy)
    rcases sends with ⟨next,rfl,owner,node⟩ | still
    · rw [event_advance found busy]
      exact .inl ⟨_,next,List.mem_append_right _ (List.mem_singleton_self _),owner,node⟩
    · exact .inr ⟨_,new,⟨job,rfl⟩,still⟩
  · obtain ⟨_,operates,_⟩ := goes (.returns .null)
    cases operates.symm.trans idle
  · -- the worker that owes the message is not the one that is lost
    have within := above_within sound.shared (owes_below linked owes)
    have seen := System.view_found there
    rcases react_inv reacts with ⟨_,_,_,_,_,⟨⟩⟩ | ⟨_,_,_,⟨⟩⟩ | ⟨_,_,_,_,_,⟨⟩⟩ | ⟨index,message,rfl,_,_,⟨⟩⟩ |
      ⟨index,request,rfl,_,_,⟨⟩⟩
    all_goals
      simp only [forsakes,seen] at allowed
      exact absurd (allowed.symm.trans within) Bool.false_ne_true

end owed

/-- The output that a condition takes. -/
def takenOutput (value : Json) : String := if value.truthy then "out_true" else "out_false"

/-- The target of the first connection of the output that a condition takes. -/
def Graph.taken (g : Graph) (source : NodeId) (value : Json) : Option NodeId :=
  (g.connections.find? (fun connection => connection.source == source &&
    connection.sourceOutput == takenOutput value)).map Connection.target

/-- With this result a finished node leads to the target: a condition along the first connection of
the output it takes, any other node along all its connections. -/
def Graph.Selects (g : Graph) (source : NodeId) (retval : Json) (target : NodeId) : Prop :=
  ∃ node, g.node? source = some node ∧
    if node.isCondition then
      ∃ fields value, retval = .obj fields ∧ fields.lookup "result" = some value ∧ target ≠ "" ∧
        g.taken source value = some target
    else target ∈ g.adjacent source

section selecting
variable {g : Graph} {source target : NodeId} {retval : Json} {nodeIds : List NodeId}

theorem getNextNode_inv {next : Option NodeId}
    (routed : getNextNodeByCondition source retval g.connections = .ok next) :
    ∃ fields value, retval = .obj fields ∧ fields.lookup "result" = some value ∧ g.taken source value = next := by
  unfold getNextNodeByCondition at routed
  split at routed
  next fields =>
    split at routed
    next value found => exact ⟨fields,value,rfl,found,Except.ok.inj routed⟩
    next => cases routed
  all_goals first | cases routed | (split at routed <;> cases routed)

theorem successors_selects (routed : successors g (some source) retval = .ok nodeIds) (member : target ∈ nodeIds) :
    g.Selects source retval target := by
  simp only [successors,bind,Except.bind] at routed
  split at routed
  next => cases routed
  next adjacency listed =>
    cases adjacencyList_ok listed
    cases known : g.node? source with
    | none => simp [known] at routed
    | some node =>
      obtain rfl := node?_id known
      refine ⟨node,known,?_⟩
      simp only [Option.bind_some,known,nextNodeIds] at routed
      split at routed
      next condition =>
        rw [if_pos condition]
        cases chosen : getNextNodeByCondition node.id retval g.connections with
        | error error => simp [chosen,Except.map] at routed
        | ok next =>
          obtain ⟨fields,value,is,found,first⟩ := getNextNode_inv chosen
          simp only [chosen,Except.map,Except.ok.injEq] at routed
          subst routed
          cases next with
          | none => cases member
          | some next =>
            simp only at member
            split at member
            next differs =>
              cases List.mem_singleton.mp member
              exact ⟨fields,value,is,found,by simpa using differs,first⟩
            next => cases member
      next other =>
        rw [if_neg other]
        cases Except.ok.inj routed
        exact member

theorem selects_successors (listed : g.adjacencyList = .ok g.adjacent) (selects : g.Selects source retval target) :
    ∃ nodeIds, successors g (some source) retval = .ok nodeIds ∧ target ∈ nodeIds := by
  obtain ⟨node,known,leads⟩ := selects
  obtain rfl := node?_id known
  simp only [successors,listed,bind,Except.bind,Option.bind_some,known,nextNodeIds]
  split at leads
  next condition =>
    obtain ⟨fields,value,rfl,found,named,first⟩ := leads
    refine ⟨[target],?_,List.mem_singleton_self _⟩
    have routed : getNextNodeByCondition node.id (.obj fields) g.connections = .ok (some target) := by
      unfold getNextNodeByCondition
      split
      next equal =>
        cases equal
        rw [found]
        exact congrArg Except.ok first
      all_goals rename_i equal; cases equal
    have differs : (target != "") = true := by simpa using named
    rw [if_pos condition,routed]
    exact congrArg Except.ok (if_pos differs)
  next other =>
    rw [if_neg other]
    exact ⟨_,rfl,leads⟩

/-- The stored result of a task tells where the value of its code leads to. -/
theorem selects_stored {task : Task} {other : Json} (first : task.Succeeds retval) (second : task.Succeeds other)
    (selects : g.Selects source retval target) : g.Selects source other target := by
  obtain ⟨node,known,leads⟩ := selects
  refine ⟨node,known,?_⟩
  split at leads
  next condition =>
    rw [if_pos condition]
    obtain ⟨fields,value,rfl,found,rest⟩ := leads
    have truthy : (Json.obj fields).truthy = true := by
      cases fields with
      | nil => cases found
      | cons => rfl
    have same : (if (Json.obj fields).truthy then Json.obj fields else noResults) =
        if other.truthy then other else noResults := Option.some.inj (first.2.symm.trans second.2)
    rw [if_pos truthy] at same
    split at same
    next => exact ⟨fields,value,same.symm,found,rest⟩
    next =>
      cases same
      cases found
  next plain =>
    rw [if_neg plain]
    exact leads

end selecting

/-- A success of the row has been followed by messages to all that it leads to, or will be. -/
def Followed {definitions : Definitions} (events : List (Origin × Operation)) (S : Controlled definitions)
    (workflow : WorkflowId) (g : Graph) (task : Task) : Prop :=
  ∀ source retval target, task.nodeId = some source → task.Succeeds retval → g.Selects source retval target →
    (g.node? target).isSome → Owed workflow g target events S

/-- The copy of a row that a call of user code is about to save. -/
def Control.reread? : Control → Option Task
  | .progressSave _ _ _ row _ _ => some row
  | _ => none

structure Dispatching {definitions : Definitions} (events : List (Origin × Operation)) (S : Controlled definitions)
    (workflow : WorkflowId) : Prop where
  steering : Steering events S workflow
  carried : Carried S
  rows : ∀ g, S.shared.graph workflow = some g → g.adjacencyList = .ok g.adjacent → ∀ (id : TaskId) (task : Task),
    S.shared.tasks[id]? = some task → task.workflow = workflow → Followed events S workflow g task
  copies : ∀ g, S.shared.graph workflow = some g → g.adjacencyList = .ok g.adjacent → ∀ thread ∈ S.threads, ∀ row,
    Control.reread? thread.2 = some row → row.workflow = workflow → Followed events S workflow g row

section dispatching
variable {definitions : Definitions} {events : List (Origin × Operation)} {before after : Controlled definitions}
  {label : Action} {workflow : WorkflowId} {g : Graph} {origin : Origin} {control : Control} {operation : Operation}

theorem unsucceeded {task : Task} (status : task.status ≠ .success) : Followed events before workflow g task :=
  fun _ _ _ _ succeeds => absurd succeeds.1 status

/-- The copy that a call is about to save is the row it has just read. -/
theorem reread_next {db : Db} {outside : Outside} {row : Task}
    (copied : (control.next definitions db outside).reread? = some row) :
    ∃ (id : TaskId) (stored : Task), db.tasks[id]? = some stored ∧ row.key = stored.key ∧ row.status = stored.status ∧ row.result = stored.result := by
  have silent {point : Control} (runs : point.stage ≠ .running) : point.reread? ≠ some row := by
    cases point with
    | progressSave => exact absurd rfl runs
    | _ => rintro ⟨⟩
  cases control with
  | progressRead celery id task progress rest outcome =>
    simp only [Control.next] at copied
    split at copied
    next stored found =>
      cases copied
      exact ⟨id,stored,getTask_ok found,rfl,rfl,rfl⟩
    next => cases copied
  | runCode | logSave | progressSave =>
    exact absurd copied (Control.calling_elim (P := fun point => point.reread? ≠ some row) (by rintro _ _ _ ⟨⟩)
      (by rintro _ _ _ ⟨⟩) (by rintro _ _ ⟨⟩) (by rintro _ _ ⟨⟩))
  | startRead | startSave | stepRead =>
    simp only [Control.next] at copied
    repeat' split at copied
    all_goals cases copied
  | previousRead =>
    exact absurd copied (Control.withOutput_elim (P := fun point => point.reread? ≠ some row) (by rintro _ _ ⟨⟩)
      (by rintro _ _ ⟨⟩))
  | payloadRead | create => cases copied
  | _ => exact absurd copied (silent (Control.stage_avoids rfl))

/-- A task of a workflow is there only after the workflow was opened. -/
theorem Steering.begun (steering : Steering events before workflow) {id : TaskId} {task : Task}
    (stored : before.shared.taskKey id = some task.key) (owner : task.workflow = workflow) : Begun before.shared workflow := by
  obtain ⟨_,_,_,_,_,_,_,reached⟩ := steering.rows.tasks id task.key stored owner
  exact reached.1

/-- What a row leads to stays owed until it is sent. -/
theorem followed_step (sound : Sound before) (graph : before.shared.graph workflow = some g)
    (allowed : forsakes workflow before.view label = false) (step : Step machine Origin.control before label after)
    {task : Task} (followed : Followed events before workflow g task) :
    Followed (events ++ before.event label) after workflow g task :=
  fun source retval target named succeeds selects known =>
    owed_step sound graph known allowed step (followed source retval target named succeeds selects known)

/-- A row that is saved is a success only when its worker goes on from it, or when it was one before. -/
theorem saved_followed {index : Nat} {answer : Outside} {id : TaskId} {row : Task}
    (dispatching : Dispatching events before workflow) (graph : before.shared.graph workflow = some g)
    (listed : g.adjacencyList = .ok g.adjacent) (allowed : forsakes workflow before.view (.advance index answer) = false)
    (found : before.threads[index]? = some (origin,control)) (busy : control.operation = some (.saveTask id row))
    (step : Step machine Origin.control before (.advance index answer) after) (owner : row.workflow = workflow)
    (goes : (origin,control.next definitions before.shared answer) ∈ after.threads) :
    Followed (events ++ before.event (.advance index answer : Action)) after workflow g row := by
  have member := List.mem_of_getElem? found
  have linked := (dispatching.steering.sound.threads _ member).2
  have held := dispatching.carried.held _ member
  have running {task : Task} (status : task.status = .progress) :
      Followed (events ++ before.event (.advance index answer : Action)) after workflow g task :=
    unsucceeded (by rw [status]; exact TaskStatus.noConfusion)
  cases control with
  | startSave | logSave =>
    cases busy
    exact running held
  | progressSave =>
    cases busy
    exact followed_step dispatching.steering.sound graph allowed step (dispatching.copies g graph listed _ member _ rfl owner)
  | childSave =>
    cases busy
    exact unsucceeded TaskStatus.noConfusion
  | successSave celery depth id task retval =>
    cases busy
    intro source other target named succeeds selects _
    have own : row.Succeeds retval := (dispatching.steering.threads _ member).2
    obtain ⟨nodeIds,selected,inside⟩ := selects_successors listed (selects_stored succeeds own selects)
    exact .inr ⟨_,goes,linked.owns.worker,owner,nodeIds,named ▸ selected,inside⟩
  | failSave depth id task workflow error =>
    cases busy
    refine unsucceeded ?_
    simp only [Task.failed,Error.taskStatus]
    split <;> exact TaskStatus.noConfusion
  | cancelTask =>
    cases busy
    have status : row.status = .canceled := held
    exact unsucceeded (by rw [status]; exact TaskStatus.noConfusion)
  | send messages => cases messages <;> cases busy
  | _ => cases busy

theorem dispatching_step (dispatching : Dispatching events before workflow) (allowed : steady workflow before.view label)
    (step : Step machine Origin.control before label after) : Dispatching (events ++ before.event label) after workflow := by
  obtain ⟨unedited,attended⟩ := allowed
  have sound := dispatching.steering.sound
  have steering := steering_step dispatching.steering unedited step
  have carried := carried_step dispatching.carried step
  have earlier (g : Graph) (begun : Begun before.shared workflow) (graph : after.shared.graph workflow = some g) :
      before.shared.graph workflow = some g :=
    (begun_step sound dispatching.steering.statused unedited step begun).2.symm.trans graph
  have old (g : Graph) (graph : after.shared.graph workflow = some g) (listed : g.adjacencyList = .ok g.adjacent)
      (id : TaskId) (task : Task) (stored : before.shared.tasks[id]? = some task) (owner : task.workflow = workflow) :
      Followed (events ++ before.event label) after workflow g task := by
    have same := earlier g (dispatching.steering.begun (taskKey_of_stored stored) owner) graph
    exact followed_step sound same attended step (dispatching.rows g same listed id task stored owner)
  refine ⟨steering,carried,fun g graph listed id task stored owner => ?_,
    fun g graph listed (origin,control) member row copied owner => ?_⟩
  · cases step with
    | advance index answer origin control operation found busy =>
      cases operation with
      | saveTask other saved =>
        change (before.shared.tasks.set other saved)[id]? = _ at stored
        rw [List.getElem?_set] at stored
        split at stored
        next same =>
          subst other
          split at stored
          · cases stored
            have keyed : before.shared.taskKey id = some task.key := linked_keyed (sound.threads _ (List.mem_of_getElem? found)).2 busy
            have bound := (List.getElem?_eq_some_iff.mp found).1
            exact saved_followed dispatching (earlier g (dispatching.steering.begun keyed owner) graph) listed attended found busy
              (.advance before index answer origin control _ found busy) owner
              (List.mem_of_getElem? (List.getElem?_set_self bound))
          · cases stored
        next => exact old g graph listed id task stored owner
      | createTask created =>
        change (before.shared.tasks ++ [_])[id]? = _ at stored
        rw [List.getElem?_append] at stored
        split at stored
        · exact old g graph listed id task stored owner
        · cases List.mem_singleton.mp (List.mem_of_getElem? stored)
          obtain ⟨_,_,_,_,_,_,rfl⟩ := createTask_inv busy
          exact unsucceeded TaskStatus.noConfusion
      | _ => exact old g graph listed id task stored owner
    | close => exact old g graph listed id task stored owner
    | keep environment changed reacts | spawn environment changed origin reacts | drop environment changed index reacts =>
      obtain ⟨queue,rfl,_⟩ := react_queue reacts
      exact old g graph listed id task stored owner
  · rcases step.thread_cases member with inside | ⟨_,answer,point,_,_,found,_,_,rfl⟩ | ⟨_,_,_,rfl⟩
    · cases control with
      | progressSave =>
        cases copied
        have keyed := (sound.threads _ inside).2.2
        have same := earlier g (dispatching.steering.begun keyed owner) graph
        exact followed_step sound same attended step (dispatching.copies g same listed _ inside row rfl owner)
      | _ => cases copied
    · obtain ⟨id,stored,there,key,status,result⟩ := reread_next copied
      have home : stored.workflow = workflow := (congrArg TaskKey.workflow key).symm.trans owner
      have node : row.nodeId = stored.nodeId := congrArg TaskKey.nodeId key
      intro source retval target named succeeds
      exact old g graph listed id stored there home source retval target (node.symm.trans named)
        ⟨status.symm.trans succeeds.1,result.symm.trans succeeds.2⟩
    · cases origin with
      | message message => cases message <;> cases copied
      | request request => cases request <;> cases copied

end dispatching

section run
variable {definitions : Definitions} {workflow : WorkflowId}

theorem dispatching_run {templates : List WorkflowTemplate} {events : List (Origin × Operation)} {last : Controlled definitions}
    (run : Run machine Origin.control (steady workflow) (unused definitions templates) events last) :
    Dispatching events last workflow := by
  refine run.recorded (fun events S => Dispatching events S workflow)
    (fun _ _ _ _ dispatching allowed step => dispatching_step dispatching allowed step)
    ⟨unused_steering definitions templates workflow,unused_carried definitions templates,fun g _ _ id task stored => ?_,
      fun _ _ _ _ member => absurd member List.not_mem_nil⟩
  simp [unused,installed] at stored

/-- With no worker at work, the messages to all that a success leads to have been sent. -/
theorem followed_sent {events : List (Origin × Operation)} {S : Controlled definitions} {g : Graph} {task : Task}
    (idle : ∀ thread ∈ S.threads, Control.operation thread.2 = none) (followed : Followed events S workflow g task)
    {source target : NodeId} {retval : Json} (named : task.nodeId = some source) (succeeds : task.Succeeds retval)
    (selects : g.Selects source retval target) (known : (g.node? target).isSome) : Sent workflow target events := by
  rcases followed source retval target named succeeds selects known with sent | ⟨thread,member,_,owes⟩
  · exact sent
  · have free := idle thread member
    cases point : thread.2 with
    | send messages =>
      rw [point] at free owes
      obtain ⟨job,inside,_⟩ := owes
      cases messages with
      | nil => cases inside
      | cons => cases free
    | successRow | successData =>
      rw [point] at free
      cases free
    | _ =>
      rw [point] at owes
      cases owes

end run

end FinmarsWorkflow
