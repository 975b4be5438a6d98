import FinmarsWorkflow.Isolation

/-! An account of the messages of one workflow.
Every message of a node, every running task and the opening of the workflow has a
cost. Dispatching spends what the finished task had, so that only the creation of
a task changes the balance, by the rates of its node. -/
namespace FinmarsWorkflow
open Interleave Relation

/-- What a message of a node, a running task of a node and the opening cost. -/
structure Rates where
  message : NodeId → Nat
  task : NodeId → Nat
  opening : Nat

/-- The opening pays for the start nodes, and a task for all it may dispatch to. -/
structure Rates.Fits (rates : Rates) (g : Graph) : Prop where
  starts : weigh rates.message g.startNodes ≤ rates.opening
  routes : ∀ node retval ids, successors g (some node) retval = .ok ids → weigh rates.message ids ≤ rates.task node

section costs
variable (rates : Rates) (workflow : WorkflowId)

def Message.cost : Message → Nat
  | .executeWorkflowV2 other => if other = workflow then rates.opening else 0
  | .processNextNode job => if job.workflow = workflow then rates.message job.currentNodeId else 0

/-- What the task of a worker costs while it runs. -/
def Origin.due : Origin → Nat
  | .message (.processNextNode job) => if job.workflow = workflow then rates.task job.currentNodeId else 0
  | _ => 0

def charge (rate : NodeId → Nat) (task : Task) : Nat :=
  if task.workflow = workflow then (task.nodeId.map rate).getD 0 else 0

def Control.cost (origin : Origin) : Control → Nat
  | .send messages => weigh (Message.cost rates workflow) messages
  | .openRead other | .openSave other _ | .openData other _ =>
    Message.cost rates workflow (.executeWorkflowV2 other)
  | .take job | .park job _ | .inputRead job _ _ _ _ | .previousRead job _ _ _ | .payloadRead job _ _ _ _
  | .create job _ _ _ _ => Message.cost rates workflow (.processNextNode job)
  | .startRead _ _ | .startSave _ _ _ _ | .stepRead _ _ _ _ | .runCode _ _ _ _ | .logSave _ _ _ _ _
  | .progressRead _ _ _ _ _ _ | .progressSave _ _ _ _ _ _ | .templateRead _ _ _ _ _ | .childCreate _ _ _ _
  | .childSave _ _ _ | .successRead _ _ => origin.due rates workflow
  | .childSend _ _ _ child => origin.due rates workflow + Message.cost rates workflow (.executeWorkflowV2 child)
  | .successSave _ _ _ task _ | .successRow _ _ _ task _ | .successData _ _ _ task _ _
  | .closeSave _ _ _ task _ _ => charge workflow rates.task task
  | _ => 0

/-- What an operation takes over from its thread, and what it adds to the tasks. -/
def Operation.passes : Operation → Nat
  | .send message => message.cost rates workflow
  | .createTask row => charge workflow rates.message row
  | _ => 0

def Operation.adds : Operation → Nat
  | .createTask row => charge workflow rates.task row
  | _ => 0

/-- All messages and tasks in flight. -/
def inFlight {definitions : Definitions} (S : Controlled definitions) : Nat :=
  weigh (Message.cost rates workflow) S.shared.queue +
    weigh (fun thread => Control.cost rates workflow thread.1 thread.2) S.threads

/-- What is in flight was paid for by the opening and by the tasks so far. -/
def Balanced {definitions : Definitions} (S : Controlled definitions) : Prop :=
  inFlight rates workflow S + weigh (charge workflow rates.message) S.shared.tasks ≤
    rates.opening + weigh (charge workflow rates.task) S.shared.tasks

end costs

section thread
variable {rates : Rates} {workflow : WorkflowId} {definitions : Definitions} {before : Controlled definitions}
  {origin : Origin} {control : Control} {operation : Operation} {outside : Outside} {g : Graph}

theorem processMessages_cost (rates : Rates) (workflow : WorkflowId) (g : Graph) (ids : List NodeId) :
    weigh (Message.cost rates workflow) (processMessages g workflow ids) ≤ weigh rates.message ids := by
  induction ids with
  | nil => exact Nat.le_refl _
  | cons id rest ih =>
    simp only [processMessages] at ih ⊢
    rw [List.filter_cons]
    split
    · simp only [List.map_cons,weigh_cons,Message.cost,if_true]
      omega
    · simp only [weigh_cons]
      omega

theorem startMessages_cost (g : Graph) (ids : List NodeId) :
    weigh (Message.cost rates workflow) (ids.map (fun id => .processNextNode ⟨id,workflow,g⟩)) =
      weigh rates.message ids := by
  induction ids with
  | nil => rfl
  | cons id rest ih => rw [List.map_cons,weigh_cons,weigh_cons,ih,Message.cost,if_pos rfl]

theorem due_worker (rates : Rates) (workflow : WorkflowId) {job : Job} (message : origin = .message (.processNextNode job)) :
    origin.due rates workflow = if job.workflow = workflow then rates.task job.currentNodeId else 0 := by
  rw [message]
  rfl

theorem charge_worker {rate : NodeId → Nat} {job : Job} {task : Task} (owner : task.workflow = job.workflow)
    (node : task.nodeId = some job.currentNodeId) :
    charge workflow rate task = if job.workflow = workflow then rate job.currentNodeId else 0 := by
  simp [charge,owner,node]

theorem charge_elsewhere {rate : NodeId → Nat} {task : Task} (other : task.workflow ≠ workflow) :
    charge workflow rate task = 0 :=
  if_neg other

theorem calling_cost {celery : CeleryId} {id : TaskId} {task : Task} {calls : List Call}
    {outcome : Except Error Json} :
    (Control.calling celery id task calls outcome).cost rates workflow origin ≤ origin.due rates workflow :=
  Control.calling_elim (P := fun point => point.cost rates workflow origin ≤ origin.due rates workflow)
    (fun _ _ _ => Nat.le_refl _) (fun _ _ _ => Nat.zero_le _) (fun _ _ => Nat.le_refl _) (fun _ _ => Nat.le_refl _)

theorem checking_cost {job : Job} {row : Workflow} {node : Node} {inputs : List NodeId} :
    (Control.checking job row node inputs).cost rates workflow origin =
      Message.cost rates workflow (.processNextNode job) :=
  Control.checking_elim (P := fun point => point.cost rates workflow origin = _) (fun _ _ _ => rfl)
    (fun _ => Control.admitted_elim (P := fun point => point.cost rates workflow origin = _) (fun _ _ => rfl)
      (fun _ _ => rfl) (fun _ => rfl))

theorem handling_cost {celery : CeleryId} {depth : Nat} {id : TaskId} {task : Task} {retval : Json} :
    (Control.handling celery depth id task retval).cost rates workflow origin ≤ charge workflow rates.task task :=
  Control.handling_elim (P := fun point => point.cost rates workflow origin ≤ charge workflow rates.task task)
    (Nat.zero_le _) (fun _ => Nat.zero_le _) (fun _ _ _ => Nat.le_refl _)

/-- The stages at which a thread owes nothing. -/
def Stage.free : Stage → Bool
  | .idle | .failing | .climbing | .pausing | .cancelling | .resuming | .editing | .launching => true
  | _ => false

theorem cost_free (free : control.stage.free = true) : control.cost rates workflow origin = 0 := by
  cases control with
  | send | openRead | openSave | openData | take | park | inputRead | previousRead | payloadRead | create
  | startRead | startSave | stepRead | runCode | logSave | progressRead | progressSave | templateRead
  | childCreate | childSend | childSave | successRead | successSave | successRow | successData | closeSave =>
    cases free
  | _ => rfl

theorem cost_next_free (free : control.stage.next.all Stage.free = true) :
    (control.next definitions before.shared outside).cost rates workflow origin = 0 :=
  cost_free (List.all_eq_true.mp free _ (Control.stage_next definitions before.shared outside control))

theorem opening_elsewhere {other : WorkflowId} (differs : other ≠ workflow) :
    Message.cost rates workflow (.executeWorkflowV2 other) = 0 :=
  if_neg differs

theorem known_ne_length (flat : Flat definitions before.shared workflow g) :
    before.shared.workflows.length ≠ workflow := by
  rintro rfl
  have graph := flat.graph
  simp [Db.graph,Db.workflowKey] at graph

section context
variable (regular : Regular before) (alone : Alone before workflow)
  (unresumed : ∀ payload, origin ≠ .request (.resume workflow payload))
  (flat : Flat definitions before.shared workflow g) (fits : rates.Fits g)
  (member : (origin,control) ∈ before.threads) (busy : control.operation = some operation)
include regular alone unresumed flat fits member busy

/-- What a step passes on and what its thread still owes is paid for. -/
theorem cost_next : (control.next definitions before.shared outside).cost rates workflow origin +
    operation.passes rates workflow ≤ control.cost rates workflow origin + operation.adds rates workflow := by
  have linked := (regular.sound.threads _ member).2
  cases control with
  | done => cases busy
  | send messages => cases messages with
    | nil => cases busy
    | cons message rest =>
      cases busy
      simp only [Control.next,List.tail_cons,Control.cost,weigh_cons,Operation.passes,Operation.adds]
      omega
  | openRead =>
    cases busy
    simp only [Control.next]
    split
    · exact Nat.le_refl _
    · exact Nat.zero_le _
  | openSave => cases busy; exact Nat.le_refl _
  | openData other row =>
    cases busy
    simp only [Control.next]
    split
    next found data =>
      split
      next =>
        by_cases same : other = workflow
        · subst other
          cases Option.some.inj (flat.graph.symm.trans (templateData_graph linked.2 data))
          have starts := fits.starts
          simpa [Control.cost,startMessages_cost,Message.cost,Operation.passes,Operation.adds] using starts
        · refine Nat.le_trans (Nat.le_of_eq ?_) (Nat.zero_le _)
          simp [Control.cost,weigh_eq_zero,Message.cost,same,Operation.passes]
      next => exact Nat.zero_le _
    next => exact Nat.zero_le _
  | take job =>
    cases busy
    simp only [Control.next]
    split
    · split
      · split
        · exact Nat.le_refl _
        · exact Nat.le_of_eq checking_cost
      · exact Nat.zero_le _
    · exact Nat.zero_le _
  | park => cases busy; exact Nat.zero_le _
  | inputRead job =>
    cases busy
    simp only [Control.next]
    split
    · exact Nat.le_of_eq checking_cost
    · exact Nat.zero_le _
  | previousRead job row node source =>
    cases busy
    exact Control.withOutput_elim (P := fun point =>
      point.cost rates workflow origin ≤ Message.cost rates workflow (.processNextNode job))
      (fun _ _ => Nat.le_refl _) (fun _ _ => Nat.le_refl _)
  | payloadRead => cases busy; exact Nat.le_refl _
  | create job row node payload output =>
    cases busy
    have id := node?_id linked.known
    simp only [Control.next,Control.cost,Operation.passes,Operation.adds,due_worker rates workflow linked.message,Message.cost,charge,
      newTask,id,Option.map_some,Option.getD_some]
    omega
  | startRead =>
    cases busy
    simp only [Control.next]
    split
    · exact Nat.le_refl _
    · exact Nat.zero_le _
  | startSave => cases busy; exact Nat.le_refl _
  | stepRead =>
    cases busy
    simp only [Control.next]
    repeat' split
    all_goals first | exact Nat.le_refl _ | exact Nat.zero_le _
  | runCode => cases busy; exact calling_cost
  | logSave => cases busy; exact calling_cost
  | progressRead =>
    cases busy
    simp only [Control.next]
    split
    · exact Nat.le_refl _
    · exact Nat.zero_le _
  | progressSave => cases busy; exact calling_cost
  | templateRead =>
    cases busy
    simp only [Control.next]
    split
    · exact Nat.le_refl _
    · exact Nat.zero_le _
  | childCreate =>
    cases busy
    simp only [Control.next,Control.cost,opening_elsewhere (known_ne_length flat)]
    exact Nat.le_refl _
  | childSend => cases busy; exact Nat.le_refl _
  | childSave => cases busy; exact Nat.le_refl _
  | successRead celery retval =>
    cases busy
    simp only [Control.next]
    split
    next id task found =>
      obtain ⟨stored,own⟩ := taskByCeleryId_key found
      obtain ⟨job,message,owner,node⟩ := owner_scope regular.sound.shared linked stored own
      have due : charge workflow rates.task task = origin.due rates workflow := by
        rw [charge_worker owner node,due_worker rates workflow message]
      exact Nat.le_trans handling_cost (Nat.le_of_eq due)
    next => exact Nat.zero_le _
  | successSave => cases busy; exact Nat.le_refl _
  | successRow =>
    cases busy
    simp only [Control.next]
    repeat' split
    all_goals first | exact Nat.le_refl _ | exact Nat.zero_le _
  | successData celery depth id task row retval =>
    cases busy
    simp only [Control.next]
    split
    next found data =>
      split
      next ids routed =>
        split
        · exact Nat.le_refl _
        · by_cases same : task.workflow = workflow
          · obtain ⟨_,job,_,_,node⟩ := alone.own regular.sound linked.1 same
            cases Option.some.inj (flat.graph.symm.trans (same ▸ templateData_graph linked.2 data))
            rw [node] at routed
            have routes := fits.routes _ _ _ routed
            have sent := processMessages_cost rates workflow g ids
            simp only [Control.cost,same,charge,if_true,node,Option.map_some,Option.getD_some]
            exact Nat.le_trans sent routes
          · refine Nat.le_trans (Nat.le_of_eq ?_) (Nat.zero_le _)
            simp only [Control.cost,Operation.passes,Nat.add_zero,weigh_eq_zero]
            intro message sent
            obtain ⟨node,_,rfl⟩ := List.mem_map.mp sent
            exact if_neg same
      next => exact Nat.zero_le _
    next => exact Nat.zero_le _
  | closeSave =>
    cases busy
    simp only [Control.next]
    split <;> exact Nat.zero_le _
  | climb celery depth child parent row retval =>
    cases busy
    simp only [Control.next]
    split
    next id task found =>
      obtain ⟨_,owner,_⟩ := parentTask_key found
      have other : task.workflow ≠ workflow := by
        rintro rfl
        exact alone.rows child (owner ▸ linked.2.parent)
      have free : charge workflow rates.task {task with status := .progress} = 0 := charge_elsewhere other
      exact Nat.le_trans handling_cost (Nat.le_of_eq free)
    next => exact Nat.zero_le _
  | launchRead => cases busy; exact Nat.le_refl _
  | launchCreate row =>
    cases busy
    simp only [Control.next,Control.cost,weigh_cons,weigh_nil,opening_elsewhere (known_ne_length flat)]
    exact Nat.zero_le _
  | resumeRead | resumeTasks | resumeSave =>
    cases busy
    simp only [Control.next]
    repeat' split
    all_goals exact Nat.zero_le _
  | resumeData other row node =>
    cases busy
    simp only [Control.next]
    split
    next found data =>
      split
      next =>
        obtain ⟨payload,request⟩ := linked.1
        have differs : other ≠ workflow := by
          rintro rfl
          exact unresumed payload request
        refine Nat.le_trans (Nat.le_of_eq ?_) (Nat.zero_le _)
        simp [Control.cost,Message.cost,differs,Operation.passes]
      next => exact Nat.zero_le _
    next => exact Nat.zero_le _
  | _ =>
    cases busy
    rw [cost_next_free rfl]
    exact Nat.zero_le _

end context

end thread

section balance
variable {rates : Rates} {workflow : WorkflowId} {definitions : Definitions} {before after : Controlled definitions}
  {label : Action} {g : Graph}

theorem charge_key {rate : NodeId → Nat} {task other : Task} (same : task.key = other.key) :
    charge workflow rate task = charge workflow rate other := by
  have owner : task.workflow = other.workflow := congrArg TaskKey.workflow same
  have node : task.nodeId = other.nodeId := congrArg TaskKey.nodeId same
  rw [charge,charge,owner,node]

/-- The tasks of a state are charged as before, with the one that was created. -/
theorem charge_effect (workflow : WorkflowId) (rate : NodeId → Nat) {db : Db} {operation : Operation} (keyed : operation.Keyed db) :
    weigh (charge workflow rate) (operation.effect db).tasks =
      weigh (charge workflow rate) db.tasks + match operation with
        | .createTask row => charge workflow rate row
        | _ => 0 := by
  cases operation with
  | saveTask id row =>
    obtain ⟨stored,found,same⟩ := Option.map_eq_some_iff.mp keyed
    have changed := weigh_set (charge workflow rate) db.tasks id stored row found
    rw [charge_key same] at changed
    exact Nat.add_right_cancel changed
  | createTask row =>
    simp only [Operation.effect,weigh_append,weigh_cons,weigh_nil,Nat.add_zero,Nat.add_left_cancel_iff]
    rfl
  | _ => rfl

theorem queue_effect (rates : Rates) (workflow : WorkflowId) (db : Db) (operation : Operation) :
    weigh (Message.cost rates workflow) (operation.effect db).queue =
      weigh (Message.cost rates workflow) db.queue + match operation with
        | .send message => message.cost rates workflow
        | _ => 0 := by
  cases operation with
  | send message => simp [Operation.effect]
  | _ => rfl

/-- The change of the account between two states. -/
def Settled (rates : Rates) (workflow : WorkflowId) (before after : Controlled definitions) : Prop :=
  inFlight rates workflow after + weigh (charge workflow rates.message) after.shared.tasks +
      weigh (charge workflow rates.task) before.shared.tasks ≤
    inFlight rates workflow before + weigh (charge workflow rates.message) before.shared.tasks +
      weigh (charge workflow rates.task) after.shared.tasks

theorem settled_advance {index : Nat} {origin : Origin} {control next : Control} {operation : Operation}
    (found : before.threads[index]? = some (origin,control)) (keyed : operation.Keyed before.shared)
    (paid : next.cost rates workflow origin + operation.passes rates workflow ≤
      control.cost rates workflow origin + operation.adds rates workflow) :
    Settled rates workflow before
      (⟨operation.effect before.shared,before.threads.set index (origin,next)⟩ : Controlled definitions) := by
  have threads := weigh_set (fun thread : Origin × Control => Control.cost rates workflow thread.1 thread.2)
    before.threads index _ (origin,next) found
  have queue := queue_effect rates workflow before.shared operation
  have messages := charge_effect workflow rates.message keyed
  have tasks := charge_effect workflow rates.task keyed
  simp only [Settled,inFlight]
  cases operation <;> simp only [Operation.passes,Operation.adds] at paid queue messages tasks threads <;> omega

theorem known_ne {other : WorkflowId} (unknown : before.shared.workflowKey workflow = none)
    (known : (before.shared.workflowKey other).isSome) : other ≠ workflow := by
  rintro rfl
  simp [unknown] at known

theorem message_unknown {message : Message} (unknown : before.shared.workflowKey workflow = none)
    (known : (before.shared.workflowKey message.workflow).isSome) : message.cost rates workflow = 0 := by
  cases message <;> exact if_neg (known_ne unknown known)

theorem due_unknown {origin : Origin} (unknown : before.shared.workflowKey workflow = none)
    (known : origin.Known before.shared) : origin.due rates workflow = 0 := by
  cases origin with
  | request => rfl
  | message message => cases message with
    | executeWorkflowV2 => rfl
    | processNextNode => exact if_neg (known_ne unknown (known _ rfl))

section unknown
variable (sound : Sound before) (unknown : before.shared.workflowKey workflow = none)
include sound unknown

theorem stored_ne {id : TaskId} {task : Task} (stored : before.shared.taskKey id = some task.key) :
    task.workflow ≠ workflow :=
  known_ne unknown (sound.shared.workflow id task.key stored)


/-- Nothing is in flight for a workflow that is not there yet. -/
theorem control_unknown {origin : Origin} {control : Control} (member : (origin,control) ∈ before.threads) :
    control.cost rates workflow origin = 0 := by
  obtain ⟨known,linked⟩ := sound.threads _ member
  have due : origin.due rates workflow = 0 := due_unknown unknown known
  have message {asked : Message} (same : origin = .message asked) : asked.cost rates workflow = 0 :=
    message_unknown unknown (known asked same)
  have handled {celery : CeleryId} {id : TaskId} {task : Task} (handles : Handles before.shared origin celery id task) :
      charge workflow rates.task task = 0 := charge_elsewhere (stored_ne sound unknown handles.stored)
  cases control with
  | send messages =>
    exact (weigh_eq_zero _ _).mpr (fun message sent => message_unknown unknown (linked message sent).1)
  | openRead => exact message linked
  | openSave | openData => exact message linked.1
  | take => exact message linked
  | park => exact message linked.1
  | inputRead | previousRead | payloadRead | create => exact message linked.message
  | childSend celery id task child =>
    have free : Message.cost rates workflow (.executeWorkflowV2 child) = 0 :=
      message_unknown unknown (delegated_known linked.2)
    simp only [Control.cost,due,free]
  | successSave | successRow => exact handled linked
  | successData | closeSave => exact handled linked.1
  | startRead | startSave | stepRead | runCode | logSave | progressRead | progressSave | templateRead
  | childCreate | childSave | successRead => exact due
  | _ => rfl

theorem inFlight_unknown : inFlight rates workflow before = 0 := by
  have queue : weigh (Message.cost rates workflow) before.shared.queue = 0 :=
    (weigh_eq_zero _ _).mpr (fun message member => message_unknown unknown (sound.shared.queue message member))
  have threads : weigh (fun thread : Origin × Control => Control.cost rates workflow thread.1 thread.2) before.threads = 0 :=
    (weigh_eq_zero _ _).mpr (fun thread member => control_unknown sound unknown member)
  simp only [inFlight,queue,threads]

theorem charge_unknown (rate : NodeId → Nat) : weigh (charge workflow rate) before.shared.tasks = 0 := by
  refine (weigh_eq_zero _ _).mpr (fun task member => charge_elsewhere ?_)
  obtain ⟨id,stored⟩ := List.mem_iff_getElem?.mp member
  exact stored_ne sound unknown (taskKey_of_stored stored)

end unknown

theorem flat_known {db : Db} (flat : Flat definitions db workflow g) : ∃ key, db.workflowKey workflow = some key := by
  have graph := flat.graph
  cases known : db.workflowKey workflow with
  | none => simp [Db.graph,known] at graph
  | some key => exact ⟨key,rfl⟩

/-- The account of a workflow opens with the opening, when the workflow is created. -/
theorem balanced_created (sound : Sound before) (unknown : before.shared.workflowKey workflow = none)
    (step : Step machine Origin.control before label after) (flat : Flat definitions after.shared workflow g) :
    Balanced rates workflow after := by
  obtain ⟨key,stored⟩ := flat_known flat
  have quiet : inFlight rates workflow before = 0 := inFlight_unknown sound unknown
  have messages := charge_unknown sound unknown rates.message
  have tasks := charge_unknown sound unknown rates.task
  simp only [inFlight,Nat.add_eq_zero_iff] at quiet
  cases step with
  | advance index answer origin control operation found busy =>
    have member := List.mem_of_getElem? found
    obtain ⟨known,linked⟩ := sound.threads _ member
    by_cases creates : ∃ row, operation = .createWorkflow row
    · obtain ⟨row,rfl⟩ := creates
      change (Operation.effect _ _).workflowKey workflow = _ at stored
      rw [createWorkflow_workflowKey] at stored
      split at stored
      next same =>
        have threads := weigh_set (fun thread : Origin × Control => Control.cost rates workflow thread.1 thread.2)
          before.threads index _ (origin,Control.next definitions before.shared answer control) found
        have cost : Control.cost rates workflow origin (Control.next definitions before.shared answer control) =
            rates.opening := by
          have due : origin.due rates workflow = 0 := due_unknown unknown known
          rcases createWorkflow_inv busy with ⟨celery,id,task,rfl⟩ | rfl
          · simp only [Control.next,Control.cost,due,Message.cost,if_pos same.symm,Nat.zero_add]
          · simp only [Control.next,Control.cost,weigh_cons,weigh_nil,Message.cost,if_pos same.symm,Nat.add_zero]
        have free : Control.cost rates workflow origin control = 0 := control_unknown sound unknown member
        dsimp only at threads
        simp only [Balanced,inFlight]
        change weigh _ before.shared.queue + weigh _ (before.threads.set index _) + weigh _ before.shared.tasks ≤
          _ + weigh _ before.shared.tasks
        omega
      next => cases unknown.symm.trans stored
    · have kept := workflowKey_effect (linked_keyed linked busy) (fun row made => creates ⟨row,made⟩) workflow
      cases (unknown.symm.trans kept.symm).trans stored
  | close => cases unknown.symm.trans stored
  | keep environment changed reacts | spawn environment changed origin reacts | drop environment changed index reacts =>
    obtain ⟨queue,rfl,_⟩ := react_queue reacts
    cases unknown.symm.trans stored

/-- A thread starts with the cost of its message. -/
theorem origin_cost (rates : Rates) (workflow : WorkflowId) (origin : Origin) :
    origin.control.cost rates workflow origin = match origin with
      | .message message => message.cost rates workflow
      | .request _ => 0 := by
  cases origin with
  | message message => cases message <;> rfl
  | request request => cases request <;> rfl

theorem repeated_cost (rates : Rates) {message : Message} {index : Nat} {environment : Environment}
    (again : environment = .redeliver index ∨ environment = .lose index)
    (allowed : unrepeated workflow before.view (.move environment))
    (found : (before.threads.map Prod.fst)[index]? = some (.message message)) : message.cost rates workflow = 0 := by
  have differs : message.workflow ≠ workflow := by
    rw [List.getElem?_map,Option.map_eq_some_iff] at found
    obtain ⟨thread,present,same⟩ := found
    have quiet := allowed.2
    rcases again with rfl | rfl <;> simpa [repeats,System.view,present,same] using quiet
  cases message <;> exact if_neg differs

/-- A move hands messages from the queue to new threads; what it repeats costs nothing. -/
theorem weigh_move {environment : Environment} (messages : Message → Nat) (threads : Origin → Control → Nat)
    (message : ∀ message, threads (.message message) (Origin.message message).control = messages message)
    (request : ∀ request, threads (.request request) (Origin.request request).control = 0)
    (again : ∀ index message, environment = .redeliver index ∨ environment = .lose index →
      (before.threads.map Prod.fst)[index]? = some (.message message) → messages message = 0)
    (step : Step machine Origin.control before (.move environment) after) :
    weigh messages after.shared.queue + weigh (fun thread => threads thread.1 thread.2) after.threads ≤
      weigh messages before.shared.queue + weigh (fun thread => threads thread.1 thread.2) before.threads := by
  have lost (index : Nat) (origin : Origin) (found : (before.threads.map Prod.fst)[index]? = some origin) :
      weigh (fun thread : Origin × Control => threads thread.1 thread.2) (before.threads.eraseIdx index) ≤
        weigh (fun thread : Origin × Control => threads thread.1 thread.2) before.threads := by
    obtain ⟨thread,present,_⟩ := Option.map_eq_some_iff.mp (List.getElem?_map ▸ found)
    have erased := weigh_eraseIdx (fun thread : Origin × Control => threads thread.1 thread.2) before.threads index thread
      present
    omega
  cases step with
  | keep _ changed reacts =>
    rcases react_inv reacts with ⟨_,_,_,_,_,⟨⟩⟩ | ⟨_,_,_,⟨⟩⟩ | ⟨index,repeated,same,found,rfl,_⟩ | ⟨_,_,_,_,_,⟨⟩⟩ |
      ⟨_,_,_,_,_,⟨⟩⟩
    have free := again index repeated (.inl same) found
    simp only [weigh_append,weigh_cons,weigh_nil,free,Nat.add_zero]
    exact Nat.le_refl _
  | spawn _ changed origin reacts =>
    rcases react_inv reacts with ⟨index,delivered,_,found,rfl,⟨⟩⟩ | ⟨asked,_,rfl,⟨⟩⟩ | ⟨_,_,_,_,_,⟨⟩⟩ | ⟨_,_,_,_,_,⟨⟩⟩ |
      ⟨_,_,_,_,_,⟨⟩⟩
    · have taken := weigh_eraseIdx messages before.shared.queue index delivered found
      simp only [weigh_append,weigh_cons,weigh_nil,message]
      omega
    · simp only [weigh_append,weigh_cons,weigh_nil,request]
      omega
  | drop _ changed index reacts =>
    rcases react_inv reacts with ⟨_,_,_,_,_,⟨⟩⟩ | ⟨_,_,_,⟨⟩⟩ | ⟨_,_,_,_,_,⟨⟩⟩ | ⟨_,repeated,same,found,rfl,⟨⟩⟩ |
      ⟨_,asked,same,found,rfl,⟨⟩⟩
    · have free := again index repeated (.inr same) found
      have less := lost index _ found
      simp only [weigh_append,weigh_cons,weigh_nil,free,Nat.add_zero]
      omega
    · have less := lost index _ found
      dsimp only
      omega

theorem settled_move {environment : Environment} (allowed : unrepeated workflow before.view (.move environment))
    (step : Step machine Origin.control before (.move environment) after) : Settled rates workflow before after := by
  have tasks : after.shared.tasks = before.shared.tasks := by
    rcases step.shared_cases with equal | ⟨_,_,_,_,_,⟨⟩,_⟩ | ⟨_,_,_,reacts⟩
    · rw [equal]
    · obtain ⟨queue,equal,_⟩ := react_queue reacts
      rw [equal]
  have moved := weigh_move (Message.cost rates workflow) (Control.cost rates workflow)
    (fun message => origin_cost rates workflow (.message message)) (fun request => origin_cost rates workflow (.request request))
    (fun _ _ same found => repeated_cost rates same allowed found) step
  simp only [Settled,inFlight,tasks]
  dsimp only at moved
  omega

/-- No step overdraws the account of a flat workflow whose messages are not repeated. -/
theorem settled_step (isolated : Isolated before workflow) (allowed : unrepeated workflow before.view label)
    (step : Step machine Origin.control before label after) (flat : Flat definitions before.shared workflow g)
    (fits : rates.Fits g) : Settled rates workflow before after := by
  have sound := isolated.regular.sound
  cases label with
  | move => exact settled_move allowed step
  | advance index answer =>
    cases step with
    | advance _ _ origin control operation found busy =>
      have member := List.mem_of_getElem? found
      exact settled_advance found (linked_keyed (sound.threads _ member).2 busy)
        (cost_next isolated.regular (isolated.alone g flat) (isolated.unresumed _ member) flat fits member busy)
  | close index =>
    cases step with
    | close _ origin control found _ =>
      have ended := weigh_eraseIdx (fun thread : Origin × Control => Control.cost rates workflow thread.1 thread.2)
        before.threads index _ found
      simp only [Settled,inFlight]
      omega

/-- What is in flight for a workflow was paid for by its opening and its tasks. -/
theorem balanced_step (isolated : Isolated before workflow) (allowed : unrepeated workflow before.view label)
    (balanced : ∀ g, Flat definitions before.shared workflow g → rates.Fits g → Balanced rates workflow before)
    (step : Step machine Origin.control before label after) (flat : Flat definitions after.shared workflow g)
    (fits : rates.Fits g) : Balanced rates workflow after := by
  have sound := isolated.regular.sound
  cases known : before.shared.workflowKey workflow with
  | none => exact balanced_created sound known step flat
  | some key =>
    have here := flat.earlier (sound_step sound step).2 (templates_step isolated.regular step) known
    have kept := balanced g here fits
    have settled := settled_step isolated allowed step here fits
    simp only [Balanced,Settled] at kept settled ⊢
    omega

end balance

end FinmarsWorkflow
