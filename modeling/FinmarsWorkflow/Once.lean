import Mathlib.Data.List.InsertIdx
import Mathlib.Data.List.Nodup
import FinmarsWorkflow.Ledger

/-! A node runs at most once where its last message is the one that runs it.
A node gets one message for each incoming connection, and the readiness check
never looks at the node itself. If no message of a node with several connections
is still on its way when its task is created, no second task can follow. -/
namespace FinmarsWorkflow
open Interleave Relation

/-- The messages of one node: each incoming connection brings one, and so does the
opening for a start node. -/
def arrivals (g : Graph) (node : NodeId) : Rates where
  message id := if id = node then 1 else 0
  task id := (g.inputNodes node).count id
  opening := if node ∈ g.startNodes then 1 else 0

/-- The number of tasks of a node. -/
def ran (db : Db) (workflow : WorkflowId) (node : NodeId) : Nat :=
  weigh (charge workflow (fun id => if id = node then 1 else 0)) db.tasks

section arrivals
variable {g : Graph} {node : NodeId}

theorem weigh_indicator (ids : List NodeId) : weigh (fun id => if id = node then 1 else 0) ids = ids.count node := by
  induction ids with
  | nil => rfl
  | cons id rest ih =>
    rw [weigh_cons,ih,List.count_cons]
    simp only [beq_iff_eq]
    omega

theorem adjacent_count (g : Graph) (source target : NodeId) :
    (g.adjacent source).count target = (g.inputNodes target).count source := by
  simp only [Graph.adjacent,Graph.inputNodes]
  induction g.connections with
  | nil => rfl
  | cons connection rest ih =>
    by_cases leaves : connection.source = source <;> by_cases arrives : connection.target = target <;>
      simp [leaves,arrives,ih]

theorem eraseDups_nodup (ids : List NodeId) : ids.eraseDups.Nodup := by
  induction length : ids.length using Nat.strong_induction_on generalizing ids with
  | _ size ih => cases ids with
    | nil => simp
    | cons id rest =>
      rw [List.eraseDups_cons,List.nodup_cons]
      refine ⟨by simp,ih _ ?_ _ rfl⟩
      have shorter := List.length_filter_le (fun other => !other == id) rest
      simp only [List.length_cons] at length
      omega

theorem startNodes_nodup (g : Graph) : g.startNodes.Nodup := (eraseDups_nodup _).filter _

theorem arrivals_fit (g : Graph) (node : NodeId) : (arrivals g node).Fits g := by
  refine ⟨?_,fun id retval ids routed => ?_⟩
  · simp only [arrivals,weigh_indicator]
    split
    · exact List.nodup_iff_count_le_one.mp (startNodes_nodup g) node
    next absent => exact Nat.le_of_eq (List.count_eq_zero.mpr absent)
  · simp only [arrivals,weigh_indicator,← adjacent_count]
    exact (successors_sublist routed).count_le node

/-- A node with an incoming connection is no start node. -/
theorem startNodes_no_inputs (start : node ∈ g.startNodes) : g.inputNodes node = [] := by
  simp only [Graph.startNodes,List.mem_filter,Bool.not_eq_true',List.any_eq_false,beq_iff_eq] at start
  simp only [Graph.inputNodes,List.map_eq_nil_iff,List.filter_eq_nil_iff,beq_iff_eq]
  exact fun connection member same => start.2 connection member same.symm

end arrivals

/-- A message of the node is queued, or another worker still has one or may send one. -/
def awaited (view : Seen) (index : Nat) (workflow : WorkflowId) (g : Graph) (node : NodeId) : Bool :=
  view.shared.queue.any (fun
    | .processNextNode job => job.workflow == workflow && job.currentNodeId == node
    | .executeWorkflowV2 _ => false) ||
  (view.threads.eraseIdx index).any (fun
    | (.message (.processNextNode job),some _) => job.workflow == workflow &&
        (job.currentNodeId == node || (g.inputNodes node).contains job.currentNodeId)
    | _ => false)

/-- A task is created for a node with several incoming connections while messages of
that node are still on their way. -/
def crowded (workflow : WorkflowId) (view : Seen) : Action → Bool
  | .advance index _ => match view.threads[index]? with
    | some (_,some (.createTask row)) => match row.nodeId,view.shared.graph workflow with
      | some node,some g => row.workflow == workflow && 1 < (g.inputNodes node).length &&
          awaited view index workflow g node
      | _,_ => false
    | _ => false
  | _ => false

/-- Nobody disturbs the workflow, and the last message of a node is the one that runs it. -/
def uncrowded (workflow : WorkflowId) : Allowed := fun view label =>
  undisturbed workflow view label ∧ crowded workflow view label = false

instance (workflow : WorkflowId) (view : Seen) (label : Action) : Decidable (uncrowded workflow view label) :=
  inferInstanceAs (Decidable (_ ∧ _))

section steps
variable {definitions : Definitions} {before after : Controlled definitions} {label : Action} {workflow : WorkflowId}
  {g : Graph}

/-- A step leaves the tasks of a workflow, or creates one more. -/
theorem tasks_step (workflow : WorkflowId) (sound : Sound before) (step : Step machine Origin.control before label after) :
    (∀ rate, weigh (charge workflow rate) after.shared.tasks = weigh (charge workflow rate) before.shared.tasks) ∨
    ∃ index answer job row node payload output, label = .advance index answer ∧
      before.threads[index]? = some (.message (.processNextNode job),.create job row node payload output) ∧
      job.workflow = workflow ∧ ∀ rate, weigh (charge workflow rate) after.shared.tasks =
        weigh (charge workflow rate) before.shared.tasks + rate job.currentNodeId := by
  rcases step.shared_cases with equal | ⟨index,answer,origin,control,operation,rfl,found,busy,equal⟩ | ⟨_,_,_,reacts⟩
  · exact .inl (fun _ => by rw [equal])
  · have linked := (sound.threads _ (List.mem_of_getElem? found)).2
    have keyed := linked_keyed linked busy
    by_cases creates : ∃ row, operation = .createTask row
    · obtain ⟨row,rfl⟩ := creates
      obtain ⟨job,owner,node,payload,output,rfl,rfl⟩ := createTask_inv busy
      have message : origin = .message (.processNextNode job) := linked.message
      subst message
      have charged (rate : NodeId → Nat) : charge workflow rate (newTask job.workflow owner node payload) =
          if job.workflow = workflow then rate job.currentNodeId else 0 :=
        charge_worker rfl (congrArg some (node?_id linked.known))
      by_cases same : job.workflow = workflow
      · refine .inr ⟨index,answer,job,owner,node,payload,output,rfl,found,same,fun rate => ?_⟩
        rw [equal]
        exact (charge_effect workflow rate keyed).trans (by simp only [charged rate,if_pos same])
      · refine .inl (fun rate => ?_)
        rw [equal]
        exact (charge_effect workflow rate keyed).trans (by simp only [charged rate,if_neg same,Nat.add_zero])
    · refine .inl (fun rate => ?_)
      rw [equal]
      refine (charge_effect workflow rate keyed).trans ?_
      cases operation with
      | createTask row => exact absurd ⟨row,rfl⟩ creates
      | _ => rfl
  · obtain ⟨queue,equal,_⟩ := react_queue reacts
    exact .inl (fun _ => by rw [equal])

theorem ran_pos {db : Db} {id : TaskId} {key : TaskKey} {node : NodeId} (stored : db.taskKey id = some key)
    (owner : key.workflow = workflow) (names : key.nodeId = some node) : 1 ≤ ran db workflow node := by
  obtain ⟨task,found,rfl⟩ := Option.map_eq_some_iff.mp stored
  have heavy := weight_le_weigh (charge workflow (fun id => if id = node then 1 else 0)) db.tasks task
    (List.mem_of_getElem? found)
  have one : charge workflow (fun id => if id = node then 1 else 0) task = 1 := by
    have here : task.workflow = workflow := owner
    have there : task.nodeId = some node := names
    simp [charge,here,there]
  exact one ▸ heavy

theorem sending_busy {messages : List Message} {message : Message} (among : message ∈ messages) :
    (Control.send messages).operation.isSome := by
  cases messages with
  | nil => simp at among
  | cons => rfl

theorem mem_inputNodes {source target : NodeId} : source ∈ g.inputNodes target ↔ target ∈ g.adjacent source := by
  rw [← List.count_pos_iff,← List.count_pos_iff,adjacent_count]

/-- A message of an inner node is sent by the worker of one of its inputs. -/
theorem sends_away {origin : Origin} {messages : List Message} {next : Job} (isolated : Isolated before workflow)
    (flat : Flat definitions before.shared workflow g) (member : (origin,Control.send messages) ∈ before.threads)
    (among : .processNextNode next ∈ messages) (here : next.workflow = workflow)
    (inner : next.currentNodeId ∉ g.startNodes) :
    ∃ job, origin = .message (.processNextNode job) ∧ job.workflow = workflow ∧
      job.currentNodeId ∈ g.inputNodes next.currentNodeId := by
  have regular := isolated.regular
  have alone := isolated.alone g flat
  have scope := ((regular.sound.threads _ member).2 _ among).2
  have routes := regular.routed _ member next among
  simp only [Message.workflow,here] at scope
  match origin with
  | .message (.processNextNode job) =>
    have owner : job.workflow = workflow := above_childless alone.rows scope
    refine ⟨job,rfl,owner,?_⟩
    have carried := (regular.graphed.threads _ member).1 _ rfl job rfl
    rw [owner] at carried
    cases Option.some.inj (flat.graph.symm.trans carried)
    rcases routes (here.trans owner.symm) with target | ⟨child,below⟩
    · exact mem_inputNodes.mpr target
    · exact absurd (owner ▸ below) (alone.rows child)
  | .message (.executeWorkflowV2 other) =>
    have owner : other = workflow := above_childless alone.rows scope
    obtain ⟨found,graph,start⟩ := routes
    rw [owner] at graph
    cases Option.some.inj (flat.graph.symm.trans graph)
    exact absurd start inner
  | .request request =>
    cases request with
    | resume asked payload =>
      have same : asked = workflow := scope
      exact absurd (same ▸ rfl) (isolated.unresumed _ member payload)
    | _ => cases routes

/-- Another worker owes a node nothing, if it is at work neither on it nor on an input of it. -/
theorem other_cost {node : NodeId} {origin : Origin} {control : Control} (isolated : Isolated before workflow)
    (flat : Flat definitions before.shared workflow g) (member : (origin,control) ∈ before.threads)
    (inner : node ∉ g.startNodes)
    (away : ∀ job, origin = .message (.processNextNode job) → job.workflow = workflow → control.operation.isSome →
      job.currentNodeId ≠ node ∧ job.currentNodeId ∉ g.inputNodes node) :
    control.cost (arrivals g node) workflow origin = 0 := by
  have regular := isolated.regular
  have alone := isolated.alone g flat
  have linked := (regular.sound.threads _ member).2
  have opening (other : WorkflowId) : Message.cost (arrivals g node) workflow (.executeWorkflowV2 other) = 0 := by
    simp [Message.cost,arrivals,inner]
  have message {job : Job} (same : origin = .message (.processNextNode job)) (busy : control.operation.isSome) :
      Message.cost (arrivals g node) workflow (.processNextNode job) = 0 := by
    simp only [Message.cost,arrivals]
    split
    next here => exact if_neg (away job same here busy).1
    next => rfl
  have due (worker : ∃ job, origin = .message (.processNextNode job)) (busy : control.operation.isSome) :
      origin.due (arrivals g node) workflow = 0 := by
    obtain ⟨job,same⟩ := worker
    rw [due_worker (arrivals g node) workflow same]
    split
    next here => exact List.count_eq_zero.mpr (away job same here busy).2
    next => rfl
  have handled {celery : CeleryId} {id : TaskId} {task : Task} (handles : Handles before.shared origin celery id task)
      (busy : control.operation.isSome) : charge workflow (arrivals g node).task task = 0 := by
    by_cases here : task.workflow = workflow
    · obtain ⟨_,job,same,owner,names⟩ := alone.own regular.sound handles here
      rw [charge_worker (here.trans owner.symm) names,if_pos owner]
      exact List.count_eq_zero.mpr (away job same owner busy).2
    · exact charge_elsewhere here
  cases control with
  | send messages =>
    refine (weigh_eq_zero _ _).mpr (fun sent among => ?_)
    cases sent with
    | executeWorkflowV2 other => exact opening other
    | processNextNode next =>
      by_cases here : next.workflow = workflow ∧ next.currentNodeId = node
      · obtain ⟨job,same,owner,input⟩ := sends_away isolated flat member among here.1 (here.2 ▸ inner)
        exact absurd (here.2 ▸ input) (away job same owner (sending_busy among)).2
      · simp only [Message.cost,arrivals]
        split
        next owner => exact if_neg (fun names => here ⟨owner,names⟩)
        next => rfl
  | openRead | openSave | openData => exact opening _
  | take => exact message linked rfl
  | park => exact message linked.1 rfl
  | inputRead | previousRead | payloadRead | create => exact message linked.message rfl
  | startRead | successRead => exact due linked.worker rfl
  | startSave | stepRead | runCode | logSave | progressRead | childSave => exact due linked.owns.worker rfl
  | progressSave | templateRead | childCreate => exact due linked.1.owns.worker rfl
  | childSend => simp only [Control.cost,due linked.1.owns.worker rfl,opening]
  | successSave | successRow => exact handled linked rfl
  | successData | closeSave => exact handled linked.1 rfl
  | _ => rfl

/-- No node has run twice, and a node with several incoming connections that has run
expects no further message: every input of it has run. -/
structure Single (S : Controlled definitions) (workflow : WorkflowId) (g : Graph) : Prop where
  balanced : ∀ node, Balanced (arrivals g node) workflow S
  once : ∀ node, ran S.shared workflow node ≤ 1
  closed : ∀ node, 1 < (g.inputNodes node).length → ran S.shared workflow node = 1 →
    inFlight (arrivals g node) workflow S = 0 ∧ ∀ input ∈ g.inputNodes node, 1 ≤ ran S.shared workflow input

/-- A node whose message is admitted has not run yet. -/
theorem admitted_unran {index : Nat} {job : Job} {row : Workflow} {node : Node} {payload : Json} {output : Option Json}
    (single : Single before workflow g)
    (found : before.threads[index]? = some (.message (.processNextNode job),Control.create job row node payload output))
    (owner : job.workflow = workflow) : ran before.shared workflow job.currentNodeId = 0 := by
  have once := single.once job.currentNodeId
  have flying : 1 ≤ inFlight (arrivals g job.currentNodeId) workflow before := by
    have heavy := weight_le_weigh
      (fun thread : Origin × Control => Control.cost (arrivals g job.currentNodeId) workflow thread.1 thread.2)
      before.threads _ (List.mem_of_getElem? found)
    simp only [Control.cost,Message.cost,if_pos owner,arrivals,if_true] at heavy
    exact Nat.le_trans heavy (Nat.le_add_left _ _)
  have balanced := single.balanced job.currentNodeId
  have closed := single.closed job.currentNodeId
  simp only [Balanced] at balanced
  change _ + ran before.shared workflow job.currentNodeId ≤ _ at balanced
  -- one message for each connection: with none it is the opening, with one it is that input
  rcases inputs : g.inputNodes job.currentNodeId with _ | ⟨first,_ | ⟨second,rest⟩⟩
  · have none : weigh (charge workflow (arrivals g job.currentNodeId).task) before.shared.tasks = 0 := by
      refine (weigh_eq_zero _ _).mpr (fun task _ => ?_)
      simp only [charge,arrivals,inputs,List.count_nil]
      cases task.nodeId <;> simp
    have opening : (arrivals g job.currentNodeId).opening ≤ 1 := by
      simp only [arrivals]
      split <;> omega
    omega
  · have inner : job.currentNodeId ∉ g.startNodes := by
      intro start
      simp [startNodes_no_inputs start] at inputs
    have paid : weigh (charge workflow (arrivals g job.currentNodeId).task) before.shared.tasks =
        ran before.shared workflow first := by
      have rate : (arrivals g job.currentNodeId).task = fun id => if id = first then 1 else 0 := by
        funext id
        by_cases same : id = first
        · simp [arrivals,inputs,same]
        · simp [arrivals,inputs,same,Ne.symm same]
      rw [rate]
      rfl
    have opening : (arrivals g job.currentNodeId).opening = 0 := if_neg inner
    have before_input := single.once first
    omega
  · by_contra more
    have free := (closed (by rw [inputs]; simp) (by omega)).1
    omega

theorem crowded_create {index : Nat} {answer : Outside} {job : Job} {row : Workflow} {node : Node} {payload : Json}
    {output : Option Json} (isolated : Isolated before workflow) (flat : Flat definitions before.shared workflow g)
    (found : before.threads[index]? = some (.message (.processNextNode job),Control.create job row node payload output))
    (owner : job.workflow = workflow) (free : crowded workflow before.view (.advance index answer) = false)
    (several : 1 < (g.inputNodes job.currentNodeId).length) :
    inFlight (arrivals g job.currentNodeId) workflow before ≤ 1 := by
  have member := List.mem_of_getElem? found
  have linked := (isolated.regular.sound.threads _ member).2
  have inner : job.currentNodeId ∉ g.startNodes := by
    intro start
    simp [startNodes_no_inputs start] at several
  have visible : before.view.threads[index]? = some (.message (.processNextNode job),
      some (.createTask (newTask job.workflow row node payload))) := by
    simp only [System.view,List.getElem?_map,found]
    rfl
  have graph : before.view.shared.graph workflow = some g := flat.graph
  have names : (newTask job.workflow row node payload).nodeId = some job.currentNodeId :=
    congrArg some (node?_id linked.known)
  have same : (newTask job.workflow row node payload).workflow = workflow := owner
  simp only [crowded,visible,names,graph,same,beq_self_eq_true,Bool.true_and,several,decide_true,awaited,
    Bool.or_eq_false_iff,List.any_eq_false] at free
  obtain ⟨unqueued,unsent⟩ := free
  have queue : weigh (Message.cost (arrivals g job.currentNodeId) workflow) before.shared.queue = 0 := by
    refine (weigh_eq_zero _ _).mpr (fun message queued => ?_)
    cases message with
    | executeWorkflowV2 other => simp [Message.cost,arrivals,inner]
    | processNextNode other =>
      have away := unqueued _ queued
      simp only [Bool.and_eq_true,beq_iff_eq,not_and] at away
      simp only [Message.cost,arrivals]
      split
      next here => exact if_neg (away here)
      next => rfl
  have others : weigh (fun thread : Origin × Control => Control.cost (arrivals g job.currentNodeId) workflow thread.1 thread.2)
      (before.threads.eraseIdx index) = 0 := by
    refine (weigh_eq_zero _ _).mpr ?_
    intro thread inside
    obtain ⟨origin,control⟩ := thread
    refine other_cost isolated flat (List.mem_of_mem_eraseIdx inside) inner (fun other same here busy => ?_)
    obtain ⟨operation,busy⟩ := Option.isSome_iff_exists.mp busy
    have seen : (origin,some operation) ∈ before.view.threads.eraseIdx index := by
      rw [System.view,List.eraseIdx_map]
      exact List.mem_map.mpr ⟨(origin,control),inside,by rw [← busy]⟩
    have away := unsent _ seen
    have equal : origin = .message (.processNextNode other) := same
    simp only [equal,here,beq_self_eq_true,Bool.true_and,Bool.or_eq_true,beq_iff_eq,List.contains_iff_mem,not_or] at away
    exact away
  have all := weigh_eraseIdx
    (fun thread : Origin × Control => Control.cost (arrivals g job.currentNodeId) workflow thread.1 thread.2)
    before.threads index _ found
  have own : Control.cost (arrivals g job.currentNodeId) workflow (.message (.processNextNode job))
      (.create job row node payload output) = 1 := by
    simp [Control.cost,Message.cost,owner,arrivals]
  dsimp only at all
  simp only [inFlight]
  omega

/-- The account of one node over a step that creates no task of the workflow. -/
theorem settled_quiet {rates : Rates} (settled : Settled rates workflow before after)
    (same : ∀ rate, weigh (charge workflow rate) after.shared.tasks = weigh (charge workflow rate) before.shared.tasks) :
    inFlight rates workflow after ≤ inFlight rates workflow before := by
  have messages := same rates.message
  have tasks := same rates.task
  simp only [Settled] at settled
  omega

/-- A created task uses up one message of its node and may bring one to every node after it. -/
theorem settled_create {node id : NodeId} (settled : Settled (arrivals g node) workflow before after)
    (created : ∀ rate, weigh (charge workflow rate) after.shared.tasks =
      weigh (charge workflow rate) before.shared.tasks + rate id) :
    inFlight (arrivals g node) workflow after + (if id = node then 1 else 0) ≤
      inFlight (arrivals g node) workflow before + (g.inputNodes node).count id := by
  have messages := created (arrivals g node).message
  have tasks := created (arrivals g node).task
  simp only [Settled] at settled
  have message : (arrivals g node).message id = if id = node then 1 else 0 := rfl
  have task : (arrivals g node).task id = (g.inputNodes node).count id := rfl
  omega

theorem single_created (sound : Sound before) (unknown : before.shared.workflowKey workflow = none)
    (step : Step machine Origin.control before label after) (flat : Flat definitions after.shared workflow g) :
    Single after workflow g := by
  have none (node : NodeId) : ran after.shared workflow node = 0 := by
    rcases tasks_step workflow sound step with same | ⟨index,_,job,row,node,payload,output,_,found,owner,_⟩
    · exact (same _).trans (charge_unknown sound unknown _)
    · have linked := (sound.threads _ (List.mem_of_getElem? found)).2
      have stored : before.shared.workflowKey job.workflow = some row.key := linked.stored
      rw [owner,unknown] at stored
      cases stored
  refine ⟨fun node => balanced_created sound unknown step flat,fun node => ?_,fun node _ once => ?_⟩
  · rw [none]
    exact Nat.zero_le _
  · rw [none] at once
    cases once

theorem single_step (isolated : Isolated before workflow) (allowed : uncrowded workflow before.view label)
    (single : ∀ g, Flat definitions before.shared workflow g → Single before workflow g)
    (step : Step machine Origin.control before label after) (flat : Flat definitions after.shared workflow g) :
    Single after workflow g := by
  have sound := isolated.regular.sound
  cases known : before.shared.workflowKey workflow with
  | none => exact single_created sound known step flat
  | some key =>
    have here := flat.earlier (sound_step sound step).2 (templates_step isolated.regular step) known
    have single := single g here
    have settled (node : NodeId) := settled_step isolated (undisturbed_unrepeated allowed.1) step here (arrivals_fit g node)
    have balanced (node : NodeId) : Balanced (arrivals g node) workflow after := by
      have kept := single.balanced node
      have settled := settled node
      simp only [Balanced,Settled] at kept settled ⊢
      omega
    rcases tasks_step workflow sound step with same |
      ⟨index,answer,job,row,known,payload,output,rfl,found,owner,created⟩
    · refine ⟨balanced,fun node => ?_,fun node several once => ?_⟩
      · exact Nat.le_trans (Nat.le_of_eq (same _)) (single.once node)
      · obtain ⟨free,inputs⟩ := single.closed node several ((same _).symm.trans once)
        have less := settled_quiet (settled node) same
        exact ⟨by omega,fun input among => Nat.le_trans (inputs input among) (Nat.le_of_eq (same _).symm)⟩
    · have ran_created (node : NodeId) : ran after.shared workflow node =
          ran before.shared workflow node + if job.currentNodeId = node then 1 else 0 := created _
      have unran := admitted_unran single found owner
      have member := List.mem_of_getElem? found
      have carried := (isolated.regular.graphed.threads _ member).1 _ rfl job rfl
      rw [owner] at carried
      cases Option.some.inj (here.graph.symm.trans carried)
      have met : Met (Grown before.shared) before.shared.tasks.length job.workflow
        (job.graph.inputNodes job.currentNodeId) := isolated.regular.ordered.threads _ member
      have inputs (input : NodeId) (among : input ∈ job.graph.inputNodes job.currentNodeId) :
          1 ≤ ran before.shared workflow input := by
        obtain ⟨id,key,stored,at_,names⟩ := met.task among
        exact ran_pos stored (at_.trans owner) names
      refine ⟨balanced,fun node => ?_,fun node several once => ?_⟩
      · rw [ran_created]
        split
        next same => rw [← same,unran]
        next => exact single.once node
      · have change := settled_create (settled node) created
        rw [ran_created] at once
        by_cases same : job.currentNodeId = node
        · subst node
          -- the node is not among its own inputs, all of which have run
          have loops : (job.graph.inputNodes job.currentNodeId).count job.currentNodeId = 0 := by
            refine List.count_eq_zero.mpr (fun among => ?_)
            have pos := inputs _ among
            omega
          have last := crowded_create isolated here found owner allowed.2 several
          rw [if_pos rfl] at change
          refine ⟨by omega,fun input among => ?_⟩
          rw [ran_created]
          exact Nat.le_trans (inputs input among) (Nat.le_add_right _ _)
        · rw [if_neg same] at change once
          obtain ⟨free,all⟩ := single.closed node several once
          -- the created node has not run before, so it feeds no node that has
          have apart : (job.graph.inputNodes node).count job.currentNodeId = 0 := by
            refine List.count_eq_zero.mpr (fun among => ?_)
            have pos := all _ among
            omega
          refine ⟨by omega,fun input among => ?_⟩
          rw [ran_created]
          exact Nat.le_trans (all input among) (Nat.le_add_right _ _)

end steps

theorem ran_count (db : Db) (workflow : WorkflowId) (node : NodeId) : ran db workflow node =
    db.tasks.countP (fun task => task.workflow == workflow && task.nodeId == some node) := by
  simp only [ran]
  induction db.tasks with
  | nil => rfl
  | cons task rest ih =>
    rw [weigh_cons,ih,List.countP_cons,Nat.add_comm]
    congr 1
    cases names : task.nodeId <;> by_cases here : task.workflow = workflow <;> simp [charge,names,here]

/-- In every run in which the last message of a node is the one that runs it, each
node of a flat workflow gets at most one task, whatever the graph and the order of
deliveries; tasks may fail and conditions may choose. -/
theorem node_runs_once (definitions : Definitions) (templates : List WorkflowTemplate) (workflow : WorkflowId)
    (events : List (Origin × Operation)) (last : Installation)
    (run : Execution definitions (uncrowded workflow) (installed templates) events last)
    (g : Graph) (flat : Flat definitions last.shared workflow g) (node : NodeId) :
    last.shared.tasks.countP (fun task => task.workflow == workflow && task.nodeId == some node) ≤ 1 := by
  obtain ⟨reached,alike,_,single⟩ := execution_isolated (fun _ _ meets => undisturbed_unrepeated meets.1)
    (fun S => ∀ g, Flat definitions S.shared workflow g → Single S workflow g)
    (fun g flat => by simpa [unused,installed,Db.graph,Db.workflowKey] using flat.graph)
    (fun before label after isolated single meets step g flat => single_step isolated meets single step flat) run
  rw [alike.shared] at flat ⊢
  exact ran_count _ workflow node ▸ (single g flat).once node

def diamond : Graph where
  nodes := [codeNode "a",codeNode "b",codeNode "c",codeNode "d"]
  connections := [codeConnection "a" "b",codeConnection "a" "c",codeConnection "b" "d",codeConnection "c" "d"]

/-- A workflow all of whose nodes have code is flat. -/
theorem coded_flat {definitions : Definitions} {db : Db} {workflow : WorkflowId} {g : Graph}
    (graph : db.graph workflow = some g) (coded : g.nodes.all (fun node => (taskSourceCode node).any (· != "")) = true) :
    Flat definitions db workflow g := by
  refine ⟨graph,fun key _ node member => ?_⟩
  have source := List.all_eq_true.mp coded node member
  simp only [Node.delegates,source,Bool.not_true,Bool.false_and]

/-- The first message of the join comes too early and is dropped; the second runs it. -/
theorem node_runs_once_diamond : ∃ events last,
    Execution versionOne (uncrowded 0) (installed [⟨"t",0,diamond⟩]) events last ∧
    last.shared.tasks.length = 4 ∧ last.shared.queue.isEmpty = true ∧
    last.shared.tasks.countP (fun task => task.workflow == 0 && task.nodeId == some "d") ≤ 1 := by
  obtain ⟨events,last,run,found⟩ := schedule_execution versionOne (uncrowded 0) [⟨"t",0,diamond⟩]
    (opened ++ processed 0 .null ++ processed 0 .null ++ processed 1 .null ++ processed 0 .null ++ processed 0 .null)
    (fun S => decide (S.shared.tasks.length = 4 ∧ S.shared.queue.isEmpty = true ∧ S.shared.graph 0 = some diamond))
    (by decide)
  obtain ⟨length,drained,graph⟩ := of_decide_eq_true found
  exact ⟨events,last,run,length,drained,
    node_runs_once versionOne [⟨"t",0,diamond⟩] 0 events last run diamond (coded_flat graph (by decide)) "d"⟩

/-- Both messages of the join find its inputs ready: the join runs twice. -/
theorem join_runs_twice : ∃ events last,
    Execution versionOne (undisturbed 0) (installed [⟨"t",0,diamond⟩]) events last ∧
    last.shared.tasks.countP (fun task => task.workflow == 0 && task.nodeId == some "d") = 2 ∧
    last.shared.tasks.all (fun task => task.status == .success) = true := by
  obtain ⟨events,last,run,found⟩ := schedule_execution versionOne (undisturbed 0) [⟨"t",0,diamond⟩]
    (opened ++ processed 0 .null ++ processed 0 .null ++ processed 0 .null ++ processed 0 .null ++ processed 0 .null)
    (fun S => decide (S.shared.tasks.countP (fun task => task.workflow == 0 && task.nodeId == some "d") = 2 ∧
      S.shared.tasks.all (fun task => task.status == .success) = true)) (by decide)
  obtain ⟨twice,succeeded⟩ := of_decide_eq_true found
  exact ⟨events,last,run,twice,succeeded⟩

end FinmarsWorkflow
