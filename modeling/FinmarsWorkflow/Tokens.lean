import FinmarsWorkflow.Parking

/-! An account of the messages of one workflow with its parked node.
A parked node counts as a message that is not sent yet: parking takes the message from its
worker, and a resume hands it back to the queue. A worker counts with all that its task may
send until it has sent it, also while it reports to ancestors or fails. -/
namespace FinmarsWorkflow
open Interleave Relation

/-- The stages of a worker from the creation of its task to the first message or the end. -/
def Stage.working : Stage → Bool
  | .running | .delegating | .finishing | .closing | .climbing | .failing => true
  | _ => false

def Origin.resumes (workflow : WorkflowId) : Origin → Bool
  | .request (.resume asked _) => asked == workflow
  | _ => false

section stakes
variable (rates : Rates) (workflow : WorkflowId)

/-- What a thread stands for: the message that a resume sends was paid for when it was parked. -/
def Control.stake (origin : Origin) : Control → Nat
  | .send messages => if origin.resumes workflow then 0 else weigh (Message.cost rates workflow) messages
  | control => if control.stage.working then origin.due rates workflow + weigh (Message.cost rates workflow) control.outbox
      else control.cost rates workflow origin

/-- All messages and tasks in flight, but for what a resume is about to send. -/
def afloat {definitions : Definitions} (S : Controlled definitions) : Nat :=
  weigh (Message.cost rates workflow) S.shared.queue +
    weigh (fun thread => Control.stake rates workflow thread.1 thread.2) S.threads

end stakes

section thread
variable {rates : Rates} {workflow : WorkflowId} {definitions : Definitions} {before : Controlled definitions}
  {origin : Origin} {control : Control} {operation : Operation} {outside : Outside} {g : Graph}

theorem working_worker {db : Db} (linked : control.Linked db origin) (works : control.stage.working = true) :
    ∃ job, origin = .message (.processNextNode job) := by
  cases control with
  | startRead | successRead | failRead => exact linked.worker
  | startSave | stepRead | runCode | logSave | progressRead | childSave => exact linked.owns.worker
  | progressSave | templateRead | childCreate | childSend => exact linked.1.owns.worker
  | successSave | successRow => exact linked.owns.worker
  | successData | closeSave => exact linked.1.owns.worker
  | climb => exact linked.1.worker
  | failRow | failParent | failReload => exact linked.worker
  | failSave | failClose => exact linked.1.worker
  | failClimb => exact linked.1
  | _ => cases works

section context
variable (regular : Regular before) (alone : Alone before workflow) (flat : Flat definitions before.shared workflow g)
  (fits : rates.Fits g) (member : (origin,control) ∈ before.threads)
include regular alone flat fits member

/-- A worker at its task goes on with what the task may send, sends it, or ends. -/
theorem stake_working (works : control.stage.working = true) :
    (control.next definitions before.shared outside).stake rates workflow origin ≤ origin.due rates workflow := by
  have linked := (regular.sound.threads _ member).2
  obtain ⟨job,rfl⟩ := working_worker linked works
  cases control with
  | runCode | logSave | progressSave =>
    exact Control.calling_elim (P := fun point => point.stake rates workflow _ ≤ _) (fun _ _ _ => Nat.le_refl _)
      (fun _ _ _ => Nat.le_refl _) (fun _ _ => Nat.le_refl _) (fun _ _ => Nat.le_refl _)
  | childCreate =>
    simp only [Control.next,Control.stake,Control.stage,Stage.working,if_true,Control.outbox,weigh_cons,weigh_nil,
      opening_elsewhere (known_ne_length flat),Nat.add_zero,Nat.le_refl]
  | successRead | climb =>
    simp only [Control.next]
    split
    · exact Control.handling_elim (P := fun point => point.stake rates workflow _ ≤ _) (Nat.le_refl _)
        (fun _ => Nat.zero_le _) (fun _ _ _ => Nat.le_refl _)
    · exact Nat.le_refl _
  | failRead | failReload =>
    simp only [Control.next]
    split
    · exact Control.failing_elim (P := fun point => point.stake rates workflow _ ≤ _) (Nat.zero_le _)
        (fun _ _ => Nat.le_refl _)
    · exact Nat.zero_le _
  | successData celery depth id task row retval =>
    simp only [Control.next]
    split
    next found data =>
      split
      next ids routed =>
        split
        · exact Nat.le_refl _
        · have sent := processMessages_cost rates workflow g ids
          by_cases same : task.workflow = workflow
          · obtain ⟨_,own,taken,owner,node⟩ := alone.own regular.sound linked.1 same
            cases taken
            cases Option.some.inj (flat.graph.symm.trans (same ▸ templateData_graph linked.2 data))
            rw [node] at routed
            have routes := fits.routes _ _ _ routed
            simp only [Control.stake,Origin.resumes,same,Origin.due,owner,if_true]
            exact Nat.le_trans sent routes
          · refine Nat.le_trans (Nat.le_of_eq ?_) (Nat.zero_le _)
            simp only [Control.stake,Origin.resumes,Bool.false_eq_true,if_false,weigh_eq_zero]
            intro message sent
            obtain ⟨node,_,rfl⟩ := List.mem_map.mp sent
            exact if_neg same
      next => exact Nat.le_refl _
    next => exact Nat.le_refl _
  | startRead | startSave | stepRead | progressRead | templateRead | childSend | childSave | successSave | successRow
  | closeSave | failRow | failSave | failClose | failParent | failClimb =>
    simp only [Control.next]
    repeat' split
    all_goals first | exact Nat.le_refl _ | exact Nat.zero_le _
  | _ => cases works

end context

theorem stake_resumes {db : Db} (linked : control.Linked db origin) (resumes : origin.resumes workflow = true) :
    control.stake rates workflow origin = 0 := by
  have request : ∃ asked, origin = .request asked := by
    cases origin with
    | message => cases resumes
    | request asked => exact ⟨asked,rfl⟩
  obtain ⟨asked,rfl⟩ := request
  by_cases works : control.stage.working = true
  · obtain ⟨_,⟨⟩⟩ := working_worker linked works
  cases control with
  | send => exact if_pos resumes
  | openRead | take => cases linked
  | openSave | openData | park => cases linked.1
  | inputRead | previousRead | payloadRead | create => cases linked.message
  | done | launchRead | launchCreate | pauseRead | pauseSave | resumeRead | resumeTasks | resumeSave | resumeData
  | cancelRead | cancelTasks | cancelTask | cancelSave | templateSave => rfl
  | _ => exact absurd rfl works

theorem stake_cost {point : Control} (rests : point.stage.working = false) (unresumed : origin.resumes workflow = false) :
    point.stake rates workflow origin = point.cost rates workflow origin := by
  cases point with
  | send => simp only [Control.stake,unresumed,Bool.false_eq_true,if_false,Control.cost]
  | _ => simp only [Control.stake,rests,Bool.false_eq_true,if_false]

theorem passes_outbox (works : control.stage.working = true) (busy : control.operation = some operation) :
    operation.passes rates workflow ≤ weigh (Message.cost rates workflow) control.outbox ∧
      operation.adds rates workflow = 0 := by
  cases control with
  | send => cases works
  | childSend =>
    cases busy
    exact ⟨Nat.le_refl _,rfl⟩
  | create => cases works
  | done => cases busy
  | _ =>
    cases busy
    exact ⟨Nat.zero_le _,rfl⟩

/-- A task is taken up where it is created. -/
theorem working_next {db : Db} (rests : control.stage.working = false)
    (works : (control.next definitions db outside).stage.working = true) :
    ∃ job row node payload output, control = .create job row node payload output := by
  have stages := Control.stage_next definitions db outside control
  cases control with
  | create => exact ⟨_,_,_,_,_,rfl⟩
  | previousRead =>
    exact absurd works (Control.withOutput_elim (P := fun point => point.stage.working ≠ true)
      (fun _ _ => Bool.false_ne_true) (fun _ _ => Bool.false_ne_true))
  | payloadRead => cases works
  | startRead | startSave | stepRead | runCode | logSave | progressRead | progressSave | templateRead | childCreate
  | childSend | childSave | successRead | successSave | successRow | successData | closeSave | climb | failRead | failRow
  | failSave | failClose | failParent | failClimb | failReload => cases rests
  | _ =>
    revert works
    generalize (Control.next definitions db outside _).stage = stage at stages
    intro works
    simp only [Control.stage,Stage.next,List.mem_cons,List.not_mem_nil,or_false] at stages
    rcases stages with rfl | rfl | rfl | rfl <;> cases works

/-- What a step passes on and what its thread still stands for is paid for. -/
theorem stake_next (regular : Regular before) (alone : Alone before workflow) (flat : Flat definitions before.shared workflow g)
    (fits : rates.Fits g) (member : (origin,control) ∈ before.threads) (busy : control.operation = some operation)
    (unresumed : origin.resumes workflow = false) :
    (control.next definitions before.shared outside).stake rates workflow origin + operation.passes rates workflow ≤
      control.stake rates workflow origin + operation.adds rates workflow := by
  cases works : control.stage.working with
  | true =>
    have goes : (control.next definitions before.shared outside).stake rates workflow origin ≤ _ :=
      stake_working regular alone flat fits member works
    obtain ⟨passes,adds⟩ : operation.passes rates workflow ≤ _ ∧ operation.adds rates workflow = 0 := passes_outbox works busy
    have own : control.stake rates workflow origin =
        origin.due rates workflow + weigh (Message.cost rates workflow) control.outbox := by
      cases control with
      | send => cases works
      | _ => simp only [Control.stake,works,if_true]
    omega
  | false =>
    have elsewhere (payload : Option Json) : origin ≠ .request (.resume workflow payload) := by
      rintro rfl
      simp [Origin.resumes] at unresumed
    have paid : (control.next definitions before.shared outside).cost rates workflow origin + _ ≤ _ :=
      cost_next regular alone elsewhere flat fits member busy
    rw [stake_cost works unresumed]
    refine Nat.le_trans (Nat.add_le_add_right ?_ _) paid
    cases goes : (control.next definitions before.shared outside).stage.working with
    | false => exact Nat.le_of_eq (stake_cost goes unresumed)
    | true =>
      obtain ⟨_,_,_,_,_,rfl⟩ := working_next works goes
      exact Nat.le_refl _

end thread

/-- A thread whose origin owes nothing stands for no more than it costs. -/
theorem stake_undue {rates : Rates} {workflow : WorkflowId} {origin : Origin} {control : Control}
    (free : origin.due rates workflow = 0) : control.stake rates workflow origin ≤ control.cost rates workflow origin := by
  cases control with
  | send =>
    simp only [Control.stake]
    split
    · exact Nat.zero_le _
    · exact Nat.le_refl _
  | childSend =>
    simp only [Control.stake,Control.stage,Stage.working,if_true,Control.outbox,weigh_cons,weigh_nil,Nat.add_zero,
      Control.cost,Nat.le_refl]
  | _ =>
    simp only [Control.stake,Control.stage,Stage.working,if_true,Control.outbox,weigh_nil,free,Nat.add_zero,Nat.zero_le,
      Bool.false_eq_true,if_false,Nat.le_refl]

/-- Nothing but messages is afloat when a workflow is created. -/
theorem afloat_created {rates : Rates} {workflow : WorkflowId} {definitions : Definitions}
    {before after : Controlled definitions} {label : Action} (sound : Sound before)
    (unknown : before.shared.workflowKey workflow = none) (step : Step machine Origin.control before label after) :
    afloat rates workflow after ≤ inFlight rates workflow after := by
  refine Nat.add_le_add_left (weigh_le_weigh (fun (origin,control) member => stake_undue ?_)) _
  rcases step.thread_cases member with inside | ⟨_,_,_,_,_,found,_,_,_⟩ | ⟨_,_,reacts,_⟩
  · exact due_unknown unknown (sound.threads _ inside).1
  · exact due_unknown unknown (sound.threads _ (List.mem_of_getElem? found)).1
  · obtain ⟨_,_,_,spawned,_⟩ := react_queue reacts
    refine due_unknown unknown ?_
    rintro message rfl
    exact sound.shared.queue message (spawned message rfl)

/-- One for a parked node. -/
def token {definitions : Definitions} (workflow : WorkflowId) (node : NodeId) (S : Controlled definitions) : Nat :=
  if Parked workflow node S.view then 1 else 0

theorem token_le {definitions : Definitions} (workflow : WorkflowId) (node : NodeId) (S : Controlled definitions) :
    token workflow node S ≤ 1 := by
  unfold token
  split <;> decide

/-- What is in flight for a node, its parked message and its tasks were paid for by the
opening or by a task of an input. -/
def Backed {definitions : Definitions} (workflow : WorkflowId) (g : Graph) (node : NodeId) (S : Controlled definitions) : Prop :=
  afloat (arrivals g node) workflow S + token workflow node S + ran S.shared workflow node ≤
    (arrivals g node).opening + ((g.inputNodes node).map (ran S.shared workflow)).sum

/-- The node has a task or a message, or the slot knows of it. -/
def Present {definitions : Definitions} (workflow : WorkflowId) (node : NodeId) (S : Controlled definitions) : Prop :=
  S.shared.slot workflow = some node ∨ Underway workflow node S.view

/-- A graph that runs from its roots along branches that never meet, without conditions. -/
structure Graph.Forest (g : Graph) : Prop where
  formed : g.WellFormed
  single : ∀ node, (g.inputNodes node).length ≤ 1
  plain : ∀ node ∈ g.nodes, node.isCondition = false

/-- The step neither waits for a nested workflow nor closes the workflow after a failure. -/
def Control.Spared (workflow : WorkflowId) : Control → Prop
  | .childSend _ _ task _ | .childSave _ _ task | .failClose _ _ task _ _ => task.workflow ≠ workflow
  | _ => True

/-- A resume is about to send the node. -/
def Control.Recalls (workflow : WorkflowId) (g : Graph) (node : NodeId) : Control → Prop
  | .resumeData asked _ next => asked = workflow ∧ next = node
  | .send messages => messages = [.processNextNode ⟨node,workflow,g⟩]
  | _ => False

/-- Who opened the workflow is about to send the start node. -/
def Control.Starts (workflow : WorkflowId) (node : NodeId) : Control → Prop
  | .openData asked _ => asked = workflow
  | .send messages => ∃ message ∈ messages, message.names workflow node = true
  | _ => False

/-- A request sends messages of nodes only. -/
def Control.Resends : Control → Prop
  | .send messages => ∀ message ∈ messages, ∃ job, message = .processNextNode job
  | _ => True

/-- The task is at work or a success. -/
def Task.Hale (task : Task) : Prop := task.status = .success ∨ task.status.active = true

/-- The invariants of a workflow whose graph is a forest and whose parked nodes are kept. -/
structure Sheltered {definitions : Definitions} (events : List (Origin × Operation)) (S : Controlled definitions)
    (workflow : WorkflowId) (g : Graph) : Prop where
  alone : Alone S workflow
  spared : ∀ thread ∈ S.threads, Control.Spared workflow thread.2
  resent : ∀ thread ∈ S.threads, Origin.resumes workflow thread.1 = true → Control.Resends thread.2
  hale : ∀ (id : TaskId) (task : Task), S.shared.tasks[id]? = some task → task.workflow = workflow → task.Hale
  rereads : ∀ thread ∈ S.threads, ∀ row, Control.reread? thread.2 = some row → row.workflow = workflow → row.Hale
  backed : ∀ node, Backed workflow g node S
  once : ∀ node, ran S.shared workflow node ≤ 1
  copies : ∀ thread ∈ S.threads, ∀ row, Control.resaves? thread.2 = some (workflow,row) → ∀ node,
    row.currentNodeId = some node → Present workflow node S
  sent : ∀ node, Sent workflow node events → Present workflow node S
  held : ∀ node, Parked workflow node S.view → node ≠ "" ∧ Begun S.shared workflow ∧
    ((∃ row, S.shared.workflows[workflow]? = some row ∧ row.status = .wait) ∨
      ∃ thread ∈ S.threads, (∃ payload, thread.1 = .request (.resume workflow payload)) ∧
        Control.Recalls workflow g node thread.2)
  opened : Begun S.shared workflow → ∀ node ∈ g.startNodes, Sent workflow node events ∨
    ∃ thread ∈ S.threads, thread.1 = .message (.executeWorkflowV2 workflow) ∧ Control.Starts workflow node thread.2

/-- The step is the one in which a worker parks the node. -/
def Parks {definitions : Definitions} (workflow : WorkflowId) (node : NodeId) (S : Controlled definitions) (label : Action) :
    Prop :=
  ∃ index answer job row, label = .advance index answer ∧
    S.threads[index]? = some (.message (.processNextNode job),.park job row) ∧ job.workflow = workflow ∧
    job.currentNodeId = node

section sheltered
variable {definitions : Definitions} {events : List (Origin × Operation)} {before after : Controlled definitions}
  {label : Action} {workflow : WorkflowId} {g : Graph} {node : NodeId} {origin : Origin} {control : Control}
  {operation : Operation}

theorem worker_graph (tended : Tended events before workflow) (forest : g.Forest)
    (here : ∀ key, before.shared.workflowKey workflow = some key → Flat definitions before.shared workflow g) {job : Job}
    (member : (.message (.processNextNode job),control) ∈ before.threads) (owner : job.workflow = workflow) :
    Flat definitions before.shared workflow g ∧ job.graph = g ∧ (g.node? job.currentNodeId).isSome = true := by
  subst owner
  have known := (tended.regular.sound.threads _ member).1 _ rfl
  obtain ⟨key,stored⟩ := Option.isSome_iff_exists.mp known
  have flat := here key stored
  have carried := (tended.regular.graphed.threads _ member).1 _ rfl job rfl
  obtain ⟨_,reached⟩ := (tended.dispatching.steering.threads _ member).1.elim rfl
  exact ⟨flat,Option.some.inj (carried.symm.trans flat.graph),reached_known forest.formed flat.graph reached⟩

theorem ran_unique {db : Db} {id other : TaskId} {task another : Task} (once : ran db workflow node ≤ 1)
    (stored : db.tasks[id]? = some task) (there : db.tasks[other]? = some another) (owner : task.workflow = workflow)
    (named : task.nodeId = some node) (same : another.workflow = workflow) (too : another.nodeId = some node) :
    other = id := by
  by_contra differs
  have one (row : Task) (owner : row.workflow = workflow) (named : row.nodeId = some node) :
      charge workflow (fun id => if id = node then 1 else 0) row = 1 := by simp [charge,owner,named]
  have removed := weigh_eraseIdx (charge workflow (fun id => if id = node then 1 else 0)) db.tasks id task stored
  have least := weight_le_weigh (charge workflow (fun id => if id = node then 1 else 0)) (db.tasks.eraseIdx id) another
    (List.mem_eraseIdx_iff_getElem?.mpr ⟨other,differs,there⟩)
  rw [one _ owner named] at removed
  rw [one _ same too] at least
  simp only [ran] at once
  omega

/-- The thread at work on a task of a childless workflow is the worker of its node. -/
theorem works_worker (sound : Sound before) (alone : Alone before workflow) (member : (origin,control) ∈ before.threads)
    {id : TaskId} {task : Task} (stored : before.shared.tasks[id]? = some task) (owner : task.workflow = workflow)
    (works : control.Works task.celeryTaskId) : control.stage.working = true ∧
      ∃ job, origin = .message (.processNextNode job) ∧ job.workflow = workflow ∧ task.nodeId = some job.currentNodeId := by
  have linked := (sound.threads _ member).2
  have key := taskKey_of_stored stored
  have owned (owns : Owns before.shared origin task.celeryTaskId) : ∃ job, origin = .message (.processNextNode job) ∧
      job.workflow = workflow ∧ task.nodeId = some job.currentNodeId := by
    obtain ⟨job,message,same,named⟩ := owner_scope sound.shared owns key rfl
    exact ⟨job,message,same.symm.trans owner,named⟩
  have held {other : TaskId} {row : Task} (there : before.shared.taskKey other = some row.key)
      (same : row.celeryTaskId = task.celeryTaskId) : row.workflow = workflow ∧ row.nodeId = task.nodeId := by
    have ids := sound.shared.unique other id row.key task.key there key same
    subst other
    have equal : row.key = task.key := Option.some.inj (there.symm.trans key)
    exact ⟨(congrArg TaskKey.workflow equal).trans owner,congrArg TaskKey.nodeId equal⟩
  have failed {other : TaskId} {row : Task} (fails : Fails before.shared origin other row)
      (same : row.celeryTaskId = task.celeryTaskId) : ∃ job, origin = .message (.processNextNode job) ∧
        job.workflow = workflow ∧ task.nodeId = some job.currentNodeId := by
    obtain ⟨home,node⟩ := held fails.stored same
    rcases fails.level with ⟨job,message,owns,named⟩ | ⟨child,below⟩
    · exact ⟨job,message,owns.symm.trans home,node.symm.trans named⟩
    · exact absurd (home ▸ below) (alone.rows child)
  cases control with
  | startRead | successRead | failRead => exact ⟨rfl,owned (works ▸ linked)⟩
  | startSave | stepRead | runCode | logSave | progressRead | childSave => exact ⟨rfl,owned (works ▸ linked.owns)⟩
  | progressSave | templateRead | childCreate | childSend => exact ⟨rfl,owned (works ▸ linked.1.owns)⟩
  | successSave =>
    obtain ⟨home,node⟩ := held linked.stored works
    obtain ⟨_,job,message,own,named⟩ := alone.own sound linked home
    exact ⟨rfl,job,message,own,node.symm.trans named⟩
  | failRow => exact ⟨rfl,failed linked works⟩
  | failSave => exact ⟨rfl,failed linked.1 works⟩
  | _ => cases works

theorem stake_due {rates : Rates} {job : Job} (works : control.stage.working = true) (owner : job.workflow = workflow) :
    rates.task job.currentNodeId ≤ control.stake rates workflow (.message (.processNextNode job)) := by
  have due : (Origin.message (.processNextNode job)).due rates workflow = _ := due_worker rates workflow rfl
  rw [if_pos owner] at due
  cases control with
  | send => cases works
  | _ =>
    simp only [Control.stake,works,if_true]
    omega

/-- The message of a node finds its input ready: the task of the input is a success, or else
its worker would still stand for the message. -/
theorem input_ready (tended : Tended events before workflow) (sheltered : Sheltered events before workflow g)
    (forest : g.Forest) (here : ∀ key, before.shared.workflowKey workflow = some key → Flat definitions before.shared workflow g)
    {job : Job} {row : Workflow} {known : Node} {input : NodeId} {rest : List NodeId}
    (member : (origin,Control.inputRead job row known input rest) ∈ before.threads) (owner : job.workflow = workflow) :
    before.shared.inputReady workflow input = true := by
  have sound := tended.regular.sound
  have taken : Taken before.shared origin job row known := (sound.threads _ member).2
  obtain rfl := taken.message
  obtain ⟨flat,same,_⟩ := worker_graph tended forest here member owner
  obtain ⟨front,inputs,_⟩ := tended.regular.ordered.threads _ member
  rw [same] at inputs
  have one := forest.single job.currentNodeId
  obtain ⟨rfl,rfl⟩ : front = [] ∧ rest = [] := by
    rw [inputs] at one
    simp only [List.length_append,List.length_cons] at one
    exact ⟨List.length_eq_zero_iff.mp (by omega),List.length_eq_zero_iff.mp (by omega)⟩
  have inner : job.currentNodeId ∉ g.startNodes := fun start => by simp [startNodes_no_inputs start] at inputs
  -- the ledger of the node: its own message is paid for by the one task of the input
  have backed := sheltered.backed job.currentNodeId
  have opening : (arrivals g job.currentNodeId).opening = 0 := if_neg inner
  simp only [Backed,inputs,List.nil_append,List.map_cons,List.map_nil,List.sum_cons,List.sum_nil,opening] at backed
  have most := sheltered.once input
  obtain ⟨place,found⟩ := List.mem_iff_getElem?.mp member
  let stake (thread : Origin × Control) := Control.stake (arrivals g job.currentNodeId) workflow thread.1 thread.2
  have own : stake (.message (.processNextNode job),.inputRead job row known input []) = 1 := by
    simp [stake,Control.stake,Control.stage,Stage.working,Control.cost,Message.cost,arrivals,owner]
  have removed := weigh_eraseIdx stake before.threads place _ found
  simp only [afloat] at backed
  change _ + weigh stake before.threads + _ + _ ≤ _ at backed
  obtain ⟨key,there,home,named⟩ := firstTask_stored (show 0 < ran before.shared workflow input by omega)
  obtain ⟨task,stored,rfl⟩ := Option.map_eq_some_iff.mp there
  change task.workflow = workflow at home
  change task.nodeId = some input at named
  have success : task.status = .success := by
    rcases sheltered.hale _ task stored home with success | active
    · exact success
    · obtain ⟨⟨other,point⟩,inside,works⟩ := tended.attended _ task stored home active
      obtain ⟨working,next,rfl,below,node⟩ := works_worker sound sheltered.alone inside stored home works
      have apart : (Origin.message (.processNextNode next),point) ∈ before.threads.eraseIdx place := by
        refine mem_eraseIdx_of_ne found inside ?_
        rintro ⟨⟩
        cases working
      have heavy := weight_le_weigh stake _ _ apart
      have due : (arrivals g job.currentNodeId).task next.currentNodeId ≤ stake (.message (.processNextNode next),point) :=
        stake_due working below
      cases Option.some.inj (named.symm.trans node)
      have pays : (arrivals g job.currentNodeId).task next.currentNodeId = 1 := by simp [arrivals,inputs]
      omega
  have only : before.shared.taskByNode workflow input = .ok (firstTask before.shared workflow input,task) := by
    refine getRow_single stored (by simp [home,named]) (fun other another there fits => ?_)
    simp only [Bool.and_eq_true,beq_iff_eq] at fits
    exact ran_unique most stored there home named fits.1 fits.2
  simp only [Db.inputReady,only,success,beq_self_eq_true]

/-- A worker leaves a message with a task for its node, or parks the node. -/
theorem worker_ends {answer : Outside} (tended : Tended events before workflow) (sheltered : Sheltered events before workflow g)
    (forest : g.Forest) (here : ∀ key, before.shared.workflowKey workflow = some key → Flat definitions before.shared workflow g)
    {job : Job} (member : (.message (.processNextNode job),control) ∈ before.threads) (owner : job.workflow = workflow)
    (busy : control.operation = some operation) (ends : (control.next definitions before.shared answer).operation = none) :
    HasTask before.shared workflow job.currentNodeId ∨ ∃ row, control = .park job row := by
  have sound := tended.regular.sound
  obtain ⟨known,linked⟩ := sound.threads _ member
  have checks {row : Workflow} {found : Node} {inputs : List NodeId} :
      (Control.checking job row found inputs).operation ≠ none :=
    Control.checking_elim (P := fun point => point.operation ≠ none) (fun _ _ _ => Option.some_ne_none _)
      (fun _ => Control.admitted_elim (P := fun point => point.operation ≠ none) (fun _ _ => Option.some_ne_none _)
        (fun _ _ => Option.some_ne_none _) (fun _ => Option.some_ne_none _))
  cases control with
  | take taken =>
    cases linked
    obtain ⟨row,found⟩ := getWorkflow_known (known _ rfl)
    obtain ⟨flat,same,there⟩ := worker_graph tended forest here member owner
    obtain ⟨node,named⟩ := Option.isSome_iff_exists.mp there
    have loaded : before.shared.getWorkflow job.workflow = .ok row := found
    simp only [Control.next,loaded,same,named] at ends
    split at ends
    · cases ends
    · exact absurd ends checks
  | park parked row =>
    cases linked.1
    exact .inr ⟨row,rfl⟩
  | inputRead taken row found input rest =>
    cases linked.message
    have ready := input_ready tended sheltered forest here member owner
    simp only [Control.next,owner,ready,if_true] at ends
    exact absurd ends checks
  | previousRead =>
    exact absurd ends (Control.withOutput_elim (P := fun point => point.operation ≠ none) (fun _ _ => Option.some_ne_none _)
      (fun _ _ => Option.some_ne_none _))
  | payloadRead | create => cases ends
  | openRead => cases linked
  | openSave | openData => cases linked.1
  | launchRead | launchCreate => simp [Control.Linked] at linked
  | pauseRead | resumeRead | cancelRead => cases linked
  | pauseSave | resumeTasks | resumeSave | cancelTasks | cancelTask | cancelSave => cases linked.1
  | resumeData =>
    obtain ⟨⟨_,⟨⟩⟩,_⟩ := linked
  | templateSave => exact absurd (tended.regular.graphed.threads _ member).2 id
  | done => cases busy
  | _ => exact .inl (owner ▸ tended.served _ member job rfl rfl)

/-- A thread that is dropped has to do with another workflow. -/
theorem drop_elsewhere {environment : Environment} {changed : Db} {index : Nat} {thread : Origin × Control}
    (sound : Sound before) (allowed : orderly workflow before.view (.move environment))
    (reacts : machine.react environment before.shared (before.threads.map Prod.fst) = some (changed,.drop index))
    (found : before.threads[index]? = some thread) :
    (∀ message, thread.1 = .message message → message.workflow ≠ workflow) ∧
      ∀ request, thread.1 = .request request → request.asks ≠ some workflow := by
  rcases react_inv reacts with ⟨_,_,_,_,_,⟨⟩⟩ | ⟨_,_,_,⟨⟩⟩ | ⟨_,_,_,_,_,⟨⟩⟩ | ⟨_,_,rfl,_,_,⟨⟩⟩ | ⟨_,_,rfl,_,_,⟨⟩⟩ <;>
    exact orderly_lost sound allowed found

/-- A node stays underway until its worker parks it. -/
theorem underway_step (tended : Tended events before workflow) (sheltered : Sheltered events before workflow g)
    (forest : g.Forest) (here : ∀ key, before.shared.workflowKey workflow = some key → Flat definitions before.shared workflow g)
    (allowed : orderly workflow before.view label) (step : Step machine Origin.control before label after)
    (underway : Underway workflow node before.view) :
    Underway workflow node after.view ∨ Parks workflow node before label := by
  have sound := tended.regular.sound
  have grows := (sound_step sound step).2
  rcases underway_iff.mp underway with has | ⟨message,queued,names⟩ | ⟨⟨origin,control⟩,member,names,busy⟩
  · exact .inl (underway_iff.mpr (.inl (has.mono grows)))
  · refine .inl (underway_iff.mpr (.inr ?_))
    cases step with
    | advance => exact .inl ⟨message,queue_kept queued,names⟩
    | close => exact .inl ⟨message,queued,names⟩
    | keep environment changed reacts =>
      rcases react_inv reacts with ⟨_,_,_,_,_,⟨⟩⟩ | ⟨_,_,_,⟨⟩⟩ | ⟨_,_,_,_,rfl,_⟩ | ⟨_,_,_,_,_,⟨⟩⟩ | ⟨_,_,_,_,_,⟨⟩⟩
      exact .inl ⟨message,List.mem_append_left _ queued,names⟩
    | spawn environment changed origin reacts =>
      rcases react_inv reacts with ⟨index,taken,_,found,rfl,⟨⟩⟩ | ⟨_,_,rfl,⟨⟩⟩ | ⟨_,_,_,_,_,⟨⟩⟩ | ⟨_,_,_,_,_,⟨⟩⟩ |
        ⟨_,_,_,_,_,⟨⟩⟩
      · by_cases same : message = taken
        · subst same
          refine .inr ⟨_,List.mem_append_right _ (List.mem_singleton_self _),names,?_⟩
          cases message <;> exact Option.some_ne_none _
        · exact .inl ⟨message,mem_eraseIdx_of_ne found queued same,names⟩
      · exact .inl ⟨message,queued,names⟩
    | drop environment changed index reacts =>
      rcases react_inv reacts with ⟨_,_,_,_,_,⟨⟩⟩ | ⟨_,_,_,⟨⟩⟩ | ⟨_,_,_,_,_,⟨⟩⟩ | ⟨_,_,_,_,rfl,_⟩ | ⟨_,_,_,_,rfl,_⟩
      · exact .inl ⟨message,List.mem_append_left _ queued,names⟩
      · exact .inl ⟨message,queued,names⟩
  · obtain ⟨job,rfl,owner,own⟩ := origin_names.mp names
    rcases step.remains member with inside | ⟨index,answer,operation,rfl,found,moves,_,new⟩ | idle | ⟨_,_,rfl,there,reacts⟩
    · exact .inl (underway_iff.mpr (.inr (.inr ⟨_,inside,names,busy⟩)))
    · cases ends : (control.next definitions before.shared answer).operation with
      | some following => exact .inl (underway_iff.mpr (.inr (.inr ⟨_,new,names,ends ▸ Option.some_ne_none _⟩)))
      | none =>
        rcases worker_ends tended sheltered forest here member owner moves ends with has | ⟨row,rfl⟩
        · exact .inl (underway_iff.mpr (.inl (own ▸ has.mono grows)))
        · exact .inr ⟨index,answer,job,row,rfl,found,owner,own⟩
    · exact absurd idle busy
    · exact absurd owner ((drop_elsewhere sound allowed reacts there).1 _ rfl)

theorem slot_step (steering : Steering events before workflow) (step : Step machine Origin.control before label after) :
    after.shared.slot workflow = before.shared.slot workflow ∨
      ∃ index answer origin control row, label = .advance index answer ∧ before.threads[index]? = some (origin,control) ∧
        Control.operation control = some (.saveWorkflow workflow row) ∧ after.shared.slot workflow = row.currentNodeId := by
  rcases step.shared_cases with same | ⟨index,answer,origin,control,operation,rfl,found,busy,same⟩ | ⟨_,_,_,reacts⟩
  · exact .inl (by rw [same])
  · have member := List.mem_of_getElem? found
    rw [same]
    cases operation with
    | saveWorkflow id row =>
      by_cases own : id = workflow
      · subst own
        obtain ⟨old,stored,_⟩ := Option.map_eq_some_iff.mp (linked_keyed (steering.sound.threads _ member).2 busy)
        have saved : (before.shared.workflows.set id row)[id]? = some row :=
          List.getElem?_set_self (List.getElem?_eq_some_iff.mp stored).1
        exact .inr ⟨index,answer,origin,control,row,rfl,found,busy,congrArg (Option.bind · Workflow.currentNodeId) saved⟩
      · exact .inl (congrArg (Option.bind · Workflow.currentNodeId) (List.getElem?_set_ne own))
    | createWorkflow row =>
      refine .inl ?_
      change ((before.shared.workflows ++ [row])[workflow]?).bind _ = _
      rw [List.getElem?_append]
      split
      · rfl
      next fresh =>
        -- a new row has no node in it
        have blank : row.currentNodeId = none := by
          have steered := (steering.threads _ member).2
          rcases createWorkflow_inv busy with ⟨_,_,_,rfl⟩ | rfl <;> exact steered
        have unknown : before.shared.slot workflow = none := by
          simp [Db.slot,List.getElem?_eq_none (Nat.le_of_not_lt fresh)]
        rw [unknown]
        cases at_ : [row][workflow - before.shared.workflows.length]? with
        | none => rfl
        | some made =>
          cases List.mem_singleton.mp (List.mem_of_getElem? at_)
          exact blank
    | _ => exact .inl rfl
  · obtain ⟨queue,same,_⟩ := react_queue reacts
    exact .inl (by rw [same]; rfl)

theorem saved_present (tended : Tended events before workflow) (sheltered : Sheltered events before workflow g)
    {row : Workflow} (member : (origin,control) ∈ before.threads)
    (busy : control.operation = some (.saveWorkflow workflow row)) (names : row.currentNodeId = some node) :
    Present workflow node before := by
  have linked := (tended.regular.sound.threads _ member).2
  cases control with
  | openSave | pauseSave | resumeSave =>
    cases busy
    exact sheltered.copies _ member _ rfl node names
  | park job held =>
    cases busy
    cases Option.some.inj names
    refine .inr (underway_iff.mpr (.inr (.inr ⟨_,member,origin_names.mpr ⟨job,linked.1,rfl,rfl⟩,?_⟩)))
    exact Option.some_ne_none _
  | closeSave =>
    cases busy
    exact .inr (underway_iff.mpr (.inl ⟨_,_,linked.1.stored,rfl,names⟩))
  | failClose =>
    cases busy
    exact absurd rfl (sheltered.spared _ member)
  | cancelSave =>
    cases busy
    exact absurd linked.1 (tended.uncancelled _ member)
  | send messages => cases messages <;> cases busy
  | _ => cases busy

section kept
variable (tended : Tended events before workflow) (sheltered : Sheltered events before workflow g) (forest : g.Forest)
  (here : ∀ key, before.shared.workflowKey workflow = some key → Flat definitions before.shared workflow g)
  (allowed : orderly workflow before.view label) (step : Step machine Origin.control before label after)
include tended sheltered forest here allowed step

theorem present_step (present : Present workflow node before) : Present workflow node after := by
  have slots := slot_step tended.dispatching.steering step
  have parks (parked : Parks workflow node before label) : Present workflow node after := by
    obtain ⟨index,answer,job,row,rfl,found,rfl,rfl⟩ := parked
    obtain ⟨_,stored⟩ := (tended.regular.sound.threads _ (List.mem_of_getElem? found)).2
    obtain ⟨old,there,_⟩ := Option.map_eq_some_iff.mp stored
    cases step with
    | advance _ _ _ _ operation again busy =>
      cases Option.some.inj (found.symm.trans again)
      cases busy
      have saved := List.getElem?_set_self (a := {row with currentNodeId := some job.currentNodeId})
        (List.getElem?_eq_some_iff.mp there).1
      exact .inl (congrArg (Option.bind · Workflow.currentNodeId) saved)
  by_cases underway : Underway workflow node before.view
  · rcases underway_step tended sheltered forest here allowed step underway with still | parked
    · exact .inr still
    · exact parks parked
  · have slot := present.resolve_right underway
    rcases slots with same | ⟨index,answer,origin,control,row,rfl,found,busy,same⟩
    · exact .inl (same.trans slot)
    · exact .inl (same.trans ((orderly_advance allowed found busy).keeps row rfl node ⟨slot,underway⟩))

/-- A node is parked by its worker only. -/
theorem parked_step (parked : Parked workflow node after.view) :
    Parked workflow node before.view ∨ Parks workflow node before label := by
  have present : Present workflow node before := by
    rcases slot_step tended.dispatching.steering step with same | ⟨index,answer,origin,control,row,rfl,found,busy,same⟩
    · exact .inl (same.symm.trans parked.1)
    · exact saved_present tended sheltered (List.mem_of_getElem? found) busy (same.symm.trans parked.1)
  by_cases underway : Underway workflow node before.view
  · exact .inr ((underway_step tended sheltered forest here allowed step underway).resolve_left parked.2)
  · exact .inl ⟨present.resolve_right underway,underway⟩

end kept

/-- The change of the account of one node between two states. -/
def Squared (workflow : WorkflowId) (g : Graph) (node : NodeId) (before after : Controlled definitions) : Prop :=
  afloat (arrivals g node) workflow after + token workflow node after + ran after.shared workflow node +
      weigh (charge workflow (arrivals g node).task) before.shared.tasks ≤
    afloat (arrivals g node) workflow before + token workflow node before + ran before.shared workflow node +
      weigh (charge workflow (arrivals g node).task) after.shared.tasks

/-- A step squares the account if its thread and the parked node pay for what it passes on. -/
theorem squared_advance {index : Nat} {next : Control}
    (found : before.threads[index]? = some (origin,control)) (keyed : operation.Keyed before.shared)
    (paid : next.stake (arrivals g node) workflow origin + operation.passes (arrivals g node) workflow +
        token workflow node (⟨operation.effect before.shared,before.threads.set index (origin,next)⟩ : Controlled definitions) ≤
      control.stake (arrivals g node) workflow origin + operation.adds (arrivals g node) workflow +
        token workflow node before) :
    Squared workflow g node before ⟨operation.effect before.shared,before.threads.set index (origin,next)⟩ := by
  have threads := weigh_set (fun thread : Origin × Control => Control.stake (arrivals g node) workflow thread.1 thread.2)
    before.threads index _ (origin,next) found
  have queue := queue_effect (arrivals g node) workflow before.shared operation
  have messages := charge_effect workflow (arrivals g node).message keyed
  have tasks := charge_effect workflow (arrivals g node).task keyed
  simp only [Squared,afloat]
  change _ + weigh (charge workflow (arrivals g node).message) (operation.effect before.shared).tasks + _ ≤
    _ + weigh (charge workflow (arrivals g node).message) before.shared.tasks + _
  cases operation <;> simp only [Operation.passes,Operation.adds] at paid queue messages tasks threads <;> omega

theorem resumes_iff : origin.resumes workflow = true ↔ ∃ payload, origin = .request (.resume workflow payload) := by
  constructor
  · intro resumes
    cases origin with
    | message => cases resumes
    | request request => cases request with
      | resume asked payload => exact ⟨payload,by rw [show asked = workflow from beq_iff_eq.mp resumes]⟩
      | _ => cases resumes
  · rintro ⟨payload,rfl⟩
    exact beq_self_eq_true workflow

section account
variable (tended : Tended events before workflow) (sheltered : Sheltered events before workflow g) (forest : g.Forest)
  (here : ∀ key, before.shared.workflowKey workflow = some key → Flat definitions before.shared workflow g)
  (allowed : orderly workflow before.view label) (step : Step machine Origin.control before label after)
include tended sheltered forest here allowed step

theorem token_step (node : NodeId) :
    token workflow node after ≤ token workflow node before ∨ Parks workflow node before label := by
  by_cases parked : Parked workflow node after.view
  · refine (parked_step tended sheltered forest here allowed step parked).imp_left (fun old => ?_)
    simp only [token,if_pos parked,if_pos old,Nat.le_refl]
  · refine .inl ?_
    simp only [token,if_neg parked,Nat.zero_le]

/-- The message that a resume sends is the one that was parked. -/
theorem token_resumed {index : Nat} {answer : Outside} (same : label = .advance index answer)
    (found : before.threads[index]? = some (origin,control)) (busy : control.operation = some operation)
    (resumes : origin.resumes workflow = true)
    (shared : after.shared = operation.effect before.shared) (node : NodeId) :
    token workflow node after + operation.passes (arrivals g node) workflow ≤ token workflow node before := by
  subst same
  have member := List.mem_of_getElem? found
  have linked := (tended.regular.sound.threads _ member).2
  have resent := sheltered.resent _ member resumes
  obtain ⟨payload,rfl⟩ := resumes_iff.mp resumes
  have less : token workflow node after ≤ token workflow node before := by
    refine (token_step tended sheltered forest here allowed step node).resolve_right ?_
    rintro ⟨_,_,_,_,⟨⟩,there,_⟩
    cases found.symm.trans there
  cases operation with
  | send message =>
    rcases send_inv busy with ⟨rest,rfl⟩ | ⟨_,_,_,_,rfl,_⟩
    · obtain ⟨job,rfl⟩ := resent message List.mem_cons_self
      by_cases names : job.workflow = workflow ∧ job.currentNodeId = node
      · obtain ⟨owner,own⟩ := names
        have parked : Parked workflow node before.view := own ▸ (orderly_advance allowed found busy).sends payload job rfl rfl
        have free : ¬Parked workflow node after.view := by
          rintro ⟨_,absent⟩
          refine absent (underway_iff.mpr (.inr (.inl ⟨_,?_,message_names.mpr ⟨job,rfl,owner,own⟩⟩)))
          rw [shared]
          exact List.mem_append_right _ (List.mem_singleton_self _)
        simp only [token,if_pos parked,if_neg free,Operation.passes,Message.cost,owner,own,arrivals,if_true,Nat.zero_add,
          Nat.le_refl]
      · have free : Message.cost (arrivals g node) workflow (.processNextNode job) = 0 := by
          simp only [Message.cost,arrivals]
          split
          next owner => exact if_neg (fun own => names ⟨owner,own⟩)
          next => rfl
        simpa only [Operation.passes,free,Nat.add_zero] using less
    · obtain ⟨_,⟨⟩⟩ := linked.1.owns.worker
  | createTask row =>
    obtain ⟨_,_,_,_,_,rfl,_⟩ := createTask_inv busy
    cases linked.message
  | _ => exact less

theorem squared_step (flat : Flat definitions before.shared workflow g) (node : NodeId) : Squared workflow g node before after := by
  have sound := tended.regular.sound
  cases label with
  | move environment =>
    have tasks (rate : NodeId → Nat) : weigh (charge workflow rate) after.shared.tasks =
        weigh (charge workflow rate) before.shared.tasks := by
      rcases tasks_step workflow sound step with same | ⟨_,_,_,_,_,_,_,⟨⟩,_⟩
      exact same rate
    have less : token workflow node after ≤ token workflow node before := by
      refine (token_step tended sheltered forest here allowed step node).resolve_right ?_
      rintro ⟨_,_,_,_,⟨⟩,_⟩
    have moved := weigh_move (Message.cost (arrivals g node) workflow) (Control.stake (arrivals g node) workflow)
      (fun message => by cases message <;> rfl) (fun request => by cases request <;> rfl) (fun index message same found => ?_) step
    · have ran_same : ran after.shared workflow node = ran before.shared workflow node := tasks _
      have inputs := tasks (arrivals g node).task
      simp only [Squared,afloat]
      dsimp only at moved
      omega
    · have other : message.workflow ≠ workflow := by
        rintro owner
        refine orderly_once sound allowed ⟨index,message,?_,found,owner ▸ .refl⟩
        rcases same with rfl | rfl
        · exact .inl rfl
        · exact .inr rfl
      cases message <;> exact if_neg other
  | close index =>
    have less : token workflow node after ≤ token workflow node before := by
      refine (token_step tended sheltered forest here allowed step node).resolve_right ?_
      rintro ⟨_,_,_,_,⟨⟩,_⟩
    cases step with
    | close _ origin control found _ =>
      have ended := weigh_eraseIdx (fun thread : Origin × Control => Control.stake (arrivals g node) workflow thread.1 thread.2)
        before.threads index _ found
      simp only [Squared,afloat]
      omega
  | advance index answer =>
    have tokens := token_step tended sheltered forest here allowed step node
    have later := (sound_step sound step).1
    cases step with
    | advance _ _ origin control operation found busy =>
      have member := List.mem_of_getElem? found
      have linked := (sound.threads _ member).2
      have keyed := linked_keyed linked busy
      cases resumes : origin.resumes workflow with
      | true =>
        have new := List.mem_of_getElem? (List.getElem?_set_self (a := (origin,control.next definitions before.shared answer))
          (List.getElem?_eq_some_iff.mp found).1)
        have next : (control.next definitions before.shared answer).stake (arrivals g node) workflow origin = 0 :=
          stake_resumes (later.threads _ new).2 resumes
        have hands := token_resumed tended sheltered forest here allowed
          (.advance before index answer origin control operation found busy) rfl found busy resumes rfl node
        refine squared_advance found keyed (Nat.le_trans ?_ (Nat.add_le_add (Nat.zero_le _) hands))
        rw [next,Nat.zero_add,Nat.zero_add,Nat.add_comm]
        exact Nat.le_refl _
      | false =>
        have goes : (control.next definitions before.shared answer).stake (arrivals g node) workflow origin + _ ≤ _ :=
          stake_next tended.regular sheltered.alone flat (arrivals_fit g node) member busy resumes
        rcases tokens with less | ⟨_,_,job,row,⟨⟩,there,owner,own⟩
        · exact squared_advance found keyed (Nat.add_le_add goes less)
        · -- the worker gives its message for the token
          cases Option.some.inj (found.symm.trans there)
          cases busy
          have gives : (Control.park job row).stake (arrivals g node) workflow (.message (.processNextNode job)) = 1 := by
            simp [Control.stake,Control.stage,Stage.working,Control.cost,Message.cost,arrivals,owner,own]
          refine squared_advance found keyed ?_
          rw [gives]
          change 0 + 0 + token workflow node _ ≤ 1 + 0 + _
          rw [Nat.zero_add,Nat.add_zero]
          exact Nat.le_trans (token_le workflow node _) (Nat.le_add_right _ _)

/-- The accounts are opened with the workflow. -/
theorem backed_step (there : ∀ key, after.shared.workflowKey workflow = some key → Flat definitions after.shared workflow g)
    (node : NodeId) : Backed workflow g node after := by
  have sound := tended.regular.sound
  have inputs (db : Db) : weigh (charge workflow (arrivals g node).task) db.tasks = _ :=
    charge_inputs db workflow (g.inputNodes node)
  cases known : before.shared.workflowKey workflow with
  | some key =>
    have square := squared_step tended sheltered forest here allowed step (here key known) node
    have backed := sheltered.backed node
    simp only [Squared,inputs] at square
    simp only [Backed] at backed ⊢
    omega
  | none =>
    have floats : afloat (arrivals g node) workflow after ≤ inFlight (arrivals g node) workflow after :=
      afloat_created sound known step
    have free : token workflow node after = 0 := by
      refine if_neg (fun parked => ?_)
      rcases slot_step tended.dispatching.steering step with same | ⟨_,_,_,_,_,_,found,busy,_⟩
      · have slot := same.symm.trans parked.1
        simp [Db.slot,Option.map_eq_none_iff.mp known] at slot
      · have keyed : before.shared.workflowKey workflow = _ := linked_keyed (sound.threads _ (List.mem_of_getElem? found)).2 busy
        cases known.symm.trans keyed
    have later := (sound_step sound step).1
    simp only [Backed]
    cases created : after.shared.workflowKey workflow with
    | none =>
      have still : inFlight (arrivals g node) workflow after = 0 := inFlight_unknown later created
      have unran : ran after.shared workflow node = 0 := charge_unknown later created _
      omega
    | some key =>
      have balanced : Balanced (arrivals g node) workflow after := balanced_created sound known step (there key created)
      simp only [Balanced,inputs] at balanced
      change _ + ran after.shared workflow node ≤ _ at balanced
      omega

end account

end sheltered

end FinmarsWorkflow
