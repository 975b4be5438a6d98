import FinmarsWorkflow.Interleave.Walks
import FinmarsWorkflow.Once

/-! Every run is finite, on graphs with cycles too.
A task needs a task of each input before it, so the nodes that run are ordered by
their first rows and lie on no cycle. What arrives at a node was sent along a
connection by a task before it, which bounds its tasks by the ways that lead to it. -/
namespace FinmarsWorkflow
open Interleave Relation

namespace Graph

/-- The ways to a node from the start nodes, each as the positions of its connections. -/
def walks (g : Graph) (node : NodeId) : Set (List Nat) :=
  Interleave.walks g.connections Connection.source Connection.target (· ∈ g.startNodes) node

/-- The node lies on a directed cycle or has an ancestor on one. -/
def Cyclic (g : Graph) (node : NodeId) : Prop :=
  Interleave.Cyclic g.connections Connection.source Connection.target node

/-- One message for each start node, and one for each connection that leaves a node
and each way to the node. -/
noncomputable def messageLimit (g : Graph) : Nat :=
  g.startNodes.length + (g.ids.map (fun id => (g.walks id).ncard * (g.adjacent id).length)).sum

end Graph

section tasks
variable {definitions : Definitions} {S : Controlled definitions} {workflow : WorkflowId} {g : Graph}

/-- The position of the first task of a node. -/
def firstTask (db : Db) (workflow : WorkflowId) (node : NodeId) : Nat :=
  db.tasks.findIdx (fun task => task.workflow == workflow && task.nodeId == some node)

theorem firstTask_le {db : Db} {id : TaskId} {key : TaskKey} {node : NodeId} (stored : db.taskKey id = some key)
    (owner : key.workflow = workflow) (names : key.nodeId = some node) : firstTask db workflow node ≤ id := by
  obtain ⟨task,found,rfl⟩ := Option.map_eq_some_iff.mp stored
  obtain ⟨bound,rfl⟩ := List.getElem?_eq_some_iff.mp found
  by_contra later
  have differs := List.not_of_lt_findIdx (Nat.lt_of_not_le later)
  have here : (db.tasks[id]).workflow = workflow := owner
  have there : (db.tasks[id]).nodeId = some node := names
  simp [here,there] at differs

theorem firstTask_stored {db : Db} {node : NodeId} (some_ran : 0 < ran db workflow node) :
    ∃ key, db.taskKey (firstTask db workflow node) = some key ∧ key.workflow = workflow ∧ key.nodeId = some node := by
  rw [ran_count,List.countP_pos_iff] at some_ran
  obtain ⟨task,member,fits⟩ := some_ran
  have bound : firstTask db workflow node < db.tasks.length := List.findIdx_lt_length_of_exists ⟨task,member,fits⟩
  have found := List.findIdx_getElem (w := bound)
  simp only [Bool.and_eq_true,beq_iff_eq] at found
  exact ⟨_,taskKey_of_stored (List.getElem?_eq_getElem bound),found.1,found.2⟩

/-- The first task of a node comes after the first tasks of its inputs. -/
theorem firstTask_ordered (regular : Regular S) (graph : S.shared.graph workflow = some g) (input node : NodeId)
    (feeds : Feeds g.connections Connection.source Connection.target input node)
    (some_ran : 0 < ran S.shared workflow node) :
    0 < ran S.shared workflow input ∧ firstTask S.shared workflow input < firstTask S.shared workflow node := by
  obtain ⟨key,stored,rfl,names⟩ := firstTask_stored some_ran
  have among : input ∈ g.inputNodes node := by
    obtain ⟨connection,member,rfl,rfl⟩ := feeds
    simp only [Graph.inputNodes,List.mem_map,List.mem_filter]
    exact ⟨connection,⟨member,by simp⟩,rfl⟩
  obtain ⟨id,before,earlier,⟨_,task,there,owner,same,_⟩,grown⟩ :=
    regular.ordered.rows _ key g node stored graph names input among
  have kept := grown.task _ _ (taskKey_of_stored there)
  exact ⟨ran_pos kept owner same,Nat.lt_of_le_of_lt (firstTask_le kept owner same) before⟩

theorem charge_cons (workflow : WorkflowId) (input : NodeId) (rest : List NodeId) (task : Task) :
    charge workflow (fun id => (input::rest).count id) task =
      charge workflow (fun id => if id = input then 1 else 0) task + charge workflow (fun id => rest.count id) task := by
  unfold charge
  split
  · cases task.nodeId with
    | none => rfl
    | some id =>
      simp only [Option.map_some,Option.getD_some,List.count_cons,beq_iff_eq,eq_comm (a := input)]
      omega
  · rfl

/-- The tasks of the inputs of a node, counted input by input. -/
theorem charge_inputs (db : Db) (workflow : WorkflowId) (inputs : List NodeId) :
    weigh (charge workflow (fun id => inputs.count id)) db.tasks = (inputs.map (ran db workflow)).sum := by
  induction inputs with
  | nil =>
    refine (weigh_eq_zero _ _).mpr (fun task _ => ?_)
    simp only [charge,List.count_nil]
    cases task.nodeId <;> simp
  | cons input rest ih =>
    have each : charge workflow (fun id => (input::rest).count id) = _ := funext (charge_cons workflow input rest)
    rw [each,weigh_add,ih,List.map_cons,List.sum_cons]
    rfl

/-- A node runs once for its opening and once for each task of an input at most. -/
theorem ran_inputs {node : NodeId} (balanced : Balanced (arrivals g node) workflow S) :
    ran S.shared workflow node ≤ (if node ∈ g.startNodes then 1 else 0) +
      ((g.connections.filter (fun connection => connection.target = node)).map
        (fun connection => ran S.shared workflow connection.source)).sum := by
  have inputs := charge_inputs S.shared workflow (g.inputNodes node)
  simp only [Graph.inputNodes,List.map_map,Function.comp_def] at inputs
  simp only [Balanced] at balanced
  change _ + ran S.shared workflow node ≤ _ + weigh (charge workflow (fun id => (g.inputNodes node).count id)) _ at balanced
  simp only [Graph.inputNodes,inputs,arrivals] at balanced
  exact Nat.le_trans (Nat.le_add_left _ _) balanced

section bounds
variable (regular : Regular S) (graph : S.shared.graph workflow = some g)
  (balanced : ∀ node, Balanced (arrivals g node) workflow S)
include regular graph

theorem ran_acyclic {node : NodeId} (some_ran : 0 < ran S.shared workflow node) : ¬g.Cyclic node :=
  ranked_acyclic (firstTask_ordered regular graph) some_ran

include balanced

theorem ran_walks (node : NodeId) : (ran S.shared workflow node : ℕ∞) ≤ (g.walks node).encard :=
  counted_walks (firstTask_ordered regular graph) (fun node => ran_inputs (balanced node)) node

/-- A node that has run has finitely many ways to it, and ran no more often. -/
theorem ran_ncard (node : NodeId) : ran S.shared workflow node ≤ (g.walks node).ncard := by
  rcases Nat.eq_zero_or_pos (ran S.shared workflow node) with none | positive
  · exact none ▸ Nat.zero_le _
  · have finite : (g.walks node).Finite := walks_finite (ran_acyclic regular graph positive)
    have bound := ran_walks regular graph balanced node
    rw [← finite.cast_ncard_eq] at bound
    exact Nat.cast_le.mp bound

end bounds

end tasks

section sending
variable (rates : Rates) (workflow : WorkflowId)

/-- The stages at which a worker has a message and no task yet. -/
def Stage.holding : Stage → Bool
  | .taking | .parking | .checking | .admitted => true
  | _ => false

/-- What a thread may still send, if it gets no further task. -/
def Control.owed (origin : Origin) (control : Control) : Nat :=
  if control.stage.holding then 0 else control.cost rates workflow origin

def Message.owed : Message → Nat
  | .executeWorkflowV2 other => Message.cost rates workflow (.executeWorkflowV2 other)
  | .processNextNode _ => 0

/-- What an operation puts into the queue. -/
def Operation.posts : Operation → Nat
  | .send message => message.cost rates workflow
  | _ => 0

/-- What a performed operation has sent to a node. -/
def Operation.sent : Operation → Nat
  | .send (.processNextNode job) => Message.cost rates workflow (.processNextNode job)
  | _ => 0

def sentBy (events : List (Origin × Operation)) : Nat :=
  weigh (fun event => Operation.sent rates workflow event.2) events

def outstanding {definitions : Definitions} (S : Controlled definitions) : Nat :=
  weigh (Message.owed rates workflow) S.shared.queue +
    weigh (fun thread => Control.owed rates workflow thread.1 thread.2) S.threads

/-- All that was sent to nodes and all that still may be was paid for by the opening
and the tasks so far. -/
def Covered {definitions : Definitions} (events : List (Origin × Operation)) (S : Controlled definitions) : Prop :=
  sentBy rates workflow events + outstanding rates workflow S ≤
    rates.opening + weigh (charge workflow rates.task) S.shared.tasks

end sending

section account
variable {rates : Rates} {workflow : WorkflowId} {definitions : Definitions} {before after : Controlled definitions}
  {label : Action} {g : Graph} {origin : Origin} {control : Control} {operation : Operation}

theorem owed_le_cost : control.owed rates workflow origin ≤ control.cost rates workflow origin := by
  unfold Control.owed
  split
  · exact Nat.zero_le _
  · exact Nat.le_refl _

theorem message_owed_le_cost (message : Message) : message.owed rates workflow ≤ message.cost rates workflow := by
  cases message with
  | executeWorkflowV2 => exact Nat.le_refl _
  | processNextNode => exact Nat.zero_le _

theorem outstanding_le_inFlight : outstanding rates workflow before ≤ inFlight rates workflow before :=
  Nat.add_le_add (weigh_le_weigh (fun message _ => message_owed_le_cost message))
    (weigh_le_weigh (fun _ _ => owed_le_cost))

theorem owed_quiet (quiet : (control.stage.holding || control.stage.free) = true) :
    control.owed rates workflow origin = 0 := by
  rcases (Bool.or_eq_true_iff).mp quiet with holding | free
  · rw [Control.owed,if_pos holding]
  · exact Nat.le_zero.mp (Nat.le_trans owed_le_cost (Nat.le_of_eq (cost_free free)))

theorem owed_next_quiet {outside : Outside}
    (quiet : control.stage.next.all (fun stage => stage.holding || stage.free) = true) :
    (control.next definitions before.shared outside).owed rates workflow origin = 0 :=
  owed_quiet (List.all_eq_true.mp quiet _ (Control.stage_next definitions before.shared outside control))

/-- A worker that has a message keeps it, drops it or gets its task. -/
theorem owed_holding {outside : Outside} (linked : control.Linked before.shared origin)
    (busy : control.operation = some operation) (holding : control.stage.holding = true) :
    (control.next definitions before.shared outside).owed rates workflow origin + operation.posts rates workflow ≤
      operation.adds rates workflow := by
  cases control with
  | take | park | inputRead =>
    cases busy
    rw [owed_next_quiet rfl]
    exact Nat.zero_le _
  | previousRead =>
    cases busy
    exact Control.withOutput_elim (P := fun point => point.owed rates workflow origin ≤ 0)
      (fun _ _ => Nat.le_of_eq (owed_quiet rfl)) (fun _ _ => Nat.le_of_eq (owed_quiet rfl))
  | payloadRead =>
    cases busy
    simp only [Control.next]
    rw [owed_quiet rfl]
    exact Nat.zero_le _
  | create job row node payload output =>
    cases busy
    have due := due_worker rates workflow linked.message
    have id := node?_id linked.known
    simp only [Control.next,Operation.posts,Operation.adds,charge,newTask,id,Option.map_some,Option.getD_some]
    exact Nat.le_of_eq due
  | _ => cases holding

theorem holding_next {outside : Outside} (working : control.stage.holding = false) :
    (control.next definitions before.shared outside).stage.holding = false := by
  have quiet : ∀ stage : Stage, stage.holding = false → stage.next.all (fun stage => !stage.holding) = true := by
    intro stage
    cases stage <;> decide
  have next := List.all_eq_true.mp (quiet _ working) _ (Control.stage_next definitions before.shared outside control)
  simpa using next

theorem owed_next {outside : Outside} (isolated : Isolated before workflow)
    (flat : Flat definitions before.shared workflow g) (fits : rates.Fits g)
    (member : (origin,control) ∈ before.threads) (busy : control.operation = some operation) :
    (control.next definitions before.shared outside).owed rates workflow origin + operation.posts rates workflow ≤
      control.owed rates workflow origin + operation.adds rates workflow := by
  cases holding : control.stage.holding with
  | true =>
    have kept : (control.next definitions before.shared outside).owed rates workflow origin + _ ≤ _ :=
      owed_holding (isolated.regular.sound.threads _ member).2 busy holding
    exact Nat.le_trans kept (Nat.le_add_left _ _)
  | false =>
    have paid : (control.next definitions before.shared outside).cost rates workflow origin + _ ≤ _ :=
      cost_next isolated.regular (isolated.alone g flat) (isolated.unresumed _ member) flat fits member busy
    have posts : operation.posts rates workflow ≤ operation.passes rates workflow := by
      cases operation with
      | send => exact Nat.le_refl _
      | _ => exact Nat.zero_le _
    rw [Control.owed,Control.owed,holding,holding_next holding]
    simp only [Bool.false_eq_true,if_false]
    omega

/-- The queue keeps what is sent to open a workflow; what is sent to a node counts as sent. -/
theorem owed_effect (rates : Rates) (workflow : WorkflowId) (db : Db) (operation : Operation) :
    weigh (Message.owed rates workflow) (operation.effect db).queue + operation.sent rates workflow =
      weigh (Message.owed rates workflow) db.queue + operation.posts rates workflow := by
  cases operation with
  | send message => cases message <;> simp [Operation.effect,Operation.sent,Operation.posts,Message.owed]
  | _ => rfl

theorem origin_owed (rates : Rates) (workflow : WorkflowId) (origin : Origin) :
    origin.control.owed rates workflow origin = match origin with
      | .message message => message.owed rates workflow
      | .request _ => 0 := by
  cases origin with
  | message message => cases message <;> rfl
  | request request => cases request <;> rfl

/-- A step sends no more than it owed or its task pays for. -/
theorem covered_step (isolated : Isolated before workflow) (allowed : unrepeated workflow before.view label)
    (step : Step machine Origin.control before label after) (flat : Flat definitions before.shared workflow g)
    (fits : rates.Fits g) :
    sentBy rates workflow (before.event label) + outstanding rates workflow after +
        weigh (charge workflow rates.task) before.shared.tasks ≤
      outstanding rates workflow before + weigh (charge workflow rates.task) after.shared.tasks := by
  cases label with
  | move environment =>
    have tasks : after.shared.tasks = before.shared.tasks := by
      rcases step.shared_cases with equal | ⟨_,_,_,_,_,⟨⟩,_⟩ | ⟨_,_,_,reacts⟩
      · rw [equal]
      · obtain ⟨queue,equal,_⟩ := react_queue reacts
        rw [equal]
    have moved := weigh_move (Message.owed rates workflow) (Control.owed rates workflow)
      (fun message => origin_owed rates workflow (.message message))
      (fun request => origin_owed rates workflow (.request request))
      (fun _ message same found => Nat.le_zero.mp (repeated_cost rates same allowed found ▸ message_owed_le_cost message))
      step
    simp only [System.event,sentBy,weigh_nil,outstanding,tasks,Nat.zero_add]
    exact Nat.add_le_add_right moved _
  | advance index answer =>
    cases step with
    | advance _ _ origin control operation found busy =>
      have member := List.mem_of_getElem? found
      have keyed := linked_keyed (isolated.regular.sound.threads _ member).2 busy
      have threads := weigh_set (fun thread : Origin × Control => Control.owed rates workflow thread.1 thread.2)
        before.threads index _ (origin,control.next definitions before.shared answer) found
      have paid : (control.next definitions before.shared answer).owed rates workflow origin + _ ≤ _ :=
        owed_next isolated flat fits member busy
      have queue := owed_effect rates workflow before.shared operation
      have tasks := charge_effect workflow rates.task keyed
      rw [event_advance found busy]
      simp only [sentBy,outstanding,weigh_cons,weigh_nil]
      change _ + (weigh _ (operation.effect before.shared).queue + weigh _ (before.threads.set index _)) + _ ≤
        _ + weigh _ (operation.effect before.shared).tasks
      cases operation <;> simp only [Operation.adds] at paid queue tasks threads ⊢ <;> omega
  | close index =>
    cases step with
    | close _ origin control found _ =>
      have ended := weigh_eraseIdx (fun thread : Origin × Control => Control.owed rates workflow thread.1 thread.2)
        before.threads index _ found
      simp only [System.event,sentBy,weigh_nil,outstanding]
      omega

/-- Nothing is sent to the nodes of a workflow that is not there yet. -/
theorem unknown_unsent (sound : Sound before) (unknown : before.shared.workflowKey workflow = none)
    (step : Step machine Origin.control before label after) : sentBy rates workflow (before.event label) = 0 := by
  cases step with
  | advance index answer origin control operation found busy =>
    rw [event_advance found busy]
    simp only [sentBy,weigh_cons,weigh_nil,Nat.add_zero]
    unfold Operation.sent
    split
    next job =>
      rcases send_inv busy with ⟨rest,rfl⟩ | ⟨_,_,_,_,_,⟨⟩⟩
      have linked := (sound.threads _ (List.mem_of_getElem? found)).2
      exact message_unknown unknown (linked _ List.mem_cons_self).1
    next => rfl
  | _ => rfl

end account

/-- What is known of a run so far, for all rates that fit the graph. -/
structure Accounted {definitions : Definitions} (workflow : WorkflowId) (events : List (Origin × Operation))
    (S : Controlled definitions) : Prop where
  isolated : Isolated S workflow
  unsent : S.shared.workflowKey workflow = none → ∀ rates, sentBy rates workflow events = 0
  balanced : ∀ rates g, Flat definitions S.shared workflow g → rates.Fits g → Balanced rates workflow S
  covered : ∀ rates g, Flat definitions S.shared workflow g → rates.Fits g → Covered rates workflow events S

section run
variable {definitions : Definitions} {before after : Controlled definitions} {label : Action} {workflow : WorkflowId}
  {events : List (Origin × Operation)}

theorem accounted_step (accounted : Accounted workflow events before) (allowed : unrepeated workflow before.view label)
    (step : Step machine Origin.control before label after) :
    Accounted workflow (events ++ before.event label) after := by
  have sound := accounted.isolated.regular.sound
  have grows := (sound_step sound step).2
  have balanced (rates : Rates) (g : Graph) (flat : Flat definitions after.shared workflow g) (fits : rates.Fits g) :
      Balanced rates workflow after :=
    balanced_step accounted.isolated allowed (accounted.balanced rates) step flat fits
  have fresh (unknown : before.shared.workflowKey workflow = none) (rates : Rates) :
      sentBy rates workflow (events ++ before.event label) = 0 := by
    have front := accounted.unsent unknown rates
    have last : sentBy rates workflow (before.event label) = 0 := unknown_unsent sound unknown step
    simp only [sentBy,weigh_append] at front last ⊢
    omega
  refine ⟨isolated_step accounted.isolated allowed step,fun unknown rates => ?_,balanced,fun rates g flat fits => ?_⟩
  · cases known : before.shared.workflowKey workflow with
    | none => exact fresh known rates
    | some key => cases (grows.workflow _ _ known).symm.trans unknown
  · cases known : before.shared.workflowKey workflow with
    | none =>
      have balance := balanced rates g flat fits
      have less : outstanding rates workflow after ≤ inFlight rates workflow after := outstanding_le_inFlight
      simp only [Covered,fresh known rates]
      simp only [Balanced] at balance
      omega
    | some key =>
      have here := flat.earlier grows (templates_step accounted.isolated.regular step) known
      have covered := accounted.covered rates g here fits
      have sent := covered_step accounted.isolated allowed step here fits
      simp only [Covered,sentBy,weigh_append] at covered sent ⊢
      omega

theorem execution_accounted {templates : List WorkflowTemplate} {last : Installation}
    (run : Execution definitions (unrepeated workflow) (installed templates) events last) :
    ∃ reached : Controlled definitions, Alike last reached ∧ Accounted workflow events reached := by
  obtain ⟨reached,follows,alike⟩ := execution_follow run
  refine ⟨reached,alike,follows.recorded (Accounted workflow) ?_ ?_⟩
  · intro front before label after accounted allowed step
    exact accounted_step accounted allowed step
  · have none (g : Graph) : ¬Flat definitions (unused definitions templates).shared workflow g := by
      intro flat
      simpa [unused,installed,Db.graph,Db.workflowKey] using flat.graph
    exact ⟨unused_isolated templates workflow,fun _ _ => rfl,fun _ g flat => absurd flat (none g),
      fun _ g flat => absurd flat (none g)⟩

end run

/-- One for each message: a start node gets one, and a task sends one along each connection. -/
def dispatches (g : Graph) : Rates where
  message _ := 1
  task id := (g.adjacent id).length
  opening := g.startNodes.length

theorem weigh_one {A : Type} (items : List A) : weigh (fun _ => 1) items = items.length := by
  induction items with
  | nil => rfl
  | cons item rest ih => rw [weigh_cons,ih,List.length_cons,Nat.add_comm]

theorem dispatches_fit (g : Graph) : (dispatches g).Fits g := by
  refine ⟨Nat.le_of_eq (weigh_one _),fun node retval ids routed => ?_⟩
  refine Nat.le_trans (Nat.le_of_eq (weigh_one ids)) ?_
  exact (successors_sublist routed).length_le

/-- The operation sends a `process_next_node` message of the workflow. -/
def sendsNode (workflow : WorkflowId) : Origin × Operation → Bool
  | (_,.send (.processNextNode job)) => job.workflow == workflow
  | _ => false

theorem sentBy_count (g : Graph) (workflow : WorkflowId) (events : List (Origin × Operation)) :
    sentBy (dispatches g) workflow events = events.countP (sendsNode workflow) := by
  unfold sentBy
  induction events with
  | nil => rfl
  | cons event rest ih =>
    rw [weigh_cons,ih,List.countP_cons,Nat.add_comm]
    congr 1
    obtain ⟨origin,operation⟩ := event
    cases operation with
    | send message => cases message with
      | processNextNode job => simp [Operation.sent,sendsNode,Message.cost,dispatches]
      | executeWorkflowV2 => rfl
    | _ => rfl

section total
variable {definitions : Definitions} {S : Controlled definitions} {workflow : WorkflowId} {g : Graph}

theorem charge_node {ids : List NodeId} {task : Task} (rate : NodeId → Nat)
    (known : task.workflow = workflow → ∃ id ∈ ids, task.nodeId = some id) :
    charge workflow rate task ≤
      (ids.map (fun id => charge workflow (fun other => if other = id then 1 else 0) task * rate id)).sum := by
  by_cases owner : task.workflow = workflow
  · obtain ⟨id,member,names⟩ := known owner
    have own : charge workflow rate task = charge workflow (fun other => if other = id then 1 else 0) task * rate id := by
      simp [charge,owner,names]
    rw [own]
    exact List.le_sum_of_mem (List.mem_map.mpr ⟨id,member,rfl⟩)
  · exact Nat.le_trans (Nat.le_of_eq (charge_elsewhere owner)) (Nat.zero_le _)

/-- The tasks of a workflow, charged node by node. -/
theorem charge_nodes {ids : List NodeId} (rate : NodeId → Nat) (tasks : List Task)
    (known : ∀ task ∈ tasks, task.workflow = workflow → ∃ id ∈ ids, task.nodeId = some id) :
    weigh (charge workflow rate) tasks ≤
      (ids.map (fun id => weigh (charge workflow (fun other => if other = id then 1 else 0)) tasks * rate id)).sum := by
  induction tasks with
  | nil => exact Nat.zero_le _
  | cons task rest ih =>
    rw [List.forall_mem_cons] at known
    simp only [weigh_cons,Nat.add_mul,List.sum_map_add]
    exact Nat.add_le_add (charge_node rate known.1) (ih known.2)

theorem built_node (regular : Regular S) (graph : S.shared.graph workflow = some g) {task : Task}
    (member : task ∈ S.shared.tasks) (owner : task.workflow = workflow) : ∃ id ∈ g.ids, task.nodeId = some id := by
  obtain ⟨id,stored⟩ := List.mem_iff_getElem?.mp member
  obtain ⟨made,node,_,there,found,names,_⟩ := regular.built id task.key (taskKey_of_stored stored)
  have same : S.shared.graph task.workflow = some g := owner ▸ graph
  cases Option.some.inj (same.symm.trans there)
  refine ⟨node.id,?_,names⟩
  rw [Graph.ids,List.mem_eraseDups]
  exact List.mem_map.mpr ⟨node,node?_mem found,rfl⟩

/-- The messages sent to the nodes of a workflow are limited by its graph. -/
theorem sent_limit {events : List (Origin × Operation)} (accounted : Accounted workflow events S)
    (flat : Flat definitions S.shared workflow g) : events.countP (sendsNode workflow) ≤ g.messageLimit := by
  have regular := accounted.isolated.regular
  have balanced (node : NodeId) := accounted.balanced _ g flat (arrivals_fit g node)
  have covered := accounted.covered _ g flat (dispatches_fit g)
  have nodes := charge_nodes (dispatches g).task S.shared.tasks (fun _ member => built_node regular flat.graph member)
  rw [Covered,sentBy_count] at covered
  calc events.countP (sendsNode workflow)
      ≤ (dispatches g).opening + weigh (charge workflow (dispatches g).task) S.shared.tasks :=
        Nat.le_trans (Nat.le_add_right _ _) covered
    _ ≤ g.startNodes.length + (g.ids.map (fun id => ran S.shared workflow id * (g.adjacent id).length)).sum :=
        Nat.add_le_add_left nodes _
    _ ≤ g.messageLimit := by
        refine Nat.add_le_add_left (List.sum_le_sum (fun id _ => ?_)) _
        exact Nat.mul_le_mul_right _ (ran_ncard regular flat.graph balanced id)

end total

/-- In every run without resume and redelivery, whatever the graph, the tasks of a node
are at most the ways that lead to it from the start nodes, a node on a cycle or behind
one has none, and the messages ever sent to nodes are limited. -/
theorem runs_are_finite (definitions : Definitions) (templates : List WorkflowTemplate) (workflow : WorkflowId)
    (events : List (Origin × Operation)) (last : Installation)
    (run : Execution definitions (unrepeated workflow) (installed templates) events last)
    (g : Graph) (flat : Flat definitions last.shared workflow g) :
    (∀ node, (last.shared.tasks.countP (fun task => task.workflow == workflow && task.nodeId == some node) : ℕ∞) ≤
      (g.walks node).encard) ∧
    (∀ node, g.Cyclic node →
      last.shared.tasks.countP (fun task => task.workflow == workflow && task.nodeId == some node) = 0) ∧
    events.countP (sendsNode workflow) ≤ g.messageLimit := by
  obtain ⟨reached,alike,accounted⟩ := execution_accounted run
  rw [alike.shared] at flat ⊢
  have regular := accounted.isolated.regular
  refine ⟨fun node => ?_,fun node cyclic => ?_,sent_limit accounted flat⟩
  · rw [← ran_count]
    exact ran_walks regular flat.graph (fun node => accounted.balanced _ g flat (arrivals_fit g node)) node
  · rw [← ran_count]
    by_contra positive
    exact ran_acyclic regular flat.graph (Nat.pos_of_ne_zero positive) cyclic

/-- A node behind two parallel connections, before a loop. -/
def looped : Graph where
  nodes := [codeNode "a",codeNode "b",codeNode "c"]
  connections := [codeConnection "a" "b",codeConnection "a" "b",codeConnection "b" "c",codeConnection "c" "c"]

/-- The node behind the parallel connections runs twice, and nothing enters the loop. -/
theorem runs_are_finite_looped : ∃ events last,
    Execution versionOne (unrepeated 0) (installed [⟨"t",0,looped⟩]) events last ∧
    last.shared.tasks.length = 3 ∧ last.shared.queue.isEmpty = true ∧
    last.shared.tasks.countP (fun task => task.workflow == 0 && task.nodeId == some "b") = 2 ∧
    2 ≤ (looped.walks "b").encard ∧ looped.Cyclic "c" ∧
    last.shared.tasks.countP (fun task => task.workflow == 0 && task.nodeId == some "c") = 0 ∧
    events.countP (sendsNode 0) ≤ looped.messageLimit := by
  obtain ⟨events,last,run,found⟩ := schedule_execution versionOne (unrepeated 0) [⟨"t",0,looped⟩]
    (opened ++ processed 0 .null ++ processed 0 .null ++ processed 0 .null ++ processed 0 .null ++ processed 0 .null)
    (fun S => decide (S.shared.tasks.length = 3 ∧ S.shared.queue.isEmpty = true ∧
      S.shared.tasks.countP (fun task => task.workflow == 0 && task.nodeId == some "b") = 2 ∧
      S.shared.graph 0 = some looped)) (by decide)
  obtain ⟨length,drained,twice,graph⟩ := of_decide_eq_true found
  obtain ⟨walks,cycles,limit⟩ := runs_are_finite versionOne [⟨"t",0,looped⟩] 0 events last run looped
    (coded_flat graph (by decide))
  have loop : Feeds looped.connections Connection.source Connection.target "c" "c" :=
    ⟨codeConnection "c" "c",by decide,rfl,rfl⟩
  have cyclic : looped.Cyclic "c" := ⟨"c",.single loop,.refl⟩
  have bound := walks "b"
  rw [twice] at bound
  exact ⟨events,last,run,length,drained,twice,bound,cyclic,cycles "c" cyclic,limit⟩

end FinmarsWorkflow
