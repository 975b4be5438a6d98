import FinmarsWorkflow.Order

/-! One workflow among all that an installation runs.
Nobody repeats its messages, and if none of its nodes delegates to
a nested workflow it has no children, so that only its own workers act on it. -/
namespace FinmarsWorkflow
open Interleave Relation

/-- A request about a workflow, or a message of it that is handed out once more. -/
def disturbs (workflow : WorkflowId) (view : Seen) : Action → Bool
  | .move (.request request) => request.asks == some workflow
  | .move (.redeliver index) | .move (.lose index) => match view.threads[index]? with
    | some (.message message,_) => message.workflow == workflow
    | _ => false
  | _ => false

/-- Nobody edits templates, nobody pauses, resumes or cancels the workflow, and each
of its messages is delivered once. -/
def undisturbed (workflow : WorkflowId) : Allowed := fun view label =>
  fixedTemplates view label ∧ disturbs workflow view label = false

instance (workflow : WorkflowId) (view : Seen) (label : Action) : Decidable (undisturbed workflow view label) :=
  inferInstanceAs (Decidable (_ ∧ _))

/-- The parked node of a workflow is sent again, or a message of it is handed out once more. -/
def repeats (workflow : WorkflowId) (view : Seen) : Action → Bool
  | .move (.request (.resume other _)) => other == workflow
  | .move (.redeliver index) | .move (.lose index) => match view.threads[index]? with
    | some (.message message,_) => message.workflow == workflow
    | _ => false
  | _ => false

/-- Nobody edits templates or resumes the workflow, and each of its messages is
delivered once; it may be paused and cancelled at any time. -/
def unrepeated (workflow : WorkflowId) : Allowed := fun view label =>
  fixedTemplates view label ∧ repeats workflow view label = false

instance (workflow : WorkflowId) (view : Seen) (label : Action) : Decidable (unrepeated workflow view label) :=
  inferInstanceAs (Decidable (_ ∧ _))

theorem undisturbed_unrepeated {workflow : WorkflowId} {view : Seen} {label : Action}
    (allowed : undisturbed workflow view label) : unrepeated workflow view label := by
  obtain ⟨fixed,quiet⟩ := allowed
  refine ⟨fixed,?_⟩
  unfold repeats
  split
  · simpa [disturbs,Request.asks] using quiet
  · exact quiet
  · exact quiet
  · rfl

/-- The task row was made for a node of the graph of its workflow. -/
def Made (db : Db) (key : TaskKey) : Prop :=
  ∃ g node owner, db.graph key.workflow = some g ∧ g.node? node.id = some node ∧ key.nodeId = some node.id ∧
    key.name = taskName node ∧ key.sourceCode = taskSourceCode node ∧
    db.workflowKey key.workflow = some owner ∧ key.space = owner.space

def Built (db : Db) : Prop := ∀ id key, db.taskKey id = some key → Made db key

theorem Made.mono {db later : Db} {key : TaskKey} (grows : Grows db later) (keeps : KeepsGraphs db later)
    (made : Made db key) : Made later key := by
  obtain ⟨g,node,owner,graph,known,id,name,code,there,space⟩ := made
  exact ⟨g,node,owner,keeps _ _ graph,known,id,name,code,grows.workflow _ _ there,space⟩

/-- What a thread may send a message of a node for: opening sends the start nodes, a
worker follows a connection of its node unless it has climbed, and launching sends none. -/
def Origin.Routes (db : Db) (next : Job) : Origin → Prop
  | .message (.processNextNode job) => next.workflow = job.workflow →
      next.currentNodeId ∈ job.graph.adjacent job.currentNodeId ∨ ∃ child, db.Delegated child job.workflow
  | .message (.executeWorkflowV2 workflow) => ∃ g, db.graph workflow = some g ∧ next.currentNodeId ∈ g.startNodes
  | .request (.resume _ _) => True
  | .request _ => False

def Control.Routed (db : Db) (origin : Origin) : Control → Prop
  | .send messages => ∀ next, .processNextNode next ∈ messages → origin.Routes db next
  | _ => True

/-- The invariants that hold as long as nobody edits a template. -/
structure Regular {definitions : Definitions} (S : Controlled definitions) : Prop where
  sound : Sound S
  graphed : Graphed S
  built : Built S.shared
  ordered : Ordered (Grown S.shared) S
  routed : ∀ thread ∈ S.threads, (thread.2 : Control).Routed S.shared thread.1

section regular
variable {definitions : Definitions} {before after : Controlled definitions} {label : Action}

/-- An operation of a thread that edits no template. -/
theorem Regular.keeps {origin : Origin} {control : Control} {operation : Operation} (regular : Regular before)
    (member : (origin,control) ∈ before.threads) (busy : control.operation = some operation) :
    Grows before.shared (operation.effect before.shared) ∧
      KeepsGraphs before.shared (operation.effect before.shared) := by
  have linked := (regular.sound.threads _ member).2
  have grows := keyed_grows (linked_keyed linked busy)
  exact ⟨grows,grows.keepsGraphs (templates_effect (regular.graphed.threads _ member).2 busy)⟩

theorem built_effect {origin : Origin} {control : Control} {operation : Operation} (regular : Regular before)
    (member : (origin,control) ∈ before.threads) (busy : control.operation = some operation) :
    Built (operation.effect before.shared) := by
  have linked := (regular.sound.threads _ member).2
  obtain ⟨grows,keeps⟩ := regular.keeps member busy
  intro id key stored
  by_cases creates : ∃ row, operation = .createTask row
  · obtain ⟨row,rfl⟩ := creates
    rw [createTask_taskKey] at stored
    split at stored
    next =>
      obtain ⟨job,workflow,node,payload,output,rfl,rfl⟩ := createTask_inv busy
      cases Option.some.inj stored
      have carried := (regular.graphed.threads _ member).1 _ linked.message job rfl
      have same := node?_id linked.known
      exact Made.mono grows keeps
        ⟨job.graph,node,workflow.key,carried,same ▸ linked.known,rfl,rfl,rfl,linked.stored,rfl⟩
    next => exact (regular.built id key stored).mono grows keeps
  · have kept := taskKey_effect (linked_keyed linked busy) (fun row made => creates ⟨row,made⟩) id
    exact (regular.built id key (kept.symm.trans stored)).mono grows keeps

theorem getNextNode_adjacent {g : Graph} {current next : NodeId} {result : Json}
    (routed : getNextNodeByCondition current result g.connections = .ok (some next)) : next ∈ g.adjacent current := by
  unfold getNextNodeByCondition at routed
  split at routed
  · split at routed
    · obtain ⟨connection,found,rfl⟩ := Option.map_eq_some_iff.mp (Except.ok.inj routed)
      have fits := List.find?_some found
      simp only [Bool.and_eq_true,beq_iff_eq] at fits
      simp only [Graph.adjacent,List.mem_map,List.mem_filter]
      exact ⟨connection,⟨List.mem_of_find?_eq_some found,by simp [fits.1]⟩,rfl⟩
    · cases routed
  all_goals first | cases routed | (split at routed <;> cases routed)

theorem adjacencyList_ok {g : Graph} {adjacency : NodeId → List NodeId} (listed : g.adjacencyList = .ok adjacency) :
    adjacency = g.adjacent := by
  unfold Graph.adjacencyList at listed
  split at listed
  · cases listed
  · exact (Except.ok.inj listed).symm

/-- A finished task leads to targets of its own connections. -/
theorem successors_sublist {g : Graph} {id : NodeId} {retval : Json} {ids : List NodeId}
    (routed : successors g (some id) retval = .ok ids) : ids.Sublist (g.adjacent id) := by
  simp only [successors,bind,Except.bind] at routed
  split at routed
  next => cases routed
  next adjacency listed =>
    cases adjacencyList_ok listed
    cases known : g.node? id with
    | none => simp [known] at routed
    | some node =>
      obtain rfl := node?_id known
      simp only [Option.bind_some,known,nextNodeIds] at routed
      split at routed
      · cases chosen : getNextNodeByCondition node.id retval g.connections with
        | error error => simp [chosen,Except.map] at routed
        | ok target =>
          simp only [chosen,Except.map,Except.ok.injEq] at routed
          cases target with
          | none => exact routed ▸ List.nil_sublist _
          | some target =>
            dsimp only at routed
            split at routed
            · exact routed ▸ List.singleton_sublist.mpr (getNextNode_adjacent chosen)
            · exact routed ▸ List.nil_sublist _
      · cases Except.ok.inj routed
        exact List.Sublist.refl _

theorem routed_of_stage {db : Db} {origin : Origin} {control : Control} (silent : control.stage ≠ .sending) :
    control.Routed db origin := by
  cases control with
  | send => exact absurd rfl silent
  | _ => trivial

theorem routed_next {origin : Origin} {control : Control} {operation : Operation} {outside : Outside}
    (regular : Regular before) (member : (origin,control) ∈ before.threads)
    (busy : control.operation = some operation) :
    (control.next definitions before.shared outside).Routed before.shared origin := by
  have linked := (regular.sound.threads _ member).2
  cases control with
  | send messages => exact fun next sent => regular.routed _ member next (List.mem_of_mem_tail sent)
  | openData other row =>
    simp only [Control.next]
    split
    next g data =>
      split
      · intro next sent
        obtain ⟨id,start,equal⟩ := List.mem_map.mp sent
        cases equal
        have same : origin = .message (.executeWorkflowV2 other) := linked.1
        rw [same]
        exact ⟨g,templateData_graph linked.2 data,start⟩
      · trivial
    next => trivial
  | successData celery depth id task row retval =>
    simp only [Control.next]
    split
    next g data =>
      split
      next ids routed =>
        split
        · trivial
        · intro next sent
          obtain ⟨node,chosen,equal⟩ := List.mem_map.mp sent
          cases equal
          obtain ⟨job,rfl⟩ := linked.1.owns.worker
          intro same
          rcases linked.1.level with own | ⟨child,below⟩
          · obtain ⟨other,again,owner,here⟩ := owner_scope regular.sound.shared linked.1.owns linked.1.stored own
            cases again
            have carried := (regular.graphed.threads _ member).1 _ rfl job rfl
            have graph := templateData_graph linked.2 data
            rw [owner] at graph
            cases Option.some.inj (carried.symm.trans graph)
            rw [here] at routed
            exact .inl ((successors_sublist routed).subset (List.mem_of_mem_filter chosen))
          · exact .inr ⟨child,same ▸ below⟩
      next => trivial
    next => trivial
  | launchCreate =>
    intro next sent
    cases List.mem_singleton.mp sent
  | resumeData =>
    simp only [Control.next]
    split
    · split
      · intro next sent
        obtain ⟨_,request⟩ := linked.1
        have same : origin = _ := request
        rw [same]
        trivial
      · trivial
    · trivial
  | openRead | openSave | successSave | successRow | launchRead | resumeRead | resumeTasks | resumeSave =>
    simp only [Control.next]
    repeat' split
    all_goals trivial
  | successRead =>
    simp only [Control.next]
    split
    · exact Control.handling_elim trivial (fun _ => trivial) (fun _ _ _ => trivial)
    · trivial
  | _ => exact routed_of_stage (Control.stage_avoids rfl)

theorem Grows.routed {db later : Db} {origin : Origin} {control : Control} (grows : Grows db later)
    (keeps : KeepsGraphs db later) (routed : control.Routed db origin) : control.Routed later origin := by
  cases control with
  | send =>
    intro next sent
    have routes := routed next sent
    match origin with
    | .message (.processNextNode job) =>
      exact fun same => (routes same).imp_right (fun ⟨child,below⟩ => ⟨child,grows.delegated below⟩)
    | .message (.executeWorkflowV2 workflow) =>
      obtain ⟨g,graph,start⟩ := routes
      exact ⟨g,keeps _ _ graph,start⟩
    | .request request => cases request <;> exact routes
  | _ => trivial

theorem templates_step (regular : Regular before) (step : Step machine Origin.control before label after) :
    after.shared.templates = before.shared.templates := by
  rcases step.shared_cases with equal | ⟨_,_,_,_,operation,_,found,busy,equal⟩ | ⟨_,_,_,reacts⟩
  · rw [equal]
  · rw [equal]
    exact templates_effect (regular.graphed.threads _ (List.mem_of_getElem? found)).2 busy
  · obtain ⟨queue,equal,_⟩ := react_queue reacts
    rw [equal]

theorem regular_step (regular : Regular before) (allowed : fixedTemplates before.view label)
    (step : Step machine Origin.control before label after) : Regular after := by
  obtain ⟨sound,grows⟩ := sound_step regular.sound step
  have keeps := grows.keepsGraphs (templates_step regular step)
  refine ⟨sound,graphed_step regular.sound regular.graphed allowed step,?_,
    ordered_step regular.sound regular.graphed grows.remembers regular.ordered step,fun (origin,control) member => ?_⟩
  · rcases step.shared_cases with equal | ⟨_,_,_,_,operation,_,found,busy,equal⟩ | ⟨_,_,_,reacts⟩
    · rw [equal]
      exact regular.built
    · rw [equal]
      exact built_effect regular (List.mem_of_getElem? found) busy
    · obtain ⟨queue,equal,_⟩ := react_queue reacts
      rw [equal]
      exact regular.built
  · rcases step.thread_cases member with inside | ⟨_,_,_,_,_,found,busy,_,rfl⟩ | ⟨_,_,_,rfl⟩
    · exact grows.routed keeps (regular.routed _ inside)
    · exact grows.routed keeps (routed_next regular (List.mem_of_getElem? found) busy)
    · cases origin with
      | message message => cases message <;> trivial
      | request request => cases request <;> trivial

theorem unused_regular (templates : List WorkflowTemplate) : Regular (unused definitions templates) := by
  have absent (id : TaskId) (key : TaskKey) : ¬(unused definitions templates).shared.taskKey id = some key := by
    simp [unused,installed,Db.taskKey]
  exact ⟨unused_sound templates,unused_graphed templates,fun id key found => absurd found (absent id key),
    ⟨fun id key _ _ found => absurd found (absent id key),fun _ member => absurd member List.not_mem_nil⟩,
    fun _ member => absurd member List.not_mem_nil⟩

end regular

/-- The step of a node delegates to a nested workflow: it has no code of its own, and
the definition it names is one of version 2. -/
def Node.delegates (definitions : Definitions) (space : SpaceId) (node : Node) : Bool :=
  !((taskSourceCode node).any (· != "")) &&
    match definitions space (targetWorkflowUserCode (taskName node)) with
    | .ok version => version == 2
    | .error _ => false

/-- A workflow with a graph, none of whose nodes delegates. -/
structure Flat (definitions : Definitions) (db : Db) (workflow : WorkflowId) (g : Graph) : Prop where
  graph : db.graph workflow = some g
  nodes : ∀ key, db.workflowKey workflow = some key → ∀ node ∈ g.nodes, node.delegates definitions key.space = false

theorem node?_mem {g : Graph} {id : NodeId} {node : Node} (found : g.node? id = some node) : node ∈ g.nodes :=
  List.mem_reverse.mp (List.mem_of_find?_eq_some found)

def Childless (db : Db) (workflow : WorkflowId) : Prop := ∀ child, ¬db.Delegated child workflow

/-- The step at this control point delegates for another workflow, if it delegates. -/
def Control.Childless (workflow : WorkflowId) : Control → Prop
  | .templateRead _ _ task _ _ | .childCreate _ _ task _ => task.workflow ≠ workflow
  | _ => True

/-- The workflow has no children and is not about to get one. -/
structure Alone {definitions : Definitions} (S : Controlled definitions) (workflow : WorkflowId) : Prop where
  rows : Childless S.shared workflow
  threads : ∀ thread ∈ S.threads, (thread.2 : Control).Childless workflow

section alone
variable {definitions : Definitions} {before after : Controlled definitions} {label : Action} {workflow : WorkflowId}
  {g : Graph}

theorem above_childless {db : Db} {child : WorkflowId} (childless : Childless db workflow)
    (above : db.Above child workflow) : child = workflow := by
  rcases ReflTransGen.cases_tail above with same | ⟨middle,_,edge⟩
  · exact same.symm
  · exact absurd edge (childless middle)

/-- A workflow that is not there yet has no children. -/
theorem unknown_alone (sound : Sound before) (unknown : before.shared.workflowKey workflow = none) :
    Alone before workflow := by
  refine ⟨fun child ⟨key,stored,above⟩ => ?_,fun (origin,control) member => ?_⟩
  · have lower := sound.shared.parent child key workflow stored above
    have bound := Nat.lt_trans lower (workflowKey_lt stored)
    simp [Db.workflowKey,List.getElem?_eq_getElem bound] at unknown
  · have linked := (sound.threads _ member).2
    have known {id : TaskId} {task : Task} (stored : before.shared.taskKey id = some task.key) :
        task.workflow ≠ workflow := by
      rintro rfl
      have there := sound.shared.workflow id task.key stored
      have same : before.shared.workflowKey task.key.workflow = none := unknown
      simp [same] at there
    cases control with
    | templateRead => exact known linked.1.stored
    | childCreate => exact known linked.1.stored
    | _ => trivial

theorem Flat.earlier (flat : Flat definitions after.shared workflow g) (grows : Grows before.shared after.shared)
    (same : after.shared.templates = before.shared.templates) {key : WorkflowKey}
    (known : before.shared.workflowKey workflow = some key) : Flat definitions before.shared workflow g := by
  refine ⟨graph_kept known grows same flat.graph,fun other stored => ?_⟩
  exact flat.nodes other (grows.workflow _ _ stored)

/-- A task of a flat workflow does not delegate. -/
theorem flat_runs {origin : Origin} {celery : CeleryId} {id : TaskId} {task : Task} {row : Workflow}
    (regular : Regular before) (flat : Flat definitions before.shared task.workflow g)
    (runs : Runs before.shared origin celery id task) (loaded : before.shared.workflowKey task.workflow = some row.key)
    (bare : ¬runsSourceCode task = true) :
    definitions row.space (targetWorkflowUserCode task.name) ≠ .ok 2 := by
  intro version
  obtain ⟨made,node,owner,graph,found,_,name,code,there,_⟩ := regular.built id task.key runs.stored
  cases Option.some.inj (flat.graph.symm.trans graph)
  have plain := flat.nodes row.key loaded node (node?_mem found)
  have same : task.name = taskName node := name
  have source : task.sourceCode = taskSourceCode node := code
  have space : row.key.space = row.space := rfl
  simp only [Node.delegates,space,← same,version,← source] at plain
  simp only [runsSourceCode] at bare
  cases written : task.sourceCode with
  | none => simp [written] at plain
  | some text => simp [written] at plain bare; exact absurd bare plain

theorem childless_of_stage {control : Control} (direct : control.stage ≠ .delegating) : control.Childless workflow := by
  cases control with
  | templateRead | childCreate => exact absurd rfl direct
  | _ => trivial

theorem childless_next {origin : Origin} {control : Control} {operation : Operation} {outside : Outside}
    (regular : Regular before) (member : (origin,control) ∈ before.threads)
    (busy : control.operation = some operation) (childless : control.Childless workflow)
    (flat : ∀ key, before.shared.workflowKey workflow = some key → Flat definitions before.shared workflow g) :
    (control.next definitions before.shared outside).Childless workflow := by
  have linked := (regular.sound.threads _ member).2
  cases control with
  | stepRead celery id task kwargs =>
    simp only [Control.next]
    split
    next row loaded =>
      split
      · trivial
      next bare =>
        split
        next version found =>
          split
          next two =>
            rintro rfl
            have key := getWorkflow_key loaded
            exact flat_runs regular (flat _ key) linked key bare (two ▸ found)
          · trivial
        · trivial
    · trivial
  | templateRead =>
    simp only [Control.next]
    split
    · exact childless
    · trivial
  | startRead | startSave | progressRead | childCreate | childSend | childSave =>
    simp only [Control.next]
    repeat' split
    all_goals trivial
  | runCode | logSave | progressSave =>
    exact Control.calling_elim (fun _ _ _ => trivial) (fun _ _ _ => trivial) (fun _ _ => trivial) (fun _ _ => trivial)
  | _ => exact childless_of_stage (Control.stage_avoids rfl)

theorem alone_step (regular : Regular before) (alone : (∃ g, Flat definitions before.shared workflow g) → Alone before workflow)
    (step : Step machine Origin.control before label after) (flat : Flat definitions after.shared workflow g) :
    Alone after workflow := by
  have grows := (sound_step regular.sound step).2
  have same := templates_step regular step
  have here : Alone before workflow := by
    cases known : before.shared.workflowKey workflow with
    | none => exact unknown_alone regular.sound known
    | some key => exact alone ⟨g,flat.earlier grows same known⟩
  refine ⟨fun child ⟨key,stored,above⟩ => ?_,fun (origin,control) member => ?_⟩
  · rcases step.shared_cases with equal | ⟨_,_,origin,control,operation,_,found,busy,equal⟩ | ⟨_,_,_,reacts⟩
    · exact here.rows child ⟨key,equal ▸ stored,above⟩
    · have member := List.mem_of_getElem? found
      have linked := (regular.sound.threads _ member).2
      rw [equal] at stored
      by_cases creates : ∃ row, operation = .createWorkflow row
      · obtain ⟨row,rfl⟩ := creates
        change (Operation.effect _ _).workflowKey child = _ at stored
        rw [createWorkflow_workflowKey] at stored
        split at stored
        next =>
          cases Option.some.inj stored
          rcases createWorkflow_inv busy with ⟨celery,id,task,rfl⟩ | rfl
          · have parent : task.workflow = workflow := Option.some.inj (linked.2.1.symm.trans above)
            exact here.threads _ member parent
          · cases linked.1.symm.trans above
        next => exact here.rows child ⟨key,stored,above⟩
      · have kept := workflowKey_effect (linked_keyed linked busy) (fun row made => creates ⟨row,made⟩) child
        exact here.rows child ⟨key,kept.symm.trans stored,above⟩
    · obtain ⟨queue,equal,_⟩ := react_queue reacts
      rw [equal] at stored
      exact here.rows child ⟨key,stored,above⟩
  · rcases step.thread_cases member with inside | ⟨index,answer,old,operation,_,found,busy,_,rfl⟩ | ⟨_,_,_,rfl⟩
    · exact here.threads _ inside
    · have present := List.mem_of_getElem? found
      exact childless_next regular present busy (here.threads _ present) (fun key known => flat.earlier grows same known)
    · cases origin with
      | message message => cases message <;> trivial
      | request request => cases request <;> trivial

/-- A workflow without children is handled by the worker of the task itself. -/
theorem Alone.own {origin : Origin} {celery : CeleryId} {id : TaskId} {task : Task} (alone : Alone before workflow)
    (sound : Sound before) (handles : Handles before.shared origin celery id task) (same : task.workflow = workflow) :
    task.celeryTaskId = celery ∧ ∃ job, origin = .message (.processNextNode job) ∧ job.workflow = workflow ∧
      task.nodeId = some job.currentNodeId := by
  rcases handles.level with own | ⟨child,below⟩
  · obtain ⟨job,message,owner,node⟩ := owner_scope sound.shared handles.owns handles.stored own
    exact ⟨own,job,message,owner.symm.trans same,node⟩
  · exact absurd (same ▸ below) (alone.rows child)

end alone

section unresumed
variable {definitions : Definitions} {before after : Controlled definitions} {label : Action} {workflow : WorkflowId}

/-- Nobody is about to resume the workflow. -/
def Unresumed (S : Controlled definitions) (workflow : WorkflowId) : Prop :=
  ∀ thread ∈ S.threads, ∀ payload, thread.1 ≠ .request (.resume workflow payload)

theorem unresumed_step (unresumed : Unresumed before workflow) (allowed : unrepeated workflow before.view label)
    (step : Step machine Origin.control before label after) : Unresumed after workflow := by
  rintro ⟨origin,control⟩ member payload rfl
  rcases step.thread_cases member with inside | ⟨_,_,old,_,_,found,_,_,_⟩ | ⟨environment,rfl,reacts,_⟩
  · exact unresumed _ inside payload rfl
  · exact unresumed _ (List.mem_of_getElem? found) payload rfl
  · obtain ⟨_,_,_,_,asked⟩ := react_queue reacts
    cases asked _ rfl
    simpa [repeats] using allowed.2

end unresumed

/-- What holds of a workflow none of whose messages is repeated. -/
structure Isolated {definitions : Definitions} (S : Controlled definitions) (workflow : WorkflowId) : Prop where
  regular : Regular S
  unresumed : Unresumed S workflow
  alone : ∀ g, Flat definitions S.shared workflow g → Alone S workflow

section isolated
variable {definitions : Definitions} {before after : Controlled definitions} {label : Action} {workflow : WorkflowId}

theorem isolated_step (isolated : Isolated before workflow) (allowed : unrepeated workflow before.view label)
    (step : Step machine Origin.control before label after) : Isolated after workflow :=
  ⟨regular_step isolated.regular allowed.1 step,unresumed_step isolated.unresumed allowed step,
    fun _ flat => alone_step isolated.regular (fun ⟨g,here⟩ => isolated.alone g here) step flat⟩

theorem unused_isolated (templates : List WorkflowTemplate) (workflow : WorkflowId) :
    Isolated (unused definitions templates) workflow := by
  refine ⟨unused_regular templates,fun _ member => absurd member List.not_mem_nil,fun _ _ => ?_⟩
  refine unknown_alone (unused_sound templates) ?_
  simp [unused,installed,Db.workflowKey]

/-- An execution without repetitions, seen at its control points. -/
theorem execution_isolated {allowed : Allowed} {templates : List WorkflowTemplate}
    {events : List (Origin × Operation)} {last : Installation}
    (within : ∀ view label, allowed view label → unrepeated workflow view label)
    (P : Controlled definitions → Prop) (initial : P (unused definitions templates))
    (step : ∀ before label after, Isolated before workflow → P before → allowed before.view label →
      Step machine Origin.control before label after → P after)
    (run : Execution definitions allowed (installed templates) events last) :
    ∃ reached : Controlled definitions, Alike last reached ∧ Isolated reached workflow ∧ P reached := by
  obtain ⟨reached,follows,alike⟩ := execution_follow run
  refine ⟨reached,alike,follows.invariant (fun S => Isolated S workflow ∧ P S) ?_ ⟨unused_isolated templates workflow,initial⟩⟩
  rintro before label after ⟨isolated,holds⟩ meets taken
  exact ⟨isolated_step isolated (within _ _ meets) taken,step before label after isolated holds meets taken⟩

end isolated

end FinmarsWorkflow
