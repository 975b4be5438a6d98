import FinmarsWorkflow.Interleave.Network
import FinmarsWorkflow.Outputs
import FinmarsWorkflow.Pausing

/-! What a workflow computes, whichever workers run it and in whatever order.
A graph is a network: the value of a node is what its task stores, and it comes from
the nodes that feed its two inputs and from the payload of the workflow. -/
namespace FinmarsWorkflow
open Interleave

/-- What the code of a node returns when it is called. -/
abbrev Behaviour := Node → Kwargs → Json

/-- The inputs of a node that its worker looks at. -/
inductive Input where
  | previous | payload
deriving DecidableEq

def Input.name : Input → String
  | .previous => "in"
  | .payload => "payload_input"

/-- The network of a graph: an input without a connection is not given, and a payload
that is not given is the one of the workflow. -/
def Graph.network (g : Graph) (payload : Json) (code : Behaviour) : Network NodeId Input Json where
  feeds id input := (g.node? id).bind (fun node => feedingNode g node input.name)
  compute id given := match g.node? id with
    | some node => storedResult (code node ⟨(given .payload).getD payload,given .previous⟩)
    | none => noResults

/-- What the code that a step runs has to return, if it is one of the workflow. -/
def owedValue (workflow : WorkflowId) (code : Behaviour) (view : Seen) (index : Nat) : Option Json :=
  ((view.threads[index]?).bind codeCall).bind fun (job,kwargs) =>
    if job.workflow = workflow then (job.graph.node? job.currentNodeId).map (fun node => code node kwargs) else none

/-- The code of the workflow's nodes returns, and what it returns depends on its arguments only. -/
def answers (workflow : WorkflowId) (code : Behaviour) : Allowed := fun view label => match label with
  | .advance index answer => ∀ value, owedValue workflow code view index = some value → answer.outcome = .ok value
  | _ => True

/-- Nobody edits templates or the payload of the workflow, none of its tasks fails, and the
code of its nodes behaves. Its messages may be repeated or lost, and it may be paused and resumed. -/
def computing (workflow : WorkflowId) (code : Behaviour) : Allowed := fun view label =>
  fixedTemplates view label ∧ faultless workflow view label ∧ samePayload workflow view label ∧
    answers workflow code view label

/-- No node of the workflow has two tasks. -/
def OneTask (db : Db) (workflow : WorkflowId) : Prop :=
  ∀ id key node, db.taskKey id = some key → key.workflow = workflow → key.nodeId = some node → Only db workflow node id

theorem OneTask.earlier {db later : Db} {workflow : WorkflowId} (single : OneTask later workflow) (grows : Grows db later) :
    OneTask db workflow :=
  fun id key node stored owner own => (single id key node (grows.task id key stored) owner own).earlier grows

theorem oneTask_of_nodup {db : Db} {workflow : WorkflowId} (distinct : (db.tasks.map Task.nodeId).Nodup) :
    OneTask db workflow := by
  intro id key node stored owner own other another there same too
  have placed {id : TaskId} {key : TaskKey} (stored : db.taskKey id = some key) :
      (db.tasks.map Task.nodeId)[id]? = some key.nodeId := by
    obtain ⟨task,found,rfl⟩ := Option.map_eq_some_iff.mp stored
    rw [List.getElem?_map,found]
    rfl
  obtain ⟨inside,here⟩ := List.getElem?_eq_some_iff.mp (placed stored)
  obtain ⟨within,this⟩ := List.getElem?_eq_some_iff.mp (placed there)
  exact (distinct.getElem_inj_iff).mp (this.trans (too.trans (own.symm.trans here.symm)))

/-- Nobody has read of the task, and who carries it has yet to run the code of its node,
or gives the task up. -/
structure Uncalled {definitions : Definitions} (S : Controlled definitions) (workflow : WorkflowId) (node : NodeId)
    (id : TaskId) (key : TaskKey) : Prop where
  unread : Unread S workflow node id
  carriers : ∀ thread ∈ S.threads, Control.celery? thread.2 = some key.celeryTaskId →
    Control.Unreturned key.celeryTaskId thread.2 ∨ ∃ error, thread.2 = .failRead key.celeryTaskId error

/-- The task waits for its code, or else the code has returned what the network computes. -/
def Fate {definitions : Definitions} (net : Network NodeId Input Json) (S : Controlled definitions) (workflow : WorkflowId)
    (node : NodeId) (id : TaskId) (key : TaskKey) : Prop :=
  Uncalled S workflow node id key ∨ ∃ value,
    (Pending S workflow node id value key ∨ Stored S workflow node id value key) ∧ net.Computes node (storedResult value)

section step
variable {definitions : Definitions} {before after : Controlled definitions} {label : Action} {workflow : WorkflowId}
  {node : NodeId} {id : TaskId} {key : TaskKey} {origin : Origin} {control : Control} {operation : Operation}
  {answer : Outside}

/-- Until its code is called a step goes on, delegates or fails. -/
theorem unreturned_goes {db : Db} {celery : CeleryId} (unreturned : control.Unreturned celery)
    (calls : ∀ own task kwargs, control ≠ .runCode celery own task kwargs)
    (creates : ∀ own task child, control ≠ .childCreate celery own task child) :
    (control.next definitions db answer).Unreturned celery ∨
      ∃ error, control.next definitions db answer = .failRead celery error := by
  cases control with
  | runCode own id task kwargs =>
    cases (show own = celery from unreturned)
    exact absurd rfl (calls id task kwargs)
  | childCreate own id task child =>
    cases (show own = celery from unreturned)
    exact absurd rfl (creates id task child)
  | startRead | startSave | stepRead | templateRead =>
    cases unreturned
    simp only [Control.next]
    repeat' split
    all_goals first | exact .inl rfl | exact .inr ⟨_,rfl⟩
  | _ => cases unreturned

/-- A task that waits for its code goes on waiting, unless the step is the call. -/
theorem uncalled_advance (carried : Carried before) (alone : Alone before workflow) (only : Only before.shared workflow node id)
    (stored : before.shared.taskKey id = some key) (owner : key.workflow = workflow) (own : key.nodeId = some node)
    (uncalled : Uncalled before workflow node id key) {index : Nat} (found : before.threads[index]? = some (origin,control))
    (busy : control.operation = some operation) (passes : operation.stops workflow = false)
    (calls : ∀ own task kwargs, control ≠ .runCode key.celeryTaskId own task kwargs) :
    Uncalled (advanced before index answer origin control operation) workflow node id key := by
  have present := List.mem_of_getElem? found
  have creates (other : TaskId) (task : Task) (child : Workflow) : control ≠ .childCreate key.celeryTaskId other task child := by
    rintro rfl
    have linked := (carried.sound.threads _ present).2
    have same := carried_id carried.sound stored linked.1.stored linked.1.own
    subst other
    have keyed : key = task.key := Option.some.inj (stored.symm.trans linked.1.stored)
    subst key
    exact alone.threads _ present owner
  refine ⟨?_,fun thread member carries => ?_⟩
  · refine unread_step carried only stored owner own uncalled.unread found busy passes creates (fun row carries saves => ?_)
    subst saves
    rcases uncalled.carriers _ present carries with unreturned | ⟨error,rfl⟩
    · rw [unreturned_save unreturned (carried.held _ present) busy]
      exact TaskStatus.noConfusion
    · cases busy
  · rcases List.mem_or_eq_of_mem_set member with old | rfl
    · exact uncalled.carriers thread old carries
    · rcases celery_next carries with was | ⟨_,fresh⟩
      · rcases uncalled.carriers _ present was with unreturned | ⟨error,rfl⟩
        · exact unreturned_goes unreturned calls creates
        · simp only [Control.next] at carries
          split at carries
          · revert carries
            refine Control.failing_elim (P := fun point => point.celery? = _ → _) (fun none => ?_) (fun _ _ none => ?_) <;>
              cases none
          · cases carries
      · exact absurd fresh (Nat.ne_of_lt (carried.sound.shared.fresh id key stored))

theorem uncalled_resting (uncalled : Uncalled before workflow node id key) (step : Step machine Origin.control before label after)
    (rests : ∀ index answer, label ≠ .advance index answer) : Uncalled after workflow node id key := by
  obtain ⟨workflows,tasks,threads⟩ := resting_step step rests
  refine ⟨uncalled.unread.fewer workflows tasks threads,fun thread member carries => ?_⟩
  rcases threads thread member with old | fresh
  · exact uncalled.carriers thread old carries
  · rw [fresh,origin_celery] at carries
    cases carries

/-- A task that was just created waits for its code. -/
theorem created_uncalled (carried : Carried before) (allowed : faultless workflow before.view label)
    (step : Step machine Origin.control before label after) (early : Early before workflow node id)
    (only : Only after.shared workflow node id) (absent : before.shared.taskKey id ≠ some key)
    (stored : after.shared.taskKey id = some key) (owner : key.workflow = workflow) (own : key.nodeId = some node) :
    Uncalled after workflow node id key := by
  have late := early_step carried allowed step only early
  by_cases moves : ∃ index answer, label = .advance index answer
  · obtain ⟨index,answer,rfl⟩ := moves
    cases step with
    | advance index answer origin control operation found busy =>
      have present := List.mem_of_getElem? found
      have linked := (carried.sound.threads _ present).2
      have creates : ∃ row, operation = .createTask row := by
        by_contra none
        exact absent ((taskKey_effect (linked_keyed linked busy) (fun row made => none ⟨row,made⟩) id).symm.trans stored)
      obtain ⟨row,rfl⟩ := creates
      have fresh : key.celeryTaskId = before.shared.uuid := by
        change (Operation.effect _ _).taskKey id = _ at stored
        rw [createTask_taskKey] at stored
        split at stored
        next => exact (congrArg TaskKey.celeryTaskId (Option.some.inj stored)).symm
        next => exact absurd stored absent
      obtain ⟨job,held,target,payload,output,rfl,_⟩ := createTask_inv busy
      have worker := List.mem_set (List.getElem?_eq_some_iff.mp found).1
        (origin,Control.startRead before.shared.uuid ⟨payload,output⟩)
      refine ⟨late.unread key stored owner own _ worker fresh.symm,fun thread member carries => ?_⟩
      rcases List.mem_or_eq_of_mem_set member with old | rfl
      · rw [fresh] at carries
        exact absurd (carried_below carried.sound.shared (carried.sound.threads _ old).2 carries) (Nat.lt_irrefl _)
      · exact .inl fresh.symm
  · obtain ⟨_,tasks,_⟩ := resting_step step (fun index answer same => moves ⟨index,answer,same⟩)
    rw [Db.taskKey,tasks] at stored
    exact absurd stored absent

end step

/-- The invariants of a workflow that computes. -/
structure Determined {definitions : Definitions} (S : Controlled definitions) (workflow : WorkflowId) (code : Behaviour) : Prop where
  regular : Regular S
  carried : Carried S
  unfed : Unfed S workflow
  paid : Paid S workflow
  defaults : Defaults S workflow
  alone : ∀ g, Flat definitions S.shared workflow g → Alone S workflow
  early : ∀ node id, Only S.shared workflow node id → Early S workflow node id
  fate : ∀ g payload, Flat definitions S.shared workflow g → S.shared.payload workflow = some payload →
    OneTask S.shared workflow → ∀ id key node, S.shared.taskKey id = some key → key.workflow = workflow →
      key.nodeId = some node → Fate (g.network payload code) S workflow node id key

section determined
variable {definitions : Definitions} {before after : Controlled definitions} {label : Action} {workflow : WorkflowId}
  {code : Behaviour} {node : NodeId} {id : TaskId} {key : TaskKey} {g : Graph} {payload : Json}

/-- A node of which a worker is past the check has its value stored, and the worker carries it. -/
theorem determined_fed (determined : Determined before workflow code) (flat : Flat definitions before.shared workflow g)
    (paid : before.shared.payload workflow = some payload) (single : OneTask before.shared workflow)
    {thread : Origin × Control} (member : thread ∈ before.threads) (fed : Fed workflow node thread.1 thread.2) :
    ∃ value, (g.network payload code).Computes node value ∧ Control.Delivered workflow node value thread.1 thread.2 := by
  have known : ∃ other key, before.shared.taskKey other = some key ∧ key.workflow = workflow ∧ key.nodeId = some node := by
    by_contra none
    have only : Only before.shared workflow node 0 := fun other key stored owner own =>
      absurd ⟨other,key,stored,owner,own⟩ none
    exact none ((determined.early node 0 only).known thread member fed)
  obtain ⟨other,key,stored,owner,own⟩ := known
  rcases determined.fate g payload flat paid single other key node stored owner own with uncalled | ⟨value,holds,computes⟩
  · exact absurd fed (uncalled.unread.waiting thread member)
  · rcases holds with pending | kept
    · exact absurd fed (pending.unread.waiting thread member)
    · exact ⟨storedResult value,computes,kept.delivered thread member⟩

/-- The code of a node is called with what the network computes for its inputs, and so
returns what the network computes for the node. -/
theorem returned_computes (determined : Determined before workflow code) (flat : Flat definitions before.shared workflow g)
    (paid : before.shared.payload workflow = some payload) (single : OneTask before.shared workflow) {job : Job} {target : Node}
    {celery : CeleryId} {task : Task} {kwargs : Kwargs}
    (member : (.message (.processNextNode job),.runCode celery id task kwargs) ∈ before.threads) (owner : job.workflow = workflow)
    (known : job.graph.node? job.currentNodeId = some target) :
    (g.network payload code).Computes job.currentNodeId (storedResult (code target kwargs)) := by
  have carries := (determined.regular.graphed.threads _ member).1 _ rfl job rfl
  rw [owner] at carries
  have graph : g = job.graph := Option.some.inj (flat.graph.symm.trans carries)
  subst graph
  have feeds (input : Input) : (job.graph.network payload code).feeds job.currentNodeId input =
      feedingNode job.graph target input.name := by
    simp only [Graph.network,known,Option.bind_some]
  have delivered (input : Input) {source : NodeId} (fed : feedingNode job.graph target input.name = some source) :
      ∃ value, (job.graph.network payload code).Computes source value ∧ Control.Delivered workflow source value
        (.message (.processNextNode job)) (.runCode celery id task kwargs) :=
    determined_fed determined flat paid single member ⟨job,rfl,owner,node?_id known ▸ feedingNode_input fed,trivial⟩
  have given := @Network.Computes.of_inputs _ _ _ (job.graph.network payload code) job.currentNodeId
    (fun | .previous => kwargs.previousOutput
         | .payload => (feedingNode job.graph target "payload_input").map (fun _ => kwargs.payload))
    (fun input source fed => ?_) (fun input none => ?_)
  · have load : ((feedingNode job.graph target "payload_input").map (fun _ => kwargs.payload)).getD payload = kwargs.payload := by
      cases fed : feedingNode job.graph target "payload_input" with
      | some source => rfl
      | none =>
        have default := (determined.defaults _ member job target rfl known).2 owner fed
        exact Option.some.inj (paid.symm.trans default)
    simpa only [Graph.network,known,load] using given
  · rw [feeds] at fed
    obtain ⟨value,computes,arrives⟩ := delivered input fed
    obtain ⟨output,load⟩ := arrives job target rfl known
    refine ⟨value,?_,computes⟩
    cases input with
    | previous => exact output owner fed
    | payload =>
      change feedingNode job.graph target "payload_input" = some source at fed
      simp only [fed,Option.map_some,load owner fed]
  · rw [feeds] at none
    cases input with
    | previous => exact (determined.unfed.output _ member job target rfl known).1 none
    | payload =>
      change feedingNode job.graph target "payload_input" = Option.none at none
      simp only [none,Option.map_none]

/-- One step on a task that is there already. -/
theorem fate_step (determined : Determined before workflow code) (allowed : computing workflow code before.view label)
    (step : Step machine Origin.control before label after) (flat : Flat definitions before.shared workflow g)
    (paid : before.shared.payload workflow = some payload) (single : OneTask before.shared workflow)
    (stored : before.shared.taskKey id = some key) (owner : key.workflow = workflow) (own : key.nodeId = some node) :
    Fate (g.network payload code) after workflow node id key := by
  obtain ⟨_,passing,_,behaves⟩ := allowed
  have only := single id key node stored owner own
  rcases determined.fate g payload flat paid single id key node stored owner own with uncalled | ⟨value,holds,computes⟩
  · by_cases moves : ∃ index answer, label = .advance index answer
    · obtain ⟨index,answer,rfl⟩ := moves
      cases step with
      | advance index answer origin control operation found busy =>
        have present := List.mem_of_getElem? found
        by_cases calls : ∃ other task kwargs, control = .runCode key.celeryTaskId other task kwargs
        · obtain ⟨other,task,kwargs,rfl⟩ := calls
          have linked := (determined.carried.sound.threads _ present).2
          have same := carried_id determined.carried.sound stored linked.stored linked.own
          subst other
          have keyed : key = task.key := Option.some.inj (stored.symm.trans linked.stored)
          subst key
          obtain ⟨job,rfl,home,named⟩ := owner_scope determined.carried.sound.shared linked.owns linked.stored linked.own
          have under : job.workflow = workflow := home.symm.trans owner
          have here : node = job.currentNodeId := Option.some.inj (own.symm.trans named)
          subst node
          obtain ⟨made,target,_,graph,known,place,_⟩ := determined.regular.built id task.key stored
          have carries := (determined.regular.graphed.threads _ present).1 _ rfl job rfl
          have equal : made = job.graph := by
            rw [show task.key.workflow = job.workflow from home] at graph
            exact Option.some.inj (graph.symm.trans carries)
          subst equal
          have place : target.id = job.currentNodeId := Option.some.inj (place.symm.trans own)
          rw [place] at known
          have owed : owedValue workflow code before.view index = some (code target kwargs) := by
            have seen := System.view_found found
            simp only [owedValue,seen]
            simp [codeCall,Control.operation,under,known]
          cases busy
          refine .inr ⟨code target kwargs,.inl ?_,returned_computes determined flat paid single present under known⟩
          exact returned_pending determined.carried only stored owner own (determined.early _ id only) (behaves _ owed) found rfl
        · refine .inl (uncalled_advance determined.carried (determined.alone g flat) only stored owner own uncalled found busy
            (faultless_advance passing found busy) (fun other task kwargs same => calls ⟨other,task,kwargs,same⟩))
    · exact .inl (uncalled_resting uncalled step (fun index answer same => moves ⟨index,answer,same⟩))
  · exact .inr ⟨value,value_step determined.carried determined.unfed.sourced passing step only stored owner own holds,computes⟩

theorem determined_step (determined : Determined before workflow code) (allowed : computing workflow code before.view label)
    (step : Step machine Origin.control before label after) : Determined after workflow code := by
  have ⟨fixed,passing,same,_⟩ := allowed
  have carried := determined.carried
  have regular := regular_step determined.regular fixed step
  have grows := (sound_step carried.sound step).2
  have templates := templates_step determined.regular step
  obtain ⟨paid,keeps⟩ := paid_step carried.sound determined.paid same step
  refine ⟨regular,carried_step carried step,unfed_step carried.sound determined.unfed step,paid,
    defaults_step carried.sound determined.unfed determined.paid same determined.defaults step,
    fun _ flat => alone_step determined.regular (fun ⟨g,here⟩ => determined.alone g here) step flat,
    fun node id only => early_step carried passing step only (determined.early node id (only.earlier grows)),
    fun g payload flat pays single id key node stored owner own => ?_⟩
  by_cases there : before.shared.taskKey id = some key
  · -- the workflow of a task is there, with the graph and the payload that it has after the step
    obtain ⟨made,known⟩ := Option.isSome_iff_exists.mp (carried.sound.shared.workflow id key there)
    rw [owner] at known
    obtain ⟨row,found,_⟩ := Option.map_eq_some_iff.mp known
    have was : before.shared.payload workflow = some row.payload := by rw [Db.payload,found]; rfl
    have equal : row.payload = payload := Option.some.inj ((keeps _ was).symm.trans pays)
    exact fate_step determined allowed step (flat.earlier grows templates known) (equal ▸ was) (single.earlier grows)
      there owner own
  · have only := single id key node stored owner own
    exact .inl (created_uncalled carried passing step (determined.early node id (only.earlier grows)) only there stored owner own)

theorem unused_determined (definitions : Definitions) (templates : List WorkflowTemplate) (workflow : WorkflowId)
    (code : Behaviour) : Determined (unused definitions templates) workflow code := by
  refine ⟨unused_regular templates,unused_carried definitions templates,unused_unfed definitions templates workflow,
    ⟨fun _ member => absurd member List.not_mem_nil,fun _ member => absurd member List.not_mem_nil⟩,
    fun _ member => absurd member List.not_mem_nil,fun _ _ => (unused_isolated templates workflow).alone _ ‹_›,
    fun _ _ _ => unused_early definitions templates,fun _ _ _ paid => ?_⟩
  simp [unused,installed,Db.payload] at paid

/-- A task that has succeeded has stored what the network computes. -/
theorem Fate.result {S : Controlled definitions} {net : Network NodeId Input Json} (fate : Fate net S workflow node id key)
    {task : Task} (stored : S.shared.tasks[id]? = some task) (success : task.status = .success) :
    ∃ value, task.result = some value ∧ net.Computes node value := by
  rcases fate with uncalled | ⟨value,pending | kept,computes⟩
  · exact absurd success (uncalled.unread.status task stored)
  · exact absurd success (pending.unread.status task stored)
  · exact ⟨storedResult value,kept.result task stored,computes⟩

end determined

/-- Whichever workers run a workflow in whatever order: a task that has succeeded stores what the
network of the graph computes for its node, as long as no node has two tasks. -/
theorem results_computed (definitions : Definitions) (templates : List WorkflowTemplate) (workflow : WorkflowId)
    (code : Behaviour) (events : List (Origin × Operation)) (last : Installation)
    (run : Execution definitions (computing workflow code) (installed templates) events last)
    (g : Graph) (flat : Flat definitions last.shared workflow g)
    (payload : Json) (paid : last.shared.payload workflow = some payload) (single : OneTask last.shared workflow) :
    ∀ (id : TaskId) task node, last.shared.tasks[id]? = some task → task.workflow = workflow → task.nodeId = some node →
      task.status = .success → ∃ value, task.result = some value ∧ (g.network payload code).Computes node value := by
  intro id task node stored owner own success
  obtain ⟨reached,follows,alike⟩ := execution_follow run
  have determined := follows.invariant (fun S => Determined S workflow code)
    (fun _ _ _ holds allowed step => determined_step holds allowed step) (unused_determined definitions templates workflow code)
  rw [alike.shared] at flat paid single stored
  exact (determined.fate g payload flat paid single id task.key node (taskKey_of_stored stored) owner own).result stored success

/-- Code that appends the id of its node to the text it is given. -/
def trail : Behaviour := fun node kwargs => match kwargs.previousOutput with
  | some (.str text) => .str (text ++ node.id)
  | _ => .str node.id

/-- Whether the code that a step runs returns the text that it has to. -/
def answersText (workflow : WorkflowId) (code : Behaviour) (view : Seen) : Action → Bool
  | .advance index answer => (owedValue workflow code view index).all fun
    | .str text => match answer.outcome with
      | .ok (.str given) => given == text
      | _ => false
    | _ => false
  | _ => true

theorem answersText_answers {workflow : WorkflowId} {code : Behaviour} {view : Seen} {label : Action}
    (texts : answersText workflow code view label = true) : answers workflow code view label := by
  cases label with
  | advance index answer =>
    intro value owed
    simp only [answersText,owed,Option.all_some] at texts
    split at texts
    · split at texts
      next given returned =>
        rw [returned,beq_iff_eq.mp texts]
      next => cases texts
    · cases texts
  | _ => trivial

/-- The second and the third node of a fork run side by side, and either is called with what the first returned. -/
theorem results_computed_fork : ∃ events last payload,
    Execution versionOne (computing 0 trail) (installed [⟨"t",0,fork⟩]) events last ∧ last.shared.payload 0 = some payload ∧
    last.shared.tasks.map (fun task => (task.nodeId,task.status)) =
      [(some "a",.success),(some "c",.success),(some "b",.success)] ∧
    ∀ (id : TaskId) task node, last.shared.tasks[id]? = some task → task.workflow = 0 → task.nodeId = some node →
      task.status = .success → ∃ value, task.result = some value ∧ (fork.network payload trail).Computes node value := by
  obtain ⟨events,last,run,found⟩ := schedule_execution versionOne
    (fun view label => (fixedTemplates view label ∧ faultless 0 view label ∧ samePayload 0 view label) ∧
      answersText 0 trail view label = true) [⟨"t",0,fork⟩]
    (opened ++ processed 0 (.str "a") ++ [.take (.move (.deliver 0)),.take (.move (.deliver 0)),.finish 1 (.returns (.str "ac")),
      .finish 0 (.returns (.str "ab"))])
    (fun last => decide (last.shared.graph 0 = some fork) && decide (last.shared.tasks.map (fun task =>
      (task.nodeId,task.status)) = [(some "a",.success),(some "c",.success),(some "b",.success)]) &&
      (last.shared.payload 0).isSome) (by decide)
  simp only [Bool.and_eq_true,decide_eq_true_eq] at found
  obtain ⟨⟨graph,ended⟩,paid⟩ := found
  have nodes : last.shared.tasks.map Task.nodeId = [some "a",some "c",some "b"] := by
    have pairs := congrArg (List.map Prod.fst) ended
    rw [List.map_map] at pairs
    exact pairs
  obtain ⟨payload,paid⟩ := Option.isSome_iff_exists.mp paid
  have run : Execution versionOne (computing 0 trail) (installed [⟨"t",0,fork⟩]) events last := run.mono
    (fun _ _ allowed => ⟨allowed.1.1,allowed.1.2.1,allowed.1.2.2,answersText_answers allowed.2⟩)
  exact ⟨events,last,payload,run,paid,ended,results_computed versionOne [⟨"t",0,fork⟩] 0 trail events last run fork
    (coded_flat graph (by decide)) payload paid (oneTask_of_nodup (by rw [nodes]; decide))⟩

/-- The results that are stored for a node. -/
def Db.results (db : Db) (workflow : WorkflowId) (node : NodeId) : List (Option Json) :=
  (db.tasks.filter (fun task => task.workflow == workflow && task.nodeId == some node)).map Task.result

/-- Nothing falters, the parked node and the payload are kept, and the code of the nodes behaves. -/
def behaved (workflow : WorkflowId) (code : Behaviour) : Allowed := fun view label =>
  orderly workflow view label ∧ samePayload workflow view label ∧ answers workflow code view label

/-- A run at whose end nothing of the workflow is left to do. -/
structure Concluded (definitions : Definitions) (templates : List WorkflowTemplate) (workflow : WorkflowId) (code : Behaviour)
    (g : Graph) (payload : Json) (events : List (Origin × Operation)) (last : Installation) : Prop where
  run : Execution definitions (behaved workflow code) (installed templates) events last
  flat : Flat definitions last.shared workflow g
  paid : last.shared.payload workflow = some payload
  opened : Begun last.shared workflow
  resumed : leftPaused workflow events = false
  rest : drained workflow last.view = true

theorem behaved_computing {workflow : WorkflowId} {code : Behaviour} {view : Seen} {label : Action}
    (allowed : behaved workflow code view label) : computing workflow code view label := by
  obtain ⟨⟨⟨fixed,sound⟩,_⟩,same,behaves⟩ := allowed
  refine ⟨fixed,?_,same,behaves⟩
  simp only [faultless,faults]
  split
  · split
    next operation found =>
      simp only [falters,found] at sound
      cases operation with
      | saveTask => exact sound
      | _ => rfl
    next => rfl
  · rfl

section concluded
variable {definitions : Definitions} {templates : List WorkflowTemplate} {workflow : WorkflowId} {code : Behaviour}
  {g : Graph} {payload : Json} {events : List (Origin × Operation)} {last : Installation}

theorem concluded_results (forest : g.Forest) (concluded : Concluded definitions templates workflow code g payload events last)
    {node : NodeId} (known : node ∈ g.ids) :
    ∃ value, (g.network payload code).Computes node value ∧ last.shared.results workflow node = [some value] := by
  obtain ⟨reached,follows,alike⟩ := execution_follow (concluded.run.mono (fun _ _ allowed => allowed.1))
  obtain ⟨tended,waiting,sheltered⟩ := sheltered_run follows
  have flat := concluded.flat
  have begun := concluded.opened
  have rest := concluded.rest
  rw [alike.view] at rest
  rw [alike.shared] at flat begun
  have sheltered := sheltered g forest (fun _ _ => flat)
  have single : OneTask reached.shared workflow := by
    intro id key node stored owner own other another there same too
    obtain ⟨task,found,rfl⟩ := Option.map_eq_some_iff.mp stored
    obtain ⟨row,place,rfl⟩ := Option.map_eq_some_iff.mp there
    exact ran_unique (sheltered.once node) found place owner own same too
  obtain ⟨id,key,there,owner,names⟩ := drained_hasTask tended sheltered forest flat rest begun waiting concluded.resumed known
  obtain ⟨task,stored,rfl⟩ := Option.map_eq_some_iff.mp there
  have success := drained_success tended sheltered rest stored owner
  rw [← alike.shared] at single stored
  obtain ⟨value,result,computes⟩ := results_computed definitions templates workflow code events last
    (concluded.run.mono (fun _ _ => behaved_computing)) g concluded.flat payload concluded.paid single id task node stored owner names
    success
  refine ⟨value,computes,?_⟩
  have one : ran reached.shared workflow node = 1 := Nat.le_antisymm (sheltered.once node) (ran_pos there owner names)
  rw [ran_count,List.countP_eq_length_filter,← alike.shared,List.length_eq_one_iff] at one
  obtain ⟨row,only⟩ := one
  have member : task ∈ last.shared.tasks.filter (fun task => task.workflow == workflow && task.nodeId == some node) := by
    refine List.mem_filter.mpr ⟨List.mem_of_getElem? stored,?_⟩
    rw [show task.workflow = workflow from owner,show task.nodeId = some node from names]
    simp only [beq_self_eq_true,Bool.and_self]
  rw [only] at member
  cases List.mem_singleton.mp member
  rw [Db.results,only,List.map_singleton,result]

end concluded

/-- However two workflows with the same forest, payload and code are scheduled, paused and resumed: when nothing is
left to do, each node of either has one result, and it is the same one. -/
theorem concluded_results_agree (g : Graph) (forest : g.Forest) (payload : Json) (code : Behaviour)
    (definitions others : Definitions) (templates further : List WorkflowTemplate) (workflow other : WorkflowId)
    (events story : List (Origin × Operation)) (last final : Installation)
    (first : Concluded definitions templates workflow code g payload events last)
    (second : Concluded others further other code g payload story final) :
    ∀ node ∈ g.ids, ∃ value, (g.network payload code).Computes node value ∧
      last.shared.results workflow node = [some value] ∧ final.shared.results other node = [some value] := by
  intro node known
  obtain ⟨value,computes,results⟩ := concluded_results forest first known
  obtain ⟨again,same,too⟩ := concluded_results forest second known
  cases computes.unique same
  exact ⟨value,computes,results,too⟩

/-- A run of two nodes from which nothing is left to do. -/
theorem schedule_concluded (schedule : Schedule)
    (computed : ((installed [⟨"t",0,twoNodes⟩]).record machine (Origin.program versionOne)
      (fun view label => (orderly 0 view label ∧ samePayload 0 view label) ∧ answersText 0 trail view label = true)
      schedule).any (fun outcome => resumedAndDrained twoNodes outcome &&
        (outcome.2.shared.payload 0).any (fun | .obj [] => true | _ => false)) = true) :
    ∃ events last, Concluded versionOne [⟨"t",0,twoNodes⟩] 0 trail twoNodes (.obj []) events last := by
  obtain ⟨events,last,run,found⟩ := schedule_recorded versionOne _ [⟨"t",0,twoNodes⟩] schedule _ computed
  obtain ⟨rests,payload⟩ := Bool.and_eq_true_iff.mp found
  obtain ⟨given,paid,empty⟩ := (Option.any_eq_true _ _).mp payload
  simp only [resumedAndDrained,Bool.and_eq_true,beq_iff_eq,Bool.not_eq_true'] at rests
  obtain ⟨⟨⟨graph,begun⟩,resumed⟩,drains⟩ := rests
  obtain ⟨row,stored,status⟩ := (Option.any_eq_true _ _).mp begun
  refine ⟨events,last,run.mono (fun _ _ allowed => ⟨allowed.1.1,allowed.1.2,answersText_answers allowed.2⟩),
    coded_flat graph (by decide),?_,⟨row,stored,by simpa using status⟩,resumed,drains⟩
  split at empty
  · exact paid
  · cases empty

/-- Two nodes in one go, and the same two with a pause between them. -/
theorem concluded_results_agree_paused : ∃ (last final : Installation) (value : Json),
    (twoNodes.network (.obj []) trail).Computes "b" value ∧ last.shared.results 0 "b" = [some value] ∧
    final.shared.results 0 "b" = [some value] := by
  obtain ⟨events,last,first⟩ := schedule_concluded (opened ++ processed 0 (.str "a") ++ processed 0 (.str "ab")) (by decide)
  obtain ⟨story,final,second⟩ := schedule_concluded (opened ++ processed 0 (.str "a") ++ served (.pause 0) ++
    processed 0 .null ++ served (.resume 0 none) ++ processed 0 (.str "ab")) (by decide)
  obtain ⟨value,agrees⟩ := concluded_results_agree twoNodes
    (forest_of_order (by decide) (by decide) (by decide) (by decide)) (.obj []) trail versionOne versionOne [⟨"t",0,twoNodes⟩]
    [⟨"t",0,twoNodes⟩] 0 0 events story last final first second "b" (by decide)
  exact ⟨last,final,value,agrees⟩

end FinmarsWorkflow
