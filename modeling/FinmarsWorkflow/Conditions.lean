import FinmarsWorkflow.Dispatch
import FinmarsWorkflow.Nesting
import FinmarsWorkflow.Outputs

/-! Where a condition leads to.
The router follows the first connection of the output that the result names, and the
readiness check only asks for a success of each input. A target that the condition does
not take therefore runs when another finished node leads to it. -/
namespace FinmarsWorkflow
open Interleave

/-- The task of a condition node is a success with this value of its result. -/
structure Decided (db : Db) (workflow : WorkflowId) (g : Graph) (node : NodeId) (value : Json) : Prop where
  condition : ∃ known, g.node? node = some known ∧ known.isCondition = true
  stored : ∃ (id : TaskId) (task : Task) (fields : List (String × Json)), db.tasks[id]? = some task ∧
    task.workflow = workflow ∧ task.nodeId = some node ∧ task.status = .success ∧ task.result = some (.obj fields) ∧
    fields.lookup "result" = some value

/-- All targets of the output that a condition takes are sent for, and what is only a target of
other outputs gets no task. -/
def RoutesAll (events : List (Origin × Operation)) (db : Db) (workflow : WorkflowId) (g : Graph) : Prop :=
  ∀ node value, Decided db workflow g node value →
    (∀ connection ∈ g.connections, connection.source = node → connection.sourceOutput = takenOutput value →
      Sent workflow connection.target events) ∧
    ∀ target, (∃ connection ∈ g.connections, connection.source = node ∧ connection.target = target) →
      (∀ connection ∈ g.connections, connection.source = node → connection.target = target →
        connection.sourceOutput ≠ takenOutput value) →
      ∀ (id : TaskId) (task : Task), db.tasks[id]? = some task → task.workflow = workflow → task.nodeId ≠ some target

section decided
variable {db : Db} {workflow : WorkflowId} {g : Graph} {node target : NodeId} {value : Json}

theorem Decided.selects (decided : Decided db workflow g node value) (taken : g.taken node value = some target)
    (named : target ≠ "") : ∃ (id : TaskId) (task : Task) (retval : Json), db.tasks[id]? = some task ∧ task.workflow = workflow ∧
      task.nodeId = some node ∧ task.Succeeds retval ∧ g.Selects node retval target := by
  obtain ⟨known,found,condition⟩ := decided.condition
  obtain ⟨id,task,fields,stored,owner,own,success,result,has⟩ := decided.stored
  refine ⟨id,task,.obj fields,stored,owner,own,⟨success,?_⟩,known,found,?_⟩
  · have truthy : (Json.obj fields).truthy = true := by
      cases fields with
      | nil => cases has
      | cons => rfl
    rw [if_pos truthy]
    exact result
  · rw [if_pos condition]
    exact ⟨fields,value,rfl,has,named,taken⟩

end decided

/-- In every run without a lost worker, and with updates of the template's data only before the
opening: when no worker is at work, the first target of the output that a decided condition takes
has been sent for, with the graph of the workflow. And every node that was sent for or has a
task is a start node, or selected by the result of a node that finished. -/
theorem conditions_route (definitions : Definitions) (templates : List WorkflowTemplate) (workflow : WorkflowId)
    (events : List (Origin × Operation)) (last : Installation)
    (run : Execution definitions (steady workflow) (installed templates) events last) (g : Graph)
    (graph : last.shared.graph workflow = some g) (sources : ∀ connection ∈ g.connections, connection.source ∈ g.ids) :
    ((∀ thread ∈ last.view.threads, thread.2 = none) → ∀ node value target, Decided last.shared workflow g node value →
      g.taken node value = some target → target ≠ "" → (g.node? target).isSome →
      ∃ origin, (origin,.send (.processNextNode ⟨target,workflow,g⟩)) ∈ events) ∧
    ∀ target, (Sent workflow target events ∨ ∃ (id : TaskId) (task : Task), last.shared.tasks[id]? = some task ∧
        task.workflow = workflow ∧ task.nodeId = some target) →
      target ∈ g.startNodes ∨ ∃ source retval, Finished events workflow source retval ∧ g.Selects source retval target := by
  obtain ⟨reached,follows,alike⟩ := execution_follow run
  have dispatching := dispatching_run follows
  have rows := dispatching.steering.rows
  rw [alike.shared] at graph ⊢
  have leads {target : NodeId} (reaches : Reached events reached.shared workflow target) :
      target ∈ g.startNodes ∨ ∃ source retval, Finished events workflow source retval ∧ g.Selects source retval target := by
    obtain ⟨_,other,found,leads⟩ := reaches
    cases Option.some.inj (graph.symm.trans found)
    rcases leads with start | ⟨source,retval,nodeIds,finished,selected,member⟩
    · exact .inl start
    · exact .inr ⟨source,retval,finished,successors_selects selected member⟩
  refine ⟨fun idle node value target decided taken named known => ?_,fun target there => leads ?_⟩
  · obtain ⟨id,task,retval,stored,owner,own,succeeds,selects⟩ := decided.selects taken named
    have free : ∀ thread ∈ reached.threads, Control.operation thread.2 = none := by
      intro thread member
      exact idle (thread.1,Control.operation thread.2) (alike.view ▸ List.mem_map.mpr ⟨thread,member,rfl⟩)
    have followed := dispatching.rows g graph (sources_adjacency sources) id task stored owner
    obtain ⟨origin,⟨_,_,carried⟩,sent,rfl,rfl⟩ := followed_sent free followed own succeeds selects known
    obtain ⟨same,_⟩ := rows.sent origin _ sent rfl
    cases Option.some.inj (graph.symm.trans same)
    exact ⟨origin,sent⟩
  · rcases there with ⟨origin,job,sent,owner,rfl⟩ | ⟨id,task,stored,owner,named⟩
    · exact (rows.sent origin _ sent owner).2
    · obtain ⟨_,node,_,_,own,_,_,reaches⟩ := rows.tasks id task.key (taskKey_of_stored stored) owner
      cases Option.some.inj (named.symm.trans own)
      exact reaches

/-- A condition with two targets of one output and one target of the other, which has another predecessor. -/
def branching : Graph where
  nodes := [codeNode "a",⟨"c",.condition "code",["in"]⟩,codeNode "first",codeNode "second",codeNode "other"]
  connections := [⟨"c","first","out_true","in"⟩,⟨"c","second","out_true","in"⟩,⟨"c","other","out_false","in"⟩,
    codeConnection "a" "other"]

def decides (value : Bool) : Json := .obj [("result",.bool value)]

/-- The code of the condition answers yes, and all that is sent for is processed. -/
def branched : Schedule :=
  opened ++ processed 1 (decides true) ++ processed 0 .null ++ processed 0 .null ++ processed 0 .null

/-- The installation is at rest, the condition is decided, and the other target has a task. -/
def restsBranched (S : Installation) : Bool :=
  S.threads.isEmpty && S.shared.queue.isEmpty && S.shared.graph 0 == some branching &&
    (S.shared.tasks[0]?).any (fun task => task.workflow == 0 && task.nodeId == some "c" && task.status == .success &&
      match task.result with
        | some (.obj [("result",.bool true)]) => true
        | _ => false) &&
    (S.shared.tasks[3]?).any (fun task => task.workflow == 0 && task.nodeId == some "other") &&
    S.shared.tasks.all (fun task => task.nodeId != some "second")

theorem restsBranched_decided {S : Installation} (rests : restsBranched S = true) :
    S.threads = [] ∧ S.shared.queue = [] ∧ S.shared.graph 0 = some branching ∧
      Decided S.shared 0 branching "c" (.bool true) ∧
      (∃ task, S.shared.tasks[3]? = some task ∧ task.workflow = 0 ∧ task.nodeId = some "other") ∧
      ∀ task ∈ S.shared.tasks, task.nodeId ≠ some "second" := by
  simp only [restsBranched,Bool.and_eq_true,List.isEmpty_iff,beq_iff_eq,Option.any_eq_true,List.all_eq_true,bne_iff_ne] at rests
  obtain ⟨⟨⟨⟨⟨threads,queue⟩,graph⟩,task,stored,⟨⟨owner,node⟩,success⟩,result⟩,later,there,home⟩,none⟩ := rests
  refine ⟨threads,queue,graph,⟨⟨_,rfl,rfl⟩,0,task,[("result",.bool true)],stored,owner,node,success,?_,rfl⟩,⟨later,there,home⟩,none⟩
  split at result
  next same => exact same
  next => cases result

/-- The condition is followed to its first target, and the other target runs for its other predecessor. -/
theorem conditions_route_branching : ∃ events last,
    Execution versionOne (steady 0) (installed [⟨"t",0,branching⟩]) events last ∧
    (∃ origin, (origin,.send (.processNextNode ⟨"first",0,branching⟩)) ∈ events) ∧
    ∃ source retval, Finished events 0 source retval ∧ branching.Selects source retval "other" := by
  obtain ⟨events,last,run,found⟩ := schedule_execution versionOne (steady 0) [⟨"t",0,branching⟩] branched restsBranched (by decide)
  obtain ⟨threads,_,graph,decided,⟨task,stored,home⟩,_⟩ := restsBranched_decided found
  obtain ⟨sends,reasons⟩ := conditions_route versionOne [⟨"t",0,branching⟩] 0 events last run branching graph (by decide)
  have idle : ∀ thread ∈ last.view.threads, thread.2 = none := by
    simp [System.view,threads]
  refine ⟨events,last,run,sends idle "c" (.bool true) "first" decided (by decide) (by decide) (by decide),?_⟩
  rcases reasons "other" (.inr ⟨3,task,stored,home⟩) with start | selected
  · exact absurd start (by decide)
  · exact selected

/-- Nothing fails and everything is delivered once: one of two targets of the output that was taken
has no task when all is at rest, and the target of the output that was not taken has one. -/
theorem untaken_target_runs : ∃ events last,
    Execution versionOne (fun view label => undisturbed 0 view label ∧ faultless 0 view label)
      (installed [⟨"t",0,branching⟩]) events last ∧
    last.threads = [] ∧ last.shared.queue = [] ∧ last.shared.graph 0 = some branching ∧
    (∀ task ∈ last.shared.tasks, task.nodeId ≠ some "second") ∧ ¬RoutesAll events last.shared 0 branching := by
  obtain ⟨events,last,run,found⟩ := schedule_execution versionOne
    (fun view label => undisturbed 0 view label ∧ faultless 0 view label) [⟨"t",0,branching⟩] branched restsBranched (by decide)
  obtain ⟨threads,queue,graph,decided,⟨task,stored,owner,node⟩,unsent⟩ := restsBranched_decided found
  refine ⟨events,last,run,threads,queue,graph,unsent,fun routes => ?_⟩
  obtain ⟨_,untaken⟩ := routes "c" (.bool true) decided
  exact untaken "other" (by decide) (by decide) 3 task stored owner node

end FinmarsWorkflow
