import Mathlib.Logic.Relation
import FinmarsWorkflow.Control
import FinmarsWorkflow.Interleave.Threads

/-! The columns that no save changes, and what every operation keeps of them.
Rows are only added, and the stored row of an id keeps its key. The key of a
workflow says which workflow delegated to it; its ancestors never change. -/
namespace FinmarsWorkflow
open Interleave Relation

theorem getRow_ok {α : Type} {model : String} {matches? : α → Bool} {rows : List α} {id : Nat} {row : α}
    (found : getRow model matches? rows = .ok (id,row)) :
    rows[id]? = some row ∧ matches? row = true ∧
      ∀ other another, rows[other]? = some another → matches? another = true → other = id := by
  unfold getRow at found
  split at found
  next only equal =>
    cases found
    have member : (row,id) ∈ rows.zipIdx.filter (fun entry => matches? entry.1) := by simp [equal]
    have inside := List.mem_filter.mp member
    refine ⟨List.mk_mem_zipIdx_iff_getElem?.mp inside.1,inside.2,fun other another stored fits => ?_⟩
    have also_ : (another,other) ∈ rows.zipIdx.filter (fun entry => matches? entry.1) :=
      List.mem_filter.mpr ⟨List.mk_mem_zipIdx_iff_getElem?.mpr stored,fits⟩
    rw [equal,List.mem_singleton] at also_
    exact congrArg Prod.snd also_
  next => cases found
  next => cases found

namespace Db

def workflowKey (db : Db) (id : WorkflowId) : Option WorkflowKey := (db.workflows[id]?).map Workflow.key

def taskKey (db : Db) (id : TaskId) : Option TaskKey := (db.tasks[id]?).map Task.key

/-- The first workflow was created by a step of the second. -/
def Delegated (db : Db) (child parent : WorkflowId) : Prop :=
  ∃ key, db.workflowKey child = some key ∧ key.parent = some parent

/-- The second workflow is the first one or one of its ancestors. -/
def Above (db : Db) : WorkflowId → WorkflowId → Prop := ReflTransGen db.Delegated

/-- The template graph behind a workflow. -/
def graph (db : Db) (id : WorkflowId) : Option Graph :=
  (((db.workflowKey id).bind WorkflowKey.workflowTemplate).bind (db.templates[·]?)).map WorkflowTemplate.data

end Db

@[simp] theorem Task.succeeded_key (task : Task) (retval : Json) : (task.succeeded retval).key = task.key := rfl

@[simp] theorem Task.failed_key (task : Task) (error : Error) : (task.failed error).key = task.key := rfl

/-- Every row stays, with its key. -/
structure Grows (db later : Db) : Prop where
  workflow : ∀ id key, db.workflowKey id = some key → later.workflowKey id = some key
  task : ∀ id key, db.taskKey id = some key → later.taskKey id = some key

namespace Grows
variable {db later last : Db}

theorem refl (db : Db) : Grows db db := ⟨fun _ _ found => found,fun _ _ found => found⟩

theorem trans (first : Grows db later) (second : Grows later last) : Grows db last :=
  ⟨fun id key found => second.workflow id key (first.workflow id key found),
    fun id key found => second.task id key (first.task id key found)⟩

theorem delegated (grows : Grows db later) {child parent : WorkflowId} (delegated : db.Delegated child parent) :
    later.Delegated child parent := by
  obtain ⟨key,found,above⟩ := delegated
  exact ⟨key,grows.workflow child key found,above⟩

theorem above (grows : Grows db later) {child parent : WorkflowId} (above : db.Above child parent) :
    later.Above child parent :=
  ReflTransGen.mono (fun _ _ => grows.delegated) _ _ above

end Grows

section lookups
variable {db : Db}

theorem getWorkflow_ok {id : WorkflowId} {row : Workflow} (found : db.getWorkflow id = .ok row) :
    db.workflows[id]? = some row := by
  unfold Db.getWorkflow at found
  split at found
  next stored equal =>
    cases found
    exact equal
  next => cases found

theorem getWorkflow_key {id : WorkflowId} {row : Workflow} (found : db.getWorkflow id = .ok row) :
    db.workflowKey id = some row.key := by
  rw [Db.workflowKey,getWorkflow_ok found]
  rfl

theorem getTask_ok {id : TaskId} {row : Task} (found : db.getTask id = .ok row) : db.tasks[id]? = some row := by
  unfold Db.getTask at found
  split at found
  next stored equal =>
    cases found
    exact equal
  next => cases found

theorem getTask_key {id : TaskId} {row : Task} (found : db.getTask id = .ok row) :
    db.taskKey id = some row.key := by
  unfold Db.getTask at found
  split at found
  next stored equal =>
    cases found
    rw [Db.taskKey,equal]
    rfl
  next => cases found

theorem taskKey_of_stored {id : TaskId} {row : Task} (stored : db.tasks[id]? = some row) :
    db.taskKey id = some row.key := by
  rw [Db.taskKey,stored]
  rfl

theorem taskByCeleryId_key {celery : CeleryId} {id : TaskId} {row : Task}
    (found : db.taskByCeleryId celery = .ok (id,row)) :
    db.taskKey id = some row.key ∧ row.celeryTaskId = celery := by
  obtain ⟨stored,fits,_⟩ := getRow_ok found
  exact ⟨taskKey_of_stored stored,by simpa using fits⟩

theorem parentTask_key {workflow : WorkflowId} {node : Option NodeId} {space : SpaceId} {id : TaskId} {row : Task}
    (found : db.parentTask workflow node space = .ok (id,row)) :
    db.taskKey id = some row.key ∧ row.workflow = workflow ∧ row.nodeId = node := by
  obtain ⟨stored,fits,_⟩ := getRow_ok found
  simp only [Bool.and_eq_true,beq_iff_eq] at fits
  exact ⟨taskKey_of_stored stored,fits.1.1,fits.1.2⟩

theorem tasksOf_key {workflow : WorkflowId} {id : TaskId} {row : Task} (member : (id,row) ∈ db.tasksOf workflow) :
    db.taskKey id = some row.key ∧ row.workflow = workflow := by
  simp only [Db.tasksOf,List.mem_map,List.mem_reverse,List.mem_filter,Prod.mk.injEq] at member
  obtain ⟨entry,⟨inside,fits⟩,rfl,rfl⟩ := member
  exact ⟨taskKey_of_stored (List.mem_zipIdx_iff_getElem?.mp inside),by simpa using fits⟩

theorem node?_id {g : Graph} {id : NodeId} {node : Node} (found : g.node? id = some node) : node.id = id := by
  have fits := List.find?_some found
  simpa using fits

theorem sources_adjacency {g : Graph} (sources : ∀ connection ∈ g.connections, connection.source ∈ g.ids) :
    g.adjacencyList = .ok g.adjacent := by
  have none : g.connections.find? (fun connection => !g.ids.contains connection.source) = none := by
    refine List.find?_eq_none.mpr (fun connection member => ?_)
    simpa using sources connection member
  simp only [Graph.adjacencyList,none]

end lookups

section effects
variable {db : Db}

theorem map_set_same {α β : Type} (f : α → β) (items : List α) (index : Nat) (item : α)
    (same : (items[index]?).map f = some (f item)) (other : Nat) :
    ((items.set index item)[other]?).map f = (items[other]?).map f := by
  by_cases equal : index = other
  · subst other
    have bound : index < items.length := by
      cases found : items[index]? with
      | none => simp [found] at same
      | some _ => exact (List.getElem?_eq_some_iff.mp found).1
    rw [List.getElem?_set_self bound,same]
    rfl
  · rw [List.getElem?_set_ne equal]

theorem saveWorkflow_workflowKey {id : WorkflowId} {row : Workflow} (same : db.workflowKey id = some row.key)
    (other : WorkflowId) : ((Operation.saveWorkflow id row).effect db).workflowKey other = db.workflowKey other :=
  map_set_same Workflow.key db.workflows id row same other

theorem saveTask_taskKey {id : TaskId} {row : Task} (same : db.taskKey id = some row.key) (other : TaskId) :
    ((Operation.saveTask id row).effect db).taskKey other = db.taskKey other :=
  map_set_same Task.key db.tasks id row same other

theorem createWorkflow_workflowKey (row : Workflow) (other : WorkflowId) :
    ((Operation.createWorkflow row).effect db).workflowKey other =
      if other = db.workflows.length then some row.key else db.workflowKey other := by
  unfold Db.workflowKey
  simp only [Operation.effect,List.getElem?_append]
  split
  next inside => rw [if_neg (Nat.ne_of_lt inside)]
  next outside =>
    split
    next equal =>
      subst other
      simp
    next differ =>
      have beyond := Nat.lt_of_le_of_ne (Nat.le_of_not_lt outside) (Ne.symm differ)
      rw [List.getElem?_eq_none (Nat.le_of_not_lt outside),List.getElem?_eq_none (Nat.sub_pos_of_lt beyond)]

theorem createTask_taskKey (db : Db) (row : Task) (other : TaskId) :
    ((Operation.createTask row).effect db).taskKey other =
      if other = db.tasks.length then some {row with celeryTaskId := db.uuid}.key else db.taskKey other := by
  unfold Db.taskKey
  simp only [Operation.effect,List.getElem?_append]
  split
  next inside => rw [if_neg (Nat.ne_of_lt inside)]
  next outside =>
    split
    next equal =>
      subst other
      simp
    next differ =>
      have beyond := Nat.lt_of_le_of_ne (Nat.le_of_not_lt outside) (Ne.symm differ)
      rw [List.getElem?_eq_none (Nat.le_of_not_lt outside),List.getElem?_eq_none (Nat.sub_pos_of_lt beyond)]

theorem workflowKey_lt {id : WorkflowId} {key : WorkflowKey} (found : db.workflowKey id = some key) :
    id < db.workflows.length := by
  rw [Db.workflowKey,Option.map_eq_some_iff] at found
  obtain ⟨row,stored,_⟩ := found
  exact (List.getElem?_eq_some_iff.mp stored).1

theorem taskKey_lt {id : TaskId} {key : TaskKey} (found : db.taskKey id = some key) : id < db.tasks.length := by
  rw [Db.taskKey,Option.map_eq_some_iff] at found
  obtain ⟨row,stored,_⟩ := found
  exact (List.getElem?_eq_some_iff.mp stored).1

end effects

/-- Whether an operation saves rows under the keys they have. -/
def Operation.Keyed (db : Db) : Operation → Prop
  | .saveWorkflow id row => db.workflowKey id = some row.key
  | .saveTask id row => db.taskKey id = some row.key
  | _ => True

theorem keyed_grows {db : Db} {operation : Operation} (keyed : operation.Keyed db) :
    Grows db (operation.effect db) := by
  cases operation with
  | read => exact .refl db
  | userCode => exact .refl db
  | send => exact ⟨fun _ _ found => found,fun _ _ found => found⟩
  | saveTemplate => exact ⟨fun _ _ found => found,fun _ _ found => found⟩
  | saveWorkflow id row =>
    exact ⟨fun other key found => (saveWorkflow_workflowKey keyed other).trans found,fun _ _ found => found⟩
  | saveTask id row =>
    exact ⟨fun _ _ found => found,fun other key found => (saveTask_taskKey keyed other).trans found⟩
  | createWorkflow row =>
    refine ⟨fun other key found => ?_,fun _ _ found => found⟩
    rw [createWorkflow_workflowKey,if_neg (Nat.ne_of_lt (workflowKey_lt found)),found]
  | createTask row =>
    refine ⟨fun _ _ found => found,fun other key found => ?_⟩
    rw [createTask_taskKey,if_neg (Nat.ne_of_lt (taskKey_lt found)),found]

theorem tasks_length_effect (db : Db) (operation : Operation) : db.tasks.length ≤ (operation.effect db).tasks.length := by
  cases operation <;> simp [Operation.effect]

theorem taskKey_effect {db : Db} {operation : Operation} (keyed : operation.Keyed db)
    (creates : ∀ row, operation ≠ .createTask row) (id : TaskId) : (operation.effect db).taskKey id = db.taskKey id := by
  cases operation with
  | saveTask => exact saveTask_taskKey keyed id
  | createTask row => exact absurd rfl (creates row)
  | _ => rfl

theorem workflowKey_effect {db : Db} {operation : Operation} (keyed : operation.Keyed db)
    (creates : ∀ row, operation ≠ .createWorkflow row) (id : WorkflowId) :
    (operation.effect db).workflowKey id = db.workflowKey id := by
  cases operation with
  | saveWorkflow => exact saveWorkflow_workflowKey keyed id
  | createWorkflow row => exact absurd rfl (creates row)
  | _ => rfl

end FinmarsWorkflow
