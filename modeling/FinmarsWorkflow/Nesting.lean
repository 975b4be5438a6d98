import Mathlib.Data.Fintype.Card
import FinmarsWorkflow.Attended
import FinmarsWorkflow.Redelivery

/-! A failure and a success on their way up a chain of nested workflows.
Both handlers call themselves on the task that delegated to the workflow they have
just finished with, so each level of the chain is an induction step: the lookup is
unique there, and the rows of the other levels are not touched. -/
namespace FinmarsWorkflow
open Interleave

/-- A workflow of a chain with the task that the climb changes there. -/
structure Level where
  workflow : WorkflowId
  task : TaskId
deriving DecidableEq

/-- Whether a task of the parent is the one that delegated to a workflow. -/
def delegating (parent : WorkflowId) (row : Workflow) (task : Task) : Bool :=
  task.workflow == parent && task.nodeId == row.nodeId && task.space == row.space

/-- The levels above a workflow, up to one without a parent. At each of them exactly
one task delegated to the level below. -/
inductive Nested (db : Db) : WorkflowId → List Level → Prop
  | top {workflow : WorkflowId} (row : Workflow) (stored : db.workflows[workflow]? = some row)
      (root : row.parent = none) : Nested db workflow []
  | under {workflow : WorkflowId} (row : Workflow) (level : Level) (task : Task) (rest : List Level)
      (stored : db.workflows[workflow]? = some row) (parent : row.parent = some level.workflow)
      (found : db.tasks[level.task]? = some task) (fits : delegating level.workflow row task = true)
      (only : ∀ id other, db.tasks[id]? = some other → delegating level.workflow row other = true → id = level.task)
      (above : Nested db level.workflow rest) : Nested db workflow (level::rest)

/-- Two states with the same rows under the same keys. -/
structure SameKeys (db later : Db) : Prop where
  workflow : ∀ id, later.workflowKey id = db.workflowKey id
  task : ∀ id, later.taskKey id = db.taskKey id

section chains
variable {db later : Db} {workflow : WorkflowId} {levels other : List Level}

theorem SameKeys.found (same : SameKeys db later) {id : TaskId} {task : Task} (stored : db.tasks[id]? = some task) :
    ∃ kept, later.tasks[id]? = some kept ∧ kept.key = task.key :=
  Option.map_eq_some_iff.mp ((same.task id).trans (taskKey_of_stored stored))

theorem SameKeys.back (same : SameKeys db later) {id : TaskId} {kept : Task} (stored : later.tasks[id]? = some kept) :
    ∃ task, db.tasks[id]? = some task ∧ task.key = kept.key :=
  Option.map_eq_some_iff.mp ((same.task id).symm.trans (taskKey_of_stored stored))

theorem SameKeys.row (same : SameKeys db later) {id : WorkflowId} {row : Workflow}
    (stored : db.workflows[id]? = some row) : ∃ kept, later.workflows[id]? = some kept ∧ kept.key = row.key := by
  have key : db.workflowKey id = some row.key := by
    rw [Db.workflowKey,stored]
    rfl
  exact Option.map_eq_some_iff.mp ((same.workflow id).trans key)

theorem delegating_key {parent : WorkflowId} {row kept : Workflow} {task found : Task} (rows : kept.key = row.key)
    (tasks : found.key = task.key) : delegating parent kept found = delegating parent row task := by
  have node : kept.nodeId = row.nodeId := congrArg WorkflowKey.nodeId rows
  have space : kept.space = row.space := congrArg WorkflowKey.space rows
  have owner : found.workflow = task.workflow := congrArg TaskKey.workflow tasks
  have names : found.nodeId = task.nodeId := congrArg TaskKey.nodeId tasks
  have place : found.space = task.space := congrArg TaskKey.space tasks
  rw [delegating,delegating,node,space,owner,names,place]

/-- A chain depends on the keys of the rows only. -/
theorem Nested.keys (nested : Nested db workflow levels) (same : SameKeys db later) : Nested later workflow levels := by
  induction nested with
  | top row stored root =>
    obtain ⟨kept,there,key⟩ := same.row stored
    exact .top kept there ((congrArg WorkflowKey.parent key).trans root)
  | under row level task rest stored parent found fits only above ih =>
    obtain ⟨kept,there,key⟩ := same.row stored
    obtain ⟨held,present,equal⟩ := same.found found
    refine .under kept level held rest there ((congrArg WorkflowKey.parent key).trans parent) present
      ((delegating_key key equal).trans fits) (fun id another stored delegates => ?_) ih
    obtain ⟨old,before,keys⟩ := same.back stored
    exact only id old before ((delegating_key key keys.symm).symm.trans delegates)

theorem Nested.unique (nested : Nested db workflow levels) (also_ : Nested db workflow other) : other = levels := by
  induction nested generalizing other with
  | top row stored root =>
    cases also_ with
    | top => rfl
    | under again level task rest there parent =>
      cases Option.some.inj (stored.symm.trans there)
      cases root.symm.trans parent
  | under row level task rest stored parent found fits only above ih =>
    cases also_ with
    | top again there root =>
      cases Option.some.inj (stored.symm.trans there)
      cases root.symm.trans parent
    | under again another held tail there up present delegates _ higher =>
      cases Option.some.inj (stored.symm.trans there)
      have place : level.workflow = another.workflow := Option.some.inj (parent.symm.trans up)
      have equal : another.task = level.task := only _ held present (place ▸ delegates)
      have levels : another = level := by
        cases level
        cases another
        cases place
        cases equal
        rfl
      subst levels
      rw [ih higher]

/-- Above each level of a chain is the rest of it. -/
theorem Nested.suffix (nested : Nested db workflow levels) {level : Level} (member : level ∈ levels) :
    ∃ rest, Nested db level.workflow rest ∧ rest.length < levels.length := by
  induction nested with
  | top => exact absurd member List.not_mem_nil
  | under row head task rest stored parent found fits only above ih =>
    rcases List.mem_cons.mp member with rfl | inside
    · exact ⟨rest,above,Nat.lt_succ_self _⟩
    · obtain ⟨tail,there,shorter⟩ := ih inside
      exact ⟨tail,there,Nat.lt_succ_of_lt shorter⟩

theorem Nested.apart (nested : Nested db workflow levels) {level : Level} (member : level ∈ levels) :
    level.workflow ≠ workflow := by
  rintro rfl
  obtain ⟨rest,there,shorter⟩ := nested.suffix member
  rw [nested.unique there] at shorter
  exact Nat.lt_irrefl _ shorter

/-- The task of each level belongs to its workflow. -/
theorem Nested.owned (nested : Nested db workflow levels) {level : Level} (member : level ∈ levels) :
    ∃ task, db.tasks[level.task]? = some task ∧ task.workflow = level.workflow := by
  induction nested with
  | top => exact absurd member List.not_mem_nil
  | under row head task rest stored parent found fits only above ih =>
    rcases List.mem_cons.mp member with rfl | inside
    · simp only [delegating,Bool.and_eq_true,beq_iff_eq] at fits
      exact ⟨task,found,fits.1.1⟩
    · exact ih inside

theorem Nested.absent (nested : Nested db workflow levels) : workflow ∉ levels.map Level.workflow := by
  intro member
  obtain ⟨level,inside,same⟩ := List.mem_map.mp member
  exact nested.apart inside same

theorem Nested.task_absent (nested : Nested db workflow levels) {id : TaskId} {task : Task}
    (found : db.tasks[id]? = some task) (owner : task.workflow = workflow) : id ∉ levels.map Level.task := by
  intro member
  obtain ⟨level,inside,rfl⟩ := List.mem_map.mp member
  obtain ⟨other,present,place⟩ := nested.owned inside
  cases Option.some.inj (found.symm.trans present)
  exact nested.apart inside (place.symm.trans owner)

theorem Nested.stored (nested : Nested db workflow levels) : ∃ row, db.workflows[workflow]? = some row := by
  cases nested with
  | top row stored => exact ⟨row,stored⟩
  | under row _ _ _ stored => exact ⟨row,stored⟩

theorem Nested.nodup (nested : Nested db workflow levels) : (workflow::levels.map Level.workflow).Nodup := by
  induction nested with
  | top => exact List.nodup_singleton _
  | under row level task rest stored parent found fits only above ih =>
    have here := Nested.under row level task rest stored parent found fits only above
    exact List.nodup_cons.mpr ⟨here.absent,ih⟩

/-- A chain is no longer than the table. -/
theorem Nested.length (nested : Nested db workflow levels) : levels.length < db.workflows.length := by
  have bound : ∀ id ∈ workflow::levels.map Level.workflow, id < db.workflows.length := by
    intro id member
    have there : ∃ row, db.workflows[id]? = some row := by
      rcases List.mem_cons.mp member with rfl | inside
      · exact nested.stored
      · obtain ⟨level,among,rfl⟩ := List.mem_map.mp inside
        obtain ⟨rest,above,_⟩ := nested.suffix among
        exact above.stored
    obtain ⟨row,stored⟩ := there
    exact (List.getElem?_eq_some_iff.mp stored).1
  have fits := (nested.nodup.pmap (fun _ _ _ _ same => congrArg Fin.val same) (H := bound)
    (f := fun id small => (⟨id,small⟩ : Fin db.workflows.length))).length_le_card
  exact Nat.lt_of_succ_le (by simpa using fits)

end chains

/-- Rows that differ between two states: the tasks of some levels and the workflows of
some levels, each changed in a given way, and no others. -/
structure Touched (onTask : Task → Task) (onWorkflow : Level → Workflow → Workflow) (tasks workflows : List Level)
    (db after : Db) : Prop where
  task : ∀ level ∈ tasks, after.tasks[level.task]? = (db.tasks[level.task]?).map onTask
  workflow : ∀ level ∈ workflows, after.workflows[level.workflow]? = (db.workflows[level.workflow]?).map (onWorkflow level)
  otherTask : ∀ id, id ∉ tasks.map Level.task → after.tasks[id]? = db.tasks[id]?
  otherWorkflow : ∀ id, id ∉ workflows.map Level.workflow → after.workflows[id]? = db.workflows[id]?
  templates : after.templates = db.templates
  uuid : after.uuid = db.uuid

section touching
variable {db after : Db} {onTask : Task → Task} {onWorkflow : Level → Workflow → Workflow} {tasks workflows : List Level}
  {level : Level} {task : Task} {row : Workflow}

theorem Touched.task_cons (found : db.tasks[level.task]? = some task) (apart : level.task ∉ tasks.map Level.task)
    (touched : Touched onTask onWorkflow tasks workflows {db with tasks := db.tasks.set level.task (onTask task)} after) :
    Touched onTask onWorkflow (level::tasks) workflows db after := by
  have bound := (List.getElem?_eq_some_iff.mp found).1
  refine ⟨fun other member => ?_,touched.workflow,fun id absent => ?_,touched.otherWorkflow,touched.templates,touched.uuid⟩
  · rcases List.mem_cons.mp member with rfl | inside
    · rw [touched.otherTask _ apart]
      exact (List.getElem?_set_self bound).trans (by rw [found]; rfl)
    · have differs : level.task ≠ other.task := by
        intro same
        exact apart (same ▸ List.mem_map_of_mem inside)
      rw [touched.task other inside]
      exact congrArg (Option.map onTask) (List.getElem?_set_ne differs)
  · have split := List.mem_cons.not.mp absent
    rw [not_or] at split
    rw [touched.otherTask id split.2]
    exact List.getElem?_set_ne (Ne.symm split.1)

theorem Touched.workflow_cons (found : db.workflows[level.workflow]? = some row)
    (apart : level.workflow ∉ workflows.map Level.workflow)
    (touched : Touched onTask onWorkflow tasks workflows
      {db with workflows := db.workflows.set level.workflow (onWorkflow level row)} after) :
    Touched onTask onWorkflow tasks (level::workflows) db after := by
  have bound := (List.getElem?_eq_some_iff.mp found).1
  refine ⟨touched.task,fun other member => ?_,touched.otherTask,fun id absent => ?_,touched.templates,touched.uuid⟩
  · rcases List.mem_cons.mp member with rfl | inside
    · rw [touched.otherWorkflow _ apart]
      exact (List.getElem?_set_self bound).trans (by rw [found]; rfl)
    · have differs : level.workflow ≠ other.workflow := by
        intro same
        exact apart (same ▸ List.mem_map_of_mem inside)
      rw [touched.workflow other inside]
      exact congrArg (Option.map (onWorkflow other)) (List.getElem?_set_ne differs)
  · have split := List.mem_cons.not.mp absent
    rw [not_or] at split
    rw [touched.otherWorkflow id split.2]
    exact List.getElem?_set_ne (Ne.symm split.1)

theorem Touched.none (queue : List Message) : Touched onTask onWorkflow [] [] db {db with queue := queue} := by
  refine ⟨?_,?_,fun _ _ => rfl,fun _ _ => rfl,rfl,rfl⟩
  · intro other member
    exact absurd member List.not_mem_nil
  · intro other member
    exact absurd member List.not_mem_nil

/-- Saving a task and its workflow under their keys. -/
theorem sameKeys_save {saved : Task} {kept : Workflow} (found : db.tasks[level.task]? = some task)
    (stored : db.workflows[level.workflow]? = some row) (tasks : saved.key = task.key) (rows : kept.key = row.key) :
    SameKeys db {db with
      tasks := db.tasks.set level.task saved
      workflows := db.workflows.set level.workflow kept} := by
  refine ⟨fun id => map_set_same Workflow.key _ _ _ ?_ id,fun id => map_set_same Task.key _ _ _ ?_ id⟩
  · rw [stored,rows]
    rfl
  · rw [found,tasks]
    rfl

theorem parentTask_single {db : Db} {parent : WorkflowId} {id : TaskId} (found : db.tasks[id]? = some task)
    (fits : delegating parent row task = true)
    (only : ∀ other another, db.tasks[other]? = some another → delegating parent row another = true → other = id) :
    db.parentTask parent row.nodeId row.space = .ok (id,task) :=
  getRow_single found fits only

/-- No two tasks have one `celery_task_id`. -/
def Distinct (db : Db) : Prop :=
  ∀ (id other : TaskId) (task another : Task), db.tasks[id]? = some task → db.tasks[other]? = some another →
    task.celeryTaskId = another.celeryTaskId → id = other

theorem Distinct.keys {later : Db} (distinct : Distinct db) (same : SameKeys db later) : Distinct later := by
  intro id other first second found present equal
  obtain ⟨one,before,key⟩ := same.back found
  obtain ⟨two,old,keys⟩ := same.back present
  have celery : one.celeryTaskId = first.celeryTaskId := congrArg TaskKey.celeryTaskId key
  have again : two.celeryTaskId = second.celeryTaskId := congrArg TaskKey.celeryTaskId keys
  exact distinct id other one two before old (celery.trans (equal.trans again.symm))

theorem Distinct.found {id : TaskId} (distinct : Distinct db) (stored : db.tasks[id]? = some task) :
    db.taskByCeleryId task.celeryTaskId = .ok (id,task) := by
  refine getRow_single stored (beq_self_eq_true _) (fun other another there fits => ?_)
  exact distinct other id another task there stored (by simpa using fits)

end touching

section failure
variable (outside : Outside) (error : Error) {db : Db} {levels : List Level} {level : Level} {task : Task} {row : Workflow}

/-- What the failure makes of the workflow of a level. -/
def failLevel (_ : Level) (row : Workflow) : Workflow := {row with status := error.workflowStatus}

/-- The state after the two saves of one level. -/
def failSaved (db : Db) (level : Level) (task : Task) (row : Workflow) : Db :=
  {db with
    tasks := db.tasks.set level.task (task.failed error)
    workflows := db.workflows.set level.workflow (failLevel error level row)}

section level
variable (depth : Nat) (stored : db.workflows[level.workflow]? = some row) (owner : task.workflow = level.workflow)
include stored owner

theorem failTask_top (root : row.parent = none) :
    (failTask (depth+1) level.task task error).run Operation.effect outside db =
      (.ok (),failSaved error db level task row) := by
  have bound := (List.getElem?_eq_some_iff.mp stored).1
  simp [failTask,fetch,saveTask,saveWorkflow,Operation.effect,Db.getWorkflow,owner,stored,List.getElem?_set_self bound,root,
    failSaved,failLevel]

theorem failTask_under {parent : WorkflowId} {id : TaskId} {held : Task} (delegated : row.parent = some parent)
    (above : (failSaved error db level task row).parentTask parent row.nodeId row.space = .ok (id,held))
    (reloaded : (failSaved error db level task row).taskByCeleryId held.celeryTaskId = .ok (id,held)) :
    (failTask (depth+1) level.task task error).run Operation.effect outside db =
      (failTask depth id held error).run Operation.effect outside (failSaved error db level task row) := by
  have bound := (List.getElem?_eq_some_iff.mp stored).1
  have loaded : db.getWorkflow level.workflow = .ok row := by simp only [Db.getWorkflow,stored]
  have again : (failSaved error db level task row).getWorkflow level.workflow = .ok (failLevel error level row) := by
    simp only [Db.getWorkflow,failSaved,List.getElem?_set_self bound]
  simp only [failTask,fetch,Program.monad_bind,Program.bind_step,Program.run_step,owner,loaded,Program.lift_ok,
    Program.bind_pure,Operation.effect,saveTask,saveWorkflow]
  change Program.run _ _ (Program.bind (Program.lift ((failSaved error db level task row).getWorkflow level.workflow)) _)
    (failSaved error db level task row) = _
  simp only [again,Program.lift_ok,Program.bind_pure,failLevel,delegated,Program.run_step,Operation.effect,
    above,reloaded]

end level

theorem failTask_run (depth : Nat) (enough : levels.length < depth) (nested : Nested db level.workflow levels)
    (distinct : Distinct db) (found : db.tasks[level.task]? = some task) (owner : task.workflow = level.workflow) :
    ∃ after, (failTask depth level.task task error).run Operation.effect outside db = (.ok (),after) ∧
      Touched (Task.failed · error) (failLevel error) (level::levels) (level::levels) db after ∧
      after.queue = db.queue := by
  induction levels generalizing db level task depth with
  | nil =>
    obtain ⟨depth,rfl⟩ := Nat.exists_eq_add_of_lt enough
    cases nested with
    | top row stored root =>
      refine ⟨_,failTask_top outside error _ stored owner root,?_,rfl⟩
      refine Touched.task_cons found List.not_mem_nil (Touched.workflow_cons stored List.not_mem_nil ?_)
      exact Touched.none db.queue
  | cons parent rest ih =>
    obtain ⟨depth,rfl⟩ := Nat.exists_eq_add_of_lt enough
    have chain := nested
    cases nested with
    | under row _ delegate _ stored delegated present fits only above =>
      have same : SameKeys db (failSaved error db level task row) := sameKeys_save found stored rfl rfl
      have later := chain.keys same
      cases later with
      | under kept _ held _ there _ there_ delegates single higher =>
        have bound := (List.getElem?_eq_some_iff.mp stored).1
        have equal : kept = failLevel error level row :=
          Option.some.inj (there.symm.trans (List.getElem?_set_self bound))
        subst equal
        have enough : rest.length < (parent::rest).length + depth := by
          simp only [List.length_cons]
          omega
        have place : held.workflow = parent.workflow := by
          simp only [delegating,Bool.and_eq_true,beq_iff_eq] at delegates
          exact delegates.1.1
        obtain ⟨after,result,touched,queue⟩ := ih _ enough higher (distinct.keys same) there_ place
        refine ⟨after,?_,?_,queue⟩
        · rw [failTask_under outside error _ stored owner delegated (parentTask_single there_ delegates single)
            ((distinct.keys same).found there_)]
          exact result
        · exact Touched.task_cons found (chain.task_absent found owner)
            (Touched.workflow_cons stored chain.absent touched)

/-- A failure of a task at the bottom of a chain of any length reaches its top. The
handler ends without an exception, and it changes two rows at each level: the task
and the workflow are marked with the error, and no other row changes. -/
theorem failure_climbs (outside : Outside) (error : Error) (db : Db) (failed : Level) (levels : List Level)
    (nested : Nested db failed.workflow levels) (distinct : (db.tasks.map Task.celeryTaskId).Nodup)
    (task : Task) (found : db.tasks[failed.task]? = some task) (owner : task.workflow = failed.workflow) :
    ∃ after, (onFailure task.celeryTaskId error).run Operation.effect outside db = (.ok (),after) ∧
      Touched (Task.failed · error) (failLevel error) (failed::levels) (failed::levels) db after ∧
      after.queue = db.queue := by
  have single : Distinct db := by
    intro id other first second stored present same
    refine (List.getElem?_inj (by simpa using (List.getElem?_eq_some_iff.mp stored).1) distinct).mp ?_
    rw [List.getElem?_map,List.getElem?_map,stored,present,Option.map_some,Option.map_some,same]
  obtain ⟨after,result,touched,queue⟩ := failTask_run outside error _ nested.length nested single found owner
  refine ⟨after,?_,touched,queue⟩
  rw [← result]
  simp [onFailure,fetch,Operation.effect,single.found found,Except.map]

/-- A chain, where every lookup of a delegating task answers with one task. -/
theorem Nested.lookup {workflow parent : WorkflowId} {id : TaskId} {rest : List Level}
    (stored : db.workflows[workflow]? = some row) (delegated : row.parent = some parent)
    (looked : db.parentTask parent row.nodeId row.space = .ok (id,task)) (above : Nested db parent rest) :
    Nested db workflow (⟨parent,id⟩::rest) := by
  obtain ⟨found,fits,only⟩ := getRow_ok looked
  exact .under row ⟨parent,id⟩ task rest stored delegated found fits only above

end failure

/-- A node that delegates. -/
def workflowNode (id : NodeId) : Node := ⟨id,.workflow "child",["in"]⟩

def nestedRow (template : TemplateId) (parent : Option WorkflowId) (node : Option NodeId) : Workflow :=
  { status := .progress, workflowTemplate := some template, currentNodeId := none, lastTaskOutput := none,
    nodeId := node, userCode := "child", payload := .obj [], platformTaskId := none, space := 0,
    finishedAt := false, parent := parent }

def nestedTask (workflow : WorkflowId) (node : NodeId) (celery : CeleryId) (status : TaskStatus) : Task :=
  { workflow := workflow, nodeId := some node, celeryTaskId := celery, name := "child", sourceCode := none,
    status := status, workerName := none, payload := none, result := none, progress := none, log := none,
    errorMessage := none, finishedAt := false, space := 0 }

/-- Three workflows, one inside the other; the outer one goes on after the inner two. -/
def threeLevels : Db where
  workflows := [nestedRow 0 none none,nestedRow 1 (some 0) (some "n"),nestedRow 2 (some 1) (some "m")]
  tasks := [nestedTask 0 "n" 0 .nestedProgress,nestedTask 1 "m" 1 .nestedProgress,nestedTask 2 "a" 2 .progress]
  templates := [⟨"outer",0,⟨[workflowNode "n",codeNode "x"],[codeConnection "n" "x"]⟩⟩,
    ⟨"middle",0,⟨[workflowNode "m"],[]⟩⟩,⟨"inner",0,⟨[codeNode "a"],[]⟩⟩]
  queue := []
  uuid := 3

theorem threeLevels_nested : Nested threeLevels 2 [⟨1,1⟩,⟨0,0⟩] :=
  .lookup rfl rfl rfl (.lookup rfl rfl rfl (.top _ rfl rfl))

theorem failure_climbs_three : ∃ after,
    (onFailure 2 (.of "failed")).run Operation.effect (.returns .null) threeLevels = (.ok (),after) ∧
    after.workflows.map Workflow.status = [.error,.error,.error] ∧
    Touched (Task.failed · (.of "failed")) (failLevel (.of "failed")) [⟨2,2⟩,⟨1,1⟩,⟨0,0⟩] [⟨2,2⟩,⟨1,1⟩,⟨0,0⟩] threeLevels after := by
  obtain ⟨after,result,touched,_⟩ := failure_climbs (.returns .null) (.of "failed") threeLevels ⟨2,2⟩ [⟨1,1⟩,⟨0,0⟩]
    threeLevels_nested (by decide) (nestedTask 2 "a" 2 .progress) rfl rfl
  refine ⟨after,result,?_,touched⟩
  cases result
  rfl

section success
variable (outside : Outside) (retval : Json) {db : Db} {levels : List Level} {level : Level} {task self : Task}
  {row : Workflow} {g : Graph}

/-- The node of the task of a level. -/
def Db.levelNode (db : Db) (level : Level) : Option NodeId := (db.tasks[level.task]?).bind Task.nodeId

/-- The connections that leave the node of a level. -/
def Db.outgoing (db : Db) (level : Level) : List Connection :=
  ((db.graph level.workflow).map Graph.connections).getD [] |>.filter
    (fun connection => some connection.source == db.levelNode level)

/-- The delegating task of a level is at a node of a usable template that is no condition. -/
structure Delegating (db : Db) (level : Level) (g : Graph) (node : Node) : Prop where
  graph : db.graph level.workflow = some g
  sources : ∀ connection ∈ g.connections, connection.source ∈ g.ids
  at_ : db.levelNode level = some node.id
  known : g.node? node.id = some node
  plain : node.isCondition = false

/-- The levels next to the bottom whose delegating nodes have no next node either. -/
def Db.finished (db : Db) (levels : List Level) : List Level :=
  levels.takeWhile (fun level => (db.outgoing level).isEmpty)

/-- The first level whose delegating node leads on, if there is one. -/
def Db.resumed (db : Db) (levels : List Level) : Option Level :=
  (levels.dropWhile (fun level => (db.outgoing level).isEmpty)).head?

/-- One message for each connection of the node of a level that leads to a node. -/
def Db.onward (db : Db) (level : Level) : List Message :=
  ((db.graph level.workflow).map fun g =>
    ((db.outgoing level).filter (fun connection => (g.node? connection.target).isSome)).map
      (fun connection => Message.processNextNode ⟨connection.target,level.workflow,g⟩)).getD []

/-- What the success makes of the workflow of a level that has no next node. -/
def closeLevel (db : Db) (retval : Json) (level : Level) (row : Workflow) : Workflow :=
  row.completed (db.levelNode level) retval

/-- A delegating node leads along all of its connections. -/
theorem Delegating.successors {node : Node} (delegating : Delegating db level g node) :
    successors g (some node.id) retval = .ok (g.adjacent node.id) := by
  simp [FinmarsWorkflow.successors,sources_adjacency delegating.sources,delegating.known,nextNodeIds,delegating.plain,
    bind,Except.bind]

theorem Delegating.outgoing {node : Node} (delegating : Delegating db level g node) :
    db.outgoing level = g.connections.filter (fun connection => connection.source == node.id) := by
  simp only [Db.outgoing,delegating.graph,delegating.at_,Option.map_some,Option.getD_some]
  refine List.filter_congr (fun connection _ => ?_)
  exact Option.some_beq_some

theorem templateData_loaded (stored : db.workflows[level.workflow]? = some row) (graph : db.graph level.workflow = some g) :
    row.workflowTemplate.isNone = false ∧ db.templateData row = .ok g := by
  have key : db.workflowKey level.workflow = some row.key := by
    rw [Db.workflowKey,stored]
    rfl
  obtain ⟨template,found,data⟩ := Option.map_eq_some_iff.mp graph
  rw [key,Option.bind_some] at found
  obtain ⟨id,names,there⟩ := Option.bind_eq_some_iff.mp found
  have same : row.workflowTemplate = some id := names
  refine ⟨by rw [same]; rfl,?_⟩
  simp only [Db.templateData,same,there,data]

theorem SameKeys.graph {later : Db} (same : SameKeys db later) (templates : later.templates = db.templates)
    (workflow : WorkflowId) : later.graph workflow = db.graph workflow := by
  rw [Db.graph,Db.graph,same.workflow,templates]

theorem SameKeys.levelNode {later : Db} (same : SameKeys db later) (level : Level) :
    later.levelNode level = db.levelNode level := by
  have keys := congrArg (Option.bind · TaskKey.nodeId) (same.task level.task)
  simpa [Db.taskKey,Db.levelNode,Option.bind_map,Function.comp_def,Task.key] using keys

/-- The state after the save of the task. -/
def successSaved (db : Db) (level : Level) (task : Task) : Db :=
  {db with tasks := db.tasks.set level.task (task.succeeded retval)}

/-- The state after both saves of a level without next node. -/
def closeSaved (db : Db) (level : Level) (task : Task) (row : Workflow) : Db :=
  {successSaved retval db level task with
    workflows := db.workflows.set level.workflow (row.completed task.nodeId retval)}

/-- What `handle_task_success` does once it knows the next nodes. -/
def continuing (depth : Nat) (self : Task) (row : Workflow) (g : Graph) (next : List NodeId) : Prog Unit :=
  if next.isEmpty then do
    saveWorkflow self.workflow (row.completed self.nodeId retval)
    match row.parent with
    | none => return
    | some parent =>
      let (parentId,parentTask) ← fetch (·.parentTask parent row.nodeId row.space)
      handleTaskSuccess depth parentId {parentTask with status := .progress} retval
  else
    dispatch (processMessages g self.workflow next)

section level
variable (depth : Nat) (stored : db.workflows[level.workflow]? = some row) (owner : self.workflow = level.workflow)
  (works : self.status ≠ .nestedProgress) (graph : db.graph level.workflow = some g)
include stored owner works graph

theorem handleTaskSuccess_step {next : List NodeId} (routed : successors g self.nodeId retval = .ok next) :
    (handleTaskSuccess (depth+1) level.task self retval).run Operation.effect outside db =
      (continuing retval depth self row g next).run Operation.effect outside (successSaved retval db level self) := by
  obtain ⟨templated,data⟩ := templateData_loaded stored graph
  have loaded : (successSaved retval db level self).getWorkflow level.workflow = .ok row := by
    simp only [Db.getWorkflow,successSaved,stored]
  have read : (successSaved retval db level self).templateData row = .ok g := data
  simp only [handleTaskSuccess,if_neg works,saveTask,Program.monad_bind,Program.bind_step,Program.bind_pure,Program.run_step,
    Operation.effect,fetch]
  change Program.run _ _ (Program.bind (Program.lift ((successSaved retval db level self).getWorkflow self.workflow)) _)
    (successSaved retval db level self) = _
  have node : (self.succeeded retval).nodeId = self.nodeId := rfl
  have place : (self.succeeded retval).workflow = self.workflow := rfl
  simp only [owner,loaded,Program.lift_ok,Program.bind_pure,templated,Bool.false_eq_true,if_false,Program.run_step,
    Operation.effect,read,node,routed,place,continuing]
  rfl

end level

theorem dispatch_run (messages : List Message) (answer : Outside) (db : Db) :
    (dispatch messages).run Operation.effect answer db = (.ok (),{db with queue := db.queue ++ messages}) := by
  induction messages generalizing db with
  | nil => simp [dispatch]
  | cons message rest ih => simp [dispatch,applyAsync,ih,Operation.effect]

theorem continuing_dispatch (depth : Nat) {next : List NodeId} (goes : next ≠ []) :
    (continuing retval depth self row g next).run Operation.effect outside db =
      (.ok (),{db with queue := db.queue ++ processMessages g self.workflow next}) := by
  rw [continuing,if_neg (by simpa using goes),dispatch_run]

theorem continuing_top (depth : Nat) (root : row.parent = none) :
    (continuing retval depth self row g []).run Operation.effect outside db =
      (.ok (),{db with workflows := db.workflows.set self.workflow (row.completed self.nodeId retval)}) := by
  simp [continuing,saveWorkflow,root,Operation.effect]

theorem continuing_under (depth : Nat) (saved : Db) {parent : WorkflowId} {id : TaskId} {held : Task}
    (delegated : row.parent = some parent)
    (saves : saved = {db with workflows := db.workflows.set self.workflow (row.completed self.nodeId retval)})
    (above : saved.parentTask parent row.nodeId row.space = .ok (id,held)) :
    (continuing retval depth self row g []).run Operation.effect outside db =
      (handleTaskSuccess depth id {held with status := .progress} retval).run Operation.effect outside saved := by
  subst saves
  simp [continuing,saveWorkflow,delegated,Operation.effect,fetch,above]

theorem Delegating.onward {node : Node} (delegating : Delegating db level g node) :
    db.onward level = processMessages g level.workflow (g.adjacent node.id) := by
  simp only [Db.onward,delegating.graph,delegating.outgoing,Option.map_some,Option.getD_some,processMessages,
    Graph.adjacent,List.filter_map,List.map_map,List.filter_filter,Function.comp_def]

theorem SameKeys.outgoing {later : Db} (same : SameKeys db later) (templates : later.templates = db.templates) :
    later.outgoing = db.outgoing := by
  funext level
  rw [Db.outgoing,Db.outgoing,same.graph templates,same.levelNode]

theorem SameKeys.closeLevel {later : Db} (same : SameKeys db later) (retval : Json) :
    closeLevel later retval = closeLevel db retval := by
  funext level row
  simp only [FinmarsWorkflow.closeLevel,same.levelNode]

theorem Delegating.keys {later : Db} {node : Node} (same : SameKeys db later) (templates : later.templates = db.templates)
    (delegating : Delegating db level g node) : Delegating later level g node :=
  ⟨(same.graph templates _).trans delegating.graph,delegating.sources,(same.levelNode level).trans delegating.at_,
    delegating.known,delegating.plain⟩

theorem SameKeys.onward {later : Db} (same : SameKeys db later) (templates : later.templates = db.templates) :
    later.onward = db.onward := by
  funext level
  rw [Db.onward,Db.onward,same.graph templates,same.outgoing templates]

theorem finished_mem {other : Level} (member : other ∈ db.finished levels) : other ∈ levels :=
  (List.takeWhile_sublist _).subset member

theorem resumed_mem {other : Level} (member : other ∈ (db.resumed levels).toList) : other ∈ levels :=
  (List.dropWhile_sublist _).subset (List.mem_of_mem_head? (Option.mem_toList.mp member))

section cons
variable {parent : Level} {rest : List Level}

theorem finished_cons (ended : (db.outgoing parent).isEmpty = true) :
    db.finished (parent::rest) = parent::db.finished rest := by
  unfold Db.finished
  exact List.takeWhile_cons_of_pos (p := fun level => (db.outgoing level).isEmpty) ended

theorem resumed_cons (ended : (db.outgoing parent).isEmpty = true) : db.resumed (parent::rest) = db.resumed rest := by
  unfold Db.resumed
  rw [List.dropWhile_cons_of_pos (p := fun level => (db.outgoing level).isEmpty) ended]

theorem finished_goes (goes : ¬(db.outgoing parent).isEmpty = true) : db.finished (parent::rest) = [] :=
  List.takeWhile_cons_of_neg (p := fun level => (db.outgoing level).isEmpty) goes

theorem resumed_goes (goes : ¬(db.outgoing parent).isEmpty = true) : db.resumed (parent::rest) = some parent := by
  unfold Db.resumed
  rw [List.dropWhile_cons_of_neg (p := fun level => (db.outgoing level).isEmpty) goes]
  rfl

/-- One level of the climb: the bottom is closed and its delegating task is handled in
the state `after`, where all keys are as before. -/
structure Climbed (db after : Db) (level parent : Level) (held : Task) : Prop where
  keys : SameKeys db after
  templates : after.templates = db.templates
  queue : after.queue = db.queue
  found : after.tasks[parent.task]? = some held
  owner : held.workflow = parent.workflow
  touched : ∀ tasks workflows last, level.task ∉ tasks.map Level.task → level.workflow ∉ workflows.map Level.workflow →
    Touched (Task.succeeded · retval) (closeLevel after retval) tasks workflows after last →
    Touched (Task.succeeded · retval) (closeLevel db retval) (level::tasks) (level::workflows) db last

/-- The copy that the handler works on: the stored row, with a status of its own. -/
structure Succeeding (db : Db) (level : Level) (copy : Task) (ids : List NodeId) : Prop where
  stored : ∃ task, db.tasks[level.task]? = some task ∧ task.workflow = level.workflow ∧
    copy.succeeded retval = task.succeeded retval
  works : copy.status ≠ .nestedProgress
  routed : ∃ g, db.graph level.workflow = some g ∧ successors g copy.nodeId retval = .ok ids

theorem Succeeding.node {ids : List NodeId} (succeeding : Succeeding retval db level self ids) :
    db.levelNode level = self.nodeId := by
  obtain ⟨task,found,_,same⟩ := succeeding.stored
  have names := congrArg Task.nodeId same
  rw [Db.levelNode,found]
  exact names.symm

theorem Succeeding.owner {ids : List NodeId} (succeeding : Succeeding retval db level self ids) :
    self.workflow = level.workflow := by
  obtain ⟨task,_,owner,same⟩ := succeeding.stored
  have place := congrArg Task.workflow same
  exact place.trans owner

theorem handleTaskSuccess_climb (depth : Nat) (nested : Nested db level.workflow (parent::rest))
    (succeeding : Succeeding retval db level self []) :
    ∃ after held, Climbed retval db after level parent held ∧ Nested after parent.workflow rest ∧
      (handleTaskSuccess (depth+1) level.task self retval).run Operation.effect outside db =
        (handleTaskSuccess depth parent.task {held with status := .progress} retval).run Operation.effect outside after := by
  obtain ⟨task,found,owner,same⟩ := succeeding.stored
  obtain ⟨g,graph,leaf⟩ := succeeding.routed
  have chain := nested
  cases nested with
  | under row _ delegate _ stored delegated present fits only above =>
    have bound := (List.getElem?_eq_some_iff.mp stored).1
    have closes : closeLevel db retval level row = row.completed self.nodeId retval := by
      rw [closeLevel,succeeding.node]
    have kept : SameKeys db {db with
        tasks := db.tasks.set level.task (task.succeeded retval)
        workflows := db.workflows.set level.workflow (closeLevel db retval level row)} :=
      sameKeys_save found stored rfl rfl
    cases chain.keys kept with
    | under row_ _ held _ there up there_ delegates single higher =>
      have equal : row_ = closeLevel db retval level row :=
        Option.some.inj (there.symm.trans (List.getElem?_set_self bound))
      subst equal
      refine ⟨_,held,⟨kept,rfl,rfl,there_,?_,fun tasks workflows last apart away touched => ?_⟩,higher,?_⟩
      · simp only [delegating,Bool.and_eq_true,beq_iff_eq] at delegates
        exact delegates.1.1
      · rw [kept.closeLevel] at touched
        exact Touched.task_cons found apart (Touched.workflow_cons stored away touched)
      · refine (handleTaskSuccess_step outside retval depth stored succeeding.owner succeeding.works graph leaf).trans ?_
        refine continuing_under outside retval depth _ delegated ?_ (parentTask_single there_ delegates single)
        rw [closes,successSaved,same,succeeding.owner]

theorem handleTaskSuccess_run (depth : Nat) (enough : levels.length < depth) (nested : Nested db level.workflow levels)
    (succeeding : Succeeding retval db level self []) (usable : ∀ above ∈ levels, ∃ g node, Delegating db above g node) :
    ∃ after, (handleTaskSuccess depth level.task self retval).run Operation.effect outside db = (.ok (),after) ∧
      Touched (Task.succeeded · retval) (closeLevel db retval) (level::(db.finished levels ++ (db.resumed levels).toList))
        (level::db.finished levels) db after ∧
      after.queue = db.queue ++ (db.resumed levels).toList.flatMap db.onward := by
  induction levels generalizing db level self depth with
  | nil =>
    obtain ⟨depth,rfl⟩ := Nat.exists_eq_add_of_lt enough
    obtain ⟨task,found,owner,same⟩ := succeeding.stored
    obtain ⟨g,graph,leaf⟩ := succeeding.routed
    cases nested with
    | top row stored root =>
      have closes : closeLevel db retval level row = row.completed self.nodeId retval := by
        rw [closeLevel,succeeding.node]
      refine ⟨_,(handleTaskSuccess_step outside retval _ stored succeeding.owner succeeding.works graph leaf).trans
        (continuing_top outside retval _ root),?_,(List.append_nil _).symm⟩
      refine Touched.task_cons found List.not_mem_nil (Touched.workflow_cons stored List.not_mem_nil ?_)
      rw [closes,← same,← succeeding.owner]
      exact Touched.none db.queue
  | cons parent rest ih =>
    obtain ⟨depth,rfl⟩ := Nat.exists_eq_add_of_lt enough
    obtain ⟨task,found,owner,_⟩ := succeeding.stored
    obtain ⟨after,held,climbed,higher,climbs⟩ :=
      handleTaskSuccess_climb outside retval ((parent::rest).length+depth) nested succeeding
    obtain ⟨g,node,leads⟩ := usable parent List.mem_cons_self
    have later := leads.keys climbed.keys climbed.templates
    have at_ : held.nodeId = some node.id := by
      have read := later.at_
      rw [Db.levelNode,climbed.found] at read
      exact read
    have next : Succeeding retval after parent {held with status := .progress} (g.adjacent node.id) := by
      refine ⟨⟨held,climbed.found,climbed.owner,rfl⟩,by rintro ⟨⟩,g,later.graph,?_⟩
      exact (congrArg (successors g · retval) at_).trans (later.successors retval)
    have finished : after.finished = db.finished := by
      funext levels
      rw [Db.finished,Db.finished,climbed.keys.outgoing climbed.templates]
    have resumed : after.resumed = db.resumed := by
      funext levels
      rw [Db.resumed,Db.resumed,climbed.keys.outgoing climbed.templates]
    by_cases ended : (db.outgoing parent).isEmpty = true
    · -- the parent has no next node either, and the climb goes on from there
      have none : g.adjacent node.id = [] := by
        rw [leads.outgoing] at ended
        rw [Graph.adjacent,List.isEmpty_iff.mp ended]
        rfl
      have enough : rest.length < (parent::rest).length+depth := by
        simp only [List.length_cons]
        omega
      have stays (other : Level) (member : other ∈ rest) : ∃ g node, Delegating after other g node := by
        obtain ⟨g,point,holds⟩ := usable other (List.mem_cons_of_mem _ member)
        exact ⟨g,point,holds.keys climbed.keys climbed.templates⟩
      obtain ⟨last,result,touched,sent⟩ := ih _ enough higher (none ▸ next) stays
      refine ⟨last,climbs.trans result,?_,?_⟩
      · rw [finished_cons ended,resumed_cons ended]
        rw [finished,resumed] at touched
        refine climbed.touched _ _ _ (fun member => ?_) (fun member => ?_) touched
        · refine nested.task_absent found owner (List.map_subset _ (List.cons_subset_cons _ (fun _ inside => ?_)) member)
          exact (List.mem_append.mp inside).elim finished_mem resumed_mem
        · exact nested.absent (List.map_subset _ (List.cons_subset_cons _ (fun _ => finished_mem)) member)
      · rw [resumed_cons ended,sent,climbed.queue,resumed,climbed.keys.onward climbed.templates]
    · -- the parent leads on: its task is finished and its next nodes are dispatched
      have goes : g.adjacent node.id ≠ [] := by
        intro none
        rw [leads.outgoing] at ended
        rw [Graph.adjacent,List.map_eq_nil_iff] at none
        exact ended (by rw [none]; rfl)
      have length : (parent::rest).length+depth = (rest.length+depth)+1 := by
        simp only [List.length_cons]
        omega
      obtain ⟨upper,loaded⟩ := higher.stored
      obtain ⟨_,graph,routed⟩ := next.routed
      have sends := (handleTaskSuccess_step outside retval (rest.length+depth) loaded next.owner next.works graph routed).trans
        (continuing_dispatch outside retval _ goes)
      cases Option.some.inj (later.graph.symm.trans graph)
      refine ⟨_,climbs.trans (length ▸ sends),?_,?_⟩
      · rw [finished_goes ended,resumed_goes ended]
        refine climbed.touched [parent] [] _ (fun member => ?_) List.not_mem_nil ?_
        · exact nested.task_absent found owner (List.map_subset _ (List.cons_subset_cons _ (List.nil_subset _)) member)
        · exact Touched.task_cons climbed.found List.not_mem_nil (Touched.none _)
      · rw [resumed_goes ended]
        simp [successSaved,climbed.queue,leads.onward,climbed.owner]

end cons

/-- A success without next node closes the workflows of a chain up to the first
delegating node that leads on. The finished task and the delegating tasks up to that
level succeed with the result, the closed workflows succeed, one message is queued
for each connection of that node to a node, and no other row changes. -/
theorem success_climbs (outside : Outside) (retval : Json) (db : Db) (finished : Level) (levels : List Level)
    (nested : Nested db finished.workflow levels)
    (usable : ∀ level ∈ levels, ∃ g node, Delegating db level g node)
    (task : Task) (found : db.tasks[finished.task]? = some task) (owner : task.workflow = finished.workflow)
    (works : task.status ≠ .nestedProgress) (g : Graph) (graph : db.graph finished.workflow = some g)
    (leaf : successors g task.nodeId retval = .ok []) :
    ∃ after, (handleTaskSuccess db.workflows.length finished.task task retval).run Operation.effect outside db =
        (.ok (),after) ∧
      Touched (Task.succeeded · retval) (closeLevel db retval)
        (finished::(db.finished levels ++ (db.resumed levels).toList)) (finished::db.finished levels) db after ∧
      after.queue = db.queue ++ (db.resumed levels).toList.flatMap db.onward :=
  handleTaskSuccess_run outside retval _ nested.length nested ⟨⟨task,found,owner,rfl⟩,works,g,graph,leaf⟩ usable

/-- The inner two workflows are closed and the outer one goes on after its delegating node. -/
theorem success_climbs_three : ∃ after,
    (handleTaskSuccess 3 2 (nestedTask 2 "a" 2 .progress) (.num 7)).run Operation.effect (.returns .null) threeLevels =
      (.ok (),after) ∧
    after.workflows.map Workflow.status = [.progress,.success,.success] ∧ after.queue.length = 1 ∧
    Touched (Task.succeeded · (.num 7)) (closeLevel threeLevels (.num 7)) [⟨2,2⟩,⟨1,1⟩,⟨0,0⟩] [⟨2,2⟩,⟨1,1⟩] threeLevels after := by
  have usable : ∀ level ∈ [(⟨1,1⟩ : Level),⟨0,0⟩], ∃ g node, Delegating threeLevels level g node := by
    refine List.forall_mem_cons.mpr ⟨⟨_,workflowNode "m",rfl,by decide,rfl,rfl,rfl⟩,List.forall_mem_singleton.mpr ?_⟩
    exact ⟨_,workflowNode "n",rfl,by decide,rfl,rfl,rfl⟩
  obtain ⟨after,result,touched,sent⟩ := success_climbs (.returns .null) (.num 7) threeLevels ⟨2,2⟩ [⟨1,1⟩,⟨0,0⟩]
    threeLevels_nested usable (nestedTask 2 "a" 2 .progress) rfl rfl (by rintro ⟨⟩) ⟨[codeNode "a"],[]⟩ rfl rfl
  refine ⟨after,result,?_,?_,touched⟩
  · cases result
    rfl
  · rw [sent]
    rfl

end success

end FinmarsWorkflow
