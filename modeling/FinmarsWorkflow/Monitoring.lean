import Mathlib.Logic.Function.Basic
import FinmarsWorkflow.Python.Dict
import FinmarsWorkflow.Python.Effects
import FinmarsWorkflow.Python.Text

/-! What the monitoring endpoint tells about the Celery workers: the tasks that their replies
to an inspection list, put together for each worker and counted. -/
namespace FinmarsWorkflow.Monitoring
open Python

inductive TaskType where
  | activeTasks | scheduledTasks | pendingTasks
deriving DecidableEq

def taskTypes : List TaskType := [.activeTasks,.scheduledTasks,.pendingTasks]

inductive Raised where
  | keyError
  | valueError
  -- what the broker or the inspection itself raises
  | inspection (text : String)

/-- The dictionary kept for one worker. -/
structure WorkerTasks (τ : Type) where
  activeTasks : List τ
  scheduledTasks : List τ
  pendingTasks : List τ
  activeTasksCount : Nat
  pendingTasksCount : Nat
  scheduledTasksCount : Nat
  totalTasksCount : Nat
deriving DecidableEq

variable {τ : Type}

namespace WorkerTasks

def fresh : WorkerTasks τ := ⟨[],[],[],0,0,0,0⟩

/-- `worker[task_type].append(task)` -/
def append (type : TaskType) (task : τ) (worker : WorkerTasks τ) : WorkerTasks τ := match type with
  | .activeTasks => {worker with activeTasks := worker.activeTasks ++ [task]}
  | .scheduledTasks => {worker with scheduledTasks := worker.scheduledTasks ++ [task]}
  | .pendingTasks => {worker with pendingTasks := worker.pendingTasks ++ [task]}

/-- `worker[f"{task_type}_count"] += 1` -/
def count (type : TaskType) (worker : WorkerTasks τ) : WorkerTasks τ := match type with
  | .activeTasks => {worker with activeTasksCount := worker.activeTasksCount + 1}
  | .scheduledTasks => {worker with scheduledTasksCount := worker.scheduledTasksCount + 1}
  | .pendingTasks => {worker with pendingTasksCount := worker.pendingTasksCount + 1}

/-- `worker["total_tasks_count"] += 1` -/
def countTotal (worker : WorkerTasks τ) : WorkerTasks τ :=
  {worker with totalTasksCount := worker.totalTasksCount + 1}

end WorkerTasks

/-- The workers by their types and names. -/
abbrev Data (τ : Type) := Dict String (Dict String (WorkerTasks τ))

/-- The lists of tasks by the full names of the workers. -/
abbrev Reply (τ : Type) := Dict String (List τ)

/-- What `celery_app.control.inspect()` answers; none when no worker replied. -/
structure Inspect (τ : Type) where
  active : Except Raised (Option (Reply τ))
  scheduled : Except Raised (Option (Reply τ))
  reserved : Except Raised (Option (Reply τ))

/-- Code with the local variable `data`. -/
abbrev Gathering (τ α : Type) := EStateM Raised (Data τ) α

/-- `dict[key]` -/
def item {α : Type} (dict : Dict String α) (key : String) : Except Raised α := match dict.get? key with
  | some value => .ok value
  | none => .error .keyError

/-- The two values that a list is unpacked into. -/
def unpack : List String → Except Raised (String × String)
  | [first,second] => .ok (first,second)
  | _ => .error .valueError

section gathering
variable (type : TaskType) (workerType workerName : String)

/-- A statement that changes `data[worker_type][worker_name]` in place. -/
def changeWorker (change : WorkerTasks τ → WorkerTasks τ) : Gathering τ Unit := do
  let data : Data τ ← get
  let workers ← attempt (item data workerType)
  let worker ← attempt (item workers workerName)
  set (data.set workerType (workers.set workerName (change worker)))

/-- One round of the loop over the tasks of a worker. -/
def gatherTask (task : τ) : Gathering τ Unit := do
  changeWorker workerType workerName (·.append type task)
  changeWorker workerType workerName (·.count type)
  changeWorker workerType workerName WorkerTasks.countTotal

/-- A type that was not met yet. -/
def addType (data : Data τ) : Data τ := if (data.get? workerType).isNone then data.set workerType .empty else data

/-- A worker that was not met yet. -/
def addWorker : Gathering τ Unit := do
  modify (addType workerType)
  let data : Data τ ← get
  let workers ← attempt (item data workerType)
  if (workers.get? workerName).isNone then
    set (data.set workerType (workers.set workerName .fresh))

/-- One round of the loop over a reply. -/
def gatherWorker (entry : String × List τ) : Gathering τ Unit := do
  let (workerType,workerName) ← attempt (unpack (split '@' entry.1))
  addWorker workerType workerName
  forEach (gatherTask type workerType workerName) entry.2

end gathering

/-- `tasks_data` -/
def tasksData (active scheduled pending : Option (Reply τ)) : TaskType → Reply τ
  | .activeTasks => active.getD .empty
  | .scheduledTasks => scheduled.getD .empty
  | .pendingTasks => pending.getD .empty

def gather (insp : Inspect τ) : Gathering τ Unit := do
  let active ← attempt insp.active
  let scheduled ← attempt insp.scheduled
  let pending ← attempt insp.reserved
  forEach (fun type => forEach (gatherWorker type) (tasksData active scheduled pending type).items) taskTypes

/-- An exception is logged, and nothing is told of the workers. -/
def getTasksData (insp : Inspect τ) : Data τ := match (gather insp).run .empty with
  | .ok () data => data
  | .error _ _ => .empty

section entries
variable (workerType workerName : String)

/-- What is kept for a worker. -/
def entry (data : Data τ) : Option (WorkerTasks τ) := (data.get? workerType).bind (·.get? workerName)

/-- The workers of one type. -/
def workersOf (data : Data τ) : Dict String (WorkerTasks τ) := (data.get? workerType).getD .empty

/-- The data with something else kept for a worker. -/
def put (worker : WorkerTasks τ) (data : Data τ) : Data τ :=
  data.set workerType ((workersOf workerType data).set workerName worker)

variable {workerType workerName} {data : Data τ} {worker other : WorkerTasks τ}

theorem entry_eq : entry workerType workerName data = (workersOf workerType data).get? workerName := by
  unfold entry workersOf
  cases data.get? workerType <;> rfl

theorem workersOf_put (otherType : String) : workersOf otherType (put workerType workerName worker data) =
    if otherType = workerType then (workersOf workerType data).set workerName worker else workersOf otherType data := by
  unfold put
  rw [workersOf,Dict.get?_set]
  split <;> rfl

theorem entry_put (otherType otherName : String) :
    entry otherType otherName (put workerType workerName worker data) =
      if otherType = workerType ∧ otherName = workerName then some worker else entry otherType otherName data := by
  rw [entry_eq,workersOf_put,entry_eq]
  by_cases same : otherType = workerType
  · subst same
    rw [if_pos rfl,Dict.get?_set]
    simp only [true_and]
  · rw [if_neg same,if_neg fun both => same both.1]

theorem put_eq_self (kept : entry workerType workerName data = some worker) :
    put workerType workerName worker data = data := by
  obtain ⟨workers,found,held⟩ := Option.bind_eq_some_iff.mp kept
  have same : workersOf workerType data = workers := by rw [workersOf,found,Option.getD_some]
  rw [put,same,Dict.set_eq_self held,Dict.set_eq_self found]

theorem changeWorker_put (change : WorkerTasks τ → WorkerTasks τ) :
    (changeWorker workerType workerName change).run (put workerType workerName worker data) =
      .ok () (put workerType workerName (change worker) data) := by
  have found : item (put workerType workerName worker data) workerType =
      .ok ((workersOf workerType data).set workerName worker) := by
    rw [item,put,Dict.get?_set_self]
  have held : item ((workersOf workerType data).set workerName worker) workerName = .ok worker := by
    rw [item,Dict.get?_set_self]
  unfold changeWorker
  refine (bind_run rfl).trans ?_
  refine (bind_run (attempt_ok found)).trans ?_
  refine (bind_run (attempt_ok held)).trans ?_
  rw [put,Dict.set_set,Dict.set_set]
  rfl

theorem get?_addType : (addType workerType data).get? workerType = some (workersOf workerType data) := by
  unfold addType workersOf
  cases found : data.get? workerType with
  | none => rw [Option.isNone_none,if_pos rfl,Dict.get?_set_self,Option.getD_none]
  | some workers => rw [Option.isNone_some,if_neg Bool.false_ne_true,found,Option.getD_some]

theorem set_addType (workers : Dict String (WorkerTasks τ)) :
    (addType workerType data).set workerType workers = data.set workerType workers := by
  unfold addType
  split
  · exact Dict.set_set
  · rfl

theorem addType_eq_self (kept : entry workerType workerName data = some worker) : addType workerType data = data := by
  obtain ⟨workers,found,_⟩ := Option.bind_eq_some_iff.mp kept
  rw [addType,found,Option.isNone_some,if_neg Bool.false_ne_true]

theorem addWorker_run : (addWorker workerType workerName).run data =
    .ok () (put workerType workerName ((entry workerType workerName data).getD .fresh) data) := by
  have found : item (addType workerType data) workerType = .ok (workersOf workerType data) := by
    rw [item,get?_addType]
  unfold addWorker
  refine (bind_run rfl).trans ?_
  refine (bind_run rfl).trans ?_
  refine (bind_run (attempt_ok found)).trans ?_
  cases kept : entry workerType workerName data with
  | none =>
    rw [← entry_eq,kept,Option.isNone_none,if_pos rfl,set_addType]
    rfl
  | some worker =>
    rw [← entry_eq,kept,Option.isNone_some,if_neg Bool.false_ne_true,Option.getD_some,put_eq_self kept,
      addType_eq_self kept]
    rfl

end entries

section tasks

/-- What one round of the loop over the tasks does to a worker. -/
def WorkerTasks.record (type : TaskType) (worker : WorkerTasks τ) (task : τ) : WorkerTasks τ :=
  ((worker.append type task).count type).countTotal

/-- A worker with given lists, each counted. -/
def WorkerTasks.of (lists : TaskType → List τ) : WorkerTasks τ where
  activeTasks := lists .activeTasks
  scheduledTasks := lists .scheduledTasks
  pendingTasks := lists .pendingTasks
  activeTasksCount := (lists .activeTasks).length
  pendingTasksCount := (lists .pendingTasks).length
  scheduledTasksCount := (lists .scheduledTasks).length
  totalTasksCount := (lists .activeTasks).length + (lists .scheduledTasks).length + (lists .pendingTasks).length

variable {type : TaskType} {workerType workerName : String} {data : Data τ}

theorem record_of (lists : TaskType → List τ) (task : τ) :
    (WorkerTasks.of lists).record type task = .of (Function.update lists type (lists type ++ [task])) := by
  cases type <;> simp [WorkerTasks.record,WorkerTasks.append,WorkerTasks.count,WorkerTasks.countTotal,WorkerTasks.of] <;> omega

theorem records_of (lists : TaskType → List τ) (tasks : List τ) :
    tasks.foldl (WorkerTasks.record type) (.of lists) = .of (Function.update lists type (lists type ++ tasks)) := by
  induction tasks generalizing lists with
  | nil => rw [List.foldl_nil,List.append_nil,Function.update_eq_self]
  | cons task rest ih =>
    rw [List.foldl_cons,record_of,ih,Function.update_self,Function.update_idem,List.append_assoc,List.singleton_append]

theorem gatherTask_put (worker : WorkerTasks τ) (task : τ) :
    (gatherTask type workerType workerName task).run (put workerType workerName worker data) =
      .ok () (put workerType workerName (worker.record type task) data) := by
  unfold gatherTask
  refine (bind_run (changeWorker_put _)).trans ?_
  refine (bind_run (changeWorker_put _)).trans ?_
  exact changeWorker_put _

theorem gatherTasks_put (worker : WorkerTasks τ) (tasks : List τ) :
    (forEach (gatherTask type workerType workerName) tasks).run (put workerType workerName worker data) =
      .ok () (put workerType workerName (tasks.foldl (WorkerTasks.record type) worker) data) := by
  induction tasks generalizing worker with
  | nil => rfl
  | cons task rest ih =>
    unfold forEach
    refine (bind_run (gatherTask_put worker task)).trans ?_
    exact ih (worker.record type task)

end tasks

section names
variable {workerType workerName name : String}

/-- `type@host` -/
def fullName (workerType workerName : String) : String := workerType ++ String.singleton '@' ++ workerName

/-- The name has exactly one `@`. -/
def Named (name : String) : Prop := name.toList.count '@' = 1

instance (name : String) : Decidable (Named name) := inferInstanceAs (Decidable (_ = _))

theorem Named.parts (named : Named name) : ∃ workerType workerName, split '@' name = [workerType,workerName] := by
  have two : (split '@' name).length = 2 := by rw [length_split,named]
  exact List.length_eq_two.mp two

theorem fullName_eq_iff (parts : split '@' name = [workerType,workerName]) (otherType otherName : String) :
    name = fullName otherType otherName ↔ otherType = workerType ∧ otherName = workerName := by
  constructor
  · intro same
    rw [same,fullName,split_separator] at parts
    obtain ⟨first,rest,some_part⟩ := List.exists_cons_of_ne_nil (split_ne_nil '@' otherType)
    obtain ⟨second,more,another⟩ := List.exists_cons_of_ne_nil (split_ne_nil '@' otherName)
    rw [some_part,another] at parts
    cases rest with
    | nil =>
      rw [List.singleton_append] at parts
      obtain ⟨front,back⟩ := List.cons.inj parts
      constructor
      · rw [← join_split '@' otherType,some_part,join_singleton,front]
      · rw [← join_split '@' otherName,another,back,join_singleton]
    | cons third others => simp at parts
  · rintro ⟨rfl,rfl⟩
    have joined := join_concat (List.cons_ne_nil otherType []) '@' otherName
    rw [join_singleton] at joined
    rw [← join_split '@' name,parts]
    exact joined

end names

/-- What one entry of one reply says. -/
structure Report (τ : Type) where
  type : TaskType
  name : String
  tasks : List τ

section reports

/-- The tasks of one type that the reports list for a worker. -/
def listed (reports : List (Report τ)) (name : String) (type : TaskType) : List τ :=
  (reports.filter (fun report => report.name = name ∧ report.type = type)).flatMap Report.tasks

/-- Some report is about the worker. -/
def Reported (reports : List (Report τ)) (name : String) : Prop := ∃ report ∈ reports, report.name = name

instance (reports : List (Report τ)) (name : String) : Decidable (Reported reports name) :=
  inferInstanceAs (Decidable (∃ _ ∈ _, _))

/-- The data after one more report. -/
def extended (data : Data τ) (report : Report τ) : Data τ := match unpack (split '@' report.name) with
  | .ok (workerType,workerName) => put workerType workerName
      (report.tasks.foldl (WorkerTasks.record report.type) ((entry workerType workerName data).getD .fresh)) data
  | .error _ => data

/-- The data tell of the reported workers and of no other, with their lists and counts. -/
structure Tells (reports : List (Report τ)) (data : Data τ) : Prop where
  worker : ∀ workerType workerName, entry workerType workerName data =
    if Reported reports (fullName workerType workerName) then some (.of (listed reports (fullName workerType workerName)))
    else none
  type : ∀ workerType, (data.get? workerType).isSome = true ↔ ∃ workerName, Reported reports (fullName workerType workerName)

variable {reports : List (Report τ)} {report : Report τ} {data : Data τ} {name : String}

theorem reported_concat : Reported (reports ++ [report]) name ↔ Reported reports name ∨ report.name = name := by
  simp [Reported,or_and_right,exists_or]

theorem listed_unreported (absent : ¬Reported reports name) (type : TaskType) : listed reports name type = [] := by
  have none_left : reports.filter (fun report => report.name = name ∧ report.type = type) = [] := by
    refine List.filter_eq_nil_iff.mpr fun report member about => ?_
    exact absent ⟨report,member,(of_decide_eq_true about).1⟩
  rw [listed,none_left,List.flatMap_nil]

theorem listed_concat_self : listed (reports ++ [report]) report.name =
    Function.update (listed reports report.name) report.type (listed reports report.name report.type ++ report.tasks) := by
  funext type
  rw [listed,List.filter_append,List.flatMap_append]
  by_cases same : report.type = type
  · subst same
    simp [listed]
  · simp [listed,same,Ne.symm same]

theorem listed_concat_of_ne (apart : report.name ≠ name) : listed (reports ++ [report]) name = listed reports name := by
  funext type
  rw [listed,List.filter_append,List.flatMap_append]
  simp [listed,apart]

theorem fresh_of : (WorkerTasks.fresh : WorkerTasks τ) = .of (fun _ => []) := rfl

theorem extended_tells (tells : Tells reports data) (named : Named report.name) :
    Tells (reports ++ [report]) (extended data report) := by
  obtain ⟨workerType,workerName,parts⟩ := named.parts
  have own : report.name = fullName workerType workerName := (fullName_eq_iff parts _ _).mpr ⟨rfl,rfl⟩
  have before : (entry workerType workerName data).getD .fresh = .of (listed reports report.name) := by
    rw [tells.worker,← own]
    split
    · rfl
    next absent => rw [Option.getD_none,fresh_of,funext (listed_unreported absent)]
  have step : extended data report = put workerType workerName (.of (listed (reports ++ [report]) report.name)) data := by
    rw [extended,parts,listed_concat_self,← records_of,← before]
    rfl
  rw [step]
  constructor
  · intro otherType otherName
    rw [entry_put,tells.worker]
    by_cases same : otherType = workerType ∧ otherName = workerName
    · obtain ⟨rfl,rfl⟩ := same
      rw [if_pos ⟨rfl,rfl⟩,if_pos (reported_concat.mpr (.inr own)),own]
    · have apart : report.name ≠ fullName otherType otherName := fun equal =>
        same ((fullName_eq_iff parts otherType otherName).mp equal)
      rw [if_neg same,listed_concat_of_ne apart]
      simp only [reported_concat,apart,or_false]
  · intro otherType
    rw [put,Dict.get?_set]
    by_cases same : otherType = workerType
    · subst same
      rw [if_pos rfl]
      exact iff_of_true rfl ⟨workerName,reported_concat.mpr (.inr own)⟩
    · rw [if_neg same,tells.type]
      refine exists_congr fun otherName => ?_
      have apart : report.name ≠ fullName otherType otherName := fun equal =>
        same ((fullName_eq_iff parts otherType otherName).mp equal).1
      simp only [reported_concat,apart,or_false]

theorem empty_tells : Tells ([] : List (Report τ)) .empty := by
  constructor
  · intro workerType workerName
    rw [if_neg (fun reported => absurd reported.choose_spec.1 List.not_mem_nil)]
    rfl
  · intro workerType
    exact iff_of_false Bool.false_ne_true fun reported => absurd reported.choose_spec.choose_spec.1 List.not_mem_nil

theorem reports_tell (named : ∀ report ∈ reports, Named report.name) :
    Tells reports (reports.foldl extended .empty) := by
  induction reports using List.reverseRecOn with
  | nil => exact empty_tells
  | append_singleton reports report ih =>
    rw [List.foldl_concat]
    exact extended_tells (ih fun other member => named other (List.mem_append_left _ member))
      (named report (List.mem_append_right _ List.mem_cons_self))

theorem gatherWorker_run (type : TaskType) (item : String × List τ) (named : Named item.1) :
    (gatherWorker type item).run data = .ok () (extended data ⟨type,item.1,item.2⟩) := by
  obtain ⟨workerType,workerName,parts⟩ := named.parts
  have unpacked : unpack (split '@' item.1) = .ok (workerType,workerName) := by
    rw [parts]
    rfl
  unfold gatherWorker
  refine (bind_run (attempt_ok unpacked)).trans ?_
  refine (bind_run addWorker_run).trans ?_
  refine (gatherTasks_put _ _).trans ?_
  rw [extended,unpacked]

end reports

section replies
variable {active scheduled pending : Option (Reply τ)} {workerType workerName name : String}

/-- The entries of the replies in the order of the loops. -/
def reportsOf (active scheduled pending : Option (Reply τ)) : List (Report τ) := taskTypes.flatMap fun type =>
  (tasksData active scheduled pending type).items.map fun item => ⟨type,item.1,item.2⟩

/-- The worker occurs in some reply. -/
def Occurs (active scheduled pending : Option (Reply τ)) (name : String) : Prop :=
  ∃ type, name ∈ (tasksData active scheduled pending type).keys

theorem mem_taskTypes (type : TaskType) : type ∈ taskTypes := by cases type <;> decide

theorem mem_reportsOf {report : Report τ} : report ∈ reportsOf active scheduled pending ↔
    (report.name,report.tasks) ∈ (tasksData active scheduled pending report.type).items := by
  rw [reportsOf,List.mem_flatMap]
  constructor
  · rintro ⟨type,_,member⟩
    obtain ⟨item,there,rfl⟩ := List.mem_map.mp member
    exact there
  · intro member
    exact ⟨report.type,mem_taskTypes _,List.mem_map.mpr ⟨_,member,rfl⟩⟩

theorem reported_reportsOf : Reported (reportsOf active scheduled pending) name ↔ Occurs active scheduled pending name := by
  constructor
  · rintro ⟨report,member,rfl⟩
    exact ⟨report.type,List.mem_map.mpr ⟨_,mem_reportsOf.mp member,rfl⟩⟩
  · rintro ⟨type,member⟩
    obtain ⟨item,there,rfl⟩ := List.mem_map.mp member
    exact ⟨⟨type,item.1,item.2⟩,mem_reportsOf.mpr there,rfl⟩

theorem listed_append (first second : List (Report τ)) (type : TaskType) :
    listed (first ++ second) name type = listed first name type ++ listed second name type := by
  rw [listed,List.filter_append,List.flatMap_append]
  rfl

theorem listed_reply (reply : Reply τ) (own type : TaskType) :
    listed (reply.items.map fun item => ⟨own,item.1,item.2⟩) name type =
      if own = type then (reply.get? name).getD [] else [] := by
  rw [listed,List.filter_map,List.flatMap_map]
  by_cases same : own = type
  · have kept : ((fun report : Report τ => decide (report.name = name ∧ report.type = type)) ∘
        fun item : String × List τ => ⟨own,item.1,item.2⟩) = fun item => decide (item.1 = name) := by
      funext item
      simp [same]
    rw [if_pos same,kept,Dict.filter_items]
    cases reply.get? name with
    | none => rfl
    | some tasks => exact List.append_nil tasks
  · have dropped : ((fun report : Report τ => decide (report.name = name ∧ report.type = type)) ∘
        fun item : String × List τ => ⟨own,item.1,item.2⟩) = fun _ => false := by
      funext item
      simp [same]
    rw [if_neg same,dropped,List.filter_false]
    rfl

/-- The loops meet the list of a worker once. -/
theorem listed_reportsOf (type : TaskType) : listed (reportsOf active scheduled pending) name type =
    ((tasksData active scheduled pending type).get? name).getD [] := by
  unfold reportsOf taskTypes
  simp only [List.flatMap_cons,List.flatMap_nil,listed_append,listed_reply]
  cases type <;> simp [listed]

theorem gather_run (named : ∀ name, Occurs active scheduled pending name → Named name) :
    (gather ⟨.ok active,.ok scheduled,.ok pending⟩).run .empty =
      .ok () ((reportsOf active scheduled pending).foldl extended .empty) := by
  have round : ∀ type ∈ taskTypes, ∀ data : Data τ,
      (forEach (gatherWorker type) (tasksData active scheduled pending type).items).run data =
        .ok () ((tasksData active scheduled pending type).items.foldl (fun data item => extended data ⟨type,item.1,item.2⟩) data) :=
    fun type _ data => forEach_run fun item member state =>
      gatherWorker_run type item (named item.1 ⟨type,List.mem_map.mpr ⟨item,member,rfl⟩⟩)
  unfold gather
  refine (bind_run (attempt_ok rfl)).trans ?_
  refine (bind_run (attempt_ok rfl)).trans ?_
  refine (bind_run (attempt_ok rfl)).trans ?_
  refine (forEach_run round).trans ?_
  rw [reportsOf,List.foldl_flatMap]
  simp only [List.foldl_map]

/-- The tasks that a reply lists for a worker. -/
def listOf (reply : Option (Reply τ)) (name : String) : List τ := ((reply.getD .empty).get? name).getD []

/-- The replies have the worker. -/
def Replied (active scheduled pending : Option (Reply τ)) (name : String) : Prop :=
  name ∈ (active.getD .empty).keys ∨ name ∈ (scheduled.getD .empty).keys ∨ name ∈ (pending.getD .empty).keys

instance (active scheduled pending : Option (Reply τ)) (name : String) : Decidable (Replied active scheduled pending name) :=
  inferInstanceAs (Decidable (_ ∨ _ ∨ _))

/-- The data have an entry for exactly the workers of the replies, with their lists and the lengths of these. -/
structure CountsOnce (active scheduled pending : Option (Reply τ)) (data : Data τ) : Prop where
  types : ∀ workerType, workerType ∈ data.keys ↔
    ∃ workerName, Replied active scheduled pending (fullName workerType workerName)
  workers : ∀ workerType workerName, (entry workerType workerName data).isSome = true ↔
    Replied active scheduled pending (fullName workerType workerName)
  lists : ∀ workerType workerName worker, entry workerType workerName data = some worker →
    worker.activeTasks = listOf active (fullName workerType workerName) ∧
    worker.scheduledTasks = listOf scheduled (fullName workerType workerName) ∧
    worker.pendingTasks = listOf pending (fullName workerType workerName)
  counts : ∀ workerType workerName worker, entry workerType workerName data = some worker →
    worker.activeTasksCount = worker.activeTasks.length ∧
    worker.scheduledTasksCount = worker.scheduledTasks.length ∧
    worker.pendingTasksCount = worker.pendingTasks.length ∧
    worker.totalTasksCount = worker.activeTasksCount + worker.scheduledTasksCount + worker.pendingTasksCount

theorem occurs_iff_replied : Occurs active scheduled pending name ↔ Replied active scheduled pending name := by
  constructor
  · rintro ⟨type,member⟩
    cases type with
    | activeTasks => exact .inl member
    | scheduledTasks => exact .inr (.inl member)
    | pendingTasks => exact .inr (.inr member)
  · rintro (member | member | member)
    · exact ⟨.activeTasks,member⟩
    · exact ⟨.scheduledTasks,member⟩
    · exact ⟨.pendingTasks,member⟩

theorem Tells.countsOnce {data : Data τ} (tells : Tells (reportsOf active scheduled pending) data) :
    CountsOnce active scheduled pending data := by
  have kept : ∀ workerType workerName worker, entry workerType workerName data = some worker →
      worker = .of (listed (reportsOf active scheduled pending) (fullName workerType workerName)) := by
    intro workerType workerName worker found
    rw [tells.worker] at found
    split at found
    · exact (Option.some.inj found).symm
    · cases found
  constructor
  · intro workerType
    rw [Dict.mem_keys,tells.type]
    exact exists_congr fun workerName => reported_reportsOf.trans occurs_iff_replied
  · intro workerType workerName
    rw [tells.worker,← occurs_iff_replied,← reported_reportsOf]
    split
    next reported => exact iff_of_true rfl reported
    next absent => exact iff_of_false Bool.false_ne_true absent
  · intro workerType workerName worker found
    rw [kept workerType workerName worker found]
    exact ⟨listed_reportsOf _,listed_reportsOf _,listed_reportsOf _⟩
  · intro workerType workerName worker found
    rw [kept workerType workerName worker found]
    exact ⟨rfl,rfl,rfl,rfl⟩

/-- For all three replies, when every worker is named by a type and a host, each of its tasks is told once. -/
theorem getTasksData_countsOnce (active scheduled pending : Option (Reply τ))
    (named : ∀ name, Replied active scheduled pending name → Named name) :
    CountsOnce active scheduled pending (getTasksData ⟨.ok active,.ok scheduled,.ok pending⟩) := by
  have proper : ∀ name, Occurs active scheduled pending name → Named name := fun name occurs =>
    named name (occurs_iff_replied.mp occurs)
  rw [getTasksData,gather_run proper]
  refine (reports_tell fun report member => ?_).countsOnce
  exact proper report.name (reported_reportsOf.mp ⟨report,member,rfl⟩)

/-- A worker that only prefetches beside one that runs a task and keeps another for later. -/
def workerReplies : List (Reply Nat) :=
  [⟨[("workflow@worker00",[7])],by decide⟩,⟨[("workflow@worker00",[8])],by decide⟩,
    ⟨[("backend@worker01",[9]),("workflow@worker00",[])],by decide⟩]

theorem getTasksData_countsOnce_workers : CountsOnce workerReplies[0]? workerReplies[1]? workerReplies[2]?
    (getTasksData ⟨.ok workerReplies[0]?,.ok workerReplies[1]?,.ok workerReplies[2]?⟩) :=
  getTasksData_countsOnce _ _ _ (by
    rintro name (member | member | member)
    all_goals
      simp only [workerReplies,Dict.keys,List.getElem?_cons_zero,List.getElem?_cons_succ,Option.getD_some,List.map_cons,
        List.map_nil,List.mem_cons,List.not_mem_nil,or_false] at member
    · subst member
      decide
    · subst member
      decide
    · rcases member with rfl | rfl <;> decide)

theorem gatherWorker_returned {type : TaskType} {item : String × List τ} {data after : Data τ}
    (done : (gatherWorker type item).run data = .ok () after) : Named item.1 := by
  obtain ⟨names,unpacked,_⟩ := attempt_bind_returned done
  have two : (split '@' item.1).length = 2 := by
    unfold unpack at unpacked
    split at unpacked
    next parts => rw [parts]; rfl
    · cases unpacked
  rw [length_split] at two
  exact Nat.succ.inj two

theorem gather_returned {data after : Data τ}
    (done : (gather ⟨.ok active,.ok scheduled,.ok pending⟩).run data = .ok () after) :
    ∀ name, Occurs active scheduled pending name → Named name := by
  obtain ⟨_,same,done⟩ := attempt_bind_returned done
  cases same
  obtain ⟨_,same,done⟩ := attempt_bind_returned done
  cases same
  obtain ⟨_,same,done⟩ := attempt_bind_returned done
  cases same
  have rounds : ∀ type ∈ taskTypes, ∀ item ∈ (tasksData active scheduled pending type).items, Named item.1 :=
    forEach_each (fun _ _ _ loop => forEach_each (fun _ _ _ round => gatherWorker_returned round) loop) done
  rintro name ⟨type,member⟩
  obtain ⟨item,there,rfl⟩ := List.mem_map.mp member
  exact rounds type (mem_taskTypes type) item there

/-- One name without exactly one `@` keeps all workers from being told of. -/
theorem getTasksData_malformed (replied : Replied active scheduled pending name) (malformed : ¬Named name) :
    getTasksData ⟨.ok active,.ok scheduled,.ok pending⟩ = .empty := by
  unfold getTasksData
  split
  next ran => exact absurd (gather_returned ran name (occurs_iff_replied.mpr replied)) malformed
  · rfl

end replies

end FinmarsWorkflow.Monitoring
