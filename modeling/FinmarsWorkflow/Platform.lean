import Mathlib.Data.List.Sort
import FinmarsWorkflow.Data

/-! What `Workflow.save` reports to the platform.
The tasks of a workflow come with their creation times, which decide the order
that `first` and `last` go by. -/
namespace FinmarsWorkflow

/-- The body and the address of one `update_task_status` request. -/
structure StatusUpdate where
  platformTaskId : Int
  status : WorkflowStatus
  result : Option Json
  error : Option String

section ordering
variable {τ : Type} [LinearOrder τ]

/-- `Meta.ordering` of the tasks: `["-created_at"]`. -/
def newestFirst (tasks : List (τ × Task)) : List (τ × Task) :=
  tasks.insertionSort (fun one other => other.1 ≤ one.1)

/-- The requests that `save` sends once the row is stored. -/
def Workflow.statusUpdates (self : Workflow) (tasks : List (τ × Task)) : List StatusUpdate :=
  match self.platformTaskId with
  | none => []
  | some platformTaskId =>
    if platformTaskId ≠ 0 && self.status.terminal then
      match (newestFirst (tasks.filter (fun task => task.2.status == .error))).head? with
      | some task => [⟨platformTaskId,self.status,none,task.2.errorMessage⟩]
      | none => match (newestFirst tasks).getLast? with
        | some task => [⟨platformTaskId,self.status,task.2.result,none⟩]
        | none => []
    else []

def Newest (tasks : List (τ × Task)) (task : τ × Task) : Prop :=
  task ∈ tasks ∧ ∀ other ∈ tasks, other.1 ≤ task.1

def Oldest (tasks : List (τ × Task)) (task : τ × Task) : Prop :=
  task ∈ tasks ∧ ∀ other ∈ tasks, task.1 ≤ other.1

def HasError (tasks : List (τ × Task)) : Prop := ∃ task ∈ tasks, task.2.status = .error

/-- One request, with the message of an error task or else the newest result. -/
def Told (platformTaskId : Int) (status : WorkflowStatus) (tasks : List (τ × Task)) (updates : List StatusUpdate) :
    Prop :=
  ∃ update, updates = [update] ∧ update.platformTaskId = platformTaskId ∧ update.status = status ∧
    (HasError tasks → ∃ task ∈ tasks, task.2.status = .error ∧ update.error = task.2.errorMessage) ∧
    (¬ HasError tasks → update.error = none ∧ (tasks = [] → update.result = none) ∧
      ∀ newest, Newest tasks newest → update.result = newest.2.result)

/-- The oldest task ended with the result of the newest one. -/
def SameResult (tasks : List (τ × Task)) : Prop :=
  ∃ oldest newest, Oldest tasks oldest ∧ Newest tasks newest ∧ oldest.2.result = newest.2.result

private theorem newestFirst_pairwise (tasks : List (τ × Task)) :
    (newestFirst tasks).Pairwise (fun one other => other.1 ≤ one.1) := by
  have total : Std.Total (fun one other : τ × Task => other.1 ≤ one.1) := ⟨fun one other => le_total other.1 one.1⟩
  have trans : IsTrans (τ × Task) (fun one other => other.1 ≤ one.1) := ⟨fun _ _ _ first second => second.trans first⟩
  exact List.pairwise_insertionSort _ tasks

private theorem newestFirst_mem {tasks : List (τ × Task)} {task : τ × Task} :
    task ∈ newestFirst tasks ↔ task ∈ tasks := List.mem_insertionSort _

theorem newestFirst_head {tasks : List (τ × Task)} {task : τ × Task}
    (first : (newestFirst tasks).head? = some task) : Newest tasks task := by
  obtain ⟨rest,shape⟩ := List.head?_eq_some_iff.mp first
  have sorted := newestFirst_pairwise tasks
  rw [shape] at sorted
  refine ⟨newestFirst_mem.mp (List.mem_of_head? first),fun other member => ?_⟩
  rcases List.mem_cons.mp (shape ▸ newestFirst_mem.mpr member) with same | later
  · exact le_of_eq (congrArg Prod.fst same)
  · exact List.rel_of_pairwise_cons sorted later

theorem newestFirst_last {tasks : List (τ × Task)} {task : τ × Task}
    (last : (newestFirst tasks).getLast? = some task) : Oldest tasks task := by
  obtain ⟨front,shape⟩ := List.getLast?_eq_some_iff.mp last
  have sorted := newestFirst_pairwise tasks
  rw [shape] at sorted
  refine ⟨newestFirst_mem.mp (List.mem_of_getLast? last),fun other member => ?_⟩
  rcases List.mem_append.mp (shape ▸ newestFirst_mem.mpr member) with earlier | same
  · exact (List.pairwise_append.mp sorted).2.2 other earlier task (List.mem_singleton.mpr rfl)
  · exact le_of_eq (congrArg Prod.fst (List.mem_singleton.mp same).symm)

omit [LinearOrder τ] in
private theorem created_inj {tasks : List (τ × Task)} (distinct : (tasks.map Prod.fst).Nodup) {one other : τ × Task}
    (left : one ∈ tasks) (right : other ∈ tasks) (same : one.1 = other.1) : one = other :=
  List.inj_on_of_nodup_map distinct left right same

theorem Newest.unique {tasks : List (τ × Task)} (distinct : (tasks.map Prod.fst).Nodup) {one other : τ × Task}
    (left : Newest tasks one) (right : Newest tasks other) : one = other :=
  created_inj distinct left.1 right.1 (le_antisymm (right.2 one left.1) (left.2 other right.1))

theorem Oldest.unique {tasks : List (τ × Task)} (distinct : (tasks.map Prod.fst).Nodup) {one other : τ × Task}
    (left : Oldest tasks one) (right : Oldest tasks other) : one = other :=
  created_inj distinct left.1 right.1 (le_antisymm (left.2 other right.1) (right.2 one left.1))

theorem newest_exists {tasks : List (τ × Task)} (some : tasks ≠ []) : ∃ newest, Newest tasks newest := by
  cases first : (newestFirst tasks).head? with
  | none =>
    rw [List.head?_eq_none_iff] at first
    have same := (List.perm_insertionSort (fun one other : τ × Task => other.1 ≤ one.1) tasks).length_eq
    rw [show tasks.insertionSort (fun one other => other.1 ≤ one.1) = [] from first] at same
    exact absurd (List.length_eq_zero_iff.mp same.symm) some
  | some task => exact ⟨task,newestFirst_head first⟩

omit [LinearOrder τ] in
private theorem errorless {tasks : List (τ × Task)} (fine : ¬ HasError tasks) :
    tasks.filter (fun task => task.2.status == .error) = [] := by
  apply List.filter_eq_nil_iff.mpr
  intro task member failed
  exact fine ⟨task,member,eq_of_beq failed⟩

/-- The newest error task is the one whose message is sent. -/
theorem error_reported {tasks : List (τ × Task)} (failed : HasError tasks) :
    ∃ task ∈ tasks, task.2.status = .error ∧
      (newestFirst (tasks.filter (fun task => task.2.status == .error))).head? = some task := by
  cases first : (newestFirst (tasks.filter (fun task => task.2.status == .error))).head? with
  | none =>
    obtain ⟨task,member,status⟩ := failed
    have kept : task ∈ tasks.filter (fun task => task.2.status == .error) :=
      List.mem_filter.mpr ⟨member,beq_iff_eq.mpr status⟩
    have listed := newestFirst_mem.mpr kept
    rw [List.head?_eq_none_iff.mp first] at listed
    cases listed
  | some task =>
    have member := List.mem_filter.mp (newestFirst_head first).1
    exact ⟨task,member.1,eq_of_beq member.2,rfl⟩

/-- Without an error task it is the oldest task whose result is sent. -/
theorem statusUpdates_fine {workflow : Workflow} {platformTaskId : Int}
    (asked : workflow.platformTaskId = some platformTaskId) (ended : workflow.status.terminal = true)
    (counted : platformTaskId ≠ 0) {tasks : List (τ × Task)} (fine : ¬ HasError tasks) :
    workflow.statusUpdates tasks = ((newestFirst tasks).getLast?.map
      (fun task => (⟨platformTaskId,workflow.status,task.2.result,none⟩ : StatusUpdate))).toList := by
  simp only [Workflow.statusUpdates,asked,ended,decide_eq_true counted,Bool.and_self,if_true,errorless fine]
  cases (newestFirst tasks).getLast? <;> rfl

theorem statusUpdates_failed {workflow : Workflow} {platformTaskId : Int}
    (asked : workflow.platformTaskId = some platformTaskId) (ended : workflow.status.terminal = true)
    (counted : platformTaskId ≠ 0) {tasks : List (τ × Task)} (failed : HasError tasks) :
    ∃ task ∈ tasks, task.2.status = .error ∧
      workflow.statusUpdates tasks = [⟨platformTaskId,workflow.status,none,task.2.errorMessage⟩] := by
  obtain ⟨task,member,status,first⟩ := error_reported failed
  refine ⟨task,member,status,?_⟩
  simp only [Workflow.statusUpdates,asked,ended,decide_eq_true counted,Bool.and_self,if_true,first]

/-- The platform is told what happened exactly when its id is not 0 and there is
an error task, or the oldest task ended with the newest result. -/
theorem told_iff {workflow : Workflow} {platformTaskId : Int} (asked : workflow.platformTaskId = some platformTaskId)
    (ended : workflow.status.terminal = true) {tasks : List (τ × Task)} (distinct : (tasks.map Prod.fst).Nodup) :
    Told platformTaskId workflow.status tasks (workflow.statusUpdates tasks) ↔
      platformTaskId ≠ 0 ∧ (HasError tasks ∨ SameResult tasks) := by
  by_cases counted : platformTaskId = 0
  · subst counted
    have silent : workflow.statusUpdates tasks = [] := by simp [Workflow.statusUpdates,asked]
    rw [silent]
    constructor
    · intro told
      obtain ⟨update,sent,_⟩ := told
      cases sent
    · intro holds
      exact absurd rfl holds.1
  by_cases failed : HasError tasks
  · refine ⟨fun _ => ⟨counted,.inl failed⟩,fun _ => ?_⟩
    obtain ⟨task,member,status,sent⟩ := statusUpdates_failed asked ended counted failed
    exact ⟨_,sent,rfl,rfl,fun _ => ⟨task,member,status,rfl⟩,fun fine => absurd failed fine⟩
  have sent := statusUpdates_fine asked ended counted failed
  constructor
  · intro told
    obtain ⟨update,single,_,_,_,results⟩ := told
    rw [single] at sent
    cases last : (newestFirst tasks).getLast? with
    | none => simp [last] at sent
    | some oldest =>
      simp only [last,Option.map_some,Option.toList_some,List.cons.injEq,and_true] at sent
      have first := newestFirst_last last
      obtain ⟨newest,latest⟩ := newest_exists (List.ne_nil_of_mem first.1)
      have agrees := (results failed).2.2 newest latest
      rw [sent] at agrees
      exact ⟨counted,.inr ⟨oldest,newest,first,latest,agrees⟩⟩
  · intro holds
    rcases holds.2 with again | ⟨oldest,newest,first,latest,agrees⟩
    · exact absurd again failed
    cases last : (newestFirst tasks).getLast? with
    | none =>
      rw [List.getLast?_eq_none_iff] at last
      have listed := newestFirst_mem.mpr first.1
      rw [last] at listed
      cases listed
    | some found =>
      cases (newestFirst_last last).unique distinct first
      rw [last] at sent
      refine ⟨_,sent,rfl,rfl,fun again => absurd again failed,fun _ => ⟨rfl,?_,?_⟩⟩
      · intro empty
        rw [empty] at first
        cases first.1
      · intro other greatest
        rw [greatest.unique distinct latest]
        exact agrees

end ordering

/-- A workflow that the platform waits for. -/
def awaitedWorkflow : Workflow :=
  { status := .success, workflowTemplate := none, currentNodeId := none, lastTaskOutput := none, nodeId := none,
    userCode := "space00000.wf", payload := .obj [], platformTaskId := some 7, space := 0, finishedAt := true,
    parent := none }

def endedTask (result : Json) : Task :=
  { workflow := 0, nodeId := none, celeryTaskId := 0, name := "task", sourceCode := none, status := .success,
    workerName := none, payload := none, result := some result, progress := none, log := none,
    errorMessage := none, finishedAt := true, space := 0 }

/-- The result of the first task is sent, not that of the last one. -/
theorem oldest_told : ¬ Told 7 .success [(1,endedTask (.num 1)),(2,endedTask (.num 2))]
    (awaitedWorkflow.statusUpdates [(1,endedTask (.num 1)),(2,endedTask (.num 2))]) := by
  have first : awaitedWorkflow.statusUpdates [(1,endedTask (.num 1)),(2,endedTask (.num 2))] =
      [⟨7,.success,some (.num 1),none⟩] := rfl
  rw [first]
  intro told
  obtain ⟨update,sent,_,_,_,results⟩ := told
  cases sent
  have fine : ¬ HasError [(1,endedTask (.num 1)),(2,endedTask (.num 2))] := by simp [HasError,endedTask]
  have latest : Newest [(1,endedTask (.num 1)),(2,endedTask (.num 2))] (2,endedTask (.num 2)) := by simp [Newest]
  have agrees := (results fine).2.2 _ latest
  simp [endedTask] at agrees

/-- Three tasks, listed out of their order, of which the oldest has the result of the newest. -/
def endedTasks : List (Nat × Task) := [(2,endedTask (.num 2)),(3,endedTask (.num 1)),(1,endedTask (.num 1))]

theorem equal_ends_told : Told 7 .success endedTasks (awaitedWorkflow.statusUpdates endedTasks) :=
  (told_iff rfl rfl (by simp [endedTasks])).mpr ⟨by decide,.inr
    ⟨(1,endedTask (.num 1)),(3,endedTask (.num 1)),by simp [Oldest,endedTasks],by simp [Newest,endedTasks],rfl⟩⟩

end FinmarsWorkflow
