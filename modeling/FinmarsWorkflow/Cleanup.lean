import FinmarsWorkflow.Requests
import FinmarsWorkflow.Python.Effects

/-! Cleaning up after a worker that starts again.
`cancel_all_existing_tasks` cancels the workflows that it finds through tasks of the worker, and
then the tasks of the worker that are left. The two sweeps select different statuses, so a
workflow that is paused, or that waits for a nested one, stays as it was. -/
namespace FinmarsWorkflow.Cleanup
open Python

/-- The tenant schema as the clean-up alone uses it; what was saved before an exception stays saved. -/
abbrev Cleaning (α : Type) := EStateM Error Db α

def saveTask (id : TaskId) (row : Task) : Cleaning Unit := modify fun db => {db with tasks := db.tasks.set id row}

def saveWorkflow (id : WorkflowId) (row : Workflow) : Cleaning Unit :=
  modify fun db => {db with workflows := db.workflows.set id row}

/-- A task with its new status and the time of its end. -/
def cancelled (task : Task) : Task := {task with status := .canceled,finishedAt := true}

section cleanup
variable (revoke : CeleryId → Except Error Unit)

/-- One round of `Workflow.cancel`. -/
def cancelTask (entry : TaskId × Task) : Cleaning Unit := do
  if entry.2.status.cancellable then
    attempt (revoke entry.2.celeryTaskId)
    saveTask entry.1 (cancelled entry.2)

/-- `Workflow.cancel` on a row that was loaded before. -/
def cancel (entry : Workflow × WorkflowId) : Cleaning Unit := do
  let db ← get
  forEach (cancelTask revoke) (db.tasksOf entry.2)
  saveWorkflow entry.2 {entry.1 with status := .canceled}

/-- One round of the second sweep, where a broker that raises is only logged. -/
def cancelLeft (entry : Task × TaskId) : Cleaning Unit := do
  try attempt (revoke entry.1.celeryTaskId)
  catch _ => pure ()
  saveTask entry.2 (cancelled entry.1)

def running (status : TaskStatus) : Bool := status == .progress || status == .init

/-- The workflows that own a task of the worker which runs or is about to. -/
def workflowIds (worker : String) (db : Db) : List WorkflowId :=
  (db.tasks.filter (fun task => running task.status && task.workerName == some worker)).map Task.workflow

def workflowsToCancel (worker : String) (db : Db) : List (Workflow × WorkflowId) :=
  db.workflows.zipIdx.filter (fun entry => (entry.1.status == .progress || entry.1.status == .init) &&
    (workflowIds worker db).contains entry.2)

def tasksLeft (worker : String) (db : Db) : List (Task × TaskId) :=
  db.tasks.zipIdx.filter (fun entry => entry.1.status.cancellable && entry.1.workerName == some worker)

/-- `cancel_all_existing_tasks` -/
def cancelAllExistingTasks (worker : String) : Cleaning Unit := do
  let db ← get
  forEach (cancel revoke) (workflowsToCancel worker db)
  let db ← get
  forEach (cancelLeft revoke) (tasksLeft worker db)

end cleanup

/-- A row of the chosen ones, cancelled if it can be. -/
def cancelledIf (chosen : Task → Bool) (row : Task) : Task :=
  if chosen row && row.status.cancellable then cancelled row else row

/-- A workflow of the chosen ones, cancelled whatever its status. -/
def closedIf (chosen : WorkflowId → Bool) (id : WorkflowId) (row : Workflow) : Workflow :=
  if chosen id then {row with status := .canceled} else row

/-- What a clean-up has done: the chosen rows are cancelled, and the others are as they were. -/
structure Cancels (tasks : Task → Bool) (workflows : WorkflowId → Bool) (before after : Db) : Prop where
  tasks : ∀ id : TaskId, after.tasks[id]? = (before.tasks[id]?).map (cancelledIf tasks)
  workflows : ∀ id : WorkflowId, after.workflows[id]? = (before.workflows[id]?).map (closedIf workflows id)

section sweeps
variable {revoke : CeleryId → Except Error Unit} {before middle after : Db} {id : WorkflowId} {row : Workflow} {worker : String}

theorem mem_tasksOf_iff {workflow : WorkflowId} {task : TaskId} {found : Task} :
    (task,found) ∈ before.tasksOf workflow ↔ before.tasks[task]? = some found ∧ found.workflow = workflow := by
  simp only [Db.tasksOf,List.mem_map,List.mem_reverse,List.mem_filter,Prod.mk.injEq]
  constructor
  · rintro ⟨entry,⟨inside,fits⟩,rfl,rfl⟩
    exact ⟨List.mem_zipIdx_iff_getElem?.mp inside,by simpa using fits⟩
  · rintro ⟨stored,owner⟩
    exact ⟨(found,task),⟨List.mk_mem_zipIdx_iff_getElem?.mpr stored,by simp [owner]⟩,rfl,rfl⟩

/-- Saving rows one after the other: the rows saved so far hold their new value, the others the old one. -/
structure Saved (change : Task → Task) (past : List TaskId) (before after : Db) : Prop where
  tasks : ∀ task : TaskId, after.tasks[task]? = (before.tasks[task]?).map (fun found => if task ∈ past then change found else found)
  workflows : after.workflows = before.workflows

theorem Saved.start (change : Task → Task) (before : Db) : Saved change [] before before := ⟨fun _ => by simp,rfl⟩

theorem Saved.next {change : Task → Task} {past : List TaskId} (saved : Saved change past before middle) {task : TaskId} {found : Task}
    (there : before.tasks[task]? = some found) :
    Saved change (past ++ [task]) before {middle with tasks := middle.tasks.set task (change found)} := by
  refine ⟨fun other => ?_,saved.workflows⟩
  by_cases same : task = other
  · subst same
    have bound : task < middle.tasks.length := by
      have held := saved.tasks task
      rw [there] at held
      exact (List.getElem?_eq_some_iff.mp held).1
    rw [List.getElem?_set_self bound,there]
    simp
  · rw [List.getElem?_set_ne same,saved.tasks other]
    simp [Ne.symm same]

/-- A row that a round leaves alone is one that the change leaves alone. -/
theorem Saved.skip {change : Task → Task} {past : List TaskId} (saved : Saved change past before middle) {task : TaskId} {found : Task}
    (there : before.tasks[task]? = some found) (same : change found = found) :
    Saved change (past ++ [task]) before middle := by
  refine ⟨fun other => ?_,saved.workflows⟩
  rw [saved.tasks other]
  by_cases equal : other = task
  · subst equal
    rw [there]
    simp [same]
  · simp [equal]

theorem cancelTasks_saved (ran : (forEach (cancelTask revoke) (before.tasksOf id)).run before = .ok () after) :
    Saved (cancelledIf fun _ => true) ((before.tasksOf id).map Prod.fst) before after := by
  refine forEach_returned (fun past db => Saved (cancelledIf fun _ => true) (past.map Prod.fst) before db) ?_
    (Saved.start _ before) ran
  intro past entry db last among saved round
  obtain ⟨task,found⟩ := entry
  have there := (mem_tasksOf_iff.mp among).1
  rw [List.map_append]
  unfold cancelTask at round
  cases able : found.status.cancellable with
  | true =>
    rw [if_pos able] at round
    obtain ⟨_,_,ended⟩ := attempt_bind_returned round
    cases ended
    have change : cancelledIf (fun _ => true) found = cancelled found := by simp [cancelledIf,able]
    have next := saved.next there
    rw [change] at next
    exact next
  | false =>
    rw [if_neg (by rw [able]; exact Bool.false_ne_true)] at round
    cases round
    exact saved.skip there (by simp [cancelledIf,able])

theorem cancelledIf_workflow (chosen : Task → Bool) (found : Task) : (cancelledIf chosen found).workflow = found.workflow := by
  unfold cancelledIf
  split <;> rfl

theorem cancelledIf_workerName (chosen : Task → Bool) (found : Task) :
    (cancelledIf chosen found).workerName = found.workerName := by
  unfold cancelledIf
  split <;> rfl

/-- Choosing more tasks is cancelling the first and then the others. -/
theorem cancelledIf_or (first second : Task → Bool) (found : Task) :
    cancelledIf (fun row => first row || second row) found =
      if second found then cancelledIf (fun _ => true) (cancelledIf first found) else cancelledIf first found := by
  have idle : (cancelled found).status.cancellable = false := rfl
  cases one : first found <;> cases two : second found <;> cases able : found.status.cancellable <;>
    simp [cancelledIf,one,two,able,idle]

/-- The workflows of the entries that a loop has passed. -/
def passed (past : List (Workflow × WorkflowId)) (id : WorkflowId) : Bool := past.any (fun entry => entry.2 == id)

theorem cancel_cancels {past : List (Workflow × WorkflowId)}
    (cancels : Cancels (fun task => passed past task.workflow) (passed past) before middle)
    (there : before.workflows[id]? = some row) (ran : (cancel revoke (row,id)).run middle = .ok () after) :
    Cancels (fun task => passed (past ++ [(row,id)]) task.workflow) (passed (past ++ [(row,id)])) before after := by
  have passes : passed (past ++ [(row,id)]) = fun other => passed past other || id == other := by
    funext other
    simp [passed]
  obtain ⟨_,_,loaded,ran⟩ := bind_returned ran
  cases loaded
  obtain ⟨_,last,loop,ended⟩ := bind_returned ran
  cases ended
  have saved := cancelTasks_saved loop
  rw [passes]
  constructor
  · intro task
    rw [saved.tasks task,cancels.tasks task]
    cases stored : before.tasks[task]? with
    | none => rfl
    | some found =>
      simp only [Option.map_some,Option.some.injEq]
      have held : middle.tasks[task]? = some (cancelledIf (fun row => passed past row.workflow) found) := by
        rw [cancels.tasks task,stored]
        rfl
      have among : task ∈ (middle.tasksOf id).map Prod.fst ↔ found.workflow = id := by
        rw [List.mem_map]
        constructor
        · rintro ⟨⟨_,other⟩,inside,rfl⟩
          obtain ⟨same,owner⟩ := mem_tasksOf_iff.mp inside
          obtain rfl := Option.some.inj (held.symm.trans same)
          rwa [cancelledIf_workflow] at owner
        · intro owner
          exact ⟨(task,_),mem_tasksOf_iff.mpr ⟨held,(cancelledIf_workflow _ _).trans owner⟩,rfl⟩
      rw [cancelledIf_or]
      by_cases owner : found.workflow = id
      · rw [if_pos (among.mpr owner),if_pos (by simp [owner])]
      · rw [if_neg (fun inside => owner (among.mp inside)),if_neg (by simp [Ne.symm owner])]
  · intro other
    change (last.workflows.set id {row with status := .canceled})[other]? = _
    rw [saved.workflows]
    by_cases same : id = other
    · subst same
      have bound : id < middle.workflows.length := by
        have held := cancels.workflows id
        rw [there] at held
        exact (List.getElem?_eq_some_iff.mp held).1
      rw [List.getElem?_set_self bound,there]
      simp [closedIf]
    · rw [List.getElem?_set_ne same,cancels.workflows other]
      cases before.workflows[other]? with
      | none => rfl
      | some found => simp [closedIf,same]

theorem workflows_cancelled
    (ran : (forEach (cancel revoke) (workflowsToCancel worker before)).run before = .ok () after) :
    Cancels (fun task => passed (workflowsToCancel worker before) task.workflow) (passed (workflowsToCancel worker before))
      before after := by
  refine forEach_returned (fun past db => Cancels (fun task => passed past task.workflow) (passed past) before db) ?_ ?_ ran
  · intro past entry db last among cancels round
    obtain ⟨row,id⟩ := entry
    exact cancel_cancels cancels (List.mem_zipIdx_iff_getElem?.mp (List.mem_filter.mp among).1) round
  · constructor
    · intro task
      cases before.tasks[task]? <;> rfl
    · intro id
      cases before.workflows[id]? <;> rfl

/-- The broker makes no difference to the second sweep. -/
theorem cancelLeft_run (entry : Task × TaskId) (db : Db) : (cancelLeft revoke entry).run db =
    .ok () {db with tasks := db.tasks.set entry.2 (cancelled entry.1)} := by
  unfold cancelLeft
  cases revoke entry.1.celeryTaskId <;> rfl

theorem tasksLeft_cancelled (ran : (forEach (cancelLeft revoke) (tasksLeft worker before)).run before = .ok () after) :
    Cancels (fun task => task.workerName == some worker) (fun _ => false) before after := by
  have saved : Saved (cancelledIf fun _ => true) ((tasksLeft worker before).map Prod.snd) before after := by
    refine forEach_returned (fun past db => Saved (cancelledIf fun _ => true) (past.map Prod.snd) before db) ?_
      (Saved.start _ before) ran
    intro past entry db last among saved round
    obtain ⟨found,task⟩ := entry
    obtain ⟨inside,chosen⟩ := List.mem_filter.mp among
    have there : before.tasks[task]? = some found := List.mem_zipIdx_iff_getElem?.mp inside
    rw [List.map_append]
    have change : cancelledIf (fun _ => true) found = cancelled found := by
      unfold cancelledIf
      rw [if_pos (by simpa using (Bool.and_eq_true_iff.mp chosen).1)]
    have next := saved.next there
    rw [change] at next
    rw [cancelLeft_run] at round
    cases round
    exact next
  constructor
  · intro task
    rw [saved.tasks task]
    cases stored : before.tasks[task]? with
    | none => rfl
    | some found =>
      simp only [Option.map_some,Option.some.injEq]
      have among : task ∈ (tasksLeft worker before).map Prod.snd ↔
          (found.status.cancellable && found.workerName == some worker) = true := by
        rw [List.mem_map]
        constructor
        · rintro ⟨⟨other,_⟩,inside,rfl⟩
          obtain ⟨same,chosen⟩ := List.mem_filter.mp inside
          obtain rfl := Option.some.inj (stored.symm.trans (List.mem_zipIdx_iff_getElem?.mp same))
          exact chosen
        · intro chosen
          exact ⟨(found,task),List.mem_filter.mpr ⟨List.mk_mem_zipIdx_iff_getElem?.mpr stored,chosen⟩,rfl⟩
      unfold cancelledIf
      by_cases chosen : (found.status.cancellable && found.workerName == some worker) = true
      · rw [if_pos (among.mpr chosen)]
        simp_all
      · rw [if_neg (fun inside => chosen (among.mp inside)),if_neg (by rwa [Bool.and_comm] at chosen)]
  · intro id
    rw [saved.workflows]
    cases before.workflows[id]? <;> rfl

end sweeps

/-- What a completed clean-up promises: no task of the worker is unfinished, the active workflows of the tasks
that it cancelled are cancelled, and workflows without an unfinished task of the worker keep the tasks of others. -/
structure CleansUp (worker : String) (before after : Db) : Prop where
  idle : ∀ task ∈ after.tasks, task.workerName = some worker → task.status.cancellable = false
  consistent : ∀ (id : TaskId) row last, before.tasks[id]? = some row → after.tasks[id]? = some last →
    row.status ≠ .canceled → last.status = .canceled → ∀ owner, before.workflows[row.workflow]? = some owner →
      owner.status.terminal = false → ∃ closed, after.workflows[row.workflow]? = some closed ∧ closed.status = .canceled
  others : ∀ (id : TaskId) row, before.tasks[id]? = some row → row.workerName ≠ some worker →
    (∀ other ∈ before.tasks, other.workflow = row.workflow → other.workerName = some worker →
      other.status.cancellable = false) → after.tasks[id]? = some row

/-- Every active workflow with an unfinished task of the worker is one that the first sweep finds: it is not
paused, and one of its tasks of the worker runs or is about to. -/
def Swept (worker : String) (db : Db) : Prop :=
  ∀ task ∈ db.tasks, task.workerName = some worker → task.status.cancellable = true →
    ∀ owner, db.workflows[task.workflow]? = some owner → owner.status.terminal = false →
      owner.status ≠ .wait ∧ ∃ other ∈ db.tasks, other.workflow = task.workflow ∧ other.workerName = some worker ∧
        (other.status = .progress ∨ other.status = .init)

section result
variable {revoke : CeleryId → Except Error Unit} {before after : Db} {worker : String}

theorem cancelAllExistingTasks_cancels (ran : (cancelAllExistingTasks revoke worker).run before = .ok () after) :
    Cancels (fun task => passed (workflowsToCancel worker before) task.workflow || task.workerName == some worker)
      (passed (workflowsToCancel worker before)) before after := by
  obtain ⟨_,_,loaded,ran⟩ := bind_returned ran
  cases loaded
  obtain ⟨_,middle,first,ran⟩ := bind_returned ran
  obtain ⟨_,_,loaded,second⟩ := bind_returned ran
  cases loaded
  have workflows := workflows_cancelled first
  have tasks := tasksLeft_cancelled second
  constructor
  · intro id
    rw [tasks.tasks id,workflows.tasks id,Option.map_map]
    congr 1
    funext found
    have worker' := cancelledIf_workerName (fun task => passed (workflowsToCancel worker before) task.workflow) found
    rw [cancelledIf_or]
    by_cases own : (found.workerName == some worker) = true
    · rw [if_pos own]
      unfold Function.comp
      generalize cancelledIf (fun task => passed (workflowsToCancel worker before) task.workflow) found = row at worker' ⊢
      simp only [cancelledIf,worker',own]
    · rw [if_neg own]
      unfold Function.comp
      generalize cancelledIf (fun task => passed (workflowsToCancel worker before) task.workflow) found = row at worker' ⊢
      simp only [cancelledIf,worker',own,Bool.false_and,Bool.false_eq_true,if_false]
  · intro id
    rw [tasks.workflows id,workflows.workflows id,Option.map_map]
    rfl

theorem passed_iff {id : WorkflowId} : passed (workflowsToCancel worker before) id = true ↔
    ∃ owner, before.workflows[id]? = some owner ∧ (owner.status = .progress ∨ owner.status = .init) ∧
      ∃ other ∈ before.tasks, other.workflow = id ∧ other.workerName = some worker ∧
        (other.status = .progress ∨ other.status = .init) := by
  unfold passed workflowsToCancel workflowIds running
  rw [List.any_eq_true]
  constructor
  · rintro ⟨⟨owner,found⟩,among,same⟩
    obtain ⟨inside,chosen⟩ := List.mem_filter.mp among
    simp only [Bool.and_eq_true,Bool.or_eq_true,beq_iff_eq,List.contains_iff_mem,List.mem_map,List.mem_filter] at chosen same
    obtain rfl := same
    obtain ⟨active,other,⟨own,runs,worker'⟩,flow⟩ := chosen
    exact ⟨owner,List.mem_zipIdx_iff_getElem?.mp inside,active,other,own,flow,worker',runs⟩
  · rintro ⟨owner,there,active,other,own,flow,worker',runs⟩
    refine ⟨(owner,id),List.mem_filter.mpr ⟨List.mk_mem_zipIdx_iff_getElem?.mpr there,?_⟩,by simp⟩
    simp only [Bool.and_eq_true,Bool.or_eq_true,beq_iff_eq,List.contains_iff_mem,List.mem_map,List.mem_filter]
    exact ⟨active,other,⟨own,runs,worker'⟩,flow⟩

theorem cancelledIf_status {chosen : Task → Bool} {found : Task} (can : chosen found = true) :
    (cancelledIf chosen found).status.cancellable = false := by
  unfold cancelledIf
  rw [can,Bool.true_and]
  cases able : found.status.cancellable with
  | true => rfl
  | false => exact able

theorem active_cases {status : WorkflowStatus} (active : status.terminal = false) :
    status = .wait ∨ status = .progress ∨ status = .init := by
  cases status <;> simp [WorkflowStatus.terminal] at active ⊢

/-- A completed clean-up keeps its promise exactly when the first sweep finds every workflow that the second
one would strand. -/
theorem cleans_up_iff (ran : (cancelAllExistingTasks revoke worker).run before = .ok () after) :
    CleansUp worker before after ↔ Swept worker before := by
  have cancels := cancelAllExistingTasks_cancels ran
  constructor
  · intro clean task among own able owner there active
    obtain ⟨id,stored⟩ := List.mem_iff_getElem?.mp among
    have last := cancels.tasks id
    rw [stored] at last
    have done : (cancelledIf (fun task => passed (workflowsToCancel worker before) task.workflow ||
        task.workerName == some worker) task).status = .canceled := by
      unfold cancelledIf
      rw [if_pos (by simp [own,able])]
      rfl
    have unfinished : task.status ≠ .canceled := by
      intro same
      rw [same] at able
      cases able
    obtain ⟨closed,held,cancelled⟩ := clean.consistent id task _ stored last unfinished done owner there active
    have swept : passed (workflowsToCancel worker before) task.workflow = true := by
      by_contra missed
      have kept := cancels.workflows task.workflow
      rw [there,held] at kept
      have same : closed = owner := by simpa [closedIf,missed] using kept
      rw [same] at cancelled
      rw [cancelled] at active
      cases active
    obtain ⟨found,same,runs,other,inside,flow,worker',running⟩ := passed_iff.mp swept
    obtain rfl := Option.some.inj (there.symm.trans same)
    refine ⟨fun paused => ?_,other,inside,flow,worker',running⟩
    rw [paused] at runs
    rcases runs with runs | runs <;> cases runs
  · intro swept
    constructor
    · intro task among own
      obtain ⟨id,stored⟩ := List.mem_iff_getElem?.mp among
      have last := cancels.tasks id
      rw [stored] at last
      obtain ⟨found,there,rfl⟩ := Option.map_eq_some_iff.mp last.symm
      rw [cancelledIf_workerName] at own
      exact cancelledIf_status (by simp [own])
    · intro id row last stored ended unfinished cancelled owner there active
      have change := cancels.tasks id
      rw [stored,ended] at change
      obtain rfl : last = cancelledIf _ row := by simpa using change
      have close : passed (workflowsToCancel worker before) row.workflow = true := by
        unfold cancelledIf at cancelled
        split at cancelled
        · rename_i chosen
          simp only [Bool.and_eq_true,Bool.or_eq_true,beq_iff_eq] at chosen
          obtain ⟨sweep | own,able⟩ := chosen
          · exact sweep
          · obtain ⟨unpaused,other,inside,flow,worker',runs⟩ := swept row (List.mem_of_getElem? stored) own able owner there active
            have runs' := (active_cases active).resolve_left unpaused
            exact passed_iff.mpr ⟨owner,there,runs',other,inside,flow,worker',runs⟩
        · exact absurd cancelled unfinished
      refine ⟨_,(cancels.workflows row.workflow).trans (by rw [there]; rfl),?_⟩
      unfold closedIf
      rw [if_pos close]
    · intro id row stored other none
      have missed : passed (workflowsToCancel worker before) row.workflow = false := by
        rw [Bool.eq_false_iff]
        intro found
        obtain ⟨_,_,_,task,among,flow,own,runs⟩ := passed_iff.mp found
        have able := none task among flow own
        rcases runs with runs | runs <;> rw [runs] at able <;> cases able
      rw [cancels.tasks id,stored]
      simp [cancelledIf,missed,other]

end result

section instances

/-- A workflow with one task of a worker. -/
def ownedRow (status : WorkflowStatus) : Workflow :=
  { status := status, workflowTemplate := none, currentNodeId := none, lastTaskOutput := none, nodeId := none,
    userCode := "space00000.example.CHAIN", payload := .obj [], platformTaskId := none, space := 0,
    finishedAt := false, parent := none }

def workerTask (status : TaskStatus) : Task :=
  { workflow := 0, nodeId := none, celeryTaskId := 0, name := "A", sourceCode := none, status := status,
    workerName := some "worker@host", payload := none, result := none, progress := none, log := none,
    errorMessage := none, finishedAt := false, space := 0 }

def ownedDb (workflow : WorkflowStatus) (task : TaskStatus) : Db := ⟨[ownedRow workflow],[workerTask task],[],[],1⟩

/-- A running workflow, one that has failed with a task left, and one whose task another worker runs. -/
def threeOwners : Db :=
  ⟨[ownedRow .progress,ownedRow .error,ownedRow .progress],[workerTask .progress,{workerTask .nestedProgress with workflow := 1},
    {workerTask .progress with workflow := 2,workerName := some "other@host"}],[],[],3⟩

/-- The first sweep finds the running workflow, the second one the task that is left, and the other worker goes on. -/
theorem cleans_up_three : ∃ after, (cancelAllExistingTasks (fun _ => .ok ()) "worker@host").run threeOwners = .ok () after ∧
    after.workflows.map Workflow.status = [.canceled,.error,.progress] ∧
    after.tasks.map Task.status = [.canceled,.canceled,.progress] ∧ CleansUp "worker@host" threeOwners after := by
  refine ⟨_,rfl,rfl,rfl,(@cleans_up_iff (fun _ => .ok ()) _ _ "worker@host" rfl).mpr ?_⟩
  intro task among own able owner there active
  simp only [threeOwners,List.mem_cons,List.not_mem_nil,or_false] at among
  rcases among with rfl | rfl | rfl
  · obtain rfl := Option.some.inj there
    exact ⟨WorkflowStatus.noConfusion,_,List.mem_cons_self,rfl,rfl,.inl rfl⟩
  · obtain rfl := Option.some.inj there
    cases active
  · simp at own

/-- A workflow that waits for a nested one goes on without its task. -/
theorem nested_stranded : ∃ after, (cancelAllExistingTasks (fun _ => .ok ()) "worker@host").run
    (ownedDb .progress .nestedProgress) = .ok () after ∧ ¬CleansUp "worker@host" (ownedDb .progress .nestedProgress) after := by
  refine ⟨_,rfl,fun clean => ?_⟩
  obtain ⟨closed,there,cancelled⟩ := clean.consistent 0 (workerTask .nestedProgress) (Cleanup.cancelled (workerTask .nestedProgress))
    rfl rfl TaskStatus.noConfusion rfl (ownedRow .progress) rfl rfl
  obtain rfl := Option.some.inj there
  cases cancelled

end instances

end FinmarsWorkflow.Cleanup
