import FinmarsWorkflow.Quiet

/-! Every active task has a worker.
A task that is waiting to start or in progress belongs to the worker that created
it, which is on its way to save the end of the task. This holds as long as no
worker is lost and nobody cancels the workflow. -/
namespace FinmarsWorkflow
open Interleave Relation

theorem filter_zipIdx_single {α : Type} {matches? : α → Bool} {rows : List α} {id : Nat} {row : α}
    (found : rows[id]? = some row) (fits : matches? row = true)
    (only : ∀ other another, rows[other]? = some another → matches? another = true → other = id) :
    rows.zipIdx.filter (fun entry => matches? entry.1) = [(row,id)] := by
  obtain ⟨bound,rfl⟩ := List.getElem?_eq_some_iff.mp found
  have split : rows = rows.take id ++ rows[id]::rows.drop (id+1) := by simp
  have before : (rows.take id).zipIdx.filter (fun entry => matches? entry.1) = [] := by
    refine List.filter_eq_nil_iff.mpr (fun entry inside fits => ?_)
    obtain ⟨item,index⟩ := entry
    have stored := List.mk_mem_zipIdx_iff_getElem?.mp inside
    rw [List.getElem?_take] at stored
    split at stored
    next lower => exact absurd (only index item stored fits) (Nat.ne_of_lt lower)
    next => cases stored
  have after : ((rows.drop (id+1)).zipIdx (id+1)).filter (fun entry => matches? entry.1) = [] := by
    refine List.filter_eq_nil_iff.mpr (fun entry inside fits => ?_)
    obtain ⟨item,index⟩ := entry
    obtain ⟨lower,stored⟩ := List.mk_mem_zipIdx_iff_le_and_getElem?_sub.mp inside
    rw [List.getElem?_drop] at stored
    have same : id+1+(index-(id+1)) = index := by omega
    rw [same] at stored
    exact absurd (only index item stored fits) (by omega)
  have length : (rows.take id).length = id := by simp [Nat.le_of_lt bound]
  conv => lhs; rw [split]
  rw [List.zipIdx_append,List.zipIdx_cons,List.filter_append,before,List.filter_cons,Nat.zero_add,length,after]
  simp [fits]

theorem getRow_single {α : Type} {model : String} {matches? : α → Bool} {rows : List α} {id : Nat} {row : α}
    (found : rows[id]? = some row) (fits : matches? row = true)
    (only : ∀ other another, rows[other]? = some another → matches? another = true → other = id) :
    getRow model matches? rows = .ok (id,row) := by
  simp only [getRow,filter_zipIdx_single found fits only]

/-- The task of a worker can be found by its celery id. -/
theorem owned_found {db : Db} {origin : Origin} {celery : CeleryId} (consistent : Consistent db)
    (owns : Owns db origin celery) : ∃ id task, db.taskByCeleryId celery = .ok (id,task) := by
  obtain ⟨job,id,key,_,stored,same,_⟩ := owns
  obtain ⟨task,found,rfl⟩ := Option.map_eq_some_iff.mp stored
  refine ⟨id,task,getRow_single found (by simpa [Task.key] using same) (fun other another there fits => ?_)⟩
  refine consistent.unique other id another.key task.key (taskKey_of_stored there) stored ?_
  have equal : another.celeryTaskId = celery := by simpa using fits
  exact equal.trans same.symm

/-- The statuses of a task that its worker has not finished yet. -/
def TaskStatus.active : TaskStatus → Bool
  | .init | .progress => true
  | .nestedProgress | .success | .error | .timeout | .canceled => false

/-- A thread on its way to save the end of the task with a celery id. -/
def Control.Works (celery : CeleryId) : Control → Prop
  | .startRead own _ | .startSave own _ _ _ | .stepRead own _ _ _ | .runCode own _ _ _ | .logSave own _ _ _ _
  | .progressRead own _ _ _ _ _ | .progressSave own _ _ _ _ _ | .templateRead own _ _ _ _ | .childCreate own _ _ _
  | .childSend own _ _ _ | .childSave own _ _ | .successRead own _ | .failRead own _ => own = celery
  | .successSave _ _ _ task _ => task.celeryTaskId = celery
  | .failRow _ _ task _ | .failSave _ _ task _ _ => task.celeryTaskId = celery
  | _ => False

def Attended {definitions : Definitions} (S : Controlled definitions) (workflow : WorkflowId) : Prop :=
  ∀ (id : TaskId) (task : Task), S.shared.tasks[id]? = some task → task.workflow = workflow →
    task.status.active = true → ∃ thread ∈ S.threads, Control.Works task.celeryTaskId thread.2

section works
variable {definitions : Definitions} {db : Db} {origin : Origin} {control : Control} {operation : Operation}
  {celery : CeleryId}

theorem works_busy (works : control.Works celery) : control.operation ≠ none := by
  cases control with
  | done => cases works
  | send => cases works
  | _ => rintro ⟨⟩

/-- The thread that works on a task was started for its workflow or a descendant. -/
theorem works_acts (consistent : Consistent db) (linked : control.Linked db origin) (works : control.Works celery)
    {id : TaskId} {task : Task} (stored : db.taskKey id = some task.key) (same : task.celeryTaskId = celery) :
    ∃ message, origin = .message message ∧ db.Above message.workflow task.workflow := by
  have owned (owns : Owns db origin celery) : ∃ message, origin = .message message ∧ db.Above message.workflow task.workflow := by
    obtain ⟨job,message,owner,_⟩ := owner_scope consistent owns stored same
    exact ⟨_,message,owner ▸ .refl⟩
  have other {held : TaskId} {row : Task} (there : db.taskKey held = some row.key) (equal : row.celeryTaskId = celery)
      (worker : ∃ job, origin = .message (.processNextNode job)) (scope : Scope db origin row.workflow) :
      ∃ message, origin = .message message ∧ db.Above message.workflow task.workflow := by
    have ids := consistent.unique held id row.key task.key there stored (equal.trans same.symm)
    subst held
    have key : row.key = task.key := Option.some.inj (there.symm.trans stored)
    have owner : row.workflow = task.workflow := congrArg TaskKey.workflow key
    obtain ⟨job,message⟩ := worker
    rw [message] at scope
    exact ⟨_,message,owner ▸ scope⟩
  cases control with
  | startRead | successRead | failRead => exact owned (works ▸ linked)
  | startSave | stepRead | runCode | logSave | progressRead | childSave => exact owned (works ▸ linked.owns)
  | progressSave | templateRead | childCreate | childSend => exact owned (works ▸ linked.1.owns)
  | successSave => exact other linked.stored works linked.owns.worker linked.scope
  | failRow => exact other linked.stored works linked.worker linked.scope
  | failSave => exact other linked.1.stored works linked.1.worker linked.1.scope
  | _ => cases works

theorem calling_works {id : TaskId} {task : Task} {calls : List Call} {outcome : Except Error Json} :
    (Control.calling celery id task calls outcome).Works celery :=
  Control.calling_elim (fun _ _ _ => rfl) (fun _ _ _ => rfl) (fun _ _ => rfl) (fun _ _ => rfl)

/-- A worker goes on with its task, saves the end of it, or finds that it has delegated. -/
theorem works_next (outside : Outside) (consistent : Consistent db) (linked : control.Linked db origin)
    (statused : control.Statused) (works : control.Works celery) (busy : control.operation = some operation) :
    (control.next definitions db outside).Works celery ∨
      (∃ id row, operation = .saveTask id row ∧ db.taskKey id = some row.key ∧ row.celeryTaskId = celery ∧
        row.status.active = false) ∨
      ∃ id task, db.taskByCeleryId celery = .ok (id,task) ∧ task.status.active = false := by
  cases control with
  | startRead own | progressRead own | templateRead own =>
    cases works
    simp only [Control.next]
    split <;> exact .inl rfl
  | startSave | childCreate | childSend =>
    cases works
    exact .inl rfl
  | stepRead =>
    cases works
    simp only [Control.next]
    repeat' split
    all_goals exact .inl rfl
  | runCode | logSave | progressSave =>
    cases works
    exact .inl calling_works
  | childSave own id task =>
    cases busy
    cases works
    exact .inr (.inl ⟨id,_,rfl,linked.stored,linked.own,rfl⟩)
  | successRead own retval =>
    cases works
    simp only [Control.next]
    split
    next id task found =>
      have own := (taskByCeleryId_key found).2
      refine Control.handling_elim (P := fun point => point.Works celery ∨ _) (.inl rfl) (fun nested => ?_)
        (fun _ _ _ => .inl own)
      exact .inr (.inr ⟨id,task,found,by rw [nested]; rfl⟩)
    next => exact .inl rfl
  | successSave own depth id task retval =>
    cases busy
    exact .inr (.inl ⟨id,task,rfl,linked.stored,works,by rw [show task.status = .success from statused]; rfl⟩)
  | failRead own error =>
    cases works
    obtain ⟨id,task,found⟩ := owned_found consistent linked
    obtain ⟨stored,own⟩ := taskByCeleryId_key found
    obtain ⟨key,known⟩ := Option.isSome_iff_exists.mp (consistent.workflow id task.key stored)
    have some_ := workflowKey_lt known
    simp only [Control.next,found]
    refine .inl ?_
    cases length : db.workflows.length with
    | zero =>
      rw [length] at some_
      exact absurd some_ (Nat.not_lt_zero _)
    | succ rest => exact own
  | failRow depth id task error =>
    obtain ⟨key,known⟩ := Option.isSome_iff_exists.mp (consistent.workflow id task.key linked.stored)
    obtain ⟨row,found,_⟩ := Option.map_eq_some_iff.mp known
    have loaded : db.getWorkflow task.workflow = .ok row := by
      have same : db.workflows[task.workflow]? = some row := found
      simp only [Db.getWorkflow,same]
    simp only [Control.next,loaded]
    exact .inl works
  | failSave depth id task row error =>
    cases busy
    refine .inr (.inl ⟨id,_,rfl,linked.1.stored,works,?_⟩)
    simp only [Task.failed,Error.taskStatus]
    split <;> rfl
  | _ => cases works

end works

section attended
variable {definitions : Definitions} {before after : Controlled definitions} {label : Action} {workflow : WorkflowId}

/-- A row that an operation leaves active is one that its thread goes on with. -/
theorem saved_works {origin : Origin} {control : Control} {id : TaskId} {task : Task} (outside : Outside)
    (linked : control.Linked before.shared origin) (statused : control.Statused)
    (busy : control.operation = some (.saveTask id task)) (active : task.status.active = true)
    (uncancelled : origin ≠ .request (.cancel task.workflow)) :
    (control.next definitions before.shared outside).Works task.celeryTaskId := by
  cases control with
  | send messages => cases messages <;> cases busy
  | startSave =>
    cases busy
    exact linked.own.symm
  | logSave =>
    cases busy
    exact linked.own ▸ calling_works
  | progressSave celery other held row =>
    cases busy
    have key : held.key = task.key := Option.some.inj (linked.1.stored.symm.trans linked.2)
    have same : held.celeryTaskId = task.celeryTaskId := congrArg TaskKey.celeryTaskId key
    exact (linked.1.own.symm.trans same) ▸ calling_works
  | childSave =>
    cases busy
    cases active
  | successSave =>
    cases busy
    rw [show task.status = .success from statused] at active
    cases active
  | failSave depth other held row error =>
    cases busy
    simp only [Task.failed,Error.taskStatus] at active
    split at active <;> cases active
  | cancelTask asked row other held rest =>
    cases busy
    have owner : task.workflow = asked := (linked.2.2 _ List.mem_cons_self).2
    exact absurd (owner ▸ linked.1) uncancelled
  | _ => cases busy

theorem attended_step (sound : Sound before) (statused : Statused before) (attended : Attended before workflow)
    (uncancelled : ∀ thread ∈ before.threads, thread.1 ≠ .request (.cancel workflow))
    (once : ¬Repeats workflow before label) (step : Step machine Origin.control before label after) :
    Attended after workflow := by
  intro id task stored owner active
  -- the task was there before and is unchanged: its worker stays or goes on, and is not lost
  have old (there : before.shared.tasks[id]? = some task) :
      ∃ thread ∈ after.threads, Control.Works task.celeryTaskId thread.2 := by
    obtain ⟨⟨origin,control⟩,member,works⟩ := attended id task there owner active
    have linked := (sound.threads _ member).2
    rcases step.remains member with inside | ⟨index,answer,operation,rfl,found,busy,shared,new⟩ | idle |
      ⟨environment,index,rfl,present,reacts⟩
    · exact ⟨_,inside,works⟩
    · rcases works_next answer sound.shared linked (statused _ member) works busy with goes |
        ⟨other,row,rfl,key,celery,ended⟩ | ⟨other,row,reads,ended⟩
      · exact ⟨_,new,goes⟩
      · have ids := sound.shared.unique other id row.key task.key key (taskKey_of_stored there) celery
        subst other
        rw [shared] at stored
        change (before.shared.tasks.set id row)[id]? = _ at stored
        rw [List.getElem?_set_self (List.getElem?_eq_some_iff.mp there).1] at stored
        cases stored
        cases ended.symm.trans active
      · obtain ⟨key,celery⟩ := taskByCeleryId_key reads
        have ids := sound.shared.unique other id row.key task.key key (taskKey_of_stored there) celery
        subst other
        cases Option.some.inj ((getRow_ok reads).1.symm.trans there)
        cases ended.symm.trans active
    · exact absurd idle (works_busy works)
    · obtain ⟨message,same,below⟩ := works_acts sound.shared linked works (taskKey_of_stored there) rfl
      have origins : (before.threads.map Prod.fst)[index]? = some origin := by rw [List.getElem?_map,present]; rfl
      rcases react_inv reacts with ⟨_,_,_,_,_,⟨⟩⟩ | ⟨_,_,_,⟨⟩⟩ | ⟨_,_,_,_,_,⟨⟩⟩ | ⟨_,taken,rfl,found,_,⟨⟩⟩ |
        ⟨_,request,_,found,_,⟨⟩⟩
      · cases Option.some.inj (found.symm.trans (origins.trans (congrArg some same)))
        exact absurd ⟨index,message,.inr rfl,found,owner ▸ below⟩ once
      · cases Option.some.inj (found.symm.trans (origins.trans (congrArg some same)))
  rcases step.shared_cases with same | ⟨index,answer,origin,control,operation,rfl,found,busy,same⟩ | ⟨_,_,_,reacts⟩
  · exact old (same ▸ stored)
  · have member := List.mem_of_getElem? found
    have linked := (sound.threads _ member).2
    have new := (step.advances found busy).2
    rw [same] at stored
    cases operation with
    | createTask row =>
      obtain ⟨job,held,node,payload,output,rfl,rfl⟩ := createTask_inv busy
      change (before.shared.tasks ++ [_])[id]? = _ at stored
      rw [List.getElem?_append] at stored
      split at stored
      · exact old stored
      · cases List.mem_singleton.mp (List.mem_of_getElem? stored)
        exact ⟨_,new,rfl⟩
    | saveTask other row =>
      change (before.shared.tasks.set other row)[id]? = _ at stored
      rw [List.getElem?_set] at stored
      split at stored
      · split at stored
        · cases stored
          refine ⟨_,new,saved_works answer linked (statused _ member) busy active ?_⟩
          exact owner ▸ uncancelled _ member
        · cases stored
      · exact old stored
    | _ => exact old stored
  · obtain ⟨queue,same,_⟩ := react_queue reacts
    exact old (by rw [same] at stored; exact stored)

end attended

end FinmarsWorkflow
