import FinmarsWorkflow.Arguments
import FinmarsWorkflow.Carriers
import FinmarsWorkflow.Order

/-! What the code of a node receives from the code of another one.
The worker of a node stores the value that its code returned, as long as no task of
the workflow fails, and nothing but that row is read for the nodes it is connected
to. A worker reads it only after it has found it stored. -/
namespace FinmarsWorkflow
open Interleave

/-- What `handle_task_success` stores as the result of a task. -/
def storedResult (retval : Json) : Json := if retval.truthy then retval else noResults

/-- A task of the workflow is stored as failed or cancelled. -/
def Operation.stops (workflow : WorkflowId) : Operation → Bool
  | .saveTask _ row => row.workflow == workflow && row.status.stopped
  | _ => false

def faults (workflow : WorkflowId) (view : Seen) : Action → Bool
  | .advance index _ => match view.threads[index]? with
    | some (_,some operation) => operation.stops workflow
    | _ => false
  | _ => false

/-- No task of the workflow fails or is cancelled. -/
def faultless (workflow : WorkflowId) : Allowed := fun view label => faults workflow view label = false

instance (workflow : WorkflowId) (view : Seen) (label : Action) : Decidable (faultless workflow view label) :=
  inferInstanceAs (Decidable (_ = _))

theorem faultless_advance {definitions : Definitions} {S : Controlled definitions} {workflow : WorkflowId} {index : Nat}
    {answer : Outside} {origin : Origin} {control : Control} {operation : Operation}
    (allowed : faultless workflow S.view (.advance index answer)) (found : S.threads[index]? = some (origin,control))
    (busy : control.operation = some operation) : operation.stops workflow = false := by
  have seen := System.view_found found
  change S.view.threads[index]? = some (origin,control.operation) at seen
  rw [busy] at seen
  simpa only [faultless,faults,seen] using allowed

/-- The node has no task but this one. -/
def Only (db : Db) (workflow : WorkflowId) (node : NodeId) (id : TaskId) : Prop :=
  ∀ other key, db.taskKey other = some key → key.workflow = workflow → key.nodeId = some node → other = id

section only
variable {db later : Db} {workflow : WorkflowId} {node : NodeId} {id : TaskId} {task : Task}

theorem Only.earlier (only : Only later workflow node id) (grows : Grows db later) : Only db workflow node id :=
  fun other key stored => only other key (grows.task other key stored)

theorem Only.newest (only : Only db workflow node id) (stored : db.tasks[id]? = some task) (owner : task.workflow = workflow)
    (own : task.nodeId = some node) : db.newestTask workflow node = some task := by
  unfold Db.newestTask
  cases found : db.tasks.reverse.find? (fun task => task.workflow == workflow && task.nodeId == some node) with
  | none =>
    have differs := List.find?_eq_none.mp found task (List.mem_reverse.mpr (List.mem_of_getElem? stored))
    simp [owner,own] at differs
  | some other =>
    have fits := List.find?_some found
    simp only [Bool.and_eq_true,beq_iff_eq] at fits
    obtain ⟨index,there⟩ := List.mem_iff_getElem?.mp (List.mem_reverse.mp (List.mem_of_find?_eq_some found))
    have same := only index other.key (taskKey_of_stored there) fits.1 fits.2
    subst index
    exact there.symm.trans stored

/-- An input that is ready is the only task of its node, with a success. -/
theorem Only.ready (only : Only db workflow node id) (ready : db.inputReady workflow node = true) :
    ∃ row, db.tasks[id]? = some row ∧ row.status = .success := by
  obtain ⟨other,_,_,row,stored,owner,own,success⟩ := inputReady_success ready
  have same := only other row.key (taskKey_of_stored stored) owner own
  subst other
  exact ⟨row,stored,success⟩

end only

/-- A worker that is past the check of one input, until the code of its node runs. -/
def Control.Beyond (node : NodeId) : Control → Prop
  | .inputRead _ _ _ input rest => node ∉ input::rest
  | .previousRead _ _ _ _ | .payloadRead _ _ _ _ _ | .create _ _ _ _ _ | .startRead _ _ | .startSave _ _ _ _
  | .stepRead _ _ _ _ | .runCode _ _ _ _ => True
  | _ => False

/-- A worker of the workflow whose node has this input, and which is past its check. -/
def Fed (workflow : WorkflowId) (node : NodeId) (origin : Origin) (control : Control) : Prop :=
  ∃ job, origin = .message (.processNextNode job) ∧ job.workflow = workflow ∧
    node ∈ job.graph.inputNodes job.currentNodeId ∧ control.Beyond node

/-- A worker that carries a celery id and whose step has not returned yet. -/
def Control.Unreturned (celery : CeleryId) : Control → Prop
  | .startRead own _ | .startSave own _ _ _ | .stepRead own _ _ _ | .runCode own _ _ _ | .templateRead own _ _ _ _
  | .childCreate own _ _ _ => own = celery
  | _ => False

section controls
variable {definitions : Definitions} {db : Db} {origin : Origin} {control : Control} {operation : Operation}
  {outside : Outside} {workflow : WorkflowId} {node : NodeId} {celery : CeleryId}

theorem Control.Unreturned.carries (unreturned : control.Unreturned celery) : control.celery? = some celery := by
  cases control with
  | startRead | startSave | stepRead | runCode | templateRead | childCreate => exact congrArg some unreturned
  | _ => cases unreturned

theorem beyond_of_stage (checks : control.stage ≠ .checking) (admits : control.stage ≠ .admitted)
    (runs : control.stage ≠ .running) : ¬control.Beyond node := by
  intro beyond
  cases control with
  | inputRead => exact checks rfl
  | previousRead | payloadRead | create => exact admits rfl
  | startRead | startSave | stepRead | runCode => exact runs rfl
  | _ => exact beyond

/-- A worker gets past the check of an input by finding it ready. -/
theorem fed_next (linked : control.Linked db origin) (fed : Fed workflow node origin (control.next definitions db outside)) :
    Fed workflow node origin control ∨ db.inputReady workflow node = true := by
  obtain ⟨job,message,owner,member,beyond⟩ := fed
  have kept (was : control.Beyond node) : Fed workflow node origin control ∨ db.inputReady workflow node = true :=
    .inl ⟨job,message,owner,member,was⟩
  cases control with
  | take other =>
    have same : origin = _ := linked
    cases same.symm.trans message
    simp only [Control.next] at beyond
    split at beyond
    · split at beyond
      · split at beyond
        · cases beyond
        · revert beyond
          refine Control.checking_elim (P := fun point => point.Beyond node → _) (fun next rest inputs beyond => ?_) (fun none => ?_)
          · exact absurd (inputs ▸ member) beyond
          · exact absurd (none ▸ member) List.not_mem_nil
      · cases beyond
    · cases beyond
  | inputRead other row target input rest =>
    cases linked.message.symm.trans message
    by_cases among : node ∈ input::rest
    · simp only [Control.next] at beyond
      split at beyond
      next ready =>
        have here : node ∉ rest → node = input := fun absent => (List.mem_cons.mp among).resolve_right absent
        revert beyond
        refine Control.checking_elim (P := fun point => point.Beyond node → _) (fun next rest inputs beyond => ?_) (fun none _ => ?_)
        · right
          rw [here (inputs ▸ beyond),← owner]
          exact ready
        · right
          rw [here (none ▸ List.not_mem_nil),← owner]
          exact ready
      next => cases beyond
    · exact kept among
  | previousRead | payloadRead | create | startRead | startSave | stepRead => exact kept trivial
  | runCode => exact kept trivial
  | logSave | progressSave =>
    revert beyond
    exact Control.calling_elim (P := fun point => point.Beyond node → _) (fun _ _ _ none => none.elim)
      (fun _ _ _ none => none.elim) (fun _ _ none => none.elim) (fun _ _ none => none.elim)
  | progressRead =>
    simp only [Control.next] at beyond
    split at beyond <;> cases beyond
  | _ =>
    exact absurd beyond (beyond_of_stage (Control.stage_avoids rfl) (Control.stage_avoids rfl) (Control.stage_avoids rfl))

theorem unreturned_of_stage (runs : control.stage ≠ .running) (delegates : control.stage ≠ .delegating) :
    ¬control.Unreturned celery := by
  intro unreturned
  cases control with
  | startRead | startSave | stepRead | runCode => exact runs rfl
  | templateRead | childCreate => exact delegates rfl
  | _ => exact unreturned

/-- A step that has not returned is one that went on, or one of a task just created. -/
theorem unreturned_next (unreturned : (control.next definitions db outside).Unreturned celery) :
    control.Unreturned celery ∨ (∃ row, control.operation = some (.createTask row)) ∧ celery = db.uuid := by
  cases control with
  | create => exact .inr ⟨⟨_,rfl⟩,unreturned.symm⟩
  | startRead | startSave | stepRead | templateRead =>
    simp only [Control.next] at unreturned
    repeat' split at unreturned
    all_goals first | exact .inl unreturned | cases unreturned
  | runCode | logSave | progressSave =>
    revert unreturned
    exact Control.calling_elim (P := fun point => point.Unreturned celery → _) (fun _ _ _ none => none.elim)
      (fun _ _ _ none => none.elim) (fun _ _ none => none.elim) (fun _ _ none => none.elim)
  | progressRead | childCreate | childSend | childSave =>
    simp only [Control.next] at unreturned
    repeat' split at unreturned
    all_goals cases unreturned
  | previousRead =>
    revert unreturned
    exact Control.withOutput_elim (P := fun point => point.Unreturned celery → _) (fun _ _ none => none.elim)
      (fun _ _ none => none.elim)
  | payloadRead => cases unreturned
  | _ => exact absurd unreturned (unreturned_of_stage (Control.stage_avoids rfl) (Control.stage_avoids rfl))

/-- The copy that a worker saves before its step returns is one in progress. -/
theorem unreturned_save {id : TaskId} {row : Task} (unreturned : control.Unreturned celery) (held : control.Held db)
    (busy : control.operation = some (.saveTask id row)) : row.status = .progress := by
  cases control with
  | startSave =>
    cases busy
    exact held
  | send => cases unreturned
  | startRead | stepRead | runCode | templateRead | childCreate => cases busy
  | _ => cases unreturned

end controls

/-- The task has not succeeded, nothing was started below its node, and nobody has
found the node ready. -/
structure Unread {definitions : Definitions} (S : Controlled definitions) (workflow : WorkflowId) (node : NodeId)
    (id : TaskId) : Prop where
  childless : ¬Heir S.shared workflow (some node)
  status : ∀ row, S.shared.tasks[id]? = some row → row.status ≠ .success
  waiting : ∀ thread ∈ S.threads, ¬Fed workflow node thread.1 thread.2

/-- Until the step of the only task of a node returns, the task is unread. -/
structure Early {definitions : Definitions} (S : Controlled definitions) (workflow : WorkflowId) (node : NodeId)
    (id : TaskId) : Prop where
  known : ∀ thread ∈ S.threads, Fed workflow node thread.1 thread.2 →
    ∃ other key, S.shared.taskKey other = some key ∧ key.workflow = workflow ∧ key.nodeId = some node
  unread : ∀ key, S.shared.taskKey id = some key → key.workflow = workflow → key.nodeId = some node →
    ∀ thread ∈ S.threads, Control.Unreturned key.celeryTaskId thread.2 → Unread S workflow node id

section early
variable {definitions : Definitions} {before after : Controlled definitions} {label : Action} {workflow : WorkflowId}
  {node : NodeId} {id : TaskId} {key : TaskKey}

theorem task_effect {db : Db} {operation : Operation} {row : Task} (stored : db.taskKey id = some key)
    (there : (operation.effect db).tasks[id]? = some row) : db.tasks[id]? = some row ∨ operation = .saveTask id row := by
  cases operation with
  | saveTask other saved =>
    by_cases same : other = id
    · subst other
      change (db.tasks.set id saved)[id]? = _ at there
      rw [List.getElem?_set_self (taskKey_lt stored)] at there
      cases there
      exact .inr rfl
    · exact .inl ((List.getElem?_set_ne same).symm.trans there)
  | createTask created =>
    change (db.tasks ++ [_])[id]? = _ at there
    rw [List.getElem?_append_left (taskKey_lt stored)] at there
    exact .inl there
  | _ => exact .inl there

/-- Without a failure the row of a task with nothing below it is saved by its own worker. -/
theorem saved_carries {db : Db} {origin : Origin} {control : Control} {row : Task} (stored : db.taskKey id = some key)
    (owner : key.workflow = workflow) (own : key.nodeId = some node) (childless : ¬Heir db workflow (some node))
    (linked : control.Linked db origin) (held : control.Held db) (busy : control.operation = some (.saveTask id row))
    (allowed : (Operation.saveTask id row).stops workflow = false) : control.celery? = some key.celeryTaskId := by
  have keyed : key = row.key := Option.some.inj (stored.symm.trans (linked_keyed linked busy))
  subst key
  rcases saved_by linked held busy with carries | stopped | heir
  · exact carries
  · have stops : (Operation.saveTask id row).stops workflow = true :=
      Bool.and_eq_true_iff.mpr ⟨beq_iff_eq.mpr owner,stopped⟩
    exact absurd (stops.symm.trans allowed) Bool.noConfusion
  · have under : row.workflow = workflow := owner
    have named : row.nodeId = some node := own
    rw [under,named] at heir
    exact absurd heir childless

/-- The system after a step of one thread. -/
abbrev advanced (S : Controlled definitions) (index : Nat) (answer : Outside) (origin : Origin) (control : Control)
    (operation : Operation) : Controlled definitions :=
  ⟨operation.effect S.shared,S.threads.set index (origin,control.next definitions S.shared answer)⟩

/-- A failure-free step keeps a task unread, unless its own worker starts a workflow below
it or saves it as a success. -/
theorem unread_step (carried : Carried before) (only : Only before.shared workflow node id)
    (stored : before.shared.taskKey id = some key) (owner : key.workflow = workflow) (own : key.nodeId = some node)
    (unread : Unread before workflow node id) {index : Nat} {answer : Outside} {origin : Origin} {control : Control}
    {operation : Operation} (found : before.threads[index]? = some (origin,control))
    (busy : control.operation = some operation) (allowed : operation.stops workflow = false)
    (alone : ∀ own task child, control ≠ .childCreate key.celeryTaskId own task child)
    (saves : ∀ row, control.celery? = some key.celeryTaskId → operation = .saveTask id row → row.status ≠ .success) :
    Unread (advanced before index answer origin control operation) workflow node id := by
  have present := List.mem_of_getElem? found
  have linked := (carried.sound.threads _ present).2
  have held := carried.held _ present
  refine ⟨fun heir => ?_,fun row there => ?_,fun thread member fed => ?_⟩
  · rcases heir_effect linked busy heir with old | ⟨celery,other,task,child,rfl,kept,under,named,carries⟩
    · exact unread.childless old
    · have same := only other task.key kept under named
      subst other
      cases Option.some.inj (stored.symm.trans kept)
      subst carries
      exact alone _ _ _ rfl
  · rcases task_effect stored there with old | rfl
    · exact unread.status row old
    · exact saves row (saved_carries stored owner own unread.childless linked held busy allowed) rfl
  · rcases List.mem_or_eq_of_mem_set member with old | rfl
    · exact unread.waiting _ old fed
    · rcases fed_next linked fed with was | ready
      · exact unread.waiting _ present was
      · obtain ⟨row,there,success⟩ := only.ready ready
        exact unread.status row there success

/-- Another system with the same rows, and with no threads but old ones and new ones. -/
theorem Unread.fewer {later : Controlled definitions} (unread : Unread before workflow node id)
    (workflows : later.shared.workflows = before.shared.workflows) (tasks : later.shared.tasks = before.shared.tasks)
    (threads : ∀ thread ∈ later.threads, thread ∈ before.threads ∨ thread.2 = Origin.control thread.1) :
    Unread later workflow node id := by
  refine ⟨fun heir => unread.childless ?_,fun row stored => unread.status row (tasks ▸ stored),fun thread member fed => ?_⟩
  · obtain ⟨child,other,stored,above⟩ := heir
    rw [Db.workflowKey,workflows] at stored
    exact ⟨child,other,stored,above⟩
  · rcases threads thread member with old | fresh
    · exact unread.waiting thread old fed
    · obtain ⟨job,message,_,_,beyond⟩ := fed
      rw [fresh,message] at beyond
      exact beyond

theorem origin_unreturned {origin : Origin} {celery : CeleryId} : ¬origin.control.Unreturned celery := by
  intro unreturned
  cases origin with
  | message message => cases message <;> exact unreturned
  | request request => cases request <;> exact unreturned

/-- A step that performs no operation changes no rows, and its threads are old or new. -/
theorem resting_step (step : Step machine Origin.control before label after) (rests : ∀ index answer, label ≠ .advance index answer) :
    after.shared.workflows = before.shared.workflows ∧ after.shared.tasks = before.shared.tasks ∧
      ∀ thread ∈ after.threads, thread ∈ before.threads ∨ thread.2 = Origin.control thread.1 := by
  refine ⟨?_,?_,fun (origin,control) member => ?_⟩
  · rcases step.shared_cases with same | ⟨index,answer,_,_,_,moves,_⟩ | ⟨_,_,_,reacts⟩
    · rw [same]
    · exact absurd moves (rests index answer)
    · obtain ⟨queue,same,_⟩ := react_queue reacts
      rw [same]
  · rcases step.shared_cases with same | ⟨index,answer,_,_,_,moves,_⟩ | ⟨_,_,_,reacts⟩
    · rw [same]
    · exact absurd moves (rests index answer)
    · obtain ⟨queue,same,_⟩ := react_queue reacts
      rw [same]
  · rcases step.thread_cases member with inside | ⟨index,answer,_,_,moves,_⟩ | ⟨_,_,_,rfl⟩
    · exact .inl inside
    · exact absurd moves (rests index answer)
    · exact .inr rfl

theorem early_step (carried : Carried before) (allowed : faultless workflow before.view label)
    (step : Step machine Origin.control before label after) (only : Only after.shared workflow node id)
    (early : Early before workflow node id) : Early after workflow node id := by
  have grows := (sound_step carried.sound step).2
  have once := only.earlier grows
  by_cases moves : ∃ index answer, label = .advance index answer
  · obtain ⟨index,answer,rfl⟩ := moves
    cases step with
    | advance index answer origin control operation found busy =>
      have present := List.mem_of_getElem? found
      have linked := (carried.sound.threads _ present).2
      have passes := faultless_advance allowed found busy
      -- whoever is past the check of the input has found a task of it
      have known : ∀ thread ∈ before.threads.set index (origin,control.next definitions before.shared answer),
          Fed workflow node thread.1 thread.2 →
          ∃ other key, before.shared.taskKey other = some key ∧ key.workflow = workflow ∧ key.nodeId = some node := by
        intro thread member fed
        rcases List.mem_or_eq_of_mem_set member with old | rfl
        · exact early.known thread old fed
        · rcases fed_next linked fed with was | ready
          · exact early.known _ present was
          · obtain ⟨other,_,_,row,stored,owner,own,_⟩ := inputReady_success ready
            exact ⟨other,row.key,taskKey_of_stored stored,owner,own⟩
      refine ⟨fun thread member fed => ?_,fun key stored owner own thread member unreturned => ?_⟩
      · obtain ⟨other,key,stored,rest⟩ := known thread member fed
        exact ⟨other,key,grows.task other key stored,rest⟩
      · by_cases there : before.shared.taskKey id = some key
        · -- the task is an old one: its worker goes on, or another one takes the step
          rcases mem_set_eraseIdx member with rfl | other
          · rcases unreturned_next unreturned with was | ⟨_,fresh⟩
            · refine unread_step carried once there owner own (early.unread key there owner own _ present was) found busy passes
                (fun other task child creates => ?_) (fun row _ saves => ?_)
              · rw [creates] at unreturned
                exact unreturned
              · subst saves
                rw [unreturned_save was (carried.held _ present) busy]
                exact TaskStatus.noConfusion
            · exact absurd fresh (Nat.ne_of_lt (carried.sound.shared.fresh id key there))
          · have was := early.unread key there owner own thread (List.mem_of_mem_eraseIdx other) unreturned
            have apart : control.celery? ≠ some key.celeryTaskId :=
              fun carries => carried.sole.apart found carries other unreturned.carries
            refine unread_step carried once there owner own was found busy passes (fun _ _ _ creates => ?_)
              (fun _ carries => absurd carries apart)
            exact apart (creates ▸ rfl)
        · -- the task is the one that is created, and the node had none before
          have creates : ∃ row, operation = .createTask row := by
            by_contra none
            exact there ((taskKey_effect (linked_keyed linked busy) (fun row made => none ⟨row,made⟩) id).symm.trans stored)
          obtain ⟨row,rfl⟩ := creates
          have made : id = before.shared.tasks.length ∧ {row with celeryTaskId := before.shared.uuid}.key = key := by
            change (Operation.effect _ _).taskKey id = _ at stored
            rw [createTask_taskKey] at stored
            split at stored
            next same => exact ⟨same,Option.some.inj stored⟩
            next => exact absurd stored there
          have none (other : TaskId) (another : TaskKey) (kept : before.shared.taskKey other = some another)
              (under : another.workflow = workflow) (named : another.nodeId = some node) : False := by
            have same := once other another kept under named
            exact absurd (taskKey_lt kept) (by rw [same,made.1]; exact Nat.lt_irrefl _)
          refine ⟨fun heir => ?_,fun saved kept => ?_,fun thread member fed => ?_⟩
          · obtain ⟨other,another,kept,under,named⟩ := carried.heirs workflow (some node) heir
            exact none other another kept under named
          · change (before.shared.tasks ++ [_])[id]? = _ at kept
            rw [made.1,List.getElem?_concat_length] at kept
            obtain ⟨job,held,target,payload,output,rfl,rfl⟩ := createTask_inv busy
            cases kept
            exact TaskStatus.noConfusion
          · obtain ⟨other,another,kept,under,named⟩ := known thread member fed
            exact none other another kept under named
  · obtain ⟨workflows,tasks,threads⟩ := resting_step step (fun index answer same => moves ⟨index,answer,same⟩)
    refine ⟨fun thread member fed => ?_,fun key stored owner own thread member unreturned => ?_⟩
    · rcases threads thread member with old | fresh
      · obtain ⟨other,key,stored,rest⟩ := early.known thread old fed
        exact ⟨other,key,grows.task other key stored,rest⟩
      · obtain ⟨job,message,_,_,beyond⟩ := fed
        rw [fresh,message] at beyond
        cases beyond
    · rw [Db.taskKey,tasks] at stored
      rcases threads thread member with old | fresh
      · exact (early.unread key stored owner own thread old unreturned).fewer workflows tasks threads
      · exact absurd (fresh ▸ unreturned) origin_unreturned

end early

/-- The worker whose code has returned a value, on its way to store it. -/
def Control.Reports (value : Json) (id : TaskId) : Control → Prop
  | .logSave _ _ _ _ outcome | .progressRead _ _ _ _ _ outcome => outcome = .ok value
  | .progressSave _ _ _ row _ outcome => row.status ≠ .success ∧ outcome = .ok value
  | .successRead _ retval => retval = value
  | .successSave _ _ own task _ => own = id ∧ task.result = some (storedResult value)
  | .failRead _ _ => True
  | _ => False

/-- The worker of a task that will not save it again. -/
def Control.Settled (id : TaskId) : Control → Prop
  | .successSave _ _ own _ _ => own ≠ id
  | .successRow _ _ _ _ _ | .successData _ _ _ _ _ _ | .closeSave _ _ _ _ _ _ | .climb _ _ _ _ _ _ | .failRead _ _ => True
  | _ => False

theorem feedingNode_input {g : Graph} {target : Node} {input : String} {node : NodeId}
    (feeds : feedingNode g target input = some node) : node ∈ g.inputNodes target.id := by
  unfold feedingNode at feeds
  split at feeds
  · obtain ⟨found,_⟩ := Option.filter_eq_some_iff.mp feeds
    obtain ⟨connection,first,rfl⟩ := Option.map_eq_some_iff.mp found
    have fits := List.find?_some first
    simp only [Bool.and_eq_true,beq_iff_eq] at fits
    simp only [Graph.inputNodes,List.mem_map,List.mem_filter]
    exact ⟨connection,⟨List.mem_of_find?_eq_some first,by simp [fits.1]⟩,rfl⟩
  · cases feeds

/-- The inputs of a node that are fed by another one carry its value. -/
def Control.Delivered (workflow : WorkflowId) (node : NodeId) (value : Json) (origin : Origin) : Control → Prop :=
  Control.Brings origin
    (fun job target found => job.workflow = workflow → feedingNode job.graph target "in" = some node → found = some value)
    (fun job target load => job.workflow = workflow → feedingNode job.graph target "payload_input" = some node → load = value)

/-- Once the value is stored, every worker that is fed by the node reads it. -/
theorem delivered_next {definitions : Definitions} {db : Db} {origin : Origin} {control : Control} {outside : Outside}
    {workflow : WorkflowId} {node : NodeId} {id : TaskId} {value : Json} {row : Task}
    (only : Only db workflow node id) (stored : db.tasks[id]? = some row)
    (owner : row.workflow = workflow) (own : row.nodeId = some node) (result : row.result = some value)
    (linked : control.Linked db origin) (sourced : control.Sourced) (delivered : control.Delivered workflow node value origin) :
    (control.next definitions db outside).Delivered workflow node value origin := by
  have newest := only.newest stored owner own
  refine brings_next ?_ ?_ linked sourced delivered ?_ ?_
  · intro job target none _ feeds
    cases none.symm.trans feeds
  · intro job held target _ none _ feeds
    cases none.symm.trans feeds
  · intro job target source read under feeds
    cases Option.some.inj (read.symm.trans feeds)
    rw [under,newest]
    exact result
  · intro job held target source read under feeds
    cases Option.some.inj (read.symm.trans feeds)
    simp only [under,newest,result]
    rfl

/-- The code of the node has returned a value that its worker has not stored yet. -/
structure Pending {definitions : Definitions} (S : Controlled definitions) (workflow : WorkflowId) (node : NodeId)
    (id : TaskId) (value : Json) (key : TaskKey) : Prop where
  unread : Unread S workflow node id
  reports : ∀ thread ∈ S.threads, Control.celery? thread.2 = some key.celeryTaskId → Control.Reports value id thread.2

/-- The value is stored for good, and whoever is fed by the node carries it. -/
structure Stored {definitions : Definitions} (S : Controlled definitions) (workflow : WorkflowId) (node : NodeId)
    (id : TaskId) (value : Json) (key : TaskKey) : Prop where
  childless : ¬Heir S.shared workflow (some node)
  result : ∀ row, S.shared.tasks[id]? = some row → row.result = some (storedResult value)
  settled : ∀ thread ∈ S.threads, Control.celery? thread.2 = some key.celeryTaskId → Control.Settled id thread.2
  delivered : ∀ thread ∈ S.threads, Control.Delivered workflow node (storedResult value) thread.1 thread.2

section stored
variable {definitions : Definitions} {before after : Controlled definitions} {label : Action} {workflow : WorkflowId}
  {node : NodeId} {id : TaskId} {key : TaskKey} {value : Json} {origin : Origin} {control : Control} {outside : Outside}

theorem calling_reports {celery : CeleryId} {own : TaskId} {task : Task} {calls : List Call} {outcome : Except Error Json}
    (returns : outcome = .ok value) : (Control.calling celery own task calls outcome).Reports value id := by
  subst outcome
  refine Control.calling_elim (P := fun point => point.Reports value id) (fun retval _ same => ?_) (fun _ _ _ => trivial)
    (fun _ _ => rfl) (fun _ _ => rfl)
  exact (Except.ok.inj same).symm

/-- A worker that holds its own task holds the one with its celery id. -/
theorem carried_id (sound : Sound before) (stored : before.shared.taskKey id = some key) {other : TaskId} {task : Task}
    (there : before.shared.taskKey other = some task.key) (own : task.celeryTaskId = key.celeryTaskId) : other = id :=
  sound.shared.unique other id task.key key there stored own

theorem reports_next (sound : Sound before) (stored : before.shared.taskKey id = some key)
    (unread : Unread before workflow node id) (member : (origin,control) ∈ before.threads)
    (carries : control.celery? = some key.celeryTaskId) (reports : control.Reports value id)
    (waits : ∀ celery depth own task retval, control ≠ .successSave celery depth own task retval)
    (goes : (control.next definitions before.shared outside).celery? = some key.celeryTaskId) :
    (control.next definitions before.shared outside).Reports value id := by
  have linked := (sound.threads _ member).2
  cases control with
  | logSave => exact calling_reports reports
  | progressRead celery other task progress rest outcome =>
    simp only [Control.next]
    split
    next row loaded =>
      have same := carried_id sound stored linked.stored (linked.own.trans (Option.some.inj carries))
      subst other
      exact ⟨unread.status row (getTask_ok loaded),reports⟩
    next => trivial
  | progressSave => exact calling_reports reports.2
  | successRead celery retval =>
    simp only [Control.next] at goes ⊢
    split at goes
    next other task found =>
      obtain ⟨there,own⟩ := taskByCeleryId_key found
      have same := carried_id sound stored there (own.trans (Option.some.inj carries))
      have returned : retval = value := reports
      subst other retval
      revert goes
      refine Control.handling_elim (P := fun point => point.celery? = _ → point.Reports value id) (fun _ => trivial)
        (fun _ none => ?_) (fun _ _ _ _ => ⟨rfl,rfl⟩)
      cases none
    next => trivial
  | successSave celery depth own task retval => exact absurd rfl (waits celery depth own task retval)
  | failRead =>
    simp only [Control.next] at goes
    split at goes
    · revert goes
      refine Control.failing_elim (P := fun point => point.celery? = _ → _) (fun none => ?_) (fun _ _ none => ?_) <;>
        cases none
    · cases goes
  | _ => exact reports.elim

/-- Where the value is stored and nothing was started below the node, its worker settles. -/
theorem settled_next (sound : Sound before) (stored : before.shared.taskKey id = some key) (owner : key.workflow = workflow)
    (own : key.nodeId = some node) (childless : ¬Heir before.shared workflow (some node))
    (member : (origin,control) ∈ before.threads) (settled : control.Settled id)
    (goes : (control.next definitions before.shared outside).celery? = some key.celeryTaskId) :
    (control.next definitions before.shared outside).Settled id := by
  have linked := (sound.threads _ member).2
  cases control with
  | successSave => trivial
  | successRow | successData | closeSave =>
    revert goes
    simp only [Control.next]
    repeat' split
    all_goals
      intro goes
      trivial
  | climb celery depth child parent row retval =>
    simp only [Control.next] at goes ⊢
    split at goes
    next other task found =>
      obtain ⟨there,under,named⟩ := parentTask_key found
      revert goes
      refine Control.handling_elim (P := fun point => point.celery? = _ → point.Settled id) (fun _ => trivial)
        (fun _ none => ?_) (fun _ _ _ _ same => ?_)
      · cases none
      · -- the climb would end at the task, so that a workflow below its node exists
        subst other
        have keyed : key = task.key := Option.some.inj (stored.symm.trans there)
        subst key
        have above : row.parent = some workflow := linked.2.delegated.trans (congrArg some (under.symm.trans owner))
        have below : row.nodeId = some node := named.symm.trans own
        exact childless ⟨child,row.key,linked.2.stored,above,below⟩
    next => trivial
  | failRead =>
    simp only [Control.next] at goes
    split at goes
    · revert goes
      refine Control.failing_elim (P := fun point => point.celery? = _ → _) (fun none => ?_) (fun _ _ none => ?_) <;>
        cases none
    · cases goes
  | _ => exact settled.elim

/-- The copy that a worker saves while it reports is no success before the end. -/
theorem reports_save {row : Task} (held : control.Held before.shared) (reports : control.Reports value id)
    (waits : ∀ celery depth own task retval, control ≠ .successSave celery depth own task retval)
    {other : TaskId} (busy : control.operation = some (.saveTask other row)) : row.status ≠ .success := by
  cases control with
  | logSave =>
    cases busy
    rw [show row.status = .progress from held]
    exact TaskStatus.noConfusion
  | progressSave =>
    cases busy
    exact reports.1
  | successSave celery depth own task retval => exact absurd rfl (waits celery depth own task retval)
  | startSave => exact reports.elim
  | childSave => exact reports.elim
  | progressRead | successRead | failRead => cases busy
  | _ => exact reports.elim

/-- A step of another worker, or one of the worker before it stores the value. -/
theorem pending_step (carried : Carried before) (only : Only before.shared workflow node id)
    (stored : before.shared.taskKey id = some key) (owner : key.workflow = workflow) (own : key.nodeId = some node)
    (pending : Pending before workflow node id value key) {index : Nat} {answer : Outside} {operation : Operation}
    (found : before.threads[index]? = some (origin,control)) (busy : control.operation = some operation)
    (allowed : operation.stops workflow = false)
    (waits : control.celery? = some key.celeryTaskId → ∀ celery depth own task retval,
      control ≠ .successSave celery depth own task retval) :
    Pending (advanced before index answer origin control operation) workflow node id value key := by
  have present := List.mem_of_getElem? found
  refine ⟨?_,fun thread member goes => ?_⟩
  · refine unread_step carried only stored owner own pending.unread found busy allowed (fun other task child creates => ?_)
      (fun row carries saves => ?_)
    · subst creates
      exact pending.reports _ present rfl
    · subst saves
      exact reports_save (carried.held _ present) (pending.reports _ present carries) (waits carries) busy
  · rcases List.mem_or_eq_of_mem_set member with old | rfl
    · exact pending.reports thread old goes
    · rcases celery_next goes with carries | ⟨_,fresh⟩
      · exact reports_next carried.sound stored pending.unread present carries (pending.reports _ present carries)
          (waits carries) goes
      · exact absurd fresh (Nat.ne_of_lt (carried.sound.shared.fresh id key stored))

/-- Who has not found a node ready has nothing from it. -/
theorem unfed_delivered (linked : control.Linked before.shared origin) (unfed : ¬Fed workflow node origin control) :
    control.Delivered workflow node value origin := by
  have absent {job : Job} {target : Node} {input : String} (message : origin = .message (.processNextNode job))
      (known : job.graph.node? job.currentNodeId = some target) (under : job.workflow = workflow)
      (feeds : feedingNode job.graph target input = some node) (beyond : control.Beyond node) : False := by
    refine unfed ⟨job,message,under,?_,beyond⟩
    rw [← node?_id known]
    exact feedingNode_input feeds
  cases control with
  | create job row target payload output =>
    refine ⟨fun under feeds => ?_,fun under feeds => ?_⟩
    · exact (absent linked.message linked.known under feeds trivial).elim
    · exact (absent linked.message linked.known under feeds trivial).elim
  | payloadRead job row target output source =>
    exact fun under feeds => (absent linked.message linked.known under feeds trivial).elim
  | startRead | startSave | stepRead | runCode =>
    refine fun job target message known => ⟨fun under feeds => ?_,fun under feeds => ?_⟩
    · exact (absent message known under feeds trivial).elim
    · exact (absent message known under feeds trivial).elim
  | _ => trivial

/-- The worker stores the value. -/
theorem pending_stores (carried : Carried before) (stored : before.shared.taskKey id = some key)
    (pending : Pending before workflow node id value key) {index depth : Nat} (answer : Outside) {task : Task} {retval : Json}
    {other : TaskId} (found : before.threads[index]? = some (origin,.successSave key.celeryTaskId depth other task retval)) :
    Stored (advanced before index answer origin (.successSave key.celeryTaskId depth other task retval) (.saveTask other task))
      workflow node id value key := by
  have present := List.mem_of_getElem? found
  obtain ⟨same,result⟩ := pending.reports _ present rfl
  subst other
  refine ⟨fun heir => pending.unread.childless heir,fun row there => ?_,fun thread member carries => ?_,fun thread member => ?_⟩
  · change (before.shared.tasks.set id task)[id]? = _ at there
    rw [List.getElem?_set_self (taskKey_lt stored)] at there
    cases there
    exact result
  · rcases mem_set_eraseIdx member with rfl | inside
    · trivial
    · exact absurd carries (carried.sole.apart found rfl inside)
  · rcases List.mem_or_eq_of_mem_set member with old | rfl
    · exact unfed_delivered (carried.sound.threads _ old).2 (pending.unread.waiting _ old)
    · trivial

theorem settled_save {row : Task} (settled : control.Settled id) (busy : control.operation = some (.saveTask id row)) : False := by
  cases control with
  | successSave =>
    cases busy
    exact settled rfl
  | successRow | successData | closeSave | climb | failRead => cases busy
  | _ => exact settled

/-- Every failure-free step keeps the value and brings it to whoever is fed by the node. -/
theorem stored_step (carried : Carried before) (sourced : ∀ thread ∈ before.threads, Control.Sourced thread.2)
    (only : Only before.shared workflow node id) (stored : before.shared.taskKey id = some key)
    (owner : key.workflow = workflow) (own : key.nodeId = some node) (kept : Stored before workflow node id value key)
    {index : Nat} {answer : Outside} {operation : Operation} (found : before.threads[index]? = some (origin,control))
    (busy : control.operation = some operation) (allowed : operation.stops workflow = false) :
    Stored (advanced before index answer origin control operation) workflow node id value key := by
  have present := List.mem_of_getElem? found
  have linked := (carried.sound.threads _ present).2
  refine ⟨fun heir => ?_,fun row there => ?_,fun thread member goes => ?_,fun thread member => ?_⟩
  · rcases heir_effect linked busy heir with old | ⟨celery,other,task,child,rfl,there,under,named,carries⟩
    · exact kept.childless old
    · have same := only other task.key there under named
      subst other
      cases Option.some.inj (stored.symm.trans there)
      exact kept.settled _ present (congrArg some carries.symm)
  · rcases task_effect stored there with old | rfl
    · exact kept.result row old
    · have carries := saved_carries stored owner own kept.childless linked (carried.held _ present) busy allowed
      exact (settled_save (kept.settled _ present carries) busy).elim
  · rcases List.mem_or_eq_of_mem_set member with old | rfl
    · exact kept.settled thread old goes
    · rcases celery_next goes with carries | ⟨_,fresh⟩
      · exact settled_next carried.sound stored owner own kept.childless present (kept.settled _ present carries) goes
      · exact absurd fresh (Nat.ne_of_lt (carried.sound.shared.fresh id key stored))
  · rcases List.mem_or_eq_of_mem_set member with old | rfl
    · exact kept.delivered thread old
    · obtain ⟨row,there,same⟩ := Option.map_eq_some_iff.mp stored
      subst key
      exact delivered_next only there owner own (kept.result row there) linked (sourced _ present) (kept.delivered _ present)

theorem origin_celery (origin : Origin) : origin.control.celery? = none := by
  cases origin with
  | message message => cases message <;> rfl
  | request request => cases request <;> rfl

/-- A value that was returned is stored, and once it is stored it stays so. -/
theorem value_step (carried : Carried before) (sourced : ∀ thread ∈ before.threads, Control.Sourced thread.2)
    (allowed : faultless workflow before.view label) (step : Step machine Origin.control before label after)
    (only : Only before.shared workflow node id) (stored : before.shared.taskKey id = some key) (owner : key.workflow = workflow)
    (own : key.nodeId = some node)
    (holds : Pending before workflow node id value key ∨ Stored before workflow node id value key) :
    Pending after workflow node id value key ∨ Stored after workflow node id value key := by
  by_cases moves : ∃ index answer, label = .advance index answer
  · obtain ⟨index,answer,rfl⟩ := moves
    cases step with
    | advance index answer origin control operation found busy =>
      have passes := faultless_advance allowed found busy
      rcases holds with pending | kept
      · by_cases ends : ∃ depth other task retval, control = .successSave key.celeryTaskId depth other task retval
        · obtain ⟨depth,other,task,retval,rfl⟩ := ends
          cases busy
          exact .inr (pending_stores carried stored pending answer found)
        · refine .inl (pending_step carried only stored owner own pending found busy passes ?_)
          intro carries celery depth other task retval same
          subst same
          cases carries
          exact ends ⟨depth,other,task,retval,rfl⟩
      · exact .inr (stored_step carried sourced only stored owner own kept found busy passes)
  · obtain ⟨workflows,tasks,threads⟩ := resting_step step (fun index answer same => moves ⟨index,answer,same⟩)
    have old {thread : Origin × Control} (member : thread ∈ after.threads)
        (carries : thread.2.celery? = some key.celeryTaskId) : thread ∈ before.threads := by
      rcases threads thread member with inside | fresh
      · exact inside
      · rw [fresh,origin_celery] at carries
        cases carries
    rcases holds with pending | kept
    · left
      exact ⟨pending.unread.fewer workflows tasks threads,fun thread member carries => pending.reports _ (old member carries) carries⟩
    · right
      refine ⟨fun heir => kept.childless ?_,fun row there => kept.result row (tasks ▸ there),
        fun thread member carries => kept.settled _ (old member carries) carries,fun thread member => ?_⟩
      · obtain ⟨child,other,there,above⟩ := heir
        rw [Db.workflowKey,workflows] at there
        exact ⟨child,other,there,above⟩
      · rcases threads thread member with inside | fresh
        · exact kept.delivered thread inside
        · rw [fresh]
          exact origin_brings thread.1

theorem userCode_inv {kwargs : Kwargs} (busy : control.operation = some (.userCode id kwargs)) :
    ∃ celery task, control = .runCode celery id task kwargs := by
  cases control with
  | runCode celery own task given =>
    cases busy
    exact ⟨celery,task,rfl⟩
  | send messages => cases messages <;> cases busy
  | _ => cases busy

/-- When the code of a node's only task returns, its value is not stored yet. -/
theorem returned_pending (carried : Carried before) (only : Only before.shared workflow node id)
    (stored : before.shared.taskKey id = some key) (owner : key.workflow = workflow) (own : key.nodeId = some node)
    (early : Early before workflow node id) {index : Nat} {answer : Outside} {given : Kwargs} (returns : answer.outcome = .ok value)
    (found : before.threads[index]? = some (origin,control)) (runs : control.operation = some (.userCode id given)) :
    Pending (advanced before index answer origin control (.userCode id given)) workflow node id value key := by
  have present := List.mem_of_getElem? found
  have linked := (carried.sound.threads _ present).2
  obtain ⟨celery,task,rfl⟩ := userCode_inv runs
  have keyed : task.key = key := Option.some.inj (linked.stored.symm.trans stored)
  subst key
  have carries : celery = task.key.celeryTaskId := linked.own.symm
  subst carries
  refine ⟨?_,fun thread member goes => ?_⟩
  · refine unread_step carried only stored owner own (early.unread _ stored owner own _ present rfl) found rfl rfl ?_ ?_
    · intro _ _ _ creates
      cases creates
    · intro _ _ saves
      cases saves
  · rcases mem_set_eraseIdx member with rfl | other
    · exact calling_reports returns
    · exact absurd goes (carried.sole.apart found rfl other)

end stored

/-- The code of a node that a worker runs next, with what it is called with. -/
def codeCall : Origin × Option Operation → Option (Job × Kwargs)
  | (.message (.processNextNode job),some (.userCode _ kwargs)) => some (job,kwargs)
  | _ => none

/-- The codes that are called next, with the messages of their workers. -/
def codeCalls (view : Seen) : List (Job × Kwargs) := view.threads.filterMap codeCall

/-- A run on which the code of a task has returned a value. -/
inductive Returned (definitions : Definitions) (allowed : Allowed) (templates : List WorkflowTemplate) (id : TaskId)
    (value : Json) : Installation → Prop
  | run {front back : List (Origin × Operation)} {before after last : Installation} (index : Nat) (answer : Outside)
      (origin : Origin) (given : Kwargs) (head : Execution definitions allowed (installed templates) front before)
      (runs : before.view.threads[index]? = some (origin,some (.userCode id given))) (returns : answer.outcome = .ok value)
      (meets : allowed before.view (.advance index answer))
      (step : Step machine (Origin.program definitions) before (.advance index answer) after)
      (tail : Execution definitions allowed after back last) : Returned definitions allowed templates id value last

section feeding
variable {g : Graph} {target : Node} {input : String} {node : NodeId}

theorem feedingNode_iff : feedingNode g target input = some node ↔
    target.inputs.contains input = true ∧ g.feeding target.id input = some node ∧ node ≠ "" := by
  unfold feedingNode
  split
  next has => simp only [Option.filter_eq_some_iff,bne_iff_ne,has,true_and]
  next lacks =>
    constructor
    · intro feeds
      cases feeds
    · intro feeds
      exact absurd feeds.1 lacks

theorem feedingNode_none (unfed : g.feeding target.id input = none) : feedingNode g target input = none := by
  unfold feedingNode
  rw [unfed]
  split <;> rfl

end feeding

theorem storedResult_eq_iff {value : Json} : storedResult value = value ↔ value.truthy = true := by
  constructor
  · intro same
    by_contra falsy
    rw [storedResult,if_neg falsy] at same
    rw [← same] at falsy
    exact falsy rfl
  · intro truthy
    rw [storedResult,if_pos truthy]

theorem unused_early (definitions : Definitions) (templates : List WorkflowTemplate) {workflow : WorkflowId} {node : NodeId}
    {id : TaskId} : Early (unused definitions templates) workflow node id :=
  ⟨fun _ member => absurd member List.not_mem_nil,fun _ _ _ _ _ member => absurd member List.not_mem_nil⟩

section runs
variable {definitions : Definitions} {templates : List WorkflowTemplate} {allowed : Allowed} {workflow : WorkflowId}

/-- Where a worker is about to call the code of its node. -/
theorem codeCall_control {S : Controlled definitions} {job : Job} {kwargs : Kwargs} (calls : (job,kwargs) ∈ codeCalls S.view) :
    ∃ celery id task, (.message (.processNextNode job),.runCode celery id task kwargs) ∈ S.threads := by
  obtain ⟨⟨origin,operation⟩,member,same⟩ := List.mem_filterMap.mp calls
  obtain ⟨⟨source,control⟩,inside,equal⟩ := List.mem_map.mp member
  cases equal
  unfold codeCall at same
  split at same
  next other id given shape =>
    cases same
    obtain ⟨rfl,busy⟩ := Prod.mk.inj shape
    obtain ⟨celery,task,rfl⟩ := userCode_inv busy
    exact ⟨celery,id,task,inside⟩
  next => cases same

/-- Every worker that is fed by the node calls its code with what the node's task has stored. -/
theorem returned_delivered (failureFree : ∀ view label, allowed view label → faultless workflow view label) {last : Installation}
    {id : TaskId} {value : Json} (returned : Returned definitions allowed templates id value last) {task : Task}
    (stored : last.shared.tasks[id]? = some task) (owner : task.workflow = workflow) {node : NodeId}
    (own : task.nodeId = some node) (once : Only last.shared workflow node id) {job : Job} {target : Node} {kwargs : Kwargs}
    (calls : (job,kwargs) ∈ codeCalls last.view) (under : job.workflow = workflow)
    (known : job.graph.node? job.currentNodeId = some target) :
    (feedingNode job.graph target "in" = some node → kwargs.previousOutput = some (storedResult value)) ∧
      (feedingNode job.graph target "payload_input" = some node → kwargs.payload = storedResult value) := by
  obtain ⟨index,answer,origin,given,head,runs,returns,meets,step,tail⟩ := returned
  obtain ⟨near,front,alike⟩ := execution_follow head
  obtain ⟨later,taken,following⟩ := step.left origin_simulated alike
  obtain ⟨reached,rest,ends⟩ := tail.follow origin_simulated following
  have first : Carried near ∧ Unfed near workflow ∧ (Only near.shared workflow node id → Early near workflow node id) := by
    refine front.invariant (fun S => Carried S ∧ Unfed S workflow ∧ (Only S.shared workflow node id → Early S workflow node id))
      ?_ ⟨unused_carried definitions templates,unused_unfed definitions templates workflow,fun _ => unused_early definitions templates⟩
    · intro before label after holds permitted move
      obtain ⟨carried,unfed,early⟩ := holds
      refine ⟨carried_step carried move,unfed_step carried.sound unfed move,fun only => ?_⟩
      exact early_step carried (failureFree _ _ permitted) move only (early (only.earlier (sound_step carried.sound move).2))
  obtain ⟨carried,unfed,early⟩ := first
  have onward := (sound_run rest (sound_step carried.sound taken).1).2
  have along := (sound_step carried.sound taken).2
  have carriedLater := carried_step carried taken
  have unfedLater := unfed_step carried.sound unfed taken
  have only : Only reached.shared workflow node id := ends.shared ▸ once
  rw [ends.shared] at stored
  cases taken with
  | advance index answer source control operation found busy =>
    have seen := System.view_found found
    rw [alike.view] at runs
    obtain ⟨rfl,same⟩ := Prod.mk.inj (Option.some.inj (seen.symm.trans runs))
    obtain ⟨celery,held,rfl⟩ := userCode_inv same
    cases busy
    -- the task whose code returns has the key that it has in the end
    have linked := (carried.sound.threads _ (List.mem_of_getElem? found)).2
    have keyed : held.key = task.key :=
      Option.some.inj ((onward.task id _ (along.task id _ linked.stored)).symm.trans (taskKey_of_stored stored))
    have there : near.shared.taskKey id = some task.key := keyed ▸ linked.stored
    have once' : Only near.shared workflow node id := (only.earlier onward).earlier along
    have pending := returned_pending carried once' there owner own (early once') returns found rfl
    have final := rest.invariant (fun S => Carried S ∧ Unfed S workflow ∧ S.shared.taskKey id = some task.key ∧
        (Only S.shared workflow node id → Pending S workflow node id value task.key ∨ Stored S workflow node id value task.key))
      (by
        intro before label after holds permitted move
        obtain ⟨carried,unfed,there,holds⟩ := holds
        have grows := (sound_step carried.sound move).2
        refine ⟨carried_step carried move,unfed_step carried.sound unfed move,grows.task id _ there,fun only => ?_⟩
        have now := only.earlier grows
        exact value_step carried unfed.sourced (failureFree _ _ permitted) move now there owner own (holds now))
      ⟨carriedLater,unfedLater,along.task id _ there,fun _ => .inl pending⟩
    obtain ⟨carriedLast,_,_,holds⟩ := final
    rw [ends.view] at calls
    obtain ⟨another,mine,copy,member⟩ := codeCall_control calls
    have delivered : Control.Delivered workflow node (storedResult value) (.message (.processNextNode job))
        (.runCode another mine copy kwargs) := by
      rcases holds only with pending | kept
      · exact unfed_delivered (carriedLast.sound.threads _ member).2 (pending.unread.waiting _ member)
      · exact kept.delivered _ member
    obtain ⟨output,payload⟩ := delivered job target rfl known
    exact ⟨output under,payload under⟩

/-- A node that is not fed is called without an output. -/
theorem unfed_output {events : List (Origin × Operation)} {last : Installation}
    (run : Execution definitions allowed (installed templates) events last) {job : Job} {target : Node} {kwargs : Kwargs}
    (calls : (job,kwargs) ∈ codeCalls last.view) (known : job.graph.node? job.currentNodeId = some target)
    (unfed : feedingNode job.graph target "in" = none) : kwargs.previousOutput = none := by
  obtain ⟨reached,follows,alike⟩ := execution_follow run
  have holds : Sound reached ∧ Unfed reached job.workflow := by
    refine follows.invariant (fun S => Sound S ∧ Unfed S job.workflow) ?_
      ⟨unused_sound templates,unused_unfed definitions templates job.workflow⟩
    intro before label after holds _ step
    exact ⟨(sound_step holds.1 step).1,unfed_step holds.1 holds.2 step⟩
  rw [alike.view] at calls
  obtain ⟨celery,id,task,member⟩ := codeCall_control calls
  exact (holds.2.output _ member job target rfl known).1 unfed

/-- A node that is fed no payload is called with the one of the workflow. -/
theorem default_payload (within : ∀ view label, allowed view label → samePayload workflow view label)
    {events : List (Origin × Operation)} {last : Installation}
    (run : Execution definitions allowed (installed templates) events last) {job : Job} {target : Node} {kwargs : Kwargs}
    (calls : (job,kwargs) ∈ codeCalls last.view) (under : job.workflow = workflow)
    (known : job.graph.node? job.currentNodeId = some target) (unfed : feedingNode job.graph target "payload_input" = none) :
    last.shared.payload workflow = some kwargs.payload := by
  obtain ⟨reached,follows,alike⟩ := execution_follow run
  have holds : Sound reached ∧ Unfed reached workflow ∧ Paid reached workflow ∧ Defaults reached workflow := by
    refine follows.invariant (fun S => Sound S ∧ Unfed S workflow ∧ Paid S workflow ∧ Defaults S workflow) ?_
      ⟨unused_sound templates,unused_unfed definitions templates workflow,⟨?_,?_⟩,?_⟩
    · intro before label after holds permitted step
      obtain ⟨sound,unfed,paid,defaults⟩ := holds
      have same := within _ _ permitted
      exact ⟨(sound_step sound step).1,unfed_step sound unfed step,(paid_step sound paid same step).1,
        defaults_step sound unfed paid same defaults step⟩
    all_goals exact fun _ member => absurd member List.not_mem_nil
  obtain ⟨_,_,_,defaults⟩ := holds
  rw [alike.view] at calls
  obtain ⟨celery,id,task,member⟩ := codeCall_control calls
  rw [alike.shared]
  exact (defaults _ member job target rfl known).2 under unfed

/-- The code of a node that is fed by the only task of another one is called with what
that task's code has returned exactly if the value is truthy and the node has the input;
without a connection to its payload it is called with the payload of the workflow. -/
theorem outputs_arrive (definitions : Definitions) (templates : List WorkflowTemplate) (allowed : Allowed) (workflow : WorkflowId)
    (failureFree : ∀ view label, allowed view label → faultless workflow view label)
    (events : List (Origin × Operation)) (last : Installation)
    (run : Execution definitions allowed (installed templates) events last)
    (job : Job) (target : Node) (kwargs : Kwargs) (calls : (job,kwargs) ∈ codeCalls last.view) (under : job.workflow = workflow)
    (known : job.graph.node? job.currentNodeId = some target) :
    (∀ id value task node, Returned definitions allowed templates id value last → last.shared.tasks[id]? = some task →
      task.workflow = workflow → task.nodeId = some node → Only last.shared workflow node id →
      (job.graph.feeding target.id "in" = some node →
        (kwargs.previousOutput = some value ↔ value.truthy = true ∧ target.inputs.contains "in" = true ∧ node ≠ "")) ∧
      (job.graph.feeding target.id "payload_input" = some node → target.inputs.contains "payload_input" = true → node ≠ "" →
        (kwargs.payload = value ↔ value.truthy = true))) ∧
    ((∀ view label, allowed view label → samePayload workflow view label) →
      job.graph.feeding target.id "payload_input" = none → last.shared.payload workflow = some kwargs.payload) := by
  refine ⟨fun id value task node returned stored owner own once => ⟨fun feeds => ?_,fun feeds has named => ?_⟩,
    fun within unfed => default_payload within run calls under known (feedingNode_none unfed)⟩
  · have delivered := (returned_delivered failureFree returned stored owner own once calls under known).1
    constructor
    · intro arrives
      have fed : feedingNode job.graph target "in" = some node := by
        cases found : feedingNode job.graph target "in" with
        | none =>
          rw [unfed_output run calls known found] at arrives
          cases arrives
        | some other =>
          have same := (feedingNode_iff.mp found).2.1
          exact (same.symm.trans feeds)
      have stored := Option.some.inj ((delivered fed).symm.trans arrives)
      exact ⟨storedResult_eq_iff.mp stored,(feedingNode_iff.mp fed).1,(feedingNode_iff.mp fed).2.2⟩
    · intro holds
      obtain ⟨truthy,has,named⟩ := holds
      rw [delivered (feedingNode_iff.mpr ⟨has,feeds,named⟩),storedResult_eq_iff.mpr truthy]
  · have delivered := (returned_delivered failureFree returned stored owner own once calls under known).2
      (feedingNode_iff.mpr ⟨has,feeds,named⟩)
    rw [delivered]
    exact storedResult_eq_iff

end runs

/-- Whether a thread is about to run the code of a task. -/
def callsCode (id : TaskId) : Origin × Option Operation → Bool
  | (_,some (.userCode other _)) => other == id
  | _ => false

/-- A schedule up to the code of a task, and one from its return on. -/
theorem schedule_returns (definitions : Definitions) (allowed : Allowed) [∀ view label, Decidable (allowed view label)]
    (templates : List WorkflowTemplate) (front back : Schedule) (index : Nat) (id : TaskId) (value : Json)
    (found : Installation → Bool)
    (computed : ((installed templates).execute machine (Origin.program definitions) allowed front).any (fun before =>
      (before.view.threads[index]?).any (callsCode id) &&
        (before.take machine (Origin.program definitions) allowed (.advance index (.returns value))).any (fun after =>
          (after.execute machine (Origin.program definitions) allowed back).any found)) = true) :
    ∃ events last, Execution definitions allowed (installed templates) events last ∧
      Returned definitions allowed templates id value last ∧ found last = true := by
  obtain ⟨before,reached,rest⟩ := (Option.any_eq_true _ _).mp computed
  obtain ⟨calls,rest⟩ := Bool.and_eq_true_iff.mp rest
  obtain ⟨⟨origin,operation⟩,runs,code⟩ := (Option.any_eq_true _ _).mp calls
  obtain ⟨after,taken,rest⟩ := (Option.any_eq_true _ _).mp rest
  obtain ⟨last,continued,holds⟩ := (Option.any_eq_true _ _).mp rest
  obtain ⟨_,head⟩ := execute_run front reached
  obtain ⟨_,middle⟩ := take_run taken
  obtain ⟨_,tail⟩ := execute_run back continued
  unfold callsCode at code
  split at code
  next source other given shape =>
    cases shape
    cases beq_iff_eq.mp code
    unfold System.take at taken
    split at taken
    next meets =>
      exact ⟨_,last,(head.trans middle).trans tail,
        .run index (.returns value) origin given head runs rfl meets (apply_step _ _ _ taken) tail,holds⟩
    next => cases taken
  next => cases code

/-- The second node of a chain is about to be called, after the code of the first one has returned. -/
def secondCalled (called : Json → Bool) (S : Installation) : Bool :=
  (codeCalls S.view).any (fun call => decide (call.1.workflow = 0 ∧ call.1.graph = twoNodes ∧ call.1.currentNodeId = "b") &&
    (call.2.previousOutput.any called)) &&
  (S.shared.tasks.map (fun task => (task.workflow,task.nodeId)) == [(0,some "a"),(0,some "b")])

def untilCode (steps : Nat) : Schedule := .take (.move (.deliver 0))::List.replicate steps (.take (.advance 0 (.returns .null)))

theorem second_called (value : Json) (called : Json → Bool)
    (computed : ((installed [⟨"t",0,twoNodes⟩]).execute machine (Origin.program versionOne) (faultless 0) (opened ++ untilCode 5)).any
      (fun before => (before.view.threads[0]?).any (callsCode 0) &&
        (before.take machine (Origin.program versionOne) (faultless 0) (.advance 0 (.returns value))).any (fun after =>
          (after.execute machine (Origin.program versionOne) (faultless 0)
            (.finish 0 (.returns .null)::untilCode 7)).any (secondCalled called))) = true) :
    ∃ events last job kwargs task output, Execution versionOne (faultless 0) (installed [⟨"t",0,twoNodes⟩]) events last ∧
      Returned versionOne (faultless 0) [⟨"t",0,twoNodes⟩] 0 value last ∧ (job,kwargs) ∈ codeCalls last.view ∧
      job.workflow = 0 ∧ job.graph.node? job.currentNodeId = some (codeNode "b") ∧ job.graph.feeding "b" "in" = some "a" ∧
      last.shared.tasks[0]? = some task ∧ task.workflow = 0 ∧ task.nodeId = some "a" ∧ Only last.shared 0 "a" 0 ∧
      kwargs.previousOutput = some output ∧ called output = true := by
  obtain ⟨events,last,run,returned,found⟩ := schedule_returns _ _ _ _ _ _ _ _ _ computed
  obtain ⟨calls,tasks⟩ := Bool.and_eq_true_iff.mp found
  obtain ⟨⟨job,kwargs⟩,member,fits⟩ := List.any_eq_true.mp calls
  obtain ⟨shape,output⟩ := Bool.and_eq_true_iff.mp fits
  obtain ⟨under,graph,current⟩ := of_decide_eq_true shape
  obtain ⟨value,there,holds⟩ := (Option.any_eq_true _ _).mp output
  have rows : last.shared.tasks.map (fun task => (task.workflow,task.nodeId)) = [(0,some "a"),(0,some "b")] := beq_iff_eq.mp tasks
  have row (id : TaskId) : (last.shared.tasks[id]?).map (fun task => (task.workflow,task.nodeId)) =
      [((0 : WorkflowId),some "a"),(0,some "b")][id]? := by
    rw [← rows,List.getElem?_map]
  obtain ⟨task,stored,same⟩ := Option.map_eq_some_iff.mp (row 0)
  obtain ⟨owner,own⟩ := Prod.mk.inj same
  refine ⟨events,last,job,kwargs,task,value,run,returned,member,under,?_,?_,stored,owner,own,?_,there,holds⟩
  · rw [show job.currentNodeId = "b" from current,show job.graph = twoNodes from graph]
    decide
  · rw [show job.graph = twoNodes from graph]
    decide
  · intro other key kept _ named
    obtain ⟨another,found,rfl⟩ := Option.map_eq_some_iff.mp kept
    have here := row other
    rw [found] at here
    rcases other with _ | _ | other
    · rfl
    · have different : another.nodeId = some "b" := congrArg Prod.snd (Option.some.inj here)
      have equal : another.nodeId = some "a" := named
      exact absurd (equal.symm.trans different) (by decide)
    · cases here

/-- A true that the first node returns is what the second one is called with. -/
theorem outputs_arrive_true : ∃ last job kwargs, Returned versionOne (faultless 0) [⟨"t",0,twoNodes⟩] 0 (.bool true) last ∧
    (job,kwargs) ∈ codeCalls last.view ∧ job.graph.feeding "b" "in" = some "a" ∧
    kwargs.previousOutput = some (.bool true) := by
  obtain ⟨events,last,job,kwargs,task,_,run,returned,calls,under,known,feeds,stored,owner,own,once,_⟩ :=
    second_called (.bool true) Json.truthy (by decide)
  refine ⟨last,job,kwargs,returned,calls,feeds,?_⟩
  have arrives := (outputs_arrive versionOne [⟨"t",0,twoNodes⟩] (faultless 0) 0 (fun _ _ meets => meets) events last run job
    (codeNode "b") kwargs calls under known).1 0 (.bool true) task "a" returned stored owner own once
  exact (arrives.1 feeds).mpr ⟨rfl,by decide,by decide⟩

/-- A false does not arrive: the second node is called with a message in its place. -/
theorem false_replaced : ∃ last job kwargs task, Returned versionOne (faultless 0) [⟨"t",0,twoNodes⟩] 0 (.bool false) last ∧
    last.shared.tasks[0]? = some task ∧ task.workflow = 0 ∧ task.nodeId = some "a" ∧ Only last.shared 0 "a" 0 ∧
    (job,kwargs) ∈ codeCalls last.view ∧ job.workflow = 0 ∧ job.graph.node? job.currentNodeId = some (codeNode "b") ∧
    job.graph.feeding "b" "in" = some "a" ∧ kwargs.previousOutput ≠ some (.bool false) := by
  obtain ⟨events,last,job,kwargs,task,output,_,returned,calls,under,known,feeds,stored,owner,own,once,given,truthy⟩ :=
    second_called (.bool false) Json.truthy (by decide)
  refine ⟨last,job,kwargs,task,returned,stored,owner,own,once,calls,under,known,feeds,fun same => ?_⟩
  cases Option.some.inj (given.symm.trans same)
  cases truthy

end FinmarsWorkflow
