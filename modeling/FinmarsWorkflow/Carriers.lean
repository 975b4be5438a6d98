import FinmarsWorkflow.Family

/-! Who carries the celery id of a task, and who saves its row.
The worker that creates a task is the only one that ever carries its celery id.
Nobody else saves the row, but for a failure, a cancel and the end of a nested
workflow that was started for the same node. -/
namespace FinmarsWorkflow
open Interleave

namespace Control

/-- The celery id that a worker carries from the creation of its task on. -/
def celery? : Control → Option CeleryId
  | .startRead celery _ | .startSave celery _ _ _ | .stepRead celery _ _ _ | .runCode celery _ _ _
  | .logSave celery _ _ _ _ | .progressRead celery _ _ _ _ _ | .progressSave celery _ _ _ _ _
  | .templateRead celery _ _ _ _ | .childCreate celery _ _ _ | .childSend celery _ _ _ | .childSave celery _ _
  | .successRead celery _ | .successSave celery _ _ _ _ | .successRow celery _ _ _ _
  | .successData celery _ _ _ _ _ | .closeSave celery _ _ _ _ _ | .climb celery _ _ _ _ _
  | .failRead celery _ => some celery
  | _ => none

end Control

/-- A workflow below was started for a node of the workflow. -/
def Heir (db : Db) (workflow : WorkflowId) (node : Option NodeId) : Prop :=
  ∃ child key, db.workflowKey child = some key ∧ key.parent = some workflow ∧ key.nodeId = node

/-- A workflow is started below another one by a task of it. -/
def Heirs (db : Db) : Prop :=
  ∀ workflow node, Heir db workflow node → ∃ id key, db.taskKey id = some key ∧ key.workflow = workflow ∧ key.nodeId = node

/-- The statuses that a failure or a cancel stores. -/
def TaskStatus.stopped : TaskStatus → Bool
  | .error | .timeout | .canceled => true
  | .init | .progress | .nestedProgress | .success => false

/-- What a worker knows of the copy it is about to save. -/
def Control.Held (db : Db) : Control → Prop
  | .startSave _ _ task _ | .stepRead _ _ task _ | .runCode _ _ task _ | .logSave _ _ task _ _
  | .progressRead _ _ task _ _ _ | .progressSave _ _ task _ _ _ => task.status = .progress
  | .successSave celery _ _ task _ => task.celeryTaskId = celery ∨ Heir db task.workflow task.nodeId
  | .cancelTask _ _ _ task _ => task.status = .canceled
  | _ => True

section controls
variable {definitions : Definitions} {db : Db} {origin : Origin} {control : Control} {operation : Operation}
  {outside : Outside} {celery : CeleryId}

theorem calling_celery {id : TaskId} {task : Task} {calls : List Call} {outcome : Except Error Json} :
    (Control.calling celery id task calls outcome).celery? = some celery :=
  Control.calling_elim (P := fun point => point.celery? = some celery) (fun _ _ _ => rfl) (fun _ _ _ => rfl)
    (fun _ _ => rfl) (fun _ _ => rfl)

theorem checking_celery {job : Job} {row : Workflow} {node : Node} {inputs : List NodeId} :
    (Control.checking job row node inputs).celery? = none :=
  Control.checking_elim (P := fun point => point.celery? = none) (fun _ _ _ => rfl)
    (fun _ => Control.admitted_elim (P := fun point => point.celery? = none) (fun _ _ => rfl) (fun _ _ => rfl) (fun _ => rfl))

/-- A celery id is carried on, or it is the one of the task that is created. -/
theorem celery_next (carries : (control.next definitions db outside).celery? = some celery) :
    control.celery? = some celery ∨ (∃ row, control.operation = some (.createTask row)) ∧ celery = db.uuid := by
  have bare {point : Control} {Q : Prop} (free : point.celery? = none) (holds : point.celery? = some celery) : Q := by
    cases free.symm.trans holds
  cases control with
  | create =>
    cases carries
    exact .inr ⟨⟨_,rfl⟩,rfl⟩
  | take =>
    simp only [Control.next] at carries
    repeat' split at carries
    all_goals first | cases carries | (rw [checking_celery] at carries; cases carries)
  | inputRead =>
    simp only [Control.next] at carries
    split at carries
    · rw [checking_celery] at carries
      cases carries
    · cases carries
  | previousRead =>
    revert carries
    exact Control.withOutput_elim (P := fun point => point.celery? = some celery → _) (fun _ _ => bare rfl)
      (fun _ _ => bare rfl)
  | runCode | logSave | progressSave =>
    left
    rw [← carries]
    exact calling_celery.symm
  | successRead | climb =>
    left
    simp only [Control.next] at carries
    split at carries
    · revert carries
      exact Control.handling_elim (P := fun point => point.celery? = some celery → _) id (fun _ => bare rfl) (fun _ _ _ => id)
    · exact carries
  | failRead | failReload =>
    simp only [Control.next] at carries
    split at carries
    · revert carries
      exact Control.failing_elim (P := fun point => point.celery? = some celery → _) (bare rfl)
        (fun _ _ => bare rfl)
    · cases carries
  | cancelTasks | cancelTask =>
    revert carries
    exact Control.cancelling_elim (P := fun point => point.celery? = some celery → _) (fun _ => bare rfl)
      (fun _ _ _ _ _ _ _ => bare rfl)
  | _ =>
    simp only [Control.next] at carries
    repeat' split at carries
    all_goals first | exact .inl carries | cases carries

/-- Whoever carries a celery id has created the task. -/
theorem celery_owns (linked : control.Linked db origin) (carries : control.celery? = some celery) : Owns db origin celery := by
  cases control with
  | startRead | successRead | failRead =>
    cases carries
    exact linked
  | startSave | stepRead | runCode | logSave | progressRead | childSave =>
    cases carries
    exact linked.owns
  | progressSave | templateRead | childCreate | childSend =>
    cases carries
    exact linked.1.owns
  | successSave | successRow =>
    cases carries
    exact linked.owns
  | successData | closeSave =>
    cases carries
    exact linked.1.owns
  | climb =>
    cases carries
    exact linked.1
  | _ => cases carries

theorem carried_below (consistent : Consistent db) (linked : control.Linked db origin)
    (carries : control.celery? = some celery) : celery < db.uuid := by
  obtain ⟨_,id,key,_,stored,rfl,_⟩ := celery_owns linked carries
  exact consistent.fresh id key stored

end controls

/-- Whether a thread carries a celery id. -/
def carries (celery : CeleryId) (thread : Origin × Control) : Nat := if thread.2.celery? = some celery then 1 else 0

/-- No celery id is carried twice. -/
def Sole {definitions : Definitions} (S : Controlled definitions) : Prop :=
  ∀ celery, weigh (carries celery) S.threads ≤ 1

section sole
variable {definitions : Definitions} {before after : Controlled definitions} {label : Action} {celery : CeleryId}

theorem sole_step (sound : Sound before) (sole : Sole before) (step : Step machine Origin.control before label after) :
    Sole after := by
  intro celery
  have here := sole celery
  cases step with
  | advance index answer origin control operation found busy =>
    have changed := weigh_set (carries celery) before.threads index _ (origin,control.next definitions before.shared answer) found
    have linked := (sound.threads _ (List.mem_of_getElem? found)).2
    change weigh (carries celery) (before.threads.set index (origin,control.next definitions before.shared answer)) ≤ 1
    by_cases goes : (control.next definitions before.shared answer).celery? = some celery
    · rcases celery_next goes with kept | ⟨⟨row,creates⟩,fresh⟩
      · simp only [carries,goes,kept,if_true] at changed here
        omega
      · -- the fresh id is carried by nobody yet
        have none : weigh (carries celery) before.threads = 0 := by
          apply (weigh_eq_zero _ _).mpr
          intro thread member
          unfold carries
          rw [if_neg]
          intro held
          have lower := carried_below sound.shared (sound.threads thread member).2 held
          exact absurd fresh (Nat.ne_of_lt lower)
        simp only [carries,goes,if_true] at changed none
        omega
    · simp only [carries,goes,if_false] at changed here
      omega
  | close index origin control found idle =>
    have changed := weigh_eraseIdx (carries celery) before.threads index _ found
    change weigh (carries celery) (before.threads.eraseIdx index) ≤ 1
    omega
  | keep => exact here
  | spawn environment changed origin reacts =>
    change weigh (carries celery) (before.threads ++ [(origin,origin.control)]) ≤ 1
    rw [weigh_append]
    have none : carries celery (origin,origin.control) = 0 := by
      cases origin with
      | message message => cases message <;> rfl
      | request request => cases request <;> rfl
    simp only [weigh_cons,weigh_nil,none]
    omega
  | drop environment changed index reacts =>
    change weigh (carries celery) (before.threads.eraseIdx index) ≤ 1
    cases found : before.threads[index]? with
    | none =>
      rw [List.eraseIdx_of_length_le (List.getElem?_eq_none_iff.mp found)]
      exact here
    | some thread =>
      have changed := weigh_eraseIdx (carries celery) before.threads index _ found
      omega

/-- The other threads do not carry what one of them carries. -/
theorem Sole.apart (sole : Sole before) {index : Nat} {thread other : Origin × Control}
    (found : before.threads[index]? = some thread) (holds : thread.2.celery? = some celery)
    (member : other ∈ before.threads.eraseIdx index) : other.2.celery? ≠ some celery := by
  intro too
  have removed := weigh_eraseIdx (carries celery) before.threads index _ found
  have least := weight_le_weigh (carries celery) _ _ member
  have most := sole celery
  simp only [carries,holds,too,if_true] at removed least most
  omega

end sole

section savers
variable {definitions : Definitions} {db later : Db} {origin : Origin} {control : Control} {operation : Operation}
  {outside : Outside}

theorem Grows.heir (grows : Grows db later) {workflow : WorkflowId} {node : Option NodeId} (heir : Heir db workflow node) :
    Heir later workflow node := by
  obtain ⟨child,key,stored,above⟩ := heir
  exact ⟨child,key,grows.workflow child key stored,above⟩

theorem Grows.held (grows : Grows db later) (held : control.Held db) : control.Held later := by
  cases control with
  | successSave => exact held.imp_right grows.heir
  | _ => exact held

theorem held_of_stage {control : Control} (runs : control.stage ≠ .running) (finishes : control.stage ≠ .finishing)
    (cancels : control.stage ≠ .cancelling) : control.Held db := by
  cases control with
  | startSave | stepRead | runCode | logSave | progressRead | progressSave => exact absurd rfl runs
  | successSave => exact absurd rfl finishes
  | cancelTask => exact absurd rfl cancels
  | _ => trivial

theorem held_next (linked : control.Linked db origin) (held : control.Held db) :
    (control.next definitions db outside).Held db := by
  have calls {celery : CeleryId} {id : TaskId} {task : Task} {calls : List Call} {outcome : Except Error Json}
      (running : task.status = .progress) : (Control.calling celery id task calls outcome).Held db :=
    Control.calling_elim (P := fun point => point.Held db) (fun _ _ _ => trivial) (fun _ _ _ => trivial)
      (fun _ _ => running) (fun _ _ => running)
  cases control with
  | startRead =>
    simp only [Control.next]
    split
    · rfl
    · trivial
  | startSave => exact held
  | stepRead =>
    simp only [Control.next]
    repeat' split
    all_goals first | exact held | trivial
  | runCode | logSave | progressSave => exact calls held
  | progressRead =>
    simp only [Control.next]
    split
    · exact held
    · trivial
  | successRead celery retval =>
    simp only [Control.next]
    split
    next id task found =>
      exact Control.handling_elim (P := fun point => point.Held db) trivial (fun _ => trivial)
        (fun _ _ _ => .inl (taskByCeleryId_key found).2)
    next => trivial
  | climb celery depth child parent workflow retval =>
    simp only [Control.next]
    split
    next id task found =>
      obtain ⟨_,owner,node⟩ := parentTask_key found
      refine Control.handling_elim (P := fun point => point.Held db) trivial (fun _ => trivial) (fun _ _ _ => .inr ?_)
      exact ⟨child,workflow.key,linked.2.stored,linked.2.delegated.trans (congrArg some owner.symm),node.symm⟩
    next => trivial
  | cancelTasks | cancelTask =>
    exact Control.cancelling_elim (P := fun point => point.Held db) (fun _ => trivial) (fun _ _ _ _ _ _ _ => rfl)
  | previousRead =>
    exact Control.withOutput_elim (P := fun point => point.Held db) (fun _ _ => trivial) (fun _ _ => trivial)
  | payloadRead | create | templateRead | childCreate | childSend | childSave | successSave | successRow | successData
  | cancelRead | cancelSave =>
    simp only [Control.next]
    repeat' split
    all_goals trivial
  | _ => exact held_of_stage (Control.stage_avoids rfl) (Control.stage_avoids rfl) (Control.stage_avoids rfl)

/-- The row of a task is saved by the worker that carries its celery id, when the task
has failed or is cancelled, or at the end of a workflow below it. -/
theorem saved_by {id : TaskId} {row : Task} (linked : control.Linked db origin) (held : control.Held db)
    (busy : control.operation = some (.saveTask id row)) :
    control.celery? = some row.celeryTaskId ∨ row.status.stopped = true ∨ Heir db row.workflow row.nodeId := by
  cases control with
  | startSave | logSave =>
    cases busy
    exact .inl (congrArg some linked.own.symm)
  | childSave =>
    cases busy
    exact .inl (congrArg some linked.own.symm)
  | progressSave celery id task row =>
    cases busy
    have same : task.key = row.key := Option.some.inj (linked.1.stored.symm.trans linked.2)
    have celery : task.celeryTaskId = row.celeryTaskId := congrArg TaskKey.celeryTaskId same
    exact .inl (congrArg some (linked.1.own.symm.trans celery))
  | successSave =>
    cases busy
    rcases held with own | heir
    · exact .inl (congrArg some own.symm)
    · exact .inr (.inr heir)
  | failSave depth id task workflow error =>
    cases busy
    refine .inr (.inl ?_)
    simp only [Task.failed,Error.taskStatus]
    split <;> rfl
  | cancelTask asked cancelled other task rest =>
    cases busy
    have status : row.status = .canceled := held
    exact .inr (.inl (by rw [status]; rfl))
  | send messages => cases messages <;> cases busy
  | _ => cases busy

/-- A workflow below a task is created by the worker of a task of that node. -/
theorem heir_effect {workflow : WorkflowId} {node : Option NodeId} (linked : control.Linked db origin)
    (busy : control.operation = some operation) (heir : Heir (operation.effect db) workflow node) :
    Heir db workflow node ∨ ∃ celery id task child, control = .childCreate celery id task child ∧
      db.taskKey id = some task.key ∧ task.workflow = workflow ∧ task.nodeId = node ∧ task.celeryTaskId = celery := by
  obtain ⟨child,key,stored,above,same⟩ := heir
  by_cases creates : ∃ row, operation = .createWorkflow row
  · obtain ⟨row,rfl⟩ := creates
    rw [createWorkflow_workflowKey] at stored
    split at stored
    next =>
      cases Option.some.inj stored
      rcases createWorkflow_inv busy with ⟨celery,id,task,rfl⟩ | rfl
      · right
        exact ⟨celery,id,task,row,rfl,linked.1.stored,Option.some.inj (linked.2.1.symm.trans above),
          linked.2.2.symm.trans same,linked.1.own⟩
      · cases linked.1.symm.trans above
    next => exact .inl ⟨child,key,stored,above,same⟩
  · have kept := workflowKey_effect (linked_keyed linked busy) (fun row made => creates ⟨row,made⟩) child
    exact .inl ⟨child,key,kept.symm.trans stored,above,same⟩

end savers

/-- Invariants of every run: links, celery ids that are carried once, copies as they
were loaded, and a task above every nested workflow. -/
structure Carried {definitions : Definitions} (S : Controlled definitions) : Prop where
  sound : Sound S
  sole : Sole S
  held : ∀ thread ∈ S.threads, Control.Held S.shared thread.2
  heirs : Heirs S.shared

section carried
variable {definitions : Definitions} {before after : Controlled definitions} {label : Action}

theorem carried_step (carried : Carried before) (step : Step machine Origin.control before label after) : Carried after := by
  obtain ⟨sound,grows⟩ := sound_step carried.sound step
  refine ⟨sound,sole_step carried.sound carried.sole step,fun (origin,control) member => ?_,fun workflow node heir => ?_⟩
  · rcases step.thread_cases member with inside | ⟨_,answer,old,operation,_,found,busy,_,rfl⟩ | ⟨_,_,_,rfl⟩
    · exact grows.held (carried.held _ inside)
    · have present := List.mem_of_getElem? found
      exact grows.held (held_next (carried.sound.threads _ present).2 (carried.held _ present))
    · cases origin with
      | message message => cases message <;> trivial
      | request request => cases request <;> trivial
  · have old (there : Heir before.shared workflow node) :
        ∃ id key, after.shared.taskKey id = some key ∧ key.workflow = workflow ∧ key.nodeId = node := by
      obtain ⟨id,key,stored,owner⟩ := carried.heirs workflow node there
      exact ⟨id,key,grows.task id key stored,owner⟩
    rcases step.shared_cases with same | ⟨_,_,origin,control,operation,_,found,busy,same⟩ | ⟨_,_,_,reacts⟩
    · exact old (same ▸ heir)
    · have linked := (carried.sound.threads _ (List.mem_of_getElem? found)).2
      rw [same] at heir
      rcases heir_effect linked busy heir with there | ⟨_,id,task,_,_,stored,owner,own,_⟩
      · exact old there
      · exact ⟨id,task.key,grows.task id task.key stored,owner,own⟩
    · obtain ⟨queue,same,_⟩ := react_queue reacts
      rw [same] at heir
      exact old heir

theorem unused_carried (definitions : Definitions) (templates : List WorkflowTemplate) :
    Carried (unused definitions templates) := by
  refine ⟨unused_sound templates,fun _ => Nat.zero_le _,fun _ member => absurd member List.not_mem_nil,?_⟩
  intro workflow node heir
  obtain ⟨child,key,stored,_⟩ := heir
  simp [unused,installed,Db.workflowKey] at stored

end carried

end FinmarsWorkflow
