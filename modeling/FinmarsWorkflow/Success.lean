import FinmarsWorkflow.Attended
import FinmarsWorkflow.Once
import FinmarsWorkflow.Terminal

/-! A workflow is a success only when all of it is, where the last branch ends it.
The status is set by whichever task has no next node, without a look at the other
branches. If nothing else of the family is in flight at that moment and no task
has failed, all tasks are successes then and no message follows. -/
namespace FinmarsWorkflow
open Interleave Relation

/-- A worker that reports to the ancestors of the workflow, or fails. -/
def Control.Rises (workflow : WorkflowId) : Control → Prop
  | .climb _ _ _ parent _ _ => parent < workflow
  | .successSave _ _ _ task _ | .successRow _ _ _ task _ | .successData _ _ _ task _ _ | .closeSave _ _ _ task _ _ =>
    task.workflow < workflow
  | .send messages => ∀ message ∈ messages, message.workflow < workflow
  | .failRead _ _ | .failRow _ _ _ _ | .failSave _ _ _ _ _ | .failClose _ _ _ _ _ | .failParent _ _ _ _
  | .failClimb _ _ _ _ _ | .failReload _ _ _ _ => True
  | _ => False

def Rising (workflow : WorkflowId) (_ : Db) (origin : Origin) (control : Control) : Prop :=
  (∃ message, origin = .message message) ∧ control.Rises workflow

section rising
variable {definitions : Definitions} {before : Controlled definitions} {workflow : WorkflowId}
  {origin : Origin} {control : Control} {operation : Operation}

theorem handling_rises {celery : CeleryId} {depth : Nat} {id : TaskId} {task : Task} {retval : Json}
    (lower : task.workflow < workflow) : (Control.handling celery depth id task retval).operation = none ∨
      (Control.handling celery depth id task retval).Rises workflow :=
  Control.handling_elim (P := fun point => point.operation = none ∨ point.Rises workflow) (.inr trivial)
    (fun _ => .inl rfl) (fun _ _ _ => .inr lower)

theorem failing_rises {depth : Nat} {id : TaskId} {task : Task} {error : Error} :
    (Control.failing depth id task error).operation = none ∨ (Control.failing depth id task error).Rises workflow :=
  Control.failing_elim (P := fun point => point.operation = none ∨ point.Rises workflow) (.inl rfl)
    (fun _ _ => .inr trivial)

theorem rises_next (outside : Outside) (sound : Sound before) (member : (origin,control) ∈ before.threads)
    (rises : control.Rises workflow) : (control.next definitions before.shared outside).operation = none ∨
      (control.next definitions before.shared outside).Rises workflow := by
  have linked := (sound.threads _ member).2
  cases control with
  | climb celery depth child parent row retval =>
    simp only [Control.next]
    split
    next id task found =>
      have owner : task.workflow = parent := (parentTask_key found).2.1
      have lower : ({task with status := .progress} : Task).workflow < workflow :=
        Nat.lt_of_le_of_lt (Nat.le_of_eq owner) rises
      exact handling_rises lower
    next => exact .inr trivial
  | successSave => exact .inr rises
  | successRow =>
    simp only [Control.next]
    repeat' split
    all_goals first | exact .inl rfl | exact .inr rises | exact .inr trivial
  | successData celery depth id task row retval =>
    simp only [Control.next]
    split
    · split
      · split
        · exact .inr rises
        · refine .inr (fun message sent => ?_)
          obtain ⟨node,_,rfl⟩ := List.mem_map.mp sent
          exact rises
      · exact .inr trivial
    · exact .inr trivial
  | closeSave celery depth id task row retval =>
    simp only [Control.next]
    split
    · exact .inl rfl
    next parent up =>
      have lower := sound.shared.parent task.workflow row.key parent linked.2 up
      exact .inr (Nat.lt_trans lower rises)
  | send messages => exact .inr (fun message sent => rises message (List.mem_of_mem_tail sent))
  | failRead | failReload =>
    simp only [Control.next]
    split
    · exact failing_rises
    · exact .inl rfl
  | failRow | failSave | failClose | failParent | failClimb =>
    simp only [Control.next]
    repeat' split
    all_goals first | exact .inl rfl | exact .inr trivial
  | _ => cases rises

theorem idle_outbox (idle : control.operation = none) : control.outbox = [] := by
  cases control with
  | send messages => cases messages with
    | nil => rfl
    | cons => cases idle
  | childSend => cases idle
  | _ => rfl

theorem rises_outbox {message : Message} (rises : control.Rises workflow) (sent : message ∈ control.outbox) :
    message.workflow < workflow := by
  cases control with
  | send => exact rises message sent
  | childSend => cases rises
  | _ => exact absurd sent List.not_mem_nil

theorem rising_careful (workflow : WorkflowId) (sound : Sound before) : Careful (Rising workflow) workflow before := by
  rintro origin control operation answer member _ ⟨⟨message,rfl⟩,rises⟩ busy
  have next := rises_next answer sound member rises
  refine ⟨fun row made => ?_,fun message sent below => ?_,next.imp_right (fun goes => ⟨⟨message,rfl⟩,goes⟩)⟩
  · subst made
    rcases createWorkflow_inv busy with ⟨_,_,_,rfl⟩ | rfl <;> cases rises
  · rcases next with idle | goes
    · rw [idle_outbox idle] at sent
      exact absurd sent List.not_mem_nil
    · exact absurd (above_le sound.shared below) (Nat.not_le.mpr (rises_outbox goes sent))

/-- What a rising worker saves of tasks: those of older workflows, or failures. -/
theorem rises_saveTask {id : TaskId} {row : Task} (rises : control.Rises workflow)
    (busy : control.operation = some (.saveTask id row)) :
    row.workflow < workflow ∨ row.status = .error ∨ row.status = .timeout := by
  cases control with
  | send messages => cases messages <;> cases busy
  | successSave =>
    cases busy
    exact .inl rises
  | failSave =>
    cases busy
    simp only [Task.failed,Error.taskStatus]
    split
    · exact .inr (.inr rfl)
    · exact .inr (.inl rfl)
  | climb | successRow | successData | closeSave | failRead | failRow | failClose | failParent | failClimb
  | failReload => cases busy
  | _ => cases rises

end rising

/-- A success is stored while something of the family is in flight or a task of the
workflow has not succeeded, a task fails after the success, somebody asks for the
family, or a message of it is delivered again. -/
def hasty (workflow : WorkflowId) (view : Seen) : Action → Bool
  | .advance index _ => match view.threads[index]? with
    | some (_,some (.saveWorkflow id row)) => id == workflow && row.status == .success &&
        (view.shared.queue.any (fun message => view.shared.within workflow message.workflow) ||
          (view.threads.eraseIdx index).any (fun thread => thread.2.isSome && engaged view.shared workflow thread) ||
          view.shared.tasks.any (fun task => task.workflow == workflow && !task.status.active && task.status != .success))
    | some (_,some operation) => operation.fails workflow &&
        (view.shared.workflows[workflow]?).any (fun row => row.status == .success)
    | _ => false
  | .move (.request request) => request.asks.any (view.shared.within workflow)
  | .move (.redeliver index) | .move (.lose index) => match view.threads[index]? with
    | some (.message message,_) => view.shared.within workflow message.workflow
    | _ => false
  | _ => false

/-- The last branch of the workflow is the one that ends it. -/
def closing (workflow : WorkflowId) : Allowed := fun view label => hasty workflow view label = false

instance (workflow : WorkflowId) (view : Seen) (label : Action) : Decidable (closing workflow view label) :=
  inferInstanceAs (Decidable (_ = false))

/-- All tasks have succeeded, and nothing of the family but the report to the ancestors goes on. -/
structure Sealed {definitions : Definitions} (S : Controlled definitions) (workflow : WorkflowId) : Prop where
  calm : Calm (Rising workflow) S workflow
  tasks : ∀ (id : TaskId) (task : Task), S.shared.tasks[id]? = some task → task.workflow = workflow →
    task.status = .success

/-- The invariants of a workflow that is ended by its last branch. -/
structure Closing {definitions : Definitions} (S : Controlled definitions) (workflow : WorkflowId) : Prop where
  sound : Sound S
  lone : Lone S
  statused : Statused S
  attended : Attended S workflow
  unasked : ∀ thread ∈ S.threads, ∀ request, thread.1 = .request request → request.asks ≠ some workflow
  sealed : ∀ row, S.shared.workflows[workflow]? = some row → row.status = .success → Sealed S workflow

section closing
variable {definitions : Definitions} {before after : Controlled definitions} {label : Action} {workflow : WorkflowId}
  {row : Workflow}

theorem closing_once (sound : Sound before) (allowed : closing workflow before.view label) :
    ¬Repeats workflow before label := by
  rintro ⟨index,message,moves,found,below⟩
  rw [List.getElem?_map,Option.map_eq_some_iff] at found
  obtain ⟨thread,present,same⟩ := found
  have within := above_within sound.shared below
  rcases moves with rfl | rfl <;> simp [closing,hasty,System.view,present,same,within] at allowed

theorem closing_unasked (sound : Sound before) {request : Request} {child : WorkflowId}
    (allowed : closing workflow before.view (.move (.request request))) (asks : request.asks = some child) :
    ¬before.shared.Above child workflow := by
  intro below
  have within := above_within sound.shared below
  simp [closing,hasty,System.view,asks,within] at allowed

theorem unasked_closing (closes : Closing before workflow) (allowed : closing workflow before.view label)
    (step : Step machine Origin.control before label after) :
    ∀ thread ∈ after.threads, ∀ request, thread.1 = .request request → request.asks ≠ some workflow := by
  rintro ⟨origin,control⟩ member request rfl asks
  rcases step.thread_cases member with inside | ⟨_,_,_,_,_,found,_,_,_⟩ | ⟨environment,rfl,reacts,_⟩
  · exact closes.unasked _ inside request rfl asks
  · exact closes.unasked _ (List.mem_of_getElem? found) request rfl asks
  · obtain ⟨_,_,_,_,asked⟩ := react_queue reacts
    cases asked request rfl
    exact closing_unasked closes.sound allowed asks .refl

/-- A success that was there before is still well founded. -/
theorem sealed_step (closes : Closing before workflow) (allowed : closing workflow before.view label)
    (step : Step machine Origin.control before label after) (stored : before.shared.workflows[workflow]? = some row)
    (success : row.status = .success) : Sealed after workflow := by
  have sound := closes.sound
  obtain ⟨calm,tasks⟩ := closes.sealed row stored success
  have careful := rising_careful workflow sound
  refine ⟨calm_step sound calm careful (closing_once sound allowed) (fun _ _ _ rising => rising) ?_ step,
    fun id task found owner => ?_⟩
  · rintro request rfl ⟨child,acts,below⟩
    exact absurd below (closing_unasked sound allowed acts)
  rcases (calm_changes sound calm careful step).2 with ⟨index,answer,origin,control,operation,rfl,there,busy,⟨_,rises⟩,same⟩ | kept
  · rw [same] at found
    cases operation with
    | saveTask other saved =>
      simp only [Operation.effect,List.getElem?_set] at found
      split at found
      · split at found
        · cases found
          rcases rises_saveTask rises busy with lower | failed
          · exact absurd owner (Nat.ne_of_lt lower)
          · have seen : before.view.shared.workflows[workflow]? = some row := stored
            rcases failed with failed | failed <;>
              simp [closing,hasty,seen_thread there busy,Operation.fails,owner,failed,seen,success] at allowed
        · cases found
      · exact tasks id task found owner
    | createTask created =>
      obtain ⟨_,_,_,_,_,rfl,_⟩ := createTask_inv busy
      cases rises
    | _ => exact tasks id task found owner
  · exact tasks id task (kept.tasks id task (owner ▸ .refl) found) owner

/-- The status tells who stores it: a success is stored by the worker of a leaf. -/
theorem success_closes {control : Control} (statused : control.Statused)
    (busy : control.operation = some (.saveWorkflow workflow row)) (success : row.status = .success) :
    ∃ celery depth id task held retval, control = .closeSave celery depth id task held retval ∧
      task.workflow = workflow := by
  cases control with
  | send messages => cases messages <;> cases busy
  | closeSave celery depth id task held retval =>
    cases busy
    exact ⟨celery,depth,id,task,held,retval,rfl,rfl⟩
  | openSave | pauseSave | resumeSave | cancelSave =>
    cases busy
    cases success
  | park =>
    cases busy
    cases (show _ = WorkflowStatus.wait from statused).symm.trans success
  | failClose depth id task held error =>
    cases busy
    simp only [Error.workflowStatus] at success
    split at success <;> cases success
  | _ => cases busy

/-- A success that is stored by the last branch is well founded. -/
theorem sealed_stored (closes : Closing before workflow) (allowed : closing workflow before.view label)
    (step : Step machine Origin.control before label after) (stored : after.shared.workflows[workflow]? = some row)
    (success : row.status = .success) (changed : before.shared.workflows[workflow]? ≠ some row) :
    Sealed after workflow := by
  have sound := closes.sound
  have started : row.status ≠ .init := by
    rw [success]
    decide
  obtain ⟨index,answer,origin,control,rfl,found,busy,known⟩ := saving_step closes.statused step stored changed started
  have member := List.mem_of_getElem? found
  have linked := (sound.threads _ member).2
  have keyed := linked_keyed linked busy
  have family (child : WorkflowId)
      (below : ((Operation.saveWorkflow workflow row).effect before.shared).Above child workflow) :
      before.shared.Above child workflow := above_save keyed below
  simp only [closing,hasty,seen_thread found busy,success,beq_self_eq_true,Bool.true_and,Bool.or_eq_false_iff,
    seen_others] at allowed
  obtain ⟨⟨unqueued,apart⟩,ended⟩ := allowed
  have free (thread : Origin × Control) (inside : thread ∈ before.threads.eraseIdx index) :
      thread.2.operation.isSome = true → engaged before.shared workflow (thread.1,thread.2.operation) = false := by
    intro works
    have seen := List.any_eq_false.mp apart _ (List.mem_map.mpr ⟨thread,inside,rfl⟩)
    simpa [works,System.view] using seen
  have others (thread : Origin × Control) (inside : thread ∈ before.threads.eraseIdx index) :
      (∀ message ∈ thread.2.outbox, ¬before.shared.Above message.workflow workflow) ∧
        (thread.1.Engages before.shared workflow → thread.2.operation = none) := by
    have old := List.mem_of_mem_eraseIdx inside
    cases works : thread.2.operation with
    | none =>
      rw [idle_outbox works]
      exact ⟨fun _ sent => absurd sent List.not_mem_nil,fun _ => rfl⟩
    | some operation =>
      have apart := unengaged sound.shared (sound.threads _ old).2 (closes.lone _ old)
        (free thread inside (by rw [works]; rfl))
      exact ⟨apart.1,fun engaged => works.symm.trans (apart.2.1 engaged)⟩
  obtain ⟨celery,depth,id,task,held,retval,rfl,owner⟩ := success_closes (closes.statused _ member) busy success
  cases step with
  | advance _ _ _ _ operation here moves =>
    cases Option.some.inj (found.symm.trans here)
    cases Option.some.inj (busy.symm.trans moves)
    have own : (Control.next definitions before.shared answer (.closeSave celery depth id task held retval)).operation = none ∨
        Rising workflow before.shared origin
          (Control.next definitions before.shared answer (.closeSave celery depth id task held retval)) := by
      simp only [Control.next]
      split
      · exact .inl rfl
      next parent up =>
        obtain ⟨job,message⟩ := linked.1.owns.worker
        have lower := sound.shared.parent task.workflow held.key parent linked.2 up
        exact .inr ⟨⟨_,message⟩,Nat.lt_of_lt_of_le lower (Nat.le_of_eq owner)⟩
    have silent : (Control.next definitions before.shared answer (.closeSave celery depth id task held retval)).outbox = [] := by
      simp only [Control.next]
      split <;> rfl
    refine ⟨⟨(keyed_grows keyed).known known,fun message queued below => ?_,fun thread inside message sent below => ?_,
      fun thread inside engaged => ?_⟩,fun other stored row_ owner => ?_⟩
    · have away := List.any_eq_false.mp unqueued message queued
      exact away (above_within sound.shared (family _ below))
    · rcases mem_set_eraseIdx inside with rfl | old
      · rw [show Control.outbox _ = [] from silent] at sent
        exact absurd sent List.not_mem_nil
      · exact (others thread old).1 message sent (family _ below)
    · rcases mem_set_eraseIdx inside with rfl | old
      · exact own
      · exact .inl ((others thread old).2 (engages_mono family engaged))
    · have there : before.shared.tasks[other]? = some stored := row_
      by_cases active : stored.status.active = true
      · -- its worker is another one, and busy
        obtain ⟨thread,inside,works⟩ := closes.attended other stored there owner active
        obtain ⟨message,same,below⟩ :=
          works_acts sound.shared (sound.threads _ inside).2 works (taskKey_of_stored there) rfl
        obtain ⟨position,present⟩ := List.mem_iff_getElem?.mp inside
        have differs : position ≠ index := by
          rintro rfl
          cases Option.some.inj (found.symm.trans present)
          cases works
        have idle := (others thread (List.mem_eraseIdx_iff_getElem?.mpr ⟨position,differs,present⟩)).2
          (same ▸ ⟨message.workflow,.refl,owner ▸ below⟩)
        exact absurd idle (works_busy works)
      · have seen := List.any_eq_false.mp ended stored (List.mem_of_getElem? there)
        simpa [owner,active] using seen

theorem closing_step (closes : Closing before workflow) (allowed : closing workflow before.view label)
    (step : Step machine Origin.control before label after) : Closing after workflow := by
  have sound := closes.sound
  refine ⟨(sound_step sound step).1,lone_step sound closes.lone step,statused_step closes.statused step,
    attended_step sound closes.statused closes.attended (fun thread member same => closes.unasked thread member _ same rfl)
      (closing_once sound allowed) step,
    unasked_closing closes allowed step,fun row stored success => ?_⟩
  by_cases same : before.shared.workflows[workflow]? = some row
  · exact sealed_step closes allowed step same success
  · exact sealed_stored closes allowed step stored success same

end closing

theorem unused_closing (definitions : Definitions) (templates : List WorkflowTemplate) (workflow : WorkflowId) :
    Closing (unused definitions templates) workflow :=
  ⟨unused_sound templates,unused_lone definitions templates,fun _ member => absurd member List.not_mem_nil,
    fun id task stored => by simp [unused,installed] at stored,fun _ member => absurd member List.not_mem_nil,
    fun row stored => by simp [unused,installed] at stored⟩

/-- In every state of a run in which the last branch of a workflow is the one that
ends it, a success means that all tasks of the workflow have succeeded and that no
message of it is queued, for every template, with failures and nested workflows. -/
theorem success_is_sound (definitions : Definitions) (templates : List WorkflowTemplate) (workflow : WorkflowId)
    (events : List (Origin × Operation)) (last : Installation)
    (run : Execution definitions (closing workflow) (installed templates) events last)
    (row : Workflow) (stored : last.shared.workflows[workflow]? = some row) (success : row.status = .success) :
    (∀ task ∈ last.shared.tasks, task.workflow = workflow → task.status = .success) ∧
      ∀ job, .processNextNode job ∈ last.shared.queue → job.workflow ≠ workflow := by
  obtain ⟨reached,follows,alike⟩ := execution_follow run
  have closes := follows.invariant (fun S => Closing S workflow)
    (fun _ _ _ closes meets step => closing_step closes meets step) (unused_closing definitions templates workflow)
  rw [alike.shared] at stored ⊢
  obtain ⟨calm,tasks⟩ := closes.sealed row stored success
  refine ⟨fun task member owner => ?_,fun job queued owner => ?_⟩
  · obtain ⟨id,found⟩ := List.mem_iff_getElem?.mp member
    exact tasks id task found owner
  · exact calm.queue _ queued (owner ▸ .refl)

/-- The join of a diamond is its only leaf, and its second message the one that runs it. -/
theorem success_is_sound_diamond : ∃ events last,
    Execution versionOne (closing 0) (installed [⟨"t",0,diamond⟩]) events last ∧
    (last.shared.workflows[0]?).map Workflow.status = some .success ∧ last.shared.tasks.length = 4 ∧
    (∀ task ∈ last.shared.tasks, task.workflow = 0 → task.status = .success) ∧
    ∀ job, .processNextNode job ∈ last.shared.queue → job.workflow ≠ 0 := by
  obtain ⟨events,last,run,found⟩ := schedule_execution versionOne (closing 0) [⟨"t",0,diamond⟩]
    (opened ++ processed 0 .null ++ processed 0 .null ++ processed 1 .null ++ processed 0 .null ++ processed 0 .null)
    (fun S => decide ((S.shared.workflows[0]?).map Workflow.status = some .success ∧ S.shared.tasks.length = 4))
    (by decide)
  obtain ⟨status,length⟩ := of_decide_eq_true found
  obtain ⟨row,stored,success⟩ := Option.map_eq_some_iff.mp status
  exact ⟨events,last,run,status,length,
    success_is_sound versionOne [⟨"t",0,diamond⟩] 0 events last run row stored success⟩

/-- The first of two leaves makes the workflow a success while the other one is queued. -/
theorem success_while_queued : ∃ events last job,
    Execution versionOne (undisturbed 0) (installed [⟨"t",0,fork⟩]) events last ∧
    (last.shared.workflows[0]?).map Workflow.status = some .success ∧
    .processNextNode job ∈ last.shared.queue ∧ job.workflow = 0 := by
  obtain ⟨events,last,run,found⟩ := schedule_execution versionOne (undisturbed 0) [⟨"t",0,fork⟩]
    (opened ++ processed 0 .null ++ processed 0 .null)
    (fun S => decide ((S.shared.workflows[0]?).map Workflow.status = some .success) &&
      S.shared.queue.any (Message.processes 0)) (by decide)
  obtain ⟨success,queued⟩ := Bool.and_eq_true_iff.mp found
  obtain ⟨message,member,kind⟩ := List.any_eq_true.mp queued
  cases message with
  | executeWorkflowV2 => cases kind
  | processNextNode job =>
    exact ⟨events,last,job,run,of_decide_eq_true success,member,by simpa [Message.processes] using kind⟩

end FinmarsWorkflow
