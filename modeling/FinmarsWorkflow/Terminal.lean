import Mathlib.Data.List.InsertIdx
import FinmarsWorkflow.Cancel
import FinmarsWorkflow.Isolation

/-! A terminal status is never overwritten where it is stored late enough.
Every step that stores a status does so without looking at the one that is there.
A success stays if nothing is about to save the row and no task fails any more;
any other end stays if the family has nothing in flight when it is stored. -/
namespace FinmarsWorkflow
open Interleave Relation

/-- A thread that stores nothing but a success in the row of the workflow next. -/
def Control.Safe (workflow : WorkflowId) : Control → Prop
  | .openRead other | .openSave other _ | .pauseSave other _ | .resumeTasks other _ _ | .resumeSave other _ _
  | .cancelTasks other _ | .cancelTask other _ _ _ _ | .cancelSave other _ => other ≠ workflow
  | .park job _ => job.workflow ≠ workflow
  | .failClose _ _ task _ _ => task.workflow ≠ workflow
  | _ => True

/-- A finished workflow whose status nothing is about to change. -/
structure Won {definitions : Definitions} (S : Controlled definitions) (workflow : WorkflowId) : Prop where
  queue : .executeWorkflowV2 workflow ∉ S.shared.queue
  outbox : ∀ thread ∈ S.threads, .executeWorkflowV2 workflow ∉ Control.outbox thread.2
  threads : ∀ thread ∈ S.threads, Control.Safe workflow thread.2

/-- A task of the workflow is marked as failed. -/
def Operation.fails (workflow : WorkflowId) : Operation → Bool
  | .saveTask _ row => row.workflow == workflow && (row.status == .error || row.status == .timeout)
  | _ => false

section won
variable {definitions : Definitions} {before after : Controlled definitions} {label : Action} {workflow : WorkflowId}
  {origin : Origin} {control : Control} {operation : Operation} {row : Workflow}

theorem failed_fails (task : Task) (error : Error) (id : TaskId) (same : task.workflow = workflow) :
    (Operation.saveTask id (task.failed error)).fails workflow = true := by
  simp only [Operation.fails,Task.failed,Error.taskStatus]
  by_cases limit : error.timeLimit <;> simp [limit,same]

theorem safe_of_stage {point : Control} (opens : point.stage ≠ .opening) (parks : point.stage ≠ .parking)
    (pauses : point.stage ≠ .pausing) (resumes : point.stage ≠ .resuming) (cancels : point.stage ≠ .cancelling)
    (fails : point.stage ≠ .failing) : point.Safe workflow := by
  cases point with
  | openRead | openSave => exact absurd rfl opens
  | park => exact absurd rfl parks
  | pauseSave => exact absurd rfl pauses
  | resumeTasks | resumeSave => exact absurd rfl resumes
  | cancelTasks | cancelTask | cancelSave => exact absurd rfl cancels
  | failClose => exact absurd rfl fails
  | _ => trivial

/-- One step of a thread, where the workflow has succeeded and no task of it is failed. -/
theorem safe_next (outside : Outside) (stored : before.shared.workflows[workflow]? = some row) (terminal : row.status.terminal = true)
    (safe : control.Safe workflow) (busy : control.operation = some operation)
    (passes : operation.fails workflow = false) : (control.next definitions before.shared outside).Safe workflow := by
  have loaded {other : WorkflowId} {found : Workflow} (reads : before.shared.getWorkflow other = .ok found)
      (open_ : found.status.terminal = false) : other ≠ workflow := by
    rintro rfl
    cases Option.some.inj (stored.symm.trans (getWorkflow_ok reads))
    cases terminal.symm.trans open_
  cases control with
  | openRead other =>
    simp only [Control.next]
    split
    · exact safe
    · trivial
  | take job =>
    simp only [Control.next]
    split
    next found reads =>
      split
      · split
        next waits => exact loaded reads (by rw [waits]; rfl)
        next =>
          exact Control.checking_elim (P := Control.Safe workflow) (fun _ _ _ => trivial)
            (fun _ => Control.admitted_elim (fun _ _ => trivial) (fun _ _ => trivial) (fun _ => trivial))
      · trivial
    · trivial
  | failSave depth id task held error =>
    cases busy
    simp only [Control.next]
    exact fun same => Bool.false_ne_true (passes.symm.trans (failed_fails task error id same))
  | pauseRead other =>
    simp only [Control.next]
    split
    next found reads =>
      split
      next progress => exact loaded reads (by rw [progress]; rfl)
      · trivial
    · trivial
  | resumeRead other payload =>
    simp only [Control.next]
    split
    next found reads =>
      split
      next waits => exact loaded reads (by rw [waits]; rfl)
      · trivial
    · trivial
  | resumeTasks =>
    simp only [Control.next]
    split
    · trivial
    · exact safe
  | cancelRead other =>
    simp only [Control.next]
    split
    next found reads =>
      split
      · trivial
      next open_ => exact loaded reads (by simpa using open_)
    · trivial
  | cancelTasks | cancelTask =>
    exact Control.cancelling_elim (P := Control.Safe workflow) (fun _ => safe) (fun _ _ _ _ _ _ _ => safe)
  | openSave | openData | resumeSave | resumeData | failRow | failClose | failParent | failClimb | startRead | startSave
  | stepRead | progressRead | templateRead | childCreate | childSend | childSave | successSave | successRow
  | successData | pauseSave | cancelSave =>
    simp only [Control.next]
    repeat' split
    all_goals trivial
  | failRead | failReload =>
    simp only [Control.next]
    split
    · exact Control.failing_elim (P := Control.Safe workflow) trivial (fun _ _ => trivial)
    · trivial
  | runCode | logSave | progressSave =>
    exact Control.calling_elim (P := Control.Safe workflow) (fun _ _ _ => trivial) (fun _ _ _ => trivial)
      (fun _ _ => trivial) (fun _ _ => trivial)
  | successRead | climb =>
    simp only [Control.next]
    split
    · exact Control.handling_elim (P := Control.Safe workflow) trivial (fun _ => trivial) (fun _ _ _ => trivial)
    · trivial
  | _ =>
    exact safe_of_stage (Control.stage_avoids rfl) (Control.stage_avoids rfl) (Control.stage_avoids rfl)
      (Control.stage_avoids rfl) (Control.stage_avoids rfl) (Control.stage_avoids rfl)

/-- The row of the workflow is saved as a success, if it is saved at all. -/
theorem safe_save {saved : Workflow} (safe : control.Safe workflow)
    (busy : control.operation = some (.saveWorkflow workflow saved)) : saved.status = .success := by
  cases control with
  | closeSave =>
    cases busy
    rfl
  | send messages => cases messages <;> cases busy
  | openSave | park | failClose | pauseSave | resumeSave | cancelSave =>
    cases busy
    exact absurd rfl safe
  | _ => cases busy

theorem safe_origin (origin : Origin) (elsewhere : origin ≠ .message (.executeWorkflowV2 workflow)) :
    origin.control.Safe workflow := by
  cases origin with
  | message message => cases message with
    | executeWorkflowV2 other =>
      rintro rfl
      exact elsewhere rfl
    | processNextNode => trivial
  | request request => cases request <;> trivial

theorem won_step (sound : Sound before) (won : Won before workflow)
    (stored : before.shared.workflows[workflow]? = some row) (success : row.status = .success)
    (once : ¬Repeats workflow before label)
    (passes : ∀ index answer origin control operation, label = .advance index answer →
      before.threads[index]? = some (origin,control) → Control.operation control = some operation →
      operation.fails workflow = false)
    (step : Step machine Origin.control before label after) :
    Won after workflow ∧ ∃ now, after.shared.workflows[workflow]? = some now ∧ now.status = .success := by
  have terminal : row.status.terminal = true := by rw [success]; rfl
  have bound := (List.getElem?_eq_some_iff.mp stored).1
  have again {index : Nat} {message : Message} (repeated : label = .move (.redeliver index) ∨ label = .move (.lose index))
      (found : (before.threads.map Prod.fst)[index]? = some (.message message)) :
      message ≠ .executeWorkflowV2 workflow := by
    rintro rfl
    exact once ⟨index,_,repeated,found,.refl⟩
  have kept (queue : List Message) : ∃ now, {before.shared with queue := queue}.workflows[workflow]? = some now ∧
      now.status = .success := ⟨row,stored,success⟩
  cases step with
  | advance index answer origin control operation found busy =>
    have member := List.mem_of_getElem? found
    have linked := (sound.threads _ member).2
    refine ⟨⟨fun queued => ?_,fun thread inside sent => ?_,fun thread inside => ?_⟩,?_⟩
    · cases operation with
      | send message =>
        rcases List.mem_append.mp queued with inside | inside
        · exact won.queue inside
        · cases List.mem_singleton.mp inside
          exact won.outbox _ member (send_outbox busy)
      | _ => exact won.queue queued
    · rcases List.mem_or_eq_of_mem_set inside with others | rfl
      · exact won.outbox _ others sent
      · rcases outbox_next linked busy sent with held | ⟨_,⟨job,⟨⟩⟩,_⟩ | ⟨fresh,_⟩
        · exact won.outbox _ member held
        · exact absurd bound (by rw [show workflow = before.shared.workflows.length from fresh]; exact Nat.lt_irrefl _)
    · rcases List.mem_or_eq_of_mem_set inside with others | rfl
      · exact won.threads _ others
      · exact safe_next answer stored terminal (won.threads _ member) busy (passes _ _ _ _ _ rfl found busy)
    · cases operation with
      | saveWorkflow id saved =>
        by_cases same : id = workflow
        · subst id
          refine ⟨saved,?_,safe_save (won.threads _ member) busy⟩
          exact List.getElem?_set_self bound
        · exact ⟨row,(List.getElem?_set_ne same).trans stored,success⟩
      | createWorkflow created => exact ⟨row,(List.getElem?_append_left bound).trans stored,success⟩
      | _ => exact ⟨row,stored,success⟩
  | close =>
    exact ⟨⟨won.queue,fun thread inside => won.outbox _ (List.mem_of_mem_eraseIdx inside),
      fun thread inside => won.threads _ (List.mem_of_mem_eraseIdx inside)⟩,row,stored,success⟩
  | keep environment changed reacts =>
    rcases react_inv reacts with ⟨_,_,_,_,_,⟨⟩⟩ | ⟨_,_,_,⟨⟩⟩ | ⟨index,message,repeated,found,rfl,_⟩ | ⟨_,_,_,_,_,⟨⟩⟩ |
      ⟨_,_,_,_,_,⟨⟩⟩
    refine ⟨⟨fun queued => ?_,won.outbox,won.threads⟩,kept _⟩
    rcases List.mem_append.mp queued with inside | inside
    · exact won.queue inside
    · exact again (.inl (repeated ▸ rfl)) found (List.mem_singleton.mp inside).symm
  | spawn environment changed origin reacts =>
    have others (elsewhere : origin ≠ .message (.executeWorkflowV2 workflow)) (thread : Origin × Control)
        (inside : thread ∈ before.threads ++ [(origin,origin.control)]) :
        .executeWorkflowV2 workflow ∉ thread.2.outbox ∧ thread.2.Safe workflow := by
      rcases List.mem_append.mp inside with old | new
      · exact ⟨won.outbox _ old,won.threads _ old⟩
      · cases List.mem_singleton.mp new
        exact ⟨by simp [origin_outbox],safe_origin origin elsewhere⟩
    rcases react_inv reacts with ⟨index,message,_,found,rfl,⟨⟩⟩ | ⟨request,_,rfl,⟨⟩⟩ | ⟨_,_,_,_,_,⟨⟩⟩ | ⟨_,_,_,_,_,⟨⟩⟩ |
      ⟨_,_,_,_,_,⟨⟩⟩
    · have elsewhere : Origin.message message ≠ .message (.executeWorkflowV2 workflow) := by
        rintro ⟨⟩
        exact won.queue (List.mem_of_getElem? found)
      exact ⟨⟨fun queued => won.queue (List.mem_of_mem_eraseIdx queued),fun thread inside => (others elsewhere thread inside).1,
        fun thread inside => (others elsewhere thread inside).2⟩,kept _⟩
    · have elsewhere : Origin.request request ≠ .message (.executeWorkflowV2 workflow) := by rintro ⟨⟩
      exact ⟨⟨won.queue,fun thread inside => (others elsewhere thread inside).1,
        fun thread inside => (others elsewhere thread inside).2⟩,kept _⟩
  | drop environment changed index reacts =>
    rcases react_inv reacts with ⟨_,_,_,_,_,⟨⟩⟩ | ⟨_,_,_,⟨⟩⟩ | ⟨_,_,_,_,_,⟨⟩⟩ | ⟨_,message,repeated,found,rfl,⟨⟩⟩ |
      ⟨_,request,_,found,rfl,⟨⟩⟩
    · refine ⟨⟨fun queued => ?_,fun thread inside => won.outbox _ (List.mem_of_mem_eraseIdx inside),
        fun thread inside => won.threads _ (List.mem_of_mem_eraseIdx inside)⟩,kept _⟩
      rcases List.mem_append.mp queued with inside | inside
      · exact won.queue inside
      · exact again (.inr (repeated ▸ rfl)) found (List.mem_singleton.mp inside).symm
    · exact ⟨⟨won.queue,fun thread inside => won.outbox _ (List.mem_of_mem_eraseIdx inside),
        fun thread inside => won.threads _ (List.mem_of_mem_eraseIdx inside)⟩,kept _⟩

end won

/-- The terminal status that an operation stores in the row of the workflow. -/
def Operation.finishes (workflow : WorkflowId) : Operation → Option WorkflowStatus
  | .saveWorkflow id row => if id == workflow && row.status.terminal then some row.status else none
  | _ => none

/-- A thread that may still store another status in the row of the workflow, or open it. -/
def unsettled (workflow : WorkflowId) : Origin × Option Operation → Bool
  | (_,some (.saveWorkflow id _)) => id == workflow
  | (_,some (.send (.executeWorkflowV2 other))) => other == workflow
  | (.message (.executeWorkflowV2 other),some .read) => other == workflow
  | (.request request,some _) => request.asks == some workflow
  | _ => false

/-- A terminal status is stored while something may still overwrite it, a task fails
after the success of its workflow, or a message of the family is delivered again. -/
def premature (workflow : WorkflowId) (view : Seen) : Action → Bool
  | .advance index _ => match view.threads[index]? with
    | some (_,some operation) => match operation.finishes workflow with
      | some status => !(view.shared.workflows[workflow]?).any (fun row => row.status.terminal) &&
          (view.shared.queue.any (fun message => message.opens && message.workflow == workflow) ||
            (view.threads.eraseIdx index).any (unsettled workflow) ||
            (status != .success && !deserted view.shared (view.threads.eraseIdx index) workflow))
      | none => operation.fails workflow && (view.shared.workflows[workflow]?).any (fun row => row.status == .success)
    | _ => false
  | .move (.redeliver index) | .move (.lose index) => match view.threads[index]? with
    | some (.message message,_) => view.shared.within workflow message.workflow
    | _ => false
  | _ => false

/-- Every terminal status of the workflow is stored late enough. -/
def settling (workflow : WorkflowId) : Allowed := fun view label => premature workflow view label = false

instance (workflow : WorkflowId) (view : Seen) (label : Action) : Decidable (settling workflow view label) :=
  inferInstanceAs (Decidable (_ = false))

section final
variable {definitions : Definitions} {before after : Controlled definitions} {label : Action} {workflow : WorkflowId}
  {origin : Origin} {control : Control} {operation : Operation} {row : Workflow}

/-- What stands behind a terminal status. -/
def Final (S : Controlled definitions) (workflow : WorkflowId) : Prop :=
  ∀ row, S.shared.workflows[workflow]? = some row → row.status.terminal = true →
    (row.status = .success → Won S workflow) ∧ (row.status ≠ .success → Quiet S workflow)

theorem repeats_within (sound : Sound before) (repeated : Repeats workflow before label) :
    premature workflow before.view label = true := by
  obtain ⟨index,message,moves,found,below⟩ := repeated
  rw [List.getElem?_map,Option.map_eq_some_iff] at found
  obtain ⟨thread,present,same⟩ := found
  have within := above_within sound.shared below
  rcases moves with rfl | rfl <;> simp [premature,System.view,present,same,within]

theorem seen_thread {index : Nat} (found : before.threads[index]? = some (origin,control))
    (busy : control.operation = some operation) : before.view.threads[index]? = some (origin,some operation) := by
  simp only [System.view,List.getElem?_map,found]
  exact congrArg (fun next => some (origin,next)) busy

theorem seen_others (index : Nat) : before.view.threads.eraseIdx index =
    (before.threads.eraseIdx index).map (fun thread => (thread.1,Control.operation thread.2)) := by
  simp only [System.view,List.eraseIdx_map]

/-- A thread that is seen to have settled stores nothing but a success. -/
theorem settled_safe {db : Db} (linked : control.Linked db origin)
    (settled : unsettled workflow (origin,control.operation) = false) : control.Safe workflow := by
  have differs {other : WorkflowId} (same : (other == workflow) = false) : other ≠ workflow := by simpa using same
  cases control with
  | openRead =>
    cases linked
    exact differs settled
  | openSave | park | failClose | pauseSave | resumeSave | cancelSave => exact differs settled
  | resumeTasks | cancelTasks | cancelTask =>
    cases linked.1
    rintro rfl
    simp [unsettled,Control.operation,Request.asks] at settled
  | _ => trivial

theorem settled_outbox (lone : ∀ first ∈ control.outbox, ∀ second ∈ control.outbox,
      (first.opens = true ∨ ∃ request, origin = .request request ∧ request.asks = none) → first = second)
    (settled : unsettled workflow (origin,control.operation) = false) :
    .executeWorkflowV2 workflow ∉ control.outbox := by
  intro sent
  cases control with
  | send messages => cases messages with
    | nil => exact absurd sent List.not_mem_nil
    | cons head rest =>
      have first := lone _ sent head List.mem_cons_self (.inl rfl)
      subst first
      simp [unsettled,Control.operation] at settled
  | childSend =>
    cases List.mem_singleton.mp sent
    simp [unsettled,Control.operation] at settled
  | _ => exact absurd sent List.not_mem_nil

/-- Where a worker or a request goes after it has saved the row of a workflow. -/
theorem saved_next (before : Controlled definitions) {saved : Workflow} (outside : Outside) (busy : control.operation = some (.saveWorkflow workflow saved)) :
    (control.next definitions before.shared outside).Safe workflow ∧
      (control.next definitions before.shared outside).outbox = [] := by
  cases control with
  | send messages => cases messages <;> cases busy
  | openSave | park | closeSave | failClose | pauseSave | resumeSave | cancelSave =>
    simp only [Control.next]
    repeat' split
    all_goals exact ⟨trivial,rfl⟩
  | _ => cases busy

/-- A worker that stores a failure is past the workflow, and a request to cancel is done. -/
theorem saved_gone {saved : Workflow} (outside : Outside) (linked : control.Linked before.shared origin)
    (statused : control.Statused) (busy : control.operation = some (.saveWorkflow workflow saved))
    (terminal : saved.status.terminal = true) (failed : saved.status ≠ .success) :
    (control.next definitions before.shared outside).operation = none ∨
      Gone workflow before.shared origin (control.next definitions before.shared outside) := by
  cases control with
  | send messages => cases messages <;> cases busy
  | openSave | pauseSave | resumeSave =>
    cases busy
    cases terminal
  | park =>
    cases busy
    rw [show _ = WorkflowStatus.wait from statused] at terminal
    cases terminal
  | closeSave =>
    cases busy
    exact absurd rfl failed
  | failClose =>
    cases busy
    obtain ⟨job,rfl⟩ := linked.1.worker
    exact .inr (Nat.le_refl _)
  | cancelSave =>
    cases busy
    exact .inl rfl
  | _ => cases busy

/-- A terminal status that is stored late enough is well founded. -/
theorem final_stored (sound : Sound before) (lone : Lone before) (statused : Statused before)
    (allowed : settling workflow before.view label) (step : Step machine Origin.control before label after)
    (stored : after.shared.workflows[workflow]? = some row) (terminal : row.status.terminal = true)
    (open_ : ∀ old, before.shared.workflows[workflow]? = some old → old.status.terminal = false) :
    (row.status = .success → Won after workflow) ∧ (row.status ≠ .success → Quiet after workflow) := by
  have changed : before.shared.workflows[workflow]? ≠ some row :=
    fun same => Bool.false_ne_true ((open_ row same).symm.trans terminal)
  have started : row.status ≠ .init := by
    intro init
    rw [init] at terminal
    cases terminal
  obtain ⟨index,answer,origin,control,rfl,found,busy,known⟩ := saving_step statused step stored changed started
  have member := List.mem_of_getElem? found
  have linked := (sound.threads _ member).2
  have unfinished : (before.view.shared.workflows[workflow]?).any (fun row => row.status.terminal) = false := by
    cases here : before.shared.workflows[workflow]? with
    | none => simp [System.view,here]
    | some old => simp [System.view,here,open_ old here]
  have finishes : (Operation.saveWorkflow workflow row).finishes workflow = some row.status := by
    simp [Operation.finishes,terminal]
  simp only [settling,premature,seen_thread found busy,finishes,unfinished,Bool.not_false,Bool.true_and,
    Bool.or_eq_false_iff,seen_others] at allowed
  obtain ⟨⟨unqueued,settled⟩,late⟩ := allowed
  cases step with
  | advance _ _ origin control operation here moves =>
    cases Option.some.inj (found.symm.trans here)
    cases Option.some.inj (busy.symm.trans moves)
    have next := saved_next before answer busy
    constructor
    · intro _
      have seen (thread : Origin × Control) (inside : thread ∈ before.threads.eraseIdx index) :
          unsettled workflow (thread.1,thread.2.operation) = false := by
        simpa using List.any_eq_false.mp settled _ (List.mem_map.mpr ⟨thread,inside,rfl⟩)
      refine ⟨fun queued => ?_,fun thread inside => ?_,fun thread inside => ?_⟩
      · have away := List.any_eq_false.mp unqueued _ queued
        simp [Message.opens,Message.workflow] at away
      · rcases mem_set_eraseIdx inside with rfl | others
        · rw [show Control.outbox _ = [] from next.2]
          exact List.not_mem_nil
        · exact settled_outbox (lone _ (List.mem_of_mem_eraseIdx others)) (seen thread others)
      · rcases mem_set_eraseIdx inside with rfl | others
        · exact next.1
        · exact settled_safe (sound.threads _ (List.mem_of_mem_eraseIdx others)).2 (seen thread others)
    · intro failed
      have idle : deserted before.shared ((before.threads.eraseIdx index).map
          (fun thread => (thread.1,Control.operation thread.2))) workflow = true := by
        simpa [failed,System.view] using late
      have rows := @deserted_rows _ before workflow sound _ idle
      simp only [deserted,Bool.and_eq_true,List.all_eq_true,Bool.not_eq_true'] at idle
      have free (thread : Origin × Control) (inside : thread ∈ before.threads.eraseIdx index) :=
        unengaged sound.shared (sound.threads _ (List.mem_of_mem_eraseIdx inside)).2
          (lone _ (List.mem_of_mem_eraseIdx inside)) (idle.1.2 _ (List.mem_map.mpr ⟨thread,inside,rfl⟩))
      have keyed := linked_keyed linked busy
      have family (child : WorkflowId)
          (below : ((Operation.saveWorkflow workflow row).effect before.shared).Above child workflow) :
          before.shared.Above child workflow := above_save keyed below
      refine ⟨⟨(keyed_grows keyed).known known,fun message queued below => ?_,fun thread inside message sent below => ?_,
        fun thread inside engaged => ?_⟩,fun child below => ?_⟩
      · exact without_above sound.shared (idle.1.1 message queued) (family _ below)
      · rcases mem_set_eraseIdx inside with rfl | others
        · rw [show Control.outbox _ = [] from next.2] at sent
          exact absurd sent List.not_mem_nil
        · exact (free thread others).1 message sent (family _ below)
      · rcases mem_set_eraseIdx inside with rfl | others
        · exact (saved_gone answer linked (statused _ member) busy terminal failed).imp_right
            (fun gone => by cases origin <;> exact gone)
        · exact .inl ((free thread others).2.1 (engages_mono family engaged))
      · by_cases same : child = workflow
        · subst child
          exact ⟨row,stored,terminal⟩
        · obtain ⟨other,there,ended⟩ := rows (family _ below) same
          exact ⟨other,(List.getElem?_set_ne (Ne.symm same)).trans there,ended⟩

theorem final_step (sound : Sound before) (lone : Lone before) (statused : Statused before) (final : Final before workflow)
    (allowed : settling workflow before.view label) (step : Step machine Origin.control before label after) :
    Final after workflow ∧ ∀ row, before.shared.workflows[workflow]? = some row → row.status.terminal = true →
      ∃ now, after.shared.workflows[workflow]? = some now ∧ now.status = row.status := by
  have once : ¬Repeats workflow before label :=
    fun repeated => Bool.false_ne_true (allowed.symm.trans (repeats_within sound repeated))
  by_cases ended : ∃ row, before.shared.workflows[workflow]? = some row ∧ row.status.terminal = true
  · obtain ⟨row,stored,terminal⟩ := ended
    obtain ⟨success,failure⟩ := final row stored terminal
    by_cases won : row.status = .success
    · have passes (index : Nat) (answer : Outside) (origin : Origin) (control : Control) (operation : Operation)
          (same : label = .advance index answer) (found : before.threads[index]? = some (origin,control))
          (busy : Control.operation control = some operation) : operation.fails workflow = false := by
        subst same
        cases fails : operation.fails workflow with
        | false => rfl
        | true =>
          have none : operation.finishes workflow = none := by
            cases operation with
            | saveTask => rfl
            | _ => cases fails
          have there : before.view.shared.workflows[workflow]? = some row := stored
          simp [settling,premature,seen_thread found busy,none,fails,there,won] at allowed
      obtain ⟨still,now,there,same⟩ := won_step sound (success won) stored won once passes step
      refine ⟨fun other found _ => ?_,fun other found _ => ?_⟩
      · cases Option.some.inj (there.symm.trans found)
        exact ⟨fun _ => still,fun differs => absurd same differs⟩
      · cases Option.some.inj (stored.symm.trans found)
        exact ⟨now,there,same.trans won.symm⟩
    · obtain ⟨still,kept⟩ := quiet_step sound (failure won) once step
      have there := kept.workflows workflow row .refl stored
      refine ⟨fun other found _ => ?_,fun other found _ => ?_⟩
      · cases Option.some.inj (there.symm.trans found)
        exact ⟨fun success => absurd success won,fun _ => still⟩
      · cases Option.some.inj (stored.symm.trans found)
        exact ⟨row,there,rfl⟩
  · have open_ (old : Workflow) (stored : before.shared.workflows[workflow]? = some old) : old.status.terminal = false := by
      by_contra terminal
      exact ended ⟨old,stored,by simpa using terminal⟩
    refine ⟨fun row stored terminal => final_stored sound lone statused allowed step stored terminal open_,
      fun row stored terminal => ?_⟩
    cases (open_ row stored).symm.trans terminal

end final

/-- The invariants that hold while every terminal status of the workflow is stored late enough. -/
structure Settling {definitions : Definitions} (S : Controlled definitions) (workflow : WorkflowId) : Prop where
  sound : Sound S
  lone : Lone S
  statused : Statused S
  final : Final S workflow

theorem settling_step {definitions : Definitions} {before after : Controlled definitions} {label : Action}
    {workflow : WorkflowId} (settled : Settling before workflow) (allowed : settling workflow before.view label)
    (step : Step machine Origin.control before label after) : Settling after workflow ∧
      ∀ row, before.shared.workflows[workflow]? = some row → row.status.terminal = true →
        ∃ now, after.shared.workflows[workflow]? = some now ∧ now.status = row.status := by
  obtain ⟨sound,lone,statused,final⟩ := settled
  obtain ⟨still,kept⟩ := final_step sound lone statused final allowed step
  exact ⟨⟨(sound_step sound step).1,lone_step sound lone step,statused_step statused step,still⟩,kept⟩

theorem unused_settling (definitions : Definitions) (templates : List WorkflowTemplate) (workflow : WorkflowId) :
    Settling (unused definitions templates) workflow :=
  ⟨unused_sound templates,unused_lone definitions templates,fun _ member => absurd member List.not_mem_nil,
    fun row stored => by simp [unused,installed] at stored⟩

/-- In every run in which each terminal status of a workflow is stored late enough,
it is the status of the workflow from then on, whatever else is launched, paused,
resumed, cancelled or edited. -/
theorem terminal_status_stays (definitions : Definitions) (templates : List WorkflowTemplate) (workflow : WorkflowId)
    (front back : List (Origin × Operation)) (middle last : Installation)
    (head : Execution definitions (settling workflow) (installed templates) front middle)
    (tail : Execution definitions (settling workflow) middle back last)
    (row : Workflow) (stored : middle.shared.workflows[workflow]? = some row) (terminal : row.status.terminal = true) :
    ∃ now, last.shared.workflows[workflow]? = some now ∧ now.status = row.status := by
  obtain ⟨near,run,alike⟩ := execution_follow head
  obtain ⟨far,rest,like⟩ := tail.follow origin_simulated alike
  rw [alike.shared] at stored
  rw [like.shared]
  have settled : Settling near workflow := run.invariant (fun S => Settling S workflow)
    (fun _ _ _ settled meets step => (settling_step settled meets step).1) (unused_settling definitions templates workflow)
  refine (rest.invariant (fun S => Settling S workflow ∧
    ∃ now, S.shared.workflows[workflow]? = some now ∧ now.status = row.status) ?_ ⟨settled,row,stored,rfl⟩).2
  rintro before label after ⟨settled,now,found,same⟩ meets step
  obtain ⟨still,kept⟩ := settling_step settled meets step
  obtain ⟨later,there,equal⟩ := kept now found (by rw [same]; exact terminal)
  exact ⟨still,later,there,equal.trans same⟩

/-- The first of two leaves finishes the workflow; the second one leaves it as it is. -/
theorem terminal_status_stays_fork : ∃ front back middle last row now,
    Execution versionOne (settling 0) (installed [⟨"t",0,fork⟩]) front middle ∧
    Execution versionOne (settling 0) middle back last ∧
    middle.shared.workflows[0]? = some row ∧ row.status = .success ∧ middle.shared.queue.isEmpty = false ∧
    last.shared.tasks.length = 3 ∧ last.shared.workflows[0]? = some now ∧ now.status = row.status := by
  obtain ⟨front,middle,head,found⟩ := schedule_execution versionOne (settling 0) [⟨"t",0,fork⟩]
    (opened ++ processed 0 .null ++ processed 0 .null)
    (fun S => ((S.shared.workflows[0]?).any (fun row => row.status == .success) && !S.shared.queue.isEmpty) &&
      (S.execute machine (Origin.program versionOne) (settling 0) (processed 0 .null)).any
        (fun T => T.shared.tasks.length == 3)) (by decide)
  obtain ⟨finished,continues⟩ := Bool.and_eq_true_iff.mp found
  obtain ⟨success,queued⟩ := Bool.and_eq_true_iff.mp finished
  obtain ⟨row,stored,status⟩ := (Option.any_eq_true _ _).mp success
  obtain ⟨back,last,tail,three⟩ := execute_any (processed 0 .null) continues
  have won : row.status = .success := by simpa using status
  obtain ⟨now,there,same⟩ := terminal_status_stays versionOne [⟨"t",0,fork⟩] 0 front back middle last head tail row stored
    (by rw [won]; rfl)
  exact ⟨front,back,middle,last,row,now,head,tail,stored,won,by simpa using queued,by simpa using three,there,same⟩

/-- One leaf fails the workflow; the other one finishes it with a success. -/
theorem failed_workflow_succeeds : ∃ front back middle last,
    Execution versionOne (undisturbed 0) (installed [⟨"t",0,fork⟩]) front middle ∧
    Execution versionOne (undisturbed 0) middle back last ∧
    (middle.shared.workflows[0]?).map Workflow.status = some .error ∧
    (last.shared.workflows[0]?).map Workflow.status = some .success := by
  obtain ⟨front,middle,head,found⟩ := schedule_execution versionOne (undisturbed 0) [⟨"t",0,fork⟩]
    (opened ++ processed 0 .null ++ [.take (.move (.deliver 0)),.finish 0 (.raises "failed")])
    (fun S => decide ((S.shared.workflows[0]?).map Workflow.status = some .error) &&
      (S.execute machine (Origin.program versionOne) (undisturbed 0) (processed 0 .null)).any
        (fun T => decide ((T.shared.workflows[0]?).map Workflow.status = some .success))) (by decide)
  obtain ⟨failed,continues⟩ := Bool.and_eq_true_iff.mp found
  obtain ⟨back,last,tail,success⟩ := execute_any (processed 0 .null) continues
  exact ⟨front,back,middle,last,head,tail,of_decide_eq_true failed,of_decide_eq_true success⟩

end FinmarsWorkflow
