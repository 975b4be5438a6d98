import FinmarsWorkflow.Conditions
import FinmarsWorkflow.Flow

/-! A run gets stuck exactly where the last message of a workflow is dropped.
A message whose inputs are not ready is dropped for good, and no later message need come for
its node: an input may be on the branch that a condition did not take, or have run twice. In all
other runs an opened workflow of which nothing is in flight is a success. -/
namespace FinmarsWorkflow
open Interleave Relation

/-- An opened workflow of which nothing is queued or at work is a success. -/
def Unstuck (workflow : WorkflowId) (view : Seen) : Prop :=
  Begun view.shared workflow → (∀ message ∈ view.shared.queue, ¬view.shared.Above message.workflow workflow) →
    (∀ message operation, (Origin.message message,some operation) ∈ view.threads →
      ¬view.shared.Above message.workflow workflow) → Succeeded view.shared workflow

/-- No state that is reached is stuck. -/
def unstuck (workflow : WorkflowId) : Passage Db Origin Operation Outside Environment := fun before label after =>
  smooth workflow before label ∧ Unstuck workflow after

section states
variable {definitions : Definitions} {events : List (Origin × Operation)} {before after : Controlled definitions}
  {label : Action} {workflow : WorkflowId}

/-- A workflow was opened before a worker of it or of a nested one takes a node. -/
theorem Thriving.begun {job : Job} {control : Control} (thriving : Thriving events before workflow)
    (member : (.message (.processNextNode job),control) ∈ before.threads) (below : before.shared.Above job.workflow workflow) :
    Begun before.shared workflow := by
  have steering := thriving.steering workflow
  rcases ReflTransGen.cases_tail below with rfl | ⟨child,_,key,stored,up⟩
  · exact ((steering.threads _ member).1.elim rfl).2.1
  · obtain ⟨id,own,there,owner,_⟩ := thriving.carried.heirs workflow key.nodeId ⟨child,key,stored,up,rfl⟩
    obtain ⟨_,_,_,_,_,_,_,reached⟩ := steering.rows.tasks id own there owner
    exact reached.1

theorem Thriving.unstuck (thriving : Thriving events before workflow) (sane : Sane before.shared workflow) :
    Unstuck workflow before.view := by
  intro begun unqueued idle
  cases (thriving.alive sane).lives begun with
  | queued message member below => exact absurd below (unqueued message member)
  | works message control member below busy =>
    obtain ⟨operation,moves⟩ := Option.ne_none_iff_exists'.mp busy
    exact absurd below (idle message operation (List.mem_map.mpr ⟨_,member,Prod.ext rfl moves⟩))
  | done success => exact success

/-- A workflow whose last message is dropped is stuck. -/
theorem strands_stuck (thriving : Thriving events before workflow) (stranded : strands workflow before.view label after.view = true)
    (step : Step machine Origin.control before label after) : ¬Unstuck workflow after.view := by
  have consistent := thriving.regular.sound.shared
  simp only [strands,Bool.and_eq_true] at stranded
  obtain ⟨danger,ends⟩ := stranded
  cases step with
  | advance index answer origin control operation found busy =>
    simp only [endangered,seen_thread found busy] at danger
    split at danger
    next job same =>
      cases same
      simp only [Bool.and_eq_true,Bool.not_eq_true',seen_others] at danger
      obtain ⟨⟨within,_⟩,alone⟩ := danger
      have dead (lives : Lives before.shared workflow (before.threads.eraseIdx index)) : False :=
        Bool.false_ne_true (alone.symm.trans (thrives_lives consistent lives))
      intro unstuck
      refine dead (.done (unstuck (thriving.begun (List.mem_of_getElem? found) (within_above within))
        (fun message queued below => dead (.queued message queued below)) (fun message operation member below => ?_)))
      obtain ⟨⟨taken,point⟩,inside,same⟩ := List.mem_map.mp member
      obtain rfl : taken = .message message := congrArg Prod.fst same
      have moves : point.operation = some operation := congrArg Prod.snd same
      rcases mem_set_eraseIdx inside with new | others
      · cases new
        rw [ended_advance (List.getElem?_eq_some_iff.mp found).1] at ends
        exact Option.some_ne_none _ (moves.symm.trans (Option.isNone_iff_eq_none.mp ends))
      · exact dead (.works message point others below (by simp [moves]))
    · cases danger
  | close => cases danger
  | keep => cases danger
  | spawn => cases danger
  | drop => cases danger

end states

section runs
variable {definitions : Definitions} {templates : List WorkflowTemplate} {events : List (Origin × Operation)}
  {before after : Installation} {label : Action} {workflow : WorkflowId}

theorem flowing_thriving (course : Passing definitions (flowing workflow) (installed templates) events before) :
    ∃ reached : Controlled definitions, Thriving events reached workflow ∧ Alike before reached := by
  obtain ⟨reached,follows,alike⟩ := course.follow origin_simulated (installed_alike templates)
  refine ⟨reached,?_,alike⟩
  exact follows.recorded (fun events S => Thriving events S workflow)
    (fun _ _ _ _ thriving allowed step => thriving_step thriving allowed step) (unused_thriving definitions templates workflow)

theorem regular_run {last : Controlled definitions}
    (run : Run machine Origin.control fixedTemplates (unused definitions templates) events last) : Regular last :=
  run.invariant Regular (fun _ _ _ regular allowed step => regular_step regular allowed step) (unused_regular templates)

/-- The workflows that are there before a step run the same graphs after it. -/
theorem sane_before (run : Execution definitions fixedTemplates (installed templates) events before)
    (step : Step machine (Origin.program definitions) before label after) (sane : Sane after.shared workflow) :
    Sane before.shared workflow := by
  obtain ⟨reached,follows,alike⟩ := execution_follow run
  obtain ⟨later,taken,same⟩ := step.left origin_simulated alike
  have regular := regular_run follows
  rw [alike.shared]
  rw [same.shared] at sane
  exact sane.earlier (sound_step regular.sound taken).2 (templates_step regular taken)

end runs

/-- Where the workflow and those nested in it run well-formed graphs, nobody edits a template, pauses
or cancels, no task fails and the workflow is opened once: every state of a run is one that
is not stuck, if and only if no step drops the last message of the workflow. -/
theorem unstuck_iff (definitions : Definitions) (templates : List WorkflowTemplate) (workflow : WorkflowId)
    (events : List (Origin × Operation)) (last : Installation) (sane : Sane last.shared workflow) :
    Passing definitions (unstuck workflow) (installed templates) events last ↔
      Passing definitions (flowing workflow) (installed templates) events last := by
  refine ⟨fun course => ?_,fun course => ?_⟩
  · induction course with
    | start => exact .start
    | next label course allowed step ih =>
      obtain ⟨smooth,unstuck⟩ := allowed
      have run : Execution definitions fixedTemplates (installed templates) _ _ := course.run (fun _ _ _ allowed => allowed.1.1)
      have flowing := ih (sane_before run step sane)
      obtain ⟨reached,thriving,alike⟩ := flowing_thriving flowing
      obtain ⟨later,taken,same⟩ := step.left origin_simulated alike
      refine .next label flowing ⟨smooth,?_⟩ step
      rw [alike.view,same.view]
      rw [same.view] at unstuck
      by_contra stranded
      exact strands_stuck thriving (by simpa using stranded) taken unstuck
  · induction course with
    | start => exact .start
    | next label course allowed step ih =>
      have run : Execution definitions fixedTemplates (installed templates) _ _ := course.run (fun _ _ _ allowed => allowed.1.1)
      obtain ⟨reached,thriving,alike⟩ := flowing_thriving course
      obtain ⟨later,taken,same⟩ := step.left origin_simulated alike
      refine .next label (ih (sane_before run step sane)) ⟨allowed.1,?_⟩ step
      rw [alike.view,same.view] at allowed
      rw [same.shared] at sane
      rw [same.view]
      exact (thriving_step thriving allowed taken).unstuck sane

/-- Nothing upsets the workflow, and no worker with a message that waits is the last one. -/
def unendangered (workflow : WorkflowId) : Allowed := fun view label =>
  smooth workflow view label ∧ endangered workflow view label = false

instance (workflow : WorkflowId) (view : Seen) (label : Action) : Decidable (unendangered workflow view label) :=
  inferInstanceAs (Decidable (_ ∧ _))

theorem unendangered_flowing {definitions : Definitions} {workflow : WorkflowId} {first last : Installation}
    {events : List (Origin × Operation)} (run : Execution definitions (unendangered workflow) first events last) :
    Passing definitions (flowing workflow) first events last :=
  run.course (fun _ _ _ allowed => ⟨allowed.1,by simp [strands,allowed.2]⟩)

/-- One workflow is there, with this graph. -/
def alone (g : Graph) (S : Installation) : Bool := S.shared.workflows.length == 1 && S.shared.graph 0 == some g

theorem alone_sane {g : Graph} {S : Installation} (one : alone g S = true) (formed : g.WellFormed) : Sane S.shared 0 := by
  simp only [alone,Bool.and_eq_true,beq_iff_eq] at one
  intro child key _ stored
  have first : child = 0 := Nat.lt_one_iff.mp (Nat.lt_of_lt_of_eq (workflowKey_lt stored) one.1)
  exact ⟨g,first ▸ one.2,formed⟩

/-- All is at rest, with this status of the first workflow and so many tasks. -/
def restsWith (status : WorkflowStatus) (tasks : Nat) (S : Installation) : Bool :=
  S.threads.isEmpty && S.shared.queue.isEmpty && S.shared.tasks.length == tasks &&
    (S.shared.workflows[0]?).any (fun row => row.status == status)

/-- The first message of the join is dropped while the other branch is queued, and no state is stuck. -/
theorem unstuck_iff_diamond : ∃ events last,
    Passing versionOne (unstuck 0) (installed [⟨"t",0,diamond⟩]) events last ∧ restsWith .success 4 last = true := by
  obtain ⟨events,last,run,found⟩ := schedule_execution versionOne (unendangered 0) [⟨"t",0,diamond⟩]
    (opened ++ processed 0 .null ++ processed 0 .null ++ processed 1 .null ++ processed 0 .null ++ processed 0 .null)
    (fun S => alone diamond S && restsWith .success 4 S) (by decide)
  obtain ⟨one,rests⟩ := Bool.and_eq_true_iff.mp found
  have sane := alone_sane one (formed_of_order (by decide) (by decide))
  exact ⟨events,last,(unstuck_iff versionOne [⟨"t",0,diamond⟩] 0 events last sane).mpr (unendangered_flowing run),rests⟩

/-- The two branches of a condition, which meet again. -/
def merging : Graph where
  nodes := [⟨"c",.condition "code",["in"]⟩,codeNode "yes",codeNode "no",codeNode "end"]
  connections := [⟨"c","yes","out_true","in"⟩,⟨"c","no","out_false","in"⟩,codeConnection "yes" "end",
    codeConnection "no" "end"]

theorem restsWith_stuck {tasks : Nat} {S : Installation} (rests : restsWith .progress tasks S = true) : ¬Unstuck 0 S.view := by
  simp only [restsWith,Bool.and_eq_true,List.isEmpty_iff,Option.any_eq_true,beq_iff_eq] at rests
  obtain ⟨⟨⟨threads,queue⟩,_⟩,row,stored,status⟩ := rests
  intro unstuck
  obtain ⟨other,there,success⟩ := unstuck ⟨row,stored,by simp [status]⟩
    (fun message queued => by simp [System.view,queue] at queued) (fun message operation member => by simp [System.view,threads] at member)
  cases Option.some.inj (stored.symm.trans there)
  cases status.symm.trans success

/-- Nothing fails and every message is delivered once: the node behind the two branches waits for the
one that the condition did not take, and the workflow is in progress for ever. -/
theorem merging_run_stuck : ∃ events last,
    Execution versionOne (fun view label => undisturbed 0 view label ∧ faultless 0 view label)
      (installed [⟨"t",0,merging⟩]) events last ∧
    Sane last.shared 0 ∧ restsWith .progress 2 last = true ∧ ¬Unstuck 0 last.view := by
  obtain ⟨events,last,run,found⟩ := schedule_execution versionOne
    (fun view label => undisturbed 0 view label ∧ faultless 0 view label) [⟨"t",0,merging⟩]
    (opened ++ processed 0 (decides true) ++ processed 0 .null ++ processed 0 .null)
    (fun S => alone merging S && restsWith .progress 2 S) (by decide)
  obtain ⟨one,rests⟩ := Bool.and_eq_true_iff.mp found
  exact ⟨events,last,run,alone_sane one (formed_of_order (by decide) (by decide)),rests,restsWith_stuck rests⟩

end FinmarsWorkflow
