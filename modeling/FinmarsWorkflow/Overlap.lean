import Mathlib
import FinmarsWorkflow.Data
import FinmarsWorkflow.Interleave.Ensures

/-! Runs of one user code that ask whether another one is running.
A run publishes PROGRESS, and its first task then looks at the others; requests and
completions change the published statuses meanwhile, and a message may be delivered more
than once. Which runs have passed their check is history that no program reads. -/
namespace FinmarsWorkflow.Overlap
open Interleave

structure Row where
  userCode : String
  /-- none once the row is deleted -/
  status : Option WorkflowStatus
deriving DecidableEq

structure Board where
  rows : List Row
  /-- the runs whose first task has been sent -/
  sent : List WorkflowId
  /-- the runs whose check has returned `False` -/
  passed : List WorkflowId

def Board.write (board : Board) (id : WorkflowId) (status : Option WorkflowStatus) : Board :=
  {board with rows := board.rows.modify id (fun row => {row with status := status})}

/-- `Workflow.objects.exclude(id__in=[id]).filter(user_code=..., status=PROGRESS).count() > 0` -/
def Board.isWorkflowAlreadyRunning (board : Board) (id : WorkflowId) (userCode : String) : Bool :=
  board.rows.zipIdx.any (fun row => row.2 != id && row.1.userCode == userCode && row.1.status == some .progress)

inductive Operation where
  | read
  | save (id : WorkflowId) (status : WorkflowStatus)
  | delete (id : WorkflowId)
  /-- the first task of the run -/
  | send (id : WorkflowId)
  /-- `is_workflow_already_running` of a run with its own user code -/
  | check (id : WorkflowId)

/-- A save writes the status of the copy it is called on, also where the row is deleted
meanwhile; user codes never change. -/
def Operation.effect : Operation → Board → Board
  | .read,board => board
  | .save id status,board => board.write id (some status)
  | .delete id,board => board.write id none
  | .send id,board => {board with sent := id::board.sent}
  | .check id,board => match board.rows[id]? with
    | some row => if board.isWorkflowAlreadyRunning id row.userCode then board
        else {board with passed := id::board.passed}
    | none => board

/-- How the work of a run ends, if it does. -/
inductive Ending where
  | closed
  | completed
  | failed (timeLimit : Bool)
deriving DecidableEq

abbrev Prog := Program Board Operation Unit Unit Unit

def load (id : WorkflowId) (next : WorkflowStatus → Prog) : Prog := .step .read fun board _ =>
  match board.rows[id]?.bind Row.status with
  | some status => next status
  | none => .raise ()

def save (id : WorkflowId) (status : WorkflowStatus) (next : Prog) : Prog := .step (.save id status) (fun _ _ => next)

/-- `start` or `execute_workflow_v2`. -/
def start (id : WorkflowId) : Prog := load id fun _ =>
  save id .progress (.step (.send id) (fun _ _ => .pure ()))

/-- The check of the first task. The work of a run that has passed it is done outside of this model. -/
def firstTask (id : WorkflowId) : Prog := load id fun _ => .step (.check id) (fun _ _ => .pure ())

/-- The status that `end`, `handle_task_success` without a next node or `on_failure` saves. -/
def Ending.status : Ending → WorkflowStatus
  | .closed | .completed => .success
  | .failed timeLimit => if timeLimit then .timeout else .error

/-- `end`, which saves nothing after an error, and the other ways in which a run ends. -/
def finish (id : WorkflowId) (ending : Ending) : Prog := load id fun status =>
  if ending = .closed ∧ status = .error then .pure () else save id ending.status (.pure ())

def pauseWorkflow (id : WorkflowId) : Prog := load id fun status =>
  if status = .progress then save id .wait (.pure ()) else .pure ()

/-- `resume_workflow`, where the tasks of the workflow may be active or not. -/
def resumeWorkflow (id : WorkflowId) (active : Bool) : Prog := load id fun status =>
  if status = .wait then
    if active then .pure () else save id .progress (.pure ())
  else .pure ()

/-- `process_next_node` of a paused workflow, which saves the row that it has loaded. -/
def processNextNode (id : WorkflowId) : Prog := load id fun status =>
  if status = .wait then save id .wait (.pure ()) else .pure ()

/-- `Workflow.cancel` of a row that is loaded. -/
def cancelLoaded (id : WorkflowId) (next : Prog) : Prog := save id .canceled next

/-- `WorkflowViewSet.cancel` -/
def cancel (id : WorkflowId) : Prog := load id fun status =>
  if status.terminal then .pure () else cancelLoaded id (.pure ())

/-- One round of `bulk_delete`. -/
def bulkDelete (id : WorkflowId) : Prog := load id fun _ =>
  cancelLoaded id (.step (.delete id) (fun _ _ => .pure ()))

inductive Origin where
  | start (id : WorkflowId)
  | firstTask (id : WorkflowId)
  | finish (id : WorkflowId) (ending : Ending)
  | pause (id : WorkflowId)
  | resume (id : WorkflowId) (active : Bool)
  | processNextNode (id : WorkflowId)
  | cancel (id : WorkflowId)
  | bulkDelete (id : WorkflowId)
deriving DecidableEq

def Origin.program : Origin → Prog
  | .start id => Overlap.start id
  | .firstTask id => Overlap.firstTask id
  | .finish id ending => Overlap.finish id ending
  | .pause id => pauseWorkflow id
  | .resume id active => resumeWorkflow id active
  | .processNextNode id => Overlap.processNextNode id
  | .cancel id => Overlap.cancel id
  | .bulkDelete id => Overlap.bulkDelete id

/-- A first task is at work only after it has been sent; every message may be delivered again. -/
def Origin.due (board : Board) : Origin → Bool
  | .firstTask id => board.sent.contains id
  | _ => true

inductive Environment where
  | launch (userCode : String)
  | call (origin : Origin)
  /-- a process is lost with what is left of its program -/
  | lose (index : Nat)

def react : Environment → Board → List Origin → Option (Board × Turn Origin)
  | .launch userCode,board,_ => some ({board with rows := board.rows ++ [⟨userCode,some .init⟩]},.keep)
  | .call origin,board,_ => if origin.due board then some (board,.spawn origin) else none
  | .lose index,board,_ => some (board,.drop index)

def machine : Machine Board Operation Origin Environment := ⟨Operation.effect,react⟩

abbrev programs : Language Board Operation Unit := Program.language Board Operation Unit Unit

abbrev Allowed := Condition Board Origin Operation Unit Environment

abbrev Execution (allowed : Allowed) (first : System Origin programs) (events : List (Origin × Operation))
    (last : System Origin programs) : Prop :=
  Run machine Origin.program allowed first events last

def idle : System Origin programs := ⟨⟨[],[],[]⟩,[]⟩

def unfinished (status : WorkflowStatus) : Bool := status == .progress || status == .wait

def Row.unfinished (row : Row) : Bool := row.status.any Overlap.unfinished

/-- A run that has passed its check and is not finished. -/
def Board.Inside (board : Board) (id : WorkflowId) (userCode : String) : Prop :=
  id ∈ board.passed ∧ ∃ row, board.rows[id]? = some row ∧ row.userCode = userCode ∧ row.unfinished = true

/-- At most one run of a user code is inside. -/
def Board.Exclusive (board : Board) : Prop :=
  ∀ userCode first second, board.Inside first userCode → board.Inside second userCode → first = second

/-- An operation does not let a second run in: a check that passes finds no other run
that passed before and is paused, and a pause, a resume, the parking of a node or an opening
that is repeated does not bring a finished run back beside another one. -/
def Operation.Careful (board : Board) (origin : Origin) : Operation → Prop
  | .read | .delete _ | .send _ => True
  | .check id => ∀ row ∈ board.rows[id]?, row.unfinished = true →
      board.isWorkflowAlreadyRunning id row.userCode = false → ∀ other ∈ board.passed, other ≠ id →
        board.rows[other]? ≠ some ⟨row.userCode,some .wait⟩
  | .save id status => match origin with
    | .finish _ _ | .cancel _ | .bulkDelete _ => True
    | .start _ | .firstTask _ | .pause _ | .resume _ _ | .processNextNode _ => ∀ row ∈ board.rows[id]?, id ∈ board.passed →
        row.unfinished = false → unfinished status = true → ∀ other ∈ board.passed, other ≠ id →
          ∀ there ∈ board.rows[other]?, there.userCode = row.userCode → there.unfinished = false

instance (board : Board) (origin : Origin) (operation : Operation) : Decidable (operation.Careful board origin) := by
  cases operation with
  | read | delete | send => exact .isTrue trivial
  | check id =>
    unfold Operation.Careful
    infer_instance
  | save id status =>
    unfold Operation.Careful
    cases origin <;> infer_instance

/-- Every operation is careful. -/
def careful : Allowed
  | view,.advance index _ => ∀ thread ∈ view.threads[index]?, ∀ operation ∈ thread.2,
      operation.Careful view.shared thread.1
  | _,_ => True

instance (view : View Board Origin Operation) (label : Label Unit Environment) : Decidable (careful view label) := by
  cases label <;> unfold careful <;> infer_instance

def anything : Allowed := fun _ _ => True

instance (view : View Board Origin Operation) (label : Label Unit Environment) : Decidable (anything view label) :=
  .isTrue trivial

/-- What ends a run saves no unfinished status. -/
def Origin.May : Origin → Operation → Prop
  | .finish _ _,.save _ status | .cancel _,.save _ status | .bulkDelete _,.save _ status => unfinished status = false
  | _,_ => True

/-- One run at most is inside, and the runs that have passed have rows. -/
structure Board.Guarded (board : Board) : Prop where
  exclusive : board.Exclusive
  passed : ∀ id ∈ board.passed, id < board.rows.length

section rules
variable {rely : Board → Prop} {may : Operation → Prop} {id : WorkflowId}

private theorem load_ensures {next : WorkflowStatus → Prog} (reads : may .read)
    (rest : ∀ status, (next status).Ensures rely may (fun _ => True)) :
    (load id next).Ensures rely may (fun _ => True) := by
  refine ⟨reads,fun board _ _ => ?_⟩
  dsimp only
  split
  · exact rest _
  · trivial

private theorem step_ensures {operation : Operation} {next : Prog} (performs : may operation)
    (rest : next.Ensures rely may (fun _ => True)) :
    (Program.step operation (fun _ _ => next) : Prog).Ensures rely may (fun _ => True) :=
  ⟨performs,fun _ _ _ => rest⟩

end rules

theorem program_ensures {rely : Board → Prop} (origin : Origin) :
    origin.program.Ensures rely origin.May (fun _ => True) := by
  cases origin with
  | start id =>
    unfold Origin.program Overlap.start
    apply load_ensures trivial
    intro status
    exact step_ensures trivial (step_ensures trivial trivial)
  | firstTask id =>
    unfold Origin.program Overlap.firstTask
    apply load_ensures trivial
    intro status
    exact step_ensures trivial trivial
  | finish id ending =>
    unfold Origin.program Overlap.finish
    apply load_ensures trivial
    intro status
    split
    · trivial
    · refine step_ensures ?_ trivial
      cases ending with
      | closed => rfl
      | completed => rfl
      | failed timeLimit => cases timeLimit <;> rfl
  | pause id =>
    unfold Origin.program pauseWorkflow
    apply load_ensures trivial
    intro status
    split
    · exact step_ensures trivial trivial
    · trivial
  | resume id active =>
    unfold Origin.program resumeWorkflow
    apply load_ensures trivial
    intro status
    split
    · split
      · trivial
      · exact step_ensures trivial trivial
    · trivial
  | processNextNode id =>
    unfold Origin.program Overlap.processNextNode
    apply load_ensures trivial
    intro status
    split
    · exact step_ensures trivial trivial
    · trivial
  | cancel id =>
    unfold Origin.program Overlap.cancel
    apply load_ensures trivial
    intro status
    split
    · trivial
    · exact step_ensures rfl trivial
  | bulkDelete id =>
    unfold Origin.program Overlap.bulkDelete
    apply load_ensures trivial
    intro status
    exact step_ensures rfl (step_ensures trivial trivial)

section boards
variable {board after : Board} {id : WorkflowId} {status : Option WorkflowStatus}

@[simp] theorem write_length : (board.write id status).rows.length = board.rows.length := List.length_modify _ _ _

theorem write_other {other : WorkflowId} (apart : other ≠ id) : (board.write id status).rows[other]? = board.rows[other]? :=
  List.getElem?_modify_ne _ _ (Ne.symm apart)

theorem write_self : (board.write id status).rows[id]? = board.rows[id]?.map (fun row => {row with status := status}) :=
  List.getElem?_modify_eq _ _ _

/-- Only a check that finds no other run in progress lets a run pass. -/
theorem check_cases : (Operation.check id).effect board = board ∨ ∃ row, board.rows[id]? = some row ∧
    board.isWorkflowAlreadyRunning id row.userCode = false ∧
    (Operation.check id).effect board = {board with passed := id::board.passed} := by
  cases found : board.rows[id]? with
  | none =>
    left
    simp only [Operation.effect,found]
  | some row =>
    cases running : board.isWorkflowAlreadyRunning id row.userCode with
    | true =>
      left
      simp only [Operation.effect,found,running,if_true]
    | false =>
      right
      exact ⟨row,rfl,running,by simp [Operation.effect,found,running]⟩

private theorem notRunning {userCode : String} (running : board.isWorkflowAlreadyRunning id userCode = false) :
    ∀ other, other ≠ id → board.rows[other]? ≠ some ⟨userCode,some .progress⟩ := by
  intro other apart found
  have member := List.mk_mem_zipIdx_iff_getElem?.mpr found
  have quiet := List.any_eq_false.mp running _ member
  simp [apart] at quiet

/-- One run at most changes, and it comes in only where no other one is. -/
private theorem Board.Exclusive.enter (id : Nat)
    (others : ∀ userCode other, other ≠ id → after.Inside other userCode → board.Inside other userCode)
    (enters : ∀ userCode, after.Inside id userCode →
      board.Inside id userCode ∨ ∀ other, other ≠ id → ¬ board.Inside other userCode)
    (exclusive : board.Exclusive) : after.Exclusive := by
  have alone : ∀ userCode other, after.Inside id userCode → after.Inside other userCode → id = other := by
    intro userCode other here there
    by_contra apart
    have stayed := others userCode other (Ne.symm apart) there
    rcases enters userCode here with before | free
    · exact apart (exclusive userCode id other before stayed)
    · exact free other (Ne.symm apart) stayed
  intro userCode first second left right
  by_cases same : first = id
  · rw [same]
    exact alone userCode second (same ▸ left) right
  · by_cases same' : second = id
    · rw [same']
      exact (alone userCode first (same' ▸ right) left).symm
    · exact exclusive userCode first second (others userCode first same left) (others userCode second same' right)

private theorem write_exclusive (exclusive : board.Exclusive)
    (enters : ∀ row, board.rows[id]? = some row → id ∈ board.passed → status.any unfinished = true →
      row.unfinished = true ∨ ∀ other, other ≠ id → ¬ board.Inside other row.userCode) : (board.write id status).Exclusive := by
  refine exclusive.enter id ?_ ?_
  · intro userCode other apart inside
    obtain ⟨passed,row,found,rest⟩ := inside
    rw [write_other apart] at found
    exact ⟨passed,row,found,rest⟩
  · intro userCode inside
    obtain ⟨passed,saved,found,code,busy⟩ := inside
    rw [write_self] at found
    obtain ⟨row,stored,rfl⟩ := Option.map_eq_some_iff.mp found
    subst code
    exact (enters row stored passed busy).imp_left (fun earlier => ⟨passed,row,stored,rfl,earlier⟩)

private theorem check_exclusive {origin : Origin} (careful : (Operation.check id).Careful board origin)
    (exclusive : board.Exclusive) : ((Operation.check id).effect board).Exclusive := by
  rcases @check_cases board id with same | ⟨row,found,quiet,same⟩
  · rw [same]
    exact exclusive
  · rw [same]
    refine exclusive.enter id ?_ ?_
    · intro userCode other apart inside
      exact ⟨(List.mem_cons.mp inside.1).resolve_left apart,inside.2⟩
    · intro userCode inside
      obtain ⟨_,own,stored,code,busy⟩ := inside
      change board.rows[id]? = some own at stored
      rw [found] at stored
      cases stored
      right
      intro other apart there
      obtain ⟨passed,⟨otherCode,status⟩,stands,names,open_⟩ := there
      cases names
      cases code
      cases status with
      | none => cases open_
      | some status => cases status with
        | progress => exact notRunning quiet other apart stands
        | wait => exact careful row found busy quiet other passed apart stands
        | init | success | error | timeout | canceled => cases open_

/-- What a careful operation that an origin may take does to a run that is inside afterwards. -/
theorem exclusive_effect {origin : Origin} {operation : Operation} (may : origin.May operation)
    (careful : operation.Careful board origin) (exclusive : board.Exclusive) : (operation.effect board).Exclusive := by
  cases operation with
  | read | send => exact exclusive
  | delete id => exact write_exclusive exclusive (fun _ _ _ busy => by cases busy)
  | check id => exact check_exclusive careful exclusive
  | save id status =>
    apply write_exclusive exclusive
    intro row found passed opens
    rw [Option.any_some] at opens
    cases origin with
    | finish | cancel | bulkDelete =>
      rw [show unfinished status = false from may] at opens
      cases opens
    | start | firstTask | pause | resume | processNextNode =>
      cases earlier : row.unfinished with
      | true => exact .inl rfl
      | false =>
        right
        intro other apart inside
        obtain ⟨before,there,stands,code,busy⟩ := inside
        rw [careful row found passed earlier opens other before apart there stands code] at busy
        cases busy

theorem guarded_effect {origin : Origin} {operation : Operation} (may : origin.May operation)
    (careful : operation.Careful board origin) (guarded : board.Guarded) : (operation.effect board).Guarded := by
  refine ⟨exclusive_effect may careful guarded.exclusive,?_⟩
  cases operation with
  | read | send => exact guarded.passed
  | save id status | delete id =>
    intro other member
    rw [Operation.effect,write_length]
    exact guarded.passed other member
  | check id =>
    rcases @check_cases board id with same | ⟨row,found,_,same⟩
    · rw [same]
      exact guarded.passed
    · rw [same]
      intro other member
      rcases List.mem_cons.mp member with rfl | earlier
      · exact (List.getElem?_eq_some_iff.mp found).1
      · exact guarded.passed other earlier

theorem guarded_react {environment : Environment} {origins : List Origin} {turn : Turn Origin} (guarded : board.Guarded)
    (reacts : react environment board origins = some (after,turn)) : after.Guarded := by
  cases environment with
  | launch userCode =>
    cases reacts
    refine ⟨?_,fun id member => ?_⟩
    · have earlier : ∀ id code, (⟨board.rows ++ [⟨userCode,some .init⟩],board.sent,board.passed⟩ : Board).Inside id code →
          board.Inside id code := by
        intro id code inside
        obtain ⟨passed,row,found,rest⟩ := inside
        refine ⟨passed,row,?_,rest⟩
        rwa [List.getElem?_append_left (guarded.passed id passed)] at found
      exact fun code first second left right =>
        guarded.exclusive code first second (earlier first code left) (earlier second code right)
    · exact Nat.lt_of_lt_of_le (guarded.passed id member) (by simp)
  | call origin =>
    simp only [react] at reacts
    split at reacts
    · cases reacts
      exact guarded
    · cases reacts
  | lose index =>
    cases reacts
    exact guarded

/-- A step that is not careful lets a second run in. -/
theorem careless_overlaps {origin : Origin} {operation : Operation}
    (careless : ¬ operation.Careful board origin) : ¬ (operation.effect board).Exclusive := by
  intro exclusive
  apply careless
  cases operation with
  | read | delete | send => trivial
  | check id =>
    intro row found busy quiet other passed apart stands
    have more : (Operation.check id).effect board = {board with passed := id::board.passed} := by
      simp [Operation.effect,Option.mem_def.mp found,quiet]
    rw [more] at exclusive
    refine apart (exclusive row.userCode other id ⟨List.mem_cons_of_mem _ passed,_,stands,rfl,rfl⟩ ?_)
    exact ⟨List.mem_cons_self,row,found,rfl,busy⟩
  | save id status =>
    have revived : ∀ row ∈ board.rows[id]?, id ∈ board.passed → unfinished status = true → ∀ other ∈ board.passed,
        other ≠ id → ∀ there ∈ board.rows[other]?, there.userCode = row.userCode → there.unfinished = false := by
      intro row found passed opens other inside apart there stands code
      by_contra busy
      refine apart (exclusive row.userCode other id ⟨inside,there,?_,code,by simpa using busy⟩ ?_)
      · exact (write_other apart).trans stands
      · refine ⟨passed,{row with status := some status},?_,rfl,opens⟩
        rw [Operation.effect,write_self,Option.mem_def.mp found]
        rfl
    cases origin with
    | finish | cancel | bulkDelete => trivial
    | start | firstTask | pause | resume | processNextNode => exact fun row found passed _ => revived row found passed

end boards

/-- In every run that is careful at each step, at most one run of a user code that has
passed its check is unfinished. -/
theorem careful_exclusive {events : List (Origin × Operation)} {last : System Origin programs}
    (run : Execution careful idle events last) : last.shared.Exclusive := by
  have guarded : last.shared.Guarded := by
    refine run.relies program_ensures ?_ ?_ rfl ⟨?_,fun _ member => absurd member List.not_mem_nil⟩
    · intro view index answer origin operation guarded allowed found may
      exact guarded_effect may (allowed (origin,some operation) found operation rfl) guarded
    · intro view environment after turn guarded _ reacts
      exact guarded_react guarded reacts
    · intro userCode first second inside
      exact absurd inside.1 List.not_mem_nil
  exact guarded.exclusive

/-- A run is launched and opened, and its first task checks. -/
def checked (id : WorkflowId) : List (Line Unit Environment) :=
  [.take (.move (.launch "wf")),.take (.move (.call (.start id))),.finish 0 (),
    .take (.move (.call (.firstTask id))),.finish 0 ()]

/-- The first run is paused inside while the second one starts and checks. -/
def pausedInside : List (Line Unit Environment) :=
  checked 0 ++ [.take (.move (.call (.pause 0))),.finish 0 ()] ++ checked 1

private theorem pausedInside_run : ∃ events last, Execution anything idle events last ∧
    last.shared.passed = [1,0] ∧ last.shared.rows = [⟨"wf",some .wait⟩,⟨"wf",some .progress⟩] := by
  have computed : (idle.execute machine Origin.program anything pausedInside).any
      (fun S => decide (S.shared.passed = [1,0] ∧ S.shared.rows = [⟨"wf",some .wait⟩,⟨"wf",some .progress⟩])) = true := by decide
  obtain ⟨events,last,run,reached⟩ := execute_any pausedInside computed
  exact ⟨events,last,run,of_decide_eq_true reached⟩

theorem paused_overlap : ¬ ∀ events last, Execution anything idle events last → last.shared.Exclusive := by
  intro always
  obtain ⟨events,last,run,reached⟩ := pausedInside_run
  obtain ⟨passed,rows⟩ := reached
  have first : last.shared.Inside 0 "wf" := ⟨by simp [passed],⟨"wf",some .wait⟩,by simp [rows],rfl,rfl⟩
  have second : last.shared.Inside 1 "wf" := ⟨by simp [passed],⟨"wf",some .progress⟩,by simp [rows],rfl,rfl⟩
  have same := always events last run "wf" 0 1 first second
  cases same

/-- The second run starts when the first one has completed. -/
def oneAfterTheOther : List (Line Unit Environment) :=
  checked 0 ++ [.take (.move (.call (.finish 0 .completed))),.finish 0 ()] ++ checked 1

private theorem oneAfterTheOther_run : ∃ events last, Execution careful idle events last ∧
    last.shared.passed = [1,0] := by
  have computed : (idle.execute machine Origin.program careful oneAfterTheOther).any
      (fun S => decide (S.shared.passed = [1,0])) = true := by decide
  obtain ⟨events,last,run,reached⟩ := execute_any oneAfterTheOther computed
  exact ⟨events,last,run,of_decide_eq_true reached⟩

theorem careful_exclusive_twice : ∃ events last, Execution careful idle events last ∧ last.shared.passed = [1,0] ∧
    last.shared.Exclusive := by
  obtain ⟨events,last,run,reached⟩ := oneAfterTheOther_run
  exact ⟨events,last,run,reached,careful_exclusive run⟩

end FinmarsWorkflow.Overlap
