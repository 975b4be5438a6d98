import FinmarsWorkflow.Links

/-! A workflow with its descendants, and what may still act on them.
A thread acts on the workflow of its message and climbs to the ancestors, a request
acts on the workflow it is about. If neither is left for a finished family, no
step changes a row of it or adds one. -/
namespace FinmarsWorkflow
open Interleave Relation

namespace Db

/-- A workflow and its ancestors. -/
def lineage (db : Db) : Nat → WorkflowId → List WorkflowId
  | 0,_ => []
  | fuel+1,id => id::match (db.workflowKey id).bind WorkflowKey.parent with
    | some parent => db.lineage fuel parent
    | none => []

/-- Whether the second workflow is the first one or a descendant of it. -/
def within (db : Db) (workflow id : WorkflowId) : Bool := (db.lineage (id+1) id).contains workflow

end Db

section lineage
variable {db : Db} {child workflow : WorkflowId}

/-- Ancestors are older. -/
theorem above_le (consistent : Consistent db) (above : db.Above child workflow) : workflow ≤ child := by
  induction above with
  | refl => exact Nat.le_refl _
  | tail _ edge ih =>
    obtain ⟨key,stored,up⟩ := edge
    exact Nat.le_trans (Nat.le_of_lt (consistent.parent _ key _ stored up)) ih

theorem above_lineage (consistent : Consistent db) (above : db.Above child workflow) (fuel : Nat)
    (enough : child < fuel) : workflow ∈ db.lineage fuel child := by
  induction above using ReflTransGen.head_induction_on generalizing fuel with
  | refl => cases fuel with
    | zero => exact absurd enough (Nat.not_lt_zero _)
    | succ fuel => exact List.mem_cons_self
  | head edge _ ih => cases fuel with
    | zero => exact absurd enough (Nat.not_lt_zero _)
    | succ fuel =>
      obtain ⟨key,stored,up⟩ := edge
      have lower := consistent.parent _ key _ stored up
      simp only [Db.lineage,stored,Option.bind_some,up]
      exact List.mem_cons_of_mem _ (ih fuel (Nat.lt_of_lt_of_le lower (Nat.le_of_lt_succ enough)))

theorem above_within (consistent : Consistent db) (above : db.Above child workflow) :
    db.within workflow child = true :=
  List.contains_iff_mem.mpr (above_lineage consistent above _ (Nat.lt_succ_self _))

/-- The descendants after an operation are those before it and a created child. -/
theorem above_effect {operation : Operation} (keyed : operation.Keyed db) (later : Consistent (operation.effect db))
    (above : (operation.effect db).Above child workflow) : db.Above child workflow ∨
      child = db.workflows.length ∧ ∃ row, operation = .createWorkflow row ∧
        (workflow = child ∨ ∃ parent, row.parent = some parent ∧ db.Above parent workflow) := by
  by_cases creates : ∃ row, operation = .createWorkflow row
  · obtain ⟨row,rfl⟩ := creates
    induction above using ReflTransGen.head_induction_on with
    | refl =>
      by_cases new : workflow = db.workflows.length
      · exact .inr ⟨new,row,rfl,.inl rfl⟩
      · exact .inl .refl
    | head edge rest ih =>
      obtain ⟨key,stored,up⟩ := edge
      have lower := later.parent _ key _ stored up
      rw [createWorkflow_workflowKey] at stored
      split at stored
      next new =>
        cases Option.some.inj stored
        refine .inr ⟨new,row,rfl,.inr ⟨_,up,?_⟩⟩
        rcases ih with old | ⟨fresh,_⟩
        · exact old
        · exact absurd (fresh.trans new.symm) (Nat.ne_of_lt lower)
      next =>
        rcases ih with old | ⟨fresh,_⟩
        · exact .inl (.head ⟨key,stored,up⟩ old)
        · exact absurd (Nat.lt_trans lower (workflowKey_lt stored)) (by rw [fresh]; exact Nat.lt_irrefl _)
  · have same := workflowKey_effect keyed (fun row made => creates ⟨row,made⟩)
    refine .inl (ReflTransGen.mono (fun _ _ ⟨key,stored,up⟩ => ?_) _ _ above)
    exact ⟨key,(same _).symm.trans stored,up⟩

/-- Saving a workflow under its key keeps all descendants. -/
theorem above_save {id : WorkflowId} {row : Workflow} (keyed : db.workflowKey id = some row.key)
    (above : ((Operation.saveWorkflow id row).effect db).Above child workflow) : db.Above child workflow :=
  ReflTransGen.mono (fun _ _ ⟨key,stored,up⟩ => ⟨key,(saveWorkflow_workflowKey keyed _).symm.trans stored,up⟩) _ _ above

end lineage

/-- The workflows that a thread may act on. -/
def Origin.Acts (db : Db) (workflow : WorkflowId) : Origin → Prop
  | .message taken => db.Above taken.workflow workflow
  | .request asked => asked.asks = some workflow

/-- The workflow whose rows an operation changes, or to which it adds rows. -/
def Operation.site : Operation → Option WorkflowId
  | .saveWorkflow id _ => some id
  | .saveTask _ row => some row.workflow
  | .createTask row => some row.workflow
  | .createWorkflow row => row.parent
  | .send _ | .saveTemplate _ _ | .read | .userCode _ _ => none

/-- The messages that a thread is about to send. -/
def Control.outbox : Control → List Message
  | .send messages => messages
  | .childSend _ _ _ child => [.executeWorkflowV2 child]
  | _ => []

section acting
variable {definitions : Definitions} {db : Db} {origin : Origin} {control : Control} {operation : Operation}
  {outside : Outside} {workflow : WorkflowId}

theorem runs_acts (consistent : Consistent db) {celery : CeleryId} {id : TaskId} {task : Task}
    (runs : Runs db origin celery id task) : origin.Acts db task.workflow := by
  obtain ⟨job,rfl,owner,_⟩ := owner_scope consistent runs.owns runs.stored runs.own
  rw [owner]
  exact ReflTransGen.refl

theorem worker_acts (worker : ∃ job, origin = .message (.processNextNode job)) (scope : Scope db origin workflow) :
    origin.Acts db workflow := by
  obtain ⟨job,rfl⟩ := worker
  exact scope

/-- A thread changes rows of the workflows it may act on, and of no others. -/
theorem site_acts (consistent : Consistent db) (linked : control.Linked db origin)
    (busy : control.operation = some operation) (site : operation.site = some workflow) :
    origin.Acts db workflow := by
  cases control with
  | done => cases busy
  | send messages => cases messages <;> cases busy; cases site
  | openSave =>
    cases busy
    cases site
    exact linked.1 ▸ ReflTransGen.refl
  | park =>
    cases busy
    cases site
    exact linked.1 ▸ ReflTransGen.refl
  | create =>
    cases busy
    cases site
    exact linked.message ▸ ReflTransGen.refl
  | startSave | logSave =>
    cases busy
    cases site
    exact runs_acts consistent linked
  | childSave celery id task =>
    cases busy
    cases site
    have acts : origin.Acts db task.workflow := runs_acts consistent linked
    exact acts
  | progressSave celery id task row =>
    cases busy
    cases site
    have same : task.key = row.key := Option.some.inj (linked.1.stored.symm.trans linked.2)
    have owner : task.workflow = row.workflow := congrArg TaskKey.workflow same
    exact owner ▸ runs_acts consistent linked.1
  | childCreate celery id task child =>
    cases busy
    cases linked.2.1.symm.trans site
    exact runs_acts consistent linked.1
  | successSave =>
    cases busy
    cases site
    exact worker_acts linked.owns.worker linked.scope
  | closeSave =>
    cases busy
    cases site
    exact worker_acts linked.1.owns.worker linked.1.scope
  | failSave =>
    cases busy
    cases site
    exact worker_acts linked.1.worker linked.1.scope
  | failClose =>
    cases busy
    cases site
    exact worker_acts linked.1.worker linked.1.scope
  | launchCreate =>
    cases busy
    cases linked.1.symm.trans site
  | pauseSave | resumeSave | cancelSave =>
    cases busy
    cases site
    exact linked.1 ▸ rfl
  | cancelTask workflow row id task rest =>
    cases busy
    cases site
    have owner : task.workflow = workflow := (linked.2.2 _ List.mem_cons_self).2
    rw [owner]
    exact linked.1 ▸ rfl
  | _ =>
    cases busy
    cases site

/-- What a thread is about to send after a step: what it was about to send before, a
message of a workflow it acts on, or the opening of the workflow just created. -/
theorem outbox_next {message : Message} (linked : control.Linked db origin)
    (busy : control.operation = some operation)
    (member : message ∈ (control.next definitions db outside).outbox) :
    message ∈ control.outbox ∨
    (origin.Acts db message.workflow ∧ (∃ job, message = .processNextNode job) ∧ control.outbox = []) ∨
    (message.workflow = db.workflows.length ∧ ∃ row, operation = .createWorkflow row) := by
  have silent {point : Control} (sending : point.stage ≠ .sending) (delegating : point.stage ≠ .delegating)
      (inside : message ∈ point.outbox) : False := by
    cases point with
    | send => exact sending rfl
    | childSend => exact delegating rfl
    | _ => exact absurd inside List.not_mem_nil
  cases control with
  | done => cases busy
  | send messages => exact .inl (List.mem_of_mem_tail member)
  | openData other row =>
    simp only [Control.next] at member
    split at member
    · split at member
      · obtain ⟨id,_,rfl⟩ := List.mem_map.mp member
        exact .inr (.inl ⟨linked.1 ▸ ReflTransGen.refl,⟨_,rfl⟩,rfl⟩)
      · exact absurd member List.not_mem_nil
    · exact absurd member List.not_mem_nil
  | successData celery depth id task row retval =>
    simp only [Control.next] at member
    split at member
    · split at member
      · split at member
        · exact absurd member List.not_mem_nil
        · obtain ⟨node,_,rfl⟩ := List.mem_map.mp member
          exact .inr (.inl ⟨worker_acts linked.1.owns.worker linked.1.scope,⟨_,rfl⟩,rfl⟩)
      · exact absurd member List.not_mem_nil
    · exact absurd member List.not_mem_nil
  | resumeData other row node =>
    simp only [Control.next] at member
    split at member
    · split at member
      · cases List.mem_singleton.mp member
        obtain ⟨payload,request⟩ := linked.1
        exact .inr (.inl ⟨request ▸ rfl,⟨_,rfl⟩,rfl⟩)
      · exact absurd member List.not_mem_nil
    · exact absurd member List.not_mem_nil
  | launchCreate row =>
    cases busy
    cases List.mem_singleton.mp member
    exact .inr (.inr ⟨rfl,row,rfl⟩)
  | childCreate celery id task child =>
    cases busy
    cases List.mem_singleton.mp member
    exact .inr (.inr ⟨rfl,child,rfl⟩)
  | templateRead | openRead | openSave | successSave | successRow | launchRead | resumeRead | resumeTasks
  | resumeSave | startRead | startSave | stepRead | progressRead | childSend | childSave =>
    simp only [Control.next] at member
    repeat' split at member
    all_goals exact absurd member List.not_mem_nil
  | successRead =>
    simp only [Control.next] at member
    split at member
    · exact (Control.handling_elim (P := fun point => message ∈ point.outbox → False) (absurd · List.not_mem_nil)
        (fun _ => (absurd · List.not_mem_nil)) (fun _ _ _ => (absurd · List.not_mem_nil)) member).elim
    · exact absurd member List.not_mem_nil
  | runCode | logSave | progressSave =>
    exact (Control.calling_elim (P := fun point => message ∈ point.outbox → False)
      (fun _ _ _ => (absurd · List.not_mem_nil)) (fun _ _ _ => (absurd · List.not_mem_nil))
      (fun _ _ => (absurd · List.not_mem_nil)) (fun _ _ => (absurd · List.not_mem_nil)) member).elim
  | _ => exact (silent (Control.stage_avoids rfl) (Control.stage_avoids rfl) member).elim

theorem send_outbox {message : Message} (busy : control.operation = some (.send message)) :
    message ∈ control.outbox := by
  rcases send_inv busy with ⟨rest,rfl⟩ | ⟨celery,id,task,child,rfl,rfl⟩
  · exact List.mem_cons_self
  · exact List.mem_singleton_self _

end acting

def Message.opens : Message → Bool
  | .executeWorkflowV2 _ => true
  | .processNextNode _ => false

/-- A message of a node of the workflow. -/
def Message.processes (workflow : WorkflowId) : Message → Bool
  | .executeWorkflowV2 _ => false
  | .processNextNode job => job.workflow == workflow

/-- Whoever opens a workflow or is asked about none sends one message at most. -/
def Lone {definitions : Definitions} (S : Controlled definitions) : Prop :=
  ∀ thread ∈ S.threads, ∀ first ∈ Control.outbox thread.2, ∀ second ∈ Control.outbox thread.2,
    (first.opens = true ∨ ∃ request, thread.1 = .request request ∧ request.asks = none) → first = second

theorem origin_outbox (origin : Origin) : origin.control.outbox = [] := by
  cases origin with
  | message message => cases message <;> rfl
  | request request => cases request <;> rfl

theorem lone_step {definitions : Definitions} {before after : Controlled definitions} {label : Action}
    (sound : Sound before) (lone : Lone before) (step : Step machine Origin.control before label after) :
    Lone after := by
  rintro ⟨origin,control⟩ member first sent second also_ kind
  rcases step.thread_cases member with inside | ⟨_,answer,old,operation,_,found,busy,_,rfl⟩ | ⟨_,_,_,rfl⟩
  · exact lone _ inside first sent second also_ kind
  · have present := List.mem_of_getElem? found
    have linked := (sound.threads _ present).2
    by_cases creates : ∃ row, operation = .createWorkflow row
    · obtain ⟨row,rfl⟩ := creates
      rcases createWorkflow_inv busy with ⟨celery,id,task,rfl⟩ | rfl
      all_goals exact (List.mem_singleton.mp sent).trans (List.mem_singleton.mp also_).symm
    · -- the first message is an old one, so that the thread was sending already
      have held : first ∈ Control.outbox old := by
        rcases outbox_next linked busy sent with held | ⟨acts,⟨job,rfl⟩,_⟩ | ⟨_,made⟩
        · exact held
        · rcases kind with opens | ⟨request,same,none⟩
          · cases opens
          · have asked : origin = .request request := same
            rw [asked] at acts
            cases none.symm.trans acts
        · exact absurd made creates
      rcases outbox_next linked busy also_ with too | ⟨_,_,empty⟩ | ⟨_,made⟩
      · exact lone _ present first held second too kind
      · exact absurd (show first ∈ Control.outbox old from held) (empty ▸ List.not_mem_nil)
      · exact absurd made creates
  · simp [origin_outbox] at sent

/-- The status of a row that is held to be saved as it is. -/
def Control.Statused : Control → Prop
  | .park _ row => row.status = .wait
  | .childCreate _ _ _ row | .launchCreate row => row.status = .init
  | .successSave _ _ _ task _ => task.status = .success
  | _ => True

theorem statused_next (definitions : Definitions) (db : Db) (outside : Outside) (control : Control) :
    (control.next definitions db outside).Statused := by
  have plain {point : Control} (parks : point.stage ≠ .parking) (delegates : point.stage ≠ .delegating)
      (launches : point.stage ≠ .launching) (finishes : point.stage ≠ .finishing) : point.Statused := by
    cases point with
    | park => exact absurd rfl parks
    | childCreate => exact absurd rfl delegates
    | launchCreate => exact absurd rfl launches
    | successSave => exact absurd rfl finishes
    | _ => trivial
  cases control with
  | take job =>
    simp only [Control.next]
    split
    · split
      · split
        next waits => exact waits
        next =>
          exact Control.checking_elim (P := Control.Statused) (fun _ _ _ => trivial)
            (fun _ => Control.admitted_elim (fun _ _ => trivial) (fun _ _ => trivial) (fun _ => trivial))
      · trivial
    · trivial
  | runCode | logSave | progressSave =>
    exact Control.calling_elim (P := Control.Statused) (fun _ _ _ => trivial) (fun _ _ _ => trivial)
      (fun _ _ => trivial) (fun _ _ => trivial)
  | successRead | climb =>
    simp only [Control.next]
    split
    · exact Control.handling_elim (P := Control.Statused) trivial (fun _ => trivial) (fun _ _ _ => rfl)
    · trivial
  | startRead | startSave | stepRead | progressRead | templateRead | childCreate | childSend | childSave | launchRead
  | launchCreate | successSave | successRow | successData =>
    simp only [Control.next]
    repeat' split
    all_goals trivial
  | _ =>
    exact plain (Control.stage_avoids rfl) (Control.stage_avoids rfl) (Control.stage_avoids rfl) (Control.stage_avoids rfl)

def Statused {definitions : Definitions} (S : Controlled definitions) : Prop :=
  ∀ thread ∈ S.threads, Control.Statused thread.2

theorem statused_step {definitions : Definitions} {before after : Controlled definitions} {label : Action}
    (statused : Statused before) (step : Step machine Origin.control before label after) : Statused after := by
  rintro ⟨origin,control⟩ member
  rcases step.thread_cases member with inside | ⟨_,answer,_,_,_,_,_,_,rfl⟩ | ⟨_,_,_,rfl⟩
  · exact statused _ inside
  · exact statused_next definitions before.shared answer _
  · cases origin with
    | message message => cases message <;> trivial
    | request request => cases request <;> trivial

/-- A step after which the row of a workflow has changed, and is no new one, saves it. -/
theorem saving_step {definitions : Definitions} {before after : Controlled definitions} {label : Action}
    {workflow : WorkflowId} {row : Workflow} (statused : Statused before)
    (step : Step machine Origin.control before label after) (stored : after.shared.workflows[workflow]? = some row)
    (changed : before.shared.workflows[workflow]? ≠ some row) (started : row.status ≠ .init) :
    ∃ index answer origin control, label = .advance index answer ∧ before.threads[index]? = some (origin,control) ∧
      Control.operation control = some (.saveWorkflow workflow row) ∧ (before.shared.workflowKey workflow).isSome := by
  rcases step.shared_cases with equal | ⟨index,answer,origin,control,operation,rfl,found,busy,equal⟩ | ⟨_,_,_,reacts⟩
  · rw [equal] at stored
    exact absurd stored changed
  · have member := List.mem_of_getElem? found
    rw [equal] at stored
    cases operation with
    | saveWorkflow id saved =>
      change (before.shared.workflows.set id saved)[workflow]? = _ at stored
      rw [List.getElem?_set] at stored
      split at stored
      next same =>
        subst id
        split at stored
        next bound =>
          cases stored
          refine ⟨index,answer,origin,control,rfl,found,busy,?_⟩
          simp [Db.workflowKey,List.getElem?_eq_getElem bound]
        · cases stored
      next => exact absurd stored changed
    | createWorkflow created =>
      change (before.shared.workflows ++ [created])[workflow]? = _ at stored
      rw [List.getElem?_append] at stored
      split at stored
      · exact absurd stored changed
      · cases List.mem_singleton.mp (List.mem_of_getElem? stored)
        rcases createWorkflow_inv busy with ⟨_,_,_,rfl⟩ | rfl
        · exact absurd (statused _ member) started
        · exact absurd (statused _ member) started
    | _ => exact absurd stored changed
  · obtain ⟨queue,equal,_⟩ := react_queue reacts
    rw [equal] at stored
    exact absurd stored changed

end FinmarsWorkflow
