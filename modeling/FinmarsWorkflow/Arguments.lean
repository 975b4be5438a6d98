import FinmarsWorkflow.Family

/-! What the code of a node is called with.
A worker reads for each input the node that feeds it, or else takes the payload of
the workflow, and its code is called with what it found. Nothing but a resume
changes the payload of a workflow. -/
namespace FinmarsWorkflow
open Interleave

namespace Control

/-- The copy of a workflow row that a thread may still save or pass on. -/
def copy? : Control → Option (WorkflowId × Workflow)
  | .openSave workflow row | .openData workflow row | .pauseSave workflow row | .resumeTasks workflow row _
  | .resumeSave workflow row _ | .resumeData workflow row _ | .cancelTasks workflow row | .cancelTask workflow row _ _ _
  | .cancelSave workflow row => some (workflow,row)
  | .park job row | .inputRead job row _ _ _ | .previousRead job row _ _ | .payloadRead job row _ _ _
  | .create job row _ _ _ => some (job.workflow,row)
  | .successData _ _ _ task row _ | .closeSave _ _ _ task row _ | .failSave _ _ task row _ | .failClose _ _ task row _ =>
    some (task.workflow,row)
  | _ => none

/-- The node that is read for an input is the one that feeds it. -/
def Sourced : Control → Prop
  | .previousRead job _ target source => feedingNode job.graph target "in" = some source
  | .payloadRead job _ target _ source => feedingNode job.graph target "payload_input" = some source
  | _ => True

/-- What a worker has found for the two inputs of its node is as it should be, until
the code of the node is called. -/
def Brings (origin : Origin) (output : Job → Node → Option Json → Prop) (payload : Job → Node → Json → Prop) : Control → Prop
  | .payloadRead job _ target found _ => output job target found
  | .create job _ target load found => output job target found ∧ payload job target load
  | .startRead _ kwargs | .startSave _ _ _ kwargs | .stepRead _ _ _ kwargs | .runCode _ _ _ kwargs =>
    ∀ job target, origin = .message (.processNextNode job) → job.graph.node? job.currentNodeId = some target →
      output job target kwargs.previousOutput ∧ payload job target kwargs.payload
  | _ => True

end Control

section arguments
variable {definitions : Definitions} {db : Db} {origin : Origin} {control : Control} {operation : Operation}
  {outside : Outside} {output : Job → Node → Option Json → Prop} {payload : Job → Node → Json → Prop}

theorem sourced_of_stage (admits : control.stage ≠ .admitted) : control.Sourced := by
  cases control with
  | previousRead | payloadRead => exact absurd rfl admits
  | _ => trivial

theorem withOutput_sourced {job : Job} {row : Workflow} {target : Node} {found : Option Json} :
    (Control.withOutput job row target found).Sourced := by
  unfold Control.withOutput
  split
  · trivial
  next source feeds => exact feeds

theorem checking_sourced {job : Job} {row : Workflow} {target : Node} {inputs : List NodeId} :
    (Control.checking job row target inputs).Sourced := by
  cases inputs with
  | cons => trivial
  | nil =>
    change (Control.admitted job row target).Sourced
    unfold Control.admitted
    split
    · exact withOutput_sourced
    next source feeds => exact feeds

theorem sourced_next : (control.next definitions db outside).Sourced := by
  cases control with
  | take =>
    simp only [Control.next]
    repeat' split
    all_goals first | exact checking_sourced | trivial
  | inputRead =>
    simp only [Control.next]
    split
    · exact checking_sourced
    · trivial
  | previousRead => exact withOutput_sourced
  | payloadRead => trivial
  | create => trivial
  | _ => exact sourced_of_stage (Control.stage_avoids rfl)

theorem brings_of_stage (admits : control.stage ≠ .admitted) (runs : control.stage ≠ .running) :
    control.Brings origin output payload := by
  cases control with
  | payloadRead | create => exact absurd rfl admits
  | startRead | startSave | stepRead | runCode => exact absurd rfl runs
  | _ => trivial

section entry
variable (unfed : ∀ job target, feedingNode job.graph target "in" = none → output job target none)
  (unpaid : ∀ job (row : Workflow) target, control.copy? = some (job.workflow,row) ∨ db.getWorkflow job.workflow = .ok row →
    feedingNode job.graph target "payload_input" = none → payload job target row.payload)
include unpaid

theorem withOutput_brings {job : Job} {row : Workflow} {target : Node} {found : Option Json}
    (copy : control.copy? = some (job.workflow,row) ∨ db.getWorkflow job.workflow = .ok row) (holds : output job target found) :
    (Control.withOutput job row target found).Brings origin output payload := by
  unfold Control.withOutput
  split
  next none => exact ⟨holds,unpaid job row target copy none⟩
  next => exact holds

include unfed

theorem checking_brings {job : Job} {row : Workflow} {target : Node} {inputs : List NodeId}
    (copy : control.copy? = some (job.workflow,row) ∨ db.getWorkflow job.workflow = .ok row) :
    (Control.checking job row target inputs).Brings origin output payload := by
  cases inputs with
  | cons => trivial
  | nil =>
    change (Control.admitted job row target).Brings origin output payload
    unfold Control.admitted
    split
    next none => exact withOutput_brings unpaid copy (unfed job target none)
    next => trivial

/-- If what a worker reads or takes for an input is as it should be, so is what its code
is called with. -/
theorem brings_next (linked : control.Linked db origin) (sourced : control.Sourced) (brings : control.Brings origin output payload)
    (reads : ∀ job target source, feedingNode job.graph target "in" = some source →
      output job target ((db.newestTask job.workflow source).bind Task.result))
    (loads : ∀ job (row : Workflow) target source, feedingNode job.graph target "payload_input" = some source →
      payload job target (match db.newestTask job.workflow source with
        | some task => task.result.getD .null
        | none => row.payload)) :
    (control.next definitions db outside).Brings origin output payload := by
  cases control with
  | take =>
    simp only [Control.next]
    split
    next row loaded =>
      repeat' split
      all_goals first | exact checking_brings unfed unpaid (.inr loaded) | trivial
    next => trivial
  | inputRead =>
    simp only [Control.next]
    split
    · exact checking_brings unfed unpaid (.inl rfl)
    · trivial
  | previousRead job row target source => exact withOutput_brings unpaid (.inl rfl) (reads job target source sourced)
  | payloadRead job row target found source => exact ⟨brings,loads job row target source sourced⟩
  | create job row target load found =>
    intro other another message known
    cases linked.message.symm.trans message
    cases Option.some.inj (linked.known.symm.trans known)
    exact brings
  | startRead | stepRead =>
    simp only [Control.next]
    repeat' split
    all_goals first | exact brings | trivial
  | startSave => exact brings
  | runCode | logSave | progressSave =>
    exact Control.calling_elim (P := fun point => point.Brings origin output payload) (fun _ _ _ => trivial)
      (fun _ _ _ => trivial) (fun _ _ => trivial) (fun _ _ => trivial)
  | progressRead =>
    simp only [Control.next]
    split <;> trivial
  | _ => exact brings_of_stage (Control.stage_avoids rfl) (Control.stage_avoids rfl)

end entry

/-- A copy is kept, or it was loaded in this step. -/
theorem copy_next {workflow : WorkflowId} {row : Workflow}
    (copy : (control.next definitions db outside).copy? = some (workflow,row)) :
    control.copy? = some (workflow,row) ∨ db.getWorkflow workflow = .ok row := by
  have checks {job : Job} {held : Workflow} {target : Node} {inputs : List NodeId} :
      (Control.checking job held target inputs).copy? = some (job.workflow,held) :=
    Control.checking_elim (P := fun point => point.copy? = some (job.workflow,held)) (fun _ _ _ => rfl)
      (fun _ => Control.admitted_elim (P := fun point => point.copy? = some (job.workflow,held)) (fun _ _ => rfl)
        (fun _ _ => rfl) (fun _ => rfl))
  cases control with
  | take job =>
    simp only [Control.next] at copy
    split at copy
    next held loaded =>
      repeat' split at copy
      · cases copy
        exact .inr loaded
      · rw [checks] at copy
        cases copy
        exact .inr loaded
      · cases copy
    next => cases copy
  | inputRead =>
    simp only [Control.next] at copy
    split at copy
    · rw [checks] at copy
      exact .inl copy
    · cases copy
  | previousRead =>
    revert copy
    exact Control.withOutput_elim (P := fun point => point.copy? = _ → _) (fun _ _ => .inl) (fun _ _ => .inl)
  | runCode | logSave | progressSave =>
    revert copy
    refine Control.calling_elim (P := fun point => point.copy? = _ → _) (fun _ _ _ none => ?_) (fun _ _ _ none => ?_)
      (fun _ _ none => ?_) (fun _ _ none => ?_) <;> cases none
  | successRead | climb =>
    simp only [Control.next] at copy
    split at copy
    · revert copy
      refine Control.handling_elim (P := fun point => point.copy? = _ → _) (fun none => ?_) (fun _ none => ?_)
        (fun _ _ _ none => ?_) <;> cases none
    · cases copy
  | failRead | failReload =>
    simp only [Control.next] at copy
    split at copy
    · revert copy
      refine Control.failing_elim (P := fun point => point.copy? = _ → _) (fun none => ?_) (fun _ _ none => ?_) <;> cases none
    · cases copy
  | cancelTasks | cancelTask =>
    revert copy
    exact Control.cancelling_elim (P := fun point => point.copy? = _ → _) (fun _ => .inl) (fun _ _ _ _ _ _ _ => .inl)
  | openRead | successRow | failRow | pauseRead | resumeRead | cancelRead =>
    simp only [Control.next] at copy
    repeat' split at copy
    all_goals cases copy
    all_goals exact .inr (by assumption)
  | _ =>
    simp only [Control.next] at copy
    repeat' split at copy
    all_goals first | exact .inl copy | cases copy

/-- What is saved of a workflow is its copy, with the payload of a resume at most. -/
theorem copy_saved {workflow : WorkflowId} {saved : Workflow} (busy : control.operation = some (.saveWorkflow workflow saved)) :
    ∃ row, control.copy? = some (workflow,row) ∧
      (saved.payload = row.payload ∨ ∃ payload, control = .resumeSave workflow row payload ∧ saved = row.resumed payload) := by
  cases control with
  | openSave | park | closeSave | failClose | pauseSave | cancelSave =>
    cases busy
    exact ⟨_,rfl,.inl rfl⟩
  | resumeSave workflow row payload =>
    cases busy
    exact ⟨row,rfl,.inr ⟨payload,rfl,rfl⟩⟩
  | send messages => cases messages <;> cases busy
  | _ => cases busy

end arguments

/-- The workflow is resumed with a payload of its own. -/
def repays (workflow : WorkflowId) : Action → Bool
  | .move (.request (.resume other payload)) => other == workflow && payload.any Json.truthy
  | _ => false

/-- Nobody resumes the workflow with another payload. -/
def samePayload (workflow : WorkflowId) : Allowed := fun _ label => repays workflow label = false

instance (workflow : WorkflowId) (view : Seen) (label : Action) : Decidable (samePayload workflow view label) :=
  inferInstanceAs (Decidable (_ = _))

def Db.payload (db : Db) (workflow : WorkflowId) : Option Json := (db.workflows[workflow]?).map Workflow.payload

/-- Every copy of the workflow has its payload, and no thread was started to change it. -/
structure Paid {definitions : Definitions} (S : Controlled definitions) (workflow : WorkflowId) : Prop where
  copies : ∀ thread ∈ S.threads, ∀ row, Control.copy? thread.2 = some (workflow,row) → S.shared.payload workflow = some row.payload
  requests : ∀ thread ∈ S.threads, ∀ payload, thread.1 = .request (.resume workflow payload) → payload.any Json.truthy = false

section paid
variable {definitions : Definitions} {before after : Controlled definitions} {label : Action} {workflow : WorkflowId}

theorem resumed_payload {row : Workflow} {payload : Option Json} (empty : payload.any Json.truthy = false) :
    (row.resumed payload).payload = row.payload := by
  unfold Workflow.resumed
  split
  next value =>
    have falsy : value.truthy = false := empty
    rw [falsy]
    rfl
  next => rfl

theorem payload_effect {origin : Origin} {control : Control} {operation : Operation} {payload : Json} (sound : Sound before)
    (paid : Paid before workflow) (member : (origin,control) ∈ before.threads) (busy : control.operation = some operation)
    (stored : before.shared.payload workflow = some payload) : (operation.effect before.shared).payload workflow = some payload := by
  obtain ⟨row,found,same⟩ := Option.map_eq_some_iff.mp stored
  have bound := (List.getElem?_eq_some_iff.mp found).1
  cases operation with
  | saveWorkflow id saved =>
    by_cases equal : id = workflow
    · subst id
      obtain ⟨held,copy,kept⟩ := copy_saved busy
      have current := paid.copies _ member held copy
      have loaded : held.payload = payload := Option.some.inj (current.symm.trans stored)
      have now : saved.payload = payload := by
        rcases kept with kept | ⟨asked,rfl,rfl⟩
        · exact kept.trans loaded
        · have request := (sound.threads _ member).2.1
          rw [resumed_payload (paid.requests _ member asked request),loaded]
      change ((before.shared.workflows.set workflow saved)[workflow]?).map _ = _
      rw [List.getElem?_set_self bound]
      exact congrArg some now
    · change ((before.shared.workflows.set id saved)[workflow]?).map _ = _
      rw [List.getElem?_set_ne equal]
      exact stored
  | createWorkflow created =>
    change ((before.shared.workflows ++ [created])[workflow]?).map _ = _
    rw [List.getElem?_append_left bound]
    exact stored
  | _ => exact stored

/-- Nothing but a resume changes the payload of a workflow. -/
theorem paid_step (sound : Sound before) (paid : Paid before workflow) (allowed : samePayload workflow before.view label)
    (step : Step machine Origin.control before label after) : Paid after workflow ∧
      ∀ payload, before.shared.payload workflow = some payload → after.shared.payload workflow = some payload := by
  have keeps (payload : Json) (stored : before.shared.payload workflow = some payload) :
      after.shared.payload workflow = some payload := by
    rcases step.shared_cases with same | ⟨_,_,_,_,_,_,found,busy,same⟩ | ⟨_,_,_,reacts⟩
    · rw [same]
      exact stored
    · rw [same]
      exact payload_effect sound paid (List.mem_of_getElem? found) busy stored
    · obtain ⟨queue,same,_⟩ := react_queue reacts
      rw [same]
      exact stored
  refine ⟨⟨fun (origin,control) member row copy => ?_,fun (origin,control) member payload asked => ?_⟩,keeps⟩
  · rcases step.thread_cases member with inside | ⟨_,answer,old,operation,_,found,busy,_,rfl⟩ | ⟨_,_,_,rfl⟩
    · exact keeps _ (paid.copies _ inside row copy)
    · rcases copy_next copy with held | loaded
      · exact keeps _ (paid.copies _ (List.mem_of_getElem? found) row held)
      · apply keeps
        rw [Db.payload,getWorkflow_ok loaded]
        rfl
    · cases origin with
      | message message => cases message <;> cases copy
      | request request => cases request <;> cases copy
  · rcases step.thread_cases member with inside | ⟨_,_,old,_,_,found,_,_,_⟩ | ⟨environment,rfl,reacts,_⟩
    · exact paid.requests _ inside payload asked
    · exact paid.requests _ (List.mem_of_getElem? found) payload asked
    · have same : origin = .request (.resume workflow payload) := asked
      subst origin
      obtain ⟨_,_,_,_,moves⟩ := react_queue reacts
      cases moves _ rfl
      simpa [samePayload,repays] using allowed

end paid

theorem Control.Brings.mono {origin : Origin} {control : Control} {output wider : Job → Node → Option Json → Prop}
    {payload weaker : Job → Node → Json → Prop} (brings : control.Brings origin output payload)
    (found : ∀ job target value, output job target value → wider job target value)
    (load : ∀ job target value, payload job target value → weaker job target value) : control.Brings origin wider weaker := by
  cases control with
  | payloadRead => exact found _ _ _ brings
  | create => exact ⟨found _ _ _ brings.1,load _ _ _ brings.2⟩
  | startRead | startSave | stepRead | runCode =>
    intro job target message known
    obtain ⟨first,second⟩ := brings job target message known
    exact ⟨found _ _ _ first,load _ _ _ second⟩
  | _ => trivial

theorem origin_brings {output : Job → Node → Option Json → Prop} {payload : Job → Node → Json → Prop} (origin : Origin) :
    origin.control.Brings origin output payload := by
  cases origin with
  | message message => cases message <;> trivial
  | request request => cases request <;> trivial

/-- An input that no node feeds is not given, or it is the payload of the workflow. -/
structure Unfed {definitions : Definitions} (S : Controlled definitions) (workflow : WorkflowId) : Prop where
  sourced : ∀ thread ∈ S.threads, Control.Sourced thread.2
  output : ∀ thread ∈ S.threads, Control.Brings thread.1
    (fun job target found => feedingNode job.graph target "in" = none → found = none) (fun _ _ _ => True) thread.2

/-- The payload of the workflow is what a node without a payload of its own is given. -/
def Defaults {definitions : Definitions} (S : Controlled definitions) (workflow : WorkflowId) : Prop :=
  ∀ thread ∈ S.threads, Control.Brings thread.1 (fun _ _ _ => True) (fun job target load => job.workflow = workflow →
    feedingNode job.graph target "payload_input" = none → S.shared.payload workflow = some load) thread.2

section defaults
variable {definitions : Definitions} {before after : Controlled definitions} {label : Action} {workflow : WorkflowId}

theorem unfed_step (sound : Sound before) (unfed : Unfed before workflow) (step : Step machine Origin.control before label after) :
    Unfed after workflow := by
  refine ⟨fun (origin,control) member => ?_,fun (origin,control) member => ?_⟩
  · rcases step.thread_cases member with inside | ⟨_,_,_,_,_,_,_,_,rfl⟩ | ⟨_,_,_,rfl⟩
    · exact unfed.sourced _ inside
    · exact sourced_next
    · cases origin with
      | message message => cases message <;> trivial
      | request request => cases request <;> trivial
  · rcases step.thread_cases member with inside | ⟨_,_,old,_,_,found,_,_,rfl⟩ | ⟨_,_,_,rfl⟩
    · exact unfed.output _ inside
    · have present := List.mem_of_getElem? found
      refine brings_next ?_ ?_ (sound.threads _ present).2 (unfed.sourced _ present) (unfed.output _ present) ?_ ?_
      · exact fun _ _ _ _ => rfl
      · exact fun _ _ _ _ _ => trivial
      · intro job target source feeds none
        cases none.symm.trans feeds
      · exact fun _ _ _ _ _ => trivial
    · exact origin_brings origin

theorem defaults_step (sound : Sound before) (unfed : Unfed before workflow) (paid : Paid before workflow)
    (allowed : samePayload workflow before.view label) (defaults : Defaults before workflow)
    (step : Step machine Origin.control before label after) : Defaults after workflow := by
  have keeps := (paid_step sound paid allowed step).2
  rintro ⟨origin,control⟩ member
  have kept {point : Control} (brings : point.Brings origin (fun _ _ _ => True) (fun job target load => job.workflow = workflow →
      feedingNode job.graph target "payload_input" = none → before.shared.payload workflow = some load)) :
      point.Brings origin (fun _ _ _ => True) (fun job target load => job.workflow = workflow →
        feedingNode job.graph target "payload_input" = none → after.shared.payload workflow = some load) :=
    brings.mono (fun _ _ _ _ => trivial) (fun _ _ _ given owner none => keeps _ (given owner none))
  rcases step.thread_cases member with inside | ⟨_,_,old,_,_,found,_,_,rfl⟩ | ⟨_,_,_,rfl⟩
  · exact kept (defaults _ inside)
  · have present := List.mem_of_getElem? found
    refine kept (brings_next ?_ ?_ (sound.threads _ present).2 (unfed.sourced _ present) (defaults _ present) ?_ ?_)
    · exact fun _ _ _ => trivial
    · rintro job row target copy _ rfl _
      rcases copy with held | loaded
      · exact paid.copies _ present row held
      · rw [Db.payload,getWorkflow_ok loaded]
        rfl
    · exact fun _ _ _ _ => trivial
    · intro job row target source feeds _ none
      cases none.symm.trans feeds
  · exact origin_brings origin

theorem unused_unfed (definitions : Definitions) (templates : List WorkflowTemplate) (workflow : WorkflowId) :
    Unfed (unused definitions templates) workflow :=
  ⟨fun _ member => absurd member List.not_mem_nil,fun _ member => absurd member List.not_mem_nil⟩

end defaults

end FinmarsWorkflow
