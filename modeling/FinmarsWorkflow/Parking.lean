import FinmarsWorkflow.Flow

/-! The node that a paused workflow has parked.
A message that finds its workflow paused leaves its node in `current_node_id`, and a resume
sends it again. The slot holds one node and is never cleared, so that its node is parked only
while it has no task and no message of it is queued or at a worker. -/
namespace FinmarsWorkflow
open Interleave Relation

def Message.names (workflow : WorkflowId) (node : NodeId) : Message → Bool
  | .processNextNode job => job.workflow == workflow && job.currentNodeId == node
  | .executeWorkflowV2 _ => false

def Origin.names (workflow : WorkflowId) (node : NodeId) : Origin → Bool
  | .message taken => taken.names workflow node
  | .request _ => false

/-- `current_node_id` in the stored row. -/
def Db.slot (db : Db) (workflow : WorkflowId) : Option NodeId := (db.workflows[workflow]?).bind Workflow.currentNodeId

/-- The node has a task, or a message of it is queued or at a worker that is not done with it. -/
def Underway (workflow : WorkflowId) (node : NodeId) (view : Seen) : Prop :=
  (∃ task ∈ view.shared.tasks, task.workflow = workflow ∧ task.nodeId = some node) ∨
  (∃ message ∈ view.shared.queue, message.names workflow node = true) ∨
  ∃ thread ∈ view.threads, thread.1.names workflow node = true ∧ thread.2.isSome = true

instance (workflow : WorkflowId) (node : NodeId) (view : Seen) : Decidable (Underway workflow node view) :=
  inferInstanceAs (Decidable (_ ∨ _ ∨ _))

/-- Only the slot still knows of the node. -/
def Parked (workflow : WorkflowId) (node : NodeId) (view : Seen) : Prop :=
  view.shared.slot workflow = some node ∧ ¬Underway workflow node view

instance (workflow : WorkflowId) (node : NodeId) (view : Seen) : Decidable (Parked workflow node view) :=
  inferInstanceAs (Decidable (_ ∧ _))

/-- A task of the workflow fails, or the workflow is opened again. -/
def fails (workflow : WorkflowId) (view : Seen) : Origin → Operation → Bool
  | _,.saveTask _ row => row.workflow == workflow && row.status.stopped
  | origin,operation => reopens view.shared workflow origin operation

/-- Something of the workflow fails, is cancelled or lost, or is delivered twice. -/
def falters (workflow : WorkflowId) (view : Seen) : Action → Bool
  | .advance index _ => match view.threads[index]? with
    | some (origin,some operation) => fails workflow view origin operation
    | _ => false
  | .move (.request (.cancel asked)) => asked == workflow
  | .move (.redeliver index) => match view.threads[index]? with
    | some (.message message,_) => view.shared.within workflow message.workflow
    | _ => false
  | .move (.lose index) => match view.threads[index]? with
    | some (.message message,_) => view.shared.within workflow message.workflow
    | some (.request request,_) => request.asks == some workflow
    | none => false
  | _ => false

/-- Nobody edits templates, and nothing of the workflow fails, is cancelled or lost, or is
delivered twice; it may be paused and resumed at any time. -/
def unfailing (workflow : WorkflowId) : Allowed := fun view label =>
  fixedTemplates view label ∧ falters workflow view label = false

instance (workflow : WorkflowId) (view : Seen) (label : Action) : Decidable (unfailing workflow view label) :=
  inferInstanceAs (Decidable (_ ∧ _))

/-- The saved row does not hold the node that is parked. -/
def displaces (workflow : WorkflowId) (view : Seen) (row : Workflow) : Bool :=
  (view.shared.slot workflow).any (fun node => decide (Parked workflow node view) && row.currentNodeId != some node)

/-- A worker parks its node in a row that is not paused any more, or a node whose id is
empty, which a resume takes for none. -/
def parksAstray (workflow : WorkflowId) (view : Seen) : Origin → Workflow → Bool
  | .message (.processNextNode _),row => row.status == .wait && (row.currentNodeId == some "" ||
      !(view.shared.workflows[workflow]?).any (fun stored => stored.status == .wait))
  | _,_ => false

/-- The next operation of a thread loses a parked node or sends another one. -/
def misplaces (workflow : WorkflowId) (view : Seen) : Origin → Operation → Bool
  | origin,.saveWorkflow id row => id == workflow && (displaces workflow view row || parksAstray workflow view origin row)
  | .request (.resume asked _),.send (.processNextNode job) =>
    asked == workflow && !decide (Parked workflow job.currentNodeId view)
  | _,_ => false

/-- Every save of the row keeps the parked node, a worker parks its node in a paused row only, and
a resume sends the parked node only. -/
def keepsParked (workflow : WorkflowId) (view : Seen) : Action → Bool
  | .advance index _ => match view.threads[index]? with
    | some (origin,some operation) => !misplaces workflow view origin operation
    | _ => true
  | _ => true

/-- Nothing of the workflow falters, and its parked node is kept. -/
def orderly (workflow : WorkflowId) : Allowed := fun view label =>
  unfailing workflow view label ∧ keepsParked workflow view label = true

instance (workflow : WorkflowId) (view : Seen) (label : Action) : Decidable (orderly workflow view label) :=
  inferInstanceAs (Decidable (_ ∧ _))

/-- What an operation that misplaces nothing is. -/
structure Orderly (workflow : WorkflowId) (view : Seen) (origin : Origin) (operation : Operation) : Prop where
  keeps : ∀ row, operation = .saveWorkflow workflow row → ∀ node, Parked workflow node view →
    row.currentNodeId = some node
  parks : ∀ job row, origin = .message (.processNextNode job) → operation = .saveWorkflow workflow row →
    row.status = .wait → row.currentNodeId ≠ some "" ∧
      ∃ stored, view.shared.workflows[workflow]? = some stored ∧ stored.status = .wait
  opens : ∀ row, origin = .message (.executeWorkflowV2 workflow) → operation = .saveWorkflow workflow row →
    ¬Begun view.shared workflow
  sends : ∀ payload job, origin = .request (.resume workflow payload) → operation = .send (.processNextNode job) →
    Parked workflow job.currentNodeId view
  unstopped : ∀ id row, operation = .saveTask id row → row.workflow = workflow → row.status.stopped = false

section orderly
variable {definitions : Definitions} {before after : Controlled definitions} {label : Action} {workflow : WorkflowId}
  {node : NodeId} {origin : Origin} {control : Control} {operation : Operation}

theorem orderly_advance {index : Nat} {answer : Outside}
    (allowed : orderly workflow before.view (.advance index answer))
    (found : before.threads[index]? = some (origin,control)) (busy : control.operation = some operation) :
    Orderly workflow before.view origin operation := by
  have kept := allowed.2
  have sound := allowed.1.2
  simp only [keepsParked,seen_thread found busy,Bool.not_eq_true'] at kept
  simp only [falters,seen_thread found busy] at sound
  refine ⟨?_,?_,?_,?_,?_⟩
  · rintro row rfl node parked
    simp only [misplaces,beq_self_eq_true,Bool.true_and,Bool.or_eq_false_iff] at kept
    simpa [displaces,parked.1,parked] using kept.1
  · rintro job row rfl rfl waits
    simp only [misplaces,beq_self_eq_true,Bool.true_and,Bool.or_eq_false_iff,parksAstray,waits,Bool.not_eq_false'] at kept
    obtain ⟨stored,there,status⟩ := (Option.any_eq_true _ _).mp kept.2.2
    exact ⟨by simpa using kept.2.1,stored,there,by simpa using status⟩
  · rintro row rfl rfl ⟨stored,there,started⟩
    simp [fails,reopens,unopened,there,started] at sound
  · rintro payload job rfl rfl
    simpa [misplaces] using kept
  · rintro id row rfl owner
    simpa [fails,owner] using sound

end orderly

/-- A task of the node has been created. -/
def HasTask (db : Db) (workflow : WorkflowId) (node : NodeId) : Prop :=
  ∃ id key, db.taskKey id = some key ∧ key.workflow = workflow ∧ key.nodeId = some node

/-- The stages of a worker behind the admission of its node. -/
def Stage.served : Stage → Bool
  | .running | .delegating | .finishing | .closing | .climbing | .failing | .sending => true
  | _ => false

/-- A worker behind the admission has created the task of its node. -/
def Served {definitions : Definitions} (S : Controlled definitions) : Prop :=
  ∀ thread ∈ S.threads, ∀ job, thread.1 = .message (.processNextNode job) →
    (Control.stage thread.2).served = true → HasTask S.shared job.workflow job.currentNodeId

/-- A copy of a workflow's row that will be saved with the `current_node_id` it has. -/
def Control.resaves? : Control → Option (WorkflowId × Workflow)
  | .openSave asked row | .pauseSave asked row | .resumeTasks asked row _ | .resumeSave asked row _ => some (asked,row)
  | _ => none

section everywhere
variable {definitions : Definitions} {before after : Controlled definitions} {label : Action} {workflow : WorkflowId}
  {node : NodeId} {origin : Origin} {control : Control} {operation : Operation} {db later : Db}

theorem hasTask_iff : HasTask db workflow node ↔ ∃ task ∈ db.tasks, task.workflow = workflow ∧ task.nodeId = some node := by
  constructor
  · rintro ⟨id,key,stored,owner,named⟩
    obtain ⟨task,found,rfl⟩ := Option.map_eq_some_iff.mp stored
    exact ⟨task,List.mem_of_getElem? found,owner,named⟩
  · rintro ⟨task,member,owner,named⟩
    obtain ⟨id,found⟩ := List.mem_iff_getElem?.mp member
    exact ⟨id,task.key,taskKey_of_stored found,owner,named⟩

theorem HasTask.mono (has : HasTask db workflow node) (grows : Grows db later) : HasTask later workflow node := by
  obtain ⟨id,key,stored,rest⟩ := has
  exact ⟨id,key,grows.task id key stored,rest⟩

theorem message_names {message : Message} : message.names workflow node = true ↔
    ∃ job, message = .processNextNode job ∧ job.workflow = workflow ∧ job.currentNodeId = node := by
  cases message <;> simp [Message.names]

theorem origin_names : origin.names workflow node = true ↔
    ∃ job, origin = .message (.processNextNode job) ∧ job.workflow = workflow ∧ job.currentNodeId = node := by
  cases origin with
  | message message => simp [Origin.names,message_names]
  | request request => simp [Origin.names]

theorem underway_iff : Underway workflow node before.view ↔ HasTask before.shared workflow node ∨
    (∃ message ∈ before.shared.queue, message.names workflow node = true) ∨
    ∃ thread ∈ before.threads, thread.1.names workflow node = true ∧ Control.operation thread.2 ≠ none := by
  rw [hasTask_iff]
  simp only [Underway,System.view,List.mem_map,exists_exists_and_eq_and,Option.isSome_iff_ne_none]

theorem worker_hasTask {celery : CeleryId} (owns : Owns db origin celery) {job : Job}
    (taken : origin = .message (.processNextNode job)) : HasTask db job.workflow job.currentNodeId := by
  obtain ⟨other,id,key,same,stored,_,owner,named⟩ := owns
  cases taken.symm.trans same
  exact ⟨id,key,stored,owner,named⟩

/-- A step leads behind the admission only from there, or by the creation of the task. -/
theorem served_next {outside : Outside} {job : Job} (linked : control.Linked db (.message (.processNextNode job)))
    (serves : (control.next definitions db outside).stage.served = true) :
    control.stage.served = true ∨ ∃ row, control.operation = some (.createTask row) := by
  have stages := Control.stage_next definitions db outside control
  cases control with
  | create => exact .inr ⟨_,rfl⟩
  | openRead => cases linked
  | openSave | openData => cases linked.1
  | launchRead | launchCreate => simp [Control.Linked] at linked
  | resumeRead => cases linked
  | resumeTasks | resumeSave => cases linked.1
  | resumeData =>
    obtain ⟨⟨_,⟨⟩⟩,_⟩ := linked
  | previousRead =>
    exact absurd serves (Control.withOutput_elim (P := fun point => point.stage.served ≠ true) (by simp [Control.stage,Stage.served])
      (by simp [Control.stage,Stage.served]))
  | payloadRead => cases serves
  | send | startRead | startSave | stepRead | runCode | logSave | progressRead | progressSave | templateRead
  | childCreate | childSend | childSave | successRead | successSave | successRow | successData | closeSave | climb
  | failRead | failRow | failSave | failClose | failParent | failClimb | failReload => exact .inl rfl
  | _ =>
    revert serves
    generalize (Control.next definitions db outside _).stage = stage at stages
    intro serves
    simp only [Control.stage,Stage.next,List.mem_cons,List.not_mem_nil,or_false] at stages
    rcases stages with rfl | rfl | rfl | rfl <;> cases serves

theorem served_step (sound : Sound before) (served : Served before) (step : Step machine Origin.control before label after) :
    Served after := by
  obtain ⟨later,grows⟩ := sound_step sound step
  rintro ⟨origin,control⟩ member job rfl serves
  rcases step.thread_cases member with inside | ⟨index,answer,old,operation,_,found,busy,_,rfl⟩ | ⟨_,_,_,rfl⟩
  · exact (served _ inside job rfl serves).mono grows
  · have there := List.mem_of_getElem? found
    rcases served_next (sound.threads _ there).2 serves with still | ⟨row,creates⟩
    · exact (served _ there job rfl still).mono grows
    · obtain ⟨_,_,_,_,_,rfl,_⟩ := createTask_inv creates
      have owns : Owns after.shared _ _ := (later.threads _ member).2
      exact worker_hasTask owns rfl
  · cases serves

/-- A copy is carried on, or it is the row that was read; a request reads it after the opening. -/
theorem resaves_next {outside : Outside} {asked : WorkflowId} {row : Workflow} (linked : control.Linked db origin)
    (copied : (control.next definitions db outside).resaves? = some (asked,row)) :
    control.resaves? = some (asked,row) ∨ db.workflows[asked]? = some row ∧
      ((∃ request, origin = .request request) → row.status ≠ .init) := by
  have plain {point : Control} (opens : point.stage ≠ .opening) (pauses : point.stage ≠ .pausing)
      (resumes : point.stage ≠ .resuming) : point.resaves? ≠ some (asked,row) := by
    cases point with
    | openSave => exact absurd rfl opens
    | pauseSave => exact absurd rfl pauses
    | resumeTasks | resumeSave => exact absurd rfl resumes
    | _ => rintro ⟨⟩
  cases control with
  | openRead =>
    simp only [Control.next] at copied
    split at copied
    next read found =>
      cases copied
      refine .inr ⟨getWorkflow_ok found,?_⟩
      rintro ⟨_,request⟩
      cases linked.symm.trans request
    next => cases copied
  | pauseRead | resumeRead =>
    simp only [Control.next] at copied
    split at copied
    next read found =>
      split at copied
      next status =>
        cases copied
        exact .inr ⟨getWorkflow_ok found,fun _ => by rw [status]; exact WorkflowStatus.noConfusion⟩
      · cases copied
    next => cases copied
  | resumeTasks =>
    simp only [Control.next] at copied
    split at copied
    · cases copied
    · exact .inl copied
  | openSave | openData | pauseSave | resumeSave | resumeData =>
    simp only [Control.next] at copied
    repeat' split at copied
    all_goals cases copied
  | _ => exact absurd copied (plain (Control.stage_avoids rfl) (Control.stage_avoids rfl) (Control.stage_avoids rfl))

/-- A task that is a success has the result of a value of its code. -/
def Task.Valued (task : Task) : Prop := task.status = .success → ∃ retval, task.Succeeds retval

structure Valued {definitions : Definitions} (S : Controlled definitions) : Prop where
  rows : ∀ (id : TaskId) (task : Task), S.shared.tasks[id]? = some task → task.Valued
  copies : ∀ thread ∈ S.threads, ∀ row, Control.reread? thread.2 = some row → row.Valued

theorem unvalued {task : Task} (status : task.status ≠ .success) : task.Valued := fun success => absurd success status

theorem saved_valued {id : TaskId} {row : Task} {events : List (Origin × Operation)} (held : control.Held db)
    (steered : control.Steered events db workflow) (reread : ∀ copy, control.reread? = some copy → copy.Valued)
    (busy : control.operation = some (.saveTask id row)) : row.Valued := by
  cases control with
  | startSave | logSave =>
    cases busy
    refine unvalued ?_
    rw [show row.status = .progress from held]
    exact TaskStatus.noConfusion
  | progressSave =>
    cases busy
    exact reread _ rfl
  | childSave =>
    cases busy
    exact unvalued TaskStatus.noConfusion
  | successSave =>
    cases busy
    exact fun _ => ⟨_,steered⟩
  | failSave =>
    cases busy
    refine unvalued ?_
    simp only [Task.failed,Error.taskStatus]
    split <;> exact TaskStatus.noConfusion
  | cancelTask =>
    cases busy
    refine unvalued ?_
    rw [show row.status = .canceled from held]
    exact TaskStatus.noConfusion
  | send messages => cases messages <;> cases busy
  | _ => cases busy

theorem valued_step {events : List (Origin × Operation)} (carried : Carried before)
    (steering : Steering events before workflow) (valued : Valued before)
    (step : Step machine Origin.control before label after) : Valued after := by
  refine ⟨fun id task stored => ?_,fun (origin,control) member row copied => ?_⟩
  · rcases step.shared_cases with same | ⟨_,_,origin,control,operation,_,found,busy,same⟩ | ⟨_,_,_,reacts⟩
    · exact valued.rows id task (same ▸ stored)
    · have there := List.mem_of_getElem? found
      rw [same] at stored
      cases operation with
      | saveTask other saved =>
        change (before.shared.tasks.set other saved)[id]? = _ at stored
        rw [List.getElem?_set] at stored
        split at stored
        · split at stored
          · cases stored
            exact saved_valued (carried.held _ there) (steering.threads _ there).2 (valued.copies _ there) busy
          · cases stored
        · exact valued.rows id task stored
      | createTask created =>
        change (before.shared.tasks ++ [_])[id]? = _ at stored
        rw [List.getElem?_append] at stored
        split at stored
        · exact valued.rows id task stored
        · cases List.mem_singleton.mp (List.mem_of_getElem? stored)
          obtain ⟨_,_,_,_,_,_,rfl⟩ := createTask_inv busy
          exact unvalued TaskStatus.noConfusion
      | _ => exact valued.rows id task stored
    · obtain ⟨queue,same,_⟩ := react_queue reacts
      exact valued.rows id task (by rw [same] at stored; exact stored)
  · rcases step.thread_cases member with inside | ⟨_,_,old,_,_,found,_,_,rfl⟩ | ⟨_,_,_,rfl⟩
    · exact valued.copies _ inside row copied
    · obtain ⟨id,stored,there,_,status,result⟩ := reread_next copied
      intro success
      obtain ⟨retval,succeeds⟩ := valued.rows id stored there (status.symm.trans success)
      exact ⟨retval,success,result.trans succeeds.2⟩
    · cases origin with
      | message message => cases message <;> cases copied
      | request request => cases request <;> cases copied

end everywhere

/-- What holds of a workflow while nothing of it is lost, delivered twice or cancelled. -/
structure Tended {definitions : Definitions} (events : List (Origin × Operation)) (S : Controlled definitions)
    (workflow : WorkflowId) : Prop where
  regular : Regular S
  dispatching : Dispatching events S workflow
  attended : Attended S workflow
  served : Served S
  valued : Valued S
  uncancelled : ∀ thread ∈ S.threads, thread.1 ≠ .request (.cancel workflow)
  roused : ∀ thread ∈ S.threads, ∀ row, Control.resaves? thread.2 = some (workflow,row) →
    (∃ request, thread.1 = .request request) → Begun S.shared workflow

section tended
variable {definitions : Definitions} {events : List (Origin × Operation)} {before after : Controlled definitions}
  {label : Action} {workflow : WorkflowId}

theorem orderly_once (sound : Sound before) (allowed : orderly workflow before.view label) :
    ¬Repeats workflow before label := by
  rintro ⟨index,message,moves,found,below⟩
  rw [List.getElem?_map,Option.map_eq_some_iff] at found
  obtain ⟨thread,present,same⟩ := found
  have within := above_within sound.shared below
  have quiet := allowed.1.2
  rcases moves with rfl | rfl <;> simp [falters,System.view,present,same,within] at quiet

theorem orderly_kept (allowed : orderly workflow before.view label) : forsakes workflow before.view label = false := by
  have quiet := allowed.1.2
  unfold forsakes
  split
  next index =>
    split
    next message _ seen => simpa [falters,seen] using quiet
    next => rfl
  next => rfl

/-- No thread that has to do with the workflow is lost. -/
theorem orderly_lost {index : Nat} {origin : Origin} {control : Control} (sound : Sound before)
    (allowed : orderly workflow before.view (.move (.lose index))) (found : before.threads[index]? = some (origin,control)) :
    (∀ message, origin = .message message → message.workflow ≠ workflow) ∧
      ∀ request, origin = .request request → request.asks ≠ some workflow := by
  have quiet := allowed.1.2
  have seen := System.view_found found
  refine ⟨?_,?_⟩
  · rintro message rfl rfl
    have own : before.view.shared.within message.workflow message.workflow = true := above_within sound.shared .refl
    simp [falters,seen,own] at quiet
  · rintro request rfl asks
    simp [falters,seen,asks] at quiet

theorem tended_step (tended : Tended events before workflow) (allowed : orderly workflow before.view label)
    (step : Step machine Origin.control before label after) : Tended (events ++ before.event label) after workflow := by
  have regular := tended.regular
  have sound := regular.sound
  have steering := tended.dispatching.steering
  have unedited : editedBefore workflow before.view label := graphed_unedited regular.graphed workflow
  refine ⟨regular_step regular allowed.1.1 step,dispatching_step tended.dispatching ⟨unedited,orderly_kept allowed⟩ step,
    attended_step sound steering.statused tended.attended tended.uncancelled (orderly_once sound allowed) step,
    served_step sound tended.served step,valued_step tended.dispatching.carried steering tended.valued step,?_,?_⟩
  · rintro ⟨origin,control⟩ member rfl
    rcases step.thread_cases member with inside | ⟨_,_,_,_,_,found,_,_,_⟩ | ⟨environment,rfl,reacts,_⟩
    · exact tended.uncancelled _ inside rfl
    · exact tended.uncancelled _ (List.mem_of_getElem? found) rfl
    · obtain ⟨_,_,_,_,asked⟩ := react_queue reacts
      cases asked _ rfl
      simp [orderly,unfailing,falters] at allowed
  · rintro ⟨origin,control⟩ member row copied ⟨request,rfl⟩
    have still (begun : Begun before.shared workflow) : Begun after.shared workflow :=
      (begun_step sound steering.statused unedited step begun).1
    rcases step.thread_cases member with inside | ⟨_,_,old,_,_,found,_,_,rfl⟩ | ⟨_,_,_,rfl⟩
    · exact still (tended.roused _ inside row copied ⟨request,rfl⟩)
    · have there := List.mem_of_getElem? found
      rcases resaves_next (sound.threads _ there).2 copied with kept | ⟨stored,started⟩
      · exact still (tended.roused _ there row kept ⟨request,rfl⟩)
      · exact still ⟨row,stored,started ⟨request,rfl⟩⟩
    · cases request <;> cases copied

theorem unused_tended (definitions : Definitions) (templates : List WorkflowTemplate) (workflow : WorkflowId) :
    Tended [] (unused definitions templates) workflow := by
  have steering := unused_steering definitions templates workflow
  refine ⟨unused_regular templates,⟨steering,unused_carried definitions templates,fun g _ _ id task stored => ?_,
    fun _ _ _ _ member => absurd member List.not_mem_nil⟩,fun id task stored => ?_,fun _ member => absurd member List.not_mem_nil,
    ⟨fun id task stored => ?_,fun _ member => absurd member List.not_mem_nil⟩,fun _ member => absurd member List.not_mem_nil,
    fun _ member => absurd member List.not_mem_nil⟩
  all_goals simp [unused,installed] at stored

end tended

end FinmarsWorkflow
