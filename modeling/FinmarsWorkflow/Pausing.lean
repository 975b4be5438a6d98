import FinmarsWorkflow.Tokens

/-! A workflow that is paused and resumed loses and repeats nothing while its parked node is kept.
The invariants of its threads, tasks and `current_node_id` are kept by every step. When nothing
is in flight any more and the workflow is not paused, no node can be missing: a node without a
task would be parked, and what is parked waits for a resume. -/
namespace FinmarsWorkflow
open Interleave Relation

section threads
variable {definitions : Definitions} {events : List (Origin × Operation)} {before after : Controlled definitions}
  {label : Action} {workflow : WorkflowId} {g : Graph} {origin : Origin} {control : Control} {operation : Operation}
  {outside : Outside} {db : Db}

theorem spared_of_stage (direct : control.stage ≠ .delegating) (works : control.stage ≠ .failing) : control.Spared workflow := by
  cases control with
  | childSend | childSave => exact absurd rfl direct
  | failClose => exact absurd rfl works
  | _ => trivial

theorem spared_next (spared : control.Spared workflow) (childless : control.Childless workflow)
    (unstopped : ∀ id row, operation = .saveTask id row → row.workflow = workflow → row.status.stopped = false)
    (busy : control.operation = some operation) : (control.next definitions db outside).Spared workflow := by
  cases control with
  | childCreate => exact childless
  | childSend => exact spared
  | failSave depth id task row error =>
    cases busy
    intro owner
    have running := unstopped id _ rfl owner
    simp only [Task.failed,Error.taskStatus] at running
    split at running <;> cases running
  | runCode | logSave | progressSave =>
    exact Control.calling_elim (fun _ _ _ => trivial) (fun _ _ _ => trivial) (fun _ _ => trivial) (fun _ _ => trivial)
  | successRead | climb =>
    simp only [Control.next]
    split
    · exact Control.handling_elim trivial (fun _ => trivial) (fun _ _ _ => trivial)
    · trivial
  | failRead | failReload =>
    simp only [Control.next]
    split
    · exact Control.failing_elim trivial (fun _ _ => trivial)
    · trivial
  | startRead | startSave | stepRead | progressRead | templateRead | childSave | successSave | successRow | successData
  | failRow | failClose | failParent | failClimb =>
    simp only [Control.next]
    repeat' split
    all_goals trivial
  | _ => exact spared_of_stage (Control.stage_avoids rfl) (Control.stage_avoids rfl)

theorem resends_of_stage (silent : control.stage ≠ .sending) : control.Resends := by
  cases control with
  | send => exact absurd rfl silent
  | _ => trivial

theorem resends_next {payload : Option Json} (resends : control.Resends)
    (linked : control.Linked db (.request (.resume workflow payload))) : (control.next definitions db outside).Resends := by
  cases control with
  | send => exact fun message member => resends message (List.mem_of_mem_tail member)
  | openRead => cases linked
  | openSave | openData => cases linked.1
  | successRead =>
    obtain ⟨_,⟨⟩⟩ := linked.worker
  | successSave | successRow =>
    obtain ⟨_,⟨⟩⟩ := linked.owns.worker
  | successData =>
    obtain ⟨_,⟨⟩⟩ := linked.1.owns.worker
  | launchRead | launchCreate => simp [Control.Linked] at linked
  | resumeRead | resumeTasks | resumeSave =>
    simp only [Control.next]
    repeat' split
    all_goals trivial
  | resumeData =>
    simp only [Control.next]
    split
    · split
      · intro message member
        exact ⟨_,List.mem_singleton.mp member⟩
      · trivial
    · trivial
  | _ => exact resends_of_stage (Control.stage_avoids rfl)

end threads

section steps
variable {definitions : Definitions} {events : List (Origin × Operation)} {before after : Controlled definitions}
  {label : Action} {workflow : WorkflowId} {g : Graph} {node : NodeId} {origin : Origin} {control : Control}
  {operation : Operation}

section frame
variable (tended : Tended events before workflow) (sheltered : Sheltered events before workflow g)
  (allowed : orderly workflow before.view label) (step : Step machine Origin.control before label after)
include tended sheltered allowed step

omit tended in
theorem spared_step : ∀ thread ∈ after.threads, Control.Spared workflow thread.2 := by
  rintro ⟨origin,control⟩ member
  rcases step.thread_cases member with inside | ⟨index,answer,old,operation,rfl,found,busy,_,rfl⟩ | ⟨_,_,_,rfl⟩
  · exact sheltered.spared _ inside
  · have there := List.mem_of_getElem? found
    exact spared_next (sheltered.spared _ there) (sheltered.alone.threads _ there)
      (orderly_advance allowed found busy).unstopped busy
  · cases origin with
    | message message => cases message <;> trivial
    | request request => cases request <;> trivial

omit allowed in
theorem resent_step : ∀ thread ∈ after.threads, Origin.resumes workflow thread.1 = true → Control.Resends thread.2 := by
  rintro ⟨origin,control⟩ member resumes
  rcases step.thread_cases member with inside | ⟨index,answer,old,operation,rfl,found,busy,_,rfl⟩ | ⟨_,_,_,rfl⟩
  · exact sheltered.resent _ inside resumes
  · have there := List.mem_of_getElem? found
    have resends := sheltered.resent _ there resumes
    obtain ⟨payload,rfl⟩ := resumes_iff.mp resumes
    exact resends_next resends (tended.regular.sound.threads _ there).2
  · obtain ⟨payload,rfl⟩ := resumes_iff.mp resumes
    trivial

theorem saved_hale {index : Nat} {answer : Outside} {id : TaskId} {row : Task} (same : label = .advance index answer)
    (found : before.threads[index]? = some (origin,control)) (busy : control.operation = some (.saveTask id row))
    (owner : row.workflow = workflow) : row.Hale := by
  subst same
  have member := List.mem_of_getElem? found
  have held := tended.dispatching.carried.held _ member
  have running := (orderly_advance allowed found busy).unstopped id row rfl owner
  have active (status : row.status = .progress) : row.Hale := .inr (by rw [status]; rfl)
  cases control with
  | startSave | logSave =>
    cases busy
    exact active held
  | progressSave =>
    cases busy
    exact sheltered.rereads _ member _ rfl owner
  | childSave =>
    cases busy
    exact absurd owner (sheltered.spared _ member)
  | successSave =>
    cases busy
    exact .inl (tended.dispatching.steering.statused _ member)
  | failSave =>
    cases busy
    simp only [Task.failed,Error.taskStatus] at running
    split at running <;> cases running
  | cancelTask =>
    cases busy
    rw [show row.status = .canceled from held] at running
    cases running
  | send messages => cases messages <;> cases busy
  | _ => cases busy

theorem hale_step (id : TaskId) (task : Task) (stored : after.shared.tasks[id]? = some task)
    (owner : task.workflow = workflow) : task.Hale := by
  rcases step.shared_cases with same | ⟨index,answer,origin,control,operation,rfl,found,busy,same⟩ | ⟨_,_,_,reacts⟩
  · exact sheltered.hale id task (same ▸ stored) owner
  · rw [same] at stored
    cases operation with
    | saveTask other saved =>
      change (before.shared.tasks.set other saved)[id]? = _ at stored
      rw [List.getElem?_set] at stored
      split at stored
      · split at stored
        · cases stored
          exact saved_hale tended sheltered allowed step rfl found busy owner
        · cases stored
      · exact sheltered.hale id task stored owner
    | createTask created =>
      change (before.shared.tasks ++ [_])[id]? = _ at stored
      rw [List.getElem?_append] at stored
      split at stored
      · exact sheltered.hale id task stored owner
      · cases List.mem_singleton.mp (List.mem_of_getElem? stored)
        obtain ⟨_,_,_,_,_,_,rfl⟩ := createTask_inv busy
        exact .inr rfl
    | _ => exact sheltered.hale id task stored owner
  · obtain ⟨queue,same,_⟩ := react_queue reacts
    exact sheltered.hale id task (by rw [same] at stored; exact stored) owner

omit tended allowed in
theorem rereads_step : ∀ thread ∈ after.threads, ∀ row, Control.reread? thread.2 = some row → row.workflow = workflow →
    row.Hale := by
  rintro ⟨origin,control⟩ member row copied owner
  rcases step.thread_cases member with inside | ⟨_,_,old,_,_,found,_,_,rfl⟩ | ⟨_,_,_,rfl⟩
  · exact sheltered.rereads _ inside row copied owner
  · obtain ⟨id,stored,there,key,status,_⟩ := reread_next copied
    have home : stored.workflow = workflow := (congrArg TaskKey.workflow key).symm.trans owner
    have hale := sheltered.hale id stored there home
    simpa only [Task.Hale,status] using hale
  · cases origin with
    | message message => cases message <;> cases copied
    | request request => cases request <;> cases copied

end frame

section known
variable (tended : Tended events before workflow) (sheltered : Sheltered events before workflow g) (forest : g.Forest)
  (here : ∀ key, before.shared.workflowKey workflow = some key → Flat definitions before.shared workflow g)
  (allowed : orderly workflow before.view label) (step : Step machine Origin.control before label after)
include tended sheltered forest here allowed step

omit tended here allowed in
/-- A node whose message is admitted has no task yet: one input has paid for one message. -/
theorem once_step (sound : Sound before) (node : NodeId) : ran after.shared workflow node ≤ 1 := by
  rcases tasks_step workflow sound step with same | ⟨index,_,job,row,known,payload,output,rfl,found,owner,created⟩
  · exact Nat.le_trans (Nat.le_of_eq (same _)) (sheltered.once node)
  have grown : ran after.shared workflow node = ran before.shared workflow node + if job.currentNodeId = node then 1 else 0 :=
    created _
  by_cases own : job.currentNodeId = node
  · have backed := sheltered.backed node
    have heavy := weight_le_weigh
      (fun thread : Origin × Control => Control.stake (arrivals g node) workflow thread.1 thread.2) before.threads _
      (List.mem_of_getElem? found)
    have one : Control.stake (arrivals g node) workflow (.message (.processNextNode job))
        (.create job row known payload output) = 1 := by
      simp [Control.stake,Control.stage,Stage.working,Control.cost,Message.cost,arrivals,owner,own]
    have fed : (arrivals g node).opening + ((g.inputNodes node).map (ran before.shared workflow)).sum ≤ 1 := by
      rcases inputs : g.inputNodes node with _ | ⟨input,_ | ⟨second,rest⟩⟩
      · simp only [arrivals,List.map_nil,List.sum_nil]
        split <;> decide
      · have inner : (arrivals g node).opening = 0 := if_neg (fun start => by simp [startNodes_no_inputs start] at inputs)
        have most := sheltered.once input
        simpa [inner] using most
      · have few := forest.single node
        simp [inputs] at few
    simp only [Backed,afloat] at backed
    dsimp only at heavy
    rw [if_pos own] at grown
    omega
  · rw [grown,if_neg own]
    exact sheltered.once node

theorem copies_step : ∀ thread ∈ after.threads, ∀ row, Control.resaves? thread.2 = some (workflow,row) → ∀ node,
    row.currentNodeId = some node → Present workflow node after := by
  rintro ⟨origin,control⟩ member row copied node names
  rcases step.thread_cases member with inside | ⟨_,_,old,_,_,found,_,_,rfl⟩ | ⟨_,_,_,rfl⟩
  · exact present_step tended sheltered forest here allowed step (sheltered.copies _ inside row copied node names)
  · have there := List.mem_of_getElem? found
    refine present_step tended sheltered forest here allowed step ?_
    rcases resaves_next (tended.regular.sound.threads _ there).2 copied with kept | ⟨stored,_⟩
    · exact sheltered.copies _ there row kept node names
    · exact .inl (by rw [Db.slot,stored]; exact names)
  · cases origin with
    | message message => cases message <;> cases copied
    | request request => cases request <;> cases copied

theorem sent_step (node : NodeId) (sent : Sent workflow node (events ++ before.event label)) : Present workflow node after := by
  obtain ⟨origin,job,member,owner,names⟩ := sent
  rcases List.mem_append.mp member with old | new
  · exact present_step tended sheltered forest here allowed step (sheltered.sent node ⟨origin,job,old,owner,names⟩)
  · obtain ⟨index,answer,_,control,_,found,busy,⟨⟩,rfl⟩ := event_elim new
    refine .inr (underway_iff.mpr (.inr (.inl ⟨.processNextNode job,?_,message_names.mpr ⟨job,rfl,owner,names⟩⟩)))
    cases step with
    | advance _ _ _ _ operation again moves =>
      cases Option.some.inj (found.symm.trans again)
      cases Option.some.inj (busy.symm.trans moves)
      exact List.mem_append_right _ (List.mem_singleton_self _)

omit forest in
/-- Who saves the row over the parked node leaves the workflow paused, or is a resume that will send the node. -/
theorem held_saved {index : Nat} {answer : Outside} {row : Workflow} (same : label = .advance index answer)
    (found : before.threads[index]? = some (origin,control)) (busy : control.operation = some (.saveWorkflow workflow row))
    (parked : Parked workflow node before.view) (named : node ≠ "") (begun : Begun before.shared workflow) :
    row.status = .wait ∨ (∃ payload, origin = .request (.resume workflow payload)) ∧
      (control.next definitions before.shared answer).Recalls workflow g node := by
  subst same
  have member := List.mem_of_getElem? found
  have linked := (tended.regular.sound.threads _ member).2
  have orders := orderly_advance allowed found busy
  have keeps := orders.keeps row rfl node parked
  cases control with
  | openSave =>
    cases busy
    exact absurd begun (orders.opens _ linked.1 rfl)
  | pauseSave =>
    cases busy
    exact .inl rfl
  | park job held =>
    cases busy
    exact .inl (tended.dispatching.steering.statused _ member)
  | resumeSave asked held payload =>
    cases busy
    have kept : held.currentNodeId = some node := keeps
    have filtered : held.currentNodeId.filter (· != "") = some node := by
      rw [kept,Option.filter_some_eq_some.mpr (by simpa using named)]
    refine .inr ⟨⟨payload,linked.1⟩,?_⟩
    simp only [Control.next,filtered]
    exact ⟨rfl,rfl⟩
  | closeSave celery depth id task held retval =>
    cases busy
    have has : HasTask before.shared task.workflow node := ⟨_,_,linked.1.stored,rfl,keeps⟩
    exact absurd (underway_iff.mpr (.inl has)) parked.2
  | failClose =>
    cases busy
    exact absurd rfl (sheltered.spared _ member)
  | cancelSave =>
    cases busy
    exact absurd linked.1 (tended.uncancelled _ member)
  | send messages => cases messages <;> cases busy
  | _ => cases busy

/-- A resume that is about to send the node goes on until it has sent it. -/
theorem recalls_step {payload : Option Json} (member : (.request (.resume workflow payload),control) ∈ before.threads)
    (recalls : control.Recalls workflow g node) (free : ¬Underway workflow node after.view) :
    ∃ thread ∈ after.threads, (∃ payload, thread.1 = .request (.resume workflow payload)) ∧
      Control.Recalls workflow g node thread.2 := by
  have sound := tended.regular.sound
  have linked := (sound.threads _ member).2
  have busy : control.operation ≠ none := by
    cases control with
    | resumeData => exact Option.some_ne_none _
    | send messages =>
      rw [show messages = _ from recalls]
      exact Option.some_ne_none _
    | _ => cases recalls
  rcases step.remains member with inside | ⟨index,answer,operation,rfl,found,moves,shared,new⟩ | idle | ⟨_,_,rfl,there,reacts⟩
  · exact ⟨_,inside,⟨payload,rfl⟩,recalls⟩
  · refine ⟨_,new,⟨payload,rfl⟩,?_⟩
    cases control with
    | resumeData asked row next =>
      obtain ⟨rfl,rfl⟩ := recalls
      obtain ⟨data,_⟩ := graph_templateData (here _ linked.2).graph linked.2
      simp only [Control.next,data,forest.formed.adjacencyList]
      rfl
    | send messages =>
      cases (show messages = _ from recalls)
      cases moves
      refine absurd (underway_iff.mpr (.inr (.inl ⟨.processNextNode ⟨node,workflow,g⟩,?_,?_⟩))) free
      · rw [shared]
        exact List.mem_append_right _ (List.mem_singleton_self _)
      · exact message_names.mpr ⟨_,rfl,rfl,rfl⟩
    | _ => cases recalls
  · exact absurd idle busy
  · exact absurd rfl ((drop_elsewhere sound allowed reacts there).2 _ rfl)

/-- A parked node waits in a paused row, or a resume is about to send it. -/
theorem held_step (node : NodeId) (parked : Parked workflow node after.view) : node ≠ "" ∧ Begun after.shared workflow ∧
    ((∃ row, after.shared.workflows[workflow]? = some row ∧ row.status = .wait) ∨
      ∃ thread ∈ after.threads, (∃ payload, thread.1 = .request (.resume workflow payload)) ∧
        Control.Recalls workflow g node thread.2) := by
  have sound := tended.regular.sound
  have statused := tended.dispatching.steering.statused
  rcases parked_step tended sheltered forest here allowed step parked with old | ⟨index,answer,job,row,rfl,found,rfl,rfl⟩
  · obtain ⟨named,begun,waits⟩ := sheltered.held node old
    have later := (begun_step sound statused (graphed_unedited tended.regular.graphed workflow) step begun).1
    refine ⟨named,later,?_⟩
    rcases waits with ⟨row,stored,waits⟩ | ⟨⟨origin,control⟩,member,⟨payload,rfl⟩,recalls⟩
    · obtain ⟨saved,there,started⟩ := later
      by_cases same : before.shared.workflows[workflow]? = some saved
      · cases Option.some.inj (stored.symm.trans same)
        exact .inl ⟨row,there,waits⟩
      · obtain ⟨index,answer,origin,control,rfl,found,busy,_⟩ := saving_step statused step there same started
        rcases held_saved tended sheltered here allowed step rfl found busy old named begun with still | ⟨request,recalls⟩
        · exact .inl ⟨saved,there,still⟩
        · exact .inr ⟨_,(step.advances found busy).2,request,recalls⟩
    · exact .inr (recalls_step tended sheltered forest here allowed step member recalls parked.2)
  · have waits : row.status = .wait := statused _ (List.mem_of_getElem? found)
    obtain ⟨named,old,stored,_⟩ := (orderly_advance allowed found rfl).parks job _ rfl rfl waits
    have shared := (step.advances found rfl).1
    have saved : after.shared.workflows[job.workflow]? = some {row with currentNodeId := some job.currentNodeId} := by
      rw [shared]
      exact List.getElem?_set_self (List.getElem?_eq_some_iff.mp stored).1
    refine ⟨fun empty => named (congrArg some empty),⟨_,saved,?_⟩,.inl ⟨_,saved,waits⟩⟩
    rw [show Workflow.status _ = .wait from waits]
    exact WorkflowStatus.noConfusion

omit tended sheltered in
/-- Who opened the workflow goes on until it has sent the start node. -/
theorem starts_step (sound : Sound before) (start : node ∈ g.startNodes)
    (member : (.message (.executeWorkflowV2 workflow),control) ∈ before.threads) (starts : control.Starts workflow node) :
    Sent workflow node (events ++ before.event label) ∨
      ∃ thread ∈ after.threads, thread.1 = .message (.executeWorkflowV2 workflow) ∧ Control.Starts workflow node thread.2 := by
  have linked := (sound.threads _ member).2
  rcases step.remains member with inside | ⟨index,answer,operation,rfl,found,moves,shared,new⟩ | idle | ⟨_,_,rfl,there,reacts⟩
  · exact .inr ⟨_,inside,rfl,starts⟩
  · cases control with
    | openData asked row =>
      cases (show asked = workflow from starts)
      obtain ⟨data,_⟩ := graph_templateData (here _ linked.2).graph linked.2
      refine .inr ⟨_,new,rfl,?_⟩
      simp only [Control.next,data,forest.formed.adjacencyList]
      exact ⟨_,List.mem_map.mpr ⟨node,start,rfl⟩,message_names.mpr ⟨_,rfl,rfl,rfl⟩⟩
    | send messages =>
      obtain ⟨message,among,names⟩ := starts
      cases messages with
      | nil => cases among
      | cons head rest =>
        cases moves
        rcases List.mem_cons.mp among with rfl | inside
        · obtain ⟨job,rfl,owner,own⟩ := message_names.mp names
          rw [event_advance found rfl]
          exact .inl ⟨_,job,List.mem_append_right _ (List.mem_singleton_self _),owner,own⟩
        · exact .inr ⟨_,new,rfl,message,inside,names⟩
    | _ => cases starts
  · cases control with
    | send messages =>
      obtain ⟨message,among,_⟩ := starts
      cases messages with
      | nil => cases among
      | cons => cases idle
    | openData => cases idle
    | _ => cases starts
  · exact absurd rfl ((drop_elsewhere sound allowed reacts there).1 _ rfl)

theorem opened_step (begun : Begun after.shared workflow) (node : NodeId) (start : node ∈ g.startNodes) :
    Sent workflow node (events ++ before.event label) ∨
      ∃ thread ∈ after.threads, thread.1 = .message (.executeWorkflowV2 workflow) ∧ Control.Starts workflow node thread.2 := by
  have sound := tended.regular.sound
  have steering := tended.dispatching.steering
  have known (old : Begun before.shared workflow) := sheltered.opened old node start
  by_cases old : Begun before.shared workflow
  · rcases known old with sent | ⟨⟨origin,control⟩,member,rfl,starts⟩
    · exact .inl (sent.mono (List.subset_append_left _ _))
    · exact starts_step forest here allowed step sound start member starts
  · obtain ⟨row,stored,started⟩ := begun
    obtain ⟨index,answer,origin,control,rfl,found,busy,_⟩ :=
      saving_step steering.statused step stored (fun same => old ⟨row,same,started⟩) started
    have member := List.mem_of_getElem? found
    have linked := (sound.threads _ member).2
    have goes := (step.advances found busy).2
    -- whoever else saves the row finds the workflow opened
    cases control with
    | openSave =>
      cases busy
      exact .inr ⟨_,goes,linked.1,rfl⟩
    | park job held =>
      cases busy
      have steered := (steering.threads _ member).1
      rw [linked.1] at steered
      exact absurd (steered.elim rfl).2.1 old
    | pauseSave =>
      cases busy
      exact absurd (tended.roused _ member _ rfl ⟨_,linked.1⟩) old
    | resumeSave =>
      cases busy
      exact absurd (tended.roused _ member _ rfl ⟨_,linked.1⟩) old
    | closeSave =>
      cases busy
      exact absurd (steering.begun linked.1.stored rfl) old
    | failClose =>
      cases busy
      exact absurd rfl (sheltered.spared _ member)
    | cancelSave =>
      cases busy
      exact absurd linked.1 (tended.uncancelled _ member)
    | send messages => cases messages <;> cases busy
    | _ => cases busy

theorem sheltered_step (there : ∀ key, after.shared.workflowKey workflow = some key → Flat definitions after.shared workflow g) :
    Sheltered (events ++ before.event label) after workflow g := by
  have sound := tended.regular.sound
  refine ⟨?_,spared_step sheltered allowed step,resent_step tended sheltered step,hale_step tended sheltered allowed step,
    rereads_step sheltered step,backed_step tended sheltered forest here allowed step there,
    once_step sheltered forest step sound,copies_step tended sheltered forest here allowed step,
    sent_step tended sheltered forest here allowed step,held_step tended sheltered forest here allowed step,
    opened_step tended sheltered forest here allowed step⟩
  cases known : after.shared.workflowKey workflow with
  | none => exact unknown_alone (sound_step sound step).1 known
  | some key => exact alone_step tended.regular (fun _ => sheltered.alone) step (there key known)

end known

end steps

/-- The event pauses the workflow, or resumes it. -/
def pauses (workflow : WorkflowId) (paused : Bool) : Origin × Operation → Bool
  | (.request (.pause asked),.saveWorkflow _ _) => asked == workflow || paused
  | (.request (.resume asked _),.saveWorkflow _ _) => asked != workflow && paused
  | _ => paused

/-- The last accepted request to pause or resume the workflow is one to pause it. -/
def leftPaused (workflow : WorkflowId) (events : List (Origin × Operation)) : Bool := events.foldl (pauses workflow) false

/-- The message or the request is about the workflow. -/
def Origin.concerns (workflow : WorkflowId) : Origin → Bool
  | .message taken => taken.workflow == workflow
  | .request asked => asked.asks == some workflow

/-- No message of the workflow is queued, and no thread that it concerns has anything left to do. -/
def drained (workflow : WorkflowId) (view : Seen) : Bool :=
  view.shared.queue.all (fun message => message.workflow != workflow) &&
    view.threads.all (fun thread => thread.2.isNone || !thread.1.concerns workflow)

/-- A paused workflow was paused by a request that no resume has followed. -/
def Waiting {definitions : Definitions} (events : List (Origin × Operation)) (S : Controlled definitions)
    (workflow : WorkflowId) : Prop :=
  ∀ row, S.shared.workflows[workflow]? = some row → row.status = .wait → leftPaused workflow events = true

section rest
variable {definitions : Definitions} {events : List (Origin × Operation)} {before after : Controlled definitions}
  {label : Action} {workflow : WorkflowId} {g : Graph} {node : NodeId} {origin : Origin} {control : Control}
  {operation : Operation}

/-- Only a resume that is saved ends a pause. -/
theorem pauses_kept {db : Db} (linked : control.Linked db origin) (busy : control.operation = some operation)
    (paused : ∀ row payload, control ≠ .resumeSave workflow row payload) : pauses workflow true (origin,operation) = true := by
  unfold pauses
  split
  next => exact Bool.or_true _
  next asked payload id row same =>
    obtain ⟨rfl,rfl⟩ := Prod.mk.inj same
    rw [Bool.and_true,bne_iff_ne]
    rintro rfl
    cases control with
    | resumeSave other row payload =>
      cases linked.1
      exact paused row payload rfl
    | openSave | park | pauseSave | cancelSave => cases linked.1
    | closeSave =>
      obtain ⟨_,⟨⟩⟩ := linked.1.owns.worker
    | failClose =>
      obtain ⟨_,⟨⟩⟩ := linked.1.worker
    | send messages => cases messages <;> cases busy
    | _ => cases busy
  next => rfl

theorem waiting_step (tended : Tended events before workflow) (waiting : Waiting events before workflow) (allowed : orderly workflow before.view label)
    (step : Step machine Origin.control before label after) : Waiting (events ++ before.event label) after workflow := by
  intro row stored waits
  have sound := tended.regular.sound
  have statused := tended.dispatching.steering.statused
  rw [leftPaused,List.foldl_append]
  change List.foldl (pauses workflow) (leftPaused workflow events) _ = true
  by_cases same : before.shared.workflows[workflow]? = some row
  · rw [waiting row same waits]
    cases step with
    | advance index answer origin control operation found busy =>
      have linked : control.Linked before.shared origin := (sound.threads _ (List.mem_of_getElem? found)).2
      rw [event_advance found busy]
      refine pauses_kept linked busy (fun held payload resumes => ?_)
      subst resumes
      cases busy
      obtain ⟨bound,_⟩ := List.getElem?_eq_some_iff.mp same
      have saved : (before.shared.workflows.set workflow (held.resumed payload))[workflow]? = some (held.resumed payload) :=
        List.getElem?_set_self bound
      cases Option.some.inj (stored.symm.trans saved)
      cases waits
    | _ => rfl
  · obtain ⟨index,answer,origin,control,rfl,found,busy,_⟩ :=
      saving_step statused step stored same (by rw [waits]; exact WorkflowStatus.noConfusion)
    have member := List.mem_of_getElem? found
    have linked : control.Linked before.shared origin := (sound.threads _ member).2
    rw [event_advance found busy]
    cases control with
    | pauseSave =>
      cases busy
      rw [linked.1]
      simp [pauses]
    | park job held =>
      cases busy
      obtain ⟨_,old,there,status⟩ := (orderly_advance allowed found rfl).parks job _ linked.1 rfl waits
      rw [waiting old there status,linked.1]
      rfl
    | openSave | resumeSave | closeSave | cancelSave =>
      cases busy
      cases waits
    | failClose depth id task held error =>
      cases busy
      simp only [Error.workflowStatus] at waits
      split at waits <;> cases waits
    | send messages => cases messages <;> cases busy
    | _ => cases busy

section drained
variable {S : Controlled definitions} (tended : Tended events S workflow) (sheltered : Sheltered events S workflow g)
  (forest : g.Forest) (flat : Flat definitions S.shared workflow g) (rest : drained workflow S.view = true)
include rest

theorem drained_queue {message : Message} (queued : message ∈ S.shared.queue) : message.workflow ≠ workflow := by
  obtain ⟨queue,_⟩ := Bool.and_eq_true_iff.mp rest
  simpa using List.all_eq_true.mp queue message queued

theorem drained_idle {thread : Origin × Control} (member : thread ∈ S.threads)
    (concerns : thread.1.concerns workflow = true) : Control.operation thread.2 = none := by
  obtain ⟨_,threads⟩ := Bool.and_eq_true_iff.mp rest
  have seen : (thread.1,Control.operation thread.2) ∈ S.view.threads := List.mem_map.mpr ⟨thread,member,rfl⟩
  simpa [concerns] using List.all_eq_true.mp threads _ seen

include tended sheltered

theorem drained_success {id : TaskId} {task : Task} (stored : S.shared.tasks[id]? = some task)
    (owner : task.workflow = workflow) : task.status = .success := by
  rcases sheltered.hale id task stored owner with success | active
  · exact success
  · obtain ⟨⟨origin,control⟩,member,works⟩ := tended.attended id task stored owner active
    obtain ⟨_,job,rfl,here,_⟩ := works_worker tended.regular.sound sheltered.alone member stored owner works
    have idle : control.operation = none := drained_idle rest member (by simpa [Origin.concerns,Message.workflow] using here)
    exact absurd idle (works_busy works)

omit tended in
/-- A node of a drained workflow that is known of has a task, unless the workflow is left paused. -/
theorem drained_present (waiting : Waiting events S workflow) (resumed : leftPaused workflow events = false)
    (present : Present workflow node S) : HasTask S.shared workflow node := by
  have settled (underway : Underway workflow node S.view) : HasTask S.shared workflow node := by
    rcases underway_iff.mp underway with has | ⟨message,queued,names⟩ | ⟨⟨origin,control⟩,member,names,busy⟩
    · exact has
    · obtain ⟨job,rfl,owner,_⟩ := message_names.mp names
      exact absurd owner (drained_queue rest queued)
    · obtain ⟨job,rfl,owner,_⟩ := origin_names.mp names
      exact absurd (drained_idle rest member (by simpa [Origin.concerns,Message.workflow] using owner)) busy
  by_cases underway : Underway workflow node S.view
  · exact settled underway
  · obtain ⟨_,_,⟨row,stored,waits⟩ | ⟨⟨origin,control⟩,member,⟨payload,rfl⟩,recalls⟩⟩ :=
      sheltered.held node ⟨present.resolve_right underway,underway⟩
    · cases (waiting row stored waits).symm.trans resumed
    · have idle : control.operation = none := drained_idle rest member (beq_self_eq_true (some workflow))
      cases control with
      | resumeData => cases idle
      | send messages =>
        cases (show messages = _ from recalls)
        cases idle
      | _ => cases recalls

include forest flat

/-- The task of an input has sent for the node behind it. -/
theorem drained_sent {source : NodeId} (leads : node ∈ g.adjacent source) (has : HasTask S.shared workflow source) :
    Sent workflow node events := by
  obtain ⟨id,key,there,home,named⟩ := has
  obtain ⟨task,stored,rfl⟩ := Option.map_eq_some_iff.mp there
  have success := drained_success tended sheltered rest stored home
  obtain ⟨retval,succeeds⟩ := tended.valued.rows id task stored success
  have selects : g.Selects source retval node := by
    obtain ⟨connection,inside,_⟩ := List.mem_map.mp leads
    obtain ⟨member,leaves⟩ := List.mem_filter.mp inside
    have known := node?_ids.mpr (forest.formed.ends connection member).1
    rw [beq_iff_eq.mp leaves] at known
    obtain ⟨found,named⟩ := Option.isSome_iff_exists.mp known
    refine ⟨found,named,?_⟩
    rw [forest.plain found (node?_mem named),if_neg Bool.false_ne_true]
    exact leads
  have owed := tended.dispatching.rows g flat.graph forest.formed.adjacencyList id task stored home source retval node named
    succeeds selects (forest.formed.adjacent_known leads)
  rcases owed with sent | ⟨⟨origin,control⟩,member,⟨job,rfl⟩,owes⟩
  · exact sent
  · have linked := (tended.regular.sound.threads _ member).2
    have own : job.workflow = workflow := above_childless sheltered.alone.rows (owes_below linked owes)
    have idle : control.operation = none := drained_idle rest member (by simpa [Origin.concerns,Message.workflow] using own)
    obtain ⟨_,busy,_⟩ := @owes_next definitions _ _ _ _ _ _ (.returns .null) linked flat.graph
      (forest.formed.adjacent_known leads) owes
    cases busy.symm.trans idle

omit tended forest flat in
theorem drained_opened (begun : Begun S.shared workflow) (start : node ∈ g.startNodes) : Sent workflow node events := by
  rcases sheltered.opened begun node start with sent | ⟨⟨origin,control⟩,member,rfl,starts⟩
  · exact sent
  · have idle : control.operation = none := drained_idle rest member (beq_self_eq_true workflow)
    cases control with
    | openData => cases idle
    | send messages =>
      obtain ⟨message,among,_⟩ := starts
      cases messages with
      | nil => cases among
      | cons => cases idle
    | _ => cases starts

/-- No node is missing: from the start nodes on, a task has sent for the next one. -/
theorem drained_hasTask (begun : Begun S.shared workflow) (waiting : Waiting events S workflow)
    (resumed : leftPaused workflow events = false) (known : node ∈ g.ids) : HasTask S.shared workflow node := by
  refine acyclic_induction (fun connection inside => (forest.formed.ends connection inside).1)
    (fun id _ => forest.formed.acyclic id) known (fun node known inputs => ?_)
  refine drained_present sheltered rest waiting resumed (sheltered.sent node ?_)
  by_cases fed : ∃ connection ∈ g.connections, connection.target = node
  · obtain ⟨connection,inside,arrives⟩ := fed
    refine drained_sent tended sheltered forest flat rest ?_ (inputs connection inside arrives)
    exact List.mem_map.mpr ⟨connection,List.mem_filter.mpr ⟨inside,beq_self_eq_true _⟩,arrives⟩
  · refine drained_opened sheltered rest begun (List.mem_filter.mpr ⟨known,?_⟩)
    simp only [Bool.not_eq_true',List.any_eq_false,beq_iff_eq]
    exact fun connection inside same => fed ⟨connection,inside,same.symm⟩

end drained

end rest

section run
variable {definitions : Definitions} {workflow : WorkflowId}

theorem unused_sheltered (definitions : Definitions) (templates : List WorkflowTemplate) (workflow : WorkflowId) (g : Graph) :
    Sheltered [] (unused definitions templates) workflow g := by
  have empty : (unused definitions templates).shared.workflows[workflow]? = none := rfl
  have unbegun : ¬Begun (unused definitions templates).shared workflow := by
    rintro ⟨row,stored,_⟩
    cases empty.symm.trans stored
  have unslotted (node : NodeId) : (unused definitions templates).shared.slot workflow ≠ some node := by
    simp [Db.slot,empty]
  refine ⟨?_,fun _ member => absurd member List.not_mem_nil,fun _ member => absurd member List.not_mem_nil,
    fun id task stored => ?_,fun _ member => absurd member List.not_mem_nil,fun node => ?_,fun node => Nat.zero_le _,
    fun _ member => absurd member List.not_mem_nil,?_,fun node parked => absurd parked.1 (unslotted node),
    fun begun => absurd begun unbegun⟩
  · exact unknown_alone (unused_sound templates) (by simp [unused,installed,Db.workflowKey])
  · simp [unused,installed] at stored
  · have free : token workflow node (unused definitions templates) = 0 := if_neg (fun parked => unslotted node parked.1)
    simp only [Backed,free]
    exact Nat.zero_le _
  · rintro node ⟨_,_,member,_⟩
    cases member

theorem sheltered_run {templates : List WorkflowTemplate} {events : List (Origin × Operation)} {last : Controlled definitions}
    (run : Run machine Origin.control (orderly workflow) (unused definitions templates) events last) :
    Tended events last workflow ∧ Waiting events last workflow ∧ ∀ g : Graph, g.Forest →
      (∀ key, last.shared.workflowKey workflow = some key → Flat definitions last.shared workflow g) →
      Sheltered events last workflow g := by
  refine run.recorded (fun events S => Tended events S workflow ∧ Waiting events S workflow ∧ ∀ g : Graph, g.Forest →
    (∀ key, S.shared.workflowKey workflow = some key → Flat definitions S.shared workflow g) → Sheltered events S workflow g) ?_ ?_
  · rintro events before label after ⟨tended,waiting,sheltered⟩ allowed step
    refine ⟨tended_step tended allowed step,waiting_step tended waiting allowed step,fun g forest there => ?_⟩
    have grows := (sound_step tended.regular.sound step).2
    have here (key : WorkflowKey) (known : before.shared.workflowKey workflow = some key) :
        Flat definitions before.shared workflow g :=
      (there key (grows.workflow _ _ known)).earlier grows (templates_step tended.regular step) known
    exact sheltered_step tended (sheltered g forest here) forest here allowed step there
  · refine ⟨unused_tended definitions templates workflow,fun row stored => ?_,
      fun g _ _ => unused_sheltered definitions templates workflow g⟩
    simp [unused,installed] at stored

/-- Wherever requests pause and resume it: as long as its parked node is kept, a workflow whose graph is a forest
has exactly one task for every node, and a success each, when it is drained and not left paused. -/
theorem paused_forest_completes (definitions : Definitions) (templates : List WorkflowTemplate) (workflow : WorkflowId)
    (events : List (Origin × Operation)) (last : Installation)
    (run : Execution definitions (orderly workflow) (installed templates) events last)
    (g : Graph) (forest : g.Forest) (flat : Flat definitions last.shared workflow g)
    (row : Workflow) (stored : last.shared.workflows[workflow]? = some row) (opened : row.status ≠ .init)
    (resumed : leftPaused workflow events = false) (rest : drained workflow last.view = true) :
    (∀ node ∈ g.ids,
      last.shared.tasks.countP (fun task => task.workflow == workflow && task.nodeId == some node) = 1) ∧
    ∀ task ∈ last.shared.tasks, task.workflow = workflow → task.status = .success := by
  obtain ⟨reached,follows,alike⟩ := execution_follow run
  obtain ⟨tended,waiting,sheltered⟩ := sheltered_run follows
  rw [alike.view] at rest
  rw [alike.shared] at flat stored ⊢
  have sheltered := sheltered g forest (fun _ _ => flat)
  refine ⟨fun node known => ?_,fun task member owner => ?_⟩
  · obtain ⟨id,key,there,owner,names⟩ :=
      drained_hasTask tended sheltered forest flat rest ⟨row,stored,opened⟩ waiting resumed known
    have one : ran reached.shared workflow node = 1 := Nat.le_antisymm (sheltered.once node) (ran_pos there owner names)
    exact ran_count _ workflow node ▸ one
  · obtain ⟨id,there⟩ := List.mem_iff_getElem?.mp member
    exact drained_success tended sheltered rest there owner

end run

/-- A graph whose connections follow the order of its nodes and lead to different nodes. -/
theorem forest_of_order {g : Graph} (some_ : g.nodes ≠ [])
    (ordered : ∀ connection ∈ g.connections, connection.source ∈ g.ids ∧ connection.target ∈ g.ids ∧
      g.ids.idxOf connection.source < g.ids.idxOf connection.target)
    (distinct : (g.connections.map Connection.target).Nodup) (plain : ∀ node ∈ g.nodes, node.isCondition = false) :
    g.Forest := by
  refine ⟨formed_of_order some_ ordered,fun node => ?_,plain⟩
  have most := List.nodup_iff_count_le_one.mp distinct node
  rw [List.count_eq_length_filter,List.filter_map,List.length_map] at most
  simp only [Graph.inputNodes,List.length_map]
  exact most

/-- The first workflow has this graph and was opened, was not left paused, and nothing of it is in flight. -/
def resumedAndDrained (g : Graph) (outcome : List (Origin × Operation) × Installation) : Bool :=
  outcome.2.shared.graph 0 == some g && (outcome.2.shared.workflows[0]?).any (fun row => row.status != .init) &&
    !leftPaused 0 outcome.1 && drained 0 outcome.2.view

/-- The second node is parked, and the resume sends it. -/
theorem paused_forest_completes_chain : ∃ events last,
    Execution versionOne (orderly 0) (installed [⟨"t",0,twoNodes⟩]) events last ∧
    events.any (pauses 0 false) = true ∧
    (∀ node ∈ twoNodes.ids,
      last.shared.tasks.countP (fun task => task.workflow == 0 && task.nodeId == some node) = 1) ∧
    ∀ task ∈ last.shared.tasks, task.workflow = 0 → task.status = .success := by
  obtain ⟨events,last,run,found⟩ := schedule_recorded versionOne (orderly 0) [⟨"t",0,twoNodes⟩]
    (opened ++ processed 0 .null ++ served (.pause 0) ++ processed 0 .null ++ served (.resume 0 none) ++ processed 0 .null)
    (fun outcome => resumedAndDrained twoNodes outcome && outcome.1.any (pauses 0 false)) (by decide)
  obtain ⟨rests,paused⟩ := Bool.and_eq_true_iff.mp found
  simp only [resumedAndDrained,Bool.and_eq_true,beq_iff_eq,Bool.not_eq_true'] at rests
  obtain ⟨⟨⟨graph,opened⟩,resumed⟩,drains⟩ := rests
  obtain ⟨row,stored,status⟩ := (Option.any_eq_true _ _).mp opened
  exact ⟨events,last,run,paused,paused_forest_completes versionOne [⟨"t",0,twoNodes⟩] 0 events last run twoNodes
    (forest_of_order (by decide) (by decide) (by decide) (by decide)) (coded_flat graph (by decide)) row stored
    (by simpa using status) resumed drains⟩

/-- Two messages find the workflow paused, and the node of the second takes the place of the first one. When all
is drained the resume sends the second node only: the workflow becomes a success, and the first node has no task. -/
theorem parked_node_lost : ∃ front middle back last,
    Execution versionOne (unfailing 0) (installed [⟨"t",0,fork⟩]) front middle ∧
    leftPaused 0 front = true ∧ drained 0 middle.view = true ∧
    Execution versionOne (unfailing 0) middle back last ∧ resumedAndDrained fork (front ++ back,last) = true ∧
    (last.shared.workflows[0]?).map Workflow.status = some .success ∧ "b" ∈ fork.ids ∧
    last.shared.tasks.countP (fun task => task.workflow == 0 && task.nodeId == some "b") = 0 := by
  obtain ⟨front,middle,head,found⟩ := schedule_recorded versionOne (unfailing 0) [⟨"t",0,fork⟩]
    (opened ++ processed 0 .null ++ served (.pause 0) ++ processed 0 .null ++ processed 0 .null)
    (fun outcome => leftPaused 0 outcome.1 && drained 0 outcome.2.view &&
      (outcome.2.record machine (Origin.program versionOne) (unfailing 0) (served (.resume 0 none) ++ processed 0 .null)).any
        (fun (rest : List (Origin × Operation) × Installation) => resumedAndDrained fork (outcome.1 ++ rest.1,rest.2) &&
          decide ((rest.2.shared.workflows[0]?).map Workflow.status = some .success ∧
            rest.2.shared.tasks.countP (fun task => task.workflow == 0 && task.nodeId == some "b") = 0))) (by decide)
  simp only [Bool.and_eq_true] at found
  obtain ⟨⟨paused,drains⟩,continues⟩ := found
  obtain ⟨back,last,tail,ends⟩ := record_any _ continues
  obtain ⟨rests,outcome⟩ := Bool.and_eq_true_iff.mp ends
  obtain ⟨success,lost⟩ := of_decide_eq_true outcome
  exact ⟨front,middle,back,last,head,paused,drains,tail,rests,success,by decide,lost⟩

end FinmarsWorkflow
