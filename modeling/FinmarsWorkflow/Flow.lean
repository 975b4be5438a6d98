import FinmarsWorkflow.Dispatch
import FinmarsWorkflow.Stranding

/-! Nothing but a dropped message brings a workflow to a standstill.
A worker of the family goes on until it has sent a message to a next node, has closed the
workflow or has dropped its message. So something of an opened workflow is in flight until it
is a success, unless the last worker dropped the last message. -/
namespace FinmarsWorkflow
open Interleave Relation

/-- A worker of the family that still acts for it, at a point on the way to a next node or the end. -/
def Control.Tends (db : Db) (workflow : WorkflowId) : Control → Prop
  | .send messages => ∀ message ∈ messages, db.Above message.workflow workflow
  | .successSave _ _ _ task _ | .successRow _ _ _ task _ | .successData _ _ _ task _ _ | .closeSave _ _ _ task _ _
  | .failRow _ _ task _ | .failSave _ _ task _ _ => db.Above task.workflow workflow
  | .climb _ _ _ parent _ _ => db.Above parent workflow
  | .park _ _ | .failClose _ _ _ _ _ | .failParent _ _ _ _ | .failClimb _ _ _ _ _ | .failReload _ _ _ _ => False
  | _ => True

/-- What a step of such a worker leads to. -/
inductive Goes (db : Db) (workflow : WorkflowId) (origin : Origin) (operation : Operation) (next : Control) : Prop
  | on (busy : next.operation ≠ none) (tends : next.Tends db workflow)
  | sent (message : Message) (sends : operation = .send message) (below : db.Above message.workflow workflow)
      (tends : next.Tends db workflow)
  | closed (success : Succeeded (operation.effect db) workflow)
  | dropped (job : Job) (reads : operation = .read) (ends : next.operation = none)
      (taken : origin = .message (.processNextNode job)) (waits : db.waits job = true)

theorem Goes.busy {db : Db} {workflow : WorkflowId} {origin : Origin} {operation following : Operation} {next : Control}
    (moves : next.operation = some following) (tends : next.Tends db workflow) : Goes db workflow origin operation next :=
  .on (moves ▸ Option.some_ne_none following) tends

/-- A worker of the family, and what it relies on. -/
structure Able (events : List (Origin × Operation)) (db : Db) (workflow : WorkflowId) (message : Message)
    (control : Control) : Prop where
  consistent : Consistent db
  sane : Sane db workflow
  awake : Awake db workflow
  below : db.Above message.workflow workflow
  known : (db.workflowKey message.workflow).isSome
  linked : control.Linked db (.message message)
  graphed : control.Graphed db
  steered : message.Steered events db message.workflow
  ordered : control.Ordered (Grown db) db.tasks.length

section able
variable {definitions : Definitions} {events : List (Origin × Operation)} {db : Db} {workflow : WorkflowId}
  {message : Message} {control : Control} {operation : Operation} (able : Able events db workflow message control)
include able

/-- The task of a worker belongs to the workflow and the node of its message. -/
theorem Able.own {celery : CeleryId} {id : TaskId} {task : Task} (owns : Owns db (.message message) celery)
    (found : db.taskByCeleryId celery = .ok (id,task)) : db.Above task.workflow workflow ∧
      ∃ job, message = .processNextNode job ∧ task.workflow = job.workflow ∧ task.nodeId = some job.currentNodeId := by
  obtain ⟨stored,own⟩ := taskByCeleryId_key found
  obtain ⟨job,taken,owner,node⟩ := owner_scope able.consistent owns stored own
  cases taken
  exact ⟨owner ▸ able.below,job,rfl,owner,node⟩

/-- A row of the family is loaded with a well-formed graph. -/
theorem Able.data {child : WorkflowId} {row : Workflow} (below : db.Above child workflow)
    (stored : db.workflowKey child = some row.key) :
    row.workflowTemplate.isNone = false ∧ ∃ g, db.templateData row = .ok g ∧ g.WellFormed := by
  obtain ⟨g,graph,formed⟩ := able.sane child _ below stored
  obtain ⟨data,template⟩ := graph_templateData graph stored
  exact ⟨template,g,data,formed⟩

/-- The node of a message that is taken is there. -/
theorem Able.node {job : Job} (taken : message = .processNextNode job) :
    ∃ node, job.graph.node? job.currentNodeId = some node := by
  subst taken
  obtain ⟨graph,reached⟩ := able.steered rfl
  obtain ⟨key,stored⟩ := Option.isSome_iff_exists.mp able.known
  obtain ⟨g,found,formed⟩ := able.sane _ key able.below stored
  cases Option.some.inj (graph.symm.trans found)
  exact Option.isSome_iff_exists.mp (reached_known formed graph reached)

omit able in
theorem checking_goes {origin : Origin} {job : Job} {row : Workflow} {node : Node} {inputs : List NodeId} :
    Goes db workflow origin operation (Control.checking job row node inputs) := by
  refine Control.checking_elim (P := Goes db workflow origin operation) (fun _ _ _ => .busy rfl trivial) (fun _ => ?_)
  exact Control.admitted_elim (P := Goes db workflow origin operation) (fun _ _ => .busy rfl trivial)
    (fun _ _ => .busy rfl trivial) (fun _ => .busy rfl trivial)

omit able in
theorem calling_goes {origin : Origin} {celery : CeleryId} {id : TaskId} {task : Task} {calls : List Call}
    {outcome : Except Error Json} :
    Goes db workflow origin operation (Control.calling celery id task calls outcome) :=
  Control.calling_elim (P := Goes db workflow origin operation) (fun _ _ _ => .busy rfl trivial)
    (fun _ _ _ => .busy rfl trivial) (fun _ _ => .busy rfl trivial) (fun _ _ => .busy rfl trivial)

/-- A worker of the family goes on, sends a message, closes the workflow, or drops its message. -/
theorem tends_next (outside : Outside) (tends : control.Tends db workflow)
    (smooth : Smooth db workflow (.message message) operation) (busy : control.operation = some operation) :
    Goes db workflow (.message message) operation (control.next definitions db outside) := by
  have linked := able.linked
  have stored {id : TaskId} {key : TaskKey} (there : db.taskKey id = some key) :=
    getWorkflow_known (able.consistent.workflow id key there)
  cases control with
  | send messages => cases messages with
    | nil => cases busy
    | cons head rest =>
      cases busy
      exact .sent head rfl (tends head List.mem_cons_self) (fun sent member => tends sent (List.mem_of_mem_tail member))
  | openRead opened =>
    cases linked
    obtain ⟨row,found⟩ := getWorkflow_known able.known
    simp only [Control.next,show db.getWorkflow opened = .ok row from found]
    exact .busy rfl trivial
  | openSave => exact .busy rfl trivial
  | openData opened row =>
    cases linked.1
    obtain ⟨_,g,data,formed⟩ := able.data able.below linked.2
    simp only [Control.next,data,formed.adjacencyList]
    have some_ := formed.startNodes_ne
    refine .on ?_ (fun sent member => ?_)
    · cases starts : g.startNodes with
      | nil => exact absurd starts some_
      | cons => exact Option.some_ne_none _
    · obtain ⟨id,_,rfl⟩ := List.mem_map.mp member
      exact able.below
  | take job =>
    cases linked
    obtain ⟨row,found⟩ := getWorkflow_known able.known
    obtain ⟨node,known⟩ := able.node rfl
    have loaded : db.getWorkflow job.workflow = .ok row := found
    have open_ : row.status ≠ .wait := able.awake job.workflow row able.below (getWorkflow_ok loaded)
    simp only [Control.next,loaded,known,if_neg open_]
    exact checking_goes
  | inputRead job row node input rest =>
    cases busy
    simp only [Control.next]
    split
    · exact checking_goes
    next waits =>
      obtain ⟨front,inputs,_⟩ := able.ordered
      refine .dropped job rfl rfl linked.message (Bool.or_eq_true_iff.mpr (.inl ?_))
      exact List.any_eq_true.mpr ⟨input,by simp [inputs],by simpa using waits⟩
  | previousRead =>
    exact Control.withOutput_elim (P := Goes db workflow _ operation) (fun _ _ => .busy rfl trivial)
      (fun _ _ => .busy rfl trivial)
  | startRead | stepRead | progressRead | templateRead =>
    simp only [Control.next]
    repeat' split
    all_goals exact .busy rfl trivial
  | runCode | logSave | progressSave => exact calling_goes
  | successRead celery retval =>
    cases busy
    obtain ⟨id,task,found⟩ := owned_found able.consistent linked
    obtain ⟨below,job,rfl,owner,node⟩ := able.own linked found
    simp only [Control.next,found]
    refine Control.handling_elim (P := Goes db workflow _ _) (.busy rfl trivial) (fun nested => ?_) (fun _ _ _ => .busy rfl below)
    refine .dropped job rfl rfl rfl (Bool.or_eq_true_iff.mpr (.inr ?_))
    exact List.any_eq_true.mpr ⟨task,List.mem_of_getElem? (getRow_ok found).1,by simp [owner,node,nested]⟩
  | successSave => exact .busy rfl tends
  | successRow celery depth id task retval =>
    obtain ⟨row,found⟩ := stored linked.stored
    have loaded : db.getWorkflow task.workflow = .ok row := found
    obtain ⟨template,_⟩ := able.data tends (getWorkflow_key loaded)
    simp only [Control.next,loaded,template]
    exact .busy rfl tends
  | successData celery depth id task row retval =>
    obtain ⟨_,g,data,formed⟩ := able.data tends linked.2
    simp only [Control.next,data]
    split
    next nodeIds routed =>
      split
      · exact .busy rfl tends
      next some_ =>
        have messages := formed.processMessages_ne task.workflow routed (by simpa using some_)
        refine .on ?_ (fun sent member => ?_)
        · cases sends : processMessages g task.workflow nodeIds with
          | nil => exact absurd sends messages
          | cons => exact Option.some_ne_none _
        · obtain ⟨next,_,rfl⟩ := List.mem_map.mp member
          exact tends
    next => exact .busy rfl trivial
  | closeSave celery depth id task row retval =>
    cases busy
    by_cases own : task.workflow = workflow
    · subst own
      obtain ⟨held,there,_⟩ := Option.map_eq_some_iff.mp linked.2
      exact .closed ⟨_,List.getElem?_set_self (List.getElem?_eq_some_iff.mp there).1,rfl⟩
    · -- a nested workflow has a parent, and this is in the family
      rcases ReflTransGen.cases_head tends with same | ⟨parent,⟨key,there,up⟩,above⟩
      · exact absurd same own
      · cases Option.some.inj (there.symm.trans linked.2)
        have delegated : row.parent = some parent := up
        simp only [Control.next,delegated]
        exact .busy rfl above
  | climb celery depth child parent row retval =>
    simp only [Control.next]
    split
    next id task found =>
      obtain ⟨_,owner,_⟩ := parentTask_key found
      have above : db.Above task.workflow workflow := owner ▸ tends
      exact Control.handling_elim (P := Goes db workflow _ _) (.busy rfl trivial)
        (fun nested => TaskStatus.noConfusion nested) (fun _ _ _ => .busy rfl above)
    next => exact .busy rfl trivial
  | failRead celery error =>
    obtain ⟨id,task,found⟩ := owned_found able.consistent linked
    obtain ⟨below,_⟩ := able.own linked found
    obtain ⟨key,known⟩ := Option.isSome_iff_exists.mp able.known
    have some_ := workflowKey_lt known
    simp only [Control.next,found]
    cases length : db.workflows.length with
    | zero => exact absurd some_ (length ▸ Nat.not_lt_zero _)
    | succ rest => exact .busy rfl below
  | failRow depth id task error =>
    obtain ⟨row,found⟩ := stored linked.stored
    have loaded : db.getWorkflow task.workflow = .ok row := found
    simp only [Control.next,loaded]
    exact .busy rfl tends
  | failSave depth id task row error =>
    cases busy
    refine absurd tends (smooth.unfailed id (task.failed error) rfl ?_)
    simp only [Task.failed,Error.taskStatus]
    split <;> rfl
  | payloadRead | create | startSave | childCreate | childSave => exact .busy rfl trivial
  | childSend => exact .busy rfl trivial
  | done => cases busy
  | park | failClose | failParent | failClimb | failReload => cases tends
  | templateSave => exact absurd able.graphed id
  | launchRead =>
    obtain ⟨_,_,_,_,⟨⟩⟩ := linked
  | launchCreate =>
    obtain ⟨_,_,_,_,_,⟨⟩⟩ := linked
  | pauseRead | resumeRead | cancelRead => cases linked
  | pauseSave | resumeTasks | resumeSave | cancelTasks | cancelSave | cancelTask => cases linked.1
  | resumeData =>
    obtain ⟨⟨_,⟨⟩⟩,_⟩ := linked

end able

/-- A message of the family is queued, a thread works for the family, or the workflow is a success. -/
inductive Lives (db : Db) (workflow : WorkflowId) (threads : List (Origin × Control)) : Prop
  | queued (message : Message) (member : message ∈ db.queue) (below : db.Above message.workflow workflow)
  | works (message : Message) (control : Control) (member : (.message message,control) ∈ threads)
      (below : db.Above message.workflow workflow) (busy : control.operation ≠ none)
  | done (success : Succeeded db workflow)

theorem lives_thrives {db : Db} {workflow : WorkflowId} {threads : List (Origin × Control)}
    (thriving : thrives db workflow (threads.map (fun thread => (thread.1,thread.2.operation))) = true) :
    Lives db workflow threads := by
  simp only [thrives,Bool.or_eq_true] at thriving
  rcases thriving with (queued | works) | success
  · obtain ⟨message,member,within⟩ := List.any_eq_true.mp queued
    exact .queued message member (within_above within)
  · obtain ⟨seen,member,working⟩ := List.any_eq_true.mp works
    obtain ⟨⟨origin,control⟩,inside,rfl⟩ := List.mem_map.mp member
    cases origin with
    | request => cases working
    | message message => cases busy : control.operation with
      | none => simp [FinmarsWorkflow.working,busy] at working
      | some operation =>
        simp only [FinmarsWorkflow.working,busy] at working
        exact .works message control inside (within_above working) (by simp [busy])
  · obtain ⟨row,stored,status⟩ := (Option.any_eq_true _ _).mp success
    exact .done ⟨row,stored,by simpa using status⟩

theorem thrives_lives {db : Db} {workflow : WorkflowId} {threads : List (Origin × Control)} (consistent : Consistent db)
    (lives : Lives db workflow threads) :
    thrives db workflow (threads.map (fun thread => (thread.1,thread.2.operation))) = true := by
  simp only [thrives,Bool.or_eq_true]
  cases lives with
  | queued message member below => exact .inl (.inl (List.any_eq_true.mpr ⟨message,member,above_within consistent below⟩))
  | works message control member below busy =>
    refine .inl (.inr (List.any_eq_true.mpr ⟨_,List.mem_map.mpr ⟨_,member,rfl⟩,?_⟩))
    obtain ⟨operation,moves⟩ := Option.ne_none_iff_exists'.mp busy
    simp only [working,moves]
    exact above_within consistent below
  | done success =>
    obtain ⟨row,stored,status⟩ := success
    exact .inr ((Option.any_eq_true _ _).mpr ⟨row,stored,by simpa using status⟩)

/-- What holds of an opened workflow and its workers. -/
structure Alive {definitions : Definitions} (S : Controlled definitions) (workflow : WorkflowId) : Prop where
  striving : ∀ message control, (Origin.message message,control) ∈ S.threads → S.shared.Above message.workflow workflow →
    control.operation ≠ none → control.Tends S.shared workflow ∨ Succeeded S.shared workflow
  lives : Begun S.shared workflow → Lives S.shared workflow S.threads

/-- The invariants of a workflow that nothing upsets. -/
structure Thriving {definitions : Definitions} (events : List (Origin × Operation)) (S : Controlled definitions)
    (workflow : WorkflowId) : Prop where
  regular : Regular S
  carried : Carried S
  steering : ∀ child, Steering events S child
  awake : Awake S.shared workflow
  aloof : ∀ thread ∈ S.threads, Control.Aloof S.shared workflow thread.2
  alive : Sane S.shared workflow → Alive S workflow

section effects
variable {db : Db} {workflow : WorkflowId} {origin : Origin} {control : Control} {operation : Operation}

theorem Control.Tends.mono {later : Db} (tends : control.Tends db workflow) (grows : Grows db later) :
    control.Tends later workflow := by
  cases control with
  | send => exact fun message member => grows.above (tends message member)
  | successSave | successRow | successData | closeSave | climb | failRow | failSave => exact grows.above tends
  | park | failClose | failParent | failClimb | failReload => cases tends
  | _ => trivial

theorem Sane.earlier {later : Db} (sane : Sane later workflow) (grows : Grows db later)
    (same : later.templates = db.templates) : Sane db workflow := by
  intro child key below stored
  obtain ⟨g,graph,formed⟩ := sane child key (grows.above below) (grows.workflow child key stored)
  exact ⟨g,graph_kept stored grows same graph,formed⟩

/-- A row that an operation stores of a workflow. -/
theorem stored_effect {child : WorkflowId} {row : Workflow} (stored : (operation.effect db).workflows[child]? = some row) :
    db.workflows[child]? = some row ∨ operation = .saveWorkflow child row ∧ (db.workflowKey child).isSome = true ∨
      operation = .createWorkflow row ∧ child = db.workflows.length := by
  cases operation with
  | saveWorkflow id saved =>
    simp only [Operation.effect,List.getElem?_set] at stored
    split at stored
    next same =>
      subst id
      split at stored
      next bound =>
        cases stored
        exact .inr (.inl ⟨rfl,by simp [Db.workflowKey,List.getElem?_eq_getElem bound]⟩)
      · cases stored
    next => exact .inl stored
  | createWorkflow created =>
    simp only [Operation.effect,List.getElem?_append] at stored
    split at stored
    · exact .inl stored
    next bound =>
      obtain ⟨inside,_⟩ := List.getElem?_eq_some_iff.mp stored
      have last : child - db.workflows.length = 0 := Nat.lt_one_iff.mp inside
      cases List.mem_singleton.mp (List.mem_of_getElem? stored)
      exact .inr (.inr ⟨rfl,Nat.le_antisymm (Nat.sub_eq_zero_iff_le.mp last) (Nat.le_of_not_lt bound)⟩)
  | _ => exact .inl stored

theorem queue_kept {message : Message} (member : message ∈ db.queue) : message ∈ (operation.effect db).queue := by
  cases operation with
  | send sent => exact List.mem_append_left _ member
  | _ => exact member

/-- A success stays, as long as nothing upsets the workflow. -/
theorem succeeded_effect (linked : control.Linked db origin) (aloof : control.Aloof db workflow)
    (smooth : Smooth db workflow origin operation) (busy : control.operation = some operation)
    (success : Succeeded db workflow) : Succeeded (operation.effect db) workflow := by
  obtain ⟨row,stored,status⟩ := success
  have bound := (List.getElem?_eq_some_iff.mp stored).1
  cases operation with
  | saveWorkflow id saved =>
    by_cases same : id = workflow
    · subst id
      rcases family_save linked aloof smooth busy .refl with saves | ⟨_,opens⟩
      · exact ⟨saved,List.getElem?_set_self bound,saves⟩
      · exact absurd ⟨row,stored,by simp [status]⟩ (smooth.once opens _ _ rfl)
    · exact ⟨row,(List.getElem?_set_ne same).trans stored,status⟩
  | createWorkflow created => exact ⟨row,(List.getElem?_append_left bound).trans stored,status⟩
  | _ => exact ⟨row,stored,status⟩

end effects

section step
variable {definitions : Definitions} {events : List (Origin × Operation)} {before after : Controlled definitions}
  {label : Action} {workflow : WorkflowId}

/-- Where nobody edits templates, no step is an update of one. -/
theorem graphed_unedited (graphed : Graphed before) (child : WorkflowId) : editedBefore child before.view label := by
  intro edits
  unfold reshapes at edits
  split at edits
  · split at edits
    next index _ origin id data seen =>
      obtain ⟨⟨taken,control⟩,found,same⟩ := Option.map_eq_some_iff.mp ((List.getElem?_map ..).symm.trans seen)
      have busy : control.operation = some (.saveTemplate id data) := congrArg Prod.snd same
      have points := (graphed.threads _ (List.mem_of_getElem? found)).2
      cases control with
      | templateSave => cases points
      | send messages => cases messages <;> cases busy
      | _ => cases busy
    · cases edits
  · cases edits

theorem awake_step (thriving : Thriving events before workflow) (allowed : smooth workflow before.view label)
    (step : Step machine Origin.control before label after) : Awake after.shared workflow := by
  have sound := thriving.regular.sound
  have later := (sound_step sound step).1
  rcases step.shared_cases with equal | ⟨index,answer,origin,control,operation,rfl,found,busy,equal⟩ | ⟨_,_,_,reacts⟩
  · exact equal ▸ thriving.awake
  · have member := List.mem_of_getElem? found
    have linked := (sound.threads _ member).2
    have keyed := linked_keyed linked busy
    have smooth := smooth_advance sound allowed found busy
    have consistent : Consistent (operation.effect before.shared) := consistent_effect sound.shared linked busy
    intro child row below stored
    rw [equal] at below stored
    have known {held : Workflow} (there : before.shared.workflows[child]? = some held) :
        before.shared.Above child workflow :=
      above_known keyed consistent (by simp [Db.workflowKey,there]) below
    rcases stored_effect stored with old | ⟨rfl,there⟩ | ⟨rfl,_⟩
    · exact thriving.awake child row (known old) old
    · rcases family_save linked (thriving.aloof _ member) smooth busy (above_known keyed consistent there below) with
        status | ⟨status,_⟩
      all_goals rw [status]; exact WorkflowStatus.noConfusion
    · have status : row.status = .init := by
        have held := (thriving.steering workflow).statused _ member
        rcases createWorkflow_inv busy with ⟨_,_,_,rfl⟩ | rfl <;> exact held
      rw [status]
      exact WorkflowStatus.noConfusion
  · obtain ⟨queue,equal,_⟩ := react_queue reacts
    rw [equal]
    exact thriving.awake

theorem aloof_step (thriving : Thriving events before workflow) (allowed : smooth workflow before.view label)
    (step : Step machine Origin.control before label after) :
    ∀ thread ∈ after.threads, Control.Aloof after.shared workflow thread.2 := by
  have sound := thriving.regular.sound
  have back {child : WorkflowId} (known : (before.shared.workflowKey child).isSome)
      (below : after.shared.Above child workflow) : before.shared.Above child workflow := by
    rcases step.shared_cases with equal | ⟨_,_,_,_,_,_,found,busy,equal⟩ | ⟨_,_,_,reacts⟩
    · exact equal ▸ below
    · have linked := (sound.threads _ (List.mem_of_getElem? found)).2
      rw [equal] at below
      exact above_known (linked_keyed linked busy) (consistent_effect sound.shared linked busy) known below
    · obtain ⟨queue,equal,_⟩ := react_queue reacts
      rw [equal] at below
      exact below
  rintro ⟨origin,control⟩ member child strays below
  rcases step.thread_cases member with inside | ⟨index,answer,old,operation,rfl,found,busy,_,rfl⟩ | ⟨_,_,_,rfl⟩
  · have known := strays_known sound.shared (sound.threads _ inside).2 strays
    exact thriving.aloof _ inside child strays (back known below)
  · have there := List.mem_of_getElem? found
    obtain ⟨known,away⟩ := strays_next sound.shared (sound.threads _ there).2 thriving.awake (thriving.aloof _ there)
      (smooth_advance sound allowed found busy) busy strays
    exact away (back known below)
  · cases origin with
    | message message => cases message <;> cases strays
    | request request => cases request <;> cases strays

section advance
variable {index : Nat} {answer : Outside} {origin : Origin} {control : Control} {operation : Operation}
  (thriving : Thriving events before workflow) (sane : Sane before.shared workflow)
  (allowed : smooth workflow before.view (.advance index answer))
  (found : before.threads[index]? = some (origin,control)) (busy : control.operation = some operation)
include thriving sane allowed found busy

/-- A step of a worker of the family. -/
theorem worker_goes {message : Message} (taken : origin = .message message)
    (below : before.shared.Above message.workflow workflow) :
    Succeeded (operation.effect before.shared) workflow ∨
      Goes before.shared workflow origin operation (control.next definitions before.shared answer) := by
  have member := List.mem_of_getElem? found
  have sound := thriving.regular.sound
  obtain ⟨known,linked⟩ := sound.threads _ member
  have smooth := smooth_advance sound allowed found busy
  subst taken
  rcases (thriving.alive sane).striving message control member below (by simp [busy]) with tends | success
  · have able : Able events before.shared workflow message control :=
      ⟨sound.shared,sane,thriving.awake,below,known message rfl,linked,(thriving.regular.graphed.threads _ member).2,
        ((thriving.steering message.workflow).threads _ member).1,thriving.regular.ordered.threads _ member⟩
    exact .inr (tends_next able answer tends smooth busy)
  · exact .inl (succeeded_effect linked (thriving.aloof _ member) smooth busy success)

theorem alive_advance (flows : strands workflow before.view (.advance index answer) after.view = false)
    (reaches : after = ⟨operation.effect before.shared,
      before.threads.set index (origin,control.next definitions before.shared answer)⟩) : Alive after workflow := by
  have member := List.mem_of_getElem? found
  have sound := thriving.regular.sound
  have linked := (sound.threads _ member).2
  have keyed := linked_keyed linked busy
  have grows := keyed_grows keyed
  have smooth := smooth_advance sound allowed found busy
  have aloof := thriving.aloof _ member
  have alive := thriving.alive sane
  have goes {message : Message} (taken : origin = .message message)
      (below : before.shared.Above message.workflow workflow) := worker_goes thriving sane allowed found busy taken below
  have new : (origin,control.next definitions before.shared answer) ∈
      before.threads.set index (origin,control.next definitions before.shared answer) :=
    List.mem_of_getElem? (List.getElem?_set_self (List.getElem?_eq_some_iff.mp found).1)
  subst after
  refine ⟨fun message point inside below moves => ?_,fun begun => ?_⟩
  · have old {thread : Origin × Control} (there : thread ∈ before.threads) (same : thread.1 = .message message) :
        before.shared.Above message.workflow workflow :=
      above_known keyed (consistent_effect sound.shared linked busy) ((sound.threads _ there).1 message same) below
    rcases List.mem_or_eq_of_mem_set inside with others | same
    · exact (alive.striving message point others (old others rfl) moves).imp (fun tends => tends.mono grows)
        (succeeded_effect linked aloof smooth busy)
    · cases same
      rcases goes rfl (old member rfl) with success | goes
      · exact .inr success
      · cases goes with
        | on _ tends => exact .inl (tends.mono grows)
        | sent _ _ _ tends => exact .inl (tends.mono grows)
        | closed success => exact .inr success
        | dropped _ _ ends => exact absurd ends moves
  by_cases worker : ∃ message, origin = .message message ∧ before.shared.Above message.workflow workflow
  · obtain ⟨message,rfl,below⟩ := worker
    rcases goes rfl below with success | goes
    · exact .done success
    · cases goes with
      | on moves _ => exact .works message _ new (grows.above below) moves
      | sent message sends below _ =>
        subst sends
        exact .queued message (List.mem_append_right _ (List.mem_singleton_self _)) (grows.above below)
      | closed success => exact .done success
      | dropped job reads ends taken waits =>
        subst reads
        cases taken
        have state : before.view.shared = before.shared := rfl
        have within : before.shared.within workflow job.workflow = true := above_within sound.shared below
        rw [strands,ended_advance (List.getElem?_eq_some_iff.mp found).1,ends] at flows
        simp only [endangered,seen_thread found busy,state,within,waits,seen_others,Option.isNone_none,Bool.true_and,
          Bool.and_true,Bool.not_eq_false'] at flows
        cases lives_thrives flows with
        | queued message queued above => exact .queued message queued above
        | works other point inside above moves => exact .works other point (mem_set_of_eraseIdx inside) above moves
        | done success => exact .done success
  · obtain ⟨row,stored,started⟩ := begun
    rcases stored_effect stored with old | ⟨rfl,_⟩ | ⟨rfl,_⟩
    · cases alive.lives ⟨row,old,started⟩ with
      | queued message queued below => exact .queued message (queue_kept queued) (grows.above below)
      | works message point inside below moves =>
        refine .works message point (mem_set_of_eraseIdx (mem_eraseIdx_of_ne found inside ?_)) (grows.above below) moves
        rintro same
        exact worker ⟨message,(congrArg Prod.fst same).symm,below⟩
      | done success => exact .done (succeeded_effect linked aloof smooth busy success)
    · rcases family_save linked aloof smooth busy .refl with status | ⟨_,opens⟩
      · exact .done ⟨row,stored,status⟩
      · exact absurd ⟨_,opens,.refl⟩ worker
    · refine absurd ?_ started
      have held := (thriving.steering workflow).statused _ member
      rcases createWorkflow_inv busy with ⟨_,_,_,rfl⟩ | rfl <;> exact held

end advance

theorem thriving_step (thriving : Thriving events before workflow)
    (allowed : flowing workflow before.view label after.view) (step : Step machine Origin.control before label after) :
    Thriving (events ++ before.event label) after workflow := by
  obtain ⟨smooth,flows⟩ := allowed
  have sound := thriving.regular.sound
  obtain ⟨later,grows⟩ := sound_step sound step
  refine ⟨regular_step thriving.regular smooth.1 step,carried_step thriving.carried step,
    fun child => steering_step (thriving.steering child) (graphed_unedited thriving.regular.graphed child) step,
    awake_step thriving smooth step,aloof_step thriving smooth step,fun final => ?_⟩
  have sane := final.earlier grows (templates_step thriving.regular step)
  have alive := thriving.alive sane
  cases step with
  | advance index answer origin control operation found busy =>
    exact alive_advance thriving sane smooth found busy flows rfl
  | close index origin control found idle =>
    refine ⟨fun message point inside => alive.striving message point (List.mem_of_mem_eraseIdx inside),fun begun => ?_⟩
    cases alive.lives begun with
    | queued message queued below => exact .queued message queued below
    | works message point inside below moves =>
      refine .works message point (mem_eraseIdx_of_ne found inside ?_) below moves
      rintro ⟨⟩
      exact moves idle
    | done success => exact .done success
  | keep environment changed reacts =>
    rcases react_inv reacts with ⟨_,_,_,_,_,⟨⟩⟩ | ⟨_,_,_,⟨⟩⟩ | ⟨index,message,_,_,rfl,_⟩ | ⟨_,_,_,_,_,⟨⟩⟩ | ⟨_,_,_,_,_,⟨⟩⟩
    refine ⟨alive.striving,fun begun => ?_⟩
    cases alive.lives begun with
    | queued message queued below => exact .queued message (List.mem_append_left _ queued) below
    | works message point inside below moves => exact .works message point inside below moves
    | done success => exact .done success
  | spawn environment changed origin reacts =>
    have old {message : Message} {point : Control} (inside : (.message message,point) ∈ before.threads) :
        (Origin.message message,point) ∈ before.threads ++ [(origin,origin.control)] := List.mem_append_left _ inside
    rcases react_inv reacts with ⟨index,taken,_,found,rfl,⟨⟩⟩ | ⟨request,_,rfl,⟨⟩⟩ | ⟨_,_,_,_,_,⟨⟩⟩ | ⟨_,_,_,_,_,⟨⟩⟩ |
      ⟨_,_,_,_,_,⟨⟩⟩
    · have moves : (Origin.message taken).control.operation ≠ none := by cases taken <;> exact Option.some_ne_none _
      refine ⟨fun message point inside below busy => ?_,fun begun => ?_⟩
      · rcases List.mem_append.mp inside with others | new
        · exact alive.striving message point others below busy
        · cases List.mem_singleton.mp new
          cases taken <;> exact .inl trivial
      · cases alive.lives begun with
        | queued message queued below =>
          by_cases same : message = taken
          · subst same
            exact .works message _ (List.mem_append_right _ (List.mem_singleton_self _)) below moves
          · exact .queued message (mem_eraseIdx_of_ne found queued same) below
        | works message point inside below busy => exact .works message point (old inside) below busy
        | done success => exact .done success
    · refine ⟨fun message point inside below busy => ?_,fun begun => ?_⟩
      · rcases List.mem_append.mp inside with others | new
        · exact alive.striving message point others below busy
        · cases List.mem_singleton.mp new
      · cases alive.lives begun with
        | queued message queued below => exact .queued message queued below
        | works message point inside below busy => exact .works message point (old inside) below busy
        | done success => exact .done success
  | drop environment changed index reacts =>
    rcases react_inv reacts with ⟨_,_,_,_,_,⟨⟩⟩ | ⟨_,_,_,⟨⟩⟩ | ⟨_,_,_,_,_,⟨⟩⟩ | ⟨_,taken,_,lost,rfl,⟨⟩⟩ | ⟨_,request,_,lost,rfl,⟨⟩⟩
    all_goals
      obtain ⟨removed,found,same⟩ := Option.map_eq_some_iff.mp ((List.getElem?_map ..).symm.trans lost)
      refine ⟨fun message point inside => alive.striving message point (List.mem_of_mem_eraseIdx inside),fun begun => ?_⟩
    · cases alive.lives begun with
      | queued message queued below => exact .queued message (List.mem_append_left _ queued) below
      | works message point inside below moves =>
        by_cases other : (Origin.message message,point) = removed
        · subst removed
          cases same
          exact .queued taken (List.mem_append_right _ (List.mem_singleton_self _)) below
        · exact .works message point (mem_eraseIdx_of_ne found inside other) below moves
      | done success => exact .done success
    · cases alive.lives begun with
      | queued message queued below => exact .queued message queued below
      | works message point inside below moves =>
        refine .works message point (mem_eraseIdx_of_ne found inside ?_) below moves
        rintro rfl
        cases same
      | done success => exact .done success

/-- Nothing has been opened yet. -/
theorem unused_thriving (definitions : Definitions) (templates : List WorkflowTemplate) (workflow : WorkflowId) :
    Thriving [] (unused definitions templates) workflow := by
  have empty (child : WorkflowId) (row : Workflow) : (unused definitions templates).shared.workflows[child]? ≠ some row := by
    simp [unused,installed]
  refine ⟨unused_regular templates,unused_carried definitions templates,fun child => unused_steering definitions templates child,
    fun child row _ stored => absurd stored (empty child row),fun _ member => absurd member List.not_mem_nil,fun _ => ?_⟩
  refine ⟨fun _ _ member => absurd member List.not_mem_nil,?_⟩
  rintro ⟨row,stored,_⟩
  exact absurd stored (empty workflow row)

end step

end FinmarsWorkflow
