import FinmarsWorkflow.Following
import FinmarsWorkflow.Graphs

/-! A task is created after a successful task of each input of its node.
The readiness check looks at one input after the other, so what it has found is a
fact about the past of the run: each input had a successful task at some earlier
state, before the new row was added. -/
namespace FinmarsWorkflow
open Interleave

/-- A task of a node has succeeded while the table had at most so many rows. -/
def SucceededBy (workflow : WorkflowId) (node : NodeId) (id : TaskId) (bound : Nat) (db : Db) : Prop :=
  db.tasks.length ≤ bound ∧ ∃ task, db.tasks[id]? = some task ∧ task.workflow = workflow ∧
    task.nodeId = some node ∧ task.status = .success

theorem inputReady_success {db : Db} {workflow : WorkflowId} {input : NodeId}
    (ready : db.inputReady workflow input = true) :
    ∃ id, id < db.tasks.length ∧ SucceededBy workflow input id db.tasks.length db := by
  simp only [Db.inputReady] at ready
  split at ready
  next id task found =>
    obtain ⟨stored,fits,_⟩ := getRow_ok found
    simp only [Bool.and_eq_true,beq_iff_eq] at fits ready
    exact ⟨id,(List.getElem?_eq_some_iff.mp stored).1,Nat.le_refl _,task,stored,fits.1,fits.2,ready⟩
  next => cases ready

/-- Nodes that have had a successful task before the table reached a length. -/
def Met (past : (Db → Prop) → Prop) (length : Nat) (workflow : WorkflowId) (inputs : List NodeId) : Prop :=
  ∀ input ∈ inputs, ∃ id, id < length ∧ past (SucceededBy workflow input id length)

/-- What the readiness check has established at a control point. -/
def Control.Ordered (past : (Db → Prop) → Prop) (length : Nat) : Control → Prop
  | .inputRead job _ _ input rest => ∃ front, job.graph.inputNodes job.currentNodeId = front ++ input::rest ∧
      Met past length job.workflow front
  | .previousRead job _ _ _ | .payloadRead job _ _ _ _ | .create job _ _ _ _ =>
    Met past length job.workflow (job.graph.inputNodes job.currentNodeId)
  | _ => True

/-- Every stored task had its inputs met before it was added. -/
def Db.Ordered (past : (Db → Prop) → Prop) (db : Db) : Prop :=
  ∀ id key g node, db.taskKey id = some key → db.graph key.workflow = some g → key.nodeId = some node →
    Met past id key.workflow (g.inputNodes node)

structure Ordered {definitions : Definitions} (past : (Db → Prop) → Prop) (S : Controlled definitions) : Prop where
  rows : S.shared.Ordered past
  threads : ∀ thread ∈ S.threads, (thread.2 : Control).Ordered past S.shared.tasks.length

theorem checking_ordered {past : (Db → Prop) → Prop} {job : Job} {row : Workflow} {node : Node} {front rest : List NodeId} {length : Nat}
    (same : job.graph.inputNodes job.currentNodeId = front ++ rest) (met : Met past length job.workflow front) :
    (Control.checking job row node rest).Ordered past length := by
  refine Control.checking_elim ?_ ?_
  · rintro next tail rfl
    exact ⟨front,same,met⟩
  · rintro rfl
    have all : Met past length job.workflow (job.graph.inputNodes job.currentNodeId) := by
      simpa [same] using met
    exact Control.admitted_elim (fun _ _ => all) (fun _ _ => all) (fun _ => all)

theorem ordered_of_stage {past : (Db → Prop) → Prop} {length : Nat} {control : Control}
    (unchecked : control.stage ≠ .checking) (outside : control.stage ≠ .admitted) : control.Ordered past length := by
  cases control with
  | inputRead => exact absurd rfl unchecked
  | previousRead | payloadRead | create => exact absurd rfl outside
  | _ => trivial

/-- A later past knows what an earlier one knows, and the state in between. -/
structure Remembers (past later : (Db → Prop) → Prop) (db : Db) : Prop where
  keeps : ∀ state, past state → later state
  weakens : ∀ state weaker : Db → Prop, (∀ db, state db → weaker db) → later state → later weaker
  now : ∀ state : Db → Prop, state db → later state

section steps
variable {definitions : Definitions} {db : Db} {origin : Origin} {past later : (Db → Prop) → Prop}
  (remembers : Remembers past later db)
include remembers

theorem Met.mono {length longer : Nat} {workflow : WorkflowId} {inputs : List NodeId}
    (met : Met past length workflow inputs) (le : length ≤ longer) : Met later longer workflow inputs := by
  intro input member
  obtain ⟨id,bound,success⟩ := met input member
  refine ⟨id,Nat.lt_of_lt_of_le bound le,remembers.weakens _ _ ?_ (remembers.keeps _ success)⟩
  exact fun db state => ⟨Nat.le_trans state.1 le,state.2⟩

theorem Control.Ordered.mono {control : Control} {length longer : Nat} (ordered : control.Ordered past length)
    (le : length ≤ longer) : control.Ordered later longer := by
  cases control with
  | inputRead =>
    obtain ⟨front,same,met⟩ := ordered
    exact ⟨front,same,met.mono remembers le⟩
  | previousRead | payloadRead | create => exact Met.mono remembers ordered le
  | _ => trivial

/-- The input just found ready joins those found before. -/
theorem Met.read {workflow : WorkflowId} {front : List NodeId} {input : NodeId}
    (met : Met past db.tasks.length workflow front) (ready : db.inputReady workflow input = true) :
    Met later db.tasks.length workflow (front ++ [input]) := by
  intro other member
  rcases List.mem_append.mp member with inside | inside
  · exact met.mono remembers (Nat.le_refl _) other inside
  · cases List.mem_singleton.mp inside
    obtain ⟨id,bound,success⟩ := inputReady_success ready
    exact ⟨id,bound,remembers.now _ success⟩

theorem ordered_next {control : Control} {outside : Outside}
    (ordered : control.Ordered past db.tasks.length) :
    (control.next definitions db outside).Ordered later db.tasks.length := by
  cases control with
  | take job =>
    simp only [Control.next]
    split
    · split
      · split
        · trivial
        · have none : Met later db.tasks.length job.workflow [] := fun _ member => absurd member List.not_mem_nil
          exact checking_ordered (List.nil_append _).symm none
      · trivial
    · trivial
  | inputRead job row node input rest =>
    simp only [Control.next]
    split
    next ready =>
      obtain ⟨front,same,met⟩ := ordered
      exact checking_ordered (by rw [same,List.append_assoc]; rfl) (met.read remembers ready)
    · trivial
  | previousRead =>
    have met := Met.mono remembers ordered (Nat.le_refl _)
    exact Control.withOutput_elim (fun _ _ => met) (fun _ _ => met)
  | payloadRead => exact Met.mono remembers ordered (Nat.le_refl _)
  | create => trivial
  | _ => exact ordered_of_stage (Control.stage_avoids rfl) (Control.stage_avoids rfl)

end steps

section run
variable {definitions : Definitions} {past later : (Db → Prop) → Prop} {before after : Controlled definitions}

/-- Rows that were there before keep their past. -/
private theorem rows_ordered {db changed : Db} (remembers : Remembers past later db) (ordered : db.Ordered past)
    (consistent : Consistent db) (grows : Grows db changed) (same : changed.templates = db.templates)
    {id : TaskId} {key : TaskKey} {g : Graph} {node : NodeId} (stored : db.taskKey id = some key)
    (graph : changed.graph key.workflow = some g) (names : key.nodeId = some node) :
    Met later id key.workflow (g.inputNodes node) := by
  obtain ⟨owner,there⟩ := Option.isSome_iff_exists.mp (consistent.workflow id key stored)
  have earlier := graph_kept there grows same graph
  exact (ordered id key g node stored earlier names).mono remembers (Nat.le_refl _)

theorem ordered_step {label : Action} (sound : Sound before) (graphed : Graphed before)
    (remembers : Remembers past later before.shared) (ordered : Ordered past before)
    (step : Step machine Origin.control before label after) : Ordered later after := by
  have longer : before.shared.tasks.length ≤ after.shared.tasks.length := by
    rcases step.shared_cases with equal | ⟨_,_,_,_,operation,_,_,_,equal⟩ | ⟨_,_,_,reacts⟩
    · rw [equal]
    · rw [equal]
      exact tasks_length_effect _ _
    · obtain ⟨queue,equal,_⟩ := react_queue reacts
      rw [equal]
  refine ⟨fun id key g node stored graph names => ?_,fun (origin,control) member => ?_⟩
  · rcases step.shared_cases with equal | ⟨index,answer,origin,control,operation,_,found,busy,equal⟩ |
      ⟨environment,turn,_,reacts⟩
    · rw [equal] at stored graph
      exact rows_ordered remembers ordered.rows sound.shared (Grows.refl _) rfl stored graph names
    · have member := List.mem_of_getElem? found
      have linked := (sound.threads _ member).2
      have keyed := linked_keyed linked busy
      have grown := keyed_grows keyed
      have same := templates_effect (graphed.threads _ member).2 busy
      rw [equal] at stored graph
      by_cases creates : ∃ row, operation = .createTask row
      · obtain ⟨row,rfl⟩ := creates
        change (Operation.effect _ _).taskKey id = _ at stored
        rw [createTask_taskKey] at stored
        split at stored
        next new =>
          -- the row just created: its worker has found every input ready
          obtain ⟨job,workflow,known,payload,output,rfl,rfl⟩ := createTask_inv busy
          cases Option.some.inj stored
          subst id
          have carried := (graphed.threads _ member).1 _ linked.message job rfl
          have current := graph_kept linked.stored grown same graph
          cases Option.some.inj (carried.symm.trans current)
          cases Option.some.inj names
          have met : Met past before.shared.tasks.length job.workflow (job.graph.inputNodes job.currentNodeId) :=
            ordered.threads _ member
          rw [node?_id linked.known]
          exact met.mono remembers (Nat.le_refl _)
        next => exact rows_ordered remembers ordered.rows sound.shared grown same stored graph names
      · have kept := taskKey_effect keyed (fun row made => creates ⟨row,made⟩) id
        exact rows_ordered remembers ordered.rows sound.shared grown same (kept.symm.trans stored) graph names
    · obtain ⟨queue,equal,_⟩ := react_queue reacts
      rw [equal] at stored graph
      exact rows_ordered remembers ordered.rows sound.shared (Grows.refl _) rfl stored graph names
  · rcases step.thread_cases member with inside | ⟨index,answer,old,operation,_,found,busy,equal,rfl⟩ |
      ⟨environment,_,reacts,rfl⟩
    · exact (ordered.threads _ inside).mono remembers longer
    · have point : (old.next definitions before.shared answer).Ordered later before.shared.tasks.length :=
        ordered_next remembers (ordered.threads _ (List.mem_of_getElem? found))
      exact point.mono ⟨fun _ state => state,remembers.weakens,remembers.now⟩ longer
    · cases origin with
      | message message => cases message <;> trivial
      | request request => cases request <;> trivial

end run

/-- The states that a database has grown from. -/
def Grown (db : Db) (state : Db → Prop) : Prop := ∃ earlier, state earlier ∧ Grows earlier db

theorem Grows.remembers {db later : Db} (grows : Grows db later) : Remembers (Grown db) (Grown later) db :=
  ⟨fun _ ⟨earlier,holds,grown⟩ => ⟨earlier,holds,grown.trans grows⟩,
    fun _ _ implies ⟨earlier,holds,grown⟩ => ⟨earlier,implies _ holds,grown⟩,
    fun _ holds => ⟨db,holds,grows⟩⟩

theorem Met.task {db : Db} {length : Nat} {workflow : WorkflowId} {inputs : List NodeId} {input : NodeId}
    (met : Met (Grown db) length workflow inputs) (member : input ∈ inputs) :
    ∃ id key, db.taskKey id = some key ∧ key.workflow = workflow ∧ key.nodeId = some input := by
  obtain ⟨id,_,earlier,⟨_,task,stored,owner,node,_⟩,grown⟩ := met input member
  exact ⟨id,task.key,grown.task _ _ (taskKey_of_stored stored),owner,node⟩

/-- What the execution with these operations has passed on its way to its last state. -/
abbrev Past (definitions : Definitions) (templates : List WorkflowTemplate) (events : List (Origin × Operation))
    (last : Installation) (state : Db → Prop) : Prop :=
  Passed machine (Origin.program definitions) fixedTemplates (installed templates) events last state

theorem execution_ordered {definitions : Definitions} {templates : List WorkflowTemplate}
    {events : List (Origin × Operation)} {last : Installation}
    (run : Execution definitions fixedTemplates (installed templates) events last) :
    ∃ reached : Controlled definitions, Alike last reached ∧ Ordered (Past definitions templates events last) reached := by
  have initial : Ordered (Past definitions templates [] (installed templates)) (unused definitions templates) := by
    refine ⟨fun id key g node found => ?_,fun thread member => absurd member List.not_mem_nil⟩
    simp [unused,installed,Db.taskKey] at found
  obtain ⟨reached,alike,joint⟩ := run.joint origin_simulated (installed_alike templates)
    (fun events S C => Sound C ∧ Graphed C ∧ Ordered (Past definitions templates events S) C ∧
      Execution definitions fixedTemplates (installed templates) events S)
    ⟨unused_sound templates,unused_graphed templates,initial,.start⟩
    (by
      rintro events before label after near later alike ⟨sound,graphed,ordered,head⟩ allowed step follows
      have remembers : Remembers (Past definitions templates events before)
          (Past definitions templates (events ++ before.event label) after) near.shared :=
        ⟨fun _ passed => passed.step allowed step,fun _ _ implies passed => passed.mono implies,
          fun state holds => (Passed.now head (alike.shared ▸ holds)).step allowed step⟩
      exact ⟨(sound_step sound follows).1,graphed_step sound graphed (alike.view ▸ allowed) follows,
        ordered_step sound graphed remembers ordered follows,.next label head allowed step⟩)
  exact ⟨reached,alike,joint.2.2.1⟩

/-- In every reachable state, whatever was delivered twice, failed, paused, resumed
or cancelled on the way, a task of a node comes after one of each input: the input
has an earlier row, and the run that led there passed a state in which that row was
a success and the task was not added yet. -/
theorem task_follows_inputs (definitions : Definitions) (templates : List WorkflowTemplate)
    (events : List (Origin × Operation)) (last : Installation)
    (run : Execution definitions fixedTemplates (installed templates) events last)
    (id : TaskId) (task : Task) (stored : last.shared.tasks[id]? = some task)
    (g : Graph) (graph : last.shared.graph task.workflow = some g)
    (connection : Connection) (member : connection ∈ g.connections) (target : task.nodeId = some connection.target) :
    ∃ earlier, earlier < id ∧
      (∃ input, last.shared.tasks[earlier]? = some input ∧ input.workflow = task.workflow ∧
        input.nodeId = some connection.source) ∧
      Past definitions templates events last (SucceededBy task.workflow connection.source earlier id) := by
  obtain ⟨reached,alike,ordered⟩ := execution_ordered run
  have source : connection.source ∈ g.inputNodes connection.target := by
    simp only [Graph.inputNodes,List.mem_map,List.mem_filter]
    exact ⟨connection,⟨member,by simp⟩,rfl⟩
  rw [alike.shared] at stored graph
  obtain ⟨earlier,before,passed⟩ :=
    ordered.rows id task.key g connection.target (taskKey_of_stored stored) graph target connection.source source
  refine ⟨earlier,before,?_,passed⟩
  -- the row of the input keeps its key from the state that was passed
  obtain ⟨front,back,middle,_,head,⟨_,input,there,workflow,node,_⟩,tail⟩ := passed
  have kept := (execution_grows head tail).task earlier input.key (taskKey_of_stored there)
  obtain ⟨row,found,same⟩ := Option.map_eq_some_iff.mp kept
  have equal := congrArg (fun key => (key.workflow,key.nodeId)) same
  simp only [Task.key,Prod.mk.injEq] at equal
  exact ⟨row,found,equal.1.trans workflow,equal.2.trans node⟩

theorem task_follows_inputs_chain : ∃ events last task earlier,
    Execution versionOne fixedTemplates (installed [⟨"t",0,twoNodes⟩]) events last ∧
    last.shared.tasks[1]? = some task ∧ task.nodeId = some "b" ∧ earlier < 1 ∧
    Past versionOne [⟨"t",0,twoNodes⟩] events last (SucceededBy task.workflow "a" earlier 1) := by
  obtain ⟨events,last,run,found⟩ := schedule_execution versionOne fixedTemplates [⟨"t",0,twoNodes⟩]
    (opened ++ processed 0 .null ++ processed 0 .null)
    (fun S => (S.shared.tasks[1]?).any (fun (task : Task) =>
      decide (task.nodeId = some "b" ∧ S.shared.graph task.workflow = some twoNodes))) (by decide)
  obtain ⟨task,stored,holds⟩ := (Option.any_eq_true _ _).mp found
  obtain ⟨node,graph⟩ := of_decide_eq_true holds
  obtain ⟨earlier,before,_,passed⟩ := task_follows_inputs versionOne [⟨"t",0,twoNodes⟩] events last run 1 task stored
    twoNodes graph (codeConnection "a" "b") (by decide) node
  exact ⟨events,last,task,earlier,run,stored,node,before,passed⟩

end FinmarsWorkflow
