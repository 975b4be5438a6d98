import FinmarsWorkflow.Graphs
import FinmarsWorkflow.Interleave.Ensures

/-! Processing a message again.
With late acknowledgement the broker may hand out a message that was processed
already. The messages of the engine carry no mark of that, so a second processing
has no effect only where the first would have had none. -/
namespace FinmarsWorkflow
open Interleave

/-- A row of a table with a `modified_at`. -/
inductive RowId where
  | workflow (id : WorkflowId)
  | task (id : TaskId)
deriving DecidableEq

/-- A schema at a time, with the times in `modified_at` of its rows. -/
structure Clocked where
  db : Db
  now : Nat
  modifiedAt : RowId → Nat
  past : ∀ row, modifiedAt row ≤ now

/-- The row that an operation saves in a state. -/
def Operation.saved (db : Db) : Operation → Option RowId
  | .saveWorkflow id _ => some (.workflow id)
  | .saveTask id _ => some (.task id)
  | .createWorkflow _ => some (.workflow db.workflows.length)
  | .createTask _ => some (.task db.tasks.length)
  | .read | .userCode _ _ | .saveTemplate _ _ | .send _ => none

/-- Time goes on with every operation, and a save stamps its row (`auto_now`). -/
def Operation.clocked (operation : Operation) (before : Clocked) : Clocked where
  db := operation.effect before.db
  now := before.now+1
  modifiedAt row := if operation.saved before.db = some row then before.now+1 else before.modifiedAt row
  past row := by
    split
    · exact Nat.le_refl _
    · exact Nat.le_succ_of_le (before.past row)

/-- A program on a schema with its times. -/
def clockedRun {α : Type} (program : Prog α) (answer : Outside) (before : Clocked) : Clocked :=
  ((program.within Clocked.db id).run Operation.clocked answer before).2

/-- Processing a message on its own, from a state to the state it leaves. -/
def processing (definitions : Definitions) (answer : Outside) (message : Message) (before : Clocked) : Clocked :=
  clockedRun ((Origin.message message).program definitions) answer before

/-- No row has changed, `modified_at` included, and nothing was queued. -/
def Unchanged (before later : Clocked) : Prop :=
  later.db.workflows = before.db.workflows ∧ later.db.tasks = before.db.tasks ∧ later.db.queue = before.db.queue ∧
    later.modifiedAt = before.modifiedAt

/-- The messages whose processing does nothing in a state: a message of a workflow or
a node that is not there, and one of a node whose inputs are not ready, unless the
workflow is paused: then the node is parked. -/
def Harmless (db : Db) : Message → Prop
  | .executeWorkflowV2 workflow => db.workflows[workflow]? = none
  | .processNextNode job => ∀ row, db.workflows[job.workflow]? = some row →
      (job.graph.node? job.currentNodeId).isSome → row.status ≠ .wait ∧
        ∃ input ∈ job.graph.inputNodes job.currentNodeId, db.inputReady job.workflow input = false

section clocks
variable {before later : Clocked} {operation : Operation}

/-- An operation that saves no row and queues nothing. -/
def Operation.Spares : Operation → Prop
  | .read | .userCode _ _ | .saveTemplate _ _ => True
  | _ => False

theorem spares_unchanged (spares : operation.Spares) (later : Clocked) :
    Unchanged (operation.clocked before) later ↔ Unchanged before later := by
  cases operation with
  | read | userCode | saveTemplate => exact Iff.rfl
  | _ => cases spares

/-- What only grows: the times of the rows, and the queue. -/
structure Later (before later : Clocked) : Prop where
  rows : ∀ row, before.modifiedAt row ≤ later.modifiedAt row
  queue : before.db.queue.length ≤ later.db.queue.length

theorem clocked_later (operation : Operation) (before : Clocked) : Later before (operation.clocked before) := by
  refine ⟨fun row => ?_,?_⟩
  · change _ ≤ if operation.saved before.db = some row then before.now+1 else before.modifiedAt row
    split
    · exact Nat.le_succ_of_le (before.past row)
    · exact Nat.le_refl _
  · cases operation <;> simp [Operation.clocked,Operation.effect]

theorem clockedRun_later {α : Type} (program : Prog α) (answer : Outside) (before : Clocked) :
    Later before (clockedRun program answer before) :=
  Program.run_relates _ _ Later (fun _ => ⟨fun _ => Nat.le_refl _,Nat.le_refl _⟩)
    (fun _ _ _ first second => ⟨fun row => Nat.le_trans (first.rows row) (second.rows row),Nat.le_trans first.queue second.queue⟩)
    clocked_later _ before

/-- A row that is saved, or a message that is queued, shows for good. -/
theorem changed_later (writes : ¬operation.Spares) (after : Later (operation.clocked before) later) :
    ¬Unchanged before later := by
  rintro ⟨_,_,queue,times⟩
  have stamped (row : RowId) (saves : operation.saved before.db = some row) : False := by
    have stamp : (operation.clocked before).modifiedAt row = before.now+1 := if_pos saves
    have after := after.rows row
    rw [stamp,times] at after
    exact Nat.lt_irrefl _ (Nat.lt_of_lt_of_le after (before.past row))
  cases operation with
  | read | userCode | saveTemplate => exact writes trivial
  | saveWorkflow | saveTask | createWorkflow | createTask => exact stamped _ rfl
  | send message =>
    have longer := after.queue
    rw [queue] at longer
    simp only [Operation.clocked,Operation.effect,List.length_append,List.length_singleton] at longer
    exact absurd longer (Nat.not_succ_le_self _)

/-- A program leaves everything as it is exactly where it saves no row and queues nothing. -/
theorem clockedRun_unchanged {α : Type} (program : Prog α) (answer : Outside) (before : Clocked) :
    Unchanged before (clockedRun program answer before) ↔
      program.RunsOn Operation.effect answer Operation.Spares before.db := by
  induction program generalizing before with
  | pure | raise => exact ⟨fun _ => trivial,fun _ => ⟨rfl,rfl,rfl,rfl⟩⟩
  | step operation next ih =>
    change Unchanged before (clockedRun (next before.db answer) answer (operation.clocked before)) ↔ _ ∧ _
    by_cases spares : operation.Spares
    · rw [← spares_unchanged spares,ih]
      exact (and_iff_right spares).symm
    · have changed := changed_later spares (clockedRun_later (next before.db answer) answer (operation.clocked before))
      exact iff_of_false changed (fun runs => spares runs.1)

end clocks

theorem areInputsReady_run (workflow : WorkflowId) (inputs : List NodeId) (answer : Outside) (db : Db) :
    (areInputsReady workflow inputs).run Operation.effect answer db =
      (.ok (inputs.all (db.inputReady workflow)),db) := by
  induction inputs with
  | nil => rfl
  | cons input rest ih =>
    cases ready : db.inputReady workflow input with
    | false => simp [areInputsReady,query,ready,Operation.effect]
    | true => simpa [areInputsReady,query,ready,Operation.effect] using ih

theorem areInputsReady_spares (answer : Outside) (workflow : WorkflowId) (inputs : List NodeId) (db : Db) :
    (areInputsReady workflow inputs).RunsOn Operation.effect answer Operation.Spares db := by
  induction inputs with
  | nil => trivial
  | cons input rest ih =>
    refine ⟨trivial,?_⟩
    cases ready : db.inputReady workflow input with
    | false => simp [ready]
    | true => simpa [ready,Operation.effect] using ih

section messages
variable (definitions : Definitions) (answer : Outside) {db : Db}

/-- The opening of a workflow saves its row. -/
theorem opening_spares {workflow : WorkflowId} :
    (executeWorkflowV2 workflow).RunsOn Operation.effect answer Operation.Spares db ↔
      Harmless db (.executeWorkflowV2 workflow) := by
  simp only [executeWorkflowV2,Program.runsOn_attempt,fetch,Program.monad_bind,Program.bind_step,Program.runsOn_step,
    Operation.effect,Db.getWorkflow]
  cases found : db.workflows[workflow]? with
  | none => exact ⟨fun _ => found,fun _ => ⟨trivial,trivial⟩⟩
  | some row => exact iff_of_false (fun runs => runs.2.1) (fun missing => by cases found.symm.trans missing)

/-- An admitted node gets a new row. -/
theorem admitted_creates (job : Job) (row : Workflow) (node : Node) :
    ¬(do
      let output ← previousOutput job node
      let payload ← nodePayload job row node
      let celery ← createTask (newTask job.workflow row node payload)
      applyStep definitions celery ⟨payload,output⟩ : Prog Unit).RunsOn Operation.effect answer Operation.Spares db := by
  have paid (output : Option Json) : ¬((nodePayload job row node).bind fun payload =>
      (createTask (newTask job.workflow row node payload)).bind
        (fun celery => applyStep definitions celery ⟨payload,output⟩)).RunsOn Operation.effect answer Operation.Spares db := by
    unfold nodePayload
    split
    · exact fun runs => runs.1
    · exact fun runs => runs.2.1
  simp only [Program.monad_bind]
  unfold previousOutput
  split
  · exact paid none
  · exact fun runs => paid _ runs.2

theorem harmless_stored {job : Job} {row : Workflow} {node : Node} (found : db.workflows[job.workflow]? = some row)
    (known : job.graph.node? job.currentNodeId = some node) : Harmless db (.processNextNode job) ↔ row.status ≠ .wait ∧
      ∃ input ∈ job.graph.inputNodes job.currentNodeId, db.inputReady job.workflow input = false := by
  constructor
  · exact fun harmless => harmless row found (by simp [known])
  · intro holds other stored _
    cases Option.some.inj (found.symm.trans stored)
    exact holds

/-- A node is parked in a paused workflow, and gets a task where its inputs are ready. -/
theorem node_spares {job : Job} : (processNextNode definitions job).RunsOn Operation.effect answer Operation.Spares db ↔
    Harmless db (.processNextNode job) := by
  simp only [processNextNode,Program.runsOn_attempt,fetch,Program.monad_bind,Program.bind_step,Program.runsOn_step,
    Operation.effect,Db.getWorkflow]
  cases found : db.workflows[job.workflow]? with
  | none => exact ⟨fun _ row stored => by simp [found] at stored,fun _ => ⟨trivial,trivial⟩⟩
  | some row =>
    simp only [Program.lift_ok,Program.bind_pure]
    cases known : job.graph.node? job.currentNodeId with
    | none => exact ⟨fun _ _ _ there => by simp [known] at there,fun _ => ⟨trivial,trivial⟩⟩
    | some node =>
      refine Iff.trans (and_iff_right trivial) (Iff.trans ?_ (harmless_stored found known).symm)
      dsimp only
      split
      next waits => exact iff_of_false (fun runs => runs.1) (fun harmless => harmless.1 waits)
      next differs =>
        rw [Program.runsOn_bind,areInputsReady_run]
        cases ready : (job.graph.inputNodes job.currentNodeId).all (db.inputReady job.workflow) with
        | false =>
          have missing : ∃ input ∈ job.graph.inputNodes job.currentNodeId, db.inputReady job.workflow input = false := by
            simpa using ready
          refine iff_of_true ⟨areInputsReady_spares answer _ _ _,?_⟩ ⟨differs,missing⟩
          rintro _ ⟨⟩
          trivial
        | true =>
          refine iff_of_false (fun runs => admitted_creates definitions answer job row node (runs.2 true rfl)) ?_
          rintro ⟨_,input,member,unready⟩
          have all := List.all_eq_true.mp ready input member
          exact absurd (unready.symm.trans all) Bool.false_ne_true

end messages

/-- Processing a message, for the first time or again, leaves every row and the
queue as they are exactly where the state makes the message harmless. -/
theorem processing_unchanged (definitions : Definitions) (answer : Outside) (before : Clocked) (message : Message) :
    Unchanged before (processing definitions answer message before) ↔ Harmless before.db message := by
  unfold processing
  rw [clockedRun_unchanged]
  cases message with
  | executeWorkflowV2 workflow => exact opening_spares answer
  | processNextNode job => exact node_spares definitions answer

/-- A worker has done all that its message asked for and has not acknowledged it yet. -/
def Installation.Served (S : Installation) (message : Message) : Prop := (Origin.message message,none) ∈ S.view.threads

/-- A served message whose second processing adds a task. -/
def reruns (db : Db) : Origin × Option Operation → Bool
  | (.message message,none) =>
    (((Origin.message message).program versionOne).run Operation.effect (.returns .null) db).2.tasks.length != db.tasks.length
  | _ => false

theorem processing_db (definitions : Definitions) (answer : Outside) (message : Message) (before : Clocked) :
    (processing definitions answer message before).db =
      (((Origin.message message).program definitions).run Operation.effect answer before.db).2 := by
  have fits (operation : Operation) (later : Clocked) : (operation.clocked later).db = operation.effect later.db := rfl
  exact Program.run_within answer fits _ before

/-- A single node runs to its end; the same message then runs it a second time. -/
theorem served_node_runs_again : ∃ events last message before,
    Execution versionOne anything (installed [⟨"t",0,⟨[codeNode "a"],[]⟩⟩]) events last ∧
    last.Served message ∧ before.db = last.shared ∧
    ¬Unchanged before (processing versionOne (.returns .null) message before) := by
  obtain ⟨events,last,run,found⟩ := schedule_execution versionOne anything [⟨"t",0,⟨[codeNode "a"],[]⟩⟩]
    (opened ++ [.take (.move (.deliver 0))] ++ List.replicate 11 (.take (.advance 0 (.returns .null))))
    (fun S => S.view.threads.any (reruns S.shared)) (by decide)
  obtain ⟨thread,member,changed⟩ := List.any_eq_true.mp found
  unfold reruns at changed
  split at changed
  next message =>
    refine ⟨events,last,message,⟨last.shared,0,fun _ => 0,fun _ => Nat.le_refl _⟩,run,member,rfl,fun unchanged => ?_⟩
    have same := unchanged.2.1
    rw [processing_db] at same
    rw [same] at changed
    simp at changed
  next => cases changed

end FinmarsWorkflow
