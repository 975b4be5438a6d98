import FinmarsWorkflow.Attended
import FinmarsWorkflow.Carriers
import FinmarsWorkflow.Finite
import FinmarsWorkflow.Interleave.Course
import FinmarsWorkflow.Routes
import FinmarsWorkflow.Terminal

/-! Where a workflow may come to a standstill.
A worker ends without a message or a further step where an input of its node is not
ready, or where its own task waits for a nested workflow. On a well-formed graph every
other end of a worker sends a message to a next node or stores a success. -/
namespace FinmarsWorkflow
open Interleave Relation

/-- A graph with nodes, whose connections lead from node to node and never back. -/
structure Graph.WellFormed (g : Graph) : Prop where
  some_ : g.nodes ≠ []
  ends : ∀ connection ∈ g.connections, connection.source ∈ g.ids ∧ connection.target ∈ g.ids
  acyclic : ∀ node, ¬g.Cyclic node

section graphs
variable {g : Graph} {id source : NodeId} {nodeIds : List NodeId}

theorem node?_ids : (g.node? id).isSome = true ↔ id ∈ g.ids := by
  simp [Graph.node?,Graph.ids,List.mem_eraseDups]

namespace Graph.WellFormed
variable (formed : g.WellFormed)
include formed

theorem adjacencyList : g.adjacencyList = .ok g.adjacent :=
  sources_adjacency (fun connection member => (formed.ends connection member).1)

theorem adjacent_known (leads : id ∈ g.adjacent source) : (g.node? id).isSome = true := by
  obtain ⟨connection,member,rfl⟩ := List.mem_map.mp leads
  exact node?_ids.mpr (formed.ends connection (List.mem_filter.mp member).1).2

theorem successors_known {node : Option NodeId} {retval : Json} (routed : successors g node retval = .ok nodeIds) :
    ∀ id ∈ nodeIds, (g.node? id).isSome = true := by
  intro id member
  cases node with
  | none => simp [successors,formed.adjacencyList,bind,Except.bind] at routed
  | some source => exact formed.adjacent_known ((successors_sublist routed).subset member)

/-- A finished task with next nodes sends a message to each of them. -/
theorem processMessages_ne {node : Option NodeId} {retval : Json} (workflow : WorkflowId)
    (routed : successors g node retval = .ok nodeIds) (some_ : nodeIds ≠ []) : processMessages g workflow nodeIds ≠ [] := by
  obtain ⟨next,member⟩ := List.exists_mem_of_ne_nil nodeIds some_
  refine List.ne_nil_of_mem (List.mem_map.mpr ⟨next,List.mem_filter.mpr ⟨member,?_⟩,rfl⟩)
  exact formed.successors_known routed next member

theorem startNodes_ne : g.startNodes ≠ [] := by
  have some_ : g.ids ≠ [] := by
    obtain ⟨node,member⟩ := List.exists_mem_of_ne_nil g.nodes formed.some_
    exact List.ne_nil_of_mem (List.mem_eraseDups.mpr (List.mem_map.mpr ⟨node,member,rfl⟩))
  obtain ⟨first,member,free⟩ := source_exists (fun connection inside => (formed.ends connection inside).1)
    (fun node _ => formed.acyclic node) some_
  refine List.ne_nil_of_mem (List.mem_filter.mpr ⟨member,?_⟩)
  simp only [Bool.not_eq_true',List.any_eq_false,beq_iff_eq]
  exact fun connection inside same => free connection inside same.symm

end Graph.WellFormed

/-- A graph whose nodes are listed in an order that all connections follow. -/
theorem formed_of_order (some_ : g.nodes ≠ [])
    (ordered : ∀ connection ∈ g.connections, connection.source ∈ g.ids ∧ connection.target ∈ g.ids ∧
      g.ids.idxOf connection.source < g.ids.idxOf connection.target) : g.WellFormed := by
  refine ⟨some_,fun connection member => ⟨(ordered connection member).1,(ordered connection member).2.1⟩,fun node => ?_⟩
  have ranked : ∀ first second, Feeds g.connections Connection.source Connection.target first second → True →
      True ∧ g.ids.idxOf first < g.ids.idxOf second := by
    rintro first second ⟨connection,member,rfl,rfl⟩ _
    exact ⟨trivial,(ordered connection member).2.2⟩
  exact @ranked_acyclic _ _ _ _ _ (fun _ => True) (fun id => g.ids.idxOf id) ranked node trivial

/-- A node that was reached is a node of the graph. -/
theorem reached_known {events : List (Origin × Operation)} {db : Db} {workflow : WorkflowId} (formed : g.WellFormed)
    (graph : db.graph workflow = some g) (reached : Reached events db workflow id) : (g.node? id).isSome = true := by
  obtain ⟨_,other,found,leads⟩ := reached
  cases Option.some.inj (graph.symm.trans found)
  rcases leads with start | ⟨source,retval,nodeIds,_,routed,member⟩
  · exact node?_ids.mpr (List.mem_filter.mp start).1
  · exact formed.successors_known routed id member

end graphs

/-- A workflow and all that are nested in it run a well-formed graph. -/
def Sane (db : Db) (workflow : WorkflowId) : Prop :=
  ∀ child key, db.Above child workflow → db.workflowKey child = some key → ∃ g, db.graph child = some g ∧ g.WellFormed

/-- Somebody asks to pause or to cancel the workflow or one nested in it. -/
def Origin.interrupts (db : Db) (workflow : WorkflowId) : Origin → Bool
  | .request (.pause asked) | .request (.cancel asked) => db.within workflow asked
  | _ => false

/-- A task of the workflow or of one nested in it fails, or is cancelled. -/
def Operation.stopsWithin (db : Db) (workflow : WorkflowId) : Operation → Bool
  | .saveTask _ row => db.within workflow row.workflow && row.status.stopped
  | _ => false

/-- The workflow is opened although it was opened before. -/
def reopens (db : Db) (workflow : WorkflowId) : Origin → Operation → Bool
  | .message (.executeWorkflowV2 opened),.saveWorkflow _ _ => opened == workflow && !unopened db workflow
  | _,_ => false

def upsets (workflow : WorkflowId) (view : Seen) : Action → Bool
  | .advance index _ => match view.threads[index]? with
    | some (origin,some operation) => origin.interrupts view.shared workflow ||
        operation.stopsWithin view.shared workflow || reopens view.shared workflow origin operation
    | _ => false
  | _ => false

/-- Nobody edits a template, pauses or cancels, no task fails, and the workflow is opened once. -/
def smooth (workflow : WorkflowId) : Allowed := fun view label =>
  fixedTemplates view label ∧ upsets workflow view label = false

instance (workflow : WorkflowId) (view : Seen) (label : Action) : Decidable (smooth workflow view label) :=
  inferInstanceAs (Decidable (_ ∧ _))

/-- An input of the node is not ready, or its task has delegated to a nested workflow. -/
def Db.waits (db : Db) (job : Job) : Bool :=
  (job.graph.inputNodes job.currentNodeId).any (fun input => !db.inputReady job.workflow input) ||
  db.tasks.any (fun task => task.workflow == job.workflow && task.nodeId == some job.currentNodeId &&
    task.status == .nestedProgress)

/-- A worker of the workflow or of one nested in it that has something left to do. -/
def working (db : Db) (workflow : WorkflowId) : Origin × Option Operation → Bool
  | (.message message,some _) => db.within workflow message.workflow
  | _ => false

/-- A message of the family is queued, a thread of the list works for it, or the workflow is a success. -/
def thrives (db : Db) (workflow : WorkflowId) (threads : List (Origin × Option Operation)) : Bool :=
  db.queue.any (fun message => db.within workflow message.workflow) || threads.any (working db workflow) ||
    (db.workflows[workflow]?).any (fun row => row.status == .success)

/-- A worker is at a query with a message that waits, when nothing else of the family is queued
or at work and the workflow is no success. -/
def endangered (workflow : WorkflowId) (view : Seen) : Action → Bool
  | .advance index _ => match view.threads[index]? with
    | some (.message (.processNextNode job),some .read) => view.shared.within workflow job.workflow &&
        view.shared.waits job && !thrives view.shared workflow (view.threads.eraseIdx index)
    | _ => false
  | _ => false

/-- The thread that took the step has nothing left to do. -/
def ended (view : Seen) : Action → Bool
  | .advance index _ => (view.threads[index]?).any (fun thread => thread.2.isNone)
  | _ => false

/-- The last worker of a workflow drops the last message of it. -/
def strands (workflow : WorkflowId) (before : Seen) (label : Action) (after : Seen) : Bool :=
  endangered workflow before label && ended after label

/-- A run of the installation whose steps all meet a condition on what they lead to. -/
abbrev Passing (definitions : Definitions) (passes : Passage Db Origin Operation Outside Environment)
    (first : Installation) (events : List (Origin × Operation)) (last : Installation) : Prop :=
  Course machine (Origin.program definitions) passes first events last

/-- The last message of a workflow is never dropped. -/
def flowing (workflow : WorkflowId) : Passage Db Origin Operation Outside Environment := fun before label after =>
  smooth workflow before label ∧ strands workflow before label after = false

/-- What a step that upsets nothing is not. -/
structure Smooth (db : Db) (workflow : WorkflowId) (origin : Origin) (operation : Operation) : Prop where
  unasked : ∀ asked, origin = .request (.pause asked) ∨ origin = .request (.cancel asked) → ¬db.Above asked workflow
  unfailed : ∀ id row, operation = .saveTask id row → row.status.stopped = true → ¬db.Above row.workflow workflow
  once : origin = .message (.executeWorkflowV2 workflow) → ∀ id row, operation = .saveWorkflow id row →
    ¬Begun db workflow

theorem lineage_above {db : Db} {child workflow : WorkflowId} {fuel : Nat} (member : workflow ∈ db.lineage fuel child) :
    db.Above child workflow := by
  induction fuel generalizing child with
  | zero => cases member
  | succ fuel ih =>
    rcases List.mem_cons.mp member with rfl | inside
    · exact .refl
    · cases up : (db.workflowKey child).bind WorkflowKey.parent with
      | none =>
        rw [up] at inside
        cases inside
      | some parent =>
        rw [up] at inside
        obtain ⟨key,stored,delegated⟩ := Option.bind_eq_some_iff.mp up
        exact .head ⟨key,stored,delegated⟩ (ih inside)

theorem within_above {db : Db} {child workflow : WorkflowId} (within : db.within workflow child = true) :
    db.Above child workflow :=
  lineage_above (List.contains_iff_mem.mp within)

/-- No row of the family is paused. -/
def Awake (db : Db) (workflow : WorkflowId) : Prop :=
  ∀ child row, db.Above child workflow → db.workflows[child]? = some row → row.status ≠ .wait

def Succeeded (db : Db) (workflow : WorkflowId) : Prop :=
  ∃ row, db.workflows[workflow]? = some row ∧ row.status = .success

/-- The workflow that a thread has found paused, or is past the failure of a task of. -/
def Control.strays : Control → Option WorkflowId
  | .park job _ => some job.workflow
  | .resumeTasks asked _ _ | .resumeSave asked _ _ | .resumeData asked _ _ => some asked
  | .failClose _ _ task _ _ | .failParent _ _ task _ | .failReload _ _ task _ => some task.workflow
  | .failClimb _ child _ _ _ => some child
  | _ => none

/-- The thread has found no workflow of the family paused or failed. -/
def Control.Aloof (db : Db) (workflow : WorkflowId) (control : Control) : Prop :=
  ∀ child, control.strays = some child → ¬db.Above child workflow

section smooth
variable {definitions : Definitions} {before after : Controlled definitions} {label : Action} {workflow : WorkflowId}
  {origin : Origin} {control : Control} {operation : Operation}

theorem smooth_advance {index : Nat} {answer : Outside} (sound : Sound before)
    (allowed : smooth workflow before.view (.advance index answer)) (found : before.threads[index]? = some (origin,control))
    (busy : control.operation = some operation) : Smooth before.shared workflow origin operation := by
  have quiet := allowed.2
  have state : before.view.shared = before.shared := rfl
  simp only [upsets,seen_thread found busy,state,Bool.or_eq_false_iff] at quiet
  obtain ⟨⟨interrupts,stops⟩,opens⟩ := quiet
  refine ⟨?_,?_,?_⟩
  · rintro asked (rfl | rfl) below <;>
      exact Bool.false_ne_true (interrupts.symm.trans (above_within sound.shared below))
  · rintro id row rfl stopped below
    simp [Operation.stopsWithin,stopped,above_within sound.shared below] at stops
  · rintro rfl id row rfl ⟨stored,there,started⟩
    simp [reopens,unopened,there,started] at opens

theorem ended_advance {threads : List (Origin × Control)} {index : Nat} {answer : Outside} {db : Db} {next : Control}
    (bound : index < threads.length) :
    ended (System.view (L := controls definitions) ⟨db,threads.set index (origin,next)⟩) (.advance index answer) =
      next.operation.isNone := by
  have seen := System.view_found (S := (⟨db,threads.set index (origin,next)⟩ : Controlled definitions))
    (List.getElem?_set_self bound)
  simp only [ended,seen,Option.any_some]

/-- A workflow that was there has the ancestors that it had. -/
theorem above_known {db : Db} {child : WorkflowId} (keyed : operation.Keyed db) (later : Consistent (operation.effect db))
    (known : (db.workflowKey child).isSome) (above : (operation.effect db).Above child workflow) :
    db.Above child workflow := by
  rcases above_effect keyed later above with old | ⟨fresh,_⟩
  · exact old
  · obtain ⟨key,stored⟩ := Option.isSome_iff_exists.mp known
    exact absurd (workflowKey_lt stored) (fresh ▸ Nat.lt_irrefl _)

theorem strays_known {db : Db} {child : WorkflowId} (consistent : Consistent db) (linked : control.Linked db origin)
    (strays : control.strays = some child) : (db.workflowKey child).isSome := by
  have stored {key : WorkflowKey} {id : WorkflowId} (there : db.workflowKey id = some key) : (db.workflowKey id).isSome :=
    Option.isSome_iff_exists.mpr ⟨key,there⟩
  cases control with
  | park | resumeTasks | resumeSave | resumeData =>
    cases strays
    exact stored linked.2
  | failClose =>
    cases strays
    exact stored linked.2
  | failParent | failReload =>
    cases strays
    exact consistent.workflow _ _ linked.stored
  | failClimb =>
    cases strays
    exact stored linked.2.stored
  | _ => cases strays

theorem strays_of_stage {point : Control} {child : WorkflowId} (parks : point.stage ≠ .parking) (resumes : point.stage ≠ .resuming)
    (fails : point.stage ≠ .failing) : point.strays ≠ some child := by
  cases point with
  | park => exact absurd rfl parks
  | resumeTasks | resumeSave | resumeData => exact absurd rfl resumes
  | failClose | failParent | failReload | failClimb => exact absurd rfl fails
  | _ => rintro ⟨⟩

/-- A thread gets past a failure or a pause only outside the family. -/
theorem strays_next {db : Db} {outside : Outside} {child : WorkflowId} (consistent : Consistent db)
    (linked : control.Linked db origin) (awake : Awake db workflow) (aloof : control.Aloof db workflow)
    (smooth : Smooth db workflow origin operation) (busy : control.operation = some operation)
    (strays : (control.next definitions db outside).strays = some child) :
    (db.workflowKey child).isSome ∧ ¬db.Above child workflow := by
  have old (own : control.strays = some child) : (db.workflowKey child).isSome ∧ ¬db.Above child workflow :=
    ⟨strays_known consistent linked own,aloof child own⟩
  have apart {point : Control} (own : point.strays = none) : point.strays ≠ some child := own ▸ (Option.some_ne_none child).symm
  have paused {id : WorkflowId} {row : Workflow} (found : db.getWorkflow id = .ok row) (waits : row.status = .wait) :
      (db.workflowKey id).isSome ∧ ¬db.Above id workflow :=
    ⟨Option.isSome_iff_exists.mpr ⟨_,getWorkflow_key found⟩,fun below => awake id row below (getWorkflow_ok found) waits⟩
  cases control with
  | take job =>
    simp only [Control.next] at strays
    split at strays
    next row found =>
      split at strays
      · split at strays
        next waits =>
          cases strays
          exact paused found waits
        next =>
          exact (Control.checking_elim (P := fun point => point.strays ≠ some child) (fun _ _ _ => apart rfl)
            (fun _ => Control.admitted_elim (P := fun point => point.strays ≠ some child) (fun _ _ => apart rfl)
              (fun _ _ => apart rfl) (fun _ => apart rfl)) strays).elim
      · cases strays
    · cases strays
  | resumeRead asked payload =>
    simp only [Control.next] at strays
    split at strays
    next row found =>
      split at strays
      next waits =>
        cases strays
        exact paused found waits
      · cases strays
    · cases strays
  | resumeTasks | resumeSave =>
    simp only [Control.next] at strays
    split at strays
    all_goals first | exact old strays | cases strays
  | resumeData =>
    simp only [Control.next] at strays
    repeat' split at strays
    all_goals cases strays
  | failSave depth id task row error =>
    cases busy
    cases strays
    refine ⟨consistent.workflow _ _ linked.1.stored,smooth.unfailed id (task.failed error) rfl ?_⟩
    simp only [Task.failed,Error.taskStatus]
    split <;> rfl
  | failClose => exact old strays
  | failParent =>
    simp only [Control.next] at strays
    repeat' split at strays
    all_goals first | exact old strays | cases strays
  | failClimb depth closed parent row error =>
    simp only [Control.next] at strays
    split at strays
    next id task found =>
      cases strays
      obtain ⟨stored,owner,_⟩ := parentTask_key found
      refine ⟨consistent.workflow _ _ stored,fun below => aloof closed rfl ?_⟩
      exact .head linked.2.parent (owner ▸ below)
    · cases strays
  | failRead | failReload =>
    simp only [Control.next] at strays
    split at strays
    · exact (Control.failing_elim (P := fun point => point.strays ≠ some child) (apart rfl) (fun _ _ => apart rfl) strays).elim
    · cases strays
  | failRow =>
    simp only [Control.next] at strays
    split at strays <;> cases strays
  | startRead | startSave | stepRead | progressRead | templateRead | childCreate | childSend | childSave | successSave
  | successRow | successData =>
    simp only [Control.next] at strays
    repeat' split at strays
    all_goals cases strays
  | runCode | logSave | progressSave =>
    exact (Control.calling_elim (P := fun point => point.strays ≠ some child) (fun _ _ _ => apart rfl) (fun _ _ _ => apart rfl)
      (fun _ _ => apart rfl) (fun _ _ => apart rfl) strays).elim
  | successRead | climb =>
    simp only [Control.next] at strays
    split at strays
    · exact (Control.handling_elim (P := fun point => point.strays ≠ some child) (apart rfl) (fun _ => apart rfl)
        (fun _ _ _ => apart rfl) strays).elim
    · cases strays
  | _ =>
    exact absurd strays (strays_of_stage (Control.stage_avoids rfl) (Control.stage_avoids rfl) (Control.stage_avoids rfl))

/-- What is saved of a workflow of the family is a success, or its opening. -/
theorem family_save {db : Db} {id : WorkflowId} {saved : Workflow} (linked : control.Linked db origin)
    (aloof : control.Aloof db workflow) (smooth : Smooth db workflow origin (.saveWorkflow id saved))
    (busy : control.operation = some (.saveWorkflow id saved)) (below : db.Above id workflow) :
    saved.status = .success ∨ saved.status = .progress ∧ origin = .message (.executeWorkflowV2 id) := by
  cases control with
  | openSave =>
    cases busy
    exact .inr ⟨rfl,linked.1⟩
  | closeSave =>
    cases busy
    exact .inl rfl
  | park | resumeSave | failClose =>
    cases busy
    exact absurd below (aloof _ rfl)
  | pauseSave =>
    cases busy
    exact absurd below (smooth.unasked _ (.inl linked.1))
  | cancelSave =>
    cases busy
    exact absurd below (smooth.unasked _ (.inr linked.1))
  | send messages => cases messages <;> cases busy
  | _ => cases busy

end smooth

end FinmarsWorkflow
