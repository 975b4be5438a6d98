import FinmarsWorkflow.Links

/-! The graph that a message carries is the one of the workflow's template.
While nobody edits a template, every message in the queue, at a worker or about
to be sent carries the graph that the row of its workflow leads to. -/
namespace FinmarsWorkflow
open Interleave Relation

def edits : Action → Bool
  | .move (.request (.updateTemplate _ _)) => true
  | _ => false

/-- Nobody edits a template. -/
def fixedTemplates : Allowed := fun _ label => edits label = false

instance (view : Seen) (label : Action) : Decidable (fixedTemplates view label) :=
  inferInstanceAs (Decidable (edits label = false))

def Message.Graphed (db : Db) (message : Message) : Prop :=
  ∀ job, message = .processNextNode job → db.graph job.workflow = some job.graph

def Origin.Graphed (db : Db) (origin : Origin) : Prop := ∀ message, origin = .message message → message.Graphed db

/-- The messages that a thread is about to send are right, and it edits no template. -/
def Control.Graphed (db : Db) : Control → Prop
  | .send messages => ∀ message ∈ messages, message.Graphed db
  | .templateSave _ _ => False
  | _ => True

/-- Every workflow keeps the graph it has. -/
def KeepsGraphs (db later : Db) : Prop := ∀ workflow g, db.graph workflow = some g → later.graph workflow = some g

section keeping
variable {db later : Db} {definitions : Definitions} {origin : Origin}

theorem Grows.keepsGraphs (grows : Grows db later) (same : later.templates = db.templates) : KeepsGraphs db later := by
  intro workflow g found
  cases stored : db.workflowKey workflow with
  | none => simp [Db.graph,stored] at found
  | some key => simpa [Db.graph,stored,grows.workflow workflow key stored,same] using found

theorem graph_kept {db later : Db} {workflow : WorkflowId} {g : Graph} {key : WorkflowKey}
    (stored : db.workflowKey workflow = some key) (grows : Grows db later) (same : later.templates = db.templates)
    (found : later.graph workflow = some g) : db.graph workflow = some g := by
  simpa [Db.graph,stored,grows.workflow workflow key stored,same] using found

theorem KeepsGraphs.message {message : Message} (keeps : KeepsGraphs db later) (graphed : message.Graphed db) :
    message.Graphed later :=
  fun job same => keeps _ _ (graphed job same)

theorem templateData_graph {workflow : WorkflowId} {row : Workflow} {g : Graph}
    (stored : db.workflowKey workflow = some row.key) (data : db.templateData row = .ok g) :
    db.graph workflow = some g := by
  simp only [Db.templateData] at data
  split at data
  next => cases data
  next id same =>
    split at data
    next template found =>
      cases data
      have key : row.key.workflowTemplate = some id := same
      simp [Db.graph,stored,key,found]
    next => cases data

theorem graphed_of_template {g : Graph} {workflow : WorkflowId} (found : db.graph workflow = some g)
    (id : NodeId) : (Message.processNextNode ⟨id,workflow,g⟩).Graphed db := by
  rintro job ⟨⟩
  exact found

theorem graphed_of_stage {control : Control} (silent : control.stage ≠ .sending) (reads : control.stage ≠ .editing) :
    control.Graphed db := by
  cases control with
  | send => exact absurd rfl silent
  | templateSave => exact absurd rfl reads
  | _ => trivial

theorem graphed_next {control : Control} {operation : Operation} {outside : Outside}
    (linked : control.Linked db origin) (busy : control.operation = some operation)
    (keeps : KeepsGraphs db (operation.effect db)) (graphed : control.Graphed db) :
    (control.next definitions db outside).Graphed (operation.effect db) := by
  cases control with
  | done => cases busy
  | templateSave => cases graphed
  | send messages => exact fun message member => keeps.message (graphed message (List.mem_of_mem_tail member))
  | openData workflow row =>
    cases busy
    simp only [Control.next]
    split
    next g data =>
      split
      next =>
        intro message member
        obtain ⟨id,_,rfl⟩ := List.mem_map.mp member
        exact graphed_of_template (templateData_graph linked.2 data) id
      next => trivial
    next => trivial
  | successData celery depth id task workflow retval =>
    cases busy
    simp only [Control.next]
    split
    next g data =>
      split
      next nodeIds routed =>
        split
        · trivial
        · intro message member
          obtain ⟨node,_,rfl⟩ := List.mem_map.mp member
          exact graphed_of_template (templateData_graph linked.2 data) node
      next => trivial
    next => trivial
  | resumeData workflow row node =>
    cases busy
    simp only [Control.next]
    split
    next g data =>
      split
      next =>
        intro message member
        cases List.mem_singleton.mp member
        exact graphed_of_template (templateData_graph linked.2 data) node
      next => trivial
    next => trivial
  | launchCreate =>
    cases busy
    intro message member
    cases List.mem_singleton.mp member
    rintro job ⟨⟩
  | openRead | openSave | successSave | successRow | launchRead | resumeRead | resumeTasks | resumeSave =>
    simp only [Control.next]
    repeat' split
    all_goals trivial
  | successRead =>
    simp only [Control.next]
    split
    · exact Control.handling_elim trivial (fun _ => trivial) (fun _ _ _ => trivial)
    · trivial
  | _ => exact graphed_of_stage (Control.stage_avoids rfl) (Control.stage_avoids rfl)

/-- The queue, the workers and their outboxes agree with the templates. -/
abbrev Graphed (S : Controlled definitions) : Prop :=
  Locally (fun db => ∀ message ∈ db.queue, message.Graphed db)
    (fun db origin (control : Control) => origin.Graphed db ∧ control.Graphed db) S

theorem templates_effect {control : Control} {operation : Operation} (graphed : control.Graphed db)
    (busy : control.operation = some operation) : (operation.effect db).templates = db.templates := by
  cases operation with
  | saveTemplate template data =>
    cases control with
    | templateSave => cases graphed
    | send messages => cases messages <;> cases busy
    | _ => cases busy
  | _ => rfl

theorem graphed_step {before after : Controlled definitions} {label : Action} (sound : Sound before)
    (graphed : Graphed before) (allowed : fixedTemplates before.view label)
    (step : Step machine Origin.control before label after) : Graphed after := by
  refine (step.locally KeepsGraphs (fun _ _ _ found => found) ?_ ?_ ?_ graphed).1
  · rintro db later origin control keeps ⟨known,linked⟩
    refine ⟨fun message same => keeps.message (known message same),?_⟩
    cases control with
    | send messages => exact fun message member => keeps.message (linked message member)
    | templateSave => exact linked
    | _ => trivial
  · rintro origin control operation answer member ⟨known,points⟩ busy
    have linked := (sound.threads _ member).2
    have keeps := (keyed_grows (linked_keyed linked busy)).keepsGraphs (templates_effect points busy)
    refine ⟨?_,keeps,fun message same => keeps.message (known message same),graphed_next linked busy keeps points⟩
    intro message inside
    cases operation with
    | send sent =>
      rcases List.mem_append.mp inside with old | new
      · exact keeps.message (graphed.shared message old)
      · cases List.mem_singleton.mp new
        rcases send_inv busy with ⟨rest,rfl⟩ | ⟨_,_,_,child,rfl,rfl⟩
        · exact keeps.message (points message List.mem_cons_self)
        · rintro job ⟨⟩
    | _ => exact keeps.message (graphed.shared message inside)
  · intro environment changed turn moves reacts
    obtain ⟨queue,rfl,queued,spawned,asked⟩ := react_queue reacts
    refine ⟨fun message member => ?_,fun _ _ found => found,?_⟩
    · rcases queued message member with inside | inside
      · exact graphed.shared message inside
      · obtain ⟨thread,present,same⟩ := List.mem_map.mp inside
        exact (graphed.threads thread present).1 message same
    · rintro origin rfl
      refine ⟨?_,?_⟩
      · rintro message rfl
        exact graphed.shared message (spawned message rfl)
      · cases origin with
        | message message => cases message <;> trivial
        | request request => cases request with
          | updateTemplate template data => exact Bool.false_ne_true (allowed.symm.trans (by rw [moves,asked _ rfl]; rfl))
          | _ => trivial

theorem unused_graphed (templates : List WorkflowTemplate) : Graphed (unused definitions templates) :=
  ⟨fun _ member => absurd member List.not_mem_nil,fun _ member => absurd member List.not_mem_nil⟩

end keeping
end FinmarsWorkflow
