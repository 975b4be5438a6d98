import Mathlib.Data.Nat.Basic
import FinmarsWorkflow.Sql.Queries

/-! The migration that removes templates which repeat the code of another one of their space, so
that the next migration may forbid this. Rows are those of the schema at that migration, with the
columns that it reads and the foreign keys that lead to them. -/
namespace FinmarsWorkflow.Duplicates
open Sql

structure WorkflowTemplate where
  id : Nat
  userCode : Option String
  space : Nat
  createdAt : Nat
deriving DecidableEq

structure Workflow where
  id : Nat
  workflowTemplate : Option Nat
  parent : Option Nat
deriving DecidableEq

structure Task where
  id : Nat
  workflow : Nat
deriving DecidableEq

/-- The tables, with their primary keys and foreign keys. -/
@[ext] structure Tables where
  templates : List WorkflowTemplate
  workflows : List Workflow
  tasks : List Task
  templateIds : (templates.map WorkflowTemplate.id).Nodup
  workflowIds : (workflows.map Workflow.id).Nodup
  templateKeys : ∀ workflow ∈ workflows, ∀ id, workflow.workflowTemplate = some id →
    ∃ template ∈ templates, template.id = id
  parentKeys : ∀ workflow ∈ workflows, ∀ id, workflow.parent = some id → ∃ parent ∈ workflows, parent.id = id
  workflowKeys : ∀ task ∈ tasks, ∃ workflow ∈ workflows, workflow.id = task.workflow

/-- `on_delete=SET_NULL` of the parent of a workflow. -/
def Workflow.release (gone : List Nat) (workflow : Workflow) : Workflow :=
  {workflow with parent := workflow.parent.filter (· ∉ gone)}

/-- The workflows that go with a template, by `on_delete=CASCADE`. -/
def cascaded (row : WorkflowTemplate) (workflows : List Workflow) : List Nat :=
  (workflows.filter (·.workflowTemplate = some row.id)).map Workflow.id

/-- `row.delete()`; the tasks of a workflow go with it. -/
def Tables.delete (tables : Tables) (row : WorkflowTemplate) : Tables where
  templates := tables.templates.filter (·.id ≠ row.id)
  workflows := (tables.workflows.filter (·.id ∉ cascaded row tables.workflows)).map
    (Workflow.release (cascaded row tables.workflows))
  tasks := tables.tasks.filter (·.workflow ∉ cascaded row tables.workflows)
  templateIds := tables.templateIds.sublist (List.filter_sublist.map _)
  workflowIds := by
    rw [List.map_map]
    exact tables.workflowIds.sublist (List.filter_sublist.map _)
  templateKeys := by
    intro workflow member id refers
    obtain ⟨stored,kept,rfl⟩ := List.mem_map.mp member
    obtain ⟨there,stays⟩ := List.mem_filter.mp kept
    obtain ⟨template,found,rfl⟩ := tables.templateKeys stored there id refers
    refine ⟨template,List.mem_filter.mpr ⟨found,decide_eq_true fun same => ?_⟩,rfl⟩
    refine of_decide_eq_true stays (List.mem_map.mpr ⟨stored,List.mem_filter.mpr ⟨there,decide_eq_true ?_⟩,rfl⟩)
    rw [← same]
    exact refers
  parentKeys := by
    intro workflow member id refers
    obtain ⟨stored,kept,rfl⟩ := List.mem_map.mp member
    obtain ⟨above,stays⟩ := Option.filter_eq_some_iff.mp refers
    obtain ⟨parent,found,rfl⟩ := tables.parentKeys stored (List.mem_of_mem_filter kept) id above
    exact ⟨parent.release _,List.mem_map.mpr ⟨parent,List.mem_filter.mpr ⟨found,stays⟩,rfl⟩,rfl⟩
  workflowKeys := by
    intro task member
    obtain ⟨there,stays⟩ := List.mem_filter.mp member
    obtain ⟨workflow,found,same⟩ := tables.workflowKeys task there
    rw [← same] at stays
    exact ⟨workflow.release _,List.mem_map.mpr ⟨workflow,List.mem_filter.mpr ⟨found,stays⟩,rfl⟩,same⟩

/-- The fields that are to be unique together. -/
def WorkflowTemplate.key (template : WorkflowTemplate) : Option String × Nat := (template.userCode,template.space)

/-- The groups with duplicates. -/
def duplicates (tables : Tables) : List (Option String × Nat) := repeatedKeys WorkflowTemplate.key tables.templates

/-- `rows[1:]` of a group, newest first. A `user_code` that is `None` is looked up as null. -/
def surplus (tables : Tables) (duplicate : Option String × Nat) : List WorkflowTemplate :=
  (orderByDesc WorkflowTemplate.createdAt (tables.templates.filter (·.key = duplicate))).drop 1

/-- One round of the loop over the groups. -/
def removeSurplus (tables : Tables) (duplicate : Option String × Nat) : Tables :=
  (surplus tables duplicate).foldl Tables.delete tables

def removeDuplicates (tables : Tables) : Tables := (duplicates tables).foldl removeSurplus tables

section deletions
variable {tables before middle after : Tables} {template : WorkflowTemplate}

theorem Tables.template_eq (tables : Tables) {first second : WorkflowTemplate} (one : first ∈ tables.templates)
    (two : second ∈ tables.templates) (same : first.id = second.id) : first = second :=
  List.inj_on_of_nodup_map tables.templateIds one two same

theorem Tables.workflow_eq (tables : Tables) {first second : Workflow} (one : first ∈ tables.workflows)
    (two : second ∈ tables.workflows) (same : first.id = second.id) : first = second :=
  List.inj_on_of_nodup_map tables.workflowIds one two same

theorem Tables.distinct (tables : Tables) : tables.templates.Nodup := .of_map _ tables.templateIds

/-- Rows only go, and of the workflows those whose template goes. -/
structure Remains (before after : Tables) : Prop where
  templates : ∀ template ∈ after.templates, template ∈ before.templates
  origin : ∀ stored ∈ after.workflows, ∃ workflow ∈ before.workflows,
    workflow.id = stored.id ∧ workflow.workflowTemplate = stored.workflowTemplate
  stays : ∀ workflow ∈ before.workflows,
    (∀ id, workflow.workflowTemplate = some id → ∃ template ∈ after.templates, template.id = id) →
    ∃ stored ∈ after.workflows, stored.id = workflow.id ∧ stored.workflowTemplate = workflow.workflowTemplate

theorem Remains.refl (tables : Tables) : Remains tables tables :=
  ⟨fun _ there => there,fun stored there => ⟨stored,there,rfl,rfl⟩,fun workflow there _ => ⟨workflow,there,rfl,rfl⟩⟩

theorem Remains.trans (first : Remains before middle) (second : Remains middle after) : Remains before after := by
  constructor
  · exact fun template there => first.templates template (second.templates template there)
  · intro stored there
    obtain ⟨between,found,sameId,sameTemplate⟩ := second.origin stored there
    obtain ⟨workflow,held,id,template⟩ := first.origin between found
    exact ⟨workflow,held,id.trans sameId,template.trans sameTemplate⟩
  · intro workflow there kept
    obtain ⟨between,found,sameId,sameTemplate⟩ := first.stays workflow there fun id refers => by
      obtain ⟨template,left,same⟩ := kept id refers
      exact ⟨template,second.templates template left,same⟩
    obtain ⟨stored,held,id,template⟩ := second.stays between found (sameTemplate ▸ kept)
    exact ⟨stored,held,id.trans sameId,template.trans sameTemplate⟩

theorem delete_remains (tables : Tables) (row : WorkflowTemplate) : Remains tables (tables.delete row) := by
  constructor
  · exact fun template there => List.mem_of_mem_filter there
  · intro stored there
    obtain ⟨workflow,kept,rfl⟩ := List.mem_map.mp there
    exact ⟨workflow,List.mem_of_mem_filter kept,rfl,rfl⟩
  · intro workflow there kept
    refine ⟨workflow.release _,List.mem_map.mpr ⟨workflow,List.mem_filter.mpr ⟨there,decide_eq_true fun gone => ?_⟩,rfl⟩,
      rfl,rfl⟩
    obtain ⟨other,cascades,same⟩ := List.mem_map.mp gone
    obtain ⟨also,refers⟩ := List.mem_filter.mp cascades
    rw [tables.workflow_eq also there same] at refers
    obtain ⟨template,left,equal⟩ := kept row.id (of_decide_eq_true refers)
    exact of_decide_eq_true (List.mem_filter.mp left).2 equal

theorem deletes_remain (rows : List WorkflowTemplate) (tables : Tables) :
    Remains tables (rows.foldl Tables.delete tables) := by
  induction rows generalizing tables with
  | nil => exact .refl tables
  | cons row rest ih => exact (delete_remains tables row).trans (ih _)

theorem removeDuplicates_remains (tables : Tables) : Remains tables (removeDuplicates tables) := by
  unfold removeDuplicates
  generalize duplicates tables = keys
  induction keys generalizing tables with
  | nil => exact .refl tables
  | cons duplicate rest ih => exact (deletes_remain (surplus tables duplicate) tables).trans (ih _)

theorem deletes_templates (rows : List WorkflowTemplate) (tables : Tables) :
    (rows.foldl Tables.delete tables).templates = tables.templates.filter (·.id ∉ rows.map WorkflowTemplate.id) := by
  induction rows generalizing tables with
  | nil => simp
  | cons row rest ih =>
    rw [List.foldl_cons,ih,Tables.delete,List.filter_filter]
    refine List.filter_congr fun template _ => ?_
    rw [← Bool.decide_and]
    refine decide_eq_decide.mpr ?_
    rw [List.map_cons,List.mem_cons,not_or,and_comm]

end deletions

section templates
variable {tables : Tables} {template : WorkflowTemplate}

theorem surplus_templates {duplicate : Option String × Nat} (spare : template ∈ surplus tables duplicate) :
    template ∈ tables.templates ∧ template.key = duplicate := by
  obtain ⟨there,grouped⟩ := List.mem_filter.mp (mem_orderByDesc.mp (List.mem_of_mem_drop spare))
  exact ⟨there,of_decide_eq_true grouped⟩

theorem removeSurplus_templates (tables : Tables) (duplicate : Option String × Nat) :
    (removeSurplus tables duplicate).templates = tables.templates.filter (· ∉ surplus tables duplicate) := by
  rw [removeSurplus,deletes_templates]
  refine List.filter_congr fun template there => decide_eq_decide.mpr (not_congr ?_)
  constructor
  · intro listed
    obtain ⟨row,spare,same⟩ := List.mem_map.mp listed
    rwa [tables.template_eq there (surplus_templates spare).1 same.symm]
  · exact List.mem_map_of_mem

/-- A round leaves the other groups alone. -/
theorem surplus_removeSurplus {duplicate other : Option String × Nat} (apart : other ≠ duplicate) :
    surplus (removeSurplus tables duplicate) other = surplus tables other := by
  unfold surplus
  rw [removeSurplus_templates,List.filter_filter]
  congr 2
  refine List.filter_congr fun template _ => ?_
  rw [← Bool.decide_and]
  refine decide_eq_decide.mpr (and_iff_left_of_imp fun grouped spare => ?_)
  exact apart (grouped.symm.trans (surplus_templates spare).2)

theorem rounds_templates {keys : List (Option String × Nat)} (distinct : keys.Nodup) (tables : Tables) :
    template ∈ (keys.foldl removeSurplus tables).templates ↔
      template ∈ tables.templates ∧ ¬(template.key ∈ keys ∧ template ∈ surplus tables template.key) := by
  induction keys generalizing tables with
  | nil => simp
  | cons duplicate rest ih =>
    obtain ⟨absent,others⟩ := List.nodup_cons.mp distinct
    rw [List.foldl_cons,ih others,removeSurplus_templates,List.mem_filter,decide_eq_true_eq,and_assoc]
    refine and_congr_right fun _ => ?_
    by_cases own : template.key = duplicate
    · rw [own]
      simp [absent]
    · have alone : template ∉ surplus tables duplicate := fun spare => own (surplus_templates spare).2
      rw [surplus_removeSurplus own,List.mem_cons,or_iff_right own]
      exact and_iff_right alone

/-- No other template of its user code and space is returned before it by `order_by('-created_at')`. -/
def Newest (tables : Tables) (template : WorkflowTemplate) : Prop := ∀ other ∈ tables.templates,
  other.userCode = template.userCode → other.space = template.space →
    ¬Precedes WorkflowTemplate.createdAt tables.templates other template

theorem key_eq {first second : WorkflowTemplate} :
    first.key = second.key ↔ first.userCode = second.userCode ∧ first.space = second.space := Prod.mk.injEq .. ▸ Iff.rfl

theorem mem_surplus (there : template ∈ tables.templates) : template ∈ surplus tables template.key ↔ ¬Newest tables template := by
  have grouped : template ∈ tables.templates.filter (·.key = template.key) :=
    List.mem_filter.mpr ⟨there,decide_eq_true rfl⟩
  rw [surplus,mem_tail_orderByDesc (tables.distinct.filter _),and_iff_right grouped]
  constructor
  · rintro ⟨other,also,before⟩ newest
    obtain ⟨other_there,same⟩ := List.mem_filter.mp also
    obtain ⟨code,space⟩ := key_eq.mp (of_decide_eq_true same)
    exact newest other other_there code space ((precedes_group _ (of_decide_eq_true same)).mp before)
  · intro older
    simp only [Newest,not_forall,not_not] at older
    obtain ⟨other,other_there,code,space,before⟩ := older
    have same : other.key = template.key := key_eq.mpr ⟨code,space⟩
    exact ⟨other,List.mem_filter.mpr ⟨other_there,decide_eq_true same⟩,(precedes_group _ same).mpr before⟩

/-- What the migration keeps: of each user code and space, null or not, the newest template. -/
theorem mem_removeDuplicates : template ∈ (removeDuplicates tables).templates ↔
    template ∈ tables.templates ∧ Newest tables template := by
  have distinct : (duplicates tables).Nodup := nodup_repeatedKeys _ _
  rw [removeDuplicates,rounds_templates distinct]
  refine and_congr_right fun there => ?_
  rw [mem_surplus there,not_and_not_right]
  refine ⟨fun newest => ?_,fun newest _ => newest⟩
  by_cases repeated : template.key ∈ duplicates tables
  · exact newest repeated
  · intro other also code space before
    have same := eq_of_not_repeated WorkflowTemplate.key also there (key_eq.mpr ⟨code,space⟩) repeated
    rw [same] at before
    exact before.asymm tables.distinct before

theorem Newest.eq {other : WorkflowTemplate} (newest : Newest tables template) (also : Newest tables other)
    (there : template ∈ tables.templates) (other_there : other ∈ tables.templates)
    (code : template.userCode = other.userCode) (space : template.space = other.space) : template = other := by
  by_contra apart
  rcases Precedes.total WorkflowTemplate.createdAt there other_there apart with before | before
  · exact also template there code space before
  · exact newest other other_there code.symm space.symm before

theorem exists_newest (there : template ∈ tables.templates) : ∃ kept ∈ tables.templates,
    kept.userCode = template.userCode ∧ kept.space = template.space ∧ Newest tables kept := by
  have grouped : template ∈ tables.templates.filter (·.key = template.key) :=
    List.mem_filter.mpr ⟨there,decide_eq_true rfl⟩
  obtain ⟨kept,first,least⟩ := exists_first WorkflowTemplate.createdAt (tables.distinct.filter _) grouped
  obtain ⟨found,same⟩ := List.mem_filter.mp first
  have same := of_decide_eq_true same
  obtain ⟨code,space⟩ := key_eq.mp same
  refine ⟨kept,found,code,space,fun other also otherCode otherSpace before => ?_⟩
  have group : other.key = template.key := (key_eq.mpr ⟨otherCode,otherSpace⟩).trans same
  refine least other (List.mem_filter.mpr ⟨also,decide_eq_true group⟩) ?_
  rw [← same]
  exact (precedes_group _ (key_eq.mpr ⟨otherCode,otherSpace⟩)).mpr before

theorem Newest.latest {other : WorkflowTemplate} (newest : Newest tables template) (also : other ∈ tables.templates)
    (code : other.userCode = template.userCode) (space : other.space = template.space) :
    other.createdAt ≤ template.createdAt :=
  Nat.not_lt.mp fun later => newest other also code space (.inl later)

end templates

/-- A workflow stays when its template, if it has one, is the newest of its user code and space. -/
theorem workflow_stays {tables : Tables} {workflow : Workflow} (there : workflow ∈ tables.workflows) :
    (∃ stored ∈ (removeDuplicates tables).workflows, stored.id = workflow.id) ↔
      ∀ template ∈ tables.templates, workflow.workflowTemplate = some template.id → Newest tables template := by
  have remains := removeDuplicates_remains tables
  constructor
  · rintro ⟨stored,held,sameId⟩ template found refers
    obtain ⟨source,also,id,origin⟩ := remains.origin stored held
    rw [tables.workflow_eq also there (id.trans sameId),refers] at origin
    obtain ⟨left,kept,same⟩ := (removeDuplicates tables).templateKeys stored held template.id origin.symm
    rw [← tables.template_eq (remains.templates left kept) found same]
    exact (mem_removeDuplicates.mp kept).2
  · intro newest
    obtain ⟨stored,held,same,_⟩ := remains.stays workflow there fun id refers => by
      obtain ⟨template,found,rfl⟩ := tables.templateKeys workflow there id refers
      exact ⟨template,mem_removeDuplicates.mpr ⟨found,newest template found refers⟩,rfl⟩
    exact ⟨stored,held,same⟩

/-- Another template of the space has the same user code; null is like no other under the constraint. -/
def Duplicated (tables : Tables) (template : WorkflowTemplate) : Prop := template.userCode ≠ none ∧
  ∃ other ∈ tables.templates, other ≠ template ∧ other.userCode = template.userCode ∧ other.space = template.space

/-- What the migration is to leave: the duplicates of the constraint are gone but for the newest of
each, and nothing else is. -/
structure LosesNothingElse (before after : Tables) : Prop where
  unique : ∀ first ∈ after.templates, ∀ second ∈ after.templates, first.userCode ≠ none →
    first.userCode = second.userCode → first.space = second.space → first = second
  represented : ∀ template ∈ before.templates, template.userCode ≠ none → ∃ kept ∈ after.templates,
    kept ∈ before.templates ∧ kept.userCode = template.userCode ∧ kept.space = template.space ∧
    ∀ other ∈ before.templates, other.userCode = template.userCode → other.space = template.space →
      other.createdAt ≤ kept.createdAt
  kept : ∀ template ∈ before.templates, ¬Duplicated before template → template ∈ after.templates
  workflows : ∀ workflow ∈ before.workflows, ∃ stored ∈ after.workflows, stored.id = workflow.id

/-- No space has two templates without a user code, and no workflow refers to a template of which there is a
newer one. -/
structure Harmless (tables : Tables) : Prop where
  codes : ∀ first ∈ tables.templates, ∀ second ∈ tables.templates, first.userCode = none → second.userCode = none →
    first.space = second.space → first = second
  references : ∀ workflow ∈ tables.workflows, ∀ template ∈ tables.templates,
    workflow.workflowTemplate = some template.id → Newest tables template

theorem removeDuplicates_unique {tables : Tables} {first second : WorkflowTemplate}
    (one : first ∈ (removeDuplicates tables).templates) (two : second ∈ (removeDuplicates tables).templates)
    (code : first.userCode = second.userCode) (space : first.space = second.space) : first = second := by
  obtain ⟨there,newest⟩ := mem_removeDuplicates.mp one
  obtain ⟨also,other⟩ := mem_removeDuplicates.mp two
  exact newest.eq other there also code space

theorem removeDuplicates_represented {tables : Tables} {template : WorkflowTemplate} (there : template ∈ tables.templates) :
    ∃ kept ∈ (removeDuplicates tables).templates, kept ∈ tables.templates ∧ kept.userCode = template.userCode ∧
      kept.space = template.space ∧ ∀ other ∈ tables.templates, other.userCode = template.userCode →
        other.space = template.space → other.createdAt ≤ kept.createdAt := by
  obtain ⟨kept,found,code,space,newest⟩ := exists_newest there
  refine ⟨kept,mem_removeDuplicates.mpr ⟨found,newest⟩,found,code,space,fun other also otherCode otherSpace => ?_⟩
  exact newest.latest also (otherCode.trans code.symm) (otherSpace.trans space.symm)

/-- For all tables, the migration loses nothing else exactly when the groups of templates without a user
code are single, and the workflows refer to the newest templates. -/
theorem removeDuplicates_harmless_iff (tables : Tables) :
    LosesNothingElse tables (removeDuplicates tables) ↔ Harmless tables := by
  constructor
  · intro loses
    constructor
    · intro first one second two code other space
      have first_kept := loses.kept first one fun duplicated => duplicated.1 code
      have second_kept := loses.kept second two fun duplicated => duplicated.1 other
      exact removeDuplicates_unique first_kept second_kept (code.trans other.symm) space
    · exact fun workflow there => (workflow_stays there).mp (loses.workflows workflow there)
  · intro harmless
    constructor
    · exact fun first one second two _ => removeDuplicates_unique one two
    · exact fun template there _ => removeDuplicates_represented there
    · intro template there single
      refine mem_removeDuplicates.mpr ⟨there,fun other also code space before => ?_⟩
      have same : other = template := by
        by_cases empty : template.userCode = none
        · exact harmless.codes other also template there (code.trans empty) empty space
        · exact not_not.mp fun apart => single ⟨empty,other,also,apart,code,space⟩
      rw [same] at before
      exact before.asymm tables.distinct before
    · exact fun workflow there => (workflow_stays there).mpr (harmless.references workflow there)

/-- Two versions of one template, of which the older was run, and two drafts without a user code. -/
def productionTables : Tables where
  templates := [⟨1,some "report",1,10⟩,⟨2,some "report",1,20⟩,⟨3,none,1,30⟩,⟨4,none,1,40⟩]
  workflows := [⟨1,some 1,none⟩]
  tasks := [⟨1,1⟩]
  templateIds := by decide
  workflowIds := by decide
  templateKeys := by simp
  parentKeys := by simp
  workflowKeys := by simp

/-- The run of the older version goes, and so does the older draft. -/
theorem history_lost : ¬LosesNothingElse productionTables (removeDuplicates productionTables) := by
  intro loses
  have stays := (workflow_stays List.mem_cons_self).mp (loses.workflows ⟨1,some 1,none⟩ List.mem_cons_self)
  refine stays ⟨1,some "report",1,10⟩ List.mem_cons_self rfl ⟨2,some "report",1,20⟩ ?_ rfl rfl (.inl ?_)
  · exact List.mem_cons_of_mem _ List.mem_cons_self
  · decide

end FinmarsWorkflow.Duplicates
