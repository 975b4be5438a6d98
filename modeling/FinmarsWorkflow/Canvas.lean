import FinmarsWorkflow.Grammar

/-! The canvas of a version-1 definition.
`build` makes one stage of every entry and links each to the stage before it through the
attribute `previous`, which it sets aside while it adds the hook before the start. -/
namespace FinmarsWorkflow.Build
open Tenant Python

/-- An element stands for an entry. -/
inductive Shaped : Yaml → Element → Prop
  | single (name : String) (signature : Signature) : Shaped (.str name) (.step signature)
  | group (entries : List (Yaml × Yaml)) (id : CeleryId) (queue : Option Yaml) (members : List Signature) :
    Shaped (.map entries) (.group id queue members)

/-- What an entry of a definition became: an element of the canvas, and a row for each task name,
with the id of its signature. -/
structure Stage (objects : Objects) (job : Job) (isHook : Bool) where
  entry : Yaml
  element : Element
  rows : List Row
  shaped : Shaped entry element
  named : objects.names entry = some (rows.map Row.name)
  identified : rows.map Row.celeryTaskId = element.ids
  fresh : ∀ row ∈ rows, row.workflow = job.workflow ∧ row.nodeId = none ∧ row.status = .init ∧ row.isHook = isHook

section stages
variable {objects : Objects} {job : Job} {isHook : Bool} {draft after : Draft} {entry : Yaml}

/-- Every task names the tasks of the stage before it; those of the first stage name the given ones. -/
def Linked (previous : Option (List CeleryId)) : List (Stage objects job isHook) → Prop
  | [] => True
  | stage::rest => (∀ row ∈ stage.rows, row.previous = previous) ∧ Linked (some stage.element.ids) rest

theorem shaped_element {first : CeleryId} {names : List String} (named : objects.names entry = some names) :
    Shaped entry (elementOf job first names entry) := by
  cases entry with
  | str name => exact .single _ _
  | map entries => exact .group _ _ _ _
  | seq items => cases named
  | other content => cases named

/-- The stage that an entry becomes. -/
def stageOf (job : Job) (isHook : Bool) (previous : Option (List CeleryId)) (first : CeleryId) {names : List String}
    (named : objects.names entry = some names) : Stage objects job isHook where
  entry := entry
  element := elementOf job first names entry
  rows := job.rows isHook previous first names
  shaped := shaped_element named
  named := by rw [rows_names,named]
  identified := by rw [rows_ids,element_ids named]
  fresh := by
    intro row among
    obtain ⟨pair,_,rfl⟩ := List.mem_map.mp among
    exact ⟨rfl,rfl,rfl,rfl⟩

/-- The draft after a list of stages: their rows are saved, and their ids have been drawn since. -/
structure Parsed (stages : List (Stage objects job isHook)) (draft after : Draft) : Prop where
  rows : after.rows = draft.rows ++ stages.flatMap Stage.rows
  linked : Linked draft.previous stages
  drawn : ∀ stage ∈ stages, ∀ id ∈ stage.element.ids, draft.uuids ≤ id ∧ id < after.uuids
  later : draft.uuids ≤ after.uuids
  workflow : after.workflow = draft.workflow
  sent : after.sent = draft.sent

theorem parseFlatTasks_run {tasks : List Yaml} (taken : ∀ task ∈ tasks, (objects.names task).isSome = true) :
    ∃ (stages : List (Stage objects job isHook)) (after : Draft),
      (parseFlatTasks objects job isHook tasks).run draft = .ok (stages.map Stage.element) after ∧
        stages.map Stage.entry = tasks ∧ Parsed stages draft after := by
  induction tasks generalizing draft with
  | nil => exact ⟨[],draft,rfl,rfl,⟨(List.append_nil _).symm,trivial,by simp,Nat.le_refl _,rfl,rfl⟩⟩
  | cons task others ih =>
    obtain ⟨names,named⟩ := Option.isSome_iff_exists.mp (taken task List.mem_cons_self)
    obtain ⟨stages,after,done,entries,parsed⟩ := @ih (draft.taking job isHook task names)
      (fun other among => taken other (List.mem_cons_of_mem _ among))
    refine ⟨stageOf job isHook draft.previous draft.uuids named::stages,after,?_,?_,?_⟩
    · unfold parseFlatTasks
      rw [bind_run (parseTask_run named),bind_run done]
      rfl
    · rw [List.map_cons,entries]
      rfl
    · have ids : (elementOf job draft.uuids names task).ids = List.range' draft.uuids names.length := element_ids named
      have room : names.length ≤ idsDrawn names task := by
        cases task with
        | str name =>
          cases named
          exact Nat.le_refl _
        | map entries => exact Nat.le_succ _
        | seq items => cases named
        | other content => cases named
      have later : draft.uuids + idsDrawn names task ≤ after.uuids := parsed.later
      refine ⟨?_,⟨?_,?_⟩,?_,by omega,parsed.workflow,parsed.sent⟩
      · rw [parsed.rows,List.flatMap_cons,← List.append_assoc]
        rfl
      · intro row among
        obtain ⟨pair,_,rfl⟩ := List.mem_map.mp among
        rfl
      · change Linked (some (elementOf job draft.uuids names task).ids) stages
        rw [ids]
        exact parsed.linked
      · intro stage among id member
        rcases List.mem_cons.mp among with rfl | among
        · change id ∈ (elementOf job draft.uuids names task).ids at member
          rw [ids,List.mem_range'_1] at member
          exact ⟨member.1,Nat.lt_of_lt_of_le member.2 (by omega)⟩
        · have bounds := parsed.drawn stage among id member
          have start : draft.uuids + idsDrawn names task ≤ id := bounds.1
          exact ⟨Nat.le_trans (Nat.le_add_right _ _) start,bounds.2⟩

end stages

/-- What `build` reads from a definition, when every one of its lookups succeeds. -/
structure Described (objects : Objects) (definition : Yaml) where
  queue : Yaml
  customQueues : Yaml
  tasks : Yaml
  entries : List Yaml
  failure : Option Yaml
  success : Option Yaml
  beforeStart : Option Yaml
  imports : Option Yaml
  queued : (getQueue definition).bind parseQueues = .ok (queue,customQueues)
  listed : getTasks definition = .ok tasks
  iterated : objects.iter tasks = .ok entries
  onFailure : getHookTask objects definition "failure" = .ok failure
  onSuccess : getHookTask objects definition "success" = .ok success
  before : getHookTask objects definition "before_start" = .ok beforeStart
  imported : getImports definition = .ok imports

namespace Described
variable {objects : Objects} {definition : Yaml} (described : Described objects definition)
  (workflow : WorkflowId) (payload : Json) (context : Context)

def job : Job := ⟨workflow,payload,context,described.queue,described.customQueues,described.imports⟩

/-- The hook that `build` puts before the first stage. -/
def hook : Option Yaml := objects.hook described.beforeStart

end Described

/-- The ids of the stage before the one with an index. -/
def idsBefore {objects : Objects} {job : Job} (stages : List (Stage objects job false)) : Nat → List CeleryId
  | 0 => []
  | index+1 => ((stages[index]?).map (fun stage => stage.element.ids)).getD []

/-- The canvas and the rows that `build` adds are those of the entries in order, between the start with the
hook and the end; every task of a stage names the tasks of the stage before it, and none names the hook. -/
structure Mirrors {objects : Objects} {definition : Yaml} (described : Described objects definition) {job : Job}
    (stages : List (Stage objects job false)) (hooks : List (Stage objects job true)) (draft : Draft) (built : Built)
    (after : Draft) : Prop where
  entries : stages.map Stage.entry = described.entries
  hook : hooks.map Stage.entry = described.hook.toList
  canvas : built.canvas = .start job.workflow job.context job.queue::
    (hooks.map (fun stage => stage.element.setQueue job.queue) ++ stages.map Stage.element) ++
      [.finish job.workflow job.context job.queue]
  rows : after.rows = draft.rows ++ stages.flatMap Stage.rows ++ hooks.flatMap Stage.rows
  previous : ∀ index stage, stages[index]? = some stage → ∀ row ∈ stage.rows, row.previous = some (idsBefore stages index)
  hookRows : ∀ name, described.hook = some (.str name) → ∃ row, hooks.flatMap Stage.rows = [row] ∧ row.name = name
  apart : ∀ row ∈ stages.flatMap Stage.rows, ∀ hookRow ∈ hooks.flatMap Stage.rows, ∀ ids,
    row.previous = some ids → hookRow.celeryTaskId ∉ ids

section mirror
variable {objects : Objects} {definition : Yaml} {described : Described objects definition} {job : Job} {draft : Draft}
  {workflow : WorkflowId} {payload : Json} {context : Context}

/-- The parser takes a list of tasks. -/
def Accepted (objects : Objects) (tasks : List Yaml) : Prop :=
  ∃ job isHook draft canvas after, (parseFlatTasks objects job isHook tasks).run draft = .ok canvas after

theorem accepted_names {tasks : List Yaml} (accepted : Accepted objects tasks) :
    ∀ task ∈ tasks, (objects.names task).isSome = true := by
  obtain ⟨job,isHook,draft,returned⟩ := accepted
  exact parseFlatTasks_returns_iff.mp returned

theorem linked_previous {isHook : Bool} {previous : Option (List CeleryId)} {stages : List (Stage objects job isHook)}
    (linked : Linked previous stages) {index : Nat} {stage : Stage objects job isHook}
    (there : stages[index]? = some stage) {row : Row} (among : row ∈ stage.rows) :
    row.previous = if index = 0 then previous else some (((stages[index-1]?).map (fun stage => stage.element.ids)).getD []) := by
  induction stages generalizing previous index with
  | nil => cases there
  | cons first rest ih =>
    cases index with
    | zero =>
      cases there
      exact linked.1 row among
    | succ index =>
      have tail := ih linked.2 there
      rw [tail]
      cases index with
      | zero => rfl
      | succ index => rfl

/-- The ids that a stage names were drawn before the ids of the hook. -/
theorem idsBefore_drawn {stages : List (Stage objects job false)} {after : Draft} (parsed : Parsed stages draft after)
    {index : Nat} {id : CeleryId} (among : id ∈ idsBefore stages index) : id < after.uuids := by
  cases index with
  | zero => cases among
  | succ index =>
    simp only [idsBefore] at among
    cases there : stages[index]? with
    | none => simp [there] at among
    | some stage =>
      rw [there] at among
      exact (parsed.drawn stage (List.mem_of_getElem? there) id among).2

theorem addBeforeStart_run (taken : ∀ hook, described.hook = some hook → (objects.names hook).isSome = true)
    (canvas : List Element) :
    ∃ (hooks : List (Stage objects job true)) (after : Draft),
      (addBeforeStart objects job described.beforeStart canvas).run draft =
        .ok (hooks.map (fun stage => stage.element.setQueue job.queue) ++ canvas) after ∧
      hooks.map Stage.entry = described.hook.toList ∧
      after.rows = draft.rows ++ hooks.flatMap Stage.rows ∧
      (∀ stage ∈ hooks, ∀ id ∈ stage.element.ids, draft.uuids ≤ id) ∧
      after.workflow = draft.workflow ∧ after.sent = draft.sent ∧ after.previous = draft.previous := by
  have looked : objects.hook described.beforeStart = described.hook := rfl
  unfold addBeforeStart
  rw [looked]
  cases set : described.hook with
  | none => exact ⟨[],draft,rfl,rfl,(List.append_nil _).symm,by simp,rfl,rfl,rfl⟩
  | some hook =>
    have each : ∀ task ∈ [hook], (objects.names task).isSome = true := by
      intro task among
      rw [List.mem_singleton.mp among]
      exact taken hook set
    obtain ⟨stages,after,done,entries,parsed⟩ := @parseFlatTasks_run _ job true {draft with previous := none} _ each
    have single : stages.length = 1 := by
      rw [← List.length_map (f := Stage.entry),entries]
      rfl
    refine ⟨stages,{after with previous := draft.previous},?_,entries,parsed.rows,?_,parsed.workflow,parsed.sent,rfl⟩
    · change EStateM.run (parseFlatTasks objects job true [hook] >>= fun parsed => _) {draft with previous := none} = _
      rw [bind_run done]
      rw [List.take_of_length_le (by rw [List.length_map,single]),List.map_map]
      rfl
    · intro stage among id member
      exact (parsed.drawn stage among id member).1

/-- For every definition whose lookups succeed and whose tasks and hook the parser takes, `build` returns
and mirrors the definition. -/
theorem build_mirrors (described : Described objects definition) (tasks : Accepted objects described.entries)
    (hook : Accepted objects described.hook.toList) (draft : Draft) :
    ∃ (built : Built) (after : Draft) (stages : List (Stage objects (described.job workflow payload context) false))
      (hooks : List (Stage objects (described.job workflow payload context) true)),
      (build objects definition workflow payload context).run draft = .ok built after ∧
        Mirrors described stages hooks draft built after := by
  obtain ⟨stages,middle,done,entries,parsed⟩ := @parseFlatTasks_run _ (described.job workflow payload context) false
    {draft with previous := some []} _ (accepted_names tasks)
  obtain ⟨hooks,after,added,hookEntries,hookRows,later,_⟩ := @addBeforeStart_run _ _ described
    (described.job workflow payload context) middle
    (fun task set => accepted_names hook task (by rw [set]; exact List.mem_singleton_self task))
    (stages.map Stage.element)
  obtain ⟨queue,read,parsedQueues⟩ := except_bind described.queued
  let built : Built :=
    { job := described.job workflow payload context
      canvas := .start workflow context described.queue::
        (hooks.map (fun stage => stage.element.setQueue described.queue) ++ stages.map Stage.element) ++
          [.finish workflow context described.queue]
      failureHook := described.failure
      successHook := described.success }
  refine ⟨built,after,stages,hooks,?_,entries,hookEntries,rfl,?_,?_,?_,?_⟩
  · unfold build
    rw [bind_run (show (setPrevious (some [])).run draft = .ok () {draft with previous := some []} from rfl),
      bind_run (attempt_ok read),bind_run (attempt_ok described.listed),bind_run (attempt_ok described.onFailure),
      bind_run (attempt_ok described.onSuccess),bind_run (attempt_ok described.before),bind_run (attempt_ok parsedQueues)]
    simp only []
    rw [bind_run (attempt_ok described.imported),bind_run (attempt_ok described.iterated)]
    exact (bind_run done).trans ((bind_run added).trans rfl)
  · rw [hookRows,parsed.rows]
  · intro index stage there row among
    rw [linked_previous parsed.linked there among]
    cases index with
    | zero => rfl
    | succ index => rfl
  · intro name set
    have listed : hooks.map Stage.entry = [.str name] := by rw [hookEntries,set]; rfl
    obtain ⟨stage,rfl,entry⟩ := List.map_eq_singleton_iff.mp listed
    have named := stage.named
    rw [entry] at named
    obtain ⟨row,only,same⟩ := List.map_eq_singleton_iff.mp (Option.some.inj named).symm
    exact ⟨row,by simpa using only,same⟩
  · intro row among hookRow hookAmong ids named drawn
    obtain ⟨stage,member,own⟩ := List.mem_flatMap.mp among
    obtain ⟨hookStage,hookMember,hookOwn⟩ := List.mem_flatMap.mp hookAmong
    obtain ⟨index,there⟩ := List.mem_iff_getElem?.mp member
    have previous := linked_previous parsed.linked there own
    have before : hookRow.celeryTaskId < middle.uuids := by
      apply @idsBefore_drawn _ _ _ _ _ parsed index
      rw [named] at previous
      cases index with
      | zero =>
        cases previous
        exact drawn
      | succ index =>
        cases previous
        exact drawn
    have after := later hookStage hookMember hookRow.celeryTaskId (by
      rw [← hookStage.identified]
      exact List.mem_map_of_mem hookOwn)
    exact absurd before (Nat.not_lt.mpr after)

end mirror

section witness

/-- A definition with a group between two tasks, and a hook before the start. -/
def groupDefinition : Yaml := .map [(.str "workflow",.map [
  (.str "user_code",.str "example.GROUP"),
  (.str "tasks",.seq [.str "A",groupEntry "GROUP_1" [(.str "type",.str "group"),(.str "tasks",.seq [.str "B",.str "C"])],
    .str "D"]),
  (.str "hooks",.map [(.str "before_start",.str "H")])])]

def groupDescribed : Described noObjects groupDefinition where
  queue := .str "workflow"
  customQueues := .map []
  tasks := .seq [.str "A",groupEntry "GROUP_1" [(.str "type",.str "group"),(.str "tasks",.seq [.str "B",.str "C"])],.str "D"]
  entries := [.str "A",groupEntry "GROUP_1" [(.str "type",.str "group"),(.str "tasks",.seq [.str "B",.str "C"])],.str "D"]
  failure := none
  success := none
  beforeStart := some (.str "H")
  imports := none
  queued := rfl
  listed := rfl
  iterated := rfl
  onFailure := rfl
  onSuccess := rfl
  before := rfl
  imported := rfl

theorem build_mirrors_group : ∃ (built : Built) (after : Draft)
    (stages : List (Stage noObjects (groupDescribed.job 7 .null ⟨none,"space00000"⟩) false))
    (hooks : List (Stage noObjects (groupDescribed.job 7 .null ⟨none,"space00000"⟩) true)),
    (build noObjects groupDefinition 7 .null ⟨none,"space00000"⟩).run emptyDraft = .ok built after ∧
      Mirrors groupDescribed stages hooks emptyDraft built after :=
  build_mirrors groupDescribed ⟨plainJob,false,emptyDraft,_,_,rfl⟩ ⟨plainJob,true,emptyDraft,_,_,rfl⟩ emptyDraft

end witness

end FinmarsWorkflow.Build
