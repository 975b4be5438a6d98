import FinmarsWorkflow.Builder

/-! What the parser of version-1 tasks takes, and what it raises for the rest.
Its check of the type of a group joins two conditions by `and`, so a group of any type is
taken, and a mapping without a type fails with the errors of Python. -/
namespace FinmarsWorkflow.Build
open Tenant Python

section spec
variable (objects : Objects)

def text : Yaml → Option String
  | .str text => some text
  | _ => none

/-- The task names of an entry that the parser takes: a name, or a mapping whose first value is a
mapping with a type and with tasks that iterate over names. -/
def Objects.names : Yaml → Option (List String)
  | .str name => some [name]
  | .map ((_,.map fields)::_) => do
    let _ ← (Yaml.map fields).get "type"
    let tasks ← (Yaml.map fields).get "tasks"
    let members ← (objects.iter tasks).toOption
    members.mapM text
  | _ => none

/-- Neither a string nor a mapping. -/
def foreign : Yaml → Bool
  | .str _ | .map _ => false
  | .seq _ | .other _ => true

/-- The grammar of the documentation: a task name, or one named group with a list of task names. -/
def grammatical : Yaml → Bool
  | .str _ => true
  | .map [(_,.map fields)] => ((Yaml.map fields).get "type").any (Yaml.isStr "group") &&
    match (Yaml.map fields).get "tasks" with
    | some (.seq names) => names.all (fun name => (text name).isSome)
    | _ => false
  | _ => false

end spec

section run
variable {objects : Objects} {job : Job} {isHook : Bool} {draft after : Draft}

theorem except_bind {α β : Type} {first : Except Raised α} {next : α → Except Raised β} {result : β}
    (ok : first.bind next = .ok result) : ∃ value, first = .ok value ∧ next value = .ok result := by
  cases first with
  | error raised => cases ok
  | ok value => exact ⟨value,rfl,ok⟩

/-- The signatures of names that draw their ids one after the other. -/
def Job.signatures (job : Job) (first : CeleryId) (names : List String) : List Signature :=
  (names.zipIdx first).map (fun entry => job.signature entry.2 entry.1)

/-- The rows of names that draw their ids one after the other. -/
def Job.rows (job : Job) (isHook : Bool) (previous : Option (List CeleryId)) (first : CeleryId) (names : List String) :
    List Row :=
  (names.zipIdx first).map (fun entry => job.row isHook previous entry.2 entry.1)

theorem signatures_ids (first : CeleryId) (names : List String) :
    (job.signatures first names).map Signature.id = List.range' first names.length := by
  unfold Job.signatures
  rw [List.map_map]
  exact List.zipIdx_map_snd first names

theorem rows_ids (previous : Option (List CeleryId)) (first : CeleryId) (names : List String) :
    (job.rows isHook previous first names).map Row.celeryTaskId = List.range' first names.length := by
  unfold Job.rows
  rw [List.map_map]
  exact List.zipIdx_map_snd first names

theorem rows_names (previous : Option (List CeleryId)) (first : CeleryId) (names : List String) :
    (job.rows isHook previous first names).map Row.name = names := by
  unfold Job.rows
  rw [List.map_map]
  exact List.zipIdx_map_fst first names

theorem newTask_run (single : Bool) (name : String) :
    (newTask job isHook single (.str name)).run draft = .ok (job.signature draft.uuids name)
      {draft with
        uuids := draft.uuids + 1
        rows := draft.rows ++ [job.row isHook draft.previous draft.uuids name]
        previous := if single then some [draft.uuids] else draft.previous} := by
  cases single <;> rfl

theorem newTasks_run (names : List String) :
    (newTasks job isHook (names.map .str)).run draft = .ok (job.signatures draft.uuids names)
      {draft with
        uuids := draft.uuids + names.length
        rows := draft.rows ++ job.rows isHook draft.previous draft.uuids names} := by
  induction names generalizing draft with
  | nil => simp [newTasks,Job.signatures,Job.rows]
  | cons name rest ih =>
    unfold newTasks
    simp only [List.map_cons]
    rw [bind_run (newTask_run false name),bind_run ih]
    simp [Job.signatures,Job.rows,Nat.add_assoc,Nat.add_comm 1]

theorem newTask_fails {single : Bool} {name : Yaml} (unnamed : text name = none) :
    ∃ after, (newTask job isHook single name).run draft = .error .typeError after := by
  cases name with
  | str name => cases unnamed
  | map entries => exact ⟨_,rfl⟩
  | seq items => exact ⟨_,rfl⟩
  | other content => exact ⟨_,rfl⟩

theorem mapM_text {members : List Yaml} {names : List String} (named : members.mapM text = some names) :
    members = names.map .str := by
  induction members generalizing names with
  | nil =>
    obtain rfl : names = [] := by simpa using named
    rfl
  | cons member rest ih =>
    simp only [List.mapM_cons,Option.bind_eq_bind,Option.bind_eq_some_iff] at named
    obtain ⟨name,first,others,tail,same⟩ := named
    obtain rfl : name::others = names := by simpa using same
    cases member with
    | str content =>
      cases first
      rw [ih tail]
      rfl
    | map entries => cases first
    | seq items => cases first
    | other content => cases first

/-- A member that is no string ends the group with a `TypeError`. -/
theorem newTasks_fails {members : List Yaml} (unnamed : members.mapM text = none) :
    ∃ after, (newTasks job isHook members).run draft = .error .typeError after := by
  induction members generalizing draft with
  | nil => cases unnamed
  | cons member rest ih =>
    unfold newTasks
    cases named : text member with
    | none =>
      obtain ⟨after,failed⟩ := @newTask_fails job isHook draft false _ named
      exact ⟨after,bind_raises failed⟩
    | some name =>
      have others : rest.mapM text = none := by
        rw [Option.eq_none_iff_forall_ne_some]
        simpa [List.mapM_cons,named] using unnamed
      cases member with
      | str content =>
        rw [bind_run (newTask_run false content)]
        obtain ⟨after,failed⟩ := ih others
        exact ⟨after,bind_raises failed⟩
      | map entries => cases named
      | seq items => cases named
      | other content => cases named

end run

section tasks
variable {objects : Objects} {job : Job} {isHook : Bool} {draft after : Draft} {entry : Yaml}

/-- What the parser makes of an entry with these names. -/
def elementOf (job : Job) (first : CeleryId) (names : List String) : Yaml → Element
  | .str name => .step (job.signature first name)
  | _ => .group (first + names.length) none (job.signatures first names)

/-- A group draws one more id, for itself. -/
def idsDrawn (names : List String) : Yaml → Nat
  | .str _ => 1
  | _ => names.length + 1

/-- The draft after an entry with these names. -/
def Draft.taking (job : Job) (isHook : Bool) (entry : Yaml) (names : List String) (draft : Draft) : Draft :=
  {draft with
    uuids := draft.uuids + idsDrawn names entry
    rows := draft.rows ++ job.rows isHook draft.previous draft.uuids names
    previous := some (List.range' draft.uuids names.length)}

theorem element_ids {first : CeleryId} {names : List String} (named : objects.names entry = some names) :
    (elementOf job first names entry).ids = List.range' first names.length := by
  cases entry with
  | str name =>
    cases named
    rfl
  | map entries => exact signatures_ids first names
  | seq items => cases named
  | other content => cases named

theorem get_isSome {fields : List (Yaml × Yaml)} {key : String} :
    ((Yaml.map fields).get key).isSome = fields.any (fun entry => entry.1.isStr key) := by
  unfold Yaml.get
  rw [Option.isSome_map,List.isSome_find?]

theorem names_map {key value : Yaml} {rest : List (Yaml × Yaml)} {names : List String}
    (named : objects.names (.map ((key,value)::rest)) = some names) :
    objects.contains "type" value = .ok true ∧ ∃ tasks, item "tasks" value = .ok tasks ∧
      objects.iter tasks = .ok (names.map .str) := by
  cases value with
  | map fields =>
    simp only [Objects.names,Option.bind_eq_bind,Option.bind_eq_some_iff] at named
    obtain ⟨kind,typed,tasks,found,members,iterated,texts⟩ := named
    have present : fields.any (fun entry => entry.1.isStr "type") = true := by
      rw [← get_isSome,typed]
      rfl
    refine ⟨?_,tasks,?_,?_⟩
    · simp [Objects.contains,present]
    · simp [item,found]
    · rw [← mapM_text texts]
      cases result : objects.iter tasks with
      | error raised => simp [result,Except.toOption] at iterated
      | ok items =>
        rw [result] at iterated
        cases iterated
        rfl
  | str text => cases named
  | seq items => cases named
  | other content => cases named

theorem parseTask_run {names : List String} (named : objects.names entry = some names) :
    (parseTask objects job isHook entry).run draft =
      .ok (elementOf job draft.uuids names entry) (draft.taking job isHook entry names) := by
  cases entry with
  | str name =>
    cases named
    rfl
  | map entries =>
    cases entries with
    | nil => cases named
    | cons pair rest =>
      obtain ⟨key,value⟩ := pair
      obtain ⟨typed,tasks,found,iterated⟩ := names_map named
      unfold parseTask
      rw [bind_run (attempt_ok typed)]
      simp only [Bool.not_true,Bool.false_eq_true,if_false]
      rw [bind_run (attempt_ok found),bind_run (attempt_ok iterated),bind_run (newTasks_run names)]
      change EStateM.Result.ok _ _ = _
      rw [signatures_ids]
      rfl
  | seq items => cases named
  | other content => cases named

theorem contains_error {value : Yaml} {key : String} {raised : Raised} (failed : objects.contains key value = .error raised) :
    raised ≠ .workflowSyntaxError := by
  cases value with
  | str text => cases failed
  | map entries => cases failed
  | seq items => cases failed
  | other content =>
    simp only [Objects.contains] at failed
    split at failed
    · cases failed
    · cases failed
      exact Raised.noConfusion

theorem iter_error {value : Yaml} {raised : Raised} (failed : objects.iter value = .error raised) :
    raised ≠ .workflowSyntaxError := by
  cases value with
  | str text => cases failed
  | map entries => cases failed
  | seq items => cases failed
  | other content =>
    simp only [Objects.iter] at failed
    split at failed
    · cases failed
    · cases failed
      exact Raised.noConfusion

theorem item_error {value : Yaml} {key : String} {raised : Raised} (failed : item key value = .error raised) :
    raised ≠ .workflowSyntaxError := by
  cases value with
  | map entries =>
    simp only [item] at failed
    split at failed
    · cases failed
    · cases failed
      exact Raised.noConfusion
  | str text => cases failed; exact Raised.noConfusion
  | seq items => cases failed; exact Raised.noConfusion
  | other content => cases failed; exact Raised.noConfusion

/-- What has no type fails when it is asked for its type. -/
theorem item_absent {value : Yaml} {key : String} (absent : objects.contains key value = .ok false) :
    ∃ raised, item key value = .error raised ∧ raised ≠ .workflowSyntaxError := by
  cases found : item key value with
  | error raised => exact ⟨raised,rfl,item_error found⟩
  | ok result =>
    cases value with
    | map fields =>
      simp only [Objects.contains,Except.ok.injEq] at absent
      have none : (Yaml.map fields).get key = none := by
        rw [← Option.not_isSome_iff_eq_none,get_isSome,absent]
        exact Bool.false_ne_true
      simp [item,none] at found
    | str text => cases found
    | seq items => cases found
    | other content => cases found

theorem names_none {key value tasks : Yaml} {rest : List (Yaml × Yaml)} {members : List Yaml}
    (typed : objects.contains "type" value = .ok true) (found : item "tasks" value = .ok tasks)
    (iterated : objects.iter tasks = .ok members) (refused : objects.names (.map ((key,value)::rest)) = none) :
    members.mapM text = none := by
  cases value with
  | map fields =>
    simp only [Objects.contains,Except.ok.injEq] at typed
    rw [← get_isSome] at typed
    obtain ⟨kind,present⟩ := Option.isSome_iff_exists.mp typed
    simp only [item] at found
    cases listed : (Yaml.map fields).get "tasks" with
    | none => simp [listed] at found
    | some value =>
      rw [listed] at found
      cases found
      simpa only [Objects.names,present,listed,iterated,Except.toOption,Option.bind_eq_bind,Option.bind_some] using refused
  | str text => cases found
  | seq items => cases found
  | other content => cases found

/-- An element that is neither a string nor a mapping is a syntax error; a mapping that the parser
does not take is another error. -/
theorem parseTask_raises (refused : objects.names entry = none) :
    ∃ raised after, (parseTask objects job isHook entry).run draft = .error raised after ∧
      (raised = .workflowSyntaxError ↔ foreign entry = true) := by
  cases entry with
  | str name => cases refused
  | seq items => exact ⟨_,_,rfl,by simp [foreign]⟩
  | other content => exact ⟨_,_,rfl,by simp [foreign]⟩
  | map entries =>
    simp only [foreign,Bool.false_eq_true,iff_false]
    cases entries with
    | nil => exact ⟨.indexError,_,rfl,Raised.noConfusion⟩
    | cons pair rest =>
      obtain ⟨key,value⟩ := pair
      unfold parseTask
      cases typed : objects.contains "type" value with
      | error raised =>
        refine ⟨raised,draft,bind_raises (attempt_error typed),?_⟩
        exact contains_error typed
      | ok present =>
        rw [bind_run (attempt_ok typed)]
        cases present with
        | false =>
          obtain ⟨raised,missing,other⟩ := item_absent typed
          exact ⟨raised,draft,bind_raises (attempt_error missing),other⟩
        | true =>
          simp only [Bool.not_true,Bool.false_eq_true,if_false]
          cases found : item "tasks" value with
          | error raised => exact ⟨raised,draft,bind_raises (attempt_error rfl),item_error found⟩
          | ok tasks =>
            rw [bind_run (attempt_ok rfl)]
            cases iterated : objects.iter tasks with
            | error raised => exact ⟨raised,draft,bind_raises (attempt_error rfl),iter_error iterated⟩
            | ok members =>
              rw [bind_run (attempt_ok rfl)]
              obtain ⟨after,failed⟩ := @newTasks_fails job isHook draft _
                (names_none typed found iterated refused)
              exact ⟨.typeError,after,bind_raises failed,Raised.noConfusion⟩

end tasks

section grammar
variable {objects : Objects} {job : Job} {isHook : Bool} {draft : Draft} {tasks before rest : List Yaml} {entry bad : Yaml}

theorem foreign_refused (alien : foreign entry = true) : objects.names entry = none := by
  cases entry with
  | str name => cases alien
  | map entries => cases alien
  | seq items => rfl
  | other content => rfl

theorem mapM_text_isSome {members : List Yaml} (texts : members.all (fun name => (text name).isSome) = true) :
    (members.mapM text).isSome = true := by
  induction members with
  | nil => rfl
  | cons member rest ih =>
    simp only [List.all_cons,Bool.and_eq_true] at texts
    obtain ⟨name,named⟩ := Option.isSome_iff_exists.mp texts.1
    obtain ⟨others,tail⟩ := Option.isSome_iff_exists.mp (ih texts.2)
    simp [List.mapM_cons,named,tail]

/-- The parser takes what follows the grammar. -/
theorem grammatical_named (right : grammatical entry = true) : (objects.names entry).isSome = true := by
  unfold grammatical at right
  split at right
  · rfl
  · rename_i fields
    simp only [Bool.and_eq_true] at right
    obtain ⟨typed,listed⟩ := right
    obtain ⟨kind,present⟩ : ∃ kind, (Yaml.map fields).get "type" = some kind := by
      cases typing : (Yaml.map fields).get "type" with
      | none => simp [typing] at typed
      | some kind => exact ⟨kind,rfl⟩
    split at listed
    · rename_i names found
      simpa [Objects.names,present,found,Objects.iter,Except.toOption] using mapM_text_isSome listed
    · cases listed
  · cases right

theorem grammatical_native (right : grammatical entry = true) : foreign entry = false := by
  cases entry with
  | str name => rfl
  | map entries => rfl
  | seq items => cases right
  | other content => cases right

theorem parseFlatTasks_raises (taken : ∀ task ∈ before, (objects.names task).isSome = true)
    (refused : objects.names bad = none) :
    ∃ raised after, (parseFlatTasks objects job isHook (before ++ bad::rest)).run draft = .error raised after ∧
      (raised = .workflowSyntaxError ↔ foreign bad = true) := by
  induction before generalizing draft with
  | nil =>
    obtain ⟨raised,after,failed,same⟩ := @parseTask_raises _ job isHook draft _ refused
    exact ⟨raised,after,bind_raises failed,same⟩
  | cons task others ih =>
    obtain ⟨names,named⟩ := Option.isSome_iff_exists.mp (taken task List.mem_cons_self)
    obtain ⟨raised,after,failed,same⟩ := @ih (draft.taking job isHook task names)
      (fun other among => taken other (List.mem_cons_of_mem _ among))
    refine ⟨raised,after,?_,same⟩
    rw [List.cons_append]
    unfold parseFlatTasks
    rw [bind_run (parseTask_run named)]
    exact bind_raises failed

theorem parseFlatTasks_returns (taken : ∀ task ∈ tasks, (objects.names task).isSome = true) :
    ∃ canvas after, (parseFlatTasks objects job isHook tasks).run draft = .ok canvas after := by
  induction tasks generalizing draft with
  | nil => exact ⟨[],draft,rfl⟩
  | cons task others ih =>
    obtain ⟨names,named⟩ := Option.isSome_iff_exists.mp (taken task List.mem_cons_self)
    obtain ⟨canvas,after,done⟩ := @ih (draft.taking job isHook task names)
      (fun other among => taken other (List.mem_cons_of_mem _ among))
    refine ⟨elementOf job draft.uuids names task::canvas,after,?_⟩
    unfold parseFlatTasks
    rw [bind_run (parseTask_run named),bind_run done]
    rfl

/-- The first element that the parser does not take. -/
theorem first_refused (some : ¬∀ task ∈ tasks, (objects.names task).isSome = true) :
    ∃ before bad rest, tasks = before ++ bad::rest ∧ objects.names bad = none ∧
      ∀ task ∈ before, (objects.names task).isSome = true := by
  cases search : tasks.find? (fun task => (objects.names task).isNone) with
  | none =>
    refine absurd (fun task among => ?_) some
    simpa [Option.isSome_iff_ne_none] using List.find?_eq_none.mp search task among
  | some bad =>
    obtain ⟨refused,before,rest,same,taken⟩ := List.find?_eq_some_iff_append.mp search
    refine ⟨before,bad,rest,same,Option.isNone_iff_eq_none.mp refused,fun task among => ?_⟩
    simpa [Option.isSome_iff_ne_none] using taken task among

theorem parseFlatTasks_returns_iff : (∃ canvas after, (parseFlatTasks objects job isHook tasks).run draft = .ok canvas after) ↔
    ∀ task ∈ tasks, (objects.names task).isSome = true := by
  constructor
  · intro returned
    by_contra refused
    obtain ⟨canvas,after,done⟩ := returned
    obtain ⟨before,bad,rest,rfl,unnamed,taken⟩ := first_refused refused
    obtain ⟨raised,last,failed,_⟩ := @parseFlatTasks_raises _ job isHook draft _ rest _
      taken unnamed
    cases failed.symm.trans done
  · exact parseFlatTasks_returns

/-- The parser returns for the lists of the grammar, and raises its own error for the others. -/
def GrammarEnforced (objects : Objects) (job : Job) (isHook : Bool) (draft : Draft) (tasks : List Yaml) : Prop :=
  ((∃ canvas after, (parseFlatTasks objects job isHook tasks).run draft = .ok canvas after) ↔
    ∀ task ∈ tasks, grammatical task = true) ∧
  ((¬∀ task ∈ tasks, grammatical task = true) →
    ∃ after, (parseFlatTasks objects job isHook tasks).run draft = .error .workflowSyntaxError after)

/-- The grammar is enforced on the lists that follow it, and on those where an element that is
neither a string nor a mapping comes before every mapping that the parser does not take. -/
theorem grammar_enforced_iff : GrammarEnforced objects job isHook draft tasks ↔
    (∀ task ∈ tasks, grammatical task = true) ∨
    ∃ before bad rest, tasks = before ++ bad::rest ∧ foreign bad = true ∧
      ∀ task ∈ before, (objects.names task).isSome = true := by
  constructor
  · intro enforced
    by_cases right : ∀ task ∈ tasks, grammatical task = true
    · exact .inl right
    · apply Or.inr
      obtain ⟨after,failed⟩ := enforced.2 right
      have refused : ¬∀ task ∈ tasks, (objects.names task).isSome = true := by
        intro taken
        obtain ⟨canvas,last,done⟩ := @parseFlatTasks_returns _ job isHook draft _ taken
        cases done.symm.trans failed
      obtain ⟨before,bad,rest,rfl,unnamed,taken⟩ := first_refused refused
      obtain ⟨raised,last,raises,own⟩ := @parseFlatTasks_raises _ job isHook draft _ rest _
        taken unnamed
      obtain ⟨rfl,rfl⟩ : Raised.workflowSyntaxError = raised ∧ after = last := by
        simpa using failed.symm.trans raises
      exact ⟨before,bad,rest,rfl,own.mp rfl,taken⟩
  · intro condition
    rcases condition with right | ⟨before,bad,rest,rfl,alien,taken⟩
    · refine ⟨⟨fun _ => right,fun _ => ?_⟩,fun wrong => absurd right wrong⟩
      exact parseFlatTasks_returns fun task among => grammatical_named (right task among)
    · obtain ⟨raised,last,raises,own⟩ := @parseFlatTasks_raises _ job isHook draft _ rest _
        taken (foreign_refused alien)
      obtain rfl := own.mpr alien
      refine ⟨⟨fun returned => ?_,fun right => ?_⟩,fun _ => ⟨last,raises⟩⟩
      · obtain ⟨canvas,after,done⟩ := returned
        cases done.symm.trans raises
      · have native := grammatical_native (right bad (List.mem_append_right _ List.mem_cons_self))
        cases alien.symm.trans native

end grammar

section counterexample

/-- A builder of no particular workflow, and nothing written yet. -/
def plainJob : Job := ⟨0,.null,⟨none,"space00000"⟩,.str "workflow",.map [],none⟩
def emptyDraft : Draft := ⟨none,[],[],0,some []⟩
def noObjects : Objects := ⟨fun _ => false,fun _ => none⟩

/-- A named group, as the definition file writes it. -/
def groupEntry (name : String) (fields : List (Yaml × Yaml)) : Yaml := .map [(.str name,.map fields)]

/-- A group of another type is taken. -/
theorem chord_taken : ¬GrammarEnforced noObjects plainJob false emptyDraft
    [groupEntry "GROUP_1" [(.str "type",.str "chord"),(.str "tasks",.seq [.str "B"])]] := by
  intro enforced
  obtain ⟨canvas,after,done⟩ := @parseFlatTasks_returns noObjects plainJob false emptyDraft
    [groupEntry "GROUP_1" [(.str "type",.str "chord"),(.str "tasks",.seq [.str "B"])]]
    (by decide)
  have right := enforced.1.mp ⟨canvas,after,done⟩ _ List.mem_cons_self
  cases right

end counterexample

end FinmarsWorkflow.Build
