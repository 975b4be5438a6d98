import FinmarsWorkflow.RunRequest
import FinmarsWorkflow.Engine

/-! The rows that workflows leave behind, and running them once more.
Rows come from requests, schedules, managers, relaunches and nested steps. Each
keeps its user code, which `relaunch` hands to `execute_workflow` again. -/
namespace FinmarsWorkflow.Tenant
open Python

/-- Python truth of a value of a definition. -/
def Yaml.truthy : Yaml → Bool
  | .str text => text != ""
  | .map entries => !entries.isEmpty
  | .seq items => !items.isEmpty
  | .other text => !(["None","False","0","0.0","-0.0"].contains text)

/-- `definition["workflow"][key]` -/
def Yaml.setting (key : String) (definition : Definition) : Option Yaml := (definition.get "workflow").bind (Yaml.get key)

def isManager (definition : Definition) : Bool := (definition.setting "is_manager").any Yaml.truthy

/-- A workflow row, with the code of its space and what was looked up to create it. -/
structure Row where
  userCode : String
  space : String
  isManager : Bool
  parent : Option Nat
  /-- the key of the definition -/
  key : String
  definition : Definition
  /-- the user code of the template that is searched for in the space -/
  templateUserCode : String

/-- The process that creates a row: what it has loaded before, what its two lookups
find, how it reads `int(version)` of a definition and which templates there are. -/
structure Process where
  history : List Registration
  first : Finding
  second : Finding
  version : Definition → Except String Int
  template : String → String → Bool

def Process.session (process : Process) : Session := ⟨(replay process.history).workflows,[]⟩

inductive Creation where
  /-- `run_workflow` -/
  | request (space userCode : String)
  /-- `execute`, with the arguments that saving the schedule has stored -/
  | schedule (space workflowUserCode : String)
  /-- `run_new_workflow` of a row -/
  | runNewWorkflow (manager : Nat) (userCode : String)
  | relaunch (row : Nat)
  /-- `execute_workflow_step` for a task of a row -/
  | nested (parent : Nat) (name : String)

/-- The row that `execute_workflow` saves in a space. -/
def launched (space : String) (launch : Launch) : Row :=
  ⟨launch.userCode,space,isManager launch.definition,none,launch.userCode,launch.definition,launch.templateUserCode⟩

/-- `run_new_workflow` -/
def runNewWorkflow (process : Process) (self : Row) (userCode : String) : Except String Row :=
  if userCode = "" then .error "User code is required."
  else if !self.isManager then .error "Workflow is not manager. Can't run new workflow."
  else match getByUserCode process.first (self.space ++ "." ++ userCode) process.session with
    | (.error error,_) => .error error
    | (.ok definition,after) =>
      if isManager definition then .error "New Workflow is manager. Manager can't execute another manager"
      else (executeWorkflow process.second (self.space ++ "." ++ userCode) after).1.map (launched self.space)

/-- The nested branch of `execute_workflow_step`, up to the row of the child. -/
def nestedRow (process : Process) (parentId : Nat) (parent : Row) (name : String) : Except String Row := do
  let target := targetWorkflowUserCode name
  let key := parent.space ++ "." ++ target
  let definition ← (getByUserCode process.first key process.session).1
  if (← process.version definition) = 2 then
    if process.template parent.space target then
      .ok ⟨target,parent.space,false,some parentId,key,definition,target⟩
    else .error "WorkflowTemplate matching query does not exist."
  else .error "a step of version 1"

def create (process : Process) (rows : List Row) : Creation → Except String Row
  | .request space userCode =>
    (runWorkflow process.first process.second space userCode process.session).1.map (launched space)
  | .schedule space workflowUserCode =>
    (executeWorkflow process.first (space ++ "." ++ workflowUserCode) process.session).1.map (launched space)
  | .runNewWorkflow manager userCode => match rows[manager]? with
    | some row => runNewWorkflow process row userCode
    | none => .error "Workflow matching query does not exist."
  | .relaunch id => match rows[id]? with
    | some row => (executeWorkflow process.first row.userCode process.session).1.map (launched row.space)
    | none => .error "Workflow matching query does not exist."
  | .nested parent name => match rows[parent]? with
    | some row => nestedRow process parent row name
    | none => .error "Workflow matching query does not exist."

/-- The rows after some attempts to create one. -/
def created (steps : List (Process × Creation)) : List Row :=
  steps.foldl (fun rows step => rows ++ (create step.1 rows step.2).toOption.toList) []

/-- The row has the code of its space and of its definition, and a relaunch looks up
what the run has looked up, whatever is loaded by then. -/
def Repeats (row : Row) : Prop :=
  (∃ code, row.definition.setting "user_code" = some (.str code) ∧ row.userCode = row.space ++ "." ++ code) ∧
    ∀ finding session, (executeWorkflow finding row.userCode session).1 =
      (getByUserCode finding row.key session).1.map (fun definition => ⟨row.userCode,definition,row.templateUserCode⟩)

/-- No space that a process meets has a dot in its code. -/
def Process.Plain (process : Process) : Prop :=
  Tenant.Plain process.history ∧ process.first.Plain ∧ process.second.Plain

/-- The space that a request or a schedule names. -/
def Creation.Plain : Creation → Prop
  | .request space _ | .schedule space _ => Without '.' space
  | _ => True

/-- How a row was made: from a definition of some space, launched under its own user
code or nested under the code of its space. -/
structure Made (row : Row) : Prop where
  space : Without '.' row.space
  owned : ∃ owner, Without '.' owner ∧ Owned owner (row.key,row.definition)
  launched : row.parent = none → row.key = row.userCode ∧
    row.templateUserCode = join '.' (split '.' row.userCode).tail
  nested : row.parent ≠ none → row.key = row.space ++ "." ++ row.userCode

section lookups
variable {finding : Finding} {key : String} {session : Session} {definition : Definition}

private theorem keyed_lookup (keyed : Keyed session.workflows) (found : session.workflows.lookup key = some definition) :
    ∃ owner, Without '.' owner ∧ Owned owner (key,definition) := by
  obtain ⟨front,back,same,_⟩ := List.lookup_eq_some_iff.mp found
  exact keyed.owned _ (by simp [same])

private theorem registered_keyed (plain : finding.Plain) (keyed : Keyed session.workflows) (space : Option String) :
    Keyed (registerWorkflows finding.site space session).2.workflows := by
  rw [registerWorkflows_loads ⟨finding.site,space⟩]
  refine loaded_keyed (fun load member => ?_) keyed
  unfold Registration.loads at member
  split at member
  · split at member
    · exact loads_plain plain _ load member
    · cases member
  · exact loads_plain plain _ load member

/-- What a lookup finds belongs to some space, and what it loads is keyed. -/
theorem getByUserCode_owned (key : String) (plain : finding.Plain) (keyed : Keyed session.workflows) :
    Keyed (getByUserCode finding key session).2.workflows ∧
    ∀ definition, (getByUserCode finding key session).1 = .ok definition →
      ∃ owner, Without '.' owner ∧ Owned owner (key,definition) := by
  have registered := registered_keyed plain keyed (some (leadingSpace key))
  unfold getByUserCode
  split
  next found =>
    refine ⟨keyed,fun definition same => ?_⟩
    cases same
    exact keyed_lookup keyed found
  next =>
    split
    · exact ⟨keyed,fun _ same => by cases same⟩
    · split
      · exact ⟨keyed,fun _ same => by cases same⟩
      · split
        next after failed =>
          rw [failed] at registered
          exact ⟨registered,fun _ same => by cases same⟩
        next after done =>
          rw [done] at registered
          split
          next found =>
            refine ⟨registered,fun definition same => ?_⟩
            cases same
            exact keyed_lookup registered found
          next => exact ⟨registered,fun _ same => by cases same⟩

theorem executeWorkflow_eq (finding : Finding) (userCode : String) (session : Session) :
    (executeWorkflow finding userCode session).1 = (getByUserCode finding userCode session).1.map
      (fun definition => ⟨userCode,definition,join '.' (split '.' userCode).tail⟩) := by
  unfold executeWorkflow
  split
  next found => rw [found]; rfl
  next found => rw [found]; rfl

/-- A lookup that finds no files returns what is loaded already. -/
theorem nothingFound_lookup (found : (getByUserCode nothingFound key session).1 = .ok definition) :
    session.workflows.lookup key = some definition := by
  have unchanged : (registerWorkflows nothingFound.site (some (leadingSpace key)) session).2.workflows =
      session.workflows := by
    rw [registerWorkflows_loads ⟨nothingFound.site,some (leadingSpace key)⟩]
    unfold Registration.loads
    split <;> rfl
  unfold getByUserCode at found
  split at found
  next stored =>
    cases found
    exact stored
  next =>
    split at found
    · cases found
    · split at found
      · cases found
      · split at found
        · cases found
        next after done =>
          rw [done] at unchanged
          split at found
          next stored =>
            cases found
            rw [← unchanged]
            exact stored
          next => cases found

end lookups

section creations
variable {process : Process} {rows : List Row} {row : Row}

/-- What `execute_workflow` launches in a space. -/
private theorem launched_made {finding : Finding} {session : Session} {space userCode : String}
    (dotless : Without '.' space) (plain : finding.Plain) (keyed : Keyed session.workflows)
    (made : (executeWorkflow finding userCode session).1.map (launched space) = .ok row) : Made row := by
  rw [executeWorkflow_eq] at made
  cases found : (getByUserCode finding userCode session).1 with
  | error error =>
    rw [found] at made
    cases made
  | ok definition =>
    rw [found] at made
    cases made
    exact ⟨dotless,(getByUserCode_owned _ plain keyed).2 definition found,fun _ => ⟨rfl,rfl⟩,fun nested => absurd rfl nested⟩

private theorem session_keyed (plain : process.Plain) : Keyed process.session.workflows := replay_keyed plain.1

private theorem runWorkflow_made {space userCode : String} (dotless : Without '.' space) (plain : process.Plain)
    (made : (runWorkflow process.first process.second space userCode process.session).1.map (launched space) =
      .ok row) : Made row := by
  have keyed := (getByUserCode_owned (qualifiedCode space userCode) plain.2.1 (session_keyed plain)).1
  unfold runWorkflow at made
  split at made
  next => cases made
  next after found =>
    rw [found] at keyed
    exact launched_made dotless plain.2.2 keyed made

private theorem runNewWorkflow_made {self : Row} {userCode : String} (dotless : Without '.' self.space)
    (plain : process.Plain) (made : runNewWorkflow process self userCode = .ok row) : Made row := by
  have keyed := (getByUserCode_owned (self.space ++ "." ++ userCode) plain.2.1 (session_keyed plain)).1
  unfold runNewWorkflow at made
  split at made
  · cases made
  · split at made
    · cases made
    · split at made
      next => cases made
      next definition after found =>
        rw [found] at keyed
        split at made
        · cases made
        · exact launched_made dotless plain.2.2 keyed made

private theorem nestedRow_made {id : Nat} {parent : Row} {name : String} (dotless : Without '.' parent.space)
    (plain : process.Plain) (made : nestedRow process id parent name = .ok row) : Made row := by
  have owned := (getByUserCode_owned (parent.space ++ "." ++ targetWorkflowUserCode name) plain.2.1
    (session_keyed plain)).2
  unfold nestedRow at made
  cases found : (getByUserCode process.first (parent.space ++ "." ++ targetWorkflowUserCode name) process.session).1 with
  | error error => simp [found,bind,Except.bind] at made
  | ok definition =>
    cases read : process.version definition with
    | error error => simp [found,read,bind,Except.bind] at made
    | ok version =>
      simp only [found,read,bind,Except.bind] at made
      split at made
      · split at made
        · cases made
          exact ⟨dotless,owned definition found,fun same => absurd same (Option.some_ne_none id),fun _ => rfl⟩
        · cases made
      · cases made

private theorem nestedRow_parent {id : Nat} {parent : Row} {name : String}
    (made : nestedRow process id parent name = .ok row) : row.parent = some id := by
  unfold nestedRow at made
  cases found : (getByUserCode process.first (parent.space ++ "." ++ targetWorkflowUserCode name) process.session).1 with
  | error error => simp [found,bind,Except.bind] at made
  | ok definition =>
    cases read : process.version definition with
    | error error => simp [found,read,bind,Except.bind] at made
    | ok version =>
      simp only [found,read,bind,Except.bind] at made
      split at made
      · split at made
        · cases made
          rfl
        · cases made
      · cases made

/-- One more row is made as the others are. -/
theorem create_made (plain : process.Plain) {creation : Creation} (dotless : creation.Plain)
    (others : ∀ other ∈ rows, Made other) (made : create process rows creation = .ok row) : Made row := by
  have stored {id : Nat} {other : Row} (found : rows[id]? = some other) : Made other :=
    others other (List.mem_of_getElem? found)
  cases creation with
  | request space userCode => exact runWorkflow_made dotless plain made
  | schedule space userCode => exact launched_made dotless plain.2.1 (session_keyed plain) made
  | runNewWorkflow manager userCode =>
    simp only [create] at made
    split at made
    next self found => exact runNewWorkflow_made (stored found).space plain made
    next => cases made
  | relaunch id =>
    simp only [create] at made
    split at made
    next self found => exact launched_made (stored found).space plain.2.1 (session_keyed plain) made
    next => cases made
  | nested parent name =>
    simp only [create] at made
    split at made
    next self found => exact nestedRow_made (stored found).space plain made
    next => cases made

theorem created_made {steps : List (Process × Creation)} (plain : ∀ step ∈ steps, step.1.Plain ∧ step.2.Plain) :
    ∀ row ∈ created steps, Made row := by
  induction steps using List.reverseRecOn with
  | nil => exact fun _ member => absurd member List.not_mem_nil
  | append_singleton front step ih =>
    have others := ih (fun other member => plain other (List.mem_append_left _ member))
    have here := plain step (List.mem_append_right _ (List.mem_singleton.mpr rfl))
    intro row member
    rw [created,List.foldl_append,List.foldl_cons,List.foldl_nil] at member
    rcases List.mem_append.mp member with earlier | now
    · exact others row earlier
    · cases made : create step.1 (created front) step.2 with
      | error error =>
        unfold created at made
        rw [made] at now
        cases now
      | ok fresh =>
        have last := create_made here.1 here.2 others made
        unfold created at made
        rw [made] at now
        cases List.mem_singleton.mp now
        exact last

end creations

section repeats
variable {row : Row}

/-- A relaunch that looks up what the run has looked up uses the same key. -/
theorem repeats_key (repeats : Repeats row) : row.key = row.userCode := by
  have again := repeats.2 nothingFound ⟨[(row.key,row.definition)],[]⟩
  have first : (getByUserCode nothingFound row.key ⟨[(row.key,row.definition)],[]⟩).1 = .ok row.definition := by
    simp [getByUserCode]
  rw [first,executeWorkflow_eq] at again
  cases found : (getByUserCode nothingFound row.userCode ⟨[(row.key,row.definition)],[]⟩).1 with
  | error error =>
    rw [found] at again
    cases again
  | ok definition =>
    have stored := nothingFound_lookup found
    by_contra differs
    have other : (row.userCode == row.key) = false := by simpa using Ne.symm differs
    simp [List.lookup_cons,other] at stored

theorem Made.repeats_iff (made : Made row) :
    Repeats row ↔ row.parent = none ∧ startsWith (row.space ++ ".") row.userCode = true := by
  constructor
  · intro repeats
    obtain ⟨code,_,named⟩ := repeats.1
    refine ⟨?_,startsWith_iff.mpr ⟨code,named⟩⟩
    by_contra nested
    have lengths := congrArg String.length ((made.nested nested).symm.trans (repeats_key repeats))
    simp only [String.length_append] at lengths
    have dot : ".".length = 1 := rfl
    omega
  · intro holds
    obtain ⟨own,starts⟩ := holds
    obtain ⟨key,template⟩ := made.launched own
    obtain ⟨owner,dotless,workflow,code,there,space,user,names⟩ := made.owned
    obtain ⟨rest,named⟩ := startsWith_iff.mp starts
    have same : row.space ++ String.singleton '.' ++ rest = owner ++ String.singleton '.' ++ code :=
      (named.symm.trans key.symm).trans names
    obtain ⟨rfl,rfl⟩ := append_separator_inj made.space dotless same
    refine ⟨⟨rest,?_,named⟩,fun finding session => ?_⟩
    · rw [Yaml.setting,there]
      exact user
    · rw [executeWorkflow_eq,key,template]

end repeats

/-- The codes that a creation hands to `execute_workflow` begin with that of the space. -/
def Creation.Owns (rows : List Row) : Creation → Prop
  | .request space userCode => contains space userCode = false ∨ startsWith (space ++ ".") userCode = true
  | .schedule _ _ | .runNewWorkflow _ _ => True
  | .relaunch id => ∃ row, rows[id]? = some row ∧ startsWith (row.space ++ ".") row.userCode = true
  | .nested _ _ => False

section owns
variable {process : Process} {rows : List Row} {row : Row}

private theorem launched_row {finding : Finding} {session : Session} {space userCode : String}
    (made : (executeWorkflow finding userCode session).1.map (launched space) = .ok row) :
    row.userCode = userCode ∧ row.space = space ∧ row.parent = none := by
  rw [executeWorkflow_eq] at made
  cases found : (getByUserCode finding userCode session).1 with
  | error error =>
    rw [found] at made
    cases made
  | ok definition =>
    rw [found] at made
    cases made
    exact ⟨rfl,rfl,rfl⟩

private theorem own_code (space rest : String) : startsWith (space ++ ".") (space ++ "." ++ rest) = true :=
  startsWith_iff.mpr ⟨rest,rfl⟩

private theorem qualified_starts (space userCode : String) :
    startsWith (space ++ ".") (qualifiedCode space userCode) = true ↔
      contains space userCode = false ∨ startsWith (space ++ ".") userCode = true := by
  unfold qualifiedCode
  cases inside : contains space userCode with
  | false => simpa using own_code space userCode
  | true => simp

/-- A creation owns its code exactly if its row is not nested and named after its space. -/
theorem create_owns (creation : Creation) (made : create process rows creation = .ok row) :
    (row.parent = none ∧ startsWith (row.space ++ ".") row.userCode = true) ↔ creation.Owns rows := by
  cases creation with
  | request space userCode =>
    simp only [create,runWorkflow] at made
    split at made
    next => cases made
    next =>
      obtain ⟨code,own,parent⟩ := launched_row made
      rw [code,own,qualified_starts,and_iff_right parent]
      rfl
  | schedule space userCode =>
    obtain ⟨code,own,parent⟩ := launched_row made
    rw [code,own,and_iff_right parent]
    exact iff_of_true (own_code space userCode) trivial
  | runNewWorkflow manager userCode =>
    simp only [create] at made
    split at made
    next self found =>
      unfold runNewWorkflow at made
      split at made
      · cases made
      · split at made
        · cases made
        · split at made
          next => cases made
          next =>
            split at made
            · cases made
            · obtain ⟨code,own,parent⟩ := launched_row made
              rw [code,own,and_iff_right parent]
              exact iff_of_true (own_code self.space userCode) trivial
    next => cases made
  | relaunch id =>
    simp only [create] at made
    split at made
    next self found =>
      obtain ⟨code,own,parent⟩ := launched_row made
      rw [code,own,and_iff_right parent]
      constructor
      · intro starts
        exact ⟨self,found,starts⟩
      · intro owns
        obtain ⟨other,there,starts⟩ := owns
        cases found.symm.trans there
        exact starts
    next => cases made
  | nested parent name =>
    simp only [create] at made
    split at made
    next self found =>
      have child := nestedRow_parent made
      rw [child]
      exact iff_of_false (fun holds => absurd holds.1 (Option.some_ne_none parent)) id
    next => cases made

end owns

/-- In every history of spaces without dots in their codes, the row of one more creation
repeats its run exactly if the creation hands on a code of its space: never in the nested
branch, and for a request if it does not mention the space or begins with it. -/
theorem relaunch_repeats_iff (history : List (Process × Creation)) (process : Process) (creation : Creation)
    (plain : ∀ step ∈ history ++ [(process,creation)], step.1.Plain ∧ step.2.Plain) {row : Row}
    (made : create process (created history) creation = .ok row) :
    Repeats row ↔ creation.Owns (created history) := by
  have earlier := created_made (fun step member => plain step (List.mem_append_left _ member))
  have here := plain _ (List.mem_append_right history (List.mem_singleton.mpr rfl))
  rw [(create_made here.1 here.2 earlier made).repeats_iff]
  exact create_owns creation made

/-- A process that has loaded one definition, of version 2 and with a template. -/
def loadedProcess (space userCode : String) : Process :=
  ⟨[⟨oneTenant space userCode,none⟩],nothingFound,nothingFound,fun _ => .ok 2,fun _ _ => true⟩

theorem loadedProcess_plain {space : String} (dotless : Without '.' space) (userCode : String) :
    (loadedProcess space userCode).Plain :=
  ⟨oneTenant_plain dotless userCode,nothingFound_plain,nothingFound_plain⟩

/-- A child of the space `space0` has the code of its definition alone, which a relaunch
does not find. -/
theorem nested_not_repeated : ∃ row,
    create (loadedProcess "space0" "a.b:run")
      (created [(loadedProcess "space0" "a.b:run",.request "space0" "a.b:run")]) (.nested 0 "a.b:run") = .ok row ∧
    row.space = "space0" ∧ row.definition.setting "user_code" = some (.str "a.b:run") ∧
    row.userCode ≠ "space0" ++ "." ++ "a.b:run" ∧ ¬ Repeats row := by
  refine ⟨⟨"a.b:run","space0",false,some 0,"space0.a.b:run",tenantDefinition "space0" "a.b:run","a.b:run"⟩,
    rfl,rfl,rfl,by decide,fun repeats => ?_⟩
  exact absurd (repeats_key repeats) (by decide)

/-- A request, a child of its row, and the start of the same definition by a schedule. -/
def threeCreations : List (Process × Creation) :=
  [.request "space0" "a.b:run",.nested 0 "a.b:run",.schedule "space0" "a.b:run"].map
    (fun creation => (loadedProcess "space0" "a.b:run",creation))

/-- The row of the request is launched again, after the others. -/
theorem relaunch_repeated : (created threeCreations).length = 3 ∧ ∃ row,
    create (loadedProcess "space0" "a.b:run") (created threeCreations) (.relaunch 0) = .ok row ∧ Repeats row := by
  have dotless : Without '.' "space0" := by decide
  have plain : ∀ step ∈ threeCreations ++ [(loadedProcess "space0" "a.b:run",Creation.relaunch 0)],
      step.1.Plain ∧ step.2.Plain := by
    intro step member
    have loaded : (loadedProcess "space0" "a.b:run").Plain := loadedProcess_plain dotless "a.b:run"
    simp only [threeCreations,List.map_cons,List.map_nil,List.cons_append,List.nil_append,List.mem_cons,List.not_mem_nil,
      or_false] at member
    rcases member with rfl | rfl | rfl | rfl
    · exact ⟨loaded,dotless⟩
    · exact ⟨loaded,trivial⟩
    · exact ⟨loaded,dotless⟩
    · exact ⟨loaded,trivial⟩
  exact ⟨rfl,_,rfl,(relaunch_repeats_iff threeCreations (loadedProcess "space0" "a.b:run") (.relaunch 0) plain
    rfl).mpr ⟨_,rfl,by decide⟩⟩

end FinmarsWorkflow.Tenant
