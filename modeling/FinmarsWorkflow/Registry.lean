import Mathlib.Data.List.Nodup
import Mathlib.Order.Defs.LinearOrder
import FinmarsWorkflow.Python.Dict
import FinmarsWorkflow.Python.Text

/-! The definitions that one process keeps for all tenants.
`SystemWorkflowManager` loads the definition files of one space after the other
into a dictionary shared by all of them, under keys that begin with the code of
their space. -/
namespace FinmarsWorkflow.Tenant
open Python

/-- What a definition file holds: strings and mappings, and anything else by its text. -/
inductive Yaml where
  | str (text : String)
  | map (entries : List (Yaml × Yaml))
  | seq (items : List Yaml)
  | other (text : String)

namespace Yaml

def isStr (key : String) : Yaml → Bool
  | .str text => text == key
  | _ => false

/-- `value[key]`, which fails unless the value is a mapping with that key. -/
def get (key : String) : Yaml → Option Yaml
  | .map entries => (entries.find? (fun entry => entry.1.isStr key)).map Prod.snd
  | _ => none

def setEntry (key : String) (new : Yaml) : List (Yaml × Yaml) → List (Yaml × Yaml)
  | [] => [(.str key,new)]
  | entry::rest => if entry.1.isStr key then (entry.1,new)::rest else entry::setEntry key new rest

/-- `value[key] = new` -/
def set (value : Yaml) (key : String) (new : Yaml) : Yaml := match value with
  | .map entries => .map (setEntry key new entries)
  | unchanged => unchanged

end Yaml

structure Space where
  realmCode : Option String
  spaceCode : String

/-- A file that the pattern of definition files matches; none if it cannot be read or parsed. -/
structure WorkflowFile where
  suffix : String
  content : Option Yaml

abbrev Definition := Yaml

/-- The definition of a parsed file, with the codes of its space, and its key. -/
def configure (space : Space) (config : Yaml) : Option (String × Definition) := do
  let workflow ← config.get "workflow"
  let userCode ← workflow.get "user_code"
  let realm := match space.realmCode with
    | some code => .str code
    | none => .other "None"
  let owned := (workflow.set "realm_code" realm).set "space_code" (.str space.spaceCode)
  match userCode with
  | .str code => some (space.spaceCode ++ "." ++ code,config.set "workflow" owned)
  | _ => none

/-- One file of `load_workflows_for_schema`. A file that fails is skipped. -/
def loadFile (space : Space) (workflows : List (String × Definition)) (file : WorkflowFile) :
    List (String × Definition) :=
  if file.suffix ∈ [".yaml",".yml",".json"] then
    match file.content.bind (configure space) with
    | some (key,definition) => Dict.assign key definition workflows
    | none => workflows
  else workflows

/-- The files that were found for the first space of a schema. -/
structure Load where
  space : Space
  files : List WorkflowFile

/-- `load_workflows_for_schema` -/
def loadWorkflowsForSchema (load : Load) (workflows : List (String × Definition)) : List (String × Definition) :=
  load.files.foldl (loadFile load.space) workflows

/-- What a call of `register_workflows` finds: the schemas, whether the lowered code is
one of them, the error of the database for a name that it does not take as a search
path, the first space of a schema and the definition files of a space. -/
structure Site where
  schemas : List String
  known : String → Bool
  refuses : String → Option String
  space : String → Option Space
  files : String → List WorkflowFile

def Site.load (site : Site) (schema : String) : Option Load :=
  (site.space schema).map (fun space => ⟨space,site.files space.spaceCode⟩)

/-- The dictionary of the process, and the search paths set on its connection, latest first. -/
structure Session where
  workflows : List (String × Definition)
  searchPaths : List String

def Session.setSearchPath (schema : String) (session : Session) : Session :=
  {session with searchPaths := schema::session.searchPaths}

def Session.load (load : Option Load) (session : Session) : Session :=
  match load with
  | some load => {session with workflows := loadWorkflowsForSchema load session.workflows}
  | none => session

/-- The loop of `register_workflows`. -/
def registerSchemas (site : Site) : List String → Session → Except String Unit × Session
  | [],session => (.ok (),session)
  | schema::rest,session =>
    if schema = "public" then registerSchemas site rest session
    else match site.refuses schema with
      | none => registerSchemas site rest ((session.setSearchPath schema).load (site.load schema))
      | some error => (.error error,session)

/-- `register_workflows`, for one space or for all of them. -/
def registerWorkflows (site : Site) (spaceCode : Option String) (session : Session) : Except String Unit × Session :=
  match spaceCode.filter (· != "") with
  | some code =>
    if site.known code then registerSchemas site [code] session
    else (.error ("Schema '" ++ code ++ "' does not exist"),session)
  | none => match registerSchemas site site.schemas session with
    | (.ok (),after) => (.ok (),after.setSearchPath "public")
    | failed => failed

/-- The entry `{"user_code": key, **definition["workflow"]}` of a definition list. -/
def listed (key : String) : Yaml → Option Yaml
  | .map entries => some (.map ((.str "user_code",((Yaml.map entries).get "user_code").getD (.str key))::
      entries.filter (fun entry => !entry.1.isStr "user_code")))
  | _ => none

/-- The loop of `DefinitionViewSet.list`. -/
def listDefinitions (spaceCode : String) : List (String × Definition) → Option (List Yaml)
  | [] => some []
  | (key,definition)::rest => do
    let workflow ← definition.get "workflow"
    let space ← workflow.get "space_code"
    let others ← listDefinitions spaceCode rest
    if space.isStr spaceCode then return (← listed key workflow)::others else return others

/-- `DefinitionViewSet.list`: keys are distinct, so that sorting compares keys only. -/
def definitionList (spaceCode : String) (session : Session) : Option (List Yaml) :=
  listDefinitions spaceCode (session.workflows.mergeSort (fun first second => decide (first.1 ≤ second.1)))

namespace Yaml

theorem isStr_apart {key other : String} {name : Yaml} (differs : other ≠ key) (names : name.isStr key = true) :
    name.isStr other = false := by
  cases name with
  | str text =>
    simp only [isStr,beq_iff_eq] at names
    simp [isStr,names,Ne.symm differs]
  | _ => rfl

theorem get_set_same {key : String} {new : Yaml} {entries : List (Yaml × Yaml)} :
    ((Yaml.map entries).set key new).get key = some new := by
  simp only [set,get]
  induction entries with
  | nil => simp [setEntry,isStr]
  | cons entry rest ih =>
    cases here : entry.1.isStr key with
    | true => simp [setEntry,here]
    | false => simpa [setEntry,here] using ih

theorem get_set_other {key other : String} {new : Yaml} {entries : List (Yaml × Yaml)} (differs : other ≠ key) :
    ((Yaml.map entries).set key new).get other = (Yaml.map entries).get other := by
  simp only [set,get]
  induction entries with
  | nil => simp [setEntry,isStr,Ne.symm differs]
  | cons entry rest ih =>
    cases here : entry.1.isStr key with
    | true => simp [setEntry,here,isStr_apart differs here]
    | false =>
      cases there : entry.1.isStr other with
      | true => simp [setEntry,here,there]
      | false => simpa [setEntry,here,there] using ih

theorem get_map {key : String} {value found : Yaml} (got : value.get key = some found) : ∃ entries, value = .map entries := by
  cases value with
  | map entries => exact ⟨entries,rfl⟩
  | _ => cases got

end Yaml

/-- The key of an entry is made of the space and the user code that its definition carries. -/
def Owned (space : String) (entry : String × Definition) : Prop :=
  ∃ workflow code, entry.2.get "workflow" = some workflow ∧ workflow.get "space_code" = some (.str space) ∧
    workflow.get "user_code" = some (.str code) ∧ entry.1 = space ++ "." ++ code

/-- `definition["workflow"]["space_code"] == space_code` -/
def ownedBy (space : String) (entry : String × Definition) : Bool :=
  ((entry.2.get "workflow").bind (Yaml.get "space_code")).any (Yaml.isStr space)

/-- Distinct keys, each with the dot-free code of the space of its definition. -/
structure Keyed (workflows : List (String × Definition)) : Prop where
  distinct : (workflows.map Prod.fst).Nodup
  owned : ∀ entry ∈ workflows, ∃ space, Without '.' space ∧ Owned space entry

section entries
variable {space other key : String} {definition : Definition} {entry : String × Definition}
  {workflows : List (String × Definition)}

theorem ownedBy_owned (owned : Owned space entry) : ownedBy other entry = decide (space = other) := by
  obtain ⟨_,code,workflow,there,_⟩ := owned
  simp [ownedBy,workflow,there,Yaml.isStr,Bool.beq_eq_decide_eq]

/-- The definition of a file carries the space it was loaded for. -/
theorem configure_owned {row : Space} {config : Yaml} (configured : configure row config = some entry) :
    Owned row.spaceCode entry := by
  simp only [configure,Option.bind_eq_bind,Option.bind_eq_some_iff] at configured
  obtain ⟨workflow,found,userCode,named,made⟩ := configured
  obtain ⟨entries,rfl⟩ := Yaml.get_map found
  obtain ⟨fields,rfl⟩ := Yaml.get_map named
  split at made
  next code =>
    cases made
    refine ⟨_,code,Yaml.get_set_same,Yaml.get_set_same,?_,rfl⟩
    exact (Yaml.get_set_other (by decide)).trans ((Yaml.get_set_other (by decide)).trans named)
  next => cases made

end entries

section loads
variable {space : String} {workflows : List (String × Definition)}

/-- Two entries with one key belong to one space. -/
theorem Keyed.same_space (keyed : Keyed workflows) {entry : String × Definition} {key : String} {definition : Definition}
    {owner : String} (member : entry ∈ workflows) (names : entry.1 = key) (plain : Without '.' owner)
    (owned : Owned owner (key,definition)) : ownedBy space entry = ownedBy space (key,definition) := by
  obtain ⟨other,dotless,here⟩ := keyed.owned entry member
  rw [ownedBy_owned here,ownedBy_owned owned]
  obtain ⟨_,first,_,_,_,left⟩ := here
  obtain ⟨_,second,_,_,_,right⟩ := owned
  have equal : other ++ String.singleton '.' ++ first = owner ++ String.singleton '.' ++ second :=
    left.symm.trans (names.trans right)
  rw [(append_separator_inj dotless plain equal).1]

theorem loadFile_keyed {row : Space} (plain : Without '.' row.spaceCode) (keyed : Keyed workflows) (file : WorkflowFile) :
    Keyed (loadFile row workflows file) := by
  unfold loadFile
  split
  · split
    next key definition found =>
      obtain ⟨config,_,configured⟩ := Option.bind_eq_some_iff.mp found
      refine ⟨Dict.nodup_assign key definition keyed.distinct,fun entry member => ?_⟩
      rcases Dict.mem_assign member with rfl | inside
      · exact ⟨_,plain,configure_owned configured⟩
      · exact keyed.owned entry inside
    · exact keyed
  · exact keyed

/-- A file of one space changes what that space sees, and nothing else. -/
theorem loadFile_filter {row : Space} (plain : Without '.' row.spaceCode) (keyed : Keyed workflows) (file : WorkflowFile) :
    (loadFile row workflows file).filter (ownedBy space) =
      if row.spaceCode = space then loadFile row (workflows.filter (ownedBy space)) file
      else workflows.filter (ownedBy space) := by
  unfold loadFile
  split
  · split
    next key definition found =>
      obtain ⟨config,_,configured⟩ := Option.bind_eq_some_iff.mp found
      have owned := configure_owned configured
      rw [Dict.filter_assign (ownedBy space) (fun entry member names => keyed.same_space member names plain owned),ownedBy_owned owned]
      simp only [decide_eq_true_eq]
    next => simp
  · simp

theorem Keyed.filter (keyed : Keyed workflows) (p : String × Definition → Bool) : Keyed (workflows.filter p) :=
  ⟨keyed.distinct.sublist (List.filter_sublist.map _),fun entry member => keyed.owned entry (List.mem_of_mem_filter member)⟩

theorem load_keyed {load : Load} (plain : Without '.' load.space.spaceCode) (keyed : Keyed workflows) :
    Keyed (loadWorkflowsForSchema load workflows) := by
  unfold loadWorkflowsForSchema
  induction load.files generalizing workflows with
  | nil => exact keyed
  | cons file rest ih => exact ih (loadFile_keyed plain keyed file)

theorem load_filter {load : Load} (space : String) (plain : Without '.' load.space.spaceCode) (keyed : Keyed workflows) :
    (loadWorkflowsForSchema load workflows).filter (ownedBy space) =
      if load.space.spaceCode = space then loadWorkflowsForSchema load (workflows.filter (ownedBy space))
      else workflows.filter (ownedBy space) := by
  unfold loadWorkflowsForSchema
  induction load.files generalizing workflows with
  | nil => simp
  | cons file rest ih =>
    rw [List.foldl_cons,ih (loadFile_keyed plain keyed file),loadFile_filter plain keyed file]
    split <;> rfl

/-- The dictionary after some loads. -/
def loaded (loads : List Load) (workflows : List (String × Definition)) : List (String × Definition) :=
  loads.foldl (fun workflows load => loadWorkflowsForSchema load workflows) workflows

theorem loaded_keyed {loads : List Load} (plain : ∀ load ∈ loads, Without '.' load.space.spaceCode)
    (keyed : Keyed workflows) : Keyed (loaded loads workflows) := by
  induction loads generalizing workflows with
  | nil => exact keyed
  | cons load rest ih =>
    rw [List.forall_mem_cons] at plain
    exact ih plain.2 (load_keyed plain.1 keyed)

/-- A space sees of the shared dictionary what its own loads would have made alone. -/
theorem loaded_filter {loads : List Load} (plain : ∀ load ∈ loads, Without '.' load.space.spaceCode)
    (keyed : Keyed workflows) : (loaded loads workflows).filter (ownedBy space) =
      loaded (loads.filter (fun load => load.space.spaceCode = space)) (workflows.filter (ownedBy space)) := by
  induction loads generalizing workflows with
  | nil => rfl
  | cons load rest ih =>
    rw [List.forall_mem_cons] at plain
    have here := load_filter space plain.1 keyed
    have later := ih plain.2 (load_keyed plain.1 keyed)
    rw [here] at later
    simp only [loaded,List.foldl_cons,List.filter_cons,decide_eq_true_eq] at later ⊢
    rw [later]
    split <;> rfl

end loads

section list
variable {space : String} {workflows : List (String × Definition)}

/-- The list leaves out what belongs to other spaces. -/
theorem listDefinitions_filter (keyed : ∀ entry ∈ workflows, ∃ space, Owned space entry) :
    listDefinitions space workflows = listDefinitions space (workflows.filter (ownedBy space)) := by
  induction workflows with
  | nil => rfl
  | cons entry rest ih =>
    rw [List.forall_mem_cons] at keyed
    obtain ⟨⟨owner,owned⟩,others⟩ := keyed
    have tail := ih others
    obtain ⟨key,definition⟩ := entry
    rw [List.filter_cons,ownedBy_owned owned]
    obtain ⟨workflow,code,found,there,_⟩ := owned
    have foundHere : definition.get "workflow" = some workflow := found
    by_cases same : owner = space
    · simp only [same,decide_true,if_true,listDefinitions,foundHere,tail]
    · simp only [same,decide_false,Bool.false_eq_true,if_false,← tail]
      simp [listDefinitions,foundHere,there,Yaml.isStr,same]

/-- Every entry can be listed. -/
theorem listDefinitions_some (keyed : ∀ entry ∈ workflows, ∃ space, Owned space entry) :
    (listDefinitions space workflows).isSome := by
  induction workflows with
  | nil => rfl
  | cons entry rest ih =>
    rw [List.forall_mem_cons] at keyed
    obtain ⟨⟨owner,workflow,code,found,there,_⟩,others⟩ := keyed
    obtain ⟨key,definition⟩ := entry
    obtain ⟨fields,rfl⟩ := Yaml.get_map there
    obtain ⟨listed,rest⟩ := Option.isSome_iff_exists.mp (ih others)
    have foundHere : definition.get "workflow" = some (.map fields) := found
    simp only [listDefinitions,foundHere,there,rest,Option.bind_eq_bind,Option.bind_some]
    split <;> rfl

/-- Distinct keys are sorted in one way only. -/
theorem sorted_filter (keyed : Keyed workflows) (p : String × Definition → Bool) :
    (workflows.mergeSort (fun first second => decide (first.1 ≤ second.1))).filter p =
      (workflows.filter p).mergeSort (fun first second => decide (first.1 ≤ second.1)) := by
  have sorted (entries : List (String × Definition)) :
      (entries.mergeSort (fun first second => decide (first.1 ≤ second.1))).Pairwise (fun first second => first.1 ≤ second.1) := by
    refine (List.pairwise_mergeSort (fun first second third below above => ?_) (fun first second => ?_) entries).imp
      (fun le => of_decide_eq_true le)
    · simp only [decide_eq_true_eq] at below above ⊢
      exact le_trans below above
    · simpa using le_total first.1 second.1
  refine List.Perm.eq_of_pairwise ?_ ((sorted _).filter p) (sorted _) ?_
  · intro first second left right below above
    have member : first ∈ workflows := (List.mergeSort_perm _ _).mem_iff.mp (List.mem_of_mem_filter left)
    have also : second ∈ workflows := List.mem_of_mem_filter ((List.mergeSort_perm _ _).mem_iff.mp right)
    exact List.inj_on_of_nodup_map keyed.distinct member also (le_antisymm below above)
  · exact ((List.mergeSort_perm _ _).filter p).trans (List.mergeSort_perm _ _).symm

theorem definitionList_eq {session : Session} (keyed : Keyed session.workflows) : definitionList space session =
    listDefinitions space ((session.workflows.filter (ownedBy space)).mergeSort
      (fun first second => decide (first.1 ≤ second.1))) := by
  have entries (entry : String × Definition)
      (member : entry ∈ session.workflows.mergeSort (fun first second => decide (first.1 ≤ second.1))) :
      ∃ space, Owned space entry := by
    obtain ⟨owner,_,owned⟩ := keyed.owned entry ((List.mergeSort_perm _ _).mem_iff.mp member)
    exact ⟨owner,owned⟩
  rw [definitionList,listDefinitions_filter entries,sorted_filter keyed]

end list

/-- A call of `register_workflows`, with what it finds. -/
structure Registration where
  site : Site
  spaceCode : Option String

/-- The loads of the schemas up to the first one that the database refuses. -/
def Site.loads (site : Site) : List String → List Load
  | [] => []
  | schema::rest =>
    if schema = "public" then site.loads rest
    else match site.refuses schema with
      | none => (site.load schema).toList ++ site.loads rest
      | some _ => []

def Registration.loads (registration : Registration) : List Load :=
  match registration.spaceCode.filter (· != "") with
  | some code => if registration.site.known code then registration.site.loads [code] else []
  | none => registration.site.loads registration.site.schemas

/-- A process that starts with an empty dictionary and makes these calls. -/
def replay (history : List Registration) : Session :=
  history.foldl (fun session call => (registerWorkflows call.site call.spaceCode session).2) ⟨[],[]⟩

section registrations

theorem registerSchemas_loads (site : Site) (schemas : List String) (session : Session) :
    (registerSchemas site schemas session).2.workflows = loaded (site.loads schemas) session.workflows := by
  induction schemas generalizing session with
  | nil => rfl
  | cons schema rest ih =>
    simp only [registerSchemas,Site.loads]
    split
    · exact ih session
    · cases site.refuses schema with
      | none =>
        dsimp only
        rw [ih]
        cases site.load schema <;> rfl
      | some => rfl

theorem registerWorkflows_loads (call : Registration) (session : Session) :
    (registerWorkflows call.site call.spaceCode session).2.workflows = loaded call.loads session.workflows := by
  unfold registerWorkflows Registration.loads
  split
  · split
    · exact registerSchemas_loads _ _ _
    · rfl
  · rw [← registerSchemas_loads]
    split
    next after done => rw [done]; rfl
    next => rfl

theorem replay_loads (history : List Registration) :
    (replay history).workflows = loaded (history.flatMap Registration.loads) [] := by
  have from_any (session : Session) :
      (history.foldl (fun session call => (registerWorkflows call.site call.spaceCode session).2) session).workflows =
        loaded (history.flatMap Registration.loads) session.workflows := by
    induction history generalizing session with
    | nil => rfl
    | cons call rest ih =>
      rw [List.foldl_cons,ih,registerWorkflows_loads,List.flatMap_cons]
      simp only [loaded,List.foldl_append]
  exact from_any ⟨[],[]⟩

/-- All codes of spaces that a history meets are free of dots. -/
def Plain (history : List Registration) : Prop :=
  ∀ load ∈ history.flatMap Registration.loads, Without '.' load.space.spaceCode

instance (history : List Registration) : Decidable (Plain history) := inferInstanceAs (Decidable (∀ load ∈ _, _))

theorem empty_keyed : Keyed [] := ⟨List.nodup_nil,fun _ member => absurd member List.not_mem_nil⟩

theorem replay_keyed {history : List Registration} (plain : Plain history) : Keyed (replay history).workflows :=
  replay_loads history ▸ loaded_keyed plain empty_keyed

end registrations

/-- Whatever is loaded for whichever tenants and in whatever order, every key is made
of the space and the user code of its own definition, and what a space lists depends
on its own loads alone. -/
theorem definitions_do_not_leak (first second : List Registration) (plain : Plain first) (also : Plain second)
    (space : String)
    (agree : (first.flatMap Registration.loads).filter (fun load => load.space.spaceCode = space) =
      (second.flatMap Registration.loads).filter (fun load => load.space.spaceCode = space)) :
    (∀ entry ∈ (replay first).workflows, ∃ owner, Owned owner entry) ∧
    (definitionList space (replay first)).isSome ∧
    definitionList space (replay first) = definitionList space (replay second) := by
  have keyed := replay_keyed plain
  have owned (entry : String × Definition) (member : entry ∈ (replay first).workflows) : ∃ owner, Owned owner entry := by
    obtain ⟨owner,_,owned⟩ := keyed.owned entry member
    exact ⟨owner,owned⟩
  refine ⟨owned,?_,?_⟩
  · refine listDefinitions_some (fun entry member => ?_)
    exact owned entry ((List.mergeSort_perm _ _).mem_iff.mp member)
  · rw [definitionList_eq keyed,definitionList_eq (replay_keyed also),replay_loads,replay_loads,
      loaded_filter plain empty_keyed,loaded_filter also empty_keyed,agree]

/-- A definition file with a user code. -/
def definitionFile (userCode : String) : WorkflowFile :=
  ⟨".yaml",some (.map [(.str "workflow",.map [(.str "user_code",.str userCode)])])⟩

/-- Two tenants, each with one definition of the same user code. -/
def twoTenants (other : String) : Site where
  schemas := ["public","space0","space1"]
  known code := ["public","space0","space1"].contains code
  refuses _ := none
  space schema := if schema = "public" then none else some ⟨some "realm0",schema⟩
  files code := [definitionFile (if code = "space0" then "a:run" else other)]

/-- The other tenant has another file and is loaded at another time. -/
theorem definitions_do_not_leak_two :
    definitionList "space0" (replay [⟨twoTenants "a:run",none⟩]) =
      definitionList "space0" (replay [⟨twoTenants "b:run",some "space1"⟩,⟨twoTenants "b:run",some "space0"⟩]) ∧
    definitionList "space0" (replay [⟨twoTenants "a:run",none⟩]) =
      some [.map [(.str "user_code",.str "a:run"),(.str "realm_code",.str "realm0"),(.str "space_code",.str "space0")]] := by
  have plain : Plain [⟨twoTenants "a:run",none⟩] := by decide
  have also : Plain [⟨twoTenants "b:run",some "space1"⟩,⟨twoTenants "b:run",some "space0"⟩] := by decide
  refine ⟨(definitions_do_not_leak _ _ plain also "space0" rfl).2.2,?_⟩
  have own : (replay [⟨twoTenants "a:run",none⟩]).workflows.filter (ownedBy "space0") =
      [("space0.a:run",.map [(.str "workflow",.map [(.str "user_code",.str "a:run"),(.str "realm_code",.str "realm0"),
        (.str "space_code",.str "space0")])])] := rfl
  rw [definitionList_eq (replay_keyed plain),own,List.mergeSort_singleton]
  rfl

end FinmarsWorkflow.Tenant
