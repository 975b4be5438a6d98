import FinmarsWorkflow.Imports
import FinmarsWorkflow.Python.Dict
import FinmarsWorkflow.RunRequest

/-! The definitions that the processes of an installation hold, the local files they are
read from, and the storage behind them.
A refresh copies the files of a space from the storage and reads its definitions again.
Look-ups and steps copy the folder of a module, and a process that starts reads what lies
on the disk. One of these follows the other; the storage may change between any two. -/
namespace FinmarsWorkflow.Tenant
open Python

/-- The first space of a schema. -/
structure Owner where
  realmCode : Option String
  code : Name

def Owner.space (owner : Owner) : Space := ⟨owner.realmCode,owner.code.text⟩

/-- The schemas and their spaces, as `Site` has them, the readers of YAML and JSON by the
suffix of a file, and the order in which a search of the disk meets the files. -/
structure Deployment (χ : Type) where
  root : Root
  schemas : List String
  known : String → Bool
  refuses : String → Option String
  owner : String → Option Owner
  parse : String → χ → Option Yaml
  scan : Local χ → Local χ
  scanned : ∀ files, (scan files).Perm files

/-- `PurePath.suffix` -/
def suffix (name : String) : String :=
  let last := name.toList.reverse.takeWhile (· != '.')
  if '.' ∈ name.toList ∧ last ≠ [] ∧ last.length + 1 < name.length then "." ++ String.ofList last.reverse else ""

/-- The storage, the local files and the dictionaries of the processes. -/
structure Depot (χ : Type) where
  remote : Remote χ
  files : Local χ
  sessions : Nat → Session

section model
variable {χ : Type} (deployment : Deployment χ)

/-- `root_path.glob("**/workflow.*")`, and what can be read of the files. -/
def Deployment.definitionFiles (files : Local χ) (code : String) : List WorkflowFile :=
  ((deployment.scan files).filter (fun file =>
    decide (places (joinPaths deployment.root.path ["local",code,"workflows"]) <+: file.1) &&
      fnmatch (file.1.getLastD "") "workflow.*")).map
    (fun file => ⟨suffix (file.1.getLastD ""),deployment.parse (suffix (file.1.getLastD "")) file.2⟩)

/-- What `register_workflows` finds on the disk. -/
def Deployment.site (files : Local χ) : Site where
  schemas := deployment.schemas
  known := deployment.known
  refuses := deployment.refuses
  space schema := (deployment.owner schema).map Owner.space
  files := deployment.definitionFiles files

variable (remote : Remote χ)

/-- The files after the touches of a synchronisation. -/
def Deployment.touched (files : Local χ) (touches : List Touch) : Local χ :=
  touches.foldl (Touch.apply remote deployment.root) files

/-- `sync_remote_storage_to_local_storage_for_schema`, for the first space of the schema. -/
def Deployment.syncOwner (owner : Option Owner) (modulePath : String) (files : Local χ) : Except String Unit × Local χ :=
  match owner with
  | none => (.error "'NoneType' object has no attribute 'space_code'",files)
  | some owner =>
    let outcome := syncForSchema deployment.root (remote.world (existing files)) defaultPatterns owner.code modulePath
    (match outcome.2 with
    | some error => .error error
    | none => .ok (),deployment.touched remote files outcome.1)

/-- The loop of `sync_remote_storage_to_local_storage`. -/
def Deployment.syncSchemas : List String → Local χ → Session → Except String Unit × Local χ × Session
  | [],files,session => (.ok (),files,session)
  | schema::rest,files,session => match deployment.refuses schema with
    | some error => (.error error,files,session)
    | none => match deployment.syncOwner remote (deployment.owner schema) "" files with
      | (.error error,after) => (.error error,after,session.setSearchPath schema)
      | (.ok (),after) => Deployment.syncSchemas rest after ((session.setSearchPath schema).setSearchPath "public")

/-- `sync_remote_storage_to_local_storage`, for one space or for all of them. -/
def Deployment.syncRemoteStorage (spaceCode : Option String) (files : Local χ) (session : Session) :
    Except String Unit × Local χ × Session :=
  match spaceCode.filter (· != "") with
  | some code =>
    if deployment.known code then deployment.syncSchemas remote [code] files session
    else (.error ("Schema '" ++ code ++ "' does not exist"),files,session)
  | none => deployment.syncSchemas remote deployment.schemas files session

/-- `RefreshStorageViewSet.list`, which answers the same whatever fails. -/
def Deployment.refreshStorage (spaceCode : String) (files : Local χ) (session : Session) : Local χ × Session :=
  match deployment.syncRemoteStorage remote (some spaceCode) files session with
  | (.error _,after,left) => (after,left)
  | (.ok (),after,left) => (after,(registerWorkflows (deployment.site after) (some spaceCode) left).2)

/-- The files after `get_by_user_code`, which copies the folder of a definition that it does not find. -/
def Deployment.lookUpFiles (owner : Option Owner) (userCode : String) (files : Local χ) (session : Session) : Local χ :=
  match session.workflows.lookup userCode,modulePath userCode with
  | none,.ok path => (deployment.syncOwner remote owner path files).2
  | _,_ => files

/-- What that call of `get_by_user_code` finds. -/
def Deployment.finding (owner : Option Owner) (userCode : String) (files : Local χ) (session : Session) : Finding where
  site := deployment.site (deployment.lookUpFiles remote owner userCode files session)
  sync path := match (deployment.syncOwner remote owner path files).1 with
    | .error error => some error
    | .ok () => none

/-- The loop over the imports of a module. -/
def Deployment.importFiles (owner : Owner) (modulePath : String) : List Yaml → Local χ → Local χ
  | [],files => files
  | item::rest,files => match syncImport deployment.root owner.code modulePath (remote.world (existing files)) item with
    | (touches,some _) => deployment.touched remote files touches
    | (touches,none) => Deployment.importFiles owner modulePath rest (deployment.touched remote files touches)

/-- The files after the synchronisations of `execute_workflow_step`. -/
def Deployment.stepFiles (owner : Option Owner) (modulePath : String) (imports : List Yaml) (files : Local χ) : Local χ :=
  match owner,deployment.syncOwner remote owner modulePath files with
  | some owner,(.ok (),after) => deployment.importFiles remote owner modulePath imports after
  | _,(_,after) => after

end model

/-- What happens to the storage, or is done by a process. -/
inductive Operation (χ : Type) where
  | store (remote : Remote χ)
  | start (process : Nat)
  | refresh (process : Nat) (spaceCode : String)
  | syncAll (process : Nat)
  | lookUp (process : Nat) (schema userCode : String)
  | step (schema name : String) (imports : Option Yaml)

section runs
variable {χ : Type} (deployment : Deployment χ)

def Depot.write (depot : Depot χ) (process : Nat) (files : Local χ) (session : Session) : Depot χ :=
  {depot with files := files,sessions := fun other => if other = process then session else depot.sessions other}

def Operation.run : Operation χ → Depot χ → Depot χ
  | .store remote,depot => {depot with remote := remote}
  | .start process,depot =>
    depot.write process depot.files (registerWorkflows (deployment.site depot.files) none ⟨[],[]⟩).2
  | .refresh process spaceCode,depot =>
    let after := deployment.refreshStorage depot.remote spaceCode depot.files (depot.sessions process)
    depot.write process after.1 after.2
  | .syncAll process,depot =>
    let after := (deployment.syncRemoteStorage depot.remote none depot.files (depot.sessions process)).2
    depot.write process after.1 after.2
  | .lookUp process schema userCode,depot =>
    let owner := deployment.owner schema
    let session := depot.sessions process
    depot.write process (deployment.lookUpFiles depot.remote owner userCode depot.files session)
      (getByUserCode (deployment.finding depot.remote owner userCode depot.files session) userCode session).2
  | .step schema name imports,depot =>
    let after := deployment.stepFiles depot.remote (deployment.owner schema) (moduleOf name) (importList imports) depot.files
    {depot with files := after}

/-- A disk that starts empty, and processes that have read nothing. -/
def Depot.begun (remote : Remote χ) : Depot χ := ⟨remote,[],fun _ => ⟨[],[]⟩⟩

def Depot.after (depot : Depot χ) (history : List (Operation χ)) : Depot χ :=
  history.foldl (fun depot operation => operation.run deployment depot) depot

end runs

section disk
variable {χ : Type} {root : Root} {files : Local χ} {remote : Remote χ} {patterns : List String}

/-- All local files lie as deep as a synchronisation writes them. -/
structure Tidy (root : Root) (files : Local χ) : Prop where
  keyed : (files.map Prod.fst).Nodup
  deep : ∀ file ∈ files, file.1.length = root.names.length + 8

/-- A file below the workflows of a space, in the storage. -/
def storedAt (space : Name) (rest : List String) : List String := space.text::"workflows"::rest

theorem workflowsFolder_rest (root : Root) (space : Name) (rest : List String) :
    root.names ++ "local"::storedAt space rest = workflowsFolder root space ++ rest := by
  simp [storedAt,workflowsFolder]

theorem workflowsFolder_inj {space other : Name} {rest more : List String}
    (same : workflowsFolder root space ++ rest = workflowsFolder root other ++ more) : space.text = other.text ∧ rest = more := by
  simpa [workflowsFolder] using same

theorem Tidy.subset {kept : Local χ} (tidy : Tidy root files) (inside : kept.Sublist files) : Tidy root kept :=
  ⟨tidy.keyed.sublist (inside.map _),fun file member => tidy.deep file (inside.subset member)⟩

/-- On a tidy disk nothing stands in the way of a file. -/
theorem Tidy.write {space : Name} {rest : List String} {content : χ} (tidy : Tidy root files) (five : rest.length = 5)
    (there : remote.content (storedAt space rest) = some content) :
    Tidy root (Touch.apply remote root files (.write (copyPath root (storedAt space rest)))) ∧
    ∀ names, (Touch.apply remote root files (.write (copyPath root (storedAt space rest)))).lookup names =
      if names = workflowsFolder root space ++ rest then some content else files.lookup names := by
  have place := places_copyPath root (Remote.content_plain (Option.isSome_of_eq_some there))
  have source : (root.names ++ "local"::storedAt space rest).drop (root.names.length+1) = storedAt space rest := by
    rw [List.append_cons,List.drop_left']
    simp
  have depth : (workflowsFolder root space ++ rest).length = root.names.length + 8 := by
    simp [workflowsFolder,five]
  have free : ¬ files.any (fun file => decide (file.1 ≠ workflowsFolder root space ++ rest ∧
      (file.1 <+: workflowsFolder root space ++ rest ∨ workflowsFolder root space ++ rest <+: file.1))) = true := by
    intro blocked
    obtain ⟨file,member,stands⟩ := List.any_eq_true.mp blocked
    obtain ⟨differs,above | below⟩ := of_decide_eq_true stands
    · exact differs (above.eq_of_length ((tidy.deep file member).trans depth.symm))
    · exact differs (below.eq_of_length (depth.trans (tidy.deep file member).symm)).symm
  have written : Touch.apply remote root files (.write (copyPath root (storedAt space rest))) =
      (workflowsFolder root space ++ rest,content)::files.filter (fun file => file.1 ≠ workflowsFolder root space ++ rest) := by
    simp only [Touch.apply,place,source,there]
    rw [workflowsFolder_rest,if_neg free]
  rw [written]
  refine ⟨⟨?_,List.forall_mem_cons.mpr ⟨depth,fun file member => tidy.deep file (List.mem_of_mem_filter member)⟩⟩,fun names => ?_⟩
  · refine List.nodup_cons.mpr ⟨fun again => ?_,tidy.keyed.sublist (List.filter_sublist.map _)⟩
    obtain ⟨file,member,same⟩ := List.mem_map.mp again
    have differs := List.of_mem_filter member
    exact (of_decide_eq_true differs) same
  · split
    next same => rw [same,List.lookup_cons_self]
    next apart =>
      rw [List.lookup_cons,beq_eq_false_iff_ne.mpr apart]
      refine (lookup_filter (fun other => decide (other ≠ _)) files _).trans ?_
      rw [if_pos (by simpa using apart)]

/-- A stored file that a synchronisation writes. -/
def Chosen (remote : Remote χ) (patterns components : List String) (space : Name) (rest : List String) : Prop :=
  rest.length = 5 ∧ Agrees components 0 rest.dropLast ∧ patterns.any (fnmatch (rest.getLastD "")) = true ∧
    (remote.content (storedAt space rest)).isSome = true

theorem copied_chosen {components : List String} {space : Name} {touch : Touch}
    (copied : Copied remote patterns components 4 0 [space.text,"workflows"] touch root) :
    ∃ rest, Chosen remote patterns components space rest ∧ touch = .write (copyPath root (storedAt space rest)) := by
  obtain ⟨folders,file,four,agrees,there,matched,same⟩ := copied
  refine ⟨folders ++ [file],⟨by simp [four],by simpa using agrees,by simpa using matched,by simpa [storedAt] using there⟩,?_⟩
  rw [same]
  simp [storedAt]

theorem chosen_copied {components : List String} {space : Name} {rest : List String}
    (chosen : Chosen remote patterns components space rest) :
    Copied remote patterns components 4 0 [space.text,"workflows"] (.write (copyPath root (storedAt space rest))) root := by
  obtain ⟨five,agrees,matched,there⟩ := chosen
  rcases rest.eq_nil_or_concat with rfl | ⟨folders,file,rfl⟩
  · cases five
  · refine ⟨folders,file,by simpa using five,by simpa using agrees,by simpa [storedAt] using there,by simpa using matched,?_⟩
    simp [storedAt]

/-- The writes of a synchronisation leave what they choose as the storage has it, and the rest as it was. -/
theorem Tidy.writes {components : List String} {space : Name} {writes : List Touch} (tidy : Tidy root files)
    (copied : ∀ touch ∈ writes, Copied remote patterns components 4 0 [space.text,"workflows"] touch root) :
    Tidy root (writes.foldl (Touch.apply remote root) files) ∧ ∀ names,
      (∃ rest, .write (copyPath root (storedAt space rest)) ∈ writes ∧ Chosen remote patterns components space rest ∧
        names = workflowsFolder root space ++ rest ∧
        (writes.foldl (Touch.apply remote root) files).lookup names = remote.content (storedAt space rest)) ∨
      (∀ rest, Chosen remote patterns components space rest → .write (copyPath root (storedAt space rest)) ∈ writes →
        names ≠ workflowsFolder root space ++ rest) ∧
        (writes.foldl (Touch.apply remote root) files).lookup names = files.lookup names := by
  induction writes generalizing files with
  | nil => exact ⟨tidy,fun names => .inr ⟨fun _ _ member => absurd member List.not_mem_nil,rfl⟩⟩
  | cons touch more ih =>
    obtain ⟨first,others⟩ := List.forall_mem_cons.mp copied
    obtain ⟨rest,chosen,rfl⟩ := copied_chosen first
    obtain ⟨content,there⟩ := Option.isSome_iff_exists.mp chosen.2.2.2
    obtain ⟨kept,looked⟩ := tidy.write chosen.1 there
    obtain ⟨last,found⟩ := ih kept others
    refine ⟨last,fun names => ?_⟩
    rcases found names with ⟨later,member,fits,same,found⟩ | ⟨apart,found⟩
    · exact .inl ⟨later,List.mem_cons_of_mem _ member,fits,same,found⟩
    · rw [looked] at found
      by_cases here : names = workflowsFolder root space ++ rest
      · rw [if_pos here] at found
        exact .inl ⟨rest,List.mem_cons_self,chosen,here,found.trans there.symm⟩
      · rw [if_neg here] at found
        refine .inr ⟨fun other fits member => ?_,found⟩
        rcases List.mem_cons.mp member with same | inside
        · have equal := copyPath_inj (Remote.content_plain fits.2.2.2) (Remote.content_plain chosen.2.2.2) (Touch.write.inj same)
          simp only [storedAt,List.cons.injEq,true_and] at equal
          rwa [equal]
        · exact apart other fits inside

theorem Tidy.emptied (tidy : Tidy root files) (space : Name) (folder : String) :
    Tidy root (cleared remote root space folder files) := by
  unfold cleared
  split
  · exact tidy.subset List.filter_sublist
  · exact tidy

theorem cleared_lookup (space : Name) (folder : String) (names : List String) :
    (cleared remote root space folder files).lookup names =
      if places (localFolder root space folder) <+: names ∧ places (localFolder root space folder) ≠ names then none
      else files.lookup names := by
  unfold cleared
  split
  · exact lookup_delete _ _ _
  next gone =>
    split
    next covers =>
      refine List.lookup_eq_none_iff.mpr (fun file member => bne_iff_ne.mpr (fun same => ?_))
      exact not_existing (Bool.not_eq_true _ ▸ gone) member (same ▸ covers.1)
    · rfl

/-- A synchronisation of a tidy disk chooses files, deletes the rest of its folder and leaves the rest of the disk. -/
theorem Tidy.sync (tidy : Tidy root files) (remote : Remote χ) (patterns : List String) (space : Name) (modulePath : String) :
    ∃ touches, syncForSchema root (remote.world (existing files)) patterns space modulePath = (touches,none) ∧
      Tidy root (touches.foldl (Touch.apply remote root) files) ∧ ∀ names,
        (∃ rest, Chosen remote patterns (moduleComponents modulePath) space rest ∧ names = workflowsFolder root space ++ rest ∧
          (touches.foldl (Touch.apply remote root) files).lookup names = remote.content (storedAt space rest)) ∨
        (∀ rest, Chosen remote patterns (moduleComponents modulePath) space rest → names ≠ workflowsFolder root space ++ rest) ∧
          (touches.foldl (Touch.apply remote root) files).lookup names =
            if places (localFolder root space modulePath) <+: names ∧ places (localFolder root space modulePath) ≠ names then none
            else files.lookup names := by
  obtain ⟨writes,same,reached⟩ := syncForSchema_copies root remote (existing files) patterns space modulePath
  refine ⟨_,same,?_⟩
  have starts : ((if existing files (localFolder root space modulePath) then [Touch.delete (localFolder root space modulePath)] else []) ++
      writes).foldl (Touch.apply remote root) files =
      writes.foldl (Touch.apply remote root) (cleared remote root space modulePath files) := by
    rw [List.foldl_append]
    unfold cleared
    split <;> rfl
  obtain ⟨kept,looked⟩ := (tidy.emptied space modulePath).writes (fun touch member => (reached touch).mp member)
  rw [starts]
  refine ⟨kept,fun names => ?_⟩
  rcases looked names with ⟨rest,_,chosen,here,found⟩ | ⟨apart,found⟩
  · exact .inl ⟨rest,chosen,here,found⟩
  · exact .inr ⟨fun rest chosen => apart rest chosen ((reached _).mpr (chosen_copied chosen)),found.trans (cleared_lookup _ _ _)⟩

theorem localFolder_whole (root : Root) (space : Name) : places (localFolder root space "") = workflowsFolder root space := by
  have whole : localFolder root space "" = joinPath (joinPaths root.path ["local",space.text,"workflows"]) "" := rfl
  have folder : joinPaths root.path ["local",space.text,"workflows"] =
      joinPath (joinPath (joinPath root.path localName.text) space.text) workflowsName.text := rfl
  rw [whole,places_joinPath (by rfl),folder,places_name,places_name,places_name,root_places]
  simp [split,walk,walkSegment,workflowsFolder,localName,workflowsName]

theorem Tidy.lookup_iff (tidy : Tidy root files) {names : List String} {content : χ} :
    files.lookup names = some content ↔ (names,content) ∈ files := by
  rw [List.lookup_eq_some_iff]
  constructor
  · intro found
    obtain ⟨front,back,same,_⟩ := found
    simp [same]
  · intro member
    obtain ⟨front,back,same⟩ := List.append_of_mem member
    refine ⟨front,back,same,fun file before => ?_⟩
    have keyed := tidy.keyed
    rw [same,List.map_append,List.nodup_append] at keyed
    simpa using Ne.symm (keyed.2.2 file.1 (List.mem_map_of_mem before) names (by simp))

end disk

section registry
variable {key : String} {definition : Definition} {workflows : List (String × Definition)} {space : Space}

/-- What a definition file defines for a space. -/
def configured (space : Space) (file : WorkflowFile) : Option (String × Definition) :=
  if file.suffix ∈ [".yaml",".yml",".json"] then file.content.bind (configure space) else none

theorem lookup_loadFile (file : WorkflowFile) (key : String) : (loadFile space workflows file).lookup key =
    match configured space file with
    | some (found,definition) => if key = found then some definition else workflows.lookup key
    | none => workflows.lookup key := by
  unfold loadFile configured
  by_cases suffixed : file.suffix ∈ [".yaml",".yml",".json"]
  · simp only [if_pos suffixed]
    cases file.content.bind (configure space) with
    | none => rfl
    | some entry =>
      exact Dict.lookup_assign entry.1 key entry.2 workflows
  · simp only [if_neg suffixed]

/-- The last file that defines a key wins; a key that no file defines is left. -/
theorem lookup_load (load : Load) (workflows : List (String × Definition)) (key : String) :
    (∃ file ∈ load.files, ∃ definition, configured load.space file = some (key,definition) ∧
      (loadWorkflowsForSchema load workflows).lookup key = some definition) ∨
    (∀ file ∈ load.files, ∀ definition, configured load.space file ≠ some (key,definition)) ∧
      (loadWorkflowsForSchema load workflows).lookup key = workflows.lookup key := by
  unfold loadWorkflowsForSchema
  induction load.files generalizing workflows with
  | nil => exact .inr ⟨fun _ member => absurd member List.not_mem_nil,rfl⟩
  | cons file rest ih =>
    rw [List.foldl_cons]
    rcases ih (loadFile load.space workflows file) with ⟨later,member,definition,defines,found⟩ | ⟨none,found⟩
    · exact .inl ⟨later,List.mem_cons_of_mem _ member,definition,defines,found⟩
    · rw [lookup_loadFile] at found
      cases defines : configured load.space file with
      | none =>
        rw [defines] at found
        refine .inr ⟨List.forall_mem_cons.mpr ⟨fun definition same => ?_,none⟩,found⟩
        cases defines.symm.trans same
      | some entry =>
        obtain ⟨other,definition⟩ := entry
        simp only [defines] at found
        by_cases same : key = other
        · rw [if_pos same] at found
          exact .inl ⟨file,List.mem_cons_self,definition,same ▸ defines,found⟩
        · rw [if_neg same] at found
          refine .inr ⟨List.forall_mem_cons.mpr ⟨fun definition equal => ?_,none⟩,found⟩
          cases defines.symm.trans equal
          exact same rfl

end registry

section definitions
variable {χ : Type} {deployment : Deployment χ} {files : Local χ} {remote : Remote χ} {owner : Owner}
  {key : String} {definition : Definition}

/-- A place below the workflows of a space holds a definition file of it. -/
def Deployment.Defines (deployment : Deployment χ) (owner : Owner) (content : List String → Option χ) (key : String)
    (definition : Definition) : Prop :=
  ∃ rest held, rest.length = 5 ∧ content rest = some held ∧ fnmatch (rest.getLastD "") "workflow.*" = true ∧
    configured owner.space ⟨suffix (rest.getLastD ""),deployment.parse (suffix (rest.getLastD "")) held⟩ = some (key,definition)

def onDisk (root : Root) (files : Local χ) (space : Name) (rest : List String) : Option χ :=
  files.lookup (workflowsFolder root space ++ rest)

def inStorage (remote : Remote χ) (space : Name) (rest : List String) : Option χ := remote.content (storedAt space rest)

theorem last_rest (folder : List String) {rest : List String} (five : rest.length = 5) :
    (folder ++ rest).getLastD "" = rest.getLastD "" := by
  rcases rest.eq_nil_or_concat with rfl | ⟨front,name,rfl⟩
  · cases five
  · rw [List.concat_eq_append,← List.append_assoc,List.getLastD_concat,List.getLastD_concat]

/-- The search of the disk finds what defines something below the workflows of the space. -/
theorem definitionFiles_defines (tidy : Tidy deployment.root files) :
    (∃ file ∈ deployment.definitionFiles files owner.code.text, configured owner.space file = some (key,definition)) ↔
      deployment.Defines owner (onDisk deployment.root files owner.code) key definition := by
  have folder : places (joinPaths deployment.root.path ["local",owner.code.text,"workflows"]) =
      workflowsFolder deployment.root owner.code := by
    have parts : joinPaths deployment.root.path ["local",owner.code.text,"workflows"] =
        joinPath (joinPath (joinPath deployment.root.path localName.text) owner.code.text) workflowsName.text := rfl
    rw [parts,places_name,places_name,places_name,root_places]
    simp [workflowsFolder,localName,workflowsName]
  simp only [Deployment.definitionFiles,folder,List.mem_map,List.mem_filter,(deployment.scanned files).mem_iff,
    Bool.and_eq_true,decide_eq_true_eq]
  constructor
  · intro found
    obtain ⟨_,⟨⟨names,held⟩,⟨member,⟨rest,rfl⟩,named⟩,rfl⟩,defines⟩ := found
    have five : rest.length = 5 := by
      have deep := tidy.deep _ member
      simp [workflowsFolder] at deep
      omega
    have last := last_rest (workflowsFolder deployment.root owner.code) five
    rw [last] at named defines
    exact ⟨rest,held,five,tidy.lookup_iff.mpr member,named,defines⟩
  · intro defines
    obtain ⟨rest,held,five,found,named,defines⟩ := defines
    have last := last_rest (workflowsFolder deployment.root owner.code) five
    refine ⟨_,⟨(workflowsFolder deployment.root owner.code ++ rest,held),⟨tidy.lookup_iff.mp found,⟨rest,rfl⟩,?_⟩,rfl⟩,?_⟩
    · rwa [last]
    · rwa [last]

/-- Whatever defines something is among the files that a refresh copies. -/
theorem defining_copied {space : Space} {name : String} {content : Option Yaml} {entry : String × Definition}
    (defines : configured space ⟨suffix name,content⟩ = some entry) : defaultPatterns.any (fnmatch name) = true := by
  have ends (extension : String) (filled : extension ≠ "") (same : suffix name = extension) : extension.toList <:+ name.toList := by
    unfold suffix at same
    dsimp only at same
    split at same
    next shaped =>
      have parts := List.takeWhile_append_dropWhile (p := (· != '.')) (l := name.toList.reverse)
      cases rest : name.toList.reverse.dropWhile (· != '.') with
      | nil =>
        rw [rest,List.append_nil] at parts
        have none := List.all_eq_true.mp (List.all_takeWhile (p := (· != '.')) (l := name.toList.reverse)) '.'
        rw [parts] at none
        exact absurd (none (List.mem_reverse.mpr shaped.1)) (by decide)
      | cons dot front =>
        have is := List.head?_dropWhile_not (· != '.') name.toList.reverse
        rw [rest] at is parts
        have dotted : dot = '.' := by simpa using is
        have whole := congrArg List.reverse parts
        rw [List.reverse_reverse,List.reverse_append,dotted] at whole
        refine ⟨front.reverse,?_⟩
        rw [← whole,← same]
        simp
    next => exact absurd same.symm filled
  unfold configured at defines
  split at defines
  next suffixed =>
    have star (extension : String) (filled : extension ≠ "") (plain : extension.toList.all literal = true)
        (same : suffix name = extension) : fnmatch name ("*" ++ extension) = true := by
      rw [fnmatch_star plain]
      exact decide_eq_true (ends extension filled same)
    simp only [List.mem_cons,List.not_mem_nil,or_false] at suffixed
    refine List.any_eq_true.mpr ?_
    rcases suffixed with same | same | same
    · exact ⟨_,List.mem_cons_self,star ".yaml" (by decide) (by decide) same⟩
    · exact ⟨_,List.mem_cons_of_mem _ List.mem_cons_self,star ".yml" (by decide) (by decide) same⟩
    · exact ⟨_,List.mem_cons_of_mem _ (List.mem_cons_of_mem _ List.mem_cons_self),star ".json" (by decide) (by decide) same⟩
  next => cases defines

theorem agrees_any (names : List String) (level : Nat) : Agrees [] level names := by
  induction names generalizing level with
  | nil => trivial
  | cons name rest ih => exact ⟨rfl,ih (level+1)⟩

/-- The disk is a mirror of what the storage has below the workflows of a space. -/
structure Mirrors (root : Root) (remote : Remote χ) (space : Name) (files after : Local χ) : Prop where
  own : ∀ rest, onDisk root after space rest =
    if rest.length = 5 ∧ defaultPatterns.any (fnmatch (rest.getLastD "")) = true then inStorage remote space rest else none
  other : ∀ names, ¬ workflowsFolder root space <+: names → after.lookup names = files.lookup names

theorem syncOwner_whole (remote : Remote χ) (tidy : Tidy deployment.root files) (owner : Owner) :
    ∃ after, deployment.syncOwner remote (some owner) "" files = (.ok (),after) ∧ Tidy deployment.root after ∧
      Mirrors deployment.root remote owner.code files after := by
  obtain ⟨touches,same,kept,looked⟩ := tidy.sync remote defaultPatterns owner.code ""
  rw [localFolder_whole] at looked
  refine ⟨deployment.touched remote files touches,?_,kept,fun rest => ?_,fun names outside => ?_⟩
  · simp only [Deployment.syncOwner,same]
  · rcases looked (workflowsFolder deployment.root owner.code ++ rest) with ⟨others,chosen,equal,found⟩ | ⟨apart,found⟩
    · cases List.append_cancel_left equal
      rw [if_pos ⟨chosen.1,chosen.2.2.1⟩]
      exact found
    · refine found.trans ?_
      have gone : (if workflowsFolder deployment.root owner.code <+: workflowsFolder deployment.root owner.code ++ rest ∧
          workflowsFolder deployment.root owner.code ≠ workflowsFolder deployment.root owner.code ++ rest then none
          else files.lookup (workflowsFolder deployment.root owner.code ++ rest)) = none := by
        split
        · rfl
        next stays =>
          cases lookup : files.lookup (workflowsFolder deployment.root owner.code ++ rest) with
          | none => rfl
          | some content =>
            have deep := tidy.deep _ (tidy.lookup_iff.mp lookup)
            refine absurd ⟨List.prefix_append _ _,fun same => ?_⟩ stays
            rw [← same] at deep
            simp [workflowsFolder] at deep
      rw [gone]
      split
      next fits =>
        cases stored : inStorage remote owner.code rest with
        | none => rfl
        | some content =>
          exact absurd rfl (apart rest ⟨fits.1,agrees_any _ _,fits.2,Option.isSome_of_eq_some stored⟩)
      · rfl
  · rcases looked names with ⟨rest,_,rfl,_⟩ | ⟨_,found⟩
    · exact absurd (List.prefix_append _ _) outside
    · rw [if_neg (fun inside => outside inside.1)] at found
      exact found

theorem Mirrors.defines {after : Local χ} (mirrors : Mirrors deployment.root remote owner.code files after) :
    deployment.Defines owner (onDisk deployment.root after owner.code) key definition ↔
      deployment.Defines owner (inStorage remote owner.code) key definition := by
  constructor
  · intro defines
    obtain ⟨rest,held,five,found,named,made⟩ := defines
    rw [mirrors.own,if_pos ⟨five,defining_copied made⟩] at found
    exact ⟨rest,held,five,found,named,made⟩
  · intro defines
    obtain ⟨rest,held,five,found,named,made⟩ := defines
    refine ⟨rest,held,five,?_,named,made⟩
    rw [mirrors.own,if_pos ⟨five,defining_copied made⟩]
    exact found

/-- What a load for a space from the disk makes of a dictionary. -/
theorem load_defines (tidy : Tidy deployment.root files) (owner : Owner) (workflows : List (String × Definition)) (key : String) :
    (∃ definition, deployment.Defines owner (onDisk deployment.root files owner.code) key definition ∧
      (loadWorkflowsForSchema ⟨owner.space,deployment.definitionFiles files owner.code.text⟩ workflows).lookup key =
        some definition) ∨
    (∀ definition, ¬ deployment.Defines owner (onDisk deployment.root files owner.code) key definition) ∧
      (loadWorkflowsForSchema ⟨owner.space,deployment.definitionFiles files owner.code.text⟩ workflows).lookup key =
        workflows.lookup key := by
  rcases lookup_load ⟨owner.space,deployment.definitionFiles files owner.code.text⟩ workflows key with
    ⟨file,member,definition,defines,found⟩ | ⟨none,found⟩
  · exact .inl ⟨definition,(definitionFiles_defines tidy).mp ⟨file,member,defines⟩,found⟩
  · refine .inr ⟨fun definition defines => ?_,found⟩
    obtain ⟨file,member,made⟩ := (definitionFiles_defines tidy).mpr defines
    exact none file member definition made

end definitions

section copying
variable {χ : Type} {deployment : Deployment χ} {files middle after : Local χ} {remote : Remote χ}

/-- A tidy disk on which every file was there before, or is in the storage. -/
structure Refilled (root : Root) (remote : Remote χ) (files after : Local χ) : Prop where
  tidy : Tidy root after
  source : ∀ space rest content, onDisk root after space rest = some content →
    onDisk root files space rest = some content ∨ inStorage remote space rest = some content

theorem Refilled.refl {root : Root} (tidy : Tidy root files) : Refilled root remote files files :=
  ⟨tidy,fun _ _ _ => .inl⟩

theorem Refilled.trans {root : Root} (first : Refilled root remote files middle) (second : Refilled root remote middle after) :
    Refilled root remote files after :=
  ⟨second.tidy,fun space rest content found => (second.source space rest content found).elim
    (first.source space rest content) .inr⟩

theorem sync_refilled (remote : Remote χ) (tidy : Tidy deployment.root files) (patterns : List String) (space : Name) (modulePath : String) :
    ∃ touches, syncForSchema deployment.root (remote.world (existing files)) patterns space modulePath = (touches,none) ∧
      Refilled deployment.root remote files (deployment.touched remote files touches) := by
  obtain ⟨touches,same,kept,looked⟩ := tidy.sync remote patterns space modulePath
  refine ⟨touches,same,kept,fun other rest content found => ?_⟩
  rcases looked (workflowsFolder deployment.root other ++ rest) with ⟨more,_,here,copied⟩ | ⟨_,left⟩
  · obtain ⟨name,rfl⟩ := workflowsFolder_inj here
    refine .inr ?_
    have stored : storedAt other rest = storedAt space rest := by rw [storedAt,storedAt,name]
    rw [inStorage,stored,← copied]
    exact found
  · have lookup := left.symm.trans found
    split at lookup
    · cases lookup
    · exact .inl lookup

theorem syncOwner_refilled (remote : Remote χ) (tidy : Tidy deployment.root files) (owner : Option Owner) (modulePath : String) :
    Refilled deployment.root remote files (deployment.syncOwner remote owner modulePath files).2 := by
  cases owner with
  | none => exact .refl tidy
  | some owner =>
    obtain ⟨touches,same,refilled⟩ := sync_refilled remote tidy defaultPatterns owner.code modulePath
    simp only [Deployment.syncOwner,same]
    exact refilled

theorem syncSchemas_refilled (schemas : List String) (tidy : Tidy deployment.root files) (session : Session) :
    Refilled deployment.root remote files (deployment.syncSchemas remote schemas files session).2.1 ∧
      (deployment.syncSchemas remote schemas files session).2.2.workflows = session.workflows := by
  induction schemas generalizing files session with
  | nil => exact ⟨.refl tidy,rfl⟩
  | cons schema rest ih =>
    have first := syncOwner_refilled remote tidy (deployment.owner schema) ""
    unfold Deployment.syncSchemas
    split
    · exact ⟨.refl tidy,rfl⟩
    · split
      next same =>
        rw [same] at first
        exact ⟨first,rfl⟩
      next same =>
        rw [same] at first
        obtain ⟨others,kept⟩ := ih first.tidy ((session.setSearchPath schema).setSearchPath "public")
        exact ⟨first.trans others,kept⟩

theorem syncRemoteStorage_refilled (remote : Remote χ) (spaceCode : Option String) (tidy : Tidy deployment.root files) (session : Session) :
    Refilled deployment.root remote files (deployment.syncRemoteStorage remote spaceCode files session).2.1 ∧
      (deployment.syncRemoteStorage remote spaceCode files session).2.2.workflows = session.workflows := by
  unfold Deployment.syncRemoteStorage
  split
  · split
    · exact syncSchemas_refilled _ tidy session
    · exact ⟨.refl tidy,rfl⟩
  · exact syncSchemas_refilled _ tidy session

theorem importFiles_refilled (owner : Owner) (modulePath : String) (items : List Yaml) (tidy : Tidy deployment.root files) :
    Refilled deployment.root remote files (deployment.importFiles remote owner modulePath items files) := by
  induction items generalizing files with
  | nil => exact .refl tidy
  | cons item rest ih =>
    have one : ∃ touches error, syncImport deployment.root owner.code modulePath (remote.world (existing files)) item =
        (touches,error) ∧ Refilled deployment.root remote files (deployment.touched remote files touches) := by
      unfold syncImport
      split
      · split
        · exact ⟨[],_,rfl,.refl tidy⟩
        next folder pattern _ =>
          obtain ⟨touches,same,refilled⟩ := sync_refilled remote tidy [pattern] owner.code folder
          exact ⟨touches,none,same,refilled⟩
      · exact ⟨[],_,rfl,.refl tidy⟩
    obtain ⟨touches,error,same,refilled⟩ := one
    simp only [Deployment.importFiles,same]
    cases error with
    | some => exact refilled
    | none => exact refilled.trans (ih refilled.tidy)

theorem stepFiles_refilled (owner : Option Owner) (modulePath : String) (imports : List Yaml) (tidy : Tidy deployment.root files) :
    Refilled deployment.root remote files (deployment.stepFiles remote owner modulePath imports files) := by
  have first := syncOwner_refilled remote tidy owner modulePath
  unfold Deployment.stepFiles
  split
  next same =>
    rw [same] at first
    exact first.trans (importFiles_refilled _ _ _ first.tidy)
  next same =>
    rw [same] at first
    exact first

theorem lookUpFiles_refilled (owner : Option Owner) (userCode : String) (tidy : Tidy deployment.root files) (session : Session) :
    Refilled deployment.root remote files (deployment.lookUpFiles remote owner userCode files session) := by
  unfold Deployment.lookUpFiles
  split
  · exact syncOwner_refilled remote tidy owner _
  · exact .refl tidy

theorem refreshStorage_files (spaceCode : String) (session : Session) :
    (deployment.refreshStorage remote spaceCode files session).1 =
      (deployment.syncRemoteStorage remote (some spaceCode) files session).2.1 := by
  unfold Deployment.refreshStorage
  split <;> next same => rw [same]

end copying

section loading
variable {χ : Type} {deployment : Deployment χ} {files : Local χ} {key : String} {definition : Definition}

theorem site_loads {schemas : List String} {load : Load} (among : load ∈ (deployment.site files).loads schemas) :
    ∃ schema owner, deployment.owner schema = some owner ∧
      load = ⟨owner.space,deployment.definitionFiles files owner.code.text⟩ := by
  induction schemas with
  | nil => cases among
  | cons schema rest ih =>
    unfold Site.loads at among
    split at among
    · exact ih among
    · split at among
      · rcases List.mem_append.mp among with first | later
        · simp only [Site.load,Deployment.site,Option.map_map,Option.mem_toList,Option.map_eq_some_iff] at first
          obtain ⟨owner,owned,rfl⟩ := first
          exact ⟨schema,owner,owned,rfl⟩
        · exact ih later
      · cases among

/-- What a dictionary holds after some loads was there before, or is on the disk. -/
theorem registered_source (tidy : Tidy deployment.root files) (spaceCode : Option String) (session : Session)
    (found : (registerWorkflows (deployment.site files) spaceCode session).2.workflows.lookup key = some definition) :
    session.workflows.lookup key = some definition ∨ ∃ schema owner, deployment.owner schema = some owner ∧
      deployment.Defines owner (onDisk deployment.root files owner.code) key definition := by
  have every : ∀ load ∈ (Registration.mk (deployment.site files) spaceCode).loads, ∃ schema owner,
      deployment.owner schema = some owner ∧ load = ⟨owner.space,deployment.definitionFiles files owner.code.text⟩ := by
    intro load among
    unfold Registration.loads at among
    split at among
    · split at among
      · exact site_loads among
      · cases among
    · exact site_loads among
  rw [registerWorkflows_loads ⟨deployment.site files,spaceCode⟩] at found
  unfold loaded at found
  generalize (Registration.mk (deployment.site files) spaceCode).loads = loads at every found
  generalize session.workflows = workflows at found ⊢
  induction loads generalizing workflows with
  | nil => exact .inl found
  | cons load rest ih =>
    obtain ⟨⟨schema,owner,owned,rfl⟩,others⟩ := List.forall_mem_cons.mp every
    rcases ih others _ found with before | later
    · rcases load_defines tidy owner workflows key with ⟨other,defines,here⟩ | ⟨_,kept⟩
      · cases here.symm.trans before
        exact .inr ⟨schema,owner,owned,defines⟩
      · exact .inl (kept.symm.trans before)
    · exact .inr later

theorem getByUserCode_session (finding : Finding) (userCode : String) (session : Session) :
    (getByUserCode finding userCode session).2 = session ∨ ∃ space,
      (getByUserCode finding userCode session).2 = (registerWorkflows finding.site space session).2 := by
  unfold getByUserCode
  split
  · exact .inl rfl
  · split
    · exact .inl rfl
    · split
      · exact .inl rfl
      · refine .inr ⟨some (leadingSpace userCode),?_⟩
        split
        next same => rw [same]
        next same =>
          rw [same]
          split <;> rfl

theorem refreshStorage_session (remote : Remote χ) (spaceCode : String) (session : Session) : ∃ left,
    left.workflows = (deployment.syncRemoteStorage remote (some spaceCode) files session).2.2.workflows ∧
    ((deployment.refreshStorage remote spaceCode files session).2 = left ∨
      (deployment.refreshStorage remote spaceCode files session).2 =
        (registerWorkflows (deployment.site (deployment.refreshStorage remote spaceCode files session).1) (some spaceCode) left).2) := by
  unfold Deployment.refreshStorage
  split
  next same => exact ⟨_,by rw [same],.inl rfl⟩
  next same => exact ⟨_,by rw [same],.inr rfl⟩

end loading

section history
variable {χ : Type} {deployment : Deployment χ} {key : String} {definition : Definition}

def Operation.stored : Operation χ → Option (Remote χ)
  | .store remote => some remote
  | _ => none

/-- The space codes have no dots. -/
def Deployment.Plain (deployment : Deployment χ) : Prop :=
  ∀ schema owner, deployment.owner schema = some owner → Without '.' owner.code.text

/-- The definition was in one of these storages, below the workflows of a space. -/
def Deployment.Stored (deployment : Deployment χ) (storages : List (Remote χ)) (code : Name) (key : String)
    (definition : Definition) : Prop :=
  ∃ schema owner remote, deployment.owner schema = some owner ∧ owner.code = code ∧ remote ∈ storages ∧
    deployment.Defines owner (inStorage remote code) key definition

/-- What the disk has of a space was in one of these storages, and so was what the process
holds of it, unless it is stale. -/
structure Since (deployment : Deployment χ) (storages : List (Remote χ)) (code : Name) (process : Nat)
    (stale : String → Definition → Prop) (depot : Depot χ) : Prop where
  tidy : Tidy deployment.root depot.files
  current : depot.remote ∈ storages
  files : ∀ rest content, onDisk deployment.root depot.files code rest = some content →
    ∃ remote ∈ storages, inStorage remote code rest = some content
  definitions : ∀ key definition, (depot.sessions process).workflows.lookup key = some definition →
    startsWith (code.text ++ ".") key = true → deployment.Stored storages code key definition ∨ stale key definition

/-- The key of a definition names its space. -/
theorem Deployment.Defines.code {owner : Owner} {content : List String → Option χ} {code : Name}
    (defines : deployment.Defines owner content key definition) (dotless : Without '.' owner.code.text)
    (plain : Without '.' code.text) (starts : startsWith (code.text ++ ".") key = true) : owner.code = code := by
  obtain ⟨_,_,_,_,_,made⟩ := defines
  unfold configured at made
  split at made
  · obtain ⟨_,_,configured⟩ := Option.bind_eq_some_iff.mp made
    obtain ⟨_,userCode,_,_,_,named⟩ := configure_owned configured
    obtain ⟨rest,same⟩ := startsWith_iff.mp starts
    have equal : owner.code.text ++ String.singleton '.' ++ userCode = code.text ++ String.singleton '.' ++ rest :=
      named.symm.trans same
    have text := (append_separator_inj dotless plain equal).1
    cases same_name : owner.code
    cases code
    rw [same_name] at text
    cases text
    rfl
  · cases made

/-- Whatever is done, the disk gets its files from the storage. -/
theorem Operation.refilled {depot : Depot χ} (operation : Operation χ) (tidy : Tidy deployment.root depot.files) :
    Refilled deployment.root depot.remote depot.files (operation.run deployment depot).files := by
  cases operation with
  | store | start => exact .refl tidy
  | refresh process spaceCode =>
    simp only [Operation.run,Depot.write,refreshStorage_files]
    exact (syncRemoteStorage_refilled _ _ tidy _).1
  | syncAll process => exact (syncRemoteStorage_refilled _ none tidy _).1
  | lookUp process schema userCode => exact lookUpFiles_refilled _ userCode tidy _
  | step schema name imports => exact stepFiles_refilled _ _ _ tidy

theorem begun_tidy (remote : Remote χ) : Tidy deployment.root (Depot.begun remote).files :=
  ⟨List.nodup_nil,fun _ member => absurd member List.not_mem_nil⟩

theorem Tidy.run {depot : Depot χ} (tidy : Tidy deployment.root depot.files) (history : List (Operation χ)) :
    Tidy deployment.root (depot.after deployment history).files := by
  induction history generalizing depot with
  | nil => exact tidy
  | cons operation rest ih => exact ih (operation.refilled tidy).tidy

/-- Whatever a process does, what it then holds it held before, or it lies on the disk. -/
theorem Operation.reads {depot : Depot χ} (operation : Operation χ) (tidy : Tidy deployment.root depot.files) (process : Nat)
    (found : ((operation.run deployment depot).sessions process).workflows.lookup key = some definition) :
    (depot.sessions process).workflows.lookup key = some definition ∨ ∃ schema owner, deployment.owner schema = some owner ∧
      deployment.Defines owner (onDisk deployment.root (operation.run deployment depot).files owner.code) key definition := by
  have kept := (operation.refilled tidy).tidy
  have other {writer : Nat} {files : Local χ} {session : Session} (apart : process ≠ writer) :
      (depot.write writer files session).sessions process = depot.sessions process := if_neg apart
  have own {files : Local χ} {session : Session} : (depot.write process files session).sessions process = session := if_pos rfl
  cases operation with
  | store remote => exact .inl found
  | step schema name imports => exact .inl found
  | start writer =>
    by_cases same : process = writer
    · subst same
      rw [Operation.run,own] at found
      exact (registered_source tidy none ⟨[],[]⟩ found).elim (fun none => nomatch none) .inr
    · rw [Operation.run,other same] at found
      exact .inl found
  | refresh writer spaceCode =>
    by_cases same : process = writer
    · subst same
      have copied := (syncRemoteStorage_refilled depot.remote (some spaceCode) tidy (depot.sessions process)).2
      simp only [Operation.run,own] at found
      obtain ⟨left,source,same | same⟩ := refreshStorage_session depot.remote spaceCode (depot.sessions process)
      · rw [same,source,copied] at found
        exact .inl found
      · rw [same] at found
        have sources := registered_source kept _ left found
        rw [source,copied] at sources
        exact sources
    · simp only [Operation.run,other same] at found
      exact .inl found
  | syncAll writer =>
    by_cases same : process = writer
    · subst same
      have copied := (syncRemoteStorage_refilled depot.remote none tidy (depot.sessions process)).2
      simp only [Operation.run,own,copied] at found
      exact .inl found
    · simp only [Operation.run,other same] at found
      exact .inl found
  | lookUp writer schema userCode =>
    by_cases same : process = writer
    · subst same
      simp only [Operation.run,own] at found
      rcases getByUserCode_session _ userCode (depot.sessions process) with same | ⟨space,same⟩
      · rw [same] at found
        exact .inl found
      · rw [same] at found
        exact registered_source kept space _ found
    · simp only [Operation.run,other same] at found
      exact .inl found

section step
variable {storages : List (Remote χ)} {code : Name} {process : Nat} {stale : String → Definition → Prop} {depot : Depot χ}

theorem Since.mono {more : List (Remote χ)} (since : Since deployment storages code process stale depot)
    (grows : storages ⊆ more) : Since deployment more code process stale depot := by
  refine ⟨since.tidy,grows since.current,fun rest content found => ?_,fun key definition found starts => ?_⟩
  · obtain ⟨remote,among,there⟩ := since.files rest content found
    exact ⟨remote,grows among,there⟩
  · refine (since.definitions key definition found starts).imp_left (fun stored => ?_)
    obtain ⟨schema,owner,remote,owned,own,among,defines⟩ := stored
    exact ⟨schema,owner,remote,owned,own,grows among,defines⟩

theorem Operation.remote_run (operation : Operation χ) (depot : Depot χ) :
    (operation.run deployment depot).remote = operation.stored.getD depot.remote := by
  cases operation <;> rfl

theorem Since.step (since : Since deployment storages code process stale depot) (plain : deployment.Plain)
    (dotless : Without '.' code.text) (operation : Operation χ) :
    Since deployment (storages ++ operation.stored.toList) code process stale (operation.run deployment depot) := by
  have grows : storages ⊆ storages ++ operation.stored.toList := List.subset_append_left _ _
  have refilled := operation.refilled since.tidy
  have disk : ∀ rest content, onDisk deployment.root (operation.run deployment depot).files code rest = some content →
      ∃ remote ∈ storages, inStorage remote code rest = some content := by
    intro rest content found
    rcases refilled.source code rest content found with before | now
    · exact since.files rest content before
    · exact ⟨depot.remote,since.current,now⟩
  refine ⟨refilled.tidy,?_,fun rest content found => ?_,fun key definition found starts => ?_⟩
  · rw [operation.remote_run]
    cases operation.stored with
    | none => simpa using since.current
    | some remote => simp
  · obtain ⟨remote,among,there⟩ := disk rest content found
    exact ⟨remote,grows among,there⟩
  · rcases operation.reads since.tidy process found with before | ⟨schema,owner,owned,defines⟩
    · exact (since.mono grows).definitions key definition before starts
    · have own := defines.code (plain schema owner owned) dotless starts
      obtain ⟨rest,held,five,found,named,made⟩ := defines
      rw [own] at found
      obtain ⟨remote,among,there⟩ := disk rest held found
      exact .inl ⟨schema,owner,remote,owned,own,grows among,rest,held,five,there,named,made⟩

theorem Since.run (since : Since deployment storages code process stale depot) (plain : deployment.Plain)
    (dotless : Without '.' code.text) (history : List (Operation χ)) :
    Since deployment (storages ++ history.filterMap Operation.stored) code process stale (depot.after deployment history) := by
  induction history generalizing storages depot with
  | nil =>
    rw [List.filterMap_nil,List.append_nil]
    exact since
  | cons operation rest ih =>
    have next := ih (since.step plain dotless operation)
    rw [List.append_assoc] at next
    have sources : operation.stored.toList ++ rest.filterMap Operation.stored = (operation::rest).filterMap Operation.stored := by
      rw [List.filterMap_cons]
      cases operation.stored <;> rfl
    rwa [sources] at next

end step

section runs
variable (remote : Remote χ) (history : List (Operation χ))

theorem begun_since (deployment : Deployment χ) (remote : Remote χ) (code : Name) (process : Nat) :
    Since deployment [remote] code process (fun _ _ => False) (Depot.begun remote) :=
  ⟨begun_tidy remote,List.mem_singleton.mpr rfl,fun _ _ (found : none = some _) => (nomatch found),
    fun _ _ (found : none = some _) => (nomatch found)⟩

/-- The disk and the dictionaries after a process has refreshed a space. -/
structure Refreshed (deployment : Deployment χ) (owner : Owner) (process : Nat) (before after : Depot χ) : Prop where
  mirrors : Mirrors deployment.root before.remote owner.code before.files after.files
  remote : after.remote = before.remote
  current : ∀ key, (∃ definition, deployment.Defines owner (inStorage before.remote owner.code) key definition) →
    ∃ definition, deployment.Defines owner (inStorage before.remote owner.code) key definition ∧
      (after.sessions process).workflows.lookup key = some definition
  stale : ∀ key, (∀ definition, ¬ deployment.Defines owner (inStorage before.remote owner.code) key definition) →
    (after.sessions process).workflows.lookup key = (before.sessions process).workflows.lookup key
  others : ∀ other, other ≠ process → after.sessions other = before.sessions other

/-- A process can refresh a space: its schema is there, and the database takes its name as a search path. -/
structure Refreshable (deployment : Deployment χ) (spaceCode : String) (owner : Owner) : Prop where
  known : deployment.known spaceCode = true
  accepted : deployment.refuses spaceCode = none
  owned : deployment.owner spaceCode = some owner
  named : spaceCode ≠ "" ∧ spaceCode ≠ "public"

theorem refresh_run {depot : Depot χ} {spaceCode : String} {owner : Owner} (tidy : Tidy deployment.root depot.files)
    (refreshable : Refreshable deployment spaceCode owner) (process : Nat) :
    Refreshed deployment owner process depot ((Operation.refresh process spaceCode).run deployment depot) := by
  obtain ⟨after,copied,kept,mirrors⟩ := syncOwner_whole depot.remote tidy owner
  have filtered : (some spaceCode).filter (· != "") = some spaceCode := by
    simp [refreshable.named.1]
  have synced (session : Session) : deployment.syncRemoteStorage depot.remote (some spaceCode) depot.files session =
      (.ok (),after,(session.setSearchPath spaceCode).setSearchPath "public") := by
    simp [Deployment.syncRemoteStorage,filtered,refreshable.known,Deployment.syncSchemas,refreshable.accepted,refreshable.owned,
      copied]
  have registered (session : Session) : (registerWorkflows (deployment.site after) (some spaceCode) session).2.workflows =
      loadWorkflowsForSchema ⟨owner.space,deployment.definitionFiles after owner.code.text⟩ session.workflows := by
    rw [registerWorkflows_loads ⟨deployment.site after,some spaceCode⟩]
    simp [Registration.loads,filtered,Deployment.site,refreshable.known,Site.loads,refreshable.named.2,refreshable.accepted,
      Site.load,refreshable.owned,loaded]
    rfl
  have refreshed : deployment.refreshStorage depot.remote spaceCode depot.files (depot.sessions process) =
      (after,(registerWorkflows (deployment.site after) (some spaceCode)
        (((depot.sessions process).setSearchPath spaceCode).setSearchPath "public")).2) := by
    simp only [Deployment.refreshStorage,synced]
  have session : (((Operation.refresh process spaceCode).run deployment depot).sessions process).workflows =
      loadWorkflowsForSchema ⟨owner.space,deployment.definitionFiles after owner.code.text⟩ (depot.sessions process).workflows := by
    simp only [Operation.run,Depot.write,refreshed,if_true,registered]
    rfl
  have loads := load_defines kept owner (depot.sessions process).workflows
  refine ⟨?_,rfl,fun key defined => ?_,fun key none => ?_,fun other apart => if_neg apart⟩
  · simp only [Operation.run,Depot.write,refreshed]
    exact mirrors
  · rw [session]
    rcases loads key with ⟨definition,defines,found⟩ | ⟨none,_⟩
    · exact ⟨definition,mirrors.defines.mp defines,found⟩
    · obtain ⟨definition,defines⟩ := defined
      exact absurd (mirrors.defines.mpr defines) (none definition)
  · rw [session]
    rcases loads key with ⟨definition,defines,_⟩ | ⟨_,kept⟩
    · exact absurd (mirrors.defines.mp defines) (none definition)
    · exact kept

/-- Whatever was stored, copied and read before, by whichever processes: a refresh makes the disk a mirror of the space in
the storage and leaves the rest of the disk, and the process then holds what the storage defines. A definition that the
storage has no longer stays. -/
theorem refresh_mirrors {spaceCode : String} {owner : Owner} (refreshable : Refreshable deployment spaceCode owner)
    (process : Nat) :
    Refreshed deployment owner process ((Depot.begun remote).after deployment history)
      ((Depot.begun remote).after deployment (history ++ [.refresh process spaceCode])) := by
  have last : (Depot.begun remote).after deployment (history ++ [.refresh process spaceCode]) =
      (Operation.refresh process spaceCode).run deployment ((Depot.begun remote).after deployment history) := by
    simp [Depot.after]
  rw [last]
  exact refresh_run ((begun_tidy remote).run history) refreshable process

/-- Whatever a process holds of a space was in the storage at some time, below the workflows of the space. After a refresh
it is what the storage had then or later, or the storage had no such definition then and the process has kept its own. -/
theorem definitions_fresh (plain : deployment.Plain) {spaceCode : String} {owner : Owner} (refreshable : Refreshable deployment spaceCode owner)
    (process : Nat) :
    (∀ key definition, (((Depot.begun remote).after deployment history).sessions process).workflows.lookup key =
        some definition → startsWith (owner.code.text ++ ".") key = true →
      deployment.Stored (remote::history.filterMap Operation.stored) owner.code key definition) ∧
    ∀ later key definition, (((Depot.begun remote).after deployment (history ++ .refresh process spaceCode::later)).sessions
        process).workflows.lookup key = some definition → startsWith (owner.code.text ++ ".") key = true →
      deployment.Stored (((Depot.begun remote).after deployment history).remote::later.filterMap Operation.stored)
        owner.code key definition ∨
      (∀ other, ¬ deployment.Defines owner (inStorage ((Depot.begun remote).after deployment history).remote owner.code)
        key other) ∧
        (((Depot.begun remote).after deployment history).sessions process).workflows.lookup key = some definition := by
  have dotless := plain spaceCode owner refreshable.owned
  refine ⟨fun key definition found starts => ?_,fun later key definition found starts => ?_⟩
  · have since := (begun_since deployment remote owner.code process).run plain dotless history
    exact (since.definitions key definition found starts).resolve_right id
  · generalize same : (Depot.begun remote).after deployment history = before at *
    have tidy : Tidy deployment.root before.files := same ▸ (begun_tidy remote).run history
    have split : (Depot.begun remote).after deployment (history ++ .refresh process spaceCode::later) =
        ((Operation.refresh process spaceCode).run deployment before).after deployment later := by
      rw [← same]
      simp [Depot.after]
    rw [split] at found
    have refreshed := refresh_run tidy refreshable process
    have since : Since deployment [before.remote] owner.code process (fun key definition =>
        (∀ other, ¬ deployment.Defines owner (inStorage before.remote owner.code) key other) ∧
          (before.sessions process).workflows.lookup key = some definition)
        ((Operation.refresh process spaceCode).run deployment before) := by
      refine ⟨((Operation.refresh process spaceCode).refilled tidy).tidy,by rw [refreshed.remote]; exact List.mem_singleton.mpr rfl,
        fun rest content found => ?_,fun key definition found _ => ?_⟩
      · rw [refreshed.mirrors.own] at found
        split at found
        · exact ⟨_,List.mem_singleton.mpr rfl,found⟩
        · cases found
      · by_cases defined : ∃ other, deployment.Defines owner (inStorage before.remote owner.code) key other
        · obtain ⟨other,defines,held⟩ := refreshed.current key defined
          cases held.symm.trans found
          exact .inl ⟨spaceCode,owner,before.remote,refreshable.owned,rfl,List.mem_singleton.mpr rfl,defines⟩
        · have none := not_exists.mp defined
          exact .inr ⟨none,(refreshed.stale key none).symm.trans found⟩
    exact (since.run plain dotless later).definitions key definition found starts

end runs
end history

section samples

/-- One space, whose definition files hold nothing but a user code. -/
def oneOwner : Deployment String where
  root := storageRoot
  schemas := ["space0"]
  known code := code == "space0"
  refuses _ := none
  owner schema := if schema = "space0" then some ⟨none,firstSpace⟩ else none
  parse _ content := some (.map [(.str "workflow",.map [(.str "user_code",.str content)])])
  scan := id
  scanned _ := .refl _

def storedFlow (userCode : String) : Remote String where
  files := [(["space0","workflows","com","finmars","pack","flow","workflow.yaml"],userCode)]
  plain := List.forall_mem_singleton.mpr (show Downward ["space0","workflows","com","finmars","pack","flow","workflow.yaml"] by decide)
  keyed := List.nodup_singleton _

theorem oneOwner_refreshable : Refreshable oneOwner "space0" ⟨none,firstSpace⟩ :=
  ⟨by decide,rfl,rfl,by decide⟩

theorem oneOwner_plain : oneOwner.Plain := by
  intro schema owner owned
  simp only [oneOwner] at owned
  split at owned
  · cases owned
    decide
  · cases owned

theorem storedFlow_defines (userCode : String) : ∃ definition, oneOwner.Defines ⟨none,firstSpace⟩
    (inStorage (storedFlow userCode) firstSpace) ("space0." ++ userCode) definition :=
  ⟨_,["com","finmars","pack","flow","workflow.yaml"],userCode,rfl,rfl,by decide,rfl⟩

/-- The template is saved under another code: the refresh brings the new one, and keeps the old one. -/
theorem refresh_mirrors_renamed : ∃ definition,
    (((Depot.begun (storedFlow "a:run")).after oneOwner ([.refresh 0 "space0",.store (storedFlow "b:run")] ++
      [.refresh 0 "space0"])).sessions 0).workflows.lookup "space0.b:run" = some definition ∧
    onDisk storageRoot ((Depot.begun (storedFlow "a:run")).after oneOwner ([.refresh 0 "space0",.store (storedFlow "b:run")] ++
      [.refresh 0 "space0"])).files firstSpace ["com","finmars","pack","flow","workflow.yaml"] = some "b:run" := by
  have refreshed := refresh_mirrors (storedFlow "a:run") [.refresh 0 "space0",.store (storedFlow "b:run")] oneOwner_refreshable 0
  obtain ⟨definition,_,found⟩ := refreshed.current "space0.b:run" (storedFlow_defines "b:run")
  exact ⟨definition,found,(refreshed.mirrors.own _).trans (if_pos ⟨rfl,by decide⟩)⟩

/-- A code that is stored after the refresh is not what the process holds. -/
theorem definitions_fresh_renamed : ∃ definition, oneOwner.Stored [storedFlow "a:run",storedFlow "b:run"] firstSpace
    "space0.a:run" definition := by
  have refreshed := refresh_run (begun_tidy (storedFlow "a:run")) oneOwner_refreshable 0
  obtain ⟨definition,defines,found⟩ := refreshed.current "space0.a:run" (storedFlow_defines "a:run")
  have fresh := (definitions_fresh (storedFlow "a:run") [] oneOwner_plain oneOwner_refreshable 0).2 [.store (storedFlow "b:run")]
    "space0.a:run" definition found (by decide)
  exact ⟨definition,fresh.resolve_right (fun stale => stale.1 definition defines)⟩

end samples
end FinmarsWorkflow.Tenant
