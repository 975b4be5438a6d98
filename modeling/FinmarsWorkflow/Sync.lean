import FinmarsWorkflow.Engine
import FinmarsWorkflow.Python.Path
import FinmarsWorkflow.Registry

/-! The folders that a step synchronises before it runs the code of a module.
One folder is given by the name of the task and one by each import of the module;
a folder is deleted locally and the files of the storage are written in its place. -/
namespace FinmarsWorkflow.Tenant
open Python

/-- An absolute normalised folder of the installation. -/
structure Root where
  names : List String
  plain : Downward names
  filled : names ≠ []

def Root.path (root : Root) : String := "/" ++ join '/' root.names

/-- What `listdir` of the storage returns as the name of an entry. -/
structure Entry where
  text : String
  whole : Without '/' text
  up : text ≠ ".."

/-- What a synchronisation finds: the folders of the storage, the files that can be
read, the local folders that exist, and `fnmatch.fnmatch`. -/
structure World where
  listdir : String → Except String (List Entry × List Entry)
  readable : String → Bool
  existing : String → Bool
  fnmatch : String → String → Bool

inductive Touch where
  | delete (path : String)
  | write (path : String)
deriving DecidableEq

def Touch.path : Touch → String
  | .delete path | .write path => path

/-- What was touched, and the exception that ended it. -/
abbrev Outcome := List Touch × Option String

/-- One after the other, up to the first that fails. -/
def inOrder {A : Type} (visit : A → Outcome) : List A → Outcome
  | [] => ([],none)
  | item::rest => match visit item with
    | (touched,some error) => (touched,some error)
    | (touched,none) => (touched ++ (inOrder visit rest).1,(inOrder visit rest).2)

section sync
variable (root : Root) (world : World) (patterns : List String)

/-- `filepath.lstrip("/")` -/
def lstripSlashes (path : String) : String := String.ofList (path.toList.dropWhile (· == '/'))

/-- One file of the innermost folder; a file that cannot be read is skipped. -/
def syncFile (filepath : String) (filename : Entry) : Outcome :=
  let path := filepath ++ "/" ++ filename.text
  if patterns.any (world.fnmatch filename.text) && world.readable path
  then ([.write (joinPaths root.path ["local",lstripSlashes path])],none)
  else ([],none)

/-- `len(components) > level and entry != components[level]` skips the entry. -/
def selected (components : List String) (level : Nat) (entry : Entry) : Bool :=
  (components[level]?).all (· == entry.text)

/-- The nested loops over configurations, organisations, modules and workflows, and
over the files of a workflow, with so many loops still to enter. -/
def syncLevels (components : List String) : Nat → Nat → String → String → Outcome
  | 0,_,folder,filepath => match world.listdir folder with
    | .error error => ([],some error)
    | .ok (_,files) => inOrder (syncFile root world patterns filepath) files
  | more+1,level,folder,filepath => match world.listdir folder with
    | .error error => ([],some error)
    | .ok (directories,_) => inOrder (fun entry => if selected components level entry
        then syncLevels components more (level+1) (joinPath folder entry.text) (filepath ++ "/" ++ entry.text)
        else ([],none)) directories

/-- `local_workflows_folder_path` -/
def localFolder (space : Name) (modulePath : String) : String :=
  joinPaths root.path ["local",space.text,"workflows",modulePath]

/-- `sync_remote_storage_to_local_storage_for_schema` -/
def syncForSchema (space : Name) (modulePath : String) : Outcome :=
  let folder := localFolder root space modulePath
  let remote := joinPaths space.text ["workflows"]
  let components := if modulePath = "" then [] else split '/' modulePath
  let synced := syncLevels root world patterns components 4 0 remote remote
  ((if world.existing folder then [.delete folder] else []) ++ synced.1,synced.2)

end sync

/-- `"*" in segment or "?" in segment` -/
def wild (segment : String) : Bool := contains "*" segment || contains "?" segment

/-- `path.rsplit("/", maxsplit=1)` into two parts. -/
def rsplitSlash (path : String) : Option (String × String) :=
  let parts := split '/' path
  if parts.length < 2 then none else some (join '/' parts.dropLast,parts.getLastD "")

/-- The folder and the pattern of an import. -/
def importFolder (modulePath extra : String) : Option (String × String) :=
  let path := normpath (joinPath modulePath extra)
  if wild ((split '/' path).getLastD "") then rsplitSlash path else some (path,"*.*")

/-- `imports.get("dirs")` of a mapping, or the list itself. -/
def importList (imports : Option Yaml) : List Yaml :=
  match imports.bind (fun value => match value with
    | .map entries => (Yaml.map entries).get "dirs"
    | other => some other) with
  | some (.seq items) => items
  | _ => []

section step
variable (root : Root) (space : Name) (modulePath : String)

/-- One import of the list. -/
def syncImport (world : World) : Yaml → Outcome
  | .str extra => match importFolder modulePath extra with
    | none => ([],some "not enough values to unpack (expected 2, got 1)")
    | some (folder,pattern) => syncForSchema root world [pattern] space folder
  | _ => ([],some "join() argument must be str, bytes, or os.PathLike object")

/-- The loop over the imports, with the number of synchronisations so far. -/
def syncImports (worlds : Nat → World) : Nat → List Yaml → Outcome
  | _,[] => ([],none)
  | count,item::rest => match syncImport root space modulePath (worlds count) item with
    | (touched,some error) => (touched,some error)
    | (touched,none) => (touched ++ (syncImports worlds (count+1) rest).1,(syncImports worlds (count+1) rest).2)

end step

/-- `path.replace(".", "/").replace(":", "/")` of the name of a task without `.task`. -/
def moduleOf (name : String) : String :=
  String.ofList ((targetWorkflowUserCode name).toList.map (fun char => if char = '.' ∨ char = ':' then '/' else char))

def defaultPatterns : List String := ["*.yaml","*.yml","*.json","*.py"]

/-- The synchronisations of a module and its imports. -/
def syncModule (root : Root) (worlds : Nat → World) (space : Name) (modulePath : String) (imports : List Yaml) : Outcome :=
  match syncForSchema root (worlds 0) defaultPatterns space modulePath with
  | (touched,some error) => (touched,some error)
  | (touched,none) => (touched ++ (syncImports root space modulePath worlds 1 imports).1,
      (syncImports root space modulePath worlds 1 imports).2)

/-- The synchronisations of `execute_workflow_step` for a version-1 definition. -/
def syncStep (root : Root) (worlds : Nat → World) (space : Name) (name : String) (imports : Option Yaml) : Outcome :=
  syncModule root worlds space (moduleOf name) (importList imports)

/-- The local folder of the workflows of a space. -/
def workflowsFolder (root : Root) (space : Name) : List String := root.names ++ ["local",space.text,"workflows"]

/-- Where a path leads: to absolute names, or along a route from where it is taken. -/
inductive Target where
  | absolute (names : List String)
  | below (route : Route)

/-- The target lies in the folder when it is taken from there. -/
def Target.Returns (folder : List String) : Target → Prop
  | .absolute names => folder <+: names
  | .below route => route.Returns folder

def destination (path : String) : Target :=
  if startsWith "/" path then .absolute (places path) else .below (relativeRoute path)

section folders
variable {root : Root} {space : Name} {path next : String}

theorem root_places (root : Root) : places root.path = root.names := places_slashes 1 root.plain

theorem root_absolute (root : Root) : startsWith "/" root.path = true := startsWith_iff.mpr ⟨_,rfl⟩

def localName : Name := ⟨"local",by decide,by decide,by decide,by decide⟩

def workflowsName : Name := ⟨"workflows",by decide,by decide,by decide,by decide⟩

theorem workflowsFolder_places (root : Root) (space : Name) :
    places (joinPaths root.path ["local",space.text,"workflows"]) = workflowsFolder root space := by
  change places (joinPath (joinPath (joinPath root.path localName.text) space.text) workflowsName.text) = _
  rw [places_name,places_name,places_name,root_places,workflowsFolder,List.append_assoc,List.append_assoc]
  rfl

theorem workflowsFolder_absolute (root : Root) (space : Name) :
    startsWith "/" (joinPaths root.path ["local",space.text,"workflows"]) = true := by
  change startsWith "/" (joinPath (joinPath (joinPath root.path localName.text) space.text) workflowsName.text) = _
  rw [startsWith_joinPath workflowsName.relative,startsWith_joinPath space.relative,startsWith_joinPath localName.relative]
  exact root_absolute root

/-- The folder of a module path is inside exactly if the path returns there. -/
theorem localFolder_inside (root : Root) (space : Name) (path : String) :
    Inside (workflowsFolder root space) (localFolder root space path) ↔
      (destination path).Returns (workflowsFolder root space) := by
  change Inside _ (joinPath (joinPaths root.path ["local",space.text,"workflows"]) path) ↔ _
  unfold destination
  split
  next absolute => rw [joinPath_absolute absolute,inside_absolute absolute,Target.Returns]
  next relative =>
    rw [Bool.not_eq_true] at relative
    have there : startsWith "/" (joinPath (joinPaths root.path ["local",space.text,"workflows"]) path) = true :=
      (startsWith_joinPath relative).trans (workflowsFolder_absolute root space)
    rw [inside_absolute there,places_joinPath relative,workflowsFolder_places,walk_inside,Target.Returns,relativeRoute]

end folders

/-- Where an import leads: a wildcard at its end names files, not a folder. None if
nothing is left of the path but the wildcard. -/
def importTarget (modulePath extra : String) : Option Target :=
  let path := joinPath modulePath extra
  if startsWith "/" path then
    let names := places path
    if wild (names.getLastD "") then
      if names.length = 1 ∧ initialSlashes path = 1 then some (.below ⟨0,[]⟩) else some (.absolute names.dropLast)
    else some (.absolute names)
  else
    let route := relativeRoute path
    if wild (route.names.getLastD "") then
      if route.ups = 0 ∧ route.names.length = 1 then none else some (.below ⟨route.ups,route.names.dropLast⟩)
    else some (.below route)

section imports
variable {path : String}

theorem destination_absolute (absolute : startsWith "/" path = true) : destination path = .absolute (places path) :=
  if_pos absolute

theorem destination_relative (relative : startsWith "/" path = false) : destination path = .below (relativeRoute path) :=
  if_neg (by simp [relative])

theorem rsplitSlash_concat {front : List String} {last : String} (parts : split '/' path = front ++ [last]) :
    rsplitSlash path = if front = [] then none else some (join '/' front,last) := by
  simp only [rsplitSlash,parts,List.dropLast_concat,List.getLastD_concat,List.length_append,List.length_singleton]
  cases front with
  | nil => rfl
  | cons first rest => simp

/-- The folder of a normalised absolute import. -/
theorem absolute_folder (absolute : startsWith "/" path = true) :
    ((if wild ((split '/' (normpath path)).getLastD "") then rsplitSlash (normpath path) else some (normpath path,"*.*")).map
      (fun folder => destination folder.1)) =
    if wild ((places path).getLastD "") then
      if (places path).length = 1 ∧ initialSlashes path = 1 then some (.below ⟨0,[]⟩) else some (.absolute (places path).dropLast)
    else some (.absolute (places path)) := by
  have whole : destination (normpath path) = .absolute (places path) := by
    rw [destination_absolute (startsWith_normpath.trans absolute),places_normpath absolute]
  have plain := places_plain path
  have parts := split_slashes (initialSlashes path) (join '/' (places path))
  rw [← normpath_absolute absolute] at parts
  rcases (places path).eq_nil_or_concat' with none | ⟨front,last,same⟩
  · rw [none] at parts whole ⊢
    have blank : split '/' (join '/' []) = [""] := rfl
    rw [blank] at parts
    have quiet : wild ((split '/' (normpath path)).getLastD "") = false := by
      rw [parts,List.getLastD_concat]
      decide
    rw [quiet,if_neg Bool.false_ne_true,if_neg (by decide),Option.map_some,whole]
  · rw [same] at parts whole plain ⊢
    rw [split_join (by simp) (fun name member => (plain name member).2.2.2),← List.append_assoc] at parts
    rw [parts,List.getLastD_concat,List.getLastD_concat]
    have several : List.replicate (initialSlashes path) "" ++ front ≠ [] := by
      rcases initialSlashes_absolute absolute with one | two
      · simp [one]
      · simp [two]
    split
    · rw [rsplitSlash_concat parts,if_neg several,Option.map_some,List.dropLast_concat]
      rcases front.eq_nil_or_concat' with rfl | ⟨others,before,rfl⟩
      · rcases initialSlashes_absolute absolute with one | two
        · rw [one]
          rfl
        · have slash : join '/' (List.replicate 2 "" ++ []) = "/" := rfl
          have top : destination "/" = .absolute [] := by
            rw [destination_absolute (by decide),show places "/" = [] by decide]
          rw [two,if_neg (by simp),slash]
          exact congrArg some top
      · have inner : Downward (others ++ [before]) := fun name member => plain name (List.mem_append_left _ member)
        rw [if_neg (by simp),join_slashes (by simp) (fun name member => (inner name member).2.2.2)]
        have slash : startsWith "/" (String.ofList (List.replicate (initialSlashes path) '/') ++ join '/' (others ++ [before])) = true := by
          rcases initialSlashes_absolute absolute with one | two
          · rw [one]
            exact startsWith_iff.mpr ⟨_,rfl⟩
          · rw [two]
            exact startsWith_iff.mpr ⟨String.singleton '/' ++ join '/' (others ++ [before]),rfl⟩
        rw [destination_absolute slash,places_slashes _ inner]
    · rw [Option.map_some,whole]

/-- The folder of a normalised relative import. -/
theorem relative_folder (relative : startsWith "/" path = false) :
    ((if wild ((split '/' (normpath path)).getLastD "") then rsplitSlash (normpath path) else some (normpath path,"*.*")).map
      (fun folder => destination folder.1)) =
    if wild ((relativeRoute path).names.getLastD "") then
      if (relativeRoute path).ups = 0 ∧ (relativeRoute path).names.length = 1 then none
      else some (.below ⟨(relativeRoute path).ups,(relativeRoute path).names.dropLast⟩)
    else some (.below (relativeRoute path)) := by
  have whole : destination (normpath path) = .below (relativeRoute path) := by
    rw [destination_relative (startsWith_normpath.trans relative),relativeRoute_normpath relative]
  have plain := relativeRoute_plain path
  have normal := normpath_relative relative
  rcases (relativeRoute path).names.eq_nil_or_concat' with none | ⟨front,last,same⟩
  · have quiet : wild ((split '/' (normpath path)).getLastD "") = false := by
      rw [normal,none]
      cases ups : (relativeRoute path).ups with
      | zero => decide
      | succ ups =>
        rw [if_neg (by simp),split_join (by simp) (fun name member =>
          (normal_solid _ plain_nil name member).2),List.append_nil,List.replicate_succ',List.getLastD_concat]
        decide
    rw [quiet,if_neg Bool.false_ne_true,none,if_neg (by decide),Option.map_some,whole]
  · have solid := normal_solid (relativeRoute path).ups plain
    have parts : split '/' (normpath path) = (List.replicate (relativeRoute path).ups ".." ++ front) ++ [last] := by
      rw [normal,if_neg (by simp [same]),split_join (by simp [same]) (fun name member => (solid name member).2),same,
        List.append_assoc]
    rw [parts,same,List.getLastD_concat,List.getLastD_concat]
    split
    · rw [rsplitSlash_concat parts,List.dropLast_concat]
      by_cases bare : List.replicate (relativeRoute path).ups ".." ++ front = []
      · have both : (relativeRoute path).ups = 0 ∧ (front ++ [last]).length = 1 := by
          simpa using bare
        rw [if_pos bare,if_pos both,Option.map_none]
      · have more : ¬((relativeRoute path).ups = 0 ∧ (front ++ [last]).length = 1) := by
          simpa using bare
        have inner : Downward front := fun name member => plain name (same ▸ List.mem_append_left _ member)
        have quiet := startsWith_join (normal_solid (relativeRoute path).ups inner)
        rw [if_neg bare,if_neg more,Option.map_some,destination_relative quiet,relativeRoute,
          split_join bare (fun name member => (normal_solid _ inner name member).2),route_normal inner]
    · rw [Option.map_some,whole]

theorem importFolder_target (modulePath extra : String) :
    (importFolder modulePath extra).map (fun folder => destination folder.1) = importTarget modulePath extra := by
  unfold importFolder importTarget
  dsimp only
  by_cases absolute : startsWith "/" (joinPath modulePath extra) = true
  · rw [if_pos absolute,absolute_folder absolute]
  · rw [if_neg absolute,relative_folder (Bool.not_eq_true _ ▸ absolute)]

end imports

def itemTarget (modulePath : String) : Yaml → Option Target
  | .str extra => importTarget modulePath extra
  | _ => none

/-- The folders of the imports, up to the first import that fails. -/
def importTargets (modulePath : String) : List Yaml → List Target
  | [] => []
  | item::rest => match itemTarget modulePath item with
    | some target => target::importTargets modulePath rest
    | none => []

section inside
variable {root : Root} {space : Name} {world : World} {patterns components : List String} {filepath modulePath : String}

/-- Everything touched lies in the folder of the space. -/
def Kept (root : Root) (space : Name) (outcome : Outcome) : Prop :=
  ∀ touch ∈ outcome.1, Inside (workflowsFolder root space) touch.path

theorem kept_none {root : Root} {space : Name} {result : Option String} : Kept root space ([],result) :=
  fun _ member => absurd member List.not_mem_nil

theorem inOrder_kept {A : Type} {visit : A → Outcome} {items : List A} (each : ∀ item ∈ items, Kept root space (visit item)) :
    Kept root space (inOrder visit items) := by
  induction items with
  | nil => exact kept_none
  | cons item rest ih =>
    obtain ⟨here,others⟩ := List.forall_mem_cons.mp each
    unfold inOrder
    split
    next found => exact fun touch member => here touch (found ▸ member)
    next found =>
      intro touch member
      rcases List.mem_append.mp member with first | later
      · exact here touch (found ▸ first)
      · exact ih others touch later

/-- A path of the storage below the workflows of a space. -/
def Stored (space : Name) (path : String) : Prop :=
  ∃ entries, split '/' path = space.text::"workflows"::entries ∧ ∀ entry ∈ entries, entry ≠ ".."

theorem Stored.entry (stored : Stored space filepath) (entry : Entry) : Stored space (filepath ++ "/" ++ entry.text) := by
  obtain ⟨entries,parts,down⟩ := stored
  have joined : split '/' (filepath ++ "/" ++ entry.text) = split '/' filepath ++ split '/' entry.text :=
    split_separator '/' filepath entry.text
  refine ⟨entries ++ [entry.text],?_,fun other member => ?_⟩
  · rw [joined,parts,split_plain entry.whole]
    rfl
  · rcases List.mem_append.mp member with inside | last
    · exact down other inside
    · cases List.mem_singleton.mp last
      exact entry.up

theorem remote_stored (space : Name) : Stored space (joinPaths space.text ["workflows"]) := by
  refine ⟨[],?_,fun _ member => absurd member List.not_mem_nil⟩
  have slash : space.text.toList.getLast? ≠ some '/' := fun last => space.whole (List.mem_of_getLast? last)
  have joined : joinPaths space.text ["workflows"] = space.text ++ "/" ++ "workflows" := by
    change joinPath space.text workflowsName.text = _
    rw [joinPath,if_neg (by decide),if_neg (by simp [space.filled,slash])]
    rfl
  have parts : split '/' (space.text ++ "/" ++ "workflows") = split '/' space.text ++ split '/' "workflows" :=
    split_separator '/' space.text "workflows"
  rw [joined,parts,split_plain space.whole]
  rfl

theorem Stored.relative (stored : Stored space filepath) : startsWith "/" filepath = false := by
  obtain ⟨entries,parts,_⟩ := stored
  by_contra absolute
  obtain ⟨rest,rfl⟩ := startsWith_iff.mp (Bool.not_eq_false _ ▸ absolute)
  have blank : split '/' ("/" ++ rest) = "" :: split '/' rest := split_slashes 1 rest
  rw [blank] at parts
  exact space.filled (List.cons.inj parts).1.symm

theorem lstrip_relative (relative : startsWith "/" filepath = false) : lstripSlashes filepath = filepath := by
  rw [lstripSlashes]
  cases chars : filepath.toList with
  | nil => exact String.toList_inj.mp (by simp [chars])
  | cons head rest =>
    have differs : head ≠ '/' := by
      rintro rfl
      exact Bool.false_ne_true (relative.symm.trans (startsWith_iff.mpr ⟨String.ofList rest,String.toList_inj.mp (by simp [chars])⟩))
    rw [List.dropWhile_cons_of_neg (by simpa using differs),← chars,String.ofList_toList]

/-- A file of the storage is written below the folder of its space. -/
theorem Stored.written (stored : Stored space filepath) :
    Inside (workflowsFolder root space) (joinPaths root.path ["local",lstripSlashes filepath]) := by
  have relative := stored.relative
  obtain ⟨entries,parts,down⟩ := stored
  have absolute : startsWith "/" (joinPath (joinPath root.path localName.text) filepath) = true := by
    rw [startsWith_joinPath relative,startsWith_joinPath localName.relative]
    exact root_absolute root
  rw [lstrip_relative relative]
  change Inside _ (joinPath (joinPath root.path localName.text) filepath)
  rw [inside_absolute absolute,places_joinPath relative,places_name,root_places,parts]
  have enter : walk (root.names ++ ["local"]) (space.text::"workflows"::entries) = walk (workflowsFolder root space) entries := by
    have plain : Downward [space.text,"workflows"] := by
      refine List.forall_mem_cons.mpr ⟨⟨space.filled,space.here,space.up,space.whole⟩,?_⟩
      exact List.forall_mem_cons.mpr ⟨by decide,plain_nil⟩
    have first : walk (root.names ++ ["local"]) ([space.text,"workflows"] ++ entries) = _ := walk_append
    rw [walk_plain plain,List.append_assoc] at first
    exact first
  exact enter ▸ walk_down down

theorem syncLevels_kept (more level : Nat) (folder : String) (stored : Stored space filepath) :
    Kept root space (syncLevels root world patterns components more level folder filepath) := by
  induction more generalizing level folder filepath with
  | zero =>
    unfold syncLevels
    split
    · exact kept_none
    · refine inOrder_kept (fun filename _ => ?_)
      unfold syncFile
      dsimp only
      split
      · intro touch member
        rw [List.mem_singleton.mp member,Touch.path]
        exact (stored.entry filename).written
      · exact kept_none
  | succ more ih =>
    unfold syncLevels
    split
    · exact kept_none
    · refine inOrder_kept (fun entry _ => ?_)
      split
      · exact ih _ _ (stored.entry entry)
      · exact kept_none

/-- A synchronisation touches nothing outside if the folder that it is given returns. -/
theorem syncForSchema_kept (returns : (destination modulePath).Returns (workflowsFolder root space)) :
    Kept root space (syncForSchema root world patterns space modulePath) := by
  intro touch member
  simp only [syncForSchema] at member
  rcases List.mem_append.mp member with deleted | written
  · split at deleted
    · cases List.mem_singleton.mp deleted
      exact (localFolder_inside root space modulePath).mpr returns
    · cases deleted
  · exact syncLevels_kept _ _ _ (remote_stored space) touch written

/-- An import synchronises the folder that it leads to, or fails. -/
theorem syncImport_target (root : Root) (space : Name) (modulePath : String) (world : World) (item : Yaml) :
    (∃ error, itemTarget modulePath item = none ∧ syncImport root space modulePath world item = ([],some error)) ∨
    ∃ folder pattern, itemTarget modulePath item = some (destination folder) ∧
      syncImport root space modulePath world item = syncForSchema root world [pattern] space folder := by
  cases item with
  | str extra =>
    have target := importFolder_target modulePath extra
    unfold syncImport itemTarget
    dsimp only
    cases found : importFolder modulePath extra with
    | none =>
      rw [found] at target
      exact .inl ⟨_,target.symm,rfl⟩
    | some folder =>
      rw [found,Option.map_some] at target
      exact .inr ⟨folder.1,folder.2,target.symm,rfl⟩
  | _ => exact .inl ⟨_,rfl,rfl⟩

theorem syncImports_kept {worlds : Nat → World} {items : List Yaml} (count : Nat)
    (returns : ∀ target ∈ importTargets modulePath items, target.Returns (workflowsFolder root space)) :
    Kept root space (syncImports root space modulePath worlds count items) := by
  induction items generalizing count with
  | nil => exact kept_none
  | cons item rest ih =>
    unfold syncImports
    rcases syncImport_target root space modulePath (worlds count) item with ⟨error,_,failed⟩ | ⟨folder,pattern,leads,synced⟩
    · rw [failed]
      exact kept_none
    · rw [importTargets,leads] at returns
      obtain ⟨here,later⟩ := List.forall_mem_cons.mp returns
      have first : Kept root space (syncForSchema root (worlds count) [pattern] space folder) := syncForSchema_kept here
      rw [synced]
      split
      next same => exact fun touch member => first touch (same ▸ member)
      next same =>
        intro touch member
        rcases List.mem_append.mp member with inside | after
        · exact first touch (same ▸ inside)
        · exact ih _ later touch after

/-- Every folder is there, and the storage is empty. -/
def emptyWorld : World := ⟨fun _ => .ok ([],[]),fun _ => true,fun _ => true,fun _ _ => true⟩

theorem syncForSchema_empty (root : Root) (patterns : List String) (space : Name) (modulePath : String) :
    syncForSchema root emptyWorld patterns space modulePath = ([.delete (localFolder root space modulePath)],none) := rfl

/-- In that world the folder of every import is deleted. -/
theorem syncImports_empty (root : Root) (space : Name) {items : List Yaml} (count : Nat) {target : Target} (among : target ∈ importTargets modulePath items) :
    ∃ folder, target = destination folder ∧
      .delete (localFolder root space folder) ∈ (syncImports root space modulePath (fun _ => emptyWorld) count items).1 := by
  induction items generalizing count with
  | nil => cases among
  | cons item rest ih =>
    unfold syncImports
    rcases syncImport_target root space modulePath emptyWorld item with ⟨error,leads,_⟩ | ⟨folder,pattern,leads,synced⟩
    · rw [importTargets,leads] at among
      cases among
    · rw [synced,syncForSchema_empty]
      rw [importTargets,leads] at among
      rcases List.mem_cons.mp among with rfl | later
      · exact ⟨folder,rfl,List.mem_cons_self⟩
      · obtain ⟨other,same,member⟩ := ih (count+1) later
        exact ⟨other,same,List.mem_cons_of_mem _ member⟩

end inside

theorem syncModule_empty (root : Root) (space : Name) (modulePath : String) (imports : List Yaml) :
    (syncModule root (fun _ => emptyWorld) space modulePath imports).1 =
      .delete (localFolder root space modulePath)::
        (syncImports root space modulePath (fun _ => emptyWorld) 1 imports).1 := by
  rw [syncModule,syncForSchema_empty]
  dsimp only
  rw [List.singleton_append]

theorem syncModule_returns {root : Root} {space : Name} {modulePath : String} {imports : List Yaml}
    (kept : Kept root space (syncModule root (fun _ => emptyWorld) space modulePath imports)) :
    (destination modulePath).Returns (workflowsFolder root space) ∧
      ∀ target ∈ importTargets modulePath imports, target.Returns (workflowsFolder root space) := by
  rw [Kept,syncModule_empty] at kept
  refine ⟨?_,fun target among => ?_⟩
  · have deleted := kept (.delete (localFolder root space modulePath)) List.mem_cons_self
    rwa [Touch.path,localFolder_inside] at deleted
  · obtain ⟨folder,rfl,member⟩ := syncImports_empty root space 1 among
    have deleted := kept (.delete (localFolder root space folder)) (List.mem_cons_of_mem _ member)
    rwa [Touch.path,localFolder_inside] at deleted

theorem syncModule_kept {root : Root} {worlds : Nat → World} {space : Name} {modulePath : String} {imports : List Yaml}
    (named : (destination modulePath).Returns (workflowsFolder root space))
    (imported : ∀ target ∈ importTargets modulePath imports, target.Returns (workflowsFolder root space)) :
    Kept root space (syncModule root worlds space modulePath imports) := by
  have first : Kept root space (syncForSchema root (worlds 0) defaultPatterns space modulePath) :=
    syncForSchema_kept named
  unfold syncModule
  split
  next same => exact fun touch member => first touch (same ▸ member)
  next same =>
    intro touch member
    rcases List.mem_append.mp member with inside | after
    · exact first touch (same ▸ inside)
    · exact syncImports_kept 1 imported touch after

/-- Whatever the step finds, it deletes and writes nothing outside the folder of its space. -/
def SyncStaysInside (root : Root) (space : Name) (name : String) (imports : Option Yaml) : Prop :=
  ∀ worlds, Kept root space (syncStep root worlds space name imports)

/-- The synchronisations of a step stay inside exactly if the module that its task
names and all its imports, up to one that fails, lead into the folder of the space. -/
theorem sync_stays_inside (root : Root) (space : Name) (name : String) (imports : Option Yaml) :
    SyncStaysInside root space name imports ↔
      (destination (moduleOf name)).Returns (workflowsFolder root space) ∧
      ∀ target ∈ importTargets (moduleOf name) (importList imports), target.Returns (workflowsFolder root space) := by
  unfold SyncStaysInside syncStep
  generalize moduleOf name = modulePath
  generalize importList imports = items
  constructor
  · intro kept
    exact syncModule_returns (kept (fun _ => emptyWorld))
  · rintro ⟨named,imported⟩ worlds
    exact syncModule_kept named imported

def storageRoot : Root := ⟨["app","workflow_storage"],by decide,by decide⟩

def firstSpace : Name := ⟨"space0",by decide,by decide,by decide,by decide⟩

/-- An import that climbs out of the module deletes the workflows of another tenant, and
a task name that begins with a colon deletes a folder of the system. -/
theorem sync_leaves_folder :
    ¬SyncStaysInside storageRoot firstSpace "com.a:b.task" (some (.seq [.str "../../../../../space1/workflows"])) ∧
    ¬SyncStaysInside storageRoot firstSpace ":etc" none ∧
    (syncStep storageRoot (fun _ => emptyWorld) firstSpace "com.a:b.task" (some (.seq [.str "../../../../../space1/workflows"]))).1 =
      [.delete "/app/workflow_storage/local/space0/workflows/com/a/b",
        .delete "/app/workflow_storage/local/space0/workflows/../../space1/workflows"] ∧
    normpath "/app/workflow_storage/local/space0/workflows/../../space1/workflows" =
      "/app/workflow_storage/local/space1/workflows" ∧
    (syncStep storageRoot (fun _ => emptyWorld) firstSpace ":etc" none).1 = [.delete "/etc"] := by
  have imported : (syncStep storageRoot (fun _ => emptyWorld) firstSpace "com.a:b.task"
      (some (.seq [.str "../../../../../space1/workflows"]))).1 =
        [.delete "/app/workflow_storage/local/space0/workflows/com/a/b",
          .delete "/app/workflow_storage/local/space0/workflows/../../space1/workflows"] := by decide +kernel
  have named : (syncStep storageRoot (fun _ => emptyWorld) firstSpace ":etc" none).1 = [.delete "/etc"] := by decide +kernel
  refine ⟨fun kept => ?_,fun kept => ?_,imported,by decide +kernel,named⟩
  · have deleted := kept (fun _ => emptyWorld)
    rw [Kept,imported] at deleted
    have inside := deleted (.delete "/app/workflow_storage/local/space0/workflows/../../space1/workflows") (by simp)
    exact absurd inside (by decide +kernel)
  · have deleted := kept (fun _ => emptyWorld)
    rw [Kept,named] at deleted
    have inside := deleted (.delete "/etc") (by simp)
    exact absurd inside (by decide +kernel)

end FinmarsWorkflow.Tenant
