import FinmarsWorkflow.Storage

/-! The local files while a step synchronises a module and its imports.
Every synchronisation deletes the local folder that it is for and copies what it
selects, so a file of the module is there in the end if the last synchronisation that
touches it copies it. -/
namespace FinmarsWorkflow.Tenant
open Python

/-- The local files, by the names of their paths. -/
abbrev Local (χ : Type) := List (List String × χ)

/-- `os.path.exists`, as far as files are concerned. -/
def existing {χ : Type} (files : Local χ) (path : String) : Bool := files.any (fun file => decide (places path <+: file.1))

/-- A folder is deleted with all below it; deleting a file as a folder fails, and is logged. A file is
written unless a file stands where one of its folders should be, or it is a folder itself. -/
def Touch.apply {χ : Type} (remote : Remote χ) (root : Root) (files : Local χ) : Touch → Local χ
  | .delete path => files.filter (fun file => ¬(places path <+: file.1 ∧ places path ≠ file.1))
  | .write path => match remote.content ((places path).drop (root.names.length+1)) with
    | some content =>
      if files.any (fun file => file.1 ≠ places path ∧ (file.1 <+: places path ∨ places path <+: file.1)) then files
      else (places path,content)::files.filter (fun file => file.1 ≠ places path)
    | none => files

section run
variable {χ : Type} (remote : Remote χ) (root : Root) (space : Name) (modulePath : String)

/-- The local files after a synchronisation. -/
def synced (outcome : Outcome) (files : Local χ) : Except String (Local χ) :=
  match outcome.2 with
  | some error => .error error
  | none => .ok (outcome.1.foldl (Touch.apply remote root) files)

/-- The loop over the imports. -/
def syncedImports : List Yaml → Local χ → Except String (Local χ)
  | [],files => .ok files
  | item::rest,files =>
    (synced remote root (syncImport root space modulePath (remote.world (existing files)) item) files).bind (syncedImports rest)

/-- What `import_user_tasks` finds, after the synchronisations of `execute_workflow_step`. -/
def syncedModule (imports : List Yaml) (files : Local χ) : Except String (Local χ) :=
  (synced remote root (syncForSchema root (remote.world (existing files)) defaultPatterns space modulePath) files).bind
    (syncedImports remote root space modulePath imports)

end run

/-- A module path of four folders. -/
structure ModuleFolder where
  names : List String
  plain : Downward names
  four : names.length = 4

namespace ModuleFolder
variable (home : ModuleFolder) (root : Root) (space : Name)

def path : String := join '/' home.names

/-- The local folder of the module. -/
def folder : List String := workflowsFolder root space ++ home.names

/-- A file of the module in the storage. -/
def stored (file : String) : List String := [space.text,"workflows"] ++ home.names ++ [file]

end ModuleFolder

/-- The folder and the pattern of an item of an imports list. -/
def resolved (modulePath : String) : Yaml → Option (String × String)
  | .str extra => importFolder modulePath extra
  | _ => none

/-- An imports list of a module whose entries resolve inside the workflows of the space. -/
structure Imports (root : Root) (space : Name) (home : ModuleFolder) where
  items : List Yaml
  inside : ∀ item ∈ items, ∃ folder pattern, resolved home.path item = some (folder,pattern) ∧
    Inside (workflowsFolder root space) (localFolder root space folder)

/-- What is there before; no file stands where a folder of the module should be. -/
structure Before (χ : Type) (root : Root) (space : Name) (home : ModuleFolder) where
  files : Local χ
  free : ∀ file ∈ files, ¬ file.1 <+: home.folder root space

section property
variable {χ : Type} (remote : Remote χ) {root : Root} {space : Name} {home : ModuleFolder}

/-- Every Python file of the module is there with its content when its code is imported. -/
def KeepsCode (imports : Imports root space home) (before : Before χ root space home) : Prop :=
  ∃ files, syncedModule remote root space home.path imports.items before.files = .ok files ∧
    ∀ file content, remote.content (home.stored space file) = some content → fnmatch file "*.py" = true →
      files.lookup (home.folder root space ++ [file]) = some content

variable (root space home)

/-- The import is for the folder of the module or one above it. -/
def Covers (item : Yaml) : Prop :=
  ∃ folder pattern, resolved home.path item = some (folder,pattern) ∧
    places (localFolder root space folder) <+: home.folder root space

/-- The import copies the file of the module. -/
def Selects (item : Yaml) (file : String) : Prop :=
  ∃ folder pattern, resolved home.path item = some (folder,pattern) ∧
    Agrees (moduleComponents folder) 0 home.names ∧ fnmatch file pattern = true

/-- Every import that deletes the file copies it again, or a later one does. -/
def Restored (items : List Yaml) (file : String) : Prop :=
  ∀ earlier item later, items = earlier ++ item::later → Covers root space home item →
    ∃ other ∈ item::later, Selects home other file

end property

section files
variable {χ : Type} {remote : Remote χ} {root : Root} {space : Name} {home : ModuleFolder} {files : Local χ}
variable {file : String} {content : χ}

/-- No file stands where a folder of the module should be, nor below a file of it. -/
structure Clear (root : Root) (space : Name) (home : ModuleFolder) (file : String) (files : Local χ) : Prop where
  above : ∀ other ∈ files, ¬ other.1 <+: home.folder root space
  below : ∀ other ∈ files, home.folder root space ++ [file] <+: other.1 → other.1 = home.folder root space ++ [file]

theorem Clear.subset {kept : Local χ} (clear : Clear root space home file files) (inside : kept ⊆ files) :
    Clear root space home file kept :=
  ⟨fun other member => clear.above other (inside member),fun other member => clear.below other (inside member)⟩

theorem stored_place (root : Root) (space : Name) (home : ModuleFolder) (file : String) :
    root.names ++ "local"::home.stored space file = home.folder root space ++ [file] := by
  simp [ModuleFolder.stored,ModuleFolder.folder,workflowsFolder]

theorem lookup_filter (kept : List String → Bool) (files : Local χ) (names : List String) :
    (files.filter (fun other => kept other.1)).lookup names = if kept names then files.lookup names else none := by
  induction files with
  | nil => simp
  | cons head rest ih =>
    rw [List.filter_cons,List.lookup_cons]
    cases same : names == head.1 with
    | true =>
      cases eq_of_beq same
      split
      next there => rw [List.lookup_cons,same]
      next gone =>
        rw [if_neg gone] at ih
        exact ih
    | false =>
      split
      · rw [List.lookup_cons,same]
        exact ih
      · exact ih

/-- What a deletion leaves. -/
theorem lookup_delete (path : String) (files : Local χ) (names : List String) :
    (Touch.apply remote root files (.delete path)).lookup names =
      if places path <+: names ∧ places path ≠ names then none else files.lookup names := by
  have found := lookup_filter (fun other => decide (¬(places path <+: other ∧ places path ≠ other))) files names
  rw [Touch.apply]
  refine found.trans ?_
  split
  next kept => rw [if_neg (of_decide_eq_true kept)]
  next gone => rw [if_pos (by simpa using gone)]

theorem Clear.delete (clear : Clear root space home file files) (path : String) :
    Clear root space home file (Touch.apply remote root files (.delete path)) :=
  clear.subset (List.filter_subset_self _)

section write
variable {folders : List String} {name : String}

/-- Writing a file that is four folders deep puts nothing in the way. -/
theorem Clear.write (clear : Clear root space home file files) (four : folders.length = 4)
    (there : remote.content ([space.text,"workflows"] ++ folders ++ [name]) = some content) :
    Clear root space home file
      (Touch.apply remote root files (.write (copyPath root ([space.text,"workflows"] ++ folders ++ [name])))) := by
  have place := places_copyPath root (Remote.content_plain (Option.isSome_of_eq_some there))
  have depth : (root.names ++ "local"::([space.text,"workflows"] ++ folders ++ [name])).length = root.names.length + 8 := by
    simp [four]
  have height : (home.folder root space).length = root.names.length + 7 := by
    simp [ModuleFolder.folder,workflowsFolder,home.four]
  rw [Touch.apply,place]
  split
  · split
    · exact clear
    · refine ⟨fun other member => ?_,fun other member => ?_⟩
      · rcases List.mem_cons.mp member with rfl | inside
        · intro prefix_
          have short : (root.names ++ "local"::([space.text,"workflows"] ++ folders ++ [name])).length ≤
            (home.folder root space).length := prefix_.length_le
          omega
        · exact clear.above other (List.mem_of_mem_filter inside)
      · rcases List.mem_cons.mp member with rfl | inside
        · intro prefix_
          apply (prefix_.eq_of_length _).symm
          rw [List.length_append,height,List.length_singleton,depth]
        · exact clear.below other (List.mem_of_mem_filter inside)
  · exact clear

/-- The file that is written is there afterwards, and no other file of the module changes. -/
theorem lookup_write (clear : Clear root space home file files)
    (there : remote.content ([space.text,"workflows"] ++ folders ++ [name]) = some content) :
    (Touch.apply remote root files (.write (copyPath root ([space.text,"workflows"] ++ folders ++ [name])))).lookup
        (home.folder root space ++ [file]) =
      if [space.text,"workflows"] ++ folders ++ [name] = home.stored space file then some content
      else files.lookup (home.folder root space ++ [file]) := by
  have place := places_copyPath root (Remote.content_plain (Option.isSome_of_eq_some there))
  have source : (root.names ++ "local"::([space.text,"workflows"] ++ folders ++ [name])).drop (root.names.length+1) =
      [space.text,"workflows"] ++ folders ++ [name] := by
    rw [List.append_cons,List.drop_left']
    simp
  simp only [Touch.apply,place,source,there]
  by_cases same : [space.text,"workflows"] ++ folders ++ [name] = home.stored space file
  · rw [if_pos same,same,stored_place]
    have free : ¬ files.any (fun other => decide (other.1 ≠ home.folder root space ++ [file] ∧
        (other.1 <+: home.folder root space ++ [file] ∨ home.folder root space ++ [file] <+: other.1))) = true := by
      intro blocked
      obtain ⟨other,member,stands⟩ := List.any_eq_true.mp blocked
      obtain ⟨differs,either⟩ := of_decide_eq_true stands
      rcases either with above | below
      · rcases List.prefix_concat_iff.mp above with equal | inside
        · exact differs equal
        · exact clear.above other member inside
      · exact differs (clear.below other member below)
    rw [if_neg free,List.lookup_cons_self]
  · rw [if_neg same]
    have apart : ¬ root.names ++ "local"::([space.text,"workflows"] ++ folders ++ [name]) = home.folder root space ++ [file] := by
      rw [← stored_place,List.append_cancel_left_eq,List.cons.injEq]
      exact fun equal => same equal.2
    split
    · rfl
    · rw [List.lookup_cons,beq_eq_false_iff_ne.mpr (Ne.symm apart)]
      refine (lookup_filter (fun other => decide (other ≠ _)) files _).trans ?_
      rw [if_pos (by simpa using Ne.symm apart)]

end write

/-- The writes of a synchronisation. -/
theorem writes_spec {patterns components : List String} {writes : List Touch}
    (copied : ∀ touch ∈ writes, Copied remote patterns components 4 0 [space.text,"workflows"] touch root)
    (there : remote.content (home.stored space file) = some content) (clear : Clear root space home file files) :
    Clear root space home file (writes.foldl (Touch.apply remote root) files) ∧
      (writes.foldl (Touch.apply remote root) files).lookup (home.folder root space ++ [file]) =
        if .write (copyPath root (home.stored space file)) ∈ writes then some content
        else files.lookup (home.folder root space ++ [file]) := by
  induction writes generalizing files with
  | nil => exact ⟨clear,by simp⟩
  | cons touch rest ih =>
    obtain ⟨⟨folders,name,four,_,stored,_,same⟩,others⟩ := List.forall_mem_cons.mp copied
    obtain ⟨written,found⟩ := Option.isSome_iff_exists.mp stored
    subst same
    obtain ⟨cleared,looked⟩ := ih others (clear.write four found)
    refine ⟨cleared,looked.trans ?_⟩
    rw [lookup_write clear found]
    by_cases equal : [space.text,"workflows"] ++ folders ++ [name] = home.stored space file
    · rw [equal] at found ⊢
      cases found.symm.trans there
      simp
    · have apart : Touch.write (copyPath root (home.stored space file)) ≠
          .write (copyPath root ([space.text,"workflows"] ++ folders ++ [name])) := fun same =>
        equal (copyPath_inj (Remote.content_plain (Option.isSome_of_eq_some there)) (Remote.content_plain stored)
          (Touch.write.inj same)).symm
      simp only [if_neg equal,List.mem_cons,or_iff_right apart]

/-- The local files when a synchronisation starts to copy. -/
def cleared (remote : Remote χ) (root : Root) (space : Name) (folder : String) (files : Local χ) : Local χ :=
  if existing files (localFolder root space folder) then
    Touch.apply remote root files (.delete (localFolder root space folder))
  else files

theorem not_existing {path : String} (gone : existing files path = false) {other : List String × χ} (member : other ∈ files) :
    ¬ places path <+: other.1 := by
  simpa using List.any_eq_false.mp gone other member

theorem Clear.cleared (clear : Clear root space home file files) (folder : String) :
    Clear root space home file (cleared remote root space folder files) := by
  unfold Tenant.cleared
  split
  · exact clear.delete _
  · exact clear

theorem lookup_cleared (remote : Remote χ) (root : Root) (space : Name) (home : ModuleFolder) (file folder : String)
    (files : Local χ) :
    (cleared remote root space folder files).lookup (home.folder root space ++ [file]) =
      if places (localFolder root space folder) <+: home.folder root space then none
      else files.lookup (home.folder root space ++ [file]) := by
  have strictly : places (localFolder root space folder) <+: home.folder root space ++ [file] ∧
        places (localFolder root space folder) ≠ home.folder root space ++ [file] ↔
      places (localFolder root space folder) <+: home.folder root space := by
    rw [List.prefix_concat_iff]
    constructor
    · intro both
      exact both.1.resolve_left both.2
    · intro inside
      refine ⟨.inr inside,fun same => ?_⟩
      have short := inside.length_le
      rw [same,List.length_append,List.length_singleton] at short
      omega
  unfold cleared
  split
  · rw [lookup_delete]
    simp only [strictly]
  next gone =>
    rw [Bool.not_eq_true] at gone
    split
    next covers =>
      apply List.lookup_eq_none_iff.mpr
      intro other member
      apply bne_iff_ne.mpr
      intro same
      apply not_existing gone member
      rw [← same]
      exact covers.trans (List.prefix_append _ _)
    · rfl

/-- A synchronisation leaves a file of the module with its content if it selects it,
without it if it deletes it otherwise, and as it was if it does neither. -/
theorem synced_spec (there : remote.content (home.stored space file) = some content) (patterns : List String) (folder : String)
    (clear : Clear root space home file (cleared remote root space folder files)) :
    ∃ after, synced remote root (syncForSchema root (remote.world (existing files)) patterns space folder) files = .ok after ∧
      Clear root space home file after ∧
      after.lookup (home.folder root space ++ [file]) =
        if Agrees (moduleComponents folder) 0 home.names ∧ patterns.any (fnmatch file) = true then some content
        else if places (localFolder root space folder) <+: home.folder root space then none
        else files.lookup (home.folder root space ++ [file]) := by
  obtain ⟨writes,same,reached⟩ := syncForSchema_copies root remote (existing files) patterns space folder
  obtain ⟨kept,looked⟩ := writes_spec (fun touch member => (reached touch).mp member) there clear
  refine ⟨writes.foldl (Touch.apply remote root) (cleared remote root space folder files),?_,kept,?_⟩
  · have done : synced remote root (syncForSchema root (remote.world (existing files)) patterns space folder) files =
        .ok ((syncForSchema root (remote.world (existing files)) patterns space folder).1.foldl (Touch.apply remote root) files) := by
      rw [synced,same]
    rw [done,same,List.foldl_append]
    unfold cleared
    split <;> rfl
  · have selects : .write (copyPath root (home.stored space file)) ∈ writes ↔
        Agrees (moduleComponents folder) 0 home.names ∧ patterns.any (fnmatch file) = true := by
      rw [reached]
      refine (copied_iff (Option.isSome_of_eq_some there)).trans ?_
      rw [and_iff_right home.four]
    rw [looked,lookup_cleared]
    simp only [selects]

end files

section runs
variable {χ : Type} {remote : Remote χ} {root : Root} {space : Name} {home : ModuleFolder} {files : Local χ}
variable {file : String} {content : χ} {item : Yaml} {items : List Yaml}

theorem syncImport_resolved {modulePath folder pattern : String} (leads : resolved modulePath item = some (folder,pattern))
    (world : World) : syncImport root space modulePath world item = syncForSchema root world [pattern] space folder := by
  cases item with
  | str extra =>
    unfold resolved at leads
    unfold syncImport
    dsimp only at leads ⊢
    rw [leads]
  | _ => cases leads

theorem restored_cons : Restored root space home (item::items) file ↔
    (Covers root space home item → ∃ other ∈ item::items, Selects home other file) ∧
      Restored root space home items file := by
  constructor
  · intro restored
    refine ⟨restored [] item items rfl,fun earlier other later same => ?_⟩
    exact restored (item::earlier) other later (congrArg (item::·) same)
  · intro both earlier other later same
    cases earlier with
    | nil =>
      cases same
      exact both.1
    | cons first rest =>
      cases same
      exact both.2 rest other later rfl

/-- What comes after a touch, and the touch, decide together what is left. -/
private theorem last_touch {covers selects now later restored : Prop} :
    restored ∧ ((selects ∨ ¬ covers ∧ now) ∨ later) ↔
      ((covers → selects ∨ later) ∧ restored) ∧ (now ∨ selects ∨ later) := by
  tauto

/-- The loop ends without an error, and a file of the module is there with its content
if every import that deletes it is made good, and it was there or is copied. -/
theorem syncedImports_spec (resolve : ∀ item ∈ items, ∃ folder pattern, resolved home.path item = some (folder,pattern))
    (there : remote.content (home.stored space file) = some content) (clear : Clear root space home file files) :
    ∃ after, syncedImports remote root space home.path items files = .ok after ∧
      (after.lookup (home.folder root space ++ [file]) = some content ↔ Restored root space home items file ∧
        (files.lookup (home.folder root space ++ [file]) = some content ∨ ∃ other ∈ items, Selects home other file)) := by
  induction items generalizing files with
  | nil =>
    have nothing : Restored root space home [] file := fun earlier item later same => by simp at same
    exact ⟨files,rfl,by simp [nothing]⟩
  | cons item rest ih =>
    obtain ⟨⟨folder,pattern,leads⟩,others⟩ := List.forall_mem_cons.mp resolve
    obtain ⟨middle,done,kept,looked⟩ := synced_spec there [pattern] folder (clear.cleared folder)
    obtain ⟨after,ended,final⟩ := ih others kept
    have selects : Selects home item file ↔ Agrees (moduleComponents folder) 0 home.names ∧ fnmatch file pattern = true := by
      simp [Selects,leads]
    have covers : Covers root space home item ↔ places (localFolder root space folder) <+: home.folder root space := by
      simp [Covers,leads]
    have now : middle.lookup (home.folder root space ++ [file]) = some content ↔ Selects home item file ∨
        (¬ Covers root space home item ∧ files.lookup (home.folder root space ++ [file]) = some content) := by
      rw [looked,selects,covers]
      by_cases chosen : Agrees (moduleComponents folder) 0 home.names ∧ fnmatch file pattern = true
      · simp [chosen]
      · by_cases deleted : places (localFolder root space folder) <+: home.folder root space <;> simp [chosen,deleted]
    refine ⟨after,?_,?_⟩
    · unfold syncedImports
      rw [syncImport_resolved leads,done,Except.bind]
      exact ended
    · rw [final,now,restored_cons,List.exists_mem_cons_iff]
      exact last_touch

theorem localFolder_places (root : Root) (space : Name) (home : ModuleFolder) :
    places (localFolder root space home.path) = home.folder root space := by
  change places (joinPath (joinPaths root.path ["local",space.text,"workflows"]) (join '/' home.names)) = _
  rw [places_joinPath (startsWith_join (plain_solid home.plain)),workflowsFolder_places,← walk_filter,
    split_join_filter (plain_solid home.plain),walk_plain home.plain]
  rfl

theorem home_components (home : ModuleFolder) : moduleComponents home.path = home.names := by
  have some_name : home.names ≠ [] := by
    intro none
    have four := home.four
    simp [none] at four
  have filled : home.path ≠ "" := fun empty => some_name (join_eq_empty (plain_solid home.plain) empty)
  rw [moduleComponents,if_neg filled]
  exact split_join some_name (fun name member => (home.plain name member).2.2.2)

theorem agrees_self (front names : List String) : Agrees (front ++ names) front.length names := by
  induction names generalizing front with
  | nil => trivial
  | cons name rest ih =>
    have here : (front ++ name::rest)[front.length]? = some name := by simp
    refine ⟨by rw [here]; simp,?_⟩
    have later := ih (front ++ [name])
    rwa [List.append_assoc,List.singleton_append,List.length_append,List.length_singleton] at later

theorem Imports.resolve (imports : Imports root space home) :
    ∀ item ∈ imports.items, ∃ folder pattern, resolved home.path item = some (folder,pattern) := by
  intro item member
  obtain ⟨folder,pattern,leads,_⟩ := imports.inside item member
  exact ⟨folder,pattern,leads⟩

/-- When the module itself is synchronised, nothing is left of its folder. -/
theorem Before.cleared (before : Before χ root space home) (file : String) :
    Clear root space home file (cleared remote root space home.path before.files) := by
  have emptied : ∀ other ∈ Tenant.cleared remote root space home.path before.files,
      ¬ home.folder root space ++ [file] <+: other.1 ∧ other ∈ before.files := by
    intro other member
    unfold Tenant.cleared at member
    split at member
    · obtain ⟨inside,kept⟩ := List.mem_filter.mp member
      refine ⟨fun under => of_decide_eq_true kept ?_,inside⟩
      rw [localFolder_places]
      refine ⟨(List.prefix_append _ _).trans under,fun same => ?_⟩
      have short := under.length_le
      rw [← same,List.length_append,List.length_singleton] at short
      omega
    next gone =>
      rw [Bool.not_eq_true] at gone
      refine ⟨fun under => not_existing gone member ?_,member⟩
      rw [localFolder_places]
      exact (List.prefix_append _ _).trans under
  exact ⟨fun other member => before.free other (emptied other member).2,
    fun other member under => absurd under (emptied other member).1⟩

/-- What the step finds of a Python file of the module. -/
theorem syncedModule_spec (imports : Imports root space home) (before : Before χ root space home)
    (there : remote.content (home.stored space file) = some content) (python : fnmatch file "*.py" = true) :
    ∃ after, syncedModule remote root space home.path imports.items before.files = .ok after ∧
      (after.lookup (home.folder root space ++ [file]) = some content ↔ Restored root space home imports.items file) := by
  obtain ⟨middle,done,kept,looked⟩ := synced_spec there defaultPatterns home.path (before.cleared file)
  obtain ⟨after,ended,final⟩ := syncedImports_spec imports.resolve there kept
  have copied : Agrees (moduleComponents home.path) 0 home.names ∧ defaultPatterns.any (fnmatch file) = true := by
    rw [home_components]
    exact ⟨agrees_self [] home.names,List.any_eq_true.mpr ⟨"*.py",by simp [defaultPatterns],python⟩⟩
  rw [if_pos copied] at looked
  refine ⟨after,?_,?_⟩
  · rw [syncedModule,done]
    exact ended
  · rw [final,and_iff_left (.inl looked)]

theorem synced_done (remote : Remote χ) (root : Root) (space : Name) (files : Local χ) (patterns : List String) (folder : String) : ∃ after,
    synced remote root (syncForSchema root (remote.world (existing files)) patterns space folder) files = .ok after := by
  obtain ⟨writes,same,_⟩ := syncForSchema_copies root remote (existing files) patterns space folder
  exact ⟨_,by rw [synced,same]⟩

theorem syncedImports_done {modulePath : String}
    (resolve : ∀ item ∈ items, ∃ folder pattern, resolved modulePath item = some (folder,pattern)) (files : Local χ) :
    ∃ after, syncedImports remote root space modulePath items files = .ok after := by
  induction items generalizing files with
  | nil => exact ⟨files,rfl⟩
  | cons item rest ih =>
    obtain ⟨⟨folder,pattern,leads⟩,others⟩ := List.forall_mem_cons.mp resolve
    obtain ⟨middle,done⟩ := synced_done remote root space files [pattern] folder
    unfold syncedImports
    rw [syncImport_resolved leads,done,Except.bind]
    exact ih others middle

theorem syncedModule_done (imports : Imports root space home) (before : Before χ root space home) :
    ∃ after, syncedModule remote root space home.path imports.items before.files = .ok after := by
  obtain ⟨middle,done⟩ := synced_done remote root space before.files defaultPatterns home.path
  unfold syncedModule
  rw [done,Except.bind]
  exact syncedImports_done imports.resolve middle

end runs

/-- The code of the module is kept exactly if every import that deletes its folder is
one that copies all its Python files again, or is followed by imports that do. -/
theorem keeps_code_iff {χ : Type} (remote : Remote χ) {root : Root} {space : Name} {home : ModuleFolder}
    (imports : Imports root space home) (before : Before χ root space home) :
    KeepsCode remote imports before ↔
      ∀ file, (remote.content (home.stored space file)).isSome = true → fnmatch file "*.py" = true →
        Restored root space home imports.items file := by
  constructor
  · intro keeps file stored python
    obtain ⟨files,done,kept⟩ := keeps
    obtain ⟨content,there⟩ := Option.isSome_iff_exists.mp stored
    obtain ⟨after,ended,final⟩ := syncedModule_spec imports before there python
    cases done.symm.trans ended
    exact final.mp (kept file content there python)
  · intro restored
    obtain ⟨files,done⟩ := syncedModule_done imports before
    refine ⟨files,done,fun file content there python => ?_⟩
    obtain ⟨after,ended,final⟩ := syncedModule_spec imports before there python
    cases done.symm.trans ended
    exact final.mpr (restored file (Option.isSome_of_eq_some there) python)

/-- A module with one task. -/
def packFlow : ModuleFolder := ⟨["com","finmars","pack","flow"],by decide,rfl⟩

def packFiles : Remote Unit where
  files := [(["space0","workflows","com","finmars","pack","flow","task.py"],())]
  plain := by decide
  keyed := by decide

/-- It imports the settings beside its code. -/
def packImports : Imports storageRoot firstSpace packFlow where
  items := [.str "*.json"]
  inside := by
    intro item member
    cases List.mem_singleton.mp member
    exact ⟨"com/finmars/pack/flow","*.json",by decide +kernel,by decide +kernel⟩

theorem settings_delete_code : ¬ ∀ {χ : Type} (remote : Remote χ) {root : Root} {space : Name} {home : ModuleFolder}
    (imports : Imports root space home) (before : Before χ root space home), KeepsCode remote imports before := by
  intro always
  have there : packFiles.content (packFlow.stored firstSpace "task.py") = some () := by decide +kernel
  have python : fnmatch "task.py" "*.py" = true := by decide +kernel
  obtain ⟨files,done,kept⟩ := always packFiles packImports ⟨[],by simp⟩
  obtain ⟨after,ended,final⟩ := syncedModule_spec packImports ⟨[],by simp⟩ there python
  cases done.symm.trans ended
  have leads : resolved packFlow.path (.str "*.json") = some ("com/finmars/pack/flow","*.json") := by decide +kernel
  have covers : Covers storageRoot firstSpace packFlow (.str "*.json") :=
    ⟨_,_,leads,by decide +kernel⟩
  obtain ⟨other,among,folder,pattern,chosen,_,matched⟩ :=
    final.mp (kept "task.py" () there python) [] (.str "*.json") [] rfl covers
  cases List.mem_singleton.mp among
  cases leads.symm.trans chosen
  exact absurd matched (by decide +kernel)

end FinmarsWorkflow.Tenant
