import FinmarsWorkflow.Sync
import FinmarsWorkflow.Python.Glob

/-! The storage as a tree of files, and what a synchronisation copies from it.
A path of the storage is the list of its names. A listing gives the names one
level below a folder; a synchronisation reaches the files that lie four folders
below the workflows of a space. -/
namespace FinmarsWorkflow.Tenant
open Python

structure Remote (χ : Type) where
  files : List (List String × χ)
  plain : ∀ file ∈ files, Downward file.1
  keyed : (files.map Prod.fst).Nodup

/-- A name as `listdir` returns it. -/
def entry? (name : String) : Option Entry :=
  if plain : Without '/' name ∧ name ≠ ".." then some ⟨name,plain.1,plain.2⟩ else none

section remote
variable {χ : Type} (remote : Remote χ)

def Remote.content (path : List String) : Option χ := remote.files.lookup path

/-- What is left of the paths below a folder. -/
def Remote.below (folder : List String) : List (List String) :=
  (remote.files.map Prod.fst).filterMap (fun path => if folder <+: path then some (path.drop folder.length) else none)

def subfolder? : List String → Option String
  | name::_::_ => some name
  | _ => none

def file? : List String → Option String
  | [name] => some name
  | _ => none

/-- `storage.listdir` -/
def Remote.listdir (path : String) : List Entry × List Entry :=
  let inside := remote.below (split '/' path)
  (((inside.filterMap subfolder?).eraseDups).filterMap entry?,(inside.filterMap file?).filterMap entry?)

/-- What a synchronisation finds in this storage, beside some local folders. -/
def Remote.world (existing : String → Bool) : World :=
  ⟨fun path => .ok (remote.listdir path),fun path => (remote.content (split '/' path)).isSome,existing,fnmatch⟩

end remote

/-- Where a file of the storage is copied to. -/
def copyPath (root : Root) (path : List String) : String := joinPaths root.path ["local",join '/' path]

/-- Folders that a synchronisation enters from a level on. -/
def Agrees (components : List String) : Nat → List String → Prop
  | _,[] => True
  | level,name::rest => (components[level]?).all (· == name) = true ∧ Agrees components (level+1) rest

instance agreesDecidable (components : List String) : (level : Nat) → (names : List String) → Decidable (Agrees components level names)
  | _,[] => .isTrue trivial
  | level,_::rest => @instDecidableAnd _ _ _ (agreesDecidable components (level+1) rest)

section listing
variable {χ : Type} {remote : Remote χ} {path : List String} {name : String}

theorem Remote.content_iff {content : χ} : remote.content path = some content ↔ (path,content) ∈ remote.files := by
  unfold Remote.content
  rw [List.lookup_eq_some_iff]
  constructor
  · intro found
    obtain ⟨front,back,same,_⟩ := found
    simp [same]
  · intro member
    obtain ⟨front,back,same⟩ := List.append_of_mem member
    refine ⟨front,back,same,fun file before => ?_⟩
    have keyed := remote.keyed
    rw [same,List.map_append,List.nodup_append] at keyed
    have apart := keyed.2.2 file.1 (List.mem_map_of_mem before) path (by simp)
    simpa using Ne.symm apart

theorem Remote.content_isSome : (remote.content path).isSome = true ↔ path ∈ remote.files.map Prod.fst := by
  rw [Option.isSome_iff_exists]
  simp only [Remote.content_iff,List.mem_map,Prod.exists,exists_and_right,exists_eq_right]

theorem Remote.content_plain (stored : (remote.content path).isSome = true) : Downward path := by
  obtain ⟨file,member,rfl⟩ := List.mem_map.mp (Remote.content_isSome.mp stored)
  exact remote.plain file member

theorem Remote.mem_below {rest : List String} :
    rest ∈ remote.below path ↔ (remote.content (path ++ rest)).isSome = true := by
  rw [Remote.content_isSome]
  simp only [Remote.below,List.mem_filterMap,Option.ite_none_right_eq_some,Option.some.injEq]
  constructor
  · intro found
    obtain ⟨whole,member,inside,same⟩ := found
    obtain ⟨tail,rfl⟩ := inside
    rw [List.drop_left] at same
    rw [← same]
    exact member
  · intro member
    exact ⟨path ++ rest,member,List.prefix_append path rest,List.drop_left⟩

theorem entry?_plain (plain : Downward (path ++ [name])) : ∃ entry, entry? name = some entry ∧ entry.text = name := by
  have solid := plain name (List.mem_append_right _ (List.mem_singleton.mpr rfl))
  exact ⟨⟨name,solid.2.2.2,solid.2.2.1⟩,dif_pos ⟨solid.2.2.2,solid.2.2.1⟩,rfl⟩

theorem mem_entries {names : List String} {entry : Entry} :
    entry ∈ names.filterMap entry? ↔ entry.text ∈ names := by
  rw [List.mem_filterMap]
  constructor
  · intro found
    obtain ⟨name,member,same⟩ := found
    unfold entry? at same
    split at same
    · cases same
      exact member
    · cases same
  · intro member
    exact ⟨entry.text,member,dif_pos ⟨entry.whole,entry.up⟩⟩

/-- The folders and the files that a listing of plain names gives. -/
theorem Remote.listdir_spec (solid : path ≠ []) (plain : Downward path) (entry : Entry) :
    (entry ∈ (remote.listdir (join '/' path)).1 ↔
      ∃ next rest, (remote.content (path ++ entry.text::next::rest)).isSome = true) ∧
    (entry ∈ (remote.listdir (join '/' path)).2 ↔ (remote.content (path ++ [entry.text])).isSome = true) := by
  have names : split '/' (join '/' path) = path := split_join solid (fun name member => (plain name member).2.2.2)
  unfold Remote.listdir
  rw [names]
  constructor
  · rw [mem_entries,List.mem_eraseDups,List.mem_filterMap]
    constructor
    · intro found
      obtain ⟨rest,inside,same⟩ := found
      rcases rest with _ | ⟨name,_ | ⟨next,rest⟩⟩
      · cases same
      · cases same
      · cases same
        exact ⟨next,rest,Remote.mem_below.mp inside⟩
    · intro found
      obtain ⟨next,rest,stored⟩ := found
      exact ⟨entry.text::next::rest,Remote.mem_below.mpr stored,rfl⟩
  · rw [mem_entries,List.mem_filterMap]
    constructor
    · intro found
      obtain ⟨rest,inside,same⟩ := found
      rcases rest with _ | ⟨name,_ | ⟨next,rest⟩⟩
      · cases same
      · cases same
        exact Remote.mem_below.mp inside
      · cases same
    · intro stored
      exact ⟨[entry.text],Remote.mem_below.mpr stored,rfl⟩

end listing

theorem inOrder_fine {A : Type} (visit : A → Outcome) {items : List A} (fine : ∀ item ∈ items, (visit item).2 = none) :
    (inOrder visit items).2 = none ∧
      ∀ touch, touch ∈ (inOrder visit items).1 ↔ ∃ item ∈ items, touch ∈ (visit item).1 := by
  induction items with
  | nil => exact ⟨rfl,fun touch => by simp [inOrder]⟩
  | cons item rest ih =>
    obtain ⟨here,others⟩ := List.forall_mem_cons.mp fine
    obtain ⟨ends,reached⟩ := ih others
    have whole : inOrder visit (item::rest) = ((visit item).1 ++ (inOrder visit rest).1,(inOrder visit rest).2) := by
      simp only [inOrder]
      split
      next found =>
        rw [found] at here
        cases here
      next found => rw [found]
    rw [whole]
    exact ⟨ends,fun touch => by simp [reached]⟩

section levels
variable {path : List String} {name : String}

private theorem join_cons_cons (first second : String) (rest : List String) :
    join '/' (first::second::rest) = first ++ "/" ++ join '/' (second::rest) := by
  apply String.toList_inj.mp
  simp [join,List.intercalate_cons_cons]

theorem join_snoc (solid : path ≠ []) (name : String) : join '/' (path ++ [name]) = join '/' path ++ "/" ++ name := by
  induction path with
  | nil => exact absurd rfl solid
  | cons first rest ih => cases rest with
    | nil =>
      have single (text : String) : join '/' [text] = text := String.toList_inj.mp (by simp [join])
      rw [List.singleton_append,join_cons_cons,single,single]
    | cons second rest =>
      rw [List.cons_append,List.cons_append,join_cons_cons,join_cons_cons,← List.cons_append,ih (by simp)]
      simp only [String.append_assoc]

/-- Names that go down end with a character that is no slash. -/
private theorem join_last (solid : path ≠ []) (plain : Downward path) : (join '/' path).toList.getLast? ≠ some '/' := by
  obtain ⟨front,last,rfl⟩ := (List.eq_nil_or_concat' path).resolve_left solid
  obtain ⟨filled,_,_,whole⟩ := plain last (by simp)
  have tail : (join '/' (front ++ [last])).toList.getLast? = last.toList.getLast? := by
    have some_char : last.toList ≠ [] := fun none => filled (String.toList_inj.mp none)
    cases front with
    | nil => simp [join]
    | cons first rest =>
      rw [join_snoc (by simp),String.toList_append,List.getLast?_append_of_ne_nil _ some_char]
  rw [tail]
  exact fun slash => whole (List.mem_of_getLast? slash)

theorem joinPath_snoc (solid : path ≠ []) (plain : Downward (path ++ [name])) :
    joinPath (join '/' path) name = join '/' (path ++ [name]) := by
  have front : Downward path := fun other member => plain other (List.mem_append_left _ member)
  obtain ⟨filled,here,up,whole⟩ := plain name (by simp)
  have relative : startsWith "/" name = false := Name.relative ⟨name,filled,here,up,whole⟩
  have full : join '/' path ≠ "" := fun empty => solid (join_eq_empty (plain_solid front) empty)
  rw [joinPath,if_neg (by simp [relative]),if_neg (by simp [full,join_last solid front]),join_snoc solid]

variable {χ : Type} {remote : Remote χ} {existing : String → Bool} {root : Root} {patterns components : List String}

/-- The files so many folders below a folder that a synchronisation copies. -/
def Copied (remote : Remote χ) (patterns components : List String) (more level : Nat) (path : List String)
    (touch : Touch) (root : Root) : Prop :=
  ∃ folders file, folders.length = more ∧ Agrees components level folders ∧
    (remote.content (path ++ folders ++ [file])).isSome = true ∧ patterns.any (fnmatch file) = true ∧
    touch = .write (copyPath root (path ++ folders ++ [file]))

private theorem downward_snoc {rest : List String} (plain : Downward (path ++ name::rest)) : Downward (path ++ [name]) := by
  intro other member
  rcases List.mem_append.mp member with front | last
  · exact plain other (List.mem_append_left _ front)
  · rw [List.mem_singleton.mp last]
    exact plain name (List.mem_append_right _ List.mem_cons_self)

/-- One listed file is copied if its name matches. -/
private theorem syncFile_copies {filename : Entry} (solid : path ≠ [])
    (stored : (remote.content (path ++ [filename.text])).isSome = true) :
    (syncFile root (remote.world existing) patterns (join '/' path) filename).2 = none ∧
    ∀ touch, touch ∈ (syncFile root (remote.world existing) patterns (join '/' path) filename).1 ↔
      patterns.any (fnmatch filename.text) = true ∧ touch = .write (copyPath root (path ++ [filename.text])) := by
  have plain := Remote.content_plain stored
  have names : split '/' (join '/' (path ++ [filename.text])) = path ++ [filename.text] :=
    split_join (by simp) (fun name member => (plain name member).2.2.2)
  have kept := lstrip_relative (startsWith_join (plain_solid plain))
  simp only [syncFile,← join_snoc solid,kept,Remote.world,names,stored,Bool.and_true]
  split
  next matched => exact ⟨rfl,fun touch => by simp [matched,copyPath]⟩
  next other => exact ⟨rfl,fun touch => by simp [other]⟩

/-- The loops of a synchronisation copy the files that their levels select, without an error. -/
theorem syncLevels_copies (more level : Nat) (solid : path ≠ []) (plain : Downward path) :
    (syncLevels root (remote.world existing) patterns components more level (join '/' path) (join '/' path)).2 = none ∧
    ∀ touch, touch ∈
        (syncLevels root (remote.world existing) patterns components more level (join '/' path) (join '/' path)).1 ↔
      Copied remote patterns components more level path touch root := by
  have listed : ∀ entry, _ := @Remote.listdir_spec _ remote _ solid plain
  induction more generalizing level path with
  | zero =>
    have each : ∀ filename ∈ (remote.listdir (join '/' path)).2,
        (remote.content (path ++ [filename.text])).isSome = true := fun filename => (listed filename).2.mp
    obtain ⟨ends,reached⟩ := inOrder_fine (syncFile root (remote.world existing) patterns (join '/' path))
      (fun filename member => (syncFile_copies solid (each filename member)).1)
    refine ⟨ends,fun touch => (reached touch).trans ?_⟩
    constructor
    · intro found
      obtain ⟨filename,member,touched⟩ := found
      obtain ⟨matched,same⟩ := ((syncFile_copies solid (each filename member)).2 touch).mp touched
      exact ⟨[],filename.text,rfl,trivial,by simpa using each filename member,matched,by simpa using same⟩
    · intro copied
      obtain ⟨folders,file,none,_,stored,matched,same⟩ := copied
      cases List.length_eq_zero_iff.mp none
      rw [List.append_nil] at stored same
      obtain ⟨filename,_,rfl⟩ := entry?_plain (Remote.content_plain stored)
      exact ⟨filename,(listed filename).2.mpr stored,((syncFile_copies solid stored).2 touch).mpr ⟨matched,same⟩⟩
  | succ more ih =>
    have each : ∀ entry ∈ (remote.listdir (join '/' path)).1, Downward (path ++ [entry.text]) := by
      intro entry member
      obtain ⟨next,rest,stored⟩ := (listed entry).1.mp member
      exact downward_snoc (Remote.content_plain stored)
    let visit := fun (entry : Entry) => if selected components level entry
      then syncLevels root (remote.world existing) patterns components more (level+1) (joinPath (join '/' path) entry.text)
        (join '/' path ++ "/" ++ entry.text)
      else ([],none)
    have visited : ∀ entry ∈ (remote.listdir (join '/' path)).1, (visit entry).2 = none ∧ ∀ touch,
        touch ∈ (visit entry).1 ↔ selected components level entry = true ∧
          Copied remote patterns components more (level+1) (path ++ [entry.text]) touch root := by
      intro entry member
      have down := each entry member
      have deeper := @ih (path ++ [entry.text]) (level+1) (by simp) down (Remote.listdir_spec (by simp) down)
      rw [← joinPath_snoc solid down] at deeper
      unfold visit
      split
      next chosen =>
        rw [joinPath_snoc solid down,← join_snoc solid] at *
        exact ⟨deeper.1,fun touch => (deeper.2 touch).trans (by simp [chosen])⟩
      next other => exact ⟨rfl,fun touch => by simp [other]⟩
    obtain ⟨ends,reached⟩ := inOrder_fine visit (fun entry member => (visited entry member).1)
    refine ⟨ends,fun touch => (reached touch).trans ?_⟩
    constructor
    · intro found
      obtain ⟨entry,member,touched⟩ := found
      obtain ⟨chosen,folders,file,size,agree,stored,matched,same⟩ := ((visited entry member).2 touch).mp touched
      refine ⟨entry.text::folders,file,by simp [size],⟨chosen,agree⟩,?_,matched,?_⟩
      · simpa using stored
      · simpa using same
    · intro copied
      obtain ⟨folders,file,size,agree,stored,matched,same⟩ := copied
      cases folders with
      | nil => cases size
      | cons name rest =>
        have whole : Downward (path ++ name::(rest ++ [file])) := by simpa using Remote.content_plain stored
        have down := downward_snoc whole
        obtain ⟨entry,_,rfl⟩ := entry?_plain down
        have member : entry ∈ (remote.listdir (join '/' path)).1 := by
          apply (listed entry).1.mpr
          cases rest with
          | nil => exact ⟨file,[],by simpa using stored⟩
          | cons next others => exact ⟨next,others ++ [file],by simpa using stored⟩
        refine ⟨entry,member,((visited entry member).2 touch).mpr ⟨agree.1,rest,file,?_,agree.2,?_,matched,?_⟩⟩
        · simpa using size
        · simpa using stored
        · simpa using same

/-- `module_path_components` -/
def moduleComponents (modulePath : String) : List String := if modulePath = "" then [] else split '/' modulePath

theorem remote_path (space : Name) : joinPaths space.text ["workflows"] = join '/' [space.text,"workflows"] := by
  have plain : Downward ([space.text] ++ [workflowsName.text]) := List.forall_mem_cons.mpr
    ⟨⟨space.filled,space.here,space.up,space.whole⟩,List.forall_mem_cons.mpr ⟨by decide,plain_nil⟩⟩
  have single : join '/' [space.text] = space.text := String.toList_inj.mp (by simp [join])
  have joined := joinPath_snoc (List.cons_ne_nil _ _) plain
  rw [single] at joined
  exact joined

theorem space_downward (space : Name) : Downward [space.text,"workflows"] := List.forall_mem_cons.mpr
  ⟨⟨space.filled,space.here,space.up,space.whole⟩,List.forall_mem_cons.mpr ⟨by decide,plain_nil⟩⟩

/-- A synchronisation of a folder ends without an error, and writes what its components
and patterns select after it has deleted the folder. -/
theorem syncForSchema_copies (root : Root) (remote : Remote χ) (existing : String → Bool) (patterns : List String)
    (space : Name) (modulePath : String) :
    ∃ writes, syncForSchema root (remote.world existing) patterns space modulePath =
        ((if existing (localFolder root space modulePath) then [.delete (localFolder root space modulePath)] else []) ++ writes,
          none) ∧
      ∀ touch, touch ∈ writes ↔
        Copied remote patterns (moduleComponents modulePath) 4 0 [space.text,"workflows"] touch root := by
  obtain ⟨ends,reached⟩ := @syncLevels_copies _ _ remote existing root patterns (moduleComponents modulePath) 4 0
    (List.cons_ne_nil _ _) (space_downward space)
  rw [← remote_path] at ends reached
  refine ⟨_,?_,reached⟩
  simp only [syncForSchema]
  rw [← ends]
  rfl

/-- Where a file is copied to, below the root. -/
theorem places_copyPath (root : Root) (plain : Downward path) : places (copyPath root path) = root.names ++ "local"::path := by
  change places (joinPath (joinPath root.path localName.text) (join '/' path)) = _
  rw [places_joinPath (startsWith_join (plain_solid plain)),places_name,root_places,← walk_filter,
    split_join_filter (plain_solid plain),walk_plain plain,List.append_assoc]
  rfl

theorem copyPath_inj {other : List String} (plain : Downward path) (solid : Downward other)
    (same : copyPath root path = copyPath root other) : path = other := by
  have there := congrArg places same
  rw [places_copyPath root plain,places_copyPath root solid,List.append_cancel_left_eq] at there
  exact (List.cons.inj there).2

/-- A stored file is copied if it is four folders deep, and the folders and the name are selected. -/
theorem copied_iff {level : Nat} {folders : List String} {file : String}
    (stored : (remote.content (path ++ folders ++ [file])).isSome = true) :
    Copied remote patterns components 4 level path (.write (copyPath root (path ++ folders ++ [file]))) root ↔
      folders.length = 4 ∧ Agrees components level folders ∧ patterns.any (fnmatch file) = true := by
  constructor
  · intro copied
    obtain ⟨others,other,size,agree,there,matched,same⟩ := copied
    have equal := copyPath_inj (Remote.content_plain stored) (Remote.content_plain there) (Touch.write.inj same)
    obtain ⟨front,last⟩ := List.append_inj' equal rfl
    cases List.append_cancel_left front
    cases last
    exact ⟨size,agree,matched⟩
  · intro fits
    exact ⟨folders,file,fits.1,fits.2.1,stored,fits.2.2,rfl⟩

end levels

end FinmarsWorkflow.Tenant
