import FinmarsWorkflow.Sync

/-! The files that user code reaches through `finmars.Storage` on the local backend.
Each method puts the code of the space before a name by a rule of its own, and the
backend puts its root before the result. Saving goes through Django, which refuses
names with two dots and changes no folder but only the name of the file. -/
namespace FinmarsWorkflow.Tenant
open Python

structure SpaceCode extends Name where
  slashed : Without '\\' text

/-- The folders of a name, in which Django also reads backslashes as slashes. -/
def fileFolders (name : String) : List String :=
  ((split '/' (String.ofList (name.toList.map (fun char => if char = '\\' then '/' else char)))).dropLast).filter (· != "")

/-- The names that `Storage.save` of Django hands to the backend for a name: it raises
`SuspiciousFileOperation` before it touches anything if two dots are among the parts,
and a name it chooses itself is in the folder of the given one. -/
structure DjangoSave where
  names : String → List String
  validated : ∀ name, ∀ saved ∈ names name, ".." ∉ split '/' saved
  located : ∀ name, ∀ saved ∈ names name, saved = name ∨
    (split '/' saved).dropLast.filter (· != "") = fileFolders name

section methods
variable (media : Root) (django : DjangoSave) (space : SpaceCode)

/-- `path` of the local backend. -/
def localPath (name : String) : String :=
  if startsWith "/" name then media.path ++ name else media.path ++ "/" ++ name

/-- The name with the code of its space before it; an empty one raises `IndexError`. -/
def scopedName (name : String) : Option String :=
  if name = "" then none
  else if startsWith "/" name then some (space.text ++ name)
  else some (space.text ++ "/" ++ name)

/-- The paths that a method touches for a name that it hands to the backend. -/
def storagePaths (handed : String → List String) (name : String) : List String :=
  match scopedName space name with
  | some full => (handed full).map (localPath media)
  | none => []

def storageOpen (name : String) : List String := storagePaths media space (fun full => [full]) name

def storageRead (name : String) : List String := storageOpen media space name

def storageDelete (name : String) : List String := storagePaths media space (fun full => [full]) name

def storageExists (name : String) : List String := storagePaths media space (fun full => [full]) name

def storageSave (name : String) : List String := storagePaths media space django.names name

def storageSaveText (name : String) : List String := storagePaths media space django.names name

def storageListdir (path : String) : List String := [localPath media ("/" ++ space.text ++ path)]

/-- Every method touches the files of the space only. -/
structure FilesStayInside (name : String) : Prop where
  opens : ∀ path ∈ storageOpen media space name, Inside (media.names ++ [space.text]) path
  reads : ∀ path ∈ storageRead media space name, Inside (media.names ++ [space.text]) path
  deletes : ∀ path ∈ storageDelete media space name, Inside (media.names ++ [space.text]) path
  probes : ∀ path ∈ storageExists media space name, Inside (media.names ++ [space.text]) path
  saves : ∀ path ∈ storageSave media django space name, Inside (media.names ++ [space.text]) path
  savesText : ∀ path ∈ storageSaveText media django space name, Inside (media.names ++ [space.text]) path
  lists : ∀ path ∈ storageListdir media space name, Inside (media.names ++ [space.text]) path

end methods

section paths
variable {media : Root} {space : SpaceCode} {name rest : String} {folder : List String}

theorem places_separator (front back : String) : places (front ++ "/" ++ back) = walk (places front) (split '/' back) := by
  have parts : split '/' (front ++ "/" ++ back) = split '/' front ++ split '/' back := split_separator '/' front back
  rw [places,parts,walk_append]
  rfl

theorem split_slash (rest : String) : split '/' ("/" ++ rest) = ""::split '/' rest := split_slashes 1 rest

theorem walk_slash (folder : List String) (rest : String) :
    walk folder (split '/' ("/" ++ rest)) = walk folder (split '/' rest) := by
  rw [split_slash,walk,List.foldl_cons,walkSegment_blank]
  rfl

/-- The backend walks from its root, with or without a leading slash. -/
theorem localPath_inside (media : Root) (name : String) :
    Inside folder (localPath media name) ↔ folder <+: walk media.names (split '/' name) := by
  have slash (rest : String) : Inside folder (media.path ++ "/" ++ rest) ↔ folder <+: walk media.names (split '/' rest) := by
    have absolute : startsWith "/" (media.path ++ "/" ++ rest) = true :=
      startsWith_iff.mpr ⟨join '/' media.names ++ "/" ++ rest,by simp only [Root.path,String.append_assoc]⟩
    rw [inside_absolute absolute,places_separator,root_places]
  unfold localPath
  split
  next absolute =>
    obtain ⟨rest,rfl⟩ := startsWith_iff.mp absolute
    rw [← String.append_assoc,slash,walk_slash]
  next => exact slash name

theorem scopedName_rest {full : String} (made : scopedName space name = some full) :
    ∃ rest, full = space.text ++ "/" ++ rest ∧ (name = rest ∨ name = "/" ++ rest) := by
  unfold scopedName at made
  split at made
  · cases made
  · split at made
    next absolute =>
      obtain ⟨rest,rfl⟩ := startsWith_iff.mp absolute
      cases made
      exact ⟨rest,String.append_assoc.symm,.inr rfl⟩
    next =>
      cases made
      exact ⟨name,rfl,.inl rfl⟩

theorem split_scoped (space : SpaceCode) (rest : String) : split '/' (space.text ++ "/" ++ rest) = space.text::split '/' rest :=
  split_append space.whole

theorem space_plain (space : SpaceCode) : Downward [space.text] := by
  intro name member
  cases List.mem_singleton.mp member
  exact ⟨space.filled,space.here,space.up,space.whole⟩

/-- From the root the name enters the folder of the space first. -/
theorem walk_scoped (segments : List String) :
    walk media.names (space.text::segments) = walk (media.names ++ [space.text]) segments := by
  have first : walk media.names ([space.text] ++ segments) = _ := walk_append
  rw [walk_plain (space_plain space)] at first
  exact first

theorem route_slash (rest : String) : relativeRoute ("/" ++ rest) = relativeRoute rest := by
  rw [relativeRoute,split_slash,route,List.foldl_cons,go_blank]
  rfl

/-- A method that hands the name on stays inside exactly if the name returns to the space. -/
theorem storagePaths_inside (media : Root) (space : SpaceCode) (name : String) :
    (∀ path ∈ storagePaths media space (fun full => [full]) name, Inside (media.names ++ [space.text]) path) ↔
      (relativeRoute name).Returns (media.names ++ [space.text]) := by
  unfold storagePaths
  split
  next full made =>
    obtain ⟨rest,rfl,same⟩ := scopedName_rest made
    have routes : relativeRoute name = relativeRoute rest := by
      rcases same with rfl | rfl
      · rfl
      · exact route_slash rest
    rw [List.map_singleton,List.forall_mem_singleton,localPath_inside,split_scoped,walk_scoped,walk_inside,routes]
    rfl
  next made =>
    have empty : name = "" := by
      by_contra filled
      rw [scopedName,if_neg filled] at made
      split at made <;> cases made
    subst name
    refine iff_of_true (fun _ member => absurd member List.not_mem_nil) ?_
    have still : relativeRoute "" = ⟨0,[]⟩ := rfl
    rw [still,Route.Returns]
    simp

theorem fileFolders_scoped (space : SpaceCode) (rest : String) :
    ∃ more, fileFolders (space.text ++ "/" ++ rest) = space.text::more := by
  have kept : space.text.toList.map (fun char => if char = '\\' then '/' else char) = space.text.toList := by
    refine (List.map_congr_left (fun char member => if_neg ?_)).trans (List.map_id _)
    rintro rfl
    exact space.slashed member
  have mapped : String.ofList ((space.text ++ "/" ++ rest).toList.map (fun char => if char = '\\' then '/' else char)) =
      space.text ++ "/" ++ String.ofList (rest.toList.map (fun char => if char = '\\' then '/' else char)) := by
    rw [String.toList_append,String.toList_append,List.map_append,List.map_append,kept]
    exact String.toList_inj.mp (by simp)
  rw [fileFolders,mapped,split_scoped,List.dropLast_cons_of_ne_nil (split_ne_nil _ _),
    List.filter_cons_of_pos (by simpa using space.filled)]
  exact ⟨_,rfl⟩

/-- Saving stays inside: Django refuses two dots and keeps the folder. -/
theorem storageSave_inside (media : Root) (django : DjangoSave) (space : SpaceCode) (name : String) :
    ∀ path ∈ storagePaths media space django.names name, Inside (media.names ++ [space.text]) path := by
  unfold storagePaths
  split
  next full made =>
    obtain ⟨rest,whole,_⟩ := scopedName_rest made
    intro path member
    obtain ⟨saved,among,rfl⟩ := List.mem_map.mp member
    have valid := django.validated full saved among
    obtain ⟨later,same,part⟩ : ∃ later, walk media.names (split '/' saved) = walk (media.names ++ [space.text]) later ∧
        later ⊆ split '/' saved := by
      rcases django.located full saved among with rfl | folders
      · rw [whole,split_scoped,walk_scoped]
        exact ⟨_,rfl,List.subset_cons_self _ _⟩
      · obtain ⟨more,scoped_folders⟩ := fileFolders_scoped space rest
        rw [whole,scoped_folders] at folders
        refine ⟨more ++ [(split '/' saved).getLast (split_ne_nil _ _)],?_,?_⟩
        · conv => lhs; rw [← List.dropLast_append_getLast (split_ne_nil '/' saved)]
          rw [walk_append,← walk_filter media.names (split '/' saved).dropLast,folders,walk_scoped,walk_append]
        · intro segment inside
          rcases List.mem_append.mp inside with folder | last
          · have kept : segment ∈ (split '/' saved).dropLast.filter (· != "") := by
              rw [folders]
              exact List.mem_cons_of_mem _ folder
            exact List.mem_of_mem_dropLast (List.mem_filter.mp kept).1
          · cases List.mem_singleton.mp last
            exact List.getLast_mem _
    rw [localPath_inside,same]
    refine walk_down (fun segment inside => ?_)
    rintro rfl
    exact valid (part inside)
  next => exact fun _ member => absurd member List.not_mem_nil

/-- The listing glues the name to the code of the space: unless a slash or nothing
follows, another folder is entered, which the name has to leave again. -/
def ListsSpace (folder : List String) (name : String) : Prop :=
  name = "" ∨ startsWith "/" name = true ∨
    0 < (route (split '/' name).tail).ups ∧ (route (split '/' name).tail).Returns folder

/-- From a folder beside the space only a route that leaves it can come back. -/
theorem beside_inside {beside : String} {segments : List String} (other : beside ≠ space.text) :
    folder ++ [space.text] <+: walk (folder ++ [beside]) segments ↔
      0 < (route segments).ups ∧ (route segments).Returns (folder ++ [space.text]) := by
  rw [walk_route,Route.Returns]
  cases ups : (route segments).ups with
  | zero =>
    have stuck : ¬folder ++ [space.text] <+: (folder ++ [beside]) ++ (route segments).names := by
      rw [List.append_assoc,List.prefix_append_right_inj,List.singleton_append,List.cons_prefix_cons]
      exact fun both => other both.1.symm
    have all : (folder ++ [beside]).take ((folder ++ [beside]).length - 0) = folder ++ [beside] := List.take_length
    rw [all]
    exact iff_of_false stuck (fun both => absurd both.1 (Nat.lt_irrefl 0))
  | succ more =>
    have taken (last : String) : (folder ++ [last]).take ((folder ++ [last]).length - (more+1)) = folder.take (folder.length - more) := by
      rw [List.length_append,List.length_singleton,Nat.add_sub_add_right,List.take_append_of_le_length (Nat.sub_le _ _)]
    rw [taken,← taken space.text]
    conv => lhs; lhs; rw [← List.take_append_drop ((folder ++ [space.text]).length - (more+1)) (folder ++ [space.text])]
    rw [List.prefix_append_right_inj]
    simp

/-- What the listing makes of the first segment is the name of another folder. -/
theorem glued_plain {first : String} (space : SpaceCode) (glued : first ≠ "") (whole : Without '/' first) :
    space.text ++ first ≠ "" ∧ space.text ++ first ≠ "." ∧ space.text ++ first ≠ ".." ∧ Without '/' (space.text ++ first) := by
  have chars : (space.text ++ first).toList = space.text.toList ++ first.toList := String.toList_append
  have apart : Without '/' (space.text ++ first) := by
    rw [Without,chars,List.mem_append,not_or]
    exact ⟨space.whole,whole⟩
  cases front : space.text.toList with
  | nil => exact absurd (String.toList_inj.mp front) space.filled
  | cons letter others =>
    cases back : first.toList with
    | nil => exact absurd (String.toList_inj.mp back) glued
    | cons next later =>
      rw [front,back] at chars
      refine ⟨fun same => ?_,fun same => ?_,fun same => ?_,apart⟩
      · simp [same] at chars
      · simp [same] at chars
      · have dot : others = [] ∧ letter = '.' := by
          rw [same] at chars
          obtain ⟨head,rest⟩ := List.cons.inj chars
          cases others with
          | nil => exact ⟨rfl,head.symm⟩
          | cons => simp at rest
        exact space.here (String.toList_inj.mp (by rw [front,dot.1,dot.2]; rfl))

theorem storageListdir_inside (media : Root) (space : SpaceCode) (name : String)
    (returns : (relativeRoute name).Returns (media.names ++ [space.text])) :
    (∀ path ∈ storageListdir media space name, Inside (media.names ++ [space.text]) path) ↔
      ListsSpace (media.names ++ [space.text]) name := by
  have listed : "/" ++ space.text ++ name = "/" ++ (space.text ++ name) := String.append_assoc
  rw [storageListdir,List.forall_mem_singleton,localPath_inside,listed,walk_slash]
  obtain ⟨first,rest,parts,extended⟩ := split_extend space.whole name
  by_cases glued : first = ""
  · subst first
    have still : walk media.names (split '/' (space.text ++ name)) = walk (media.names ++ [space.text]) (split '/' name) := by
      rw [extended,String.append_empty,walk_scoped,parts,walk,walk,List.foldl_cons,walkSegment_blank]
    have begins : name = "" ∨ startsWith "/" name = true := by
      have whole := join_split '/' name
      rw [parts] at whole
      cases rest with
      | nil => exact .inl whole.symm
      | cons second others =>
        refine .inr (startsWith_iff.mpr ⟨join '/' (second::others),whole.symm.trans ?_⟩)
        exact String.toList_inj.mp (by simp [join])
    rw [still,walk_inside]
    exact iff_of_true returns (begins.imp_right .inl)
  · have beside : walk media.names (split '/' (space.text ++ name)) = walk (media.names ++ [space.text ++ first]) rest := by
      rw [extended]
      have plain : Downward [space.text ++ first] := by
        intro segment member
        cases List.mem_singleton.mp member
        exact glued_plain space glued (split_without '/' name first (parts ▸ List.mem_cons_self))
      have entered : walk media.names ([space.text ++ first] ++ rest) = _ := walk_append
      rw [walk_plain plain] at entered
      exact entered
    have other : space.text ++ first ≠ space.text := by
      intro same
      exact glued (String.toList_inj.mp (by simpa using congrArg String.toList same))
    have unslashed : ¬(name = "" ∨ startsWith "/" name = true) := by
      rintro (rfl | absolute)
      · exact glued (List.cons.inj parts).1.symm
      · obtain ⟨after,rfl⟩ := startsWith_iff.mp absolute
        rw [split_slash] at parts
        exact glued (List.cons.inj parts).1.symm
    rw [beside,beside_inside other,ListsSpace,← or_assoc,or_iff_right unslashed,parts]
    rfl

end paths

/-- The methods stay inside exactly for a name that returns to the folder of the space and,
for the listing, begins with a slash or comes back from the folder that it enters instead. -/
theorem files_stay_inside (media : Root) (django : DjangoSave) (space : SpaceCode) (name : String) :
    FilesStayInside media django space name ↔
      (relativeRoute name).Returns (media.names ++ [space.text]) ∧ ListsSpace (media.names ++ [space.text]) name := by
  constructor
  · intro inside
    have returns := (storagePaths_inside media space name).mp inside.opens
    exact ⟨returns,(storageListdir_inside media space name returns).mp inside.lists⟩
  · intro both
    have handed := (storagePaths_inside media space name).mpr both.1
    have saved := storageSave_inside media django space name
    exact ⟨handed,handed,handed,handed,saved,saved,(storageListdir_inside media space name both.1).mpr both.2⟩

def mediaRoot : Root := ⟨["app","finmars_data"],by decide,by decide⟩

def firstCode : SpaceCode := ⟨firstSpace,by decide⟩

/-- Saving under the given name, if it has no two dots. -/
def plainSave : DjangoSave where
  names name := if ".." ∈ split '/' name then [] else [name]
  validated name saved member := by
    split at member
    · cases member
    next valid =>
      cases List.mem_singleton.mp member
      exact valid
  located name saved member := by
    split at member
    · cases member
    · exact .inl (List.mem_singleton.mp member)

/-- Two dots reach the files of another tenant, and a listing without a slash those of the
tenant whose code is longer. -/
theorem files_leave_space :
    ¬FilesStayInside mediaRoot plainSave firstCode "/../space1/report.txt" ∧
    ¬FilesStayInside mediaRoot plainSave firstCode "1/reports" ∧
    storageDelete mediaRoot firstCode "/../space1/report.txt" = ["/app/finmars_data/space0/../space1/report.txt"] ∧
    normpath "/app/finmars_data/space0/../space1/report.txt" = "/app/finmars_data/space1/report.txt" ∧
    storageListdir mediaRoot firstCode "1/reports" = ["/app/finmars_data/space01/reports"] := by
  have deleted : storageDelete mediaRoot firstCode "/../space1/report.txt" = ["/app/finmars_data/space0/../space1/report.txt"] := by
    decide +kernel
  have listed : storageListdir mediaRoot firstCode "1/reports" = ["/app/finmars_data/space01/reports"] := by decide +kernel
  refine ⟨fun inside => ?_,fun inside => ?_,deleted,by decide +kernel,listed⟩
  · have kept := inside.deletes
    rw [deleted] at kept
    exact absurd (kept _ List.mem_cons_self) (by decide +kernel)
  · have kept := inside.lists
    rw [listed] at kept
    exact absurd (kept _ List.mem_cons_self) (by decide +kernel)

end FinmarsWorkflow.Tenant
