import FinmarsWorkflow.Files
import FinmarsWorkflow.RunRequest
import FinmarsWorkflow.Storage

/-! Saving a template and finding it again under its user code.
The file is saved in the folders that four pieces of the code name; the lookup cuts
the whole code at dots, colons and slashes and copies the files of four folders that
agree with these parts. -/
namespace FinmarsWorkflow.Tenant
open Python

/-- The pieces of a user code that `save_to_storage` puts into the path; `IndexError` if one is missing. -/
def templatePieces (userCode : String) : Option (List String) := do
  let pieces := split ':' userCode
  let moduleName ← pieces[1]?
  let modulePath := split '.' (pieces.headD "")
  some [← modulePath[0]?,← modulePath[1]?,← modulePath[2]?,moduleName]

def templatePath (userCode : String) : Option String :=
  (templatePieces userCode).map (fun pieces => "workflows/" ++ join '/' pieces ++ "/workflow.json")

/-- The parts of a name that lead down; some backends read backslashes as slashes. -/
def solidParts (slashes : Bool) (name : String) : List String :=
  (split '/' (if slashes then String.ofList (name.toList.map (fun char => if char = '\\' then '/' else char)) else name)).filter
    (fun part => part ≠ "" ∧ part ≠ ".")

/-- Where a backend stores a file that is saved under a name, or that it fails. Saving
refuses names with two dots among their parts; empty parts and dots are dropped. -/
structure Backend where
  slashes : Bool
  place : String → Option (List String)
  placed : ∀ name names, place name = some names → ".." ∉ names ∧ names = solidParts slashes name

/-- Where `save_to_storage` writes the file of a template. -/
def saveToStorage (backend : Backend) (space : SpaceCode) (userCode : String) : Option (List String) := do
  let path ← templatePath userCode
  let name ← scopedName space path
  backend.place name

/-- What `get_by_user_code` copies for a code that it has not loaded. -/
def lookupSync (root : Root) (world : World) (space : Name) (userCode : String) : Except String Outcome :=
  (modulePath userCode).map (syncForSchema root world defaultPatterns space)

/-- The lookup copies the file, whatever else the storage holds and whatever was copied before. -/
def FoundAgain (root : Root) (space : SpaceCode) (userCode : String) (names : List String) : Prop :=
  ∀ {χ : Type} (remote : Remote χ) (existing : String → Bool), (remote.content names).isSome = true →
    ∃ synced, lookupSync root (remote.world existing) space.toName (space.text ++ "." ++ userCode) = .ok synced ∧
      .write (copyPath root names) ∈ synced.1

/-- The parts of a code after its space, but for the last one. -/
def codeParts (userCode : String) : List String := (split '/' (String.ofList (definitionPath userCode))).dropLast

/-- The pieces name four folders, and these are the first parts of the code as far as it has any. -/
def NamesFolders (slashes : Bool) (space : SpaceCode) (userCode : String) : Prop :=
  ∃ pieces, templatePieces userCode = some pieces ∧ (solidParts slashes (join '/' pieces)).length = 4 ∧
    Agrees (codeParts (space.text ++ "." ++ userCode)) 0 (solidParts slashes (join '/' pieces))

section parts
variable {slashes : Bool} {front back : String}

theorem solidParts_separator (slashes : Bool) (front back : String) :
    solidParts slashes (front ++ "/" ++ back) = solidParts slashes front ++ solidParts slashes back := by
  unfold solidParts
  rw [← List.filter_append]
  congr 1
  split
  · have chars : String.ofList ((front ++ "/" ++ back).toList.map (fun char => if char = '\\' then '/' else char)) =
        String.ofList (front.toList.map (fun char => if char = '\\' then '/' else char)) ++ String.singleton '/' ++
          String.ofList (back.toList.map (fun char => if char = '\\' then '/' else char)) :=
      String.toList_inj.mp (by simp)
    rw [chars,split_separator]
  · exact split_separator '/' front back

theorem solidParts_name (slashes : Bool) (space : SpaceCode) : solidParts slashes space.text = [space.text] := by
  have kept : space.text.toList.map (fun char => if char = '\\' then '/' else char) = space.text.toList := by
    conv => rhs; rw [← List.map_id space.text.toList]
    refine List.map_congr_left (fun char member => if_neg (fun same => space.slashed ?_))
    rwa [← same]
  unfold solidParts
  rw [kept,String.ofList_toList,ite_self,split_plain space.whole]
  simp [space.filled,space.here]

/-- The module path has all the parts of the code but the last. -/
theorem modulePath_parts {userCode : String} (slash : '/' ∈ definitionPath userCode) :
    ∃ path, modulePath userCode = .ok path ∧ split '/' path = codeParts userCode := by
  obtain ⟨after,before,same,last⟩ := List.eq_append_cons_of_mem (List.mem_reverse.mpr slash)
  refine ⟨_,if_pos slash,?_⟩
  have whole : String.ofList (definitionPath userCode) =
      String.ofList before.reverse ++ String.singleton '/' ++ String.ofList after.reverse :=
    String.toList_inj.mp (by simpa using congrArg List.reverse same)
  have single : split '/' (String.ofList after.reverse) = [String.ofList after.reverse] :=
    split_plain (by simpa [Without] using last)
  have tail : (definitionPath userCode).reverse.dropWhile (· != '/') = '/'::before := by
    rw [same,List.dropWhile_append_of_pos]
    · simp
    · intro char member
      have differs : char ≠ '/' := fun same => last (by rwa [← same])
      simpa using differs
  rw [codeParts,whole,split_separator,single,List.dropLast_concat,tail]
  rfl

/-- Cutting keeps what stands after the space. -/
theorem definitionPath_code (space userCode : String) : ∃ front, definitionPath (space ++ "." ++ userCode) =
    front ++ userCode.toList.map (fun char => if char = '.' ∨ char = ':' then '/' else char) := by
  have parts : split '.' (space ++ "." ++ userCode) = split '.' space ++ split '.' userCode := split_separator '.' space userCode
  have leading : (leadingSpace (space ++ "." ++ userCode)).length ≤ space.length := by
    rw [leadingSpace,parts]
    cases found : split '.' space with
    | nil => exact absurd found (split_ne_nil _ _)
    | cons first rest =>
      obtain ⟨tail,same⟩ := join_cons '.' first rest
      rw [← found,join_split] at same
      rw [List.cons_append,List.headD_cons,same,String.length_append]
      omega
  have chars : (space ++ "." ++ userCode).toList = (space.toList ++ ['.']) ++ userCode.toList := by simp
  unfold definitionPath
  rw [chars,List.drop_append_of_le_length]
  · exact ⟨_,List.map_append⟩
  · simpa [String.length_toList] using leading

theorem count_cut (chars : List Char) : chars.count '.' + chars.count ':' ≤
    (chars.map (fun char => if char = '.' ∨ char = ':' then '/' else char)).count '/' := by
  induction chars with
  | nil => exact Nat.le_refl 0
  | cons head rest ih =>
    rw [List.map_cons,List.count_cons,List.count_cons,List.count_cons]
    by_cases dot : head = '.'
    · subst dot
      simp
      omega
    · by_cases colon : head = ':'
      · subst colon
        simp
        omega
      · simp [dot,colon]
        omega

/-- A code with all the pieces has two dots and a colon. -/
theorem templatePieces_count {userCode : String} {pieces : List String} (made : templatePieces userCode = some pieces) :
    2 ≤ userCode.toList.count '.' ∧ 1 ≤ userCode.toList.count ':' := by
  have cut := length_split ':' userCode
  have several : ∃ moduleName, (split ':' userCode)[1]? = some moduleName := by
    unfold templatePieces at made
    obtain ⟨moduleName,found,_⟩ := Option.bind_eq_some_iff.mp made
    exact ⟨moduleName,found⟩
  obtain ⟨moduleName,found⟩ := several
  obtain ⟨bound,_⟩ := List.getElem?_eq_some_iff.mp found
  obtain ⟨third,there⟩ : ∃ third, (split '.' ((split ':' userCode).headD ""))[2]? = some third := by
    unfold templatePieces at made
    simp only [bind,Option.bind_eq_some_iff] at made
    obtain ⟨_,_,_,_,_,_,third,there,_⟩ := made
    exact ⟨third,there⟩
  obtain ⟨deep,_⟩ := List.getElem?_eq_some_iff.mp there
  refine ⟨?_,by omega⟩
  cases parts : split ':' userCode with
  | nil => exact absurd parts (split_ne_nil _ _)
  | cons first rest =>
    obtain ⟨tail,same⟩ := join_cons ':' first rest
    rw [← parts,join_split] at same
    rw [parts,List.headD_cons,length_split] at deep
    rw [same,String.toList_append,List.count_append]
    omega

/-- The lookup takes the parts of a code with all the pieces as the folders. -/
theorem lookup_components {userCode : String} {pieces : List String} (made : templatePieces userCode = some pieces)
    (space : String) :
    ∃ path, modulePath (space ++ "." ++ userCode) = .ok path ∧
      moduleComponents path = codeParts (space ++ "." ++ userCode) := by
  obtain ⟨dots,colons⟩ := templatePieces_count made
  obtain ⟨front,whole⟩ := definitionPath_code space userCode
  have cuts := count_cut userCode.toList
  have slashes : 3 ≤ (definitionPath (space ++ "." ++ userCode)).count '/' := by
    rw [whole,List.count_append]
    omega
  have slash : '/' ∈ definitionPath (space ++ "." ++ userCode) := List.count_pos_iff.mp (by omega)
  obtain ⟨path,found,parts⟩ := modulePath_parts slash
  refine ⟨path,found,?_⟩
  have long : 3 ≤ (split '/' path).length := by
    rw [parts,codeParts,List.length_dropLast,length_split,String.toList_ofList]
    omega
  have filled : path ≠ "" := by
    rintro rfl
    have short : (split '/' "").length = 1 := rfl
    omega
  rw [moduleComponents,if_neg filled,parts]

end parts

section saved
variable {root : Root} {backend : Backend} {space : SpaceCode} {userCode : String} {names : List String}

theorem saveToStorage_names (saved : saveToStorage backend space userCode = some names) : Downward names ∧
    ∃ pieces, templatePieces userCode = some pieces ∧
      names = [space.text,"workflows"] ++ solidParts backend.slashes (join '/' pieces) ++ ["workflow.json"] := by
  unfold saveToStorage at saved
  obtain ⟨path,made,saved⟩ := Option.bind_eq_some_iff.mp saved
  obtain ⟨name,handed,placed⟩ := Option.bind_eq_some_iff.mp saved
  obtain ⟨pieces,found,rfl⟩ := Option.map_eq_some_iff.mp made
  obtain ⟨down,same⟩ := backend.placed name names placed
  refine ⟨fun part member => ?_,pieces,found,?_⟩
  · have among := member
    rw [same] at among
    obtain ⟨inside,solid⟩ := List.mem_filter.mp among
    rw [decide_eq_true_eq] at solid
    exact ⟨solid.1,solid.2,fun up => down (by rwa [← up]),split_without '/' _ part inside⟩
  · have relative : startsWith "/" ("workflows/" ++ join '/' pieces ++ "/workflow.json") = false := by
      simp [startsWith]
    have filled : "workflows/" ++ join '/' pieces ++ "/workflow.json" ≠ "" := by
      intro empty
      have chars := congrArg String.toList empty
      simp at chars
    rw [scopedName,if_neg filled,if_neg (by simp [relative])] at handed
    cases handed
    have whole : space.text ++ "/" ++ ("workflows/" ++ join '/' pieces ++ "/workflow.json") =
        space.text ++ "/" ++ "workflows" ++ "/" ++ join '/' pieces ++ "/" ++ "workflow.json" :=
      String.toList_inj.mp (by simp)
    have workflows : solidParts backend.slashes "workflows" = ["workflows"] := by
      cases backend.slashes <;> decide +kernel
    have file : solidParts backend.slashes "workflow.json" = ["workflow.json"] := by
      cases backend.slashes <;> decide +kernel
    rw [same,whole,solidParts_separator,solidParts_separator,solidParts_separator,solidParts_name,workflows,file]
    rfl

/-- The name of the file matches a pattern of the lookup. -/
theorem workflow_json : defaultPatterns.any (fnmatch "workflow.json") = true := by decide +kernel

/-- A storage with one file. -/
def soleFile (plain : Downward names) : Remote Unit where
  files := [(names,())]
  plain := by
    intro file member
    cases List.mem_singleton.mp member
    exact plain
  keyed := List.nodup_singleton names

theorem soleFile_content (plain : Downward names) : ((soleFile plain).content names).isSome = true := by
  simp [Remote.content,soleFile]

private theorem lookup_writes (root : Root) (saved : saveToStorage backend space userCode = some names) (world : World) :
    ∃ path, lookupSync root world space.toName (space.text ++ "." ++ userCode) =
        .ok (syncForSchema root world defaultPatterns space.toName path) ∧
      moduleComponents path = codeParts (space.text ++ "." ++ userCode) := by
  obtain ⟨_,pieces,made,_⟩ := saveToStorage_names saved
  obtain ⟨path,found,components⟩ := lookup_components made space.text
  refine ⟨path,?_,components⟩
  rw [lookupSync,found]
  rfl

private theorem synced_write {χ : Type} (remote : Remote χ) (existing : String → Bool) (path : String) (written : String) :
    .write written ∈ (syncForSchema root (remote.world existing) defaultPatterns space.toName path).1 ↔
      Copied remote defaultPatterns (moduleComponents path) 4 0 [space.text,"workflows"] (.write written) root := by
  obtain ⟨copies,same,reached⟩ := syncForSchema_copies root remote existing defaultPatterns space.toName path
  rw [← reached,same]
  split <;> simp

theorem named_of_found (saved : saveToStorage backend space userCode = some names)
    (again : FoundAgain root space userCode names) : NamesFolders backend.slashes space userCode := by
  obtain ⟨plain,pieces,made,rfl⟩ := saveToStorage_names saved
  obtain ⟨synced,done,written⟩ := again (soleFile plain) (fun _ => false) (soleFile_content plain)
  obtain ⟨path,lookup,components⟩ := lookup_writes root saved ((soleFile plain).world (fun _ => false))
  cases lookup.symm.trans done
  rw [synced_write,copied_iff (soleFile_content plain),components] at written
  exact ⟨pieces,made,written.1,written.2.1⟩

theorem found_of_named (saved : saveToStorage backend space userCode = some names)
    (named : NamesFolders backend.slashes space userCode) : FoundAgain root space userCode names := by
  intro χ remote existing stored
  obtain ⟨pieces,made,fits⟩ := named
  obtain ⟨_,others,same,rfl⟩ := saveToStorage_names saved
  cases made.symm.trans same
  obtain ⟨path,lookup,components⟩ := lookup_writes root saved (remote.world existing)
  refine ⟨_,lookup,?_⟩
  rw [synced_write,copied_iff stored,components]
  exact ⟨fits.1,fits.2,workflow_json⟩

/-- A template that was saved is found again exactly if its pieces name four folders
which are the first parts of its code. -/
theorem found_again_iff (root : Root) (backend : Backend) (space : SpaceCode) (userCode : String) (names : List String)
    (saved : saveToStorage backend space userCode = some names) :
    FoundAgain root space userCode names ↔ NamesFolders backend.slashes space userCode :=
  ⟨named_of_found saved,found_of_named saved⟩

end saved

/-- A backend that reads backslashes as they are. -/
def plainBackend : Backend where
  slashes := false
  place name := if ".." ∈ solidParts false name then none else some (solidParts false name)
  placed name names stored := by
    split at stored
    · cases stored
    next down =>
      cases stored
      exact ⟨down,rfl⟩

/-- A module of three names is found again, one of four names is not. -/
theorem three_names_found : FoundAgain storageRoot firstCode "com.finmars.pack:report"
    ["space0","workflows","com","finmars","pack","report","workflow.json"] := by
  apply (found_again_iff storageRoot plainBackend firstCode "com.finmars.pack:report" _ (by decide +kernel)).mpr
  exact ⟨["com","finmars","pack","report"],by decide +kernel,by decide +kernel,by decide +kernel⟩

theorem four_names_lost : ¬ ∀ (root : Root) (backend : Backend) (space : SpaceCode) (userCode : String) (names : List String),
    saveToStorage backend space userCode = some names → FoundAgain root space userCode names := by
  intro always
  have saved : saveToStorage plainBackend firstCode "com.finmars.pack.v2:report" =
      some ["space0","workflows","com","finmars","pack","report","workflow.json"] := by decide +kernel
  have pieces : templatePieces "com.finmars.pack.v2:report" = some ["com","finmars","pack","report"] := by decide +kernel
  obtain ⟨others,made,_,agree⟩ := named_of_found saved (always storageRoot _ _ _ _ saved)
  cases pieces.symm.trans made
  have differs : ¬ Agrees (codeParts (firstCode.text ++ "." ++ "com.finmars.pack.v2:report")) 0
      (solidParts false (join '/' ["com","finmars","pack","report"])) := by decide +kernel
  exact differs agree

end FinmarsWorkflow.Tenant
