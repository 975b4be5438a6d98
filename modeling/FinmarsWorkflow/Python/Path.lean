import FinmarsWorkflow.Python.Text

/-! `os.path` on POSIX, and where a path leads.
Paths are read segment by segment: an empty segment and a dot stay, two dots go
one folder up and anything else goes down. A relative path climbs some folders and
then goes down through names; it ends below its start exactly if these begin with
the folders it has left. -/
namespace Python

/-- One step of `os.path.join`. -/
def joinPath (path next : String) : String :=
  if startsWith "/" next then next
  else if path = "" ∨ path.toList.getLast? = some '/' then path ++ next
  else path ++ "/" ++ next

/-- `os.path.join(first, *rest)` -/
def joinPaths (first : String) (rest : List String) : String := rest.foldl joinPath first

/-- The loop of `os.path.normpath` over the segments of a path. -/
def pushSegment (absolute : Bool) (segments : List String) (segment : String) : List String :=
  if segment = "" ∨ segment = "." then segments
  else if segment ≠ ".." ∨ (absolute = false ∧ segments = []) ∨ segments.getLast? = some ".." then segments ++ [segment]
  else segments.dropLast

/-- Two leading slashes are kept, more are one. -/
def initialSlashes (path : String) : Nat :=
  if startsWith "/" path then if startsWith "//" path && !startsWith "///" path then 2 else 1 else 0

def normalSegments (path : String) : List String :=
  (split '/' path).foldl (pushSegment (initialSlashes path != 0)) []

/-- `os.path.normpath` -/
def normpath (path : String) : String :=
  let normal := String.ofList (List.replicate (initialSlashes path) '/') ++ join '/' (normalSegments path)
  if normal = "" then "." else normal

/-- The names of a normalised path. -/
def pathNames (path : String) : List String := (split '/' (normpath path)).filter (· != "")

/-- The path lies in a folder, or is the folder, after normalisation. -/
def Inside (folder : List String) (path : String) : Prop := folder <+: pathNames path

instance (folder : List String) (path : String) : Decidable (Inside folder path) :=
  inferInstanceAs (Decidable (_ <+: _))

/-- Going on from a folder by one segment. -/
def walkSegment (folder : List String) (segment : String) : List String :=
  if segment = "" ∨ segment = "." then folder
  else if segment = ".." then folder.dropLast
  else folder ++ [segment]

def walk (folder segments : List String) : List String := segments.foldl walkSegment folder

/-- Where a relative path leads: so many folders up, and down through names. -/
structure Route where
  ups : Nat
  names : List String
deriving DecidableEq

def Route.go (route : Route) (segment : String) : Route :=
  if segment = "" ∨ segment = "." then route
  else if segment = ".." then if route.names = [] then ⟨route.ups+1,[]⟩ else ⟨route.ups,route.names.dropLast⟩
  else ⟨route.ups,route.names ++ [segment]⟩

def route (segments : List String) : Route := segments.foldl Route.go ⟨0,[]⟩

/-- The route ends in the folder or below: it names the folders again that it left. -/
def Route.Returns (folder : List String) (route : Route) : Prop :=
  folder.drop (folder.length - route.ups) <+: route.names

/-- The name of a file or a folder. -/
structure Name where
  text : String
  filled : text ≠ ""
  here : text ≠ "."
  up : text ≠ ".."
  whole : Without '/' text

section segments
variable {folder names segments front back : List String} {segment : String} {path : String}

/-- Segments that go down. -/
def Downward (names : List String) : Prop := ∀ name ∈ names, name ≠ "" ∧ name ≠ "." ∧ name ≠ ".." ∧ Without '/' name

instance (names : List String) : Decidable (Downward names) := inferInstanceAs (Decidable (∀ name ∈ names, _))

theorem walk_append : walk folder (front ++ back) = walk (walk folder front) back := List.foldl_append

theorem route_append : route (front ++ back) = back.foldl Route.go (route front) := List.foldl_append

theorem route_snoc : route (segments ++ [segment]) = (route segments).go segment := by rw [route_append]; rfl

theorem walk_plain (plain : Downward names) : walk folder names = folder ++ names := by
  induction names generalizing folder with
  | nil => simp [walk]
  | cons name rest ih =>
    obtain ⟨⟨filled,here,up,_⟩,others⟩ := List.forall_mem_cons.mp plain
    have first : walkSegment folder name = folder ++ [name] := by simp [walkSegment,filled,here,up]
    rw [walk,List.foldl_cons,first]
    exact (ih others).trans (by simp)

/-- A relative path leads from a folder to where its route leads. -/
theorem walk_route (folder segments : List String) : walk folder segments =
    folder.take (folder.length - (route segments).ups) ++ (route segments).names := by
  induction segments using List.reverseRecOn with
  | nil => simp [walk,route]
  | append_singleton rest segment ih =>
    rw [walk_append,ih,route_snoc]
    simp only [walk,List.foldl_cons,List.foldl_nil,walkSegment,Route.go]
    split
    · rfl
    · split
      · split
        next bare =>
          rw [bare,List.append_nil,List.append_nil,List.dropLast_eq_take,List.length_take,List.take_take]
          congr 1
          dsimp only
          omega
        next deep => rw [List.dropLast_append_of_ne_nil deep]
      · simp

/-- A path that starts in a folder ends there or below exactly if its route returns. -/
theorem walk_inside : folder <+: walk folder segments ↔ (route segments).Returns folder := by
  rw [walk_route,Route.Returns]
  conv => lhs; lhs; rw [← List.take_append_drop (folder.length - (route segments).ups) folder]
  exact List.prefix_append_right_inj _

theorem route_names_plain (whole : ∀ segment ∈ segments, Without '/' segment) : Downward (route segments).names := by
  induction segments using List.reverseRecOn with
  | nil => exact fun _ member => absurd member List.not_mem_nil
  | append_singleton rest segment ih =>
    have earlier := ih (fun other member => whole other (List.mem_append_left _ member))
    have last := whole segment (List.mem_append_right _ (List.mem_singleton.mpr rfl))
    rw [route_snoc,Route.go]
    split
    · exact earlier
    next solid =>
      split
      · split
        · exact fun _ member => absurd member List.not_mem_nil
        · exact fun name member => earlier name (List.mem_of_mem_dropLast member)
      next down =>
        rw [not_or] at solid
        intro name member
        rcases List.mem_append.mp member with inside | single
        · exact earlier name inside
        · cases List.mem_singleton.mp single
          exact ⟨solid.1,solid.2,down,last⟩

theorem walk_names_plain (plain : Downward folder) (whole : ∀ segment ∈ segments, Without '/' segment) :
    Downward (walk folder segments) := by
  rw [walk_route]
  intro name member
  rcases List.mem_append.mp member with inside | inside
  · exact plain name (List.mem_of_mem_take inside)
  · exact route_names_plain whole name inside

theorem getLast_plain (plain : Downward names) : names.getLast? ≠ some ".." := by
  intro last
  exact (plain _ (List.mem_of_getLast? last)).2.2.1 rfl

/-- On an absolute path the loop of `normpath` walks from the root. -/
theorem pushSegment_absolute (plain : Downward names) : pushSegment true names segment = walkSegment names segment := by
  unfold pushSegment walkSegment
  split
  · rfl
  · by_cases up : segment = ".."
    · simp [up,getLast_plain plain]
    · simp [up]

/-- On a relative path it keeps the route: as many dots as folders up, and the names. -/
theorem pushSegment_relative {current : Route} (plain : Downward current.names) :
    pushSegment false (List.replicate current.ups ".." ++ current.names) segment =
      List.replicate (current.go segment).ups ".." ++ (current.go segment).names := by
  obtain ⟨ups,names⟩ := current
  unfold pushSegment Route.go
  split
  · rfl
  · by_cases up : segment = ".."
    · by_cases bare : names = []
      · subst bare
        cases ups with
        | zero => simp [up]
        | succ ups => simp [up,List.replicate_succ',List.getLast?_append]
      · have last : (List.replicate ups ".." ++ names).getLast? = names.getLast? := by
          rw [List.getLast?_append]
          cases found : names.getLast? with
          | none => exact absurd (List.getLast?_eq_none_iff.mp found) bare
          | some => rfl
        have deep := getLast_plain plain
        simp [up,bare,last,deep,List.dropLast_append_of_ne_nil bare]
    · simp [up]

theorem normal_absolute (plain : Downward folder) (whole : ∀ segment ∈ segments, Without '/' segment) :
    segments.foldl (pushSegment true) folder = walk folder segments := by
  induction segments using List.reverseRecOn with
  | nil => rfl
  | append_singleton rest segment ih =>
    have inner := fun other member => whole other (List.mem_append_left _ member)
    rw [List.foldl_append,ih inner,walk_append]
    exact pushSegment_absolute (walk_names_plain plain inner)

theorem normal_relative (whole : ∀ segment ∈ segments, Without '/' segment) :
    segments.foldl (pushSegment false) [] = List.replicate (route segments).ups ".." ++ (route segments).names := by
  induction segments using List.reverseRecOn with
  | nil => rfl
  | append_singleton rest segment ih =>
    have inner := fun other member => whole other (List.mem_append_left _ member)
    rw [List.foldl_append,ih inner,route_snoc]
    exact pushSegment_relative (route_names_plain inner)

end segments

section texts
variable {folder names : List String} {path next : String}

/-- The names that an absolute path leads to. -/
def places (path : String) : List String := walk [] (split '/' path)

/-- The route of a relative path. -/
def relativeRoute (path : String) : Route := route (split '/' path)

theorem initialSlashes_relative (relative : startsWith "/" path = false) : initialSlashes path = 0 := by
  rw [initialSlashes,relative]
  rfl

theorem initialSlashes_absolute (absolute : startsWith "/" path = true) :
    initialSlashes path = 1 ∨ initialSlashes path = 2 := by
  rw [initialSlashes,absolute]
  cases startsWith "//" path && !startsWith "///" path
  · exact .inl rfl
  · exact .inr rfl

theorem plain_nil : Downward [] := fun _ member => absurd member List.not_mem_nil

theorem places_plain (path : String) : Downward (places path) := walk_names_plain plain_nil (split_without '/' path)

theorem relativeRoute_plain (path : String) : Downward (relativeRoute path).names :=
  route_names_plain (split_without '/' path)

theorem normalSegments_absolute (absolute : startsWith "/" path = true) : normalSegments path = places path := by
  have some_slash : (initialSlashes path != 0) = true := by
    rcases initialSlashes_absolute absolute with one | two
    · rw [one]; rfl
    · rw [two]; rfl
  rw [normalSegments,some_slash]
  exact normal_absolute plain_nil (split_without '/' path)

theorem normalSegments_relative (relative : startsWith "/" path = false) : normalSegments path =
    List.replicate (relativeRoute path).ups ".." ++ (relativeRoute path).names := by
  have none : (initialSlashes path != 0) = false := by
    rw [initialSlashes_relative relative]
    rfl
  rw [normalSegments,none]
  exact normal_relative (split_without '/' path)

theorem split_slashes (count : Nat) (text : String) :
    split '/' (String.ofList (List.replicate count '/') ++ text) = List.replicate count "" ++ split '/' text := by
  induction count with
  | zero => simp
  | succ count ih =>
    have chars : String.ofList (List.replicate (count+1) '/') ++ text =
        "" ++ String.singleton '/' ++ (String.ofList (List.replicate count '/') ++ text) :=
      String.toList_inj.mp (by simp [List.replicate_succ])
    rw [chars,split_append (by simp [Without]),ih,List.replicate_succ]
    rfl

/-- The segments of a joined list of names, but for an empty one where there is none. -/
theorem split_join_filter (plain : ∀ name ∈ names, name ≠ "" ∧ Without '/' name) :
    (split '/' (join '/' names)).filter (· != "") = names := by
  rcases names.eq_nil_or_concat with rfl | ⟨front,last,rfl⟩
  · rfl
  · rw [split_join (by simp) (fun name member => (plain name member).2),List.filter_eq_self]
    exact fun name member => by simpa using (plain name member).1

theorem join_eq_empty (plain : ∀ name ∈ names, name ≠ "" ∧ Without '/' name) (empty : join '/' names = "") : names = [] := by
  have parts := split_join_filter plain
  rw [empty] at parts
  exact parts.symm

theorem plain_solid (plain : Downward names) : ∀ name ∈ names, name ≠ "" ∧ Without '/' name :=
  fun name member => ⟨(plain name member).1,(plain name member).2.2.2⟩

theorem normpath_absolute (absolute : startsWith "/" path = true) :
    normpath path = String.ofList (List.replicate (initialSlashes path) '/') ++ join '/' (places path) := by
  rw [normpath,normalSegments_absolute absolute]
  refine if_neg (fun empty => ?_)
  have chars := congrArg String.toList empty
  rcases initialSlashes_absolute absolute with one | two
  · simp [one] at chars
  · simp [two] at chars

/-- Normalising an absolute path leaves the names that it leads to. -/
theorem pathNames_absolute (absolute : startsWith "/" path = true) : pathNames path = places path := by
  rw [pathNames,normpath_absolute absolute,split_slashes,List.filter_append,
    split_join_filter (plain_solid (places_plain path))]
  have none : (List.replicate (initialSlashes path) "").filter (· != "") = [] := by
    rw [List.filter_replicate]
    rfl
  rw [none,List.nil_append]

theorem inside_absolute (absolute : startsWith "/" path = true) : Inside folder path ↔ folder <+: places path := by
  rw [Inside,pathNames_absolute absolute]

theorem joinPath_absolute (absolute : startsWith "/" next = true) : joinPath path next = next := if_pos absolute

/-- Joining a relative path puts its segments after those of the path, but for empty ones. -/
theorem joinPath_fold {State : Type} (step : State → String → State) (skips : ∀ state, step state "" = state)
    (relative : startsWith "/" next = false) (state : State) :
    (split '/' (joinPath path next)).foldl step state = (split '/' next).foldl step ((split '/' path).foldl step state) := by
  rw [joinPath,if_neg (by simp [relative])]
  split
  next bare =>
    rcases bare with rfl | slash
    · have blank : split '/' "" = [""] := rfl
      rw [String.empty_append,blank,List.foldl_cons,List.foldl_nil,skips]
    · obtain ⟨chars,same⟩ := List.getLast?_eq_some_iff.mp slash
      have ends : path = String.ofList chars ++ String.singleton '/' := String.toList_inj.mp (by simp [same])
      have blank : split '/' (String.ofList chars ++ String.singleton '/') = split '/' (String.ofList chars) ++ [""] := by
        have parts := split_separator '/' (String.ofList chars) ""
        rwa [String.append_empty] at parts
      rw [ends,split_separator,blank,List.foldl_append,List.foldl_append,List.foldl_cons,List.foldl_nil,skips]
  next =>
    have parts : split '/' (path ++ "/" ++ next) = split '/' path ++ split '/' next := split_separator '/' path next
    rw [parts,List.foldl_append]

theorem walkSegment_blank (folder : List String) : walkSegment folder "" = folder := by simp [walkSegment]

theorem go_blank (route : Route) : route.go "" = route := by simp [Route.go]

theorem startsWith_joinPath (relative : startsWith "/" next = false) :
    startsWith "/" (joinPath path next) = startsWith "/" path := by
  rw [joinPath,if_neg (by simp [relative])]
  split
  next bare =>
    rcases bare with rfl | slash
    · rw [String.empty_append,relative]
      rfl
    · obtain ⟨chars,same⟩ := List.getLast?_eq_some_iff.mp slash
      simp only [startsWith,String.toList_append,same]
      cases chars <;> simp
  next other =>
    rw [not_or] at other
    simp only [startsWith,String.toList_append]
    cases chars : path.toList with
    | nil => exact absurd (String.toList_inj.mp chars) other.1
    | cons => simp

/-- Where an absolute path leads that a relative one is joined to. -/
theorem places_joinPath (relative : startsWith "/" next = false) :
    places (joinPath path next) = walk (places path) (split '/' next) :=
  joinPath_fold walkSegment walkSegment_blank relative []

theorem go_names {current : Route} (plain : Downward names) :
    names.foldl Route.go current = ⟨current.ups,current.names ++ names⟩ := by
  induction names generalizing current with
  | nil => simp
  | cons name rest ih =>
    obtain ⟨⟨filled,here,up,_⟩,others⟩ := List.forall_mem_cons.mp plain
    have first : current.go name = ⟨current.ups,current.names ++ [name]⟩ := by simp [Route.go,filled,here,up]
    rw [List.foldl_cons,first,ih others]
    simp

theorem route_normal {ups : Nat} (plain : Downward names) : route (List.replicate ups ".." ++ names) = ⟨ups,names⟩ := by
  have climbs : route (List.replicate ups "..") = ⟨ups,[]⟩ := by
    induction ups with
    | zero => rfl
    | succ ups ih =>
      rw [List.replicate_succ',route_snoc,ih]
      rfl
  rw [route_append,climbs,go_names plain,List.nil_append]

theorem normal_solid (ups : Nat) (plain : Downward names) :
    ∀ name ∈ List.replicate ups ".." ++ names, name ≠ "" ∧ Without '/' name := by
  intro name member
  rcases List.mem_append.mp member with climbs | inside
  · rw [List.eq_of_mem_replicate climbs]
    decide
  · exact plain_solid plain name inside

theorem normpath_relative (relative : startsWith "/" path = false) : normpath path =
    if (relativeRoute path).ups = 0 ∧ (relativeRoute path).names = [] then "."
    else join '/' (List.replicate (relativeRoute path).ups ".." ++ (relativeRoute path).names) := by
  have solid := normal_solid (relativeRoute path).ups (relativeRoute_plain path)
  rw [normpath,normalSegments_relative relative,initialSlashes_relative relative]
  simp only [List.replicate_zero,String.ofList_nil,String.empty_append]
  split
  next empty =>
    have none := join_eq_empty solid empty
    rw [if_pos (by simpa using none)]
  next filled =>
    refine (if_neg (fun both => filled ?_)).symm
    rw [both.1,both.2]
    rfl

/-- Normalising a relative path keeps its route. -/
theorem relativeRoute_normpath (relative : startsWith "/" path = false) :
    relativeRoute (normpath path) = relativeRoute path := by
  have plain := relativeRoute_plain path
  rw [normpath_relative relative]
  split
  next both =>
    cases shape : relativeRoute path with
    | mk ups names =>
      rw [shape] at both
      obtain ⟨rfl,rfl⟩ := both
      rfl
  next some_segment =>
    rw [relativeRoute,split_join (by simpa using some_segment) (fun name member => (normal_solid _ plain name member).2),
      route_normal plain]

theorem join_cons (separator : Char) (first : String) (rest : List String) :
    ∃ tail, join separator (first::rest) = first ++ tail := by
  cases rest with
  | nil => exact ⟨"",by simp [join]⟩
  | cons second others =>
    exact ⟨String.singleton separator ++ join separator (second::others),String.toList_inj.mp (by simp [join])⟩

/-- A list of names begins with no slash when it is joined. -/
theorem startsWith_join (solid : ∀ name ∈ names, name ≠ "" ∧ Without '/' name) : startsWith "/" (join '/' names) = false := by
  cases names with
  | nil => rfl
  | cons first rest =>
    obtain ⟨tail,same⟩ := join_cons '/' first rest
    obtain ⟨filled,whole⟩ := solid first List.mem_cons_self
    rw [same]
    simp only [startsWith,String.toList_append]
    cases chars : first.toList with
    | nil => exact absurd (String.toList_inj.mp chars) filled
    | cons head others =>
      have differs : '/' ≠ head := by
        rintro rfl
        exact whole (by simp [chars])
      simp [differs]

theorem startsWith_normpath : startsWith "/" (normpath path) = startsWith "/" path := by
  cases absolute : startsWith "/" path with
  | true =>
    rw [normpath_absolute absolute]
    rcases initialSlashes_absolute absolute with one | two
    · rw [one]
      exact startsWith_iff.mpr ⟨_,rfl⟩
    · rw [two]
      exact startsWith_iff.mpr ⟨String.singleton '/' ++ join '/' (places path),rfl⟩
  | false =>
    rw [normpath_relative absolute]
    split
    · rfl
    · exact startsWith_join (normal_solid _ (relativeRoute_plain path))

theorem split_plain (whole : Without '/' path) : split '/' path = [path] := by
  simp [split,List.splitOn_eq_singleton whole]

theorem join_slashes {count : Nat} (some_name : names ≠ []) (whole : ∀ name ∈ names, Without '/' name) :
    join '/' (List.replicate count "" ++ names) = String.ofList (List.replicate count '/') ++ join '/' names := by
  have parts := split_slashes count (join '/' names)
  rw [split_join some_name whole] at parts
  rw [← parts,join_split]

theorem walk_blanks (folder : List String) (count : Nat) : walk folder (List.replicate count "") = folder := by
  induction count with
  | zero => rfl
  | succ count ih => rw [List.replicate_succ,walk,List.foldl_cons,walkSegment_blank]; exact ih

theorem places_slashes (count : Nat) (plain : Downward names) :
    places (String.ofList (List.replicate count '/') ++ join '/' names) = names := by
  rw [places,split_slashes,walk_append,walk_blanks]
  rcases names.eq_nil_or_concat with rfl | ⟨front,last,rfl⟩
  · rfl
  · rw [split_join (by simp) (fun name member => (plain name member).2.2.2),walk_plain plain,List.nil_append]

theorem walk_filter (folder segments : List String) : walk folder (segments.filter (· != "")) = walk folder segments := by
  induction segments generalizing folder with
  | nil => rfl
  | cons segment rest ih =>
    by_cases blank : segment = ""
    · rw [blank,List.filter_cons_of_neg (by decide),ih,walk,walk,List.foldl_cons,walkSegment_blank]
    · rw [List.filter_cons_of_pos (by simpa using blank)]
      exact ih (walkSegment folder segment)

/-- Names other than two dots lead nowhere but down. -/
theorem walk_down {segments : List String} (down : ∀ segment ∈ segments, segment ≠ "..") : folder <+: walk folder segments := by
  induction segments generalizing folder with
  | nil => exact List.prefix_refl _
  | cons segment rest ih =>
    obtain ⟨here,others⟩ := List.forall_mem_cons.mp down
    have first : folder <+: walkSegment folder segment := by
      unfold walkSegment
      split
      · exact List.prefix_refl _
      · exact List.prefix_append _ _
    exact first.trans (ih others)

theorem places_normpath (absolute : startsWith "/" path = true) : places (normpath path) = places path := by
  rw [normpath_absolute absolute,places_slashes _ (places_plain path)]

theorem Name.relative (name : Name) : startsWith "/" name.text = false := by
  have joined : join '/' [name.text] = name.text := by simp [join]
  have solid : startsWith "/" (join '/' [name.text]) = false := startsWith_join
    (fun other member => by cases List.mem_singleton.mp member; exact ⟨name.filled,name.whole⟩)
  rwa [joined] at solid

theorem places_name (name : Name) : places (joinPath path name.text) = places path ++ [name.text] := by
  rw [places_joinPath name.relative,split_plain name.whole]
  exact walk_plain (fun other member => by
    cases List.mem_singleton.mp member
    exact ⟨name.filled,name.here,name.up,name.whole⟩)

end texts

end Python
