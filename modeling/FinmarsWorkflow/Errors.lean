import FinmarsWorkflow.Python.Text

/-! The error list of a response. `flatten_errors` walks a tree of error details and gives every
error its place, with a list index that it carries into a list and along it. -/
namespace FinmarsWorkflow.Errors
open Python

structure ErrorDetail where
  code : String
  message : String
deriving DecidableEq

inductive Detail where
  | leaf (error : ErrorDetail)
  | list (items : List Detail)
  | dict (entries : List (String × Detail))

structure Error where
  code : String
  detail : String
  attr : Option String
deriving DecidableEq

/-- `isinstance(item, exceptions.ErrorDetail)` -/
def Detail.isErrorDetail : Detail → Bool
  | .leaf _ => true
  | _ => false

/-- `f"{attr}{separator}{key}" if attr else key`; the empty text counts as no `attr`. -/
def below (attr : Option String) (key : String) : String := match attr with
  | none => key
  | some attr => if attr = "" then key else attr ++ "." ++ key

theorem below_named {attr : String} (named : attr ≠ "") (key : String) : below (some attr) key = attr ++ "." ++ key :=
  if_neg named

/-- `0 if index is None else index + 1` -/
def nextIndex : Option Nat → Nat
  | none => 0
  | some index => index + 1

mutual

def flattenErrors : Detail → Option String → Option Nat → List Error
  -- an `ErrorDetail` is a string, and an empty one is falsy
  | .leaf error, attr, _ => if error.message = "" then [] else [⟨error.code,error.message,attr⟩]
  | .list items, attr, index => flattenList items attr index
  | .dict entries, attr, _ => flattenDict entries attr

/-- The branch for lists. The index of an item goes with it, and so into a list among the items. -/
def flattenList : List Detail → Option String → Option Nat → List Error
  | [], _, _ => []
  | first::rest, attr, index =>
    if first.isErrorDetail then flattenErrors first attr index ++ flattenList rest attr index
    else flattenErrors first (some (below attr (nextIndex index).repr)) (some (nextIndex index)) ++
      flattenList rest attr (some (nextIndex index))

/-- The branch for dicts. -/
def flattenDict : List (String × Detail) → Option String → List Error
  | [], _ => []
  | (key,value)::rest, attr => flattenErrors value (some (below attr key)) none ++ flattenDict rest attr

end

/-- The detail of `APIException(detail=str(exc))`. -/
def convertUnhandledExceptions (text : String) : Detail := .leaf ⟨"error",text⟩

section places

/-- The keys and positions down to an error; null if there are none. -/
def place : List String → Option String
  | [] => none
  | path => some (join '.' path)

mutual

/-- Every error at its place. Lists and dicts in a list are told apart by their positions. -/
def errorsAt : List String → Detail → List Error
  | path, .leaf error => [⟨error.code,error.message,place path⟩]
  | path, .list items => itemsAt path 0 items
  | path, .dict entries => entriesAt path entries

def itemsAt : List String → Nat → List Detail → List Error
  | _, _, [] => []
  | path, position, first::rest =>
    if first.isErrorDetail then errorsAt path first ++ itemsAt path (position + 1) rest
    else errorsAt (path ++ [position.repr]) first ++ itemsAt path (position + 1) rest

def entriesAt : List String → List (String × Detail) → List Error
  | _, [] => []
  | path, (key,value)::rest => errorsAt (path ++ [key]) value ++ entriesAt path rest

end

/-- Each error is listed once, in order and at its place, and there is one. -/
def ListsEvery (detail : Detail) : Prop :=
  flattenErrors detail none none = errorsAt [] detail ∧ flattenErrors detail none none ≠ []

end places

section leaves

mutual

def leaves : Detail → List ErrorDetail
  | .leaf error => [error]
  | .list items => itemLeaves items
  | .dict entries => entryLeaves entries

def itemLeaves : List Detail → List ErrorDetail
  | [] => []
  | first::rest => leaves first ++ itemLeaves rest

def entryLeaves : List (String × Detail) → List ErrorDetail
  | [] => []
  | (_,value)::rest => leaves value ++ entryLeaves rest

end

mutual

theorem errorsAt_length : ∀ path detail, (errorsAt path detail).length = (leaves detail).length
  | _, .leaf _ => rfl
  | path, .list items => itemsAt_length path 0 items
  | path, .dict entries => entriesAt_length path entries

theorem itemsAt_length : ∀ path position items, (itemsAt path position items).length = (itemLeaves items).length
  | _, _, [] => rfl
  | path, position, first::rest => by
    have tail := itemsAt_length path (position + 1) rest
    unfold itemsAt itemLeaves
    split
    · rw [List.length_append,List.length_append,errorsAt_length path first,tail]
    · rw [List.length_append,List.length_append,errorsAt_length _ first,tail]

theorem entriesAt_length : ∀ path entries, (entriesAt path entries).length = (entryLeaves entries).length
  | _, [] => rfl
  | path, (key,value)::rest => by
    unfold entriesAt entryLeaves
    rw [List.length_append,List.length_append,errorsAt_length _ value,entriesAt_length path rest]

end

mutual

theorem flattenErrors_length : ∀ detail attr index, (flattenErrors detail attr index).length ≤ (leaves detail).length
  | .leaf error, attr, _ => by
    unfold flattenErrors leaves
    split
    · exact Nat.zero_le _
    · exact Nat.le_refl _
  | .list items, attr, index => flattenList_length items attr index
  | .dict entries, attr, _ => flattenDict_length entries attr

theorem flattenList_length : ∀ items attr index, (flattenList items attr index).length ≤ (itemLeaves items).length
  | [], _, _ => Nat.le_refl _
  | first::rest, attr, index => by
    unfold flattenList itemLeaves
    split
    · rw [List.length_append,List.length_append]
      exact Nat.add_le_add (flattenErrors_length first attr index) (flattenList_length rest attr index)
    · rw [List.length_append,List.length_append]
      exact Nat.add_le_add (flattenErrors_length first _ _) (flattenList_length rest attr _)

theorem flattenDict_length : ∀ entries attr, (flattenDict entries attr).length ≤ (entryLeaves entries).length
  | [], _ => Nat.le_refl _
  | (key,value)::rest, attr => by
    unfold flattenDict entryLeaves
    rw [List.length_append,List.length_append]
    exact Nat.add_le_add (flattenErrors_length value _ none) (flattenDict_length rest attr)

end

/-- Where there is no error, there is nothing to list. -/
theorem nothing_listed {detail : Detail} (none : leaves detail = []) (path : List String) (attr : Option String)
    (index : Option Nat) : flattenErrors detail attr index = errorsAt path detail := by
  have listed := flattenErrors_length detail attr index
  have placed := errorsAt_length path detail
  rw [none] at listed placed
  rw [List.length_eq_zero_iff.mp (Nat.le_zero.mp listed),List.length_eq_zero_iff.mp placed]

end leaves

section names

theorem numeral_inj {first second : Nat} (same : first.repr = second.repr) : first = second := by
  have digits : Nat.toDigits 10 first = Nat.toDigits 10 second := by
    rw [← Nat.toList_repr,same,Nat.toList_repr]
  rw [← Nat.ofDigitChars_ten_toDigits (n := first),digits,Nat.ofDigitChars_ten_toDigits]

theorem numeral_without_dot (number : Nat) : Without '.' number.repr := by
  intro dot
  rw [Nat.toList_repr] at dot
  exact absurd (Nat.isDigit_of_mem_toDigits (by decide) (by decide) dot) (by decide)

/-- A text that goes on with a dot, or not at all. -/
def GoesOn (text : String) : Prop := ∃ rest, text ++ "." = "." ++ rest

theorem GoesOn.empty : GoesOn "" := ⟨"",rfl⟩

theorem GoesOn.below {text : String} (key : String) (goesOn : GoesOn text) : GoesOn (text ++ "." ++ key) := by
  obtain ⟨rest,same⟩ := goesOn
  refine ⟨rest ++ key ++ ".",?_⟩
  have moved : text ++ "." ++ key ++ "." = (text ++ ".") ++ (key ++ ".") := String.append_assoc
  rw [moved,same]
  simp only [String.append_assoc]

/-- A relation between a place as it is listed and as it should be, under which they differ and
which no further key or position mends. -/
structure Diverges (relation : String → String → Prop) : Prop where
  differ : ∀ {listed right}, relation listed right → listed ≠ right
  key : ∀ {listed right} key, relation listed right → relation (below (some listed) key) (right ++ "." ++ key)
  position : ∀ {listed right} index position, relation listed right →
    relation (below (some listed) (Nat.repr index)) (right ++ "." ++ Nat.repr position)

/-- Somewhere the places have different numbers. -/
def OtherNumber (listed right : String) : Prop :=
  ∃ front index position listedRest rightRest, index ≠ position ∧ GoesOn listedRest ∧ GoesOn rightRest ∧
    listed = front ++ Nat.repr index ++ listedRest ∧ right = front ++ Nat.repr position ++ rightRest

theorem OtherNumber.differ {listed right : String} (other : OtherNumber listed right) : listed ≠ right := by
  intro same
  obtain ⟨front,index,position,_,_,differ,⟨listedRest,listedMore⟩,⟨rightRest,rightMore⟩,rfl,rfl⟩ := other
  have longer := congrArg (· ++ ".") same
  simp only [String.append_assoc,listedMore,rightMore,String.append_right_inj] at longer
  rw [← String.append_assoc,← String.append_assoc] at longer
  exact differ (numeral_inj (append_separator_inj (numeral_without_dot index) (numeral_without_dot position) longer).1)

/-- A place with a number in it is not empty, so what comes next stands behind a dot. -/
theorem OtherNumber.below {listed right : String} (other : OtherNumber listed right) (listedKey rightKey : String) :
    OtherNumber (below (some listed) listedKey) (right ++ "." ++ rightKey) := by
  obtain ⟨front,index,position,listedRest,rightRest,differ,listedOn,rightOn,rfl,rfl⟩ := other
  have some_text : front ++ Nat.repr index ++ listedRest ≠ "" := by
    intro none
    have empty := (String.append_eq_empty_iff.mp (String.append_eq_empty_iff.mp none).1).2
    exact Nat.repr_ne_empty empty
  refine ⟨front,index,position,_,_,differ,listedOn.below listedKey,rightOn.below rightKey,?_,?_⟩
  · rw [below_named some_text]
    simp only [String.append_assoc]
  · simp only [String.append_assoc]

theorem otherNumber_diverges : Diverges OtherNumber where
  differ := OtherNumber.differ
  key := fun key other => other.below key key
  position := fun _ _ other => other.below _ _

/-- How many dots a text begins with. -/
def dots (text : String) : Nat := (text.toList.takeWhile (fun char => char == '.')).length

theorem dots_le (text : String) : dots text ≤ text.length := by
  have least := (List.takeWhile_sublist (fun char => char == '.') (l := text.toList)).length_le
  rwa [String.length_toList] at least

theorem dots_append (text : String) (key : String) :
    dots (text ++ "." ++ key) = if dots text = text.length then text.length + 1 + dots key else dots text := by
  unfold dots
  rw [String.toList_append,String.toList_append,List.append_assoc,List.takeWhile_append,String.length_toList]
  split
  · have dot : (".".toList ++ key.toList).takeWhile (fun char => char == '.') =
        '.'::key.toList.takeWhile (fun char => char == '.') := rfl
    rw [List.length_append,String.length_toList,dot,List.length_cons]
    omega
  · rfl

theorem length_append_dot (text key : String) : (text ++ "." ++ key).length = text.length + 1 + key.length := by
  rw [String.length_append,String.length_append]
  rfl

theorem dots_numeral (number : Nat) : dots (Nat.repr number) = 0 ∧ 0 < (Nat.repr number).length := by
  have absent := numeral_without_dot number
  have some_digit := Nat.repr_ne_empty (n := number)
  unfold dots
  rw [← String.length_toList]
  cases digits : (Nat.repr number).toList with
  | nil => exact absurd (String.toList_inj.mp digits) some_digit
  | cons digit rest =>
    rw [Without,digits] at absent
    have other : ¬ (digit == '.') = true := by
      intro same
      rw [beq_iff_eq.mp same] at absent
      exact absent List.mem_cons_self
    have none : (digit::rest).takeWhile (fun char => char == '.') = [] := List.takeWhile_cons_of_neg other
    exact ⟨congrArg List.length none,Nat.succ_pos _⟩

/-- A leading dot is missing. -/
def DotMissing (listed right : String) : Prop :=
  dots listed < dots right ∧ (dots listed = listed.length ↔ dots right = right.length)

theorem DotMissing.below {listed right listedKey rightKey : String} (missing : DotMissing listed right)
    (same : dots listedKey = dots rightKey)
    (only : dots listedKey = listedKey.length ↔ dots rightKey = rightKey.length) :
    DotMissing (below (some listed) listedKey) (right ++ "." ++ rightKey) := by
  obtain ⟨fewer,both⟩ := missing
  have bound := dots_le right
  have keyBound := dots_le rightKey
  unfold DotMissing
  rw [dots_append,length_append_dot]
  by_cases none : listed = ""
  · subst none
    have onlyRight : dots right = right.length := both.mp rfl
    change dots listedKey < _ ∧ (dots listedKey = listedKey.length ↔ _)
    rw [if_pos onlyRight]
    omega
  · rw [below_named none,dots_append,length_append_dot]
    have listedBound := dots_le listed
    by_cases onlyRight : dots right = right.length
    · rw [if_pos onlyRight,if_pos (both.mpr onlyRight)]
      omega
    · have notOnly : ¬ dots listed = listed.length := fun all => onlyRight (both.mp all)
      rw [if_neg onlyRight,if_neg notOnly]
      omega

theorem dotMissing_diverges : Diverges DotMissing where
  differ := by
    rintro listed _ ⟨fewer,_⟩ rfl
    exact Nat.lt_irrefl _ fewer
  key := fun key missing => missing.below rfl Iff.rfl
  position := by
    intro listed right index position missing
    obtain ⟨listedNone,listedSome⟩ := dots_numeral index
    obtain ⟨rightNone,rightSome⟩ := dots_numeral position
    apply missing.below
    · rw [listedNone,rightNone]
    · omega

end names

section comparison

/-- A place with one more key or position. -/
theorem place_concat (path : List String) (key : String) :
    place (path ++ [key]) = some (match place path with
      | none => key
      | some before => before ++ "." ++ key) := by
  cases path with
  | nil => exact congrArg some (join_singleton '.' key)
  | cons first rest => exact congrArg some (join_concat (List.cons_ne_nil first rest) '.' key)

/-- Lists that are put together from shorter ones agree only part by part. -/
theorem append_eq_iff {items rest right rightRest : List Error} (front : items.length ≤ right.length)
    (back : rest.length ≤ rightRest.length) : items ++ rest = right ++ rightRest ↔ items = right ∧ rest = rightRest := by
  constructor
  · intro same
    have lengths := congrArg List.length same
    rw [List.length_append,List.length_append] at lengths
    exact List.append_inj same (by omega)
  · rintro ⟨rfl,rfl⟩
    rfl

theorem flattenErrors_short (path : List String) (detail : Detail) (attr : Option String) (index : Option Nat) :
    (flattenErrors detail attr index).length ≤ (errorsAt path detail).length := by
  rw [errorsAt_length]
  exact flattenErrors_length detail attr index

theorem flattenList_short (path : List String) (position : Nat) (items : List Detail) (attr : Option String) (index : Option Nat) :
    (flattenList items attr index).length ≤ (itemsAt path position items).length := by
  rw [itemsAt_length]
  exact flattenList_length items attr index

theorem flattenDict_short (path : List String) (entries : List (String × Detail)) (attr : Option String) :
    (flattenDict entries attr).length ≤ (entriesAt path entries).length := by
  rw [entriesAt_length]
  exact flattenDict_length entries attr

variable {relation : String → String → Prop}

mutual

/-- Below a place that is listed wrong for good, only what has no error is listed right. -/
theorem diverged (diverges : Diverges relation) : ∀ detail path listed right index, relation listed right →
    place path = some right → flattenErrors detail (some listed) index = errorsAt path detail → leaves detail = []
  | .leaf error, path, listed, right, _, related, placed, same => by
    unfold flattenErrors errorsAt at same
    split at same
    · cases same
    · rw [placed] at same
      cases same
      exact absurd rfl (diverges.differ related)
  | .list items, path, listed, right, index, related, placed, same =>
    diverged_items diverges items path 0 listed right index related placed same
  | .dict entries, path, listed, right, _, related, placed, same =>
    diverged_entries diverges entries path listed right related placed same

theorem diverged_items (diverges : Diverges relation) : ∀ items path position listed right index, relation listed right →
    place path = some right → flattenList items (some listed) index = itemsAt path position items → itemLeaves items = []
  | [], _, _, _, _, _, _, _, _ => rfl
  | first::rest, path, position, listed, right, index, related, placed, same => by
    unfold flattenList itemsAt at same
    unfold itemLeaves
    split at same
    · obtain ⟨here,later⟩ := (append_eq_iff (flattenErrors_short _ _ _ _) (flattenList_short _ _ _ _ _)).mp same
      rw [diverged diverges first path listed right index related placed here,
        diverged_items diverges rest path _ listed right index related placed later]
      rfl
    · obtain ⟨here,later⟩ := (append_eq_iff (flattenErrors_short _ _ _ _) (flattenList_short _ _ _ _ _)).mp same
      have further := place_concat path (Nat.repr position)
      rw [placed] at further
      rw [diverged diverges first _ _ _ _ (diverges.position _ position related) further here,
        diverged_items diverges rest path _ listed right _ related placed later]
      rfl

theorem diverged_entries (diverges : Diverges relation) : ∀ entries path listed right, relation listed right →
    place path = some right → flattenDict entries (some listed) = entriesAt path entries → entryLeaves entries = []
  | [], _, _, _, _, _, _ => rfl
  | (key,value)::rest, path, listed, right, related, placed, same => by
    unfold flattenDict entriesAt at same
    unfold entryLeaves
    obtain ⟨here,later⟩ := (append_eq_iff (flattenErrors_short _ _ _ _) (flattenDict_short _ _ _)).mp same
    have further := place_concat path key
    rw [placed] at further
    rw [diverged diverges value _ _ _ none (diverges.key key related) further here,
      diverged_entries diverges rest path listed right related placed later]
    rfl

end

end comparison

section condition

/-- Every error has a message. -/
def Worded (errors : List ErrorDetail) : Prop := ∀ error ∈ errors, error.message ≠ ""

theorem worded_append {errors rest : List ErrorDetail} : Worded (errors ++ rest) ↔ Worded errors ∧ Worded rest :=
  List.forall_mem_append

mutual

/-- The index counts right: in a list, just `start` errors stand before every list or dict that has errors.
In a list at a position of a list, `start` is one more than the position, elsewhere it is zero. -/
def Placed : Nat → Detail → Prop
  | _, .leaf _ => True
  | start, .list items => ItemsPlaced start 0 0 items
  | _, .dict entries => EntriesPlaced entries

def ItemsPlaced : Nat → Nat → Nat → List Detail → Prop
  | _, _, _, [] => True
  | start, before, position, first::rest =>
    if first.isErrorDetail then ItemsPlaced start (before + 1) (position + 1) rest
    else (leaves first ≠ [] → before = start ∧ Placed (position + 1) first) ∧ ItemsPlaced start before (position + 1) rest

def EntriesPlaced : List (String × Detail) → Prop
  | [] => True
  | (_,value)::rest => Placed 0 value ∧ EntriesPlaced rest

end

/-- The errors stand in the value itself, not below it. -/
def Shallow : Detail → Prop
  | .leaf _ => True
  | .list items => ∀ item ∈ items, item.isErrorDetail = false → leaves item = []
  | .dict entries => entryLeaves entries = []

/-- The same for a whole tree, whose top keys may be empty. -/
def TopPlaced : Detail → Prop
  | .dict entries => ∀ entry ∈ entries, if entry.1 = "" then Shallow entry.2 else Placed 0 entry.2
  | detail => Placed 0 detail

theorem join_named {path : List String} (some_key : path ≠ []) (named : path ≠ [""]) : join '.' path ≠ "" := by
  intro empty
  cases path with
  | nil => exact some_key rfl
  | cons first rest =>
    cases rest with
    | nil =>
      rw [join_singleton] at empty
      exact named (by rw [empty])
    | cons second others =>
      have chars := congrArg String.toList empty
      unfold join at chars
      simp [List.intercalate_cons_cons] at chars

theorem place_below {path : List String} (named : path ≠ [""]) (key : String) :
    some (below (place path) key) = place (path ++ [key]) := by
  rw [place_concat]
  cases path with
  | nil => rfl
  | cons first rest => exact congrArg some (below_named (join_named (List.cons_ne_nil _ _) named) key)

theorem otherNumber_start {path : List String} (named : path ≠ [""]) {index position : Nat} (differ : index ≠ position) :
    ∃ right, place (path ++ [Nat.repr position]) = some right ∧ OtherNumber (below (place path) (Nat.repr index)) right := by
  refine ⟨_,(place_below named _).symm,?_⟩
  cases path with
  | nil => exact ⟨"",index,position,"","",differ,.empty,.empty,by simp [place,below],by simp [place,below]⟩
  | cons first rest =>
    have some_text := join_named (List.cons_ne_nil first rest) named
    unfold place
    simp only [below_named some_text]
    exact ⟨join '.' (first::rest) ++ ".",index,position,"","",differ,.empty,.empty,by simp,by simp⟩

theorem leaf_listed_iff {item : Detail} (isError : item.isErrorDetail = true) (path : List String) (index : Option Nat) :
    flattenErrors item (place path) index = errorsAt path item ↔ Worded (leaves item) := by
  cases item with
  | leaf error =>
    unfold flattenErrors errorsAt leaves Worded
    by_cases empty : error.message = ""
    · simp [empty]
    · simp [empty]
  | list items => cases isError
  | dict entries => cases isError

/-- A list or dict at a position of a list. -/
theorem nested_listed_iff {item : Detail} {path : List String} {index start before position : Nat} (named : path ≠ [""])
    (counted : index + before = start + position)
    (right : flattenErrors item (place (path ++ [Nat.repr position])) (some position) =
        errorsAt (path ++ [Nat.repr position]) item ↔ Worded (leaves item) ∧ Placed (position + 1) item) :
    flattenErrors item (some (below (place path) (Nat.repr index))) (some index) = errorsAt (path ++ [Nat.repr position]) item ↔
      Worded (leaves item) ∧ (leaves item ≠ [] → before = start ∧ Placed (position + 1) item) := by
  by_cases none : leaves item = []
  · refine iff_of_true (nothing_listed none _ _ _) ⟨?_,fun some_leaf => absurd none some_leaf⟩
    rw [none]
    exact List.forall_mem_nil _
  · by_cases same : before = start
    · have here : index = position := by omega
      rw [here,place_below named,right]
      exact and_congr_right fun _ => ⟨fun placed _ => ⟨same,placed⟩,fun placed => (placed none).2⟩
    · have differ : index ≠ position := by omega
      obtain ⟨text,placed,other⟩ := otherNumber_start named differ
      apply iff_of_false
      · intro listed
        exact none (diverged otherNumber_diverges item _ _ _ _ other placed listed)
      · rintro ⟨_,counts⟩
        exact same (counts none).1

mutual

theorem listed_iff : ∀ detail path index, path ≠ [] → path ≠ [""] →
    (flattenErrors detail (place path) index = errorsAt path detail ↔
      Worded (leaves detail) ∧ Placed (nextIndex index) detail)
  | .leaf error, path, index, _, _ => by
    rw [leaf_listed_iff rfl]
    exact (and_iff_left trivial).symm
  | .list items, path, index, _, named => items_listed_iff items path 0 index (nextIndex index) 0 named rfl
  | .dict entries, path, _, some_key, named => entries_listed_iff entries path some_key named

theorem items_listed_iff : ∀ items path position index start before, path ≠ [""] →
    nextIndex index + before = start + position →
    (flattenList items (place path) index = itemsAt path position items ↔
      Worded (itemLeaves items) ∧ ItemsPlaced start before position items)
  | [], _, _, _, _, _, _, _ => iff_of_true rfl ⟨List.forall_mem_nil _,trivial⟩
  | first::rest, path, position, index, start, before, named, counted => by
    unfold flattenList itemsAt itemLeaves ItemsPlaced
    rw [worded_append]
    split
    · rename_i isError
      rw [append_eq_iff (flattenErrors_short _ _ _ _) (flattenList_short _ _ _ _ _),leaf_listed_iff isError,
        items_listed_iff rest path (position + 1) index start (before + 1) named (by omega),and_assoc]
    · have deeper : path ++ [Nat.repr position] ≠ [""] := by
        intro same
        have last := congrArg List.getLast? same
        simp only [List.getLast?_append,List.getLast?_singleton] at last
        exact Nat.repr_ne_empty (Option.some.inj last)
      have here := nested_listed_iff named counted (listed_iff first (path ++ [Nat.repr position]) (some position) (by simp) deeper)
      rw [append_eq_iff (flattenErrors_short _ _ _ _) (flattenList_short _ _ _ _ _),here,
        items_listed_iff rest path (position + 1) (some (nextIndex index)) start before named
          (by change nextIndex index + 1 + before = _; omega)]
      exact and_and_and_comm

theorem entries_listed_iff : ∀ entries path, path ≠ [] → path ≠ [""] →
    (flattenDict entries (place path) = entriesAt path entries ↔ Worded (entryLeaves entries) ∧ EntriesPlaced entries)
  | [], _, _, _ => iff_of_true rfl ⟨List.forall_mem_nil _,trivial⟩
  | (key,value)::rest, path, some_key, named => by
    unfold flattenDict entriesAt entryLeaves EntriesPlaced
    have deeper : path ++ [key] ≠ [""] := by
      intro same
      have lengths := congrArg List.length same
      rw [List.length_append] at lengths
      exact some_key (List.length_eq_zero_iff.mp (by simpa using lengths))
    have here := listed_iff value (path ++ [key]) none (by simp) deeper
    rw [append_eq_iff (flattenErrors_short _ _ _ _) (flattenDict_short _ _ _),place_below named,here,
      entries_listed_iff rest path some_key named,worded_append]
    exact and_and_and_comm

end

end condition

section empty_key

theorem place_emptyKey : place [""] = some "" := congrArg some (join_singleton '.' "")

/-- Below an empty top key, the dot behind it is missing. -/
theorem dotMissing_start {listedKey rightKey : String} (same : dots listedKey = dots rightKey)
    (only : dots listedKey = listedKey.length ↔ dots rightKey = rightKey.length) :
    place ([""] ++ [rightKey]) = some ("" ++ "." ++ rightKey) ∧ DotMissing (below (some "") listedKey) ("" ++ "." ++ rightKey) := by
  refine ⟨?_,?_⟩
  · rw [place_concat,place_emptyKey]
  · have leading : dots ("" ++ "." ++ rightKey) = 0 + 1 + dots rightKey := (dots_append "" rightKey).trans (if_pos rfl)
    have longer : ("" ++ "." ++ rightKey).length = 0 + 1 + rightKey.length := length_append_dot "" rightKey
    change dots listedKey < _ ∧ (dots listedKey = listedKey.length ↔ _)
    rw [leading,longer]
    omega

theorem emptyKey_items (items : List Detail) (position : Nat) (index : Option Nat) :
    flattenList items (some "") index = itemsAt [""] position items ↔
      Worded (itemLeaves items) ∧ ∀ item ∈ items, item.isErrorDetail = false → leaves item = [] := by
  induction items generalizing position index with
  | nil => exact iff_of_true rfl ⟨List.forall_mem_nil _,List.forall_mem_nil _⟩
  | cons first rest ih =>
    unfold flattenList itemsAt itemLeaves
    rw [worded_append,List.forall_mem_cons]
    split
    · rename_i isError
      have here := leaf_listed_iff isError [""] index
      rw [place_emptyKey] at here
      rw [append_eq_iff (flattenErrors_short _ _ _ _) (flattenList_short _ _ _ _ _),here,ih]
      simp [isError,and_assoc]
    · rename_i nested
      have here : flattenErrors first (some (below (some "") (nextIndex index).repr)) (some (nextIndex index)) =
          errorsAt ([""] ++ [Nat.repr position]) first ↔ leaves first = [] := by
        constructor
        · obtain ⟨none,some_digit⟩ := dots_numeral (nextIndex index)
          obtain ⟨rightNone,rightSome⟩ := dots_numeral position
          obtain ⟨placed,missing⟩ := dotMissing_start (none.trans rightNone.symm) (by omega)
          exact diverged dotMissing_diverges first _ _ _ _ missing placed
        · intro empty
          exact nothing_listed empty _ _ _
      rw [append_eq_iff (flattenErrors_short _ _ _ _) (flattenList_short _ _ _ _ _),here,ih]
      constructor
      · rintro ⟨none,worded,shallow⟩
        rw [none]
        exact ⟨⟨List.forall_mem_nil _,worded⟩,fun _ => rfl,shallow⟩
      · rintro ⟨⟨_,worded⟩,none,shallow⟩
        exact ⟨none (Bool.eq_false_iff.mpr nested),worded,shallow⟩

theorem emptyKey_entries (entries : List (String × Detail)) :
    flattenDict entries (some "") = entriesAt [""] entries ↔ entryLeaves entries = [] := by
  constructor
  · intro same
    induction entries with
    | nil => rfl
    | cons entry rest ih =>
      unfold flattenDict entriesAt at same
      obtain ⟨here,later⟩ := (append_eq_iff (flattenErrors_short _ _ _ _) (flattenDict_short _ _ _)).mp same
      obtain ⟨placed,missing⟩ := @dotMissing_start entry.1 entry.1 rfl Iff.rfl
      unfold entryLeaves
      rw [diverged dotMissing_diverges entry.2 _ _ _ _ missing placed here,ih later]
      rfl
  · intro none
    exact @nothing_listed (.dict entries) none [""] (some "") Option.none

theorem emptyKey_listed_iff (value : Detail) :
    flattenErrors value (some "") none = errorsAt [""] value ↔ Worded (leaves value) ∧ Shallow value := by
  cases value with
  | leaf error =>
    have here := @leaf_listed_iff (.leaf error) rfl [""] none
    rw [place_emptyKey] at here
    rw [here]
    exact (and_iff_left trivial).symm
  | list items => exact emptyKey_items items 0 none
  | dict entries =>
    refine (emptyKey_entries entries).trans ⟨fun none => ⟨?_,none⟩,fun shallow => shallow.2⟩
    unfold leaves
    rw [none]
    exact List.forall_mem_nil _

theorem top_entries_iff (entries : List (String × Detail)) : flattenDict entries none = entriesAt [] entries ↔
    Worded (entryLeaves entries) ∧ ∀ entry ∈ entries, if entry.1 = "" then Shallow entry.2 else Placed 0 entry.2 := by
  induction entries with
  | nil => exact iff_of_true rfl ⟨List.forall_mem_nil _,List.forall_mem_nil _⟩
  | cons entry rest ih =>
    have here : flattenErrors entry.2 (some entry.1) none = errorsAt [entry.1] entry.2 ↔
        Worded (leaves entry.2) ∧ if entry.1 = "" then Shallow entry.2 else Placed 0 entry.2 := by
      split
      · rename_i empty
        rw [empty]
        exact emptyKey_listed_iff entry.2
      · rename_i named
        have inside := listed_iff entry.2 [entry.1] none (List.cons_ne_nil _ _) (by simpa using named)
        have top : place [entry.1] = some entry.1 := congrArg some (join_singleton '.' entry.1)
        rwa [top] at inside
    unfold flattenDict entriesAt entryLeaves
    rw [append_eq_iff (flattenErrors_short _ _ _ _) (flattenDict_short _ _ _),ih,worded_append,List.forall_mem_cons]
    refine (and_congr here Iff.rfl).trans and_and_and_comm

end empty_key

/-- The errors are listed at their places exactly if there is one, all have messages, and the tree has no place
that the index or an empty top key gets wrong. -/
theorem lists_every_iff (detail : Detail) :
    ListsEvery detail ↔ leaves detail ≠ [] ∧ Worded (leaves detail) ∧ TopPlaced detail := by
  have listed : flattenErrors detail none none = errorsAt [] detail ↔ Worded (leaves detail) ∧ TopPlaced detail := by
    cases detail with
    | leaf error => exact (leaf_listed_iff rfl [] none).trans (and_iff_left trivial).symm
    | list items => exact items_listed_iff items [] 0 none 0 0 (by simp) rfl
    | dict entries => exact top_entries_iff entries
  have counted := errorsAt_length [] detail
  unfold ListsEvery
  rw [and_comm,← listed]
  refine and_congr_left fun same => ?_
  rw [same]
  exact not_congr (by rw [← List.length_eq_zero_iff,counted,List.length_eq_zero_iff])

/-- An exception without a text gives a response without errors. -/
theorem no_error_listed : ¬ ListsEvery (convertUnhandledExceptions "") := fun every => every.2 rfl

end FinmarsWorkflow.Errors
