import Mathlib.Data.List.Infix
import Mathlib.Data.String.Basic

/-! Python strings: membership, prefixes, splitting at a character and joining. -/
namespace Python

/-- `part in text` -/
def contains (part text : String) : Bool := decide (part.toList <:+: text.toList)

/-- `text.startswith(part)` -/
def startsWith (part text : String) : Bool := decide (part.toList <+: text.toList)

/-- `text.split(separator)` at one character. -/
def split (separator : Char) (text : String) : List String :=
  (text.toList.splitOn separator).map String.ofList

/-- `separator.join(parts)` with one character. -/
def join (separator : Char) (parts : List String) : String :=
  String.ofList ([separator].intercalate (parts.map String.toList))

section repr

/-- One character in `repr`; beyond Latin-1 all are taken to be printable. -/
def escape (quote char : Char) : List Char :=
  let backslash := Char.ofNat 0x5C
  if char = quote ∨ char = backslash then [backslash,char]
  else if char = '\t' then [backslash,'t']
  else if char = '\n' then [backslash,'n']
  else if char = '\r' then [backslash,'r']
  else if char.toNat < 0x20 ∨ (0x7F ≤ char.toNat ∧ char.toNat ≤ 0xA0) ∨ char.toNat = 0xAD then
    [backslash,'x',(char.toNat / 16).digitChar,(char.toNat % 16).digitChar]
  else [char]

/-- `repr(text)`, in apostrophes unless these and no quotes occur in the text. -/
def repr (text : String) : String :=
  let apostrophe := Char.ofNat 0x27
  let quotes := Char.ofNat 0x22
  let quote := if apostrophe ∈ text.toList ∧ quotes ∉ text.toList then quotes else apostrophe
  String.ofList (quote::(text.toList.flatMap (escape quote) ++ [quote]))

example : repr "a" = "'a'" := by decide

end repr

/-- The character does not occur in the text. -/
def Without (separator : Char) (text : String) : Prop := separator ∉ text.toList

instance (separator : Char) (text : String) : Decidable (Without separator text) :=
  inferInstanceAs (Decidable (_ ∉ _))

variable {separator : Char} {front back first second : String}

theorem startsWith_iff {part text : String} : startsWith part text = true ↔ ∃ rest, text = part ++ rest := by
  simp only [startsWith,decide_eq_true_eq]
  constructor
  · rintro ⟨rest,same⟩
    exact ⟨String.ofList rest,String.toList_inj.mp (by simpa using same.symm)⟩
  · rintro ⟨rest,rfl⟩
    exact ⟨rest.toList,by simp⟩

/-- The first part ends at the first separator. -/
theorem split_append (absent : Without separator front) :
    split separator (front ++ String.singleton separator ++ back) = front::split separator back := by
  have chars : (front ++ String.singleton separator ++ back).toList = front.toList ++ separator::back.toList := by simp
  rw [split,chars,List.splitOn_append_cons_self_of_not_mem absent,List.map_cons,String.ofList_toList]
  rfl

/-- A separator parts what stands before it from what stands after it. -/
theorem split_separator (separator : Char) (front back : String) :
    split separator (front ++ String.singleton separator ++ back) = split separator front ++ split separator back := by
  have chars : (front ++ String.singleton separator ++ back).toList = front.toList ++ separator::back.toList := by simp
  rw [split,chars,List.splitOn_append_cons_self,List.map_append]
  rfl

theorem split_ne_nil (separator : Char) (text : String) : split separator text ≠ [] := by
  simp [split,List.splitOn_ne_nil]

theorem not_mem_splitOn (separator : Char) (chars : List Char) : ∀ part ∈ chars.splitOn separator, separator ∉ part := by
  induction chars with
  | nil => simp
  | cons head rest ih =>
    rw [List.splitOn_cons_eq_if_modifyHead]
    split
    · exact List.forall_mem_cons.mpr ⟨List.not_mem_nil,ih⟩
    next differs =>
      cases parts : rest.splitOn separator with
      | nil => exact absurd parts (List.splitOn_ne_nil _ _)
      | cons first others =>
        rw [parts] at ih
        obtain ⟨here,later⟩ := List.forall_mem_cons.mp ih
        refine List.forall_mem_cons.mpr ⟨fun member => ?_,later⟩
        rcases List.mem_cons.mp member with rfl | inside
        · simp at differs
        · exact here inside

theorem split_without (separator : Char) (text : String) : ∀ part ∈ split separator text, Without separator part := by
  intro part member
  obtain ⟨chars,inside,rfl⟩ := List.mem_map.mp member
  rw [Without,String.toList_ofList]
  exact not_mem_splitOn separator _ chars inside

theorem split_join {parts : List String} (some_part : parts ≠ []) (whole : ∀ part ∈ parts, Without separator part) :
    split separator (join separator parts) = parts := by
  rw [split,join,String.toList_ofList,List.splitOn_intercalate]
  · simp [Function.comp_def]
  · intro chars member
    obtain ⟨part,inside,rfl⟩ := List.mem_map.mp member
    exact whole part inside
  · simpa using some_part

theorem join_split (separator : Char) (text : String) : join separator (split separator text) = text := by
  have chars : (split separator text).map String.toList = text.toList.splitOn separator := by
    simp [split,Function.comp_def]
  rw [join,chars,List.intercalate_splitOn,String.ofList_toList]

theorem join_singleton (separator : Char) (part : String) : join separator [part] = part := by
  rw [join,List.map_singleton,List.intercalate_singleton,String.ofList_toList]

/-- One more part at the end is put behind a separator. -/
theorem join_concat {parts : List String} (some_part : parts ≠ []) (separator : Char) (part : String) :
    join separator (parts ++ [part]) = join separator parts ++ String.singleton separator ++ part := by
  apply String.toList_inj.mp
  unfold join
  rw [List.map_append,String.toList_ofList,String.toList_append,String.toList_append,String.toList_ofList]
  induction parts with
  | nil => exact absurd rfl some_part
  | cons first rest ih =>
    cases rest with
    | nil => simp
    | cons second others =>
      have tail := ih (List.cons_ne_nil _ _)
      simp only [List.map_cons,List.cons_append,List.intercalate_cons_cons] at tail ⊢
      rw [tail]
      simp only [List.append_assoc]

theorem length_split (separator : Char) (text : String) :
    (split separator text).length = text.toList.count separator + 1 := by
  rw [split,List.length_map]
  induction text.toList with
  | nil => rfl
  | cons head rest ih =>
    rw [List.splitOn_cons_eq_if_modifyHead]
    split
    next same =>
      rw [List.length_cons,ih,beq_iff_eq.mp same,List.count_cons_self]
    next differs =>
      rw [List.length_modifyHead,ih,List.count_cons,if_neg differs]

/-- What is put before a text goes to its first part. -/
theorem split_extend (absent : Without separator front) (text : String) :
    ∃ first rest, split separator text = first::rest ∧ split separator (front ++ text) = (front ++ first)::rest := by
  cases parts : split separator text with
  | nil => exact absurd parts (split_ne_nil _ _)
  | cons first rest =>
    refine ⟨first,rest,rfl,?_⟩
    have whole := split_without separator text
    rw [parts] at whole
    obtain ⟨here,later⟩ := List.forall_mem_cons.mp whole
    have joined : front ++ text = join separator ((front ++ first)::rest) := by
      rw [← join_split separator text,parts]
      exact String.toList_inj.mp (by cases rest <;> simp [join])
    rw [joined,split_join (List.cons_ne_nil _ _)]
    refine List.forall_mem_cons.mpr ⟨fun member => ?_,later⟩
    rw [String.toList_append] at member
    exact (List.mem_append.mp member).elim absent here

/-- What stands before the first separator is determined by the whole text. -/
theorem append_separator_inj (left : Without separator front) (right : Without separator first)
    (same : front ++ String.singleton separator ++ back = first ++ String.singleton separator ++ second) :
    front = first ∧ back = second := by
  have parts := congrArg (split separator) same
  rw [split_append left,split_append right] at parts
  obtain ⟨head,tail⟩ := List.cons.inj parts
  refine ⟨head,?_⟩
  have joined := congrArg (join separator) tail
  rwa [join_split,join_split] at joined

end Python
