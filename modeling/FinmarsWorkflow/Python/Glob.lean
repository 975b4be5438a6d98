import FinmarsWorkflow.Python.Text

/-! `fnmatch.fnmatch` on POSIX: shell patterns with stars, question marks and
sets of characters, read as CPython translates them. -/
namespace Python

/-- One piece of a pattern: any run of characters, or one character of a kind. -/
inductive Glob where
  | star
  | one (accepts : Char → Bool)

/-- The chunks between the hyphens of a set that make ranges; a hyphen before the offset is a character. -/
def rangeChunks : Nat → Nat → List Char → List (List Char)
  | 0,_,chars => [chars]
  | fuel+1,offset,chars => match (chars.drop offset).findIdx? (· == '-') with
    | some index => chars.take (offset+index)::rangeChunks fuel 2 (chars.drop (offset+index+1))
    | none => [chars]

/-- A hyphen at the end of a set is a character. -/
def closeChunks (chunks : List (List Char)) : List (List Char) :=
  if chunks.getLastD [] = [] then chunks.dropLast.dropLast ++ [chunks.dropLast.getLastD [] ++ ['-']] else chunks

/-- Ranges that are empty join the chunks on both sides of them. -/
def dropEmptyRanges : List (List Char) → List (List Char)
  | [] => []
  | chunk::rest => match dropEmptyRanges rest with
    | [] => [chunk]
    | next::others =>
      if (next.headD ' ') < (chunk.getLastD ' ') then (chunk.dropLast ++ next.tail)::others else chunk::next::others

/-- The characters of the chunks and of the ranges between them. -/
def inChunks (char : Char) : List (List Char) → Bool
  | [] => false
  | [chunk] => chunk.contains char
  | chunk::next::others => chunk.contains char || (chunk.getLastD ' ' ≤ char && char ≤ next.headD ' ') ||
      inChunks char (next::others)

/-- What stands between the brackets of a set, as the characters that it accepts. -/
def inSet (stuff : List Char) (char : Char) : Bool :=
  let chunks := if stuff.contains '-' then
      dropEmptyRanges (closeChunks (rangeChunks stuff.length (if stuff.head? = some '!' then 2 else 1) stuff))
    else [stuff]
  match chunks with
  | ('!'::first)::others => !inChunks char (first::others)
  | chunks => inChunks char chunks

/-- The length of what stands before the bracket that closes a set. -/
def setLength (chars : List Char) : Option Nat :=
  let first := if chars.head? = some '!' then 1 else 0
  let second := if chars[first]? = some ']' then first+1 else first
  ((chars.drop second).findIdx? (· == ']')).map (second + ·)

/-- The pieces of a pattern. A bracket that is never closed is a character. -/
def translate : Nat → List Char → List Glob
  | 0,_ => []
  | _,[] => []
  | fuel+1,'*'::rest => .star::translate fuel rest
  | fuel+1,'?'::rest => .one (fun _ => true)::translate fuel rest
  | fuel+1,'['::rest => match setLength rest with
    | some length => .one (inSet (rest.take length))::translate fuel (rest.drop (length+1))
    | none => .one (· == '[')::translate fuel rest
  | fuel+1,char::rest => .one (· == char)::translate fuel rest

def globs : List Glob → List Char → Bool
  | [],chars => chars.isEmpty
  | .star::rest,chars => chars.tails.any (globs rest)
  | .one accepts::rest,chars => match chars with
    | [] => false
    | char::chars => accepts char && globs rest chars

/-- `fnmatch.fnmatch(name, pattern)` -/
def fnmatch (name pattern : String) : Bool := globs (translate pattern.length pattern.toList) name.toList

/-- A character that stands for itself in a pattern. -/
def literal (char : Char) : Bool := char != '*' && char != '?' && char != '['

theorem translate_literal {chars : List Char} (plain : chars.all literal = true) :
    translate chars.length chars = chars.map (fun char => .one (· == char)) := by
  induction chars with
  | nil => rfl
  | cons char rest ih =>
    simp only [List.all_cons,Bool.and_eq_true] at plain
    simp only [literal,Bool.and_eq_true,bne_iff_ne] at plain
    obtain ⟨⟨⟨star,any⟩,bracket⟩,others⟩ := plain
    rw [List.length_cons,List.map_cons,← ih (by simpa [literal] using others)]
    rw [translate] <;> assumption

theorem globs_literal (pattern chars : List Char) :
    globs (pattern.map (fun char => .one (· == char))) chars = decide (chars = pattern) := by
  induction pattern generalizing chars with
  | nil => cases chars <;> simp [globs]
  | cons char rest ih => cases chars with
    | nil => simp [globs]
    | cons head tail =>
      simp only [List.map_cons,globs,ih,List.cons.injEq,Bool.decide_and]
      rfl

/-- A star before plain characters accepts the names that end with them. -/
theorem fnmatch_star {name suffix : String} (plain : suffix.toList.all literal = true) :
    fnmatch name ("*" ++ suffix) = decide (suffix.toList <:+ name.toList) := by
  have chars : ("*" ++ suffix).toList = '*'::suffix.toList := by simp
  have length : ("*" ++ suffix).length = suffix.toList.length + 1 := by
    rw [← String.length_toList,chars,List.length_cons]
  rw [fnmatch,chars,length,translate,translate_literal plain]
  simp only [globs]
  rw [Bool.eq_iff_iff,List.any_eq_true,decide_eq_true_iff]
  simp only [globs_literal,decide_eq_true_iff,List.mem_tails]
  constructor
  · intro found
    obtain ⟨tail,ends,rfl⟩ := found
    exact ends
  · intro ends
    exact ⟨suffix.toList,ends,rfl⟩

example : fnmatch "workflow.json" "*.json" = true := by decide

example : fnmatch "b7.py" "[a-c!][!0-5].p?" = true := by decide

end Python
