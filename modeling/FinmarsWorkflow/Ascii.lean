import Mathlib.Data.List.Forall2

/-! Names in ASCII. Every other character is written as `U` and its code point in decimal,
with nothing behind it, so that digits which follow may be read as more of the code point. -/
namespace FinmarsWorkflow.Ascii

/-- What a Python string consists of, lone surrogates included. -/
abbrev CodePoint := Fin 0x110000

abbrev Text := List CodePoint

theorem toNat_lt (char : Char) : char.toNat < 0x110000 := by
  rcases char.valid with low | ⟨_,high⟩
  · exact Nat.lt_trans low (by decide)
  · exact high

def code (char : Char) : CodePoint := ⟨char.toNat,toNat_lt char⟩

def text (string : String) : Text := string.toList.map code

/-- `char.encode("ascii")` succeeds. -/
def isAscii (char : CodePoint) : Bool := decide (char.val < 128)

def isCapital (char : CodePoint) : Bool := decide (65 ≤ char.val) && decide (char.val ≤ 90)

/-- `text.replace(old, new)` of one character by another. -/
def replace (old new : CodePoint) (input : Text) : Text := input.map fun char => if char = old then new else char

/-- `str(ord(char))` -/
def decimal (char : CodePoint) : Text := (Nat.toDigits 10 char.val).map code

def toAsciiOrUnicode (char : CodePoint) : Text := if isAscii char then [char] else code 'U'::decimal char

section conversion
-- `str.lower`
variable (lower : Text → Text)

/-- The string in lower case, with underscores for spaces and dots. -/
def modifiedString (input : Text) : Text := replace (code '.') (code '_') (replace (code ' ') (code '_') (lower input))

def convertToAscii (input : Text) : Text := (modifiedString lower input).flatMap toAsciiOrUnicode

end conversion

/-- A character that is not ASCII, with the ASCII text up to the next one. -/
structure Escaped where
  char : CodePoint
  after : Text
deriving DecidableEq

/-- A text as the ASCII text that it begins with and the escaped characters. -/
def pieces : Text → Text × List Escaped
  | [] => ([],[])
  | char::rest => if isAscii char then (char::(pieces rest).1,(pieces rest).2) else ([],⟨char,(pieces rest).1⟩::(pieces rest).2)

/-- What is written between the mark of an escape and the next mark. -/
def Escaped.written (escaped : Escaped) : Text := decimal escaped.char ++ escaped.after

/-- The text after the first character begins with digits which continue its code point to that of the second. -/
def Continued (first second : Escaped) : Prop := ∃ digits : Text, digits ≠ [] ∧
  decimal second.char = decimal first.char ++ digits ∧ first.after = digits ++ second.after

/-- Two texts differ only in escapes that are continued, and in one at least. -/
def Blurred (first second : Text) : Prop :=
  (pieces first).1 = (pieces second).1 ∧
  List.Forall₂ (fun one two => one = two ∨ Continued one two ∨ Continued two one) (pieces first).2 (pieces second).2 ∧
  ∃ place ∈ (pieces first).2.zip (pieces second).2, Continued place.1 place.2 ∨ Continued place.2 place.1

section pieces
variable {input first second : Text}

theorem pieces_join (input : Text) :
    (pieces input).1 ++ (pieces input).2.flatMap (fun escaped => escaped.char::escaped.after) = input := by
  induction input with
  | nil => rfl
  | cons char rest ih =>
    unfold pieces
    split
    · rw [List.cons_append,ih]
    · rw [List.flatMap_cons,List.nil_append,List.cons_append,ih]

theorem pieces_injective (same : pieces first = pieces second) : first = second := by
  rw [← pieces_join first,same,pieces_join]

theorem intercalate_append (mark : CodePoint) (front back : Text) (others : List Text) :
    [mark].intercalate ((front ++ back)::others) = front ++ [mark].intercalate (back::others) := by
  induction front with
  | nil => rfl
  | cons char rest ih => rw [List.cons_append,List.intercalate_cons_cons_left,ih,List.cons_append]

/-- The escapes are told apart by their marks. -/
theorem flatMap_pieces (input : Text) : input.flatMap toAsciiOrUnicode =
    [code 'U'].intercalate ((pieces input).1::(pieces input).2.map Escaped.written) := by
  induction input with
  | nil => rfl
  | cons char rest ih =>
    rw [List.flatMap_cons,ih,toAsciiOrUnicode,pieces]
    split
    · rw [List.intercalate_cons_cons_left,List.singleton_append]
    · rw [List.map_cons,List.intercalate_cons_cons,Escaped.written,intercalate_append]
      rfl

theorem code_injective : Function.Injective code := fun _ _ same => Char.toNat_inj.mp (Fin.mk.inj same)

theorem decimal_injective : Function.Injective decimal := by
  intro first second same
  have digits := code_injective.list_map same
  have values := congrArg (fun figures => Nat.ofDigitChars 10 figures 0) digits
  simp only [Nat.ofDigitChars_ten_toDigits] at values
  exact Fin.ext values

theorem decimal_digit {char digit : CodePoint} (member : digit ∈ decimal char) : 48 ≤ digit.val ∧ digit.val ≤ 57 := by
  obtain ⟨figure,inside,rfl⟩ := List.mem_map.mp member
  exact Char.isDigit_iff_toNat.mp (Nat.isDigit_of_mem_toDigits (by decide) (by decide) inside)

/-- The text has no capital letters of ASCII. -/
def Lowered (input : Text) : Prop := ∀ char ∈ input, isCapital char = false

theorem pieces_mem {char : CodePoint} : (char ∈ (pieces input).1 → char ∈ input) ∧
    ∀ escaped ∈ (pieces input).2, char ∈ escaped.after → char ∈ input := by
  have joined := pieces_join input
  constructor
  · intro member
    rw [← joined]
    exact List.mem_append_left _ member
  · intro escaped there member
    rw [← joined]
    exact List.mem_append_right _ (List.mem_flatMap.mpr ⟨escaped,there,List.mem_cons_of_mem _ member⟩)

/-- The mark stands only where an escape begins. -/
theorem mark_not_mem (lowered : Lowered input) :
    ∀ part ∈ (pieces input).1::(pieces input).2.map Escaped.written, code 'U' ∉ part := by
  have absent : code 'U' ∉ input := fun member => Bool.noConfusion (lowered _ member)
  intro part member mark
  rcases List.mem_cons.mp member with rfl | escape
  · exact absent (pieces_mem.1 mark)
  · obtain ⟨escaped,there,rfl⟩ := List.mem_map.mp escape
    rcases List.mem_append.mp mark with digit | after
    · exact absurd (decimal_digit digit).2 (by decide)
    · exact absent (pieces_mem.2 escaped there after)

theorem flatMap_eq_iff (one : Lowered first) (two : Lowered second) :
    first.flatMap toAsciiOrUnicode = second.flatMap toAsciiOrUnicode ↔ (pieces first).1 = (pieces second).1 ∧
      (pieces first).2.map Escaped.written = (pieces second).2.map Escaped.written := by
  rw [flatMap_pieces,flatMap_pieces,← List.cons.injEq]
  refine ⟨fun same => ?_,congrArg _⟩
  have parts := congrArg (List.splitOn (code 'U')) same
  rwa [List.splitOn_intercalate _ (mark_not_mem one) (List.cons_ne_nil _ _),
    List.splitOn_intercalate _ (mark_not_mem two) (List.cons_ne_nil _ _)] at parts

theorem Continued.irrefl (escaped : Escaped) : ¬Continued escaped escaped := by
  rintro ⟨digits,some_digit,same,_⟩
  exact some_digit (List.append_right_eq_self.mp same.symm)

theorem Continued.written {one two : Escaped} (continued : Continued one two) : one.written = two.written := by
  obtain ⟨digits,_,longer,behind⟩ := continued
  rw [Escaped.written,Escaped.written,longer,behind,List.append_assoc]

/-- Where an escape ends is not written. -/
theorem written_eq_iff (one two : Escaped) :
    one.written = two.written ↔ one = two ∨ Continued one two ∨ Continued two one := by
  constructor
  · intro same
    have ends : ∀ {one two : Escaped} {digits : Text}, decimal two.char = decimal one.char ++ digits →
        one.after = digits ++ two.after → one = two ∨ Continued one two := by
      intro one two digits longer behind
      by_cases none_left : digits = []
      · subst none_left
        rw [List.append_nil] at longer
        obtain ⟨char,after⟩ := one
        obtain ⟨other,rest⟩ := two
        exact .inl (congrArg₂ Escaped.mk (decimal_injective longer.symm) behind)
      · exact .inr ⟨digits,none_left,longer,behind⟩
    rcases List.append_eq_append_iff.mp same with ⟨digits,longer,behind⟩ | ⟨digits,longer,behind⟩
    · exact (ends longer behind).imp_right .inl
    · exact (ends longer behind).imp Eq.symm .inr
  · rintro (rfl | continued | continued)
    · rfl
    · exact continued.written
    · exact continued.written.symm

end pieces

/-- Which texts are written alike. -/
theorem flatMap_eq_iff_alike {first second : Text} (one : Lowered first) (two : Lowered second) :
    first.flatMap toAsciiOrUnicode = second.flatMap toAsciiOrUnicode ↔ (pieces first).1 = (pieces second).1 ∧
      List.Forall₂ (fun one two => one = two ∨ Continued one two ∨ Continued two one) (pieces first).2 (pieces second).2 := by
  rw [flatMap_eq_iff one two]
  refine and_congr_right fun _ => ?_
  rw [← List.forall₂_eq_eq_eq,List.forall₂_map_left_iff,List.forall₂_map_right_iff]
  simp only [written_eq_iff]

theorem not_blurred_iff {first second : Text} (one : Lowered first) (two : Lowered second) :
    (first.flatMap toAsciiOrUnicode = second.flatMap toAsciiOrUnicode → first = second) ↔ ¬Blurred first second := by
  rw [flatMap_eq_iff_alike one two]
  constructor
  · rintro apart ⟨front,alike,place,member,continued⟩
    have same := apart ⟨front,alike⟩
    subst same
    have equal : place.1 = place.2 := (List.forall₂_iff_zip.mp (List.forall₂_same.mpr fun _ _ => rfl)).2 member
    rw [equal,or_self] at continued
    exact Continued.irrefl _ continued
  · intro clear ⟨front,alike⟩
    obtain ⟨length,places⟩ := List.forall₂_iff_zip.mp alike
    refine pieces_injective (Prod.ext front ?_)
    rw [← List.forall₂_eq_eq_eq,List.forall₂_iff_zip]
    refine ⟨length,fun {one two} member => (places member).resolve_right fun continued => ?_⟩
    exact clear ⟨front,alike,(one,two),member,continued⟩

section conversion
variable {lower : Text → Text}

theorem isCapital_replace {old new : CodePoint} (small : isCapital new = false) {input : Text} (lowered : Lowered input) :
    Lowered (replace old new input) := by
  intro char member
  obtain ⟨source,there,rfl⟩ := List.mem_map.mp member
  split
  · exact small
  · exact lowered source there

theorem modifiedString_lowered (lowered : ∀ input, Lowered (lower input)) (input : Text) :
    Lowered (modifiedString lower input) :=
  isCapital_replace (by decide) (isCapital_replace (by decide) (lowered input))

/-- For all strings, the result of a name tells it apart from another one's, up to case, spaces and dots,
unless digits behind an escape make up for a shorter code point. -/
theorem convertToAscii_apart_iff (lowered : ∀ input, Lowered (lower input)) (s t : Text) :
    (convertToAscii lower s = convertToAscii lower t → modifiedString lower s = modifiedString lower t) ↔
      ¬Blurred (modifiedString lower s) (modifiedString lower t) :=
  not_blurred_iff (modifiedString_lowered lowered s) (modifiedString_lowered lowered t)

/-- The result can be encoded in ASCII. -/
theorem convertToAscii_ascii (input : Text) : ∀ char ∈ convertToAscii lower input, isAscii char = true := by
  intro char member
  obtain ⟨source,_,written⟩ := List.mem_flatMap.mp member
  unfold toAsciiOrUnicode at written
  split at written
  next ascii => rwa [List.mem_singleton.mp written]
  · rcases List.mem_cons.mp written with rfl | digit
    · decide
    · exact decide_eq_true (Nat.lt_of_le_of_lt (decimal_digit digit).2 (by decide))

/-- No character outside ASCII has a digit right behind it. -/
def Spaced (input : Text) : Prop := ∀ escaped ∈ (pieces input).2, ∀ char ∈ escaped.after.head?, char.val < 48 ∨ 57 < char.val

theorem Continued.digit {one two : Escaped} (continued : Continued one two) :
    ∃ char ∈ one.after.head?, 48 ≤ char.val ∧ char.val ≤ 57 := by
  obtain ⟨digits,some_digit,longer,behind⟩ := continued
  obtain ⟨char,rest,rfl⟩ := List.exists_cons_of_ne_nil some_digit
  have digit : char ∈ decimal two.char := by
    rw [longer]
    exact List.mem_append_right _ List.mem_cons_self
  rw [behind]
  exact ⟨char,rfl,decimal_digit digit⟩

theorem spaced_not_blurred {first second : Text} (one : Spaced first) (two : Spaced second) : ¬Blurred first second := by
  rintro ⟨_,_,place,member,continued | continued⟩
  · obtain ⟨char,head,low,high⟩ := continued.digit
    have apart := one _ (List.of_mem_zip member).1 char head
    omega
  · obtain ⟨char,head,low,high⟩ := continued.digit
    have apart := two _ (List.of_mem_zip member).2 char head
    omega

/-- Names without digits behind their other characters are kept apart. -/
theorem convertToAscii_spaced (lowered : ∀ input, Lowered (lower input)) {s t : Text}
    (one : Spaced (modifiedString lower s)) (two : Spaced (modifiedString lower t))
    (same : convertToAscii lower s = convertToAscii lower t) : modifiedString lower s = modifiedString lower t :=
  (not_blurred_iff (modifiedString_lowered lowered s) (modifiedString_lowered lowered t)).mpr
    (spaced_not_blurred one two) same

end conversion

/-- `str.lower` of strings whose only capitals are those of ASCII. -/
def lowerAscii (input : Text) : Text := input.map fun char => if isCapital char then char + 32 else char

theorem lowerAscii_lowered (input : Text) : Lowered (lowerAscii input) := by
  intro char member
  obtain ⟨source,_,rfl⟩ := List.mem_map.mp member
  split
  next capital =>
    obtain ⟨low,high⟩ := Bool.and_eq_true_iff.mp capital
    have low : 65 ≤ source.val := of_decide_eq_true low
    have high : source.val ≤ 90 := of_decide_eq_true high
    have small : (source + 32).val = source.val + 32 := by
      rw [Fin.val_add]
      exact Nat.mod_eq_of_lt (Nat.lt_of_le_of_lt (Nat.add_le_add_right high 32) (by decide))
    rw [isCapital,small]
    simp
    omega
  next small => exact Bool.eq_false_iff.mpr small

theorem convertToAscii_apart_iff_accents :
    (convertToAscii lowerAscii (text "Jürgen.Smith") = convertToAscii lowerAscii (text "jurgen smith") →
      modifiedString lowerAscii (text "Jürgen.Smith") = modifiedString lowerAscii (text "jurgen smith")) ↔
    ¬Blurred (modifiedString lowerAscii (text "Jürgen.Smith")) (modifiedString lowerAscii (text "jurgen smith")) :=
  convertToAscii_apart_iff lowerAscii_lowered _ _

example : convertToAscii lowerAscii (text "Jürgen.Smith") = text "jU252rgen_smith" := by decide

/-- An accented letter before a digit, and the letter whose code point has that digit too. -/
theorem names_collide : ¬(convertToAscii lowerAscii [0xE9,0x31] = convertToAscii lowerAscii [0x91B] →
    modifiedString lowerAscii [0xE9,0x31] = modifiedString lowerAscii [0x91B]) := by decide

end FinmarsWorkflow.Ascii
