import Mathlib.Data.Rat.Init
import FinmarsWorkflow.Python.Text

/-! Python integers from numbers and from texts: `int` and `str.isdigit`.
The tables are those of Unicode 15, which CPython 3.12 reads its digits by. -/
namespace Python

/-- The zeros of the decimal digits; the other nine follow each of them. -/
def zeros : List Nat :=
  [0x30,0x660,0x6F0,0x7C0,0x966,0x9E6,0xA66,0xAE6,0xB66,0xBE6,0xC66,0xCE6,0xD66,0xDE6,0xE50,0xED0,0xF20,0x1040,
    0x1090,0x17E0,0x1810,0x1946,0x19D0,0x1A80,0x1A90,0x1B50,0x1BB0,0x1C40,0x1C50,0xA620,0xA8D0,0xA900,0xA9D0,
    0xA9F0,0xAA50,0xABF0,0xFF10,0x104A0,0x10D30,0x11066,0x110F0,0x11136,0x111D0,0x112F0,0x11450,0x114D0,0x11650,
    0x116C0,0x11730,0x118E0,0x11950,0x11C50,0x11D50,0x11DA0,0x11F50,0x16A60,0x16AC0,0x16B50,0x1D7CE,0x1D7D8,
    0x1D7E2,0x1D7EC,0x1D7F6,0x1E140,0x1E2F0,0x1E4F0,0x1E950,0x1FBF0]

/-- The ranges of the digits that are not decimal: superscripts, circled digits and others. -/
def otherDigits : List (Nat × Nat) :=
  [(0xB2,0xB3),(0xB9,0xB9),(0x1369,0x1371),(0x19DA,0x19DA),(0x2070,0x2070),(0x2074,0x2079),(0x2080,0x2089),
    (0x2460,0x2468),(0x2474,0x247C),(0x2488,0x2490),(0x24EA,0x24EA),(0x24F5,0x24FD),(0x24FF,0x24FF),
    (0x2776,0x277E),(0x2780,0x2788),(0x278A,0x2792),(0x10A40,0x10A43),(0x10E60,0x10E68),(0x11052,0x1105A),
    (0x1F100,0x1F10A)]

/-- The value of a decimal digit. -/
def decimal (char : Char) : Option Nat :=
  (zeros.find? (fun first => first ≤ char.toNat && char.toNat < first + 10)).map (char.toNat - ·)

/-- `text.isdigit()` -/
def isDigit (text : String) : Bool :=
  text != "" && text.toList.all (fun char => (decimal char).isSome ||
    otherDigits.any (fun range => range.1 ≤ char.toNat && char.toNat ≤ range.2))

/-- The characters that `int` strips from both ends. -/
def strippable (char : Char) : Bool :=
  let code := char.toNat
  (9 ≤ code && code ≤ 13) || code == 0x20 || code == 0x85 || code == 0xA0 || code == 0x1680 ||
    (0x2000 ≤ code && code ≤ 0x200A) || code == 0x2028 || code == 0x2029 || code == 0x202F ||
    code == 0x205F || code == 0x3000

def strip (chars : List Char) : List Char :=
  ((chars.dropWhile strippable).reverse.dropWhile strippable).reverse

/-- The most digits that `int` converts. -/
def maxStrDigits : Nat := 4300

/-- An unsigned literal: groups of decimal digits with single underscores between them. -/
def magnitude (chars : List Char) : Option Nat := do
  let groups ← (chars.splitOn '_').mapM (fun group => group.mapM decimal)
  if groups.all (fun group => !group.isEmpty) && decide (groups.flatten.length ≤ maxStrDigits) then
    some (groups.flatten.foldl (fun value digit => 10 * value + digit) 0)
  else none

/-- `int(text)`; none is a `ValueError`. -/
def intOfText (text : String) : Option Int := match strip text.toList with
  | '+'::digits => (magnitude digits).map Int.ofNat
  | '-'::digits => (magnitude digits).map (fun value => -Int.ofNat value)
  | digits => (magnitude digits).map Int.ofNat

/-- `int(value)` of a finite number, which truncates towards zero. -/
def intOfNumber (value : Rat) : Int := if 0 ≤ value then value.floor else -(-value).floor

theorem intOfNumber_eq_iff {value : Rat} {whole : Int} (positive : 0 < whole) :
    intOfNumber value = whole ↔ (whole : Rat) ≤ value ∧ value < (whole + 1 : Int) := by
  unfold intOfNumber
  split
  · rw [← Rat.le_floor_iff,← Rat.floor_lt_iff]
    omega
  · rename_i negative
    have down : 0 ≤ (-value).floor := by
      rw [Rat.le_floor_iff]
      exact Rat.neg_le_neg (Rat.le_of_lt (Rat.not_le.mp negative))
    constructor
    · intro same
      omega
    · intro between
      have less : (0 : Rat) ≤ whole := Rat.intCast_nonneg.mpr positive.le
      exact absurd (Rat.le_trans less between.1) negative

example : intOfText " 02" = some 2 := by decide

example : intOfText "2_" = none := by decide

end Python
