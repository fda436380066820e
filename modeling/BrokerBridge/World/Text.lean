import Mathlib.Data.List.DropRight
import Mathlib.Data.String.Basic

/-!
# Texts

`str.strip`, `str.lower` and `str.upper`. What is made with them is compared with texts in ASCII:
so of the letters outside ASCII those are mapped that have ASCII letters in the other case, and
the rest are kept.
-/

namespace BrokerBridge.Text

/-- `str.isspace`, for one character. -/
def isSpace (c : Char) : Bool :=
  let n := c.toNat
  (9 ≤ n && n ≤ 13) || (28 ≤ n && n ≤ 32) || n == 0x85 || n == 0xA0 || n == 0x1680 ||
    (0x2000 ≤ n && n ≤ 0x200A) || n == 0x2028 || n == 0x2029 || n == 0x202F || n == 0x205F ||
    n == 0x3000

/-- `str.strip` -/
def strip (s : String) : String :=
  String.ofList ((s.toList.dropWhile isSpace).rdropWhile isSpace)

theorem dropWhile_rdropWhile {α : Type} (p : α → Bool) (l : List α) :
    ((l.dropWhile p).rdropWhile p).dropWhile p = (l.dropWhile p).rdropWhile p := by
  refine List.dropWhile_eq_self_iff.mpr fun hpos => ?_
  have hpre := List.rdropWhile_prefix p (l.dropWhile p)
  have hpos' : 0 < (l.dropWhile p).length := Nat.lt_of_lt_of_le hpos hpre.length_le
  rw [List.IsPrefix.getElem hpre hpos]
  exact List.dropWhile_get_zero_not p l hpos'

theorem strip_strip (s : String) : strip (strip s) = strip s := by
  unfold strip
  rw [String.toList_ofList, dropWhile_rdropWhile, List.rdropWhile_idempotent]

theorem strip_empty : strip "" = "" := rfl

/-- The dotted capital I and the Kelvin sign are the letters outside ASCII that have an ASCII
letter in lower case. -/
def lowerChar (c : Char) : List Char :=
  if c.toNat = 0x130 then ['i', Char.ofNat 0x307]
  else if c.toNat = 0x212A then ['k']
  else [c.toLower]

/-- `str.lower` -/
def lower (s : String) : String := String.ofList (s.toList.flatMap lowerChar)

/-- The letters outside ASCII that have ASCII letters in upper case: the sharp s, the dotless i,
the long s, the ligatures, and those that come with an accent or a modifier. -/
def wideUpper : List (Nat × List Char) :=
  [(0xDF, ['S', 'S']), (0x131, ['I']), (0x149, [Char.ofNat 0x2BC, 'N']), (0x17F, ['S']),
    (0x1F0, ['J', Char.ofNat 0x30C]), (0x1E96, ['H', Char.ofNat 0x331]),
    (0x1E97, ['T', Char.ofNat 0x308]), (0x1E98, ['W', Char.ofNat 0x30A]),
    (0x1E99, ['Y', Char.ofNat 0x30A]), (0x1E9A, ['A', Char.ofNat 0x2BE]),
    (0xFB00, ['F', 'F']), (0xFB01, ['F', 'I']), (0xFB02, ['F', 'L']),
    (0xFB03, ['F', 'F', 'I']), (0xFB04, ['F', 'F', 'L']), (0xFB05, ['S', 'T']),
    (0xFB06, ['S', 'T'])]

def upperChar (c : Char) : List Char := (wideUpper.lookup c.toNat).getD [c.toUpper]

/-- `str.upper` -/
def upper (s : String) : String := String.ofList (s.toList.flatMap upperChar)

-- Unification that does not succeed at once must not begin to evaluate texts.
attribute [irreducible] strip lower upper

end BrokerBridge.Text
