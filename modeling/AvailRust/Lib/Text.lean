/-
  Texts as the standard library takes them apart: white space, lines, numbers and case.

  Texts are lists of characters here. White space is that of Unicode; letters are put in lower case
  where they are ASCII letters.
-/
import AvailRust.Lib.Radix
import Mathlib.Data.List.DropRight

namespace Text

/-- `char::is_whitespace`. -/
def isWhitespace (c : Char) : Bool :=
  let n := c.toNat
  (9 ≤ n ∧ n ≤ 13) ∨ n = 32 ∨ n = 0x85 ∨ n = 0xA0 ∨ n = 0x1680 ∨ (0x2000 ≤ n ∧ n ≤ 0x200A) ∨
    n = 0x2028 ∨ n = 0x2029 ∨ n = 0x202F ∨ n = 0x205F ∨ n = 0x3000

/-- `trim_end_matches` of a set of characters. -/
def trimEndMatches (p : Char → Bool) (text : List Char) : List Char := text.rdropWhile p

/-- `str::trim`. -/
def trim (text : List Char) : List Char := trimEndMatches isWhitespace (text.dropWhile isWhitespace)

/-- A line without its `\r`. -/
def stripCr (line : List Char) : List Char :=
  if line.getLast? = some '\r' then line.dropLast else line

/-- `str::lines`, behind the characters `line` of an open line. -/
def linesFrom (line : List Char) : List Char → List (List Char)
  | [] => if line = [] then [] else [line]
  | c :: rest =>
    if c = '\n' then stripCr line :: linesFrom [] rest else linesFrom (line ++ [c]) rest

def lines (content : String) : List (List Char) := linesFrom [] content.toList

/-- `str::parse::<u32>`. -/
def parseU32 (text : String) : Except String Nat :=
  Fin.val <$> Radix.fromStrRadix (2 ^ 32) 10 text.toList

/-- `str::parse::<u64>`. -/
def parseU64 (text : String) : Except String Nat :=
  Fin.val <$> Radix.fromStrRadix (2 ^ 64) 10 text.toList

/-- `str::to_ascii_lowercase`. -/
def toAsciiLowercase (text : String) : List Char := text.toList.map Char.toLower

/-- The lower case of a character, where that is an ASCII letter: the Kelvin sign has one too. -/
def lower (c : Char) : Char := if c.toNat = 0x212A then 'k' else c.toLower

end Text
