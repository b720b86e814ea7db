/-!
# Blanks

Two notions of blank are in use. Inside a command line only the space and the tab separate words. Where whole lines or fields are trimmed, every character with the Unicode property `White_Space` counts: twenty-five characters, listed here.
-/

namespace TwinShell.Text

/-- The blanks that separate the words of a command line. -/
def isSpaceOrTab (c : Char) : Bool := c == ' ' || c == '\t'

/-- A character with the Unicode property `White_Space`. -/
def isBlank (c : Char) : Bool :=
  let n := c.toNat
  (9 ≤ n && n ≤ 13) || n == 0x20 || n == 0x85 || n == 0xA0 || n == 0x1680 ||
    (0x2000 ≤ n && n ≤ 0x200A) || n == 0x2028 || n == 0x2029 || n == 0x202F || n == 0x205F ||
    n == 0x3000

end TwinShell.Text
