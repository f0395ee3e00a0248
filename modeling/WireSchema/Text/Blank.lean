import WireSchema.Text.Split

/-!
# Blank characters

The characters that separate words are the 25 characters with the Unicode property White_Space;
core's `Char.isWhitespace` knows four of them. Trimming and cutting into words go by the same set.
-/

namespace WireSchema.Text

/-- Whether a character has the Unicode property White_Space. -/
def isBlank (c : Char) : Bool :=
  let n := c.toNat
  (9 ≤ n && n ≤ 13) || n == 0x20 || n == 0x85 || n == 0xa0 || n == 0x1680 ||
    (0x2000 ≤ n && n ≤ 0x200a) || n == 0x2028 || n == 0x2029 || n == 0x202f || n == 0x205f ||
    n == 0x3000

/-- The text without blanks at its start. -/
def trimStart (s : List Char) : List Char :=
  s.dropWhile isBlank

/-- The text without blanks at its end. -/
def trimEnd (s : List Char) : List Char :=
  (s.reverse.dropWhile isBlank).reverse

/-- The text without blanks at either end. -/
def trim (s : List Char) : List Char :=
  trimEnd (trimStart s)

/-- The words of a text: its longest pieces without a blank. -/
def words (s : List Char) : List (List Char) :=
  (splitAtSeparators isBlank s).filter (fun w => !w.isEmpty)

/-- The entries of a comma list, trimmed; empty entries are left out. -/
def listEntries (s : List Char) : List (List Char) :=
  ((splitAtSeparators (· == ',') s).map trim).filter (fun entry => !entry.isEmpty)

end WireSchema.Text
