/-!
# Blank characters

Tokens, blank lines and padded settings are all delimited by one set of characters: the
ASCII separators together with the space characters of the wider repertoire.

Trimming removes blanks at both ends only, so a blank inside a text survives it.
-/

namespace LexicalLisp

/-- Characters that separate tokens and count as empty space. -/
def isBlank (c : Char) : Bool :=
  let n := c.toNat
  (0x09 ≤ n && n ≤ 0x0D) || (0x1C ≤ n && n ≤ 0x20) || n == 0x85 || n == 0xA0 || n == 0x1680 ||
    (0x2000 ≤ n && n ≤ 0x200A) || n == 0x2028 || n == 0x2029 || n == 0x202F || n == 0x205F ||
    n == 0x3000

/-- A text without any character other than blanks; the empty text is one. -/
def isBlankText (text : String) : Bool :=
  text.toList.all isBlank

/-- Drop the blanks at both ends. -/
def trimBlanks (text : String) : String :=
  String.ofList ((text.toList.dropWhile isBlank).reverse.dropWhile isBlank).reverse

/-- The new-line character is blank, so a line break never joins two tokens. -/
theorem isBlank_newline : isBlank '\n' = true := by decide

end LexicalLisp
