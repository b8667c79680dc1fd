/-!
Texts: their white space, their length in bytes, and their escapes in markup. White space is the
Unicode property `White_Space`. Character data escapes the ampersand and both angle brackets; an
attribute value, which stands between double quotes, escapes the ampersand and the quote and keeps its
brackets.
-/
namespace DataBinding.Text

/-- Whether a character has the property `White_Space`. -/
def isBlank (c : Char) : Bool :=
  let n := c.toNat
  (9 ≤ n && n ≤ 13) || n == 0x20 || n == 0x85 || n == 0xA0 || n == 0x1680 ||
    (0x2000 ≤ n && n ≤ 0x200A) || n == 0x2028 || n == 0x2029 || n == 0x202F || n == 0x205F ||
    n == 0x3000

/-- The text without white space at its end. -/
def trimEnd (text : List Char) : List Char := (text.reverse.dropWhile isBlank).reverse

/-- The text without white space at both ends. -/
def trim (text : List Char) : List Char := trimEnd (text.dropWhile isBlank)

/-- The number of bytes a text takes in UTF-8. -/
def byteCount (text : List Char) : Nat := text.foldr (fun c bytes => c.utf8Size + bytes) 0

/-- One character of character data. -/
def escapeDataChar (c : Char) : List Char :=
  if c = '&' then "&amp;".toList
  else if c = '<' then "&lt;".toList
  else if c = '>' then "&gt;".toList
  else [c]

/-- One character of a quoted attribute value. -/
def escapeAttributeChar (c : Char) : List Char :=
  if c = '&' then "&amp;".toList
  else if c = '"' then "&quot;".toList
  else [c]

/-- Character data as it stands between tags. -/
def escapeData (text : String) : String := String.ofList (text.toList.flatMap escapeDataChar)

/-- An attribute value as it stands between its quotes. -/
def escapeAttribute (text : String) : String :=
  String.ofList (text.toList.flatMap escapeAttributeChar)

end DataBinding.Text
