import DataBinding.Text.GraphemeExtend
import DataBinding.Text.Printable

/-!
Quoted text, as a programmer reads it: between double quotes, with every character that could be
misread written as an escape. A character that would merge with its neighbour, or that has no
picture, is written by its code point. So are the characters that are shown as nothing where a font
has no picture for them: most are format characters, but the fillers of Hangul syllables are letters.
-/
namespace DataBinding.Text

/-- The first and last code points of each run of ignorable characters. -/
def ignorableRanges : Array (Nat × Nat) := #[
  (0x00AD, 0x00AD), (0x034F, 0x034F), (0x061C, 0x061C), (0x115F, 0x1160), (0x17B4, 0x17B5),
  (0x180B, 0x180F), (0x200B, 0x200F), (0x202A, 0x202E), (0x2060, 0x206F), (0x3164, 0x3164),
  (0xFE00, 0xFE0F), (0xFEFF, 0xFEFF), (0xFFA0, 0xFFA0), (0xFFF0, 0xFFF8), (0x1BCA0, 0x1BCA3),
  (0x1D173, 0x1D17A), (0xE0000, 0xE0FFF)]

/-- Whether a character has the property `Default_Ignorable_Code_Point`. -/
def isIgnorable (c : Char) : Bool :=
  ignorableRanges.any fun range => range.1 ≤ c.toNat && c.toNat ≤ range.2

/-- The code point of a character between braces, in hexadecimal. -/
def codePointEscape (c : Char) : List Char :=
  ['\\', 'u', '\x7b'] ++ Nat.toDigits 16 c.toNat ++ ['\x7d']

/-- Whether a character is one of the halfwidth sound marks of Katakana. They extend the letter before
them, but they are letters that fill a cell of their own. -/
def isHalfwidthSoundMark (c : Char) : Bool := c == '\uFF9E' || c == '\uFF9F'

/-- Whether a character is drawn onto the one before it. -/
def merges (c : Char) : Bool := isGraphemeExtend c && !isHalfwidthSoundMark c

/-- Whether a character cannot be seen where it stands, or not by itself. -/
def isHidden (c : Char) : Bool := merges c || isIgnorable c || isUnprintable c

/-- One character of a quoted text. -/
def quoteChar (c : Char) : List Char :=
  if c = '"' then ['\\', '"']
  else if c = '\\' then ['\\', '\\']
  else if c = '\n' then ['\\', 'n']
  else if c = '\r' then ['\\', 'r']
  else if c = '\t' then ['\\', 't']
  else if c = '\x00' then ['\\', '0']
  else if 0x20 ≤ c.toNat && c.toNat < 0x7F then [c]
  else if isHidden c then codePointEscape c
  else [c]

/-- The text between quotes. -/
def quote (text : String) : String :=
  String.ofList ('"' :: text.toList.flatMap quoteChar ++ ['"'])

end DataBinding.Text
