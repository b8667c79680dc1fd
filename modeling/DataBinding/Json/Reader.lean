import DataBinding.Json
import DataBinding.Text

/-!
Reading documents. Every reader takes the text that is still unread and returns its result with the
rest; it fails as truncated where the text ends too early and as malformed at the first character
that no document can have there. A document may nest at most 127 levels deep.
-/
namespace DataBinding.Json

/-- White space between the parts of a document. -/
def isLayout (c : Char) : Bool := c == ' ' || c == '\n' || c == '\t' || c == '\r'

/-- The text from its next part on. -/
def skipLayout (text : List Char) : List Char := text.dropWhile isLayout

/-- The value of a hexadecimal digit of either case. -/
def hexDigit? (c : Char) : Option Nat :=
  if '0' ≤ c ∧ c ≤ '9' then some (c.toNat - 48)
  else if 'a' ≤ c ∧ c ≤ 'f' then some (c.toNat - 87)
  else if 'A' ≤ c ∧ c ≤ 'F' then some (c.toNat - 55)
  else none

/-- The sixteen-bit unit written by four hexadecimal digits. -/
def unit? (a b c d : Char) : Option Nat := do
  return (((← hexDigit? a) * 16 + (← hexDigit? b)) * 16 + (← hexDigit? c)) * 16 + (← hexDigit? d)

/-- The character that a one-letter escape stands for. -/
def escaped? (c : Char) : Option Char :=
  if c = '"' then some '"'
  else if c = '\\' then some '\\'
  else if c = '/' then some '/'
  else if c = 'b' then some '\x08'
  else if c = 'f' then some '\x0c'
  else if c = 'n' then some '\n'
  else if c = 'r' then some '\r'
  else if c = 't' then some '\t'
  else none

/-- Whether a unit is the first half of a character beyond the sixteen-bit plane. -/
def isLeading (unit : Nat) : Bool := 0xD800 ≤ unit && unit < 0xDC00

/-- Whether a unit is the second half of a character beyond the sixteen-bit plane. -/
def isTrailing (unit : Nat) : Bool := 0xDC00 ≤ unit && unit < 0xE000

/-- The character written by its two halves. -/
def joinUnits (leading trailing : Nat) : Char :=
  Char.ofNat ((leading - 0xD800) * 0x400 + (trailing - 0xDC00) + 0x10000)

/-- Whether fewer than four bytes are left, so that four hexadecimal digits cannot be read. -/
def lacksUnit (text : List Char) : Bool := Text.byteCount (text.take 4) < 4

/-- A string after its opening quote. -/
def readCharacters : Reader (List Char)
  | [] => .error .truncated
  | '"' :: rest => .ok ([], rest)
  | '\\' :: [] => .error .truncated
  | '\\' :: 'u' :: text =>
    if lacksUnit text then .error .truncated
    else match text with
      | a :: b :: c :: d :: rest =>
        match unit? a b c d with
        | none => .error .malformed
        | some unit =>
          if isTrailing unit then .error .malformed
          else if isLeading unit then
            match rest with
            | [] => .error .truncated
            | '\\' :: [] => .error .truncated
            | '\\' :: 'u' :: text =>
              if lacksUnit text then .error .truncated
              else match text with
                | a :: b :: c :: d :: rest =>
                  match unit? a b c d with
                  | none => .error .malformed
                  | some second =>
                    if isTrailing second then
                      (readCharacters rest).map fun r => (joinUnits unit second :: r.1, r.2)
                    else .error .malformed
                | _ => .error .malformed
            | _ => .error .malformed
          else (readCharacters rest).map fun r => (Char.ofNat unit :: r.1, r.2)
      | _ => .error .malformed
  | '\\' :: c :: rest =>
    match escaped? c with
    | none => .error .malformed
    | some e => (readCharacters rest).map fun r => (e :: r.1, r.2)
  | c :: rest =>
    if c.toNat < 0x20 then .error .malformed
    else (readCharacters rest).map fun r => (c :: r.1, r.2)

/-- A string after its opening quote. -/
def readString : Reader String := fun text =>
  (readCharacters text).map fun r => (String.ofList r.1, r.2)

/-- The given characters, one after the other. -/
def readWord : List Char → List Char → Except Fault (List Char)
  | [], rest => .ok rest
  | _ :: _, [] => .error .truncated
  | w :: word, c :: rest => if c = w then readWord word rest else .error .malformed

/-- A key. -/
def readKey : Reader String := fun text =>
  match skipLayout text with
  | '"' :: rest => readString rest
  | other => .error (unexpected other)

/-- The colon between a key and its value. -/
def readColon (text : List Char) : Except Fault (List Char) :=
  match skipLayout text with
  | ':' :: rest => .ok rest
  | other => .error (unexpected other)

mutual

/-- A document that nests at most `depth` levels. The first argument bounds the parts that are read
one within or after the other; `partBound` of the text is always enough. -/
def readValue : Nat → Nat → Reader Json
  | 0, _, _ => .error .malformed
  | parts + 1, depth, text =>
    match skipLayout text with
    | 'n' :: rest => (readWord ['u', 'l', 'l'] rest).map fun rest => (.null, rest)
    | 't' :: rest => (readWord ['r', 'u', 'e'] rest).map fun rest => (.bool true, rest)
    | 'f' :: rest => (readWord ['a', 'l', 's', 'e'] rest).map fun rest => (.bool false, rest)
    | '"' :: rest => (readString rest).map fun r => (.string r.1, r.2)
    | '[' :: rest =>
      if depth = 0 then .error .malformed
      else match skipLayout rest with
        | ']' :: rest => .ok (.array [], rest)
        | _ => do
          let (item, rest) ← readValue parts (depth - 1) rest
          let (items, rest) ← readItems parts (depth - 1) rest
          return (.array (item :: items), rest)
    | '\x7b' :: rest =>
      if depth = 0 then .error .malformed
      else match skipLayout rest with
        | '\x7d' :: rest => .ok (.object [], rest)
        | _ => do
          let (member, rest) ← readMember parts (depth - 1) rest
          let (members, rest) ← readMembers parts (depth - 1) rest
          return (.object (member :: members), rest)
    | c :: rest =>
      if c = '-' ∨ (digit? c).isSome then
        (readNumeral (c :: rest)).map fun r => (.number r.1, r.2)
      else .error .malformed
    | [] => .error .truncated

/-- The items after the first, up to the closing bracket. -/
def readItems : Nat → Nat → Reader (List Json)
  | 0, _, _ => .error .malformed
  | parts + 1, depth, text =>
    match skipLayout text with
    | ']' :: rest => .ok ([], rest)
    | ',' :: rest => do
      let (item, rest) ← readValue parts depth rest
      let (items, rest) ← readItems parts depth rest
      return (item :: items, rest)
    | other => .error (unexpected other)

/-- A key with its value. -/
def readMember : Nat → Nat → Reader (String × Json)
  | 0, _, _ => .error .malformed
  | parts + 1, depth, text => do
    let (key, rest) ← readKey text
    let rest ← readColon rest
    let (value, rest) ← readValue parts depth rest
    return ((key, value), rest)

/-- The members after the first, up to the closing brace. -/
def readMembers : Nat → Nat → Reader (List (String × Json))
  | 0, _, _ => .error .malformed
  | parts + 1, depth, text =>
    match skipLayout text with
    | '\x7d' :: rest => .ok ([], rest)
    | ',' :: rest => do
      let (member, rest) ← readMember parts depth rest
      let (members, rest) ← readMembers parts depth rest
      return (member :: members, rest)
    | other => .error (unexpected other)

end

/-- The number of levels that a document may nest. -/
def maxDepth : Nat := 127

/-- A bound on the number of parts of a document in a text. -/
def partBound (text : List Char) : Nat := 2 * text.length + 2

/-- Nothing but white space may follow a document. -/
def readEnd (text : List Char) : Except Fault Unit :=
  match skipLayout text with
  | [] => .ok ()
  | _ :: _ => .error .malformed

/-- The document that a text holds. -/
def parse (text : String) : Except Fault Json := do
  let cs := text.toList
  let (json, rest) ← readValue (partBound cs) maxDepth cs
  readEnd rest
  return json

end DataBinding.Json
