import DataBinding.Json.Reader
import DataBinding.Options

/-!
Reading options. The members are judged in the order of the text, each as soon as its key or the kind
of its value has been read, so the first offending one decides the error even if the text is no
document from there on. Only when no member offends is a missing `el` reported.
-/
namespace DataBinding.Options

/-- Why reading stopped; a problem with the document comes with the text unread at that moment. -/
inductive Refusal where
  | fault (f : Json.Fault)
  | problem (p : OptionsProblem) (unread : List Char)

/-- A part that is read as in any document. -/
def plain {α : Type} (r : Except Json.Fault α) : Except Refusal α := r.mapError .fault

/-- Why a value that is not wanted is refused. A sequence or a map is refused before it is entered;
any other value is read first, and a fault in it counts more. -/
def mismatch (wanted : Wanted) (text : List Char) : Refusal :=
  let read (r : Except Json.Fault (Found × List Char)) : Refusal :=
    match r with
    | .ok (found, rest) => .problem (.mismatch found wanted) rest
    | .error f => .fault f
  match text with
  | [] => .fault .truncated
  | '[' :: _ => .problem (.mismatch .sequence wanted) text
  | '\x7b' :: _ => .problem (.mismatch .map wanted) text
  | '"' :: rest => read ((Json.readString rest).map fun r => (.string r.1, r.2))
  | 'n' :: rest => read ((Json.readWord ['u', 'l', 'l'] rest).map fun rest => (.null, rest))
  | 't' :: rest => read ((Json.readWord ['r', 'u', 'e'] rest).map fun rest => (.bool true, rest))
  | 'f' :: rest =>
    read ((Json.readWord ['a', 'l', 's', 'e'] rest).map fun rest => (.bool false, rest))
  | c :: _ =>
    if c = '-' ∨ (Json.digit? c).isSome then
      read ((Json.readNumeral text).map fun r => (.number r.1, r.2))
    else .fault .malformed

/-- The selector of the element, which must be a string. -/
def readElement (text : List Char) : Except Refusal (String × List Char) :=
  match Json.skipLayout text with
  | '"' :: rest => plain (Json.readString rest)
  | other => .error (mismatch .string other)

/-- The data, one level inside the options. -/
def readData (text : List Char) : Except Refusal (Json × List Char) :=
  plain (Json.readValue (Json.partBound text) (Json.maxDepth - 1) text)

/-- What stays unread after a key was refused: the end of the map is looked for right behind it. -/
def afterRefusedKey (text : List Char) : List Char :=
  match Json.skipLayout text with
  | '\x7d' :: rest => rest
  | other => other

/-- The options made of the members read, with `unread` after the end of the map. -/
def ofMembers (element : Option String) (data : Option Json) (unread : List Char) :
    Except Refusal (Options × List Char) :=
  match element with
  | none => .error (.problem .missingElement unread)
  | some e => .ok (⟨e, data.getD .null⟩, unread)

mutual

/-- The members from a key on. The first argument bounds their number. -/
def readMember (element : Option String) (data : Option Json) :
    Nat → List Char → Except Refusal (Options × List Char)
  | 0, _ => .error (.fault .malformed)
  | bound + 1, text => do
    let (key, rest) ← plain (Json.readKey text)
    if key = "el" then
      if element.isSome then .error (.problem (.repeatedMember key) (afterRefusedKey rest))
      else
        let rest ← plain (Json.readColon rest)
        let (e, rest) ← readElement rest
        readMembers (some e) data bound rest
    else if key = "data" then
      if data.isSome then .error (.problem (.repeatedMember key) (afterRefusedKey rest))
      else
        let rest ← plain (Json.readColon rest)
        let (d, rest) ← readData rest
        readMembers element (some d) bound rest
    else .error (.problem (.unknownMember key) (afterRefusedKey rest))

/-- The members from the end of one on. -/
def readMembers (element : Option String) (data : Option Json) :
    Nat → List Char → Except Refusal (Options × List Char)
  | 0, _ => .error (.fault .malformed)
  | bound + 1, text =>
    match Json.skipLayout text with
    | '\x7d' :: rest => ofMembers element data rest
    | ',' :: rest => readMember element data bound rest
    | other => .error (.fault (Json.unexpected other))

end

/-- Options written as a map, after its opening brace. -/
def readMap (text : List Char) : Except Refusal (Options × List Char) :=
  match Json.skipLayout text with
  | '\x7d' :: rest => ofMembers none none rest
  | _ => readMember none none (Json.partBound text) text

/-- Options written as a sequence, after its opening bracket. -/
def readSequence (text : List Char) : Except Refusal (Options × List Char) :=
  match Json.skipLayout text with
  | ']' :: rest => .error (.problem .emptySequence rest)
  | _ => do
    let (element, rest) ← readElement text
    match Json.skipLayout rest with
    | ']' :: rest => return (⟨element, .null⟩, rest)
    | ',' :: rest =>
      let (data, rest) ← readData rest
      match Json.skipLayout rest with
      | ']' :: rest => return (⟨element, data⟩, rest)
      | other => .error (.fault (Json.unexpected other))
    | other => .error (.fault (Json.unexpected other))

/-- Options at the start of a text. -/
def readOptions (text : List Char) : Except Refusal (Options × List Char) :=
  match Json.skipLayout text with
  | '\x7b' :: rest => readMap rest
  | '[' :: rest => readSequence rest
  | other => .error (mismatch .options other)

/-- The place behind a text. -/
def positionAfter (consumed : List Char) : Position :=
  let line := consumed.reverse.takeWhile (· ≠ '\n')
  ⟨consumed.count '\n' + 1, Text.byteCount line⟩

/-- The error for a refusal in a text. -/
def Refusal.error (text : List Char) : Refusal → OptionsError
  | .fault .truncated => .truncated
  | .fault .malformed => .malformed
  | .problem p unread => .invalid p (positionAfter (text.take (text.length - unread.length)))

/-- The options that a text holds. -/
def parse (text : String) : Except OptionsError Options :=
  let cs := text.toList
  match readOptions cs with
  | .error refusal => .error (refusal.error cs)
  | .ok (options, rest) =>
    match Json.readEnd rest with
    | .ok () => .ok options
    | .error f => .error ((Refusal.fault f).error cs)

end DataBinding.Options
