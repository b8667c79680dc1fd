import DataBinding.Options.Reader
import Mathlib.Data.List.DropRight

/-! Reading documents without a bound. What a reader takes from a text is described by a grammar,
with one rule for each way to read on. The bound on the number of parts only has to exceed the length
of the text, since every part takes at least one character. -/
namespace DataBinding.Json

theorem ok_of_map {f : α → β} {r : Except ε α} (mapped : r.map f = .ok b) :
    ∃ a, r = .ok a ∧ f a = b := by
  cases r with
  | error e => cases mapped
  | ok a => exact ⟨a, rfl, Except.ok.inj mapped⟩

theorem ok_of_bind {f : α → Except ε β} {r : Except ε α} (bound : r >>= f = .ok b) :
    ∃ a, r = .ok a ∧ f a = .ok b := by
  cases r with
  | error e => cases bound
  | ok a => exact ⟨a, rfl, bound⟩

theorem ok_bind (a : α) (f : α → Except ε β) : (Except.ok a >>= f) = f a := rfl

/-- What is left of a text from which at least one character has been read. -/
def Past (text rest : List Char) : Prop := ∃ c more, text = c :: more ∧ rest <:+ more

section Progress

theorem Past.of_cons (later : rest <:+ more) : Past (c :: more) rest := ⟨c, more, rfl, later⟩

theorem Past.suffix (past : Past text rest) : rest <:+ text := by
  obtain ⟨c, more, rfl, later⟩ := past
  exact later.trans (List.suffix_cons c more)

theorem Past.length_lt (past : Past text rest) : rest.length < text.length := by
  obtain ⟨c, more, rfl, later⟩ := past
  exact Nat.lt_succ_of_le later.length_le

theorem Past.after (past : Past text rest) (later : last <:+ rest) : Past text last := by
  obtain ⟨c, more, rfl, inside⟩ := past
  exact .of_cons (later.trans inside)

theorem Past.before (past : Past text rest) (earlier : text <:+ first) : Past first rest := by
  obtain ⟨head, rfl⟩ := earlier
  cases head with
  | nil => exact past
  | cons c head => exact .of_cons (past.suffix.trans (List.suffix_append head text))

theorem suffix_skipLayout (text : List Char) : skipLayout text <:+ text := List.dropWhile_suffix _

theorem past_of_skipLayout (found : skipLayout text = c :: rest) : Past text rest :=
  Past.before (.of_cons (List.suffix_refl rest)) (found ▸ suffix_skipLayout text)

theorem past_readCharacters (read : readCharacters text = .ok (cs, rest)) : Past text rest := by
  fun_induction readCharacters text generalizing cs rest
  case case2 =>
    cases read
    exact .of_cons (List.suffix_refl _)
  case case11 ih =>
    obtain ⟨r, characters, same⟩ := ok_of_map read
    cases same
    exact (ih characters).before
      (List.suffix_append ['\\', 'u', _, _, _, _, '\\', 'u', _, _, _, _] _)
  case case15 ih =>
    obtain ⟨r, characters, same⟩ := ok_of_map read
    cases same
    exact (ih characters).before (List.suffix_append ['\\', 'u', _, _, _, _] _)
  case case18 ih =>
    obtain ⟨r, characters, same⟩ := ok_of_map read
    cases same
    exact (ih characters).before (List.suffix_append ['\\', _] _)
  case case20 ih =>
    obtain ⟨r, characters, same⟩ := ok_of_map read
    cases same
    exact (ih characters).before (List.suffix_cons _ _)
  -- every other way to read on ends in a fault
  all_goals cases read

theorem past_readString (read : readString text = .ok (s, rest)) : Past text rest := by
  obtain ⟨r, characters, same⟩ := ok_of_map read
  cases same
  exact past_readCharacters characters

theorem suffix_readWord (read : readWord word text = .ok rest) : rest <:+ text := by
  fun_induction readWord word text with
  | case1 rest => cases read; exact List.suffix_refl _
  | case2 => cases read
  | case3 w word rest ih => exact (ih read).trans (List.suffix_cons _ _)
  | case4 => cases read

theorem suffix_takeDigits (significand count : Nat) (text : List Char) :
    (takeDigits significand count text).2.2 <:+ text := by
  fun_induction takeDigits significand count text <;> grind [List.suffix_cons, List.IsSuffix.trans]

theorem suffix_passDigits (count : Nat) (text : List Char) :
    (passDigits count text).2 <:+ text := by
  fun_induction passDigits count text <;> grind [List.suffix_cons, List.IsSuffix.trans]

theorem suffix_allDigits (value : Nat) (text : List Char) :
    (allDigits value text).2 <:+ text := by
  fun_induction allDigits value text <;> grind [List.suffix_cons, List.IsSuffix.trans]

theorem rest_finishNumeral
    (read : finishNumeral negative significand exponent text = .ok (n, rest)) : rest = text := by
  unfold finishNumeral at read
  split at read
  · cases read
    rfl
  · cases read

theorem past_readExponent
    (read : readExponent negative significand exponent text = .ok (n, rest)) : Past text rest := by
  unfold readExponent at read
  simp only at read
  split at read
  · cases read
  · rename_i c more signless
    have unsigned : c :: more <:+ text := by
      split at signless <;> cases signless
      · exact List.suffix_cons _ _
      · exact List.suffix_cons _ _
      · exact List.suffix_refl _
    split at read
    · cases read
    · rename_i d _
      exact Past.before (.of_cons (rest_finishNumeral read ▸ suffix_allDigits d more)) unsigned

theorem suffix_readExponent?
    (read : readExponent? negative significand exponent text = .ok (n, rest)) : rest <:+ text := by
  unfold readExponent? at read
  split at read
  · exact (past_readExponent read).suffix.trans (List.suffix_cons _ _)
  · exact (past_readExponent read).suffix.trans (List.suffix_cons _ _)
  · exact rest_finishNumeral read ▸ List.suffix_refl _

theorem suffix_readFraction
    (read : readFraction negative significand exponent text = .ok (n, rest)) : rest <:+ text := by
  unfold readFraction at read
  split at read
  · cases read
  · rename_i c more
    split at read
    · cases read
    · exact (suffix_readExponent? read).trans
        ((suffix_passDigits 0 _).trans (suffix_takeDigits significand 0 (c :: more)))

theorem suffix_readAfterInteger
    (read : readAfterInteger negative significand excess text = .ok (n, rest)) : rest <:+ text := by
  unfold readAfterInteger at read
  split at read
  · exact (suffix_readFraction read).trans (List.suffix_cons _ _)
  · exact (past_readExponent read).suffix.trans (List.suffix_cons _ _)
  · exact (past_readExponent read).suffix.trans (List.suffix_cons _ _)
  · split at read
    · cases read
      exact List.suffix_refl _
    · exact rest_finishNumeral read ▸ List.suffix_refl _

theorem past_readUnsigned (read : readUnsigned negative text = .ok (n, rest)) : Past text rest := by
  unfold readUnsigned at read
  split at read
  · cases read
  · rename_i c more
    split at read
    · cases read
    · split at read
      · split at read
        · cases read
        · exact .of_cons (suffix_readAfterInteger read)
      · exact .of_cons (suffix_readAfterInteger read)
    · rename_i d _
      exact .of_cons ((suffix_readAfterInteger read).trans
        ((suffix_passDigits 0 _).trans (suffix_takeDigits (d + 1) 1 more)))

theorem past_readNumeral (read : readNumeral text = .ok (n, rest)) : Past text rest := by
  unfold readNumeral at read
  split at read
  · exact (past_readUnsigned read).before (List.suffix_cons _ _)
  · exact past_readUnsigned read

theorem past_readKey (read : readKey text = .ok (key, rest)) : Past text rest := by
  unfold readKey at read
  split at read
  · rename_i found
    exact (past_of_skipLayout found).after (past_readString read).suffix
  · cases read

theorem skipLayout_of_readColon (read : readColon text = .ok rest) :
    skipLayout text = ':' :: rest := by
  unfold readColon at read
  split at read
  · rename_i found
    cases read
    exact found
  · cases read

theorem past_readColon (read : readColon text = .ok rest) : Past text rest :=
  past_of_skipLayout (skipLayout_of_readColon read)

end Progress

section Grammar

/-- A value that has no parts, at the start of a text. -/
inductive Scalar : List Char → Json → List Char → Prop where
  | null : readWord ['u', 'l', 'l'] text = .ok rest → Scalar ('n' :: text) .null rest
  | true : readWord ['r', 'u', 'e'] text = .ok rest → Scalar ('t' :: text) (.bool true) rest
  | false : readWord ['a', 'l', 's', 'e'] text = .ok rest → Scalar ('f' :: text) (.bool false) rest
  | string : readString text = .ok (s, rest) → Scalar ('"' :: text) (.string s) rest
  | number : c = '-' ∨ (digit? c).isSome → readNumeral (c :: text) = .ok (n, rest) →
    Scalar (c :: text) (.number n) rest

/-- What is read in one go. -/
inductive Piece where
  | value (json : Json)
  | items (items : List Json)
  | member (member : String × Json)
  | members (members : List (String × Json))

/-- The grammar of documents: `Reads depth text piece rest` says that the text begins with the part,
which nests at most `depth` levels, and goes on with `rest`. Items and members are those after the
first, with the bracket or brace at their end. -/
inductive Reads : Nat → List Char → Piece → List Char → Prop where
  | scalar : Scalar (skipLayout text) json rest → Reads depth text (.value json) rest
  | emptyArray : skipLayout text = '[' :: body → skipLayout body = ']' :: rest →
    Reads (depth + 1) text (.value (.array [])) rest
  | array : skipLayout text = '[' :: body → Reads depth body (.value item) next →
    Reads depth next (.items items) rest →
    Reads (depth + 1) text (.value (.array (item :: items))) rest
  | emptyObject : skipLayout text = '\x7b' :: body → skipLayout body = '\x7d' :: rest →
    Reads (depth + 1) text (.value (.object [])) rest
  | object : skipLayout text = '\x7b' :: body → Reads depth body (.member member) next →
    Reads depth next (.members members) rest →
    Reads (depth + 1) text (.value (.object (member :: members))) rest
  | lastItem : skipLayout text = ']' :: rest → Reads depth text (.items []) rest
  | nextItem : skipLayout text = ',' :: body → Reads depth body (.value item) next →
    Reads depth next (.items items) rest → Reads depth text (.items (item :: items)) rest
  | member : readKey text = .ok (key, body) → readColon body = .ok next →
    Reads depth next (.value json) rest → Reads depth text (.member (key, json)) rest
  | lastMember : skipLayout text = '\x7d' :: rest → Reads depth text (.members []) rest
  | nextMember : skipLayout text = ',' :: body → Reads depth body (.member member) next →
    Reads depth next (.members members) rest → Reads depth text (.members (member :: members)) rest

theorem Scalar.past (scalar : Scalar text json rest) : Past text rest := by
  cases scalar with
  | null read | true read | false read => exact .of_cons (suffix_readWord read)
  | string read => exact .of_cons (past_readString read).suffix
  | number _ read => exact past_readNumeral read

theorem Scalar.plain (scalar : Scalar text json rest) :
    (∀ items, json ≠ .array items) ∧ ∀ members, json ≠ .object members := by
  cases scalar <;> exact ⟨nofun, nofun⟩

theorem Scalar.opens (scalar : Scalar text json rest) :
    (∀ body, text ≠ '[' :: body) ∧ ∀ body, text ≠ '\x7b' :: body := by
  cases scalar with
  | number starts =>
    constructor <;>
    · rintro _ same
      cases same
      simp [digit?] at starts
  | _ => exact ⟨nofun, nofun⟩

/-- Every part takes at least one character. -/
theorem Reads.past (reads : Reads depth text piece rest) : Past text rest := by
  induction reads with
  | scalar scalar => exact scalar.past.before (suffix_skipLayout _)
  | emptyArray opened closed | emptyObject opened closed =>
    exact (past_of_skipLayout opened).after (past_of_skipLayout closed).suffix
  | array opened _ _ first later | object opened _ _ first later
  | nextItem opened _ _ first later | nextMember opened _ _ first later =>
    exact (past_of_skipLayout opened).after (later.suffix.trans first.suffix)
  | lastItem closed | lastMember closed => exact past_of_skipLayout closed
  | member key colon _ value =>
    exact (past_readKey key).after (value.suffix.trans (past_readColon colon).suffix)

/-- The white space before a value does not count. -/
theorem Reads.skip (reads : Reads depth text (.value json) rest) :
    Reads depth (skipLayout text) (.value json) rest := by
  have again : skipLayout (skipLayout text) = skipLayout text := List.dropWhile_idempotent ..
  cases reads with
  | scalar scalar => exact .scalar (again.symm ▸ scalar)
  | emptyArray opened closed => exact .emptyArray (again.trans opened) closed
  | array opened first later => exact .array (again.trans opened) first later
  | emptyObject opened closed => exact .emptyObject (again.trans opened) closed
  | object opened first later => exact .object (again.trans opened) first later

/-- What begins with a quote is a string. -/
theorem Reads.string (reads : Reads depth text (.value json) rest)
    (found : skipLayout text = '"' :: body) : ∃ s, json = .string s := by
  cases reads with
  | scalar scalar =>
    rw [found] at scalar
    cases scalar with
    | string => exact ⟨_, rfl⟩
    | number starts => simp [digit?] at starts
  | emptyArray opened | array opened | emptyObject opened | object opened =>
    rw [found] at opened
    cases opened

/-- The reader of a part takes it from the text. -/
def Piece.Taken (parts depth : Nat) (text rest : List Char) : Piece → Prop
  | .value json => readValue parts depth text = .ok (json, rest)
  | .items xs => readItems parts depth text = .ok (xs, rest)
  | .member m => readMember parts depth text = .ok (m, rest)
  | .members ms => readMembers parts depth text = .ok (ms, rest)

theorem readValue_of_scalar (scalar : Scalar (skipLayout text) json rest) :
    readValue (parts + 1) depth text = .ok (json, rest) := by
  rw [readValue]
  generalize skipLayout text = unread at scalar
  cases scalar with
  | null read | true read | false read | string read => simp only [read]; rfl
  | @number c more n _ starts read =>
    split <;> rename_i same <;> cases same
    case h_7 => rw [if_pos starts, read]; rfl
    all_goals simp [digit?] at starts

theorem Reads.opens (reads : Reads depth text (.value json) rest) :
    skipLayout text ≠ ']' :: more := by
  intro closed
  cases reads with
  | scalar scalar =>
    rw [closed] at scalar
    cases scalar with
    | number starts => simp [digit?] at starts
  | emptyArray opened | array opened | emptyObject opened | object opened =>
    rw [closed] at opened
    cases opened

theorem Reads.names (reads : Reads depth text (.member m) rest) :
    skipLayout text ≠ '\x7d' :: more := by
  intro closed
  cases reads with
  | member key =>
    rw [readKey, closed] at key
    cases key

/-- A bound beyond the length of the text never cuts a reader short. -/
theorem Reads.taken (reads : Reads depth text piece rest) (enough : text.length < parts) :
    piece.Taken parts depth text rest := by
  induction reads generalizing parts with
    obtain ⟨parts, rfl⟩ := Nat.exists_eq_add_one.mpr (Nat.zero_lt_of_lt enough)
  | scalar scalar => exact readValue_of_scalar scalar
  | emptyArray opened closed =>
    simp only [Piece.Taken, readValue, opened, closed]
    rfl
  | array opened first later ih ih' =>
    have inside := (past_of_skipLayout opened).length_lt
    have next := first.past.length_lt
    have item : readValue _ _ _ = _ := @ih parts (by omega)
    have items : readItems _ _ _ = _ := @ih' parts (by omega)
    simp only [Piece.Taken, readValue, opened, Nat.succ_ne_zero, if_false]
    split
    · rename_i closed
      exact absurd closed first.opens
    · simp only [Nat.add_sub_cancel, item, ok_bind, items]
      rfl
  | emptyObject opened closed =>
    simp only [Piece.Taken, readValue, opened, closed]
    rfl
  | object opened first later ih ih' =>
    have inside := (past_of_skipLayout opened).length_lt
    have next := first.past.length_lt
    have item : readMember _ _ _ = _ := @ih parts (by omega)
    have items : readMembers _ _ _ = _ := @ih' parts (by omega)
    simp only [Piece.Taken, readValue, opened, Nat.succ_ne_zero, if_false]
    split
    · rename_i closed
      exact absurd closed first.names
    · simp only [Nat.add_sub_cancel, item, ok_bind, items]
      rfl
  | lastItem closed =>
    simp only [Piece.Taken, readItems, closed]
  | nextItem opened first later ih ih' =>
    have inside := (past_of_skipLayout opened).length_lt
    have next := first.past.length_lt
    have item : readValue _ _ _ = _ := @ih parts (by omega)
    have items : readItems _ _ _ = _ := @ih' parts (by omega)
    simp only [Piece.Taken, readItems, opened, item, ok_bind, items]
    rfl
  | member key colon value ih =>
    have inside := (past_readKey key).length_lt
    have next := (past_readColon colon).length_lt
    have json : readValue _ _ _ = _ := @ih parts (by omega)
    simp only [Piece.Taken, readMember, key, ok_bind, colon, json]
    rfl
  | lastMember closed =>
    simp only [Piece.Taken, readMembers, closed]
  | nextMember opened first later ih ih' =>
    have inside := (past_of_skipLayout opened).length_lt
    have next := first.past.length_lt
    have item : readMember _ _ _ = _ := @ih parts (by omega)
    have items : readMembers _ _ _ = _ := @ih' parts (by omega)
    simp only [Piece.Taken, readMembers, opened, item, ok_bind, items]
    rfl

theorem scalar_of_map {f : α → Json × List Char} {r : Except Fault α}
    (mapped : r.map f = .ok (json, rest))
    (each : ∀ a, r = .ok a → Scalar text (f a).1 (f a).2) : Scalar text json rest := by
  obtain ⟨a, read, same⟩ := ok_of_map mapped
  have scalar := each a read
  rwa [same] at scalar

/-- Whatever is taken from a text is there. -/
theorem reads_of_taken (taken : piece.Taken parts depth text rest) :
    Reads depth text piece rest := by
  induction parts generalizing depth text piece rest with
  | zero =>
    cases piece <;> simp [Piece.Taken, readValue, readItems, readMember, readMembers] at taken
  | succ parts ih =>
    cases piece with
    | value json =>
      change readValue _ _ _ = _ at taken
      rw [readValue] at taken
      split at taken
      case h_1 found => exact .scalar (found ▸ scalar_of_map taken fun _ => .null)
      case h_2 found => exact .scalar (found ▸ scalar_of_map taken fun _ => .true)
      case h_3 found => exact .scalar (found ▸ scalar_of_map taken fun _ => .false)
      case h_4 found => exact .scalar (found ▸ scalar_of_map taken fun _ => .string)
      case h_5 body opened =>
        split at taken
        · cases taken
        · rename_i nested
          obtain ⟨depth, rfl⟩ := Nat.exists_eq_add_one_of_ne_zero nested
          rw [Nat.add_sub_cancel] at taken
          split at taken
          · rename_i closed
            cases taken
            exact .emptyArray opened closed
          · obtain ⟨⟨item, next⟩, first, taken⟩ := ok_of_bind taken
            obtain ⟨⟨items, last⟩, later, taken⟩ := ok_of_bind taken
            cases taken
            exact .array opened (ih first) (ih later)
      case h_6 body opened =>
        split at taken
        · cases taken
        · rename_i nested
          obtain ⟨depth, rfl⟩ := Nat.exists_eq_add_one_of_ne_zero nested
          rw [Nat.add_sub_cancel] at taken
          split at taken
          · rename_i closed
            cases taken
            exact .emptyObject opened closed
          · obtain ⟨⟨member, next⟩, first, taken⟩ := ok_of_bind taken
            obtain ⟨⟨members, last⟩, later, taken⟩ := ok_of_bind taken
            cases taken
            exact .object opened (ih first) (ih later)
      case h_7 c more _ _ _ _ _ _ found =>
        split at taken
        · rename_i starts
          exact .scalar (found ▸ scalar_of_map taken fun _ => .number starts)
        · cases taken
      case h_8 => cases taken
    | items items =>
      change readItems _ _ _ = _ at taken
      rw [readItems] at taken
      split at taken
      · rename_i closed
        cases taken
        exact .lastItem closed
      · rename_i opened
        obtain ⟨⟨item, next⟩, first, taken⟩ := ok_of_bind taken
        obtain ⟨⟨items, last⟩, later, taken⟩ := ok_of_bind taken
        cases taken
        exact .nextItem opened (ih first) (ih later)
      · cases taken
    | member member =>
      change readMember _ _ _ = _ at taken
      rw [readMember] at taken
      obtain ⟨⟨key, body⟩, name, taken⟩ := ok_of_bind taken
      obtain ⟨next, colon, taken⟩ := ok_of_bind taken
      obtain ⟨⟨json, last⟩, value, taken⟩ := ok_of_bind taken
      cases taken
      exact .member name colon (ih value)
    | members members =>
      change readMembers _ _ _ = _ at taken
      rw [readMembers] at taken
      split at taken
      · rename_i closed
        cases taken
        exact .lastMember closed
      · rename_i opened
        obtain ⟨⟨member, next⟩, first, taken⟩ := ok_of_bind taken
        obtain ⟨⟨members, last⟩, later, taken⟩ := ok_of_bind taken
        cases taken
        exact .nextMember opened (ih first) (ih later)
      · cases taken

theorem readValue_eq_ok_iff (enough : text.length < parts) :
    readValue parts depth text = .ok (json, rest) ↔ Reads depth text (.value json) rest :=
  ⟨fun read => reads_of_taken read, fun reads => reads.taken enough⟩

theorem length_lt_partBound (text : List Char) : text.length < partBound text := by
  unfold partBound
  omega

theorem parse_eq_ok_iff : parse text = .ok json ↔
    ∃ rest, Reads maxDepth text.toList (.value json) rest ∧ readEnd rest = .ok () := by
  constructor
  · intro parsed
    unfold parse at parsed
    obtain ⟨⟨json, rest⟩, read, parsed⟩ := ok_of_bind parsed
    obtain ⟨⟨⟩, ends, parsed⟩ := ok_of_bind parsed
    cases parsed
    exact ⟨rest, (readValue_eq_ok_iff (length_lt_partBound _)).mp read, ends⟩
  · rintro ⟨rest, reads, ends⟩
    simp only [parse, (readValue_eq_ok_iff (length_lt_partBound _)).mpr reads, ok_bind, ends]
    rfl

end Grammar

end DataBinding.Json
