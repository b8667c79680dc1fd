import Mathlib
import DataBinding.Proofs.Documents

/-! Which documents are options. The members of a map are judged while the text is read; here the
verdict is told from the document alone: which documents are accepted, with which values, and for
which member any other one is refused. -/
namespace DataBinding

/-- How a message names a document. -/
def Json.found : Json → Found
  | .null => .null
  | .bool b => .bool b
  | .number n => .number n
  | .string s => .string s
  | .array _ => .sequence
  | .object _ => .map

namespace Options

/-- The values of a key, in the order of the members. -/
def valuesOf (key : String) (members : List (String × Json)) : List Json :=
  (members.filter (·.1 = key)).map Prod.snd

/-- The document is a set of options: a map that has `el` once, with a string, at most one `data`
and nothing else, or a sequence of the two. -/
inductive Accepts : Json → Options → Prop where
  | map {given : Option Json} : (∀ m ∈ members, m.1 = "el" ∨ m.1 = "data") →
    valuesOf "el" members = [.string selector] → valuesOf "data" members = given.toList →
    Accepts (.object members) ⟨selector, given.getD .null⟩
  | single : Accepts (.array [.string selector]) ⟨selector, .null⟩
  | pair : Accepts (.array [.string selector, json]) ⟨selector, json⟩

/-- What is wrong with a member that follows the members `before`. -/
inductive Offends (before : List (String × Json)) : String × Json → OptionsProblem → Prop where
  | unknown : key ≠ "el" → key ≠ "data" → Offends before (key, json) (.unknownMember key)
  | repeated : key = "el" ∨ key = "data" → key ∈ before.map Prod.fst →
    Offends before (key, json) (.repeatedMember key)
  | untyped : "el" ∉ before.map Prod.fst → (∀ s, json ≠ .string s) →
    Offends before ("el", json) (.mismatch json.found .string)

/-- None of the members offends. -/
def Harmless (members : List (String × Json)) : Prop :=
  ∀ before m after, members = before ++ m :: after → ∀ problem, ¬Offends before m problem

/-- Why a document is not a set of options: the first member that offends, a missing `el` where no
member does, or a value of the wrong kind. -/
inductive Rejects : Json → OptionsProblem → Prop where
  | member : Harmless before → Offends before m problem →
    Rejects (.object (before ++ m :: after)) problem
  | missing : Harmless members → "el" ∉ members.map Prod.fst →
    Rejects (.object members) .missingElement
  | empty : Rejects (.array []) .emptySequence
  | first : (∀ s, json ≠ .string s) →
    Rejects (.array (json :: items)) (.mismatch json.found .string)
  | other : (∀ items, json ≠ .array items) → (∀ members, json ≠ .object members) →
    Rejects json (.mismatch json.found .options)

/-- The document is a sequence that goes on after the data. -/
def Overlong (json : Json) : Prop :=
  ∃ selector second third items, json = .array (.string selector :: second :: third :: items)

/-- From a key on, the text holds the members `before` and then `m`, from `start` up to `stop`. -/
inductive Sits :
    List Char → List (String × Json) → String × Json → List Char → List Char → Prop where
  | here : Json.Reads (Json.maxDepth - 1) text (.member m) stop → Sits text [] m text stop
  | later : Json.Reads (Json.maxDepth - 1) text (.member first) next →
    Json.skipLayout next = ',' :: body → Sits body before m start stop →
    Sits text (first :: before) m start stop

section Members

theorem mem_keys_iff : key ∈ members.map Prod.fst ↔ valuesOf key members ≠ [] := by
  simp [valuesOf]

theorem Offends.unique (one : Offends before m p) (other : Offends before m q) : p = q := by
  cases one <;> cases other <;> simp_all

theorem Harmless.snoc (harmless : Harmless before) (fine : ∀ p, ¬Offends before m p) :
    Harmless (before ++ [m]) := by
  intro early n late split
  rcases List.eq_nil_or_concat late with rfl | ⟨late, last, rfl⟩
  · obtain ⟨rfl, same⟩ := List.append_inj' split rfl
    cases same
    exact fine
  · rw [List.concat_eq_append, ← List.cons_append, ← List.append_assoc] at split
    exact harmless _ _ _ (List.append_inj' split rfl).1

/-- The first member that offends is the only first one. -/
theorem first_offence_unique (harmless : Harmless before) (offends : Offends before m p)
    (harmless' : Harmless before') (offends' : Offends before' m' q)
    (same : before ++ m :: after = before' ++ m' :: after') : p = q := by
  rcases List.append_eq_append_iff.mp same with ⟨between, rfl, tail⟩ | ⟨between, rfl, tail⟩
  · cases between with
    | nil =>
      cases tail
      rw [List.append_nil] at offends'
      exact offends.unique offends'
    | cons n between =>
      cases tail
      exact absurd offends (harmless' before m between rfl p)
  · cases between with
    | nil =>
      cases tail
      rw [List.append_nil] at offends
      exact offends.unique offends'
    | cons n between =>
      cases tail
      exact absurd offends' (harmless before' m' between rfl q)

/-- What has been found among members none of which offends. -/
structure Seen (members : List (String × Json)) (chosen : Option String) (given : Option Json) :
    Prop where
  harmless : Harmless members
  elements : valuesOf "el" members = (chosen.map Json.string).toList
  data : valuesOf "data" members = given.toList

variable {chosen : Option String} {given : Option Json}

theorem valuesOf_append (key : String) (before after : List (String × Json)) :
    valuesOf key (before ++ after) = valuesOf key before ++ valuesOf key after := by
  simp [valuesOf]

theorem Harmless.known (harmless : Harmless members) (member : m ∈ members) :
    m.1 = "el" ∨ m.1 = "data" := by
  obtain ⟨before, after, rfl⟩ := List.append_of_mem member
  refine Decidable.byContradiction fun other => ?_
  rw [not_or] at other
  exact harmless before m after rfl _ (.unknown other.1 other.2)

theorem Seen.nil : Seen [] none none where
  harmless := by intro before m after split; simp at split
  elements := rfl
  data := rfl

theorem Seen.lacks_element (seen : Seen members none given) : "el" ∉ members.map Prod.fst := by
  rw [mem_keys_iff, seen.elements]
  simp

theorem Seen.has_element (seen : Seen members (some selector) given) :
    "el" ∈ members.map Prod.fst := by
  rw [mem_keys_iff, seen.elements]
  simp

theorem Seen.lacks_data (seen : Seen members chosen none) : "data" ∉ members.map Prod.fst := by
  rw [mem_keys_iff, seen.data]
  simp

theorem Seen.has_data (seen : Seen members chosen (some json)) : "data" ∈ members.map Prod.fst := by
  rw [mem_keys_iff, seen.data]
  simp

theorem Seen.add_element (seen : Seen members none given) :
    Seen (members ++ [("el", .string selector)]) (some selector) given where
  harmless := by
    refine seen.harmless.snoc fun p offends => ?_
    cases offends with
    | unknown other => exact other rfl
    | repeated _ again => exact seen.lacks_element again
    | untyped _ other => exact other selector rfl
  elements := by rw [valuesOf_append, seen.elements]; rfl
  data := by rw [valuesOf_append, seen.data]; exact List.append_nil _

theorem Seen.add_data (seen : Seen members chosen none) :
    Seen (members ++ [("data", json)]) chosen (some json) where
  harmless := by
    refine seen.harmless.snoc fun p offends => ?_
    generalize named : ("data", json) = m at offends
    cases offends with
    | unknown _ other => cases named; exact other rfl
    | repeated _ again => cases named; exact seen.lacks_data again
    | untyped => exact absurd (congrArg Prod.fst named) (by simp)
  elements := by rw [valuesOf_append, seen.elements]; exact List.append_nil _
  data := by rw [valuesOf_append, seen.data]; rfl

theorem Seen.accepts (seen : Seen members (some selector) given) :
    Accepts (.object members) ⟨selector, given.getD .null⟩ :=
  .map (fun _ => seen.harmless.known) seen.elements seen.data

end Members

section Reading

theorem mismatch_of_scalar (wanted : Wanted) (scalar : Json.Scalar text json rest) :
    mismatch wanted text = .problem (.mismatch json.found wanted) rest := by
  cases scalar with
  | null read | true read | false read | string read =>
    simp only [mismatch, read]
    rfl
  | @number c more n _ starts read =>
    unfold mismatch
    split <;> rename_i same <;> cases same
    case h_8 => simp only [if_pos starts, read]; rfl
    all_goals simp [Json.digit?] at starts

/-- A value that is not wanted is reported, whatever it is. -/
theorem mismatch_of_reads (wanted : Wanted) (reads : Json.Reads depth text (.value json) rest) :
    ∃ unread,
      mismatch wanted (Json.skipLayout text) = .problem (.mismatch json.found wanted) unread ∧
      rest <:+ unread ∧ unread <:+ text := by
  have inside := Json.suffix_skipLayout text
  have past : rest <:+ Json.skipLayout text := reads.skip.past.suffix
  cases reads with
  | scalar scalar =>
    exact ⟨rest, mismatch_of_scalar wanted scalar, List.suffix_refl rest, past.trans inside⟩
  | emptyArray opened | array opened | emptyObject opened | object opened =>
    refine ⟨_, ?_, past, inside⟩
    rw [opened]
    rfl

theorem readElement_of_string (reads : Json.Reads depth text (.value (.string s)) rest) :
    readElement text = .ok (s, rest) := by
  cases reads with
  | scalar scalar =>
    unfold readElement
    generalize Json.skipLayout text = unread at scalar
    cases scalar with
    | string read =>
      simp only [read]
      rfl

theorem readElement_of_other (reads : Json.Reads depth text (.value json) rest)
    (other : ∀ s, json ≠ .string s) :
    ∃ unread, readElement text = .error (.problem (.mismatch json.found .string) unread) ∧
      rest <:+ unread ∧ unread <:+ text := by
  obtain ⟨unread, refused, later, inside⟩ := mismatch_of_reads .string reads
  refine ⟨unread, ?_, later, inside⟩
  unfold readElement
  split
  · rename_i found
    obtain ⟨s, same⟩ := reads.string found
    exact absurd same (other s)
  · rw [refused]

theorem readData_of_reads (reads : Json.Reads (Json.maxDepth - 1) text (.value json) rest) :
    readData text = .ok (json, rest) := by
  rw [readData, (Json.readValue_eq_ok_iff (Json.length_lt_partBound text)).mpr reads]
  rfl

/-- What becomes of options whose members `before` have been read and whose members `later` follow
from `text` on, up to `rest`. -/
inductive Comes (before : List (String × Json)) (text : List Char) (later : List (String × Json))
    (rest : List Char) : Except Refusal (Options × List Char) → Prop where
  | accepts : Accepts (.object (before ++ later)) options →
    Comes before text later rest (.ok (options, rest))
  | lacks : Harmless (before ++ later) → "el" ∉ (before ++ later).map Prod.fst →
    Comes before text later rest (.error (.problem .missingElement rest))
  | offends : later = early ++ m :: late → Harmless (before ++ early) →
    Offends (before ++ early) m p → Sits text early m start stop → stop <:+ unread → unread <:+ start →
    Comes before text later rest (.error (.problem p unread))

theorem Comes.step (reads : Json.Reads (Json.maxDepth - 1) text (.member m) next)
    (found : Json.skipLayout next = ',' :: body)
    (comes : Comes (before ++ [m]) body later rest result) :
    Comes before text (m :: later) rest result := by
  cases comes with
  | accepts accepts => exact .accepts (by simpa using accepts)
  | lacks harmless lacking => exact .lacks (by simpa using harmless) (by simpa using lacking)
  | offends split harmless offends sits after inside =>
    subst split
    refine .offends rfl ?_ ?_ (.later reads found sits) after inside
    · simpa using harmless
    · simpa using offends

theorem ofMembers_comes (seen : Seen (before ++ later) chosen given) :
    Comes before text later rest (ofMembers chosen given rest) := by
  cases chosen with
  | none => exact .lacks seen.harmless seen.lacks_element
  | some selector => exact .accepts seen.accepts

theorem afterRefusedKey_eq (found : Json.skipLayout text = ':' :: next) :
    afterRefusedKey text = ':' :: next := by
  rw [afterRefusedKey, found]
  rfl

/-- A member offends, and then reading stops within it, or it is taken and reading goes on. -/
theorem readMember_step (reads : Json.Reads (Json.maxDepth - 1) text (.member m) next)
    (seen : Seen before chosen given) :
    (∃ p unread, Offends before m p ∧ next <:+ unread ∧ unread <:+ text ∧
      readMember chosen given (bound + 1) text = .error (.problem p unread)) ∨
    ∃ chosen' given', Seen (before ++ [m]) chosen' given' ∧
      readMember chosen given (bound + 1) text = readMembers chosen' given' bound next := by
  cases reads with
  | @member _ key body start _ json _ name colon value =>
    have named := (Json.past_readKey name).suffix
    have found := Json.skipLayout_of_readColon colon
    have skipped := (found ▸ Json.suffix_skipLayout body).trans named
    have ends := value.past.suffix.trans (List.suffix_cons ':' start)
    simp only [readMember, name, plain, Except.mapError, Json.ok_bind, colon,
      afterRefusedKey_eq found]
    by_cases element : key = "el"
    · subst element
      rw [if_pos rfl]
      cases chosen with
      | some selector =>
        exact .inl ⟨_, _, .repeated (.inl rfl) seen.has_element, ends, skipped, rfl⟩
      | none =>
        rw [if_neg (by simp)]
        by_cases string : ∃ s, json = .string s
        · obtain ⟨s, rfl⟩ := string
          rw [readElement_of_string value]
          exact .inr ⟨_, _, seen.add_element, rfl⟩
        · rw [not_exists] at string
          obtain ⟨unread, refused, later, inside⟩ := readElement_of_other value string
          rw [refused]
          exact .inl ⟨_, unread, .untyped seen.lacks_element string, later,
            inside.trans ((List.suffix_cons ':' start).trans skipped), rfl⟩
    · rw [if_neg element]
      by_cases data : key = "data"
      · subst data
        rw [if_pos rfl]
        cases given with
        | some json =>
          exact .inl ⟨_, _, .repeated (.inr rfl) seen.has_data, ends, skipped, rfl⟩
        | none =>
          rw [if_neg (by simp), readData_of_reads value]
          exact .inr ⟨_, _, seen.add_data, rfl⟩
      · rw [if_neg data]
        exact .inl ⟨_, _, .unknown element data, ends, skipped, rfl⟩

theorem Comes.stop (harmless : Harmless before)
    (reads : Json.Reads (Json.maxDepth - 1) text (.member m) next) (offends : Offends before m p)
    (after : next <:+ unread) (inside : unread <:+ text) :
    Comes before text (m :: later) rest (.error (.problem p unread)) :=
  .offends (List.nil_append _).symm (by simpa using harmless) (by simpa using offends)
    (.here reads) after inside

/-- Members are judged one after the other, each by those before it. -/
theorem readMember_comes (first : Json.Reads (Json.maxDepth - 1) text (.member m) next)
    (later : Json.Reads (Json.maxDepth - 1) next (.members members) rest)
    (seen : Seen before chosen given) (enough : text.length < bound) :
    Comes before text (m :: members) rest (readMember chosen given bound text) := by
  have shorter := first.past.length_lt
  obtain ⟨bound, rfl⟩ : ∃ b, bound = b + 2 := ⟨bound - 2, by omega⟩
  induction members generalizing text m next before chosen given bound with
  | nil =>
    rcases readMember_step first seen with
      ⟨p, unread, offends, after, inside, stopped⟩ | ⟨chosen', given', seen', passed⟩
    · rw [stopped]
      exact .stop seen.harmless first offends after inside
    · cases later with
      | lastMember closed =>
        rw [passed]
        simp only [readMembers, closed]
        exact ofMembers_comes seen'
  | cons second members ih =>
    rcases readMember_step first seen with
      ⟨p, unread, offends, after, inside, stopped⟩ | ⟨chosen', given', seen', passed⟩
    · rw [stopped]
      exact .stop seen.harmless first offends after inside
    · cases later with
      | @nextMember _ body _ _ last _ _ found more later =>
        have nested := (Json.past_of_skipLayout found).length_lt
        have deeper := more.past.length_lt
        rw [passed]
        simp only [readMembers, found]
        obtain ⟨bound, rfl⟩ : ∃ b, bound = b + 2 := ⟨bound - 2, by omega⟩
        exact .step first found (ih more later seen' deeper bound (by omega))

theorem Sits.suffix (sits : Sits text before m start stop) : start <:+ text := by
  induction sits with
  | here => exact List.suffix_refl _
  | later reads found _ ih =>
    exact ih.trans ((Json.past_of_skipLayout found).suffix.trans reads.past.suffix)

/-- The text is read no further than into the first of the members that offends. -/
def Blames (text : List Char) (members : List (String × Json)) (p : OptionsProblem)
    (unread : List Char) : Prop :=
  ∃ body before m after start stop, Json.skipLayout text = '\x7b' :: body ∧
    members = before ++ m :: after ∧ Harmless before ∧ Offends before m p ∧
    Sits body before m start stop ∧ stop <:+ unread ∧ unread <:+ start

/-- What becomes of options that are written as a document. -/
inductive Decides (text rest : List Char) (json : Json) :
    Except Refusal (Options × List Char) → Prop where
  | accepts : Accepts json options → Decides text rest json (.ok (options, rest))
  | rejects : Rejects json p → unread <:+ text →
    (∀ members, json = .object members → p ≠ .missingElement → Blames text members p unread) →
    Decides text rest json (.error (.problem p unread))
  | overlong : Overlong json → Decides text rest json (.error (.fault .malformed))

theorem Comes.decides (opened : Json.skipLayout text = '\x7b' :: body) (within : rest <:+ body)
    (comes : Comes [] body members rest result) : Decides text rest (.object members) result := by
  have inside : body <:+ text := (Json.past_of_skipLayout opened).suffix
  cases comes with
  | accepts accepts => exact .accepts accepts
  | lacks harmless lacking =>
    exact .rejects (.missing harmless lacking) (within.trans inside) fun _ _ other =>
      absurd rfl other
  | offends split harmless offends sits after before =>
    subst split
    refine .rejects (.member harmless offends) (before.trans (sits.suffix.trans inside)) ?_
    intro _ same _
    cases same
    exact ⟨body, _, _, _, _, _, opened, rfl, harmless, offends, sits, after, before⟩

theorem readSequence_decides (opened : Json.skipLayout text = '[' :: body)
    (first : Json.Reads (Json.maxDepth - 1) body (.value item) next)
    (later : Json.Reads (Json.maxDepth - 1) next (.items items) rest) :
    Decides text rest (.array (item :: items)) (readSequence body) := by
  have inside : body <:+ text := (Json.past_of_skipLayout opened).suffix
  unfold readSequence
  split
  · rename_i closed
    exact absurd closed first.opens
  by_cases string : ∃ s, item = .string s
  · obtain ⟨s, rfl⟩ := string
    rw [readElement_of_string first, Json.ok_bind]
    cases later with
    | lastItem closed =>
      simp only [closed]
      exact .accepts .single
    | nextItem found second later =>
      simp only [found, readData_of_reads second, Json.ok_bind]
      cases later with
      | lastItem closed =>
        simp only [closed]
        exact .accepts .pair
      | nextItem found =>
        simp only [found]
        exact .overlong ⟨_, _, _, _, rfl⟩
  · rw [not_exists] at string
    obtain ⟨unread, refused, after, before⟩ := readElement_of_other first string
    rw [refused]
    exact .rejects (.first string) (before.trans inside) fun _ same => by cases same

theorem readOptions_decides (reads : Json.Reads Json.maxDepth text (.value json) rest) :
    Decides text rest json (readOptions text) := by
  have within := reads.past.suffix
  unfold readOptions
  generalize limit : Json.maxDepth = depth at reads
  cases reads with
  | scalar scalar =>
    split
    · rename_i found
      exact absurd found (scalar.opens.2 _)
    · rename_i found
      exact absurd found (scalar.opens.1 _)
    · rw [mismatch_of_scalar .options scalar]
      exact .rejects (.other scalar.plain.1 scalar.plain.2) within fun members same =>
        absurd same (scalar.plain.2 members)
  | emptyArray opened closed =>
    simp only [opened, readSequence, closed]
    exact .rejects .empty within fun _ same => by cases same
  | array opened first later =>
    cases limit
    simp only [opened]
    exact readSequence_decides opened first later
  | @emptyObject _ body _ depth opened closed =>
    simp only [opened, readMap, closed]
    have comes : Comes [] body [] rest (ofMembers none none rest) := ofMembers_comes .nil
    exact comes.decides opened (Json.past_of_skipLayout closed).suffix
  | @object _ body _ _ _ _ _ opened first later =>
    cases limit
    simp only [opened, readMap]
    split
    · rename_i closed
      exact absurd closed first.names
    · have comes := readMember_comes first later .nil (Json.length_lt_partBound body)
      exact comes.decides opened (later.past.suffix.trans first.past.suffix)

end Reading

section Verdicts

theorem Accepts.unique (one : Accepts json o) (other : Accepts json o') : o = o' := by
  cases one with
  | @map members selector given known elements data =>
    cases other with
    | @map _ selector' given' _ elements' data' =>
      obtain rfl : selector = selector' := by
        have same := elements.symm.trans elements'
        cases same
        rfl
      obtain rfl : given = given' := by
        have same := data.symm.trans data'
        cases given <;> cases given' <;> simp_all
      rfl
  | single => cases other; rfl
  | pair => cases other; rfl

theorem valuesOf_split (key : String) (before after : List (String × Json)) (json : Json) :
    valuesOf key (before ++ (key, json) :: after) =
      valuesOf key before ++ json :: valuesOf key after := by
  simp [valuesOf]

theorem not_repeated (short : (valuesOf key (before ++ (key, json) :: after)).length ≤ 1) :
    key ∉ before.map Prod.fst := by
  rw [valuesOf_split, List.length_append, List.length_cons] at short
  rw [mem_keys_iff, not_not]
  exact List.eq_nil_of_length_eq_zero (by omega)

theorem Accepts.harmless (accepts : Accepts (.object members) options) : Harmless members := by
  cases accepts with
  | @map _ selector given known elements data =>
    rintro before m after rfl p offends
    cases offends with
    | unknown no neither =>
      rcases known _ (List.mem_append_right before List.mem_cons_self) with same | same
      · exact no same
      · exact neither same
    | repeated which again =>
      rcases which with rfl | rfl
      · exact not_repeated (by rw [elements]; simp) again
      · exact not_repeated (by rw [data]; cases given <;> simp) again
    | untyped fresh other =>
      rw [mem_keys_iff, not_not] at fresh
      rw [valuesOf_split, fresh] at elements
      exact other selector (List.cons.inj elements).1

theorem Accepts.not_rejects (accepts : Accepts json options) : ¬Rejects json p := by
  intro rejects
  cases rejects with
  | member harmless offends => exact accepts.harmless _ _ _ rfl _ offends
  | missing _ lacking =>
    cases accepts with
    | map _ elements =>
      rw [mem_keys_iff, elements, not_not] at lacking
      cases lacking
  | empty => cases accepts
  | first other => cases accepts <;> exact other _ rfl
  | other items members =>
    cases accepts with
    | map => exact members _ rfl
    | single | pair => exact items _ rfl

theorem Rejects.of_object (rejects : Rejects (.object members) p) :
    (∃ before m after, members = before ++ m :: after ∧ Harmless before ∧ Offends before m p) ∨
      (Harmless members ∧ p = .missingElement) := by
  generalize same : Json.object members = json at rejects
  cases rejects with
  | member harmless offends =>
    exact .inl ⟨_, _, _, Json.object.inj same, harmless, offends⟩
  | missing harmless lacking =>
    cases same
    exact .inr ⟨harmless, rfl⟩
  | empty | first => cases same
  | other _ members => exact absurd same.symm (members _)

theorem Rejects.unique (one : Rejects json p) (other : Rejects json q) : p = q := by
  cases json with
  | object members =>
    rcases one.of_object with ⟨before, m, after, split, harmless, offends⟩ | ⟨harmless, rfl⟩ <;>
      rcases other.of_object with
        ⟨before', m', after', split', harmless', offends'⟩ | ⟨harmless', rfl⟩
    · exact first_offence_unique harmless offends harmless' offends' (split.symm.trans split')
    · exact absurd offends (harmless' before m after split p)
    · exact absurd offends' (harmless before' m' after' split' q)
    · rfl
  | array items =>
    cases one with
    | empty =>
      cases other with
      | empty => rfl
      | other items => exact absurd rfl (items _)
    | first =>
      cases other with
      | first => rfl
      | other items => exact absurd rfl (items _)
    | other items => exact absurd rfl (items _)
  | _ =>
    cases one
    cases other
    rfl

theorem Overlong.not_accepts (overlong : Overlong json) : ¬Accepts json o := by
  obtain ⟨_, _, _, _, rfl⟩ := overlong
  nofun

theorem Overlong.not_rejects (overlong : Overlong json) : ¬Rejects json p := by
  obtain ⟨selector, _, _, _, rfl⟩ := overlong
  intro rejects
  cases rejects with
  | first other => exact other selector rfl
  | other items => exact items _ rfl

theorem Accepts.perm (accepts : Accepts (.object members) options) (perm : members.Perm members') :
    Accepts (.object members') options := by
  have same : ∀ key, (valuesOf key members').Perm (valuesOf key members) := fun key =>
    (perm.symm.filter _).map _
  cases accepts with
  | @map _ selector given known elements data =>
    refine .map (fun m member => known m (perm.mem_iff.mpr member)) ?_ ?_
    · exact List.perm_singleton.mp (elements ▸ same "el")
    · have found := data ▸ same "data"
      cases given with
      | none => exact List.perm_nil.mp found
      | some json => exact List.perm_singleton.mp found

end Verdicts

/-- How a text that holds the document is judged. -/
structure Judgement (text : String) (json : Json) : Prop where
  /-- Sets of options are accepted, with the values they hold, and nothing else is. -/
  accepted : ∀ options, parse text = .ok options ↔ Accepts json options
  /-- The members of other sets may stand in another order. -/
  unordered : ∀ members, json = .object members → ∀ other members',
    Json.parse other = .ok (.object members') → members.Perm members' →
    ∀ options, parse text = .ok options ↔ parse other = .ok options
  /-- A refusal reports what is wrong with the document. -/
  refused : ∀ p, (∃ position, parse text = .error (.invalid p position)) ↔ Rejects json p
  /-- It names a place within the member that offends first. -/
  placed : ∀ members p position, json = .object members → p ≠ .missingElement →
    parse text = .error (.invalid p position) → ∃ read unread, text.toList = read ++ unread ∧
      position = positionAfter read ∧ Blames text.toList members p unread
  /-- A sequence that goes on after the data is no document as far as options are concerned. -/
  overlong : parse text = .error .malformed ↔ Overlong json
  /-- Nothing is missing at the end. -/
  entire : parse text ≠ .error .truncated

/-- The cases of what a readable text is judged to be. -/
theorem parse_cases (readable : Json.parse text = .ok json) :
    (∃ options, parse text = .ok options ∧ Accepts json options) ∨
    (∃ p read unread, parse text = .error (.invalid p (positionAfter read)) ∧ Rejects json p ∧
      text.toList = read ++ unread ∧ ∀ members, json = .object members → p ≠ .missingElement →
        Blames text.toList members p unread) ∨
    (parse text = .error .malformed ∧ Overlong json) := by
  obtain ⟨rest, reads, ends⟩ := Json.parse_eq_ok_iff.mp readable
  have decides := readOptions_decides reads
  generalize computed : readOptions text.toList = result at decides
  cases decides with
  | @accepts options accepts =>
    refine .inl ⟨options, ?_, accepts⟩
    simp only [parse, computed, ends]
  | @rejects p unread rejects within blames =>
    obtain ⟨read, split⟩ := within
    have reached : text.toList.take (text.toList.length - unread.length) = read := by
      rw [← split, List.length_append, Nat.add_sub_cancel, List.take_left]
    refine .inr (.inl ⟨p, read, unread, ?_, rejects, split.symm, blames⟩)
    simp only [parse, computed, Refusal.error, reached]
  | overlong overlong =>
    refine .inr (.inr ⟨?_, overlong⟩)
    simp only [parse, computed, Refusal.error]

theorem accepted_iff (readable : Json.parse text = .ok json) :
    parse text = .ok options ↔ Accepts json options := by
  rcases parse_cases readable with ⟨o, result, accepts⟩ | ⟨p, read, _, result, rejects, -⟩ |
    ⟨result, overlong⟩
  · rw [result]
    constructor
    · intro same
      cases same
      exact accepts
    · intro other
      rw [accepts.unique other]
  · rw [result]
    exact ⟨nofun, fun accepts => absurd rejects accepts.not_rejects⟩
  · rw [result]
    exact ⟨nofun, fun accepts => absurd accepts overlong.not_accepts⟩

theorem refused_iff (readable : Json.parse text = .ok json) :
    (∃ position, parse text = .error (.invalid p position)) ↔ Rejects json p := by
  rcases parse_cases readable with ⟨o, result, accepts⟩ | ⟨q, read, _, result, rejects, -⟩ |
    ⟨result, overlong⟩
  · rw [result]
    exact ⟨fun ⟨_, other⟩ => (nomatch other), fun rejects => absurd rejects accepts.not_rejects⟩
  · rw [result]
    constructor
    · rintro ⟨_, same⟩
      cases same
      exact rejects
    · intro other
      rw [rejects.unique other]
      exact ⟨_, rfl⟩
  · rw [result]
    exact ⟨fun ⟨_, other⟩ => (nomatch other), fun rejects => absurd rejects overlong.not_rejects⟩

theorem overlong_iff (readable : Json.parse text = .ok json) :
    parse text = .error .malformed ↔ Overlong json := by
  rcases parse_cases readable with ⟨o, result, accepts⟩ | ⟨p, read, _, result, rejects, -⟩ |
    ⟨result, overlong⟩
  · rw [result]
    exact ⟨nofun, fun overlong => absurd accepts overlong.not_accepts⟩
  · rw [result]
    exact ⟨nofun, fun overlong => absurd rejects overlong.not_rejects⟩
  · exact ⟨fun _ => overlong, fun _ => result⟩

/-- Options are read from a text as the document in it says, whatever the number and the order of its
members. -/
theorem parse_judges (readable : Json.parse text = .ok json) : Judgement text json where
  accepted _ := accepted_iff readable
  unordered := by
    rintro members rfl other members' readable' perm options
    rw [accepted_iff readable, accepted_iff readable']
    exact ⟨fun accepts => accepts.perm perm, fun accepts => accepts.perm perm.symm⟩
  refused _ := refused_iff readable
  placed := by
    rintro members p position rfl present result
    rcases parse_cases readable with
      ⟨o, accepted, -⟩ | ⟨q, read, unread, refused, -, split, blames⟩ | ⟨overlong, -⟩
    · cases result.symm.trans accepted
    · cases result.symm.trans refused
      exact ⟨read, unread, split, rfl, blames members rfl present⟩
    · cases result.symm.trans overlong
  overlong := overlong_iff readable
  entire := by
    rcases parse_cases readable with ⟨o, result, -⟩ | ⟨q, read, _, result, -⟩ | ⟨result, -⟩ <;>
      rw [result] <;> nofun

/-- The data comes first, with a key twice inside, and a key is escaped. -/
def scrambled : String :=
  " \x7b \"data\" : \x7b \"el\": [1, \x7b\x7d], \"el\": null \x7d,\n \"\\u0065l\": \"#app\" \x7d "

/-- The same members the other way round. -/
def tidy : String := "\x7b\"el\":\"#app\",\"data\":\x7b\"el\":[1,\x7b\x7d],\"el\":null\x7d\x7d"

/-- Three members offend, and the first of them is not the one that lacks a string. -/
def spoiled : String := "\x7b\"data\":[\"el\"],\"data\":\x7b\x7d,\"el\":7,\"mode\":null\x7d"

def scrambledData : Json :=
  .object [("el", .array [.number (.integer 1), .object []]), ("el", .null)]

theorem scrambled_options_are_judged :
    Json.parse scrambled = .ok (.object [("data", scrambledData), ("el", .string "#app")]) ∧
    parse scrambled = .ok ⟨"#app", scrambledData⟩ ∧
    Json.parse tidy = .ok (.object [("el", .string "#app"), ("data", scrambledData)]) ∧
    parse tidy = .ok ⟨"#app", scrambledData⟩ ∧
    Json.parse spoiled = .ok (.object [("data", .array [.string "el"]), ("data", .object []),
      ("el", .number (.integer 7)), ("mode", .null)]) ∧
    ∃ position, parse spoiled = .error (.invalid (.repeatedMember "data") position) := by
  have first : Json.parse scrambled = .ok (.object [("data", scrambledData),
      ("el", .string "#app")]) := by cbv
  have second : Json.parse tidy = .ok (.object [("el", .string "#app"),
      ("data", scrambledData)]) := by cbv
  have third : Json.parse spoiled = .ok (.object [("data", .array [.string "el"]),
      ("data", .object []), ("el", .number (.integer 7)), ("mode", .null)]) := by cbv
  have accepted : parse scrambled = .ok ⟨"#app", scrambledData⟩ :=
    ((parse_judges first).accepted _).mpr Seen.nil.add_data.add_element.accepts
  refine ⟨first, accepted, second, ?_, third, ?_⟩
  · exact ((parse_judges first).unordered _ rfl tidy _ second (List.Perm.swap _ _ _) _).mp accepted
  · exact ((parse_judges third).refused _).mpr
      (.member Seen.nil.add_data.harmless (.repeated (.inr rfl) (by simp)))

end Options
end DataBinding
