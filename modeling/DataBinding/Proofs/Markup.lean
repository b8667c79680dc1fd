import DataBinding.Proofs.Trees

/-! Markup loses nothing. A reader that goes through it character by character finds the tree
again, whatever characters the texts and the attribute values hold. All that it cannot see is
where one text ends and the next one begins, and texts that are empty. -/
namespace DataBinding

namespace Text

/-- What was escaped: an entity stands for one character, every other character for itself. -/
def unescape : List Char → List Char
  | '&' :: 'a' :: 'm' :: 'p' :: ';' :: rest => '&' :: unescape rest
  | '&' :: 'l' :: 't' :: ';' :: rest => '<' :: unescape rest
  | '&' :: 'g' :: 't' :: ';' :: rest => '>' :: unescape rest
  | '&' :: 'q' :: 'u' :: 'o' :: 't' :: ';' :: rest => '"' :: unescape rest
  | c :: rest => c :: unescape rest
  | [] => []

/-- Only the ampersand begins an entity. -/
theorem unescape_cons (plain : c ≠ '&') (rest : List Char) :
    unescape (c :: rest) = c :: unescape rest := by
  rw [unescape] <;> simp_all

theorem unescape_flatMap {escape : Char → List Char}
    (each : ∀ c rest, unescape (escape c ++ rest) = c :: unescape rest) (text : List Char) :
    unescape (text.flatMap escape) = text := by
  induction text with
  | nil => rfl
  | cons c rest ih => rw [List.flatMap_cons, each, ih]

theorem unescape_escapeDataChar (c : Char) (rest : List Char) :
    unescape (escapeDataChar c ++ rest) = c :: unescape rest := by
  unfold escapeDataChar
  split
  · subst c; rfl
  · rename_i plain
    split
    · subst c; rfl
    · split
      · subst c; rfl
      · exact unescape_cons plain rest

theorem unescape_escapeAttributeChar (c : Char) (rest : List Char) :
    unescape (escapeAttributeChar c ++ rest) = c :: unescape rest := by
  unfold escapeAttributeChar
  split
  · subst c; rfl
  · rename_i plain
    split
    · subst c; rfl
    · exact unescape_cons plain rest

/-- Character data never opens a tag. -/
theorem bracket_not_mem_escapeData (text : List Char) : '<' ∉ text.flatMap escapeDataChar := by
  intro member
  obtain ⟨c, -, among⟩ := List.mem_flatMap.mp member
  unfold escapeDataChar at among
  split at among
  · simp at among
  · split at among
    · simp at among
    · rename_i other
      split at among
      · simp at among
      · exact other (List.mem_singleton.mp among).symm

/-- An attribute value never ends before its quote. -/
theorem quote_not_mem_escapeAttribute (text : List Char) :
    '"' ∉ text.flatMap escapeAttributeChar := by
  intro member
  obtain ⟨c, -, among⟩ := List.mem_flatMap.mp member
  unfold escapeAttributeChar at among
  split at among
  · simp at among
  · split at among
    · simp at among
    · rename_i other
      exact other (List.mem_singleton.mp among).symm

end Text

namespace Tree

/-- A text, unless it is empty. -/
def ofText (text : List Char) : List Tree :=
  if text = [] then [] else [.text (String.ofList text)]

/-- Siblings that follow a text. Texts side by side become one, and empty ones disappear. -/
def join (text : List Char) : List Tree → List Tree
  | [] => ofText text
  | .text content :: rest => join (text ++ content.toList) rest
  | .element tag attributes children :: rest =>
    ofText text ++ .element tag attributes children :: join [] rest

mutual

/-- The tree with its texts joined below every element. -/
def normalize : Tree → Tree
  | .text content => .text content
  | .element tag attributes children => .element tag attributes (join [] (normalizeAll children))

def normalizeAll : List Tree → List Tree
  | [] => []
  | t :: rest => t.normalize :: normalizeAll rest

end

/-- Siblings as markup can show them: with their texts joined on every level. -/
def normalForm (trees : List Tree) : List Tree := join [] (normalizeAll trees)

mutual

/-- The elements of a tree with all their attributes, without the texts. -/
def elements : Tree → List Tree
  | .text _ => []
  | .element tag attributes children => [.element tag attributes (allElements children)]

def allElements : List Tree → List Tree
  | [] => []
  | t :: rest => t.elements ++ allElements rest

end

theorem allElements_ofText (text : List Char) : allElements (ofText text) = [] := by
  unfold ofText
  split <;> rfl

theorem allElements_append (first second : List Tree) :
    allElements (first ++ second) = allElements first ++ allElements second := by
  induction first with
  | nil => rfl
  | cons t rest ih => simp [allElements, ih]

/-- Joining texts concerns no element. -/
theorem allElements_join (text : List Char) (trees : List Tree) :
    allElements (join text trees) = allElements trees := by
  induction trees generalizing text with
  | nil => simp [join, allElements_ofText, allElements]
  | cons t rest ih =>
    cases t with
    | text content => simp [join, ih, allElements, elements]
    | element tag attributes children =>
      simp [join, ih, allElements, allElements_append, allElements_ofText]

mutual

theorem elements_normalize : (t : Tree) → t.normalize.elements = t.elements
  | .text _ => rfl
  | .element tag attributes children => by
    rw [normalize, elements, elements, allElements_join, allElements_normalizeAll children]

theorem allElements_normalizeAll : (trees : List Tree) →
    allElements (normalizeAll trees) = allElements trees
  | [] => rfl
  | t :: rest => by
    rw [normalizeAll, allElements, allElements, elements_normalize t, allElements_normalizeAll rest]

end

/-- The elements of the normal form are those of the trees. -/
theorem allElements_normalForm (trees : List Tree) :
    allElements (normalForm trees) = allElements trees := by
  rw [normalForm, allElements_join, allElements_normalizeAll]

/-- A name that can be told from what stands around it in a tag. Of all white space only the
space itself would do harm. -/
def IsName (name : String) : Prop :=
  name ≠ "" ∧ ∀ c ∈ name.toList, c ∉ [' ', '<', '>', '/', '=', '"']

mutual

/-- All tags and attributes have such names. -/
def Named : Tree → Prop
  | .text _ => True
  | .element tag attributes children =>
    IsName tag ∧ (∀ a ∈ attributes, IsName a.name) ∧ AllNamed children

def AllNamed : List Tree → Prop
  | [] => True
  | t :: rest => t.Named ∧ AllNamed rest

end

end Tree

namespace Markup

/-- An element whose end tag has not come yet. -/
structure Opened where
  /-- The siblings before it. -/
  before : List Tree
  tag : List Char
  attributes : List Attribute

/-- Where a reader stands, with what it has read there so far. -/
inductive Place where
  /-- Between tags. -/
  | data (raw : List Char)
  /-- Behind the bracket that opens a tag. -/
  | bracket
  | startTag (name : List Char)
  | attribute (tag : List Char) (attributes : List Attribute) (name : List Char)
  /-- Before the quote that opens a value. -/
  | equals (tag : List Char) (attributes : List Attribute) (name : List Char)
  | value (tag : List Char) (attributes : List Attribute) (name raw : List Char)
  /-- Behind the quote that closes a value. -/
  | quoted (tag : List Char) (attributes : List Attribute)
  | endTag (name : List Char)

/-- A reader of markup. -/
structure Reader where
  /-- The elements around it, the innermost first. -/
  opened : List Opened := []
  /-- What has been read in the innermost of them. -/
  trees : List Tree := []
  place : Place := .data []

namespace Reader

/-- Begins with what stands below an element. -/
def enter (r : Reader) (tag : List Char) (attributes : List Attribute) : Reader :=
  { opened := ⟨r.trees, tag, attributes⟩ :: r.opened, trees := [], place := .data [] }

/-- Closes the innermost element, which must have the given tag. -/
def leave (r : Reader) (tag : List Char) : Option Reader :=
  match r.opened with
  | [] => none
  | e :: outer =>
    if e.tag = tag then some
      { opened := outer
        trees := e.before ++ [.element (String.ofList e.tag) e.attributes r.trees]
        place := .data [] }
    else none

/-- Reads one character; `none` if it cannot stand there. -/
def read (r : Reader) (c : Char) : Option Reader :=
  match r.place with
  | .data raw =>
    if c = '<' then
      some { r with trees := r.trees ++ Tree.ofText (Text.unescape raw), place := .bracket }
    else some { r with place := .data (raw ++ [c]) }
  | .bracket =>
    if c = '/' then some { r with place := .endTag [] } else some { r with place := .startTag [c] }
  | .startTag name =>
    if c = ' ' then some { r with place := .attribute name [] [] }
    else if c = '>' then some (r.enter name [])
    else some { r with place := .startTag (name ++ [c]) }
  | .attribute tag attributes name =>
    if c = '=' then some { r with place := .equals tag attributes name }
    else some { r with place := .attribute tag attributes (name ++ [c]) }
  | .equals tag attributes name =>
    if c = '"' then some { r with place := .value tag attributes name [] } else none
  | .value tag attributes name raw =>
    if c = '"' then
      let a : Attribute := ⟨String.ofList name, String.ofList (Text.unescape raw)⟩
      some { r with place := .quoted tag (attributes ++ [a]) }
    else some { r with place := .value tag attributes name (raw ++ [c]) }
  | .quoted tag attributes =>
    if c = ' ' then some { r with place := .attribute tag attributes [] }
    else if c = '>' then some (r.enter tag attributes)
    else none
  | .endTag name =>
    if c = '>' then r.leave name else some { r with place := .endTag (name ++ [c]) }

/-- What has been read, if no element is open. -/
def finish (r : Reader) : Option (List Tree) :=
  match r.opened, r.place with
  | [], .data raw => some (r.trees ++ Tree.ofText (Text.unescape raw))
  | _, _ => none

end Reader

/-- The trees that a markup text shows; `none` if it is not well-formed. -/
def parse (text : String) : Option (List Tree) :=
  (text.toList.foldlM Reader.read {}).bind Reader.finish

section Reading

variable {opened : List Opened} {trees : List Tree}

/-- A reader stays in a place as long as nothing ends it. -/
private theorem read_all (place : List Char → Place) {cs : List Char}
    (stays : ∀ raw, ∀ c ∈ cs, Reader.read ⟨opened, trees, place raw⟩ c =
      some ⟨opened, trees, place (raw ++ [c])⟩) (raw : List Char) :
    cs.foldlM Reader.read ⟨opened, trees, place raw⟩ = some ⟨opened, trees, place (raw ++ cs)⟩ := by
  induction cs generalizing raw with
  | nil => simp
  | cons c rest ih =>
    rw [List.foldlM_cons, stays raw c List.mem_cons_self]
    have later := ih (fun raw c member => stays raw c (List.mem_cons_of_mem _ member)) (raw ++ [c])
    simpa using later

private theorem read_data {cs : List Char} (plain : '<' ∉ cs) (raw : List Char) :
    cs.foldlM Reader.read ⟨opened, trees, .data raw⟩ = some ⟨opened, trees, .data (raw ++ cs)⟩ := by
  refine read_all .data (fun raw c member => ?_) raw
  have other : c ≠ '<' := fun same => plain (same ▸ member)
  simp [Reader.read, other]

/-- A start tag up to the end of its name. -/
private theorem read_startTag {tag : String} (named : Tree.IsName tag) :
    tag.toList.foldlM Reader.read ⟨opened, trees, .bracket⟩ =
      some ⟨opened, trees, .startTag tag.toList⟩ := by
  obtain ⟨nonempty, apart⟩ := named
  cases listed : tag.toList with
  | nil => exact absurd (String.toList_eq_nil_iff.mp listed) nonempty
  | cons first rest =>
    rw [listed] at apart
    have slash : first ≠ '/' := fun same => apart first List.mem_cons_self (by simp [same])
    have begun : Reader.read ⟨opened, trees, .bracket⟩ first =
        some ⟨opened, trees, .startTag [first]⟩ := by
      simp [Reader.read, slash]
    rw [List.foldlM_cons, begun]
    refine read_all .startTag (fun raw c member => ?_) [first]
    have other := apart c (List.mem_cons_of_mem _ member)
    simp only [List.mem_cons, not_or] at other
    simp [Reader.read, other]

private theorem read_endTag {tag : String} (named : Tree.IsName tag) :
    tag.toList.foldlM Reader.read ⟨opened, trees, .endTag []⟩ =
      some ⟨opened, trees, .endTag tag.toList⟩ := by
  refine read_all .endTag (fun raw c member => ?_) []
  have other := named.2 c member
  simp only [List.mem_cons, not_or] at other
  simp [Reader.read, other]

/-- One attribute, from the space before it to the quote behind it. -/
private theorem read_attribute {a : Attribute} (named : Tree.IsName a.name)
    (tag : List Char) (before : List Attribute) {place : Place}
    (space : Reader.read ⟨opened, trees, place⟩ ' ' =
      some ⟨opened, trees, .attribute tag before []⟩) :
    (Tree.attributeMarkup a).foldlM Reader.read ⟨opened, trees, place⟩ =
      some ⟨opened, trees, .quoted tag (before ++ [a])⟩ := by
  have name : a.name.toList.foldlM Reader.read ⟨opened, trees, .attribute tag before []⟩ =
      some ⟨opened, trees, .attribute tag before a.name.toList⟩ := by
    refine read_all (.attribute tag before) (fun raw c member => ?_) []
    have other := named.2 c member
    simp only [List.mem_cons, not_or] at other
    simp [Reader.read, other]
  have value : (a.value.toList.flatMap Text.escapeAttributeChar).foldlM Reader.read
      ⟨opened, trees, .value tag before a.name.toList []⟩ = some ⟨opened, trees,
        .value tag before a.name.toList (a.value.toList.flatMap Text.escapeAttributeChar)⟩ := by
    refine read_all (.value tag before a.name.toList) (fun raw c member => ?_) []
    have other : c ≠ '"' := fun same =>
      Text.quote_not_mem_escapeAttribute a.value.toList (same ▸ member)
    simp [Reader.read, other]
  have equals : Reader.read ⟨opened, trees, .attribute tag before a.name.toList⟩ '=' =
      some ⟨opened, trees, .equals tag before a.name.toList⟩ := rfl
  have quote : Reader.read ⟨opened, trees, .equals tag before a.name.toList⟩ '"' =
      some ⟨opened, trees, .value tag before a.name.toList []⟩ := rfl
  have decoded := Text.unescape_flatMap Text.unescape_escapeAttributeChar a.value.toList
  simp only [Tree.attributeMarkup, Text.escapeAttribute, String.toList_ofList, List.cons_append,
    List.append_assoc, List.nil_append, List.foldlM_cons, List.foldlM_append, space, name, equals,
    quote, value, Option.bind_eq_bind, Option.bind_some]
  simp [Reader.read, decoded]

/-- The attributes of a start tag and the bracket that closes it. -/
private theorem read_attributes {attributes : List Attribute}
    (named : ∀ a ∈ attributes, Tree.IsName a.name) (tag : List Char) (before : List Attribute)
    (place : Place) (space : Reader.read ⟨opened, trees, place⟩ ' ' =
      some ⟨opened, trees, .attribute tag before []⟩)
    (close : Reader.read ⟨opened, trees, place⟩ '>' =
      some (Reader.enter ⟨opened, trees, place⟩ tag before)) :
    (attributes.flatMap Tree.attributeMarkup ++ ['>']).foldlM Reader.read ⟨opened, trees, place⟩ =
      some ⟨⟨trees, tag, before ++ attributes⟩ :: opened, [], .data []⟩ := by
  induction attributes generalizing before place with
  | nil => simp [close, Reader.enter]
  | cons a rest ih =>
    have here := read_attribute (named a List.mem_cons_self) tag before space
    have later := ih (fun a member => named a (List.mem_cons_of_mem _ member)) (before ++ [a])
      (.quoted tag (before ++ [a])) rfl rfl
    rw [List.flatMap_cons, List.append_assoc, List.foldlM_append, here, Option.bind_eq_bind,
      Option.bind_some, later]
    simp

/-- The bracket that opens a tag ends the text before it. -/
private theorem read_bracket (text : List Char) :
    Reader.read ⟨opened, trees, .data (text.flatMap Text.escapeDataChar)⟩ '<' =
      some ⟨opened, trees ++ Tree.ofText text, .bracket⟩ := by
  simp [Reader.read, Text.unescape_flatMap Text.unescape_escapeDataChar]

private theorem read_opening {tag : String} {attributes : List Attribute}
    (tagged : Tree.IsName tag) (named : ∀ a ∈ attributes, Tree.IsName a.name) (text : List Char) :
    ('<' :: (tag.toList ++ (attributes.flatMap Tree.attributeMarkup ++ ['>']))).foldlM Reader.read
        ⟨opened, trees, .data (text.flatMap Text.escapeDataChar)⟩ =
      some ⟨⟨trees ++ Tree.ofText text, tag.toList, attributes⟩ :: opened, [], .data []⟩ := by
  rw [List.foldlM_cons, read_bracket, Option.bind_eq_bind, Option.bind_some, List.foldlM_append,
    read_startTag tagged, Option.bind_eq_bind, Option.bind_some,
    read_attributes named tag.toList [] (.startTag tag.toList) rfl rfl, List.nil_append]

private theorem read_closing {tag : String} (tagged : Tree.IsName tag) (before : List Tree)
    (attributes : List Attribute) (text : List Char) :
    ('<' :: '/' :: (tag.toList ++ ['>'])).foldlM Reader.read
        ⟨⟨before, tag.toList, attributes⟩ :: opened, trees,
          .data (text.flatMap Text.escapeDataChar)⟩ =
      some ⟨opened, before ++ [.element tag attributes (trees ++ Tree.ofText text)], .data []⟩ := by
  rw [List.foldlM_cons, read_bracket, Option.bind_eq_bind, Option.bind_some, List.foldlM_cons,
    show Reader.read _ '/' = some _ from rfl, Option.bind_eq_bind, Option.bind_some,
    List.foldlM_append, read_endTag tagged, Option.bind_eq_bind, Option.bind_some]
  simp [Reader.read, Reader.leave]

/-- Some markup is read as these trees: behind a text, they are added to what there was. -/
private def ReadsAs (markup : List Char) (added : List Tree) : Prop :=
  ∀ opened trees (text : List Char), ∃ trees' text',
    markup.foldlM Reader.read ⟨opened, trees, .data (text.flatMap Text.escapeDataChar)⟩ =
      some ⟨opened, trees', .data (text'.flatMap Text.escapeDataChar)⟩ ∧
    ∀ later, trees' ++ Tree.join text' later = trees ++ Tree.join text (added ++ later)

private theorem ReadsAs.append {first second : List Char} {trees more : List Tree}
    (reads : ReadsAs first trees) (reads' : ReadsAs second more) :
    ReadsAs (first ++ second) (trees ++ more) := by
  intro opened before text
  obtain ⟨before', text', here, joined⟩ := reads opened before text
  obtain ⟨before'', text'', next, joined'⟩ := reads' opened before' text'
  refine ⟨before'', text'', ?_, fun later => ?_⟩
  · rw [List.foldlM_append, here, Option.bind_eq_bind, Option.bind_some, next]
  · rw [joined', joined, List.append_assoc]

private theorem readsAs_text (content : String) :
    ReadsAs (Tree.text content).markup [.text content] := by
  intro opened trees text
  refine ⟨trees, text ++ content.toList, ?_, fun later => rfl⟩
  rw [Tree.markup, Text.escapeData, String.toList_ofList,
    read_data (Text.bracket_not_mem_escapeData _), List.flatMap_append]

private theorem readsAs_element {tag : String} {attributes : List Attribute} {below : List Char}
    {children : List Tree} (tagged : Tree.IsName tag)
    (named : ∀ a ∈ attributes, Tree.IsName a.name) (reads : ReadsAs below children) :
    ReadsAs ('<' :: tag.toList ++ attributes.flatMap Tree.attributeMarkup ++ ['>'] ++ below ++
      ['<', '/'] ++ tag.toList ++ ['>']) [.element tag attributes (Tree.join [] children)] := by
  intro opened trees text
  obtain ⟨trees', text', inside, joined⟩ :=
    reads (⟨trees ++ Tree.ofText text, tag.toList, attributes⟩ :: opened) [] []
  -- What has been read below the element when its end tag comes.
  have whole : trees' ++ Tree.ofText text' = Tree.join [] children := by
    simpa [Tree.join] using joined []
  have parts : '<' :: tag.toList ++ attributes.flatMap Tree.attributeMarkup ++ ['>'] ++ below ++
      ['<', '/'] ++ tag.toList ++ ['>'] =
        '<' :: (tag.toList ++ (attributes.flatMap Tree.attributeMarkup ++ ['>'])) ++
          (below ++ '<' :: '/' :: (tag.toList ++ ['>'])) := by simp
  refine ⟨trees ++ Tree.ofText text ++ [.element tag attributes (Tree.join [] children)], [], ?_,
    fun later => by simp [Tree.join, Tree.ofText]⟩
  rw [List.flatMap_nil] at inside
  rw [parts, List.foldlM_append, read_opening tagged named, Option.bind_eq_bind, Option.bind_some,
    List.foldlM_append, inside, Option.bind_eq_bind, Option.bind_some, read_closing tagged, whole,
    List.flatMap_nil]

mutual

private theorem readsAs_markup : (t : Tree) → t.Named → ReadsAs t.markup [t.normalize]
  | .text content, _ => readsAs_text content
  | .element _ _ children, ⟨tagged, named, below⟩ =>
    readsAs_element tagged named (readsAs_markups children below)

private theorem readsAs_markups : (trees : List Tree) → Tree.AllNamed trees →
    ReadsAs (Tree.markups trees) (Tree.normalizeAll trees)
  | [], _ => fun _ trees text => ⟨trees, text, rfl, fun _ => rfl⟩
  | t :: rest, ⟨named, more⟩ => (readsAs_markup t named).append (readsAs_markups rest more)

end

/-- Reading the markup of a tree gives its normal form. -/
theorem parse_markup {t : Tree} (named : t.Named) :
    parse (String.ofList t.markup) = some (Tree.normalForm [t]) := by
  obtain ⟨trees, text, read, joined⟩ := readsAs_markup t named [] [] []
  rw [List.flatMap_nil] at read
  have whole : trees ++ Tree.ofText text = Tree.join [] [t.normalize] := by
    simpa [Tree.join] using joined []
  rw [parse, String.toList_ofList, read, Option.bind_some]
  simp only [Reader.finish, Text.unescape_flatMap Text.unescape_escapeDataChar, whole]
  rfl

end Reading

end Markup

namespace World

theorem outerMarkup_of_stands {w : World} (stands : w.Stands n t) :
    w.outerMarkup n = String.ofList t.markup := by
  rw [outerMarkup, tree?_eq_some_iff.mpr stands]
  rfl

/-- From the markup of a node the tree that stands there is read back up to its normal form, with
exactly its elements. So nodes with the same markup differ in nothing else, and no text and no
value of an attribute can pass for a part of the markup. -/
theorem markup_loses_nothing {w : World} (stands : w.Stands n t) (named : t.Named) :
    Markup.parse (w.outerMarkup n) = some (Tree.normalForm [t]) ∧
    Tree.allElements (Tree.normalForm [t]) = t.elements ∧
    ∀ (w' : World) (n' : NodeId) (t' : Tree), w'.Stands n' t' → t'.Named →
      w'.outerMarkup n' = w.outerMarkup n → Tree.normalForm [t'] = Tree.normalForm [t] := by
  have read : ∀ (w : World) n t, w.Stands n t → t.Named →
      Markup.parse (w.outerMarkup n) = some (Tree.normalForm [t]) := by
    intro w n t stands named
    rw [outerMarkup_of_stands stands, Markup.parse_markup named]
  refine ⟨read w n t stands named, ?_, ?_⟩
  · rw [Tree.allElements_normalForm, Tree.allElements, Tree.allElements, List.append_nil]
  · intro w' n' t' stands' named' same
    have here := read w n t stands named
    rw [← same, read w' n' t' stands' named'] at here
    exact Option.some.inj here

/-- A page whose texts and values look like markup. One text is empty, one stands at two places. -/
def deceptive : World :=
  let (w, text) := newNode {} (.text "&lt;/p></p>\"")
  let (w, empty) := w.newNode (.text "")
  let (w, more) := w.newNode (.text "<p title=\"\">")
  let (w, leaf) := w.newNode (.element { tag := "b" })
  (w.newNode (.element
    { tag := "p"
      attributes := [⟨"title", "a\"><p id=\"&quot;"⟩, ⟨"id", "</p>"⟩]
      children := [text, empty, more, leaf, text] })).1

/-- What stands on it. -/
def deceptiveTree : Tree :=
  .element "p" [⟨"title", "a\"><p id=\"&quot;"⟩, ⟨"id", "</p>"⟩]
    [.text "&lt;/p></p>\"", .text "", .text "<p title=\"\">", .element "b" [] [],
      .text "&lt;/p></p>\""]

/-- The texts before the leaf become one, and nothing else is lost. -/
theorem deceptive_markup_loses_nothing :
    deceptive.Stands ⟨4⟩ deceptiveTree ∧ deceptiveTree.Named ∧
    Markup.parse (deceptive.outerMarkup ⟨4⟩) = some [.element "p"
      [⟨"title", "a\"><p id=\"&quot;"⟩, ⟨"id", "</p>"⟩]
      [.text "&lt;/p></p>\"<p title=\"\">", .element "b" [] [], .text "&lt;/p></p>\""]] := by
  have stands : deceptive.Stands ⟨4⟩ deceptiveTree := tree?_eq_some_iff.mp (by cbv)
  have named : deceptiveTree.Named := by
    simp [deceptiveTree, Tree.Named, Tree.AllNamed, Tree.IsName]
  exact ⟨stands, named, (markup_loses_nothing stands named).1.trans (by cbv)⟩

end World
end DataBinding
