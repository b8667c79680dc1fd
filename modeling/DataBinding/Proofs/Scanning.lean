import DataBinding.Text.Interpolation
import Mathlib.Data.List.TakeWhile

/-! Scanning for an interpolation. Openings and closings may overlap, and the end of a line stops an
opening from being closed but not the next one; the scan finds the first opening that can be closed at
all, and the first place at which it can. -/
namespace DataBinding.Text

/-- What is left of the text when the blanks at both its ends are taken off. -/
def TrimsTo (text core : List Char) : Prop :=
  ∃ left right, text = left ++ core ++ right ∧ (∀ c ∈ left ++ right, isBlank c = true) ∧
    (∀ c ∈ core.head?, isBlank c = false) ∧ ∀ c ∈ core.getLast?, isBlank c = false

private theorem head?_dropWhile_blank (text : List Char) :
    ∀ c ∈ (text.dropWhile isBlank).head?, isBlank c = false := by
  intro c first
  have stays := List.head?_dropWhile_not isBlank text
  rw [Option.mem_def.mp first] at stays
  exact stays

/-- Blanks are taken off at the end. -/
private theorem trimEnd_append (text : List Char) : ∃ right, text = trimEnd text ++ right ∧
    (∀ c ∈ right, isBlank c = true) ∧ ∀ c ∈ (trimEnd text).getLast?, isBlank c = false := by
  refine ⟨(text.reverse.takeWhile isBlank).reverse, ?_, fun c member => ?_, ?_⟩
  · rw [trimEnd, ← List.reverse_append, List.takeWhile_append_dropWhile, List.reverse_reverse]
  · exact List.mem_takeWhile_imp (List.mem_reverse.mp member)
  · rw [trimEnd, List.getLast?_reverse]
    exact head?_dropWhile_blank _

theorem trimsTo_trim (text : List Char) : TrimsTo text (trim text) := by
  obtain ⟨right, split, blank, last⟩ := trimEnd_append (text.dropWhile isBlank)
  refine ⟨text.takeWhile isBlank, right, ?_, fun c member => ?_, fun c first => ?_, last⟩
  · rw [trim, List.append_assoc, ← split, List.takeWhile_append_dropWhile]
  · rcases List.mem_append.mp member with early | late
    · exact List.mem_takeWhile_imp early
    · exact blank c late
  · have kept : (trimEnd (text.dropWhile isBlank)).head? = some c := first
    apply head?_dropWhile_blank text
    rw [split, List.head?_append, kept]
    rfl

/-- Bytes are counted as UTF-8 has them. -/
theorem byteCount_eq (text : List Char) : byteCount text = (String.ofList text).utf8ByteSize := by
  induction text with
  | nil => rfl
  | cons c rest ih =>
    rw [String.ofList_cons, String.utf8ByteSize_append, String.utf8ByteSize_singleton, ← ih]
    rfl

theorem byteCount_append (before after : List Char) :
    byteCount (before ++ after) = byteCount before + byteCount after := by
  rw [byteCount_eq, byteCount_eq, byteCount_eq, String.ofList_append, String.utf8ByteSize_append]

/-- A text that is put together from two has a position where the second begins. -/
private theorem exists_splits {text : String} {before after : List Char}
    (joined : text.toList = before ++ after) :
    ∃ p : text.Pos, p.Splits (String.ofList before) (String.ofList after) ∧
      p.offset.byteIdx = byteCount before := by
  have same : text = String.ofList before ++ String.ofList after := by
    rw [← String.ofList_append, ← joined, String.ofList_toList]
  have valid : (String.ofList before).rawEndPos.IsValid text :=
    String.Pos.Raw.isValid_iff_exists_append.mpr ⟨_, _, same, rfl⟩
  exact ⟨⟨_, valid⟩, ⟨same, rfl⟩, (byteCount_eq before).symm⟩

namespace Interpolation

/-- Closing braces stand at this place, and no line ends before them. -/
structure Closes (text : List Char) (k : Nat) : Prop where
  braces : ['}', '}'] <+: text.drop k
  line : ∀ c ∈ text.take k, endsLine c = false

private theorem closes_zero {text : List Char} : Closes text 0 ↔ ['}', '}'] <+: text :=
  ⟨fun closes => closes.braces, fun braces => ⟨braces, by simp⟩⟩

private theorem closes_succ {c : Char} {rest : List Char} {k : Nat} :
    Closes (c :: rest) (k + 1) ↔ endsLine c = false ∧ Closes rest k := by
  constructor
  · rintro ⟨braces, line⟩
    rw [List.take_succ_cons] at line
    exact ⟨line c List.mem_cons_self, braces, fun x member => line x (List.mem_cons_of_mem c member)⟩
  · rintro ⟨here, braces, line⟩
    refine ⟨braces, fun x member => ?_⟩
    rw [List.take_succ_cons] at member
    rcases List.mem_cons.mp member with rfl | later
    · exact here
    · exact line x later

/-- The characters in front of the first place, from this one on, at which the text is closed, and
those behind the braces; nothing if there is no such place. -/
def ClosedFirst (text : List Char) (least : Nat) : Option (List Char × List Char) → Prop
  | none => ∀ k, least ≤ k → ¬Closes text k
  | some (inner, after) => text = inner ++ '}' :: '}' :: after ∧ least ≤ inner.length ∧
      Closes text inner.length ∧ ∀ k, least ≤ k → Closes text k → inner.length ≤ k

/-- One character more in front. -/
private theorem closedFirst_enclosed {c : Char} {rest : List Char}
    (below : ClosedFirst rest 0 (untilClosed rest)) :
    ClosedFirst (c :: rest) 1 (enclosed (c :: rest)) := by
  have later : ∀ {k}, 1 ≤ k → Closes (c :: rest) k →
      ∃ j, k = j + 1 ∧ endsLine c = false ∧ Closes rest j := by
    intro k positive closes
    obtain ⟨j, rfl⟩ := Nat.exists_eq_succ_of_ne_zero (Nat.ne_of_gt positive)
    exact ⟨j, rfl, closes_succ.mp closes⟩
  rw [enclosed]
  cases ends : endsLine c with
  | true =>
    intro k positive closes
    obtain ⟨_, -, going, -⟩ := later positive closes
    rw [ends] at going
    cases going
  | false =>
    cases found : untilClosed rest with
    | none =>
      rw [found] at below
      intro k positive closes
      obtain ⟨j, -, -, closes⟩ := later positive closes
      exact below j (Nat.zero_le j) closes
    | some split =>
      rw [found] at below
      obtain ⟨joined, -, closes, least⟩ := below
      refine ⟨congrArg (c :: ·) joined, Nat.succ_pos _, closes_succ.mpr ⟨ends, closes⟩, ?_⟩
      intro k positive closes
      obtain ⟨j, rfl, -, closes⟩ := later positive closes
      exact Nat.succ_le_succ (least j (Nat.zero_le j) closes)

/-- Where no braces stand, the text goes on as an enclosed one. -/
private theorem untilClosed_cons {c : Char} {rest : List Char} (other : ¬['}', '}'] <+: c :: rest) :
    untilClosed (c :: rest) = enclosed (c :: rest) := by
  rw [untilClosed, enclosed]
  intro after first second
  subst first second
  exact other ⟨after, rfl⟩

private theorem closedFirst_untilClosed (text : List Char) :
    ClosedFirst text 0 (untilClosed text) := by
  induction text with
  | nil =>
    intro k _ closes
    simpa using closes.braces
  | cons c rest ih =>
    by_cases here : ['}', '}'] <+: c :: rest
    · obtain ⟨after, same⟩ := here
      rw [← same]
      exact ⟨rfl, Nat.zero_le _, closes_zero.mpr ⟨after, rfl⟩, fun _ _ _ => Nat.zero_le _⟩
    · have beyond := closedFirst_enclosed (c := c) ih
      have positive : ∀ {k}, Closes (c :: rest) k → 1 ≤ k := by
        intro k closes
        cases k with
        | zero => exact absurd (closes_zero.mp closes) here
        | succ k => exact Nat.succ_pos k
      rw [untilClosed_cons here]
      cases found : enclosed (c :: rest) with
      | none =>
        rw [found] at beyond
        exact fun k _ closes => beyond k (positive closes) closes
      | some split =>
        rw [found] at beyond
        obtain ⟨joined, -, closes, least⟩ := beyond
        exact ⟨joined, Nat.zero_le _, closes, fun k _ closes => least k (positive closes) closes⟩

private theorem closedFirst_inside (text : List Char) : ClosedFirst text 1 (enclosed text) := by
  cases text with
  | nil =>
    intro k _ closes
    simpa using closes.braces
  | cons c rest => exact closedFirst_enclosed (closedFirst_untilClosed rest)

/-- Braces open at a place of a text and close at a later one: between them stands one character at
least, and none that ends a line. -/
structure Encloses (text : List Char) (i e : Nat) : Prop where
  opening : ['{', '{'] <+: text.drop i
  closing : ['}', '}'] <+: text.drop e
  apart : i + 3 ≤ e
  line : ∀ c ∈ (text.take e).drop (i + 2), endsLine c = false

private theorem encloses_iff {text : List Char} {i e : Nat} : Encloses text i e ↔
    ['{', '{'] <+: text.drop i ∧ ∃ k, 0 < k ∧ e = i + 2 + k ∧ Closes (text.drop (i + 2)) k := by
  constructor
  · rintro ⟨opening, closing, apart, line⟩
    obtain ⟨k, rfl⟩ := Nat.exists_eq_add_of_le (show i + 2 ≤ e by omega)
    refine ⟨opening, k, by omega, rfl, by rwa [List.drop_drop], ?_⟩
    rwa [List.drop_take, Nat.add_sub_cancel_left] at line
  · rintro ⟨opening, k, positive, rfl, braces, line⟩
    refine ⟨opening, by rwa [List.drop_drop] at braces, by omega, ?_⟩
    rwa [List.drop_take, Nat.add_sub_cancel_left]

private theorem encloses_succ {c : Char} {rest : List Char} {i e : Nat} :
    Encloses (c :: rest) (i + 1) (e + 1) ↔ Encloses rest i e := by
  constructor
  · rintro ⟨opening, closing, apart, line⟩
    exact ⟨opening, closing, by omega, by simpa [List.take_succ_cons] using line⟩
  · rintro ⟨opening, closing, apart, line⟩
    exact ⟨opening, closing, by omega, by simpa [List.take_succ_cons] using line⟩

/-- The opening that can be closed and stands before all others, and the first place at which it
can. -/
structure EnclosesFirst (text : List Char) (i e : Nat) : Prop extends Encloses text i e where
  leftmost : Encloses text i' e' → i ≤ i'
  shortest : Encloses text i e' → e ≤ e'

/-- A text is split at the braces that count, or nothing is enclosed in it. -/
def SplitFirst (text : List Char) : Option Interpolation → Prop
  | none => ∀ i e, ¬Encloses text i e
  | some found =>
    text = found.before ++ '{' :: '{' :: (found.inner ++ '}' :: '}' :: found.after) ∧
      EnclosesFirst text found.before.length (found.before.length + 2 + found.inner.length)

/-- The interpolation of a text with one character more in front. -/
private def behind (c : Char) (found : Interpolation) : Interpolation :=
  ⟨c :: found.before, found.inner, found.after⟩

/-- Nothing is enclosed that begins with the first character, so the scan goes on behind it. -/
private theorem splitFirst_behind {c : Char} {rest : List Char}
    (idle : ∀ e, ¬Encloses (c :: rest) 0 e) (below : SplitFirst rest (split rest)) :
    SplitFirst (c :: rest) ((split rest).map (behind c)) := by
  have later : ∀ {i e}, Encloses (c :: rest) i e →
      ∃ i' e', i = i' + 1 ∧ e = e' + 1 ∧ Encloses rest i' e' := by
    intro i e encloses
    have apart := encloses.apart
    obtain ⟨e, rfl⟩ := Nat.exists_eq_succ_of_ne_zero (show e ≠ 0 by omega)
    cases i with
    | zero => exact absurd encloses (idle _)
    | succ i => exact ⟨i, e, rfl, rfl, encloses_succ.mp encloses⟩
  cases found : split rest with
  | none =>
    rw [found] at below
    intro i e encloses
    obtain ⟨i, e, -, -, encloses⟩ := later encloses
    exact below i e encloses
  | some i =>
    rw [found] at below
    obtain ⟨joined, first⟩ := below
    have place : (c :: i.before).length + 2 + i.inner.length =
        i.before.length + 2 + i.inner.length + 1 := by
      rw [List.length_cons]
      omega
    refine ⟨congrArg (c :: ·) joined, ?_⟩
    change EnclosesFirst _ (i.before.length + 1) ((c :: i.before).length + 2 + i.inner.length)
    rw [place]
    refine ⟨encloses_succ.mpr first.toEncloses, fun encloses => ?_, fun encloses => ?_⟩
    · obtain ⟨j, e, rfl, rfl, inside⟩ := later encloses
      exact Nat.succ_le_succ (first.leftmost inside)
    · obtain ⟨j, e, same, rfl, inside⟩ := later encloses
      obtain rfl : i.before.length = j := Nat.succ.inj same
      exact Nat.succ_le_succ (first.shortest inside)

private theorem split_opening (inside : List Char) : split ('{' :: '{' :: inside) =
    match enclosed inside with
    | some (inner, after) => some ⟨[], inner, after⟩
    | none => (split ('{' :: inside)).map (behind '{') := rfl

private theorem split_other {c : Char} {rest : List Char} (other : ¬['{', '{'] <+: c :: rest) :
    split (c :: rest) = (split rest).map (behind c) := by
  rw [split]
  · rfl
  · intro inside first second
    subst first second
    exact other ⟨inside, rfl⟩

theorem splitFirst_split (text : List Char) : SplitFirst text (split text) := by
  induction text with
  | nil =>
    intro i e encloses
    simpa using encloses.opening
  | cons c rest ih =>
    by_cases opens : ['{', '{'] <+: c :: rest
    · obtain ⟨inside, same⟩ := opens
      obtain ⟨rfl, rfl⟩ : c = '{' ∧ rest = '{' :: inside := by simpa using same.symm
      have closed := closedFirst_inside inside
      rw [split_opening]
      cases found : enclosed inside with
      | none =>
        rw [found] at closed
        refine splitFirst_behind (fun e encloses => ?_) ih
        obtain ⟨-, k, positive, -, closes⟩ := encloses_iff.mp encloses
        exact closed k positive closes
      | some pair =>
        rw [found] at closed
        obtain ⟨joined, positive, closes, least⟩ := closed
        refine ⟨congrArg ('{' :: '{' :: ·) joined, ?_, fun _ => Nat.zero_le _, ?_⟩
        · exact encloses_iff.mpr ⟨⟨inside, rfl⟩, _, positive, rfl, closes⟩
        · intro e encloses
          obtain ⟨-, k, positive, rfl, closes⟩ := encloses_iff.mp encloses
          exact Nat.add_le_add_left (least k positive closes) _
    · rw [split_other opens]
      exact splitFirst_behind (fun e encloses => opens encloses.opening) ih

/-- What is found in a text: the braces that count open at the character `i` and close at `e`. -/
structure Locates (text : String) (found : Interpolation) (i e : Nat) : Prop where
  first : EnclosesFirst text.toList i e
  key : TrimsTo ((text.toList.take e).drop (i + 2)) found.key.toList
  /-- Start and end are positions of the text, counted in bytes, and a replacement comes between what
  stands before the one and behind the other. -/
  places : ∃ start stop : text.Pos,
    start.offset.byteIdx = found.start ∧ stop.offset.byteIdx = found.stop ∧
    start.Splits (String.ofList (text.toList.take i)) (String.ofList (text.toList.drop i)) ∧
    stop.Splits (String.ofList (text.toList.take (e + 2)))
      (String.ofList (text.toList.drop (e + 2))) ∧
    ∀ replacement, found.substitute replacement =
      (text.sliceTo start).copy ++ replacement ++ (text.sliceFrom stop).copy

private theorem locates_of_split {text : String} {found : Interpolation}
    (joined : text.toList =
      found.before ++ '{' :: '{' :: (found.inner ++ '}' :: '}' :: found.after))
    (first : EnclosesFirst text.toList found.before.length
      (found.before.length + 2 + found.inner.length)) :
    Locates text found found.before.length (found.before.length + 2 + found.inner.length) := by
  let opened := found.before ++ ['{', '{']
  let closed := opened ++ found.inner ++ ['}', '}']
  have whole : text.toList = closed ++ found.after := by simp [joined, closed, opened]
  have width : opened.length = found.before.length + 2 := by simp [opened]
  have upto : (opened ++ found.inner).length = found.before.length + 2 + found.inner.length := by
    rw [List.length_append, width]
  have total : closed.length = found.before.length + 2 + found.inner.length + 2 := by
    simp [closed, opened]
    omega
  obtain ⟨start, begins, startByte⟩ := exists_splits joined
  obtain ⟨stop, ends, stopByte⟩ := exists_splits whole
  refine ⟨first, ?_, start, stop, startByte, ?_, ?_, ?_, fun replacement => ?_⟩
  · have inner : (text.toList.take (found.before.length + 2 + found.inner.length)).drop
        (found.before.length + 2) = found.inner := by
      rw [whole, List.append_assoc, List.take_left' upto, List.drop_left' width]
    rw [inner, Interpolation.key, String.toList_ofList]
    exact trimsTo_trim found.inner
  · have openBytes : byteCount ['{', '{'] = 2 := rfl
    have closeBytes : byteCount ['}', '}'] = 2 := rfl
    simp only [stopByte, closed, opened, byteCount_append, Interpolation.stop, Interpolation.start]
    omega
  · rw [joined, List.take_left, List.drop_left]
    exact begins
  · rw [whole, ← total, List.take_left, List.drop_left]
    exact ends
  · rw [Interpolation.substitute, begins.eq_left start.splits, ends.eq_right stop.splits]

/-- A text has an interpolation exactly if braces enclose something in it; then the interpolation is
at the first braces that do. -/
theorem find?_finds_first_braces (text : String) :
    ((find? text).isSome = true ↔ ∃ i e, Encloses text.toList i e) ∧
    ∀ found, find? text = some found → ∃ i e, Locates text found i e := by
  have exactly := splitFirst_split text.toList
  refine ⟨⟨fun some => ?_, ?_⟩, fun found same => ?_⟩
  · obtain ⟨found, same⟩ := Option.isSome_iff_exists.mp some
    rw [find?] at same
    rw [same] at exactly
    exact ⟨_, _, exactly.2.toEncloses⟩
  · rintro ⟨i, e, encloses⟩
    rw [find?]
    cases same : split text.toList with
    | none =>
      rw [same] at exactly
      exact absurd encloses (exactly i e)
    | some found => rfl
  · rw [find?] at same
    rw [same] at exactly
    exact ⟨_, _, locates_of_split exactly.1 exactly.2⟩

/-- The line ends behind the first braces. The second ones enclose nothing where they are closed at
once, and go on to the next closing. -/
def swallowing : String := "\u00e9\x7b\x7b\n\x7d\x7d\x7b\x7b\x7d\x7d k \x7d\x7d\x7d"

theorem swallowing_braces_are_found :
    find? swallowing = some ⟨['\u00e9', '{', '{', '\n', '}', '}'], ['}', '}', ' ', 'k', ' '], ['}']⟩ ∧
    ∃ found i e, find? swallowing = some found ∧ Locates swallowing found i e ∧
      found.key = "\x7d\x7d k" ∧ found.start = 7 ∧ found.stop = 16 := by
  have same : find? swallowing =
      some ⟨['\u00e9', '{', '{', '\n', '}', '}'], ['}', '}', ' ', 'k', ' '], ['}']⟩ := by
    decide +kernel
  obtain ⟨i, e, locates⟩ := (find?_finds_first_braces swallowing).2 _ same
  exact ⟨same, _, i, e, same, locates, by decide +kernel, by decide +kernel, by decide +kernel⟩

end Interpolation
end DataBinding.Text
