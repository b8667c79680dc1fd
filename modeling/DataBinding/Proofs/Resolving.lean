import DataBinding.Proofs.Levels
import DataBinding.Proofs.Scanning
import Mathlib.Data.List.Forall2

/-! Where options are mounted. A selector means elements by their `id` or by their tag, and options
are mounted on the first of them in document order, however deep it stands and wherever else it stands
as well. Nothing is touched before it has been found. -/
namespace DataBinding

namespace Selector

/-- The letters are the same, or one is the capital of the other in the ASCII alphabet. -/
def SameLetter (a b : Char) : Prop :=
  a = b ∨ ('A' ≤ a ∧ a ≤ 'Z' ∧ b.toNat = a.toNat + 32) ∨ ('A' ≤ b ∧ b ≤ 'Z' ∧ a.toNat = b.toNat + 32)

/-- The selector, which has no blanks at its ends, means the element: by its `id` if it begins with
`#`, and otherwise by its tag, up to the case of ASCII letters. -/
def Selects (core : List Char) (e : Element) : Prop :=
  match core with
  | '#' :: value => e.attribute? "id" = some (String.ofList value)
  | name => List.Forall₂ SameLetter e.tag.toList name

private theorem toNat_toLower (c : Char) :
    c.toLower.toNat = if 'A' ≤ c ∧ c ≤ 'Z' then c.toNat + 32 else c.toNat := by
  unfold Char.toLower
  split
  · rename_i capital
    have below : c.toNat ≤ 90 := capital.2
    have inside : 'A' ≤ c ∧ c ≤ 'Z' := capital
    rw [if_pos inside]
    have sum : (c.val + 32).toNat = c.val.toNat + 32 := by
      rw [UInt32.toNat_add]
      exact Nat.mod_eq_of_lt (by change c.toNat + 32 < _; omega)
    exact sum
  · rename_i other
    have outside : ¬('A' ≤ c ∧ c ≤ 'Z') := other
    rw [if_neg outside]

theorem toLower_eq_iff {a b : Char} : a.toLower = b.toLower ↔ SameLetter a b := by
  have letters : ∀ c : Char, ('A' ≤ c ∧ c ≤ 'Z') ↔ 65 ≤ c.toNat ∧ c.toNat ≤ 90 := fun _ => Iff.rfl
  rw [← Char.toNat_inj, toNat_toLower, toNat_toLower, SameLetter, ← Char.toNat_inj, ← and_assoc,
    ← and_assoc]
  simp only [letters]
  split <;> split <;> omega

theorem agree_iff {a b : String} : agree a b = true ↔ List.Forall₂ SameLetter a.toList b.toList := by
  rw [agree, beq_iff_eq, ← List.forall₂_eq_eq_eq, List.forall₂_map_left_iff, List.forall₂_map_right_iff]
  simp only [toLower_eq_iff]

/-- A text stands for a selector unless nothing is left of it without its blanks. -/
theorem parse?_eq_none_iff {text : String} : parse? text = none ↔ Text.trim text.toList = [] := by
  unfold parse?
  split
  · rename_i empty
    exact ⟨fun _ => empty, fun _ => rfl⟩
  · rename_i core
    rw [core]
    exact ⟨nofun, nofun⟩
  · rename_i filled _
    exact ⟨nofun, fun empty => absurd empty filled⟩

theorem accepts_iff {text : String} (parsed : parse? text = some selector) (e : Element) :
    selector.accepts e = true ↔ Selects (Text.trim text.toList) e := by
  unfold parse? at parsed
  unfold Selects
  split at parsed
  · cases parsed
  · rename_i core
    obtain rfl := Option.some.inj parsed
    rw [core]
    exact beq_iff_eq
  · rename_i name _ core
    obtain rfl := Option.some.inj parsed
    split
    · rename_i other _ same
      exact absurd same (core _)
    · exact agree_iff.trans (by rw [String.toList_ofList])

end Selector

namespace World

section Search

variable {w : World}

/-- Where there are no circles, the nodes below can be listed in document order. -/
theorem Levels.exists_spans (levels : w.Levels depth n) : ∃ ns, w.Spans (w.children n) ns := by
  induction depth generalizing n with
  | zero =>
    rw [show w.children n = [] from levels]
    exact ⟨[], .nil⟩
  | succ depth ih =>
    have each : ∀ roots : List NodeId, (∀ c ∈ roots, w.Levels depth c) → ∃ ns, w.Spans roots ns := by
      intro roots levels
      induction roots with
      | nil => exact ⟨[], .nil⟩
      | cons c rest later =>
        obtain ⟨below, under⟩ := ih (levels c List.mem_cons_self)
        obtain ⟨others, beside⟩ := later fun d member => levels d (List.mem_cons_of_mem c member)
        exact ⟨_, .cons under beside⟩
    exact each _ levels

private theorem bare_of_element? (other : w.element? n = none) : w.children n = [] := by
  cases found : w.node? n with
  | none => simp [children, found]
  | some x =>
    cases x with
    | text s => simp [children, found, Node.children]
    | element e => simp [element?, found, Node.element?] at other

/-- The search goes through neighbouring nodes in document order if it does so below each one. -/
private theorem findSomeM?_eq {test : Element → Bool} (spans : w.Spans roots ns)
    (each : ∀ c ∈ roots, ∀ {below}, w.Spans (w.children c) below →
      w.findWithin test depth c = some (below.find? fun m => (w.element? m).any test)) :
    (roots.findSomeM? fun child => match w.element? child with
      | none => some none
      | some e => if test e then some (some child) else w.findWithin test depth child) =
    some (ns.find? fun m => (w.element? m).any test) := by
  induction spans with
  | nil => rfl
  | @cons c below roots beside under _ _ later =>
    have here := each c List.mem_cons_self under
    have others := later fun d member => each d (List.mem_cons_of_mem c member)
    rw [List.findSomeM?, List.cons_append, List.find?_cons, List.find?_append, others]
    cases found : w.element? c with
    | none =>
      rw [bare_of_element? found] at under
      cases under
      rfl
    | some e =>
      cases passes : test e with
      | true => simp [passes]
      | false =>
        simp only [passes, Option.any_some, Bool.false_eq_true, if_false, here]
        cases below.find? fun m => (w.element? m).any test <;> rfl

/-- The search comes to the elements below a node in document order. -/
theorem findWithin_eq (test : Element → Bool) (levels : w.Levels depth n)
    (spans : w.Spans (w.children n) ns) :
    w.findWithin test (depth + 1) n = some (ns.find? fun m => (w.element? m).any test) := by
  induction depth generalizing n ns with
  | zero =>
    have bare : w.children n = [] := levels
    rw [bare] at spans
    cases spans
    rw [findWithin, bare]
    rfl
  | succ depth ih =>
    rw [findWithin]
    exact findSomeM?_eq spans fun c member => ih (levels c member)

private theorem root_or_below (spans : w.Spans roots ns) (member : n ∈ ns) :
    n ∈ roots ∨ ∃ r ∈ roots, w.Below r n := by
  induction spans with
  | nil => cases member
  | @cons m below roots beside _ _ ih later =>
    rcases List.mem_append.mp member with inside | outside
    · rcases List.mem_cons.mp inside with rfl | under
      · exact .inl List.mem_cons_self
      · refine .inr ⟨m, List.mem_cons_self, ?_⟩
        rcases ih under with child | ⟨c, child, deeper⟩
        · exact .child child
        · exact below_of_child child deeper
    · rcases later outside with root | ⟨r, among, deeper⟩
      · exact .inl (List.mem_cons_of_mem m root)
      · exact .inr ⟨r, List.mem_cons_of_mem m among, deeper⟩

theorem below_of_spans (spans : w.Spans (w.children n) ns) (member : m ∈ ns) : w.Below n m := by
  rcases root_or_below spans member with child | ⟨c, child, below⟩
  · exact .child child
  · exact below_of_child child below

theorem Acyclic.below (acyclic : w.Acyclic root) (below : w.Below root n) : w.Acyclic n := by
  induction below with
  | child stands => exact acyclic.child stands
  | deeper _ stands ih => exact ih.child stands

end Search

/-- A mount on an element of a page without circles comes to its end. -/
theorem Acyclic.mount_ends {w : World} (acyclic : w.Acyclic element) (v : Value) :
    ∃ w' vm, w.mount element v = some (w', vm) := by
  have prepared : (w.prepared v).Acyclic element :=
    (Prunes.of_nodes (nodes_prepared w v)).acyclic acyclic
  obtain ⟨⟨bound, watchers⟩, ran, -⟩ := prepared.bind_ends (w.dataObject v).2
  have binds : ((w.dataObject v).1.observe (.object (w.dataObject v).2)).bind (w.dataObject v).2 element =
      some (bound, watchers) := ran
  refine ⟨{ bound with viewModels :=
    bound.viewModels.push (some ⟨element, (w.dataObject v).2, watchers⟩) }, ⟨bound.viewModels.size⟩, ?_⟩
  simp only [mount, Option.bind_eq_bind, binds, Option.bind_some, Option.pure_def]

/-- The node is an element that the selector means. -/
def Meant (w : World) (core : List Char) (n : NodeId) : Prop :=
  ∃ e, w.element? n = some e ∧ Selector.Selects core e

/-- The first of the nodes that the selector means. -/
def MeantFirst (w : World) (core : List Char) (ns : List NodeId) (n : NodeId) : Prop :=
  ∃ before after, ns = before ++ n :: after ∧ w.Meant core n ∧ ∀ m ∈ before, ¬w.Meant core m

/-- What comes of mounting options in a document: `ns` are the nodes below it in document order, and
`core` is the selector without the blanks at its ends. -/
structure Resolution (w : World) (document : NodeId) (options : Options) (ns : List NodeId)
    (core : List Char) : Prop where
  listed : w.Spans (w.children document) ns
  trimmed : Text.TrimsTo options.element.toList core
  /-- Only a blank selector is refused as empty. -/
  empty : (∃ w', w.perform (.mountOptions options document) = some (w', .refused .emptySelector)) ↔
    core = []
  /-- Any other is refused, as it was written, if it means no element of the document. -/
  missing : (∃ w', w.perform (.mountOptions options document) =
    some (w', .refused (.targetNotFound selector))) ↔
      selector = options.element ∧ core ≠ [] ∧ ∀ n ∈ ns, ¬w.Meant core n
  /-- Otherwise the data is mounted on the first element that it means. -/
  mounted : (∃ w' vm view, w.perform (.mountOptions options document) = some (w', .viewModel vm) ∧
    (w.build options.data).1.mount n (w.build options.data).2 = some (w', vm) ∧
    w'.viewModel? vm = some view ∧ view.element = n) ↔ core ≠ [] ∧ w.MeantFirst core ns n
  /-- Nothing changes where options are refused. -/
  untouched : w.perform (.mountOptions options document) = some (w', .refused e) → w' = w

section Cases

variable {w : World} {document : NodeId} {options : Options}

private theorem perform_of_target_error (refused : w.target document options = some (.error e)) :
    w.perform (.mountOptions options document) = some (w, .refused e) := by
  simp [perform, mountOptions, refused]

private theorem perform_of_target (acyclic : w.Acyclic n)
    (target : w.target document options = some (.ok n)) : ∃ w' vm view,
      w.perform (.mountOptions options document) = some (w', .viewModel vm) ∧
      (w.build options.data).1.mount n (w.build options.data).2 = some (w', vm) ∧
      w'.viewModel? vm = some view ∧ view.element = n := by
  obtain ⟨objects, adds⟩ := build_eq w options.data
  have built : (w.build options.data).1.Acyclic n := (Prunes.of_nodes (by rw [adds])).acyclic acyclic
  obtain ⟨w', vm, mounted⟩ := built.mount_ends (w.build options.data).2
  obtain ⟨bound, watchers, -, rfl, rfl⟩ := mount_eq_some mounted
  let view : ViewModel :=
    ⟨n, ((w.build options.data).1.dataObject (w.build options.data).2).2, watchers⟩
  refine ⟨_, _, view, ?_, mounted, by simp [viewModel?, Arena.get?_push, view], rfl⟩
  simp [perform, mountOptions, target, mounted]

/-- Looking the element up finds the first one in document order. -/
private theorem target_eq (acyclic : w.Acyclic document) (spans : w.Spans (w.children document) ns)
    (parsed : Selector.parse? options.element = some selector) : w.target document options =
      some (match ns.find? fun m => (w.element? m).any selector.accepts with
        | none => .error (.targetNotFound options.element)
        | some n => .ok n) := by
  have found : w.find document selector =
      some (ns.find? fun m => (w.element? m).any selector.accepts) :=
    findWithin_eq selector.accepts acyclic.levels spans
  rw [target, parsed]
  change (w.find document selector).map _ = _
  rw [found]
  cases ns.find? fun m => (w.element? m).any selector.accepts <;> rfl

private theorem find?_eq_some_iff {core : List Char}
    (means : ∀ m, (w.element? m).any test = true ↔ w.Meant core m) :
    (ns.find? fun m => (w.element? m).any test) = some n ↔ w.MeantFirst core ns n := by
  rw [List.find?_eq_some_iff_append, means, MeantFirst]
  simp only [← Bool.not_eq_true, Bool.not_eq_eq_eq_not, Bool.not_true, means]
  constructor
  · rintro ⟨meant, before, after, joined, others⟩
    exact ⟨before, after, joined, meant, others⟩
  · rintro ⟨before, after, joined, meant, others⟩
    exact ⟨meant, before, after, joined, others⟩

private theorem resolution_of_blank (spans : w.Spans (w.children document) ns)
    (blank : Text.trim options.element.toList = []) :
    Resolution w document options ns (Text.trim options.element.toList) := by
  have parsed := Selector.parse?_eq_none_iff.mpr blank
  have refused : w.perform (.mountOptions options document) = some (w, .refused .emptySelector) :=
    perform_of_target_error (by rw [target, parsed])
  refine ⟨spans, Text.trimsTo_trim _, ?_, ?_, ?_, ?_⟩ <;> simp +contextual [refused, blank]

private theorem resolution_of_nobody (spans : w.Spans (w.children document) ns)
    (filled : Text.trim options.element.toList ≠ [])
    (target : w.target document options = some (.error (.targetNotFound options.element)))
    (nobody : ∀ n ∈ ns, ¬w.Meant (Text.trim options.element.toList) n) :
    Resolution w document options ns (Text.trim options.element.toList) := by
  have refused := perform_of_target_error target
  refine ⟨spans, Text.trimsTo_trim _, by simp [refused, filled], ?_, ?_, ?_⟩
  · intro selector
    simp only [refused, Option.some.injEq, Prod.mk.injEq, Reply.refused.injEq,
      MountError.targetNotFound.injEq]
    constructor
    · rintro ⟨w', -, same⟩
      exact ⟨same.symm, filled, nobody⟩
    · rintro ⟨same, -, -⟩
      exact ⟨w, rfl, same.symm⟩
  · intro n
    refine ⟨by simp [refused], fun ⟨_, before, after, joined, meant, _⟩ => ?_⟩
    exact absurd meant (nobody n (by simp [joined]))
  · simp +contextual [refused]

private theorem resolution_of_first (acyclic : w.Acyclic document)
    (spans : w.Spans (w.children document) ns) (filled : Text.trim options.element.toList ≠ [])
    (target : w.target document options = some (.ok n))
    (first : ∀ m, w.MeantFirst (Text.trim options.element.toList) ns m ↔ n = m) :
    Resolution w document options ns (Text.trim options.element.toList) := by
  obtain ⟨before, after, joined, meant, -⟩ := (first n).mpr rfl
  have inside : n ∈ ns := by simp [joined]
  obtain ⟨w', vm, view, done, mount, held, here⟩ :=
    perform_of_target (acyclic.below (below_of_spans spans inside)) target
  refine ⟨spans, Text.trimsTo_trim _, by simp [done, filled], ?_, ?_, by simp [done]⟩
  · intro selector
    exact ⟨by simp [done], fun ⟨_, _, nobody⟩ => absurd meant (nobody n inside)⟩
  · intro m
    constructor
    · rintro ⟨a, vm', view', done', -, held', rfl⟩
      obtain ⟨rfl, same⟩ := Prod.mk.inj (Option.some.inj (done.symm.trans done'))
      obtain rfl := Reply.viewModel.inj same
      obtain rfl := Option.some.inj (held.symm.trans held')
      exact ⟨filled, (first _).mpr here.symm⟩
    · rintro ⟨-, earliest⟩
      obtain rfl := (first m).mp earliest
      exact ⟨w', vm, view, done, mount, held, here⟩

end Cases

/-- Mounting options in any document without circles resolves them: a blank selector is refused, and
so is one that means no element of the document; otherwise the data is mounted on the first element
in document order that the selector means. -/
theorem mounting_resolves {w : World} (acyclic : w.Acyclic document) (options : Options) :
    ∃ ns, Resolution w document options ns (Text.trim options.element.toList) := by
  obtain ⟨ns, spans⟩ := acyclic.levels.exists_spans
  refine ⟨ns, ?_⟩
  cases parsed : Selector.parse? options.element with
  | none => exact resolution_of_blank spans (Selector.parse?_eq_none_iff.mp parsed)
  | some selector =>
    have filled : Text.trim options.element.toList ≠ [] := fun blank => by
      rw [Selector.parse?_eq_none_iff.mpr blank] at parsed
      cases parsed
    have means : ∀ m, (w.element? m).any selector.accepts = true ↔
        w.Meant (Text.trim options.element.toList) m := fun m => by
      simp only [Option.any_eq_true, Meant, Selector.accepts_iff parsed]
    have target := target_eq acyclic spans parsed
    cases found : ns.find? fun m => (w.element? m).any selector.accepts with
    | none =>
      rw [found] at target
      exact resolution_of_nobody spans filled target fun n member meant =>
        List.find?_eq_none.mp found n member ((means n).mpr meant)
    | some n =>
      rw [found] at target
      refine resolution_of_first acyclic spans filled target fun m => ?_
      rw [← find?_eq_some_iff means, found, Option.some.injEq]

end World

namespace Machine

/-- A document in which two elements have the same `id`; the one that comes first stands below a
paragraph, and in two more places. -/
def burying : Program Unit :=
  .call (.act (.newText "app")) fun _ =>
  .call (.act (.newElement "span")) fun _ =>
  .call (.act (.setAttribute ⟨1⟩ "id" "app")) fun _ =>
  .call (.act (.newElement "p")) fun _ =>
  .call (.act (.appendChild ⟨2⟩ ⟨0⟩)) fun _ =>
  .call (.act (.appendChild ⟨2⟩ ⟨1⟩)) fun _ =>
  .call (.act (.newElement "div")) fun _ =>
  .call (.act (.setAttribute ⟨3⟩ "id" "app")) fun _ =>
  .call (.act (.appendChild ⟨3⟩ ⟨1⟩)) fun _ =>
  .call (.act (.newElement "html")) fun _ =>
  .call (.act (.appendChild ⟨4⟩ ⟨2⟩)) fun _ =>
  .call (.act (.appendChild ⟨4⟩ ⟨3⟩)) fun _ =>
  .call (.act (.appendChild ⟨4⟩ ⟨1⟩)) fun _ => .done

def buriedMachine : Machine Unit := run 14 (start { host := () } burying)

/-- The blanks around the selector do not count, and the span is found where it comes first. -/
theorem buried_target_is_found : buriedMachine.world.Acyclic ⟨4⟩ ∧ ∃ w' vm view,
    buriedMachine.world.perform (.mountOptions ⟨"\u2003#app\n", .null⟩ ⟨4⟩) =
      some (w', .viewModel vm) ∧ w'.viewModel? vm = some view ∧ view.element = ⟨1⟩ := by
  have acyclic : buriedMachine.world.Acyclic ⟨4⟩ := World.acyclic_of_newer (by decide +kernel) ⟨4⟩
  obtain ⟨ns, resolves⟩ := World.mounting_resolves acyclic ⟨"\u2003#app\n", .null⟩
  have spans : buriedMachine.world.Spans (buriedMachine.world.children ⟨4⟩)
      [⟨2⟩, ⟨0⟩, ⟨1⟩, ⟨3⟩, ⟨1⟩, ⟨1⟩] := by
    have text := World.Spans.leaf (show buriedMachine.world.children ⟨0⟩ = [] by decide +kernel)
    have span := World.Spans.leaf (show buriedMachine.world.children ⟨1⟩ = [] by decide +kernel)
    have paragraph : buriedMachine.world.Spans [⟨2⟩] [⟨2⟩, ⟨0⟩, ⟨1⟩] := by
      have below : buriedMachine.world.children ⟨2⟩ = [⟨0⟩, ⟨1⟩] := by decide +kernel
      have under : buriedMachine.world.Spans (buriedMachine.world.children ⟨2⟩) [⟨0⟩, ⟨1⟩] := by
        rw [below]
        exact text.append span
      exact .cons under .nil
    have div := World.Spans.only
      (show buriedMachine.world.children ⟨3⟩ = [⟨1⟩] by decide +kernel) span
    have below : buriedMachine.world.children ⟨4⟩ = [⟨2⟩, ⟨3⟩, ⟨1⟩] := by decide +kernel
    rw [below]
    exact paragraph.append (div.append span)
  obtain rfl := resolves.listed.unique spans
  have core : Text.trim "\u2003#app\n".toList = ['#', 'a', 'p', 'p'] := by decide +kernel
  rw [core] at resolves
  have before : ∀ m ∈ [(⟨2⟩ : NodeId), ⟨0⟩], ∀ e, buriedMachine.world.element? m = some e →
      e.attribute? "id" ≠ some "app" := by
    have each : [(⟨2⟩ : NodeId), ⟨0⟩].all (fun m => (buriedMachine.world.element? m).all
        (·.attribute? "id" ≠ some "app")) = true := by decide +kernel
    intro m member e found
    have here := List.all_eq_true.mp each m member
    simpa [found] using here
  have first : buriedMachine.world.MeantFirst ['#', 'a', 'p', 'p']
      [⟨2⟩, ⟨0⟩, ⟨1⟩, ⟨3⟩, ⟨1⟩, ⟨1⟩] ⟨1⟩ := by
    have span : buriedMachine.world.element? ⟨1⟩ =
        some { tag := "span", attributes := [⟨"id", "app"⟩] } := by decide +kernel
    refine ⟨[⟨2⟩, ⟨0⟩], _, rfl, ⟨_, span, by rw [Selector.Selects]; decide⟩, ?_⟩
    rintro m member ⟨e, found, selects⟩
    exact before m member e found selects
  obtain ⟨w', vm, view, done, -, held, here⟩ := resolves.mounted.mpr ⟨by decide, first⟩
  exact ⟨acyclic, w', vm, view, done, held, here⟩

end Machine
end DataBinding
