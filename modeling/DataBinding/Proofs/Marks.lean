import DataBinding.Proofs.Parts

/-! The bindings of mounted pages, each with what it should show. In a world that is in
order every binding shows its property, and its watcher remembers the value that is shown.
Storing another value puts the bindings of that property out of order; telling their
watchers, one after the other, puts each of them right again and disturbs no other. -/
namespace DataBinding

/-- How a binding shows its property. -/
inductive Role where
  /-- A text node, with the text that the mount gives it. -/
  | label (initial : String)
  /-- An element whose only text is the property. -/
  | text
  /-- A form control. -/
  | control
  deriving DecidableEq

/-- A binding that a mount has made. -/
structure Mark where
  watcher : SubscriberId
  node : NodeId
  role : Role
  data : ObjectId
  key : String
  /-- Whether the property existed at the mount. -/
  present : Bool
  /-- Whether the property has changed since. -/
  changed : Bool

def Role.reaction (n : NodeId) : Role → Reaction
  | .label _ => .showText n
  | .text => .showText n
  | .control => .showValue n

/-- The part of the page that a binding writes. -/
def Role.part (n : NodeId) : Role → Part
  | .label _ => .text n
  | .text => .text n
  | .control => .value n

/-- Texts are labels, elements are the rest. -/
def Role.Fits : Role → Node → Prop
  | .label _, .text _ => True
  | .text, .element _ => True
  | .control, .element _ => True
  | _, _ => False

/-- The nodes are one text with the content, or none if there is nothing to show. -/
def World.ShowsAlone (w : World) (nodes : List NodeId) (content : String) : Prop :=
  if content = "" then nodes = [] else ∃ g, nodes = [g] ∧ w.node? g = some (.text content)

theorem Role.part?_reaction (role : Role) (n : NodeId) :
    (role.reaction n).part? = some (role.part n) := by
  cases role <;> rfl

theorem Role.Fits.keeps {x x' : Node} (fits : Role.Fits role x) (keeps : Node.Keeps t v l x x') :
    role.Fits x' := by
  cases keeps with
  | text => cases role <;> exact fits
  | element => cases role <;> exact fits

namespace Mark

def reaction (k : Mark) : Reaction := k.role.reaction k.node

def part (k : Mark) : Part := k.role.part k.node

theorem part_ne_listeners (k : Mark) (n : NodeId) : k.part ≠ .listeners n := by
  unfold part
  cases k.role <;> simp [Role.part]

theorem node_of_part {k : Mark} (same : k.part = .text n ∨ k.part = .value n) : k.node = n := by
  unfold part at same
  cases role : k.role <;> simp_all [Role.part]

/-- What the page shows of a binding: the text of the mount until the property changes, and
from then on the property. A control holds the property all the time. -/
def Shows (k : Mark) (w : World) : Prop :=
  match k.role with
  | .label initial => w.node? k.node = some (.text
      (if k.changed then (w.peek k.data k.key).textContent else initial))
  | .text => ∃ e, w.node? k.node = some (.element e) ∧
      (k.changed = true → w.ShowsAlone e.children (w.peek k.data k.key).textContent)
  | .control => ∃ e, w.node? k.node = some (.element e) ∧
      (k.present = true → e.value = (w.peek k.data k.key).formValue)

/-- The watcher remembers what the page shows. The text below an element is the binding's
own: no binding has been made for it. -/
structure InOrder (pages : Nat) (w : World) (marks : List Mark) (k : Mark) : Prop where
  cached : k.present = true →
    w.watcher? k.watcher = some ⟨k.data, k.key, w.peek k.data k.key, k.reaction⟩
  shows : k.Shows w
  own : k.role = .text → k.changed = true → g ∈ w.children k.node →
    pages ≤ g.index ∧ ∀ l ∈ marks, l.node ≠ g

end Mark

namespace World

theorem children_of_element {w : World} (found : w.node? n = some (.element e)) :
    w.children n = e.children := by
  simp [children, found, Node.children]

/-- Bindings and their watchers belong together; no two bindings write the same part of the
page. Subscribers below `base` are from earlier and gone. -/
structure Linked (base : Nat) (w : World) (marks : List Mark) : Prop where
  issued : base ≤ w.subscribers.size
  watcher : k ∈ marks → base ≤ k.watcher.index ∧
    ∃ cached, w.watcher? k.watcher = some ⟨k.data, k.key, cached, k.reaction⟩
  listed : k ∈ marks → k.present = true → ∃ d, w.Tracked k.data k.key d ∧ k.watcher ∈ w.entries d
  entries : s ∈ w.entries d → s.index < base ∨
    ∃ k ∈ marks, k.watcher = s ∧ k.present = true ∧ w.Tracked k.data k.key d
  apart : k ∈ marks → l ∈ marks → k.part = l.part → k = l
  fits : k ∈ marks → ∃ x, w.node? k.node = some x ∧ k.role.Fits x
  since : k ∈ marks → k.changed = true → k.present = true

namespace Linked

variable {base : Nat} {w w' : World} {marks : List Mark}

/-- Bindings with the same watcher are the same. -/
theorem eq_of_watcher (linked : Linked base w marks) (member : k ∈ marks) (other : l ∈ marks)
    (same : k.watcher = l.watcher) : k = l := by
  obtain ⟨-, _, found⟩ := linked.watcher member
  obtain ⟨-, _, found'⟩ := linked.watcher other
  rw [same, found'] at found
  apply linked.apart member other
  have reactions : l.reaction = k.reaction := (Watcher.mk.inj (Option.some.inj found)).2.2.2
  have parts := congrArg Reaction.part? reactions
  exact Option.some.inj ((Role.part?_reaction _ _).symm.trans
    (parts.symm.trans (Role.part?_reaction _ _)))

/-- The links stand as long as watchers, entries and the kinds of nodes do. -/
theorem of_same (linked : Linked base w marks) (spares : Spares touched w w')
    (issued : w.subscribers.size ≤ w'.subscribers.size)
    (watchers : ∀ k ∈ marks, ∀ x, w.watcher? k.watcher = some x →
      ∃ cached, w'.watcher? k.watcher = some { x with cached := cached })
    (tracked : ∀ o key d, w.Tracked o key d → w'.Tracked o key d)
    (fewer : ∀ s d, s ∈ w'.entries d → s ∈ w.entries d)
    (kept : ∀ k ∈ marks, ∀ d, k.watcher ∈ w.entries d → k.watcher ∈ w'.entries d) :
    Linked base w' marks where
  issued := Nat.le_trans linked.issued issued
  watcher member := by
    obtain ⟨above, _, found⟩ := linked.watcher member
    obtain ⟨cached, still⟩ := watchers _ member _ found
    exact ⟨above, cached, still⟩
  listed member present := by
    obtain ⟨d, property, entry⟩ := linked.listed member present
    exact ⟨d, tracked _ _ d property, kept _ member d entry⟩
  entries entry := by
    rcases linked.entries (fewer _ _ entry) with old | ⟨k, member, same, present, property⟩
    · exact .inl old
    · exact .inr ⟨k, member, same, present, tracked _ _ _ property⟩
  apart := linked.apart
  fits member := by
    obtain ⟨x, found, fits⟩ := linked.fits member
    obtain ⟨x', after, keeps⟩ := spares.kept found
    exact ⟨x', after, fits.keeps keeps⟩
  since := linked.since

end Linked

/-- What stands alone stays so while its node does. -/
theorem ShowsAlone.kept {w w' : World} (alone : w.ShowsAlone gs content)
    (kept : ∀ g ∈ gs, ∀ x, w.node? g = some x → w'.node? g = some x) : w'.ShowsAlone gs content := by
  unfold ShowsAlone at alone ⊢
  split at alone
  · rename_i empty
    rw [if_pos empty]
    exact alone
  · rename_i filled
    obtain ⟨g, rfl, found⟩ := alone
    rw [if_neg filled]
    exact ⟨g, rfl, kept g (List.mem_singleton_self g) _ found⟩

theorem ShowsAlone.text {w : World} (alone : w.ShowsAlone gs content) (member : g ∈ gs) :
    w.node? g = some (.text content) := by
  unfold ShowsAlone at alone
  split at alone
  · rw [alone] at member
    cases member
  · obtain ⟨g', rfl, found⟩ := alone
    rwa [List.mem_singleton.mp member]

/-- What stands below an element whose property has changed is a text. -/
theorem text_of_shown {k : Mark} {w : World} (shows : k.Shows w) (role : k.role = .text)
    (changed : k.changed = true) (below : g ∈ w.children k.node) :
    ∃ content, w.node? g = some (.text content) := by
  unfold Mark.Shows at shows
  rw [role] at shows
  obtain ⟨e, found, alone⟩ := shows
  rw [children_of_element found] at below
  exact ⟨_, (alone changed).text below⟩

theorem ShowsAlone.spared {w w' : World} (alone : w.ShowsAlone gs content)
    (spares : Spares touched w w') (below : ∀ g ∈ gs,
      ¬touched (.text g) ∧ ¬touched (.value g) ∧ ¬touched (.listeners g)) :
    w'.ShowsAlone gs content := by
  apply alone.kept
  intro g member x found
  obtain ⟨text, value, listeners⟩ := below g member
  exact spares.node text value listeners found

end World

/-- A binding stays in order while neither its property nor its part of the page changes. -/
theorem Mark.InOrder.spared {k : Mark} {w w' : World} (order : k.InOrder pages w marks)
    (spares : World.Spares touched w w') (watcher : w'.watcher? k.watcher = w.watcher? k.watcher)
    (since : k.changed = true → k.present = true)
    (value : k.present = true → w'.peek k.data k.key = w.peek k.data k.key)
    (apart : ¬touched k.part)
    (below : k.role = .text → k.changed = true → ∀ g ∈ w.children k.node,
      ¬touched (.text g) ∧ ¬touched (.value g) ∧ ¬touched (.listeners g)) :
    k.InOrder pages w' marks := by
  have shows := order.shows
  have children : ∀ e, k.role = .text → w.node? k.node = some (.element e) →
      ∃ e', w'.node? k.node = some (.element e') ∧ e'.children = e.children := by
    intro e role found
    obtain ⟨x', after, keeps⟩ := spares.kept found
    cases keeps with
    | element same => exact ⟨_, after, same (by simpa [Mark.part, role, Role.part] using apart)⟩
  constructor
  · intro present
    rw [watcher, value present]
    exact order.cached present
  · unfold Mark.Shows at shows ⊢
    split at shows
    · rename_i initial role
      obtain ⟨x', after, keeps⟩ := spares.kept shows
      cases keeps with
      | text same =>
        rw [after, same (by simpa [Mark.part, role, Role.part] using apart)]
        cases changed : k.changed with
        | false => rfl
        | true => simp only [value (since changed)]
    · rename_i role
      obtain ⟨e, found, alone⟩ := shows
      obtain ⟨e', after, same⟩ := children e role found
      refine ⟨e', after, fun changed => ?_⟩
      rw [same, value (since changed)]
      refine (alone changed).spared spares fun g member => below role changed g ?_
      rwa [World.children_of_element found]
    · rename_i role
      obtain ⟨e, found, holds⟩ := shows
      obtain ⟨x', after, keeps⟩ := spares.kept found
      cases keeps with
      | element _ held =>
        refine ⟨_, after, fun present => ?_⟩
        rw [value present, ← holds present]
        exact held (by simpa [Mark.part, role, Role.part] using apart)
  · intro g role changed member
    unfold Mark.Shows at shows
    rw [role] at shows
    obtain ⟨e, found, -⟩ := shows
    obtain ⟨e', after, same⟩ := children e role found
    rw [World.children_of_element after, same, ← World.children_of_element found] at member
    exact order.own role changed member

end DataBinding
