import DataBinding.Proofs.Controls
import DataBinding.Proofs.Coherence

/-! The parts of a node. A write to the page goes into one part of one node: its text, which
for an element is what stands below it, or what it holds as a form control, or its
listeners. Every other part of every node stays as it is. -/
namespace DataBinding

/-- A part of a node that can be written by itself. -/
inductive Part where
  | text (n : NodeId)
  | value (n : NodeId)
  | listeners (n : NodeId)
  deriving DecidableEq

/-- The part of a page that a reaction writes. -/
def Reaction.part? : Reaction → Option Part
  | .callback _ => none
  | .showText n => some (.text n)
  | .showValue n => some (.value n)

/-- Two states of a node differ in the given parts at most. -/
inductive Node.Keeps (text value heard : Prop) : Node → Node → Prop where
  | text (same : ¬text → s' = s) : Node.Keeps text value heard (.text s) (.text s')
  | element {e : Element} (below : ¬text → cs = e.children) (held : ¬value → v = e.value)
      (run : ¬heard → ls = e.listeners) : Node.Keeps text value heard (.element e)
        (.element { e with children := cs, value := v, listeners := ls })

namespace Node.Keeps

variable {t v l t' v' l' : Prop}

theorem refl (x : Node) : Node.Keeps t v l x x := by
  cases x with
  | text s => exact .text fun _ => rfl
  | element e => exact .element (fun _ => rfl) (fun _ => rfl) fun _ => rfl

theorem trans {a b c : Node} (first : Node.Keeps t v l a b)
    (second : Node.Keeps t v l b c) : Node.Keeps t v l a c := by
  cases first with
  | text same =>
    cases second with
    | text same' => exact .text fun spared => (same' spared).trans (same spared)
  | element below held run =>
    cases second with
    | element below' held' run' =>
      exact .element (fun spared => (below' spared).trans (below spared))
        (fun spared => (held' spared).trans (held spared))
        fun spared => (run' spared).trans (run spared)

theorem mono {a b : Node} (keeps : Node.Keeps t v l a b) (texts : t → t')
    (values : v → v') (listeners : l → l') :
    Node.Keeps t' v' l' a b := by
  cases keeps with
  | text same => exact .text fun spared => same fun now => spared (texts now)
  | element below held run =>
    exact .element (fun spared => below fun now => spared (texts now))
      (fun spared => held fun now => spared (values now))
      fun spared => run fun now => spared (listeners now)

/-- A node of which no part is written stays the same. -/
theorem eq_of_spared {a b : Node} (keeps : Node.Keeps t v l a b) (texts : ¬t)
    (values : ¬v) (listeners : ¬l) : b = a := by
  cases keeps with
  | text same => rw [same texts]
  | element below held run => rw [below texts, held values, run listeners]

end Node.Keeps

namespace World

/-- Nodes differ in the touched parts at most, and those that are added are texts. -/
structure Spares (touched : Part → Prop) (w w' : World) : Prop where
  kept : w.node? n = some x → ∃ x', w'.node? n = some x' ∧
    x.Keeps (touched (.text n)) (touched (.value n)) (touched (.listeners n)) x'
  added : w.node? n = none → w'.node? n = some x → ∃ content, x = .text content

namespace Spares

theorem of_nodes {w w' : World} (same : w'.nodes = w.nodes) : Spares touched w w' where
  kept {n x} found := ⟨x, by simpa only [node?, same] using found, .refl x⟩
  added absent found := by
    simp only [node?, same] at absent found
    rw [absent] at found
    cases found

theorem refl (touched : Part → Prop) (w : World) : Spares touched w w := of_nodes rfl

theorem trans {a b c : World} (first : Spares touched a b) (second : Spares touched b c) :
    Spares touched a c where
  kept found := by
    obtain ⟨y, between, keeps⟩ := first.kept found
    obtain ⟨z, after, keeps'⟩ := second.kept between
    exact ⟨z, after, keeps.trans keeps'⟩
  added {n z} absent found := by
    cases between : b.node? n with
    | none => exact second.added between found
    | some y =>
      obtain ⟨content, rfl⟩ := first.added absent between
      obtain ⟨y', after, keeps⟩ := second.kept between
      obtain rfl : y' = z := Option.some.inj (after.symm.trans found)
      cases keeps with
      | text => exact ⟨_, rfl⟩

theorem mono {w w' : World} (spares : Spares touched w w') (among : ∀ p, touched p → touched' p) :
    Spares touched' w w' where
  kept found := by
    obtain ⟨x', after, keeps⟩ := spares.kept found
    exact ⟨x', after, keeps.mono (among _) (among _) (among _)⟩
  added := spares.added

/-- A node without touched parts stays the same. -/
theorem node {w w' : World} (spares : Spares touched w w') (text : ¬touched (.text n))
    (value : ¬touched (.value n)) (listeners : ¬touched (.listeners n))
    (found : w.node? n = some x) : w'.node? n = some x := by
  obtain ⟨x', after, keeps⟩ := spares.kept found
  rw [after, keeps.eq_of_spared text value listeners]

/-- Listeners stay the same unless they are touched; nodes that are added have none. -/
theorem listeners {w w' : World} (spares : Spares touched w w') (heard : ¬touched (.listeners n)) :
    w'.listeners n = w.listeners n := by
  cases before : w.node? n with
  | none =>
    cases after : w'.node? n with
    | none => simp [World.listeners, before, after]
    | some x =>
      obtain ⟨content, rfl⟩ := spares.added before after
      simp [World.listeners, before, after, Node.listeners]
  | some x =>
    obtain ⟨x', after, keeps⟩ := spares.kept before
    cases keeps with
    | text => simp [World.listeners, before, after, Node.listeners]
    | element _ _ run => simp [World.listeners, before, after, Node.listeners, run heard]

theorem size {w w' : World} (spares : Spares touched w w') : w.nodes.size ≤ w'.nodes.size := by
  cases empty : w.nodes.size with
  | zero => exact Nat.zero_le _
  | succ k =>
    have inside : k < w.nodes.cells.size := by
      have : w.nodes.cells.size = k + 1 := empty
      omega
    have found : w.node? ⟨k⟩ = some _ := Array.getElem?_eq_getElem inside
    obtain ⟨x', after, -⟩ := spares.kept found
    exact Arena.lt_size_of_get? after

end Spares

/-- One node changes, in one way. -/
private theorem spares_modifyNode {w : World} (f : Node → Node)
    (keeps : ∀ x, w.node? n = some x →
      x.Keeps (touched (.text n)) (touched (.value n)) (touched (.listeners n)) (f x)) :
    Spares touched w (w.modifyNode n f) where
  kept {m x} found := by
    rw [node?_modifyNode, found]
    by_cases same : n = m
    · subst same
      exact ⟨f x, if_pos rfl, keeps x found⟩
    · exact ⟨x, if_neg same, .refl x⟩
  added {m x} absent found := by
    rw [node?_modifyNode, absent] at found
    split at found <;> cases found

theorem spares_setControlValue (w : World) (n : NodeId) (value : String) :
    Spares (· = .value n) w (w.setControlValue n value) := by
  apply spares_modifyNode _
  intro x _
  cases x with
  | text s => exact .text fun _ => rfl
  | element e => exact .element (fun _ => rfl) (fun spared => absurd rfl spared) fun _ => rfl

theorem spares_listen (w : World) (n : NodeId) (listener : Listener) :
    Spares (· = .listeners n) w (w.listen n listener) := by
  apply spares_modifyNode _
  intro x _
  cases x with
  | text s => exact .text fun _ => rfl
  | element e => exact .element (fun _ => rfl) (fun _ => rfl) fun spared => absurd rfl spared

theorem spares_setText (w : World) (n : NodeId) (content : String) :
    Spares (· = .text n) w (w.setText n content) := by
  have below : ∀ (w : World) (cs : List NodeId),
      Spares (· = .text n) w (w.modifyNode n (·.onElement ({ · with children := cs }))) := by
    intro w cs
    apply spares_modifyNode _
    intro x _
    cases x with
    | text s => exact .text fun _ => rfl
    | element e => exact .element (fun spared => absurd rfl spared) (fun _ => rfl) fun _ => rfl
  have fresh : Spares (· = .text n) w (w.newNode (.text content)).1 := by
    constructor
    · intro m x found
      have apart : m ≠ ⟨w.nodes.size⟩ := by
        rintro rfl
        simp [node?, Arena.get?, Arena.size] at found
      exact ⟨x, by rw [node?_newNode, if_neg apart]; exact found, .refl x⟩
    · intro m x absent found
      rw [node?_newNode] at found
      split at found
      · exact ⟨content, (Option.some.inj found).symm⟩
      · rw [absent] at found
        cases found
  unfold setText
  split
  · exact .refl _ w
  · rename_i old found
    apply spares_modifyNode _
    intro x present
    obtain rfl : .text old = x := Option.some.inj (found.symm.trans present)
    exact .text fun spared => absurd rfl spared
  · split
    · exact below w []
    · exact fresh.trans (below _ _)

theorem spares_react (w : World) (reaction : Reaction) (v : Value) :
    Spares (fun p => reaction.part? = some p) w (w.react reaction v) := by
  cases reaction with
  | callback c => exact .refl _ w
  | showText n =>
    apply (spares_setText w n v.textContent).mono
    rintro _ rfl
    rfl
  | showValue n =>
    apply (spares_setControlValue w n v.formValue).mono
    rintro _ rfl
    rfl

end World
end DataBinding
