import DataBinding.Proofs.Binding

/-! Making bindings. Each binding is one write to the page and one watcher, and what a list of them
adds to a world can be read off the list: a watcher for each, in its order, an entry for each in the
list of its property, and in the page the parts that they write. -/
namespace DataBinding

/-- A binding: a node that shows a property, and how it does. -/
structure Binding where
  node : NodeId
  role : Role
  key : String
  deriving DecidableEq

namespace Binding

def reaction (b : Binding) : Reaction := b.role.reaction b.node

/-- The part of the page that shows the property. -/
def part (b : Binding) : Part := b.role.part b.node

/-- The parts of the page that are written when the binding is made: a control gets a listener. -/
def Writes (b : Binding) (p : Part) : Prop := p = b.part ∨ b.role = .control ∧ p = .listeners b.node

theorem Writes.node {b : Binding} (writes : b.Writes p)
    (part : p = .text n ∨ p = .value n ∨ p = .listeners n) : b.node = n := by
  obtain ⟨m, role, key⟩ := b
  cases role <;> rcases writes with rfl | ⟨same, rfl⟩ <;> simp_all [Binding.part, Role.part]

theorem node_of_part {b b' : Binding} (same : b'.part = b.part) : b'.node = b.node := by
  obtain ⟨n, role, key⟩ := b
  obtain ⟨n', role', key'⟩ := b'
  cases role <;> cases role' <;> simp_all [Binding.part, Role.part]

/-- Only the binding of a control writes what the control holds, or its listeners. -/
theorem part_eq_of_writes {b b' : Binding} (control : b.role = .control)
    (writes : b'.Writes (.value b.node) ∨ b'.Writes (.listeners b.node)) : b'.part = b.part := by
  obtain ⟨n, role, key⟩ := b
  obtain ⟨n', role', key'⟩ := b'
  cases role' <;> simp_all [Writes, Binding.part, Role.part]

end Binding

namespace World

/-- Writes into the page what a new binding shows. -/
def draw (w : World) (data : ObjectId) (b : Binding) : World :=
  match b.role with
  | .label shown => w.setText b.node shown
  | .text => w.setText b.node (w.peek data b.key).textContent
  | .control =>
    (w.setControlValue b.node (w.peek data b.key).formValue).listen b.node (.writeBack data b.key)

/-- Makes a binding. -/
def install (w : World) (data : ObjectId) (b : Binding) : World × SubscriberId :=
  (w.draw data b).watch data b.key b.reaction

/-- Makes bindings, one after the other. -/
def installAll (w : World) (data : ObjectId) : List Binding → World × List SubscriberId
  | [] => (w, [])
  | b :: rest =>
    let (w, s) := w.install data b
    let (w, more) := w.installAll data rest
    (w, s :: more)

/-- The binding of a text: there is one if it has an interpolation. -/
def labels (w : World) (data : ObjectId) (n : NodeId) (content : String) : List Binding :=
  match Text.Interpolation.find? content with
  | none => []
  | some f => [⟨n, .label (f.substitute (w.peek data f.key).display), f.key⟩]

/-- The bindings of an element: one for each directive, in the order of the attributes. -/
def directives (n : NodeId) (attributes : List Attribute) : List Binding :=
  attributes.filterMap fun a => (Directive.ofAttribute? a.name).map fun d => ⟨n, d.role, a.value⟩

/-- Reads are not recorded while nobody collects. -/
theorem read_of_target {w : World} (free : w.target? = none) (o : ObjectId) (key : String) :
    w.read o key = (w, w.peek o key) := by
  unfold read depend
  split
  · rw [free]
  · rfl

section Objects

variable (w : World) (data : ObjectId) (b : Binding)

theorem objects_draw : (w.draw data b).objects = w.objects := by
  unfold draw
  split
  · exact objects_setText w _ _
  · exact objects_setText w _ _
  · rfl

theorem custody_draw : (w.draw data b).custody = w.custody := by
  unfold draw
  split <;> simp [listen]

theorem subscribers_draw : (w.draw data b).subscribers = w.subscribers := by
  unfold draw
  split
  · exact subscribers_setText w _ _
  · exact subscribers_setText w _ _
  · rfl

theorem deps_draw : (w.draw data b).deps = w.deps := by
  unfold draw
  split
  · exact deps_setText w _ _
  · exact deps_setText w _ _
  · rfl

end Objects

section Making

variable {w : World} {data : ObjectId}

theorem applyDirective_eq_install (free : w.target? = none) (n : NodeId) (key : String)
    (d : Directive) : w.applyDirective data n key d = w.install data ⟨n, d.role, key⟩ := by
  cases d <;> simp only [applyDirective, read_of_target free, install, draw, Directive.role,
    Binding.reaction, Role.reaction]

theorem target?_install (data : ObjectId) (free : w.target? = none) (b : Binding) :
    (w.install data b).1.target? = none := by
  have custody : (w.install data b).1.custody = w.custody :=
    (custody_watch _ _ _ _).trans (custody_draw w data b)
  rw [target?, targets_of_custody custody]
  exact free

/-- Following the directives of an element makes their bindings. -/
theorem bindAttributes_eq_installAll (free : w.target? = none) (n : NodeId)
    (attributes : List Attribute) :
    w.bindAttributes data n attributes = w.installAll data (directives n attributes) := by
  induction attributes generalizing w with
  | nil => rfl
  | cons a rest ih =>
    cases named : Directive.ofAttribute? a.name with
    | none => simp [bindAttributes, directives, named, ih free]
    | some d =>
      have later := ih (target?_install data free ⟨n, d.role, a.value⟩)
      simp only [directives] at later
      simp [bindAttributes, directives, named, installAll, applyDirective_eq_install free, later]

/-- Binding a text makes its binding. -/
theorem bindText_eq_installAll (free : w.target? = none) (n : NodeId) (content : String) :
    w.bindText data n content = w.installAll data (w.labels data n content) := by
  cases found : Text.Interpolation.find? content with
  | none => simp [bindText, labels, found, installAll]
  | some f =>
    simp [bindText, labels, found, installAll, read_of_target free, install, draw,
      Binding.reaction, Role.reaction]

/-- The watchers of those bindings that show a property tracked by this list. The first watcher that
is added has this number. -/
def entrants (w : World) (data : ObjectId) (d : DepId) (first : Nat) (bs : List Binding) :
    List SubscriberId :=
  (bs.zipIdx first).filterMap fun b =>
    if (w.properties data).dep? b.1.key = some d then some ⟨b.2⟩ else none

/-- What bindings add to the subscribers and to the lists; nothing else has changed but the page. -/
structure Enrolls (w : World) (data : ObjectId) (bs : List Binding) (w' : World) : Prop where
  objects : w'.objects = w.objects
  custody : w'.custody = w.custody
  /-- There is a watcher for each binding, in their order, which remembers what there is. -/
  subscribers : w'.subscribers.cells.toList = w.subscribers.cells.toList ++
    bs.map fun b => .watcher ⟨data, b.key, w.peek data b.key, b.reaction⟩
  deps : w'.deps.size = w.deps.size
  /-- Each has an entry in the list of its property. -/
  entries (d : DepId) :
    w'.entries d = w.entries d ++ w.entrants data d w.subscribers.size bs

namespace Enrolls

theorem size {w' : World} (enrolls : Enrolls w data bs w') :
    w'.subscribers.size = w.subscribers.size + bs.length := by
  have counted := congrArg List.length enrolls.subscribers
  simpa [Arena.size] using counted

theorem nil (w : World) (data : ObjectId) : Enrolls w data [] w where
  objects := rfl
  custody := rfl
  subscribers := by simp
  deps := rfl
  entries d := by simp [entrants]

theorem append {a b c : World} (first : Enrolls a data bs b) (second : Enrolls b data bs' c) :
    Enrolls a data (bs ++ bs') c where
  objects := second.objects.trans first.objects
  custody := second.custody.trans first.custody
  subscribers := by
    rw [second.subscribers, first.subscribers]
    simp [peek_of_objects first.objects]
  deps := second.deps.trans first.deps
  entries d := by
    have same : b.properties data = a.properties data := by rw [properties, properties, first.objects]
    rw [second.entries, first.entries, first.size]
    simp [entrants, List.zipIdx_append, same]

/-- One binding is made. -/
theorem install (b : Binding) (exist : ∀ key d, (w.properties data).dep? key = some d →
    d.index < w.deps.size) : Enrolls w data [b] (w.install data b).1 := by
  have objects := objects_draw w data b
  have same : (w.draw data b).properties data = w.properties data := by
    rw [properties, properties, objects]
  have deps := deps_draw w data b
  have last := subscribers_draw w data b
  have custody := (custody_watch (w.draw data b) data b.key b.reaction).trans (custody_draw w data b)
  have subscribers : (w.install data b).1.subscribers.cells.toList =
      w.subscribers.cells.toList ++ [.watcher ⟨data, b.key, w.peek data b.key, b.reaction⟩] := by
    rw [World.install, subscribers_watch, last, newWatcher, peek_of_objects objects]
    simp [Arena.push]
  have unchanged := (objects_watch (w.draw data b) data b.key b.reaction).trans objects
  cases tracked : (w.properties data).dep? b.key with
  | none =>
    have plain := watch_of_plain b.reaction (same ▸ tracked)
    refine ⟨unchanged, custody, subscribers, ?_, fun d => ?_⟩
    · rw [World.install, plain, newSubscriber, deps]
    · rw [World.install, plain]
      simp [entrants, tracked, newSubscriber, World.entries, deps]
  | some e =>
    have listed := watch_of_dep b.reaction (same ▸ tracked)
    have inside := exist _ _ tracked
    refine ⟨unchanged, custody, subscribers, ?_, fun d => ?_⟩
    · rw [World.install, listed]
      simp [register, newSubscriber, deps]
    · have before : ∀ added, ((w.draw data b).newSubscriber added).1.entries d = w.entries d :=
        fun added => by simp only [World.entries, newSubscriber, deps]
      rw [World.install, listed, entries_register, before, last]
      by_cases here : e = d
      · subst here
        simp [entrants, tracked, newSubscriber, deps, inside]
      · simp [entrants, tracked, here]

/-- All are made. -/
theorem installAll (bs : List Binding) (exist : ∀ key d, (w.properties data).dep? key = some d →
    d.index < w.deps.size) : Enrolls w data bs (w.installAll data bs).1 := by
  induction bs generalizing w with
  | nil => exact nil w data
  | cons b rest ih =>
    have first := install b exist
    refine first.append (ih fun key d listed => ?_)
    rw [properties, first.objects] at listed
    rw [first.deps]
    exact exist key d listed

end Enrolls

end Making

end World

/-- What a binding shows once it has been made. An element has lost what stood below it and has a new
text instead, unless that would be empty; what this text shows depends on what it is given. -/
def Binding.Shows (texts : String → String) (w : World) (data : ObjectId) (w' : World)
    (b : Binding) : Prop :=
  match b.role with
  | .label shown => w'.node? b.node = some (.text shown)
  | .text => ∃ e, w'.node? b.node = some (.element e) ∧
      if (w.peek data b.key).textContent = "" then e.children = []
      else ∃ g, e.children = [g] ∧ w.nodes.size ≤ g.index ∧
        w'.node? g = some (.text (texts (w.peek data b.key).textContent))
  | .control => ∃ e, w'.node? b.node = some (.element e) ∧
      e.value = (w.peek data b.key).formValue ∧
      e.listeners = w.listeners b.node ++ [.writeBack data b.key]

namespace Binding.Shows
open World

variable {texts : String → String} {w w' : World} {data : ObjectId} {b : Binding}

/-- A binding goes on to show what it does while its parts, and the text that it has been given, are
left alone. -/
theorem spared {a : World} (shows : b.Shows texts a data w) (spares : Spares touched w w')
    (part : ¬touched b.part) (heard : b.role = .control → ¬touched (.listeners b.node))
    (below : b.role = .text → ∀ g ∈ w.children b.node,
      ¬touched (.text g) ∧ ¬touched (.value g) ∧ ¬touched (.listeners g)) :
    b.Shows texts a data w' := by
  unfold Shows at shows ⊢
  split at shows
  · rename_i shown role
    obtain ⟨x', after, keeps⟩ := spares.kept shows
    cases keeps with
    | text same => rw [after, same (by simpa [Binding.part, role, Role.part] using part)]
  · rename_i role
    obtain ⟨e, found, alone⟩ := shows
    obtain ⟨x', after, keeps⟩ := spares.kept found
    cases keeps with
    | element same =>
      refine ⟨_, after, ?_⟩
      rw [same (by simpa [Binding.part, role, Role.part] using part)]
      split at alone
      · rename_i empty
        rwa [if_pos empty]
      · rename_i filled
        obtain ⟨g, only, new, shown⟩ := alone
        obtain ⟨text, value, listeners⟩ := below role g (by simp [children_of_element found, only])
        rw [if_neg filled]
        exact ⟨g, only, new, spares.node text value listeners shown⟩
  · rename_i role
    obtain ⟨e, found, holds, hears⟩ := shows
    obtain ⟨x', after, keeps⟩ := spares.kept found
    cases keeps with
    | element _ held run =>
      refine ⟨_, after, (held ?_).trans holds, (run (heard role)).trans hears⟩
      simpa [Binding.part, role, Role.part] using part

/-- It shows the same as against an earlier world with the same values. -/
theorem since {a : World} (shows : b.Shows texts w data w') (objects : w.objects = a.objects)
    (size : a.nodes.size ≤ w.nodes.size)
    (heard : b.role = .control → w.listeners b.node = a.listeners b.node) :
    b.Shows texts a data w' := by
  unfold Shows at shows ⊢
  have value : w.peek data b.key = a.peek data b.key := peek_of_objects objects data b.key
  rw [value] at shows
  split at shows
  · exact shows
  · obtain ⟨e, found, alone⟩ := shows
    refine ⟨e, found, ?_⟩
    split at alone
    · rename_i empty
      rwa [if_pos empty]
    · rename_i filled
      obtain ⟨g, only, new, shown⟩ := alone
      rw [if_neg filled]
      exact ⟨g, only, Nat.le_trans size new, shown⟩
  · rename_i role
    rwa [heard role] at shows

end Binding.Shows

namespace World

/-- What making bindings does to the page: each of them shows its property, and no other part of any
node changes. -/
structure Draws (texts : String → String) (w : World) (data : ObjectId) (bs : List Binding)
    (w' : World) : Prop where
  spares : Spares (fun p => ∃ b ∈ bs, b.Writes p) w w'
  shows : b ∈ bs → b.Shows texts w data w'
  /-- Different elements are given different texts. -/
  own : x ∈ bs → y ∈ bs → x.role = .text → y.role = .text → g ∈ w'.children x.node →
    g ∈ w'.children y.node → x.node = y.node

namespace Draws

variable {texts texts' : String → String} {w w' : World} {data : ObjectId} {b : Binding}
  {bs bs' : List Binding}

theorem nil (texts : String → String) (w : World) (data : ObjectId) : Draws texts w data [] w where
  spares := .refl _ w
  shows member := absurd member List.not_mem_nil
  own member := absurd member List.not_mem_nil

/-- What has been bound goes on to show its property while other parts are bound. -/
private theorem early {a b c : World} (first : Draws texts a data bs b)
    (spares : Spares (fun p => ∃ y ∈ bs', y.Writes p) b c) (member : x ∈ bs)
    (apart : ∀ y ∈ bs', y.part ≠ x.part)
    (foreign : x.role = .text → ∀ y ∈ bs', y.node ∉ b.children x.node) :
    x.Shows texts a data c := by
  refine (first.shows member).spared spares ?_ ?_ ?_
  · rintro ⟨y, later, same | ⟨-, same⟩⟩
    · exact apart y later same.symm
    · unfold Binding.part at same
      cases role : x.role <;> simp [role, Role.part] at same
  · rintro role ⟨y, later, writes⟩
    exact apart y later (Binding.part_eq_of_writes role (.inr writes))
  · intro role g below
    have away : ∀ p, (p = .text g ∨ p = .value g ∨ p = .listeners g) → ¬∃ y ∈ bs', y.Writes p := by
      rintro p part ⟨y, later, writes⟩
      exact foreign role y later (writes.node part ▸ below)
    exact ⟨away _ (.inl rfl), away _ (.inr (.inl rfl)), away _ (.inr (.inr rfl))⟩

/-- What is bound later shows its property as if it had been bound at first. -/
private theorem late {a b c : World} (spares : Spares (fun p => ∃ x ∈ bs, x.Writes p) a b)
    (second : Draws texts b data bs' c) (objects : b.objects = a.objects) (member : y ∈ bs')
    (apart : ∀ x ∈ bs, y.part ≠ x.part) : y.Shows texts a data c := by
  refine (second.shows member).since objects spares.size fun role => ?_
  apply spares.listeners
  rintro ⟨x, earlier, writes⟩
  exact apart x earlier (Binding.part_eq_of_writes role (.inr writes)).symm

private theorem spares_append {a b c : World} (first : Spares (fun p => ∃ x ∈ bs, x.Writes p) a b)
    (second : Spares (fun p => ∃ y ∈ bs', y.Writes p) b c) :
    Spares (fun p => ∃ x ∈ bs ++ bs', x.Writes p) a c := by
  refine (first.mono ?_).trans (second.mono ?_)
  · rintro p ⟨x, member, writes⟩
    exact ⟨x, List.mem_append_left _ member, writes⟩
  · rintro p ⟨y, member, writes⟩
    exact ⟨y, List.mem_append_right _ member, writes⟩

/-- The text that an element is given is new. -/
theorem fresh (draws : Draws texts w data bs w') (member : b ∈ bs) (role : b.role = .text)
    (below : g ∈ w'.children b.node) : w.nodes.size ≤ g.index ∧ g.index < w'.nodes.size := by
  have shows := draws.shows member
  simp only [Binding.Shows, role] at shows
  obtain ⟨e, found, alone⟩ := shows
  rw [children_of_element found] at below
  split at alone
  · rw [alone] at below
    cases below
  · obtain ⟨g', only, new, text⟩ := alone
    obtain rfl : g = g' := by simpa [only] using below
    exact ⟨new, Arena.lt_size_of_get? text⟩

/-- What stands below an element stays there while its text is spared. -/
private theorem children {a b c : World} (first : Draws texts a data bs b)
    (spares : Spares (fun p => ∃ y ∈ bs', y.Writes p) b c) (member : x ∈ bs) (role : x.role = .text)
    (apart : ∀ y ∈ bs', y.part ≠ x.part) : c.children x.node = b.children x.node := by
  have shows := first.shows member
  simp only [Binding.Shows, role] at shows
  obtain ⟨e, found, -⟩ := shows
  have spared : ¬∃ y ∈ bs', y.Writes (.text x.node) := by
    rintro ⟨y, later, same | ⟨-, same⟩⟩
    · exact apart y later (same.symm.trans (by simp [Binding.part, role, Role.part]))
    · cases same
  obtain ⟨x', after, keeps⟩ := spares.kept found
  cases keeps with
  | element below => rw [children_of_element after, children_of_element found, below spared]

theorem append {a b c : World} (first : Draws texts a data bs b) (second : Draws texts b data bs' c)
    (objects : b.objects = a.objects) (apart : ∀ x ∈ bs, ∀ y ∈ bs', y.part ≠ x.part)
    (foreign : ∀ x ∈ bs, x.role = .text → ∀ y ∈ bs', y.node ∉ b.children x.node) :
    Draws texts a data (bs ++ bs') c where
  spares := spares_append first.spares second.spares
  shows {x} member := by
    rcases List.mem_append.mp member with before | after
    · exact first.early second.spares before (apart x before) (foreign x before)
    · exact late first.spares second objects after fun y earlier => apart y earlier x after
  own {x y g} here there role role' below below' := by
    have old : ∀ z ∈ bs, z.role = .text → g ∈ c.children z.node →
        g ∈ b.children z.node ∧ g.index < b.nodes.size := by
      intro z member role below
      rw [first.children second.spares member role (apart z member)] at below
      exact ⟨below, (first.fresh member role below).2⟩
    rcases List.mem_append.mp here with early | late <;>
      rcases List.mem_append.mp there with early' | late'
    · exact first.own early early' role role' (old x early role below).1 (old y early' role' below').1
    · have new := (second.fresh late' role' below').1
      exact absurd (old x early role below).2 (Nat.not_lt_of_le new)
    · have new := (second.fresh late role below).1
      exact absurd (old y early' role' below').2 (Nat.not_lt_of_le new)
    · exact second.own late late' role role' below below'

/-- It matters only what the texts come to that elements are given. -/
theorem congr (draws : Draws texts w data bs w') (same : ∀ b ∈ bs, b.role = .text →
    (w.peek data b.key).textContent ≠ "" →
      texts (w.peek data b.key).textContent = texts' (w.peek data b.key).textContent) :
    Draws texts' w data bs w' where
  spares := draws.spares
  shows {b} member := by
    have shows := draws.shows member
    unfold Binding.Shows at shows ⊢
    split at shows
    · exact shows
    · rename_i role
      by_cases empty : (w.peek data b.key).textContent = ""
      · simpa only [empty, if_true] using shows
      · simpa only [empty, if_false, same b member role empty] using shows
    · exact shows
  own := draws.own

/-- A text that an element has been given is bound as well. -/
theorem generated {a b c : World} (first : Draws id a data bs b) (second : Draws id b data bs' c)
    (objects : b.objects = a.objects) (elements : ∀ x ∈ bs, ∃ e, b.node? x.node = some (.element e))
    (only : ∀ x ∈ bs, x.role = .text → b.children x.node = [g])
    (here : ∀ y ∈ bs', y.node = g) (labels : ∀ y ∈ bs', y.role ≠ .text) (text : b.node? g = some (.text content))
    (shown : c.node? g = some (.text (texts content))) : Draws texts a data (bs ++ bs') c where
  spares := spares_append first.spares second.spares
  shows {x} member := by
    have other : ∀ x ∈ bs, x.node ≠ g := by
      rintro x member rfl
      obtain ⟨e, found⟩ := elements x member
      cases found.symm.trans text
    have apart : ∀ x ∈ bs, ∀ y ∈ bs', y.part ≠ x.part := fun x early y late same =>
      other x early ((Binding.node_of_part same).symm.trans (here y late))
    rcases List.mem_append.mp member with before | after
    · cases role : x.role with
      | text =>
        have shows := first.shows before
        simp only [Binding.Shows, role] at shows ⊢
        obtain ⟨e, found, alone⟩ := shows
        have untouched : ∀ p, (p = .text x.node ∨ p = .value x.node ∨ p = .listeners x.node) →
            ¬∃ y ∈ bs', y.Writes p := by
          rintro p part ⟨y, later, writes⟩
          exact other x before ((writes.node part).symm.trans (here y later))
        refine ⟨e, second.spares.node (untouched _ (.inl rfl)) (untouched _ (.inr (.inl rfl)))
          (untouched _ (.inr (.inr rfl))) found, ?_⟩
        have single : e.children = [g] := (children_of_element found).symm.trans (only x before role)
        split at alone
        · rw [alone] at single
          cases single
        · rename_i filled
          obtain ⟨g', below, new, given⟩ := alone
          obtain rfl : g' = g := List.singleton_inj.mp (below.symm.trans single)
          have same : (a.peek data x.key).textContent = content := by
            simpa using given.symm.trans text
          rw [if_neg filled, same]
          exact ⟨g', below, new, shown⟩
      | label | control =>
        have shows := first.early second.spares before (apart x before) (by simp [role])
        simpa only [Binding.Shows, role] using shows
    · have shows := late first.spares second objects after fun y earlier => apart y earlier x after
      cases role : x.role with
      | text => exact absurd role (labels x after)
      | label | control => simpa only [Binding.Shows, role] using shows
  own {x y g'} here there role role' _ _ := by
    have early : ∀ z ∈ bs ++ bs', z.role = .text → z ∈ bs := by
      intro z member role
      rcases List.mem_append.mp member with before | after
      · exact before
      · exact absurd role (labels z after)
    have before := early x here role
    have before' := early y there role'
    have given : g ∈ b.children x.node := by simp [only x before role]
    have given' : g ∈ b.children y.node := by simp [only y before' role']
    exact first.own before before' role role' given given'

private theorem spares_draw (w : World) (data : ObjectId) (b : Binding) :
    Spares b.Writes w (w.draw data b) := by
  unfold draw
  split
  · rename_i role
    refine (spares_setText w b.node _).mono ?_
    rintro _ rfl
    exact .inl (by simp [Binding.part, role, Role.part])
  · rename_i role
    refine (spares_setText w b.node _).mono ?_
    rintro _ rfl
    exact .inl (by simp [Binding.part, role, Role.part])
  · rename_i role
    refine ((spares_setControlValue w b.node _).mono ?_).trans ((spares_listen _ b.node _).mono ?_)
    · rintro _ rfl
      exact .inl (by simp [Binding.part, role, Role.part])
    · rintro _ rfl
      exact .inr ⟨role, rfl⟩

private theorem shows_draw (fits : ∃ x, w.node? b.node = some x ∧ b.role.Fits x) :
    b.Shows id w data (w.draw data b) := by
  obtain ⟨x, found, fits⟩ := fits
  unfold Binding.Shows draw
  cases role : b.role with
  | label shown =>
    cases x with
    | text content => exact node?_setText_text shown found
    | element e => simp [role, Role.Fits] at fits
  | text =>
    cases x with
    | text content => simp [role, Role.Fits] at fits
    | element e =>
      have alone := showsAlone_setText found (w.peek data b.key).textContent
      refine ⟨_, node?_setText_element _ found, ?_⟩
      unfold ShowsAlone at alone
      split at alone
      · rename_i empty
        simp [empty]
      · rename_i filled
        obtain ⟨g, only, text⟩ := alone
        simp only [filled, if_false] at only ⊢
        obtain rfl : ⟨w.nodes.size⟩ = g := by simpa using only
        exact ⟨_, rfl, Nat.le_refl _, text⟩
  | control =>
    cases x with
    | text content => simp [role, Role.Fits] at fits
    | element e =>
      refine ⟨_, node?_listen_element _ (node?_setControlValue_element _ found), rfl, ?_⟩
      simp [World.listeners, found, Node.listeners]

/-- One binding is made, of a node of its kind. -/
theorem install (fits : ∃ x, w.node? b.node = some x ∧ b.role.Fits x) :
    Draws id w data [b] (w.install data b).1 := by
  have watches : (w.install data b).1.nodes = (w.draw data b).nodes := nodes_watch _ _ _ _
  refine ⟨?_, ?_, ?_⟩
  · refine ((spares_draw w data b).mono fun p writes => ?_).trans (.of_nodes watches)
    exact ⟨b, List.mem_singleton_self b, writes⟩
  · intro b' member
    obtain rfl := List.mem_singleton.mp member
    have spares : Spares (fun _ => False) (w.draw data b') (w.install data b').1 :=
      .of_nodes watches
    exact (shows_draw fits).spared spares id (fun _ => id) fun _ _ _ => ⟨id, id, id⟩
  · intro x y g here there
    rw [List.mem_singleton.mp here, List.mem_singleton.mp there]
    exact fun _ _ _ _ => rfl

/-- The directives of an element write different parts of it. -/
theorem attributes (found : w.node? n = some (.element e)) (attributes : List Attribute)
    (names : (attributes.map (·.name)).Nodup) :
    Draws id w data (directives n attributes) (w.installAll data (directives n attributes)).1 := by
  induction attributes generalizing w e with
  | nil => exact nil id w data
  | cons a rest ih =>
    obtain ⟨fresh, names⟩ := List.nodup_cons.mp names
    cases named : Directive.ofAttribute? a.name with
    | none => simpa [directives, named] using ih found names
    | some d =>
      let b : Binding := ⟨n, d.role, a.value⟩
      have split : directives n (a :: rest) = [b] ++ directives n rest := by
        simp [directives, named, b]
      have first : Draws id w data [b] (w.install data b).1 :=
        install ⟨_, found, by cases d <;> trivial⟩
      have enrolled : (w.install data b).1.objects = w.objects :=
        (objects_watch _ data b.key b.reaction).trans (objects_draw w data b)
      obtain ⟨x, kept, keeps⟩ := first.spares.kept found
      obtain ⟨e', rfl⟩ : ∃ e', x = .element e' := by
        cases keeps with
        | element => exact ⟨_, rfl⟩
      have below : b.role = .text → n ∉ (w.install data b).1.children n := by
        intro role inside
        have shows := first.shows (List.mem_singleton_self b)
        simp only [Binding.Shows, role] at shows
        obtain ⟨e, present, alone⟩ := shows
        have listed : n ∈ e.children := children_of_element present ▸ inside
        split at alone
        · simp [alone] at listed
        · obtain ⟨g, only, -, text⟩ := alone
          obtain rfl : n = g := by simpa [only] using listed
          cases text.symm.trans kept
      rw [split]
      refine first.append (ih kept names) enrolled ?_ ?_
      · intro x member y later same
        obtain rfl := List.mem_singleton.mp member
        obtain ⟨c, listed, made⟩ := List.mem_filterMap.mp later
        obtain ⟨d', named', rfl⟩ := Option.map_eq_some_iff.mp made
        have kind : d' = d := by
          cases d <;> cases d' <;> simp_all [b, Binding.part, Directive.role, Role.part]
        have again : c.name ∈ rest.map (·.name) := List.mem_map_of_mem listed
        have twice : c.name = a.name := eq_of_ofAttribute (kind ▸ named') named
        rw [twice] at again
        exact fresh again
      · intro x member role y later
        obtain rfl := List.mem_singleton.mp member
        obtain ⟨c, -, made⟩ := List.mem_filterMap.mp later
        obtain ⟨d', -, rfl⟩ := Option.map_eq_some_iff.mp made
        exact below role

end Draws

end World
end DataBinding
