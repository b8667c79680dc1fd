import DataBinding.Proofs.Marking

/-! Pages and data in step. Every binding is in order, and nobody else watches or listens;
storing a value and typing into a control keep it so once all have been told. -/
namespace DataBinding.World

/-- All bindings are in order, nobody but controls listens and nobody collects, and all
watchers that are left belong to bindings. -/
structure Synced (base first : Nat) (w : World) (marks : List Mark) : Prop where
  ordered : Ordered base first w marks
  listening : Listening w marks
  targets : w.targets = []
  held : k ∈ marks → w.holds k.watcher = true
  gone : s.index < base → w.holds s = false

variable {base first : Nat} {w : World} {marks : List Mark} {o : ObjectId} {key : String} {v : Value}

private theorem Listening.after {w' : World} (listening : Listening w marks)
    (same : ∀ n, w'.listeners n = w.listeners n) (b : World) :
    Listening w' (marks.map (·.after b o key v)) := by
  intro n
  rcases listening n with ⟨silent, nobody⟩ | ⟨k, member, role, node, listeners⟩
  · refine .inl ⟨(same n).trans silent, fun k' member role => ?_⟩
    obtain ⟨k, before, rfl⟩ := List.mem_map.mp member
    exact nobody k before role
  · exact .inr ⟨_, List.mem_map_of_mem member, role, node, (same n).trans listeners⟩

/-- The bindings of a page are in order, but for controls that hold a value that is about to
be stored; storing it puts them in order. -/
private theorem synced_stored {w₀ : World} (awaits : Awaits base first o key v w marks)
    (sound : w.Sound) (synced : Synced base first w₀ marks) (custody : w.custody = w₀.custody)
    (listeners : ∀ n, w.listeners n = w₀.listeners n) :
    Synced base first (w.stored o key v) (marks.map (·.after w o key v)) ∧
      Spares (Written marks o key) w (w.stored o key v) ∧
      (w.stored o key v).custody = w.custody := by
  have held : ∀ s, w.holds s = w₀.holds s := fun s => holds_of_custody custody
  obtain ⟨ordered, spares, custody'⟩ := ordered_stored awaits sound
    (fun k member => (held _).trans (synced.held member))
    (fun s early => (held s).trans (synced.gone early))
  have held' : ∀ s, (w.stored o key v).holds s = w₀.holds s := fun s =>
    holds_of_custody (custody'.trans custody)
  refine ⟨⟨ordered, ?_, ?_, fun {k} member => ?_, fun early => (held' _).trans (synced.gone early)⟩,
    spares, custody'⟩
  · refine synced.listening.after (fun n => ?_) w
    refine (spares.listeners ?_).trans (listeners n)
    rintro ⟨k, -, -, -, -, part⟩
    exact k.part_ne_listeners n part
  · exact (targets_of_custody (custody'.trans custody)).trans synced.targets
  · obtain ⟨k', before, rfl⟩ := List.mem_map.mp member
    have kept := synced.held before
    exact (held' _).trans kept

/-- When a value has been stored, all is in step again, and only bindings of the property
have been written. -/
theorem Synced.stored (synced : Synced base first w marks) (sound : w.Sound) (o : ObjectId)
    (key : String) (v : Value) :
    Synced base first (w.stored o key v) (marks.map (·.after w o key v)) ∧
      Spares (Written marks o key) w (w.stored o key v) ∧
      (w.stored o key v).custody = w.custody :=
  synced_stored (synced.ordered.awaits o key v) sound synced rfl fun _ => rfl

/-- Typing into what is no control changes nothing. -/
private theorem setControlValue_of_plain (plain : ∀ e, w.node? n ≠ some (.element e)) (text : String) :
    w.setControlValue n text = w := by
  have same : (w.setControlValue n text).nodes = w.nodes := by
    refine Arena.ext_get? fun i => ?_
    have after := node?_modifyNode w n ⟨i⟩ (·.onElement fun e => { e with value := text })
    apply after.trans
    split
    · rename_i here
      cases found : w.node? ⟨i⟩ with
      | none => exact found.symm
      | some x =>
        cases x with
        | text content => exact found.symm
        | element e => exact absurd (here ▸ found) (plain e)
    · rfl
  simp only [setControlValue, modifyNode] at same ⊢
  rw [same]

private theorem part_of_control {k : Mark} (same : k.part = .value n) :
    k.role = .control ∧ k.node = n := by
  refine ⟨?_, Mark.node_of_part (.inr same)⟩
  unfold Mark.part at same
  cases role : k.role <;> simp_all [Role.part]

/-- Typing into what is no bound control concerns no binding. -/
private theorem ordered_typed (ordered : Ordered base first w marks)
    (nobody : ∀ k ∈ marks, k.role = .control → k.node ≠ n) (text : String) :
    Ordered base first (w.setControlValue n text) marks := by
  by_cases element : ∃ e, w.node? n = some (.element e)
  · obtain ⟨e, found⟩ := element
    refine ordered.kept (moves_setControlValue w n text).grows rfl (fun _ => rfl)
      (spares_setControlValue w n text) (fun k member part => ?_) fun k member role changed g below => ?_
    · obtain ⟨control, here⟩ := part_of_control part
      exact nobody k member control here
    · obtain ⟨content, shown⟩ := text_of_shown (ordered.order member).shows role changed below
      refine ⟨by simp, fun part => ?_, by simp⟩
      rw [Part.value.inj part, found] at shown
      cases shown
  · rw [setControlValue_of_plain (fun e found => element ⟨e, found⟩)]
    exact ordered

/-- Typing into a bound control gives it the value that is then written back. -/
private theorem awaits_typed (ordered : Ordered base first w marks) (member : k ∈ marks)
    (control : k.role = .control) (text : String) :
    Awaits base first k.data k.key (.string text) (w.setControlValue k.node text) marks := by
  have spares := spares_setControlValue w k.node text
  have part : k.part = .value k.node := by simp [Mark.part, control, Role.part]
  refine ⟨ordered.linked.kept (moves_setControlValue w k.node text).grows rfl (fun _ => rfl) spares,
    Nat.le_trans ordered.pages spares.size, fun {l} other => ?_⟩
  by_cases same : l = k
  · subst same
    obtain ⟨x, found, fits⟩ := ordered.linked.fits member
    cases x with
    | text content => simp [control, Role.Fits] at fits
    | element e =>
      have typed := node?_setControlValue_element text found
      cases present : l.present with
      | true =>
        have cached := (ordered.order member).cached present
        exact .inr ⟨⟨rfl, rfl, rfl⟩, control, cached, _, typed, rfl⟩
      | false =>
        refine .inl ⟨fun now => ?_, ?_, fun role => ?_⟩
        · rw [present] at now
          cases now
        · unfold Mark.Shows
          rw [control]
          exact ⟨_, typed, fun now => by rw [present] at now; cases now⟩
        · rw [control] at role
          cases role
  · left
    refine (ordered.order other).spared spares rfl (ordered.linked.since other) (fun _ => rfl) ?_ ?_
    · exact fun here => same (ordered.linked.apart other member (here.trans part.symm))
    · intro role changed g below
      have away := ((ordered.order other).own role changed below).2 k member
      exact ⟨by simp, fun here => away (Part.value.inj here).symm, by simp⟩

/-- Typing into a control that is bound stores the text in its property; nobody hears of
typing into any other node. -/
theorem Synced.typed (synced : Synced base first w marks) (sound : w.Sound) (n : NodeId)
    (text : String) :
    w.listeners n = [] ∧ Synced base first (w.setControlValue n text) marks ∨
      ∃ k ∈ marks, k.role = .control ∧ k.node = n ∧ w.listeners n = [.writeBack k.data k.key] ∧
        Synced base first ((w.setControlValue n text).stored k.data k.key (.string text))
          (marks.map (·.after w k.data k.key (.string text))) ∧
        Spares (Written marks k.data k.key) (w.setControlValue n text)
          ((w.setControlValue n text).stored k.data k.key (.string text)) ∧
        ((w.setControlValue n text).stored k.data k.key (.string text)).custody = w.custody := by
  have same : ∀ m, (w.setControlValue n text).listeners m = w.listeners m := fun m =>
    (spares_setControlValue w n text).listeners (by simp)
  have sound' := (moves_setControlValue w n text).sound sound
  rcases synced.listening n with ⟨silent, nobody⟩ | ⟨k, member, control, rfl, heard⟩
  · refine .inl ⟨silent, ordered_typed synced.ordered nobody text, fun m => ?_, synced.targets,
      synced.held, synced.gone⟩
    rw [same]
    exact synced.listening m
  · obtain ⟨synced', spares, custody⟩ := synced_stored (awaits_typed synced.ordered member control text)
      sound' synced rfl same
    exact .inr ⟨k, member, control, rfl, heard, synced', spares, custody⟩

end DataBinding.World
