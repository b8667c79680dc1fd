import DataBinding.Proofs.Editing

/-! A form control and the property that it is bound to. Typing puts the text into the
control first and stores it afterwards; the binding writes the property into the control
whenever its watcher is told of a value other than the one that it remembers. A callback
that is told earlier may meanwhile store the old value again: then the watcher finds
nothing new, and the control goes on holding what was typed. -/
namespace DataBinding

namespace World

theorem control_set {w : World} (n : NodeId) (text : String)
    (found : w.node? c = some (.element e)) :
    ∃ e', (w.setControlValue n text).node? c = some (.element e') ∧
      e'.value = if n = c then text else e.value := by
  by_cases here : n = c
  · subst here
    exact ⟨_, node?_setControlValue_element text found, (if_pos rfl).symm⟩
  · refine ⟨e, (touches_modifyNode w n _).other (Ne.symm here) found, ?_⟩
    rw [if_neg here]

theorem control_react {w : World} (reaction : Reaction) (v : Value)
    (found : w.node? c = some (.element e)) :
    ∃ e', (w.react reaction v).node? c = some (.element e') ∧
      e'.value = if reaction = .showValue c then v.formValue else e.value := by
  cases reaction with
  | callback k => exact ⟨e, found, by simp⟩
  | showText n =>
    rw [if_neg (by simp)]
    by_cases here : c = n
    · subst here
      exact ⟨_, node?_setText_element v.textContent found, rfl⟩
    · exact ⟨e, (touches_setText w n _).other here found, rfl⟩
  | showValue n =>
    simp only [Reaction.showValue.injEq]
    exact control_set n v.formValue found

end World

namespace Machine
open World

variable {σ : Type}

/-- What a step of an editing program makes of a watcher. -/
theorem Effect.watcher {m m' : Machine σ} (effect : Effect m m')
    (found : m.world.watcher? s = some x) :
    m'.world.watcher? s = some x ∧ (∀ y v, m.fires? ≠ some (s, y, v)) ∨
    ∃ v, m.fires? = some (s, x, v) ∧ m'.world.watcher? s = some { x with cached := v } := by
  cases effect with
  | none _ fires _ subscribers =>
    exact .inl ⟨(watcher?_of_subscribers subscribers s).trans found, by simp [fires]⟩
  | watches _ fires _ _ subscribers =>
    obtain ⟨y, present, same⟩ := Option.bind_eq_some_iff.mp found
    refine .inl ⟨?_, by simp [fires]⟩
    rw [watcher?, subscriber?_of_push subscribers present]
    exact same
  | types _ fires _ subscribers =>
    exact .inl ⟨(watcher?_of_subscribers subscribers s).trans found, by simp [fires]⟩
  | @reacts t y v _ fires world =>
    have after : m'.world.watcher? s = (m.world.remember t v).watcher? s := by
      rw [world]
      exact watcher?_of_subscribers (react_same _ y.reaction v).2.2 s
    rw [after, watcher?_remember, fires]
    by_cases told : t = s
    · subst told
      obtain rfl : y = x := Option.some.inj ((watcher_of_fires fires).symm.trans found)
      exact .inr ⟨v, rfl, by rw [if_pos rfl, found]; rfl⟩
    · refine .inl ⟨by rw [if_neg told]; exact found, ?_⟩
      intro z u same
      exact told (Prod.mk.inj (Option.some.inj same)).1

/-- A watcher that runs no callback was there before the step. -/
theorem Effect.origin {m m' : Machine σ} (effect : Effect m m')
    (found : m'.world.watcher? s = some x) (page : ∀ c, x.reaction ≠ .callback c) :
    ∃ y, m.world.watcher? s = some y := by
  cases effect with
  | none _ _ _ subscribers => exact ⟨x, (watcher?_of_subscribers subscribers s).symm.trans found⟩
  | watches _ _ _ reaction subscribers =>
    rcases watcher?_of_push subscribers found with before | same
    · exact ⟨x, before⟩
    · obtain rfl := Option.some.inj same
      exact absurd reaction (page _)
  | types _ _ _ subscribers => exact ⟨x, (watcher?_of_subscribers subscribers s).symm.trans found⟩
  | @reacts t y v _ _ world =>
    rw [world, watcher?_of_subscribers (react_same _ y.reaction v).2.2 s, watcher?_remember] at found
    split at found
    · obtain ⟨z, present, -⟩ := Option.map_eq_some_iff.mp found
      exact ⟨z, present⟩
    · exact ⟨x, found⟩

/-- The text typed into a control since its binding last wrote into it, once the next step
is done. -/
def typedNext (c : NodeId) (m : Machine σ) (typed : Option String) : Option String :=
  match m.typing?, m.fires? with
  | some (n, text), _ => if n = c then some text else typed
  | none, some (_, x, _) => if x.reaction = .showValue c then none else typed
  | none, none => typed

/-- What a step of an editing program makes of a control: it is typed into, its binding
writes into it, or neither happens. -/
inductive Control (c : NodeId) (m : Machine σ) (before after : String) (typed : Option String) :
    Option String → Prop where
  | kept (same : after = before) (other : ∀ s x v, m.fires? = some (s, x, v) → x.reaction ≠ .showValue c) :
      Control c m before after typed typed
  | typed (same : after = text) : Control c m before after typed (some text)
  | written (fires : m.fires? = some (s, x, v)) (shows : x.reaction = .showValue c)
      (same : after = v.formValue) : Control c m before after typed none

theorem Effect.control {m m' : Machine σ} (effect : Effect m m') (typed : Option String)
    (found : m.world.node? c = some (.element e)) :
    ∃ e', m'.world.node? c = some (.element e') ∧
      Control c m e.value e'.value typed (m.typedNext c typed) := by
  have same {w w' : World} (nodes : w'.nodes = w.nodes) : w'.node? c = w.node? c := by
    simp only [node?, nodes]
  cases effect with
  | none typing fires nodes _ =>
    simp only [typedNext, typing, fires]
    exact ⟨e, (same nodes).trans found, .kept rfl (by simp [fires])⟩
  | watches typing fires nodes _ _ =>
    simp only [typedNext, typing, fires]
    exact ⟨e, (same nodes).trans found, .kept rfl (by simp [fires])⟩
  | @types n text typing fires nodes _ =>
    obtain ⟨e', after, value⟩ := control_set n text found
    simp only [typedNext, typing]
    refine ⟨e', (same nodes).trans after, ?_⟩
    split at value
    · rename_i here
      rw [if_pos here]
      exact .typed value
    · rename_i other
      rw [if_neg other]
      exact .kept value (by simp [fires])
  | @reacts s x v typing fires world =>
    have before : (m.world.remember s v).node? c = some (.element e) := found
    obtain ⟨e', after, value⟩ := control_react x.reaction v before
    simp only [typedNext, typing, fires]
    refine ⟨e', world ▸ after, ?_⟩
    split at value
    · rename_i shows
      rw [if_pos shows]
      exact .written fires shows value
    · rename_i other
      rw [if_neg other]
      refine .kept value ?_
      intro t y u same
      obtain ⟨rfl, rfl, rfl⟩ : t = s ∧ y = x ∧ u = v := by simpa [fires, eq_comm] using same
      exact other

/-- Programs that edit run one after the other, from a given machine on; `typed` is the text
that was typed into the control since its binding last wrote into it. -/
inductive Edited (c : NodeId) (first : Machine σ) : Machine σ → Option String → Prop where
  | refl : Edited c first first none
  | step (edited : Edited c first m typed) : Edited c first m.step (m.typedNext c typed)
  | start (edited : Edited c first m typed) (idle : m.idle = true) (host : σ) (edits : p.Edits) :
      Edited c first (start { m with host := host } p) typed

/-- The text that was typed into the control when a machine has taken some steps. -/
def typedRun (c : NodeId) (m : Machine σ) : Nat → Option String
  | 0 => none
  | n + 1 => (run n m).typedNext c (typedRun c m n)

theorem edited_run (c : NodeId) (m : Machine σ) (n : Nat) :
    Edited c m (run n m) (m.typedRun c n) := by
  induction n with
  | zero => exact .refl
  | succ n ih =>
    rw [run_succ]
    exact ih.step

/-- What the control holds: the text typed into it, or what one of its watchers remembers. -/
def Shows (m : Machine σ) (watchers : List SubscriberId) (c : NodeId) (value : String) :
    Option String → Prop
  | some text => value = text
  | none => ∃ s ∈ watchers, ∃ x, m.world.watcher? s = some x ∧ x.reaction = .showValue c ∧
      value = x.cached.formValue

/-- The view model keeps the watchers that write into the control: they watch the property
and are settled, and nobody else alive writes into it. -/
structure Minded (data : ObjectId) (key : String) (c : NodeId) (d : DepId) (vm : ViewModelId)
    (view : ViewModel) (m : Machine σ) (typed : Option String) : Prop where
  sound : m.Sound
  edits : m.Edits
  unbroken : m.failure = none
  tracked : m.world.Tracked data key d
  held : m.world.viewModel? vm = some view
  among : m.alive s = true → m.world.watcher? s = some x → x.reaction = .showValue c →
    s ∈ view.watchers
  bound : s ∈ view.watchers → m.world.watcher? s = some x → x.reaction = .showValue c →
    x.root = data ∧ x.key = key
  settled : s ∈ view.watchers → m.Settled [] data key d s
  control : ∃ e, m.world.node? c = some (.element e) ∧ m.Shows view.watchers c e.value typed

namespace Minded

variable {m : Machine σ} {view : ViewModel}

private theorem alive (minded : Minded data key c d vm view m typed) (listed : s ∈ view.watchers) :
    m.alive s = true :=
  alive_iff.mpr (.inl (holds_of_viewModel minded.held listed))

/-- While nobody waits to be told, the watchers remember the value of the property. -/
private theorem agrees (minded : Minded data key c d vm view m typed)
    (quiet : ∀ f ∈ m.frames, f.pending = []) (listed : s ∈ view.watchers)
    (found : m.world.watcher? s = some x) (shows : x.reaction = .showValue c) :
    x.cached.Agrees (m.world.peek data key) := by
  obtain ⟨root, watched⟩ := minded.bound listed found shows
  obtain ⟨-, agrees | ⟨above, frames, f, member, waits⟩⟩ := minded.settled listed x found root watched
  · exact agrees
  · rw [List.append_nil] at frames
    rw [quiet f (frames ▸ member)] at waits
    cases waits

/-- While nobody waits to be told, the control holds the text typed last or the property. -/
theorem value (minded : Minded data key c d vm view m typed)
    (quiet : ∀ f ∈ m.frames, f.pending = []) :
    m.world.controlValue c = typed.getD (m.world.peek data key).formValue := by
  obtain ⟨e, found, shows⟩ := minded.control
  rw [controlValue_of_element found]
  cases typed with
  | some text => exact shows
  | none =>
    obtain ⟨s, listed, x, watching, reaction, same⟩ := shows
    exact same.trans (Value.formValue_of_agrees (minded.agrees quiet listed watching reaction))

private theorem settled_step (minded : Minded data key c d vm view m typed)
    (listed : s ∈ view.watchers) (alive : m.step.alive s = true) :
    m.step.Settled [] data key d s := by
  have settled := minded.settled listed
  have turn := step_turn (m := m) fun _ => minded.sound.known
  cases due : m.frames with
  | nil =>
    rw [step_of_idle (m := m) (by simp [idle, due])]
    exact settled
  | cons top below =>
    have inside : m.frames = top :: below ++ [] := due.trans (List.append_nil _).symm
    refine turn.settled minded.tracked inside ?_ alive (minded.sound.known (minded.alive listed)) settled
    intro _
    rw [minded.edits.effect.2.1]
    exact minded.unbroken

private theorem shows_step (minded : Minded data key c d vm view m typed)
    (found : m.world.node? c = some (.element e)) (shows : m.Shows view.watchers c e.value typed) :
    ∃ e', m.step.world.node? c = some (.element e') ∧
      m.step.Shows view.watchers c e'.value (m.typedNext c typed) := by
  have effect := minded.edits.effect.1
  obtain ⟨e', after, control⟩ := effect.control typed found
  refine ⟨e', after, ?_⟩
  generalize m.typedNext c typed = next at control
  cases control with
  | kept same other =>
    rw [same]
    cases typed with
    | some text => exact shows
    | none =>
      obtain ⟨s, listed, x, watching, reaction, value⟩ := shows
      refine ⟨s, listed, x, ?_, reaction, value⟩
      rcases effect.watcher watching with ⟨still, -⟩ | ⟨v, fires, -⟩
      · exact still
      · exact absurd reaction (other _ _ _ fires)
  | typed same => exact same
  | @written s x v fires reaction same =>
    have watching := watcher_of_fires fires
    have listed := minded.among (alive_of_told minded.sound (told_of_fires fires)) watching reaction
    rcases effect.watcher watching with ⟨-, never⟩ | ⟨u, again, remembers⟩
    · exact absurd fires (never x v)
    · obtain rfl : v = u := by simpa using fires.symm.trans again
      exact ⟨s, listed, _, remembers, reaction, same⟩

protected theorem step (minded : Minded data key c d vm view m typed) :
    Minded data key c d vm view m.step (m.typedNext c typed) := by
  obtain ⟨effect, steady, views⟩ := minded.edits.effect
  have turn := step_turn (m := m) fun _ => minded.sound.known
  -- Whoever writes into the control did so before the step, with the same property.
  have before : ∀ {s x}, m.step.world.watcher? s = some x → x.reaction = .showValue c →
      ∃ y, m.world.watcher? s = some y ∧ y.reaction = .showValue c ∧ y.root = x.root ∧
        y.key = x.key := by
    intro s x found shows
    obtain ⟨y, present⟩ := effect.origin found (by simp [shows])
    rcases effect.watcher present with ⟨still, -⟩ | ⟨v, -, remembers⟩
    · obtain rfl : y = x := Option.some.inj (still.symm.trans found)
      exact ⟨y, present, shows, rfl, rfl⟩
    · obtain rfl := Option.some.inj (remembers.symm.trans found)
      exact ⟨y, present, shows, rfl, rfl⟩
  have held : m.step.world.viewModel? vm = some view := by
    rw [viewModel?, views]
    exact minded.held
  constructor
  · exact step_sound minded.sound
  · exact minded.edits.step
  · exact steady.trans minded.unbroken
  · exact turn.tracked minded.tracked
  · exact held
  · intro s x alive found shows
    obtain ⟨y, present, reaction, -⟩ := before found shows
    rcases turn.alive alive with old | ⟨unknown, -⟩
    · exact minded.among old present reaction
    · exact absurd (known_of_watcher present) unknown
  · intro s x listed found shows
    obtain ⟨y, present, reaction, root, watched⟩ := before found shows
    rw [← root, ← watched]
    exact minded.bound listed present reaction
  · intro s listed
    exact minded.settled_step listed (alive_iff.mpr (.inl (holds_of_viewModel held listed)))
  · obtain ⟨e, found, shows⟩ := minded.control
    exact minded.shows_step found shows

protected theorem start (minded : Minded data key c d vm view m typed) (idle : m.idle = true)
    (host : σ) (edits : p.Edits) :
    Minded data key c d vm view (start { m with host := host } p) typed where
  sound := start_sound minded.sound host p
  edits := by
    refine ⟨fun {q} member => ?_, minded.edits.callbacks⟩
    obtain rfl := Frame.program.inj (List.mem_singleton.mp member)
    exact edits
  unbroken := rfl
  tracked := minded.tracked
  held := minded.held
  among alive := minded.among (alive_start host p alive)
  bound := minded.bound
  settled {s} listed x found root watched := by
    obtain ⟨entry, agrees | ⟨above, frames, f, member, -⟩⟩ := minded.settled listed x found root watched
    · exact ⟨entry, .inl agrees⟩
    · rw [List.isEmpty_iff.mp idle, List.append_nil] at frames
      rw [← frames] at member
      cases member
  control := minded.control

end Minded

/-- The next step mounts data on a page in which a control is to be bound to a property. The
control stands below the element once the mount is done, the property exists, and nobody
alive writes into the control yet. What goes on after the mount only edits. -/
structure MountsControl (m : Machine σ) (data : ObjectId) (key : String) (c : NodeId) : Prop where
  reachable : m.Reachable
  mounts : ∃ element next w vm,
    m.frames = [.program (.call (.act (.mount element (.object data))) next)] ∧
    (∀ r, (next r).Edits) ∧ m.world.mount element (.object data) = some (w, vm) ∧ Below w element c
  callbacks : m.callbacks.get? i = some callback → (callback v).Edits
  control : ∃ e, m.world.node? c = some (.element e) ∧ ⟨"v-model", key⟩ ∈ e.attributes
  present : ∃ slot, m.world.slot? data key = some slot
  alone : m.alive s = true → m.world.watcher? s = some x → x.reaction ≠ .showValue c

/-- A walk that ends above the control has bound it. -/
private theorem binds_walk {w b : World} (control : w.node? c = some (.element e))
    (tidy : (Node.element e).Tidy) (directive : ⟨"v-model", key⟩ ∈ e.attributes)
    (ran : w.bind data element = some (b, watchers)) (stands : Below b element c) :
    Binds data key c w watchers b := by
  obtain ⟨visited, visits⟩ := bindWithin_visits _ _ _ ran
  have all : w.bindAll data visited = (b, watchers) := visits.bound
  have named : Directive.ofAttribute? "v-model" = some .model := by decide
  have reached := visited_of_below visits stands
  have bound : Binds data key c _ _ (w.bindAll data visited).1 :=
    binds_bindAll visited control (bindsTo_of_tidy tidy directive) directive named reached
  rwa [all] at bound

/-- A new watcher of a tracked property is on its list and remembers its value. -/
private theorem settled_walk {w b : World} (ran : w.bind data element = some (b, watchers))
    (sound : w.Sound) (tracked : w.slot? o key = some slot) (dep : slot.dep = some d)
    (listed : s ∈ watchers) (found : b.watcher? s = some x) (root : x.root = o) (watched : x.key = key) :
    x.cached = b.peek o key ∧ s ∈ b.entries d := by
  have grows := (moves_bind ran).grows
  have unknown := ((issues_bind ran).mem_iff.mp listed).1
  subst root watched
  obtain ⟨remembers, entry⟩ := grows.fresh unknown found tracked dep (sound.dep tracked dep)
  exact ⟨remembers.trans (peek_of_slot (grows.tracked tracked dep)).symm, entry⟩

/-- The mount sets up a watcher for the control. -/
private theorem MountsControl.minded {m : Machine σ} (mounting : m.MountsControl data key c) :
    ∃ d vm view, Minded data key c d vm view m.step none := by
  obtain ⟨element, next, w, vm, due, later, mounts, stands⟩ := mounting.mounts
  obtain ⟨e, control, directive⟩ := mounting.control
  obtain ⟨slot, present⟩ := mounting.present
  have sound := reachable_sound mounting.reachable
  have stepped : m.step = { m with world := w, frames := [.program (next (.viewModel vm))] } := by
    simp [Machine.step, due, request, perform, mounts, push]
  obtain ⟨b, watchers, ran, rfl, rfl⟩ := mount_eq_some mounts
  have ran : (m.world.observe (.object data)).bind data element = some (b, watchers) := ran
  obtain ⟨d, tracked⟩ := slot?_observe_object present
  have observed := moves_observe m.world (.object data)
  have grows := (moves_bind ran).grows
  have element' : (m.world.observe (.object data)).node? c = some (.element e) := by
    simpa only [node?, observe, nodes_observeAll] using control
  have below : Below b element c := by
    clear * - stands
    induction stands with
    | child stands => exact .child stands
    | deeper _ stands ih => exact .deeper ih stands
  have binds := binds_walk element' (sound.world.tidy control) directive ran below
  have settled := fun {s x} => settled_walk (s := s) (x := x) ran (observed.sound sound.world) tracked rfl
  have subscribers : (m.world.observe (.object data)).subscribers = m.world.subscribers :=
    subscribers_observeAll _ _
  have fresh : ∀ {s}, s ∈ watchers ↔ ¬m.world.Known s ∧ b.Known s := by
    intro s
    rw [binds.issues.mem_iff, Known, subscribers, ← Known]
  have turn := step_turn (m := m) fun _ => sound.known
  have unbroken : m.failure = none := unbroken_of_busy mounting.reachable (by simp [due])
  have sound' := step_sound sound
  refine ⟨d, ⟨b.viewModels.size⟩, ⟨element, data, watchers⟩, ?_⟩
  rw [stepped] at sound' ⊢
  constructor
  · exact sound'
  · refine ⟨fun {q} member => ?_, mounting.callbacks⟩
    obtain rfl := Frame.program.inj (List.mem_singleton.mp member)
    exact later _
  · exact unbroken
  · exact ⟨_, grows.tracked tracked rfl, rfl⟩
  · simp [viewModel?, Arena.get?_push, dataObject]
  · intro s x alive found shows
    by_cases old : m.world.Known s
    · rw [← stepped] at alive
      rcases turn.alive alive with before | ⟨unknown, -⟩
      · have watching := (observed.grows.trans grows).watcher_of_known old found
        exact absurd shows (mounting.alone before watching)
      · exact absurd old unknown
    · exact fresh.mpr ⟨old, known_of_watcher found⟩
  · intro s x listed found shows
    exact binds.watchers listed found shows
  · intro s listed x found root watched
    obtain ⟨remembers, entry⟩ := settled listed found root watched
    have agrees : x.cached.Agrees (b.peek data key) := by
      rw [remembers]
      exact Value.agrees_refl _
    exact ⟨entry, .inl agrees⟩
  · obtain ⟨e', after, value⟩ := binds.holds element'
    obtain ⟨s, listed, x, found, shows⟩ := binds.watches
    obtain ⟨root, watched⟩ := binds.watchers listed found shows
    obtain ⟨remembers, -⟩ := settled listed found root watched
    refine ⟨e', after, s, listed, x, found, shows, ?_⟩
    rw [value, remembers, peek_of_slot tracked, peek_of_slot (grows.tracked tracked rfl)]

/-- A control that is bound by a mount, from then on, in whatever programs and callbacks that
read and write data, type into controls and add watchers: whenever no watcher still waits
to be told of a change, the control holds the property, unless a text was typed since the
binding last wrote into it; then it holds that text, and it is in sync just when the text
is what the property would be shown as. -/
theorem control_follows_property_or_typing {m₀ m : Machine σ}
    (mounting : m₀.MountsControl data key c) (edited : Edited c m₀.step m typed)
    (quiet : ∀ f ∈ m.frames, f.pending = []) :
    m.failure = none ∧
    m.world.controlValue c = typed.getD (m.world.peek data key).formValue ∧
    (m.world.controlValue c = (m.world.peek data key).formValue ↔
      ∀ text, typed = some text → text = (m.world.peek data key).formValue) := by
  obtain ⟨d, vm, view, first⟩ := mounting.minded
  have minded : Minded data key c d vm view m typed := by
    clear quiet
    induction edited with
    | refl => exact first
    | step _ ih => exact ih.step
    | start _ idle host edits ih => exact ih.start idle host edits
  have value := minded.value quiet
  refine ⟨minded.unbroken, value, ?_⟩
  rw [value]
  cases typed with
  | none => simp
  | some text => simp

/-- A watcher from before the mount whose callback stores the first value again, and a text
typed into the control. -/
def restoring : Program Unit :=
  .call (.act (.newObject [("k", .string "A")])) fun _ =>
  .call (.act (.observe (.object ⟨0⟩))) fun _ =>
  .call (.watch ⟨0⟩ "k" fun _ => .call (.write ⟨0⟩ "k" (.string "A")) fun _ => .done) fun _ =>
  .call (.act (.newElement "form")) fun _ =>
  .call (.act (.newElement "input")) fun _ =>
  .call (.act (.setAttribute ⟨1⟩ "v-model" "k")) fun _ =>
  .call (.act (.appendChild ⟨0⟩ ⟨1⟩)) fun _ =>
  .call (.act (.mount ⟨0⟩ (.object ⟨0⟩))) fun _ =>
  .call (.input ⟨1⟩ "Z") fun _ => .done

/-- The machine about to mount. -/
def restoringMachine : Machine Unit := run 7 (start { host := () } restoring)

private theorem restoring_due : restoringMachine.frames =
    [.program (.call (.act (.mount ⟨0⟩ (.object ⟨0⟩))) fun _ =>
      .call (.input ⟨1⟩ "Z") fun _ => .done)] := by
  with_unfolding_all rfl

private theorem restoring_mounts : ∃ vm, restoringMachine.world.mount ⟨0⟩ (.object ⟨0⟩) =
    some (restoringMachine.step.world, vm) := by
  have mounts : (restoringMachine.world.mount ⟨0⟩ (.object ⟨0⟩)).isSome = true := by decide +kernel
  obtain ⟨⟨w, vm⟩, mounted⟩ := Option.isSome_iff_exists.mp mounts
  have world : restoringMachine.step.world = w := by
    simp [Machine.step, restoring_due, request, perform, mounted, push]
  exact ⟨vm, world ▸ mounted⟩

private theorem restoring_alone (s : SubscriberId) (x : Watcher)
    (found : restoringMachine.world.watcher? s = some x) : x.reaction ≠ .showValue ⟨1⟩ := by
  have only : restoringMachine.world.subscribers.cells =
      #[.watcher ⟨⟨0⟩, "k", .string "A", .callback ⟨0⟩⟩] := by decide +kernel
  obtain ⟨y, present, same⟩ := Option.bind_eq_some_iff.mp found
  have listed : y ∈ restoringMachine.world.subscribers.cells := Array.mem_of_getElem? present
  rw [only] at listed
  obtain rfl : y = .watcher ⟨⟨0⟩, "k", .string "A", .callback ⟨0⟩⟩ := by simpa using listed
  obtain rfl := Option.some.inj same
  simp

private theorem restoring_callbacks (i : Nat) (callback : Value → Program Unit) (v : Value)
    (found : restoringMachine.callbacks.get? i = some callback) : (callback v).Edits := by
  have only : restoringMachine.callbacks.cells =
      #[fun _ => .call (.write ⟨0⟩ "k" (.string "A")) fun _ => .done] := by with_unfolding_all rfl
  have listed : callback ∈ restoringMachine.callbacks.cells := Array.mem_of_getElem? found
  rw [only] at listed
  obtain rfl : callback = fun _ => .call (.write ⟨0⟩ "k" (.string "A")) fun _ => .done := by
    simpa using listed
  exact .write fun _ => .done

private theorem restoring_mountsControl : restoringMachine.MountsControl ⟨0⟩ "k" ⟨1⟩ := by
  obtain ⟨vm, mounts⟩ := restoring_mounts
  have stands : Below restoringMachine.step.world ⟨0⟩ ⟨1⟩ := .child (by decide +kernel)
  have control : restoringMachine.world.node? ⟨1⟩ =
      some (.element { tag := "input", attributes := [⟨"v-model", "k"⟩] }) := by decide +kernel
  have present : restoringMachine.world.slot? ⟨0⟩ "k" = some ⟨"k", .string "A", some ⟨0⟩⟩ := by
    decide +kernel
  constructor
  · exact reachable_run 7 (reachable_start (reachable_initial ()) rfl () restoring)
  · exact ⟨_, _, _, vm, restoring_due, fun _ => .input fun _ => .done, mounts, stands⟩
  · exact fun found => restoring_callbacks _ _ _ found
  · exact ⟨_, control, List.mem_singleton_self _⟩
  · exact ⟨_, present⟩
  · exact fun _ found => restoring_alone _ _ found

private theorem restoring_ends : (run 20 restoringMachine.step).frames = [] :=
  List.isEmpty_iff.mp (by decide +kernel)

theorem restoring_control_follows_property_or_typing :
    ∃ (m₀ m : Machine Unit) (data : ObjectId) (key : String) (c : NodeId) (typed : Option String),
      m₀.MountsControl data key c ∧ Edited c m₀.step m typed ∧ (∀ f ∈ m.frames, f.pending = []) ∧
      m.failure = none ∧
      m.world.controlValue c = typed.getD (m.world.peek data key).formValue ∧
      (m.world.controlValue c = (m.world.peek data key).formValue ↔
        ∀ text, typed = some text → text = (m.world.peek data key).formValue) := by
  have edited := edited_run ⟨1⟩ restoringMachine.step 20
  have quiet : ∀ f ∈ (run 20 restoringMachine.step).frames, f.pending = [] := by
    simp [restoring_ends]
  exact ⟨_, _, _, _, _, _, restoring_mountsControl, edited, quiet,
    control_follows_property_or_typing restoring_mountsControl edited quiet⟩

/-- The control goes on holding what was typed while the property has its old value again. -/
theorem typed_text_outlives_restored_property :
    ∃ (m₀ m : Machine Unit) (data : ObjectId) (key : String) (c : NodeId) (typed : Option String),
      m₀.MountsControl data key c ∧ Edited c m₀.step m typed ∧ m.frames = [] ∧ m.failure = none ∧
      m.world.controlValue c ≠ (m.world.peek data key).formValue := by
  refine ⟨restoringMachine, run 20 restoringMachine.step, ⟨0⟩, "k", ⟨1⟩, _, restoring_mountsControl,
    edited_run ⟨1⟩ restoringMachine.step 20, restoring_ends, ?_, ?_⟩
  · decide +kernel
  · decide +kernel

end Machine
end DataBinding
