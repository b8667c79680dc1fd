import DataBinding.Proofs.Visits

/-! Binding a form control. Whatever a walk binds on its way, a control with a `v-model`
ends up holding its property, with a watcher that will write later values into it; and no
binding of another node makes a watcher that would. -/
namespace DataBinding.World

theorem node?_setText_element {w : World} (content : String) (found : w.node? n = some (.element e)) :
    (w.setText n content).node? n = some (.element
      { e with children := if content = "" then [] else [⟨w.nodes.size⟩] }) := by
  unfold setText
  simp only [found]
  split
  · simp [node?_modifyNode, found, Node.onElement]
  · have apart : n ≠ ⟨w.nodes.size⟩ := by
      rintro rfl
      simp [node?, Arena.get?, Arena.size] at found
    have kept : (w.newNode (.text content)).1.node? n = some (.element e) := by
      rw [node?_newNode, if_neg apart]
      exact found
    refine (node?_modifyNode _ n n _).trans ?_
    rw [if_pos rfl, kept]
    rfl

theorem node?_setText_text {w : World} (content : String) (found : w.node? n = some (.text old)) :
    (w.setText n content).node? n = some (.text content) := by
  unfold setText
  simp [found, node?_modifyNode]

theorem node?_setControlValue_element {w : World} (value : String)
    (found : w.node? n = some (.element e)) :
    (w.setControlValue n value).node? n = some (.element { e with value := value }) := by
  simp [setControlValue, node?_modifyNode, found, Node.onElement]

theorem node?_listen_element {w : World} (listener : Listener)
    (found : w.node? n = some (.element e)) :
    (w.listen n listener).node? n =
      some (.element { e with listeners := e.listeners ++ [listener] }) := by
  simp [listen, node?_modifyNode, found, Node.onElement]

theorem controlValue_of_element {w : World} (found : w.node? n = some (.element e)) :
    w.controlValue n = e.value := by
  simp [controlValue, found, Node.value]

/-- The attributes of the node bind it as a control to this property and to no other. -/
def BindsTo (key : String) (e : Element) : Prop :=
  ∀ a ∈ e.attributes, Directive.ofAttribute? a.name = some .model → a.value = key

/-- What binding other nodes, or the control itself, makes of a form control: it stays an
element with its attributes, it holds what it held or the property, and new watchers that
write into it watch the property. -/
structure Minds (data : ObjectId) (key : String) (c : NodeId) (w : World)
    (added : List SubscriberId) (w' : World) : Prop where
  moves : Moves w w'
  issues : Issues w added w'
  objects : w'.objects = w.objects
  element : w.node? c = some (.element e) → ∃ e', w'.node? c = some (.element e') ∧
    e'.attributes = e.attributes ∧
    (e'.value = e.value ∨ e'.value = (w.peek data key).formValue)
  watchers : s ∈ added → w'.watcher? s = some x → x.reaction = .showValue c →
    x.root = data ∧ x.key = key

namespace Minds

theorem nil (data : ObjectId) (key : String) (c : NodeId) (w : World) : Minds data key c w [] w where
  moves := .refl
  issues := .nil w
  objects := rfl
  element {e} found := ⟨e, found, rfl, .inl rfl⟩
  watchers member := absurd member List.not_mem_nil

theorem append {a b d : World} (first : Minds data key c a xs b) (second : Minds data key c b ys d) :
    Minds data key c a (xs ++ ys) d where
  moves := first.moves.trans second.moves
  issues := first.issues.append second.issues
  objects := second.objects.trans first.objects
  element found := by
    obtain ⟨e', between, attributes, value⟩ := first.element found
    obtain ⟨e'', after, attributes', value'⟩ := second.element between
    refine ⟨e'', after, attributes'.trans attributes, ?_⟩
    rcases value' with kept | written
    · exact kept ▸ value
    · have same : b.peek data key = a.peek data key := by
        simp only [peek_eq, slot?, properties, first.objects]
      exact .inr (same ▸ written)
  watchers {s x} member watching shows := by
    rcases List.mem_append.mp member with early | late
    · have known := (first.issues.mem_iff.mp early).2
      have before : b.watcher? s = some x := second.moves.grows.watcher_of_known known watching
      exact first.watchers early before shows
    · exact second.watchers late watching shows

/-- Only reads, or changes of the page that keep the control, and no watchers. -/
private theorem of_page {w w' : World} (moves : Moves w w') (custody : w'.custody = w.custody)
    (subscribers : w'.subscribers = w.subscribers) (objects : w'.objects = w.objects)
    (element : ∀ {e}, w.node? c = some (.element e) → ∃ e', w'.node? c = some (.element e') ∧
      e'.attributes = e.attributes ∧
      (e'.value = e.value ∨ e'.value = (w.peek data key).formValue)) :
    Minds data key c w [] w' where
  moves := moves
  issues := ⟨custody, by simp, by simp [subscribers]⟩
  objects := objects
  element := element
  watchers member := absurd member List.not_mem_nil

end Minds

theorem objects_read (w : World) (o : ObjectId) (key : String) :
    (w.read o key).1.objects = w.objects := by
  unfold read depend
  split
  · split <;> rfl
  · rfl

theorem objects_setText (w : World) (n : NodeId) (content : String) :
    (w.setText n content).objects = w.objects := by
  unfold setText
  split
  · rfl
  · rfl
  · split <;> rfl

theorem deps_setText (w : World) (n : NodeId) (content : String) :
    (w.setText n content).deps = w.deps := by
  unfold setText
  split
  · rfl
  · rfl
  · split <;> rfl

private theorem minds_read (w : World) (o : ObjectId) (k : String) :
    Minds data key c w [] (w.read o k).1 :=
  .of_page (moves_read w o k) (custody_read w o k) (subscribers_read w o k) (objects_read w o k)
    fun {e} found => ⟨e, by simpa only [node?, nodes_read] using found, rfl, .inl rfl⟩

private theorem minds_setText (w : World) (n : NodeId) (content : String) :
    Minds data key c w [] (w.setText n content) := by
  refine .of_page (moves_setText w n content) (custody_setText w n content)
    (subscribers_setText w n content) (objects_setText w n content) ?_
  intro e found
  by_cases here : c = n
  · subst here
    exact ⟨_, node?_setText_element content found, rfl, .inl rfl⟩
  · exact ⟨e, (touches_setText w n content).other here found, rfl, .inl rfl⟩

private theorem minds_listen (w : World) (n : NodeId) (listener : Listener) :
    Minds data key c w [] (w.listen n listener) := by
  refine .of_page (moves_listen w n listener) rfl rfl rfl ?_
  intro e found
  by_cases here : c = n
  · subst here
    exact ⟨_, node?_listen_element listener found, rfl, .inl rfl⟩
  · exact ⟨e, (touches_modifyNode w n _).other here found, rfl, .inl rfl⟩

/-- The value that is written is that of the property, or goes into another node. -/
private theorem minds_setControlValue (w : World) (n : NodeId) (value : String)
    (right : n = c → value = (w.peek data key).formValue) :
    Minds data key c w [] (w.setControlValue n value) := by
  refine .of_page (moves_setControlValue w n value) rfl rfl rfl ?_
  intro e found
  by_cases here : c = n
  · subst here
    exact ⟨_, node?_setControlValue_element value found, rfl, .inr (right rfl)⟩
  · exact ⟨e, (touches_modifyNode w n _).other here found, rfl, .inl rfl⟩

/-- A watcher of the property is added, or one that writes into other nodes. -/
private theorem minds_watch (w : World) (k : String) (reaction : Reaction)
    (right : reaction = .showValue c → k = key) :
    Minds data key c w [(w.watch data k reaction).2] (w.watch data k reaction).1 where
  moves := .single (.watch w data k reaction)
  issues := issues_watch w data k reaction
  objects := objects_watch w data k reaction
  element {e} found := ⟨e, by simpa only [node?, nodes_watch] using found, rfl, .inl rfl⟩
  watchers {s x} member watching shows := by
    obtain rfl : s = ⟨w.subscribers.size⟩ := List.mem_singleton.mp member
    have added := subscriber?_push (subscribers_watch w data k reaction) (s := ⟨w.subscribers.size⟩)
    rw [if_pos rfl] at added
    rw [watcher?, added] at watching
    obtain rfl : w.newWatcher data k reaction = x := Option.some.inj watching
    exact ⟨rfl, right shows⟩

theorem read_value (w : World) (o : ObjectId) (key : String) : (w.read o key).2 = w.peek o key := by
  unfold read
  split <;> rfl

/-- The directive that binds a control to a property makes it hold the property and adds a
watcher for it. -/
theorem minds_applyDirective (w : World) (n : NodeId) (k : String) (d : Directive)
    (right : d = .model → n = c → k = key) :
    Minds data key c w [(w.applyDirective data n k d).2] (w.applyDirective data n k d).1 := by
  have reads : Minds data key c w [] (w.read data k).1 := minds_read w data k
  cases d with
  | text =>
    exact (reads.append (minds_setText _ n _)).append (minds_watch _ k (.showText n) (by simp))
  | model =>
    have same : (w.read data k).1.peek data k = (w.read data k).2 := by
      rw [read_value, peek_eq, peek_eq, slot?, slot?, properties, properties, objects_read]
    have holds : n = c → (w.read data k).2.formValue = ((w.read data k).1.peek data key).formValue :=
      fun here => by rw [← same, right rfl here]
    have writes : Minds data key c (w.read data k).1 []
        ((w.read data k).1.setControlValue n (w.read data k).2.formValue) :=
      minds_setControlValue _ n _ holds
    refine ((reads.append writes).append (minds_listen _ n _)).append (minds_watch _ k _ ?_)
    intro shows
    exact right rfl (Reaction.showValue.inj shows)

private theorem minds_bindAttributes (w : World) (n : NodeId) (attributes : List Attribute)
    (right : n = c → ∀ a ∈ attributes, Directive.ofAttribute? a.name = some .model → a.value = key) :
    Minds data key c w (w.bindAttributes data n attributes).2 (w.bindAttributes data n attributes).1 := by
  induction attributes generalizing w with
  | nil => exact .nil data key c w
  | cons a rest ih =>
    have later := fun w => ih w fun here b listed => right here b (List.mem_cons_of_mem _ listed)
    simp only [bindAttributes]
    split
    · exact later w
    · rename_i d named
      refine (minds_applyDirective w n a.value d fun model here => ?_).append (later _)
      exact right here a List.mem_cons_self (model ▸ named)

theorem minds_bindNode {w : World} (n : NodeId) (element : w.node? c = some (.element e))
    (only : BindsTo key e) :
    Minds data key c w (w.bindNode data n).2 (w.bindNode data n).1 := by
  unfold bindNode
  split
  · exact .nil data key c w
  · unfold bindText
    split
    · exact .nil data key c w
    · exact ((minds_read w data _).append (minds_setText _ n _)).append
        (minds_watch _ _ (.showText n) (by simp))
  · rename_i e' found
    apply minds_bindAttributes w n _
    intro here
    obtain rfl : e' = e := by
      rw [here, element] at found
      exact (Node.element.inj (Option.some.inj found)).symm
    exact only

/-- The control holds the property, and one of the watchers will write later values into it. -/
structure Binds (data : ObjectId) (key : String) (c : NodeId) (w : World)
    (added : List SubscriberId) (w' : World) : Prop extends Minds data key c w added w' where
  holds : w.node? c = some (.element e) → ∃ e', w'.node? c = some (.element e') ∧
    e'.value = (w.peek data key).formValue
  watches : ∃ s ∈ added, ∃ x, w'.watcher? s = some x ∧ x.reaction = .showValue c

namespace Binds

theorem before {a b d : World} (first : Binds data key c a xs b) (second : Minds data key c b ys d) :
    Binds data key c a (xs ++ ys) d where
  toMinds := first.toMinds.append second
  holds found := by
    obtain ⟨e', between, value⟩ := first.holds found
    obtain ⟨e'', after, -, value'⟩ := second.element between
    refine ⟨e'', after, ?_⟩
    rcases value' with kept | written
    · exact kept.trans value
    · have same : b.peek data key = a.peek data key := by
        simp only [peek_eq, slot?, properties, first.objects]
      exact same ▸ written
  watches := by
    obtain ⟨s, member, x, watching, shows⟩ := first.watches
    exact ⟨s, List.mem_append_left _ member, x, second.moves.grows.watcher watching, shows⟩

theorem after {a b d : World} (first : Minds data key c a xs b) (second : Binds data key c b ys d) :
    Binds data key c a (xs ++ ys) d where
  toMinds := first.append second.toMinds
  holds found := by
    obtain ⟨e', between, -⟩ := first.element found
    obtain ⟨e'', after, value⟩ := second.holds between
    have same : b.peek data key = a.peek data key := by
      simp only [peek_eq, slot?, properties, first.objects]
    exact ⟨e'', after, same ▸ value⟩
  watches := by
    obtain ⟨s, member, x, watching, shows⟩ := second.watches
    exact ⟨s, List.mem_append_right _ member, x, watching, shows⟩

end Binds

private theorem binds_applyDirective (w : World) (c : NodeId) (key : String) :
    Binds data key c w [(w.applyDirective data c key .model).2]
      (w.applyDirective data c key .model).1 where
  toMinds := minds_applyDirective w c key .model fun _ _ => rfl
  holds {e} found := by
    have before : (w.read data key).1.node? c = some (.element e) := by
      simpa only [node?, nodes_read] using found
    have written := node?_setControlValue_element (w.read data key).2.formValue before
    have listening := node?_listen_element (.writeBack data key) written
    have kept (w : World) : (w.watch data key (.showValue c)).1.node? c = w.node? c := by
      rw [node?, node?, nodes_watch]
    exact ⟨_, (kept _).trans listening, congrArg Value.formValue (read_value w data key)⟩
  watches := by
    have added := subscriber?_push (s := ⟨(w.read data key).1.subscribers.size⟩)
      (subscribers_watch (((w.read data key).1.setControlValue c (w.read data key).2.formValue).listen
        c (.writeBack data key)) data key (.showValue c))
    have watching := congrArg (Option.bind · (·.watcher?)) (added.trans (if_pos rfl))
    exact ⟨_, List.mem_singleton_self _, _, watching, rfl⟩

/-- A `v-model` among the attributes of the control. -/
private theorem binds_bindAttributes (w : World) (attributes : List Attribute)
    (only : ∀ a ∈ attributes, Directive.ofAttribute? a.name = some .model → a.value = key)
    (listed : a ∈ attributes) (named : Directive.ofAttribute? a.name = some .model) :
    Binds data key c w (w.bindAttributes data c attributes).2 (w.bindAttributes data c attributes).1 := by
  induction attributes generalizing w with
  | nil => cases listed
  | cons first rest ih =>
    have later : ∀ b ∈ rest, Directive.ofAttribute? b.name = some .model → b.value = key :=
      fun b member => only b (List.mem_cons_of_mem _ member)
    simp only [bindAttributes]
    rcases List.mem_cons.mp listed with rfl | further
    · rw [named, only a List.mem_cons_self named]
      exact (binds_applyDirective w c key).before (minds_bindAttributes _ c rest fun _ => later)
    · split
      · exact ih w later further
      · rename_i d same
        refine .after (minds_applyDirective w c first.value d fun model _ => ?_) (ih _ later further)
        exact only first List.mem_cons_self (model ▸ same)

private theorem binds_bindNode {w : World} (element : w.node? c = some (.element e))
    (only : BindsTo key e) (listed : a ∈ e.attributes)
    (named : Directive.ofAttribute? a.name = some .model) :
    Binds data key c w (w.bindNode data c).2 (w.bindNode data c).1 := by
  unfold bindNode
  rw [element]
  exact binds_bindAttributes w e.attributes only listed named

/-- A visit leaves a control that it minds bound to the same property. -/
private theorem minds_visit {w : World} (n : NodeId) (element : w.node? c = some (.element e))
    (only : BindsTo key e) : Minds data key c w (w.bindNode data n).2 (w.bindNode data n).1 ∧
      ∃ e', (w.bindNode data n).1.node? c = some (.element e') ∧ e'.attributes = e.attributes ∧
        BindsTo key e' := by
  have own : Minds data key c w (w.bindNode data n).2 (w.bindNode data n).1 :=
    minds_bindNode n element only
  obtain ⟨e', between, same, -⟩ := own.element element
  exact ⟨own, e', between, same, by rwa [BindsTo, same]⟩

private theorem minds_bindAll {w : World} (ns : List NodeId) (element : w.node? c = some (.element e))
    (only : BindsTo key e) : Minds data key c w (w.bindAll data ns).2 (w.bindAll data ns).1 := by
  induction ns generalizing w e with
  | nil => exact .nil data key c w
  | cons n rest ih =>
    obtain ⟨own, e', between, -, later⟩ := minds_visit n element only
    exact own.append (ih between later)

/-- A control is bound wherever in the walk it is visited. -/
theorem binds_bindAll {w : World} (ns : List NodeId) (element : w.node? c = some (.element e))
    (only : BindsTo key e) (listed : a ∈ e.attributes)
    (named : Directive.ofAttribute? a.name = some .model) (visited : c ∈ ns) :
    Binds data key c w (w.bindAll data ns).2 (w.bindAll data ns).1 := by
  induction ns generalizing w e with
  | nil => cases visited
  | cons n rest ih =>
    obtain ⟨own, e', between, same, later⟩ := minds_visit n element only
    by_cases here : c = n
    · subst here
      exact (binds_bindNode element only listed named).before (minds_bindAll rest between later)
    · have further : c ∈ rest := (List.mem_cons.mp visited).resolve_left here
      exact .after own (ih between later (same ▸ listed) further)

/-- Attribute names stand for directives one by one. -/
theorem eq_of_ofAttribute {a b : String} (first : Directive.ofAttribute? a = some d)
    (second : Directive.ofAttribute? b = some d) : a = b := by
  have spelled : ∀ s, Directive.ofAttribute? s = some d → s.toList = Directive.marker.toList ++ d.name.toList := by
    intro s named
    obtain ⟨rest, stripped, known⟩ := Option.bind_eq_some_iff.mp named
    have kind : rest = d.name := by
      unfold Directive.ofName? at known
      split at known
      · obtain rfl := Option.some.inj known
        assumption
      · split at known
        · obtain rfl := Option.some.inj known
          assumption
        · cases known
    unfold Directive.nameOf? at stripped
    split at stripped
    · rename_i marked
      obtain ⟨suffix, same⟩ := List.isPrefixOf_iff_prefix.mp marked
      have tail : String.ofList suffix = d.name := by
        rw [← kind, ← Option.some.inj stripped, ← same]
        rfl
      rw [← same, ← tail, String.toList_ofList]
    · cases stripped
  exact String.toList_injective ((spelled a first).trans (spelled b second).symm)

/-- The names of attributes differ, so one of them binds the control. -/
theorem bindsTo_of_tidy {e : Element} (tidy : (Node.element e).Tidy)
    (listed : ⟨"v-model", key⟩ ∈ e.attributes) : BindsTo key e := by
  intro a member named
  have model : Directive.ofAttribute? "v-model" = some .model := by decide
  have same : a.name = "v-model" := eq_of_ofAttribute named model
  exact congrArg Attribute.value (List.inj_on_of_nodup_map tidy member listed same)

end DataBinding.World
