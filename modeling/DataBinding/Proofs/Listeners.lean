import DataBinding.Proofs.Editing
import DataBinding.Proofs.Newcomers
import DataBinding.Proofs.Parts

/-! Listeners of nodes. Nothing takes a listener off a node or puts another one before it: a host
program adds them at the end with callbacks that it hands over, and a `v-model` with the property that
its control writes back to. -/
namespace DataBinding
namespace World

/-- Every node has the listeners that it had; those that have come after them write back. -/
def Attends (w w' : World) : Prop :=
  ∀ n, ∃ added, w'.listeners n = w.listeners n ++ added ∧ ∀ c, .host c ∉ added

namespace Attends

theorem of_listeners {w w' : World} (same : ∀ n, w'.listeners n = w.listeners n) : Attends w w' :=
  fun n => ⟨[], by rw [same, List.append_nil], fun _ => List.not_mem_nil⟩

theorem of_nodes {w w' : World} (same : w'.nodes = w.nodes) : Attends w w' :=
  of_listeners fun n => by rw [listeners, listeners, node?, node?, same]

theorem refl (w : World) : Attends w w := of_nodes rfl

theorem trans {a b c : World} (first : Attends a b) (second : Attends b c) : Attends a c := by
  intro n
  obtain ⟨early, between, handed⟩ := first n
  obtain ⟨late, after, handed'⟩ := second n
  refine ⟨early ++ late, by rw [after, between, List.append_assoc], fun c member => ?_⟩
  exact (List.mem_append.mp member).elim (handed c) (handed' c)

theorem newNode (w : World) (added : Node) (silent : added.listeners = []) :
    Attends w (w.newNode added).1 := by
  refine of_listeners fun n => ?_
  rw [listeners, listeners, node?_newNode]
  split
  · rename_i new
    subst new
    simp [silent, node?, Arena.get?, Arena.size]
  · rfl

/-- A change of an element that leaves its listeners alone. -/
theorem onElement (w : World) (n : NodeId) (f : Element → Element)
    (same : ∀ e, (f e).listeners = e.listeners) : Attends w (w.modifyNode n (·.onElement f)) := by
  have kept : ∀ x : Node, (x.onElement f).listeners = x.listeners := by
    intro x
    cases x with
    | text => rfl
    | element e => exact same e
  refine of_listeners fun m => ?_
  rw [listeners, listeners, node?_modifyNode]
  split
  · rw [Option.map_map]
    exact congrArg (·.getD []) (congrArg (Option.map · _) (funext kept))
  · rfl

theorem setAttribute (w : World) (n : NodeId) (name value : String) :
    Attends w (w.setAttribute n name value) :=
  onElement w n _ fun e => by unfold Element.setAttribute; split <;> rfl

theorem setText (w : World) (n : NodeId) (content : String) : Attends w (w.setText n content) :=
  of_listeners fun _ => (spares_setText w n content).listeners (by simp)

theorem setControlValue (w : World) (n : NodeId) (value : String) :
    Attends w (w.setControlValue n value) :=
  of_listeners fun _ => (spares_setControlValue w n value).listeners (by simp)

theorem react (w : World) (reaction : Reaction) (v : Value) : Attends w (w.react reaction v) := by
  cases reaction with
  | callback c => exact refl w
  | showText n => exact setText w n _
  | showValue n => exact setControlValue w n _

end Attends

/-- A listener is added at the end, unless the node is a text. -/
theorem listeners_listen (w : World) (n m : NodeId) (l : Listener) :
    ∃ added, (w.listen n l).listeners m = w.listeners m ++ added ∧ ∀ x ∈ added, x = l := by
  rw [listeners, listeners, listen, node?_modifyNode]
  split
  · cases w.node? m with
    | none => exact ⟨[], rfl, by simp⟩
    | some x =>
      cases x with
      | text => exact ⟨[], rfl, by simp⟩
      | element e => exact ⟨[l], rfl, by simp⟩
  · exact ⟨[], (List.append_nil _).symm, by simp⟩

namespace Attends

theorem writeBack (w : World) (n : NodeId) (data : ObjectId) (key : String) :
    Attends w (w.listen n (.writeBack data key)) := by
  intro m
  obtain ⟨added, same, only⟩ := listeners_listen w n m (.writeBack data key)
  exact ⟨added, same, fun c member => nomatch only _ member⟩

theorem binding (data : ObjectId) (n : NodeId) : BindingKeeps data n fun a _ b => Attends a b where
  nil := refl
  append := trans
  read w key := of_nodes (nodes_read w data key)
  setText w content := setText w n content
  setControlValue w value := setControlValue w n value
  writeBack w key := writeBack w n data key
  watch w key reaction _ := of_nodes (nodes_watch w data key reaction)

theorem bind {w w' : World} (bound : w.bind data root = some (w', added)) : Attends w w' :=
  BindingKeeps.bind (binding data) bound

theorem build (w : World) (json : Json) : Attends w (w.build json).1 := by
  obtain ⟨objects, built⟩ := build_eq w json
  exact of_nodes (by rw [built])

theorem mount {w w' : World} (mounted : w.mount element v = some (w', vm)) : Attends w w' := by
  obtain ⟨bound, watchers, ran, rfl, -⟩ := mount_eq_some mounted
  obtain ⟨objects, planted⟩ := dataObject_eq w v
  have prepared : Attends w ((w.dataObject v).1.observe (.object (w.dataObject v).2)) :=
    of_nodes ((nodes_observeAll _ _).trans (by rw [planted]))
  exact (prepared.trans (bind ran)).trans (of_nodes rfl)

theorem perform {w w' : World} (done : w.perform a = some (w', reply)) : Attends w w' := by
  cases a with
  | build json =>
    cases done
    exact build w json
  | read o key =>
    cases done
    exact of_nodes (nodes_read w o key)
  | observe v =>
    cases done
    exact of_nodes (nodes_observeAll w [v])
  | depend d =>
    cases done
    unfold depend
    split <;> exact of_nodes rfl
  | newText content | newElement tag =>
    cases done
    exact newNode w _ rfl
  | appendChild n child =>
    cases done
    exact onElement w n _ fun _ => rfl
  | setText n content =>
    cases done
    exact setText w n content
  | setAttribute n name value =>
    cases done
    exact setAttribute w n name value
  | setControlValue n value =>
    cases done
    exact setControlValue w n value
  | bind b root =>
    rcases perform_bind_cases done with rfl | ⟨binder, bound, watchers, -, ran, rfl⟩
    · exact refl w'
    · exact (bind ran).trans (of_nodes rfl)
  | detach b =>
    rcases perform_detach_cases done with rfl | ⟨binder, -, rfl⟩ <;> exact of_nodes rfl
  | mount element v =>
    obtain ⟨vm, ran⟩ := perform_mount_eq_some done
    exact mount ran
  | mountOptions options document =>
    rcases perform_mountOptions_cases done with ⟨rfl, -⟩ | ⟨vm, mounted⟩
    · exact refl w'
    · obtain ⟨element, ran⟩ := mountOptions_eq_some mounted
      exact (build w _).trans (mount ran)
  | newObject | newDep | leave | release | newBinder | releaseBinder | releaseBundle
  | releaseViewModel =>
    cases done
    exact of_nodes rfl

end Attends
end World

namespace Machine
open World

variable {σ : Type}

/-- A step adds listeners at the end of a node's, and only such that run a callback which has been
handed over. -/
structure Listens (m m' : Machine σ) : Prop where
  kept (n : NodeId) : m.world.listeners n <+: m'.world.listeners n
  handed : .host c ∈ m'.world.listeners n → .host c ∈ m.world.listeners n ∨
    ∃ callback, m'.callbacks.get? c.index = some callback

namespace Listens

theorem of_attends {m m' : Machine σ} (attends : Attends m.world m'.world) : Listens m m' where
  kept n := by
    obtain ⟨added, same, -⟩ := attends n
    exact ⟨added, same.symm⟩
  handed {n c} member := by
    obtain ⟨added, same, none⟩ := attends n
    rw [same] at member
    exact .inl ((List.mem_append.mp member).resolve_right (none c))

theorem of_nodes {m m' : Machine σ} (same : m'.world.nodes = m.world.nodes) : Listens m m' :=
  of_attends (.of_nodes same)

private theorem update (m : Machine σ) (s : SubscriberId) : Listens m (m.update s) := by
  rcases update_cases m s with ⟨added, same, -, -⟩ | ⟨x, added, -, -, -, same⟩
  · exact of_nodes (by rw [same])
  · rw [same]
    exact of_attends ((Attends.of_nodes rfl).trans (.react (m.world.remember s _) _ _))

/-- What calls are in progress does not matter. -/
private theorem framed {m m' : Machine σ} (listens : Listens { m with frames := begun } m') :
    Listens m m' :=
  ⟨listens.kept, listens.handed⟩

theorem of_deed {m m' : Machine σ} (deed : Deed m m') : Listens m m' := by
  cases deed with
  | rests world | hides _ _ world => exact of_nodes (by rw [world])
  | subscribes _ world | registers _ _ _ _ world | enters _ _ _ _ world =>
    exact of_nodes (by rw [world]; rfl)
  | acts due done => exact of_attends (.perform done)
  | watches root key callback world =>
    have nodes := nodes_watch m.world root key (.callback ⟨m.callbacks.size⟩)
    exact of_nodes (by rw [world]; exact nodes)
  | listens n callback world callbacks =>
    -- The new listener runs the callback that is handed over with it.
    refine ⟨fun k => ?_, fun {k c} member => ?_⟩
    · obtain ⟨added, same, -⟩ := listeners_listen m.world n k (.host ⟨m.callbacks.size⟩)
      rw [world]
      exact ⟨added, same.symm⟩
    · obtain ⟨added, same, only⟩ := listeners_listen m.world n k (.host ⟨m.callbacks.size⟩)
      rw [world, same] at member
      rcases List.mem_append.mp member with old | new
      · exact .inl old
      · cases only _ new
        exact .inr ⟨callback, by simp [callbacks, Arena.get?_push]⟩
  | types n text world => exact of_attends (world ▸ .setControlValue m.world n text)
  | writes => exact of_nodes (world_write { m with frames := _ } _ _ _).1
  | notifies => exact of_nodes rfl
  | tells => exact framed (update { m with frames := _ } _)

theorem step (m : Machine σ) : Listens m m.step := of_deed (step_deed m)

end Listens

/-- Whatever happens, a node keeps its listeners in their order, and new ones come after them. -/
theorem Leads.listeners {m m' : Machine σ} (led : Leads P m m') (n : NodeId) :
    m.world.listeners n <+: m'.world.listeners n := by
  induction led with
  | refl => exact List.prefix_refl _
  | @step a _ _ ih => exact ih.trans ((Listens.step a).kept n)
  | start _ _ _ _ _ ih => exact ih

/-- Every listener that runs a callback has been handed one. -/
theorem exists_callback_of_listener {m : Machine σ} (reachable : m.Reachable)
    (heard : .host c ∈ m.world.listeners n) :
    ∃ callback, m.callbacks.get? c.index = some callback := by
  obtain ⟨host, led⟩ := reachable
  induction led with
  | refl => exact absurd heard List.not_mem_nil
  | @step a _ _ ih =>
    rcases (Listens.step a).handed heard with before | handed
    · obtain ⟨callback, present⟩ := ih before
      exact ⟨callback, (Hands.step a).kept present⟩
    · exact handed
  | start _ _ _ _ _ ih => exact ih heard

end Machine
end DataBinding
