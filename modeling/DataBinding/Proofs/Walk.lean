import DataBinding.World.Binding

/-! The walk that binds a page, one child at a time. What the few things keep that binding does to a
node, binding the node keeps, and what binding one node keeps, the whole walk keeps. -/
namespace DataBinding.World

/-- What the walk does with one child: it binds the child and then what stands below it. -/
def bindChild (data : ObjectId) (depth : Nat) (state : World × List SubscriberId)
    (child : NodeId) : Option (World × List SubscriberId) :=
  let bound := state.1.bindNode data child
  if (bound.1.children child).isEmpty then some (bound.1, state.2 ++ bound.2)
  else (bindWithin data depth bound.1 child).map fun below =>
    (below.1, state.2 ++ bound.2 ++ below.2)

theorem bindWithin_succ (data : ObjectId) (depth : Nat) (w : World) (n : NodeId) :
    bindWithin data (depth + 1) w n =
      (w.children n).foldlM (bindChild data depth) (w, []) := by
  rw [bindWithin]
  congr 1
  funext ⟨w, watchers⟩ child
  simp only [bindChild]
  split
  · rfl
  · cases bindWithin data depth (w.bindNode data child).1 child <;> rfl

/-- What holds of each step and of steps put together holds of a whole fold that collects
results on the way. -/
private theorem foldlM_collects {R : β → List γ → β → Prop} (nil : ∀ b, R b [] b)
    (append : ∀ {a b c xs ys}, R a xs b → R b ys c → R a (xs ++ ys) c)
    {f : β × List γ → α → Option (β × List γ)}
    (each : ∀ state x next, f state x = some next →
      ∃ own, next.2 = state.2 ++ own ∧ R state.1 own next.1)
    (xs : List α) (state : β × List γ) (ran : xs.foldlM f state = some final) :
    ∃ own, final.2 = state.2 ++ own ∧ R state.1 own final.1 := by
  induction xs generalizing state with
  | nil =>
    obtain rfl : state = final := by simpa using ran
    exact ⟨[], by simp, nil state.1⟩
  | cons x xs ih =>
    rw [List.foldlM_cons] at ran
    obtain ⟨next, first, rest⟩ := Option.bind_eq_some_iff.mp ran
    obtain ⟨own, collected, holds⟩ := each state x next first
    obtain ⟨later, collectedLater, holdsLater⟩ := ih next rest
    exact ⟨own ++ later, by rw [collectedLater, collected, List.append_assoc],
      append holds holdsLater⟩

/-- What binding one node does, to the world and in watchers, and what is kept when such
effects follow one another, the whole walk does. -/
theorem bindWithin_collects {R : World → List SubscriberId → World → Prop}
    (nil : ∀ w, R w [] w) (append : ∀ {a b c xs ys}, R a xs b → R b ys c → R a (xs ++ ys) c)
    (each : ∀ w n, R w (w.bindNode data n).2 (w.bindNode data n).1)
    (depth : Nat) (w : World) (n : NodeId)
    (bound : bindWithin data depth w n = some result) : R w result.2 result.1 := by
  induction depth generalizing w n result with
  | zero => cases bound
  | succ depth ih =>
    rw [bindWithin_succ] at bound
    obtain ⟨own, collected, holds⟩ := foldlM_collects nil append (fun state child next ran => by
      have here := each state.1 child
      simp only [bindChild] at ran
      split at ran
      · cases ran
        exact ⟨_, rfl, here⟩
      · obtain ⟨below, inner, rfl⟩ := Option.map_eq_some_iff.mp ran
        have inside := ih _ _ inner
        exact ⟨_, List.append_assoc .., append here inside⟩) _ _ bound
    obtain rfl : own = result.2 := by simpa using collected.symm
    exact holds

/-- What holds of a world, of watchers and of the world in which these have been added, whichever of the
things is done that binding does to a node, and is kept when they follow one another. -/
structure BindingKeeps (data : ObjectId) (n : NodeId)
    (R : World → List SubscriberId → World → Prop) : Prop where
  nil (w : World) : R w [] w
  append {a b c : World} {xs ys : List SubscriberId} : R a xs b → R b ys c → R a (xs ++ ys) c
  read (w : World) (key : String) : R w [] (w.read data key).1
  setText (w : World) (content : String) : R w [] (w.setText n content)
  setControlValue (w : World) (value : String) : R w [] (w.setControlValue n value)
  writeBack (w : World) (key : String) : R w [] (w.listen n (.writeBack data key))
  watch (w : World) (key : String) (reaction : Reaction) (writes : ∀ c, reaction ≠ .callback c) :
    R w [(w.watch data key reaction).2] (w.watch data key reaction).1

namespace BindingKeeps

variable {data : ObjectId} {n : NodeId} {R : World → List SubscriberId → World → Prop}

theorem applyDirective (keeps : BindingKeeps data n R) (w : World) (key : String) (d : Directive) :
    R w [(w.applyDirective data n key d).2] (w.applyDirective data n key d).1 := by
  have reads := keeps.read w key
  cases d with
  | text =>
    have shown := keeps.append reads (keeps.setText _ (w.read data key).2.textContent)
    exact keeps.append shown (keeps.watch _ key (.showText n) nofun)
  | model =>
    have shown := keeps.append reads (keeps.setControlValue _ (w.read data key).2.formValue)
    have listens := keeps.append shown (keeps.writeBack _ key)
    exact keeps.append listens (keeps.watch _ key (.showValue n) nofun)

theorem bindText (keeps : BindingKeeps data n R) (w : World) (content : String) :
    R w (w.bindText data n content).2 (w.bindText data n content).1 := by
  unfold World.bindText
  split
  · exact keeps.nil w
  · rename_i found _
    have shown := keeps.append (keeps.read w found.key)
      (keeps.setText _ (found.substitute (w.read data found.key).2.display))
    exact keeps.append shown (keeps.watch _ found.key (.showText n) nofun)

theorem bindAttributes (keeps : BindingKeeps data n R) (w : World) (attributes : List Attribute) :
    R w (w.bindAttributes data n attributes).2 (w.bindAttributes data n attributes).1 := by
  induction attributes generalizing w with
  | nil => exact keeps.nil w
  | cons a rest ih =>
    simp only [World.bindAttributes]
    split
    · exact ih w
    · exact keeps.append (keeps.applyDirective w a.value _) (ih _)

theorem bindNode (keeps : BindingKeeps data n R) (w : World) :
    R w (w.bindNode data n).2 (w.bindNode data n).1 := by
  unfold World.bindNode
  split
  · exact keeps.nil w
  · exact keeps.bindText w _
  · exact keeps.bindAttributes w _

theorem bindWithin (keeps : ∀ n, BindingKeeps data n R)
    (bound : World.bindWithin data depth w root = some result) : R w result.2 result.1 :=
  bindWithin_collects (keeps root).nil (keeps root).append (fun w n => (keeps n).bindNode w) depth w
    root bound

theorem bind (keeps : ∀ n, BindingKeeps data n R)
    (bound : w.bind data root = some (w', watchers)) : R w watchers w' :=
  bindWithin keeps bound

end BindingKeeps

end DataBinding.World
