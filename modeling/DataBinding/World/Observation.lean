import DataBinding.World.Dependency

/-!
Observation: giving every property that can be reached from a value a dependency list of its own.
The walk goes on only through properties that were not tracked before it reached them, so it passes
over what was observed earlier and ends on objects that refer to each other in a circle.
-/
namespace DataBinding.World

/-- The number of properties that are not tracked. -/
def untracked (w : World) : Nat := w.objects.total Properties.untrackedCount

/-- Tracks the properties of one object and returns the values of those that were not tracked. -/
def trackObject (w : World) (o : ObjectId) : World × List Value :=
  let fresh := (w.properties o).untrackedValues
  ({ w with
      objects := w.objects.modify o.index (·.track w.deps.size)
      deps := fresh.foldl (fun deps _ => deps.push []) w.deps },
    fresh)

/-- Each property that becomes tracked is one less that is not. -/
theorem untracked_trackObject (w : World) (o : ObjectId) :
    (w.trackObject o).1.untracked + (w.trackObject o).2.length = w.untracked := by
  have moved := w.objects.total_modify Properties.untrackedCount (·.track w.deps.size) o.index
  cases found : w.objects.get? o.index with
  | none =>
    simp only [found, Option.map_none, Option.getD_none, Nat.add_zero] at moved
    simp [trackObject, untracked, properties, found, moved, Properties.untrackedValues]
  | some p =>
    simp only [found, Option.map_some, Option.getD_some, Properties.untrackedCount_track,
      Nat.add_zero] at moved
    rw [Properties.untrackedCount_eq_length] at moved
    simpa [trackObject, untracked, properties, found] using moved

/-- Observes the pending values, one after the other, each with all that it leads to before the
next. -/
def observeAll (w : World) (pending : List Value) : World :=
  match pending with
  | [] => w
  | .object o :: rest => (w.trackObject o).1.observeAll ((w.trackObject o).2 ++ rest)
  | _ :: rest => w.observeAll rest
  termination_by w.untracked + pending.length
  decreasing_by
    · have := w.untracked_trackObject o
      simp only [List.length_append, List.length_cons]
      omega
    · simp

/-- Tracks every property that can be reached from a value. -/
def observe (w : World) (v : Value) : World := w.observeAll [v]

/-- Stores a value. A tracked property ignores a value identical to its own; otherwise the value is
observed, and the dependency list whose subscribers have to be told is returned. Any other property
is only assigned, and a new one is not tracked. -/
def write (w : World) (o : ObjectId) (key : String) (value : Value) : World × Option DepId :=
  match absent : (w.properties o).find? key with
  | none => (w.addProperty o key value absent, none)
  | some slot =>
    match slot.dep with
    | none => (w.modifyObject o (·.replace key value), none)
    | some d =>
      if slot.value.same value then (w, none)
      else ((w.modifyObject o (·.replace key value)).observe value, some d)

end DataBinding.World
