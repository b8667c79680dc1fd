import Mathlib.Data.List.Chain
import DataBinding.Proofs.Newcomers
import DataBinding.Proofs.Values

/-! What a watcher gets to see. A change may be told late, or more than once, or never, and callbacks
may write the property again while they are told of it; still a watcher is only ever given what the
property holds at that moment, so that of the values that were stored it sees some, in their order,
and none twice in a row. -/
namespace DataBinding.Machine
open World

variable {σ : Type}

/-- The value that the next step gives to the reaction of a watcher. -/
def gives? (m : Machine σ) (s : SubscriberId) : Option Value :=
  m.fires?.bind fun fired => if fired.1 = s then some fired.2.2 else none

theorem gives?_eq_some_iff {m : Machine σ} :
    m.gives? s = some v ↔ ∃ x, m.fires? = some (s, x, v) := by
  constructor
  · intro gives
    obtain ⟨⟨t, x, u⟩, fires, same⟩ := Option.bind_eq_some_iff.mp gives
    split at same
    · rename_i here
      obtain rfl : t = s := here
      exact ⟨x, Option.some.inj same ▸ fires⟩
    · cases same
  · rintro ⟨x, fires⟩
    simp [gives?, fires]

/-- A reaction gets what the property holds, and only if the watcher remembers another value. -/
theorem value_of_fires {m : Machine σ} (fires : m.fires? = some (s, x, v)) :
    v = m.world.peek x.root x.key ∧ x.cached.same v = false := by
  simp only [fires?, Option.bind_eq_bind, Option.bind_eq_some_iff] at fires
  obtain ⟨t, -, y, -, same⟩ := fires
  split at same
  · cases same
  · rename_i news
    cases same
    exact ⟨rfl, by simpa using news⟩

/-- A watcher watches what it did and reacts as it did; it remembers what it has been given. -/
theorem watcher?_step_gives {m : Machine σ} (sound : m.Sound) (found : m.world.watcher? s = some x) :
    m.step.world.watcher? s = some { x with cached := (m.gives? s).getD x.cached } := by
  cases gives : m.gives? s with
  | none =>
    refine watcher?_step sound found fun y v fires => ?_
    cases gives.symm.trans (gives?_eq_some_iff.mpr ⟨y, fires⟩)
  | some v =>
    obtain ⟨y, fires⟩ := gives?_eq_some_iff.mp gives
    rcases world_of_told (told_of_fires fires) with ⟨quiet, -⟩ | ⟨y', u, fires', same⟩
    · cases quiet.symm.trans fires
    · cases fires.symm.trans fires'
      obtain rfl := Option.some.inj ((watcher_of_fires fires).symm.trans found)
      obtain ⟨-, -, subscribers⟩ := react_same (m.world.remember s v) y.reaction v
      rw [same, watcher?_of_subscribers subscribers, watcher?_remember, if_pos rfl, found]
      rfl

/-- The next step starts a reaction: a callback that was handed over is called with the value, or the
value is written into the page. -/
def Starts (m : Machine σ) (s : SubscriberId) (reaction : Reaction) (v : Value) : Prop :=
  match reaction with
  | .callback c => ∃ callback below, m.callbacks.get? c.index = some callback ∧
      m.step.frames = .program (callback v) :: below
  | reaction => m.step.world = (m.world.remember s v).react reaction v

theorem starts_of_fires {m : Machine σ} (reachable : m.Reachable)
    (fires : m.fires? = some (s, x, v)) : m.Starts s x.reaction v := by
  have found := watcher_of_fires fires
  cases reaction : x.reaction with
  | callback c =>
    obtain ⟨callback, handed⟩ := exists_callback reachable found reaction
    obtain ⟨below, stepped⟩ := step_of_told (told_of_fires fires)
    obtain ⟨current, news⟩ := value_of_fires fires
    refine ⟨callback, below, handed, ?_⟩
    simp [stepped, update, subscriber_of_watcher found, refresh, read_enter_none, ← current, news,
      reaction, invoke, handed, push]
  | showText n | showValue n =>
    rcases world_of_told (told_of_fires fires) with ⟨quiet, -⟩ | ⟨y, u, fires', same⟩
    · cases quiet.symm.trans fires
    · cases fires.symm.trans fires'
      rw [reaction] at same
      exact same

/-- A watcher of a property of an object was made, and the host program has come this far. Since then
the property has held the values `held`, one after the other; `given` are the value that the watcher
read when it was made and those that its reaction was then started with, and `places` tell for each of
them how many values the property had held before the one that it held when this one was given. -/
inductive Course (s : SubscriberId) (o : ObjectId) (key : String) (reaction : Reaction) :
    Machine σ → List Value → List Value → List Nat → Prop where
  | made {m : Machine σ} (reachable : m.Reachable) (new : ¬m.world.Known s)
      (found : m.step.world.watcher? s = some ⟨o, key, v, reaction⟩)
      (existing : o.index < m.step.world.objects.size) :
      Course s o key reaction m.step [m.step.world.peek o key] [v] [0]
  | step {m : Machine σ} (before : Course s o key reaction m held given places) :
      Course s o key reaction m.step (held ++ (m.puts? o key).toList)
        (given ++ (m.gives? s).toList) (places ++ ((m.gives? s).map fun _ => held.length - 1).toList)
  | start {m : Machine σ} (before : Course s o key reaction m held given places)
      (idle : m.idle = true) (host : σ) (p : Program σ) :
      Course s o key reaction (start { m with host := host } p) held given places

theorem Course.reachable {m : Machine σ} (course : Course s o key reaction m held given places) :
    m.Reachable := by
  induction course with
  | made reachable => exact reachable_step reachable
  | step _ ih => exact reachable_step ih
  | start _ idle host p ih => exact reachable_start ih idle host p

/-- What a watcher has been given, as against what its property has held. -/
structure Delivers (m : Machine σ) (s : SubscriberId) (o : ObjectId) (key : String)
    (reaction : Reaction) (held given : List Value) (places : List Nat) : Prop where
  /-- The property holds what was put into it last. -/
  holds : held.getLast? = some (m.world.peek o key)
  /-- The watcher remembers what it was given last. -/
  remembers : ∃ v, given.getLast? = some v ∧ m.world.watcher? s = some ⟨o, key, v, reaction⟩
  /-- It began with what the property held. Each value is the one that the property held last when it
  was given, at the place noted then, and none has a place before that of the value given before it. -/
  ordered : places.head? = some 0 ∧ places.IsChain (· ≤ ·) ∧
    places.map (held[·]?) = given.map some
  /-- No value is given to it while it remembers an identical one. -/
  news : given.IsChain fun v v' => v.same v' = false
  /-- When its reaction starts, it is started with what the property holds then. -/
  starts : m.fires? = some (s, x, v) → x = ⟨o, key, x.cached, reaction⟩ ∧
    m.world.peek o key = v ∧ m.step.world.peek o key = v ∧ given.getLast? = some x.cached ∧
      x.cached.same v = false ∧ m.Starts s reaction v

theorem Course.existing {m : Machine σ} (course : Course s o key reaction m held given places) :
    o.index < m.world.objects.size := by
  induction course with
  | made _ _ _ existing => exact existing
  | step _ ih => exact Nat.lt_of_lt_of_le ih (size_objects_step _)
  | start _ _ _ _ ih => exact ih

private theorem Course.holds {m : Machine σ} (course : Course s o key reaction m held given places) :
    held.getLast? = some (m.world.peek o key) := by
  induction course with
  | made => rfl
  | @step _ _ _ m before ih =>
    rw [peek_step before.existing key]
    cases m.puts? o key with
    | none => simpa using ih
    | some v => simp
  | start _ _ _ _ ih => exact ih

private theorem Course.remembers {m : Machine σ}
    (course : Course s o key reaction m held given places) :
    ∃ v, given.getLast? = some v ∧ m.world.watcher? s = some ⟨o, key, v, reaction⟩ := by
  induction course with
  | @made v m reachable new found existing => exact ⟨v, rfl, found⟩
  | @step _ given _ m before ih =>
    obtain ⟨v, last, found⟩ := ih
    refine ⟨(m.gives? s).getD v, ?_, watcher?_step_gives (reachable_sound before.reachable) found⟩
    cases m.gives? s with
    | none => simpa using last
    | some u => simp
  | start _ _ _ _ ih => exact ih

/-- What is given is what the property holds, and not what was given last. -/
private theorem Course.gives {m : Machine σ} (course : Course s o key reaction m held given places)
    (fires : m.fires? = some (s, x, v)) : x = ⟨o, key, x.cached, reaction⟩ ∧
      m.world.peek o key = v ∧ given.getLast? = some x.cached ∧ x.cached.same v = false := by
  obtain ⟨u, last, found⟩ := course.remembers
  obtain rfl := Option.some.inj ((watcher_of_fires fires).symm.trans found)
  obtain ⟨current, news⟩ := value_of_fires fires
  exact ⟨rfl, current.symm, last, news⟩

private theorem Course.news {m : Machine σ} (course : Course s o key reaction m held given places) :
    given.IsChain fun v v' => v.same v' = false := by
  induction course with
  | made => exact .singleton _
  | @step _ given _ m before ih =>
    cases gives : m.gives? s with
    | none => simpa using ih
    | some v =>
      obtain ⟨x, fires⟩ := gives?_eq_some_iff.mp gives
      obtain ⟨-, -, last, news⟩ := before.gives fires
      refine ih.append (.singleton _) fun u latest v' added => ?_
      obtain rfl : v = v' := by simpa using added
      obtain rfl := Option.some.inj (last.symm.trans latest)
      exact news
  | start _ _ _ _ ih => exact ih

/-- What is given stands at the last place so far. -/
private theorem Course.last {m : Machine σ} (course : Course s o key reaction m held given places)
    (fires : m.fires? = some (s, x, v)) : held[held.length - 1]? = some v := by
  obtain ⟨-, current, -⟩ := course.gives fires
  rw [← List.getLast?_eq_getElem?, course.holds, current]

private theorem lt_of_taken {held given : List Value} {places : List Nat}
    (taken : places.map (held[·]?) = given.map some) (member : p ∈ places) : p < held.length := by
  have there : held[p]? ∈ given.map some := taken ▸ List.mem_map_of_mem member
  obtain ⟨v, -, found⟩ := List.mem_map.mp there
  exact (List.getElem?_eq_some_iff.mp found.symm).1

/-- What has been given stands at the places that were noted. -/
private theorem Course.taken {m : Machine σ} (course : Course s o key reaction m held given places) :
    places.map (held[·]?) = given.map some := by
  induction course with
  | @made v m reachable new found existing =>
    have start : v = m.step.world.peek o key := cached_of_new new found
    simp [start]
  | @step held given places m before ih =>
    have kept : places.map ((held ++ (m.puts? o key).toList)[·]?) = given.map some := by
      rw [← ih]
      exact List.map_congr_left fun p member => List.getElem?_append_left (lt_of_taken ih member)
    cases gives : m.gives? s with
    | none => simpa using kept
    | some v =>
      obtain ⟨x, fires⟩ := gives?_eq_some_iff.mp gives
      have last := before.last fires
      have inside := (List.getElem?_eq_some_iff.mp last).1
      simp [kept, List.getElem?_append_left inside, last]
  | start _ _ _ _ ih => exact ih

/-- Later values come from later places: no place that was noted lies behind the last one. -/
private theorem Course.sorted {m : Machine σ}
    (course : Course s o key reaction m held given places) : places.IsChain (· ≤ ·) := by
  induction course with
  | made => exact .singleton _
  | @step held given places m before ih =>
    cases m.gives? s with
    | none => simpa using ih
    | some v =>
      refine ih.append (.singleton _) fun p latest q added => ?_
      obtain rfl : held.length - 1 = q := by simpa using added
      have := lt_of_taken before.taken (List.mem_of_getLast? latest)
      omega
  | start _ _ _ _ ih => exact ih

private theorem Course.first {m : Machine σ} (course : Course s o key reaction m held given places) :
    places.head? = some 0 := by
  induction course with
  | made => rfl
  | step _ ih => simp [ih]
  | start _ _ _ _ ih => exact ih

/-- Whatever the host program does, and however its runs end, a watcher is given values that its
property holds at the time, in the order in which they were put there. -/
theorem watchers_see_values_in_order {m : Machine σ}
    (course : Course s o key reaction m held given places) :
    Delivers m s o key reaction held given places where
  holds := course.holds
  remembers := course.remembers
  ordered := ⟨course.first, course.sorted, course.taken⟩
  news := course.news
  starts {x v} fires := by
    obtain ⟨same, current, last, news⟩ := course.gives fires
    have objects : m.step.world.objects = m.world.objects := by
      rcases world_of_told (told_of_fires fires) with ⟨quiet, -⟩ | ⟨y, u, -, stepped⟩
      · cases quiet.symm.trans fires
      · rw [stepped]
        exact (react_same (m.world.remember s u) y.reaction u).1
    have starts := starts_of_fires course.reachable fires
    rw [same] at starts
    exact ⟨same, current, (peek_of_objects objects o key).trans current, last, news, starts⟩

/-- The values that are put into a property in the first `n` steps. -/
def putWithin (m : Machine σ) (o : ObjectId) (key : String) (n : Nat) : List Value :=
  (List.range n).flatMap fun i => ((run i m).puts? o key).toList

/-- The values that the reaction of a watcher is given in the first `n` steps. -/
def givenWithin (m : Machine σ) (s : SubscriberId) (n : Nat) : List Value :=
  (List.range n).flatMap fun i => ((run i m).gives? s).toList

/-- The places of these among the values of the property, of which it had held as many before. -/
def placesWithin (m : Machine σ) (s : SubscriberId) (o : ObjectId) (key : String) (before n : Nat) :
    List Nat :=
  (List.range n).flatMap fun i =>
    (((run i m).gives? s).map fun _ => before + (m.putWithin o key i).length - 1).toList

/-- A course goes on as the run does. -/
theorem Course.along {m : Machine σ} (course : Course s o key reaction m held given places)
    (n : Nat) : Course s o key reaction (run n m) (held ++ m.putWithin o key n)
      (given ++ m.givenWithin s n) (places ++ m.placesWithin s o key held.length n) := by
  induction n with
  | zero => simpa [run, putWithin, givenWithin, placesWithin] using course
  | succ n ih =>
    rw [run_succ]
    simpa [putWithin, givenWithin, placesWithin, List.range_succ] using ih.step

/-- Two watchers of one property, of which the second has an entry twice. The callback of the first
writes the property once more when it is given `true`, and panics when it is given a text. -/
def storming : Program Unit :=
  .call (.act (.newObject [("n", .null)])) fun _ =>
  .call (.act (.observe (.object ⟨0⟩))) fun _ =>
  .call (.watch ⟨0⟩ "n" fun
    | .bool true => .call (.write ⟨0⟩ "n" (.bool false)) fun _ => .done
    | .string _ => .call (.panic "stop") fun _ => .done
    | _ => .done) fun _ =>
  .call (.watch ⟨0⟩ "n" fun _ => .done) fun _ =>
  .call (.register ⟨0⟩ ⟨1⟩) fun _ =>
  .call (.write ⟨0⟩ "n" (.bool true)) fun _ =>
  .call (.write ⟨0⟩ "n" (.number .nan)) fun _ =>
  .call (.write ⟨0⟩ "n" (.string "x")) fun _ => .done

/-- The machine about to make the second watcher. -/
def stormingMachine : Machine Unit := run 3 (start { host := () } storming)

/-- The machine after the panic, about to tell the second watcher. -/
def calmedMachine : Machine Unit :=
  start (run 40 stormingMachine.step) (.call (.update ⟨1⟩) fun _ => .done)

/-- The second watcher never sees the first value that was written, sees the NaN once for each entry,
and sees the last value only when it is told by itself, as the panic came before its turn. -/
theorem stormed_watcher_sees_values_in_order :
    Course ⟨1⟩ ⟨0⟩ "n" (.callback ⟨1⟩) (run 5 calmedMachine)
      [.null, .bool true, .bool false, .number .nan, .string "x"]
      [.null, .bool false, .number .nan, .number .nan, .string "x"] [0, 2, 3, 3, 4] ∧
    Delivers (run 5 calmedMachine) ⟨1⟩ ⟨0⟩ "n" (.callback ⟨1⟩)
      [.null, .bool true, .bool false, .number .nan, .string "x"]
      [.null, .bool false, .number .nan, .number .nan, .string "x"] [0, 2, 3, 3, 4] := by
  have reachable : stormingMachine.Reachable :=
    reachable_run 3 (reachable_start (reachable_initial ()) rfl () storming)
  have new : ¬stormingMachine.world.Known ⟨1⟩ := Nat.not_lt_of_le (by decide +kernel)
  have found : stormingMachine.step.world.watcher? ⟨1⟩ =
      some ⟨⟨0⟩, "n", .null, .callback ⟨1⟩⟩ := by decide +kernel
  have made := Course.made reachable new found (by decide +kernel)
  have held : [stormingMachine.step.world.peek ⟨0⟩ "n"] ++
      stormingMachine.step.putWithin ⟨0⟩ "n" 40 =
        [.null, .bool true, .bool false, .number .nan, .string "x"] := by decide +kernel
  have given : [Value.null] ++ stormingMachine.step.givenWithin ⟨1⟩ 40 =
      [.null, .bool false, .number .nan, .number .nan] := by decide +kernel
  have places : [0] ++ stormingMachine.step.placesWithin ⟨1⟩ ⟨0⟩ "n" 1 40 = [0, 2, 3, 3] := by
    decide +kernel
  have stormed := made.along 40
  rw [held, given, List.length_singleton, places] at stormed
  have calmed : Course ⟨1⟩ ⟨0⟩ "n" (.callback ⟨1⟩) calmedMachine _ _ _ :=
    stormed.start (by decide +kernel) () (.call (.update ⟨1⟩) fun _ => .done)
  have put : calmedMachine.putWithin ⟨0⟩ "n" 5 = [] := by decide +kernel
  have told : calmedMachine.givenWithin ⟨1⟩ 5 = [.string "x"] := by decide +kernel
  have place : calmedMachine.placesWithin ⟨1⟩ ⟨0⟩ "n" 5 5 = [4] := by decide +kernel
  have course := calmed.along 5
  simp only [put, told, List.length_cons, List.length_nil, Nat.zero_add, Nat.reduceAdd, place,
    List.append_nil, List.cons_append, List.nil_append] at course
  exact ⟨course, watchers_see_values_in_order course⟩

end DataBinding.Machine
