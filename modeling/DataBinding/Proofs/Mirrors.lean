import Mathlib.Data.List.Flatten
import Mathlib.Data.List.Nodup
import Mathlib.Data.List.Perm.Subperm
import DataBinding.Proofs.Reactive

/-! Documents in the heap. Building a document adds a tree of objects that mirrors it: no object
stands in it twice, and none was there before. -/
namespace DataBinding

section Members

variable {α β : Type}

/-- Puts a member in the place of the one with its key, or last. -/
def putMember (key : String) (x : α) : List (String × α) → List (String × α)
  | [] => [(key, x)]
  | member :: rest =>
    if member.1 = key then (key, x) :: rest else member :: putMember key x rest

/-- Members without repetitions: a repeated key keeps its first place and its last value. -/
def settleMembers (members : List (String × α)) : List (String × α) :=
  members.foldl (fun settled member => putMember member.1 member.2 settled) []

theorem map_putMember (f : α → β) (key : String) (x : α) (members : List (String × α)) :
    (putMember key x members).map (Prod.map id f) =
      putMember key (f x) (members.map (Prod.map id f)) := by
  induction members with
  | nil => rfl
  | cons member rest ih =>
    by_cases here : member.1 = key <;> simp [putMember, here, ih]

/-- What members hold does not matter for their places. -/
theorem map_settleMembers (f : α → β) (members : List (String × α)) :
    (settleMembers members).map (Prod.map id f) = settleMembers (members.map (Prod.map id f)) := by
  suffices folded : ∀ settled : List (String × α),
      (members.foldl (fun settled member => putMember member.1 member.2 settled) settled).map
          (Prod.map id f) =
        (members.map (Prod.map id f)).foldl
          (fun settled member => putMember member.1 member.2 settled)
          (settled.map (Prod.map id f)) from folded []
  induction members with
  | nil => exact fun _ => rfl
  | cons member rest ih =>
    intro settled
    rw [List.foldl_cons, List.map_cons, List.foldl_cons, ih, map_putMember]
    rfl

theorem putMember_of_new {members : List (String × α)} (new : key ∉ members.map (·.1)) (x : α) :
    putMember key x members = members ++ [(key, x)] := by
  induction members with
  | nil => rfl
  | cons member rest ih =>
    rw [List.map_cons, List.mem_cons, not_or] at new
    rw [putMember, if_neg (Ne.symm new.1), ih new.2, List.cons_append]

/-- Members with different keys are settled. -/
theorem settleMembers_of_nodup {members : List (String × α)} (nodup : (members.map (·.1)).Nodup) :
    settleMembers members = members := by
  suffices folded : ∀ settled : List (String × α), ((settled ++ members).map (·.1)).Nodup →
      members.foldl (fun settled member => putMember member.1 member.2 settled) settled =
        settled ++ members from folded [] nodup
  clear nodup
  induction members with
  | nil => simp
  | cons member rest ih =>
    intro settled nodup
    have new : member.1 ∉ settled.map (·.1) := by
      rw [List.map_append, List.map_cons] at nodup
      exact fun early => (List.nodup_append.mp nodup).2.2 _ early _ List.mem_cons_self rfl
    rw [List.foldl_cons, putMember_of_new new, ih]
    · simp
    · simpa using nodup

theorem subperm_putMember (key : String) (x : α) (members : List (String × α)) :
    (putMember key x members).Subperm ((key, x) :: members) := by
  induction members with
  | nil => exact List.Subperm.refl _
  | cons member rest ih =>
    rw [putMember]
    split
    · exact (List.subperm_cons _).mpr (List.sublist_cons_self member rest).subperm
    · exact ((List.subperm_cons member).mpr ih).trans (List.Perm.swap _ _ _).subperm

/-- Nothing is made up. -/
theorem subperm_settleMembers (members : List (String × α)) :
    (settleMembers members).Subperm members := by
  suffices folded : ∀ settled : List (String × α),
      (members.foldl (fun settled member => putMember member.1 member.2 settled) settled).Subperm
        (settled ++ members) from folded []
  induction members with
  | nil => exact fun settled => by simpa using List.Subperm.refl settled
  | cons member rest ih =>
    intro settled
    have put := (List.subperm_append_right rest).mpr
      (subperm_putMember member.1 member.2 settled)
    exact ((ih _).trans put).trans List.perm_middle.symm.subperm

theorem mem_of_settled {members : List (String × α)} (settled : member ∈ settleMembers members) :
    member ∈ members :=
  (subperm_settleMembers members).subset settled

end Members

namespace Properties

/-- The keys with their values. -/
def entries (p : Properties) : List (String × Value) := p.slots.map fun slot => (slot.key, slot.value)

theorem map_fst_entries (p : Properties) : p.entries.map (·.1) = p.keys := by
  simp [entries, keys]

/-- Storing changes what stands under the key. -/
theorem entries_replace {p : Properties} (found : p.find? key = some slot) (value : Value) :
    (p.replace key value).entries = putMember key value p.entries := by
  have stored : (p.replace key value).slots =
      p.slots.map fun slot => if slot.key = key then { slot with value := value } else slot :=
    List.ext_getElem? fun i => by rw [getElem?_replace, List.getElem?_map]
  have there : key ∈ p.slots.map (·.key) := by
    obtain ⟨i, placed, named⟩ := find?_eq_some_iff.mp found
    exact List.mem_map.mpr ⟨slot, List.mem_of_getElem? placed, named⟩
  have nodup : (p.slots.map (·.key)).Nodup := p.nodup_keys
  rw [entries, stored, entries]
  generalize p.slots = slots at there nodup
  induction slots with
  | nil => cases there
  | cons first rest ih =>
    simp only [List.map_cons, List.nodup_cons] at nodup
    by_cases named : first.key = key
    · have away : ∀ slot ∈ rest, slot.key ≠ key := by
        rintro slot later rfl
        exact nodup.1 (named ▸ List.mem_map_of_mem later)
      have same : rest.map (fun slot => if slot.key = key then { slot with value := value } else slot) =
          rest := by
        rw [List.map_congr_left fun slot later => if_neg (away slot later), List.map_id']
      simp [putMember, named, same]
    · have later : key ∈ rest.map (·.key) := by
        simpa [Ne.symm named] using there
      have rest := ih later nodup.2
      simp only [List.map_map] at rest
      simp [putMember, named, rest]

theorem entries_append {p : Properties} (absent : p.find? key = none) (value : Value) :
    (p.append key value absent).entries = putMember key value p.entries := by
  have new : key ∉ p.entries.map (·.1) := by
    rw [map_fst_entries]
    intro there
    obtain ⟨i, placed⟩ := List.mem_iff_getElem?.mp there
    have here := index?_eq_none_iff.mpr absent
    rw [index?, (p.indexed key i).mpr placed] at here
    cases here
  rw [putMember_of_new new, entries, slots_append, entries, List.map_append]
  rfl

theorem entries_assign (p : Properties) (key : String) (value : Value) :
    (p.assign key value).entries = putMember key value p.entries := by
  unfold assign
  split
  · rename_i absent
    exact entries_append absent value
  · rename_i slot found
    exact entries_replace found value

/-- Entries with repeated keys come to stand as members without repetitions. -/
theorem entries_ofEntries (entries : List (String × Value)) :
    (ofEntries entries).entries = settleMembers entries := by
  suffices folded : ∀ p : Properties,
      (entries.foldl (fun p entry => p.assign entry.1 entry.2) p).entries =
        entries.foldl (fun settled entry => putMember entry.1 entry.2 settled) p.entries from
    folded {}
  induction entries with
  | nil => exact fun _ => rfl
  | cons entry rest ih =>
    intro p
    rw [List.foldl_cons, List.foldl_cons, ih, entries_assign]

/-- Where keys and values are the same, entries are. -/
theorem entries_of_values {p q : Properties} (keys : q.keys = p.keys)
    (values : ∀ (i : Nat) slot, p.slots[i]? = some slot → ∃ d, q.slots[i]? = some { slot with dep := d }) :
    q.entries = p.entries := by
  apply List.ext_getElem?
  intro i
  rw [entries, entries, List.getElem?_map, List.getElem?_map]
  cases there : p.slots[i]? with
  | none =>
    cases there' : q.slots[i]? with
    | none => rfl
    | some slot =>
      obtain ⟨before, was⟩ := getElem?_of_keys keys there'
      cases there.symm.trans was
  | some slot =>
    obtain ⟨d, same⟩ := values i slot there
    rw [same]
    rfl

end Properties

/-- Items, each under its number. -/
def Json.numbered (number : Nat) : List Json → List (String × Json)
  | [] => []
  | item :: rest => (Nat.repr number, item) :: numbered (number + 1) rest

/-- The members of a sequence or an object; no key stands there twice. -/
def Json.members? : Json → Option (List (String × Json))
  | .array items => some (numbered 0 items)
  | .object members => some (settleMembers members)
  | _ => none

/-- The document that is mounted: a sequence or an object, or else an object without members. -/
def Json.mounted : Json → Json
  | .array items => .array items
  | .object members => .object members
  | _ => .object []

/-- Part of a document as it stands in the heap: its value, and the objects that make that up. -/
structure Branch where
  json : Json
  value : Value
  objects : List ObjectId

namespace World

/-- The value mirrors the document, and consists of these objects: a scalar is mirrored by its
equal, a sequence or an object by an object with the same members in their order. -/
inductive Mirrors (w : World) : Json → Value → List ObjectId → Prop where
  | null : Mirrors w .null .null []
  | bool (b : Bool) : Mirrors w (.bool b) (.bool b) []
  | number (n : Numeral) : Mirrors w (.number n) (.number n.toNumber) []
  | string (s : String) : Mirrors w (.string s) (.string s) []
  | members {branches : List (String × Branch)}
      (members : json.members? = some (branches.map (Prod.map id (·.json))))
      (entries : (w.properties o).entries = branches.map (Prod.map id (·.value)))
      (each : ∀ b ∈ branches, Mirrors w b.2.json b.2.value b.2.objects) :
      Mirrors w json (.object o) (o :: branches.flatMap (·.2.objects))

theorem Mirrors.of_entries {w w' : World} (mirrors : Mirrors w json v os)
    (same : ∀ o ∈ os, (w'.properties o).entries = (w.properties o).entries) :
    Mirrors w' json v os := by
  induction mirrors with
  | null => exact .null
  | bool b => exact .bool b
  | number n => exact .number n
  | string s => exact .string s
  | members members entries each ih =>
    refine .members members ((same _ List.mem_cons_self).trans entries) fun b among => ?_
    refine ih b among fun o inside => same o (List.mem_cons_of_mem _ ?_)
    exact List.mem_flatMap.mpr ⟨b, among, inside⟩

theorem mem_entries {p : Properties} :
    (key, v) ∈ p.entries ↔ ∃ slot ∈ p.slots, slot.key = key ∧ slot.value = v := by
  simp [Properties.entries, Prod.mk.injEq]

theorem Contains.trans {w : World} (first : w.Contains a b) (second : w.Contains b c) :
    w.Contains a c := by
  induction second with
  | self => exact first
  | through _ there leads ih => exact ih.through there leads

namespace Mirrors

variable {w : World}

/-- An object that mirrors a document is one of its objects. -/
theorem root (mirrors : Mirrors w json (.object o) os) : o ∈ os := by
  cases mirrors
  exact List.mem_cons_self

/-- Nothing leads out of a mirrored document. -/
private theorem closed (mirrors : Mirrors w json v os) (inside : o ∈ os)
    (there : slot ∈ (w.properties o).slots) (leads : slot.value = .object x) : x ∈ os := by
  induction mirrors with
  | null | bool | number | string => cases inside
  | members members entries each ih =>
    right
    rcases List.mem_cons.mp inside with rfl | later
    · have entry : (slot.key, .object x) ∈ (w.properties o).entries :=
        mem_entries.mpr ⟨slot, there, rfl, leads⟩
      rw [entries] at entry
      obtain ⟨b, among, same⟩ := List.mem_map.mp entry
      have value : b.2.value = .object x := congrArg (·.2) same
      exact List.mem_flatMap.mpr ⟨b, among, root (value ▸ each b among)⟩
    · obtain ⟨b, among, within⟩ := List.mem_flatMap.mp later
      exact List.mem_flatMap.mpr ⟨b, among, ih b among within⟩

/-- All objects of a mirrored document stand below its value. -/
private theorem stands (mirrors : Mirrors w json v os) (inside : x ∈ os) :
    ∃ o, v = .object o ∧ w.Contains o x := by
  induction mirrors with
  | null | bool | number | string => cases inside
  | @members o json branches members entries each ih =>
    refine ⟨o, rfl, ?_⟩
    rcases List.mem_cons.mp inside with rfl | later
    · exact .self
    · obtain ⟨b, among, within⟩ := List.mem_flatMap.mp later
      obtain ⟨child, value, contains⟩ := ih b among within
      have entry : (b.1, .object child) ∈ (w.properties o).entries := by
        rw [entries, ← value]
        exact List.mem_map_of_mem among
      obtain ⟨slot, there, -, leads⟩ := mem_entries.mp entry
      exact (Contains.self.through there leads).trans contains

/-- The objects of a mirrored document are what can be reached. -/
theorem contains_iff (mirrors : Mirrors w json (.object o) os) : w.Contains o x ↔ x ∈ os := by
  constructor
  · intro contains
    induction contains with
    | self => exact mirrors.root
    | through _ there leads ih => exact mirrors.closed ih there leads
  · intro inside
    obtain ⟨root, same, contains⟩ := mirrors.stands inside
    obtain rfl := Value.object.inj same
    exact contains

end Mirrors

section Building

/-- Objects that were added, each of them once, and none of them with tracked properties. -/
structure Added (w : World) (os : List ObjectId) (w' : World) : Prop where
  nodup : os.Nodup
  new : o ∈ os → w.objects.size ≤ o.index ∧ o.index < w'.objects.size
  plain : o ∈ os → slot ∈ (w'.properties o).slots → slot.dep = none

theorem Added.nil (w w' : World) : Added w [] w' :=
  ⟨List.nodup_nil, fun inside => (nomatch inside), fun inside => (nomatch inside)⟩

/-- What was added before and what was added after. -/
theorem Added.append {a b c : World} (first : Added a xs b) (second : Added b ys c)
    (size : a.objects.size ≤ b.objects.size) (rests : Rests b c) : Added a (xs ++ ys) c where
  nodup := by
    refine List.nodup_append.mpr ⟨first.nodup, second.nodup, fun x early y late same => ?_⟩
    subst same
    exact absurd (first.new early).2 (Nat.not_lt_of_le (second.new late).1)
  new inside := by
    rcases List.mem_append.mp inside with early | late
    · obtain ⟨least, bound⟩ := first.new early
      exact ⟨least, Nat.lt_of_lt_of_le bound rests.size⟩
    · obtain ⟨least, bound⟩ := second.new late
      exact ⟨Nat.le_trans size least, bound⟩
  plain inside there := by
    rcases List.mem_append.mp inside with early | late
    · rw [rests.kept (first.new early).2] at there
      exact first.plain early there
    · exact second.plain late there

theorem Added.fewer {w w' : World} (added : Added w os w') (fewer : os'.Subperm os) :
    Added w os' w' where
  nodup := by
    obtain ⟨among, same, below⟩ := fewer
    exact same.nodup_iff.mp (below.nodup added.nodup)
  new inside := added.new (fewer.subset inside)
  plain inside := added.plain (fewer.subset inside)

/-- Objects that exist mirror what they did. -/
theorem Mirrors.rests {w w' : World} (mirrors : Mirrors w json v os) (rests : Rests w w')
    (existing : ∀ o ∈ os, o.index < w.objects.size) : Mirrors w' json v os :=
  mirrors.of_entries fun o inside => by rw [rests.kept (existing o inside)]

/-- A document has been built. -/
structure Built (w : World) (json : Json) (v : Value) (w' : World) (os : List ObjectId) : Prop where
  mirrors : Mirrors w' json v os
  added : Added w os w'

/-- Members of a document have been built, a branch for each of them. -/
structure BuiltAll (w : World) (members : List (String × Json)) (entries : List (String × Value))
    (w' : World) (branches : List (String × Branch)) : Prop where
  jsons : branches.map (Prod.map id (·.json)) = members
  values : branches.map (Prod.map id (·.value)) = entries
  each : ∀ b ∈ branches, Mirrors w' b.2.json b.2.value b.2.objects
  added : Added w (branches.flatMap (·.2.objects)) w'

variable {entries : List (String × Value)}

theorem BuiltAll.nil (w : World) : BuiltAll w [] [] w [] :=
  ⟨rfl, rfl, fun _ among => (nomatch among), .nil w w⟩

theorem BuiltAll.cons {a b c : World} (first : Built a json v b os)
    (rest : BuiltAll b members entries c branches) (before : Rests a b) (after : Rests b c)
    (key : String) :
    BuiltAll a ((key, json) :: members) ((key, v) :: entries) c ((key, ⟨json, v, os⟩) :: branches) where
  jsons := by simp [rest.jsons]
  values := by simp [rest.values]
  each branch among := by
    rcases List.mem_cons.mp among with rfl | later
    · exact first.mirrors.rests after fun o inside => (first.added.new inside).2
    · exact rest.each branch later
  added := first.added.append rest.added before.size after

/-- A new object with the members mirrors a document that has them. -/
theorem BuiltAll.newObject {w w' : World} {json : Json} (built : BuiltAll w members entries w' branches)
    (size : w.objects.size ≤ w'.objects.size) (keeps : json.members? = some (settleMembers members)) :
    ∃ os, Built w json (.object (w'.newObject (.ofEntries entries)).2)
      (w'.newObject (.ofEntries entries)).1 os := by
  have rests := Rests.newObject w' entries
  have new : (w'.newObject (.ofEntries entries)).1.properties (w'.newObject (.ofEntries entries)).2 =
      .ofEntries entries := by
    simp [properties, World.newObject, Arena.get?_push]
  have fewer : ((settleMembers branches).flatMap (·.2.objects)).Subperm
      (branches.flatMap (·.2.objects)) := by
    obtain ⟨among, same, below⟩ := subperm_settleMembers branches
    exact ⟨_, same.flatMap_right _, below.flatMap _⟩
  have existing : ∀ b ∈ branches, ∀ o ∈ b.2.objects, o.index < w'.objects.size :=
    fun b among o inside => (built.added.new (List.mem_flatMap.mpr ⟨b, among, inside⟩)).2
  refine ⟨_ :: (settleMembers branches).flatMap (·.2.objects), .members ?_ ?_ ?_, ?_⟩
  · rw [keeps, map_settleMembers, built.jsons]
  · rw [new, Properties.entries_ofEntries, map_settleMembers, built.values]
  · intro b settled
    have among := mem_of_settled settled
    exact (built.each b among).rests rests (existing b among)
  · have added := built.added.fewer fewer
    refine ⟨List.nodup_cons.mpr ⟨fun inside => ?_, added.nodup⟩, fun inside => ?_, fun inside there => ?_⟩
    · exact absurd (added.new inside).2 (Nat.lt_irrefl _)
    · rcases List.mem_cons.mp inside with rfl | below
      · exact ⟨size, by simp [World.newObject]⟩
      · obtain ⟨least, bound⟩ := added.new below
        exact ⟨least, Nat.lt_of_lt_of_le bound rests.size⟩
    · rcases List.mem_cons.mp inside with rfl | below
      · rw [new] at there
        obtain ⟨i, found⟩ := List.mem_iff_getElem?.mp there
        exact plain_ofEntries entries _ _ (Properties.find?_eq_some_iff.mpr ⟨i, found, rfl⟩)
      · rw [rests.kept (added.new below).2] at there
        exact added.plain below there

/-- A number can be read back from its digits. -/
private theorem repr_injective : Function.Injective Nat.repr := by
  have read : ∀ n : Nat, Nat.ofDigitChars 10 n.repr.toList 0 = n := fun n => by
    rw [Nat.toList_repr, Nat.ofDigitChars_toDigits] <;> decide
  intro m n same
  rw [← read m, same, read n]

/-- The numbers of items differ. -/
theorem settleMembers_numbered (number : Nat) (items : List Json) :
    settleMembers (Json.numbered number items) = Json.numbered number items := by
  have keys : ∀ number, (Json.numbered number items).map (·.1) =
      (List.range' number items.length).map Nat.repr := by
    induction items with
    | nil => exact fun _ => rfl
    | cons item rest ih => exact fun number => by simp [Json.numbered, ih, List.range'_succ]
  apply settleMembers_of_nodup
  rw [keys]
  exact List.Nodup.map repr_injective List.nodup_range'

mutual

theorem built_build (w : World) :
    (json : Json) → ∃ os, Built w json (w.build json).2 (w.build json).1 os
  | .null => ⟨[], .null, .nil _ _⟩
  | .bool b => ⟨[], .bool b, .nil _ _⟩
  | .number n => ⟨[], .number n, .nil _ _⟩
  | .string s => ⟨[], .string s, .nil _ _⟩
  | .array items => by
    obtain ⟨branches, built⟩ := builtAll_buildItems w 0 items
    have keeps : (Json.array items).members? = some (settleMembers (Json.numbered 0 items)) :=
      congrArg some (settleMembers_numbered 0 items).symm
    exact built.newObject (Rests.buildItems w 0 items).size keeps
  | .object members => by
    obtain ⟨branches, built⟩ := builtAll_buildMembers w members
    have keeps : (Json.object members).members? = some (settleMembers members) := rfl
    exact built.newObject (Rests.buildMembers w members).size keeps

theorem builtAll_buildItems (w : World) (number : Nat) : (items : List Json) →
    ∃ branches, BuiltAll w (Json.numbered number items) (w.buildItems number items).2
      (w.buildItems number items).1 branches
  | [] => ⟨[], .nil w⟩
  | item :: rest => by
    obtain ⟨os, first⟩ := built_build w item
    obtain ⟨branches, later⟩ := builtAll_buildItems (w.build item).1 (number + 1) rest
    exact ⟨_, .cons first later (.build w item) (.buildItems _ (number + 1) rest) (Nat.repr number)⟩

theorem builtAll_buildMembers (w : World) : (members : List (String × Json)) →
    ∃ branches, BuiltAll w members (w.buildMembers members).2 (w.buildMembers members).1 branches
  | [] => ⟨[], .nil w⟩
  | (key, json) :: rest => by
    obtain ⟨os, first⟩ := built_build w json
    obtain ⟨branches, later⟩ := builtAll_buildMembers (w.build json).1 rest
    exact ⟨_, .cons first later (.build w json) (.buildMembers _ rest) key⟩

end

/-- What is mounted mirrors the document. -/
theorem built_dataObject (w : World) (json : Json) : ∃ os, Built w json.mounted
    (.object ((w.build json).1.dataObject (w.build json).2).2)
    ((w.build json).1.dataObject (w.build json).2).1 os := by
  have nothing : (Json.object []).members? = some (settleMembers []) := rfl
  have empty := (BuiltAll.nil w).newObject (Nat.le_refl _) nothing
  cases json with
  | array items => exact built_build w (.array items)
  | object members => exact built_build w (.object members)
  | null | bool | number | string => exact empty

end Building

/-- Observing changes no value. -/
theorem entries_observed (w : World) (v : Value) (o : ObjectId) :
    ((w.observe v).properties o).entries = (w.properties o).entries := by
  have marks := marks_observeAll w [v]
  refine Properties.entries_of_values (marks.keys o) fun i slot there => ?_
  by_cases gained : slot.dep = none ∧ w.Reached [v] o
  · obtain ⟨d, ⟨before, was, -, after⟩, -⟩ := marks.gains gained.2 there gained.1
    obtain rfl := Option.some.inj (there.symm.trans was)
    exact ⟨some d, after⟩
  · exact ⟨slot.dep, marks.kept there (by tauto)⟩

/-- A document has been mounted on new objects. They mirror it, no object stands in it twice, and all
their properties, at any depth, are tracked. -/
structure Plants (w : World) (json : Json) (data : ObjectId) (w' : World) : Prop where
  mirrors : ∃ os, Mirrors w' json.mounted (.object data) os ∧ os.Nodup
  new : w'.Contains data o → w.objects.size ≤ o.index ∧ o.index < w'.objects.size
  tracked : w'.Contains data o → slot ∈ (w'.properties o).slots → slot.dep ≠ none

theorem Plants.of_objects {w w₁ w₂ : World} (plants : Plants w json data w₁)
    (same : w₂.objects = w₁.objects) : Plants w json data w₂ := by
  have properties : ∀ o, w₂.properties o = w₁.properties o := fun o => by
    rw [World.properties, World.properties, same]
  have contains : ∀ {o}, w₂.Contains data o → w₁.Contains data o := fun reached => by
    induction reached with
    | self => exact .self
    | through _ there leads ih => exact ih.through (properties _ ▸ there) leads
  obtain ⟨os, mirrors, nodup⟩ := plants.mirrors
  refine ⟨⟨os, mirrors.of_entries fun o _ => by rw [properties], nodup⟩, fun reached => ?_,
    fun reached there => plants.tracked (contains reached) (properties _ ▸ there)⟩
  rw [same]
  exact plants.new (contains reached)

/-- Observing what was built tracks all of it. -/
theorem plants_observe {w w₁ : World} (built : Built w json.mounted (.object data) w₁ os) :
    Plants w json data (w₁.observe (.object data)) := by
  have mirrors : Mirrors (w₁.observe (.object data)) json.mounted (.object data) os :=
    built.mirrors.of_entries fun o _ => entries_observed w₁ _ o
  have reached : ∀ {o}, w₁.Contains data o → w₁.Reached [.object data] o := fun contains => by
    induction contains with
    | self => exact .given List.mem_cons_self
    | through contains there leads ih =>
      have inside := built.mirrors.contains_iff.mp contains
      exact ih.through there (built.added.plain inside there) leads
  refine ⟨⟨os, mirrors, built.added.nodup⟩, fun contains => ?_, fun contains there => ?_⟩
  · rw [observe, (rest_observeAll w₁ _).1]
    exact built.added.new (mirrors.contains_iff.mp contains)
  · have before := built.mirrors.contains_iff.mpr (mirrors.contains_iff.mp contains)
    exact tracked_observeAll (reached before) there

/-- Mounting options builds their document, observes what is mounted and binds the element to it. -/
theorem mountOptions_eq_ok {w w' : World}
    (mounted : w.mountOptions document options = some (.ok (w', vm)))
    (found : w'.viewModel? vm = some view) : ∃ bound,
      view.data = ((w.build options.data).1.dataObject (w.build options.data).2).2 ∧
      (((w.build options.data).1.dataObject (w.build options.data).2).1.observe
        (.object view.data)).bind view.data view.element = some (bound, view.watchers) ∧
      w' = { bound with viewModels := bound.viewModels.push (some view) } := by
  obtain ⟨element, ran⟩ := mountOptions_eq_some mounted
  obtain ⟨bound, watchers, binds, rfl, rfl⟩ := mount_eq_some ran
  simp only [viewModel?, Arena.get?_push, if_true, Option.join_some, Option.some.injEq] at found
  subst found
  exact ⟨bound, rfl, binds, rfl⟩

/-- Mounting options mounts their document on new objects. -/
theorem plants_mountOptions {w w' : World}
    (mounted : w.mountOptions document options = some (.ok (w', vm)))
    (found : w'.viewModel? vm = some view) : Plants w options.data view.data w' := by
  obtain ⟨bound, data, binds, rfl⟩ := mountOptions_eq_ok mounted found
  obtain ⟨os, built⟩ := built_dataObject w options.data
  rw [← data] at built
  have objects := objects_bind binds
  exact (plants_observe built).of_objects objects

end World
end DataBinding
