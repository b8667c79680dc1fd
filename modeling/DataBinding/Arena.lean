/-!
Arenas hold the things that are shared by reference. A thing is added once, is found again by its
index for good, and changes in place.
-/
namespace DataBinding

/-- Things numbered in the order in which they were added. -/
structure Arena (α : Type) where
  cells : Array α := #[]

namespace Arena

variable {α : Type}

def empty : Arena α := ⟨#[]⟩

instance : Inhabited (Arena α) := ⟨empty⟩

def size (a : Arena α) : Nat := a.cells.size

/-- The thing at an index. -/
def get? (a : Arena α) (i : Nat) : Option α := a.cells[i]?

/-- Adds a thing; its index is the size so far. -/
def push (a : Arena α) (x : α) : Arena α := ⟨a.cells.push x⟩

/-- Changes the thing at an index, if there is one. -/
def modify (a : Arena α) (i : Nat) (f : α → α) : Arena α := ⟨a.cells.modify i f⟩

@[simp] theorem size_push (a : Arena α) (x : α) : (a.push x).size = a.size + 1 := by
  simp [push, size]

@[simp] theorem size_modify (a : Arena α) (i : Nat) (f : α → α) :
    (a.modify i f).size = a.size := by
  simp [modify, size]

/-- Adding moves nothing. -/
theorem get?_push (a : Arena α) (x : α) (i : Nat) :
    (a.push x).get? i = if i = a.size then some x else a.get? i :=
  Array.getElem?_push

/-- A change is seen at its index and nowhere else. -/
theorem get?_modify (a : Arena α) (i j : Nat) (f : α → α) :
    (a.modify i f).get? j = if i = j then (a.get? j).map f else a.get? j :=
  Array.getElem?_modify

/-- An arena is what is found in it. -/
theorem ext_get? {a b : Arena α} (same : ∀ i, a.get? i = b.get? i) : a = b := by
  obtain ⟨xs⟩ := a
  obtain ⟨ys⟩ := b
  exact congrArg mk (Array.ext_getElem? same)

/-- What is found has an index below the size. -/
theorem lt_size_of_get? {a : Arena α} {i : Nat} {x : α} (found : a.get? i = some x) : i < a.size :=
  (Array.getElem?_eq_some_iff.mp found).choose

/-- A thing that was just added may as well have been changed before. -/
theorem modify_push_size (a : Arena α) (x : α) (f : α → α) :
    (a.push x).modify a.size f = a.push (f x) := by
  refine ext_get? fun i => ?_
  by_cases last : i = a.size
  · subst last
    simp [get?_modify, get?_push]
  · simp [get?_modify, get?_push, last, Ne.symm last]

/-- The sum of a count over all things. -/
def total (count : α → Nat) (a : Arena α) : Nat := (a.cells.toList.map count).foldr (· + ·) 0

@[simp] theorem total_push (count : α → Nat) (a : Arena α) (x : α) :
    (a.push x).total count = a.total count + count x := by
  change ((a.push x).cells.toList.map count).sum = (a.cells.toList.map count).sum + count x
  simp [push]

private theorem sum_map_modify (count : α → Nat) (f : α → α) (xs : List α) (i : Nat) :
    ((xs.modify i f).map count).foldr (· + ·) 0 + ((xs[i]?).map count).getD 0 =
      (xs.map count).foldr (· + ·) 0 + ((xs[i]?).map fun x => count (f x)).getD 0 := by
  induction xs generalizing i with
  | nil => simp
  | cons x xs ih =>
    cases i with
    | zero => simp; omega
    | succ i =>
      have := ih i
      simp only [List.modify_succ_cons, List.map_cons, List.foldr_cons, List.getElem?_cons_succ]
      omega

/-- A change moves the sum by what it does to the one thing changed. -/
theorem total_modify (count : α → Nat) (f : α → α) (a : Arena α) (i : Nat) :
    (a.modify i f).total count + ((a.get? i).map count).getD 0 =
      a.total count + ((a.get? i).map fun x => count (f x)).getD 0 := by
  simpa [total, modify, get?, Array.toList_modify] using sum_map_modify count f a.cells.toList i

end Arena
end DataBinding
