/-!
# Lists of bounded length

The broker works in fixed memory: each of its tables and queues holds a stated
number of items.

- `BoundedList α n`: a list of at most `n` items, in insertion order; `toList` is
  its view.
- `push?`: one more item at the end; a full list takes none.
- `eraseIdx`, `modify`, `map`, `filter`: changes that never make a list longer.
-/

namespace AudioBroker

/-- A list of at most `n` items. -/
structure BoundedList (α : Type) (n : Nat) where
  toList : List α
  length_le : toList.length ≤ n
  deriving DecidableEq

namespace BoundedList

variable {α : Type} {n : Nat}

@[ext] theorem ext {l m : BoundedList α n} (h : l.toList = m.toList) : l = m := by
  cases l; cases m; cases h; rfl

/-- The list with no items. -/
def empty : BoundedList α n := ⟨[], Nat.zero_le n⟩

instance : EmptyCollection (BoundedList α n) := ⟨empty⟩

instance : Inhabited (BoundedList α n) := ⟨empty⟩

@[simp] theorem toList_empty : (∅ : BoundedList α n).toList = [] := rfl

/-- The items of `xs`, unless there are more than `n`. -/
def ofList? (xs : List α) : Option (BoundedList α n) :=
  if h : xs.length ≤ n then some ⟨xs, h⟩ else none

/-- A list that fits is kept as it is. -/
theorem ofList?_eq_some_iff {xs : List α} {l : BoundedList α n} :
    ofList? xs = some l ↔ l.toList = xs := by
  constructor
  · intro h
    unfold ofList? at h
    split at h
    · cases h; rfl
    · cases h
  · rintro rfl
    simp [ofList?, l.length_le]

theorem ofList?_eq_none_iff {xs : List α} :
    (ofList? xs : Option (BoundedList α n)) = none ↔ n < xs.length := by
  unfold ofList?
  split
  · next h => simp [Nat.not_lt.mpr h]
  · next h => simp [Nat.lt_of_not_le h]

/-- The number of items. -/
def size (l : BoundedList α n) : Nat := l.toList.length

/-- Whether there is no item. -/
def isEmpty (l : BoundedList α n) : Bool := l.toList.isEmpty

/-- Whether there is no room for another item. -/
def isFull (l : BoundedList α n) : Bool := decide (l.toList.length = n)

@[simp] theorem size_eq (l : BoundedList α n) : l.size = l.toList.length := rfl

@[simp] theorem isEmpty_eq (l : BoundedList α n) : l.isEmpty = l.toList.isEmpty := rfl

@[simp] theorem isFull_iff {l : BoundedList α n} :
    l.isFull = true ↔ l.toList.length = n := by
  simp [isFull]

/-! ### A queue -/

/-- A list that is not full has room for one more item. -/
theorem length_snoc_le {xs : List α} {a : α} (h : xs.length < n) :
    (xs ++ [a]).length ≤ n := by
  rw [List.length_append]
  exact h

/-- Appends `a`, unless the list is full. -/
def push? (l : BoundedList α n) (a : α) : Option (BoundedList α n) :=
  if h :
    l.toList.length < n then some
      ⟨l.toList ++ [a], by simpa [Nat.succ_le_iff] using h⟩ else none

/-- An item goes to the end, and it does so exactly when there is room. -/
theorem push?_eq_some_iff {l m : BoundedList α n} {a : α} :
    l.push? a = some m ↔ l.toList.length < n ∧ m.toList = l.toList ++ [a] := by
  unfold push?
  split
  · next h =>
    constructor
    · rintro ⟨⟩
      exact ⟨h, rfl⟩
    · rintro ⟨-, hm⟩
      exact congrArg some (ext hm.symm)
  · next h => simp [h]

/-- An item is refused exactly by a full list. -/
theorem push?_eq_none_iff {l : BoundedList α n} {a : α} :
    l.push? a = none ↔ l.toList.length = n := by
  unfold push?
  split
  · next h => simp [Nat.ne_of_lt h]
  · next h => simp [Nat.le_antisymm l.length_le (Nat.le_of_not_lt h)]

/-! ### Changes in place -/

/-- Drops the item at index `i`, if there is one. -/
def eraseIdx (l : BoundedList α n) (i : Nat) : BoundedList α n :=
  ⟨l.toList.eraseIdx i, Nat.le_trans (List.length_eraseIdx_le ..) l.length_le⟩

/-- Applies `f` to the item at index `i`, if there is one. -/
def modify (l : BoundedList α n) (i : Nat) (f : α → α) : BoundedList α n :=
  ⟨l.toList.modify i f, by simpa using l.length_le⟩

/-- Applies `f` to every item. -/
def map (l : BoundedList α n) (f : α → α) : BoundedList α n :=
  ⟨l.toList.map f, by simpa using l.length_le⟩

/-- Keeps the items that satisfy `p`. -/
def filter (l : BoundedList α n) (p : α → Bool) : BoundedList α n :=
  ⟨l.toList.filter p, Nat.le_trans (List.length_filter_le ..) l.length_le⟩

@[simp] theorem toList_eraseIdx (l : BoundedList α n) (i : Nat) :
    (l.eraseIdx i).toList = l.toList.eraseIdx i := rfl

@[simp] theorem toList_modify (l : BoundedList α n) (i : Nat) (f : α → α) :
    (l.modify i f).toList = l.toList.modify i f := rfl

@[simp] theorem toList_map (l : BoundedList α n) (f : α → α) :
    (l.map f).toList = l.toList.map f := rfl

@[simp] theorem toList_filter (l : BoundedList α n) (p : α → Bool) :
    (l.filter p).toList = l.toList.filter p := rfl

/-- A change at a place that is known by the items before it. -/
theorem modify_around {f : α → α} (pre post : List α) (a : α) :
    (pre ++ a :: post).modify pre.length f = pre ++ f a :: post :=
  List.modifyTailIdx_add (List.modifyHead f) 0 pre (a :: post)

theorem eraseIdx_around (pre post : List α) (a : α) :
    (pre ++ a :: post).eraseIdx pre.length = pre ++ post := by
  simp [List.eraseIdx_append_of_length_le]

/-- A list around the item at index `i`: what is dropped or changed there is that
item, and the items before and after it stay. -/
theorem exists_around {xs : List α} {i : Nat} {a : α} (h : xs[i]? = some a) :
    ∃ pre post, xs = pre ++ a :: post ∧ pre.length = i ∧ xs.eraseIdx i = pre ++ post ∧
      ∀ f, xs.modify i f = pre ++ f a :: post := by
  obtain ⟨hi, rfl⟩ := List.getElem?_eq_some_iff.mp h
  refine ⟨xs.take i, xs.drop (i + 1), ?_, ?_, List.eraseIdx_eq_take_drop_succ ..,
    fun f => ?_⟩
  · rw [List.getElem_cons_drop, List.take_append_drop]
  · exact List.length_take_of_le (Nat.le_of_lt hi)
  · exact List.modify_eq_take_cons_drop hi

/-- What is in a list around one item is this item, or it is before or after it. -/
theorem mem_around {pre post : List α} {a b : α} :
    b ∈ pre ++ a :: post ↔ b = a ∨ b ∈ pre ++ post := by
  rw [List.mem_append, List.mem_cons, or_left_comm, ← List.mem_append]

/-- A count, with one item counted apart from those before and after it. -/
theorem countP_around (p : α → Bool) (pre post : List α) (a : α) :
    (pre ++ a :: post).countP p = pre.countP p + (post.countP p + (p a).toNat) := by
  rw [List.countP_append, List.countP_cons]
  cases p a <;> rfl

/-- A change of one item is not seen by what does not look at what is changed. -/
theorem map_modify_eq {β : Type} {f : α → α} {g : α → β} (h : ∀ a, g (f a) = g a)
    (xs : List α) (i : Nat) : (xs.modify i f).map g = xs.map g := by
  induction xs generalizing i with
  | nil => simp
  | cons x xs ih => cases i <;> simp [h, ih]

end BoundedList

end AudioBroker
