/-!
# Access to a transport

A transport can be read, written, or both, and each of the two directions is granted
on its own.

- `Access`: a set of directions, with the set operations `∪`, `∩`, `\`, `⊆` and `∅`.
- `Access.parse?`: the directions that a client's text names.
- `Access.text`: the canonical spelling, one of the empty text, `r`, `w` and `rw`.
-/

namespace AudioBroker

/-- A set of stream directions. -/
@[ext] structure Access where
  read : Bool
  write : Bool
  deriving DecidableEq

namespace Access

/-- Both directions. -/
def readWrite : Access := ⟨true, true⟩

instance : EmptyCollection Access := ⟨⟨false, false⟩⟩

instance : Inhabited Access := ⟨∅⟩

instance : Union Access := ⟨fun a b => ⟨a.read || b.read, a.write || b.write⟩⟩

instance : Inter Access := ⟨fun a b => ⟨a.read && b.read, a.write && b.write⟩⟩

instance : SDiff Access := ⟨fun a b => ⟨a.read && !b.read, a.write && !b.write⟩⟩

/-- `a ⊆ b` when no direction of `a` is missing from `b`. -/
instance : HasSubset Access := ⟨fun a b => a \ b = ∅⟩

instance (a b : Access) : Decidable (a ⊆ b) := inferInstanceAs (Decidable (a \ b = ∅))

@[simp] theorem read_empty : (∅ : Access).read = false := rfl

@[simp] theorem write_empty : (∅ : Access).write = false := rfl

@[simp] theorem read_union (a b : Access) : (a ∪ b).read = (a.read || b.read) := rfl

@[simp] theorem write_union (a b : Access) : (a ∪ b).write = (a.write || b.write) :=
  rfl

@[simp] theorem read_inter (a b : Access) : (a ∩ b).read = (a.read && b.read) := rfl

@[simp] theorem write_inter (a b : Access) : (a ∩ b).write = (a.write && b.write) :=
  rfl

@[simp] theorem read_sdiff (a b : Access) : (a \ b).read = (a.read && !b.read) := rfl

@[simp] theorem write_sdiff (a b : Access) :
    (a \ b).write = (a.write && !b.write) := rfl

/-- Inclusion, read off one direction after the other. -/
theorem subset_iff {a b : Access} :
    a ⊆ b ↔ (a.read = true → b.read = true) ∧ (a.write = true → b.write = true) := by
  show a \ b = ∅ ↔ _
  obtain ⟨ar, aw⟩ := a
  obtain ⟨br, bw⟩ := b
  revert ar aw br bw
  decide

theorem subset_refl (a : Access) : a ⊆ a := subset_iff.mpr ⟨id, id⟩

theorem subset_trans {a b c : Access} (h : a ⊆ b) (h' : b ⊆ c) : a ⊆ c := by
  rw [subset_iff] at *
  exact ⟨h'.1 ∘ h.1, h'.2 ∘ h.2⟩

theorem sdiff_subset (a b : Access) : a \ b ⊆ a := by
  rw [subset_iff, read_sdiff, write_sdiff, Bool.and_eq_true, Bool.and_eq_true]
  exact ⟨And.left, And.left⟩

/-- Directions that were free are free again when they are given back. -/
theorem union_sdiff_self {a locks : Access} (h : a ∩ locks = ∅) :
    (locks ∪ a) \ a = locks := by
  obtain ⟨ar, aw⟩ := a
  obtain ⟨lr, lw⟩ := locks
  revert ar aw lr lw
  decide

/-- Something is left of a set when less than all of it is taken away. -/
theorem sdiff_ne_empty {a b : Access} (h : a ⊆ b) (hne : a ≠ b) : b \ a ≠ ∅ := by
  obtain ⟨ar, aw⟩ := a
  obtain ⟨br, bw⟩ := b
  revert ar aw br bw
  decide

/-! ### Text -/

/-- The directions named in `s`: an `r` anywhere asks to read and a `w` anywhere to
write, and other characters mean nothing. A text that names neither is no access at
all. -/
def parse? (s : String) : Option Access :=
  let named : Access := ⟨s.toList.contains 'r', s.toList.contains 'w'⟩
  if named = ∅ then none else some named

/-- What a text names: `r` and `w` count wherever they stand, and anything else in the
text is ignored. -/
theorem parse?_eq_some_iff {s : String} {a : Access} :
    parse? s = some a ↔
      a ≠ ∅ ∧ (a.read = true ↔ 'r' ∈ s.toList) ∧
        (a.write = true ↔ 'w' ∈ s.toList) := by
  obtain ⟨r, w⟩ := a
  by_cases hr : 'r' ∈ s.toList <;> by_cases hw : 'w' ∈ s.toList <;>
    simp only [parse?, List.contains_eq_mem, hr, hw] <;> revert r w <;> decide

/-- A text that contains neither letter names nothing. -/
theorem parse?_eq_none_iff {s : String} :
    parse? s = none ↔ 'r' ∉ s.toList ∧ 'w' ∉ s.toList := by
  by_cases hr : 'r' ∈ s.toList <;> by_cases hw : 'w' ∈ s.toList <;>
    simp only [parse?, List.contains_eq_mem, hr, hw] <;> decide

/-- The canonical spelling of a set of directions, reading first. -/
def text : Access → String
  | ⟨true, true⟩ => "rw"
  | ⟨true, false⟩ => "r"
  | ⟨false, true⟩ => "w"
  | ⟨false, false⟩ => ""

instance : ToString Access := ⟨text⟩

/-- The canonical spelling names exactly its set. -/
theorem parse?_text {a : Access} (h : a ≠ ∅) : parse? a.text = some a := by
  revert h
  obtain ⟨r, w⟩ := a
  cases r <;> cases w <;> decide

end Access

end AudioBroker
