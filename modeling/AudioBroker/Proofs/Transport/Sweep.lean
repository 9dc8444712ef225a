import AudioBroker.Proofs.Sharing
import AudioBroker.Proofs.Transport.Tally

/-!
# The sweep of a transport

Owners that are marked are torn down sooner or later, one after another. What is
left of their transport does not depend on the order in which they go, nor on
whether one of them went before the others, and the calls that are made are the same
up to their order.

- `Transport.swept`: a transport once its marked owners are gone.
- `Transport.sweepCalls`: the calls that are made when they go.
- `Transport.swept_without`, `Transport.sweepCalls_without`: the end of one marked
  owner is a part of the sweep.
-/

namespace AudioBroker

namespace Transport

variable {t : Transport} {i : Nat} {o : Owner}

/-- The owners that wait to be torn down. -/
def marked (t : Transport) : List Owner := t.owners.toList.filter Owner.scheduled

/-- Whether a transport has owners, and loses all of them when the marked ones go. -/
def vacates (t : Transport) : Bool :=
  !t.owners.isEmpty && t.owners.toList.all Owner.scheduled

/-- The transport once its marked owners are gone: their directions are free, and it
is out of use if nobody is left. -/
def swept (t : Transport) : Transport :=
  { t with owners := t.owners.filter fun o => !o.scheduled,
           locks := t.locks \ Access.unions (t.marked.map Owner.access),
           inUse := t.inUse && !t.vacates }

/-- The calls that are made when the marked owners go. -/
def sweepCalls (t : Transport) : List Call :=
  t.marked.flatMap (fun o => o.partingCalls t.backend t.device) ++
    if t.vacates then t.backend.unlockCalls t.inUse t.device else []

/-- How many owners are marked. -/
def marks (t : Transport) : Nat := t.tally Owner.scheduled

/-! ### One marked owner -/

/-- A marked owner that ends is gone from the marked ones, which stay in order. -/
theorem marked_around (ho : t.owners.toList[i]? = some o) (hs : o.scheduled = true) :
    ∃ pre post, t.marked = pre ++ o :: post ∧ (t.without i).marked = pre ++ post := by
  obtain ⟨pre, post, hl, -, herase, -⟩ := BoundedList.exists_around ho
  refine ⟨pre.filter Owner.scheduled, post.filter Owner.scheduled, ?_, ?_⟩
  · rw [marked, hl, List.filter_append, List.filter_cons_of_pos hs]
  · rw [marked, toList_owners_without, herase, List.filter_append]

/-- Directions are taken away in any order. -/
theorem locks_without_swept (ho : t.owners.toList[i]? = some o)
    (hs : o.scheduled = true) :
    (t.without i).locks \ Access.unions ((t.without i).marked.map Owner.access) =
      t.locks \ Access.unions (t.marked.map Owner.access) := by
  obtain ⟨pre, post, hmarked, hrest⟩ := marked_around ho hs
  rw [hmarked, hrest, without_eq ho]
  apply Access.ext_has
  intro d
  simp only [Access.has_sdiff, Access.has_unions, List.map_append, List.map_cons,
    List.any_append, List.any_cons]
  cases t.locks.has d <;> cases o.access.has d <;> simp

/-- A transport loses its last owner now, or it loses it with the marked ones that
are left. -/
theorem vacates_eq (ho : t.owners.toList[i]? = some o) (hs : o.scheduled = true) :
    t.vacates = ((t.owners.eraseIdx i).isEmpty || (t.without i).vacates) := by
  obtain ⟨pre, post, hl, -, herase, -⟩ := BoundedList.exists_around ho
  rw [vacates, vacates, BoundedList.isEmpty_eq, BoundedList.isEmpty_eq,
    BoundedList.isEmpty_eq, toList_owners_without, BoundedList.toList_eraseIdx,
    herase, hl]
  cases pre <;> cases post <;> simp [hs]

/-- The end of a marked owner is a part of the sweep. -/
theorem swept_without (ho : t.owners.toList[i]? = some o) (hs : o.scheduled = true) :
    (t.without i).swept = t.swept := by
  have howners : (t.without i).owners.filter (fun o => !o.scheduled) =
      t.owners.filter fun o => !o.scheduled := by
    obtain ⟨pre, post, hl, -, herase, -⟩ := BoundedList.exists_around ho
    refine BoundedList.ext ?_
    rw [BoundedList.toList_filter, BoundedList.toList_filter, toList_owners_without,
      herase, hl]
    simp [hs]
  have hinUse :
      ((t.without i).inUse && !(t.without i).vacates) = (t.inUse && !t.vacates) := by
    rw [vacates_eq ho hs, without_eq ho]
    simp [Bool.and_assoc]
  rw [swept, howners, locks_without_swept ho hs, hinUse, without_eq ho, swept]

/-- The calls at the end of a marked owner are among those of the sweep. -/
theorem sweepCalls_without (ho : t.owners.toList[i]? = some o)
    (hs : o.scheduled = true) :
    (t.partingCalls i ++ (t.without i).sweepCalls).Perm t.sweepCalls := by
  obtain ⟨pre, post, hmarked, hrest⟩ := marked_around ho hs
  have hbackend : (t.without i).backend = t.backend ∧
      (t.without i).device = t.device := by
    rw [without_eq ho]
    exact ⟨rfl, rfl⟩
  -- the stream lock is given back at one of the two ends
  have hunlock :
      (if (t.owners.eraseIdx i).isEmpty then t.backend.unlockCalls t.inUse t.device
        else []) ++
      (if (t.without i).vacates then t.backend.unlockCalls
        (t.without i).inUse t.device else []) =
      if t.vacates then t.backend.unlockCalls t.inUse t.device else [] := by
    have hinUse :
        (t.without i).inUse = (t.inUse && !(t.owners.eraseIdx i).isEmpty) := by
      rw [without_eq ho]
    rw [vacates_eq ho hs, hinUse]
    cases hempty : (t.owners.eraseIdx i).isEmpty with
    | false => simp
    | true =>
      have hstays : (t.without i).vacates = false := by
        rw [vacates, BoundedList.isEmpty_eq, toList_owners_without,
          ← BoundedList.toList_eraseIdx, ← BoundedList.isEmpty_eq, hempty]
        rfl
      simp [hstays]
  rw [sweepCalls, sweepCalls, partingCalls_eq ho, hbackend.1, hbackend.2, ← hunlock,
    hmarked, hrest, List.flatMap_append, List.flatMap_append, List.flatMap_cons,
    List.perm_iff_count]
  intro c
  simp only [List.count_append]
  omega

/-- There is one mark less when a marked owner ends. -/
theorem marks_without (ho : t.owners.toList[i]? = some o) (hs : o.scheduled = true) :
    t.marks = (t.without i).marks + 1 := by
  rw [marks, marks, tally_without ho, hs]
  rfl

/-! ### Without marks -/

theorem marked_of_unmarked (h : ∀ o ∈ t.owners.toList, o.scheduled = false) :
    t.marked = [] :=
  List.filter_eq_nil_iff.mpr fun o ho => by simp [h o ho]

theorem vacates_of_unmarked (h : ∀ o ∈ t.owners.toList, o.scheduled = false) :
    t.vacates = false := by
  rw [vacates, BoundedList.isEmpty_eq]
  cases hl : t.owners.toList with
  | nil => rfl
  | cons o rest => simp [h o (hl ▸ List.mem_cons_self)]

/-- A transport without marked owners stays as it is. -/
theorem swept_of_unmarked (h : ∀ o ∈ t.owners.toList, o.scheduled = false) :
    t.swept = t := by
  have howners : t.owners.filter (fun o => !o.scheduled) = t.owners :=
    BoundedList.ext (List.filter_eq_self.mpr fun o ho => by simp [h o ho])
  have hlocks : t.locks \ Access.unions [] = t.locks := by
    apply Access.ext_has
    intro d
    simp [Access.has_unions]
  rw [swept, howners, marked_of_unmarked h, vacates_of_unmarked h, List.map_nil,
    hlocks]
  simp

theorem sweepCalls_of_unmarked (h : ∀ o ∈ t.owners.toList, o.scheduled = false) :
    t.sweepCalls = [] := by
  rw [sweepCalls, marked_of_unmarked h, vacates_of_unmarked h]
  rfl

theorem marks_of_unmarked (h : ∀ o ∈ t.owners.toList, o.scheduled = false) :
    t.marks = 0 :=
  List.countP_eq_zero.mpr fun o ho => by simp [h o ho]

end Transport

end AudioBroker
