import AudioBroker.Transport.Basic

/-!
# The registry of live transports

- `Registry`: the live transports, in the order in which they were created.
- `Registry.get?`, `Registry.find?`: a transport by its number or by its path.
- `Registry.insert?`, `Registry.replace`, `Registry.erase`: the changes of the
  registry.
- `Registry.Distinct`: no two transports have one number. Every change of the
  registry keeps it.
-/

namespace AudioBroker

/-- The most transports that live at one time. -/
def maxTransports : Nat := 8

/-- The live transports. -/
abbrev Registry := BoundedList Transport maxTransports

namespace Registry

/-- The transport with a number. -/
def get? (r : Registry) (id : TransportId) : Option Transport :=
  r.toList.find? fun t => t.id == id

/-- The transport at a path. -/
def find? (r : Registry) (path : String) : Option Transport :=
  r.toList.find? fun t => t.path.str == path

/-- Stores a transport in the place of the one with its number. -/
def replace (r : Registry) (t : Transport) : Registry :=
  r.map fun u => if u.id = t.id then t else u

/-- Adds a transport, or stores it in the place of the one with its number; a full
registry takes no new number. -/
def insert? (r : Registry) (t : Transport) : Option Registry :=
  if (r.get? t.id).isSome then some (r.replace t) else r.push? t

/-- Drops the transport with a number. -/
def erase (r : Registry) (id : TransportId) : Registry :=
  r.filter fun t => t.id != id

/-- A transport that a number finds is live and has that number. -/
theorem get?_eq_some {r : Registry} {id : TransportId} {t : Transport}
    (h : r.get? id = some t) :
    t ∈ r.toList ∧ t.id = id :=
  ⟨List.mem_of_find?_eq_some h, by simpa using List.find?_some h⟩

/-- Whatever number it was found by, a transport is found by its own. -/
theorem get?_id {r : Registry} {id : TransportId} {t : Transport}
    (h : r.get? id = some t) :
    r.get? t.id = some t := by
  rwa [(get?_eq_some h).2]

theorem find?_eq_some {r : Registry} {path : String} {t : Transport}
    (h : r.find? path = some t) :
    t ∈ r.toList ∧ t.path.str = path :=
  ⟨List.mem_of_find?_eq_some h, by simpa using List.find?_some h⟩

/-- What is live after one transport was replaced is the new one or was live
before. -/
theorem mem_replace {r : Registry} {t u : Transport} (h : u ∈ (r.replace t).toList) :
    u = t ∨ u ∈ r.toList := by
  obtain ⟨v, hv, rfl⟩ := List.mem_map.mp h
  split
  · exact .inl rfl
  · exact .inr hv

/-- What is stored stands alone under its number. -/
theorem eq_of_mem_replace {r : Registry} {t u : Transport}
    (h : u ∈ (r.replace t).toList) (hid : u.id = t.id) : u = t := by
  obtain ⟨v, -, rfl⟩ := List.mem_map.mp h
  by_cases hv : v.id = t.id
  · rw [if_pos hv]
  · rw [if_neg hv] at hid
    exact absurd hid hv

theorem mem_insert? {r r' : Registry} {t u : Transport} (hr : r.insert? t = some r')
    (h : u ∈ r'.toList) : u = t ∨ u ∈ r.toList := by
  unfold insert? at hr
  split at hr
  · cases hr
    exact mem_replace h
  · obtain ⟨-, hr⟩ := BoundedList.push?_eq_some_iff.mp hr
    rw [hr, List.mem_append, List.mem_singleton] at h
    exact h.symm

/-- A transport under a number that nobody has comes last, if there is room. -/
theorem insert?_of_unused {r : Registry} {t : Transport} (unused : r.get? t.id = none)
    (room : r.isFull = false) :
    ∃ r', r.insert? t = some r' ∧ r.push? t = some r' ∧
      r'.toList = r.toList ++ [t] := by
  rw [Bool.eq_false_iff, ne_eq, BoundedList.isFull_iff] at room
  have hlt := Nat.lt_of_le_of_ne r.length_le room
  have hpush := BoundedList.push?_eq_some_iff.mpr
    ⟨hlt, (rfl : (⟨_, BoundedList.length_snoc_le hlt⟩ : Registry).toList =
      r.toList ++ [t])⟩
  refine ⟨_, ?_, hpush, (BoundedList.push?_eq_some_iff.mp hpush).2⟩
  rw [insert?, unused, Option.isSome_none, if_neg Bool.false_ne_true, hpush]

theorem get?_erase_self (r : Registry) (id : TransportId) :
    (r.erase id).get? id = none := by
  simp [get?, erase]

theorem get?_erase_of_ne (r : Registry) {id id' : TransportId} (h : id' ≠ id) :
    (r.erase id).get? id' = r.get? id' := by
  rw [get?, get?, erase, BoundedList.toList_filter, List.find?_filter]
  congr 1
  funext t
  by_cases ht : t.id = id' <;> simp [ht, h]

/-- A live transport that is replaced is found as what it has become. -/
theorem get?_replace_self {r : Registry} {t u : Transport}
    (h : r.get? t.id = some u) :
    (r.replace t).get? t.id = some t := by
  rw [get?, replace, BoundedList.toList_map, List.find?_map]
  have hp :
      ((fun v : Transport => v.id == t.id) ∘ fun v => if v.id = t.id then t else v) =
      fun v => v.id == t.id := by
    funext v
    by_cases hv : v.id = t.id <;> simp [hv]
  rw [hp]
  change (r.get? t.id).map _ = _
  simp [h, (get?_eq_some h).2]

theorem get?_replace_of_ne (r : Registry) {t : Transport} {id : TransportId}
    (h : id ≠ t.id) :
    (r.replace t).get? id = r.get? id := by
  rw [get?, get?, replace, BoundedList.toList_map, List.find?_map]
  have hp :
      ((fun v : Transport => v.id == id) ∘ fun v => if v.id = t.id then t else v) =
      fun v => v.id == id := by
    funext v
    by_cases hv : v.id = t.id
    · simp [hv]
    · simp [hv]
  rw [hp]
  cases hu : r.toList.find? fun v => v.id == id with
  | none => rfl
  | some u =>
    have hid : u.id = id := by simpa using List.find?_some hu
    simp [hid, h]

/-- Of two changes of one transport the second one counts. -/
theorem replace_replace (r : Registry) {t u : Transport} (h : u.id = t.id) :
    (r.replace t).replace u = r.replace u := by
  refine BoundedList.ext ?_
  rw [replace, replace, replace, BoundedList.toList_map, BoundedList.toList_map,
    List.map_map, BoundedList.toList_map]
  refine List.map_congr_left fun v _ => ?_
  by_cases hv : v.id = t.id <;> simp [hv, h]

/-! ### Numbers of live transports -/

/-- No two transports have one number. -/
def Distinct (r : Registry) : Prop := (r.toList.map Transport.id).Nodup

theorem get?_eq_none_iff {r : Registry} {id : TransportId} :
    r.get? id = none ↔ ∀ t ∈ r.toList, t.id ≠ id := by
  rw [get?, List.find?_eq_none]
  simp

theorem ids_replace (r : Registry) (t : Transport) :
    (r.replace t).toList.map Transport.id = r.toList.map Transport.id := by
  rw [replace, BoundedList.toList_map, List.map_map]
  refine List.map_congr_left fun u _ => ?_
  by_cases hu : u.id = t.id <;> simp [hu]

theorem Distinct.replace {r : Registry} (h : r.Distinct) (t : Transport) :
    (r.replace t).Distinct := by
  rw [Distinct, ids_replace]
  exact h

theorem Distinct.erase {r : Registry} (h : r.Distinct) (id : TransportId) :
    (r.erase id).Distinct :=
  h.sublist (List.filter_sublist.map _)

/-- A transport that is put in displaces the one with its number, so that numbers stay
different. -/
theorem Distinct.insert? {r r' : Registry} {t : Transport} (h : r.Distinct)
    (hr : r.insert? t = some r') : r'.Distinct := by
  unfold Registry.insert? at hr
  split at hr
  · cases hr
    exact h.replace t
  · next hnew =>
    obtain ⟨-, hr⟩ := BoundedList.push?_eq_some_iff.mp hr
    have hids := get?_eq_none_iff.mp (by simpa using hnew)
    rw [Distinct, hr, List.map_append, List.map_singleton, List.nodup_append]
    refine ⟨h, by simp, fun id hid id' hid' => ?_⟩
    obtain ⟨u, hu, rfl⟩ := List.mem_map.mp hid
    rw [List.mem_singleton.mp hid']
    exact hids u hu

/-- A registry around one of its transports: the changes that name it change it
alone. -/
theorem Distinct.exists_around {r : Registry} {t : Transport} (h : r.Distinct)
    (live : r.get? t.id = some t) :
    ∃ pre post, r.toList = pre ++ t :: post ∧ (r.erase t.id).toList = pre ++ post ∧
      (∀ u ∈ pre ++ post, u.id ≠ t.id) ∧
      ∀ t', t'.id = t.id → (r.replace t').toList = pre ++ t' :: post := by
  obtain ⟨pre, post, hl⟩ := List.append_of_mem (get?_eq_some live).1
  rw [Distinct, hl, List.map_append, List.map_cons, List.nodup_append,
    List.nodup_cons] at h
  -- erasing and replacing go by the number, which only `t` has
  have hpre : ∀ u ∈ pre, u.id ≠ t.id := fun u hu =>
    h.2.2 u.id (List.mem_map_of_mem hu) t.id List.mem_cons_self
  have hpost : ∀ u ∈ post, u.id ≠ t.id :=
    fun u hu hid => h.2.1.1 (hid ▸ List.mem_map_of_mem hu)
  have hne : ∀ u ∈ pre ++ post, u.id ≠ t.id := fun u hu =>
    (List.mem_append.mp hu).elim (hpre u) (hpost u)
  refine ⟨pre, post, hl, ?_, hne, fun t' hid => ?_⟩
  · rw [Registry.erase, BoundedList.toList_filter, hl, List.filter_append,
      List.filter_cons]
    rw [List.filter_eq_self.mpr (by simpa using hpre),
      List.filter_eq_self.mpr (by simpa using hpost)]
    simp
  · have hsame : ∀ us : List Transport, (∀ u ∈ us, u.id ≠ t.id) →
        us.map (fun u => if u.id = t'.id then t' else u) = us := by
      intro us hus
      refine (List.map_congr_left fun u hu => ?_).trans (List.map_id us)
      rw [if_neg (hid ▸ hus u hu), id]
    rw [Registry.replace, BoundedList.toList_map, hl, List.map_append,
      List.map_cons, hsame pre hpre, hsame post hpost, if_pos hid.symm]

/-- Where numbers differ, every live transport is found under its own. -/
theorem Distinct.get?_of_mem {r : Registry} {t : Transport} (h : r.Distinct)
    (ht : t ∈ r.toList) :
    r.get? t.id = some t := by
  obtain ⟨pre, post, hl⟩ := List.append_of_mem ht
  rw [Distinct, hl, List.map_append, List.map_cons, List.nodup_append] at h
  have hpre : pre.find? (fun u => u.id == t.id) = none := by
    rw [List.find?_eq_none]
    intro u hu
    simpa using h.2.2 u.id (List.mem_map_of_mem hu) t.id List.mem_cons_self
  rw [get?, hl, List.find?_append, hpre]
  simp

/-- Storing a transport as it is changes nothing. -/
theorem Distinct.replace_self {r : Registry} {t : Transport} (h : r.Distinct)
    (live : r.get? t.id = some t) : r.replace t = r := by
  obtain ⟨pre, post, hl, -, -, hreplace⟩ := h.exists_around live
  exact BoundedList.ext ((hreplace t rfl).trans hl.symm)

end Registry

end AudioBroker