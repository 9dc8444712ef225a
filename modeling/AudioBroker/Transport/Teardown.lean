import AudioBroker.Transport.Basic

/-!
# The end of an owner

However an owner ends, it ends here: its directions are freed, its watch is removed,
what is pending is aborted and answered with a failure, and the stream lock is given
back when nobody is left.

- `Owner.partingCalls`, `Transport.partingCalls`: the calls that the end of an owner
  makes.
- `Transport.without`: the transport with the owner gone.
- `Transport.endAt`, `Transport.endAll`: one owner, or all of them, torn down.
- `Transport.exit`, `Transport.endScheduled`: the ends that are reported by token.
-/

namespace AudioBroker

/-- The calls that close what is open for an owner: its watch, the start under way,
and the client's call, which is answered with a failure. -/
def Owner.partingCalls (o : Owner) (b : Backend) (device : Device) : List Call :=
  o.watch.toList.map .unwatch ++
    match o.pending with
    | none => []
    | some p =>
      p.request.toList.map (b.abortCall device) ++
        p.call.toList.map fun call => .reply call (.failure .resumeFailed)

namespace Transport

/-- The transport without its owner at a place: the owner's directions are free, and
the transport is out of use when no owner is left. -/
def without (t : Transport) (i : Nat) : Transport :=
  match t.owners.toList[i]? with
  | none => t
  | some o =>
    let owners := t.owners.eraseIdx i
    { t with owners, locks := t.locks \ o.access,
             inUse := t.inUse && !owners.isEmpty }

/-- The calls that the end of the owner at a place makes. The stream lock is given
back last, and only by the last owner. -/
def partingCalls (t : Transport) (i : Nat) : List Call :=
  match t.owners.toList[i]? with
  | none => []
  | some o =>
    o.partingCalls t.backend t.device ++
      if (t.owners.eraseIdx i).isEmpty then t.backend.unlockCalls t.inUse t.device
      else []

/-- The end of an owner: it leaves the table, its directions are free, and the
transport is out of use if the table is empty. -/
theorem without_eq {t : Transport} {i : Nat} {o : Owner}
    (h : t.owners.toList[i]? = some o) :
    t.without i = { t with owners := t.owners.eraseIdx i, locks := t.locks \ o.access,
                           inUse := t.inUse && !(t.owners.eraseIdx i).isEmpty } := by
  rw [without, h]

theorem without_of_none {t : Transport} {i : Nat} (h : t.owners.toList[i]? = none) :
    t.without i = t := by
  rw [without, h]

/-- The calls at the end of an owner: its own ones, and the unlocking if the table is
empty then. -/
theorem partingCalls_eq {t : Transport} {i : Nat} {o : Owner}
    (h : t.owners.toList[i]? = some o) :
    t.partingCalls i = o.partingCalls t.backend t.device ++
      if (t.owners.eraseIdx i).isEmpty then t.backend.unlockCalls t.inUse t.device
      else [] := by
  rw [partingCalls, h]

theorem partingCalls_of_none {t : Transport} {i : Nat}
    (h : t.owners.toList[i]? = none) :
    t.partingCalls i = [] := by
  rw [partingCalls, h]

@[simp] theorem toList_owners_without (t : Transport) (i : Nat) :
    (t.without i).owners.toList = t.owners.toList.eraseIdx i := by
  cases h : t.owners.toList[i]? with
  | none =>
    rw [without_of_none h, List.eraseIdx_of_length_le
      (List.getElem?_eq_none_iff.mp h)]
  | some o => rw [without_eq h, BoundedList.toList_eraseIdx]

/-- Tears down the owner at a place. -/
def endAt (t : Transport) (i : Nat) : Dialogue Transport := do
  Dialogue.makeAll (t.partingCalls i)
  return t.without i

/-- Tears down the first owner, `n` times. -/
def endFirst (t : Transport) : Nat → Dialogue Transport
  | 0 => pure t
  | n + 1 => do
    let t ← t.endAt 0
    t.endFirst n

/-- Tears down all owners, in their order. -/
def endAll (t : Transport) : Dialogue Transport := t.endFirst t.owners.size

/-- The client of an owner left: the owner is torn down, and nobody is answered.
False if there is no such owner. -/
def exit (t : Transport) (id : OwnerId) : Dialogue (Bool × Transport) :=
  match t.owner? id with
  | none => pure (false, t)
  | some (i, _) => do
    let t ← (t.modifyOwner i Owner.depart).endAt i
    return (true, t)

/-- Tears down an owner that is marked for it. False if there is no such owner any
more. -/
def endScheduled (t : Transport) (id : OwnerId) : Dialogue (Bool × Transport) :=
  match t.owner? id with
  | none => pure (false, t)
  | some (i, o) =>
    if o.scheduled then do
      let t ← t.endAt i
      return (true, t)
    else pure (false, t)

end Transport

end AudioBroker
