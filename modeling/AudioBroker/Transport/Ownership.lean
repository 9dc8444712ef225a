import AudioBroker.Transport.Teardown

/-!
# Acquiring and releasing a transport

Each direction has at most one owner, and each client owns a transport at most once:
it can give back one of two directions, but cannot ask for a second.

- `Transport.admission`: whether a client may acquire a transport, and the fault if
  it may not.
- `Transport.acquire`: a new owner, for whom the stream is started.
- `Transport.release`: an owner that ends, or goes on with less.
-/

namespace AudioBroker

namespace Transport

/-! ### Acquiring -/

/-- Checks a request for access: the client may not be an owner already, it has to
name a direction, no direction that it names may be taken, its name has to fit, and
there has to be room for it. -/
def admission (t : Transport) (client access : String) :
    Except Fault (ClientName × Access) :=
  if (t.ownerOf? client).isSome then .error .permissionDenied
  else match Access.parse? access with
    | none => .error .permissionDenied
    | some wanted =>
      if wanted ∩ t.locks ≠ ∅ then .error .permissionDenied
      else match Text.ofString? client with
        | none => .error .invalidArguments
        | some name =>
          if t.owners.isFull then .error .outOfResources else .ok (name, wanted)

/-- The transport with one more owner, whose directions are taken. -/
def withOwner (t : Transport) (o : Owner) : Transport :=
  match t.owners.push? o with
  | none => t
  | some owners => { t with owners, locks := t.locks ∪ o.access }

/-- Where there is room, a new owner goes to the end of the table and takes its
directions. -/
theorem withOwner_eq {t : Transport} {o : Owner}
    (h : t.owners.toList.length < maxOwners) :
    t.withOwner o = { t with owners :=
                               ⟨t.owners.toList ++ [o], BoundedList.length_snoc_le h⟩,
                             locks := t.locks ∪ o.access } := by
  have hpush :
      t.owners.push? o = some ⟨t.owners.toList ++ [o],
        BoundedList.length_snoc_le h⟩ :=
    BoundedList.push?_eq_some_iff.mpr ⟨h, rfl⟩
  rw [withOwner, hpush]

/-- Takes on an owner: its client is watched, and the stream is started for it. An
owner whose start cannot begin is torn down at once. -/
def takeOn (t : Transport) (name : ClientName) (access : Access) (call : PendingCall)
    (id : OwnerId) : Dialogue Transport := do
  let watch ← (Call.watch name (t.token id)).make
  let start ← t.backend.start t.inUse t.device (t.token id)
  let owner : Owner :=
    { id, name, access, watch, pending :=
        some { call := some call, request := start.request },
      scheduled := false }
  let started := { t with backend := start.backend, inUse := start.inUse }.withOwner
    owner
  if start.request.isSome then return started
  else started.endAt t.owners.size

/-- A client asks for access. An admitted call is answered later, when the start has
ended; a call that is turned down is handed back. -/
def acquire (t : Transport) (client access : String) (call : PendingCall)
    (id : OwnerId) :
    Dialogue (Except Rejection Unit × Transport) :=
  match t.admission client access with
  | .error fault => pure (.error { fault, call }, t)
  | .ok (name, wanted) => do
    let t ← t.takeOn name wanted call id
    return (.ok (), t)

/-! ### Releasing -/

/-- The transport with its owner at a place holding less: the directions `a` are
free. -/
def narrow (t : Transport) (i : Nat) (a : Access) : Transport :=
  { t.modifyOwner i (Owner.narrow · a) with locks := t.locks \ a }

/-- A client gives back access. Giving back all that it holds ends the owner, giving
back a part of it leaves an owner with the rest, and anything else is refused. -/
def release (t : Transport) (client access : String) :
    Dialogue (Except Fault Unit × Transport) :=
  match t.ownerOf? client, Access.parse? access with
  | some (i, o), some a =>
    if a = o.access then do
      let t ← t.endAt i
      return (.ok (), t)
    else if a ⊆ o.access then pure (.ok (), t.narrow i a)
    else pure (.error .permissionDenied, t)
  | _, _ => pure (.error .permissionDenied, t)

end Transport

end AudioBroker
