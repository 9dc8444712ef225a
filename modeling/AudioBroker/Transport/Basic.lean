import AudioBroker.Bounded.List
import AudioBroker.Transport.Backend
import AudioBroker.Transport.Owner

/-!
# Transports

A transport is one stream that was agreed on between a local endpoint and a remote
device, and that clients acquire and release.

- `Transport`: the transport with its owners; what was agreed on never changes.
- `Transport.create`: a transport with no owners, if it can be published.
- `Transport.install`, `Transport.reportDelay`: the two changes that are announced
  to the clients.
- `Transport.properties`: the properties at this moment.
-/

namespace AudioBroker

/-- The most owners that a transport has room for. -/
def maxOwners : Nat := 4

/-- One stream and its owners. -/
structure Transport where
  id : TransportId
  path : ObjectPath
  device : Device
  endpoint : Endpoint
  configuration : Configuration
  backend : Backend
  /-- The stream that was opened last; it stays in place between uses. -/
  stream : Option Stream
  /-- The delay that was reported last. -/
  delay : UInt16
  /-- The directions that are taken. -/
  locks : Access
  /-- Whether the stream lock of the backend is held. -/
  inUse : Bool
  /-- The owners, in the order in which they came. -/
  owners : BoundedList Owner maxOwners
  deriving DecidableEq

namespace Transport

/-- The path of transport `id` of a device. -/
def pathText (device : Device) (id : TransportId) : String :=
  device.path.str ++ "/fd" ++ toString id.raw.toNat

/-- A transport that nobody owns. Its endpoint needs a backend, and its
configuration and its path have to fit. -/
def create (id : TransportId) (endpoint : Endpoint) (device : Device)
    (configuration : List UInt8) (options : Options) : Except Fault Transport :=
  match Backend.ofEndpoint? endpoint options with
  | none => .error .notSupported
  | some backend =>
    match BoundedList.ofList? configuration, Text.ofString? (pathText device id) with
    | some configuration, some path =>
      .ok { id, path, device, endpoint, configuration, backend, stream := none,
            delay := 0,
            locks := ∅, inUse := false, owners := ∅ }
    | _, _ => .error .invalidArguments

/-! ### The stream -/

/-- The descriptor of the stream. -/
def fd (t : Transport) : Option StreamFd := t.stream.map Stream.fd

/-- The largest unit that can be received, zero while there is no stream. -/
def imtu (t : Transport) : UInt16 := (t.stream.map Stream.imtu).getD 0

/-- The largest unit that can be sent, zero while there is no stream. -/
def omtu (t : Transport) : UInt16 := (t.stream.map Stream.omtu).getD 0

/-- Puts a stream in place and announces its MTUs. A stream whose descriptor is in
place already changes nothing. -/
def install (t : Transport) (s : Stream) : Dialogue Transport :=
  if t.fd = some s.fd then pure t
  else do
    Dialogue.makeAll [.announce t.path (.imtu s.imtu),
      .announce t.path (.omtu s.omtu)]
    return { t with stream := some s }

/-- Takes note of a reported delay and announces it if it is new. Only A2DP
transports have one. -/
def reportDelay (t : Transport) (delay : UInt16) : Dialogue Transport :=
  if t.backend.isA2dp ∧ t.delay ≠ delay then do
    Dialogue.makeAll [.announce t.path (.delay delay)]
    return { t with delay }
  else pure t

/-! ### Properties -/

/-- The properties of a transport's kind: an A2DP transport knows its delay, a
headset is asked. -/
def extras (t : Transport) : Dialogue Extras :=
  match t.backend with
  | .a2dp _ _ => pure (.a2dp t.delay)
  | .headset _ _ _ => do
    let nrec ← (Call.noiseReduction t.device).make
    let inbandRingtone ← (Call.inbandRingtone t.device).make
    return .headset nrec inbandRingtone

/-- The properties of a transport. -/
def properties (t : Transport) : Dialogue Snapshot := do
  let extras ← t.extras
  return { device := t.device.path, readLock := t.locks.read,
           writeLock := t.locks.write,
           imtu := t.imtu, omtu := t.omtu, uuid := t.endpoint.uuid, codec :=
             t.endpoint.codec,
           configuration := t.configuration, extras }

/-- Writes a property; no transport takes a write. -/
def setProperty (_t : Transport) (_name : String) (_value : Value) :
    Except Fault Unit :=
  .error .notSupported

/-! ### Owners -/

/-- The token under which reports for an owner come in. -/
def token (t : Transport) (owner : OwnerId) : Token := ⟨t.id, owner⟩

/-- The first owner that satisfies `p`, and its place. -/
def locate? (t : Transport) (p : Owner → Bool) : Option (Nat × Owner) := do
  let i ← t.owners.toList.findIdx? p
  let o ← t.owners.toList[i]?
  return (i, o)

/-- The owner that belongs to a client, and its place. -/
def ownerOf? (t : Transport) (client : String) : Option (Nat × Owner) :=
  t.locate? fun o => o.name.str == client

/-- The owner with a number, and its place. -/
def owner? (t : Transport) (id : OwnerId) : Option (Nat × Owner) :=
  t.locate? fun o => o.id == id

/-- Changes the owner at a place. -/
def modifyOwner (t : Transport) (i : Nat) (f : Owner → Owner) : Transport :=
  { t with owners := t.owners.modify i f }

@[simp] theorem toList_owners_modifyOwner (t : Transport) (i : Nat)
    (f : Owner → Owner) :
    (t.modifyOwner i f).owners.toList = t.owners.toList.modify i f := rfl

/-- Looking up an owner finds the first one that satisfies the test, at its own
place. -/
theorem locate?_eq_some {t : Transport} {p : Owner → Bool} {i : Nat} {o : Owner}
    (h : t.locate? p = some (i, o)) : t.owners.toList[i]? = some o ∧ p o = true := by
  obtain ⟨j, hj, h⟩ := Option.bind_eq_some_iff.mp h
  obtain ⟨o', ho', h⟩ := Option.bind_eq_some_iff.mp h
  obtain ⟨rfl, rfl⟩ := Prod.mk.inj (Option.some.inj h)
  obtain ⟨hlt, hp, -⟩ := List.findIdx?_eq_some_iff_getElem.mp hj
  refine ⟨ho', ?_⟩
  rw [List.getElem?_eq_getElem hlt, Option.some.injEq] at ho'
  rwa [ho'] at hp

/-- Nobody is found exactly when nobody fits. -/
theorem locate?_eq_none_iff {t : Transport} {p : Owner → Bool} :
    t.locate? p = none ↔ ∀ o ∈ t.owners.toList, p o = false := by
  rw [locate?]
  cases h : t.owners.toList.findIdx? p with
  | none => simpa using List.findIdx?_eq_none_iff.mp h
  | some i =>
    obtain ⟨hlt, hp, -⟩ := List.findIdx?_eq_some_iff_getElem.mp h
    have hne : ¬ ∀ o ∈ t.owners.toList, p o = false := fun hall =>
      absurd hp (by simp [hall _ (List.getElem_mem hlt)])
    simp [List.getElem?_eq_getElem hlt, hne]

end Transport

end AudioBroker
