import AudioBroker.Broker.Registry
import AudioBroker.Transport.Completion
import AudioBroker.Transport.Ownership

/-!
# The broker

The broker keeps the live transports and passes to them what comes from outside:
method calls, reports of the profile layers, and the departure of clients. It
numbers transports and owners, and it keeps the queue of the owners that are torn
down later.

- `Broker`: the state; `Broker.empty` has no transports.
- `Broker.create`, `Broker.remove`: the life of a transport.
- `Broker.acquire`, `Broker.release`, `Broker.properties`, `Broker.setProperty`: the
  methods of a transport, addressed by path.
- `Broker.exit`, `Broker.a2dpResumed`, `Broker.voiceConnected`,
  `Broker.reportDelay`: the reports, addressed by number.
- `Broker.runDeferred`: tears down the owners in the queue.
-/

namespace AudioBroker

/-- The most owners that wait to be torn down: one for each that there can be. -/
def maxDeferred : Nat := maxTransports * maxOwners

/-- The state of the broker. -/
structure Broker where
  options : Options
  transports : Registry
  /-- The number of the next transport. -/
  nextTransport : TransportId
  /-- The number of the next owner. -/
  nextOwner : OwnerId
  /-- The owners that wait to be torn down, first come first. -/
  deferred : BoundedList Token maxDeferred
  deriving DecidableEq

namespace Broker

/-- A broker with no transports. -/
def empty (options : Options) : Broker :=
  { options, transports := ∅, nextTransport := ⟨0⟩, nextOwner := ⟨0⟩, deferred := ∅ }

/-- The number of the transport at a path. -/
def idAt? (b : Broker) (path : String) : Option TransportId :=
  (b.transports.find? path).map Transport.id

/-- The transport at a path, taken by its number. -/
def transportAt? (b : Broker) (path : String) : Option Transport :=
  (b.idAt? path).bind b.transports.get?

/-- Stores what has become of a transport. -/
def store (b : Broker) (t : Transport) : Broker :=
  { b with transports := b.transports.replace t }

/-- Whether owners wait to be torn down. -/
def hasDeferred (b : Broker) : Bool := !b.deferred.isEmpty

/-! ### The life of a transport -/

/-- Creates a transport and publishes it. -/
def create (b : Broker) (endpoint : Endpoint) (device : Device)
    (configuration : List UInt8) :
    Dialogue (Except Fault TransportId × Broker) :=
  if b.transports.isFull then pure (.error .outOfResources, b)
  else match Transport.create b.nextTransport endpoint device configuration
      b.options with
    | .error fault => pure (.error fault, b)
    | .ok t => do
      if ← (Call.register t.path).make then
        let b := { b with nextTransport := b.nextTransport.next }
        match b.transports.insert? t with
        | some transports => return (.ok t.id, { b with transports })
        | none =>
          Dialogue.makeAll [.unregister t.path]
          return (.error .outOfResources, b)
      else return (.error .registrationFailed, b)

/-- Withdraws a transport: its owners are torn down and its session is given back.
False if there is no such transport. -/
def remove (b : Broker) (id : TransportId) : Dialogue (Bool × Broker) :=
  match b.transports.get? id with
  | none => pure (false, b)
  | some t => do
    Dialogue.makeAll [.unregister t.path]
    let t ← t.endAll
    Dialogue.makeAll t.backend.closeCalls
    return (true, { b with transports := b.transports.erase id })

/-! ### The methods of a transport -/

/-- The properties of the transport at a path. -/
def properties (b : Broker) (path : String) : Dialogue (Except Fault Snapshot) :=
  match b.transports.find? path with
  | none => pure (.error .doesNotExist)
  | some t => do
    let snapshot ← t.properties
    return .ok snapshot

/-- A client asks for access to the transport at a path. A number is used up for the
owner even if the transport turns the call down. -/
def acquire (b : Broker) (path client access : String) (call : PendingCall) :
    Dialogue (Except Rejection Unit × Broker) :=
  match b.transportAt? path with
  | none => pure (.error { fault := .doesNotExist, call }, b)
  | some t => do
    let (result, t) ← t.acquire client access call b.nextOwner
    return (result, { b.store t with nextOwner := b.nextOwner.next })

/-- A client gives back access to the transport at a path. -/
def release (b : Broker) (path client access : String) :
    Dialogue (Except Fault Unit × Broker) :=
  match b.transportAt? path with
  | none => pure (.error .doesNotExist, b)
  | some t => do
    let (result, t) ← t.release client access
    return (result, b.store t)

/-- A client writes a property of the transport at a path. -/
def setProperty (b : Broker) (path name : String) (value : Value) :
    Except Fault Unit :=
  match b.transportAt? path with
  | none => .error .doesNotExist
  | some t => t.setProperty name value

/-! ### Reports -/

/-- The client of an owner left. False if there is no such owner any more. -/
def exit (b : Broker) (token : Token) : Dialogue (Bool × Broker) :=
  match b.transports.get? token.transport with
  | none => pure (false, b)
  | some t => do
    let (known, t) ← t.exit token.owner
    return (known, b.store t)

/-- Tears down an owner that is marked for it. False if there is no such owner any
more. -/
def endScheduled (b : Broker) (token : Token) : Dialogue (Bool × Broker) :=
  match b.transports.get? token.transport with
  | none => pure (false, b)
  | some t => do
    let (ended, t) ← t.endScheduled token.owner
    return (ended, b.store t)

/-- Puts an owner into the queue of those that are torn down later. One that finds
no room is torn down at once. -/
def defer (b : Broker) (token : Token) : Dialogue Broker :=
  match b.deferred.push? token with
  | some deferred => pure { b with deferred }
  | none => do
    let (_, b) ← b.endScheduled token
    return b

/-- The start for an owner of `t` has ended, with or without success. -/
def complete (b : Broker) (t : Transport) (token : Token) (success : Bool) :
    Dialogue Broker := do
  let (completion, t) ← t.complete token.owner success
  let b := b.store t
  if completion = .deferred then b.defer token else return b

/-- The start of an A2DP stream has ended. -/
def a2dpResumed (b : Broker) (token : Token) (report : ResumeReport) :
    Dialogue Broker :=
  match b.transports.get? token.transport with
  | none => pure b
  | some t =>
    if t.backend.isA2dp then b.complete t token report.isStarted else pure b

/-- A voice link has been connected, or has failed to be. -/
def voiceConnected (b : Broker) (token : Token) (connected : Bool) :
    Dialogue Broker :=
  match b.transports.get? token.transport with
  | none => pure b
  | some t =>
    if t.backend.isA2dp then pure b else b.complete t token connected

/-- A stream reports its delay. -/
def reportDelay (b : Broker) (id : TransportId) (delay : UInt16) :
    Dialogue (Except Fault Unit × Broker) :=
  match b.transports.get? id with
  | none => pure (.error .doesNotExist, b)
  | some t => do
    let t ← t.reportDelay delay
    return (.ok (), b.store t)

/-! ### Deferred work -/

/-- Tears down those of the given owners that are still marked for it, and counts
them. -/
def endEach (b : Broker) : List Token → Dialogue (Nat × Broker)
  | [] => pure (0, b)
  | token :: rest => do
    let (ended, b) ← b.endScheduled token
    let (count, b) ← b.endEach rest
    return (if ended then count + 1 else count, b)

/-- Empties the queue of the owners that are torn down later, and counts those that
were. -/
def runDeferred (b : Broker) : Dialogue (Nat × Broker) :=
  { b with deferred := ∅ }.endEach b.deferred.toList

end Broker

end AudioBroker
