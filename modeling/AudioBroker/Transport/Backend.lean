import AudioBroker.Bluetooth.Endpoint
import AudioBroker.Options
import AudioBroker.Peers.Dialogue

/-!
# Streaming backends

A transport streams over A2DP or over the voice link of a headset. The two differ in
the calls that start, abort and end a stream; the order of the steps is the same.

- `Backend`: the kind of a transport, with what it keeps for its streams.
- `Backend.start`: session (A2DP only), lock unless held, then the start itself.
- `Backend.abortCall`, `Backend.unlockCalls`, `Backend.closeCalls`: the calls that
  undo each step.
- `Backend.stream`: the stream that a finished start left open.
-/

namespace AudioBroker

/-- How a transport streams. -/
inductive Backend where
  /-- Over an A2DP stream endpoint, with the signalling session once there is one. -/
  | a2dp (sep : StreamEndpointId) (session : Option SessionId)
  /-- Over a voice link, with what is locked of its channel and the two sizes of its
  frames. -/
  | headset (lock : Access) (imtu omtu : UInt16)
  deriving DecidableEq

namespace Backend

/-- The backend of transports on an endpoint; an A2DP profile without a stream
endpoint has none. -/
def ofEndpoint? (e : Endpoint) (o : Options) : Option Backend :=
  if e.profile.isA2dp then e.sep.map fun sep => a2dp sep none
  else some (headset o.voiceLock o.voiceImtu o.voiceOmtu)

/-- Whether this is an A2DP backend. -/
def isA2dp : Backend → Bool
  | a2dp _ _ => true
  | headset _ _ _ => false

/-- Whether an owner whose start failed is torn down later. A2DP reports a failure
in the middle of its own state change, which has to come to its end first. -/
def defersTeardown (b : Backend) : Bool := b.isA2dp

/-- The signalling session of an A2DP backend. -/
def session? : Backend → Option SessionId
  | a2dp _ session => session
  | headset _ _ _ => none

/-! ### Starting a stream -/

/-- How far a start got. -/
structure Start where
  backend : Backend
  /-- Whether the stream lock is held now. -/
  inUse : Bool
  /-- The start under way; none if it could not begin. -/
  request : Option RequestId
  deriving DecidableEq

/-- The session that is stored, or else one that is asked for. -/
def ensureSession (device : Device) : Option SessionId → Dialogue (Option SessionId)
  | some session => pure (some session)
  | none => (Call.openSession device.src device.dst).make

/-- Takes a stream lock unless it is held already. -/
def ensureLock (inUse : Bool) (lock : Dialogue Bool) : Dialogue Bool :=
  if inUse then pure true else lock

/-- Begins a start under the stream lock; where the lock is refused nothing is
begun. -/
def startLocked (b : Backend) (inUse : Bool) (lock : Dialogue Bool)
    (start : Dialogue (Option RequestId)) : Dialogue Start := do
  if ← ensureLock inUse lock then
    let request ← start
    return ⟨b, true, request⟩
  else
    return ⟨b, false, none⟩

/-- Begins to start the stream for the owner `token`. -/
def start (b : Backend) (inUse : Bool) (device : Device) (token : Token) :
    Dialogue Start :=
  match b with
  | a2dp sep session => do
    match ← ensureSession device session with
    | none => return ⟨a2dp sep none, inUse, none⟩
    | some s =>
      startLocked (a2dp sep (some s)) inUse (Call.lockStream sep s).make
        (Call.startStream s sep token).make
  | headset lock _ _ =>
    startLocked b inUse (Call.lockVoice device lock).make
      (Call.startVoice device token).make

/-- The stream that a finished start left open, if any. A voice link has a
descriptor only; the sizes of its frames are those of the settings. -/
def stream (b : Backend) (device : Device) : Dialogue (Option Stream) :=
  match b with
  | a2dp sep _ => (Call.openStream sep).make
  | headset _ imtu omtu => do
    let fd ← (Call.voiceDescriptor device).make
    return fd.map fun fd => ⟨fd, imtu, omtu⟩

/-! ### Undoing a start -/

/-- The call that aborts a start. -/
def abortCall (b : Backend) (device : Device) (request : RequestId) : Call :=
  match b with
  | a2dp _ _ => .abortStream device request
  | headset _ _ _ => .abortVoice device request

/-- The calls that give back the stream lock; only a held lock is given back. -/
def unlockCalls (b : Backend) (inUse : Bool) (device : Device) : List Call :=
  match b, inUse with
  | a2dp sep (some s), true => [.unlockStream sep s]
  | headset lock _ _, true => [.unlockVoice device lock]
  | _, _ => []

/-- The calls that give back what the backend keeps until its transport ends. -/
def closeCalls (b : Backend) : List Call :=
  b.session?.toList.map .closeSession

end Backend

end AudioBroker
