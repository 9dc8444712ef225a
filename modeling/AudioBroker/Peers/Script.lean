import AudioBroker.Peers.Dialogue

/-!
# Peers that follow a script

- `Script`: what the peers answer, fixed in advance but for the two counters from
  which watches and requests are numbered.
- `Script.peers`: the peers that answer by the script they have as their state.
-/

namespace AudioBroker

/-- Answers fixed in advance. -/
structure Script where
  /-- Whether transports can be published. -/
  publishes : Bool := true
  /-- Whether clients can be watched. -/
  watches : Bool := true
  /-- The number of the last watch; it counts the refused ones too. -/
  lastWatch : UInt32 := 0
  /-- What becomes of every reply. -/
  delivery : Delivery := .delivered
  /-- The session that is handed out; none refuses. -/
  session : Option SessionId := some ⟨1⟩
  /-- Whether stream locks are granted. -/
  locksStream : Bool := true
  /-- Whether voice channels are granted. -/
  locksVoice : Bool := true
  /-- Whether streams and voice links can be started. -/
  starts : Bool := true
  /-- The number of the last request. -/
  lastRequest : UInt32 := 0
  /-- The stream that is open on every endpoint. -/
  stream : Option Stream := some ⟨⟨7⟩, 672, 895⟩
  /-- The descriptor of every voice link. -/
  voiceDescriptor : Option StreamFd := some ⟨9⟩
  noiseReduction : Bool := true
  inbandRingtone : Bool := false
  deriving DecidableEq

namespace Script

/-- Begins a start: a refused one uses up no number, and the number zero is no
request. -/
def start (s : Script) : Option RequestId × Script :=
  if s.starts then
    let n := s.lastRequest + 1
    (RequestId.ofRaw? n, { s with lastRequest := n })
  else (none, s)

/-- Sets up a watch: a refused one uses up a number too. -/
def watch (s : Script) : Option WatchId × Script :=
  let n := s.lastWatch + 1
  (if s.watches then some ⟨n⟩ else none, { s with lastWatch := n })

/-- The peers that answer by the script. -/
def peers : Dialogue.Peers Script := fun c s =>
  match c with
  | .register _ => (s.publishes, s)
  | .unregister _ => ((), s)
  | .watch _ _ => s.watch
  | .unwatch _ => ((), s)
  | .reply _ _ => (s.delivery, s)
  | .announce _ _ => ((), s)
  | .openSession _ _ => (s.session, s)
  | .closeSession _ => ((), s)
  | .lockStream _ _ => (s.locksStream, s)
  | .unlockStream _ _ => ((), s)
  | .startStream _ _ _ => s.start
  | .abortStream _ _ => ((), s)
  | .openStream _ => (s.stream, s)
  | .lockVoice _ _ => (s.locksVoice, s)
  | .unlockVoice _ _ => ((), s)
  | .startVoice _ _ => s.start
  | .abortVoice _ _ => ((), s)
  | .voiceDescriptor _ => (s.voiceDescriptor, s)
  | .noiseReduction _ => (s.noiseReduction, s)
  | .inbandRingtone _ => (s.inbandRingtone, s)

end Script

end AudioBroker
