import AudioBroker.Access
import AudioBroker.Bluetooth.Device
import AudioBroker.Bluetooth.Stream
import AudioBroker.Bus.Message
import AudioBroker.Bus.Name
import AudioBroker.Token

/-!
# Calls to the peers

The broker works between three peers: the message bus, the A2DP layer and the
headset layer. All that it does to the world outside is a call to one of them.

- `Call`: one call, with its arguments.
- `Call.Answer`: the type of the answer to it.
- `Exchange`: a call together with the answer that was given.
-/

namespace AudioBroker

/-- A call that the broker makes. -/
inductive Call where
  /-- Publishes a transport at a path. -/
  | register (path : ObjectPath)
  /-- Withdraws the transport at a path. -/
  | unregister (path : ObjectPath)
  /-- Asks to be told, under the token, when a client leaves. -/
  | watch (client : ClientName) (token : Token)
  /-- Ends a watch. -/
  | unwatch (watch : WatchId)
  /-- Answers a method call. -/
  | reply (call : PendingCall) (reply : Reply)
  /-- Announces a changed property of the transport at a path. -/
  | announce (path : ObjectPath) (change : Change)
  /-- Asks for a signalling session, which is shared and counted. -/
  | openSession (src dst : Address)
  /-- Gives back a signalling session. -/
  | closeSession (session : SessionId)
  /-- Takes the stream lock of an endpoint. -/
  | lockStream (sep : StreamEndpointId) (session : SessionId)
  /-- Gives back the stream lock of an endpoint. -/
  | unlockStream (sep : StreamEndpointId) (session : SessionId)
  /-- Starts the stream of an endpoint; the end of the start is reported under the
  token. -/
  | startStream (session : SessionId) (sep : StreamEndpointId) (token : Token)
  /-- Aborts a start that `startStream` began. -/
  | abortStream (device : Device) (request : RequestId)
  /-- Asks for the open stream of an endpoint. -/
  | openStream (sep : StreamEndpointId)
  /-- Takes the voice channel of a device. -/
  | lockVoice (device : Device) (lock : Access)
  /-- Gives back the voice channel of a device. -/
  | unlockVoice (device : Device) (lock : Access)
  /-- Connects the voice link of a device; the end of it is reported under the
  token. -/
  | startVoice (device : Device) (token : Token)
  /-- Aborts a connection that `startVoice` began. -/
  | abortVoice (device : Device) (request : RequestId)
  /-- Asks for the descriptor of a connected voice link. -/
  | voiceDescriptor (device : Device)
  /-- Asks whether a device reduces noise. -/
  | noiseReduction (device : Device)
  /-- Asks whether a device plays ringtones in its stream. -/
  | inbandRingtone (device : Device)
  deriving DecidableEq

namespace Call

/-- What is answered to a call. -/
@[reducible] def Answer : Call → Type
  | register _ => Bool
  | unregister _ => Unit
  | watch _ _ => Option WatchId
  | unwatch _ => Unit
  | reply _ _ => Delivery
  | announce _ _ => Unit
  | openSession _ _ => Option SessionId
  | closeSession _ => Unit
  | lockStream _ _ => Bool
  | unlockStream _ _ => Unit
  | startStream _ _ _ => Option RequestId
  | abortStream _ _ => Unit
  | openStream _ => Option Stream
  | lockVoice _ _ => Bool
  | unlockVoice _ _ => Unit
  | startVoice _ _ => Option RequestId
  | abortVoice _ _ => Unit
  | voiceDescriptor _ => Option StreamFd
  | noiseReduction _ => Bool
  | inbandRingtone _ => Bool

end Call

/-- A call and the answer to it. -/
structure Exchange where
  call : Call
  answer : call.Answer

end AudioBroker
