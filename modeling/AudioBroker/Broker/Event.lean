import AudioBroker.Broker.Basic
import AudioBroker.Bus.Method

/-!
# Events

Everything that the broker reacts to comes as an event.

- `Event`: a method call, or a report.
- `Broker.dispatch`: a method call carried out and answered.
- `Broker.handle`: an event carried out.
-/

namespace AudioBroker

/-- What the broker reacts to. -/
inductive Event where
  /-- A client calls a method of the transport at a path. -/
  | call (path : ObjectPath) (client : ClientName) (call : PendingCall)
      (method : Method)
  /-- The client of an owner left. -/
  | exited (token : Token)
  /-- The start of an A2DP stream has ended. -/
  | a2dpResumed (token : Token) (report : ResumeReport)
  /-- A voice link has been connected, or has failed to be. -/
  | voiceConnected (token : Token) (connected : Bool)
  /-- A stream reports its delay. -/
  | delayed (transport : TransportId) (delay : UInt16)
  deriving DecidableEq

/-- The answer to a call that returns nothing. -/
def Reply.ofResult : Except Fault Unit → Reply
  | .ok () => .empty
  | .error fault => .failure fault

/-- The answer to a call that asks for the properties. -/
def Reply.ofProperties : Except Fault Snapshot → Reply
  | .ok snapshot => .properties snapshot
  | .error fault => .failure fault

namespace Broker

/-- Carries out a method call and answers it. Only an admitted `Acquire` is not
answered here. -/
def dispatch (b : Broker) (path client : String) (call : PendingCall)
    (method : Method) :
    Dialogue Broker :=
  match method with
  | .getProperties => do
    let result ← b.properties path
    Dialogue.makeAll [.reply call (.ofProperties result)]
    return b
  | .acquire access => do
    let (result, b) ← b.acquire path client access.str call
    match result with
    | .ok () => return b
    | .error rejection =>
      Dialogue.makeAll [.reply rejection.call (.failure rejection.fault)]
      return b
  | .release access => do
    let (result, b) ← b.release path client access.str
    Dialogue.makeAll [.reply call (.ofResult result)]
    return b
  | .setProperty name value => do
    Dialogue.makeAll [.reply call (.ofResult (b.setProperty path name.str value))]
    return b

/-- Carries out an event. Owners that it puts into the queue wait for
`Broker.runDeferred`. -/
def handle (b : Broker) (event : Event) : Dialogue Broker :=
  match event with
  | .call path client call method => b.dispatch path.str client.str call method
  | .exited token => do
    let (_, b) ← b.exit token
    return b
  | .a2dpResumed token report => b.a2dpResumed token report
  | .voiceConnected token connected => b.voiceConnected token connected
  | .delayed transport delay => do
    let (_, b) ← b.reportDelay transport delay
    return b

end Broker

end AudioBroker
