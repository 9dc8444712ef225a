import AudioBroker.Broker.Event

/-!
# Operations

Whoever hosts the broker drives it by operations, one after another.

- `Operation`, `Operation.Result`: what can be asked of the broker, and what comes
  back.
- `Broker.perform`: an operation carried out.
-/

namespace AudioBroker

/-- What the host asks of the broker. -/
inductive Operation where
  | create (endpoint : Endpoint) (device : Device) (configuration : List UInt8)
  | remove (id : TransportId)
  | acquire (path client access : String) (call : PendingCall)
  | release (path client access : String)
  | properties (path : String)
  | setProperty (path name : String) (value : Value)
  | exit (token : Token)
  | a2dpResumed (token : Token) (report : ResumeReport)
  | voiceConnected (token : Token) (connected : Bool)
  | reportDelay (id : TransportId) (delay : UInt16)
  | runDeferred
  | dispatch (path client : String) (call : PendingCall) (method : Method)
  | handle (event : Event)
  deriving DecidableEq

namespace Operation

/-- What comes back from an operation. -/
@[reducible] def Result : Operation → Type
  | create _ _ _ => Except Fault TransportId
  | remove _ => Bool
  | acquire _ _ _ _ => Except Rejection Unit
  | release _ _ _ => Except Fault Unit
  | properties _ => Except Fault Snapshot
  | setProperty _ _ _ => Except Fault Unit
  | exit _ => Bool
  | a2dpResumed _ _ => Unit
  | voiceConnected _ _ => Unit
  | reportDelay _ _ => Except Fault Unit
  | runDeferred => Nat
  | dispatch _ _ _ _ => Unit
  | handle _ => Unit

end Operation

namespace Broker

/-- Carries out an operation. -/
def perform (b : Broker) (op : Operation) : Dialogue (op.Result × Broker) :=
  match op with
  | .create endpoint device configuration => b.create endpoint device configuration
  | .remove id => b.remove id
  | .acquire path client access call => b.acquire path client access call
  | .release path client access => b.release path client access
  | .properties path => (·, b) <$> b.properties path
  | .setProperty path name value => pure (b.setProperty path name value, b)
  | .exit token => b.exit token
  | .a2dpResumed token report => ((), ·) <$> b.a2dpResumed token report
  | .voiceConnected token connected => ((), ·) <$> b.voiceConnected token connected
  | .reportDelay id delay => b.reportDelay id delay
  | .runDeferred => b.runDeferred
  | .dispatch path client call method =>
    ((), ·) <$> b.dispatch path client call method
  | .handle event => ((), ·) <$> b.handle event

end Broker

end AudioBroker
