import AudioBroker.Bluetooth.Stream
import AudioBroker.Bus.Fault
import AudioBroker.Bus.Property

/-!
# Calls and replies

- `PendingCall`: a method call that is to be answered; its serial number ties the
  reply to it.
- `Reply`, `Delivery`: an answer, and what became of it.
- `Rejection`: a call handed back unanswered, with the fault to answer it with.
- `WatchId`: a watch on a client, set up so that its departure is reported.
-/

namespace AudioBroker

/-- A method call that has not been answered. -/
structure PendingCall where
  serial : UInt32
  deriving DecidableEq

/-- A watch on a bus client. -/
structure WatchId where
  raw : UInt32
  deriving DecidableEq

/-- An answer to a method call. -/
inductive Reply where
  /-- Done, with nothing to say. -/
  | empty
  /-- The descriptor of the acquired stream. -/
  | descriptor (fd : StreamFd)
  /-- The properties that were asked for. -/
  | properties (snapshot : Snapshot)
  /-- The call failed. -/
  | failure (fault : Fault)
  deriving DecidableEq

/-- What became of a reply. -/
inductive Delivery where
  | delivered
  /-- The client is no longer connected. -/
  | disconnected
  /-- The bus did not take the message. -/
  | sendFailed
  deriving DecidableEq

/-- A call that was turned down and is still to be answered. -/
structure Rejection where
  fault : Fault
  call : PendingCall
  deriving DecidableEq

end AudioBroker
