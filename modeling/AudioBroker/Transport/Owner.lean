import AudioBroker.Access
import AudioBroker.Bluetooth.Stream
import AudioBroker.Bus.Message
import AudioBroker.Bus.Name
import AudioBroker.Token

/-!
# Owners

An owner is a client's claim on a transport: the directions that it holds, the watch
that reports the client's departure, and the start that is under way on its behalf.

- `Owner`, `Pending`: an owner, and what is open while its stream starts.
- `Owner.depart`, `Owner.settle`, `Owner.schedule`: the stages that an owner goes
  through.
-/

namespace AudioBroker

/-- What is open while a stream starts for an owner. -/
structure Pending where
  /-- The `Acquire` call that waits for its answer; none once a reply was sent or
  the client left. -/
  call : Option PendingCall
  /-- The request by which the start can be aborted; none once the start has ended. -/
  request : Option RequestId
  deriving DecidableEq

/-- A client's claim on a transport. -/
structure Owner where
  id : OwnerId
  name : ClientName
  access : Access
  /-- The watch on the client; none if it was refused or has fired. -/
  watch : Option WatchId
  /-- The start under way; none once the client was sent a descriptor. -/
  pending : Option Pending
  /-- Whether the owner waits to be torn down. -/
  scheduled : Bool
  deriving DecidableEq

namespace Owner

/-- Whether a start is under way. -/
def isPending (o : Owner) : Bool := o.pending.isSome

/-- The owner after its client left: the watch has fired, and nobody waits for an
answer. -/
def depart (o : Owner) : Owner :=
  { o with watch := none, pending := o.pending.map fun p => { p with call := none } }

/-- The owner after its start has ended: there is nothing left to abort. -/
def settle (o : Owner) : Owner :=
  { o with pending := o.pending.map fun p => { p with request := none } }

/-- The owner after a reply to its call was sent. -/
def answer (o : Owner) : Owner := { o with pending := none }

/-- The owner marked to be torn down. -/
def schedule (o : Owner) : Owner := { o with scheduled := true }

/-- The owner without the directions `a`. -/
def narrow (o : Owner) (a : Access) : Owner := { o with access := o.access \ a }

end Owner

end AudioBroker
