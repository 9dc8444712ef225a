import AudioBroker.Transport.Teardown

/-!
# The end of a start

The peers report how a start ended. A success puts the stream in place and sends its
descriptor to the client that acquired it; anything else ends the owner. An A2DP
owner is only marked, and torn down later.

- `Transport.Completion`: what became of the owner that a report named.
- `Transport.deliver`: the stream put in place and sent to the owner.
- `Transport.complete`: the whole report.
-/

namespace AudioBroker

namespace Transport

/-- What became of the owner that a report named. -/
inductive Completion where
  /-- It was sent the descriptor and stays. -/
  | delivered
  /-- It was torn down. -/
  | ended
  /-- It is marked and has to be torn down later. -/
  | deferred
  /-- Nobody waits for this report. -/
  | stale
  deriving DecidableEq

/-- The owner for which a start is under way, with its place and what is pending. An
owner that is marked for its end waits for nothing. -/
def awaiting? (t : Transport) (id : OwnerId) : Option (Nat × Pending) :=
  match t.owner? id with
  | none => none
  | some (i, o) => if o.scheduled then none else o.pending.map fun p => (i, p)

/-- Puts the open stream in place and sends its descriptor to the owner at a place.
True if the owner has it. -/
def deliver (t : Transport) (i : Nat) (call : Option PendingCall) :
    Dialogue (Bool × Transport) := do
  match ← t.backend.stream t.device with
  | none => return (false, t)
  | some s =>
    let t ← t.install s
    let t := t.modifyOwner i Owner.answer
    match call with
    | none => return (false, t)
    | some call =>
      let delivery ← (Call.reply call (.descriptor s.fd)).make
      return (decide (delivery = .delivered), t)

/-- Ends the owner at a place after its start failed, now or later. -/
def fail (t : Transport) (i : Nat) : Dialogue (Completion × Transport) :=
  if t.backend.defersTeardown then pure (.deferred, t.modifyOwner i Owner.schedule)
  else do
    let t ← t.endAt i
    return (.ended, t)

/-- The start for an owner has ended, with or without success. -/
def complete (t : Transport) (id : OwnerId) (success : Bool) :
    Dialogue (Completion × Transport) :=
  match t.awaiting? id with
  | none => pure (.stale, t)
  | some (i, p) => do
    let settled := t.modifyOwner i Owner.settle
    let (delivered, t) ← if success then settled.deliver i p.call
      else pure (false, settled)
    if delivered then return (.delivered, t)
    else t.fail i

end Transport

end AudioBroker
