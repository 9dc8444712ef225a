import AudioBroker.Broker.Event

/-!
# The event loop

Events wait in a queue and are carried out one at a time. After an event that left
owners to be torn down, the loop gives up its turn once, so that what reported the
event can come to its end, and tears them down on its next turn.

- `EventLoop`: the broker with its queue and the place at which the loop is
  suspended.
- `EventLoop.send?`: puts an event into the queue.
- `EventLoop.poll`: runs the loop for one turn, until it is suspended again.
- `EventLoop.restart`: a loop begun anew on the same broker and queue.
-/

namespace AudioBroker

/-- The most events that wait. -/
def maxEvents : Nat := 8

/-- Where the loop is suspended. -/
inductive Phase where
  /-- It waits for an event. -/
  | waiting
  /-- It gave up its turn after an event and has owners to tear down. -/
  | yielded
  deriving DecidableEq

/-- The broker with its events. -/
structure EventLoop where
  broker : Broker
  queue : BoundedList Event maxEvents
  phase : Phase
  deriving DecidableEq

namespace EventLoop

/-- A loop that waits for its first event. -/
def start (broker : Broker) : EventLoop := { broker, queue := ∅, phase := .waiting }

/-- Puts an event into the queue, unless the queue is full. -/
def send? (l : EventLoop) (event : Event) : Option EventLoop :=
  (l.queue.push? event).map fun queue => { l with queue }

/-- Takes events from the queue until one leaves owners to be torn down or the queue
is empty. -/
def serve (b : Broker) :
    (events : List Event) → events.length ≤ maxEvents → Dialogue EventLoop
  | [], h => pure { broker := b, queue := ⟨[], h⟩, phase := .waiting }
  | event :: rest, h => do
    let b ← b.handle event
    if b.hasDeferred then
      return { broker := b, queue := ⟨rest, Nat.le_of_succ_le h⟩, phase := .yielded }
    else serve b rest (Nat.le_of_succ_le h)

/-- One turn of the loop: first the owners that the last turn left, then the
events. -/
def poll (l : EventLoop) : Dialogue EventLoop :=
  match l.phase with
  | .waiting => serve l.broker l.queue.toList l.queue.length_le
  | .yielded => do
    let (_, b) ← l.broker.runDeferred
    serve b l.queue.toList l.queue.length_le

/-- The loop given up and begun anew: it waits for an event, wherever it was
suspended. -/
def restart (l : EventLoop) : EventLoop := { l with phase := .waiting }

end EventLoop

end AudioBroker
