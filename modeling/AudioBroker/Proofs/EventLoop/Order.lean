import AudioBroker.Proofs.EventLoop.Session
import AudioBroker.Proofs.Marks

/-!
# The event loop keeps the order of events

A loop may take many events in one turn, and it may be suspended in the middle of
one. Still it does what would be done by carrying out one event after another and
emptying the queue of torn down owners after each.

- `Event.operations`, `Phase.outstanding`: what is carried out for an event, and
  what of it is left when the loop is suspended.
- `Served`: how far a loop has come with the events that it took.
- `Served.handle`, `Served.drain`, `Served.serve`, `Served.poll`: how it gets
  further.
- `Session.served`: what it comes to in a session in which the loop is never given
  up between an event and the owners that it left.
-/

namespace AudioBroker

open Dialogue

namespace Broker

variable {b : Broker}

/-- Nobody is to be torn down exactly when the queue is empty. -/
theorem hasDeferred_eq_false_iff : b.hasDeferred = false ↔ b.deferred = ∅ := by
  constructor
  · intro h
    exact BoundedList.ext (List.isEmpty_iff.mp (by simpa [hasDeferred] using h))
  · intro h
    rw [hasDeferred, h]
    rfl

/-- Emptying an empty queue changes nothing. -/
theorem runDeferred_of_idle (idle : b.deferred = ∅) :
    b.runDeferred = pure (0, b) := by
  have hsame : { b with deferred := ∅ } = b := by
    rw [← idle]
  rw [runDeferred, hsame, idle]
  rfl

end Broker

/-- What is carried out for an event. -/
def Event.operations (event : Event) : List Operation := [.handle event, .runDeferred]

/-- What is left to be carried out for the event that was taken last. -/
def Phase.outstanding : Phase → List Operation
  | .waiting => []
  | .yielded => [.runDeferred]

/-- The step leaves one owner to be torn down at most, and no event finds one that
is left. -/
structure Step.Prompt (s : Step) : Prop where
  one : s.after.deferred.toList.length ≤ 1
  idle : ∀ event, s.op = .handle event → s.before.deferred = ∅

/-- A loop begun on `b₀` took these events. With these steps it came to `b`, where
it is suspended. -/
structure Served (b₀ : Broker) (received : List Event) (steps : List Step)
    (b : Broker) (phase : Phase) :
    Prop where
  run : Run b₀ steps b
  ops : steps.map Step.op ++ phase.outstanding = received.flatMap Event.operations
  prompt : ∀ s ∈ steps, s.Prompt
  idle : phase = .waiting → b.deferred = ∅

namespace Served

variable {b₀ b b' : Broker} {received events : List Event} {steps : List Step}
  {es : List Exchange} {event : Event} {n : Nat} {l l' : EventLoop}

theorem nil (idle : b₀.deferred = ∅) : Served b₀ [] [] b₀ .waiting where
  run := .nil
  ops := rfl
  prompt := by simp
  idle _ := idle

theorem prompt_snoc {s : Step} (h : ∀ u ∈ steps, u.Prompt) (hs : s.Prompt) :
    ∀ u ∈ steps ++ [s], u.Prompt := by
  intro u hu
  rw [List.mem_append, List.mem_singleton] at hu
  rcases hu with hu | rfl
  · exact h u hu
  · exact hs

/-- An event is carried out. -/
theorem handle (h : Served b₀ received steps b .waiting)
    (went : (b.handle event).Yields es b') :
    ∃ s : Step, s.exchanges = es ∧
      Served b₀ (received ++ [event]) (steps ++ [s]) b' .yielded := by
  let s : Step := ⟨b, .handle event, es, (), b', yields_map.mpr ⟨b', went, rfl⟩⟩
  have hidle : s.before.deferred = ∅ := h.idle rfl
  have hone : s.after.deferred.toList.length ≤ 1 := by
    have hle := s.turn.length_deferred_le
    rwa [hidle] at hle
  refine ⟨s, rfl, ?_⟩
  refine { run := .snoc (s := s) h.run, ops := ?_,
           prompt := prompt_snoc h.prompt { one := hone, idle := fun _ _ => hidle },
           idle := fun hphase => nomatch hphase }
  rw [List.flatMap_append, ← h.ops]
  simp [Phase.outstanding, Event.operations, s]

/-- The queue is emptied after an event. -/
theorem drain (h : Served b₀ received steps b .yielded)
    (went : b.runDeferred.Yields es (n, b')) :
    ∃ s : Step, s.exchanges = es ∧ Served b₀ received (steps ++ [s]) b' .waiting := by
  let s : Step := ⟨b, .runDeferred, es, n, b', went⟩
  have hempty : s.after.deferred = ∅ := Broker.runDeferred_deferred went
  have hone : s.after.deferred.toList.length ≤ 1 := by
    rw [hempty]
    exact Nat.zero_le _
  refine ⟨s, rfl, ?_⟩
  refine { run := .snoc (s := s) h.run, ops := ?_,
           prompt := prompt_snoc h.prompt
             { one := hone, idle := fun _ hop => nomatch hop },
           idle := fun _ => hempty }
  rw [← h.ops]
  simp [Phase.outstanding, s]

/-- After an event that leaves nobody to be torn down it is as if the queue had been
emptied. -/
theorem settle (h : Served b₀ received steps b .waiting)
    (went : (b.handle event).Yields es b') (hidle : b'.deferred = ∅) :
    ∃ more, exchanges more = es ∧
      Served b₀ (received ++ [event]) (steps ++ more) b' .waiting := by
  have hnothing : b'.runDeferred.Yields [] (0, b') := by
    rw [Broker.runDeferred_of_idle hidle]
    exact .done _
  obtain ⟨s, hsaid, hhandled⟩ := h.handle went
  obtain ⟨s', hsaid', hserved⟩ := hhandled.drain hnothing
  exact ⟨[s, s'], by simp [exchanges, hsaid, hsaid'], by simpa using hserved⟩

/-- A loop that takes events takes them from the front of the queue, and leaves the
rest. -/
theorem serve {hle : events.length ≤ maxEvents}
    (h : Served b₀ received steps b .waiting)
    (went : (EventLoop.serve b events hle).Yields es l) :
    ∃ taken more, events = taken ++ l.queue.toList ∧ exchanges more = es ∧
      Served b₀ (received ++ taken) (steps ++ more) l.broker l.phase := by
  -- along the queue: the loop goes on as long as an event leaves nobody in the
  -- other queue
  induction events generalizing b received steps es with
  | nil =>
    obtain ⟨rfl, rfl⟩ := yields_pure.mp went
    exact ⟨[], [], rfl, rfl, by simpa using h⟩
  | cons event rest ih =>
    obtain ⟨es₁, b₁, es₂, rfl, h₁, h₂⟩ := yields_bind.mp went
    cases hleft : b₁.hasDeferred with
    | true =>
      rw [if_pos hleft] at h₂
      obtain ⟨rfl, rfl⟩ := yields_pure.mp h₂
      obtain ⟨s, rfl, hserved⟩ := h.handle h₁
      exact ⟨[event], [s], rfl, by simp, hserved⟩
    | false =>
      rw [if_neg (by simp [hleft])] at h₂
      obtain ⟨more, rfl, hserved⟩ :=
        h.settle h₁ (Broker.hasDeferred_eq_false_iff.mp hleft)
      obtain ⟨taken, more', hrest, rfl, hserved'⟩ := ih hserved h₂
      refine ⟨event :: taken, more ++ more', by rw [hrest]; rfl, by simp, ?_⟩
      simpa using hserved'

/-- A turn of the loop takes events from the front of the queue, after it has made
up for the last one. -/
theorem poll (h : Served b₀ received steps l.broker l.phase)
    (went : l.poll.Yields es l') :
    ∃ taken more, l.queue.toList = taken ++ l'.queue.toList ∧ exchanges more = es ∧
      Served b₀ (received ++ taken) (steps ++ more) l'.broker l'.phase := by
  unfold EventLoop.poll at went
  cases hphase : l.phase with
  | waiting =>
    rw [hphase] at h went
    exact h.serve went
  | yielded =>
    rw [hphase] at h went
    obtain ⟨es₁, ⟨n, b₁⟩, es₂, rfl, h₁, h₂⟩ := yields_bind.mp went
    obtain ⟨s, rfl, hdrained⟩ := h.drain h₁
    obtain ⟨taken, more, htaken, rfl, hserved⟩ := hdrained.serve h₂
    exact ⟨taken, s :: more, htaken, by simp [exchanges], by simpa using hserved⟩

end Served

/-- The loop is not given up while it has owners to tear down. -/
def Moment.Gentle (m : Moment) : Prop :=
  m.stimulus = .restart → m.before.phase = .waiting

/-- A loop that is never given up while it has owners to tear down takes the
accepted events one after another, and what it says is what is said in the steps for
them. -/
theorem Session.served {b₀ : Broker} {ms : List Moment} {l : EventLoop}
    (idle : b₀.deferred = ∅) (session : Session (.start b₀) ms l)
    (gentle : ∀ m ∈ ms, m.Gentle) :
    ∃ received steps,
      accepted ms = received ++ l.queue.toList ∧ exchanges steps = said ms ∧
      Served b₀ received steps l.broker l.phase := by
  induction session with
  | nil => exact ⟨[], [], rfl, rfl, .nil idle⟩
  | @snoc ms m session ih =>
    obtain ⟨received, steps, haccepted, hsaid, hserved⟩ :=
      ih fun u hu => gentle u (List.mem_append_left _ hu)
    rw [accepted_append, accepted_singleton, said_append, said_singleton, haccepted,
      ← hsaid]
    cases hstimulus : m.stimulus with
    | send event =>
      obtain ⟨hnothing, hbroker, hphase, hqueue⟩ := Moment.queue_of_send hstimulus
      refine ⟨received, steps,
        by rw [hqueue, List.append_assoc], by simp [hnothing], ?_⟩
      rwa [hbroker, hphase]
    | poll =>
      obtain ⟨taken, more, htaken, hmore, hserved'⟩ :=
        hserved.poll (Moment.poll_yields hstimulus)
      refine ⟨received ++ taken, steps ++ more, ?_,
        by rw [exchanges_append, hmore], hserved'⟩
      rw [Moment.accepted_poll hstimulus, htaken, List.append_nil, List.append_assoc]
    | restart =>
      obtain ⟨hnothing, hnone, hafter⟩ := Moment.after_restart hstimulus
      -- a loop that waits is begun anew as it is
      have hsame : m.after = m.before := by
        rw [hafter, EventLoop.restart, ← gentle m (by simp) hstimulus]
      refine ⟨received, steps, ?_, by simp [hnothing], hsame ▸ hserved⟩
      rw [hnone, hsame, List.append_nil]

/-- From any broker with an empty queue, however sending events and giving the loop
its turn alternate: the loop takes the accepted events in the order in which they
were sent and leaves the others in the queue. What was said, and the broker in the
end, are those of carrying out each event that it took and emptying the queue of
owners after it, but for the last time when the loop is suspended after an event.
Never is more than one owner to be torn down; an event finds room for one and finds
nobody marked. The loop waits for an event exactly when nobody is left to be torn
down. And each turn gets on: it makes up for what the last one left, and it ends
with an empty queue or has taken an event that left an owner to be torn down. -/
theorem Session.refines_sequence {options : Options} {steps : List Step}
    {b₀ : Broker} {ms : List Moment} {l : EventLoop}
    (run : Run (.empty options) steps b₀) (idle : b₀.deferred = ∅)
    (session : Session (.start b₀) ms l) (kept : ∀ m ∈ ms, m.stimulus ≠ .restart) :
    ∃ received served,
      accepted ms = received ++ l.queue.toList ∧ Run b₀ served l.broker ∧
      exchanges served = said ms ∧
      served.map Step.op ++ l.phase.outstanding = received.flatMap Event.operations ∧
      (∀ s ∈ served, s.after.deferred.toList.length ≤ 1) ∧
      (∀ s ∈ served, ∀ event, s.op = .handle event →
        (∀ token, s.before.deferred.push? token ≠ none) ∧
          ∀ t ∈ s.before.transports.toList, ∀ o ∈ t.owners.toList,
            o.scheduled = false) ∧
      (l.phase = .waiting ↔ l.broker.hasDeferred = false) ∧
      ∀ m ∈ ms, m.stimulus = .poll → m.before.Polled m.exchanges m.after := by
  -- `Served` is the invariant that is kept from moment to moment
  obtain ⟨received, served, haccepted, hsaid, hserved⟩ :=
    session.served idle fun m hm hrestart => absurd hrestart (kept m hm)
  refine ⟨received, served, haccepted, hserved.run, hsaid, hserved.ops,
    fun s hs => (hserved.prompt s hs).one, fun s hs event hop => ?_, ?_,
    fun m _ hpoll => EventLoop.poll_polled (Moment.poll_yields hpoll)⟩
  · have hidle := (hserved.prompt s hs).idle event hop
    refine ⟨fun token => ?_, ?_⟩
    · rw [hidle, Ne, BoundedList.push?_eq_none_iff]
      decide
    · -- the run to the broker that the event found
      obtain ⟨pre, post, rfl⟩ := List.append_of_mem hs
      exact (run.trans hserved.run.around.1).unmarked_of_idle hidle
  · constructor
    · exact fun hwaiting => Broker.hasDeferred_eq_false_iff.mpr
        (hserved.idle hwaiting)
    · intro hnone
      cases hphase : l.phase with
      | waiting => rfl
      | yielded =>
        rw [session.left hphase] at hnone
        cases hnone

/-- Two clients own a transport whose stream is being started. -/
def Scene.starting : Broker :=
  (Broker.empty {}).played Script.peers (failedStart.take 3)

/-- The start fails, and meanwhile one of the clients leaves. -/
def Scene.failure : List (Script × EventLoop.Stimulus) :=
  [({}, .send (.a2dpResumed ⟨⟨0⟩, ⟨0⟩⟩ (.failed .timeout))),
    ({}, .send (.exited ⟨⟨0⟩, ⟨1⟩⟩)), ({}, .poll)]

/-- A loop is suspended after a failed start, with an exit still in the queue. -/
theorem Session.failure_refines_sequence :
    ∃ ms l, Session (.start Scene.starting) ms l ∧ l.phase = .yielded ∧
      ∃ served, Run Scene.starting served l.broker ∧ exchanges served = said ms ∧
        served.map Step.op = [.handle
          (.a2dpResumed ⟨⟨0⟩, ⟨0⟩⟩ (.failed .timeout))] := by
  have run : Run (.empty {}) _ Scene.starting :=
    Broker.run_play Script.peers _ (Scene.failedStart.take 3)
  have session := EventLoop.session_play Script.peers
    (.start Scene.starting) Scene.failure
  have hidle : Scene.starting.deferred = ∅ := by decide
  have hkept : ∀ m ∈ (EventLoop.start Scene.starting).play Script.peers Scene.failure,
      m.stimulus ≠ .restart := by
    decide
  have hphase :
      ((EventLoop.start Scene.starting).played Script.peers Scene.failure).phase =
        .yielded := by
    decide
  have hqueue :
      ((EventLoop.start Scene.starting).played Script.peers
        Scene.failure).queue.toList =
      [.exited ⟨⟨0⟩, ⟨1⟩⟩] := by
    decide
  have hsent :
      accepted ((EventLoop.start Scene.starting).play Script.peers Scene.failure) =
      [.a2dpResumed ⟨⟨0⟩, ⟨0⟩⟩ (.failed .timeout)] ++ [.exited ⟨⟨0⟩, ⟨1⟩⟩] := by
    decide
  obtain ⟨received, served, haccepted, hrun, hsaid, hops, -⟩ :=
    Session.refines_sequence run hidle session hkept
  rw [hsent, hqueue] at haccepted
  rw [hphase, ← List.append_cancel_right haccepted] at hops
  have hone : served.map Step.op ++ [.runDeferred] =
      [.handle (.a2dpResumed ⟨⟨0⟩, ⟨0⟩⟩ (.failed .timeout))] ++ [.runDeferred] := hops
  exact ⟨_, _, session, hphase, served, hrun, hsaid, List.append_cancel_right hone⟩

end AudioBroker
