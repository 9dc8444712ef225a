import AudioBroker.Proofs.EventLoop.Order

/-!
# A loop that is given up

Whoever drives the loop can give it up where it is suspended and begin it anew. What
the loop had still to do for the last event is known to the suspended loop alone: a
new one first waits for an event. So giving it up does no harm while it waits, and
leaves owners in the queue where it had owners to tear down.

- `Broker.attend`: events carried out one after another, each with the owners that
  it left.
- `Run.attended`: a run of these operations is an end of this dialogue.
- `Session.waits_idle`, `Session.gentle_of_waits_idle`: where the loop must not be
  given up.
- `Session.restarts_harmless_iff`: what giving the loop up comes to.
- `Session.restart_strands_owner`: a loop given up at the wrong place.
-/

namespace AudioBroker

open Dialogue

namespace Broker

/-- Carries out events one after another, and after each tears down the owners that
it left. -/
def attend (b : Broker) : List Event → Dialogue Broker
  | [] => pure b
  | event :: rest => do
    let b ← b.handle event
    let (_, b) ← b.runDeferred
    b.attend rest

/-- Events can be attended to in two parts. -/
theorem attend_append (b : Broker) (events rest : List Event) :
    b.attend (events ++ rest) = b.attend events >>= fun b => b.attend rest := by
  induction events generalizing b with
  | nil => rfl
  | cons event events ih => simp only [List.cons_append, attend, bind_assoc, ih]

end Broker

/-- Steps that carry out events, each with the owners that it left, are an end of
`Broker.attend`. -/
theorem Run.attended {b₀ b : Broker} {steps : List Step} {events : List Event}
    (run : Run b₀ steps b)
    (ops : steps.map Step.op = events.flatMap Event.operations) :
    (b₀.attend events).Yields (exchanges steps) b := by
  -- from the last event, as runs grow at the end
  induction events using List.reverseRecOn generalizing steps b with
  | nil =>
    obtain rfl := List.map_eq_nil_iff.mp ops
    obtain rfl : b = b₀ := run.invariant (P := fun b => b = b₀) rfl (by simp)
    exact .done _
  | append_singleton events event ih =>
    rw [List.flatMap_append, List.map_eq_append_iff] at ops
    obtain ⟨pre, last, rfl, hpre, hlast⟩ := ops
    obtain ⟨s, rest, rfl, hs, hrest⟩ := List.map_eq_cons_iff.mp hlast
    obtain ⟨s', rest', rfl, hs', hrest'⟩ := List.map_eq_cons_iff.mp hrest
    obtain rfl := List.map_eq_nil_iff.mp hrest'
    rw [List.append_cons] at run
    obtain ⟨init, rfl⟩ := run.snoc_inv
    obtain ⟨init, hbetween⟩ := init.snoc_inv
    rw [Broker.attend_append, exchanges_append]
    refine yields_bind.mpr ⟨_, _, _, rfl, ih init hpre, ?_⟩
    obtain ⟨b₁, op, es, result, b₂, performed⟩ := s
    obtain ⟨b₂, op', es', count, b₃, performed'⟩ := s'
    cases hs
    cases hs'
    cases hbetween
    obtain ⟨b₂, handled, heq⟩ := yields_map.mp performed
    cases heq
    refine yields_bind.mpr ⟨es, b₂, es', by simp [exchanges], handled, ?_⟩
    exact yields_bind.mpr ⟨es', (count, b₃), [], by simp, performed', .done _⟩

variable {b₀ : Broker} {ms : List Moment} {l : EventLoop}

/-- A loop that is never given up while it has owners to tear down has none while it
waits. -/
theorem Session.waits_idle (idle : b₀.deferred = ∅)
    (session : Session (.start b₀) ms l) (gentle : ∀ m ∈ ms, m.Gentle)
    (waiting : l.phase = .waiting) : l.broker.hasDeferred = false := by
  obtain ⟨received, steps, -, -, hserved⟩ := session.served idle gentle
  exact Broker.hasDeferred_eq_false_iff.mpr (hserved.idle waiting)

/-- A loop that is given up while it has owners to tear down waits and has them
still. -/
theorem Session.gentle_of_waits_idle (session : Session (.start b₀) ms l)
    (waits : ∀ m ∈ ms, m.after.phase = .waiting →
      m.after.broker.hasDeferred = false) :
    ∀ m ∈ ms, m.Gentle := by
  intro m hm hrestart
  by_contra hphase
  obtain ⟨pre, post, rfl⟩ := List.append_of_mem hm
  have hyielded : m.before.phase = .yielded := by
    cases h : m.before.phase with
    | waiting => exact absurd h hphase
    | yielded => rfl
  have hleft := session.before.left hyielded
  obtain ⟨-, -, hafter⟩ := Moment.after_restart hrestart
  have hnone := waits m hm (by rw [hafter]; rfl)
  rw [hafter] at hnone
  exact absurd (hleft.symm.trans hnone) (by decide)

/-- A loop that waits has nobody left to tear down, throughout a session, exactly if
it is never given up while it has owners to tear down. Then giving it up does no
harm: when the loop waits with no events in the queue, what was said and the broker
are an end of the dialogue that carries out the accepted events one after another,
in which loops that were given up do not occur. -/
theorem Session.restarts_harmless_iff (idle : b₀.deferred = ∅)
    (session : Session (.start b₀) ms l) :
    ((∀ m ∈ ms, m.stimulus = .restart → m.before.phase = .waiting) ↔
      ∀ m ∈ ms, m.after.phase = .waiting → m.after.broker.hasDeferred = false) ∧
    ((∀ m ∈ ms, m.stimulus = .restart → m.before.phase = .waiting) →
      l.phase = .waiting → l.queue = ∅ →
      (b₀.attend (accepted ms)).Yields (said ms) l.broker) := by
  refine ⟨⟨fun gentle m hm => ?_, session.gentle_of_waits_idle⟩,
    fun gentle hwaiting hqueue => ?_⟩
  · obtain ⟨pre, post, rfl⟩ := List.append_of_mem hm
    have hupto : Session (.start b₀) (pre ++ [m]) m.after := .snoc session.before
    refine hupto.waits_idle idle fun u hu => gentle u ?_
    rw [List.append_cons]
    exact List.mem_append_left _ hu
  · obtain ⟨received, steps, haccepted, hsaid, hserved⟩ := session.served idle gentle
    have hops := hserved.ops
    rw [hwaiting, Phase.outstanding, List.append_nil] at hops
    rw [haccepted, hqueue, BoundedList.toList_empty, List.append_nil, ← hsaid]
    exact hserved.run.attended hops

/-- The loop is given up when it waits, after a failure was dealt with and before a
client leaves. -/
def Scene.restartBetween : List (Script × EventLoop.Stimulus) :=
  [({}, .send (.a2dpResumed ⟨⟨0⟩, ⟨0⟩⟩ (.failed .timeout))), ({}, .poll),
    ({}, .poll), ({}, .restart), ({}, .send (.exited ⟨⟨0⟩, ⟨1⟩⟩)), ({}, .poll)]

/-- A loop that is given up while it waits says what it would have said. -/
theorem Session.restart_between_is_harmless :
    ∃ ms l, Session (.start Scene.starting) ms l ∧
      (Scene.starting.attend [.a2dpResumed ⟨⟨0⟩, ⟨0⟩⟩ (.failed .timeout),
        .exited ⟨⟨0⟩, ⟨1⟩⟩]).Yields (said ms) l.broker ∧
      ∀ m ∈ ms, m.after.phase = .waiting → m.after.broker.hasDeferred = false := by
  have session := EventLoop.session_play Script.peers
    (.start Scene.starting) Scene.restartBetween
  have hidle : Scene.starting.deferred = ∅ := by decide
  have hgentle :
      ∀ m ∈ (EventLoop.start Scene.starting).play Script.peers Scene.restartBetween,
      m.stimulus = .restart → m.before.phase = .waiting := by
    decide
  have hsent :
      accepted ((EventLoop.start Scene.starting).play Script.peers
        Scene.restartBetween) =
      [.a2dpResumed ⟨⟨0⟩, ⟨0⟩⟩ (.failed .timeout), .exited ⟨⟨0⟩, ⟨1⟩⟩] := by
    decide
  obtain ⟨hiff, hattended⟩ := session.restarts_harmless_iff hidle
  refine ⟨_, _, session, ?_, hiff.mp hgentle⟩
  rw [← hsent]
  exact hattended hgentle (by decide) (by decide)

/-- The same failure, and the loop is given up right after it, or it is not. -/
def Scene.failureThen (stimuli : List EventLoop.Stimulus) :
    List (Script × EventLoop.Stimulus) :=
  ({}, .send (.a2dpResumed ⟨⟨0⟩, ⟨0⟩⟩ (.failed .timeout))) :: ({}, .poll) ::
    stimuli.map fun s => ({}, s)

/-- A loop that is given up after a failed start leaves the owner in the queue and
says less. -/
theorem Session.restart_strands_owner :
    ∃ ms l ms' l', Session (.start Scene.starting) ms l ∧
      Session (.start Scene.starting) ms' l' ∧
      accepted ms = accepted ms' ∧ (∀ m ∈ ms, m.stimulus ≠ .restart) ∧
      l.phase = .waiting ∧ l.queue = ∅ ∧ l.broker.hasDeferred = false ∧
      l'.phase = .waiting ∧ l'.queue = ∅ ∧ l'.broker.hasDeferred = true ∧
      (said ms).map Exchange.call ≠ (said ms').map Exchange.call := by
  refine ⟨_, _, _, _,
    EventLoop.session_play Script.peers (.start Scene.starting)
      (Scene.failureThen [.poll]),
    EventLoop.session_play Script.peers (.start Scene.starting)
      (Scene.failureThen [.restart, .poll]), ?_⟩
  decide

end AudioBroker
