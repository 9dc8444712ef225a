import AudioBroker.EventLoop
import AudioBroker.Proofs.Run

/-!
# Sessions of the event loop

Those that report events put them into the queue, and whoever drives the loop gives
it a turn now and then, or gives it up and begins it anew. All this comes in any
order.

- `EventLoop.Stimulus`: what is done to a loop from outside.
- `Moment`: one stimulus with what was said and the loop before and after it.
- `Session`: a loop brought from one state to another by a list of moments.
- `accepted`, `said`: the events that found room in the queue, and all that was
  said.
- `Session.invariant`: what a new loop has, and every moment keeps, every session
  ends with.
- `EventLoop.Polled`: what a loop gets done in one turn.
- `Session.left`: a loop that is suspended after an event has owners to tear down.
- `EventLoop.play`: a session with peers that are given; it is how a session is
  exhibited.
-/

namespace AudioBroker

namespace EventLoop

/-- What is done to a loop from outside. -/
inductive Stimulus where
  | send (event : Event)
  | poll
  | restart
  deriving DecidableEq

/-- What a loop does when something is done to it. An event that finds no room is
not accepted. -/
def undergo (l : EventLoop) : Stimulus → Dialogue EventLoop
  | .send event => pure ((l.send? event).getD l)
  | .poll => l.poll
  | .restart => pure l.restart

end EventLoop

/-- One stimulus and what came of it. -/
structure Moment where
  before : EventLoop
  stimulus : EventLoop.Stimulus
  exchanges : List Exchange
  after : EventLoop
  /-- The peers answered in a way in which the loop makes these exchanges. -/
  undergone : (before.undergo stimulus).Yields exchanges after

/-- `Session l₀ ms l`: the moments lead from `l₀` to `l`, each going on where the
one before it ended. -/
inductive Session (l₀ : EventLoop) : List Moment → EventLoop → Prop where
  | nil : Session l₀ [] l₀
  | snoc {ms : List Moment} {m : Moment} (session : Session l₀ ms m.before) :
      Session l₀ (ms ++ [m]) m.after

/-- The event that was put into the queue. -/
def Moment.accepted (m : Moment) : List Event :=
  match m.stimulus with
  | .send event => if m.before.queue.isFull then [] else [event]
  | .poll | .restart => []

/-- The events that were put into the queue, in order. -/
def accepted (ms : List Moment) : List Event := ms.flatMap Moment.accepted

/-- All that was said in a list of moments. -/
def said (ms : List Moment) : List Exchange := ms.flatMap Moment.exchanges

@[simp] theorem accepted_append (ms rest : List Moment) :
    accepted (ms ++ rest) = accepted ms ++ accepted rest := by
  simp [accepted]

@[simp] theorem accepted_singleton (m : Moment) : accepted [m] = m.accepted := by
  simp [accepted]

@[simp] theorem said_append (ms rest : List Moment) :
    said (ms ++ rest) = said ms ++ said rest := by
  simp [said]

@[simp] theorem said_singleton (m : Moment) : said [m] = m.exchanges := by
  simp [said]

namespace Moment

variable {m : Moment}

/-- An event goes to the end of the queue, or it is refused by a full queue. -/
theorem queue_of_send {event : Event} (h : m.stimulus = .send event) :
    m.exchanges = [] ∧ m.after.broker = m.before.broker ∧
      m.after.phase = m.before.phase ∧
      m.after.queue.toList = m.before.queue.toList ++ m.accepted := by
  have hwent := m.undergone
  rw [h] at hwent
  obtain ⟨hsaid, hafter⟩ := Dialogue.yields_pure.mp hwent
  refine ⟨hsaid, ?_⟩
  rw [hafter, accepted, h, EventLoop.send?]
  cases hpush : m.before.queue.push? event with
  | none =>
    have hfull := BoundedList.isFull_iff.mpr (BoundedList.push?_eq_none_iff.mp hpush)
    simp [hfull]
  | some queue =>
    obtain ⟨hroom, hqueue⟩ := BoundedList.push?_eq_some_iff.mp hpush
    have hnotFull : m.before.queue.isFull = false :=
      decide_eq_false (Nat.ne_of_lt hroom)
    simp [hnotFull, hqueue]

theorem poll_yields (h : m.stimulus = .poll) :
    m.before.poll.Yields m.exchanges m.after := by
  have hwent := m.undergone
  rw [h] at hwent
  exact hwent

theorem accepted_poll (h : m.stimulus = .poll) : m.accepted = [] := by
  rw [accepted, h]

/-- A restart says nothing and drops no event. -/
theorem after_restart (h : m.stimulus = .restart) :
    m.exchanges = [] ∧ m.accepted = [] ∧ m.after = m.before.restart := by
  have hwent := m.undergone
  rw [h] at hwent
  obtain ⟨hsaid, hafter⟩ := Dialogue.yields_pure.mp hwent
  exact ⟨hsaid, by rw [accepted, h], hafter⟩

end Moment

/-- A session ends where its last moment ends, and that moment begins where the rest
of it ends. -/
theorem Session.snoc_inv {l₀ l : EventLoop} {ms : List Moment} {m : Moment}
    (session : Session l₀ (ms ++ [m]) l) : Session l₀ ms m.before ∧ l = m.after := by
  generalize h : ms ++ [m] = all at session
  cases session with
  | nil => simp at h
  | snoc session =>
    obtain ⟨rfl, hm⟩ := List.append_inj' h rfl
    obtain rfl : m = _ := by simpa using hm
    exact ⟨session, rfl⟩

/-- The part of a session that leads to one of its moments. -/
theorem Session.before {l₀ l : EventLoop} {pre post : List Moment} {m : Moment}
    (session : Session l₀ (pre ++ m :: post) l) : Session l₀ pre m.before := by
  induction post using List.reverseRecOn generalizing l with
  | nil => exact session.snoc_inv.1
  | append_singleton post m' ih =>
    rw [← List.cons_append, ← List.append_assoc] at session
    exact ih session.snoc_inv.1

/-- What the first loop has and every moment keeps, the last loop has. -/
theorem Session.invariant {l₀ l : EventLoop} {ms : List Moment}
    {P : EventLoop → Prop} (session : Session l₀ ms l) (start : P l₀)
    (moment : ∀ m ∈ ms, P m.before → P m.after) : P l := by
  induction session with
  | nil => exact start
  | snoc _ ih =>
    refine moment _ (by simp) (ih ?_)
    intro m hm
    exact moment m (List.mem_append_left _ hm)

/-! ### A suspended loop -/

namespace EventLoop

variable {b : Broker} {events : List Event} {es : List Exchange} {l l' : EventLoop}

/-- A loop that takes events waits when it has taken all of them, or it has taken
some and the last one left owners to be torn down. -/
theorem serve_suspended {hle : events.length ≤ maxEvents}
    (went : (serve b events hle).Yields es l) :
    (l.phase = .waiting ∧ l.queue.toList = []) ∨
      (l.phase = .yielded ∧ l.queue.toList.length < events.length ∧
        l.broker.hasDeferred = true) := by
  induction events generalizing b es with
  | nil =>
    obtain ⟨-, rfl⟩ := Dialogue.yields_pure.mp went
    exact .inl ⟨rfl, rfl⟩
  | cons event rest ih =>
    obtain ⟨es₁, b₁, es₂, -, -, h₂⟩ := Dialogue.yields_bind.mp went
    split at h₂
    · next hleft =>
      obtain ⟨-, rfl⟩ := Dialogue.yields_pure.mp h₂
      exact .inr ⟨rfl, Nat.lt_succ_self _, hleft⟩
    · rcases ih h₂ with hwaits | ⟨hyielded, hlength, hleft⟩
      · exact .inl hwaits
      · exact .inr ⟨hyielded, Nat.lt_succ_of_lt hlength, hleft⟩

/-- What one turn of a loop gets done. -/
structure Polled (l : EventLoop) (es : List Exchange) (l' : EventLoop) : Prop where
  /-- The owners that the last turn left are torn down before anything else is
  said. -/
  drained : l.phase = .yielded →
    ∃ es₁ n b₁ es₂, l.broker.runDeferred.Yields es₁ (n, b₁) ∧ es = es₁ ++ es₂
  /-- The loop waits only when no event is left. -/
  emptied : l'.phase = .waiting → l'.queue.toList = []
  /-- It gives up its turn only after it has taken an event, which left owners to be
  torn down. -/
  taken : l'.phase = .yielded → l'.queue.toList.length < l.queue.toList.length ∧
    l'.broker.hasDeferred = true

/-- What taking events does for a turn of the loop. -/
theorem polled_of_serve {queue : List Event} {hle : queue.length ≤ maxEvents}
    (hqueue : queue = l.queue.toList) (went : (serve b queue hle).Yields es l') :
    (l'.phase = .waiting → l'.queue.toList = []) ∧
      (l'.phase = .yielded → l'.queue.toList.length < l.queue.toList.length ∧
        l'.broker.hasDeferred = true) := by
  rcases serve_suspended went with ⟨hphase, hempty⟩ | ⟨hphase, htaken⟩
  · exact ⟨fun _ => hempty, fun h => (nomatch hphase.symm.trans h)⟩
  · exact ⟨fun h => (nomatch hphase.symm.trans h), fun _ => hqueue ▸ htaken⟩

theorem poll_polled (went : l.poll.Yields es l') : l.Polled es l' := by
  unfold poll at went
  split at went
  · next hphase =>
    obtain ⟨hemptied, htaken⟩ := polled_of_serve rfl went
    exact { drained := fun h => (nomatch hphase.symm.trans h), emptied := hemptied,
            taken := htaken }
  · obtain ⟨es₁, ⟨n, b₁⟩, es₂, hsaid, h₁, h₂⟩ := Dialogue.yields_bind.mp went
    obtain ⟨hemptied, htaken⟩ := polled_of_serve rfl h₂
    exact { drained := fun _ => ⟨es₁, n, b₁, es₂, h₁, hsaid⟩, emptied := hemptied,
            taken := htaken }

end EventLoop

/-- A loop that gave up its turn after an event has owners to tear down, however it
came there. -/
theorem Session.left {b₀ : Broker} {l : EventLoop} {ms : List Moment}
    (session : Session (.start b₀) ms l) (yielded : l.phase = .yielded) :
    l.broker.hasDeferred = true := by
  refine session.invariant
    (P := fun l => l.phase = .yielded → l.broker.hasDeferred = true)
    (fun h => nomatch h) (fun m _ hbefore hafter => ?_) yielded
  cases hstimulus : m.stimulus with
  | send event =>
    obtain ⟨-, hbroker, hphase, -⟩ := Moment.queue_of_send hstimulus
    rw [hbroker]
    exact hbefore (hphase ▸ hafter)
  | poll =>
    exact ((EventLoop.poll_polled (Moment.poll_yields hstimulus)).taken hafter).2
  | restart =>
    rw [(Moment.after_restart hstimulus).2.2] at hafter
    cases hafter

/-! ### Playing a session -/

namespace EventLoop

variable {σ : Type}

/-- The moments of a list of stimuli with the given peers. Each stimulus comes with
the state in which it finds them. -/
def play (peers : Dialogue.Peers σ) (l : EventLoop) :
    List (σ × Stimulus) → List Moment
  | [] => []
  | (s, stimulus) :: rest =>
    let went := (l.undergo stimulus).run peers s
    { before := l, stimulus, exchanges := went.exchanges, after := went.value,
      undergone := Dialogue.yields_run peers (l.undergo stimulus) s } ::
        play peers went.value rest

/-- Where the moments of `play` lead. -/
def played (peers : Dialogue.Peers σ) (l : EventLoop) :
    List (σ × Stimulus) → EventLoop
  | [] => l
  | (s, stimulus) :: rest =>
    played peers ((l.undergo stimulus).run peers s).value rest

/-- What is played after a session goes on with it. -/
theorem session_snoc_play {l₀ l : EventLoop} {ms : List Moment}
    (session : Session l₀ ms l) (peers : Dialogue.Peers σ)
    (stimuli : List (σ × Stimulus)) :
    Session l₀ (ms ++ l.play peers stimuli) (l.played peers stimuli) := by
  induction stimuli generalizing l ms with
  | nil => simpa [play, played] using session
  | cons stimulus rest ih =>
    obtain ⟨s, stimulus⟩ := stimulus
    have hundergone := Dialogue.yields_run peers (l.undergo stimulus) s
    have hnext := ih (Session.snoc (m := ⟨l, stimulus, _, _, hundergone⟩) session)
    rwa [List.append_assoc] at hnext

/-- What was played is a session. -/
theorem session_play (peers : Dialogue.Peers σ) (l : EventLoop)
    (stimuli : List (σ × Stimulus)) :
    Session l (l.play peers stimuli) (l.played peers stimuli) :=
  session_snoc_play .nil peers stimuli

end EventLoop

end AudioBroker
