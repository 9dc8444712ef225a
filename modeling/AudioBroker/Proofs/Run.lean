import AudioBroker.Broker.Operation
import AudioBroker.Peers.Script
import Mathlib

/-!
# Runs of the broker

The host drives the broker by operations, one after another, and the peers answer as
they like. What the theory says of the broker, it says of all its runs.

- `Step`: one operation carried out, with what was said, what came back, and the
  broker before and after it.
- `Run`: a broker brought from one state to another by a list of steps.
- `Unwrapped`: no step of the list started a number over.
- `Run.invariant`: what a new broker has, and every step keeps, every run ends with.
- `Broker.play`: a run with peers that are given; it is how a run is exhibited.
- `Scene`: one device with a loudspeaker, for runs that are exhibited.
-/

namespace AudioBroker

/-- One operation carried out. -/
structure Step where
  before : Broker
  op : Operation
  exchanges : List Exchange
  result : op.Result
  after : Broker
  /-- The peers answered in a way in which the operation makes these exchanges. -/
  performed : (before.perform op).Yields exchanges (result, after)

/-- `Run b₀ steps b`: the steps lead from `b₀` to `b`, each going on where the one
before it ended. -/
inductive Run (b₀ : Broker) : List Step → Broker → Prop where
  | nil : Run b₀ [] b₀
  | snoc {steps : List Step} {s : Step} (run : Run b₀ steps s.before) :
      Run b₀ (steps ++ [s]) s.after

/-- All that was said in a list of steps. -/
def exchanges (steps : List Step) : List Exchange := steps.flatMap Step.exchanges

@[simp] theorem exchanges_nil : exchanges [] = [] := rfl

@[simp] theorem exchanges_append (steps rest : List Step) :
    exchanges (steps ++ rest) = exchanges steps ++ exchanges rest := by
  simp [exchanges]

@[simp] theorem exchanges_singleton (s : Step) : exchanges [s] = s.exchanges := by
  simp [exchanges]

/-- The step did not start one of the two numbers over, which happens when it is at
its end. -/
def Step.Unwrapped (s : Step) : Prop :=
  s.before.nextTransport.raw ≤ s.after.nextTransport.raw ∧
    s.before.nextOwner.raw ≤ s.after.nextOwner.raw

instance (s : Step) : Decidable s.Unwrapped := inferInstanceAs (Decidable (_ ∧ _))

/-- No number was started over. -/
def Unwrapped (steps : List Step) : Prop := ∀ s ∈ steps, s.Unwrapped

instance (steps : List Step) : Decidable (Unwrapped steps) :=
  inferInstanceAs (Decidable (∀ s ∈ steps, s.Unwrapped))

theorem unwrapped_append {steps rest : List Step} :
    Unwrapped (steps ++ rest) ↔ Unwrapped steps ∧ Unwrapped rest :=
  List.forall_mem_append

/-- The steps before and after one of them, and this step itself. -/
theorem Unwrapped.around {pre post : List Step} {s : Step}
    (h : Unwrapped (pre ++ s :: post)) :
    Unwrapped pre ∧ s.Unwrapped ∧ Unwrapped post := by
  obtain ⟨hpre, hrest⟩ := unwrapped_append.mp h
  exact ⟨hpre, List.forall_mem_cons.mp hrest⟩

namespace Run

variable {b₀ b b' : Broker} {steps pre post : List Step}

/-- A run ends where its last step ends, and that step begins where the rest of the
run ends. -/
theorem snoc_inv {s : Step} (run : Run b₀ (steps ++ [s]) b) :
    Run b₀ steps s.before ∧ b = s.after := by
  -- a run is taken apart by its last step, for which the list must be a variable
  generalize h : steps ++ [s] = all at run
  cases run with
  | nil => simp at h
  | snoc run =>
    obtain ⟨rfl, hs⟩ := List.append_inj' h rfl
    obtain rfl : s = _ := by simpa using hs
    exact ⟨run, rfl⟩

/-- A run goes on from where another one ended. -/
theorem trans (run : Run b₀ pre b) (rest : Run b post b') :
    Run b₀ (pre ++ post) b' := by
  induction rest with
  | nil => simpa using run
  | snoc _ ih =>
    rw [← List.append_assoc]
    exact .snoc ih

/-- A step, and a run that goes on from where it ended. -/
theorem cons {s : Step} (rest : Run s.after post b) : Run s.before (s :: post) b :=
  trans (.snoc .nil) rest

/-- A run can be divided after every step. -/
theorem divide (run : Run b₀ (pre ++ post) b') :
    ∃ b, Run b₀ pre b ∧ Run b post b' := by
  -- from the end of the second part, as runs grow there
  induction post using List.reverseRecOn generalizing b' with
  | nil => exact ⟨b', by simpa using run, .nil⟩
  | append_singleton post s ih =>
    rw [← List.append_assoc] at run
    obtain ⟨init, rfl⟩ := run.snoc_inv
    obtain ⟨b, hpre, hpost⟩ := ih init
    exact ⟨b, hpre, .snoc hpost⟩

/-- The parts of a run before and after one of its steps. -/
theorem around {s : Step} (run : Run b₀ (pre ++ s :: post) b) :
    Run b₀ pre s.before ∧ Run s.after post b := by
  rw [List.append_cons] at run
  obtain ⟨b₁, init, rest⟩ := run.divide
  obtain ⟨before, rfl⟩ := init.snoc_inv
  exact ⟨before, rest⟩

/-- What the first broker has and every step keeps, the last broker has. -/
theorem invariant {P : Broker → Prop} (run : Run b₀ steps b) (start : P b₀)
    (step : ∀ s ∈ steps, P s.before → P s.after) : P b := by
  induction run with
  | nil => exact start
  | snoc _ ih =>
    refine step _ (by simp) (ih ?_)
    intro s hs
    exact step s (List.mem_append_left _ hs)

end Run

/-! ### Playing a run -/

namespace Broker

variable {σ : Type}

/-- The steps of a list of operations with the given peers. Each operation comes
with the state in which it finds them. -/
def play (peers : Dialogue.Peers σ) (b : Broker) : List (σ × Operation) → List Step
  | [] => []
  | (s, op) :: rest =>
    let went := (b.perform op).run peers s
    { before := b, op, exchanges := went.exchanges, result := went.value.1,
      after := went.value.2,
      performed := Dialogue.yields_run peers (b.perform op) s } ::
        play peers went.value.2 rest

/-- Where the steps of `play` lead. -/
def played (peers : Dialogue.Peers σ) (b : Broker) : List (σ × Operation) → Broker
  | [] => b
  | (s, op) :: rest => played peers ((b.perform op).run peers s).value.2 rest

/-- What was played is a run. -/
theorem run_play (peers : Dialogue.Peers σ) (b : Broker)
    (ops : List (σ × Operation)) :
    Run b (b.play peers ops) (b.played peers ops) := by
  induction ops generalizing b with
  | nil => exact .nil
  | cons o rest ih =>
    obtain ⟨s, op⟩ := o
    exact Run.cons
      (s := ⟨b, op, _, _, _, Dialogue.yields_run peers (b.perform op) s⟩) (ih _)

end Broker

namespace Scene

/-- A device at the first adapter. -/
def device : Device :=
  { path := ⟨"/dev", by decide⟩, src := ⟨.replicate 6 0⟩, dst := ⟨.replicate 6 1⟩ }

/-- An A2DP sink. -/
def speaker : Endpoint := { profile := .a2dpSource, codec := 0, sep := some 1 }

/-- A client asks for access to the transport that was created first. -/
def acquire (client access : String) (serial : UInt32) : Operation :=
  .acquire "/dev/fd0" client access ⟨serial⟩

end Scene

end AudioBroker
