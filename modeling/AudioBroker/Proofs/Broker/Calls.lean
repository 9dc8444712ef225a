import AudioBroker.Proofs.Broker.Effect

/-!
# Method calls and events

A method call comes down to an operation and the answer to it, and an event to a
method call or to an operation. Whatever is known of the operations is known of what
comes in from the clients and the profile layers, too.

- `Method.operation`, `Event.operation`: the operation that a method call or an
  event comes down to.
- `Operation.reply?`: the answer that a method call is given.
- `Broker.dispatch_answers`, `Broker.dispatch_cases`: a method call is its operation,
  and the answer.
- `Broker.handle_cases`: an event is its operation.
- `Operation.core`, `Broker.perform_core`: an operation with method calls and events
  unwrapped.
-/

namespace AudioBroker

open Dialogue

/-- The operation that a method call comes down to. -/
def Method.operation (path client : String) (call : PendingCall) : Method → Operation
  | .getProperties => .properties path
  | .acquire access => .acquire path client access.str call
  | .release access => .release path client access.str
  | .setProperty name value => .setProperty path name.str value

/-- The operation that an event comes down to. -/
def Event.operation : Event → Operation
  | .call path client pending method => .dispatch path.str client.str pending method
  | .exited token => .exit token
  | .a2dpResumed token report => .a2dpResumed token report
  | .voiceConnected token connected => .voiceConnected token connected
  | .delayed transport delay => .reportDelay transport delay

namespace Operation

/-- The fault that came back from an operation. -/
def fault? : (op : Operation) → op.Result → Option Fault
  | .create _ _ _, .error fault => some fault
  | .acquire _ _ _ _, .error rejection => some rejection.fault
  | .release _ _ _, .error fault => some fault
  | .properties _, .error fault => some fault
  | .setProperty _ _ _, .error fault => some fault
  | .reportDelay _ _, .error fault => some fault
  | _, _ => none

/-- The answer to the method call of an operation. That to an admitted request for
access comes later. -/
def reply? : (op : Operation) → op.Result → Option Reply
  | .acquire _ _ _ _, .ok () => none
  | .acquire _ _ _ _, .error rejection => some (.failure rejection.fault)
  | .release _ _ _, result => some (.ofResult result)
  | .properties _, result => some (.ofProperties result)
  | .setProperty _ _ _, result => some (.ofResult result)
  | _, _ => none

/-- A fault is answered with itself. -/
theorem reply?_of_fault {path client : String} {call : PendingCall}
    {method : Method} {fault : Fault}
    {result : (method.operation path client call).Result}
    (h : (method.operation path client call).fault? result = some fault) :
    (method.operation path client call).reply? result = some (.failure fault) := by
  cases method <;> cases result <;> cases h <;> rfl

end Operation

namespace Broker

variable {b b' : Broker} {op : Operation} {es : List Exchange}

/-- A method call does what its operation does, and is given the answer to it, if
there is one. -/
theorem dispatch_answers {path client : String} {call : PendingCall} {method : Method}
    (h : (b.dispatch path client call method).Yields es b') :
    ∃ result es₁ es₂,
      (b.perform (method.operation path client call)).Yields es₁ (result, b') ∧
      es = es₁ ++ es₂ ∧ es₂.map Exchange.call =
        ((method.operation path client call).reply? result).toList.map
          (.reply call) := by
  cases method with
  | getProperties =>
    obtain ⟨es₁, result, es₂, rfl, h₁, h₂⟩ := yields_bind.mp h
    obtain ⟨delivery, rfl, rfl⟩ := yields_answer h₂
    exact ⟨result, es₁, _, yields_map.mpr ⟨result, h₁, rfl⟩, rfl, rfl⟩
  | acquire access =>
    obtain ⟨es₁, ⟨result, b₁⟩, es₂, rfl, h₁, h₂⟩ := yields_bind.mp h
    -- a client that is let in is answered later
    rcases acquire_result h₁ with ⟨-, rfl⟩ | ⟨-, fault, rfl⟩
    · obtain ⟨rfl, rfl⟩ := yields_pure.mp h₂
      exact ⟨_, es₁, [], h₁, rfl, rfl⟩
    · obtain ⟨delivery, rfl, rfl⟩ := yields_answer h₂
      exact ⟨_, es₁, _, h₁, rfl, rfl⟩
  | release access =>
    obtain ⟨es₁, ⟨result, b₁⟩, es₂, rfl, h₁, h₂⟩ := yields_bind.mp h
    obtain ⟨delivery, rfl, rfl⟩ := yields_answer h₂
    exact ⟨result, es₁, _, h₁, rfl, rfl⟩
  | setProperty name value =>
    obtain ⟨delivery, rfl, rfl⟩ := yields_answer h
    exact ⟨_, [], _, yields_pure.mpr ⟨rfl, rfl⟩, rfl, rfl⟩

/-- A method call does what its operation does, and is answered; a fault is answered
with itself. Only the answer to an admitted request for access comes later. -/
theorem dispatch_cases {path client : String} {call : PendingCall} {method : Method}
    (h : (b.dispatch path client call method).Yields es b') :
    ∃ result es₁ es₂,
      (b.perform (method.operation path client call)).Yields es₁ (result, b') ∧
      es = es₁ ++ es₂ ∧
      ((es₂ = [] ∧ (method.operation path client call).fault? result = none) ∨
        ∃ reply delivery, es₂ = [⟨.reply call reply, delivery⟩] ∧
          ∀ fault ∈ (method.operation path client call).fault? result,
            reply = .failure fault) := by
  obtain ⟨result, es₁, es₂, h₁, rfl, hanswer⟩ := dispatch_answers h
  refine ⟨result, es₁, es₂, h₁, rfl, ?_⟩
  cases hreply : (method.operation path client call).reply? result with
  | none =>
    rw [hreply] at hanswer
    refine .inl ⟨List.map_eq_nil_iff.mp hanswer, ?_⟩
    by_contra hfault
    obtain ⟨fault, hfault⟩ := Option.ne_none_iff_exists'.mp hfault
    rw [Operation.reply?_of_fault hfault] at hreply
    cases hreply
  | some reply =>
    rw [hreply] at hanswer
    obtain ⟨⟨c, delivery⟩, rfl, rfl⟩ := List.map_eq_singleton_iff.mp hanswer
    refine .inr ⟨reply, delivery, rfl, fun fault hfault => ?_⟩
    rw [Operation.reply?_of_fault hfault] at hreply
    exact (Option.some.inj hreply).symm

/-- An event does what its operation does. -/
theorem handle_cases {event : Event} (h : (b.handle event).Yields es b') :
    ∃ result, (b.perform event.operation).Yields es (result, b') := by
  cases event with
  | call path client call method => exact ⟨(), yields_map.mpr ⟨b', h, rfl⟩⟩
  | exited token =>
    obtain ⟨es₁, ⟨known, b₁⟩, es₂, rfl, h₁, h₂⟩ := yields_bind.mp h
    obtain ⟨rfl, rfl⟩ := yields_pure.mp h₂
    rw [List.append_nil]
    exact ⟨known, h₁⟩
  | a2dpResumed token report => exact ⟨(), yields_map.mpr ⟨b', h, rfl⟩⟩
  | voiceConnected token connected => exact ⟨(), yields_map.mpr ⟨b', h, rfl⟩⟩
  | delayed id delay =>
    obtain ⟨es₁, ⟨result, b₁⟩, es₂, rfl, h₁, h₂⟩ := yields_bind.mp h
    obtain ⟨rfl, rfl⟩ := yields_pure.mp h₂
    rw [List.append_nil]
    exact ⟨result, h₁⟩

end Broker

/-! ### What is left of an operation -/

namespace Operation

/-- The operation that is left of an operation once method calls and events are
unwrapped. -/
def core : Operation → Operation
  | .dispatch path client call method => method.operation path client call
  | .handle (.call path client call method) =>
    method.operation path.str client.str call
  | .handle event => event.operation
  | op => op

/-- The method call that an operation carries out. -/
def dispatched? : Operation → Option PendingCall
  | .dispatch _ _ call _ | .handle (.call _ _ call _) => some call
  | _ => none

/-- Nothing is left to be unwrapped. -/
theorem core_core (op : Operation) : op.core.core = op.core := by
  cases op with
  | dispatch _ _ _ method => cases method <;> rfl
  | handle event =>
    cases event with
    | call _ _ _ method => cases method <;> rfl
    | exited _ | a2dpResumed _ _ | voiceConnected _ _ | delayed _ _ => rfl
  | create _ _ _ | runDeferred | remove _ | acquire _ _ _ _ | release _ _ _
  | properties _ | setProperty _ _ _ | exit _ | a2dpResumed _ _ | voiceConnected _ _
  | reportDelay _ _ => rfl

end Operation

namespace Broker

variable {b b' : Broker} {op : Operation} {es : List Exchange}

/-- An operation does what is left of it once it is unwrapped, and a method call is
given its answer. -/
theorem perform_core {result : op.Result}
    (h : (b.perform op).Yields es (result, b')) :
    ∃ result' es₁ answer,
      (b.perform op.core).Yields es₁ (result', b') ∧ es = es₁ ++ answer ∧
      answer.map Exchange.call = op.dispatched?.toList.flatMap fun call =>
        (op.core.reply? result').toList.map (.reply call) := by
  -- a method call comes in by `dispatch` or as an event
  have hcall : ∀ {path client call method es},
      (b.dispatch path client call method).Yields es b' → ∃ result' es₁ answer,
        (b.perform (method.operation path client call)).Yields es₁ (result', b') ∧
          es = es₁ ++ answer ∧
          answer.map Exchange.call = (some call).toList.flatMap fun c =>
            ((method.operation path client call).reply? result').toList.map
                (.reply c) := by
    intro path client call method es went
    obtain ⟨result', es₁, answer, h₁, rfl, hanswer⟩ := dispatch_answers went
    exact ⟨result', es₁, answer, h₁, rfl, by simpa using hanswer⟩
  cases op with
  | dispatch path client call method =>
    obtain ⟨b₁, went, heq⟩ := yields_map.mp h
    cases heq
    exact hcall went
  | handle event =>
    obtain ⟨b₁, went, heq⟩ := yields_map.mp h
    cases heq
    cases event with
    | call path client call method => exact hcall went
    | exited _ | a2dpResumed _ _ | voiceConnected _ _ | delayed _ _ =>
      obtain ⟨result', h₁⟩ := handle_cases went
      exact ⟨result', es, [], h₁, (List.append_nil es).symm, rfl⟩
  | create _ _ _ | runDeferred | remove _ | acquire _ _ _ _ | release _ _ _
  | properties _ | setProperty _ _ _ | exit _ | a2dpResumed _ _ | voiceConnected _ _
  | reportDelay _ _ =>
    exact ⟨result, es, [], h, (List.append_nil es).symm, rfl⟩

end Broker

end AudioBroker
