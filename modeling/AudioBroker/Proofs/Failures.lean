import AudioBroker.Proofs.Broker.Visit

/-!
# Failed operations

An operation that fails has done nothing. Every check comes before the first change,
and before the first call to the peers; only the bus can refuse a transport that has
passed all the others.

- `Operation.failed`: whether an operation reports that it failed.
- `Broker.afterFailure`: the broker after a failed operation.
- `Operation.deed_of_failed`: the deed that fails leaves the transport as it is and
  says nothing.
- `Run.failures_are_atomic`: what a failure comes to, in every state that can be
  reached.
-/

namespace AudioBroker

open Dialogue

/-- Whether an operation reports that it failed: with a fault, or because there is
no such transport or owner. -/
def Operation.failed : (op : Operation) → op.Result → Bool
  | .remove _, known => !known
  | .exit _, known => !known
  | op, result => (op.fault? result).isSome

/-- The broker after a failed operation. A number is used up for the owner that a
live transport turned down, and nothing else changes. -/
def Broker.afterFailure (b : Broker) : Operation → Broker
  | .acquire path _ _ _ =>
    if (b.transportAt? path).isSome then { b with nextOwner := b.nextOwner.next }
    else b
  | _ => b

/-- What is said in an operation that fails: nothing, but that a transport which the
bus refuses was offered to it. -/
def Broker.FailureSays (b : Broker) :
    (op : Operation) → op.Result → List Exchange → Prop
  | .create endpoint device configuration, .error .registrationFailed, es =>
    ∃ t,
      Transport.create b.nextTransport endpoint device configuration b.options =
        .ok t ∧
      es = [⟨.register t.path, false⟩]
  | _, _, es => es = []

/-! ### One transport -/

namespace Transport

variable {t t' : Transport} {es : List Exchange} {id : OwnerId}

/-- A request for access that is turned down says nothing and changes nothing,
whatever the peers would answer. -/
theorem acquire_of_error {client text : String} {call : PendingCall}
    {rejection : Rejection}
    (h : (t.acquire client text call id).Yields es (.error rejection, t')) :
    t.acquire client text call id = pure (.error rejection, t) := by
  rcases acquire_cases h with ⟨fault, ha, hresult, -, -⟩ |
    ⟨name, access, -, hresult, -⟩
  · cases hresult
    rw [acquire, ha]
  · cases hresult

theorem release_of_error {client text : String} {fault : Fault}
    (h : (t.release client text).Yields es (.error fault, t')) :
    t.release client text = pure (.error fault, t) := by
  -- the two answers that are no faults come after a change
  unfold release at h ⊢
  split at h
  · next i o a _ _ =>
    by_cases hall : a = o.access
    · rw [if_pos hall] at h
      obtain ⟨hresult, -⟩ := endAt_pure_yields.mp h
      cases hresult
    · rw [if_neg hall] at h ⊢
      by_cases hpart : a ⊆ o.access
      · rw [if_pos hpart] at h
        cases (yields_pure.mp h).2
      · rw [if_neg hpart] at h ⊢
        cases (yields_pure.mp h).2
        rfl
  · cases (yields_pure.mp h).2
    rfl

/-- An exit of nobody says nothing and changes nothing. -/
theorem exit_of_unknown (h : (t.exit id).Yields es (false, t')) :
    t.exit id = pure (false, t) := by
  rcases exit_cases h with ⟨ho, -, -, -⟩ | ⟨i, o, -, hknown, -⟩
  · rw [exit, ho]
  · cases hknown

end Transport

/-- A deed that fails leaves the transport as it is, and nothing is said. -/
theorem Operation.deed_of_failed {op : Operation} {next : OwnerId} {t : Transport}
    {es : List Exchange} (hop : op.isLocal = true) {d : Deed op.Result}
    (h : (op.deed next t hop).Yields es d) (failed : op.failed d.result = true) :
    op.deed next t hop = pure (.kept d.result t) := by
  cases op with
  | remove id =>
    -- a transport that lives can be withdrawn
    obtain ⟨es₁, u, es₂, -, -, h⟩ := yields_bind.mp h
    obtain ⟨es₁, t', es₂, -, -, h⟩ := yields_bind.mp h
    obtain ⟨-, rfl⟩ := yields_makeAll_pure.mp h
    cases failed
  | acquire path client access call =>
    obtain ⟨⟨result, t'⟩, h₁, rfl⟩ := yields_kept h
    cases result with
    | ok _ => cases failed
    | error rejection =>
      simp only [deed, Transport.acquire_of_error h₁, pure_bind]
      rfl
  | release path client access =>
    obtain ⟨⟨result, t'⟩, h₁, rfl⟩ := yields_kept h
    cases result with
    | ok _ => cases failed
    | error fault =>
      simp only [deed, Transport.release_of_error h₁, pure_bind]
      rfl
  | properties path =>
    obtain ⟨snapshot, -, rfl⟩ := yields_kept h
    cases failed
  | setProperty path name value =>
    obtain ⟨-, rfl⟩ := yields_pure.mp h
    rfl
  | exit token =>
    obtain ⟨⟨known, t'⟩, h₁, rfl⟩ := yields_kept h
    cases known with
    | true => cases failed
    | false =>
      simp only [deed, Transport.exit_of_unknown h₁, pure_bind]
      rfl
  | reportDelay id delay =>
    obtain ⟨t', -, rfl⟩ := yields_kept h
    cases failed
  | a2dpResumed _ _ | voiceConnected _ _ => cases failed
  | create _ _ _ | runDeferred | dispatch _ _ _ _ | handle _ => cases hop

/-! ### The broker -/

namespace Broker

variable {b b' : Broker} {op : Operation} {es : List Exchange}

theorem afterFailure_of_not_acquire (h : op.isAcquire = false) :
    b.afterFailure op = b := by
  cases op <;> first | rfl | cases h

/-- An operation on one transport that fails is over before anything is said. -/
theorem perform_of_failed {result : op.Result} (hd : b.transports.Distinct)
    (hop : op.isLocal = true) (h : (b.perform op).Yields es (result, b'))
    (failed : op.failed result = true) :
    b.perform op = pure (result, b.afterFailure op) := by
  rcases perform_cases hd hop h with ⟨gone, rfl, -, -⟩ |
    ⟨t, es₁, d, es₂, target, h₁, -, -, -, rfl⟩
  · -- a number is used up only where the transport is found
    have hafter : b.afterFailure op = b := by
      by_cases hacquire : op.isAcquire = true
      · cases op with
        | acquire path client access call =>
          have hnone : b.transportAt? path = none := gone
          rw [afterFailure, hnone]
          rfl
        | _ => cases hacquire
      · exact afterFailure_of_not_acquire (by simpa using hacquire)
    rw [perform_of_no_target hd hop gone, hafter]
  · obtain ⟨-, hlive⟩ := Operation.target?_eq_some target
    rw [perform_of_target hd hop target, Operation.deed_of_failed hop h₁ failed,
      pure_bind]
    -- a deed that fails leaves its transport alone; a request for access has used
    -- up a number by then
    by_cases hacquire : op.isAcquire = true
    · cases op with
      | acquire path client access call =>
        have hat : b.transportAt? path = some t := target
        simp only [settle, Deed.kept, hacquire, if_true, Registry.put_self hd hlive,
          afterFailure, hat, Option.isSome_some, map_pure]
      | _ => cases hacquire
    · have hnot : op.isAcquire = false := by simpa using hacquire
      rw [settle_kept op hnot, map_pure, store_self hd hlive,
        afterFailure_of_not_acquire hnot]
      rfl

/-- Whatever fails leaves the broker as it was, but for a number that is used up,
and says nothing that the bus did not refuse. -/
theorem failed_cases {result : op.Result} (hd : b.transports.Distinct)
    (h : (b.perform op).Yields es (result, b')) (failed : op.failed result = true) :
    b' = b.afterFailure op ∧ b.FailureSays op result es := by
  by_cases hop : op.isLocal = true
  · have hpure := perform_of_failed hd hop h failed
    rw [hpure] at h
    obtain ⟨rfl, heq⟩ := yields_pure.mp h
    cases heq
    refine ⟨rfl, ?_⟩
    cases op <;> first | rfl | cases hop
  · cases op with
    | create endpoint device configuration =>
      rcases create_cases h with ⟨fault, rfl, rfl, hes⟩ |
        ⟨t, transports, -, -, rfl, -, -⟩
      · refine ⟨rfl, ?_⟩
        rcases hes with ⟨hfault, rfl⟩ | ⟨rfl, t, hcreate, rfl⟩
        · cases fault <;> first | rfl | exact absurd rfl hfault
        · exact ⟨t, hcreate, rfl⟩
      · cases failed
    | runDeferred | dispatch _ _ _ _ | handle _ => cases failed
    | remove _ | acquire _ _ _ _ | release _ _ _ | properties _ | setProperty _ _ _
    | exit _ | a2dpResumed _ _ | voiceConnected _ _ | reportDelay _ _ =>
      exact absurd rfl hop

end Broker

/-- A method fails exactly when it comes to a fault. -/
theorem Operation.failed_operation {path client : String} {call : PendingCall}
    {method : Method} (result : (method.operation path client call).Result) :
    (method.operation path client call).failed result =
      ((method.operation path client call).fault? result).isSome := by
  cases method <;> rfl

/-- In every state that can be reached an operation that fails, whatever its
arguments and whatever the peers answer, has done nothing. The transports, the queue
and all else are as they were, but that a request for access which a live transport
turns down uses up the number of an owner. Nothing is said, but that a transport
which the bus refuses was offered to it. A request for access that is turned down
hands back the call that it came with. And where a method fails, the method call
leaves the broker in the same state, and what it says more is one answer to the
call, with the fault. -/
theorem Run.failures_are_atomic {options : Options} {steps : List Step} {b : Broker}
    (run : Run (.empty options) steps b) :
    (∀ op es result b', (b.perform op).Yields es (result, b') →
        op.failed result = true →
        b' = b.afterFailure op ∧ b.FailureSays op result es) ∧
      (∀ path client access call es rejection b',
        (b.perform (.acquire path client access call)).Yields es
          (.error rejection, b') → rejection.call = call) ∧
      ∀ path client call (method : Method) es result b₁ fault,
        (b.perform (method.operation path client call)).Yields es (result, b₁) →
          (method.operation path client call).fault? result = some fault →
            ∀ es' b', (b.dispatch path client call method).Yields es' b' →
              b' = b₁ ∧ ∃ delivery,
                es' = es ++ [⟨.reply call (.failure fault), delivery⟩] := by
  refine ⟨fun op es result b' h failed => Broker.failed_cases run.distinct h failed,
    ?_, ?_⟩
  · intro path client access call es rejection b' h
    rcases Broker.acquire_result h with ⟨-, hresult⟩ | ⟨-, fault, hresult⟩
    · cases hresult
    · cases hresult
      rfl
  · intro path client call method es result b₁ fault h hfault es' b' hdispatch
    -- the operation of the method is over at once, so that it comes to nothing else
    -- in the method call
    have hpure := Broker.perform_of_failed run.distinct
      (Operation.isLocal_operation path client call method) h
      (by rw [Operation.failed_operation, hfault]; rfl)
    obtain ⟨result', es₁, es₂, h₁, rfl, hanswer⟩ := Broker.dispatch_cases hdispatch
    rw [hpure] at h h₁
    obtain ⟨rfl, heq⟩ := yields_pure.mp h
    cases heq
    obtain ⟨rfl, heq⟩ := yields_pure.mp h₁
    cases heq
    refine ⟨rfl, ?_⟩
    rcases hanswer with ⟨-, hnone⟩ | ⟨reply, delivery, rfl, hreply⟩
    · rw [hfault] at hnone
      cases hnone
    · rw [hreply fault hfault]
      exact ⟨delivery, rfl⟩

/-- A transport that one client owns, for reading and writing. -/
def Scene.owned : List (Script × Operation) :=
  [({}, .create speaker device []), ({}, acquire ":1" "rw" 1)]

/-- A client asks for what is taken, once as a request and once as a method call. -/
theorem Run.second_client_is_turned_down :
    ∃ steps b es result b₁ es' b' delivery, Run (.empty {}) steps b ∧
      (b.perform (Scene.acquire ":2" "r" 2)).Yields es (result, b₁) ∧ es = [] ∧
      b₁ = b.afterFailure
        (Scene.acquire ":2" "r" 2) ∧ b₁.nextOwner = b.nextOwner.next ∧
      (b.dispatch "/dev/fd0" ":2" ⟨2⟩ (.acquire ⟨"r", by decide⟩)).Yields es' b' ∧
      b' = b₁ ∧
      es' = [⟨.reply ⟨2⟩ (.failure .permissionDenied), delivery⟩] := by
  have run := Broker.run_play Script.peers (.empty {}) Scene.owned
  have hfailed :
      (Scene.acquire ":2" "r" 2).fault?
        ((((Broker.empty {}).played Script.peers Scene.owned).perform
          (Scene.acquire ":2" "r" 2)).run Script.peers {}).value.1 =
        some .permissionDenied := by decide
  have hnumber : (((Broker.empty {}).played Script.peers Scene.owned).afterFailure
      (Scene.acquire ":2" "r" 2)).nextOwner =
        ((Broker.empty {}).played Script.peers Scene.owned).nextOwner.next := by
          decide
  generalize (Broker.empty {}).played Script.peers Scene.owned = b
    at run hfailed hnumber
  -- the same request, once by itself and once as a method call
  have hrequest := yields_run Script.peers (b.perform (Scene.acquire ":2" "r" 2)) {}
  have hcall := yields_run Script.peers
    (b.dispatch "/dev/fd0" ":2" ⟨2⟩ (.acquire ⟨"r", by decide⟩)) {}
  obtain ⟨hafter, hsays⟩ := run.failures_are_atomic.1
    (Scene.acquire ":2" "r" 2) _ _ _ hrequest
    (Option.isSome_iff_exists.mpr ⟨_, hfailed⟩)
  obtain ⟨hsame, delivery, hanswer⟩ := run.failures_are_atomic.2.2 "/dev/fd0" ":2" ⟨2⟩
    (.acquire ⟨"r", by decide⟩) _ _ _ _ hrequest hfailed _ _ hcall
  refine ⟨_, _, _, _, _, _, _, delivery, run, hrequest, hsays, hafter, ?_, hcall,
    hsame, ?_⟩
  · rw [hafter, hnumber]
  · have hnothing :
      ((b.perform (Scene.acquire ":2" "r" 2)).run Script.peers {}).exchanges = [] :=
        hsays
    rw [hanswer, hnothing]
    rfl

end AudioBroker
