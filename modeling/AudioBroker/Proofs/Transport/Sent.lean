import AudioBroker.Proofs.Transport.Sweep

/-!
# The descriptors that are sent

The descriptor of a stream is sent to answer a call, and what comes back tells
whether it was delivered. Whatever else is said, to begin a start, to end an owner
or to ask something, sends no descriptor.

- `Sending`, `sendings`: the descriptors that are sent, with the calls that they
  answer.
- `Unsent`: no descriptor is sent; `Transport.unsent_parting`, `unsent_endFirst`,
  `unsent_sweepCalls`: so it is when owners end.
-/

namespace AudioBroker

open Dialogue

/-- A descriptor that was sent to answer a call, and what became of it. -/
structure Sending where
  call : PendingCall
  fd : StreamFd
  delivery : Delivery
  deriving DecidableEq

/-- The descriptor that is sent in an exchange. -/
def Exchange.sending? : Exchange → Option Sending
  | ⟨.reply call (.descriptor fd), delivery⟩ => some ⟨call, fd, delivery⟩
  | _ => none

/-- The descriptors that are sent in some exchanges. -/
def sendings (es : List Exchange) : List Sending := es.filterMap Exchange.sending?

/-! ### No descriptor is sent -/

/-- A call that sends a descriptor. -/
def Call.sends : Call → Bool
  | .reply _ (.descriptor _) => true
  | _ => false

/-- No descriptor is sent. -/
def Unsent (es : List Exchange) : Prop := ∀ e ∈ es, e.call.sends = false

theorem unsent_nil : Unsent [] := List.forall_mem_nil _

/-- No descriptor is sent in two parts if none is in either. -/
theorem Unsent.append {es es' : List Exchange} (h : Unsent es) (h' : Unsent es') :
    Unsent (es ++ es') := by
  intro e he
  exact (List.mem_append.mp he).elim (h e) (h' e)

theorem Unsent.sendings_eq {es : List Exchange} (h : Unsent es) :
    sendings es = [] := by
  refine List.filterMap_eq_nil_iff.mpr fun e he => ?_
  obtain ⟨call, answer⟩ := e
  have hnot := h _ he
  unfold Exchange.sending?
  split
  · next heq =>
    cases heq
    cases hnot
  · rfl

/-- Whether a descriptor is sent can be seen from the calls. -/
theorem unsent_of_calls {es : List Exchange} {cs : List Call}
    (h : es.map Exchange.call = cs) (hcs : ∀ c ∈ cs, c.sends = false) : Unsent es :=
  fun _ he => hcs _ (h ▸ List.mem_map_of_mem he)

theorem unsent_of_isQuery {es : List Exchange}
    (h : ∀ e ∈ es, e.call.isQuery = true) : Unsent es := by
  intro e he
  have hquery := h e he
  revert hquery
  cases e.call <;> simp [Call.isQuery, Call.sends]

/-- A start sends no descriptor; its end does. -/
theorem unsent_of_isStarting {es : List Exchange}
    (h : ∀ e ∈ es, e.call.isStarting = true) : Unsent es := by
  intro e he
  have hstarting := h e he
  revert hstarting
  cases e.call <;> simp [Call.isStarting, Call.sends]

/-- To give the lock back sends nothing to a client. -/
theorem Call.sends_of_isUnlock {c : Call} (h : c.isUnlock = true) :
    c.sends = false := by
  cases c <;> first | rfl | cases h

theorem Backend.sends_abortCall (b : Backend) (device : Device)
    (request : RequestId) :
    (b.abortCall device request).sends = false := by
  cases b <;> rfl

/-- What closes what an owner holds sends no descriptor. -/
theorem Owner.sends_partingCalls (o : Owner) (b : Backend) (device : Device) :
    ∀ c ∈ o.partingCalls b device, c.sends = false :=
  o.forall_partingCalls (P := fun c => c.sends = false) b device (fun _ => rfl)
    (b.sends_abortCall device) fun _ => rfl

namespace Transport

variable {t t' : Transport} {es : List Exchange} {i : Nat}

/-- The end of an owner sends no descriptor. -/
theorem unsent_parting (h : es.map Exchange.call = t.partingCalls i) : Unsent es :=
  unsent_of_calls h (t.forall_partingCalls i (fun _ => rfl)
    (t.backend.sends_abortCall t.device) (fun _ => rfl)
    fun _ => Call.sends_of_isUnlock)

/-- Owners that are torn down are sent no descriptor. -/
theorem unsent_endFirst {n : Nat} (h : (t.endFirst n).Yields es t') : Unsent es := by
  induction n generalizing t es with
  | zero =>
    obtain ⟨rfl, -⟩ := yields_pure.mp h
    exact unsent_nil
  | succ n ih =>
    obtain ⟨es₁, es₂, rfl, hcalls, hrest⟩ := endFirst_succ_cases h
    exact (unsent_parting hcalls).append (ih hrest)

theorem unsent_sweepCalls (t : Transport) : ∀ c ∈ t.sweepCalls, c.sends = false := by
  intro c hc
  rcases List.mem_append.mp hc with hc | hc
  · obtain ⟨o, -, hc⟩ := List.mem_flatMap.mp hc
    exact o.sends_partingCalls t.backend t.device c hc
  · split at hc
    · exact Call.sends_of_isUnlock (Backend.isUnlock_of_mem hc)
    · cases hc

end Transport

end AudioBroker
