import AudioBroker.Proofs.Broker.Deed

/-!
# Visits

Apart from a creation and from the emptying of the queue, an operation visits the
one transport that it names, and no other.

- `Operation.core_cases`, `Broker.creates_drains_or_local`: every operation is a
  creation, a drain, or like one on one transport.
- `Broker.Visit`: what an operation can do with the transport that it names.
- `Broker.creates_drains_or_visits`: every other operation is of this kind.
-/

namespace AudioBroker

open Dialogue

namespace Operation

/-- A method call is about one transport. -/
theorem isLocal_operation (path client : String) (call : PendingCall)
    (method : Method) :
    (method.operation path client call).isLocal = true := by
  cases method <;> rfl

/-- A method call names the transport at its path. -/
theorem addressee?_operation (b : Broker) (path client : String)
    (call : PendingCall) (method : Method) :
    (method.operation path client call).addressee? b = b.idAt? path := by
  cases method <;> rfl

theorem addressee?_event (b : Broker) (event : Event) :
    event.operation.addressee? b = (Operation.handle event).addressee? b := by
  cases event <;> rfl

/-- An operation creates a transport, empties the queue, or works on one transport
in the end. -/
theorem core_cases (op : Operation) :
    (∃ endpoint device configuration, op = .create endpoint device configuration) ∨
      op = .runDeferred ∨ op.core.isLocal = true := by
  cases op with
  | create endpoint device configuration => exact .inl ⟨_, _, _, rfl⟩
  | runDeferred => exact .inr (.inl rfl)
  | dispatch path client call method =>
    exact .inr (.inr (isLocal_operation path client call method))
  | handle event =>
    cases event with
    | call path client call method =>
      exact .inr (.inr (isLocal_operation path.str client.str call method))
    | exited _ | a2dpResumed _ _ | voiceConnected _ _ | delayed _ _ =>
      exact .inr (.inr rfl)
  | remove _ | acquire _ _ _ _ | release _ _ _ | properties _ | setProperty _ _ _
  | exit _ | a2dpResumed _ _ | voiceConnected _ _ | reportDelay _ _ =>
    exact .inr (.inr rfl)

end Operation

namespace Broker

variable {b b' : Broker} {op op' : Operation} {t : Transport}
  {es es' : List Exchange} {r' : Registry}

/-- Whatever creates no transport and does not empty the queue comes down to an
operation on one transport, and leaves the broker as that operation does. -/
theorem creates_drains_or_local {result : op.Result}
    (h : (b.perform op).Yields es (result, b')) :
    (∃ endpoint device configuration, op = .create endpoint device configuration) ∨
      op = .runDeferred ∨
      ∃ (op' : Operation) (result' : op'.Result) (es' : List Exchange),
        op'.isLocal = true ∧ (b.perform op').Yields es' (result', b') := by
  obtain ⟨result', es₁, answer, h₁, -, -⟩ := perform_core h
  rcases op.core_cases with hcreates | hdrains | hlocal
  · exact .inl hcreates
  · exact .inr (.inl hdrains)
  · exact .inr (.inr ⟨op.core, result', es₁, hlocal, h₁⟩)

/-! ### Visits -/

/-- What an operation can do with the transport that it names. Meanwhile the peers
are asked, and calls are answered. -/
inductive Visit (b : Broker) (op : Operation) : List Exchange → Registry → Prop where
  | aside {es : List Exchange} (plain : ∀ e ∈ es, e.call.isPlain = true) :
      Visit b op es b.transports
  | moved {t t' : Transport} {ls : List Incident} {es es' : List Exchange}
      (target : op.target? b = some t)
      (course : t.Course ls es t') (plain : ∀ e ∈ es', e.call.isPlain = true) :
      Visit b op (es ++ es') (b.transports.replace t')
  | removed {t t' : Transport} {es es' : List Exchange} (names : op = .remove t.id)
      (target : op.target? b = some t) (ends : t.endAll.Yields es t')
      (closing : es'.map Exchange.call = t'.backend.closeCalls) :
      Visit b op (⟨.unregister t.path, ()⟩ :: (es ++ es')) (b.transports.erase t.id)

/-- What an operation comes down to visits the same transport; more may be
answered. -/
theorem Visit.of_operation (h : b.Visit op' es r')
    (addressee : op'.addressee? b = op.addressee? b)
    (stays : ∀ id, op' ≠ .remove id) (plain : ∀ e ∈ es', e.call.isPlain = true) :
    b.Visit op (es ++ es') r' := by
  have htarget : op'.target? b = op.target? b := by
    rw [Operation.target?, addressee, Operation.target?]
  cases h with
  | aside plain₁ =>
    exact .aside fun e he => (List.mem_append.mp he).elim (plain₁ e) (plain e)
  | moved target course plain₁ =>
    rw [List.append_assoc]
    exact .moved (htarget ▸ target) course fun e he =>
      (List.mem_append.mp he).elim (plain₁ e) (plain e)
  | removed names _ _ _ => exact absurd names (stays _)

theorem local_visit {result : op.Result} (hd : b.transports.Distinct)
    (hop : op.isLocal = true) (h : (b.perform op).Yields es (result, b')) :
    b.Visit op es b'.transports := by
  rcases perform_cases hd hop h with ⟨-, -, rfl, rfl⟩ |
    ⟨t, es₁, d, es₂, target, -, spec, @⟨left, deferred, settled, -⟩, rfl, -⟩
  · exact .aside (by simp)
  · show b.Visit op _ (b.transports.put t.id left)
    -- of the ways to settle, only those fit that agree with whether an owner was
    -- marked
    cases spec with
    | kept course _ =>
      cases settled with
      | kept _ => exact .moved target course (by simp)
      | queued marked _ => cases marked
      | full _ marked _ _ _ _ => cases marked
    | marked course _ _ _ =>
      cases settled with
      | kept nobody => cases nobody
      | queued _ _ => exact .moved target course (by simp)
      | full left _ _ _ _ parting =>
        cases left
        rw [← List.append_nil (_ ++ _)]
        exact .moved target (course.append (Transport.endAt_course parting)) (by simp)
    | removed names ends closing =>
      cases settled with
      | kept _ =>
        rw [List.append_nil]
        exact .removed names target ends closing
      | queued marked _ => cases marked
      | full left _ _ _ _ _ => cases left

theorem dispatch_visit {path client : String} {call : PendingCall} {method : Method}
    (hd : b.transports.Distinct)
    (h : (b.dispatch path client call method).Yields es b') :
    b.Visit (.dispatch path client call method) es b'.transports := by
  obtain ⟨result, es₁, es₂, h₁, rfl, hanswer⟩ := dispatch_cases h
  refine (local_visit hd (Operation.isLocal_operation path client call method)
    h₁).of_operation
    (Operation.addressee?_operation b path client call method) ?_ ?_
  · cases method <;> exact nofun
  · rcases hanswer with ⟨rfl, -⟩ | ⟨reply, delivery, rfl, -⟩ <;> simp [Call.isPlain]

theorem handle_visit {event : Event} (hd : b.transports.Distinct)
    (h : (b.handle event).Yields es b') :
    b.Visit (.handle event) es b'.transports := by
  obtain ⟨result, h₁⟩ := handle_cases h
  -- an event is a method call, or it is a report, which is local
  have hvisit : b.Visit event.operation es b'.transports := by
    cases event with
    | call path client call method =>
      obtain ⟨a, ha, h⟩ := yields_map.mp h₁
      cases h
      exact dispatch_visit hd ha
    | exited _ | a2dpResumed _ _ | voiceConnected _ _ | delayed _ _ =>
      exact local_visit hd rfl h₁
  have hplain : b.Visit (.handle event) (es ++ []) b'.transports :=
    hvisit.of_operation (Operation.addressee?_event b event)
      (by cases event <;> exact nofun) (by simp)
  rwa [List.append_nil] at hplain

/-- An operation creates a transport, empties the queue, or visits the transport
that it names. -/
theorem creates_drains_or_visits {result : op.Result} (hd : b.transports.Distinct)
    (h : (b.perform op).Yields es (result, b')) :
    (∃ endpoint device configuration, op = .create endpoint device configuration) ∨
      op = .runDeferred ∨ b.Visit op es b'.transports := by
  cases op with
  | create endpoint device configuration => exact .inl ⟨_, _, _, rfl⟩
  | runDeferred => exact .inr (.inl rfl)
  | dispatch path client call method =>
    obtain ⟨a, ha, h⟩ := yields_map.mp h
    cases h
    exact .inr (.inr (dispatch_visit hd ha))
  | handle event =>
    obtain ⟨a, ha, h⟩ := yields_map.mp h
    cases h
    exact .inr (.inr (handle_visit hd ha))
  | remove _ | acquire _ _ _ _ | release _ _ _ | properties _ | setProperty _ _ _
  | exit _ | a2dpResumed _ _ | voiceConnected _ _ | reportDelay _ _ =>
    exact .inr (.inr (local_visit hd rfl h))

/-- Only the transport that is named is seen to change. -/
theorem Visit.get?_of_ne {id : TransportId} (h : b.Visit op es r')
    (hne : op.addressee? b ≠ some id) :
    r'.get? id = b.transports.get? id := by
  cases h with
  | aside _ => rfl
  | moved target course _ =>
    obtain ⟨hnames, -⟩ := Operation.target?_eq_some target
    refine Registry.get?_replace_of_ne _ fun hid => hne ?_
    rw [hnames, hid, course.id_eq]
  | removed _ target _ _ =>
    obtain ⟨hnames, -⟩ := Operation.target?_eq_some target
    exact Registry.get?_erase_of_ne _ fun hid => hne (hid ▸ hnames)

end Broker

end AudioBroker
