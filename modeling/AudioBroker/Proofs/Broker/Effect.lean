import AudioBroker.Proofs.Run
import AudioBroker.Proofs.Transport.Move

/-!
# The effect of an operation on the live transports

Each operation opens a transport, closes one, takes one through a course, or leaves
all as they are, or does several of these in a row. What the peers are told and what
else happens goes with it.

- `Registry.Effect`: what can become of the live transports; `Registry.Outcome` adds
  a creation.
- `Operation.incidents`: the incidents of an operation, which depend on the broker
  before it and on what comes back.
- `Step.outcome`: the step that every theorem about runs is proved for.
-/

namespace AudioBroker

open Dialogue

/-- What can become of the live transports, with the incidents and with what is
said, unless a transport is created. -/
inductive Registry.Effect : Registry → List Incident → List Exchange → Registry →
    Prop where
  /-- Nothing happens. -/
  | still (r : Registry) : Effect r [] [] r
  /-- The peers are asked something. -/
  | asked {r : Registry} {es : List Exchange}
      (queries : ∀ e ∈ es, e.call.isQuery = true) : Effect r [] es r
  /-- A call is answered at once. -/
  | answered {r : Registry} (call : PendingCall) (reply : Reply)
      (delivery : Delivery) :
      Effect r [.answered call] [⟨.reply call reply, delivery⟩] r
  /-- A transport moves. -/
  | moved {r : Registry} {t t' : Transport} {ls : List Incident} {es : List Exchange}
      (live : r.get? t.id = some t) (course : t.Course ls es t') :
        Effect r ls es (r.replace t')
  /-- A transport is closed, once nobody owns it. -/
  | closed {r : Registry} {t t' : Transport} {es es' : List Exchange}
      (live : r.get? t.id = some t) (course : t.Course [] es t')
      (vacant : t'.owners.toList = [])
      (closing : es'.map Exchange.call = t'.backend.closeCalls) :
      Effect r [] (⟨.unregister t.path, ()⟩ :: (es ++ es')) (r.erase t.id)
  /-- One thing after another. Nobody is admitted by any but the first. -/
  | seq {r r₁ r' : Registry} {ls ls' : List Incident} {es es' : List Exchange}
      (first : Effect r ls es r₁) (next : Effect r₁ ls' es' r') (calm : Calm ls') :
      Effect r (ls ++ ls') (es ++ es') r'

/-- What an operation can come to for the live transports. -/
inductive Registry.Outcome :
    Registry → List Incident → List Exchange → Registry → Prop where
  | effect {r r' : Registry} {ls : List Incident} {es : List Exchange}
      (effect : Effect r ls es r') : Outcome r ls es r'
  /-- The bus takes no transport at a path. -/
  | refused {r : Registry} (path : ObjectPath) :
      Outcome r [] [⟨.register path, false⟩] r
  /-- A transport is opened; one that has its number is displaced. -/
  | opened {r r' : Registry} {id : TransportId} {endpoint : Endpoint}
      {device : Device}
      {configuration : List UInt8} {options : Options} {t : Transport}
      (created : Transport.create id endpoint device configuration options = .ok t)
      (insert : r.insert? t = some r') :
      Outcome r ((r.get? id).toList.map .displaced) [⟨.register t.path, true⟩] r'

namespace Broker

/-- Whether a client's request for access is admitted. -/
def admits (b : Broker) (path client access : String) : Bool :=
  match b.transportAt? path with
  | none => false
  | some t => (t.admission client access).toBool

/-- The live owner that a token names. -/
def owner? (b : Broker) (token : Token) : Option Owner :=
  (b.transports.get? token.transport).bind fun t =>
    (t.owner? token.owner).map Prod.snd

/-- Whether the answer to a method call is left for later, as that to an admitted
`Acquire` is. -/
def defersAnswer (b : Broker) (path client : String) : Method → Bool
  | .acquire access => b.admits path client access.str
  | _ => false

/-- What happens to a method call. -/
def callIncidents (b : Broker) (path client : String) (call : PendingCall)
    (method : Method) :
    List Incident :=
  if b.defersAnswer path client method then [.admitted call] else [.answered call]

end Broker

/-- The incidents of an operation. -/
def Operation.incidents (b : Broker) : (op : Operation) → op.Result → List Incident
  | .create _ _ _, .ok id => (b.transports.get? id).toList.map .displaced
  | .acquire path client access call, _ =>
    if b.admits path client access then [.admitted call] else []
  | .exit token, _ => (b.owner? token).toList.map .departed
  | .dispatch path client call method, _ => b.callIncidents path client call method
  | .handle (.call path client call method), _ =>
    b.callIncidents path.str client.str call method
  | .handle (.exited token), _ => (b.owner? token).toList.map .departed
  | _, _ => []

/-- The incidents of a step. -/
def Step.incidents (s : Step) : List Incident := s.op.incidents s.before s.result

/-- The incidents of a list of steps. -/
def incidents (steps : List Step) : List Incident := steps.flatMap Step.incidents

@[simp] theorem incidents_nil : incidents [] = [] := rfl

@[simp] theorem incidents_append (steps rest : List Step) :
    incidents (steps ++ rest) = incidents steps ++ incidents rest := by
  simp [incidents]

@[simp] theorem incidents_singleton (s : Step) : incidents [s] = s.incidents := by
  simp [incidents]

/-! ### Opening a transport -/

/-- What a transport is like that was just created. -/
theorem Transport.create_eq_ok {id : TransportId} {endpoint : Endpoint}
    {device : Device} {configuration : List UInt8} {options : Options}
    {t : Transport}
    (h : Transport.create id endpoint device configuration options = .ok t) :
    t.id = id ∧ t.device = device ∧ t.endpoint = endpoint ∧
      t.configuration.toList = configuration ∧
      Backend.ofEndpoint? endpoint options = some t.backend ∧
      t.path.str = pathText device id ∧
      t.stream = none ∧ t.delay = 0 ∧ t.locks = ∅ ∧ t.inUse = false ∧
      t.owners = ∅ := by
  unfold Transport.create at h
  split at h
  · cases h
  · next backend hbackend =>
    split at h
    · next conf path hconf hpath =>
      cases h
      exact ⟨rfl, rfl, rfl, BoundedList.ofList?_eq_some_iff.mp hconf, hbackend,
        Text.ofString?_eq_some_iff.mp hpath, rfl, rfl, rfl, rfl, rfl⟩
    · cases h

/-- A transport that does not fit fails by itself, and not for the bus. -/
theorem Transport.create_eq_error {id : TransportId} {endpoint : Endpoint}
    {device : Device} {configuration : List UInt8} {options : Options}
    {fault : Fault}
    (h : Transport.create id endpoint device configuration options = .error fault) :
    fault ≠ .registrationFailed := by
  unfold Transport.create at h
  split at h
  · cases h
    decide
  · split at h
    · cases h
    · cases h
      decide

theorem Transport.owners_of_create {id : TransportId} {endpoint : Endpoint}
    {device : Device} {configuration : List UInt8} {options : Options}
    {t : Transport}
    (h : Transport.create id endpoint device configuration options = .ok t) :
    t.owners.toList = [] := by
  obtain ⟨-, -, -, -, -, -, -, -, -, -, howners⟩ := create_eq_ok h
  rw [howners]
  rfl

namespace Broker

variable {b b' : Broker} {es : List Exchange}

theorem get?_of_transportAt? {path : String} {t : Transport}
    (h : b.transportAt? path = some t) :
    b.transports.get? t.id = some t := by
  obtain ⟨id, -, hget⟩ := Option.bind_eq_some_iff.mp h
  rwa [(Registry.get?_eq_some hget).2]

/-- What is found by its path is found by its number. -/
theorem transportAt?_eq (h : b.transports.Distinct) (path : String) :
    b.transportAt? path = b.transports.find? path := by
  rw [transportAt?, idAt?]
  cases hfind : b.transports.find? path with
  | none => rfl
  | some t => exact h.get?_of_mem (Registry.find?_eq_some hfind).1

/-- A creation fails and changes nothing, or it opens a transport under the next
number. Only the bus can refuse a transport that fits. -/
theorem create_cases {endpoint : Endpoint} {device : Device}
    {configuration : List UInt8} {result : Except Fault TransportId}
    (h : (b.create endpoint device configuration).Yields es (result, b')) :
    (∃ fault, result = .error fault ∧ b' = b ∧
        ((fault ≠ .registrationFailed ∧ es = []) ∨ (fault = .registrationFailed ∧
          ∃ t,
            Transport.create b.nextTransport endpoint device configuration
              b.options = .ok t ∧
            es = [⟨.register t.path, false⟩]))) ∨
      ∃ t transports,
        Transport.create b.nextTransport endpoint device configuration b.options =
          .ok t ∧
        b.transports.insert? t = some transports ∧ result = .ok t.id ∧
        es = [⟨.register t.path, true⟩] ∧
        b' = { b with transports, nextTransport := b.nextTransport.next } := by
  unfold create at h
  split at h
  · obtain ⟨rfl, h⟩ := yields_pure.mp h
    cases h
    exact .inl ⟨_, rfl, rfl, .inl ⟨nofun, rfl⟩⟩
  · next hroom =>
    split at h
    · next fault hcreate =>
      obtain ⟨rfl, h⟩ := yields_pure.mp h
      cases h
      exact .inl ⟨fault, rfl, rfl, .inl ⟨Transport.create_eq_error hcreate, rfl⟩⟩
    · next t hcreate =>
      obtain ⟨es₁, taken, es₂, rfl, h₁, h₂⟩ := yields_bind.mp h
      obtain rfl := Call.yields_make.mp h₁
      cases taken with
      | false =>
        obtain ⟨rfl, h₂⟩ := yields_pure.mp h₂
        cases h₂
        exact .inl ⟨_, rfl, rfl, .inr ⟨rfl, t, hcreate, rfl⟩⟩
      | true =>
        cases hinsert : b.transports.insert? t with
        | some transports =>
          simp only [hinsert, if_true] at h₂
          obtain ⟨rfl, h₂⟩ := yields_pure.mp h₂
          cases h₂
          exact .inr ⟨t, transports, hcreate, hinsert, rfl, rfl, rfl⟩
        | none =>
          -- there is room, so that the roll-back never comes
          unfold Registry.insert? at hinsert
          split at hinsert
          · cases hinsert
          · rw [BoundedList.push?_eq_none_iff] at hinsert
            simp [hinsert] at hroom

/-- Creating a transport comes to nothing, to a refusal of the bus, or to a new
transport. -/
theorem create_outcome {endpoint : Endpoint} {device : Device}
    {configuration : List UInt8} {result : Except Fault TransportId}
    (h : (b.create endpoint device configuration).Yields es (result, b')) :
    Registry.Outcome b.transports
      (Operation.incidents b (.create endpoint device configuration) result) es
        b'.transports := by
  rcases create_cases h with ⟨fault, rfl, rfl, hes⟩ |
    ⟨t, transports, hcreate, hinsert, rfl, rfl, rfl⟩
  · rcases hes with ⟨-, rfl⟩ | ⟨-, t, -, rfl⟩
    · exact .effect (.still _)
    · exact .refused t.path
  · have hopened := Registry.Outcome.opened hcreate hinsert
    rwa [← (Transport.create_eq_ok hcreate).1] at hopened

/-! ### Closing a transport -/

/-- There is one answer only to the withdrawal of an object. -/
theorem yields_unregister {path : ObjectPath} {u : Unit}
    (h : (makeAll [.unregister path]).Yields es u) :
    es = [⟨.unregister path, ()⟩] := by
  obtain ⟨⟨call, answer⟩, rfl, rfl⟩ :=
    List.map_eq_singleton_iff.mp (yields_makeAll.mp h)
  rfl

/-- What withdrawing a transport comes to: it leaves the bus, its owners end, and its
session is given back. -/
theorem remove_cases {id : TransportId} {known : Bool}
    (h : (b.remove id).Yields es (known, b')) :
    (b.transports.get? id = none ∧ known = false ∧ es = [] ∧ b' = b) ∨
      ∃ t es₁ t' es₂, b.transports.get? id = some t ∧ known = true ∧
        t.endAll.Yields es₁ t' ∧ es₂.map Exchange.call = t'.backend.closeCalls ∧
        es = ⟨.unregister t.path, ()⟩ :: (es₁ ++ es₂) ∧
        b' = { b with transports := b.transports.erase id } := by
  unfold remove at h
  split at h
  · next hget =>
    obtain ⟨rfl, h⟩ := yields_pure.mp h
    cases h
    exact .inl ⟨hget, rfl, rfl, rfl⟩
  · next t hget =>
    obtain ⟨es₀, u, es', rfl, h₀, h⟩ := yields_bind.mp h
    obtain ⟨es₁, t', es₂, rfl, h₁, h₂⟩ := yields_bind.mp h
    obtain ⟨hclosing, hb⟩ := yields_makeAll_pure.mp h₂
    cases hb
    obtain rfl := yields_unregister h₀
    exact .inr ⟨t, es₁, t', es₂, hget, rfl, h₁, hclosing, rfl, rfl⟩

theorem remove_effect {id : TransportId} {known : Bool}
    (h : (b.remove id).Yields es (known, b')) :
    Registry.Effect b.transports [] es b'.transports := by
  rcases remove_cases h with ⟨-, -, rfl, rfl⟩ |
    ⟨t, es₁, t', es₂, hget, -, h₁, hclosing, rfl, rfl⟩
  · exact .still _
  · obtain ⟨-, rfl⟩ := Registry.get?_eq_some hget
    exact .closed hget (Transport.endFirst_course h₁)
      (Transport.endAll_owners h₁) hclosing

/-! ### The other operations -/

/-- An operation on a transport that is looked up first comes to something by itself
where there is none, and else to what it does with the transport. -/
theorem lookup_cases {α β : Type} {found : Option Transport}
    {d : Transport → Dialogue α} {idle out : β} {finish : α → β}
    (h : (match found with
      | none => pure idle
      | some t => d t >>= fun a => pure (finish a) : Dialogue β).Yields es out) :
    (found = none ∧ out = idle ∧ es = []) ∨
      ∃ t a, found = some t ∧ (d t).Yields es a ∧ out = finish a := by
  cases found with
  | none =>
    obtain ⟨rfl, rfl⟩ := yields_pure.mp h
    exact .inl ⟨rfl, rfl, rfl⟩
  | some t =>
    obtain ⟨es₁, a, es₂, rfl, h₁, h₂⟩ := yields_bind.mp h
    obtain ⟨rfl, rfl⟩ := yields_pure.mp h₂
    exact .inr ⟨t, a, rfl, by simpa using h₁, rfl⟩

/-- An operation of a transport whose result is handed on, and which stores the
transport. -/
theorem carried_cases {α : Type} {found : Option Transport} {missing result : α}
    {d : Transport → Dialogue (α × Transport)} {keep : Transport → Broker}
    (h : (match found with
      | none => pure (missing, b)
      | some t =>
        d t >>= fun p => pure (p.1, keep p.2) : Dialogue (α × Broker)).Yields es
        (result, b')) :
    (found = none ∧ result = missing ∧ es = [] ∧ b' = b) ∨
      ∃ t t', found = some t ∧ (d t).Yields es (result, t') ∧ b' = keep t' := by
  rcases lookup_cases h with ⟨hnone, hout, rfl⟩ | ⟨t, ⟨r, t'⟩, ht, h₁, hout⟩
  · cases hout
    exact .inl ⟨hnone, rfl, rfl, rfl⟩
  · cases hout
    exact .inr ⟨t, t', ht, h₁, rfl⟩

/-- An operation on a transport stores what has become of it. -/
theorem store_effect {id : TransportId} {t t' : Transport} {ls : List Incident}
    (hget : b.transports.get? id = some t) (course : t.Course ls es t') :
    Registry.Effect b.transports ls es (b.store t').transports := by
  obtain ⟨-, rfl⟩ := Registry.get?_eq_some hget
  exact .moved hget course

/-- A request for access is turned down for want of a transport, or is up to the
transport; then a number is used up. -/
theorem acquire_cases {path client text : String} {call : PendingCall}
    {result : Except Rejection Unit}
    (h : (b.acquire path client text call).Yields es (result, b')) :
    (b.transportAt? path = none ∧ result = .error { fault := .doesNotExist, call } ∧
        es = [] ∧ b' = b) ∨
      ∃ t t', b.transportAt? path = some t ∧
        (t.acquire client text call b.nextOwner).Yields es (result, t') ∧
        b' = { b.store t' with nextOwner := b.nextOwner.next } :=
  carried_cases h

/-- A request for access moves the transport, and it admits somebody or nobody. -/
theorem acquire_effect {path client text : String} {call : PendingCall}
    {result : Except Rejection Unit}
    (h : (b.acquire path client text call).Yields es (result, b')) :
    Registry.Effect b.transports
      (if b.admits path client text then [.admitted call] else []) es
      b'.transports := by
  unfold admits
  rcases acquire_cases h with ⟨hnone, -, rfl, rfl⟩ | ⟨t, t', ht, h₁, rfl⟩
  · rw [hnone]
    exact .still _
  · rw [ht]
    exact store_effect (get?_of_transportAt? ht) (Transport.acquire_course h₁)

/-- A request for access comes back well exactly when it was admitted; else its call
is handed back. -/
theorem acquire_result {path client text : String} {call : PendingCall}
    {result : Except Rejection Unit}
    (h : (b.acquire path client text call).Yields es (result, b')) :
    (b.admits path client text = true ∧ result = .ok ()) ∨
      (b.admits path client text = false ∧ ∃ fault,
        result = .error { fault, call }) := by
  unfold admits
  rcases acquire_cases h with ⟨hnone, rfl, -, -⟩ | ⟨t, t', ht, h₁, -⟩
  · rw [hnone]
    exact .inr ⟨rfl, _, rfl⟩
  · rw [ht]
    rcases Transport.acquire_cases h₁
      with ⟨fault, ha, rfl, -, -⟩ | ⟨name, access, ha, rfl, -⟩
    · simp [ha, Except.toBool]
    · simp [ha, Except.toBool]

/-- A release is turned down for want of a transport, or is up to the transport. -/
theorem release_cases {path client text : String} {result : Except Fault Unit}
    (h : (b.release path client text).Yields es (result, b')) :
    (b.transportAt? path = none ∧ result = .error .doesNotExist ∧ es = [] ∧ b' = b) ∨
      ∃ t t', b.transportAt? path = some t ∧
        (t.release client text).Yields es (result, t') ∧ b' = b.store t' :=
  carried_cases h

theorem release_effect {path client text : String} {result : Except Fault Unit}
    (h : (b.release path client text).Yields es (result, b')) :
    Registry.Effect b.transports [] es b'.transports := by
  rcases release_cases h with ⟨-, -, rfl, rfl⟩ | ⟨t, t', ht, h₁, rfl⟩
  · exact .still _
  · exact store_effect (get?_of_transportAt? ht) (Transport.release_course h₁)

/-- An exit comes to nothing for want of a transport, or is up to the transport. -/
theorem exit_cases {token : Token} {known : Bool}
    (h : (b.exit token).Yields es (known, b')) :
    (b.transports.get? token.transport = none ∧ known = false ∧ es = [] ∧ b' = b) ∨
      ∃ t t', b.transports.get? token.transport = some t ∧
        (t.exit token.owner).Yields es (known, t') ∧ b' = b.store t' :=
  carried_cases h

theorem exit_effect {token : Token} {known : Bool}
    (h : (b.exit token).Yields es (known, b')) :
    Registry.Effect b.transports
      ((b.owner? token).toList.map .departed) es b'.transports := by
  rcases exit_cases h with ⟨hnone, -, rfl, rfl⟩ | ⟨t, t', ht, h₁, rfl⟩
  · simp only [owner?, hnone]
    exact .still _
  · have hcourse := store_effect ht (Transport.exit_course h₁)
    simp only [owner?, ht, Option.bind_some]
    cases ho : t.owner? token.owner <;> simpa [ho] using hcourse

/-- A token comes to nothing for want of a transport, or is up to the transport. -/
theorem endScheduled_cases {token : Token} {ended : Bool}
    (h : (b.endScheduled token).Yields es (ended, b')) :
    (b.transports.get? token.transport = none ∧ ended = false ∧ es = [] ∧ b' = b) ∨
      ∃ t t', b.transports.get? token.transport = some t ∧
        (t.endScheduled token.owner).Yields es (ended, t') ∧ b' = b.store t' :=
  carried_cases h

theorem endScheduled_effect {token : Token} {ended : Bool}
    (h : (b.endScheduled token).Yields es (ended, b')) :
    Registry.Effect b.transports [] es b'.transports := by
  rcases endScheduled_cases h with ⟨-, -, rfl, rfl⟩ | ⟨t, t', ht, h₁, rfl⟩
  · exact .still _
  · exact store_effect ht (Transport.endScheduled_course h₁)

/-- A token goes into the queue, or the queue is full and its owner is torn down at
once. -/
theorem defer_cases {token : Token} (h : (b.defer token).Yields es b') :
    (∃ deferred, b.deferred.push? token = some deferred ∧ es = [] ∧
      b' = { b with deferred }) ∨
      (b.deferred.push? token = none ∧ ∃ ended,
        (b.endScheduled token).Yields es (ended, b')) := by
  unfold defer at h
  cases hpush : b.deferred.push? token with
  | some deferred =>
    rw [hpush] at h
    obtain ⟨rfl, rfl⟩ := yields_pure.mp h
    exact .inl ⟨deferred, rfl, rfl, rfl⟩
  | none =>
    rw [hpush] at h
    obtain ⟨es₁, ⟨ended, b₁⟩, es₂, rfl, h₁, h₂⟩ := yields_bind.mp h
    obtain ⟨rfl, rfl⟩ := yields_pure.mp h₂
    exact .inr ⟨rfl, ended, by simpa using h₁⟩

/-- What a report comes to: the transport takes it, and then its owner is put off if
it failed. -/
theorem complete_cases {t : Transport} {token : Token} {success : Bool}
    (h : (b.complete t token success).Yields es b') :
    ∃ es₁ completion t' es₂,
      (t.complete token.owner success).Yields es₁ (completion, t') ∧
      es = es₁ ++ es₂ ∧
      ((completion = .deferred ∧ ((b.store t').defer token).Yields es₂ b') ∨
        (completion ≠ .deferred ∧ es₂ = [] ∧ b' = b.store t')) := by
  obtain ⟨es₁, ⟨completion, t'⟩, es₂, rfl, h₁, h₂⟩ := yields_bind.mp h
  refine ⟨es₁, completion, t', es₂, h₁, rfl, ?_⟩
  by_cases hdeferred : completion = .deferred
  · simp only [if_pos hdeferred] at h₂
    exact .inl ⟨hdeferred, h₂⟩
  · simp only [if_neg hdeferred] at h₂
    obtain ⟨rfl, rfl⟩ := yields_pure.mp h₂
    exact .inr ⟨hdeferred, rfl, rfl⟩

/-- A report that is taken moves its transport, and once more if the owner is torn
down at once. -/
theorem complete_effect {t : Transport} {token : Token} {success : Bool}
    (hget : b.transports.get? token.transport = some t)
    (h : (b.complete t token success).Yields es b') :
    Registry.Effect b.transports [] es b'.transports := by
  obtain ⟨es₁, completion, t', es₂, h₁, rfl, hcase⟩ := complete_cases h
  have hmoved := store_effect hget (Transport.complete_course h₁)
  rcases hcase with ⟨-, hdefer⟩ | ⟨-, rfl, rfl⟩
  · -- the queue takes the token, or the owner is torn down after the move
    rcases defer_cases hdefer with ⟨deferred, -, rfl, rfl⟩ | ⟨-, ended, hend⟩
    · simpa using hmoved
    · exact hmoved.seq (endScheduled_effect hend) calm_nil
  · simpa using hmoved

/-- A report about a stream is for A2DP transports, and else ignored. -/
theorem a2dpResumed_cases {token : Token} {report : ResumeReport}
    (h : (b.a2dpResumed token report).Yields es b') :
    (es = [] ∧ b' = b) ∨
      ∃ t, b.transports.get? token.transport = some t ∧ t.backend.isA2dp = true ∧
        (b.complete t token report.isStarted).Yields es b' := by
  unfold a2dpResumed at h
  split at h
  · exact .inl (yields_pure.mp h)
  · next t ht =>
    split at h
    · next hkind => exact .inr ⟨t, ht, hkind, h⟩
    · exact .inl (yields_pure.mp h)

/-- A report about a voice link is for headset transports, and else ignored. -/
theorem voiceConnected_cases {token : Token} {connected : Bool}
    (h : (b.voiceConnected token connected).Yields es b') :
    (es = [] ∧ b' = b) ∨
      ∃ t, b.transports.get? token.transport = some t ∧ t.backend.isA2dp = false ∧
        (b.complete t token connected).Yields es b' := by
  unfold voiceConnected at h
  split at h
  · exact .inl (yields_pure.mp h)
  · next t ht =>
    split at h
    · exact .inl (yields_pure.mp h)
    · next hkind => exact .inr ⟨t, ht, by simpa using hkind, h⟩

theorem a2dpResumed_effect {token : Token} {report : ResumeReport}
    (h : (b.a2dpResumed token report).Yields es b') :
    Registry.Effect b.transports [] es b'.transports := by
  rcases a2dpResumed_cases h with ⟨rfl, rfl⟩ | ⟨t, ht, -, h⟩
  · exact .still _
  · exact complete_effect ht h

theorem voiceConnected_effect {token : Token} {connected : Bool}
    (h : (b.voiceConnected token connected).Yields es b') :
    Registry.Effect b.transports [] es b'.transports := by
  rcases voiceConnected_cases h with ⟨rfl, rfl⟩ | ⟨t, ht, -, h⟩
  · exact .still _
  · exact complete_effect ht h

/-- A delay is turned down for want of a transport, or is up to the transport. -/
theorem reportDelay_cases {id : TransportId} {delay : UInt16}
    {result : Except Fault Unit}
    (h : (b.reportDelay id delay).Yields es (result, b')) :
    (b.transports.get? id = none ∧ result = .error .doesNotExist ∧ es = [] ∧ b' = b) ∨
      ∃ t t', b.transports.get? id = some t ∧ (t.reportDelay delay).Yields es t' ∧
        result = .ok () ∧ b' = b.store t' := by
  rcases lookup_cases h with ⟨hnone, hout, rfl⟩ | ⟨t, t', ht, h₁, hout⟩
  · cases hout
    exact .inl ⟨hnone, rfl, rfl, rfl⟩
  · cases hout
    exact .inr ⟨t, t', ht, h₁, rfl, rfl⟩

theorem reportDelay_effect {id : TransportId} {delay : UInt16}
    {result : Except Fault Unit}
    (h : (b.reportDelay id delay).Yields es (result, b')) :
    Registry.Effect b.transports [] es b'.transports := by
  rcases reportDelay_cases h with ⟨-, -, rfl, rfl⟩ | ⟨t, t', ht, h₁, -, rfl⟩
  · exact .still _
  · exact store_effect ht (Transport.reportDelay_course h₁)

/-- The first token is tried, then the others on what is left. -/
theorem endEach_cons_cases {token : Token} {rest : List Token} {n : Nat}
    (h : (b.endEach (token :: rest)).Yields es (n, b')) :
    ∃ es₁ ended b₁ es₂ m, (b.endScheduled token).Yields es₁ (ended, b₁) ∧
      (b₁.endEach rest).Yields es₂ (m, b') ∧ es = es₁ ++ es₂ ∧
      n = if ended then m + 1 else m := by
  obtain ⟨es₁, ⟨ended, b₁⟩, es', rfl, h₁, h⟩ := yields_bind.mp h
  obtain ⟨es₂, ⟨m, b₂⟩, es₃, rfl, h₂, h₃⟩ := yields_bind.mp h
  obtain ⟨rfl, h₃⟩ := yields_pure.mp h₃
  cases h₃
  exact ⟨es₁, ended, b₁, es₂, m, h₁, h₂, by simp, rfl⟩

theorem endEach_effect {tokens : List Token} {n : Nat}
    (h : (b.endEach tokens).Yields es (n, b')) :
    Registry.Effect b.transports [] es b'.transports := by
  induction tokens generalizing b es n with
  | nil =>
    obtain ⟨rfl, h⟩ := yields_pure.mp h
    cases h
    exact .still _
  | cons token rest ih =>
    obtain ⟨es₁, ended, b₁, es₂, m, h₁, h₂, rfl, -⟩ := endEach_cons_cases h
    exact (endScheduled_effect h₁).seq (ih h₂) calm_nil

theorem runDeferred_effect {n : Nat} (h : b.runDeferred.Yields es (n, b')) :
    Registry.Effect b.transports [] es b'.transports :=
  endEach_effect (b := { b with deferred := ∅ }) h

theorem properties_effect {path : String} {result : Except Fault Snapshot}
    (h : (b.properties path).Yields es result) :
    Registry.Effect b.transports [] es b.transports := by
  rcases lookup_cases h with ⟨-, -, rfl⟩ | ⟨t, snapshot, -, h₁, -⟩
  · exact .still _
  · exact .asked (Transport.properties_queries h₁)

/-- One answer, at the end of a method call. -/
theorem yields_answer {call : PendingCall} {reply : Reply}
    (h : (makeAll [.reply call reply] >>= fun _ => pure b).Yields es b') :
    ∃ delivery, es = [⟨.reply call reply, delivery⟩] ∧ b' = b := by
  obtain ⟨hcalls, rfl⟩ := yields_makeAll_pure.mp h
  obtain ⟨⟨c, delivery⟩, rfl, rfl⟩ := List.map_eq_singleton_iff.mp hcalls
  exact ⟨delivery, rfl, rfl⟩

/-- A method call that is answered at once: what it does, and then the answer. -/
theorem answered_effect {r : Registry} {call : PendingCall} {reply : Reply}
    {es₁ es₂ : List Exchange} {b₁ : Broker}
    (h₁ : Registry.Effect r [] es₁ b₁.transports)
    (h₂ : (makeAll [.reply call reply] >>= fun _ => pure b₁).Yields es₂ b') :
    Registry.Effect r [.answered call] (es₁ ++ es₂) b'.transports := by
  obtain ⟨delivery, rfl, rfl⟩ := yields_answer h₂
  exact h₁.seq (.answered call reply delivery) (by simp [Calm])

/-- A method call has the effect of its method, and is answered at once unless the
answer is put off. -/
theorem dispatch_effect {path client : String} {call : PendingCall} {method : Method}
    (h : (b.dispatch path client call method).Yields es b') :
    Registry.Effect b.transports
      (b.callIncidents path client call method) es b'.transports := by
  cases method with
  | getProperties =>
    obtain ⟨es₁, result, es₂, rfl, h₁, h₂⟩ := yields_bind.mp h
    exact answered_effect (properties_effect h₁) h₂
  | acquire access =>
    obtain ⟨es₁, ⟨result, b₁⟩, es₂, rfl, h₁, h₂⟩ := yields_bind.mp h
    have heffect := acquire_effect h₁
    -- the answer is put off exactly if the client is let in
    rcases acquire_result h₁ with ⟨hadmits, rfl⟩ | ⟨hadmits, fault, rfl⟩
    · obtain ⟨rfl, rfl⟩ := yields_pure.mp h₂
      simpa [callIncidents, defersAnswer, hadmits] using heffect
    · simp only [hadmits, Bool.false_eq_true, if_false] at heffect
      simp only [callIncidents, defersAnswer, hadmits, Bool.false_eq_true, if_false]
      exact answered_effect heffect h₂
  | release access =>
    obtain ⟨es₁, ⟨result, b₁⟩, es₂, rfl, h₁, h₂⟩ := yields_bind.mp h
    exact answered_effect (release_effect h₁) h₂
  | setProperty name value => exact answered_effect (.still _) h

theorem handle_effect {event : Event} (h : (b.handle event).Yields es b') :
    Registry.Effect b.transports
      (Operation.incidents b (.handle event) ()) es b'.transports := by
  cases event with
  | call path client call method => exact dispatch_effect h
  | exited token =>
    obtain ⟨es₁, ⟨known, b₁⟩, es₂, rfl, h₁, h₂⟩ := yields_bind.mp h
    obtain ⟨rfl, rfl⟩ := yields_pure.mp h₂
    rw [List.append_nil]
    exact exit_effect h₁
  | a2dpResumed token report => exact a2dpResumed_effect h
  | voiceConnected token connected => exact voiceConnected_effect h
  | delayed id delay =>
    obtain ⟨es₁, ⟨result, b₁⟩, es₂, rfl, h₁, h₂⟩ := yields_bind.mp h
    obtain ⟨rfl, rfl⟩ := yields_pure.mp h₂
    rw [List.append_nil]
    exact reportDelay_effect h₁

/-- Every operation has an outcome: what it does to the live transports, with what
is said and what befalls. -/
theorem perform_outcome {op : Operation} {result : op.Result}
    (h : (b.perform op).Yields es (result, b')) :
    Registry.Outcome b.transports (op.incidents b result) es b'.transports := by
  cases op with
  | create endpoint device configuration => exact create_outcome h
  | remove id => exact .effect (remove_effect h)
  | acquire path client access call => exact .effect (acquire_effect h)
  | release path client access => exact .effect (release_effect h)
  | properties path =>
    obtain ⟨a, ha, h⟩ := yields_map.mp h
    cases h
    exact .effect (properties_effect ha)
  | setProperty path name value =>
    obtain ⟨rfl, h⟩ := yields_pure.mp h
    cases h
    exact .effect (.still _)
  | exit token => exact .effect (exit_effect h)
  | a2dpResumed token report =>
    obtain ⟨a, ha, h⟩ := yields_map.mp h
    cases h
    exact .effect (a2dpResumed_effect ha)
  | voiceConnected token connected =>
    obtain ⟨a, ha, h⟩ := yields_map.mp h
    cases h
    exact .effect (voiceConnected_effect ha)
  | reportDelay id delay => exact .effect (reportDelay_effect h)
  | runDeferred => exact .effect (runDeferred_effect h)
  | dispatch path client call method =>
    obtain ⟨a, ha, h⟩ := yields_map.mp h
    cases h
    exact .effect (dispatch_effect ha)
  | handle event =>
    obtain ⟨a, ha, h⟩ := yields_map.mp h
    cases h
    exact .effect (handle_effect ha)

end Broker

/-- What a step does to the live transports. -/
theorem Step.outcome (s : Step) :
    Registry.Outcome s.before.transports s.incidents s.exchanges s.after.transports :=
  Broker.perform_outcome s.performed

/-! ### Numbers and terms of the live transports -/

theorem Registry.Effect.distinct {r r' : Registry} {ls : List Incident}
    {es : List Exchange} (h : Effect r ls es r') (hr : r.Distinct) :
    r'.Distinct := by
  induction h with
  | still | asked _ | answered _ _ _ => exact hr
  | moved _ _ => exact hr.replace _
  | closed _ _ _ _ => exact hr.erase _
  | seq _ _ _ ih₁ ih₂ => exact ih₂ (ih₁ hr)

/-- The live transports have different numbers, whatever happens to them. -/
theorem Registry.Outcome.distinct {r r' : Registry} {ls : List Incident}
    {es : List Exchange} (h : Outcome r ls es r') (hr : r.Distinct) :
    r'.Distinct := by
  cases h with
  | effect h => exact h.distinct hr
  | refused _ => exact hr
  | opened _ insert => exact hr.insert? insert

/-- Live transports have different numbers in every run. -/
theorem Run.distinct {options : Options} {steps : List Step} {b : Broker}
    (run : Run (.empty options) steps b) : b.transports.Distinct := by
  apply run.invariant (P := fun b => b.transports.Distinct)
  · exact List.nodup_nil
  · intro s _ hs
    exact s.outcome.distinct hs

/-- Unless a transport is created, every live transport was live before, on the same
terms. -/
theorem Registry.Effect.lineage {r r' : Registry} {ls : List Incident}
    {es : List Exchange} (h : Effect r ls es r') :
    ∀ t' ∈ r'.toList, ∃ t ∈ r.toList, t'.terms = t.terms := by
  induction h with
  | still | asked _ | answered _ _ _ => exact fun t ht => ⟨t, ht, rfl⟩
  | @moved r t t' _ _ live course =>
    intro u hu
    rcases mem_replace hu with rfl | hu
    · exact ⟨t, (get?_eq_some live).1, course.terms_eq⟩
    · exact ⟨u, hu, rfl⟩
  | closed _ _ _ _ => exact fun t ht => ⟨t, (List.mem_filter.mp ht).1, rfl⟩
  | seq _ _ _ ih₁ ih₂ =>
    intro u hu
    obtain ⟨u₁, hu₁, heq₁⟩ := ih₂ u hu
    obtain ⟨u₀, hu₀, heq₀⟩ := ih₁ u₁ hu₁
    exact ⟨u₀, hu₀, heq₁.trans heq₀⟩

/-! ### What all live transports have in common -/

section Forall

variable {P : Transport → Prop}

/-- What every move keeps, a course keeps. -/
theorem Transport.Course.invariant {t t' : Transport} {ls : List Incident}
    {es : List Exchange} (move : ∀ t ls es t', P t → Move t ls es t' → P t')
    (h : Course t ls es t') (ht : P t) :
    P t' := by
  induction h with
  | nil => exact ht
  | cons step _ _ ih => exact ih (move _ _ _ _ ht step)

/-- What every move keeps, an effect keeps for all live transports. -/
theorem Registry.Effect.forall_transports {r r' : Registry} {ls : List Incident}
    {es : List Exchange} (move : ∀ t ls es t', P t → Transport.Move t ls es t' → P t')
    (h : Effect r ls es r') (hr : ∀ t ∈ r.toList, P t) : ∀ t ∈ r'.toList, P t := by
  induction h with
  | still | asked _ | answered _ _ _ => exact hr
  | moved live course =>
    intro u hu
    rcases mem_replace hu with rfl | hu
    · exact course.invariant move (hr _ (get?_eq_some live).1)
    · exact hr u hu
  | closed _ _ _ _ =>
    -- what is left was there before
    intro u hu
    exact hr u (List.mem_filter.mp hu).1
  | seq _ _ _ ih₁ ih₂ => exact ih₂ (ih₁ hr)

/-- What a new transport has and every move keeps, an operation keeps for all live
transports. -/
theorem Registry.Outcome.forall_transports {r r' : Registry} {ls : List Incident}
    {es : List Exchange}
    (create : ∀ id endpoint device configuration options t,
      Transport.create id endpoint device configuration options = .ok t → P t)
    (move : ∀ t ls es t', P t → Transport.Move t ls es t' → P t')
    (h : Outcome r ls es r') (hr : ∀ t ∈ r.toList, P t) : ∀ t ∈ r'.toList, P t := by
  cases h with
  | effect h => exact h.forall_transports move hr
  | refused _ => exact hr
  | opened created insert =>
    intro u hu
    rcases mem_insert? insert hu with rfl | hu
    · exact create _ _ _ _ _ _ created
    · exact hr u hu

/-- What a new transport has and every move keeps, all live transports have. -/
theorem Run.forall_transports {options : Options} {steps : List Step} {b : Broker}
    (create : ∀ id endpoint device configuration options t,
      Transport.create id endpoint device configuration options = .ok t → P t)
    (move : ∀ t ls es t', P t → Transport.Move t ls es t' → P t')
    (run : Run (.empty options) steps b) : ∀ t ∈ b.transports.toList, P t := by
  apply run.invariant (P := fun b => ∀ t ∈ b.transports.toList, P t)
  · intro t ht
    cases ht
  · intro s _ hs
    exact s.outcome.forall_transports create move hs

end Forall

end AudioBroker
