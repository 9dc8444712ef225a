import AudioBroker.Proofs.Broker.Turn

/-!
# Numbers are given out once

Until one of the two counters starts over, what is alive has numbers below them, so
that the next number is new.

- `Broker.Numbered`: the numbers of transports, owners and queued tokens are below
  the counters.
- `Run.numbered`: every run without a counter that started over has this.
- `Run.displaced_eq_nil`: in such a run no transport is displaced.
-/

namespace AudioBroker

/-- A counter that did not start over has gone up. -/
theorem lt_succ_of_le_succ {n : UInt32} (h : n ≤ n + 1) : n < n + 1 :=
  UInt32.lt_of_le_of_ne h fun heq => absurd (UInt32.left_eq_add.mp heq) (by decide)

theorem TransportId.lt_next {id : TransportId} (h : id.raw ≤ id.next.raw) :
    id.raw < id.next.raw :=
  lt_succ_of_le_succ h

theorem OwnerId.lt_next {id : OwnerId} (h : id.raw ≤ id.next.raw) :
    id.raw < id.next.raw :=
  lt_succ_of_le_succ h

/-- Different numbers, all below the next one. -/
structure OwnerId.Below (next : OwnerId) (ids : List OwnerId) : Prop where
  lt : ∀ id ∈ ids, id.raw < next.raw
  distinct : ids.Nodup

namespace OwnerId.Below

variable {next next' : OwnerId} {ids ids' : List OwnerId}

theorem sublist (h : next.Below ids) (hsub : ids'.Sublist ids) : next.Below ids' where
  lt id hid := h.lt id (hsub.subset hid)
  distinct := h.distinct.sublist hsub

/-- Numbers that were below a counter are below it when it has gone up. -/
theorem mono (h : next.Below ids) (hle : next.raw ≤ next'.raw) : next'.Below ids where
  lt id hid := UInt32.lt_of_lt_of_le (h.lt id hid) hle
  distinct := h.distinct

/-- The number that is given out is one more below the counter. -/
theorem append_next (h : next.Below ids) (hle : next.raw ≤ next.next.raw) :
    next.next.Below (ids ++ [next]) := by
  have hlt := OwnerId.lt_next hle
  constructor
  · intro id hid
    rw [List.mem_append, List.mem_singleton] at hid
    rcases hid with hid | hid
    · exact UInt32.lt_trans (h.lt id hid) hlt
    · rw [hid]
      exact hlt
  · rw [List.nodup_append]
    refine ⟨h.distinct, by simp, ?_⟩
    intro id hid id' hid' heq
    have hold := h.lt id hid
    rw [heq, List.mem_singleton.mp hid'] at hold
    exact absurd hold (UInt32.lt_irrefl _)

end OwnerId.Below

/-- The numbers of the owners of a transport. -/
def Transport.ownerIds (t : Transport) : List OwnerId := t.stamps.map Prod.fst

namespace Broker

/-- What is alive has numbers below the counters. -/
structure Numbered (b : Broker) : Prop where
  transports : ∀ t ∈ b.transports.toList, t.id.raw < b.nextTransport.raw
  owners : ∀ t ∈ b.transports.toList, b.nextOwner.Below t.ownerIds
  /-- A queued token may have outlived its owner, but its number is not given out
  again. -/
  queued : ∀ token ∈ b.deferred.toList, token.owner.raw < b.nextOwner.raw

variable {b b' : Broker} {es : List Exchange}

theorem Numbered.store {t t' : Transport} {next : OwnerId} (h : b.Numbered)
    (live : b.transports.get? t.id = some t) (terms : t'.terms = t.terms)
    (hle : b.nextOwner.raw ≤ next.raw) (owners : next.Below t'.ownerIds) :
    { b.store t' with nextOwner := next }.Numbered where
  transports u hu := by
    rcases Registry.mem_replace hu with rfl | hu
    · rw [Transport.id_eq_of_terms terms]
      exact h.transports t (Registry.get?_eq_some live).1
    · exact h.transports u hu
  owners u hu := by
    rcases Registry.mem_replace hu with rfl | hu
    · exact owners
    · exact (h.owners u hu).mono hle
  queued token htoken := UInt32.lt_of_lt_of_le (h.queued token htoken) hle

/-- Owners that are gone, or are as they were. -/
theorem Numbered.store_sublist {t t' : Transport} (h : b.Numbered)
    (live : b.transports.get? t.id = some t) (terms : t'.terms = t.terms)
    (stamps : t'.stamps.Sublist t.stamps) : (b.store t').Numbered := by
  have howners := h.owners t (Registry.get?_eq_some live).1
  exact h.store live terms UInt32.le_rfl (howners.sublist (stamps.map _))

/-- Going through the queue gives out no number. -/
theorem Numbered.endEach {tokens : List Token} {n : Nat} (h : b.Numbered)
    (ends : (b.endEach tokens).Yields es (n, b')) : b'.Numbered := by
  induction tokens generalizing b es n with
  | nil =>
    obtain ⟨-, heq⟩ := Dialogue.yields_pure.mp ends
    cases heq
    exact h
  | cons token rest ih =>
    obtain ⟨es₁, ended, b₁, es₂, m, h₁, h₂, -, -⟩ := endEach_cons_cases ends
    refine ih ?_ h₂
    rcases endScheduled_cases h₁ with ⟨-, -, -, rfl⟩ | ⟨t, t', ht, hend, rfl⟩
    · exact h
    · rw [← (Registry.get?_eq_some ht).2] at ht
      exact h.store_sublist ht (Transport.endScheduled_course hend).terms_eq
        (Transport.endScheduled_stamps hend)

/-- A new transport has the number that the counter showed. -/
theorem Numbered.create {endpoint : Endpoint} {device : Device}
    {configuration : List UInt8} {t : Transport} {transports : Registry}
    (h : b.Numbered)
    (created : Transport.create b.nextTransport endpoint device configuration
      b.options = .ok t)
    (insert : b.transports.insert? t = some transports)
    (hle : b.nextTransport.raw ≤ b.nextTransport.next.raw) :
    { b with transports, nextTransport := b.nextTransport.next }.Numbered := by
  have hlt := TransportId.lt_next hle
  constructor
  · intro u hu
    rcases Registry.mem_insert? insert hu with rfl | hu
    · rw [(Transport.create_eq_ok created).1]
      exact hlt
    · exact UInt32.lt_trans (h.transports u hu) hlt
  · intro u hu
    rcases Registry.mem_insert? insert hu with rfl | hu
    · have hids : u.ownerIds = [] := by
        rw [Transport.ownerIds, Transport.stamps, Transport.owners_of_create created]
        rfl
      rw [hids]
      exact { lt := by simp, distinct := List.nodup_nil }
    · exact h.owners u hu
  · exact h.queued

/-- Every turn keeps the numbers below the counters, unless it starts one of them
over. -/
theorem Numbered.turn (h : b.Numbered) (turn : b.Turn b')
    (unwrapped : b.nextTransport.raw ≤ b'.nextTransport.raw ∧
      b.nextOwner.raw ≤ b'.nextOwner.raw) :
    b'.Numbered := by
  cases turn with
  | still => exact h
  | created created insert => exact h.create created insert unwrapped.1
  | removed id =>
    have hsub : ∀ u ∈ (b.transports.erase id).toList, u ∈ b.transports.toList :=
      fun u hu => (List.mem_filter.mp hu).1
    exact { transports := fun u hu => h.transports u (hsub u hu)
            owners := fun u hu => h.owners u (hsub u hu)
            queued := h.queued }
  | stored live terms stamps => exact h.store_sublist live terms stamps
  | acquired live terms stamps =>
    -- the one owner that may be new has the number that was next
    have hnext := (h.owners _ (Registry.get?_eq_some live).1).append_next unwrapped.2
    have hids := stamps.map Prod.fst
    rw [List.map_append, List.map_singleton] at hids
    exact h.store live terms unwrapped.2 (hnext.sublist hids)
  | @marked t t' id pre post deferred live terms kind before after _ push =>
    have howners := h.owners t (Registry.get?_eq_some live).1
    have hids : t'.ownerIds = t.ownerIds := by
      simp [Transport.ownerIds, before, after]
    have hstored : (b.store t').Numbered :=
      h.store live terms UInt32.le_rfl (hids ▸ howners)
    obtain ⟨-, hpush⟩ := BoundedList.push?_eq_some_iff.mp push
    refine { hstored with queued := ?_ }
    intro token hq
    rw [hpush, List.mem_append, List.mem_singleton] at hq
    rcases hq with hq | rfl
    · exact h.queued token hq
    · exact howners.lt id (by simp [Transport.ownerIds, before])
  | drained drain =>
    have hempty : ({ b with deferred := ∅ } : Broker).Numbered :=
      { transports := h.transports, owners := h.owners, queued := by simp }
    exact hempty.endEach drain

theorem numbered_empty (options : Options) : (empty options).Numbered where
  transports _ ht := absurd ht List.not_mem_nil
  owners _ ht := absurd ht List.not_mem_nil
  queued _ ht := absurd ht List.not_mem_nil

end Broker

variable {options : Options} {steps : List Step} {b : Broker}

/-- Until a counter starts over, every state is numbered. -/
theorem Run.numbered (run : Run (.empty options) steps b)
    (unwrapped : Unwrapped steps) :
    b.Numbered := by
  apply run.invariant (Broker.numbered_empty options)
  intro s hs hbefore
  exact hbefore.turn s.turn (unwrapped s hs)

/-! ### No transport is displaced -/

/-- The transports that new ones took the number of. -/
def displaced (ls : List Incident) : List Transport :=
  ls.filterMap fun
    | .displaced t => some t
    | _ => none

@[simp] theorem displaced_append (ls ls' : List Incident) :
    displaced (ls ++ ls') = displaced ls ++ displaced ls' := by
  simp [displaced]

/-- The next number is new. -/
theorem Broker.Numbered.get?_nextTransport (h : b.Numbered) :
    b.transports.get? b.nextTransport = none := by
  rw [Registry.get?_eq_none_iff]
  intro t ht hid
  have hlt := h.transports t ht
  rw [hid] at hlt
  exact absurd hlt (UInt32.lt_irrefl _)

theorem displaced_callIncidents (b : Broker) (path client : String)
    (call : PendingCall) (method : Method) :
    displaced (b.callIncidents path client call method) = [] := by
  unfold Broker.callIncidents
  split <;> rfl

theorem displaced_departed (o : Option Owner) :
    displaced (o.toList.map .departed) = [] := by
  cases o <;> rfl

/-- The transport that a new one takes the place of, if its number was given out
before. -/
theorem displaced_create (b : Broker) (endpoint : Endpoint) (device : Device)
    (configuration : List UInt8) (id : TransportId) :
    displaced ((Operation.create endpoint device configuration).incidents b
      (.ok id)) = (b.transports.get? id).toList := by
  show displaced ((b.transports.get? id).toList.map .displaced) = _
  cases b.transports.get? id <;> rfl

/-- Only a new transport takes the place of another one. -/
theorem displaced_incidents {op : Operation} (b : Broker) (result : op.Result)
    (h : ∀ endpoint device configuration,
      op ≠ .create endpoint device configuration) :
    displaced (op.incidents b result) = [] := by
  cases op with
  | create endpoint device configuration =>
    exact absurd rfl (h endpoint device configuration)
  | acquire path client access call =>
    show displaced (if b.admits path client access then [.admitted call] else []) = []
    split <;> rfl
  | exit token => exact displaced_departed _
  | dispatch path client call method =>
    exact displaced_callIncidents b path client call method
  | handle event =>
    cases event with
    | call path client call method =>
      exact displaced_callIncidents b path.str client.str call method
    | exited token => exact displaced_departed _
    | a2dpResumed _ _ | voiceConnected _ _ | delayed _ _ => rfl
  | remove _ | release _ _ _ | properties _ | setProperty _ _ _ | a2dpResumed _ _
  | voiceConnected _ _ | reportDelay _ _ | runDeferred => rfl

/-- Where numbers are below the counter, the next one belongs to no live transport,
and none is displaced. -/
theorem Step.displaced_eq_nil (s : Step) (h : s.before.Numbered) :
    displaced s.incidents = [] := by
  obtain ⟨b, op, es, result, b', performed⟩ := s
  show displaced (op.incidents b result) = []
  cases op with
  | create endpoint device configuration =>
    rcases Broker.create_cases performed
      with ⟨fault, rfl, -⟩ | ⟨t, transports, hcreate, -, rfl, -⟩
    · rfl
    · rw [displaced_create, (Transport.create_eq_ok hcreate).1, h.get?_nextTransport]
      rfl
  | _ => exact displaced_incidents b result nofun

/-- Until a counter starts over, no transport is displaced. -/
theorem Run.displaced_eq_nil (run : Run (.empty options) steps b)
    (unwrapped : Unwrapped steps) :
    displaced (incidents steps) = [] := by
  induction run with
  | nil => rfl
  | @snoc steps s run ih =>
    have hinit : Unwrapped steps :=
      fun s hs => unwrapped s (List.mem_append_left _ hs)
    rw [incidents_append, incidents_singleton, displaced_append, ih hinit,
      s.displaced_eq_nil (run.numbered hinit)]
    rfl

end AudioBroker
