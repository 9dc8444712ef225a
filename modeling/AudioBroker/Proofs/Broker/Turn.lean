import AudioBroker.Proofs.Broker.Calls

/-!
# What an operation does to the broker

The numbers that are given out, the marks of the owners and the queue of those that
are torn down later change together. Here is what an operation can do to them, and
nothing of what it says to the peers.

- `Transport.stamps`: the number and the mark of each owner of a transport.
- `Broker.Turn`: what an operation can do.
- `Step.turn`: every step is such a turn.
-/

namespace AudioBroker

open Dialogue

namespace Transport

variable {t t' : Transport} {es : List Exchange} {i : Nat} {o : Owner} {id : OwnerId}

/-! ### Numbers and marks of the owners -/

/-- The number of each owner, and whether it is marked to be torn down. -/
def stamps (t : Transport) : List (OwnerId × Bool) :=
  t.owners.toList.map fun o => (o.id, o.scheduled)

theorem stamps_without (t : Transport) (i : Nat) :
    (t.without i).stamps = t.stamps.eraseIdx i := by
  rw [stamps, toList_owners_without, stamps, List.eraseIdx_map]

theorem stamps_without_sublist (t : Transport) (i : Nat) :
    (t.without i).stamps.Sublist t.stamps := by
  rw [stamps_without]
  exact List.eraseIdx_sublist _ _

theorem stamps_modifyOwner {f : Owner → Owner}
    (h : ∀ o, ((f o).id, (f o).scheduled) = (o.id, o.scheduled)) :
    (t.modifyOwner i f).stamps = t.stamps :=
  BoundedList.map_modify_eq h t.owners.toList i

/-- The end of the owner after `pre` leaves the others in order. -/
theorem stamps_without_around {pre post : List (OwnerId × Bool)}
    {s : OwnerId × Bool} (h : t.stamps = pre ++ s :: post) :
    (t.without pre.length).stamps = pre ++ post := by
  rw [stamps_without, h, BoundedList.eraseIdx_around]

/-- The stamps around the owner at a place. -/
theorem stamps_around (ho : t.owners.toList[i]? = some o) :
    ∃ pre post, t.stamps = pre ++ (o.id, o.scheduled) :: post ∧ pre.length = i ∧
      (t.modifyOwner i Owner.schedule).stamps = pre ++ (o.id, true) :: post := by
  obtain ⟨pre, post, hl, hlen, -, hmodify⟩ := BoundedList.exists_around ho
  refine ⟨pre.map fun o => (o.id, o.scheduled),
    post.map fun o => (o.id, o.scheduled), ?_, ?_, ?_⟩
  · rw [stamps, hl, List.map_append, List.map_cons]
  · rw [List.length_map, hlen]
  · rw [stamps, toList_owners_modifyOwner, hmodify, List.map_append, List.map_cons]
    rfl

/-- The owner that a number finds is the first one with it. -/
theorem stamps_of_owner? (h : t.owner? id = some (i, o)) :
    ∃ pre post, t.stamps = pre ++ (id, o.scheduled) :: post ∧ pre.length = i ∧
      ∀ s ∈ pre, s.1 ≠ id := by
  obtain ⟨pre, post, howners, hlen, hid, hbefore⟩ := locate?_eq_some_iff.mp h
  refine ⟨pre.map fun o => (o.id, o.scheduled),
    post.map fun o => (o.id, o.scheduled), ?_, ?_, ?_⟩
  · rw [stamps, howners, List.map_append, List.map_cons, eq_of_beq hid]
  · rw [List.length_map, hlen]
  · intro s hs
    obtain ⟨u, hu, rfl⟩ := List.mem_map.mp hs
    exact ne_of_beq_false (hbefore u hu)

/-- The first stamp with a number belongs to the owner that the number finds. -/
theorem owner?_of_stamps {pre post : List (OwnerId × Bool)} {mark : Bool}
    (h : t.stamps = pre ++ (id, mark) :: post) (hpre : ∀ s ∈ pre, s.1 ≠ id) :
    ∃ o, t.owner? id = some (pre.length, o) ∧ o.scheduled = mark := by
  obtain ⟨before, rest, howners, rfl, hrest⟩ := List.map_eq_append_iff.mp h
  obtain ⟨o, after, rfl, hstamp, -⟩ := List.map_eq_cons_iff.mp hrest
  obtain ⟨hid, hmark⟩ := Prod.mk.inj hstamp
  refine ⟨o, ?_, hmark⟩
  rw [List.length_map]
  refine locate?_eq_some_iff.mpr
    ⟨before, after, howners, rfl, beq_iff_eq.mpr hid, fun u hu => ?_⟩
  exact beq_eq_false_iff_ne.mpr (hpre _ (List.mem_map_of_mem hu))

/-- A request for access adds one owner at most, who is the last one and not
marked. -/
theorem acquire_stamps {client text : String} {call : PendingCall}
    {result : Except Rejection Unit}
    (h : (t.acquire client text call id).Yields es (result, t')) :
    t'.stamps.Sublist (t.stamps ++ [(id, false)]) := by
  rcases acquire_cases h with ⟨fault, -, -, -, rfl⟩ | ⟨name, access, ha, -, htake⟩
  · exact List.sublist_append_left _ _
  · obtain ⟨watch, es₁, start, es₂, -, -, hcase⟩ := takeOn_cases htake
    have room := room_of_admission ha
    have hstarted :
        (t.started start (.fresh id name access watch call start.request)).stamps =
        t.stamps ++ [(id, false)] := by
      rw [started_eq room, stamps, List.map_append, List.map_singleton]
      rfl
    rw [← hstarted]
    rcases hcase with ⟨-, -, rfl⟩ | ⟨-, -, rfl⟩
    · exact List.Sublist.refl _
    · exact stamps_without_sublist _ _

theorem release_stamps {client text : String} {result : Except Fault Unit}
    (h : (t.release client text).Yields es (result, t')) :
    t'.stamps.Sublist t.stamps := by
  rcases release_cases h with ⟨-, -, rfl⟩ | ⟨i, o, a, -, -, -, hcase⟩
  · exact List.Sublist.refl _
  · rcases hcase with ⟨-, -, rfl⟩ | ⟨-, -, -, rfl⟩
    · exact stamps_without_sublist _ _
    · have hkept : (t.narrow i a).stamps = t.stamps := stamps_modifyOwner fun _ => rfl
      exact hkept ▸ List.Sublist.refl _

theorem exit_stamps {known : Bool} (h : (t.exit id).Yields es (known, t')) :
    t'.stamps.Sublist t.stamps := by
  rcases exit_cases h with ⟨-, -, -, rfl⟩ | ⟨i, o, -, -, -, rfl⟩
  · exact List.Sublist.refl _
  · have hkept : (t.modifyOwner i Owner.depart).stamps = t.stamps :=
      stamps_modifyOwner fun _ => rfl
    rw [← hkept]
    exact stamps_without_sublist _ _

theorem endScheduled_stamps {ended : Bool}
    (h : (t.endScheduled id).Yields es (ended, t')) :
    t'.stamps.Sublist t.stamps := by
  rcases endScheduled_cases h with ⟨-, -, -, rfl⟩ | ⟨i, o, -, -, -, -, rfl⟩
  · exact List.Sublist.refl _
  · exact stamps_without_sublist _ _

/-- An owner that is marked is found by its number and dropped, and no other owner
is. -/
theorem endScheduled_marked {ended : Bool} {pre post : List (OwnerId × Bool)}
    (hstamps : t.stamps = pre ++ (id, true) :: post) (hfirst : ∀ s ∈ pre, s.1 ≠ id)
    (h : (t.endScheduled id).Yields es (ended, t')) :
    ∃ i o, t.owner? id = some (i, o) ∧ o.scheduled = true ∧ ended = true ∧
      es.map Exchange.call = t.partingCalls i ∧ t' = t.without i ∧
      t'.stamps = pre ++ post := by
  obtain ⟨o, howner, hmark⟩ := owner?_of_stamps hstamps hfirst
  rcases endScheduled_cases h with ⟨hunmarked, -⟩ |
    ⟨i, o', ho', hs', hended, hcalls, rfl⟩
  · rw [hunmarked _ _ howner] at hmark
    cases hmark
  · refine ⟨i, o', ho', hs', hended, hcalls, rfl, ?_⟩
    obtain ⟨hi, -⟩ := Prod.mk.inj (Option.some.inj (howner.symm.trans ho'))
    rw [← hi]
    exact stamps_without_around hstamps

theorem reportDelay_stamps {delay : UInt16} (h : (t.reportDelay delay).Yields es t') :
    t'.stamps = t.stamps := by
  rcases reportDelay_cases h with ⟨-, -, rfl⟩ | ⟨-, -, rfl⟩ <;> rfl

/-- A report leaves the stamps as they are until the owner fails. -/
theorem attempt_stamps {p : Pending} {success delivered : Bool}
    (h : (t.attempt i p success).Yields es (delivered, t')) :
    t'.stamps = t.stamps := by
  obtain ⟨f, hf, heq⟩ := attempt_modifies h
  have hkept : (t.modifyOwner i f).stamps = t.stamps := by
    rcases hf with rfl | ⟨rfl, -⟩ <;> exact stamps_modifyOwner fun _ => rfl
  rw [heq]
  exact hkept

/-- The end of a start marks the owner that it names, on an A2DP transport, or it
marks nobody. -/
theorem complete_stamps {success : Bool} {completion : Completion}
    (h : (t.complete id success).Yields es (completion, t')) :
    (completion ≠ .deferred ∧ t'.stamps.Sublist t.stamps) ∨
      (completion = .deferred ∧ t.backend.isA2dp = true ∧
        ∃ pre post, t.stamps = pre ++ (id, false) :: post ∧
          t'.stamps = pre ++ (id, true) :: post ∧ ∀ s ∈ pre, s.1 ≠ id) := by
  rcases complete_cases h with ⟨-, rfl, -, rfl⟩ | ⟨i, p, ha, hcase⟩
  · exact .inl ⟨by simp, List.Sublist.refl _⟩
  · obtain ⟨o, ho, hs, -⟩ := awaiting?_eq_some_iff.mp ha
    rcases hcase with ⟨rfl, hattempt⟩ | ⟨es₁, t₁, es₂, hattempt, hfail, -⟩
    · exact .inl ⟨by simp, attempt_stamps hattempt ▸ List.Sublist.refl _⟩
    · have hstamps := attempt_stamps hattempt
      rcases fail_cases hfail with ⟨hdefers, rfl, -, rfl⟩ | ⟨-, rfl, -, rfl⟩
      · have hkind := isA2dp_eq_of_terms (attempt_course ha hattempt).terms_eq
        obtain ⟨pre, post, hpre, hlen, hne⟩ := stamps_of_owner? ho
        refine .inr ⟨rfl, hkind ▸ hdefers, pre, post, hs ▸ hpre, ?_, hne⟩
        -- the attempt left the owner at its place
        obtain ⟨o', ho'⟩ := attempt_owner (owner?_eq_some ho).1 hattempt
        obtain ⟨pre', post', hpre', hlen', hmarked⟩ := stamps_around ho'
        rw [hstamps, hpre] at hpre'
        obtain ⟨heq, hrest⟩ := List.append_inj hpre' (hlen.trans hlen'.symm)
        obtain ⟨hstamp, hpost⟩ := List.cons.inj hrest
        rw [hmarked, ← heq, ← hpost, ← (Prod.mk.inj hstamp).1]
      · refine .inl ⟨by simp, ?_⟩
        rw [← hstamps]
        exact stamps_without_sublist _ _

end Transport

namespace Broker

/-! ### The turns -/

/-- What an operation can do to the broker. -/
inductive Turn (b : Broker) : Broker → Prop where
  | still : Turn b b
  /-- A transport is created under the next number. -/
  | created {endpoint : Endpoint} {device : Device} {configuration : List UInt8}
      {t : Transport} {transports : Registry}
      (created : Transport.create b.nextTransport endpoint device configuration
        b.options = .ok t)
      (insert : b.transports.insert? t = some transports) :
      Turn b { b with transports, nextTransport := b.nextTransport.next }
  | removed (id : TransportId) : Turn b { b with transports := b.transports.erase id }
  /-- Owners of a transport are gone, or they are as they were. -/
  | stored {t t' : Transport} (live : b.transports.get? t.id = some t)
      (terms : t'.terms = t.terms)
      (stamps : t'.stamps.Sublist t.stamps) : Turn b (b.store t')
  /-- A transport has an owner more at most, under the next number. -/
  | acquired {t t' : Transport} (live : b.transports.get? t.id = some t)
      (terms : t'.terms = t.terms)
      (stamps : t'.stamps.Sublist (t.stamps ++ [(b.nextOwner, false)])) :
      Turn b { b.store t' with nextOwner := b.nextOwner.next }
  /-- The first owner with a number is marked, and its token goes into the queue. -/
  | marked {t t' : Transport} {id : OwnerId} {pre post : List (OwnerId × Bool)}
      {deferred : BoundedList Token maxDeferred}
      (live : b.transports.get? t.id = some t)
      (terms : t'.terms = t.terms) (kind : t.backend.isA2dp = true)
      (before : t.stamps = pre ++ (id, false) :: post)
      (after : t'.stamps = pre ++ (id, true) :: post)
      (first : ∀ s ∈ pre, s.1 ≠ id)
      (push : b.deferred.push? (t.token id) = some deferred) :
      Turn b { b.store t' with deferred }
  /-- The queue is emptied. -/
  | drained {b' : Broker} {es : List Exchange} {n : Nat}
      (drain : b.runDeferred.Yields es (n, b')) : Turn b b'

variable {b b' : Broker} {es : List Exchange}

theorem store_turn {id : TransportId} {t t' : Transport} {ls : List Incident}
    (hget : b.transports.get? id = some t) (course : t.Course ls es t')
    (stamps : t'.stamps.Sublist t.stamps) : b.Turn (b.store t') := by
  obtain ⟨-, rfl⟩ := Registry.get?_eq_some hget
  exact .stored hget course.terms_eq stamps

/-- Creating a transport stores it under the next number, or does nothing. -/
theorem create_turn {endpoint : Endpoint} {device : Device}
    {configuration : List UInt8} {result : Except Fault TransportId}
    (h : (b.create endpoint device configuration).Yields es (result, b')) :
    b.Turn b' := by
  rcases create_cases h with ⟨fault, -, rfl, -⟩ |
    ⟨t, transports, hcreate, hinsert, -, -, rfl⟩
  · exact .still
  · exact .created hcreate hinsert

theorem remove_turn {id : TransportId} {known : Bool}
    (h : (b.remove id).Yields es (known, b')) :
    b.Turn b' := by
  rcases remove_cases h with ⟨-, -, -, rfl⟩ | ⟨t, es₁, t', es₂, -, -, -, -, -, rfl⟩
  · exact .still
  · exact .removed id

/-- A request for access stores its transport and uses up a number. -/
theorem acquire_turn {path client text : String} {call : PendingCall}
    {result : Except Rejection Unit}
    (h : (b.acquire path client text call).Yields es (result, b')) :
    b.Turn b' := by
  rcases acquire_cases h with ⟨-, -, -, rfl⟩ | ⟨t, t', ht, h₁, rfl⟩
  · exact .still
  · exact .acquired (get?_of_transportAt? ht) (Transport.acquire_course h₁).terms_eq
      (Transport.acquire_stamps h₁)

theorem release_turn {path client text : String} {result : Except Fault Unit}
    (h : (b.release path client text).Yields es (result, b')) : b.Turn b' := by
  rcases release_cases h with ⟨-, -, -, rfl⟩ | ⟨t, t', ht, h₁, rfl⟩
  · exact .still
  · exact store_turn (get?_of_transportAt? ht) (Transport.release_course h₁)
      (Transport.release_stamps h₁)

theorem exit_turn {token : Token} {known : Bool}
    (h : (b.exit token).Yields es (known, b')) :
    b.Turn b' := by
  rcases exit_cases h with ⟨-, -, -, rfl⟩ | ⟨t, t', ht, h₁, rfl⟩
  · exact .still
  · exact store_turn ht (Transport.exit_course h₁) (Transport.exit_stamps h₁)

theorem reportDelay_turn {id : TransportId} {delay : UInt16}
    {result : Except Fault Unit}
    (h : (b.reportDelay id delay).Yields es (result, b')) : b.Turn b' := by
  rcases reportDelay_cases h with ⟨-, -, -, rfl⟩ | ⟨t, t', ht, h₁, -, rfl⟩
  · exact .still
  · have hstamps := Transport.reportDelay_stamps h₁
    exact store_turn ht (Transport.reportDelay_course h₁)
      (hstamps ▸ List.Sublist.refl _)

/-- A transport that was just stored is found under its number. -/
theorem get?_store {id : TransportId} {t t' : Transport}
    (hget : b.transports.get? id = some t) (hid : t'.id = t.id) :
    (b.store t').transports.get? id = some t' := by
  obtain ⟨-, rfl⟩ := Registry.get?_eq_some hget
  rw [← hid] at hget ⊢
  exact Registry.get?_replace_self hget

/-- An owner that was marked, and then finds no room in the queue, is gone when the
call is over. -/
theorem defer_full {t t' : Transport} {token : Token}
    {pre post : List (OwnerId × Bool)}
    (hget : b.transports.get? token.transport = some t) (hid : t'.id = t.id)
    (hstamps : t'.stamps = pre ++ (token.owner, true) :: post)
    (hfirst : ∀ s ∈ pre, s.1 ≠ token.owner) (hfull : b.deferred.push? token = none)
    (h : ((b.store t').defer token).Yields es b') :
    ∃ i o, t'.owner? token.owner = some (i, o) ∧ o.scheduled = true ∧
      es.map Exchange.call = t'.partingCalls i ∧ (t'.without i).stamps = pre ++ post ∧
      b' = b.store (t'.without i) := by
  rcases defer_cases h with ⟨deferred, hpush, -⟩ | ⟨-, ended, hend⟩
  · rw [show (b.store t').deferred = b.deferred from rfl, hfull] at hpush
    cases hpush
  · have hget' := get?_store hget hid
    rcases endScheduled_cases hend with ⟨hnone, -⟩ | ⟨u, t'', hu, hend, rfl⟩
    · rw [hget'] at hnone
      cases hnone
    · -- the transport with the mark is the one that was stored just before
      obtain rfl : t' = u := Option.some.inj (hget'.symm.trans hu)
      obtain ⟨i, o, ho, hs, -, hcalls, rfl, hrest⟩ :=
        Transport.endScheduled_marked hstamps hfirst hend
      refine ⟨i, o, ho, hs, hcalls, hrest, ?_⟩
      rw [store, store, store,
        Registry.replace_replace _
          (Transport.id_eq_of_terms (Transport.terms_without t' i))]

/-- A start that has ended settles its owner, drops it, or marks it and puts it into
the queue. -/
theorem complete_turn {t : Transport} {token : Token} {success : Bool}
    (hget : b.transports.get? token.transport = some t)
    (h : (b.complete t token success).Yields es b') : b.Turn b' := by
  obtain ⟨-, htid⟩ := Registry.get?_eq_some hget
  have hlive : b.transports.get? t.id = some t := htid ▸ hget
  obtain ⟨es₁, completion, t', es₂, h₁, -, hcase⟩ := complete_cases h
  have hterms := (Transport.complete_course h₁).terms_eq
  rcases Transport.complete_stamps h₁ with
    ⟨hnot, hstamps⟩ | ⟨hdeferred, hkind, pre, post, hbefore, hafter, hfirst⟩
  · rcases hcase with ⟨hdeferred, -⟩ | ⟨-, -, rfl⟩
    · exact absurd hdeferred hnot
    · exact .stored hlive hterms hstamps
  · rcases hcase with ⟨-, hdefer⟩ | ⟨hnot, -⟩
    · cases hpush : b.deferred.push? token with
      | some deferred =>
        have htoken : t.token token.owner = token := by rw [Transport.token, htid]
        rcases defer_cases hdefer with ⟨deferred', hpush', -, rfl⟩ | ⟨hnone, -⟩
        · exact .marked hlive hterms hkind hbefore hafter hfirst
            (htoken.symm ▸ hpush')
        · rw [show (b.store t').deferred = b.deferred from rfl, hpush] at hnone
          cases hnone
      | none =>
        -- without room for it the owner is dropped, and it is as if it had never
        -- been marked
        obtain ⟨i, -, -, -, -, hrest, rfl⟩ :=
          defer_full hget (Transport.id_eq_of_terms hterms) hafter hfirst hpush hdefer
        refine .stored hlive ((Transport.terms_without t' i).trans hterms) ?_
        rw [hrest, hbefore]
        exact (List.Sublist.refl pre).append (List.sublist_cons_self _ _)
    · exact absurd hdeferred hnot

theorem a2dpResumed_turn {token : Token} {report : ResumeReport}
    (h : (b.a2dpResumed token report).Yields es b') : b.Turn b' := by
  rcases a2dpResumed_cases h with ⟨-, rfl⟩ | ⟨t, ht, -, h⟩
  · exact .still
  · exact complete_turn ht h

theorem voiceConnected_turn {token : Token} {connected : Bool}
    (h : (b.voiceConnected token connected).Yields es b') : b.Turn b' := by
  rcases voiceConnected_cases h with ⟨-, rfl⟩ | ⟨t, ht, -, h⟩
  · exact .still
  · exact complete_turn ht h

/-- What is left of an operation is a turn. -/
theorem core_turn {op : Operation} {result : op.Result} (hop : op.core = op)
    (h : (b.perform op).Yields es (result, b')) : b.Turn b' := by
  cases op with
  | create endpoint device configuration => exact create_turn h
  | remove id => exact remove_turn h
  | acquire path client access call => exact acquire_turn h
  | release path client access => exact release_turn h
  | properties path =>
    obtain ⟨a, -, h⟩ := yields_map.mp h
    cases h
    exact .still
  | setProperty path name value =>
    obtain ⟨-, h⟩ := yields_pure.mp h
    cases h
    exact .still
  | exit token => exact exit_turn h
  | a2dpResumed token report =>
    obtain ⟨a, ha, h⟩ := yields_map.mp h
    cases h
    exact a2dpResumed_turn ha
  | voiceConnected token connected =>
    obtain ⟨a, ha, h⟩ := yields_map.mp h
    cases h
    exact voiceConnected_turn ha
  | reportDelay id delay => exact reportDelay_turn h
  | runDeferred => exact .drained h
  | dispatch _ _ _ method => cases method <;> cases hop
  | handle event =>
    cases event with
    | call _ _ _ method => cases method <;> cases hop
    | exited _ | a2dpResumed _ _ | voiceConnected _ _ | delayed _ _ => cases hop

/-- Every operation is a turn; the answer to a method call changes nothing. -/
theorem perform_turn {op : Operation} {result : op.Result}
    (h : (b.perform op).Yields es (result, b')) : b.Turn b' := by
  obtain ⟨result', es₁, -, h₁, -, -⟩ := perform_core h
  exact core_turn op.core_core h₁

end Broker

/-- What a step does to the broker. -/
theorem Step.turn (s : Step) : s.before.Turn s.after :=
  Broker.perform_turn s.performed

end AudioBroker
