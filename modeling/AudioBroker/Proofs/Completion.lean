import AudioBroker.Proofs.Broker.Advance

/-!
# What becomes of an owner whose start has ended

A report that a start has ended is for one owner, which waits for it. Either the
owner is sent the descriptor of the open stream, and goes on with all that it holds;
or it ends. A headset owner ends at once. An A2DP owner is only marked and put into
the queue, and what it holds is closed when the queue is drained, or earlier if it
is released, or its client leaves, or its transport is withdrawn.

- `Transport.Tried`: how far the delivery of a stream got, and whether a reply was
  sent.
- `Owner.concluded`: the owner after that; it has nothing to abort, and its call is
  left if no reply was sent.
- `Broker.Completed`: what becomes of the owner; `Broker.report_completed`: it is
  one of three things.
- `Run.completion_outcome`: so it is in every run, and a queued owner is followed
  until it is gone.
-/

namespace AudioBroker

open Dialogue

namespace Owner

/-- The owner after its start has ended: its call is left to be answered only if no
reply was sent. -/
def concluded (o : Owner) (call : PendingCall) (sent : Option Delivery) : Owner :=
  { o with pending := if sent = none
             then some { call := some call, request := none } else none }

variable {o : Owner} {p : Pending} {call : PendingCall} {sent : Option Delivery}

/-- An owner whose start has ended, and that was not sent a reply. -/
theorem settle_eq_concluded (pending : o.pending = some p)
    (unspent : p.call = some call) :
    o.settle = o.concluded call none := by
  simp [settle, concluded, pending, unspent]

/-- Once a start has ended, nothing is left to be aborted. -/
theorem request?_concluded (o : Owner) : (o.concluded call sent).request? = none := by
  cases sent <;> rfl

/-- Nothing is aborted at its end, and no second reply is sent. -/
theorem partingCalls_concluded (b : Backend) (device : Device) :
    (o.concluded call sent).partingCalls b device = o.watch.toList.map .unwatch ++
      if sent = none then [.reply call (.failure .resumeFailed)] else [] := by
  cases sent <;> rfl

end Owner

namespace Transport

variable {t t' : Transport} {es : List Exchange} {i : Nat} {o : Owner} {p : Pending}
  {call : PendingCall} {pre post : List Owner}

/-- How far a reported end of a start got for the owner with the call: what is said,
the stream that is in place then, and what became of the reply if one was sent. -/
inductive Tried (t : Transport) (call : PendingCall) :
    Bool → List Exchange → Option Stream → Option Delivery → Prop where
  /-- The start failed. -/
  | failed : Tried t call false [] t.stream none
  /-- No stream is open. -/
  | streamless {es : List Exchange}
      (query : (t.backend.stream t.device).Yields es none) :
      Tried t call true es t.stream none
  /-- The stream is put in place, and its descriptor is sent. -/
  | sent {es es' : List Exchange} {s : Stream} {stream : Option Stream}
      {delivery : Delivery} (query : (t.backend.stream t.device).Yields es (some s))
      (install : (t.install s).Yields es' { t with stream })
      (stored : stream.map Stream.fd = some s.fd) :
      Tried t call true (es ++ es' ++ [⟨.reply call (.descriptor s.fd), delivery⟩])
        stream (some delivery)

/-- What is sent when a reported end of a start is tried. -/
theorem Tried.sendings_eq {success : Bool} {stream : Option Stream}
    {sent : Option Delivery} (h : t.Tried call success es stream sent) :
    ∃ fd, sendings es = sent.toList.map fun d => ⟨call, fd, d⟩ := by
  have hquery : ∀ {es stream?}, (t.backend.stream t.device).Yields es stream? →
      Unsent es := by
    intro es stream? hstream
    obtain ⟨e, rfl, query⟩ := stream_query hstream
    exact unsent_of_isQuery (by simpa using query)
  cases h with
  | failed => exact ⟨⟨0⟩, rfl⟩
  | streamless query => exact ⟨⟨0⟩, (hquery query).sendings_eq⟩
  | @sent es es' s _ delivery query install _ =>
    have hput : Unsent es' := by
      rcases install_cases install with ⟨-, rfl, -⟩ | ⟨-, hcalls, -⟩
      · exact unsent_nil
      · exact unsent_of_calls hcalls (by simp [Call.sends])
    refine ⟨s.fd, ?_⟩
    rw [sendings, List.filterMap_append]
    exact (congrArg (· ++ _) ((hquery query).append hput).sendings_eq)

/-- Putting a stream in place has nothing to do with the owners. -/
theorem install_modifyOwner (t : Transport) (i : Nat) (f : Owner → Owner)
    (s : Stream) :
    (t.modifyOwner i f).install s = (fun u => u.modifyOwner i f) <$> t.install s := by
  unfold install
  split
  · next hfd =>
    have hfd' : t.fd = some s.fd := hfd
    rw [if_pos hfd', map_pure]
  · next hfd =>
    have hfd' : ¬ t.fd = some s.fd := hfd
    rw [if_neg hfd', map_bind]
    rfl

/-- Whatever stream is put in place, its descriptor is in place then. -/
theorem install_stored {s : Stream} (h : (t.install s).Yields es t') :
    t' = { t with stream := t'.stream } ∧ t'.stream.map Stream.fd = some s.fd := by
  rcases install_cases h with ⟨hfd, -, rfl⟩ | ⟨-, -, rfl⟩
  · exact ⟨rfl, hfd⟩
  · exact ⟨rfl, rfl⟩

/-- What an attempt to deliver comes to. -/
theorem attempt_tried {success delivered : Bool}
    (howners : t.owners.toList = pre ++ o :: post) (pending : o.pending = some p)
    (unspent : p.call = some call)
    (h : (t.attempt pre.length p success).Yields es (delivered, t')) :
    ∃ (stream : Option Stream) (sent : Option Delivery)
      (owners : BoundedList Owner maxOwners),
      t.Tried call success es stream sent ∧
        delivered = decide (sent = some .delivered) ∧
        owners.toList = pre ++ o.concluded call sent :: post ∧
        t' = { t with stream, owners } := by
  have hsettled : (t.owners.modify pre.length Owner.settle).toList = pre ++
      o.concluded call none :: post := by
    rw [BoundedList.toList_modify, howners, BoundedList.modify_around,
      Owner.settle_eq_concluded pending unspent]
  cases success with
  | false =>
    obtain ⟨rfl, h⟩ := yields_pure.mp h
    cases h
    exact ⟨t.stream, none, _, .failed, rfl, hsettled, rfl⟩
  | true =>
    -- the attempt has settled the owner before it delivers
    have hdeliver :
        ((t.modifyOwner pre.length Owner.settle).deliver pre.length p.call).Yields es
        (delivered, t') := h
    rcases deliver_cases hdeliver with ⟨rfl, hquery, rfl⟩ |
      ⟨s, es₁, es₂, t₂, es₃, hquery, hinstall, rfl, rfl, hreply⟩
    · exact ⟨t.stream, none, _, .streamless hquery, rfl, hsettled, rfl⟩
    · rw [install_modifyOwner] at hinstall
      obtain ⟨u, hput, rfl⟩ := yields_map.mp hinstall
      obtain ⟨hu, hstored⟩ := install_stored hput
      rcases hreply with ⟨hnone, -⟩ | ⟨c, delivery, hsome, rfl, rfl⟩
      · rw [unspent] at hnone
        cases hnone
      · rw [unspent] at hsome
        obtain rfl := Option.some.inj hsome
        have hanswered :
            ((t.owners.modify pre.length Owner.settle).modify pre.length
              Owner.answer).toList =
            pre ++ o.concluded call (some delivery) :: post := by
          rw [BoundedList.toList_modify, hsettled, BoundedList.modify_around]
          rfl
        refine ⟨u.stream, some delivery, _, .sent hquery (hu ▸ hput) hstored, ?_,
          hanswered, ?_⟩
        · simp
        · rw [hu]
          rfl

end Transport

namespace Broker

variable {b b' : Broker} {r : Report} {t : Transport} {pre post : List Owner}
  {o : Owner} {p : Pending} {call : PendingCall} {es es' : List Exchange}

/-- What a report comes to for the owner that waits for it, which has the call, and
what it leaves in the queue. -/
inductive Completed (b : Broker) (r : Report) (t : Transport) (pre : List Owner)
    (o : Owner)
    (post : List Owner) (call : PendingCall) :
    List Exchange → Broker → Option Owner → Prop where
  /-- The descriptor was delivered, and the owner goes on with all that it holds. -/
  | delivered {es : List Exchange} {stream : Option Stream}
      {owners : BoundedList Owner maxOwners}
      (tried : t.Tried call r.success es stream (some .delivered))
      (answered : owners.toList = pre ++ { o with pending := none } :: post) :
      Completed b r t pre o post call es (b.store { t with stream, owners }) none
  /-- The owner was torn down at once. -/
  | ended {es es' : List Exchange} {stream : Option Stream} {sent : Option Delivery}
      {owners : BoundedList Owner maxOwners}
      (tried : t.Tried call r.success es stream sent)
      (undelivered : sent ≠ some .delivered)
      (now : r.isA2dp = true → b.deferred.isFull = true)
      (gone : owners.toList = pre ++ post)
      (parting : es'.map Exchange.call = o.watch.toList.map .unwatch ++
        (if sent = none then [.reply call (.failure .resumeFailed)] else []) ++
        if owners.isEmpty then t.backend.unlockCalls t.inUse t.device else []) :
      Completed b r t pre o post call (es ++ es')
        (b.store { t with stream, owners, locks := t.locks \ o.access,
                          inUse := t.inUse && !owners.isEmpty })
        none
  /-- The owner was marked, and put into the queue. -/
  | queued {es : List Exchange} {stream : Option Stream} {sent : Option Delivery}
      {owners : BoundedList Owner maxOwners}
      {deferred : BoundedList Token maxDeferred}
      (tried : t.Tried call r.success es stream sent)
      (undelivered : sent ≠ some .delivered)
      (later : r.isA2dp = true)
      (marked : owners.toList = pre ++ (o.concluded call sent).schedule :: post)
      (last : deferred.toList = b.deferred.toList ++ [r.token]) :
      Completed b r t pre o post call es
        { b.store { t with stream, owners } with deferred }
        (some (o.concluded call sent).schedule)

/-- The end of an owner whose start has ended. -/
theorem completed_of_parting {t₁ : Transport} {stream : Option Stream}
    {sent : Option Delivery} {owners : BoundedList Owner maxOwners}
    (tried : t.Tried call r.success es stream sent)
    (undelivered : sent ≠ some .delivered)
    (now : r.isA2dp = true → b.deferred.isFull = true)
    (left : t₁ = { t with stream, owners })
    (howners : owners.toList = pre ++ o.concluded call sent :: post)
    (parting : es'.map Exchange.call = t₁.partingCalls pre.length) :
    b.Completed r t pre o post call (es ++ es')
      (b.store (t₁.without pre.length)) none := by
  have ho : t₁.owners.toList[pre.length]? = some (o.concluded call sent) := by
    simp [left, howners]
  rw [Transport.partingCalls_eq ho, Owner.partingCalls_concluded] at parting
  rw [Transport.without_eq ho]
  subst left
  refine Completed.ended tried undelivered now ?_ parting
  rw [BoundedList.toList_eraseIdx, howners, BoundedList.eraseIdx_around]

/-- An owner that failed is torn down, or it is marked and put into the queue. -/
theorem completed_of_fail {t₁ t' : Transport} {stream : Option Stream}
    {sent : Option Delivery} {owners : BoundedList Owner maxOwners}
    {completion : Transport.Completion} {es₁ es₂ : List Exchange}
    (hget : b.transports.get? r.token.transport = some t)
    (kind : t.backend.isA2dp = r.isA2dp) (hid : o.id = r.token.owner)
    (first : ∀ u ∈ pre, u.id ≠ r.token.owner)
    (tried : t.Tried call r.success es stream sent)
    (undelivered : sent ≠ some .delivered) (left : t₁ = { t with stream, owners })
    (howners : owners.toList = pre ++ o.concluded call sent :: post)
    (hfail : (t₁.fail pre.length).Yields es₁ (completion, t'))
    (hcase : (completion = .deferred ∧ ((b.store t').defer r.token).Yields es₂ b') ∨
      (completion ≠ .deferred ∧ es₂ = [] ∧ b' = b.store t')) :
    ∃ queued, b.Completed r t pre o post call (es ++ (es₁ ++ es₂)) b' queued := by
  have ho : t₁.owners.toList[pre.length]? = some (o.concluded call sent) := by
    simp [left, howners]
  have hkind : t₁.backend.isA2dp = r.isA2dp := by rw [left, ← kind]
  rcases Transport.fail_cases hfail
    with ⟨ha2dp, rfl, rfl, rfl⟩ | ⟨hheadset, rfl, hcalls, rfl⟩
  · have hmarked : (t₁.modifyOwner pre.length Owner.schedule).owners.toList =
        pre ++ (o.concluded call sent).schedule :: post := by
      rw [Transport.toList_owners_modifyOwner, left, howners,
        BoundedList.modify_around]
    rcases hcase with ⟨-, hdefer⟩ | ⟨hnot, -⟩
    · rcases defer_cases hdefer with ⟨deferred, hpush, rfl, rfl⟩ | ⟨hfull, -⟩
      · refine ⟨some (o.concluded call sent).schedule, ?_⟩
        rw [List.append_nil, List.append_nil]
        subst left
        exact .queued tried undelivered
          (hkind.symm.trans ha2dp) hmarked (BoundedList.push?_eq_some_iff.mp hpush).2
      · -- the token names the owner that was just marked
        have hfound :
            (t₁.modifyOwner pre.length Owner.schedule).owner? r.token.owner =
            some (pre.length, (o.concluded call sent).schedule) := by
          refine Transport.locate?_eq_some_iff.mpr
            ⟨pre, post, hmarked, rfl, beq_iff_eq.mpr hid, fun u hu => ?_⟩
          exact beq_eq_false_iff_ne.mpr (first u hu)
        have hsame : (t₁.modifyOwner pre.length Owner.schedule).id = t.id :=
          congrArg (fun u => u.id) left
        obtain ⟨pre', post', hstamps, -, hfirst⟩ := Transport.stamps_of_owner? hfound
        obtain ⟨i, o', ho', -, hparting, -, rfl⟩ :=
          defer_full hget hsame hstamps hfirst hfull hdefer
        obtain ⟨rfl, -⟩ := Prod.mk.inj (Option.some.inj (hfound.symm.trans ho'))
        rw [Transport.partingCalls_modifyOwner ho fun _ _ => rfl] at hparting
        rw [Transport.without_modifyOwner ho rfl]
        have hnow : b.deferred.isFull = true :=
          BoundedList.isFull_iff.mpr (BoundedList.push?_eq_none_iff.mp hfull)
        exact ⟨none, completed_of_parting tried undelivered
          (fun _ => hnow) left howners hparting⟩
    · exact absurd rfl hnot
  · have hnow : r.isA2dp = true → b.deferred.isFull = true := by
      intro ha2dp
      rw [hkind, ha2dp] at hheadset
      cases hheadset
    rcases hcase with ⟨hdeferred, -⟩ | ⟨-, rfl, rfl⟩
    · cases hdeferred
    · rw [List.append_nil]
      exact ⟨none, completed_of_parting tried undelivered hnow left howners hcalls⟩

/-- Who is left in the queue is found by its client, is marked, and has nothing to
abort. -/
theorem Completed.queued_eq {q : Owner}
    (h : b.Completed r t pre o post call es b' (some q))
    (hget : b.transports.get? r.token.transport = some t)
    (shared : ∀ u ∈ b'.transports.toList, u.Shared) :
    b'.ownerNamed? t.id o.name = some q ∧ q.scheduled = true ∧ q.request? = none ∧
      q.access = o.access := by
  cases h with
  | @queued _ stream sent owners deferred _ _ _ marked _ =>
    have hstored :
        (b.store { t with stream, owners }).transports.get? t.id = some
          { t with stream, owners } :=
      get?_store (Registry.get?_id hget) rfl
    have hmem : (o.concluded call sent).schedule ∈ owners.toList := by
      rw [marked]
      simp
    refine ⟨?_, rfl, o.request?_concluded, rfl⟩
    exact ownerNamed?_of_mem hstored (shared _ (Registry.get?_eq_some hstored).1) hmem

/-- A report for an owner that waits for it. -/
theorem report_completed (hget : b.transports.get? r.token.transport = some t)
    (kind : t.backend.isA2dp = r.isA2dp)
    (howners : t.owners.toList = pre ++ o :: post) (hid : o.id = r.token.owner)
    (first : ∀ u ∈ pre, u.id ≠ r.token.owner) (unmarked : o.scheduled = false)
    (pending : o.pending = some p) (unspent : p.call = some call)
    (h : (b.report r).Yields es b') :
    ∃ queued, b.Completed r t pre o post call es b' queued := by
  have hfound : t.owner? r.token.owner = some (pre.length, o) :=
    Transport.locate?_eq_some_iff.mpr
      ⟨pre, post, howners, rfl, beq_iff_eq.mpr hid,
        fun u hu => beq_eq_false_iff_ne.mpr (first u hu)⟩
  have hwaits : t.awaiting? r.token.owner = some (pre.length, p) :=
    Transport.awaiting?_eq_some_iff.mpr ⟨o, hfound, unmarked, pending⟩
  rw [report, hget] at h
  simp only [if_pos kind] at h
  obtain ⟨es₁, completion, t', es₂, hcomplete, rfl, hcase⟩ := complete_cases h
  rcases Transport.complete_cases hcomplete
    with ⟨hnone, -⟩ | ⟨i, q, hwaits', hcompleted⟩
  · rw [hwaits] at hnone
    cases hnone
  · cases hwaits.symm.trans hwaits'
    rcases hcompleted with ⟨rfl, hattempt⟩ | ⟨es₃, t₁, es₄, hattempt, hfail, rfl⟩
    · obtain ⟨stream, sent, owners, htried, hsent, hanswered, rfl⟩ :=
        Transport.attempt_tried howners pending unspent hattempt
      obtain rfl := of_decide_eq_true hsent.symm
      rcases hcase with ⟨hdeferred, -⟩ | ⟨-, rfl, rfl⟩
      · cases hdeferred
      · rw [List.append_nil]
        exact ⟨none, .delivered htried hanswered⟩
    · obtain ⟨stream, sent, owners, htried, hsent, hconcluded, hleft⟩ :=
        Transport.attempt_tried howners pending unspent hattempt
      have hundelivered : sent ≠ some .delivered := of_decide_eq_false hsent.symm
      rw [List.append_assoc]
      exact completed_of_fail hget kind hid first htried hundelivered hleft
        hconcluded hfail hcase

/-- A report that is expected finds the owner that waits for it. -/
theorem completed_of_expects
    (answerable : ∀ t ∈ b.transports.toList, ∀ o ∈ t.owners.toList, o.Answerable)
    (expects : b.Expects r.isA2dp r.token) :
    ∃ t pre o post call,
      b.transports.get? r.token.transport = some t ∧ t.backend.isA2dp = r.isA2dp ∧
      t.owners.toList = pre ++ o :: post ∧
      t.owner? r.token.owner = some (pre.length, o) ∧ o.awaits = true ∧
      o.unspent? = some call ∧
      ∀ es b', (b.report r).Yields es b' →
        ∃ queued, b.Completed r t pre o post call es b' queued := by
  obtain ⟨t, hget, kind, hwaits⟩ := expects
  obtain ⟨⟨i, p⟩, hwaits⟩ := Option.isSome_iff_exists.mp hwaits
  obtain ⟨o, hfound, unmarked, pending⟩ := Transport.awaiting?_eq_some_iff.mp hwaits
  obtain ⟨pre, post, howners, rfl, hid, first⟩ :=
    Transport.locate?_eq_some_iff.mp hfound
  have hpending : o.isPending = true := by
    rw [Owner.isPending, pending, Option.isSome_some]
  obtain ⟨call, unspent⟩ := Option.isSome_iff_exists.mp
    (answerable t (Registry.get?_eq_some hget).1 o (by simp [howners]) hpending)
  have hcall : p.call = some call := by simpa [Owner.unspent?, pending] using unspent
  exact ⟨t, pre, o, post, call, hget, kind, howners, hfound,
    by simp [Owner.awaits, unmarked, hpending], unspent,
    fun es b' h => report_completed hget kind howners (eq_of_beq hid)
      (fun u hu => ne_of_beq_false (first u hu)) unmarked pending hcall h⟩

end Broker

/-- In every state of every run, a report that an owner waits for comes to one of
three things. If the start has succeeded, a stream is open and the reply is
delivered, the owner's own call is answered with the descriptor that is stored in
its transport; its request is gone and all else is as it was. Otherwise the owner
ends, and no start is aborted and no second reply sent. A headset owner ends at
once. An A2DP owner does so only if the queue is full; else it is put into the queue
and nothing is closed, and until it is gone it stays as it is but for directions
that it gives back, so that there is no start to abort at its end either. If it is
still there when the queue is drained next, it is torn down then. -/
theorem Run.completion_outcome {options : Options} {steps : List Step} {b : Broker}
    (run : Run (.empty options) steps b) {op : Operation} {r : Report}
    (report : op.report? = some r) (expects : b.Expects r.isA2dp r.token) :
    ∃ t pre o post call,
      b.transports.get? r.token.transport = some t ∧ t.backend.isA2dp = r.isA2dp ∧
      t.owners.toList = pre ++ o :: post ∧ o.id = r.token.owner ∧
      o.scheduled = false ∧
        o.unspent? = some call ∧
        ∀ es result b', (b.perform op).Yields es (result, b') →
          ∃ queued, b.Completed r t pre o post call es b' queued ∧
            ∀ q ∈ queued, ∀ later b₁, Run b' later b₁ →
              (∃ s ∈ later, s.after.ownerNamed? t.id o.name = none) ∨
                ∃ access calls,
                  access ⊆ o.access ∧
                  b₁.ownerNamed? t.id o.name = some { q with access } ∧
                  calls = q.watch.toList.map .unwatch ++
                    (q.unspent?.toList.map fun call =>
                      .reply call (.failure .resumeFailed)) ∧
                  (∀ backend device, Owner.partingCalls
                    { q with access } backend device = calls) ∧
                  ∀ es₁ n b₂, b₁.runDeferred.Yields es₁ (n, b₂) →
                    calls.Subperm (es₁.map Exchange.call) ∧
                      b₂.ownerNamed? t.id o.name = none ∧
                      ∀ t₂, b₂.transports.get? t.id = some t₂ →
                        access ∩ t₂.locks = ∅ := by
  obtain ⟨t, pre, o, post, call, hget, kind, howners, hfound, hwaits, unspent,
      hcompletes⟩ :=
    Broker.completed_of_expects run.answerable expects
  obtain ⟨unmarked, -⟩ : o.scheduled = false ∧ o.isPending = true := by
    simpa [Owner.awaits] using hwaits
  refine ⟨t, pre, o, post, call, hget, kind, howners,
    (Transport.owner?_eq_some hfound).2, unmarked, unspent,
    fun es result b' h => ?_⟩
  have hstep := run.snoc (s := ⟨b, op, es, result, b', h⟩)
  obtain ⟨queued, hcompleted⟩ :=
    hcompletes es b' (Step.reported (s := ⟨b, op, es, result, b', h⟩) report)
  refine ⟨queued, hcompleted, fun q hq later b₁ rest => ?_⟩
  obtain rfl : queued = some q := hq
  obtain ⟨hlive, hmarked, hrequest, haccess⟩ := hcompleted.queued_eq hget hstep.shared
  -- a marked owner can only lose directions until a drain takes it
  rcases hstep.marked_until_gone rest hlive hmarked
    with hgone | ⟨access, hless, hstays⟩
  · exact .inl hgone
  · have hparting : ∀ backend device,
        Owner.partingCalls { q with access } backend device =
        q.watch.toList.map .unwatch ++
          q.unspent?.toList.map fun call => .reply call (.failure .resumeFailed) := by
      intro backend device
      show q.partingCalls backend device = _
      rw [Owner.partingCalls_eq, hrequest]
      rfl
    refine .inr ⟨access, _, haccess ▸ hless, hstays, rfl, hparting,
      fun es₁ n b₂ hdrain => ?_⟩
    obtain ⟨u, u', -, hu', hcalls, hgone, hfree⟩ :=
      (hstep.trans rest).drain_ends_marked hstays hmarked hdrain
    rw [hparting] at hcalls
    refine ⟨hcalls, hgone, fun t₂ ht₂ => ?_⟩
    rw [hu'] at ht₂
    cases ht₂
    exact hfree

/-- A client reads and writes, and its stream is being started. -/
def Scene.beginning : List (Script × Operation) :=
  [({}, .create speaker device []), ({}, acquire ":1" "rw" 1)]

/-- The start fails: the owner waits in the queue, and the next drain tears it
down. -/
theorem Run.failed_owner_waits_for_drain :
    ∃ steps b es b', ∃ t : Transport, ∃ pre o post call q, Run (.empty {}) steps b ∧
      (b.perform (.a2dpResumed ⟨⟨0⟩, ⟨0⟩⟩ (.failed .timeout))).Yields es ((), b') ∧
      b.Completed ⟨true, ⟨⟨0⟩, ⟨0⟩⟩, false⟩ t pre o post call es b' (some q) ∧
      (b'.ownerNamed? t.id o.name).isSome = true ∧
      ∀ es₁ n b₁, b'.runDeferred.Yields es₁ (n, b₁) →
        b₁.ownerNamed? t.id o.name = none := by
  have run := Broker.run_play Script.peers (.empty {}) Scene.beginning
  have hroom :
      ((Broker.empty {}).played Script.peers Scene.beginning).deferred.isFull =
        false := by
    decide
  have hexpects :
      ((Broker.empty {}).played Script.peers Scene.beginning).Expects true
        ⟨⟨0⟩, ⟨0⟩⟩ := by
    decide
  obtain ⟨es, ⟨_, b'⟩, hwent⟩ : ∃ es x,
      (((Broker.empty {}).played Script.peers Scene.beginning).perform
      (.a2dpResumed ⟨⟨0⟩, ⟨0⟩⟩ (.failed .timeout))).Yields es x :=
        ⟨_, _, yields_run Script.peers _ {}⟩
  have hreport : Operation.report? (.a2dpResumed ⟨⟨0⟩, ⟨0⟩⟩ (.failed .timeout)) =
      some ⟨true, ⟨⟨0⟩, ⟨0⟩⟩, false⟩ := rfl
  obtain ⟨t, pre, o, post, call, -, -, -, -, -, -, houtcome⟩ :=
    run.completion_outcome hreport hexpects
  obtain ⟨queued, hcompleted, hlater⟩ := houtcome es () b' hwent
  cases queued with
  | none =>
    -- nothing was delivered, and there is room in the queue
    cases hcompleted with
    | delivered tried _ => cases tried
    | ended _ _ now _ _ =>
      rw [now rfl] at hroom
      cases hroom
  | some q =>
    rcases hlater q rfl [] b' .nil
      with ⟨s, hs, -⟩ | ⟨access, calls, -, hstays, -, -, hdrain⟩
    · cases hs
    · refine ⟨_, _, es, b', t, pre, o, post, call, q, run, hwent, hcompleted, ?_,
        fun es₁ n b₁ h => ?_⟩
      · rw [hstays]
        rfl
      · exact (hdrain es₁ n b₁ h).2.1

end AudioBroker
