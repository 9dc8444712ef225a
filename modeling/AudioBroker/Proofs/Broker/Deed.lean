import AudioBroker.Proofs.Broker.Lineage
import AudioBroker.Proofs.Broker.Report
import AudioBroker.Proofs.Broker.Sweep

/-!
# Deeds

Most operations work on the one transport that they name. What they do with it is
their deed. What the broker does about it afterwards is the same for all of them:
the transport is put back or dropped, and an owner that was marked is put into the
queue.

- `Operation.addressee?`, `Operation.target?`: the transport that an operation
  names.
- `Deed`, `Operation.deed`: what an operation does with its transport.
- `Broker.settle`: what the broker does about a deed.
- `Broker.perform_of_target`, `Broker.perform_of_no_target`: an operation is its
  deed, and its settlement.
- `Deed.Spec`: what a deed can come to; `Broker.Settles`: what its settlement can
  come to.
-/

namespace AudioBroker

open Dialogue

/-! ### The transport that an operation names -/

namespace Operation

/-- The number of the transport that an operation names: by the number itself, by a
token, or by a path. -/
def addressee? (b : Broker) : Operation → Option TransportId
  | .create _ _ _ | .runDeferred => none
  | .remove id | .reportDelay id _ | .handle (.delayed id _) => some id
  | .exit token | .a2dpResumed token _ | .voiceConnected token _
  | .handle (.exited token) | .handle (.a2dpResumed token _)
  | .handle (.voiceConnected token _) => some token.transport
  | .acquire path _ _ _ | .release path _ _ | .properties path | .setProperty path _ _
  | .dispatch path _ _ _ => b.idAt? path
  | .handle (.call path _ _ _) => b.idAt? path.str

/-- The live transport that an operation names. -/
def target? (b : Broker) (op : Operation) : Option Transport :=
  (op.addressee? b).bind b.transports.get?

/-- The transport that an operation names is live, under the number that is named. -/
theorem target?_eq_some {b : Broker} {op : Operation} {t : Transport}
    (h : op.target? b = some t) :
    op.addressee? b = some t.id ∧ b.transports.get? t.id = some t := by
  obtain ⟨id, hid, hget⟩ := Option.bind_eq_some_iff.mp h
  obtain ⟨-, rfl⟩ := Registry.get?_eq_some hget
  exact ⟨hid, hget⟩

/-- An operation that works on one transport. -/
def isLocal : Operation → Bool
  | .remove _ | .acquire _ _ _ _ | .release _ _ _ | .properties _ |
    .setProperty _ _ _ | .exit _
  | .a2dpResumed _ _ | .voiceConnected _ _ | .reportDelay _ _ => true
  | .create _ _ _ | .runDeferred | .dispatch _ _ _ _ | .handle _ => false

/-- Whether an operation is a request for access, be it made by a method call or
not. -/
def isAcquire : Operation → Bool
  | .acquire _ _ _ _ => true
  | _ => false

end Operation

/-! ### What is done with it -/

/-- What an operation has done with its transport. -/
structure Deed (α : Type) where
  result : α
  /-- What is left of the transport; nothing is left of one that was withdrawn. -/
  left : Option Transport
  /-- The owner that was marked. -/
  marked : Option Token

/-- The transport goes on, and nobody was marked. -/
def Deed.kept {α : Type} (result : α) (t : Transport) : Deed α :=
  { result, left := some t, marked := none }

/-- Hears a report, if it comes from the layer of the transport. -/
def Transport.hear (t : Transport) (r : Report) : Dialogue (Deed Unit) :=
  if t.backend.isA2dp = r.isA2dp then do
    let (completion, t) ← t.complete r.token.owner r.success
    return { result := (), left := some t,
             marked := if completion = .deferred then some r.token else none }
  else pure (.kept () t)

namespace Operation

/-- What an operation does with its transport. The number is for the owner that it
may take on. -/
def deed (next : OwnerId) (t : Transport) :
    (op : Operation) → op.isLocal = true → Dialogue (Deed op.Result)
  | .remove _, _ => do
    Dialogue.makeAll [.unregister t.path]
    let t ← t.endAll
    Dialogue.makeAll t.backend.closeCalls
    return { result := true, left := none, marked := none }
  | .acquire _ client access call, _ => do
    let (result, t) ← t.acquire client access call next
    return .kept result t
  | .release _ client access, _ => do
    let (result, t) ← t.release client access
    return .kept result t
  | .properties _, _ => do
    let snapshot ← t.properties
    return .kept (.ok snapshot) t
  | .setProperty _ name value, _ => pure (.kept (t.setProperty name value) t)
  | .exit token, _ => do
    let (known, t) ← t.exit token.owner
    return .kept known t
  | .a2dpResumed token report, _ =>
    t.hear { isA2dp := true, token, success := report.isStarted }
  | .voiceConnected token connected, _ =>
    t.hear { isA2dp := false, token, success := connected }
  | .reportDelay _ delay, _ => do
    let t ← t.reportDelay delay
    return .kept (.ok ()) t

/-- What comes back from an operation whose transport does not exist. -/
def missing : (op : Operation) → op.isLocal = true → op.Result
  | .remove _, _ => false
  | .acquire _ _ _ call, _ => .error { fault := .doesNotExist, call }
  | .release _ _ _, _ => .error .doesNotExist
  | .properties _, _ => .error .doesNotExist
  | .setProperty _ _ _, _ => .error .doesNotExist
  | .exit _, _ => false
  | .a2dpResumed _ _, _ => ()
  | .voiceConnected _ _, _ => ()
  | .reportDelay _ _, _ => .error .doesNotExist

end Operation

/-- Stores what is left under a number. -/
def Registry.put (r : Registry) (id : TransportId) : Option Transport → Registry
  | none => r.erase id
  | some t => r.replace t

namespace Broker

/-- What the broker does about a deed: it stores what is left of the transport, a
request for access uses up a number, and an owner that was marked is put into the
queue. -/
def settle {α : Type} (b : Broker) (op : Operation) (id : TransportId)
    (d : Deed α) : Dialogue Broker :=
  let b := { b with transports := b.transports.put id d.left,
                    nextOwner := if op.isAcquire then b.nextOwner.next
                      else b.nextOwner }
  match d.marked with
  | none => pure b
  | some token => b.defer token

variable {b b' : Broker} {op : Operation} {t : Transport} {es : List Exchange}

theorem settle_kept {α : Type} (op : Operation) (h : op.isAcquire = false)
    (id : TransportId) (result : α) (t' : Transport) :
    b.settle op id (.kept result t') = pure (b.store t') := by
  simp only [settle, Deed.kept, h, Bool.false_eq_true, if_false]
  rfl

/-- Where numbers differ, the transport at a path is the one that its number finds. -/
theorem find?_of_idAt? {path : String} (h : b.idAt? path = some t.id)
    (hd : b.transports.Distinct) (live : b.transports.get? t.id = some t) :
    b.transports.find? path = some t := by
  obtain ⟨u, hu, hid⟩ := Option.map_eq_some_iff.mp h
  have hget := hd.get?_of_mem (Registry.find?_eq_some hu).1
  rw [hid, live] at hget
  rwa [Option.some.inj hget]

/-- A report is heard by the transport that it names, and settled by the broker. -/
theorem report_eq_hear {r : Report} (hd : b.transports.Distinct)
    (live : b.transports.get? r.token.transport = some t) (h : op.isAcquire = false) :
    (((), ·) <$> b.report r : Dialogue (Unit × Broker)) =
      t.hear r >>= fun d => (d.result, ·) <$> b.settle op t.id d := by
  rw [report, live]
  by_cases hkind : t.backend.isA2dp = r.isA2dp
  · simp only [Transport.hear, if_pos hkind, bind_assoc, complete, map_bind,
      pure_bind]
    congr 1
    funext answer
    obtain ⟨completion, t'⟩ := answer
    -- the only completion that the broker has more to do about is the deferred one
    by_cases hdeferred : completion = .deferred
    · simp [hdeferred, settle, h, Registry.put, store]
    · simp [hdeferred, settle, h, Registry.put, store]
  · simp only [Transport.hear, if_neg hkind, pure_bind, settle_kept op h,
      store_self hd live]

/-- An operation whose transport lives does its deed, and the broker settles it. -/
theorem perform_of_target (hd : b.transports.Distinct) (hop : op.isLocal = true)
    (live : op.target? b = some t) : b.perform op =
      op.deed b.nextOwner t hop >>= fun d =>
        (d.result, ·) <$> b.settle op t.id d := by
  obtain ⟨hid, hget⟩ := Operation.target?_eq_some live
  -- an operation that stores what it leaves of the transport is its deed, settled;
  -- one that leaves it alone stores it as it is
  cases op with
  | remove id =>
    cases hid
    simp [perform, remove, hget, Operation.deed, settle, Operation.isAcquire,
      Registry.put]
  | acquire path client access call =>
    have ht : b.transportAt? path = some t := live
    simp [perform, acquire, ht, Operation.deed, settle, Deed.kept,
      Operation.isAcquire, Registry.put, store]
  | release path client access =>
    have ht : b.transportAt? path = some t := live
    simp only [perform, release, ht, Operation.deed, bind_assoc, pure_bind, map_pure,
      settle_kept (.release path client access) rfl]
    rfl
  | properties path =>
    have ht := find?_of_idAt? hid hd hget
    simp only [perform, properties, ht, Operation.deed, bind_assoc, pure_bind,
      map_bind, map_pure, settle_kept (.properties path) rfl, store_self hd hget]
    rfl
  | setProperty path name value =>
    have ht : b.transportAt? path = some t := live
    simp only [perform, setProperty, ht, Operation.deed, pure_bind, map_pure,
      settle_kept (.setProperty path name value) rfl, store_self hd hget]
    rfl
  | exit token =>
    have ht : b.transports.get? token.transport = some t := live
    simp only [perform, exit, ht, Operation.deed, bind_assoc, pure_bind, map_pure,
      settle_kept (.exit token) rfl]
    rfl
  | a2dpResumed token report =>
    rw [perform, a2dpResumed_eq_report]
    exact report_eq_hear
      (r := { isA2dp := true, token, success := report.isStarted }) hd live rfl
  | voiceConnected token connected =>
    rw [perform, voiceConnected_eq_report]
    exact report_eq_hear (r := { isA2dp := false, token, success := connected }) hd
      live rfl
  | reportDelay id delay =>
    have ht : b.transports.get? id = some t := live
    simp only [perform, reportDelay, ht, Operation.deed, bind_assoc, pure_bind,
      map_pure, settle_kept (.reportDelay id delay) rfl]
    rfl
  | create _ _ _ | runDeferred | dispatch _ _ _ _ | handle _ => cases hop

/-- An operation whose transport does not exist does nothing. -/
theorem perform_of_no_target (hd : b.transports.Distinct) (hop : op.isLocal = true)
    (gone : op.target? b = none) : b.perform op = pure (op.missing hop, b) := by
  cases op with
  | remove id =>
    have hnone : b.transports.get? id = none := gone
    simp only [perform, remove, hnone]
    rfl
  | acquire path client access call =>
    have hnone : b.transportAt? path = none := gone
    simp only [perform, acquire, hnone]
    rfl
  | release path client access =>
    have hnone : b.transportAt? path = none := gone
    simp only [perform, release, hnone]
    rfl
  | properties path =>
    -- a transport that is found at the path would be found by its number too
    have hnone : b.transports.find? path = none := by
      by_contra hsome
      obtain ⟨t, ht⟩ := Option.ne_none_iff_exists'.mp hsome
      have hget := hd.get?_of_mem (Registry.find?_eq_some ht).1
      simp [Operation.target?, Operation.addressee?, idAt?, ht, hget] at gone
    simp only [perform, properties, hnone, map_pure]
    rfl
  | setProperty path name value =>
    have hnone : b.transportAt? path = none := gone
    simp only [perform, setProperty, hnone]
    rfl
  | exit token =>
    have hnone : b.transports.get? token.transport = none := gone
    simp only [perform, exit, hnone]
    rfl
  | a2dpResumed token report =>
    have hnone : b.transports.get? token.transport = none := gone
    simp only [perform, a2dpResumed, hnone, map_pure]
  | voiceConnected token connected =>
    have hnone : b.transports.get? token.transport = none := gone
    simp only [perform, voiceConnected, hnone, map_pure]
  | reportDelay id delay =>
    have hnone : b.transports.get? id = none := gone
    simp only [perform, reportDelay, hnone]
    rfl
  | create _ _ _ | runDeferred | dispatch _ _ _ _ | handle _ => cases hop

end Broker

/-! ### What a deed can come to -/

namespace Deed

/-- What the deed of an operation can come to. -/
inductive Spec {α : Type} (op : Operation) (t : Transport) :
    List Exchange → Deed α → Prop where
  /-- The transport goes on. -/
  | kept {t' : Transport} {result : α} {ls : List Incident} {es : List Exchange}
      (course : t.Course ls es t') (calm : op.isAcquire = false → Calm ls) :
        Spec op t es (.kept result t')
  /-- An owner was marked, which is the first one with its number. -/
  | marked {t' : Transport} {result : α} {token : Token}
      {pre post : List (OwnerId × Bool)}
      {es : List Exchange} (course : t.Course [] es t')
      (here : token.transport = t.id)
      (stamps : t'.stamps = pre ++ (token.owner, true) :: post)
      (first : ∀ s ∈ pre, s.1 ≠ token.owner) :
      Spec op t es { result, left := some t', marked := some token }
  /-- The transport was withdrawn. -/
  | removed {t' : Transport} {result : α} {es es' : List Exchange}
      (names : op = .remove t.id)
      (ends : t.endAll.Yields es t')
      (closing : es'.map Exchange.call = t'.backend.closeCalls) :
      Spec op t (⟨.unregister t.path, ()⟩ :: (es ++ es'))
        { result, left := none, marked := none }

variable {α : Type} {op : Operation} {t : Transport} {es : List Exchange} {d : Deed α}

/-- What is left of a transport is on its terms. -/
theorem Spec.terms_eq (h : Spec op t es d) : ∀ t' ∈ d.left, t'.terms = t.terms := by
  intro t' ht'
  cases h with
  | kept course _ =>
    cases ht'
    exact course.terms_eq
  | marked course _ _ _ =>
    cases ht'
    exact course.terms_eq
  | removed _ _ _ => cases ht'

/-- Only a request for access gives out a token. -/
theorem Spec.untold (h : Spec op t es d) (hop : op.isAcquire = false) :
    Untold es := by
  cases h with
  | kept course calm => exact (course.keeps (calm hop)).untold
  | marked course _ _ _ => exact (course.keeps calm_nil).untold
  | removed _ ends closing =>
    have hends := ((Transport.endFirst_course ends).keeps calm_nil).untold
    have hclosing : Untold _ := untold_of_calls closing fun c hc => by
      obtain ⟨session, -, rfl⟩ := List.mem_map.mp hc
      rfl
    intro e he
    rcases List.mem_cons.mp he with rfl | he
    · rfl
    · exact (hends.append hclosing) e he

end Deed

/-- What is done first, and then kept. -/
theorem yields_kept {α β : Type} {d : Dialogue α} {result : α → β}
    {left : α → Transport} {es : List Exchange} {deed : Deed β}
    (h : (d >>= fun a => pure (Deed.kept (result a) (left a))).Yields es deed) :
    ∃ a, d.Yields es a ∧ deed = .kept (result a) (left a) := by
  obtain ⟨es₁, a, es₂, rfl, h₁, h₂⟩ := yields_bind.mp h
  obtain ⟨rfl, rfl⟩ := yields_pure.mp h₂
  exact ⟨a, by simpa using h₁, rfl⟩

/-- A report marks an owner of the transport, or it marks nobody. -/
theorem Transport.hear_spec {op : Operation} {t : Transport} {r : Report}
    {es : List Exchange} {d : Deed Unit} (here : r.token.transport = t.id)
    (h : (t.hear r).Yields es d) :
    Deed.Spec op t es d := by
  unfold hear at h
  split at h
  · obtain ⟨es₁, ⟨completion, t'⟩, es₂, rfl, h₁, h₂⟩ := yields_bind.mp h
    obtain ⟨rfl, rfl⟩ := yields_pure.mp h₂
    have hcourse := complete_course h₁
    rw [List.append_nil]
    rcases complete_stamps h₁ with ⟨hnot, -⟩ |
      ⟨hdeferred, -, pre, post, -, hafter, hfirst⟩
    · rw [if_neg hnot]
      exact .kept hcourse fun _ => calm_nil
    · rw [if_pos hdeferred]
      exact .marked hcourse here hafter hfirst
  · obtain ⟨rfl, rfl⟩ := yields_pure.mp h
    exact .kept (.nil t) fun _ => calm_nil

/-- What an operation does with the transport that it names. -/
theorem Operation.deed_spec {b : Broker} {op : Operation} {next : OwnerId}
    {t : Transport} {es : List Exchange} (hop : op.isLocal = true)
    {d : Deed op.Result} (names : op.addressee? b = some t.id)
    (h : (op.deed next t hop).Yields es d) : Deed.Spec op t es d := by
  cases op with
  | remove id =>
    cases names
    obtain ⟨es₀, u, es', rfl, h₀, h⟩ := yields_bind.mp h
    obtain ⟨es₁, t', es₂, rfl, h₁, h₂⟩ := yields_bind.mp h
    obtain ⟨hclosing, rfl⟩ := yields_makeAll_pure.mp h₂
    obtain rfl := Broker.yields_unregister h₀
    show Deed.Spec _ t (⟨.unregister t.path, ()⟩ :: (es₁ ++ es₂)) _
    exact .removed rfl h₁ hclosing
  | acquire path client access call =>
    obtain ⟨⟨result, t'⟩, h₁, rfl⟩ := yields_kept h
    exact .kept (Transport.acquire_course h₁) nofun
  | release path client access =>
    obtain ⟨⟨result, t'⟩, h₁, rfl⟩ := yields_kept h
    exact .kept (Transport.release_course h₁) fun _ => calm_nil
  | properties path =>
    obtain ⟨snapshot, h₁, rfl⟩ := yields_kept h
    exact .kept (t.asked_course (Transport.properties_queries h₁)) fun _ => calm_nil
  | setProperty path name value =>
    obtain ⟨rfl, rfl⟩ := yields_pure.mp h
    exact .kept (.nil t) fun _ => calm_nil
  | exit token =>
    obtain ⟨⟨known, t'⟩, h₁, rfl⟩ := yields_kept h
    exact .kept (Transport.exit_course h₁) fun _ call => by simp
  | a2dpResumed token report =>
    have here : token.transport = t.id := Option.some.inj names
    exact Transport.hear_spec here h
  | voiceConnected token connected =>
    have here : token.transport = t.id := Option.some.inj names
    exact Transport.hear_spec here h
  | reportDelay id delay =>
    obtain ⟨t', h₁, rfl⟩ := yields_kept h
    exact .kept (Transport.reportDelay_course h₁) fun _ => calm_nil
  | create _ _ _ | runDeferred | dispatch _ _ _ _ | handle _ => cases hop

/-! ### What becomes of the broker -/

namespace Registry

variable {r : Registry} {t : Transport} {left : Option Transport} {id : TransportId}

/-- What is left under a number, and what has other numbers. -/
theorem mem_put {u : Transport} (h : u ∈ (r.put id left).toList) :
    u ∈ left ∨ u ∈ r.toList := by
  cases left with
  | none => exact .inr (List.mem_filter.mp h).1
  | some t => exact (mem_replace h).imp_left fun heq => congrArg some heq.symm

theorem put_self (hd : r.Distinct) (live : r.get? t.id = some t) :
    r.put t.id (some t) = r :=
  hd.replace_self live

/-- Transports with other numbers are found as before. -/
theorem get?_put_of_ne (hleft : ∀ t' ∈ left, t'.id = t.id) (hne : id ≠ t.id) :
    (r.put t.id left).get? id = r.get? id := by
  cases left with
  | none => exact get?_erase_of_ne r hne
  | some t' => exact get?_replace_of_ne r (hleft t' rfl ▸ hne)

end Registry

namespace Deed

/-- What the settlement of a deed can come to, with the calls that are made, what is
left of the transport, and the queue. -/
inductive Settled {α : Type} (d : Deed α) (queue : BoundedList Token maxDeferred) :
    List Exchange → Option Transport → BoundedList Token maxDeferred → Prop where
  | kept (nobody : d.marked = none) : Settled d queue [] d.left queue
  | queued {token : Token} {deferred : BoundedList Token maxDeferred}
      (marked : d.marked = some token)
      (push : queue.push? token = some deferred) : Settled d queue [] d.left deferred
  /-- There is no room for the owner that was marked, and it is torn down. -/
  | full {t : Transport} {token : Token} {i : Nat} {o : Owner} {es : List Exchange}
      (left : d.left = some t) (marked : d.marked = some token)
      (full : queue.push? token = none)
      (owner : t.owners.toList[i]? = some o) (scheduled : o.scheduled = true)
      (parting : es.map Exchange.call = t.partingCalls i) :
        Settled d queue es (some (t.without i)) queue

end Deed

namespace Broker

variable {b b' : Broker} {op : Operation} {t : Transport} {es es' : List Exchange}

/-- A deed on a transport has been settled: what is left of the transport is stored
under its number, a request for access has used up a number, and no other transport
is touched. -/
inductive Settles {α : Type} (b : Broker) (op : Operation) (t : Transport)
    (d : Deed α) (es : List Exchange) :
    Broker → Prop where
  | stored {left : Option Transport} {deferred : BoundedList Token maxDeferred}
      (settled : d.Settled b.deferred es left deferred)
      (terms : ∀ t' ∈ left, t'.terms = t.terms) :
      Settles b op t d es { b with transports := b.transports.put t.id left, deferred,
                                   nextOwner := if op.isAcquire
                                     then b.nextOwner.next else b.nextOwner }

/-- Whatever the broker does about a deed settles it. -/
theorem settles_of_yields {α : Type} {d : Deed α}
    (live : b.transports.get? t.id = some t) (spec : Deed.Spec op t es d)
    (h : (b.settle op t.id d).Yields es' b') : b.Settles op t d es' b' := by
  have hterms := spec.terms_eq
  cases spec with
  | kept course _ =>
    obtain ⟨rfl, rfl⟩ := yields_pure.mp h
    exact .stored (.kept rfl) hterms
  | removed _ _ _ =>
    obtain ⟨rfl, rfl⟩ := yields_pure.mp h
    exact .stored (.kept rfl) hterms
  | @marked t' result token pre post _ course here stamps first =>
    -- the token goes into the queue, or the owner it names is torn down at once
    rcases defer_cases h with ⟨deferred, hpush, rfl, rfl⟩ | ⟨hfull, -⟩
    · have hqueued : b.deferred.push? token = some deferred := hpush
      exact .stored (.queued rfl hqueued) hterms
    · -- the number that was used up, if any, has no part in this
      let b₁ :=
        { b with nextOwner := if op.isAcquire then b.nextOwner.next else b.nextOwner }
      have hlive : b₁.transports.get? token.transport = some t := by
        rw [here]
        exact live
      obtain ⟨i, o, ho, hs, hcalls, -, rfl⟩ :=
        defer_full hlive course.id_eq stamps first hfull h
      have hnoRoom : b.deferred.push? token = none := hfull
      refine Settles.stored (.full rfl rfl hnoRoom
        (Transport.owner?_eq_some ho).1 hs hcalls) ?_
      rintro u ⟨⟩
      exact (Transport.terms_without t' i).trans course.terms_eq

/-- An operation on a live transport: what it does with it, and what becomes of the
broker. -/
theorem perform_cases {result : op.Result} (hd : b.transports.Distinct)
    (hop : op.isLocal = true) (h : (b.perform op).Yields es (result, b')) :
    (op.target? b = none ∧ result = op.missing hop ∧ es = [] ∧ b' = b) ∨
      ∃ t es₁ d es₂, op.target? b = some t ∧
        (op.deed b.nextOwner t hop).Yields es₁ d ∧
        Deed.Spec op t es₁ d ∧ b.Settles op t d es₂ b' ∧ es = es₁ ++ es₂ ∧
        result = d.result := by
  cases htarget : op.target? b with
  | none =>
    rw [perform_of_no_target hd hop htarget] at h
    obtain ⟨rfl, h⟩ := yields_pure.mp h
    cases h
    exact .inl ⟨rfl, rfl, rfl, rfl⟩
  | some t =>
    obtain ⟨hnames, hlive⟩ := Operation.target?_eq_some htarget
    rw [perform_of_target hd hop htarget] at h
    obtain ⟨es₁, d, es₂, rfl, h₁, h₂⟩ := yields_bind.mp h
    obtain ⟨b₁, h₂, heq⟩ := yields_map.mp h₂
    cases heq
    have hspec := Operation.deed_spec hop hnames h₁
    exact .inr ⟨t, es₁, d, es₂, rfl, h₁, hspec, settles_of_yields hlive hspec h₂,
      rfl, rfl⟩

end Broker

end AudioBroker
