import AudioBroker.Proofs.Broker.Life
import AudioBroker.Proofs.Completion

/-!
# How an operation passes an owner on

Between two operations an owner waits for the end of its start, or it has its
descriptor, or it has failed. An operation that reports the end of a start passes
the owner that waits for it on, and sends at most one descriptor, which is for this
owner. Every other operation leaves the owners as they are, but for directions that
they give back, or it takes on a new one, and sends no descriptor at all.

- `Owner.Proceeds`: what an operation makes of an owner that outlives it, and what
  it sends to it.
- `Broker.hearer?`: the owner that hears the report of an operation;
  `Broker.sendsTo`: what is sent to an owner.
- `Broker.Completed.passed`: what a report makes of the owners.
- `Step.admitted_or_passed`: where the owners after a step come from.
- `Step.sendings_cases`: who is sent a descriptor.
-/

namespace AudioBroker

open Dialogue

/-! ### What an operation makes of an owner -/

namespace Owner

/-- What an operation makes of an owner that outlives it, with the descriptor that
is in place before and after it and what is sent to the owner. -/
inductive Proceeds (o : Owner) (fd fd' : Option StreamFd) :
    List Sending → Owner → Prop where
  /-- It has no more directions than before, and is sent nothing. -/
  | stays {access : Access} (less : access ⊆ o.access)
      (present : fd.isSome = true → fd'.isSome = true) :
      Proceeds o fd fd' [] { o with access }
  /-- It waited, and has got its descriptor. -/
  | delivered {call : PendingCall} {sent : StreamFd} (waits : o.awaits = true)
      (unspent : o.unspent? = some call) (present : fd'.isSome = true) :
      Proceeds o fd fd' [⟨call, sent, .delivered⟩] { o with pending := none }
  /-- It waited, and has failed: no descriptor was sent, or the one that was sent
  did not come to its client. -/
  | failed {call : PendingCall} {sent : StreamFd} {delivery : Option Delivery}
      (waits : o.awaits = true)
      (unspent : o.unspent? = some call) (undelivered : delivery ≠ some .delivered) :
      Proceeds o fd fd' (delivery.toList.map fun d => ⟨call, sent, d⟩)
        (o.concluded call delivery).schedule

variable {o o' : Owner} {fd fd' : Option StreamFd} {sent : List Sending}

theorem Proceeds.name_eq (h : o.Proceeds fd fd' sent o') : o'.name = o.name := by
  cases h <;> rfl

theorem Proceeds.id_eq (h : o.Proceeds fd fd' sent o') : o'.id = o.id := by
  cases h <;> rfl

end Owner

namespace Transport

variable {t : Transport} {es : List Exchange} {call : PendingCall} {success : Bool}
  {stream : Option Stream} {sent : Option Delivery}

/-- A stream that was in place is followed by another one, and one is in place where
a descriptor was sent. -/
theorem Tried.present (h : t.Tried call success es stream sent) :
    (t.fd.isSome = true → (stream.map Stream.fd).isSome = true) ∧
      (sent.isSome = true → (stream.map Stream.fd).isSome = true) := by
  cases h with
  | failed | streamless _ => exact ⟨fun h => h, nofun⟩
  | sent _ _ stored =>
    rw [stored]
    exact ⟨fun _ => rfl, fun _ => rfl⟩

end Transport

namespace Broker

variable {b b' : Broker} {op : Operation} {t t' : Transport} {o o' : Owner}
  {es : List Exchange} {r : Report}
  {call : PendingCall} {pre post : List Owner} {queued : Option Owner}

/-- The owner that hears the report of an operation, by its transport and its
client: it waits for the end of a start, and the report comes from the layer of its
transport. -/
def hearer? (b : Broker) (op : Operation) : Option (TransportId × ClientName) := do
  let r ← op.report?
  let t ← b.transports.get? r.token.transport
  let (_, o) ← t.owner? r.token.owner
  if t.backend.isA2dp = r.isA2dp ∧ o.awaits = true then some (t.id, o.name) else none

/-- Nobody hears an operation that reports no end of a start. -/
theorem hearer?_of_report?_eq_none (h : op.report? = none) : b.hearer? op = none := by
  rw [hearer?, h]
  rfl

/-- The owner that waits for a report is the one that hears it. -/
theorem hearer?_eq {i : Nat} (report : op.report? = some r)
    (hget : b.transports.get? r.token.transport = some t)
    (kind : t.backend.isA2dp = r.isA2dp)
    (names : t.owner? r.token.owner = some (i, o)) (waits : o.awaits = true) :
    b.hearer? op = some (t.id, o.name) := by
  simp [hearer?, report, hget, names, kind, waits]

/-- The descriptors that an operation sends to the owner of a client, which is the
one that hears its report. -/
def sendsTo (b : Broker) (op : Operation) (es : List Exchange) (id : TransportId)
    (name : ClientName) :
    List Sending :=
  if b.hearer? op = some (id, name) then sendings es else []

/-- No descriptor is sent by an operation that reports no end of a start. -/
theorem sendsTo_of_unreported (h : op.report? = none) (id : TransportId)
    (name : ClientName) :
    b.sendsTo op es id name = [] := by
  rw [sendsTo, hearer?_of_report?_eq_none h]
  rfl

/-- An owner that was live before the operation, and that the operation has passed
on. -/
def Passed (b : Broker) (op : Operation) (es : List Exchange) (t' : Transport)
    (o' : Owner) : Prop :=
  ∃ t o, b.transports.get? t'.id = some t ∧ o ∈ t.owners.toList ∧
    o.Proceeds t.fd t'.fd (b.sendsTo op es t'.id o'.name) o'

/-- Who is sent nothing, and has no more directions than before. -/
theorem passed_of_stays {access : Access} (hget : b.transports.get? t'.id = some t)
    (ho : o ∈ t.owners.toList) (nothing : b.sendsTo op es t'.id o.name = [])
    (less : access ⊆ o.access)
    (present : t.fd.isSome = true → t'.fd.isSome = true) :
    b.Passed op es t' { o with access } := by
  refine ⟨t, o, hget, ho, ?_⟩
  rw [nothing]
  exact .stays less present

/-- An owner in a transport that was not touched has passed. -/
theorem passed_refl (hget : b.transports.get? t'.id = some t')
    (ho : o ∈ t'.owners.toList) (nothing : b.sendsTo op es t'.id o.name = []) :
    b.Passed op es t' o :=
  passed_of_stays hget ho nothing (Access.subset_refl o.access) id

/-- After a report was heard, its transport has other owners for whom it means
nothing. -/
theorem passed_of_heard (t₁ : Transport) (hd : b.transports.Distinct)
    (shared : t.Shared) (hget : b.transports.get? t.id = some t)
    (howners : t.owners.toList = pre ++ o :: post)
    (heard : b.hearer? op = some (t.id, o.name)) (hid : t₁.id = t.id)
    (present : t.fd.isSome = true → t₁.fd.isSome = true)
    (left : ∀ o' ∈ t₁.owners.toList,
      o' ∈ pre ++ post ∨ o.Proceeds t.fd t₁.fd (sendings es) o')
    (ht' : t' ∈ (b.transports.replace t₁).toList) (ho' : o' ∈ t'.owners.toList) :
    b.Passed op es t' o' := by
  by_cases hsame : t'.id = t₁.id
  · obtain rfl := Registry.eq_of_mem_replace ht' hsame
    rcases left o' ho' with hother | hproceeds
    · have hne := shared.name_ne howners hother
      refine passed_of_stays (hid ▸ hget) ?_ (if_neg fun h => hne ?_)
        (Access.subset_refl o'.access) present
      · rw [howners]
        exact BoundedList.mem_around.mpr (.inr hother)
      · exact (Prod.mk.inj (Option.some.inj (heard.symm.trans h))).2.symm
    · refine ⟨t, o, hid ▸ hget, by simp [howners], ?_⟩
      rw [sendsTo, hproceeds.name_eq, hid, if_pos heard]
      exact hproceeds
  · have hmem := (Registry.mem_replace ht').resolve_left fun heq =>
      hsame (congrArg Transport.id heq)
    refine passed_refl (hd.get?_of_mem hmem) ho' (if_neg fun h => hsame ?_)
    exact (Prod.mk.inj (Option.some.inj (h.symm.trans heard))).1.trans hid.symm

/-- What is said when the end of a start is reported sends one descriptor at most,
and only to the owner's call. -/
theorem Completed.sendings_eq (h : b.Completed r t pre o post call es b' queued) :
    ∃ (fd : StreamFd) (sent : Option Delivery),
      sendings es = sent.toList.map fun d => ⟨call, fd, d⟩ := by
  cases h with
  | delivered tried _ =>
    obtain ⟨fd, hsent⟩ := tried.sendings_eq
    exact ⟨fd, _, hsent⟩
  | queued tried _ _ _ _ =>
    obtain ⟨fd, hsent⟩ := tried.sendings_eq
    exact ⟨fd, _, hsent⟩
  | @ended es es' stream sent owners tried undelivered now gone parting =>
    obtain ⟨fd, hsent⟩ := tried.sendings_eq
    refine ⟨fd, sent, ?_⟩
    -- ending the watch, failing the call and unlocking the stream send no
    -- descriptor
    have hparting : Unsent es' := by
      refine unsent_of_calls parting fun c hc => ?_
      rw [List.mem_append, List.mem_append] at hc
      rcases hc with (hc | hc) | hc
      · obtain ⟨w, -, rfl⟩ := List.mem_map.mp hc
        rfl
      · split at hc
        · rw [List.mem_singleton.mp hc]
          rfl
        · cases hc
      · split at hc
        · exact Call.sends_of_isUnlock (Backend.isUnlock_of_mem hc)
        · cases hc
    rw [sendings, List.filterMap_append]
    show sendings es ++ sendings es' = _
    rw [hparting.sendings_eq, List.append_nil, hsent]

/-- What the report of the end of a start makes of the owners. -/
theorem Completed.passed (h : b.Completed r t pre o post call es b' queued)
    (hd : b.transports.Distinct) (shared : t.Shared)
    (hget : b.transports.get? t.id = some t)
    (howners : t.owners.toList = pre ++ o :: post)
    (heard : b.hearer? op = some (t.id, o.name)) (waits : o.awaits = true)
    (unspent : o.unspent? = some call) (ht' : t' ∈ b'.transports.toList)
    (ho' : o' ∈ t'.owners.toList) : b.Passed op es t' o' := by
  cases h with
  | @delivered _ stream owners tried answered =>
    obtain ⟨hkept, hsent⟩ := tried.present
    obtain ⟨fd, hsendings⟩ := tried.sendings_eq
    refine passed_of_heard { t with stream, owners } hd shared hget howners heard
      rfl hkept (fun u hu => ?_) ht' ho'
    replace hu : u ∈ owners.toList := hu
    rw [answered] at hu
    rcases BoundedList.mem_around.mp hu with rfl | hu
    · rw [hsendings]
      exact .inr (.delivered waits unspent (hsent rfl))
    · exact .inl hu
  | @queued _ stream sent owners deferred tried undelivered _ marked _ =>
    obtain ⟨hkept, -⟩ := tried.present
    obtain ⟨fd, hsendings⟩ := tried.sendings_eq
    refine passed_of_heard { t with stream, owners } hd shared hget howners heard
      rfl hkept (fun u hu => ?_) ht' ho'
    replace hu : u ∈ owners.toList := hu
    rw [marked] at hu
    rcases BoundedList.mem_around.mp hu with rfl | hu
    · rw [hsendings]
      exact .inr (.failed waits unspent undelivered)
    · exact .inl hu
  | @ended _ _ stream _ owners tried _ _ gone _ =>
    obtain ⟨hkept, -⟩ := tried.present
    refine passed_of_heard
      { t with stream, owners, locks := t.locks \ o.access,
               inUse := t.inUse && !owners.isEmpty }
      hd shared hget howners heard rfl hkept (fun u hu => .inl ?_) ht' ho'
    replace hu : u ∈ owners.toList := hu
    rwa [gone] at hu

end Broker

/-! ### Steps -/

/-- A step takes on an owner: its client has asked for access to the transport, of
which it owned nothing. -/
structure Step.Admits (s : Step) (id : TransportId) (name : ClientName)
    (call : PendingCall) : Prop where
  requested : ∃ path text,
    s.op.core = .acquire path name.str text call ∧ s.before.idAt? path = some id
  new : s.before.ownerNamed? id name = none

/-- An owner that was taken on by the step, and for which a start is under way. -/
def Step.Admitted (s : Step) (t : Transport) (o : Owner) : Prop :=
  ∃ call request, s.Admits t.id o.name call ∧
    o.pending = some ⟨some call, some request⟩ ∧ o.scheduled = false

namespace Step

variable {s : Step} {t' : Transport} {o' : Owner} {r : Report}

/-- Where the owners come from after a step that reports no end of a start. -/
theorem admitted_or_passed_of_unreported (hd : s.before.transports.Distinct)
    (hop : s.op.core.isLocal = true) (unreported : s.op.report? = none)
    (ht' : t' ∈ s.after.transports.toList) (ho' : o' ∈ t'.owners.toList) :
    s.Admitted t' o' ∨ s.before.Passed s.op s.exchanges t' o' := by
  have nothing : ∀ name, s.before.sendsTo s.op s.exchanges t'.id name = [] :=
    Broker.sendsTo_of_unreported unreported t'.id
  obtain ⟨result, es, answer, hperformed, -, -⟩ := Broker.perform_core s.performed
  obtain ⟨-, hsame | ⟨t, left, hnames, hlive, hleft, honward⟩⟩ :=
    Broker.onward_cases hd hop (s.op.report?_core.trans unreported) hperformed
  · rw [hsame] at ht'
    exact .inr (Broker.passed_refl (hd.get?_of_mem ht') ho' (nothing o'.name))
  · rw [hleft] at ht'
    rcases Registry.mem_put ht' with hmem | hmem
    · -- the transport that the operation names, or another one, which is as it was
      obtain ⟨hid, hfd, howners⟩ := honward t' hmem
      rw [← hid] at hnames hlive
      cases howners o' ho' with
      | stays there less =>
        exact .inr (Broker.passed_of_stays hlive there (nothing _) less (hfd ▸ id))
      | @joins o path text call request names new waits unmarked =>
        refine .inl ⟨call, request, ⟨⟨path, text, names, ?_⟩, ?_⟩, waits, unmarked⟩
        · rwa [names] at hnames
        · by_contra hfound
          obtain ⟨u, hu⟩ := Option.ne_none_iff_exists'.mp hfound
          obtain ⟨t₁, hget, hmem, hname⟩ := Broker.ownerNamed?_eq_some hu
          obtain rfl : t = t₁ := Option.some.inj (hlive.symm.trans hget)
          exact new u hmem hname
    · exact .inr (Broker.passed_refl (hd.get?_of_mem hmem) ho' (nothing o'.name))

/-- Where the owners come from after a step that reports the end of a start. -/
theorem passed_of_reported (hd : s.before.transports.Distinct)
    (shared : ∀ t ∈ s.before.transports.toList, t.Shared)
    (answerable : ∀ t ∈ s.before.transports.toList, ∀ o ∈ t.owners.toList,
      o.Answerable)
    (report : s.op.report? = some r) (ht' : t' ∈ s.after.transports.toList)
    (ho' : o' ∈ t'.owners.toList) :
    s.before.Passed s.op s.exchanges t' o' := by
  have hreported := s.reported report
  by_cases expects : s.before.Expects r.isA2dp r.token
  · obtain ⟨t, pre, o, post, call, hget, kind, howners, hfound, waits, unspent,
        hcompletes⟩ :=
      Broker.completed_of_expects answerable expects
    obtain ⟨queued, hcompleted⟩ := hcompletes _ _ hreported
    exact hcompleted.passed hd (shared t (Registry.get?_eq_some hget).1)
      (Registry.get?_id hget) howners
      (Broker.hearer?_eq report hget kind hfound waits) waits unspent ht' ho'
  · rw [Broker.report_of_not_expects hd expects] at hreported
    obtain ⟨hnothing, hsame⟩ := yields_pure.mp hreported
    rw [hsame] at ht'
    refine Broker.passed_refl (hd.get?_of_mem ht') ho' ?_
    rw [Broker.sendsTo, hnothing]
    exact ite_self _

/-- An owner that lives after a step was taken on by it, or it was live before, and
was passed on. -/
theorem admitted_or_passed (hd : s.before.transports.Distinct)
    (tracked : s.before.Tracked)
    (shared : ∀ t ∈ s.before.transports.toList, t.Shared)
    (answerable : ∀ t ∈ s.before.transports.toList, ∀ o ∈ t.owners.toList,
      o.Answerable)
    (ht' : t' ∈ s.after.transports.toList) (ho' : o' ∈ t'.owners.toList) :
    s.Admitted t' o' ∨ s.before.Passed s.op s.exchanges t' o' := by
  rcases s.op.core_cases with ⟨endpoint, device, configuration, hop⟩ | hop | hlocal
  · have unreported : s.op.report? = none := by rw [hop]; rfl
    rcases created_or_untouched hop ht' with ⟨_, _, _, -, hcreate⟩ | hmem
    · rw [Transport.owners_of_create hcreate] at ho'
      cases ho'
    · exact .inr (Broker.passed_refl (hd.get?_of_mem hmem) ho'
        (Broker.sendsTo_of_unreported unreported _ _))
  · have unreported : s.op.report? = none := by rw [hop]; rfl
    rw [after_of_drain hd tracked hop] at ht'
    obtain ⟨t, hmem, rfl⟩ := List.mem_map.mp ht'
    have hlive : s.before.transports.get? t.swept.id = some t := hd.get?_of_mem hmem
    refine .inr (Broker.passed_of_stays hlive (List.mem_filter.mp ho').1
      (Broker.sendsTo_of_unreported unreported _ _) (Access.subset_refl o'.access) id)
  · cases report : s.op.report? with
    | none => exact admitted_or_passed_of_unreported hd hlocal report ht' ho'
    | some r => exact .inr (passed_of_reported hd shared answerable report ht' ho')

/-- A step that reports no end of a start sends no descriptor. -/
theorem unsent_of_unreported (hd : s.before.transports.Distinct)
    (tracked : s.before.Tracked) (unreported : s.op.report? = none) :
    Unsent s.exchanges := by
  obtain ⟨b, op, es, result, b', performed⟩ := s
  rcases op.core_cases with ⟨endpoint, device, configuration, rfl⟩ | rfl | hlocal
  · rcases Broker.create_cases performed with
      ⟨-, -, -, ⟨-, hes⟩ | ⟨-, t, -, hes⟩⟩ | ⟨t, transports, -, -, -, hes, -⟩ <;>
    simp [Unsent, hes, Call.sends]
  · obtain ⟨-, hcalls, -⟩ := Broker.runDeferred_sweeps hd tracked performed
    refine unsent_of_calls rfl fun c hc => ?_
    obtain ⟨t, -, hc⟩ := List.mem_flatMap.mp (hcalls.mem_iff.mp hc)
    exact t.unsent_sweepCalls c hc
  · obtain ⟨result', es₁, answer, hperformed, rfl, hanswer⟩ :=
      Broker.perform_core performed
    obtain ⟨hunsent, -⟩ := Broker.onward_cases hd hlocal
      (op.report?_core.trans unreported) hperformed
    refine hunsent.append (unsent_of_calls hanswer fun c hc => ?_)
    obtain ⟨call, -, hc⟩ := List.mem_flatMap.mp hc
    obtain ⟨reply, hreply, rfl⟩ := List.mem_map.mp hc
    -- the answer of a method is never a descriptor: these are left to the owners
    cases reply with
    | descriptor fd =>
      exact absurd (Option.mem_toList.mp hreply) Operation.reply?_ne_descriptor
    | _ => rfl

/-- A step sends no descriptor, or it sends one: to the owner that hears its report,
which waits, and to answer the call of this owner. -/
theorem sendings_cases (hd : s.before.transports.Distinct)
    (tracked : s.before.Tracked)
    (shared : ∀ t ∈ s.before.transports.toList, t.Shared)
    (answerable : ∀ t ∈ s.before.transports.toList, ∀ o ∈ t.owners.toList,
      o.Answerable) :
    sendings s.exchanges = [] ∨ ∃ id name o call fd delivery,
      s.before.hearer? s.op = some (id, name) ∧
      s.before.ownerNamed? id name = some o ∧ o.awaits = true ∧
      o.unspent? = some call ∧
        sendings s.exchanges = [⟨call, fd, delivery⟩] := by
  cases report : s.op.report? with
  | none => exact .inl (unsent_of_unreported hd tracked report).sendings_eq
  | some r =>
    have hreported := s.reported report
    by_cases expects : s.before.Expects r.isA2dp r.token
    · obtain ⟨t, pre, o, post, call, hget, kind, howners, hfound, waits, unspent,
          hcompletes⟩ :=
        Broker.completed_of_expects answerable expects
      obtain ⟨queued, hcompleted⟩ := hcompletes _ _ hreported
      obtain ⟨fd, sent, hsent⟩ := hcompleted.sendings_eq
      cases sent with
      | none => exact .inl hsent
      | some delivery =>
        have hears := Broker.hearer?_eq report hget kind hfound waits
        refine .inr ⟨t.id, o.name, o, call, fd, delivery, hears, ?_, waits, unspent,
          hsent⟩
        exact Broker.ownerNamed?_of_mem (Registry.get?_id hget)
          (shared t (Registry.get?_eq_some hget).1) (by simp [howners])
    · rw [Broker.report_of_not_expects hd expects] at hreported
      rw [(yields_pure.mp hreported).1]
      exact .inl rfl

end Step

end AudioBroker
