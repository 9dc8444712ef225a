import AudioBroker.Proofs.Broker.Visit
import AudioBroker.Proofs.InstalledStream
import AudioBroker.Proofs.Transport.Sent

/-!
# Operations that report no end of a start

An operation that reports no end of a start sends no descriptor. It leaves the
owners as they are, but for those that it ends and for directions that are given
back, or it takes on a new one, for which a start is under way.

- `Transport.Onward`: an owner after such an operation.
- `Operation.deed_onward`: what the operation does with its transport;
  `Broker.onward_cases`: and with the broker.
-/

namespace AudioBroker

open Dialogue

namespace Transport

variable {t t' : Transport} {op : Operation} {es : List Exchange} {i : Nat}
  {o : Owner} {id : OwnerId}

/-- An owner after an operation that reports no end of a start: it was there, or it
was taken on. -/
inductive Onward (t : Transport) (op : Operation) : Owner → Prop where
  | stays {o : Owner} {access : Access} (there : o ∈ t.owners.toList)
      (less : access ⊆ o.access) : Onward t op { o with access }
  /-- Its client has asked for access, and a start is under way. -/
  | joins {o : Owner} {path text : String} {call : PendingCall} {request : RequestId}
      (names : op = .acquire path o.name.str text call)
      (new : ∀ u ∈ t.owners.toList, u.name ≠ o.name)
      (waits : o.pending = some ⟨some call, some request⟩)
      (unmarked : o.scheduled = false) : Onward t op o

theorem Onward.refl (ho : o ∈ t.owners.toList) : t.Onward op o :=
  .stays ho (Access.subset_refl o.access)

/-- What a request for access comes to. -/
theorem acquire_onward {path client text : String} {call : PendingCall}
    {result : Except Rejection Unit}
    (h : (t.acquire client text call id).Yields es (result, t')) :
    Unsent es ∧ t'.stream = t.stream ∧
      ∀ o' ∈ t'.owners.toList, t.Onward (.acquire path client text call) o' := by
  rcases acquire_cases h with ⟨fault, -, -, rfl, rfl⟩ |
    ⟨name, access, hadmitted, -, htake⟩
  · exact ⟨unsent_nil, rfl, fun _ => .refl⟩
  · obtain ⟨hfree, -, -, rfl, room⟩ := admission_eq_ok hadmitted
    obtain ⟨watch, es₁, start, es₂, hstart, rfl, hcase⟩ := takeOn_cases htake
    have hstarting : Unsent (⟨.watch name (t.token id), watch⟩ :: es₁) := by
      intro e he
      rcases List.mem_cons.mp he with rfl | he
      · rfl
      · exact unsent_of_isStarting (Backend.start_spec hstart).isStarting e he
    rw [← List.cons_append]
    rcases hcase with ⟨hbegun, rfl, rfl⟩ | ⟨-, hparting, rfl⟩
    · refine ⟨hstarting.append unsent_nil, by rw [started_eq room], fun o' ho' => ?_⟩
      rw [started_eq room, List.mem_append, List.mem_singleton] at ho'
      rcases ho' with ho' | rfl
      · exact .refl ho'
      · -- the new owner: its start is under way, and it had none of this name
        -- before it
        obtain ⟨request, hrequest⟩ := Option.isSome_iff_exists.mp hbegun
        have waits := congrArg (fun r => some (Pending.mk (some call) r)) hrequest
        refine .joins rfl (fun u hu hname => ?_) waits rfl
        exact claims_ne_of_admitted hfree rfl _ (List.mem_map_of_mem hu) hname
    · refine ⟨hstarting.append (unsent_parting hparting), ?_, fun o' ho' => ?_⟩
      · rw [stream_without, started_eq room]
      · rw [toList_owners_without, ← BoundedList.toList_eraseIdx,
          started_eraseIdx room] at ho'
        exact .refl ho'

/-- A release sends no descriptor, and no owner is new after it. -/
theorem release_onward {client text : String} {result : Except Fault Unit}
    (h : (t.release client text).Yields es (result, t')) :
    Unsent es ∧ t'.stream = t.stream ∧ ∀ o' ∈ t'.owners.toList, t.Onward op o' := by
  rcases release_cases h with ⟨-, rfl, rfl⟩ | ⟨i, o, a, ho, -, -, hcase⟩
  · exact ⟨unsent_nil, rfl, fun _ => .refl⟩
  · rcases hcase with ⟨-, hparting, rfl⟩ | ⟨-, -, rfl, rfl⟩
    · refine ⟨unsent_parting hparting, stream_without t i, fun o' ho' => ?_⟩
      rw [toList_owners_without] at ho'
      exact .refl (List.mem_of_mem_eraseIdx ho')
    · refine ⟨unsent_nil, rfl, fun o' ho' => ?_⟩
      rcases BoundedList.mem_modify ho' with ho' | ⟨u, hu, rfl⟩
      · exact .refl ho'
      · exact .stays hu (Access.sdiff_subset _ _)

theorem exit_onward {known : Bool} (h : (t.exit id).Yields es (known, t')) :
    Unsent es ∧ t'.stream = t.stream ∧ ∀ o' ∈ t'.owners.toList, t.Onward op o' := by
  rcases exit_cases h with ⟨-, -, rfl, rfl⟩ | ⟨i, o, -, -, hparting, rfl⟩
  · exact ⟨unsent_nil, rfl, fun _ => .refl⟩
  · refine ⟨unsent_parting hparting, stream_without _ i, fun o' ho' => ?_⟩
    rw [toList_owners_without, toList_owners_modifyOwner,
      List.eraseIdx_modify_of_eq] at ho'
    exact .refl (List.mem_of_mem_eraseIdx ho')

theorem reportDelay_onward {delay : UInt16} (h : (t.reportDelay delay).Yields es t') :
    Unsent es ∧ t'.stream = t.stream ∧ ∀ o' ∈ t'.owners.toList, t.Onward op o' := by
  rcases reportDelay_cases h with ⟨-, rfl, rfl⟩ | ⟨-, hcalls, rfl⟩
  · exact ⟨unsent_nil, rfl, fun _ => .refl⟩
  · exact ⟨unsent_of_calls hcalls (by simp [Call.sends]), rfl,
      fun o' (ho' : o' ∈ t.owners.toList) => .refl ho'⟩

end Transport

/-- An operation that reports no end of a start marks nobody and sends no
descriptor, and the transport goes on with the stream that it has. -/
theorem Operation.deed_onward {op : Operation} {next : OwnerId} {t : Transport}
    {es : List Exchange} (hop : op.isLocal = true) (unreported : op.report? = none)
    {d : Deed op.Result} (h : (op.deed next t hop).Yields es d) :
    Unsent es ∧ d.marked = none ∧
      ∀ t' ∈ d.left, t'.stream = t.stream ∧ ∀ o' ∈ t'.owners.toList,
        t.Onward op o' := by
  -- what is kept is said of the transport that is kept
  have hkept : ∀ {α : Type} {result : α} {t' : Transport},
      Unsent es ∧ t'.stream = t.stream ∧ (∀ o' ∈ t'.owners.toList, t.Onward op o') →
        Unsent es ∧ (Deed.kept result t').marked = none ∧
          ∀ u ∈ (Deed.kept result t').left,
          u.stream = t.stream ∧ ∀ o' ∈ u.owners.toList, t.Onward op o' := by
    rintro α result t' ⟨hunsent, hstays⟩
    refine ⟨hunsent, rfl, ?_⟩
    rintro _ ⟨⟩
    exact hstays
  cases op with
  | remove id =>
    obtain ⟨es₀, u, es', rfl, h₀, h⟩ := yields_bind.mp h
    obtain ⟨es₁, t', es₂, rfl, h₁, h₂⟩ := yields_bind.mp h
    obtain ⟨hclosing, rfl⟩ := yields_makeAll_pure.mp h₂
    obtain rfl := Broker.yields_unregister h₀
    refine ⟨?_, rfl, by simp⟩
    have hclosed : Unsent es₂ := unsent_of_calls hclosing fun c hc => by
      obtain ⟨session, -, rfl⟩ := List.mem_map.mp hc
      rfl
    have hunregistered : Unsent [⟨.unregister t.path, ()⟩] := by
      simp [Unsent, Call.sends]
    exact hunregistered.append ((Transport.unsent_endFirst h₁).append hclosed)
  | acquire path client access call =>
    obtain ⟨⟨result, t'⟩, h₁, rfl⟩ := yields_kept h
    exact hkept (Transport.acquire_onward h₁)
  | release path client access =>
    obtain ⟨⟨result, t'⟩, h₁, rfl⟩ := yields_kept h
    exact hkept (Transport.release_onward h₁)
  | properties path =>
    obtain ⟨snapshot, h₁, rfl⟩ := yields_kept h
    exact hkept ⟨unsent_of_isQuery (Transport.properties_queries h₁), rfl,
      fun _ => .refl⟩
  | setProperty path name value =>
    obtain ⟨rfl, rfl⟩ := yields_pure.mp h
    exact hkept ⟨unsent_nil, rfl, fun _ => .refl⟩
  | exit token =>
    obtain ⟨⟨known, t'⟩, h₁, rfl⟩ := yields_kept h
    exact hkept (Transport.exit_onward h₁)
  | reportDelay id delay =>
    obtain ⟨t', h₁, rfl⟩ := yields_kept h
    exact hkept (Transport.reportDelay_onward h₁)
  | a2dpResumed _ _ | voiceConnected _ _ => cases unreported
  | create _ _ _ | runDeferred | dispatch _ _ _ _ | handle _ => cases hop

/-- What is left of an operation once it is unwrapped reports the same. -/
theorem Operation.report?_core (op : Operation) : op.core.report? = op.report? := by
  cases op with
  | dispatch path client call method => cases method <;> rfl
  | handle event =>
    cases event with
    | call path client call method => cases method <;> rfl
    | exited _ | a2dpResumed _ _ | voiceConnected _ _ | delayed _ _ => rfl
  | create _ _ _ | runDeferred | remove _ | acquire _ _ _ _ | release _ _ _
  | properties _ | setProperty _ _ _ | exit _ | a2dpResumed _ _ | voiceConnected _ _
  | reportDelay _ _ => rfl

/-- A method call is not answered at once with a descriptor. -/
theorem Operation.reply?_ne_descriptor {op : Operation} {result : op.Result}
    {fd : StreamFd} :
    op.reply? result ≠ some (.descriptor fd) := by
  cases op with
  | acquire _ _ _ _ => rcases result with _ | ⟨⟩ <;> exact nofun
  | release _ _ _ => rcases result with _ | ⟨⟩ <;> exact nofun
  | properties _ => cases result <;> exact nofun
  | setProperty _ _ _ => rcases result with _ | ⟨⟩ <;> exact nofun
  | create _ _ _ | runDeferred | remove _ | dispatch _ _ _ _ | handle _ | exit _
  | a2dpResumed _ _ | voiceConnected _ _ | reportDelay _ _ => exact nofun

/-- An operation on one transport that reports no end of a start: what it does with
the owners, while it sends no descriptor. -/
theorem Broker.onward_cases {b b' : Broker} {op : Operation} {es : List Exchange}
    {result : op.Result} (hd : b.transports.Distinct) (hop : op.isLocal = true)
    (unreported : op.report? = none) (h : (b.perform op).Yields es (result, b')) :
    Unsent es ∧ (b' = b ∨
      ∃ t left, op.addressee? b = some t.id ∧ b.transports.get? t.id = some t ∧
        b'.transports = b.transports.put t.id left ∧
        ∀ t' ∈ left, t'.id = t.id ∧ t'.fd = t.fd ∧ ∀ o' ∈ t'.owners.toList,
          t.Onward op o') := by
  rcases perform_cases hd hop h
    with ⟨-, -, rfl, rfl⟩ | ⟨t, es₁, d, es₂, htarget, hdeed, -, hsettles, rfl, -⟩
  · exact ⟨unsent_nil, .inl rfl⟩
  · obtain ⟨hnames, hlive⟩ := Operation.target?_eq_some htarget
    obtain ⟨hunsent, hnobody, honward⟩ := Operation.deed_onward hop unreported hdeed
    cases hsettles with
    | stored settled terms =>
      cases settled with
      | queued marked _ | full _ marked _ _ _ _ =>
        -- only a report marks an owner
        rw [hnobody] at marked
        cases marked
      | kept _ =>
        rw [List.append_nil]
        refine ⟨hunsent, .inr ⟨t, d.left, hnames, hlive, rfl, fun t' ht' => ?_⟩⟩
        obtain ⟨hstream, howners⟩ := honward t' ht'
        exact ⟨congrArg Transport.Terms.id (terms t' ht'),
          congrArg (Option.map Stream.fd) hstream, howners⟩

end AudioBroker
