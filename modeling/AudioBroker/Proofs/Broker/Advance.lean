import AudioBroker.Proofs.Broker.Onward

/-!
# Owners that outlive an operation

An operation that begins to end an owner ends it. So between two operations no owner
is caught half-way: whoever outlives an operation has given back directions at most,
or has learnt of the end of its start. Whether two owners before and after an
operation are one can be told by the name of their client, even where a number was
given out twice.

- `Owner.Advances`: what an operation makes of an owner that outlives it.
- `Transport.Newcomer`, `Transport.Advances`, `Registry.Advances`: every owner after
  an operation has outlived it, or is new.
- `Broker.perform_advances`: so it is for every operation.
- `Run.answerable`: whoever waits for the end of a start has a call that is still to
  be answered.
- `Broker.ownerNamed?`, `Run.marked_until_gone`: a marked owner stays as it is until
  it is gone, but for directions that it gives back.
- `Run.drain_ends_marked`: the next drain of the queue tears it down.
-/

namespace AudioBroker

open Dialogue

namespace Owner

/-- What an operation makes of an owner that outlives it. -/
inductive Advances (o : Owner) : Owner → Prop where
  /-- It has no more directions than before. -/
  | narrowed {access : Access} (less : access ⊆ o.access) :
      Advances o { o with access }
  /-- Its start has ended; it was sent a reply or was not, and it is marked or is
  not. -/
  | concluded {f : Owner → Owner} (scheduled : Bool) (waits : o.awaits = true)
      (concludes : f = answer ∨ f = settle) : Advances o { f o with scheduled }

/-- An owner for which a start is under way has a call that is still to be
answered. -/
def Answerable (o : Owner) : Prop := o.isPending = true → o.unspent?.isSome = true

variable {o o' : Owner}

theorem Advances.refl (o : Owner) : o.Advances o :=
  .narrowed (Access.subset_refl o.access)

theorem Advances.name_eq (h : o.Advances o') : o'.name = o.name := by
  cases h with
  | narrowed _ => rfl
  | concluded _ _ concludes => rcases concludes with rfl | rfl <;> rfl

/-- An owner whose call can be answered keeps it until it is answered or its start has
ended. -/
theorem Advances.answerable (h : o.Advances o') (ho : o.Answerable) :
    o'.Answerable := by
  cases h with
  | narrowed _ => exact ho
  | concluded _ _ concludes =>
    rcases concludes with rfl | rfl
    · exact nofun
    · intro hpending
      have hcall : o.settle.unspent? = o.unspent? := by
        cases hp : o.pending <;> simp [settle, unspent?, hp]
      show o.settle.unspent?.isSome = true
      rw [hcall]
      refine ho ?_
      simpa [isPending, settle] using hpending

/-- What is marked does not hear of its start again. -/
theorem Advances.of_marked (h : o.Advances o') (marked : o.scheduled = true) :
    ∃ access, access ⊆ o.access ∧ o' = { o with access } := by
  cases h with
  | narrowed less => exact ⟨_, less, rfl⟩
  | concluded _ waits _ => simp [awaits, marked] at waits

end Owner

namespace Transport

variable {t t' : Transport} {es : List Exchange} {i : Nat} {o : Owner} {id : OwnerId}

/-- An owner that was not there before, nor was any other one of its client; its
call is still to be answered. -/
structure Newcomer (t : Transport) (o : Owner) : Prop where
  name : ∀ u ∈ t.owners.toList, u.name ≠ o.name
  answerable : o.Answerable

/-- Every owner has outlived an operation, or is new. -/
def Advances (t t' : Transport) : Prop :=
  ∀ o' ∈ t'.owners.toList, (∃ o ∈ t.owners.toList, o.Advances o') ∨ t.Newcomer o'

theorem advances_of_subset (h : t'.owners.toList ⊆ t.owners.toList) : t.Advances t' :=
  fun o' ho' => .inl ⟨o', h ho', .refl o'⟩

theorem Advances.refl (t : Transport) : t.Advances t :=
  advances_of_subset fun _ ho => ho

/-- Whoever stays when an owner ends has advanced or is new as before. -/
theorem Advances.without (h : t.Advances t') (i : Nat) :
    t.Advances (t'.without i) := by
  intro o' ho'
  rw [toList_owners_without] at ho'
  exact h o' (List.mem_of_mem_eraseIdx ho')

theorem advances_modify {f : Owner → Owner} (ho : t.owners.toList[i]? = some o)
    (howners : t'.owners.toList = t.owners.toList.modify i f)
    (h : o.Advances (f o)) : t.Advances t' := by
  obtain ⟨pre, post, hl, -, -, hmodify⟩ := BoundedList.exists_around ho
  intro o' ho'
  rw [howners, hmodify] at ho'
  rcases BoundedList.mem_around.mp ho' with rfl | ho'
  · exact .inl ⟨o, List.mem_of_getElem? ho, h⟩
  · refine .inl ⟨o', ?_, .refl o'⟩
    rw [hl]
    exact BoundedList.mem_around.mpr (.inr ho')

/-! ### The operations of a transport -/

/-- Who was there advances, and who was not is new. -/
theorem Onward.advances {op : Operation} {o' : Owner} (h : t.Onward op o') :
    (∃ o ∈ t.owners.toList, o.Advances o') ∨ t.Newcomer o' := by
  cases h with
  | stays there less => exact .inl ⟨_, there, .narrowed less⟩
  | joins _ new waits _ =>
    refine .inr ⟨new, fun _ => ?_⟩
    rw [Owner.unspent?, waits]
    rfl

theorem complete_advances {success : Bool} {completion : Completion}
    (h : (t.complete id success).Yields es (completion, t')) : t.Advances t' := by
  rcases complete_cases h with ⟨-, -, -, rfl⟩ | ⟨i, p, waits, hcase⟩
  · exact .refl t'
  · obtain ⟨o, ho, hunmarked, hp⟩ := awaiting?_eq_some_iff.mp waits
    have hi := (owner?_eq_some ho).1
    have hwaits : o.awaits = true := by
      simp [Owner.awaits, Owner.isPending, hunmarked, hp]
    -- the owner learns of the end of its start, and may be marked after that
    have hlearns : ∀ {es delivered t₁},
        (t.attempt i p success).Yields es (delivered, t₁) →
        t.Advances t₁ ∧ t.Advances (t₁.modifyOwner i Owner.schedule) := by
      intro es delivered t₁ hattempt
      obtain ⟨f, hf, heq⟩ := attempt_modifies hattempt
      have howners : t₁.owners.toList = t.owners.toList.modify i f :=
        congrArg (fun u => u.owners.toList) heq
      have hconcludes : f = Owner.answer ∨ f = Owner.settle := hf.imp_right And.left
      constructor
      · have hkept : f o = { f o with scheduled := o.scheduled } := by
          rcases hconcludes with rfl | rfl <;> rfl
        refine advances_modify hi howners ?_
        rw [hkept]
        exact .concluded o.scheduled hwaits hconcludes
      · refine advances_modify (f := Owner.schedule ∘ f) hi ?_
          (.concluded true hwaits hconcludes)
        rw [toList_owners_modifyOwner, howners, List.modify_modify_eq]
    rcases hcase with ⟨-, hattempt⟩ | ⟨es₁, t₁, es₂, hattempt, hfail, -⟩
    · exact (hlearns hattempt).1
    · rcases fail_cases hfail with ⟨-, -, -, rfl⟩ | ⟨-, -, -, rfl⟩
      · exact (hlearns hattempt).2
      · exact (hlearns hattempt).1.without i

end Transport

/-- What an operation does with its transport. -/
theorem Operation.deed_advances {op : Operation} {next : OwnerId} {t : Transport}
    {es : List Exchange} (hop : op.isLocal = true) {d : Deed op.Result}
    (h : (op.deed next t hop).Yields es d) :
    ∀ t' ∈ d.left, t.Advances t' := by
  -- both layers report in one way
  have hhear : ∀ {r : Report} {d : Deed Unit}, (t.hear r).Yields es d →
      ∀ t' ∈ d.left, t.Advances t' := by
    intro r d h
    unfold Transport.hear at h
    split at h
    · obtain ⟨es₁, ⟨completion, t₁⟩, es₂, -, h₁, h₂⟩ := yields_bind.mp h
      obtain ⟨-, rfl⟩ := yields_pure.mp h₂
      rintro t' ⟨⟩
      exact Transport.complete_advances h₁
    · obtain ⟨-, rfl⟩ := yields_pure.mp h
      rintro t' ⟨⟩
      exact .refl t
  cases report : op.report? with
  | none =>
    exact fun t' ht' o' ho' =>
      (((deed_onward hop report h).2.2 t' ht').2 o' ho').advances
  | some r =>
    cases op with
    | a2dpResumed token result => exact hhear h
    | voiceConnected token connected => exact hhear h
    | create _ _ _ | runDeferred | remove _ | acquire _ _ _ _ | release _ _ _
    | properties _ | setProperty _ _ _ | exit _ | reportDelay _ _
    | dispatch _ _ _ _ => cases report
    | handle _ => cases hop

/-! ### The operations of the broker -/

namespace Registry

variable {r r' : Registry} {t : Transport} {left : Option Transport}

/-- Every transport that has owners was there before, and each of its owners has
outlived an operation or is new. -/
def Advances (r r' : Registry) : Prop :=
  ∀ t' ∈ r'.toList, t'.owners.toList = [] ∨ ∃ t ∈ r.toList,
    t.id = t'.id ∧ t.Advances t'

theorem Advances.refl (r : Registry) : r.Advances r :=
  fun t ht => .inr ⟨t, ht, rfl, .refl t⟩

theorem advances_put (live : r.get? t.id = some t) (hid : ∀ t' ∈ left, t'.id = t.id)
    (h : ∀ t' ∈ left, t.Advances t') : r.Advances (r.put t.id left) := by
  intro u hu
  rcases mem_put hu with hleft | hu
  · exact .inr ⟨t, (get?_eq_some live).1, (hid u hleft).symm, h u hleft⟩
  · exact Advances.refl r u hu

theorem advances_insert? (vacant : t.owners.toList = [])
    (insert : r.insert? t = some r') : r.Advances r' := by
  intro u hu
  rcases mem_insert? insert hu with rfl | hu
  · exact .inl vacant
  · exact Advances.refl r u hu

/-- The owners that are left by a sweep are as they were. -/
theorem advances_swept (r : Registry) : r.Advances r.swept := by
  intro u hu
  obtain ⟨t, ht, rfl⟩ := List.mem_map.mp hu
  exact .inr ⟨t, ht, rfl, Transport.advances_of_subset fun o ho =>
    (List.mem_filter.mp ho).1⟩

end Registry

namespace Broker

variable {b b' : Broker} {op : Operation} {es : List Exchange}

/-- An operation on one transport advances its owners and leaves all others. -/
theorem local_advances {result : op.Result} (hd : b.transports.Distinct)
    (hop : op.isLocal = true) (h : (b.perform op).Yields es (result, b')) :
    b.transports.Advances b'.transports := by
  rcases perform_cases hd hop h with ⟨-, -, -, rfl⟩ |
    ⟨t, es₁, d, es₂, target, hdeed, -, @⟨left, deferred, settled, terms⟩, -, -⟩
  · exact .refl _
  · have hadvances := Operation.deed_advances hop hdeed
    refine Registry.advances_put (Operation.target?_eq_some target).2
      (fun t' ht' => Transport.id_eq_of_terms (terms t' ht')) ?_
    cases settled with
    | kept _ | queued _ _ => exact hadvances
    | full stays _ _ _ _ _ =>
      rintro _ ⟨⟩
      exact (hadvances _ stays).without _

/-- What an operation makes of the live transports and their owners. -/
theorem perform_advances {result : op.Result} (hd : b.transports.Distinct)
    (tracked : b.Tracked) (h : (b.perform op).Yields es (result, b')) :
    b.transports.Advances b'.transports := by
  rcases creates_drains_or_local h with ⟨endpoint, device, configuration, rfl⟩ | rfl |
    ⟨op', result', es', hop, h'⟩
  · rcases create_cases h with ⟨fault, -, rfl, -⟩ |
      ⟨t, transports, hcreate, hinsert, -, -, rfl⟩
    · exact .refl _
    · exact Registry.advances_insert? (Transport.owners_of_create hcreate) hinsert
  · obtain ⟨rfl, -⟩ := runDeferred_sweeps hd tracked h
    exact Registry.advances_swept b.transports
  · exact local_advances hd hop h'

end Broker

section Runs

variable {options : Options} {steps later : List Step} {b b' : Broker}

/-- Whoever waits for the end of a start has a call that is still to be answered. -/
theorem Run.answerable (run : Run (.empty options) steps b) :
    ∀ t ∈ b.transports.toList, ∀ o ∈ t.owners.toList, o.Answerable := by
  induction run with
  | nil =>
    intro t ht
    cases ht
  | @snoc steps s run ih =>
    intro t' ht' o' ho'
    rcases Broker.perform_advances run.distinct run.tracked s.performed t' ht'
      with hvacant | ⟨t, ht, -, hadvances⟩
    · rw [hvacant] at ho'
      cases ho'
    · rcases hadvances o' ho' with ⟨o, ho, hadvances⟩ | hnew
      · exact hadvances.answerable (ih t ht o ho)
      · exact hnew.answerable

/-! ### A marked owner -/

namespace Broker

variable {id : TransportId} {name : ClientName} {o o' : Owner} {t : Transport}

/-- The owner that a client has of the transport with a number. -/
def ownerNamed? (b : Broker) (id : TransportId) (name : ClientName) : Option Owner :=
  (b.transports.get? id).bind fun t => (t.ownerOf? name.str).map Prod.snd

/-- The owner that is found is the client's, in the live transport with the number. -/
theorem ownerNamed?_eq_some (h : b.ownerNamed? id name = some o) :
    ∃ t, b.transports.get? id = some t ∧ o ∈ t.owners.toList ∧ o.name = name := by
  obtain ⟨t, hget, h⟩ := Option.bind_eq_some_iff.mp h
  obtain ⟨⟨i, o⟩, howner, rfl⟩ := Option.map_eq_some_iff.mp h
  obtain ⟨hi, hname⟩ := Transport.ownerOf?_eq_some howner
  exact ⟨t, hget, List.mem_of_getElem? hi, Text.ext hname⟩

/-- Since a client owns a transport only once, every owner is the one found under its
name. -/
theorem ownerNamed?_of_mem (hget : b.transports.get? id = some t) (shared : t.Shared)
    (ho : o ∈ t.owners.toList) : b.ownerNamed? id o.name = some o := by
  obtain ⟨pre, post, howners⟩ := List.append_of_mem ho
  rw [ownerNamed?, hget, Option.bind_some, shared.ownerOf?_eq howners rfl]
  rfl

/-- An owner that is found by its client before an operation and after it is one. -/
theorem ownerNamed?_advances (run : Run (.empty options) steps b)
    (h : b.transports.Advances b'.transports)
    (before : b.ownerNamed? id name = some o)
    (after : b'.ownerNamed? id name = some o') : o.Advances o' := by
  obtain ⟨t, hget, ho, rfl⟩ := ownerNamed?_eq_some before
  obtain ⟨t', hget', ho', hname⟩ := ownerNamed?_eq_some after
  obtain ⟨hmem', hid'⟩ := Registry.get?_eq_some hget'
  rcases h t' hmem' with hvacant | ⟨u, hu, hid, hadvances⟩
  · rw [hvacant] at ho'
    cases ho'
  · have hlive := run.distinct.get?_of_mem hu
    rw [hid, hid', hget] at hlive
    obtain rfl := Option.some.inj hlive
    rcases hadvances o' ho' with ⟨o₁, ho₁, hadvances⟩ | hnew
    · have hfound := ownerNamed?_of_mem hget (run.shared t hu) ho₁
      rw [← hadvances.name_eq, hname, before] at hfound
      rwa [Option.some.inj hfound]
    · exact absurd hname.symm (hnew.name o ho)

end Broker

/-- A marked owner stays as it is until it is gone, but for directions that it gives
back. -/
theorem Run.marked_until_gone {id : TransportId} {name : ClientName} {o : Owner}
    (run : Run (.empty options) steps b) (rest : Run b later b')
    (live : b.ownerNamed? id name = some o) (marked : o.scheduled = true) :
    (∃ s ∈ later, s.after.ownerNamed? id name = none) ∨
      ∃ access, access ⊆ o.access ∧
        b'.ownerNamed? id name = some { o with access } := by
  induction rest with
  | nil => exact .inr ⟨o.access, Access.subset_refl _, live⟩
  | @snoc later s rest ih =>
    rcases ih with ⟨s', hs', hgone⟩ | ⟨access, hless, hstays⟩
    · exact .inl ⟨s', List.mem_append_left _ hs', hgone⟩
    · cases hafter : s.after.ownerNamed? id name with
      | none => exact .inl ⟨s, by simp, hafter⟩
      | some o' =>
        have before := run.trans rest
        have hadvances :=
          Broker.perform_advances before.distinct before.tracked s.performed
        have howner := Broker.ownerNamed?_advances before hadvances hstays hafter
        obtain ⟨access', hless', rfl⟩ := howner.of_marked marked
        exact .inr ⟨access', Access.subset_trans hless' hless, rfl⟩

/-- The next drain of the queue tears a marked owner down: what it holds is closed,
its client owns nothing any more, and its directions are free. -/
theorem Run.drain_ends_marked {id : TransportId} {name : ClientName} {o : Owner}
    {es : List Exchange} {n : Nat} (run : Run (.empty options) steps b)
    (live : b.ownerNamed? id name = some o) (marked : o.scheduled = true)
    (h : b.runDeferred.Yields es (n, b')) :
    ∃ t t', b.transports.get? id = some t ∧ b'.transports.get? id = some t' ∧
      (o.partingCalls t.backend t.device).Subperm (es.map Exchange.call) ∧
      b'.ownerNamed? id name = none ∧ o.access ∩ t'.locks = ∅ := by
  obtain ⟨t, hget, ho, rfl⟩ := Broker.ownerNamed?_eq_some live
  obtain ⟨rfl, hcalls, -⟩ := Broker.runDeferred_sweeps run.distinct run.tracked h
  have hmem : o ∈ t.marked := List.mem_filter.mpr ⟨ho, marked⟩
  have hswept : b.transports.swept.get? id = some t.swept := by
    rw [Registry.get?_swept, hget, Option.map_some]
  refine ⟨t, t.swept, hget, hswept, ?_, ?_, ?_⟩
  · have hparting : (o.partingCalls t.backend t.device).Sublist
        (t.marked.flatMap fun o => o.partingCalls t.backend t.device) :=
      List.sublist_flatten_of_mem (List.mem_map_of_mem hmem)
    have hlive : t.sweepCalls.Sublist b.transports.sweepCalls :=
      List.sublist_flatten_of_mem (List.mem_map_of_mem (Registry.get?_eq_some hget).1)
    have hcall := (hparting.trans (List.sublist_append_left _ _)).trans hlive
    exact hcall.subperm.trans hcalls.symm.subperm
  · by_contra hstays
    obtain ⟨o', hfound⟩ := Option.ne_none_iff_exists'.mp hstays
    obtain ⟨u, hu, ho', hname⟩ := Broker.ownerNamed?_eq_some hfound
    obtain rfl : t.swept = u := Option.some.inj (hswept.symm.trans hu)
    obtain ⟨ho', hunmarked⟩ := List.mem_filter.mp ho'
    -- nobody else has the name
    have hsame := Broker.ownerNamed?_of_mem hget
      (run.shared t (Registry.get?_eq_some hget).1) ho'
    rw [hname, live] at hsame
    cases hsame
    simp [marked] at hunmarked
  · apply Access.inter_eq_empty
    rintro d ⟨hheld, hlocked⟩
    have hfreed : (Access.unions (t.marked.map Owner.access)).has d = true := by
      rw [Access.has_unions]
      exact List.any_eq_true.mpr ⟨o.access, List.mem_map_of_mem hmem, hheld⟩
    simp [Transport.swept, hfreed] at hlocked

end Runs

end AudioBroker
