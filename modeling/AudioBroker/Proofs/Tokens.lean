import AudioBroker.Proofs.Broker.Lineage
import AudioBroker.Proofs.Broker.Report
import AudioBroker.Proofs.Numbers

/-!
# A token names one owner

The token of an owner is given out when the owner is taken on, and reports come in
under it long after the owner is gone. Until a counter starts over, no later owner
is found by it.

- `Registry.ownerIds`, `Run.identified`: the numbers of all live owners are
  different, and below the next one.
- `Run.lineage`: who is found by an old token was found by it before.
- `Broker.Resolved`: nobody waits under a token; a report leaves it so
  (`report_resolves`), and it stays so (`Run.resolved`).
- `Run.tokens_name_one_owner`: what it comes to in every run.
-/

namespace AudioBroker

open Dialogue

/-! ### The numbers of all live owners -/

theorem OwnerId.Below.subperm {next : OwnerId} {ids ids' : List OwnerId}
    (h : next.Below ids) (hsub : ids'.Subperm ids) : next.Below ids' := by
  obtain ⟨ids₁, hperm, hsub⟩ := hsub
  have hbelow := h.sublist hsub
  constructor
  · exact fun id hid => hbelow.lt id (hperm.mem_iff.mpr hid)
  · exact hperm.nodup_iff.mp hbelow.distinct

namespace Registry

variable {r r' : Registry} {t t' : Transport} {more : List OwnerId}

/-- The numbers of all live owners. -/
def ownerIds (r : Registry) : List OwnerId := r.toList.flatMap Transport.ownerIds

theorem mem_ownerIds {id : OwnerId} :
    id ∈ r.ownerIds ↔ ∃ t ∈ r.toList, ∃ o ∈ t.owners.toList, o.id = id := by
  simp [ownerIds, Transport.ownerIds, Transport.stamps]

/-- A transport with some more owners in the place of one that was there. -/
theorem ownerIds_replace (h : r.Distinct) (live : r.get? t.id = some t)
    (hid : t'.id = t.id) (hsub : t'.ownerIds.Sublist (t.ownerIds ++ more)) :
    (r.replace t').ownerIds.Subperm (r.ownerIds ++ more) := by
  obtain ⟨pre, post, hr, -, -, hreplace⟩ := h.exists_around live
  rw [ownerIds, hreplace t' hid, ownerIds, hr]
  simp only [List.flatMap_append, List.flatMap_cons]
  have hsub' := (List.Sublist.refl (pre.flatMap Transport.ownerIds)).append
    (hsub.append (List.Sublist.refl (post.flatMap Transport.ownerIds)))
  have hperm :
      (pre.flatMap Transport.ownerIds ++
        (t.ownerIds ++ more ++ post.flatMap Transport.ownerIds)).Perm
      (pre.flatMap Transport.ownerIds ++
          (t.ownerIds ++ post.flatMap Transport.ownerIds) ++ more) := by
    simp only [List.append_assoc]
    exact (List.perm_append_comm.append_left _).append_left _
  exact hsub'.subperm.trans hperm.subperm

/-- Owners that are gone, or are as they were. -/
theorem ownerIds_replace_stamps (h : r.Distinct) (live : r.get? t.id = some t)
    (hid : t'.id = t.id) (hsub : t'.stamps.Sublist t.stamps) :
    (r.replace t').ownerIds.Subperm r.ownerIds := by
  have hids : t'.ownerIds.Sublist (t.ownerIds ++ []) := by
    rw [List.append_nil]
    exact hsub.map _
  simpa using ownerIds_replace h live hid hids

theorem ownerIds_erase (r : Registry) (id : TransportId) :
    (r.erase id).ownerIds.Subperm r.ownerIds :=
  (List.Sublist.flatMap List.filter_sublist Transport.ownerIds).subperm

end Registry

namespace Broker

variable {b b' : Broker} {es : List Exchange} {tokens : List Token} {n : Nat}

/-- The numbers of all live owners are different, and below the next one. -/
def Identified (b : Broker) : Prop := b.nextOwner.Below b.transports.ownerIds

/-- Going through the queue frees numbers and gives out none. -/
theorem endEach_ownerIds (hd : b.transports.Distinct)
    (h : (b.endEach tokens).Yields es (n, b')) :
    b'.transports.ownerIds.Subperm b.transports.ownerIds ∧
      b'.nextOwner = b.nextOwner := by
  induction tokens generalizing b es n with
  | nil =>
    obtain ⟨-, heq⟩ := yields_pure.mp h
    cases heq
    exact ⟨.refl _, rfl⟩
  | cons token rest ih =>
    obtain ⟨es₁, ended, b₁, es₂, m, h₁, h₂, -, -⟩ := endEach_cons_cases h
    rcases endScheduled_cases h₁ with ⟨-, -, -, rfl⟩ | ⟨t, t', hget, hend, rfl⟩
    · exact ih hd h₂
    · obtain ⟨-, htid⟩ := Registry.get?_eq_some hget
      obtain ⟨hrest, hnext⟩ := ih (hd.replace t') h₂
      refine ⟨hrest.trans ?_, hnext⟩
      exact Registry.ownerIds_replace_stamps hd (htid ▸ hget)
        (Transport.endScheduled_course hend).id_eq
        (Transport.endScheduled_stamps hend)

/-- Every turn keeps the numbers different and below the next one, unless it starts
them over. -/
theorem Identified.turn (h : b.Identified) (hd : b.transports.Distinct)
    (hn : b.Numbered) (turn : b.Turn b')
    (unwrapped : b.nextOwner.raw ≤ b'.nextOwner.raw) : b'.Identified := by
  cases turn with
  | still => exact h
  | @created endpoint device configuration t transports created insert =>
    -- the number of the new transport is new, so that it does not take the place of
    -- another one
    have hnew : b.transports.get? t.id = none := by
      rw [(Transport.create_eq_ok created).1]
      exact hn.get?_nextTransport
    rw [Registry.insert?, hnew, if_neg (by simp)] at insert
    obtain ⟨-, hpush⟩ := BoundedList.push?_eq_some_iff.mp insert
    have hids : t.ownerIds = [] := by
      rw [Transport.ownerIds, Transport.stamps, Transport.owners_of_create created]
      rfl
    have hsame : transports.ownerIds = b.transports.ownerIds := by
      simp [Registry.ownerIds, hpush, hids]
    show b.nextOwner.Below transports.ownerIds
    rw [hsame]
    exact h
  | removed id =>
    exact OwnerId.Below.subperm h (Registry.ownerIds_erase b.transports id)
  | stored live terms stamps =>
    exact OwnerId.Below.subperm h
      (Registry.ownerIds_replace_stamps hd live
        (Transport.id_eq_of_terms terms) stamps)
  | @acquired t t' live terms stamps =>
    have hids : t'.ownerIds.Sublist (t.ownerIds ++ [b.nextOwner]) := by
      have hmap := stamps.map Prod.fst
      rwa [List.map_append] at hmap
    exact (OwnerId.Below.append_next h unwrapped).subperm
      (Registry.ownerIds_replace hd live (Transport.id_eq_of_terms terms) hids)
  | @marked t t' id pre post deferred live terms kind before after _ push =>
    have hids : t'.ownerIds.Sublist (t.ownerIds ++ []) := by
      simp [Transport.ownerIds, before, after]
    have hsub := Registry.ownerIds_replace hd live
      (Transport.id_eq_of_terms terms) hids
    rw [List.append_nil] at hsub
    exact OwnerId.Below.subperm h hsub
  | drained drain =>
    obtain ⟨hsub, hnext⟩ := endEach_ownerIds (b := { b with deferred := ∅ }) hd drain
    have hbelow : b.nextOwner.Below b'.transports.ownerIds :=
      OwnerId.Below.subperm h hsub
    rw [Identified, hnext]
    exact hbelow

end Broker

section Runs

variable {options : Options} {steps post : List Step} {b b₁ : Broker} {token : Token}

/-- Until a counter starts over, live owners have different numbers. -/
theorem Run.identified (run : Run (.empty options) steps b)
    (unwrapped : Unwrapped steps) :
    b.Identified := by
  induction run with
  | nil =>
    exact { lt := fun id hid => absurd hid List.not_mem_nil,
            distinct := List.nodup_nil }
  | @snoc steps s run ih =>
    obtain ⟨hinit, hlast, -⟩ := unwrapped.around
    exact (ih hinit).turn run.distinct (run.numbered hinit) s.turn hlast.2

/-! ### The owners that a token finds -/

/-- The counter goes up in every run. -/
theorem Run.nextOwner_le (run : Run b₁ post b) (unwrapped : Unwrapped post) :
    b₁.nextOwner.raw ≤ b.nextOwner.raw := by
  apply run.invariant (P := fun b => b₁.nextOwner.raw ≤ b.nextOwner.raw) UInt32.le_rfl
  intro s hs hle
  exact UInt32.le_trans hle (unwrapped s hs).2

/-- Who has an old number had it before, in a transport on the same terms. -/
theorem Run.lineage (run : Run b₁ post b) (unwrapped : Unwrapped post)
    (old : token.owner.raw < b₁.nextOwner.raw) :
    ∀ t' ∈ b.transports.toList, ∀ o' ∈ t'.owners.toList, t'.token o'.id = token →
      ∃ t ∈ b₁.transports.toList, t'.terms = t.terms ∧ ∃ o ∈ t.owners.toList,
        o.Becomes o' := by
  induction run with
  | nil => exact fun t ht o ho _ => ⟨t, ht, rfl, o, ho, .refl o⟩
  | @snoc post s run ih =>
    have hinit := (unwrapped_append.mp unwrapped).1
    intro t' ht' o' ho' htoken
    rcases s.succeeds.owners t' ht' o' ho'
      with ⟨t₁, ht₁, hterms', o₁, ho₁, hbecomes'⟩ | ⟨hid, -⟩
    · have htoken₁ := (hbecomes'.token_eq hterms').symm.trans htoken
      obtain ⟨t, ht, hterms, o, ho, hbecomes⟩ := ih hinit t₁ ht₁ o₁ ho₁ htoken₁
      exact ⟨t, ht, hterms'.trans hterms, o, ho, hbecomes.trans hbecomes'⟩
    · -- who was taken on meanwhile has a number that is not old
      have hnext := run.nextOwner_le hinit
      rw [← hid, show o'.id = token.owner from congrArg Token.owner htoken] at hnext
      exact absurd old (UInt32.not_lt.mpr hnext)

end Runs

/-! ### Reports that nobody waits for -/

namespace Transport

variable {t t' : Transport} {id : OwnerId} {i : Nat} {o : Owner} {es : List Exchange}

theorem ownerIds_eq (t : Transport) : t.ownerIds = t.owners.toList.map Owner.id := by
  simp [ownerIds, stamps]

/-- The attempt to deliver changes the owner for whom a start has ended, and it
waits no more if it was sent its descriptor. -/
theorem attempt_owners {p : Pending} {success delivered : Bool}
    (h : (t.attempt i p success).Yields es (delivered, t')) :
    ∃ f : Owner → Owner, t'.owners.toList = t.owners.toList.modify i f ∧
      (delivered = true → ∀ o, (f o).awaits = false) := by
  obtain ⟨f, hf, heq⟩ := attempt_modifies h
  refine ⟨f, congrArg (fun u => u.owners.toList) heq, fun hyes o => ?_⟩
  rcases hf with rfl | ⟨-, hnot⟩
  · exact o.awaits_answer
  · rw [hyes] at hnot
    cases hnot

/-- Once its start has ended the owner is gone, or it waits no more. -/
theorem complete_owners {success : Bool} {completion : Completion}
    (waits : (t.awaiting? id).isSome = true)
    (h : (t.complete id success).Yields es (completion, t')) :
    ∃ pre post o, t.owners.toList = pre ++ o :: post ∧ o.id = id ∧
      (t'.owners.toList = pre ++ post ∨
        ∃ o', t'.owners.toList = pre ++ o' :: post ∧ o'.awaits = false) := by
  rcases complete_cases h with ⟨hnone, -⟩ | ⟨i, p, ha, hcase⟩
  · rw [hnone] at waits
    cases waits
  · obtain ⟨o, ho, -, -⟩ := awaiting?_eq_some_iff.mp ha
    obtain ⟨hi, hid⟩ := owner?_eq_some ho
    obtain ⟨pre, post, howners, rfl, -, hmodify⟩ := BoundedList.exists_around hi
    refine ⟨pre, post, o, howners, hid, ?_⟩
    -- its place is the same in all cases: it stays there answered, stays there
    -- marked, or is taken out
    rcases hcase with ⟨-, hattempt⟩ | ⟨es₁, t₁, es₂, hattempt, hfail, -⟩
    · obtain ⟨f, hmodified, hdone⟩ := attempt_owners hattempt
      exact .inr ⟨f o, hmodified.trans (hmodify f), hdone rfl o⟩
    · obtain ⟨f, hmodified, -⟩ := attempt_owners hattempt
      rcases fail_cases hfail with ⟨-, -, -, rfl⟩ | ⟨-, -, -, rfl⟩
      · refine .inr ⟨(f o).schedule, ?_, (f o).awaits_schedule⟩
        rw [toList_owners_modifyOwner, hmodified, List.modify_modify_eq, hmodify]
        rfl
      · refine .inl ?_
        rw [toList_owners_without, hmodified, hmodify, BoundedList.eraseIdx_around]

/-- Once a report was taken, nobody waits under its number. -/
theorem complete_resolves {success : Bool} {completion : Completion}
    (distinct : t.ownerIds.Nodup) (waits : (t.awaiting? id).isSome = true)
    (h : (t.complete id success).Yields es (completion, t')) :
    ∀ o' ∈ t'.owners.toList, o'.id = id → o'.awaits = false := by
  obtain ⟨pre, post, o, howners, rfl, hcase⟩ := complete_owners waits h
  -- nobody else has the number
  have hothers : ∀ u ∈ pre ++ post, u.id ≠ o.id := by
    rw [ownerIds_eq, howners, List.map_append, List.map_cons, List.nodup_middle,
      List.nodup_cons, ← List.map_append] at distinct
    exact fun u hu heq => distinct.1 (heq ▸ List.mem_map_of_mem hu)
  intro o' ho' hid
  rcases hcase with hgone | ⟨o₁, hkept, hdone⟩
  · exact absurd hid (hothers o' (hgone ▸ ho'))
  · rw [hkept] at ho'
    rcases BoundedList.mem_around.mp ho' with rfl | ho'
    · exact hdone
    · exact absurd hid (hothers o' ho')

end Transport

namespace Broker

variable {b b' : Broker} {t : Transport} {o : Owner} {token : Token} {r : Report}
  {es : List Exchange}

theorem owner?_eq_some (h : b.owner? token = some o) :
    ∃ t ∈ b.transports.toList, o ∈ t.owners.toList ∧ t.token o.id = token := by
  obtain ⟨t, hget, h⟩ := Option.bind_eq_some_iff.mp h
  obtain ⟨⟨i, o⟩, howner, rfl⟩ := Option.map_eq_some_iff.mp h
  obtain ⟨ht, htid⟩ := Registry.get?_eq_some hget
  obtain ⟨hi, hid⟩ := Transport.owner?_eq_some howner
  exact ⟨t, ht, List.mem_of_getElem? hi, by rw [Transport.token, htid, hid]⟩

/-- A live owner is found by its token. -/
theorem owner?_of_mem (hd : b.transports.Distinct) (hn : b.Numbered)
    (ht : t ∈ b.transports.toList) (ho : o ∈ t.owners.toList) :
    b.owner? (t.token o.id) = some o := by
  have hdistinct := (hn.owners t ht).distinct
  rw [Transport.ownerIds_eq] at hdistinct
  have hfound : (t.owner? o.id).map Prod.snd = some o := by
    cases h : t.owner? o.id with
    | none =>
      have hnobody := Transport.locate?_eq_none_iff.mp h o ho
      simp at hnobody
    | some io =>
      obtain ⟨i, o'⟩ := io
      obtain ⟨hi, hid⟩ := Transport.owner?_eq_some h
      rw [Option.map_some,
        List.inj_on_of_nodup_map hdistinct (List.mem_of_getElem? hi) ho hid]
  rw [owner?, Transport.token, hd.get?_of_mem ht, Option.bind_some, hfound]

theorem owner?_of_expects {isA2dp : Bool} (h : b.Expects isA2dp token) :
    ∃ o, b.owner? token = some o := by
  obtain ⟨t, hget, -, hwaits⟩ := h
  obtain ⟨⟨i, p⟩, ha⟩ := Option.isSome_iff_exists.mp hwaits
  obtain ⟨o, howner, -, -⟩ := Transport.awaiting?_eq_some_iff.mp ha
  exact ⟨o, by rw [owner?, hget, Option.bind_some, howner, Option.map_some]⟩

/-- A token that names somebody was given out before. -/
theorem Identified.owner_lt (h : b.Identified) (howner : b.owner? token = some o) :
    token.owner.raw < b.nextOwner.raw := by
  obtain ⟨t, ht, ho, rfl⟩ := owner?_eq_some howner
  exact h.lt o.id (Registry.mem_ownerIds.mpr ⟨t, ht, o, ho, rfl⟩)

/-- Nobody waits for the end of a start under the token. -/
def Resolved (b : Broker) (token : Token) : Prop :=
  ∀ t ∈ b.transports.toList, ∀ o ∈ t.owners.toList, t.token o.id = token →
    o.awaits = false

/-- A report under a resolved token is expected by neither layer. -/
theorem Resolved.not_expects (h : b.Resolved token) (isA2dp : Bool) :
    ¬ b.Expects isA2dp token := by
  rintro ⟨t, hget, -, hwaits⟩
  obtain ⟨⟨i, p⟩, ha⟩ := Option.isSome_iff_exists.mp hwaits
  obtain ⟨o, howner, hs, hp⟩ := Transport.awaiting?_eq_some_iff.mp ha
  obtain ⟨ht, htid⟩ := Registry.get?_eq_some hget
  obtain ⟨hi, hid⟩ := Transport.owner?_eq_some howner
  have hdone := h t ht o (List.mem_of_getElem? hi)
    (by rw [Transport.token, htid, hid])
  simp [Owner.awaits, Owner.isPending, hs, hp] at hdone

/-- It is so of those who were found by the token before. -/
theorem Resolved.of_lineage (h : b.Resolved token)
    (lineage : ∀ t' ∈ b'.transports.toList, ∀ o' ∈ t'.owners.toList,
      t'.token o'.id = token →
        ∃ t ∈ b.transports.toList, t'.terms = t.terms ∧ ∃ o ∈ t.owners.toList,
          o.Becomes o') :
    b'.Resolved token := by
  intro t' ht' o' ho' htoken
  obtain ⟨t, ht, hterms, o, ho, hbecomes⟩ := lineage t' ht' o' ho' htoken
  have hdone := h t ht o ho ((hbecomes.token_eq hterms).symm.trans htoken)
  by_contra hwaits
  rw [hbecomes.awaits (by simpa using hwaits)] at hdone
  cases hdone

/-- A report for an owner that waits: whatever it says, nobody waits under its token
after it. -/
theorem report_resolves (hn : b.Numbered) (expects : b.Expects r.isA2dp r.token)
    (h : (b.report r).Yields es b') : b'.Resolved r.token := by
  obtain ⟨t, hget, hkind, hwaits⟩ := expects
  obtain ⟨ht, htid⟩ := Registry.get?_eq_some hget
  rw [report, hget] at h
  simp only [if_pos hkind] at h
  obtain ⟨es₁, completion, t', es₂, h₁, -, hcase⟩ := complete_cases h
  -- already the completion resolves the token, whatever the queue does then
  have hresolved : (b.store t').Resolved r.token := by
    intro u hu o' ho' htoken
    have huid : u.id = t'.id := by
      rw [(Transport.complete_course h₁).id_eq, htid, ← htoken]
      rfl
    rw [Registry.eq_of_mem_replace hu huid] at ho'
    exact Transport.complete_resolves (hn.owners t ht).distinct hwaits h₁ o' ho'
      (congrArg Token.owner htoken)
  rcases hcase with ⟨-, hdefer⟩ | ⟨-, -, rfl⟩
  · rcases defer_cases hdefer with ⟨deferred, -, -, rfl⟩ | ⟨-, ended, hend⟩
    · exact hresolved
    · have hkeeps := (endScheduled_effect hend).keeps calm_nil
      exact hresolved.of_lineage fun u hu o' ho' _ => hkeeps.owners u hu o' ho'
  · exact hresolved

end Broker

section Runs

variable {options : Options} {steps post : List Step} {b b₁ : Broker} {token : Token}

/-- Once nobody waits under an old token, nobody ever does. -/
theorem Run.resolved (run : Run b₁ post b) (unwrapped : Unwrapped post)
    (old : token.owner.raw < b₁.nextOwner.raw) (h : b₁.Resolved token) :
    b.Resolved token :=
  h.of_lineage (run.lineage unwrapped old)

/-- A token that is given out has the number that was next, which is old after
that. -/
theorem Step.token_next {s : Step} {e : Exchange} (unwrapped : s.Unwrapped)
    (he : e ∈ s.exchanges) (given : e.call.token? = some token) :
    token.owner = s.before.nextOwner ∧ token.owner.raw < s.after.nextOwner.raw := by
  obtain ⟨hid, hnext⟩ := s.succeeds.tokens e he token given
  have hle := unwrapped.2
  rw [hnext] at hle ⊢
  rw [hid]
  exact ⟨rfl, OwnerId.lt_next hle⟩

/-- A token that was given out has an old number. -/
theorem Run.token_old (run : Run b₁ steps b) (unwrapped : Unwrapped steps) :
    ∀ e ∈ exchanges steps, e.call.token? = some token →
      token.owner.raw < b.nextOwner.raw := by
  induction run with
  | nil => simp
  | @snoc steps s run ih =>
    obtain ⟨hinit, hlast, -⟩ := unwrapped.around
    intro e he given
    rw [exchanges_append, exchanges_singleton, List.mem_append] at he
    rcases he with he | he
    · exact UInt32.lt_of_lt_of_le (ih hinit e he given) hlast.2
    · exact (Step.token_next hlast he given).2

/-- Who is found by a token is the client that was watched under it. -/
theorem Run.watched_name {name : ClientName} {o : Owner}
    (run : Run (.empty options) steps b) (unwrapped : Unwrapped steps) :
    ∀ e ∈ exchanges steps, e.call = .watch name token → b.owner? token = some o →
      o.name = name := by
  intro e he hwatch howner
  obtain ⟨s, hs, hsaid⟩ := List.mem_flatMap.mp he
  obtain ⟨pre, post, rfl⟩ := List.append_of_mem hs
  obtain ⟨hbefore, hafter⟩ := run.around
  obtain ⟨hpre, hs, hpost⟩ := unwrapped.around
  have hgiven : e.call.token? = some token := by
    rw [hwatch]
    rfl
  obtain ⟨hnext, hold⟩ := Step.token_next hs hsaid hgiven
  obtain ⟨t, ht, ho, htoken⟩ := Broker.owner?_eq_some howner
  obtain ⟨t₁, ht₁, -, o₁, ho₁, hbecomes⟩ := hafter.lineage hpost hold t ht o ho htoken
  have hid : o₁.id = s.before.nextOwner := by
    rw [← hbecomes.id, ← hnext, ← htoken]
    rfl
  rw [hbecomes.name]
  -- either it was there before this step, or the step let it in
  rcases s.succeeds.owners t₁ ht₁ o₁ ho₁
    with ⟨t₀, ht₀, -, o₀, ho₀, hbecomes₀⟩ | ⟨-, -, hname⟩
  · -- who was there before has a number that was given out before
    have hlive := (hbefore.identified hpre).lt o₀.id
      (Registry.mem_ownerIds.mpr ⟨t₀, ht₀, o₀, ho₀, rfl⟩)
    rw [← hbecomes₀.id, hid] at hlive
    exact absurd hlive (UInt32.lt_irrefl _)
  · exact (hname e hsaid name token hwatch).symm

/-- Until a counter starts over, all live owners have different numbers, below the
next one. Whoever is found by a token that was given out was found by it ever since,
under the same name and with as many directions at least, and is the client that was
watched under it. A report for which no owner of a transport of its layer waits
changes nothing, and nothing is said; neither does the departure of a client that
owns nothing. And after the first report for an owner that waited, whatever it said,
every other one under the same token is such a report. -/
theorem Run.tokens_name_one_owner (run : Run (.empty options) steps b)
    (unwrapped : Unwrapped steps) :
    (b.transports.ownerIds.Nodup ∧ ∀ id ∈ b.transports.ownerIds,
      id.raw < b.nextOwner.raw) ∧
      (∀ pre s post e token, steps = pre ++ s :: post → e ∈ exchanges pre →
        e.call.token? = some token →
        ∀ o', b.owner? token = some o' →
          ∃ o, s.before.owner? token = some o ∧ o.Becomes o') ∧
      (∀ e ∈ exchanges steps, ∀ name token, e.call = .watch name token →
        ∀ o, b.owner? token = some o → o.name = name) ∧
      (∀ token, (¬ b.Expects true token → ∀ result,
        b.a2dpResumed token result = pure b) ∧
        (¬ b.Expects false token → ∀ connected,
          b.voiceConnected token connected = pure b) ∧
        (b.owner? token = none → b.exit token = pure (false, b))) ∧
      ∀ pre s post r, steps = pre ++ s :: post → s.op.report? = some r →
        s.before.Expects r.isA2dp r.token →
        (∀ result, b.a2dpResumed r.token result = pure b) ∧
          ∀ connected, b.voiceConnected r.token connected = pure b := by
  have hidentified := run.identified unwrapped
  have hdistinct := run.distinct
  have ha2dp : ∀ token, ¬ b.Expects true token →
      ∀ result, b.a2dpResumed token result = pure b := by
    intro token hnot result
    rw [Broker.a2dpResumed_eq_report]
    exact Broker.report_of_not_expects (r := ⟨true, token, result.isStarted⟩)
      hdistinct hnot
  have hvoice : ∀ token, ¬ b.Expects false token →
      ∀ connected, b.voiceConnected token connected = pure b := by
    intro token hnot connected
    rw [Broker.voiceConnected_eq_report]
    exact Broker.report_of_not_expects (r := ⟨false, token, connected⟩) hdistinct hnot
  refine ⟨⟨hidentified.distinct, hidentified.lt⟩, ?_, ?_, ?_, ?_⟩
  · rintro pre s post e token rfl he given o' howner
    obtain ⟨hbefore, hafter⟩ := run.around
    obtain ⟨hpre, hrest⟩ := unwrapped_append.mp unwrapped
    -- the number was given out before, so that whoever has it now was live then
    have hold := hbefore.token_old hpre e he given
    obtain ⟨t', ht', ho', htoken⟩ := Broker.owner?_eq_some howner
    obtain ⟨t, ht, hterms, o, ho, hbecomes⟩ :=
      hafter.cons.lineage hrest hold t' ht' o' ho' htoken
    have hfound := Broker.owner?_of_mem hbefore.distinct (hbefore.numbered hpre) ht ho
    rw [← hbecomes.token_eq hterms, htoken] at hfound
    exact ⟨o, hfound, hbecomes⟩
  · exact fun e he name token hwatch o howner =>
      run.watched_name unwrapped e he hwatch howner
  · exact fun token => ⟨ha2dp token, hvoice token,
      Broker.exit_of_owner?_eq_none hdistinct⟩
  · rintro pre s post r rfl hreport hexpects
    obtain ⟨hbefore, hafter⟩ := run.around
    obtain ⟨hpre, hs, hpost⟩ := unwrapped.around
    -- no later step gives the number out again, so that nobody waits under it any
    -- more
    obtain ⟨o, howner⟩ := Broker.owner?_of_expects hexpects
    have hold : r.token.owner.raw < s.after.nextOwner.raw :=
      UInt32.lt_of_lt_of_le ((hbefore.identified hpre).owner_lt howner) hs.2
    have hafterwards := Broker.report_resolves (hbefore.numbered hpre) hexpects
      (Step.reported hreport)
    have hresolved := hafter.resolved hpost hold hafterwards
    exact ⟨ha2dp _ (hresolved.not_expects true),
      hvoice _ (hresolved.not_expects false)⟩

/-- A stream is started for a client, and the report of it comes once more and says
otherwise. -/
def Scene.reportedTwice : List (Script × Operation) :=
  [({}, .create speaker device []), ({}, acquire ":1" "rw" 1),
    ({}, .a2dpResumed ⟨⟨0⟩, ⟨0⟩⟩ .started),
    ({}, .a2dpResumed ⟨⟨0⟩, ⟨0⟩⟩ (.failed .timeout))]

/-- A session in which a second report of the same start changes nothing. -/
theorem Run.first_report_wins :
    ∃ steps b, Run (.empty {}) steps b ∧ Unwrapped steps ∧
      (b.owner? ⟨⟨0⟩, ⟨0⟩⟩).isSome = true ∧
      ∀ result, b.a2dpResumed ⟨⟨0⟩, ⟨0⟩⟩ result = pure b := by
  have run := Broker.run_play Script.peers (.empty {}) Scene.reportedTwice
  have hunwrapped :
      Unwrapped ((Broker.empty {}).play Script.peers Scene.reportedTwice) := by
    decide
  have howner :
      (((Broker.empty {}).played Script.peers Scene.reportedTwice).owner?
        ⟨⟨0⟩, ⟨0⟩⟩).isSome =
      true := by
    decide
  obtain ⟨-, -, -, -, hfirst⟩ := run.tokens_name_one_owner hunwrapped
  refine ⟨_, _, run, hunwrapped, howner, ?_⟩
  exact (hfirst [_, _] _ [_] ⟨true, ⟨⟨0⟩, ⟨0⟩⟩, true⟩ rfl rfl (by decide)).1

end Runs

end AudioBroker
