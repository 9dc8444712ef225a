import AudioBroker.Proofs.Broker.Passage

/-!
# The stages of an owner

Between two operations an owner waits for the end of its start, or it has got its
descriptor, or it has failed. The stage is read off its request and its mark, of
which other combinations occur only inside operations. From waiting an owner goes on
to one of the other two stages, which it does not leave.

- `Stage`, `Owner.stage?`: the stages, and the one that an owner is in.
- `Owner.Stands`: what there is to each stage, with what was sent to the owner since
  it was taken on.
- `Owner.Stands.proceeds`: where an operation takes an owner.
- `Broker.Stands`: a live owner at one of the stages; `Run.stands_since`: each is at
  one, at every moment of its life.
- `Run.owner_stages`: the stages of the owners in every run.
-/

namespace AudioBroker

open Dialogue

/-! ### The stages -/

/-- The stages of an owner. -/
inductive Stage where
  /-- Its start is under way. -/
  | waiting
  /-- It has got the descriptor of the stream. -/
  | delivered
  /-- It waits in the queue to be torn down. -/
  | failed
  deriving DecidableEq

namespace Owner

/-- The stage of an owner, by its mark and its request. -/
def stage? (o : Owner) : Option Stage :=
  match o.scheduled, o.pending with
  | false, some ⟨some _, some _⟩ => some .waiting
  | false, none => some .delivered
  | true, some ⟨some _, none⟩ | true, none => some .failed
  | _, _ => none

/-- An owner at a stage, with the call that it was taken on for, the descriptor that
is in place, and the descriptors that were sent to it since then. -/
inductive Stands (o : Owner) (call : PendingCall) (fd : Option StreamFd) :
    List Sending → Stage → Prop where
  | waiting {request : RequestId} (unmarked : o.scheduled = false)
      (pending : o.pending = some ⟨some call, some request⟩) :
        Stands o call fd [] .waiting
  | delivered {sent : StreamFd} (unmarked : o.scheduled = false)
      (pending : o.pending = none)
      (present : fd.isSome = true) :
        Stands o call fd [⟨call, sent, .delivered⟩] .delivered
  /-- No descriptor was sent, and the call is still to be answered. -/
  | unanswered (marked : o.scheduled = true)
      (pending : o.pending = some ⟨some call, none⟩) : Stands o call fd [] .failed
  /-- A descriptor was sent, and did not come to its client. -/
  | undelivered {sent : StreamFd} {delivery : Delivery}
      (marked : o.scheduled = true) (pending : o.pending = none)
      (lost : delivery ≠ .delivered) :
        Stands o call fd [⟨call, sent, delivery⟩] .failed

variable {o o' : Owner} {call : PendingCall} {fd fd' : Option StreamFd}
  {sent more : List Sending} {stage : Stage}

/-- The stage at which an owner stands can be read off the owner. -/
theorem Stands.stage?_eq (h : o.Stands call fd sent stage) :
    o.stage? = some stage := by
  cases h with
  | waiting unmarked pending | delivered unmarked pending _ =>
    simp [stage?, unmarked, pending]
  | unanswered marked pending | undelivered marked pending _ =>
    simp [stage?, marked, pending]

/-- Only who is waiting hears of the end of a start. -/
theorem Stands.eq_of_awaits (h : o.Stands call fd sent stage)
    (waits : o.awaits = true) :
    stage = .waiting ∧ sent = [] ∧ o.unspent? = some call := by
  obtain ⟨unmarked, hpending⟩ : o.scheduled = false ∧ o.isPending = true := by
    simpa [awaits] using waits
  cases h with
  | waiting _ pending => exact ⟨rfl, rfl, by simp [unspent?, pending]⟩
  | delivered _ pending _ => simp [isPending, pending] at hpending
  | unanswered marked _ | undelivered marked _ _ => simp [marked] at unmarked

/-- An operation leaves an owner at its stage and sends it nothing, but for one that
is waiting. -/
theorem Stands.proceeds (h : o.Stands call fd sent stage)
    (proceeds : o.Proceeds fd fd' more o') :
    ∃ stage', o'.Stands call fd' (sent ++ more) stage' ∧
      (stage = .waiting ∨ (stage' = stage ∧ more = [])) := by
  cases proceeds with
  | stays less present =>
    rw [List.append_nil]
    refine ⟨stage, ?_, .inr ⟨rfl, rfl⟩⟩
    cases h with
    | waiting unmarked pending => exact .waiting unmarked pending
    | delivered unmarked pending there =>
      exact .delivered unmarked pending (present there)
    | unanswered marked pending => exact .unanswered marked pending
    | undelivered marked pending lost => exact .undelivered marked pending lost
  | delivered waits unspent present =>
    -- who waits is at the first stage, and its call is the one that is answered
    obtain ⟨rfl, rfl, hcall⟩ := h.eq_of_awaits waits
    obtain rfl := Option.some.inj (unspent.symm.trans hcall)
    cases h with
    | waiting unmarked _ =>
      exact ⟨.delivered, .delivered unmarked rfl present, .inl rfl⟩
  | @failed _ fd₀ delivery waits unspent undelivered =>
    obtain ⟨rfl, rfl, hcall⟩ := h.eq_of_awaits waits
    obtain rfl := Option.some.inj (unspent.symm.trans hcall)
    refine ⟨.failed, ?_, .inl rfl⟩
    cases delivery with
    | none => exact .unanswered rfl rfl
    | some d => exact .undelivered rfl rfl fun heq => undelivered (congrArg some heq)

end Owner

/-! ### Moments of a run -/

/-- The descriptors that a step sends to the owner of a client. -/
def Step.sentTo (s : Step) (id : TransportId) (name : ClientName) : List Sending :=
  s.before.sendsTo s.op s.exchanges id name

/-- The descriptors that some steps send to the owners of a client. -/
def sentTo (id : TransportId) (name : ClientName) (steps : List Step) :
    List Sending :=
  steps.flatMap fun s => s.sentTo id name

@[simp] theorem sentTo_append (id : TransportId) (name : ClientName)
    (steps rest : List Step) :
    sentTo id name (steps ++ rest) = sentTo id name steps ++ sentTo id name rest := by
  simp [sentTo]

@[simp] theorem sentTo_singleton (id : TransportId) (name : ClientName) (s : Step) :
    sentTo id name [s] = s.sentTo id name := by
  simp [sentTo]

/-- The owner of a client is at one of the stages: it was taken on under the number
for the call, and was sent these descriptors since then. -/
def Broker.Stands (b : Broker) (id : TransportId) (name : ClientName)
    (owner : OwnerId) (call : PendingCall) (sent : List Sending) : Prop :=
  ∃ t o stage, b.transports.get? id = some t ∧ b.ownerNamed? id name = some o ∧
    o.id = owner ∧ o.stage? = some stage ∧ o.Stands call t.fd sent stage

namespace Run

variable {options : Options} {steps later : List Step} {s : Step} {b b' : Broker}
  {id : TransportId} {name : ClientName} {o o' : Owner}

/-- Where the owner of a client after a step comes from. -/
theorem admits_or_proceeds (run : Run (.empty options) steps s.before)
    (live : s.after.ownerNamed? id name = some o') :
    ∃ t', s.after.transports.get? id = some t' ∧
      ((∃ call, s.Admits id name call ∧ o'.Stands call t'.fd [] .waiting) ∨
        ∃ t o, s.before.transports.get? id = some t ∧
          s.before.ownerNamed? id name = some o ∧
          o.Proceeds t.fd t'.fd (s.sentTo id name) o') := by
  obtain ⟨t', hget', ho', rfl⟩ := Broker.ownerNamed?_eq_some live
  obtain ⟨ht', rfl⟩ := Registry.get?_eq_some hget'
  refine ⟨t', hget', ?_⟩
  rcases s.admitted_or_passed run.distinct run.tracked run.shared run.answerable ht'
      ho' with
    ⟨call, request, hadmits, pending, unmarked⟩ | ⟨t, o, hget, ho, hproceeds⟩
  · exact .inl ⟨call, hadmits, .waiting unmarked pending⟩
  · refine .inr ⟨t, o, hget, ?_, hproceeds⟩
    rw [hproceeds.name_eq]
    exact Broker.ownerNamed?_of_mem hget
      (run.shared t (Registry.get?_eq_some hget).1) ho

/-- The life of a live owner: the step that took it on, and the stages that it is at
ever since. -/
theorem stands_since (run : Run (.empty options) steps b)
    (live : b.ownerNamed? id name = some o) :
    ∃ pre s post call, steps = pre ++ s :: post ∧ s.Admits id name call ∧
      ∀ mid rest b₁, post = mid ++ rest → Run s.after mid b₁ →
        b₁.Stands id name o.id call (sentTo id name mid) := by
  obtain ⟨pre, s, post, ⟨call, owner⟩, hsteps, hadmits, hlife⟩ := run.history
    (fun b => ∃ o, b.ownerNamed? id name = some o)
    (fun s (a : PendingCall × OwnerId) => s.Admits id name a.1)
    (fun a mid b => b.Stands id name a.2 a.1 (sentTo id name mid))
    (by simp [Broker.ownerNamed?, Broker.get?_empty])
    (by
      rintro steps s run ⟨o', live⟩
      obtain ⟨t', hget', ⟨call, hadmits, hstands⟩ |
        ⟨t, o, hget, before, hproceeds⟩⟩ := run.admits_or_proceeds live
      · exact .inl ⟨(call, o'.id), hadmits, t', o', .waiting, hget', live, rfl,
          hstands.stage?_eq, hstands⟩
      · refine .inr ⟨⟨o, before⟩, ?_⟩
        rintro ⟨call, owner⟩ mid ⟨u, v, stage, hu, hv, rfl, -, hstands⟩
        obtain rfl := Option.some.inj (hget.symm.trans hu)
        obtain rfl := Option.some.inj (before.symm.trans hv)
        obtain ⟨stage', hstands', -⟩ := hstands.proceeds hproceeds
        rw [sentTo_append, sentTo_singleton]
        exact ⟨t', o', stage', hget', live, hproceeds.id_eq, hstands'.stage?_eq,
          hstands'⟩)
    ⟨o, live⟩
  -- at the end of the run it is the owner that was given
  obtain ⟨-, u, -, -, hu, rfl, -⟩ :=
    hlife post [] b (List.append_nil post).symm (hsteps ▸ run).around.2
  obtain rfl := Option.some.inj (live.symm.trans hu)
  exact ⟨pre, s, post, call, hsteps, hadmits, hlife⟩

/-- A live owner is at one of the stages. -/
theorem stands (run : Run (.empty options) steps b)
    (live : b.ownerNamed? id name = some o) :
    ∃ t call sent stage,
      b.transports.get? id = some t ∧ o.Stands call t.fd sent stage := by
  obtain ⟨pre, s, post, call, rfl, -, hlife⟩ := run.stands_since live
  obtain ⟨t, u, stage, hget, hu, -, -, hstands⟩ :=
    hlife post [] b (List.append_nil post).symm run.around.2
  obtain rfl := Option.some.inj (live.symm.trans hu)
  exact ⟨t, call, _, stage, hget, hstands⟩

/-- Until it is gone, an owner that does not wait stays at its stage, and is sent no
descriptor. -/
theorem stage_kept (run : Run (.empty options) steps b) (rest : Run b later b')
    (live : b.ownerNamed? id name = some o) :
    (∃ s ∈ later, s.after.ownerNamed? id name = none) ∨
      ∃ o', b'.ownerNamed? id name = some o' ∧ o'.id = o.id ∧
        (o.stage? = some .waiting ∨
          (o'.stage? = o.stage? ∧ sentTo id name later = [])) := by
  induction rest with
  | nil => exact .inr ⟨o, live, rfl, .inr ⟨rfl, rfl⟩⟩
  | @snoc later s rest ih =>
    rcases ih with ⟨s', hs', hgone⟩ | ⟨u, hu, hid, hkept⟩
    · exact .inl ⟨s', List.mem_append_left _ hs', hgone⟩
    · -- the last step either ends the owner, which is the first case, or leaves it
      cases hafter : s.after.ownerNamed? id name with
      | none => exact .inl ⟨s, by simp, hafter⟩
      | some o' =>
        have before := run.trans rest
        obtain ⟨t', -, ⟨call, hadmits, -⟩ | ⟨t, v, hget, hv, hproceeds⟩⟩ :=
          before.admits_or_proceeds hafter
        · -- nobody is taken on who owns something already
          rw [hadmits.new] at hu
          cases hu
        · obtain rfl := Option.some.inj (hu.symm.trans hv)
          obtain ⟨t₁, call, sent, stage, hget₁, hstands⟩ := before.stands hu
          obtain rfl := Option.some.inj (hget.symm.trans hget₁)
          obtain ⟨stage', hstands', hstep⟩ := hstands.proceeds hproceeds
          refine .inr ⟨o', rfl, hproceeds.id_eq.trans hid, ?_⟩
          rcases hkept with hwaiting | ⟨hsame, hnothing⟩
          · exact .inl hwaiting
          · -- an owner that left its stage was waiting, and so it was at the start
            rcases hstep with rfl | ⟨rfl, hmore⟩
            · exact .inl (hsame.symm.trans hstands.stage?_eq)
            · refine .inr ⟨?_, ?_⟩
              · rw [← hsame, hstands.stage?_eq, hstands'.stage?_eq]
              · rw [sentTo_append, sentTo_singleton, hnothing, hmore]
                rfl

/-- In every state of every run, each live owner is at exactly one of three stages.
It was taken on by one step, for a call, and at every moment since then: it waits
for the end of its start, and was sent no descriptor; or it was sent one, which was
delivered, to answer its call, and a descriptor has been in place since; or it is
marked, and it was sent none and its call is still to be answered, or the one that
it was sent was not delivered. Until it is gone, an owner that does not wait stays
at its stage and is sent no descriptor. And no operation sends a descriptor but to
an owner that waits, one at most, and to answer the call of this owner. -/
theorem owner_stages (run : Run (.empty options) steps b) :
    (∀ t ∈ b.transports.toList, ∀ o ∈ t.owners.toList,
      ∃ pre s post call, steps = pre ++ s :: post ∧ s.Admits t.id o.name call ∧
        ∀ mid rest b₁, post = mid ++ rest → Run s.after mid b₁ →
          b₁.Stands t.id o.name o.id call (sentTo t.id o.name mid)) ∧
      (∀ later b', Run b later b' → ∀ id name o, b.ownerNamed? id name = some o →
        (∃ s ∈ later, s.after.ownerNamed? id name = none) ∨
          ∃ o', b'.ownerNamed? id name = some o' ∧ o'.id = o.id ∧
            (o.stage? = some .waiting ∨
              (o'.stage? = o.stage? ∧ sentTo id name later = []))) ∧
      ∀ op es result b', (b.perform op).Yields es (result, b') → sendings es = [] ∨
        ∃ id name o call fd delivery,
          b.hearer? op = some (id, name) ∧ b.ownerNamed? id name = some o ∧
          o.stage? = some .waiting ∧ o.unspent? = some call ∧
          sendings es = [⟨call, fd, delivery⟩] := by
  refine ⟨fun t ht o ho => ?_,
    fun later b' rest id name o live => run.stage_kept rest live,
    fun op es result b' h => ?_⟩
  · exact run.stands_since (Broker.ownerNamed?_of_mem (run.distinct.get?_of_mem ht)
      (run.shared t ht) ho)
  · rcases Step.sendings_cases (s := ⟨b, op, es, result, b', h⟩) run.distinct
      run.tracked run.shared run.answerable with hnone |
        ⟨id, name, o, call, fd, delivery, hears, live, waits, unspent, hone⟩
    · exact .inl hnone
    · obtain ⟨t, call', sent, stage, -, hstands⟩ := run.stands live
      obtain ⟨rfl, -, -⟩ := hstands.eq_of_awaits waits
      exact .inr ⟨id, name, o, call, fd, delivery, hears, live, hstands.stage?_eq,
        unspent, hone⟩

end Run

/-- A client reads, and the start for another one that wants to write fails. -/
def Scene.readerAndFailedWriter : List (Script × Operation) :=
  [({}, .create speaker device []), ({}, acquire ":1" "r" 1),
    ({ lastRequest := 1 }, acquire ":2" "w" 2),
    ({}, .a2dpResumed ⟨⟨0⟩, ⟨0⟩⟩ .started),
      ({}, .a2dpResumed ⟨⟨0⟩, ⟨1⟩⟩ (.failed .timeout))]

/-- The reader was sent one descriptor since it was taken on, which was delivered.
The other client waits in the queue, and until its owner is gone it is sent no
descriptor. -/
theorem Run.failed_writer_gets_no_descriptor :
    ∃ steps b o o', Run (.empty {}) steps b ∧
      b.ownerNamed? ⟨0⟩ o.name = some o ∧ o.stage? = some .delivered ∧
      (∃ pre s post call fd, steps = pre ++ s :: post ∧ s.Admits ⟨0⟩ o.name call ∧
        sentTo ⟨0⟩ o.name post = [⟨call, fd, .delivered⟩]) ∧
      b.ownerNamed? ⟨0⟩ o'.name = some o' ∧ o'.stage? = some .failed ∧
      ∀ later b', Run b later b' →
        (∃ s ∈ later, s.after.ownerNamed? ⟨0⟩ o'.name = none) ∨
          sentTo ⟨0⟩ o'.name later = [] := by
  have run := Broker.run_play Script.peers (.empty {}) Scene.readerAndFailedWriter
  have hstages :
      (((Broker.empty {}).played Script.peers
        Scene.readerAndFailedWriter).transports.get? ⟨0⟩).map
      (fun t => t.owners.toList.map Owner.stage?) = some
        [some .delivered, some .failed] := by decide
  generalize (Broker.empty {}).played Script.peers Scene.readerAndFailedWriter = b
    at run hstages
  obtain ⟨t, hget, howners⟩ := Option.map_eq_some_iff.mp hstages
  obtain ⟨o, rest, howners', hdelivered, hrest⟩ := List.map_eq_cons_iff.mp howners
  obtain ⟨o', _, rfl, hfailed, -⟩ := List.map_eq_cons_iff.mp hrest
  obtain ⟨ht, hid⟩ := Registry.get?_eq_some hget
  have hlive : ∀ u ∈ t.owners.toList, b.ownerNamed? ⟨0⟩ u.name = some u :=
    fun u hu => Broker.ownerNamed?_of_mem hget (run.shared t ht) hu
  have ho : o ∈ t.owners.toList := by simp [howners']
  have ho' : o' ∈ t.owners.toList := by simp [howners']
  obtain ⟨hlives, hkept, -⟩ := run.owner_stages
  obtain ⟨pre, s, post, call, hsteps, hadmits, hlife⟩ := hlives t ht o ho
  rw [hid] at hadmits hlife
  obtain ⟨u, v, stage, -, hv, -, -, hstands⟩ :=
    hlife post [] b (List.append_nil post).symm (hsteps ▸ run).around.2
  obtain rfl := Option.some.inj ((hlive o ho).symm.trans hv)
  obtain rfl := Option.some.inj (hdelivered.symm.trans hstands.stage?_eq)
  refine ⟨_, b, o, o', run, hlive o ho, hdelivered, ?_, hlive o' ho', hfailed,
    fun later b' more => ?_⟩
  · generalize hsent : sentTo ⟨0⟩ o.name post = sent at hstands
    cases hstands with
    | @delivered fd _ _ _ => exact ⟨pre, s, post, call, fd, hsteps, hadmits, hsent⟩
  · refine (hkept later b' more ⟨0⟩ o'.name o' (hlive o' ho')).imp_right ?_
    rintro ⟨-, -, -, hwaiting | ⟨-, hnothing⟩⟩
    · rw [hfailed] at hwaiting
      cases hwaiting
    · exact hnothing

end AudioBroker
