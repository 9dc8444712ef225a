import AudioBroker.Proofs.Transport.Move

/-!
# What the owners of a transport hold

An owner holds a watch, a request by which its start can be aborted, and a call that
is still to be answered. Each of them is kept count of over the owners of a
transport, and each is closed at the end of its owner.

- `Owner.request?`: the request that an owner holds, as `Owner.unspent?` is its
  call.
- `Owner.partingCalls_eq`, `Transport.filterMap_parting`: the end of an owner closes
  all that it holds.
- `Call.isPlain`, `Call.isClosing`: a call that opens and closes nothing, and one
  that opens nothing.
- `Transport.tally`: how many owners have a property, with one lemma for each change
  of the owners.
-/

namespace AudioBroker

open Dialogue

/-- The request by which the start for an owner can still be aborted. -/
def Owner.request? (o : Owner) : Option RequestId := o.pending.bind Pending.request

/-- What an owner holds is closed at its end: its watch, its request, and its call. -/
theorem Owner.partingCalls_eq (o : Owner) (b : Backend) (device : Device) :
    o.partingCalls b device = o.watch.toList.map .unwatch ++
      (o.request?.toList.map (b.abortCall device) ++
        o.unspent?.toList.map fun call => .reply call (.failure .resumeFailed)) := by
  rw [partingCalls, request?, unspent?]
  cases o.pending <;> rfl

/-- What is so of the calls that close the three things, is so of every call of an
owner that ends. -/
theorem Owner.forall_partingCalls {P : Call → Prop} (o : Owner) (b : Backend)
    (device : Device) (unwatch : ∀ w, P (.unwatch w))
    (abort : ∀ request, P (b.abortCall device request))
    (reply : ∀ call, P (.reply call (.failure .resumeFailed))) :
    ∀ c ∈ o.partingCalls b device, P c := by
  intro c hc
  rw [partingCalls_eq, List.mem_append, List.mem_append] at hc
  rcases hc with hc | hc | hc
  · obtain ⟨w, -, rfl⟩ := List.mem_map.mp hc
    exact unwatch w
  · obtain ⟨request, -, rfl⟩ := List.mem_map.mp hc
    exact abort request
  · obtain ⟨call, -, rfl⟩ := List.mem_map.mp hc
    exact reply call

/-- A call that gives back a stream lock. -/
def Call.isUnlock : Call → Bool
  | unlockStream _ _ | unlockVoice _ _ => true
  | _ => false

/-- The calls that give the lock back do nothing else. -/
theorem Backend.isUnlock_of_mem {b : Backend} {inUse : Bool} {device : Device}
    {c : Call} (h : c ∈ b.unlockCalls inUse device) : c.isUnlock = true := by
  unfold Backend.unlockCalls at h
  split at h
  · rw [List.mem_singleton.mp h]
    rfl
  · rw [List.mem_singleton.mp h]
    rfl
  · cases h

/-- A call that tells something or asks something, and opens and closes nothing. -/
def Call.isPlain : Call → Bool
  | reply _ _ | announce _ _ => true
  | c => c.isQuery

theorem Call.isPlain_of_isQuery {c : Call} (h : c.isQuery = true) :
    c.isPlain = true := by
  cases c <;> first | rfl | exact h

/-- A call that closes something, answers, or asks. -/
def Call.isClosing : Call → Bool
  | unwatch _ | abortStream _ _ | abortVoice _ _ | unlockStream _ _ |
    unlockVoice _ _ | closeSession _
  | reply _ _ => true
  | c => c.isQuery

theorem Call.isClosing_of_isQuery {c : Call} (h : c.isQuery = true) :
    c.isClosing = true := by
  cases c <;> first | rfl | exact h

theorem Call.isClosing_of_isUnlock {c : Call} (h : c.isUnlock = true) :
    c.isClosing = true := by
  cases c <;> first | rfl | cases h

theorem Backend.isClosing_of_closeCalls {es : List Exchange} {b : Backend}
    (h : es.map Exchange.call = b.closeCalls) :
    ∀ e ∈ es, e.call.isClosing = true := by
  intro e he
  have hcall := List.mem_map_of_mem (f := Exchange.call) he
  rw [h] at hcall
  obtain ⟨session, -, hcall⟩ := List.mem_map.mp hcall
  rw [← hcall]
  rfl

theorem count_toList {α : Type} [DecidableEq α] (a : α) (x : Option α) :
    x.toList.count a = (x == some a).toNat := by
  cases x with
  | none => rfl
  | some b =>
    rw [Option.toList_some, List.count_singleton, Option.some_beq_some]
    cases b == a <;> rfl

namespace Transport

variable {α : Type} {t t' : Transport} {es : List Exchange} {i : Nat} {o : Owner}
  {p : Owner → Bool}

/-- What holds of the calls that close what an owner holds, and of giving back the
stream lock, holds of all the calls at the end of an owner. -/
theorem forall_partingCalls {P : Call → Prop} (t : Transport) (i : Nat)
    (unwatch : ∀ w, P (.unwatch w))
    (abort : ∀ request, P (t.backend.abortCall t.device request))
    (reply : ∀ call, P (.reply call (.failure .resumeFailed)))
    (unlock : ∀ c, c.isUnlock = true → P c) :
    ∀ c ∈ t.partingCalls i, P c := by
  intro c hc
  cases ho : t.owners.toList[i]? with
  | none =>
    rw [partingCalls_of_none ho] at hc
    cases hc
  | some o =>
    rw [partingCalls_eq ho, List.mem_append] at hc
    rcases hc with hc | hc
    · exact o.forall_partingCalls t.backend t.device unwatch abort reply c hc
    · split at hc
      · exact unlock c (Backend.isUnlock_of_mem hc)
      · cases hc

/-- The end of an owner opens nothing. -/
theorem isClosing_partingCalls (t : Transport) (i : Nat) :
    ∀ c ∈ t.partingCalls i, c.isClosing = true := by
  refine t.forall_partingCalls i (fun _ => rfl) (fun request => ?_) (fun _ => rfl)
    fun _ => Call.isClosing_of_isUnlock
  cases t.backend <;> rfl

theorem isClosing_parting (h : es.map Exchange.call = t.partingCalls i) :
    ∀ e ∈ es, e.call.isClosing = true :=
  fun _ he => isClosing_partingCalls t i _ (h ▸ List.mem_map_of_mem he)

/-- What is found in the calls at the end of an owner is found in those that close
what it holds. -/
theorem filterMap_parting {f : Call → Option α} (ho : t.owners.toList[i]? = some o)
    (h : es.map Exchange.call = t.partingCalls i)
    (hf : ∀ c : Call, c.isUnlock = true → f c = none) :
    es.filterMap (fun e => f e.call) = o.watch.toList.filterMap
      (fun w => f (.unwatch w)) ++
      (o.request?.toList.filterMap
        (fun request => f (t.backend.abortCall t.device request)) ++
        o.unspent?.toList.filterMap fun call =>
          f (.reply call (.failure .resumeFailed))) := by
  have hunlock : ∀ c ∈ t.backend.unlockCalls t.inUse t.device, f c = none :=
    fun c hc => hf c (Backend.isUnlock_of_mem hc)
  have hcalls :
      es.filterMap (fun e => f e.call) = (es.map Exchange.call).filterMap f := by
    rw [List.filterMap_map]
    rfl
  have hparting :
      (t.partingCalls i).filterMap f =
        (o.partingCalls t.backend t.device).filterMap f := by
    rw [partingCalls_eq ho, List.filterMap_append]
    split
    · rw [List.filterMap_eq_nil_iff.mpr hunlock, List.append_nil]
    · exact List.append_nil _
  rw [hcalls, h, hparting, Owner.partingCalls_eq, List.filterMap_append,
    List.filterMap_append, List.filterMap_map, List.filterMap_map,
    List.filterMap_map]
  rfl

/-- Putting a stream in place tells something, and opens and closes nothing. -/
theorem install_plain {s : Stream} (h : (t.install s).Yields es t') :
    ∀ e ∈ es, e.call.isPlain = true := by
  rcases install_cases h with ⟨-, rfl, -⟩ | ⟨-, hcalls, -⟩
  · simp
  · intro e he
    have hcall := List.mem_map_of_mem (f := Exchange.call) he
    rw [hcalls] at hcall
    rcases List.mem_pair.mp hcall with hcall | hcall <;> rw [hcall] <;> rfl

theorem reportDelay_plain {delay : UInt16} (h : (t.reportDelay delay).Yields es t') :
    ∀ e ∈ es, e.call.isPlain = true := by
  rcases reportDelay_cases h with ⟨-, rfl, -⟩ | ⟨-, hcalls, -⟩
  · simp
  · intro e he
    have hcall := List.mem_map_of_mem (f := Exchange.call) he
    rw [hcalls, List.mem_singleton] at hcall
    rw [hcall]
    rfl

theorem delivered_plain {calls : List PendingCall} {fd : StreamFd}
    (h : es.map Exchange.call = calls.map fun c => .reply c (.descriptor fd)) :
    ∀ e ∈ es, e.call.isPlain = true := by
  intro e he
  have hcall := List.mem_map_of_mem (f := Exchange.call) he
  rw [h] at hcall
  obtain ⟨call, -, hcall⟩ := List.mem_map.mp hcall
  rw [← hcall]
  rfl

/-! ### Counting owners -/

/-- How many owners have a property. -/
def tally (p : Owner → Bool) (t : Transport) : Nat := t.owners.toList.countP p

/-- An owner that ends is one less to be counted. -/
theorem tally_without (ho : t.owners.toList[i]? = some o) :
    t.tally p = (t.without i).tally p + (p o).toNat := by
  obtain ⟨pre, post, hl, -, herase, -⟩ := BoundedList.exists_around ho
  rw [tally, tally, toList_owners_without, herase, hl, BoundedList.countP_around,
    List.countP_append]
  omega

/-- A change of an owner counts only for that owner. -/
theorem tally_modifyOwner {f : Owner → Owner} (ho : t.owners.toList[i]? = some o) :
    (t.modifyOwner i f).tally p + (p o).toNat = t.tally p + (p (f o)).toNat := by
  obtain ⟨pre, post, hl, -, -, hmodify⟩ := BoundedList.exists_around ho
  rw [tally, tally, toList_owners_modifyOwner, hmodify, hl, BoundedList.countP_around,
    BoundedList.countP_around]
  omega

/-- An owner that is changed, and has the property as before. -/
theorem tally_modifyOwner_kept (f : Owner → Owner) (ho : t.owners.toList[i]? = some o)
    (hf : p (f o) = p o) : (t.modifyOwner i f).tally p = t.tally p := by
  have htally := tally_modifyOwner (p := p) (f := f) ho
  rw [hf] at htally
  omega

/-- An owner that is changed, and does not have the property any more. -/
theorem tally_modifyOwner_released (f : Owner → Owner)
    (ho : t.owners.toList[i]? = some o) (hf : p (f o) = false) :
    (t.modifyOwner i f).tally p + (p o).toNat = t.tally p := by
  have htally := tally_modifyOwner (p := p) (f := f) ho
  rw [hf] at htally
  exact htally

theorem tally_started {start : Backend.Start}
    (room : t.owners.toList.length < maxOwners) :
    (t.started start o).tally p = t.tally p + (p o).toNat := by
  rw [started_eq room, tally, tally, BoundedList.countP_around]
  simp

theorem Announced.tally_eq (announced : t.Announced es t') :
    t'.tally p = t.tally p := by
  rw [announced.eq]
  rfl

theorem tally_vacant (h : t.owners.toList = []) : t.tally p = 0 := by
  rw [tally, h]
  rfl

end Transport

end AudioBroker
