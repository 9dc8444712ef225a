import AudioBroker.Proofs.Broker.Life
import AudioBroker.Proofs.Paths
import AudioBroker.Proofs.Transport.Ending

/-!
# The end of a transport

A transport is withdrawn from the bus, its owners end in their order, the stream
lock is given back, and then the signalling session. What still names it afterwards,
a report or a token in the queue, finds nothing.

- `Transport.withdrawalCalls`: all that is said when a transport is withdrawn.
- `Broker.perform_remove`: exactly this is said, whatever is answered.
- `Broker.Inert`: nothing comes of what names the transport with a number.
- `Run.gone_or_created`: a number is free until a transport is created under it.
- `Run.removal_outcome`: the whole of it, in every state that can be reached.
-/

namespace AudioBroker

open Dialogue

/-- The calls that withdraw a transport: its object, what its owners hold, in their
order, the stream lock if it is held, and the session if one is stored. -/
def Transport.withdrawalCalls (t : Transport) : List Call :=
  .unregister t.path :: (t.vacatingCalls ++ t.session?.toList.map .closeSession)

namespace Broker

variable {b : Broker} {t : Transport} {id : TransportId}

/-- A transport is withdrawn by the same calls whatever is answered. -/
theorem perform_remove (live : b.transports.get? t.id = some t)
    (engaged : t.Engaged) :
    b.perform (.remove t.id) =
      makeAll t.withdrawalCalls >>= fun _ =>
        pure (true, { b with transports := b.transports.erase t.id }) := by
  obtain ⟨t', hbackend, hall⟩ := Transport.endAll_eq engaged
  have hclose : t'.backend.closeCalls = t.session?.toList.map .closeSession := by
    rw [hbackend]
    rfl
  have hcalls : t.withdrawalCalls =
      [.unregister t.path] ++ (t.vacatingCalls ++
        t.session?.toList.map .closeSession) := rfl
  show b.remove t.id = _
  simp only [remove, live, hall, hclose, hcalls, makeAll_append, bind_assoc,
    pure_bind]

/-! ### What names a transport that is gone -/

/-- Nothing comes of what names the transport with the number. -/
structure Inert (b : Broker) (id : TransportId) : Prop where
  gone : b.transports.get? id = none
  /-- No call is made for a method or a report that names it, and nothing is found. -/
  performs : ∀ (op : Operation) (hop : op.isLocal = true), op.addressee? b = some id →
    b.perform op = pure (op.missing hop, b)
  handles : ∀ event : Event, event.operation.addressee? b = some id →
    b.handle event = pure b
  /-- The queue is emptied as if its tokens were not there. -/
  drains : b.runDeferred =
    { b with deferred := b.deferred.filter fun token =>
               token.transport != id }.runDeferred

/-- A transport that is gone does not come back when another one is stored. -/
theorem get?_store_eq_none (gone : b.transports.get? id = none) (t : Transport) :
    (b.store t).transports.get? id = none := by
  have hids := Registry.ids_replace b.transports t
  rw [Registry.get?_eq_none_iff] at gone ⊢
  intro u hu hid
  have hmem : id ∈ b.transports.toList.map Transport.id := by
    rw [← hids, ← hid]
    exact List.mem_map_of_mem hu
  obtain ⟨v, hv, hvid⟩ := List.mem_map.mp hmem
  exact gone v hv hvid

/-- Tokens of a transport that is gone end nobody. -/
theorem endEach_filter (gone : b.transports.get? id = none) (tokens : List Token) :
    b.endEach tokens = b.endEach
      (tokens.filter fun token => token.transport != id) := by
  induction tokens generalizing b with
  | nil => rfl
  | cons token rest ih =>
    by_cases hid : token.transport = id
    · have hnobody : b.endScheduled token = pure (false, b) := by
        rw [endScheduled, hid, gone]
      rw [List.filter_cons_of_neg (by simp [hid]), endEach, hnobody, pure_bind,
        ← ih gone]
      simp
    · rw [List.filter_cons_of_pos (by simp [hid])]
      simp only [endEach, endScheduled]
      -- whatever is torn down, the number stays free
      cases b.transports.get? token.transport with
      | none => simp only [pure_bind, ih gone]
      | some t =>
        simp only [bind_assoc, pure_bind, fun t' => ih (get?_store_eq_none gone t')]

theorem idAt?_ne_of_gone (gone : b.transports.get? id = none) (path : String) :
    b.idAt? path ≠ some id := by
  intro hid
  obtain ⟨t, hfound, hid⟩ := Option.map_eq_some_iff.mp hid
  exact Registry.get?_eq_none_iff.mp gone t (Registry.find?_eq_some hfound).1 hid

/-- A transport that is gone is inert. -/
theorem inert_of_gone (hd : b.transports.Distinct)
    (gone : b.transports.get? id = none) : b.Inert id where
  gone := gone
  performs op hop names := by
    refine perform_of_no_target hd hop ?_
    rw [Operation.target?, names, Option.bind_some, gone]
  handles event names := by
    cases event with
    | call path client call method =>
      exact absurd names (idAt?_ne_of_gone gone path.str)
    | exited token =>
      obtain rfl := Option.some.inj names
      simp only [handle, exit, gone, pure_bind]
    | a2dpResumed token report =>
      obtain rfl := Option.some.inj names
      simp only [handle, a2dpResumed, gone]
    | voiceConnected token connected =>
      obtain rfl := Option.some.inj names
      simp only [handle, voiceConnected, gone]
    | delayed transport delay =>
      obtain rfl := Option.some.inj names
      simp only [handle, reportDelay, gone, pure_bind]
  -- the tokens of the transport find nobody, so that they may as well be left out
  drains := by
    have hfree : { b with deferred := ∅ }.transports.get? id = none := gone
    rw [runDeferred, endEach_filter hfree]
    rfl

end Broker

section Runs

variable {options : Options} {steps later : List Step} {b b' : Broker}
  {t : Transport} {id : TransportId}

/-- A number that no live transport has stays free until a transport is created
under it. -/
theorem Run.gone_or_created (run : Run (.empty options) steps b)
    (rest : Run b later b') (gone : b.transports.get? id = none) :
    b'.transports.get? id = none ∨
      ∃ s ∈ later, ∃ u, s.Creates u ∧ u.id = id ∧ u ∈ s.after.transports.toList := by
  induction rest with
  | nil => exact .inl gone
  | @snoc later s rest ih =>
    rcases ih with hgone | ⟨s₁, hs₁, hcreates⟩
    swap
    · exact .inr ⟨s₁, List.mem_append_left _ hs₁, hcreates⟩
    cases hget : s.after.transports.get? id with
    | none => exact .inl rfl
    | some u =>
      obtain ⟨hu, hid⟩ := Registry.get?_eq_some hget
      have hbefore := run.trans rest
      -- what is live now was created in this step, as it was not live before
      rcases s.created_or_carried hbefore.distinct hbefore.tracked hu
        with hcreates | ⟨u₀, hcarries⟩
      · exact .inr ⟨s, by simp, u, hcreates, hid, hu⟩
      · rw [← hid, hcarries.live] at hgone
        cases hgone

/-- In every state of every run, a live transport is withdrawn by exactly these
calls, whatever its owners are at and whatever is answered: its object is withdrawn;
the watch, the start and the call of each owner are closed, in the order of the
owners; the stream lock is given back, if there were owners; and then the session,
if one is stored. The transport is gone then, and nothing else is changed. What
names it later comes to nothing, be it a report or a token in the queue, as long as
no transport has been created under its number; and that happens only once the
counter has started over. -/
theorem Run.removal_outcome (run : Run (.empty options) steps b)
    (live : t ∈ b.transports.toList) :
    b.perform (.remove t.id) = (makeAll t.withdrawalCalls >>= fun _ =>
        pure (true, { b with transports := b.transports.erase t.id })) ∧
      (t.heldLock?.isSome = true ↔ t.owners.toList ≠ []) ∧
      (∃ pre post, b.transports.toList = pre ++ t :: post ∧
        (b.transports.erase t.id).toList = pre ++ post ∧ ∀ u ∈ pre ++ post,
          u.id ≠ t.id) ∧
      ∀ later b', Run { b with transports := b.transports.erase t.id } later b' →
        (b'.Inert t.id ∨ ∃ s ∈ later, ∃ u,
          s.Creates u ∧ u.id = t.id ∧ u ∈ s.after.transports.toList) ∧
        (Unwrapped (steps ++ later) → b'.Inert t.id) := by
  have hget := run.distinct.get?_of_mem live
  have engaged := run.engaged t live
  have hremove := Broker.perform_remove hget engaged
  obtain ⟨pre, post, hl, herase, hothers, -⟩ := run.distinct.exists_around hget
  refine ⟨hremove, engaged.heldLock?_isSome_iff, ⟨pre, post, hl, herase, hothers⟩,
    fun later b' rest => ?_⟩
  -- the removal is a step of the run, whatever is answered
  obtain ⟨es, hwent⟩ : ∃ es, (b.perform (.remove t.id)).Yields es
      (true, { b with transports := b.transports.erase t.id }) := by
    obtain ⟨es, x, hwent⟩ : ∃ es x, (b.perform (.remove t.id)).Yields es x :=
      ⟨_, _, yields_run Script.peers _ {}⟩
    obtain ⟨-, rfl⟩ := yields_makeAll_pure.mp (hremove ▸ hwent)
    exact ⟨es, hwent⟩
  have hremoved := run.snoc (s := ⟨b, .remove t.id, es, true, _, hwent⟩)
  have hgone : (b.transports.erase t.id).get? t.id = none :=
    Registry.get?_erase_self _ _
  have hdistinct := (hremoved.trans rest).distinct
  constructor
  · rcases hremoved.gone_or_created rest hgone with hfree | hcreated
    · exact .inl (Broker.inert_of_gone hdistinct hfree)
    · exact .inr hcreated
  · intro unwrapped
    obtain ⟨hbefore, hafter⟩ := unwrapped_append.mp unwrapped
    have hold : t.id.raw < b.nextTransport.raw :=
      (run.numbered hbefore).transports t live
    exact Broker.inert_of_gone hdistinct
      (rest.retired hafter hremoved.distinct ⟨hgone, hold⟩).1

/-- A reader's start has failed, and it waits in the queue; a writer's is under
way. -/
def Scene.oneFailed : List (Script × Operation) :=
  [({}, .create speaker device []), ({}, acquire ":1" "r" 1),
    ({ lastWatch := 1, lastRequest := 1 }, acquire ":2" "w" 2),
      ({}, .a2dpResumed ⟨⟨0⟩, ⟨0⟩⟩ (.failed .timeout))]

/-- Their transport is withdrawn: both of them end, and the token that is left in
the queue ends nobody. -/
theorem Run.token_outlives_transport :
    ∃ steps b, ∃ t : Transport, Run (.empty {}) steps b ∧ t ∈ b.transports.toList ∧
      t.withdrawalCalls = [.unregister t.path, .unwatch ⟨1⟩,
        .reply ⟨1⟩ (.failure .resumeFailed), .unwatch ⟨2⟩,
        .abortStream Scene.device ⟨2, by decide⟩,
          .reply ⟨2⟩ (.failure .resumeFailed), .unlockStream 1 ⟨1⟩,
        .closeSession ⟨1⟩] ∧
      b.perform (.remove t.id) = (makeAll t.withdrawalCalls >>= fun _ =>
        pure (true, { b with transports := b.transports.erase t.id })) ∧
      b.deferred.toList = [⟨t.id, ⟨0⟩⟩] ∧
      { b with transports := b.transports.erase t.id }.runDeferred =
        pure (0, { b with transports := b.transports.erase t.id,
                          deferred := ∅ }) := by
  have run := Broker.run_play Script.peers (.empty {}) Scene.oneFailed
  have hqueue :
      ((Broker.empty {}).played Script.peers Scene.oneFailed).deferred.toList =
        [⟨⟨0⟩, ⟨0⟩⟩] := by
    decide
  have hlive :
      (((Broker.empty {}).played Script.peers Scene.oneFailed).transports.get?
        ⟨0⟩).map
      (fun t => t.withdrawalCalls.tail) = some
        [.unwatch ⟨1⟩, .reply ⟨1⟩ (.failure .resumeFailed), .unwatch ⟨2⟩,
        .abortStream Scene.device ⟨2, by decide⟩,
          .reply ⟨2⟩ (.failure .resumeFailed), .unlockStream 1 ⟨1⟩,
        .closeSession ⟨1⟩] := by decide
  generalize (Broker.empty {}).played Script.peers Scene.oneFailed = b
    at run hqueue hlive
  obtain ⟨t, hget, hcalls⟩ := Option.map_eq_some_iff.mp hlive
  obtain ⟨ht, hid⟩ := Registry.get?_eq_some hget
  obtain ⟨hremove, -, -, hlater⟩ := run.removal_outcome ht
  have hinert := (hlater [] _ .nil).1.resolve_right (by simp)
  refine ⟨_, b, t, run, ht, congrArg (Call.unregister t.path :: ·) hcalls, hremove,
    hid ▸ hqueue, ?_⟩
  have hempty :
      (b.deferred.filter fun token => token.transport != t.id).toList = [] := by
    simp [hqueue, hid]
  rw [hinert.drains, Broker.runDeferred]
  show Broker.endEach _ (b.deferred.filter fun token =>
    token.transport != t.id).toList = _
  rw [hempty]
  rfl

end Runs

end AudioBroker
