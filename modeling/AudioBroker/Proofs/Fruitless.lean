import AudioBroker.Proofs.Admission
import AudioBroker.Proofs.Completion
import AudioBroker.Proofs.Release
import AudioBroker.Proofs.Transport.Undoing

/-!
# Requests for access that come to nothing

A client that is let in may end up with nothing: no start can be begun for it, it
leaves, it gives everything back, or the start fails. Then the broker is what it
was, but for a number that is used up, and a session that its transport may store.
Where the start fails, that is so once the queue has been emptied.

- `Broker.trace`: what is left of such a request.
- `Broker.Fruitless`: nothing else is left of it, in each of the ways in which an
  owner can end at once.
- `Broker.fruitless_of_began`: so it is once a start is under way.
- `Run.fruitless_acquire_leaves_no_trace`: the whole of it, in every state that can
  be reached.
-/

namespace AudioBroker

open Dialogue

namespace Transport

variable {t : Transport}

/-- What is said when marked owners go does not depend on a session that was
obtained since. -/
theorem sweepCalls_withSession (engaged : t.Engaged) (session : Option SessionId) :
    { t with backend := t.backend.withSession session }.sweepCalls =
      t.sweepCalls := by
  by_cases hin : t.inUse = true
  · rw [Backend.withSession_of_keyed session (engaged.keyed hin)]
  · have hnone : t.owners.toList = [] := by
      by_contra hsome
      exact hin (engaged.inUse_iff.mpr hsome)
    have hunmarked : ∀ o ∈ t.owners.toList, o.scheduled = false := by
      rw [hnone]
      exact nofun
    rw [sweepCalls_of_unmarked hunmarked]
    exact sweepCalls_of_unmarked hunmarked

end Transport

namespace Broker

variable {b b₁ b₂ b₃ b' : Broker} {t : Transport} {path client text : String}
  {call : PendingCall}
  {name : ClientName} {access : Access} {watch : Option WatchId}
    {request : RequestId} {start : Backend.Start}
  {starting es es₁ es₂ drained : List Exchange} {session : Option SessionId}
    {token : Token} {r : Report}
  {id : OwnerId} {n m : Nat}

/-! ### What is left -/

/-- The broker after a request for access of which nothing came: a number is used
up, and the transport may store a session that it did not store before. -/
def trace (b : Broker) (id : TransportId) (session : Option SessionId) : Broker :=
  { b with
    transports := b.transports.map fun t =>
      if t.id = id then { t with backend := t.backend.withSession session } else t
    nextOwner := b.nextOwner.next }

/-- A transport that is left with a session more, and a number less to be given out,
is all of the trace. -/
theorem store_eq_trace (hd : b.transports.Distinct)
    (live : b.transports.get? t.id = some t) (session : Option SessionId) :
    { b.store { t with backend := t.backend.withSession session } with
        nextOwner := b.nextOwner.next } =
      b.trace t.id session := by
  have htransports :
      b.transports.replace { t with backend := t.backend.withSession session } =
      b.transports.map fun u =>
        if u.id = t.id then { u with backend := u.backend.withSession session }
        else u := by
    refine BoundedList.ext (List.map_congr_left fun u hu => ?_)
    by_cases hid : u.id = t.id
    · have hsame := hd.get?_of_mem hu
      rw [hid, live] at hsame
      rw [if_pos hid, if_pos hid, Option.some.inj hsame]
    · rw [if_neg hid, if_neg hid]
  rw [store, htransports]
  rfl

/-- The marked owners go, and leave it. -/
theorem swept_trace (b : Broker) (id : TransportId) (session : Option SessionId) :
    { b.trace id session with transports := (b.trace id session).transports.swept,
                              deferred := ∅ } =
      { b with transports := b.transports.swept, deferred := ∅ }.trace id
          session := by
  have hswept : (b.trace id session).transports.swept = b.transports.swept.map
      fun t =>
      if t.id = id then { t with backend := t.backend.withSession session }
      else t := by
    refine BoundedList.ext ?_
    simp only [trace, Registry.swept, BoundedList.toList_map, List.map_map]
    refine List.map_congr_left fun t _ => ?_
    rw [Function.comp_apply, Function.comp_apply, apply_ite Transport.swept]
    rfl
  rw [hswept]
  rfl

/-- The trace does not show in the calls when marked owners go. -/
theorem sweepCalls_trace (engaged : ∀ t ∈ b.transports.toList, t.Engaged)
    (id : TransportId) (session : Option SessionId) :
    (b.trace id session).transports.sweepCalls = b.transports.sweepCalls := by
  rw [Registry.sweepCalls, Registry.sweepCalls, trace, BoundedList.toList_map,
    List.flatMap_map]
  refine List.flatMap_congr fun t ht => ?_
  by_cases h : t.id = id
  · rw [if_pos h, Transport.sweepCalls_withSession (engaged t ht)]
  · rw [if_neg h]

/-! ### The ways in which it comes to that -/

/-- Nothing is left of the request for access for which `es` was said, in whatever
way its owner ends at once. -/
structure Fruitless (b b₁ : Broker) (t : Transport) (path client text : String)
    (call : PendingCall)
    (es : List Exchange) (session : Option SessionId) : Prop where
  /-- The client leaves. -/
  exit : ∀ token, token.transport = t.id →
    (b₁.owner? token).map (fun o => o.name.str) = some client →
    b₁.perform (.exit token) =
      makeAll (t.undoing call es true false) >>= fun _ =>
        pure (true, b.trace t.id session)
  /-- The client gives back all that it has asked for. -/
  release : ∀ text', Access.parse? text' = Access.parse? text →
    b₁.perform (.release path client text') =
      makeAll (t.undoing call es false false) >>= fun _ =>
        pure (.ok (), b.trace t.id session)
  /-- The start fails, and the queue is emptied. -/
  fail : ∀ op r, op.report? = some r → r.isA2dp = t.backend.isA2dp →
    r.success = false →
    r.token.transport = t.id →
      (b₁.owner? r.token).map (fun o => o.name.str) = some client →
    ∀ es₁ result b₂ es₂ n b₃, (b₁.perform op).Yields es₁ (result, b₂) →
      b₂.runDeferred.Yields es₂ (n, b₃) →
      ∀ drained m b', b.runDeferred.Yields drained (m, b') →
        b₃ = b'.trace t.id session ∧
          ((es₁ ++ es₂).map Exchange.call).Perm
            (t.undoing call es false true ++ drained.map Exchange.call)

/-! ### A start is under way -/

/-- A client is let in as the owner `o` of the transport `t`, and its start is
tried. -/
structure Enters (b : Broker) (t : Transport) (o : Owner) (starting : List Exchange)
    (start : Backend.Start) (session : Option SessionId) : Prop where
  distinct : b.transports.Distinct
  live : b.transports.get? t.id = some t
  engaged : t.Engaged
  room : t.owners.toList.length < maxOwners
  new : ∀ u ∈ t.owners.toList, u.name.str ≠ o.name.str
  free : o.access ∩ t.locks = ∅
  started : Backend.StartSpec t.device (t.token o.id) t.backend t.inUse starting start
  backend_eq : start.backend = t.backend.withSession session

/-- The broker with a new owner, whose start is under way. -/
def began (b : Broker) (t : Transport) (start : Backend.Start) (o : Owner) : Broker :=
  { b.store (t.started start o) with nextOwner := b.nextOwner.next }

namespace Enters

variable {o : Owner}

theorem id_started (h : b.Enters t o starting start session) :
    (t.started start o).id = t.id := by
  rw [Transport.started_eq h.room]

theorem get?_began (h : b.Enters t o starting start session) :
    (b.began t start o).transports.get? t.id = some (t.started start o) :=
  get?_store h.live h.id_started

/-- Another stage of the owner enters in the same way. -/
theorem of_stage (h : b.Enters t o starting start session) (o' : Owner)
    (id : o'.id = o.id) (name : o'.name = o.name) (access : o'.access = o.access) :
    b.Enters t o' starting start session where
  distinct := h.distinct
  live := h.live
  engaged := h.engaged
  room := h.room
  new := name ▸ h.new
  free := access ▸ h.free
  started := id ▸ h.started
  backend_eq := h.backend_eq

/-- In whatever stage the owner ends, the transport is what it was, but for a
session, and the lock that was taken is given back. -/
theorem ends (h : b.Enters t o starting start session) :
    (t.started start o).without t.owners.size = { t with backend := start.backend } ∧
      (t.started start o).partingCalls t.owners.size =
        o.partingCalls t.backend t.device ++
        (starting.filterMap Exchange.taken?).map LockKey.giveBack :=
  Transport.started_ends h.engaged h.room h.free h.started

/-- What is stored in the end is what was there before, with a session. -/
theorem store_began (h : b.Enters t o starting start session) :
    (b.began t start o).store { t with backend := start.backend } =
      b.trace t.id session := by
  have hstored :
      (b.store (t.started start o)).store { t with backend := start.backend } =
      b.store { t with backend := start.backend } := store_store h.id_started.symm
  rw [← store_eq_trace h.distinct h.live session, ← h.backend_eq, ← hstored]
  rfl

/-- A token that is for the client finds the new owner. -/
theorem owner?_began (h : b.Enters t o starting start session)
    (here : token.transport = t.id)
    (names : ((b.began t start o).owner? token).map (fun o => o.name.str) =
      some o.name.str) :
    (t.started start o).owner? token.owner = some (t.owners.size, o) := by
  obtain ⟨o', hfound, hname⟩ := Option.map_eq_some_iff.mp names
  rw [owner?, here, h.get?_began, Option.bind_some] at hfound
  obtain ⟨⟨i, o''⟩, howner, rfl⟩ := Option.map_eq_some_iff.mp hfound
  obtain ⟨rfl, rfl⟩ := Transport.eq_of_owner?_started h.room h.new howner hname
  exact howner

/-- The number of the new owner is its own if no other owner has it. -/
theorem owner?_next (h : b.Enters t o starting start session)
    (fresh : o.id ∉ t.ownerIds) :
    (b.began t start o).owner? (t.token o.id) = some o := by
  have hothers := Transport.locate?_eq_none_iff.mp
    (Transport.owner?_eq_none_iff.mpr fresh)
  have hfound : (t.started start o).owner? o.id = some (t.owners.size, o) :=
    Transport.owner?_started h.room fun u hu => ne_of_beq_false (hothers u hu)
  rw [owner?, Transport.token, h.get?_began, Option.bind_some, hfound]
  rfl

/-- The client leaves. -/
theorem exit_began (h : b.Enters t o starting start session)
    (here : token.transport = t.id)
    (found : (t.started start o).owner? token.owner = some (t.owners.size, o)) :
    (b.began t start o).perform (.exit token) =
      makeAll (o.depart.partingCalls t.backend t.device ++
        (starting.filterMap Exchange.taken?).map LockKey.giveBack) >>= fun _ =>
          pure (true, b.trace t.id session) := by
  obtain ⟨hleft, hparting⟩ := (h.of_stage o.depart rfl rfl rfl).ends
  show (b.began t start o).exit token = _
  simp only [exit, here, h.get?_began, Transport.exit, found,
    Transport.started_modifyOwner Owner.depart h.room rfl, Transport.endAt, hleft,
    hparting, bind_assoc, pure_bind, h.store_began]

/-- The client gives back all that it has asked for. -/
theorem release_began (h : b.Enters t o starting start session)
    (live : b.transports.find? path = some t)
    (hparse : Access.parse? text = some o.access) :
    (b.began t start o).perform (.release path o.name.str text) =
      makeAll (o.partingCalls t.backend t.device ++
        (starting.filterMap Exchange.taken?).map LockKey.giveBack) >>= fun _ =>
          pure (.ok (), b.trace t.id session) := by
  obtain ⟨hleft, hparting⟩ := h.ends
  have hpath : (t.started start o).path = t.path := by
    rw [Transport.started_eq h.room]
  have hfind : (b.began t start o).transports.find? path = some (t.started start o) :=
    find?_store h.distinct live h.id_started hpath
  show (b.began t start o).release path o.name.str text = _
  rw [release_eq (h.distinct.replace _) hfind,
    Transport.release_of_all (Transport.ownerOf?_started h.room h.new rfl) hparse,
    hleft, hparting]
  simp only [bind_assoc, pure_bind, h.store_began]

/-- A marked owner goes when the queue is emptied, and leaves what was there
before. -/
theorem sweeps_marked (h : b.Enters t o starting start session)
    (marked : o.scheduled = true) :
    (b.transports.replace (t.started start o)).Sweeps
      (o.partingCalls t.backend t.device ++
        (starting.filterMap Exchange.taken?).map LockKey.giveBack) 1
      (b.trace t.id session).transports := by
  obtain ⟨hleft, hparting⟩ := h.ends
  have hsweeps := Registry.sweeps_without (h.distinct.replace _)
    (Registry.get?_id h.get?_began) (Transport.started_last h.room) marked
  rw [hleft, hparting] at hsweeps
  rw [← h.store_began]
  exact hsweeps

/-- The start fails: the owner is gone then, or it is marked to go. -/
theorem fail_began (h : b.Enters t o starting start session)
    (here : r.token.transport = t.id)
    (found : (t.started start o).owner? r.token.owner = some (t.owners.size, o))
    (unmarked : o.scheduled = false)
    (pending : o.pending = some { call := some call, request := some request })
    (kind : r.isA2dp = t.backend.isA2dp) (failed : r.success = false)
    (went : ((b.began t start o).report r).Yields es₁ b₂) :
    ∃ cs k,
      b₂ = { b.trace t.id session with transports := b₂.transports,
                                       deferred := b₂.deferred } ∧
      b₂.transports.Sweeps cs k (b.trace t.id session).transports ∧
      es₁.map Exchange.call ++ cs =
        (o.concluded call none).partingCalls t.backend t.device ++
        (starting.filterMap Exchange.taken?).map LockKey.giveBack := by
  have hconcluded := h.of_stage (o.concluded call none) rfl rfl rfl
  have hmarked := h.of_stage ((o.concluded call none).schedule) rfl rfl rfl
  have hlist : (t.started start o).owners.toList = t.owners.toList ++ [o] := by
    rw [Transport.started_eq h.room]
  have hkind : (t.started start o).backend.isA2dp = r.isA2dp := by
    rw [Transport.started_eq h.room, kind,
      ← Backend.isA2dp_withSession t.backend session, ← h.backend_eq]
  -- the report is for the last owner
  obtain ⟨pre, post, howners, hlength, hid, hfirst⟩ :=
    Transport.locate?_eq_some_iff.mp found
  obtain ⟨rfl, hlast⟩ := List.append_inj (howners.symm.trans hlist) hlength
  obtain ⟨-, rfl⟩ := List.cons.inj hlast
  obtain ⟨queued, hcompleted⟩ :=
    report_completed (here ▸ h.get?_began) hkind howners (eq_of_beq hid)
    (fun u hu => ne_of_beq_false (hfirst u hu)) unmarked pending rfl went
  cases hcompleted with
  | delivered tried _ =>
    rw [failed] at tried
    cases tried
  | @ended _ _ _ _ owners tried _ _ gone parting =>
    rw [failed] at tried
    cases tried
    obtain rfl : owners = t.owners := BoundedList.ext (gone.trans (List.append_nil _))
    have hleft := h.ends.1
    have hparting := hconcluded.ends.2
    rw [Transport.without_eq (Transport.started_last h.room),
      Transport.started_eraseIdx h.room] at hleft
    rw [Transport.partingCalls_eq (Transport.started_last h.room),
      Transport.started_eraseIdx h.room, Owner.partingCalls_concluded,
      Transport.started_eq h.room] at hparting
    rw [Transport.started_eq h.room] at parting
    have hb₂ := (congrArg (b.began t start o).store hleft).trans h.store_began
    refine ⟨[], 0, ?_, ?_, ?_⟩
    · rw [hb₂]
    · rw [hb₂]
      exact .refl _
    · rw [← hparting, List.append_nil, List.nil_append]
      exact parting
  | @queued _ _ _ owners deferred tried _ _ marked _ =>
    rw [failed] at tried
    cases tried
    have hnow :
        { t.started start o with owners } = t.started start
          (o.concluded call none).schedule :=
      Transport.started_of_owners h.room marked rfl
    have hstored :
        ((b.began t start o).store { t.started start o with owners }).transports =
        b.transports.replace (t.started start (o.concluded call none).schedule) := by
      rw [hnow]
      exact Registry.replace_replace _ (hmarked.id_started.trans h.id_started.symm)
    refine ⟨_, 1, rfl, ?_, rfl⟩
    show Registry.Sweeps ((b.began t start o).store
      { t.started start o with owners }).transports _ _ _
    rw [hstored]
    exact hmarked.sweeps_marked rfl

end Enters

section Runs

variable {options : Options} {steps steps₁ : List Step}

/-- Nothing is left of a request whose start is under way, once its owner has
ended. -/
theorem fruitless_of_began
    (h : b.Enters t (.fresh id name access watch call (some request)) starting start
      session)
    (run : Run (.empty options) steps b)
    (run₁ : Run (.empty options) steps₁
      (b.began t start (.fresh id name access watch call (some request))))
    (under_way : start.request = some request)
    (live : b.transports.find? path = some t)
    (hparse : Access.parse? text = some access) :
    b.Fruitless (b.began t start (.fresh id name access watch call (some request)))
      t path name.str text call
      (⟨.watch name (t.token id), watch⟩ :: starting) session where
  exit token here names := by
    rw [h.exit_began here (h.owner?_began here names),
      Transport.undoing_eq _ h.started, under_way]
    rfl
  release text' htext := by
    have hcalls :
        (Owner.fresh id name access watch call (some request)).partingCalls
          t.backend t.device =
        watch.toList.map .unwatch ++ ([t.backend.abortCall t.device request] ++
          [.reply call (.failure .resumeFailed)]) := rfl
    rw [Transport.undoing_eq _ h.started, under_way]
    refine (h.release_began live (htext.trans hparse)).trans ?_
    rw [hcalls, List.append_assoc, List.append_assoc]
    rfl
  fail op r report kind failed here names es₁ result b₂ es₂ n b₃ went drain drained
      m b' drain' := by
    have run₂ := run₁.snoc (s := ⟨_, op, es₁, result, b₂, went⟩)
    -- the failed owner is torn down at once or at the next drain: `cs` are the calls of
    -- its end that the drain makes
    obtain ⟨cs, k, hb₂, hsweeps, hcalls⟩ :=
      h.fail_began here (h.owner?_began here names) rfl rfl kind failed
      (Step.reported (s := ⟨_, op, es₁, result, b₂, went⟩) report)
    obtain ⟨hb₃, hdrain, -⟩ := runDeferred_sweeps run₂.distinct run₂.tracked drain
    obtain ⟨hb', hdrain', -⟩ := runDeferred_sweeps run.distinct run.tracked drain'
    have hundoing : es₁.map Exchange.call ++ cs =
        t.undoing call (⟨.watch name (t.token id), watch⟩ :: starting) false
          true := by
      rw [hcalls, Transport.undoing_eq _ h.started, Owner.partingCalls_concluded,
        List.append_assoc]
      rfl
    constructor
    · have hleft : { b₂ with transports := b₂.transports.swept, deferred := ∅ } =
          { b.trace t.id session with transports := b₂.transports.swept,
                                      deferred := ∅ } :=
        congrArg (fun u : Broker =>
          { u with transports := b₂.transports.swept, deferred := ∅ }) hb₂
      rw [hb₃, hleft, ← hsweeps.swept, swept_trace, hb']
    · have htrace := sweepCalls_trace (fun u hu => run.engaged u hu) t.id session
      have hrest :
          (es₂.map Exchange.call).Perm (cs ++ drained.map Exchange.call) := by
        refine hdrain.trans (hsweeps.calls.symm.trans ?_)
        rw [htrace]
        exact hdrain'.symm.append_left cs
      rw [List.map_append, ← hundoing, List.append_assoc]
      exact hrest.append_left _

end Runs

end Broker

/-- In every state of every run, a request for access that is admitted and comes to
nothing leaves the broker as it was, but for one number that is used up, and a
session that its transport may store from now on. So it is where no start can be
begun; where the client leaves at once, or gives back all that it has asked for; and
where its start fails, once the queue has been emptied, as if it had been emptied
without the request. In each case the watch is ended, unless it has fired, the start
is aborted, unless it has ended, the call is answered with a failure, unless the
client has left, and the lock that was taken is given back. Until the counter of
owners starts over, the new owner is the one that its token names. -/
theorem Run.fruitless_acquire_leaves_no_trace {options : Options}
    {steps : List Step} {b b₁ : Broker} {t : Transport} {path client text : String}
    {call : PendingCall} {es : List Exchange} {result : Except Rejection Unit}
    (run : Run (.empty options) steps b) (live : b.transports.find? path = some t)
    (admitted : b.refusal? path client text = none)
    (h : (b.perform (.acquire path client text call)).Yields es (result, b₁)) :
    result = .ok () ∧ ∃ session,
      (∃ asked undone, es = asked ++ undone ∧ begun asked = [] ∧
          opened asked = session.toList ∧
          undone.map Exchange.call = t.undoing call asked false false ∧
          b₁ = b.trace t.id session) ∨
        (begun es ≠ [] ∧ opened es = session.toList ∧
          b.Fruitless b₁ t path client text call es session ∧
          (Unwrapped steps →
            (b₁.owner? (t.token b.nextOwner)).map (fun o => o.name.str) =
              some client)) := by
  have hmem := (Registry.find?_eq_some live).1
  have room := run.room t hmem
  have engaged := run.engaged t hmem
  have hno : t.refusal? client text = none := by
    rwa [Broker.refusal?_of_find? live] at admitted
  obtain ⟨new, -⟩ := Transport.refusal?_eq_none_iff.mp hno
  obtain ⟨name, access, rfl, hparse, hyields⟩ :=
    Broker.acquire_of_no_refusal run.distinct room engaged live hno
  obtain ⟨rfl, t', taken, rfl⟩ := (hyields _ _ _).mp h
  refine ⟨rfl, ?_⟩
  have hget := run.distinct.get?_of_mem hmem
  cases taken with
  | @undone watch starting undoing start started refused undo =>
    obtain ⟨session, hopened, hbackend⟩ := started.opened_eq
    refine ⟨session, .inl ⟨⟨.watch name (t.token b.nextOwner), watch⟩ :: starting,
      undoing, rfl, ?_, hopened, ?_, ?_⟩⟩
    · have hbegun := started.begun_eq.2
      rw [refused] at hbegun
      exact hbegun
    · rw [undo, Transport.undoing_eq _ started, refused, started.given_back]
      rfl
    · rw [hbackend]
      exact Broker.store_eq_trace run.distinct hget session
  | @began watch starting start request owners started under_way last =>
    obtain ⟨session, hopened, hbackend⟩ := started.opened_eq
    have free := Transport.free_of_refusal hparse hno
    have henters :
        b.Enters t (.fresh b.nextOwner name access watch call (some request))
          starting start session :=
      ⟨run.distinct, hget, engaged, room, new, free, started, hbackend⟩
    have hbegan :
        { t with backend := start.backend, inUse := true, locks := t.locks ∪ access,
                 owners } =
        t.started start (.fresh b.nextOwner name access watch call (some request)) :=
      Transport.started_of_under_way room last started under_way
    rw [hbegan] at h ⊢
    have run₁ := run.snoc (s := ⟨b, _, _, _, _, h⟩)
    refine ⟨session, .inr ⟨?_, hopened,
      Broker.fruitless_of_began henters run run₁ under_way live hparse, ?_⟩⟩
    · have hbegun := started.begun_eq.2
      rw [under_way] at hbegun
      exact fun hnone => List.cons_ne_nil _ _ (hbegun.symm.trans hnone)
    · intro unwrapped
      -- the number of the new owner is ahead of all others
      have hnumber : b.nextOwner ∉ t.ownerIds := fun hid =>
        UInt32.lt_irrefl _ (((run.numbered unwrapped).owners t hmem).lt _ hid)
      exact congrArg (Option.map fun o => o.name.str) (henters.owner?_next hnumber)

/-- A reader's start has failed, and it waits in the queue. -/
def Scene.readerWaits : List (Script × Operation) :=
  [({}, .create speaker device []), ({}, acquire ":1" "r" 1),
    ({}, .a2dpResumed ⟨⟨0⟩, ⟨0⟩⟩ (.failed .timeout))]

/-- While one owner waits in the queue, a writer is let in. Nothing of it is left if
it gives everything back; and if its start fails, the queue is emptied as it would
have been without it. -/
theorem Run.writer_beside_queue_leaves_no_trace :
    ∃ steps b es b₁, ∃ t : Transport,
      Run (.empty {}) steps b ∧ b.deferred.toList = [⟨⟨0⟩, ⟨0⟩⟩] ∧
      b.transports.find? "/dev/fd0" = some t ∧
      (b.perform (.acquire "/dev/fd0" ":2" "w" ⟨2⟩)).Yields es (.ok (), b₁) ∧
      b₁.perform (.release "/dev/fd0" ":2" "w") =
        (makeAll [.unwatch ⟨2⟩, .abortStream Scene.device ⟨2, by decide⟩,
        .reply ⟨2⟩ (.failure .resumeFailed)] >>= fun _ =>
          pure (.ok (), b.trace t.id none)) ∧
      ∀ es₁ b₂ es₂ n b₃,
        (b₁.perform (.a2dpResumed ⟨⟨0⟩, ⟨1⟩⟩ (.failed .timeout))).Yields es₁
          ((), b₂) →
        b₂.runDeferred.Yields es₂ (n, b₃) →
          ∀ drained m b', b.runDeferred.Yields drained (m, b') →
          b₃ = b'.trace t.id none := by
  have run := Broker.run_play Script.peers (.empty {}) Scene.readerWaits
  have hunwrapped :
      Unwrapped ((Broker.empty {}).play Script.peers Scene.readerWaits) := by decide
  have hqueue :
      ((Broker.empty {}).played Script.peers Scene.readerWaits).deferred.toList =
        [⟨⟨0⟩, ⟨0⟩⟩] := by
    decide
  have hnext :
      ((Broker.empty {}).played Script.peers Scene.readerWaits).nextOwner = ⟨1⟩ := by
    decide
  have hadmitted :
      ((Broker.empty {}).played Script.peers Scene.readerWaits).refusal?
        "/dev/fd0" ":2" "w" = none := by decide
  have hlive :
      (((Broker.empty {}).played Script.peers Scene.readerWaits).transports.find?
        "/dev/fd0").map
      (fun t => (t.id, t.backend, t.device)) = some
        (⟨0⟩, .a2dp 1 (some ⟨1⟩), Scene.device) := by decide
  have hsaid : ((((Broker.empty {}).played Script.peers Scene.readerWaits).perform
      (.acquire "/dev/fd0" ":2" "w" ⟨2⟩)).run Script.peers
        { lastWatch := 1, lastRequest := 1 }).exchanges =
        [⟨.watch ⟨":2", by decide⟩ ⟨⟨0⟩, ⟨1⟩⟩, some ⟨2⟩⟩,
          ⟨.startStream ⟨1⟩ 1 ⟨⟨0⟩, ⟨1⟩⟩, some ⟨2, by decide⟩⟩] := by rfl
  have hwent := yields_run Script.peers
    (((Broker.empty {}).played Script.peers Scene.readerWaits).perform
    (.acquire "/dev/fd0" ":2" "w" ⟨2⟩)) { lastWatch := 1, lastRequest := 1 }
  rw [hsaid] at hwent
  -- from here on the run is known by the facts above only
  generalize ((((Broker.empty {}).played Script.peers Scene.readerWaits).perform
    (.acquire "/dev/fd0" ":2" "w" ⟨2⟩)).run Script.peers
      { lastWatch := 1, lastRequest := 1 }).value = x at hwent
  generalize (Broker.empty {}).play Script.peers Scene.readerWaits = steps
    at run hunwrapped
  generalize (Broker.empty {}).played Script.peers Scene.readerWaits = b
    at run hqueue hnext hadmitted hlive hwent
  obtain ⟨t, hfind, hfields⟩ := Option.map_eq_some_iff.mp hlive
  obtain ⟨hid, hrest⟩ := Prod.mk.inj hfields
  obtain ⟨hbackend, hdevice⟩ := Prod.mk.inj hrest
  obtain ⟨result, b₁⟩ := x
  obtain ⟨rfl, session, hcase⟩ :=
    run.fruitless_acquire_leaves_no_trace hfind hadmitted hwent
  rcases hcase with ⟨asked, undone, hes, -, -, hundone, -⟩ |
    ⟨-, hopened, hfruitless, hnames⟩
  · -- nobody was answered
    have hreply :
        Call.reply ⟨2⟩ (.failure .resumeFailed) ∈
          (asked ++ undone).map Exchange.call := by
      rw [List.map_append, hundone]
      simp [Transport.undoing]
    rw [← hes] at hreply
    simp at hreply
  · obtain rfl : session = none := by
      cases session with
      | none => rfl
      | some s => cases hopened
    have htoken : t.token b.nextOwner = ⟨⟨0⟩, ⟨1⟩⟩ := by
      rw [Transport.token, hid, hnext]
    have hnames := hnames hunwrapped
    rw [htoken] at hnames
    refine ⟨steps, b, _, b₁, t, run, hqueue, hfind, hwent, ?_, ?_⟩
    · rw [hfruitless.release "w" rfl, Transport.undoing, hbackend, hdevice]
      rfl
    · intro es₁ b₂ es₂ n b₃ hfailed hdrain drained m b' hdrained
      have hkind : true = t.backend.isA2dp := by
        rw [hbackend]
        rfl
      exact (hfruitless.fail (.a2dpResumed ⟨⟨0⟩, ⟨1⟩⟩ (.failed .timeout))
        ⟨true, ⟨⟨0⟩, ⟨1⟩⟩, false⟩ rfl hkind rfl
        hid.symm hnames es₁ () b₂ es₂ n b₃ hfailed hdrain drained m b' hdrained).1

end AudioBroker
