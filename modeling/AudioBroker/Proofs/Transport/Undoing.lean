import AudioBroker.Proofs.Transport.Admission
import AudioBroker.Proofs.Transport.Ending
import AudioBroker.Proofs.Transport.Ledger
import AudioBroker.Proofs.Transport.Signalling
import AudioBroker.Proofs.Watches

/-!
# What a request for access has taken, and how it is given back

A request for access takes up to four things: a watch, a session, the stream lock,
and a start. The session is kept for later starts. The others are given back when
the owner ends, and then its transport is what it was.

- `Backend.withSession`: a backend that was given a session.
- `Backend.StartSpec.opened_eq`, `Backend.StartSpec.given_back`: what a start has
  taken, read off what was said.
- `Transport.undoing`: the calls that give it back.
- `Transport.started_ends`: the end of the owner for whom a start was tried, in
  whatever stage it is.
-/

namespace AudioBroker

open Dialogue

namespace Backend

variable {b b' : Backend} {device : Device} {token : Token} {inUse : Bool}
  {es : List Exchange} {st : Start}

/-- The backend with a session that it was given. One that stores a session keeps
it, and a headset stores none. -/
def withSession (b : Backend) (session : Option SessionId) : Backend :=
  match b with
  | a2dp sep none => a2dp sep session
  | b => b

@[simp] theorem withSession_none (b : Backend) : b.withSession none = b := by
  cases b with
  | a2dp sep session => cases session <;> rfl
  | headset lock imtu omtu => rfl

@[simp] theorem isA2dp_withSession (b : Backend) (session : Option SessionId) :
    (b.withSession session).isA2dp = b.isA2dp := by
  cases b with
  | a2dp sep stored => cases stored <;> rfl
  | headset lock imtu omtu => rfl

@[simp] theorem abortCall_withSession (b : Backend) (session : Option SessionId) :
    (b.withSession session).abortCall = b.abortCall := by
  cases b with
  | a2dp sep stored => cases stored <;> rfl
  | headset lock imtu omtu => rfl

/-- A backend that can name its lock is given no session. -/
theorem withSession_of_keyed (session : Option SessionId)
    (h : (b.lockKey? device).isSome = true) :
    b.withSession session = b := by
  cases b with
  | a2dp sep stored =>
    cases stored with
    | none => cases h
    | some s => rfl
  | headset lock imtu omtu => rfl

/-! ### What a start has taken -/

theorem LockAsked.opened?_eq {granted : Bool} {e : Exchange}
    (h : LockAsked device granted b e) :
    e.opened? = none := by
  cases h <;> rfl

theorem StartAsked.opened?_eq {request : Option RequestId} {e : Exchange}
    (h : StartAsked device token request b e) : e.opened? = none := by
  cases h <;> rfl

/-- The backend goes on with the session that was obtained, if one was. -/
theorem exists_session_of_opened {opening : List Exchange}
    (h : Opened device b opening b') :
    ∃ session, opened opening = session.toList ∧ b' = b.withSession session := by
  cases h with
  | kept _ => exact ⟨none, rfl, (withSession_none b).symm⟩
  | opened sep s => exact ⟨some s, rfl, rfl⟩

/-- A start stores the session that it has obtained, and changes nothing else of the
backend. -/
theorem StartSpec.opened_eq (h : StartSpec device token b inUse es st) :
    ∃ session, opened es = session.toList ∧ st.backend = b.withSession session := by
  cases h with
  | noSession _ => exact ⟨none, rfl, (withSession_none b).symm⟩
  | @noLock opening b' e _ opening' refused =>
    obtain ⟨session, hopened, hbackend⟩ := exists_session_of_opened opening'
    refine ⟨session, ?_, hbackend⟩
    rw [opened_append, hopened, opened_cons, refused.opened?_eq]
    exact List.append_nil _
  | @asked opening locking b' e request opening' locked asked =>
    obtain ⟨session, hopened, hbackend⟩ := exists_session_of_opened opening'
    -- the lock and the start open nothing
    have hlocking : opened locking = [] := by
      rcases locked with ⟨-, rfl⟩ | ⟨-, e', granted, rfl⟩
      · rfl
      · rw [opened_cons, granted.opened?_eq]
        rfl
    refine ⟨session, ?_, hbackend⟩
    rw [opened_append, opened_append, hopened, hlocking, opened_cons,
      asked.opened?_eq, List.append_nil]
    exact List.append_nil _

theorem Opened.taken_eq {opening : List Exchange} (h : Opened device b opening b') :
    opening.filterMap Exchange.taken? = [] := by
  cases h <;> rfl

/-- The lock that a start has taken is given back as the one that is held. -/
theorem StartSpec.given_back (h : StartSpec device token b inUse es st) :
    (es.filterMap Exchange.taken?).map LockKey.giveBack =
      if inUse then [] else st.backend.unlockCalls st.inUse device := by
  cases h with
  | noSession hb =>
    subst hb
    cases inUse <;> rfl
  | noLock idle opened refused =>
    rw [List.filterMap_append, opened.taken_eq, idle]
    cases refused <;> rfl
  | @asked opening locking b' e request opened locked asked =>
    have hasked : [e].filterMap Exchange.taken? = [] := by cases asked <;> rfl
    rw [List.filterMap_append, List.filterMap_append, opened.taken_eq, hasked,
      List.append_nil, List.nil_append]
    rcases locked with ⟨rfl, rfl⟩ | ⟨rfl, e', granted, rfl⟩
    · rfl
    · cases granted <;> rfl

end Backend

namespace Transport

variable {t t' : Transport} {name : ClientName} {access : Access}
  {call : PendingCall} {id : OwnerId}
  {watch : Option WatchId} {starting es : List Exchange} {start : Backend.Start}
    {o : Owner}

/-! ### How it is given back -/

/-- The calls that give back what a request for access has taken while `es` was
said: the watch, and the answer to its call, unless the client has left; the start,
unless it has ended; and the stream lock. -/
def undoing (t : Transport) (call : PendingCall) (es : List Exchange)
    (departed settled : Bool) : List Call :=
  (if departed then [] else (watched es).map .unwatch) ++
    ((if settled then [] else (begun es).map fun begun =>
      t.backend.abortCall t.device begun.2.id) ++
      ((if departed then [] else [.reply call (.failure .resumeFailed)]) ++
        (es.filterMap Exchange.taken?).map LockKey.giveBack))

/-- What was said for a new owner, taken apart. -/
theorem undoing_eq {departed settled : Bool} (token : Token)
    (spec : Backend.StartSpec t.device
      (t.token id) t.backend t.inUse starting start) :
    t.undoing call (⟨.watch name token, watch⟩ :: starting) departed settled =
      (if departed then [] else watch.toList.map .unwatch) ++
        ((if settled then [] else start.request.toList.map
          (t.backend.abortCall t.device)) ++
          ((if departed then [] else [.reply call (.failure .resumeFailed)]) ++
            (starting.filterMap Exchange.taken?).map LockKey.giveBack)) := by
  have hwatched :
      watched (⟨.watch name token, watch⟩ :: starting) = watch.toList := by
    rw [watched_cons, watched_starting spec.isStarting, List.append_nil]
    rfl
  have hbegun : begun (⟨.watch name token, watch⟩ :: starting) =
      (start.request.map fun request =>
        (t.token id, ⟨t.backend.isA2dp, request⟩)).toList := spec.begun_eq.2
  rw [undoing, hwatched, hbegun]
  cases start.request <;> rfl

/-- An owner for whom a start was tried ends, in whatever stage it is: the transport
is what it was, but for a session, and the lock that was taken for it is given
back. -/
theorem started_ends (engaged : t.Engaged)
    (room : t.owners.toList.length < maxOwners) (free : o.access ∩ t.locks = ∅)
    (spec : Backend.StartSpec t.device
      (t.token id) t.backend t.inUse starting start) :
    (t.started start o).without t.owners.size = { t with backend := start.backend } ∧
      (t.started start o).partingCalls t.owners.size =
        o.partingCalls t.backend t.device ++
        (starting.filterMap Exchange.taken?).map LockKey.giveBack := by
  obtain ⟨hleft, hcalls⟩ :=
    started_without_of_refused engaged.inUse_iff engaged.keyed room free spec
  obtain ⟨session, -, hbackend⟩ := spec.opened_eq
  have hparting :
      o.partingCalls start.backend t.device = o.partingCalls t.backend t.device := by
    rw [Owner.partingCalls_eq, Owner.partingCalls_eq, hbackend,
      Backend.abortCall_withSession]
  exact ⟨hleft, by rw [hcalls, hparting, spec.given_back]⟩

/-- What becomes of the new owner becomes of the last one. -/
theorem started_modifyOwner (f : Owner → Owner)
    (room : t.owners.toList.length < maxOwners) (same : (f o).access = o.access) :
    (t.started start o).modifyOwner t.owners.size f = t.started start (f o) := by
  have howners : (⟨t.owners.toList ++ [o], BoundedList.length_snoc_le room⟩ :
      BoundedList Owner maxOwners).modify t.owners.size f =
        ⟨t.owners.toList ++ [f o], BoundedList.length_snoc_le room⟩ :=
    BoundedList.ext (BoundedList.modify_around t.owners.toList [] o)
  rw [started_eq room, started_eq room, modifyOwner, howners, same]

/-- A table with another owner of the same directions at the end is what that owner
would have made. -/
theorem started_of_owners {o' : Owner} {owners : BoundedList Owner maxOwners}
    (room : t.owners.toList.length < maxOwners)
    (last : owners.toList = t.owners.toList ++ [o']) (same : o'.access = o.access) :
    { t.started start o with owners } = t.started start o' := by
  obtain rfl :
    owners = ⟨t.owners.toList ++ [o'], BoundedList.length_snoc_le room⟩ :=
      BoundedList.ext last
  rw [started_eq room, started_eq room, same]

/-- A start that is under way holds the lock. -/
theorem started_of_under_way {request : RequestId}
    {owners : BoundedList Owner maxOwners}
    (room : t.owners.toList.length < maxOwners)
    (last : owners.toList = t.owners.toList ++ [o])
    (spec : Backend.StartSpec t.device (t.token id) t.backend t.inUse starting start)
    (under_way : start.request = some request) :
    { t with backend := start.backend, inUse := true, locks := t.locks ∪ o.access,
             owners } =
      t.started start o := by
  have hheld : start.inUse = true := spec.inUse_of_request (by rw [under_way]; rfl)
  obtain rfl : owners = ⟨t.owners.toList ++ [o], BoundedList.length_snoc_le room⟩ :=
    BoundedList.ext last
  rw [started_eq room, hheld]

/-! ### The new owner is found -/

/-- A client that owned nothing finds its new owner. -/
theorem ownerOf?_started {client : String} (room : t.owners.toList.length < maxOwners)
    (new : ∀ u ∈ t.owners.toList, u.name.str ≠ client) (hname : o.name.str = client) :
    (t.started start o).ownerOf? client = some (t.owners.size, o) := by
  refine locate?_eq_some_iff.mpr
    ⟨t.owners.toList, [], ?_, rfl, beq_iff_eq.mpr hname, fun u hu => ?_⟩
  · rw [started_eq room]
  · exact beq_eq_false_iff_ne.mpr (new u hu)

/-- Whoever is found under the new client's name is the new owner. -/
theorem eq_of_owner?_started {client : String} {i : Nat} {o' : Owner}
    (room : t.owners.toList.length < maxOwners)
    (new : ∀ u ∈ t.owners.toList, u.name.str ≠ client)
    (found : (t.started start o).owner? id = some (i, o'))
    (hname : o'.name.str = client) :
    i = t.owners.size ∧ o' = o := by
  have hi := (owner?_eq_some found).1
  have howners : (t.started start o).owners.toList = t.owners.toList ++ [o] := by
    rw [started_eq room]
  rw [howners] at hi
  -- among the others nobody has the name, and after them there is only one place
  rcases Nat.lt_or_ge i t.owners.toList.length with hlt | hge
  · rw [List.getElem?_append_left hlt] at hi
    exact absurd hname (new o' (List.mem_of_getElem? hi))
  · have hsize : i = t.owners.size := by
      have hbound := (List.getElem?_eq_some_iff.mp hi).1
      rw [List.length_append, List.length_singleton] at hbound
      exact Nat.le_antisymm (Nat.le_of_lt_succ hbound) hge
    subst hsize
    have hlast : (t.owners.toList ++ [o])[t.owners.size]? = some o :=
      List.getElem?_concat_length
    rw [hlast] at hi
    exact ⟨rfl, (Option.some.inj hi).symm⟩

/-- Where no owner has its number, the new owner is found by it. -/
theorem owner?_started (room : t.owners.toList.length < maxOwners)
    (new : ∀ u ∈ t.owners.toList, u.id ≠ o.id) :
    (t.started start o).owner? o.id = some (t.owners.size, o) := by
  refine locate?_eq_some_iff.mpr
    ⟨t.owners.toList, [], ?_, rfl, beq_self_eq_true _, fun u hu => ?_⟩
  · rw [started_eq room]
  · exact beq_eq_false_iff_ne.mpr (new u hu)

end Transport

end AudioBroker
