import AudioBroker.Proofs.Transport.Start

/-!
# Who is let in, and what that leads to

A client that asks for access is turned down for the first of four reasons that
applies, or it is let in. Then its owner is there once the start is under way, and
nothing is left of it where the start could not begin.

- `Transport.refusal?`: the first reason to turn a client down.
- `Transport.admission_eq_error_iff`: where there is room, nothing else keeps a
  client out.
- `Transport.TakenOn`: what is said for a client that is let in, and what its
  transport becomes.
- `Transport.takeOn_yields_iff`: this is all that can happen, and all of it can.
-/

namespace AudioBroker

open Dialogue

/-- One reason after the other does not apply. -/
theorem ite_fault_eq_none_iff {p : Prop} [Decidable p] {fault : Fault}
    {rest : Option Fault} :
    (if p then some fault else rest) = none ↔ ¬ p ∧ rest = none := by
  by_cases h : p <;> simp [h]

namespace Transport

variable {t t' : Transport} {client text : String} {name : ClientName}
  {access : Access}
  {call : PendingCall} {id : OwnerId} {es : List Exchange} {fault : Fault}

/-! ### The reasons to turn a client down -/

/-- The first reason to turn down a client that asks for access: it is an owner
already, it names no direction, it names one that is taken, or its own name is too
long. -/
def refusal? (t : Transport) (client text : String) : Option Fault :=
  if ∃ o ∈ t.owners.toList, o.name.str = client then some .permissionDenied
  else if 'r' ∉ text.toList ∧ 'w' ∉ text.toList then some .permissionDenied
  else if 'r' ∈ text.toList ∧ t.locks.read = true ∨
      'w' ∈ text.toList ∧ t.locks.write = true then
    some .permissionDenied
  else if maxClientName < client.utf8ByteSize then some .invalidArguments
  else none

/-- A client is not turned down if it owns nothing here, names a direction, names none
that is taken, and its own name fits. -/
theorem refusal?_eq_none_iff : t.refusal? client text = none ↔
    (∀ o ∈ t.owners.toList, o.name.str ≠ client) ∧
      ('r' ∈ text.toList ∨ 'w' ∈ text.toList) ∧
      ('r' ∈ text.toList → t.locks.read = false) ∧
      ('w' ∈ text.toList → t.locks.write = false) ∧
      client.utf8ByteSize ≤ maxClientName := by
  rw [refusal?, ite_fault_eq_none_iff, ite_fault_eq_none_iff, ite_fault_eq_none_iff,
    ite_fault_eq_none_iff]
  simp only [not_exists, not_and, not_or, not_not, Bool.not_eq_true, not_lt,
    and_true, and_assoc, ne_eq, imp_iff_not_or]

theorem ownerOf?_isSome_iff :
    (t.ownerOf? client).isSome = true ↔
      ∃ o ∈ t.owners.toList, o.name.str = client := by
  rw [Option.isSome_iff_ne_none, ne_eq, ownerOf?, locate?_eq_none_iff]
  simp

/-- What a client asks for is taken in part when one of the directions that it names
is. -/
theorem inter_ne_empty_iff {locks : Access} (h : Access.parse? text = some access) :
    access ∩ locks ≠ ∅ ↔
      'r' ∈ text.toList ∧ locks.read = true ∨
        'w' ∈ text.toList ∧ locks.write = true := by
  obtain ⟨-, hread, hwrite⟩ := Access.parse?_eq_some_iff.mp h
  rw [← hread, ← hwrite, ne_eq, Access.ext_iff, not_and_or]
  simp

/-- What a client asks for is free if there is no reason to turn it down. -/
theorem free_of_refusal (h : Access.parse? text = some access)
    (hno : t.refusal? client text = none) :
    access ∩ t.locks = ∅ := by
  obtain ⟨-, -, hread, hwrite, -⟩ := refusal?_eq_none_iff.mp hno
  by_contra htaken
  rcases (inter_ne_empty_iff h).mp htaken with ⟨hr, hlock⟩ | ⟨hw, hlock⟩
  · rw [hread hr] at hlock
    cases hlock
  · rw [hwrite hw] at hlock
    cases hlock

theorem isFull_of_room (room : t.owners.toList.length < maxOwners) :
    t.owners.isFull = false := by
  rw [Bool.eq_false_iff, ne_eq, BoundedList.isFull_iff]
  exact Nat.ne_of_lt room

/-- Where there is room, a client is turned down for the first reason that applies. -/
theorem admission_eq_error_iff (room : t.owners.toList.length < maxOwners) :
    t.admission client text = .error fault ↔ t.refusal? client text = some fault := by
  rw [admission, refusal?]
  -- both go through the same reasons in the same order: an owner of the name, no
  -- access asked for, a direction taken, a name that is too long
  by_cases howner : ∃ o ∈ t.owners.toList, o.name.str = client
  · rw [if_pos howner, if_pos (ownerOf?_isSome_iff.mpr howner)]
    simp
  rw [if_neg howner, if_neg (mt ownerOf?_isSome_iff.mp howner)]
  cases hparse : Access.parse? text with
  | none =>
    rw [if_pos (Access.parse?_eq_none_iff.mp hparse)]
    simp
  | some access =>
    have hnamed : ¬ ('r' ∉ text.toList ∧ 'w' ∉ text.toList) := by
      rw [← Access.parse?_eq_none_iff, hparse]
      simp
    rw [if_neg hnamed]
    by_cases htaken : access ∩ t.locks ≠ ∅
    · rw [if_pos ((inter_ne_empty_iff hparse).mp htaken)]
      simp [htaken]
    · rw [if_neg (mt (inter_ne_empty_iff hparse).mpr htaken)]
      dsimp only
      rw [if_neg htaken]
      cases hname : (Text.ofString? client : Option ClientName) with
      | none =>
        rw [if_pos (Text.ofString?_eq_none_iff.mp hname)]
        simp
      | some name =>
        have hfits : ¬ maxClientName < client.utf8ByteSize := by
          rw [← Text.ofString?_eq_none_iff, hname]
          simp
        rw [if_neg hfits]
        simp [isFull_of_room room]

/-- Where there is room, nobody is turned down for want of it. -/
theorem fault_of_admission (room : t.owners.toList.length < maxOwners)
    (h : t.admission client text = .error fault) : fault ≠ .outOfResources := by
  rw [admission_eq_error_iff room, refusal?] at h
  rintro rfl
  split at h
  · cases h
  · split at h
    · cases h
    · split at h
      · cases h
      · split at h <;> cases h

/-! ### A client that is let in -/

/-- What is said for a client that is let in, and what the transport becomes. Its
watch is asked for and the start is tried, whether or not the watch is granted. -/
inductive TakenOn (t : Transport) (name : ClientName) (access : Access)
    (call : PendingCall) (id : OwnerId) : List Exchange → Transport → Prop where
  /-- The start is under way: there is one more owner, the last one, and its
  directions are taken. -/
  | began {watch : Option WatchId} {starting : List Exchange} {start : Backend.Start}
      {request : RequestId} {owners : BoundedList Owner maxOwners}
      (started : Backend.StartSpec t.device
        (t.token id) t.backend t.inUse starting start)
      (under_way : start.request = some request)
      (last : owners.toList = t.owners.toList ++
        [{ id, name, access, watch,
           pending := some { call := some call, request := some request },
           scheduled := false }]) :
      TakenOn t name access call id (⟨.watch name (t.token id), watch⟩ :: starting)
        { t with backend := start.backend, inUse := true, locks := t.locks ∪ access,
                 owners }
  /-- The session, the lock or the start was refused. The watch is ended, the call
  is answered with a failure and a lock that was taken is given back; what stays is
  a session. -/
  | undone {watch : Option WatchId} {starting undoing : List Exchange}
      {start : Backend.Start}
      (started : Backend.StartSpec t.device
        (t.token id) t.backend t.inUse starting start)
      (refused : start.request = none)
      (undo : undoing.map Exchange.call = watch.toList.map .unwatch ++
        .reply call (.failure .resumeFailed) ::
          if t.inUse then [] else start.backend.unlockCalls start.inUse t.device) :
      TakenOn t name access call id
        (⟨.watch name (t.token id), watch⟩ :: (starting ++ undoing))
        { t with backend := start.backend }

/-- What a start that could not begin leaves, with its owner torn down at once. The
transport was in use exactly if it had an owner. -/
theorem started_without_of_refused {start : Backend.Start} {o : Owner}
    {starting : List Exchange} (inUse_iff : t.inUse = true ↔ t.owners.toList ≠ [])
    (keyed : t.inUse = true → (t.backend.lockKey? t.device).isSome = true)
    (room : t.owners.toList.length < maxOwners) (free : o.access ∩ t.locks = ∅)
    (started : Backend.StartSpec t.device
      (t.token id) t.backend t.inUse starting start) :
    (t.started start o).without t.owners.size = { t with backend := start.backend } ∧
      (t.started start o).partingCalls t.owners.size =
        o.partingCalls start.backend t.device ++
        if t.inUse then [] else start.backend.unlockCalls start.inUse t.device := by
  rw [started_without room free, partingCalls_eq (started_last room),
    started_eraseIdx room, BoundedList.isEmpty_eq, started_eq room]
  -- with other owners the lock was held before, and stays; without them the owner
  -- that goes was the last one
  cases hinUse : t.inUse with
  | true =>
    rw [hinUse] at started inUse_iff keyed
    have hheld := (started.eq_of_inUse (keyed rfl)).2
    have howned : t.owners.toList.isEmpty = false := by simpa using inUse_iff.mp rfl
    rw [howned, hheld]
    exact ⟨rfl, rfl⟩
  | false =>
    have hvacant : t.owners.toList.isEmpty = true := by simpa [hinUse] using inUse_iff
    rw [hvacant, Bool.not_true, Bool.and_false]
    exact ⟨rfl, rfl⟩

/-- A watch and a start, and then what follows from the start. -/
theorem takeOn_yields {starting es₂ : List Exchange} {start : Backend.Start}
    (watch : Option WatchId)
    (hstart : (t.backend.start t.inUse t.device (t.token id)).Yields starting start)
    (hrest : (if start.request.isSome = true
      then pure (t.started start (.fresh id name access watch call start.request))
        else (t.started start
          (.fresh id name access watch call start.request)).endAt
            t.owners.size).Yields es₂ t') :
    (t.takeOn name access call id).Yields
      (⟨.watch name (t.token id), watch⟩ :: (starting ++ es₂)) t' :=
  yields_bind.mpr ⟨[_], watch, starting ++ es₂, rfl, Call.yields_make.mpr rfl,
    yields_bind.mpr ⟨starting, start, es₂, rfl, hstart, hrest⟩⟩

/-- A client that is let in is taken on, or it is not and nothing is left of it;
both can happen. -/
theorem takeOn_yields_iff (inUse_iff : t.inUse = true ↔ t.owners.toList ≠ [])
    (keyed : t.inUse = true → (t.backend.lockKey? t.device).isSome = true)
    (room : t.owners.toList.length < maxOwners) (free : access ∩ t.locks = ∅) :
    (t.takeOn name access call id).Yields es t' ↔
      t.TakenOn name access call id es t' := by
  constructor
  · intro h
    obtain ⟨watch, starting, start, es₂, hstart, rfl, hcase⟩ := takeOn_cases h
    have hspec := Backend.start_yields_iff.mp hstart
    rcases hcase with ⟨hsome, rfl, rfl⟩ | ⟨hnone, hcalls, rfl⟩
    · obtain ⟨request, hrequest⟩ := Option.isSome_iff_exists.mp hsome
      rw [started_eq room, hspec.inUse_of_request hsome, hrequest, List.append_nil]
      exact .began hspec hrequest rfl
    · obtain ⟨hleft, hparting⟩ := started_without_of_refused
        (o := .fresh id name access watch call start.request) inUse_iff keyed room
          free hspec
      rw [hleft]
      rw [hparting, hnone] at hcalls
      exact .undone hspec hnone
        (by simpa [Owner.partingCalls, Owner.fresh] using hcalls)
  · intro h
    cases h with
    | @began watch starting start request owners hspec hrequest last =>
      rw [← List.append_nil starting]
      refine takeOn_yields watch (Backend.start_yields_iff.mpr hspec) ?_
      rw [hrequest, Option.isSome_some, if_pos rfl, yields_pure, started_eq room,
        hspec.inUse_of_request (by rw [hrequest, Option.isSome_some])]
      refine ⟨rfl, ?_⟩
      obtain rfl : owners = ⟨_, BoundedList.length_snoc_le room⟩ :=
        BoundedList.ext last
      rfl
    | @undone watch starting undoing start hspec hnone undo =>
      obtain ⟨hleft, hparting⟩ := started_without_of_refused
        (o := .fresh id name access watch call start.request) inUse_iff keyed room
          free hspec
      refine takeOn_yields watch (Backend.start_yields_iff.mpr hspec) ?_
      rw [if_neg (by simp [hnone]), endAt_yields, hleft, hparting, undo, hnone]
      simp [Owner.partingCalls, Owner.fresh]

end Transport

end AudioBroker
