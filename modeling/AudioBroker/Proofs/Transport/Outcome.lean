import AudioBroker.Transport.Completion
import AudioBroker.Transport.Ownership
import Mathlib

/-!
# What the operations of a transport come to

For each operation of a transport, everything that it can come to: what is said,
what comes back, and what the transport is afterwards. The rest of the theory rests
on these lemmas and unfolds no operation.

- `Transport.started`: the transport with the owner for whom a start was tried.
- `Transport.endAt_yields`, `Transport.takeOn_cases`, `Transport.release_cases`,
  `Transport.complete_cases` and so on: one lemma for each operation.
-/

namespace AudioBroker

open Dialogue

/-- A call is one exchange, with any answer. -/
theorem Call.yields_make {c : Call} {es : List Exchange} {r : c.Answer} :
    c.make.Yields es r ↔ es = [⟨c, r⟩] := by
  constructor
  · intro h
    obtain ⟨r', es', rfl, h'⟩ := yields_ask.mp h
    obtain ⟨rfl, rfl⟩ := yields_done.mp h'
    rfl
  · rintro rfl
    exact .ask r (.done r)

/-- Calls whose answers do not matter, and then a value. -/
theorem Dialogue.yields_makeAll_pure {α : Type} {cs : List Call} {a a' : α}
    {es : List Exchange} :
    (makeAll cs >>= fun _ => pure a).Yields es a' ↔
      es.map Exchange.call = cs ∧ a' = a := by
  rw [yields_bind]
  constructor
  · rintro ⟨es₁, u, es₂, rfl, h₁, h₂⟩
    obtain ⟨rfl, rfl⟩ := yields_pure.mp h₂
    exact ⟨by simpa using yields_makeAll.mp h₁, rfl⟩
  · rintro ⟨h, rfl⟩
    exact ⟨es, (), [], by simp, yields_makeAll.mpr h, .done a'⟩

theorem Dialogue.yields_map {α β : Type} {d : Dialogue α} {f : α → β} {x : β}
    {es : List Exchange} :
    (f <$> d).Yields es x ↔ ∃ a, d.Yields es a ∧ x = f a := by
  rw [← bind_pure_comp, yields_bind]
  constructor
  · rintro ⟨es₁, a, es₂, rfl, h₁, h₂⟩
    obtain ⟨rfl, rfl⟩ := yields_pure.mp h₂
    exact ⟨a, by simpa using h₁, rfl⟩
  · rintro ⟨a, h, rfl⟩
    exact ⟨es, a, [], by simp, h, .done _⟩

/-- The owner that a client becomes when it is taken on. -/
def Owner.fresh (id : OwnerId) (name : ClientName) (access : Access)
    (watch : Option WatchId) (call : PendingCall) (request : Option RequestId) :
    Owner :=
  { id, name, access, watch, pending := some { call := some call, request },
    scheduled := false }

/-- The call of an owner that is still to be answered. -/
def Owner.unspent? (o : Owner) : Option PendingCall := o.pending.bind Pending.call

namespace Transport

variable {t t' : Transport} {es : List Exchange} {i : Nat} {o : Owner} {id : OwnerId}

/-! ### Looking up an owner -/

theorem owner?_eq_some (h : t.owner? id = some (i, o)) :
    t.owners.toList[i]? = some o ∧ o.id = id := by
  obtain ⟨hi, ho⟩ := locate?_eq_some h
  exact ⟨hi, by simpa using ho⟩

theorem ownerOf?_eq_some {client : String} (h : t.ownerOf? client = some (i, o)) :
    t.owners.toList[i]? = some o ∧ o.name.str = client := by
  obtain ⟨hi, ho⟩ := locate?_eq_some h
  exact ⟨hi, by simpa using ho⟩

/-- The owner that is looked up is the first one that satisfies the test. -/
theorem locate?_eq_some_iff {p : Owner → Bool} :
    t.locate? p = some (i, o) ↔
      ∃ pre post, t.owners.toList = pre ++ o :: post ∧ pre.length = i ∧
      p o = true ∧ ∀ u ∈ pre, p u = false := by
  constructor
  · intro h
    obtain ⟨hi, hp⟩ := locate?_eq_some h
    obtain ⟨pre, post, howners, rfl, -, -⟩ := BoundedList.exists_around hi
    refine ⟨pre, post, howners, rfl, hp, fun u hu => ?_⟩
    obtain ⟨j, hj, hfound⟩ := Option.bind_eq_some_iff.mp h
    obtain ⟨o', -, hfound⟩ := Option.bind_eq_some_iff.mp hfound
    obtain ⟨rfl, -⟩ := Prod.mk.inj (Option.some.inj hfound)
    obtain ⟨_, -, hbefore⟩ := List.findIdx?_eq_some_iff_getElem.mp hj
    obtain ⟨k, hk, rfl⟩ := List.getElem_of_mem hu
    simpa [howners, List.getElem_append_left hk] using hbefore k hk
  · rintro ⟨pre, post, howners, rfl, hp, hbefore⟩
    have hnone : pre.findIdx? p = none := List.findIdx?_eq_none_iff.mpr hbefore
    simp [locate?, howners, List.findIdx?_append, List.findIdx?_cons, hnone, hp]

/-- Who waits for a report is an owner with something pending that is not marked. -/
theorem awaiting?_eq_some_iff {p : Pending} :
    t.awaiting? id = some (i, p) ↔
      ∃ o, t.owner? id = some (i, o) ∧ o.scheduled = false ∧ o.pending = some p := by
  rw [awaiting?]
  constructor
  · intro ha
    cases ho : t.owner? id with
    | none => simp [ho] at ha
    | some io =>
      obtain ⟨j, o⟩ := io
      by_cases hs : o.scheduled = true
      · simp [ho, hs] at ha
      · simp only [ho] at ha
        rw [if_neg hs, Option.map_eq_some_iff] at ha
        obtain ⟨q, hq, heq⟩ := ha
        cases heq
        exact ⟨o, rfl, by simpa using hs, hq⟩
  · rintro ⟨o, ho, hs, hp⟩
    simp [ho, hs, hp]

/-! ### An owner that is changed -/

theorem getElem?_modifyOwner {f : Owner → Owner} (ho : t.owners.toList[i]? = some o) :
    (t.modifyOwner i f).owners.toList[i]? = some (f o) := by
  simp [ho]

theorem eraseIdx_modifyOwner (t : Transport) (i : Nat) (f : Owner → Owner) :
    (t.modifyOwner i f).owners.eraseIdx i = t.owners.eraseIdx i :=
  BoundedList.ext (List.eraseIdx_modify_of_eq ..)

/-- The end of an owner makes the same calls after a change of nothing that it
closes. -/
theorem partingCalls_modifyOwner {f : Owner → Owner}
    (ho : t.owners.toList[i]? = some o)
    (hf : ∀ b device, (f o).partingCalls b device = o.partingCalls b device) :
    (t.modifyOwner i f).partingCalls i = t.partingCalls i := by
  rw [partingCalls_eq (getElem?_modifyOwner ho), partingCalls_eq ho,
    eraseIdx_modifyOwner, hf]
  rfl

/-- The end of an owner leaves the same after a change of anything but its
directions. -/
theorem without_modifyOwner {f : Owner → Owner} (ho : t.owners.toList[i]? = some o)
    (hf : (f o).access = o.access) : (t.modifyOwner i f).without i = t.without i := by
  rw [without_eq (getElem?_modifyOwner ho), without_eq ho, eraseIdx_modifyOwner, hf]
  rfl

/-! ### The end of an owner -/

/-- The end of an owner makes its calls, whatever is answered, and it is gone then. -/
theorem endAt_yields : (t.endAt i).Yields es t' ↔
    es.map Exchange.call = t.partingCalls i ∧ t' = t.without i :=
  yields_makeAll_pure

/-- The end of an owner, and what the operation then comes back with. -/
theorem endAt_pure_yields {α : Type} {a a' : α} :
    (t.endAt i >>= fun t₁ => pure (a, t₁)).Yields es (a', t') ↔
      a' = a ∧ es.map Exchange.call = t.partingCalls i ∧ t' = t.without i := by
  rw [yields_bind]
  constructor
  · rintro ⟨es₁, t₁, es₂, rfl, h₁, h₂⟩
    obtain ⟨rfl, h₂⟩ := yields_pure.mp h₂
    cases h₂
    exact ⟨rfl, by simpa using endAt_yields.mp h₁⟩
  · rintro ⟨rfl, h⟩
    exact ⟨es, t', [], by simp, endAt_yields.mpr h, .done _⟩

theorem endFirst_succ_cases {n : Nat} (h : (t.endFirst (n + 1)).Yields es t') :
    ∃ es₁ es₂, es = es₁ ++ es₂ ∧ es₁.map Exchange.call = t.partingCalls 0 ∧
      ((t.without 0).endFirst n).Yields es₂ t' := by
  obtain ⟨es₁, t₁, es₂, rfl, h₁, h₂⟩ := yields_bind.mp h
  obtain ⟨hcalls, rfl⟩ := endAt_yields.mp h₁
  exact ⟨es₁, es₂, rfl, hcalls, h₂⟩

/-- A client that leaves owns nothing, or its owner departs and is torn down. -/
theorem exit_cases {known : Bool} (h : (t.exit id).Yields es (known, t')) :
    (t.owner? id = none ∧ known = false ∧ es = [] ∧ t' = t) ∨
      ∃ i o, t.owner? id = some (i, o) ∧ known = true ∧
        es.map Exchange.call = (t.modifyOwner i Owner.depart).partingCalls i ∧
        t' = (t.modifyOwner i Owner.depart).without i := by
  unfold exit at h
  cases ho : t.owner? id with
  | none =>
    rw [ho] at h
    obtain ⟨rfl, h⟩ := yields_pure.mp h
    cases h
    exact .inl ⟨rfl, rfl, rfl, rfl⟩
  | some io =>
    obtain ⟨i, o⟩ := io
    rw [ho] at h
    obtain ⟨rfl, hcalls, rfl⟩ := endAt_pure_yields.mp h
    exact .inr ⟨i, o, rfl, rfl, hcalls, rfl⟩

/-- The owner of a token is not marked and stays, or it is marked and torn down. -/
theorem endScheduled_cases {ended : Bool}
    (h : (t.endScheduled id).Yields es (ended, t')) :
    ((∀ i o, t.owner? id = some (i, o) → o.scheduled = false) ∧ ended = false ∧
      es = [] ∧ t' = t) ∨
      ∃ i o, t.owner? id = some (i, o) ∧ o.scheduled = true ∧ ended = true ∧
        es.map Exchange.call = t.partingCalls i ∧ t' = t.without i := by
  unfold endScheduled at h
  cases ho : t.owner? id with
  | none =>
    rw [ho] at h
    obtain ⟨rfl, h⟩ := yields_pure.mp h
    cases h
    exact .inl ⟨by simp, rfl, rfl, rfl⟩
  | some io =>
    obtain ⟨i, o⟩ := io
    rw [ho] at h
    by_cases hs : o.scheduled = true
    · simp only [hs, if_true] at h
      obtain ⟨rfl, hcalls, rfl⟩ := endAt_pure_yields.mp h
      exact .inr ⟨i, o, rfl, hs, rfl, hcalls, rfl⟩
    · simp only [hs, if_false, Bool.false_eq_true] at h
      obtain ⟨rfl, h⟩ := yields_pure.mp h
      cases h
      refine .inl ⟨?_, rfl, rfl, rfl⟩
      rintro j o' ⟨⟩
      simpa using hs

/-! ### Taking on an owner -/

/-- The transport as a start left it, with the owner for whom it was tried. -/
def started (t : Transport) (start : Backend.Start) (o : Owner) : Transport :=
  { t with backend := start.backend, inUse := start.inUse }.withOwner o

/-- Where there is room, a start puts its owner at the end of the table. -/
theorem started_eq {start : Backend.Start}
    (room : t.owners.toList.length < maxOwners) :
    t.started start o =
      { t with backend := start.backend, inUse := start.inUse,
               locks := t.locks ∪ o.access,
               owners := ⟨t.owners.toList ++ [o],
                 BoundedList.length_snoc_le room⟩ } := by
  have room' : ({ t with backend := start.backend, inUse := start.inUse } :
      Transport).owners.toList.length < maxOwners := room
  rw [started, withOwner_eq room']

theorem started_last {start : Backend.Start}
    (room : t.owners.toList.length < maxOwners) :
    (t.started start o).owners.toList[t.owners.size]? = some o := by
  rw [started_eq room]
  simp

/-- A new owner is the last one: without it, the others are where they were. -/
theorem started_eraseIdx {start : Backend.Start}
    (room : t.owners.toList.length < maxOwners) :
    (t.started start o).owners.eraseIdx t.owners.size = t.owners := by
  rw [started_eq room]
  refine BoundedList.ext ((BoundedList.eraseIdx_around t.owners.toList [] o).trans ?_)
  rw [List.append_nil]

/-- An owner that is torn down at once leaves what the start changed of the backend,
and nothing else. -/
theorem started_without {start : Backend.Start}
    (room : t.owners.toList.length < maxOwners) (free : o.access ∩ t.locks = ∅) :
    (t.started start o).without t.owners.size =
      { t with backend := start.backend,
               inUse := start.inUse && !t.owners.isEmpty } := by
  rw [without_eq (started_last room), started_eraseIdx room, started_eq room]
  simp only [Access.union_sdiff_self free]

/-- An owner is watched, and the backend tries to start. Where it could not begin,
the owner is torn down at once. -/
theorem takeOn_cases {name : ClientName} {access : Access} {call : PendingCall}
    (h : (t.takeOn name access call id).Yields es t') :
    ∃ watch es₁ start es₂,
      (t.backend.start t.inUse t.device (t.token id)).Yields es₁ start ∧
      es = ⟨.watch name (t.token id), watch⟩ :: (es₁ ++ es₂) ∧
      let started := t.started start (.fresh id name access watch call start.request)
      (start.request.isSome = true ∧ es₂ = [] ∧ t' = started) ∨
        (start.request = none ∧
          es₂.map Exchange.call = started.partingCalls t.owners.size ∧
          t' = started.without t.owners.size) := by
  obtain ⟨es₀, watch, es', rfl, h₀, h'⟩ := yields_bind.mp h
  obtain rfl := Call.yields_make.mp h₀
  obtain ⟨es₁, start, es₂, rfl, h₁, h₂⟩ := yields_bind.mp h'
  refine ⟨watch, es₁, start, es₂, h₁, rfl, ?_⟩
  -- whether something was begun decides whether the owner stays
  cases hr : start.request with
  | none =>
    simp only [hr, Option.isSome_none, Bool.false_eq_true, if_false] at h₂
    obtain ⟨hcalls, rfl⟩ := endAt_yields.mp h₂
    exact .inr ⟨rfl, hcalls, rfl⟩
  | some request =>
    simp only [hr, Option.isSome_some, if_true] at h₂
    obtain ⟨rfl, rfl⟩ := yields_pure.mp h₂
    exact .inl ⟨rfl, rfl, rfl⟩

/-- A client is turned down, its call is handed back and nothing happens; or it is
taken on. -/
theorem acquire_cases {client text : String} {call : PendingCall}
    {result : Except Rejection Unit}
    (h : (t.acquire client text call id).Yields es (result, t')) :
    (∃ fault, t.admission client text = .error fault ∧
        result = .error { fault, call } ∧ es = [] ∧ t' = t) ∨
      ∃ name access, t.admission client text = .ok (name, access) ∧ result = .ok () ∧
        (t.takeOn name access call id).Yields es t' := by
  unfold acquire at h
  cases ha : t.admission client text with
  | error fault =>
    rw [ha] at h
    obtain ⟨rfl, h⟩ := yields_pure.mp h
    cases h
    exact .inl ⟨fault, rfl, rfl, rfl, rfl⟩
  | ok na =>
    obtain ⟨name, access⟩ := na
    rw [ha] at h
    obtain ⟨es₁, t₁, es₂, rfl, h₁, h₂⟩ := yields_bind.mp h
    obtain ⟨rfl, h₂⟩ := yields_pure.mp h₂
    cases h₂
    exact .inr ⟨name, access, rfl, rfl, by simpa using h₁⟩

/-- What an admitted client and its request have passed. -/
theorem admission_eq_ok {client text : String} {name : ClientName} {access : Access}
    (h : t.admission client text = .ok (name, access)) :
    t.ownerOf? client = none ∧ Access.parse? text = some access ∧
      access ∩ t.locks = ∅ ∧
      name.str = client ∧ t.owners.toList.length < maxOwners := by
  -- every check that turns a client down comes to an error, and leaves a fact when
  -- it is passed
  unfold admission at h
  split at h
  · cases h
  · next hfree =>
    split at h
    · cases h
    · next wanted hparse =>
      split at h
      · cases h
      · next hlocks =>
        split at h
        · cases h
        · next n hname =>
          split at h
          · cases h
          · next hroom =>
            cases h
            refine ⟨by simpa using hfree, hparse, by simpa using hlocks,
              Text.ofString?_eq_some_iff.mp hname, ?_⟩
            rw [BoundedList.isFull_iff] at hroom
            exact Nat.lt_of_le_of_ne t.owners.length_le hroom

/-- Nobody is admitted to a full table. -/
theorem room_of_admission {client text : String} {name : ClientName}
    {access : Access} (h : t.admission client text = .ok (name, access)) :
    t.owners.toList.length < maxOwners :=
  (admission_eq_ok h).2.2.2.2

/-! ### Giving back -/

/-- A release is refused; or it gives back all that its owner holds and ends it, or
a part of that. -/
theorem release_cases {client text : String} {result : Except Fault Unit}
    (h : (t.release client text).Yields es (result, t')) :
    (result = .error .permissionDenied ∧ es = [] ∧ t' = t) ∨
      ∃ i o a, t.ownerOf? client = some (i, o) ∧ Access.parse? text = some a ∧
        result = .ok () ∧
        ((a = o.access ∧ es.map Exchange.call = t.partingCalls i ∧ t' = t.without i) ∨
          (a ≠ o.access ∧ a ⊆ o.access ∧ es = [] ∧ t' = t.narrow i a)) := by
  unfold release at h
  split at h
  · next i o a ho ha =>
    split at h
    · next hall =>
      obtain ⟨rfl, hcalls, rfl⟩ := endAt_pure_yields.mp h
      exact .inr ⟨i, o, a, ho, ha, rfl, .inl ⟨hall, hcalls, rfl⟩⟩
    · next hall =>
      split at h
      · next hpart =>
        obtain ⟨rfl, h⟩ := yields_pure.mp h
        cases h
        exact .inr ⟨i, o, a, ho, ha, rfl, .inr ⟨hall, hpart, rfl, rfl⟩⟩
      · obtain ⟨rfl, h⟩ := yields_pure.mp h
        cases h
        exact .inl ⟨rfl, rfl, rfl⟩
  · obtain ⟨rfl, h⟩ := yields_pure.mp h
    cases h
    exact .inl ⟨rfl, rfl, rfl⟩

/-! ### Announced changes -/

/-- A stream with the descriptor that is in place is left as it is; any other one is
put in place, and its sizes are announced. -/
theorem install_cases {s : Stream} (h : (t.install s).Yields es t') :
    (t.fd = some s.fd ∧ es = [] ∧ t' = t) ∨
      (t.fd ≠ some s.fd ∧
        es.map Exchange.call = [.announce t.path (.imtu s.imtu),
          .announce t.path (.omtu s.omtu)] ∧
        t' = { t with stream := some s }) := by
  unfold install at h
  split at h
  · next hfd =>
    obtain ⟨rfl, rfl⟩ := yields_pure.mp h
    exact .inl ⟨hfd, rfl, rfl⟩
  · next hfd => exact .inr ⟨hfd, yields_makeAll_pure.mp h⟩

/-- A delay is announced if it is another one and the transport is an A2DP one. -/
theorem reportDelay_cases {delay : UInt16} (h : (t.reportDelay delay).Yields es t') :
    (¬ (t.backend.isA2dp = true ∧ t.delay ≠ delay) ∧ es = [] ∧ t' = t) ∨
      ((t.backend.isA2dp = true ∧ t.delay ≠ delay) ∧
        es.map Exchange.call = [.announce t.path (.delay delay)] ∧
        t' = { t with delay }) := by
  unfold reportDelay at h
  split at h
  · next hnew => exact .inr ⟨hnew, yields_makeAll_pure.mp h⟩
  · next hnew =>
    obtain ⟨rfl, rfl⟩ := yields_pure.mp h
    exact .inl ⟨hnew, rfl, rfl⟩

/-! ### The end of a start -/

/-- The open stream is asked for, installed, and sent to the owner; its call is
spent by that. -/
theorem deliver_cases {call : Option PendingCall} {delivered : Bool}
    (h : (t.deliver i call).Yields es (delivered, t')) :
    (delivered = false ∧ (t.backend.stream t.device).Yields es none ∧ t' = t) ∨
      ∃ s es₁ es₂ t₂ es₃, (t.backend.stream t.device).Yields es₁ (some s) ∧
        (t.install s).Yields es₂ t₂ ∧ es = es₁ ++ es₂ ++ es₃ ∧
        t' = t₂.modifyOwner i Owner.answer ∧
        ((call = none ∧ es₃ = [] ∧ delivered = false) ∨
          ∃ c delivery, call = some c ∧
            es₃ = [⟨.reply c (.descriptor s.fd), delivery⟩] ∧
            delivered = decide (delivery = .delivered)) := by
  obtain ⟨es₁, stream?, es', rfl, h₁, h⟩ := yields_bind.mp h
  cases stream? with
  | none =>
    obtain ⟨rfl, h⟩ := yields_pure.mp h
    cases h
    exact .inl ⟨rfl, by simpa using h₁, rfl⟩
  | some s =>
    obtain ⟨es₂, t₂, es₃, rfl, h₂, h⟩ := yields_bind.mp h
    refine .inr ⟨s, es₁, es₂, t₂, es₃, h₁, h₂, by simp, ?_⟩
    -- without a call nobody is sent the descriptor, and the attempt has failed
    cases call with
    | none =>
      obtain ⟨rfl, h⟩ := yields_pure.mp h
      cases h
      exact ⟨rfl, .inl ⟨rfl, rfl, rfl⟩⟩
    | some c =>
      obtain ⟨delivery, es', rfl, h'⟩ := yields_ask.mp h
      obtain ⟨rfl, h'⟩ := yields_pure.mp h'
      cases h'
      exact ⟨rfl, .inr ⟨c, delivery, rfl, rfl, rfl⟩⟩

/-- An A2DP owner is marked, to be torn down later, and a headset owner is torn down
at once. -/
theorem fail_cases {completion : Completion}
    (h : (t.fail i).Yields es (completion, t')) :
    (t.backend.isA2dp = true ∧ completion = .deferred ∧ es = [] ∧
        t' = t.modifyOwner i Owner.schedule) ∨
      (t.backend.isA2dp = false ∧ completion = .ended ∧
        es.map Exchange.call = t.partingCalls i ∧ t' = t.without i) := by
  unfold fail Backend.defersTeardown at h
  split at h
  · next hdefers =>
    obtain ⟨rfl, h⟩ := yields_pure.mp h
    cases h
    exact .inl ⟨hdefers, rfl, rfl, rfl⟩
  · next hdefers =>
    obtain ⟨rfl, hcalls, rfl⟩ := endAt_pure_yields.mp h
    exact .inr ⟨by simpa using hdefers, rfl, hcalls, rfl⟩

/-- The reported end of a start, before anything is torn down: a success is
delivered, and a failure only settles what was pending. -/
def attempt (t : Transport) (i : Nat) (p : Pending) (success : Bool) :
    Dialogue (Bool × Transport) :=
  if success then (t.modifyOwner i Owner.settle).deliver i p.call
  else pure (false, t.modifyOwner i Owner.settle)

/-- All that an attempt changes is the stream, and what is pending for the owner: it
was sent a reply, or there is nothing left to abort. -/
theorem attempt_modifies {p : Pending} {success delivered : Bool}
    (h : (t.attempt i p success).Yields es (delivered, t')) :
    ∃ f, (f = Owner.answer ∨ f = Owner.settle ∧ delivered = false) ∧
      t' = { t.modifyOwner i f with stream := t'.stream } := by
  unfold attempt at h
  split at h
  · rcases deliver_cases h with ⟨hnot, -, rfl⟩ |
      ⟨s, es₁, es₂, t₂, es₃, -, hinstall, -, rfl, -⟩
    · exact ⟨Owner.settle, .inr ⟨rfl, hnot⟩, rfl⟩
    · refine ⟨Owner.answer, .inl rfl, ?_⟩
      -- installing changes the stream only, and of the two changes to the owner the
      -- second one tells
      have hinstalled :
          t₂ = { t.modifyOwner i Owner.settle with stream := t₂.stream } := by
        rcases install_cases hinstall with ⟨-, -, rfl⟩ | ⟨-, -, rfl⟩ <;> rfl
      have howners :
          t₂.owners.modify i Owner.answer = t.owners.modify i Owner.answer := by
        rw [hinstalled]
        exact BoundedList.ext (List.modify_modify_eq ..)
      show { t₂ with owners := t₂.owners.modify i Owner.answer } = _
      rw [howners, hinstalled]
      rfl
  · obtain ⟨-, h⟩ := yields_pure.mp h
    cases h
    exact ⟨Owner.settle, .inr ⟨rfl, rfl⟩, rfl⟩

/-- A report is stale, or it is delivered, or its owner fails. -/
theorem complete_cases {success : Bool} {completion : Completion}
    (h : (t.complete id success).Yields es (completion, t')) :
    (t.awaiting? id = none ∧ completion = .stale ∧ es = [] ∧ t' = t) ∨
      ∃ i p, t.awaiting? id = some (i, p) ∧
        ((completion = .delivered ∧ (t.attempt i p success).Yields es (true, t')) ∨
          ∃ es₁ t₁ es₂, (t.attempt i p success).Yields es₁ (false, t₁) ∧
            (t₁.fail i).Yields es₂ (completion, t') ∧ es = es₁ ++ es₂) := by
  unfold complete at h
  cases ha : t.awaiting? id with
  | none =>
    rw [ha] at h
    obtain ⟨rfl, h⟩ := yields_pure.mp h
    cases h
    exact .inl ⟨rfl, rfl, rfl, rfl⟩
  | some ip =>
    obtain ⟨i, p⟩ := ip
    -- with success or without, an attempt is made first, and then its end is looked
    -- at
    have hattempt : (t.attempt i p success >>= fun a =>
        if a.1 then pure (.delivered, a.2) else a.2.fail i).Yields es
            (completion, t') := by
      rw [ha] at h
      cases success <;> exact h
    obtain ⟨es₁, ⟨delivered, t₁⟩, es₂, rfl, h₁, h₂⟩ := yields_bind.mp hattempt
    refine .inr ⟨i, p, rfl, ?_⟩
    cases delivered with
    | true =>
      obtain ⟨rfl, h₂⟩ := yields_pure.mp h₂
      cases h₂
      exact .inl ⟨rfl, by simpa using h₁⟩
    | false => exact .inr ⟨es₁, t₁, es₂, h₁, h₂, rfl⟩

end Transport

end AudioBroker
