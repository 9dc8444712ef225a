import AudioBroker.Proofs.Transport.Start

/-!
# The moves of a transport

Whatever an operation does to a transport, it does in moves, of which there are few.
A property of transports is proved for each move, and then holds of every operation.

- `Incident`: what happens to calls, clients and transports beside what is said to
  the peers.
- `Transport.Move`: one move, with its incidents and what is said in it.
- `Transport.Course`: moves in a row.
- `Transport.complete_course` and the like: every operation is a course.
- `Transport.Announced`: nothing changes but what is announced.
- `Transport.Course.terms_eq`: what was agreed on when a transport was created
  stays.
-/

namespace AudioBroker

open Dialogue

/-- What happens beside what is said to the peers. -/
inductive Incident where
  /-- An `Acquire` call was admitted; its answer is owed to an owner. -/
  | admitted (call : PendingCall)
  /-- A call was taken in and answered at once. -/
  | answered (call : PendingCall)
  /-- The client of an owner left: its watch has fired and nobody waits for an
  answer. -/
  | departed (o : Owner)
  /-- A transport was displaced by a new one with its number. -/
  | displaced (t : Transport)
  deriving DecidableEq

/-- None of these is an admission. -/
def Calm (ls : List Incident) : Prop := ∀ call, Incident.admitted call ∉ ls

@[simp] theorem calm_nil : Calm [] := by simp [Calm]

@[simp] theorem calm_append {ls ls' : List Incident} :
    Calm (ls ++ ls') ↔ Calm ls ∧ Calm ls' := by
  simp only [Calm, List.mem_append, not_or, forall_and]

/-- A call that only asks, and leaves the peers as they are. -/
def Call.isQuery : Call → Bool
  | openStream _ | voiceDescriptor _ | noiseReduction _ | inbandRingtone _ => true
  | _ => false

/-- A call that answers nobody, and neither takes nor gives back a stream lock. -/
def Call.isNeutral : Call → Bool
  | reply _ _ | lockStream _ _ | unlockStream _ _ | lockVoice _ _ |
    unlockVoice _ _ => false
  | _ => true

/-- A query neither answers anybody nor takes a lock. -/
theorem Call.isNeutral_of_isQuery {c : Call} (h : c.isQuery = true) :
    c.isNeutral = true := by
  cases c <;> first | rfl | cases h

namespace Transport

/-- One move of a transport. -/
inductive Move : Transport → List Incident → List Exchange → Transport → Prop where
  /-- An owner is taken on, and its start has begun. -/
  | joined {t : Transport} {client text : String} {name : ClientName}
      {access : Access}
      {call : PendingCall} {id : OwnerId} {watch : Option WatchId}
      {es : List Exchange}
      {start : Backend.Start}
      (admitted : t.admission client text = .ok (name, access))
      (start_spec : Backend.StartSpec t.device
        (t.token id) t.backend t.inUse es start)
      (begun : start.request.isSome = true) :
      Move t [.admitted call] (⟨.watch name (t.token id), watch⟩ :: es)
        (t.started start (.fresh id name access watch call start.request))
  /-- An owner is taken on, its start cannot begin, and it is torn down. -/
  | turnedAway {t : Transport} {client text : String} {name : ClientName}
      {access : Access}
      {call : PendingCall} {id : OwnerId} {watch : Option WatchId}
      {es es' : List Exchange}
      {start : Backend.Start}
      (admitted : t.admission client text = .ok (name, access))
      (start_spec : Backend.StartSpec t.device
        (t.token id) t.backend t.inUse es start)
      (refused : start.request = none)
      (parting : es'.map Exchange.call = (t.started start
        (.fresh id name access watch call start.request)).partingCalls
          t.owners.size) :
      Move t [.admitted call] (⟨.watch name (t.token id), watch⟩ :: (es ++ es'))
        ((t.started start (.fresh id name access watch call start.request)).without
          t.owners.size)
  /-- An owner goes on with less. -/
  | narrowed {t : Transport} {i : Nat} {o : Owner} {a : Access}
      (owner : t.owners.toList[i]? = some o) (less : a ≠ o.access)
      (part : a ⊆ o.access) :
      Move t [] [] (t.narrow i a)
  /-- An owner is torn down. -/
  | ended {t : Transport} {i : Nat} {o : Owner} {es : List Exchange}
      (owner : t.owners.toList[i]? = some o)
      (parting : es.map Exchange.call = t.partingCalls i) : Move t [] es (t.without i)
  /-- The client of an owner left. -/
  | departed {t : Transport} {i : Nat} {o : Owner}
      (owner : t.owners.toList[i]? = some o) :
      Move t [.departed o] [] (t.modifyOwner i Owner.depart)
  /-- The start for an owner has ended. -/
  | settled {t : Transport} {i : Nat} {o : Owner}
      (owner : t.owners.toList[i]? = some o) :
      Move t [] [] (t.modifyOwner i Owner.settle)
  /-- A stream is put in place. -/
  | installed {t t' : Transport} {s : Stream} {es : List Exchange}
      (install : (t.install s).Yields es t') : Move t [] es t'
  /-- An owner is sent a descriptor, if its call is still to be answered. -/
  | delivered {t : Transport} {i : Nat} {o : Owner} {fd : StreamFd}
      {es : List Exchange} (owner : t.owners.toList[i]? = some o)
      (reply : es.map Exchange.call = o.unspent?.toList.map fun c =>
        .reply c (.descriptor fd)) :
      Move t [] es (t.modifyOwner i Owner.answer)
  /-- An owner is marked to be torn down later. -/
  | scheduled {t : Transport} {i : Nat} {o : Owner}
      (owner : t.owners.toList[i]? = some o)
      (defers : t.backend.isA2dp = true) :
        Move t [] [] (t.modifyOwner i Owner.schedule)
  /-- A delay is taken note of. -/
  | delayed {t t' : Transport} {delay : UInt16} {es : List Exchange}
      (report : (t.reportDelay delay).Yields es t') : Move t [] es t'
  /-- The peers are asked something. -/
  | asked {t : Transport} {e : Exchange} (query : e.call.isQuery = true) :
      Move t [] [e] t

/-- Moves in a row. Nobody is admitted by any but the first of them. -/
inductive Course : Transport → List Incident → List Exchange → Transport → Prop where
  | nil (t : Transport) : Course t [] [] t
  | cons {t t₁ t' : Transport} {ls ls' : List Incident} {es es' : List Exchange}
      (move : Move t ls es t₁) (rest : Course t₁ ls' es' t') (calm : Calm ls') :
      Course t (ls ++ ls') (es ++ es') t'

variable {t t₁ t' : Transport} {ls ls' : List Incident} {es es' : List Exchange}
  {i : Nat} {o : Owner} {id : OwnerId}

theorem Move.course (h : Move t ls es t') : Course t ls es t' := by
  simpa using Course.cons h (.nil t') calm_nil

/-- A course can go on with moves that have no incidents. -/
theorem Course.append (h : Course t ls es t₁) (h' : Course t₁ [] es' t') :
    Course t ls (es ++ es') t' := by
  induction h with
  | nil => exact h'
  | cons move _ calm ih =>
    rw [List.append_assoc]
    exact .cons move (ih h') calm

/-! ### Operations are courses -/

/-- A request for access is a course, in which somebody is admitted or nobody. -/
theorem acquire_course {client text : String} {call : PendingCall}
    {result : Except Rejection Unit}
    (h : (t.acquire client text call id).Yields es (result, t')) :
    Course t (if (t.admission client text).toBool then [.admitted call]
      else []) es t' := by
  rcases acquire_cases h with ⟨fault, ha, rfl, rfl, rfl⟩ |
    ⟨name, access, ha, rfl, htake⟩
  · rw [ha]
    exact .nil t'
  · rw [ha]
    obtain ⟨watch, es₁, start, es₂, hstart, rfl, hcase⟩ := takeOn_cases htake
    have hspec := Backend.start_spec hstart
    rcases hcase with ⟨hbegun, rfl, rfl⟩ | ⟨hrefused, hparting, rfl⟩
    · rw [List.append_nil]
      exact (Move.joined ha hspec hbegun).course
    · exact (Move.turnedAway ha hspec hrefused hparting).course

theorem endAt_course (h : es.map Exchange.call = t.partingCalls i) :
    Course t [] es (t.without i) := by
  cases ho : t.owners.toList[i]? with
  | none =>
    -- where nobody is, nothing is said and nothing changes
    rw [partingCalls_of_none ho, List.map_eq_nil_iff] at h
    rw [h, without_of_none ho]
    exact .nil t
  | some o => exact (Move.ended ho h).course

theorem endFirst_course {n : Nat} (h : (t.endFirst n).Yields es t') :
    Course t [] es t' := by
  induction n generalizing t es with
  | zero =>
    obtain ⟨rfl, rfl⟩ := yields_pure.mp h
    exact .nil t'
  | succ n ih =>
    obtain ⟨es₁, es₂, rfl, h₁, h₂⟩ := endFirst_succ_cases h
    exact (endAt_course h₁).append (ih h₂)

/-- The first owners are gone, and the others stay in order. -/
theorem endFirst_owners {n : Nat} (h : (t.endFirst n).Yields es t') :
    t'.owners.toList = t.owners.toList.drop n := by
  induction n generalizing t es with
  | zero =>
    obtain ⟨-, rfl⟩ := yields_pure.mp h
    rfl
  | succ n ih =>
    obtain ⟨es₁, es₂, rfl, -, h₂⟩ := endFirst_succ_cases h
    rw [ih h₂, toList_owners_without, List.eraseIdx_zero, List.drop_tail]

/-- Nobody is left after all owners were torn down. -/
theorem endAll_owners (h : t.endAll.Yields es t') : t'.owners.toList = [] := by
  rw [endFirst_owners h]
  simp

theorem exit_course {known : Bool} (h : (t.exit id).Yields es (known, t')) :
    Course t ((t.owner? id).toList.map fun io => .departed io.2) es t' := by
  rcases exit_cases h with ⟨ho, -, rfl, rfl⟩ | ⟨i, o, ho, -, hcalls, rfl⟩
  · rw [ho]
    exact .nil t'
  · rw [ho]
    exact (Move.departed (owner?_eq_some ho).1).course.append (endAt_course hcalls)

theorem endScheduled_course {ended : Bool}
    (h : (t.endScheduled id).Yields es (ended, t')) :
    Course t [] es t' := by
  rcases endScheduled_cases h with ⟨-, -, rfl, rfl⟩ | ⟨i, o, -, -, -, hcalls, rfl⟩
  · exact .nil t'
  · exact endAt_course hcalls

/-- A release makes an owner narrower or ends it. -/
theorem release_course {client text : String} {result : Except Fault Unit}
    (h : (t.release client text).Yields es (result, t')) : Course t [] es t' := by
  rcases release_cases h with ⟨-, rfl, rfl⟩ | ⟨i, o, a, ho, -, -, hcase⟩
  · exact .nil t'
  · rcases hcase with ⟨-, hcalls, rfl⟩ | ⟨hless, hpart, rfl, rfl⟩
    · exact endAt_course hcalls
    · exact (Move.narrowed (ownerOf?_eq_some ho).1 hless hpart).course

theorem reportDelay_course {delay : UInt16} (h : (t.reportDelay delay).Yields es t') :
    Course t [] es t' :=
  (Move.delayed h).course

/-- Asking the backend for its stream is one query. -/
theorem stream_query {stream? : Option Stream}
    (h : (t.backend.stream t.device).Yields es stream?) :
    ∃ e, es = [e] ∧ e.call.isQuery = true := by
  unfold Backend.stream at h
  split at h
  · exact ⟨_, Call.yields_make.mp h, rfl⟩
  · obtain ⟨es₁, fd, es₂, rfl, h₁, h₂⟩ := yields_bind.mp h
    obtain ⟨rfl, -⟩ := yields_pure.mp h₂
    rw [List.append_nil]
    exact ⟨_, Call.yields_make.mp h₁, rfl⟩

theorem stream_course {stream? : Option Stream}
    (h : (t.backend.stream t.device).Yields es stream?) : Course t [] es t := by
  obtain ⟨e, rfl, query⟩ := stream_query h
  exact (Move.asked query).course

/-- What is said to learn the properties asks only. -/
theorem properties_queries {snapshot : Snapshot}
    (h : t.properties.Yields es snapshot) :
    ∀ e ∈ es, e.call.isQuery = true := by
  obtain ⟨es₁, ex, es₂, rfl, h₁, h₂⟩ := yields_bind.mp h
  obtain ⟨rfl, -⟩ := yields_pure.mp h₂
  unfold extras at h₁
  split at h₁
  · obtain ⟨rfl, -⟩ := yields_pure.mp h₁
    simp
  · obtain ⟨es₁, nrec, es', rfl, hnrec, h₁⟩ := yields_bind.mp h₁
    obtain ⟨es₂, ring, es₃, rfl, hring, h₁⟩ := yields_bind.mp h₁
    obtain ⟨rfl, -⟩ := yields_pure.mp h₁
    obtain rfl := Call.yields_make.mp hnrec
    obtain rfl := Call.yields_make.mp hring
    simp [Call.isQuery]

/-- Queries are moves that change nothing. -/
theorem asked_course (t : Transport) (queries : ∀ e ∈ es, e.call.isQuery = true) :
    Course t [] es t := by
  induction es with
  | nil => exact .nil t
  | cons e es ih =>
    exact (Move.asked (queries e List.mem_cons_self)).course.append
      (ih fun e he => queries e (List.mem_cons_of_mem _ he))

theorem install_owners {s : Stream} (h : (t.install s).Yields es t') :
    t'.owners = t.owners := by
  rcases install_cases h with ⟨-, -, rfl⟩ | ⟨-, -, rfl⟩ <;> rfl

/-- An owner is delivered to with the call that it still holds. -/
theorem deliver_course {call : Option PendingCall} {delivered : Bool}
    (ho : t.owners.toList[i]? = some o) (hcall : o.unspent? = call)
    (h : (t.deliver i call).Yields es (delivered, t')) : Course t [] es t' := by
  rcases deliver_cases h with ⟨-, h, rfl⟩ |
    ⟨s, es₁, es₂, t₂, es₃, h₁, h₂, rfl, rfl, h₃⟩
  · exact stream_course h
  · -- the stream is asked for, put in place and sent
    have hreply : es₃.map Exchange.call = o.unspent?.toList.map fun c =>
        .reply c (.descriptor s.fd) := by
      rcases h₃ with ⟨rfl, rfl, -⟩ | ⟨c, delivery, rfl, rfl, -⟩ <;> rw [hcall] <;> rfl
    have ho₂ : t₂.owners.toList[i]? = some o := by rw [install_owners h₂, ho]
    exact ((stream_course h₁).append (Move.installed h₂).course).append
      (Move.delivered ho₂ hreply).course

/-- Whatever a reported start comes to, its owner is settled, and the stream is
installed and passed on if there is one. -/
theorem attempt_course {p : Pending} {success delivered : Bool}
    (ha : t.awaiting? id = some (i, p))
    (h : (t.attempt i p success).Yields es (delivered, t')) :
    Course t [] es t' := by
  obtain ⟨o, ho, -, hp⟩ := awaiting?_eq_some_iff.mp ha
  have hi := (owner?_eq_some ho).1
  have hsettled :
      (t.modifyOwner i Owner.settle).owners.toList[i]? = some o.settle := by
    simp [hi]
  have hcourse : Course t [] [] (t.modifyOwner i Owner.settle) :=
    (Move.settled hi).course
  unfold attempt at h
  split at h
  · exact hcourse.append (deliver_course hsettled
      (by simp [Owner.unspent?, Owner.settle, hp]) h)
  · obtain ⟨rfl, h⟩ := yields_pure.mp h
    cases h
    exact hcourse

/-- An owner whose start failed is marked or torn down. -/
theorem fail_course {completion : Completion} (ho : t.owners.toList[i]? = some o)
    (h : (t.fail i).Yields es (completion, t')) : Course t [] es t' := by
  rcases fail_cases h with ⟨hdefers, -, rfl, rfl⟩ | ⟨-, -, hcalls, rfl⟩
  · exact (Move.scheduled ho hdefers).course
  · exact endAt_course hcalls

/-- The owner for which a start has ended is still at its place after the attempt to
deliver. -/
theorem attempt_owner {p : Pending} {success delivered : Bool}
    (ho : t.owners.toList[i]? = some o)
    (h : (t.attempt i p success).Yields es (delivered, t')) :
    ∃ o', t'.owners.toList[i]? = some o' := by
  obtain ⟨f, -, heq⟩ := attempt_modifies h
  rw [heq]
  exact ⟨f o, getElem?_modifyOwner ho⟩

/-- A report is a course, in which nobody is admitted. -/
theorem complete_course {success : Bool} {completion : Completion}
    (h : (t.complete id success).Yields es (completion, t')) : Course t [] es t' := by
  rcases complete_cases h with ⟨-, -, rfl, rfl⟩ | ⟨i, p, ha, hcase⟩
  · exact .nil t'
  · obtain ⟨o, ho, -, -⟩ := awaiting?_eq_some_iff.mp ha
    rcases hcase with ⟨-, hattempt⟩ | ⟨es₁, t₁, es₂, hattempt, hfail, rfl⟩
    · exact attempt_course ha hattempt
    · obtain ⟨o', ho'⟩ := attempt_owner (owner?_eq_some ho).1 hattempt
      exact (attempt_course ha hattempt).append (fail_course ho' hfail)

/-! ### What is only announced -/

/-- Nothing changes but the stream and the delay, and nothing is said that matters
to an owner. -/
structure Announced (t : Transport) (es : List Exchange) (t' : Transport) : Prop where
  eq : t' = { t with stream := t'.stream, delay := t'.delay }
  neutral : ∀ e ∈ es, e.call.isNeutral = true

theorem neutral_of_calls {cs : List Call} (h : es.map Exchange.call = cs)
    (hcs : ∀ c ∈ cs, c.isNeutral = true) : ∀ e ∈ es, e.call.isNeutral = true := by
  intro e he
  exact hcs _ (h ▸ List.mem_map_of_mem he)

/-- Giving back a session is neutral. -/
theorem neutral_of_closing {b : Backend} (h : es.map Exchange.call = b.closeCalls) :
    ∀ e ∈ es, e.call.isNeutral = true := by
  apply neutral_of_calls h
  intro c hc
  obtain ⟨session, -, rfl⟩ := List.mem_map.mp hc
  rfl

/-- A stream that is installed is announced, and nothing else changes. -/
theorem install_announced {s : Stream} (h : (t.install s).Yields es t') :
    t.Announced es t' := by
  rcases install_cases h with ⟨-, rfl, rfl⟩ | ⟨-, hcalls, rfl⟩
  · exact { eq := rfl, neutral := by simp }
  · exact { eq := rfl, neutral := neutral_of_calls hcalls (by simp [Call.isNeutral]) }

/-- A delay that is taken is announced, and nothing else changes. -/
theorem reportDelay_announced {delay : UInt16}
    (h : (t.reportDelay delay).Yields es t') :
    t.Announced es t' := by
  rcases reportDelay_cases h with ⟨-, rfl, rfl⟩ | ⟨-, hcalls, rfl⟩
  · exact { eq := rfl, neutral := by simp }
  · exact { eq := rfl, neutral := neutral_of_calls hcalls (by simp [Call.isNeutral]) }

/-! ### What stays -/

/-- What is agreed on when a transport is created. -/
structure Terms where
  id : TransportId
  path : ObjectPath
  device : Device
  endpoint : Endpoint
  configuration : Configuration
  /-- The backend, as it was before it had a session. -/
  backend : Backend

/-- What was agreed on when the transport was created. -/
def terms (t : Transport) : Terms :=
  { id := t.id, path := t.path, device := t.device, endpoint := t.endpoint,
    configuration := t.configuration, backend := t.backend.sessionless }

theorem terms_without (t : Transport) (i : Nat) : (t.without i).terms = t.terms := by
  cases ho : t.owners.toList[i]? with
  | none => rw [without_of_none ho]
  | some o => rw [without_eq ho]; rfl

theorem terms_withOwner (t : Transport) (o : Owner) :
    (t.withOwner o).terms = t.terms := by
  unfold withOwner
  split <;> rfl

/-- A start may obtain a session, but that is no part of the terms. -/
theorem terms_started {start : Backend.Start} (o : Owner)
    (h : start.backend.sessionless = t.backend.sessionless) :
    (t.started start o).terms = t.terms := by
  rw [started, terms_withOwner, terms, terms, h]

/-- No move changes what was agreed on. -/
theorem Move.terms_eq (h : Move t ls es t') : t'.terms = t.terms := by
  cases h with
  | joined _ hspec _ => exact terms_started _ hspec.sessionless_eq
  | turnedAway _ hspec _ _ => rw [terms_without, terms_started _ hspec.sessionless_eq]
  | narrowed _ _ _ => rfl
  | ended _ _ => exact terms_without _ _
  | departed _ => rfl
  | settled _ => rfl
  | installed install =>
    rw [(install_announced install).eq]
    rfl
  | delivered _ _ => rfl
  | scheduled _ _ => rfl
  | delayed report =>
    rw [(reportDelay_announced report).eq]
    rfl
  | asked _ => rfl

/-- No course changes what was agreed on. -/
theorem Course.terms_eq (h : Course t ls es t') : t'.terms = t.terms := by
  induction h with
  | nil => rfl
  | cons move _ _ ih => rw [ih, move.terms_eq]

theorem id_eq_of_terms (h : t'.terms = t.terms) : t'.id = t.id := congrArg Terms.id h

theorem isA2dp_eq_of_terms (h : t'.terms = t.terms) :
    t'.backend.isA2dp = t.backend.isA2dp := by
  have hkind := congrArg (fun terms => terms.backend.isA2dp) h
  simpa [terms] using hkind

theorem device_eq_of_terms (h : t'.terms = t.terms) : t'.device = t.device :=
  congrArg Terms.device h

theorem path_eq_of_terms (h : t'.terms = t.terms) : t'.path = t.path :=
  congrArg Terms.path h

/-- The token of an owner names its transport, which stays. -/
theorem token_eq_of_terms (h : t'.terms = t.terms) (id : OwnerId) :
    t'.token id = t.token id := by
  rw [token, token, id_eq_of_terms h]

theorem Course.id_eq (h : Course t ls es t') : t'.id = t.id :=
  id_eq_of_terms h.terms_eq

end Transport

end AudioBroker
