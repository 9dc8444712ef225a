import AudioBroker.Proofs.Transport.Tally

/-!
# How a transport uses its session

An A2DP transport asks for a signalling session when it needs one and has none. From
then on it names that session, and its own stream endpoint, in everything that it
asks of the A2DP layer. A headset transport has no part in this.

- `Call.isSignalling`, `Call.streamKey?`: the calls that are about sessions and
  streams of the A2DP layer, and what they name.
- `Backend.Signalling`: exchanges that are made as the session allows at each
  moment.
- `Transport.Course.signalling`: all that is said on behalf of a transport is of
  this kind.
-/

namespace AudioBroker

open Dialogue

/-- The session that was obtained; a request that is refused obtains none. -/
def Exchange.opened? : Exchange → Option SessionId
  | ⟨.openSession _ _, session⟩ => session
  | _ => none

/-- The session that a call gives back. -/
def Call.closed? : Call → Option SessionId
  | .closeSession session => some session
  | _ => none

/-- The stream endpoint and the session that a call for a stream names. -/
def Call.streamKey? : Call → Option (StreamEndpointId × SessionId)
  | .lockStream sep session | .unlockStream sep session |
    .startStream session sep _ => some (sep, session)
  | _ => none

/-- A call about a session, or about a stream that is named by its session. -/
def Call.isSignalling : Call → Bool
  | openSession _ _ | closeSession _ | lockStream _ _ | unlockStream _ _ |
    startStream _ _ _ => true
  | _ => false

/-- The sessions that were obtained. -/
def opened (es : List Exchange) : List SessionId := es.filterMap Exchange.opened?

/-- The sessions that were given back. -/
def closed (es : List Exchange) : List SessionId :=
  es.filterMap fun e => e.call.closed?

@[simp] theorem opened_append (es es' : List Exchange) :
    opened (es ++ es') = opened es ++ opened es' :=
  List.filterMap_append

@[simp] theorem closed_append (es es' : List Exchange) :
    closed (es ++ es') = closed es ++ closed es' :=
  List.filterMap_append

theorem opened_cons (e : Exchange) (es : List Exchange) :
    opened (e :: es) = e.opened?.toList ++ opened es := by
  rw [opened, List.filterMap_cons, opened]
  cases e.opened? <;> rfl

theorem closed_cons (e : Exchange) (es : List Exchange) :
    closed (e :: es) = e.call.closed?.toList ++ closed es := by
  rw [closed, List.filterMap_cons, closed]
  cases e.call.closed? <;> rfl

theorem Call.isSignalling_of_isPlain {c : Call} (h : c.isPlain = true) :
    c.isSignalling = false := by
  cases c <;> first | rfl | cases h

theorem opened?_of_not_signalling {e : Exchange} (h : e.call.isSignalling = false) :
    e.opened? = none := by
  obtain ⟨call, answer⟩ := e
  cases call <;> first | rfl | cases h

theorem closed?_of_not_signalling {c : Call} (h : c.isSignalling = false) :
    c.closed? = none := by
  cases c <;> first | rfl | cases h

theorem Call.streamKey?_of_not_signalling {c : Call} (h : c.isSignalling = false) :
    c.streamKey? = none := by
  cases c <;> first | rfl | cases h

theorem opened_of_not_signalling {es : List Exchange}
    (h : ∀ e ∈ es, e.call.isSignalling = false) :
    opened es = [] :=
  List.filterMap_eq_nil_iff.mpr fun e he => opened?_of_not_signalling (h e he)

theorem closed_of_not_signalling {es : List Exchange}
    (h : ∀ e ∈ es, e.call.isSignalling = false) :
    closed es = [] :=
  List.filterMap_eq_nil_iff.mpr fun e he => closed?_of_not_signalling (h e he)

/-- A call that names a stream neither obtains a session nor gives one back. -/
theorem opened?_of_streamKey? {e : Exchange} {key : StreamEndpointId × SessionId}
    (h : e.call.streamKey? = some key) :
    e.opened? = none ∧ e.call.closed? = none := by
  obtain ⟨call, answer⟩ := e
  cases call <;> first | exact ⟨rfl, rfl⟩ | cases h

namespace Backend

/-- Exchanges that a backend makes as its session allows: it asks for one only while
it has none, and a call for a stream names its own endpoint and the session that it
has at that moment. It gives no session back. -/
inductive Signalling (device : Device) :
    Backend → List Exchange → Backend → Prop where
  | nil (b : Backend) : Signalling device b [] b
  /-- Something else is said. -/
  | other {b b' : Backend} {e : Exchange} {es : List Exchange}
      (silent : e.call.isSignalling = false)
      (rest : Signalling device b es b') : Signalling device b (e :: es) b'
  /-- A session is refused. -/
  | refused {sep : StreamEndpointId} {b' : Backend} {es : List Exchange}
      (rest : Signalling device (a2dp sep none) es b') :
      Signalling device (a2dp sep none)
        (⟨.openSession device.src device.dst, none⟩ :: es) b'
  /-- A session is obtained, and kept. -/
  | granted {sep : StreamEndpointId} {s : SessionId} {b' : Backend}
      {es : List Exchange} (rest : Signalling device (a2dp sep (some s)) es b') :
      Signalling device (a2dp sep none)
        (⟨.openSession device.src device.dst, some s⟩ :: es) b'
  /-- A call for a stream. -/
  | stream {sep : StreamEndpointId} {s : SessionId} {b' : Backend} {e : Exchange}
      {es : List Exchange}
      (key : e.call.streamKey? = some (sep, s))
      (rest : Signalling device (a2dp sep (some s)) es b') :
      Signalling device (a2dp sep (some s)) (e :: es) b'

variable {b b₁ b' : Backend} {device : Device} {token : Token} {inUse : Bool}
  {es es' : List Exchange} {st : Start}

/-- What a backend says in two parts it says as its session allows, if it does so in
both. -/
theorem Signalling.trans (h : Signalling device b es b₁)
    (h' : Signalling device b₁ es' b') :
    Signalling device b (es ++ es') b' := by
  induction h with
  | nil => exact h'
  | other silent _ ih => exact .other silent (ih h')
  | refused _ ih => exact .refused (ih h')
  | granted _ ih => exact .granted (ih h')
  | stream key _ ih => exact .stream key (ih h')

theorem signalling_of_silent (b : Backend)
    (h : ∀ e ∈ es, e.call.isSignalling = false) :
    Signalling device b es b := by
  induction es with
  | nil => exact .nil b
  | cons e es ih =>
    exact .other (h e List.mem_cons_self)
      (ih fun e he => h e (List.mem_cons_of_mem _ he))

theorem signalling_of_plain (b : Backend) (h : ∀ e ∈ es, e.call.isPlain = true) :
    Signalling device b es b :=
  signalling_of_silent b fun e he => Call.isSignalling_of_isPlain (h e he)

/-! ### What it comes to -/

/-- Whatever was obtained is stored. -/
theorem Signalling.session_eq (h : Signalling device b es b') :
    b'.session?.toList = b.session?.toList ++ opened es := by
  induction h with
  | nil => simp [opened]
  | other silent _ ih => rw [ih, opened_cons, opened?_of_not_signalling silent]; rfl
  | refused _ ih => rw [ih, opened_cons]; rfl
  | granted _ ih => rw [ih, opened_cons]; rfl
  | stream key _ ih => rw [ih, opened_cons, (opened?_of_streamKey? key).1]; rfl

/-- A backend gives no session back by itself. -/
theorem Signalling.closed_eq (h : Signalling device b es b') : closed es = [] := by
  induction h with
  | nil => rfl
  | other silent _ ih => rw [closed_cons, ih, closed?_of_not_signalling silent]; rfl
  | refused _ ih => rw [closed_cons, ih]; rfl
  | granted _ ih => rw [closed_cons, ih]; rfl
  | stream key _ ih => rw [closed_cons, ih, (opened?_of_streamKey? key).2]; rfl

/-- Exchanges can be divided at every moment. -/
theorem Signalling.divide (h : Signalling device b (es ++ es') b') :
    ∃ b₁, Signalling device b es b₁ ∧ Signalling device b₁ es' b' := by
  induction es generalizing b with
  | nil => exact ⟨b, .nil b, h⟩
  | cons e es ih =>
    cases h with
    | other silent rest =>
      obtain ⟨b₁, first, next⟩ := ih rest
      exact ⟨b₁, .other silent first, next⟩
    | refused rest =>
      obtain ⟨b₁, first, next⟩ := ih rest
      exact ⟨b₁, .refused first, next⟩
    | granted rest =>
      obtain ⟨b₁, first, next⟩ := ih rest
      exact ⟨b₁, .granted first, next⟩
    | stream key rest =>
      obtain ⟨b₁, first, next⟩ := ih rest
      exact ⟨b₁, .stream key first, next⟩

/-- The session that a call for a stream names was stored at first, or was obtained
before the call. -/
theorem Signalling.session_of_streamKey {e : Exchange} {sep : StreamEndpointId}
    {x : SessionId} (h : Signalling device b (es ++ e :: es') b')
    (key : e.call.streamKey? = some (sep, x)) :
    b.session? = some x ∨ x ∈ opened es := by
  obtain ⟨b₁, first, next⟩ := h.divide
  -- at the moment of the call the session is stored; how it got there is told by
  -- what was said before
  have hstored : b₁.session? = some x := by
    cases next with
    | other silent _ =>
      rw [Call.streamKey?_of_not_signalling silent] at key
      cases key
    | refused _ | granted _ => cases key
    | stream key' _ =>
      cases key.symm.trans key'
      rfl
  have hsession := first.session_eq
  rw [hstored] at hsession
  have hmem : x ∈ b.session?.toList ++ opened es :=
    hsession ▸ List.mem_singleton_self x
  rwa [List.mem_append, Option.mem_toList] at hmem

/-- A headset has nothing to do with sessions. -/
theorem Signalling.silent_of_headset (h : Signalling device b es b')
    (kind : b.isA2dp = false) :
    ∀ e ∈ es, e.call.isSignalling = false := by
  induction h with
  | nil => simp
  | other silent _ ih => exact List.forall_mem_cons.mpr ⟨silent, ih kind⟩
  | refused _ _ | granted _ _ | stream _ _ _ => cases kind

/-- An A2DP backend that knows what its lock is held on has a session. -/
theorem session?_of_lockKey? (kind : b.isA2dp = true)
    (keyed : (b.lockKey? device).isSome = true) :
    ∃ x, b.session? = some x := by
  cases b with
  | a2dp sep session =>
    cases session with
    | none => cases keyed
    | some x => exact ⟨x, rfl⟩
  | headset _ _ _ => cases kind

/-! ### Starts -/

theorem Opened.signalling (h : Opened device b es b') :
    Signalling device b es b' := by
  cases h with
  | kept _ => exact .nil _
  | opened sep s => exact .granted (.nil _)

/-- The lock and the start are asked for under the session that is there, and
without one for a headset. -/
theorem signalling_of_asked {e : Exchange}
    (h : (∃ granted, LockAsked device granted b e) ∨ ∃ token request,
      StartAsked device token request b e) :
    Signalling device b [e] b := by
  rcases h with ⟨_, h⟩ | ⟨_, _, h⟩ <;> cases h <;>
    first | exact .stream rfl (.nil _) | exact .other rfl (.nil _)

/-- A start asks for a session if need be, and then for the lock and the stream
under that session. -/
theorem StartSpec.signalling (h : StartSpec device token b inUse es st) :
    Signalling device b es st.backend := by
  cases h with
  | noSession hb =>
    subst hb
    exact .refused (.nil _)
  | noLock _ opened refused =>
    exact opened.signalling.trans (signalling_of_asked (.inl ⟨_, refused⟩))
  | asked opened locked asked =>
    refine (opened.signalling.trans ?_).trans
      (signalling_of_asked (.inr ⟨_, _, asked⟩))
    rcases locked with ⟨-, rfl⟩ | ⟨-, e, granted, rfl⟩
    · exact .nil _
    · exact signalling_of_asked (.inl ⟨_, granted⟩)

/-! ### Ends of owners -/

/-- The stream lock is given back under the session that it was taken with. -/
theorem signalling_of_unlockCalls
    (h : es.map Exchange.call = b.unlockCalls inUse device) :
    Signalling device b es b := by
  unfold unlockCalls at h
  split at h
  · obtain ⟨e, rfl, hcall⟩ := List.map_eq_singleton_iff.mp h
    exact .stream (by rw [hcall]; rfl) (.nil _)
  · obtain ⟨e, rfl, hcall⟩ := List.map_eq_singleton_iff.mp h
    exact .other (by rw [hcall]; rfl) (.nil _)
  · rw [List.map_eq_nil_iff.mp h]
    exact .nil _

/-- What is kept is given back once, and nothing is obtained any more. -/
theorem closed_of_closing (h : es.map Exchange.call = b.closeCalls) :
    opened es = [] ∧ closed es = b.session?.toList ∧ ∀ e ∈ es,
      e.call.streamKey? = none := by
  -- closing is all that is said
  have hcalls : ∀ e ∈ es, ∃ session, e.call = .closeSession session := by
    intro e he
    have hcall := List.mem_map_of_mem (f := Exchange.call) he
    rw [h] at hcall
    obtain ⟨session, -, hcall⟩ := List.mem_map.mp hcall
    exact ⟨session, hcall.symm⟩
  refine ⟨List.filterMap_eq_nil_iff.mpr fun e he => ?_, ?_, fun e he => ?_⟩
  · obtain ⟨session, hcall⟩ := hcalls e he
    obtain ⟨call, answer⟩ := e
    cases hcall
    rfl
  · have hclosed : closed es = (es.map Exchange.call).filterMap Call.closed? := by
      rw [List.filterMap_map]
      rfl
    rw [hclosed, h, closeCalls, List.filterMap_map]
    exact List.filterMap_some
  · obtain ⟨session, hcall⟩ := hcalls e he
    rw [hcall]
    rfl

theorem isSignalling_partingCalls (o : Owner) (b : Backend) (device : Device) :
    ∀ c ∈ o.partingCalls b device, c.isSignalling = false := by
  refine o.forall_partingCalls b device (fun _ => rfl) (fun request => ?_) fun _ =>
    rfl
  cases b <;> rfl

end Backend

namespace Transport

variable {t t' : Transport} {ls : List Incident} {es : List Exchange} {i : Nat}

/-- At the end of an owner the lock is given back under the session that is stored. -/
theorem parting_signalling (h : es.map Exchange.call = t.partingCalls i) :
    t.backend.Signalling t.device es t.backend := by
  cases ho : t.owners.toList[i]? with
  | none =>
    rw [partingCalls_of_none ho, List.map_eq_nil_iff] at h
    rw [h]
    exact .nil _
  | some o =>
    -- the owner is dismissed first, and then the lock may be given back
    rw [partingCalls_eq ho] at h
    obtain ⟨es₁, es₂, rfl, h₁, h₂⟩ := List.map_eq_append_iff.mp h
    have hfirst : t.backend.Signalling t.device es₁ t.backend := by
      refine Backend.signalling_of_silent _ fun e he => ?_
      exact Backend.isSignalling_partingCalls o t.backend t.device _
        (h₁ ▸ List.mem_map_of_mem he)
    refine hfirst.trans ?_
    split at h₂
    · exact Backend.signalling_of_unlockCalls h₂
    · rw [List.map_eq_nil_iff.mp h₂]
      exact .nil _

/-- The end of an owner leaves the backend and the device. -/
theorem backend_without (t : Transport) (i : Nat) :
    (t.without i).backend = t.backend ∧ (t.without i).device = t.device := by
  cases ho : t.owners.toList[i]? with
  | none => rw [without_of_none ho]; exact ⟨rfl, rfl⟩
  | some o => rw [without_eq ho]; exact ⟨rfl, rfl⟩

theorem backend_started (start : Backend.Start) (o : Owner)
    (room : t.owners.toList.length < maxOwners) :
    (t.started start o).backend = start.backend ∧
      (t.started start o).device = t.device := by
  rw [started_eq room]
  exact ⟨rfl, rfl⟩

/-- A move says what the session of the transport allows. -/
theorem Move.signalling (move : Move t ls es t') :
    t.backend.Signalling t.device es t'.backend := by
  cases move with
  | @joined _ _ name access call id watch es start admitted spec _ =>
    rw [(backend_started start _ (room_of_admission admitted)).1]
    exact .other rfl spec.signalling
  | @turnedAway _ _ name access call id watch es es' start admitted spec _ parting =>
    -- the owner goes with the session that the start has stored
    obtain ⟨hbackend, hdevice⟩ := backend_started start
      (.fresh id name access watch call start.request) (room_of_admission admitted)
    have hparting := parting_signalling parting
    rw [hbackend, hdevice] at hparting
    rw [(backend_without _ _).1, hbackend]
    exact .other rfl (spec.signalling.trans hparting)
  | narrowed _ _ _ | departed _ | settled _ | scheduled _ _ => exact .nil _
  | ended _ parting =>
    rw [(backend_without _ _).1]
    exact parting_signalling parting
  | installed install =>
    rw [(install_announced install).eq]
    exact Backend.signalling_of_plain _ (install_plain install)
  | delivered _ reply => exact Backend.signalling_of_plain _ (delivered_plain reply)
  | delayed report =>
    rw [(reportDelay_announced report).eq]
    exact Backend.signalling_of_plain _ (reportDelay_plain report)
  | asked query =>
    refine Backend.signalling_of_plain _ fun e he => ?_
    rw [List.mem_singleton.mp he]
    exact Call.isPlain_of_isQuery query

/-- Moves in a row say what the session of the transport allows at each moment. -/
theorem Course.signalling (course : Course t ls es t') :
    t.backend.Signalling t.device es t'.backend := by
  induction course with
  | nil => exact .nil _
  | cons move _ _ ih =>
    rw [device_eq_of_terms move.terms_eq] at ih
    exact move.signalling.trans ih

end Transport

end AudioBroker
