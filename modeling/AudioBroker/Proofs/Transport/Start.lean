import AudioBroker.Proofs.Transport.Outcome

/-!
# What a start comes to

A start has up to three steps, each of which the peers can refuse: the session, the
stream lock, and the start itself.

- `Backend.Opened`, `Backend.LockAsked`, `Backend.StartAsked`: one step, with what
  is said in it.
- `Backend.StartSpec`: the whole start; `Backend.start_yields_iff`: this is what a
  start comes to, and all of it can happen.
- `LockKey`, `Backend.lockKey?`: the stream lock that a backend takes.
- `Backend.sessionless`: a backend as it was created.
-/

namespace AudioBroker

open Dialogue

/-- What a stream lock is held on. -/
inductive LockKey where
  /-- A stream endpoint, for a session. -/
  | stream (sep : StreamEndpointId) (session : SessionId)
  /-- The voice channel of a device. -/
  | voice (device : Device) (lock : Access)
  deriving DecidableEq

/-- A call that a start is made of. -/
def Call.isStarting : Call → Bool
  | openSession _ _ | lockStream _ _ | startStream _ _ _ | lockVoice _ _ |
    startVoice _ _ => true
  | _ => false

namespace Backend

/-- The stream lock that a backend takes; an A2DP backend takes none before it has a
session. -/
def lockKey? (b : Backend) (device : Device) : Option LockKey :=
  match b with
  | a2dp sep session => session.map (.stream sep)
  | headset lock _ _ => some (.voice device lock)

/-- The backend without its session, as it was created. -/
def sessionless : Backend → Backend
  | a2dp sep _ => a2dp sep none
  | headset lock imtu omtu => headset lock imtu omtu

@[simp] theorem isA2dp_sessionless (b : Backend) :
    b.sessionless.isA2dp = b.isA2dp := by
  cases b <;> rfl

variable {b b' : Backend} {device : Device} {token : Token} {inUse : Bool}
  {es : List Exchange} {st : Start}

/-! ### The steps of a start -/

/-- `Opened device b es b'`: a backend that has what it needs goes on as it is, and
an A2DP backend without a session is given one. -/
inductive Opened (device : Device) : Backend → List Exchange → Backend → Prop where
  | kept {b : Backend} (ready : (b.lockKey? device).isSome = true) :
      Opened device b [] b
  | opened (sep : StreamEndpointId) (s : SessionId) :
      Opened device (a2dp sep none) [⟨.openSession device.src device.dst, some s⟩]
        (a2dp sep (some s))

/-- The stream lock is asked for, and granted or refused. -/
inductive LockAsked (device : Device) (granted : Bool) :
    Backend → Exchange → Prop where
  | stream (sep : StreamEndpointId) (s : SessionId) :
      LockAsked device granted (a2dp sep (some s)) ⟨.lockStream sep s, granted⟩
  | voice (lock : Access) (imtu omtu : UInt16) :
      LockAsked device granted (headset lock imtu omtu)
        ⟨.lockVoice device lock, granted⟩

/-- The start is asked for, and begun or refused. -/
inductive StartAsked (device : Device) (token : Token) (request : Option RequestId) :
    Backend → Exchange → Prop where
  | stream (sep : StreamEndpointId) (s : SessionId) :
      StartAsked device token request (a2dp sep (some s))
        ⟨.startStream s sep token, request⟩
  | voice (lock : Access) (imtu omtu : UInt16) :
      StartAsked device token request (headset lock imtu omtu)
        ⟨.startVoice device token, request⟩

/-- What a backend with a session comes to: the lock is refused, or it is held and the
start is asked for. -/
theorem startLocked_cases {lock : Dialogue Bool} {start : Dialogue (Option RequestId)}
    (h : (startLocked b inUse lock start).Yields es st) :
    (inUse = false ∧ lock.Yields es false ∧ st = ⟨b, false, none⟩) ∨
      ∃ es₁ es₂ request,
        (inUse = true ∧ es₁ = [] ∨ inUse = false ∧ lock.Yields es₁ true) ∧
        start.Yields es₂ request ∧ es = es₁ ++ es₂ ∧ st = ⟨b, true, request⟩ := by
  obtain ⟨es₁, granted, es', rfl, h₁, h⟩ := yields_bind.mp h
  cases granted with
  | false =>
    obtain ⟨rfl, rfl⟩ := yields_pure.mp h
    cases inUse with
    | false =>
      rw [List.append_nil]
      exact .inl ⟨rfl, h₁, rfl⟩
    | true =>
      -- a lock that is held is not asked for again, so that it cannot be refused
      obtain ⟨-, h₁⟩ := yields_pure.mp h₁
      cases h₁
  | true =>
    obtain ⟨es₂, request, es₃, rfl, h₂, h₃⟩ := yields_bind.mp h
    obtain ⟨rfl, rfl⟩ := yields_pure.mp h₃
    refine .inr ⟨es₁, es₂, request, ?_, h₂, by simp, rfl⟩
    cases inUse with
    | false => exact .inr ⟨rfl, h₁⟩
    | true => exact .inl ⟨rfl, (yields_pure.mp h₁).1⟩

/-! ### The whole start -/

/-- A start is refused its session, or refused the lock, or it comes to be asked for
under the lock. -/
inductive StartSpec (device : Device) (token : Token) (b : Backend) (inUse : Bool) :
    List Exchange → Start → Prop where
  | noSession {sep : StreamEndpointId} (hb : b = a2dp sep none) :
      StartSpec device token b inUse [⟨.openSession device.src device.dst, none⟩]
        ⟨b, inUse, none⟩
  | noLock {opening : List Exchange} {b' : Backend} {e : Exchange}
      (idle : inUse = false)
      (opened : Opened device b opening b') (refused : LockAsked device false b' e) :
      StartSpec device token b inUse (opening ++ [e]) ⟨b', false, none⟩
  | asked {opening locking : List Exchange} {b' : Backend} {e : Exchange}
      {request : Option RequestId} (opened : Opened device b opening b')
      (locked : inUse = true ∧ locking = [] ∨
        inUse = false ∧ ∃ e, LockAsked device true b' e ∧ locking = [e])
      (asked : StartAsked device token request b' e) :
      StartSpec device token b inUse (opening ++ locking ++ [e]) ⟨b', true, request⟩

/-- What is left of a start once the session is there, for a backend whose lock and
start are asked for by one call each. -/
theorem startSpec_of_startLocked {opening : List Exchange} {lock : Dialogue Bool}
    {start : Dialogue (Option RequestId)} (opened : Opened device b opening b')
    (asksLock : ∀ es granted, lock.Yields es granted → ∃ e,
      LockAsked device granted b' e ∧ es = [e])
    (asksStart : ∀ es request, start.Yields es request → ∃ e,
      StartAsked device token request b' e ∧ es = [e])
    (h : (startLocked b' inUse lock start).Yields es st) :
    StartSpec device token b inUse (opening ++ es) st := by
  rcases startLocked_cases h with ⟨hidle, hlock, rfl⟩ |
    ⟨es₁, es₂, request, hlock, hstart, rfl, rfl⟩
  · obtain ⟨e, he, rfl⟩ := asksLock _ _ hlock
    exact .noLock hidle opened he
  · obtain ⟨e, he, rfl⟩ := asksStart _ _ hstart
    rw [← List.append_assoc]
    refine .asked opened ?_ he
    rcases hlock with hheld | ⟨hidle, hlock⟩
    · exact .inl hheld
    · exact .inr ⟨hidle, asksLock _ _ hlock⟩

theorem start_spec (h : (b.start inUse device token).Yields es st) :
    StartSpec device token b inUse es st := by
  cases b with
  | a2dp sep session =>
    obtain ⟨es₁, session', es₂, rfl, h₁, h₂⟩ := yields_bind.mp h
    -- a session that is stored is used again, and otherwise one is opened first
    cases session with
    | some s =>
      obtain ⟨rfl, rfl⟩ := yields_pure.mp h₁
      apply startSpec_of_startLocked (.kept rfl) _ _ h₂
      · intro es granted h
        exact ⟨_, .stream sep s, Call.yields_make.mp h⟩
      · intro es request h
        exact ⟨_, .stream sep s, Call.yields_make.mp h⟩
    | none =>
      obtain rfl := Call.yields_make.mp h₁
      cases session' with
      | none =>
        obtain ⟨rfl, rfl⟩ := yields_pure.mp h₂
        exact .noSession rfl
      | some s =>
        apply startSpec_of_startLocked (.opened sep s) _ _ h₂
        · intro es granted h
          exact ⟨_, .stream sep s, Call.yields_make.mp h⟩
        · intro es request h
          exact ⟨_, .stream sep s, Call.yields_make.mp h⟩
  | headset lock imtu omtu =>
    have hkept :
      Opened device (headset lock imtu omtu) [] (headset lock imtu omtu) := .kept rfl
    apply startSpec_of_startLocked hkept _ _ h
    · intro es granted h
      exact ⟨_, .voice lock imtu omtu, Call.yields_make.mp h⟩
    · intro es request h
      exact ⟨_, .voice lock imtu omtu, Call.yields_make.mp h⟩

/-- Whatever a start can come to, it does come to with some answers of the peers. -/
theorem StartSpec.yields (h : StartSpec device token b inUse es st) :
    (b.start inUse device token).Yields es st := by
  -- with its answers known, a start is computed
  cases h with
  | noSession hb =>
    subst hb
    exact .ask _ (.done _)
  | noLock idle opened refused =>
    subst idle
    cases opened with
    | kept ready => cases refused <;> exact .ask _ (.done _)
    | opened sep s =>
      cases refused
      exact .ask _ (.ask _ (.done _))
  | asked opened locked asked =>
    rcases locked with ⟨rfl, rfl⟩ | ⟨rfl, e, granted, rfl⟩
    · cases opened with
      | kept ready => cases asked <;> exact .ask _ (.done _)
      | opened sep s =>
        cases asked
        exact .ask _ (.ask _ (.done _))
    · cases opened with
      | kept ready =>
        cases granted <;> cases asked <;> exact .ask _ (.ask _ (.done _))
      | opened sep s =>
        cases granted
        cases asked
        exact .ask _ (.ask _ (.ask _ (.done _)))

/-- What a start can come to, from both sides. -/
theorem start_yields_iff : (b.start inUse device token).Yields es st ↔
    StartSpec device token b inUse es st :=
  ⟨start_spec, StartSpec.yields⟩

theorem Opened.isStarting {opening : List Exchange} (h : Opened device b opening b') :
    ∀ e ∈ opening, e.call.isStarting = true := by
  cases h with
  | kept _ => simp
  | opened sep s => simp [Call.isStarting]

theorem LockAsked.isStarting {granted : Bool} {e : Exchange}
    (h : LockAsked device granted b e) :
    e.call.isStarting = true := by
  cases h <;> rfl

theorem StartAsked.isStarting {request : Option RequestId} {e : Exchange}
    (h : StartAsked device token request b e) : e.call.isStarting = true := by
  cases h <;> rfl

/-- A start opens a session, takes a lock and asks for the start, and says nothing
else. -/
theorem StartSpec.isStarting (h : StartSpec device token b inUse es st) :
    ∀ e ∈ es, e.call.isStarting = true := by
  intro e he
  cases h with
  | noSession _ =>
    rw [List.mem_singleton.mp he]
    rfl
  | noLock _ opened refused =>
    rw [List.mem_append, List.mem_singleton] at he
    rcases he with he | rfl
    · exact opened.isStarting e he
    · exact refused.isStarting
  | asked opened locked asked =>
    rw [List.mem_append, List.mem_append, List.mem_singleton] at he
    rcases he with (he | he) | rfl
    · exact opened.isStarting e he
    · rcases locked with ⟨-, rfl⟩ | ⟨-, e', granted, rfl⟩
      · cases he
      · rw [List.mem_singleton.mp he]
        exact granted.isStarting
    · exact asked.isStarting

/-! ### What a start leaves as it is -/

theorem Opened.sessionless_eq {opening : List Exchange}
    (h : Opened device b opening b') :
    b'.sessionless = b.sessionless := by
  cases h <;> rfl

/-- Opening ends with a backend that has what it needs for its lock. -/
theorem Opened.ready {opening : List Exchange} (h : Opened device b opening b') :
    (b'.lockKey? device).isSome = true := by
  cases h with
  | kept ready => exact ready
  | opened sep s => rfl

/-- A backend that has what it needs is not opened again. -/
theorem Opened.eq_of_ready {opening : List Exchange} (h : Opened device b opening b')
    (ready : (b.lockKey? device).isSome = true) : b' = b ∧ opening = [] := by
  cases h with
  | kept _ => exact ⟨rfl, rfl⟩
  | opened sep s => cases ready

/-- A start gives a backend a session at most. -/
theorem StartSpec.sessionless_eq (h : StartSpec device token b inUse es st) :
    st.backend.sessionless = b.sessionless := by
  cases h with
  | noSession _ => rfl
  | noLock _ opened _ => exact opened.sessionless_eq
  | asked opened _ _ => exact opened.sessionless_eq

/-- Where something was begun the lock is held. -/
theorem StartSpec.inUse_of_request (h : StartSpec device token b inUse es st)
    (hr : st.request.isSome = true) : st.inUse = true := by
  cases h with
  | noSession _ => cases hr
  | noLock _ _ _ => cases hr
  | asked _ _ _ => rfl

/-- A held lock is one that the backend can name. -/
theorem StartSpec.ready (h : StartSpec device token b inUse es st)
    (ready : inUse = true → (b.lockKey? device).isSome = true)
    (held : st.inUse = true) :
    (st.backend.lockKey? device).isSome = true := by
  cases h with
  | noSession _ => exact ready held
  | noLock _ _ _ => cases held
  | asked opened _ _ => exact opened.ready

/-- A lock that is held stays held, by the same backend. -/
theorem StartSpec.eq_of_inUse (h : StartSpec device token b true es st)
    (ready : (b.lockKey? device).isSome = true) :
    st.backend = b ∧ st.inUse = true := by
  cases h with
  | noSession _ => exact ⟨rfl, rfl⟩
  | noLock idle _ _ => cases idle
  | asked opened _ _ => exact ⟨(opened.eq_of_ready ready).1, rfl⟩

end Backend

end AudioBroker
