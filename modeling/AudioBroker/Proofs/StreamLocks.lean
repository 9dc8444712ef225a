import AudioBroker.Proofs.Account
import AudioBroker.Proofs.Numbers
import AudioBroker.Proofs.Transport.Tally

/-!
# Stream locks are given back

A transport takes its stream lock for its first owner and gives it back after its
last one. The lock is kept count of by what it is held on, over everything that is
said to the peers.

- `Transport.Engaged`: a transport is in use exactly while it has an owner, and
  knows what its lock is held on.
- `LockKey.account`: the locks that were granted, less those that were given back.
- `Transport.Move.vacated_of_given`: a move that gives a lock back leaves a
  transport without owners.
- `Transport.GivenLast`: the lock is given back after everything else that its last
  owner gives up.
- `Run.stream_locks_balance`: what it comes to in every run.
-/

namespace AudioBroker

open Backend

/-- A stream lock that was asked for and granted. -/
def Exchange.taken? : Exchange → Option LockKey
  | ⟨.lockStream sep session, granted⟩ =>
    if granted then some (.stream sep session) else none
  | ⟨.lockVoice device lock, granted⟩ =>
    if granted then some (.voice device lock) else none
  | _ => none

/-- The stream lock that a call gives back. -/
def Call.given? : Call → Option LockKey
  | .unlockStream sep session => some (.stream sep session)
  | .unlockVoice device lock => some (.voice device lock)
  | _ => none

/-- A call that neither takes nor gives back a stream lock. -/
def Call.isLockless : Call → Bool
  | .lockStream _ _ | .unlockStream _ _ | .lockVoice _ _ | .unlockVoice _ _ => false
  | _ => true

theorem Call.isLockless_of_isNeutral {c : Call} (h : c.isNeutral = true) :
    c.isLockless = true := by
  cases c <;> first | rfl | cases h

/-- The stream lock that a transport holds. -/
def Transport.heldLock? (t : Transport) : Option LockKey :=
  if t.inUse then t.backend.lockKey? t.device else none

/-! ### Counting the locks of one kind -/

namespace LockKey

variable {k : LockKey} {es : List Exchange} {device : Device} {token : Token}
  {b : Backend} {inUse : Bool} {st : Start}

/-- One if it is this lock, zero if it is another one or none. -/
def count (k : LockKey) (l : Option LockKey) : Int := (decide (l = some k)).toNat

@[simp] theorem count_none : k.count none = 0 := rfl

/-- The locks that are held, as they are taken and given back. -/
def account (k : LockKey) : Account where
  held t := k.count t.heldLock?
  said e := k.count e.taken? - k.count e.call.given?
  befell
    | .displaced t => -k.count t.heldLock?
    | _ => 0

theorem said_lockless {e : Exchange} (h : e.call.isLockless = true) :
    k.account.said e = 0 := by
  obtain ⟨c, answer⟩ := e
  cases c <;> first | rfl | cases h

/-- Exchanges that are not about locks leave the account as it is. -/
theorem saids_lockless (h : ∀ e ∈ es, e.call.isLockless = true) :
    k.account.saids es = 0 :=
  Account.saids_eq_zero fun e he => said_lockless (h e he)

theorem saids_of_calls {cs : List Call} (h : es.map Exchange.call = cs)
    (hcs : ∀ c ∈ cs, c.isLockless = true) : k.account.saids es = 0 :=
  saids_lockless fun _ he => hcs _ (h ▸ List.mem_map_of_mem he)

/-! ### What a start takes -/

theorem saids_opened {b' : Backend} (h : Opened device b es b') :
    k.account.saids es = 0 := by
  cases h <;> rfl

/-- A lock that is asked for counts if it is granted. -/
theorem said_lockAsked {granted : Bool} {e : Exchange}
    (h : LockAsked device granted b e) :
    k.account.said e = k.count (if granted then b.lockKey? device else none) := by
  cases h <;> cases granted <;> simp [account, Exchange.taken?, Call.given?, lockKey?]

theorem said_startAsked {request : Option RequestId} {e : Exchange}
    (h : StartAsked device token request b e) : k.account.said e = 0 := by
  cases h <;> rfl

/-- A start takes the lock that its transport did not hold before and holds
afterwards. -/
theorem saids_start (h : StartSpec device token b inUse es st)
    (keyed : inUse = true → (b.lockKey? device).isSome = true) :
    k.account.saids es = k.count
      (if st.inUse then st.backend.lockKey? device else none) -
      k.count (if inUse then b.lockKey? device else none) := by
  cases h with
  | noSession hb =>
    have hrefused : k.account.said ⟨.openSession device.src device.dst, none⟩ = 0 :=
      said_lockless rfl
    simp [hrefused]
  | noLock idle opened refused =>
    have hopening : k.account.saids _ = 0 := saids_opened opened
    have hlock : k.account.said _ = _ := said_lockAsked refused
    simp [hopening, hlock, idle]
  | @asked opening locking b' e request opened locked asked =>
    have hopening : k.account.saids opening = 0 := saids_opened opened
    have hstart : k.account.said e = 0 := said_startAsked asked
    -- the lock was held before, or it is taken now
    rcases locked with ⟨held, rfl⟩ | ⟨idle, e', granted, rfl⟩
    · obtain ⟨rfl, -⟩ := opened.eq_of_ready (keyed held)
      simp [hopening, hstart, held]
    · have hlock : k.account.said e' = _ := said_lockAsked granted
      simp [hopening, hstart, hlock, idle]

end LockKey

namespace Transport

variable {t t' : Transport} {k : LockKey} {ls : List Incident} {es : List Exchange}
  {i : Nat} {o : Owner}

/-! ### What the end of an owner gives back -/

/-- An owner that ends gives back its watch and its request, and no lock. -/
theorem partingCalls_lockless (o : Owner) (b : Backend) (device : Device) :
    ∀ c ∈ o.partingCalls b device, c.isLockless = true := by
  have habort : ∀ request, (b.abortCall device request).isLockless = true := by
    intro request
    cases b <;> rfl
  exact o.forall_partingCalls (P := fun c => c.isLockless = true) b device
    (fun _ => rfl) habort fun _ => rfl

/-- Giving the lock back counts for what it is held on. -/
theorem saids_unlock {b : Backend} {inUse : Bool} {device : Device}
    (h : es.map Exchange.call = b.unlockCalls inUse device) :
    k.account.saids es = -k.count (if inUse then b.lockKey? device else none) := by
  -- nothing is said by a backend without a lock, or one that is not in use
  have hnone : ∀ es : List Exchange, es.map Exchange.call = [] →
      k.account.saids es = 0 := by
    intro es hes
    rw [List.map_eq_nil_iff.mp hes, Account.saids_nil]
  cases inUse with
  | false => cases b with
    | a2dp sep session => cases session <;> exact hnone es h
    | headset lock imtu omtu => exact hnone es h
  | true => cases b with
    | a2dp sep session => cases session with
      | none => exact hnone es h
      | some s =>
        obtain ⟨⟨c, answer⟩, rfl, rfl⟩ := List.map_eq_singleton_iff.mp h
        simp [LockKey.account, Exchange.taken?, Call.given?, lockKey?]
    | headset lock imtu omtu =>
      obtain ⟨⟨c, answer⟩, rfl, rfl⟩ := List.map_eq_singleton_iff.mp h
      simp [LockKey.account, Exchange.taken?, Call.given?, lockKey?]

/-- The lock is held on until the last owner ends. -/
theorem heldLock?_without (ho : t.owners.toList[i]? = some o) :
    (t.without i).heldLock? = if (t.owners.eraseIdx i).isEmpty then none
      else t.heldLock? := by
  rw [without_eq ho]
  cases (t.owners.eraseIdx i).isEmpty <;> simp [heldLock?]

/-- The end of an owner gives back the lock that its transport then no longer
holds. -/
theorem saids_parting (ho : t.owners.toList[i]? = some o)
    (h : es.map Exchange.call = t.partingCalls i) :
    k.account.saids es = k.count (t.without i).heldLock? - k.count t.heldLock? := by
  rw [partingCalls_eq ho] at h
  obtain ⟨es₁, es₂, rfl, h₁, h₂⟩ := List.map_eq_append_iff.mp h
  have howner : k.account.saids es₁ = 0 :=
    LockKey.saids_of_calls h₁ (partingCalls_lockless o t.backend t.device)
  rw [Account.saids_append, howner, heldLock?_without ho]
  cases hempty : (t.owners.eraseIdx i).isEmpty with
  | false =>
    rw [hempty] at h₂
    rw [List.map_eq_nil_iff.mp h₂]
    simp
  | true =>
    rw [hempty] at h₂
    rw [saids_unlock h₂, heldLock?]
    simp

/-! ### A transport is in use while it has an owner -/

/-- A transport is in use exactly while it has an owner, and while it is in use its
backend knows what the stream lock is held on. -/
structure Engaged (t : Transport) : Prop where
  inUse_iff : t.inUse = true ↔ t.owners.toList ≠ []
  /-- An A2DP transport in use has a session to hold its lock for. -/
  keyed : t.inUse = true → (t.backend.lockKey? t.device).isSome = true

/-- It only matters how many owners there are, and what the transport is used
through. -/
theorem Engaged.of_owners (h : t.Engaged)
    (hlen : t'.owners.toList.length = t.owners.toList.length)
    (hinUse : t'.inUse = t.inUse) (hbackend : t'.backend = t.backend)
    (hdevice : t'.device = t.device) :
    t'.Engaged := by
  constructor
  · rw [hinUse, h.inUse_iff, ← List.length_pos_iff, ← List.length_pos_iff, hlen]
  · rw [hinUse, hbackend, hdevice]
    exact h.keyed

theorem Engaged.announced (h : t.Engaged) (announced : t.Announced es t') :
    t'.Engaged := by
  rw [announced.eq]
  exact h.of_owners rfl rfl rfl rfl

theorem Engaged.modifyOwner (h : t.Engaged) (i : Nat) (f : Owner → Owner) :
    (t.modifyOwner i f).Engaged :=
  h.of_owners (by simp) rfl rfl rfl

/-- The last owner takes the transport out of use. -/
theorem Engaged.without (h : t.Engaged) (ho : t.owners.toList[i]? = some o) :
    (t.without i).Engaged := by
  rw [without_eq ho]
  constructor
  · have hlast : t.owners.toList.eraseIdx i ≠ [] → t.inUse = true := by
      intro hrest
      rw [h.inUse_iff]
      intro hnil
      rw [hnil] at hrest
      exact hrest List.eraseIdx_nil
    simpa using hlast
  · intro hin
    simp only [Bool.and_eq_true] at hin
    exact h.keyed hin.1

/-- An owner is taken on by a start that took the lock. -/
theorem Engaged.started {start : Start} {token : Token} (h : t.Engaged)
    (room : t.owners.toList.length < maxOwners)
    (spec : StartSpec t.device token t.backend t.inUse es start)
    (begun : start.request.isSome = true) : (t.started start o).Engaged := by
  have hin := spec.inUse_of_request begun
  rw [started_eq room]
  constructor
  · simp [hin]
  · intro _
    exact spec.ready h.keyed hin

/-- What a start that did not begin leaves behind, once its owner is torn down. -/
theorem Engaged.turnedAway {start : Start} {token : Token} (h : t.Engaged)
    (spec : StartSpec t.device token t.backend t.inUse es start) :
    { t with backend := start.backend,
             inUse := start.inUse && !t.owners.isEmpty }.Engaged := by
  constructor
  · -- a start for one more owner leaves the lock held
    have hkept : t.owners.toList ≠ [] → start.inUse = true := by
      intro howners
      have hin := h.inUse_iff.mpr howners
      rw [hin] at spec
      exact (spec.eq_of_inUse (h.keyed hin)).2
    simpa using hkept
  · intro hin
    simp only [Bool.and_eq_true] at hin
    exact spec.ready h.keyed hin.1

/-- Every move leaves an engaged transport engaged. -/
theorem Move.engaged (h : t.Engaged) (move : Move t ls es t') : t'.Engaged := by
  cases move with
  | joined admitted spec begun =>
    exact h.started (room_of_admission admitted) spec begun
  | turnedAway admitted spec _ _ =>
    obtain ⟨-, -, hfree, -, room⟩ := admission_eq_ok admitted
    rw [started_without room hfree]
    exact h.turnedAway spec
  | narrowed _ _ _ => exact h.of_owners (by simp [narrow]) rfl rfl rfl
  | ended ho _ => exact h.without ho
  | departed _ | settled _ | delivered _ _ | scheduled _ _ => exact h.modifyOwner _ _
  | installed install => exact h.announced (install_announced install)
  | delayed report => exact h.announced (reportDelay_announced report)
  | asked _ => exact h

theorem engaged_of_create {id : TransportId} {endpoint : Endpoint} {device : Device}
    {configuration : List UInt8} {options : Options}
    (h : Transport.create id endpoint device configuration options = .ok t) :
    t.Engaged := by
  obtain ⟨-, -, -, -, -, -, -, -, -, hin, -⟩ := create_eq_ok h
  constructor
  · simp [hin, owners_of_create h]
  · simp [hin]

/-! ### The locks add up -/

theorem heldLock?_started {start : Start}
    (room : t.owners.toList.length < maxOwners) :
    (t.started start o).heldLock? =
      if start.inUse then start.backend.lockKey? t.device else none := by
  rw [started_eq room, heldLock?]

/-- A move that has nothing to do with the lock. -/
theorem held_lock_of_eq (hheld : t'.heldLock? = t.heldLock?)
    (hsaid : k.account.saids es = 0) (hbefell : k.account.befalls ls = 0) :
    k.account.held t' = k.account.held t + k.account.saids es +
      k.account.befalls ls := by
  have hsame : k.account.held t' = k.account.held t := congrArg k.count hheld
  omega

theorem Announced.held_lock (announced : t.Announced es t') :
    k.account.held t' = k.account.held t + k.account.saids es +
      k.account.befalls [] := by
  have hsaid : k.account.saids es = 0 := LockKey.saids_lockless fun e he =>
    Call.isLockless_of_isNeutral (announced.neutral e he)
  refine held_lock_of_eq ?_ hsaid rfl
  rw [announced.eq]
  rfl

/-- Every move takes and gives back what its transport holds more or less
afterwards. -/
theorem Move.held_lock (h : t.Engaged) (move : Move t ls es t') :
    k.account.held t' = k.account.held t + k.account.saids es +
      k.account.befalls ls := by
  have hwatch : ∀ name token watch, k.account.said ⟨.watch name token, watch⟩ = 0 :=
    fun _ _ _ => LockKey.said_lockless rfl
  have hadmitted : ∀ call, k.account.befalls [.admitted call] = 0 := fun _ => rfl
  cases move with
  | @joined _ _ name access call id watch es start admitted spec _ =>
    have hroom := room_of_admission admitted
    have hstart : k.account.saids es = _ - k.count t.heldLock? :=
      LockKey.saids_start spec h.keyed
    show k.count _ = k.count _ + _ + _
    rw [heldLock?_started hroom, Account.saids_cons, hwatch, hstart, hadmitted]
    omega
  | @turnedAway _ _ name access call id watch es es' start admitted spec _ parting =>
    -- what the start took, the end of the owner gives back
    have hroom := room_of_admission admitted
    have hstart : k.account.saids es = _ - k.count t.heldLock? :=
      LockKey.saids_start spec h.keyed
    have hparting : k.account.saids es' = _ :=
      saids_parting (started_last hroom) parting
    rw [heldLock?_started hroom] at hparting
    show k.count _ = k.count _ + _ + _
    rw [Account.saids_cons, Account.saids_append, hwatch, hstart, hparting, hadmitted]
    omega
  | ended ho parting =>
    have hparting : k.account.saids es = _ := saids_parting ho parting
    show k.count _ = k.count _ + _ + 0
    omega
  | narrowed _ _ _ | settled _ | scheduled _ _ | departed _ =>
    exact held_lock_of_eq rfl rfl rfl
  | installed install => exact (install_announced install).held_lock
  | delivered _ reply =>
    refine held_lock_of_eq rfl (LockKey.saids_of_calls reply ?_) rfl
    intro c hc
    obtain ⟨call, -, rfl⟩ := List.mem_map.mp hc
    rfl
  | delayed report => exact (reportDelay_announced report).held_lock
  | asked query =>
    refine held_lock_of_eq rfl (LockKey.saids_lockless ?_) rfl
    intro e he
    rw [List.mem_singleton.mp he]
    exact Call.isLockless_of_isNeutral (Call.isNeutral_of_isQuery query)

/-- The account of a lock is kept by engaged transports: what they hold goes up and
down with what is said. -/
theorem lock_account_kept (k : LockKey) : k.account.Kept Engaged where
  neutral _ h := LockKey.said_lockless (Call.isLockless_of_isNeutral h)
  answered _ _ _ := rfl
  displaced _ := rfl
  vacant t h hvacant := by
    have hidle : t.inUse = false := by
      rw [← Bool.not_eq_true, h.inUse_iff]
      exact fun hne => hne hvacant
    show k.count t.heldLock? = 0
    rw [heldLock?, hidle]
    rfl
  create _ _ _ _ _ _ h := engaged_of_create h
  move _ _ _ _ h m := m.engaged h
  moved _ _ _ _ h m := m.held_lock h

/-! ### A lock is given back by the last owner -/

/-- A transport without owners, whose lock is held on `k` when it is held. -/
def Vacated (t : Transport) (k : LockKey) : Prop :=
  t.owners.toList = [] ∧ t.backend.lockKey? t.device = some k

theorem not_given_of_lockless {c : Call} (h : c.isLockless = true) :
    c.given? ≠ some k := by
  cases c <;> simp [Call.isLockless, Call.given?] at *

/-- A lock is given back under the name that the backend has for it. -/
theorem lockKey?_of_given {c : Call} {b : Backend} {inUse : Bool} {device : Device}
    (hc : c ∈ b.unlockCalls inUse device) (hk : c.given? = some k) :
    b.lockKey? device = some k := by
  cases inUse with
  | false => cases b with
    | a2dp sep session => cases session <;> cases hc
    | headset lock imtu omtu => cases hc
  | true => cases b with
    | a2dp sep session => cases session with
      | none => cases hc
      | some s =>
        rw [List.mem_singleton.mp hc] at hk
        exact hk
    | headset lock imtu omtu =>
      rw [List.mem_singleton.mp hc] at hk
      exact hk

/-- Giving the lock back is part of the end of an owner only when nobody is left. -/
theorem vacated_of_parting {e : Exchange} (ho : t.owners.toList[i]? = some o)
    (h : es.map Exchange.call = t.partingCalls i) (he : e ∈ es)
    (hk : e.call.given? = some k) :
    (t.without i).Vacated k := by
  have hcall : e.call ∈ t.partingCalls i := h ▸ List.mem_map_of_mem he
  rw [partingCalls_eq ho] at hcall
  rcases List.mem_append.mp hcall with hcall | hcall
  · exact absurd hk (not_given_of_lockless
      (partingCalls_lockless o t.backend t.device _ hcall))
  · split at hcall
    · next hempty =>
      rw [without_eq ho]
      exact ⟨by simpa using hempty, lockKey?_of_given hcall hk⟩
    · cases hcall

theorem not_given_of_isStarting {c : Call} (h : c.isStarting = true) :
    c.given? ≠ some k := by
  cases c <;> simp [Call.isStarting, Call.given?] at *

/-- A move that gives a lock back ends with the end of an owner, and gives none back
before. -/
theorem Move.parting_of_given {e : Exchange} (move : Move t ls es t') (he : e ∈ es)
    (hk : e.call.given? = some k) :
    ∃ (u : Transport) (i : Nat) (o : Owner) (before parting : List Exchange),
      u.terms = t.terms ∧ u.owners.toList[i]? = some o ∧ t' = u.without i ∧
      es = before ++ parting ∧ (∀ e ∈ before, e.call.given? ≠ some k) ∧
      parting.map Exchange.call = u.partingCalls i := by
  have hnever : ∀ {P : Prop}, (∀ e ∈ es, e.call.given? ≠ some k) → P := fun hall =>
    absurd hk (hall e he)
  have hneutral : ∀ {P : Prop}, (∀ e ∈ es, e.call.isNeutral = true) → P := fun hall =>
    hnever fun e he => not_given_of_lockless
      (Call.isLockless_of_isNeutral (hall e he))
  cases move with
  | joined _ spec _ =>
    apply hnever
    intro e he
    rcases List.mem_cons.mp he with rfl | he
    · exact fun h => nomatch h
    · exact not_given_of_isStarting (spec.isStarting _ he)
  | turnedAway admitted spec _ parting =>
    refine ⟨_, _, _, _ :: _, _, terms_started _ spec.sessionless_eq,
      started_last (room_of_admission admitted), rfl, rfl, ?_, parting⟩
    intro e he
    rcases List.mem_cons.mp he with rfl | he
    · exact fun h => nomatch h
    · exact not_given_of_isStarting (spec.isStarting _ he)
  | @ended i o _ ho parting =>
    exact ⟨t, i, o, [], es, rfl, ho, rfl, rfl, List.forall_mem_nil _, parting⟩
  | narrowed _ _ _ | settled _ | scheduled _ _ | departed _ => cases he
  | installed install => exact hneutral (install_announced install).neutral
  | delivered _ reply =>
    -- what is said is an answer
    have hcall := List.mem_map_of_mem (f := Exchange.call) he
    rw [reply] at hcall
    obtain ⟨call, -, hcall⟩ := List.mem_map.mp hcall
    rw [← hcall] at hk
    cases hk
  | delayed report => exact hneutral (reportDelay_announced report).neutral
  | asked query =>
    apply hneutral
    intro e he
    rw [List.mem_singleton.mp he]
    exact Call.isNeutral_of_isQuery query

/-- A move gives a lock back only when it leaves its transport without owners. -/
theorem Move.vacated_of_given {e : Exchange} (move : Move t ls es t') (he : e ∈ es)
    (hk : e.call.given? = some k) : t'.Vacated k := by
  obtain ⟨u, i, o, before, parting, -, ho, rfl, rfl, hbefore, hparting⟩ :=
    move.parting_of_given he hk
  rcases List.mem_append.mp he with he | he
  · exact absurd hk (hbefore e he)
  · exact vacated_of_parting ho hparting he hk

/-- Unless somebody is admitted, nobody becomes an owner of a transport without
owners. -/
theorem Move.vacant_of_calm (move : Move t ls es t') (calm : Calm ls)
    (hvacant : t.owners.toList = []) :
    t'.owners.toList = [] ∧ t'.backend = t.backend := by
  -- most moves are about an owner that is there
  have hnone : ∀ {i : Nat} {o : Owner}, t.owners.toList[i]? ≠ some o := by
    intro i o
    rw [hvacant]
    simp
  cases move with
  | joined _ _ _ | turnedAway _ _ _ _ => exact absurd List.mem_cons_self (calm _)
  | narrowed ho _ _ | ended ho _ | departed ho | settled ho | delivered ho _
  | scheduled ho _ =>
    exact absurd ho hnone
  | installed install =>
    rw [(install_announced install).eq]
    exact ⟨hvacant, rfl⟩
  | delayed report =>
    rw [(reportDelay_announced report).eq]
    exact ⟨hvacant, rfl⟩
  | asked _ => exact ⟨hvacant, rfl⟩

/-- Nobody becomes an owner in a calm course, either. -/
theorem Course.vacant_of_calm (course : Course t ls es t') (calm : Calm ls)
    (hvacant : t.owners.toList = []) :
    t'.owners.toList = [] ∧ t'.backend = t.backend := by
  induction course with
  | nil => exact ⟨hvacant, rfl⟩
  | cons move _ _ ih =>
    obtain ⟨hhead, hrest⟩ := calm_append.mp calm
    obtain ⟨hvacant₁, hbackend₁⟩ := move.vacant_of_calm hhead hvacant
    obtain ⟨hvacant', hbackend'⟩ := ih hrest hvacant₁
    exact ⟨hvacant', hbackend'.trans hbackend₁⟩

theorem Course.vacated_of_given {e : Exchange} (course : Course t ls es t')
    (he : e ∈ es) (hk : e.call.given? = some k) : t'.Vacated k := by
  induction course with
  | nil => cases he
  | cons move rest calm ih =>
    rcases List.mem_append.mp he with he | he
    · -- nobody comes back in the moves after the one that gave the lock back
      obtain ⟨hvacant, hkey⟩ := move.vacated_of_given he hk
      obtain ⟨hvacant', hbackend⟩ := rest.vacant_of_calm calm hvacant
      refine ⟨hvacant', ?_⟩
      rw [hbackend, device_eq_of_terms rest.terms_eq, hkey]
    · exact ih he

/-! ### Giving the lock back is the last thing -/

/-- Where the lock on `k` is given back, the calls up to there are those at the end
of the only owner of a transport that `P` allows, and giving the lock back is the
last of them. -/
def GivenLast (P : Terms → Prop) (k : LockKey) (es : List Exchange) : Prop :=
  ∀ pre e post, es = pre ++ e :: post → e.call.given? = some k →
    ∃ (t : Transport) (o : Owner) (parting : List Exchange),
      P t.terms ∧ t.owners.toList = [o] ∧
      parting <:+ pre ∧ parting.map Exchange.call ++ [e.call] = t.partingCalls 0

variable {P Q : Terms → Prop} {es' : List Exchange}

theorem givenLast_of_none (h : ∀ e ∈ es, e.call.given? ≠ some k) :
    GivenLast P k es := by
  rintro pre e post rfl hk
  exact absurd hk (h e (by simp))

theorem givenLast_singleton {e : Exchange} (h : e.call.given? ≠ some k) :
    GivenLast P k [e] :=
  givenLast_of_none fun e' he => by rwa [List.mem_singleton.mp he]

theorem GivenLast.mono (h : GivenLast P k es) (sub : ∀ terms, P terms → Q terms) :
    GivenLast Q k es := by
  intro pre e post hsaid hk
  obtain ⟨t, o, parting, hP, hrest⟩ := h pre e post hsaid hk
  exact ⟨t, o, parting, sub _ hP, hrest⟩

/-- What was said before does not matter, as only the last calls are looked at. -/
theorem GivenLast.append (h : GivenLast P k es) (h' : GivenLast P k es') :
    GivenLast P k (es ++ es') := by
  intro pre e post hsaid hk
  rcases List.append_eq_append_iff.mp hsaid with ⟨mid, rfl, hmid⟩ | ⟨mid, rfl, hmid⟩
  · -- it is given back in the second part
    obtain ⟨t, o, parting, hP, howners, hsuffix, hcalls⟩ := h' mid e post hmid hk
    exact ⟨t, o, parting, hP, howners, hsuffix.trans (List.suffix_append _ _), hcalls⟩
  · cases mid with
    | nil =>
      obtain ⟨t, o, parting, hP, howners, hsuffix, hcalls⟩ :=
        h' [] e post hmid.symm hk
      exact ⟨t, o, parting, hP, howners, hsuffix.trans (List.nil_suffix), hcalls⟩
    | cons e' mid =>
      obtain ⟨rfl, -⟩ := List.cons.inj hmid
      exact h pre e mid rfl hk

/-- A backend has one lock at most to give back. -/
theorem length_unlockCalls_le (b : Backend) (inUse : Bool) (device : Device) :
    (b.unlockCalls inUse device).length ≤ 1 := by
  unfold unlockCalls
  split <;> simp

/-- Where at most one item follows `zs`, an item that is not in `zs` is the last
one. -/
theorem eq_singleton_of_append_eq {α : Type} {xs ys zs ws : List α} {x : α}
    (h : xs ++ x :: ys = zs ++ ws) (hnot : x ∉ zs) (hle : ws.length ≤ 1) :
    ys = [] ∧ ws = [x] := by
  obtain ⟨vs, rfl⟩ : ∃ vs, ws = vs ++ x :: ys := by
    rcases List.append_eq_append_iff.mp h with ⟨vs, rfl, hrest⟩ | ⟨vs, -, hrest⟩
    · cases vs with
      | nil => exact ⟨[], hrest.symm⟩
      | cons y vs =>
        obtain ⟨rfl, -⟩ := List.cons.inj hrest
        exact absurd (by simp) hnot
    · exact ⟨vs, hrest⟩
  rw [List.length_append, List.length_cons] at hle
  obtain rfl := List.length_eq_zero_iff.mp (show vs.length = 0 by omega)
  obtain rfl := List.length_eq_zero_iff.mp (show ys.length = 0 by omega)
  exact ⟨rfl, rfl⟩

/-- At the end of an owner the lock is given back last, and only if it was the only
owner. -/
theorem givenLast_parting (ho : t.owners.toList[i]? = some o)
    (h : es.map Exchange.call = t.partingCalls i) : GivenLast (· = t.terms) k es := by
  rintro pre e post rfl hk
  have hcalls := h
  rw [partingCalls_eq ho, List.map_append, List.map_cons] at hcalls
  -- the calls that end the owner itself give nothing back
  have hnot : e.call ∉ o.partingCalls t.backend t.device := fun hmem =>
    not_given_of_lockless (partingCalls_lockless o t.backend t.device _ hmem) hk
  split at hcalls
  · next hempty =>
    obtain ⟨hpost, -⟩ := eq_singleton_of_append_eq hcalls hnot
      (length_unlockCalls_le _ _ _)
    rw [List.map_eq_nil_iff.mp hpost, List.map_append] at h
    obtain ⟨before, after, howners, rfl, herase, -⟩ := BoundedList.exists_around ho
    obtain ⟨rfl, rfl⟩ : before = [] ∧ after = [] := by
      simpa [herase] using hempty
    exact ⟨t, o, pre, rfl, howners, List.suffix_refl _, h⟩
  · obtain ⟨-, hnone⟩ := eq_singleton_of_append_eq hcalls hnot (Nat.zero_le _)
    cases hnone

/-- A move that gives the lock back gives it back last. -/
theorem Move.givenLast (move : Move t ls es t') : GivenLast (· = t.terms) k es := by
  by_cases hgiven : ∃ e ∈ es, e.call.given? = some k
  · obtain ⟨e, he, hk⟩ := hgiven
    obtain ⟨u, i, o, before, parting, hterms, ho, -, rfl, hbefore, hparting⟩ :=
      move.parting_of_given he hk
    exact (givenLast_of_none hbefore).append (hterms ▸ givenLast_parting ho hparting)
  · exact givenLast_of_none fun e he hk => hgiven ⟨e, he, hk⟩

theorem Course.givenLast (course : Course t ls es t') :
    GivenLast (· = t.terms) k es := by
  induction course with
  | nil => exact givenLast_of_none (List.forall_mem_nil _)
  | cons move _ _ ih => exact move.givenLast.append (move.terms_eq ▸ ih)

end Transport

namespace Registry

variable {r r' : Registry} {k : LockKey} {ls : List Incident} {es : List Exchange}
  {id : TransportId}

/-- Unless somebody is admitted, a transport without owners stays without them, and so
does its number. -/
theorem Effect.vacant_of_calm (effect : r.Effect ls es r') (calm : Calm ls)
    (hr : ∀ u ∈ r.toList, u.id = id → u.owners.toList = []) :
    ∀ u ∈ r'.toList, u.id = id → u.owners.toList = [] := by
  induction effect with
  | still | asked _ | answered _ _ _ => exact hr
  | moved live course =>
    intro u hu hid
    rcases mem_replace hu with rfl | hu
    · have hvacant := hr _ (get?_eq_some live).1 (course.id_eq.symm.trans hid)
      exact (course.vacant_of_calm calm hvacant).1
    · exact hr u hu hid
  | closed _ _ _ _ => exact fun u hu hid => hr u (List.mem_filter.mp hu).1 hid
  | seq _ _ _ ih₁ ih₂ =>
    obtain ⟨hfirst, hnext⟩ := calm_append.mp calm
    exact ih₂ hnext (ih₁ hfirst hr)

/-- A lock is given back for a transport that was live, and is without owners
afterwards or gone. -/
theorem Effect.vacated_of_given {e : Exchange} (effect : r.Effect ls es r')
    (he : e ∈ es) (hk : e.call.given? = some k) :
    ∃ t : Transport, t.Vacated k ∧ (∃ u ∈ r.toList, t.terms = u.terms) ∧
      ∀ u ∈ r'.toList, u.id = t.id → u.owners.toList = [] := by
  induction effect with
  | still => cases he
  | asked queries =>
    have hneutral := Call.isNeutral_of_isQuery (queries e he)
    exact absurd hk (Transport.not_given_of_lockless
      (Call.isLockless_of_isNeutral hneutral))
  | answered call reply delivery =>
    rw [List.mem_singleton.mp he] at hk
    cases hk
  | @moved r t t' _ _ live course =>
    have hvacated := course.vacated_of_given he hk
    refine ⟨t', hvacated, ⟨t, (get?_eq_some live).1, course.terms_eq⟩, ?_⟩
    intro u hu hid
    rw [eq_of_mem_replace hu hid]
    exact hvacated.1
  | @closed r t t' es es' live course vacant closing =>
    -- only the owners that are torn down can give a lock back
    have hvacated : t'.Vacated k := by
      rcases List.mem_cons.mp he with rfl | he
      · cases hk
      · rcases List.mem_append.mp he with he | he
        · exact course.vacated_of_given he hk
        · have hneutral := Transport.neutral_of_closing closing e he
          exact absurd hk (Transport.not_given_of_lockless
            (Call.isLockless_of_isNeutral hneutral))
    refine ⟨t', hvacated, ⟨t, (get?_eq_some live).1, course.terms_eq⟩, ?_⟩
    intro u hu hid
    -- no transport with its number is left
    have hgone := (List.mem_filter.mp hu).2
    rw [hid, course.id_eq] at hgone
    simp at hgone
  | seq first next calm ih₁ ih₂ =>
    rcases List.mem_append.mp he with he | he
    · obtain ⟨t, hvacated, hlive, hgone⟩ := ih₁ he
      exact ⟨t, hvacated, hlive, next.vacant_of_calm calm hgone⟩
    · -- the transport was live before the first effect, too
      obtain ⟨t, hvacated, ⟨u, hu, hterms⟩, hgone⟩ := ih₂ he
      obtain ⟨u₀, hu₀, hterms₀⟩ := first.lineage u hu
      exact ⟨t, hvacated, ⟨u₀, hu₀, hterms.trans hterms₀⟩, hgone⟩

/-- The same for every operation, since creating a transport gives no lock back. -/
theorem Outcome.vacated_of_given {e : Exchange} (outcome : r.Outcome ls es r')
    (he : e ∈ es) (hk : e.call.given? = some k) :
    ∃ t : Transport, t.Vacated k ∧ (∃ u ∈ r.toList, t.terms = u.terms) ∧
      ∀ u ∈ r'.toList, u.id = t.id → u.owners.toList = [] := by
  cases outcome with
  | effect effect => exact effect.vacated_of_given he hk
  | refused path | opened created insert =>
    rw [List.mem_singleton.mp he] at hk
    cases hk

/-- Whatever is done to the live transports, a lock is given back last, at the end
of the only owner of one of them. -/
theorem Effect.givenLast (effect : r.Effect ls es r') :
    Transport.GivenLast (fun terms => ∃ u ∈ r.toList, terms = u.terms) k es := by
  induction effect with
  | still => exact Transport.givenLast_of_none (List.forall_mem_nil _)
  | asked queries =>
    refine Transport.givenLast_of_none fun e he => Transport.not_given_of_lockless ?_
    exact Call.isLockless_of_isNeutral (Call.isNeutral_of_isQuery (queries e he))
  | answered call reply delivery =>
    exact Transport.givenLast_singleton fun h => nomatch h
  | moved live course =>
    refine course.givenLast.mono ?_
    rintro terms rfl
    exact ⟨_, (get?_eq_some live).1, rfl⟩
  | @closed r t t' es es' live course vacant closing =>
    have hcourse :
        Transport.GivenLast (fun terms => ∃ u ∈ r.toList, terms = u.terms) k es := by
      refine course.givenLast.mono ?_
      rintro terms rfl
      exact ⟨t, (get?_eq_some live).1, rfl⟩
    have hclosing :
        Transport.GivenLast (fun terms => ∃ u ∈ r.toList, terms = u.terms) k es' :=
      Transport.givenLast_of_none fun e he => Transport.not_given_of_lockless
        (Call.isLockless_of_isNeutral (Transport.neutral_of_closing closing e he))
    have hunregister :
        Transport.GivenLast (fun terms => ∃ u ∈ r.toList, terms = u.terms) k
        [⟨.unregister t.path, ()⟩] := Transport.givenLast_singleton fun h => nomatch h
    exact hunregister.append (hcourse.append hclosing)
  | seq first _ _ ih₁ ih₂ =>
    refine ih₁.append (ih₂.mono ?_)
    rintro terms ⟨u, hu, rfl⟩
    -- what is live after the first effect was live before, on the same terms
    obtain ⟨u₀, hu₀, hterms⟩ := first.lineage u hu
    exact ⟨u₀, hu₀, hterms⟩

theorem Outcome.givenLast (outcome : r.Outcome ls es r') :
    Transport.GivenLast (fun terms => ∃ u ∈ r.toList, terms = u.terms) k es := by
  cases outcome with
  | effect effect => exact effect.givenLast
  | refused path | opened created insert =>
    exact Transport.givenLast_singleton fun h => nomatch h

end Registry

/-! ### The balance of a run -/

namespace LockKey

variable {k : LockKey}

theorem total_eq (r : Registry) :
    k.account.total r = (r.toList.countP fun t => t.heldLock? = some k : Nat) :=
  Account.total_eq_countP (fun _ => rfl) r

theorem saids_eq (es : List Exchange) :
    k.account.saids es = (es.countP fun e => e.taken? = some k : Nat) -
      (es.countP fun e => e.call.given? = some k : Nat) :=
  Account.saids_eq_countP_sub (fun _ => rfl) es

theorem befalls_eq (ls : List Incident) :
    k.account.befalls ls = -((displaced ls).countP fun t =>
      t.heldLock? = some k : Nat) := by
  refine Account.befalls_eq_neg_countP (fun l => ?_) ls
  cases l with
  | displaced t =>
    show -k.count t.heldLock? =
      -(([t].countP fun t => decide (t.heldLock? = some k) : Nat) : Int)
    rw [← sum_toNat_eq_countP]
    exact congrArg Neg.neg (Int.add_zero _).symm
  | admitted _ | answered _ | departed _ => rfl

end LockKey

/-- Every live transport of every run is engaged. -/
theorem Run.engaged {options : Options} {steps : List Step} {b : Broker}
    (run : Run (.empty options) steps b) : ∀ t ∈ b.transports.toList, t.Engaged :=
  run.forall_transports (fun _ _ _ _ _ _ => Transport.engaged_of_create)
    fun _ _ _ _ h m => m.engaged h

/-- In every state of every run, a live transport is in use exactly while it has an
owner. For each stream lock, those that were granted are those that were given back
and those that live transports in use hold; only a transport whose number was given
out again, once the counter had started over, would take a lock with it. A lock is
only given back for a transport that is left without owners, and giving it back is
the last of the calls that are made at the end of its only owner. -/
theorem Run.stream_locks_balance {options : Options} {steps : List Step} {b : Broker}
    (run : Run (.empty options) steps b) :
    (∀ t ∈ b.transports.toList, t.inUse = true ↔ t.owners.toList ≠ []) ∧
      (∀ k, (exchanges steps).countP (fun e => e.taken? = some k) =
        (exchanges steps).countP (fun e => e.call.given? = some k) +
          b.transports.toList.countP (fun t => t.heldLock? = some k) +
          (displaced (incidents steps)).countP (fun t => t.heldLock? = some k)) ∧
      (Unwrapped steps → displaced (incidents steps) = []) ∧
      (∀ s ∈ steps, ∀ e ∈ s.exchanges, ∀ k, e.call.given? = some k →
        ∃ t : Transport,
          (t.owners.toList = [] ∧ t.backend.lockKey? t.device = some k) ∧
          (∃ u ∈ s.before.transports.toList, t.terms = u.terms) ∧
          ∀ u ∈ s.after.transports.toList, u.id = t.id → u.owners.toList = []) ∧
      ∀ s ∈ steps, ∀ k pre e post, s.exchanges = pre ++ e :: post →
        e.call.given? = some k →
        ∃ (t : Transport) (o : Owner) (parting : List Exchange),
          (∃ u ∈ s.before.transports.toList, t.terms = u.terms) ∧
          t.owners.toList = [o] ∧
          parting <:+ pre ∧
          parting.map Exchange.call ++ [e.call] = t.partingCalls 0 := by
  refine ⟨fun t ht => ?_, fun k => ?_, run.displaced_eq_nil, fun s _ e he k hk => ?_,
    fun s _ k pre e post hsaid hk => ?_⟩
  · exact (run.engaged t ht).inUse_iff
  · have htotal := (Transport.lock_account_kept k).run_total run
    rw [LockKey.total_eq, LockKey.saids_eq, LockKey.befalls_eq] at htotal
    omega
  · exact s.outcome.vacated_of_given he hk
  · exact s.outcome.givenLast pre e post hsaid hk

/-- A client acquires, gives back, and acquires again. -/
def Scene.acquiredTwice : List (Script × Operation) :=
  [({}, .create speaker device []), ({}, acquire ":1" "r" 1),
    ({}, .release "/dev/fd0" ":1" "r"), ({}, acquire ":1" "r" 2)]

/-- A session in which the lock is taken twice and given back once, with the balance
that the theorem gives. -/
theorem Run.acquired_twice_balances :
    ∃ steps b, Run (.empty {}) steps b ∧ Unwrapped steps ∧
      (exchanges steps).countP (fun e => e.taken? = some (.stream 1 ⟨1⟩)) = 2 ∧
      (exchanges steps).countP (fun e => e.call.given? = some (.stream 1 ⟨1⟩)) = 1 ∧
      b.transports.toList.countP (fun t => t.heldLock? = some (.stream 1 ⟨1⟩)) =
        1 := by
  have run := Broker.run_play Script.peers (.empty {}) Scene.acquiredTwice
  have hunwrapped :
      Unwrapped ((Broker.empty {}).play Script.peers Scene.acquiredTwice) := by
    decide
  obtain ⟨-, hbalance, hdisplaced, -⟩ := run.stream_locks_balance
  have hsum := hbalance (.stream 1 ⟨1⟩)
  rw [hdisplaced hunwrapped] at hsum
  have htaken :
      (exchanges ((Broker.empty {}).play Script.peers Scene.acquiredTwice)).countP
      (fun e => e.taken? = some (.stream 1 ⟨1⟩)) = 2 := by decide
  have hgiven :
      (exchanges ((Broker.empty {}).play Script.peers Scene.acquiredTwice)).countP
      (fun e => e.call.given? = some (.stream 1 ⟨1⟩)) = 1 := by decide
  refine ⟨_, _, run, hunwrapped, htaken, hgiven, ?_⟩
  rw [htaken, hgiven] at hsum
  simp only [List.countP_nil] at hsum
  omega

end AudioBroker
