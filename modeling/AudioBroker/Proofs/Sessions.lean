import AudioBroker.Proofs.Broker.Life
import AudioBroker.Proofs.StreamLocks
import AudioBroker.Proofs.Transport.Leaving

/-!
# Sessions are given back

An A2DP transport obtains at most one session, keeps it for as long as it lives, and
gives it back when it is removed. What it says to the A2DP layer in the meantime, it
says under that session.

- `SessionId.account`: the sessions that are stored, as they are obtained and given
  back.
- `Step.Signals`: how one step uses sessions; every step is of this kind
  (`Step.signals`).
- `Run.session_alive`: nothing is said under a session that was given back.
- `Run.sessions_are_kept`: what it comes to in every run.
-/

namespace AudioBroker

open Dialogue

/-! ### The balance -/

namespace SessionId

variable {x : SessionId}

/-- The sessions that are stored, as they are obtained and given back. -/
def account (x : SessionId) : Account where
  held t := (t.session? == some x).toNat
  said e := (e.opened? == some x).toNat - (e.call.closed? == some x).toNat
  befell l := -((displaced [l]).countP fun t => t.session? == some x : Nat)

theorem total_eq (r : Registry) :
    x.account.total r = (r.toList.countP fun t => t.session? == some x : Nat) :=
  Account.total_eq_countP (fun _ => rfl) r

theorem saids_eq (es : List Exchange) :
    x.account.saids es = (opened es).count x - (closed es).count x := by
  rw [opened, closed, List.count_filterMap, List.count_filterMap]
  exact Account.saids_eq_countP_sub (fun _ => rfl) es

theorem befalls_eq (ls : List Incident) :
    x.account.befalls ls = -((displaced ls).countP fun t =>
      t.session? == some x : Nat) :=
  Account.befalls_eq_neg_countP (fun _ => rfl) ls

theorem said_of_not_signalling {e : Exchange} (h : e.call.isSignalling = false) :
    x.account.said e = 0 := by
  show ((_ : Nat) : Int) - (_ : Nat) = 0
  rw [opened?_of_not_signalling h, closed?_of_not_signalling h]
  rfl

/-- The account of one session is balanced in all transports: what is opened is
stored, and given back when the transport is closed. -/
theorem account_balanced (x : SessionId) : x.account.Balanced fun _ => True where
  query e h := said_of_not_signalling
    (Call.isSignalling_of_isPlain (Call.isPlain_of_isQuery h))
  answered _ _ _ := rfl
  displaced t := by
    -- counting over a list of one transport
    have hone :
        [t].countP (fun t => t.session? == some x) =
          (t.session? == some x).toNat := by
      cases h : t.session? == some x <;> simp [h]
    show -(([t].countP fun t => t.session? == some x : Nat) : Int) =
      -((t.session? == some x).toNat : Nat)
    rw [hone]
  refused _ := rfl
  opened _ _ _ _ _ t created := by
    refine ⟨trivial, ?_⟩
    show (((t.session? == some x).toNat : Nat) : Int) = 0
    rw [Transport.session?_of_create created]
    rfl
  closed t es _ _ closing := by
    obtain ⟨hopened, hclosed, -⟩ := Backend.closed_of_closing closing
    show (((t.backend.session? == some x).toNat : Nat) : Int) + 0 + _ = 0
    rw [saids_eq, hopened, hclosed, count_toList, List.count_nil]
    omega
  move _ _ _ _ _ _ := trivial
  moved t ls es t' _ move := by
    have hdisplaced : displaced ls = [] := by cases move <;> rfl
    -- a move stores what it opens, and closes nothing
    have hsession := congrArg (List.count x) move.signalling.session_eq
    rw [List.count_append, count_toList, count_toList] at hsession
    rw [saids_eq, befalls_eq, hdisplaced, move.signalling.closed_eq]
    show (((t'.backend.session? == some x).toNat : Nat) : Int) =
      (t.backend.session? == some x).toNat + (_ - 0) + 0
    omega

end SessionId

/-! ### What a step says about sessions -/

/-- The transport that a step withdraws. -/
def Step.withdrawn? (s : Step) : Option Transport :=
  match s.op with
  | .remove id => s.before.transports.get? id
  | _ => none

/-- How a step uses sessions, and streams that are named by them. -/
inductive Step.Signals (s : Step) : Prop where
  | silent (silent : ∀ e ∈ s.exchanges, e.call.isSignalling = false)
  /-- All of it is said on behalf of the transport that the operation names. -/
  | moved {t t' : Transport} (target : s.op.target? s.before = some t)
      (after : s.after.transports.get? t.id = some t')
      (signalling : t.backend.Signalling t.device s.exchanges t'.backend)
  /-- A transport is withdrawn, and gives its session back last. -/
  | removed {t : Transport} {es es' : List Exchange}
      (withdrawn : s.withdrawn? = some t)
      (gone : s.after.transports.get? t.id = none) (said : s.exchanges = es ++ es')
      (signalling : t.backend.Signalling t.device es t.backend)
      (closing : es'.map Exchange.call = t.backend.closeCalls)
  /-- The queue is emptied, and locks are given back that transports hold under
  their sessions. -/
  | drained (drains : s.op = .runDeferred)
      (unlocks : ∀ e ∈ s.exchanges, e.call.isSignalling = true →
        ∃ t ∈ s.before.transports.toList, ∃ sep x,
          t.backend = .a2dp sep (some x) ∧ t.inUse = true ∧
          e.call = .unlockStream sep x)

/-- What a sweep says about sessions is that a lock is given back. -/
theorem Transport.unlock_of_sweepCalls {t : Transport} {c : Call}
    (hc : c ∈ t.sweepCalls) (hsig : c.isSignalling = true) :
    ∃ sep x, t.backend = .a2dp sep (some x) ∧ t.inUse = true ∧
      c = .unlockStream sep x := by
  rcases List.mem_append.mp hc with hc | hc
  · obtain ⟨o, -, hc⟩ := List.mem_flatMap.mp hc
    rw [Backend.isSignalling_partingCalls o t.backend t.device c hc] at hsig
    cases hsig
  · split at hc
    · unfold Backend.unlockCalls at hc
      split at hc
      · next sep x hbackend hin =>
          exact ⟨sep, x, hbackend, hin, List.mem_singleton.mp hc⟩
      · rw [List.mem_singleton.mp hc] at hsig
        cases hsig
      · cases hc
    · cases hc

namespace Step

variable {s : Step}

/-- A transport is withdrawn by an operation that names it. -/
theorem target?_of_withdrawn {t : Transport} (h : s.withdrawn? = some t) :
    s.op.target? s.before = some t := by
  unfold withdrawn? at h
  split at h
  · next id hop =>
    rw [hop]
    exact h
  · cases h

/-- Whoever is withdrawn has its lock given back before its session. -/
theorem signals_of_withdrawn {t : Transport} (withdrawn : s.withdrawn? = some t) :
    ∃ es es', s.after.transports.get? t.id = none ∧ s.exchanges = es ++ es' ∧
      t.backend.Signalling t.device es t.backend ∧
      es'.map Exchange.call = t.backend.closeCalls := by
  obtain ⟨b, op, es, result, b', performed⟩ := s
  cases op with
  | remove id =>
    rcases Broker.remove_cases performed with ⟨hnone, -⟩ |
      ⟨u, es, t', es', hget, -, ends, closing, rfl, rfl⟩
    · cases hnone.symm.trans withdrawn
    · obtain rfl := Option.some.inj (hget.symm.trans withdrawn)
      obtain rfl := (Registry.get?_eq_some hget).2
      have hbackend : t'.backend = u.backend :=
        congrArg (fun v => v.backend) (Transport.endFirst_leaving ends).bare_eq
      have hsignalling := (Transport.endFirst_course ends).signalling
      rw [hbackend] at hsignalling closing
      exact ⟨⟨.unregister u.path, ()⟩ :: es, es', Registry.get?_erase_self _ _, rfl,
        .other rfl hsignalling, closing⟩
  | _ => cases withdrawn

/-- Owners that go meanwhile, and the transport that is visited, use their sessions as
they may. -/
theorem signals_of_visit {r' : Registry} (hr : s.after.transports = r')
    (visit : s.before.Visit s.op s.exchanges r') : s.Signals := by
  generalize hes : s.exchanges = es at visit
  cases visit with
  | aside plain =>
    exact .silent (hes ▸ fun e he => Call.isSignalling_of_isPlain (plain e he))
  | @moved t t' _ es es' target course plain =>
    obtain ⟨-, hlive⟩ := Operation.target?_eq_some target
    have hafter : s.after.transports.get? t.id = some t' := by
      rw [hr, ← course.id_eq]
      exact Registry.get?_replace_self (course.id_eq ▸ hlive)
    have hsignalling := course.signalling.trans (Backend.signalling_of_plain _ plain)
    exact .moved target hafter (hes ▸ hsignalling)
  | @removed t _ _ _ names target _ _ =>
    have hwithdrawn : s.withdrawn? = some t := by
      rw [withdrawn?, names]
      exact (Operation.target?_eq_some target).2
    obtain ⟨es, es', gone, said, signalling, closing⟩ :=
      signals_of_withdrawn hwithdrawn
    exact .removed hwithdrawn gone said signalling closing

theorem signals (hd : s.before.transports.Distinct) (tracked : s.before.Tracked) :
    s.Signals := by
  obtain ⟨b, op, es, result, b', performed⟩ := s
  rcases Broker.creates_drains_or_visits hd performed with
    ⟨endpoint, device, configuration, rfl⟩ | rfl | visit
  · rcases Broker.create_cases performed with
      ⟨fault, -, -, ⟨-, rfl⟩ | ⟨-, t, -, rfl⟩⟩ | ⟨t, transports, -, -, -, rfl, -⟩
    · exact .silent nofun
    · exact .silent fun e he => List.mem_singleton.mp he ▸ rfl
    · exact .silent fun e he => List.mem_singleton.mp he ▸ rfl
  · obtain ⟨-, hcalls, -⟩ := Broker.runDeferred_sweeps hd tracked performed
    refine .drained rfl fun e he hsig => ?_
    have hcall := hcalls.mem_iff.mp (List.mem_map_of_mem (f := Exchange.call) he)
    obtain ⟨t, ht, hcall⟩ := List.mem_flatMap.mp hcall
    exact ⟨t, ht, Transport.unlock_of_sweepCalls hcall hsig⟩
  · exact signals_of_visit rfl visit

/-- Giving back locks gives back no session. -/
theorem closed_of_unlocks {ts : List Transport} {es : List Exchange}
    (unlocks : ∀ e ∈ es, e.call.isSignalling = true → ∃ t ∈ ts, ∃ sep x,
      t.backend = .a2dp sep (some x) ∧ t.inUse = true ∧
        e.call = .unlockStream sep x) :
    closed es = [] := by
  refine List.filterMap_eq_nil_iff.mpr fun e he => ?_
  by_cases hsig : e.call.isSignalling = true
  · obtain ⟨_, -, _, _, -, -, hcall⟩ := unlocks e he hsig
    rw [hcall]
    rfl
  · exact closed?_of_not_signalling (Bool.not_eq_true _ ▸ hsig)

/-- A session is given back for a transport that is withdrawn, and for no other
one. -/
theorem Signals.closed_eq (h : s.Signals) :
    closed s.exchanges = (s.withdrawn?.bind Transport.session?).toList := by
  cases hwithdrawn : s.withdrawn? with
  | some t =>
    obtain ⟨es, es', -, said, signalling, closing⟩ := signals_of_withdrawn hwithdrawn
    obtain ⟨-, hclosed, -⟩ := Backend.closed_of_closing closing
    rw [said, closed_append, signalling.closed_eq, hclosed]
    rfl
  | none =>
    cases h with
    | silent silent => exact closed_of_not_signalling silent
    | moved _ _ signalling => exact signalling.closed_eq
    | removed withdrawn _ _ _ _ => cases hwithdrawn.symm.trans withdrawn
    | drained _ unlocks => exact closed_of_unlocks unlocks

/-- On behalf of a headset transport nothing is said about sessions. -/
theorem Signals.silent_of_headset {t : Transport} (h : s.Signals)
    (target : s.op.target? s.before = some t) (kind : t.backend.isA2dp = false) :
    ∀ e ∈ s.exchanges, e.call.isSignalling = false := by
  cases h with
  | silent silent => exact silent
  | moved target' _ signalling =>
    cases target.symm.trans target'
    exact signalling.silent_of_headset kind
  | removed withdrawn _ said signalling closing =>
    obtain rfl := Option.some.inj (target.symm.trans (target?_of_withdrawn withdrawn))
    -- it has no session that it could give back
    have hnone : t.backend.closeCalls = [] := by
      unfold Backend.closeCalls
      cases hbackend : t.backend with
      | a2dp _ _ =>
        rw [hbackend] at kind
        cases kind
      | headset _ _ _ => rfl
    rw [hnone, List.map_eq_nil_iff] at closing
    rw [said, closing, List.append_nil]
    exact signalling.silent_of_headset kind
  | drained drains _ =>
    rw [drains] at target
    cases target

/-- When something is said under a session, the session was obtained before, in this
step or for a transport that was live; and the step has given none back. -/
theorem Signals.stored_of_streamKey {pre post : List Exchange} {e : Exchange}
    {sep : StreamEndpointId} {x : SessionId} (h : s.Signals)
    (said : s.exchanges = pre ++ e :: post)
    (key : e.call.streamKey? = some (sep, x)) :
    closed pre = [] ∧
      (x ∈ opened pre ∨ ∃ t ∈ s.before.transports.toList, t.session? = some x) := by
  have hmem : e ∈ s.exchanges := said ▸ List.mem_append_right _ List.mem_cons_self
  have hsig : e.call.isSignalling = true := by
    by_contra hsilent
    rw [Call.streamKey?_of_not_signalling (Bool.not_eq_true _ ▸ hsilent)] at key
    cases key
  have hstored : ∀ {t : Transport} {es : List Exchange} {b' : Backend},
      t ∈ s.before.transports.toList →
      t.backend.Signalling t.device (pre ++ e :: es) b' →
        closed pre = [] ∧
          (x ∈ opened pre ∨ ∃ t ∈ s.before.transports.toList,
            t.session? = some x) := by
    intro t es b' ht signalling
    refine ⟨signalling.divide.choose_spec.1.closed_eq, ?_⟩
    rcases signalling.session_of_streamKey key with hsession | hopened
    · exact .inr ⟨t, ht, hsession⟩
    · exact .inl hopened
  cases h with
  | silent silent => cases hsig.symm.trans (silent e hmem)
  | moved target _ signalling =>
    rw [said] at signalling
    exact hstored (Registry.get?_eq_some (Operation.target?_eq_some target).2).1
      signalling
  | @removed t es es' withdrawn _ said' signalling closing =>
    have hlive := (Operation.target?_eq_some (target?_of_withdrawn withdrawn)).2
    -- the call is not among those that give the session back
    have hnot : e ∉ es' := by
      intro he
      rw [(Backend.closed_of_closing closing).2.2 e he] at key
      cases key
    rcases List.append_eq_append_iff.mp (said.symm.trans said')
      with ⟨as, rfl, htail⟩ | ⟨bs, -, rfl⟩
    · cases as with
      | nil => exact absurd (htail ▸ List.mem_cons_self : e ∈ [] ++ es') hnot
      | cons e' as =>
        obtain ⟨rfl, -⟩ := List.cons.inj htail
        exact hstored (Registry.get?_eq_some hlive).1 signalling
    · exact absurd (List.mem_append_right _ List.mem_cons_self) hnot
  | drained _ unlocks =>
    obtain ⟨t, ht, sep', x', hbackend, -, hcall⟩ := unlocks e hmem hsig
    rw [hcall] at key
    cases key
    refine ⟨closed_of_unlocks fun e he =>
      unlocks e (said ▸ List.mem_append_left _ he), .inr ⟨t, ht, ?_⟩⟩
    rw [Transport.session?, hbackend]
    rfl

end Step

/-! ### Every run -/

namespace Run

variable {options : Options} {steps : List Step} {b : Broker}

theorem signals (run : Run (.empty options) steps b) : ∀ s ∈ steps, s.Signals := by
  intro s hs
  obtain ⟨pre, post, rfl⟩ := List.append_of_mem hs
  obtain ⟨before, -⟩ := run.around
  exact s.signals before.distinct before.tracked

/-- Sessions that were obtained were given back, or they are stored. -/
theorem sessions_balance (run : Run (.empty options) steps b) (x : SessionId) :
    (opened (exchanges steps)).count x = (closed (exchanges steps)).count x +
      (b.transports.toList.countP fun t => t.session? == some x) +
        ((displaced (incidents steps)).countP fun t => t.session? == some x) := by
  have htotal := (SessionId.account_balanced x).run_total run
  rw [SessionId.total_eq, SessionId.saids_eq, SessionId.befalls_eq] at htotal
  omega

/-- Nothing is said under a session that was given back as often as it was
obtained. -/
theorem session_alive (run : Run (.empty options) steps b)
    {pre post : List Exchange} {e : Exchange} {sep : StreamEndpointId}
    {x : SessionId} (said : exchanges steps = pre ++ e :: post)
    (key : e.call.streamKey? = some (sep, x)) :
    (closed pre).count x < (opened pre).count x := by
  induction run generalizing post with
  | nil => simp [exchanges] at said
  | @snoc steps s run ih =>
    -- in the last step the session is stored, or has just been opened in that step,
    -- and nothing is closed before it is used
    have hlast : ∀ {init : List Exchange}, pre = exchanges steps ++ init →
        s.exchanges = init ++ e :: post →
        (closed pre).count x < (opened pre).count x := by
      intro init hpre hsaid
      have hbalance := run.sessions_balance x
      obtain ⟨hclosed, hstored⟩ :=
        (s.signals run.distinct run.tracked).stored_of_streamKey hsaid key
      rw [hpre, closed_append, opened_append, hclosed, List.count_append,
        List.count_append, List.count_nil]
      rcases hstored with hopened | ⟨t, ht, hsession⟩
      · have hpos := List.count_pos_iff.mpr hopened
        omega
      · have hpos : 0 < s.before.transports.toList.countP fun t =>
            t.session? == some x :=
          List.countP_pos_iff.mpr ⟨t, ht, by simp [hsession]⟩
        omega
    rw [exchanges_append, exchanges_singleton] at said
    rcases List.append_eq_append_iff.mp said
      with ⟨as, hpre, htail⟩ | ⟨bs, hinit, htail⟩
    · exact hlast hpre htail
    · cases bs with
      | nil =>
        have hpre : pre = exchanges steps ++ [] := by
          rw [hinit, List.append_nil, List.append_nil]
        exact hlast hpre htail.symm
      | cons e' bs =>
        obtain ⟨rfl, -⟩ := List.cons.inj htail
        exact ih hinit

end Run

/-- In every run each session was obtained as often as it was given back and is
stored by live transports; only a transport whose number was given out again, once
the counter had started over, would take its session with it. A transport obtains at
most one session in its life, which it stores at every moment from then on; while it
is in use over A2DP it stores one. Every step uses sessions as it may: a call for a
stream names the endpoint of the transport on whose behalf it is made and the
session that it stores at that moment, a session is given back for a transport that
is withdrawn, after its locks, and for no other one, and for a headset transport no
such call is made at all. And whenever a call names a session, that session was
obtained more often than given back. -/
theorem Run.sessions_are_kept {options : Options} {steps : List Step} {b : Broker}
    (run : Run (.empty options) steps b) :
    (∀ x, (opened (exchanges steps)).count x = (closed (exchanges steps)).count x +
        (b.transports.toList.countP fun t => t.session? == some x) +
          ((displaced (incidents steps)).countP fun t => t.session? == some x)) ∧
      (Unwrapped steps → displaced (incidents steps) = []) ∧
      (∀ t ∈ b.transports.toList, ∃ pre s post t₀,
        steps = pre ++ s :: post ∧ s.Creates t₀ ∧
        t₀.id = t.id ∧ ∀ mid rest b₁, post = mid ++ rest → Run s.after mid b₁ →
          ∃ u, b₁.transports.get? t.id = some u ∧
            u.session?.toList = openedFor t.id mid) ∧
      (∀ t ∈ b.transports.toList, t.backend.isA2dp = true → t.inUse = true → ∃ x,
        t.session? = some x) ∧
      (∀ s ∈ steps, s.Signals ∧
        closed s.exchanges = (s.withdrawn?.bind Transport.session?).toList ∧
        ∀ t, s.op.target? s.before = some t → t.backend.isA2dp = false →
          ∀ e ∈ s.exchanges, e.call.isSignalling = false) ∧
      ∀ pre e post sep x, exchanges steps = pre ++ e :: post →
        e.call.streamKey? = some (sep, x) →
        (closed pre).count x < (opened pre).count x := by
  refine ⟨run.sessions_balance, run.displaced_eq_nil, fun t ht => ?_,
    fun t ht kind inUse => ?_,
    fun s hs => ?_, fun pre e post sep x said key => run.session_alive said key⟩
  · obtain ⟨pre, s, post, t₀, hsteps, hcreates, hid, hlife⟩ := run.life ht
    refine ⟨pre, s, post, t₀, hsteps, hcreates, hid, fun mid rest b₁ hpost hrun => ?_⟩
    obtain ⟨u, hu, -, hsession⟩ := hlife mid rest b₁ hpost hrun
    exact ⟨u, hu, hsession⟩
  · exact Backend.session?_of_lockKey? kind ((run.engaged t ht).keyed inUse)
  · have hsignals := run.signals s hs
    exact ⟨hsignals, hsignals.closed_eq, fun t => hsignals.silent_of_headset⟩

/-- Two transports share a session. The first is acquired, given back, acquired
again, and withdrawn. -/
def Scene.sharedSession : List (Script × Operation) :=
  [({}, .create speaker device []), ({}, .create speaker device []),
    ({}, acquire ":1" "rw" 1),
    ({}, .acquire "/dev/fd1" ":2" "r" ⟨2⟩), ({}, .release "/dev/fd0" ":1" "rw"),
      ({}, acquire ":1" "w" 3),
    ({}, .remove ⟨0⟩)]

/-- A session of the peers that two transports store and one of them gives back. -/
theorem Run.shared_session_is_kept :
    ∃ steps b, Run (.empty {}) steps b ∧ opened (exchanges steps) = [⟨1⟩, ⟨1⟩] ∧
      closed (exchanges steps) = [⟨1⟩] ∧
      (b.transports.toList.countP fun t => t.session? == some ⟨1⟩) = 1 := by
  have run := Broker.run_play Script.peers (.empty {}) Scene.sharedSession
  have hopened :
      opened (exchanges ((Broker.empty {}).play Script.peers Scene.sharedSession)) =
      [⟨1⟩, ⟨1⟩] := by decide
  have hclosed :
      closed (exchanges ((Broker.empty {}).play Script.peers Scene.sharedSession)) =
      [⟨1⟩] := by decide
  have hunwrapped :
      Unwrapped ((Broker.empty {}).play Script.peers Scene.sharedSession) := by
    decide
  obtain ⟨hbalance, hdisplaced, -⟩ := run.sessions_are_kept
  have hshared := hbalance ⟨1⟩
  rw [hopened, hclosed, hdisplaced hunwrapped] at hshared
  refine ⟨_, _, run, hopened, hclosed, ?_⟩
  simp at hshared
  omega

end AudioBroker
