import AudioBroker.Proofs.Broker.Apart
import AudioBroker.Proofs.Peers.Fixed

/-!
# Operations on different transports can change places

Transports share one counter of owners and one queue. Still it does not matter in
which order two operations on different transports are carried out, unless both are
requests for access: once the queue is emptied, the broker is the same, the same
came back from each, and the same was said in another order. What happens in between
may differ, as there may be room in the queue for one marked owner and not for
another.

- `Broker.inTurn`: two operations, and the queue emptied.
- `Broker.Agree`: what it means that two operations can change places.
- `Broker.perform_run`, `Run.inTurn_of_deeds`: how one operation, and two in one
  order, go with given peers.
- `Run.interleavings_agree`: two operations on different transports can change
  places.
-/

namespace AudioBroker

open Dialogue

namespace Broker

/-- Two operations in this order, and then the queue is emptied. -/
def inTurn (b : Broker) (op₁ op₂ : Operation) :
    Dialogue ((op₁.Result × op₂.Result × Nat) × Broker) := do
  let (r₁, b) ← b.perform op₁
  let (r₂, b) ← b.perform op₂
  let (n, b) ← b.runDeferred
  return ((r₁, r₂, n), b)

/-- The two operations can change places: the same comes back from each and from
emptying the queue, the broker and the peers are the same in the end, and the same
is said but for the order. -/
def Agree {σ : Type} (b : Broker) (peers : Peers σ) (s : σ) (op₁ op₂ : Operation) :
    Prop :=
  ∃ r₁ r₂ n b' s' es es',
    (b.inTurn op₁ op₂).run peers s = ⟨((r₁, r₂, n), b'), s', es⟩ ∧
    (b.inTurn op₂ op₁).run peers s = ⟨((r₂, r₁, n), b'), s', es'⟩ ∧ es.Perm es' ∧
      b'.deferred = ∅

variable {σ : Type} {peers : Peers σ} {s s' s₁ s₂ s₃ : σ} {b b₁ b₂ b₃ : Broker}
  {op op₁ op₂ : Operation}
  {t : Transport} {es es₁ es₂ es₃ : List Exchange} {n : Nat}

/-- Which of the two operations is called the first one does not matter. -/
theorem Agree.symm (h : b.Agree peers s op₁ op₂) : b.Agree peers s op₂ op₁ := by
  obtain ⟨r₁, r₂, n, b', s', es, es', first, next, perm, drained⟩ := h
  exact ⟨r₂, r₁, n, b', s', es', es, next, first, perm.symm, drained⟩

/-- Two operations and a drain, run one after another. -/
theorem inTurn_run {r₁ : op₁.Result} {r₂ : op₂.Result}
    (first : (b.perform op₁).run peers s = ⟨(r₁, b₁), s₁, es₁⟩)
    (second : (b₁.perform op₂).run peers s₁ = ⟨(r₂, b₂), s₂, es₂⟩)
    (drain : b₂.runDeferred.run peers s₂ = ⟨(n, b₃), s₃, es₃⟩) :
    (b.inTurn op₁ op₂).run peers s =
      ⟨((r₁, r₂, n), b₃), s₃, es₁ ++ (es₂ ++ es₃)⟩ := by
  rw [inTurn, run_bind, first]
  simp only [run_bind, second, drain, run_pure, List.append_nil]

/-! ### One operation with given peers -/

/-- Emptying the queue, with given peers. -/
theorem runDeferred_run (fixed : peers.Fixed) (hd : b.transports.Distinct)
    (tracked : b.Tracked) (s : σ) :
    ∃ es, b.runDeferred.run peers s =
        ⟨(b.transports.marks,
          { b with transports := b.transports.swept, deferred := ∅ }), s, es⟩ ∧
      (es.map Exchange.call).Perm b.transports.sweepCalls ∧ peers.Gives s es := by
  have hquiet : b.runDeferred.Quiet := by
    rintro es ⟨n, b'⟩ h
    exact ((runDeferred_effect h).keeps calm_nil).untold
  obtain ⟨hpeers, hgives⟩ := hquiet.run_eq fixed s
  obtain ⟨hbroker, hcalls, hcount⟩ :=
    runDeferred_sweeps hd tracked (yields_run peers b.runDeferred s)
  refine ⟨_, ?_, hcalls, hgives⟩
  rw [← hbroker, ← hcount]
  exact congrArg (fun s' => (⟨_, s', _⟩ : Transcript σ (Nat × Broker))) hpeers

/-- A deed on a live transport with given peers, and its settlement, to which the
peers have nothing to say. -/
theorem perform_run (fixed : peers.Fixed) (hd : b.transports.Distinct)
    (hop : op.isLocal = true) (target : op.target? b = some t)
    {x : Transcript σ (Deed op.Result)}
    (deed : (op.deed b.nextOwner t hop).run peers s = x) :
    ∃ es b', b.Settles op t x.value es b' ∧ peers.Gives s es ∧
      (b.perform op).run peers s =
        ⟨(x.value.result, b'), x.peers, x.exchanges ++ es⟩ := by
  obtain ⟨hnames, hlive⟩ := Operation.target?_eq_some target
  have hyields := yields_run peers (op.deed b.nextOwner t hop) s
  have halike := fixed.alike (op.deed b.nextOwner t hop) s
  rw [deed] at hyields halike
  have hspec := Operation.deed_spec hop hnames hyields
  have hquiet : (b.settle op t.id x.value).Quiet := by
    intro es b' h
    exact (settles_of_yields hlive hspec h).untold
  obtain ⟨hpeers, hgives⟩ := hquiet.run_eq fixed x.peers
  have hsettles := settles_of_yields hlive hspec
    (yields_run peers (b.settle op t.id x.value) x.peers)
  refine ⟨_, _, hsettles, hgives.of_alike halike, ?_⟩
  rw [perform_of_target hd hop target, run_bind, deed, run_map, hpeers]

end Broker

namespace Operation

variable {b : Broker} {op : Operation} {t : Transport}

/-- Only a request for access is given the next number. -/
theorem deed_next (next next' : OwnerId) (t : Transport) (hop : op.isLocal = true)
    (keeps : op.isAcquire = false) : op.deed next t hop = op.deed next' t hop := by
  cases op with
  | acquire _ _ _ _ => cases keeps
  | create _ _ _ | runDeferred | dispatch _ _ _ _ | handle _ => cases hop
  | _ => rfl

/-- Only a request for access gives out tokens. -/
theorem deed_quiet {next : OwnerId} (hop : op.isLocal = true)
    (names : op.addressee? b = some t.id) (keeps : op.isAcquire = false) :
    (op.deed next t hop).Quiet :=
  fun _ _ h => (deed_spec hop names h).untold keeps

end Operation

/-! ### Two operations -/

/-- What is said in two operations and in emptying the queue, when what follows the
two deeds is the same but for the order. -/
theorem perm_of_rest {xs ys es₁ es₂ es₃ es₁' es₂' es₃' : List Exchange}
    (h : (es₁ ++ (es₂ ++ es₃)).Perm (es₂' ++ (es₁' ++ es₃'))) :
    ((xs ++ es₁) ++ ((ys ++ es₂) ++ es₃)).Perm
      ((ys ++ es₂') ++ ((xs ++ es₁') ++ es₃')) := by
  classical
  rw [List.perm_iff_count] at h ⊢
  intro e
  have he := h e
  simp only [List.count_append] at he ⊢
  omega

namespace Run

variable {options : Options} {steps : List Step} {b b' : Broker} {σ : Type}
  {peers : Peers σ} {s s' : σ}
  {op op₁ op₂ : Operation} {t₁ t₂ : Transport} {es : List Exchange}

/-- What happens with some peers is a step of the run. -/
theorem extend (run : Run (.empty options) steps b) {result : op.Result}
    (performed : (b.perform op).run peers s = ⟨(result, b'), s', es⟩) :
    ∃ steps', Run (.empty options) steps' b' := by
  have hyields := yields_run peers (b.perform op) s
  rw [performed] at hyields
  exact ⟨_, Run.snoc (s := ⟨b, op, es, result, b', hyields⟩) run⟩

/-- Two operations on live transports in one order, by their deeds: what comes back
and what is left, and all that is said after the deeds, to which the peers have
nothing to say. -/
theorem inTurn_of_deeds (run : Run (.empty options) steps b) (fixed : peers.Fixed)
    (h₁ : op₁.isLocal = true) (h₂ : op₂.isLocal = true)
    (target₁ : op₁.target? b = some t₁) (target₂ : op₂.target? b = some t₂)
    (hne : t₁.id ≠ t₂.id) {x : Transcript σ (Deed op₁.Result)}
    {y : Transcript σ (Deed op₂.Result)}
    (first : (op₁.deed b.nextOwner t₁ h₁).run peers s = x)
    (second : (op₂.deed (if op₁.isAcquire then b.nextOwner.next
      else b.nextOwner) t₂ h₂).run peers x.peers = y) :
    ∃ es₁ b₁ es₂ b₂ es₃,
      b.Settles op₁ t₁ x.value es₁ b₁ ∧ b₁.Settles op₂ t₂ y.value es₂ b₂ ∧
      (es₃.map Exchange.call).Perm b₂.transports.sweepCalls ∧
      peers.Gives s (es₁ ++ (es₂ ++ es₃)) ∧
      (b.inTurn op₁ op₂).run peers s =
        ⟨((x.value.result, y.value.result, b₂.transports.marks),
            { b₂ with transports := b₂.transports.swept, deferred := ∅ }),
          y.peers, (x.exchanges ++ es₁) ++ ((y.exchanges ++ es₂) ++ es₃)⟩ := by
  obtain ⟨-, hlive₁⟩ := Operation.target?_eq_some target₁
  obtain ⟨hnames₂, -⟩ := Operation.target?_eq_some target₂
  obtain ⟨es₁, b₁, settles₁, gives₁, performed₁⟩ :=
    Broker.perform_run fixed run.distinct h₁ target₁ first
  obtain ⟨_, run₁⟩ := run.extend performed₁
  have found : op₂.target? b₁ = some t₂ := by
    rw [settles₁.target?_of_apart run.distinct hlive₁ fun h =>
      hne (Option.some.inj (hnames₂ ▸ h)).symm, target₂]
  rw [← settles₁.nextOwner_eq] at second
  obtain ⟨es₂, b₂, settles₂, gives₂, performed₂⟩ :=
    Broker.perform_run fixed run₁.distinct h₂ found second
  obtain ⟨_, run₂⟩ := run₁.extend performed₂
  obtain ⟨es₃, drained, calls₃, gives₃⟩ :=
    Broker.runDeferred_run fixed run₂.distinct run₂.tracked y.peers
  -- the peers are alike from the first deed on
  have hx := fixed.alike (op₁.deed b.nextOwner t₁ h₁) s
  have hy := fixed.alike (op₂.deed b₁.nextOwner t₂ h₂) x.peers
  rw [first] at hx
  rw [second] at hy
  exact ⟨es₁, b₁, es₂, b₂, es₃, settles₁, settles₂, calls₃,
    gives₁.append ((gives₂.append (gives₃.of_alike hy)).of_alike hx),
    Broker.inTurn_run performed₁ performed₂ drained⟩

/-- Two operations on live transports, the second of which is no request for
access. -/
theorem agree_of_targets (run : Run (.empty options) steps b) (fixed : peers.Fixed)
    (s : σ) (h₁ : op₁.isLocal = true) (h₂ : op₂.isLocal = true)
    (keeps : op₂.isAcquire = false) (target₁ : op₁.target? b = some t₁)
    (target₂ : op₂.target? b = some t₂) (hne : t₁.id ≠ t₂.id) :
    b.Agree peers s op₁ op₂ := by
  obtain ⟨-, hlive₁⟩ := Operation.target?_eq_some target₁
  obtain ⟨hnames₂, hlive₂⟩ := Operation.target?_eq_some target₂
  -- the two deeds go as they would go by themselves, whichever comes first
  generalize hx : (op₁.deed b.nextOwner t₁ h₁).run peers s = x
  generalize hy : (op₂.deed b.nextOwner t₂ h₂).run peers s = y
  have halike := fixed.alike (op₁.deed b.nextOwner t₁ h₁) s
  have hquiet : (op₂.deed b.nextOwner t₂ h₂).Quiet :=
    Operation.deed_quiet h₂ hnames₂ keeps
  have hstays := (hquiet.run_eq fixed s).1
  rw [hx] at halike
  rw [hy] at hstays
  have hy' :
      (op₂.deed (if op₁.isAcquire then b.nextOwner.next else b.nextOwner) t₂ h₂).run
        peers x.peers =
      ⟨y.value, x.peers, y.exchanges⟩ := by
    rw [Operation.deed_next _ b.nextOwner t₂ h₂ keeps,
      hquiet.run_alike fixed halike, hy]
  have hx' :
      (op₁.deed (if op₂.isAcquire then b.nextOwner.next else b.nextOwner) t₁ h₁).run
        peers y.peers = x := by
    rw [keeps, hstays]
    exact hx
  obtain ⟨es₁, b₁, es₂, b₂, es₃, settles₁, settles₂, calls₃, gives, inTurn⟩ :=
    run.inTurn_of_deeds fixed h₁ h₂ target₁ target₂ hne hx hy'
  obtain ⟨es₂', b₁', es₁', b₂', es₃', settles₂', settles₁', calls₃', gives',
      inTurn'⟩ :=
    run.inTurn_of_deeds fixed h₂ h₁ target₂ target₁ hne.symm hy hx'
  -- what follows the deeds comes to the same
  obtain ⟨hbroker, hcalls, hmarks⟩ :=
    Broker.Settles.agree run.distinct hlive₁ hlive₂ hne keeps settles₁ settles₂
      settles₂' settles₁'
  rw [← hbroker, ← hmarks] at inTurn'
  refine ⟨_, _, _, _, _, _, _, inTurn, inTurn', perm_of_rest (gives.perm gives' ?_),
    rfl⟩
  rw [List.map_append, List.map_append, List.map_append, List.map_append]
  exact (((calls₃.append_left _).append_left _).trans hcalls).trans
    ((calls₃'.symm.append_left _).append_left _)

/-- An operation whose transport does not exist, before another one or after it. -/
theorem agree_of_no_target (run : Run (.empty options) steps b)
    (fixed : peers.Fixed) (s : σ) (h₁ : op₁.isLocal = true)
    (h₂ : op₂.isLocal = true) (gone : op₁.target? b = none)
    (apart : ∀ id, op₂.addressee? b = some id → op₁.addressee? b ≠ some id) :
    b.Agree peers s op₁ op₂ := by
  have first : (b.perform op₁).run peers s = ⟨(op₁.missing h₁, b), s, []⟩ := by
    rw [Broker.perform_of_no_target run.distinct h₁ gone]
    rfl
  -- the second one does not create the transport that the first one lacks
  obtain ⟨r₂, b₂, s₂, es₂, second, gone₂⟩ : ∃ r₂ b₂ s₂ es₂,
      (b.perform op₂).run peers s = ⟨(r₂, b₂), s₂, es₂⟩ ∧ op₁.target? b₂ = none := by
    cases target₂ : op₂.target? b with
    | none =>
      refine ⟨op₂.missing h₂, b, s, [], ?_, gone⟩
      rw [Broker.perform_of_no_target run.distinct h₂ target₂]
      rfl
    | some t₂ =>
      obtain ⟨hnames₂, hlive₂⟩ := Operation.target?_eq_some target₂
      obtain ⟨es₂, b₂, settles₂, -, second⟩ :=
        Broker.perform_run fixed run.distinct h₂ target₂ (s := s) rfl
      refine ⟨_, b₂, _, _, second, ?_⟩
      rw [settles₂.target?_of_apart run.distinct hlive₂ (apart t₂.id hnames₂), gone]
  obtain ⟨_, run₂⟩ := run.extend second
  -- the drain finds the same broker and the same peers in both orders
  obtain ⟨es₃, drain, -, -⟩ :=
    Broker.runDeferred_run fixed run₂.distinct run₂.tracked s₂
  have second' : (b₂.perform op₁).run peers s₂ = ⟨(op₁.missing h₁, b₂), s₂, []⟩ := by
    rw [Broker.perform_of_no_target run₂.distinct h₁ gone₂]
    rfl
  exact ⟨_, _, _, _, _, _, _, Broker.inTurn_run first second drain,
    Broker.inTurn_run second second' drain, .refl _, rfl⟩

/-- Two operations on different transports, at most one of them a request for
access, can be carried out in either order with peers whose settings are fixed. Once
the queue is emptied the broker is the same, with its transports, their owners in
order, and its counters; the same came back from each of the two and from emptying
the queue; the peers are left in the same state, and the same was said to them in
another order. This holds in every state that can be reached, whatever room there is
in the queue. -/
theorem interleavings_agree (run : Run (.empty options) steps b)
    (fixed : peers.Fixed) (s : σ) (h₁ : op₁.isLocal = true)
    (h₂ : op₂.isLocal = true)
    (atMostOne : op₁.isAcquire = false ∨ op₂.isAcquire = false)
    (apart : ∀ id, op₁.addressee? b = some id → op₂.addressee? b ≠ some id) :
    ∃ r₁ r₂ n b' s' es es',
      (b.inTurn op₁ op₂).run peers s = ⟨((r₁, r₂, n), b'), s', es⟩ ∧
      (b.inTurn op₂ op₁).run peers s = ⟨((r₂, r₁, n), b'), s', es'⟩ ∧ es.Perm es' ∧
      b'.deferred = ∅ := by
  have apart' : ∀ id, op₂.addressee? b = some id → op₁.addressee? b ≠ some id :=
    fun id h₂ h₁ => apart id h₁ h₂
  cases target₁ : op₁.target? b with
  | none => exact run.agree_of_no_target fixed s h₁ h₂ target₁ apart'
  | some t₁ =>
    cases target₂ : op₂.target? b with
    | none => exact (run.agree_of_no_target fixed s h₂ h₁ target₂ apart).symm
    | some t₂ =>
      have hnames₁ := (Operation.target?_eq_some target₁).1
      have hnames₂ := (Operation.target?_eq_some target₂).1
      have hne : t₁.id ≠ t₂.id := fun heq => apart t₁.id hnames₁ (heq ▸ hnames₂)
      rcases atMostOne with keeps | keeps
      · exact (run.agree_of_targets fixed s h₂ h₁ keeps target₂ target₁ hne.symm).symm
      · exact run.agree_of_targets fixed s h₁ h₂ keeps target₁ target₂ hne

end Run

/-- The start for an owner fails, and the owner gives up what it acquired before the
queue is emptied. -/
def Scene.givenUp (n : Nat) : List (Script × Operation) :=
  [({}, acquire ":1" "rw" 1), ({},
    .a2dpResumed ⟨⟨0⟩, ⟨n.toUInt32⟩⟩ (.failed .timeout)),
    ({}, .release "/dev/fd0" ":1" "rw")]

/-- One place is left in the queue, and two transports have an owner each. -/
def Scene.onePlaceLeft : List (Script × Operation) :=
  ({}, .create speaker device []) :: ({}, .create speaker device []) ::
    ((List.range 31).flatMap givenUp).append
    [({}, acquire ":1" "rw" 1), ({}, .acquire "/dev/fd1" ":2" "r" ⟨2⟩)]

/-- The start on the first of the two transports fails. -/
def Scene.firstFails : Operation := .a2dpResumed ⟨⟨0⟩, ⟨31⟩⟩ (.failed .timeout)

/-- The start on the second of the two transports fails. -/
def Scene.secondFails : Operation := .a2dpResumed ⟨⟨1⟩, ⟨32⟩⟩ (.failed .timeout)

/-- Both starts fail. In either order the first owner that is marked is queued, and
the other one is torn down at once. -/
theorem Run.last_place_goes_to_either :
    ∃ steps b r₁ r₂ b' s' es es',
      Run (.empty {}) steps b ∧ b.deferred.toList.length + 1 = maxDeferred ∧
      (b.inTurn Scene.firstFails Scene.secondFails).run Script.peers {} =
        ⟨((r₁, r₂, 1), b'), s', es⟩ ∧
      (b.inTurn Scene.secondFails Scene.firstFails).run Script.peers {} =
        ⟨((r₂, r₁, 1), b'), s', es'⟩ ∧
      es.Perm es' ∧ es.map Exchange.call ≠ es'.map Exchange.call ∧
      b'.deferred = ∅ := by
  have run := Broker.run_play Script.peers (.empty {}) Scene.onePlaceLeft
  have hroom :
      ((Broker.empty {}).played Script.peers
        Scene.onePlaceLeft).deferred.toList.length + 1 =
      maxDeferred := by decide +kernel
  have hcount :
      ((((Broker.empty {}).played Script.peers Scene.onePlaceLeft).inTurn
        Scene.firstFails
      Scene.secondFails).run Script.peers {}).value.1.2.2 = 1 := by decide +kernel
  have horder :
      ((((Broker.empty {}).played Script.peers Scene.onePlaceLeft).inTurn
        Scene.firstFails
      Scene.secondFails).run Script.peers {}).exchanges.map Exchange.call ≠
        ((((Broker.empty {}).played Script.peers Scene.onePlaceLeft).inTurn
          Scene.secondFails
          Scene.firstFails).run Script.peers {}).exchanges.map
            Exchange.call := by decide +kernel
  generalize (Broker.empty {}).played Script.peers Scene.onePlaceLeft = b
    at run hroom hcount horder
  -- the reports name different transports
  have apart : ∀ id, Scene.firstFails.addressee? b = some id →
      Scene.secondFails.addressee? b ≠ some id := by
    rintro id ⟨⟩
    exact nofun
  obtain ⟨r₁, r₂, n, b', s', es, es', first, second, perm, drained⟩ :=
    run.interleavings_agree Script.peers_fixed {}
      (show Scene.firstFails.isLocal = true from rfl)
      (show Scene.secondFails.isLocal = true from rfl) (.inl rfl) apart
  rw [first] at hcount
  rw [first, second] at horder
  obtain rfl : n = 1 := hcount
  exact ⟨_, b, r₁, r₂, b', s', es, es', run, hroom, first, second, perm, horder,
    drained⟩

end AudioBroker
