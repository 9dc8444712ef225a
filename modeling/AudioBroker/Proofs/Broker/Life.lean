import AudioBroker.Proofs.Broker.Visit
import AudioBroker.Proofs.Transport.Signalling

/-!
# The life of a transport

A live transport was created by one step of the run, and every step after that
carried it on, on the terms that it was created on. The session that it stores is
the one that was obtained on its behalf since then.

- `Step.Creates`: the step that a transport comes from.
- `Step.openedFor`, `openedFor`: the sessions that were obtained on behalf of a
  transport.
- `Step.created_or_carried`: where a live transport comes from, in one step.
- `Run.history`: what is there at the end of a run began with one of its steps, and
  was kept since then.
- `Run.life`: the life of a live transport, moment by moment.
- `Run.options_eq`: the settings of the broker stay.
-/

namespace AudioBroker

open Dialogue

/-- The signalling session that a transport stores. -/
def Transport.session? (t : Transport) : Option SessionId := t.backend.session?

/-- The sessions that a step obtains on behalf of the transport with a number. -/
def Step.openedFor (s : Step) (id : TransportId) : List SessionId :=
  if s.op.addressee? s.before = some id then opened s.exchanges else []

/-- The sessions that were obtained on behalf of the transport with a number. -/
def openedFor (id : TransportId) (steps : List Step) : List SessionId :=
  steps.flatMap fun s => s.openedFor id

@[simp] theorem openedFor_append (id : TransportId) (steps rest : List Step) :
    openedFor id (steps ++ rest) = openedFor id steps ++ openedFor id rest := by
  simp [openedFor]

@[simp] theorem openedFor_singleton (id : TransportId) (s : Step) :
    openedFor id [s] = s.openedFor id := by
  simp [openedFor]

/-- The step creates the transport. -/
def Step.Creates (s : Step) (t : Transport) : Prop :=
  ∃ endpoint device configuration, s.op = .create endpoint device configuration ∧
    Transport.create t.id endpoint device configuration s.before.options = .ok t

namespace Transport

/-- A new transport stores no session. -/
theorem session?_of_create {id : TransportId} {endpoint : Endpoint}
    {device : Device} {configuration : List UInt8} {options : Options}
    {t : Transport}
    (h : Transport.create id endpoint device configuration options = .ok t) :
    t.session? = none := by
  obtain ⟨-, -, -, -, hbackend, -⟩ := create_eq_ok h
  unfold Backend.ofEndpoint? at hbackend
  rw [session?]
  split at hbackend
  · obtain ⟨sep, -, hsep⟩ := Option.map_eq_some_iff.mp hbackend
    rw [← hsep]
    rfl
  · rw [← Option.some.inj hbackend]
    rfl

/-- What is seen of a transport once its marked owners are gone. -/
theorem terms_swept (t : Transport) : t.swept.terms = t.terms := rfl

end Transport

/-- A step carries a transport on: its terms stay, and it stores what the step
obtained for it, beside what it stored before. -/
structure Step.Carries (s : Step) (t t' : Transport) : Prop where
  live : s.before.transports.get? t'.id = some t
  terms : t'.terms = t.terms
  session : t'.session?.toList = t.session?.toList ++ s.openedFor t'.id

namespace Step

variable {s : Step} {t t' : Transport}

/-- A transport that the step has nothing to do with. -/
theorem carries_untouched (hd : s.before.transports.Distinct)
    (ht : t ∈ s.before.transports.toList) (nothing : s.openedFor t.id = []) :
    s.Carries t t where
  live := hd.get?_of_mem ht
  terms := rfl
  session := by rw [nothing, List.append_nil]

/-- An operation obtains no session for a transport that it does not name. -/
theorem openedFor_of_ne {id : TransportId}
    (h : s.op.addressee? s.before ≠ some id) : s.openedFor id = [] :=
  if_neg h

theorem openedFor_of_plain (h : ∀ e ∈ s.exchanges, e.call.isPlain = true)
    (id : TransportId) :
    s.openedFor id = [] := by
  have hnone : opened s.exchanges = [] :=
    opened_of_not_signalling fun e he => Call.isSignalling_of_isPlain (h e he)
  rw [openedFor, hnone, ite_self]

/-- Where the transports after a visit come from. -/
theorem carried_of_visit (hd : s.before.transports.Distinct) {r' : Registry}
    (visit : s.before.Visit s.op s.exchanges r') (ht' : t' ∈ r'.toList) :
    ∃ t, s.Carries t t' := by
  generalize hes : s.exchanges = es at visit
  cases visit with
  | aside plain =>
    exact ⟨t', carries_untouched hd ht' (openedFor_of_plain (hes ▸ plain) _)⟩
  | @moved t u _ es es' target course plain =>
    obtain ⟨hnames, hlive⟩ := Operation.target?_eq_some target
    by_cases hid : t'.id = u.id
    · -- the transport that was visited
      obtain rfl := Registry.eq_of_mem_replace ht' hid
      have hsession := course.signalling.session_eq
      have hplain := opened_of_not_signalling fun e he =>
        Call.isSignalling_of_isPlain (plain e he)
      refine ⟨t, course.id_eq ▸ hlive, course.terms_eq, ?_⟩
      rw [openedFor, course.id_eq, if_pos hnames, hes, opened_append, hplain,
        List.append_nil]
      exact hsession
    · have hmem := (Registry.mem_replace ht').resolve_left fun heq => hid (heq ▸ rfl)
      refine ⟨t', carries_untouched hd hmem (openedFor_of_ne fun hnamed => hid ?_)⟩
      rw [course.id_eq]
      exact Option.some.inj (hnamed.symm.trans hnames)
  | removed _ target _ _ =>
    obtain ⟨hnames, -⟩ := Operation.target?_eq_some target
    obtain ⟨hmem, hne⟩ := List.mem_filter.mp ht'
    refine ⟨t', carries_untouched hd hmem (openedFor_of_ne fun hnamed => ?_)⟩
    rw [hnamed] at hnames
    simp [Option.some.inj hnames] at hne

/-- Where a step is to create a transport, a transport that lives after it is that
one, or it was there before. -/
theorem created_or_untouched {endpoint : Endpoint} {device : Device}
    {configuration : List UInt8}
    (hop : s.op = .create endpoint device configuration)
    (ht' : t' ∈ s.after.transports.toList) :
    s.Creates t' ∨ t' ∈ s.before.transports.toList := by
  obtain ⟨b, op, es, result, b', performed⟩ := s
  obtain rfl : op = _ := hop
  rcases Broker.create_cases performed
    with ⟨-, -, rfl, -⟩ | ⟨t, transports, hcreate, hinsert, -, -, rfl⟩
  · exact .inr ht'
  · refine (Registry.mem_insert? hinsert ht').imp_left ?_
    rintro rfl
    rw [← (Transport.create_eq_ok hcreate).1] at hcreate
    exact ⟨endpoint, device, configuration, rfl, hcreate⟩

/-- A step that empties the queue sweeps the marked owners out of their transports. -/
theorem after_of_drain (hd : s.before.transports.Distinct)
    (tracked : s.before.Tracked) (hop : s.op = .runDeferred) :
    s.after = { s.before with transports := s.before.transports.swept,
                              deferred := ∅ } := by
  obtain ⟨b, op, es, result, b', performed⟩ := s
  obtain rfl : op = _ := hop
  exact (Broker.runDeferred_sweeps hd tracked performed).1

/-- A transport that lives after a step was created by it, or it was carried on by
it. -/
theorem created_or_carried (hd : s.before.transports.Distinct)
    (tracked : s.before.Tracked) (ht' : t' ∈ s.after.transports.toList) :
    s.Creates t' ∨ ∃ t, s.Carries t t' := by
  rcases Broker.creates_drains_or_visits hd s.performed
    with ⟨endpoint, device, configuration, hop⟩ | hop | visit
  · refine (created_or_untouched hop ht').imp_right fun hmem =>
      ⟨t', carries_untouched hd hmem ?_⟩
    exact openedFor_of_ne (by simp [hop, Operation.addressee?])
  · have hnobody : ∀ {id}, s.op.addressee? s.before ≠ some id := by
      simp [hop, Operation.addressee?]
    rw [after_of_drain hd tracked hop] at ht'
    obtain ⟨t, hmem, rfl⟩ := List.mem_map.mp ht'
    exact .inr ⟨t, hd.get?_of_mem hmem, t.terms_swept,
      by rw [openedFor_of_ne hnobody, List.append_nil]; rfl⟩
  · exact .inr (carried_of_visit hd visit ht')

end Step

/-- The settings stay what they were. -/
theorem Broker.Turn.options_eq {b b' : Broker} (turn : b.Turn b')
    (hd : b.transports.Distinct) (tracked : b.Tracked) :
    b'.options = b.options := by
  cases turn with
  | still | created _ _ | removed _ | stored _ _ _ | acquired _ _ _
  | marked _ _ _ _ _ _ _ => rfl
  | drained drain => rw [(Broker.runDeferred_sweeps hd tracked drain).1]

/-- A new broker has no transports. -/
theorem Broker.get?_empty (options : Options) (id : TransportId) :
    (Broker.empty options).transports.get? id = none := rfl

namespace Run

variable {options : Options} {steps : List Step} {b : Broker}

/-- A list of steps leads to one broker. -/
theorem unique {b₀ b' : Broker} (run : Run b₀ steps b) (run' : Run b₀ steps b') :
    b = b' := by
  cases run with
  | nil =>
    generalize hnil : ([] : List Step) = all at run'
    cases run' with
    | nil => rfl
    | snoc _ => simp at hnil
  | snoc _ => exact run'.snoc_inv.2.symm

/-- What is there at the end of a run has a history: the step at which it began, and
all the moments since. What it has when it begins, and keeps from then on, it has at
each of these moments. -/
theorem history {α : Type} {b₀ : Broker} (run : Run b₀ steps b)
    (Lives : Broker → Prop) (Begins : Step → α → Prop)
    (Holds : α → List Step → Broker → Prop) (unborn : ¬ Lives b₀)
    (step : ∀ {steps : List Step} {s : Step},
      Run b₀ steps s.before → Lives s.after →
        (∃ a, Begins s a ∧ Holds a [] s.after) ∨
          (Lives s.before ∧ ∀ a mid,
            Holds a mid s.before → Holds a (mid ++ [s]) s.after))
    (lives : Lives b) :
    ∃ pre s post a, steps = pre ++ s :: post ∧ Begins s a ∧
      ∀ mid rest b₁, post = mid ++ rest → Run s.after mid b₁ → Holds a mid b₁ := by
  induction run with
  | nil => exact absurd lives unborn
  | @snoc steps s run ih =>
    rcases step run lives with ⟨a, begins, holds⟩ | ⟨lived, keeps⟩
    · refine ⟨steps, s, [], a, rfl, begins, ?_⟩
      intro mid rest b₁ hmid hrun
      obtain ⟨rfl, -⟩ := List.append_eq_nil_iff.mp hmid.symm
      obtain rfl := hrun.unique .nil
      exact holds
    · obtain ⟨pre, s₀, post, a, rfl, begins, holds⟩ := ih lived
      refine ⟨pre, s₀, post ++ [s], a, by simp, begins, ?_⟩
      intro mid rest b₁ hmid hrun
      -- the moment is before the last step, or it is the end of the run
      rcases List.eq_nil_or_concat rest with rfl | ⟨rest, last, rfl⟩
      · rw [List.append_nil] at hmid
        subst hmid
        obtain ⟨hbefore, rfl⟩ := hrun.snoc_inv
        exact keeps a post (holds post [] s.before (by simp) hbefore)
      · rw [List.concat_eq_append, ← List.append_assoc] at hmid
        obtain ⟨hpost, -⟩ := List.append_inj' hmid rfl
        exact holds mid rest b₁ hpost hrun

/-- The life of a live transport: the step that created it, and what became of it at
every moment since. -/
theorem life (run : Run (.empty options) steps b) {t : Transport}
    (ht : t ∈ b.transports.toList) :
    ∃ pre s post t₀, steps = pre ++ s :: post ∧ s.Creates t₀ ∧ t₀.id = t.id ∧
      ∀ mid rest b₁, post = mid ++ rest → Run s.after mid b₁ →
        ∃ u, b₁.transports.get? t.id = some u ∧ u.terms = t₀.terms ∧
          u.session?.toList = openedFor t.id mid := by
  obtain ⟨pre, s, post, t₀, hsteps, ⟨hcreates, hid⟩, hlife⟩ := run.history
    (fun b => ∃ u, b.transports.get? t.id = some u)
    (fun s t₀ => s.Creates t₀ ∧ t₀.id = t.id)
    (fun t₀ mid b => ∃ u, b.transports.get? t.id = some u ∧ u.terms = t₀.terms ∧
      u.session?.toList = openedFor t.id mid)
    (by simp [Broker.get?_empty])
    (by
      rintro steps s run ⟨u, hu⟩
      obtain ⟨hmem, hid⟩ := Registry.get?_eq_some hu
      -- its life begins with this step, or goes on by one more
      rcases s.created_or_carried run.distinct run.tracked hmem
        with hcreates | ⟨u₁, hcarries⟩
      · refine .inl ⟨u, ⟨hcreates, hid⟩, u, hu, rfl, ?_⟩
        obtain ⟨_, _, _, -, hcreate⟩ := hcreates
        rw [Transport.session?_of_create hcreate]
        rfl
      · have hlive := hid ▸ hcarries.live
        refine .inr ⟨⟨u₁, hlive⟩, ?_⟩
        rintro t₀ mid ⟨v, hv, hterms, hsession⟩
        obtain rfl := Option.some.inj (hlive.symm.trans hv)
        refine ⟨u, hu, hcarries.terms.trans hterms, ?_⟩
        rw [hcarries.session, hsession, openedFor_append, openedFor_singleton, hid])
    ⟨t, run.distinct.get?_of_mem ht⟩
  exact ⟨pre, s, post, t₀, hsteps, hcreates, hid, hlife⟩

/-- No run changes the options. -/
theorem options_eq (run : Run (.empty options) steps b) : b.options = options := by
  induction run with
  | nil => rfl
  | @snoc steps s run ih =>
    rw [s.turn.options_eq run.distinct run.tracked, ih]

end Run

end AudioBroker
