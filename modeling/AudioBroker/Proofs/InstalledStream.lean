import AudioBroker.Proofs.Broker.Report

/-!
# The stream that a report puts in place

A report of success makes the broker ask for the open stream, put it in place and
announce its MTUs. A stream whose descriptor number is in place already changes
nothing. Numbers of descriptors are used again, though: so the MTUs in place may be
those of an earlier stream.

- `Dialogue.Yields.prefix_unique`: the answers decide how far a dialogue goes and
  what it ends with.
- `Transport.Installs`: what becomes of the stream that is in place, and what is
  announced.
- `Transport.complete_installs`, `Broker.complete_installs`: a report of success
  does this.
- `Step.delivered_mtus_iff`: when the MTUs in place are those of the stream that was
  sent.
- `Run.reused_descriptor_keeps_mtus`: a run in which they are not.
-/

namespace AudioBroker

open Dialogue

/-- Of two ends of a dialogue whose exchanges begin alike, neither goes further than
the other. -/
theorem Dialogue.Yields.prefix_unique {α : Type} {d : Dialogue α}
    {es es' rest rest' : List Exchange} {a a' : α} (h : d.Yields es a)
    (h' : d.Yields es' a') (heq : es ++ rest = es' ++ rest') :
    es = es' ∧ a = a' := by
  induction h generalizing es' with
  | done a =>
    obtain ⟨rfl, rfl⟩ := yields_done.mp h'
    exact ⟨rfl, rfl⟩
  | ask r h ih =>
    obtain ⟨r', es₁, rfl, hnext⟩ := yields_ask.mp h'
    obtain ⟨hhead, htail⟩ := List.cons.inj heq
    -- the same answer leads to the same continuation
    cases hhead
    obtain ⟨rfl, rfl⟩ := ih hnext htail
    exact ⟨rfl, rfl⟩

theorem Backend.yields_stream_a2dp (sep : StreamEndpointId)
    (session : Option SessionId) (device : Device) (stream : Option Stream) :
    ((a2dp sep session).stream device).Yields [⟨.openStream sep, stream⟩] stream :=
  (Call.yields_make (c := .openStream sep)).mpr rfl

namespace Transport

variable {t t₁ t' : Transport} {id : OwnerId} {i : Nat} {s : Stream}
  {es es' es₁ es₂ rest : List Exchange}

/-- The stream `s` is put in place, unless its descriptor is; both MTUs are
announced with it. -/
structure Installs (t : Transport) (s : Stream) (es : List Exchange)
    (t' : Transport) : Prop where
  stream : t'.stream = if t.fd = some s.fd then t.stream else some s
  announced : t.fd ≠ some s.fd →
    ∀ change, change = .imtu s.imtu ∨ change = .omtu s.omtu →
    ∃ e ∈ es, e.call = .announce t.path change

/-- The end of an owner leaves the stream in place. -/
theorem stream_without (t : Transport) (i : Nat) :
    (t.without i).stream = t.stream := by
  cases ho : t.owners.toList[i]? with
  | none => rw [without_of_none ho]
  | some o => rw [without_eq ho]

theorem endScheduled_stream {ended : Bool}
    (h : (t.endScheduled id).Yields es (ended, t')) :
    t'.stream = t.stream := by
  rcases endScheduled_cases h with ⟨-, -, -, rfl⟩ | ⟨i, o, -, -, -, -, rfl⟩
  · rfl
  · exact stream_without t i

theorem fail_stream {completion : Completion}
    (h : (t.fail i).Yields es (completion, t')) :
    t'.stream = t.stream := by
  rcases fail_cases h with ⟨-, -, -, rfl⟩ | ⟨-, -, -, rfl⟩
  · rfl
  · exact stream_without t i

/-- A stream that is put in place is the one that is in place then, unless its
descriptor was. -/
theorem install_installs (h : (t.install s).Yields es t') : t.Installs s es t' := by
  rcases install_cases h with ⟨hfd, rfl, rfl⟩ | ⟨hfd, hcalls, rfl⟩
  · exact { stream := by rw [if_pos hfd], announced := fun hnot => absurd hfd hnot }
  · refine { stream := by rw [if_neg hfd], announced := fun _ change hchange => ?_ }
    have hmem : Call.announce t.path change ∈ es.map Exchange.call := by
      rw [hcalls]
      rcases hchange with rfl | rfl <;> simp
    obtain ⟨e, he, hcall⟩ := List.mem_map.mp hmem
    exact ⟨e, he, hcall⟩

/-- What is said before and after, and changes of the owners, do not matter to it. -/
theorem Installs.frame (h : t.Installs s es t₁) (stream : t'.stream = t₁.stream)
    (hsub : es ⊆ es') :
    t.Installs s es' t' where
  stream := stream.trans h.stream
  announced hfd change hchange := by
    obtain ⟨e, he, hcall⟩ := h.announced hfd change hchange
    exact ⟨e, hsub he, hcall⟩

/-- A success for which the backend has a stream puts that stream in place. -/
theorem attempt_installs {p : Pending} {delivered : Bool}
    (h : (t.attempt i p true).Yields es (delivered, t'))
    (stream : (t.backend.stream t.device).Yields es₁ (some s))
    (heq : es ++ rest = es₁ ++ es₂) :
    t.Installs s es t' := by
  rcases deliver_cases h with ⟨-, hnone, -⟩ |
    ⟨s', es₃, es₄, t₂, es₅, hstream, hinstall, rfl, rfl, -⟩
  · obtain ⟨-, heq'⟩ := hnone.prefix_unique stream heq
    cases heq'
  · have hsame : es₃ ++ (es₄ ++ es₅ ++ rest) = es₁ ++ es₂ := by simpa using heq
    obtain ⟨rfl, hs⟩ := Yields.prefix_unique hstream stream hsame
    cases hs
    -- that the owner was settled before is not seen in the stream
    have hinstalls : t.Installs s es₄ t₂ :=
      ⟨(install_installs hinstall).stream, (install_installs hinstall).announced⟩
    exact hinstalls.frame rfl fun e he => by simp [he]

/-- A report of success for an owner that waits, where the backend has a stream. -/
theorem complete_installs {completion : Completion}
    (waits : (t.awaiting? id).isSome = true)
    (h : (t.complete id true).Yields es (completion, t'))
    (stream : (t.backend.stream t.device).Yields es₁ (some s))
    (heq : es ++ rest = es₁ ++ es₂) :
    t.Installs s es t' := by
  rcases complete_cases h with ⟨hnone, -⟩ | ⟨i, p, -, hcase⟩
  · rw [hnone] at waits
    cases waits
  · rcases hcase with ⟨-, hattempt⟩ | ⟨es₃, t₁, es₄, hattempt, hfail, rfl⟩
    · exact attempt_installs hattempt stream heq
    · rw [List.append_assoc] at heq
      exact (attempt_installs hattempt stream heq).frame (fail_stream hfail)
        (List.subset_append_left _ _)

end Transport

namespace Broker

variable {b b' : Broker} {t t' : Transport} {token : Token} {s : Stream}
  {es es₁ es₂ : List Exchange}

/-- To put an owner into the queue, or to tear it down, is nothing to the stream. -/
theorem defer_stream (hget : b.transports.get? token.transport = some t)
    (h : (b.defer token).Yields es b') :
    ∃ t', b'.transports.get? token.transport = some t' ∧ t'.stream = t.stream := by
  rcases defer_cases h with ⟨deferred, -, -, rfl⟩ | ⟨-, ended, hend⟩
  · exact ⟨t, hget, rfl⟩
  · rcases endScheduled_cases hend with ⟨hnone, -⟩ | ⟨u, t', hu, hend, rfl⟩
    · rw [hget] at hnone
      cases hnone
    · obtain rfl : t = u := Option.some.inj (hget.symm.trans hu)
      exact ⟨t', get?_store hget (Transport.endScheduled_course hend).id_eq,
        Transport.endScheduled_stream hend⟩

/-- The broker stores the transport with the stream in place, and what becomes of the
owner does not change that. -/
theorem complete_installs (hget : b.transports.get? token.transport = some t)
    (waits : (t.awaiting? token.owner).isSome = true)
    (h : (b.complete t token true).Yields es b')
    (stream : (t.backend.stream t.device).Yields es₁ (some s))
    (heq : es = es₁ ++ es₂) :
    ∃ t', b'.transports.get? token.transport = some t' ∧ t.Installs s es t' := by
  obtain ⟨es₃, completion, t₁, es₄, h₁, rfl, hcase⟩ := complete_cases h
  have hinstalls := Transport.complete_installs waits h₁ stream heq
  have hstored := get?_store hget (Transport.complete_course h₁).id_eq
  rcases hcase with ⟨-, hdefer⟩ | ⟨-, rfl, rfl⟩
  · obtain ⟨t', hget', hkept⟩ := defer_stream hstored hdefer
    exact ⟨t', hget', hinstalls.frame hkept (List.subset_append_left _ _)⟩
  · exact ⟨t₁, hstored, hinstalls.frame rfl (List.subset_append_left _ _)⟩

end Broker

/-- After a report of success for an owner that waits, where the backend has a
stream, the descriptor in place is that of the stream, the properties show the MTUs
in place, and an MTU that is new was announced. They are the MTUs of the stream,
unless the number of its descriptor was in place with other ones. -/
theorem Step.delivered_mtus_iff {s : Step} {r : Report} {t : Transport}
    {stream : Stream} {es es' : List Exchange} (reported : s.op.report? = some r)
    (success : r.success = true)
    (live : s.before.transports.get? r.token.transport = some t)
    (kind : t.backend.isA2dp = r.isA2dp)
    (waits : (t.awaiting? r.token.owner).isSome = true)
    (said : s.exchanges = es ++ es')
    (opened : (t.backend.stream t.device).Yields es (some stream)) :
    ∃ t', s.after.transports.get? r.token.transport = some t' ∧
      t'.fd = some stream.fd ∧ (∀ es snapshot, t'.properties.Yields es snapshot →
        snapshot.imtu = t'.imtu ∧ snapshot.omtu = t'.omtu) ∧
      (t'.imtu ≠ t.imtu → ∃ e ∈ s.exchanges,
        e.call = .announce t.path (.imtu t'.imtu)) ∧
      (t'.omtu ≠ t.omtu → ∃ e ∈ s.exchanges,
        e.call = .announce t.path (.omtu t'.omtu)) ∧
      ((t'.imtu = stream.imtu ∧ t'.omtu = stream.omtu) ↔
        (t.fd = some stream.fd → t.imtu = stream.imtu ∧ t.omtu = stream.omtu)) := by
  have hreport := Step.reported reported
  rw [Broker.report, live] at hreport
  simp only [if_pos kind, success] at hreport
  obtain ⟨t', hget, hinstalls⟩ :=
    Broker.complete_installs live waits hreport opened said
  have hproperties : ∀ es snapshot, t'.properties.Yields es snapshot →
      snapshot.imtu = t'.imtu ∧ snapshot.omtu = t'.omtu := by
    intro es snapshot h
    obtain ⟨es₁, extras, es₂, -, -, h₂⟩ := yields_bind.mp h
    obtain ⟨-, rfl⟩ := yields_pure.mp h₂
    exact ⟨rfl, rfl⟩
  have hstream := hinstalls.stream
  refine ⟨t', hget, ?_⟩
  by_cases hfd : t.fd = some stream.fd
  · -- the number is in place, and nothing changes
    rw [if_pos hfd] at hstream
    have hkept : t'.fd = t.fd ∧ t'.imtu = t.imtu ∧ t'.omtu = t.omtu := by
      simp only [Transport.fd, Transport.imtu, Transport.omtu, hstream, and_self]
    obtain ⟨hfd', himtu, homtu⟩ := hkept
    refine ⟨hfd'.trans hfd, hproperties, fun hnew => absurd himtu hnew,
      fun hnew => absurd homtu hnew, ?_⟩
    rw [himtu, homtu]
    exact ⟨fun h _ => h, fun h => h hfd⟩
  · -- another number is put in place, with its own MTUs
    rw [if_neg hfd] at hstream
    have hnew : t'.fd = some stream.fd ∧ t'.imtu = stream.imtu ∧
        t'.omtu = stream.omtu := by
      simp only [Transport.fd, Transport.imtu, Transport.omtu, hstream,
        Option.map_some, Option.getD_some, and_self]
    obtain ⟨hfd', himtu, homtu⟩ := hnew
    refine ⟨hfd', hproperties, fun _ =>
      hinstalls.announced hfd _ (.inl (by rw [himtu])),
      fun _ => hinstalls.announced hfd _ (.inr (by rw [homtu])),
        fun _ h => absurd h hfd, fun _ => ?_⟩
    exact ⟨himtu, homtu⟩

/-- The report that the stream of an owner has been started, to peers that follow a
script. -/
def Scene.success (b : Broker) (owner : UInt32) (script : Script) : Step :=
  let went := (b.perform (.a2dpResumed ⟨⟨0⟩, ⟨owner⟩⟩ .started)).run Script.peers
    script
  { before := b, op := .a2dpResumed ⟨⟨0⟩, ⟨owner⟩⟩ .started,
    exchanges := went.exchanges,
    result := went.value.1, after := went.value.2, performed :=
      yields_run Script.peers _ script }

/-- A client waits for its stream. -/
def Scene.waiting : Broker :=
  (Broker.empty {}).played Script.peers
    [({}, .create speaker device []), ({}, acquire ":1" "rw" 1)]

/-- The first stream of a transport is told with its own sizes. -/
theorem Step.first_stream_is_delivered :
    ∃ t', (Scene.success Scene.waiting 0 {}).after.transports.get? ⟨0⟩ = some t' ∧
      t'.fd = some ⟨7⟩ ∧ t'.imtu = 672 ∧ t'.omtu = 895 := by
  have hbefore : (Scene.waiting.transports.get? ⟨0⟩).any fun t =>
      decide (t.backend = .a2dp ⟨1⟩ (some ⟨1⟩) ∧ (t.awaiting? ⟨0⟩).isSome = true ∧
          t.fd = none) := by
    decide
  obtain ⟨t, hlive, hfacts⟩ := (Option.any_eq_true _ _).mp hbefore
  obtain ⟨hbackend, hwaits, hfd⟩ := of_decide_eq_true hfacts
  have hsaid : (Scene.success Scene.waiting 0 {}).exchanges =
      [⟨.openStream ⟨1⟩, some ⟨⟨7⟩, 672, 895⟩⟩] ++ _ := rfl
  have hopened := Backend.yields_stream_a2dp ⟨1⟩ (some ⟨1⟩) t.device
    (some ⟨⟨7⟩, 672, 895⟩)
  rw [← hbackend] at hopened
  obtain ⟨t', hget, hfd', -, -, -, hiff⟩ :=
    Step.delivered_mtus_iff rfl rfl hlive (by rw [hbackend]; rfl) hwaits hsaid hopened
  obtain ⟨himtu, homtu⟩ := hiff.mpr fun h => by simp [hfd] at h
  exact ⟨t', hget, hfd', himtu, homtu⟩

/-- A client gets its stream, gives it back and asks for it once more. -/
def Scene.waitingAgain : List (Script × Operation) :=
  [({}, .create speaker device []), ({}, acquire ":1" "rw" 1),
    ({}, .a2dpResumed ⟨⟨0⟩, ⟨0⟩⟩ .started),
    ({}, .release "/dev/fd0" ":1" "rw"), ({}, acquire ":1" "rw" 2)]

/-- The second stream has the descriptor number of the first one and other MTUs. Its
descriptor is sent, and the MTUs in place are those of the first one. -/
theorem Run.reused_descriptor_keeps_mtus :
    ∃ (steps : List Step) (s : Step) (t t' : Transport) (stream : Stream)
      (es es' : List Exchange),
      Run (.empty {}) steps s.before ∧ s.op = .a2dpResumed ⟨⟨0⟩, ⟨1⟩⟩ .started ∧
      s.before.transports.get? ⟨0⟩ = some t ∧ t.backend.isA2dp = true ∧
      (t.awaiting? ⟨1⟩).isSome = true ∧
      s.exchanges = es ++ es' ∧ (t.backend.stream t.device).Yields es (some stream) ∧
      s.after.transports.get? ⟨0⟩ = some t' ∧ t'.fd = some stream.fd ∧
      t'.imtu ≠ stream.imtu ∧
      t'.omtu ≠ stream.omtu ∧ ∀ c ∈ s.exchanges.map Exchange.call, ∀ change,
        c ≠ .announce t.path change := by
  have run := Broker.run_play Script.peers (.empty {}) Scene.waitingAgain
  have hbefore :
      (((Broker.empty {}).played Script.peers Scene.waitingAgain).transports.get?
        ⟨0⟩).any fun t =>
      decide (t.backend = .a2dp ⟨1⟩ (some ⟨1⟩) ∧
          (t.awaiting? ⟨1⟩).isSome = true) := by
    decide
  obtain ⟨t, hlive, hfacts⟩ := (Option.any_eq_true _ _).mp hbefore
  obtain ⟨hbackend, hwaits⟩ := of_decide_eq_true hfacts
  let s := Scene.success ((Broker.empty {}).played Script.peers Scene.waitingAgain) 1
    { stream := some ⟨⟨7⟩, 100, 200⟩ }
  have hafter : (s.after.transports.get? ⟨0⟩).any fun t' =>
      decide (t'.stream = some ⟨⟨7⟩, 672, 895⟩) := by
    decide
  obtain ⟨t', hget, hstream⟩ := (Option.any_eq_true _ _).mp hafter
  have hstream := of_decide_eq_true hstream
  have hcalls :
      s.exchanges.map Exchange.call =
        [.openStream ⟨1⟩, .reply ⟨2⟩ (.descriptor ⟨7⟩)] := by
    decide
  have hopened := Backend.yields_stream_a2dp ⟨1⟩ (some ⟨1⟩) t.device
    (some ⟨⟨7⟩, 100, 200⟩)
  rw [← hbackend] at hopened
  refine ⟨_, s, t, t', ⟨⟨7⟩, 100, 200⟩, _, _, run, rfl, hlive,
    by rw [hbackend]; rfl, hwaits, rfl, hopened, hget, ?_⟩
  simp [Transport.fd, Transport.imtu, Transport.omtu, hstream, hcalls]

end AudioBroker
