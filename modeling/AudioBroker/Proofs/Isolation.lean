import AudioBroker.Proofs.Broker.Life

/-!
# Transports do not meddle with each other

All transports share one table, one counter of owners and one queue. Still an
operation that names one of them leaves the others as they are, with all their
owners; emptying the queue changes a transport in nothing but its owners and what
they hold; and what was agreed on at its creation stays for as long as it lives.

- `Run.transports_are_isolated`: the three together, in every state that can be
  reached.
-/

namespace AudioBroker

open Dialogue

/-- In every state that can be reached, an operation that names one transport, by
path, by number or by token, leaves every other live transport as it is, with its
owners in their order; it neither creates nor removes another one. Emptying the
queue tears down marked owners, and the rest of a transport stays, but for its locks
and whether it is in use; a transport without marked owners stays altogether. And in
every run a live transport has at every moment of its life the number, path, device,
endpoint, configuration and kind of backend, with its stream endpoint or its lock
and MTUs, that its creation gave it. -/
theorem Run.transports_are_isolated {options : Options} {steps : List Step}
    {b : Broker} (run : Run (.empty options) steps b) :
    (∀ op es result b', (b.perform op).Yields es (result, b') →
        (∀ endpoint device configuration,
          op ≠ .create endpoint device configuration) →
          op ≠ .runDeferred → ∀ id, op.addressee? b ≠ some id →
            b'.transports.get? id = b.transports.get? id) ∧
      (∀ es n b', b.runDeferred.Yields es (n, b') →
        b' = { b with transports := b'.transports, deferred := ∅ } ∧
          ∀ id, (b.transports.get? id = none → b'.transports.get? id = none) ∧
            ∀ t, b.transports.get? id = some t → ∃ owners locks inUse,
              b'.transports.get? id = some { t with owners, locks, inUse } ∧
              owners.toList = t.owners.toList.filter (fun o => !o.scheduled) ∧
              ((∀ o ∈ t.owners.toList, o.scheduled = false) →
                locks = t.locks ∧ inUse = t.inUse)) ∧
      ∀ t ∈ b.transports.toList, ∃ pre s post t₀ endpoint device configuration,
        steps = pre ++ s :: post ∧ s.op = .create endpoint device configuration ∧
          Transport.create t.id endpoint device configuration options = .ok t₀ ∧
          ∀ mid rest b₁, post = mid ++ rest → Run s.after mid b₁ →
            ∃ u, b₁.transports.get? t.id = some u ∧ u.terms = t₀.terms := by
  refine ⟨?_, ?_, ?_⟩
  · intro op es result b' h creates drains id hne
    -- what neither creates nor drains visits one transport at most
    rcases Broker.creates_drains_or_visits run.distinct h
      with ⟨_, _, _, hop⟩ | hop | visit
    · exact absurd hop (creates _ _ _)
    · exact absurd hop drains
    · exact visit.get?_of_ne hne
  · intro es n b' h
    obtain ⟨rfl, -, -⟩ := Broker.runDeferred_sweeps run.distinct run.tracked h
    refine ⟨rfl, fun id => ⟨fun hnone => ?_, fun t ht => ?_⟩⟩
    · rw [Registry.get?_swept, hnone]
      rfl
    · refine ⟨t.swept.owners, t.swept.locks, t.swept.inUse, ?_, rfl,
        fun hunmarked => ?_⟩
      · rw [Registry.get?_swept, ht]
        rfl
      · rw [Transport.swept_of_unmarked hunmarked]
        exact ⟨rfl, rfl⟩
  · intro t ht
    obtain ⟨pre, s, post, t₀, rfl, ⟨endpoint, device, configuration, hop, hcreate⟩,
      hid, hlife⟩ := run.life ht
    rw [hid, run.around.1.options_eq] at hcreate
    refine ⟨pre, s, post, t₀, endpoint, device, configuration, rfl, hop, hcreate, ?_⟩
    intro mid rest b₁ hpost hrun
    obtain ⟨u, hu, hterms, -⟩ := hlife mid rest b₁ hpost hrun
    exact ⟨u, hu, hterms⟩

/-- Two transports of one device, both owned by one client. The start for its owner
of the first fails. -/
def Scene.twoTransports : List (Script × Operation) :=
  [({}, .create speaker device []), ({}, .create speaker device []),
    ({}, acquire ":1" "rw" 1),
    ({ lastWatch := 1 }, .acquire "/dev/fd1" ":1" "rw" ⟨2⟩),
      ({}, .a2dpResumed ⟨⟨0⟩, ⟨0⟩⟩ (.failed .timeout))]

theorem Run.second_transport_stays :
    ∃ steps b t es n b' es' known b'',
      Run (.empty {}) steps b ∧ b.transports.get? ⟨1⟩ = some t ∧
      t.owners.toList.length = 1 ∧ b.runDeferred.Yields es (n, b') ∧ b'.deferred = ∅ ∧
      (b.perform (.remove ⟨0⟩)).Yields es' (known, b'') ∧
      b''.transports.get? ⟨1⟩ = some t := by
  have run := Broker.run_play Script.peers (.empty {}) Scene.twoTransports
  have hsecond :
      (((Broker.empty {}).played Script.peers Scene.twoTransports).transports.get?
        ⟨1⟩).any
      (fun t => t.owners.toList.length == 1) = true := by decide
  generalize (Broker.empty {}).played Script.peers Scene.twoTransports = b
    at run hsecond
  obtain ⟨t, ht, howners⟩ := (Option.any_eq_true _ _).mp hsecond
  have hdrain := yields_run Script.peers b.runDeferred {}
  have hremove := yields_run Script.peers (b.perform (.remove ⟨0⟩)) {}
  obtain ⟨hnamed, hdrained, -⟩ := run.transports_are_isolated
  have hstays := hnamed (.remove ⟨0⟩) _ _ _ hremove nofun nofun ⟨1⟩
    (by simp [Operation.addressee?])
  refine ⟨_, b, t, _, _, _, _, _, _, run, ht,
    by simpa using howners, hdrain, ?_, hremove, ?_⟩
  · rw [(hdrained _ _ _ hdrain).1]
  · rw [hstays, ht]

end AudioBroker
