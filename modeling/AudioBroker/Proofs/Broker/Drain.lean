import AudioBroker.Proofs.Broker.Report
import AudioBroker.Proofs.Broker.Sweep
import AudioBroker.Proofs.Transport.Ending

/-!
# Owners that end while the queue is emptied

The queue holds tokens, and an owner whose token comes up ends if it is still there
and marked. So the owners that end are the marked ones, each of them once, and each
ends as owners do.

- `Registry.marked`: the marked owners of the live transports.
- `Registry.EndsEach`: owners of live transports end one after another.
- `Broker.runDeferred_endsEach`: when the queue is emptied, exactly the marked
  owners do.
-/

namespace AudioBroker

open Dialogue

namespace Registry

/-- The marked owners of the live transports, with the numbers of their transports. -/
def marked (r : Registry) : List (TransportId × Owner) :=
  r.toList.flatMap fun t => t.marked.map (t.id, ·)

/-- The owners end one after another, in this order. -/
inductive EndsEach : Registry → List
    (TransportId × Owner) → List Exchange → Registry → Prop where
  | nil (r : Registry) : EndsEach r [] [] r
  | cons {r r' : Registry} {t t' : Transport} {o : Owner}
      {rest : List (TransportId × Owner)}
      {es es' : List Exchange} (live : r.get? t.id = some t)
      (first : t.Ends false o es t')
      (next : EndsEach (r.replace t') rest es' r') :
        EndsEach r ((t.id, o) :: rest) (es ++ es') r'

variable {r r₁ r' : Registry} {ended ended' : List (TransportId × Owner)}
  {es es' : List Exchange}

theorem EndsEach.trans (h : r.EndsEach ended es r₁) (h' : r₁.EndsEach ended' es' r') :
    r.EndsEach (ended ++ ended') (es ++ es') r' := by
  induction h with
  | nil => exact h'
  | cons live first _ ih =>
    rw [List.append_assoc]
    exact .cons live first (ih h')

/-- Who is marked is an owner of a live transport. -/
theorem mem_marked {id : TransportId} {o : Owner} :
    (id, o) ∈ r.marked ↔
      ∃ t ∈ r.toList, t.id = id ∧ o ∈ t.owners.toList ∧ o.scheduled = true := by
  simp [marked, Transport.marked, and_left_comm, and_comm]

/-- Where nobody is marked, there are no marked owners. -/
theorem marked_eq_nil
    (h : ∀ t ∈ r.toList, ∀ o ∈ t.owners.toList, o.scheduled = false) :
    r.marked = [] := by
  refine List.flatMap_eq_nil_iff.mpr fun t ht => ?_
  rw [Transport.marked_of_unmarked (h t ht)]
  rfl

/-- The end of a marked owner leaves the other marked ones. -/
theorem marked_without {t : Transport} {i : Nat} {o : Owner} (hd : r.Distinct)
    (live : r.get? t.id = some t) (ho : t.owners.toList[i]? = some o)
    (hs : o.scheduled = true) :
    ((t.id, o) :: (r.replace (t.without i)).marked).Perm r.marked := by
  have hid := Transport.id_eq_of_terms (Transport.terms_without t i)
  obtain ⟨pre, post, hl, -, -, hreplace⟩ := hd.exists_around live
  obtain ⟨before, after, hmarked, hrest⟩ := Transport.marked_around ho hs
  rw [marked, marked, hreplace _ hid, hl, List.perm_iff_count]
  intro x
  simp only [List.flatMap_append, List.flatMap_cons, hmarked, hrest, hid,
    List.map_append, List.map_cons, List.count_append, List.count_cons]
  omega

end Registry

namespace Broker

variable {b b' : Broker} {es : List Exchange} {token : Token} {tokens : List Token}
  {n : Nat}

/-- A token that comes up ends its owner if that is marked, and nobody else. -/
theorem endScheduled_endsEach {ended : Bool} (hd : b.transports.Distinct)
    (sound : ∀ t ∈ b.transports.toList, t.Engaged ∧ t.Shared)
    (h : (b.endScheduled token).Yields es (ended, b')) :
    ∃ gone, b.transports.EndsEach gone es b'.transports ∧
      (gone ++ b'.transports.marked).Perm b.transports.marked := by
  have hnobody : ∃ gone, b.transports.EndsEach gone [] b.transports ∧
      (gone ++ b.transports.marked).Perm b.transports.marked := ⟨[], .nil _, .refl _⟩
  rcases endScheduled_cases h with ⟨-, -, rfl, rfl⟩ | ⟨t, t', hget, hend, rfl⟩
  · exact hnobody
  · have hlive := Registry.get?_id hget
    obtain ⟨engaged, shared⟩ := sound t (Registry.get?_eq_some hget).1
    rcases Transport.endScheduled_cases hend
      with ⟨-, -, rfl, rfl⟩ | ⟨i, o, hfound, hs, -, hcalls, rfl⟩
    · rw [store_self hd hget]
      exact hnobody
    · have ho := (Transport.owner?_eq_some hfound).1
      refine ⟨[(t.id, o)], ?_, Registry.marked_without hd hlive ho hs⟩
      rw [← List.append_nil es]
      exact .cons hlive (Transport.ends_of_parting engaged shared ho hcalls) (.nil _)

/-- Going through tokens ends marked owners one by one; whoever is not reached is
still marked. -/
theorem endEach_endsEach (hd : b.transports.Distinct)
    (sound : ∀ t ∈ b.transports.toList, t.Engaged ∧ t.Shared)
    (h : (b.endEach tokens).Yields es (n, b')) :
    ∃ gone, b.transports.EndsEach gone es b'.transports ∧
      (gone ++ b'.transports.marked).Perm b.transports.marked := by
  induction tokens generalizing b es n with
  | nil =>
    obtain ⟨rfl, heq⟩ := yields_pure.mp h
    cases heq
    exact ⟨[], .nil _, .refl _⟩
  | cons token rest ih =>
    obtain ⟨es₁, ended, b₁, es₂, m, h₁, h₂, rfl, -⟩ := endEach_cons_cases h
    obtain ⟨gone, hfirst, hperm⟩ := endScheduled_endsEach hd sound h₁
    have heffect := endScheduled_effect h₁
    have hsound := heffect.forall_transports (P := fun t => t.Engaged ∧ t.Shared)
      (fun t ls es t' ht move => ⟨move.engaged ht.1, move.shared ht.2⟩) sound
    obtain ⟨gone', hnext, hperm'⟩ := ih (heffect.distinct hd) hsound h₂
    refine ⟨gone ++ gone', hfirst.trans hnext, ?_⟩
    rw [List.append_assoc]
    exact (hperm'.append_left gone).trans hperm

/-- When the queue is emptied, exactly the marked owners end. -/
theorem runDeferred_endsEach (hd : b.transports.Distinct) (tracked : b.Tracked)
    (sound : ∀ t ∈ b.transports.toList, t.Engaged ∧ t.Shared)
    (h : b.runDeferred.Yields es (n, b')) :
    ∃ gone, b.transports.EndsEach gone es b'.transports ∧
      gone.Perm b.transports.marked := by
  obtain ⟨gone, hends, hperm⟩ :=
    endEach_endsEach (b := { b with deferred := ∅ }) hd sound h
  have hunmarked : ∀ t ∈ b'.transports.toList, ∀ o ∈ t.owners.toList,
      o.scheduled = false :=
    fun t ht =>
      (endEach_tracked (b := { b with deferred := ∅ }) tracked h t ht).unmarked
  rw [Registry.marked_eq_nil hunmarked, List.append_nil] at hperm
  exact ⟨gone, hends, hperm⟩

end Broker

end AudioBroker
