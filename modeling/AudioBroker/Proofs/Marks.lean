import AudioBroker.Proofs.Deferred

/-!
# Nobody is marked once the queue is empty

Where a counter starts over two owners can have one number, and a token can find an
owner that it was not given out for. Still the token of every marked owner is in the
queue, and it is that owner that the token finds; so whoever empties the queue
leaves nobody marked.

- `Transport.Tracked`: the tokens of marked owners are among the given ones, and
  find them.
- `Broker.Tracked.turn`: every operation keeps this for the tokens in the queue.
- `Broker.Turn.length_deferred_le`: an operation adds one token to the queue at
  most.
- `Run.unmarked_of_idle`: what it comes to in every run.
-/

namespace AudioBroker

open Dialogue

namespace Transport

variable {t t' : Transport} {queue queue' : List Token} {token : Token}
  {es : List Exchange}

/-- The token of every marked owner is among these, and nobody that came before has
the owner's number. -/
structure Tracked (t : Transport) (queue : List Token) : Prop where
  queued : ∀ s ∈ t.stamps, s.2 = true → t.token s.1 ∈ queue
  first : t.stamps.Pairwise fun s s' => s'.2 = true → s.1 ≠ s'.1

/-- Owners that go, or stay as they are, leave the others tracked. -/
theorem Tracked.sublist (h : t.Tracked queue) (terms : t'.terms = t.terms)
    (stamps : t'.stamps.Sublist t.stamps) : t'.Tracked queue where
  queued s hs hmark := by
    rw [token_eq_of_terms terms]
    exact h.queued s (stamps.subset hs) hmark
  first := h.first.sublist stamps

theorem Tracked.mono (h : t.Tracked queue) (hsub : queue ⊆ queue') :
    t.Tracked queue' where
  queued s hs hmark := hsub (h.queued s hs hmark)
  first := h.first

theorem tracked_of_vacant (h : t.owners.toList = []) : t.Tracked queue where
  queued s hs := by
    rw [stamps, h] at hs
    cases hs
  first := by
    rw [stamps, h]
    exact .nil

/-- One token less, which belongs to none of the marked owners. -/
theorem Tracked.pop (h : t.Tracked (token :: queue))
    (hne : ∀ s ∈ t.stamps, s.2 = true → t.token s.1 ≠ token) : t.Tracked queue where
  queued s hs hmark := (List.mem_cons.mp (h.queued s hs hmark)).resolve_left
    (hne s hs hmark)
  first := h.first

/-- A token of another transport can go. -/
theorem Tracked.pop_of_ne (h : t.Tracked (token :: queue))
    (hne : t.id ≠ token.transport) :
    t.Tracked queue :=
  h.pop fun _ _ _ heq => hne (heq ▸ rfl)

/-- One more owner, who is not marked. -/
theorem Tracked.join {id : OwnerId} (h : t.Tracked queue) (terms : t'.terms = t.terms)
    (stamps : t'.stamps.Sublist (t.stamps ++ [(id, false)])) : t'.Tracked queue where
  queued s hs hmark := by
    rw [token_eq_of_terms terms]
    rcases List.mem_append.mp (stamps.subset hs) with hs | hs
    · exact h.queued s hs hmark
    · rw [List.mem_singleton.mp hs] at hmark
      cases hmark
  first := by
    refine List.Pairwise.sublist stamps
      (List.pairwise_append.mpr ⟨h.first, by simp, ?_⟩)
    intro s _ s' hs' hmark
    rw [List.mem_singleton.mp hs'] at hmark
    cases hmark

/-- The first owner with its number is marked, and its token is one more. -/
theorem Tracked.mark {id : OwnerId} {pre post : List (OwnerId × Bool)}
    (h : t.Tracked queue) (terms : t'.terms = t.terms)
    (before : t.stamps = pre ++ (id, false) :: post)
    (after : t'.stamps = pre ++ (id, true) :: post) (first : ∀ s ∈ pre, s.1 ≠ id) :
    t'.Tracked (queue ++ [t.token id]) := by
  constructor
  · intro s hs hmark
    rw [token_eq_of_terms terms, List.mem_append, List.mem_singleton]
    rw [after] at hs
    rcases BoundedList.mem_around.mp hs with rfl | hs
    · exact .inr rfl
    · -- the other stamps are as they were
      have hs' : s ∈ t.stamps := by
        rw [before]
        exact BoundedList.mem_around.mpr (.inr hs)
      exact .inl (h.queued s hs' hmark)
  · have hfirst := h.first
    rw [before, List.pairwise_append, List.pairwise_cons] at hfirst
    obtain ⟨hpre, ⟨hself, hpost⟩, hacross⟩ := hfirst
    rw [after, List.pairwise_append, List.pairwise_cons]
    refine ⟨hpre, ⟨hself, hpost⟩, fun s hs s' hs' hmark => ?_⟩
    rcases List.mem_cons.mp hs' with rfl | hs'
    · exact first s hs
    · exact hacross s hs s' (List.mem_cons_of_mem _ hs') hmark

/-- Without tokens nobody is marked. -/
theorem Tracked.unmarked (h : t.Tracked []) :
    ∀ o ∈ t.owners.toList, o.scheduled = false := by
  intro o ho
  have hstamp : (o.id, o.scheduled) ∈ t.stamps := List.mem_map_of_mem ho
  by_contra hmark
  exact absurd (h.queued _ hstamp (by simpa using hmark)) List.not_mem_nil

/-- A marked owner is the one that its number finds. -/
theorem Tracked.owner?_of_marked {s : OwnerId × Bool} (h : t.Tracked queue)
    (hs : s ∈ t.stamps) (hmark : s.2 = true) :
    ∃ i o, t.owner? s.1 = some (i, o) ∧ o.scheduled = true := by
  obtain ⟨pre, post, hstamps⟩ := List.append_of_mem hs
  have hfirst := h.first
  rw [hstamps, List.pairwise_append] at hfirst
  have hbefore : ∀ a ∈ pre, a.1 ≠ s.1 :=
    fun a ha => hfirst.2.2 a ha s List.mem_cons_self hmark
  obtain ⟨id, mark⟩ := s
  obtain ⟨o, ho, hscheduled⟩ := owner?_of_stamps hstamps hbefore
  exact ⟨_, o, ho, hscheduled.trans hmark⟩

/-- A token goes, and the owner that it finds goes with it if it is marked. -/
theorem Tracked.endScheduled {ended : Bool} (h : t.Tracked (token :: queue))
    (ends : (t.endScheduled token.owner).Yields es (ended, t')) :
    t'.Tracked queue := by
  rcases endScheduled_cases ends
    with ⟨hunmarked, -, -, rfl⟩ | ⟨i, o, ho, hs, -, -, rfl⟩
  · refine h.pop fun s hs hmark heq => ?_
    -- a marked owner with this token would be the one that it finds
    obtain ⟨i, o, ho, hscheduled⟩ := h.owner?_of_marked hs hmark
    have hid : s.1 = token.owner := by rw [← heq]; rfl
    rw [hunmarked i o (hid ▸ ho)] at hscheduled
    cases hscheduled
  · obtain ⟨pre, post, hstamps, rfl, hbefore⟩ := stamps_of_owner? ho
    have hrest := stamps_without_around hstamps
    have hkept := h.sublist (terms_without t pre.length)
      (stamps_without_sublist t pre.length)
    refine hkept.pop fun s hmem hmark heq => ?_
    have hid : s.1 = token.owner := by rw [← heq]; rfl
    have hfirst := h.first
    rw [hstamps, List.pairwise_append, List.pairwise_cons] at hfirst
    rw [hrest, List.mem_append] at hmem
    rcases hmem with hmem | hmem
    · exact hbefore s hmem hid
    · exact hfirst.2.1.1 s hmem hmark hid.symm

end Transport

namespace Broker

variable {b b' : Broker} {es : List Exchange} {token : Token}
  {rest tokens : List Token} {n : Nat}

/-- The tokens of the marked owners are in the queue, and find them. -/
def Tracked (b : Broker) : Prop :=
  ∀ t ∈ b.transports.toList, t.Tracked b.deferred.toList

theorem tracked_store {t' : Transport} {queue : List Token}
    (tracked : t'.Tracked queue)
    (others : ∀ u ∈ b.transports.toList, u.id ≠ t'.id → u.Tracked queue) :
    ∀ u ∈ (b.store t').transports.toList, u.Tracked queue := by
  intro u hu
  by_cases hid : u.id = t'.id
  · rw [Registry.eq_of_mem_replace hu hid]
    exact tracked
  · exact others u ((Registry.mem_replace hu).resolve_left fun heq =>
      hid (heq ▸ rfl)) hid

/-- A token can go once it was tried: it finds nobody marked any more. -/
theorem endScheduled_tracked {ended : Bool}
    (h : ∀ t ∈ b.transports.toList, t.Tracked (token :: rest))
    (ends : (b.endScheduled token).Yields es (ended, b')) :
    ∀ t ∈ b'.transports.toList, t.Tracked rest := by
  rcases endScheduled_cases ends with ⟨hnone, -, -, rfl⟩ | ⟨t, t', hget, hend, rfl⟩
  · exact fun t ht => (h t ht).pop_of_ne (Registry.get?_eq_none_iff.mp hnone t ht)
  · obtain ⟨hmem, htid⟩ := Registry.get?_eq_some hget
    refine tracked_store ((h t hmem).endScheduled hend) fun u hu hid =>
      (h u hu).pop_of_ne ?_
    rwa [(Transport.endScheduled_course hend).id_eq, htid] at hid

/-- Whoever goes through all the tokens leaves nobody marked. -/
theorem endEach_tracked (h : ∀ t ∈ b.transports.toList, t.Tracked tokens)
    (ends : (b.endEach tokens).Yields es (n, b')) :
    ∀ t ∈ b'.transports.toList, t.Tracked [] := by
  induction tokens generalizing b es n with
  | nil =>
    obtain ⟨-, heq⟩ := yields_pure.mp ends
    cases heq
    exact h
  | cons token rest ih =>
    obtain ⟨es₁, ended, b₁, es₂, m, h₁, h₂, -, -⟩ := endEach_cons_cases ends
    exact ih (endScheduled_tracked h h₁) h₂

theorem endScheduled_deferred {ended : Bool}
    (h : (b.endScheduled token).Yields es (ended, b')) :
    b'.deferred = b.deferred := by
  rcases endScheduled_cases h with ⟨-, -, -, rfl⟩ | ⟨t, t', -, -, rfl⟩ <;> rfl

theorem endEach_deferred (h : (b.endEach tokens).Yields es (n, b')) :
    b'.deferred = b.deferred := by
  induction tokens generalizing b es n with
  | nil =>
    obtain ⟨-, heq⟩ := yields_pure.mp h
    cases heq
    rfl
  | cons token rest ih =>
    obtain ⟨es₁, ended, b₁, es₂, m, h₁, h₂, -, -⟩ := endEach_cons_cases h
    exact (ih h₂).trans (endScheduled_deferred h₁)

/-- The queue is empty after its run, whatever its tokens found. -/
theorem runDeferred_deferred (h : b.runDeferred.Yields es (n, b')) :
    b'.deferred = ∅ :=
  endEach_deferred (b := { b with deferred := ∅ }) h

/-- No operation puts more than one token into the queue. -/
theorem Turn.length_deferred_le (turn : b.Turn b') :
    b'.deferred.toList.length ≤ b.deferred.toList.length + 1 := by
  cases turn with
  | still | created _ _ | removed _ | stored _ _ _ | acquired _ _ _ =>
    exact Nat.le_succ _
  | marked _ _ _ _ _ _ push =>
    obtain ⟨-, hpush⟩ := BoundedList.push?_eq_some_iff.mp push
    simp [hpush]
  | drained drain =>
    rw [runDeferred_deferred drain]
    exact Nat.zero_le _

theorem Tracked.turn (h : b.Tracked) (turn : b.Turn b') : b'.Tracked := by
  -- the queue loses tokens only where all marks go with them
  cases turn with
  | still => exact h
  | created created insert =>
    intro u hu
    rcases Registry.mem_insert? insert hu with rfl | hu
    · exact Transport.tracked_of_vacant (Transport.owners_of_create created)
    · exact h u hu
  | removed id => exact fun u hu => h u (List.mem_filter.mp hu).1
  | stored live terms stamps =>
    have hstored := (h _ (Registry.get?_eq_some live).1).sublist terms stamps
    exact tracked_store hstored fun u hu _ => h u hu
  | acquired live terms stamps =>
    have hjoined := (h _ (Registry.get?_eq_some live).1).join terms stamps
    exact tracked_store hjoined fun u hu _ => h u hu
  | @marked t t' id pre post deferred live terms kind before after first push =>
    obtain ⟨-, hpush⟩ := BoundedList.push?_eq_some_iff.mp push
    have hmarked := (h t (Registry.get?_eq_some live).1).mark terms before after first
    show ∀ u ∈ (b.store t').transports.toList, u.Tracked deferred.toList
    rw [hpush]
    exact tracked_store hmarked fun u hu _ =>
      (h u hu).mono (List.subset_append_left _ _)
  | drained drain =>
    intro u hu
    exact (endEach_tracked (b := { b with deferred := ∅ }) h drain u hu).mono
      (List.nil_subset _)

end Broker

variable {options : Options} {steps : List Step} {b : Broker}

/-- In every run the tokens of marked owners are in the queue, even if a counter has
started over. -/
theorem Run.tracked (run : Run (.empty options) steps b) : b.Tracked := by
  apply run.invariant (P := Broker.Tracked)
  · intro t ht
    cases ht
  · intro s _ hs
    exact hs.turn s.turn

/-- While the queue is empty nobody is marked, whatever became of the counters. -/
theorem Run.unmarked_of_idle (run : Run (.empty options) steps b)
    (idle : b.deferred = ∅) :
    ∀ t ∈ b.transports.toList, ∀ o ∈ t.owners.toList, o.scheduled = false := by
  intro t ht
  have htracked := run.tracked t ht
  rw [idle] at htracked
  exact htracked.unmarked

end AudioBroker
