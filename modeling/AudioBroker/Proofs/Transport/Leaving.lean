import AudioBroker.Proofs.Transport.Tally

/-!
# Owners on their way out

Once an owner was taken on, and apart from the report that its start has ended, all
that becomes of it is that it gives back directions, that its client leaves, that it
is marked, and that it is torn down. None of this is seen in the transport but in
its owners.

- `Transport.Leaving`: owners of a transport on their way out, with what is said.
- `Transport.release_leaving` and the like: every such operation is of this kind.
- `Transport.bare`: a transport without its owners, which none of this changes
  (`Leaving.bare_eq`).
- `Transport.complete_leaving`: a report is an attempt to deliver, and then this.
-/

namespace AudioBroker

open Dialogue

namespace Transport

/-- Owners on their way out. Nobody is admitted, and no start is reported to have
ended. -/
inductive Leaving : Transport → List Exchange → Transport → Prop where
  | nil (t : Transport) : Leaving t [] t
  | narrowed {t t' : Transport} {i : Nat} {o : Owner} (a : Access)
      {es : List Exchange}
      (owner : t.owners.toList[i]? = some o) (rest : Leaving (t.narrow i a) es t') :
        Leaving t es t'
  | departed {t t' : Transport} {i : Nat} {o : Owner} {es : List Exchange}
      (owner : t.owners.toList[i]? = some o)
      (rest : Leaving (t.modifyOwner i Owner.depart) es t') :
      Leaving t es t'
  /-- The start for an owner that is marked has ended. -/
  | scheduled {t t' : Transport} {i : Nat} {o : Owner} {es : List Exchange}
      (owner : t.owners.toList[i]? = some o) (settled : o.request? = none)
      (rest : Leaving (t.modifyOwner i Owner.schedule) es t') : Leaving t es t'
  | ended {t t' : Transport} {i : Nat} {o : Owner} {es es' : List Exchange}
      (owner : t.owners.toList[i]? = some o)
      (parting : es.map Exchange.call = t.partingCalls i)
      (rest : Leaving (t.without i) es' t') : Leaving t (es ++ es') t'

variable {t t₁ t' : Transport} {es es' : List Exchange} {i : Nat} {o : Owner}
  {id : OwnerId}

theorem Leaving.trans (h : t.Leaving es t₁) (h' : t₁.Leaving es' t') :
    t.Leaving (es ++ es') t' := by
  induction h with
  | nil => exact h'
  | narrowed a owner _ ih => exact .narrowed a owner (ih h')
  | departed owner _ ih => exact .departed owner (ih h')
  | scheduled owner settled _ ih => exact .scheduled owner settled (ih h')
  | ended owner parting _ ih =>
    rw [List.append_assoc]
    exact .ended owner parting (ih h')

/-! ### The operations -/

theorem endAt_leaving (h : es.map Exchange.call = t.partingCalls i) :
    t.Leaving es (t.without i) := by
  cases ho : t.owners.toList[i]? with
  | none =>
    rw [partingCalls_of_none ho, List.map_eq_nil_iff] at h
    rw [h, without_of_none ho]
    exact .nil t
  | some o => simpa using Leaving.ended ho h (.nil _)

theorem endFirst_leaving {n : Nat} (h : (t.endFirst n).Yields es t') :
    t.Leaving es t' := by
  induction n generalizing t es with
  | zero =>
    obtain ⟨rfl, rfl⟩ := yields_pure.mp h
    exact .nil t'
  | succ n ih =>
    obtain ⟨es₁, es₂, rfl, h₁, h₂⟩ := endFirst_succ_cases h
    exact (endAt_leaving h₁).trans (ih h₂)

/-- An owner whose client left is on its way out. -/
theorem exit_leaving {known : Bool} (h : (t.exit id).Yields es (known, t')) :
    t.Leaving es t' := by
  rcases exit_cases h with ⟨-, -, rfl, rfl⟩ | ⟨i, o, ho, -, hcalls, rfl⟩
  · exact .nil t'
  · exact .departed (owner?_eq_some ho).1 (endAt_leaving hcalls)

theorem endScheduled_leaving {ended : Bool}
    (h : (t.endScheduled id).Yields es (ended, t')) :
    t.Leaving es t' := by
  rcases endScheduled_cases h with ⟨-, -, rfl, rfl⟩ | ⟨i, o, -, -, -, hcalls, rfl⟩
  · exact .nil t'
  · exact endAt_leaving hcalls

/-- An owner that gives something back holds less, or is on its way out. -/
theorem release_leaving {client text : String} {result : Except Fault Unit}
    (h : (t.release client text).Yields es (result, t')) : t.Leaving es t' := by
  rcases release_cases h with ⟨-, rfl, rfl⟩ | ⟨i, o, a, ho, -, -, hcase⟩
  · exact .nil t'
  · rcases hcase with ⟨-, hcalls, rfl⟩ | ⟨-, -, rfl, rfl⟩
    · exact endAt_leaving hcalls
    · exact .narrowed a (ownerOf?_eq_some ho).1 (.nil _)

/-- An owner whose start failed is marked or torn down, and has no request left to be
aborted. -/
theorem fail_leaving {completion : Completion} (ho : t.owners.toList[i]? = some o)
    (settled : o.request? = none) (h : (t.fail i).Yields es (completion, t')) :
    t.Leaving es t' := by
  rcases fail_cases h with ⟨-, -, rfl, rfl⟩ | ⟨-, -, hcalls, rfl⟩
  · exact .scheduled ho settled (.nil _)
  · exact endAt_leaving hcalls

/-- An attempt to deliver asks for the stream, announces it and sends it, and says
nothing else. -/
theorem attempt_plain {p : Pending} {success delivered : Bool}
    (h : (t.attempt i p success).Yields es (delivered, t')) :
    ∀ e ∈ es, e.call.isPlain = true := by
  have hplain : ∀ {stream? es}, (t.backend.stream t.device).Yields es stream? →
      ∀ e ∈ es, e.call.isPlain = true := by
    intro stream? es hstream e he
    obtain ⟨e', rfl, query⟩ := stream_query hstream
    rw [List.mem_singleton.mp he]
    exact Call.isPlain_of_isQuery query
  unfold attempt at h
  split at h
  · rcases deliver_cases h with ⟨-, hnone, -⟩ |
      ⟨s, es₁, es₂, t₂, es₃, hstream, hinstall, rfl, -, hreply⟩
    · exact hplain hnone
    · -- the question, the announcements and the reply
      intro e he
      rcases List.mem_append.mp he with he | he
      · rcases List.mem_append.mp he with he | he
        · exact hplain hstream e he
        · exact install_plain hinstall e he
      · rcases hreply with ⟨-, rfl, -⟩ | ⟨call, delivery, -, rfl, -⟩
        · cases he
        · rw [List.mem_singleton.mp he]
          rfl
  · obtain ⟨rfl, -⟩ := yields_pure.mp h
    simp

/-- The attempt to deliver changes the stream, and the owner for whom the start has
ended: it holds no request any more. -/
theorem attempt_settles {p : Pending} {success delivered : Bool}
    (h : (t.attempt i p success).Yields es (delivered, t')) :
    ∃ f : Owner → Owner, t' = { t.modifyOwner i f with stream := t'.stream } ∧
      (∀ o, (f o).id = o.id ∧ (f o).request? = none) ∧ ∀ e ∈ es,
        e.call.isPlain = true := by
  obtain ⟨f, hf, heq⟩ := attempt_modifies h
  refine ⟨f, heq, fun o => ?_, attempt_plain h⟩
  rcases hf with rfl | ⟨rfl, -⟩
  · exact ⟨rfl, rfl⟩
  · refine ⟨rfl, ?_⟩
    cases hp : o.pending <;> simp [Owner.settle, Owner.request?, hp]

/-- A report for an owner that waits: its outcome is delivered, and if it could not
be the owner is on its way out. -/
theorem complete_leaving {p : Pending} {success : Bool} {completion : Completion}
    (waits : t.awaiting? id = some (i, p))
    (h : (t.complete id success).Yields es (completion, t')) :
    ∃ es₁ delivered t₁ es₂,
      (t.attempt i p success).Yields es₁ (delivered, t₁) ∧ es = es₁ ++ es₂ ∧
      t₁.Leaving es₂ t' := by
  rcases complete_cases h with ⟨hnone, -⟩ | ⟨j, q, hwaits, hcase⟩
  · rw [waits] at hnone
    cases hnone
  · cases waits.symm.trans hwaits
    obtain ⟨o, ho, -, -⟩ := awaiting?_eq_some_iff.mp waits
    rcases hcase with ⟨-, hattempt⟩ | ⟨es₁, t₁, es₂, hattempt, hfail, rfl⟩
    · exact ⟨es, true, t', [], hattempt, by simp, .nil t'⟩
    · obtain ⟨f, hsettled, hf, -⟩ := attempt_settles hattempt
      have ho₁ : t₁.owners.toList[i]? = some (f o) := by
        rw [hsettled]
        exact getElem?_modifyOwner (owner?_eq_some ho).1
      exact ⟨es₁, false, t₁, es₂, hattempt, rfl, fail_leaving ho₁ (hf o).2 hfail⟩

/-! ### What stays -/

/-- A transport without its owners. -/
def bare (t : Transport) : Transport :=
  { t with owners := ∅, locks := ∅, inUse := false }

theorem bare_without (t : Transport) (i : Nat) : (t.without i).bare = t.bare := by
  cases ho : t.owners.toList[i]? with
  | none => rw [without_of_none ho]
  | some o =>
    rw [without_eq ho]
    rfl

/-- Owners on their way out leave the rest of their transport. -/
theorem Leaving.bare_eq (h : t.Leaving es t') : t'.bare = t.bare := by
  induction h with
  | nil => rfl
  | narrowed _ _ _ ih | departed _ _ ih | scheduled _ _ _ ih => exact ih
  | @ended t t' i o _ _ _ _ _ ih => rw [ih, bare_without]

theorem id_eq_of_bare (h : t'.bare = t.bare) : t'.id = t.id :=
  congrArg (fun u => u.id) h

/-- Owners on their way out close things, and nothing is opened for them. -/
theorem Leaving.isClosing (h : t.Leaving es t') :
    ∀ e ∈ es, e.call.isClosing = true := by
  induction h with
  | nil => simp
  | narrowed _ _ _ ih | departed _ _ ih | scheduled _ _ _ ih => exact ih
  | ended _ parting _ ih =>
    intro e he
    rcases List.mem_append.mp he with he | he
    · exact isClosing_parting parting e he
    · exact ih e he

end Transport

end AudioBroker
