import AudioBroker.Proofs.Marks
import AudioBroker.Proofs.Transport.Sweep

/-!
# What the queue comes to

Emptying the queue tears down the marked owners, and they are all gone then. The
state after it can be read off the state before it, whatever the order of the
tokens; and an owner that is torn down before its turn changes nothing of it.

- `Registry.swept`, `Registry.sweepCalls`, `Registry.marks`: the live transports
  once all marked owners are gone, the calls that are made until then, and the
  number of owners that go.
- `Registry.Sweeps`: some of the marked owners went.
- `Broker.runDeferred_sweeps`: what emptying the queue comes to.
-/

namespace AudioBroker

open Dialogue

namespace Registry

/-- The live transports once the marked owners are gone. -/
def swept (r : Registry) : Registry := r.map Transport.swept

/-- The calls that are made when the marked owners go. -/
def sweepCalls (r : Registry) : List Call := r.toList.flatMap Transport.sweepCalls

/-- How many owners are marked. -/
def marks (r : Registry) : Nat := (r.toList.map Transport.marks).sum

variable {r r₁ r' : Registry} {cs cs' : List Call} {n n' : Nat}

/-- Of the marked owners `n` went, with the calls `cs`. -/
structure Sweeps (r : Registry) (cs : List Call) (n : Nat) (r' : Registry) :
    Prop where
  swept : r'.swept = r.swept
  calls : (cs ++ r'.sweepCalls).Perm r.sweepCalls
  marks : r.marks = r'.marks + n

theorem Sweeps.refl (r : Registry) : r.Sweeps [] 0 r where
  swept := rfl
  calls := .refl _
  marks := rfl

theorem Sweeps.trans (h : r.Sweeps cs n r₁) (h' : r₁.Sweeps cs' n' r') :
    r.Sweeps (cs ++ cs') (n + n') r' where
  swept := h'.swept.trans h.swept
  calls := by
    rw [List.append_assoc]
    exact (h'.calls.append_left cs).trans h.calls
  marks := by
    have hfirst := h.marks
    have hnext := h'.marks
    omega

/-- A marked owner goes. -/
theorem sweeps_without {t : Transport} {i : Nat} {o : Owner} (hd : r.Distinct)
    (live : r.get? t.id = some t) (ho : t.owners.toList[i]? = some o)
    (hs : o.scheduled = true) :
    r.Sweeps (t.partingCalls i) 1 (r.replace (t.without i)) := by
  obtain ⟨pre, post, hl, -, -, hreplace⟩ := hd.exists_around live
  have hput := hreplace _ (Transport.id_eq_of_terms (Transport.terms_without t i))
  constructor
  · refine BoundedList.ext ?_
    rw [swept, swept, BoundedList.toList_map, BoundedList.toList_map, hput, hl,
      List.map_append, List.map_append, List.map_cons, List.map_cons,
      Transport.swept_without ho hs]
  · -- its calls come first here, and in the order of the owners there
    have hcalls := List.perm_iff_count.mp (Transport.sweepCalls_without ho hs)
    rw [sweepCalls, sweepCalls, hput, hl, List.perm_iff_count]
    intro c
    have hcount := hcalls c
    simp only [List.flatMap_append, List.flatMap_cons, List.count_append] at hcount ⊢
    omega
  · have hmarks := Transport.marks_without ho hs
    rw [marks, marks, hput, hl]
    simp only [List.map_append, List.map_cons, List.sum_append, List.sum_cons]
    omega

/-- A sweep changes a transport in its place. -/
theorem get?_swept (r : Registry) (id : TransportId) :
    r.swept.get? id = (r.get? id).map Transport.swept := by
  rw [get?, swept, BoundedList.toList_map, List.find?_map, get?]
  rfl

/-- Where nobody is marked the sweep is over. -/
theorem swept_of_unmarked
    (h : ∀ t ∈ r.toList, ∀ o ∈ t.owners.toList, o.scheduled = false) :
    r.swept = r ∧ r.sweepCalls = [] ∧ r.marks = 0 := by
  refine ⟨BoundedList.ext ?_, ?_, ?_⟩
  · rw [swept, BoundedList.toList_map]
    exact (List.map_congr_left fun t ht =>
      Transport.swept_of_unmarked (h t ht)).trans (List.map_id _)
  · exact List.flatMap_eq_nil_iff.mpr fun t ht =>
      Transport.sweepCalls_of_unmarked (h t ht)
  · refine List.sum_eq_zero fun n hn => ?_
    obtain ⟨t, ht, rfl⟩ := List.mem_map.mp hn
    exact Transport.marks_of_unmarked (h t ht)

end Registry

namespace Broker

variable {b b' : Broker} {es : List Exchange} {token : Token} {tokens : List Token}
  {n : Nat}

/-- A token sweeps the owner that it finds, if that one is marked. -/
theorem endScheduled_sweeps {ended : Bool} (hd : b.transports.Distinct)
    (h : (b.endScheduled token).Yields es (ended, b')) :
    b.transports.Sweeps (es.map Exchange.call) ended.toNat b'.transports ∧
      b' = { b with transports := b'.transports } := by
  rcases endScheduled_cases h with ⟨-, rfl, rfl, rfl⟩ | ⟨t, t', hget, hend, rfl⟩
  · exact ⟨.refl _, rfl⟩
  · refine ⟨?_, rfl⟩
    have hlive := Registry.get?_id hget
    show b.transports.Sweeps _ _ (b.transports.replace t')
    rcases Transport.endScheduled_cases hend
      with ⟨-, rfl, rfl, rfl⟩ | ⟨i, o, ho, hs, rfl, hcalls, rfl⟩
    · rw [hd.replace_self hlive]
      exact .refl _
    · rw [hcalls]
      exact Registry.sweeps_without hd hlive (Transport.owner?_eq_some ho).1 hs

/-- Going through tokens sweeps the owners that they find. -/
theorem endEach_sweeps (hd : b.transports.Distinct)
    (h : (b.endEach tokens).Yields es (n, b')) :
    b.transports.Sweeps (es.map Exchange.call) n b'.transports ∧
      b' = { b with transports := b'.transports } := by
  induction tokens generalizing b es n with
  | nil =>
    obtain ⟨rfl, heq⟩ := yields_pure.mp h
    cases heq
    exact ⟨.refl _, rfl⟩
  | cons token rest ih =>
    obtain ⟨es₁, ended, b₁, es₂, m, h₁, h₂, rfl, rfl⟩ := endEach_cons_cases h
    obtain ⟨hfirst, hb₁⟩ := endScheduled_sweeps hd h₁
    obtain ⟨hnext, hb'⟩ := ih ((endScheduled_effect h₁).distinct hd) h₂
    refine ⟨?_, ?_⟩
    · have hcount : (if ended then m + 1 else m) = ended.toNat + m := by
        cases ended <;> simp [Nat.add_comm]
      rw [List.map_append, hcount]
      exact hfirst.trans hnext
    · rw [hb', hb₁]

/-- Emptying the queue tears down all marked owners, and changes nothing else. -/
theorem runDeferred_sweeps (hd : b.transports.Distinct) (tracked : b.Tracked)
    (h : b.runDeferred.Yields es (n, b')) :
    b' = { b with transports := b.transports.swept, deferred := ∅ } ∧
      (es.map Exchange.call).Perm b.transports.sweepCalls ∧
        n = b.transports.marks := by
  obtain ⟨hsweeps, hb'⟩ := endEach_sweeps (b := { b with deferred := ∅ }) hd h
  -- whoever is marked has a token, so that nobody is marked in the end
  have hunmarked : ∀ t ∈ b'.transports.toList, ∀ o ∈ t.owners.toList,
      o.scheduled = false :=
    fun t ht =>
      (endEach_tracked (b := { b with deferred := ∅ }) tracked h t ht).unmarked
  obtain ⟨hswept, hcalls, hmarks⟩ := Registry.swept_of_unmarked hunmarked
  refine ⟨?_, ?_, ?_⟩
  · rw [hb', ← hsweeps.swept, hswept]
  · simpa [hcalls] using hsweeps.calls
  · simpa [hmarks] using hsweeps.marks.symm

end Broker

end AudioBroker
