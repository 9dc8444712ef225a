import AudioBroker.Proofs.StreamLocks
import AudioBroker.Proofs.Sharing

/-!
# The end of an owner, whatever its cause

An owner can end in any stage: while its start is under way, after it, with its call
answered or not, with all that it asked for or with a part of it. What it still
holds is closed in one order, and what is left is its transport without it.

- `LockKey.giveBack`: the call that gives back a stream lock.
- `Owner.closing`: the calls that close what an owner holds; where its client left,
  only its start is aborted.
- `Transport.Ends`: one owner ends; `Transport.EndsEach`: several do, one after
  another.
- `Transport.ends_of_parting`, `Transport.ends_of_departed`,
  `Transport.endAll_endsEach`: so it is wherever an owner is torn down.
- `Transport.vacatingCalls`, `Transport.endAll_eq`: what is said when all of them
  are.
-/

namespace AudioBroker

open Dialogue

/-- The call that gives a stream lock back. -/
def LockKey.giveBack : LockKey → Call
  | stream sep session => .unlockStream sep session
  | voice device lock => .unlockVoice device lock

/-- A lock that is held is given back by one call. -/
theorem Backend.unlockCalls_of_held {b : Backend} {device : Device} {k : LockKey}
    (h : b.lockKey? device = some k) : b.unlockCalls true device = [k.giveBack] := by
  cases b with
  | a2dp sep session =>
    obtain ⟨s, rfl, rfl⟩ := Option.map_eq_some_iff.mp h
    rfl
  | headset lock imtu omtu =>
    cases h
    rfl

namespace Owner

/-- The calls that close what an owner holds: its watch, its start, and its call.
Where its client left, the watch has fired and nobody waits for an answer. -/
def closing (o : Owner) (departed : Bool) (b : Backend) (device : Device) :
    List Call :=
  (if departed then [] else o.watch.toList.map .unwatch) ++
    (o.request?.toList.map (b.abortCall device) ++
      if departed then [] else o.unspent?.toList.map fun call =>
        .reply call (.failure .resumeFailed))

theorem closing_false (o : Owner) (b : Backend) (device : Device) :
    o.closing false b device = o.partingCalls b device :=
  (o.partingCalls_eq b device).symm

/-- A client that left is not watched any more, and gets no answer. -/
theorem closing_true (o : Owner) (b : Backend) (device : Device) :
    o.closing true b device = o.depart.partingCalls b device := by
  rw [partingCalls_eq, closing]
  simp only [depart, request?, unspent?]
  cases o.pending <;> rfl

end Owner

namespace Transport

variable {t t₁ t' : Transport} {departed : Bool} {o : Owner} {os os' : List Owner}
  {i : Nat} {es es' : List Exchange}

/-! ### One owner -/

/-- The owner ends. What it holds is closed, and the stream lock is given back if it
is the last one. It is gone then and its directions are free, the transport is in
use while others are left, and nothing else is changed, neither of them nor of the
transport. -/
inductive Ends (t : Transport) (departed : Bool) (o : Owner) :
    List Exchange → Transport → Prop where
  | intro {pre post : List Owner} {owners : BoundedList Owner maxOwners}
      {key : LockKey} {es : List Exchange}
      (here : t.owners.toList = pre ++ o :: post)
      (others : owners.toList = pre ++ post)
      (held : t.heldLock? = some key) (taken : o.access ⊆ t.locks)
      (calls : es.map Exchange.call = o.closing departed t.backend t.device ++
        if owners.isEmpty then [key.giveBack] else []) :
      Ends t departed o es { t with owners, locks := t.locks \ o.access,
                                    inUse := !owners.isEmpty }

/-- A transport with owners holds a stream lock. -/
theorem Engaged.held (h : t.Engaged) (ho : o ∈ t.owners.toList) :
    t.inUse = true ∧ ∃ key,
      t.heldLock? = some key ∧ t.backend.lockKey? t.device = some key := by
  have hin : t.inUse = true := h.inUse_iff.mpr (List.ne_nil_of_mem ho)
  obtain ⟨key, hkey⟩ := Option.isSome_iff_exists.mp (h.keyed hin)
  exact ⟨hin, key, by rw [heldLock?, if_pos hin, hkey], hkey⟩

/-- What an owner holds is taken. -/
theorem Shared.access_subset (h : t.Shared) (ho : o ∈ t.owners.toList) :
    o.access ⊆ t.locks := by
  have hsome : ∀ d, o.access.has d = true → t.locks.has d = true := by
    intro d hd
    rw [h.locks_eq, Access.has_unions]
    exact List.any_eq_true.mpr ⟨o.access, List.mem_map_of_mem ho, hd⟩
  exact Access.subset_iff.mpr ⟨hsome .reading, hsome .writing⟩

/-- An owner whose calls are made, and that is gone then, has ended; it frees what
it held since nobody shared that with it. -/
theorem ends_of_closing (engaged : t.Engaged) (shared : t.Shared)
    (ho : t.owners.toList[i]? = some o)
    (calls : es.map Exchange.call = o.closing departed t.backend t.device ++
      if (t.owners.eraseIdx i).isEmpty then t.backend.unlockCalls t.inUse t.device
      else []) :
    t.Ends departed o es (t.without i) := by
  have hmem := List.mem_of_getElem? ho
  obtain ⟨hin, key, hheld, hkey⟩ := engaged.held hmem
  obtain ⟨pre, post, howners, -, herase, -⟩ := BoundedList.exists_around ho
  rw [hin, Backend.unlockCalls_of_held hkey] at calls
  rw [without_eq ho, hin, Bool.true_and]
  exact .intro howners herase hheld (shared.access_subset hmem) calls

/-- An owner that is torn down ends. -/
theorem ends_of_parting (engaged : t.Engaged) (shared : t.Shared)
    (ho : t.owners.toList[i]? = some o)
    (h : es.map Exchange.call = t.partingCalls i) :
    t.Ends false o es (t.without i) := by
  refine ends_of_closing engaged shared ho ?_
  rw [h, partingCalls_eq ho, Owner.closing_false]

/-- An owner that is torn down because its client left ends. -/
theorem ends_of_departed (engaged : t.Engaged) (shared : t.Shared)
    (ho : t.owners.toList[i]? = some o)
    (h : es.map Exchange.call = (t.modifyOwner i Owner.depart).partingCalls i) :
    t.Ends true o es ((t.modifyOwner i Owner.depart).without i) := by
  rw [without_modifyOwner ho rfl]
  refine ends_of_closing engaged shared ho ?_
  rw [h, partingCalls_eq (getElem?_modifyOwner ho), eraseIdx_modifyOwner,
    Owner.closing_true]
  rfl

theorem Ends.terms_eq (h : t.Ends departed o es t') : t'.terms = t.terms := by
  cases h
  rfl

/-- Nobody of the name is left. -/
theorem Ends.name_ne (h : t.Ends departed o es t') (shared : t.Shared) :
    ∀ u ∈ t'.owners.toList, u.name ≠ o.name := by
  obtain @⟨pre, post, owners, key, _, here, others, -, -, -⟩ := h
  intro u hu
  rw [others] at hu
  exact shared.name_ne here hu

/-! ### Several owners -/

/-- The owners end one after another, in this order. -/
inductive EndsEach : Transport → List Owner → List Exchange → Transport → Prop where
  | nil (t : Transport) : EndsEach t [] [] t
  | cons {t t₁ t' : Transport} {o : Owner} {os : List Owner} {es es' : List Exchange}
      (first : t.Ends false o es t₁) (rest : EndsEach t₁ os es' t') :
        EndsEach t (o :: os) (es ++ es') t'

theorem EndsEach.backend_eq (h : t.EndsEach os es t') : t'.backend = t.backend := by
  induction h with
  | nil => rfl
  | cons first _ ih =>
    cases first
    exact ih

theorem endFirst_endsEach (engaged : t.Engaged) (shared : t.Shared)
    (howners : t.owners.toList = os) (h : (t.endFirst os.length).Yields es t') :
    t.EndsEach os es t' := by
  induction os generalizing t es with
  | nil =>
    obtain ⟨rfl, rfl⟩ := yields_pure.mp h
    exact .nil t'
  | cons o os ih =>
    obtain ⟨es₁, es₂, rfl, hcalls, hrest⟩ := endFirst_succ_cases h
    have ho : t.owners.toList[0]? = some o := by rw [howners, List.getElem?_cons_zero]
    have hleft : (t.without 0).owners.toList = os := by
      rw [toList_owners_without, howners, List.eraseIdx_cons_zero]
    exact .cons (ends_of_parting engaged shared ho hcalls)
      (ih (engaged.without ho) (shared.without ho) hleft hrest)

/-- When all owners are torn down, they end in their order. -/
theorem endAll_endsEach (engaged : t.Engaged) (shared : t.Shared)
    (h : t.endAll.Yields es t') :
    t.EndsEach t.owners.toList es t' :=
  endFirst_endsEach engaged shared rfl h

/-! ### All owners -/

/-- The calls that are made when all owners are torn down: what each of them holds
is closed, in their order, and then the stream lock is given back, if it is held. -/
def vacatingCalls (t : Transport) : List Call :=
  t.owners.toList.flatMap (fun o => o.closing false t.backend t.device) ++
    t.heldLock?.toList.map LockKey.giveBack

/-- A lock is held exactly while there are owners. -/
theorem Engaged.heldLock?_isSome_iff (h : t.Engaged) :
    t.heldLock?.isSome = true ↔ t.owners.toList ≠ [] := by
  constructor
  · intro hheld
    refine h.inUse_iff.mp ?_
    by_contra hidle
    rw [heldLock?, if_neg hidle] at hheld
    cases hheld
  · intro hsome
    obtain ⟨o, ho⟩ := List.exists_mem_of_ne_nil _ hsome
    obtain ⟨-, key, hheld, -⟩ := h.held ho
    rw [hheld]
    rfl

/-- The first owner goes first. -/
theorem vacatingCalls_eq (engaged : t.Engaged) (ho : t.owners.toList[0]? = some o) :
    t.vacatingCalls = t.partingCalls 0 ++ (t.without 0).vacatingCalls := by
  obtain ⟨hin, key, hheld, hkey⟩ := engaged.held (List.mem_of_getElem? ho)
  obtain ⟨os, hos⟩ : ∃ os, t.owners.toList = o :: os := by
    cases h : t.owners.toList with
    | nil => simp [h] at ho
    | cons o' os =>
      rw [h, List.getElem?_cons_zero] at ho
      exact ⟨os, by rw [Option.some.inj ho]⟩
  have hleft : (t.without 0).owners.toList = os := by
    rw [toList_owners_without, hos, List.eraseIdx_cons_zero]
  have hterms : (t.without 0).backend = t.backend ∧
      (t.without 0).device = t.device := by
    rw [without_eq ho]
    exact ⟨rfl, rfl⟩
  have hempty : (t.owners.eraseIdx 0).isEmpty = os.isEmpty := by
    rw [BoundedList.isEmpty_eq, BoundedList.toList_eraseIdx, hos,
      List.eraseIdx_cons_zero]
  rw [vacatingCalls, vacatingCalls, heldLock?_without ho, partingCalls_eq ho, hleft,
    hterms.1, hterms.2, hos, hempty, hin, Backend.unlockCalls_of_held hkey, hheld,
    ← Owner.closing_false]
  -- the lock is given back now, or with the last of the others
  cases os <;> simp

/-- Tearing down all owners makes the same calls whatever is answered. -/
theorem endFirst_eq {n : Nat} (engaged : t.Engaged)
    (hn : t.owners.toList.length = n) :
    ∃ t', t'.backend = t.backend ∧ t.endFirst n = makeAll t.vacatingCalls >>=
      fun _ => pure t' := by
  induction n generalizing t with
  | zero =>
    have hnone : t.owners.toList = [] := List.length_eq_zero_iff.mp hn
    -- nobody is left, and so no lock is held
    have hfree : t.heldLock? = none := by
      by_contra hheld
      exact engaged.heldLock?_isSome_iff.mp
        (Option.isSome_iff_ne_none.mpr hheld) hnone
    refine ⟨t, rfl, ?_⟩
    rw [vacatingCalls, hnone, hfree]
    rfl
  | succ n ih =>
    obtain ⟨o, ho⟩ : ∃ o, t.owners.toList[0]? = some o :=
      ⟨_, List.getElem?_eq_getElem (by rw [hn]; exact n.succ_pos)⟩
    have hlength : (t.without 0).owners.toList.length = n := by
      rw [toList_owners_without,
        List.length_eraseIdx_of_lt (by rw [hn]; exact n.succ_pos), hn,
        Nat.add_sub_cancel]
    obtain ⟨t', hbackend, hrest⟩ := ih (engaged.without ho) hlength
    refine ⟨t', hbackend.trans (by rw [without_eq ho]), ?_⟩
    rw [endFirst, endAt, bind_assoc, vacatingCalls_eq engaged ho, makeAll_append,
      bind_assoc]
    simp only [pure_bind, hrest]

/-- All owners are torn down by the same calls whatever is answered. -/
theorem endAll_eq (engaged : t.Engaged) :
    ∃ t', t'.backend = t.backend ∧ t.endAll = makeAll t.vacatingCalls >>= fun _ =>
      pure t' :=
  endFirst_eq engaged rfl

end Transport

end AudioBroker
