import AudioBroker.Proofs.Broker.Report
import AudioBroker.Proofs.Sharing

/-!
# Giving access back

What a client gives back is nothing that it holds, or all of it, or a part of it. A
part can be given back before the rest, so that the end of an owner does not depend
on how its client goes about it.

- `Transport.release_of_all`, `Transport.release_of_part`,
  `Transport.release_of_other`: the three cases.
- `Broker.releaseEach`: access given back piece by piece.
- `Broker.releaseEach_eq`: pieces that make up what an owner holds end the owner, in
  whatever order they come.
- `Run.release_outcome`: all of this, in every state that can be reached.
-/

namespace AudioBroker

open Dialogue

namespace Access

variable {a b : Access}

/-- What is free once a part and then the rest have been given back. -/
theorem sdiff_sdiff_of_subset (locks : Access) (h : a ⊆ b) :
    (locks \ a) \ (b \ a) = locks \ b := by
  apply ext_has
  intro d
  have hd := has_of_subset (d := d) h
  cases ha : a.has d <;> cases hb : b.has d <;> simp_all

theorem subset_union_left (a b : Access) : a ⊆ a ∪ b := by
  rw [subset_iff, read_union, write_union, Bool.or_eq_true, Bool.or_eq_true]
  exact ⟨.inl, .inl⟩

theorem unions_ne_empty {as : List Access} (h : a ∈ as) (hne : a ≠ ∅) :
    unions as ≠ ∅ := by
  intro hempty
  obtain ⟨d, hd⟩ := exists_has hne
  have hany : (unions as).has d = true := by
    rw [has_unions]
    exact List.any_eq_true.mpr ⟨a, h, hd⟩
  rw [hempty, has_empty] at hany
  cases hany

/-- What is left of a set without one of the disjoint pieces that make it up. -/
theorem unions_eq_sdiff {as : List Access} (h : ∀ a' ∈ as, a ∩ a' = ∅)
    (hall : unions (a :: as) = b) :
    unions as = b \ a := by
  subst hall
  apply ext_has
  intro d
  have hapart : a.has d = true → (unions as).has d = false := by
    intro ha
    rw [has_unions, List.any_eq_false]
    intro a' ha' hd
    have hboth : (a ∩ a').has d = true := by rw [has_inter, ha, hd, Bool.and_self]
    rw [h a' ha', has_empty] at hboth
    cases hboth
  show _ = ((a ∪ unions as) \ a).has d
  rw [has_sdiff, has_union]
  cases ha : a.has d with
  | false => simp
  | true => simp [hapart ha]

end Access

namespace Transport

variable {t : Transport} {i : Nat} {o : Owner} {a : Access} {client text : String}

/-! ### One release -/

/-- A client gives back nothing that it does not hold. -/
theorem release_of_other
    (h : ∀ i o a, t.ownerOf? client = some (i, o) → Access.parse? text = some a →
      ¬ a ⊆ o.access) :
    t.release client text = pure (.error .permissionDenied, t) := by
  rw [release]
  cases howner : t.ownerOf? client with
  | none => rfl
  | some io =>
    obtain ⟨i, o⟩ := io
    cases hparse : Access.parse? text with
    | none => rfl
    | some a =>
      have hpart := h i o a howner hparse
      have hall : a ≠ o.access := by
        rintro rfl
        exact hpart (Access.subset_refl _)
      simp only [if_neg hall, if_neg hpart]

/-- To give back everything ends the owner. -/
theorem release_of_all (howner : t.ownerOf? client = some (i, o))
    (hparse : Access.parse? text = some o.access) :
    t.release client text = makeAll (t.partingCalls i) >>= fun _ =>
      pure (.ok (), t.without i) := by
  rw [release, howner, hparse]
  simp only [if_true, endAt, bind_assoc, pure_bind]

/-- To give back a part leaves an owner with less, and says nothing. -/
theorem release_of_part (howner : t.ownerOf? client = some (i, o))
    (hparse : Access.parse? text = some a) (hpart : a ⊆ o.access)
    (hless : a ≠ o.access) :
    t.release client text = pure (.ok (), t.narrow i a) := by
  rw [release, howner, hparse]
  simp only [if_neg hless, if_pos hpart]

/-! ### A part, and then the rest -/

theorem owners_narrow {pre post : List Owner}
    (howners : t.owners.toList = pre ++ o :: post) :
    (t.narrow pre.length a).owners.toList = pre ++ o.narrow a :: post := by
  show t.owners.toList.modify pre.length (Owner.narrow · a) = _
  rw [howners, BoundedList.modify_around]

/-- What an owner still holds does not matter to the calls at its end. -/
theorem partingCalls_narrow (ho : t.owners.toList[i]? = some o) :
    (t.narrow i a).partingCalls i = t.partingCalls i :=
  partingCalls_modifyOwner ho fun _ _ => rfl

/-- The end of an owner comes to the same whether or not a part was given back
before. -/
theorem without_narrow (ho : t.owners.toList[i]? = some o) (hpart : a ⊆ o.access) :
    (t.narrow i a).without i = t.without i := by
  have hlocks : (t.locks \ a) \ (o.narrow a).access = t.locks \ o.access :=
    Access.sdiff_sdiff_of_subset t.locks hpart
  have hnarrow : (t.narrow i a).owners.toList[i]? = some (o.narrow a) :=
    getElem?_modifyOwner ho
  have hrest : (t.narrow i a).owners.eraseIdx i = t.owners.eraseIdx i :=
    eraseIdx_modifyOwner t i _
  rw [without_eq ho, without_eq hnarrow, hrest, ← hlocks]
  rfl

end Transport

namespace Broker

variable {b : Broker} {t : Transport} {o : Owner} {path client text : String}
  {pre post : List Owner}

/-- A client gives back access to the transport at a path in pieces, one after
another. -/
def releaseEach (b : Broker) (path client : String) :
    List String → Dialogue (List (Except Fault Unit) × Broker)
  | [] => pure ([], b)
  | text :: rest => do
    let (result, b) ← b.release path client text
    let (results, b) ← b.releaseEach path client rest
    return (result :: results, b)

/-- The broker looks the transport up and stores it, and all else is up to the
transport. -/
theorem release_eq (hd : b.transports.Distinct)
    (hfind : b.transports.find? path = some t) :
    b.release path client text = t.release client text >>= fun x =>
      pure (x.1, b.store x.2) := by
  rw [release, transportAt?_eq hd, hfind]

/-- A transport is found at its path whatever has become of it. -/
theorem find?_store {t' : Transport} (hd : b.transports.Distinct)
    (hfind : b.transports.find? path = some t) (hid : t'.id = t.id)
    (hpath : t'.path = t.path) :
    (b.store t').transports.find? path = some t' := by
  obtain ⟨hmem, htext⟩ := Registry.find?_eq_some hfind
  obtain ⟨pre, post, hl, -, hne, hreplace⟩ := hd.exists_around (hd.get?_of_mem hmem)
  have hpre : pre.find? (fun u => u.path.str == path) = none := by
    cases hearlier : pre.find? (fun u => u.path.str == path) with
    | none => rfl
    | some u =>
      -- the first transport at the path would be another one
      rw [Registry.find?, hl, List.find?_append, hearlier] at hfind
      cases hfind
      exact absurd rfl
        (hne _ (List.mem_append_left _ (List.mem_of_find?_eq_some hearlier)))
  rw [Registry.find?, store, hreplace t' hid, List.find?_append, hpre, Option.none_or,
    List.find?_cons_of_pos]
  rw [hpath, htext, beq_self_eq_true]

theorem store_store {t' : Transport} (h : t'.id = t.id) :
    (b.store t).store t' = b.store t' := by
  rw [store, store, store, Registry.replace_replace _ h]

/-- Pieces that make up what an owner holds end the owner, in whatever order they
come. -/
theorem releaseEach_eq {texts : List String} {as : List Access}
    (hd : b.transports.Distinct) (hfind : b.transports.find? path = some t)
    (shared : t.Shared) (howners : t.owners.toList = pre ++ o :: post)
    (hname : o.name.str = client) (parsed : texts.map Access.parse? = as.map some)
    (disjoint : as.Pairwise fun a a' => a ∩ a' = ∅)
    (whole : Access.unions as = o.access) :
    b.releaseEach path client texts =
      makeAll (t.partingCalls pre.length) >>= fun _ =>
        pure (texts.map fun _ => .ok (), b.store (t.without pre.length)) := by
  induction as generalizing b t o texts with
  | nil =>
    have hmem : o ∈ t.owners.toList := by simp [howners]
    exact absurd whole.symm (shared.access_ne o hmem)
  | cons a as ih =>
    obtain _ | ⟨text, rest⟩ := texts
    · cases parsed
    obtain ⟨hparse, hrest⟩ := List.cons.inj parsed
    obtain ⟨hapart, hdisjoint⟩ := List.pairwise_cons.mp disjoint
    have howner := shared.ownerOf?_eq howners hname
    have hi : t.owners.toList[pre.length]? = some o := by simp [howners]
    have hpart : a ⊆ o.access := whole ▸ Access.subset_union_left a (Access.unions as)
    have hleft : Access.unions as = o.access \ a :=
      Access.unions_eq_sdiff hapart whole
    rw [releaseEach, release_eq hd hfind]
    obtain _ | ⟨a', as⟩ := as
    · -- the last piece is all that the owner still holds
      obtain rfl : rest = [] := List.map_eq_nil_iff.mp hrest
      have hall : a = o.access := by
        rw [← whole]
        apply Access.ext_has
        intro d
        simp [Access.unions]
      rw [Transport.release_of_all howner (hall ▸ hparse)]
      simp only [releaseEach, bind_assoc, pure_bind]
      rfl
    · have hless : a ≠ o.access := by
        rintro rfl
        have hsome : a' ≠ ∅ := by
          have hmem : some a' ∈ rest.map Access.parse? := by simp [hrest]
          obtain ⟨text', -, hparse'⟩ := List.mem_map.mp hmem
          exact (Access.parse?_eq_some_iff.mp hparse').1
        apply Access.unions_ne_empty List.mem_cons_self hsome
        rw [hleft]
        apply Access.ext_has
        intro d
        simp
      have hnarrow := Transport.owners_narrow (a := a) howners
      have hfound : (b.store (t.narrow pre.length a)).transports.find? path =
          some (t.narrow pre.length a) := find?_store hd hfind rfl rfl
      rw [Transport.release_of_part howner hparse hpart hless]
      simp only [pure_bind]
      rw [ih (hd.replace _) hfound
        (shared.narrow hi hless hpart) hnarrow hname hrest hdisjoint hleft,
        Transport.partingCalls_narrow hi, Transport.without_narrow hi hpart]
      have hstored : (b.store (t.narrow pre.length a)).store (t.without pre.length) =
          b.store (t.without pre.length) :=
        store_store (Transport.id_eq_of_terms (Transport.terms_without t _))
      simp only [hstored, bind_assoc, pure_bind]
      rfl

end Broker

/-- In every state of every run, a client that gives back access to a live transport
is refused, and nothing changes, unless it has an owner that holds all that it gives
back. Giving back all that the owner holds tears it down. Giving back a part frees
that part and nothing else: the owner keeps its place and all but that access, and
nobody is told. So pieces that make up what the owner holds, in any order and at any
stage of its start, come to the same calls and the same state as all of it at
once. -/
theorem Run.release_outcome {options : Options} {steps : List Step} {b : Broker}
    (run : Run (.empty options) steps b) {path : String} {t : Transport}
    (hfind : b.transports.find? path = some t) (client : String) :
    (∀ text, (∀ o ∈ t.owners.toList, o.name.str = client →
          ∀ a, Access.parse? text = some a → ¬ a ⊆ o.access) →
        b.release path client text = pure (.error .permissionDenied, b)) ∧
      ∀ pre o post, t.owners.toList = pre ++ o :: post → o.name.str = client →
        (∀ text, Access.parse? text = some o.access →
          ∃ owners : BoundedList Owner maxOwners, owners.toList = pre ++ post ∧
            b.release path client text =
              makeAll (o.partingCalls t.backend t.device ++
                if owners.isEmpty then t.backend.unlockCalls t.inUse t.device
                else []) >>= fun _ =>
              pure (.ok (), b.store { t with owners, locks := t.locks \ o.access,
                                             inUse := t.inUse && !owners.isEmpty })) ∧
          (∀ text a, Access.parse? text = some a → a ⊆ o.access → a ≠ o.access →
            ∃ owners : BoundedList Owner maxOwners,
              owners.toList = pre ++ { o with access := o.access \ a } :: post ∧
                b.release path client text =
                  pure (.ok (), b.store { t with owners, locks := t.locks \ a })) ∧
          ∀ texts as whole, texts.map Access.parse? = as.map some →
            as.Pairwise (fun a a' => a ∩ a' = ∅) → Access.unions as = o.access →
            Access.parse? whole = some o.access →
            b.releaseEach path client texts =
              (fun x => (texts.map fun _ => .ok (), x.2)) <$> b.release path client
                whole := by
  obtain ⟨hmem, -⟩ := Registry.find?_eq_some hfind
  have hd := run.distinct
  have shared := run.shared t hmem
  refine ⟨fun text hother => ?_, fun pre o post howners hname => ?_⟩
  · rw [Broker.release_eq hd hfind, Transport.release_of_other, pure_bind,
      Broker.store_self hd (hd.get?_of_mem hmem)]
    intro i o a howner
    obtain ⟨hi, hname⟩ := Transport.ownerOf?_eq_some howner
    exact hother o (List.mem_of_getElem? hi) hname a
  · have howner := shared.ownerOf?_eq howners hname
    have hi : t.owners.toList[pre.length]? = some o := by simp [howners]
    refine ⟨fun text hparse => ?_, fun text a hparse hpart hless => ?_,
      fun texts as whole parsed disjoint hall hparse => ?_⟩
    · refine ⟨t.owners.eraseIdx pre.length, ?_, ?_⟩
      · rw [BoundedList.toList_eraseIdx, howners, BoundedList.eraseIdx_around]
      · rw [Broker.release_eq hd hfind, Transport.release_of_all howner hparse,
          Transport.partingCalls_eq hi, Transport.without_eq hi]
        simp only [bind_assoc, pure_bind]
    · refine ⟨(t.narrow pre.length a).owners, ?_, ?_⟩
      · exact Transport.owners_narrow howners
      · rw [Broker.release_eq hd hfind,
          Transport.release_of_part howner hparse hpart hless]
        rfl
    · rw [Broker.releaseEach_eq hd hfind shared howners hname parsed disjoint hall,
        Broker.release_eq hd hfind, Transport.release_of_all howner hparse]
      simp only [bind_assoc, pure_bind, map_eq_pure_bind]

/-- A client reads and writes; its start fails, and its owner is marked to be torn
down. -/
def Scene.marked : List (Script × Operation) :=
  [({}, .create speaker device []), ({}, acquire ":1" "rw" 1),
    ({}, .a2dpResumed ⟨⟨0⟩, ⟨0⟩⟩ (.failed .timeout))]

/-- A marked owner that gives back one direction and then the other one ends as if
it had given back both at once. -/
theorem Run.marked_owner_ends_in_pieces :
    ∃ steps b, ∃ t : Transport, ∃ o, Run (.empty {}) steps b ∧
      b.transports.find? "/dev/fd0" = some t ∧ t.owners.toList = [o] ∧
      o.scheduled = true ∧
      b.releaseEach "/dev/fd0" ":1" ["w", "r"] =
        (fun x => ([.ok (), .ok ()], x.2)) <$> b.release "/dev/fd0" ":1" "rw" := by
  have run := Broker.run_play Script.peers (.empty {}) Scene.marked
  have hlive : (((Broker.empty {}).played Script.peers Scene.marked).transports.find?
      "/dev/fd0").map (fun t => t.owners.toList.map fun o =>
        (o.name.str, o.access, o.scheduled)) =
        some [(":1", ⟨true, true⟩, true)] := by decide
  obtain ⟨t, hfind, howners⟩ := Option.map_eq_some_iff.mp hlive
  obtain ⟨o, ho, hfields⟩ := List.map_eq_singleton_iff.mp howners
  obtain ⟨hname, hrest⟩ := Prod.mk.inj hfields
  obtain ⟨haccess, hmarked⟩ := Prod.mk.inj hrest
  refine ⟨_, _, t, o, run, hfind, ho, hmarked, ?_⟩
  exact ((run.release_outcome hfind ":1").2 [] o [] ho hname).2.2 ["w", "r"]
    [⟨false, true⟩, ⟨true, false⟩] "rw" (by decide) (by decide) (haccess ▸ by decide)
    (haccess ▸ by decide)

end AudioBroker
