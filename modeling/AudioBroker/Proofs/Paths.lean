import AudioBroker.Proofs.Broker.Shows
import AudioBroker.Proofs.Numbers

/-!
# Paths name the live transports

The path of a transport ends with its number, so that no two live transports share a
path, wherever their devices are. A path is published when its transport is created,
and withdrawn when it is removed.

- `Transport.id_eq_of_pathText`: the path of a transport tells its number.
- `published`: the paths that are on the bus after some exchanges.
- `Broker.Shows.published_eq`: every step publishes and withdraws what it creates
  and removes.
- `Broker.Retired`: a number that is not given out again.
- `Run.paths_name_transports`: what it comes to in every run.
-/

namespace AudioBroker

open Dialogue

/-! ### What a path tells -/

/-- What comes after the last separator is found again. -/
theorem eq_of_last_separator {α : Type} {a : α} {xs ys s t : List α}
    (h : xs ++ a :: s = ys ++ a :: t) (hs : a ∉ s) (ht : a ∉ t) : s = t := by
  rcases List.append_eq_append_iff.mp h with ⟨zs, -, hzs⟩ | ⟨zs, -, hzs⟩
  · cases zs with
    | nil => exact (List.cons.inj hzs).2
    | cons z zs =>
      -- the separator of the other side would come after this one
      rw [(List.cons.inj hzs).2] at hs
      simp at hs
  · cases zs with
    | nil => exact (List.cons.inj hzs).2.symm
    | cons z zs =>
      rw [(List.cons.inj hzs).2] at ht
      simp at ht

/-- A number is written without a separator. -/
theorem slash_notMem_toString (n : Nat) : '/' ∉ (toString n).toList := by
  intro h
  have hdigit : ('/').isDigit = true := by
    refine Nat.isDigit_of_mem_toDigits (b := 10) (n := n) (by decide) (by decide) ?_
    simpa [Nat.repr] using h
  exact absurd hdigit (by decide)

namespace Transport

/-- Whatever the devices are: transports with one path have one number. -/
theorem id_eq_of_pathText {device device' : Device} {id id' : TransportId}
    (h : pathText device id = pathText device' id') : id = id' := by
  -- the last separator is the one before the number: neither `fd` nor a decimal has
  -- another
  have hlast : ∀ n : Nat, '/' ∉ 'f' :: 'd' :: (toString n).toList := by
    intro n hmem
    simp only [List.mem_cons] at hmem
    rcases hmem with hmem | hmem | hmem
    · cases hmem
    · cases hmem
    · exact slash_notMem_toString n hmem
  have hlist : ∀ (device : Device) (id : TransportId), (pathText device id).toList =
      device.path.str.toList ++ '/' :: 'f' :: 'd' ::
        (toString id.raw.toNat).toList := by
    intro device id
    rw [pathText, String.toList_append, String.toList_append, List.append_assoc]
    rfl
  have hchars := congrArg String.toList h
  rw [hlist, hlist] at hchars
  have hsegment := eq_of_last_separator hchars (hlast _) (hlast _)
  have hdigits := String.toList_injective (List.cons.inj (List.cons.inj hsegment).2).2
  have hraw := UInt32.toNat_inj.mp (Nat.repr_injective hdigits)
  cases id
  cases id'
  exact congrArg TransportId.mk hraw

/-- The transport is at the path that its number gives it. -/
def Located (t : Transport) : Prop := t.path.str = pathText t.device t.id

theorem located_of_create {id : TransportId} {endpoint : Endpoint} {device : Device}
    {configuration : List UInt8} {options : Options} {t : Transport}
    (h : Transport.create id endpoint device configuration options = .ok t) :
    t.Located := by
  obtain ⟨rfl, rfl, -, -, -, hpath, -⟩ := create_eq_ok h
  exact hpath

theorem Move.located {t t' : Transport} {ls : List Incident} {es : List Exchange}
    (move : Move t ls es t') (h : t.Located) : t'.Located := by
  rw [Located, path_eq_of_terms move.terms_eq, device_eq_of_terms move.terms_eq,
    id_eq_of_terms move.terms_eq]
  exact h

/-- A path belongs to one number only. -/
theorem Located.id_eq {t u : Transport} (ht : t.Located) (hu : u.Located)
    (h : t.path = u.path) :
    t.id = u.id :=
  id_eq_of_pathText (ht.symm.trans ((congrArg Text.str h).trans hu))

end Transport

/-- Every live transport lies at the path that its number makes. -/
theorem Run.located {options : Options} {steps : List Step} {b : Broker}
    (run : Run (.empty options) steps b) : ∀ t ∈ b.transports.toList, t.Located :=
  run.forall_transports (fun _ _ _ _ _ _ => Transport.located_of_create)
    fun _ _ _ _ h m => m.located h

/-- The paths of the live transports. -/
def Registry.paths (r : Registry) : List ObjectPath := r.toList.map Transport.path

namespace Registry

variable {r r' : Registry}

theorem paths_eq_outlines (r : Registry) :
    r.paths = r.outlines.map Transport.Outline.path := by
  rw [paths, outlines, List.map_map]
  rfl

theorem paths_eq_of_outlines (h : r'.outlines = r.outlines) : r'.paths = r.paths := by
  rw [paths_eq_outlines, h, paths_eq_outlines]

theorem paths_replace {t t' : Transport} (hr : r.Distinct)
    (live : r.get? t.id = some t) (hid : t'.id = t.id) (hpath : t'.path = t.path) :
    (r.replace t').paths = r.paths := by
  obtain ⟨pre, post, hl, -, -, hreplace⟩ := hr.exists_around live
  rw [paths, hreplace t' hid, paths, hl, List.map_append, List.map_cons, hpath,
    List.map_append, List.map_cons]

/-- No two live transports lie at one path. -/
theorem paths_nodup (hr : r.Distinct) (located : ∀ t ∈ r.toList, t.Located) :
    r.paths.Nodup := by
  refine List.Nodup.map_on ?_ hr.of_map
  intro t ht u hu hpath
  exact List.inj_on_of_nodup_map hr ht hu ((located t ht).id_eq (located u hu) hpath)

/-- A path finds the transport that is at it. -/
theorem find?_path_eq_some_iff {path : String} {t : Transport} (hr : r.Distinct)
    (located : ∀ t ∈ r.toList, t.Located) :
    r.find? path = some t ↔ t ∈ r.toList ∧ t.path.str = path := by
  constructor
  · exact find?_eq_some
  · rintro ⟨ht, rfl⟩
    cases hfound : r.find? t.path.str with
    | none =>
      have hnot := List.find?_eq_none.mp hfound t ht
      simp at hnot
    | some u =>
      obtain ⟨hu, hpath⟩ := find?_eq_some hfound
      have hid := (located u hu).id_eq (located t ht) (Text.ext hpath)
      rw [List.inj_on_of_nodup_map hr hu ht hid]

end Registry

/-! ### What is published -/

/-- The paths on the bus after an exchange. -/
def publish (paths : List ObjectPath) : Exchange → List ObjectPath
  | ⟨.register path, taken⟩ => if taken then paths ++ [path] else paths
  | ⟨.unregister path, _⟩ => paths.erase path
  | _ => paths

/-- The paths that are on the bus after some exchanges. -/
def published (es : List Exchange) : List ObjectPath := es.foldl publish []

/-- A call that publishes an object or withdraws it. -/
def Call.isPublishing : Call → Bool
  | register _ | unregister _ => true
  | _ => false

theorem publish_eq_self {es : List Exchange}
    (h : ∀ e ∈ es, e.call.isPublishing = false) (paths : List ObjectPath) :
    es.foldl publish paths = paths := by
  induction es with
  | nil => rfl
  | cons e es ih =>
    have hhead : publish paths e = paths := by
      obtain ⟨call, answer⟩ := e
      have hnot := h _ List.mem_cons_self
      cases call with
      | register _ | unregister _ => cases hnot
      | _ => rfl
    rw [List.foldl_cons, hhead]
    exact ih fun e he => h e (List.mem_cons_of_mem _ he)

theorem Silent.not_publishing {es : List Exchange} (h : Silent es) :
    ∀ e ∈ es, e.call.isPublishing = false := by
  intro e he
  have hsilent := h e he
  revert hsilent
  cases e.call <;> simp [Call.isShown, Call.isPublishing]

namespace Broker

variable {b b' : Broker} {op : Operation} {es : List Exchange} {e : Exchange}
  {path : ObjectPath} {change : Change}

/-- Where something is reported, nothing is published or withdrawn. -/
theorem Shows.not_publishing (h : b.Shows op es b') (report : ¬ op.Quiet) :
    ∀ e ∈ es, e.call.isPublishing = false := by
  cases h with
  | nothing silent _ _ _ => exact silent.not_publishing
  | refused quiet _ | opened quiet _ _ | closed quiet _ _ => exact absurd quiet report
  | installed _ before after _ =>
    intro e he
    simp only [List.mem_append, List.mem_cons, List.not_mem_nil, or_false] at he
    rcases he with he | (rfl | rfl) | he
    · exact before.not_publishing e he
    · rfl
    · rfl
    · exact after.not_publishing e he
  | delayed _ =>
    intro e he
    rw [List.mem_singleton.mp he]
    rfl

/-- Where a change is announced, a live transport is at the path, and nothing is
published or withdrawn. -/
theorem Shows.announced (h : b.Shows op es b') (he : e ∈ es)
    (hcall : e.call = .announce path change) :
    path ∈ b.transports.paths ∧ ∀ e ∈ es, e.call.isPublishing = false := by
  rcases h.announcement he hcall
    with ⟨t, s, installs, rfl, -⟩ | ⟨t, delay, delays, rfl, -⟩
  · exact ⟨List.mem_map_of_mem installs.live, h.not_publishing installs.not_quiet⟩
  · exact ⟨List.mem_map_of_mem delays.live, h.not_publishing delays.not_quiet⟩

/-- A step publishes the path of the transport that it creates, and withdraws that
of the one that it removes. -/
theorem Shows.published_eq (h : b.Shows op es b') (hd : b.transports.Distinct)
    (located : ∀ t ∈ b.transports.toList, t.Located)
    (new : b.transports.get? b.nextTransport = none) :
    es.foldl publish b.transports.paths = b'.transports.paths := by
  have hunpublished : ¬ op.Quiet →
      es.foldl publish b.transports.paths = b.transports.paths :=
    fun report => publish_eq_self (h.not_publishing report) _
  cases h with
  | nothing silent same _ _ =>
    rw [publish_eq_self silent.not_publishing, Registry.paths_eq_of_outlines same]
  | refused _ _ => rfl
  | @opened endpoint device configuration t transports _ created insert =>
    rw [← (Transport.create_eq_ok created).1] at new
    rw [Registry.insert?, new, if_neg (by simp)] at insert
    obtain ⟨-, hpush⟩ := BoundedList.push?_eq_some_iff.mp insert
    show b.transports.paths ++ [t.path] = transports.paths
    rw [Registry.paths, Registry.paths, hpush, List.map_append, List.map_singleton]
  | @closed t es _ live silent =>
    -- `List.erase` removes the first occurrence, which is the only one, as live
    -- transports have different paths
    have hnodup := Registry.paths_nodup hd located
    obtain ⟨pre, post, hl, herase, -, -⟩ := hd.exists_around live
    rw [Registry.paths, hl, List.map_append, List.map_cons, List.nodup_middle,
      List.nodup_cons, ← List.map_append] at hnodup
    have hpre : t.path ∉ pre.map Transport.path := by
      intro hmem
      exact hnodup.1 (by rw [List.map_append]; exact List.mem_append_left _ hmem)
    rw [List.foldl_cons, publish_eq_self silent.not_publishing]
    show b.transports.paths.erase t.path = (b.transports.erase t.id).paths
    rw [Registry.paths, Registry.paths, hl, herase, List.map_append,
      List.map_append, List.map_cons, List.erase_append_right _ hpre,
      List.erase_cons_head]
  | @installed t s es₁ es₂ _ installs _ _ outlines =>
    rw [hunpublished installs.not_quiet, Registry.paths_eq_of_outlines outlines]
    exact (Registry.paths_replace hd installs.get? (by rfl) (by rfl)).symm
  | @delayed t delay delays =>
    rw [hunpublished delays.not_quiet]
    exact (Registry.paths_replace hd delays.2.1 (by rfl) (by rfl)).symm

/-- No live transport has the number, and none that is created will. -/
def Retired (b : Broker) (id : TransportId) : Prop :=
  b.transports.get? id = none ∧ id.raw < b.nextTransport.raw

/-- A number that finds nobody finds nobody as long as no outline changes. -/
theorem get?_eq_none_of_outlines {r r' : Registry} {id : TransportId}
    (h : r'.outlines = r.outlines) (gone : r.get? id = none) :
    r'.get? id = none := by
  -- the outlines have the numbers
  have hids : ∀ r : Registry,
      r.toList.map Transport.id = r.outlines.map Transport.Outline.id := by
    intro r
    rw [Registry.outlines, List.map_map]
    rfl
  rw [Registry.get?_eq_none_iff] at gone ⊢
  intro t ht hid
  have hmem : id ∈ r.toList.map Transport.id := by
    rw [hids, ← h, ← hids, ← hid]
    exact List.mem_map_of_mem ht
  obtain ⟨u, hu, huid⟩ := List.mem_map.mp hmem
  exact gone u hu huid

/-- A number that no live transport has is given out only when it is the next one. -/
theorem Shows.get?_eq_none {id : TransportId} (h : b.Shows op es b')
    (gone : b.transports.get? id = none) (old : id ≠ b.nextTransport) :
    b'.transports.get? id = none := by
  -- a transport that changes keeps its number, which is another one
  have hreplace : ∀ {t t' : Transport}, b.transports.get? t.id = some t →
      t'.id = t.id → (b.transports.replace t').get? id = none := by
    intro t t' hlive hid
    have hne : id ≠ t'.id := by
      rintro rfl
      rw [hid, hlive] at gone
      cases gone
    rw [Registry.get?_replace_of_ne _ hne, gone]
  cases h with
  | nothing _ same _ _ => exact get?_eq_none_of_outlines same gone
  | refused _ _ => exact gone
  | opened _ created insert =>
    rw [Registry.get?_eq_none_iff] at gone ⊢
    intro u hu hid
    rcases Registry.mem_insert? insert hu with rfl | hu
    · exact old (hid.symm.trans (Transport.create_eq_ok created).1)
    · exact gone u hu hid
  | closed _ _ _ =>
    rw [Registry.get?_eq_none_iff] at gone ⊢
    exact fun u hu => gone u (List.mem_filter.mp hu).1
  | @installed t s es₁ es₂ _ installs _ _ outlines =>
    exact get?_eq_none_of_outlines outlines (hreplace installs.get? (by rfl))
  | @delayed t delay delays => exact hreplace delays.2.1 (by rfl)

end Broker

/-! ### Runs -/

/-- A number that is retired stays so, until the counter starts over. -/
theorem Step.retired {s : Step} {id : TransportId} (hd : s.before.transports.Distinct)
    (unwrapped : s.Unwrapped) (h : s.before.Retired id) : s.after.Retired id := by
  obtain ⟨hgone, hlt⟩ := h
  refine ⟨(s.shows hd).get?_eq_none hgone ?_, UInt32.lt_of_lt_of_le hlt unwrapped.1⟩
  rintro rfl
  exact absurd hlt (UInt32.lt_irrefl _)

/-- A transport is gone once it was removed. -/
theorem Step.removed {s : Step} {id : TransportId} (h : s.op = .remove id) :
    s.after.transports.get? id = none := by
  obtain ⟨b, op, es, result, b', performed⟩ := s
  cases h
  rcases Broker.remove_cases performed
    with ⟨hnone, -, -, rfl⟩ | ⟨t, es₁, t', es₂, -, -, -, -, -, rfl⟩
  · exact hnone
  · exact Registry.get?_erase_self _ _

section Runs

variable {options : Options} {steps post : List Step} {b b₁ : Broker}

/-- A number that was used and is used no more is not used again. -/
theorem Run.retired {id : TransportId} (run : Run b₁ post b)
    (unwrapped : Unwrapped post) (hd : b₁.transports.Distinct) (h : b₁.Retired id) :
    b.Retired id := by
  have hboth : b.transports.Distinct ∧ b.Retired id := by
    apply run.invariant (P := fun b => b.transports.Distinct ∧ b.Retired id) ⟨hd, h⟩
    rintro s hs ⟨hd, h⟩
    exact ⟨s.outcome.distinct hd, s.retired hd (unwrapped s hs) h⟩
  exact hboth.2

/-- What is published is what the live transports have for paths, in order. -/
theorem Run.published_eq (run : Run (.empty options) steps b)
    (unwrapped : Unwrapped steps) :
    published (exchanges steps) = b.transports.paths := by
  induction run with
  | nil => rfl
  | @snoc steps s run ih =>
    have hinit := (unwrapped_append.mp unwrapped).1
    rw [exchanges_append, exchanges_singleton, published, List.foldl_append]
    show s.exchanges.foldl publish (published (exchanges steps)) = _
    rw [ih hinit]
    exact (s.shows run.distinct).published_eq run.distinct run.located
      (run.numbered hinit).get?_nextTransport

/-- A change is announced on a path that is on the bus at that moment. -/
theorem Run.announced_published {path : ObjectPath} {change : Change} {e : Exchange}
    (run : Run (.empty options) steps b) (unwrapped : Unwrapped steps) :
    ∀ {before after : List Exchange}, exchanges steps = before ++ e :: after →
      e.call = .announce path change → path ∈ published before := by
  induction run with
  | nil => simp
  | @snoc steps s run ih =>
    intro before after heq hcall
    have hinit := (unwrapped_append.mp unwrapped).1
    have hlast : ∀ es, before = exchanges steps ++ es →
        s.exchanges = es ++ e :: after → path ∈ published before := by
      rintro es rfl hes
      obtain ⟨hpath, hquiet⟩ :=
        (s.shows run.distinct).announced (e := e) (by simp [hes]) hcall
      rw [published, List.foldl_append]
      show path ∈ es.foldl publish (published (exchanges steps))
      rw [run.published_eq hinit, publish_eq_self]
      · exact hpath
      · intro e' he'
        exact hquiet e' (by simp [hes, he'])
    rw [exchanges_append, exchanges_singleton] at heq
    -- it is said in the last step or before; what is said first there has nothing
    -- before it in this step
    rcases List.append_eq_append_iff.mp heq with ⟨es, hbefore, hes⟩ | ⟨es, hes, hrest⟩
    · exact hlast es hbefore hes
    · cases es with
      | nil => exact hlast [] (by simp [hes]) hrest.symm
      | cons e' es =>
        obtain ⟨rfl, -⟩ := List.cons.inj hrest
        exact ih hinit hes hcall

/-- Until a counter starts over, the paths on the bus are those of the live
transports, each once. So a path finds the number of the live transport that is at
it, and nothing else; the path of a transport that was removed finds nothing ever
after; and every change is announced on a path that is on the bus at that moment. -/
theorem Run.paths_name_transports (run : Run (.empty options) steps b)
    (unwrapped : Unwrapped steps) :
    (published (exchanges steps) = b.transports.toList.map Transport.path ∧
        (b.transports.toList.map Transport.path).Nodup) ∧
      (∀ path id, b.idAt? path = some id ↔
        ∃ t ∈ b.transports.toList, t.path.str = path ∧ t.id = id) ∧
      (∀ pre s post id t, steps = pre ++ s :: post → s.op = .remove id →
        s.before.transports.get? id = some t → b.idAt? t.path.str = none) ∧
      ∀ before e after path change, exchanges steps = before ++ e :: after →
        e.call = .announce path change → path ∈ published before := by
  have hdistinct := run.distinct
  have hlocated := run.located
  refine ⟨⟨run.published_eq unwrapped, Registry.paths_nodup hdistinct hlocated⟩,
    fun path id => ?_, ?_, ?_⟩
  · rw [Broker.idAt?, Option.map_eq_some_iff]
    constructor
    · rintro ⟨t, hfound, hid⟩
      obtain ⟨ht, hpath⟩ := Registry.find?_eq_some hfound
      exact ⟨t, ht, hpath, hid⟩
    · rintro ⟨t, ht, hpath, hid⟩
      exact ⟨t, (Registry.find?_path_eq_some_iff hdistinct hlocated).mpr
        ⟨ht, hpath⟩, hid⟩
  · rintro pre s post id t rfl hop hlive
    obtain ⟨hbefore, hafter⟩ := run.around
    obtain ⟨hpre, hs, hpost⟩ := unwrapped.around
    obtain ⟨ht, hid⟩ := Registry.get?_eq_some hlive
    -- the number of the transport was given out, and so is not given out again
    have hlt := UInt32.lt_of_lt_of_le ((hbefore.numbered hpre).transports t ht) hs.1
    rw [hid] at hlt
    have hretired := hafter.retired hpost (s.outcome.distinct hbefore.distinct)
      ⟨Step.removed hop, hlt⟩
    rw [Broker.idAt?, Option.map_eq_none_iff]
    cases hfound : b.transports.find? t.path.str with
    | none => rfl
    | some u =>
      obtain ⟨hu, hpath⟩ := Registry.find?_eq_some hfound
      have hsame := (hlocated u hu).id_eq (hbefore.located t ht) (Text.ext hpath)
      exact absurd (hsame.trans hid) (Registry.get?_eq_none_iff.mp hretired.1 u hu)
  · exact fun before e after path change heq hcall =>
      run.announced_published unwrapped heq hcall

/-- Two transports are created, the first one is removed, and a third one is
created. -/
def Scene.firstRemoved : List (Script × Operation) :=
  [({}, .create speaker device []), ({}, .create speaker device []),
    ({}, .remove ⟨0⟩), ({}, .create speaker device [])]

/-- A session in which the first of three transports is withdrawn. -/
theorem Run.removed_path_is_gone :
    ∃ steps b, Run (.empty {}) steps b ∧ Unwrapped steps ∧
      (published (exchanges steps)).map Text.str = ["/dev/fd1", "/dev/fd2"] ∧
      b.idAt? "/dev/fd2" = some ⟨2⟩ ∧
      b.idAt? "/dev/fd0" = none := by
  have run := Broker.run_play Script.peers (.empty {}) Scene.firstRemoved
  have hunwrapped :
      Unwrapped ((Broker.empty {}).play Script.peers Scene.firstRemoved) := by decide
  have hpublished :
      (published (exchanges
        ((Broker.empty {}).play Script.peers Scene.firstRemoved))).map
      Text.str = ["/dev/fd1", "/dev/fd2"] := by decide
  have hlast :
      (((Broker.empty {}).played Script.peers
        Scene.firstRemoved).transports.toList.any fun t =>
      decide (t.path.str = "/dev/fd2" ∧ t.id = ⟨2⟩)) = true := by decide
  have hfirst :
      ((((Broker.empty {}).played Script.peers
          (Scene.firstRemoved.take 2)).transports.get? ⟨0⟩).any
      fun t => decide (t.path.str = "/dev/fd0")) = true := by decide
  obtain ⟨t, ht, hfacts⟩ := List.any_eq_true.mp hlast
  obtain ⟨t₀, hlive, hpath⟩ := (Option.any_eq_true _ _).mp hfirst
  obtain ⟨-, hid, hremoved, -⟩ := run.paths_name_transports hunwrapped
  refine ⟨_, _, run, hunwrapped, hpublished,
    (hid _ _).mpr ⟨t, ht, of_decide_eq_true hfacts⟩, ?_⟩
  rw [← of_decide_eq_true hpath]
  exact hremoved [_, _] _ [_] ⟨0⟩ t₀ rfl rfl hlive

end Runs

end AudioBroker
