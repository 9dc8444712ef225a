import AudioBroker.Proofs.Paths

/-!
# The announcements mirror the properties

The two MTUs and the delay of a transport change, and each change is announced. A
client that follows the announcements from the moment when the transport is
published has the values that the transport has.

- `View`, `heard`: what such a client has after some exchanges.
- `Broker.Shows.origin`: where a transport after a step comes from, and what is said
  about it.
- `Run.heard_eq_view`: every client has the current values.
- `Run.announcements_mirror_properties`: this, and when it is that something is
  announced.
-/

namespace AudioBroker

open Dialogue

/-- What is announced of a transport when it changes. -/
structure View where
  imtu : UInt16
  omtu : UInt16
  delay : UInt16
  deriving DecidableEq

namespace View

/-- What a transport has when it is created. -/
def initial : View := { imtu := 0, omtu := 0, delay := 0 }

/-- A change is taken over. -/
def apply (v : View) : Change → View
  | .imtu n => { v with imtu := n }
  | .omtu n => { v with omtu := n }
  | .delay n => { v with delay := n }

/-- What is heard by a client that follows the transport at a path: it begins anew
when the path is published, and takes over what is announced on it. -/
def hear (path : ObjectPath) (v : View) : Exchange → View
  | ⟨.register p, taken⟩ => if p = path ∧ taken = true then initial else v
  | ⟨.announce p change, _⟩ => if p = path then v.apply change else v
  | _ => v

end View

/-- What a client that follows the transport at a path has after some exchanges. -/
def heard (path : ObjectPath) (es : List Exchange) : View :=
  es.foldl (View.hear path) .initial

/-- The values of a transport that are announced when they change. -/
def Transport.view (t : Transport) : View :=
  { imtu := t.imtu, omtu := t.omtu, delay := t.delay }

/-- Something is said about the transport at a path: it is published, or a change is
announced on it. -/
def Exchange.Concerns (path : ObjectPath) : Exchange → Prop
  | ⟨.register p, taken⟩ => p = path ∧ taken = true
  | ⟨.announce p _, _⟩ => p = path
  | _ => False

theorem View.hear_eq_self {path : ObjectPath} {es : List Exchange}
    (h : ∀ e ∈ es, ¬ e.Concerns path) (v : View) :
    es.foldl (View.hear path) v = v := by
  induction es with
  | nil => rfl
  | cons e es ih =>
    have hhead : View.hear path v e = v := by
      obtain ⟨call, answer⟩ := e
      have hnot := h _ List.mem_cons_self
      cases call with
      | register p => exact if_neg hnot
      | announce p change => exact if_neg hnot
      | _ => rfl
    rw [List.foldl_cons, hhead]
    exact ih fun e he => h e (List.mem_cons_of_mem _ he)

theorem Silent.not_concerns {es : List Exchange} (h : Silent es) (path : ObjectPath) :
    ∀ e ∈ es, ¬ e.Concerns path := by
  intro e he
  obtain ⟨call, answer⟩ := e
  have hsilent := h _ he
  cases call with
  | register _ | announce _ _ => cases hsilent
  | _ => exact id

/-! ### Every step is told -/

/-- Where the outlines are the same, every live transport was seen before. -/
theorem Registry.mem_of_outlines {r r' : Registry} {t' : Transport}
    (h : r'.outlines = r.outlines) (ht : t' ∈ r'.toList) :
    ∃ t ∈ r.toList, t.outline = t'.outline := by
  have hmem : t'.outline ∈ r.outlines := h ▸ List.mem_map_of_mem ht
  exact List.mem_map.mp hmem

/-- What a live transport has become is live. -/
theorem Registry.Distinct.mem_replace {r : Registry} {t t' : Transport}
    (h : r.Distinct) (live : r.get? t.id = some t) (hid : t'.id = t.id) :
    t' ∈ (r.replace t').toList := by
  obtain ⟨pre, post, -, -, -, hreplace⟩ := h.exists_around live
  rw [hreplace t' hid]
  exact List.mem_append_right _ List.mem_cons_self

/-- What is in a registry after a transport was stored is that transport, or another
one that was there. -/
theorem Registry.eq_or_ne_of_mem_replace {r : Registry} {t u : Transport}
    (h : u ∈ (r.replace t).toList) :
    u = t ∨ u.id ≠ t.id ∧ u ∈ r.toList := by
  by_cases hid : u.id = t.id
  · exact .inl (eq_of_mem_replace h hid)
  · exact .inr ⟨hid, (mem_replace h).resolve_left fun heq =>
      hid (congrArg Transport.id heq)⟩

/-- So it is after a transport was added. -/
theorem Registry.eq_or_ne_of_mem_insert? {r r' : Registry} {t u : Transport}
    (hr : r.insert? t = some r') (h : u ∈ r'.toList) :
    u = t ∨ u.id ≠ t.id ∧ u ∈ r.toList := by
  unfold insert? at hr
  split at hr
  · cases hr
    exact eq_or_ne_of_mem_replace h
  · next hnew =>
    obtain ⟨-, hr⟩ := BoundedList.push?_eq_some_iff.mp hr
    rw [hr, List.mem_append, List.mem_singleton] at h
    rcases h with h | h
    · exact .inr ⟨get?_eq_none_iff.mp (by simpa using hnew) u h, h⟩
    · exact .inl h

namespace Broker

variable {b b' : Broker} {op : Operation} {es : List Exchange} {t' : Transport}

/-- Where a transport after a step comes from, and what was said about it
meanwhile. -/
inductive Origin (b : Broker) (op : Operation) (es : List Exchange)
    (t' : Transport) : Prop where
  /-- It was there, and nothing is said about it. -/
  | same {t : Transport} (live : t ∈ b.transports.toList)
      (outline : t'.outline = t.outline) (unsaid : ∀ e ∈ es, ¬ e.Concerns t.path)
  /-- It was published just now. -/
  | opened (stream : t'.stream = none) (delay : t'.delay = 0)
      (said : es = [⟨.register t'.path, true⟩])
  /-- It was there, and another stream was put in place. -/
  | installed {t : Transport} {s : Stream} {es₁ es₂ : List Exchange}
      (live : t ∈ b.transports.toList)
      (outline : t'.outline = { t with stream := some s }.outline)
      (before : Silent es₁)
      (after : Silent es₂)
        (said : es = es₁ ++ ([⟨.announce t.path (.imtu s.imtu), ()⟩,
          ⟨.announce t.path (.omtu s.omtu), ()⟩] ++ es₂))
  /-- It was there, and another delay was taken note of. -/
  | delayed {t : Transport} {delay : UInt16} (live : t ∈ b.transports.toList)
      (kind : t.backend.isA2dp = true)
      (outline : t'.outline = { t with delay }.outline)
      (said : es = [⟨.announce t.path (.delay delay), ()⟩])

/-- Every transport after an operation was there before, or it was published in it. -/
theorem Shows.origin (h : b.Shows op es b')
    (located : ∀ t ∈ b.transports.toList, t.Located)
    (ht' : t' ∈ b'.transports.toList) : b.Origin op es t' := by
  -- what is said about one transport is not said about another one
  have hother : ∀ {t u : Transport}, t ∈ b.transports.toList →
      u ∈ b.transports.toList → u.id ≠ t.id → t.path ≠ u.path :=
    fun ht hu hne hpath => hne ((located _ hu).id_eq (located _ ht) hpath.symm)
  cases h with
  | nothing silent same _ _ =>
    obtain ⟨t, ht, houtline⟩ := Registry.mem_of_outlines same ht'
    exact .same ht houtline.symm (silent.not_concerns _)
  | refused _ path =>
    refine .same ht' rfl fun e he => ?_
    rw [List.mem_singleton.mp he]
    rintro ⟨-, htaken⟩
    cases htaken
  | @opened endpoint device configuration t transports _ created insert =>
    rcases Registry.eq_or_ne_of_mem_insert? insert ht' with rfl | ⟨hid, ht⟩
    · obtain ⟨-, -, -, -, -, -, hstream, hdelay, -⟩ := Transport.create_eq_ok created
      exact .opened hstream hdelay rfl
    · refine .same ht rfl fun e he => ?_
      rw [List.mem_singleton.mp he]
      rintro ⟨hpath, -⟩
      exact hid ((located t' ht).id_eq
        (Transport.located_of_create created) hpath.symm)
  | @closed t es _ live silent =>
    refine .same (List.mem_filter.mp ht').1 rfl fun e he => ?_
    rcases List.mem_cons.mp he with rfl | he
    · exact id
    · exact silent.not_concerns _ e he
  | @installed t s es₁ es₂ _ installs before after outlines =>
    have ht := installs.live
    obtain ⟨u, hu, houtline⟩ := Registry.mem_of_outlines outlines ht'
    rcases Registry.eq_or_ne_of_mem_replace hu with rfl | ⟨hid, hu⟩
    · exact .installed ht houtline.symm before after rfl
    · have hpath := hother ht hu hid
      refine .same hu houtline.symm fun e he => ?_
      simp only [List.mem_append, List.mem_cons, List.not_mem_nil, or_false] at he
      rcases he with he | (rfl | rfl) | he
      · exact before.not_concerns _ e he
      · exact hpath
      · exact hpath
      · exact after.not_concerns _ e he
  | @delayed t delay delays =>
    have ht := delays.live
    rcases Registry.eq_or_ne_of_mem_replace ht' with rfl | ⟨hid, hu⟩
    · exact .delayed ht delays.2.2.1 rfl rfl
    · refine .same hu rfl fun e he => ?_
      rw [List.mem_singleton.mp he]
      exact hother ht hu hid

/-- A client that had the values of every live transport has them after the step. -/
theorem Origin.heard_eq_view {f : ObjectPath → View} (h : b.Origin op es t')
    (heard : ∀ t ∈ b.transports.toList, f t.path = t.view) :
    es.foldl (View.hear t'.path) (f t'.path) = t'.view := by
  -- the outline has all that is announced
  have hview : ∀ {t : Transport}, t'.outline = t.outline →
      t'.view = t.view ∧ t'.path = t.path := by
    intro t houtline
    have hstream := congrArg Transport.Outline.stream houtline
    have hdelay := congrArg Transport.Outline.delay houtline
    have hpath := congrArg Transport.Outline.path houtline
    simp only [Transport.outline] at hstream hdelay hpath
    exact ⟨by
      simp only [Transport.view, Transport.imtu, Transport.omtu, hstream, hdelay],
        hpath⟩
  cases h with
  | same live outline unsaid =>
    obtain ⟨hsame, hpath⟩ := hview outline
    rw [hpath, View.hear_eq_self unsaid, hsame, heard _ live]
  | opened stream delay said =>
    rw [said]
    show View.hear t'.path _ ⟨.register t'.path, true⟩ = _
    simp [View.hear, View.initial, Transport.view, Transport.imtu, Transport.omtu,
      stream, delay]
  | @installed t s es₁ es₂ live outline before after said =>
    obtain ⟨hnew, hpath⟩ := hview outline
    rw [hpath, said, List.foldl_append, List.foldl_append,
      View.hear_eq_self (before.not_concerns _),
      View.hear_eq_self (after.not_concerns _), hnew]
    show View.hear t.path (View.hear t.path (f t.path)
      ⟨.announce t.path (.imtu s.imtu), ()⟩)
      ⟨.announce t.path (.omtu s.omtu), ()⟩ = _
    rw [heard t live]
    simp [View.hear, View.apply, Transport.view, Transport.imtu, Transport.omtu]
  | @delayed t delay live kind outline said =>
    obtain ⟨hnew, hpath⟩ := hview outline
    rw [hpath, said, hnew]
    show View.hear t.path (f t.path) ⟨.announce t.path (.delay delay), ()⟩ = _
    rw [heard t live]
    simp [View.hear, View.apply, Transport.view, Transport.imtu, Transport.omtu]

/-- A transport that is not an A2DP transport has no delay. -/
theorem Origin.delay_eq_zero (h : b.Origin op es t')
    (none : ∀ t ∈ b.transports.toList, t.backend.isA2dp = false → t.delay = 0)
    (kind : t'.backend.isA2dp = false) : t'.delay = 0 := by
  have hkept : ∀ {t : Transport}, t'.outline = t.outline →
      t.backend.isA2dp = false ∧ t'.delay = t.delay := by
    intro t houtline
    have hkind := congrArg Transport.Outline.isA2dp houtline
    exact ⟨hkind.symm.trans kind, congrArg Transport.Outline.delay houtline⟩
  cases h with
  | same live outline _ =>
    obtain ⟨hkind, hdelay⟩ := hkept outline
    rw [hdelay, none _ live hkind]
  | opened _ delay _ => exact delay
  | @installed t _ _ _ live outline _ _ _ =>
    obtain ⟨hkind, hdelay⟩ := hkept outline
    rw [hdelay]
    exact none t live hkind
  | delayed _ isA2dp outline _ =>
    obtain ⟨hkind, -⟩ := hkept outline
    rw [isA2dp] at hkind
    cases hkind

/-- Where a stream is put in place its MTUs are announced, one directly after the
other, and nothing else. -/
theorem Shows.announces_mtus {t : Transport} {stream : Stream} (h : b.Shows op es b')
    (hd : b.transports.Distinct) (installs : b.Installs op es t stream) :
    (∃ t' ∈ b'.transports.toList, t'.id = t.id ∧ t'.stream = some stream) ∧
      ∃ es₁ es₂, es = es₁ ++ ([⟨.announce t.path (.imtu stream.imtu), ()⟩,
        ⟨.announce t.path (.omtu stream.omtu), ()⟩] ++ es₂) ∧ Silent es₁ ∧
          Silent es₂ := by
  cases h with
  | nothing _ _ none _ => exact absurd installs (none t stream)
  | refused quiet _ | opened quiet _ _ | closed quiet _ _ =>
    exact absurd quiet installs.not_quiet
  | installed installs' before after outlines =>
    obtain ⟨rfl, rfl⟩ := installs.unique installs'
    obtain ⟨t', ht', houtline⟩ := Registry.mem_of_outlines outlines.symm
      (hd.mem_replace installs.get? (by rfl))
    have hid := congrArg Transport.Outline.id houtline
    have hstream := congrArg Transport.Outline.stream houtline
    exact ⟨⟨t', ht', hid, hstream⟩, _, _, rfl, before, after⟩
  | delayed delays =>
    obtain ⟨r, -, -, hreport, -⟩ := installs
    rw [delays.report?_eq_none] at hreport
    cases hreport

/-- Where a delay is taken note of it is announced, and nothing else is said. -/
theorem Shows.announces_delay {t : Transport} {delay : UInt16} (h : b.Shows op es b')
    (hd : b.transports.Distinct) (delays : b.Delays op t delay) :
    (∃ t' ∈ b'.transports.toList, t'.id = t.id ∧ t'.delay = delay) ∧
      es = [⟨.announce t.path (.delay delay), ()⟩] := by
  cases h with
  | nothing _ _ _ none => exact absurd delays (none t delay)
  | refused quiet _ | opened quiet _ _ | closed quiet _ _ =>
    exact absurd quiet delays.not_quiet
  | installed installs _ _ _ =>
    obtain ⟨r, -, -, hreport, -⟩ := installs
    rw [delays.report?_eq_none] at hreport
    cases hreport
  | @delayed t' delay' delays' =>
    -- one operation reports one delay of one transport
    obtain ⟨hreport, hlive, -⟩ := delays
    obtain ⟨hreport', hlive', -⟩ := delays'
    have hboth := Option.some.inj (hreport.symm.trans hreport')
    obtain ⟨hid, rfl⟩ := Prod.mk.inj hboth
    rw [hid, hlive'] at hlive
    cases hlive
    exact ⟨⟨_, hd.mem_replace hlive' rfl, rfl, rfl⟩, rfl⟩

end Broker

/-! ### Runs -/

section Runs

variable {options : Options} {steps : List Step} {b : Broker}

/-- Whoever follows the announcements at the path of a live transport has its
values. -/
theorem Run.heard_eq_view (run : Run (.empty options) steps b) :
    ∀ t ∈ b.transports.toList, heard t.path (exchanges steps) = t.view := by
  induction run with
  | nil => exact fun t ht => absurd ht List.not_mem_nil
  | @snoc steps s run ih =>
    intro t' ht'
    have horigin := (s.shows run.distinct).origin run.located ht'
    rw [exchanges_append, exchanges_singleton, heard, List.foldl_append]
    exact horigin.heard_eq_view (f := fun path => heard path (exchanges steps)) ih

/-- A headset transport has no delay. -/
theorem Run.delay_eq_zero (run : Run (.empty options) steps b) :
    ∀ t ∈ b.transports.toList, t.backend.isA2dp = false → t.delay = 0 := by
  induction run with
  | nil => exact fun t ht => absurd ht List.not_mem_nil
  | @snoc steps s run ih =>
    intro t' ht'
    exact ((s.shows run.distinct).origin run.located ht').delay_eq_zero ih

/-- In every state of every run a client that begins with zeros when a live
transport is published, and takes over what is announced at its path, has the two
MTUs and the delay of the transport. Both MTUs are announced, one directly after the
other, in each step that puts another stream in place than the one that is there,
and in no other one; a delay is announced in each step that reports another one of
an A2DP transport, and in no other one. A headset has no delay, and none is
announced of it. -/
theorem Run.announcements_mirror_properties (run : Run (.empty options) steps b) :
    (∀ t ∈ b.transports.toList,
        heard t.path (exchanges steps) =
          { imtu := t.imtu, omtu := t.omtu, delay := t.delay }) ∧
      (∀ t ∈ b.transports.toList, t.backend.isA2dp = false → t.delay = 0) ∧
      ∀ s ∈ steps,
        (∀ t stream, s.before.Installs s.op s.exchanges t stream →
          (∃ t' ∈ s.after.transports.toList, t'.id = t.id ∧ t'.stream = some stream) ∧
            ∃ es es',
              s.exchanges = es ++ ([⟨.announce t.path (.imtu stream.imtu), ()⟩,
              ⟨.announce t.path (.omtu stream.omtu), ()⟩] ++ es') ∧ Silent es ∧
                Silent es') ∧
        (∀ t delay, s.before.Delays s.op t delay →
          (∃ t' ∈ s.after.transports.toList, t'.id = t.id ∧ t'.delay = delay) ∧
            s.exchanges = [⟨.announce t.path (.delay delay), ()⟩]) ∧
        (∀ e ∈ s.exchanges, ∀ path change, e.call = .announce path change →
          (∃ t stream, s.before.Installs s.op s.exchanges t stream ∧ path = t.path ∧
              (change = .imtu stream.imtu ∨ change = .omtu stream.omtu)) ∨
            ∃ t delay, s.before.Delays s.op t delay ∧ path = t.path ∧
              change = .delay delay) ∧
        ∀ t ∈ s.before.transports.toList, t.backend.isA2dp = false →
          ∀ e ∈ s.exchanges, ∀ delay, e.call ≠ .announce t.path (.delay delay) := by
  refine ⟨run.heard_eq_view, run.delay_eq_zero, fun s hs => ?_⟩
  obtain ⟨pre, post, rfl⟩ := List.append_of_mem hs
  obtain ⟨hbefore, -⟩ := run.around
  have hshows := s.shows hbefore.distinct
  refine ⟨fun t stream => hshows.announces_mtus hbefore.distinct,
    fun t delay => hshows.announces_delay hbefore.distinct,
    fun e he path change => hshows.announcement he,
      fun t ht hkind e he delay hcall => ?_⟩
  rcases hshows.announcement he hcall
    with ⟨u, stream, -, -, hchange⟩ | ⟨u, delay', delays, hpath, -⟩
  · rcases hchange with hchange | hchange <;> cases hchange
  · -- the A2DP transport that it would be announced of is at the same path
    have hid := (hbefore.located u delays.live).id_eq
      (hbefore.located t ht) hpath.symm
    have hsame := hbefore.distinct.get?_of_mem ht
    rw [← hid, delays.2.1] at hsame
    rw [← Option.some.inj hsame, delays.2.2.1] at hkind
    cases hkind

/-- A stream is started, its delay is reported, and another stream is started after
it. -/
def Scene.streamsInARow : List (Script × Operation) :=
  [({}, .create speaker device []), ({}, acquire ":1" "rw" 1),
    ({}, .a2dpResumed ⟨⟨0⟩, ⟨0⟩⟩ .started),
    ({}, .reportDelay ⟨0⟩ 30), ({}, .release "/dev/fd0" ":1" "rw"),
      ({}, acquire ":1" "rw" 2),
    ({ stream := some ⟨⟨8⟩, 100, 200⟩ }, .a2dpResumed ⟨⟨0⟩, ⟨1⟩⟩ .started)]

/-- A session in which the stream and the delay change, and both are heard. -/
theorem Run.second_stream_is_heard :
    ∃ steps b, Run (.empty {}) steps b ∧ ∃ t ∈ b.transports.toList,
      heard t.path (exchanges steps) = { imtu := 100, omtu := 200, delay := 30 } := by
  have run := Broker.run_play Script.peers (.empty {}) Scene.streamsInARow
  have hlive :
      (((Broker.empty {}).played Script.peers
        Scene.streamsInARow).transports.toList.any fun t =>
      decide (t.imtu = 100 ∧ t.omtu = 200 ∧ t.delay = 30)) = true := by decide
  obtain ⟨t, ht, hfacts⟩ := List.any_eq_true.mp hlive
  obtain ⟨himtu, homtu, hdelay⟩ := of_decide_eq_true hfacts
  obtain ⟨hheard, -⟩ := run.announcements_mirror_properties
  refine ⟨_, _, run, t, ht, ?_⟩
  rw [hheard t ht, himtu, homtu, hdelay]

end Runs

end AudioBroker
