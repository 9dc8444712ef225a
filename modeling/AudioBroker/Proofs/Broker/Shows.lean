import AudioBroker.Proofs.Broker.Act
import AudioBroker.Proofs.InstalledStream

/-!
# What the bus is shown

Transports are published and withdrawn, and changes of their properties are
announced. Most of what a step does is not shown on the bus at all; here is what is,
and when.

- `Transport.Outline`: what is seen of a transport from outside, apart from its
  owners.
- `Call.isShown`: a call that publishes, withdraws or announces.
- `Broker.Installs`, `Broker.Delays`: when a step puts another stream in place, or a
  new delay.
- `Broker.Shows`, `Step.shows`: what every step shows.
-/

namespace AudioBroker

open Dialogue

/-- What is seen of a transport from outside, apart from its owners. -/
structure Transport.Outline where
  id : TransportId
  path : ObjectPath
  isA2dp : Bool
  stream : Option Stream
  delay : UInt16

/-- The outline of a transport. -/
def Transport.outline (t : Transport) : Outline :=
  { id := t.id, path := t.path, isA2dp := t.backend.isA2dp, stream := t.stream,
    delay := t.delay }

/-- The outlines of the live transports. -/
def Registry.outlines (r : Registry) : List Transport.Outline :=
  r.toList.map Transport.outline

/-- A call that publishes an object, withdraws it, or announces a property of it. -/
def Call.isShown : Call → Bool
  | register _ | unregister _ | announce _ _ => true
  | _ => false

/-- Nothing of it is shown on the bus. -/
def Silent (es : List Exchange) : Prop := ∀ e ∈ es, e.call.isShown = false

theorem Silent.append {es es' : List Exchange} (h : Silent es) (h' : Silent es') :
    Silent (es ++ es') := by
  intro e he
  exact (List.mem_append.mp he).elim (h e) (h' e)

/-- Owners end without anything being shown. -/
theorem silent_of_isClosing {es : List Exchange}
    (h : ∀ e ∈ es, e.call.isClosing = true) : Silent es := by
  intro e he
  have hclosing := h e he
  revert hclosing
  cases e.call <;> simp [Call.isClosing, Call.isQuery, Call.isShown]

theorem silent_of_isStarting {es : List Exchange}
    (h : ∀ e ∈ es, e.call.isStarting = true) : Silent es := by
  intro e he
  have hstarting := h e he
  revert hstarting
  cases e.call <;> simp [Call.isStarting, Call.isShown]

theorem silent_of_isQuery {es : List Exchange}
    (h : ∀ e ∈ es, e.call.isQuery = true) : Silent es :=
  silent_of_isClosing fun e he => Call.isClosing_of_isQuery (h e he)

/-- There is one answer only to an announcement. -/
theorem eq_announce {e : Exchange} {path : ObjectPath} {change : Change}
    (h : e.call = .announce path change) : e = ⟨.announce path change, ()⟩ := by
  obtain ⟨call, answer⟩ := e
  cases h
  rfl

namespace Transport

variable {t t' : Transport} {es : List Exchange} {i : Nat} {id : OwnerId}

/-- The owners are no part of the outline. -/
theorem outline_eq_of_bare (h : t'.bare = t.bare) : t'.outline = t.outline := by
  show t'.bare.outline = t.bare.outline
  rw [h]

theorem outline_started {start : Backend.Start} (o : Owner)
    (h : start.backend.sessionless = t.backend.sessionless) :
    (t.started start o).outline = t.outline := by
  have hkind : start.backend.isA2dp = t.backend.isA2dp := by
    rw [← Backend.isA2dp_sessionless, h, Backend.isA2dp_sessionless]
  rw [started, withOwner]
  split <;> simp only [outline, hkind]

/-- A request for access is not seen from outside. -/
theorem acquire_silent {client text : String} {call : PendingCall}
    {result : Except Rejection Unit}
    (h : (t.acquire client text call id).Yields es (result, t')) :
    t'.outline = t.outline ∧ Silent es := by
  rcases acquire_cases h with ⟨fault, -, -, rfl, rfl⟩ | ⟨name, access, ha, -, htake⟩
  · exact ⟨rfl, by simp [Silent]⟩
  · obtain ⟨watch, es₁, start, es₂, hstart, rfl, hcase⟩ := takeOn_cases htake
    have hspec := Backend.start_spec hstart
    have hstarted := outline_started
      (.fresh id name access watch call start.request) hspec.sessionless_eq
    have hsaid : Silent (⟨.watch name (t.token id), watch⟩ :: es₁) := by
      intro e he
      rcases List.mem_cons.mp he with rfl | he
      · rfl
      · exact silent_of_isStarting hspec.isStarting e he
    rcases hcase with ⟨-, rfl, rfl⟩ | ⟨-, hparting, rfl⟩
    · rw [List.append_nil]
      exact ⟨hstarted, hsaid⟩
    · rw [← List.cons_append]
      refine ⟨(outline_eq_of_bare (bare_without _ _)).trans hstarted, hsaid.append ?_⟩
      exact silent_of_isClosing (isClosing_parting hparting)

/-- What an attempt to deliver shows: the MTUs of the stream, if it is another one
than that in place. -/
theorem attempt_shows {p : Pending} {success delivered : Bool}
    (h : (t.attempt i p success).Yields es (delivered, t')) :
    (Silent es ∧ t'.outline = t.outline ∧
        ∀ rest es₁ es₂ s, success = true → es ++ rest = es₁ ++ es₂ →
          (t.backend.stream t.device).Yields es₁ (some s) → t.fd = some s.fd) ∨
      ∃ s es₁ es₂, success = true ∧ (t.backend.stream t.device).Yields es₁ (some s) ∧
        t.fd ≠ some s.fd ∧ Silent es₁ ∧ Silent es₂ ∧
        es = es₁ ++ ([⟨.announce t.path (.imtu s.imtu), ()⟩,
          ⟨.announce t.path (.omtu s.omtu), ()⟩] ++ es₂) ∧
        t'.outline = { t with stream := some s }.outline := by
  unfold attempt at h
  split at h
  · next hsuccess =>
    have hquery : ∀ {stream? es}, (t.backend.stream t.device).Yields es stream? →
        Silent es := by
      intro stream? es hstream
      obtain ⟨e, rfl, query⟩ := stream_query hstream
      exact silent_of_isQuery (by simpa using query)
    rcases deliver_cases h with ⟨-, hnone, rfl⟩ |
      ⟨s, es₁, es₂, t₂, es₃, hstream, hinstall, rfl, rfl, hreply⟩
    · refine .inl ⟨hquery hnone, rfl, ?_⟩
      intro rest es₁ es₂ s _ heq hsome
      obtain ⟨-, hstream⟩ := Yields.prefix_unique hnone hsome heq
      cases hstream
    · have hanswered : Silent es₃ := by
        rcases hreply with ⟨-, rfl, -⟩ | ⟨call, delivery, -, rfl, -⟩ <;>
          simp [Silent, Call.isShown]
      -- a stream whose number is in place is not installed, and nothing is
      -- announced
      rcases install_cases hinstall with ⟨hfd, rfl, rfl⟩ | ⟨hfd, hcalls, rfl⟩
      · refine .inl ⟨((hquery hstream).append (by simp [Silent])).append hanswered,
          rfl, ?_⟩
        intro rest es₄ es₅ s' _ heq hsome
        rw [List.append_assoc, List.append_assoc] at heq
        obtain ⟨-, hstream⟩ := Yields.prefix_unique hstream hsome heq
        cases hstream
        exact hfd
      · -- the two announcements, one directly after the other
        obtain ⟨e₁, rest, rfl, h₁, hrest⟩ := List.map_eq_cons_iff.mp hcalls
        obtain ⟨e₂, rfl, h₂⟩ := List.map_eq_singleton_iff.mp hrest
        rw [eq_announce h₁, eq_announce h₂]
        refine .inr ⟨s, es₁, es₃, hsuccess, hstream, hfd, hquery hstream, hanswered,
          ?_, rfl⟩
        rw [List.append_assoc]
        rfl
  · next hfailure =>
    obtain ⟨rfl, h⟩ := yields_pure.mp h
    cases h
    exact .inl
      ⟨by simp [Silent], rfl, fun rest es₁ es₂ s hsuccess => absurd hsuccess hfailure⟩

end Transport

/-! ### Outlines of the live transports -/

namespace Registry

variable {r r' : Registry} {t t' : Transport} {es : List Exchange}

/-- Which outlines there are depends on the outline only of what is stored. -/
theorem outlines_replace_congr (r : Registry) (h : t'.outline = t.outline) :
    (r.replace t').outlines = (r.replace t).outlines := by
  have hid : t'.id = t.id := congrArg Transport.Outline.id h
  rw [outlines, outlines, replace, replace, BoundedList.toList_map,
    BoundedList.toList_map, List.map_map, List.map_map]
  refine List.map_congr_left fun u _ => ?_
  by_cases hu : u.id = t.id <;> simp [hid, hu, h]

/-- A change of a transport that is not seen leaves all outlines. -/
theorem outlines_replace_eq (hr : r.Distinct) (live : r.get? t.id = some t)
    (h : t'.outline = t.outline) : (r.replace t').outlines = r.outlines := by
  rw [outlines_replace_congr r h, hr.replace_self live]

/-- Owners on their way out are not seen from outside. -/
theorem Leaving.outlines_eq (h : r.Leaving es r') (hr : r.Distinct) :
    r'.outlines = r.outlines := by
  have hmap : ∀ r : Registry,
      r.outlines = (r.toList.map Transport.bare).map Transport.outline := by
    intro r
    rw [List.map_map]
    rfl
  rw [hmap, h.map_bare hr, hmap]

end Registry

namespace Broker

/-- The operation reports success for an owner of `t` that waits for it, and the
stream that is open then is another one than that in place. -/
def Installs (b : Broker) (op : Operation) (es : List Exchange) (t : Transport)
    (s : Stream) : Prop :=
  ∃ r es₁ es₂, op.report? = some r ∧ r.success = true ∧
    b.transports.get? r.token.transport = some t ∧ t.backend.isA2dp = r.isA2dp ∧
    (t.awaiting? r.token.owner).isSome = true ∧ es = es₁ ++ es₂ ∧
    (t.backend.stream t.device).Yields es₁ (some s) ∧ t.fd ≠ some s.fd

/-- The operation reports another delay of an A2DP transport than the one that was
reported last. -/
def Delays (b : Broker) (op : Operation) (t : Transport) (delay : UInt16) : Prop :=
  op.delay? = some (t.id, delay) ∧ b.transports.get? t.id = some t ∧
    t.backend.isA2dp = true ∧ t.delay ≠ delay

variable {b b' : Broker} {op : Operation} {es : List Exchange} {t t' : Transport}
  {s s' : Stream} {delay : UInt16}

/-- What comes in and what is answered decide which stream is put in place. -/
theorem Installs.unique (h : b.Installs op es t s) (h' : b.Installs op es t' s') :
    t' = t ∧ s' = s := by
  obtain ⟨r, es₁, es₂, hreport, -, hlive, -, -, heq, hstream, -⟩ := h
  obtain ⟨r', es₁', es₂', hreport', -, hlive', -, -, heq', hstream', -⟩ := h'
  cases hreport.symm.trans hreport'
  cases hlive.symm.trans hlive'
  obtain ⟨-, hsame⟩ := Yields.prefix_unique hstream hstream' (heq.symm.trans heq')
  cases hsame
  exact ⟨rfl, rfl⟩

theorem Installs.get? (h : b.Installs op es t s) :
    b.transports.get? t.id = some t := by
  obtain ⟨r, -, -, -, -, hlive, -⟩ := h
  exact Registry.get?_id hlive

theorem Installs.live (h : b.Installs op es t s) : t ∈ b.transports.toList :=
  (Registry.get?_eq_some h.get?).1

theorem Delays.live (h : b.Delays op t delay) : t ∈ b.transports.toList :=
  (Registry.get?_eq_some h.2.1).1

/-- An operation that puts a stream in place reports one. -/
theorem Installs.not_quiet (h : b.Installs op es t s) : ¬ op.Quiet := by
  obtain ⟨r, -, -, hreport, -⟩ := h
  rintro ⟨hnone, -⟩
  rw [hreport] at hnone
  cases hnone

theorem Delays.not_quiet (h : b.Delays op t delay) : ¬ op.Quiet := by
  rintro ⟨-, hnone⟩
  rw [h.1] at hnone
  cases hnone

/-- An operation reports a delay or a start, and not both. -/
theorem Delays.report?_eq_none (h : b.Delays op t delay) : op.report? = none :=
  Operation.report?_eq_none h.1

/-- What a step shows on the bus. -/
inductive Shows (b : Broker) (op : Operation) : List Exchange → Broker → Prop where
  /-- Nothing is shown, and no transport is seen to change. -/
  | nothing {es : List Exchange} {b' : Broker} (silent : Silent es)
      (same : b'.transports.outlines = b.transports.outlines)
      (installs : ∀ t s, ¬ b.Installs op es t s)
      (delays : ∀ t delay, ¬ b.Delays op t delay) : Shows b op es b'
  /-- The bus takes no transport at a path. -/
  | refused (quiet : op.Quiet) (path : ObjectPath) :
      Shows b op [⟨.register path, false⟩] b
  /-- A transport is published under the next number. -/
  | opened {endpoint : Endpoint} {device : Device} {configuration : List UInt8}
      {t : Transport} {transports : Registry} (quiet : op.Quiet)
      (created : Transport.create b.nextTransport endpoint device configuration
        b.options = .ok t)
      (insert : b.transports.insert? t = some transports) :
      Shows b op [⟨.register t.path, true⟩]
        { b with transports, nextTransport := b.nextTransport.next }
  /-- A transport is withdrawn. -/
  | closed {t : Transport} {es : List Exchange} (quiet : op.Quiet)
      (live : b.transports.get? t.id = some t) (silent : Silent es) :
      Shows b op (⟨.unregister t.path, ()⟩ :: es)
        { b with transports := b.transports.erase t.id }
  /-- Another stream is put in place, and its MTUs are announced. -/
  | installed {t : Transport} {s : Stream} {es₁ es₂ : List Exchange} {b' : Broker}
      (installs : b.Installs op (es₁ ++ ([⟨.announce t.path (.imtu s.imtu), ()⟩,
        ⟨.announce t.path (.omtu s.omtu), ()⟩] ++ es₂)) t s)
      (before : Silent es₁) (after : Silent es₂)
      (outlines : b'.transports.outlines =
        (b.transports.replace { t with stream := some s }).outlines) :
      Shows b op (es₁ ++ ([⟨.announce t.path (.imtu s.imtu), ()⟩,
        ⟨.announce t.path (.omtu s.omtu), ()⟩] ++ es₂)) b'
  /-- Another delay is taken note of and announced. -/
  | delayed {t : Transport} {delay : UInt16} (delays : b.Delays op t delay) :
      Shows b op [⟨.announce t.path (.delay delay), ()⟩] (b.store { t with delay })

/-- A report for an owner that waits puts another stream in place, or nothing is
shown. -/
theorem shows_of_reported {r : Report} {t₁ : Transport} {i : Nat} {p : Pending}
    {delivered : Bool} {es₁ es₂ : List Exchange} (hd : b.transports.Distinct)
    (report : op.report? = some r)
    (live : b.transports.get? r.token.transport = some t)
    (kind : t.backend.isA2dp = r.isA2dp)
    (waits : t.awaiting? r.token.owner = some (i, p))
    (attempt : (t.attempt i p r.success).Yields es₁ (delivered, t₁))
    (leaving : (b.transports.replace t₁).Leaving es₂ b'.transports) :
    b.Shows op (es₁ ++ es₂) b' := by
  have hclosing := silent_of_isClosing leaving.isClosing
  have houtlines := leaving.outlines_eq (hd.replace t₁)
  -- owners that go afterwards are not shown, so that the attempt decides
  rcases Transport.attempt_shows attempt with ⟨hsilent, houtline, hsame⟩ |
    ⟨s, es₃, es₄, hsuccess, hstream, hfd, hbefore, hafter, rfl, houtline⟩
  · refine .nothing (hsilent.append hclosing)
      (houtlines.trans (Registry.outlines_replace_eq hd
        (Registry.get?_id live) houtline)) (fun t' s h => ?_)
      (fun t delay h => ?_)
    · obtain ⟨r', es₃, es₄, hreport, hsuccess, hlive', -, -, heq, hstream, hfd⟩ := h
      cases hreport.symm.trans report
      cases hlive'.symm.trans live
      exact hfd (hsame es₂ es₃ es₄ s hsuccess heq hstream)
    · rw [h.report?_eq_none] at report
      cases report
  · have hsaid :
        es₃ ++ ([⟨.announce t.path (.imtu s.imtu), ()⟩,
          ⟨.announce t.path (.omtu s.omtu), ()⟩] ++
        es₄) ++ es₂ = es₃ ++ ([⟨.announce t.path (.imtu s.imtu), ()⟩,
          ⟨.announce t.path (.omtu s.omtu), ()⟩] ++ (es₄ ++ es₂)) := by
      simp only [List.append_assoc]
    rw [hsaid]
    refine .installed ⟨r, es₃, _, report, hsuccess, live, kind, ?_, rfl, hstream,
      hfd⟩ hbefore
      (hafter.append hclosing) (houtlines.trans
        (Registry.outlines_replace_congr _ houtline))
    rw [waits]
    rfl

/-- A delay that is reported of an A2DP transport is announced, if it is another
one. -/
theorem shows_of_delayed {id : TransportId} (hd : b.transports.Distinct)
    (report : op.delay? = some (id, delay)) (live : b.transports.get? id = some t)
    (went : (t.reportDelay delay).Yields es t') :
    b.Shows op es (b.store t') := by
  have hlive := Registry.get?_id live
  rcases Transport.reportDelay_cases went
    with ⟨hold, rfl, rfl⟩ | ⟨⟨hkind, hnew⟩, hcalls, rfl⟩
  · refine .nothing (by simp [Silent]) (Registry.outlines_replace_eq hd hlive rfl)
      (fun t s h => ?_) (fun u delay' h => ?_)
    · obtain ⟨r, -, -, hreport, -⟩ := h
      rw [Operation.delay?_eq_none hreport] at report
      cases report
    · obtain ⟨hdelay, hlive', hkind, hnew⟩ := h
      cases hdelay.symm.trans report
      cases hlive'.symm.trans live
      exact hold ⟨hkind, hnew⟩
  · obtain ⟨e, rfl, hcall⟩ := List.map_eq_singleton_iff.mp hcalls
    rw [eq_announce hcall]
    refine .delayed ⟨?_, hlive, hkind, hnew⟩
    rw [report, (Registry.get?_eq_some live).2]

/-- What each kind of act shows. -/
theorem Act.shows {lost : List Transport} (hd : b.transports.Distinct)
    (act : b.Act op lost es b') :
    b.Shows op es b' := by
  cases act with
  | refused quiet path => exact .refused quiet path
  | created quiet created insert => exact .opened quiet created insert
  | removed quiet live leaving _ closing =>
    have hclosed := silent_of_isClosing (Backend.isClosing_of_closeCalls closing)
    exact .closed quiet live ((silent_of_isClosing leaving.isClosing).append hclosed)
  | @acquired t t' client text call result es es' quiet live went answer =>
    obtain ⟨houtline, hsilent⟩ := Transport.acquire_silent went
    have hanswer : Silent es' := by
      intro e he
      obtain ⟨call, reply, hcall⟩ := answer e he
      rw [hcall]
      rfl
    exact .nothing (hsilent.append hanswer)
      (Registry.outlines_replace_eq hd live houtline)
      (fun t s h => h.not_quiet quiet) (fun t delay h => h.not_quiet quiet)
  | left quiet leaving =>
    exact .nothing (silent_of_isClosing leaving.isClosing) (leaving.outlines_eq hd)
      (fun t s h => h.not_quiet quiet) (fun t delay h => h.not_quiet quiet)
  | stale report nobody =>
    -- an unexpected report puts nothing in place, and it is no report of a delay
    refine .nothing (by simp [Silent]) rfl (fun t s h => ?_) (fun t delay h => ?_)
    · obtain ⟨r, -, -, hreport, -, hlive, hkind, hwaits, -⟩ := h
      cases hreport.symm.trans report
      exact nobody ⟨t, hlive, hkind, hwaits⟩
    · rw [h.report?_eq_none] at report
      cases report
  | reported report live kind waits attempt leaving =>
    exact shows_of_reported hd report live kind waits attempt leaving
  | delayed report live went => exact shows_of_delayed hd report live went
  | unknown report gone =>
    refine .nothing (by simp [Silent]) rfl (fun t s h => ?_) (fun t delay h => ?_)
    · obtain ⟨r, -, -, hreport, -⟩ := h
      rw [Operation.delay?_eq_none hreport] at report
      cases report
    · obtain ⟨hdelay, hlive, -⟩ := h
      cases hdelay.symm.trans report
      rw [gone] at hlive
      cases hlive

/-- What is announced in a step is announced of a stream that is put in place or of
a delay. -/
theorem Shows.announcement {e : Exchange} {path : ObjectPath} {change : Change}
    (h : b.Shows op es b') (he : e ∈ es) (hcall : e.call = .announce path change) :
    (∃ t s, b.Installs op es t s ∧ path = t.path ∧
      (change = .imtu s.imtu ∨ change = .omtu s.omtu)) ∨
      ∃ t delay, b.Delays op t delay ∧ path = t.path ∧ change = .delay delay := by
  -- the announcement is among the two of the stream, or it is the one of the delay
  have hsilent : ∀ {es}, Silent es → e ∉ es := by
    intro es hsilent he
    have hnot := hsilent e he
    rw [hcall] at hnot
    cases hnot
  cases h with
  | nothing silent _ _ _ => exact absurd he (hsilent silent)
  | refused _ _ | opened _ _ _ =>
    rw [List.mem_singleton.mp he] at hcall
    cases hcall
  | closed _ _ silent =>
    rcases List.mem_cons.mp he with rfl | he
    · cases hcall
    · exact absurd he (hsilent silent)
  | @installed t s es₁ es₂ _ installs before after _ =>
    refine .inl ⟨t, s, installs, ?_⟩
    simp only [List.mem_append, List.mem_cons, List.not_mem_nil, or_false] at he
    rcases he with he | (rfl | rfl) | he
    · exact absurd he (hsilent before)
    · cases hcall
      exact ⟨rfl, .inl rfl⟩
    · cases hcall
      exact ⟨rfl, .inr rfl⟩
    · exact absurd he (hsilent after)
  | @delayed t delay delays =>
    have hsaid := List.mem_singleton.mp he
    rw [hsaid] at hcall
    cases hcall
    exact .inr ⟨t, delay, delays, rfl, rfl⟩

end Broker

/-- What every step shows, where no two live transports have one number. -/
theorem Step.shows (s : Step) (hd : s.before.transports.Distinct) :
    s.before.Shows s.op s.exchanges s.after :=
  (s.act hd).shows hd

end AudioBroker
