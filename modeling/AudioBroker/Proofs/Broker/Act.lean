import AudioBroker.Proofs.Broker.Report
import AudioBroker.Proofs.Numbers
import AudioBroker.Proofs.Transport.Leaving

/-!
# The acts of the broker

What a step does, told in full: a transport is created or removed, a request for
access is heard, the end of a start or a delay is reported, or owners are on their
way out. Which of these it is depends on the operation, and on the broker before it.

- `Operation.delay?`, `Operation.Quiet`: the delay that an operation reports, and
  operations that report nothing.
- `Registry.Leaving`: owners of live transports on their way out.
- `Broker.report_cases`: what a report comes to.
- `Broker.Act`, `Step.act`: the act of every step.
-/

namespace AudioBroker

open Dialogue

/-- The delay that an operation reports, and the transport that it is of. -/
def Operation.delay? : Operation → Option (TransportId × UInt16)
  | .reportDelay id delay | .handle (.delayed id delay) => some (id, delay)
  | _ => none

/-- An operation that reports nothing of a stream. -/
def Operation.Quiet (op : Operation) : Prop := op.report? = none ∧ op.delay? = none

/-- The end of a start and a delay are not reported at once. -/
theorem Operation.delay?_eq_none {op : Operation} {r : Report}
    (h : op.report? = some r) :
    op.delay? = none := by
  cases op with
  | handle event => cases event <;> first | rfl | cases h
  | reportDelay _ _ => cases h
  | _ => rfl

/-- A delay is no report of a start. -/
theorem Operation.report?_eq_none {op : Operation} {id : TransportId} {delay : UInt16}
    (h : op.delay? = some (id, delay)) : op.report? = none := by
  cases hreport : op.report? with
  | none => rfl
  | some r =>
    rw [Operation.delay?_eq_none hreport] at h
    cases h

/-! ### Owners on their way out -/

namespace Registry

/-- Owners of live transports on their way out. Meanwhile the peers are asked, and
calls are answered. -/
inductive Leaving : Registry → List Exchange → Registry → Prop where
  | aside {r : Registry} {es : List Exchange}
      (closing : ∀ e ∈ es, e.call.isQuery = true ∨
        ∃ call reply, e.call = .reply call reply) : Leaving r es r
  | moved {r : Registry} {t t' : Transport} {es : List Exchange}
      (live : r.get? t.id = some t)
      (leaving : t.Leaving es t') : Leaving r es (r.replace t')
  | seq {r r₁ r' : Registry} {es es' : List Exchange} (first : Leaving r es r₁)
      (next : Leaving r₁ es' r') : Leaving r (es ++ es') r'

variable {r r' : Registry} {es : List Exchange}

theorem Leaving.still (r : Registry) : r.Leaving [] r := .aside (by simp)

/-- Calls may be answered then. -/
theorem Leaving.answered {es' : List Exchange} (h : r.Leaving es r')
    (answer : ∀ e ∈ es', ∃ call reply, e.call = .reply call reply) :
    r.Leaving (es ++ es') r' :=
  h.seq (.aside fun e he => .inr (answer e he))

theorem Leaving.distinct (h : r.Leaving es r') (hr : r.Distinct) : r'.Distinct := by
  induction h with
  | aside _ => exact hr
  | moved _ _ => exact hr.replace _
  | seq _ _ ih₁ ih₂ => exact ih₂ (ih₁ hr)

/-- Whoever is on the way out only closes things, answers, and asks. -/
theorem Leaving.isClosing (h : r.Leaving es r') :
    ∀ e ∈ es, e.call.isClosing = true := by
  induction h with
  | aside closing =>
    intro e he
    rcases closing e he with hquery | ⟨call, reply, hreply⟩
    · exact Call.isClosing_of_isQuery hquery
    · rw [hreply]
      rfl
  | moved _ leaving => exact leaving.isClosing
  | seq _ _ ih₁ ih₂ =>
    intro e he
    exact (List.mem_append.mp he).elim (ih₁ e) (ih₂ e)

/-- What is seen of the transports apart from their owners stays. -/
theorem Leaving.map_bare (h : r.Leaving es r') (hr : r.Distinct) :
    r'.toList.map Transport.bare = r.toList.map Transport.bare := by
  induction h with
  | aside _ => rfl
  | moved live leaving =>
    obtain ⟨pre, post, hl, -, -, hreplace⟩ := hr.exists_around live
    rw [hreplace _ (Transport.id_eq_of_bare leaving.bare_eq), hl, List.map_append,
      List.map_cons, leaving.bare_eq, List.map_append, List.map_cons]
  | seq first _ ih₁ ih₂ => rw [ih₂ (first.distinct hr), ih₁ hr]

end Registry

namespace Broker

variable {b b' : Broker} {es es' : List Exchange} {r : Report}

theorem store_leaving {id : TransportId} {t t' : Transport}
    (hget : b.transports.get? id = some t) (leaving : t.Leaving es t') :
    b.transports.Leaving es (b.store t').transports := by
  obtain ⟨-, rfl⟩ := Registry.get?_eq_some hget
  exact .moved hget leaving

theorem endScheduled_leaving {token : Token} {ended : Bool}
    (h : (b.endScheduled token).Yields es (ended, b')) :
    b.transports.Leaving es b'.transports := by
  rcases endScheduled_cases h with ⟨-, -, rfl, rfl⟩ | ⟨t, t', ht, h₁, rfl⟩
  · exact .still _
  · exact store_leaving ht (Transport.endScheduled_leaving h₁)

/-- An owner that finds no room in the queue is on its way out. -/
theorem defer_leaving {token : Token} (h : (b.defer token).Yields es b') :
    b.transports.Leaving es b'.transports := by
  rcases defer_cases h with ⟨deferred, -, rfl, rfl⟩ | ⟨-, ended, hend⟩
  · exact .still _
  · exact endScheduled_leaving hend

theorem endEach_leaving {tokens : List Token} {n : Nat}
    (h : (b.endEach tokens).Yields es (n, b')) :
    b.transports.Leaving es b'.transports := by
  induction tokens generalizing b es n with
  | nil =>
    obtain ⟨rfl, h⟩ := yields_pure.mp h
    cases h
    exact .still _
  | cons token rest ih =>
    obtain ⟨es₁, ended, b₁, es₂, m, h₁, h₂, rfl, -⟩ := endEach_cons_cases h
    exact (endScheduled_leaving h₁).seq (ih h₂)

/-- A report is stale, or its outcome is delivered to an owner that waits for it;
and then owners may be on their way out. -/
theorem report_cases (hd : b.transports.Distinct) (h : (b.report r).Yields es b') :
    (¬ b.Expects r.isA2dp r.token ∧ es = [] ∧ b' = b) ∨
      ∃ t i p es₁ delivered t₁ es₂, b.transports.get? r.token.transport = some t ∧
        t.backend.isA2dp = r.isA2dp ∧ t.awaiting? r.token.owner = some (i, p) ∧
        (t.attempt i p r.success).Yields es₁ (delivered, t₁) ∧ es = es₁ ++ es₂ ∧
        (b.transports.replace t₁).Leaving es₂ b'.transports := by
  by_cases hexpects : b.Expects r.isA2dp r.token
  · obtain ⟨t, hget, hkind, hwaits⟩ := hexpects
    obtain ⟨⟨i, p⟩, hwaits⟩ := Option.isSome_iff_exists.mp hwaits
    rw [report, hget] at h
    simp only [if_pos hkind] at h
    obtain ⟨es₁, completion, t', es₂, h₁, rfl, hcase⟩ := complete_cases h
    obtain ⟨es₃, delivered, t₁, es₄, hattempt, rfl, hleaving⟩ :=
      Transport.complete_leaving hwaits h₁
    refine .inr ⟨t, i, p, es₃, delivered, t₁, es₄ ++ es₂, hget, hkind, hwaits,
      hattempt, List.append_assoc _ _ _, ?_⟩
    -- what is stored at the end is stored in the place of what the attempt left
    have hid : t₁.id = t.id := by
      obtain ⟨f, heq, -⟩ := Transport.attempt_settles hattempt
      rw [heq]
      rfl
    have hstored : (b.store t₁).transports.get? t₁.id = some t₁ :=
      Registry.get?_id (get?_store hget hid)
    have hfirst : (b.transports.replace t₁).Leaving es₄ (b.store t').transports := by
      have hmoved := Registry.Leaving.moved hstored hleaving
      rwa [store, Registry.replace_replace _
        (Transport.id_eq_of_bare hleaving.bare_eq)] at hmoved
    refine hfirst.seq ?_
    rcases hcase with ⟨-, hdefer⟩ | ⟨-, rfl, rfl⟩
    · exact defer_leaving hdefer
    · exact .still _
  · rw [report_of_not_expects hd hexpects] at h
    exact .inl ⟨hexpects, yields_pure.mp h⟩

/-! ### Acts -/

/-- What an operation does. The transports of the list are displaced by a new one. -/
inductive Act (b : Broker) (op : Operation) :
    List Transport → List Exchange → Broker → Prop where
  /-- The bus takes no transport at a path. -/
  | refused (quiet : op.Quiet) (path : ObjectPath) :
      Act b op [] [⟨.register path, false⟩] b
  /-- A transport is created under the next number. -/
  | created {endpoint : Endpoint} {device : Device} {configuration : List UInt8}
      {t : Transport} {transports : Registry} (quiet : op.Quiet)
      (created : Transport.create b.nextTransport endpoint device configuration
        b.options = .ok t)
      (insert : b.transports.insert? t = some transports) :
      Act b op (b.transports.get? t.id).toList [⟨.register t.path, true⟩]
        { b with transports, nextTransport := b.nextTransport.next }
  /-- A transport is withdrawn, and its owners are torn down before it is dropped. -/
  | removed {t t' : Transport} {es es' : List Exchange} (quiet : op.Quiet)
      (live : b.transports.get? t.id = some t) (leaving : t.Leaving es t')
      (vacant : t'.owners.toList = [])
      (closing : es'.map Exchange.call = t'.backend.closeCalls) :
      Act b op [] (⟨.unregister t.path, ()⟩ :: (es ++ es'))
        { b with transports := b.transports.erase t.id }
  /-- A request for access is heard by a live transport; if it is turned down it may
  be answered here. -/
  | acquired {t t' : Transport} {client text : String} {call : PendingCall}
      {result : Except Rejection Unit} {es es' : List Exchange} (quiet : op.Quiet)
      (live : b.transports.get? t.id = some t)
      (went : (t.acquire client text call b.nextOwner).Yields es (result, t'))
      (answer : ∀ e ∈ es', ∃ call reply, e.call = .reply call reply) :
      Act b op [] (es ++ es') { b.store t' with nextOwner := b.nextOwner.next }
  /-- Owners are on their way out. -/
  | left {es : List Exchange} {b' : Broker} (quiet : op.Quiet)
      (leaving : b.transports.Leaving es b'.transports) : Act b op [] es b'
  /-- A report that nobody waits for. -/
  | stale {r : Report} (report : op.report? = some r)
      (nobody : ¬ b.Expects r.isA2dp r.token) : Act b op [] [] b
  /-- A report for an owner that waits for it. -/
  | reported {r : Report} {t t₁ : Transport} {i : Nat} {p : Pending}
      {delivered : Bool}
      {es₁ es₂ : List Exchange} {b' : Broker} (report : op.report? = some r)
      (live : b.transports.get? r.token.transport = some t)
      (kind : t.backend.isA2dp = r.isA2dp)
      (waits : t.awaiting? r.token.owner = some (i, p))
      (attempt : (t.attempt i p r.success).Yields es₁ (delivered, t₁))
      (leaving : (b.transports.replace t₁).Leaving es₂ b'.transports) :
        Act b op [] (es₁ ++ es₂) b'
  /-- A delay is reported for a live transport. -/
  | delayed {id : TransportId} {delay : UInt16} {t t' : Transport}
      {es : List Exchange}
      (report : op.delay? = some (id, delay)) (live : b.transports.get? id = some t)
      (went : (t.reportDelay delay).Yields es t') : Act b op [] es (b.store t')
  /-- A delay is reported for a transport that is gone. -/
  | unknown {id : TransportId} {delay : UInt16}
      (report : op.delay? = some (id, delay))
      (gone : b.transports.get? id = none) : Act b op [] [] b

variable {op : Operation}

theorem create_act {endpoint : Endpoint} {device : Device}
    {configuration : List UInt8} {result : Except Fault TransportId}
    (h : (b.create endpoint device configuration).Yields es (result, b')) :
    b.Act (.create endpoint device configuration)
      (displaced ((Operation.create endpoint device configuration).incidents b
        result)) es b' := by
  rcases create_cases h with ⟨fault, rfl, rfl, hes⟩ |
    ⟨t, transports, hcreate, hinsert, rfl, rfl, rfl⟩
  · rcases hes with ⟨-, rfl⟩ | ⟨-, t, -, rfl⟩
    · exact .left ⟨rfl, rfl⟩ (.still _)
    · exact .refused ⟨rfl, rfl⟩ t.path
  · rw [displaced_create]
    exact .created ⟨rfl, rfl⟩ hcreate hinsert

theorem remove_act {id : TransportId} {known : Bool} (quiet : op.Quiet)
    (h : (b.remove id).Yields es (known, b')) : b.Act op [] es b' := by
  rcases remove_cases h with ⟨-, -, rfl, rfl⟩ |
    ⟨t, es₁, t', es₂, hget, -, h₁, hclosing, rfl, rfl⟩
  · exact .left quiet (.still _)
  · obtain ⟨-, rfl⟩ := Registry.get?_eq_some hget
    exact .removed quiet hget (Transport.endFirst_leaving h₁)
      (Transport.endAll_owners h₁) hclosing

/-- A request for access takes on one owner at most. -/
theorem acquire_act {path client text : String} {call : PendingCall}
    {result : Except Rejection Unit} (quiet : op.Quiet)
    (h : (b.acquire path client text call).Yields es (result, b'))
    (answer : ∀ e ∈ es', ∃ call reply, e.call = .reply call reply) :
    b.Act op [] (es ++ es') b' := by
  rcases acquire_cases h with ⟨-, -, rfl, rfl⟩ | ⟨t, t', ht, h₁, rfl⟩
  · exact .left quiet (.aside fun e he => .inr (answer e he))
  · exact .acquired quiet (get?_of_transportAt? ht) h₁ answer

/-- A report is taken by the owner that waits for it, or ignored. -/
theorem report_act (hd : b.transports.Distinct) (report : op.report? = some r)
    (h : (b.report r).Yields es b') : b.Act op [] es b' := by
  rcases report_cases hd h with ⟨hnot, rfl, rfl⟩ |
    ⟨t, i, p, es₁, delivered, t₁, es₂, hget, hkind, hwaits, hattempt, rfl, hleaving⟩
  · exact .stale report hnot
  · exact .reported report hget hkind hwaits hattempt hleaving

theorem reportDelay_act {id : TransportId} {delay : UInt16}
    {result : Except Fault Unit} (report : op.delay? = some (id, delay))
    (h : (b.reportDelay id delay).Yields es (result, b')) :
    b.Act op [] es b' := by
  rcases reportDelay_cases h with ⟨hnone, -, rfl, rfl⟩ | ⟨t, t', ht, h₁, -, rfl⟩
  · exact .unknown report hnone
  · exact .delayed report ht h₁

theorem release_leaving {path client text : String} {result : Except Fault Unit}
    (h : (b.release path client text).Yields es (result, b')) :
    b.transports.Leaving es b'.transports := by
  rcases release_cases h with ⟨-, -, rfl, rfl⟩ | ⟨t, t', ht, h₁, rfl⟩
  · exact .still _
  · exact store_leaving (get?_of_transportAt? ht) (Transport.release_leaving h₁)

theorem exit_leaving {token : Token} {known : Bool}
    (h : (b.exit token).Yields es (known, b')) :
    b.transports.Leaving es b'.transports := by
  rcases exit_cases h with ⟨-, -, rfl, rfl⟩ | ⟨t, t', ht, h₁, rfl⟩
  · exact .still _
  · exact store_leaving ht (Transport.exit_leaving h₁)

theorem properties_leaving {path : String} {result : Except Fault Snapshot}
    (h : (b.properties path).Yields es result) :
    b.transports.Leaving es b.transports := by
  rcases lookup_cases h with ⟨-, -, rfl⟩ | ⟨t, snapshot, -, h₁, -⟩
  · exact .still _
  · exact .aside fun e he => .inl (Transport.properties_queries h₁ e he)

theorem dispatch_act {path client : String} {call : PendingCall} {method : Method}
    (quiet : op.Quiet) (h : (b.dispatch path client call method).Yields es b') :
    b.Act op [] es b' := by
  obtain ⟨result, es₁, es₂, h₁, rfl, hanswer⟩ := dispatch_answers h
  have hreplies : ∀ e ∈ es₂, ∃ call reply, e.call = .reply call reply := by
    intro e he
    have hcall := List.mem_map_of_mem (f := Exchange.call) he
    rw [hanswer] at hcall
    obtain ⟨reply, -, hcall⟩ := List.mem_map.mp hcall
    exact ⟨call, reply, hcall.symm⟩
  cases method with
  | getProperties =>
    obtain ⟨a, ha, heq⟩ := yields_map.mp h₁
    cases heq
    exact .left quiet ((properties_leaving ha).answered hreplies)
  | acquire access => exact acquire_act quiet h₁ hreplies
  | release access => exact .left quiet ((release_leaving h₁).answered hreplies)
  | setProperty name value =>
    obtain ⟨rfl, heq⟩ := yields_pure.mp h₁
    cases heq
    exact .left quiet ((Registry.Leaving.still _).answered hreplies)

theorem handle_act {event : Event}
    (unreported : (Operation.handle event).report? = none)
    (h : (b.handle event).Yields es b') : b.Act (.handle event) [] es b' := by
  obtain ⟨result, h₁⟩ := handle_cases h
  cases event with
  | call path client call method => exact dispatch_act ⟨rfl, rfl⟩ h
  | exited token => exact .left ⟨rfl, rfl⟩ (exit_leaving h₁)
  | delayed id delay => exact reportDelay_act rfl h₁
  | a2dpResumed _ _ | voiceConnected _ _ => cases unreported

/-- No operation displaces a transport but one that creates another. -/
theorem Act.of_ne_create {result : op.Result} (act : b.Act op [] es b')
    (h : ∀ endpoint device configuration,
      op ≠ .create endpoint device configuration) :
    b.Act op (displaced (op.incidents b result)) es b' := by
  rw [displaced_incidents b result h]
  exact act

/-- Every operation is one of the acts. -/
theorem perform_act {result : op.Result} (hd : b.transports.Distinct)
    (h : (b.perform op).Yields es (result, b')) :
    b.Act op (displaced (op.incidents b result)) es b' := by
  cases report : op.report? with
  | some r =>
    -- whichever layer reports, and whether by an event or not
    have hreported := Step.reported (s := ⟨b, op, es, result, b', h⟩) report
    refine (report_act hd report hreported).of_ne_create ?_
    rintro _ _ _ rfl
    cases report
  | none =>
    cases op with
    | create endpoint device configuration => exact create_act h
    | remove id => exact (remove_act ⟨rfl, rfl⟩ h).of_ne_create nofun
    | acquire path client access call =>
      have hact : b.Act (.acquire path client access call) [] (es ++ []) b' :=
        acquire_act ⟨rfl, rfl⟩ h (by simp)
      rw [List.append_nil] at hact
      exact hact.of_ne_create nofun
    | release path client access =>
      exact .of_ne_create (.left ⟨rfl, rfl⟩ (release_leaving h)) nofun
    | properties path =>
      obtain ⟨a, ha, h⟩ := yields_map.mp h
      cases h
      exact .of_ne_create (.left ⟨rfl, rfl⟩ (properties_leaving ha)) nofun
    | setProperty path name value =>
      obtain ⟨rfl, h⟩ := yields_pure.mp h
      cases h
      exact .of_ne_create (.left ⟨rfl, rfl⟩ (.still _)) nofun
    | exit token => exact .of_ne_create (.left ⟨rfl, rfl⟩ (exit_leaving h)) nofun
    | reportDelay id delay => exact (reportDelay_act rfl h).of_ne_create nofun
    | runDeferred =>
      have hleaving := endEach_leaving (b := { b with deferred := ∅ }) h
      exact .of_ne_create (.left ⟨rfl, rfl⟩ hleaving) nofun
    | dispatch path client call method =>
      obtain ⟨a, ha, h⟩ := yields_map.mp h
      cases h
      exact (dispatch_act ⟨rfl, rfl⟩ ha).of_ne_create nofun
    | handle event =>
      obtain ⟨a, ha, h⟩ := yields_map.mp h
      cases h
      exact (handle_act report ha).of_ne_create nofun
    | a2dpResumed _ _ | voiceConnected _ _ => cases report

end Broker

/-- What a step does, where no two live transports have one number. -/
theorem Step.act (s : Step) (hd : s.before.transports.Distinct) :
    s.before.Act s.op (displaced s.incidents) s.exchanges s.after :=
  Broker.perform_act hd s.performed

end AudioBroker
