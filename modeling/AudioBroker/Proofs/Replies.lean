import AudioBroker.Proofs.Account
import AudioBroker.Proofs.Numbers
import AudioBroker.Proofs.Transport.Tally

/-!
# Every call is answered once

The answer to an admitted `Acquire` is owed to an owner until the start has ended or
the owner is torn down. Calls are kept count of by their serial number: a call that
was taken in was answered, or an owner still waits for the answer, or the client of
that owner has left.

- `replies`, `waiting`, `abandoned`: how often a call was answered, how many owners
  wait for the answer, and how many have left without it.
- `Transport.Move.waiting_eq`: every move adds up.
- `Run.calls_answered_once`: what it comes to in every run in which no two calls
  have one serial number.
-/

namespace AudioBroker

/-- The call that is answered, if this is an answer. -/
def Call.answers? : Call → Option PendingCall
  | .reply call _ => some call
  | _ => none

/-- How often a call was answered, whatever became of the answers. -/
def replies (c : PendingCall) (es : List Exchange) : Nat :=
  es.countP fun e => e.call.answers? = some c

/-- Whether an owner waits for the answer to a call. -/
def Owner.waits (c : PendingCall) (o : Owner) : Bool := o.unspent? = some c

/-- How many owners of a transport wait for the answer to a call. -/
def Transport.waiting (c : PendingCall) (t : Transport) : Nat :=
  t.owners.toList.countP (Owner.waits c)

/-- How many owners wait for the answer to a call. -/
def waiting (c : PendingCall) (ts : List Transport) : Nat :=
  (ts.map (Transport.waiting c)).sum

/-- Whether a call was taken in. -/
def Incident.takes (c : PendingCall) : Incident → Bool
  | .admitted call => call = c
  | .answered call => call = c
  | _ => false

/-- Whether an owner left that waited for the answer to a call. -/
def Incident.abandons (c : PendingCall) : Incident → Bool
  | .departed o => o.waits c
  | _ => false

/-- How often a call was taken in. -/
def taken (c : PendingCall) (ls : List Incident) : Nat := ls.countP (Incident.takes c)

/-- How many owners left that waited for the answer to a call. -/
def abandoned (c : PendingCall) (ls : List Incident) : Nat :=
  ls.countP (Incident.abandons c)

variable {c : PendingCall}

@[simp] theorem replies_append (c : PendingCall) (es es' : List Exchange) :
    replies c (es ++ es') = replies c es + replies c es' := List.countP_append

@[simp] theorem taken_append (c : PendingCall) (ls ls' : List Incident) :
    taken c (ls ++ ls') = taken c ls + taken c ls' := List.countP_append

@[simp] theorem abandoned_append (c : PendingCall) (ls ls' : List Incident) :
    abandoned c (ls ++ ls') = abandoned c ls + abandoned c ls' := List.countP_append

/-- Answers are counted by the calls to the bus alone. -/
theorem replies_eq {es : List Exchange} {cs : List Call}
    (h : es.map Exchange.call = cs) :
    replies c es = cs.countP fun call => call.answers? = some c := by
  rw [replies, ← h, List.countP_map]
  rfl

theorem replies_eq_zero {es : List Exchange} {cs : List Call}
    (h : es.map Exchange.call = cs) (hcs : ∀ call ∈ cs, call.answers? = none) :
    replies c es = 0 := by
  rw [replies_eq h, List.countP_eq_zero]
  intro call hcall
  simp [hcs call hcall]

theorem replies_neutral {es : List Exchange} (h : ∀ e ∈ es, e.call.isNeutral = true) :
    replies c es = 0 := by
  rw [replies, List.countP_eq_zero]
  intro e he
  have hneutral := h e he
  revert hneutral
  cases e.call <;> simp [Call.isNeutral, Call.answers?]

/-! ### Every move adds up -/

namespace Owner

variable {o : Owner}

/-- Nobody waits once the client has left. -/
theorem waits_depart : o.depart.waits c = false := by
  cases hp : o.pending <;> simp [waits, unspent?, depart, hp]

/-- An owner still waits when its start has ended, until it is answered. -/
theorem waits_settle : o.settle.waits c = o.waits c := by
  cases hp : o.pending <;> simp [waits, unspent?, settle, hp]

end Owner

namespace Transport

variable {t t' : Transport} {ls : List Incident} {es : List Exchange} {i : Nat}
  {o : Owner}

theorem waiting_eq_tally (t : Transport) : t.waiting c = t.tally (Owner.waits c) :=
  rfl

theorem Announced.waiting_eq (announced : t.Announced es t') :
    t'.waiting c + replies c es = t.waiting c := by
  rw [replies_neutral announced.neutral, announced.eq]
  rfl

/-- A new owner waits for the answer to the call that it came with, and to no other
one. -/
theorem waits_fresh {id : OwnerId} {name : ClientName} {access : Access}
    {watch : Option WatchId} {call : PendingCall} {request : Option RequestId} :
    ((Owner.fresh id name access watch call request).waits c).toNat = taken c
      [.admitted call] := by
  by_cases hc :
    call = c <;> simp [Owner.waits, Owner.unspent?, Owner.fresh, taken,
      Incident.takes, hc]

/-- An owner that waits for an answer gets one when it is torn down, and no other
owner does. -/
theorem replies_parting (ho : t.owners.toList[i]? = some o)
    (h : es.map Exchange.call = t.partingCalls i) :
    replies c es = (o.waits c).toNat := by
  -- nothing else that is said then answers anybody
  have hunlock : ∀ call : Call, call.isUnlock = true → call.answers? = none := by
    intro call hcall
    cases call with
    | reply _ _ => cases hcall
    | _ => rfl
  have habort : ∀ request,
      (t.backend.abortCall t.device request).answers? = none := by
    intro request
    cases t.backend <;> rfl
  have hanswers : es.filterMap (fun e => e.call.answers?) = o.unspent?.toList := by
    rw [filterMap_parting ho h hunlock,
      List.filterMap_eq_nil_iff.mpr fun request _ => habort request]
    simp [Call.answers?]
  have hreplies : replies c es = (es.filterMap fun e => e.call.answers?).count c := by
    rw [List.count_filterMap, replies]
    refine List.countP_congr fun e _ => ?_
    simp
  rw [hreplies, hanswers, count_toList, Owner.waits, beq_eq_decide]

/-- Nobody is answered by a start. -/
theorem replies_start {device : Device} {token : Token} {b : Backend} {inUse : Bool}
    {st : Backend.Start} (h : Backend.StartSpec device token b inUse es st) :
    replies c es = 0 := by
  apply replies_eq_zero rfl
  intro call hcall
  obtain ⟨e, he, rfl⟩ := List.mem_map.mp hcall
  have hstarting := h.isStarting e he
  revert hstarting
  cases e.call <;> simp [Call.isStarting, Call.answers?]

/-- The answer with the descriptor goes to the call that the owner still holds. -/
theorem replies_delivered {fd : StreamFd}
    (h : es.map Exchange.call = o.unspent?.toList.map fun c =>
      .reply c (.descriptor fd)) :
    replies c es = (o.waits c).toNat := by
  rw [replies_eq h]
  cases hcall : o.unspent? with
  | none => simp [Owner.waits, hcall]
  | some call =>
    by_cases hc : call = c <;> simp [Owner.waits, hcall, Call.answers?, hc]

/-- Whoever leaves abandons the call that it waits for. -/
theorem abandoned_departed (o : Owner) :
    abandoned c [.departed o] = (o.waits c).toNat := by
  cases ho : o.waits c <;> simp [abandoned, Incident.abandons, ho]

/-- What is said to take on an owner answers nobody. -/
theorem replies_taking {name : ClientName} {token : Token} {watch : Option WatchId}
    {device : Device} {b : Backend} {inUse : Bool} {st : Backend.Start}
    (h : Backend.StartSpec device token b inUse es st) :
    replies c (⟨.watch name token, watch⟩ :: es) = 0 := by
  rw [← List.singleton_append, replies_append, replies_start h]
  rfl

/-- Whoever waits afterwards waited before or was taken in, unless it was answered
or has left. -/
theorem Move.waiting_eq (move : Move t ls es t') :
    t'.waiting c + replies c es + abandoned c ls = t.waiting c + taken c ls := by
  rw [waiting_eq_tally, waiting_eq_tally]
  cases move with
  | joined admitted spec _ =>
    rw [tally_started (room_of_admission admitted), waits_fresh, replies_taking spec]
    rfl
  | @turnedAway _ _ name access call id watch es es' start admitted spec _ parting =>
    have hroom := room_of_admission admitted
    have hlast :
        (t.started start
          (.fresh id name access watch call start.request)).owners.toList[
        t.owners.size]? = some _ := started_last hroom
    have hsaid : replies c (⟨.watch name (t.token id), watch⟩ :: (es ++ es')) =
        taken c [.admitted call] := by
      rw [← List.cons_append, replies_append, replies_taking spec,
        replies_parting hlast parting, waits_fresh, Nat.zero_add]
    -- the owner was answered by its end, so that it does not wait
    have hgone := tally_without (p := Owner.waits c) hlast
    rw [tally_started hroom] at hgone
    rw [hsaid]
    show _ + _ + 0 = _
    omega
  | narrowed ho _ _ => exact tally_modifyOwner_kept (Owner.narrow · _) ho rfl
  | ended ho parting =>
    rw [replies_parting ho parting, tally_without ho]
    rfl
  | departed ho =>
    rw [abandoned_departed]
    exact tally_modifyOwner_released Owner.depart ho Owner.waits_depart
  | settled ho => exact tally_modifyOwner_kept Owner.settle ho Owner.waits_settle
  | installed install => exact (install_announced install).waiting_eq
  | delivered ho reply =>
    rw [replies_delivered reply]
    exact tally_modifyOwner_released Owner.answer ho rfl
  | scheduled ho _ => exact tally_modifyOwner_kept Owner.schedule ho rfl
  | delayed report => exact (reportDelay_announced report).waiting_eq
  | asked query =>
    rw [replies_neutral fun e he =>
      List.mem_singleton.mp he ▸ Call.isNeutral_of_isQuery query]
    rfl

end Transport

/-! ### Every run adds up -/

namespace PendingCall

/-- The owners that wait for the answer to a call, as it is taken in and answered. -/
def account (c : PendingCall) : Account where
  held t := t.waiting c
  said e := -(decide (e.call.answers? = some c)).toNat
  befell l := (l.takes c).toNat - (l.abandons c).toNat - waiting c (displaced [l])

theorem saids_eq (c : PendingCall) (es : List Exchange) :
    c.account.saids es = -(replies c es : Int) := by
  rw [replies, ← sum_toNat_eq_countP]
  induction es with
  | nil => rfl
  | cons e es ih =>
    rw [Account.saids_cons, ih, List.map_cons, List.sum_cons]
    show -_ + _ = _
    omega

theorem befalls_eq (c : PendingCall) (ls : List Incident) :
    c.account.befalls ls = taken c ls - abandoned c ls -
      waiting c (displaced ls) := by
  rw [taken, abandoned, ← sum_toNat_eq_countP, ← sum_toNat_eq_countP]
  induction ls with
  | nil => rfl
  | cons l ls ih =>
    have hdisplaced : waiting c (displaced (l :: ls)) = waiting c (displaced [l]) +
        waiting c (displaced ls) := by
      rw [← List.singleton_append, displaced_append, waiting, List.map_append,
        List.sum_append]
      rfl
    rw [Account.befalls_cons, ih, hdisplaced, List.map_cons, List.sum_cons,
      List.map_cons, List.sum_cons]
    show (_ - _ - _ : Int) + _ = _
    omega

theorem account_kept (c : PendingCall) : c.account.Kept fun _ => True where
  neutral e h := by
    obtain ⟨call, answer⟩ := e
    cases call <;> first | rfl | cases h
  answered call reply delivery := by
    by_cases hc : call = c <;>
      simp [account, Call.answers?, Incident.takes, Incident.abandons, displaced,
        waiting, hc]
  displaced t := by
    simp [account, Incident.takes, Incident.abandons, displaced, waiting]
  vacant t _ hvacant := by simp [account, Transport.waiting, hvacant]
  create _ _ _ _ _ _ _ := trivial
  move _ _ _ _ _ _ := trivial
  moved t ls es t' _ move := by
    have hwaiting := move.waiting_eq (c := c)
    have hdisplaced : waiting c (displaced ls) = 0 := by cases move <;> rfl
    rw [saids_eq, befalls_eq, hdisplaced]
    show ((t'.waiting c : Nat) : Int) = (t.waiting c : Nat) + _ + _
    omega

theorem total_eq (c : PendingCall) (r : Registry) :
    c.account.total r = waiting c r.toList := by
  rw [Account.total, waiting]
  induction r.toList with
  | nil => rfl
  | cons t ts ih =>
    rw [List.map_cons, List.sum_cons, ih, List.map_cons, List.sum_cons]
    show ((t.waiting c : Nat) : Int) + _ = _
    omega

end PendingCall

/-- Whatever happens to the live transports, the calls that were taken in are
accounted for. -/
theorem Registry.Outcome.waiting_eq {r r' : Registry} {ls : List Incident}
    {es : List Exchange} (outcome : r.Outcome ls es r') (hr : r.Distinct) :
    waiting c r'.toList + replies c es + abandoned c ls + waiting c (displaced ls) =
      waiting c r.toList + taken c ls := by
  have htotal := c.account_kept.outcome_total outcome hr fun _ _ => trivial
  rw [PendingCall.total_eq, PendingCall.total_eq, PendingCall.saids_eq,
    PendingCall.befalls_eq] at htotal
  omega

/-- In every run, a call was taken in as often as it was answered, was abandoned, or
is waited for. -/
theorem Run.waiting_eq {options : Options} {steps : List Step} {b : Broker}
    (run : Run (.empty options) steps b) :
    waiting c b.transports.toList + replies c (exchanges steps) +
      abandoned c (incidents steps) +
      waiting c (displaced (incidents steps)) = taken c (incidents steps) := by
  have htotal := c.account_kept.run_total run
  rw [PendingCall.total_eq, PendingCall.saids_eq, PendingCall.befalls_eq] at htotal
  omega

/-! ### The calls that come in -/

/-- A method call as it comes in. -/
structure MethodCall where
  path : String
  client : String
  call : PendingCall
  method : Method

/-- The method call that the broker is to carry out. -/
def Operation.methodCall? : Operation → Option MethodCall
  | .dispatch path client call method => some { path, client, call, method }
  | .handle (.call path client call method) =>
    some { path := path.str, client := client.str, call, method }
  | _ => none

/-- The call that comes in with an operation; a request for access can also come
without a method call, and is then handed back if it is turned down. -/
def Operation.call? : Operation → Option PendingCall
  | .acquire _ _ _ call => some call
  | op => op.methodCall?.map MethodCall.call

/-- The calls that came in. -/
def calls (steps : List Step) : List PendingCall :=
  steps.filterMap fun s => s.op.call?

theorem call?_of_methodCall {op : Operation} {m : MethodCall}
    (h : op.methodCall? = some m) :
    op.call? = some m.call := by
  have hmap : op.call? = op.methodCall?.map MethodCall.call := by
    cases op with
    | acquire _ _ _ _ => cases h
    | create _ _ _ | remove _ | release _ _ _ | properties _ | setProperty _ _ _
    | exit _ | a2dpResumed _ _ | voiceConnected _ _ | reportDelay _ _ | runDeferred
    | dispatch _ _ _ _ | handle _ => rfl
  rw [hmap, h]
  rfl

/-- A method call is taken in once, whatever becomes of it. -/
theorem taken_callIncidents (b : Broker) (path client : String) (call : PendingCall)
    (method : Method) :
    taken c (b.callIncidents path client call method) = if call = c then 1
      else 0 := by
  unfold Broker.callIncidents
  split <;> by_cases hc : call = c <;> simp [taken, Incident.takes, hc]

/-- A method call happens alike whether it comes in an event or not. -/
theorem incidents_of_methodCall {b : Broker} {op : Operation} {result : op.Result}
    {m : MethodCall} (h : op.methodCall? = some m) :
    op.incidents b result = b.callIncidents m.path m.client m.call m.method := by
  cases op with
  | dispatch path client call method =>
    cases h
    rfl
  | handle event =>
    cases event with
    | call path client call method =>
      cases h
      rfl
    | exited _ | a2dpResumed _ _ | voiceConnected _ _ | delayed _ _ => cases h
  | create _ _ _ | remove _ | acquire _ _ _ _ | release _ _ _ | properties _
  | setProperty _ _ _ | exit _ | a2dpResumed _ _ | voiceConnected _ _
  | reportDelay _ _ | runDeferred => cases h

theorem taken_departed (o : Option Owner) : taken c (o.toList.map .departed) = 0 := by
  cases o <;> rfl

theorem taken_displaced (t : Option Transport) :
    taken c (t.toList.map .displaced) = 0 := by
  cases t <;> rfl

/-- Only the call that comes in with an operation is taken in by it. -/
theorem taken_le_call (b : Broker) (op : Operation) (result : op.Result) :
    taken c (op.incidents b result) ≤ if op.call? = some c then 1 else 0 := by
  -- a method call comes in by `dispatch` or as an event
  have hcall : ∀ path client call method,
      taken c (b.callIncidents path client call method) ≤
      if some call = some c then 1 else 0 := by
    intro path client call method
    rw [taken_callIncidents]
    by_cases hc : call = c <;> simp [hc]
  cases op with
  | create endpoint device configuration =>
    cases result with
    | error _ => exact Nat.zero_le _
    | ok id =>
      show taken c ((b.transports.get? id).toList.map .displaced) ≤ _
      rw [taken_displaced]
      exact Nat.zero_le _
  | acquire path client access call =>
    show taken c (if b.admits path client access then [.admitted call] else []) ≤
      if some call = some c then 1 else 0
    by_cases hc : call = c <;> by_cases hadmits :
      b.admits path client access = true <;>
      simp [hc, hadmits, taken, Incident.takes]
  | exit token =>
    show taken c ((b.owner? token).toList.map .departed) ≤ _
    rw [taken_departed]
    exact Nat.zero_le _
  | dispatch path client call method => exact hcall path client call method
  | handle event =>
    cases event with
    | call path client call method => exact hcall path.str client.str call method
    | exited token =>
      show taken c ((b.owner? token).toList.map .departed) ≤ _
      rw [taken_departed]
      exact Nat.zero_le _
    | a2dpResumed _ _ | voiceConnected _ _ | delayed _ _ => exact Nat.zero_le _
  | remove _ | release _ _ _ | properties _ | setProperty _ _ _ | a2dpResumed _ _
  | voiceConnected _ _ | reportDelay _ _ | runDeferred => exact Nat.zero_le _

/-- No call is taken in more often than it came in. -/
theorem taken_le_count (steps : List Step) :
    taken c (incidents steps) ≤ (calls steps).count c := by
  induction steps with
  | nil => exact Nat.zero_le _
  | cons s steps ih =>
    -- a step takes in the call that comes in with it, or none
    have hhead := taken_le_call (c := c) s.before s.op s.result
    have hincidents : incidents (s :: steps) = s.incidents ++ incidents steps := by
      rw [← List.singleton_append, incidents_append, incidents_singleton]
    rw [hincidents, taken_append, calls, List.filterMap_cons]
    cases hcall : s.op.call? with
    | none =>
      rw [hcall, if_neg (by simp)] at hhead
      show taken c (s.op.incidents s.before s.result) + _ ≤ (calls steps).count c
      omega
    | some call =>
      rw [hcall] at hhead
      show taken c (s.op.incidents s.before s.result) +
        _ ≤ (call :: calls steps).count c
      rw [List.count_cons]
      by_cases hc : call = c
      · simp only [hc, if_true, beq_self_eq_true] at hhead ⊢
        omega
      · simp only [hc, if_false, Option.some.injEq, beq_iff_eq] at hhead ⊢
        omega

/-! ### What is answered at once -/

/-- No move of a transport takes in a call and answers it at once; this is done by the
broker. -/
theorem Transport.Move.not_answered {t t' : Transport} {ls : List Incident}
    {es : List Exchange} (move : Move t ls es t') : .answered c ∉ ls := by
  cases move <;> simp

theorem Transport.Course.not_answered {t t' : Transport} {ls : List Incident}
    {es : List Exchange} (course : Course t ls es t') : .answered c ∉ ls := by
  induction course with
  | nil => simp
  | cons move _ _ ih =>
    rw [List.mem_append]
    rintro (h | h)
    · exact move.not_answered h
    · exact ih h

/-- A call that was answered at once was sent a reply. -/
theorem Registry.Outcome.replies_pos {r r' : Registry} {ls : List Incident}
    {es : List Exchange} (outcome : r.Outcome ls es r') (h : .answered c ∈ ls) :
    0 < replies c es := by
  cases outcome with
  | effect effect =>
    induction effect with
    | still | asked _ => cases h
    | answered call reply delivery =>
      cases List.mem_singleton.mp h
      simp [replies, Call.answers?]
    -- only a broker's own answer is an incident of this kind; a transport never has
    -- one
    | moved _ course => exact absurd h course.not_answered
    | closed _ _ _ _ => cases h
    | seq _ _ _ ih₁ ih₂ =>
      rw [replies_append]
      rcases List.mem_append.mp h with h | h
      · have hfirst := ih₁ h
        omega
      · have hnext := ih₂ h
        omega
  | refused _ => cases h
  | opened _ _ =>
    obtain ⟨t, -, ht⟩ := List.mem_map.mp h
    cases ht

/-- A call whose answer is not left for later is answered in the step that takes it
in, if it never came in before. -/
theorem Run.answered_at_once {options : Options} {pre : List Step} {s : Step}
    {m : MethodCall} (run : Run (.empty options) pre s.before)
    (new : m.call ∉ calls pre) (hm : s.op.methodCall? = some m)
    (hnow : s.before.defersAnswer m.path m.client m.method = false) :
    replies m.call s.exchanges = 1 := by
  have hincidents : s.incidents = [.answered m.call] := by
    rw [Step.incidents, incidents_of_methodCall hm, Broker.callIncidents, hnow]
    rfl
  have hunknown : taken m.call (incidents pre) = 0 := by
    have hle := taken_le_count (c := m.call) pre
    rw [List.count_eq_zero.mpr new] at hle
    omega
  have hbefore := run.waiting_eq (c := m.call)
  have hstep := s.outcome.waiting_eq (c := m.call) run.distinct
  have hpos := s.outcome.replies_pos (c := m.call) (by simp [hincidents])
  have htaken : taken m.call s.incidents = 1 := by
    simp [hincidents, taken, Incident.takes]
  omega

/-- Where no two calls that came in have one serial number, every method call is in
one of three states: it was answered, once; or one live owner waits for its answer;
or such an owner has left, and it is never answered. Only the call of an owner whose
transport was displaced, which takes a counter that starts over, would be in a
fourth. What is no admitted `Acquire` is answered at once, and nobody is answered
who did not call, or answered twice. -/
theorem Run.calls_answered_once {options : Options} {steps : List Step} {b : Broker}
    (run : Run (.empty options) steps b) (distinct : (calls steps).Nodup) :
    (∀ s ∈ steps, ∀ m, s.op.methodCall? = some m →
        replies m.call (exchanges steps) + waiting m.call b.transports.toList +
          abandoned m.call (incidents steps) +
            waiting m.call (displaced (incidents steps)) = 1 ∧
        (s.before.defersAnswer m.path m.client m.method = false →
          replies m.call s.exchanges = 1)) ∧
      (Unwrapped steps → displaced (incidents steps) = []) ∧
      (∀ c, replies c (exchanges steps) ≤ 1) ∧
      (∀ c, c ∉ calls steps → replies c (exchanges steps) = 0) ∧
      ∀ c pre post, steps = pre ++ post → 0 < abandoned c (incidents pre) →
        replies c (exchanges steps) = 0 := by
  have hcount : ∀ c, taken c (incidents steps) ≤ 1 := fun c =>
    Nat.le_trans (taken_le_count steps) (List.nodup_iff_count.mp distinct c)
  refine ⟨fun s hs m hm => ?_, run.displaced_eq_nil, fun c => ?_, fun c hc => ?_, ?_⟩
  · obtain ⟨pre, post, rfl⟩ := List.append_of_mem hs
    refine ⟨?_, fun hnow => ?_⟩
    · -- the call was taken in by this step and by no other
      have htotal := run.waiting_eq (c := m.call)
      have hle := hcount m.call
      have htaken : taken m.call s.incidents = 1 := by
        rw [Step.incidents, incidents_of_methodCall hm, taken_callIncidents,
          if_pos rfl]
      rw [← List.singleton_append, incidents_append, incidents_append,
        incidents_singleton, taken_append, taken_append, htaken] at htotal hle
      rw [← List.singleton_append, incidents_append, incidents_append,
        incidents_singleton]
      omega
    · -- it did not come in with any step before this one
      obtain ⟨b₁, hpre, -⟩ : ∃ b₁,
          Run (.empty options) (pre ++ [s]) b₁ ∧ Run b₁ post b := by
        refine Run.divide ?_
        rwa [List.append_assoc, List.singleton_append]
      refine hpre.snoc_inv.1.answered_at_once ?_ hm hnow
      intro hmem
      rw [calls, List.filterMap_append, List.filterMap_cons, call?_of_methodCall hm]
        at distinct
      exact (List.nodup_append.mp distinct).2.2 _ hmem _ List.mem_cons_self rfl
  · have htotal := run.waiting_eq (c := c)
    have hle := hcount c
    omega
  · have htotal := run.waiting_eq (c := c)
    have hle := taken_le_count (c := c) steps
    rw [List.count_eq_zero.mpr hc] at hle
    omega
  · rintro c pre post rfl hleft
    -- one taken in and one abandoned leave nothing to answer
    have htotal := run.waiting_eq (c := c)
    have hle := hcount c
    rw [incidents_append, abandoned_append] at htotal
    rw [incidents_append] at hle
    omega

/-- One call is answered at once, one client waits, and another one leaves. -/
def Scene.answeredWaitingLeft : List (Script × Operation) :=
  [({}, .create speaker device []),
    ({}, .dispatch "/dev/fd0" ":1" ⟨1⟩ .getProperties),
    ({}, .dispatch "/dev/fd0" ":1" ⟨2⟩ (.acquire ⟨"r", by decide⟩)),
    ({}, .dispatch "/dev/fd0" ":2" ⟨3⟩ (.acquire ⟨"w", by decide⟩)),
      ({}, .exit ⟨⟨0⟩, ⟨1⟩⟩)]

/-- A session with one call of each kind, of which none is answered twice. -/
theorem Run.answered_waiting_left_once :
    ∃ steps b, Run (.empty {}) steps b ∧ calls steps = [⟨1⟩, ⟨2⟩, ⟨3⟩] ∧
      replies ⟨1⟩ (exchanges steps) = 1 ∧ waiting ⟨2⟩ b.transports.toList = 1 ∧
      abandoned ⟨3⟩ (incidents steps) = 1 ∧ ∀ c, replies c (exchanges steps) ≤ 1 := by
  have run := Broker.run_play Script.peers (.empty {}) Scene.answeredWaitingLeft
  have hcalls :
      calls ((Broker.empty {}).play Script.peers Scene.answeredWaitingLeft) =
        [⟨1⟩, ⟨2⟩, ⟨3⟩] := by
    decide
  have hdistinct :
      (calls ((Broker.empty {}).play Script.peers
        Scene.answeredWaitingLeft)).Nodup := by
    rw [hcalls]
    decide
  obtain ⟨-, -, honce, -, -⟩ := run.calls_answered_once hdistinct
  exact ⟨_, _, run, hcalls, by decide, by decide, by decide, honce⟩

end AudioBroker
