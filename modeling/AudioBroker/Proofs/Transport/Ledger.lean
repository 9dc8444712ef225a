import AudioBroker.Proofs.Transport.Leaving

/-!
# The ledger of requests

A start that a profile layer has begun is known by a request, which its owner holds
until the layer reports that the start has ended. The ledger has an entry for every
owner, with the request that it holds.

- `Request`, `Exchange.begun?`, `Call.aborted?`: a request, and where it is begun
  and aborted.
- `LedgerEntry`, `Transport.ledger`: the entries of the owners of a transport.
- `Transport.Leaving.ledger`: the requests of owners on their way out are aborted,
  once each.
- `Transport.acquire_ledger`: a request for access comes to one entry at most, which
  holds what was begun.
- `Transport.attempt_ledger`: the end of a start settles the entry of its owner.
- `Owner.Orderly`: whoever is marked holds no request; the operations keep it.
-/

namespace AudioBroker

open Dialogue

/-- A request by which a start can be aborted; the two profile layers number theirs
apart. -/
structure Request where
  isA2dp : Bool
  id : RequestId
  deriving DecidableEq

/-- The request that was begun, for the owner with a token; a start that is refused
has none. -/
def Exchange.begun? : Exchange → Option (Token × Request)
  | ⟨.startStream _ _ token, id⟩ => id.map fun id => (token, ⟨true, id⟩)
  | ⟨.startVoice _ token, id⟩ => id.map fun id => (token, ⟨false, id⟩)
  | _ => none

/-- The request that a call aborts, and the device on which it does so. -/
def Call.aborted? : Call → Option (Device × Request)
  | .abortStream device id => some (device, ⟨true, id⟩)
  | .abortVoice device id => some (device, ⟨false, id⟩)
  | _ => none

/-- The token of the owner for whom a call asks for a start. -/
def Call.started? : Call → Option Token
  | .startStream _ _ token | .startVoice _ token => some token
  | _ => none

/-- The requests that were begun. -/
def begun (es : List Exchange) : List (Token × Request) :=
  es.filterMap Exchange.begun?

/-- The requests that were aborted. -/
def aborted (es : List Exchange) : List (Device × Request) :=
  es.filterMap fun e => e.call.aborted?

/-- The tokens of the owners for whom a start was asked for, be it refused or not. -/
def starts (es : List Exchange) : List Token := es.filterMap fun e => e.call.started?

@[simp] theorem begun_append (es es' : List Exchange) :
    begun (es ++ es') = begun es ++ begun es' :=
  List.filterMap_append

@[simp] theorem aborted_append (es es' : List Exchange) :
    aborted (es ++ es') = aborted es ++ aborted es' :=
  List.filterMap_append

@[simp] theorem starts_append (es es' : List Exchange) :
    starts (es ++ es') = starts es ++ starts es' :=
  List.filterMap_append

/-- A call that aborts a request is the one by which its backend does so. -/
theorem Call.eq_abortCall {c : Call} {device : Device} {q : Request} {b : Backend}
    (h : c.aborted? = some (device, q)) (kind : b.isA2dp = q.isA2dp) :
    c = b.abortCall device q.id := by
  cases c with
  | abortStream _ _ | abortVoice _ _ =>
    cases h
    cases b <;> first | rfl | cases kind
  | _ => cases h

/-- The abort of a request names it, on the layer of the backend. -/
theorem Call.aborted?_abortCall (b : Backend) (device : Device) (id : RequestId) :
    (b.abortCall device id).aborted? = some (device, ⟨b.isA2dp, id⟩) := by
  cases b <;> rfl

/-- Who was begun something for, a start was asked for. -/
theorem Exchange.started?_of_begun? {e : Exchange} {token : Token} {q : Request}
    (h : e.begun? = some (token, q)) : e.call.started? = some token := by
  obtain ⟨call, answer⟩ := e
  cases call with
  | startStream _ _ token' | startVoice _ token' =>
    obtain ⟨id, -, heq⟩ := Option.map_eq_some_iff.mp h
    cases heq
    rfl
  | _ => cases h

theorem begun_eq_nil {es : List Exchange} (h : starts es = []) : begun es = [] := by
  refine List.filterMap_eq_nil_iff.mpr fun e he => ?_
  cases hb : e.begun? with
  | none => rfl
  | some tq =>
    have hnone := List.filterMap_eq_nil_iff.mp h e he
    rw [Exchange.started?_of_begun? hb] at hnone
    cases hnone

theorem starts_closing {es : List Exchange}
    (h : ∀ e ∈ es, e.call.isClosing = true) : starts es = [] := by
  refine List.filterMap_eq_nil_iff.mpr fun e he => ?_
  have hclosing := h e he
  revert hclosing
  cases e.call <;> simp [Call.isClosing, Call.isQuery, Call.started?]

theorem starts_plain {es : List Exchange} (h : ∀ e ∈ es, e.call.isPlain = true) :
    starts es = [] := by
  refine List.filterMap_eq_nil_iff.mpr fun e he => ?_
  have hplain := h e he
  revert hplain
  cases e.call <;> simp [Call.isPlain, Call.isQuery, Call.started?]

theorem aborted_plain {es : List Exchange} (h : ∀ e ∈ es, e.call.isPlain = true) :
    aborted es = [] := by
  refine List.filterMap_eq_nil_iff.mpr fun e he => ?_
  have hplain := h e he
  revert hplain
  cases e.call <;> simp [Call.isPlain, Call.isQuery, Call.aborted?]

theorem aborted_starting {es : List Exchange}
    (h : ∀ e ∈ es, e.call.isStarting = true) : aborted es = [] := by
  refine List.filterMap_eq_nil_iff.mpr fun e he => ?_
  have hstarting := h e he
  revert hstarting
  cases e.call <;> simp [Call.isStarting, Call.aborted?]

theorem aborted_closeCalls {es : List Exchange} {b : Backend}
    (h : es.map Exchange.call = b.closeCalls) :
    aborted es = [] := by
  refine List.filterMap_eq_nil_iff.mpr fun e he => ?_
  have hcall := List.mem_map_of_mem (f := Exchange.call) he
  rw [h] at hcall
  obtain ⟨session, -, hcall⟩ := List.mem_map.mp hcall
  rw [← hcall]
  rfl

/-! ### A start -/

namespace Backend

variable {b b' : Backend} {device : Device} {token : Token} {inUse : Bool}
  {es : List Exchange} {st : Start}

theorem Opened.starts_eq (h : Opened device b es b') : starts es = [] := by
  cases h <;> rfl

theorem LockAsked.starts_eq {granted : Bool} {e : Exchange}
    (h : LockAsked device granted b e) :
    starts [e] = [] := by
  cases h <;> rfl

theorem StartAsked.starts_eq {request : Option RequestId} {e : Exchange}
    (h : StartAsked device token request b e) : starts [e] = [token] := by
  cases h <;> rfl

/-- A start that is granted begins the request that came back. -/
theorem StartAsked.begun_eq {request : Option RequestId} {e : Exchange}
    (h : StartAsked device token request b e) :
    begun [e] = (request.map fun id => (token, ⟨b.isA2dp, id⟩)).toList := by
  cases h <;> cases request <;> rfl

/-- A start is asked for once at most, and what is begun is the request that it
comes back with. -/
theorem StartSpec.begun_eq (h : StartSpec device token b inUse es st) :
    (starts es).Sublist [token] ∧
      begun es = (st.request.map fun id => (token, ⟨b.isA2dp, id⟩)).toList := by
  cases h with
  | noSession _ => exact ⟨List.nil_sublist _, rfl⟩
  | noLock _ opened refused =>
    rw [begun_append, starts_append, begun_eq_nil opened.starts_eq,
      begun_eq_nil refused.starts_eq, opened.starts_eq, refused.starts_eq]
    exact ⟨List.nil_sublist _, rfl⟩
  | @asked opening locking b' e request opened locked asked =>
    have hlocking : starts locking = [] := by
      rcases locked with ⟨-, rfl⟩ | ⟨-, e', granted, rfl⟩
      · rfl
      · exact granted.starts_eq
    -- opening a session does not change the kind
    have hkind : b'.isA2dp = b.isA2dp := by
      rw [← isA2dp_sessionless b', opened.sessionless_eq, isA2dp_sessionless]
    rw [starts_append, starts_append, begun_append, begun_append,
      begun_eq_nil opened.starts_eq, begun_eq_nil hlocking, opened.starts_eq,
      hlocking, asked.starts_eq, asked.begun_eq, hkind]
    exact ⟨List.Sublist.refl _, rfl⟩

end Backend

/-! ### Entries -/

/-- What the ledger has of an owner: its token, the device of its transport, and the
request that it holds. -/
structure LedgerEntry where
  token : Token
  device : Device
  request : Option Request
  deriving DecidableEq

namespace LedgerEntry

/-- The request that is held under the token of an entry. -/
def held? (e : LedgerEntry) : Option (Token × Request) := e.request.map (e.token, ·)

/-- The request that is aborted when the owner of an entry is torn down. -/
def abort? (e : LedgerEntry) : Option (Device × Request) :=
  e.request.map (e.device, ·)

/-- The entry once the start has ended. -/
def settle (e : LedgerEntry) : LedgerEntry := { e with request := none }

variable {e : LedgerEntry} {q : Request}

theorem held?_eq_some {token : Token} :
    e.held? = some (token, q) ↔ e.token = token ∧ e.request = some q := by
  rw [held?, Option.map_eq_some_iff]
  constructor
  · rintro ⟨q', hq, heq⟩
    cases heq
    exact ⟨rfl, hq⟩
  · rintro ⟨rfl, hq⟩
    exact ⟨q, hq, rfl⟩

theorem abort?_eq_some {device : Device} :
    e.abort? = some (device, q) ↔ e.device = device ∧ e.request = some q := by
  rw [abort?, Option.map_eq_some_iff]
  constructor
  · rintro ⟨q', hq, heq⟩
    cases heq
    exact ⟨rfl, hq⟩
  · rintro ⟨rfl, hq⟩
    exact ⟨q, hq, rfl⟩

/-- The requests alone, of all entries. -/
theorem map_snd_held (l : List LedgerEntry) :
    (l.filterMap held?).map Prod.snd = l.filterMap request := by
  rw [List.map_filterMap]
  refine List.filterMap_congr fun e _ => ?_
  rw [held?]
  cases e.request <;> rfl

/-- The requests are the same, whether they are looked up by token or by device. -/
theorem map_snd_abort (l : List LedgerEntry) :
    (l.filterMap abort?).map Prod.snd = l.filterMap request := by
  rw [List.map_filterMap]
  refine List.filterMap_congr fun e _ => ?_
  rw [abort?]
  cases e.request <;> rfl

end LedgerEntry

/-- An owner whose client left can still be aborted. -/
theorem Owner.request?_depart (o : Owner) : o.depart.request? = o.request? := by
  cases hp : o.pending <;> simp [depart, request?, hp]

/-- Whoever is marked holds no request. -/
def Owner.Orderly (o : Owner) : Prop := o.scheduled = true → o.request? = none

namespace Transport

variable {t t' : Transport} {es : List Exchange} {i : Nat} {o : Owner} {id : OwnerId}

/-- The entry of an owner of a transport. -/
def entry (t : Transport) (o : Owner) : LedgerEntry where
  token := t.token o.id
  device := t.device
  request := o.request?.map fun id => ⟨t.backend.isA2dp, id⟩

/-- The entries of the owners of a transport. -/
def ledger (t : Transport) : List LedgerEntry := t.owners.toList.map t.entry

/-- The entry of an owner only depends on the terms of its transport. -/
theorem entry_of_terms (h : t'.terms = t.terms) : t'.entry = t.entry := by
  funext o
  rw [entry, entry, token_eq_of_terms h, device_eq_of_terms h, isA2dp_eq_of_terms h]

/-- The entry of an owner goes with it, and the others stay. -/
theorem ledger_without (ho : t.owners.toList[i]? = some o) :
    t.ledger.Perm (t.entry o :: (t.without i).ledger) := by
  obtain ⟨pre, post, hl, -, herase, -⟩ := BoundedList.exists_around ho
  rw [ledger, ledger, entry_of_terms (terms_without t i), toList_owners_without,
    herase, hl, List.map_append, List.map_cons, List.map_append]
  exact List.perm_middle

/-- A change of an owner changes its entry, and the others stay. -/
theorem ledger_modifyOwner {f : Owner → Owner} (ho : t.owners.toList[i]? = some o) :
    ∃ rest, t.ledger.Perm (t.entry o :: rest) ∧
      (t.modifyOwner i f).ledger.Perm (t.entry (f o) :: rest) := by
  obtain ⟨pre, post, hl, -, -, hmodify⟩ := BoundedList.exists_around ho
  refine ⟨(pre ++ post).map t.entry, ?_, ?_⟩
  · rw [ledger, hl]
    exact List.perm_middle.map t.entry
  · rw [ledger, entry_of_terms (t := t) rfl, toList_owners_modifyOwner, hmodify]
    exact List.perm_middle.map t.entry

/-- An owner that is changed, under the number and with the request that it had. -/
theorem ledger_modifyOwner_kept {f : Owner → Owner}
    (ho : t.owners.toList[i]? = some o) (hf : t.entry (f o) = t.entry o) :
    (t.modifyOwner i f).ledger.Perm t.ledger := by
  obtain ⟨rest, hbefore, hafter⟩ := ledger_modifyOwner (f := f) ho
  rw [hf] at hafter
  exact hafter.trans hbefore.symm

theorem ledger_started {start : Backend.Start}
    (room : t.owners.toList.length < maxOwners)
    (kind : start.backend.sessionless = t.backend.sessionless) :
    (t.started start o).ledger = t.ledger ++ [t.entry o] := by
  rw [ledger, entry_of_terms (terms_started o kind), started_eq room, ledger,
    List.map_append, List.map_singleton]

/-- The end of an owner aborts the request that its entry holds, and no other one. -/
theorem aborted_parting (ho : t.owners.toList[i]? = some o)
    (h : es.map Exchange.call = t.partingCalls i) :
    aborted es = (t.entry o).abort?.toList := by
  -- of the parting calls only `abortCall` counts: unlocking a stream aborts nothing
  have hlock : ∀ c : Call, c.isUnlock = true → c.aborted? = none := by
    intro c hc
    cases c with
    | abortStream _ _ | abortVoice _ _ => cases hc
    | _ => rfl
  have hheld :
      o.request?.toList.filterMap
        (fun request => (t.backend.abortCall t.device request).aborted?) =
      (t.entry o).abort?.toList := by
    rw [LedgerEntry.abort?, entry]
    cases o.request? with
    | none => rfl
    | some request => simp [Call.aborted?_abortCall]
  show es.filterMap (fun e => e.call.aborted?) = _
  rw [filterMap_parting ho h hlock, hheld]
  simp [Call.aborted?]

/-! ### Owners that come and go -/

/-- The owners that are gone were those whose requests were aborted, once each. -/
theorem Leaving.ledger (h : t.Leaving es t') :
    ∃ gone, t.ledger.Perm (t'.ledger ++ gone) ∧
      aborted es = gone.filterMap LedgerEntry.abort? := by
  induction h with
  | nil t => exact ⟨[], by simp, rfl⟩
  | @narrowed t t' i o a es owner _ ih =>
    obtain ⟨gone, hperm, haborted⟩ := ih
    have hkept := ledger_modifyOwner_kept (f := (Owner.narrow · a)) owner rfl
    exact ⟨gone, hkept.symm.trans hperm, haborted⟩
  | @departed t t' i o es owner _ ih =>
    obtain ⟨gone, hperm, haborted⟩ := ih
    have hentry : t.entry o.depart = t.entry o := by
      rw [entry, o.request?_depart]
      rfl
    exact ⟨gone, (ledger_modifyOwner_kept owner hentry).symm.trans hperm, haborted⟩
  | scheduled owner _ _ ih =>
    obtain ⟨gone, hperm, haborted⟩ := ih
    exact ⟨gone, (ledger_modifyOwner_kept owner rfl).symm.trans hperm, haborted⟩
  | @ended t t' i o es es' owner parting _ ih =>
    obtain ⟨gone, hperm, haborted⟩ := ih
    refine ⟨t.entry o :: gone, ?_, ?_⟩
    · exact ((ledger_without owner).trans (hperm.cons _)).trans List.perm_middle.symm
    · rw [aborted_append, aborted_parting owner parting, haborted,
        List.filterMap_cons]
      cases (t.entry o).abort? <;> rfl

/-- A request for access comes to one new entry at most, under the number that was
next; it holds the request that was begun. -/
theorem acquire_ledger {client text : String} {call : PendingCall}
    {result : Except Rejection Unit}
    (h : (t.acquire client text call id).Yields es (result, t')) :
    ∃ new : Option LedgerEntry, t'.ledger.Perm (t.ledger ++ new.toList) ∧
      begun es = (new.bind LedgerEntry.held?).toList ∧ aborted es = [] ∧
      (starts es).length ≤ 1 ∧
        ∀ e ∈ new, e.token = t.token id := by
  rcases acquire_cases h with ⟨fault, -, -, rfl, rfl⟩ | ⟨name, access, ha, -, htake⟩
  · exact ⟨none, by simp, rfl, rfl, by simp [starts], by simp⟩
  · obtain ⟨watch, es₁, start, es₂, hstart, rfl, hcase⟩ := takeOn_cases htake
    have hspec := Backend.start_spec hstart
    have hroom := room_of_admission ha
    obtain ⟨hstarts, hbegun⟩ := hspec.begun_eq
    have hledger := ledger_started
      (o := .fresh id name access watch call start.request) hroom hspec.sessionless_eq
    have hlength : (starts es₁).length ≤ 1 := hstarts.length_le
    have haborted : aborted es₁ = [] := aborted_starting hspec.isStarting
    -- either the start is under way and the owner stays, or it is undone
    rcases hcase with ⟨-, rfl, rfl⟩ | ⟨hnone, hparting, rfl⟩
    · refine ⟨some (t.entry (.fresh id name access watch call start.request)), ?_,
        ?_, ?_, ?_, ?_⟩
      · rw [hledger]
        exact List.Perm.refl _
      · rw [List.append_nil]
        show begun es₁ = _
        rw [hbegun, Option.bind_some, LedgerEntry.held?, entry, Owner.request?,
          Owner.fresh, Option.bind_some, Option.map_map]
        rfl
      · rwa [List.append_nil]
      · rwa [List.append_nil]
      · rintro e ⟨⟩
        rfl
    · -- the owner is gone at once, and nothing was begun for it
      have hlast :
          (t.started start
              (.fresh id name access watch call start.request)).owners.toList[
            t.owners.size]? = some _ := started_last hroom
      have hterms := terms_started (t := t)
        (.fresh id name access watch call start.request) hspec.sessionless_eq
      have hquiet : aborted es₂ = [] := by
        rw [aborted_parting hlast hparting, entry_of_terms hterms,
          LedgerEntry.abort?, entry, Owner.request?, Owner.fresh, hnone]
        rfl
      have hsilent : starts es₂ = [] := starts_closing (isClosing_parting hparting)
      refine ⟨none, ?_, ?_, ?_, ?_, by simp⟩
      · have hwithout := ledger_without hlast
        rw [hledger, entry_of_terms hterms] at hwithout
        have hperm := List.perm_append_comm.trans hwithout
        rw [List.singleton_append, List.perm_cons] at hperm
        rw [Option.toList_none, List.append_nil]
        exact hperm.symm
      · show begun (es₁ ++ es₂) = _
        rw [begun_append, hbegun, begun_eq_nil hsilent, hnone]
        rfl
      · show aborted (es₁ ++ es₂) = _
        rw [aborted_append, haborted, hquiet, List.append_nil]
      · show (starts (es₁ ++ es₂)).length ≤ 1
        rwa [starts_append, hsilent, List.append_nil]

/-- The attempt to deliver settles the entry of the owner for whom the start has
ended. -/
theorem attempt_ledger {p : Pending} {success delivered : Bool}
    (ho : t.owners.toList[i]? = some o)
    (h : (t.attempt i p success).Yields es (delivered, t')) :
    ∃ rest, t.ledger.Perm (t.entry o :: rest) ∧
      t'.ledger.Perm ((t.entry o).settle :: rest) := by
  obtain ⟨f, hsettled, hf, -⟩ := attempt_settles h
  obtain ⟨rest, hbefore, hafter⟩ := ledger_modifyOwner (f := f) ho
  have hentry : t.entry (f o) = (t.entry o).settle := by
    rw [entry, (hf o).1, (hf o).2]
    rfl
  rw [hentry] at hafter
  refine ⟨rest, hbefore, ?_⟩
  rw [hsettled]
  exact hafter

/-! ### Marked owners -/

theorem orderly_modifyOwner {f : Owner → Owner} (ho : t.owners.toList[i]? = some o)
    (hf : (f o).Orderly) (ht : ∀ o ∈ t.owners.toList, o.Orderly) :
    ∀ o ∈ (t.modifyOwner i f).owners.toList, o.Orderly := by
  obtain ⟨pre, post, hl, -, -, hmodify⟩ := BoundedList.exists_around ho
  intro o' ho'
  rw [toList_owners_modifyOwner, hmodify] at ho'
  rw [hl] at ht
  rcases BoundedList.mem_around.mp ho' with rfl | ho'
  · exact hf
  · exact ht o' (BoundedList.mem_around.mpr (.inr ho'))

theorem Leaving.orderly (h : t.Leaving es t')
    (ht : ∀ o ∈ t.owners.toList, o.Orderly) :
    ∀ o ∈ t'.owners.toList, o.Orderly := by
  induction h with
  | nil => exact ht
  | @narrowed t _ i o a _ owner _ ih =>
    exact ih (orderly_modifyOwner (f := (Owner.narrow · a)) owner
      (ht o (List.mem_of_getElem? owner)) ht)
  | @departed t _ i o _ owner _ ih =>
    refine ih (orderly_modifyOwner owner (fun marked => ?_) ht)
    rw [Owner.request?_depart]
    exact ht o (List.mem_of_getElem? owner) marked
  | scheduled owner settled _ ih =>
    exact ih (orderly_modifyOwner owner (fun _ => settled) ht)
  | ended _ _ _ ih =>
    refine ih fun o ho => ht o ?_
    rw [toList_owners_without] at ho
    exact List.mem_of_mem_eraseIdx ho

theorem attempt_orderly {p : Pending} {success delivered : Bool}
    (ho : t.owners.toList[i]? = some o)
    (h : (t.attempt i p success).Yields es (delivered, t'))
    (ht : ∀ o ∈ t.owners.toList, o.Orderly) :
    ∀ o ∈ t'.owners.toList, o.Orderly := by
  obtain ⟨f, hsettled, hf, -⟩ := attempt_settles h
  rw [hsettled]
  exact orderly_modifyOwner ho (fun _ => (hf o).2) ht

/-- A new owner is not marked, so that the table stays orderly. -/
theorem acquire_orderly {client text : String} {call : PendingCall}
    {result : Except Rejection Unit}
    (h : (t.acquire client text call id).Yields es (result, t'))
    (ht : ∀ o ∈ t.owners.toList, o.Orderly) :
    ∀ o ∈ t'.owners.toList, o.Orderly := by
  rcases acquire_cases h with ⟨fault, -, -, -, rfl⟩ | ⟨name, access, ha, -, htake⟩
  · exact ht
  · obtain ⟨watch, es₁, start, es₂, -, -, hcase⟩ := takeOn_cases htake
    have hstarted :
        ∀ o ∈ (t.started start
          (.fresh id name access watch call start.request)).owners.toList,
        o.Orderly := by
      intro o ho
      rw [started_eq (room_of_admission ha), List.mem_append, List.mem_singleton]
        at ho
      rcases ho with ho | rfl
      · exact ht o ho
      · exact nofun
    rcases hcase with ⟨-, -, rfl⟩ | ⟨-, -, rfl⟩
    · exact hstarted
    · intro o ho
      rw [toList_owners_without] at ho
      exact hstarted o (List.mem_of_mem_eraseIdx ho)

end Transport

end AudioBroker
