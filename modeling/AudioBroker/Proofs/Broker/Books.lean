import AudioBroker.Proofs.Broker.Act
import AudioBroker.Proofs.Transport.Ledger

/-!
# The books of a step

What a step does to the ledger of requests: a report settles one entry, a request
for access comes to one entry at most, and the entries of owners that are torn down
go, with the requests that they hold aborted.

- `ledger`, `requests`: the entries of all owners, and the requests that they hold.
- `Registry.Leaving.ledger`: owners on their way out.
- `Broker.settles?`: the request that a report settles.
- `Broker.Books`, `Act.books`, `Step.books`: the books of every step.
- `Registry.Orderly`, `Run.orderly`: whoever is marked holds no request.
-/

namespace AudioBroker

open Dialogue

/-! ### The ledger of all transports -/

/-- The entries of the owners of transports. -/
def ledger (ts : List Transport) : List LedgerEntry := ts.flatMap Transport.ledger

/-- The requests that the owners of transports hold, with the tokens of these
owners. -/
def requests (ts : List Transport) : List (Token × Request) :=
  (ledger ts).filterMap LedgerEntry.held?

theorem mem_ledger {e : LedgerEntry} {ts : List Transport} :
    e ∈ ledger ts ↔ ∃ t ∈ ts, ∃ o ∈ t.owners.toList, t.entry o = e := by
  simp [ledger, Transport.ledger]

theorem mem_requests {token : Token} {q : Request} {ts : List Transport} :
    (token, q) ∈ requests ts ↔
      ∃ e ∈ ledger ts, e.token = token ∧ e.request = some q := by
  simp only [requests, List.mem_filterMap, LedgerEntry.held?_eq_some]

theorem perm_append_swap {α : Type} (as bs cs : List α) :
    (as ++ bs ++ cs).Perm (as ++ cs ++ bs) := by
  rw [List.append_assoc, List.append_assoc]
  exact List.perm_append_comm.append_left as

/-- The entries of one transport can be counted apart. -/
theorem ledger_middle (pre post : List Transport) (t : Transport) :
    (ledger (pre ++ t :: post)).Perm (t.ledger ++ ledger (pre ++ post)) :=
  List.perm_middle.flatMap_right Transport.ledger

namespace Registry

variable {r r' : Registry} {t t' : Transport} {es : List Exchange}

/-- A change of a transport changes its entries, and the others stay. -/
theorem ledger_replace (hr : r.Distinct) (live : r.get? t.id = some t)
    (hid : t'.id = t.id) :
    ∃ rest, (ledger r.toList).Perm (t.ledger ++ rest) ∧
      (ledger (r.replace t').toList).Perm (t'.ledger ++ rest) := by
  obtain ⟨pre, post, hl, -, -, hreplace⟩ := hr.exists_around live
  refine ⟨ledger (pre ++ post), ?_, ?_⟩
  · rw [hl]
    exact ledger_middle pre post t
  · rw [hreplace t' hid]
    exact ledger_middle pre post t'

/-- A transport takes its entries with it. -/
theorem ledger_erase (hr : r.Distinct) (live : r.get? t.id = some t) :
    (ledger r.toList).Perm (t.ledger ++ ledger (r.erase t.id).toList) := by
  obtain ⟨pre, post, hl, herase, -, -⟩ := hr.exists_around live
  rw [hl, herase]
  exact ledger_middle pre post t

/-- A new transport has no entries; those of the transport that it takes the place
of are gone. -/
theorem ledger_insert? (hr : r.Distinct) (h : r.insert? t = some r')
    (vacant : t.ledger = []) :
    (ledger r.toList).Perm (ledger r'.toList ++ ledger (r.get? t.id).toList) := by
  unfold insert? at h
  cases hget : r.get? t.id with
  | none =>
    rw [hget] at h
    obtain ⟨-, hpush⟩ := BoundedList.push?_eq_some_iff.mp h
    rw [hpush, ledger, ledger, List.flatMap_append, List.flatMap_singleton, vacant]
    simp [ledger]
  | some u =>
    obtain ⟨-, huid⟩ := get?_eq_some hget
    rw [hget] at h
    cases h
    rw [← huid] at hget
    obtain ⟨rest, hbefore, hafter⟩ := ledger_replace hr hget huid.symm
    rw [vacant, List.nil_append] at hafter
    have hgone : ledger (some u).toList = u.ledger := List.append_nil _
    rw [hgone]
    exact hbefore.trans (List.perm_append_comm.trans (hafter.symm.append_right _))

/-- The owners that are gone were those whose requests were aborted, once each. -/
theorem Leaving.ledger (h : r.Leaving es r') (hr : r.Distinct) :
    ∃ gone, (ledger r.toList).Perm (ledger r'.toList ++ gone) ∧
      aborted es = gone.filterMap LedgerEntry.abort? := by
  induction h with
  | aside closing =>
    refine ⟨[], by simp, aborted_plain fun e he => ?_⟩
    rcases closing e he with hquery | ⟨call, reply, hreply⟩
    · exact Call.isPlain_of_isQuery hquery
    · rw [hreply]
      rfl
  | moved live leaving =>
    obtain ⟨gone, hperm, haborted⟩ := leaving.ledger
    obtain ⟨rest, hbefore, hafter⟩ :=
      ledger_replace hr live (Transport.id_eq_of_bare leaving.bare_eq)
    refine ⟨gone, ?_, haborted⟩
    -- one transport stands apart from the rest of the ledger, and only its entries
    -- change
    have hmoved := (hperm.append_right rest).trans (perm_append_swap ..)
    exact hbefore.trans (hmoved.trans (hafter.symm.append_right gone))
  | @seq r r₁ r' es es' first next ih₁ ih₂ =>
    obtain ⟨gone₁, hperm₁, haborted₁⟩ := ih₁ hr
    obtain ⟨gone₂, hperm₂, haborted₂⟩ := ih₂ (first.distinct hr)
    refine ⟨gone₁ ++ gone₂, ?_, ?_⟩
    · have hnext := (hperm₂.append_right gone₁).trans (perm_append_swap ..)
      rw [List.append_assoc] at hnext
      exact hperm₁.trans hnext
    · rw [aborted_append, haborted₁, haborted₂, List.filterMap_append]

end Registry

/-! ### What a report settles -/

namespace Broker

variable {b b' : Broker} {op : Operation} {es : List Exchange} {r : Report}

/-- The request that a report settles: that of the owner who waits for it, in a
transport of the layer that reports. -/
def settles? (b : Broker) (r : Report) : Option (Token × Request) :=
  (b.transports.get? r.token.transport).bind fun t =>
    if t.backend.isA2dp = r.isA2dp then
      (t.awaiting? r.token.owner).bind fun (_, p) => p.request.map fun id =>
        (r.token, ⟨r.isA2dp, id⟩)
    else none

/-- The request that is settled in an operation. -/
def settledBy? (b : Broker) (op : Operation) : Option (Token × Request) :=
  op.report?.bind b.settles?

/-- A report that nobody waits for settles nothing. -/
theorem settles?_eq_none (h : ¬ b.Expects r.isA2dp r.token) :
    b.settles? r = none := by
  rw [settles?, Option.bind_eq_none_iff]
  intro t hget
  by_cases hkind : t.backend.isA2dp = r.isA2dp
  · rw [if_pos hkind]
    cases hwaits : t.awaiting? r.token.owner with
    | none => rfl
    | some ip =>
      refine absurd ⟨t, hget, hkind, ?_⟩ h
      rw [hwaits]
      rfl
  · rw [if_neg hkind]

/-- The request that is settled is the one that the owner holds. -/
theorem settles?_of_awaiting {t : Transport} {i : Nat} {p : Pending}
    (live : b.transports.get? r.token.transport = some t)
    (kind : t.backend.isA2dp = r.isA2dp)
    (waits : t.awaiting? r.token.owner = some (i, p)) :
    ∃ o, t.owners.toList[i]? = some o ∧ b.settles? r = (t.entry o).held? := by
  obtain ⟨o, howner, -, hpending⟩ := Transport.awaiting?_eq_some_iff.mp waits
  obtain ⟨ho, hid⟩ := Transport.owner?_eq_some howner
  obtain ⟨-, htid⟩ := Registry.get?_eq_some live
  refine ⟨o, ho, ?_⟩
  have htoken : t.token o.id = r.token := by rw [Transport.token, htid, hid]
  rw [settles?, live, Option.bind_some, if_pos kind, waits, Option.bind_some,
    LedgerEntry.held?, Transport.entry, Owner.request?, hpending, Option.bind_some,
    Option.map_map, htoken, kind]
  rfl

/-! ### The books of a step -/

/-- What an operation does to the ledger: a report settles one entry, one entry at
most is new, and the requests of entries that are gone are aborted. -/
structure Books (b : Broker) (op : Operation) (lost : List Transport)
    (es : List Exchange) (b' : Broker)
    (kept gone : List LedgerEntry) (new : Option LedgerEntry) : Prop where
  settles : (kept = ledger b.transports.toList ∧ b.settledBy? op = none) ∨
    ∃ e rest, (ledger b.transports.toList).Perm (e :: rest) ∧
      kept = e.settle :: rest ∧ b.settledBy? op = e.held?
  balance :
    (kept ++ new.toList).Perm (ledger b'.transports.toList ++ gone ++ ledger lost)
  begins : begun es = (new.bind LedgerEntry.held?).toList
  starts : (starts es).length ≤ 1
  next : ∀ e ∈ new, e.token.owner = b.nextOwner
  aborts : aborted es = gone.filterMap LedgerEntry.abort?
  gone : ∀ e ∈ gone, e ∈ kept

/-- Nothing is settled, and nothing is begun. -/
theorem books_of_still {lost : List Transport} {gone : List LedgerEntry}
    (settled : b.settledBy? op = none)
    (balance : (ledger b.transports.toList).Perm
      (ledger b'.transports.toList ++ gone ++ ledger lost))
    (starts : starts es = [])
    (aborts : aborted es = gone.filterMap LedgerEntry.abort?) :
    b.Books op lost es b' (ledger b.transports.toList) gone none where
  settles := .inl ⟨rfl, settled⟩
  balance := by rwa [Option.toList_none, List.append_nil]
  begins := begun_eq_nil starts
  starts := by simp [starts]
  next := by simp
  aborts := aborts
  gone e he := balance.mem_iff.mpr
    (List.mem_append_left _ (List.mem_append_right _ he))

/-- The owners of a transport that is withdrawn are all gone. -/
theorem books_of_removed {t t' : Transport} {es' : List Exchange}
    (hd : b.transports.Distinct) (settled : b.settledBy? op = none)
    (live : b.transports.get? t.id = some t) (leaving : t.Leaving es t')
    (vacant : t'.owners.toList = [])
    (closing : es'.map Exchange.call = t'.backend.closeCalls) :
    ∃ gone, b.Books op [] (⟨.unregister t.path, ()⟩ :: (es ++ es'))
      { b with transports := b.transports.erase t.id }
        (ledger b.transports.toList) gone none := by
  obtain ⟨gone, hperm, haborted⟩ := leaving.ledger
  -- it has nobody left, so that all of its entries are among those that are gone
  have hvacant : t'.ledger = [] := by
    rw [Transport.ledger, vacant]
    rfl
  rw [hvacant, List.nil_append] at hperm
  refine ⟨gone, books_of_still settled ?_ ?_ ?_⟩
  · show (ledger b.transports.toList).Perm
      (ledger (b.transports.erase t.id).toList ++ gone ++ [])
    rw [List.append_nil]
    exact (Registry.ledger_erase hd live).trans
      (List.perm_append_comm.trans (hperm.append_left _))
  · show starts (es ++ es') = []
    rw [starts_append, starts_closing leaving.isClosing,
      starts_closing (Backend.isClosing_of_closeCalls closing), List.append_nil]
  · show aborted (es ++ es') = _
    rw [aborted_append, haborted, aborted_closeCalls closing, List.append_nil]

/-- A request for access that is heard by a transport; if it is turned down it may
be answered then. -/
theorem books_of_acquired {t t' : Transport} {client text : String}
    {call : PendingCall} {result : Except Rejection Unit} {es' : List Exchange}
    (hd : b.transports.Distinct) (settled : b.settledBy? op = none)
    (live : b.transports.get? t.id = some t)
    (went : (t.acquire client text call b.nextOwner).Yields es (result, t'))
    (answer : ∀ e ∈ es', ∃ call reply, e.call = .reply call reply) :
    ∃ new, b.Books op [] (es ++ es') { b.store t' with nextOwner := b.nextOwner.next }
      (ledger b.transports.toList) [] new := by
  obtain ⟨new, hperm, hbegun, haborted, hstarts, hnext⟩ :=
    Transport.acquire_ledger went
  obtain ⟨rest, hbefore, hafter⟩ :=
    Registry.ledger_replace hd live (Transport.acquire_course went).id_eq
  -- an answer begins and aborts nothing
  have hplain : ∀ e ∈ es', e.call.isPlain = true := by
    intro e he
    obtain ⟨call, reply, hcall⟩ := answer e he
    rw [hcall]
    rfl
  have hsilent := starts_plain hplain
  have hbalance : (ledger b.transports.toList ++ new.toList).Perm
      (ledger (b.transports.replace t').toList ++ [] ++ []) := by
    rw [List.append_nil, List.append_nil]
    have hmoved := (hbefore.append_right new.toList).trans (perm_append_swap ..)
    exact hmoved.trans ((hperm.symm.append_right rest).trans hafter.symm)
  exact ⟨new, {
    settles := .inl ⟨rfl, settled⟩
    balance := hbalance
    begins := by rw [begun_append, hbegun, begun_eq_nil hsilent, List.append_nil]
    starts := by rwa [starts_append, hsilent, List.append_nil]
    next := fun e he => by
      rw [hnext e he]
      rfl
    aborts := by
      rw [aborted_append, haborted, aborted_plain hplain]
      rfl
    gone := by simp }⟩

/-- A report for an owner that waits settles its entry, and owners may be on their
way out then. -/
theorem books_of_reported {t t₁ : Transport} {i : Nat} {p : Pending}
    {delivered : Bool} {es₁ es₂ : List Exchange} (hd : b.transports.Distinct)
    (report : op.report? = some r)
    (live : b.transports.get? r.token.transport = some t)
    (kind : t.backend.isA2dp = r.isA2dp)
    (waits : t.awaiting? r.token.owner = some (i, p))
    (attempt : (t.attempt i p r.success).Yields es₁ (delivered, t₁))
    (leaving : (b.transports.replace t₁).Leaving es₂ b'.transports) :
    ∃ kept gone, b.Books op [] (es₁ ++ es₂) b' kept gone none := by
  obtain ⟨o, ho, hsettles⟩ := settles?_of_awaiting live kind waits
  obtain ⟨rest, hbefore, hafter⟩ := Transport.attempt_ledger ho attempt
  obtain ⟨f, hsettled, -, hplain⟩ := Transport.attempt_settles attempt
  have hid : t₁.id = t.id := by
    rw [hsettled]
    rfl
  obtain ⟨others, hall, hreplaced⟩ :=
    Registry.ledger_replace hd (Registry.get?_id live) hid
  obtain ⟨gone, hperm, haborted⟩ := leaving.ledger (hd.replace t₁)
  -- from the entry that is settled to what is left of the ledger
  have hkept :
      ((t.entry o).settle :: (rest ++ others)).Perm
        (ledger b'.transports.toList ++ gone) :=
    ((hafter.append_right others).symm.trans hreplaced.symm).trans hperm
  have hsilent : starts (es₁ ++ es₂) = [] := by
    rw [starts_append, starts_plain hplain, starts_closing leaving.isClosing,
      List.append_nil]
  -- whose entry is settled can be told from the state before the report
  have hnow : b.settledBy? op = (t.entry o).held? := by
    rw [settledBy?, report, Option.bind_some, hsettles]
  exact ⟨(t.entry o).settle :: (rest ++ others), gone, {
    settles := .inr ⟨t.entry o, rest ++ others,
      hall.trans (hbefore.append_right others), rfl, hnow⟩
    balance := by
      show ((t.entry o).settle :: (rest ++ others) ++ []).Perm
        (ledger b'.transports.toList ++ gone ++ [])
      rwa [List.append_nil, List.append_nil]
    begins := begun_eq_nil hsilent
    starts := by simp [hsilent]
    next := by simp
    aborts := by rw [aborted_append, aborted_plain hplain, haborted, List.nil_append]
    gone := fun e he => hkept.mem_iff.mpr (List.mem_append_right _ he) }⟩

/-- A delay changes no entry. -/
theorem books_of_delayed {id : TransportId} {t t' : Transport} {delay : UInt16}
    (hd : b.transports.Distinct) (settled : b.settledBy? op = none)
    (live : b.transports.get? id = some t)
    (went : (t.reportDelay delay).Yields es t') :
    b.Books op [] es (b.store t') (ledger b.transports.toList) [] none := by
  have hsame : t'.ledger = t.ledger := by
    rw [(Transport.reportDelay_announced went).eq]
    rfl
  have hplain := Transport.reportDelay_plain went
  obtain ⟨rest, hbefore, hafter⟩ := Registry.ledger_replace hd (Registry.get?_id live)
    (Transport.reportDelay_course went).id_eq
  rw [hsame] at hafter
  refine books_of_still settled ?_ (starts_plain hplain) (aborted_plain hplain)
  show (ledger b.transports.toList).Perm
    (ledger (b.transports.replace t').toList ++ [] ++ [])
  rw [List.append_nil, List.append_nil]
  exact hbefore.trans hafter.symm

theorem Act.books {lost : List Transport} (hd : b.transports.Distinct)
    (act : b.Act op lost es b') :
    ∃ kept gone new, b.Books op lost es b' kept gone new := by
  -- only a report settles an entry
  have hquiet : op.report? = none → b.settledBy? op = none := by
    intro hnone
    rw [settledBy?, hnone]
    rfl
  cases act with
  | refused quiet path =>
    exact ⟨_, [], none, books_of_still (hquiet quiet.1) (by simp [ledger]) rfl rfl⟩
  | @created endpoint device configuration t transports quiet created insert =>
    have hvacant : t.ledger = [] := by
      rw [Transport.ledger, Transport.owners_of_create created]
      rfl
    refine ⟨_, [], none, books_of_still (hquiet quiet.1) ?_ rfl rfl⟩
    rw [List.append_nil]
    exact Registry.ledger_insert? hd insert hvacant
  | removed quiet live leaving vacant closing =>
    obtain ⟨gone, books⟩ := books_of_removed hd
      (hquiet quiet.1) live leaving vacant closing
    exact ⟨_, gone, none, books⟩
  | acquired quiet live went answer =>
    obtain ⟨new, books⟩ := books_of_acquired hd (hquiet quiet.1) live went answer
    exact ⟨_, [], new, books⟩
  | left quiet leaving =>
    obtain ⟨gone, hperm, haborted⟩ := leaving.ledger hd
    refine ⟨_, gone, none, books_of_still (hquiet quiet.1) ?_
      (starts_closing leaving.isClosing) haborted⟩
    show (ledger b.transports.toList).Perm (_ ++ [])
    rwa [List.append_nil]
  | @stale r report nobody =>
    have hnone : b.settledBy? op = none := by
      rw [settledBy?, report, Option.bind_some, settles?_eq_none nobody]
    exact ⟨_, [], none, books_of_still hnone (by simp [ledger]) rfl rfl⟩
  | reported report live kind waits attempt leaving =>
    obtain ⟨kept, gone, books⟩ :=
      books_of_reported hd report live kind waits attempt leaving
    exact ⟨kept, gone, none, books⟩
  | delayed report live went =>
    have hnone := hquiet (Operation.report?_eq_none report)
    exact ⟨_, [], none, books_of_delayed hd hnone live went⟩
  | unknown report gone =>
    have hnone := hquiet (Operation.report?_eq_none report)
    exact ⟨_, [], none, books_of_still hnone (by simp [ledger]) rfl rfl⟩

end Broker

/-- The books of every step, where no two live transports have one number. -/
theorem Step.books (s : Step) (hd : s.before.transports.Distinct) :
    ∃ kept gone new,
      s.before.Books s.op (displaced s.incidents) s.exchanges s.after kept gone new :=
  (s.act hd).books hd

/-! ### Marked owners -/

namespace Registry

variable {r r' : Registry} {t : Transport} {es : List Exchange}

/-- Whoever is marked holds no request. -/
def Orderly (r : Registry) : Prop := ∀ t ∈ r.toList, ∀ o ∈ t.owners.toList, o.Orderly

theorem Orderly.replace (h : r.Orderly) (ht : ∀ o ∈ t.owners.toList, o.Orderly) :
    (r.replace t).Orderly := by
  intro u hu
  rcases mem_replace hu with rfl | hu
  · exact ht
  · exact h u hu

theorem Orderly.of_get? {id : TransportId} (h : r.Orderly)
    (live : r.get? id = some t) :
    ∀ o ∈ t.owners.toList, o.Orderly :=
  h t (get?_eq_some live).1

theorem Leaving.orderly (h : r.Leaving es r') (hr : r.Orderly) : r'.Orderly := by
  induction h with
  | aside _ => exact hr
  | moved live leaving => exact hr.replace (leaving.orderly (hr.of_get? live))
  | seq _ _ ih₁ ih₂ => exact ih₂ (ih₁ hr)

end Registry

theorem Broker.Act.orderly {b b' : Broker} {op : Operation} {lost : List Transport}
    {es : List Exchange} (act : b.Act op lost es b') (h : b.transports.Orderly) :
    b'.transports.Orderly := by
  cases act with
  | refused _ _ | stale _ _ | unknown _ _ => exact h
  | created quiet created insert =>
    intro u hu
    rcases Registry.mem_insert? insert hu with rfl | hu
    · rw [Transport.owners_of_create created]
      exact fun o ho => absurd ho List.not_mem_nil
    · exact h u hu
  | removed _ _ _ _ _ => exact fun u hu => h u (List.mem_filter.mp hu).1
  | acquired _ live went _ =>
    exact h.replace (Transport.acquire_orderly went (h.of_get? live))
  | left _ leaving => exact leaving.orderly h
  | reported _ live _ waits attempt leaving =>
    obtain ⟨o, howner, -, -⟩ := Transport.awaiting?_eq_some_iff.mp waits
    have hattempt := Transport.attempt_orderly
      (Transport.owner?_eq_some howner).1 attempt (h.of_get? live)
    exact leaving.orderly (h.replace hattempt)
  | @delayed id delay t t' es _ live went =>
    have howners : t'.owners = t.owners := by
      rw [(Transport.reportDelay_announced went).eq]
    refine h.replace ?_
    rw [howners]
    exact h.of_get? live

/-- In every run, whoever is marked holds no request. -/
theorem Run.orderly {options : Options} {steps : List Step} {b : Broker}
    (run : Run (.empty options) steps b) :
    b.transports.Orderly := by
  induction run with
  | nil => exact fun t ht => absurd ht List.not_mem_nil
  | @snoc steps s run ih => exact (s.act run.distinct).orderly ih

end AudioBroker
