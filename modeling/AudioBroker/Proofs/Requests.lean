import AudioBroker.Proofs.Broker.Books
import AudioBroker.Proofs.Tokens

/-!
# Every request ends once

A request that was begun is held by its owner until a report settles it, or until
the owner is torn down, which aborts it. In every run these add up, and where no two
requests have one number each request is in one of these states.

- `settled`: the requests that were settled in the steps of a run.
- `Run.begun_perm`: what was begun is held, settled, aborted, or lost with a
  transport.
- `Run.begun_of_held`: what is held, settled or lost was begun for the owner in
  question.
- `Run.request_of_begun`: until a counter starts over, the owner for whom a request
  was begun holds it until it is settled.
- `Run.request_state`, `Run.aborted_held`, `Run.gone_of_aborted`: in which state a
  request is, when it is aborted, and that its owner is gone then.
- `Run.requests_end_once`: what it comes to in every run.
-/

namespace AudioBroker

open Dialogue

/-- The request that is settled in a step. -/
def Step.settled? (s : Step) : Option (Token × Request) := s.before.settledBy? s.op

/-- The requests that were settled. -/
def settled (steps : List Step) : List (Token × Request) :=
  steps.filterMap Step.settled?

@[simp] theorem settled_append (steps rest : List Step) :
    settled (steps ++ rest) = settled steps ++ settled rest :=
  List.filterMap_append

theorem settled_singleton (s : Step) : settled [s] = s.settled?.toList := by
  rw [settled, List.filterMap_cons]
  cases s.settled? <;> rfl

@[simp] theorem requests_append (ts us : List Transport) :
    requests (ts ++ us) = requests ts ++ requests us := by
  rw [requests, ledger, List.flatMap_append, List.filterMap_append]
  rfl

/-! ### The requests add up -/

namespace Broker

variable {b b' : Broker} {op : Operation} {lost : List Transport} {es : List Exchange}
  {kept gone : List LedgerEntry} {new : Option LedgerEntry} {e : LedgerEntry}

/-- What is begun is held afterwards, unless it was settled, aborted or lost; and so
is what was held. -/
theorem Books.perm (books : b.Books op lost es b' kept gone new) :
    ((requests b.transports.toList).map Prod.snd ++ (begun es).map Prod.snd).Perm
      ((requests b'.transports.toList).map Prod.snd ++
        ((b.settledBy? op).toList.map Prod.snd ++
        ((aborted es).map Prod.snd ++ (requests lost).map Prod.snd))) := by
  -- what was held is kept or is settled by this operation
  have hsettles : ((ledger b.transports.toList).filterMap LedgerEntry.request).Perm
      (kept.filterMap LedgerEntry.request ++
        (b.settledBy? op).toList.map Prod.snd) := by
    rcases books.settles with ⟨rfl, hnone⟩ | ⟨e, rest, hperm, rfl, hsettled⟩
    · rw [hnone, Option.toList_none, List.map_nil, List.append_nil]
    · have hentries := hperm.filterMap LedgerEntry.request
      rw [hsettled, List.filterMap_cons]
      rw [List.filterMap_cons] at hentries
      cases hrequest : e.request with
      | none =>
        rw [hrequest] at hentries
        simpa [LedgerEntry.settle, LedgerEntry.held?, hrequest] using hentries
      | some q =>
        rw [hrequest] at hentries
        have hlast := hentries.trans (List.perm_append_singleton q _).symm
        simpa [LedgerEntry.settle, LedgerEntry.held?, hrequest] using hlast
  -- what is begun is the request of the new entry
  have hbegun :
      (begun es).map Prod.snd = new.toList.filterMap LedgerEntry.request := by
    rw [books.begins, ← LedgerEntry.map_snd_held]
    cases new with
    | none => rfl
    | some e => cases hheld : e.held? <;> simp [hheld]
  have hbalance := books.balance.filterMap LedgerEntry.request
  rw [requests, requests, requests, LedgerEntry.map_snd_held,
    LedgerEntry.map_snd_held, LedgerEntry.map_snd_held, hbegun, books.aborts,
    LedgerEntry.map_snd_abort, List.perm_iff_count]
  intro q
  have hkept := hsettles.count_eq q
  have hmoved := hbalance.count_eq q
  simp only [List.filterMap_append, List.count_append] at hkept hmoved ⊢
  omega

/-- An entry was there before, or is the one that was settled, or is new. -/
theorem Books.origin (books : b.Books op lost es b' kept gone new)
    (he : e ∈ ledger b'.transports.toList ∨ e ∈ ledger lost) :
    (∃ e₀ ∈ ledger b.transports.toList,
      e = e₀ ∨ e = e₀.settle ∧ b.settledBy? op = e₀.held?) ∨ new = some e := by
  have hmem : e ∈ kept ++ new.toList := by
    rw [books.balance.mem_iff, List.mem_append, List.mem_append]
    exact he.imp .inl id
  rcases List.mem_append.mp hmem with hkept | hnew
  · refine .inl ?_
    rcases books.settles with ⟨rfl, -⟩ | ⟨e₀, rest, hperm, rfl, hsettled⟩
    · exact ⟨e, hkept, .inl rfl⟩
    · rcases List.mem_cons.mp hkept with rfl | hrest
      · exact ⟨e₀, hperm.mem_iff.mpr List.mem_cons_self, .inr ⟨rfl, hsettled⟩⟩
      · exact ⟨e, hperm.mem_iff.mpr (List.mem_cons_of_mem _ hrest), .inl rfl⟩
  · exact .inr (Option.mem_toList.mp hnew)

/-- A request that is held afterwards was held by the same owner before, or is
begun. -/
theorem Books.held_origin {token : Token} {q : Request}
    (books : b.Books op lost es b' kept gone new)
    (held : (token, q) ∈ requests b'.transports.toList ∨ (token, q) ∈ requests lost) :
    (token, q) ∈ requests b.transports.toList ∨ (token, q) ∈ begun es := by
  have hentry : ∃ e,
      (e ∈ ledger b'.transports.toList ∨ e ∈ ledger lost) ∧ e.token = token ∧
      e.request = some q := by
    rcases held with held | held
    · obtain ⟨e, he, h⟩ := mem_requests.mp held
      exact ⟨e, .inl he, h⟩
    · obtain ⟨e, he, h⟩ := mem_requests.mp held
      exact ⟨e, .inr he, h⟩
  obtain ⟨e, he, htoken, hrequest⟩ := hentry
  rcases books.origin he with ⟨e₀, he₀, rfl | ⟨rfl, -⟩⟩ | rfl
  · exact .inl (mem_requests.mpr ⟨e, he₀, htoken, hrequest⟩)
  · cases hrequest
  · refine .inr ?_
    rw [books.begins, Option.mem_toList]
    exact LedgerEntry.held?_eq_some.mpr ⟨htoken, hrequest⟩

/-- What is settled was held. -/
theorem Books.settled_held (books : b.Books op lost es b' kept gone new)
    {p : Token × Request} (hp : b.settledBy? op = some p) :
    p ∈ requests b.transports.toList := by
  rcases books.settles with ⟨-, hnone⟩ | ⟨e, rest, hperm, -, hsettled⟩
  · rw [hnone] at hp
    cases hp
  · exact List.mem_filterMap.mpr
      ⟨e, hperm.mem_iff.mpr List.mem_cons_self, hsettled.symm.trans hp⟩

/-- What is aborted was held, in a transport of the device. -/
theorem Books.aborted_held (books : b.Books op lost es b' kept gone new)
    {device : Device} {q : Request} (h : (device, q) ∈ aborted es) :
    ∃ e ∈ ledger b.transports.toList, e.device = device ∧ e.request = some q := by
  rw [books.aborts] at h
  obtain ⟨e, he, habort⟩ := List.mem_filterMap.mp h
  obtain ⟨rfl, hq⟩ := LedgerEntry.abort?_eq_some.mp habort
  have hkept := books.gone e he
  rcases books.settles with ⟨rfl, -⟩ | ⟨e₀, rest, hperm, rfl, -⟩
  · exact ⟨e, hkept, rfl, hq⟩
  · rcases List.mem_cons.mp hkept with rfl | hrest
    · cases hq
    · exact ⟨e, hperm.mem_iff.mpr (List.mem_cons_of_mem _ hrest), rfl, hq⟩

end Broker

section Runs

variable {options : Options} {steps : List Step} {b : Broker} {token : Token}
  {q : Request}

/-- In every run, what was begun is held by live owners, settled, aborted, or lost
with a transport. -/
theorem Run.begun_perm (run : Run (.empty options) steps b) :
    ((begun (exchanges steps)).map Prod.snd).Perm
      ((requests b.transports.toList).map Prod.snd ++ ((settled steps).map Prod.snd ++
        ((aborted (exchanges steps)).map Prod.snd ++
          (requests (displaced (incidents steps))).map Prod.snd))) := by
  induction run with
  | nil => exact List.Perm.refl []
  | @snoc steps s run ih =>
    obtain ⟨kept, gone, new, books⟩ := s.books run.distinct
    rw [List.perm_iff_count]
    intro q
    have hinit := ih.count_eq q
    have hlast := books.perm.count_eq q
    simp only [exchanges_append, exchanges_singleton, incidents_append,
      incidents_singleton, begun_append, aborted_append, settled_append,
      settled_singleton, displaced_append, requests_append, List.map_append,
      List.count_append, Step.settled?] at hinit hlast ⊢
    omega

/-- What is held, settled or lost was begun for the same owner. -/
theorem Run.begun_of_held (run : Run (.empty options) steps b)
    (held : (token, q) ∈ requests b.transports.toList ∨ (token, q) ∈ settled steps ∨
      (token, q) ∈ requests (displaced (incidents steps))) :
    (token, q) ∈ begun (exchanges steps) := by
  induction run with
  | nil =>
    rcases held with held | held | held <;> cases held
  | @snoc steps s run ih =>
    obtain ⟨kept, gone, new, books⟩ := s.books run.distinct
    rw [exchanges_append, exchanges_singleton, begun_append, List.mem_append]
    rw [settled_append, settled_singleton, incidents_append, incidents_singleton,
      displaced_append, requests_append, List.mem_append, List.mem_append,
      Option.mem_toList] at held
    rcases held with held | (held | hlast) | held | hlast
    · exact (books.held_origin (.inl held)).imp (fun h => ih (.inl h)) id
    · exact .inl (ih (.inr (.inl held)))
    · exact .inl (ih (.inl (books.settled_held hlast)))
    · exact .inl (ih (.inr (.inr held)))
    · exact (books.held_origin (.inr hlast)).imp (fun h => ih (.inl h)) id

/-- A start is asked for with the token of its owner. -/
theorem Call.token?_of_started? {c : Call} (h : c.started? = some token) :
    c.token? = some token := by
  cases c with
  | startStream _ _ _ | startVoice _ _ => exact h
  | _ => cases h

/-- The owner that a request was begun for has an old number. -/
theorem Run.begun_old (run : Run (.empty options) steps b)
    (unwrapped : Unwrapped steps) (h : (token, q) ∈ begun (exchanges steps)) :
    token.owner.raw < b.nextOwner.raw := by
  obtain ⟨e, he, hbegun⟩ := List.mem_filterMap.mp h
  exact run.token_old unwrapped e he
    (Call.token?_of_started? (Exchange.started?_of_begun? hbegun))

/-- Every entry of the ledger belongs to a number that was given out. -/
theorem Run.entry_old (run : Run (.empty options) steps b)
    (unwrapped : Unwrapped steps) {e : LedgerEntry}
    (he : e ∈ ledger b.transports.toList) :
    e.token.owner.raw < b.nextOwner.raw := by
  obtain ⟨t, ht, o, ho, rfl⟩ := mem_ledger.mp he
  exact (run.identified unwrapped).lt o.id
    (Registry.mem_ownerIds.mpr ⟨t, ht, o, ho, rfl⟩)

/-- Until a counter starts over, the owner for whom a request was begun holds it
until it is settled. -/
theorem Run.request_of_begun (run : Run (.empty options) steps b)
    (unwrapped : Unwrapped steps) :
    ∀ e ∈ ledger b.transports.toList, ∀ q, (e.token, q) ∈ begun (exchanges steps) →
      e.request = some q ∨ (e.token, q) ∈ settled steps := by
  induction run with
  | nil => exact fun e he => absurd he List.not_mem_nil
  | @snoc steps s run ih =>
    obtain ⟨hinit, -, -⟩ := unwrapped.around
    obtain ⟨kept, gone, new, books⟩ := s.books run.distinct
    intro e he q hbegun
    rw [exchanges_append, exchanges_singleton, begun_append, List.mem_append]
      at hbegun
    rw [settled_append, settled_singleton, List.mem_append, Option.mem_toList]
    rcases books.origin (.inl he) with ⟨e₀, he₀, hcase⟩ | rfl
    · -- nothing is begun for an owner that was there before
      have htoken : e.token = e₀.token := by
        rcases hcase with rfl | ⟨rfl, -⟩ <;> rfl
      have hbefore : (e₀.token, q) ∈ begun (exchanges steps) := by
        rw [← htoken]
        refine hbegun.resolve_right fun hnew => ?_
        rw [books.begins, Option.mem_toList] at hnew
        obtain ⟨e₁, rfl, hheld⟩ := Option.bind_eq_some_iff.mp hnew
        have hold := run.entry_old hinit he₀
        rw [← htoken, ← (LedgerEntry.held?_eq_some.mp hheld).1, books.next e₁ rfl]
          at hold
        exact absurd hold (UInt32.lt_irrefl _)
      -- it held the request until now: either it still does, or this step has
      -- settled it
      rcases ih hinit e₀ he₀ q hbefore with hrequest | hsettled
      · rcases hcase with rfl | ⟨rfl, hnow⟩
        · exact .inl hrequest
        · refine .inr (.inr ?_)
          exact hnow.trans (LedgerEntry.held?_eq_some.mpr ⟨htoken.symm, hrequest⟩)
      · rw [htoken]
        exact .inr (.inl hsettled)
    · rcases hbegun with hold | hnew
      · -- nothing was begun before for an owner that is new
        have hlt := run.begun_old hinit hold
        rw [books.next e rfl] at hlt
        exact absurd hlt (UInt32.lt_irrefl _)
      · rw [books.begins, Option.mem_toList] at hnew
        exact .inl (LedgerEntry.held?_eq_some.mp hnew).2

/-- Until a counter starts over, an owner that holds a request is found by its
token, and a report of its layer is heard for it. -/
theorem Run.held_expects (run : Run (.empty options) steps b)
    (unwrapped : Unwrapped steps)
    (held : (token, q) ∈ requests b.transports.toList) :
    (∃ o, b.owner? token = some o ∧ o.request? = some q.id) ∧
      b.Expects q.isA2dp token := by
  obtain ⟨e, he, rfl, hrequest⟩ := mem_requests.mp held
  obtain ⟨t, ht, o, ho, rfl⟩ := mem_ledger.mp he
  obtain ⟨id, hid, rfl⟩ := Option.map_eq_some_iff.mp hrequest
  have hfound := Broker.owner?_of_mem run.distinct (run.numbered unwrapped) ht ho
  refine ⟨⟨o, hfound, hid⟩, t, run.distinct.get?_of_mem ht, rfl, ?_⟩
  -- the owner that the token finds is the one that holds the request, and it is not
  -- marked
  obtain ⟨p, hpending, -⟩ := Option.bind_eq_some_iff.mp hid
  have hunmarked : o.scheduled = false := by
    rw [Bool.eq_false_iff]
    intro hmarked
    rw [run.orderly t ht o ho hmarked] at hid
    cases hid
  rw [Broker.owner?, Transport.token, run.distinct.get?_of_mem ht, Option.bind_some]
    at hfound
  obtain ⟨⟨i, o'⟩, howner, rfl⟩ := Option.map_eq_some_iff.mp hfound
  show (t.awaiting? o'.id).isSome = true
  rw [Transport.awaiting?_eq_some_iff.mpr ⟨o', howner, hunmarked, hpending⟩]
  rfl

/-- Until a counter starts over, a start is asked for at most once for every owner. -/
theorem Run.starts_nodup (run : Run (.empty options) steps b)
    (unwrapped : Unwrapped steps) :
    (starts (exchanges steps)).Nodup := by
  induction run with
  | nil => exact List.nodup_nil
  | @snoc steps s run ih =>
    obtain ⟨hinit, hs, -⟩ := unwrapped.around
    obtain ⟨kept, gone, new, books⟩ := s.books run.distinct
    rw [exchanges_append, exchanges_singleton, starts_append, List.nodup_append]
    refine ⟨ih hinit, ?_, ?_⟩
    · -- the step asks for one start at most
      have hlength := books.starts
      generalize starts s.exchanges = tokens at hlength
      rcases tokens with _ | ⟨token, _ | ⟨token', rest⟩⟩
      · exact List.nodup_nil
      · exact List.nodup_singleton token
      · simp at hlength
    · -- and that under the next number, which no earlier start had
      rintro token hold token' hnew rfl
      obtain ⟨e, he, hstarted⟩ := List.mem_filterMap.mp hold
      obtain ⟨e', he', hstarted'⟩ := List.mem_filterMap.mp hnew
      have hlt := run.token_old hinit e he (Call.token?_of_started? hstarted)
      rw [(Step.token_next hs he' (Call.token?_of_started? hstarted')).1] at hlt
      exact UInt32.lt_irrefl _ hlt

/-- Where a second component stands in one pair only, it is counted as this pair
is. -/
theorem count_map_snd {α β : Type} [DecidableEq α] [DecidableEq β]
    {l : List (α × β)} {a : α} {b : β} (h : ∀ a', (a', b) ∈ l → a' = a) :
    (l.map Prod.snd).count b = l.count (a, b) := by
  induction l with
  | nil => rfl
  | cons p l ih =>
    obtain ⟨a', b'⟩ := p
    have hrest := ih fun a₁ ha₁ => h a₁ (List.mem_cons_of_mem _ ha₁)
    rw [List.map_cons, List.count_cons, List.count_cons, hrest]
    by_cases hb : b' = b
    · subst hb
      obtain rfl := h a' List.mem_cons_self
      simp
    · simp [hb]

/-- Where no two requests have one number, a request that was begun is held,
settled, aborted, or lost with a transport, and this once. -/
theorem Run.request_state (run : Run (.empty options) steps b)
    (distinct : ((begun (exchanges steps)).map Prod.snd).Nodup)
    (hbegun : (token, q) ∈ begun (exchanges steps)) :
    (requests b.transports.toList).count (token, q) +
      (settled steps).count (token, q) +
      ((aborted (exchanges steps)).map Prod.snd).count q +
        (requests (displaced (incidents steps))).count (token, q) = 1 := by
  have hone : ((begun (exchanges steps)).map Prod.snd).count q = 1 :=
    List.count_eq_one_of_mem distinct (List.mem_map_of_mem hbegun)
  -- no other owner has the number of the request
  have honly : ∀ token', (token', q) ∈ begun (exchanges steps) → token' = token :=
      fun token' h =>
    congrArg Prod.fst (List.inj_on_of_nodup_map distinct h hbegun rfl)
  rw [run.begun_perm.count_eq, List.count_append, List.count_append,
    List.count_append,
    count_map_snd fun k hk => honly k (run.begun_of_held (.inl hk)),
    count_map_snd fun k hk => honly k (run.begun_of_held (.inr (.inl hk))),
    count_map_snd fun k hk => honly k (run.begun_of_held (.inr (.inr hk)))] at hone
  omega

/-- What is aborted was begun, and is held when it is aborted, in a transport whose
backend aborts it on the device of the transport. -/
theorem Run.aborted_held {s : Step} {e : Exchange} {device : Device}
    (run : Run (.empty options) steps b) (hs : s ∈ steps) (he : e ∈ s.exchanges)
    (habort : e.call.aborted? = some (device, q)) :
    ∃ token t o, (token, q) ∈ begun (exchanges steps) ∧
      s.before.transports.get? token.transport = some t ∧ o ∈ t.owners.toList ∧
      t.token o.id = token ∧
        o.request? = some q.id ∧ e.call = t.backend.abortCall t.device q.id := by
  obtain ⟨pre, post, rfl⟩ := List.append_of_mem hs
  obtain ⟨hbefore, -⟩ := run.around
  obtain ⟨kept, gone, new, books⟩ := s.books hbefore.distinct
  obtain ⟨entry, hentry, hdevice, hrequest⟩ :=
    books.aborted_held (List.mem_filterMap.mpr ⟨e, he, habort⟩)
  have hbegun := hbefore.begun_of_held
    (.inl (mem_requests.mpr ⟨entry, hentry, rfl, hrequest⟩))
  obtain ⟨t, ht, o, ho, rfl⟩ := mem_ledger.mp hentry
  obtain ⟨id, hid, rfl⟩ := Option.map_eq_some_iff.mp hrequest
  refine ⟨t.token o.id, t, o, ?_, hbefore.distinct.get?_of_mem ht, ho, rfl, hid, ?_⟩
  · rw [exchanges_append, begun_append]
    exact List.mem_append_left _ hbegun
  · rw [show t.device = device from hdevice]
    exact Call.eq_abortCall habort rfl

/-- The owner of a request that was aborted is gone. -/
theorem Run.gone_of_aborted (run : Run (.empty options) steps b)
    (distinct : ((begun (exchanges steps)).map Prod.snd).Nodup)
    (unwrapped : Unwrapped steps) (hbegun : (token, q) ∈ begun (exchanges steps))
    (habort : q ∈ (aborted (exchanges steps)).map Prod.snd) :
    b.owner? token = none := by
  have hone := run.request_state distinct hbegun
  have haborted := List.count_pos_iff.mpr habort
  rw [Option.eq_none_iff_forall_ne_some]
  intro o howner
  obtain ⟨t, ht, ho, htoken⟩ := Broker.owner?_eq_some howner
  have hentry : t.entry o ∈ ledger b.transports.toList :=
    mem_ledger.mpr ⟨t, ht, o, ho, rfl⟩
  rw [← htoken] at hbegun hone
  -- a live owner would hold the request, or it would have been settled
  rcases run.request_of_begun unwrapped (t.entry o) hentry q hbegun
    with hrequest | hsettled
  · have hheld : 0 < (requests b.transports.toList).count (t.token o.id, q) :=
      List.count_pos_iff.mpr (mem_requests.mpr ⟨t.entry o, hentry, rfl, hrequest⟩)
    omega
  · have hdone : 0 < (settled steps).count (t.token o.id, q) :=
      List.count_pos_iff.mpr hsettled
    omega

/-- In every run in which no two requests have one number, a request that was begun
is in one of these states: its owner holds it; or a report has settled it; or it was
aborted, once; only a transport whose number was given out again, once the counter
had started over, would take a request with it. What is aborted was begun, and is
held when it is aborted, in a transport whose backend aborts it on the device of the
transport. A step asks for one start at most. And until a counter starts over, the
owner that holds a request is found by its token, and a report of its layer is heard
for it; the owner of a request that was aborted is gone; and for every owner a start
is asked for once at most. -/
theorem Run.requests_end_once (run : Run (.empty options) steps b)
    (distinct : ((begun (exchanges steps)).map Prod.snd).Nodup) :
    (∀ token q, (token, q) ∈ begun (exchanges steps) →
        (requests b.transports.toList).count (token, q) +
          (settled steps).count (token, q) +
          ((aborted (exchanges steps)).map Prod.snd).count q +
            (requests (displaced (incidents steps))).count (token, q) = 1) ∧
      (∀ s ∈ steps, (starts s.exchanges).length ≤ 1 ∧ ∀ e ∈ s.exchanges, ∀ device q,
        e.call.aborted? = some (device, q) →
          ∃ token t o, (token, q) ∈ begun (exchanges steps) ∧
          s.before.transports.get? token.transport = some t ∧ o ∈ t.owners.toList ∧
            t.token o.id = token ∧ o.request? = some q.id ∧
            e.call = t.backend.abortCall t.device q.id) ∧
      (Unwrapped steps → displaced (incidents steps) = [] ∧
        (∀ token q, (token, q) ∈ requests b.transports.toList →
          (∃ o, b.owner? token = some o ∧ o.request? = some q.id) ∧
            b.Expects q.isA2dp token) ∧
        (∀ token q, (token, q) ∈ begun (exchanges steps) →
          q ∈ (aborted (exchanges steps)).map Prod.snd → b.owner? token = none) ∧
        (starts (exchanges steps)).Nodup) := by
  refine ⟨fun token q hbegun => run.request_state distinct hbegun,
    fun s hs => ⟨?_, ?_⟩,
    fun unwrapped => ⟨run.displaced_eq_nil unwrapped, ?_, ?_,
      run.starts_nodup unwrapped⟩⟩
  · obtain ⟨pre, post, rfl⟩ := List.append_of_mem hs
    obtain ⟨kept, gone, new, books⟩ := s.books run.around.1.distinct
    exact books.starts
  · exact fun e he device q habort => run.aborted_held hs he habort
  · exact fun token q held => run.held_expects unwrapped held
  · exact fun token q hbegun habort =>
      run.gone_of_aborted distinct unwrapped hbegun habort

/-- Three starts are begun: one ends, one is aborted when its client gives back what
it acquired, and one goes on. -/
def Scene.threeBegun : List (Script × Operation) :=
  [({}, .create speaker device []), ({}, acquire ":1" "r" 1),
    ({}, .a2dpResumed ⟨⟨0⟩, ⟨0⟩⟩ .started),
    ({ lastRequest := 1 }, acquire ":2" "w" 2), ({}, .release "/dev/fd0" ":2" "w"),
    ({ lastRequest := 2 }, acquire ":3" "w" 3)]

/-- A session with one request in each of the three states. -/
theorem Run.three_requests_end :
    ∃ steps b, Run (.empty {}) steps b ∧
      begun (exchanges steps) = [(⟨⟨0⟩, ⟨0⟩⟩, ⟨true, ⟨1, by decide⟩⟩),
        (⟨⟨0⟩, ⟨1⟩⟩, ⟨true, ⟨2, by decide⟩⟩), (⟨⟨0⟩, ⟨2⟩⟩, ⟨true, ⟨3, by decide⟩⟩)] ∧
      settled steps = [(⟨⟨0⟩, ⟨0⟩⟩, ⟨true, ⟨1, by decide⟩⟩)] ∧
      aborted (exchanges steps) = [(Scene.device, ⟨true, ⟨2, by decide⟩⟩)] ∧
      (requests b.transports.toList).count (⟨⟨0⟩, ⟨2⟩⟩, ⟨true, ⟨3, by decide⟩⟩) =
        1 := by
  have run := Broker.run_play Script.peers (.empty {}) Scene.threeBegun
  have hbegun :
      begun (exchanges ((Broker.empty {}).play Script.peers Scene.threeBegun)) =
      [(⟨⟨0⟩, ⟨0⟩⟩, ⟨true, ⟨1, by decide⟩⟩), (⟨⟨0⟩, ⟨1⟩⟩, ⟨true, ⟨2, by decide⟩⟩),
          (⟨⟨0⟩, ⟨2⟩⟩, ⟨true, ⟨3, by decide⟩⟩)] := by
    decide
  have hsettled : settled ((Broker.empty {}).play Script.peers Scene.threeBegun) =
      [(⟨⟨0⟩, ⟨0⟩⟩, ⟨true, ⟨1, by decide⟩⟩)] := by
    decide
  have haborted :
      aborted (exchanges ((Broker.empty {}).play Script.peers Scene.threeBegun)) =
      [(Scene.device, ⟨true, ⟨2, by decide⟩⟩)] := by
    decide
  have hunwrapped :
      Unwrapped ((Broker.empty {}).play Script.peers Scene.threeBegun) := by decide
  obtain ⟨hstate, -, hfound⟩ := run.requests_end_once (by rw [hbegun]; decide)
  have hthird := hstate ⟨⟨0⟩, ⟨2⟩⟩ ⟨true, ⟨3, by decide⟩⟩ (by rw [hbegun]; decide)
  rw [hsettled, haborted, (hfound hunwrapped).1] at hthird
  exact ⟨_, _, run, hbegun, hsettled, haborted, hthird⟩

end Runs

end AudioBroker
