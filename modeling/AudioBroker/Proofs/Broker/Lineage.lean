import AudioBroker.Proofs.Broker.Calls
import AudioBroker.Proofs.Transport.Tally

/-!
# Where the owners come from

An owner changes while it lives: it gives back directions, its client is answered,
it is marked. It stays the same client's claim under the same number. Owners that
are new come with a request for access only, and only then are tokens given out.

- `Owner.awaits`, `Owner.Becomes`: what an owner can be later.
- `Call.token?`: the token that a call gives out.
- `Transport.Keeps`, `Registry.Keeps`: no owner is new, and no token is given out.
- `Transport.Move.keeps`, `Registry.Outcome.keeps`: whatever admits nobody does so.
- `Transport.Joins`, `Transport.acquire_joins`: what a request for access comes to.
- `Broker.Succeeds`, `Step.succeeds`: where the owners after a step come from, and
  which tokens it gives out.
-/

namespace AudioBroker

open Dialogue

/-- Changing an item gives items that were there, and changed ones. -/
theorem BoundedList.mem_modify {α : Type} {xs : List α} {i : Nat} {f : α → α} {a : α}
    (h : a ∈ xs.modify i f) : a ∈ xs ∨ ∃ b ∈ xs, a = f b := by
  cases hi : xs[i]? with
  | none =>
    rw [List.modify_eq_self (List.getElem?_eq_none_iff.mp hi)] at h
    exact .inl h
  | some b =>
    obtain ⟨pre, post, hxs, -, -, hmodify⟩ := exists_around hi
    rw [hmodify] at h
    rw [hxs]
    rcases mem_around.mp h with rfl | h
    · exact .inr ⟨b, by simp, rfl⟩
    · exact .inl (mem_around.mpr (.inr h))

/-! ### What an owner can become -/

namespace Owner

/-- Whether the owner waits for the end of a start: one is under way, and the owner
is not marked. -/
def awaits (o : Owner) : Bool := !o.scheduled && o.isPending

/-- What an owner can be later: it is the same client's, under the same number, with
no more directions. Once it does not wait for the end of a start, it never does. -/
structure Becomes (o o' : Owner) : Prop where
  id : o'.id = o.id
  name : o'.name = o.name
  access : o'.access ⊆ o.access
  awaits : o'.awaits = true → o.awaits = true

variable {o o₁ o' : Owner}

theorem Becomes.refl (o : Owner) : o.Becomes o where
  id := rfl
  name := rfl
  access := Access.subset_refl _
  awaits h := h

theorem Becomes.trans (h : o.Becomes o₁) (h' : o₁.Becomes o') : o.Becomes o' where
  id := h'.id.trans h.id
  name := h'.name.trans h.name
  access := Access.subset_trans h'.access h.access
  awaits hawaits := h.awaits (h'.awaits hawaits)

/-- An owner is named by one token for all its life. -/
theorem Becomes.token_eq {t t' : Transport} (h : o.Becomes o')
    (terms : t'.terms = t.terms) :
    t'.token o'.id = t.token o.id := by
  rw [h.id, Transport.token_eq_of_terms terms]

theorem becomes_narrow (o : Owner) (a : Access) : o.Becomes (o.narrow a) where
  id := rfl
  name := rfl
  access := Access.sdiff_subset _ _
  awaits h := h

theorem becomes_depart (o : Owner) : o.Becomes o.depart where
  id := rfl
  name := rfl
  access := Access.subset_refl _
  awaits h := by simpa [awaits, isPending, depart] using h

/-- The start for an owner may come to its end. -/
theorem becomes_settle (o : Owner) : o.Becomes o.settle where
  id := rfl
  name := rfl
  access := Access.subset_refl _
  awaits h := by simpa [awaits, isPending, settle] using h

theorem awaits_answer (o : Owner) : o.answer.awaits = false :=
  by simp [awaits, isPending, answer]

theorem awaits_schedule (o : Owner) : o.schedule.awaits = false :=
  by simp [awaits, schedule]

/-- An owner may be answered; then it waits no more. -/
theorem becomes_answer (o : Owner) : o.Becomes o.answer where
  id := rfl
  name := rfl
  access := Access.subset_refl _
  awaits h := by simp [awaits_answer] at h

/-- An owner may be marked to be torn down; then it waits no more. -/
theorem becomes_schedule (o : Owner) : o.Becomes o.schedule where
  id := rfl
  name := rfl
  access := Access.subset_refl _
  awaits h := by simp [awaits_schedule] at h

end Owner

/-! ### What admits nobody -/

/-- The token that a call gives out. -/
def Call.token? : Call → Option Token
  | watch _ token | startStream _ _ token | startVoice _ token => some token
  | _ => none

/-- No token is given out. -/
def Untold (es : List Exchange) : Prop := ∀ e ∈ es, e.call.token? = none

theorem untold_nil : Untold [] := by simp [Untold]

/-- No token is given out in two parts if none is in either. -/
theorem Untold.append {es es' : List Exchange} (h : Untold es) (h' : Untold es') :
    Untold (es ++ es') := by
  intro e he
  exact (List.mem_append.mp he).elim (h e) (h' e)

/-- Whether a token is given out can be seen from the calls. -/
theorem untold_of_calls {es : List Exchange} {cs : List Call}
    (h : es.map Exchange.call = cs) (hcs : ∀ c ∈ cs, c.token? = none) :
    Untold es := by
  intro e he
  exact hcs _ (h ▸ List.mem_map_of_mem he)

/-- No call that gives something back names a token. -/
theorem Call.token?_of_isClosing {c : Call} (h : c.isClosing = true) :
    c.token? = none := by
  cases c with
  | watch _ _ | startStream _ _ _ | startVoice _ _ => cases h
  | _ => rfl

namespace Transport

variable {t t₁ t' : Transport} {ls : List Incident} {es es' : List Exchange}
  {i : Nat} {o : Owner} {id : OwnerId}

/-- The end of an owner gives out no token. -/
theorem partingCalls_untold (t : Transport) (i : Nat) :
    ∀ c ∈ t.partingCalls i, c.token? = none :=
  fun c hc => Call.token?_of_isClosing (isClosing_partingCalls t i c hc)

/-- The owners were there before, and no token is given out. -/
structure Keeps (t : Transport) (es : List Exchange) (t' : Transport) : Prop where
  terms : t'.terms = t.terms
  owners : ∀ o' ∈ t'.owners.toList, ∃ o ∈ t.owners.toList, o.Becomes o'
  untold : Untold es

theorem Keeps.refl (t : Transport) : t.Keeps [] t where
  terms := rfl
  owners o ho := ⟨o, ho, .refl o⟩
  untold := untold_nil

theorem Keeps.trans (h : t.Keeps es t₁) (h' : t₁.Keeps es' t') :
    t.Keeps (es ++ es') t' where
  terms := h'.terms.trans h.terms
  owners o' ho' := by
    obtain ⟨o₁, ho₁, hbecomes'⟩ := h'.owners o' ho'
    obtain ⟨o, ho, hbecomes⟩ := h.owners o₁ ho₁
    exact ⟨o, ho, hbecomes.trans hbecomes'⟩
  untold := h.untold.append h'.untold

/-- A change that an owner may go through keeps all of them. -/
theorem keeps_modifyOwner {f : Owner → Owner} (t : Transport) (i : Nat)
    (hf : ∀ o : Owner, o.Becomes (f o)) (untold : Untold es) :
    t.Keeps es (t.modifyOwner i f) where
  terms := rfl
  owners o' ho' := by
    rcases BoundedList.mem_modify ho' with ho | ⟨o, ho, rfl⟩
    · exact ⟨o', ho, .refl o'⟩
    · exact ⟨o, ho, hf o⟩
  untold := untold

theorem keeps_without (t : Transport) (i : Nat)
    (parting : es.map Exchange.call = t.partingCalls i) :
    t.Keeps es (t.without i) where
  terms := terms_without t i
  owners o' ho' := by
    rw [toList_owners_without] at ho'
    exact ⟨o', List.mem_of_mem_eraseIdx ho', .refl o'⟩
  untold := untold_of_calls parting (partingCalls_untold t i)

theorem keeps_of_announced (h : t.Announced es t') (untold : Untold es) :
    t.Keeps es t' where
  terms := by rw [h.eq]; rfl
  owners o' ho' := by
    rw [h.eq] at ho'
    exact ⟨o', ho', .refl o'⟩
  untold := untold

/-- No token is given out when a stream is put in place. -/
theorem install_untold {s : Stream} (h : (t.install s).Yields es t') : Untold es := by
  rcases install_cases h with ⟨-, rfl, -⟩ | ⟨-, hcalls, -⟩
  · exact untold_nil
  · exact untold_of_calls hcalls (by simp [Call.token?])

theorem reportDelay_untold {delay : UInt16}
    (h : (t.reportDelay delay).Yields es t') : Untold es := by
  rcases reportDelay_cases h with ⟨-, rfl, -⟩ | ⟨-, hcalls, -⟩
  · exact untold_nil
  · exact untold_of_calls hcalls (by simp [Call.token?])

/-- A move that admits nobody. -/
theorem Move.keeps (h : Move t ls es t') (calm : Calm ls) : t.Keeps es t' := by
  cases h with
  | joined _ _ _ | turnedAway _ _ _ _ => exact absurd List.mem_cons_self (calm _)
  | @narrowed i _ a _ _ _ =>
    have hkeeps := keeps_modifyOwner t i (fun o => o.becomes_narrow a) untold_nil
    exact ⟨rfl, hkeeps.owners, untold_nil⟩
  | ended _ parting => exact keeps_without t _ parting
  | departed _ => exact keeps_modifyOwner t _ Owner.becomes_depart untold_nil
  | settled _ => exact keeps_modifyOwner t _ Owner.becomes_settle untold_nil
  | installed install =>
    exact keeps_of_announced (install_announced install) (install_untold install)
  | delivered _ reply =>
    refine keeps_modifyOwner t _ Owner.becomes_answer
      (untold_of_calls reply fun c hc => ?_)
    obtain ⟨call, -, rfl⟩ := List.mem_map.mp hc
    rfl
  | scheduled _ _ => exact keeps_modifyOwner t _ Owner.becomes_schedule untold_nil
  | delayed report =>
    exact keeps_of_announced (reportDelay_announced report)
      (reportDelay_untold report)
  | asked query =>
    refine { Keeps.refl t with untold := fun e he => ?_ }
    rw [List.mem_singleton.mp he]
    exact Call.token?_of_isClosing (Call.isClosing_of_isQuery query)

theorem Course.keeps (h : Course t ls es t') (calm : Calm ls) : t.Keeps es t' := by
  induction h with
  | nil t => exact .refl t
  | cons move _ hcalm ih =>
    rw [calm_append] at calm
    exact (move.keeps calm.1).trans (ih calm.2)

end Transport

namespace Registry

variable {r r₁ r' : Registry} {ls : List Incident} {es es' : List Exchange}

/-- The owners were there before, in transports on the same terms, and no token is
given out. -/
structure Keeps (r : Registry) (es : List Exchange) (r' : Registry) : Prop where
  owners : ∀ t' ∈ r'.toList, ∀ o' ∈ t'.owners.toList,
    ∃ t ∈ r.toList, t'.terms = t.terms ∧ ∃ o ∈ t.owners.toList, o.Becomes o'
  untold : Untold es

theorem keeps_still (r : Registry) (untold : Untold es) : r.Keeps es r where
  owners t ht o ho := ⟨t, ht, rfl, o, ho, .refl o⟩
  untold := untold

theorem Keeps.trans (h : r.Keeps es r₁) (h' : r₁.Keeps es' r') :
    r.Keeps (es ++ es') r' where
  owners t' ht' o' ho' := by
    obtain ⟨t₁, ht₁, hterms', o₁, ho₁, hbecomes'⟩ := h'.owners t' ht' o' ho'
    obtain ⟨t, ht, hterms, o, ho, hbecomes⟩ := h.owners t₁ ht₁ o₁ ho₁
    exact ⟨t, ht, hterms'.trans hterms, o, ho, hbecomes.trans hbecomes'⟩
  untold := h.untold.append h'.untold

/-- What admits nobody, and creates no transport. -/
theorem Effect.keeps (h : Effect r ls es r') (calm : Calm ls) : r.Keeps es r' := by
  induction h with
  | still r => exact keeps_still r untold_nil
  | @asked r _ queries =>
    exact keeps_still r fun e he =>
      Call.token?_of_isClosing (Call.isClosing_of_isQuery (queries e he))
  | @answered r call reply delivery =>
    refine keeps_still r fun e he => ?_
    rw [List.mem_singleton.mp he]
    rfl
  | @moved r t t' _ _ live course =>
    have hkeeps := course.keeps calm
    refine { owners := fun u hu o' ho' => ?_, untold := hkeeps.untold }
    rcases mem_replace hu with rfl | hu
    · obtain ⟨o, ho, hbecomes⟩ := hkeeps.owners o' ho'
      exact ⟨t, (get?_eq_some live).1, hkeeps.terms, o, ho, hbecomes⟩
    · exact ⟨u, hu, rfl, o', ho', .refl o'⟩
  | @closed r t t' es es' live course _ closing =>
    have hclosing : Untold es' := by
      refine untold_of_calls closing fun c hc => ?_
      obtain ⟨session, -, rfl⟩ := List.mem_map.mp hc
      rfl
    refine { owners := fun u hu o' ho' =>
               ⟨u, (List.mem_filter.mp hu).1, rfl, o', ho', .refl o'⟩,
             untold := fun e he => ?_ }
    rcases List.mem_cons.mp he with rfl | he
    · rfl
    · exact ((course.keeps calm_nil).untold.append hclosing) e he
  | seq _ _ _ ih₁ ih₂ =>
    rw [calm_append] at calm
    exact (ih₁ calm.1).trans (ih₂ calm.2)

/-- What admits nobody; a transport that is created has no owners. -/
theorem Outcome.keeps (h : Outcome r ls es r') (calm : Calm ls) : r.Keeps es r' := by
  cases h with
  | effect effect => exact effect.keeps calm
  | refused path =>
    refine keeps_still r fun e he => ?_
    rw [List.mem_singleton.mp he]
    rfl
  | opened created insert =>
    refine { owners := fun u hu o' ho' => ?_, untold := fun e he => ?_ }
    · rcases mem_insert? insert hu with rfl | hu
      · rw [Transport.owners_of_create created] at ho'
        cases ho'
      · exact ⟨u, hu, rfl, o', ho', .refl o'⟩
    · rw [List.mem_singleton.mp he]
      rfl

end Registry

/-! ### What admits somebody -/

namespace Backend

variable {b b' : Backend} {device : Device} {token : Token} {inUse : Bool}
  {es : List Exchange} {st : Start}

/-- A session is asked for without a token. -/
theorem Opened.untold (h : Opened device b es b') : Untold es := by
  cases h with
  | kept _ => exact untold_nil
  | opened sep s => simp [Untold, Call.token?]

theorem LockAsked.untold {granted : Bool} {e : Exchange}
    (h : LockAsked device granted b e) :
    e.call.token? = none := by
  cases h <;> rfl

/-- A start gives out the token that it was asked for with, and no other. -/
theorem StartSpec.token_eq (h : StartSpec device token b inUse es st) :
    ∀ e ∈ es, ∀ k, e.call.token? = some k → k = token := by
  -- only the request for the start itself carries a token
  have hnone : ∀ es, Untold es → ∀ e ∈ es, ∀ k, e.call.token? = some k →
      k = token := by
    intro es huntold e he k hk
    rw [huntold e he] at hk
    cases hk
  cases h with
  | noSession _ => exact hnone _ (by simp [Untold, Call.token?])
  | noLock _ opened refused =>
    exact hnone _ (opened.untold.append (by simp [Untold, refused.untold]))
  | @asked opening locking b' e request opened locked asked =>
    intro e' he'
    rw [List.mem_append, List.mem_singleton] at he'
    rcases he' with he' | rfl
    · refine hnone _ (opened.untold.append ?_) e' he'
      rcases locked with ⟨-, rfl⟩ | ⟨-, e'', granted, rfl⟩
      · exact untold_nil
      · simp [Untold, granted.untold]
    · cases asked <;> rintro k ⟨⟩ <;> rfl

end Backend

namespace Transport

variable {t t' : Transport} {es : List Exchange} {id : OwnerId}
  {client text : String} {call : PendingCall} {result : Except Rejection Unit}

/-- The transport after a request for access, and what was said: there is one new
owner at most, and it is the client's; tokens were given out for its number only,
and nobody else was watched. -/
structure Joins (t : Transport) (client : String) (id : OwnerId)
    (es : List Exchange) (t' : Transport) :
    Prop where
  terms : t'.terms = t.terms
  owners : ∀ o' ∈ t'.owners.toList, o' ∈ t.owners.toList ∨
    o'.id = id ∧ o'.name.str = client
  tokens : ∀ e ∈ es, ∀ k, e.call.token? = some k → k = t.token id
  watches : ∀ e ∈ es, ∀ name k, e.call = .watch name k → name.str = client

/-- A request for access brings one new owner at most, under the number that was
given to it. -/
theorem acquire_joins (h : (t.acquire client text call id).Yields es (result, t')) :
    t.Joins client id es t' := by
  rcases acquire_cases h with ⟨fault, -, -, rfl, rfl⟩ | ⟨name, access, ha, -, htake⟩
  · exact { terms := rfl, owners := fun _ ho' => .inl ho',
            tokens := by simp, watches := by simp }
  · obtain ⟨-, -, -, hname, room⟩ := admission_eq_ok ha
    obtain ⟨watch, es₁, start, es₂, hstart, rfl, hcase⟩ := takeOn_cases htake
    have hspec := Backend.start_spec hstart
    -- what is said by the end of an owner whose start could not begin gives out
    -- nothing
    have hrest : Untold es₂ := by
      rcases hcase with ⟨-, rfl, -⟩ | ⟨-, hparting, -⟩
      · exact untold_nil
      · exact untold_of_calls hparting (partingCalls_untold _ _)
    have howners : ∀ o' ∈ t'.owners.toList, o' ∈ (t.started start
        (.fresh id name access watch call start.request)).owners.toList := by
      rcases hcase with ⟨-, -, rfl⟩ | ⟨-, -, rfl⟩
      · exact fun o' ho' => ho'
      · intro o' ho'
        rw [toList_owners_without] at ho'
        exact List.mem_of_mem_eraseIdx ho'
    refine { terms := (acquire_course h).terms_eq, owners := fun o' ho' => ?_,
             tokens := fun e he k hk => ?_, watches := fun e he n k hk => ?_ }
    · have hmem := howners o' ho'
      rw [started_eq room, List.mem_append, List.mem_singleton] at hmem
      rcases hmem with hmem | rfl
      · exact .inl hmem
      · exact .inr ⟨rfl, hname⟩
    · rcases List.mem_cons.mp he with rfl | he
      · cases hk
        rfl
      · rcases List.mem_append.mp he with he | he
        · exact hspec.token_eq e he k hk
        · rw [hrest e he] at hk
          cases hk
    · rcases List.mem_cons.mp he with rfl | he
      · cases hk
        exact hname
      · rcases List.mem_append.mp he with he | he
        · have hstarting := hspec.isStarting e he
          rw [hk] at hstarting
          cases hstarting
        · have hnone := hrest e he
          rw [hk] at hnone
          cases hnone

end Transport

/-! ### Steps -/

namespace Broker

variable {b b' : Broker} {es es' : List Exchange}

/-- The owners were there before, or there is one that was taken on under the next
number, whose client is the only one that was watched; tokens are given out for that
number only. -/
structure Succeeds (b : Broker) (es : List Exchange) (b' : Broker) : Prop where
  owners : ∀ t' ∈ b'.transports.toList, ∀ o' ∈ t'.owners.toList,
    (∃ t ∈ b.transports.toList, t'.terms = t.terms ∧ ∃ o ∈ t.owners.toList,
      o.Becomes o') ∨ (o'.id = b.nextOwner ∧ b'.nextOwner = b.nextOwner.next ∧
        ∀ e ∈ es, ∀ name k, e.call = .watch name k → name = o'.name)
  tokens : ∀ e ∈ es, ∀ k, e.call.token? = some k →
    k.owner = b.nextOwner ∧ b'.nextOwner = b.nextOwner.next

/-- Where all owners were owners before, nobody new has to be accounted for. -/
theorem succeeds_of_keeps (h : b.transports.Keeps es b'.transports) :
    b.Succeeds es b' where
  owners t' ht' o' ho' := .inl (h.owners t' ht' o' ho')
  tokens e he k hk := by
    rw [h.untold e he] at hk
    cases hk

/-- What is said without a token does not matter. -/
theorem Succeeds.frame (h : b.Succeeds es b') (untold : Untold es') :
    b.Succeeds (es ++ es') b' where
  owners t' ht' o' ho' := by
    refine (h.owners t' ht' o' ho').imp id fun ⟨hid, hnext, hwatch⟩ =>
      ⟨hid, hnext, fun e he name k hk => ?_⟩
    rcases List.mem_append.mp he with he | he
    · exact hwatch e he name k hk
    · have hnone := untold e he
      rw [hk] at hnone
      cases hnone
  tokens e he k hk := by
    rcases List.mem_append.mp he with he | he
    · exact h.tokens e he k hk
    · rw [untold e he] at hk
      cases hk

/-- The only new owner that a request can bring has the next number. -/
theorem acquire_succeeds {path client text : String} {call : PendingCall}
    {result : Except Rejection Unit}
    (h : (b.acquire path client text call).Yields es (result, b')) :
    b.Succeeds es b' := by
  rcases acquire_cases h with ⟨-, -, rfl, rfl⟩ | ⟨t, t', ht, h₁, rfl⟩
  · exact succeeds_of_keeps (Registry.keeps_still _ untold_nil)
  · have hjoins := Transport.acquire_joins h₁
    have hmem := (Registry.get?_eq_some (get?_of_transportAt? ht)).1
    refine { owners := fun u hu o' ho' => ?_, tokens := fun e he k hk => ?_ }
    · rcases Registry.mem_replace hu with rfl | hu
      · rcases hjoins.owners o' ho' with ho | ⟨hid, hname⟩
        · exact .inl ⟨t, hmem, hjoins.terms, o', ho, .refl o'⟩
        · refine .inr ⟨hid, rfl, fun e he name k hk => Text.ext ?_⟩
          rw [hname, hjoins.watches e he name k hk]
      · exact .inl ⟨u, hu, rfl, o', ho', .refl o'⟩
    · rw [hjoins.tokens e he k hk]
      exact ⟨rfl, rfl⟩

theorem dispatch_succeeds {path client : String} {call : PendingCall}
    {method : Method} (h : (b.dispatch path client call method).Yields es b') :
    b.Succeeds es b' := by
  have heffect := dispatch_effect h
  cases method with
  | acquire access =>
    obtain ⟨result, es₁, es₂, h₁, rfl, hanswer⟩ := dispatch_answers h
    refine (acquire_succeeds h₁).frame (untold_of_calls hanswer fun c hc => ?_)
    obtain ⟨reply, -, rfl⟩ := List.mem_map.mp hc
    rfl
  | getProperties | release _ | setProperty _ _ =>
    exact succeeds_of_keeps (heffect.keeps
      (by simp [Calm, callIncidents, defersAnswer]))

end Broker

/-- What every step does to the owners, and which tokens it gives out. -/
theorem Step.succeeds (s : Step) : s.before.Succeeds s.exchanges s.after := by
  have houtcome := s.outcome
  have hkeeps : Calm s.incidents → s.before.Succeeds s.exchanges s.after :=
    fun calm => Broker.succeeds_of_keeps (houtcome.keeps calm)
  obtain ⟨b, op, es, result, b', performed⟩ := s
  -- all but requests for access are calm
  have hdeparted : ∀ o : Option Owner, Calm (o.toList.map .departed) := by
    intro o
    cases o <;> simp [Calm]
  cases op with
  | create endpoint device configuration =>
    apply hkeeps
    cases result with
    | error _ => exact calm_nil
    | ok id =>
      show Calm ((b.transports.get? id).toList.map .displaced)
      cases b.transports.get? id <;> simp [Calm]
  | acquire path client access call => exact Broker.acquire_succeeds performed
  | exit token => exact hkeeps (hdeparted _)
  | dispatch path client call method =>
    obtain ⟨b₁, went, heq⟩ := yields_map.mp performed
    cases heq
    exact Broker.dispatch_succeeds went
  | handle event =>
    cases event with
    | call path client call method =>
      obtain ⟨b₁, went, heq⟩ := yields_map.mp performed
      cases heq
      exact Broker.dispatch_succeeds went
    | exited token => exact hkeeps (hdeparted _)
    | a2dpResumed _ _ | voiceConnected _ _ | delayed _ _ => exact hkeeps calm_nil
  | remove _ | release _ _ _ | properties _ | setProperty _ _ _ | a2dpResumed _ _
  | voiceConnected _ _ | reportDelay _ _ | runDeferred => exact hkeeps calm_nil

end AudioBroker
