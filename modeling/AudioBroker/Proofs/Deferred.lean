import AudioBroker.Proofs.Numbers

/-!
# The queue of owners that are torn down later

The mark of an owner is kept with the owner, and its token in the queue of the
broker. Owners and whole transports go away in between, and their tokens stay; still
no owner is marked without its token being in the queue.

- `Transport.Queued`: an owner is marked exactly when its token is among the given
  ones.
- `Broker.Queued.turn`: every operation keeps this for the tokens in the queue.
- `Registry.Teardowns`: owners torn down one after another.
- `Broker.Rounds`: tokens tried one after another, whether or not they still name an
  owner.
- `Run.queue_names_marked_owners`: what it comes to in every run.
-/

namespace AudioBroker

open Dialogue

namespace Transport

variable {t t' : Transport} {queue : List Token} {token : Token}

theorem owner?_eq_none_iff {id : OwnerId} : t.owner? id = none ↔ id ∉ t.ownerIds := by
  rw [owner?, locate?_eq_none_iff, ownerIds, stamps, List.map_map]
  simp

/-- Around an owner of a numbered transport nobody else has its number. -/
theorem ne_of_ownerIds {id : OwnerId} {mark : Bool} {pre post : List (OwnerId × Bool)}
    (hids : t.ownerIds.Nodup) (hstamps : t.stamps = pre ++ (id, mark) :: post) :
    ∀ s ∈ pre ++ post, s.1 ≠ id := by
  rw [ownerIds, hstamps, List.map_append, List.map_cons, List.nodup_middle,
    List.nodup_cons, ← List.map_append] at hids
  intro s hs hid
  have hmem : s.1 ∈ (pre ++ post).map Prod.fst := List.mem_map_of_mem hs
  rw [hid] at hmem
  exact hids.1 hmem

/-- An owner is marked exactly when its token is among these, and only owners of
A2DP transports are. -/
structure Queued (t : Transport) (queue : List Token) : Prop where
  marked_iff : ∀ s ∈ t.stamps, s.2 = true ↔ t.token s.1 ∈ queue
  kind : ∀ s ∈ t.stamps, s.2 = true → t.backend.isA2dp = true

/-- Owners that are as they were. -/
theorem Queued.subset (h : t.Queued queue) (hterms : t'.terms = t.terms)
    (hstamps : ∀ s ∈ t'.stamps, s ∈ t.stamps) : t'.Queued queue where
  marked_iff s hs := by
    rw [token_eq_of_terms hterms]
    exact h.marked_iff s (hstamps s hs)
  kind s hs hmark := by
    rw [isA2dp_eq_of_terms hterms]
    exact h.kind s (hstamps s hs) hmark

/-- One more token, of an owner of another transport. -/
theorem Queued.push (h : t.Queued queue) (hne : t.id ≠ token.transport) :
    t.Queued (queue ++ [token]) where
  marked_iff s hs := by
    rw [h.marked_iff s hs, List.mem_append, List.mem_singleton]
    have hother : t.token s.1 ≠ token := fun heq => hne (heq ▸ rfl)
    simp [hother]
  kind := h.kind

/-- One token less, of none of the owners of this transport. -/
theorem Queued.pop (h : t.Queued (token :: queue))
    (hne : ∀ s ∈ t.stamps, t.token s.1 ≠ token) :
    t.Queued queue where
  marked_iff s hs := by
    rw [h.marked_iff s hs, List.mem_cons]
    simp [hne s hs]
  kind := h.kind

/-- One more token, of the owner that is marked. -/
theorem Queued.mark {id : OwnerId} {pre post : List (OwnerId × Bool)}
    (h : t.Queued queue) (hids : t.ownerIds.Nodup) (terms : t'.terms = t.terms)
    (kind : t.backend.isA2dp = true)
    (before : t.stamps = pre ++ (id, false) :: post)
    (after : t'.stamps = pre ++ (id, true) :: post) :
    t'.Queued (queue ++ [t.token id]) := by
  constructor
  · intro s hs
    rw [token_eq_of_terms terms, List.mem_append, List.mem_singleton]
    rw [after] at hs
    rcases BoundedList.mem_around.mp hs with rfl | hs
    · simp
    · -- any other owner keeps its mark, and has another token
      have hother : t.token s.1 ≠ t.token id := by
        intro heq
        exact ne_of_ownerIds hids before s hs (Token.mk.inj heq).2
      have hs' : s ∈ t.stamps := by
        rw [before]
        exact BoundedList.mem_around.mpr (.inr hs)
      rw [h.marked_iff s hs']
      simp [hother]
  · intro s hs _
    rw [isA2dp_eq_of_terms terms]
    exact kind

end Transport

namespace Broker

variable {b b' : Broker} {es : List Exchange}

/-- The owners that are marked are those whose tokens are in the queue, where each
token is once. -/
structure Queued (b : Broker) : Prop where
  transports : ∀ t ∈ b.transports.toList, t.Queued b.deferred.toList
  nodup : b.deferred.toList.Nodup

theorem queued_empty (options : Options) : (empty options).Queued where
  transports _ ht := absurd ht List.not_mem_nil
  nodup := List.nodup_nil

theorem Queued.store {t' : Transport} (h : b.Queued)
    (queued : t'.Queued b.deferred.toList) :
    (b.store t').Queued where
  transports u hu := by
    rcases Registry.mem_replace hu with rfl | hu
    · exact queued
    · exact h.transports u hu
  nodup := h.nodup

/-- The next number belongs to no token in the queue. -/
theorem Numbered.next_not_queued (h : b.Numbered) (id : TransportId) :
    ⟨id, b.nextOwner⟩ ∉ b.deferred.toList := by
  intro hmem
  have hlt := h.queued _ hmem
  exact absurd hlt (UInt32.lt_irrefl _)

/-- A new owner is not marked, and its token is not in the queue, as its number is
new. -/
theorem Queued.acquire {t t' : Transport} (h : b.Queued) (hn : b.Numbered)
    (live : b.transports.get? t.id = some t) (terms : t'.terms = t.terms)
    (stamps : t'.stamps.Sublist (t.stamps ++ [(b.nextOwner, false)])) :
    t'.Queued b.deferred.toList := by
  have hqueued := h.transports t (Registry.get?_eq_some live).1
  constructor
  · intro s hs
    rw [Transport.token_eq_of_terms terms]
    rcases List.mem_append.mp (stamps.subset hs) with hs | hs
    · exact hqueued.marked_iff s hs
    · rw [List.mem_singleton.mp hs]
      have hnew : t.token b.nextOwner ∉ b.deferred.toList := hn.next_not_queued t.id
      simpa using hnew
  · intro s hs hmark
    rw [Transport.isA2dp_eq_of_terms terms]
    rcases List.mem_append.mp (stamps.subset hs) with hs | hs
    · exact hqueued.kind s hs hmark
    · rw [List.mem_singleton.mp hs] at hmark
      cases hmark

/-- The owner that is marked is the one whose token goes into the queue. -/
theorem Queued.mark {t t' : Transport} {id : OwnerId}
    {pre post : List (OwnerId × Bool)} {deferred : BoundedList Token maxDeferred}
    (h : b.Queued) (hn : b.Numbered) (live : b.transports.get? t.id = some t)
    (terms : t'.terms = t.terms) (kind : t.backend.isA2dp = true)
    (before : t.stamps = pre ++ (id, false) :: post)
    (after : t'.stamps = pre ++ (id, true) :: post)
    (push : b.deferred.push? (t.token id) = some deferred) :
    { b.store t' with deferred }.Queued := by
  obtain ⟨hmem, -⟩ := Registry.get?_eq_some live
  obtain ⟨-, hpush⟩ := BoundedList.push?_eq_some_iff.mp push
  have hqueued := h.transports t hmem
  have hnew : t.token id ∉ b.deferred.toList := by
    rw [← hqueued.marked_iff (id, false) (by simp [before])]
    simp
  constructor
  · intro u hu
    show u.Queued deferred.toList
    rw [hpush]
    by_cases hid : u.id = t'.id
    · obtain rfl := Registry.eq_of_mem_replace hu hid
      exact hqueued.mark (hn.owners t hmem).distinct terms kind before after
    · have hold := (Registry.mem_replace hu).resolve_left (fun heq => hid (heq ▸ rfl))
      refine (h.transports u hold).push ?_
      rw [Transport.id_eq_of_terms terms] at hid
      exact hid
  · show deferred.toList.Nodup
    rw [hpush, List.nodup_append]
    refine ⟨h.nodup, by simp, ?_⟩
    intro k hk k' hk' heq
    apply hnew
    rw [← List.mem_singleton.mp hk', ← heq]
    exact hk

end Broker

/-! ### Emptying the queue -/

/-- What the tokens of a queue are to the live transports. -/
structure Registry.Queued (r : Registry) (queue : List Token) : Prop where
  distinct : r.Distinct
  owners : ∀ t ∈ r.toList, t.ownerIds.Nodup
  queued : ∀ t ∈ r.toList, t.Queued queue
  nodup : queue.Nodup

/-- Owners torn down one after another, each at the place where its token finds it,
with what is said. -/
inductive Registry.Teardowns :
    Registry → List Token → List Exchange → Registry → Prop where
  | nil (r : Registry) : Teardowns r [] [] r
  | cons {r r' : Registry} {token : Token} {rest : List Token}
      {es es' : List Exchange} {t : Transport}
      {i : Nat} {o : Owner} (live : r.get? token.transport = some t)
      (owner : t.owner? token.owner = some (i, o)) (marked : o.scheduled = true)
      (parting : es.map Exchange.call = t.partingCalls i)
      (next : Teardowns (r.replace (t.without i)) rest es' r') :
      Teardowns r (token :: rest) (es ++ es') r'

namespace Broker

/-- Tokens tried one after another: which ones, whether each of them ended an owner,
and what is said. -/
inductive Rounds : Broker → List (Token × Bool) → List Exchange → Broker → Prop where
  | nil (b : Broker) : Rounds b [] [] b
  | cons {b b₁ b' : Broker} {token : Token} {ended : Bool}
      {rest : List (Token × Bool)}
      {es es' : List Exchange} (tried : (b.endScheduled token).Yields es (ended, b₁))
      (next : Rounds b₁ rest es' b') :
        Rounds b ((token, ended) :: rest) (es ++ es') b'

variable {b b' : Broker} {es : List Exchange} {token : Token} {rest : List Token}

/-- Going through a queue takes one round for each token, and counts the rounds that
ended an owner. -/
theorem endEach_rounds {tokens : List Token} {n : Nat}
    (h : (b.endEach tokens).Yields es (n, b')) :
    ∃ rounds : List (Token × Bool),
      rounds.map Prod.fst = tokens ∧ b.Rounds rounds es b' ∧
      n = rounds.countP Prod.snd := by
  induction tokens generalizing b es n with
  | nil =>
    obtain ⟨rfl, heq⟩ := yields_pure.mp h
    cases heq
    exact ⟨[], rfl, .nil _, rfl⟩
  | cons token rest ih =>
    obtain ⟨es₁, ended, b₁, es₂, m, h₁, h₂, rfl, hn⟩ := endEach_cons_cases h
    obtain ⟨rounds, htokens, hrounds, hm⟩ := ih h₂
    refine ⟨(token, ended) :: rounds, ?_, .cons h₁ hrounds, ?_⟩
    · rw [List.map_cons, htokens]
    · rw [hn, hm, List.countP_cons]
      cases ended <;> rfl

theorem owner?_eq_none_iff :
    b.owner? token = none ↔
      ∀ t, b.transports.get? token.transport = some t → token.owner ∉ t.ownerIds := by
  rw [owner?]
  cases hget : b.transports.get? token.transport with
  | none => simp
  | some t => simp [← Transport.owner?_eq_none_iff]

/-- A token that has outlived its owner can go. -/
theorem queued_of_owner?_eq_none (h : b.transports.Queued (token :: rest))
    (hnone : b.owner? token = none) :
    b.transports.Queued rest := by
  refine { h with queued := ?_, nodup := h.nodup.of_cons }
  intro t ht
  refine (h.queued t ht).pop ?_
  intro s hs heq
  rw [← heq, owner?_eq_none_iff] at hnone
  exact hnone t (h.distinct.get?_of_mem ht) (List.mem_map_of_mem hs)

/-- A token goes together with its owner. -/
theorem queued_without {t : Transport} {i : Nat} {pre post : List (OwnerId × Bool)}
    {mark : Bool} (h : b.transports.Queued (token :: rest))
    (hget : b.transports.get? token.transport = some t)
    (hbefore : t.stamps = pre ++ (token.owner, mark) :: post)
    (hafter : (t.without i).stamps = pre ++ post) :
    (b.store (t.without i)).transports.Queued rest := by
  -- no other owner of the transport has the number of the one that goes
  obtain ⟨hmem, htid⟩ := Registry.get?_eq_some hget
  have hne := Transport.ne_of_ownerIds (h.owners t hmem) hbefore
  have hterms := Transport.terms_without t i
  have hid := Transport.id_eq_of_terms hterms
  refine { distinct := h.distinct.replace _, owners := ?_, queued := ?_,
           nodup := h.nodup.of_cons }
  · intro u hu
    rcases Registry.mem_replace hu with rfl | hu
    · exact (h.owners t hmem).sublist ((Transport.stamps_without_sublist t i).map _)
    · exact h.owners u hu
  · intro u hu
    by_cases huid : u.id = (t.without i).id
    · obtain rfl := Registry.eq_of_mem_replace hu huid
      have hkept := (h.queued t hmem).subset hterms
        (Transport.stamps_without_sublist t i).subset
      refine hkept.pop fun s hs heq => hne s (hafter ▸ hs) ?_
      rw [← heq]
      rfl
    · -- an owner of another transport has another token
      have hold := (Registry.mem_replace hu).resolve_left
        (fun heq => huid (heq ▸ rfl))
      refine (h.queued u hold).pop fun s _ heq => huid ?_
      rw [hid, htid, ← heq]
      rfl

/-- What becomes of one token of the queue. -/
theorem endScheduled_step {ended : Bool} (hq : b.transports.Queued (token :: rest))
    (h : (b.endScheduled token).Yields es (ended, b')) :
    b'.transports.Queued rest ∧ b'.deferred = b.deferred ∧
      ((b.owner? token = none ∧ ended = false ∧ es = [] ∧ b' = b) ∨
        ∃ t i o, b.transports.get? token.transport = some t ∧
          t.owner? token.owner = some (i, o) ∧
          o.scheduled = true ∧ ended = true ∧
          es.map Exchange.call = t.partingCalls i ∧
          b' = b.store (t.without i)) := by
  rcases endScheduled_cases h with ⟨hnone, rfl, rfl, rfl⟩ | ⟨t, t', hget, hend, rfl⟩
  · have hnobody : b'.owner? token = none := by rw [owner?, hnone]; rfl
    exact ⟨queued_of_owner?_eq_none hq hnobody, rfl, .inl ⟨hnobody, rfl, rfl, rfl⟩⟩
  · obtain ⟨hmem, htid⟩ := Registry.get?_eq_some hget
    cases howner : t.owner? token.owner with
    | none =>
      -- the token is stale: its owner was gone before the queue was emptied
      have hnobody : b.owner? token = none := by
        rw [owner?, hget, Option.bind_some, howner]; rfl
      have hsame : b.store t = b := by
        rw [store, hq.distinct.replace_self (htid ▸ hget)]
      rcases Transport.endScheduled_cases hend with ⟨-, rfl, rfl, rfl⟩ | ⟨i, o, ho, -⟩
      · rw [hsame]
        exact ⟨queued_of_owner?_eq_none hq hnobody, rfl,
          .inl ⟨hnobody, rfl, rfl, rfl⟩⟩
      · rw [howner] at ho
        cases ho
    | some io =>
      obtain ⟨i, o⟩ := io
      obtain ⟨pre, post, hstamps, -, hfirst⟩ := Transport.stamps_of_owner? howner
      -- the token is in the queue, so that its owner is marked
      have hmark : o.scheduled = true := by
        have htoken : t.token token.owner = token := by rw [Transport.token, htid]
        rw [(hq.queued t hmem).marked_iff (token.owner, o.scheduled)
          (by simp [hstamps]), htoken]
        exact List.mem_cons_self
      rw [hmark] at hstamps
      obtain ⟨i', o', ho', hs', rfl, hcalls, rfl, hrest⟩ :=
        Transport.endScheduled_marked hstamps hfirst hend
      exact ⟨queued_without hq hget hstamps hrest, rfl,
        .inr ⟨t, i', o', hget, ho', hs', rfl, hcalls, rfl⟩⟩

/-- The tokens among these that name a live owner. -/
def due (b : Broker) (tokens : List Token) : List Token :=
  tokens.filter fun token => (b.owner? token).isSome

/-- The end of one owner leaves the others where their tokens find them. -/
theorem owner?_store_without {t : Transport} {i : Nat} {o : Owner} {k : Token}
    (hne : k ≠ token) (hget : b.transports.get? token.transport = some t)
    (howner : t.owner? token.owner = some (i, o)) :
    (b.store (t.without i)).owner? k = none ↔ b.owner? k = none := by
  have hid := Transport.id_eq_of_terms (Transport.terms_without t i)
  rw [owner?_eq_none_iff, owner?_eq_none_iff]
  by_cases htransport : k.transport = token.transport
  · -- another token of the same transport names another owner
    have hother : k.owner ≠ token.owner := by
      intro heq
      apply hne
      cases k
      cases token
      cases htransport
      cases heq
      rfl
    obtain ⟨pre, post, hbefore, rfl, -⟩ := Transport.stamps_of_owner? howner
    rw [htransport, get?_store hget hid, hget]
    simp only [Option.some.injEq, forall_eq']
    rw [Transport.ownerIds, Transport.stamps_without_around hbefore,
      Transport.ownerIds, hbefore]
    simp [hother]
  · have hother : k.transport ≠ (t.without i).id := by
      rw [hid, (Registry.get?_eq_some hget).2]
      exact htransport
    rw [store, Registry.get?_replace_of_ne _ hother]

theorem due_store_without {t : Transport} {i : Nat} {o : Owner}
    (hq : b.transports.Queued (token :: rest))
    (hget : b.transports.get? token.transport = some t)
    (howner : t.owner? token.owner = some (i, o)) :
    (b.store (t.without i)).due rest = b.due rest := by
  apply List.filter_congr
  intro k hk
  -- no token is in the queue twice
  have hne : k ≠ token := fun heq => (List.nodup_cons.mp hq.nodup).1 (heq ▸ hk)
  rw [Bool.eq_iff_iff, Option.isSome_iff_ne_none, Option.isSome_iff_ne_none]
  exact not_congr (owner?_store_without hne hget howner)

/-- Going through a queue tears down the owners that its tokens name, in its order,
and counts them. -/
theorem endEach_teardowns {tokens : List Token} {n : Nat}
    (hq : b.transports.Queued tokens) (h : (b.endEach tokens).Yields es (n, b')) :
    b'.transports.Queued [] ∧ b'.deferred = b.deferred ∧ n = (b.due tokens).length ∧
      b.transports.Teardowns (b.due tokens) es b'.transports := by
  -- along the queue, where the tokens that are left agree with the marks that are
  -- left
  induction tokens generalizing b es n with
  | nil =>
    obtain ⟨rfl, heq⟩ := yields_pure.mp h
    cases heq
    exact ⟨hq, rfl, rfl, .nil _⟩
  | cons token rest ih =>
    obtain ⟨es₁, ended, b₁, es₂, m, h₁, h₂, rfl, hn⟩ := endEach_cons_cases h
    obtain ⟨hq₁, hdeferred, hcase⟩ := endScheduled_step hq h₁
    obtain ⟨hq', hdeferred', hm, hteardowns⟩ := ih hq₁ h₂
    refine ⟨hq', hdeferred'.trans hdeferred, ?_⟩
    rcases hcase with ⟨hnone, rfl, rfl, rfl⟩ |
      ⟨t, i, o, hget, howner, hmark, rfl, hcalls, rfl⟩
    · have hdue : b₁.due (token :: rest) = b₁.due rest := by simp [due, hnone]
      rw [hdue]
      exact ⟨hn.trans hm, hteardowns⟩
    · have hsome : (b.owner? token).isSome = true := by simp [owner?, hget, howner]
      have hdue : b.due (token :: rest) = token :: b.due rest := by simp [due, hsome]
      rw [due_store_without hq hget howner] at hm hteardowns
      rw [hdue]
      refine ⟨?_, .cons hget howner hmark hcalls hteardowns⟩
      rw [hn, hm]
      rfl

theorem Queued.registry (h : b.Queued) (hn : b.Numbered)
    (hd : b.transports.Distinct) :
    b.transports.Queued b.deferred.toList where
  distinct := hd
  owners t ht := (hn.owners t ht).distinct
  queued := h.transports
  nodup := h.nodup

/-- Every turn keeps the queue and the marks in agreement. -/
theorem Queued.turn (h : b.Queued) (hn : b.Numbered) (hd : b.transports.Distinct)
    (turn : b.Turn b') :
    b'.Queued := by
  -- only two turns touch the queue: one puts a token in together with the mark, the
  -- other empties it together with all marks
  cases turn with
  | still => exact h
  | created created insert =>
    refine { transports := ?_, nodup := h.nodup }
    intro u hu
    rcases Registry.mem_insert? insert hu with rfl | hu
    · have hstamps : u.stamps = [] := by
        rw [Transport.stamps, Transport.owners_of_create created]
        rfl
      exact { marked_iff := by simp [hstamps], kind := by simp [hstamps] }
    · exact h.transports u hu
  | removed id =>
    exact { transports := fun u hu => h.transports u (List.mem_filter.mp hu).1,
            nodup := h.nodup }
  | stored live terms stamps =>
    exact h.store ((h.transports _ (Registry.get?_eq_some live).1).subset terms
      stamps.subset)
  | acquired live terms stamps =>
    have hstored := h.store (h.acquire hn live terms stamps)
    exact { transports := hstored.transports, nodup := hstored.nodup }
  | marked live terms kind before after _ push =>
    exact h.mark hn live terms kind before after push
  | drained drain =>
    obtain ⟨hq, hdeferred, -, -⟩ :=
      endEach_teardowns (b := { b with deferred := ∅ }) (h.registry hn hd) drain
    have hempty : b'.deferred.toList = [] := by rw [hdeferred]; rfl
    constructor
    · rw [hempty]
      exact hq.queued
    · rw [hempty]
      exact List.nodup_nil

/-- An owner that was marked, and whose token finds no room, is gone when the
operation is over. -/
theorem not_owner_of_full {t t' : Transport} {success : Bool}
    {es₁ es₂ : List Exchange} (hn : b.Numbered)
    (hget : b.transports.get? token.transport = some t)
    (hcomplete : (t.complete token.owner success).Yields es₁ (.deferred, t'))
    (hfull : b.deferred.isFull = true)
    (hdefer : ((b.store t').defer token).Yields es₂ b') :
    b'.owner? token = none ∧ b'.deferred = b.deferred := by
  have hpush : b.deferred.push? token = none := by
    rw [BoundedList.push?_eq_none_iff]
    exact BoundedList.isFull_iff.mp hfull
  have hterms := (Transport.complete_course hcomplete).terms_eq
  rcases Transport.complete_stamps hcomplete
    with ⟨hnot, -⟩ | ⟨-, -, pre, post, hbefore, hafter, hfirst⟩
  · exact absurd rfl hnot
  · obtain ⟨i, -, -, -, -, hrest, rfl⟩ :=
      defer_full hget (Transport.id_eq_of_terms hterms) hafter hfirst hpush hdefer
    have hterms' := (Transport.terms_without t' i).trans hterms
    refine ⟨?_, rfl⟩
    rw [owner?_eq_none_iff, get?_store hget (Transport.id_eq_of_terms hterms')]
    -- the owner was torn down, and no other one has its number
    rintro u ⟨⟩ hmem
    rw [Transport.ownerIds, hrest] at hmem
    obtain ⟨s, hs, hsid⟩ := List.mem_map.mp hmem
    have hids := (hn.owners t (Registry.get?_eq_some hget).1).distinct
    exact Transport.ne_of_ownerIds hids hbefore s hs hsid

/-- The tokens that are due are those of the marked owners. -/
theorem mem_due_iff (hq : b.transports.Queued rest) :
    token ∈ b.due rest ↔ ∃ t ∈ b.transports.toList, ∃ o ∈ t.owners.toList,
      o.scheduled = true ∧ t.token o.id = token := by
  rw [due, List.mem_filter]
  constructor
  · rintro ⟨hmem, hsome⟩
    obtain ⟨o, ho⟩ := Option.isSome_iff_exists.mp hsome
    obtain ⟨t, hget, ho⟩ := Option.bind_eq_some_iff.mp ho
    obtain ⟨⟨i, o⟩, howner, rfl⟩ := Option.map_eq_some_iff.mp ho
    obtain ⟨ht, htid⟩ := Registry.get?_eq_some hget
    obtain ⟨hi, hid⟩ := Transport.owner?_eq_some howner
    have ho := List.mem_of_getElem? hi
    -- a queued token that finds an owner finds a marked one
    have htoken : t.token o.id = token := by rw [Transport.token, htid, hid]
    have hstamp : (o.id, o.scheduled) ∈ t.stamps := List.mem_map_of_mem ho
    exact ⟨t, ht, o, ho, ((hq.queued t ht).marked_iff _ hstamp).mpr
      (htoken.symm ▸ hmem), htoken⟩
  · rintro ⟨t, ht, o, ho, hmark, rfl⟩
    have hstamp : (o.id, o.scheduled) ∈ t.stamps := List.mem_map_of_mem ho
    refine ⟨((hq.queued t ht).marked_iff _ hstamp).mp hmark, ?_⟩
    rw [Option.isSome_iff_ne_none, Ne, owner?_eq_none_iff]
    exact fun hnone => hnone t (hq.distinct.get?_of_mem ht)
      (List.mem_map_of_mem hstamp)

end Broker

/-- Until a counter starts over, the queue and the marks agree. -/
theorem Run.queued {options : Options} {steps : List Step} {b : Broker}
    (run : Run (.empty options) steps b) (unwrapped : Unwrapped steps) :
    b.Queued := by
  induction run with
  | nil => exact Broker.queued_empty options
  | @snoc steps s run ih =>
    have hinit : Unwrapped steps :=
      fun s hs => unwrapped s (List.mem_append_left _ hs)
    exact (ih hinit).turn (run.numbered hinit) run.distinct s.turn

/-- Until a counter starts over, the token of a marked owner is in the queue once,
and that of any other owner is not; only owners of A2DP transports are marked, and
no token is in the queue twice. Whatever the peers answer, emptying the queue comes
to an end after one round for each token, and counts those that ended an owner: it
tears down the marked owners in the order of the queue, and leaves no token and no
mark. And an owner whose token finds no room is gone when the operation that marked
it is over. -/
theorem Run.queue_names_marked_owners {options : Options} {steps : List Step}
    {b : Broker} (run : Run (.empty options) steps b)
    (unwrapped : Unwrapped steps) :
    b.deferred.toList.Nodup ∧
      (∀ t ∈ b.transports.toList, ∀ o ∈ t.owners.toList,
        b.deferred.toList.count (t.token o.id) = o.scheduled.toNat ∧
          (o.scheduled = true → t.backend.isA2dp = true)) ∧
      (∀ (σ : Type) (peers : Peers σ) (s : σ), ∃ rounds : List (Token × Bool),
        rounds.map Prod.fst = b.deferred.toList ∧
          { b with deferred := ∅ }.Rounds rounds (b.runDeferred.run peers s).exchanges
            (b.runDeferred.run peers s).value.2 ∧
          (b.runDeferred.run peers s).value.1 = rounds.countP Prod.snd) ∧
      (∀ es n b', b.runDeferred.Yields es (n, b') →
        ∃ due, due.Sublist b.deferred.toList ∧
          (∀ token, token ∈ due ↔ ∃ t ∈ b.transports.toList, ∃ o ∈ t.owners.toList,
            o.scheduled = true ∧ t.token o.id = token) ∧
          n = due.length ∧ b.transports.Teardowns due es b'.transports ∧
          b'.deferred = ∅ ∧
          ∀ t ∈ b'.transports.toList, ∀ o ∈ t.owners.toList, o.scheduled = false) ∧
      ∀ token t success es₁ t' es₂ b', b.transports.get? token.transport = some t →
        (t.complete token.owner success).Yields es₁ (.deferred, t') →
        b.deferred.isFull = true →
        ((b.store t').defer token).Yields es₂ b' →
          b'.owner? token = none ∧ b'.deferred = b.deferred := by
  have hqueued := run.queued unwrapped
  have hnumbered := run.numbered unwrapped
  have hregistry := hqueued.registry hnumbered run.distinct
  have hstamp : ∀ {t : Transport} {o : Owner}, o ∈ t.owners.toList →
      (o.id, o.scheduled) ∈ t.stamps :=
    fun ho => List.mem_map_of_mem ho
  refine ⟨hqueued.nodup, fun t ht o ho => ⟨?_, ?_⟩, fun σ peers s => ?_,
    fun es n b' hdrain => ?_, ?_⟩
  · have hiff := (hqueued.transports t ht).marked_iff _ (hstamp ho)
    rw [hqueued.nodup.count]
    cases hmark : o.scheduled <;> simp_all
  · exact (hqueued.transports t ht).kind _ (hstamp ho)
  · exact Broker.endEach_rounds (yields_run peers b.runDeferred s)
  · have hemptied :
      ({ b with deferred := ∅ } : Broker).transports.Queued b.deferred.toList :=
        hregistry
    obtain ⟨hq, hdeferred, hn, hteardowns⟩ := Broker.endEach_teardowns hemptied hdrain
    refine ⟨_, List.filter_sublist, fun token => Broker.mem_due_iff hemptied, hn,
      hteardowns, hdeferred, ?_⟩
    intro t ht o ho
    have hiff := (hq.queued t ht).marked_iff _ (hstamp ho)
    simpa using hiff
  · intro token t success es₁ t' es₂ b' hget hcomplete hfull hdefer
    exact Broker.not_owner_of_full hnumbered hget hcomplete hfull hdefer

/-- The start for a client fails, and another client owns the transport too. -/
def Scene.failedStart : List (Script × Operation) :=
  [({}, .create speaker device []), ({}, acquire ":1" "r" 1),
    ({}, acquire ":2" "w" 2), ({}, .a2dpResumed ⟨⟨0⟩, ⟨0⟩⟩ (.failed .timeout))]

/-- A session in which one owner waits in the queue, and the drain ends that one. -/
theorem Run.failed_start_is_queued :
    ∃ steps b, Run (.empty {}) steps b ∧ Unwrapped steps ∧
      b.deferred.toList = [⟨⟨0⟩, ⟨0⟩⟩] ∧
      ∀ es n b', b.runDeferred.Yields es (n, b') → n = 1 ∧ b'.deferred = ∅ := by
  have run := Broker.run_play Script.peers (.empty {}) Scene.failedStart
  have hunwrapped :
      Unwrapped ((Broker.empty {}).play Script.peers Scene.failedStart) := by
    decide
  have hqueue :
      ((Broker.empty {}).played Script.peers Scene.failedStart).deferred.toList =
      [⟨⟨0⟩, ⟨0⟩⟩] := by
    decide
  have hmarked :
      ∃ t ∈
        ((Broker.empty {}).played Script.peers Scene.failedStart).transports.toList,
      ∃ o ∈ t.owners.toList, o.scheduled = true ∧ t.token o.id = ⟨⟨0⟩, ⟨0⟩⟩ := by
    decide
  obtain ⟨-, -, -, hdrain, -⟩ := run.queue_names_marked_owners hunwrapped
  refine ⟨_, _, run, hunwrapped, hqueue, fun es n b' h => ?_⟩
  obtain ⟨due, hsub, hmem, hn, -, hempty, -⟩ := hdrain es n b' h
  refine ⟨?_, hempty⟩
  -- at most one token is due, as the queue has only one, and at least this one
  have hle := hsub.length_le
  have hpos := List.length_pos_of_mem ((hmem _).mpr hmarked)
  rw [hqueue, List.length_singleton] at hle
  omega

end AudioBroker
