import AudioBroker.Proofs.Broker.Deed

/-!
# Operations on different transports

What an operation leaves of its transport is stored under its number, and does not
get in the way of what is stored under another number. An owner that is marked may
be put into the queue or be torn down at once, as the queue has room; by the time
the queue has been emptied it makes no difference.

- `Registry.put_comm`, `Registry.swept_put`, `Registry.put_put_perm`: what is stored
  under two numbers.
- `Broker.target?_of_apart`: an operation finds its transport as before.
- `Deed.Settled.swept`, `Deed.Settled.calls`, `Deed.Settled.marks`,
  `Deed.Settled.length`: a settlement, seen from the emptied queue.
- `Broker.Settles.in_a_row`: two deeds in a row, and `Broker.Settles.agree`: two
  deeds in either order.
-/

namespace AudioBroker

open Dialogue

/-! ### What is stored under two numbers -/

namespace Registry

variable {r : Registry} {id id' : TransportId} {left left' : Option Transport}
  {t t' : Transport}

/-- What is left takes the place of the transport with the number. -/
theorem toList_put (hleft : ∀ t ∈ left, t.id = id) :
    (r.put id left).toList = r.toList.flatMap fun u =>
      if u.id = id then left.toList else [u] := by
  cases left with
  | none =>
    rw [put, erase, BoundedList.toList_filter]
    induction r.toList with
    | nil => rfl
    | cons u us ih =>
      rw [List.flatMap_cons, ← ih, List.filter_cons]
      by_cases hid : u.id = id <;> simp [hid]
  | some t =>
    have hid := hleft t rfl
    rw [put, replace, BoundedList.toList_map, hid, List.map_eq_flatMap]
    congr 1
    funext u
    by_cases hu : u.id = id <;> simp [hu]

/-- What is stored under one number has no other number. -/
theorem toList_left_of_ne (left' : Option Transport) (h : ∀ t ∈ left, t.id ≠ id) :
    (left.toList.flatMap fun u => if u.id = id then left'.toList else [u]) =
      left.toList := by
  cases left with
  | none => rfl
  | some t => simp [h t rfl]

/-- What is stored under different numbers is stored in any order. -/
theorem put_comm (hne : id ≠ id') (hleft : ∀ t ∈ left, t.id = id)
    (hleft' : ∀ t ∈ left', t.id = id') :
    (r.put id left).put id' left' = (r.put id' left').put id left := by
  refine BoundedList.ext ?_
  rw [toList_put hleft', toList_put hleft, toList_put hleft, toList_put hleft',
    List.flatMap_assoc, List.flatMap_assoc]
  congr 1
  funext u
  -- the transport has one of the two numbers, or neither of them
  by_cases hu : u.id = id
  · have hfirst := toList_left_of_ne left' fun t ht => (hleft t ht).symm ▸ hne
    simp [hu, hne, hfirst]
  · by_cases hu' : u.id = id'
    · have hsecond := toList_left_of_ne left fun t ht => (hleft' t ht).symm ▸ hne.symm
      simp [hu', hne.symm, hsecond]
    · simp [hu, hu']

/-- What is stored under one number and dropped under another can be done in either
order. -/
theorem erase_put_comm (hne : id ≠ id') (hleft : ∀ t ∈ left, t.id = id) :
    (r.put id left).erase id' = (r.erase id').put id left := by
  have hput : (r.put id left).put id' none = (r.put id' none).put id left :=
    put_comm hne hleft (by simp)
  exact hput

theorem erase_comm (hne : id ≠ id') :
    (r.erase id).erase id' = (r.erase id').erase id := by
  have hput : (r.put id none).erase id' = (r.erase id').put id none :=
    erase_put_comm hne (by simp)
  exact hput

/-- Emptying the queue changes no number. -/
theorem swept_left (hleft : ∀ t ∈ left, t.id = id) :
    ∀ t ∈ left.map Transport.swept, t.id = id := by
  intro t ht
  obtain ⟨u, hu, rfl⟩ := Option.map_eq_some_iff.mp ht
  exact hleft u hu

/-- The queue is emptied before something is stored or afterwards. -/
theorem swept_put (hleft : ∀ t ∈ left, t.id = id) :
    (r.put id left).swept = r.swept.put id (left.map Transport.swept) := by
  refine BoundedList.ext ?_
  rw [toList_put (swept_left hleft), swept, swept, BoundedList.toList_map,
    BoundedList.toList_map, toList_put hleft, List.map_flatMap, List.flatMap_map]
  congr 1
  funext u
  show List.map Transport.swept _ = if u.id = id then _ else _
  by_cases hu : u.id = id
  · rw [if_pos hu, if_pos hu]
    cases left <;> rfl
  · rw [if_neg hu, if_neg hu]
    rfl

theorem Distinct.put (hd : r.Distinct) (id : TransportId) (left : Option Transport) :
    (r.put id left).Distinct := by
  cases left with
  | none => exact hd.erase id
  | some t => exact hd.replace t

/-- A registry around the transport in whose place something is stored. -/
theorem put_around (hd : r.Distinct) (live : r.get? t.id = some t) :
    ∃ pre post, r.toList = pre ++ t :: post ∧ (r.erase t.id).toList = pre ++ post ∧
      ∀ left, (∀ t' ∈ left, t'.id = t.id) →
        (r.put t.id left).toList = pre ++ (left.toList ++ post) := by
  obtain ⟨pre, post, hl, herase, -, hreplace⟩ := hd.exists_around live
  refine ⟨pre, post, hl, herase, fun left hleft => ?_⟩
  cases left with
  | none => exact herase
  | some t' => exact hreplace t' (hleft t' rfl)

/-- What is stored stands beside the other transports, in some order. -/
theorem put_perm (hd : r.Distinct) (live : r.get? t.id = some t)
    (hleft : ∀ t' ∈ left, t'.id = t.id) :
    (r.put t.id left).toList.Perm (left.toList ++ (r.erase t.id).toList) := by
  obtain ⟨pre, post, -, herase, hput⟩ := put_around hd live
  rw [hput left hleft, herase]
  exact List.perm_append_comm_assoc pre left.toList post

/-- What is stored under two numbers, and the transports with other numbers. -/
theorem put_put_perm (hd : r.Distinct) (live : r.get? t.id = some t)
    (live' : r.get? t'.id = some t') (hne : t.id ≠ t'.id)
    (hleft : ∀ u ∈ left, u.id = t.id) (hleft' : ∀ u ∈ left', u.id = t'.id) :
    ((r.put t.id left).put t'.id left').toList.Perm
      (left.toList ++ (left'.toList ++ ((r.erase t.id).erase t'.id).toList)) := by
  -- the second one is stored in a registry from which it was dropped before
  have hsecond := put_perm (hd.put t.id left)
    ((get?_put_of_ne hleft hne.symm).trans live') hleft'
  have hfirst := put_perm (hd.erase t'.id) ((get?_erase_of_ne r hne).trans live) hleft
  rw [erase_put_comm hne hleft] at hsecond
  rw [erase_comm hne.symm] at hfirst
  exact (hsecond.trans (hfirst.append_left _)).trans
    (List.perm_append_comm_assoc left'.toList left.toList _)

/-- A transport at another path is found as before. -/
theorem find?_put_of_ne {path : String} (hd : r.Distinct)
    (live : r.get? t.id = some t) (hleft : ∀ t' ∈ left, t'.terms = t.terms)
    (hne : ∀ u, r.find? path = some u → u.id ≠ t.id) :
    (r.put t.id left).find? path = r.find? path := by
  obtain ⟨pre, post, hl, -, hput⟩ := put_around hd live
  have hleft' := hput left fun t' ht' => Transport.id_eq_of_terms (hleft t' ht')
  simp only [find?, hl, hleft', List.find?_append] at hne ⊢
  cases hpre : pre.find? fun u => u.path.str == path with
  | some u => rfl
  | none =>
    -- neither the transport nor what is left of it is at the path
    have hpath : (t.path.str == path) = false := by
      by_contra hhere
      refine hne t ?_ rfl
      rw [hpre, List.find?_cons_of_pos (by simpa using hhere)]
      rfl
    have hnone : (left.toList.find? fun u => u.path.str == path) = none := by
      rw [List.find?_eq_none]
      intro t' ht'
      rw [Transport.path_eq_of_terms (hleft t' (Option.mem_toList.mp ht')), hpath]
      exact Bool.false_ne_true
    rw [hnone, List.find?_cons_of_neg (by simp [hpath])]
    rfl

end Registry

/-! ### What an operation on another transport finds -/

namespace Broker

variable {b b' : Broker} {op : Operation} {t : Transport} {left : Option Transport}

/-- A change of one transport does not change which of the others an operation
names, as paths stay. -/
theorem addressee?_of_apart (hd : b.transports.Distinct)
    (live : b.transports.get? t.id = some t)
    (hleft : ∀ t' ∈ left, t'.terms = t.terms)
    (hb : b'.transports = b.transports.put t.id left)
    (hne : op.addressee? b ≠ some t.id) : op.addressee? b' = op.addressee? b := by
  -- a path finds what it found, as none of the paths has changed
  have hat : ∀ path, b.idAt? path ≠ some t.id → b'.idAt? path = b.idAt? path := by
    intro path hpath
    rw [idAt?, hb, Registry.find?_put_of_ne hd live hleft fun u hu hid => hpath ?_,
      idAt?]
    rw [idAt?, hu, Option.map_some, hid]
  cases op with
  | acquire path _ _ _ | release path _ _ | properties path | setProperty path _ _
  | dispatch path _ _ _ =>
    exact hat path hne
  | handle event =>
    cases event with
    | call path _ _ _ => exact hat path.str hne
    | exited _ | a2dpResumed _ _ | voiceConnected _ _ | delayed _ _ => rfl
  | create _ _ _ | runDeferred | remove _ | exit _ | a2dpResumed _ _
  | voiceConnected _ _ | reportDelay _ _ =>
    rfl

/-- An operation on another transport leaves it where it was. -/
theorem target?_of_apart (hd : b.transports.Distinct)
    (live : b.transports.get? t.id = some t)
    (hleft : ∀ t' ∈ left, t'.terms = t.terms)
    (hb : b'.transports = b.transports.put t.id left)
    (hne : op.addressee? b ≠ some t.id) : op.target? b' = op.target? b := by
  rw [Operation.target?, Operation.target?, addressee?_of_apart hd live hleft hb hne]
  cases hid : op.addressee? b with
  | none => rfl
  | some id =>
    have hother : id ≠ t.id := fun heq => hne (heq ▸ hid)
    show b'.transports.get? id = b.transports.get? id
    rw [hb]
    exact Registry.get?_put_of_ne
      (fun t' ht' => Transport.id_eq_of_terms (hleft t' ht')) hother

end Broker

/-! ### A settlement, seen from the emptied queue -/

namespace Deed.Settled

variable {α : Type} {d : Deed α} {queue deferred : BoundedList Token maxDeferred}
  {es : List Exchange} {left : Option Transport}

/-- No token is given out. -/
theorem untold (h : d.Settled queue es left deferred) : Untold es := by
  cases h with
  | kept _ | queued _ _ => exact untold_nil
  | full _ _ _ _ _ parting =>
    exact untold_of_calls parting (Transport.partingCalls_untold _ _)

/-- Who is torn down at once would be torn down later. -/
theorem swept (h : d.Settled queue es left deferred) :
    left.map Transport.swept = d.left.map Transport.swept := by
  cases h with
  | kept _ | queued _ _ => rfl
  | full left _ _ owner scheduled _ =>
    rw [left, Option.map_some, Option.map_some,
      Transport.swept_without owner scheduled]

/-- What is said at once would be said later. -/
theorem calls (h : d.Settled queue es left deferred) :
    (es.map Exchange.call ++ left.toList.flatMap Transport.sweepCalls).Perm
      (d.left.toList.flatMap Transport.sweepCalls) := by
  cases h with
  | kept _ | queued _ _ => exact .refl _
  | full left _ _ owner scheduled parting =>
    rw [left, parting]
    simpa using Transport.sweepCalls_without owner scheduled

/-- Who is marked waits in the queue, unless there is no room. -/
theorem length (h : d.Settled queue es left deferred) :
    deferred.toList.length = min
      (queue.toList.length + d.marked.toList.length) maxDeferred := by
  have hle := queue.length_le
  cases h with
  | kept nobody =>
    rw [nobody, Option.toList_none, List.length_nil]
    omega
  | queued marked push =>
    obtain ⟨hroom, hpush⟩ := BoundedList.push?_eq_some_iff.mp push
    rw [marked, hpush, List.length_append, Option.toList_some, List.length_singleton]
    omega
  | full _ marked full _ _ _ =>
    rw [marked, BoundedList.push?_eq_none_iff.mp full, Option.toList_some,
      List.length_singleton]
    omega

/-- Who is torn down at once is one less to be torn down later. -/
theorem marks (h : d.Settled queue es left deferred) :
    (d.left.toList.map Transport.marks).sum = (left.toList.map Transport.marks).sum +
      (queue.toList.length + d.marked.toList.length - maxDeferred) := by
  have hle := queue.length_le
  cases h with
  | kept nobody =>
    rw [nobody, Option.toList_none, List.length_nil]
    omega
  | queued marked push =>
    obtain ⟨hroom, -⟩ := BoundedList.push?_eq_some_iff.mp push
    rw [marked, Option.toList_some, List.length_singleton]
    omega
  | full left marked full owner scheduled _ =>
    have hmarks := Transport.marks_without owner scheduled
    rw [left, marked, BoundedList.push?_eq_none_iff.mp full]
    simp [hmarks]

end Deed.Settled

/-! ### Two deeds in either order -/

namespace Broker

variable {α β : Type} {d₁ : Deed α} {d₂ : Deed β} {b b' b₁ b₂ b₁' b₂' : Broker}
  {op₁ op₂ : Operation} {t₁ t₂ : Transport} {es₁ es₂ es₁' es₂' : List Exchange}

theorem Settles.untold {d : Deed α} {t : Transport} {es : List Exchange}
    {op : Operation} (h : b.Settles op t d es b') : Untold es := by
  cases h with
  | stored settled _ => exact settled.untold

/-- An operation on another transport finds it where it was. -/
theorem Settles.target?_of_apart {d : Deed α} {t : Transport} {es : List Exchange}
    {op op' : Operation} (h : b.Settles op t d es b') (hd : b.transports.Distinct)
    (live : b.transports.get? t.id = some t) (hne : op'.addressee? b ≠ some t.id) :
    op'.target? b' = op'.target? b := by
  cases h with
  | stored _ terms => exact Broker.target?_of_apart hd live terms rfl hne

/-- A request for access uses up a number, and nothing else does. -/
theorem Settles.nextOwner_eq {d : Deed α} {t : Transport} {es : List Exchange}
    {op : Operation} (h : b.Settles op t d es b') :
    b'.nextOwner = if op.isAcquire then b.nextOwner.next else b.nextOwner := by
  cases h with
  | stored _ _ => rfl

theorem Settles.left_id {d : Deed α} {t : Transport} {es : List Exchange}
    {op : Operation} (h : b.Settles op t d es b') :
    ∀ u ∈ d.left.map Transport.swept, u.id = t.id := by
  cases h with
  | stored settled terms =>
    rw [← settled.swept]
    exact Registry.swept_left fun u hu => Transport.id_eq_of_terms (terms u hu)

/-- What is left of both transports is stored, beside the transports that neither
names. -/
theorem Settles.stored_in_a_row (hd : b.transports.Distinct)
    (live₁ : b.transports.get? t₁.id = some t₁)
    (live₂ : b.transports.get? t₂.id = some t₂) (hne : t₁.id ≠ t₂.id)
    (first : b.Settles op₁ t₁ d₁ es₁ b₁) (next : b₁.Settles op₂ t₂ d₂ es₂ b₂) :
    ∃ l₁ l₂ q₁, d₁.Settled b.deferred es₁ l₁ q₁ ∧ d₂.Settled q₁ es₂ l₂ b₂.deferred ∧
      b₂.transports.toList.Perm
        (l₁.toList ++ (l₂.toList ++
          ((b.transports.erase t₁.id).erase t₂.id).toList)) ∧
      b₂.transports.swept = (b.transports.swept.put t₁.id
        (l₁.map Transport.swept)).put t₂.id (l₂.map Transport.swept) := by
  obtain @⟨l₁, q₁, settled₁, terms₁⟩ := first
  obtain @⟨l₂, q₂, settled₂, terms₂⟩ := next
  have hid₁ : ∀ u ∈ l₁, u.id = t₁.id :=
    fun u hu => Transport.id_eq_of_terms (terms₁ u hu)
  have hid₂ : ∀ u ∈ l₂, u.id = t₂.id :=
    fun u hu => Transport.id_eq_of_terms (terms₂ u hu)
  refine ⟨l₁, l₂, q₁, settled₁, settled₂,
    Registry.put_put_perm hd live₁ live₂ hne hid₁ hid₂, ?_⟩
  show ((b.transports.put t₁.id l₁).put t₂.id l₂).swept = _
  rw [Registry.swept_put hid₂, Registry.swept_put hid₁]

/-- Two deeds in a row, seen from the emptied queue: what is stored, what was said
and is still to be said, and how many owners are still marked. Only their number
tells what room there was in the queue. -/
theorem Settles.in_a_row (hd : b.transports.Distinct)
    (live₁ : b.transports.get? t₁.id = some t₁)
    (live₂ : b.transports.get? t₂.id = some t₂) (hne : t₁.id ≠ t₂.id)
    (first : b.Settles op₁ t₁ d₁ es₁ b₁) (next : b₁.Settles op₂ t₂ d₂ es₂ b₂) :
    b₂.transports.swept = (b.transports.swept.put t₁.id
        (d₁.left.map Transport.swept)).put t₂.id (d₂.left.map Transport.swept) ∧
      (es₁.map Exchange.call ++ (es₂.map Exchange.call ++
        b₂.transports.sweepCalls)).Perm
        (d₁.left.toList.flatMap Transport.sweepCalls ++
          (d₂.left.toList.flatMap Transport.sweepCalls ++
          ((b.transports.erase t₁.id).erase t₂.id).sweepCalls)) ∧
      (d₁.left.toList.map Transport.marks).sum +
          (d₂.left.toList.map Transport.marks).sum +
          ((b.transports.erase t₁.id).erase t₂.id).marks =
        b₂.transports.marks + (b.deferred.toList.length + d₁.marked.toList.length +
          d₂.marked.toList.length - maxDeferred) := by
  obtain ⟨l₁, l₂, q₁, settled₁, settled₂, stored, swept⟩ :=
    stored_in_a_row hd live₁ live₂ hne first next
  refine ⟨?_, ?_, ?_⟩
  · rw [swept, settled₁.swept, settled₂.swept]
  · -- what the first deed said, the second one and the drain, counted call by call
    have hcalls := List.perm_iff_count.mp (stored.flatMap_right Transport.sweepCalls)
    rw [List.perm_iff_count]
    intro c
    have hc := hcalls c
    have hfirst := List.perm_iff_count.mp settled₁.calls c
    have hnext := List.perm_iff_count.mp settled₂.calls c
    simp only [Registry.sweepCalls, List.flatMap_append, List.count_append]
      at hc hfirst hnext ⊢
    omega
  · have hmarks := (stored.map Transport.marks).sum_eq
    have hfirst := settled₁.marks
    have hnext := settled₂.marks
    have hlength := settled₁.length
    have hle := b.deferred.length_le
    simp only [List.map_append, List.sum_append] at hmarks
    rw [Registry.marks, Registry.marks]
    omega

/-- Two deeds on different transports, only one of which may be a request for
access: whatever the room in the queue was in between, it comes to the same once the
queue is emptied. -/
theorem Settles.agree (hd : b.transports.Distinct)
    (live₁ : b.transports.get? t₁.id = some t₁)
    (live₂ : b.transports.get? t₂.id = some t₂) (hne : t₁.id ≠ t₂.id)
    (hop : op₂.isAcquire = false) (first : b.Settles op₁ t₁ d₁ es₁ b₁)
    (next : b₁.Settles op₂ t₂ d₂ es₂ b₂) (first' : b.Settles op₂ t₂ d₂ es₂' b₁')
    (next' : b₁'.Settles op₁ t₁ d₁ es₁' b₂') :
    { b₂ with transports := b₂.transports.swept, deferred := ∅ } =
        { b₂' with transports := b₂'.transports.swept, deferred := ∅ } ∧
      (es₁.map Exchange.call ++ (es₂.map Exchange.call ++
        b₂.transports.sweepCalls)).Perm
        (es₂'.map Exchange.call ++
          (es₁'.map Exchange.call ++ b₂'.transports.sweepCalls)) ∧
      b₂.transports.marks = b₂'.transports.marks := by
  obtain ⟨hswept, hcalls, hmarks⟩ := Settles.in_a_row hd live₁ live₂ hne first next
  obtain ⟨hswept', hcalls', hmarks'⟩ :=
    Settles.in_a_row hd live₂ live₁ hne.symm first' next'
  have hrest := Registry.erase_comm (r := b.transports) hne
  rw [← hrest] at hcalls' hmarks'
  -- the two put into different places, and so they commute
  have hsame : b₂.transports.swept = b₂'.transports.swept := by
    rw [hswept, hswept']
    exact Registry.put_comm hne first.left_id first'.left_id
  refine ⟨?_, hcalls.trans ((List.perm_append_comm_assoc _ _ _).trans hcalls'.symm),
    by omega⟩
  rw [hsame]
  cases first
  cases next
  cases first'
  cases next'
  simp only [hop, Bool.false_eq_true, if_false]

end Broker

end AudioBroker
