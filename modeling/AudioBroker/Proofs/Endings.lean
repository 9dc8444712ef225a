import AudioBroker.Proofs.Broker.Drain
import AudioBroker.Proofs.Completion
import AudioBroker.Proofs.Release
import AudioBroker.Proofs.Transport.Admission

/-!
# How owners end

An owner ends when its client gives back all that it holds or leaves, when its start
comes to nothing and it cannot wait in the queue, when the queue is emptied after it
was marked, and when its transport is withdrawn. In each of these ways, and in
whatever stage it is, the same calls are made in the same order, and its transport
is left without it.

- `Exchange.delivers`: a descriptor that came to its client.
- `Broker.Dooms`: what brings an owner to its end.
- `Broker.Ending`: what is said then, and what is left; `Broker.Dooms.ending`: so it
  is in each of the ways.
- `Broker.dooms_of_gone`: there is no other way.
- `Run.owners_end_alike`: all of this, in every state that can be reached.
-/

namespace AudioBroker

open Dialogue

/-! ### A descriptor that came to its client -/

/-- A descriptor that was sent and delivered. -/
def Exchange.delivers : Exchange → Bool
  | ⟨.reply _ (.descriptor _), delivery⟩ => decide (delivery = .delivered)
  | _ => false

theorem Exchange.delivers_eq (e : Exchange) :
    e.delivers = e.sending?.any fun s => decide (s.delivery = .delivered) := by
  obtain ⟨c, answer⟩ := e
  cases c with
  | reply call reply => cases reply <;> rfl
  | _ => rfl

/-- Deliveries can be looked for among what was sent. -/
theorem exists_delivers_iff {es : List Exchange} :
    (∃ e ∈ es, e.delivers = true) ↔ ∃ s ∈ sendings es, s.delivery = .delivered := by
  simp only [Exchange.delivers_eq, Option.any_eq_true, decide_eq_true_eq, sendings,
    List.mem_filterMap]
  constructor
  · rintro ⟨e, he, s, hs, hdelivered⟩
    exact ⟨s, ⟨e, he, hs⟩, hdelivered⟩
  · rintro ⟨s, ⟨e, he, hs⟩, hdelivered⟩
    exact ⟨e, he, s, hs, hdelivered⟩

/-- Nothing is delivered where nothing is sent. -/
theorem Unsent.delivers_eq {es : List Exchange} (h : Unsent es) :
    ∀ e ∈ es, e.delivers = false := by
  intro e he
  by_contra hdelivers
  obtain ⟨s, hs, -⟩ := exists_delivers_iff.mp ⟨e, he, by simpa using hdelivers⟩
  rw [h.sendings_eq] at hs
  cases hs

namespace Transport

variable {t t' : Transport} {departed : Bool} {o : Owner} {es : List Exchange}

/-- The end of an owner delivers nothing. -/
theorem Ends.delivers_eq (h : t.Ends departed o es t') :
    ∀ e ∈ es, e.delivers = false := by
  obtain @⟨pre, post, owners, key, _, -, -, -, -, calls⟩ := h
  refine (unsent_of_calls calls fun c hc => ?_).delivers_eq
  rw [List.mem_append] at hc
  rcases hc with hc | hc
  · cases departed with
    | true =>
      exact o.depart.sends_partingCalls t.backend t.device c
        (o.closing_true t.backend t.device ▸ hc)
    | false =>
      exact o.sends_partingCalls t.backend t.device c
        (o.closing_false t.backend t.device ▸ hc)
  · split at hc
    · rw [List.mem_singleton.mp hc]
      cases key <;> rfl
    · cases hc

/-- A request for access puts no owner out. -/
theorem acquire_names {client text : String} {call : PendingCall} {id : OwnerId}
    {result : Except Rejection Unit} {name : ClientName}
    (h : (t.acquire client text call id).Yields es (result, t'))
    (hname : name ∈ t.owners.toList.map Owner.name) :
    name ∈ t'.owners.toList.map Owner.name := by
  rcases acquire_cases h with ⟨fault, -, -, -, rfl⟩ | ⟨n, access, hadmitted, -, htake⟩
  · exact hname
  · have room := room_of_admission hadmitted
    obtain ⟨watch, es₁, start, es₂, -, -, hcase⟩ := takeOn_cases htake
    rcases hcase with ⟨-, -, rfl⟩ | ⟨-, -, rfl⟩
    · rw [started_eq room, List.map_append]
      exact List.mem_append_left _ hname
    · rw [toList_owners_without, ← BoundedList.toList_eraseIdx, started_eraseIdx room]
      exact hname

/-- How far a reported end of a start got can be seen from whether a descriptor was
delivered. -/
theorem Tried.delivers_iff {call : PendingCall} {success : Bool}
    {stream : Option Stream} {sent : Option Delivery}
    (h : t.Tried call success es stream sent) :
    (∃ e ∈ es, e.delivers = true) ↔ sent = some .delivered := by
  obtain ⟨fd, hsent⟩ := h.sendings_eq
  rw [exists_delivers_iff, hsent]
  cases sent <;> simp

end Transport

/-! ### The ways in which an owner ends -/

namespace Broker

variable {b b' : Broker} {op : Operation} {t t' : Transport} {o : Owner}
  {es : List Exchange}

/-- What brings an owner `o` of the transport `t` to its end: an operation, and what
is said in it. -/
inductive Dooms (b : Broker) (t : Transport) (o : Owner) :
    Operation → List Exchange → Prop where
  /-- Its client gives back all that it holds. -/
  | release {path text : String} {es : List Exchange}
      (here : b.transports.find? path = some t)
      (all : Access.parse? text = some o.access) :
        Dooms b t o (.release path o.name.str text) es
  /-- Its client left. -/
  | exit {token : Token} {es : List Exchange} (here : token.transport = t.id)
      (names : b.owner? token = some o) : Dooms b t o (.exit token) es
  /-- Its start has ended, and no descriptor comes to its client. An A2DP owner goes
  on for a while, unless the queue is full. -/
  | report {op : Operation} {r : Report} {es : List Exchange}
      (report : op.report? = some r)
      (here : r.token.transport = t.id) (layer : t.backend.isA2dp = r.isA2dp)
      (names : b.owner? r.token = some o) (waits : o.awaits = true)
      (now : r.isA2dp = true → b.deferred.isFull = true)
      (undelivered : ∀ e ∈ es, e.delivers = false) :
      Dooms b t o op es
  /-- It is marked, and the queue is emptied. -/
  | drain {es : List Exchange} (marked : o.scheduled = true) :
      Dooms b t o .runDeferred es
  /-- Its transport is withdrawn. -/
  | remove {es : List Exchange} : Dooms b t o (.remove t.id) es

/-- What is said in an operation that brings an owner `o` of the transport `t` to
its end, and the broker that is left. -/
inductive Ending (b : Broker) (t : Transport) (o : Owner) :
    Operation → List Exchange → Broker → Prop where
  | released {path client text : String} {t' : Transport} {es : List Exchange}
      (ends : t.Ends false o es t') :
      Ending b t o (.release path client text) es (b.store t')
  | left {token : Token} {t' : Transport} {es : List Exchange}
      (ends : t.Ends true o es t') : Ending b t o (.exit token) es (b.store t')
  /-- The end of its start has left it nothing to abort, and its call is spent if a
  reply was sent. -/
  | failed {op : Operation} {r : Report} {call : PendingCall} {es es' : List Exchange}
      {stream : Option Stream} {sent : Option Delivery} {pre post : List Owner}
      {owners : BoundedList Owner maxOwners} {t' : Transport}
      (report : op.report? = some r)
      (unspent : o.unspent? = some call)
      (tried : t.Tried call r.success es stream sent)
      (undelivered : sent ≠ some .delivered)
      (here : t.owners.toList = pre ++ o :: post)
      (concluded : owners.toList = pre ++ o.concluded call sent :: post)
      (ends : { t with stream, owners }.Ends false (o.concluded call sent) es' t') :
      Ending b t o op (es ++ es') (b.store t')
  /-- All marked owners end, each of them once. -/
  | drained {gone : List (TransportId × Owner)} {r' : Registry} {es : List Exchange}
      (member : (t.id, o) ∈ gone) (all : gone.Perm b.transports.marked)
      (ends : b.transports.EndsEach gone es r') :
      Ending b t o .runDeferred es { b with transports := r', deferred := ∅ }
  /-- All owners of the transport end. -/
  | withdrawn {t' : Transport} {es es' : List Exchange}
      (ends : t.EndsEach t.owners.toList es t')
      (closing : es'.map Exchange.call = t.backend.closeCalls) :
      Ending b t o (.remove t.id) (⟨.unregister t.path, ()⟩ :: (es ++ es'))
        { b with transports := b.transports.erase t.id }

/-- An owner whose start has come to nothing ends after what its start has left of
it. -/
theorem concluded_ends {pre post : List Owner} {call : PendingCall}
    {sent : Option Delivery} {owners : BoundedList Owner maxOwners}
    (stream : Option Stream) (engaged : t.Engaged) (shared : t.Shared)
    (howners : t.owners.toList = pre ++ o :: post)
    (gone : owners.toList = pre ++ post)
    (parting : es.map Exchange.call = o.watch.toList.map .unwatch ++
      (if sent = none then [.reply call (.failure .resumeFailed)] else []) ++
        if owners.isEmpty then t.backend.unlockCalls t.inUse t.device else []) :
    ∃ owners₁ : BoundedList Owner maxOwners,
      owners₁.toList = pre ++ o.concluded call sent :: post ∧
      { t with stream, owners := owners₁ }.Ends false (o.concluded call sent) es
        { t with stream, owners, locks := t.locks \ o.access,
                 inUse := t.inUse && !owners.isEmpty } := by
  have ho : o ∈ t.owners.toList := by simp [howners]
  obtain ⟨hin, key, hheld, hkey⟩ := engaged.held ho
  have htaken : o.access ⊆ t.locks := shared.access_subset ho
  have hconcluded :
      (t.owners.modify pre.length fun o => o.concluded call sent).toList =
      pre ++ o.concluded call sent :: post := by
    rw [BoundedList.toList_modify, howners, BoundedList.modify_around]
  rw [hin, Backend.unlockCalls_of_held hkey,
    ← Owner.partingCalls_concluded (o := o) t.backend t.device,
    ← Owner.closing_false] at parting
  have hin' : (t.inUse && !owners.isEmpty) = !owners.isEmpty := by
    rw [hin, Bool.true_and]
  rw [hin']
  exact ⟨_, hconcluded, .intro hconcluded gone hheld htaken parting⟩

/-- So it ends if no descriptor came to its client, and it could not be put into the
queue. -/
theorem Completed.ending {r : Report} {pre post : List Owner} {call : PendingCall}
    {queued : Option Owner} (engaged : t.Engaged) (shared : t.Shared)
    (report : op.report? = some r) (howners : t.owners.toList = pre ++ o :: post)
    (unspent : o.unspent? = some call)
    (now : r.isA2dp = true → b.deferred.isFull = true)
    (undelivered : ∀ e ∈ es, e.delivers = false)
    (h : b.Completed r t pre o post call es b' queued) : b.Ending t o op es b' := by
  cases h with
  | delivered tried _ =>
    obtain ⟨e, he, hdelivers⟩ := tried.delivers_iff.mpr rfl
    rw [undelivered e he] at hdelivers
    cases hdelivers
  | @queued _ stream sent owners deferred tried _ later _ last =>
    have hfull : b.deferred.toList.length = maxDeferred :=
      BoundedList.isFull_iff.mp (now later)
    have hle := deferred.length_le
    rw [last, List.length_append, List.length_singleton] at hle
    omega
  | ended tried hundelivered _ gone parting =>
    obtain ⟨owners₁, hconcluded, hends⟩ :=
      concluded_ends _ engaged shared howners gone parting
    exact .failed report unspent tried hundelivered howners hconcluded hends

/-- An owner that is found under a token, and the place where it is. -/
theorem owner_around {token : Token} (live : b.transports.get? t.id = some t)
    (here : token.transport = t.id) (names : b.owner? token = some o) :
    ∃ pre post, t.owner? token.owner = some (pre.length, o) ∧
      t.owners.toList = pre ++ o :: post ∧
      o.id = token.owner ∧ ∀ u ∈ pre, u.id ≠ token.owner := by
  rw [owner?, here, live, Option.bind_some, Option.map_eq_some_iff] at names
  obtain ⟨⟨i, o'⟩, hfound, rfl⟩ := names
  obtain ⟨pre, post, howners, rfl, hid, hfirst⟩ :=
    Transport.locate?_eq_some_iff.mp hfound
  exact ⟨pre, post, hfound, howners, eq_of_beq hid,
    fun u hu => ne_of_beq_false (hfirst u hu)⟩

/-- In each of the ways, an owner ends as owners do. -/
theorem Dooms.ending {result : op.Result} (hd : b.transports.Distinct)
    (tracked : b.Tracked) (sound : ∀ t ∈ b.transports.toList, t.Engaged ∧ t.Shared)
    (live : b.transports.get? t.id = some t) (ho : o ∈ t.owners.toList)
    (answerable : o.Answerable) (dooms : b.Dooms t o op es)
    (h : (b.perform op).Yields es (result, b')) : b.Ending t o op es b' := by
  have hlive := (Registry.get?_eq_some live).1
  obtain ⟨engaged, shared⟩ := sound t hlive
  cases dooms with
  | @release path text _ here all =>
    obtain ⟨pre, post, howners⟩ := List.append_of_mem ho
    have hwent : (b.release path o.name.str text).Yields es (result, b') := h
    rw [release_eq hd here,
      Transport.release_of_all (shared.ownerOf?_eq howners rfl) all] at hwent
    simp only [bind_assoc, pure_bind] at hwent
    obtain ⟨hcalls, heq⟩ := yields_makeAll_pure.mp hwent
    cases heq
    exact .released (Transport.ends_of_parting engaged shared
      (by simp [howners]) hcalls)
  | @exit token _ here names =>
    obtain ⟨pre, post, hfound, howners, -, -⟩ := owner_around live here names
    -- the transport is live and the owner in it, so the other outcomes are excluded
    rcases exit_cases h with ⟨hnone, -⟩ | ⟨u, t', hget, hexit, rfl⟩
    · rw [here, live] at hnone
      cases hnone
    · rw [here, live] at hget
      obtain rfl := Option.some.inj hget
      rcases Transport.exit_cases hexit
        with ⟨hnone, -⟩ | ⟨i, o', hfound', -, hcalls, rfl⟩
      · rw [hfound] at hnone
        cases hnone
      · rw [hfound] at hfound'
        cases hfound'
        exact .left (Transport.ends_of_departed engaged shared
          (by simp [howners]) hcalls)
  | @report _ r _ report here layer names waits now undelivered =>
    obtain ⟨pre, post, -, howners, hid, hfirst⟩ := owner_around live here names
    -- what the owner waits with is its own unanswered call
    obtain ⟨hunmarked, hpending⟩ : o.scheduled = false ∧ o.isPending = true := by
      simpa [Owner.awaits] using waits
    obtain ⟨p, hp⟩ := Option.isSome_iff_exists.mp hpending
    obtain ⟨call, hcall⟩ := Option.isSome_iff_exists.mp (answerable hpending)
    have hunspent : p.call = some call := by simpa [Owner.unspent?, hp] using hcall
    obtain ⟨queued, hcompleted⟩ :=
      report_completed (here ▸ live) layer howners hid hfirst hunmarked hp hunspent
      (Step.reported (s := ⟨b, op, es, result, b', h⟩) report)
    exact hcompleted.ending engaged shared report howners hcall now undelivered
  | drain marked =>
    obtain ⟨gone, hends, hperm⟩ := runDeferred_endsEach hd tracked sound h
    obtain ⟨hleft, -⟩ := runDeferred_sweeps hd tracked h
    have hb' : b' = { b with transports := b'.transports, deferred := ∅ } := by
      rw [hleft]
    rw [hb']
    exact .drained (hperm.mem_iff.mpr
      (Registry.mem_marked.mpr ⟨t, hlive, rfl, ho, marked⟩)) hperm hends
  | remove =>
    rcases remove_cases h with ⟨hnone, -⟩ |
      ⟨u, es₁, t', es₂, hget, -, hends, hclosing, rfl, rfl⟩
    · rw [live] at hnone
      cases hnone
    · rw [live] at hget
      obtain rfl := Option.some.inj hget
      have hendsEach := Transport.endAll_endsEach engaged shared hends
      exact .withdrawn hendsEach (hendsEach.backend_eq ▸ hclosing)

/-! ### There is no other way -/

theorem eq_of_transportAt? {path : String} {u : Transport}
    (hid : b.idAt? path = some t.id) (live : b.transports.get? t.id = some t)
    (h : b.transportAt? path = some u) : t = u := by
  rw [transportAt?, hid, Option.bind_some, live] at h
  exact Option.some.inj h

/-- A client whose owner is still there after an operation is found. -/
theorem ownerNamed?_ne_none (hget : b.transports.get? t.id = some t')
    (hname : o.name ∈ t'.owners.toList.map Owner.name) :
    b.ownerNamed? t.id o.name ≠ none := by
  obtain ⟨u, hu, heq⟩ := List.mem_map.mp hname
  have hsome : (t'.ownerOf? o.name.str).isSome = true :=
    Transport.ownerOf?_isSome_iff.mpr ⟨u, hu, congrArg Text.str heq⟩
  rw [ownerNamed?, hget, Option.bind_some, ne_eq, Option.map_eq_none_iff]
  exact Option.isSome_iff_ne_none.mp hsome

/-- An owner that is not the one taken out is still there, with its client. -/
theorem name_mem_of_ne {pre post : List Owner} {o' : Owner}
    (ho : o ∈ pre ++ o' :: post) (hne : o ≠ o') :
    o.name ∈ (pre ++ post).map Owner.name := by
  refine List.mem_map_of_mem ?_
  exact (BoundedList.mem_around.mp ho).resolve_left hne

/-- An owner that is changed has the name of its client still. -/
theorem name_mem_of_eq {pre post : List Owner} {o₁ : Owner} (o' : Owner)
    (h : o₁.name = o'.name) (hname : o.name ∈ (pre ++ o' :: post).map Owner.name) :
    o.name ∈ (pre ++ o₁ :: post).map Owner.name := by
  simpa [h] using hname

/-- A client whose owner is at the transport that was stored is found. -/
theorem ownerNamed?_ne_none_of_store (live : b.transports.get? t.id = some t)
    (stored : b'.transports = (b.store t').transports) (hid : t'.id = t.id)
    (hname : o.name ∈ t'.owners.toList.map Owner.name) :
    b'.ownerNamed? t.id o.name ≠ none := by
  refine ownerNamed?_ne_none ?_ hname
  rw [stored]
  exact get?_store live hid

/-- An operation after which an owner is gone has done something. -/
theorem ne_of_gone (live : b.transports.get? t.id = some t) (ho : o ∈ t.owners.toList)
    (gone : b'.ownerNamed? t.id o.name = none) : b' ≠ b := by
  rintro rfl
  exact ownerNamed?_ne_none live (List.mem_map_of_mem ho) gone

/-- An owner that is gone after its client has given something back held no more
than that. -/
theorem dooms_of_release {path client text : String}
    {result : (Operation.release path client text).Result}
    (hd : b.transports.Distinct) (live : b.transports.get? t.id = some t)
    (ho : o ∈ t.owners.toList) (named : b.idAt? path = some t.id)
    (h : (b.perform (.release path client text)).Yields es (result, b'))
    (gone : b'.ownerNamed? t.id o.name = none) :
    b.Dooms t o (.release path client text) es := by
  rcases release_cases h with ⟨-, -, -, rfl⟩ | ⟨u, t', hat, hrelease, rfl⟩
  · exact absurd rfl (ne_of_gone live ho gone)
  obtain rfl := eq_of_transportAt? named live hat
  have hname := List.mem_map_of_mem (f := Owner.name) ho
  have hleft : o.name ∉ t'.owners.toList.map Owner.name := fun hmem =>
    ownerNamed?_ne_none_of_store live rfl
      (Transport.release_course hrelease).id_eq hmem gone
  rcases Transport.release_cases hrelease
    with ⟨-, -, rfl⟩ | ⟨i, o', a, hfound, hparse, -, hcase⟩
  · exact absurd hname hleft
  obtain ⟨hi, rfl⟩ := Transport.ownerOf?_eq_some hfound
  obtain ⟨pre, post, howners, rfl, herase, -⟩ := BoundedList.exists_around hi
  rcases hcase with ⟨rfl, -, rfl⟩ | ⟨-, -, -, rfl⟩
  · -- the piece was all that its owner held; another owner would still be there
    by_cases heq : o = o'
    · subst heq
      exact .release ((transportAt?_eq hd path).symm.trans hat) hparse
    · rw [Transport.toList_owners_without, herase] at hleft
      exact absurd (name_mem_of_ne (howners ▸ ho) heq) hleft
  · -- a part only: every owner keeps its place and its name
    refine absurd ?_ hleft
    rw [Transport.owners_narrow howners]
    exact name_mem_of_eq o' rfl (howners ▸ hname)

/-- An owner that is gone after a client has left was the owner of that client. -/
theorem dooms_of_exit {result : Bool} {token : Token}
    (live : b.transports.get? t.id = some t) (ho : o ∈ t.owners.toList)
    (here : token.transport = t.id)
    (h : (b.perform (.exit token)).Yields es (result, b'))
    (gone : b'.ownerNamed? t.id o.name = none) :
    b.Dooms t o (.exit token) es := by
  rcases exit_cases h with ⟨-, -, -, rfl⟩ | ⟨u, t', hget, hexit, rfl⟩
  · exact absurd rfl (ne_of_gone live ho gone)
  rw [here, live] at hget
  obtain rfl := Option.some.inj hget
  have hleft : o.name ∉ t'.owners.toList.map Owner.name := fun hmem =>
    ownerNamed?_ne_none_of_store live rfl
      (Transport.exit_course hexit).id_eq hmem gone
  rcases Transport.exit_cases hexit with ⟨-, -, -, rfl⟩ | ⟨i, o', hfound, -, -, rfl⟩
  · exact absurd (List.mem_map_of_mem ho) hleft
  obtain ⟨pre, post, howners, rfl, herase, -⟩ :=
    BoundedList.exists_around (Transport.owner?_eq_some hfound).1
  by_cases heq : o = o'
  · subst heq
    refine .exit here ?_
    rw [owner?, here, live, Option.bind_some, hfound]
    rfl
  · rw [Transport.toList_owners_without, Transport.toList_owners_modifyOwner,
      List.eraseIdx_modify_of_eq, herase] at hleft
    exact absurd (name_mem_of_ne (howners ▸ ho) heq) hleft

/-- An owner that is gone after a start has ended was waiting for it, and its client
got no descriptor. -/
theorem dooms_of_report {r : Report} (hd : b.transports.Distinct)
    (engaged : t.Engaged) (shared : t.Shared)
    (answerable : ∀ t ∈ b.transports.toList, ∀ o ∈ t.owners.toList, o.Answerable)
    (live : b.transports.get? t.id = some t) (ho : o ∈ t.owners.toList)
    (report : op.report? = some r) (here : r.token.transport = t.id)
    (h : (b.report r).Yields es b') (gone : b'.ownerNamed? t.id o.name = none) :
    b.Dooms t o op es := by
  -- an unexpected report changes nothing, so that nobody would be gone
  by_cases hexpects : b.Expects r.isA2dp r.token
  swap
  · rw [report_of_not_expects hd hexpects] at h
    exact absurd (yields_pure.mp h).2 (ne_of_gone live ho gone)
  obtain ⟨u, pre, o', post, call, hget, layer, howners, hfound, hwaits, -,
      hcompletes⟩ :=
    completed_of_expects answerable hexpects
  rw [here, live] at hget
  obtain rfl := Option.some.inj hget
  obtain ⟨queued, hcompleted⟩ := hcompletes es b' h
  have hname := List.mem_map_of_mem (f := Owner.name) ho
  cases hcompleted with
  | delivered _ answered =>
    refine absurd gone (ownerNamed?_ne_none_of_store live rfl rfl ?_)
    rw [answered]
    exact name_mem_of_eq o' rfl (howners ▸ hname)
  | queued _ _ _ marked _ =>
    refine absurd gone (ownerNamed?_ne_none_of_store live rfl rfl ?_)
    rw [marked]
    exact name_mem_of_eq o' rfl (howners ▸ hname)
  | @ended es₁ es₂ _ sent _ tried undelivered now left parting =>
    -- of the three outcomes only this one takes an owner away, and only its own
    by_cases heq : o = o'
    swap
    · refine absurd gone (ownerNamed?_ne_none_of_store live rfl rfl ?_)
      rw [left]
      exact name_mem_of_ne (howners ▸ ho) heq
    subst heq
    have hfirst : b.owner? r.token = some o := by
      rw [owner?, here, live, Option.bind_some, hfound]
      rfl
    refine .report report here layer hfirst hwaits now fun e he => ?_
    obtain ⟨owners₁, -, hends⟩ :=
      concluded_ends t.stream engaged shared howners left parting
    rcases List.mem_append.mp he with he | he
    · exact Bool.eq_false_iff.mpr fun hdelivers =>
        undelivered (tried.delivers_iff.mp ⟨e, he, hdelivers⟩)
    · exact hends.delivers_eq e he

/-- An owner that is gone after an operation on one transport was brought to its end
by it. -/
theorem dooms_of_gone {result : op.Result} (hd : b.transports.Distinct)
    (sound : ∀ t ∈ b.transports.toList, t.Engaged ∧ t.Shared)
    (answerable : ∀ t ∈ b.transports.toList, ∀ o ∈ t.owners.toList, o.Answerable)
    (hop : op.isLocal = true) (live : b.transports.get? t.id = some t)
    (ho : o ∈ t.owners.toList) (h : (b.perform op).Yields es (result, b'))
    (gone : b'.ownerNamed? t.id o.name = none) :
    b.Dooms t o op es := by
  have hlive := (Registry.get?_eq_some live).1
  have hname := List.mem_map_of_mem (f := Owner.name) ho
  have hsame := ne_of_gone live ho gone
  -- an operation that names another transport leaves this one as it is
  by_cases hnames : op.addressee? b = some t.id
  swap
  · have hvisit := (local_visit hd hop h).get?_of_ne hnames
    exact absurd gone (ownerNamed?_ne_none (hvisit.trans live) hname)
  have hreported : ∀ {r : Report}, op.report? = some r → r.token.transport = t.id →
      b.Dooms t o op es :=
    fun report here => dooms_of_report hd (sound t hlive).1
      (sound t hlive).2 answerable live ho report here
      (Step.reported (s := ⟨b, op, es, result, b', h⟩) report) gone
  cases op with
  | remove id =>
    cases hnames
    exact .remove
  | acquire path client access call =>
    rcases acquire_cases h with ⟨-, -, -, rfl⟩ | ⟨u, t', hat, hacquire, rfl⟩
    · exact absurd rfl hsame
    · obtain rfl := eq_of_transportAt? hnames live hat
      exact absurd gone (ownerNamed?_ne_none_of_store live rfl
        (Transport.acquire_course hacquire).id_eq
        (Transport.acquire_names hacquire hname))
  | release path client access => exact dooms_of_release hd live ho hnames h gone
  | exit token => exact dooms_of_exit live ho (Option.some.inj hnames) h gone
  | a2dpResumed token result => exact hreported rfl (Option.some.inj hnames)
  | voiceConnected token connected => exact hreported rfl (Option.some.inj hnames)
  | properties path =>
    obtain ⟨snapshot, -, heq⟩ := yields_map.mp h
    cases heq
    exact absurd rfl hsame
  | setProperty path name value =>
    obtain ⟨-, heq⟩ := yields_pure.mp h
    cases heq
    exact absurd rfl hsame
  | reportDelay id delay =>
    rcases reportDelay_cases h with ⟨-, -, -, rfl⟩ | ⟨u, t', hget, hreport, -, rfl⟩
    · exact absurd rfl hsame
    · rw [Option.some.inj hnames, live] at hget
      obtain rfl := Option.some.inj hget
      refine absurd gone (ownerNamed?_ne_none_of_store live rfl
        (Transport.reportDelay_course hreport).id_eq ?_)
      rw [(Transport.reportDelay_announced hreport).eq]
      exact hname
  | create _ _ _ | runDeferred | dispatch _ _ _ _ | handle _ => cases hop

/-- An owner that is gone after a creation lost its transport to the new one, which
was given its number. -/
theorem displaced_of_gone {endpoint : Endpoint} {device : Device}
    {configuration : List UInt8} {result : Except Fault TransportId}
    (hd : b.transports.Distinct) (live : b.transports.get? t.id = some t)
    (ho : o ∈ t.owners.toList)
    (h : (b.create endpoint device configuration).Yields es (result, b'))
    (gone : b'.ownerNamed? t.id o.name = none) :
    t ∈ displaced (Operation.incidents b
      (.create endpoint device configuration) result) := by
  have hname := List.mem_map_of_mem (f := Owner.name) ho
  rcases create_cases h with ⟨fault, -, rfl, -⟩ |
    ⟨u, transports, hcreate, hinsert, rfl, -, rfl⟩
  · exact absurd gone (ownerNamed?_ne_none live hname)
  · rw [displaced_create, Option.mem_toList]
    -- `insert?` replaces the transport of the same number and keeps all others
    by_cases hid : t.id = u.id
    · rw [← hid]
      exact live
    · refine absurd gone (ownerNamed?_ne_none ?_ hname)
      have hadded := hinsert
      unfold Registry.insert? at hinsert
      split at hinsert
      · cases hinsert
        exact (Registry.get?_replace_of_ne _ hid).trans live
      · have hmem : t ∈ transports.toList := by
          rw [(BoundedList.push?_eq_some_iff.mp hinsert).2]
          exact List.mem_append_left _ (Registry.get?_eq_some live).1
        exact (hd.insert? hadded).get?_of_mem hmem

end Broker

section Runs

variable {options : Options} {steps : List Step} {b b' : Broker} {t : Transport}
  {o : Owner} {op : Operation} {es : List Exchange}

/-- Without owners of its name, a client owns nothing. -/
theorem Broker.ownerNamed?_eq_none {t' : Transport}
    (hget : b.transports.get? t.id = some t')
    (h : ∀ u ∈ t'.owners.toList, u.name ≠ o.name) :
    b.ownerNamed? t.id o.name = none := by
  by_contra hsome
  obtain ⟨u, hu⟩ := Option.ne_none_iff_exists'.mp hsome
  obtain ⟨t'', hget', hmem, hname⟩ := ownerNamed?_eq_some hu
  rw [hget] at hget'
  cases hget'
  exact h u hmem hname

/-- An owner that has ended is gone. -/
theorem Run.gone_of_ending {result : op.Result} (run : Run (.empty options) steps b)
    (live : t ∈ b.transports.toList) (owner : o ∈ t.owners.toList)
    (h : (b.perform op).Yields es (result, b')) (ending : b.Ending t o op es b') :
    b'.ownerNamed? t.id o.name = none := by
  have hget := run.distinct.get?_of_mem live
  have shared := run.shared t live
  cases ending with
  | released ends | left ends =>
    exact Broker.ownerNamed?_eq_none
      (Broker.get?_store hget (Transport.id_eq_of_terms ends.terms_eq))
      (ends.name_ne shared)
  | @failed _ _ call _ _ stream sent pre post owners t' _ _ _ _ here concluded ends =>
    -- settling a request changes nobody's name or access, so that `Shared` holds of
    -- the state in which the owner ends
    have hclaims : { t with stream, owners }.claims = t.claims := by
      rw [Transport.claims, Transport.claims, here, concluded, List.map_append,
        List.map_append]
      rfl
    exact Broker.ownerNamed?_eq_none
      (Broker.get?_store hget (Transport.id_eq_of_terms ends.terms_eq))
      (ends.name_ne (shared.of_claims hclaims rfl))
  | drained member all _ =>
    obtain ⟨u, hu, hid, ho, marked⟩ := Registry.mem_marked.mp (all.mem_iff.mp member)
    have hsame := run.distinct.get?_of_mem hu
    rw [hid, hget] at hsame
    obtain rfl := Option.some.inj hsame
    obtain ⟨-, -, -, -, -, hgone, -⟩ :=
      run.drain_ends_marked (Broker.ownerNamed?_of_mem hget shared owner) marked h
    exact hgone
  | withdrawn _ _ =>
    rw [Broker.ownerNamed?, Registry.get?_erase_self]
    rfl

/-- In every state of every run, an owner ends in one of five ways: its client gives
back all that it holds, or leaves; its start has ended without a descriptor for its
client, on a headset, or where the queue is full; the queue is emptied after it was
marked; or its transport is withdrawn. In each of them, and in any stage of its
life, its watch is ended, its start is aborted and its call is answered with a
failure, as far as there are such, in this order, and the first and the last only if
its client is still there; then the stream lock is given back if and only if no
other owner is left. It is gone then, its directions are free and no others, and
nothing else is changed of the transport or of the other owners. Where several
owners end at once, they do so one after another. A method call is answered after
that. An owner that is gone and did not end so lost its transport to a new one, to
which the same number was given out again. -/
theorem Run.owners_end_alike {result : op.Result} (run : Run (.empty options) steps b)
    (live : t ∈ b.transports.toList) (owner : o ∈ t.owners.toList)
    (h : (b.perform op).Yields es (result, b')) :
    ∃ result' es₁ answer,
      (b.perform op.core).Yields es₁ (result', b') ∧ es = es₁ ++ answer ∧
      answer.map Exchange.call = (op.dispatched?.toList.flatMap fun call =>
        (op.core.reply? result').toList.map (.reply call)) ∧
      (b.Dooms t o op.core es₁ →
        b.Ending t o op.core es₁ b' ∧ b'.ownerNamed? t.id o.name = none) ∧
      (b'.ownerNamed? t.id o.name = none →
        b.Dooms t o op.core es₁ ∨ t ∈ displaced (op.incidents b result)) := by
  have hget := run.distinct.get?_of_mem live
  have sound : ∀ t ∈ b.transports.toList, t.Engaged ∧ t.Shared :=
    fun t ht => ⟨run.engaged t ht, run.shared t ht⟩
  obtain ⟨result', es₁, answer, h₁, rfl, hanswer⟩ := Broker.perform_core h
  refine ⟨result', es₁, answer, h₁, rfl, hanswer, fun dooms => ?_, fun gone => ?_⟩
  · have ending := dooms.ending run.distinct run.tracked sound hget owner
      (run.answerable t live o owner) h₁
    exact ⟨ending, run.gone_of_ending live owner h₁ ending⟩
  · rcases op.core_cases with ⟨endpoint, device, configuration, rfl⟩ | rfl | hlocal
    · exact .inr (Broker.displaced_of_gone run.distinct hget owner h gone)
    · refine .inl (.drain ?_)
      by_contra hunmarked
      -- who is not marked is left
      obtain ⟨rfl, -, -⟩ := Broker.runDeferred_sweeps run.distinct run.tracked h
      have hswept : b.transports.swept.get? t.id = some t.swept := by
        rw [Registry.get?_swept, hget, Option.map_some]
      have hstays : o ∈ t.swept.owners.toList :=
        List.mem_filter.mpr ⟨owner, by simpa using hunmarked⟩
      exact Broker.ownerNamed?_ne_none hswept (List.mem_map_of_mem hstays) gone
    · exact .inl (Broker.dooms_of_gone run.distinct sound run.answerable hlocal hget
        owner h₁ gone)

/-- A client gives back all that it holds while its start is under way, by a method
call: its watch is ended, its start aborted, its first call answered with a failure,
the stream lock given back, and then its second call answered. -/
theorem Run.beginner_ends_on_release :
    ∃ steps b es b' es₁, ∃ t : Transport, ∃ o,
      Run (.empty {}) steps b ∧ o ∈ t.owners.toList ∧
      (b.perform (.dispatch "/dev/fd0" ":1" ⟨2⟩
        (.release ⟨"rw", by decide⟩))).Yields es ((), b') ∧
      es.map Exchange.call = [.unwatch ⟨1⟩, .abortStream Scene.device ⟨1, by decide⟩,
        .reply ⟨1⟩ (.failure .resumeFailed), .unlockStream 1 ⟨1⟩, .reply ⟨2⟩ .empty] ∧
      b.Ending t o (.release "/dev/fd0" ":1" "rw") es₁ b' ∧
      b'.ownerNamed? t.id o.name = none := by
  have run := Broker.run_play Script.peers (.empty {}) Scene.beginning
  have hlive :
      (((Broker.empty {}).played Script.peers Scene.beginning).transports.find?
      "/dev/fd0").map (fun t => t.owners.toList.map fun o => (o.name.str, o.access)) =
        some [(":1", ⟨true, true⟩)] := by decide
  have hcalls : ((((Broker.empty {}).played Script.peers Scene.beginning).perform
      (.dispatch "/dev/fd0" ":1" ⟨2⟩ (.release ⟨"rw", by decide⟩))).run Script.peers
        {}).exchanges.map
        Exchange.call = [.unwatch ⟨1⟩, .abortStream Scene.device ⟨1, by decide⟩,
          .reply ⟨1⟩ (.failure .resumeFailed), .unlockStream 1 ⟨1⟩,
            .reply ⟨2⟩ .empty] := by decide
  generalize (Broker.empty {}).played Script.peers Scene.beginning = b
    at run hlive hcalls
  obtain ⟨t, hfind, howners⟩ := Option.map_eq_some_iff.mp hlive
  obtain ⟨o, ho, hfields⟩ := List.map_eq_singleton_iff.mp howners
  obtain ⟨hname, haccess⟩ := Prod.mk.inj hfields
  have howner : o ∈ t.owners.toList := by rw [ho, List.mem_singleton]
  have hwent := yields_run Script.peers
    (b.perform (.dispatch "/dev/fd0" ":1" ⟨2⟩ (.release ⟨"rw", by decide⟩))) {}
  obtain ⟨_, es₁, -, -, -, -, hends, -⟩ :=
    run.owners_end_alike (Registry.find?_eq_some hfind).1 howner hwent
  have hdooms : b.Dooms t o (.release "/dev/fd0" o.name.str "rw") es₁ :=
    .release hfind (by rw [haccess]; decide)
  rw [hname] at hdooms
  obtain ⟨hending, hgone⟩ := hends hdooms
  exact ⟨_, b, _, _, es₁, t, o, run, howner, hwent, hcalls, hending, hgone⟩

end Runs

end AudioBroker
