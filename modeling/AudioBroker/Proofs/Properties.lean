import AudioBroker.Proofs.Broker.Life
import AudioBroker.Proofs.Creation
import AudioBroker.Proofs.Sharing
import AudioBroker.Proofs.Signals

/-!
# What the properties tell

A client that asks for the properties of a transport is sent a dictionary. It is
made of what the transport was created with, of the directions that its owners hold,
of the delays that were reported of it, and of what the headset answers at that
moment.

- `Snapshot.entries_eq`, `Snapshot.get?_eq_some_iff`: no entry is lost, and each is
  found under its name.
- `Transport.snapshot`, `Broker.properties_of_mem`: the dictionary, and what is
  asked for it.
- `lastDelay`: the last delay that was reported of a transport.
- `Broker.Shows.delay_eq`, `Run.delay_life`: a transport stores it, step by step and
  in every run.
- `Snapshot.Faithful`, `Run.properties_are_faithful`: what it comes to for every
  live transport.
-/

namespace AudioBroker

open Dialogue

/-! ### The dictionary -/

/-- Where no name comes twice, the entry that is found under a name is the one that
has it. -/
theorem find?_name_eq_some_iff {entries : List Entry} {name : String} {value : Value}
    (h : (entries.map Prod.fst).Nodup) :
    (entries.find? fun e => e.1 == name).map Prod.snd = some value ↔
      (name, value) ∈ entries := by
  induction entries with
  | nil => simp
  | cons e entries ih =>
    obtain ⟨hnew, hrest⟩ := List.nodup_cons.mp h
    obtain ⟨name', value'⟩ := e
    by_cases hname : name' = name
    · subst hname
      have hnot : (name', value) ∉ entries :=
        fun hmem => hnew (List.mem_map.mpr ⟨_, hmem, rfl⟩)
      simp [hnot, eq_comm]
    · rw [List.find?_cons_of_neg (by simpa using hname), ih hrest, List.mem_cons]
      simp [Ne.symm hname]

namespace Snapshot

variable {s : Snapshot} {name : String} {value : Value}

/-- There is room for all of the entries. -/
theorem entries_eq (s : Snapshot) : s.entries = s.common ++ s.extras.entries := by
  refine List.take_of_length_le ?_
  cases hextras : s.extras <;> simp [common, Extras.entries, maxEntries]

theorem names_nodup (s : Snapshot) : (s.entries.map Prod.fst).Nodup := by
  rw [entries_eq]
  cases hextras : s.extras <;> simp [common, Extras.entries]

/-- What is found under a name is the entry of that name. -/
theorem get?_eq_some_iff : s.get? name = some value ↔ (name, value) ∈ s.entries :=
  find?_name_eq_some_iff s.names_nodup

theorem get?_eq_none_iff : s.get? name = none ↔ name ∉ s.entries.map Prod.fst := by
  rw [get?, Option.map_eq_none_iff, List.find?_eq_none, List.mem_map]
  constructor
  · rintro hnot ⟨e, he, rfl⟩
    exact hnot e he (beq_self_eq_true e.1)
  · intro hnot e he hname
    exact hnot ⟨e, he, eq_of_beq hname⟩

/-- An entry that every transport has is found. -/
theorem get?_of_mem_common (h : (name, value) ∈ s.common) :
    s.get? name = some value := by
  rw [get?_eq_some_iff, entries_eq]
  exact List.mem_append_left _ h

theorem get?_of_mem_extras (h : (name, value) ∈ s.extras.entries) :
    s.get? name = some value := by
  rw [get?_eq_some_iff, entries_eq]
  exact List.mem_append_right _ h

end Snapshot

namespace Transport

/-- The dictionary of a transport, with the entries of its kind. -/
def snapshot (t : Transport) (extras : Extras) : Snapshot :=
  { device := t.device.path, readLock := t.locks.read, writeLock := t.locks.write,
    imtu := t.imtu,
    omtu := t.omtu, uuid := t.endpoint.uuid, codec :=
      t.endpoint.codec, configuration := t.configuration,
    extras }

variable {t : Transport} {es : List Exchange} {answer : Snapshot}

/-- Nobody is asked for the properties of an A2DP transport. -/
theorem properties_yields_a2dp (kind : t.backend.isA2dp = true)
    (h : t.properties.Yields es answer) :
    es = [] ∧ answer = t.snapshot (.a2dp t.delay) := by
  obtain ⟨es₁, extras, es₂, rfl, h₁, h₂⟩ := yields_bind.mp h
  obtain ⟨rfl, rfl⟩ := yields_pure.mp h₂
  unfold Transport.extras at h₁
  split at h₁
  · obtain ⟨rfl, rfl⟩ := yields_pure.mp h₁
    exact ⟨rfl, rfl⟩
  · next hbackend =>
    rw [hbackend] at kind
    cases kind

/-- A headset is asked for the two features of its gateway. -/
theorem properties_yields_headset (kind : t.backend.isA2dp = false)
    (h : t.properties.Yields es answer) :
    ∃ nrec ring,
      es = [⟨.noiseReduction t.device, nrec⟩, ⟨.inbandRingtone t.device, ring⟩] ∧
      answer = t.snapshot (.headset nrec ring) := by
  obtain ⟨es₁, extras, es₂, rfl, h₁, h₂⟩ := yields_bind.mp h
  obtain ⟨rfl, rfl⟩ := yields_pure.mp h₂
  unfold Transport.extras at h₁
  split at h₁
  · next hbackend =>
    rw [hbackend] at kind
    cases kind
  · obtain ⟨es₁, nrec, es', rfl, hnrec, h₁⟩ := yields_bind.mp h₁
    obtain ⟨es₂, ring, es₃, rfl, hring, h₁⟩ := yields_bind.mp h₁
    obtain ⟨rfl, rfl⟩ := yields_pure.mp h₁
    obtain rfl := Call.yields_make.mp hnrec
    obtain rfl := Call.yields_make.mp hring
    exact ⟨nrec, ring, rfl, rfl⟩

end Transport

namespace Broker

variable {b : Broker} {t : Transport}

/-- The properties of a live transport are found at its path. -/
theorem properties_of_mem (hd : b.transports.Distinct)
    (located : ∀ t ∈ b.transports.toList, t.Located)
    (ht : t ∈ b.transports.toList) :
    b.properties t.path.str = t.properties >>= fun answer => pure (.ok answer) := by
  rw [properties, (Registry.find?_path_eq_some_iff hd located).mpr ⟨ht, rfl⟩]

/-- A call that asks for them is answered with them, and nothing else happens. -/
theorem dispatch_of_mem (hd : b.transports.Distinct)
    (located : ∀ t ∈ b.transports.toList, t.Located) (ht : t ∈ b.transports.toList)
    (client : String) (call : PendingCall) :
    b.dispatch t.path.str client call .getProperties = t.properties >>= fun answer =>
      makeAll [.reply call (.properties answer)] >>= fun _ => pure b := by
  rw [dispatch, properties_of_mem hd located ht, bind_assoc]
  rfl

end Broker

/-! ### Delays -/

/-- The delay that an operation reports of the transport with a number. -/
def Operation.delayFor? (op : Operation) (id : TransportId) : Option UInt16 :=
  op.delay?.bind fun report => if report.1 = id then some report.2 else none

/-- The last delay that was reported of the transport with a number, and nothing if
none was. -/
def lastDelay (id : TransportId) (steps : List Step) : UInt16 :=
  (steps.filterMap fun s => s.op.delayFor? id).getLast?.getD 0

@[simp] theorem lastDelay_append_singleton (id : TransportId) (steps : List Step)
    (s : Step) :
    lastDelay id (steps ++ [s]) = (s.op.delayFor? id).getD (lastDelay id steps) := by
  rw [lastDelay, List.filterMap_append]
  cases hdelay : s.op.delayFor? id with
  | none => simp [hdelay, lastDelay]
  | some delay => simp [hdelay]

/-- An operation that reports no delay reports none of any transport. -/
theorem Operation.delayFor?_eq_none {op : Operation} (h : op.delay? = none)
    (id : TransportId) :
    op.delayFor? id = none := by
  rw [delayFor?, h]
  rfl

theorem Operation.delay?_of_delayFor? {op : Operation} {id : TransportId}
    {delay : UInt16} (h : op.delayFor? id = some delay) :
    op.delay? = some (id, delay) := by
  obtain ⟨⟨id', delay'⟩, hop, hfor⟩ := Option.bind_eq_some_iff.mp h
  obtain ⟨rfl, rfl⟩ : id' = id ∧ delay' = delay := by simpa using hfor
  exact hop

/-- The next number is another one, even where the counter starts over. -/
theorem TransportId.next_ne (id : TransportId) : id.next ≠ id := by
  intro h
  have hraw : id.raw + 1 = id.raw := congrArg TransportId.raw h
  exact absurd hraw (by simp)

namespace Broker

variable {b b' : Broker} {op : Operation} {es : List Exchange} {t t' : Transport}

/-- Only a transport that is created uses up a number for transports. -/
theorem nextTransport_eq {result : op.Result} (hd : b.transports.Distinct)
    (tracked : b.Tracked) (h : (b.perform op).Yields es (result, b')) :
    (∃ endpoint device configuration, op = .create endpoint device configuration) ∨
      b'.nextTransport = b.nextTransport := by
  rcases creates_drains_or_local h with hcreates | rfl | ⟨op', result', es', hop, h'⟩
  · exact .inl hcreates
  · obtain ⟨rfl, -⟩ := runDeferred_sweeps hd tracked h
    exact .inr rfl
  · rcases perform_cases hd hop h'
      with ⟨-, -, -, rfl⟩ | ⟨t, es₁, d, es₂, -, -, -, settles, -, -⟩
    · exact .inr rfl
    · cases settles
      exact .inr rfl

/-- A transport that goes on stores the delay that the step reports of it, and else
the one that it had. -/
theorem Shows.delay_eq (h : b.Shows op es b') (hd : b.transports.Distinct)
    (kept : b'.nextTransport = b.nextTransport)
    (live : b.transports.get? t'.id = some t) (ht' : t' ∈ b'.transports.toList)
    (kind : t.backend.isA2dp = true) :
    t'.delay = (op.delayFor? t'.id).getD t.delay := by
  -- the transport that was there is found by its number
  have hthere : ∀ {u}, u ∈ b.transports.toList → u.id = t'.id → u = t := by
    intro u hu hid
    exact Option.some.inj ((hd.get?_of_mem hu).symm.trans (hid ▸ live))
  have hunreported : op.delay? = none → t'.delay = t.delay →
      t'.delay = (op.delayFor? t'.id).getD t.delay := by
    intro hnone hdelay
    rw [Operation.delayFor?_eq_none hnone, hdelay]
    rfl
  cases h with
  | nothing _ same _ none =>
    obtain ⟨u, hu, houtline⟩ := Registry.mem_of_outlines same ht'
    obtain rfl := hthere hu (congrArg Transport.Outline.id houtline)
    have hdelay : u.delay = t'.delay := congrArg Transport.Outline.delay houtline
    have hid : u.id = t'.id := congrArg Transport.Outline.id houtline
    cases hreport : op.delayFor? t'.id with
    | none => exact hdelay.symm
    | some delay =>
      -- what is reported is no other delay than the one that is stored
      have hop := Operation.delay?_of_delayFor? hreport
      have hold : u.delay = delay := by
        by_contra hnew
        exact none u delay ⟨hid ▸ hop, hid ▸ live, kind, hnew⟩
      rw [← hdelay, hold]
      rfl
  | refused quiet _ =>
    exact hunreported quiet.2 (congrArg Transport.delay (hthere ht' rfl))
  | opened _ _ _ => exact absurd kept (TransportId.next_ne _)
  | closed quiet _ _ =>
    exact hunreported quiet.2 (congrArg Transport.delay
      (hthere (List.mem_filter.mp ht').1 rfl))
  | @installed u s _ _ _ installs _ _ outlines =>
    have hinstalled := installs.live
    obtain ⟨r, -, -, hreport, -⟩ := installs
    refine hunreported (Operation.delay?_eq_none hreport) ?_
    obtain ⟨v, hv, houtline⟩ := Registry.mem_of_outlines outlines ht'
    have hdelay : v.delay = t'.delay := congrArg Transport.Outline.delay houtline
    have hid : v.id = t'.id := congrArg Transport.Outline.id houtline
    rcases Registry.eq_or_ne_of_mem_replace hv with rfl | ⟨-, hv⟩
    · obtain rfl := hthere hinstalled hid
      exact hdelay.symm
    · rw [← hdelay, hthere hv hid]
  | @delayed u delay delays =>
    rw [Operation.delayFor?, delays.1]
    rcases Registry.eq_or_ne_of_mem_replace ht' with rfl | ⟨hne, hmem⟩
    · simp
    · have hother : u.id ≠ t'.id := Ne.symm hne
      obtain rfl := hthere hmem rfl
      simp [hother]

end Broker

namespace Step

variable {s : Step} {t t' : Transport}

/-- A transport that lives after a step was created by it, or it was carried on by
it, with the delay that the step reports of it, and else the one that it had. -/
theorem created_or_delayed (hd : s.before.transports.Distinct)
    (tracked : s.before.Tracked) (ht' : t' ∈ s.after.transports.toList) :
    s.Creates t' ∨ ∃ t, s.Carries t t' ∧
      (t.backend.isA2dp = true → t'.delay = (s.op.delayFor? t'.id).getD t.delay) := by
  rcases s.created_or_carried hd tracked ht' with hcreates | ⟨t, hcarries⟩
  · exact .inl hcreates
  rcases Broker.nextTransport_eq hd tracked s.performed
    with ⟨endpoint, device, configuration, hop⟩ | hkept
  · refine (created_or_untouched hop ht').imp_right fun hmem =>
      ⟨t, hcarries, fun _ => ?_⟩
    obtain rfl := Option.some.inj ((hd.get?_of_mem hmem).symm.trans hcarries.live)
    rw [Operation.delayFor?_eq_none (by rw [hop]; rfl)]
    rfl
  · exact .inr ⟨t, hcarries, (s.shows hd).delay_eq hd hkept hcarries.live ht'⟩

end Step

/-- The life of a live transport: the step that created it, and at every moment
since the delay that was reported of it last. -/
theorem Run.delay_life {options : Options} {steps : List Step} {b : Broker}
    (run : Run (.empty options) steps b) {t : Transport}
    (ht : t ∈ b.transports.toList) :
    ∃ pre s post t₀, steps = pre ++ s :: post ∧ s.Creates t₀ ∧ t₀.id = t.id ∧
      ∀ mid rest b₁, post = mid ++ rest → Run s.after mid b₁ →
        ∃ u, b₁.transports.get? t.id = some u ∧ u.terms = t₀.terms ∧
          (u.backend.isA2dp = true → u.delay = lastDelay t.id mid) := by
  obtain ⟨pre, s, post, t₀, hsteps, ⟨hcreates, hid⟩, hlife⟩ := run.history
    (fun b => ∃ u, b.transports.get? t.id = some u)
    (fun s t₀ => s.Creates t₀ ∧ t₀.id = t.id)
    (fun t₀ mid b => ∃ u, b.transports.get? t.id = some u ∧ u.terms = t₀.terms ∧
      (u.backend.isA2dp = true → u.delay = lastDelay t.id mid))
    (by simp [Broker.get?_empty])
    (by
      rintro steps s run ⟨u, hu⟩
      obtain ⟨hmem, hid⟩ := Registry.get?_eq_some hu
      -- either this step created it, with no delay, or it was there before, and a delay
      -- may have been reported of it
      rcases s.created_or_delayed run.distinct run.tracked hmem
        with hcreates | ⟨u₁, hcarries, hdelay⟩
      · refine .inl ⟨u, ⟨hcreates, hid⟩, u, hu, rfl, fun _ => ?_⟩
        obtain ⟨_, _, _, -, hcreate⟩ := hcreates
        obtain ⟨-, -, -, -, -, -, -, hzero, -⟩ := Transport.create_eq_ok hcreate
        exact hzero
      · have hlive := hid ▸ hcarries.live
        refine .inr ⟨⟨u₁, hlive⟩, ?_⟩
        rintro t₀ mid ⟨v, hv, hterms, hold⟩
        obtain rfl := Option.some.inj (hlive.symm.trans hv)
        refine ⟨u, hu, hcarries.terms.trans hterms, fun kind => ?_⟩
        rw [Transport.isA2dp_eq_of_terms hcarries.terms] at kind
        rw [hdelay kind, hold kind, lastDelay_append_singleton, hid])
    ⟨t, run.distinct.get?_of_mem ht⟩
  exact ⟨pre, s, post, t₀, hsteps, hcreates, hid, hlife⟩

/-! ### The answer -/

/-- The name under which a client is told whether a direction is taken. -/
def Direction.lockName : Direction → String
  | .reading => "ReadLock"
  | .writing => "WriteLock"

/-- What a client is told of a transport, after these exchanges: no entry is lost,
and each is found under its name. The transport was created with the endpoint, the
device and the configuration, and the delay is the last one that was reported of
it. -/
structure Snapshot.Faithful (answer : Snapshot) (t : Transport) (es : List Exchange)
    (endpoint : Endpoint)
    (device : Device) (configuration : List UInt8) (delay : UInt16) : Prop where
  entries_eq : answer.entries = answer.common ++ answer.extras.entries
  names_nodup : (answer.entries.map Prod.fst).Nodup
  get?_eq_some_iff : ∀ name value, answer.get? name = some value ↔
    (name, value) ∈ answer.entries
  get?_eq_none_iff : ∀ name, answer.get? name = none ↔
    name ∉ answer.entries.map Prod.fst
  device_eq : answer.get? "Device" = some (.objectPath device.path.str)
  /-- A direction is taken exactly if one of the owners holds it. -/
  lock_eq : ∀ d : Direction,
    answer.get? d.lockName = some (.boolean (t.owners.toList.any (·.access.has d)))
  mtus_eq : answer.get? "IMTU" = some (.uint16 t.imtu) ∧
    answer.get? "OMTU" = some (.uint16 t.omtu)
  /-- The UUID is that of the profile, however the media application spelt it. -/
  uuid_eq : answer.get? "UUID" = some (.string endpoint.uuid) ∧
    ∀ text codec sep, Endpoint.ofUuid text codec sep = .ok endpoint →
      endpoint.uuid.toList = text.toList.map Char.toLower
  codec_eq : answer.get? "Codec" = some (.byte endpoint.codec)
  configuration_eq : answer.get? "Configuration" = some (.bytes configuration)
  kind_eq : t.backend.isA2dp = endpoint.profile.isA2dp
  /-- An A2DP transport tells its delay, and nobody is asked. -/
  a2dp : endpoint.profile.isA2dp = true →
    es = [] ∧ answer.get? "Delay" = some (.uint16 delay) ∧
    answer.get? "NREC" = none ∧ answer.get? "InbandRingtone" = none
  /-- A headset has no delay; it tells what is answered just now. -/
  headset : endpoint.profile.isA2dp = false → ∃ nrec ring,
    es = [⟨.noiseReduction device, nrec⟩, ⟨.inbandRingtone device, ring⟩] ∧
      answer.get? "Delay" = none ∧
      answer.get? "NREC" = some (.boolean nrec) ∧
        answer.get? "InbandRingtone" = some (.boolean ring)

/-- The backend of a transport is of the kind of its profile. -/
theorem Backend.isA2dp_of_endpoint {endpoint : Endpoint} {options : Options}
    {backend : Backend} (h : ofEndpoint? endpoint options = some backend) :
    backend.isA2dp = endpoint.profile.isA2dp := by
  unfold ofEndpoint? at h
  split at h
  · next kind =>
    obtain ⟨sep, -, rfl⟩ := Option.map_eq_some_iff.mp h
    exact kind.symm
  · next kind =>
    cases h
    exact (Bool.eq_false_iff.mpr kind).symm

/-- An endpoint that was declared has the UUID in lower case. -/
theorem Endpoint.uuid_of_ofUuid {text : String} {codec : UInt8}
    {sep : Option StreamEndpointId} {endpoint : Endpoint}
    (h : ofUuid text codec sep = .ok endpoint) :
    endpoint.uuid.toList = text.toList.map Char.toLower := by
  unfold ofUuid at h
  split at h
  · cases h
  · next profile hprofile =>
    split at h
    · cases h
    · cases h
      exact (Profile.ofUuid?_eq_some_iff_lower.mp hprofile).symm

/-- A direction is taken exactly if one of the owners holds it. -/
theorem Transport.Shared.has_locks {t : Transport} (h : t.Shared) (d : Direction) :
    t.locks.has d = t.owners.toList.any (·.access.has d) := by
  rw [h.locks_eq, Access.has_unions, List.any_map]
  rfl

/-- What is answered for a transport is faithful, where its locks agree with its
owners and it stores the delay that was reported last. -/
theorem Transport.snapshot_faithful {t : Transport} {es : List Exchange}
    {answer : Snapshot} {endpoint : Endpoint} {device : Device}
    {configuration : List UInt8} {delay : UInt16} (shared : t.Shared)
    (endpoint_eq : t.endpoint = endpoint) (device_eq : t.device = device)
    (configuration_eq : t.configuration.toList = configuration)
    (kind : t.backend.isA2dp = endpoint.profile.isA2dp)
    (delay_eq : t.backend.isA2dp = true → t.delay = delay)
    (h : t.properties.Yields es answer) :
    answer.Faithful t es endpoint device configuration delay := by
  -- the common part of the answer is the same for both kinds
  obtain ⟨extras, rfl⟩ : ∃ extras, answer = t.snapshot extras := by
    cases hkind : t.backend.isA2dp with
    | true => exact ⟨_, (properties_yields_a2dp hkind h).2⟩
    | false =>
      obtain ⟨nrec, ring, -, rfl⟩ := properties_yields_headset hkind h
      exact ⟨_, rfl⟩
  subst endpoint_eq device_eq configuration_eq
  exact {
    entries_eq := Snapshot.entries_eq _
    names_nodup := Snapshot.names_nodup _
    get?_eq_some_iff := fun _ _ => Snapshot.get?_eq_some_iff
    get?_eq_none_iff := fun _ => Snapshot.get?_eq_none_iff
    device_eq := Snapshot.get?_of_mem_common (by simp [Snapshot.common, snapshot])
    lock_eq := by
      intro d
      rw [← shared.has_locks d]
      cases d <;> exact Snapshot.get?_of_mem_common (by
        simp [Snapshot.common, snapshot, Direction.lockName, Access.has])
    mtus_eq := ⟨Snapshot.get?_of_mem_common (by simp [Snapshot.common, snapshot]),
      Snapshot.get?_of_mem_common (by simp [Snapshot.common, snapshot])⟩
    uuid_eq := ⟨Snapshot.get?_of_mem_common (by simp [Snapshot.common, snapshot]),
      fun _ _ _ => Endpoint.uuid_of_ofUuid⟩
    codec_eq := Snapshot.get?_of_mem_common (by simp [Snapshot.common, snapshot])
    configuration_eq := Snapshot.get?_of_mem_common
      (by simp [Snapshot.common, snapshot])
    kind_eq := kind
    a2dp := by
      intro ha2dp
      rw [ha2dp] at kind
      obtain ⟨rfl, hanswer⟩ := properties_yields_a2dp kind h
      rw [hanswer, delay_eq kind]
      refine ⟨rfl, Snapshot.get?_of_mem_extras List.mem_cons_self, ?_, ?_⟩
      · simp [Snapshot.get?_eq_none_iff, Snapshot.entries_eq, Snapshot.common,
          snapshot, Extras.entries]
      · simp [Snapshot.get?_eq_none_iff, Snapshot.entries_eq, Snapshot.common,
          snapshot, Extras.entries]
    headset := by
      intro hheadset
      rw [hheadset] at kind
      obtain ⟨nrec, ring, rfl, hanswer⟩ := properties_yields_headset kind h
      rw [hanswer]
      refine ⟨nrec, ring, rfl, ?_, Snapshot.get?_of_mem_extras List.mem_cons_self,
        Snapshot.get?_of_mem_extras (List.mem_cons_of_mem _ List.mem_cons_self)⟩
      simp [Snapshot.get?_eq_none_iff, Snapshot.entries_eq, Snapshot.common,
        snapshot, Extras.entries] }

/-- A client that asks for the properties of a live transport is answered, and
nothing changes in the broker. Nobody is asked for those of an A2DP transport, and a
headset is asked for its two features. The answer is faithful: to the step that
created the transport, which has lived since then on the terms that it was created
on, to its owners now, and to the delays that were reported of it. -/
theorem Run.properties_are_faithful {options : Options} {steps : List Step}
    {b : Broker} (run : Run (.empty options) steps b) {t : Transport}
    (ht : t ∈ b.transports.toList) :
    (b.perform (.properties t.path.str) = t.properties >>= fun answer =>
      pure (.ok answer, b)) ∧
    (∀ client call, b.dispatch t.path.str client call .getProperties =
      t.properties >>= fun answer =>
      makeAll [.reply call (.properties answer)] >>= fun _ => pure b) ∧
    ∃ pre s post endpoint device configuration t₀,
      steps = pre ++ s :: post ∧ s.op = .create endpoint device configuration ∧
      Transport.create t.id endpoint device configuration options = .ok t₀ ∧
      (∀ mid rest b₁, post = mid ++ rest → Run s.after mid b₁ →
        ∃ u, b₁.transports.get? t.id = some u ∧ u.terms = t₀.terms) ∧
      ∀ es answer, t.properties.Yields es answer →
        answer.Faithful t es endpoint device configuration (lastDelay t.id post) := by
  refine ⟨?_, Broker.dispatch_of_mem run.distinct run.located ht, ?_⟩
  · simp only [Broker.perform, Broker.properties_of_mem run.distinct run.located ht,
      map_bind, map_pure]
  · obtain ⟨pre, s, post, t₀, rfl, ⟨endpoint, device, configuration, hop, hcreate⟩,
        hid, hlife⟩ :=
      run.delay_life ht
    obtain ⟨hbefore, hafter⟩ := run.around
    rw [hid, hbefore.options_eq] at hcreate
    refine ⟨pre, s, post, endpoint, device, configuration, t₀, rfl, hop, hcreate,
      ?_, ?_⟩
    · intro mid rest b₁ hpost hrun
      obtain ⟨u, hu, hterms, -⟩ := hlife mid rest b₁ hpost hrun
      exact ⟨u, hu, hterms⟩
    · -- what has become of it by now is the transport that is asked
      obtain ⟨u, hu, hterms, hdelay⟩ :=
        hlife post [] b (List.append_nil post).symm hafter
      obtain rfl := Option.some.inj ((run.distinct.get?_of_mem ht).symm.trans hu)
      obtain ⟨-, hdevice, hendpoint, hconfiguration, hbackend, -⟩ :=
        Transport.create_eq_ok hcreate
      have hkind := (Transport.isA2dp_eq_of_terms hterms).trans
        (Backend.isA2dp_of_endpoint hbackend)
      have hsettings : t.configuration = t₀.configuration :=
        congrArg Transport.Terms.configuration hterms
      intro es answer
      exact Transport.snapshot_faithful (run.shared t ht)
        ((congrArg Transport.Terms.endpoint hterms).trans hendpoint)
        ((Transport.device_eq_of_terms hterms).trans hdevice)
        ((congrArg BoundedList.toList hsettings).trans hconfiguration) hkind hdelay

/-- A speaker that a client writes to, and a headset. Delays are reported of both,
and of a transport that does not exist. -/
def Scene.delaysReported : List (Script × Operation) :=
  [({}, .create speaker device [33]),
    ({}, .create { profile := .headsetGateway, codec := 2, sep := none } device []),
    ({}, .reportDelay ⟨0⟩ 150), ({}, .reportDelay ⟨1⟩ 70), ({}, acquire ":1" "w" 1),
      ({}, .reportDelay ⟨0⟩ 200),
    ({}, .reportDelay ⟨7⟩ 30)]

/-- The speaker tells the second of its delays and that it is written to, and the
headset tells no delay. -/
theorem Run.last_delay_is_told :
    ∃ steps b t u, Run (.empty {}) steps b ∧ t ∈ b.transports.toList ∧
      u ∈ b.transports.toList ∧
      (∃ pre s post, steps = pre ++ s :: post ∧ lastDelay t.id post = 200) ∧
      (∀ es answer, t.properties.Yields es answer →
        es = [] ∧ answer.get? "Delay" = some (.uint16 200) ∧
        answer.get? "WriteLock" = some (.boolean true) ∧
        answer.get? "ReadLock" = some (.boolean false)) ∧
      ∀ es answer, u.properties.Yields es answer →
        es.length = 2 ∧ answer.get? "Delay" = none := by
  have run := Broker.run_play Script.peers (.empty {}) Scene.delaysReported
  have hspeaker :
      (((Broker.empty {}).played Script.peers Scene.delaysReported).transports.get?
        ⟨0⟩).any
      (fun t => t.backend.isA2dp && t.delay == 200 &&
        t.owners.toList.map Owner.access == [⟨false, true⟩]) = true := by decide
  have hheadset :
      (((Broker.empty {}).played Script.peers Scene.delaysReported).transports.get?
        ⟨1⟩).any
      (fun u => !u.backend.isA2dp) = true := by decide
  generalize (Broker.empty {}).played Script.peers Scene.delaysReported = b
    at run hspeaker hheadset
  obtain ⟨t, ht, hspeaker⟩ := (Option.any_eq_true _ _).mp hspeaker
  obtain ⟨u, hu, hheadset⟩ := (Option.any_eq_true _ _).mp hheadset
  simp only [Bool.and_eq_true, beq_iff_eq] at hspeaker
  obtain ⟨⟨hkind, hdelay⟩, howners⟩ := hspeaker
  have ht := (Registry.get?_eq_some ht).1
  have hu := (Registry.get?_eq_some hu).1
  obtain ⟨-, -, pre, s, post, _, _, _, _, hsteps, -, -, -, hspeaks⟩ :=
    run.properties_are_faithful ht
  obtain ⟨-, -, _, _, _, _, _, _, _, -, -, -, -, hanswers⟩ :=
    run.properties_are_faithful hu
  -- the only owner writes
  have hlocks : ∀ d,
      t.owners.toList.any (·.access.has d) = Access.has ⟨false, true⟩ d := by
    intro d
    have hany :
        t.owners.toList.any (·.access.has d) =
          (t.owners.toList.map Owner.access).any (·.has d) := by
      rw [List.any_map]
      rfl
    rw [hany, howners, List.any_cons, List.any_nil, Bool.or_false]
  have htold : ∀ es answer, t.properties.Yields es answer → es = [] ∧
      answer.get? "Delay" = some (.uint16 (lastDelay t.id post)) := by
    intro es answer h
    have hfaithful := hspeaks es answer h
    obtain ⟨hes, htells, -⟩ := hfaithful.a2dp (hfaithful.kind_eq.symm.trans hkind)
    exact ⟨hes, htells⟩
  -- the last delay is read off the answer of the transport itself
  have hlast : lastDelay t.id post = 200 := by
    have went := yields_run Script.peers t.properties {}
    have htells := (htold _ _ went).2
    rw [(Transport.properties_yields_a2dp hkind went).2, hdelay,
      Snapshot.get?_of_mem_extras (s := t.snapshot (.a2dp 200)) List.mem_cons_self]
      at htells
    simpa using htells.symm
  refine ⟨_, b, t, u, run, ht, hu, ⟨pre, s, post, hsteps, hlast⟩,
    fun es answer h => ?_, fun es answer h => ?_⟩
  · have hfaithful := hspeaks es answer h
    have hread := hfaithful.lock_eq .reading
    have hwrite := hfaithful.lock_eq .writing
    rw [hlocks] at hread hwrite
    exact ⟨(htold es answer h).1, hlast ▸ (htold es answer h).2, hwrite, hread⟩
  · have hfaithful := hanswers es answer h
    have hkind := hfaithful.kind_eq.symm.trans (by simpa using hheadset)
    obtain ⟨nrec, ring, rfl, hnone, -, -⟩ := hfaithful.headset hkind
    exact ⟨rfl, hnone⟩

end AudioBroker
