import AudioBroker.Proofs.Broker.Life
import AudioBroker.Proofs.Numbers
import AudioBroker.Proofs.Transport.Admission

/-!
# What it takes to create a transport

A transport is asked for by the UUID of a profile, with a codec, perhaps a stream
endpoint, the path of an adapter, two addresses, and a configuration. The endpoint
and the device are built from these first, each with its own checks, and then the
transport.

- `Address.segment_size`, `utf8ByteSize_toString`: how long the parts of a path are.
- `Offer`, `Broker.createFrom`: all that a transport is asked for with, and the
  whole of its creation.
- `Offer.Publishable`, `Offer.fault?`: what it takes to be published, and the first
  reason to turn an offer down where that is missing.
- `Offer.Describes`: the transport that an offer comes to.
- `Run.creation_outcome`: what an offer comes to, in every state that can be
  reached.
-/

namespace AudioBroker

open Dialogue

/-! ### How long a path is -/

/-- Text in ASCII has as many bytes as characters. -/
theorem utf8ByteSize_of_ascii {cs : List Char} (h : ∀ c ∈ cs, c.utf8Size = 1) :
    (String.ofList cs).utf8ByteSize = cs.length := by
  rw [String.utf8ByteSize_ofList]
  induction cs with
  | nil => rfl
  | cons c cs ih =>
    rw [String.utf8Len_cons, ih fun c hc => h c (List.mem_cons_of_mem _ hc),
      h c List.mem_cons_self, List.length_cons]

/-- A number takes one byte for each decimal digit. -/
theorem utf8ByteSize_toString (n : Nat) :
    (toString n).utf8ByteSize = (Nat.toDigits 10 n).length := by
  refine utf8ByteSize_of_ascii fun c hc => ?_
  have hdigit := Nat.isDigit_of_mem_toDigits (by decide) (by decide) hc
  rw [Char.utf8Size_eq_one_iff]
  simp only [Char.isDigit, Bool.and_eq_true, decide_eq_true_eq] at hdigit
  exact UInt32.le_trans hdigit.2 (by decide)

namespace Address

theorem hexByte_size (b : UInt8) : (hexByte b).utf8ByteSize = 2 := by
  have hdigit : ∀ n < 16, (hexDigit n).utf8Size = 1 := by decide
  have hb := b.toNat_lt
  refine utf8ByteSize_of_ascii fun c hc => ?_
  rw [List.mem_pair] at hc
  rcases hc with rfl | rfl
  · exact hdigit _ (by omega)
  · exact hdigit _ (by omega)

/-- Parts of one size, with a byte between each two of them. -/
theorem intercalate_size {k : Nat} (s : String) (ss : List String)
    (h : ∀ u ∈ s :: ss, u.utf8ByteSize = k) :
    ("_".intercalate (s :: ss)).utf8ByteSize = k + ss.length * (k + 1) := by
  induction ss generalizing s with
  | nil => simpa using h s
  | cons u ss ih =>
    have hseparator : "_".utf8ByteSize = 1 := by decide
    rw [String.intercalate_cons_cons, String.utf8ByteSize_append,
      String.utf8ByteSize_append, h s List.mem_cons_self,
      ih u fun v hv => h v (List.mem_cons_of_mem _ hv), hseparator,
      List.length_cons]
    ring

/-- The segment of every address has the same size. -/
theorem segment_size (a : Address) : a.segment.utf8ByteSize = 21 := by
  have hlength : (a.bytes.toList.map hexByte).length = 6 := by
    rw [List.length_map, Vector.length_toList]
  have hsize : ∀ s ∈ a.bytes.toList.map hexByte, s.utf8ByteSize = 2 := by
    intro s hs
    obtain ⟨b, -, rfl⟩ := List.mem_map.mp hs
    exact hexByte_size b
  rw [segment, String.utf8ByteSize_append]
  generalize a.bytes.toList.map hexByte = parts at hlength hsize
  cases parts with
  | nil => cases hlength
  | cons s ss =>
    have hss : ss.length = 5 := Nat.succ.inj hlength
    rw [intercalate_size s ss hsize, hss]
    rfl

end Address

/-! ### Offers -/

/-- A UUID names a profile if it is the UUID of the profile, up to the case of its
letters. -/
theorem Profile.ofUuid?_eq_some_iff_lower {uuid : String} {p : Profile} :
    ofUuid? uuid = some p ↔ uuid.toList.map Char.toLower = p.uuid.toList := by
  have hlower : foldCase p.uuid = p.uuid.toList := by cases p <;> decide
  rw [ofUuid?_eq_some_iff, hlower, foldCase, eq_comm]

/-- All that a transport is asked for with. -/
structure Offer where
  /-- The UUID under which the media application has registered. -/
  uuid : String
  codec : UInt8
  sep : Option StreamEndpointId
  /-- The path of the adapter. -/
  adapter : String
  src : Address
  dst : Address
  configuration : List UInt8

namespace Offer

/-- The path of the device. -/
def devicePath (o : Offer) : String := o.adapter ++ "/" ++ o.dst.segment

/-- The path of the transport, if it is given this number. -/
def path (o : Offer) (id : TransportId) : String :=
  o.devicePath ++ "/fd" ++ toString id.raw.toNat

/-- The first reason to turn an offer down: no profile has the UUID; an A2DP profile
comes without a stream endpoint; the path of the device is too long; there are as
many transports as there can be; the configuration or the path of the transport is
too long. -/
def fault? (o : Offer) (b : Broker) : Option Fault :=
  match Profile.ofUuid? o.uuid with
  | none => some .notSupported
  | some p =>
    if p.isA2dp = true ∧ o.sep = none then some .invalidArguments
    else if maxPath < o.adapter.utf8ByteSize + 22 then some .invalidArguments
    else if b.transports.toList.length = maxTransports then some .outOfResources
    else if maxConfiguration < o.configuration.length ∨
        maxPath < o.adapter.utf8ByteSize + 25 +
          (Nat.toDigits 10 b.nextTransport.raw.toNat).length then
      some .invalidArguments
    else none

/-- What it takes to be published. The path of the transport adds 25 bytes and its
number to the path of the adapter. -/
structure Publishable (o : Offer) (b : Broker) : Prop where
  /-- The UUID is that of a profile, up to the case of its letters; an A2DP profile
  has a stream endpoint. -/
  profile : ∃ p : Profile, o.uuid.toList.map Char.toLower = p.uuid.toList ∧
    (p.isA2dp = true → o.sep.isSome = true)
  room : b.transports.toList.length < 8
  configuration : o.configuration.length ≤ 32
  path : o.adapter.utf8ByteSize + 25 +
    (Nat.toDigits 10 b.nextTransport.raw.toNat).length ≤ 96

/-- The transport that an offer comes to: it is what was asked for, and nobody has
used it yet. -/
structure Describes (o : Offer) (options : Options) (id : TransportId)
    (t : Transport) : Prop where
  id_eq : t.id = id
  path_eq : t.path.str = o.adapter ++ "/" ++ o.dst.segment ++ "/fd" ++
    toString id.raw.toNat
  device_eq : t.device.path.str = o.adapter ++ "/" ++ o.dst.segment ∧
    t.device.src = o.src ∧ t.device.dst = o.dst
  endpoint_eq : t.endpoint.uuid.toList = o.uuid.toList.map Char.toLower ∧
    t.endpoint.codec = o.codec ∧ t.endpoint.sep = o.sep
  configuration_eq : t.configuration.toList = o.configuration
  /-- An A2DP profile streams over the stream endpoint, the others over a voice link
  with the settings of the broker. -/
  backend_eq : if t.endpoint.profile.isA2dp then ∃ sep,
    o.sep = some sep ∧ t.backend = .a2dp sep none
    else t.backend = .headset options.voiceLock options.voiceImtu options.voiceOmtu
  unowned : t.owners.toList = [] ∧ t.locks = ∅ ∧ t.inUse = false
  unused : t.fd = none ∧ t.imtu = 0 ∧ t.omtu = 0 ∧ t.delay = 0 ∧ t.session? = none

variable {o : Offer} {b : Broker} {fault : Fault}

/-- A device path is 22 bytes longer than that of its adapter. -/
theorem devicePath_size (o : Offer) :
    o.devicePath.utf8ByteSize = o.adapter.utf8ByteSize + 22 := by
  rw [devicePath, String.utf8ByteSize_append, String.utf8ByteSize_append,
    Address.segment_size]
  rfl

/-- A transport path is longer than that of its adapter by 25 bytes and the digits
of its number. -/
theorem path_size (o : Offer) (id : TransportId) : (o.path id).utf8ByteSize =
    o.adapter.utf8ByteSize + 25 + (Nat.toDigits 10 id.raw.toNat).length := by
  rw [path, String.utf8ByteSize_append, String.utf8ByteSize_append, devicePath_size,
    utf8ByteSize_toString]
  rfl

/-- An offer is turned down for no reason exactly if it can be published. -/
theorem fault?_eq_none_iff : o.fault? b = none ↔ o.Publishable b := by
  have hlive := b.transports.length_le
  have hmaxPath : maxPath = 96 := rfl
  have hmaxTransports : maxTransports = 8 := rfl
  have hmaxConfiguration : maxConfiguration = 32 := rfl
  rw [fault?]
  cases hprofile : Profile.ofUuid? o.uuid with
  | none =>
    refine iff_of_false (by simp) fun ⟨⟨p, huuid, _⟩, _, _, _⟩ => ?_
    rw [Profile.ofUuid?_eq_some_iff_lower.mpr huuid] at hprofile
    cases hprofile
  | some p =>
    have hsep : ¬ (p.isA2dp = true ∧ o.sep = none) ↔
        (p.isA2dp = true → o.sep.isSome = true) := by
      rw [not_and, Option.isSome_iff_ne_none]
    simp only [ite_fault_eq_none_iff, hsep]
    constructor
    · rintro ⟨hneeds, -, hroom, hfits, -⟩
      exact ⟨⟨p, Profile.ofUuid?_eq_some_iff_lower.mp hprofile, hneeds⟩,
        by omega, by omega, by omega⟩
    · rintro ⟨⟨q, huuid, hneeds⟩, hroom, hconf, hpath⟩
      rw [Profile.ofUuid?_eq_some_iff_lower.mpr huuid] at hprofile
      cases hprofile
      -- a path of the transport that fits leaves room for the path of its device
      exact ⟨hneeds, by omega, by omega, by omega, trivial⟩

end Offer

/-! ### The creation -/

namespace Broker

variable {o : Offer} {b : Broker} {fault : Fault}

/-- Builds the endpoint and the device of an offer, and creates a transport from
them. -/
def createFrom (b : Broker) (o : Offer) :
    Dialogue (Except Fault TransportId × Broker) :=
  match Endpoint.ofUuid o.uuid o.codec o.sep with
  | .error fault => pure (.error fault, b)
  | .ok endpoint =>
    match Device.under o.adapter o.src o.dst with
    | .error fault => pure (.error fault, b)
    | .ok device => b.create endpoint device o.configuration

/-- The endpoint of a profile that has what it needs. -/
theorem endpoint_of_profile {p : Profile} (hprofile : Profile.ofUuid? o.uuid = some p)
    (hsep : ¬ (p.isA2dp = true ∧ o.sep = none)) :
    Endpoint.ofUuid o.uuid o.codec o.sep = .ok
      { profile := p, codec := o.codec, sep := o.sep } := by
  have hneeds : ¬ (p.isA2dp && o.sep.isNone) = true := by simpa using hsep
  simp only [Endpoint.ofUuid, hprofile, if_neg hneeds]

/-- Where the path of the device is too long, there is no device. -/
theorem createFrom_of_long_device {p : Profile}
    (hprofile : Profile.ofUuid? o.uuid = some p)
    (hsep : ¬ (p.isA2dp = true ∧ o.sep = none))
    (long : maxPath < o.adapter.utf8ByteSize + 22) :
    b.createFrom o = pure (.error .invalidArguments, b) := by
  rw [← o.devicePath_size, ← Text.ofString?_eq_none_iff, Offer.devicePath] at long
  simp only [createFrom, endpoint_of_profile hprofile hsep, Device.under, long]

/-- Where the endpoint and the device can be built, it is for the broker to create
the transport. -/
theorem createFrom_of_built {p : Profile}
    (hprofile : Profile.ofUuid? o.uuid = some p)
    (hsep : ¬ (p.isA2dp = true ∧ o.sep = none))
    (fits : ¬ maxPath < o.adapter.utf8ByteSize + 22) :
    ∃ device : Device,
      device.path.str = o.devicePath ∧ device.src = o.src ∧ device.dst = o.dst ∧
      b.createFrom o =
        b.create { profile := p, codec := o.codec, sep := o.sep } device
          o.configuration := by
  obtain ⟨path, hpath⟩ : ∃ path : ObjectPath,
      Text.ofString? o.devicePath = some path := by
    rw [← Option.ne_none_iff_exists', ne_eq, Text.ofString?_eq_none_iff,
      Offer.devicePath_size]
    exact fits
  refine ⟨{ path, src := o.src, dst := o.dst }, Text.ofString?_eq_some_iff.mp hpath,
    rfl, rfl, ?_⟩
  rw [Offer.devicePath] at hpath
  simp only [createFrom, endpoint_of_profile hprofile hsep, Device.under, hpath]

/-- An endpoint that has what it needs has a backend. -/
theorem backend_of_built {p : Profile} (options : Options)
    (hsep : ¬ (p.isA2dp = true ∧ o.sep = none)) :
    ∃ backend,
      Backend.ofEndpoint? { profile := p, codec := o.codec, sep := o.sep } options =
        some backend ∧
      if p.isA2dp then ∃ sep, o.sep = some sep ∧ backend = .a2dp sep none
      else backend = .headset options.voiceLock options.voiceImtu
          options.voiceOmtu := by
  by_cases ha2dp : p.isA2dp = true
  · obtain ⟨sep, hsome⟩ := Option.ne_none_iff_exists'.mp fun hnone =>
      hsep ⟨ha2dp, hnone⟩
    refine ⟨.a2dp sep none, ?_, ?_⟩
    · rw [Backend.ofEndpoint?, if_pos ha2dp, hsome]
      rfl
    · rw [if_pos ha2dp]
      exact ⟨sep, hsome, rfl⟩
  · refine ⟨.headset options.voiceLock options.voiceImtu options.voiceOmtu, ?_, ?_⟩
    · rw [Backend.ofEndpoint?, if_neg ha2dp]
    · rw [if_neg ha2dp]

/-- With a backend, a transport fails only if it does not fit. -/
theorem create_eq_error_iff {endpoint : Endpoint} {device : Device}
    {configuration : List UInt8} {options : Options} {id : TransportId}
    {backend : Backend} (h : Backend.ofEndpoint? endpoint options = some backend) :
    Transport.create id endpoint device configuration options = .error fault ↔
      fault = .invalidArguments ∧ (maxConfiguration < configuration.length ∨
        maxPath < (Transport.pathText device id).utf8ByteSize) := by
  rw [← Text.ofString?_eq_none_iff, ← BoundedList.ofList?_eq_none_iff]
  simp only [Transport.create, h]
  cases (BoundedList.ofList? configuration : Option
      (BoundedList UInt8 maxConfiguration)) with
  | none => simp [eq_comm]
  | some conf =>
    cases (Text.ofString? (Transport.pathText device id) : Option ObjectPath) with
    | none => simp [eq_comm]
    | some path => simp

/-- An offer that there is a reason to turn down is turned down for it, and nothing
is published. -/
theorem createFrom_of_fault (h : o.fault? b = some fault) :
    b.createFrom o = pure (.error fault, b) := by
  rw [Offer.fault?] at h
  cases hprofile : Profile.ofUuid? o.uuid with
  | none =>
    rw [hprofile] at h
    cases h
    simp only [createFrom, Endpoint.ofUuid, hprofile]
  | some p =>
    rw [hprofile] at h
    dsimp only at h
    -- the reasons in the order in which they are looked for: endpoint, device, room
    -- and path
    by_cases hsep : p.isA2dp = true ∧ o.sep = none
    · rw [if_pos hsep] at h
      cases h
      simp [createFrom, Endpoint.ofUuid, hprofile, hsep.1, hsep.2]
    rw [if_neg hsep] at h
    by_cases hlong : maxPath < o.adapter.utf8ByteSize + 22
    · rw [if_pos hlong] at h
      cases h
      exact createFrom_of_long_device hprofile hsep hlong
    rw [if_neg hlong] at h
    obtain ⟨device, hpath, -, -, hcreate⟩ :=
      createFrom_of_built (b := b) hprofile hsep hlong
    rw [hcreate, create]
    by_cases hfull : b.transports.toList.length = maxTransports
    · rw [if_pos hfull] at h
      cases h
      rw [if_pos (BoundedList.isFull_iff.mpr hfull)]
    rw [if_neg hfull] at h
    rw [if_neg (mt BoundedList.isFull_iff.mp hfull)]
    split at h
    · next hunfit =>
      cases h
      obtain ⟨backend, hbackend, -⟩ := backend_of_built b.options hsep
      rw [← Offer.path_size, Offer.path, ← hpath] at hunfit
      rw [(create_eq_error_iff hbackend).mpr ⟨rfl, hunfit⟩]
    · cases h

/-- What was created from the endpoint and the device of an offer is what was asked
for. -/
theorem describes_of_create {p : Profile} {device : Device} {options : Options}
    {id : TransportId} {t : Transport} (hprofile : Profile.ofUuid? o.uuid = some p)
    (hsep : ¬ (p.isA2dp = true ∧ o.sep = none))
    (hpath : device.path.str = o.devicePath) (hsrc : device.src = o.src)
    (hdst : device.dst = o.dst)
    (created : Transport.create id
      { profile := p, codec := o.codec, sep := o.sep } device o.configuration
        options = .ok t) :
    o.Describes options id t := by
  obtain ⟨hid, hdevice, hendpoint, hconf, hstored, htext, hstream, hdelay, hlocks,
      hinUse, howners⟩ :=
    Transport.create_eq_ok created
  obtain ⟨backend, hbackend, hkind⟩ := backend_of_built options hsep
  -- the backend does not depend on the number or the settings but through the
  -- endpoint
  have hnew : t.backend = backend := Option.some.inj (hstored.symm.trans hbackend)
  exact {
    id_eq := hid
    path_eq := by rw [htext, Transport.pathText, hpath, Offer.devicePath]
    device_eq := by
      rw [hdevice]
      exact ⟨hpath, hsrc, hdst⟩
    endpoint_eq := by
      rw [hendpoint]
      exact ⟨(Profile.ofUuid?_eq_some_iff_lower.mp hprofile).symm, rfl, rfl⟩
    configuration_eq := hconf
    backend_eq := by rwa [hendpoint, hnew]
    unowned := ⟨by rw [howners]; rfl, hlocks, hinUse⟩
    unused := by
      refine ⟨?_, ?_, ?_, hdelay, Transport.session?_of_create created⟩
      · rw [Transport.fd, hstream, Option.map_none]
      · rw [Transport.imtu, hstream]
        rfl
      · rw [Transport.omtu, hstream]
        rfl }

/-- Any other offer is published, and comes to a transport if the bus accepts it. -/
theorem createFrom_of_no_fault (new : b.transports.get? b.nextTransport = none)
    (h : o.fault? b = none) :
    ∃ (t : Transport) (transports : Registry),
      o.Describes b.options b.nextTransport t ∧
      transports.toList = b.transports.toList ++ [t] ∧
      b.createFrom o = (Call.register t.path).make >>= fun accepted => pure
        (if accepted then
          (.ok b.nextTransport, { b with transports,
                                         nextTransport := b.nextTransport.next })
        else (.error .registrationFailed, b)) := by
  rw [Offer.fault?] at h
  cases hprofile : Profile.ofUuid? o.uuid with
  | none =>
    rw [hprofile] at h
    cases h
  | some p =>
    rw [hprofile] at h
    simp only [ite_fault_eq_none_iff] at h
    obtain ⟨hsep, hlong, hroom, hfits, -⟩ := h
    obtain ⟨device, hpath, hsrc, hdst, hcreate⟩ :=
      createFrom_of_built (b := b) hprofile hsep hlong
    obtain ⟨backend, hbackend, -⟩ := backend_of_built b.options hsep
    rw [← Offer.path_size, Offer.path, ← hpath] at hfits
    cases created :
        Transport.create b.nextTransport
          { profile := p, codec := o.codec, sep := o.sep } device
        o.configuration b.options with
    | error fault => exact absurd ((create_eq_error_iff hbackend).mp created).2 hfits
    | ok t =>
      have describes := describes_of_create hprofile hsep hpath hsrc hdst created
      -- the number is new, and there is room
      have hfull : b.transports.isFull = false := by
        rwa [Bool.eq_false_iff, ne_eq, BoundedList.isFull_iff]
      obtain ⟨transports, hinsert, -, hlast⟩ :=
        Registry.insert?_of_unused (describes.id_eq.symm ▸ new) hfull
      refine ⟨t, transports, describes, hlast, ?_⟩
      rw [hcreate, create, if_neg (mt BoundedList.isFull_iff.mp hroom), created]
      dsimp only
      congr 1
      funext accepted
      cases accepted with
      | false => rfl
      | true =>
        simp only [hinsert, describes.id_eq]
        rfl

end Broker

section Runs

variable {options : Options} {steps : List Step} {b : Broker}

/-- Until a counter starts over, exactly the offers that can be published come to a
transport, if the bus accepts it. Any other offer is turned down, for the first
reason that applies, with no call made and the broker as it was. What can be
published is registered; if that is refused nothing has changed, and otherwise the
transport is the last of the live ones, idle and as it was asked for, and the next
number goes up by one. -/
theorem Run.creation_outcome (run : Run (.empty options) steps b)
    (unwrapped : Unwrapped steps) (o : Offer) :
    (∀ es result b', (b.createFrom o).Yields es (result, b') →
        ((∃ id, result = .ok id) ↔
          o.Publishable b ∧ ∃ path, es = [⟨.register path, true⟩])) ∧
      (o.fault? b = none ↔ o.Publishable b) ∧
      (∀ fault, o.fault? b = some fault → b.createFrom o = pure (.error fault, b)) ∧
      (o.Publishable b → ∃ (t : Transport) (transports : Registry),
        o.Describes options b.nextTransport t ∧ o.dst.segment.utf8ByteSize = 21 ∧
        transports.toList = b.transports.toList ++ [t] ∧
        b.createFrom o = (Call.register t.path).make >>= fun accepted => pure
          (if accepted then
            (.ok b.nextTransport, { b with transports,
                                           nextTransport := b.nextTransport.next })
          else (.error .registrationFailed, b))) ∧
      (b.nextTransport.raw.toNat + 1 < 2 ^ 32 →
        b.nextTransport.next.raw.toNat = b.nextTransport.raw.toNat + 1) := by
  have hnew := (run.numbered unwrapped).get?_nextTransport
  refine ⟨fun es result b' went => ?_, Offer.fault?_eq_none_iff,
    fun _ => Broker.createFrom_of_fault, fun publishable => ?_, fun hlt => ?_⟩
  · rw [← Offer.fault?_eq_none_iff]
    cases hfault : o.fault? b with
    | some fault =>
      rw [Broker.createFrom_of_fault hfault, Dialogue.yields_pure] at went
      cases went.2
      simp
    | none =>
      obtain ⟨t, transports, -, -, hcreate⟩ :=
        Broker.createFrom_of_no_fault hnew hfault
      rw [hcreate, Dialogue.make_bind, Dialogue.yields_ask] at went
      -- one call is made, and what comes of it is what the bus has answered
      obtain ⟨accepted, rest, rfl, hend⟩ := went
      obtain ⟨rfl, hresult⟩ := Dialogue.yields_pure.mp hend
      cases accepted with
      | true =>
        cases hresult
        exact iff_of_true ⟨_, rfl⟩ ⟨rfl, t.path, rfl⟩
      | false =>
        cases hresult
        refine iff_of_false (by simp) ?_
        rintro ⟨-, path, heq⟩
        cases heq
  · obtain ⟨t, transports, describes, hlast, hcreate⟩ :=
      Broker.createFrom_of_no_fault hnew (Offer.fault?_eq_none_iff.mpr publishable)
    rw [run.options_eq] at describes
    exact ⟨t, transports, describes, o.dst.segment_size, hlast, hcreate⟩
  · rw [TransportId.next, UInt32.toNat_add]
    exact Nat.mod_eq_of_lt hlt

/-- A transport has been created. -/
def Scene.oneCreated : List (Script × Operation) := [({}, .create speaker device [])]

/-- A hands-free gateway at an adapter whose path has 70 bytes, but fewer
characters. -/
def Scene.longPath : Offer where
  uuid := "0000111F-0000-1000-8000-00805F9B34FB"
  codec := 2
  sep := none
  adapter := "/hci" ++ String.ofList (List.replicate 33 'é')
  src := device.src
  dst := device.dst
  configuration := List.replicate 32 0

/-- Beside another transport, it can be published: its path has 96 bytes. With one
byte more the path of the device would still fit, but not the path of the
transport. -/
theorem Run.longest_path_is_published :
    ∃ steps b, Run (.empty {}) steps b ∧ Unwrapped steps ∧
      b.transports.toList.length = 1 ∧ Scene.longPath.Publishable b ∧
      (∃ (t : Transport) (transports : Registry),
        Scene.longPath.Describes {} b.nextTransport t ∧
        t.path.str.utf8ByteSize = 96 ∧
        transports.toList = b.transports.toList ++ [t] ∧
        b.createFrom Scene.longPath = (Call.register t.path).make >>=
          fun accepted => pure (if accepted then
            (.ok b.nextTransport, { b with transports,
                                           nextTransport := b.nextTransport.next })
          else (.error .registrationFailed, b))) ∧
      b.createFrom { Scene.longPath with adapter := Scene.longPath.adapter ++ "x" } =
        pure (.error .invalidArguments, b) := by
  have run := Broker.run_play Script.peers (.empty {}) Scene.oneCreated
  have hunwrapped :
      Unwrapped ((Broker.empty {}).play Script.peers Scene.oneCreated) := by decide
  have hnext :
      ((Broker.empty {}).played Script.peers Scene.oneCreated).nextTransport =
        ⟨1⟩ := by
    decide
  have hone :
      ((Broker.empty {}).played Script.peers
        Scene.oneCreated).transports.toList.length = 1 := by
    decide
  generalize (Broker.empty {}).played Script.peers Scene.oneCreated = b
    at run hnext hone
  have hsize : Scene.longPath.adapter.utf8ByteSize = 70 := by decide
  have hpublishable : Scene.longPath.Publishable b := by
    refine ⟨⟨.handsFreeGateway, by decide, by decide⟩, by omega, by decide, ?_⟩
    rw [hsize, hnext]
    decide
  obtain ⟨-, -, -, hpublished, -⟩ := run.creation_outcome hunwrapped Scene.longPath
  obtain ⟨-, -, hrefused, -, -⟩ :=
    run.creation_outcome hunwrapped
      { Scene.longPath with adapter := Scene.longPath.adapter ++ "x" }
  obtain ⟨t, transports, describes, -, hlast, hcreate⟩ := hpublished hpublishable
  refine ⟨_, b, run, hunwrapped, hone, hpublishable,
    ⟨t, transports, describes, ?_, hlast, hcreate⟩, hrefused _ ?_⟩
  · rw [describes.path_eq]
    show (Scene.longPath.path b.nextTransport).utf8ByteSize = 96
    rw [Offer.path_size, hsize, hnext]
    decide
  · have hprofile :
      Profile.ofUuid? Scene.longPath.uuid = some .handsFreeGateway := by decide
    have hlong : (Scene.longPath.adapter ++ "x").utf8ByteSize = 71 := by decide
    have hconf : Scene.longPath.configuration.length = 32 := by decide
    have hheadset :
        ¬ (Profile.handsFreeGateway.isA2dp = true ∧ Scene.longPath.sep = none) := by
        decide
    simp only [Offer.fault?, hprofile, hlong, hone, hnext, hconf, if_neg hheadset]
    decide

end Runs

end AudioBroker
