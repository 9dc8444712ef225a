import AudioBroker.Bluetooth.Stream
import AudioBroker.Bus.Fault

/-!
# Profiles and local media endpoints

- `Profile`: the audio profiles that a transport can serve, each named by a service
  class UUID.
- `Endpoint`: the local endpoint on which a stream was negotiated.
- `Endpoint.ofUuid`: the endpoint that a media application declares.
-/

namespace AudioBroker

/-- An audio profile. -/
inductive Profile where
  | a2dpSource
  | a2dpSink
  | headsetGateway
  | handsFreeGateway
  deriving DecidableEq

namespace Profile

/-- Every profile. -/
def all : List Profile := [a2dpSource, a2dpSink, headsetGateway, handsFreeGateway]

/-- The service class UUID of a profile, in its canonical spelling. -/
def uuid : Profile → String
  | a2dpSource => "0000110a-0000-1000-8000-00805f9b34fb"
  | a2dpSink => "0000110b-0000-1000-8000-00805f9b34fb"
  | headsetGateway => "00001112-0000-1000-8000-00805f9b34fb"
  | handsFreeGateway => "0000111f-0000-1000-8000-00805f9b34fb"

/-- Whether the profile streams over A2DP; the others use a voice link. -/
def isA2dp : Profile → Bool
  | a2dpSource | a2dpSink => true
  | headsetGateway | handsFreeGateway => false

/-- A text in lower case, as far as it is ASCII: UUIDs that agree in this form are
the same. -/
def foldCase (s : String) : List Char := s.toList.map Char.toLower

/-- The profile that a UUID names, in whatever case its digits are. -/
def ofUuid? (s : String) : Option Profile :=
  all.find? fun p => foldCase p.uuid == foldCase s

theorem mem_all (p : Profile) : p ∈ all := by cases p <;> decide

/-- Different profiles have UUIDs that differ in more than case. -/
theorem foldCase_uuid_injective {p q : Profile}
    (h : foldCase p.uuid = foldCase q.uuid) :
    p = q := by
  cases p <;> cases q <;> try rfl
  all_goals exact absurd h (by decide)

/-- An identifier names a profile whatever the case of its letters. -/
theorem ofUuid?_eq_some_iff {s : String} {p : Profile} :
    ofUuid? s = some p ↔ foldCase p.uuid = foldCase s := by
  constructor
  · intro h
    simpa using List.find?_some h
  · intro h
    cases hq : ofUuid? s with
    | none => exact absurd h (by simpa using List.find?_eq_none.mp hq p (mem_all p))
    | some q =>
      have hs : foldCase q.uuid = foldCase s := by simpa using List.find?_some hq
      rw [foldCase_uuid_injective (h.trans hs.symm)]

end Profile

/-- A local media endpoint. -/
structure Endpoint where
  profile : Profile
  /-- The codec in use; zero is SBC on an A2DP endpoint. -/
  codec : UInt8
  /-- The stream endpoint behind an A2DP endpoint. -/
  sep : Option StreamEndpointId
  deriving DecidableEq

namespace Endpoint

/-- The endpoint declared for a UUID: the UUID must name a profile, and an A2DP
profile needs a stream endpoint. -/
def ofUuid (uuid : String) (codec : UInt8) (sep : Option StreamEndpointId) :
    Except Fault Endpoint :=
  match Profile.ofUuid? uuid with
  | none => .error .notSupported
  | some profile =>
    if profile.isA2dp && sep.isNone then .error .invalidArguments
    else .ok { profile, codec, sep }

/-- The service class UUID of an endpoint. -/
def uuid (e : Endpoint) : String := e.profile.uuid

end Endpoint

end AudioBroker
