import AudioBroker.Bounded.List
import AudioBroker.Bus.Name

/-!
# Transport properties

- `Value`: a property value, with the type that it has on the bus.
- `Snapshot`: all properties of a transport at one moment; `Snapshot.entries` is the
  dictionary that a client is sent, and `Snapshot.get?` reads one entry of it.
- `Change`: a property that is announced when it changes.
-/

namespace AudioBroker

/-- The longest codec configuration, in bytes. -/
def maxConfiguration : Nat := 32

/-- The codec configuration agreed on for a stream. -/
abbrev Configuration := BoundedList UInt8 maxConfiguration

/-- A property value, with its type on the bus. -/
inductive Value where
  | objectPath (path : String)
  | boolean (b : Bool)
  | uint16 (n : UInt16)
  | string (s : String)
  | byte (b : UInt8)
  | bytes (bs : List UInt8)
  deriving DecidableEq

/-- A property's name and value. -/
abbrev Entry := String × Value

/-- The properties that only transports of one kind have. -/
inductive Extras where
  /-- The playback delay of an A2DP stream, in tenths of a millisecond. -/
  | a2dp (delay : UInt16)
  /-- The features of a headset's gateway. -/
  | headset (nrec inbandRingtone : Bool)
  deriving DecidableEq

/-- The extras as dictionary entries. -/
def Extras.entries : Extras → List Entry
  | a2dp delay => [("Delay", .uint16 delay)]
  | headset nrec inbandRingtone =>
    [("NREC", .boolean nrec), ("InbandRingtone", .boolean inbandRingtone)]

/-- All properties of a transport at one moment. -/
structure Snapshot where
  device : ObjectPath
  readLock : Bool
  writeLock : Bool
  imtu : UInt16
  omtu : UInt16
  uuid : String
  codec : UInt8
  configuration : Configuration
  extras : Extras
  deriving DecidableEq

namespace Snapshot

/-- The most entries that a dictionary takes. -/
def maxEntries : Nat := 10

/-- The entries that every transport has. -/
def common (s : Snapshot) : List Entry :=
  [("Device", .objectPath s.device.str),
    ("ReadLock", .boolean s.readLock),
    ("WriteLock", .boolean s.writeLock),
    ("IMTU", .uint16 s.imtu),
    ("OMTU", .uint16 s.omtu),
    ("UUID", .string s.uuid),
    ("Codec", .byte s.codec),
    ("Configuration", .bytes s.configuration.toList)]

/-- The dictionary that a client is sent: the common entries and then the extras, as
far as there is room. -/
def entries (s : Snapshot) : List Entry :=
  (s.common ++ s.extras.entries).take maxEntries

/-- The value of the property with the given name. -/
def get? (s : Snapshot) (name : String) : Option Value :=
  (s.entries.find? fun e => e.1 == name).map Prod.snd

end Snapshot

/-- A change of a property that is announced to the clients. -/
inductive Change where
  | imtu (n : UInt16)
  | omtu (n : UInt16)
  | delay (n : UInt16)
  deriving DecidableEq

namespace Change

/-- The property that changed. -/
def name : Change → String
  | imtu _ => "IMTU"
  | omtu _ => "OMTU"
  | delay _ => "Delay"

/-- The new value of the property. -/
def value : Change → Value
  | imtu n | omtu n | delay n => .uint16 n

end Change

end AudioBroker
