import AudioBroker.Bounded.Text

/-!
# Names on the bus

What a client writes into a call, and what the broker stores of it, has a size limit
in bytes.

- `ObjectPath`, `ClientName`, `AccessText`, `PropertyName`: the limited texts.
- `transportInterface`: the interface that every transport object serves.
-/

namespace AudioBroker

/-- The longest object path, in bytes. -/
def maxPath : Nat := 96

/-- The longest client name, in bytes. -/
def maxClientName : Nat := 64

/-- The longest access text in a call, in bytes. -/
def maxAccessText : Nat := 8

/-- The longest property name in a call, in bytes. -/
def maxPropertyName : Nat := 32

/-- The path of an adapter, a device or a transport. -/
abbrev ObjectPath := Text maxPath

/-- The unique name of a bus client. -/
abbrev ClientName := Text maxClientName

/-- The directions that a call asks for, as the client spelled them. -/
abbrev AccessText := Text maxAccessText

/-- The property that a call addresses. -/
abbrev PropertyName := Text maxPropertyName

/-- The interface of a transport object. -/
def transportInterface : String := "org.bluez.MediaTransport"

end AudioBroker
