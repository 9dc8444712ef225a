/-!
# Streams

What the profile layers report and hand out; the broker stores these values and
passes them on.

- `Stream`: a live descriptor with its two MTUs.
- `StreamEndpointId`, `SessionId`, `RequestId`: handles of a stream endpoint, of a
  signalling session and of a start under way.
- `ResumeReport`: how the start of an A2DP stream ended.
-/

namespace AudioBroker

/-- The number of a stream descriptor. -/
structure StreamFd where
  raw : Int32
  deriving DecidableEq

/-- The number of a local stream endpoint. -/
abbrev StreamEndpointId := UInt8

/-- A live stream. -/
structure Stream where
  fd : StreamFd
  /-- The largest unit that can be received. -/
  imtu : UInt16
  /-- The largest unit that can be sent. -/
  omtu : UInt16
  deriving DecidableEq

/-- A signalling session between two addresses. -/
structure SessionId where
  raw : UInt16
  deriving DecidableEq

/-- A start under way, by which it can be aborted; zero is no request. -/
structure RequestId where
  raw : UInt32
  ne_zero : raw ≠ 0
  deriving DecidableEq

namespace RequestId

/-- The request with the given number, unless it is zero. -/
def ofRaw? (raw : UInt32) : Option RequestId :=
  if h : raw ≠ 0 then some ⟨raw, h⟩ else none

end RequestId

/-- Why the start of an A2DP stream failed. -/
inductive ResumeError where
  /-- The remote device refused, with a code. -/
  | rejected (code : UInt8)
  /-- The signalling channel went away. -/
  | disconnected
  /-- The remote device did not answer in time. -/
  | timeout
  deriving DecidableEq

/-- How the start of an A2DP stream ended. -/
inductive ResumeReport where
  | started
  | failed (cause : ResumeError)
  deriving DecidableEq

namespace ResumeReport

/-- Whether the stream was started. -/
def isStarted : ResumeReport → Bool
  | started => true
  | failed _ => false

end ResumeReport

end AudioBroker
