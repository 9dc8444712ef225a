/-!
# Transport and owner numbers

Transports and owners are numbered by the broker, and a number is not given out
again. What outlives an owner, such as a report that comes late, carries its token
and then names nobody.

- `TransportId`, `OwnerId`: the numbers, which start again from zero after `2 ^ 32`
  of them.
- `Token`: one owner of one transport.
-/

namespace AudioBroker

/-- The number of a transport. -/
structure TransportId where
  raw : UInt32
  deriving DecidableEq

/-- The number of an owner. -/
structure OwnerId where
  raw : UInt32
  deriving DecidableEq

/-- The number that is given out after this one. -/
def TransportId.next (id : TransportId) : TransportId := ⟨id.raw + 1⟩

@[inherit_doc TransportId.next]
def OwnerId.next (id : OwnerId) : OwnerId := ⟨id.raw + 1⟩

/-- One owner of one transport. -/
structure Token where
  transport : TransportId
  owner : OwnerId
  deriving DecidableEq

end AudioBroker
