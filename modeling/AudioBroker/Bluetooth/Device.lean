import AudioBroker.Bluetooth.Address
import AudioBroker.Bus.Fault
import AudioBroker.Bus.Name

/-!
# Remote audio devices

- `Device`: the remote end of a transport, with its object path.
- `Device.under`: a device as published below the path of its adapter.
-/

namespace AudioBroker

/-- A remote audio device. -/
structure Device where
  /-- The object path of the device. -/
  path : ObjectPath
  /-- The address of the local adapter. -/
  src : Address
  /-- The address of the remote device. -/
  dst : Address
  deriving DecidableEq

namespace Device

/-- The device `dst` below `adapter`: its path is the adapter's path and the address
segment, and must fit. -/
def under (adapter : String) (src dst : Address) : Except Fault Device :=
  match Text.ofString? (adapter ++ "/" ++ dst.segment) with
  | some path => .ok { path, src, dst }
  | none => .error .invalidArguments

end Device

end AudioBroker
