/-!
# Faults

- `Fault`: why the broker refuses a call or fails an operation.
- `Fault.name`, `Fault.message`, `Fault.busName`: how a fault is reported to a client.
-/

namespace AudioBroker

/-- Why an operation fails. -/
inductive Fault where
  /-- A wanted direction is taken, the client owns the transport already, the access
  text names no direction, or the client releases what it does not hold. -/
  | permissionDenied
  /-- The stream could not be started, or its start did not finish. -/
  | resumeFailed
  /-- The profile or the property cannot be served. -/
  | notSupported
  /-- An argument is malformed or too long. -/
  | invalidArguments
  /-- No transport lives at the path. -/
  | doesNotExist
  /-- A table of fixed size is full. -/
  | outOfResources
  /-- The bus refused to publish the transport. -/
  | registrationFailed
  deriving DecidableEq

namespace Fault

/-- The interface under which fault names are sent. -/
def interface : String := "org.bluez.Error"

/-- The name of a fault under `Fault.interface`; the causes that a client cannot act
on share one name. -/
def name : Fault → String
  | permissionDenied | resumeFailed | outOfResources | registrationFailed => "Failed"
  | notSupported => "NotSupported"
  | invalidArguments => "InvalidArguments"
  | doesNotExist => "DoesNotExist"

/-- The text that is sent with a fault. -/
def message : Fault → String
  | permissionDenied => "Permission denied"
  | resumeFailed => "Input/output error"
  | notSupported => "Operation is not supported"
  | invalidArguments => "Invalid arguments in method call"
  | doesNotExist => "Does Not Exist"
  | outOfResources => "Cannot allocate memory"
  | registrationFailed => "Unable to register object"

instance : ToString Fault := ⟨message⟩

/-- The full name of a fault on the bus. -/
def busName (f : Fault) : String := interface ++ "." ++ f.name

end Fault

end AudioBroker
