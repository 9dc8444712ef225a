import AudioBroker.Bus.Name
import AudioBroker.Bus.Property

/-!
# The methods of a transport object

- `Method`: a call on a transport object, with its arguments.
- `methodTable`, `signalTable`: the members of the interface with their signatures.
-/

namespace AudioBroker

/-- A method of the interface. -/
structure MethodInfo where
  name : String
  /-- The signature of the arguments. -/
  input : String
  /-- The signature of the answer. -/
  output : String
  /-- Whether the answer may come after the call was handled. -/
  asynchronous : Bool
  deriving DecidableEq

/-- A signal of the interface. -/
structure SignalInfo where
  name : String
  signature : String
  deriving DecidableEq

/-- The methods of a transport object. -/
def methodTable : List MethodInfo :=
  [⟨"GetProperties", "", "a\x7bsv\x7d", false⟩,
    ⟨"Acquire", "s", "h", true⟩,
    ⟨"Release", "s", "", false⟩,
    ⟨"SetProperty", "sv", "", false⟩]

/-- The signals of a transport object. -/
def signalTable : List SignalInfo :=
  [⟨"PropertyChanged", "sv"⟩]

/-- A call on a transport object. -/
inductive Method where
  | getProperties
  | acquire (access : AccessText)
  | release (access : AccessText)
  | setProperty (name : PropertyName) (value : Value)
  deriving DecidableEq

namespace Method

/-- The member that is called. -/
def name : Method → String
  | getProperties => "GetProperties"
  | acquire _ => "Acquire"
  | release _ => "Release"
  | setProperty _ _ => "SetProperty"

/-- The table entry of the member that is called. -/
def info? (m : Method) : Option MethodInfo :=
  methodTable.find? fun i => i.name == m.name

/-- Every method stands in the table. -/
theorem isSome_info? (m : Method) : m.info?.isSome := by
  cases m <;> simp [info?, methodTable, name]

end Method

end AudioBroker
