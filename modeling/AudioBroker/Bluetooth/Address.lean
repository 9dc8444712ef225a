/-!
# Bluetooth device addresses

- `Address`: the six bytes of a device address, most significant first.
- `Address.segment`: the address as the last segment of a device's object path.
-/

namespace AudioBroker

/-- A Bluetooth device address, in the order in which it is written. -/
structure Address where
  bytes : Vector UInt8 6
  deriving DecidableEq

namespace Address

/-- The upper-case hexadecimal digit of `n < 16`. -/
def hexDigit (n : Nat) : Char :=
  if n < 10 then Char.ofNat ('0'.toNat + n) else Char.ofNat ('A'.toNat + (n - 10))

/-- A byte as two hexadecimal digits. -/
def hexByte (b : UInt8) : String :=
  String.ofList [hexDigit (b.toNat / 16), hexDigit (b.toNat % 16)]

/-- The path segment of a device: `12:34:56:78:9A:BC` is written
`dev_12_34_56_78_9A_BC`. -/
def segment (a : Address) : String :=
  "dev_" ++ "_".intercalate (a.bytes.toList.map hexByte)

example : segment ⟨#v[0x00, 0x1B, 0xDC, 0x07, 0x32, 0xF5]⟩ =
    "dev_00_1B_DC_07_32_F5" := by
  decide

end Address

end AudioBroker
