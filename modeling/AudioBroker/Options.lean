import AudioBroker.Access

/-!
# Settings of a broker

- `Options`: how voice links are reported and locked.
-/

namespace AudioBroker

/-- The usual size of a frame on a voice link, in bytes. -/
def defaultVoiceMtu : UInt16 := 48

/-- The settings of a broker. Frames on a voice link have a fixed size, so its MTUs
are set here and not negotiated. -/
structure Options where
  voiceImtu : UInt16 := defaultVoiceMtu
  voiceOmtu : UInt16 := defaultVoiceMtu
  /-- What is locked of a voice channel while it streams. -/
  voiceLock : Access := .readWrite
  deriving DecidableEq

end AudioBroker
