/-!
# Text of bounded size

Every text that is stored or sent has a size limit, and the limit counts the bytes
of its UTF-8 encoding, not its characters.

- `Text n`: text of at most `n` bytes; the bound is part of the value.
- `Text.ofString?`: a string as bounded text, if it fits.
-/

namespace AudioBroker

/-- Text whose UTF-8 encoding takes at most `n` bytes. -/
structure Text (n : Nat) where
  str : String
  fits : str.utf8ByteSize ≤ n
  deriving DecidableEq

namespace Text

variable {n : Nat}

@[ext] theorem ext {t u : Text n} (h : t.str = u.str) : t = u := by
  cases t; cases u; cases h; rfl

instance : ToString (Text n) := ⟨Text.str⟩

/-- The text `s`, unless it takes more than `n` bytes. -/
def ofString? (s : String) : Option (Text n) :=
  if h : s.utf8ByteSize ≤ n then some ⟨s, h⟩ else none

/-- A text that fits is kept as it is. -/
theorem ofString?_eq_some_iff {s : String} {t : Text n} :
    ofString? s = some t ↔ t.str = s := by
  constructor
  · intro h
    unfold ofString? at h
    split at h
    · cases h; rfl
    · cases h
  · rintro rfl
    simp [ofString?, t.fits]

/-- Only a text with too many bytes does not fit; it is never cut. -/
theorem ofString?_eq_none_iff {s : String} :
    (ofString? s : Option (Text n)) = none ↔ n < s.utf8ByteSize := by
  unfold ofString?
  split
  · next h => simp [Nat.not_lt.mpr h]
  · next h => simp [Nat.lt_of_not_le h]

@[simp] theorem ofString?_str (t : Text n) : ofString? t.str = some t :=
  ofString?_eq_some_iff.mpr rfl

end Text

end AudioBroker
