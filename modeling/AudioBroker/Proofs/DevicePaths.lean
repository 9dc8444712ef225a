import AudioBroker.Proofs.Creation
import AudioBroker.Proofs.Paths

/-!
# The path of a device tells its address

The path of a device is the path of its adapter, a separator, and the address of the
device in hexadecimal digits. The address is written into a buffer that has room for
not a byte more, digit by digit, where a push that does not fit is dropped without a
word.

- `Text.pushEach`: text written piece by piece, as far as the pieces fit.
- `Address.pieces`, `Address.written`: an address as it is written into its buffer.
- `Address.written_str`, `Address.push?_isSome`: the buffer holds the whole segment,
  and no push fails.
- `Address.groups`, `Address.ofSegment?`: the parts of a segment, and the address
  that is read from them.
- `Address.ofSegment?_eq_some_iff`: the texts that can be read are the segments of
  the addresses.
- `Device.paths_are_lossless`: what it comes to for all addresses and adapters.
-/

namespace AudioBroker

/-! ### Writing piece by piece -/

namespace Text

variable {n : Nat}

/-- Text with nothing in it. -/
def empty : Text n := ⟨"", Nat.zero_le n⟩

/-- Adds a piece at the end, if it fits. -/
def push? (t : Text n) (piece : String) : Option (Text n) :=
  ofString? (t.str ++ piece)

/-- Adds one piece after the other. A piece that does not fit is left out. -/
def pushEach (t : Text n) (pieces : List String) : Text n :=
  pieces.foldl (fun t piece => (t.push? piece).getD t) t

theorem exists_push? (t : Text n) (piece : String)
    (h : t.str.utf8ByteSize + piece.utf8ByteSize ≤ n) :
    ∃ u, t.push? piece = some u ∧ u.str = t.str ++ piece := by
  rw [← String.utf8ByteSize_append] at h
  exact ⟨⟨t.str ++ piece, h⟩, ofString?_eq_some_iff.mpr rfl, rfl⟩

/-- Where there is room for all of the pieces, they are all written. -/
theorem pushEach_str (pieces : List String) (t : Text n)
    (h : t.str.utf8ByteSize + (String.join pieces).utf8ByteSize ≤ n) :
    (t.pushEach pieces).str = t.str ++ String.join pieces := by
  induction pieces generalizing t with
  | nil => simp [pushEach]
  | cons piece pieces ih =>
    rw [String.join_cons, String.utf8ByteSize_append] at h
    obtain ⟨u, hpush, hstr⟩ := exists_push? t piece (by omega)
    have hroom : u.str.utf8ByteSize + (String.join pieces).utf8ByteSize ≤ n := by
      rw [hstr, String.utf8ByteSize_append]
      omega
    rw [pushEach, List.foldl_cons, hpush, Option.getD_some, ← pushEach, ih u hroom,
      hstr, String.join_cons, String.append_assoc]

/-- Where there is room for all of the pieces, no push fails. -/
theorem push?_pushEach_isSome {pre post : List String} {piece : String} (t : Text n)
    (h : t.str.utf8ByteSize + (String.join (pre ++ piece :: post)).utf8ByteSize ≤ n) :
    ((t.pushEach pre).push? piece).isSome = true := by
  rw [String.join_append, String.join_cons, String.utf8ByteSize_append,
    String.utf8ByteSize_append] at h
  have hwritten := pushEach_str pre t (by omega)
  have hroom : (t.pushEach pre).str.utf8ByteSize + piece.utf8ByteSize ≤ n := by
    rw [hwritten, String.utf8ByteSize_append]
    omega
  obtain ⟨u, hpush, -⟩ := exists_push? _ piece hroom
  rw [hpush]
  rfl

end Text

namespace Address

/-! ### The segment as it is written -/

/-- The digits of sixteen. -/
def digits : List Char := "0123456789ABCDEF".toList

/-- The digit for a value below sixteen. -/
def digit (value : UInt8) : String := String.ofList (digits[value.toNat]?).toList

/-- A byte as it is written: a separator before any but the first, the upper digit,
and the lower digit. -/
def bytePieces (place : Nat) (b : UInt8) : List String :=
  (if 0 < place then ["_"] else []) ++ [digit (b >>> 4), digit (b &&& 0x0F)]

/-- All that is pushed for an address, in order. -/
def pieces (a : Address) : List String :=
  "dev_" :: a.bytes.toList.zipIdx.flatMap fun entry => bytePieces entry.2 entry.1

/-- The buffer of 21 bytes, after everything has been pushed. -/
def written (a : Address) : Text 21 := Text.empty.pushEach a.pieces

/-- The table of the digits is in the order of their values. -/
theorem digits_getElem? {n : Nat} (h : n < 16) : digits[n]? = some (hexDigit n) := by
  have hall : ∀ n < 16, digits[n]? = some (hexDigit n) := by decide
  exact hall n h

/-- The two halves of a byte are its two digits. -/
theorem digit_pair (b : UInt8) :
    digit (b >>> 4) ++ digit (b &&& 0x0F) = hexByte b := by
  have hupper : (b >>> 4).toNat = b.toNat / 16 := by
    rw [UInt8.toNat_shiftRight, Nat.shiftRight_eq_div_pow]
    rfl
  have hlower : (b &&& 0x0F).toNat = b.toNat % 16 := by
    rw [UInt8.toNat_and]
    exact Nat.and_two_pow_sub_one_eq_mod b.toNat 4
  have hb := b.toNat_lt
  rw [digit, digit, hupper, hlower, digits_getElem? (by omega),
    digits_getElem? (by omega), ← String.ofList_append]
  rfl

/-- After the first byte, each byte comes with the separator before it. -/
theorem join_bytePieces (b : UInt8) (bs : List UInt8) (place : Nat) (h : 0 < place) :
    hexByte b ++ String.join ((bs.zipIdx place).flatMap fun entry =>
      bytePieces entry.2 entry.1) = "_".intercalate ((b :: bs).map hexByte) := by
  induction bs generalizing b place with
  | nil => simp
  | cons c bs ih =>
    rw [List.zipIdx_cons, List.flatMap_cons, bytePieces, if_pos h,
      String.join_append, List.map_cons, List.map_cons,
      String.intercalate_cons_cons, ← List.map_cons,
      ← ih c (place + 1) (Nat.succ_pos _), ← digit_pair c]
    simp [String.join_cons, String.append_assoc]

/-- What is pushed comes to the segment. -/
theorem join_pieces (a : Address) : String.join a.pieces = a.segment := by
  have hlength : a.bytes.toList.length = 6 := a.bytes.length_toList
  rw [pieces, segment, String.join_cons]
  congr 1
  cases hbytes : a.bytes.toList with
  | nil =>
    rw [hbytes] at hlength
    cases hlength
  | cons b bs =>
    rw [List.zipIdx_cons, List.flatMap_cons, bytePieces, if_neg (Nat.lt_irrefl 0),
      String.join_append, ← join_bytePieces b bs (0 + 1) (Nat.succ_pos 0),
      ← digit_pair b]
    simp [String.join_cons]

/-- The buffer has room for the whole segment. -/
theorem join_pieces_size (a : Address) :
    (Text.empty : Text 21).str.utf8ByteSize +
      (String.join a.pieces).utf8ByteSize ≤ 21 := by
  rw [join_pieces, segment_size]
  exact Nat.le_refl 21

/-- What is written is the segment, in full. -/
theorem written_str (a : Address) : a.written.str = a.segment := by
  rw [written, Text.pushEach_str _ _ a.join_pieces_size, join_pieces]
  exact String.empty_append

/-- None of the pushes fails. -/
theorem push?_isSome (a : Address) {pre post : List String} {piece : String}
    (h : a.pieces = pre ++ piece :: post) :
    (((Text.empty : Text 21).pushEach pre).push? piece).isSome = true := by
  have hroom := a.join_pieces_size
  rw [h] at hroom
  exact Text.push?_pushEach_isSome _ hroom

/-! ### The segment as it is read -/

/-- The parts of a segment after its prefix. -/
def groups (segment : String) : List (List Char) :=
  (segment.toList.drop 4).splitOn '_'

/-- The byte that two digits stand for. -/
def ofDigits? : List Char → Option UInt8
  | [upper, lower] => do
    let u ← digits.idxOf? upper
    let l ← digits.idxOf? lower
    return UInt8.ofNat (16 * u + l)
  | _ => none

/-- The address that a segment stands for: six groups of two digits after the
prefix. -/
def ofSegment? (segment : String) : Option Address :=
  if "dev_".toList <+: segment.toList then
    match (groups segment).mapM ofDigits? with
    | some bytes => if h : bytes.length = 6 then some ⟨⟨bytes.toArray, h⟩⟩ else none
    | none => none
  else none

/-- A digit is read as its value. -/
theorem idxOf?_eq_some_iff {c : Char} {n : Nat} :
    digits.idxOf? c = some n ↔ n < 16 ∧ c = hexDigit n := by
  have hlength : digits.length = 16 := by decide
  constructor
  · intro h
    obtain ⟨hn, rfl, -⟩ := List.idxOf?_eq_some_iff.mp h
    rw [hlength] at hn
    exact ⟨hn, Option.some.inj ((List.getElem?_eq_getElem _).symm.trans
      (digits_getElem? hn))⟩
  · rintro ⟨hn, rfl⟩
    have hall : ∀ n < 16, digits.idxOf? (hexDigit n) = some n := by decide
    exact hall n hn

/-- Two digits are read as a byte exactly if the byte is written so. -/
theorem ofDigits?_eq_some_iff {cs : List Char} {b : UInt8} :
    ofDigits? cs = some b ↔ cs = (hexByte b).toList := by
  have hb := b.toNat_lt
  rw [hexByte, String.toList_ofList]
  constructor
  · intro h
    unfold ofDigits? at h
    split at h
    · next upper lower =>
      simp only [Option.bind_eq_bind, Option.bind_eq_some_iff, idxOf?_eq_some_iff,
        Option.pure_def, Option.some.injEq] at h
      obtain ⟨u, ⟨hu, rfl⟩, l, ⟨hl, rfl⟩, rfl⟩ := h
      -- two digits stay below 256
      have hvalue : (UInt8.ofNat (16 * u + l)).toNat = 16 * u + l := by
        rw [UInt8.toNat_ofNat']
        omega
      rw [hvalue, Nat.mul_add_div (by decide), Nat.div_eq_of_lt hl, Nat.mul_add_mod,
        Nat.mod_eq_of_lt hl]
      rfl
    · cases h
  · rintro rfl
    have hupper : digits.idxOf? (hexDigit (b.toNat / 16)) = some (b.toNat / 16) :=
      idxOf?_eq_some_iff.mpr ⟨by omega, rfl⟩
    have hlower : digits.idxOf? (hexDigit (b.toNat % 16)) = some (b.toNat % 16) :=
      idxOf?_eq_some_iff.mpr ⟨by omega, rfl⟩
    rw [ofDigits?, hupper, hlower]
    show some (UInt8.ofNat (16 * (b.toNat / 16) + b.toNat % 16)) = some b
    rw [Nat.div_add_mod, UInt8.ofNat_toNat]

/-- Groups are read as bytes exactly if the bytes are written so. -/
theorem mapM_ofDigits?_eq_some_iff {css : List (List Char)} {bytes : List UInt8} :
    css.mapM ofDigits? = some bytes ↔
      css = bytes.map fun b => (hexByte b).toList := by
  induction css generalizing bytes with
  | nil => cases bytes <;> simp
  | cons cs css ih =>
    rw [List.mapM_cons]
    cases bytes with
    | nil => simp [Option.bind_eq_some_iff]
    | cons b bytes =>
      rw [List.map_cons, List.cons.injEq, ← ofDigits?_eq_some_iff, ← ih]
      simp [Option.bind_eq_some_iff]

/-- The groups of the segment of an address are its bytes in order. -/
theorem groups_segment (a : Address) :
    groups a.segment = a.bytes.toList.map fun b => (hexByte b).toList := by
  have hdigit : ∀ n < 16, hexDigit n ≠ '_' := by decide
  have hchars : a.segment.toList.drop 4 =
      ['_'].intercalate (a.bytes.toList.map fun b => (hexByte b).toList) := by
    rw [segment, String.toList_append, String.toList_intercalate, List.map_map]
    rfl
  rw [groups, hchars]
  -- no digit is the separator, and there are groups
  refine List.splitOn_intercalate '_' ?_ ?_
  · rintro cs hcs hmem
    obtain ⟨b, -, rfl⟩ := List.mem_map.mp hcs
    have hb := b.toNat_lt
    rw [hexByte, String.toList_ofList, List.mem_pair] at hmem
    rcases hmem with h | h
    · exact hdigit _ (by omega) h.symm
    · exact hdigit _ (by omega) h.symm
  · have hlength : a.bytes.toList.length = 6 := a.bytes.length_toList
    rw [← List.length_pos_iff, List.length_map, hlength]
    decide

/-- The texts that can be read are the segments of the addresses, and each is read
as its address. -/
theorem ofSegment?_eq_some_iff {s : String} {a : Address} :
    ofSegment? s = some a ↔ s = a.segment := by
  constructor
  · intro h
    unfold ofSegment? at h
    split at h
    · next hprefix =>
      split at h
      · next bytes hbytes =>
        split at h
        · cases h
          obtain ⟨rest, hrest⟩ := hprefix
          rw [mapM_ofDigits?_eq_some_iff, groups, ← hrest] at hbytes
          have hjoin : ['_'].intercalate (rest.splitOn '_') = rest :=
            List.intercalate_splitOn '_'
          -- what was taken apart at the separators is put together again
          replace hbytes : rest.splitOn '_' = bytes.map fun b =>
            (hexByte b).toList := hbytes
          rw [← String.toList_inj, ← hrest, segment, String.toList_append,
            String.toList_intercalate, List.map_map, ← hjoin, hbytes]
          rfl
        · cases h
      · cases h
    · cases h
  · rintro rfl
    have hprefix : "dev_".toList <+: a.segment.toList := by
      rw [segment, String.toList_append]
      exact List.prefix_append _ _
    have hbytes : (groups a.segment).mapM ofDigits? = some a.bytes.toList :=
      mapM_ofDigits?_eq_some_iff.mpr a.groups_segment
    simp only [ofSegment?, if_pos hprefix, hbytes, Vector.length_toList, dite_true]
    rfl

/-- The groups are joined by the separator, and each is made of two of the digits. -/
theorem segment_eq_groups (a : Address) :
    a.segment = "dev_" ++ "_".intercalate ((groups a.segment).map String.ofList) ∧
      (groups a.segment).length = 6 ∧
      ∀ cs ∈ groups a.segment, ∃ upper ∈ digits, ∃ lower ∈ digits,
        cs = [upper, lower] := by
  have hmem : ∀ n < 16, hexDigit n ∈ digits :=
    fun n hn => List.mem_of_getElem? (digits_getElem? hn)
  rw [groups_segment]
  refine ⟨?_, by rw [List.length_map, Vector.length_toList], ?_⟩
  · rw [List.map_map]
    simp only [Function.comp_def, String.ofList_toList]
    rfl
  · intro cs hcs
    obtain ⟨b, -, rfl⟩ := List.mem_map.mp hcs
    have hb := b.toNat_lt
    exact ⟨_, hmem _ (by omega), _, hmem _ (by omega), String.toList_ofList⟩

/-- Different addresses have different segments. -/
theorem segment_injective : Function.Injective segment := by
  intro a b h
  have hread : ofSegment? a.segment = some b := ofSegment?_eq_some_iff.mpr h
  exact Option.some.inj ((ofSegment?_eq_some_iff.mpr rfl).symm.trans hread)

/-- The segments have no separator of paths in them. -/
theorem slash_notMem_segment (a : Address) : '/' ∉ a.segment.toList := by
  have hdigit : ∀ value : UInt8, '/' ∉ (digit value).toList := by
    intro value hmem
    rw [digit, String.toList_ofList, Option.mem_toList] at hmem
    exact absurd (List.mem_of_getElem? hmem) (by decide)
  rw [← join_pieces, String.toList_join, pieces]
  intro hmem
  simp only [bytePieces, List.mem_flatMap, List.mem_cons, List.mem_append,
    List.not_mem_nil, or_false, List.mem_ite_nil_right] at hmem
  obtain ⟨piece, rfl | ⟨entry, -, ⟨-, rfl⟩ | rfl | rfl⟩, hmem⟩ := hmem
  · exact absurd hmem (by decide)
  · exact absurd hmem (by decide)
  · exact hdigit _ hmem
  · exact hdigit _ hmem

end Address

/-! ### Devices below adapters -/

namespace Device

variable {adapter adapter' : String} {src src' dst dst' : Address} {d d' : Device}

/-- A device is the adapter, a separator and the segment, with the addresses that it
was given, where that fits. -/
theorem under_eq_ok_iff : under adapter src dst = .ok d ↔
    d.path.str = adapter ++ "/" ++ dst.segment ∧ d.src = src ∧ d.dst = dst := by
  rw [← Text.ofString?_eq_some_iff]
  unfold under
  constructor
  · intro h
    split at h
    · next path hpath =>
      cases h
      exact ⟨hpath, rfl, rfl⟩
    · cases h
  · rintro ⟨hpath, rfl, rfl⟩
    rw [hpath]

/-- The segment and the separator take 22 of the 96 bytes of a path. -/
theorem under_eq_error_iff {fault : Fault} : under adapter src dst = .error fault ↔
    fault = .invalidArguments ∧ 74 < adapter.utf8ByteSize := by
  have hsize : (adapter ++ "/" ++ dst.segment).utf8ByteSize = adapter.utf8ByteSize +
      22 := by
    rw [String.utf8ByteSize_append, String.utf8ByteSize_append, Address.segment_size]
    rfl
  have hpath : 74 < adapter.utf8ByteSize ↔
      (Text.ofString? (adapter ++ "/" ++ dst.segment) : Option ObjectPath) =
        none := by
    rw [Text.ofString?_eq_none_iff, hsize]
    show _ ↔ 96 < _
    omega
  rw [hpath]
  unfold under
  split
  · next path hsome => simp [hsome]
  · next hnone => simp [hnone, eq_comm]

/-- A device can be built exactly below the adapters whose path is short enough. -/
theorem exists_under_eq_ok_iff :
    (∃ d, under adapter src dst = .ok d) ↔ adapter.utf8ByteSize ≤ 74 := by
  constructor
  · rintro ⟨d, hd⟩
    by_contra hlong
    rw [under_eq_error_iff.mpr ⟨rfl, by omega⟩] at hd
    cases hd
  · intro hshort
    cases h : under adapter src dst with
    | ok d => exact ⟨d, rfl⟩
    | error fault => exact absurd (under_eq_error_iff.mp h).2 (by omega)

/-- The last separator of the path of a device is the one before its address,
whatever the adapter is. -/
theorem path_eq_iff (h : under adapter src dst = .ok d)
    (h' : under adapter' src' dst' = .ok d') :
    d.path = d'.path ↔ adapter = adapter' ∧ dst = dst' := by
  obtain ⟨hpath, -, -⟩ := under_eq_ok_iff.mp h
  obtain ⟨hpath', -, -⟩ := under_eq_ok_iff.mp h'
  constructor
  · intro heq
    have htext : adapter ++ "/" ++ dst.segment = adapter' ++ "/" ++ dst'.segment := by
      rw [← hpath, ← hpath', heq]
    have hchars := congrArg String.toList htext
    simp only [String.toList_append, List.append_assoc] at hchars
    have hsegment : dst.segment = dst'.segment := String.toList_injective
      (eq_of_last_separator hchars dst.slash_notMem_segment dst'.slash_notMem_segment)
    rw [hsegment, String.append_left_inj, String.append_left_inj] at htext
    exact ⟨htext, Address.segment_injective hsegment⟩
  · rintro ⟨rfl, rfl⟩
    exact Text.ext (hpath.trans hpath'.symm)

end Device

/-- The segment of every address takes 21 bytes: the prefix, and six groups of two
hexadecimal digits in upper case, joined by the separator. It is all written, and no
push fails. The groups are read as the bytes of the address in order; more than
that, the texts that can be read are the segments. A device can be built exactly
below the adapters whose path takes at most 74 bytes, and the paths of two devices
are equal exactly if both the adapters and the remote addresses are. -/
theorem Device.paths_are_lossless :
    (∀ a : Address,
      a.segment.utf8ByteSize = 21 ∧
      (a.segment = "dev_" ++ "_".intercalate
        ((Address.groups a.segment).map String.ofList) ∧
        (Address.groups a.segment).length = 6 ∧
        ∀ cs ∈ Address.groups a.segment,
          ∃ upper ∈ Address.digits, ∃ lower ∈ Address.digits, cs = [upper, lower]) ∧
      (a.written.str = a.segment ∧ ∀ pre piece post, a.pieces = pre ++ piece :: post →
        (((Text.empty : Text 21).pushEach pre).push? piece).isSome = true) ∧
      (Address.groups a.segment).mapM Address.ofDigits? = some a.bytes.toList ∧
      ∀ text, Address.ofSegment? text = some a ↔ text = a.segment) ∧
    (∀ adapter src dst,
      ((∃ d, under adapter src dst = .ok d) ↔ adapter.utf8ByteSize ≤ 74) ∧
      (∀ fault, under adapter src dst = .error fault ↔
        fault = .invalidArguments ∧ 74 < adapter.utf8ByteSize) ∧
      ∀ d, under adapter src dst = .ok d ↔
        d.path.str = adapter ++ "/" ++ dst.segment ∧ d.src = src ∧ d.dst = dst) ∧
    ∀ adapter src dst d adapter' src' dst' d',
      under adapter src dst = .ok d → under adapter' src' dst' = .ok d' →
        (d.path = d'.path ↔ adapter = adapter' ∧ dst = dst') := by
  refine ⟨fun a => ⟨a.segment_size, a.segment_eq_groups,
    ⟨a.written_str, fun _ _ _ => a.push?_isSome⟩, ?_, ?_⟩,
    fun _ _ _ => ⟨exists_under_eq_ok_iff, fun _ => under_eq_error_iff,
      fun _ => under_eq_ok_iff⟩,
    fun _ _ _ _ _ _ _ _ => path_eq_iff⟩
  · exact Address.mapM_ofDigits?_eq_some_iff.mpr a.groups_segment
  · exact fun _ => Address.ofSegment?_eq_some_iff

/-- An adapter whose path is that of a device. -/
def Scene.nestedAdapter : String := "/hci0/" ++ Scene.device.dst.segment

/-- An adapter whose path takes 74 bytes, but has fewer characters. -/
def Scene.longestAdapter : String := "/hci" ++ String.ofList (List.replicate 35 'é')

/-- The device has another path below the adapter than below the path that it has
there itself. There is a path for it below the longest adapter, but not with one
byte more. -/
theorem Device.nested_adapters_are_told_apart :
    ∃ d d', under "/hci0" Scene.device.src Scene.device.dst = .ok d ∧
      under Scene.nestedAdapter Scene.device.src Scene.device.dst = .ok d' ∧
      d.path ≠ d'.path ∧
      (∃ d, under Scene.longestAdapter Scene.device.src Scene.device.dst = .ok d) ∧
      under (Scene.longestAdapter ++ "x") Scene.device.src Scene.device.dst =
        .error .invalidArguments := by
  obtain ⟨-, hunder, hpaths⟩ := Device.paths_are_lossless
  have hnested : Scene.nestedAdapter.utf8ByteSize = 27 := by decide
  have hlongest : Scene.longestAdapter.utf8ByteSize = 74 := by decide
  have hlonger : (Scene.longestAdapter ++ "x").utf8ByteSize = 75 := by decide
  obtain ⟨d, hd⟩ := (hunder "/hci0" Scene.device.src Scene.device.dst).1.mpr
    (by decide)
  obtain ⟨d', hd'⟩ :=
    (hunder Scene.nestedAdapter Scene.device.src Scene.device.dst).1.mpr (by omega)
  refine ⟨d, d', hd, hd', fun heq => ?_, (hunder _ _ _).1.mpr (by omega),
    ((hunder _ _ _).2.1 _).mpr ⟨rfl, by omega⟩⟩
  have hadapters := ((hpaths _ _ _ _ _ _ _ _ hd hd').mp heq).1
  exact absurd hadapters (by decide)

end AudioBroker
