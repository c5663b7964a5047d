import EtherDog.Lib.LittleEndian
import EtherDog.Data.Frame

/-!
# The frame header on both sides of the wire

The server writes and reads the header with shifting byte loops
(include/etherdog_protocol.h); the client packs and unpacks it with Python's
`struct` format `<4sBBBBQIHH` (tools/etherdog_client.py).  Both are read here as
little-endian numbers, so the two sides agree on every field of every frame.
-/

set_option autoImplicit false

namespace EtherDog

open LittleEndian

/-! ## The byte loops -/

theorem edogPutU16_eq (v : UInt16) : edogPutU16 v = bytesOf 2 v.toNat := by
  have high : (v >>> 8).toUInt8 = UInt8.ofNat (v.toNat / 256) := by
    apply UInt8.toNat_inj.mp
    rw [UInt16.toNat_toUInt8, UInt16.toNat_shiftRight, UInt8.toNat_ofNat']
    exact byte_of_shift v.toNat 1
  have low : v.toUInt8 = UInt8.ofNat v.toNat := by
    apply UInt8.toNat_inj.mp
    rw [UInt16.toNat_toUInt8, UInt8.toNat_ofNat']
  rw [edogPutU16, high, low]
  rfl

theorem edogPutU32_eq (v : UInt32) : edogPutU32 v = bytesOf 4 v.toNat := by
  rw [edogPutU32, bytesOf_eq_map]
  apply List.map_congr_left
  intro i member
  have bound := List.mem_range.mp member
  have shift : (UInt32.ofNat (8 * i)).toNat % 32 = 8 * i := by
    rw [UInt32.toNat_ofNat']
    omega
  apply UInt8.toNat_inj.mp
  rw [UInt32.toNat_toUInt8, UInt32.toNat_shiftRight, shift, UInt8.toNat_ofNat']
  exact byte_of_shift v.toNat i

theorem edogPutU64_eq (v : UInt64) : edogPutU64 v = bytesOf 8 v.toNat := by
  rw [edogPutU64, bytesOf_eq_map]
  apply List.map_congr_left
  intro i member
  have bound := List.mem_range.mp member
  have shift : (UInt64.ofNat (8 * i)).toNat % 64 = 8 * i := by
    rw [UInt64.toNat_ofNat']
    omega
  apply UInt8.toNat_inj.mp
  rw [UInt64.toNat_toUInt8, UInt64.toNat_shiftRight, shift, UInt8.toNat_ofNat']
  exact byte_of_shift v.toNat i

/-- The `count` bytes at `p`. -/
def bytesAt (bytes : List UInt8) (p count : Nat) : List UInt8 :=
  (List.range count).map fun i => byteAt bytes (p + i)

theorem bytesAt_length (bytes : List UInt8) (p count : Nat) :
    (bytesAt bytes p count).length = count := by
  simp [bytesAt]

theorem shiftIn_u32 (v : UInt32) (byte : UInt8) :
    ((v <<< 8) ||| byte.toUInt32).toNat = (byte.toNat + 256 * v.toNat) % 2 ^ 32 := by
  rw [UInt32.toNat_or, UInt32.toNat_shiftLeft, UInt8.toNat_toUInt32]
  exact shiftIn_eq 32 v.toNat byte.toNat (by decide) byte.toNat_lt

theorem shiftIn_u64 (v : UInt64) (byte : UInt8) :
    ((v <<< 8) ||| byte.toUInt64).toNat = (byte.toNat + 256 * v.toNat) % 2 ^ 64 := by
  rw [UInt64.toNat_or, UInt64.toNat_shiftLeft, UInt8.toNat_toUInt64]
  exact shiftIn_eq 64 v.toNat byte.toNat (by decide) byte.toNat_lt

theorem edogGetU16_toNat (bytes : List UInt8) (p : Nat) :
    (edogGetU16 bytes p).toNat = valueOf (bytesAt bytes p 2) := by
  have first := (byteAt bytes p).toNat_lt
  have second := (byteAt bytes (p + 1)).toNat_lt
  have pushed := shiftIn_eq 16 (byteAt bytes (p + 1)).toNat (byteAt bytes p).toNat (by decide) first
  rw [edogGetU16, UInt16.toNat_or, UInt16.toNat_shiftLeft, UInt8.toNat_toUInt16,
    UInt8.toNat_toUInt16, Nat.or_comm]
  change _ <<< 8 % 2 ^ 16 ||| _ = (byteAt bytes p).toNat + 256 * ((byteAt bytes (p + 1)).toNat + 0)
  rw [pushed]
  omega

theorem edogGetU32_toNat (bytes : List UInt8) (p : Nat) :
    (edogGetU32 bytes p).toNat = valueOf (bytesAt bytes p 4) := by
  have bounded := valueOf_lt (bytesAt bytes p 4)
  rw [bytesAt_length] at bounded
  have value : valueOf (bytesAt bytes p 4) = (byteAt bytes p).toNat +
      256 * ((byteAt bytes (p + 1)).toNat + 256 * ((byteAt bytes (p + 2)).toNat +
        256 * ((byteAt bytes (p + 3)).toNat + 256 * 0))) := rfl
  simp only [edogGetU32, List.foldl_cons, List.foldl_nil, shiftIn_u32, UInt32.toNat_zero, add_zero]
  omega

theorem edogGetU64_toNat (bytes : List UInt8) (p : Nat) :
    (edogGetU64 bytes p).toNat = valueOf (bytesAt bytes p 8) := by
  have bounded := valueOf_lt (bytesAt bytes p 8)
  rw [bytesAt_length] at bounded
  have value : valueOf (bytesAt bytes p 8) = (byteAt bytes p).toNat +
      256 * ((byteAt bytes (p + 1)).toNat + 256 * ((byteAt bytes (p + 2)).toNat +
        256 * ((byteAt bytes (p + 3)).toNat + 256 * ((byteAt bytes (p + 4)).toNat +
          256 * ((byteAt bytes (p + 5)).toNat + 256 * ((byteAt bytes (p + 6)).toNat +
            256 * ((byteAt bytes (p + 7)).toNat + 256 * 0))))))) := rfl
  simp only [edogGetU64, List.foldl_cons, List.foldl_nil, shiftIn_u64, UInt64.toNat_zero, add_zero]
  omega

/-! ## Encoding and decoding -/

theorem edogPutU16_get (bytes : List UInt8) (p : Nat) :
    edogPutU16 (edogGetU16 bytes p) = bytesAt bytes p 2 := by
  rw [edogPutU16_eq, edogGetU16_toNat]
  exact bytesOf_valueOf (bytesAt bytes p 2)

theorem edogPutU32_get (bytes : List UInt8) (p : Nat) :
    edogPutU32 (edogGetU32 bytes p) = bytesAt bytes p 4 := by
  rw [edogPutU32_eq, edogGetU32_toNat]
  exact bytesOf_valueOf (bytesAt bytes p 4)

theorem edogPutU64_get (bytes : List UInt8) (p : Nat) :
    edogPutU64 (edogGetU64 bytes p) = bytesAt bytes p 8 := by
  rw [edogPutU64_eq, edogGetU64_toNat]
  exact bytesOf_valueOf (bytesAt bytes p 8)

theorem bytesAt_zero (bytes : List UInt8) (count : Nat) (inside : count ≤ bytes.length) :
    bytesAt bytes 0 count = bytes.take count := by
  apply List.ext_getElem
  · rw [bytesAt_length, List.length_take]
    omega
  · intro i left right
    have bound : i < bytes.length := by
      rw [bytesAt_length] at left
      omega
    simp [bytesAt, byteAt, bound]

theorem readHeader_encode (h : FrameHeader) (payload : List UInt8) :
    readHeader (edogFrameEncodeHeader h ++ payload) = h := by
  generalize written : edogFrameEncodeHeader h ++ payload = frame
  have session : edogGetU64 frame 8 = h.session := by
    apply UInt64.toNat_inj.mp
    have bytes : bytesAt frame 8 8 = edogPutU64 h.session := by
      rw [← written]
      rfl
    rw [edogGetU64_toNat, bytes, edogPutU64_eq, valueOf_bytesOf]
    exact Nat.mod_eq_of_lt h.session.toNat_lt
  have sequence : edogGetU32 frame 16 = h.sequence := by
    apply UInt32.toNat_inj.mp
    have bytes : bytesAt frame 16 4 = edogPutU32 h.sequence := by
      rw [← written]
      rfl
    rw [edogGetU32_toNat, bytes, edogPutU32_eq, valueOf_bytesOf]
    exact Nat.mod_eq_of_lt h.sequence.toNat_lt
  have payloadLen : edogGetU16 frame 20 = h.payloadLen := by
    apply UInt16.toNat_inj.mp
    have bytes : bytesAt frame 20 2 = edogPutU16 h.payloadLen := by
      rw [← written]
      rfl
    rw [edogGetU16_toNat, bytes, edogPutU16_eq, valueOf_bytesOf]
    exact Nat.mod_eq_of_lt h.payloadLen.toNat_lt
  have wkc : edogGetU16 frame 22 = h.wkc := by
    apply UInt16.toNat_inj.mp
    have bytes : bytesAt frame 22 2 = edogPutU16 h.wkc := by
      rw [← written]
      rfl
    rw [edogGetU16_toNat, bytes, edogPutU16_eq, valueOf_bytesOf]
    exact Nat.mod_eq_of_lt h.wkc.toNat_lt
  rw [readHeader, session, sequence, payloadLen, wkc, ← written]
  rfl

theorem encodeHeader_length (h : FrameHeader) :
    (edogFrameEncodeHeader h).length = edogFrameHeaderSize := rfl

theorem decodeHeader_encode (h : FrameHeader) (payload : List UInt8)
    (version : h.version = edogProtocolVersion)
    (small : h.payloadLen.toNat ≤ edogFrameMaxPayload)
    (exactly : payload.length = h.payloadLen.toNat) :
    edogFrameDecodeHeader (edogFrameEncodeHeader h ++ payload) = some h := by
  rw [decodeHeader_eq_some_iff, readHeader_encode, List.length_append, encodeHeader_length, exactly]
  exact ⟨rfl, ⟨rfl, rfl, rfl, rfl⟩, version, small, rfl⟩

theorem encode_readHeader (input : List UInt8) (magic : HasMagic input)
    (long : edogFrameHeaderSize ≤ input.length) :
    edogFrameEncodeHeader (readHeader input) = input.take edogFrameHeaderSize := by
  obtain ⟨m0, m1, m2, m3⟩ := magic
  have start : bytesAt input 0 4 = edogMagic := by
    change [byteAt input 0, byteAt input 1, byteAt input 2, byteAt input 3] = edogMagic
    rw [m0, m1, m2, m3]
    rfl
  rw [← bytesAt_zero input edogFrameHeaderSize long, edogFrameEncodeHeader, ← start]
  change bytesAt input 0 4 ++ [_, _, _, _] ++ edogPutU64 (edogGetU64 input 8) ++
    edogPutU32 (edogGetU32 input 16) ++ edogPutU16 (edogGetU16 input 20) ++
    edogPutU16 (edogGetU16 input 22) = _
  rw [edogPutU64_get, edogPutU32_get, edogPutU16_get, edogPutU16_get]
  rfl

theorem hasMagic_iff (input : List UInt8) (long : edogFrameHeaderSize ≤ input.length) :
    HasMagic input ↔ input.take 4 = edogMagic := by
  have enough : 4 ≤ input.length := le_trans (by decide) long
  rw [← bytesAt_zero input 4 enough]
  change _ ↔ [byteAt input 0, byteAt input 1, byteAt input 2, byteAt input 3] = edogMagic
  simp [HasMagic, edogMagic]

/-! ## Python's struct module -/

/-- A field of a format: bytes of a fixed count, or an unsigned number of a fixed width. -/
inductive StructCode where
  | chars (count : Nat)
  | unsigned (width : Nat)
  deriving DecidableEq, Repr

inductive StructValue where
  | bytes (value : List UInt8)
  | int (value : Int)
  deriving DecidableEq, Repr

def StructCode.size : StructCode → Nat
  | .chars count => count
  | .unsigned width => width

/-- `none` is `struct.error`: a wrong type, or a number out of range. -/
def structPackOne : StructCode → StructValue → Option (List UInt8)
  | .chars count, .bytes value =>
      some (value.take count ++ List.replicate (count - value.length) 0)
  | .unsigned width, .int value =>
      if 0 ≤ value ∧ value < 256 ^ width then some (bytesOf width value.toNat) else none
  | _, _ => none

/-- With `<` there is no padding between the fields. -/
def structPack : List StructCode → List StructValue → Option (List UInt8)
  | [], [] => some []
  | code :: codes, value :: values =>
      match structPackOne code value, structPack codes values with
      | some bytes, some rest => some (bytes ++ rest)
      | _, _ => none
  | _, _ => none

def structUnpackOne (code : StructCode) (bytes : List UInt8) : StructValue :=
  match code with
  | .chars _ => .bytes bytes
  | .unsigned _ => .int (valueOf bytes)

/-- `unpack_from`: the buffer may be longer than the format. -/
def structUnpackFrom : List StructCode → List UInt8 → Option (List StructValue)
  | [], _ => some []
  | code :: codes, buffer =>
      if buffer.length < code.size then none
      else
        match structUnpackFrom codes (buffer.drop code.size) with
        | none => none
        | some values => some (structUnpackOne code (buffer.take code.size) :: values)

/-- `struct.Struct("<4sBBBBQIHH")`. -/
def clientFrameHeader : List StructCode :=
  [.chars 4, .unsigned 1, .unsigned 1, .unsigned 1, .unsigned 1, .unsigned 8, .unsigned 4,
    .unsigned 2, .unsigned 2]

/-- The arguments of the client's `FRAME_HEADER.pack` for the fields of `h`. -/
def clientFields (magic : List UInt8) (h : FrameHeader) : List StructValue :=
  [.bytes magic, .int h.version.toNat, .int h.kind.toNat, .int h.master.toNat, .int h.flags.toNat,
    .int h.session.toNat, .int h.sequence.toNat, .int h.payloadLen.toNat, .int h.wkc.toNat]

theorem structPackOne_unsigned (width value : Nat) (fits : value < 256 ^ width) :
    structPackOne (.unsigned width) (.int value) = some (bytesOf width value) := by
  have range : (0 : Int) ≤ value ∧ (value : Int) < 256 ^ width := by
    constructor
    · exact Int.natCast_nonneg value
    · exact_mod_cast fits
  rw [structPackOne, if_pos range]
  rfl

theorem structPackOne_byte (byte : UInt8) :
    structPackOne (.unsigned 1) (.int byte.toNat) = some [byte] := by
  rw [structPackOne_unsigned 1 byte.toNat (by simpa using byte.toNat_lt)]
  simp [bytesOf]

theorem structPack_cons (code : StructCode) (codes : List StructCode) (value : StructValue)
    (values : List StructValue) (bytes rest : List UInt8)
    (first : structPackOne code value = some bytes) (others : structPack codes values = some rest) :
    structPack (code :: codes) (value :: values) = some (bytes ++ rest) := by
  rw [structPack, first, others]

theorem structUnpackFrom_append (code : StructCode) (codes : List StructCode)
    (front rest : List UInt8) (values : List StructValue) (sized : front.length = code.size)
    (others : structUnpackFrom codes rest = some values) :
    structUnpackFrom (code :: codes) (front ++ rest) =
      some (structUnpackOne code front :: values) := by
  have enough : ¬(front ++ rest).length < code.size := by
    rw [List.length_append]
    omega
  rw [structUnpackFrom, if_neg enough, ← sized, List.drop_left, List.take_left, others]

/-- The client packs the header bytes that the server writes. -/
theorem client_packs_encode (h : FrameHeader) :
    structPack clientFrameHeader (clientFields edogMagic h) = some (edogFrameEncodeHeader h) := by
  have session : structPackOne (.unsigned 8) (.int h.session.toNat) =
      some (edogPutU64 h.session) := by
    rw [edogPutU64_eq]
    exact structPackOne_unsigned 8 _ h.session.toNat_lt
  have sequence : structPackOne (.unsigned 4) (.int h.sequence.toNat) =
      some (edogPutU32 h.sequence) := by
    rw [edogPutU32_eq]
    exact structPackOne_unsigned 4 _ h.sequence.toNat_lt
  have payloadLen : structPackOne (.unsigned 2) (.int h.payloadLen.toNat) =
      some (edogPutU16 h.payloadLen) := by
    rw [edogPutU16_eq]
    exact structPackOne_unsigned 2 _ h.payloadLen.toNat_lt
  have wkc : structPackOne (.unsigned 2) (.int h.wkc.toNat) = some (edogPutU16 h.wkc) := by
    rw [edogPutU16_eq]
    exact structPackOne_unsigned 2 _ h.wkc.toNat_lt
  have packed := structPack_cons (.chars 4) _ (.bytes edogMagic) _ edogMagic _ rfl
    (structPack_cons _ _ _ _ _ _ (structPackOne_byte h.version)
      (structPack_cons _ _ _ _ _ _ (structPackOne_byte h.kind)
        (structPack_cons _ _ _ _ _ _ (structPackOne_byte h.master)
          (structPack_cons _ _ _ _ _ _ (structPackOne_byte h.flags)
            (structPack_cons _ _ _ _ _ _ session
              (structPack_cons _ _ _ _ _ _ sequence
                (structPack_cons _ _ _ _ _ _ payloadLen
                  (structPack_cons _ _ _ _ _ _ wkc (structPack.eq_1)))))))))
  rw [clientFrameHeader, clientFields, packed]
  rfl

/-- The client reads from every frame the field values that the server reads. -/
theorem client_unpacks_readHeader (input : List UInt8)
    (long : edogFrameHeaderSize ≤ input.length) :
    structUnpackFrom clientFrameHeader input =
      some (clientFields (input.take 4) (readHeader input)) := by
  have whole : input = bytesAt input 0 4 ++ (bytesAt input 4 1 ++ (bytesAt input 5 1 ++
      (bytesAt input 6 1 ++ (bytesAt input 7 1 ++ (bytesAt input 8 8 ++ (bytesAt input 16 4 ++
        (bytesAt input 20 2 ++ (bytesAt input 22 2 ++ input.drop edogFrameHeaderSize)))))))) := by
    conv_lhs => rw [← List.take_append_drop edogFrameHeaderSize input, ← bytesAt_zero input _ long]
    rfl
  have unpacked := structUnpackFrom_append (.chars 4) _ (bytesAt input 0 4) _ _ rfl
    (structUnpackFrom_append (.unsigned 1) _ (bytesAt input 4 1) _ _ rfl
      (structUnpackFrom_append (.unsigned 1) _ (bytesAt input 5 1) _ _ rfl
        (structUnpackFrom_append (.unsigned 1) _ (bytesAt input 6 1) _ _ rfl
          (structUnpackFrom_append (.unsigned 1) _ (bytesAt input 7 1) _ _ rfl
            (structUnpackFrom_append (.unsigned 8) _ (bytesAt input 8 8) _ _ rfl
              (structUnpackFrom_append (.unsigned 4) _ (bytesAt input 16 4) _ _ rfl
                (structUnpackFrom_append (.unsigned 2) _ (bytesAt input 20 2) _ _ rfl
                  (structUnpackFrom_append (.unsigned 2) [] (bytesAt input 22 2)
                    (input.drop edogFrameHeaderSize) [] rfl rfl))))))))
  rw [← whole] at unpacked
  rw [clientFrameHeader, unpacked, bytesAt_zero input 4 (le_trans (by decide) long)]
  simp only [structUnpackOne, clientFields, readHeader, edogGetU64_toNat, edogGetU32_toNat,
    edogGetU16_toNat]
  rfl

/-- The frame codec: a written header is read back; exactly the well-formed frames
are accepted, and writing their header again gives their first 24 bytes; and the
client packs the same bytes and reads the same fields. -/
theorem frame_codec_round_trip :
    (∀ (h : FrameHeader) (payload : List UInt8), h.version = edogProtocolVersion →
      h.payloadLen.toNat ≤ edogFrameMaxPayload → payload.length = h.payloadLen.toNat →
      edogFrameDecodeHeader (edogFrameEncodeHeader h ++ payload) = some h) ∧
    (∀ input : List UInt8,
      (edogFrameDecodeHeader input).isSome = true ↔
        edogFrameHeaderSize ≤ input.length ∧ input.take 4 = edogMagic ∧
          byteAt input 4 = edogProtocolVersion ∧
          valueOf (bytesAt input 20 2) ≤ edogFrameMaxPayload ∧
          input.length = edogFrameHeaderSize + valueOf (bytesAt input 20 2)) ∧
    (∀ (input : List UInt8) (h : FrameHeader), edogFrameDecodeHeader input = some h →
      edogFrameEncodeHeader h = input.take edogFrameHeaderSize) ∧
    (∀ h : FrameHeader,
      structPack clientFrameHeader (clientFields edogMagic h) = some (edogFrameEncodeHeader h)) ∧
    (∀ input : List UInt8, edogFrameHeaderSize ≤ input.length →
      structUnpackFrom clientFrameHeader input =
        some (clientFields (input.take 4) (readHeader input))) ∧
    (∀ (input : List UInt8) (h : FrameHeader), edogFrameDecodeHeader input = some h →
      structUnpackFrom clientFrameHeader input = some (clientFields edogMagic h)) := by
  refine ⟨decodeHeader_encode, ?_, ?_, client_packs_encode, client_unpacks_readHeader, ?_⟩
  · intro input
    have length : (readHeader input).payloadLen.toNat = valueOf (bytesAt input 20 2) :=
      edogGetU16_toNat input 20
    rw [Option.isSome_iff_exists]
    constructor
    · rintro ⟨h, decoded⟩
      obtain ⟨rfl, magic, version, small, exactly⟩ := (decodeHeader_eq_some_iff input h).mp decoded
      rw [length] at small exactly
      have long : edogFrameHeaderSize ≤ input.length := by omega
      exact ⟨long, (hasMagic_iff input long).mp magic, version, small, exactly⟩
    · rintro ⟨long, magic, version, small, exactly⟩
      refine ⟨readHeader input, (decodeHeader_eq_some_iff input _).mpr ?_⟩
      rw [length]
      exact ⟨rfl, (hasMagic_iff input long).mpr magic, version, small, exactly⟩
  · intro input h decoded
    obtain ⟨rfl, magic, _, _, exactly⟩ := (decodeHeader_eq_some_iff input h).mp decoded
    exact encode_readHeader input magic (by omega)
  · intro input h decoded
    obtain ⟨rfl, magic, _, _, exactly⟩ := (decodeHeader_eq_some_iff input h).mp decoded
    have long : edogFrameHeaderSize ≤ input.length := by omega
    rw [client_unpacks_readHeader input long, (hasMagic_iff input long).mp magic]

/-- An input frame with distinct bytes in every field. -/
theorem frame_codec_round_trip_fake :
    edogFrameDecodeHeader (edogFrameEncodeHeader
      ⟨1, 2, 3, 1, 0x0102030405060708, 0xA1B2C3D4, 2, 0xE1F2⟩ ++ [0xAA, 0xBB]) =
        some ⟨1, 2, 3, 1, 0x0102030405060708, 0xA1B2C3D4, 2, 0xE1F2⟩ :=
  frame_codec_round_trip.1 ⟨1, 2, 3, 1, 0x0102030405060708, 0xA1B2C3D4, 2, 0xE1F2⟩ [0xAA, 0xBB]
    rfl (by decide) rfl

end EtherDog
