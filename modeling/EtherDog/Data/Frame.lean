import EtherDog.Lib.SerialNumber

/-!
# The cyclic data frame (include/etherdog_protocol.h)

Every frame is one datagram: a 24-byte little-endian header and the raw bytes
of one direction's region.  A received buffer of `len` bytes is the list of
those bytes, so the pair (`in`, `len`) of the source is one argument here.
The header helpers keep the byte loops of the source: writing shifts down from
the low byte up, reading shifts up from the high byte down.
-/

set_option autoImplicit false

namespace EtherDog

def edogProtocolVersion : UInt8 := 1
def edogFrameHeaderSize : Nat := 24
/-- Largest UDP payload over IPv4 minus the header. -/
def edogFrameMaxPayload : Nat := 65507 - edogFrameHeaderSize

def edogFrameOutputs : UInt8 := 1
def edogFrameInputs : UInt8 := 2

def edogFlagValid : UInt8 := 0x01
def edogFlagWkcOk : UInt8 := 0x02

structure FrameHeader where
  version : UInt8
  kind : UInt8
  master : UInt8
  flags : UInt8
  session : UInt64
  sequence : UInt32
  payloadLen : UInt16
  wkc : UInt16
  deriving DecidableEq, Repr

def edogPutU16 (v : UInt16) : List UInt8 := [v.toUInt8, (v >>> 8).toUInt8]

def edogPutU32 (v : UInt32) : List UInt8 :=
  (List.range 4).map fun i => (v >>> (UInt32.ofNat (8 * i))).toUInt8

def edogPutU64 (v : UInt64) : List UInt8 :=
  (List.range 8).map fun i => (v >>> (UInt64.ofNat (8 * i))).toUInt8

/-- `p[i]` of the source; the callers below read inside the received bytes only. -/
def byteAt (bytes : List UInt8) (i : Nat) : UInt8 := bytes.getD i 0

def edogGetU16 (bytes : List UInt8) (p : Nat) : UInt16 :=
  (byteAt bytes p).toUInt16 ||| ((byteAt bytes (p + 1)).toUInt16 <<< 8)

def edogGetU32 (bytes : List UInt8) (p : Nat) : UInt32 :=
  [3, 2, 1, 0].foldl (fun v i => (v <<< 8) ||| (byteAt bytes (p + i)).toUInt32) 0

def edogGetU64 (bytes : List UInt8) (p : Nat) : UInt64 :=
  [7, 6, 5, 4, 3, 2, 1, 0].foldl (fun v i => (v <<< 8) ||| (byteAt bytes (p + i)).toUInt64) 0

def edogMagic : List UInt8 := [0x45, 0x44, 0x4F, 0x47]

def edogFrameEncodeHeader (h : FrameHeader) : List UInt8 :=
  edogMagic ++ [h.version, h.kind, h.master, h.flags] ++ edogPutU64 h.session ++
    edogPutU32 h.sequence ++ edogPutU16 h.payloadLen ++ edogPutU16 h.wkc

/-- The header fields as they stand in the first 24 bytes, before any check. -/
def readHeader (input : List UInt8) : FrameHeader where
  version := byteAt input 4
  kind := byteAt input 5
  master := byteAt input 6
  flags := byteAt input 7
  session := edogGetU64 input 8
  sequence := edogGetU32 input 16
  payloadLen := edogGetU16 input 20
  wkc := edogGetU16 input 22

/-- Checks the magic, the version and that the declared payload length matches
what arrived.  Does not check the session or the kind. -/
def edogFrameDecodeHeader (input : List UInt8) : Option FrameHeader :=
  if input.length < edogFrameHeaderSize then none
  else if byteAt input 0 ≠ 0x45 ∨ byteAt input 1 ≠ 0x44 ∨ byteAt input 2 ≠ 0x4F ∨
      byteAt input 3 ≠ 0x47 then none
  else if (readHeader input).version ≠ edogProtocolVersion then none
  else if (readHeader input).payloadLen.toNat > edogFrameMaxPayload then none
  else if input.length = edogFrameHeaderSize + (readHeader input).payloadLen.toNat then
    some (readHeader input)
  else none

/-- True when `seq` is newer than `last` in wrap-around order. -/
def edogSeqNewer (seq last : UInt32) : Bool := decide (0 < (seq - last).toInt32)

/-! ## What the decoder accepts -/

def HasMagic (input : List UInt8) : Prop :=
  byteAt input 0 = 0x45 ∧ byteAt input 1 = 0x44 ∧ byteAt input 2 = 0x4F ∧ byteAt input 3 = 0x47

instance (input : List UInt8) : Decidable (HasMagic input) :=
  inferInstanceAs (Decidable (_ ∧ _ ∧ _ ∧ _))

theorem decodeHeader_eq_some_iff (input : List UInt8) (h : FrameHeader) :
    edogFrameDecodeHeader input = some h ↔
      h = readHeader input ∧ HasMagic input ∧ h.version = edogProtocolVersion ∧
        h.payloadLen.toNat ≤ edogFrameMaxPayload ∧
        input.length = edogFrameHeaderSize + h.payloadLen.toNat := by
  unfold edogFrameDecodeHeader HasMagic
  split_ifs with short magic version large exact
  · constructor
    · intro decoded
      cases decoded
    · rintro ⟨_, _, _, _, len⟩
      omega
  · constructor
    · intro decoded
      cases decoded
    · rintro ⟨_, ⟨m0, m1, m2, m3⟩, _⟩
      simp [m0, m1, m2, m3] at magic
  · constructor
    · intro decoded
      cases decoded
    · rintro ⟨rfl, _, v, _⟩
      exact absurd v version
  · constructor
    · intro decoded
      cases decoded
    · rintro ⟨rfl, _, _, small, _⟩
      omega
  · constructor
    · intro decoded
      have same : readHeader input = h := Option.some.inj decoded
      subst same
      simp only [not_or, not_not] at magic version
      exact ⟨rfl, magic, version, by omega, exact⟩
    · rintro ⟨rfl, _⟩
      rfl
  · constructor
    · intro decoded
      cases decoded
    · rintro ⟨rfl, _, _, _, len⟩
      exact absurd len exact

theorem edogSeqNewer_iff (seq last : UInt32) :
    edogSeqNewer seq last = true ↔ SerialNumber.Newer seq.toBitVec last.toBitVec := by
  rw [edogSeqNewer, decide_eq_true_eq, Int32.lt_iff_toInt_lt]
  exact Iff.rfl

end EtherDog
