import EtherDog.Data.Admission
import EtherDog.Data.ClientBits
import EtherDog.Data.Codec

/-!
# The client's end of a data session (tools/etherdog_client.py)

`DataSession.step` takes what `recv` returned, `none` for a timeout, and answers
one input frame with one output frame.  The numbers of a frame go through Python's
`struct`, which raises on a short buffer and on a number out of range.
-/

set_option autoImplicit false

namespace EtherDog

/-- What `open_data` answered and what the exchange keeps. -/
structure DataSession where
  masterIndex : Nat
  session : Nat
  outputBytes : Nat
  images : DataImages
  lastFlags : Int
  lastWkc : Int
  seq : Nat
  deriving DecidableEq, Repr

/-- A session as its constructor leaves it. -/
def newDataSession (masterIndex session outputBytes inputBytes : Nat) : DataSession where
  masterIndex := masterIndex
  session := session
  outputBytes := outputBytes
  images := ⟨zeros outputBytes, zeros inputBytes⟩
  lastFlags := 0
  lastWkc := 0
  seq := 0

inductive StepOutcome where
  | timeout
  | ignored
  | answered (frame : List UInt8)
  | raised
  deriving DecidableEq, Repr

def DataSession.set (c : DataSession) (entry : ClientEntry) (value : Int) : DataSession :=
  { c with images := (c.images.set entry value).1 }

def DataSession.step (c : DataSession) : Option (List UInt8) → DataSession × StepOutcome
  | none => (c, .timeout)
  | some data =>
      match structUnpackFrom clientFrameHeader data with
      | some [.bytes magic, .int ver, .int kind, .int master, .int flags, .int session, .int _,
          .int length, .int wkc] =>
          if magic ≠ edogMagic ∨ ver ≠ edogProtocolVersion.toNat ∨
              kind ≠ edogFrameInputs.toNat ∨ master ≠ c.masterIndex ∨ session ≠ c.session ∨
              length ≠ (data.length : Int) - edogFrameHeaderSize then (c, .ignored)
          else
            let next := { c with
              images := { c.images with inputs := data.drop edogFrameHeaderSize }
              lastFlags := flags
              lastWkc := wkc
              seq := (c.seq + 1) &&& 0xFFFFFFFF }
            match structPack clientFrameHeader [.bytes edogMagic, .int edogProtocolVersion.toNat,
                .int edogFrameOutputs.toNat, .int next.masterIndex, .int edogFlagValid.toNat,
                .int next.session, .int next.seq, .int next.outputBytes, .int 0] with
            | none => (next, .raised)
            | some header => (next, .answered (header ++ next.images.outputs))
      | _ => (c, .raised)

/-- `struct.error`: the buffer is shorter than the format. -/
theorem structUnpackFrom_short (codes : List StructCode) (buffer : List UInt8)
    (short : buffer.length < (codes.map StructCode.size).sum) :
    structUnpackFrom codes buffer = none := by
  induction codes generalizing buffer with
  | nil => simp at short
  | cons code codes ih =>
      rw [List.map_cons, List.sum_cons] at short
      rw [structUnpackFrom]
      split
      · rfl
      · rw [ih]
        rw [List.length_drop]
        omega

/-! ## An answer -/

/-- The header of the client's frame number `sequence`. -/
def answerHeader (masterIndex outputBytes : Nat) (session : UInt64) (sequence : UInt32) :
    FrameHeader where
  version := edogProtocolVersion
  kind := edogFrameOutputs
  master := UInt8.ofNat masterIndex
  flags := edogFlagValid
  session := session
  sequence := sequence
  payloadLen := UInt16.ofNat outputBytes
  wkc := 0

/-- What the client was told fits the fields of a frame. -/
structure ClientFits (c : DataSession) : Prop where
  masterIndex : c.masterIndex < 256
  session : c.session < 2 ^ 64
  outputBytes : c.outputBytes ≤ edogFrameMaxPayload
  image : c.images.outputs.length = c.outputBytes

structure TakenInputs (c : DataSession) (data : List UInt8) : Prop where
  long : edogFrameHeaderSize ≤ data.length
  magic : HasMagic data
  version : (readHeader data).version = edogProtocolVersion
  kind : (readHeader data).kind = edogFrameInputs
  master : (readHeader data).master.toNat = c.masterIndex
  session : (readHeader data).session.toNat = c.session
  length : data.length = edogFrameHeaderSize + (readHeader data).payloadLen.toNat

instance (c : DataSession) (data : List UInt8) : Decidable (TakenInputs c data) :=
  decidable_of_iff
    (edogFrameHeaderSize ≤ data.length ∧ HasMagic data ∧
      (readHeader data).version = edogProtocolVersion ∧
      (readHeader data).kind = edogFrameInputs ∧
      (readHeader data).master.toNat = c.masterIndex ∧
      (readHeader data).session.toNat = c.session ∧
      data.length = edogFrameHeaderSize + (readHeader data).payloadLen.toNat)
    ⟨fun ⟨a, b, c, d, e, f, g⟩ => ⟨a, b, c, d, e, f, g⟩,
      fun ⟨a, b, c, d, e, f, g⟩ => ⟨a, b, c, d, e, f, g⟩⟩

def DataSession.taking (c : DataSession) (data : List UInt8) : DataSession :=
  { c with
    images := { c.images with inputs := data.drop edogFrameHeaderSize }
    lastFlags := (readHeader data).flags.toNat
    lastWkc := (readHeader data).wkc.toNat
    seq := (c.seq + 1) % 2 ^ 32 }

theorem structPack_answer (masterIndex session sequence outputBytes : Nat)
    (indexFits : masterIndex < 256) (sessionFits : session < 2 ^ 64)
    (sequenceFits : sequence < 2 ^ 32) (outputFits : outputBytes ≤ edogFrameMaxPayload) :
    structPack clientFrameHeader [.bytes edogMagic, .int edogProtocolVersion.toNat,
        .int edogFrameOutputs.toNat, .int masterIndex, .int edogFlagValid.toNat, .int session,
        .int sequence, .int outputBytes, .int 0] =
      some (edogFrameEncodeHeader (answerHeader masterIndex outputBytes (UInt64.ofNat session)
        (UInt32.ofNat sequence))) := by
  have packed := client_packs_encode (answerHeader masterIndex outputBytes (UInt64.ofNat session)
    (UInt32.ofNat sequence))
  have master : (UInt8.ofNat masterIndex).toNat = masterIndex := by
    rw [UInt8.toNat_ofNat']
    omega
  have id : (UInt64.ofNat session).toNat = session := by
    rw [UInt64.toNat_ofNat']
    omega
  have number : (UInt32.ofNat sequence).toNat = sequence := by
    rw [UInt32.toNat_ofNat']
    omega
  have length : (UInt16.ofNat outputBytes).toNat = outputBytes := by
    rw [UInt16.toNat_ofNat']
    change outputBytes ≤ 65483 at outputFits
    omega
  simp only [clientFields, answerHeader, master, id, number, length] at packed
  exact packed

/-- A frame the client takes is answered with its next output frame. -/
theorem step_taken (c : DataSession) (data : List UInt8) (fits : ClientFits c)
    (taken : TakenInputs c data) :
    c.step (some data) = (c.taking data, .answered (edogFrameEncodeHeader
      (answerHeader c.masterIndex c.outputBytes (UInt64.ofNat c.session)
        (UInt32.ofNat ((c.seq + 1) % 2 ^ 32))) ++ c.images.outputs)) := by
  have counted : (c.seq + 1) &&& 0xFFFFFFFF = (c.seq + 1) % 2 ^ 32 :=
    Nat.and_two_pow_sub_one_eq_mod (c.seq + 1) 32
  have packed := structPack_answer c.masterIndex c.session ((c.seq + 1) % 2 ^ 32) c.outputBytes
    fits.masterIndex fits.session (Nat.mod_lt _ (by decide)) fits.outputBytes
  have front := (hasMagic_iff data taken.long).mp taken.magic
  have length : ((readHeader data).payloadLen.toNat : Int) =
      (data.length : Int) - edogFrameHeaderSize := by
    have exactly := taken.length
    omega
  rw [DataSession.step, client_unpacks_readHeader data taken.long]
  simp only [clientFields]
  rw [if_neg (by
    simp only [front, taken.version, taken.kind, taken.master, taken.session, length, ne_eq,
      not_true_eq_false, or_self, not_false_eq_true])]
  simp only [counted, packed]
  rfl

/-- Any other frame changes nothing. -/
theorem step_refused (c : DataSession) (received : Option (List UInt8))
    (refused : ∀ data, received = some data → ¬ TakenInputs c data) :
    (c.step received).1 = c ∧ ∀ frame, (c.step received).2 ≠ .answered frame := by
  cases received with
  | none => exact ⟨rfl, by simp [DataSession.step]⟩
  | some data =>
      have notTaken := refused data rfl
      by_cases long : edogFrameHeaderSize ≤ data.length
      · rw [DataSession.step, client_unpacks_readHeader data long]
        simp only [clientFields]
        rw [if_pos]
        · exact ⟨rfl, by simp⟩
        · by_contra checked
          simp only [ne_eq, not_or, not_not, Nat.cast_inj] at checked
          obtain ⟨magic, version, kind, master, session, length⟩ := checked
          exact notTaken ⟨long, (hasMagic_iff data long).mpr magic, UInt8.toNat_inj.mp version,
            UInt8.toNat_inj.mp kind, master, session, by omega⟩
      · have short := structUnpackFrom_short clientFrameHeader data (Nat.lt_of_not_le long)
        rw [DataSession.step, short]
        exact ⟨rfl, by simp⟩

end EtherDog
