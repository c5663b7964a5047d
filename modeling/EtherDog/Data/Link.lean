import EtherDog.Bus.Buffers
import EtherDog.Data.DataSession
import EtherDog.Data.Newest
import EtherDog.Data.Watchdog
import EtherDog.Lib.Channel

/-!
# Both ends of a data session

A `Link` is a master with an open session and the client it was opened for.  The
network between them is read off the history: it brings the client what the
master has published, and the master what the client has answered, in any order,
any number of times or not at all.  Other processes may send to both sockets,
without the session number or from another address.  `Network` says just that of
every step, and that it brings no frame that `2 ^ 31` later ones have overtaken.

Histories are listed newest first.
-/

set_option autoImplicit false

namespace EtherDog

open SerialNumber Channel

structure Link where
  inst : Instance
  client : DataSession

inductive LinkEvent where
  /-- the client's outputs and the frame it sent them in -/
  | answered (outputs frame : List UInt8)
  /-- the input region and the frame the master sent it in -/
  | published (inputs frame : List UInt8)
  | accepted (frame : AcceptedFrame)
  deriving DecidableEq, Repr

inductive LinkAction where
  | set (entry : ClientEntry) (value : Int)
  | step (received : Option (List UInt8))
  | applyOutputs (lockFree : Bool) (queue : List Datagram)
  | exchange (inputs : List UInt8)
  | publishInputs (lockFree : Bool) (wkc : Int) (operational wkcOk sent : Bool)
  | closeData

def inputRegion (inst : Instance) : List UInt8 :=
  Memory.slice (inst.iomap.getD []) ((ecatLayoutInputRegion inst).getD 0) inst.layout.inputBytes

def answerEvents (outputs : List UInt8) : StepOutcome → List LinkEvent
  | .answered frame => [.answered outputs frame]
  | _ => []

/-- What a call drains, newest first: nothing without the lock or a session. -/
def appliedFrames (inst : Instance) (masterIndex : Nat) (lockFree : Bool)
    (queue : List Datagram) : List AcceptedFrame :=
  if lockFree && inst.data.isOpen && (ecatLayoutOutputRegion inst).isSome then
    (callFrames inst masterIndex queue).reverse
  else []

/-- A frame that the socket did not take is lost. -/
def publishedEvents (inputs : List UInt8) (frame : Option (List UInt8)) (sent : Bool) :
    List LinkEvent :=
  match frame with
  | some bytes => if sent then [.published inputs bytes] else []
  | none => []

def linkStep (masterIndex : Nat) : Transition.Step Link LinkAction LinkEvent
  | l, .set entry value => some ({ l with client := l.client.set entry value }, [])
  | l, .step received =>
      let (client, outcome) := l.client.step received
      some ({ l with client := client }, answerEvents l.client.images.outputs outcome)
  | l, .applyOutputs lockFree queue =>
      some ({ l with inst := ecatDataApplyOutputs l.inst masterIndex lockFree queue },
        (appliedFrames l.inst masterIndex lockFree queue).map .accepted)
  | l, .exchange inputs =>
      some ({ l with inst := ecatMasterExchangeProcessdata l.inst inputs }, [])
  | l, .publishInputs lockFree wkc operational wkcOk sent =>
      let (inst, frame) :=
        ecatDataPublishInputs l.inst masterIndex lockFree wkc operational wkcOk sent
      some ({ l with inst := inst }, publishedEvents (inputRegion l.inst) frame sent)
  | l, .closeData => some ({ l with inst := ecatDataClose l.inst }, [])

/-! ## The history -/

def LinkEvent.answer? : LinkEvent → Option (List UInt8 × List UInt8)
  | .answered outputs frame => some (outputs, frame)
  | _ => none

def LinkEvent.publication? : LinkEvent → Option (List UInt8 × List UInt8)
  | .published inputs frame => some (inputs, frame)
  | _ => none

def LinkEvent.accepted? : LinkEvent → Option AcceptedFrame
  | .accepted frame => some frame
  | _ => none

/-- The client's outputs with the frames that carry them. -/
def answers (history : List LinkEvent) : List (List UInt8 × List UInt8) :=
  history.filterMap LinkEvent.answer?

def publications (history : List LinkEvent) : List (List UInt8 × List UInt8) :=
  history.filterMap LinkEvent.publication?

def acceptedPayloads (history : List LinkEvent) : List (List UInt8) :=
  (history.filterMap LinkEvent.accepted?).map AcceptedFrame.payload

/-- Bytes of someone who does not know the session number. -/
def Strange (session : UInt64) (bytes : List UInt8) : Prop :=
  bytes.length < edogFrameHeaderSize ∨ edogGetU64 bytes 8 ≠ session

instance (session : UInt64) (bytes : List UInt8) : Decidable (Strange session bytes) :=
  inferInstanceAs (Decidable (_ ∨ _))

def MayArrive (session : UInt64) (peer : SockAddr) (history : List LinkEvent)
    (datagram : Datagram) : Prop :=
  datagram.bytes ∈ ((answers history).take (2 ^ 31)).map Prod.snd ∨
    Strange session datagram.bytes ∨ samePeer peer datagram.source = false

instance (session : UInt64) (peer : SockAddr) (history : List LinkEvent) (datagram : Datagram) :
    Decidable (MayArrive session peer history datagram) :=
  inferInstanceAs (Decidable (_ ∨ _ ∨ _))

/-- What the network may bring.  Others send as well, but do not know the session
number, and an answer that `2 ^ 31` later ones have overtaken comes no more. -/
def Network (session : UInt64) (peer : SockAddr) : Transition.Guard Link LinkAction LinkEvent
  | _, history, .step (some data) =>
      data ∈ (publications history).map Prod.snd ∨ Strange session data
  | _, history, .applyOutputs _ queue =>
      ∀ datagram ∈ queue, MayArrive session peer history datagram
  | _, _, _ => True

instance (session : UInt64) (peer : SockAddr) (l : Link) (history : List LinkEvent)
    (action : LinkAction) : Decidable (Network session peer l history action) :=
  match action with
  | .step (some _) => inferInstanceAs (Decidable (_ ∨ _))
  | .applyOutputs _ queue =>
      inferInstanceAs (Decidable (∀ datagram ∈ queue, MayArrive session peer history datagram))
  | .step none | .set .. | .exchange _ | .publishInputs .. | .closeData => isTrue trivial

/-! ## The master's steps -/

/-- A running master: mapped, with buffers of the layout's sizes, the outputs
before the inputs in its process image. -/
structure LinkMaster (inst : Instance) : Prop where
  sized : Sized (bufferSizes inst)
  outputs : ecatLayoutOutputRegion inst ≠ none
  inputs : inst.layout.inputBytes ≠ 0 → ecatLayoutInputRegion inst ≠ none
  apart : ∀ o ∈ inst.ecxContext.group.outputs, ∀ i ∈ inst.ecxContext.group.inputs,
    o + inst.ecxContext.group.obytes ≤ i

theorem LinkMaster.congr {before after : Instance} (running : LinkMaster before)
    (same : SameMaster before after) (sizes : bufferSizes after = bufferSizes before) :
    LinkMaster after := by
  refine ⟨?_, ?_, ?_, ?_⟩
  · rw [sizes]
    exact running.sized
  · simpa only [ecatLayoutOutputRegion, same.soem, same.context] using running.outputs
  · simpa only [ecatLayoutInputRegion, same.soem, same.context, same.layout] using running.inputs
  · rw [same.context]
    exact running.apart

theorem LinkMaster.mapped {inst : Instance} (running : LinkMaster inst) : Mapped inst := by
  obtain ⟨region, found⟩ := Option.ne_none_iff_exists'.mp running.outputs
  obtain ⟨room, iomap, inside, _⟩ := running.sized.iomap
  obtain ⟨memory, present, exactRoom⟩ := Option.map_eq_some_iff.mp iomap
  refine ⟨memory, region, present, found, ?_⟩
  unfold ecatLayoutOutputRegion at found
  split at found
  · rw [exactRoom]
    exact inside region found
  · simp at found

theorem LinkMaster.fits {inst : Instance} (running : LinkMaster inst) :
    BuffersFit inst.layout.outputBytes inst.data := by
  obtain ⟨room, latestSize, fits⟩ := running.sized.latest
  obtain ⟨latest, present, exactRoom⟩ := Option.map_eq_some_iff.mp latestSize
  refine ⟨running.sized.outputFits, running.sized.rxSize, running.sized.rxAllocated,
    latest, present, ?_⟩
  rw [exactRoom]
  exact fits

theorem LinkMaster.openSession {inst : Instance} (running : LinkMaster inst)
    (isOpen : inst.data.isOpen = true) : OpenSession inst :=
  ⟨running.mapped, isOpen, running.fits⟩

/-- What a received frame is checked against. -/
structure SameReceiver (before after : Session) : Prop where
  isOpen : after.isOpen = before.isOpen
  peer : after.peer = before.peer
  session : after.session = before.session
  last : lastSequence after = lastSequence before

theorem exchange_outputRegion (inst : Instance) (inputs : List UInt8)
    (running : LinkMaster inst) :
    outputRegion (ecatMasterExchangeProcessdata inst inputs) = outputRegion inst := by
  unfold ecatMasterExchangeProcessdata
  cases found : inst.ecxContext.group.inputs with
  | none => rfl
  | some i =>
      obtain ⟨memory, o, present, place, inside⟩ := running.mapped
      have outputs : inst.ecxContext.group.outputs = some o := by
        unfold ecatLayoutOutputRegion at place
        split at place
        · exact place
        · simp at place
      have before := running.apart o outputs i found
      have outputBytes : inst.layout.outputBytes = inst.ecxContext.group.obytes :=
        congrArg Layout.outputBytes running.sized.layout
      rw [← outputBytes] at before
      have samePlace : ecatLayoutOutputRegion
          (writeIomap inst i (inputs.take inst.ecxContext.group.ibytes)) = some o := place
      simp only [outputRegion, writeIomap] at samePlace ⊢
      rw [samePlace, place, present, Option.map_some, Option.getD_some, Option.getD_some]
      exact Memory.slice_overwrite_before memory i _ o _ before inside

/-- The header of the next frame of `ecat_data_publish_inputs`. -/
def inputsHeader (inst : Instance) (masterIndex : Nat) (wkc : Int) (operational wkcOk : Bool) :
    FrameHeader where
  version := edogProtocolVersion
  kind := edogFrameInputs
  master := UInt8.ofNat masterIndex
  flags := (if operational then edogFlagValid else 0) ||| (if wkcOk then edogFlagWkcOk else 0)
  session := inst.data.session
  sequence := inst.data.txSeq + 1
  payloadLen := UInt16.ofNat inst.layout.inputBytes
  wkc := UInt16.ofInt (if wkc < 0 then 0 else wkc)

theorem LinkMaster.inputRegion_length {inst : Instance} (running : LinkMaster inst) :
    (inputRegion inst).length = inst.layout.inputBytes := by
  by_cases empty : inst.layout.inputBytes = 0
  · simp [inputRegion, empty, Memory.slice]
  · obtain ⟨region, found⟩ := Option.ne_none_iff_exists'.mp (running.inputs empty)
    obtain ⟨room, iomap, _, inside⟩ := running.sized.iomap
    obtain ⟨memory, present, exactRoom⟩ := Option.map_eq_some_iff.mp iomap
    rw [inputRegion, found, present, Option.getD_some, Option.getD_some]
    apply Memory.slice_length
    rw [exactRoom]
    unfold ecatLayoutInputRegion at found
    split at found
    · exact inside region found
    · simp at found

/-- A buffer of a frame's size, with its header and then its payload written into it. -/
theorem filled_frame (buf header payload : List UInt8)
    (size : buf.length = header.length + payload.length) :
    Memory.overwrite (Memory.overwrite buf 0 header) header.length payload = header ++ payload := by
  have headed := Memory.overwrite_length buf 0 header (by omega)
  rw [Memory.overwrite_to_end _ _ _ (by rw [headed, size]), Memory.overwrite, List.take_zero,
    List.nil_append, List.take_left]

/-- A frame of the master is its header before its input region; nothing else of
the master changes but the sender's half of the session. -/
theorem publishInputs_spec (inst : Instance) (masterIndex : Nat) (lockFree : Bool) (wkc : Int)
    (operational wkcOk sent : Bool) (running : LinkMaster inst) :
    let result := ecatDataPublishInputs inst masterIndex lockFree wkc operational wkcOk sent
    (result.2 = none ∨ (inst.data.isOpen = true ∧ result.2 = some (edogFrameEncodeHeader
        (inputsHeader inst masterIndex wkc operational wkcOk) ++ inputRegion inst))) ∧
      (∃ data, result.1 = { inst with data := data } ∧ SameReceiver inst.data data) := by
  intro result
  have unchanged : (∃ data, inst = { inst with data := data } ∧ SameReceiver inst.data data) :=
    ⟨inst.data, rfl, rfl, rfl, rfl, rfl⟩
  obtain ⟨buf, present, bufSize⟩ := Option.map_eq_some_iff.mp running.sized.txAllocated
  change buf.length = inst.data.txBufSize at bufSize
  have room : buf.length = edogFrameHeaderSize + inst.layout.inputBytes :=
    bufSize.trans running.sized.txSize
  simp only [result, ecatDataPublishInputs, present]
  split
  · exact ⟨Or.inl rfl, unchanged⟩
  · split
    · exact ⟨Or.inl rfl, unchanged⟩
    · rename_i ready
      have isOpen : inst.data.isOpen = true := by
        simp only [not_or, Bool.not_eq_false] at ready
        exact ready.1
      refine ⟨Or.inr ⟨isOpen, ?_⟩, ?_⟩
      · have length := running.inputRegion_length
        have headerSize : (edogFrameEncodeHeader
            (inputsHeader inst masterIndex wkc operational wkcOk)).length = edogFrameHeaderSize :=
          rfl
        cases place : ecatLayoutInputRegion inst with
        | none =>
            change some (List.take _ (Memory.overwrite buf 0 (edogFrameEncodeHeader
              (inputsHeader inst masterIndex wkc operational wkcOk)))) = _
            generalize edogFrameEncodeHeader
              (inputsHeader inst masterIndex wkc operational wkcOk) = bytes at headerSize ⊢
            have empty : inst.layout.inputBytes = 0 := by
              by_contra some
              exact running.inputs some place
            have nothing : inputRegion inst = [] := List.eq_nil_of_length_eq_zero (by omega)
            have whole := Memory.overwrite_to_end buf 0 bytes (by omega)
            rw [nothing]
            simp only [whole, List.take_zero, List.nil_append, List.append_nil]
            rw [List.take_of_length_le (by omega)]
        | some region =>
            change some (List.take _ (Memory.overwrite (Memory.overwrite buf 0
              (edogFrameEncodeHeader (inputsHeader inst masterIndex wkc operational wkcOk)))
              edogFrameHeaderSize
              (Memory.slice (inst.iomap.getD []) region inst.layout.inputBytes))) = _
            generalize edogFrameEncodeHeader
              (inputsHeader inst masterIndex wkc operational wkcOk) = bytes at headerSize ⊢
            have payload : Memory.slice (inst.iomap.getD []) region inst.layout.inputBytes =
                inputRegion inst := by
              rw [inputRegion, place, Option.getD_some]
            have filled := filled_frame buf bytes (inputRegion inst) (by omega)
            rw [headerSize] at filled
            simp only [payload, filled]
            rw [List.take_of_length_le]
            rw [List.length_append]
            omega
      · refine ⟨_, rfl, ?_⟩
        split <;> exact ⟨rfl, rfl, rfl, rfl⟩

/-! ## What a call hears -/

instance (d : Session) (masterIndex out : Nat) (datagram : Datagram) :
    Decidable (WellFormed d masterIndex out datagram) :=
  decidable_of_iff
    (datagram.bytes.length = edogFrameHeaderSize + out ∧ HasMagic datagram.bytes ∧
      byteAt datagram.bytes 4 = edogProtocolVersion ∧ byteAt datagram.bytes 5 = edogFrameOutputs ∧
      (byteAt datagram.bytes 6).toNat = masterIndex ∧ edogGetU64 datagram.bytes 8 = d.session ∧
      (edogGetU16 datagram.bytes 20).toNat = out ∧ samePeer d.peer datagram.source = true)
    ⟨fun ⟨a, b, c, d, e, f, g, h⟩ => ⟨a, b, c, d, e, f, g, h⟩,
      fun ⟨a, b, c, d, e, f, g, h⟩ => ⟨a, b, c, d, e, f, g, h⟩⟩

/-- The frames of a queue that are meant for the session. -/
def heard (d : Session) (masterIndex out : Nat) (queue : List Datagram) : List Datagram :=
  queue.filter fun datagram => decide (WellFormed d masterIndex out datagram)

theorem heard_congr {d e : Session} {masterIndex out : Nat} (queue : List Datagram)
    (peer : e.peer = d.peer) (session : e.session = d.session) :
    heard e masterIndex out queue = heard d masterIndex out queue := by
  apply List.filter_congr
  intro datagram member
  apply decide_eq_decide.mpr
  exact ⟨fun w => w.congr peer.symm session.symm, fun w => w.congr peer session⟩

theorem lastSequence_drain (masterIndex out : Nat) (s : Drain) (queue : List Datagram)
    (fits : BuffersFit out s.d) :
    lastSequence (drain masterIndex out s queue).d =
      ((acceptedFrames masterIndex out s queue).getLast?.map
        fun frame => frame.header.sequence.toBitVec).or (lastSequence s.d) := by
  have last := drain_lastFrame masterIndex out s queue fits
  cases found : (acceptedFrames masterIndex out s queue).getLast? with
  | none =>
      rw [found] at last
      obtain ⟨_, _, seen, number, _⟩ := last
      rw [lastSequence, seen, number]
      rfl
  | some frame =>
      rw [found] at last
      obtain ⟨_, _, seen, number, _⟩ := last
      rw [lastSequence, if_pos seen, number]
      rfl

theorem acceptedFrames_inadmissible (masterIndex out : Nat) (s : Drain) (datagram : Datagram)
    (indexFits : masterIndex < 256) (fits : BuffersFit out s.d)
    (refused : ¬ Admissible s.d masterIndex out datagram) :
    acceptedFrames masterIndex out s [datagram] = [] := by
  cases verdict : checkFrame s.d masterIndex out (datagram.bytes.take s.d.rxBufSize)
      (samePeer s.d.peer datagram.source) with
  | none => simp only [acceptedFrames, edogDgramRecv, verdict]
  | some h =>
      rw [checkFrame_truncated _ _ _ _ _ fits.rxSize] at verdict
      have header := checkFrame_header _ _ _ _ _ _ verdict
      rw [header] at verdict
      exact absurd ((checkFrame_admissible_iff s.d masterIndex out datagram indexFits
        fits.payloadFits).mp verdict) refused

/-- A drain is the reader of `EtherDog.Lib.Channel` over the frames it hears. -/
theorem acceptedFrames_heard (masterIndex out : Nat) (s : Drain) (queue : List Datagram)
    (indexFits : masterIndex < 256) (fits : BuffersFit out s.d) :
    acceptedFrames masterIndex out s queue =
      (keepNewer sequenceOf (lastSequence s.d) (heard s.d masterIndex out queue)).map
        (frameOf out) := by
  induction queue generalizing s with
  | nil => rfl
  | cons datagram rest ih =>
      have kept := drain_sameSession s masterIndex out [datagram]
      have ended := lastSequence_drain masterIndex out s [datagram] fits
      have later := ih (drain masterIndex out s [datagram])
        (drain_fits s masterIndex out [datagram] fits)
      rw [heard_congr rest kept.peer kept.session] at later
      rw [← List.singleton_append, acceptedFrames_append, later]
      by_cases wellFormed : WellFormed s.d masterIndex out datagram
      · have one := acceptedFrames_wellFormed masterIndex out s [datagram] indexFits fits
          (by simpa using wellFormed)
        have head : heard s.d masterIndex out ([datagram] ++ rest) =
            datagram :: heard s.d masterIndex out rest := by
          simp [heard, wellFormed]
        rw [head, ended, one]
        by_cases news : IsNews (lastSequence s.d) (sequenceOf datagram)
        · simp only [keepNewer, if_pos news, List.map_cons, List.map_nil, List.getLast?_singleton,
            Option.map_some, Option.some_or, List.singleton_append]
          rfl
        · simp only [keepNewer, if_neg news, List.map_nil, List.getLast?_nil, Option.map_none,
            Option.none_or, List.nil_append]
      · have refused : ¬ Admissible s.d masterIndex out datagram := fun admissible =>
          wellFormed admissible.toWellFormed
        have head : heard s.d masterIndex out ([datagram] ++ rest) =
            heard s.d masterIndex out rest := by
          simp [heard, wellFormed]
        have nothing :=
          acceptedFrames_inadmissible masterIndex out s datagram indexFits fits refused
        rw [head, ended, nothing]
        rfl

/-! ## The client's frames -/

/-- The client numbers its frames and puts its outputs behind the header. -/
def Numbered (masterIndex out : Nat) (session : UInt64) (sent : List (List UInt8 × List UInt8)) :
    Prop :=
  ∀ answer older, (answer :: older) <:+ sent → answer.1.length = out ∧
    answer.2 = edogFrameEncodeHeader
      (answerHeader masterIndex out session (UInt32.ofNat (older.length + 1))) ++ answer.1

section Arrival
variable {masterIndex out : Nat} {session : UInt64} {sent : List (List UInt8 × List UInt8)}
  (numbered : Numbered masterIndex out session sent)

include numbered in
theorem Numbered.sequence (answer : List UInt8 × List UInt8)
    (older : List (List UInt8 × List UInt8)) (place : (answer :: older) <:+ sent) :
    (edogGetU32 answer.2 16).toBitVec = numberOf 32 (answer :: older) := by
  have header := readHeader_encode
    (answerHeader masterIndex out session (UInt32.ofNat (older.length + 1))) answer.1
  rw [← (numbered answer older place).2] at header
  have sequence : edogGetU32 answer.2 16 = UInt32.ofNat (older.length + 1) :=
    congrArg FrameHeader.sequence header
  rw [sequence]
  rfl

/-- A frame that is heard is one of the client's latest. -/
theorem heard_recent (queue : List Datagram) (d : Session) {history : List LinkEvent}
    (exactly : answers history = sent) (sameSession : d.session = session)
    (mayArrive : ∀ datagram ∈ queue, MayArrive session d.peer history datagram) :
    ∀ datagram ∈ heard d masterIndex out queue,
      ∃ answer ∈ sent.take (2 ^ 31), answer.2 = datagram.bytes := by
  intro datagram member
  obtain ⟨member, wellFormed⟩ := List.mem_filter.mp member
  have wellFormed := of_decide_eq_true wellFormed
  rcases mayArrive datagram member with recent | ⟨short | wrong⟩ | elsewhere
  · rw [exactly] at recent
    exact List.mem_map.mp recent
  · rw [wellFormed.length] at short
    omega
  · exact absurd (wellFormed.session.trans sameSession) wrong
  · rw [wellFormed.sender] at elsewhere
    cases elsewhere

include numbered in
/-- A recent answer is a valid frame with the client's outputs, and arrives in
the stream of these. -/
theorem Numbered.recent {datagram : Datagram} {answer : List UInt8 × List UInt8}
    (found : answer ∈ sent.take (2 ^ 31)) (same : answer.2 = datagram.bytes) :
    (frameOf out datagram).valid = true ∧ (frameOf out datagram).payload = answer.1 ∧
      Arrives 32 (sent.map Prod.fst) answer.1 (sequenceOf datagram) := by
  have arrives := arrives_of_recent (by decide) numbered.sequence found
  have ⟨older, place, _⟩ := arrives
  obtain ⟨length, frame⟩ := numbered answer older place
  rw [same] at frame
  refine ⟨?_, ?_, ?_⟩
  · have header := readHeader_encode
      (answerHeader masterIndex out session (UInt32.ofNat (older.length + 1))) answer.1
    rw [← frame] at header
    simp only [AcceptedFrame.valid, frameOf, header, answerHeader]
    decide
  · rw [frameOf, frame, Memory.slice]
    rw [show edogFrameHeaderSize = (edogFrameEncodeHeader (answerHeader masterIndex out session
      (UInt32.ofNat (older.length + 1)))).length from rfl, List.drop_left,
      List.take_of_length_le length.le]
  · rw [sequenceOf, ← same]
    exact arrives.map Prod.fst

include numbered in
theorem heard_arrives (queue : List Datagram) (d : Session) {history : List LinkEvent}
    (exactly : answers history = sent) (sameSession : d.session = session)
    (mayArrive : ∀ datagram ∈ queue, MayArrive session d.peer history datagram) :
    ∀ datagram ∈ heard d masterIndex out queue, (frameOf out datagram).valid = true ∧
      Arrives 32 (sent.map Prod.fst) (frameOf out datagram).payload (sequenceOf datagram) := by
  intro datagram member
  obtain ⟨answer, found, same⟩ := heard_recent queue d exactly sameSession mayArrive datagram member
  obtain ⟨valid, payload, arrives⟩ := numbered.recent found same
  refine ⟨valid, ?_⟩
  rw [payload]
  exact arrives

end Arrival

/-! ## One call of the master -/

section Apply
variable {inst : Instance} {masterIndex : Nat} (queue : List Datagram)

theorem callFrames_heard (opened : OpenSession inst) (indexFits : masterIndex < 256) :
    callFrames inst masterIndex queue =
      (keepNewer sequenceOf (lastSequence inst.data)
        (heard inst.data masterIndex inst.layout.outputBytes queue)).map
          (frameOf inst.layout.outputBytes) :=
  acceptedFrames_heard masterIndex inst.layout.outputBytes ⟨inst.data, false, false⟩ queue
    indexFits opened.fits

/-- The receiver after a call: the session it was, with the last number it heard. -/
theorem applyOutputs_receiver (opened : OpenSession inst) (indexFits : masterIndex < 256) :
    let after := ecatDataApplyOutputs inst masterIndex true queue
    after.data.isOpen = true ∧ after.data.peer = inst.data.peer ∧
      after.data.session = inst.data.session ∧
      lastSequence after.data = lastAfter sequenceOf (lastSequence inst.data)
        (heard inst.data masterIndex inst.layout.outputBytes queue) := by
  intro after
  obtain ⟨memory, region, _, _, _, call⟩ := applyOutputs_open inst masterIndex queue opened
  have kept := drain_sameSession ⟨inst.data, false, false⟩ masterIndex inst.layout.outputBytes queue
  have ended := lastSequence_drain masterIndex inst.layout.outputBytes ⟨inst.data, false, false⟩
    queue opened.fits
  have frames := callFrames_heard queue opened indexFits
  rw [callFrames] at frames
  rw [frames, List.getLast?_map, Option.map_map] at ended
  obtain ⟨⟨zeroed, cycles, trips, data⟩, _⟩ := settleOutputs_data inst region
    (drain masterIndex inst.layout.outputBytes ⟨inst.data, false, false⟩ queue)
  rw [← call] at data
  refine ⟨?_, ?_, ?_, ?_⟩
  · rw [data]
    exact kept.isOpen.trans opened.isOpen
  · rw [data]
    exact kept.peer
  · rw [data]
    exact kept.session
  · rw [data]
    exact ended

/-- The last frame of a call decides what the region holds; without one it is left
alone or zeroed. -/
theorem applyOutputs_region (opened : OpenSession inst) :
    let after := ecatDataApplyOutputs inst masterIndex true queue
    (callFrames inst masterIndex queue = [] ∧ (outputRegion after = outputRegion inst ∨
        outputRegion after = zeros inst.layout.outputBytes)) ∨
      ∃ frame, (callFrames inst masterIndex queue).getLast? = some frame ∧
        outputRegion after =
          if frame.valid then frame.payload else zeros inst.layout.outputBytes := by
  intro after
  have watched := applyOutputs_simulates inst masterIndex queue _ _ opened (switchOf_watches inst)
  have value := watched.value
  cases found : (callFrames inst masterIndex queue).getLast? with
  | none =>
      have none := List.getLast?_eq_none_iff.mp found
      refine Or.inl ⟨none, ?_⟩
      rw [batchCall, found, Deadman.call] at value
      split at value
      · exact Or.inr value
      · exact Or.inl value
  | some frame =>
      rw [batchCall_of_getLast _ frame found] at value
      refine Or.inr ⟨frame, rfl, ?_⟩
      cases valid : frame.valid with
      | true =>
          rw [valid] at value
          exact value
      | false =>
          rw [valid] at value
          exact value

end Apply

/-! ## The invariant -/

/-- The region holds zeros, what it held at the opening, or the payload of the
last accepted frame. -/
def WholeOutputs (opened inst : Instance) (history : List LinkEvent) : Prop :=
  outputRegion inst = zeros opened.layout.outputBytes ∨
    outputRegion inst = outputRegion opened ∨
    (acceptedPayloads history).head? = some (outputRegion inst)

/-- The client holds zeros or an input region the master has published. -/
def WholeInputs (opened : Instance) (client : DataSession) (history : List LinkEvent) : Prop :=
  client.images.inputs = zeros opened.layout.inputBytes ∨
    client.images.inputs ∈ (publications history).map Prod.fst

/-- The client's own numbers are those `open_data` answered. -/
structure Told (masterIndex : Nat) (session : UInt64) (opened : Instance) (c : DataSession) :
    Prop where
  masterIndex : c.masterIndex = masterIndex
  session : c.session = session.toNat
  outputBytes : c.outputBytes = opened.layout.outputBytes

structure LinkInv (masterIndex : Nat) (session : UInt64) (opened : Instance) (l : Link)
    (history : List LinkEvent) : Prop where
  running : LinkMaster l.inst
  same : SameMaster opened l.inst
  peer : l.inst.data.peer = opened.data.peer
  live : l.inst.data.isOpen = true → l.inst.data.session = session
  fits : ClientFits l.client
  told : Told masterIndex session opened l.client
  counted : l.client.seq = (answers history).length % 2 ^ 32
  numbered : Numbered masterIndex opened.layout.outputBytes session (answers history)
  ordered : (acceptedPayloads history).Sublist ((answers history).map Prod.fst)
  taken : l.inst.data.isOpen = true → Taken 32 ((answers history).map Prod.fst)
    (acceptedPayloads history) (lastSequence l.inst.data)
  framed : ∀ p ∈ publications history, ∃ h, p.2 = edogFrameEncodeHeader h ++ p.1
  outputs : WholeOutputs opened l.inst history
  inputs : WholeInputs opened l.client history

section Step
variable {masterIndex : Nat} {session : UInt64} {opened : Instance} {l : Link}
  {history : List LinkEvent} (inv : LinkInv masterIndex session opened l history)

include inv in
theorem set_inv (entry : ClientEntry) (value : Int) :
    LinkInv masterIndex session opened { l with client := l.client.set entry value } history := by
  have length := (writeBits_spec l.client.images.outputs entry.bitOffset entry.bitLength value).1
  exact { inv with
    fits := ⟨inv.fits.masterIndex, inv.fits.session, inv.fits.outputBytes,
      length.trans inv.fits.image⟩
    told := ⟨inv.told.masterIndex, inv.told.session, inv.told.outputBytes⟩ }

include inv in
/-- The master's memory and buffers change, its receiver does not. -/
theorem master_inv (events : List LinkEvent) {after : Instance} (running : LinkMaster after)
    (same : SameMaster l.inst after) (receiver : SameReceiver l.inst.data after.data)
    (region : outputRegion after = outputRegion l.inst ∨
      outputRegion after = zeros opened.layout.outputBytes)
    (noAnswer : answers events = []) (noAccept : acceptedPayloads events = [])
    (framed : ∀ p ∈ publications events, ∃ h, p.2 = edogFrameEncodeHeader h ++ p.1) :
    LinkInv masterIndex session opened { l with inst := after } (events ++ history) := by
  have sent : answers (events ++ history) = answers history := by
    rw [answers, List.filterMap_append, show events.filterMap LinkEvent.answer? = [] from noAnswer]
    rfl
  have accepted : acceptedPayloads (events ++ history) = acceptedPayloads history := by
    rw [acceptedPayloads, List.filterMap_append, List.map_append,
      show (events.filterMap LinkEvent.accepted?).map AcceptedFrame.payload = [] from noAccept]
    rfl
  have published : publications (events ++ history) = publications events ++ publications history :=
    List.filterMap_append
  refine ⟨running, inv.same.trans same, receiver.peer.trans inv.peer, ?_, inv.fits, inv.told, ?_,
    ?_, ?_, ?_, ?_, ?_, ?_⟩
  · intro isOpen
    exact receiver.session.trans (inv.live (receiver.isOpen.symm.trans isOpen))
  · rw [sent]
    exact inv.counted
  · rw [sent]
    exact inv.numbered
  · rw [sent, accepted]
    exact inv.ordered
  · intro isOpen
    rw [sent, accepted, receiver.last]
    exact inv.taken (receiver.isOpen.symm.trans isOpen)
  · intro p member
    rw [published] at member
    rcases List.mem_append.mp member with new | old
    · exact framed p new
    · exact inv.framed p old
  · rcases region with unchanged | zeroed
    · rw [WholeOutputs, accepted, unchanged]
      exact inv.outputs
    · exact Or.inl zeroed
  · rw [WholeInputs, published, List.map_append]
    exact inv.inputs.imp id fun old => List.mem_append_right _ old

include inv in
theorem exchange_inv (inputs : List UInt8) :
    LinkInv masterIndex session opened
      { l with inst := ecatMasterExchangeProcessdata l.inst inputs } history := by
  have sizes := exchange_sizes l.inst inputs inv.running.sized
  have region := exchange_outputRegion l.inst inputs inv.running
  have kept : SameMaster l.inst (ecatMasterExchangeProcessdata l.inst inputs) ∧
      SameReceiver l.inst.data (ecatMasterExchangeProcessdata l.inst inputs).data := by
    unfold ecatMasterExchangeProcessdata
    split <;> exact ⟨⟨rfl, rfl, rfl, rfl⟩, ⟨rfl, rfl, rfl, rfl⟩⟩
  exact master_inv inv [] (inv.running.congr kept.1 sizes) kept.1 kept.2 (Or.inl region) rfl rfl
    (by simp [publications])

include inv in
theorem publish_inv (lockFree : Bool) (wkc : Int) (operational wkcOk sent : Bool) :
    let result := ecatDataPublishInputs l.inst masterIndex lockFree wkc operational wkcOk sent
    LinkInv masterIndex session opened { l with inst := result.1 }
      (publishedEvents (inputRegion l.inst) result.2 sent ++ history) := by
  intro result
  obtain ⟨frame, data, after, receiver⟩ := publishInputs_spec l.inst masterIndex lockFree wkc
    operational wkcOk sent inv.running
  have sizes := publishInputs_sizes l.inst masterIndex lockFree wkc operational wkcOk sent
    inv.running.sized
  change result.1 = _ at after
  change bufferSizes result.1 = _ at sizes
  change result.2 = none ∨ _ ∧ result.2 = _ at frame
  rw [after] at sizes ⊢
  have events : publishedEvents (inputRegion l.inst) result.2 sent = [] ∨
      ∃ h, publishedEvents (inputRegion l.inst) result.2 sent =
        [.published (inputRegion l.inst) (edogFrameEncodeHeader h ++ inputRegion l.inst)] := by
    rcases frame with none | ⟨_, some⟩
    · exact Or.inl (by rw [none]; rfl)
    · rw [some]
      cases sent with
      | false => exact Or.inl rfl
      | true => exact Or.inr ⟨_, rfl⟩
  have same : SameMaster l.inst { l.inst with data := data } := ⟨rfl, rfl, rfl, rfl⟩
  have running := inv.running.congr same sizes
  rcases events with none | ⟨h, one⟩
  · rw [none]
    exact master_inv inv [] running same receiver (Or.inl rfl) rfl rfl (by simp [publications])
  · rw [one]
    refine master_inv inv _ running same receiver (Or.inl rfl) rfl rfl ?_
    intro p member
    rw [List.mem_singleton.mp member]
    exact ⟨h, rfl⟩

include inv in
theorem close_link_inv :
    LinkInv masterIndex session opened { l with inst := ecatDataClose l.inst } history := by
  have running : LinkMaster (ecatDataClose l.inst) :=
    ⟨inv.running.sized.reopen false, inv.running.outputs, inv.running.inputs, inv.running.apart⟩
  exact { inv with
    running := running
    same := ⟨inv.same.config, inv.same.layout, inv.same.context, inv.same.soem⟩
    live := fun isOpen => by cases isOpen
    taken := fun isOpen => by cases isOpen }

/-- What a step of the client adds to the history: an answer or nothing. -/
theorem step_cases (c : DataSession) (received : Option (List UInt8)) (fits : ClientFits c) :
    (answerEvents c.images.outputs (c.step received).2 = [] ∧ (c.step received).1 = c) ∨
      ∃ data, received = some data ∧ TakenInputs c data ∧ (c.step received).1 = c.taking data ∧
        answerEvents c.images.outputs (c.step received).2 =
          [.answered c.images.outputs (edogFrameEncodeHeader (answerHeader c.masterIndex
            c.outputBytes (UInt64.ofNat c.session) (UInt32.ofNat ((c.seq + 1) % 2 ^ 32))) ++
              c.images.outputs)] := by
  by_cases taken : ∃ data, received = some data ∧ TakenInputs c data
  · obtain ⟨data, rfl, taken⟩ := taken
    have answered := step_taken c data fits taken
    exact Or.inr ⟨data, rfl, taken, by rw [answered], by rw [answered]; rfl⟩
  · obtain ⟨same, silent⟩ := step_refused c received fun data exact_ taken_ =>
      taken ⟨data, exact_, taken_⟩
    refine Or.inl ⟨?_, same⟩
    cases outcome : (c.step received).2 with
    | answered frame => exact absurd outcome (silent frame)
    | timeout | ignored | raised => rfl

/-- A frame that the client takes was published: it knows the session number. -/
theorem taken_published {data : List UInt8} (taken : TakenInputs l.client data)
    (told : Told masterIndex session opened l.client)
    (allowed : data ∈ (publications history).map Prod.snd ∨ Strange session data) :
    ∃ p ∈ publications history, p.2 = data := by
  rcases allowed with sent | short | wrong
  · simpa using sent
  · exact absurd taken.long (Nat.not_le.mpr short)
  · refine absurd (UInt64.toNat_inj.mp ?_) wrong
    exact taken.session.trans told.session

theorem numbered_cons {out : Nat} {sent : List (List UInt8 × List UInt8)} {outputs : List UInt8}
    (numbered : Numbered masterIndex out session sent) (length : outputs.length = out) :
    Numbered masterIndex out session ((outputs, edogFrameEncodeHeader (answerHeader masterIndex out
      session (UInt32.ofNat (sent.length + 1))) ++ outputs) :: sent) := by
  intro answer older place
  rcases List.suffix_cons_iff.mp place with whole | before
  · obtain ⟨rfl, rfl⟩ := List.cons.inj whole
    exact ⟨length, rfl⟩
  · exact numbered answer older before

include inv in
theorem client_inv (received : Option (List UInt8))
    (allowed : Network session opened.data.peer l history (.step received)) :
    LinkInv masterIndex session opened { l with client := (l.client.step received).1 }
      (answerEvents l.client.images.outputs (l.client.step received).2 ++ history) := by
  rcases step_cases l.client received inv.fits with
    ⟨none, same⟩ | ⟨data, rfl, taken, client, one⟩
  · rw [none, same]
    exact inv
  · have number : UInt32.ofNat ((l.client.seq + 1) % 2 ^ 32) =
        UInt32.ofNat ((answers history).length + 1) := by
      rw [inv.counted]
      apply UInt32.toNat_inj.mp
      simp only [UInt32.toNat_ofNat']
      omega
    rw [inv.told.masterIndex, inv.told.outputBytes, inv.told.session, UInt64.ofNat_toNat,
      number] at one
    rw [client, one]
    obtain ⟨p, published, rfl⟩ := taken_published taken inv.told allowed
    obtain ⟨h, frame⟩ := inv.framed p published
    have image : l.client.images.outputs.length = opened.layout.outputBytes :=
      inv.fits.image.trans inv.told.outputBytes
    have inputs : p.2.drop edogFrameHeaderSize = p.1 := by
      rw [frame]
      exact @List.drop_left _ (edogFrameEncodeHeader h) p.1
    refine ⟨inv.running, inv.same, inv.peer, inv.live, ?_, ?_, ?_, ?_, ?_, ?_, ?_, ?_, ?_⟩
    · exact ⟨inv.fits.masterIndex, inv.fits.session, inv.fits.outputBytes, inv.fits.image⟩
    · exact ⟨inv.told.masterIndex, inv.told.session, inv.told.outputBytes⟩
    · change (l.client.seq + 1) % 2 ^ 32 = ((answers history).length + 1) % 2 ^ 32
      rw [inv.counted]
      omega
    · exact numbered_cons inv.numbered image
    · exact inv.ordered.trans (List.sublist_cons_self _ _)
    · intro isOpen
      exact (inv.taken isOpen).send _
    · exact inv.framed
    · exact inv.outputs
    · right
      change p.2.drop edogFrameHeaderSize ∈ _
      rw [inputs]
      exact List.mem_map_of_mem published

theorem answers_accepted (frames : List AcceptedFrame) : answers (frames.map .accepted) = [] := by
  induction frames with
  | nil => rfl
  | cons frame rest ih => exact ih

theorem publications_accepted (frames : List AcceptedFrame) :
    publications (frames.map .accepted) = [] := by
  induction frames with
  | nil => rfl
  | cons frame rest ih => exact ih

theorem acceptedPayloads_accepted (frames : List AcceptedFrame) :
    acceptedPayloads (frames.map .accepted) = frames.map AcceptedFrame.payload := by
  induction frames with
  | nil => rfl
  | cons frame rest ih => exact congrArg (frame.payload :: ·) ih

include inv in
/-- Without a session a call leaves the region alone or zeroes it. -/
theorem closedCall_inv (queue : List Datagram) (closed : l.inst.data.isOpen = false) :
    LinkInv masterIndex session opened
      { l with inst := ecatDataApplyOutputs l.inst masterIndex true queue } history := by
  obtain ⟨memory, region, present, place, inside⟩ := inv.running.mapped
  have sizes := applyOutputs_sizes l.inst masterIndex true queue inv.running.sized
  have outBytes : l.inst.layout.outputBytes = opened.layout.outputBytes :=
    congrArg Layout.outputBytes inv.same.layout
  by_cases armed : l.inst.data.outputsZeroed = false
  · have call : ecatDataApplyOutputs l.inst masterIndex true queue =
        { writeIomap l.inst region (zeros l.inst.layout.outputBytes) with
          data := { l.inst.data with outputsZeroed := true } } := by
      simp [ecatDataApplyOutputs, place, closed, armed]
    have zeroed := (writeIomap_region l.inst region memory (zeros l.inst.layout.outputBytes)
      { l.inst.data with outputsZeroed := true } present place inside (zeros_length _)).1
    rw [call] at sizes ⊢
    have same : SameMaster l.inst
        { writeIomap l.inst region (zeros l.inst.layout.outputBytes) with
          data := { l.inst.data with outputsZeroed := true } } := ⟨rfl, rfl, rfl, rfl⟩
    refine master_inv inv [] (inv.running.congr same sizes) same
      ⟨rfl, rfl, rfl, rfl⟩ (Or.inr ?_) rfl rfl (by simp [publications])
    rw [zeroed, outBytes]
  · have call : ecatDataApplyOutputs l.inst masterIndex true queue = l.inst := by
      simp [ecatDataApplyOutputs, place, closed, armed]
    rw [call]
    exact inv

include inv in
/-- A call on the open session takes what it hears, in the client's order. -/
theorem openCall_inv (indexFits : masterIndex < 256) (queue : List Datagram)
    (isOpen : l.inst.data.isOpen = true)
    (mayArrive : ∀ datagram ∈ queue, MayArrive session opened.data.peer history datagram) :
    LinkInv masterIndex session opened
      { l with inst := ecatDataApplyOutputs l.inst masterIndex true queue }
      ((callFrames l.inst masterIndex queue).reverse.map .accepted ++ history) := by
  have openSession := inv.running.openSession isOpen
  obtain ⟨_, same⟩ := applyOutputs_openSession l.inst masterIndex queue openSession
  obtain ⟨stillOpen, peer, sameSession, last⟩ :=
    applyOutputs_receiver queue openSession indexFits
  have sizes := applyOutputs_sizes l.inst masterIndex true queue inv.running.sized
  have outBytes : l.inst.layout.outputBytes = opened.layout.outputBytes :=
    congrArg Layout.outputBytes inv.same.layout
  have frames := callFrames_heard queue openSession indexFits
  rw [outBytes] at frames last
  have arrive := heard_arrives inv.numbered queue l.inst.data rfl
    (inv.live isOpen) (by rw [inv.peer]; exact mayArrive)
  have received := keepNewer_taken sequenceOf
    (fun datagram => (frameOf opened.layout.outputBytes datagram).payload)
    (inv.taken isOpen) _ fun datagram member => (arrive datagram member).2
  generalize events : (callFrames l.inst masterIndex queue).reverse = accepted
  have sent : answers (accepted.map .accepted ++ history) = answers history := by
    rw [answers, List.filterMap_append, ← answers, ← answers, answers_accepted, List.nil_append]
  have published : publications (accepted.map .accepted ++ history) = publications history := by
    rw [publications, List.filterMap_append, ← publications, ← publications,
      publications_accepted, List.nil_append]
  have payloads : acceptedPayloads (accepted.map .accepted ++ history) =
      accepted.map AcceptedFrame.payload ++ acceptedPayloads history := by
    rw [acceptedPayloads, List.filterMap_append, List.map_append, ← acceptedPayloads,
      ← acceptedPayloads, acceptedPayloads_accepted]
  have exactly : acceptedPayloads (accepted.map .accepted ++ history) =
      ((keepNewer sequenceOf (lastSequence l.inst.data)
        (heard l.inst.data masterIndex opened.layout.outputBytes queue)).map
          fun datagram => (frameOf opened.layout.outputBytes datagram).payload).reverse ++
        acceptedPayloads history := by
    rw [payloads, ← events, frames, List.map_reverse, List.map_map]
    rfl
  rw [← exactly, ← last] at received
  refine ⟨inv.running.congr same sizes, inv.same.trans same, peer.trans inv.peer, ?_, inv.fits,
    inv.told, ?_, ?_, ?_, ?_, ?_, ?_, ?_⟩
  · intro _
    exact sameSession.trans (inv.live isOpen)
  · rw [sent]
    exact inv.counted
  · rw [sent]
    exact inv.numbered
  · rw [sent]
    exact received.sublist
  · intro _
    rw [sent]
    exact received
  · rw [published]
    exact inv.framed
  · rw [WholeOutputs]
    rcases @applyOutputs_region l.inst masterIndex queue openSession with
      ⟨none, unchanged | zeroed⟩ | ⟨frame, found, region⟩
    · rw [none] at events
      rw [payloads, ← events, unchanged]
      exact inv.outputs
    · rw [zeroed, outBytes]
      exact Or.inl rfl
    · cases valid : frame.valid with
      | false =>
          rw [valid] at region
          rw [region, outBytes]
          exact Or.inl rfl
      | true =>
          rw [valid, if_pos rfl] at region
          right; right
          rw [List.getLast?_eq_head?_reverse, events] at found
          rw [payloads, region, List.head?_append, List.head?_map, found]
          rfl
  · rw [WholeInputs, published]
    exact inv.inputs

include inv in
theorem apply_inv (indexFits : masterIndex < 256) (lockFree : Bool) (queue : List Datagram)
    (mayArrive : ∀ datagram ∈ queue, MayArrive session opened.data.peer history datagram) :
    LinkInv masterIndex session opened
      { l with inst := ecatDataApplyOutputs l.inst masterIndex lockFree queue }
      ((appliedFrames l.inst masterIndex lockFree queue).map .accepted ++ history) := by
  have mapped : (ecatLayoutOutputRegion l.inst).isSome = true :=
    Option.ne_none_iff_isSome.mp inv.running.outputs
  cases lockFree with
  | false =>
      have call : ecatDataApplyOutputs l.inst masterIndex false queue = l.inst := by
        unfold ecatDataApplyOutputs
        split <;> rfl
      rw [call]
      exact inv
  | true =>
      cases isOpen : l.inst.data.isOpen with
      | false =>
          have none : appliedFrames l.inst masterIndex true queue = [] := by
            simp [appliedFrames, isOpen]
          rw [none]
          exact closedCall_inv inv queue isOpen
      | true =>
          have applied : appliedFrames l.inst masterIndex true queue =
              (callFrames l.inst masterIndex queue).reverse := by
            simp [appliedFrames, isOpen, mapped]
          rw [applied]
          exact openCall_inv inv indexFits queue isOpen mayArrive

include inv in
theorem linkStep_inv (indexFits : masterIndex < 256) {action : LinkAction} {next : Link}
    {events : List LinkEvent} (allowed : Network session opened.data.peer l history action)
    (move : linkStep masterIndex l action = some (next, events)) :
    LinkInv masterIndex session opened next (events ++ history) := by
  cases action with
  | set entry value =>
      cases Option.some.inj move
      exact set_inv inv entry value
  | step received =>
      cases Option.some.inj move
      exact client_inv inv received allowed
  | applyOutputs lockFree queue =>
      cases Option.some.inj move
      exact apply_inv inv indexFits lockFree queue allowed
  | exchange inputs =>
      cases Option.some.inj move
      exact exchange_inv inv inputs
  | publishInputs lockFree wkc operational wkcOk sent =>
      cases Option.some.inj move
      exact publish_inv inv lockFree wkc operational wkcOk sent
  | closeData =>
      cases Option.some.inj move
      exact close_link_inv inv

end Step

/-! ## Whole sessions -/

def linkOf (masterIndex : Nat) (session : UInt64) (opened : Instance) : Link :=
  ⟨opened, newDataSession masterIndex session.toNat opened.layout.outputBytes
    opened.layout.inputBytes⟩

section Run
variable {masterIndex : Nat} {inst opened : Instance} {endpoint : Option SockAddr}
  {socket : Option Nat} {random id : UInt64} {l : Link} {history : List LinkEvent}

theorem open_running (running : LinkMaster inst)
    (success : ecatDataOpen inst endpoint socket random = (opened, some id)) :
    LinkMaster opened ∧ opened.data.isOpen = true ∧ opened.data.session = id ∧
      lastSequence opened.data = none := by
  have answered : random = id := by
    have second := congrArg Prod.snd success
    unfold ecatDataOpen at second
    split at second
    · simp at second
    · dsimp only at second
      split at second
      · simp at second
      · split at second
        · simp at second
        · exact Option.some.inj second
  obtain ⟨peer, fd, _, _, rfl⟩ := ecatDataOpen_success inst opened endpoint socket random id success
  exact ⟨⟨running.sized.reopen true, running.outputs, running.inputs, running.apart⟩, rfl,
    answered, rfl⟩

theorem link_start_inv (indexFits : masterIndex < 256) (running : LinkMaster inst)
    (success : ecatDataOpen inst endpoint socket random = (opened, some id)) :
    LinkInv masterIndex id opened (linkOf masterIndex id opened) [] := by
  obtain ⟨running, isOpen, session, unheard⟩ := open_running running success
  refine ⟨running, ⟨rfl, rfl, rfl, rfl⟩, rfl, fun _ => session, ?_, ⟨rfl, rfl, rfl⟩, rfl, ?_,
    List.nil_sublist _, ?_, by simp [publications], Or.inr (Or.inl rfl), Or.inl rfl⟩
  · exact ⟨indexFits, id.toNat_lt, running.sized.outputFits, zeros_length _⟩
  · intro answer older place
    exact absurd (List.suffix_nil.mp place) (List.cons_ne_nil _ _)
  · intro _
    rw [show (linkOf masterIndex id opened).inst = opened from rfl, unheard]
    exact .nothing

theorem reached_inv (indexFits : masterIndex < 256) (running : LinkMaster inst)
    (success : ecatDataOpen inst endpoint socket random = (opened, some id))
    (reached : Transition.Reaches (linkStep masterIndex) (Network id opened.data.peer)
      (linkOf masterIndex id opened) l history) :
    LinkInv masterIndex id opened l history :=
  reached.invariant (LinkInv masterIndex id opened) (link_start_inv indexFits running success)
    fun _ _ _ _ _ inv allowed move => linkStep_inv inv indexFits allowed move

/-- One session, over any run on such a network: the outputs the master takes are
a sublist of the outputs the client sent, and neither side ever holds a part of
an image. -/
theorem data_session_in_order (indexFits : masterIndex < ecatMaxMasters)
    (running : LinkMaster inst)
    (success : ecatDataOpen inst endpoint socket random = (opened, some id))
    (reached : Transition.Reaches (linkStep masterIndex) (Network id opened.data.peer)
      (linkOf masterIndex id opened) l history) :
    (acceptedPayloads history).Sublist ((answers history).map Prod.fst) ∧
      WholeOutputs opened l.inst history ∧ WholeInputs opened l.client history := by
  have inv := reached_inv (lt_trans indexFits (by decide)) running success reached
  exact ⟨inv.ordered, inv.outputs, inv.inputs⟩

/-- A frame of the client, from its address, is one for the session. -/
theorem answer_wellFormed {d : Session} {out : Nat} {number : UInt32} (datagram : Datagram)
    (outputs : List UInt8) (indexFits : masterIndex < 256) (small : out ≤ edogFrameMaxPayload)
    (length : outputs.length = out)
    (bytes : datagram.bytes =
      edogFrameEncodeHeader (answerHeader masterIndex out d.session number) ++ outputs)
    (sender : samePeer d.peer datagram.source = true) :
    WellFormed d masterIndex out datagram := by
  have header := readHeader_encode (answerHeader masterIndex out d.session number) outputs
  rw [← bytes] at header
  have payloadLen : (UInt16.ofNat out).toNat = out := by
    rw [UInt16.toNat_ofNat']
    change out ≤ 65483 at small
    omega
  have master : (UInt8.ofNat masterIndex).toNat = masterIndex := by
    rw [UInt8.toNat_ofNat']
    omega
  refine ⟨?_, ?_, ?_, ?_, ?_, ?_, ?_, sender⟩
  · rw [bytes, List.length_append, encodeHeader_length, length]
  · rw [bytes]
    exact ⟨rfl, rfl, rfl, rfl⟩
  · exact congrArg FrameHeader.version header
  · exact congrArg FrameHeader.kind header
  · exact (congrArg (fun h => h.master.toNat) header).trans master
  · exact congrArg FrameHeader.session header
  · exact (congrArg (fun h => h.payloadLen.toNat) header).trans payloadLen

/-- The newest answer, once it is in the socket, is what the region holds. -/
theorem LinkInv.newest_applied (indexFits : masterIndex < 256)
    (inv : LinkInv masterIndex id opened l history) (isOpen : l.inst.data.isOpen = true)
    (outputs frame : List UInt8) (newest : (answers history).head? = some (outputs, frame))
    (awaited : IsNews (lastSequence l.inst.data) (numberOf 32 (answers history)))
    (queue : List Datagram)
    (mayArrive : ∀ datagram ∈ queue, MayArrive id opened.data.peer history datagram)
    (delivered : ∃ datagram ∈ queue, datagram.bytes = frame ∧
      samePeer opened.data.peer datagram.source = true) :
    outputRegion (ecatDataApplyOutputs l.inst masterIndex true queue) = outputs := by
  have openSession := inv.running.openSession isOpen
  have outBytes : l.inst.layout.outputBytes = opened.layout.outputBytes :=
    congrArg Layout.outputBytes inv.same.layout
  have frames := callFrames_heard queue openSession indexFits
  rw [outBytes] at frames
  have arrive := heard_arrives inv.numbered queue l.inst.data rfl
    (inv.live isOpen) (by rw [inv.peer]; exact mayArrive)
  obtain ⟨datagram, member, rfl, sender⟩ := delivered
  obtain ⟨older, whole⟩ : ∃ older, answers history = (outputs, datagram.bytes) :: older := by
    cases split : answers history with
    | nil => simp [split] at newest
    | cons answer older =>
        rw [split, List.head?_cons] at newest
        exact ⟨older, by rw [Option.some.inj newest]⟩
  have place : ((outputs, datagram.bytes) :: older) <:+ answers history := by
    rw [whole]
  obtain ⟨length, bytes⟩ := inv.numbered _ older place
  have small : opened.layout.outputBytes ≤ edogFrameMaxPayload := by
    rw [← outBytes]
    exact inv.running.sized.outputFits
  have wellFormed : WellFormed l.inst.data masterIndex opened.layout.outputBytes datagram := by
    apply answer_wellFormed datagram outputs indexFits small length
    · rw [inv.live isOpen]
      exact bytes
    · rw [inv.peer]
      exact sender
  have isHeard : datagram ∈ heard l.inst.data masterIndex opened.layout.outputBytes queue :=
    List.mem_filter.mpr ⟨member, decide_eq_true wellFormed⟩
  have newestNumber : numberOf 32 ((answers history).map Prod.fst) =
      sequenceOf datagram := by
    rw [numberOf_map, whole]
    exact (inv.numbered.sequence _ older place).symm
  have current := keepNewer_upToDate sequenceOf
    (fun datagram => (frameOf opened.layout.outputBytes datagram).payload) []
    (by rw [numberOf_map]; exact awaited) _ (fun datagram member => (arrive datagram member).2)
    ⟨datagram, isHeard, newestNumber.symm⟩
  have head := current.1
  rw [List.append_nil, List.head?_reverse, List.getLast?_map, List.head?_map, newest] at head
  obtain ⟨last, isLast, payload⟩ := Option.map_eq_some_iff.mp head
  have lastHeard : last ∈ heard l.inst.data masterIndex opened.layout.outputBytes queue :=
    (keepNewer_sublist sequenceOf _ _).subset (List.mem_of_getLast? isLast)
  have lastFrame : (callFrames l.inst masterIndex queue).getLast? =
      some (frameOf opened.layout.outputBytes last) := by
    rw [frames, List.getLast?_map, isLast, Option.map_some]
  rcases @applyOutputs_region l.inst masterIndex queue openSession with
    ⟨none, _⟩ | ⟨found, isFound, region⟩
  · simp [none] at lastFrame
  · rw [lastFrame] at isFound
    rw [region, ← Option.some.inj isFound, (arrive last lastHeard).1, if_pos rfl]
    exact payload

/-- What the client sets is what the slaves get: it answers an input frame, and
the call that finds the answer writes the set value into the entry's bits and the
client's other outputs around it.  Whatever else is in the socket, and whatever
was lost before, as long as the answer's number is news. -/
theorem set_reaches_region (indexFits : masterIndex < ecatMaxMasters) (running : LinkMaster inst)
    (success : ecatDataOpen inst endpoint socket random = (opened, some id))
    (reached : Transition.Reaches (linkStep masterIndex) (Network id opened.data.peer)
      (linkOf masterIndex id opened) l history)
    (isOpen : l.inst.data.isOpen = true) (entry : ClientEntry) (value : Int)
    (inside : entry.bitOffset + entry.bitLength ≤ 8 * opened.layout.outputBytes)
    (data frame : List UInt8) (published : data ∈ (publications history).map Prod.snd)
    (answered : ((l.client.set entry value).step (some data)).2 = .answered frame)
    (awaited : l.inst.data.rxSeen = true →
      edogSeqNewer (UInt32.ofNat ((answers history).length + 1)) l.inst.data.rxLastSeq = true)
    (queue : List Datagram)
    (mayArrive : ∀ datagram ∈ queue, MayArrive id opened.data.peer
      (.answered (l.client.set entry value).images.outputs frame :: history) datagram)
    (delivered : ∃ datagram ∈ queue, datagram.bytes = frame ∧
      samePeer opened.data.peer datagram.source = true) :
    let region := outputRegion (ecatDataApplyOutputs l.inst masterIndex true queue)
    readBits region entry.bitOffset entry.bitLength =
        some (value % 2 ^ entry.bitLength).toNat ∧
      ∀ offset length, BitsApart entry.bitOffset entry.bitLength offset length →
        readBits region offset length = readBits l.client.images.outputs offset length := by
  intro region
  have small : masterIndex < 256 := lt_trans indexFits (by decide)
  have inv := reached_inv small running success reached
  have setInv := set_inv inv entry value
  have answerInv := client_inv setInv (some data) (Or.inl published)
  rw [answered] at answerInv
  have news : IsNews (lastSequence l.inst.data) (numberOf 32 (answers
      (.answered (l.client.set entry value).images.outputs frame :: history))) := by
    intro last same
    unfold lastSequence at same
    split at same
    · rename_i seen
      cases same
      have newer := (edogSeqNewer_iff _ _).mp (awaited seen)
      exact newer
    · cases same
  have image : region = (l.client.set entry value).images.outputs :=
    answerInv.newest_applied small isOpen _ frame rfl news queue mayArrive delivered
  have room : entry.bitOffset + entry.bitLength ≤ 8 * l.client.images.outputs.length := by
    rw [inv.fits.image, inv.told.outputBytes]
    exact inside
  rw [image]
  refine ⟨readBits_writeBits value room, ?_⟩
  intro offset length apart
  exact readBits_elsewhere value apart

end Run

/-! ## The fake master and its client -/

theorem fakeReady_link (cycleTimeUs : Int) : LinkMaster (fakeReady cycleTimeUs) := by
  have outputs : ecatLayoutOutputRegion (fakeReady cycleTimeUs) = some 0 := rfl
  have inputs : ecatLayoutInputRegion (fakeReady cycleTimeUs) = some 1 := rfl
  refine ⟨⟨rfl, show 1 ≤ edogFrameMaxPayload by decide, show 2 ≤ edogFrameMaxPayload by decide,
    rfl, rfl, ⟨1, rfl, le_rfl⟩, rfl, rfl, ⟨16, rfl, ?_, ?_⟩⟩, by simp [outputs],
    fun _ => by simp [inputs], ?_⟩
  · rintro region same
    cases same
    exact show 0 + 1 ≤ 16 by decide
  · rintro region same
    cases same
    exact show 1 + 2 ≤ 16 by decide
  · rintro o first i second
    cases first
    cases second
    exact show 0 + 1 ≤ 1 by decide

def fakeOutputEntry : ClientEntry := ⟨CString.text "output", 2, 3⟩

def fakeInputs : List UInt8 :=
  (ecatDataPublishInputs (fakeOpen 1000) 0 true 2 true true true).2.getD []

def fakeAnswer : List UInt8 :=
  match ((linkOf 0 7 (fakeOpen 1000)).client.set fakeOutputEntry 5).step (some fakeInputs) with
  | (_, .answered frame) => frame
  | _ => []

theorem fakeOpen_success : ecatDataOpen (fakeReady 1000) (some fakeClient) (some 3) 7 =
    (fakeOpen 1000, some 7) := rfl

/-- The answer arrives twice, with a frame of an unknown session between. -/
theorem data_session_in_order_fake :
    ∃ l history, Transition.Reaches (linkStep 0) (Network 7 fakeClient)
        (linkOf 0 7 (fakeOpen 1000)) l history ∧
      acceptedPayloads history = [[20]] ∧
      (acceptedPayloads history).Sublist ((answers history).map Prod.fst) ∧
      WholeOutputs (fakeOpen 1000) l.inst history := by
  obtain ⟨l, history, reached, accepted⟩ := Transition.exists_of_execute (linkStep 0)
    (Network 7 fakeClient) (linkOf 0 7 (fakeOpen 1000))
    [.publishInputs true 2 true true true, .set fakeOutputEntry 5, .step (some fakeInputs),
      .applyOutputs true [⟨fakeClient, fakeAnswer⟩, ⟨fakeClient, zeros 25⟩,
        ⟨fakeClient, fakeAnswer⟩]]
    (fun _ history => acceptedPayloads history = [[20]]) (by decide +kernel)
  have ordered := data_session_in_order (show 0 < ecatMaxMasters by decide) (fakeReady_link 1000)
    fakeOpen_success reached
  exact ⟨l, history, reached, accepted, ordered.1, ordered.2.1⟩

theorem set_reaches_region_fake :
    ∃ l history, Transition.Reaches (linkStep 0) (Network 7 fakeClient)
        (linkOf 0 7 (fakeOpen 1000)) l history ∧
      readBits (outputRegion (ecatDataApplyOutputs l.inst 0 true [⟨fakeClient, fakeAnswer⟩]))
        fakeOutputEntry.bitOffset fakeOutputEntry.bitLength = some 5 := by
  obtain ⟨l, history, reached, isOpen, unseen, published, answered, sent⟩ :=
    Transition.exists_of_execute (linkStep 0) (Network 7 fakeClient) (linkOf 0 7 (fakeOpen 1000))
      [.publishInputs true 2 true true true]
      (fun l history => l.inst.data.isOpen = true ∧ l.inst.data.rxSeen = false ∧
        fakeInputs ∈ (publications history).map Prod.snd ∧
        ((l.client.set fakeOutputEntry 5).step (some fakeInputs)).2 = .answered fakeAnswer ∧
        MayArrive 7 fakeClient
          (.answered (l.client.set fakeOutputEntry 5).images.outputs fakeAnswer :: history)
          ⟨fakeClient, fakeAnswer⟩) (by decide +kernel)
  refine ⟨l, history, reached, ?_⟩
  refine (set_reaches_region (show 0 < ecatMaxMasters by decide) (fakeReady_link 1000)
    fakeOpen_success reached isOpen fakeOutputEntry 5 (show 2 + 3 ≤ 8 * 1 by decide) fakeInputs
    fakeAnswer published answered ?_ [⟨fakeClient, fakeAnswer⟩] ?_ ?_).1
  · intro seen
    rw [unseen] at seen
    cases seen
  · intro datagram member
    rw [List.mem_singleton.mp member]
    exact sent
  · exact ⟨_, List.mem_singleton_self _, rfl, by decide⟩

end EtherDog
