import EtherDog.Bus.Supervision
import EtherDog.Data.Admission
import EtherDog.Data.Codec

/-!
# The frame buffers and the layout over whole lifecycles

Layout, frame buffers, session and IOmap are made and dropped in different
functions.  `BufferSizes` is what all of them say about sizes; a cycle, a pass of
the monitor and the opening or closing of a session change none of it, and a start
reaches OPERATIONAL only after it has brought the sizes together.  `Access` is one
`memcpy`, `memset`, `recvfrom` or `send` of a cycle on a heap block.
-/

set_option autoImplicit false

namespace EtherDog

/-! ## Sizes -/

structure SessionSizes where
  isOpen : Bool
  rxBuf : Option Nat
  rxBufSize : Nat
  rxLatest : Option Nat
  txBuf : Option Nat
  txBufSize : Nat
  deriving DecidableEq, Repr

def sessionSizes (d : Session) : SessionSizes where
  isOpen := d.isOpen
  rxBuf := d.rxBuf
  rxBufSize := d.rxBufSize
  rxLatest := d.rxLatest.map List.length
  txBuf := d.txBuf.map List.length
  txBufSize := d.txBufSize

structure BufferSizes where
  layout : Layout
  group : Group
  iomap : Option Nat
  session : SessionSizes
  deriving DecidableEq, Repr

def bufferSizes (inst : Instance) : BufferSizes where
  layout := inst.layout
  group := inst.ecxContext.group
  iomap := inst.iomap.map List.length
  session := sessionSizes inst.data

@[simp] theorem bufferSizes_layout (inst : Instance) : (bufferSizes inst).layout = inst.layout := rfl

structure Sized (sizes : BufferSizes) : Prop where
  layout : sizes.layout = ⟨sizes.group.obytes, sizes.group.ibytes⟩
  outputFits : sizes.layout.outputBytes ≤ edogFrameMaxPayload
  inputFits : sizes.layout.inputBytes ≤ edogFrameMaxPayload
  rxSize : sizes.session.rxBufSize = edogFrameHeaderSize + sizes.layout.outputBytes + 1
  rxAllocated : sizes.session.rxBuf = some sizes.session.rxBufSize
  latest : ∃ room, sizes.session.rxLatest = some room ∧ sizes.layout.outputBytes ≤ room
  txSize : sizes.session.txBufSize = edogFrameHeaderSize + sizes.layout.inputBytes
  txAllocated : sizes.session.txBuf = some sizes.session.txBufSize
  iomap : ∃ room, sizes.iomap = some room ∧
    (∀ region, sizes.group.outputs = some region → region + sizes.layout.outputBytes ≤ room) ∧
    (∀ region, sizes.group.inputs = some region → region + sizes.layout.inputBytes ≤ room)

def Allocated (sizes : SessionSizes) : Prop :=
  sizes.rxBuf ≠ none ∧ sizes.rxLatest ≠ none ∧ sizes.txBuf ≠ none

theorem Sized.allocated {sizes : BufferSizes} (sized : Sized sizes) : Allocated sizes.session := by
  obtain ⟨room, latest, _⟩ := sized.latest
  exact ⟨by simp [sized.rxAllocated], by simp [latest], by simp [sized.txAllocated]⟩

theorem writeIomap_sizes (inst : Instance) (region : Nat) (bytes : List UInt8) (memory : List UInt8)
    (present : inst.iomap = some memory) (inside : region + bytes.length ≤ memory.length) :
    (writeIomap inst region bytes).iomap.map List.length = inst.iomap.map List.length := by
  simp only [writeIomap, present, Option.map_some]
  rw [Memory.overwrite_length memory region bytes inside]

theorem slice_length_le (memory : List UInt8) (address count : Nat) :
    (Memory.slice memory address count).length ≤ count := by
  simp only [Memory.slice, List.length_take]
  exact min_le_left _ _

/-! ## A cycle keeps the sizes -/

theorem drainOne_sizes (s : Drain) (masterIndex out room : Nat) (datagram : Datagram)
    (latest : s.d.rxLatest.map List.length = some room) (fits : out ≤ room) :
    sessionSizes (drainOne masterIndex out s datagram).d = sessionSizes s.d := by
  rcases drainOne_cases s masterIndex out datagram with dropped | ⟨h, buf, _, _, accepted⟩
  · rw [dropped]
    rfl
  · rw [accepted]
    by_cases valid : h.flags &&& edogFlagValid ≠ 0
    · obtain ⟨memory, present, exactRoom⟩ := Option.map_eq_some_iff.mp latest
      have inside : 0 + (Memory.slice buf edogFrameHeaderSize out).length ≤ memory.length := by
        have short := slice_length_le buf edogFrameHeaderSize out
        omega
      simp only [acceptFrame, sessionSizes, if_pos valid, present, Option.map_some,
        Memory.overwrite_length memory 0 _ inside]
    · simp only [acceptFrame, sessionSizes, if_neg valid]

theorem drain_sizes (s : Drain) (masterIndex out room : Nat) (queue : List Datagram)
    (latest : s.d.rxLatest.map List.length = some room) (fits : out ≤ room) :
    sessionSizes (drain masterIndex out s queue).d = sessionSizes s.d := by
  induction queue generalizing s with
  | nil => rfl
  | cons datagram rest ih =>
      have first := drainOne_sizes s masterIndex out room datagram latest fits
      have stillLatest : (drainOne masterIndex out s datagram).d.rxLatest.map List.length =
          some room := by
        rw [← latest]
        exact congrArg SessionSizes.rxLatest first
      exact (ih _ stillLatest).trans first

theorem settleOutputs_sizes (inst : Instance) (region : Nat) (s : Drain) (memory : List UInt8)
    (present : inst.iomap = some memory)
    (inside : region + inst.layout.outputBytes ≤ memory.length)
    (same : sessionSizes s.d = sessionSizes inst.data) :
    bufferSizes (settleOutputs inst region s) = bufferSizes inst := by
  have payload := writeIomap_sizes inst region
    (Memory.slice (s.d.rxLatest.getD []) 0 inst.layout.outputBytes) memory present
    (le_trans (Nat.add_le_add_left (slice_length_le _ _ _) region) inside)
  have zeroed := writeIomap_sizes inst region (zeros inst.layout.outputBytes) memory present
    (by simpa [zeros] using inside)
  unfold settleOutputs
  dsimp only
  split_ifs
  · exact congrArg₂ (BufferSizes.mk inst.layout inst.ecxContext.group) payload same
  · exact congrArg₂ (BufferSizes.mk inst.layout inst.ecxContext.group) zeroed same
  · exact congrArg₂ (BufferSizes.mk inst.layout inst.ecxContext.group) zeroed same
  · exact congrArg (BufferSizes.mk inst.layout inst.ecxContext.group _) same

theorem applyOutputs_sizes (inst : Instance) (masterIndex : Nat) (lockFree : Bool)
    (queue : List Datagram) (sized : Sized (bufferSizes inst)) :
    bufferSizes (ecatDataApplyOutputs inst masterIndex lockFree queue) = bufferSizes inst := by
  unfold ecatDataApplyOutputs
  cases found : ecatLayoutOutputRegion inst with
  | none => rfl
  | some region =>
      have outputs : inst.ecxContext.group.outputs = some region := by
        unfold ecatLayoutOutputRegion at found
        split at found
        · exact found
        · simp at found
      obtain ⟨room, iomap, outside, _⟩ := sized.iomap
      obtain ⟨memory, present, exactRoom⟩ := Option.map_eq_some_iff.mp iomap
      have inside : region + inst.layout.outputBytes ≤ memory.length := by
        rw [exactRoom]
        exact outside region outputs
      dsimp only
      split_ifs
      · rfl
      · have zeroed := writeIomap_sizes inst region (zeros inst.layout.outputBytes) memory present
          (by simpa [zeros] using inside)
        exact congrArg₂ (BufferSizes.mk inst.layout inst.ecxContext.group) zeroed rfl
      · rfl
      · obtain ⟨latestRoom, latest, fits⟩ := sized.latest
        apply settleOutputs_sizes inst region _ memory present inside
        exact drain_sizes _ masterIndex _ latestRoom queue latest fits

theorem exchange_sizes (inst : Instance) (inputs : List UInt8) (sized : Sized (bufferSizes inst)) :
    bufferSizes (ecatMasterExchangeProcessdata inst inputs) = bufferSizes inst := by
  unfold ecatMasterExchangeProcessdata
  cases found : inst.ecxContext.group.inputs with
  | none => rfl
  | some region =>
      obtain ⟨room, iomap, _, insideRoom⟩ := sized.iomap
      obtain ⟨memory, present, exactRoom⟩ := Option.map_eq_some_iff.mp iomap
      have inputBytes : inst.layout.inputBytes = inst.ecxContext.group.ibytes :=
        congrArg Layout.inputBytes sized.layout
      have inside : region + (inputs.take inst.ecxContext.group.ibytes).length ≤ memory.length := by
        have bounded := insideRoom region found
        have short : (inputs.take inst.ecxContext.group.ibytes).length ≤
            inst.ecxContext.group.ibytes := by
          rw [List.length_take]
          exact min_le_left _ _
        change region + inst.layout.inputBytes ≤ room at bounded
        omega
      have written := writeIomap_sizes inst region _ memory present inside
      exact congrArg₂ (BufferSizes.mk inst.layout inst.ecxContext.group) written rfl

theorem publishInputs_sizes (inst : Instance) (masterIndex : Nat) (lockFree : Bool) (wkc : Int)
    (operational wkcOk sent : Bool) (sized : Sized (bufferSizes inst)) :
    bufferSizes (ecatDataPublishInputs inst masterIndex lockFree wkc operational wkcOk sent).1 =
      bufferSizes inst := by
  obtain ⟨buf, present, bufSize⟩ := Option.map_eq_some_iff.mp sized.txAllocated
  have room : buf.length = edogFrameHeaderSize + inst.layout.inputBytes :=
    bufSize.trans sized.txSize
  have headed (h : FrameHeader) :
      (Memory.overwrite buf 0 (edogFrameEncodeHeader h)).length = buf.length := by
    apply Memory.overwrite_length
    rw [encodeHeader_length, room]
    omega
  have filled (h : FrameHeader) (memory : List UInt8) (offset : Nat) :
      (Memory.overwrite (Memory.overwrite buf 0 (edogFrameEncodeHeader h)) edogFrameHeaderSize
        (Memory.slice memory offset inst.layout.inputBytes)).length = buf.length := by
    have short := slice_length_le memory offset inst.layout.inputBytes
    rw [Memory.overwrite_length, headed]
    rw [headed, room]
    omega
  have kept (d : Session) (bytes : List UInt8) (same : sessionSizes d = sessionSizes inst.data)
      (length : bytes.length = buf.length) (sequence : UInt32) :
      sessionSizes { d with txSeq := sequence, txBuf := some bytes } = sessionSizes inst.data := by
    rw [← same]
    have before : d.txBuf.map List.length = some buf.length := by
      rw [show d.txBuf.map List.length = (sessionSizes d).txBuf from rfl, same]
      simp [sessionSizes, present]
    simp [sessionSizes, before, length]
  unfold ecatDataPublishInputs
  simp only [present]
  split
  · rfl
  · split
    · rfl
    · refine congrArg (BufferSizes.mk inst.layout inst.ecxContext.group _) ?_
      apply kept
      · split <;> simp [sessionSizes, present]
      · split
        · exact headed _
        · exact filled _ _ _

theorem collectAlPoll_sizes (inst : Instance) (poll : Option AlReply) :
    bufferSizes (collectAlPoll inst poll) = bufferSizes inst := by
  cases poll with
  | none => rfl
  | some reply =>
      unfold collectAlPoll countAlReply recordAlReply
      dsimp only
      split <;> rfl

theorem runOneCycle_sizes (inst : Instance) (masterIndex : Nat) (input : CycleInput)
    (sized : Sized (bufferSizes inst)) :
    bufferSizes (ecatRunOneCycle inst masterIndex input).1 = bufferSizes inst := by
  unfold ecatRunOneCycle
  dsimp only
  split
  · rfl
  · split
    · rfl
    · have applied := applyOutputs_sizes inst masterIndex input.lockFree input.queue sized
      have exchanged : bufferSizes (collectAlPoll (beforeCollect inst masterIndex input)
          input.poll) = bufferSizes inst := by
        rw [collectAlPoll_sizes]
        unfold beforeCollect
        rw [exchange_sizes _ _ (by rw [applied]; exact sized), applied]
      generalize collectAlPoll (beforeCollect inst masterIndex input) input.poll = collected
        at exchanged ⊢
      have published : bufferSizes (publishInputs collected masterIndex inst.busState input) =
          bufferSizes inst := by
        unfold publishInputs
        rw [publishInputs_sizes _ _ _ _ _ _ _ (by rw [exchanged]; exact sized), exchanged]
      split <;> exact published

theorem monitorPass_sizes (inst : Instance) (seen : SeenCounters) (states : List UInt16)
    (failures : UInt32) :
    bufferSizes (monitorPass inst seen states failures).1 = bufferSizes inst := by
  unfold monitorPass
  cases inst.busState with
  | recovering =>
      unfold attemptRecovery
      by_cases found : allOperational states = true
      · rw [if_pos found]
        rfl
      · rw [if_neg found]
        by_cases exhausted : inst.recoveryAttempts + 1 ≥ ecatMaxRecoveryAttempts
        · rw [if_pos exhausted]
          rfl
        · rw [if_neg exhausted]
          rfl
  | _ => rfl

/-! ## A start brings the sizes together -/

/-- What SOEM maps lies inside the bytes it reports as used. -/
def MapOutcome.Consistent (outcome : MapOutcome) : Prop :=
  (∀ region ∈ outcome.group.outputs, region + outcome.group.obytes ≤ outcome.ioSize) ∧
    (∀ region ∈ outcome.group.inputs, region + outcome.group.ibytes ≤ outcome.ioSize)

instance (outcome : MapOutcome) : Decidable outcome.Consistent :=
  inferInstanceAs (Decidable (_ ∧ _))

theorem allocBuffers_sizes (built ready : Instance) (allocated : Bool)
    (success : ecatDataAllocBuffers built allocated = some ready) :
    sessionSizes ready.data =
      ⟨built.data.isOpen, some (edogFrameHeaderSize + built.layout.outputBytes + 1),
        edogFrameHeaderSize + built.layout.outputBytes + 1,
        some (if built.layout.outputBytes > 0 then built.layout.outputBytes else 1),
        some (edogFrameHeaderSize + built.layout.inputBytes),
        edogFrameHeaderSize + built.layout.inputBytes⟩ := by
  unfold ecatDataAllocBuffers at success
  split at success
  · simp at success
  · split at success
    · simp at success
    · cases Option.some.inj success
      simp [sessionSizes, zeros]

theorem bringUp_sizes (inst : Instance) (o : StartOutcome) (consistent : o.mapping.Consistent) :
    ((bringUp inst o).2 = false ∧ ((bringUp inst o).1.data = inst.data ∨
      Allocated (sessionSizes (bringUp inst o).1.data))) ∨
    ((bringUp inst o).2 = true ∧ Sized (bufferSizes (bringUp inst o).1)) := by
  rcases bringUp_cases inst o with
    ⟨_, aborted, result, _, data⟩ |
      ⟨_, opened, mapped, built, ready, _, done, laid, alloc, result⟩
  · rw [result]
    refine Or.inl ⟨rfl, ?_⟩
    rcases data with same | ⟨built, ready, _, alloc, same⟩
    · exact Or.inl same
    · right
      change Allocated (sessionSizes aborted.data)
      rw [same, allocBuffers_sizes built ready _ alloc]
      exact ⟨by simp, by simp, by simp⟩
  · rw [result]
    obtain ⟨group, initialized, memory, iomap, room⟩ := configure_mapped _ mapped _ done
    obtain ⟨rfl, outputFits, inputFits⟩ := layoutBuild_fits mapped built _ initialized laid
    have sizes := allocBuffers_sizes _ ready _ alloc
    obtain ⟨data, rfl⟩ := allocBuffers_frame _ ready _ alloc
    change sessionSizes data = _ at sizes
    have sized : Sized ⟨⟨mapped.ecxContext.group.obytes, mapped.ecxContext.group.ibytes⟩,
        mapped.ecxContext.group, mapped.iomap.map List.length, sessionSizes data⟩ := by
      rw [group] at outputFits inputFits
      rw [sizes, iomap, group]
      refine ⟨rfl, outputFits, inputFits, rfl, rfl, ⟨_, rfl, ?_⟩, rfl, rfl, ⟨_, rfl, ?_, ?_⟩⟩
      · dsimp only
        split <;> omega
      · intro region found
        exact le_trans (consistent.1 region found) room
      · intro region found
        exact le_trans (consistent.2 region found) room
    refine Or.inr ⟨rfl, ?_⟩
    unfold enterOperational
    rw [exchange_sizes]
    · exact sized
    · exact sized

/-! ## The memory accesses of a cycle -/

/-- `count` bytes from `offset` on of a block of `size` bytes; NULL has none. -/
structure Access where
  size : Nat
  offset : Nat
  count : Nat
  deriving DecidableEq, Repr

def Access.Inside (access : Access) : Prop := access.offset + access.count ≤ access.size

def iomapAccess (inst : Instance) (region count : Nat) : Access :=
  ⟨(inst.iomap.map List.length).getD 0, region, count⟩

def latestAccess (d : Session) (count : Nat) : Access :=
  ⟨(d.rxLatest.map List.length).getD 0, 0, count⟩

/-- `recvfrom` is given the whole buffer; an accepted valid payload is copied on. -/
def drainOneAccesses (masterIndex outBytes : Nat) (s : Drain) (datagram : Datagram) :
    List Access :=
  let (buf, fromPeer) := edogDgramRecv s.d.rxBufSize s.d.peer datagram
  let received : Access := ⟨s.d.rxBuf.getD 0, 0, s.d.rxBufSize⟩
  match checkFrame s.d masterIndex outBytes buf fromPeer with
  | none => [received]
  | some h =>
      if h.flags &&& edogFlagValid ≠ 0 then
        [received, ⟨s.d.rxBuf.getD 0, edogFrameHeaderSize, outBytes⟩, latestAccess s.d outBytes]
      else [received]

def drainAccesses (masterIndex outBytes : Nat) : Drain → List Datagram → List Access
  | _, [] => []
  | s, datagram :: rest =>
      drainOneAccesses masterIndex outBytes s datagram ++
        drainAccesses masterIndex outBytes (drainOne masterIndex outBytes s datagram) rest

def settleAccesses (inst : Instance) (region : Nat) (s : Drain) : List Access :=
  let outBytes := inst.layout.outputBytes
  if s.haveNew then
    if s.latestValid then [latestAccess s.d outBytes, iomapAccess inst region outBytes]
    else [iomapAccess inst region outBytes]
  else if timeoutCycles inst < s.d.cyclesSinceOutput + 1 ∧ s.d.outputsZeroed = false then
    [iomapAccess inst region outBytes]
  else []

/-- Every block `ecat_data_apply_outputs` hands to `recvfrom`, `memcpy` or `memset`. -/
def applyOutputsAccesses (inst : Instance) (masterIndex : Nat) (lockFree : Bool)
    (queue : List Datagram) : List Access :=
  match ecatLayoutOutputRegion inst with
  | none => []
  | some region =>
      let outBytes := inst.layout.outputBytes
      if lockFree = false then []
      else if inst.data.isOpen = false then
        if inst.data.outputsZeroed = false then [iomapAccess inst region outBytes] else []
      else
        drainAccesses masterIndex outBytes ⟨inst.data, false, false⟩ queue ++
          settleAccesses inst region (drain masterIndex outBytes ⟨inst.data, false, false⟩ queue)

/-- Every block `ecat_data_publish_inputs` writes, copies or sends. -/
def publishInputsAccesses (inst : Instance) (lockFree : Bool) : List Access :=
  let d := inst.data
  let inBytes := inst.layout.inputBytes
  if lockFree = false then []
  else
    match d.txBuf with
    | none => []
    | some buf =>
        if d.isOpen = false ∨ d.fd < 0 ∨ d.txBufSize < edogFrameHeaderSize + inBytes then []
        else
          let header : Access := ⟨buf.length, 0, edogFrameHeaderSize⟩
          let frame : Access := ⟨buf.length, 0, edogFrameHeaderSize + inBytes⟩
          match ecatLayoutInputRegion inst with
          | none => [header, frame]
          | some region =>
              [header, ⟨buf.length, edogFrameHeaderSize, inBytes⟩, iomapAccess inst region inBytes,
                frame]

theorem drainOneAccesses_inside (s : Drain) (masterIndex out room : Nat) (datagram : Datagram)
    (rxBuf : s.d.rxBuf = some s.d.rxBufSize) (rxSize : s.d.rxBufSize = edogFrameHeaderSize + out + 1)
    (latest : s.d.rxLatest.map List.length = some room) (fits : out ≤ room) :
    ∀ access ∈ drainOneAccesses masterIndex out s datagram, access.Inside := by
  have received : Access.Inside ⟨s.d.rxBuf.getD 0, 0, s.d.rxBufSize⟩ := by
    simp [Access.Inside, rxBuf]
  have payload : Access.Inside ⟨s.d.rxBuf.getD 0, edogFrameHeaderSize, out⟩ := by
    simp only [Access.Inside, rxBuf, Option.getD_some, rxSize]
    omega
  have copied : (latestAccess s.d out).Inside := by
    simpa [Access.Inside, latestAccess, latest] using fits
  unfold drainOneAccesses
  dsimp only
  split
  · simpa using received
  · split
    · simpa using ⟨received, payload, copied⟩
    · simpa using received

theorem drainAccesses_inside (s : Drain) (masterIndex out room : Nat) (queue : List Datagram)
    (rxBuf : s.d.rxBuf = some s.d.rxBufSize) (rxSize : s.d.rxBufSize = edogFrameHeaderSize + out + 1)
    (latest : s.d.rxLatest.map List.length = some room) (fits : out ≤ room) :
    ∀ access ∈ drainAccesses masterIndex out s queue, access.Inside := by
  induction queue generalizing s with
  | nil => simp [drainAccesses]
  | cons datagram rest ih =>
      have same := drainOne_sizes s masterIndex out room datagram latest fits
      have sameBuf := congrArg SessionSizes.rxBuf same
      have sameSize := congrArg SessionSizes.rxBufSize same
      have sameLatest := congrArg SessionSizes.rxLatest same
      simp only [sessionSizes] at sameBuf sameSize sameLatest
      intro access member
      rcases List.mem_append.mp member with first | later
      · exact drainOneAccesses_inside s masterIndex out room datagram rxBuf rxSize latest fits
          access first
      · refine ih _ ?_ ?_ ?_ access later
        · rw [sameBuf, sameSize, rxBuf]
        · rw [sameSize, rxSize]
        · rw [sameLatest, latest]

theorem Sized.outputInside {inst : Instance} (sized : Sized (bufferSizes inst)) {region : Nat}
    (found : ecatLayoutOutputRegion inst = some region) :
    (iomapAccess inst region inst.layout.outputBytes).Inside := by
  obtain ⟨room, iomap, outputs, _⟩ := sized.iomap
  have group : inst.ecxContext.group.outputs = some region := by
    unfold ecatLayoutOutputRegion at found
    split at found
    · exact found
    · simp at found
  change inst.iomap.map List.length = some room at iomap
  simpa [Access.Inside, iomapAccess, iomap] using outputs region group

theorem Sized.inputInside {inst : Instance} (sized : Sized (bufferSizes inst)) {region : Nat}
    (found : ecatLayoutInputRegion inst = some region) :
    (iomapAccess inst region inst.layout.inputBytes).Inside := by
  obtain ⟨room, iomap, _, inputs⟩ := sized.iomap
  have group : inst.ecxContext.group.inputs = some region := by
    unfold ecatLayoutInputRegion at found
    split at found
    · exact found
    · simp at found
  change inst.iomap.map List.length = some room at iomap
  simpa [Access.Inside, iomapAccess, iomap] using inputs region group

theorem applyOutputsAccesses_inside (inst : Instance) (masterIndex : Nat) (lockFree : Bool)
    (queue : List Datagram) (sized : Sized (bufferSizes inst)) :
    ∀ access ∈ applyOutputsAccesses inst masterIndex lockFree queue, access.Inside := by
  obtain ⟨room, latest, fits⟩ := sized.latest
  unfold applyOutputsAccesses
  cases found : ecatLayoutOutputRegion inst with
  | none => simp
  | some region =>
      have inRegion := sized.outputInside found
      have sizes := drain_sizes ⟨inst.data, false, false⟩ masterIndex inst.layout.outputBytes room
        queue latest fits
      have drained := drainAccesses_inside ⟨inst.data, false, false⟩ masterIndex
        inst.layout.outputBytes room queue sized.rxAllocated sized.rxSize latest fits
      dsimp only
      generalize drain masterIndex inst.layout.outputBytes ⟨inst.data, false, false⟩ queue = s
        at sizes ⊢
      have copied : (latestAccess s.d inst.layout.outputBytes).Inside := by
        have sameLatest : s.d.rxLatest.map List.length = some room :=
          (congrArg SessionSizes.rxLatest sizes).trans latest
        simpa [Access.Inside, latestAccess, sameLatest] using fits
      split
      · simp
      · split
        · split
          · simpa using inRegion
          · simp
        · intro access member
          rcases List.mem_append.mp member with received | settled
          · exact drained access received
          · unfold settleAccesses at settled
            dsimp only at settled
            split at settled
            · split at settled
              · simp only [List.mem_cons, List.not_mem_nil, or_false] at settled
                rcases settled with rfl | rfl
                · exact copied
                · exact inRegion
              · cases List.mem_singleton.mp settled
                exact inRegion
            · split at settled
              · cases List.mem_singleton.mp settled
                exact inRegion
              · simp at settled

theorem publishInputsAccesses_inside (inst : Instance) (lockFree : Bool)
    (sized : Sized (bufferSizes inst)) :
    ∀ access ∈ publishInputsAccesses inst lockFree, access.Inside := by
  obtain ⟨buf, present, bufSize⟩ := Option.map_eq_some_iff.mp sized.txAllocated
  have room : buf.length = edogFrameHeaderSize + inst.layout.inputBytes :=
    bufSize.trans sized.txSize
  have header : Access.Inside ⟨buf.length, 0, edogFrameHeaderSize⟩ := by
    simp [Access.Inside, room]
  have payload : Access.Inside ⟨buf.length, edogFrameHeaderSize, inst.layout.inputBytes⟩ := by
    simp [Access.Inside, room]
  have frame : Access.Inside ⟨buf.length, 0, edogFrameHeaderSize + inst.layout.inputBytes⟩ := by
    simp [Access.Inside, room]
  unfold publishInputsAccesses
  simp only [present]
  split
  · simp
  · split
    · simp
    · cases found : ecatLayoutInputRegion inst with
      | none => simpa using ⟨header, frame⟩
      | some region => simpa using ⟨header, payload, sized.inputInside found, frame⟩

/-! ## Whole lifecycles -/

inductive BufferAction where
  | start (fresh : Nat) (outcome : StartOutcome)
  | stop
  | openData (endpoint : Option SockAddr) (socket : Option Nat) (random : UInt64)
  | closeData
  | cycle (masterIndex : Nat) (input : CycleInput)
  | monitor (seen : SeenCounters) (states : List UInt16) (failures : UInt32)

def bufferStep : Transition.Step Master BufferAction MasterEvent
  | m, .start fresh outcome =>
      let (next, _, events) := startMaster m fresh outcome
      some (next, events)
  | m, .stop => some (stopSingleMaster m)
  | m, .openData endpoint socket random =>
      some ({ m with inst := (ecatDataOpen m.inst endpoint socket random).1 }, [])
  | m, .closeData => some ({ m with inst := ecatDataClose m.inst }, [])
  | m, .cycle masterIndex input =>
      some ({ m with inst := (ecatRunOneCycle m.inst masterIndex input).1 }, [])
  | m, .monitor seen states failures =>
      some ({ m with inst := (monitorPass m.inst seen states failures).1 }, [])

/-- Every start is told a mapping that lies inside the IOmap. -/
def soemConsistent : Transition.Guard Master BufferAction MasterEvent
  | _, _, .start _ outcome => outcome.mapping.Consistent
  | _, _, _ => True

instance (m : Master) (history : List MasterEvent) (action : BufferAction) :
    Decidable (soemConsistent m history action) :=
  match action with
  | .start _ outcome => inferInstanceAs (Decidable outcome.mapping.Consistent)
  | .stop | .openData .. | .closeData | .cycle .. | .monitor .. => isTrue trivial

def MayCycle (inst : Instance) : Prop :=
  inst.busState = .operational ∨ inst.busState = .recovering

instance (inst : Instance) : Decidable (MayCycle inst) := inferInstanceAs (Decidable (_ ∨ _))

structure BufferInv (inst : Instance) : Prop where
  together : (sessionSizes inst.data).rxBuf ≠ none → (sessionSizes inst.data).rxLatest ≠ none
  allocated : inst.data.isOpen = true → Allocated (sessionSizes inst.data)
  sized : MayCycle inst → Sized (bufferSizes inst)

theorem BufferInv.of_sizes {before after : Instance} (inv : BufferInv before)
    (same : bufferSizes after = bufferSizes before)
    (states : MayCycle after → MayCycle before) : BufferInv after := by
  have session : sessionSizes after.data = sessionSizes before.data :=
    congrArg BufferSizes.session same
  refine ⟨?_, fun isOpen => ?_, fun running => ?_⟩
  · rw [session]
    exact inv.together
  · rw [session]
    exact inv.allocated ((congrArg SessionSizes.isOpen session).symm.trans isOpen)
  · rw [same]
    exact inv.sized (states running)

/-- A master that may not cycle, with its session as it was or with new buffers. -/
theorem BufferInv.of_session {before after : Instance} (inv : BufferInv before)
    (data : after.data = before.data ∨ Allocated (sessionSizes after.data))
    (quiet : ¬ MayCycle after) : BufferInv after := by
  rcases data with same | allocated
  · refine ⟨?_, ?_, fun running => absurd running quiet⟩
    · rw [same]
      exact inv.together
    · rw [same]
      exact inv.allocated
  · exact ⟨fun _ => allocated.2.1, fun _ => allocated, fun running => absurd running quiet⟩

theorem BufferInv.of_sized {inst : Instance} (sized : Sized (bufferSizes inst)) :
    BufferInv inst :=
  ⟨fun _ => sized.allocated.2.1, fun _ => sized.allocated, fun _ => sized⟩

theorem cycle_bufferInv {inst : Instance} (inv : BufferInv inst) (masterIndex : Nat)
    (input : CycleInput) : BufferInv (ecatRunOneCycle inst masterIndex input).1 := by
  by_cases running : MayCycle inst
  · exact inv.of_sizes (runOneCycle_sizes inst masterIndex input (inv.sized running))
      (fun _ => running)
  · have idle : ecatRunOneCycle inst masterIndex input = (inst, false) := by
      unfold ecatRunOneCycle
      dsimp only
      rw [if_pos]
      simpa [MayCycle] using running
    rw [idle]
    exact inv

theorem monitor_bufferInv {inst : Instance} (inv : BufferInv inst) (seen : SeenCounters)
    (states : List UInt16) (failures : UInt32) :
    BufferInv (monitorPass inst seen states failures).1 := by
  refine inv.of_sizes (monitorPass_sizes inst seen states failures) ?_
  obtain ⟨_, _, _, same | ⟨recovering, _⟩⟩ := monitorPass_control inst seen states failures
  · unfold MayCycle
    rw [same]
    exact id
  · exact fun _ => Or.inr recovering

theorem Sized.reopen {sizes : BufferSizes} (sized : Sized sizes) (isOpen : Bool) :
    Sized { sizes with session := { sizes.session with isOpen := isOpen } } :=
  ⟨sized.layout, sized.outputFits, sized.inputFits, sized.rxSize, sized.rxAllocated,
    sized.latest, sized.txSize, sized.txAllocated, sized.iomap⟩

theorem close_bufferInv {inst : Instance} (inv : BufferInv inst) :
    BufferInv (ecatDataClose inst) := by
  refine ⟨inv.together, fun isOpen => ?_, fun running => (inv.sized running).reopen false⟩
  simp [ecatDataClose, closeLocked] at isOpen

theorem open_bufferInv {inst : Instance} (inv : BufferInv inst) (endpoint : Option SockAddr)
    (socket : Option Nat) (random : UInt64) :
    BufferInv (ecatDataOpen inst endpoint socket random).1 := by
  unfold ecatDataOpen
  cases endpoint with
  | none => exact inv
  | some peer =>
      dsimp only
      split
      · exact close_bufferInv inv
      · rename_i present
        simp only [closeLocked, not_or] at present
        cases socket with
        | none => exact close_bufferInv inv
        | some fd =>
            refine ⟨inv.together, fun _ => ⟨present.1, inv.together present.1, ?_⟩, ?_⟩
            · simpa [sessionSizes, closeLocked] using present.2
            · exact fun running => (inv.sized running).reopen true

theorem start_bufferInv {m : Master} (inv : BufferInv m.inst) (fresh : Nat) (o : StartOutcome)
    (consistent : o.mapping.Consistent) : BufferInv (startSingleMaster m fresh o).1.inst := by
  unfold startSingleMaster
  split
  · exact inv
  · dsimp only
    have sizes := bringUp_sizes m.inst o consistent
    have spec := bringUp_spec m.inst o
    generalize bringUp m.inst o = brought at sizes spec
    obtain ⟨inst, ok⟩ := brought
    rcases sizes with ⟨rfl, data⟩ | ⟨rfl, sized⟩
    · have failed : inst.busState = .error := by
        rcases spec with ⟨_, failed⟩ | ⟨impossible, _⟩
        · exact failed.busState
        · simp at impossible
      exact inv.of_session data (by simp [MayCycle, failed])
    · dsimp only
      split
      · exact BufferInv.of_sized sized
      · split
        · exact BufferInv.of_sized sized
        · exact BufferInv.of_sized sized

theorem startMaster_bufferInv {m : Master} (inv : BufferInv m.inst) (fresh : Nat)
    (o : StartOutcome) (consistent : o.mapping.Consistent) :
    BufferInv (startMaster m fresh o).1.inst := by
  unfold startMaster
  dsimp only
  split
  · exact inv
  · split
    · exact inv
    · exact start_bufferInv inv fresh o consistent

/-- A stop closes the session before it frees the buffers. -/
theorem stop_bufferInv {m : Master} (inv : BufferInv m.inst) :
    BufferInv (stopSingleMaster m).1.inst := by
  unfold stopSingleMaster
  split
  · exact inv
  · refine ⟨fun present => absurd rfl present, fun isOpen => ?_, fun running => ?_⟩
    · simp [ecatMasterClose, ecatLayoutDestroy, ecatDataFreeBuffers, ecatDataClose,
        closeLocked] at isOpen
    · simp [MayCycle] at running

theorem bufferStep_inv {m next : Master} {history events : List MasterEvent}
    {action : BufferAction} (inv : BufferInv m.inst) (allowed : soemConsistent m history action)
    (move : bufferStep m action = some (next, events)) : BufferInv next.inst := by
  cases action with
  | start fresh outcome =>
      cases Option.some.inj move
      exact startMaster_bufferInv inv fresh outcome allowed
  | stop =>
      have stopped := stop_bufferInv inv
      rwa [show stopSingleMaster m = (next, events) from Option.some.inj move] at stopped
  | openData endpoint socket random =>
      cases Option.some.inj move
      exact open_bufferInv inv endpoint socket random
  | closeData =>
      cases Option.some.inj move
      exact close_bufferInv inv
  | cycle masterIndex input =>
      cases Option.some.inj move
      exact cycle_bufferInv inv masterIndex input
  | monitor seen states failures =>
      cases Option.some.inj move
      exact monitor_bufferInv inv seen states failures

theorem reached_bufferInv {config : Config} {m : Master} {history : List MasterEvent}
    (reached : Transition.Reaches bufferStep soemConsistent (freshMaster config) m history) :
    BufferInv m.inst := by
  refine reached.invariant (fun m _ => BufferInv m.inst) ?_ ?_
  · refine ⟨fun present => absurd rfl present, fun isOpen => ?_, fun running => ?_⟩
    · simp [freshMaster, ecatDataInit, zeroSession] at isOpen
    · simp [MayCycle, freshMaster, ecatDataInit, zeroInstance] at running
  · intro m history action next events inv allowed move
    exact bufferStep_inv inv allowed move

/-- Over every sequence of starts, stops, sessions, cycles and monitor passes, a
master that may cycle has the buffers its layout needs. -/
theorem frame_buffers_match_layout (config : Config) (m : Master) (history : List MasterEvent)
    (reached : Transition.Reaches bufferStep soemConsistent (freshMaster config) m history)
    (running : MayCycle m.inst) :
    m.inst.data.rxBufSize = 24 + m.inst.layout.outputBytes + 1 ∧
    (∃ latest, m.inst.data.rxLatest = some latest ∧ m.inst.layout.outputBytes ≤ latest.length) ∧
    m.inst.data.txBufSize = 24 + m.inst.layout.inputBytes ∧
    m.inst.data.rxBufSize ≤ 24 + 65483 + 1 ∧ m.inst.data.txBufSize ≤ 24 + 65483 + 1 ∧
    (m.inst.data.isOpen = true → m.inst.data.rxBuf = some m.inst.data.rxBufSize ∧
      m.inst.data.rxLatest ≠ none ∧
      m.inst.data.txBuf.map List.length = some m.inst.data.txBufSize) ∧
    (∀ masterIndex lockFree queue,
      ∀ access ∈ applyOutputsAccesses m.inst masterIndex lockFree queue, access.Inside) ∧
    (∀ lockFree, ∀ access ∈ publishInputsAccesses m.inst lockFree, access.Inside) ∧
    (UInt16.ofNat m.inst.layout.inputBytes).toNat = m.inst.layout.inputBytes := by
  have sized := (reached_bufferInv reached).sized running
  have outputFits : m.inst.layout.outputBytes ≤ 65483 := sized.outputFits
  have inputFits : m.inst.layout.inputBytes ≤ 65483 := sized.inputFits
  have rxSize : m.inst.data.rxBufSize = 24 + m.inst.layout.outputBytes + 1 := sized.rxSize
  have txSize : m.inst.data.txBufSize = 24 + m.inst.layout.inputBytes := sized.txSize
  obtain ⟨room, latestSize, fits⟩ := sized.latest
  obtain ⟨latest, present, exactRoom⟩ := Option.map_eq_some_iff.mp latestSize
  refine ⟨rxSize, ⟨latest, present, ?_⟩, txSize, by omega, by omega, fun _ => ?_, ?_, ?_, ?_⟩
  · rw [exactRoom]
    exact fits
  · exact ⟨sized.rxAllocated, by simp [present], sized.txAllocated⟩
  · intro masterIndex lockFree queue
    exact applyOutputsAccesses_inside m.inst masterIndex lockFree queue sized
  · intro lockFree
    exact publishInputsAccesses_inside m.inst lockFree sized
  · rw [UInt16.toNat_ofNat']
    omega

theorem frame_buffers_match_layout_fake :
    ∃ m history,
      Transition.Reaches bufferStep soemConsistent (freshMaster fakeConfig) m history ∧
        MayCycle m.inst ∧ m.inst.data.isOpen = true ∧ m.inst.layout = ⟨1, 2⟩ ∧
        m.inst.data.rxBufSize = 24 + m.inst.layout.outputBytes + 1 ∧
        ∀ access ∈ applyOutputsAccesses m.inst 0 true [sendOutputs 1 edogFlagValid [0xA5]],
          access.Inside := by
  have opened := Transition.exists_of_execute bufferStep soemConsistent (freshMaster fakeConfig)
    [.start 0 fakeStart, .openData (some fakeClient) (some 3) 7]
    (fun m _ => MayCycle m.inst ∧ m.inst.data.isOpen = true ∧ m.inst.layout = ⟨1, 2⟩)
    (by decide +kernel)
  obtain ⟨m, history, reached, running, isOpen, layout⟩ := opened
  obtain ⟨rxSize, _, _, _, _, _, inside, _⟩ :=
    frame_buffers_match_layout fakeConfig m history reached running
  exact ⟨m, history, reached, running, isOpen, layout, rxSize, inside 0 true _⟩

end EtherDog
