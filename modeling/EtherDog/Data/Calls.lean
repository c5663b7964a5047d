import EtherDog.Lib.Deadman
import EtherDog.Data.Admission

/-!
# One data session, call after call

`acceptedFrames` lists the frames a drain accepts, and `batchCall` reads a call
off them: the last accepted frame of the batch decides.  Seen through `Watches`,
a call of `ecat_data_apply_outputs` on an open session is one call of the dead
man's switch in `EtherDog.Lib.Deadman` over the output region.
-/

set_option autoImplicit false

namespace EtherDog

structure AcceptedFrame where
  header : FrameHeader
  payload : List UInt8
  deriving DecidableEq, Repr

def AcceptedFrame.valid (frame : AcceptedFrame) : Bool :=
  decide (frame.header.flags &&& edogFlagValid ≠ 0)

/-- The frames a drain accepts, in the order it accepts them. -/
def acceptedFrames (masterIndex out : Nat) : Drain → List Datagram → List AcceptedFrame
  | _, [] => []
  | s, datagram :: rest =>
      let (buf, fromPeer) := edogDgramRecv s.d.rxBufSize s.d.peer datagram
      let later := acceptedFrames masterIndex out (drainOne masterIndex out s datagram) rest
      match checkFrame s.d masterIndex out buf fromPeer with
      | none => later
      | some h => ⟨h, Memory.slice buf edogFrameHeaderSize out⟩ :: later

theorem acceptedFrames_append (masterIndex out : Nat) (s : Drain)
    (earlier later : List Datagram) :
    acceptedFrames masterIndex out s (earlier ++ later) =
      acceptedFrames masterIndex out s earlier ++
        acceptedFrames masterIndex out (drain masterIndex out s earlier) later := by
  induction earlier generalizing s with
  | nil => rfl
  | cons datagram rest ih =>
      have tail := ih (drainOne masterIndex out s datagram)
      simp only [List.cons_append, acceptedFrames, tail, drain, List.foldl_cons]
      split <;> rfl

/-! ## What a drain leaves behind -/

/-- The drain's state, read off the last frame it accepted. -/
def LastFrame (out : Nat) (before after : Drain) : Option AcceptedFrame → Prop
  | none => after.haveNew = before.haveNew ∧ after.latestValid = before.latestValid ∧
      after.d.rxSeen = before.d.rxSeen ∧ after.d.rxLastSeq = before.d.rxLastSeq ∧
      after.d.rxLatest = before.d.rxLatest
  | some frame => after.haveNew = true ∧ after.latestValid = frame.valid ∧
      after.d.rxSeen = true ∧ after.d.rxLastSeq = frame.header.sequence ∧
      frame.payload.length = out ∧
      (frame.valid = true →
        Memory.slice (after.d.rxLatest.getD []) 0 out = frame.payload)

theorem acceptFrame_last (masterIndex out : Nat) (s : Drain) (buf : List UInt8)
    (fromPeer : Bool) (h : FrameHeader) (fits : BuffersFit out s.d)
    (verdict : checkFrame s.d masterIndex out buf fromPeer = some h) :
    LastFrame out s (acceptFrame s out h buf)
      (some ⟨h, Memory.slice buf edogFrameHeaderSize out⟩) := by
  obtain ⟨decoded, _, _, _, payload, _⟩ :=
    (checkFrame_eq_some_iff s.d masterIndex out buf fromPeer h).mp verdict
  have payloadLength := acceptFrame_payload_length buf out h decoded payload
  refine ⟨rfl, rfl, rfl, rfl, payloadLength, ?_⟩
  intro valid
  obtain ⟨latest, latestExact, room⟩ := fits.latestRoom
  have copied : h.flags &&& edogFlagValid ≠ 0 := of_decide_eq_true valid
  have written := Memory.slice_overwrite latest 0 (Memory.slice buf edogFrameHeaderSize out)
    (by omega)
  rw [payloadLength] at written
  simp only [acceptFrame, if_pos copied, latestExact, Option.map_some, Option.getD_some]
  exact written

theorem drain_lastFrame (masterIndex out : Nat) (s : Drain) (queue : List Datagram)
    (fits : BuffersFit out s.d) :
    LastFrame out s (drain masterIndex out s queue)
      (acceptedFrames masterIndex out s queue).getLast? := by
  induction queue generalizing s with
  | nil => exact ⟨rfl, rfl, rfl, rfl, rfl⟩
  | cons datagram rest ih =>
      have later := ih (drainOne masterIndex out s datagram)
        (drainOne_fits s masterIndex out datagram fits)
      simp only [acceptedFrames, edogDgramRecv, drain, List.foldl_cons] at later ⊢
      cases verdict : checkFrame s.d masterIndex out (datagram.bytes.take s.d.rxBufSize)
          (samePeer s.d.peer datagram.source) with
      | none =>
          have dropped : drainOne masterIndex out s datagram = dropFrame s := by
            simp only [drainOne, edogDgramRecv, verdict]
          cases last : (acceptedFrames masterIndex out
              (drainOne masterIndex out s datagram) rest).getLast? with
          | none =>
              rw [last] at later
              rw [dropped] at later ⊢
              exact later
          | some frame =>
              rw [last] at later
              exact later
      | some h =>
          have accepted : drainOne masterIndex out s datagram =
              acceptFrame s out h (datagram.bytes.take s.d.rxBufSize) := by
            simp only [drainOne, edogDgramRecv, verdict]
          have first := acceptFrame_last masterIndex out s _ _ h fits verdict
          rw [List.getLast?_cons]
          cases last : (acceptedFrames masterIndex out
              (drainOne masterIndex out s datagram) rest).getLast? with
          | none =>
              rw [last, accepted] at later
              obtain ⟨haveNew, latestValid, rxSeen, rxLastSeq, rxLatest⟩ := later
              rw [accepted]
              simp only [Option.getD_none]
              obtain ⟨firstNew, firstValid, firstSeen, firstSeq, firstLength, firstCopy⟩ := first
              refine ⟨haveNew.trans firstNew, latestValid.trans firstValid,
                rxSeen.trans firstSeen, rxLastSeq.trans firstSeq, firstLength, ?_⟩
              rw [rxLatest]
              exact firstCopy
          | some frame =>
              rw [last] at later
              exact later

/-! ## A call as a call of the switch -/

def batchCall (frames : List AcceptedFrame) : Deadman.Call (List UInt8) :=
  match frames.getLast? with
  | none => .quiet
  | some frame => if frame.valid then .fresh frame.payload else .release

def watchdogParams (inst : Instance) : Deadman.Params (List UInt8) where
  safeValue := zeros inst.layout.outputBytes
  limit := (timeoutCycles inst).toNat
  modulus := 2 ^ 32

/-- The switch behind the session; `base` is the trip count it started from. -/
structure Watches (base : UInt64) (inst : Instance) (s : Deadman.State (List UInt8)) : Prop where
  value : outputRegion inst = s.value
  safe : inst.data.outputsZeroed = s.safe
  quiet : inst.data.cyclesSinceOutput.toNat = s.quiet
  trips : inst.data.watchdogTrips = base + UInt64.ofNat s.trips

/-- What no data function touches: the configuration and the process image's geometry. -/
structure SameMaster (before after : Instance) : Prop where
  config : after.config = before.config
  layout : after.layout = before.layout
  context : after.ecxContext = before.ecxContext
  soem : after.soemInitialized = before.soemInitialized

theorem SameMaster.trans {first second third : Instance} (earlier : SameMaster first second)
    (later : SameMaster second third) : SameMaster first third :=
  ⟨later.config.trans earlier.config, later.layout.trans earlier.layout,
    later.context.trans earlier.context, later.soem.trans earlier.soem⟩

theorem SameMaster.watchdogParams {before after : Instance} (same : SameMaster before after) :
    watchdogParams after = watchdogParams before := by
  simp only [EtherDog.watchdogParams, timeoutCycles, same.config, same.layout]

/-- Writing the whole output region of a mapped master. -/
theorem writeIomap_region (inst : Instance) (region : Nat) (memory bytes : List UInt8)
    (data : Session) (memoryExact : inst.iomap = some memory)
    (regionExact : ecatLayoutOutputRegion inst = some region)
    (inside : region + inst.layout.outputBytes ≤ memory.length)
    (wholeRegion : bytes.length = inst.layout.outputBytes) :
    let written := { writeIomap inst region bytes with data := data }
    outputRegion written = bytes ∧ Mapped written := by
  intro written
  have sameRegion : ecatLayoutOutputRegion written = some region := regionExact
  have memoryAfter : written.iomap = some (Memory.overwrite memory region bytes) := by
    simp [written, writeIomap, memoryExact]
  have room : region + bytes.length ≤ memory.length := by omega
  constructor
  · have readBack := Memory.slice_overwrite memory region bytes room
    rw [outputRegion, memoryAfter, sameRegion]
    rw [wholeRegion] at readBack
    exact readBack
  · refine ⟨_, region, memoryAfter, sameRegion, ?_⟩
    rw [Memory.overwrite_length _ _ _ room]
    exact inside

theorem zeros_length (count : Nat) : (zeros count).length = count := by
  simp [zeros]

theorem batchCall_quiet_iff (frames : List AcceptedFrame) :
    batchCall frames = .quiet ↔ frames = [] := by
  cases last : frames.getLast? with
  | none =>
      rw [List.getLast?_eq_none_iff] at last
      simp [last, batchCall]
  | some frame =>
      have nonempty : frames ≠ [] := by
        intro empty
        simp [empty] at last
      simp only [batchCall, last, nonempty, iff_false]
      split <;> simp

/-- After the drain only the three watchdog fields change. -/
theorem settleOutputs_data (inst : Instance) (region : Nat) (s : Drain) :
    (∃ zeroed cycles trips, (settleOutputs inst region s).data = { s.d with
        outputsZeroed := zeroed, cyclesSinceOutput := cycles, watchdogTrips := trips }) ∧
      SameMaster inst (settleOutputs inst region s) := by
  rcases settleOutputs_cases inst region s with
    ⟨_, _, settled⟩ | ⟨_, _, settled⟩ | ⟨_, _, _, settled⟩ | ⟨_, _, settled⟩ <;>
    rw [settled] <;> exact ⟨⟨_, _, _, rfl⟩, rfl, rfl, rfl, rfl⟩

theorem cycles_succ (cycles : UInt32) : (cycles + 1).toNat = (cycles.toNat + 1) % 2 ^ 32 := by
  rw [UInt32.toNat_add]
  rfl

theorem trips_succ (base : UInt64) (trips : Nat) :
    base + UInt64.ofNat trips + 1 = base + UInt64.ofNat (trips + 1) := by
  rw [UInt64.ofNat_add, UInt64.add_assoc]
  rfl

section OneCall
variable (inst : Instance) (masterIndex : Nat) (queue : List Datagram)

/-- The frames one call on the session accepts. -/
def callFrames : List AcceptedFrame :=
  acceptedFrames masterIndex inst.layout.outputBytes ⟨inst.data, false, false⟩ queue

theorem applyOutputs_openSession (opened : OpenSession inst) :
    OpenSession (ecatDataApplyOutputs inst masterIndex true queue) ∧
      SameMaster inst (ecatDataApplyOutputs inst masterIndex true queue) := by
  obtain ⟨memory, region, memoryExact, inside, regionExact, call⟩ :=
    applyOutputs_open inst masterIndex queue opened
  have same := drain_sameSession ⟨inst.data, false, false⟩ masterIndex
    inst.layout.outputBytes queue
  have fits := drain_fits ⟨inst.data, false, false⟩ masterIndex
    inst.layout.outputBytes queue opened.fits
  generalize drain masterIndex inst.layout.outputBytes ⟨inst.data, false, false⟩ queue = s
    at call same fits
  obtain ⟨⟨zeroed, cycles, trips, data⟩, master⟩ := settleOutputs_data inst region s
  rw [call]
  have stillMapped : Mapped (settleOutputs inst region s) := by
    rcases settleOutputs_cases inst region s with
      ⟨_, _, settled⟩ | ⟨_, _, settled⟩ | ⟨_, _, _, settled⟩ | ⟨_, _, settled⟩ <;> rw [settled]
    · have copied : (Memory.slice (s.d.rxLatest.getD []) 0 inst.layout.outputBytes).length =
          inst.layout.outputBytes := by
        obtain ⟨latest, latestExact, room⟩ := fits.latestRoom
        rw [latestExact]
        apply Memory.slice_length
        simpa using room
      exact (writeIomap_region inst region memory _ _ memoryExact regionExact inside copied).2
    · exact (writeIomap_region inst region memory _ _ memoryExact regionExact inside
        (zeros_length _)).2
    · exact (writeIomap_region inst region memory _ _ memoryExact regionExact inside
        (zeros_length _)).2
    · exact ⟨memory, region, memoryExact, regionExact, inside⟩
  refine ⟨⟨stillMapped, ?_, ?_⟩, master⟩
  · rw [data]
    exact same.isOpen.trans opened.isOpen
  · rw [data, master.layout]
    exact ⟨fits.payloadFits, fits.rxSize, fits.rxAllocated, fits.latestRoom⟩

theorem applyOutputs_simulates (base : UInt64) (switch : Deadman.State (List UInt8))
    (opened : OpenSession inst) (watches : Watches base inst switch) :
    Watches base (ecatDataApplyOutputs inst masterIndex true queue)
      (Deadman.call (watchdogParams inst) switch
        (batchCall (callFrames inst masterIndex queue))) := by
  obtain ⟨memory, region, memoryExact, inside, regionExact, call⟩ :=
    applyOutputs_open inst masterIndex queue opened
  have same := drain_sameSession ⟨inst.data, false, false⟩ masterIndex
    inst.layout.outputBytes queue
  have last := drain_lastFrame masterIndex inst.layout.outputBytes
    ⟨inst.data, false, false⟩ queue opened.fits
  rw [call, callFrames]
  generalize drain masterIndex inst.layout.outputBytes ⟨inst.data, false, false⟩ queue = s
    at same last ⊢
  have zeroed := fun data => (writeIomap_region inst region memory
    (zeros inst.layout.outputBytes) data memoryExact regionExact inside (zeros_length _)).1
  have cyclesNow : (s.d.cyclesSinceOutput + 1).toNat = (switch.quiet + 1) % 2 ^ 32 := by
    rw [cycles_succ, same.cyclesSinceOutput, watches.quiet]
  have safeNow : s.d.outputsZeroed = switch.safe := same.outputsZeroed.trans watches.safe
  have tripsNow : s.d.watchdogTrips = base + UInt64.ofNat switch.trips :=
    same.watchdogTrips.trans watches.trips
  cases found : (acceptedFrames masterIndex inst.layout.outputBytes
      ⟨inst.data, false, false⟩ queue).getLast? with
  | none =>
      rw [found] at last
      have nothingNew : s.haveNew = false := last.1
      have quietCall : batchCall (acceptedFrames masterIndex inst.layout.outputBytes
          ⟨inst.data, false, false⟩ queue) = .quiet := by simp only [batchCall, found]
      rw [quietCall]
      have tripIff : timeoutCycles inst < s.d.cyclesSinceOutput + 1 ∧
          s.d.outputsZeroed = false ↔
            (watchdogParams inst).limit < (switch.quiet + 1) % (watchdogParams inst).modulus ∧
              switch.safe = false := by
        rw [UInt32.lt_iff_toNat_lt, cyclesNow, safeNow]
        exact Iff.rfl
      rcases settleOutputs_cases inst region s with
        ⟨haveNew, _⟩ | ⟨haveNew, _⟩ | ⟨_, late, armed, settled⟩ | ⟨_, calm, settled⟩
      · simp [nothingNew] at haveNew
      · simp [nothingNew] at haveNew
      · rw [settled, Deadman.call, if_pos (tripIff.mp ⟨late, armed⟩)]
        exact ⟨zeroed _, rfl, cyclesNow, by rw [← trips_succ, ← tripsNow]⟩
      · rw [settled, Deadman.call, if_neg fun trip => calm (tripIff.mpr trip)]
        exact ⟨watches.value, safeNow, cyclesNow, tripsNow⟩
  | some frame =>
      rw [found] at last
      obtain ⟨haveNew, latestValid, _, _, payloadLength, copy⟩ := last
      by_cases valid : frame.valid = true
      · have freshCall : batchCall (acceptedFrames masterIndex inst.layout.outputBytes
            ⟨inst.data, false, false⟩ queue) = .fresh frame.payload := by
          simp only [batchCall, found, if_pos valid]
        rw [freshCall]
        rw [valid] at latestValid
        have written := fun data => (writeIomap_region inst region memory frame.payload data
          memoryExact regionExact inside payloadLength).1
        rcases settleOutputs_cases inst region s with
          ⟨_, _, settled⟩ | ⟨_, invalid, _⟩ | ⟨nothingNew, _⟩ | ⟨nothingNew, _⟩
        · rw [settled, copy valid]
          exact ⟨written _, rfl, rfl, tripsNow⟩
        · simp [latestValid] at invalid
        · simp [haveNew] at nothingNew
        · simp [haveNew] at nothingNew
      · have releaseCall : batchCall (acceptedFrames masterIndex inst.layout.outputBytes
            ⟨inst.data, false, false⟩ queue) = .release := by
          simp only [batchCall, found, if_neg valid]
        rw [releaseCall]
        have invalid : s.latestValid = false := by
          rw [latestValid]
          simpa using valid
        rcases settleOutputs_cases inst region s with
          ⟨_, isValid, _⟩ | ⟨_, _, settled⟩ | ⟨nothingNew, _⟩ | ⟨nothingNew, _⟩
        · simp [invalid] at isValid
        · rw [settled]
          exact ⟨zeroed _, rfl, rfl, tripsNow⟩
        · simp [haveNew] at nothingNew
        · simp [haveNew] at nothingNew

end OneCall

end EtherDog
