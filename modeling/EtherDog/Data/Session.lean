import EtherDog.Instance

/-!
# The cyclic data session (src/data.c, src/dgram.c)

`ecat_data_open` takes what its system calls return: the parsed client endpoint
(`none` when it is missing or refused), the socket (`none` when it cannot be
opened) and the random session id.  `ecat_data_apply_outputs` takes whether the
session lock was free and the datagrams its socket holds; `recvfrom` copies at
most the buffer size of each.  Paths to unlink and error texts are left out.
-/

set_option autoImplicit false

namespace EtherDog

def ecatDataTimeoutMs : Int := 100

structure Datagram where
  source : SockAddr
  bytes : List UInt8
  deriving DecidableEq, Repr

def samePeer : SockAddr → SockAddr → Bool
  | .inet peerAddress peerPort, .inet address port =>
      port == peerPort && address == peerAddress
  | .unix peerPath, .unix path => path == peerPath
  | _, _ => false

/-- The received bytes, cut to the buffer size, and whether the peer sent them. -/
def edogDgramRecv (size : Nat) (peer : SockAddr) (datagram : Datagram) : List UInt8 × Bool :=
  (datagram.bytes.take size, samePeer peer datagram.source)

def ecatDataInit (inst : Instance) : Instance :=
  { inst with data := { zeroSession with fd := -1 } }

/-- `allocated` tells whether the three allocations succeeded. -/
def ecatDataAllocBuffers (inst : Instance) (allocated : Bool) : Option Instance :=
  if inst.layout.outputBytes > edogFrameMaxPayload ∨
      inst.layout.inputBytes > edogFrameMaxPayload then none
  else if allocated = false then none
  else
    -- one spare byte: an oversized datagram then fails the length check
    let rxSize := edogFrameHeaderSize + inst.layout.outputBytes + 1
    let txSize := edogFrameHeaderSize + inst.layout.inputBytes
    let latest := if inst.layout.outputBytes > 0 then inst.layout.outputBytes else 1
    some { inst with data := { inst.data with
      rxBuf := some rxSize
      rxBufSize := rxSize
      rxLatest := some (zeros latest)
      txBuf := some (zeros txSize)
      txBufSize := txSize } }

def ecatDataFreeBuffers (inst : Instance) : Instance :=
  { inst with data := { inst.data with
    rxBuf := none
    rxLatest := none
    txBuf := none
    rxBufSize := 0
    txBufSize := 0 } }

def closeLocked (d : Session) : Session :=
  { d with fd := -1, isOpen := false, session := 0, rxSeen := false }

def ecatDataClose (inst : Instance) : Instance :=
  { inst with data := closeLocked inst.data }

/-- Returns the session id on success. -/
def ecatDataOpen (inst : Instance) (endpoint : Option SockAddr) (socket : Option Nat)
    (random : UInt64) : Instance × Option UInt64 :=
  match endpoint with
  | none => (inst, none)
  | some peer =>
      let d := closeLocked inst.data
      if d.rxBuf = none ∨ d.txBuf = none then ({ inst with data := d }, none)
      else
        match socket with
        | none => ({ inst with data := d }, none)
        | some fd =>
            ({ inst with data := { d with
              fd := fd
              peer := peer
              session := random
              txSeq := 0
              rxLastSeq := 0
              rxSeen := false
              cyclesSinceOutput := 0
              outputsZeroed := false
              isOpen := true } }, some random)

def timeoutCycles (inst : Instance) : UInt32 :=
  let cycleUs := if inst.config.cycleTimeUs > 0 then inst.config.cycleTimeUs else 1000
  let cycles := UInt32.ofNat ((ecatDataTimeoutMs * 1000).tdiv cycleUs).toNat
  if cycles < 3 then 3 else cycles

/-! ## Draining the socket -/

/-- The nine-way check on one received buffer: the header of an accepted frame. -/
def checkFrame (d : Session) (masterIndex outBytes : Nat) (buf : List UInt8)
    (fromPeer : Bool) : Option FrameHeader :=
  match edogFrameDecodeHeader buf with
  | none => none
  | some h =>
      if h.kind ≠ edogFrameOutputs ∨ h.master ≠ UInt8.ofNat masterIndex ∨
          h.session ≠ d.session ∨ h.payloadLen.toNat ≠ outBytes ∨ fromPeer = false ∨
          (d.rxSeen = true ∧ edogSeqNewer h.sequence d.rxLastSeq = false) then none
      else some h

/-- The session with the two locals of the drain loop. -/
structure Drain where
  d : Session
  haveNew : Bool
  latestValid : Bool
  deriving DecidableEq, Repr

def dropFrame (s : Drain) : Drain :=
  { s with d := { s.d with framesDropped := s.d.framesDropped + 1 } }

def acceptFrame (s : Drain) (outBytes : Nat) (h : FrameHeader) (buf : List UInt8) : Drain :=
  let valid := h.flags &&& edogFlagValid ≠ 0
  let payload := Memory.slice buf edogFrameHeaderSize outBytes
  { d := { s.d with
      rxSeen := true
      rxLastSeq := h.sequence
      rxLatest := if valid then
          s.d.rxLatest.map fun latest => Memory.overwrite latest 0 payload
        else s.d.rxLatest
      framesRx := s.d.framesRx + 1 }
    haveNew := true
    latestValid := decide valid }

def drainOne (masterIndex outBytes : Nat) (s : Drain) (datagram : Datagram) : Drain :=
  let (buf, fromPeer) := edogDgramRecv s.d.rxBufSize s.d.peer datagram
  match checkFrame s.d masterIndex outBytes buf fromPeer with
  | none => dropFrame s
  | some h => acceptFrame s outBytes h buf

def drain (masterIndex outBytes : Nat) (s : Drain) (queue : List Datagram) : Drain :=
  queue.foldl (drainOne masterIndex outBytes) s

/-! ## One call on the bus thread -/

/-- What follows the drain loop: new outputs, the safe state, or the watchdog. -/
def settleOutputs (inst : Instance) (region : Nat) (s : Drain) : Instance :=
  let outBytes := inst.layout.outputBytes
  if s.haveNew then
    if s.latestValid then
      { writeIomap inst region (Memory.slice (s.d.rxLatest.getD []) 0 outBytes) with
        data := { s.d with outputsZeroed := false, cyclesSinceOutput := 0 } }
    else
      { writeIomap inst region (zeros outBytes) with
        data := { s.d with outputsZeroed := true, cyclesSinceOutput := 0 } }
  else
    let cycles := s.d.cyclesSinceOutput + 1
    if timeoutCycles inst < cycles ∧ s.d.outputsZeroed = false then
      { writeIomap inst region (zeros outBytes) with
        data := { s.d with
          cyclesSinceOutput := cycles
          outputsZeroed := true
          watchdogTrips := s.d.watchdogTrips + 1 } }
    else { inst with data := { s.d with cyclesSinceOutput := cycles } }

def ecatDataApplyOutputs (inst : Instance) (masterIndex : Nat) (lockFree : Bool)
    (queue : List Datagram) : Instance :=
  match ecatLayoutOutputRegion inst with
  | none => inst
  | some region =>
      if lockFree = false then inst
      else if inst.data.isOpen = false then
        if inst.data.outputsZeroed = false then
          { writeIomap inst region (zeros inst.layout.outputBytes) with
            data := { inst.data with outputsZeroed := true } }
        else inst
      else settleOutputs inst region
        (drain masterIndex inst.layout.outputBytes ⟨inst.data, false, false⟩ queue)

/-! ## Sending the inputs -/

/-- `sent` tells whether the socket took the frame; the frame itself is returned. -/
def ecatDataPublishInputs (inst : Instance) (masterIndex : Nat) (lockFree : Bool) (wkc : Int)
    (operational wkcOk sent : Bool) : Instance × Option (List UInt8) :=
  let d := inst.data
  let inBytes := inst.layout.inputBytes
  if lockFree = false then (inst, none)
  else
    match d.txBuf with
    | none => (inst, none)
    | some buf =>
        if d.isOpen = false ∨ d.fd < 0 ∨ d.txBufSize < edogFrameHeaderSize + inBytes then
          (inst, none)
        else
          let h : FrameHeader :=
            { version := edogProtocolVersion
              kind := edogFrameInputs
              master := UInt8.ofNat masterIndex
              flags := (if operational then edogFlagValid else 0) |||
                (if wkcOk then edogFlagWkcOk else 0)
              session := d.session
              sequence := d.txSeq + 1
              payloadLen := UInt16.ofNat inBytes
              wkc := UInt16.ofInt (if wkc < 0 then 0 else wkc) }
          let headed := Memory.overwrite buf 0 (edogFrameEncodeHeader h)
          let filled := match ecatLayoutInputRegion inst with
            | none => headed
            | some region => Memory.overwrite headed edogFrameHeaderSize
                (Memory.slice (inst.iomap.getD []) region inBytes)
          let counted := if sent then { d with framesTx := d.framesTx + 1 }
            else { d with framesDropped := d.framesDropped + 1 }
          ({ inst with data := { counted with txSeq := d.txSeq + 1, txBuf := some filled } },
            some (filled.take (edogFrameHeaderSize + inBytes)))

/-! ## The fake mapped master of tests/test_layout_data.c -/

/-- One slave with one output byte and two input bytes. -/
def fakeMaster (cycleTimeUs : Int) : Instance :=
  { zeroInstance ⟨cycleTimeUs, 0, [⟨1, 0, false⟩]⟩ with
    ecxContext := ⟨1, ⟨some 0, some 1, 1, 2, 0, 0⟩⟩
    iomap := some (zeros 16)
    iomapUsedSize := 3
    soemInitialized := true
    layout := ⟨1, 2⟩
    data := { zeroSession with fd := -1 } }

def fakeClient : SockAddr := .inet 0x7F000001 5000

/-- The fake master with its frame buffers, before any session. -/
def fakeReady (cycleTimeUs : Int) : Instance :=
  (ecatDataAllocBuffers (fakeMaster cycleTimeUs) true).getD (fakeMaster cycleTimeUs)

def fakeOpen (cycleTimeUs : Int) : Instance :=
  (ecatDataOpen (fakeReady cycleTimeUs) (some fakeClient) (some 3) 7).1

/-- `send_outputs`: a frame from the client in session 7. -/
def sendOutputs (sequence : UInt32) (flags : UInt8) (payload : List UInt8) : Datagram :=
  ⟨fakeClient, edogFrameEncodeHeader ⟨edogProtocolVersion, edogFrameOutputs, 0, flags, 7, sequence,
    UInt16.ofNat payload.length, 0⟩ ++ payload⟩

end EtherDog
