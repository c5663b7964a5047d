import EtherDog.Data.Session

/-!
# Which output frames are accepted

`OpenSession` is the state in which the bus thread drains the socket: the
session is open on a mapped master and the frame buffers have the sizes that
`ecat_data_alloc_buffers` gave them.  `ecat_data_open` establishes it after the
allocation, and `ecat_data_apply_outputs` keeps it.  The receive buffer has one
byte more than an output frame, so a datagram it truncates is one that the
length check refuses in full as well.
-/

set_option autoImplicit false

namespace EtherDog

/-! ## The frame buffers fit the layout -/

structure BuffersFit (out : Nat) (d : Session) : Prop where
  payloadFits : out ≤ edogFrameMaxPayload
  rxSize : d.rxBufSize = edogFrameHeaderSize + out + 1
  rxAllocated : d.rxBuf = some d.rxBufSize
  latestRoom : ∃ latest, d.rxLatest = some latest ∧ out ≤ latest.length

structure OpenSession (inst : Instance) : Prop where
  mapped : Mapped inst
  isOpen : inst.data.isOpen = true
  fits : BuffersFit inst.layout.outputBytes inst.data

theorem allocBuffers_fit (inst allocated : Instance)
    (success : ecatDataAllocBuffers inst true = some allocated) :
    BuffersFit allocated.layout.outputBytes allocated.data := by
  unfold ecatDataAllocBuffers at success
  split at success
  · simp at success
  · rename_i small
    simp only [Bool.true_eq_false, if_false, Option.some.injEq] at success
    subst success
    have outputFits : inst.layout.outputBytes ≤ edogFrameMaxPayload := by omega
    refine ⟨outputFits, rfl, rfl, _, rfl, ?_⟩
    change inst.layout.outputBytes ≤ _
    simp only [zeros, List.length_replicate]
    split <;> omega

theorem ecatDataOpen_success (inst opened : Instance) (endpoint : Option SockAddr)
    (socket : Option Nat) (random id : UInt64)
    (success : ecatDataOpen inst endpoint socket random = (opened, some id)) :
    ∃ peer fd, endpoint = some peer ∧ socket = some fd ∧
      opened = { inst with data := { closeLocked inst.data with
        fd := fd, peer := peer, session := random, txSeq := 0, rxLastSeq := 0, rxSeen := false,
        cyclesSinceOutput := 0, outputsZeroed := false, isOpen := true } } := by
  unfold ecatDataOpen at success
  cases endpoint with
  | none => simp at success
  | some peer =>
      simp only at success
      split at success
      · simp at success
      · cases socket with
        | none => simp at success
        | some fd =>
            simp only [Prod.mk.injEq] at success
            exact ⟨peer, fd, rfl, rfl, success.1.symm⟩

theorem ecatDataOpen_failure (inst opened : Instance) (endpoint : Option SockAddr)
    (socket : Option Nat) (random : UInt64)
    (failure : ecatDataOpen inst endpoint socket random = (opened, none)) :
    opened = inst ∨ opened = ecatDataClose inst := by
  unfold ecatDataOpen at failure
  cases endpoint with
  | none =>
      simp only [Prod.mk.injEq, and_true] at failure
      exact Or.inl failure.symm
  | some peer =>
      simp only at failure
      split at failure
      · simp only [Prod.mk.injEq, and_true] at failure
        exact Or.inr failure.symm
      · cases socket with
        | none =>
            simp only [Prod.mk.injEq, and_true] at failure
            exact Or.inr failure.symm
        | some fd => simp at failure

theorem ecatDataOpen_openSession (inst opened : Instance) (endpoint : Option SockAddr)
    (socket : Option Nat) (random id : UInt64) (mapped : Mapped inst)
    (fits : BuffersFit inst.layout.outputBytes inst.data)
    (success : ecatDataOpen inst endpoint socket random = (opened, some id)) :
    OpenSession opened := by
  obtain ⟨peer, fd, _, _, rfl⟩ := ecatDataOpen_success inst opened endpoint socket random id success
  exact ⟨mapped, rfl, fits.payloadFits, fits.rxSize, fits.rxAllocated, fits.latestRoom⟩

theorem fakeReady_mapped (cycleTimeUs : Int) : Mapped (fakeReady cycleTimeUs) :=
  ⟨zeros 16, 0, rfl, rfl, show 0 + 1 ≤ 16 by decide⟩

theorem fakeReady_fits (cycleTimeUs : Int) :
    BuffersFit (fakeReady cycleTimeUs).layout.outputBytes (fakeReady cycleTimeUs).data :=
  allocBuffers_fit (fakeMaster cycleTimeUs) (fakeReady cycleTimeUs) rfl

theorem fakeOpen_openSession (cycleTimeUs : Int) : OpenSession (fakeOpen cycleTimeUs) :=
  ecatDataOpen_openSession (fakeReady cycleTimeUs) (fakeOpen cycleTimeUs) (some fakeClient)
    (some 3) 7 7 (fakeReady_mapped cycleTimeUs) (fakeReady_fits cycleTimeUs) rfl

/-! ## The verdict on one datagram -/

/-- Everything the drain loop checks but the sequence number. -/
structure WellFormed (d : Session) (masterIndex out : Nat) (datagram : Datagram) : Prop where
  length : datagram.bytes.length = edogFrameHeaderSize + out
  magic : HasMagic datagram.bytes
  version : byteAt datagram.bytes 4 = edogProtocolVersion
  kind : byteAt datagram.bytes 5 = edogFrameOutputs
  master : (byteAt datagram.bytes 6).toNat = masterIndex
  session : edogGetU64 datagram.bytes 8 = d.session
  payloadLen : (edogGetU16 datagram.bytes 20).toNat = out
  sender : samePeer d.peer datagram.source = true

/-- The frame a session with output size `out` admits, read off the whole datagram. -/
structure Admissible (d : Session) (masterIndex out : Nat) (datagram : Datagram) : Prop
    extends WellFormed d masterIndex out datagram where
  newer : d.rxSeen = true →
    edogSeqNewer (edogGetU32 datagram.bytes 16) d.rxLastSeq = true

/-- Another session with the same peer and session number checks the same. -/
theorem WellFormed.congr {d e : Session} {masterIndex out : Nat} {datagram : Datagram}
    (wellFormed : WellFormed d masterIndex out datagram) (peer : e.peer = d.peer)
    (session : e.session = d.session) : WellFormed e masterIndex out datagram := by
  refine ⟨wellFormed.length, wellFormed.magic, wellFormed.version, wellFormed.kind,
    wellFormed.master, ?_, wellFormed.payloadLen, ?_⟩
  · rw [session]
    exact wellFormed.session
  · rw [peer]
    exact wellFormed.sender

theorem checkFrame_eq_some_iff (d : Session) (masterIndex out : Nat) (buf : List UInt8)
    (fromPeer : Bool) (h : FrameHeader) :
    checkFrame d masterIndex out buf fromPeer = some h ↔
      edogFrameDecodeHeader buf = some h ∧ h.kind = edogFrameOutputs ∧
        h.master = UInt8.ofNat masterIndex ∧ h.session = d.session ∧
        h.payloadLen.toNat = out ∧ fromPeer = true ∧
        (d.rxSeen = true → edogSeqNewer h.sequence d.rxLastSeq = true) := by
  unfold checkFrame
  cases decoded : edogFrameDecodeHeader buf with
  | none => simp
  | some found =>
      by_cases same : found = h
      · subst same
        simp only [true_and, ite_eq_right_iff, reduceCtorEq, imp_false, not_or, not_and, ne_eq,
          not_not, Bool.not_eq_false]
      · have different : ¬ some found = some h := fun equal => same (Option.some.inj equal)
        simp [different]

/-- The spare byte of the receive buffer makes truncation harmless. -/
theorem checkFrame_truncated (d : Session) (masterIndex out : Nat) (bytes : List UInt8)
    (fromPeer : Bool) (size : d.rxBufSize = edogFrameHeaderSize + out + 1) :
    checkFrame d masterIndex out (bytes.take d.rxBufSize) fromPeer =
      checkFrame d masterIndex out bytes fromPeer := by
  by_cases fitsBuffer : bytes.length ≤ d.rxBufSize
  · rw [List.take_of_length_le fitsBuffer]
  · -- both verdicts are a refusal: the buffer and the datagram are longer than a frame
    have refused : ∀ buf : List UInt8, edogFrameHeaderSize + out < buf.length →
        checkFrame d masterIndex out buf fromPeer = none := by
      intro buf long
      cases verdict : checkFrame d masterIndex out buf fromPeer with
      | none => rfl
      | some h =>
          obtain ⟨decoded, _, _, _, payload, _⟩ :=
            (checkFrame_eq_some_iff d masterIndex out buf fromPeer h).mp verdict
          have exactLength := ((decodeHeader_eq_some_iff buf h).mp decoded).2.2.2.2
          omega
    rw [refused bytes (by omega), refused]
    rw [List.length_take]
    omega

theorem checkFrame_admissible_iff (d : Session) (masterIndex out : Nat) (datagram : Datagram)
    (indexFits : masterIndex < 256) (payloadFits : out ≤ edogFrameMaxPayload) :
    checkFrame d masterIndex out datagram.bytes (samePeer d.peer datagram.source) =
        some (readHeader datagram.bytes) ↔
      Admissible d masterIndex out datagram := by
  rw [checkFrame_eq_some_iff, decodeHeader_eq_some_iff]
  have masterByte : (readHeader datagram.bytes).master = UInt8.ofNat masterIndex ↔
      (byteAt datagram.bytes 6).toNat = masterIndex := by
    change byteAt datagram.bytes 6 = UInt8.ofNat masterIndex ↔ _
    rw [← UInt8.toNat_inj, UInt8.toNat_ofNat', Nat.mod_eq_of_lt indexFits]
  rw [masterByte]
  constructor
  · intro accepted
    obtain ⟨⟨_, magic, version, _, len⟩, kind, master, session, payload, sender, newer⟩ := accepted
    rw [payload] at len
    exact ⟨⟨len, magic, version, kind, master, session, payload, sender⟩, newer⟩
  · intro a
    have payload : (readHeader datagram.bytes).payloadLen.toNat = out := a.payloadLen
    refine ⟨⟨rfl, a.magic, a.version, ?_, ?_⟩, a.kind, a.master, a.session, payload,
      a.sender, a.newer⟩
    · rw [payload]
      exact payloadFits
    · rw [payload]
      exact a.length

theorem checkFrame_header (d : Session) (masterIndex out : Nat) (buf : List UInt8)
    (fromPeer : Bool) (h : FrameHeader)
    (accepted : checkFrame d masterIndex out buf fromPeer = some h) : h = readHeader buf :=
  ((decodeHeader_eq_some_iff buf h).mp
    ((checkFrame_eq_some_iff d masterIndex out buf fromPeer h).mp accepted).1).1

/-! ## One turn of the drain loop -/

theorem drainOne_admissible (s : Drain) (masterIndex out : Nat) (datagram : Datagram)
    (indexFits : masterIndex < 256) (fits : BuffersFit out s.d)
    (admissible : Admissible s.d masterIndex out datagram) :
    drainOne masterIndex out s datagram =
      acceptFrame s out (readHeader datagram.bytes) datagram.bytes := by
  have whole : datagram.bytes.take s.d.rxBufSize = datagram.bytes := by
    apply List.take_of_length_le
    rw [admissible.length, fits.rxSize]
    omega
  have verdict := (checkFrame_admissible_iff s.d masterIndex out datagram indexFits
    fits.payloadFits).mpr admissible
  simp only [drainOne, edogDgramRecv, whole, verdict]

theorem drainOne_inadmissible (s : Drain) (masterIndex out : Nat) (datagram : Datagram)
    (indexFits : masterIndex < 256) (fits : BuffersFit out s.d)
    (inadmissible : ¬ Admissible s.d masterIndex out datagram) :
    drainOne masterIndex out s datagram = dropFrame s := by
  have refused : checkFrame s.d masterIndex out (datagram.bytes.take s.d.rxBufSize)
      (samePeer s.d.peer datagram.source) = none := by
    rw [checkFrame_truncated s.d masterIndex out datagram.bytes _ fits.rxSize]
    cases verdict : checkFrame s.d masterIndex out datagram.bytes
        (samePeer s.d.peer datagram.source) with
    | none => rfl
    | some h =>
        have header := checkFrame_header s.d masterIndex out datagram.bytes _ h verdict
        rw [header] at verdict
        exact absurd ((checkFrame_admissible_iff s.d masterIndex out datagram indexFits
          fits.payloadFits).mp verdict) inadmissible
  simp only [drainOne, edogDgramRecv, refused]

theorem drainOne_cases (s : Drain) (masterIndex out : Nat) (datagram : Datagram) :
    drainOne masterIndex out s datagram = dropFrame s ∨
      ∃ h buf, checkFrame s.d masterIndex out buf (samePeer s.d.peer datagram.source) = some h ∧
        buf = datagram.bytes.take s.d.rxBufSize ∧
        drainOne masterIndex out s datagram = acceptFrame s out h buf := by
  cases verdict : checkFrame s.d masterIndex out (datagram.bytes.take s.d.rxBufSize)
      (samePeer s.d.peer datagram.source) with
  | none =>
      left
      simp only [drainOne, edogDgramRecv, verdict]
  | some h =>
      right
      refine ⟨h, _, verdict, rfl, ?_⟩
      simp only [drainOne, edogDgramRecv, verdict]

theorem acceptFrame_payload_length (buf : List UInt8) (out : Nat) (h : FrameHeader)
    (decoded : edogFrameDecodeHeader buf = some h) (payload : h.payloadLen.toNat = out) :
    (Memory.slice buf edogFrameHeaderSize out).length = out := by
  apply Memory.slice_length
  have exactLength := ((decodeHeader_eq_some_iff buf h).mp decoded).2.2.2.2
  omega

theorem drainOne_fits (s : Drain) (masterIndex out : Nat) (datagram : Datagram)
    (fits : BuffersFit out s.d) : BuffersFit out (drainOne masterIndex out s datagram).d := by
  rcases drainOne_cases s masterIndex out datagram with dropped | ⟨h, buf, verdict, _, accepted⟩
  · rw [dropped]
    exact ⟨fits.payloadFits, fits.rxSize, fits.rxAllocated, fits.latestRoom⟩
  · rw [accepted]
    obtain ⟨decoded, _, _, _, payload, _⟩ :=
      (checkFrame_eq_some_iff s.d masterIndex out buf _ h).mp verdict
    have payloadLength := acceptFrame_payload_length buf out h decoded payload
    obtain ⟨latest, latestExact, room⟩ := fits.latestRoom
    refine ⟨fits.payloadFits, fits.rxSize, fits.rxAllocated, ?_⟩
    by_cases valid : h.flags &&& edogFlagValid ≠ 0
    · refine ⟨Memory.overwrite latest 0 (Memory.slice buf edogFrameHeaderSize out), ?_, ?_⟩
      · simp only [acceptFrame, if_pos valid, latestExact, Option.map_some]
      · rw [Memory.overwrite_length _ _ _ (by omega)]
        exact room
    · refine ⟨latest, ?_, room⟩
      simp only [acceptFrame, if_neg valid, latestExact]

theorem drain_fits (s : Drain) (masterIndex out : Nat) (queue : List Datagram)
    (fits : BuffersFit out s.d) : BuffersFit out (drain masterIndex out s queue).d := by
  induction queue generalizing s with
  | nil => exact fits
  | cons datagram rest ih => exact ih _ (drainOne_fits s masterIndex out datagram fits)

/-- Draining leaves the session's identity and its watchdog alone. -/
structure SameSession (before after : Session) : Prop where
  isOpen : after.isOpen = before.isOpen
  peer : after.peer = before.peer
  session : after.session = before.session
  cyclesSinceOutput : after.cyclesSinceOutput = before.cyclesSinceOutput
  outputsZeroed : after.outputsZeroed = before.outputsZeroed
  watchdogTrips : after.watchdogTrips = before.watchdogTrips

theorem drain_sameSession (s : Drain) (masterIndex out : Nat) (queue : List Datagram) :
    SameSession s.d (drain masterIndex out s queue).d := by
  induction queue generalizing s with
  | nil => exact ⟨rfl, rfl, rfl, rfl, rfl, rfl⟩
  | cons datagram rest ih =>
      have later := ih (drainOne masterIndex out s datagram)
      have first : SameSession s.d (drainOne masterIndex out s datagram).d := by
        rcases drainOne_cases s masterIndex out datagram with
          dropped | ⟨h, buf, _, _, accepted⟩
        · rw [dropped]
          exact ⟨rfl, rfl, rfl, rfl, rfl, rfl⟩
        · rw [accepted]
          exact ⟨rfl, rfl, rfl, rfl, rfl, rfl⟩
      exact ⟨later.1.trans first.1, later.2.trans first.2, later.3.trans first.3,
        later.4.trans first.4, later.5.trans first.5, later.6.trans first.6⟩

theorem drain_counts (s : Drain) (masterIndex out : Nat) (queue : List Datagram) :
    (drain masterIndex out s queue).d.framesRx + (drain masterIndex out s queue).d.framesDropped =
      s.d.framesRx + s.d.framesDropped + UInt64.ofNat queue.length := by
  induction queue generalizing s with
  | nil => simp [drain]
  | cons datagram rest ih =>
      have one : (drainOne masterIndex out s datagram).d.framesRx +
          (drainOne masterIndex out s datagram).d.framesDropped =
            s.d.framesRx + s.d.framesDropped + 1 := by
        rcases drainOne_cases s masterIndex out datagram with
          dropped | ⟨h, buf, _, _, accepted⟩
        · rw [dropped]
          simp only [dropFrame]
          ac_rfl
        · rw [accepted]
          simp only [acceptFrame]
          ac_rfl
      have later := ih (drainOne masterIndex out s datagram)
      simp only [drain, List.foldl_cons] at later ⊢
      have counted : UInt64.ofNat (datagram :: rest).length = 1 + UInt64.ofNat rest.length := by
        rw [List.length_cons, Nat.add_comm, UInt64.ofNat_add]
        rfl
      rw [later, one, counted, UInt64.add_assoc]

/-! ## One call -/

/-- The four ways a call can end after its drain. -/
theorem settleOutputs_cases (inst : Instance) (region : Nat) (s : Drain) :
    (s.haveNew = true ∧ s.latestValid = true ∧ settleOutputs inst region s =
      { writeIomap inst region
          (Memory.slice (s.d.rxLatest.getD []) 0 inst.layout.outputBytes) with
        data := { s.d with outputsZeroed := false, cyclesSinceOutput := 0 } }) ∨
    (s.haveNew = true ∧ s.latestValid = false ∧ settleOutputs inst region s =
      { writeIomap inst region (zeros inst.layout.outputBytes) with
        data := { s.d with outputsZeroed := true, cyclesSinceOutput := 0 } }) ∨
    (s.haveNew = false ∧ timeoutCycles inst < s.d.cyclesSinceOutput + 1 ∧
      s.d.outputsZeroed = false ∧ settleOutputs inst region s =
      { writeIomap inst region (zeros inst.layout.outputBytes) with
        data := { s.d with
          cyclesSinceOutput := s.d.cyclesSinceOutput + 1
          outputsZeroed := true
          watchdogTrips := s.d.watchdogTrips + 1 } }) ∨
    (s.haveNew = false ∧
      ¬ (timeoutCycles inst < s.d.cyclesSinceOutput + 1 ∧ s.d.outputsZeroed = false) ∧
      settleOutputs inst region s =
        { inst with data := { s.d with cyclesSinceOutput := s.d.cyclesSinceOutput + 1 } }) := by
  unfold settleOutputs
  by_cases fresh : s.haveNew = true
  · by_cases valid : s.latestValid = true
    · left
      exact ⟨fresh, valid, by simp only [if_pos fresh, if_pos valid]⟩
    · right; left
      exact ⟨fresh, by simpa using valid, by simp only [if_pos fresh, if_neg valid]⟩
  · by_cases trip : timeoutCycles inst < s.d.cyclesSinceOutput + 1 ∧ s.d.outputsZeroed = false
    · right; right; left
      exact ⟨by simpa using fresh, trip.1, trip.2, by simp only [if_neg fresh, if_pos trip]⟩
    · right; right; right
      exact ⟨by simpa using fresh, trip, by simp only [if_neg fresh, if_neg trip]⟩

theorem settleOutputs_counters (inst : Instance) (region : Nat) (s : Drain) :
    (settleOutputs inst region s).data.framesRx = s.d.framesRx ∧
      (settleOutputs inst region s).data.framesDropped = s.d.framesDropped := by
  rcases settleOutputs_cases inst region s with
    ⟨_, _, settled⟩ | ⟨_, _, settled⟩ | ⟨_, _, _, settled⟩ | ⟨_, _, settled⟩ <;>
    rw [settled] <;> exact ⟨rfl, rfl⟩

theorem applyOutputs_open (inst : Instance) (masterIndex : Nat) (queue : List Datagram)
    (opened : OpenSession inst) :
    ∃ memory region, inst.iomap = some memory ∧
      region + inst.layout.outputBytes ≤ memory.length ∧
      ecatLayoutOutputRegion inst = some region ∧
      ecatDataApplyOutputs inst masterIndex true queue = settleOutputs inst region
        (drain masterIndex inst.layout.outputBytes ⟨inst.data, false, false⟩ queue) := by
  obtain ⟨memory, region, memoryExact, regionExact, inside⟩ := opened.mapped
  refine ⟨memory, region, memoryExact, inside, regionExact, ?_⟩
  simp [ecatDataApplyOutputs, regionExact, opened.isOpen]

theorem drain_split (s : Drain) (masterIndex out : Nat) (earlier later : List Datagram)
    (datagram : Datagram) :
    drain masterIndex out s (earlier ++ datagram :: later) =
      drain masterIndex out
        (drainOne masterIndex out (drain masterIndex out s earlier) datagram) later := by
  simp only [drain, List.foldl_append, List.foldl_cons]

/-- Output frame admission: at every point of every drain of an open session,
the verdict on the truncated copy is the verdict on the whole datagram, an
admissible datagram and no other is accepted, a refusal only counts a dropped
frame, and a call counts every datagram it drains once. -/
theorem output_frame_admission (inst : Instance) (masterIndex : Nat) (opened : OpenSession inst)
    (indexFits : masterIndex < ecatMaxMasters) (earlier later : List Datagram)
    (datagram : Datagram) :
    let out := inst.layout.outputBytes
    let s := drain masterIndex out ⟨inst.data, false, false⟩ earlier
    let fromPeer := samePeer s.d.peer datagram.source
    let after := ecatDataApplyOutputs inst masterIndex true (earlier ++ datagram :: later)
    s.d.rxBufSize = edogFrameHeaderSize + out + 1 ∧
      checkFrame s.d masterIndex out (datagram.bytes.take s.d.rxBufSize) fromPeer =
        checkFrame s.d masterIndex out datagram.bytes fromPeer ∧
      ((checkFrame s.d masterIndex out (datagram.bytes.take s.d.rxBufSize) fromPeer).isSome ↔
        Admissible s.d masterIndex out datagram) ∧
      (Admissible s.d masterIndex out datagram →
        drainOne masterIndex out s datagram =
          acceptFrame s out (readHeader datagram.bytes) datagram.bytes) ∧
      (¬ Admissible s.d masterIndex out datagram →
        drainOne masterIndex out s datagram =
          { s with d := { s.d with framesDropped := s.d.framesDropped + 1 } }) ∧
      drain masterIndex out ⟨inst.data, false, false⟩ (earlier ++ datagram :: later) =
        drain masterIndex out (drainOne masterIndex out s datagram) later ∧
      after.data.framesRx + after.data.framesDropped =
        inst.data.framesRx + inst.data.framesDropped +
          UInt64.ofNat (earlier ++ datagram :: later).length := by
  intro out s fromPeer after
  have small : masterIndex < 256 := lt_trans indexFits (by decide)
  have fits : BuffersFit out s.d := drain_fits _ masterIndex out earlier opened.fits
  have truncated := checkFrame_truncated s.d masterIndex out datagram.bytes fromPeer fits.rxSize
  have verdict : (checkFrame s.d masterIndex out datagram.bytes fromPeer).isSome ↔
      Admissible s.d masterIndex out datagram := by
    rw [← checkFrame_admissible_iff s.d masterIndex out datagram small fits.payloadFits]
    cases found : checkFrame s.d masterIndex out datagram.bytes fromPeer with
    | none => simp
    | some h =>
        have header := checkFrame_header s.d masterIndex out datagram.bytes fromPeer h found
        simp [header]
  refine ⟨fits.rxSize, truncated, ?_, ?_, ?_, drain_split _ masterIndex out earlier later datagram,
    ?_⟩
  · rw [truncated]
    exact verdict
  · exact drainOne_admissible s masterIndex out datagram small fits
  · exact drainOne_inadmissible s masterIndex out datagram small fits
  · obtain ⟨_, region, _, _, _, call⟩ := applyOutputs_open inst masterIndex
      (earlier ++ datagram :: later) opened
    have counters := settleOutputs_counters inst region
      (drain masterIndex out ⟨inst.data, false, false⟩ (earlier ++ datagram :: later))
    rw [← call] at counters
    rw [counters.1, counters.2]
    exact drain_counts _ masterIndex out _

theorem output_frame_admission_fake :
    drainOne 0 1 ⟨(fakeOpen 1000).data, false, false⟩ (sendOutputs 1 1 [0xAA, 0xBB]) =
      dropFrame ⟨(fakeOpen 1000).data, false, false⟩ := by
  have admission := output_frame_admission (fakeOpen 1000) 0 (fakeOpen_openSession 1000)
    (by decide) [] [] (sendOutputs 1 1 [0xAA, 0xBB])
  obtain ⟨_, _, _, _, refused, _⟩ := admission
  apply refused
  intro admissible
  have long : ¬ (sendOutputs 1 1 [0xAA, 0xBB]).bytes.length = edogFrameHeaderSize + 1 := by
    decide
  exact long admissible.length

end EtherDog
