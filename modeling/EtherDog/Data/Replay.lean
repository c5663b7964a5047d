import EtherDog.Data.Watchdog

/-!
# Replay protection of one session

The accepted frames of a session carry sequence numbers of which each is newer
than its predecessor in wrap-around order.  `Tracks` ties `rx_seen` and
`rx_last_seq` to that history at every point of every drain; the unwrapped
numbers of `EtherDog.Lib.SerialNumber` then tell which copies are refused and
which frames of a counting sender are taken.
-/

set_option autoImplicit false

namespace EtherDog

def AcceptedFrame.word (frame : AcceptedFrame) : BitVec 32 := frame.header.sequence.toBitVec

/-- The receive window follows the accepted frames, oldest first. -/
structure Tracks (d : Session) (frames : List AcceptedFrame) : Prop where
  newer : List.IsChain (fun older next => SerialNumber.Newer next older)
    (frames.map AcceptedFrame.word)
  last : (frames.getLast?).map (fun frame => frame.header.sequence) =
    if d.rxSeen then some d.rxLastSeq else none

theorem drainOne_tracks (masterIndex out : Nat) (s : Drain) (datagram : Datagram)
    (frames : List AcceptedFrame) (tracks : Tracks s.d frames) :
    Tracks (drainOne masterIndex out s datagram).d
      (frames ++ acceptedFrames masterIndex out s [datagram]) := by
  simp only [acceptedFrames, edogDgramRecv, drainOne]
  cases verdict : checkFrame s.d masterIndex out (datagram.bytes.take s.d.rxBufSize)
      (samePeer s.d.peer datagram.source) with
  | none =>
      rw [List.append_nil]
      exact ⟨tracks.newer, tracks.last⟩
  | some h =>
      obtain ⟨_, _, _, _, _, _, newer⟩ :=
        (checkFrame_eq_some_iff s.d masterIndex out _ _ h).mp verdict
      refine ⟨?_, by simp [acceptFrame]⟩
      rw [List.map_append, List.isChain_append]
      refine ⟨tracks.newer, List.IsChain.singleton _, ?_⟩
      intro older olderLast next nextFirst
      have nextWord : h.sequence.toBitVec = next := by simpa [AcceptedFrame.word] using nextFirst
      rw [List.getLast?_map, Option.mem_map] at olderLast
      obtain ⟨frame, frameLast, olderWord⟩ := olderLast
      have window := tracks.last
      rw [Option.mem_def.mp frameLast, Option.map_some] at window
      by_cases seen : s.d.rxSeen = true
      · rw [if_pos seen] at window
        have lastSeq : frame.header.sequence = s.d.rxLastSeq := Option.some.inj window
        rw [← nextWord, ← olderWord, AcceptedFrame.word, lastSeq, ← edogSeqNewer_iff]
        exact newer seen
      · simp [seen] at window

theorem drain_tracks (masterIndex out : Nat) (s : Drain) (queue : List Datagram)
    (frames : List AcceptedFrame) (tracks : Tracks s.d frames) :
    Tracks (drain masterIndex out s queue).d
      (frames ++ acceptedFrames masterIndex out s queue) := by
  induction queue generalizing s frames with
  | nil => simpa [acceptedFrames, drain] using tracks
  | cons datagram rest ih =>
      have first := drainOne_tracks masterIndex out s datagram frames tracks
      have later := ih (drainOne masterIndex out s datagram) _ first
      have split : acceptedFrames masterIndex out s (datagram :: rest) =
          acceptedFrames masterIndex out s [datagram] ++
            acceptedFrames masterIndex out (drainOne masterIndex out s datagram) rest :=
        acceptedFrames_append masterIndex out s [datagram] rest
      rw [split, ← List.append_assoc]
      exact later

/-! ## Every point of a session -/

section Points
variable (masterIndex : Nat) (opened : Instance)

/-- The drain after `earlier` datagrams of the call that follows `batches`. -/
def drainAt (batches : List (List Datagram)) (earlier : List Datagram) : Drain :=
  drain masterIndex (sessionAfter masterIndex opened batches).layout.outputBytes
    ⟨(sessionAfter masterIndex opened batches).data, false, false⟩ earlier

/-- The frames the session has accepted by then, oldest first. -/
def framesAt (batches : List (List Datagram)) (earlier : List Datagram) : List AcceptedFrame :=
  (sessionCalls masterIndex opened batches).reverse.flatten ++
    callFrames (sessionAfter masterIndex opened batches) masterIndex earlier

theorem framesAt_nil (batches : List (List Datagram)) :
    framesAt masterIndex opened batches [] =
      (sessionCalls masterIndex opened batches).reverse.flatten := by
  simp [framesAt, callFrames, acceptedFrames]

theorem framesAt_call (batches : List (List Datagram)) (queue : List Datagram) :
    framesAt masterIndex opened (queue :: batches) [] =
      framesAt masterIndex opened batches queue := by
  rw [framesAt_nil]
  simp [framesAt, sessionCalls]

/-- What a session keeps from its open on. -/
structure SessionAt (opened : Instance) (s : Drain) (frames : List AcceptedFrame) : Prop where
  fits : BuffersFit opened.layout.outputBytes s.d
  tracks : Tracks s.d frames
  session : s.d.session = opened.data.session
  peer : s.d.peer = opened.data.peer

variable (start : OpenSession opened) (armed : opened.data.outputsZeroed = false)
  (cleared : opened.data.cyclesSinceOutput = 0) (unseen : opened.data.rxSeen = false)

include start armed cleared in
theorem drainAt_of_call (batches : List (List Datagram)) (earlier : List Datagram)
    (atCall : SessionAt opened ⟨(sessionAfter masterIndex opened batches).data, false, false⟩
      (framesAt masterIndex opened batches [])) :
    SessionAt opened (drainAt masterIndex opened batches earlier)
      (framesAt masterIndex opened batches earlier) := by
  obtain ⟨_, same, _⟩ := session_simulates masterIndex opened batches start armed cleared
  have fits := drain_fits _ masterIndex _ earlier atCall.fits
  have tracks := drain_tracks masterIndex opened.layout.outputBytes _ earlier _ atCall.tracks
  have kept := drain_sameSession ⟨(sessionAfter masterIndex opened batches).data, false, false⟩
    masterIndex opened.layout.outputBytes earlier
  rw [framesAt_nil] at tracks
  rw [drainAt, framesAt, callFrames, same.layout]
  exact ⟨fits, tracks, kept.session.trans atCall.session, kept.peer.trans atCall.peer⟩

include start armed cleared unseen in
theorem sessionAt_call (batches : List (List Datagram)) :
    SessionAt opened ⟨(sessionAfter masterIndex opened batches).data, false, false⟩
      (framesAt masterIndex opened batches []) := by
  induction batches with
  | nil =>
      refine ⟨start.fits, ⟨?_, ?_⟩, rfl, rfl⟩
      · exact List.IsChain.nil
      · simp [framesAt_nil, sessionCalls, sessionAfter, unseen]
  | cons newest earlier ih =>
      have drained := drainAt_of_call masterIndex opened start armed cleared earlier newest ih
      obtain ⟨isOpen, same, _⟩ := session_simulates masterIndex opened earlier start armed cleared
      obtain ⟨_, region, _, _, _, call⟩ := applyOutputs_open _ masterIndex newest isOpen
      obtain ⟨⟨zeroed, cycles, trips, data⟩, _⟩ := settleOutputs_data
        (sessionAfter masterIndex opened earlier) region
        (drainAt masterIndex opened earlier newest)
      have after : (sessionAfter masterIndex opened (newest :: earlier)).data =
          { (drainAt masterIndex opened earlier newest).d with
            outputsZeroed := zeroed, cyclesSinceOutput := cycles, watchdogTrips := trips } := by
        rw [← data, sessionAfter, call]
        rfl
      rw [after, framesAt_call]
      obtain ⟨fits, tracks, session, peer⟩ := drained
      exact ⟨⟨fits.payloadFits, fits.rxSize, fits.rxAllocated, fits.latestRoom⟩,
        ⟨tracks.newer, tracks.last⟩, session, peer⟩

include start armed cleared unseen in
theorem sessionAt (batches : List (List Datagram)) (earlier : List Datagram) :
    SessionAt opened (drainAt masterIndex opened batches earlier)
      (framesAt masterIndex opened batches earlier) :=
  drainAt_of_call masterIndex opened start armed cleared batches earlier
    (sessionAt_call masterIndex opened start armed cleared unseen batches)

end Points

/-! ## Refusing copies -/

/-- The unwrapped sequence numbers of a history. -/
def unwrapped (frames : List AcceptedFrame) : List Nat :=
  SerialNumber.unwrap (frames.map AcceptedFrame.word)

theorem unwrapped_residue (frames : List AcceptedFrame) (i value : Nat) (frame : AcceptedFrame)
    (atFrame : frames[i]? = some frame) (atValue : (unwrapped frames)[i]? = some value) :
    value % 2 ^ 32 = frame.word.toNat := by
  have residues := congrArg (fun values => values[i]?)
    (SerialNumber.unwrap_mod (frames.map AcceptedFrame.word))
  simp only [List.getElem?_map, atFrame, Option.map_some] at residues
  rw [unwrapped] at atValue
  rw [atValue] at residues
  exact Option.some.inj residues

theorem unwrapped_steps (d : Session) (frames : List AcceptedFrame) (tracks : Tracks d frames) :
    List.IsChain (fun older next => older + 1 ≤ next ∧ next - older ≤ 2 ^ 31 - 1)
      (unwrapped frames) := by
  apply (SerialNumber.unwrap_chain _ tracks.newer).imp
  intro older next step
  omega

/-- The numbers increase, so the last one is the largest. -/
theorem unwrapped_le_last (d : Session) (frames : List AcceptedFrame) (tracks : Tracks d frames)
    (i value last : Nat) (atValue : (unwrapped frames)[i]? = some value)
    (atLast : (unwrapped frames).getLast? = some last) : value ≤ last := by
  have increasing : List.IsChain (fun older next : Nat => older < next) (unwrapped frames) := by
    apply (unwrapped_steps d frames tracks).imp
    intro older next step
    omega
  have sorted := List.isChain_iff_pairwise.mp increasing
  rw [List.getLast?_eq_getElem?] at atLast
  obtain ⟨inside, valueExact⟩ := List.getElem?_eq_some_iff.mp atValue
  obtain ⟨lastInside, lastExact⟩ := List.getElem?_eq_some_iff.mp atLast
  rcases Nat.lt_or_ge i ((unwrapped frames).length - 1) with before | atEnd
  · have less := List.pairwise_iff_getElem.mp sorted i ((unwrapped frames).length - 1)
      inside lastInside before
    omega
  · have same : i = (unwrapped frames).length - 1 := by omega
    subst same
    rw [← valueExact, ← lastExact]

/-- A frame that repeats an accepted number is not admissible while the numbers
have advanced by at most half the range. -/
theorem copy_inadmissible (d : Session) (masterIndex out : Nat) (frames : List AcceptedFrame)
    (tracks : Tracks d frames) (i value last : Nat) (frame : AcceptedFrame)
    (atFrame : frames[i]? = some frame) (atValue : (unwrapped frames)[i]? = some value)
    (atLast : (unwrapped frames).getLast? = some last) (near : last - value ≤ 2 ^ 31)
    (copy : Datagram) (copied : edogGetU32 copy.bytes 16 = frame.header.sequence) :
    ¬ Admissible d masterIndex out copy := by
  intro admissible
  have behind := unwrapped_le_last d frames tracks i value last atValue atLast
  have olderResidue := unwrapped_residue frames i value frame atFrame atValue
  have lengths : (unwrapped frames).length = frames.length := by
    rw [unwrapped, SerialNumber.unwrap_length, List.length_map]
  rw [List.getLast?_eq_getElem?, lengths] at atLast
  cases atEnd : frames[frames.length - 1]? with
  | none =>
      have inside := (List.getElem?_eq_some_iff.mp atFrame).1
      have beyond := List.getElem?_eq_none_iff.mp atEnd
      omega
  | some lastFrame =>
      have lastResidue := unwrapped_residue frames _ last lastFrame atEnd atLast
      have window := tracks.last
      rw [List.getLast?_eq_getElem?, atEnd, Option.map_some] at window
      by_cases seen : d.rxSeen = true
      · rw [if_pos seen] at window
        have lastSeq : lastFrame.header.sequence = d.rxLastSeq := Option.some.inj window
        have newer := admissible.newer seen
        rw [edogSeqNewer_iff, copied, ← lastSeq] at newer
        exact SerialNumber.not_newer_of_behind _ _ value last olderResidue lastResidue behind
          (by omega) newer
      · simp [seen] at window

/-! ## Taking a counting sender's frames -/

/-- Frames that count up by one from `first`. -/
structure CountingSender (d : Session) (masterIndex out : Nat) (first : UInt32)
    (frameOf : Nat → Datagram) : Prop where
  wellFormed : ∀ i, WellFormed d masterIndex out (frameOf i)
  sequence : ∀ i, edogGetU32 (frameOf i).bytes 16 = first + UInt32.ofNat i

theorem sequence_ahead (first : UInt32) (i j : Nat) (later : i < j)
    (lost : j - i - 1 < 2 ^ 31 - 1) :
    edogSeqNewer (first + UInt32.ofNat j) (first + UInt32.ofNat i) = true := by
  rw [edogSeqNewer_iff]
  have ahead := SerialNumber.newer_of_ahead (first + UInt32.ofNat i).toBitVec (j - i)
    (by omega) (by omega)
  have counted : (first + UInt32.ofNat j).toBitVec =
      (first + UInt32.ofNat i).toBitVec + BitVec.ofNat 32 (j - i) := by
    have split : j = i + (j - i) := by omega
    have sum : first + UInt32.ofNat j = first + UInt32.ofNat i + UInt32.ofNat (j - i) := by
      rw [UInt32.add_assoc, ← UInt32.ofNat_add, ← split]
    rw [sum]
    rfl
  rw [counted]
  exact ahead

/-- Frame `j` is delivered in order after frame `i`, with few enough losses between. -/
def InOrder (i j : Nat) : Prop := i < j ∧ j - i - 1 < 2 ^ 31 - 1

/-- Frame `j` is in order after the last accepted frame, if there is one. -/
def Follows (first : UInt32) (frames : List AcceptedFrame) (j : Nat) : Prop :=
  ∀ frame, frames.getLast? = some frame →
    ∃ i, frame.header.sequence = first + UInt32.ofNat i ∧ InOrder i j

section Sender
variable {masterIndex : Nat} {opened : Instance} {first : UInt32} {frameOf : Nat → Datagram}
  (indexFits : masterIndex < ecatMaxMasters)
  (sender : CountingSender opened.data masterIndex opened.layout.outputBytes first frameOf)

include sender in
theorem inOrder_admissible (s : Drain) (frames : List AcceptedFrame)
    (point : SessionAt opened s frames) (j : Nat) (follows : Follows first frames j) :
    Admissible s.d masterIndex opened.layout.outputBytes (frameOf j) := by
  refine ⟨(sender.wellFormed j).congr point.peer point.session, ?_⟩
  intro seen
  have window := point.tracks.last
  rw [if_pos seen] at window
  cases last : frames.getLast? with
  | none => simp [last] at window
  | some frame =>
      rw [last, Option.map_some] at window
      have lastSeq : frame.header.sequence = s.d.rxLastSeq := Option.some.inj window
      obtain ⟨i, counted, later, lost⟩ := follows frame last
      rw [sender.sequence, ← lastSeq, counted]
      exact sequence_ahead first i j later lost

theorem SessionAt.drainOne {s : Drain} {frames : List AcceptedFrame}
    (point : SessionAt opened s frames) (masterIndex : Nat) (datagram : Datagram) :
    SessionAt opened (drainOne masterIndex opened.layout.outputBytes s datagram)
      (frames ++ acceptedFrames masterIndex opened.layout.outputBytes s [datagram]) := by
  have kept := drain_sameSession s masterIndex opened.layout.outputBytes [datagram]
  exact ⟨drainOne_fits s masterIndex _ datagram point.fits,
    drainOne_tracks masterIndex _ s datagram frames point.tracks,
    kept.session.trans point.session, kept.peer.trans point.peer⟩

include sender indexFits in
theorem inOrder_drain (indices : List Nat) (s : Drain) (frames : List AcceptedFrame)
    (point : SessionAt opened s frames)
    (follows : ∀ j, indices.head? = some j → Follows first frames j)
    (ordered : List.IsChain InOrder indices) :
    (acceptedFrames masterIndex opened.layout.outputBytes s (indices.map frameOf)).map
        (fun frame => frame.header.sequence) =
      indices.map fun i => first + UInt32.ofNat i := by
  induction indices generalizing s frames with
  | nil => rfl
  | cons j rest ih =>
      have small : masterIndex < 256 := lt_trans indexFits (by decide)
      have admissible := inOrder_admissible sender s frames point j (follows j rfl)
      have whole : (frameOf j).bytes.take s.d.rxBufSize = (frameOf j).bytes := by
        apply List.take_of_length_le
        rw [admissible.length, point.fits.rxSize]
        omega
      have verdict := (checkFrame_admissible_iff s.d masterIndex _ (frameOf j) small
        point.fits.payloadFits).mpr admissible
      have single : acceptedFrames masterIndex opened.layout.outputBytes s [frameOf j] =
          [⟨readHeader (frameOf j).bytes, Memory.slice (frameOf j).bytes edogFrameHeaderSize
            opened.layout.outputBytes⟩] := by
        simp only [acceptedFrames, edogDgramRecv, whole, verdict]
      have next := point.drainOne masterIndex (frameOf j)
      have sequence : (readHeader (frameOf j).bytes).sequence = first + UInt32.ofNat j :=
        sender.sequence j
      have later := ih _ _ next (by
        intro following head frame last
        rw [single, List.getLast?_concat] at last
        cases Option.some.inj last
        have inOrder := List.isChain_cons.mp ordered
        exact ⟨j, sequence, inOrder.1 following head⟩) (List.isChain_cons.mp ordered).2
      have split := acceptedFrames_append masterIndex opened.layout.outputBytes s [frameOf j]
        (rest.map frameOf)
      rw [List.map_cons, List.map_cons, ← List.singleton_append, split, List.map_append, single]
      simp only [List.map_cons, List.map_nil, sequence]
      exact congrArg _ later

include sender indexFits in
theorem inOrder_session (start : OpenSession opened)
    (armed : opened.data.outputsZeroed = false) (cleared : opened.data.cyclesSinceOutput = 0)
    (unseen : opened.data.rxSeen = false) (deliveries : List (List Nat))
    (ordered : List.IsChain InOrder deliveries.reverse.flatten) :
    (framesAt masterIndex opened (deliveries.map (List.map frameOf)) []).map
        (fun frame => frame.header.sequence) =
      deliveries.reverse.flatten.map fun i => first + UInt32.ofNat i := by
  induction deliveries with
  | nil => simp [framesAt_nil, sessionCalls]
  | cons newest earlier ih =>
      have flat : (newest :: earlier).reverse.flatten = earlier.reverse.flatten ++ newest := by
        simp
      rw [flat, List.isChain_append] at ordered
      obtain ⟨earlierOrdered, newestOrdered, joined⟩ := ordered
      have before := ih earlierOrdered
      have point := sessionAt_call masterIndex opened start armed cleared unseen
        (earlier.map (List.map frameOf))
      obtain ⟨_, same, _⟩ := session_simulates masterIndex opened
        (earlier.map (List.map frameOf)) start armed cleared
      have follows : ∀ j, newest.head? = some j →
          Follows first (framesAt masterIndex opened (earlier.map (List.map frameOf)) []) j := by
        intro j head frame last
        have lastSequence := congrArg List.getLast? before
        rw [List.getLast?_map, List.getLast?_map, last, Option.map_some] at lastSequence
        cases lastIndex : earlier.reverse.flatten.getLast? with
        | none => simp [lastIndex] at lastSequence
        | some i =>
            rw [lastIndex, Option.map_some] at lastSequence
            exact ⟨i, Option.some.inj lastSequence, joined i lastIndex j head⟩
      have now := inOrder_drain indexFits sender newest _ _ point follows newestOrdered
      rw [flat, List.map_append, List.map_cons, framesAt_call, framesAt, List.map_append,
        ← framesAt_nil, before, callFrames, same.layout, now]

end Sender

/-- Replay protection across the wrap-around.  At every point of every session
the unwrapped numbers of the accepted frames climb by 1 to 2^31 - 1, a frame
repeating a number at most 2^31 behind is dropped, and a counting sender's next
frame in order is taken; a session of in-order deliveries takes them all. -/
theorem replay_protection (masterIndex : Nat) (indexFits : masterIndex < ecatMaxMasters)
    (inst opened : Instance) (mapped : Mapped inst)
    (fits : BuffersFit inst.layout.outputBytes inst.data) (endpoint : Option SockAddr)
    (socket : Option Nat) (random id : UInt64)
    (success : ecatDataOpen inst endpoint socket random = (opened, some id)) :
    let out := opened.layout.outputBytes
    (∀ (batches : List (List Datagram)) (earlier : List Datagram),
      let s := drainAt masterIndex opened batches earlier
      let frames := framesAt masterIndex opened batches earlier
      (unwrapped frames).length = frames.length ∧
      List.IsChain (fun older next => older + 1 ≤ next ∧ next - older ≤ 2 ^ 31 - 1)
        (unwrapped frames) ∧
      (∀ (i : Nat) (frame : AcceptedFrame) (value last : Nat) (copy : Datagram),
        frames[i]? = some frame →
        (unwrapped frames)[i]? = some value → (unwrapped frames).getLast? = some last →
        last - value ≤ 2 ^ 31 → edogGetU32 copy.bytes 16 = frame.header.sequence →
        drainOne masterIndex out s copy = dropFrame s) ∧
      (∀ (first : UInt32) (frameOf : Nat → Datagram) (j : Nat),
        CountingSender opened.data masterIndex out first frameOf →
        Follows first frames j →
        drainOne masterIndex out s (frameOf j) =
          acceptFrame s out (readHeader (frameOf j).bytes) (frameOf j).bytes)) ∧
    (∀ (first : UInt32) (frameOf : Nat → Datagram) (deliveries : List (List Nat)),
      CountingSender opened.data masterIndex out first frameOf →
      List.IsChain InOrder deliveries.reverse.flatten →
      (framesAt masterIndex opened (deliveries.map (List.map frameOf)) []).map
          (fun frame => frame.header.sequence) =
        deliveries.reverse.flatten.map fun i => first + UInt32.ofNat i) := by
  intro out
  have start := ecatDataOpen_openSession inst opened endpoint socket random id mapped fits success
  obtain ⟨peer, fd, _, _, openedExact⟩ :=
    ecatDataOpen_success inst opened endpoint socket random id success
  have armed : opened.data.outputsZeroed = false := by rw [openedExact]
  have cleared : opened.data.cyclesSinceOutput = 0 := by rw [openedExact]
  have unseen : opened.data.rxSeen = false := by rw [openedExact]
  have small : masterIndex < 256 := lt_trans indexFits (by decide)
  constructor
  · intro batches earlier s frames
    have point := sessionAt masterIndex opened start armed cleared unseen batches earlier
    refine ⟨?_, unwrapped_steps s.d frames point.tracks, ?_, ?_⟩
    · rw [unwrapped, SerialNumber.unwrap_length, List.length_map]
    · intro i frame value last copy atFrame atValue atLast near copied
      apply drainOne_inadmissible s masterIndex out copy small point.fits
      exact copy_inadmissible s.d masterIndex out frames point.tracks i value last frame atFrame
        atValue atLast near copy copied
    · intro first frameOf j sender follows
      apply drainOne_admissible s masterIndex out (frameOf j) small point.fits
      exact inOrder_admissible sender s frames point j follows
  · intro first frameOf deliveries sender ordered
    exact inOrder_session indexFits sender start armed cleared unseen deliveries ordered

/-- A frame sent before the wrap is dropped when it comes again after it. -/
theorem replay_protection_fake :
    drainOne 0 1 (drainAt 0 (fakeOpen 1000) [[sendOutputs 0xFFFFFFFF 1 [1]]]
        [sendOutputs 0 1 [2]]) (sendOutputs 0xFFFFFFFF 1 [1]) =
      dropFrame (drainAt 0 (fakeOpen 1000) [[sendOutputs 0xFFFFFFFF 1 [1]]]
        [sendOutputs 0 1 [2]]) := by
  have protection := replay_protection 0 (by decide) (fakeReady 1000) (fakeOpen 1000)
    (fakeReady_mapped 1000) (fakeReady_fits 1000) (some fakeClient) (some 3) 7 7 rfl
  obtain ⟨_, _, refused, _⟩ := protection.1 [[sendOutputs 0xFFFFFFFF 1 [1]]] [sendOutputs 0 1 [2]]
  exact refused 0 ⟨⟨1, 1, 0, 1, 7, 0xFFFFFFFF, 1, 0⟩, [1]⟩ 0xFFFFFFFF 0x100000000
    (sendOutputs 0xFFFFFFFF 1 [1]) (by decide +kernel) (by decide +kernel) (by decide +kernel)
    (by decide) (by decide +kernel)

end EtherDog
