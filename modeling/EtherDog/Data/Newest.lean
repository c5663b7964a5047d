import EtherDog.Data.Calls

/-!
# The newest frame of a batch

The drain loop takes the frames of one call as they come.  A batch of frames
that are well formed for the session is a run of the reader of
`EtherDog.Lib.SerialNumber` over their sequence numbers, so what a call leaves
behind does not depend on the order of arrival.
-/

set_option autoImplicit false

namespace EtherDog

open SerialNumber

def sequenceOf (datagram : Datagram) : BitVec 32 := (edogGetU32 datagram.bytes 16).toBitVec

/-- `rx_last_seq`, once a frame has been seen. -/
def lastSequence (d : Session) : Option (BitVec 32) :=
  if d.rxSeen = true then some d.rxLastSeq.toBitVec else none

def frameOf (out : Nat) (datagram : Datagram) : AcceptedFrame :=
  ⟨readHeader datagram.bytes, Memory.slice datagram.bytes edogFrameHeaderSize out⟩

/-! ## A drain of well-formed frames -/

theorem isNews_lastSequence (d : Session) (datagram : Datagram) :
    IsNews (lastSequence d) (sequenceOf datagram) ↔
      (d.rxSeen = true → edogSeqNewer (edogGetU32 datagram.bytes 16) d.rxLastSeq = true) := by
  unfold IsNews lastSequence sequenceOf
  rw [edogSeqNewer_iff]
  by_cases seen : d.rxSeen = true
  · simp [seen]
  · simp [seen]

theorem WellFormed.admissible_iff {d : Session} {masterIndex out : Nat} {datagram : Datagram}
    (wellFormed : WellFormed d masterIndex out datagram) :
    Admissible d masterIndex out datagram ↔
      IsNews (lastSequence d) (sequenceOf datagram) := by
  rw [isNews_lastSequence]
  constructor
  · intro admissible
    exact admissible.newer
  · intro newer
    exact ⟨wellFormed, newer⟩

theorem acceptedFrames_wellFormed (masterIndex out : Nat) (s : Drain) (queue : List Datagram)
    (indexFits : masterIndex < 256) (fits : BuffersFit out s.d)
    (wellFormed : ∀ datagram ∈ queue, WellFormed s.d masterIndex out datagram) :
    acceptedFrames masterIndex out s queue =
      (keepNewer sequenceOf (lastSequence s.d) queue).map (frameOf out) := by
  induction queue generalizing s with
  | nil => rfl
  | cons datagram rest ih =>
      have first := wellFormed datagram (by simp)
      have fitsAfter := drainOne_fits s masterIndex out datagram fits
      have whole : datagram.bytes.take s.d.rxBufSize = datagram.bytes := by
        apply List.take_of_length_le
        rw [first.length, fits.rxSize]
        omega
      have verdict := checkFrame_admissible_iff s.d masterIndex out datagram indexFits
        fits.payloadFits
      rw [keepNewer]
      by_cases news : IsNews (lastSequence s.d) (sequenceOf datagram)
      · have admissible := first.admissible_iff.mpr news
        have accepted := drainOne_admissible s masterIndex out datagram indexFits fits admissible
        have later := ih (drainOne masterIndex out s datagram) fitsAfter fun other member =>
          (wellFormed other (List.mem_cons_of_mem _ member)).congr
            (by rw [accepted]; rfl) (by rw [accepted]; rfl)
        have seen : lastSequence (drainOne masterIndex out s datagram).d =
            some (sequenceOf datagram) := by
          rw [accepted]
          rfl
        rw [if_pos news, List.map_cons, ← seen, ← later]
        simp only [acceptedFrames, edogDgramRecv, whole, verdict.mpr admissible, frameOf]
      · have inadmissible := fun admissible => news (first.admissible_iff.mp admissible)
        have dropped := drainOne_inadmissible s masterIndex out datagram indexFits fits inadmissible
        have later := ih (drainOne masterIndex out s datagram) fitsAfter fun other member =>
          (wellFormed other (List.mem_cons_of_mem _ member)).congr
            (by rw [dropped]; rfl) (by rw [dropped]; rfl)
        have unseen : lastSequence (drainOne masterIndex out s datagram).d = lastSequence s.d := by
          rw [dropped]
          rfl
        have refused : checkFrame s.d masterIndex out datagram.bytes
            (samePeer s.d.peer datagram.source) = none := by
          cases found : checkFrame s.d masterIndex out datagram.bytes
              (samePeer s.d.peer datagram.source) with
          | none => rfl
          | some h =>
              rw [checkFrame_header _ _ _ _ _ _ found] at found
              exact absurd (verdict.mp found) inadmissible
        rw [if_neg news, ← unseen, ← later]
        simp only [acceptedFrames, edogDgramRecv, whole, refused]

/-! ## What a call leaves behind -/

structure Observed where
  region : List UInt8
  rxLastSeq : UInt32
  outputsZeroed : Bool
  cyclesSinceOutput : UInt32
  deriving DecidableEq, Repr

def observed (inst : Instance) : Observed :=
  ⟨outputRegion inst, inst.data.rxLastSeq, inst.data.outputsZeroed, inst.data.cyclesSinceOutput⟩

/-- What a call leaves behind that ends on this frame. -/
def observedOf (out : Nat) (frame : AcceptedFrame) : Observed :=
  ⟨if frame.valid then frame.payload else zeros out, frame.header.sequence, !frame.valid, 0⟩

section Call
variable (inst : Instance) (masterIndex : Nat) (queue : List Datagram)

theorem applyOutputs_rxLastSeq (opened : OpenSession inst) :
    (ecatDataApplyOutputs inst masterIndex true queue).data.rxLastSeq =
      match (callFrames inst masterIndex queue).getLast? with
      | some frame => frame.header.sequence
      | none => inst.data.rxLastSeq := by
  obtain ⟨memory, region, _, _, _, call⟩ := applyOutputs_open inst masterIndex queue opened
  have last := drain_lastFrame masterIndex inst.layout.outputBytes
    ⟨inst.data, false, false⟩ queue opened.fits
  obtain ⟨⟨zeroed, cycles, trips, data⟩, _⟩ := settleOutputs_data inst region
    (drain masterIndex inst.layout.outputBytes ⟨inst.data, false, false⟩ queue)
  rw [call, data]
  unfold callFrames
  cases found : (acceptedFrames masterIndex inst.layout.outputBytes
      ⟨inst.data, false, false⟩ queue).getLast? with
  | none =>
      rw [found] at last
      exact last.2.2.2.1
  | some frame =>
      rw [found] at last
      exact last.2.2.2.1

/-- The switch that the session is. -/
def switchOf : Deadman.State (List UInt8) where
  value := outputRegion inst
  safe := inst.data.outputsZeroed
  quiet := inst.data.cyclesSinceOutput.toNat
  trips := 0

theorem switchOf_watches : Watches inst.data.watchdogTrips inst (switchOf inst) :=
  ⟨rfl, rfl, rfl, by simp [switchOf]⟩

/-- The last accepted frame decides, or the call is one without frames. -/
theorem observed_call (opened : OpenSession inst) :
    observed (ecatDataApplyOutputs inst masterIndex true queue) =
      match (callFrames inst masterIndex queue).getLast? with
      | some frame => observedOf inst.layout.outputBytes frame
      | none => observed (ecatDataApplyOutputs inst masterIndex true []) := by
  have watched := applyOutputs_simulates inst masterIndex queue _ _ opened (switchOf_watches inst)
  have quiet := applyOutputs_simulates inst masterIndex [] _ _ opened (switchOf_watches inst)
  have number := applyOutputs_rxLastSeq inst masterIndex queue opened
  have numberQuiet := applyOutputs_rxLastSeq inst masterIndex [] opened
  unfold batchCall at watched
  cases found : (callFrames inst masterIndex queue).getLast? with
  | none =>
      rw [found] at watched number
      have same : (ecatDataApplyOutputs inst masterIndex true queue).data.cyclesSinceOutput =
          (ecatDataApplyOutputs inst masterIndex true []).data.cyclesSinceOutput :=
        UInt32.toNat_inj.mp (watched.quiet.trans quiet.quiet.symm)
      simp only [observed, watched.value.trans quiet.value.symm,
        watched.safe.trans quiet.safe.symm, number.trans numberQuiet.symm, same]
  | some frame =>
      rw [found] at watched number
      have cleared : (ecatDataApplyOutputs inst masterIndex true queue).data.cyclesSinceOutput =
          0 := by
        apply UInt32.toNat_inj.mp
        rw [watched.quiet]
        dsimp only
        split <;> rfl
      have value := watched.value
      have safe := watched.safe
      dsimp only at value safe number
      cases valid : frame.valid with
      | true =>
          rw [valid] at value safe
          simp only [observed, observedOf, value, safe, number, cleared, valid]
          rfl
      | false =>
          rw [valid] at value safe
          simp only [observed, observedOf, value, safe, number, cleared, valid]
          rfl

theorem observed_wellFormed (opened : OpenSession inst) (indexFits : masterIndex < 256)
    (wellFormed : ∀ datagram ∈ queue,
      WellFormed inst.data masterIndex inst.layout.outputBytes datagram) :
    observed (ecatDataApplyOutputs inst masterIndex true queue) =
      match (keepNewer sequenceOf (lastSequence inst.data) queue).getLast? with
      | some datagram => observedOf inst.layout.outputBytes
          (frameOf inst.layout.outputBytes datagram)
      | none => observed (ecatDataApplyOutputs inst masterIndex true []) := by
  have frames := acceptedFrames_wellFormed masterIndex inst.layout.outputBytes
    ⟨inst.data, false, false⟩ queue indexFits opened.fits wellFormed
  rw [observed_call inst masterIndex queue opened, callFrames, frames, List.getLast?_map]
  cases (keepNewer sequenceOf (lastSequence inst.data) queue).getLast? <;> rfl

end Call

/-! ## Any order of arrival -/

/-- The batch and the last frame seen lie in fewer than `2 ^ 31` consecutive numbers. -/
def InOneWindow (d : Session) (batch : List Datagram) : Prop :=
  ∃ base width, width < 2 ^ 31 ∧ (∀ datagram ∈ batch, InWindow base width (sequenceOf datagram)) ∧
    (d.rxSeen = true → InWindow base width d.rxLastSeq.toBitVec)

theorem InOneWindow.last {d : Session} {base : BitVec 32} {width : Nat}
    (lastIn : d.rxSeen = true → InWindow base width d.rxLastSeq.toBitVec) :
    ∀ l ∈ lastSequence d, InWindow base width l := by
  intro l member
  unfold lastSequence at member
  split at member
  · rename_i seen
    cases member
    exact lastIn seen
  · simp at member

/-- One call on any order of a batch whose newest frame is known. -/
theorem observed_anyOrder (inst : Instance) (masterIndex : Nat) {batch order : List Datagram}
    {newest : Datagram} (opened : OpenSession inst) (indexFits : masterIndex < 256)
    (wellFormed : ∀ datagram ∈ batch,
      WellFormed inst.data masterIndex inst.layout.outputBytes datagram)
    (window : InOneWindow inst.data batch) (isNewest : Newest sequenceOf batch newest)
    (shuffled : order.Perm batch) :
    observed (ecatDataApplyOutputs inst masterIndex true order) =
      if IsNews (lastSequence inst.data) (sequenceOf newest) then
        observedOf inst.layout.outputBytes (frameOf inst.layout.outputBytes newest)
      else observed (ecatDataApplyOutputs inst masterIndex true []) := by
  obtain ⟨base, width, narrow, batchIn, lastIn⟩ := window
  have short : 2 * width ≤ 2 ^ 32 := by omega
  have kept := keepNewer_newest sequenceOf short (isNewest.perm sequenceOf shuffled)
    (InOneWindow.last lastIn)
    (fun datagram member => batchIn datagram (shuffled.mem_iff.mp member))
  rw [observed_wellFormed inst masterIndex order opened indexFits
    (fun datagram member => wellFormed datagram (shuffled.mem_iff.mp member)), kept]
  by_cases news : IsNews (lastSequence inst.data) (sequenceOf newest)
  · rw [if_pos news, if_pos news]
  · rw [if_neg news, if_neg news]

/-- The order of a batch is not seen, on a closed session and without a lock either. -/
theorem observed_shuffled (inst : Instance) (masterIndex : Nat) (lockFree : Bool)
    {batch order : List Datagram} {newest : Datagram} (indexFits : masterIndex < 256)
    (sound : inst.data.isOpen = true → ecatLayoutOutputRegion inst ≠ none → OpenSession inst)
    (wellFormed : ∀ datagram ∈ batch,
      WellFormed inst.data masterIndex inst.layout.outputBytes datagram)
    (window : InOneWindow inst.data batch) (isNewest : Newest sequenceOf batch newest)
    (shuffled : order.Perm batch) :
    observed (ecatDataApplyOutputs inst masterIndex lockFree order) =
      observed (ecatDataApplyOutputs inst masterIndex lockFree batch) := by
  unfold ecatDataApplyOutputs
  cases region : ecatLayoutOutputRegion inst with
  | none => rfl
  | some place =>
      cases lockFree with
      | false => rfl
      | true =>
          cases isOpen : inst.data.isOpen with
          | false => rfl
          | true =>
              have opened := sound isOpen (by simp [region])
              have same := (observed_anyOrder inst masterIndex opened indexFits wellFormed window
                isNewest shuffled).trans (observed_anyOrder inst masterIndex opened indexFits
                  wellFormed window isNewest (.refl batch)).symm
              simpa only [ecatDataApplyOutputs, region, isOpen] using same

/-- One call leaves the same behind for every order of a batch: what its newest
frame says, or what a call without frames leaves.  A session that is open on a
process image has the buffers its opening checked. -/
theorem newest_frame_wins (inst : Instance) (masterIndex : Nat) (lockFree : Bool)
    (batch : List Datagram) (indexFits : masterIndex < ecatMaxMasters)
    (sound : inst.data.isOpen = true → ecatLayoutOutputRegion inst ≠ none → OpenSession inst)
    (wellFormed : ∀ datagram ∈ batch,
      WellFormed inst.data masterIndex inst.layout.outputBytes datagram)
    (distinct : batch.Pairwise fun x y => sequenceOf x ≠ sequenceOf y)
    (window : InOneWindow inst.data batch) :
    (∀ order, order.Perm batch →
      observed (ecatDataApplyOutputs inst masterIndex lockFree order) =
        observed (ecatDataApplyOutputs inst masterIndex lockFree batch)) ∧
    (batch ≠ [] → ∃ newest ∈ batch,
      (∀ datagram ∈ batch, datagram ≠ newest →
        edogSeqNewer (edogGetU32 newest.bytes 16) (edogGetU32 datagram.bytes 16) = true) ∧
      (lockFree = true → OpenSession inst →
        ((inst.data.rxSeen = true →
            edogSeqNewer (edogGetU32 newest.bytes 16) inst.data.rxLastSeq = true) →
          observed (ecatDataApplyOutputs inst masterIndex lockFree batch) =
            observedOf inst.layout.outputBytes (frameOf inst.layout.outputBytes newest)) ∧
        (¬ (inst.data.rxSeen = true →
            edogSeqNewer (edogGetU32 newest.bytes 16) inst.data.rxLastSeq = true) →
          observed (ecatDataApplyOutputs inst masterIndex lockFree batch) =
            observed (ecatDataApplyOutputs inst masterIndex lockFree [])))) := by
  have small : masterIndex < 256 := lt_trans indexFits (by decide)
  have newestExists : batch ≠ [] → ∃ newest, Newest sequenceOf batch newest := by
    obtain ⟨base, width, narrow, batchIn, _⟩ := window
    intro nonempty
    exact exists_newest sequenceOf (by omega) batch nonempty batchIn distinct
  constructor
  · intro order shuffled
    by_cases empty : batch = []
    · subst empty
      rw [shuffled.eq_nil]
    · obtain ⟨newest, isNewest⟩ := newestExists empty
      exact observed_shuffled inst masterIndex lockFree small sound wellFormed window isNewest
        shuffled
  · intro nonempty
    obtain ⟨newest, isNewest⟩ := newestExists nonempty
    refine ⟨newest, isNewest.1, ?_, ?_⟩
    · intro datagram member apart
      exact (edogSeqNewer_iff _ _).mpr (isNewest.2 datagram member apart)
    · rintro rfl opened
      have outcome := observed_anyOrder inst masterIndex opened small wellFormed window isNewest
        (.refl batch)
      rw [← isNews_lastSequence]
      constructor
      · intro news
        rw [outcome, if_pos news]
      · intro stale
        rw [outcome, if_neg stale]

/-- A valid frame and a newer release behind the wrap, in both orders. -/
theorem newest_frame_wins_wrapped :
    observed (ecatDataApplyOutputs (fakeOpen 1000) 0 true
        [sendOutputs 1 0 [9], sendOutputs 0xFFFFFFFF edogFlagValid [5]]) =
      observed (ecatDataApplyOutputs (fakeOpen 1000) 0 true
        [sendOutputs 0xFFFFFFFF edogFlagValid [5], sendOutputs 1 0 [9]]) := by
  have wellFormed : ∀ datagram ∈ [sendOutputs 0xFFFFFFFF edogFlagValid [5], sendOutputs 1 0 [9]],
      WellFormed (fakeOpen 1000).data 0 (fakeOpen 1000).layout.outputBytes datagram := by
    intro datagram member
    simp only [List.mem_cons, List.not_mem_nil, or_false] at member
    rcases member with rfl | rfl
    · exact ⟨by decide, by decide, by decide, by decide, by decide, by decide, by decide,
        by decide⟩
    · exact ⟨by decide, by decide, by decide, by decide, by decide, by decide, by decide,
        by decide⟩
  have window : InOneWindow (fakeOpen 1000).data
      [sendOutputs 0xFFFFFFFF edogFlagValid [5], sendOutputs 1 0 [9]] := by
    refine ⟨0xFFFFFFFF, 3, by decide, ?_, ?_⟩
    · intro datagram member
      simp only [List.mem_cons, List.not_mem_nil, or_false] at member
      unfold InWindow
      rcases member with rfl | rfl <;> decide
    · intro seen
      cases seen
  exact (newest_frame_wins (fakeOpen 1000) 0 true _ (by decide)
    (fun _ _ => fakeOpen_openSession 1000) wellFormed (by decide) window).1 _ (.swap _ _ _)

end EtherDog
