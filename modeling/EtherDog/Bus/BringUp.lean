import EtherDog.Bus.Master
import EtherDog.Bus.Ownership

/-!
# What bringing a master up can do

`bringUp_cases` says once what a start does before its threads: it passes every
phase, and the outcome is one that every phase passes, or it is aborted.
-/

set_option autoImplicit false

namespace EtherDog

/-! ## What a start leaves -/

def threadFlags (inst : Instance) : Bool × Bool × Nat × Nat :=
  (inst.busRunning, inst.monitorRunning, inst.busThread, inst.monitorThread)

/-- A start that failed closed the master. -/
structure StartFailed (before after : Instance) : Prop where
  threads : threadFlags after = threadFlags before
  busState : after.busState = .error
  closed : after.soemInitialized = false

theorem abortStart_failed {before inst : Instance}
    (threads : threadFlags inst = threadFlags before) : StartFailed before (abortStart inst) :=
  ⟨threads, rfl, rfl⟩

theorem openAndScan_spec (inst : Instance) (scan : ScanOutcome) :
    threadFlags (ecatMasterOpenAndScan inst scan).1 = threadFlags inst ∧
      ((ecatMasterOpenAndScan inst scan).2 = true →
        (ecatMasterOpenAndScan inst scan).1.soemInitialized = true) := by
  cases scan with
  | found slavecount iomapBytes => exact ⟨rfl, fun _ => rfl⟩
  | _ => exact ⟨rfl, by simp [ecatMasterOpenAndScan]⟩

theorem growIomap_frame (inst grown : Instance) (bytes : Nat) (grows : Bool)
    (success : ecatMasterInstanceGrowIomap inst bytes grows = some grown) :
    ∃ iomap used, grown = { inst with iomap := iomap, iomapUsedSize := used } := by
  unfold ecatMasterInstanceGrowIomap at success
  split at success
  · cases Option.some.inj success
    exact ⟨inst.iomap, inst.iomapUsedSize, rfl⟩
  · split at success
    · simp at success
    · cases Option.some.inj success
      exact ⟨_, _, rfl⟩

theorem configure_spec (inst : Instance) (outcome : MapOutcome) :
    threadFlags (ecatMasterConfigure inst outcome).1 = threadFlags inst ∧
      ((ecatMasterConfigure inst outcome).2 = true →
        (ecatMasterConfigure inst outcome).1.soemInitialized = true ∧
          0 < (ecatMasterConfigure inst outcome).1.iomapUsedSize) := by
  unfold ecatMasterConfigure
  by_cases closed : inst.soemInitialized = false
  · rw [if_pos closed]
    exact ⟨rfl, by simp⟩
  · rw [if_neg closed]
    cases growth : ecatMasterInstanceGrowIomap inst outcome.bytes outcome.grows with
    | none => exact ⟨rfl, by simp⟩
    | some grown =>
        obtain ⟨iomap, used, rfl⟩ := growIomap_frame inst grown _ _ growth
        dsimp only
        by_cases empty : outcome.ioSize = 0
        · rw [if_pos empty]
          exact ⟨rfl, by simp⟩
        · rw [if_neg empty]
          split
          · exact ⟨rfl, by simp⟩
          · refine ⟨rfl, fun _ => ⟨by simpa using closed, ?_⟩⟩
            exact Nat.pos_of_ne_zero empty

theorem openAndScan_data (inst : Instance) (scan : ScanOutcome) :
    (ecatMasterOpenAndScan inst scan).1.data = inst.data := by
  cases scan <;> rfl

theorem configure_data (inst : Instance) (outcome : MapOutcome) :
    (ecatMasterConfigure inst outcome).1.data = inst.data := by
  unfold ecatMasterConfigure
  split
  · rfl
  · split
    · rfl
    · rename_i grown growth
      obtain ⟨iomap, used, rfl⟩ := growIomap_frame inst grown _ _ growth
      dsimp only
      split
      · rfl
      · split <;> rfl

theorem layoutBuild_frame (inst : Instance) (entriesMatch : Bool) :
    ∃ layout, (ecatLayoutBuild inst entriesMatch).1 = { inst with layout := layout } := by
  unfold ecatLayoutBuild
  dsimp only
  split
  · exact ⟨_, rfl⟩
  · split <;> exact ⟨_, rfl⟩

theorem allocBuffers_frame (inst ready : Instance) (allocated : Bool)
    (success : ecatDataAllocBuffers inst allocated = some ready) :
    ∃ data, ready = { inst with data := data } := by
  unfold ecatDataAllocBuffers at success
  split at success
  · simp at success
  · split at success
    · simp at success
    · cases Option.some.inj success
      exact ⟨_, rfl⟩

/-- A start that reached OPERATIONAL hands a started, open, mapped master on. -/
structure StartReady (before after : Instance) : Prop where
  threads : threadFlags after = threadFlags before
  started : Started after
  isOpen : after.soemInitialized = true
  mapped : 0 < after.iomapUsedSize

theorem enterOperational_ready {before inst : Instance} (inputs : List UInt8)
    (threads : threadFlags inst = threadFlags before) (isOpen : inst.soemInitialized = true)
    (mapped : 0 < inst.iomapUsedSize) : StartReady before (enterOperational inst inputs) := by
  unfold enterOperational ecatMasterExchangeProcessdata
  dsimp only
  split <;> exact ⟨threads, ⟨rfl, rfl, rfl, rfl, rfl, rfl⟩, isOpen, mapped⟩

/-! ## What each phase asks for -/

theorem configure_mapped (inst mapped : Instance) (outcome : MapOutcome)
    (success : ecatMasterConfigure inst outcome = (mapped, true)) :
    mapped.ecxContext.group = outcome.group ∧ mapped.soemInitialized = true ∧
      ∃ memory, mapped.iomap = some memory ∧ outcome.ioSize ≤ memory.length := by
  unfold ecatMasterConfigure at success
  split at success
  · simp at success
  · rename_i initialized
    split at success
    · simp at success
    · rename_i grown growth
      obtain ⟨iomap, used, rfl⟩ := growIomap_frame inst grown _ _ growth
      dsimp only at success
      split at success
      · simp at success
      · rename_i nonempty
        split at success
        · simp at success
        · rename_i large
          obtain ⟨rfl, _⟩ := Prod.mk.inj success
          refine ⟨rfl, by simpa using initialized, ?_⟩
          cases iomap with
          | none =>
              simp only [Option.getD_none, List.length_nil] at large
              omega
          | some memory => exact ⟨memory, rfl, by simpa using large⟩

theorem layoutBuild_fits (mapped built : Instance) (entriesMatch : Bool)
    (initialized : mapped.soemInitialized = true)
    (success : ecatLayoutBuild mapped entriesMatch = (built, true)) :
    built = { mapped with
      layout := ⟨mapped.ecxContext.group.obytes, mapped.ecxContext.group.ibytes⟩ } ∧
      mapped.ecxContext.group.obytes ≤ edogFrameMaxPayload ∧
      mapped.ecxContext.group.ibytes ≤ edogFrameMaxPayload := by
  unfold ecatLayoutBuild at success
  rw [if_neg (by simp [initialized])] at success
  dsimp only at success
  split at success
  · simp at success
  · rename_i fits
    obtain ⟨rfl, _⟩ := Prod.mk.inj success
    exact ⟨rfl, by omega, by omega⟩

/-- What lets `ecat_master_configure` pass on an IOmap of `iomapBytes`. -/
structure MapPasses (iomapBytes : Nat) (outcome : MapOutcome) : Prop where
  grown : outcome.bytes ≤ iomapBytes ∨ outcome.grows = true
  mapped : 0 < outcome.ioSize
  fits : outcome.ioSize ≤ max iomapBytes outcome.bytes
  watchdogs : outcome.watchdogsSet = true

theorem configure_ok_iff (inst : Instance) {iomapBytes : Nat}
    (isOpen : inst.soemInitialized = true) (allocated : inst.iomap = some (zeros iomapBytes))
    (outcome : MapOutcome) :
    (ecatMasterConfigure inst outcome).2 = true ↔ MapPasses iomapBytes outcome := by
  have length : (inst.iomap.getD []).length = iomapBytes := by simp [allocated, zeros]
  have after : ∀ grown : Instance, (grown.iomap.getD []).length = max iomapBytes outcome.bytes →
      ecatMasterInstanceGrowIomap inst outcome.bytes outcome.grows = some grown →
      (outcome.bytes ≤ iomapBytes ∨ outcome.grows = true) →
      ((ecatMasterConfigure inst outcome).2 = true ↔ MapPasses iomapBytes outcome) := by
    intro grown capacity growing able
    unfold ecatMasterConfigure
    rw [if_neg (by simp [isOpen]), growing]
    dsimp only
    rw [capacity]
    split
    · rename_i zero
      simp only [Bool.false_eq_true, false_iff]
      exact fun passes => absurd passes.mapped (by omega)
    · split
      · rename_i short
        simp only [Bool.false_eq_true, false_iff]
        exact fun passes => absurd passes.fits (by omega)
      · rename_i nonzero fits
        exact ⟨fun set => ⟨able, by omega, by omega, set⟩, fun passes => passes.watchdogs⟩
  by_cases enough : outcome.bytes ≤ iomapBytes
  · refine after inst ?_ ?_ (Or.inl enough)
    · rw [length, max_eq_left enough]
    · rw [ecatMasterInstanceGrowIomap, if_pos ⟨by simp [allocated], by rw [length]; exact enough⟩]
  · cases grows : outcome.grows with
    | true =>
        refine after { inst with iomap := some (zeros outcome.bytes), iomapUsedSize := 0 } ?_ ?_
          (Or.inr grows)
        · simp only [Option.getD_some, zeros, List.length_replicate]
          omega
        · rw [ecatMasterInstanceGrowIomap, grows, if_neg (by rw [length]; exact fun h => enough h.2),
            if_neg (by decide)]
    | false =>
        have stuck : ecatMasterInstanceGrowIomap inst outcome.bytes outcome.grows = none := by
          rw [ecatMasterInstanceGrowIomap, grows, if_neg (by rw [length]; exact fun h => enough h.2),
            if_pos rfl]
        unfold ecatMasterConfigure
        rw [if_neg (by simp [isOpen]), stuck]
        simp only [Bool.false_eq_true, false_iff]
        intro passes
        rcases passes.grown with small | able
        · exact enough small
        · simp [grows] at able

structure OutcomePasses (slaves : List SlaveConfig) (o : StartOutcome) : Prop where
  scan : ∃ slavecount iomapBytes, o.scan = .found slavecount iomapBytes ∧
    MapPasses iomapBytes o.mapping
  sdos : sdosAccepted slaves o.sdosWritten = true
  fixedPdos : o.fixedPdosMatch = true
  outputs : o.mapping.group.obytes ≤ edogFrameMaxPayload
  inputs : o.mapping.group.ibytes ≤ edogFrameMaxPayload
  layout : o.layoutMatches = true
  buffers : o.buffersAllocated = true
  operational : o.reachesOp = true

theorem OutcomePasses.mapping {slaves : List SlaveConfig} {o : StartOutcome}
    (passes : OutcomePasses slaves o) {slavecount iomapBytes : Nat}
    (found : o.scan = .found slavecount iomapBytes) : MapPasses iomapBytes o.mapping := by
  obtain ⟨count, bytes, scanned, mapping⟩ := passes.scan
  rw [found] at scanned
  cases scanned
  exact mapping

theorem openAndScan_found {inst opened : Instance} {scan : ScanOutcome}
    (success : ecatMasterOpenAndScan inst scan = (opened, true)) :
    ∃ slavecount iomapBytes, scan = .found slavecount iomapBytes ∧
      opened.soemInitialized = true ∧ opened.iomap = some (zeros iomapBytes) := by
  cases scan with
  | found slavecount iomapBytes =>
      cases success
      exact ⟨slavecount, iomapBytes, rfl, rfl, rfl⟩
  | _ => simp [ecatMasterOpenAndScan] at success

theorem layoutBuild_ok_iff {inst : Instance} (isOpen : inst.soemInitialized = true)
    (entriesMatch : Bool) :
    (ecatLayoutBuild inst entriesMatch).2 = true ↔
      inst.ecxContext.group.obytes ≤ edogFrameMaxPayload ∧
        inst.ecxContext.group.ibytes ≤ edogFrameMaxPayload ∧ entriesMatch = true := by
  unfold ecatLayoutBuild
  rw [if_neg (by simp [isOpen])]
  dsimp only
  split
  · simp only [Bool.false_eq_true, false_iff]
    omega
  · rename_i small
    have bounds : inst.ecxContext.group.obytes ≤ edogFrameMaxPayload ∧
        inst.ecxContext.group.ibytes ≤ edogFrameMaxPayload := by omega
    exact ⟨fun found => ⟨bounds.1, bounds.2, found⟩, fun passes => passes.2.2⟩

theorem allocBuffers_isSome_iff (inst : Instance) (allocated : Bool) :
    (ecatDataAllocBuffers inst allocated).isSome = true ↔
      inst.layout.outputBytes ≤ edogFrameMaxPayload ∧
        inst.layout.inputBytes ≤ edogFrameMaxPayload ∧ allocated = true := by
  unfold ecatDataAllocBuffers
  split
  · simp only [Option.isSome_none, Bool.false_eq_true, false_iff]
    omega
  · rename_i small
    cases allocated with
    | false => simp
    | true =>
        simp only [Bool.true_eq_false, if_false, Option.isSome_some, and_true, true_iff]
        omega

/-! ## All phases -/

/-- A start either is aborted, with its session as it was or with new buffers, or
passes every phase in order. -/
theorem bringUp_cases (inst : Instance) (o : StartOutcome) :
    (¬ OutcomePasses inst.config.slaves o ∧ ∃ aborted,
      bringUp inst o = (abortStart aborted, false) ∧
      threadFlags aborted = threadFlags inst ∧
      (aborted.data = inst.data ∨ ∃ built ready, built.data = inst.data ∧
        ecatDataAllocBuffers built o.buffersAllocated = some ready ∧
        aborted.data = ready.data)) ∨
    (OutcomePasses inst.config.slaves o ∧ ∃ opened mapped built ready,
      ecatMasterOpenAndScan { inst with busState := .scanning } o.scan = (opened, true) ∧
      ecatMasterConfigure { opened with busState := .configuring } o.mapping = (mapped, true) ∧
      ecatLayoutBuild mapped o.layoutMatches = (built, true) ∧
      ecatDataAllocBuffers built o.buffersAllocated = some ready ∧
      bringUp inst o = (enterOperational { ready with
        expectedWkc := ecatMasterGetExpectedWkc ready
        receiveTimeoutUs := max ready.config.receiveTimeoutUs ecatMinReceiveTimeoutUs
        busState := .transitioning } o.inputs, true)) := by
  unfold bringUp
  have scanThreads := (openAndScan_spec { inst with busState := .scanning } o.scan).1
  have scanData := openAndScan_data { inst with busState := .scanning } o.scan
  cases scanned : ecatMasterOpenAndScan { inst with busState := .scanning } o.scan with
  | mk opened found =>
  rw [scanned] at scanThreads scanData
  cases found with
  | false =>
      refine Or.inl ⟨fun passes => ?_, opened, rfl, scanThreads, Or.inl scanData⟩
      obtain ⟨count, bytes, isFound, _⟩ := passes.scan
      simp [isFound, ecatMasterOpenAndScan] at scanned
  | true =>
  obtain ⟨slavecount, iomapBytes, isFound, isOpen, allocated⟩ := openAndScan_found scanned
  dsimp only
  by_cases sdos : sdosAccepted inst.config.slaves o.sdosWritten = false
  · rw [if_pos sdos]
    refine Or.inl ⟨fun passes => ?_, _, rfl, scanThreads, Or.inl scanData⟩
    simp [passes.sdos] at sdos
  rw [if_neg sdos]
  by_cases fixedPdos : o.fixedPdosMatch = false
  · rw [if_pos fixedPdos]
    refine Or.inl ⟨fun passes => ?_, _, rfl, scanThreads, Or.inl scanData⟩
    simp [passes.fixedPdos] at fixedPdos
  rw [if_neg fixedPdos]
  have mapIff := configure_ok_iff { opened with busState := .configuring } isOpen allocated
    o.mapping
  have mapThreads := (configure_spec { opened with busState := .configuring } o.mapping).1
  have mapData := configure_data { opened with busState := .configuring } o.mapping
  cases done : ecatMasterConfigure { opened with busState := .configuring } o.mapping with
  | mk mapped ok =>
  rw [done] at mapIff mapThreads mapData
  have mappedThreads : threadFlags mapped = threadFlags inst := mapThreads.trans scanThreads
  have mappedData : mapped.data = inst.data := mapData.trans scanData
  cases ok with
  | false =>
      refine Or.inl ⟨fun passes => ?_, mapped, rfl, mappedThreads, Or.inl mappedData⟩
      simpa using mapIff.mpr (passes.mapping isFound)
  | true =>
  obtain ⟨group, stillOpen, _⟩ := configure_mapped _ mapped _ done
  have layoutIff := layoutBuild_ok_iff stillOpen o.layoutMatches
  obtain ⟨layout, builtExact⟩ := layoutBuild_frame mapped o.layoutMatches
  dsimp only
  cases laidOut : ecatLayoutBuild mapped o.layoutMatches with
  | mk built laid =>
  rw [laidOut] at builtExact layoutIff
  rw [group] at layoutIff
  dsimp only at builtExact
  have builtThreads : threadFlags built = threadFlags inst := by
    rw [builtExact]
    exact mappedThreads
  have builtData : built.data = inst.data := by
    rw [builtExact]
    exact mappedData
  cases laid with
  | false =>
      refine Or.inl ⟨fun passes => ?_, ecatLayoutDestroy built, rfl, builtThreads,
        Or.inl builtData⟩
      simpa using layoutIff.mpr ⟨passes.outputs, passes.inputs, passes.layout⟩
  | true =>
  obtain ⟨outputs, inputs, entriesMatch⟩ := layoutIff.mp rfl
  have sizes : built.layout = ⟨o.mapping.group.obytes, o.mapping.group.ibytes⟩ := by
    rw [(layoutBuild_fits mapped built _ stillOpen laidOut).1, group]
  have bufferIff := allocBuffers_isSome_iff built o.buffersAllocated
  rw [sizes] at bufferIff
  dsimp only at bufferIff ⊢
  cases allocating : ecatDataAllocBuffers built o.buffersAllocated with
  | none =>
      refine Or.inl ⟨fun passes => ?_, ecatLayoutDestroy built, rfl, builtThreads,
        Or.inl builtData⟩
      rw [allocating] at bufferIff
      simpa using bufferIff.mpr ⟨outputs, inputs, passes.buffers⟩
  | some ready =>
  have readyThreads : threadFlags ready = threadFlags inst := by
    obtain ⟨data, rfl⟩ := allocBuffers_frame built ready _ allocating
    exact builtThreads
  dsimp only
  by_cases operational : o.reachesOp = false
  · rw [if_pos operational]
    refine Or.inl ⟨fun passes => ?_, _, rfl, readyThreads, Or.inr ?_⟩
    · simp [passes.operational] at operational
    · exact ⟨built, ready, builtData, allocating, rfl⟩
  · rw [if_neg operational]
    rw [allocating] at bufferIff
    refine Or.inr ⟨?_, opened, mapped, built, ready, rfl, done, laidOut, allocating, rfl⟩
    exact
      { scan := ⟨slavecount, iomapBytes, isFound, mapIff.mp rfl⟩
        sdos := by simpa using sdos
        fixedPdos := by simpa using fixedPdos
        outputs := outputs
        inputs := inputs
        layout := entriesMatch
        buffers := (bufferIff.mp rfl).2.2
        operational := by simpa using operational }

theorem bringUp_spec (inst : Instance) (o : StartOutcome) :
    ((bringUp inst o).2 = false ∧ StartFailed inst (bringUp inst o).1) ∨
      ((bringUp inst o).2 = true ∧ StartReady inst (bringUp inst o).1) := by
  rcases bringUp_cases inst o with
    ⟨_, aborted, result, threads, _⟩ |
      ⟨_, opened, mapped, built, ready, scanned, done, laid, alloc, result⟩
  · rw [result]
    exact Or.inl ⟨rfl, abortStart_failed threads⟩
  · have scanThreads := (openAndScan_spec { inst with busState := .scanning } o.scan).1
    obtain ⟨mapThreads, mapOpen⟩ := configure_spec { opened with busState := .configuring } o.mapping
    obtain ⟨layout, builtExact⟩ := layoutBuild_frame mapped o.layoutMatches
    obtain ⟨data, readyExact⟩ := allocBuffers_frame built ready _ alloc
    rw [scanned] at scanThreads
    rw [done] at mapThreads mapOpen
    rw [laid] at builtExact
    obtain ⟨isOpen, used⟩ := mapOpen rfl
    dsimp only at builtExact
    subst readyExact builtExact
    rw [result]
    refine Or.inr ⟨rfl, enterOperational_ready o.inputs ?_ isOpen used⟩
    exact mapThreads.trans scanThreads

theorem bringUp_true_iff (inst : Instance) (o : StartOutcome) :
    (bringUp inst o).2 = true ↔ OutcomePasses inst.config.slaves o := by
  rcases bringUp_cases inst o with
    ⟨fails, aborted, result, _⟩ | ⟨passes, _, _, _, _, _, _, _, _, result⟩
  · simp [result, fails]
  · simp [result, passes]

end EtherDog
