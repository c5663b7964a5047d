import EtherDog.Lib.Smoothing
import EtherDog.Bus.Status

/-!
# Cycle metrics (src/bus.c)

How a bus thread fills `ecat_cycle_diag_t`: `ecat_bus_thread` measures every
wake-up, `ecat_run_one_cycle` every exchange, and `stop_single_master` sums the
counters up at the end.  Times are nanoseconds of the monotonic clock.  Sums are
`int64_t`; where one overflows the source has no defined value, and two's
complement is taken here.
-/

set_option autoImplicit false

namespace EtherDog

open MachineInt Smoothing

def ecNoframe : Int := -1

def ecatAvgTargetWindowNs : Int := 2000000000

/-- The samples an average spans, as `start_single_master` sizes it. -/
def avgWindow (cycleTimeUs : Int) : Int :=
  let cycleNs := cycleTimeUs * 1000
  max (if 0 < cycleNs then ecatAvgTargetWindowNs.tdiv cycleNs else 1) 1

theorem avgWindow_pos (cycleTimeUs : Int) : 1 ≤ avgWindow cycleTimeUs := le_max_right _ _

/-! ## One exchange -/

structure Exchange where
  wkc : Int
  startNs : UInt64
  endNs : UInt64
  deriving DecidableEq, Repr

def elapsedNs (start finish : UInt64) : UInt64 := if start < finish then finish - start else 0

def Exchange.ns (exchange : Exchange) : UInt64 := elapsedNs exchange.startNs exchange.endNs

/-- The cast to `int64_t`. -/
def int64OfUint64 (v : UInt64) : Int := wrapped 64 v.toNat

/-- What `ecat_run_one_cycle` records of its exchange. -/
def recordExchange (window expectedWkc : Int) (diag : CycleDiag) (exchange : Exchange) :
    CycleDiag :=
  let wkcError := exchange.wkc < expectedWkc
  let noframe := exchange.wkc = ecNoframe
  { diag with
    busCycleNs := exchange.ns
    wkcErrorCount := if wkcError then diag.wkcErrorCount + 1 else diag.wkcErrorCount
    noframeCount := if wkcError ∧ noframe then diag.noframeCount + 1 else diag.noframeCount
    cycleCount := diag.cycleCount + 1
    avgBusCycleNsSum :=
      wrappedUpdate 64 window diag.avgBusCycleNsSum (int64OfUint64 exchange.ns)
    maxBusCycleNs := if diag.maxBusCycleNs < exchange.ns then exchange.ns else diag.maxBusCycleNs
    minBusCycleNs := if exchange.ns < diag.minBusCycleNs then exchange.ns else diag.minBusCycleNs }

/-! ## One turn of the bus thread -/

structure BusTurn where
  actualWakeNs : UInt64
  expectedNs : UInt64
  /-- `none` where `ecat_run_one_cycle` does not exchange -/
  exchange : Option Exchange
  deriving DecidableEq, Repr

def BusTurn.latencyNs (turn : BusTurn) : Int :=
  wrapped 64 (int64OfUint64 turn.actualWakeNs - int64OfUint64 turn.expectedNs)

def recordLatency (window : Int) (diag : CycleDiag) (latencyNs : Int) : CycleDiag :=
  { diag with
    latencyNs := latencyNs
    minLatencyNs := if latencyNs < diag.minLatencyNs then latencyNs else diag.minLatencyNs
    maxLatencyNs := if diag.maxLatencyNs < latencyNs then latencyNs else diag.maxLatencyNs
    avgLatencyNsSum := wrappedUpdate 64 window diag.avgLatencyNsSum latencyNs }

def recordPeriod (window : Int) (diag : CycleDiag) (periodNs : UInt64) : CycleDiag :=
  { diag with
    periodNs := periodNs
    minPeriodNs := if periodNs < diag.minPeriodNs then periodNs else diag.minPeriodNs
    maxPeriodNs := if diag.maxPeriodNs < periodNs then periodNs else diag.maxPeriodNs
    avgPeriodNsSum := wrappedUpdate 64 window diag.avgPeriodNsSum (int64OfUint64 periodNs) }

structure BusStats where
  diag : CycleDiag
  prevWakeNs : Option UInt64
  deriving DecidableEq, Repr

/-- What the thread finds: the statistics of `diag_reset` with the minima seeded. -/
def startStats : BusStats where
  diag :=
    { diagReset with
      minPeriodNs := UInt64.ofNat (2 ^ 64 - 1)
      minLatencyNs := 2 ^ 63 - 1 }
  prevWakeNs := none

def recordTurn (window expectedWkc : Int) (stats : BusStats) (turn : BusTurn) : BusStats :=
  let late := recordLatency window stats.diag turn.latencyNs
  let timed :=
    match stats.prevWakeNs with
    | none => late
    | some prevWakeNs => recordPeriod window late (turn.actualWakeNs - prevWakeNs)
  let counted :=
    match turn.exchange with
    | none => timed
    | some exchange => recordExchange window expectedWkc timed exchange
  ⟨counted, some turn.actualWakeNs⟩

def recordTurns (window expectedWkc : Int) (turns : List BusTurn) : BusStats :=
  turns.foldl (recordTurn window expectedWkc) startStats

/-! ## The averages -/

inductive Timing where
  | cycle
  | period
  | latency
  deriving DecidableEq, Repr

def Timing.sum (timing : Timing) (diag : CycleDiag) : Int :=
  match timing with
  | .cycle => diag.avgBusCycleNsSum
  | .period => diag.avgPeriodNsSum
  | .latency => diag.avgLatencyNsSum

/-- What a turn adds to the sum. -/
def Timing.sample? (timing : Timing) (prevWakeNs : Option UInt64) (turn : BusTurn) : Option Int :=
  match timing with
  | .cycle => turn.exchange.map fun exchange => int64OfUint64 exchange.ns
  | .period => prevWakeNs.map fun prevWakeNs => int64OfUint64 (turn.actualWakeNs - prevWakeNs)
  | .latency => some turn.latencyNs

def Timing.samplesFrom (timing : Timing) (prevWakeNs : Option UInt64) : List BusTurn → List Int
  | [] => []
  | turn :: rest =>
      (timing.sample? prevWakeNs turn).toList ++ timing.samplesFrom (some turn.actualWakeNs) rest

def Timing.samples (timing : Timing) (turns : List BusTurn) : List Int :=
  timing.samplesFrom none turns

theorem recordTurn_sum (timing : Timing) (window expectedWkc : Int) (stats : BusStats)
    (turn : BusTurn) :
    timing.sum (recordTurn window expectedWkc stats turn).diag =
      (timing.sample? stats.prevWakeNs turn).toList.foldl (wrappedUpdate 64 window)
        (timing.sum stats.diag) := by
  obtain ⟨diag, prevWakeNs⟩ := stats
  obtain ⟨actualWakeNs, expectedNs, exchange⟩ := turn
  cases timing <;> cases prevWakeNs <;> cases exchange <;>
    simp only [recordTurn, recordLatency, recordPeriod, recordExchange, Timing.sum,
      Timing.sample?, Option.map_none, Option.map_some, Option.toList_none, Option.toList_some,
      List.foldl_cons, List.foldl_nil]

/-- A sum takes the samples of its own timing and nothing else. -/
theorem recordTurns_sum (timing : Timing) (window expectedWkc : Int) (turns : List BusTurn) :
    timing.sum (recordTurns window expectedWkc turns).diag =
      wrappedSum 64 window (timing.samples turns) := by
  have zero : timing.sum startStats.diag = 0 := by
    cases timing <;> rfl
  unfold recordTurns wrappedSum Timing.samples
  rw [← zero]
  change _ = (timing.samplesFrom startStats.prevWakeNs turns).foldl (wrappedUpdate 64 window) _
  generalize startStats = stats
  induction turns generalizing stats with
  | nil => rfl
  | cons turn rest ih =>
      rw [List.foldl_cons, ih, Timing.samplesFrom, List.foldl_append, recordTurn_sum]
      rfl

/-- The sums of the exchange, period and latency averages are bounded and fit 64
bits, and on a constant sample each average arrives at it for good. -/
theorem timing_averages_bounded_and_exact (timing : Timing) (window expectedWkc : Int)
    (bound : Nat) (turns : List BusTurn) (positive : 1 ≤ window)
    (bounded : ∀ x ∈ timing.samples turns, |x| ≤ bound) :
    (|sumOf window (timing.samples turns)| ≤ window * bound + window - 1 ∧
      |(sumOf window (timing.samples turns)).tdiv window| ≤ bound) ∧
    (window * bound + window + bound < 2 ^ 63 →
      checkedSum 64 window (timing.samples turns) = some (sumOf window (timing.samples turns)) ∧
      timing.sum (recordTurns window expectedWkc turns).diag =
        sumOf window (timing.samples turns)) ∧
    ∀ x : Int,
      (∀ k : Nat,
        |(sumOf window (timing.samples turns ++ List.replicate (k + 1) x)).tdiv window - x| ≤
          |(sumOf window (timing.samples turns ++ List.replicate k x)).tdiv window - x|) ∧
      ∃ steps : Nat, ∀ k, steps ≤ k →
        |(sumOf window (timing.samples turns ++ List.replicate k x)).tdiv window - x| = 0 := by
  have nonnegative : (0 : Int) ≤ bound := Int.natCast_nonneg bound
  have within := sumOf_abs_le positive nonnegative (timing.samples turns) bounded
  refine ⟨⟨within, average_abs_le positive within⟩, ?_, ?_⟩
  · intro small
    have fits : checkedSum 64 window (timing.samples turns) =
        some (sumOf window (timing.samples turns)) :=
      checkedSum_eq positive nonnegative small (timing.samples turns) bounded
    refine ⟨fits, ?_⟩
    rw [recordTurns_sum]
    exact wrappedSum_of_checked (by decide) _ fits
  · intro x
    exact ⟨sumOf_constant_le positive (timing.samples turns) x,
      sumOf_constant_reaches positive (timing.samples turns) x⟩

def threeTurns : List BusTurn :=
  [⟨1000000, 1000000, some ⟨3, 1001000, 1051000⟩⟩, ⟨2000500, 2000000, some ⟨3, 2001000, 2041000⟩⟩,
    ⟨2999900, 3000000, some ⟨-1, 3001000, 5001000⟩⟩]

theorem timing_averages_bounded_and_exact_three :
    |(sumOf (avgWindow 1000000) (Timing.period.samples threeTurns)).tdiv (avgWindow 1000000)| ≤
        ((1000500 : Nat) : Int) ∧
      Timing.period.sum (recordTurns (avgWindow 1000000) 3 threeTurns).diag =
        sumOf (avgWindow 1000000) (Timing.period.samples threeTurns) := by
  have result := timing_averages_bounded_and_exact .period (avgWindow 1000000) 3 1000500
    threeTurns (avgWindow_pos 1000000) (by decide)
  exact ⟨result.1.2, (result.2.1 (by decide)).2⟩

/-! ## The counters -/

/-- The statistics after `exchanges`, from a reset. -/
def recordExchanges (window expectedWkc : Int) (exchanges : List Exchange) : CycleDiag :=
  exchanges.foldl (recordExchange window expectedWkc) diagReset

structure FinalStats where
  totalCycles : UInt64
  okCycles : UInt64
  wkcErrors : UInt64
  avgUs : Int
  minUs : Nat
  maxUs : Nat
  deriving DecidableEq, Repr

def finalStats (diag : CycleDiag) (window : Int) : Option FinalStats :=
  if 0 < diag.cycleCount ∨ 0 < diag.wkcErrorCount then
    let avgNs := if 0 < window then diag.avgBusCycleNsSum.tdiv window else 0
    some
      { totalCycles := diag.cycleCount + diag.wkcErrorCount
        okCycles := diag.cycleCount
        wkcErrors := diag.wkcErrorCount
        avgUs := avgNs.tdiv 1000
        minUs := minimumUs diag.minBusCycleNs
        maxUs := diag.maxBusCycleNs.toNat / 1000 }
  else none

def wkcErrors (expectedWkc : Int) (exchanges : List Exchange) : Nat :=
  exchanges.countP fun exchange => exchange.wkc < expectedWkc

def noframes (exchanges : List Exchange) : Nat :=
  exchanges.countP fun exchange => exchange.wkc = ecNoframe

/-- The counters as they are kept, modulo 2^64. -/
structure Counted (expectedWkc : Int) (exchanges : List Exchange) (diag : CycleDiag) : Prop where
  cycles : diag.cycleCount = UInt64.ofNat exchanges.length
  errors : diag.wkcErrorCount = UInt64.ofNat (wkcErrors expectedWkc exchanges)
  lost : diag.noframeCount = UInt64.ofNat (noframes exchanges)
  least : ∀ exchange ∈ exchanges, diag.minBusCycleNs ≤ exchange.ns
  greatest : ∀ exchange ∈ exchanges, exchange.ns ≤ diag.maxBusCycleNs
  minReached : diag.minBusCycleNs = diagReset.minBusCycleNs ∨
    ∃ exchange ∈ exchanges, exchange.ns = diag.minBusCycleNs
  maxReached : diag.maxBusCycleNs = diagReset.maxBusCycleNs ∨
    ∃ exchange ∈ exchanges, exchange.ns = diag.maxBusCycleNs

theorem diagReset_counted (expectedWkc : Int) : Counted expectedWkc [] diagReset where
  cycles := rfl
  errors := rfl
  lost := rfl
  least := by simp
  greatest := by simp
  minReached := Or.inl rfl
  maxReached := Or.inl rfl

theorem uint64_ofNat_succ (n : Nat) : UInt64.ofNat (n + 1) = UInt64.ofNat n + 1 := by
  rw [UInt64.ofNat_add]
  rfl

section Extreme
variable {β : Type} {items : List Exchange} {item : Exchange} {key : Exchange → β} {kept : β}
  {better : Prop} [Decidable better]

/-- A kept extreme stays one when a better item replaces it. -/
theorem extreme_bounds (le : β → β → Prop) (refl : ∀ b, le b b)
    (trans : ∀ {a b c}, le a b → le b c → le a c)
    (replaces : better → le (key item) kept) (keeps : ¬ better → le kept (key item))
    (bounds : ∀ other ∈ items, le kept (key other)) :
    ∀ other ∈ items ++ [item], le (if better then key item else kept) (key other) := by
  intro other member
  rcases List.mem_append.mp member with earlier | last
  · have before := bounds other earlier
    split
    · rename_i improved
      exact trans (replaces improved) before
    · exact before
  · rw [List.mem_singleton.mp last]
    split
    · exact refl (key item)
    · rename_i worse
      exact keeps worse

theorem extreme_reached {start : β}
    (reached : kept = start ∨ ∃ other ∈ items, key other = kept) :
    (if better then key item else kept) = start ∨
      ∃ other ∈ items ++ [item], key other = if better then key item else kept := by
  split
  · exact Or.inr ⟨item, by simp, rfl⟩
  · rcases reached with reset | ⟨other, member, same⟩
    · exact Or.inl reset
    · exact Or.inr ⟨other, List.mem_append_left _ member, same⟩

end Extreme

theorem Counted.record {expectedWkc : Int} {exchanges : List Exchange} {diag : CycleDiag}
    (counted : Counted expectedWkc exchanges diag) (window : Int) (expected : 0 ≤ expectedWkc)
    (exchange : Exchange) :
    Counted expectedWkc (exchanges ++ [exchange])
      (recordExchange window expectedWkc diag exchange) where
  cycles := by
    rw [List.length_append, List.length_singleton, uint64_ofNat_succ, ← counted.cycles]
    rfl
  errors := by
    simp only [recordExchange, wkcErrors, List.countP_append, List.countP_singleton]
    by_cases wkcError : exchange.wkc < expectedWkc
    · rw [if_pos wkcError, if_pos (by simpa using wkcError), uint64_ofNat_succ, counted.errors]
      rfl
    · rw [if_neg wkcError, if_neg (by simpa using wkcError), counted.errors]
      rfl
  lost := by
    simp only [recordExchange, noframes, List.countP_append, List.countP_singleton]
    by_cases noframe : exchange.wkc = ecNoframe
    · have wkcError : exchange.wkc < expectedWkc := by
        rw [noframe]
        exact lt_of_lt_of_le (by decide) expected
      rw [if_pos ⟨wkcError, noframe⟩, if_pos (by simpa using noframe), uint64_ofNat_succ,
        counted.lost]
      rfl
    · rw [if_neg fun both => noframe both.2, if_neg (by simpa using noframe), counted.lost]
      rfl
  least := extreme_bounds (· ≤ ·) UInt64.le_refl UInt64.le_trans UInt64.le_of_lt UInt64.not_lt.mp
    counted.least
  greatest := extreme_bounds (· ≥ ·) UInt64.le_refl
    (fun first second => UInt64.le_trans second first) UInt64.le_of_lt UInt64.not_lt.mp
    counted.greatest
  minReached := extreme_reached counted.minReached
  maxReached := extreme_reached counted.maxReached

theorem recordExchanges_counted (window expectedWkc : Int) (expected : 0 ≤ expectedWkc)
    (exchanges : List Exchange) :
    Counted expectedWkc exchanges (recordExchanges window expectedWkc exchanges) := by
  induction exchanges using List.reverseRecOn with
  | nil => exact diagReset_counted expectedWkc
  | append_singleton earlier exchange ih =>
      rw [recordExchanges, List.foldl_append]
      exact ih.record window expected exchange

structure DescribesRun (expectedWkc : Int) (exchanges : List Exchange) (diag : CycleDiag) :
    Prop where
  cycles : diag.cycleCount.toNat = exchanges.length
  errors : diag.wkcErrorCount.toNat = wkcErrors expectedWkc exchanges
  lost : diag.noframeCount.toNat = noframes exchanges
  ordered : diag.noframeCount ≤ diag.wkcErrorCount ∧ diag.wkcErrorCount ≤ diag.cycleCount
  least : ∀ exchange ∈ exchanges, diag.minBusCycleNs ≤ exchange.ns
  minReached : exchanges ≠ [] → ∃ exchange ∈ exchanges, exchange.ns = diag.minBusCycleNs
  greatest : ∀ exchange ∈ exchanges, exchange.ns ≤ diag.maxBusCycleNs
  maxReached : exchanges ≠ [] → ∃ exchange ∈ exchanges, exchange.ns = diag.maxBusCycleNs

def TotalsConsistent (expectedWkc : Int) (exchanges : List Exchange) (final : FinalStats) : Prop :=
  final.totalCycles.toNat = exchanges.length ∧
    final.okCycles.toNat = exchanges.length - wkcErrors expectedWkc exchanges

theorem wkcErrors_le (expectedWkc : Int) (exchanges : List Exchange) :
    wkcErrors expectedWkc exchanges ≤ exchanges.length := List.countP_le_length

theorem noframes_le (expectedWkc : Int) (expected : 0 ≤ expectedWkc) (exchanges : List Exchange) :
    noframes exchanges ≤ wkcErrors expectedWkc exchanges := by
  apply List.countP_mono_left
  intro exchange _ noframe
  have lost : exchange.wkc = ecNoframe := by simpa using noframe
  rw [lost]
  exact decide_eq_true (lt_of_lt_of_le (by decide) expected)

theorem Counted.describes {expectedWkc : Int} {exchanges : List Exchange} {diag : CycleDiag}
    (counted : Counted expectedWkc exchanges diag) (expected : 0 ≤ expectedWkc)
    (short : exchanges.length < 2 ^ 64) : DescribesRun expectedWkc exchanges diag := by
  have errorsLe := wkcErrors_le expectedWkc exchanges
  have lostLe := noframes_le expectedWkc expected exchanges
  have cycles : diag.cycleCount.toNat = exchanges.length := by
    rw [counted.cycles]
    exact UInt64.toNat_ofNat_of_lt short
  have errors : diag.wkcErrorCount.toNat = wkcErrors expectedWkc exchanges := by
    rw [counted.errors]
    exact UInt64.toNat_ofNat_of_lt (lt_of_le_of_lt errorsLe short)
  have lost : diag.noframeCount.toNat = noframes exchanges := by
    rw [counted.lost]
    exact UInt64.toNat_ofNat_of_lt (lt_of_le_of_lt (lostLe.trans errorsLe) short)
  refine ⟨cycles, errors, lost, ⟨?_, ?_⟩, counted.least, ?_, counted.greatest, ?_⟩
  · rw [UInt64.le_iff_toNat_le, lost, errors]
    exact lostLe
  · rw [UInt64.le_iff_toNat_le, errors, cycles]
    exact errorsLe
  · intro nonempty
    rcases counted.minReached with reset | reached
    · obtain ⟨exchange, member⟩ := List.exists_mem_of_ne_nil exchanges nonempty
      have low := counted.least exchange member
      refine ⟨exchange, member, ?_⟩
      rw [reset] at low ⊢
      rw [UInt64.le_iff_toNat_le] at low
      have high := UInt64.toNat_lt exchange.ns
      apply UInt64.toNat_inj.mp
      change 2 ^ 64 - 1 ≤ exchange.ns.toNat at low
      change exchange.ns.toNat = 2 ^ 64 - 1
      omega
    · exact reached
  · intro nonempty
    rcases counted.maxReached with reset | reached
    · obtain ⟨exchange, member⟩ := List.exists_mem_of_ne_nil exchanges nonempty
      have high := counted.greatest exchange member
      refine ⟨exchange, member, ?_⟩
      rw [reset] at high ⊢
      exact UInt64.le_antisymm high (UInt64.le_iff_toNat_le.mpr (Nat.zero_le _))
    · exact reached

/-- The counters describe every run of fewer than 2^64 cycles; the totals of
`stop_single_master`, which adds the errors to a count that has them already,
are consistent exactly where there was no error. -/
theorem cycle_counters_describe_run_iff (inst : Instance) (window : Int)
    (exchanges : List Exchange) :
    (exchanges.length < 2 ^ 64 → DescribesRun (ecatMasterGetExpectedWkc inst) exchanges
      (recordExchanges window (ecatMasterGetExpectedWkc inst) exchanges)) ∧
    ((DescribesRun (ecatMasterGetExpectedWkc inst) exchanges
        (recordExchanges window (ecatMasterGetExpectedWkc inst) exchanges) ∧
      ∀ final, finalStats (recordExchanges window (ecatMasterGetExpectedWkc inst) exchanges)
          window = some final →
        TotalsConsistent (ecatMasterGetExpectedWkc inst) exchanges final) ↔
      exchanges.length < 2 ^ 64 ∧
        ∀ exchange ∈ exchanges, ecatMasterGetExpectedWkc inst ≤ exchange.wkc) := by
  have expected : 0 ≤ ecatMasterGetExpectedWkc inst := by
    unfold ecatMasterGetExpectedWkc
    omega
  generalize ecatMasterGetExpectedWkc inst = expectedWkc at expected ⊢
  have counted := recordExchanges_counted window expectedWkc expected exchanges
  have described := counted.describes expected
  generalize recordExchanges window expectedWkc exchanges = diag at counted described ⊢
  have noErrors : wkcErrors expectedWkc exchanges = 0 ↔
      ∀ exchange ∈ exchanges, expectedWkc ≤ exchange.wkc := by
    simp [wkcErrors, List.countP_eq_zero]
  refine ⟨described, ?_⟩
  rw [← noErrors]
  constructor
  · rintro ⟨describes, consistent⟩
    have short : exchanges.length < 2 ^ 64 := by
      rw [← describes.cycles]
      exact UInt64.toNat_lt diag.cycleCount
    refine ⟨short, ?_⟩
    by_contra some
    have errorsLe := wkcErrors_le expectedWkc exchanges
    have logged : 0 < diag.cycleCount ∨ 0 < diag.wkcErrorCount := by
      refine Or.inl (UInt64.lt_iff_toNat_lt.mpr ?_)
      rw [describes.cycles, UInt64.toNat_zero]
      omega
    have okCycles := (consistent _ (if_pos logged)).2
    dsimp only at okCycles
    rw [describes.cycles] at okCycles
    omega
  · rintro ⟨short, none⟩
    have describes := described short
    refine ⟨describes, ?_⟩
    intro final logged
    unfold finalStats at logged
    split at logged
    · cases logged
      have zero : diag.wkcErrorCount = 0 := by
        rw [counted.errors, none]
        rfl
      refine ⟨?_, ?_⟩
      · rw [zero, UInt64.add_zero]
        exact describes.cycles
      · rw [none, describes.cycles]
        rfl
    · simp at logged

/-- One output and one input slave: a full exchange has the working counter 3. -/
def pairedInstance : Instance :=
  { zeroInstance ⟨1000, 2000, []⟩ with
    ecxContext := ⟨2, ⟨some 0, some 1, 1, 1, 1, 1⟩⟩ }

/-- A run of one cycle whose frame is lost is logged as two cycles, one of them ok. -/
theorem lost_frame_counted_twice :
    ¬ ∀ (inst : Instance) (window : Int) (exchanges : List Exchange),
      DescribesRun (ecatMasterGetExpectedWkc inst) exchanges
          (recordExchanges window (ecatMasterGetExpectedWkc inst) exchanges) ∧
        ∀ final, finalStats (recordExchanges window (ecatMasterGetExpectedWkc inst) exchanges)
            window = some final →
          TotalsConsistent (ecatMasterGetExpectedWkc inst) exchanges final := by
  intro claim
  have logged : ∃ final, finalStats (recordExchanges 2000 (ecatMasterGetExpectedWkc pairedInstance)
        [⟨-1, 0, 2000000⟩]) 2000 = some final ∧
      final.totalCycles.toNat = 2 ∧ final.okCycles.toNat = 1 := by
    refine ⟨_, rfl, ?_, ?_⟩
    · decide +kernel
    · decide +kernel
  obtain ⟨final, stopped, total, _⟩ := logged
  have consistent := (claim pairedInstance 2000 [⟨-1, 0, 2000000⟩]).2 final stopped
  have one : final.totalCycles.toNat = 1 := consistent.1
  omega

theorem cycle_counters_describe_run_iff_two :
    DescribesRun (ecatMasterGetExpectedWkc pairedInstance)
        [⟨3, 1000, 51000⟩, ⟨3, 1001000, 1041000⟩]
        (recordExchanges 2000 (ecatMasterGetExpectedWkc pairedInstance)
          [⟨3, 1000, 51000⟩, ⟨3, 1001000, 1041000⟩]) ∧
      ∀ final, finalStats (recordExchanges 2000 (ecatMasterGetExpectedWkc pairedInstance)
          [⟨3, 1000, 51000⟩, ⟨3, 1001000, 1041000⟩]) 2000 = some final →
        TotalsConsistent (ecatMasterGetExpectedWkc pairedInstance)
          [⟨3, 1000, 51000⟩, ⟨3, 1001000, 1041000⟩] final := by
  refine (cycle_counters_describe_run_iff pairedInstance 2000 _).2.mpr ⟨by simp, ?_⟩
  decide

end EtherDog
