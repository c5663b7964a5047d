import EtherDog.Lib.Transition
import EtherDog.Data.Calls

/-!
# The output watchdog

The first part is the meaning of one session: after any calls, the output
region and the trip counter are read off the accepted frames.  The second part
lets sessions come and go between the calls.  There the counter restarts with
every open, so old outputs outlive the timeout when a session is opened over
outputs that have already been quiet for a while; `Transition.Reaches` over
opens that do not do this gives the bound for whole runs.

Calls and histories are listed newest first.
-/

set_option autoImplicit false

namespace EtherDog

/-! ## The timeout in cycles -/

theorem timeoutCycles_eq (inst : Instance) :
    ((timeoutCycles inst).toNat : Int) = max 3 (100000 /
      (if inst.config.cycleTimeUs > 0 then inst.config.cycleTimeUs else 1000)) := by
  have positive : 0 < if inst.config.cycleTimeUs > 0 then inst.config.cycleTimeUs else 1000 := by
    split
    · assumption
    · decide
  simp only [timeoutCycles]
  generalize (if inst.config.cycleTimeUs > 0 then inst.config.cycleTimeUs else 1000) = cycle
    at positive
  have quotient : (ecatDataTimeoutMs * 1000).tdiv cycle = 100000 / cycle :=
    Int.tdiv_eq_ediv_of_nonneg (by decide)
  have nonneg : 0 ≤ (100000 : Int) / cycle := Int.ediv_nonneg (by decide) (le_of_lt positive)
  have bounded : (100000 : Int) / cycle ≤ 100000 := Int.ediv_le_self cycle (by decide)
  have exactNat : (UInt32.ofNat ((100000 : Int) / cycle).toNat).toNat =
      ((100000 : Int) / cycle).toNat := by
    rw [UInt32.toNat_ofNat']
    apply Nat.mod_eq_of_lt
    omega
  simp only [quotient]
  split
  · rename_i few
    rw [UInt32.lt_iff_toNat_lt, exactNat] at few
    have three : (3 : UInt32).toNat = 3 := rfl
    omega
  · rename_i many
    rw [UInt32.lt_iff_toNat_lt, exactNat] at many
    have three : (3 : UInt32).toNat = 3 := rfl
    rw [exactNat]
    omega

theorem timeoutCycles_bounds (inst : Instance) :
    3 ≤ (timeoutCycles inst).toNat ∧ (timeoutCycles inst).toNat ≤ 100000 := by
  have value := timeoutCycles_eq inst
  have bounded := Int.ediv_le_self
    (if inst.config.cycleTimeUs > 0 then inst.config.cycleTimeUs else 1000)
    (show (0 : Int) ≤ 100000 by decide)
  omega

theorem watchdogParams_wide (inst : Instance) :
    (watchdogParams inst).limit + 1 < (watchdogParams inst).modulus := by
  have bounds := timeoutCycles_bounds inst
  simp only [watchdogParams]
  omega

/-- The trip comes after more than 100 ms, and within one further cycle where
the timeout is not rounded up to three cycles. -/
theorem timeoutCycles_duration (inst : Instance) (positive : 0 < inst.config.cycleTimeUs) :
    100000 < ((timeoutCycles inst).toNat + 1) * inst.config.cycleTimeUs ∧
      (inst.config.cycleTimeUs < 33334 →
        ((timeoutCycles inst).toNat + 1) * inst.config.cycleTimeUs ≤
          100000 + inst.config.cycleTimeUs) := by
  have value := timeoutCycles_eq inst
  rw [if_pos positive] at value
  generalize inst.config.cycleTimeUs = cycle at positive value
  have product := Int.mul_ediv_add_emod 100000 cycle
  have remainderLow := Int.emod_nonneg 100000 (ne_of_gt positive)
  have remainderHigh := Int.emod_lt_of_pos 100000 positive
  rw [value]
  constructor
  · have least : 100000 / cycle ≤ max 3 (100000 / cycle) := le_max_right _ _
    calc
      (100000 : Int) < (100000 / cycle + 1) * cycle := by linarith
      _ ≤ (max 3 (100000 / cycle) + 1) * cycle := by gcongr
  · intro short
    have atLeastThree : 3 ≤ 100000 / cycle := (Int.le_ediv_iff_mul_le positive).mpr (by omega)
    rw [max_eq_right atLeastThree]
    linarith

/-! ## The calls of one session -/

section Session
variable (masterIndex : Nat) (opened : Instance)

/-- The master after calls that drain the given batches. -/
def sessionAfter : List (List Datagram) → Instance
  | [] => opened
  | newest :: earlier => ecatDataApplyOutputs (sessionAfter earlier) masterIndex true newest

def sessionCalls : List (List Datagram) → List (List AcceptedFrame)
  | [] => []
  | newest :: earlier =>
      callFrames (sessionAfter masterIndex opened earlier) masterIndex newest ::
        sessionCalls earlier

end Session

/-- How many calls ago the last accepting call was, or the open before any. -/
def callsSinceAccept (calls : List (List AcceptedFrame)) : Nat :=
  (calls.takeWhile List.isEmpty).length

def lastAccepted (calls : List (List AcceptedFrame)) : Option AcceptedFrame :=
  calls.findSome? List.getLast?

theorem batchCall_of_getLast (frames : List AcceptedFrame) (frame : AcceptedFrame)
    (last : frames.getLast? = some frame) :
    batchCall frames = if frame.valid then .fresh frame.payload else .release := by
  simp only [batchCall, last]

theorem silence_calls (calls : List (List AcceptedFrame)) :
    Deadman.silence (calls.map batchCall) = callsSinceAccept calls := by
  induction calls with
  | nil => rfl
  | cons newest earlier ih =>
      by_cases empty : newest = []
      · simp only [List.map_cons, empty, (batchCall_quiet_iff []).mpr rfl, Deadman.silence, ih,
          callsSinceAccept, List.takeWhile_cons, List.isEmpty_nil, if_true, List.length_cons]
      · have spoken : batchCall newest ≠ .quiet := fun quiet =>
          empty ((batchCall_quiet_iff newest).mp quiet)
        have notEmpty : newest.isEmpty = false := by simpa using empty
        simp only [List.map_cons, callsSinceAccept, List.takeWhile_cons, notEmpty]
        cases word : batchCall newest with
        | fresh value => rfl
        | release => rfl
        | quiet => exact absurd word spoken

theorem lastWord_calls (calls : List (List AcceptedFrame)) :
    Deadman.lastWord (calls.map batchCall) = (lastAccepted calls).map fun frame =>
      if frame.valid then some frame.payload else none := by
  induction calls with
  | nil => rfl
  | cons newest earlier ih =>
      cases last : newest.getLast? with
      | none =>
          have quiet : batchCall newest = .quiet := by simp only [batchCall, last]
          simp only [List.map_cons, quiet, Deadman.lastWord, ih, lastAccepted,
            List.findSome?_cons, last]
      | some frame =>
          simp only [List.map_cons, batchCall_of_getLast newest frame last, lastAccepted,
            List.findSome?_cons, last, Option.map_some]
          split <;> rfl

/-- The run lemma: a session follows the switch armed by its open. -/
theorem session_simulates (masterIndex : Nat) (opened : Instance)
    (batches : List (List Datagram)) (start : OpenSession opened)
    (armed : opened.data.outputsZeroed = false) (cleared : opened.data.cyclesSinceOutput = 0) :
    let after := sessionAfter masterIndex opened batches
    OpenSession after ∧ SameMaster opened after ∧
      Watches opened.data.watchdogTrips after
        (Deadman.after (watchdogParams opened) (Deadman.armed (outputRegion opened))
          ((sessionCalls masterIndex opened batches).map batchCall)) := by
  induction batches with
  | nil =>
      refine ⟨start, ⟨rfl, rfl, rfl, rfl⟩, rfl, armed, ?_, ?_⟩
      · simp [sessionAfter, cleared, sessionCalls, Deadman.after, Deadman.armed]
      · simp [sessionAfter, sessionCalls, Deadman.after, Deadman.armed]
  | cons newest earlier ih =>
      obtain ⟨isOpen, same, watches⟩ := ih
      obtain ⟨stillOpen, sameNow⟩ := applyOutputs_openSession _ masterIndex newest isOpen
      have call := applyOutputs_simulates _ masterIndex newest _ _ isOpen watches
      rw [same.watchdogParams] at call
      exact ⟨stillOpen, same.trans sameNow, call⟩

/-- The meaning of one data session, after any number of calls. -/
theorem session_meaning (masterIndex : Nat) (inst opened : Instance) (mapped : Mapped inst)
    (fits : BuffersFit inst.layout.outputBytes inst.data) (endpoint : Option SockAddr)
    (socket : Option Nat) (random id : UInt64)
    (success : ecatDataOpen inst endpoint socket random = (opened, some id))
    (batches : List (List Datagram)) :
    let after := sessionAfter masterIndex opened batches
    let calls := sessionCalls masterIndex opened batches
    let T := (timeoutCycles inst).toNat
    let cycle := inst.config.cycleTimeUs
    (∀ frame, lastAccepted calls = some frame → callsSinceAccept calls ≤ T →
        outputRegion after = if frame.valid then frame.payload
          else zeros inst.layout.outputBytes) ∧
      (T < callsSinceAccept calls → outputRegion after = zeros inst.layout.outputBytes) ∧
      (lastAccepted calls = none → callsSinceAccept calls ≤ T →
        outputRegion after = outputRegion inst) ∧
      (after.data.outputsZeroed = true → outputRegion after = zeros inst.layout.outputBytes) ∧
      after.data.watchdogTrips =
        inst.data.watchdogTrips + UInt64.ofNat (Deadman.longGaps T (calls.map batchCall)) ∧
      (0 < cycle → (T : Int) = max 3 (100000 / cycle) ∧ 100000 < (T + 1) * cycle ∧
        (cycle < 33334 → (T + 1) * cycle ≤ 100000 + cycle)) := by
  intro after calls T cycle
  have start := ecatDataOpen_openSession inst opened endpoint socket random id mapped fits success
  obtain ⟨peer, fd, _, _, openedExact⟩ :=
    ecatDataOpen_success inst opened endpoint socket random id success
  have armed : opened.data.outputsZeroed = false := by rw [openedExact]
  have cleared : opened.data.cyclesSinceOutput = 0 := by rw [openedExact]
  have sameTrips : opened.data.watchdogTrips = inst.data.watchdogTrips := by
    rw [openedExact]
    rfl
  have sameRegion : outputRegion opened = outputRegion inst := by
    rw [openedExact]
    rfl
  have sameParams : watchdogParams opened = watchdogParams inst := by
    rw [openedExact]
    rfl
  obtain ⟨_, _, watches⟩ := session_simulates masterIndex opened batches start armed cleared
  rw [sameParams, sameRegion, sameTrips] at watches
  have wide := watchdogParams_wide inst
  have region : outputRegion after =
      Deadman.expectedValue (watchdogParams inst) (outputRegion inst) (calls.map batchCall) :=
    watches.value.trans (Deadman.after_value _ _ wide _)
  have limit : (watchdogParams inst).limit = T := rfl
  rw [Deadman.expectedValue, silence_calls, lastWord_calls, limit] at region
  refine ⟨?_, ?_, ?_, ?_, ?_, ?_⟩
  · intro frame last recent
    rw [if_neg (Nat.not_lt.mpr recent), last] at region
    by_cases valid : frame.valid = true
    · simpa [valid] using region
    · simpa [valid, watchdogParams] using region
  · intro late
    rwa [if_pos late] at region
  · intro silent recent
    rwa [if_neg (Nat.not_lt.mpr recent), silent] at region
  · intro zeroed
    rw [watches.safe] at zeroed
    exact watches.value.trans (Deadman.after_safe_value _ _ wide _ zeroed)
  · rw [watches.trips, Deadman.after_trips _ _ wide]
    rfl
  · intro positive
    have value := timeoutCycles_eq inst
    rw [if_pos positive] at value
    exact ⟨value, timeoutCycles_duration inst positive⟩

theorem session_meaning_fake :
    outputRegion (sessionAfter 0 (fakeOpen 1000) [[], [sendOutputs 1 1 [0xAA]]]) = [0xAA] :=
  (session_meaning 0 (fakeReady 1000) (fakeOpen 1000) (fakeReady_mapped 1000)
    (fakeReady_fits 1000) (some fakeClient) (some 3) 7 7 rfl
    [[], [sendOutputs 1 1 [0xAA]]]).1
      ⟨⟨1, 1, 0, 1, 7, 1, 1, 0⟩, [0xAA]⟩ (by decide) (by decide)

/-! ## Sessions that come and go -/

inductive DataAction where
  | openSession (endpoint : Option SockAddr) (socket : Option Nat) (random : UInt64)
  | closeSession
  | applyOutputs (lockFree : Bool) (queue : List Datagram)

/-- The control thread and the bus thread of one master.  A call that takes the
session lock logs whether it accepted a frame. -/
def dataStep (masterIndex : Nat) : Transition.Step Instance DataAction Bool
  | inst, .openSession endpoint socket random =>
      some ((ecatDataOpen inst endpoint socket random).1, [])
  | inst, .closeSession => some (ecatDataClose inst, [])
  | inst, .applyOutputs lockFree queue =>
      some (ecatDataApplyOutputs inst masterIndex lockFree queue,
        if lockFree then
          [inst.data.isOpen && !(callFrames inst masterIndex queue).isEmpty] else [])

/-- No accepted frame in the last `T + 1` calls, so the region is zero. -/
def WatchdogHolds (inst : Instance) (history : List Bool) : Prop :=
  (∀ accepted ∈ history.take ((timeoutCycles inst).toNat + 1), accepted = false) →
    outputRegion inst = zeros inst.layout.outputBytes

instance (inst : Instance) (history : List Bool) : Decidable (WatchdogHolds inst history) :=
  inferInstanceAs (Decidable (_ → _))

/-- A mapped master with its frame buffers and nothing in its output region. -/
structure FreshMaster (inst : Instance) : Prop where
  mapped : Mapped inst
  fits : BuffersFit inst.layout.outputBytes inst.data
  quiet : outputRegion inst = zeros inst.layout.outputBytes

/-- An open that gets an endpoint and a socket finds the outputs zero or written
by the latest call. -/
def OpensOverCurrentOutputs : Transition.Guard Instance DataAction Bool
  | inst, _, .openSession endpoint socket _ =>
      endpoint ≠ none → socket ≠ none →
        outputRegion inst = zeros inst.layout.outputBytes ∨ inst.data.cyclesSinceOutput = 0
  | _, _, _ => True

instance (inst : Instance) (history : List Bool) (action : DataAction) :
    Decidable (OpensOverCurrentOutputs inst history action) :=
  match action with
  | .openSession _ _ _ => inferInstanceAs (Decidable (_ → _ → _))
  | .closeSession => isTrue trivial
  | .applyOutputs _ _ => isTrue trivial

def quietCalls (history : List Bool) : Nat := (history.takeWhile (· == false)).length

theorem quietCalls_of_take (history : List Bool) (count : Nat)
    (quiet : ∀ accepted ∈ history.take count, accepted = false) :
    count ≤ quietCalls history ∨ ∀ accepted ∈ history, accepted = false := by
  induction history generalizing count with
  | nil => exact Or.inr (by simp)
  | cons newest earlier ih =>
      cases count with
      | zero => exact Or.inl (Nat.zero_le _)
      | succ count =>
          rw [List.take_succ_cons] at quiet
          have newestQuiet : newest = false := quiet newest (by simp)
          subst newestQuiet
          have earlierQuiet : ∀ accepted ∈ earlier.take count, accepted = false := by
            intro accepted member
            exact quiet accepted (List.mem_cons_of_mem _ member)
          rcases ih count earlierQuiet with long | always
          · left
            simpa [quietCalls] using long
          · right
            intro accepted member
            rcases List.mem_cons.mp member with same | older
            · exact same
            · exact always accepted older

/-- The switch as it stands in the session, its trips not counted. -/
def watchdogView (inst : Instance) : Deadman.State (List UInt8) :=
  ⟨outputRegion inst, inst.data.outputsZeroed, inst.data.cyclesSinceOutput.toNat, 0⟩

theorem watchdogView_watches (inst : Instance) :
    Watches inst.data.watchdogTrips inst (watchdogView inst) :=
  ⟨rfl, rfl, rfl, by simp [watchdogView]⟩

theorem live_of_watches {base : UInt64} {inst : Instance} {switch : Deadman.State (List UInt8)}
    {params : Deadman.Params (List UInt8)} {silent : Nat} (watches : Watches base inst switch)
    (live : Deadman.Live params switch silent) :
    Deadman.Live params (watchdogView inst) silent := by
  simpa only [Deadman.Live, watchdogView, watches.value, watches.safe, watches.quiet] using live

structure WatchdogInv (inst : Instance) (history : List Bool) : Prop where
  mapped : Mapped inst
  fits : BuffersFit inst.layout.outputBytes inst.data
  live : Deadman.Live (watchdogParams inst) (watchdogView inst) (quietCalls history)
  unheard : (∀ accepted ∈ history, accepted = false) →
    outputRegion inst = zeros inst.layout.outputBytes

theorem WatchdogInv.holds {inst : Instance} {history : List Bool}
    (inv : WatchdogInv inst history) : WatchdogHolds inst history := by
  intro quiet
  rcases quietCalls_of_take history _ quiet with long | always
  · rcases inv.live with isZero | ⟨_, _, recent⟩
    · exact isZero
    · have limit : (watchdogParams inst).limit = (timeoutCycles inst).toNat := rfl
      omega
  · exact inv.unheard always

theorem close_inv {inst : Instance} {history : List Bool} (inv : WatchdogInv inst history) :
    WatchdogInv (ecatDataClose inst) history :=
  ⟨inv.mapped, ⟨inv.fits.payloadFits, inv.fits.rxSize, inv.fits.rxAllocated, inv.fits.latestRoom⟩,
    inv.live, inv.unheard⟩

theorem open_inv {inst : Instance} {history : List Bool} (inv : WatchdogInv inst history)
    (endpoint : Option SockAddr) (socket : Option Nat) (random : UInt64)
    (allowed : OpensOverCurrentOutputs inst history (.openSession endpoint socket random)) :
    WatchdogInv (ecatDataOpen inst endpoint socket random).1 history := by
  cases result : ecatDataOpen inst endpoint socket random with
  | mk opened answer =>
      cases answer with
      | some id =>
          obtain ⟨peer, fd, peerGiven, socketGiven, rfl⟩ :=
            ecatDataOpen_success inst opened endpoint socket random id result
          have clean := allowed (by simp [peerGiven]) (by simp [socketGiven])
          have rearmed := Deadman.rearm_live (watchdogParams inst) (watchdogView inst)
            (quietCalls history) inv.live (by
              rcases clean with isZero | current
              · exact Or.inl isZero
              · right
                simp [watchdogView, current])
          exact ⟨inv.mapped, ⟨inv.fits.payloadFits, inv.fits.rxSize, inv.fits.rxAllocated,
            inv.fits.latestRoom⟩, rearmed, inv.unheard⟩
      | none =>
          rcases ecatDataOpen_failure inst opened endpoint socket random result with
            same | closed
          · rw [same]
            exact inv
          · rw [closed]
            exact close_inv inv

theorem busy_inv {inst : Instance} {history : List Bool} (inv : WatchdogInv inst history)
    (masterIndex : Nat) (queue : List Datagram) :
    WatchdogInv (ecatDataApplyOutputs inst masterIndex false queue) history := by
  obtain ⟨memory, region, _, regionExact, _⟩ := inv.mapped
  have unchanged : ecatDataApplyOutputs inst masterIndex false queue = inst := by
    simp [ecatDataApplyOutputs, regionExact]
  rw [unchanged]
  exact inv

/-- Without a session a call zeroes the region, unless it is zero already. -/
theorem closed_inv {inst : Instance} {history : List Bool} (inv : WatchdogInv inst history)
    (masterIndex : Nat) (queue : List Datagram) (closed : inst.data.isOpen = false) :
    WatchdogInv (ecatDataApplyOutputs inst masterIndex true queue) (false :: history) := by
  obtain ⟨memory, region, memoryExact, regionExact, inside⟩ := inv.mapped
  by_cases armed : inst.data.outputsZeroed = false
  · have call : ecatDataApplyOutputs inst masterIndex true queue =
        { writeIomap inst region (zeros inst.layout.outputBytes) with
          data := { inst.data with outputsZeroed := true } } := by
      simp [ecatDataApplyOutputs, regionExact, closed, armed]
    obtain ⟨isZero, stillMapped⟩ := writeIomap_region inst region memory
      (zeros inst.layout.outputBytes) { inst.data with outputsZeroed := true } memoryExact
      regionExact inside (zeros_length _)
    rw [call]
    exact ⟨stillMapped, ⟨inv.fits.payloadFits, inv.fits.rxSize, inv.fits.rxAllocated,
      inv.fits.latestRoom⟩, Or.inl isZero, fun _ => isZero⟩
  · have call : ecatDataApplyOutputs inst masterIndex true queue = inst := by
      simp [ecatDataApplyOutputs, regionExact, closed, armed]
    have isZero : outputRegion inst = zeros inst.layout.outputBytes := by
      rcases inv.live with isZero | ⟨notZeroed, _⟩
      · exact isZero
      · exact absurd notZeroed armed
    rw [call]
    exact ⟨inv.mapped, inv.fits, Or.inl isZero, fun _ => isZero⟩

theorem call_inv {inst : Instance} {history : List Bool} (inv : WatchdogInv inst history)
    (masterIndex : Nat) (queue : List Datagram) (isOpen : inst.data.isOpen = true) :
    WatchdogInv (ecatDataApplyOutputs inst masterIndex true queue)
      ((!(callFrames inst masterIndex queue).isEmpty) :: history) := by
  have opened : OpenSession inst := ⟨inv.mapped, isOpen, inv.fits⟩
  obtain ⟨stillOpen, same⟩ := applyOutputs_openSession inst masterIndex queue opened
  have watches := applyOutputs_simulates inst masterIndex queue _ _ opened
    (watchdogView_watches inst)
  by_cases empty : callFrames inst masterIndex queue = []
  · rw [(batchCall_quiet_iff _).mpr empty] at watches
    have live := Deadman.call_live_quiet _ _ _ (watchdogParams_wide inst) inv.live
    refine ⟨stillOpen.mapped, stillOpen.fits, ?_, ?_⟩
    · rw [same.watchdogParams]
      simpa [empty, quietCalls] using live_of_watches watches live
    · intro always
      have isZero := inv.unheard fun accepted member =>
        always accepted (List.mem_cons_of_mem _ member)
      rw [watches.value, same.layout, Deadman.call]
      split
      · rfl
      · exact isZero
  · have spoken : batchCall (callFrames inst masterIndex queue) ≠ .quiet := fun quiet =>
      empty ((batchCall_quiet_iff _).mp quiet)
    have live := Deadman.call_live_word (watchdogParams inst) (watchdogView inst) _ spoken
    refine ⟨stillOpen.mapped, stillOpen.fits, ?_, ?_⟩
    · rw [same.watchdogParams]
      simpa [empty, quietCalls] using live_of_watches watches live
    · intro always
      have heard := always _ (List.mem_cons_self)
      simp [empty] at heard

theorem dataStep_inv {inst next : Instance} {history events : List Bool} {masterIndex : Nat}
    {action : DataAction} (inv : WatchdogInv inst history)
    (allowed : OpensOverCurrentOutputs inst history action)
    (move : dataStep masterIndex inst action = some (next, events)) :
    WatchdogInv next (events ++ history) := by
  cases action with
  | openSession endpoint socket random =>
      cases Option.some.inj move
      exact open_inv inv endpoint socket random allowed
  | closeSession =>
      cases Option.some.inj move
      exact close_inv inv
  | applyOutputs lockFree queue =>
      cases Option.some.inj move
      cases lockFree with
      | false => exact busy_inv inv masterIndex queue
      | true =>
          cases isOpen : inst.data.isOpen with
          | false => exact closed_inv inv masterIndex queue isOpen
          | true => exact call_inv inv masterIndex queue isOpen

/-- The watchdog over whole runs: it bounds the life of old outputs as long as
no session is opened over outputs that have been quiet for a call or more. -/
theorem watchdog_bounds_old_outputs (masterIndex : Nat) (initial : Instance)
    (fresh : FreshMaster initial) (inst : Instance) (history : List Bool)
    (reached : Transition.Reaches (dataStep masterIndex) OpensOverCurrentOutputs initial
      inst history) :
    WatchdogHolds inst history := by
  have start : WatchdogInv initial [] :=
    ⟨fresh.mapped, fresh.fits, Or.inl fresh.quiet, fun _ => fresh.quiet⟩
  have inv := reached.invariant WatchdogInv start
    fun _ _ _ _ _ inv allowed move => dataStep_inv inv allowed move
  exact inv.holds

theorem fakeReady_fresh (cycleTimeUs : Int) : FreshMaster (fakeReady cycleTimeUs) :=
  ⟨fakeReady_mapped cycleTimeUs, fakeReady_fits cycleTimeUs, rfl⟩

theorem watchdog_bounds_old_outputs_fake :
    ∃ inst, Transition.Reaches (dataStep 0) OpensOverCurrentOutputs (fakeReady 100000) inst
        [false, false, false, false, true] ∧
      outputRegion inst = zeros inst.layout.outputBytes := by
  obtain ⟨inst, history, reached, trace⟩ := Transition.exists_of_execute (dataStep 0)
    OpensOverCurrentOutputs (fakeReady 100000)
    [.openSession (some fakeClient) (some 3) 7, .applyOutputs true [sendOutputs 1 1 [0xAA]],
      .applyOutputs true [], .applyOutputs true [], .applyOutputs true [], .applyOutputs true []]
    (fun inst history => history = [false, false, false, false, true] ∧ timeoutCycles inst = 3)
    (by decide)
  obtain ⟨rfl, three⟩ := trace
  refine ⟨inst, reached, ?_⟩
  apply watchdog_bounds_old_outputs 0 (fakeReady 100000) (fakeReady_fresh 100000) inst _ reached
  rw [three]
  decide

/-- Reopening the session keeps the old outputs alive: a valid frame, two quiet
calls, a second open and two more quiet calls, with a timeout of three. -/
theorem reopen_extends_old_outputs :
    ¬ ∀ (masterIndex : Nat) (initial : Instance), FreshMaster initial →
      ∀ inst history,
        Transition.Reaches (dataStep masterIndex) Transition.anyStep initial inst history →
          WatchdogHolds inst history := by
  intro always
  obtain ⟨inst, history, reached, escapes⟩ := Transition.exists_of_execute (dataStep 0)
    Transition.anyStep (fakeReady 100000)
    [.openSession (some fakeClient) (some 3) 7,
      .applyOutputs true [sendOutputs 1 1 [0xAA]], .applyOutputs true [], .applyOutputs true [],
      .openSession (some fakeClient) (some 3) 8, .applyOutputs true [], .applyOutputs true []]
    (fun inst history => ¬ WatchdogHolds inst history) (by decide)
  exact escapes (always 0 (fakeReady 100000) (fakeReady_fresh 100000) inst history reached)

end EtherDog
