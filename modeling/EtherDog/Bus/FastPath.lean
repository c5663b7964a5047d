import EtherDog.Bus.Trigger

/-!
# The monitor's pass without a frame

In OPERATIONAL the monitor marks all slaves operational when `al_replies` has
moved since its last pass and `al_faults` has not.  The bus thread counts a
fault before its reply and the monitor loads the replies first, so a fault that
falls between the two loads is in the saved fault count without its reply being
in the saved reply count: the next pass sees a new reply and no new fault.
`LoadsSettledFaults` rules that out, and then every mark is justified.
-/

set_option autoImplicit false

namespace EtherDog

/-- The events since the monitor last loaded `al_replies`. -/
def sinceLoad (history : List ThreadEvent) : List ThreadEvent :=
  history.takeWhile fun event => decide (event ≠ .repliesLoaded)

/-- The history as the monitor's last load of `al_replies` found it. -/
def atLoad (history : List ThreadEvent) : List ThreadEvent :=
  history.dropWhile fun event => decide (event ≠ .repliesLoaded)

/-- A pass that marks all slaves operational had a healthy reply as the newest
of those in the count it loaded. -/
def MarkJustified (s : Threads) (history : List ThreadEvent) : Prop :=
  match s.monitor with
  | .loadFaults seen loaded => marksAllOperational seen loaded s.inst.alFaults = true →
      (replies (atLoad history)).head? = some true
  | _ => True

instance (s : Threads) (history : List ThreadEvent) : Decidable (MarkJustified s history) :=
  match s with
  | ⟨_, _, .loadFaults _ _⟩ => inferInstanceAs (Decidable (_ → _))
  | ⟨_, _, .start⟩ => isTrue trivial
  | ⟨_, _, .top _⟩ => isTrue trivial
  | ⟨_, _, .loadReplies _⟩ => isTrue trivial
  | ⟨_, _, .attempt _⟩ => isTrue trivial
  | ⟨_, _, .resetAttempts _⟩ => isTrue trivial
  | ⟨_, _, .resetFailures _⟩ => isTrue trivial
  | ⟨_, _, .resetWkc _⟩ => isTrue trivial
  | ⟨_, _, .storeOperational _⟩ => isTrue trivial
  | ⟨_, _, .countAttempt _⟩ => isTrue trivial
  | ⟨_, _, .storeError _⟩ => isTrue trivial

/-- No fault is waiting for its reply to be counted, and the newest reply since
the load of `al_replies`, if there is one, is healthy. -/
def FaultsSettled (s : Threads) (history : List ThreadEvent) : Prop :=
  false ∉ s.bus.pendingReply ∧ (replies (sinceLoad history)).head? ≠ some false

instance (s : Threads) (history : List ThreadEvent) : Decidable (FaultsSettled s history) :=
  inferInstanceAs (Decidable (_ ∧ _))

/-- The monitor's next step loads `al_faults`. -/
def MonitorPc.loadsFaults : MonitorPc → Bool
  | .start => true
  | .loadFaults _ _ => true
  | _ => false

/-- Every load of `al_faults`, the one at the start of the thread included, finds
the faults settled. -/
def LoadsSettledFaults : Transition.Guard Threads ThreadAction ThreadEvent
  | _, _, .bus _ => True
  | s, history, .monitor _ _ => s.monitor.loadsFaults = true → FaultsSettled s history

instance (s : Threads) (history : List ThreadEvent) (action : ThreadAction) :
    Decidable (LoadsSettledFaults s history action) :=
  match action with
  | .bus _ => isTrue trivial
  | .monitor _ _ => inferInstanceAs (Decidable (_ → _))

/-! ## The two counters -/

def faultCount (bus : BusPc) (history : List ThreadEvent) : Nat :=
  (bus.pendingReply ++ replies history).count false

/-- What a bus step does to the two counters. -/
theorem busMove_counters {s next : Threads} {events : List ThreadEvent}
    (move : BusMove s next events) :
    next.monitor = s.monitor ∧
    ((next.bus.pendingReply = s.bus.pendingReply ∧ next.inst.alFaults = s.inst.alFaults ∧
        next.inst.alReplies = s.inst.alReplies ∧
        (events = [] ∨ ∃ event, events = [event] ∧ event ≠ .repliesLoaded ∧
          ∀ history, replies (event :: history) = replies history)) ∨
      (∃ healthy, s.bus.pendingReply = [] ∧ next.bus.pendingReply = [healthy] ∧ events = [] ∧
        next.inst.alFaults = s.inst.alFaults + (if healthy then 0 else 1) ∧
        next.inst.alReplies = s.inst.alReplies) ∨
      (∃ healthy, s.bus.pendingReply = [healthy] ∧ next.bus.pendingReply = [] ∧
        events = [.replyCounted healthy] ∧ next.inst.alFaults = s.inst.alFaults ∧
        next.inst.alReplies = s.inst.alReplies + 1)) := by
  cases move with
  | @record inst monitor state input reply answered =>
      obtain ⟨_, _, _, sameReplies, _⟩ := recordAlReply_control inst reply
      refine ⟨rfl, Or.inr (Or.inl ⟨replyHealthy inst reply, rfl, rfl, rfl, ?_, sameReplies⟩)⟩
      change (recordAlReply inst reply).alFaults = _
      rcases recordAlReply_cases inst reply with ⟨healthy, _, same⟩ | ⟨faulty, _, more⟩
      · rw [same, healthy]
        simp
      · rw [more, faulty]
        simp
  | @countReply inst monitor state input healthy =>
      exact ⟨rfl, Or.inr (Or.inr ⟨healthy, rfl, rfl, rfl, rfl, rfl⟩)⟩
  | begin exchanging =>
      exact ⟨rfl, Or.inl ⟨rfl, rfl, rfl, Or.inr ⟨_, rfl, by simp, fun _ => rfl⟩⟩⟩
  | finish data calm =>
      exact ⟨rfl, Or.inl ⟨rfl, rfl, rfl, Or.inr ⟨_, rfl, by simp, fun _ => rfl⟩⟩⟩
  | storeRecovering =>
      exact ⟨rfl, Or.inl ⟨rfl, rfl, rfl, Or.inr ⟨_, rfl, by simp, fun _ => rfl⟩⟩⟩
  | _ => exact ⟨rfl, Or.inl ⟨rfl, rfl, rfl, Or.inl rfl⟩⟩

theorem sinceLoad_cons (event : ThreadEvent) (history : List ThreadEvent)
    (other : event ≠ .repliesLoaded) :
    sinceLoad (event :: history) = event :: sinceLoad history := by
  simp [sinceLoad, other]

theorem atLoad_cons (event : ThreadEvent) (history : List ThreadEvent)
    (other : event ≠ .repliesLoaded) : atLoad (event :: history) = atLoad history := by
  simp [atLoad, other]

theorem replies_append (newer older : List ThreadEvent) :
    replies (newer ++ older) = replies newer ++ replies older := by
  induction newer with
  | nil => rfl
  | cons event rest ih =>
      cases event with
      | replyCounted healthy => simp [replies, ih]
      | _ => simpa [replies] using ih

theorem replies_split (history : List ThreadEvent) :
    replies history = replies (sinceLoad history) ++ replies (atLoad history) := by
  rw [← replies_append, sinceLoad, atLoad, List.takeWhile_append_dropWhile]

/-! ## The invariant -/

/-- While no fault came in since the saved count, none is pending and the newest
reply is in the saved reply count or healthy. -/
def SeenFaults (s : Threads) (history : List ThreadEvent) (seen : SeenCounters) : Prop :=
  ∃ saved, seen.alFaults = UInt64.ofNat saved ∧ saved ≤ faultCount s.bus history ∧
    (saved = faultCount s.bus history → false ∉ s.bus.pendingReply ∧
      (s.inst.alReplies = seen.alReplies ∨ (replies history).head? = some true))

/-- The same between the two loads, for the replies loaded first. -/
def LoadedReplies (s : Threads) (history : List ThreadEvent) (seen : SeenCounters)
    (loaded : UInt64) : Prop :=
  (∃ saved, seen.alFaults = UInt64.ofNat saved ∧ saved ≤ faultCount s.bus history ∧
    (saved = faultCount s.bus history →
      loaded = seen.alReplies ∨ (replies (atLoad history)).head? = some true)) ∧
  (replies (sinceLoad history) = [] → s.inst.alReplies = loaded)

def MonitorPc.seen : MonitorPc → Option SeenCounters
  | .start => none
  | .top seen => some seen
  | .loadReplies seen => some seen
  | .loadFaults _ _ => none
  | .attempt seen => some seen
  | .resetAttempts seen => some seen
  | .resetFailures seen => some seen
  | .resetWkc seen => some seen
  | .storeOperational seen => some seen
  | .countAttempt seen => some seen
  | .storeError seen => some seen

structure FastPathInv (s : Threads) (history : List ThreadEvent) : Prop where
  faults : s.inst.alFaults = UInt64.ofNat (faultCount s.bus history)
  counted : s.inst.alReplies = UInt64.ofNat (replies history).length
  unloaded : s.monitor = .start → sinceLoad history = history
  passed : ∀ seen, s.monitor.seen = some seen → SeenFaults s history seen
  loading : ∀ seen loaded, s.monitor = .loadFaults seen loaded →
    LoadedReplies s history seen loaded

/-- What a bus step does to everything the invariant reads. -/
theorem busMove_view {s next : Threads} {history events : List ThreadEvent}
    (move : BusMove s next events) :
    atLoad (events ++ history) = atLoad history ∧
      (sinceLoad history = history → sinceLoad (events ++ history) = events ++ history) ∧
      (replies (sinceLoad (events ++ history)) = [] → replies (sinceLoad history) = [] ∧
        next.inst.alReplies = s.inst.alReplies) := by
  obtain ⟨_, steady | ⟨healthy, _, _, none, _, sameReplies⟩ | ⟨healthy, _, _, one, _⟩⟩ :=
    busMove_counters move
  · obtain ⟨_, _, sameReplies, none | ⟨event, one, other, skipped⟩⟩ := steady
    · subst none
      exact ⟨rfl, id, fun empty => ⟨empty, sameReplies⟩⟩
    · subst one
      refine ⟨atLoad_cons event history other, ?_, ?_⟩
      · intro whole
        rw [List.singleton_append, sinceLoad_cons event history other, whole]
      · intro empty
        rw [List.singleton_append, sinceLoad_cons event history other, skipped] at empty
        exact ⟨empty, sameReplies⟩
  · subst none
    exact ⟨rfl, id, fun empty => ⟨empty, sameReplies⟩⟩
  · subst one
    have other : ThreadEvent.replyCounted healthy ≠ .repliesLoaded := by simp
    refine ⟨atLoad_cons _ history other, ?_, ?_⟩
    · intro whole
      rw [List.singleton_append, sinceLoad_cons _ history other, whole]
    · intro empty
      rw [List.singleton_append, sinceLoad_cons _ history other] at empty
      simp [replies] at empty

/-- What leaves the counters as they are counts no reply in the history. -/
theorem replies_unlogged {events : List ThreadEvent}
    (unlogged : events = [] ∨ ∃ event, events = [event] ∧ event ≠ .repliesLoaded ∧
      ∀ history, replies (event :: history) = replies history) (history : List ThreadEvent) :
    replies (events ++ history) = replies history := by
  rcases unlogged with none | ⟨event, one, _, skipped⟩
  · rw [none]
    rfl
  · rw [one]
    exact skipped history

theorem busMove_faultCount {s next : Threads} {history events : List ThreadEvent}
    (move : BusMove s next events)
    (faults : s.inst.alFaults = UInt64.ofNat (faultCount s.bus history))
    (counted : s.inst.alReplies = UInt64.ofNat (replies history).length) :
    next.inst.alFaults = UInt64.ofNat (faultCount next.bus (events ++ history)) ∧
      next.inst.alReplies = UInt64.ofNat (replies (events ++ history)).length ∧
      faultCount s.bus history ≤ faultCount next.bus (events ++ history) := by
  obtain ⟨_, steady | ⟨healthy, noPending, pending, none, more, sameReplies⟩ |
    ⟨healthy, pending, noPending, one, sameFaults, more⟩⟩ := busMove_counters move
  · obtain ⟨samePending, sameFaults, sameReplies, unlogged⟩ := steady
    have sameHistory := replies_unlogged unlogged history
    have same : faultCount next.bus (events ++ history) = faultCount s.bus history := by
      rw [faultCount, samePending, sameHistory]
      rfl
    rw [same, sameHistory, sameFaults, sameReplies]
    exact ⟨faults, counted, le_refl _⟩
  · subst none
    have total : faultCount next.bus ([] ++ history) =
        faultCount s.bus history + (if healthy then 0 else 1) := by
      simp only [faultCount, pending, noPending, List.nil_append, List.singleton_append]
      cases healthy <;> simp
    rw [total, more, sameReplies, faults]
    refine ⟨?_, counted, Nat.le_add_right _ _⟩
    cases healthy <;> simp
  · subst one
    have total : faultCount next.bus ([.replyCounted healthy] ++ history) =
        faultCount s.bus history := by
      simp [faultCount, pending, noPending, replies]
    rw [total, sameFaults, more, counted]
    refine ⟨faults, ?_, le_refl _⟩
    simp [replies]

/-- A step of the bus thread keeps what the monitor knows of its last pass. -/
theorem busMove_seenFaults {s next : Threads} {history events : List ThreadEvent}
    {seen : SeenCounters} (move : BusMove s next events) (known : SeenFaults s history seen) :
    SeenFaults next (events ++ history) seen := by
  obtain ⟨saved, savedExact, bounded, current⟩ := known
  refine ⟨saved, savedExact, ?_⟩
  obtain ⟨_, steady | ⟨healthy, noPending, pending, none, _, sameReplies⟩ |
    ⟨healthy, pending, noPending, one, _, _⟩⟩ := busMove_counters move
  · obtain ⟨samePending, _, sameReplies, unlogged⟩ := steady
    have sameHistory := replies_unlogged unlogged history
    rw [faultCount, samePending, sameHistory, sameReplies]
    exact ⟨bounded, current⟩
  · subst none
    rw [faultCount, pending, List.nil_append, sameReplies]
    rw [faultCount, noPending, List.nil_append] at bounded current
    cases healthy with
    | true =>
        refine ⟨by simpa using bounded, ?_⟩
        intro same
        have unchanged : saved = (replies history).count false := by simpa using same
        exact ⟨by simp, (current unchanged).2⟩
    | false =>
        rw [List.singleton_append, List.count_cons_self]
        refine ⟨by omega, ?_⟩
        intro same
        omega
  · subst one
    rw [faultCount, noPending, List.nil_append, List.singleton_append, replies]
    rw [faultCount, pending, List.singleton_append] at bounded current
    refine ⟨bounded, ?_⟩
    intro same
    have notFault := (current same).1
    have isHealthy : healthy = true := by
      cases healthy with
      | true => rfl
      | false => simp at notFault
    exact ⟨by simp, Or.inr (by simp [isHealthy])⟩

theorem busMove_fastPath {s next : Threads} {history events : List ThreadEvent}
    (inv : FastPathInv s history) (move : BusMove s next events) :
    FastPathInv next (events ++ history) := by
  obtain ⟨faults, counted, unloaded, passed, loading⟩ := inv
  obtain ⟨faultsNow, countedNow, grows⟩ := busMove_faultCount move faults counted
  obtain ⟨sameLoad, sinceNow, emptyNow⟩ := busMove_view move
  have sameMonitor := (busMove_counters move).1
  refine ⟨faultsNow, countedNow, ?_, ?_, ?_⟩
  · intro atStart
    exact sinceNow (unloaded (sameMonitor.symm.trans atStart))
  · intro seen holds
    rw [sameMonitor] at holds
    exact busMove_seenFaults move (passed seen holds)
  · intro seen loaded atFaults
    rw [sameMonitor] at atFaults
    obtain ⟨⟨saved, savedExact, bounded, current⟩, unmoved⟩ := loading seen loaded atFaults
    refine ⟨⟨saved, savedExact, le_trans bounded grows, ?_⟩, ?_⟩
    · intro same
      rw [sameLoad]
      exact current (by omega)
    · intro empty
      obtain ⟨emptyBefore, sameReplies⟩ := emptyNow empty
      exact sameReplies.trans (unmoved emptyBefore)

/-- A load of settled faults saves a pair of counts that belong together. -/
theorem seenFaults_of_settled {inst : Instance} {bus : BusPc} {history : List ThreadEvent}
    {monitor next : MonitorPc} {loaded : UInt64}
    (faults : inst.alFaults = UInt64.ofNat (faultCount bus history))
    (settled : FaultsSettled ⟨inst, bus, monitor⟩ history)
    (unmoved : replies (sinceLoad history) = [] → inst.alReplies = loaded) :
    SeenFaults ⟨inst, bus, next⟩ history ⟨loaded, inst.alFaults⟩ := by
  refine ⟨faultCount bus history, faults, le_refl _, fun _ => ⟨settled.1, ?_⟩⟩
  cases newest : replies (sinceLoad history) with
  | nil => exact Or.inl (unmoved newest)
  | cons healthy older =>
      right
      have notFault := settled.2
      rw [newest] at notFault
      have isHealthy : healthy = true := by
        cases healthy with
        | true => rfl
        | false => simp at notFault
      rw [replies_split, newest, isHealthy]
      rfl

theorem monitorMove_fastPath {s next : Threads} {history events : List ThreadEvent}
    (inv : FastPathInv s history)
    (settled : s.monitor.loadsFaults = true → FaultsSettled s history)
    (move : MonitorMove s next events) : FastPathInv next (events ++ history) := by
  obtain ⟨faults, counted, unloaded, passed, loading⟩ := inv
  cases move with
  | @start inst bus =>
      refine ⟨faults, counted, by simp, ?_, by simp⟩
      intro seen holds
      cases Option.some.inj holds
      apply seenFaults_of_settled faults (settled rfl)
      intro none
      have noReplies : replies history = [] := by
        rw [unloaded rfl] at none
        exact none
      have zero : inst.alReplies = UInt64.ofNat (replies history).length := counted
      rw [zero, noReplies]
      rfl
  | @loadReplies inst bus seen =>
      refine ⟨faults, counted, by simp, by simp [MonitorPc.seen], ?_⟩
      intro same loaded atFaults
      cases atFaults
      obtain ⟨saved, savedExact, bounded, current⟩ := passed seen rfl
      refine ⟨⟨saved, savedExact, bounded, ?_⟩, fun _ => rfl⟩
      intro unchanged
      exact (current unchanged).2
  | mark marks =>
      refine ⟨faults, counted, by simp, ?_, by simp⟩
      intro seen holds
      cases Option.some.inj holds
      exact seenFaults_of_settled faults (settled rfl) (loading _ _ rfl).2
  | readStates reads =>
      refine ⟨faults, counted, by simp, ?_, by simp⟩
      intro seen holds
      cases Option.some.inj holds
      exact seenFaults_of_settled faults (settled rfl) (loading _ _ rfl).2
  | _ => exact ⟨faults, counted, by simp, passed, by simp⟩

theorem reaches_fastPath {masterIndex : Nat} {inst : Instance} {s : Threads}
    {history : List ThreadEvent} (started : Started inst)
    (reached : Transition.Reaches (threadStep masterIndex) LoadsSettledFaults (threadsOf inst)
      s history) :
    FastPathInv s history := by
  apply reached.invariant FastPathInv
  · refine ⟨?_, ?_, fun _ => rfl, by simp [threadsOf, MonitorPc.seen], by simp [threadsOf]⟩
    · simp [threadsOf, started.alFaults, faultCount, BusPc.pendingReply, replies]
    · simp [threadsOf, started.alReplies, replies]
  · intro state history action next events inv allowed move
    cases action with
    | bus input =>
        exact busMove_fastPath inv
          (busStep_move masterIndex state next input events (Option.some.inj move))
    | monitor states failures =>
        exact monitorMove_fastPath inv allowed
          (monitorStep_move state next states failures events (Option.some.inj move))

theorem faultCount_le (bus : BusPc) (history : List ThreadEvent) :
    faultCount bus history ≤ (replies history).length + 1 := by
  have counted := List.count_le_length (a := false) (l := bus.pendingReply ++ replies history)
  have pending : bus.pendingReply.length ≤ 1 := by
    cases bus <;> simp [BusPc.pendingReply]
  rw [List.length_append] at counted
  unfold faultCount
  omega

/-- The pass without a frame hides no fault as long as every load of `al_faults`
finds the faults settled and the counters have not wrapped. -/
theorem fast_path_hides_no_fault (masterIndex : Nat) (inst : Instance) (started : Started inst)
    (s : Threads) (history : List ThreadEvent)
    (reached : Transition.Reaches (threadStep masterIndex) LoadsSettledFaults (threadsOf inst)
      s history)
    (unwrapped : (replies history).length + 1 < 2 ^ 64) : MarkJustified s history := by
  have inv := reaches_fastPath started reached
  unfold MarkJustified
  split
  · rename_i seen loaded atFaults
    intro marks
    rw [marksAllOperational, Bool.and_eq_true, bne_iff_ne, beq_iff_eq] at marks
    obtain ⟨moved, sameFaults⟩ := marks
    obtain ⟨⟨saved, savedExact, bounded, current⟩, _⟩ := inv.loading seen loaded atFaults
    have few := faultCount_le s.bus history
    rw [inv.faults, savedExact] at sameFaults
    have same : saved = faultCount s.bus history := by
      have words := congrArg UInt64.toNat sameFaults
      rw [UInt64.toNat_ofNat', UInt64.toNat_ofNat', Nat.mod_eq_of_lt (by omega),
        Nat.mod_eq_of_lt (by omega)] at words
      exact words.symm
    rcases current same with unmoved | healthy
    · exact absurd unmoved moved
    · exact healthy
  · trivial

theorem fast_path_hides_no_fault_fake :
    ∃ s history, Transition.Reaches (threadStep 0) LoadsSettledFaults (threadsOf fakeStarted)
        s history ∧
      s.monitor = .loadFaults ⟨0, 0⟩ 1 ∧ (replies (atLoad history)).head? = some true := by
  obtain ⟨s, history, reached, loading, marks, few⟩ := Transition.exists_of_execute
    (threadStep 0) LoadsSettledFaults (threadsOf fakeStarted)
    ([.monitor [] 0] ++ List.replicate 5 (.bus (quietCycle 3 (some healthyReply))) ++
      List.replicate 2 (.monitor [] 0))
    (fun s history => s.monitor = .loadFaults ⟨0, 0⟩ 1 ∧
      marksAllOperational ⟨0, 0⟩ 1 s.inst.alFaults = true ∧ (replies history).length = 1)
    (by decide +kernel)
  have justified := fast_path_hides_no_fault 0 fakeStarted fakeStarted_started s history reached
    (by rw [few]; decide)
  rw [MarkJustified, loading] at justified
  exact ⟨s, history, reached, loading, justified marks⟩

/-- An unhealthy reply between the two loads of one pass: the next pass marks. -/
theorem fault_between_loads_hidden :
    ¬ ∀ (masterIndex : Nat) (inst : Instance), Started inst → ∀ s history,
      Transition.Reaches (threadStep masterIndex) Transition.anyStep (threadsOf inst) s history →
        MarkJustified s history := by
  intro always
  obtain ⟨s, history, reached, hidden⟩ := Transition.exists_of_execute (threadStep 0)
    Transition.anyStep (threadsOf fakeStarted)
    (List.replicate 3 (.monitor [] 0) ++
      List.replicate 5 (.bus (quietCycle 3 (some faultyReply))) ++
      List.replicate 3 (.monitor [] 0))
    (fun s history => ¬ MarkJustified s history) (by decide +kernel)
  exact hidden (always 0 fakeStarted fakeStarted_started s history reached)

end EtherDog
