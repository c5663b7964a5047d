import EtherDog.Lib.Transition
import EtherDog.Log.Entries

/-!
# The log sink (src/log.c)

`sink_thread` with the threads that log beside it.  Its cursor `sent` is moved
to the oldest id under the mutex; `pthread_cond_timedwait` then gives the mutex
up, and the slot of the cursor is read when it has it back.  A wait ends at any
time: it is signalled, times out or wakes up by itself.  The text of the line
is left out.

Events say which entry was sent for which id, and which ids the cursor passed
with the oldest id at that moment.
-/

set_option autoImplicit false

namespace EtherDog

open Transition

inductive SinkPhase where
  | disconnected
  | connected
  | waiting
  | sending (entry : LogEntry)
  | stopped
  deriving DecidableEq, Repr

structure SinkState where
  log : LogState
  phase : SinkPhase
  sent : Nat

inductive SinkEvent where
  | logged (entry : LogEntry)
  /-- the ids from `first` up to `last`, without it, are not sent -/
  | passed (first last oldest : Nat)
  | delivered (intended : Nat) (entry : LogEntry)
  deriving DecidableEq, Repr

inductive SinkAction where
  | log (call : LogCall)
  | setLevel (level : LogLevel)
  | connect (ok : Bool)
  | lock
  | wake
  | send (ok : Bool)
  | stop
  deriving DecidableEq, Repr

/-- What follows the wait, or the decision not to wait. -/
def takeEntry (state : SinkState) : SinkPhase :=
  if state.sent < state.log.nextId then .sending (state.log.ring.get state.sent) else .connected

/-- The cursor skips what is overwritten already. -/
def clampCursor (state : SinkState) : SinkState :=
  { state with
    sent := if state.sent < state.log.oldestId then state.log.oldestId else state.sent }

def passedEvents (first last oldest : Nat) : List SinkEvent :=
  if first < last then [.passed first last oldest] else []

def sinkStep : Step SinkState SinkAction SinkEvent
  | state, .log call =>
      some ({ state with log := vlog state.log call },
        if state.log.records call then [.logged (state.log.entryOf call)] else [])
  | state, .setLevel level => some ({ state with log := edogLogSetLevel state.log level }, [])
  | state, .connect ok =>
      if state.phase = .disconnected then
        some ({ state with phase := if ok then .connected else .disconnected }, [])
      else none
  | state, .lock =>
      if state.phase = .connected then
        let clamped := clampCursor state
        let phase := if clamped.log.nextId ≤ clamped.sent then .waiting else takeEntry clamped
        some ({ clamped with phase := phase },
          passedEvents state.sent clamped.sent state.log.oldestId)
      else none
  | state, .wake =>
      if state.phase = .waiting then some ({ state with phase := takeEntry state }, []) else none
  | state, .send ok =>
      match state.phase with
      | .sending entry =>
          if ok then
            some ({ state with phase := .connected, sent := uint64 (entry.id + 1) },
              .delivered state.sent entry ::
                passedEvents state.sent entry.id state.log.oldestId)
          else some ({ state with phase := .disconnected }, [])
      | _ => none
  | state, .stop =>
      if state.phase = .disconnected ∨ state.phase = .connected then
        some ({ state with phase := .stopped }, [])
      else none

def freshSink : SinkState := ⟨freshLog, .disconnected, 1⟩

/-! ## What the log server has seen -/

def sinkEntries : List SinkEvent → List LogEntry
  | [] => []
  | .logged entry :: earlier => sinkEntries earlier ++ [entry]
  | _ :: earlier => sinkEntries earlier

/-- The entries fully sent, newest first. -/
def delivered : List SinkEvent → List LogEntry
  | [] => []
  | .delivered _ entry :: earlier => entry :: delivered earlier
  | _ :: earlier => delivered earlier

/-- Nothing is skipped that could be sent: ids rise, every entry is the one the
cursor stood at, an id is passed only when its entry is overwritten, and every
id behind the cursor was sent or passed. -/
structure SinkFaithful (state : SinkState) (history : List SinkEvent) : Prop where
  increasing : (delivered history).Pairwise fun later earlier => earlier.id < later.id
  intended : ∀ intended entry, SinkEvent.delivered intended entry ∈ history →
    entry.id = intended ∧ entry ∈ sinkEntries history
  overwritten : ∀ first last oldest, SinkEvent.passed first last oldest ∈ history →
    ∀ id, first ≤ id → id < last → id < oldest
  accounted : ∀ id, 1 ≤ id → id < state.sent →
    (∃ entry ∈ delivered history, entry.id = id) ∨
      ∃ first last oldest, SinkEvent.passed first last oldest ∈ history ∧ first ≤ id ∧ id < last

/-- A wait ends before the ring has come around to the cursor, and ids stay
64-bit numbers. -/
def shortWaits : Guard SinkState SinkAction SinkEvent :=
  fun state _ action =>
    match action with
    | .log call => state.log.records call = true → state.log.nextId + 1 < 2 ^ 64
    | .wake => state.log.nextId ≤ state.sent + edogLogRingSize
    | _ => True

instance (state : SinkState) (history : List SinkEvent) (action : SinkAction) :
    Decidable (shortWaits state history action) := by
  cases action with
  | log call => exact inferInstanceAs (Decidable (_ → _))
  | wake => exact inferInstanceAs (Decidable (_ ≤ _))
  | setLevel _ | connect _ | lock | send _ | stop => exact isTrue trivial

/-! ## The invariant -/

structure SinkInv (state : SinkState) (history : List SinkEvent) : Prop where
  holds : LogHolds state.log (sinkEntries history)
  small : state.log.nextId < 2 ^ 64
  cursor : 1 ≤ state.sent ∧ state.sent ≤ state.log.nextId
  behind : ∀ entry ∈ delivered history, entry.id < state.sent
  faithful : SinkFaithful state history
  sending : ∀ entry, state.phase = .sending entry →
    entry.id = state.sent ∧ entry ∈ sinkEntries history ∧ state.sent < state.log.nextId

theorem freshSink_inv : SinkInv freshSink [] where
  holds := freshLog_holds
  small := by decide
  cursor := by decide
  behind := by simp [delivered]
  faithful :=
    { increasing := .nil
      intended := by simp
      overwritten := by simp
      accounted := by
        intro id low high
        simp only [freshSink] at high
        omega }
  sending := by simp [freshSink]

/-- What is behind the cursor stays accounted for. -/
theorem SinkFaithful.accounted_later {state : SinkState} {history : List SinkEvent}
    (faithful : SinkFaithful state history) (event : SinkEvent) {id : Nat} (low : 1 ≤ id)
    (high : id < state.sent) :
    (∃ entry ∈ delivered (event :: history), entry.id = id) ∨
      ∃ first last oldest, SinkEvent.passed first last oldest ∈ event :: history ∧
        first ≤ id ∧ id < last := by
  rcases faithful.accounted id low high with
    ⟨entry, member, found⟩ | ⟨first, last, oldest, member, range⟩
  · refine Or.inl ⟨entry, ?_, found⟩
    cases event with
    | delivered intended newest => exact List.mem_cons_of_mem newest member
    | logged _ | passed _ _ _ => exact member
  · exact Or.inr ⟨first, last, oldest, List.mem_cons_of_mem event member, range⟩

section Steps
variable {state : SinkState} {history : List SinkEvent} (inv : SinkInv state history)
include inv

theorem SinkInv.logged {call : LogCall} (records : state.log.records call = true)
    (small : state.log.nextId + 1 < 2 ^ 64) :
    SinkInv { state with log := vlog state.log call }
      (.logged (state.log.entryOf call) :: history) := by
  obtain ⟨holds, counted, _⟩ := vlog_records inv.holds records small
  have cursor := inv.cursor
  refine ⟨holds, ?_, ?_, inv.behind, ⟨inv.faithful.increasing, ?_, ?_, ?_⟩, ?_⟩
  · dsimp only
    omega
  · dsimp only
    omega
  · intro intended entry member
    obtain ⟨same, listed⟩ := inv.faithful.intended intended entry (by simpa using member)
    exact ⟨same, List.mem_append_left _ listed⟩
  · intro first last oldest member
    exact inv.faithful.overwritten first last oldest (by simpa using member)
  · exact fun id low high => inv.faithful.accounted_later _ low high
  · intro entry phase
    obtain ⟨same, listed, below⟩ := inv.sending entry phase
    refine ⟨same, List.mem_append_left _ listed, ?_⟩
    dsimp only
    omega

theorem SinkInv.setLevel (level : LogLevel) :
    SinkInv { state with log := edogLogSetLevel state.log level } history :=
  ⟨inv.holds.setLevel level, inv.small, inv.cursor, inv.behind,
    ⟨inv.faithful.increasing, inv.faithful.intended, inv.faithful.overwritten,
      inv.faithful.accounted⟩, inv.sending⟩

/-- A phase that sends nothing may follow any state. -/
theorem SinkInv.setPhase {phase : SinkPhase} (idle : ∀ entry, phase ≠ .sending entry) :
    SinkInv { state with phase := phase } history :=
  ⟨inv.holds, inv.small, inv.cursor, inv.behind,
    ⟨inv.faithful.increasing, inv.faithful.intended, inv.faithful.overwritten,
      inv.faithful.accounted⟩, fun entry same => absurd same (idle entry)⟩

/-- The entry of a cursor that is not overwritten may be sent. -/
theorem SinkInv.take (retained : state.log.oldestId ≤ state.sent) :
    SinkInv { state with phase := takeEntry state } history := by
  unfold takeEntry
  split
  · rename_i below
    refine ⟨inv.holds, inv.small, inv.cursor, inv.behind,
      ⟨inv.faithful.increasing, inv.faithful.intended, inv.faithful.overwritten,
        inv.faithful.accounted⟩, ?_⟩
    intro entry same
    cases same
    exact ⟨inv.holds.get_id retained below, inv.holds.get_mem retained below, below⟩
  · exact inv.setPhase (by simp)

theorem SinkInv.clamped (connected : state.phase = .connected) :
    SinkInv (clampCursor state)
      (passedEvents state.sent (clampCursor state).sent state.log.oldestId ++ history) := by
  unfold clampCursor
  dsimp only
  split
  · rename_i behind
    have cursor := inv.cursor
    have reached : state.log.oldestId ≤ state.log.nextId := by
      unfold LogState.oldestId LogRing.oldest
      split
      · omega
      · omega
    have passes : passedEvents state.sent state.log.oldestId state.log.oldestId =
        [.passed state.sent state.log.oldestId state.log.oldestId] := if_pos behind
    rw [passes]
    refine ⟨inv.holds, inv.small, ⟨by dsimp only; omega, reached⟩, ?_,
      ⟨inv.faithful.increasing, ?_, ?_, ?_⟩, by simp [connected]⟩
    · intro entry member
      have before := inv.behind entry member
      dsimp only
      omega
    · intro intended entry member
      exact inv.faithful.intended intended entry (by simpa using member)
    · intro first last oldest member
      rcases List.mem_cons.mp member with same | earlier
      · cases same
        exact fun id _ below => below
      · exact inv.faithful.overwritten first last oldest earlier
    · intro id low high
      by_cases before : id < state.sent
      · exact inv.faithful.accounted_later _ low before
      · exact Or.inr ⟨state.sent, state.log.oldestId, state.log.oldestId, List.mem_cons_self,
          Nat.le_of_not_lt before, high⟩
  · have none : passedEvents state.sent state.sent state.log.oldestId = [] :=
      if_neg (Nat.lt_irrefl _)
    rw [none]
    exact inv

theorem SinkInv.sent {entry : LogEntry} (phase : state.phase = .sending entry) :
    SinkInv { state with phase := .connected, sent := uint64 (entry.id + 1) }
      ((.delivered state.sent entry ::
        passedEvents state.sent entry.id state.log.oldestId) ++ history) := by
  obtain ⟨same, listed, below⟩ := inv.sending entry phase
  have small := inv.small
  have next : uint64 (entry.id + 1) = state.sent + 1 := by
    rw [same]
    exact Nat.mod_eq_of_lt (by omega)
  have none : passedEvents state.sent entry.id state.log.oldestId = [] := by
    rw [same]
    exact if_neg (Nat.lt_irrefl _)
  rw [none, next]
  refine ⟨inv.holds, small, ⟨by dsimp only; omega, below⟩, ?_, ⟨?_, ?_, ?_, ?_⟩, by simp⟩
  · intro other member
    rcases List.mem_cons.mp member with rfl | earlier
    · dsimp only
      omega
    · have before := inv.behind other earlier
      dsimp only
      omega
  · refine .cons ?_ inv.faithful.increasing
    intro other member
    have before := inv.behind other member
    omega
  · intro intended other member
    rcases List.mem_cons.mp member with now | earlier
    · cases now
      exact ⟨same, listed⟩
    · exact inv.faithful.intended intended other earlier
  · intro first last oldest member
    exact inv.faithful.overwritten first last oldest (by simpa using member)
  · intro id low high
    dsimp only at high
    by_cases before : id < state.sent
    · exact inv.faithful.accounted_later _ low before
    · exact Or.inl ⟨entry, List.mem_cons_self, by omega⟩

end Steps

theorem clampCursor_retained (state : SinkState) :
    (clampCursor state).log.oldestId ≤ (clampCursor state).sent := by
  unfold clampCursor
  dsimp only
  split
  · exact Nat.le_refl _
  · omega

theorem sinkStep_inv {state next : SinkState} {history events : List SinkEvent}
    {action : SinkAction} (inv : SinkInv state history) (short : shortWaits state history action)
    (move : sinkStep state action = some (next, events)) : SinkInv next (events ++ history) := by
  cases action with
  | log call =>
      simp only [sinkStep, Option.some.injEq, Prod.mk.injEq] at move
      obtain ⟨rfl, rfl⟩ := move
      by_cases records : state.log.records call = true
      · rw [if_pos records]
        exact inv.logged records (short records)
      · rw [if_neg records, vlog, if_neg records]
        exact inv
  | setLevel level =>
      simp only [sinkStep, Option.some.injEq, Prod.mk.injEq] at move
      obtain ⟨rfl, rfl⟩ := move
      exact inv.setLevel level
  | connect ok =>
      rw [sinkStep] at move
      split at move
      · cases move
        refine inv.setPhase ?_
        cases ok with
        | false => simp
        | true => simp
      · simp at move
  | lock =>
      rw [sinkStep] at move
      split at move
      · rename_i connected
        cases move
        have clamped := inv.clamped connected
        split
        · exact clamped.setPhase (by simp)
        · exact clamped.take (clampCursor_retained state)
      · simp at move
  | wake =>
      rw [sinkStep] at move
      split at move
      · cases move
        refine inv.take ?_
        have near : state.log.nextId ≤ state.sent + edogLogRingSize := short
        have positive := inv.cursor.1
        unfold LogState.oldestId LogRing.oldest
        split
        · omega
        · exact positive
      · simp at move
  | send ok =>
      rw [sinkStep] at move
      split at move
      · rename_i entry phase
        split at move
        · cases move
          exact inv.sent phase
        · cases move
          exact inv.setPhase (by simp)
      · simp at move
  | stop =>
      rw [sinkStep] at move
      split at move
      · cases move
        exact inv.setPhase (by simp)
      · simp at move

/-- In a run whose waits are short the sink skips only what is overwritten. -/
theorem sink_skips_only_overwritten (state : SinkState) (history : List SinkEvent)
    (reached : Reaches sinkStep shortWaits freshSink state history) :
    SinkFaithful state history := by
  refine (reached.invariant SinkInv freshSink_inv ?_).faithful
  intro state history action next events inv short move
  exact sinkStep_inv inv short move

/-! ## A burst during one wait -/

def infoCall : LogCall := ⟨.info, 0, [], []⟩

/-- Entries logged while the sink stays in one phase before the first of them. -/
theorem burst_reached {guard : Guard SinkState SinkAction SinkEvent} {phase : SinkPhase}
    (before : Reaches sinkStep guard freshSink ⟨freshLog, phase, 1⟩ [])
    (allowed : ∀ log history, log.nextId + 1 < 2 ^ 64 →
      guard ⟨log, phase, 1⟩ history (.log infoCall))
    (count : Nat) (small : count + 2 < 2 ^ 64) :
    ∃ log history, Reaches sinkStep guard freshSink ⟨log, phase, 1⟩ history ∧
      LogHolds log (sinkEntries history) ∧ log.nextId = count + 1 ∧ log.minLevel = .info ∧
      delivered history = [] := by
  induction count with
  | zero => exact ⟨freshLog, [], before, freshLog_holds, rfl, rfl, rfl⟩
  | succ count ih =>
      obtain ⟨log, history, reached, holds, counted, level, silent⟩ := ih (by omega)
      have records : log.records infoCall = true := by
        rw [LogState.records, level]
        rfl
      obtain ⟨kept, next, same⟩ := vlog_records holds records (by omega)
      refine ⟨vlog log infoCall, .logged (log.entryOf infoCall) :: history, ?_, kept,
        by rw [next, counted], by rw [same, level], silent⟩
      have logs : sinkStep ⟨log, phase, 1⟩ (.log infoCall) =
          some (⟨vlog log infoCall, phase, 1⟩, [.logged (log.entryOf infoCall)]) := by
        simp [sinkStep, records]
      exact Reaches.next (SinkAction.log infoCall) reached (allowed log history (by omega)) logs

theorem waiting_reached : Reaches sinkStep anyStep freshSink ⟨freshLog, .waiting, 1⟩ [] :=
  reaches_of_execute_from sinkStep anyStep freshSink [.connect true, .lock] freshSink _ [] _ .start
    rfl

/-- After 1001 entries the slot of the cursor holds the newest: the 999 retained
entries before it are never sent. -/
theorem long_burst_skips_retained :
    ¬ ∀ (state : SinkState) (history : List SinkEvent),
        Reaches sinkStep anyStep freshSink state history → SinkFaithful state history := by
  intro always
  obtain ⟨log, history, reached, holds, counted, _⟩ :=
    burst_reached waiting_reached (fun _ _ _ => trivial) 1001 (by decide)
  have slot : log.ring.get 1 = log.ring.get 1001 := by
    unfold LogRing.get
    rw [holds.size]
    rfl
  have newest : (log.ring.get 1).id = 1001 := by
    rw [slot]
    refine holds.get_id ?_ (by omega)
    unfold LogState.oldestId
    rw [counted]
    decide
  have taken : Reaches sinkStep anyStep freshSink ⟨log, .sending (log.ring.get 1), 1⟩ history := by
    have wakes : sinkStep ⟨log, .waiting, 1⟩ .wake =
        some (⟨log, .sending (log.ring.get 1), 1⟩, []) := by
      simp [sinkStep, takeEntry, counted]
    exact Reaches.next SinkAction.wake reached trivial wakes
  have sent := Reaches.next (SinkAction.send true) taken trivial rfl
  have wrong := (always _ _ sent).intended 1 (log.ring.get 1) (by simp)
  rw [newest] at wrong
  exact absurd wrong.1 (by decide)

theorem sink_skips_only_overwritten_late :
    ∃ state history, SinkFaithful state history ∧ SinkEvent.passed 1 2 2 ∈ history ∧
      (delivered history).map LogEntry.id = [3, 2] := by
  have begins : Reaches sinkStep shortWaits freshSink freshSink [] := .start
  obtain ⟨log, history, reached, holds, counted, _, silent⟩ :=
    burst_reached begins (fun _ _ small _ => small) 1001 (by decide)
  have oldest : log.oldestId = 2 := by
    unfold LogState.oldestId
    rw [counted]
    decide
  have second : (log.ring.get 2).id = 2 := holds.get_id (by omega) (by omega)
  have third : (log.ring.get 3).id = 3 := holds.get_id (by omega) (by omega)
  have connects := Reaches.next (SinkAction.connect true) reached trivial rfl
  have takes : sinkStep ⟨log, .connected, 1⟩ .lock =
      some (⟨log, .sending (log.ring.get 2), 2⟩, [.passed 1 2 2]) := by
    simp [sinkStep, clampCursor, takeEntry, passedEvents, oldest, counted]
  have sends : sinkStep ⟨log, .sending (log.ring.get 2), 2⟩ (.send true) =
      some (⟨log, .connected, 3⟩, [.delivered 2 (log.ring.get 2)]) := by
    simp [sinkStep, passedEvents, second, uint64]
  have takesNext : sinkStep ⟨log, .connected, 3⟩ .lock =
      some (⟨log, .sending (log.ring.get 3), 3⟩, []) := by
    simp [sinkStep, clampCursor, takeEntry, passedEvents, oldest, counted]
  have sendsNext : sinkStep ⟨log, .sending (log.ring.get 3), 3⟩ (.send true) =
      some (⟨log, .connected, 4⟩, [.delivered 3 (log.ring.get 3)]) := by
    simp [sinkStep, passedEvents, third, uint64]
  have first := (connects.next SinkAction.lock trivial takes).next (SinkAction.send true) trivial sends
  have run := (first.next SinkAction.lock trivial takesNext).next (SinkAction.send true) trivial
    sendsNext
  refine ⟨_, _, sink_skips_only_overwritten _ _ run, by simp, ?_⟩
  simp [delivered, silent, second, third]

end EtherDog
