import EtherDog.Bus.Metrics
import EtherDog.Lib.Periodic
import EtherDog.Lib.Timespec

/-!
# The schedule of a bus thread (src/bus.c)

What the clock, the bus and the scheduler do in one turn of `ecat_bus_thread` is a
`BusTick`; the statistics of a turn are those of `EtherDog.Bus.Metrics`.  The
deadline advances by the cycle time from the last deadline and never from the
clock, so the thread is a loop of `EtherDog.Lib.Periodic`.  Thread name, priority
and logging are left out.
-/

set_option autoImplicit false

namespace EtherDog

open Periodic

structure BusTick where
  /-- the clock where the turn begins -/
  actualWake : Timespec
  /-- `none` where `ecat_run_one_cycle` does not exchange -/
  exchange : Option Exchange
  /-- the clock behind the cycle -/
  done : Timespec
  /-- `clock_nanosleep` returned `EINTR` -/
  interrupted : Bool
  deriving DecidableEq, Repr

structure BusLoop where
  nextWakeup : Timespec
  stats : BusStats
  overruns : UInt64
  deriving DecidableEq, Repr

def intervalNs (cycleTimeUs : Int) : Int :=
  if cycleTimeUs * 1000 ≤ 0 then 1000000 else cycleTimeUs * 1000

theorem intervalNs_pos (cycleTimeUs : Int) : 0 < intervalNs cycleTimeUs := by
  unfold intervalNs
  split
  · decide
  · omega

section Thread
variable (interval window expectedWkc : Int)

/-- One turn of the loop, up to the sleep. -/
def busTurn (loop : BusLoop) (tick : BusTick) : BusLoop :=
  let nextWakeup := loop.nextWakeup.plusNs interval
  { nextWakeup := nextWakeup
    stats := recordTurn window expectedWkc loop.stats
      ⟨tick.actualWake.toNs, loop.nextWakeup.toNs, tick.exchange⟩
    overruns := if nextWakeup.toNs < tick.done.toNs then loop.overruns + 1 else loop.overruns }

/-- The turns of a thread that read the clock at `start`. -/
def busThread (start : Timespec) (overruns : UInt64) (ticks : List BusTick) : BusLoop :=
  ticks.foldl (busTurn interval window expectedWkc) ⟨start, startStats, overruns⟩

/-- As `clock_nanosleep` with TIMER_ABSTIME promises: unless it was interrupted, a turn
starts no earlier than the deadline the thread slept to. -/
inductive SleepsUntil : BusLoop → Bool → List BusTick → Prop where
  | done (loop : BusLoop) (slept : Bool) : SleepsUntil loop slept []
  | turn {loop : BusLoop} {slept : Bool} (tick : BusTick) (rest : List BusTick)
      (notEarly : slept = true → loop.nextWakeup.ns ≤ tick.actualWake.ns)
      (forward : tick.actualWake.ns ≤ tick.done.ns)
      (later : SleepsUntil (busTurn interval window expectedWkc loop tick) (!tick.interrupted)
        rest) :
      SleepsUntil loop slept (tick :: rest)

/-- No sleep is interrupted, and a turn starts within `latency` of the later of the
thread's deadline and `free`, where the turn before ended. -/
inductive WakesWithin (latency : Int) : BusLoop → Int → List BusTick → Prop where
  | done (loop : BusLoop) (free : Int) : WakesWithin latency loop free []
  | turn {loop : BusLoop} {free : Int} (tick : BusTick) (rest : List BusTick)
      (notEarly : max loop.nextWakeup.ns free ≤ tick.actualWake.ns)
      (soon : tick.actualWake.ns ≤ max loop.nextWakeup.ns free + latency)
      (forward : tick.actualWake.ns ≤ tick.done.ns)
      (later : WakesWithin latency (busTurn interval window expectedWkc loop tick)
        tick.done.ns rest) :
      WakesWithin latency loop free (tick :: rest)

end Thread

/-! ## The deadlines -/

def BusTick.turn (tick : BusTick) : Turn :=
  ⟨tick.actualWake.ns, tick.done.ns, tick.interrupted⟩

/-- The clock of the thread's turns fits 64 bits, and so do their deadlines. -/
structure ClockFits (interval : Int) (start : Timespec) (ticks : List BusTick) : Prop where
  normal : start.Normal
  past : 0 ≤ start.ns
  deadlines : start.ns + ticks.length * interval < 2 ^ 64
  clock : ∀ tick ∈ ticks, 0 ≤ tick.done.ns ∧ tick.done.ns < 2 ^ 64

section Deadlines
variable {interval window expectedWkc : Int}

theorem busTurn_nextWakeup (loop : BusLoop) (tick : BusTick) :
    (busTurn interval window expectedWkc loop tick).nextWakeup.ns =
      loop.nextWakeup.ns + interval := Timespec.plusNs_ns _ _

theorem SleepsUntil.keeps {loop : BusLoop} {slept : Bool} {ticks : List BusTick}
    (sleeps : SleepsUntil interval window expectedWkc loop slept ticks) :
    Keeps interval loop.nextWakeup.ns slept (ticks.map BusTick.turn) := by
  induction sleeps with
  | done loop slept => exact .done _ _
  | turn tick rest notEarly forward later ih =>
      rw [busTurn_nextWakeup] at ih
      exact .turn tick.turn _ notEarly forward ih

theorem WakesWithin.prompt {latency free : Int} {loop : BusLoop} {ticks : List BusTick}
    (wakes : WakesWithin interval window expectedWkc latency loop free ticks) :
    Prompt interval latency loop.nextWakeup.ns free (ticks.map BusTick.turn) := by
  induction wakes with
  | done loop free => exact .done _ _
  | turn tick rest notEarly soon forward later ih =>
      rw [busTurn_nextWakeup] at ih
      exact .turn tick.turn _ notEarly soon forward ih

theorem foldl_nextWakeup (ticks : List BusTick) (loop : BusLoop) (later : 0 ≤ interval)
    (normal : loop.nextWakeup.Normal) :
    (ticks.foldl (busTurn interval window expectedWkc) loop).nextWakeup.Normal ∧
      (ticks.foldl (busTurn interval window expectedWkc) loop).nextWakeup.ns =
        loop.nextWakeup.ns + ticks.length * interval := by
  induction ticks generalizing loop with
  | nil => exact ⟨normal, by simp⟩
  | cons tick rest ih =>
      have next := ih (busTurn interval window expectedWkc loop tick)
        (Timespec.plusNs_normal normal later)
      rw [busTurn_nextWakeup] at next
      refine ⟨next.1, next.2.trans ?_⟩
      rw [List.length_cons]
      push_cast
      ring

theorem foldl_overruns (ticks : List BusTick) (loop : BusLoop) (later : 0 ≤ interval)
    (past : 0 ≤ loop.nextWakeup.ns)
    (near : loop.nextWakeup.ns + ticks.length * interval < 2 ^ 64)
    (clock : ∀ tick ∈ ticks, 0 ≤ tick.done.ns ∧ tick.done.ns < 2 ^ 64) :
    (ticks.foldl (busTurn interval window expectedWkc) loop).overruns =
      loop.overruns +
        UInt64.ofNat (overruns interval loop.nextWakeup.ns (ticks.map BusTick.turn)) := by
  induction ticks generalizing loop with
  | nil => simp [overruns]
  | cons tick rest ih =>
      have advanced : (loop.nextWakeup.plusNs interval).ns = loop.nextWakeup.ns + interval :=
        Timespec.plusNs_ns _ _
      have span : (0 : Int) ≤ rest.length * interval :=
        mul_nonneg (Int.natCast_nonneg _) later
      have length : (((tick :: rest).length : Nat) : Int) * interval =
          rest.length * interval + interval := by
        rw [List.length_cons]
        push_cast
        ring
      rw [length] at near
      have next := ih (busTurn interval window expectedWkc loop tick)
        (show 0 ≤ (loop.nextWakeup.plusNs interval).ns by omega)
        (show (loop.nextWakeup.plusNs interval).ns + _ < 2 ^ 64 by omega)
        fun other member => clock other (List.mem_cons_of_mem tick member)
      obtain ⟨low, high⟩ := clock tick List.mem_cons_self
      have late : (loop.nextWakeup.plusNs interval).toNs < tick.done.toNs ↔
          loop.nextWakeup.ns + interval < tick.turn.finish := by
        rw [Timespec.toNs_lt_iff (by omega) (by omega) low high, advanced]
        rfl
      rw [List.foldl_cons, next, List.map_cons, overruns]
      change (if _ then loop.overruns + 1 else loop.overruns) + UInt64.ofNat
        (overruns interval (loop.nextWakeup.plusNs interval).ns _) = _
      rw [advanced]
      by_cases overrun : loop.nextWakeup.ns + interval < tick.turn.finish
      · rw [if_pos (late.mpr overrun), if_pos overrun, UInt64.ofNat_add, UInt64.add_assoc]
        rfl
      · rw [if_neg fun found => overrun (late.mp found), if_neg overrun, Nat.zero_add]

end Deadlines

/-- The bus thread does not drift.  After any turns the deadline is the first one
and a cycle time for each turn; where its sleeps last until the deadlines it has
set, the turns started by any time are at most the deadlines passed, and one for
each interrupted sleep; and `overruns` counts the turns that ended past the next
deadline. -/
theorem bus_thread_keeps_deadlines (cycleTimeUs window expectedWkc : Int) (start : Timespec)
    (before : UInt64) (ticks : List BusTick)
    (fits : ClockFits (intervalNs cycleTimeUs) start ticks)
    (sleeps : SleepsUntil (intervalNs cycleTimeUs) window expectedWkc
      ⟨start, startStats, before⟩ true ticks) :
    let interval := intervalNs cycleTimeUs
    let thread := busThread interval window expectedWkc start before ticks
    (thread.nextWakeup.Normal ∧ thread.nextWakeup.ns = start.ns + ticks.length * interval) ∧
      (∀ time, ticks.countP (fun tick => decide (tick.actualWake.ns ≤ time)) ≤
        passed interval start.ns time + ticks.countP BusTick.interrupted) ∧
      thread.overruns =
        before + UInt64.ofNat (overruns interval start.ns (ticks.map BusTick.turn)) := by
  intro interval thread
  have positive := intervalNs_pos cycleTimeUs
  refine ⟨foldl_nextWakeup ticks ⟨start, startStats, before⟩ positive.le fits.normal, ?_,
    foldl_overruns ticks ⟨start, startStats, before⟩ positive.le fits.past fits.deadlines
      fits.clock⟩
  intro time
  have started := sleeps.keeps.started_le positive time
  rw [List.countP_map, List.countP_map, if_pos rfl, Nat.add_zero] at started
  exact started

/-- Three turns at a cycle of 1 ms across a change of the second; the first one
takes 1.2 ms. -/
def threeTicks : List BusTick :=
  [⟨⟨5, 999500000⟩, none, ⟨6, 700000⟩, false⟩, ⟨⟨6, 700000⟩, none, ⟨6, 900000⟩, false⟩,
    ⟨⟨6, 1500000⟩, none, ⟨6, 1700000⟩, false⟩]

theorem threeTicks_fits : ClockFits (intervalNs 1000) ⟨5, 999500000⟩ threeTicks :=
  ⟨by decide, by decide, by decide, by decide⟩

theorem bus_thread_keeps_deadlines_three :
    (busThread (intervalNs 1000) 2000 3 ⟨5, 999500000⟩ 0 threeTicks).nextWakeup =
        ⟨6, 2500000⟩ ∧
      threeTicks.countP (fun tick => decide (tick.actualWake.ns ≤ 6000700000)) ≤
        passed (intervalNs 1000) 5999500000 6000700000 + threeTicks.countP BusTick.interrupted ∧
      (busThread (intervalNs 1000) 2000 3 ⟨5, 999500000⟩ 0 threeTicks).overruns =
        0 + UInt64.ofNat (overruns (intervalNs 1000) 5999500000 (threeTicks.map BusTick.turn)) := by
  have kept := bus_thread_keeps_deadlines 1000 2000 3 ⟨5, 999500000⟩ 0 threeTicks threeTicks_fits
    (.turn _ _ (by decide) (by decide) (.turn _ _ (by decide) (by decide)
      (.turn _ _ (by decide) (by decide) (.done _ _))))
  exact ⟨rfl, kept.2.1 6000700000, kept.2.2⟩

/-- The thread makes up for a stall.  When no sleep is interrupted, every wake-up is
at most `latency` late and every turn takes at most `busy`, a start that is late by
`stall` costs at most `stall / (interval - (busy + latency))` overruns, and after as
many turns every turn starts within `latency` of the thread's deadline. -/
theorem bus_thread_catches_up (cycleTimeUs window expectedWkc latency busy stall : Int)
    (loop : BusLoop) (ticks : List BusTick)
    (fits : ClockFits (intervalNs cycleTimeUs) loop.nextWakeup ticks)
    (wakes : WakesWithin (intervalNs cycleTimeUs) window expectedWkc latency loop
      (loop.nextWakeup.ns + stall) ticks)
    (brief : ∀ tick ∈ ticks, tick.done.ns - tick.actualWake.ns ≤ busy)
    (spare : busy + latency < intervalNs cycleTimeUs) (late : 0 ≤ stall) :
    let interval := intervalNs cycleTimeUs
    let after (turns : List BusTick) := turns.foldl (busTurn interval window expectedWkc) loop
    (∃ cost, (after ticks).overruns = loop.overruns + UInt64.ofNat cost ∧
        (cost : Int) ≤ stall / (interval - (busy + latency))) ∧
      ∀ (k : Nat) (tick : BusTick), ticks[k]? = some tick →
        stall ≤ k * (interval - (busy + latency)) →
          (after (ticks.take k)).nextWakeup.ns ≤ tick.actualWake.ns ∧
            tick.actualWake.ns ≤ (after (ticks.take k)).nextWakeup.ns + latency := by
  dsimp only
  have positive := intervalNs_pos cycleTimeUs
  have prompt := wakes.prompt
  have briefTurns : ∀ t ∈ ticks.map BusTick.turn, t.finish - t.start ≤ busy := by
    intro t member
    obtain ⟨tick, found, rfl⟩ := List.mem_map.mp member
    exact brief tick found
  constructor
  · refine ⟨_, foldl_overruns ticks loop positive.le fits.past fits.deadlines fits.clock, ?_⟩
    have cost := prompt.overruns_mul_le briefTurns spare.le
    rw [add_sub_cancel_left, max_eq_right late] at cost
    exact (Int.le_ediv_iff_mul_le (by omega)).mpr cost
  · intro k tick atTick enough
    have atTurn : (ticks.map BusTick.turn)[k]? = some tick.turn := by
      rw [List.getElem?_map, atTick, Option.map_some]
    have lateness := prompt.lateness_le briefTurns spare.le k tick.turn atTurn
    have notEarly := prompt.not_early k tick.turn atTurn
    rw [add_sub_cancel_left, max_eq_left (by omega)] at lateness
    have due := (@foldl_nextWakeup (intervalNs cycleTimeUs) window expectedWkc (ticks.take k) loop
      positive.le fits.normal).2
    have inside := (List.getElem?_eq_some_iff.mp atTick).1
    rw [List.length_take, min_eq_left inside.le] at due
    rw [due]
    change _ ≤ tick.turn.start ∧ tick.turn.start ≤ _
    omega

/-- The first of the three turns has put the thread 0.2 ms behind, and each wake-up is
0.1 ms late at most. -/
theorem bus_thread_catches_up_two :
    (⟨6, 500000⟩ : Timespec).ns + 1000000 ≤ (⟨6, 1550000⟩ : Timespec).ns ∧
      (⟨6, 1550000⟩ : Timespec).ns ≤ (⟨6, 500000⟩ : Timespec).ns + 1000000 + 100000 := by
  have caught := (bus_thread_catches_up 1000 2000 3 100000 200000 200000
    (busThread (intervalNs 1000) 2000 3 ⟨5, 999500000⟩ 0
      [⟨⟨5, 999500000⟩, none, ⟨6, 700000⟩, false⟩])
    [⟨⟨6, 750000⟩, none, ⟨6, 900000⟩, false⟩, ⟨⟨6, 1550000⟩, none, ⟨6, 1700000⟩, false⟩]
    ⟨by decide, by decide, by decide, by decide⟩
    (.turn _ _ (by decide) (by decide) (by decide)
      (.turn _ _ (by decide) (by decide) (by decide) (.done _ _)))
    (by decide) (by decide) (by decide)).2 1 _ rfl (by decide)
  exact caught

end EtherDog
