import EtherDog.Lib.LogRing
import EtherDog.Lib.Printf
import EtherDog.Config.Json

/-!
# The log ring (src/log.c)

`g_ring` with `g_next_id` and the minimum level.  Every function here is one
critical section of `g_mutex`.  Ids are 64-bit counters; the lines printed to
stderr are left out.
-/

set_option autoImplicit false

namespace EtherDog

open CString

inductive LogLevel where
  | debug
  | info
  | warn
  | error
  deriving DecidableEq, Repr

def LogLevel.rank : LogLevel → Nat
  | .debug => 0
  | .info => 1
  | .warn => 2
  | .error => 3

def edogLogLevelName : LogLevel → Text
  | .debug => text "DEBUG"
  | .info => text "INFO"
  | .warn => text "WARN"
  | .error => text "ERROR"

def edogLogParseLevel (name : Text) : Option LogLevel :=
  if sameFolded name ["debug"] then some .debug
  else if sameFolded name ["info"] then some .info
  else if sameFolded name ["warn", "warning"] then some .warn
  else if sameFolded name ["error"] then some .error
  else none

structure LogEntry where
  id : Nat
  timestamp : Int
  level : LogLevel
  tag : Text
  message : Text
  deriving DecidableEq, Repr

def edogLogRingSize : Nat := 1000

def uint64 (n : Nat) : Nat := n % 2 ^ 64

structure LogState where
  ring : LogRing LogEntry
  nextId : Nat
  minLevel : LogLevel

def emptyEntry : LogEntry := ⟨0, 0, .debug, [], []⟩

def freshLog : LogState := ⟨⟨edogLogRingSize, fun _ => emptyEntry⟩, 1, .info⟩

def LogState.oldestId (log : LogState) : Nat := LogRing.oldest edogLogRingSize log.nextId

/-- A call of one of the `edog_log_*` functions, with the time it reads. -/
structure LogCall where
  level : LogLevel
  timestamp : Int
  tag : Text
  message : Text
  deriving DecidableEq, Repr

def LogState.records (log : LogState) (call : LogCall) : Bool :=
  decide (log.minLevel.rank ≤ call.level.rank)

def LogState.entryOf (log : LogState) (call : LogCall) : LogEntry where
  id := log.nextId
  timestamp := call.timestamp
  level := call.level
  tag := snprintf 32 (if call.tag = [] then text "ETHERDOG" else call.tag)
  message := snprintf 512 call.message

def vlog (log : LogState) (call : LogCall) : LogState :=
  if log.records call then
    { log with
      ring := log.ring.put log.nextId (log.entryOf call)
      nextId := uint64 (log.nextId + 1) }
  else log

def edogLogSetLevel (log : LogState) (level : LogLevel) : LogState := { log with minLevel := level }

/-- The loop of `edog_log_query` over `ids` ids, with `room` entries left to fill. -/
def queryLoop (ring : LogRing LogEntry) (minLevel : LogLevel) : Nat → Nat → Nat → List LogEntry
  | 0, _, _ => []
  | ids + 1, id, room =>
      if room = 0 then []
      else if minLevel.rank ≤ (ring.get id).level.rank then
        ring.get id :: queryLoop ring minLevel ids (id + 1) (room - 1)
      else queryLoop ring minLevel ids (id + 1) room

/-- The first id a query looks at. -/
def LogState.firstId (log : LogState) (minId : Nat) : Nat :=
  if minId < log.oldestId then log.oldestId else minId

def edogLogQuery (log : LogState) (minId : Nat) (minLevel : LogLevel) (max : Nat) :
    List LogEntry :=
  queryLoop log.ring minLevel (log.nextId - log.firstId minId) (log.firstId minId) max

/-! ## The ring holds the log -/

/-- The ring holds the newest of the entries, which are numbered from 1. -/
structure LogHolds (log : LogState) (entries : List LogEntry) : Prop where
  size : log.ring.size = edogLogRingSize
  holds : log.ring.Holds log.nextId entries
  numbered : ∀ i entry, entries[i]? = some entry → entry.id = i + 1

theorem freshLog_holds : LogHolds freshLog [] where
  size := rfl
  holds := .empty _
  numbered := by simp

section Holds
variable {log : LogState} {entries : List LogEntry} (holds : LogHolds log entries)
include holds

theorem LogHolds.setLevel (level : LogLevel) : LogHolds (edogLogSetLevel log level) entries :=
  ⟨holds.size, holds.holds, holds.numbered⟩

theorem LogHolds.counted : log.nextId = entries.length + 1 := holds.holds.counted

theorem vlog_records {call : LogCall} (records : log.records call = true)
    (small : log.nextId + 1 < 2 ^ 64) :
    LogHolds (vlog log call) (entries ++ [log.entryOf call]) ∧
      (vlog log call).nextId = log.nextId + 1 ∧ (vlog log call).minLevel = log.minLevel := by
  have counted : (vlog log call).nextId = log.nextId + 1 := by
    rw [vlog, if_pos records]
    exact Nat.mod_eq_of_lt small
  have kept := holds.holds.put (log.entryOf call)
  refine ⟨⟨?_, ?_, ?_⟩, counted, ?_⟩
  · rw [vlog, if_pos records]
    exact holds.size
  · rw [counted, vlog, if_pos records]
    exact kept
  · intro i entry listed
    rcases Nat.lt_or_ge i entries.length with inside | behind
    · rw [List.getElem?_append_left inside] at listed
      exact holds.numbered i entry listed
    · rw [List.getElem?_append_right behind, List.getElem?_singleton] at listed
      split at listed
      · cases listed
        have total := holds.counted
        simp only [LogState.entryOf]
        omega
      · simp at listed
  · rw [vlog, if_pos records]

theorem LogHolds.get_id {id : Nat} (low : log.oldestId ≤ id) (high : id < log.nextId) :
    (log.ring.get id).id = id := by
  have old : LogRing.oldest log.ring.size log.nextId ≤ id := by
    rw [holds.size]
    exact low
  have listed := holds.numbered _ _ (holds.holds.retained id old high)
  have positive : 1 ≤ id := Nat.le_trans (LogRing.oldest_pos _ _) low
  omega

theorem LogHolds.get_mem {id : Nat} (low : log.oldestId ≤ id) (high : id < log.nextId) :
    log.ring.get id ∈ entries := by
  apply holds.holds.mem _ high
  rw [holds.size]
  exact low

theorem LogHolds.id_range {entry : LogEntry} (member : entry ∈ entries) :
    1 ≤ entry.id ∧ entry.id < log.nextId := by
  obtain ⟨i, inside, rfl⟩ := List.getElem_of_mem member
  have numbered := holds.numbered i _ (List.getElem?_eq_getElem inside)
  have total := holds.counted
  omega

/-- An entry that is not overwritten is the one in its slot. -/
theorem LogHolds.get_eq {entry : LogEntry} (member : entry ∈ entries)
    (low : log.oldestId ≤ entry.id) : log.ring.get entry.id = entry := by
  obtain ⟨i, inside, rfl⟩ := List.getElem_of_mem member
  have numbered := holds.numbered i _ (List.getElem?_eq_getElem inside)
  have high := (holds.id_range member).2
  have old : LogRing.oldest log.ring.size log.nextId ≤ entries[i].id := by
    rw [holds.size]
    exact low
  have stored := holds.holds.retained _ old high
  have place : entries[i].id - 1 = i := by omega
  rw [place, List.getElem?_eq_getElem inside] at stored
  exact (Option.some.inj stored).symm

end Holds

/-! ## What a query returns -/

section Query
variable {ring : LogRing LogEntry} {level : LogLevel}

theorem queryLoop_length_le (ids id room : Nat) :
    (queryLoop ring level ids id room).length ≤ room := by
  induction ids generalizing id room with
  | zero => simp [queryLoop]
  | succ ids ih =>
      rw [queryLoop]
      split
      · simp
      · split
        · have later := ih (id + 1) (room - 1)
          simp only [List.length_cons]
          omega
        · exact ih (id + 1) room

theorem queryLoop_mem {ids id room : Nat} {entry : LogEntry}
    (member : entry ∈ queryLoop ring level ids id room) :
    level.rank ≤ entry.level.rank ∧ ∃ k, id ≤ k ∧ k < id + ids ∧ ring.get k = entry := by
  induction ids generalizing id room with
  | zero => simp [queryLoop] at member
  | succ ids ih =>
      rw [queryLoop] at member
      split at member
      · simp at member
      · split at member
        · rename_i matching
          rcases List.mem_cons.mp member with rfl | later
          · exact ⟨matching, id, Nat.le_refl id, by omega, rfl⟩
          · obtain ⟨high, k, low, below, found⟩ := ih later
            exact ⟨high, k, by omega, by omega, found⟩
        · obtain ⟨high, k, low, below, found⟩ := ih member
          exact ⟨high, k, by omega, by omega, found⟩

variable {ids id room : Nat} (numbered : ∀ k, id ≤ k → k < id + ids → (ring.get k).id = k)
include numbered

theorem queryLoop_increasing :
    (queryLoop ring level ids id room).Pairwise fun a b => a.id < b.id := by
  induction ids generalizing id room with
  | zero => exact .nil
  | succ ids ih =>
      have rest : ∀ k, id + 1 ≤ k → k < id + 1 + ids → (ring.get k).id = k :=
        fun k low high => numbered k (by omega) (by omega)
      rw [queryLoop]
      split
      · exact .nil
      · split
        · refine .cons ?_ (ih rest)
          intro entry member
          obtain ⟨_, k, low, high, rfl⟩ := queryLoop_mem member
          rw [numbered id (Nat.le_refl id) (by omega), rest k low high]
          omega
        · exact ih rest

/-- A matching entry is in the page, or the page was full before it. -/
theorem queryLoop_complete {k : Nat} (low : id ≤ k) (high : k < id + ids)
    (matching : level.rank ≤ (ring.get k).level.rank) :
    ring.get k ∈ queryLoop ring level ids id room ∨
      (queryLoop ring level ids id room).length = room ∧
        ∀ entry ∈ queryLoop ring level ids id room, entry.id < k := by
  induction ids generalizing id room with
  | zero => omega
  | succ ids ih =>
      have rest : ∀ k, id + 1 ≤ k → k < id + 1 + ids → (ring.get k).id = k :=
        fun k low high => numbered k (by omega) (by omega)
      rw [queryLoop]
      split
      · rename_i full
        exact Or.inr ⟨by simp [full], by simp⟩
      · rename_i space
        rcases Nat.eq_or_lt_of_le low with rfl | later
        · rw [if_pos matching]
          exact Or.inl List.mem_cons_self
        · split
          · have behind : ring.get k ∈ queryLoop ring level ids (id + 1) (room - 1) ∨
                (queryLoop ring level ids (id + 1) (room - 1)).length = room - 1 ∧
                  ∀ entry ∈ queryLoop ring level ids (id + 1) (room - 1), entry.id < k :=
              ih rest later (by omega)
            rcases behind with found | ⟨full, below⟩
            · exact Or.inl (List.mem_cons_of_mem _ found)
            · refine Or.inr ⟨by rw [List.length_cons, full]; omega, ?_⟩
              intro entry member
              rcases List.mem_cons.mp member with rfl | among
              · rw [numbered id (Nat.le_refl id) (by omega)]
                exact later
              · exact below entry among
          · exact ih rest later (by omega)

end Query

/-- A page of the entries of a level from an id on. -/
structure PageOf (entries : List LogEntry) (oldest next minId : Nat) (level : LogLevel) (max : Nat)
    (page : List LogEntry) : Prop where
  fits : page.length ≤ max
  increasing : page.Pairwise fun a b => a.id < b.id
  matching : ∀ entry ∈ page, entry ∈ entries ∧ level.rank ≤ entry.level.rank
  range : ∀ entry ∈ page, minId ≤ entry.id ∧ oldest ≤ entry.id ∧ entry.id < next
  complete : ∀ entry ∈ entries, level.rank ≤ entry.level.rank → minId ≤ entry.id →
    entry.id < next → entry ∈ page ∨ entry.id < oldest ∨
      page.length = max ∧ ∀ other ∈ page, other.id < entry.id

/-- A page does not change with the entries logged after it. -/
theorem PageOf.later {entries : List LogEntry} {oldest next minId max : Nat} {level : LogLevel}
    {page : List LogEntry} (before : PageOf entries oldest next minId level max page)
    {entry : LogEntry} (behind : next ≤ entry.id) :
    PageOf (entries ++ [entry]) oldest next minId level max page where
  fits := before.fits
  increasing := before.increasing
  matching := by
    intro other member
    obtain ⟨listed, matching⟩ := before.matching other member
    exact ⟨List.mem_append_left _ listed, matching⟩
  range := before.range
  complete := by
    intro other member matching low high
    rcases List.mem_append.mp member with listed | last
    · exact before.complete other listed matching low high
    · rw [List.mem_singleton.mp last] at high
      omega

theorem PageOf.le_last {entries : List LogEntry} {oldest next minId max : Nat} {level : LogLevel}
    {page : List LogEntry} (isPage : PageOf entries oldest next minId level max page)
    {last : LogEntry} (ends : page.getLast? = some last) :
    last ∈ page ∧ ∀ entry ∈ page, entry.id ≤ last.id := by
  obtain ⟨front, rfl⟩ := List.getLast?_eq_some_iff.mp ends
  refine ⟨by simp, ?_⟩
  intro entry member
  rcases List.mem_append.mp member with inner | same
  · have increasing := (List.pairwise_append.mp isPage.increasing).2.2
    exact Nat.le_of_lt (increasing entry inner last List.mem_cons_self)
  · rw [List.mem_singleton.mp same]

theorem edogLogQuery_page {log : LogState} {entries : List LogEntry} (holds : LogHolds log entries)
    (minId : Nat) (level : LogLevel) (max : Nat) :
    PageOf entries log.oldestId log.nextId minId level max (edogLogQuery log minId level max) := by
  have first : log.oldestId ≤ log.firstId minId ∧ minId ≤ log.firstId minId := by
    unfold LogState.firstId
    split
    · omega
    · omega
  have numbered : ∀ k, log.firstId minId ≤ k →
      k < log.firstId minId + (log.nextId - log.firstId minId) → (log.ring.get k).id = k :=
    fun k low high => holds.get_id (by omega) (by omega)
  refine ⟨queryLoop_length_le _ _ _, queryLoop_increasing numbered, ?_, ?_, ?_⟩
  · intro entry member
    obtain ⟨matching, k, low, high, rfl⟩ := queryLoop_mem member
    exact ⟨holds.get_mem (by omega) (by omega), matching⟩
  · intro entry member
    obtain ⟨_, k, low, high, rfl⟩ := queryLoop_mem member
    rw [numbered k low high]
    omega
  · intro entry member matching low high
    by_cases gone : entry.id < log.oldestId
    · exact Or.inr (Or.inl gone)
    · have stored := holds.get_eq member (Nat.le_of_not_lt gone)
      have reached : log.firstId minId ≤ entry.id := by
        unfold LogState.firstId
        split
        · omega
        · exact low
      have found : log.ring.get entry.id ∈ edogLogQuery log minId level max ∨
          (edogLogQuery log minId level max).length = max ∧
            ∀ other ∈ edogLogQuery log minId level max, other.id < entry.id :=
        queryLoop_complete numbered reached (by omega) (by rw [stored]; exact matching)
      rw [stored] at found
      rcases found with here | full
      · exact Or.inl here
      · exact Or.inr (Or.inr full)

end EtherDog
