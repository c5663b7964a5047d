import EtherDog.Lib.Transition
import EtherDog.Log.Entries

/-!
# Paging through the log (src/control.c)

`logs_response` reads the ring in one critical section of `g_mutex` and, where
nothing matched, `edog_log_next_id` in another.  The machine interleaves
threads that log with a client that asks for one level and passes back the
`next_id` of the last reply.  That id goes through a double on its way, which
is exact up to 2^53.

A logged entry is lost where it is matched after the query that found nothing
and before the second critical section.
-/

set_option autoImplicit false

namespace EtherDog

open Transition

/-! ## The parameters of a request -/

/-- `(double)n`: 53 bits, ties to even. -/
def toDouble (n : Nat) : Nat :=
  if n < 2 ^ 53 then n
  else
    let unit := 2 ^ (Nat.log2 n - 52)
    let low := n / unit * unit
    if 2 * (n - low) < unit ∨ (2 * (n - low) = unit ∧ n / unit % 2 = 0) then low else low + unit

theorem toDouble_exact {n : Nat} (small : n ≤ 2 ^ 53) : toDouble n = n := by
  unfold toDouble
  split
  · rfl
  · have top : n = 2 ^ 53 := by omega
    subst top
    decide

/-- `min_id` of the request; a double beyond 64 bits has no defined value. -/
def fromOf (minId : Option Double) : Nat :=
  match minId with
  | some (.finite q) => if 0 < q then uint64 q.floor.toNat else 0
  | _ => 0

theorem fromOf_nat {n : Nat} (small : n < 2 ^ 64) : fromOf (some (.finite n)) = n := by
  unfold fromOf
  dsimp only
  split
  · have whole : (n : Rat).floor = n := by exact_mod_cast Rat.floor_intCast (n : Int)
    rw [whole, Int.toNat_natCast]
    exact Nat.mod_eq_of_lt small
  · rename_i zero
    simp only [Nat.cast_pos, Nat.pos_iff_ne_zero, ne_eq, not_not] at zero
    exact zero.symm

/-- `max` of the request, 500 where it is no number. -/
def limitOf (max : Option Int) : Nat :=
  let limit := max.getD 500
  if limit < 1 then 1 else if (edogLogRingSize : Int) < limit then edogLogRingSize else limit.toNat

theorem limitOf_pos (max : Option Int) : 1 ≤ limitOf max := by
  unfold limitOf
  dsimp only
  split
  · exact Nat.le_refl 1
  · split
    · decide
    · omega

/-- The id after the last entry of a page, or the next id of the log. -/
def nextIdAfter (page : List LogEntry) (log : LogState) : Nat :=
  match page.getLast? with
  | some entry => uint64 (entry.id + 1)
  | none => log.nextId

/-! ## The machine -/

/-- A request between its critical sections: what the first one found. -/
structure Found where
  minId : Nat
  oldest : Nat
  next : Nat
  max : Nat
  page : List LogEntry
  deriving DecidableEq, Repr

structure PagingState where
  log : LogState
  /-- the `min_id` of the next request -/
  minId : Option Double
  found : Option Found

structure LogsReply where
  found : Found
  nextId : Nat
  deriving DecidableEq, Repr

inductive PagingEvent where
  | logged (entry : LogEntry)
  | replied (reply : LogsReply)
  deriving DecidableEq, Repr

inductive PagingAction where
  | log (call : LogCall)
  | setLevel (level : LogLevel)
  | query (max : Option Int)
  | reply
  deriving DecidableEq, Repr

def findEntries (level : LogLevel) (log : LogState) (minId : Option Double) (max : Option Int) :
    Found where
  minId := fromOf minId
  oldest := log.oldestId
  next := log.nextId
  max := limitOf max
  page := edogLogQuery log (fromOf minId) level (limitOf max)

def pagingStep (level : LogLevel) : Step PagingState PagingAction PagingEvent
  | state, .log call =>
      some ({ state with log := vlog state.log call },
        if state.log.records call then [.logged (state.log.entryOf call)] else [])
  | state, .setLevel minLevel =>
      some ({ state with log := edogLogSetLevel state.log minLevel }, [])
  | state, .query max =>
      match state.found with
      | some _ => none
      | none =>
          some ({ state with found := some (findEntries level state.log state.minId max) }, [])
  | state, .reply =>
      match state.found with
      | none => none
      | some found =>
          let nextId := toDouble (nextIdAfter found.page state.log)
          some ({ state with minId := some (.finite nextId), found := none },
            [.replied ⟨found, nextId⟩])

def freshPaging : PagingState := ⟨freshLog, none, none⟩

/-! ## What the client has seen -/

def loggedEntries : List PagingEvent → List LogEntry
  | [] => []
  | .logged entry :: earlier => loggedEntries earlier ++ [entry]
  | .replied _ :: earlier => loggedEntries earlier

def pagingReplies : List PagingEvent → List LogsReply
  | [] => []
  | .logged _ :: earlier => pagingReplies earlier
  | .replied reply :: earlier => pagingReplies earlier ++ [reply]

def returned (history : List PagingEvent) : List LogEntry :=
  (pagingReplies history).flatMap fun reply => reply.found.page

/-- The reply that covers the id of the entry has it, or found it overwritten. -/
def Accounted (reply : LogsReply) (entry : LogEntry) : Prop :=
  reply.found.minId ≤ entry.id ∧ entry.id < reply.nextId ∧
    (entry ∈ reply.found.page ∨ entry.id < reply.found.oldest)

instance (reply : LogsReply) (entry : LogEntry) : Decidable (Accounted reply entry) :=
  inferInstanceAs (Decidable (_ ∧ _ ∧ _))

/-- Nothing is lost: entries come once and in order, each entry below the cursor
was returned or was overwritten when the query that covers it ran, and a query
leaves entries for later only in a full page. -/
structure NothingLost (level : LogLevel) (state : PagingState) (history : List PagingEvent) :
    Prop where
  increasing : (returned history).Pairwise fun a b => a.id < b.id
  matching : ∀ entry ∈ returned history,
    entry ∈ loggedEntries history ∧ level.rank ≤ entry.level.rank
  accounted : ∀ entry ∈ loggedEntries history, level.rank ≤ entry.level.rank →
    fromOf state.minId ≤ entry.id ∨ ∃ reply ∈ pagingReplies history, Accounted reply entry
  prompt : ∀ reply ∈ pagingReplies history, ∀ entry ∈ loggedEntries history,
    level.rank ≤ entry.level.rank → reply.nextId ≤ entry.id → entry.id < reply.found.next →
    reply.found.page.length = reply.found.max

/-- No entry of the level is logged between the critical sections of a request
that found nothing, and the next id stays a double's. -/
def quietBetween (level : LogLevel) : Guard PagingState PagingAction PagingEvent :=
  fun state _ action =>
    match action with
    | .log call =>
        state.log.records call = true →
          state.log.nextId < 2 ^ 53 ∧
            ¬ (state.found.any (fun found => found.page.isEmpty) = true ∧
              level.rank ≤ call.level.rank)
    | _ => True

/-! ## The invariant -/

/-- What a request found holds until its reply. -/
structure FoundHolds (level : LogLevel) (state : PagingState) (entries : List LogEntry)
    (found : Found) : Prop where
  cursor : found.minId = fromOf state.minId
  page : PageOf entries found.oldest found.next found.minId level found.max found.page
  positive : 1 ≤ found.max
  past : found.next ≤ state.log.nextId
  quiet : found.page = [] → ∀ entry ∈ entries, level.rank ≤ entry.level.rank →
    entry.id < found.next

structure PagingInv (level : LogLevel) (state : PagingState) (history : List PagingEvent) :
    Prop where
  holds : LogHolds state.log (loggedEntries history)
  exact : state.log.nextId ≤ 2 ^ 53
  cursor : fromOf state.minId ≤ state.log.nextId
  behind : ∀ entry ∈ returned history, entry.id < fromOf state.minId
  nothingLost : NothingLost level state history
  seen : ∀ reply ∈ pagingReplies history, reply.found.next ≤ state.log.nextId
  found : ∀ found, state.found = some found →
    FoundHolds level state (loggedEntries history) found

/-- The cursor after a request: what is below it was returned or was overwritten
before, and entries the query left out for another page are above it. -/
structure NextId (level : LogLevel) (entries : List LogEntry) (found : Found) (next : Nat) :
    Prop where
  advances : found.minId ≤ next
  below : ∀ entry ∈ found.page, entry.id < next
  accounted : ∀ entry ∈ entries, level.rank ≤ entry.level.rank → found.minId ≤ entry.id →
    entry.id < next → entry ∈ found.page ∨ entry.id < found.oldest
  prompt : ∀ entry ∈ entries, level.rank ≤ entry.level.rank → next ≤ entry.id →
    entry.id < found.next → found.page.length = found.max

theorem freshPaging_inv (level : LogLevel) : PagingInv level freshPaging [] where
  holds := freshLog_holds
  exact := by decide
  cursor := by decide
  behind := by simp [returned, pagingReplies]
  nothingLost := ⟨.nil, by simp [returned, pagingReplies], by simp [loggedEntries],
    by simp [pagingReplies]⟩
  seen := by simp [pagingReplies]
  found := by simp [freshPaging]

section Next
variable {level : LogLevel} {state : PagingState} {entries : List LogEntry} {found : Found}
  (holds : FoundHolds level state entries found)
include holds

/-- After an empty page the log's own next id. -/
theorem FoundHolds.next_of_empty (none : found.page = [])
    (cursor : fromOf state.minId ≤ state.log.nextId) :
    NextId level entries found state.log.nextId := by
  have past := holds.past
  have positive := holds.positive
  constructor
  · rw [holds.cursor]
    exact cursor
  · simp [none]
  · intro entry member matching low _
    have inside := holds.quiet none entry member matching
    rcases holds.page.complete entry member matching low inside with
      listed | gone | ⟨full, _⟩
    · exact Or.inl listed
    · exact Or.inr gone
    · simp [none] at full
      omega
  · intro entry member matching low high
    omega

/-- After a page the id behind its last entry. -/
theorem FoundHolds.next_of_last {last : LogEntry} (ends : found.page.getLast? = some last) :
    NextId level entries found (last.id + 1) := by
  obtain ⟨listed, highest⟩ := holds.page.le_last ends
  obtain ⟨lowest, retained, inside⟩ := holds.page.range last listed
  constructor
  · omega
  · intro entry member
    exact Nat.lt_succ_of_le (highest entry member)
  · intro entry member matching low high
    rcases holds.page.complete entry member matching low (by omega) with
      listed' | gone | ⟨_, below⟩
    · exact Or.inl listed'
    · exact Or.inr gone
    · have later := below last listed
      omega
  · intro entry member matching low high
    rcases holds.page.complete entry member matching (by omega) high with
      listed' | gone | ⟨full, _⟩
    · have bounded := highest entry listed'
      omega
    · omega
    · exact full

end Next

section Steps
variable {level : LogLevel} {state : PagingState} {history : List PagingEvent}
  (inv : PagingInv level state history)
include inv

theorem PagingInv.logged {call : LogCall} (records : state.log.records call = true)
    (small : state.log.nextId < 2 ^ 53)
    (quiet : ¬ (state.found.any (fun found => found.page.isEmpty) = true ∧
      level.rank ≤ call.level.rank)) :
    PagingInv level { state with log := vlog state.log call }
      (.logged (state.log.entryOf call) :: history) := by
  obtain ⟨holds, counted, _⟩ := vlog_records inv.holds records (by omega)
  have newId : (state.log.entryOf call).id = state.log.nextId := rfl
  refine ⟨holds, ?_, ?_, inv.behind, ?_, ?_, ?_⟩
  · dsimp only
    omega
  · have before := inv.cursor
    dsimp only
    omega
  · refine ⟨inv.nothingLost.increasing, ?_, ?_, ?_⟩
    · intro entry member
      obtain ⟨listed, matching⟩ := inv.nothingLost.matching entry member
      exact ⟨List.mem_append_left _ listed, matching⟩
    · intro entry member matching
      rcases List.mem_append.mp member with listed | last
      · exact inv.nothingLost.accounted entry listed matching
      · rw [List.mem_singleton.mp last, newId]
        exact Or.inl inv.cursor
    · intro reply among entry member matching low high
      rcases List.mem_append.mp member with listed | last
      · exact inv.nothingLost.prompt reply among entry listed matching low high
      · have past := inv.seen reply among
        rw [List.mem_singleton.mp last, newId] at high
        omega
  · intro reply among
    have past := inv.seen reply among
    dsimp only
    omega
  · intro found pending
    obtain ⟨cursor, page, positive, past, empty⟩ := inv.found found pending
    refine ⟨cursor, page.later (by omega), positive, ?_, ?_⟩
    · dsimp only
      omega
    · intro none entry member matching
      rcases List.mem_append.mp member with listed | last
      · exact empty none entry listed matching
      · -- the guard forbids it
        refine absurd ⟨?_, ?_⟩ quiet
        · rw [show state.found = some found from pending]
          simp [none]
        · rw [List.mem_singleton.mp last] at matching
          exact matching

theorem PagingInv.setLevel (minLevel : LogLevel) :
    PagingInv level { state with log := edogLogSetLevel state.log minLevel } history := by
  refine ⟨inv.holds.setLevel minLevel, inv.exact, inv.cursor, inv.behind, ?_, inv.seen, ?_⟩
  · exact ⟨inv.nothingLost.increasing, inv.nothingLost.matching, inv.nothingLost.accounted,
      inv.nothingLost.prompt⟩
  · intro found pending
    obtain ⟨cursor, page, positive, past, empty⟩ := inv.found found pending
    exact ⟨cursor, page, positive, past, empty⟩

theorem PagingInv.queried (max : Option Int) :
    PagingInv level { state with found := some (findEntries level state.log state.minId max) }
      history := by
  refine ⟨inv.holds, inv.exact, inv.cursor, inv.behind, ?_, inv.seen, ?_⟩
  · exact ⟨inv.nothingLost.increasing, inv.nothingLost.matching, inv.nothingLost.accounted,
      inv.nothingLost.prompt⟩
  · intro found pending
    cases pending
    refine ⟨rfl, edogLogQuery_page inv.holds _ _ _, limitOf_pos max, Nat.le_refl _, ?_⟩
    intro _ entry member _
    exact (inv.holds.id_range member).2

/-- The reply's `next_id`, as a double. -/
theorem PagingInv.next_id {found : Found} (pending : state.found = some found) :
    toDouble (nextIdAfter found.page state.log) ≤ state.log.nextId ∧
      NextId level (loggedEntries history) found
        (toDouble (nextIdAfter found.page state.log)) := by
  have holds := inv.found found pending
  have exact := inv.exact
  cases ends : found.page.getLast? with
  | none =>
      have none : found.page = [] := List.getLast?_eq_none_iff.mp ends
      have same : toDouble (nextIdAfter found.page state.log) = state.log.nextId := by
        simp only [nextIdAfter, ends]
        exact toDouble_exact exact
      rw [same]
      exact ⟨Nat.le_refl _, holds.next_of_empty none inv.cursor⟩
  | some last =>
      obtain ⟨listed, _⟩ := holds.page.le_last ends
      have inside := (holds.page.range last listed).2.2
      have past := holds.past
      have same : toDouble (nextIdAfter found.page state.log) = last.id + 1 := by
        have small : uint64 (last.id + 1) = last.id + 1 := Nat.mod_eq_of_lt (by omega)
        simp only [nextIdAfter, ends]
        rw [small]
        exact toDouble_exact (by omega)
      rw [same]
      exact ⟨by omega, holds.next_of_last ends⟩

/-- A page is returned, and the cursor moves behind it. -/
theorem PagingInv.returns {found : Found} (pending : state.found = some found) {next : Nat}
    (after : NextId level (loggedEntries history) found next) {later : PagingState}
    (read : fromOf later.minId = next) :
    NothingLost level later (.replied ⟨found, next⟩ :: history) := by
  obtain ⟨cursor, page, _, _, _⟩ := inv.found found pending
  have both : returned (.replied ⟨found, next⟩ :: history) = returned history ++ found.page := by
    simp [returned, pagingReplies]
  constructor
  · rw [both, List.pairwise_append]
    refine ⟨inv.nothingLost.increasing, page.increasing, ?_⟩
    intro entry earlier other here
    have before := inv.behind entry earlier
    have first := (page.range other here).1
    omega
  · rw [both]
    intro entry member
    rcases List.mem_append.mp member with earlier | here
    · exact inv.nothingLost.matching entry earlier
    · exact page.matching entry here
  · rw [read]
    intro entry member matching
    by_cases ahead : next ≤ entry.id
    · exact Or.inl ahead
    · right
      by_cases covered : found.minId ≤ entry.id
      · have below := Nat.lt_of_not_le ahead
        refine ⟨_, List.mem_append_right _ (List.mem_singleton.mpr rfl), covered, below, ?_⟩
        exact after.accounted entry member matching covered below
      · rcases inv.nothingLost.accounted entry member matching with early | ⟨reply, among, has⟩
        · omega
        · exact ⟨reply, List.mem_append_left _ among, has⟩
  · intro reply among entry member matching low high
    rcases List.mem_append.mp among with earlier | here
    · exact inv.nothingLost.prompt reply earlier entry member matching low high
    · rw [List.mem_singleton.mp here] at low high ⊢
      exact after.prompt entry member matching low high

theorem PagingInv.replied {found : Found} (pending : state.found = some found) :
    PagingInv level
      { state with
        minId := some (.finite (toDouble (nextIdAfter found.page state.log)))
        found := none }
      (.replied ⟨found, toDouble (nextIdAfter found.page state.log)⟩ :: history) := by
  obtain ⟨above, after⟩ := inv.next_id pending
  obtain ⟨cursor, _, _, past, _⟩ := inv.found found pending
  have exact := inv.exact
  have advances := after.advances
  have read : fromOf (some (.finite (toDouble (nextIdAfter found.page state.log)))) =
      toDouble (nextIdAfter found.page state.log) := fromOf_nat (by omega)
  refine ⟨inv.holds, exact, ?_, ?_, inv.returns pending after read, ?_, by simp⟩
  · dsimp only
    rw [read]
    exact above
  · dsimp only
    rw [read]
    intro entry member
    have among : entry ∈ returned history ++ found.page := by
      simpa [returned, pagingReplies] using member
    rcases List.mem_append.mp among with earlier | here
    · have before := inv.behind entry earlier
      omega
    · exact after.below entry here
  · intro reply among
    rcases List.mem_append.mp among with earlier | here
    · exact inv.seen reply earlier
    · rw [List.mem_singleton.mp here]
      exact past

end Steps

theorem pagingStep_inv {level : LogLevel} {state next : PagingState}
    {history events : List PagingEvent} {action : PagingAction}
    (inv : PagingInv level state history) (quiet : quietBetween level state history action)
    (move : pagingStep level state action = some (next, events)) :
    PagingInv level next (events ++ history) := by
  cases action with
  | log call =>
      simp only [pagingStep, Option.some.injEq, Prod.mk.injEq] at move
      obtain ⟨rfl, rfl⟩ := move
      by_cases records : state.log.records call = true
      · rw [if_pos records]
        obtain ⟨small, apart⟩ := quiet records
        exact inv.logged records small apart
      · rw [if_neg records, vlog, if_neg records]
        exact inv
  | setLevel minLevel =>
      simp only [pagingStep, Option.some.injEq, Prod.mk.injEq] at move
      obtain ⟨rfl, rfl⟩ := move
      exact inv.setLevel minLevel
  | query max =>
      cases pending : state.found with
      | some found => simp [pagingStep, pending] at move
      | none =>
          simp only [pagingStep, pending, Option.some.injEq, Prod.mk.injEq] at move
          obtain ⟨rfl, rfl⟩ := move
          exact inv.queried max
  | reply =>
      cases pending : state.found with
      | none => simp [pagingStep, pending] at move
      | some found =>
          simp only [pagingStep, pending, Option.some.injEq, Prod.mk.injEq] at move
          obtain ⟨rfl, rfl⟩ := move
          exact inv.replied pending

/-- In a run without entries between the two critical sections of an empty query
paging loses nothing. -/
theorem paging_loses_nothing (level : LogLevel) (state : PagingState)
    (history : List PagingEvent)
    (reached : Reaches (pagingStep level) (quietBetween level) freshPaging state history) :
    NothingLost level state history := by
  refine (reached.invariant (PagingInv level) (freshPaging_inv level) ?_).nothingLost
  intro state history action next events inv quiet move
  exact pagingStep_inv inv quiet move

/-- An entry between the two critical sections of the first, empty query. -/
def entryBetween : List PagingAction :=
  [.query none, .log ⟨.info, 0, [], CString.text "1/1 EtherCAT master(s) running"⟩, .reply]

/-- The reply says to go on behind the entry, which no query covers. -/
theorem entry_between_sections_lost :
    ¬ ∀ (level : LogLevel) (state : PagingState) (history : List PagingEvent),
        Reaches (pagingStep level) anyStep freshPaging state history →
        NothingLost level state history := by
  intro always
  have lost : ∃ state history,
      Reaches (pagingStep .info) anyStep freshPaging state history ∧
        ∃ entry ∈ loggedEntries history, LogLevel.info.rank ≤ entry.level.rank ∧
          ¬ fromOf state.minId ≤ entry.id ∧
          ∀ reply ∈ pagingReplies history, ¬ Accounted reply entry :=
    exists_of_execute (pagingStep .info) anyStep freshPaging entryBetween _ (by decide)
  obtain ⟨state, history, reached, entry, member, matching, before, missed⟩ := lost
  rcases (always .info state history reached).accounted entry member matching with
    ahead | ⟨reply, among, has⟩
  · exact before ahead
  · exact missed reply among has

/-- Two entries, of which the second is logged after a query that found the first. -/
def entryAfterPage : List PagingAction :=
  [.log ⟨.info, 0, [], []⟩, .query none, .log ⟨.info, 1, [], []⟩, .reply, .query none, .reply]

instance (level : LogLevel) (state : PagingState) (history : List PagingEvent)
    (action : PagingAction) : Decidable (quietBetween level state history action) := by
  cases action with
  | log call => exact inferInstanceAs (Decidable (_ → _))
  | setLevel level => exact isTrue trivial
  | query max => exact isTrue trivial
  | reply => exact isTrue trivial

theorem paging_loses_nothing_two_pages :
    ∃ state history, NothingLost .info state history ∧ (returned history).length = 2 := by
  have run : ∃ state history,
      Reaches (pagingStep .info) (quietBetween .info) freshPaging state history ∧
        (returned history).length = 2 :=
    exists_of_execute (pagingStep .info) (quietBetween .info) freshPaging entryAfterPage _
      (by decide)
  obtain ⟨state, history, reached, two⟩ := run
  exact ⟨state, history, paging_loses_nothing .info state history reached, two⟩

end EtherDog
