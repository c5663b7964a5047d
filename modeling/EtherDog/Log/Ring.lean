import EtherDog.Log.Entries

/-!
# The log as a whole (src/log.c)

A run of the log is any sequence of calls that log or change the level.  As long
as fewer than 2^64 entries are logged, the ring holds the newest ones, each in
its slot, and a query is a filter of them.  The last of these entries takes the
last id: the counter wraps behind it and nothing is retained any more.
-/

set_option autoImplicit false

namespace EtherDog

inductive LogOp where
  | log (call : LogCall)
  | setLevel (level : LogLevel)
  deriving DecidableEq, Repr

/-- The log with every entry that was ever recorded. -/
structure LogRun where
  log : LogState
  entries : List LogEntry

def freshRun : LogRun := ⟨freshLog, []⟩

def LogRun.step (run : LogRun) : LogOp → LogRun
  | .log call =>
      { log := vlog run.log call
        entries := if run.log.records call then run.entries ++ [run.log.entryOf call]
          else run.entries }
  | .setLevel level => { run with log := edogLogSetLevel run.log level }

def logRun (ops : List LogOp) : LogRun := ops.foldl LogRun.step freshRun

def LogState.retains (log : LogState) (id : Nat) : Bool :=
  decide (log.oldestId ≤ id) && decide (id < log.nextId)

/-! ## A run -/

/-- The ring holds the entries, or the counter has just wrapped. -/
def LogKept (run : LogRun) : Prop :=
  (LogHolds run.log run.entries ∧ run.entries.length + 1 < 2 ^ 64) ∨
    (run.entries.length + 1 = 2 ^ 64 ∧ run.log.nextId = 0)

theorem LogRun.entries_step (run : LogRun) (op : LogOp) :
    run.entries.length ≤ (run.step op).entries.length := by
  cases op with
  | log call =>
      simp only [LogRun.step]
      split
      · simp
      · exact Nat.le_refl _
  | setLevel level => exact Nat.le_refl _

theorem LogKept.step {run : LogRun} (kept : LogKept run) (op : LogOp)
    (short : (run.step op).entries.length < 2 ^ 64) : LogKept (run.step op) := by
  cases op with
  | setLevel level =>
      rcases kept with ⟨holds, few⟩ | wrapped
      · exact Or.inl ⟨holds.setLevel level, few⟩
      · exact Or.inr wrapped
  | log call =>
      by_cases records : run.log.records call = true
      · have longer : (run.step (.log call)).entries = run.entries ++ [run.log.entryOf call] := by
          simp [LogRun.step, records]
        rw [longer] at short
        simp only [List.length_append, List.length_singleton] at short
        rcases kept with ⟨holds, few⟩ | ⟨full, _⟩
        · have counted := holds.counted
          rcases Nat.lt_or_ge (run.log.nextId + 1) (2 ^ 64) with small | last
          · refine Or.inl ⟨?_, ?_⟩
            · rw [longer]
              exact (vlog_records holds records small).1
            · rw [longer, List.length_append, List.length_singleton]
              omega
          · -- this entry has the id 2^64 - 1
            refine Or.inr ⟨?_, ?_⟩
            · rw [longer, List.length_append, List.length_singleton]
              omega
            · have exact64 : run.log.nextId + 1 = 2 ^ 64 := by omega
              simp only [LogRun.step, vlog, if_pos records, uint64]
              rw [exact64]
              exact Nat.mod_self _
        · omega
      · have unchanged : run.step (.log call) = run := by
          simp [LogRun.step, vlog, records]
        rw [unchanged]
        exact kept

theorem logRun_kept (ops : List LogOp) (short : (logRun ops).entries.length < 2 ^ 64) :
    LogKept (logRun ops) := by
  induction ops using List.reverseRecOn with
  | nil => exact Or.inl ⟨freshLog_holds, by simp [logRun, freshRun]⟩
  | append_singleton earlier op ih =>
      have last : logRun (earlier ++ [op]) = (logRun earlier).step op := by
        simp [logRun]
      rw [last] at short ⊢
      exact (ih (Nat.lt_of_le_of_lt (LogRun.entries_step _ op) short)).step op short

/-! ## A query -/

theorem queryLoop_eq (ring : LogRing LogEntry) (level : LogLevel) (ids id room : Nat) :
    queryLoop ring level ids id room =
      (((List.range' id ids).map ring.get).filter fun entry =>
        decide (level.rank ≤ entry.level.rank)).take room := by
  induction ids generalizing id room with
  | zero => simp [queryLoop]
  | succ ids ih =>
      rw [queryLoop, List.range'_succ, List.map_cons, List.filter_cons]
      cases room with
      | zero => simp
      | succ room =>
          rw [if_neg (Nat.succ_ne_zero room)]
          by_cases matching : level.rank ≤ (ring.get id).level.rank
          · rw [if_pos matching, if_pos (by simpa using matching), ih, List.take_succ_cons]
            rfl
          · rw [if_neg matching, if_neg (by simpa using matching), ih]

/-- Ids rise by one, so the entries from an id on are a tail of the log. -/
theorem LogHolds.filter_from {log : LogState} {entries : List LogEntry}
    (holds : LogHolds log entries) {first : Nat} (positive : 1 ≤ first) :
    (entries.filter fun entry => decide (first ≤ entry.id)) = entries.drop (first - 1) := by
  conv_lhs => rw [← List.take_append_drop (first - 1) entries]
  rw [List.filter_append]
  have before : ((entries.take (first - 1)).filter fun entry => decide (first ≤ entry.id)) = [] := by
    rw [List.filter_eq_nil_iff]
    intro entry member
    obtain ⟨i, inside, rfl⟩ := List.getElem_of_mem member
    rw [List.getElem_take]
    rw [List.length_take] at inside
    have numbered := holds.numbered i _ (List.getElem?_eq_getElem (by omega))
    rw [numbered]
    simp
    omega
  have behind : ((entries.drop (first - 1)).filter fun entry => decide (first ≤ entry.id)) =
      entries.drop (first - 1) := by
    rw [List.filter_eq_self]
    intro entry member
    obtain ⟨i, inside, rfl⟩ := List.getElem_of_mem member
    rw [List.getElem_drop]
    rw [List.length_drop] at inside
    have numbered := holds.numbered (first - 1 + i) _ (List.getElem?_eq_getElem (by omega))
    rw [numbered]
    simp
    omega
  rw [before, behind, List.nil_append]

/-- A query is a filter of the retained entries, cut at the room there is. -/
theorem LogHolds.query_eq {log : LogState} {entries : List LogEntry}
    (holds : LogHolds log entries) (minId : Nat) (level : LogLevel) (max : Nat) :
    edogLogQuery log minId level max =
      (entries.filter fun entry => log.retains entry.id && decide (minId ≤ entry.id) &&
        decide (level.rank ≤ entry.level.rank)).take max := by
  have first : log.oldestId ≤ log.firstId minId ∧
      ∀ id, log.firstId minId ≤ id ↔ log.oldestId ≤ id ∧ minId ≤ id := by
    unfold LogState.firstId
    split
    · exact ⟨Nat.le_refl _, fun id => by omega⟩
    · exact ⟨by omega, fun id => by omega⟩
  have old : LogRing.oldest log.ring.size log.nextId ≤ log.firstId minId := by
    rw [holds.size]
    exact first.1
  have positive : 1 ≤ log.firstId minId := Nat.le_trans (LogRing.oldest_pos _ _) first.1
  rw [edogLogQuery, queryLoop_eq, holds.holds.map_get old, ← holds.filter_from positive,
    List.filter_filter]
  congr 1
  apply List.filter_congr
  intro entry member
  have range := (holds.id_range member).2
  simp only [LogState.retains, decide_eq_true range, Bool.and_true]
  rw [Bool.and_comm]
  congr 1
  rw [← Bool.decide_and]
  exact decide_eq_decide.mpr (first.2 entry.id)

/-- Every retained slot holds the entry with its id, and a query returns the
first of the retained entries that are asked for, in the order of their ids. -/
theorem log_ring_faithful (ops : List LogOp)
    (short : (logRun ops).entries.length < 2 ^ 64) :
    (∀ id, (logRun ops).log.oldestId ≤ id → id < (logRun ops).log.nextId →
      ((logRun ops).log.ring.slots (id % edogLogRingSize)).id = id ∧
        (logRun ops).entries[id - 1]? =
          some ((logRun ops).log.ring.slots (id % edogLogRingSize))) ∧
    ∀ (minId : Nat) (level : LogLevel) (max : Nat),
      edogLogQuery (logRun ops).log minId level max =
          ((logRun ops).entries.filter fun entry => (logRun ops).log.retains entry.id &&
            decide (minId ≤ entry.id) && decide (level.rank ≤ entry.level.rank)).take max ∧
        (edogLogQuery (logRun ops).log minId level max).Pairwise fun a b => a.id < b.id := by
  have kept := logRun_kept ops short
  generalize logRun ops = run at kept
  rcases kept with ⟨holds, _⟩ | ⟨_, wrapped⟩
  · refine ⟨?_, ?_⟩
    · intro id low high
      have same := holds.get_id low high
      have stored := holds.holds.retained id (by rw [holds.size]; exact low) high
      rw [LogRing.get, holds.size] at same stored
      exact ⟨same, stored⟩
    · intro minId level max
      exact ⟨holds.query_eq minId level max, (edogLogQuery_page holds minId level max).increasing⟩
  · refine ⟨?_, ?_⟩
    · intro id _ high
      omega
    · intro minId level max
      have nothing : edogLogQuery run.log minId level max = [] := by
        rw [edogLogQuery, wrapped, Nat.zero_sub]
        rfl
      have noneRetained : ∀ entry : LogEntry, run.log.retains entry.id = false := by
        intro entry
        simp [LogState.retains, wrapped]
      rw [nothing]
      simp [noneRetained]

theorem log_ring_faithful_two :
    edogLogQuery (logRun [.log ⟨.info, 5, [], []⟩, .log ⟨.debug, 6, [], []⟩,
        .log ⟨.error, 7, [], []⟩]).log 0 .warn 10 =
      [⟨2, 7, .error, CString.text "ETHERDOG", []⟩] := by
  have result := (log_ring_faithful [.log ⟨.info, 5, [], []⟩, .log ⟨.debug, 6, [], []⟩,
    .log ⟨.error, 7, [], []⟩] (by decide)).2 0 .warn 10
  rw [result.1]
  decide

end EtherDog
