import EtherDog.Bus.Supervision

/-!
# Runs of the commands

`start` is documented as safe to repeat and `configure` as refused while the bus
runs.  Both hold of runs that stop a stuck master before they start the bus again
or replace the configuration, and neither holds of all runs.
-/

set_option autoImplicit false

namespace EtherDog

/-! ## The log of a command -/

theorem mem_logged {event : LifeEvent} {events : List (List MasterEvent)} :
    event ∈ logged events ↔
      ∃ i list entry, events[i]? = some list ∧ entry ∈ list ∧ event = .master i entry := by
  unfold logged
  simp only [List.mem_flatten, List.mem_reverse, List.mem_mapIdx]
  constructor
  · rintro ⟨_, ⟨i, bound, rfl⟩, member⟩
    obtain ⟨entry, found, rfl⟩ := List.mem_map.mp member
    exact ⟨i, events[i], entry, List.getElem?_eq_getElem bound, found, rfl⟩
  · rintro ⟨i, list, entry, found, member, rfl⟩
    obtain ⟨bound, rfl⟩ := List.getElem?_eq_some_iff.mp found
    exact ⟨_, ⟨i, bound, rfl⟩, List.mem_map_of_mem member⟩

theorem mem_logged_map {α : Type} {turns : List α} {entries : α → List MasterEvent}
    {event : LifeEvent} :
    event ∈ logged (turns.map entries) ↔
      ∃ i turn entry, turns[i]? = some turn ∧ entry ∈ entries turn ∧ event = .master i entry := by
  rw [mem_logged]
  constructor
  · rintro ⟨i, list, entry, found, member, rfl⟩
    rw [List.getElem?_map, Option.map_eq_some_iff] at found
    obtain ⟨turn, present, rfl⟩ := found
    exact ⟨i, turn, entry, present, member, rfl⟩
  · rintro ⟨i, turn, entry, present, member, rfl⟩
    exact ⟨i, entries turn, entry, by rw [List.getElem?_map, present]; rfl, member, rfl⟩

def OnlyMasters (events : List LifeEvent) : Prop :=
  ∀ event ∈ events, ∃ i entry, event = .master i entry

theorem logged_onlyMasters (events : List (List MasterEvent)) : OnlyMasters (logged events) := by
  intro event member
  obtain ⟨i, _, entry, _, _, same⟩ := mem_logged.mp member
  exact ⟨i, entry, same⟩

theorem needsStop_of_earlier {events history : List LifeEvent} {i : Nat}
    (only : OnlyMasters events) (earlier : needsStop history i = true) :
    needsStop (events ++ history) i = true := by
  induction events with
  | nil => exact earlier
  | cons event rest ih =>
      obtain ⟨j, entry, rfl⟩ := only event (by simp)
      have later := ih fun other member => only other (List.mem_cons_of_mem _ member)
      simp [needsStop, later]

theorem needsStop_of_mem {events history : List LifeEvent} {i : Nat} {entry : MasterEvent}
    (only : OnlyMasters events) (kind : entry = .gaveUp ∨ entry = .createFailed)
    (member : LifeEvent.master i entry ∈ events) : needsStop (events ++ history) i = true := by
  induction events with
  | nil => simp at member
  | cons event rest ih =>
      obtain ⟨j, other, rfl⟩ := only event (by simp)
      rcases List.mem_cons.mp member with same | later
      · cases same
        rcases kind with rfl | rfl <;> simp [needsStop]
      · have found := ih (fun event seen => only event (List.mem_cons_of_mem _ seen)) later
        simp [needsStop, found]

/-! ## The invariant -/

def LifeEvent.opensLive : LifeEvent → Bool
  | .master _ (.opened alive initialized) => alive || initialized
  | _ => false

/-- `Gone` says what is known of the masters that `g_masters` no longer reaches. -/
structure ServerInv (Gone : Master → Prop) (server : Server) (history : List LifeEvent) :
    Prop where
  masters : ∀ i m, server.masters[i]? = some m → MasterInv (needsStop history i) m
  abandoned : ∀ m ∈ server.abandoned, Gone m
  opened : ∀ event ∈ history, event.opensLive = false

/-- What the invariant needs of `Gone`. -/
structure LetGo (Gone : Master → Prop) : Prop where
  clean : ∀ m, Clean m → Gone m
  bus : ∀ m after masterIndex thread input, Gone m →
    busThreadTurn m masterIndex thread input = some after → Gone after
  monitor : ∀ m after thread seen states failures events, Gone m →
    monitorThreadTurn m thread seen states failures = some (after, events) → Gone after

theorem atMostOne_letGo : LetGo AtMostOne where
  clean _ clean := clean.atMostOne
  bus _ _ _ _ _ one turn := busThreadTurn_atMostOne one turn
  monitor _ _ _ _ _ _ _ one turn := monitorThreadTurn_atMostOne one turn

/-- A clean master has no thread to take a turn. -/
theorem clean_letGo : LetGo Clean where
  clean _ clean := clean
  bus m _ _ thread _ clean turn := by
    simp [busThreadTurn, clean.busThreads] at turn
  monitor m _ thread _ _ _ _ clean turn := by
    simp [monitorThreadTurn, clean.monitorThreads] at turn

def ConfigureInput.replaces : ConfigureInput → Bool
  | .clear => true
  | .load allocated parsed locksReady =>
      allocated && locksReady && parsed.any fun configs => !configs.isEmpty

theorem ecatBusConfigure_cases (server : Server) (input : ConfigureInput) :
    ecatBusConfigure server input = (server, false) ∨
      (ecatBusAnyActive server.masters = false ∧ input.replaces = true ∧
        ∃ configs : List Config, ecatBusConfigure server input =
          ({ freeMasters server with masters := configs.map freshMaster }, true)) := by
  unfold ecatBusConfigure
  by_cases active : ecatBusAnyActive server.masters = true
  · rw [if_pos active]
    exact Or.inl rfl
  · rw [if_neg active]
    have quiet : ecatBusAnyActive server.masters = false := by simpa using active
    cases input with
    | clear => exact Or.inr ⟨quiet, rfl, [], rfl⟩
    | load allocated parsed locksReady =>
        cases allocated with
        | false => exact Or.inl rfl
        | true =>
            cases parsed with
            | none => exact Or.inl rfl
            | some configs =>
                dsimp only
                by_cases empty : configs = []
                · rw [if_pos empty]
                  exact Or.inl rfl
                · rw [if_neg empty]
                  cases locksReady with
                  | false => exact Or.inl rfl
                  | true =>
                      have replaces : (ConfigureInput.load true (some configs) true).replaces =
                          true := by
                        simp [ConfigureInput.replaces, empty]
                      exact Or.inr ⟨quiet, replaces, configs, rfl⟩

section Commands
variable {Gone : Master → Prop} {server : Server} {history : List LifeEvent}

theorem freeMasters_abandoned (inv : ServerInv Gone server history)
    (released : ∀ m ∈ server.masters, Gone (destroyInstance m)) :
    ∀ m ∈ (freeMasters server).abandoned, Gone m := by
  intro m member
  rcases List.mem_append.mp member with earlier | now
  · exact inv.abandoned m earlier
  · obtain ⟨before, found, rfl⟩ := List.mem_map.mp now
    exact released before found

theorem configure_inv (inv : ServerInv Gone server history) (input : ConfigureInput)
    (released : ecatBusAnyActive server.masters = false → input.replaces = true →
      ∀ m ∈ server.masters, Gone (destroyInstance m)) :
    ServerInv Gone (ecatBusConfigure server input).1
      ((if (ecatBusConfigure server input).2 then [LifeEvent.configured] else []) ++ history) := by
  rcases ecatBusConfigure_cases server input with refused | ⟨quiet, replaces, configs, done⟩
  · rw [refused]
    exact inv
  · rw [done]
    refine ⟨?_, freeMasters_abandoned inv (released quiet replaces), ?_⟩
    · intro i m found
      obtain ⟨config, _, rfl⟩ := List.mem_map.mp (List.mem_of_getElem? found)
      exact freshMaster_inv _ config
    · intro event member
      rcases List.mem_cons.mp member with rfl | earlier
      · rfl
      · exact inv.opened event earlier

theorem start_master {outcome : Nat → StartOutcome} {i : Nat} {after : Master}
    (found : (ecatBusStart server outcome).1.masters[i]? = some after) :
    ∃ m, server.masters[i]? = some m ∧
      after = (startMaster m (server.nextThread + 2 * i) (outcome i)).1 := by
  simp only [ecatBusStart, List.getElem?_map, List.getElem?_mapIdx, Option.map_map,
    Option.map_eq_some_iff] at found
  obtain ⟨m, present, rfl⟩ := found
  exact ⟨m, present, rfl⟩

theorem start_event {outcome : Nat → StartOutcome} {event : LifeEvent} :
    event ∈ (ecatBusStart server outcome).2.2 ↔
      ∃ i m entry, server.masters[i]? = some m ∧
        entry ∈ (startMaster m (server.nextThread + 2 * i) (outcome i)).2.2 ∧
        event = .master i entry := by
  unfold ecatBusStart
  rw [mem_logged_map]
  constructor
  · rintro ⟨i, turn, entry, found, member, rfl⟩
    rw [List.getElem?_mapIdx, Option.map_eq_some_iff] at found
    obtain ⟨m, present, rfl⟩ := found
    exact ⟨i, m, entry, present, member, rfl⟩
  · rintro ⟨i, m, entry, present, member, rfl⟩
    exact ⟨i, _, entry, by rw [List.getElem?_mapIdx, present]; rfl, member, rfl⟩

theorem stop_event {event : LifeEvent} :
    event ∈ (ecatBusStop server).2 ↔
      ∃ i m entry, server.masters[i]? = some m ∧ entry ∈ (stopSingleMaster m).2 ∧
        event = .master i entry := by
  simp only [ecatBusStop, List.map_map]
  exact mem_logged_map

def NoneNeedsStop (server : Server) (history : List LifeEvent) : Prop :=
  ∀ i < server.masters.length, needsStop history i = false

theorem start_inv (inv : ServerInv Gone server history) (none : NoneNeedsStop server history)
    (outcome : Nat → StartOutcome) :
    ServerInv Gone (ecatBusStart server outcome).1
      ((ecatBusStart server outcome).2.2 ++ history) := by
  have only : OnlyMasters (ecatBusStart server outcome).2.2 := logged_onlyMasters _
  have free (i : Nat) (m : Master) (found : server.masters[i]? = some m) : MasterInv false m := by
    rw [← none i (List.getElem?_eq_some_iff.mp found).1]
    exact inv.masters i m found
  refine ⟨?_, inv.abandoned, ?_⟩
  · intro i after found
    obtain ⟨m, present, rfl⟩ := start_master found
    refine (startMaster_inv (free i m present) _ _).1.weaken fun failed => ?_
    have created := List.contains_iff_mem.mp failed
    exact needsStop_of_mem only (Or.inr rfl) (start_event.mpr ⟨i, m, _, present, created, rfl⟩)
  · intro event member
    rcases List.mem_append.mp member with now | earlier
    · obtain ⟨i, m, entry, present, logged, rfl⟩ := start_event.mp now
      rcases (startMaster_inv (free i m present) _ _).2 entry logged with rfl | rfl <;> rfl
    · exact inv.opened event earlier

theorem stop_master (inv : ServerInv Gone server history) {after : Master}
    (member : after ∈ (ecatBusStop server).1.masters) :
    Clean after ∧ (after.inst.busState = .idle ∨ after.inst.busState = .stopped) := by
  simp only [ecatBusStop, List.map_map, List.mem_map] at member
  obtain ⟨m, present, rfl⟩ := member
  obtain ⟨i, found⟩ := List.mem_iff_getElem?.mp present
  obtain ⟨clean, state, _⟩ := stopSingleMaster_spec (inv.masters i m found)
  exact ⟨clean, state⟩

theorem stop_opened (inv : ServerInv Gone server history) :
    ∀ event ∈ .stopped :: (ecatBusStop server).2 ++ history, event.opensLive = false := by
  intro event member
  rcases List.mem_append.mp member with now | earlier
  · rcases List.mem_cons.mp now with rfl | inStop
    · rfl
    · obtain ⟨i, m, entry, present, logged, rfl⟩ := stop_event.mp inStop
      rw [(stopSingleMaster_spec (inv.masters i m present)).2.2] at logged
      split at logged
      · rcases List.mem_cons.mp logged with rfl | other
        · rfl
        · rw [List.mem_singleton.mp other]
          rfl
      · simp at logged
  · exact inv.opened event earlier

theorem stop_inv (inv : ServerInv Gone server history) :
    ServerInv Gone (ecatBusStop server).1 (.stopped :: (ecatBusStop server).2 ++ history) := by
  refine ⟨?_, inv.abandoned, stop_opened inv⟩
  intro i after found
  obtain ⟨clean, idle | stopped⟩ := stop_master inv (List.mem_of_getElem? found)
  · exact Or.inl ⟨clean, Or.inl idle⟩
  · exact Or.inl ⟨clean, Or.inr (Or.inl stopped)⟩

theorem shutdown_inv (letGo : LetGo Gone) (inv : ServerInv Gone server history) :
    ServerInv Gone (ecatBusShutdown server).1
      (.stopped :: (ecatBusShutdown server).2 ++ history) := by
  refine ⟨by simp [ecatBusShutdown, freeMasters], ?_, stop_opened inv⟩
  apply freeMasters_abandoned (stop_inv inv)
  intro m member
  exact letGo.clean _ (destroyInstance_clean (stop_master inv member).1)

end Commands

/-! ## The turns of the threads -/

section Turns
variable {Gone : Master → Prop} {server : Server} {history : List LifeEvent}

/-- A turn on one master keeps the invariant if it keeps what is known of that master. -/
theorem replace_inv (inv : ServerInv Gone server history) {orphan : Bool} {index : Nat}
    {m after : Master} {events : List LifeEvent} (found : server.master? orphan index = some m)
    (only : OnlyMasters events) (unopened : ∀ event ∈ events, event.opensLive = false)
    (gone : Gone m → Gone after)
    (kept : orphan = false → MasterInv (needsStop history index) m →
      MasterInv (needsStop (events ++ history) index) after) :
    ServerInv Gone (server.replace orphan index after) (events ++ history) := by
  have opened : ∀ event ∈ events ++ history, event.opensLive = false := by
    intro event member
    rcases List.mem_append.mp member with now | earlier
    · exact unopened event now
    · exact inv.opened event earlier
  have weakened (i : Nat) (other : Master) (present : server.masters[i]? = some other) :
      MasterInv (needsStop (events ++ history) i) other :=
    (inv.masters i other present).weaken (needsStop_of_earlier only)
  cases orphan with
  | true =>
      refine ⟨weakened, ?_, opened⟩
      intro other member
      rcases List.mem_or_eq_of_mem_set member with earlier | rfl
      · exact inv.abandoned other earlier
      · exact gone (inv.abandoned m (List.mem_of_getElem? found))
  | false =>
      refine ⟨?_, inv.abandoned, opened⟩
      intro i other present
      simp only [Server.replace, Bool.false_eq_true, if_false, List.getElem?_set] at present
      split at present
      · rename_i same
        subst same
        split at present
        · cases Option.some.inj present
          exact kept rfl (inv.masters index m found)
        · simp at present
      · exact weakened i other present

theorem busThread_inv (letGo : LetGo Gone) (inv : ServerInv Gone server history)
    {orphan : Bool} {index thread : Nat} {input : CycleInput} {m after : Master}
    (found : server.master? orphan index = some m)
    (turn : busThreadTurn m index thread input = some after) :
    ServerInv Gone (server.replace orphan index after) ([] ++ history) := by
  apply replace_inv inv found
  · simp [OnlyMasters]
  · simp
  · intro gone
    exact letGo.bus m after index thread input gone turn
  · intro _ before
    exact busThreadTurn_inv before turn

theorem monitorThread_inv (letGo : LetGo Gone) (inv : ServerInv Gone server history)
    {orphan : Bool} {index thread : Nat} {seen : SeenCounters} {states : List UInt16}
    {failures : UInt32} {m after : Master} {entries : List MasterEvent}
    (found : server.master? orphan index = some m)
    (turn : monitorThreadTurn m thread seen states failures = some (after, entries)) :
    ServerInv Gone (server.replace orphan index after)
      ((if orphan then [] else entries.map (LifeEvent.master index)) ++ history) := by
  have gone : Gone m → Gone after :=
    fun gone => letGo.monitor m after thread seen states failures entries gone turn
  cases orphan with
  | true => exact replace_inv inv found (by simp [OnlyMasters]) (by simp) gone (by simp)
  | false =>
      have only : OnlyMasters (entries.map (LifeEvent.master index)) := by
        intro event member
        obtain ⟨entry, _, rfl⟩ := List.mem_map.mp member
        exact ⟨index, entry, rfl⟩
      obtain ⟨passed, kinds⟩ := monitorThreadTurn_inv (inv.masters index m found) turn
      apply replace_inv inv found only ?_ gone
      · intro _ _
        refine passed.weaken fun either => ?_
        rcases Bool.or_eq_true_iff.mp either with earlier | gaveUp
        · exact needsStop_of_earlier only earlier
        · apply needsStop_of_mem only (Or.inl rfl)
          exact List.mem_map_of_mem (List.contains_iff_mem.mp gaveUp)
      · intro event member
        obtain ⟨entry, logged, rfl⟩ := List.mem_map.mp member
        rw [kinds entry logged]
        rfl

end Turns

/-- One step of the server, under what the two commands that judge by
`bus_state` alone rely on. -/
theorem lifeStep_inv {Gone : Master → Prop} (letGo : LetGo Gone) {server next : Server}
    {history events : List LifeEvent} {action : LifeAction}
    (inv : ServerInv Gone server history)
    (starts : ∀ outcome, action = .start outcome → NoneNeedsStop server history)
    (replaces : ∀ input, action = .configure input → ecatBusAnyActive server.masters = false →
      input.replaces = true → ∀ m ∈ server.masters, Gone (destroyInstance m))
    (move : lifeStep server action = some (next, events)) :
    ServerInv Gone next (events ++ history) := by
  cases action with
  | configure input =>
      cases Option.some.inj move
      exact configure_inv inv input (replaces input rfl)
  | start outcome =>
      cases Option.some.inj move
      exact start_inv inv (starts outcome rfl) outcome
  | stop =>
      cases Option.some.inj move
      exact stop_inv inv
  | shutdown =>
      cases Option.some.inj move
      exact shutdown_inv letGo inv
  | busThread orphan index thread input =>
      simp only [lifeStep] at move
      split at move
      · simp at move
      · rename_i m found
        split at move
        · simp at move
        · rename_i after turn
          cases Option.some.inj move
          exact busThread_inv letGo inv found turn
  | monitorThread orphan index thread seen states failures =>
      simp only [lifeStep] at move
      split at move
      · simp at move
      · rename_i m found
        split at move
        · simp at move
        · rename_i after entries turn
          cases Option.some.inj move
          exact monitorThread_inv letGo inv found turn

theorem emptyServer_inv (Gone : Master → Prop) : ServerInv Gone emptyServer [] :=
  ⟨by simp [emptyServer], by simp [emptyServer], by simp⟩

/-! ## A master that gets stuck -/

/-- The master is configured and started, its slave leaves the bus, and the
monitor (thread 0) gives up. -/
def stuckRun : List LifeAction :=
  [.configure (.load true (some [fakeConfig]) true), .start fun _ => fakeStart] ++
    List.replicate 3 (.busThread false 0 1 (quietCycle (-1) none)) ++
    List.replicate 5 (.monitorThread false 0 0 ⟨0, 0⟩ [0x04] 0)

/-! ## Repeating a start -/

instance (m : Master) : Decidable (AtMostOne m) := inferInstanceAs (Decidable (_ ∧ _))

instance (server : Server) (history : List LifeEvent) :
    Decidable (NoneNeedsStop server history) :=
  inferInstanceAs (Decidable (∀ i < server.masters.length, needsStop history i = false))

/-- No instance has two threads of one kind, and every start that opened a
context found no live thread and no open context. -/
def SingleOwner (server : Server) (history : List LifeEvent) : Prop :=
  (∀ m ∈ server.masters ++ server.abandoned, AtMostOne m) ∧
    ∀ event ∈ history, event.opensLive = false

instance (server : Server) (history : List LifeEvent) : Decidable (SingleOwner server history) :=
  inferInstanceAs (Decidable (_ ∧ _))

/-- A start waits for the stop of every master whose recovery gave up or whose
threads could not be created. -/
def stopsBeforeStart : Transition.Guard Server LifeAction LifeEvent
  | server, history, .start _ => NoneNeedsStop server history
  | _, _, _ => True

instance (server : Server) (history : List LifeEvent) (action : LifeAction) :
    Decidable (stopsBeforeStart server history action) :=
  match action with
  | .start _ => inferInstanceAs (Decidable (NoneNeedsStop server history))
  | .configure _ | .stop | .shutdown | .busThread .. | .monitorThread .. => isTrue trivial

theorem start_owns_its_master {server : Server} {history : List LifeEvent}
    (reached : Transition.Reaches lifeStep stopsBeforeStart emptyServer server history) :
    SingleOwner server history := by
  have inv : ServerInv AtMostOne server history := by
    apply reached.invariant (ServerInv AtMostOne) (emptyServer_inv AtMostOne)
    intro state past action next events before allowed move
    apply lifeStep_inv atMostOne_letGo before ?_ ?_ move
    · rintro outcome rfl
      exact allowed
    · intro _ _ _ _ m member
      obtain ⟨i, found⟩ := List.mem_iff_getElem?.mp member
      exact destroyInstance_atMostOne (before.masters i m found).atMostOne
  refine ⟨?_, inv.opened⟩
  intro m member
  rcases List.mem_append.mp member with current | gone
  · obtain ⟨i, found⟩ := List.mem_iff_getElem?.mp current
    exact (inv.masters i m found).atMostOne
  · exact inv.abandoned m gone

theorem start_owns_its_master_fake :
    ∃ server history,
      Transition.Reaches lifeStep stopsBeforeStart emptyServer server history ∧
        server.masters.map (fun m => (m.busThreads, m.monitorThreads)) = [([3], [2])] ∧
        SingleOwner server history := by
  have restarted := Transition.exists_of_execute lifeStep stopsBeforeStart emptyServer
    (stuckRun ++ [.stop, .start fun _ => fakeStart])
    (fun server _ => server.masters.map (fun m => (m.busThreads, m.monitorThreads)) = [([3], [2])])
    (by decide)
  obtain ⟨server, history, reached, threads⟩ := restarted
  exact ⟨server, history, reached, threads, start_owns_its_master reached⟩

/-- The start after the monitor gave up opens the context under the old threads
and adds two new ones. -/
theorem repeated_start_doubles_threads :
    ¬∀ server history, Transition.Reaches lifeStep Transition.anyStep emptyServer server history →
      SingleOwner server history := by
  have doubled := Transition.exists_of_execute lifeStep Transition.anyStep emptyServer
    (stuckRun ++ [.start fun _ => fakeStart])
    (fun server history => ¬SingleOwner server history) (by decide)
  obtain ⟨server, history, reached, broken⟩ := doubled
  intro always
  exact broken (always server history reached)

/-! ## Replacing the configuration -/

def Released (m : Master) : Prop :=
  m.busThreads = [] ∧ m.monitorThreads = [] ∧ m.inst.soemInitialized = false

instance (m : Master) : Decidable (Released m) := inferInstanceAs (Decidable (_ ∧ _))

theorem Clean.released {m : Master} (clean : Clean m) : Released m :=
  ⟨clean.busThreads, clean.monitorThreads, clean.closed⟩

structure StopReachesAll (server : Server) : Prop where
  stop : ∀ m ∈ (ecatBusStop server).1.masters, Released m
  shutdown : ∀ m ∈ (ecatBusShutdown server).1.abandoned, Released m
  sameEvents : (ecatBusShutdown server).2 = (ecatBusStop server).2
  zeroed : ∀ i m, server.masters[i]? = some m → m.inst.soemInitialized = true →
    LifeEvent.master i .zeroedOutputs ∈ (ecatBusStop server).2
  requestedInit : ∀ i m, server.masters[i]? = some m → m.inst.soemInitialized = true →
    LifeEvent.master i .requestedInit ∈ (ecatBusStop server).2

/-- A successful configure finds every earlier instance released, what was let go
stays released, and stop and shutdown reach the rest. -/
structure AbandonsNothing (asked : ConfigureInput → Prop) (server : Server) : Prop where
  configure : ∀ input, asked input → (ecatBusConfigure server input).2 = true →
    ∀ m ∈ server.masters, Released m
  abandoned : ∀ m ∈ server.abandoned, Released m
  reachable : StopReachesAll server

/-- A start, and a configure that replaces the configuration, wait for the stop of
every master whose recovery gave up or whose threads could not be created. -/
def stopsBeforeReplacing : Transition.Guard Server LifeAction LifeEvent
  | server, history, .start _ => NoneNeedsStop server history
  | server, history, .configure input =>
      ecatBusAnyActive server.masters = false → input.replaces = true →
        NoneNeedsStop server history
  | _, _, _ => True

instance (server : Server) (history : List LifeEvent) (action : LifeAction) :
    Decidable (stopsBeforeReplacing server history action) :=
  match action with
  | .start _ => inferInstanceAs (Decidable (NoneNeedsStop server history))
  | .configure _ => inferInstanceAs (Decidable (_ → _ → NoneNeedsStop server history))
  | .stop | .shutdown | .busThread .. | .monitorThread .. => isTrue trivial

/-- With no active master and none that needs a stop, every master is clean. -/
theorem inactive_clean {Gone : Master → Prop} {server : Server} {history : List LifeEvent}
    (inv : ServerInv Gone server history) (quiet : ecatBusAnyActive server.masters = false)
    (none : NoneNeedsStop server history) {m : Master} (member : m ∈ server.masters) :
    Clean m := by
  obtain ⟨i, found⟩ := List.mem_iff_getElem?.mp member
  have known := inv.masters i m found
  rw [none i (List.getElem?_eq_some_iff.mp found).1] at known
  simp only [ecatBusAnyActive, List.any_eq_false, decide_eq_true_eq] at quiet
  have inactive := quiet m member
  rcases known with ⟨clean, _⟩ | ⟨_, operational | recovering | ⟨_, impossible⟩⟩
  · exact clean
  · simp [operational] at inactive
  · simp [recovering] at inactive
  · simp at impossible

theorem stop_reaches_all {server : Server} {history : List LifeEvent}
    (inv : ServerInv Clean server history) : StopReachesAll server := by
  have logs (i : Nat) (m : Master) (found : server.masters[i]? = some m)
      (isOpen : m.inst.soemInitialized = true) :
      (stopSingleMaster m).2 = [.requestedInit, .zeroedOutputs] := by
    rw [(stopSingleMaster_spec (inv.masters i m found)).2.2, if_pos isOpen]
  refine ⟨?_, ?_, rfl, ?_, ?_⟩
  · intro m member
    exact (stop_master inv member).1.released
  · intro m member
    exact ((shutdown_inv clean_letGo inv).abandoned m member).released
  · intro i m found isOpen
    exact stop_event.mpr ⟨i, m, _, found, by simp [logs i m found isOpen], rfl⟩
  · intro i m found isOpen
    exact stop_event.mpr ⟨i, m, _, found, by simp [logs i m found isOpen], rfl⟩

theorem configure_abandons_nothing {server : Server} {history : List LifeEvent}
    (reached : Transition.Reaches lifeStep stopsBeforeReplacing emptyServer server history) :
    AbandonsNothing (fun input => stopsBeforeReplacing server history (.configure input))
      server := by
  have inv : ServerInv Clean server history := by
    apply reached.invariant (ServerInv Clean) (emptyServer_inv Clean)
    intro state past action next events before allowed move
    apply lifeStep_inv clean_letGo before ?_ ?_ move
    · rintro outcome rfl
      exact allowed
    · rintro input rfl quiet replaces m member
      exact destroyInstance_clean (inactive_clean before quiet (allowed quiet replaces) member)
  refine ⟨?_, fun m member => (inv.abandoned m member).released, stop_reaches_all inv⟩
  intro input allowed done m member
  rcases ecatBusConfigure_cases server input with refused | ⟨quiet, replaces, _⟩
  · simp [refused] at done
  · exact (inactive_clean inv quiet (allowed quiet replaces) member).released

theorem configure_abandons_nothing_fake :
    ∃ server history,
      Transition.Reaches lifeStep stopsBeforeReplacing emptyServer server history ∧
        server.abandoned.length = 1 ∧ server.masters.any Master.alive = true ∧
        AbandonsNothing (fun input => stopsBeforeReplacing server history (.configure input))
          server := by
  have replaced := Transition.exists_of_execute lifeStep stopsBeforeReplacing emptyServer
    (stuckRun ++ [.stop, .configure (.load true (some [fakeConfig]) true),
      .start fun _ => fakeStart])
    (fun server _ => server.abandoned.length = 1 ∧ server.masters.any Master.alive = true)
    (by decide)
  obtain ⟨server, history, reached, count, alive⟩ := replaced
  exact ⟨server, history, reached, count, alive, configure_abandons_nothing reached⟩

/-- After the monitor gave up, clearing the configuration succeeds over two live
threads and an open context. -/
theorem configure_leaks_a_live_master :
    ¬∀ server history, Transition.Reaches lifeStep Transition.anyStep emptyServer server history →
      AbandonsNothing (fun _ => True) server := by
  have stuck := Transition.exists_of_execute lifeStep Transition.anyStep emptyServer stuckRun
    (fun server _ => (ecatBusConfigure server .clear).2 = true ∧
      ∃ m ∈ server.masters, ¬Released m) (by decide)
  obtain ⟨server, history, reached, done, m, member, held⟩ := stuck
  intro always
  exact held ((always server history reached).configure .clear trivial done m member)

end EtherDog
