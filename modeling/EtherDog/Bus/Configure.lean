import EtherDog.Lib.Printf
import EtherDog.Config.Exact
import EtherDog.Start.Phases
import EtherDog.Bus.Lifecycle

/-!
# Loading a configuration (src/bus.c)

`ecat_bus_configure` with everything it reads and writes: the file, the
allocation of the new array, the locks of each new master, `g_masters` and
`g_config_path`.  The new array is built aside and becomes `g_masters` at the
end; where a lock cannot be initialised the masters before it are destroyed
and the configurations from it on released.  `EtherDog.ecatBusConfigure` is
what the lifecycle sees of it.
-/

set_option autoImplicit false

namespace EtherDog

open CString

def configPathSize : Nat := 512
def errSize : Nat := 512

/-! ## Masters -/

structure CycleDiag where
  cycleCount : UInt64
  wkcErrorCount : UInt64
  noframeCount : UInt64
  busCycleNs : UInt64
  maxBusCycleNs : UInt64
  minBusCycleNs : UInt64
  avgBusCycleNsSum : Int
  periodNs : UInt64
  maxPeriodNs : UInt64
  minPeriodNs : UInt64
  avgPeriodNsSum : Int
  latencyNs : Int
  maxLatencyNs : Int
  minLatencyNs : Int
  avgLatencyNsSum : Int
  deriving DecidableEq, Repr

def zeroDiag : CycleDiag := ⟨0, 0, 0, 0, 0, 0, 0, 0, 0, 0, 0, 0, 0, 0, 0⟩

/-- The minima start at the maximum so that the first sample wins. -/
def diagReset : CycleDiag :=
  { zeroDiag with
    minBusCycleNs := UInt64.ofNat (2 ^ 64 - 1)
    minPeriodNs := UInt64.ofNat (2 ^ 64 - 1)
    minLatencyNs := 2 ^ 63 - 1 }

structure Locks where
  slavesMutex : Bool
  acyclicLock : Bool
  dataLock : Bool
  deriving DecidableEq, Repr

def noLocks : Locks := ⟨false, false, false⟩
def allLocks : Locks := ⟨true, true, true⟩

/-- `ecat_master_instance_t` with the fields that `Instance` leaves out. -/
structure Slot where
  name : Text
  config : EcatConfig
  diag : CycleDiag
  cycleCounter : UInt64
  overruns : UInt64
  locks : Locks
  master : Master
  deriving DecidableEq, Repr

/-- A zeroed instance after the parser. -/
def callocSlot (parsed : ParsedInstance) : Slot :=
  ⟨parsed.name, parsed.config, zeroDiag, 0, 0, noLocks,
    ⟨zeroInstance parsed.config.summary, [], []⟩⟩

/-- The globals of src/bus.c; `abandoned` are masters that `free_masters` let go. -/
structure BusGlobals where
  masters : List Slot
  abandoned : List Slot
  configPath : Text
  deriving DecidableEq, Repr

def destroySlot (slot : Slot) : Slot :=
  if slot.master.inst.busRunning || slot.master.inst.monitorRunning then slot
  else { slot with
    config := ecatConfigDestroy slot.config
    locks := noLocks
    master := destroyInstance slot.master }

def BusGlobals.freeMasters (globals : BusGlobals) : BusGlobals :=
  { globals with
    masters := []
    abandoned := globals.abandoned ++ globals.masters.map destroySlot }

/-! ## Locks -/

/-- Whether each initialisation of `init_instance_locks` succeeds. -/
abbrev LockAnswers : Type := Locks

def initInstanceLocks (slot : Slot) (answers : LockAnswers) : Slot × Bool :=
  if answers.slavesMutex = false then (slot, false)
  else if answers.acyclicLock = false then
    ({ slot with locks := { slot.locks with slavesMutex := false } }, false)
  else
    -- the session is zeroed before its lock is initialised
    let inst := ecatDataInit slot.master.inst
    let zeroed := { slot with master := { slot.master with inst := inst } }
    if answers.dataLock = false then
      ({ zeroed with locks := { slot.locks with slavesMutex := false, acyclicLock := false } },
        false)
    else ({ zeroed with locks := allLocks }, true)

def releaseConfig (slot : Slot) : Slot := { slot with config := ecatConfigDestroy slot.config }

def resetSlot (slot : Slot) : Slot :=
  { slot with
    diag := diagReset
    master := { slot.master with inst := { slot.master.inst with busState := .idle } } }

/-- The loop over the new masters; `done` are the ones with locks. -/
def lockMasters (answers : Nat → LockAnswers) (done : List Slot) : List Slot → List Slot × Bool
  | [] => (done, true)
  | slot :: rest =>
      match initInstanceLocks slot (answers done.length) with
      | (failed, false) => (done.map destroySlot ++ (failed :: rest).map releaseConfig, false)
      | (locked, true) => lockMasters answers (done ++ [resetSlot locked]) rest

/-! ## The command -/

def ConfigError.code : ConfigError → Int
  | .file => -1
  | .parse => -2
  | .memory => -3
  | .invalid => -4
  | .missing => -5

structure ConfigureRequest where
  /-- `none` and the empty path clear the configuration -/
  path : Option Text
  allocated : Bool
  file : ConfigFile
  locks : Nat → LockAnswers

structure ConfigureOutcome where
  globals : BusGlobals
  /-- the text of `err` where the command returns -1 -/
  failure : Option Text
  /-- what is left in the new array where it is given up -/
  givenUp : List Slot
  deriving DecidableEq, Repr

def invalidConfiguration (path : Text) (outcome : ParseOutcome) : Text :=
  snprintf errSize (text "invalid bus configuration '" ++ path ++ text "' (code " ++
    decimal ((outcome.failure.map ConfigError.code).getD 0) ++ text ", " ++
    decimal outcome.count ++ text " master(s))")

section Configure
variable (libc : LibC) (alloc : Alloc)

def parseRequest (request : ConfigureRequest) : ParseOutcome :=
  ecatConfigParseAll libc alloc request.file (List.replicate ecatMaxMasters emptyInstance)
    ecatMaxMasters

def loadConfiguration (globals : BusGlobals) (request : ConfigureRequest) (path : Text) :
    ConfigureOutcome :=
  if request.allocated = false then ⟨globals, some (text "out of memory"), []⟩
  else
    let parsed := parseRequest libc alloc request
    if parsed.failure ≠ none ∨ parsed.count = 0 then
      ⟨globals, some (invalidConfiguration path parsed), parsed.instances.map callocSlot⟩
    else
      let temp := (parsed.instances.take parsed.count).map callocSlot
      match lockMasters request.locks [] temp with
      | (released, false) =>
          ⟨globals, some (text "failed to initialize master locks"), released⟩
      | (masters, true) =>
          ⟨{ globals.freeMasters with
              masters := masters
              configPath := snprintf configPathSize path }, none, []⟩

def BusGlobals.ecatBusConfigure (globals : BusGlobals) (request : ConfigureRequest) :
    ConfigureOutcome :=
  if ecatBusAnyActive (globals.masters.map Slot.master) then
    ⟨globals, some (text "a master is running; stop the bus before reconfiguring"), []⟩
  else
    match request.path with
    | none => ⟨{ globals.freeMasters with configPath := [] }, none, []⟩
    | some [] => ⟨{ globals.freeMasters with configPath := [] }, none, []⟩
    | some (c :: rest) => loadConfiguration libc alloc globals request (c :: rest)

end Configure

/-! ## The locks of the new masters -/

def LockAnswers.ready (answers : LockAnswers) : Bool :=
  answers.slavesMutex && answers.acyclicLock && answers.dataLock

/-- A new master once its locks are there. -/
def freshSlot (parsed : ParsedInstance) : Slot :=
  { callocSlot parsed with
    diag := diagReset
    locks := allLocks
    master := freshMaster parsed.config.summary }

/-- A master of an array that was given up holds no lock and owns no slaves. -/
def SlotReleased (slot : Slot) : Prop := slot.locks = noLocks ∧ slot.config.slaves = none

theorem initInstanceLocks_ready (parsed : ParsedInstance) {answers : LockAnswers}
    (ready : answers.ready = true) :
    ∃ locked, initInstanceLocks (callocSlot parsed) answers = (locked, true) ∧
      resetSlot locked = freshSlot parsed := by
  simp only [LockAnswers.ready, Bool.and_eq_true] at ready
  obtain ⟨⟨first, second⟩, third⟩ := ready
  simp only [initInstanceLocks, first, second, third]
  exact ⟨_, rfl, rfl⟩

theorem initInstanceLocks_fails (parsed : ParsedInstance) {answers : LockAnswers}
    (unready : answers.ready = false) :
    ∃ failed, initInstanceLocks (callocSlot parsed) answers = (failed, false) ∧
      failed.locks = noLocks := by
  unfold initInstanceLocks
  split
  · exact ⟨_, rfl, rfl⟩
  · rename_i first
    split
    · exact ⟨_, rfl, rfl⟩
    · rename_i second
      dsimp only
      split
      · exact ⟨_, rfl, rfl⟩
      · rename_i third
        simp only [Bool.not_eq_false] at first second third
        simp [LockAnswers.ready, first, second, third] at unready

theorem destroySlot_released (parsed : ParsedInstance) :
    SlotReleased (destroySlot (freshSlot parsed)) :=
  ⟨rfl, rfl⟩

/-- The loop ends with every master fresh, or with all of them released. -/
theorem lockMasters_cases (answers : Nat → LockAnswers) (parsed done : List ParsedInstance) :
    ((∀ k < parsed.length, (answers (done.length + k)).ready = true) ∧
      lockMasters answers (done.map freshSlot) (parsed.map callocSlot) =
        ((done ++ parsed).map freshSlot, true)) ∨
    ((∃ k < parsed.length, (answers (done.length + k)).ready = false) ∧
      ∃ released, lockMasters answers (done.map freshSlot) (parsed.map callocSlot) =
        (released, false) ∧ released.length = (done ++ parsed).length ∧
          ∀ slot ∈ released, SlotReleased slot) := by
  induction parsed generalizing done with
  | nil =>
      left
      exact ⟨by simp, by simp [lockMasters]⟩
  | cons first rest ih =>
      rw [List.map_cons, lockMasters, List.length_map]
      cases ready : (answers done.length).ready with
      | false =>
          right
          obtain ⟨failed, failure, unlocked⟩ := initInstanceLocks_fails first ready
          rw [failure]
          refine ⟨⟨0, by simp, ready⟩, _, rfl, by simp, ?_⟩
          intro slot member
          rcases List.mem_append.mp member with destroyed | released
          · obtain ⟨locked, among, rfl⟩ := List.mem_map.mp destroyed
            obtain ⟨inst, _, rfl⟩ := List.mem_map.mp among
            exact destroySlot_released inst
          · rcases List.mem_cons.mp released with rfl | later
            · exact ⟨unlocked, rfl⟩
            · obtain ⟨untouched, among, rfl⟩ := List.mem_map.mp later
              obtain ⟨inst, _, rfl⟩ := List.mem_map.mp among
              exact ⟨rfl, rfl⟩
      | true =>
          obtain ⟨locked, success, fresh⟩ := initInstanceLocks_ready first ready
          rw [success]
          dsimp only
          rw [fresh]
          have turn : done.map freshSlot ++ [freshSlot first] = (done ++ [first]).map freshSlot := by
            simp
          rw [turn]
          rcases ih (done ++ [first]) with ⟨all, outcome⟩ | ⟨⟨k, below, unready⟩, released, outcome⟩
          · left
            refine ⟨?_, by simpa using outcome⟩
            intro k below
            cases k with
            | zero => exact ready
            | succ k =>
                have later := all k (by simpa using below)
                rwa [List.length_append, List.length_singleton, Nat.add_right_comm] at later
          · right
            refine ⟨⟨k + 1, by simpa using below, ?_⟩, released, by simpa using outcome⟩
            rwa [List.length_append, List.length_singleton, Nat.add_right_comm] at unready

/-! ## Refused or fresh -/

section Outcome
variable (libc : LibC) (alloc : Alloc) (globals : BusGlobals) (request : ConfigureRequest)

def newMasters : List ParsedInstance :=
  (parseRequest libc alloc request).instances.take (parseRequest libc alloc request).count

theorem loadConfiguration_cases (path : Text) :
    ((loadConfiguration libc alloc globals request path).globals = globals ∧
      (loadConfiguration libc alloc globals request path).failure ≠ none) ∨
    ((parseRequest libc alloc request).failure = none ∧
      (parseRequest libc alloc request).count ≠ 0 ∧
      loadConfiguration libc alloc globals request path =
        ⟨{ globals.freeMasters with
            masters := (newMasters libc alloc request).map freshSlot
            configPath := snprintf configPathSize path }, none, []⟩) := by
  unfold loadConfiguration
  split
  · exact Or.inl ⟨rfl, by simp⟩
  · dsimp only
    split
    · exact Or.inl ⟨rfl, by simp⟩
    · rename_i accepted
      rw [not_or, not_not] at accepted
      have locks := lockMasters_cases request.locks (newMasters libc alloc request) []
      rw [List.map_nil, List.nil_append, newMasters] at locks
      rcases locks with ⟨_, success⟩ | ⟨_, released, failure, _⟩
      · rw [success]
        exact Or.inr ⟨accepted.1, accepted.2, rfl⟩
      · rw [failure]
        exact Or.inl ⟨rfl, by simp⟩

theorem ecatBusConfigure_load {c : UInt8} {rest : Text} (path : request.path = some (c :: rest))
    (done : (globals.ecatBusConfigure libc alloc request).failure = none) :
    (parseRequest libc alloc request).failure = none ∧
      (parseRequest libc alloc request).count ≠ 0 ∧
      globals.ecatBusConfigure libc alloc request =
        ⟨{ globals.freeMasters with
            masters := (newMasters libc alloc request).map freshSlot
            configPath := snprintf configPathSize (c :: rest) }, none, []⟩ := by
  unfold BusGlobals.ecatBusConfigure at done ⊢
  split at done
  · simp at done
  · rename_i idle
    rw [if_neg idle, path]
    rw [path] at done
    dsimp only at done ⊢
    rcases loadConfiguration_cases libc alloc globals request (c :: rest) with
      ⟨_, refused⟩ | loaded
    · exact absurd done refused
    · exact loaded

theorem ecatBusConfigure_refused
    (refused : (globals.ecatBusConfigure libc alloc request).failure ≠ none) :
    (globals.ecatBusConfigure libc alloc request).globals = globals := by
  unfold BusGlobals.ecatBusConfigure at refused ⊢
  split
  · rfl
  · rename_i idle
    rw [if_neg idle] at refused
    split
    · rename_i cleared
      simp [cleared] at refused
    · rename_i cleared
      simp [cleared] at refused
    · rename_i c rest path
      rw [path] at refused
      dsimp only at refused
      rcases loadConfiguration_cases libc alloc globals request (c :: rest) with
        ⟨same, _⟩ | ⟨_, _, loaded⟩
      · exact same
      · rw [loaded] at refused
        simp at refused

end Outcome

theorem parseRequest_document {libc : LibC} {alloc : Alloc} {request : ConfigureRequest}
    (accepted : (parseRequest libc alloc request).failure = none) :
    ∃ root, request.file = .document root ∧ configsOf root ≠ [] ∧
      List.Forall₂ (fun configObj (parsed : ParsedInstance) =>
        ∃ alloc, parseSections libc alloc configObj = (parsed.config, none))
        (configsOf root) (newMasters libc alloc request) := by
  unfold parseRequest at accepted
  unfold newMasters parseRequest
  cases file : request.file with
  | unreadable => simp [file, ecatConfigParseAll] at accepted
  | malformed => simp [file, ecatConfigParseAll] at accepted
  | document root =>
      rw [file] at accepted
      exact ⟨root, rfl, parseAll_configs_ne_nil libc alloc root (by decide) accepted,
        parseAll_sections libc alloc root (by decide) (by decide) accepted⟩

theorem newMasters_ne_nil {libc : LibC} {alloc : Alloc} {request : ConfigureRequest}
    (accepted : (parseRequest libc alloc request).failure = none) :
    newMasters libc alloc request ≠ [] := by
  obtain ⟨root, _, someConfig, sections⟩ := parseRequest_document accepted
  intro empty
  rw [empty, List.forall₂_nil_right_iff] at sections
  exact someConfig sections

/-- Where a lock fails, every master of the new array is released. -/
theorem loadConfiguration_locks_fail (libc : LibC) (alloc : Alloc) (globals : BusGlobals)
    (request : ConfigureRequest) (path : Text) (allocated : request.allocated = true)
    (parsed : (parseRequest libc alloc request).failure = none)
    (counted : (parseRequest libc alloc request).count ≠ 0)
    (unready : ∃ k < (newMasters libc alloc request).length, (request.locks k).ready = false) :
    (loadConfiguration libc alloc globals request path).failure ≠ none ∧
      (loadConfiguration libc alloc globals request path).givenUp.length =
        (newMasters libc alloc request).length ∧
      ∀ slot ∈ (loadConfiguration libc alloc globals request path).givenUp, SlotReleased slot := by
  have locks := lockMasters_cases request.locks (newMasters libc alloc request) []
  rw [List.map_nil, List.nil_append] at locks
  rcases locks with ⟨all, _⟩ | ⟨_, released, failure, same, free⟩
  · obtain ⟨k, below, failed⟩ := unready
    have ready := all k below
    simp only [List.length_nil, Nat.zero_add] at ready
    simp [failed] at ready
  · rw [newMasters] at failure
    simp only [loadConfiguration, allocated, parsed, counted, failure]
    exact ⟨by simp, same, free⟩

/-! ## What the lifecycle sees -/

def BusGlobals.server (globals : BusGlobals) (nextThread : Nat) : Server :=
  ⟨globals.masters.map Slot.master, globals.abandoned.map Slot.master, nextThread⟩

def locksReady (libc : LibC) (alloc : Alloc) (request : ConfigureRequest) : Bool :=
  decide (∀ k < (newMasters libc alloc request).length, (request.locks k).ready = true)

def ConfigureRequest.input (libc : LibC) (alloc : Alloc) (request : ConfigureRequest) :
    ConfigureInput :=
  match request.path with
  | none => .clear
  | some [] => .clear
  | some (_ :: _) =>
      .load request.allocated
        (if (parseRequest libc alloc request).failure = none then
          some ((newMasters libc alloc request).map fun parsed => parsed.config.summary) else none)
        (locksReady libc alloc request)

theorem destroySlot_master (slot : Slot) :
    (destroySlot slot).master = destroyInstance slot.master := by
  unfold destroySlot
  split
  · rename_i alive
    rw [destroyInstance, if_pos alive]
  · rfl

theorem freeMasters_server (globals : BusGlobals) (nextThread : Nat) :
    globals.freeMasters.server nextThread = freeMasters (globals.server nextThread) := by
  simp [BusGlobals.freeMasters, BusGlobals.server, freeMasters, destroySlot_master]

theorem loadConfiguration_refines (libc : LibC) (alloc : Alloc) (globals : BusGlobals)
    (request : ConfigureRequest) (path : Text) (nextThread : Nat) :
    ((loadConfiguration libc alloc globals request path).globals.server nextThread,
        (loadConfiguration libc alloc globals request path).failure.isNone) =
      match request.allocated, (parseRequest libc alloc request).failure,
          locksReady libc alloc request with
      | true, none, true =>
          ({ freeMasters (globals.server nextThread) with
              masters := (newMasters libc alloc request).map fun parsed =>
                freshMaster parsed.config.summary }, true)
      | _, _, _ => (globals.server nextThread, false) := by
  cases allocated : request.allocated with
  | false => simp [loadConfiguration, allocated]
  | true =>
      cases parsed : (parseRequest libc alloc request).failure with
      | some failure => simp [loadConfiguration, allocated, parsed]
      | none =>
          have counted : (parseRequest libc alloc request).count ≠ 0 := by
            intro zero
            exact newMasters_ne_nil parsed (by simp [newMasters, zero])
          have locks := lockMasters_cases request.locks (newMasters libc alloc request) []
          simp only [List.map_nil, List.nil_append, List.length_nil, Nat.zero_add] at locks
          rcases locks with ⟨all, success⟩ | ⟨⟨k, below, unready⟩, released, failure, _⟩
          · have ready : locksReady libc alloc request = true := decide_eq_true all
            rw [ready, ← freeMasters_server]
            rw [newMasters] at success
            simp only [loadConfiguration, allocated, parsed, counted, success]
            refine Prod.ext ?_ rfl
            simp [BusGlobals.server, newMasters]
            rfl
          · have unable : locksReady libc alloc request = false := by
              refine decide_eq_false fun all => ?_
              simp [all k below] at unready
            rw [unable]
            rw [newMasters] at failure
            simp only [loadConfiguration, allocated, parsed, counted, failure]
            rfl

/-- The command refines the one of the lifecycle. -/
theorem ecatBusConfigure_refines (libc : LibC) (alloc : Alloc) (globals : BusGlobals)
    (request : ConfigureRequest) (nextThread : Nat) :
    ((globals.ecatBusConfigure libc alloc request).globals.server nextThread,
        (globals.ecatBusConfigure libc alloc request).failure.isNone) =
      ecatBusConfigure (globals.server nextThread) (request.input libc alloc) := by
  have sameActive : ecatBusAnyActive (globals.masters.map Slot.master) =
      ecatBusAnyActive (globals.server nextThread).masters := rfl
  unfold BusGlobals.ecatBusConfigure ecatBusConfigure ConfigureRequest.input
  rw [sameActive]
  split
  · rfl
  · split
    · exact Prod.ext (freeMasters_server globals nextThread) rfl
    · exact Prod.ext (freeMasters_server globals nextThread) rfl
    · rw [loadConfiguration_refines]
      cases request.allocated with
      | false => rfl
      | true =>
          cases parsed : (parseRequest libc alloc request).failure with
          | some failure => simp
          | none =>
              have nonempty := newMasters_ne_nil parsed
              cases locksReady libc alloc request with
              | false => simp [nonempty]
              | true => simp [nonempty, Function.comp_def]

structure NeverStarted (slot : Slot) : Prop where
  idle : slot.master.inst.busState = .idle
  diag : slot.diag = diagReset
  counters : slot.cycleCounter = 0 ∧ slot.overruns = 0
  session : slot.master.inst.data = { zeroSession with fd := -1 }
  threads : slot.master.busThreads = [] ∧ slot.master.monitorThreads = [] ∧
    slot.master.inst.busRunning = false ∧ slot.master.inst.monitorRunning = false
  unmapped : slot.master = freshMaster slot.config.summary

theorem freshSlot_neverStarted (parsed : ParsedInstance) : NeverStarted (freshSlot parsed) :=
  ⟨rfl, rfl, ⟨rfl, rfl⟩, rfl, ⟨rfl, rfl, rfl, rfl⟩, rfl⟩

/-- The globals hold exactly the masters of the file. -/
structure FreshlyConfigured (libc : LibC) (alloc : Alloc) (request : ConfigureRequest)
    (path : Text) (globals : BusGlobals) : Prop where
  file : (parseRequest libc alloc request).failure = none
  nonempty : globals.masters ≠ []
  masters : List.Forall₂ (fun (parsed : ParsedInstance) (slot : Slot) =>
      slot.name = parsed.name ∧ slot.config = parsed.config)
    (newMasters libc alloc request) globals.masters
  document : ∃ root, request.file = .document root ∧
    List.Forall₂ (fun configObj (slot : Slot) =>
      ∃ alloc, parseSections libc alloc configObj = (slot.config, none))
      (configsOf root) globals.masters
  started : ∀ slot ∈ globals.masters, NeverStarted slot
  path : globals.configPath = snprintf configPathSize path

/-- A refused configure changes nothing; one that loads a file leaves exactly its
masters, never started, whatever was configured before. -/
theorem configure_refused_or_fresh (libc : LibC) (alloc : Alloc) (globals : BusGlobals)
    (request : ConfigureRequest) :
    ((globals.ecatBusConfigure libc alloc request).failure ≠ none →
      (globals.ecatBusConfigure libc alloc request).globals = globals) ∧
    ∀ c rest, request.path = some (c :: rest) →
      (globals.ecatBusConfigure libc alloc request).failure = none →
      FreshlyConfigured libc alloc request (c :: rest)
          (globals.ecatBusConfigure libc alloc request).globals ∧
        ∀ other : BusGlobals, (other.ecatBusConfigure libc alloc request).failure = none →
          (other.ecatBusConfigure libc alloc request).globals.masters =
            (globals.ecatBusConfigure libc alloc request).globals.masters := by
  refine ⟨ecatBusConfigure_refused libc alloc globals request, ?_⟩
  intro c rest path done
  obtain ⟨accepted, counted, loaded⟩ := ecatBusConfigure_load libc alloc globals request path done
  rw [loaded]
  constructor
  · obtain ⟨root, file, _, sections⟩ := parseRequest_document accepted
    refine ⟨accepted, ?_, ?_, ⟨root, file, ?_⟩, ?_, rfl⟩
    · intro empty
      exact newMasters_ne_nil accepted (List.map_eq_nil_iff.mp empty)
    · dsimp only
      rw [List.forall₂_map_right_iff]
      exact List.forall₂_same.mpr fun _ _ => ⟨rfl, rfl⟩
    · dsimp only
      rw [List.forall₂_map_right_iff]
      exact sections
    · intro slot member
      obtain ⟨parsed, _, rfl⟩ := List.mem_map.mp member
      exact freshSlot_neverStarted parsed
  · intro other success
    rw [(ecatBusConfigure_load libc alloc other request path success).2.2]

def noMasters : BusGlobals := ⟨[], [], []⟩

def loadOne : ConfigureRequest where
  path := some (text "/etc/etherdog/bus.json")
  allocated := true
  file := .document (.array [fakeEntryJson "eth0" [fakeSlaveJson []]])
  locks := fun _ => allLocks

/-- A server whose master has run and gave up. -/
def usedServer : BusGlobals :=
  let configured := (noMasters.ecatBusConfigure noLibC (fun _ => true) loadOne).globals
  { configured with
    masters := configured.masters.map fun slot =>
      { slot with
        cycleCounter := 1000
        master := { slot.master with
          inst := { slot.master.inst with busState := .error, iomap := some [1, 2] } } } }

def otherFile : ConfigFile := .document (.array [fakeEntryJson "eth1" [fakeSlaveJson []]])

def loadOther (file : ConfigFile) : ConfigureRequest :=
  { loadOne with path := some (text "/tmp/other.json"), file := file }

theorem configure_refused_or_fresh_used :
    FreshlyConfigured noLibC (fun _ => true) (loadOther otherFile) (text "/tmp/other.json")
        (usedServer.ecatBusConfigure noLibC (fun _ => true) (loadOther otherFile)).globals ∧
      (usedServer.ecatBusConfigure noLibC (fun _ => true) (loadOther .malformed)).globals =
        usedServer :=
  ⟨((configure_refused_or_fresh noLibC (fun _ => true) usedServer (loadOther otherFile)).2 47 _ rfl
      (by decide +kernel)).1,
    (configure_refused_or_fresh noLibC (fun _ => true) usedServer (loadOther .malformed)).1
      (by decide +kernel)⟩

end EtherDog
