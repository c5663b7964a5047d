import EtherDog.Bus.Master

/-!
# The commands of the server (src/bus.c)

`Server` holds the masters that `g_masters` reaches and those it has let go:
`free_masters` leaks the array while a thread may still point into it.  The
commands are interleaved with whole cycles and monitor passes of the threads
that are alive on any of them.

Histories list the events newest first.
-/

set_option autoImplicit false

namespace EtherDog

structure Server where
  masters : List Master
  abandoned : List Master
  nextThread : Nat
  deriving DecidableEq, Repr

def emptyServer : Server := ⟨[], [], 0⟩

inductive LifeEvent where
  | master (index : Nat) (event : MasterEvent)
  | stopped
  | configured
  deriving DecidableEq, Repr

/-! ## Configure -/

def ecatBusAnyActive (masters : List Master) : Bool :=
  masters.any fun m => decide (m.inst.busState ≠ .idle ∧ m.inst.busState ≠ .stopped ∧
    m.inst.busState ≠ .error)

/-- A master whose flags say that a thread runs is left as it is. -/
def destroyInstance (m : Master) : Master :=
  if m.inst.busRunning || m.inst.monitorRunning then m
  else
    { m with inst := { ecatLayoutDestroy (ecatDataFreeBuffers (ecatDataClose m.inst)) with
      iomap := none
      iomapUsedSize := 0
      slavesSnapshot := none
      config := { m.inst.config with slaves := [] } } }

def freeMasters (server : Server) : Server :=
  { server with masters := [], abandoned := server.abandoned ++ server.masters.map destroyInstance }

/-- A configure request: no path, or what parsing the file gave and whether the
allocation and the lock initialisation worked. -/
inductive ConfigureInput where
  | clear
  | load (allocated : Bool) (parsed : Option (List Config)) (locksReady : Bool)
  deriving DecidableEq, Repr

def freshMaster (config : Config) : Master := ⟨ecatDataInit (zeroInstance config), [], []⟩

/-- Returns whether the command succeeded. -/
def ecatBusConfigure (server : Server) (input : ConfigureInput) : Server × Bool :=
  if ecatBusAnyActive server.masters then (server, false)
  else
    match input with
    | .clear => (freeMasters server, true)
    | .load false _ _ => (server, false)
    | .load true none _ => (server, false)
    | .load true (some configs) locksReady =>
        if configs = [] then (server, false)
        else if locksReady = false then (server, false)
        else ({ freeMasters server with masters := configs.map freshMaster }, true)

/-! ## Start, stop and shutdown -/

/-- The turn of one master in the loop of `ecat_bus_start`; also whether it runs. -/
def startMaster (m : Master) (fresh : Nat) (o : StartOutcome) :
    Master × Bool × List MasterEvent :=
  let state := m.inst.busState
  if state = .operational ∨ state = .recovering then (m, true, [])
  else if state ≠ .idle ∧ state ≠ .stopped ∧ state ≠ .error then (m, false, [])
  else startSingleMaster m fresh o

def logged (events : List (List MasterEvent)) : List LifeEvent :=
  (events.mapIdx fun i list => list.map (LifeEvent.master i)).reverse.flatten

/-- Returns how many masters run, or -1. -/
def ecatBusStart (server : Server) (outcome : Nat → StartOutcome) :
    Server × Int × List LifeEvent :=
  let turns := server.masters.mapIdx fun i m =>
    startMaster m (server.nextThread + 2 * i) (outcome i)
  let started := turns.countP fun turn => turn.2.1
  ({ server with
      masters := turns.map fun turn => turn.1
      nextThread := server.nextThread + 2 * server.masters.length },
    if started = 0 then -1 else started, logged (turns.map fun turn => turn.2.2))

def ecatBusStop (server : Server) : Server × List LifeEvent :=
  let turns := server.masters.map stopSingleMaster
  ({ server with masters := turns.map fun turn => turn.1 }, logged (turns.map fun turn => turn.2))

def ecatBusShutdown (server : Server) : Server × List LifeEvent :=
  let (stopped, events) := ecatBusStop server
  (freeMasters stopped, events)

/-! ## The machine -/

inductive LifeAction where
  | configure (input : ConfigureInput)
  | start (outcome : Nat → StartOutcome)
  | stop
  | shutdown
  /-- a cycle of a live bus thread; `orphan` for a master let go by `free_masters` -/
  | busThread (orphan : Bool) (index thread : Nat) (input : CycleInput)
  | monitorThread (orphan : Bool) (index thread : Nat) (seen : SeenCounters)
      (states : List UInt16) (failures : UInt32)

def Server.master? (server : Server) (orphan : Bool) (index : Nat) : Option Master :=
  if orphan then server.abandoned[index]? else server.masters[index]?

def Server.replace (server : Server) (orphan : Bool) (index : Nat) (m : Master) : Server :=
  if orphan then { server with abandoned := server.abandoned.set index m }
  else { server with masters := server.masters.set index m }

def lifeStep : Transition.Step Server LifeAction LifeEvent
  | server, .configure input =>
      let (next, done) := ecatBusConfigure server input
      some (next, if done then [.configured] else [])
  | server, .start outcome =>
      let (next, _, events) := ecatBusStart server outcome
      some (next, events)
  | server, .stop =>
      let (next, events) := ecatBusStop server
      some (next, .stopped :: events)
  | server, .shutdown =>
      let (next, events) := ecatBusShutdown server
      some (next, .stopped :: events)
  | server, .busThread orphan index thread input =>
      match server.master? orphan index with
      | none => none
      | some m =>
          match busThreadTurn m index thread input with
          | none => none
          | some after => some (server.replace orphan index after, [])
  | server, .monitorThread orphan index thread seen states failures =>
      match server.master? orphan index with
      | none => none
      | some m =>
          match monitorThreadTurn m thread seen states failures with
          | none => none
          | some (after, events) =>
              some (server.replace orphan index after,
                if orphan then [] else events.map (LifeEvent.master index))

/-- Since the last stop or configuration, the master's recovery gave up or one
of its threads could not be created. -/
def needsStop : List LifeEvent → Nat → Bool
  | [], _ => false
  | .stopped :: _, _ => false
  | .configured :: _, _ => false
  | .master index event :: earlier, i =>
      (decide (index = i) && (event == .gaveUp || event == .createFailed)) || needsStop earlier i

end EtherDog
