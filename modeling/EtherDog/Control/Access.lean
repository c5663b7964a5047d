import EtherDog.Control.Options
import EtherDog.Control.Server
import EtherDog.Data.Endpoint

/-!
# Who may use the control socket (src/control.c)

`edog_control_run` refuses a TCP listener without a token, `open_listener` any
that is not local, and `peer_allowed` clients of a unix listener that run as
another user.  `accessStep` is the server of `controlStep` with what `accept` and
`SO_PEERCRED` give instead of the judgement on it.

From the arguments of the service to the lines it carries out:
`only_authorized_executed`.
-/

set_option autoImplicit false

namespace EtherDog

open CString Inet Transition

def tcpPrefix : Text := text "tcp:"

/-! ## The listener -/

inductive ListenError where
  | invalidPath (path : Text)
  | invalidEndpoint (spec : Text)
  | notLoopback (spec : Text)
  | unsupported (spec : Text)
  | noSocket
  | cannotListen (name err : Text)
  deriving DecidableEq, Repr

def ListenError.message : ListenError → Option Text
  | .invalidPath path => text "control socket path invalid: '" ++ path ++ text "'"
  | .invalidEndpoint spec => text "control endpoint invalid: '" ++ spec ++ text "'"
  | .notLoopback spec => text "control endpoint must be a loopback ip:port: '" ++ spec ++ text "'"
  | .unsupported spec =>
      text "unsupported control endpoint '" ++ spec ++ text "' (unix:<path> or tcp:<ip>:<port>)"
  | .noSocket => none
  | .cannotListen name err => text "cannot listen on " ++ name ++ text ": " ++ err

structure ListenCalls where
  socket : Bool
  listen : Except Text Unit

structure Listener where
  isUnix : Bool
  addr : SockAddr
  deriving DecidableEq, Repr

def listenOn (calls : ListenCalls) (name : Text) (listener : Listener) :
    Except ListenError Listener :=
  if calls.socket = false then .error .noSocket
  else (calls.listen.mapError (.cannotListen name)).map fun _ => listener

/-- Here `strtol` may stop before the end of the port. -/
def openTcp (calls : ListenCalls) (spec rest : Text) : Except ListenError Listener :=
  match cutAtLast 58 rest with
  | none => .error (.invalidEndpoint spec)
  | some (host, port) =>
      if host.length ≥ hostSize then .error (.invalidEndpoint spec)
      else
        let number := (strtoll 10 port).1
        if number ≤ 0 ∨ number > 65535 then .error (.notLoopback spec)
        else
          match inetPton host with
          | none => .error (.notLoopback spec)
          | some address =>
              if isLoopback address then
                listenOn calls spec ⟨false, .inet address.toUInt32 (.ofNat number.toNat)⟩
              else .error (.notLoopback spec)

def openListener (calls : ListenCalls) (spec : Text) : Except ListenError Listener :=
  match spec.dropPrefix? unixPrefix with
  | some path =>
      if path = [] ∨ path.length ≥ sunPathSize then .error (.invalidPath path)
      else listenOn calls path ⟨true, .unix path⟩
  | none =>
      match spec.dropPrefix? tcpPrefix with
      | some rest => openTcp calls spec rest
      | none => .error (.unsupported spec)

inductive ControlRefusal where
  | tcpNeedsToken
  | tooManyUids
  | listener (error : ListenError)
  deriving DecidableEq, Repr

/-- The state of `edog_control_run` when its loop begins. -/
structure Listening where
  listener : Listener
  allowed : List UInt32
  deriving DecidableEq, Repr

def edogControlRun (calls : ListenCalls) (euid : UInt32) (run : ControlRun) :
    Except ControlRefusal Listening :=
  if (run.control.dropPrefix? tcpPrefix).isSome ∧ run.token = [] then .error .tcpNeedsToken
  else if run.allowUids.length > maxAllowUids then .error .tooManyUids
  else
    match openListener calls run.control with
    | .error error => .error (.listener error)
    | .ok listener => .ok ⟨listener, euid :: 0 :: run.allowUids⟩

def Listener.Local (listener : Listener) : Prop :=
  (listener.isUnix = true ∧ ∃ path, listener.addr = .unix path) ∨
    (listener.isUnix = false ∧ ∃ address port, listener.addr = .inet address port ∧
      address >>> 24 = 127)

theorem listenOn_ok {calls : ListenCalls} {name : Text} {listener found : Listener}
    (opened : listenOn calls name listener = .ok found) : found = listener := by
  unfold listenOn at opened
  split at opened
  · contradiction
  · cases listened : calls.listen with
    | error err => simp [listened, Except.mapError, Except.map] at opened
    | ok _ =>
        rw [listened] at opened
        exact (Except.ok.inj opened).symm

theorem openListener_local {calls : ListenCalls} {spec : Text} {listener : Listener}
    (opened : openListener calls spec = .ok listener) :
    listener.Local ∧ (listener.isUnix = false → (spec.dropPrefix? tcpPrefix).isSome = true) := by
  unfold openListener at opened
  split at opened
  · split at opened
    · contradiction
    · rw [listenOn_ok opened]
      exact ⟨Or.inl ⟨rfl, _, rfl⟩, fun tcp => absurd tcp (by simp)⟩
  · split at opened
    · rename_i rest tcp
      refine ⟨?_, fun _ => by rw [tcp]; rfl⟩
      unfold openTcp at opened
      split at opened
      · contradiction
      · split at opened
        · contradiction
        · dsimp only at opened
          split at opened
          · contradiction
          · split at opened
            · contradiction
            · split at opened
              · rename_i loopback
                rw [listenOn_ok opened]
                exact Or.inr ⟨rfl, _, _, rfl, beq_iff_eq.mp loopback⟩
              · contradiction
    · contradiction

/-- Behind a TCP listener there is a token, and the users are those named, root and its own. -/
theorem edogControlRun_ok {calls : ListenCalls} {euid : UInt32} {run : ControlRun}
    {listening : Listening} (started : edogControlRun calls euid run = .ok listening) :
    listening.listener.Local ∧ (listening.listener.isUnix = false → run.token ≠ []) ∧
      listening.allowed = euid :: 0 :: run.allowUids := by
  unfold edogControlRun at started
  split at started
  · contradiction
  · rename_i tokenGiven
    split at started
    · contradiction
    · cases opened : openListener calls run.control with
      | error error => simp [opened] at started
      | ok listener =>
          rw [opened] at started
          cases started
          obtain ⟨near, tcp⟩ := openListener_local opened
          exact ⟨near, fun inet empty => tokenGiven ⟨tcp inet, empty⟩, rfl⟩

/-! ## The server with its peers -/

/-- What `accept` gives: a connection and the user that `SO_PEERCRED` tells. -/
inductive Accepted where
  | failed
  | from (uid : Option UInt32)
  deriving DecidableEq, Repr

def peerAllowed (allowed : List UInt32) (uid : Option UInt32) : Bool :=
  uid.any fun uid => decide (uid ∈ allowed)

def incomingOf (listening : Listening) : Accepted → Incoming
  | .failed => .failed
  | .from uid =>
      if listening.listener.isUnix && !peerAllowed listening.allowed uid then .denied else .allowed

inductive AccessAction (World : Type) where
  | poll (incoming : Option Accepted) (ready : ClientSlot → Option (Recv World))
  | leave

inductive AccessEvent where
  | peer (conn : Nat) (uid : Option UInt32)
  | control (event : ControlEvent)
  deriving DecidableEq, Repr

def AccessEvent.control? : AccessEvent → Option ControlEvent
  | .control event => some event
  | .peer _ _ => none

def lowerAction {World : Type} (listening : Listening) : AccessAction World → ControlAction World
  | .poll incoming ready => .poll ⟨incoming.map (incomingOf listening), ready⟩
  | .leave => .leave

def peerOf {World : Type} (state : ControlState World) : AccessAction World → List AccessEvent
  | .poll (some (.from uid)) _ => [.peer state.accepted uid]
  | _ => []

def accessStep {World : Type} (svc : Services World) (token : Option Text)
    (listening : Listening) : Step (ControlState World) (AccessAction World) AccessEvent
  | state, action =>
      (controlStep svc token state (lowerAction listening action)).map fun (next, events) =>
        (next, events.map .control ++ peerOf state action)

/-! ## Whose connections they are -/

section Held
variable {World : Type}

def HeldIn (state : ControlState World) (conn : Nat) : Prop :=
  ∃ slot, (state.clients slot).fd = some conn

/-- The next state holds connections of the state, and events are theirs. -/
structure KeepsTo (state next : ControlState World) (events : List ControlEvent) : Prop where
  held : ∀ conn, HeldIn next conn → HeldIn state conn
  events : ∀ conn event, .client conn event ∈ events → HeldIn state conn

theorem KeepsTo.refl (state : ControlState World) : KeepsTo state state [] :=
  ⟨fun _ held => held, by simp⟩

theorem KeepsTo.trans {first second third : ControlState World} {events later : List ControlEvent}
    (one : KeepsTo first second events) (two : KeepsTo second third later) :
    KeepsTo first third (events ++ later) := by
  refine ⟨fun conn held => one.held conn (two.held conn held), fun conn event member => ?_⟩
  rcases List.mem_append.mp member with early | late
  · exact one.events conn event early
  · exact one.held conn (two.events conn event late)

/-- A slot is left to its connection or given up. -/
theorem KeepsTo.setSlot {state : ControlState World} {slot : ClientSlot} {conn : Nat}
    {client : Client} {events : List ControlEvent} (world : World) (exit : Bool)
    (held : (state.clients slot).fd = some conn)
    (same : client.fd = none ∨ client.fd = some conn)
    (own : ∀ other event, .client other event ∈ events → other = conn) :
    KeepsTo state
      { state with world := world, clients := setSlot state.clients slot client, exit := exit }
      events := by
  constructor
  · rintro other ⟨i, found⟩
    rcases held_setSlot found with ⟨_, found⟩ | ⟨_, found⟩
    · rcases same with gone | kept
      · rw [gone] at found
        contradiction
      · rw [kept] at found
        cases found
        exact ⟨slot, held⟩
    · exact ⟨i, found⟩
  · intro other event member
    rw [own other event member]
    exact ⟨slot, held⟩

theorem dropSlot_keepsTo (slot : ClientSlot) (state : ControlState World) :
    KeepsTo state (dropSlot slot state).1 (dropSlot slot state).2 := by
  unfold dropSlot
  split
  · exact .refl state
  · rename_i conn held
    refine .setSlot state.world state.exit held (Or.inl rfl) fun other event member => ?_
    exact (ControlEvent.client.inj (List.mem_singleton.mp member)).1

theorem serveSlot_keepsTo (svc : Services World) (token : Option Text)
    (ready : ClientSlot → Option (Recv World)) (slot : ClientSlot) (state : ControlState World) :
    KeepsTo state (serveSlot svc token ready slot state).1
      (serveSlot svc token ready slot state).2 := by
  unfold serveSlot
  split
  · exact .refl state
  · split
    · exact .refl state
    · rename_i recv _
      unfold serviceSlot
      split
      · exact .refl state
      · rename_i conn held
        have fd := @serviceClient_fd _ svc token
          ⟨recv.world, state.clients slot, false, []⟩ recv.bytes
        rw [held] at fd
        refine .setSlot _ _ held fd fun other event member => ?_
        rcases List.mem_cons.mp member with received | own
        · contradiction
        · obtain ⟨_, _, same⟩ := List.mem_map.mp own
          exact (ControlEvent.client.inj same).1.symm

theorem overSlots_keepsTo
    {visit : ClientSlot → ControlState World → ControlState World × List ControlEvent}
    (keeps : ∀ slot state, KeepsTo state (visit slot state).1 (visit slot state).2)
    (slots : List ClientSlot) (state : ControlState World) :
    KeepsTo state (overSlots visit slots state).1 (overSlots visit slots state).2 := by
  induction slots generalizing state with
  | nil => exact .refl state
  | cons slot rest ih => exact (keeps slot state).trans (ih (visit slot state).1)

/-- Only a connection that is let in comes into a slot. -/
theorem acceptClient_held (state : ControlState World) (incoming : Incoming) :
    (∀ conn, HeldIn (acceptClient state incoming).1 conn →
      HeldIn state conn ∨ (conn = state.accepted ∧ incoming = .allowed)) ∧
    ∀ conn event, .client conn event ∉ (acceptClient state incoming).2 := by
  cases incoming with
  | failed => exact ⟨fun conn held => Or.inl held, by simp [acceptClient]⟩
  | denied => exact ⟨fun conn held => Or.inl held, by simp [acceptClient]⟩
  | allowed =>
      rw [acceptClient]
      split
      · exact ⟨fun conn held => Or.inl held, by simp⟩
      · refine ⟨?_, by simp⟩
        rintro conn ⟨i, found⟩
        rcases held_setSlot found with ⟨_, found⟩ | ⟨_, found⟩
        · exact Or.inr ⟨(Option.some.inj found).symm, rfl⟩
        · exact Or.inl ⟨i, found⟩

end Held

/-! ## The invariant -/

/-- The server has seen who is behind the connection, and lets that user in. -/
def LetIn (listening : Listening) (conn : Nat) (history : List AccessEvent) : Prop :=
  ∃ uid, .peer conn uid ∈ history ∧
    (listening.listener.isUnix = true → peerAllowed listening.allowed uid = true)

section Invariant
variable {World : Type} {svc : Services World} {token : Option Text} {listening : Listening}

structure AccessInv (listening : Listening) (state : ControlState World)
    (history : List AccessEvent) : Prop where
  held : ∀ conn, HeldIn state conn → LetIn listening conn history
  served : ∀ conn event, .control (.client conn event) ∈ history → LetIn listening conn history

theorem LetIn.later {conn : Nat} {history : List AccessEvent} (known : LetIn listening conn history)
    (events : List AccessEvent) : LetIn listening conn (events ++ history) := by
  obtain ⟨uid, member, allowed⟩ := known
  exact ⟨uid, List.mem_append_right events member, allowed⟩

/-- The connections of the next state and of the events are in a slot, or are let in now. -/
theorem controlStep_held {state next : ControlState World} {action : AccessAction World}
    {events : List ControlEvent}
    (move : controlStep svc token state (lowerAction listening action) = some (next, events))
    (conn : Nat) (touched : HeldIn next conn ∨ ∃ event, .client conn event ∈ events) :
    HeldIn state conn ∨ ∃ uid, peerOf state action = [.peer conn uid] ∧
      (listening.listener.isUnix = true → peerAllowed listening.allowed uid = true) := by
  cases action with
  | leave =>
      rw [lowerAction, controlStep] at move
      split at move
      · contradiction
      · rw [Option.some.injEq, Prod.mk.injEq] at move
        obtain ⟨rfl, rfl⟩ := move
        have keeps := overSlots_keepsTo dropSlot_keepsTo (List.finRange maxClients) state
        rcases touched with held | ⟨event, member⟩
        · exact Or.inl (keeps.held conn held)
        · exact Or.inl (keeps.events conn event (List.mem_reverse.mp member))
  | poll incoming ready =>
      rw [lowerAction, controlStep] at move
      split at move
      · contradiction
      · rw [Option.some.injEq, Prod.mk.injEq] at move
        obtain ⟨rfl, rfl⟩ := move
        have served := fun middle : ControlState World =>
          overSlots_keepsTo (serveSlot_keepsTo svc token ready) (inUse state) middle
        cases incoming with
        | none =>
            rcases touched with held | ⟨event, member⟩
            · exact Or.inl ((served state).held conn held)
            · exact Or.inl ((served state).events conn event (List.mem_reverse.mp member))
        | some accepted =>
            have middle : HeldIn (acceptClient state (incomingOf listening accepted)).1 conn := by
              rcases touched with held | ⟨event, member⟩
              · exact (served _).held conn held
              · rcases List.mem_append.mp (List.mem_reverse.mp member) with early | late
                · exact absurd early ((acceptClient_held state _).2 conn event)
                · exact (served _).events conn event late
            rcases (acceptClient_held state _).1 conn middle with held | ⟨rfl, allowed⟩
            · exact Or.inl held
            · cases accepted with
              | failed => contradiction
              | «from» uid =>
                  refine Or.inr ⟨uid, rfl, fun unix => ?_⟩
                  by_contra refused
                  rw [incomingOf, unix, Bool.eq_false_iff.mpr refused] at allowed
                  contradiction

theorem accessStep_inv {state next : ControlState World} {history events : List AccessEvent}
    {action : AccessAction World} (before : AccessInv listening state history)
    (move : accessStep svc token listening state action = some (next, events)) :
    AccessInv listening next (events ++ history) := by
  rw [accessStep, Option.map_eq_some_iff] at move
  obtain ⟨⟨after, done⟩, stepped, same⟩ := move
  rw [Prod.mk.injEq] at same
  obtain ⟨rfl, rfl⟩ := same
  have known : ∀ conn, (HeldIn after conn ∨ ∃ event, .client conn event ∈ done) →
      LetIn listening conn ((done.map .control ++ peerOf state action) ++ history) := by
    intro conn touched
    rcases controlStep_held stepped conn touched with held | ⟨uid, peer, allowed⟩
    · exact (before.held conn held).later _
    · refine ⟨uid, List.mem_append_left _ (List.mem_append_right _ ?_), allowed⟩
      rw [peer]
      exact List.mem_singleton_self _
  constructor
  · exact fun conn held => known conn (Or.inl held)
  · intro conn event member
    rcases List.mem_append.mp member with new | old
    · rcases List.mem_append.mp new with control | peer
      · obtain ⟨found, listed, same⟩ := List.mem_map.mp control
        cases same
        exact known conn (Or.inr ⟨event, listed⟩)
      · exfalso
        unfold peerOf at peer
        split at peer
        · simp at peer
        · contradiction
    · exact (before.served conn event old).later _

theorem reached_access {initial : World} {state : ControlState World} {history : List AccessEvent}
    (reached : Reaches (accessStep svc token listening) anyStep (startControl initial) state
      history) : AccessInv listening state history := by
  refine reached.invariant (AccessInv listening) ⟨?_, by simp⟩
    (fun _ _ _ _ _ before _ move => accessStep_inv before move)
  rintro conn ⟨slot, found⟩
  simp [startControl, freeSlot] at found

theorem reached_control {initial : World} {state : ControlState World}
    {history : List AccessEvent}
    (reached : Reaches (accessStep svc token listening) anyStep (startControl initial) state
      history) :
    Reaches (controlStep svc token) anyStep (startControl initial) state
      (history.filterMap AccessEvent.control?) := by
  refine reached.project id (lowerAction listening) AccessEvent.control?
    fun state action next events move => ?_
  rw [accessStep, Option.map_eq_some_iff] at move
  obtain ⟨⟨after, done⟩, stepped, same⟩ := move
  rw [Prod.mk.injEq] at same
  obtain ⟨rfl, rfl⟩ := same
  have silent : (peerOf state action).filterMap AccessEvent.control? = [] := by
    unfold peerOf
    split
    · rfl
    · rfl
  rw [List.filterMap_append, silent, List.append_nil, List.filterMap_map]
  simpa [AccessEvent.control?, Function.comp_def] using stepped

end Invariant

/-! ## From the arguments to the commands -/

/-- What has come before a command is carried out for a connection. -/
structure Authorized {World : Type} (svc : Services World) (args : List Text) (euid : UInt32)
    (token : Text) (listener : Listener) (history : List AccessEvent) (conn : Nat)
    (before : List ClientEvent) : Prop where
  near : listener.Local
  peer : ∃ uid, .peer conn uid ∈ history ∧ (listener.isUnix = true →
    ∃ user, uid = some user ∧ (user = euid ∨ user = 0 ∨ NamedUid args user))
  secret : listener.isUnix = false → token ≠ []
  hello : token ≠ [] → ∃ hello, .handled hello none ∈ before ∧ HelloWith svc token hello

theorem logged_of_mem_traceOf {conn : Nat} {event : ClientEvent} {history : List AccessEvent}
    (member : event ∈ traceOf conn (history.filterMap AccessEvent.control?)) :
    .control (.client conn event) ∈ history := by
  obtain ⟨logged, listed, own⟩ := List.mem_filterMap.mp member
  obtain ⟨access, among, control⟩ := List.mem_filterMap.mp (List.mem_reverse.mp listed)
  cases access with
  | peer => contradiction
  | control found =>
      cases Option.some.inj control
      cases logged with
      | client owner done =>
          dsimp only at own
          split at own
          · rename_i same
            cases Option.some.inj own
            rwa [same] at among
          · contradiction
      | _ => contradiction

/-- Whatever the service is started with and whoever connects: commands are carried out for
users that may connect, and behind a hello where there is a token. -/
theorem only_authorized_executed {World : Type} {svc : Services World} {answers : MainAnswers}
    {args : List Text} {run : ControlRun} {calls : ListenCalls} {euid : UInt32}
    {listening : Listening} {initial : World} {state : ControlState World}
    {history : List AccessEvent} {conn : Nat} {before after : List ClientEvent} {line : Text}
    {command : Command} (runs : etherdogMain answers args = .ok run)
    (started : edogControlRun calls euid run = .ok listening)
    (reached : Reaches (accessStep svc (some run.token) listening) anyStep (startControl initial)
      state history)
    (executed : traceOf conn (history.filterMap AccessEvent.control?) =
      before ++ .handled line (some command) :: after) :
    Authorized svc args euid run.token listening.listener history conn before := by
  obtain ⟨near, secret, users⟩ := edogControlRun_ok started
  refine ⟨near, ?_, secret, fun nonempty => ?_⟩
  · have done : ClientEvent.handled line (some command) ∈
        traceOf conn (history.filterMap AccessEvent.control?) := by
      rw [executed]
      exact List.mem_append_right _ List.mem_cons_self
    obtain ⟨uid, seen, allowed⟩ := (reached_access reached).served conn _
      (logged_of_mem_traceOf done)
    refine ⟨uid, seen, fun unix => ?_⟩
    obtain ⟨user, rfl, listed⟩ := (Option.any_eq_true _ _).mp (allowed unix)
    have among : user ∈ listening.allowed := of_decide_eq_true listed
    rw [users] at among
    refine ⟨user, rfl, ?_⟩
    rcases List.mem_cons.mp among with own | others
    · exact Or.inl own
    · rcases List.mem_cons.mp others with root | named
      · exact Or.inr (Or.inl root)
      · exact Or.inr (Or.inr ((etherdogMain_uids runs).2 user named))
  · obtain ⟨standing, disciplined⟩ := ((reached_orderly nonempty (reached_control reached)).always
      conn).1
    exact disciplined.enforced.after_hello before line command after executed

/-! ## A TCP listener and a client with the token -/

def tcpArgs : List Text :=
  [text "--control", text "tcp:127.0.0.1:4840", text "--token-stdin"]

def tokenOnStdin : MainAnswers where
  stdin := text "dog\n"
  envToken := none
  startSink := fun _ => true
  makeStateDir := fun _ => .ok ()
  configure := fun _ => .ok ()

def tcpRun : ControlRun := ⟨text "tcp:127.0.0.1:4840", text "dog", []⟩

def tcpListening : Listening := ⟨⟨false, .inet loopback.toUInt32 4840⟩, [1000, 0]⟩

def helloThenScan : List (AccessAction Unit) :=
  [.poll (some (.from none)) fun _ => none,
    .poll none fun slot =>
      if slot.val = 0 then some ⟨(), helloLine ++ [10] ++ text "scan" ++ [10]⟩ else none]

theorem only_authorized_executed_tcp :
    ∃ (state : ControlState Unit) (history : List AccessEvent) (before : List ClientEvent),
      Reaches (accessStep helloOnly (some tcpRun.token) tcpListening) anyStep (startControl ())
        state history ∧
      Authorized helloOnly tcpArgs 1000 tcpRun.token tcpListening.listener history 0 before := by
  obtain ⟨state, history, reached, executed⟩ := exists_of_execute
    (accessStep helloOnly (some tcpRun.token) tcpListening) anyStep (startControl ()) helloThenScan
    (fun _ history => traceOf 0 (history.filterMap AccessEvent.control?) =
      [.handled helloLine none, .sent helloResponse] ++
        .handled (text "scan") (some .bus) :: [.sent (errorText "invalid JSON")])
    (by decide +kernel)
  have runs : etherdogMain tokenOnStdin tcpArgs = .ok tcpRun := by decide +kernel
  have started : edogControlRun ⟨true, .ok ()⟩ 1000 tcpRun = .ok tcpListening := by
    decide +kernel
  exact ⟨state, history, _, reached, only_authorized_executed runs started reached executed⟩

end EtherDog
