import EtherDog.Lib.CString
import EtherDog.Bus.Lifecycle

/-!
# The open_data command (src/bus.c, src/data.c)

`handle_open_data_command` opens a session on one running master after the
other and returns at the first that fails.  `ecat_data_open` closes the old
session before it knows whether the new one can be opened.  `SessionEvent`s
list what a command does to sessions, first event first.

What the command is answered is in `OpenDataAnswers`: the client's endpoint as
`edog_dgram_parse` reads it, and by the index of the master the socket of
`edog_dgram_open` and the id of `random_session`.
-/

set_option autoImplicit false

namespace EtherDog

open CString

structure DataSocket where
  fd : Nat
  endpoint : Text
  deriving DecidableEq, Repr

structure OpenDataAnswers where
  peer : Except Text SockAddr
  socket : Nat → Except Text DataSocket
  random : Nat → UInt64

structure OpenedSession where
  index : Nat
  endpoint : Text
  session : UInt64
  deriving DecidableEq, Repr

inductive SessionEvent where
  | closes (index : Nat) (session : UInt64)
  | opens (index : Nat) (session : UInt64)
  deriving DecidableEq, Repr

def masterHasLayout (inst : Instance) : Bool :=
  decide (inst.busState = .operational ∨ inst.busState = .recovering)

/-! ## One master -/

def hasBuffers (inst : Instance) : Bool := inst.data.rxBuf.isSome && inst.data.txBuf.isSome

/-- The text of `err` after a failed `ecat_data_open`. -/
def openDataError (answers : OpenDataAnswers) (i : Nat) (inst : Instance) : Text :=
  match answers.peer with
  | .error err => err
  | .ok _ =>
      if hasBuffers inst then
        match answers.socket i with
        | .error err => err
        | .ok _ => []
      else text "data buffers not allocated; start the bus first"

structure OpenedOne where
  inst : Instance
  result : Except Text OpenedSession
  events : List SessionEvent

def closeEvents (answers : OpenDataAnswers) (i : Nat) (inst : Instance) : List SessionEvent :=
  if answers.peer.isOk && inst.data.isOpen then [.closes i inst.data.session] else []

def openOne (answers : OpenDataAnswers) (i : Nat) (inst : Instance) : OpenedOne :=
  match ecatDataOpen inst answers.peer.toOption ((answers.socket i).toOption.map DataSocket.fd)
      (answers.random i) with
  | (after, none) =>
      ⟨after, .error (openDataError answers i inst), closeEvents answers i inst⟩
  | (after, some session) =>
      let endpoint := ((answers.socket i).toOption.map DataSocket.endpoint).getD []
      ⟨after, .ok ⟨i, endpoint, session⟩, closeEvents answers i inst ++ [.opens i session]⟩

/-! ## The command -/

structure OpenedAll where
  masters : List Master
  result : Except Text (List OpenedSession)
  events : List SessionEvent

/-- The loop over the masters from index `i` on. -/
def openMasters (answers : OpenDataAnswers) : Nat → List Master → OpenedAll
  | _, [] => ⟨[], .ok [], []⟩
  | i, m :: rest =>
      if masterHasLayout m.inst = false then
        let later := openMasters answers (i + 1) rest
        { later with masters := m :: later.masters }
      else
        let one := openOne answers i m.inst
        match one.result with
        | .error err => ⟨{ m with inst := one.inst } :: rest, .error err, one.events⟩
        | .ok opened =>
            let later := openMasters answers (i + 1) rest
            { masters := { m with inst := one.inst } :: later.masters
              result := later.result.map (opened :: ·)
              events := one.events ++ later.events }

inductive OpenDataReply where
  | missingEndpoint
  | failed (err : Text)
  | noMaster
  | opened (sessions : List OpenedSession)
  deriving DecidableEq, Repr

structure OpenDataOutcome where
  masters : List Master
  reply : OpenDataReply
  events : List SessionEvent

/-- `none` where the request has no endpoint text. -/
def handleOpenDataCommand (masters : List Master) (answers : Option OpenDataAnswers) :
    OpenDataOutcome :=
  match answers with
  | none => ⟨masters, .missingEndpoint, []⟩
  | some answers =>
      let all := openMasters answers 0 masters
      match all.result with
      | .error err => ⟨all.masters, .failed err, all.events⟩
      | .ok [] => ⟨all.masters, .noMaster, all.events⟩
      | .ok (first :: rest) => ⟨all.masters, .opened (first :: rest), all.events⟩

def OpenDataReply.isError (reply : OpenDataReply) : Bool :=
  match reply with
  | .opened _ => false
  | _ => true

/-! ## What one master does -/

/-- `ecat_data_open` succeeds, once the endpoint is read. -/
def canOpen (answers : OpenDataAnswers) (i : Nat) (inst : Instance) : Bool :=
  hasBuffers inst && (answers.socket i).isOk

section One
variable {answers : OpenDataAnswers} {peer : SockAddr} (i : Nat) (inst : Instance)

theorem openOne_refused {err : Text} (refused : answers.peer = .error err) :
    openOne answers i inst = ⟨inst, .error err, []⟩ := by
  simp [openOne, openDataError, closeEvents, refused, ecatDataOpen, Except.toOption, Except.isOk,
    Except.toBool]

/-- By the buffers and the socket of the master. -/
theorem canOpen_eq_false_iff :
    canOpen answers i inst = false ↔
      inst.data.rxBuf = none ∨ inst.data.txBuf = none ∨
        (answers.socket i).toOption = none := by
  unfold canOpen hasBuffers
  cases inst.data.rxBuf with
  | none => simp
  | some _ =>
      cases inst.data.txBuf with
      | none => simp
      | some _ =>
          cases answers.socket i with
          | error _ => simp [Except.toOption, Except.isOk, Except.toBool]
          | ok _ => simp [Except.toOption, Except.isOk, Except.toBool]

/-- A failure closes the old session and opens none. -/
theorem openOne_fails (read : answers.peer = .ok peer) (fails : canOpen answers i inst = false) :
    openOne answers i inst =
      ⟨ecatDataClose inst, .error (openDataError answers i inst), closeEvents answers i inst⟩ := by
  have closed : ecatDataOpen inst (some peer) ((answers.socket i).toOption.map DataSocket.fd)
      (answers.random i) = (ecatDataClose inst, none) := by
    rcases (canOpen_eq_false_iff i inst).mp fails with rx | tx | socket
    · simp [ecatDataOpen, ecatDataClose, closeLocked, rx]
    · simp [ecatDataOpen, ecatDataClose, closeLocked, tx]
    · simp [ecatDataOpen, ecatDataClose, socket]
  have given : answers.peer.toOption = some peer := by
    rw [read]
    rfl
  rw [openOne, given, closed]

theorem openOne_opens (read : answers.peer = .ok peer) (opens : canOpen answers i inst = true) :
    ∃ session, (openOne answers i inst).result = .ok session ∧
      SessionEvent.opens i (answers.random i) ∈ (openOne answers i inst).events := by
  have possible : ¬ (inst.data.rxBuf = none ∨ inst.data.txBuf = none ∨
      (answers.socket i).toOption = none) := by
    rw [← canOpen_eq_false_iff, opens]
    decide
  simp only [not_or] at possible
  obtain ⟨rx, tx, socket⟩ := possible
  obtain ⟨found, bound⟩ := Option.ne_none_iff_exists'.mp socket
  have opened : (ecatDataOpen inst (some peer) (some found.fd) (answers.random i)).2 =
      some (answers.random i) := by
    simp [ecatDataOpen, closeLocked, rx, tx]
  have given : answers.peer.toOption = some peer := by
    rw [read]
    rfl
  rw [openOne, given, bound, Option.map_some]
  cases result : ecatDataOpen inst (some peer) (some found.fd) (answers.random i) with
  | mk after session =>
      rw [result] at opened
      subst opened
      exact ⟨_, rfl, by simp⟩

theorem openOne_closes (read : answers.peer = .ok peer) (open_ : inst.data.isOpen = true) :
    SessionEvent.closes i inst.data.session ∈ (openOne answers i inst).events := by
  have listed : SessionEvent.closes i inst.data.session ∈ closeEvents answers i inst := by
    simp [closeEvents, read, open_, Except.isOk, Except.toBool]
  unfold openOne
  split
  · exact listed
  · exact List.mem_append_left _ listed

end One

/-! ## What the loop does -/

/-- The masters the loop opens, with their indices. -/
def running : Nat → List Master → List (Nat × Instance)
  | _, [] => []
  | i, m :: rest =>
      if masterHasLayout m.inst = false then running (i + 1) rest
      else (i, m.inst) :: running (i + 1) rest

/-- Every session is as it was: none is new and none that was open is closed. -/
def SessionsKept (before after : List Master) : Prop :=
  List.Forall₂ (fun m m' =>
    (m'.inst.data.isOpen = true → m'.inst.data = m.inst.data) ∧
      (m.inst.data.isOpen = true → m'.inst.data = m.inst.data)) before after

theorem SessionsKept.refl (masters : List Master) : SessionsKept masters masters :=
  List.forall₂_same.mpr fun _ _ => ⟨fun _ => rfl, fun _ => rfl⟩

section Loop
variable {answers : OpenDataAnswers}

theorem openMasters_refused {err : Text} (refused : answers.peer = .error err) (i : Nat)
    (masters : List Master) :
    (openMasters answers i masters).masters = masters ∧
      (openMasters answers i masters).events = [] := by
  induction masters generalizing i with
  | nil => exact ⟨rfl, rfl⟩
  | cons m rest ih =>
      rw [openMasters]
      split
      · obtain ⟨same, quiet⟩ := ih (i + 1)
        exact ⟨by simp [same], quiet⟩
      · rw [openOne_refused i m.inst refused]
        exact ⟨rfl, rfl⟩

theorem openMasters_idle {i : Nat} {masters : List Master} (idle : running i masters = []) :
    openMasters answers i masters = ⟨masters, .ok [], []⟩ := by
  induction masters generalizing i with
  | nil => rfl
  | cons m rest ih =>
      rw [running] at idle
      rw [openMasters]
      split at idle
      · rename_i skipped
        rw [if_pos skipped, ih idle]
      · simp at idle

/-- What happens to the first master of the loop is not undone. -/
theorem openMasters_first {i k : Nat} {inst : Instance} {masters : List Master}
    {later : List (Nat × Instance)} (first : running i masters = (k, inst) :: later) :
    ∀ event ∈ (openOne answers k inst).events, event ∈ (openMasters answers i masters).events := by
  induction masters generalizing i with
  | nil => simp [running] at first
  | cons m rest ih =>
      rw [running] at first
      rw [openMasters]
      split at first
      · rename_i skipped
        rw [if_pos skipped]
        exact ih first
      · rename_i turn
        rw [if_neg turn]
        rw [List.cons.injEq, Prod.mk.injEq] at first
        obtain ⟨⟨rfl, rfl⟩, _⟩ := first
        intro event member
        dsimp only
        split
        · exact member
        · exact List.mem_append_left _ member

variable {peer : SockAddr} (read : answers.peer = .ok peer)
include read

theorem openMasters_ok_iff (i : Nat) (masters : List Master) :
    (∃ sessions, (openMasters answers i masters).result = .ok sessions) ↔
      ∀ turn ∈ running i masters, canOpen answers turn.1 turn.2 = true := by
  induction masters generalizing i with
  | nil => exact ⟨fun _ turn member => by simp [running] at member, fun _ => ⟨[], rfl⟩⟩
  | cons m rest ih =>
      rw [openMasters, running]
      split
      · exact ih (i + 1)
      · rw [List.forall_mem_cons]
        cases can : canOpen answers i m.inst with
        | false =>
            rw [openOne_fails i m.inst read can]
            simp
        | true =>
            obtain ⟨session, opened, _⟩ := openOne_opens i m.inst read can
            dsimp only
            rw [opened]
            dsimp only
            rw [← ih (i + 1)]
            cases (openMasters answers (i + 1) rest).result with
            | error err => simp [Except.map]
            | ok sessions => simp [Except.map]

/-- The first master cannot open and has no session: nothing is lost. -/
theorem openMasters_first_fails {i k : Nat} {inst : Instance} {masters : List Master}
    {later : List (Nat × Instance)} (first : running i masters = (k, inst) :: later)
    (fails : canOpen answers k inst = false) (closed : inst.data.isOpen = false) :
    (openMasters answers i masters).events = [] ∧
      SessionsKept masters (openMasters answers i masters).masters := by
  induction masters generalizing i with
  | nil => simp [running] at first
  | cons m rest ih =>
      rw [running] at first
      rw [openMasters]
      split at first
      · rename_i skipped
        rw [if_pos skipped]
        obtain ⟨quiet, kept⟩ := ih first
        exact ⟨quiet, .cons ⟨fun _ => rfl, fun _ => rfl⟩ kept⟩
      · rename_i turn
        rw [if_neg turn]
        rw [List.cons.injEq, Prod.mk.injEq] at first
        obtain ⟨⟨rfl, rfl⟩, _⟩ := first
        rw [openOne_fails i m.inst read fails]
        refine ⟨by simp [closeEvents, closed], .cons ⟨?_, ?_⟩ (SessionsKept.refl rest)⟩
        · simp [ecatDataClose, closeLocked]
        · simp [closed]

theorem openMasters_sessions {i : Nat} {masters : List Master} {sessions : List OpenedSession}
    (opened : (openMasters answers i masters).result = .ok sessions) :
    sessions.length = (running i masters).length := by
  induction masters generalizing i sessions with
  | nil =>
      cases opened
      rfl
  | cons m rest ih =>
      rw [openMasters] at opened
      rw [running]
      split
      · rename_i skipped
        rw [if_pos skipped] at opened
        exact ih opened
      · rename_i turn
        rw [if_neg turn] at opened
        cases can : canOpen answers i m.inst with
        | false =>
            rw [openOne_fails i m.inst read can] at opened
            simp at opened
        | true =>
            obtain ⟨session, one, _⟩ := openOne_opens i m.inst read can
            dsimp only at opened
            rw [one] at opened
            cases rest' : (openMasters answers (i + 1) rest).result with
            | error err => simp [rest', Except.map] at opened
            | ok others =>
                simp only [rest', Except.map, Except.ok.injEq] at opened
                subst opened
                simp [ih rest']

end Loop

/-! ## All or nothing -/

/-- A reply with an error comes with no session opened or closed. -/
def AllOrNothing (masters : List Master) (outcome : OpenDataOutcome) : Prop :=
  outcome.reply.isError = true →
    outcome.events = [] ∧ SessionsKept masters outcome.masters

/-- The endpoint is missing or refused, every running master can open its
session, or the first of them cannot and has none. -/
def OpensSafely (masters : List Master) (answers : Option OpenDataAnswers) : Prop :=
  match answers with
  | none => True
  | some answers =>
      answers.peer.isOk = true →
        (∀ turn ∈ running 0 masters, canOpen answers turn.1 turn.2 = true) ∨
          ∃ first later, running 0 masters = first :: later ∧
            canOpen answers first.1 first.2 = false ∧ first.2.data.isOpen = false

theorem handleOpenData_loop (masters : List Master) (answers : OpenDataAnswers) :
    (handleOpenDataCommand masters (some answers)).masters =
        (openMasters answers 0 masters).masters ∧
      (handleOpenDataCommand masters (some answers)).events =
        (openMasters answers 0 masters).events := by
  unfold handleOpenDataCommand
  dsimp only
  split
  · exact ⟨rfl, rfl⟩
  · exact ⟨rfl, rfl⟩
  · exact ⟨rfl, rfl⟩

theorem handleOpenData_isError_iff (masters : List Master) {answers : OpenDataAnswers}
    {peer : SockAddr} (read : answers.peer = .ok peer) :
    (handleOpenDataCommand masters (some answers)).reply.isError = false ↔
      running 0 masters ≠ [] ∧
        ∀ turn ∈ running 0 masters, canOpen answers turn.1 turn.2 = true := by
  rw [← openMasters_ok_iff read]
  unfold handleOpenDataCommand
  cases result : (openMasters answers 0 masters).result with
  | error err => simp [OpenDataReply.isError, result]
  | ok sessions =>
      have counted := openMasters_sessions read result
      cases sessions with
      | nil =>
          have idle : running 0 masters = [] := List.length_eq_zero_iff.mp counted.symm
          simp [OpenDataReply.isError, result, idle]
      | cons first rest =>
          have busy : running 0 masters ≠ [] := by
            intro idle
            simp [idle] at counted
          simp [OpenDataReply.isError, result, busy]

/-- open_data is all or nothing just where it opens safely: any other command
fails after it opened a session or closed one. -/
theorem open_data_all_or_nothing_iff (masters : List Master) (answers : Option OpenDataAnswers) :
    AllOrNothing masters (handleOpenDataCommand masters answers) ↔ OpensSafely masters answers := by
  cases answers with
  | none =>
      refine iff_of_true ?_ trivial
      exact fun _ => ⟨rfl, SessionsKept.refl masters⟩
  | some answers =>
      obtain ⟨after, events⟩ := handleOpenData_loop masters answers
      unfold AllOrNothing
      rw [after, events]
      cases read : answers.peer with
      | error err =>
          obtain ⟨same, quiet⟩ := openMasters_refused read 0 masters
          refine iff_of_true ?_ (by simp [OpensSafely, read, Except.isOk, Except.toBool])
          intro _
          rw [same]
          exact ⟨quiet, SessionsKept.refl masters⟩
      | ok peer =>
          have reading : answers.peer.isOk = true := by simp [read, Except.isOk, Except.toBool]
          simp only [OpensSafely, reading, true_implies]
          constructor
          · intro nothing
            by_cases all : ∀ turn ∈ running 0 masters, canOpen answers turn.1 turn.2 = true
            · exact Or.inl all
            · right
              have failed :
                  (handleOpenDataCommand masters (some answers)).reply.isError = true := by
                rw [← Bool.not_eq_false, handleOpenData_isError_iff masters read]
                exact fun succeeds => all succeeds.2
              have quiet := (nothing failed).1
              cases turns : running 0 masters with
              | nil => simp [turns] at all
              | cons first later =>
                  have silent : ∀ event ∈ (openOne answers first.1 first.2).events,
                      event ∈ (openMasters answers 0 masters).events := openMasters_first turns
                  rw [quiet] at silent
                  refine ⟨first, later, rfl, ?_, ?_⟩
                  · by_contra can
                    obtain ⟨_, _, event⟩ :=
                      openOne_opens first.1 first.2 read (by simpa using can)
                    exact List.not_mem_nil (silent _ event)
                  · by_contra isOpen
                    exact List.not_mem_nil
                      (silent _ (openOne_closes first.1 first.2 read (by simpa using isOpen)))
          · rintro (all | ⟨first, later, turns, fails, closed⟩) failed
            · have idle : running 0 masters = [] := by
                by_contra busy
                rw [(handleOpenData_isError_iff masters read).mpr ⟨busy, all⟩] at failed
                simp at failed
              rw [openMasters_idle idle]
              exact ⟨rfl, SessionsKept.refl masters⟩
            · exact openMasters_first_fails read turns fails closed

/-! ## Two running masters -/

def runningMaster : Master :=
  ⟨{ fakeReady 1000 with busState := .operational }, [0], [1]⟩

/-- The socket of the second master cannot be opened. -/
def secondFails : OpenDataAnswers where
  peer := .ok fakeClient
  socket := fun i => if i = 0 then .ok ⟨3, text "udp:127.0.0.1:40000"⟩
    else .error (text "socket: Too many open files")
  random := fun _ => 7

/-- The first master is left with a session that no reply names. -/
theorem second_socket_fails_session_left :
    ¬ ∀ (masters : List Master) (answers : Option OpenDataAnswers),
        AllOrNothing masters (handleOpenDataCommand masters answers) := by
  intro always
  have nothing := (always [runningMaster, runningMaster] (some secondFails) rfl).1
  revert nothing
  decide +kernel

end EtherDog
