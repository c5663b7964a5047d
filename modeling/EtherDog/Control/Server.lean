import EtherDog.Lib.Transition
import EtherDog.Control.Token

/-!
# The control server (src/control.c)

`edog_control_run` polls the listener and the slots in use, accepts into the
first free slot and then serves the slots it has polled.  A connection is the
number of its `accept`, so that a slot that is used again holds another one.
The machine takes one round of the loop at a time; the last one drops all
clients.

Each connection follows the discipline, and the lines handled for it are lines
of the bytes received from it.
-/

set_option autoImplicit false

namespace EtherDog

open CString Framing Transition

def maxClients : Nat := 8

abbrev ClientSlot : Type := Fin maxClients

structure ControlState (World : Type) where
  world : World
  clients : ClientSlot → Client
  accepted : Nat
  exit : Bool
  finished : Bool

inductive ControlEvent where
  | accepted (conn : Nat)
  | refused (conn : Nat) (reply : Text)
  | received (conn : Nat) (bytes : List UInt8)
  | client (conn : Nat) (event : ClientEvent)
  deriving DecidableEq, Repr

inductive Incoming where
  | failed
  | denied
  | allowed
  deriving DecidableEq, Repr

/-- The result of a `poll`: a connection that waits, and the `recv` of each slot
that is ready. -/
structure Poll (World : Type) where
  incoming : Option Incoming
  ready : ClientSlot → Option (Recv World)

inductive ControlAction (World : Type) where
  | poll (poll : Poll World)
  | leave

/-! ## One round -/

def setSlot (clients : ClientSlot → Client) (slot : ClientSlot) (client : Client) :
    ClientSlot → Client :=
  Function.update clients slot client

def acceptClient {World : Type} (state : ControlState World) :
    Incoming → ControlState World × List ControlEvent
  | .failed => (state, [])
  | .denied =>
      ({ state with accepted := state.accepted + 1 },
        [.refused state.accepted (errorText "permission denied")])
  | .allowed =>
      match (List.finRange maxClients).find? fun slot => (state.clients slot).fd = none with
      | none =>
          ({ state with accepted := state.accepted + 1 },
            [.refused state.accepted (errorText "too many clients")])
      | some slot =>
          ({ state with
              clients := setSlot state.clients slot ⟨some state.accepted, false, []⟩
              accepted := state.accepted + 1 },
            [.accepted state.accepted])

section Rounds
variable {World : Type} (svc : Services World) (token : Option Text)

/-- `service_client` on a slot; on a slot that is free `recv` fails. -/
def serviceSlot (state : ControlState World) (slot : ClientSlot) (recv : Recv World) :
    ControlState World × List ControlEvent :=
  match (state.clients slot).fd with
  | none => (state, [])
  | some conn =>
      let served := serviceClient svc token ⟨recv.world, state.clients slot, false, []⟩ recv.bytes
      ({ state with
          world := served.world
          clients := setSlot state.clients slot served.client
          exit := served.exit },
        .received conn recv.bytes :: served.events.map (.client conn))

def serveSlot (ready : ClientSlot → Option (Recv World)) (slot : ClientSlot)
    (state : ControlState World) : ControlState World × List ControlEvent :=
  if state.exit then (state, [])
  else
    match ready slot with
    | none => (state, [])
    | some recv => serviceSlot svc token state slot recv

def dropSlot (slot : ClientSlot) (state : ControlState World) :
    ControlState World × List ControlEvent :=
  match (state.clients slot).fd with
  | none => (state, [])
  | some conn =>
      ({ state with clients := setSlot state.clients slot freeSlot }, [.client conn .dropped])

def overSlots (visit : ClientSlot → ControlState World → ControlState World × List ControlEvent) :
    List ClientSlot → ControlState World → ControlState World × List ControlEvent
  | [], state => (state, [])
  | slot :: rest, state =>
      let (next, events) := visit slot state
      let (final, later) := overSlots visit rest next
      (final, events ++ later)

def inUse (state : ControlState World) : List ClientSlot :=
  (List.finRange maxClients).filter fun slot => (state.clients slot).fd.isSome

/-- Each `recv` gives no more than there is room for. -/
def recvsFit (state : ControlState World) (ready : ClientSlot → Option (Recv World)) : Bool :=
  (inUse state).all fun slot => (ready slot).all fun recv =>
    decide (recv.bytes.length ≤ maxLine - 1 - (state.clients slot).buf.length)

def round (state : ControlState World) (poll : Poll World) :
    ControlState World × List ControlEvent :=
  let polled := inUse state
  let (state, accepted) := (poll.incoming.map (acceptClient state)).getD (state, [])
  let (state, served) := overSlots (serveSlot svc token poll.ready) polled state
  (state, accepted ++ served)

/-- The log of the machine is newest first. -/
def controlStep : Step (ControlState World) (ControlAction World) ControlEvent
  | state, .poll poll =>
      if state.exit || state.finished || !recvsFit state poll.ready then none
      else
        let (next, events) := round svc token state poll
        some (next, events.reverse)
  | state, .leave =>
      if state.finished then none
      else
        let (next, events) := overSlots dropSlot (List.finRange maxClients) state
        some ({ next with finished := true }, events.reverse)

end Rounds

def startControl {World : Type} (world : World) : ControlState World where
  world := world
  clients := fun _ => freeSlot
  accepted := 0
  exit := false
  finished := false

/-! ## What was done for a connection -/

def clientEvents (conn : Nat) (events : List ControlEvent) : List ClientEvent :=
  events.filterMap fun event =>
    match event with
    | .client owner done => if owner = conn then some done else none
    | _ => none

def bytesReceived (conn : Nat) (events : List ControlEvent) : List UInt8 :=
  events.flatMap fun event =>
    match event with
    | .received owner bytes => if owner = conn then bytes else []
    | _ => []

/-- What the server did for a connection, first event first. -/
def traceOf (conn : Nat) (history : List ControlEvent) : List ClientEvent :=
  clientEvents conn history.reverse

def streamOf (conn : Nat) (history : List ControlEvent) : List UInt8 :=
  bytesReceived conn history.reverse

theorem traceOf_append (conn : Nat) (events history : List ControlEvent) :
    traceOf conn (events.reverse ++ history) = traceOf conn history ++ clientEvents conn events := by
  simp [traceOf, clientEvents]

theorem streamOf_append (conn : Nat) (events history : List ControlEvent) :
    streamOf conn (events.reverse ++ history) =
      streamOf conn history ++ bytesReceived conn events := by
  simp [streamOf, bytesReceived]

/-! ## The lines of a connection -/

def linesOf (trace : List ClientEvent) : List Text :=
  trace.filterMap fun event =>
    match event with
    | .handled line _ => some line
    | _ => none

/-- The requests in a stream, as far as its first NUL. -/
def linesSent (bytes : List UInt8) : List Text :=
  (segments 10 (cstr bytes)).1.filterMap request?

/-- What the slot has not handled yet stands behind the lines it has. -/
def Unread (bytes buf : List UInt8) (lines : List Text) : Prop :=
  ∃ consumed, bytes = consumed ++ buf ∧ 0 ∉ consumed ∧ (segments 10 consumed).2 = [] ∧
    lines = (segments 10 consumed).1.filterMap request?

theorem linesOf_append (xs ys : List ClientEvent) : linesOf (xs ++ ys) = linesOf xs ++ linesOf ys :=
  List.filterMap_append

theorem linesOf_droppedEvents (dropped : Bool) : linesOf (droppedEvents dropped) = [] := by
  cases dropped with
  | false => rfl
  | true => rfl

section Lines
variable {World : Type} {svc : Services World} {token : Option Text}

theorem linesOf_handle (serving : Serving World) (raw : Text) :
    linesOf (serving.handle svc token raw).events =
      linesOf serving.events ++ (request? raw).toList := by
  unfold request?
  by_cases empty : chomp raw = []
  · rw [handle_empty serving empty, if_pos empty]
    simp
  · obtain ⟨reply, _, events, _⟩ := @handle_request _ svc token serving _ _ empty rfl
    rw [events, if_neg empty, linesOf_append]
    have tail := linesOf_droppedEvents
      (judge svc token serving.client.authenticated (chomp raw)).drops
    simpa [linesOf] using tail

theorem linesOf_foldl (raws : List Text) (serving : Serving World) :
    linesOf (raws.foldl (Serving.handle svc token) serving).events =
      linesOf serving.events ++ raws.filterMap request? := by
  induction raws generalizing serving with
  | nil => simp
  | cons raw rest ih =>
      rw [List.foldl_cons, ih, linesOf_handle, List.append_assoc]
      cases found : request? raw with
      | none => simp [found]
      | some line => simp [found]

theorem Unread.sent {bytes buf : List UInt8} {lines : List Text}
    (unread : Unread bytes buf lines) : lines <+: linesSent bytes := by
  obtain ⟨consumed, rfl, free, closed, rfl⟩ := unread
  unfold linesSent
  rw [cstr_append free, segments_append, closed, List.filterMap_append]
  exact List.prefix_append _ _

/-- Lines that are taken from the buffer have been consumed. -/
theorem Unread.take {bytes buf received : List UInt8} {lines : List Text}
    (unread : Unread bytes buf lines) {taken left : List Text}
    (split : (bufferLines (buf ++ received)).1 = taken ++ left) :
    lines ++ taken.filterMap request? <+: linesSent (bytes ++ received) ∧
      Unread (bytes ++ received)
        (left.flatMap (· ++ [10]) ++ (bufferLines (buf ++ received)).2)
        (lines ++ taken.filterMap request?) := by
  have sound : Unread (bytes ++ received)
      (left.flatMap (· ++ [10]) ++ (bufferLines (buf ++ received)).2)
      (lines ++ taken.filterMap request?) := by
    obtain ⟨consumed, rfl, free, closed, rfl⟩ := unread
    have joined := bufferLines_join (buf ++ received)
    rw [split, List.flatMap_append, List.append_assoc] at joined
    have among : ∀ line ∈ taken, line ∈ (segments 10 (cstr (buf ++ received))).1 := by
      intro line member
      have listed : line ∈ (bufferLines (buf ++ received)).1 := by
        rw [split]
        exact List.mem_append_left _ member
      exact listed
    have cut := segments_flatMap 10 fun line member => segments_closed_free 10 (among line member)
    refine ⟨consumed ++ taken.flatMap (· ++ [10]), ?_, ?_, ?_, ?_⟩
    · rw [List.append_assoc, List.append_assoc, joined]
    · intro zero
      rcases List.mem_append.mp zero with early | late
      · exact free early
      · apply zero_not_mem_cstr (buf ++ received)
        rw [← segments_join 10 (cstr (buf ++ received))]
        have whole : (segments 10 (cstr (buf ++ received))).1 = taken ++ left := split
        rw [whole, List.flatMap_append, List.append_assoc]
        exact List.mem_append_left _ late
    · rw [segments_append, closed, List.nil_append, cut]
    · rw [segments_append, closed, List.nil_append, cut, List.filterMap_append]
  exact ⟨sound.sent, sound⟩

/-- A call of `service_client` handles lines of the bytes behind those it has
handled, and leaves the others. -/
theorem serviceClient_lines {serving : Serving World} {bytes received : List UInt8}
    {past : List ClientEvent}
    (unread : Unread bytes serving.client.buf (linesOf (past ++ serving.events))) :
    linesOf (past ++ (serviceClient svc token serving received).events) <+:
        linesSent (bytes ++ received) ∧
      ((serviceClient svc token serving received).client.fd ≠ none →
        Unread (bytes ++ received) (serviceClient svc token serving received).client.buf
          (linesOf (past ++ (serviceClient svc token serving received).events))) := by
  by_cases silent : received = []
  · rw [serviceClient, if_pos silent, silent, List.append_nil]
    dsimp only [Serving.leave]
    have quiet : linesOf (past ++ (serving.events ++ [.dropped])) =
        linesOf (past ++ serving.events) := by simp [linesOf]
    rw [quiet]
    exact ⟨unread.sent, fun here => absurd rfl here⟩
  · cases loop : runUntil Serving.done (Serving.handle svc token) serving.emptied
        (bufferLines (serving.client.buf ++ received)).1 with
    | mk served left =>
        obtain ⟨taken, split, folded, _⟩ := @runUntil_taken _ _ Serving.done (Serving.handle svc token)
          serving.emptied (bufferLines (serving.client.buf ++ received)).1
        rw [loop] at split folded
        dsimp only at split folded
        have handled : linesOf (past ++ served.events) =
            linesOf (past ++ serving.events) ++ taken.filterMap request? := by
          rw [folded, linesOf_append, linesOf_foldl, linesOf_append, List.append_assoc]
          rfl
        have consumed := unread.take split
        rw [← handled] at consumed
        by_cases gone : served.client.fd = none
        · rw [serviceClient_dropped silent loop gone]
          exact ⟨consumed.1, fun here => absurd gone here⟩
        · by_cases full : maxLine - 1 ≤ (left.flatMap (· ++ [10]) ++
              (bufferLines (serving.client.buf ++ received)).2).length
          · rw [serviceClient_tooLong silent loop gone full]
            dsimp only [Serving.leave]
            have quiet : linesOf (past ++ (served.events ++
                [.tooLong, .sent lineTooLong, .dropped])) = linesOf (past ++ served.events) := by
              simp [linesOf]
            rw [quiet]
            exact ⟨consumed.1, fun here => absurd rfl here⟩
          · rw [serviceClient_keeps silent loop gone (Nat.lt_of_not_le full)]
            exact ⟨consumed.1, fun _ => consumed.2⟩

theorem serviceClient_fd (serving : Serving World) (received : List UInt8) :
    (serviceClient svc token serving received).client.fd = none ∨
      (serviceClient svc token serving received).client.fd = serving.client.fd := by
  have looped := @runUntil_invariant _ _ Serving.done (Serving.handle svc token)
    (fun served : Serving World =>
      served.client.fd = none ∨ served.client.fd = serving.client.fd)
    serving.emptied (Or.inr rfl)
    (by
      intro served raw _ before
      by_cases empty : chomp raw = []
      · rw [handle_empty served empty]
        exact before
      · obtain ⟨_, _, _, client, _⟩ :=
          @handle_request _ svc token served _ _ empty rfl
        rw [client]
        split
        · exact Or.inl rfl
        · exact before)
    (bufferLines (serving.client.buf ++ received)).1
  unfold serviceClient
  split
  · exact Or.inl rfl
  · dsimp only
    split
    · exact looped
    · split
      · exact Or.inl rfl
      · exact looped

end Lines

/-! ## The invariant -/

section Invariant
variable {World : Type} (svc : Services World) (secret : Text)

/-- No two slots hold one connection, and each connection, in a slot or not, is
disciplined and got its own lines handled. -/
structure Orderly (state : ControlState World) (history : List ControlEvent) : Prop where
  distinct : ∀ i j conn, (state.clients i).fd = some conn → (state.clients j).fd = some conn → i = j
  numbered : ∀ i conn, (state.clients i).fd = some conn → conn < state.accepted
  unborn : ∀ conn, state.accepted ≤ conn →
    traceOf conn history = [] ∧ streamOf conn history = []
  present : ∀ i conn, (state.clients i).fd = some conn →
    Disciplined svc secret (state.clients i).standing (traceOf conn history) ∧
      Unread (streamOf conn history) (state.clients i).buf (linesOf (traceOf conn history))
  always : ∀ conn, (∃ standing, Disciplined svc secret standing (traceOf conn history)) ∧
    linesOf (traceOf conn history) <+: linesSent (streamOf conn history)

variable {svc secret} {state : ControlState World} {history : List ControlEvent}

theorem setSlot_same (clients : ClientSlot → Client) (slot : ClientSlot) (client : Client) :
    setSlot clients slot client slot = client := by
  rw [setSlot, Function.update_self]

theorem setSlot_other {clients : ClientSlot → Client} {slot i : ClientSlot} (client : Client)
    (other : i ≠ slot) : setSlot clients slot client i = clients i := by
  rw [setSlot, Function.update_of_ne other]

/-- The connections that are held after a slot has changed. -/
theorem held_setSlot {clients : ClientSlot → Client} {slot i : ClientSlot} {client : Client}
    {conn : Nat} (found : (setSlot clients slot client i).fd = some conn) :
    (i = slot ∧ client.fd = some conn) ∨ (i ≠ slot ∧ (clients i).fd = some conn) := by
  by_cases here : i = slot
  · subst here
    rw [setSlot_same] at found
    exact Or.inl ⟨rfl, found⟩
  · rw [setSlot_other client here] at found
    exact Or.inr ⟨here, found⟩

theorem orderly_start (world : World) : Orderly svc secret (startControl world) [] where
  distinct := by simp [startControl, freeSlot]
  numbered := by simp [startControl, freeSlot]
  unborn := fun _ _ => ⟨rfl, rfl⟩
  present := by simp [startControl, freeSlot]
  always := fun _ => ⟨⟨.stranger, .accepted⟩, List.nil_prefix⟩

/-- Events of other connections only. -/
def NothingOf (conn : Nat) (events : List ControlEvent) : Prop :=
  clientEvents conn events = [] ∧ bytesReceived conn events = []

theorem NothingOf.kept {conn : Nat} {events : List ControlEvent}
    (nothing : NothingOf conn events) (history : List ControlEvent) :
    traceOf conn (events.reverse ++ history) = traceOf conn history ∧
      streamOf conn (events.reverse ++ history) = streamOf conn history := by
  rw [traceOf_append, streamOf_append, nothing.1, nothing.2]
  exact ⟨List.append_nil _, List.append_nil _⟩

/-- One slot changes, by events of the connection in it. -/
theorem Orderly.setSlot (before : Orderly svc secret state history) {slot : ClientSlot} {conn : Nat}
    {client : Client} {events : List ControlEvent} (world : World) (exit : Bool)
    (held : (state.clients slot).fd = some conn)
    (same : client.fd = none ∨ client.fd = some conn)
    (others : ∀ other, other ≠ conn → NothingOf other events)
    (disciplined : Disciplined svc secret client.standing
      (traceOf conn (events.reverse ++ history)))
    (lines : linesOf (traceOf conn (events.reverse ++ history)) <+:
      linesSent (streamOf conn (events.reverse ++ history)))
    (unread : client.fd ≠ none → Unread (streamOf conn (events.reverse ++ history)) client.buf
      (linesOf (traceOf conn (events.reverse ++ history)))) :
    Orderly svc secret
      { state with world := world, clients := setSlot state.clients slot client, exit := exit }
      (events.reverse ++ history) := by
  have holds : ∀ i owner,
      (EtherDog.setSlot state.clients slot client i).fd = some owner →
        (i = slot ∧ owner = conn) ∨ (i ≠ slot ∧ owner ≠ conn ∧
          (state.clients i).fd = some owner) := by
    intro i owner found
    rcases held_setSlot found with ⟨here, found⟩ | ⟨other, found⟩
    · rcases same with gone | kept
      · rw [gone] at found
        contradiction
      · rw [kept] at found
        exact Or.inl ⟨here, (Option.some.inj found).symm⟩
    · refine Or.inr ⟨other, ?_, found⟩
      rintro rfl
      exact other (before.distinct i slot owner found held)
  constructor
  · intro i j owner first second
    rcases holds i owner first with ⟨rfl, rfl⟩ | ⟨_, apart, found⟩
    · rcases holds j owner second with ⟨rfl, _⟩ | ⟨_, apart, _⟩
      · rfl
      · exact absurd rfl apart
    · rcases holds j owner second with ⟨_, rfl⟩ | ⟨_, _, found'⟩
      · exact absurd rfl apart
      · exact before.distinct i j owner found found'
  · intro i owner found
    rcases holds i owner found with ⟨_, rfl⟩ | ⟨_, _, found⟩
    · exact before.numbered slot owner held
    · exact before.numbered i owner found
  · intro owner later
    have apart : owner ≠ conn := by
      rintro rfl
      exact Nat.not_lt_of_le later (before.numbered slot owner held)
    obtain ⟨trace, stream⟩ := (others owner apart).kept history
    rw [trace, stream]
    exact before.unborn owner later
  · intro i owner found
    rcases holds i owner found with ⟨rfl, rfl⟩ | ⟨other, apart, found⟩
    · have here : (EtherDog.setSlot state.clients i client i) = client := setSlot_same _ _ _
      dsimp only at found ⊢
      rw [here] at found ⊢
      exact ⟨disciplined, unread (by rw [found]; exact Option.some_ne_none owner)⟩
    · have still : (EtherDog.setSlot state.clients slot client i) = state.clients i :=
        setSlot_other client other
      obtain ⟨trace, stream⟩ := (others owner apart).kept history
      dsimp only
      rw [still, trace, stream]
      exact before.present i owner found
  · intro owner
    by_cases here : owner = conn
    · subst here
      exact ⟨⟨_, disciplined⟩, lines⟩
    · obtain ⟨trace, stream⟩ := (others owner here).kept history
      rw [trace, stream]
      exact before.always owner

/-- Nothing is done for any connection. -/
theorem Orderly.quiet (before : Orderly svc secret state history) {events : List ControlEvent}
    (nothing : ∀ conn, NothingOf conn events) :
    Orderly svc secret state (events.reverse ++ history) := by
  have trace := fun conn => ((nothing conn).kept history).1
  have stream := fun conn => ((nothing conn).kept history).2
  constructor
  · exact before.distinct
  · exact before.numbered
  · intro conn later
    rw [trace, stream]
    exact before.unborn conn later
  · intro i conn found
    rw [trace, stream]
    exact before.present i conn found
  · intro conn
    rw [trace, stream]
    exact before.always conn

theorem Orderly.count (before : Orderly svc secret state history) :
    Orderly svc secret { state with accepted := state.accepted + 1 } history where
  distinct := before.distinct
  numbered := fun i conn found => Nat.lt_succ_of_lt (before.numbered i conn found)
  unborn := fun conn later => before.unborn conn (Nat.le_of_succ_le later)
  present := before.present
  always := before.always

/-- A slot is used again: nothing of its last connection is left. -/
theorem Orderly.occupy (before : Orderly svc secret state history) (slot : ClientSlot) :
    Orderly svc secret
      { state with
        clients := EtherDog.setSlot state.clients slot ⟨some state.accepted, false, []⟩
        accepted := state.accepted + 1 } history := by
  have holds : ∀ i conn,
      (EtherDog.setSlot state.clients slot ⟨some state.accepted, false, []⟩ i).fd = some conn →
        (i = slot ∧ conn = state.accepted) ∨
          (i ≠ slot ∧ (state.clients i).fd = some conn) := by
    intro i conn found
    rcases held_setSlot found with ⟨here, found⟩ | elsewhere
    · exact Or.inl ⟨here, (Option.some.inj found).symm⟩
    · exact Or.inr elsewhere
  constructor
  · intro i j conn first second
    rcases holds i conn first with ⟨rfl, rfl⟩ | ⟨_, found⟩
    · rcases holds j _ second with ⟨rfl, _⟩ | ⟨_, found⟩
      · rfl
      · exact absurd (before.numbered j _ found) (Nat.lt_irrefl _)
    · rcases holds j conn second with ⟨_, rfl⟩ | ⟨_, found'⟩
      · exact absurd (before.numbered i _ found) (Nat.lt_irrefl _)
      · exact before.distinct i j conn found found'
  · intro i conn found
    rcases holds i conn found with ⟨_, rfl⟩ | ⟨_, found⟩
    · exact Nat.lt_succ_self _
    · exact Nat.lt_succ_of_lt (before.numbered i conn found)
  · exact fun conn later => before.unborn conn (Nat.le_of_succ_le later)
  · intro i conn found
    dsimp only at found ⊢
    rcases holds i conn found with ⟨rfl, rfl⟩ | ⟨other, found⟩
    · obtain ⟨noTrace, noStream⟩ := before.unborn state.accepted (Nat.le_refl _)
      rw [setSlot_same, noTrace, noStream]
      exact ⟨.accepted, [], rfl, List.not_mem_nil, rfl, rfl⟩
    · rw [setSlot_other _ other]
      exact before.present i conn found
  · exact before.always

theorem acceptClient_orderly (before : Orderly svc secret state history) (incoming : Incoming) :
    Orderly svc secret (acceptClient state incoming).1
      ((acceptClient state incoming).2.reverse ++ history) := by
  cases incoming with
  | failed => exact before
  | denied => exact before.count.quiet fun _ => ⟨rfl, rfl⟩
  | allowed =>
      rw [acceptClient]
      split
      · exact before.count.quiet fun _ => ⟨rfl, rfl⟩
      · rename_i slot _
        exact (before.occupy slot).quiet fun _ => ⟨rfl, rfl⟩

/-! ## The slots -/

theorem nothingOf_others {conn : Nat} (events : List ClientEvent) {other : Nat}
    (apart : other ≠ conn) : NothingOf other (events.map (ControlEvent.client conn)) := by
  induction events with
  | nil => exact ⟨rfl, rfl⟩
  | cons event rest ih =>
      refine ⟨?_, ih.2⟩
      simp [clientEvents, Ne.symm apart]

theorem clientEvents_own (conn : Nat) (events : List ClientEvent) :
    clientEvents conn (events.map (ControlEvent.client conn)) = events ∧
      bytesReceived conn (events.map (ControlEvent.client conn)) = [] := by
  induction events with
  | nil => exact ⟨rfl, rfl⟩
  | cons event rest ih =>
      refine ⟨?_, ih.2⟩
      simp [clientEvents]

/-- What is done for a connection is behind its trace. -/
theorem done_own (conn : Nat) (events : List ClientEvent) (history : List ControlEvent) :
    traceOf conn ((events.map (ControlEvent.client conn)).reverse ++ history) =
        traceOf conn history ++ events ∧
      streamOf conn ((events.map (ControlEvent.client conn)).reverse ++ history) =
        streamOf conn history := by
  obtain ⟨own, silent⟩ := clientEvents_own conn events
  rw [traceOf_append, streamOf_append, own, silent, List.append_nil]
  exact ⟨rfl, rfl⟩

/-- Bytes are received first. -/
theorem served_own (conn : Nat) (bytes : List UInt8) (events : List ClientEvent)
    (history : List ControlEvent) :
    traceOf conn ((ControlEvent.received conn bytes ::
        events.map (ControlEvent.client conn)).reverse ++ history) =
        traceOf conn history ++ events ∧
      streamOf conn ((ControlEvent.received conn bytes ::
        events.map (ControlEvent.client conn)).reverse ++ history) =
        streamOf conn history ++ bytes := by
  have arrival : traceOf conn (ControlEvent.received conn bytes :: history) =
      traceOf conn history ∧
      streamOf conn (ControlEvent.received conn bytes :: history) =
        streamOf conn history ++ bytes := by
    simp [traceOf, streamOf, clientEvents, bytesReceived]
  obtain ⟨trace, stream⟩ := done_own conn events (ControlEvent.received conn bytes :: history)
  rw [List.reverse_cons, List.append_assoc, List.singleton_append, trace, stream, arrival.1,
    arrival.2]
  exact ⟨rfl, rfl⟩

theorem dropSlot_orderly (before : Orderly svc secret state history) (slot : ClientSlot) :
    Orderly svc secret (dropSlot slot state).1 ((dropSlot slot state).2.reverse ++ history) := by
  unfold dropSlot
  split
  · exact before
  · rename_i conn held
    obtain ⟨disciplined, unread⟩ := before.present slot conn held
    obtain ⟨trace, stream⟩ := done_own conn [ClientEvent.dropped] history
    rw [List.map_singleton] at trace stream
    have here : (state.clients slot).standing ≠ .gone := by
      apply standing_ne_gone
      rw [held]
      exact Option.some_ne_none conn
    refine before.setSlot state.world state.exit held (Or.inl rfl)
      (fun other apart => nothingOf_others [.dropped] apart) ?_ ?_ (fun here => absurd rfl here)
    · rw [trace]
      exact .left disciplined here
    · rw [trace, stream]
      simpa [linesOf] using unread.sent

variable (nonempty : secret ≠ [])
include nonempty

theorem serviceSlot_orderly (before : Orderly svc secret state history) (slot : ClientSlot)
    (recv : Recv World) :
    Orderly svc secret (serviceSlot svc (some secret) state slot recv).1
      ((serviceSlot svc (some secret) state slot recv).2.reverse ++ history) := by
  unfold serviceSlot
  split
  · exact before
  · rename_i conn held
    obtain ⟨disciplined, unread⟩ := before.present slot conn held
    generalize serving : (⟨recv.world, state.clients slot, false, []⟩ : Serving World) = start
    have client : start.client = state.clients slot := by rw [← serving]
    have quiet : start.events = [] := by rw [← serving]
    have going : start.done = false := by
      rw [← serving]
      simp [Serving.done, held]
    have standing : Disciplined svc secret start.client.standing
        (traceOf conn history ++ start.events) := by
      rw [client, quiet, List.append_nil]
      exact disciplined
    have behind : Unread (streamOf conn history) start.client.buf
        (linesOf (traceOf conn history ++ start.events)) := by
      rw [client, quiet, List.append_nil]
      exact unread
    have follows := serviceClient_disciplined nonempty going standing recv.bytes
    have lines := @serviceClient_lines _ svc (some secret) start _ recv.bytes _ behind
    have fd := @serviceClient_fd _ svc (some secret) start recv.bytes
    rw [client, held] at fd
    dsimp only
    obtain ⟨trace, stream⟩ := served_own conn recv.bytes
      (serviceClient svc (some secret) start recv.bytes).events history
    refine before.setSlot _ _ held fd ?_ ?_ ?_ ?_
    · intro other apart
      have elsewhere := nothingOf_others
        (serviceClient svc (some secret) start recv.bytes).events apart
      exact ⟨elsewhere.1, by simp [bytesReceived, Ne.symm apart]⟩
    · rw [trace]
      exact follows
    · rw [trace, stream]
      exact lines.1
    · rw [trace, stream]
      exact lines.2

theorem serveSlot_orderly (before : Orderly svc secret state history)
    (ready : ClientSlot → Option (Recv World)) (slot : ClientSlot) :
    Orderly svc secret (serveSlot svc (some secret) ready slot state).1
      ((serveSlot svc (some secret) ready slot state).2.reverse ++ history) := by
  unfold serveSlot
  split
  · exact before
  · split
    · exact before
    · rename_i recv _
      exact serviceSlot_orderly nonempty before slot recv

omit nonempty

theorem overSlots_orderly
    {visit : ClientSlot → ControlState World → ControlState World × List ControlEvent}
    (keeps : ∀ slot state history, Orderly svc secret state history →
      Orderly svc secret (visit slot state).1 ((visit slot state).2.reverse ++ history))
    (slots : List ClientSlot) (before : Orderly svc secret state history) :
    Orderly svc secret (overSlots visit slots state).1
      ((overSlots visit slots state).2.reverse ++ history) := by
  induction slots generalizing state history with
  | nil => exact before
  | cons slot rest ih =>
      have later := ih (keeps slot state history before)
      rw [← List.append_assoc, ← List.reverse_append] at later
      exact later

include nonempty

theorem round_orderly (before : Orderly svc secret state history) (poll : Poll World) :
    Orderly svc secret (round svc (some secret) state poll).1
      ((round svc (some secret) state poll).2.reverse ++ history) := by
  have served : ∀ {state : ControlState World} {history : List ControlEvent}
      (slots : List ClientSlot),
      Orderly svc secret state history →
        Orderly svc secret (overSlots (serveSlot svc (some secret) poll.ready) slots state).1
          ((overSlots (serveSlot svc (some secret) poll.ready) slots state).2.reverse ++ history) :=
    fun slots here => overSlots_orderly
      (fun slot _ _ now => serveSlot_orderly nonempty now poll.ready slot) slots here
  unfold round
  cases poll.incoming with
  | none => exact served _ before
  | some incoming =>
      have later := served (inUse state) (acceptClient_orderly before incoming)
      rw [← List.append_assoc, ← List.reverse_append] at later
      exact later

theorem controlStep_orderly {action : ControlAction World} {next : ControlState World}
    {events : List ControlEvent} (before : Orderly svc secret state history)
    (move : controlStep svc (some secret) state action = some (next, events)) :
    Orderly svc secret next (events ++ history) := by
  cases action with
  | poll poll =>
      rw [controlStep] at move
      split at move
      · contradiction
      · rw [Option.some.injEq, Prod.mk.injEq] at move
        obtain ⟨rfl, rfl⟩ := move
        exact round_orderly nonempty before poll
  | leave =>
      rw [controlStep] at move
      split at move
      · contradiction
      · rw [Option.some.injEq, Prod.mk.injEq] at move
        obtain ⟨rfl, rfl⟩ := move
        have left := overSlots_orderly (fun slot _ _ now => dropSlot_orderly now slot)
          (List.finRange maxClients) before
        exact ⟨left.distinct, left.numbered, left.unborn, left.present, left.always⟩

theorem reached_orderly {initial : World}
    (reached : Reaches (controlStep svc (some secret)) anyStep (startControl initial)
      state history) : Orderly svc secret state history :=
  reached.invariant (Orderly svc secret) (orderly_start initial)
    (fun _ _ _ _ _ before _ move => controlStep_orderly nonempty before move)

end Invariant

/-! ## The token is enforced -/

/-- For every connection the token is enforced, on lines of its own. -/
structure ServerEnforces {World : Type} (svc : Services World) (secret : Text)
    (history : List ControlEvent) : Prop where
  enforced : ∀ conn, TokenEnforced svc secret (traceOf conn history)
  own_lines : ∀ conn, linesOf (traceOf conn history) <+: linesSent (streamOf conn history)

theorem token_enforced {World : Type} {svc : Services World} {secret : Text} {initial : World}
    {state : ControlState World} {history : List ControlEvent} (nonempty : secret ≠ [])
    (reached : Reaches (controlStep svc (some secret)) anyStep (startControl initial)
      state history) :
    ServerEnforces svc secret history ∧
      ∀ a b : Text, constantTimeEquals a b = true ↔ a = b := by
  have orderly := reached_orderly nonempty reached
  refine ⟨⟨fun conn => ?_, fun conn => (orderly.always conn).2⟩, constantTimeEquals_iff⟩
  obtain ⟨standing, disciplined⟩ := (orderly.always conn).1
  exact disciplined.enforced

/-! ## Two connections in one slot -/

def helloLine : Text := text "\x7b\"command\":\"hello\",\"params\":\x7b\"token\":\"dog\"\x7d\x7d"

def helloOnly : Services Unit :=
  { noJson with
    parse := fun line =>
      if line = helloLine then
        some (.object [(text "command", .string (text "hello")),
          (text "params", .object [(text "token", .string (text "dog"))])])
      else none }

def accepting : ControlAction Unit := .poll ⟨some .allowed, fun _ => none⟩

def receiving (bytes : List UInt8) : ControlAction Unit :=
  .poll ⟨none, fun slot => if slot.val = 0 then some ⟨(), bytes⟩ else none⟩

def twoConnections : List (ControlAction Unit) :=
  [accepting, receiving (text "scan" ++ [10] ++ helloLine ++ [10]), accepting,
    receiving (helloLine ++ [10] ++ text "scan" ++ [10])]

/-- The first is dropped before its hello, the second gets its command. -/
theorem token_enforced_two_connections :
    ∃ (state : ControlState Unit) (history : List ControlEvent),
      Reaches (controlStep helloOnly (some (text "dog"))) anyStep (startControl ()) state history ∧
        ServerEnforces helloOnly (text "dog") history ∧
        traceOf 0 history =
          [.handled (text "scan") none, .sent authenticateFirst, .dropped] ∧
        linesOf (traceOf 1 history) = [helloLine, text "scan"] := by
  have found := exists_of_execute (controlStep helloOnly (some (text "dog"))) anyStep
    (startControl ()) twoConnections
    (fun _ history => traceOf 0 history =
          [.handled (text "scan") none, .sent authenticateFirst, .dropped] ∧
        linesOf (traceOf 1 history) = [helloLine, text "scan"])
    (by decide +kernel)
  obtain ⟨state, history, reached, facts⟩ := found
  have secret : text "dog" ≠ [] := by decide +kernel
  exact ⟨state, history, reached, (token_enforced secret reached).1, facts⟩

end EtherDog
