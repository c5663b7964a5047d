import EtherDog.Control.Framing
import EtherDog.Control.Replies

/-!
# Calls over a connection (tools/etherdog_client.py, src/control.c)

The client sends one line a call and waits for one line; the server takes what
`recv` gives it and answers each line.  Both directions are byte streams that
arrive in pieces of any size.  A call returns the reply to its own line, and as
long as it waits one of the two ends can go on.  That is so until a call times
out: its reply may still come, and the next call would take it for its own.

`json.dumps` and `json.loads` are left out: a request is any line that `dumps`
may give, and a call returns the reply as it stands.  A `sendall` to a server that
has gone does not fail here; the call then notices the end of the stream.
-/

set_option autoImplicit false

namespace EtherDog

open CString Framing Transition

/-- `json.dumps` escapes everything but printable ASCII. -/
structure RequestLine where
  bytes : Text
  nonempty : bytes ≠ []
  printable : ∀ c ∈ bytes, 32 ≤ c ∧ c < 127

namespace RequestLine
variable (line : RequestLine)

theorem free (c : UInt8) (control : c < 32) : c ∉ line.bytes := fun member =>
  absurd (line.printable c member).1 (UInt8.not_le.mpr control)

theorem chomp_eq : chomp line.bytes = line.bytes := by
  unfold chomp
  rw [if_neg]
  intro ends
  exact line.free 13 (by decide) (List.mem_of_getLast? ends)

end RequestLine

/-! ## The client -/

/-- The buffer of a `ControlClient`, and whether a `call` is under way. -/
structure ControlClient where
  buf : List UInt8
  calling : Bool
  deriving DecidableEq, Repr

inductive RpcEvent where
  | called (line : Text)
  | server (event : ClientEvent)
  | returned (reply : Text)
  /-- `ConnectionError` -/
  | closed
  /-- `socket.timeout` -/
  | timedOut
  deriving DecidableEq, Repr

/-- Where the loop of `call` looks for a newline. -/
def ControlClient.look (client : ControlClient) : ControlClient × List RpcEvent :=
  if 10 ∈ client.buf then
    let line := client.buf.takeWhile (· ≠ 10)
    (⟨client.buf.drop (line.length + 1), false⟩, [.returned line])
  else (client, [])

theorem look_open {buf : Text} (free : 10 ∉ buf) (calling : Bool) :
    (⟨buf, calling⟩ : ControlClient).look = (⟨buf, calling⟩, []) := if_neg free

theorem look_line {reply : Text} (free : 10 ∉ reply) (calling : Bool) :
    (⟨reply ++ [10], calling⟩ : ControlClient).look = (⟨[], false⟩, [.returned reply]) := by
  have taken : (reply ++ [10]).takeWhile (· ≠ 10) = reply := by
    rw [List.takeWhile_append_of_pos]
    · simp
    · intro c member
      simpa using fun same : c = 10 => free (same ▸ member)
  have present : (10 : UInt8) ∈ reply ++ [10] := by simp
  unfold ControlClient.look
  dsimp only
  rw [if_pos present, taken]
  simp

/-! ## The two ends -/

/-- A client, its slot in the server's table, and the bytes on their way. -/
structure Rpc where
  client : ControlClient
  toServer : List UInt8
  slot : Client
  exit : Bool
  toClient : List UInt8
  deriving DecidableEq, Repr

inductive RpcAction (World : Type) where
  | call (line : RequestLine)
  /-- a `service_client` whose `recv` gives so many bytes -/
  | serve (world : World) (count : Nat)
  | recv (count : Nat)
  | noticeClosed
  | timeout

def Rpc.gone (s : Rpc) : Bool := s.exit || s.slot.fd.isNone

def repliesOf (events : List ClientEvent) : List Text :=
  events.filterMap fun event =>
    match event with
    | .sent reply => some reply
    | _ => none

/-- `reply` writes a newline behind the text. -/
def written (replies : List Text) : List UInt8 := replies.flatMap (· ++ [10])

section Machine
variable {World : Type} (svc : Services World) (token : Option Text)

/-- The log is newest first. -/
def rpcStep : Step Rpc (RpcAction World) RpcEvent
  | s, .call line =>
      if s.client.calling then none
      else
        let (client, events) := ControlClient.look { s.client with calling := true }
        some ({ s with client := client, toServer := s.toServer ++ (line.bytes ++ [10]) },
          events ++ [.called line.bytes])
  | s, .serve world count =>
      let received := s.toServer.take count
      if s.gone = true ∨ received = [] ∨ maxLine - 1 - s.slot.buf.length < received.length then none
      else
        let served := serviceClient svc token ⟨world, s.slot, false, []⟩ received
        some ({ s with
            toServer := s.toServer.drop count
            slot := served.client
            exit := served.exit
            toClient := s.toClient ++ written (repliesOf served.events) },
          (served.events.map .server).reverse)
  | s, .recv count =>
      let chunk := s.toClient.take count
      if s.client.calling = false ∨ chunk = [] ∨ 65536 < chunk.length then none
      else
        let (client, events) := ControlClient.look { s.client with buf := s.client.buf ++ chunk }
        some ({ s with client := client, toClient := s.toClient.drop count }, events)
  | s, .noticeClosed =>
      if s.client.calling = true ∧ s.toClient = [] ∧ s.gone = true then
        some ({ s with client := { s.client with calling := false } }, [.closed])
      else none
  | s, .timeout =>
      if s.client.calling then
        some ({ s with client := { s.client with calling := false } }, [.timedOut])
      else none

end Machine

/-- Behind a call that timed out the connection is not used again. -/
def givesUp {World : Type} : Guard Rpc (RpcAction World) RpcEvent
  | _, history, .call _ => .timedOut ∉ history
  | _, _, _ => True

instance {World : Type} (s : Rpc) (history : List RpcEvent) (action : RpcAction World) :
    Decidable (givesUp s history action) :=
  match action with
  | .call _ => inferInstanceAs (Decidable (_ ∉ _))
  | .serve .. | .recv _ | .noticeClosed | .timeout => isTrue trivial

def connectedAs (conn : Nat) : Rpc := ⟨⟨[], false⟩, [], ⟨some conn, false, []⟩, false, []⟩

/-! ## What a run did -/

def callsOf (history : List RpcEvent) : List Text :=
  history.reverse.filterMap fun event =>
    match event with
    | .called line => some line
    | _ => none

def returnsOf (history : List RpcEvent) : List Text :=
  history.reverse.filterMap fun event =>
    match event with
    | .returned reply => some reply
    | _ => none

/-- What the server did, first event first. -/
def servedOf (history : List RpcEvent) : List ClientEvent :=
  history.reverse.filterMap fun event =>
    match event with
    | .server done => some done
    | _ => none

/-- The lines the server has read with its replies to them; `none` for one that
is too long. -/
def exchanges : List ClientEvent → List (Option Text × Text)
  | .handled line _ :: .sent reply :: rest => (some line, reply) :: exchanges rest
  | .tooLong :: .sent reply :: rest => (none, reply) :: exchanges rest
  | _ :: rest => exchanges rest
  | [] => []

/-- The exchange is the one of a call with this line. -/
def Answers (line : Text) (exchange : Option Text × Text) : Prop :=
  exchange.1 = some line ∨ exchange = (none, lineTooLong) ∧ fitsLine line = false

section Logs
variable (events history : List RpcEvent)

theorem callsOf_append : callsOf (events ++ history) = callsOf history ++ callsOf events := by
  simp [callsOf]

theorem returnsOf_append :
    returnsOf (events ++ history) = returnsOf history ++ returnsOf events := by
  simp [returnsOf]

theorem servedOf_append : servedOf (events ++ history) = servedOf history ++ servedOf events := by
  simp [servedOf]

end Logs

theorem served_server (events : List ClientEvent) :
    servedOf (events.map RpcEvent.server).reverse = events ∧
      callsOf (events.map RpcEvent.server).reverse = [] ∧
      returnsOf (events.map RpcEvent.server).reverse = [] := by
  unfold servedOf callsOf returnsOf
  rw [List.reverse_reverse]
  refine ⟨?_, ?_, ?_⟩
  · induction events with
    | nil => rfl
    | cons event rest ih => simp
  · simp [List.filterMap_map]
  · simp [List.filterMap_map]

theorem exchanges_append {xs : List ClientEvent} (answered : Answered xs)
    (ys : List ClientEvent) : exchanges (xs ++ ys) = exchanges xs ++ exchanges ys := by
  induction xs using Answered.induct with
  | case1 => rfl
  | case2 line executed reply rest ih => simp [exchanges, ih answered]
  | case3 reply rest ih => simp [exchanges, ih answered.2]
  | case4 rest ih => simp [exchanges, ih answered]
  | case5 events _ _ _ _ => simp [Answered] at answered

/-! ## The server's end -/

section Serve
variable {World : Type} (svc : Services World) (token : Option Text)

/-- No reply holds a newline. -/
def RepliesOnOneLine : Prop :=
  ∀ world line verdict, ∀ reply ∈ (answer svc world line verdict).2, 10 ∉ reply

/-- Whatever the bus answers, the server keeps to this if its printer does. -/
theorem services_repliesOnOneLine (parts : ServerParts World) (prints : PrintsObjects parts.print) :
    RepliesOnOneLine parts.services :=
  answer_oneLine parts prints

variable {svc} {line : RequestLine} {slot : Client} {received : List UInt8} (world : World)
  (held : slot.fd ≠ none) (nonempty : received ≠ [])
include held nonempty

theorem serve_last (oneLine : RepliesOnOneLine svc)
    (whole : slot.buf ++ received = line.bytes ++ [10]) :
    let served := serviceClient svc token ⟨world, slot, false, []⟩ received
    ∃ executed reply dropped, 10 ∉ reply ∧
      served.events = .handled line.bytes executed :: .sent reply :: droppedEvents dropped ∧
      (served.client.fd = none ∨ served.client.buf = []) := by
  intro served
  have cut : bufferLines (slot.buf ++ received) = ([line.bytes], []) := by
    rw [whole, bufferLines_free]
    · exact segments_closed 10 (line.free 10 (by decide)) []
    · intro member
      rcases List.mem_append.mp member with early | late
      · exact line.free 0 (by decide) early
      · simp at late
  let start : Serving World := ⟨world, slot, false, []⟩
  have client : start.client = slot := rfl
  have going : start.emptied.done = false := by
    simpa [start, Serving.emptied, Serving.done, Option.isSome_iff_ne_none] using held
  have loop : runUntil Serving.done (Serving.handle svc token) start.emptied
      (bufferLines (start.client.buf ++ received)).1 =
        (start.emptied.handle svc token line.bytes, []) := by
    rw [client, cut, runUntil, if_neg (by simp [going])]
    rfl
  have busy : chomp line.bytes ≠ [] := by
    rw [line.chomp_eq]
    exact line.nonempty
  obtain ⟨reply, one, events, _, _⟩ :=
    @handle_request _ svc token start.emptied line.bytes _ busy rfl
  rw [line.chomp_eq] at one events
  have plain : 10 ∉ reply := oneLine _ _ _ reply (by rw [one]; exact List.mem_singleton_self _)
  have quiet : start.emptied.events = [] := rfl
  rw [quiet, List.nil_append] at events
  by_cases dropped : (start.emptied.handle svc token line.bytes).client.fd = none
  · have same : served = start.emptied.handle svc token line.bytes :=
      serviceClient_dropped nonempty loop dropped
    rw [same]
    exact ⟨_, reply, _, plain, events, Or.inl dropped⟩
  · have behind : ([] : List Text).flatMap (· ++ [10]) ++
        (bufferLines (start.client.buf ++ received)).2 = [] := by
      rw [client, cut]
      rfl
    have same := serviceClient_keeps nonempty loop dropped (by rw [behind]; decide)
    have logged := (congrArg Serving.events same).trans events
    have kept := (congrArg (fun s : Serving World => s.client.buf) same).trans behind
    exact ⟨_, reply, _, plain, logged, Or.inr kept⟩

/-- A piece that does not end the line is kept, or is too much. -/
theorem serve_more (left : List UInt8) (split : slot.buf ++ received ++ left = line.bytes) :
    let served := serviceClient svc token ⟨world, slot, false, []⟩ received
    (served.events = [] ∧ served.exit = false ∧
        served.client = { slot with buf := slot.buf ++ received } ∧
        (slot.buf ++ received).length < maxLine - 1) ∨
      (served.events = [.tooLong, .sent lineTooLong, .dropped] ∧ served.client.fd = none ∧
        fitsLine line.bytes = false) := by
  intro served
  have among : ∀ c ∈ slot.buf ++ received, c ∈ line.bytes := by
    intro c member
    rw [← split]
    exact List.mem_append_left _ member
  have cut : bufferLines (slot.buf ++ received) = ([], slot.buf ++ received) := by
    rw [bufferLines_free fun member => line.free 0 (by decide) (among 0 member)]
    exact segments_free 10 fun member => line.free 10 (by decide) (among 10 member)
  let start : Serving World := ⟨world, slot, false, []⟩
  have client : start.client = slot := rfl
  have loop : runUntil Serving.done (Serving.handle svc token) start.emptied
      (bufferLines (start.client.buf ++ received)).1 = (start.emptied, []) := by
    rw [client, cut]
    rfl
  have connected : start.emptied.client.fd ≠ none := held
  have rest : ([] : List Text).flatMap (· ++ [10]) ++
      (bufferLines (start.client.buf ++ received)).2 = slot.buf ++ received := by
    rw [client, cut]
    rfl
  rcases Nat.lt_or_ge (slot.buf ++ received).length (maxLine - 1) with room | full
  · have same := serviceClient_keeps nonempty loop connected (by rw [rest]; exact room)
    rw [rest] at same
    left
    refine ⟨?_, ?_, ?_, room⟩
    · exact congrArg Serving.events same
    · exact congrArg Serving.exit same
    · exact congrArg Serving.client same
  · have same := serviceClient_tooLong nonempty loop connected (by rw [rest]; exact full)
    right
    refine ⟨?_, ?_, ?_⟩
    · exact congrArg Serving.events same
    · exact congrArg (fun s : Serving World => s.client.fd) same
    · have length := congrArg List.length split
      rw [List.length_append] at length
      simp only [fitsLine, decide_eq_false_iff_not]
      omega

end Serve

/-! ## Where a connection stands -/

/-- The lines of the calls so far, the replies they returned, and the exchanges
of the server; `late` where a call timed out. -/
inductive Phase (s : Rpc) (late : Prop) (lines replies : List Text)
    (done : List (Option Text × Text)) : Prop where
  /-- nothing is on its way to the client -/
  | quiet (buf : s.client.buf = []) (toClient : s.toClient = [])
      (returned : replies = done.map Prod.snd)
      (idle : s.gone = true ∨ (s.client.calling = false ∧ s.toServer = [] ∧ s.slot.buf = [] ∧
        lines.length = done.length)) : Phase s late lines replies done
  /-- a part of the line may have arrived -/
  | asked (line : RequestLine) (buf : s.client.buf = []) (toClient : s.toClient = [])
      (returned : replies = done.map Prod.snd) (calling : s.client.calling = true ∨ late)
      (here : s.gone = false) (earlier : List Text) (lines_eq : lines = earlier ++ [line.bytes])
      (count : earlier.length = done.length) (unread : s.toServer ≠ [])
      (onWay : s.slot.buf ++ s.toServer = line.bytes ++ [10])
      (room : s.slot.buf.length < maxLine - 1) : Phase s late lines replies done
  /-- a part of the reply may have arrived -/
  | answered (reply : Text) (calling : s.client.calling = true ∨ late)
      (returned : done.map Prod.snd = replies ++ [reply])
      (onWay : s.client.buf ++ s.toClient = reply ++ [10]) (free : 10 ∉ s.client.buf)
      (plain : 10 ∉ reply)
      (idle : s.gone = true ∨ (s.toServer = [] ∧ s.slot.buf = [] ∧ lines.length = done.length)) :
      Phase s late lines replies done

structure RpcInv (s : Rpc) (history : List RpcEvent) : Prop where
  whole : Answered (servedOf history)
  own : List.Forall₂ Answers
    ((callsOf history).take (exchanges (servedOf history)).length) (exchanges (servedOf history))
  phase : Phase s (.timedOut ∈ history) (callsOf history) (returnsOf history)
    (exchanges (servedOf history))

/-- What stands before the end of a line, where some of it is left. -/
theorem before_newline {xs left line : List UInt8} (split : xs ++ left = line ++ [10])
    (more : left ≠ []) : ∃ rest, xs ++ rest = line ∧ left = rest ++ [10] := by
  have back := List.dropLast_append_getLast more
  rw [← back, ← List.append_assoc] at split
  obtain ⟨front, last⟩ := List.append_inj' split rfl
  refine ⟨left.dropLast, front, ?_⟩
  rw [← last, back]

theorem take_of_own {lines : List Text} {done : List (Option Text × Text)}
    (own : List.Forall₂ Answers (lines.take done.length) done) : done.length ≤ lines.length := by
  have length := own.length_eq
  rw [List.length_take] at length
  omega

section Steps
variable {World : Type} {svc : Services World} {token : Option Text} {s next : Rpc}
  {history events : List RpcEvent}

theorem rpc_call_inv (inv : RpcInv s history) (line : RequestLine)
    (inTime : .timedOut ∉ history)
    (move : rpcStep svc token s (.call line) = some (next, events)) :
    RpcInv next (events ++ history) := by
  rw [rpcStep] at move
  split at move
  · contradiction
  rename_i idle
  obtain ⟨whole, own, phase⟩ := inv
  have behind := take_of_own own
  cases phase with
  | asked _ _ _ _ calling => exact absurd calling (not_or.mpr ⟨idle, inTime⟩)
  | answered _ calling => exact absurd calling (not_or.mpr ⟨idle, inTime⟩)
  | quiet buf toClient returned idle =>
      have open_ : (10 : UInt8) ∉ (⟨s.client.buf, true⟩ : ControlClient).buf := by simp [buf]
      dsimp only at move
      rw [look_open open_, Option.some.injEq, Prod.mk.injEq] at move
      obtain ⟨rfl, rfl⟩ := move
      have log : callsOf ([RpcEvent.called line.bytes] ++ history) =
          callsOf history ++ [line.bytes] ∧
          returnsOf ([RpcEvent.called line.bytes] ++ history) = returnsOf history ∧
          servedOf ([RpcEvent.called line.bytes] ++ history) = servedOf history := by
        rw [callsOf_append, returnsOf_append, servedOf_append]
        simp [callsOf, returnsOf, servedOf]
      obtain ⟨calls, returns, served⟩ := log
      rw [List.nil_append]
      refine ⟨by rw [served]; exact whole, ?_, ?_⟩
      · rw [served, calls, List.take_append_of_le_length behind]
        exact own
      · rw [served, calls, returns]
        rcases idle with gone | ⟨_, sent, empty, count⟩
        · exact .quiet buf toClient returned (Or.inl gone)
        · cases gone : s.gone with
          | true => exact .quiet buf toClient returned (Or.inl gone)
          | false =>
              refine .asked line buf toClient returned (Or.inl rfl) gone _ rfl count ?_ ?_ ?_
              · simp
              · simp [sent, empty]
              · simp [empty, maxLine]

/-- The server reads on; what it answers goes to the client. -/
theorem serve_inv (oneLine : RepliesOnOneLine svc) (inv : RpcInv s history) (world : World)
    (count : Nat)
    (move : rpcStep svc token s (.serve world count) = some (next, events)) :
    RpcInv next (events ++ history) := by
  rw [rpcStep] at move
  dsimp only at move
  split at move
  · contradiction
  rename_i enabled
  simp only [not_or] at enabled
  obtain ⟨here, nonempty, fits⟩ := enabled
  rw [Option.some.injEq, Prod.mk.injEq] at move
  obtain ⟨rfl, rfl⟩ := move
  obtain ⟨whole, own, phase⟩ := inv
  have waiting : s.toServer ≠ [] := fun empty => nonempty (by rw [empty, List.take_nil])
  cases phase with
  | quiet _ _ _ idle =>
      rcases idle with gone | ⟨_, sent, _⟩
      · exact absurd gone here
      · exact absurd sent waiting
  | answered _ _ _ _ _ _ idle =>
      rcases idle with gone | ⟨sent, _⟩
      · exact absurd gone here
      · exact absurd sent waiting
  | asked line buf toClient returned calling present earlier lines_eq counted unread onWay room =>
      have held : s.slot.fd ≠ none := by
        intro dropped
        exact here (by simp [Rpc.gone, dropped])
      generalize batch : serviceClient svc token ⟨world, s.slot, false, []⟩
        (s.toServer.take count) = served
      obtain ⟨servedLog, callsLog, returnsLog⟩ := served_server served.events
      rw [← List.take_append_drop count s.toServer, ← List.append_assoc] at onWay
      -- one exchange more, answered to the line that was called last
      have exchanged : ∀ exchange, Answered served.events →
          exchanges served.events = [exchange] → repliesOf served.events = [exchange.2] →
          Answers line.bytes exchange → 10 ∉ exchange.2 →
          ((served.exit || served.client.fd.isNone) = true ∨
            (s.toServer.drop count = [] ∧ served.client.buf = [])) →
          RpcInv { s with
              toServer := s.toServer.drop count
              slot := served.client
              exit := served.exit
              toClient := s.toClient ++ written (repliesOf served.events) }
            ((served.events.map RpcEvent.server).reverse ++ history) := by
        intro exchange answered one replied answers plain idle
        have all : exchanges (servedOf ((served.events.map RpcEvent.server).reverse ++ history)) =
            exchanges (servedOf history) ++ [exchange] := by
          rw [servedOf_append, servedLog, exchanges_append whole, one]
        have calls : callsOf ((served.events.map RpcEvent.server).reverse ++ history) =
            earlier ++ [line.bytes] := by
          rw [callsOf_append, callsLog, List.append_nil, lines_eq]
        have returns : returnsOf ((served.events.map RpcEvent.server).reverse ++ history) =
            returnsOf history := by
          rw [returnsOf_append, returnsLog, List.append_nil]
        refine ⟨?_, ?_, ?_⟩
        · rw [servedOf_append, servedLog]
          exact answered_append _ whole answered
        · rw [all, calls, List.length_append, ← counted, List.length_singleton,
            List.take_of_length_le (by simp)]
          rw [lines_eq, ← counted, List.take_left] at own
          exact List.rel_append own (.cons answers .nil)
        · rw [all, calls, returns]
          refine .answered exchange.2 (calling.imp_right (List.mem_append_right _)) ?_ ?_ ?_ plain
            ?_
          · rw [List.map_append, returned]
            rfl
          · rw [buf, toClient, replied]
            simp [written]
          · rw [buf]
            exact List.not_mem_nil
          · rcases idle with gone | ⟨sent, empty⟩
            · exact Or.inl gone
            · exact Or.inr ⟨sent, empty, by simp [counted]⟩
      rcases eq_or_ne (s.toServer.drop count) [] with finished | more
      · rw [finished, List.append_nil] at onWay
        obtain ⟨executed, reply, dropped, plain, log, idle⟩ :=
          serve_last token world held nonempty oneLine onWay
        rw [batch] at log idle
        refine exchanged (some line.bytes, reply) ?_ ?_ ?_ (Or.inl rfl) plain ?_
        · rw [log]
          cases dropped with
          | false => exact trivial
          | true => exact trivial
        · rw [log]
          cases dropped with
          | false => rfl
          | true => rfl
        · rw [log]
          cases dropped with
          | false => rfl
          | true => rfl
        · rcases idle with gone | empty
          · exact Or.inl (by simp [gone])
          · exact Or.inr ⟨finished, empty⟩
      · obtain ⟨rest, split, left⟩ := before_newline onWay more
        rcases serve_more token world held nonempty rest split with
          ⟨log, exit, kept, space⟩ | ⟨log, dropped, long⟩
        · rw [batch] at log exit kept
          rw [log, List.map_nil, List.reverse_nil, List.nil_append]
          refine ⟨whole, own, .asked line buf ?_ returned calling ?_ earlier lines_eq counted more
            ?_ ?_⟩
          · simp [toClient, repliesOf, written]
          · simp only [Rpc.gone, exit, kept, Bool.false_or]
            simpa [Option.isSome_iff_ne_none] using held
          · dsimp only
            rw [kept]
            exact onWay
          · dsimp only
            rw [kept]
            exact space
        · rw [batch] at log dropped
          refine exchanged (none, lineTooLong) ?_ ?_ ?_ (Or.inr ⟨rfl, long⟩) ?_ ?_
          · rw [log]
            exact ⟨rfl, trivial⟩
          · rw [log]
            rfl
          · rw [log]
            rfl
          · decide +kernel
          · exact Or.inl (by simp [dropped])

theorem recv_inv (inv : RpcInv s history) (count : Nat)
    (move : rpcStep svc token s (.recv count) = some (next, events)) :
    RpcInv next (events ++ history) := by
  rw [rpcStep] at move
  dsimp only at move
  split at move
  · contradiction
  rename_i enabled
  simp only [not_or] at enabled
  obtain ⟨calling, nonempty, _⟩ := enabled
  have waiting : s.toClient ≠ [] := fun empty => nonempty (by rw [empty, List.take_nil])
  obtain ⟨whole, own, phase⟩ := inv
  cases phase with
  | quiet _ toClient => exact absurd toClient waiting
  | asked _ _ toClient => exact absurd toClient waiting
  | answered reply calling returned onWay free plain idle =>
      rw [← List.take_append_drop count s.toClient, ← List.append_assoc] at onWay
      rcases eq_or_ne (s.toClient.drop count) [] with finished | more
      · rw [finished, List.append_nil] at onWay
        rw [onWay, look_line plain, Option.some.injEq, Prod.mk.injEq] at move
        obtain ⟨rfl, rfl⟩ := move
        have log : callsOf ([RpcEvent.returned reply] ++ history) = callsOf history ∧
            returnsOf ([RpcEvent.returned reply] ++ history) = returnsOf history ++ [reply] ∧
            servedOf ([RpcEvent.returned reply] ++ history) = servedOf history := by
          rw [callsOf_append, returnsOf_append, servedOf_append]
          simp [callsOf, returnsOf, servedOf]
        obtain ⟨calls, returns, served⟩ := log
        refine ⟨by rw [served]; exact whole, by rw [served, calls]; exact own, ?_⟩
        rw [served, calls, returns]
        refine .quiet rfl finished returned.symm ?_
        rcases idle with gone | ⟨sent, empty, counted⟩
        · exact Or.inl gone
        · exact Or.inr ⟨rfl, sent, empty, counted⟩
      · obtain ⟨rest, split, _⟩ := before_newline onWay more
        have still : 10 ∉ s.client.buf ++ s.toClient.take count := by
          intro member
          apply plain
          rw [← split]
          exact List.mem_append_left _ member
        rw [look_open still, Option.some.injEq, Prod.mk.injEq] at move
        obtain ⟨rfl, rfl⟩ := move
        exact ⟨whole, own, .answered reply calling returned onWay still plain idle⟩

theorem timeout_inv (inv : RpcInv s history)
    (move : rpcStep svc token s .timeout = some (next, events)) :
    RpcInv next (events ++ history) := by
  rw [rpcStep] at move
  split at move
  · rename_i calling
    rw [Option.some.injEq, Prod.mk.injEq] at move
    obtain ⟨rfl, rfl⟩ := move
    obtain ⟨whole, own, phase⟩ := inv
    have log : callsOf ([RpcEvent.timedOut] ++ history) = callsOf history ∧
        returnsOf ([RpcEvent.timedOut] ++ history) = returnsOf history ∧
        servedOf ([RpcEvent.timedOut] ++ history) = servedOf history := by
      rw [callsOf_append, returnsOf_append, servedOf_append]
      simp [callsOf, returnsOf, servedOf]
    obtain ⟨calls, returns, served⟩ := log
    have late : RpcEvent.timedOut ∈ [RpcEvent.timedOut] ++ history :=
      List.mem_append_left _ (List.mem_singleton_self _)
    refine ⟨by rw [served]; exact whole, by rw [served, calls]; exact own, ?_⟩
    rw [served, calls, returns]
    cases phase with
    | quiet buf toClient returned idle =>
        refine .quiet buf toClient returned (idle.imp_right fun idle => ?_)
        exact ⟨rfl, idle.2⟩
    | asked line buf toClient returned _ here earlier lines_eq count unread onWay room =>
        exact .asked line buf toClient returned (Or.inr late) here earlier lines_eq count unread
          onWay room
    | answered reply _ returned onWay free plain idle =>
        exact .answered reply (Or.inr late) returned onWay free plain idle
  · contradiction

theorem noticeClosed_inv (inv : RpcInv s history)
    (move : rpcStep svc token s .noticeClosed = some (next, events)) :
    RpcInv next (events ++ history) := by
  rw [rpcStep] at move
  split at move
  · rename_i enabled
    obtain ⟨_, drained, gone⟩ := enabled
    rw [Option.some.injEq, Prod.mk.injEq] at move
    obtain ⟨rfl, rfl⟩ := move
    obtain ⟨whole, own, phase⟩ := inv
    have log : callsOf ([RpcEvent.closed] ++ history) = callsOf history ∧
        returnsOf ([RpcEvent.closed] ++ history) = returnsOf history ∧
        servedOf ([RpcEvent.closed] ++ history) = servedOf history := by
      rw [callsOf_append, returnsOf_append, servedOf_append]
      simp [callsOf, returnsOf, servedOf]
    obtain ⟨calls, returns, served⟩ := log
    refine ⟨by rw [served]; exact whole, by rw [served, calls]; exact own, ?_⟩
    rw [served, calls, returns]
    cases phase with
    | quiet buf toClient returned => exact .quiet buf toClient returned (Or.inl gone)
    | asked _ _ _ _ _ here =>
        rw [here] at gone
        contradiction
    | answered reply _ _ onWay free =>
        rw [drained, List.append_nil] at onWay
        rw [onWay] at free
        simp at free
  · contradiction

theorem rpcStep_inv (oneLine : RepliesOnOneLine svc) (inv : RpcInv s history)
    {action : RpcAction World}
    (allowed : givesUp s history action)
    (move : rpcStep svc token s action = some (next, events)) :
    RpcInv next (events ++ history) := by
  cases action with
  | call line => exact rpc_call_inv inv line allowed move
  | serve world count => exact serve_inv oneLine inv world count move
  | recv count => exact recv_inv inv count move
  | noticeClosed => exact noticeClosed_inv inv move
  | timeout => exact timeout_inv inv move

theorem connectedAs_inv (conn : Nat) : RpcInv (connectedAs conn) [] :=
  ⟨trivial, .nil, .quiet rfl rfl rfl (Or.inr ⟨rfl, rfl, rfl, rfl⟩)⟩

end Steps

/-! ## Every call ends with the reply to its own line -/

/-- What every step of a call makes smaller. -/
def Rpc.effort (s : Rpc) : Nat × Nat :=
  (s.toServer.length, s.toClient.length + if s.client.calling then 1 else 0)

section Progress
variable {World : Type} {svc : Services World} {token : Option Text} {s next : Rpc}
  {history events : List RpcEvent}

theorem length_drop_of_take {xs : List UInt8} {count : Nat} (taken : xs.take count ≠ []) :
    (xs.drop count).length < xs.length := by
  have positive : count ≠ 0 := by
    rintro rfl
    exact taken (List.take_zero)
  have nonempty : xs ≠ [] := by
    rintro rfl
    exact taken (List.take_nil)
  have some := List.length_pos_iff.mpr nonempty
  rw [List.length_drop]
  omega

theorem step_effort (calling : s.client.calling = true) {action : RpcAction World}
    (move : rpcStep svc token s action = some (next, events)) :
    Prod.Lex (· < ·) (· < ·) next.effort s.effort := by
  cases action with
  | call line => simp [rpcStep, calling] at move
  | serve world count =>
      rw [rpcStep] at move
      dsimp only at move
      split at move
      · contradiction
      · rename_i enabled
        simp only [not_or] at enabled
        rw [Option.some.injEq, Prod.mk.injEq] at move
        obtain ⟨rfl, rfl⟩ := move
        exact Prod.Lex.left _ _ (length_drop_of_take enabled.2.1)
  | recv count =>
      rw [rpcStep] at move
      dsimp only at move
      split at move
      · contradiction
      · rename_i enabled
        simp only [not_or] at enabled
        rw [Option.some.injEq, Prod.mk.injEq] at move
        obtain ⟨rfl, rfl⟩ := move
        refine Prod.Lex.right _ ?_
        have shorter := length_drop_of_take enabled.2.1
        rw [calling, if_pos rfl]
        dsimp only
        split <;> omega
  | noticeClosed =>
      rw [rpcStep] at move
      split at move
      · rw [Option.some.injEq, Prod.mk.injEq] at move
        obtain ⟨rfl, rfl⟩ := move
        refine Prod.Lex.right _ ?_
        simp [calling]
      · contradiction
  | timeout =>
      rw [rpcStep, if_pos calling, Option.some.injEq, Prod.mk.injEq] at move
      obtain ⟨rfl, rfl⟩ := move
      refine Prod.Lex.right _ ?_
      simp [calling]

/-- As long as a call waits, one of the two ends can go on. -/
theorem RpcInv.enabled (inv : RpcInv s history) (calling : s.client.calling = true)
    (world : World) :
    ∃ action, action ≠ .timeout ∧ (rpcStep svc token s action).isSome = true := by
  obtain ⟨_, _, phase⟩ := inv
  cases phase with
  | quiet buf toClient returned idle =>
      have gone : s.gone = true := by
        rcases idle with gone | ⟨quiet, _⟩
        · exact gone
        · rw [calling] at quiet
          contradiction
      exact ⟨.noticeClosed, by simp, by simp [rpcStep, calling, toClient, gone]⟩
  | asked line buf toClient returned _ here _ _ _ unread onWay room =>
      refine ⟨.serve world 1, by simp, ?_⟩
      have one : s.toServer.take 1 ≠ [] := by simpa using unread
      have short : (s.toServer.take 1).length ≤ 1 := List.length_take_le 1 s.toServer
      rw [rpcStep]
      dsimp only
      rw [if_neg]
      · rfl
      · simp only [here, Bool.false_eq_true, one, false_or]
        omega
  | answered reply _ returned onWay free plain idle =>
      refine ⟨.recv 1, by simp, ?_⟩
      have left : s.toClient ≠ [] := by
        intro empty
        rw [empty, List.append_nil] at onWay
        rw [onWay] at free
        simp at free
      have one : s.toClient.take 1 ≠ [] := by simpa using left
      have short : (s.toClient.take 1).length ≤ 1 := List.length_take_le 1 s.toClient
      rw [rpcStep]
      dsimp only
      rw [if_neg]
      · rfl
      · simp only [calling, Bool.true_eq_false, one, false_or]
        omega

end Progress

/-- Whatever the sizes of the pieces and however the two ends take turns, as long
as no call follows one that timed out: what a call returns is the server's reply to
the line of that call, and a call that waits ends after finitely many steps, not
only by a timeout. -/
theorem calls_return_their_replies {World : Type} (parts : ServerParts World)
    (prints : PrintsObjects parts.print) {token : Option Text} {conn : Nat} {s : Rpc}
    {history : List RpcEvent} (world : World)
    (reached : Reaches (rpcStep parts.services token) givesUp (connectedAs conn) s history) :
    (∀ (i : Nat) (reply : Text), (returnsOf history)[i]? = some reply →
      ∃ line read, (callsOf history)[i]? = some line ∧
        (exchanges (servedOf history))[i]? = some (read, reply) ∧ Answers line (read, reply)) ∧
      (s.client.calling = true →
        (∃ action : RpcAction World, action ≠ .timeout ∧
          (rpcStep parts.services token s action).isSome = true) ∧
        ∀ (action : RpcAction World) (next : Rpc) (events : List RpcEvent),
          rpcStep parts.services token s action = some (next, events) →
            Prod.Lex (· < ·) (· < ·) next.effort s.effort) := by
  have inv : RpcInv s history := reached.invariant RpcInv (connectedAs_inv conn)
    fun _ _ _ _ _ before allowed move =>
      rpcStep_inv (services_repliesOnOneLine parts prints) before allowed move
  refine ⟨?_, fun calling => ⟨inv.enabled calling world, fun _ _ _ move =>
    step_effort calling move⟩⟩
  intro i reply returned
  have among : returnsOf history <+: (exchanges (servedOf history)).map Prod.snd := by
    cases inv.phase with
    | quiet _ _ same => rw [same]
    | asked _ _ _ same => rw [same]
    | answered _ _ same =>
        rw [same]
        exact List.prefix_append _ _
  have exchanged : ((exchanges (servedOf history)).map Prod.snd)[i]? = some reply := by
    rw [← returned]
    obtain ⟨inside, _⟩ := List.getElem?_eq_some_iff.mp returned
    exact (List.prefix_iff_getElem?.mp among i inside).trans
      (List.getElem?_eq_getElem inside).symm
  rw [List.getElem?_map, Option.map_eq_some_iff] at exchanged
  obtain ⟨⟨read, _⟩, found, rfl⟩ := exchanged
  obtain ⟨inside, at_⟩ := List.getElem?_eq_some_iff.mp found
  have bound : i < ((callsOf history).take (exchanges (servedOf history)).length).length := by
    rw [inv.own.length_eq]
    exact inside
  have answers := (List.forall₂_iff_get.mp inv.own).2 i bound inside
  simp only [List.get_eq_getElem, List.getElem_take, at_] at answers
  rw [List.length_take] at bound
  exact ⟨_, read, List.getElem?_eq_getElem (by omega), found, answers⟩

/-! ## Two calls -/

/-- A dance is the only line that is JSON. -/
def danceFloor : ServerParts Unit :=
  { atRest with
    parse := fun line =>
      if line = text "dance" then some (.object [(text "command", .string (text "dance"))])
      else none }

def unknownDance : Text := text "\x7b\"error\":\"unknown command 'dance'\"\x7d"

def requestLine (s : String) (nonempty : text s ≠ [])
    (printable : (text s).all (fun c => decide (32 ≤ c ∧ c < 127)) = true) : RequestLine :=
  ⟨text s, nonempty, fun c among => of_decide_eq_true (List.all_eq_true.mp printable c among)⟩

def danceLine : RequestLine := requestLine "dance" (by decide +kernel) (by decide +kernel)

def hiLine : RequestLine := requestLine "hi" (by decide +kernel) (by decide +kernel)

/-- The first line arrives in two pieces, and the reply to the second one too. -/
def twoCalls : List (RpcAction Unit) :=
  [.call danceLine, .serve () 2, .serve () 9, .recv 1000, .call hiLine, .serve () 9, .recv 3,
    .recv 1000]

theorem calls_return_their_replies_two :
    ∃ s history, Reaches (rpcStep danceFloor.services none) givesUp (connectedAs 0) s history ∧
      callsOf history = [text "dance", text "hi"] ∧
      returnsOf history = [unknownDance, errorText "invalid JSON"] ∧
      ∃ line read, (callsOf history)[1]? = some line ∧
        (exchanges (servedOf history))[1]? = some (read, errorText "invalid JSON") ∧
        Answers line (read, errorText "invalid JSON") := by
  obtain ⟨s, history, reached, calls, returns⟩ := exists_of_execute
    (rpcStep danceFloor.services none) givesUp (connectedAs 0) twoCalls
    (fun _ history => callsOf history = [text "dance", text "hi"] ∧
      returnsOf history = [unknownDance, errorText "invalid JSON"]) (by decide +kernel)
  refine ⟨s, history, reached, calls, returns, ?_⟩
  exact (calls_return_their_replies danceFloor printOne_objects () reached).1 1 _
    (by rw [returns]; rfl)

/-- The guard is needed: the late reply to the first line is what the second call returns. -/
example : ((execute (rpcStep danceFloor.services none) anyStep (connectedAs 0) []
    [.call danceLine, .timeout, .serve () 9, .call hiLine, .recv 1000]).map fun result =>
      (callsOf result.2, returnsOf result.2)) =
    some ([text "dance", text "hi"], [unknownDance]) := by decide +kernel

end EtherDog
