import EtherDog.Lib.Inet
import EtherDog.Bus.OpenData

/-!
# Endpoints of the data sockets (src/dgram.c, tools/etherdog_client.py)

`edog_dgram_parse` and `edog_dgram_open` as they are built on Linux.  Of a
`sockaddr_un` only the path before its terminator is kept.

The service sends to the address that the client's endpoint spells, and the client
to the one that the service's reply spells.  `data_endpoints_meet` says that each
is the address the other's socket is bound to.
-/

set_option autoImplicit false

namespace EtherDog

open CString Inet

def unixPrefix : Text := text "unix:"

def udpPrefix : Text := text "udp:"

/-- `sizeof(sun_path)`. -/
def sunPathSize : Nat := 108

def hostSize : Nat := 64

def isLoopback (address : Address) : Bool := address.toUInt32 >>> 24 == 127

def invalidUdp : Text := text "invalid udp endpoint (expected udp:127.0.0.1:port)"

/-- `%s` between quotes. -/
def unsupportedEndpoint (spec : Text) : Text :=
  text "unsupported endpoint '" ++ spec ++ text "' (use unix:<path> or udp:<ip>:<port>)"

def parseUdp (rest : Text) : Except Text SockAddr :=
  match cutAtLast 58 rest with
  | none => .error invalidUdp
  | some (host, port) =>
      if host.length ≥ hostSize then .error invalidUdp
      else
        let (number, stop) := strtoll 10 port
        if stop = port ∨ stop ≠ [] ∨ number ≤ 0 ∨ number > 65535 then .error invalidUdp
        else
          match inetPton host with
          | none => .error invalidUdp
          | some address =>
              if isLoopback address then .ok (.inet address.toUInt32 (.ofNat number.toNat))
              else .error (text "udp endpoint must be a loopback address")

def parseEndpoint (spec : Text) : Except Text SockAddr :=
  match spec.dropPrefix? unixPrefix with
  | some path =>
      if path = [] ∨ path.length ≥ sunPathSize then .error (text "invalid unix endpoint path")
      else .ok (.unix path)
  | none =>
      match spec.dropPrefix? udpPrefix with
      | some rest => parseUdp rest
      | none => .error (unsupportedEndpoint spec)

/-- Errors are printed into a buffer of `errSize` bytes. -/
def edogDgramParse (errSize : Nat) (spec : Text) : Except Text SockAddr :=
  (parseEndpoint spec).mapError (snprintf errSize)

/-! ## The texts it accepts -/

/-- A unix path that fits, or an address of 127.0.0.0/8 with a port. -/
inductive EndpointOf : Text → SockAddr → Prop where
  | unix {path : Text} (some : path ≠ []) (fits : path.length < sunPathSize) :
      EndpointOf (unixPrefix ++ path) (.unix path)
  | udp {address : Address} {port : Text} {number : Int} (loopback : address.a = 127)
      (whole : WholeNumber port number) (positive : 0 < number) (fits : number ≤ 65535) :
      EndpointOf (udpPrefix ++ (address.dotted ++ 58 :: port))
        (.inet address.toUInt32 (.ofNat number.toNat))

theorem isLoopback_iff (address : Address) : isLoopback address = true ↔ address.a = 127 := by
  rw [isLoopback, toUInt32_shift, beq_iff_eq, ← UInt32.toNat_inj, UInt8.toNat_toUInt32,
    ← UInt8.toNat_inj]
  rfl

theorem dropPrefix_iff {front s rest : Text} :
    s.dropPrefix? front = some rest ↔ s = front ++ rest := by
  rw [List.dropPrefix?_eq_some_iff]
  simp only [beq_iff_eq]
  constructor
  · rintro ⟨_, whole, rfl⟩
    exact whole
  · rintro rfl
    exact ⟨front, rfl, rfl⟩

theorem dropPrefix_append (front rest : Text) : (front ++ rest).dropPrefix? front = some rest :=
  dropPrefix_iff.mpr rfl

/-- The two prefixes part at their second letter. -/
theorem udp_not_unix (rest : Text) : (udpPrefix ++ rest).dropPrefix? unixPrefix = none := by
  rw [Option.eq_none_iff_forall_not_mem]
  intro path member
  have same := dropPrefix_iff.mp member
  have head : (udpPrefix ++ rest)[1]? = (unixPrefix ++ path)[1]? := by rw [same]
  rw [List.getElem?_append_left (by decide), List.getElem?_append_left (by decide)] at head
  exact absurd head (by decide)

/-- The number behind the last colon and the address before it. -/
theorem parseUdp_iff (rest : Text) (addr : SockAddr) :
    parseUdp rest = .ok addr ↔ EndpointOf (udpPrefix ++ rest) addr := by
  constructor
  · intro accepted
    unfold parseUdp at accepted
    cases cut : cutAtLast 58 rest with
    | none => simp [cut] at accepted
    | some parts =>
        obtain ⟨host, port⟩ := parts
        obtain ⟨joined, _⟩ := (cutAtLast_iff 58 rest host port).mp cut
        simp only [cut] at accepted
        split at accepted
        · contradiction
        · split at accepted
          · contradiction
          · rename_i valid
            simp only [not_or, not_not, not_le, not_lt, gt_iff_lt, ne_eq] at valid
            obtain ⟨moved, finished, positive, fits⟩ := valid
            cases read : inetPton host with
            | none => simp [read] at accepted
            | some address =>
                simp only [read] at accepted
                split at accepted
                · rename_i loopback
                  have some : port ≠ [] := by
                    rintro rfl
                    exact moved finished
                  have taken : strtoll 10 port = ((strtoll 10 port).1, []) :=
                    Prod.ext rfl finished
                  obtain ⟨number, whole, clamped⟩ := (strtoll_whole_iff port _).mp ⟨taken, some⟩
                  have exact_ : number = (strtoll 10 port).1 := by omega
                  rw [(inetPton_iff host address).mp read] at joined
                  cases accepted
                  rw [joined, ← exact_]
                  exact .udp ((isLoopback_iff address).mp loopback) whole (by omega) (by omega)
                · contradiction
  · intro spelled
    generalize shape : udpPrefix ++ rest = spec at spelled
    cases spelled with
    | unix some fits =>
        rename_i path
        have apart := udp_not_unix rest
        rw [shape, dropPrefix_append] at apart
        contradiction
    | udp loopback whole positive fits =>
        rename_i address port number
        have joined := List.append_cancel_left shape
        have cut := (cutAtLast_iff 58 rest address.dotted port).mpr ⟨joined, whole.colon_free⟩
        obtain ⟨read, some⟩ := (strtoll_whole_iff port number).mpr
          ⟨number, whole, by omega⟩
        have short := length_dotted address
        rw [parseUdp, cut]
        dsimp only
        rw [if_neg (by rw [hostSize]; omega), read]
        dsimp only
        rw [if_neg, (inetPton_iff _ address).mpr rfl]
        · dsimp only
          rw [if_pos ((isLoopback_iff address).mpr loopback)]
        · simp only [not_or, not_not, not_le, not_lt, gt_iff_lt, ne_eq]
          exact ⟨Ne.symm some, trivial, positive, fits⟩

theorem parseEndpoint_iff (spec : Text) (addr : SockAddr) :
    parseEndpoint spec = .ok addr ↔ EndpointOf spec addr := by
  unfold parseEndpoint
  cases unix : spec.dropPrefix? unixPrefix with
  | some path =>
      obtain rfl := dropPrefix_iff.mp unix
      dsimp only
      constructor
      · intro accepted
        split at accepted
        · contradiction
        · rename_i valid
          obtain ⟨some, fits⟩ := not_or.mp valid
          cases accepted
          exact .unix some (Nat.lt_of_not_le fits)
      · intro spelled
        generalize shape : unixPrefix ++ path = spec at spelled
        cases spelled with
        | unix some fits =>
            obtain rfl := List.append_cancel_left shape
            exact if_neg (not_or.mpr ⟨some, Nat.not_le_of_lt fits⟩)
        | udp loopback whole positive fits =>
            rw [shape, udp_not_unix] at unix
            contradiction
  | none =>
      cases udp : spec.dropPrefix? udpPrefix with
      | some rest =>
          obtain rfl := dropPrefix_iff.mp udp
          exact parseUdp_iff rest addr
      | none =>
          dsimp only
          constructor
          · intro accepted
            contradiction
          · intro spelled
            cases spelled with
            | unix some fits => simp [dropPrefix_append] at unix
            | udp loopback whole positive fits => simp [dropPrefix_append] at udp

theorem parse_ok_iff (errSize : Nat) (spec : Text) (addr : SockAddr) :
    edogDgramParse errSize spec = .ok addr ↔ EndpointOf spec addr := by
  rw [← parseEndpoint_iff, edogDgramParse]
  cases parseEndpoint spec with
  | error err => simp [Except.mapError]
  | ok found => simp [Except.mapError]

/-- An endpoint is accepted where it spells an address of this host, as that address; what is
printed for any other text fits the buffer. -/
theorem endpoint_accepted_iff (errSize : Nat) (spec : Text) :
    (∀ addr, edogDgramParse errSize spec = .ok addr ↔ EndpointOf spec addr) ∧
      ∀ err, edogDgramParse errSize spec = .error err → err.length ≤ errSize - 1 := by
  refine ⟨parse_ok_iff errSize spec, ?_⟩
  intro err refused
  rw [edogDgramParse] at refused
  cases read : parseEndpoint spec with
  | ok found =>
      rw [read] at refused
      contradiction
  | error printed =>
      rw [read] at refused
      cases refused
      exact List.length_take_le _ _

/-! ## The socket of the service -/

/-- What the system calls of `edog_dgram_open` return: the text of an error, or the
descriptor and the port that `getsockname` reports. -/
structure DgramCalls where
  socket : Except Text Nat
  setNonblocking : Except Text Unit
  bind : Except Text UInt16

inductive DgramEvent where
  | opened (fd : Nat)
  | unlinked (path : Text)
  | bound (fd : Nat) (addr : SockAddr)
  | closed (fd : Nat)
  deriving DecidableEq, Repr

structure OpenDgram where
  socket : DataSocket
  localPath : Text
  bound : SockAddr
  deriving DecidableEq, Repr

def loopback : Address := ⟨127, 0, 0, 1⟩

def dataSocketPath (stateDir : Text) (masterIndex pid : Nat) : Text :=
  stateDir ++ (text "/etherdog-data-" ++ (decimal masterIndex ++ 45 :: (decimal pid ++
    text ".sock")))

def udpEndpoint (port : UInt16) : Text :=
  udpPrefix ++ (loopback.dotted ++ 58 :: digitsOf 10 port.toNat)

/-- `local_path` and `endpoint_out` hold `pathSize` and `endpointSize` bytes. -/
def edogDgramOpen (pathSize endpointSize errSize : Nat) (calls : DgramCalls) (peer : SockAddr)
    (stateDir : Text) (pid masterIndex : Nat) : Except Text OpenDgram × List DgramEvent :=
  match calls.socket with
  | .error err => (.error (snprintf errSize (text "socket: " ++ err)), [])
  | .ok fd =>
      match calls.setNonblocking with
      | .error err =>
          (.error (snprintf errSize (text "fcntl: " ++ err)), [.opened fd, .closed fd])
      | .ok _ =>
          match peer with
          | .unix _ =>
              let path := dataSocketPath stateDir masterIndex pid
              if path.length ≥ sunPathSize ∨ path.length ≥ pathSize then
                (.error (snprintf errSize (text "state directory path too long for a socket")),
                  [.opened fd, .closed fd])
              else
                match calls.bind with
                | .error err =>
                    (.error (snprintf errSize (text "bind " ++ path ++ text ": " ++ err)),
                      [.opened fd, .unlinked path, .closed fd])
                | .ok _ =>
                    (.ok ⟨⟨fd, snprintf endpointSize (unixPrefix ++ path)⟩,
                        snprintf pathSize path, .unix path⟩,
                      [.opened fd, .unlinked path, .bound fd (.unix path)])
          | _ =>
              match calls.bind with
              | .error err =>
                  (.error (snprintf errSize (text "bind udp: " ++ err)),
                    [.opened fd, .closed fd])
              | .ok port =>
                  (.ok ⟨⟨fd, snprintf endpointSize (udpEndpoint port)⟩, [],
                      .inet loopback.toUInt32 port⟩,
                    [.opened fd, .bound fd (.inet loopback.toUInt32 port)])

/-- The descriptors that were opened and not closed. -/
def leftOpen (events : List DgramEvent) : List Nat :=
  events.foldl (fun fds event =>
    match event with
    | .opened fd => fd :: fds
    | .closed fd => fds.erase fd
    | _ => fds) []

/-- What the socket is bound to, and the endpoint that spells it. -/
inductive Announced (stateDir : Text) (pid masterIndex : Nat) : SockAddr → OpenDgram → Prop where
  | unix {peerPath path : Text} {fd : Nat} (own : path = dataSocketPath stateDir masterIndex pid)
      (fits : path.length < sunPathSize) :
      Announced stateDir pid masterIndex (.unix peerPath)
        ⟨⟨fd, unixPrefix ++ path⟩, path, .unix path⟩
  | udp {address : UInt32} {peerPort port : UInt16} {fd : Nat} :
      Announced stateDir pid masterIndex (.inet address peerPort)
        ⟨⟨fd, udpEndpoint port⟩, [], .inet loopback.toUInt32 port⟩

theorem snprintf_fits {size : Nat} {s : Text} (fits : s.length < size) : snprintf size s = s :=
  List.take_of_length_le (by omega)

theorem length_udpEndpoint (port : UInt16) : (udpEndpoint port).length ≤ 19 := by
  have digits := @length_digitsOf_le port.toNat 5 (by decide) (by have := port.toNat_lt; omega)
  have short : udpPrefix.length = 4 ∧ loopback.dotted.length = 9 := by decide +kernel
  simp only [udpEndpoint, List.length_append, List.length_cons, short]
  omega

section Open
variable {calls : DgramCalls} {peer : SockAddr} {stateDir : Text} {pid masterIndex : Nat}

/-- The buffers of `ecat_data_open` and `handle_open_data_command` hold every endpoint. -/
theorem edogDgramOpen_announced {errSize : Nat} {socket : OpenDgram} {spec : Text}
    (spelled : EndpointOf spec peer)
    (opened : (edogDgramOpen 108 160 errSize calls peer stateDir pid masterIndex).1 =
      .ok socket) :
    Announced stateDir pid masterIndex peer socket := by
  unfold edogDgramOpen at opened
  cases created : calls.socket with
  | error err => simp [created] at opened
  | ok fd =>
      cases flagged : calls.setNonblocking with
      | error err => simp [created, flagged] at opened
      | ok _ =>
          simp only [created, flagged] at opened
          cases spelled with
          | unix some fits =>
              dsimp only at opened
              split at opened
              · contradiction
              · rename_i short
                obtain ⟨short, _⟩ := not_or.mp short
                have room := Nat.lt_of_not_le short
                cases bound : calls.bind with
                | error err => simp [bound] at opened
                | ok port =>
                    rw [bound] at opened
                    cases opened
                    rw [sunPathSize] at room
                    have front : unixPrefix.length = 5 := by decide
                    have whole : (unixPrefix ++ dataSocketPath stateDir masterIndex pid).length <
                        160 := by
                      rw [List.length_append, front]
                      omega
                    rw [snprintf_fits room, snprintf_fits whole]
                    exact .unix rfl room
          | udp =>
              dsimp only at opened
              cases bound : calls.bind with
              | error err => simp [bound] at opened
              | ok port =>
                  rw [bound] at opened
                  cases opened
                  have short := length_udpEndpoint port
                  rw [snprintf_fits (by omega)]
                  exact .udp

/-- A failure leaves no descriptor behind, a success the one it returns. -/
theorem leftOpen_edogDgramOpen (pathSize endpointSize errSize : Nat) :
    leftOpen (edogDgramOpen pathSize endpointSize errSize calls peer stateDir pid masterIndex).2 =
      ((edogDgramOpen pathSize endpointSize errSize calls peer stateDir pid
        masterIndex).1.toOption.map fun socket => socket.socket.fd).toList := by
  unfold edogDgramOpen
  cases calls.socket with
  | error err => rfl
  | ok fd =>
      have closed : [fd].erase fd = [] := by simp
      cases calls.setNonblocking with
      | error err => exact closed
      | ok _ =>
          cases calls.bind with
          | error err =>
              cases peer with
              | unix path =>
                  dsimp only
                  split
                  · exact closed
                  · exact closed
              | inet | unixUnbound | otherFamily => exact closed
          | ok port =>
              cases peer with
              | unix path =>
                  dsimp only
                  split
                  · exact closed
                  · rfl
              | inet | unixUnbound | otherFamily => rfl

/-- The master's index stands between the last two dashes. -/
theorem dataSocketPath_inj {i j : Nat}
    (same : dataSocketPath stateDir i pid = dataSocketPath stateDir j pid) : i = j := by
  have tails := List.append_cancel_left (List.append_cancel_left same)
  have free : ∀ n : Nat, ∀ rest : Text,
      (decimal n ++ 45 :: rest).takeWhile isDigit = digitsOf 10 n := by
    intro n rest
    have plain : decimal n = digitsOf 10 n := if_neg (by omega)
    rw [plain, List.takeWhile_append_of_pos fun c member => isDigit_of_mem_digitsOf member]
    simp [isDigit]
  have digits : digitsOf 10 i = digitsOf 10 j := by
    rw [← free i, ← free j, tails]
  rw [← numeral_digitsOf i, digits, numeral_digitsOf]

end Open

/-! ## The two ends of a session -/

/-- The socket of the client and the endpoint it sends in `open_data`. -/
inductive ClientBound : SockAddr → Text → Prop where
  | udp {port : UInt16} (given : port ≠ 0) :
      ClientBound (.inet loopback.toUInt32 port) (udpEndpoint port)
  | unix {path : Text} (some : path ≠ []) (fits : path.length < sunPathSize) :
      ClientBound (.unix path) (unixPrefix ++ path)

theorem endpointOf_udpEndpoint {port : UInt16} (given : port ≠ 0) :
    EndpointOf (udpEndpoint port) (.inet loopback.toUInt32 port) := by
  have small := port.toNat_lt
  have positive : port.toNat ≠ 0 := fun zero => given (UInt16.toNat_inj.mp zero)
  have spelled := @EndpointOf.udp loopback _ _ rfl (wholeNumber_digitsOf port.toNat)
    (by omega) (by omega)
  rwa [Int.toNat_natCast, UInt16.ofNat_toNat] at spelled

theorem ClientBound.endpointOf {own : SockAddr} {announced : Text}
    (bound : ClientBound own announced) : EndpointOf announced own := by
  cases bound with
  | udp given => exact endpointOf_udpEndpoint given
  | unix some fits => exact .unix some fits

theorem EndpointOf.samePeer_iff {spec : Text} {addr : SockAddr} (spelled : EndpointOf spec addr)
    (source : SockAddr) : samePeer addr source = true ↔ source = addr := by
  cases spelled with
  | unix some fits => cases source <;> simp [samePeer]
  | udp => cases source <;> simp [samePeer, and_comm]

/-- `DataSession._address`, where `int` is Python's on texts. -/
def clientAddress (int : Text → Option Nat) (endpoint : Text) : Option SockAddr :=
  match endpoint.dropPrefix? unixPrefix with
  | some path => some (.unix path)
  | none =>
      let rest := endpoint.drop udpPrefix.length
      let (host, port) := (cutAtLast 58 rest).getD ([], rest)
      match inetPton host, int port with
      | some address, some number =>
          if number ≤ 65535 then some (.inet address.toUInt32 (.ofNat number)) else none
      | _, _ => none

theorem clientAddress_announced {int : Text → Option Nat}
    (decimals : ∀ n, int (digitsOf 10 n) = some n) {stateDir : Text} {pid masterIndex : Nat}
    {peer : SockAddr} {socket : OpenDgram}
    (announced : Announced stateDir pid masterIndex peer socket) :
    clientAddress int socket.socket.endpoint = some socket.bound := by
  cases announced with
  | unix own fits => rw [clientAddress, dropPrefix_append]
  | udp =>
      rename_i port _
      have small := port.toNat_lt
      have free : (58 : UInt8) ∉ digitsOf 10 port.toNat := fun member =>
        absurd (isDigit_of_mem_digitsOf member) (by decide)
      have cut := (cutAtLast_iff 58 (loopback.dotted ++ 58 :: digitsOf 10 port.toNat)
        loopback.dotted (digitsOf 10 port.toNat)).mpr ⟨rfl, free⟩
      rw [clientAddress, udpEndpoint, udp_not_unix]
      simp only [List.drop_left, cut, Option.getD_some, (inetPton_iff _ loopback).mpr rfl, decimals]
      rw [if_pos (by omega), UInt16.ofNat_toNat]

/-- What `open_data` is answered where a client names `spec`. -/
def answersFor (spec stateDir : Text) (pid : Nat) (calls : Nat → DgramCalls)
    (random : Nat → UInt64) : OpenDataAnswers where
  peer := edogDgramParse 256 spec
  socket masterIndex :=
    match edogDgramParse 256 spec with
    | .error err => .error err
    | .ok peer =>
        (edogDgramOpen 108 160 256 (calls masterIndex) peer stateDir pid masterIndex).1.map
          OpenDgram.socket
  random := random

structure OpenedAs (answers : OpenDataAnswers) (peer : SockAddr) (opened : OpenedSession)
    (d : Session) : Prop where
  isOpen : d.isOpen = true
  peer : d.peer = peer
  session : d.session = opened.session
  socket : ∃ socket, answers.socket opened.index = .ok socket ∧ d.fd = socket.fd ∧
    opened.endpoint = socket.endpoint

section Sessions
variable {answers : OpenDataAnswers} {peer : SockAddr} (read : answers.peer = .ok peer)
include read

theorem openOne_opened {i : Nat} {inst : Instance} {opened : OpenedSession}
    (found : (openOne answers i inst).result = .ok opened) :
    opened.index = i ∧ OpenedAs answers peer opened (openOne answers i inst).inst.data := by
  cases can : canOpen answers i inst with
  | false =>
      rw [openOne_fails i inst read can] at found
      contradiction
  | true =>
      have possible : ¬ (inst.data.rxBuf = none ∨ inst.data.txBuf = none ∨
          (answers.socket i).toOption = none) := by
        rw [← canOpen_eq_false_iff, can]
        decide
      simp only [not_or] at possible
      obtain ⟨rx, tx, available⟩ := possible
      have given : answers.peer.toOption = some peer := by
        rw [read]
        rfl
      cases bound : answers.socket i with
      | error err => simp [bound, Except.toOption] at available
      | ok socket =>
          have opens : ecatDataOpen inst (some peer) (some socket.fd) (answers.random i) =
              ((ecatDataOpen inst (some peer) (some socket.fd) (answers.random i)).1,
                some (answers.random i)) := by
            simp [ecatDataOpen, closeLocked, rx, tx]
          have one : openOne answers i inst =
              ⟨(ecatDataOpen inst (some peer) (some socket.fd) (answers.random i)).1,
                .ok ⟨i, socket.endpoint, answers.random i⟩,
                closeEvents answers i inst ++ [.opens i (answers.random i)]⟩ := by
            rw [openOne, given, bound]
            simp only [Except.toOption, Option.map_some, Option.getD_some]
            rw [opens]
          rw [one] at found ⊢
          cases found
          refine ⟨rfl, ?_, ?_, ?_, socket, bound, ?_, rfl⟩
          all_goals simp [ecatDataOpen, closeLocked, rx, tx]

theorem openMasters_opened {i : Nat} {masters : List Master} {sessions : List OpenedSession}
    (all : (openMasters answers i masters).result = .ok sessions) :
    (∀ opened ∈ sessions, ∃ k m, opened.index = i + k ∧
        (openMasters answers i masters).masters[k]? = some m ∧
        OpenedAs answers peer opened m.inst.data) ∧
      sessions.Pairwise fun first second => first.index < second.index := by
  induction masters generalizing i sessions with
  | nil =>
      cases all
      exact ⟨by simp, .nil⟩
  | cons m rest ih =>
      rw [openMasters] at all ⊢
      split at all
      · rename_i skipped
        rw [if_pos skipped]
        obtain ⟨each, rising⟩ := ih all
        refine ⟨fun opened member => ?_, rising⟩
        obtain ⟨k, found, index, at_, told⟩ := each opened member
        exact ⟨k + 1, found, by omega, at_, told⟩
      · rename_i turn
        rw [if_neg turn]
        dsimp only at all ⊢
        cases one : (openOne answers i m.inst).result with
        | error err =>
            rw [one] at all
            contradiction
        | ok first =>
            cases others : (openMasters answers (i + 1) rest).result with
            | error err => simp [one, others, Except.map] at all
            | ok later =>
                simp only [one, others, Except.map, Except.ok.injEq] at all
                subst all
                obtain ⟨index, told⟩ := openOne_opened read one
                obtain ⟨each, rising⟩ := ih others
                dsimp only
                refine ⟨?_, .cons (fun opened member => ?_) rising⟩
                · intro opened member
                  rcases List.mem_cons.mp member with rfl | beyond
                  · exact ⟨0, _, by omega, rfl, told⟩
                  · obtain ⟨k, found, next, at_, toldNext⟩ := each opened beyond
                    exact ⟨k + 1, found, by omega, at_, toldNext⟩
                · obtain ⟨k, _, next, _⟩ := each opened member
                  omega

end Sessions

/-- The session a client finds in the reply, and what `edog_dgram_open` returned for the master:
each end holds the address the other is bound to. -/
structure EndsMeet (int : Text → Option Nat) (own : SockAddr) (opened : OpenedSession)
    (d : Session) (socket : OpenDgram) : Prop where
  isOpen : d.isOpen = true
  session : d.session = opened.session
  fd : d.fd = socket.socket.fd
  serves : d.peer = own
  hears : ∀ source, samePeer d.peer source = true ↔ source = own
  answers : clientAddress int opened.endpoint = some socket.bound

/-- After a successful `open_data`, client and service send to each other's sockets, and no two
masters share a path. -/
theorem data_endpoints_meet {int : Text → Option Nat}
    (decimals : ∀ n, int (digitsOf 10 n) = some n) {own : SockAddr} {announced stateDir : Text}
    (bound : ClientBound own announced) {pid : Nat} {calls : Nat → DgramCalls}
    {random : Nat → UInt64} {masters : List Master} {sessions : List OpenedSession}
    (replied : (handleOpenDataCommand masters
      (some (answersFor announced stateDir pid calls random))).reply = .opened sessions) :
    (∀ opened ∈ sessions, ∃ m socket,
        (handleOpenDataCommand masters
          (some (answersFor announced stateDir pid calls random))).masters[opened.index]? =
            some m ∧
        (edogDgramOpen 108 160 256 (calls opened.index) own stateDir pid opened.index).1 =
          .ok socket ∧
        EndsMeet int own opened m.inst.data socket) ∧
      sessions.Pairwise fun first second =>
        ∀ path, clientAddress int first.endpoint = some (.unix path) →
          clientAddress int second.endpoint ≠ some (.unix path) := by
  have spelled := bound.endpointOf
  have read : (answersFor announced stateDir pid calls random).peer = .ok own :=
    (parse_ok_iff 256 announced own).mpr spelled
  have loop := (handleOpenData_loop masters (answersFor announced stateDir pid calls random)).1
  have all : (openMasters (answersFor announced stateDir pid calls random) 0 masters).result =
      .ok sessions := by
    unfold handleOpenDataCommand at replied
    dsimp only at replied
    split at replied
    · contradiction
    · contradiction
    · rename_i result
      cases replied
      exact result
  obtain ⟨each, rising⟩ := openMasters_opened read all
  have told : ∀ opened ∈ sessions, ∃ m socket,
      (handleOpenDataCommand masters
        (some (answersFor announced stateDir pid calls random))).masters[opened.index]? =
          some m ∧
      (edogDgramOpen 108 160 256 (calls opened.index) own stateDir pid opened.index).1 =
        .ok socket ∧
      EndsMeet int own opened m.inst.data socket ∧
      Announced stateDir pid opened.index own socket := by
    intro opened member
    obtain ⟨k, m, index, at_, ⟨isOpen, peer, session, found, served, fd, endpoint⟩⟩ :=
      each opened member
    rw [Nat.zero_add] at index
    have parsed : edogDgramParse 256 announced = .ok own := read
    simp only [answersFor, parsed] at served
    cases result : (edogDgramOpen 108 160 256 (calls opened.index) own stateDir pid
        opened.index).1 with
    | error err => simp [result, Except.map] at served
    | ok socket =>
        have meant : socket.socket = found := by simpa [result, Except.map] using served
        have named := edogDgramOpen_announced spelled result
        refine ⟨m, socket, by rw [loop, index]; exact at_, rfl,
          ⟨isOpen, session, ?_, peer, ?_, ?_⟩, named⟩
        · rw [meant, fd]
        · rw [peer]
          exact spelled.samePeer_iff
        · rw [endpoint, ← meant]
          exact clientAddress_announced decimals named
  refine ⟨fun opened member => ?_, ?_⟩
  · obtain ⟨m, socket, at_, returned, meet, _⟩ := told opened member
    exact ⟨m, socket, at_, returned, meet⟩
  · refine rising.imp_of_mem fun {first second} early late before path here there => ?_
    obtain ⟨_, socket, _, _, meet, named⟩ := told first early
    obtain ⟨_, other, _, _, meetOther, namedOther⟩ := told second late
    have one : socket.bound = .unix path := Option.some.inj (meet.answers.symm.trans here)
    have two : other.bound = .unix path := Option.some.inj (meetOther.answers.symm.trans there)
    cases named with
    | udp => exact absurd one (by simp)
    | unix ownPath _ =>
        cases namedOther with
        | unix otherPath _ =>
            cases one
            cases two
            exact absurd (dataSocketPath_inj (ownPath.symm.trans otherPath)) (Nat.ne_of_lt before)

/-! ## Two masters and a client on a unix socket -/

/-- `int` on a field of digits. -/
def digitsInt (s : Text) : Option Nat :=
  if s ≠ [] ∧ s.all isDigit = true then some (numeral 10 s) else none

theorem digitsInt_digitsOf (n : Nat) : digitsInt (digitsOf 10 n) = some n := by
  have digits : (digitsOf 10 n).all isDigit = true :=
    List.all_eq_true.mpr fun c member => isDigit_of_mem_digitsOf member
  rw [digitsInt, if_pos ⟨digitsOf_ne_nil n, digits⟩, numeral_digitsOf]

def pathCalls (masterIndex : Nat) : DgramCalls := ⟨.ok (masterIndex + 3), .ok (), .ok 0⟩

def pathAnswers : OpenDataAnswers :=
  answersFor (unixPrefix ++ text "/tmp/edog-client-7.sock") (text "/run/etherdog") 42 pathCalls
    fun masterIndex => .ofNat (masterIndex + 1)

def pathSessions : List OpenedSession :=
  [⟨0, text "unix:/run/etherdog/etherdog-data-0-42.sock", 1⟩,
    ⟨1, text "unix:/run/etherdog/etherdog-data-1-42.sock", 2⟩]

theorem data_endpoints_meet_two :
    (∀ opened ∈ pathSessions, ∃ m socket,
        (handleOpenDataCommand [runningMaster, runningMaster]
          (some pathAnswers)).masters[opened.index]? = some m ∧
        (edogDgramOpen 108 160 256 (pathCalls opened.index)
          (.unix (text "/tmp/edog-client-7.sock")) (text "/run/etherdog") 42 opened.index).1 =
            .ok socket ∧
        EndsMeet digitsInt (.unix (text "/tmp/edog-client-7.sock")) opened m.inst.data socket) ∧
      pathSessions.Pairwise fun first second =>
        ∀ path, clientAddress digitsInt first.endpoint = some (.unix path) →
          clientAddress digitsInt second.endpoint ≠ some (.unix path) :=
  data_endpoints_meet digitsInt_digitsOf (.unix (by decide) (by decide)) (by decide +kernel)

end EtherDog
