import EtherDog.Control.Client

/-!
# Framing of requests (src/control.c)

A client sends one stream, which `recv` delivers in pieces; between two pieces
other threads may change the world.  `conversation` reads the stream in one
piece: its lines, each without a carriage return at its end and the empty ones
left out, up to the first that drops the client or shuts the server down, or
to the first that does not fit the buffer.  `Talk` is what is compared: the
client without its buffer, and the events without the replies, since these
depend on the world.
-/

set_option autoImplicit false

namespace EtherDog

open CString Framing

structure Talk where
  authenticated : Bool
  connected : Bool
  exit : Bool
  outline : List ClientEvent
  deriving DecidableEq, Repr

def ClientEvent.isSent : ClientEvent → Bool
  | .sent _ => true
  | _ => false

def outline (events : List ClientEvent) : List ClientEvent :=
  events.filter fun event => !event.isSent

def Talk.done (talk : Talk) : Bool := talk.exit || !talk.connected

section Spec
variable {World : Type} (svc : Services World) (token : Option Text)

def Talk.answer (talk : Talk) (line : Text) : Talk :=
  let verdict := judge svc token talk.authenticated line
  { authenticated := verdict.authenticates talk.authenticated
    connected := talk.connected && !verdict.drops
    exit := verdict.exits
    outline := talk.outline ++ .handled line verdict.executed :: droppedEvents verdict.drops }

def Talk.overflow (talk : Talk) : Talk where
  authenticated := false
  connected := false
  exit := talk.exit
  outline := talk.outline ++ [.tooLong, .dropped]

/-- The request of a line; `none` where it is empty. -/
def request? (raw : Text) : Option Text := if chomp raw = [] then none else some (chomp raw)

/-- At most 65534 bytes stand before the newline. -/
def fitsLine (line : List UInt8) : Bool := decide (line.length < maxLine - 1)

/-- The requests before the first line that does not fit. -/
def requestLines (stream : List UInt8) : List Text :=
  ((segments 10 stream).1.takeWhile fitsLine).filterMap request?

/-- No line of the stream, nor what stands behind the last, is too long. -/
def FitsBuffer (stream : List UInt8) : Prop :=
  (∀ line ∈ (segments 10 stream).1, fitsLine line = true) ∧
    fitsLine (segments 10 stream).2 = true

instance (stream : List UInt8) : Decidable (FitsBuffer stream) :=
  inferInstanceAs (Decidable (_ ∧ _))

def conversation (talk : Talk) (stream : List UInt8) : Talk :=
  let answered := (runUntil Talk.done (Talk.answer svc token) talk (requestLines stream)).1
  if answered.done = true ∨ FitsBuffer stream then answered else answered.overflow

end Spec

/-! ## The pieces -/

/-- A result of `recv` and the world it finds. -/
structure Recv (World : Type) where
  world : World
  bytes : List UInt8

section Pieces
variable {World : Type} (svc : Services World) (token : Option Text)

/-- The slot is served as long as it is in use and the server runs. -/
def serve (serving : Serving World) (recv : Recv World) : Serving World :=
  if serving.done then serving
  else serviceClient svc token { serving with world := recv.world } recv.bytes

def serveAll (serving : Serving World) (recvs : List (Recv World)) : Serving World :=
  recvs.foldl (serve svc token) serving

/-- Each `recv` gives at least one byte and no more than there is room for. -/
def RecvsFit : Serving World → List (Recv World) → Prop
  | _, [] => True
  | serving, recv :: rest =>
      (serving.done = false →
        recv.bytes ≠ [] ∧ recv.bytes.length ≤ maxLine - 1 - serving.client.buf.length) ∧
        RecvsFit (serve svc token serving recv) rest

instance decidableRecvsFit (serving : Serving World) (recvs : List (Recv World)) :
    Decidable (RecvsFit svc token serving recvs) :=
  match recvs with
  | [] => isTrue trivial
  | recv :: rest =>
      have := decidableRecvsFit (serve svc token serving recv) rest
      inferInstanceAs (Decidable (_ ∧ _))

def newClient (world : World) (conn : Nat) : Serving World :=
  ⟨world, ⟨some conn, false, []⟩, false, []⟩

/-- Every line that is handled, and every line that is too long, gets exactly
one reply, before anything else happens. -/
def Answered : List ClientEvent → Prop
  | [] => True
  | .handled _ _ :: .sent _ :: rest => Answered rest
  | .tooLong :: .sent reply :: rest => reply = lineTooLong ∧ Answered rest
  | .dropped :: rest => Answered rest
  | _ => False

end Pieces

/-! ## One reply for each line -/

theorem answered_append {xs : List ClientEvent} (ys : List ClientEvent) (first : Answered xs)
    (later : Answered ys) : Answered (xs ++ ys) := by
  induction xs using Answered.induct with
  | case1 => exact later
  | case2 line executed reply rest ih => exact ih first
  | case3 reply rest ih => exact ⟨first.1, ih first.2⟩
  | case4 rest ih => exact ih first
  | case5 events _ _ _ _ => simp [Answered] at first

section Handle
variable {World : Type} {svc : Services World} {token : Option Text}

theorem answered_handle {serving : Serving World} (answered : Answered serving.events)
    (raw : Text) : Answered (serving.handle svc token raw).events := by
  by_cases empty : chomp raw = []
  · rw [handle_empty serving empty]
    exact answered
  · obtain ⟨reply, _, events, _⟩ := @handle_request _ svc token serving _ _ empty rfl
    rw [events]
    refine answered_append _ answered ?_
    unfold droppedEvents
    split
    · trivial
    · trivial

theorem answered_runUntil {serving : Serving World} (answered : Answered serving.events)
    (raws : List Text) :
    Answered (runUntil Serving.done (Serving.handle svc token) serving raws).1.events :=
  runUntil_invariant (fun serving : Serving World => Answered serving.events) answered
    (fun _ raw _ before => answered_handle before raw) raws

theorem answered_serviceClient {serving : Serving World} (answered : Answered serving.events)
    (received : List UInt8) : Answered (serviceClient svc token serving received).events := by
  unfold serviceClient
  split
  · exact answered_append [.dropped] answered trivial
  · dsimp only
    have served := @answered_runUntil _ svc token serving.emptied answered
      (bufferLines (serving.client.buf ++ received)).1
    split
    · exact served
    · split
      · exact answered_append _ served ⟨rfl, trivial⟩
      · exact served

end Handle

/-! ## The loop as a reader of segments -/

section Reading
variable {World : Type} (svc : Services World) (token : Option Text)

def Talk.handle (talk : Talk) (raw : Text) : Talk :=
  match request? raw with
  | none => talk
  | some line => talk.answer svc token line

def lineReader : Reader Talk UInt8 where
  sep := 10
  cap := maxLine - 1
  stop := Talk.done
  step := Talk.handle svc token
  overflow := Talk.overflow
  overflow_stops := by
    intro talk
    simp [Talk.done, Talk.overflow]

def Serving.talk (serving : Serving World) : Talk where
  authenticated := serving.client.authenticated
  connected := serving.client.fd.isSome
  exit := serving.exit
  outline := outline serving.events

variable {svc token}

theorem outline_append (xs ys : List ClientEvent) : outline (xs ++ ys) = outline xs ++ outline ys :=
  List.filter_append xs ys

theorem talk_done (serving : Serving World) : serving.talk.done = serving.done := by
  simp [Serving.talk, Serving.done, Talk.done]

theorem authenticates_of_drops {verdict : Verdict} (drops : verdict.drops = true)
    (authenticated : Bool) : verdict.authenticates authenticated = false := by
  cases verdict with
  | wrongToken => rfl
  | stranger => rfl
  | hello => contradiction
  | execute command => contradiction

theorem talk_handle (serving : Serving World) (raw : Text) :
    (serving.handle svc token raw).talk = serving.talk.handle svc token raw := by
  unfold Talk.handle request?
  by_cases empty : chomp raw = []
  · rw [handle_empty serving empty, if_pos empty]
  · rw [if_neg empty]
    dsimp only [Serving.talk, Talk.answer]
    generalize found : judge svc token serving.client.authenticated (chomp raw) = verdict
    obtain ⟨reply, _, events, client, exit⟩ := handle_request serving empty found
    rw [events, client, exit, outline_append]
    cases dropped : verdict.drops with
    | false => simp [outline, ClientEvent.isSent, droppedEvents]
    | true =>
        simp [outline, ClientEvent.isSent, droppedEvents, freeSlot,
          authenticates_of_drops dropped]

theorem talk_runUntil (serving : Serving World) (raws : List Text) :
    runUntil Talk.done (Talk.handle svc token) serving.talk raws =
      ((runUntil Serving.done (Serving.handle svc token) serving raws).1.talk,
        (runUntil Serving.done (Serving.handle svc token) serving raws).2) :=
  runUntil_map Serving.talk talk_done talk_handle serving raws

/-- Reading the stream in one piece is the conversation. -/
theorem stream_eq_conversation (talk : Talk) (stream : List UInt8) :
    (lineReader svc token).stream talk stream = conversation svc token talk stream := by
  have answered : ∀ raws : List Text, (lineReader svc token).run talk raws =
      (runUntil Talk.done (Talk.answer svc token) talk (raws.filterMap request?)).1 := by
    intro raws
    apply runUntil_filterMap request?
    · intro state raw empty
      simp [lineReader, Talk.handle, empty]
    · intro state raw line found
      simp [lineReader, Talk.handle, found]
  have short : (lineReader svc token).run talk
      ((segments (lineReader svc token).sep stream).1.takeWhile
        fun line => line.length < (lineReader svc token).cap) =
      (runUntil Talk.done (Talk.answer svc token) talk (requestLines stream)).1 :=
    answered _
  unfold Reader.stream conversation
  dsimp only
  rw [short]
  dsimp only [lineReader]
  by_cases stopped :
      (runUntil Talk.done (Talk.answer svc token) talk (requestLines stream)).1.done = true
  · simp only [stopped, if_true, true_or]
  · simp only [stopped, false_or, Bool.false_eq_true, if_false]
    exact if_congr (by simp [FitsBuffer, fitsLine]) rfl rfl

/-! ## A piece of the stream -/

/-- What stands in the buffer is read like what has just been received. -/
def Serving.at (serving : Serving World) : Talk × List UInt8 :=
  (serving.talk, serving.client.buf)

/-- The reader at the same place; a buffer that is not used again may differ. -/
def SamePlace (serving : Serving World) (place : Talk × List UInt8) : Prop :=
  serving.talk = place.1 ∧ (serving.done = false → serving.client.buf = place.2)

/-- A loop that is stopped has taken a line, so what it leaves is shorter than
the buffer. -/
theorem rest_short {serving served : Serving World} {bytes : List UInt8} {left : List Text}
    (loop : runUntil Serving.done (Serving.handle svc token) serving.emptied
      (bufferLines (serving.client.buf ++ bytes)).1 = (served, left))
    (going : serving.done = false) (ended : served.done = true)
    (room : bytes.length ≤ maxLine - 1 - serving.client.buf.length)
    (ready : serving.client.buf.length < maxLine - 1) :
    (left.flatMap (· ++ [10]) ++
      (bufferLines (serving.client.buf ++ bytes)).2).length < maxLine - 1 := by
  obtain ⟨taken, split, _, busy⟩ := @runUntil_taken _ _ Serving.done (Serving.handle svc token)
    serving.emptied (bufferLines (serving.client.buf ++ bytes)).1
  rw [loop] at split busy
  have joined := congrArg List.length (bufferLines_join (serving.client.buf ++ bytes))
  rw [split, List.flatMap_append] at joined
  have some_taken : 0 < (taken.flatMap (· ++ [10])).length := by
    obtain ⟨line, others, rfl⟩ := List.exists_cons_of_ne_nil (busy going ended)
    simp only [List.flatMap_cons, List.length_append, List.length_singleton]
    omega
  simp only [List.length_append] at joined ⊢
  omega

theorem stop_before {serving : Serving World} (going : serving.done = false) :
    (lineReader svc token).stop serving.at.1 = false := by
  rw [← going, ← talk_done]
  rfl

section Piece
variable {serving served : Serving World} {bytes : List UInt8} {left : List Text}
  (loop : runUntil Serving.done (Serving.handle svc token) serving.emptied
    (bufferLines (serving.client.buf ++ bytes)).1 = (served, left))
  (going : serving.done = false) (nonempty : bytes ≠ [])
  (free : 0 ∉ serving.client.buf ++ bytes)
include loop free

/-- The loop over the buffer is a run of the reader. -/
theorem run_segments : (lineReader svc token).run serving.at.1
    (segments (lineReader svc token).sep (serving.at.2 ++ bytes)).1 = served.talk := by
  have viewed := @talk_runUntil _ svc token serving.emptied
    (bufferLines (serving.client.buf ++ bytes)).1
  rw [loop, bufferLines_free free] at viewed
  exact congrArg Prod.fst viewed

theorem stop_segments : (lineReader svc token).stop ((lineReader svc token).run serving.at.1
    (segments (lineReader svc token).sep (serving.at.2 ++ bytes)).1) = served.done := by
  rw [run_segments loop free]
  exact talk_done served

include going nonempty

theorem receive_stopped (ended : served.done = true)
    (room : bytes.length ≤ maxLine - 1 - serving.client.buf.length)
    (ready : serving.client.buf.length < maxLine - 1) :
    SamePlace (serviceClient svc token serving bytes)
      ((lineReader svc token).receive serving.at bytes) := by
  have stops := (stop_segments loop free).trans ended
  rw [Reader.receive_eq_stop (stop_before going) stops, run_segments loop free]
  by_cases gone : served.client.fd = none
  · rw [serviceClient_dropped nonempty loop gone]
    exact ⟨rfl, fun open_ => by rw [ended] at open_; contradiction⟩
  · have short := rest_short loop going ended room ready
    rw [serviceClient_keeps nonempty loop gone short]
    refine ⟨rfl, fun open_ => ?_⟩
    have same : served.done = false := open_
    rw [ended] at same
    contradiction

theorem receive_going (running : served.done = false) :
    SamePlace (serviceClient svc token serving bytes)
      ((lineReader svc token).receive serving.at bytes) := by
  have still : (lineReader svc token).stop serving.at.1 = false := stop_before going
  have stops := (stop_segments loop free).trans running
  have parts : bufferLines (serving.client.buf ++ bytes) =
      segments (lineReader svc token).sep (serving.at.2 ++ bytes) := bufferLines_free free
  have connected : served.client.fd ≠ none := by
    intro gone
    simp [Serving.done, gone] at running
  have none_left : left = [] := by
    have all := @runUntil_left _ _ Serving.done (Serving.handle svc token)
      serving.emptied (bufferLines (serving.client.buf ++ bytes)).1
    rw [loop] at all
    exact all running
  subst none_left
  by_cases full : maxLine - 1 ≤ (bufferLines (serving.client.buf ++ bytes)).2.length
  · rw [serviceClient_tooLong nonempty loop connected (by simpa using full),
      Reader.receive_eq_overflow still stops (by rw [← parts]; exact full),
      run_segments loop free]
    refine ⟨?_, fun open_ => by simp [Serving.done, Serving.leave, freeSlot] at open_⟩
    simp [Serving.talk, Serving.leave, lineReader, Talk.overflow, freeSlot, outline,
      ClientEvent.isSent]
  · have fits := Nat.lt_of_not_le full
    rw [serviceClient_keeps nonempty loop connected (by simpa using fits),
      Reader.receive_eq_keep still stops (by rw [← parts]; exact fits),
      run_segments loop free, ← parts]
    exact ⟨rfl, fun _ => rfl⟩

end Piece

theorem serviceClient_receive {serving : Serving World} {bytes : List UInt8}
    (going : serving.done = false) (nonempty : bytes ≠ [])
    (free : 0 ∉ serving.client.buf ++ bytes)
    (room : bytes.length ≤ maxLine - 1 - serving.client.buf.length)
    (ready : serving.client.buf.length < maxLine - 1) :
    SamePlace (serviceClient svc token serving bytes)
      ((lineReader svc token).receive serving.at bytes) := by
  cases loop : runUntil Serving.done (Serving.handle svc token) serving.emptied
      (bufferLines (serving.client.buf ++ bytes)).1 with
  | mk served left =>
      cases ended : served.done with
      | true => exact receive_stopped loop going nonempty free ended room ready
      | false => exact receive_going loop going nonempty free ended

/-! ## The whole stream -/

theorem serve_same {serving : Serving World} {place : Talk × List UInt8} {recv : Recv World}
    (same : SamePlace serving place) (ready : (lineReader svc token).Ready place)
    (free : 0 ∉ place.2 ++ recv.bytes)
    (fit : serving.done = false →
      recv.bytes ≠ [] ∧ recv.bytes.length ≤ maxLine - 1 - serving.client.buf.length) :
    SamePlace (serve svc token serving recv) ((lineReader svc token).receive place recv.bytes) ∧
      ((lineReader svc token).stop place.1 = false →
        recv.bytes ≠ [] ∧ place.2.length + recv.bytes.length ≤ maxLine - 1) := by
  obtain ⟨talk, buf⟩ := place
  obtain ⟨sameTalk, sameBuf⟩ := same
  dsimp only at sameTalk sameBuf free
  subst sameTalk
  have stops : (lineReader svc token).stop serving.talk = serving.done := talk_done serving
  rw [stops]
  cases ended : serving.done with
  | true =>
      rw [serve, if_pos ended, Reader.receive, if_pos (stops.trans ended)]
      exact ⟨⟨rfl, sameBuf⟩, fun going => by contradiction⟩
  | false =>
      obtain rfl := sameBuf ended
      obtain ⟨nonempty, room⟩ := fit ended
      have open_ := (ready (stops.trans ended)).2
      have below : serving.client.buf.length < maxLine - 1 := open_
      have going : ¬ serving.done = true := by simp [ended]
      rw [serve, if_neg going]
      have fitsBehind : serving.client.buf.length + recv.bytes.length ≤ maxLine - 1 := by omega
      refine ⟨?_, fun _ => ⟨nonempty, fitsBehind⟩⟩
      have moved : ({ serving with world := recv.world } : Serving World).done = false := ended
      exact serviceClient_receive moved nonempty free room below

theorem serveAll_same (recvs : List (Recv World)) {serving : Serving World}
    {place : Talk × List UInt8} (same : SamePlace serving place)
    (ready : (lineReader svc token).Ready place)
    (free : 0 ∉ place.2 ++ (recvs.map Recv.bytes).flatten)
    (fits : RecvsFit svc token serving recvs) :
    SamePlace (serveAll svc token serving recvs)
        ((recvs.map Recv.bytes).foldl (lineReader svc token).receive place) ∧
      (lineReader svc token).Fits place (recvs.map Recv.bytes) ∧
      (lineReader svc token).Ready
        ((recvs.map Recv.bytes).foldl (lineReader svc token).receive place) := by
  induction recvs generalizing serving place with
  | nil => exact ⟨same, trivial, ready⟩
  | cons recv rest ih =>
      obtain ⟨fit, fitsRest⟩ := fits
      rw [List.map_cons, List.flatten_cons, ← List.append_assoc] at free
      have freeHere : 0 ∉ place.2 ++ recv.bytes := fun zero => free (List.mem_append_left _ zero)
      obtain ⟨sameNext, fitPlace⟩ := serve_same same ready freeHere fit
      have freeNext : 0 ∉ ((lineReader svc token).receive place recv.bytes).2 ++
          (rest.map Recv.bytes).flatten := by
        intro zero
        apply free
        rcases List.mem_append.mp zero with kept | later
        · exact List.mem_append_left _ (Reader.mem_of_mem_receive kept)
        · exact List.mem_append_right _ later
      obtain ⟨final, fitsPlaces, readyLast⟩ :=
        ih sameNext (Reader.receive_ready place recv.bytes) freeNext fitsRest
      exact ⟨final, ⟨fitPlace, fitsPlaces⟩, readyLast⟩

theorem answered_serveAll (recvs : List (Recv World)) {serving : Serving World}
    (answered : Answered serving.events) : Answered (serveAll svc token serving recvs).events := by
  induction recvs generalizing serving with
  | nil => exact answered
  | cons recv rest ih =>
      refine ih ?_
      unfold serve
      split
      · exact answered
      · have arrived : Answered { serving with world := recv.world }.events := answered
        exact answered_serviceClient arrived recv.bytes

/-- A stream is served as in one piece, each of its lines is answered once, and
there is room for the next piece. -/
structure FramedAs (svc : Services World) (token : Option Text) (start : Serving World)
    (stream : List UInt8) (final : Serving World) : Prop where
  whole : final.talk = conversation svc token start.talk stream
  answered : Answered final.events
  room : final.done = false → final.client.buf.length < maxLine - 1

theorem requests_framed (svc : Services World) (token : Option Text) (world : World) (conn : Nat)
    (recvs : List (Recv World)) (free : 0 ∉ (recvs.map Recv.bytes).flatten)
    (fits : RecvsFit svc token (newClient world conn) recvs) :
    FramedAs svc token (newClient world conn) (recvs.map Recv.bytes).flatten
      (serveAll svc token (newClient world conn) recvs) := by
  have ready : (lineReader svc token).Ready (newClient world conn).at := by
    have empty : 0 < maxLine - 1 := by decide
    exact fun _ => ⟨List.not_mem_nil, empty⟩
  have same : SamePlace (newClient world conn) (newClient world conn).at := ⟨rfl, fun _ => rfl⟩
  obtain ⟨⟨sameTalk, sameBuf⟩, fitsPlaces, readyLast⟩ := serveAll_same recvs same ready free fits
  refine ⟨?_, answered_serveAll recvs trivial, fun going => ?_⟩
  · rw [sameTalk, Reader.receive_eq_stream _ _ ready fitsPlaces, stream_eq_conversation]
    rfl
  · rw [sameBuf going]
    refine (readyLast ?_).2
    rw [← sameTalk, ← going]
    exact talk_done _

end Reading

/-! ## A carriage return apart from its newline -/

def noJson : Services Unit where
  parse := fun _ => none
  print := fun _ => none
  log := fun _ => (freshLog, 1)
  bus := fun _ _ => ((), some (errorText "invalid JSON"))

def threePieces : List (Recv Unit) :=
  [⟨(), text "on" ++ [13]⟩, ⟨(), [10, 10, 111]⟩, ⟨(), text "ff" ++ [10]⟩]

theorem requests_framed_three_pieces :
    FramedAs noJson none (newClient () 0) (threePieces.map Recv.bytes).flatten
        (serveAll noJson none (newClient () 0) threePieces) ∧
      (serveAll noJson none (newClient () 0) threePieces).talk.outline =
        [.handled (text "on") (some .bus), .handled (text "off") (some .bus)] :=
  ⟨requests_framed noJson none () 0 threePieces (by decide +kernel) (by decide +kernel),
    by decide +kernel⟩

end EtherDog
