import EtherDog.Lib.Framing
import EtherDog.Control.Line

/-!
# Serving a client (src/control.c)

A slot of the client table holds the connection in it, whether that has
authenticated, and the first `used` bytes of its buffer.  `service_client` takes
one result of `recv`, hands the lines found by `strchr` to `handle_line` and
keeps what is left.  `ClientEvent`s list what it does to the client, first event
first.
-/

set_option autoImplicit false

namespace EtherDog

open CString Framing

def maxLine : Nat := 64 * 1024

/-- The connection is a number of its own; `none` is the file descriptor -1. -/
structure Client where
  fd : Option Nat
  authenticated : Bool
  buf : List UInt8
  deriving DecidableEq, Repr

def freeSlot : Client := ⟨none, false, []⟩

inductive ClientEvent where
  | handled (line : Text) (executed : Option Command)
  | sent (reply : Text)
  | tooLong
  | dropped
  deriving DecidableEq, Repr

/-- A call of `service_client` at work. -/
structure Serving (World : Type) where
  world : World
  client : Client
  exit : Bool
  events : List ClientEvent

/-- Without one carriage return at its end. -/
def chomp (line : Text) : Text := if line.getLast? = some 13 then line.dropLast else line

/-- The lines before the first NUL, and what stands behind them. -/
def bufferLines (buffer : List UInt8) : List Text × List UInt8 :=
  let cut := segments 10 (cstr buffer)
  (cut.1, cut.2 ++ buffer.drop (cstr buffer).length)

def droppedEvents (dropped : Bool) : List ClientEvent := if dropped then [.dropped] else []

section Serve
variable {World : Type} (svc : Services World) (token : Option Text)

/-- The loop of `service_client` ends. -/
def Serving.done (serving : Serving World) : Bool :=
  serving.exit || serving.client.fd.isNone

/-- The body of the loop, for the line as it stands in the buffer. -/
def Serving.handle (serving : Serving World) (raw : Text) : Serving World :=
  let line := chomp raw
  if line = [] then serving
  else
    let outcome := handleLine svc token serving.world serving.client.authenticated line
    let executed := (judge svc token serving.client.authenticated line).executed
    { world := outcome.world
      client :=
        if outcome.dropped then freeSlot
        else { serving.client with authenticated := outcome.authenticated }
      exit := outcome.exit
      events := serving.events ++ .handled line executed :: outcome.replies.map .sent ++
        droppedEvents outcome.dropped }

def Serving.leave (serving : Serving World) (events : List ClientEvent) : Serving World :=
  { serving with client := freeSlot, events := serving.events ++ events }

/-- The bytes of the buffer are with the loop. -/
def Serving.emptied (serving : Serving World) : Serving World :=
  { serving with client := { serving.client with buf := [] } }

/-- With nothing received the peer is gone.  What the loop leaves of the bytes
goes back into the buffer. -/
def serviceClient (serving : Serving World) (received : List UInt8) : Serving World :=
  if received = [] then serving.leave [.dropped]
  else
    let cut := bufferLines (serving.client.buf ++ received)
    let (served, left) := runUntil Serving.done (Serving.handle svc token) serving.emptied cut.1
    if served.client.fd = none then served
    else
      let rest := left.flatMap (· ++ [10]) ++ cut.2
      if maxLine - 1 ≤ rest.length then served.leave [.tooLong, .sent lineTooLong, .dropped]
      else { served with client := { served.client with buf := rest } }

end Serve

/-! ## What one line does -/

section Line
variable {World : Type} {svc : Services World} {token : Option Text} (serving : Serving World)
  {raw : Text}

theorem handle_empty (empty : chomp raw = []) : serving.handle svc token raw = serving := by
  rw [Serving.handle]
  dsimp only
  rw [if_pos empty]

/-- A request leaves its line, one reply and the end of the connection if that
is its verdict. -/
theorem handle_request {verdict : Verdict} (busy : chomp raw ≠ [])
    (found : judge svc token serving.client.authenticated (chomp raw) = verdict) :
    ∃ reply, (answer svc serving.world (chomp raw) verdict).2 = [reply] ∧
      (serving.handle svc token raw).events =
        serving.events ++ .handled (chomp raw) verdict.executed :: .sent reply ::
          droppedEvents verdict.drops ∧
      (serving.handle svc token raw).client =
        (if verdict.drops then freeSlot
        else { serving.client with
          authenticated := verdict.authenticates serving.client.authenticated }) ∧
      (serving.handle svc token raw).exit = verdict.exits := by
  subst found
  obtain ⟨reply, one⟩ := answer_replies svc serving.world (chomp raw)
    (judge svc token serving.client.authenticated (chomp raw))
  refine ⟨reply, one, ?_⟩
  rw [Serving.handle]
  dsimp only
  rw [if_neg busy, handleLine]
  dsimp only
  rw [one, List.map_singleton, List.append_assoc, List.cons_append, List.singleton_append]
  exact ⟨rfl, rfl, rfl⟩

end Line

/-! ## Where the loop ends -/

section Ends
variable {World : Type} {svc : Services World} {token : Option Text}
  {serving served : Serving World} {received : List UInt8} {left : List Text} (nonempty : received ≠ [])
  (loop : runUntil Serving.done (Serving.handle svc token) serving.emptied
    (bufferLines (serving.client.buf ++ received)).1 = (served, left))
include nonempty loop

theorem serviceClient_dropped (gone : served.client.fd = none) :
    serviceClient svc token serving received = served := by
  simp [serviceClient, nonempty, loop, gone]

variable (connected : served.client.fd ≠ none)
include connected

theorem serviceClient_tooLong
    (full : maxLine - 1 ≤ (left.flatMap (· ++ [10]) ++
      (bufferLines (serving.client.buf ++ received)).2).length) :
    serviceClient svc token serving received =
      served.leave [.tooLong, .sent lineTooLong, .dropped] := by
  rw [serviceClient, if_neg nonempty]
  dsimp only
  rw [loop, if_neg connected, if_pos full]

theorem serviceClient_keeps
    (room : (left.flatMap (· ++ [10]) ++
      (bufferLines (serving.client.buf ++ received)).2).length < maxLine - 1) :
    serviceClient svc token serving received =
      { served with client :=
          { served.client with buf := left.flatMap (· ++ [10]) ++
              (bufferLines (serving.client.buf ++ received)).2 } } := by
  rw [serviceClient, if_neg nonempty]
  dsimp only
  rw [loop, if_neg connected, if_neg (Nat.not_le_of_lt room)]

end Ends

/-! ## Lines of a buffer -/

theorem bufferLines_free {buffer : List UInt8} (free : 0 ∉ buffer) :
    bufferLines buffer = segments 10 buffer := by
  simp [bufferLines, cstr_free free]

theorem bufferLines_join (buffer : List UInt8) :
    (bufferLines buffer).1.flatMap (· ++ [10]) ++ (bufferLines buffer).2 = buffer := by
  have back : cstr buffer ++ buffer.drop (cstr buffer).length = buffer := by
    have front : cstr buffer <+: buffer := List.takeWhile_prefix _
    exact List.prefix_iff_eq_append.mp front
  unfold bufferLines
  dsimp only
  rw [← List.append_assoc, segments_join, back]

end EtherDog
