import EtherDog.Lib.Printf
import EtherDog.Bus.Nodes
import EtherDog.Data.Frame

/-!
# One request line (src/control.c)

A hello is a request whose command is `hello`; with a token configured it counts
only with that token, and everything else needs one before it.  `judge` is the
chain of tests of `handle_line`, which do not look at the world; `handleLine`
carries out what they find.  `Services` is what a line is carried out with: the
JSON library, the log ring and `ecat_bus_command`.
-/

set_option autoImplicit false

namespace EtherDog

open CString

/-- The terminators of both strings are read as zeros. -/
def constantTimeEquals (a b : Text) : Bool :=
  let diff : UInt8 := if a.length ≠ b.length then 1 else 0
  let wrap := if b.length ≠ 0 then b.length else 1
  (List.range a.length).foldl
    (fun diff i => diff ||| (a.getD i 0 ^^^ b.getD (i % wrap) 0)) diff == 0

structure Services (World : Type) where
  /-- `cJSON_Parse` -/
  parse : Text → Option Json
  /-- `cJSON_PrintUnformatted`; `none` is NULL -/
  print : Json → Option Text
  /-- the log as a query finds it, and the next id as it is read after the query -/
  log : World → LogState × Nat
  /-- `ecat_bus_command`; `none` is NULL -/
  bus : World → Text → World × Option Text

inductive Command where
  | logs
  | shutdown
  | bus
  deriving DecidableEq, Repr

/-- Where the tests of `handle_line` end. -/
inductive Verdict where
  | wrongToken
  | hello
  | stranger
  | execute (command : Command)
  deriving DecidableEq, Repr

structure LineOutcome (World : Type) where
  world : World
  replies : List Text
  authenticated : Bool
  dropped : Bool
  exit : Bool

/-! ## Replies -/

def outOfMemory : Text := errorText "out of memory"

def authenticationFailed : Text := errorText "authentication failed"

def authenticateFirst : Text := errorText "authenticate with 'hello' first"

def lineTooLong : Text := errorText "request line too long"

def edogVersion : Text := text "0.1.0"

def helloResponse : Text :=
  snprintf 384 (text "\x7b\"status\":\"success\",\"name\":\"EtherDOG\",\"version\":\"" ++
    edogVersion ++ text "\",\"protocol\":" ++ decimal edogProtocolVersion.toNat ++
    text (",\"features\":[\"ethercat.dynamic_alloc\",\"ethercat.sdo_byte_string\"," ++
      "\"ethercat.sdo_complete_access\",\"ethercat.scan_modules\"," ++
      "\"ethercat.diagnostics_slave\"]\x7d"))

def LogEntry.toJson (entry : LogEntry) : Json :=
  .object
    [natMember "id" entry.id,
      intMember "timestamp" entry.timestamp,
      textMember "level" (edogLogLevelName entry.level),
      textMember "source" entry.tag,
      textMember "message" entry.message]

/-- The level a logs request asks for; `none` where it names an unknown one. -/
def requestedLevel (level : Option Json) : Option LogLevel :=
  match level with
  | some (.string buffer) => edogLogParseLevel (cstr buffer)
  | _ => some .debug

def requestedMax (max : Option Json) : Option Int :=
  match max with
  | some (.number valueint _) => some valueint
  | _ => none

def requestedMinId (minId : Option Json) : Option Double :=
  match minId with
  | some (.number _ valuedouble) => some valuedouble
  | _ => none

def logsPage (page : List LogEntry) (nextId : Nat) : Json :=
  .object
    [textMember "status" (text "success"),
      natMember "next_id" nextId,
      arrayMember "entries" (page.map LogEntry.toJson)]

section Handle
variable {World : Type} (svc : Services World) (token : Option Text)

def logsResponse (world : World) (root : Json) : Text :=
  let field := fun key => (root.item? "params").bind fun params => params.item? key
  match requestedLevel (field "level") with
  | none => errorText "unknown level"
  | some minLevel =>
      let (log, nextId) := svc.log world
      let page := edogLogQuery log (fromOf (requestedMinId (field "min_id"))) minLevel
        (limitOf (requestedMax (field "max")))
      let next := match page.getLast? with
        | some entry => uint64 (entry.id + 1)
        | none => nextId
      (svc.print (logsPage page next)).getD outOfMemory

def needAuth : Bool := token.any fun token => decide (token ≠ [])

def commandOf (line : Text) : Option Text :=
  (svc.parse line).bind fun root => getString? root "command"

/-- The token of a hello, up to a NUL: with `dog` as the secret `dog\u0000x` is
accepted too. -/
def tokenOf (line : Text) : Option Text :=
  ((svc.parse line).bind fun root => root.item? "params").bind fun params =>
    getString? params "token"

def judge (authenticated : Bool) (line : Text) : Verdict :=
  if commandOf svc line = some (text "hello") then
    if needAuth token = true ∧
        ¬ (tokenOf svc line).any (fun tok => constantTimeEquals tok (token.getD [])) = true then
      .wrongToken
    else .hello
  else if needAuth token = true ∧ authenticated = false then .stranger
  else if commandOf svc line = some (text "logs") then .execute .logs
  else if commandOf svc line = some (text "shutdown") then .execute .shutdown
  else .execute .bus

def Verdict.drops : Verdict → Bool
  | .wrongToken => true
  | .stranger => true
  | _ => false

/-- The `authenticated` of the client after the line; `drop_client` clears it. -/
def Verdict.authenticates (verdict : Verdict) (authenticated : Bool) : Bool :=
  match verdict with
  | .wrongToken => false
  | .stranger => false
  | .hello => true
  | .execute _ => authenticated

def Verdict.executed : Verdict → Option Command
  | .execute command => some command
  | _ => none

def Verdict.exits : Verdict → Bool
  | .execute .shutdown => true
  | _ => false

def answer (world : World) (line : Text) : Verdict → World × List Text
  | .wrongToken => (world, [authenticationFailed])
  | .hello => (world, [helloResponse])
  | .stranger => (world, [authenticateFirst])
  | .execute .logs => (world, [logsResponse svc world ((svc.parse line).getD .null)])
  | .execute .shutdown => (world, [statusSuccess])
  | .execute .bus =>
      let (world, reply) := svc.bus world line
      (world, [reply.getD outOfMemory])

def handleLine (world : World) (authenticated : Bool) (line : Text) : LineOutcome World :=
  let verdict := judge svc token authenticated line
  let (world, replies) := answer svc world line verdict
  { world := world
    replies := replies
    authenticated := verdict.authenticates authenticated
    dropped := verdict.drops
    exit := verdict.exits }

theorem answer_replies (world : World) (line : Text) (verdict : Verdict) :
    ∃ reply, (answer svc world line verdict).2 = [reply] := by
  cases verdict with
  | wrongToken => exact ⟨_, rfl⟩
  | hello => exact ⟨_, rfl⟩
  | stranger => exact ⟨_, rfl⟩
  | execute command =>
      cases command with
      | logs => exact ⟨_, rfl⟩
      | shutdown => exact ⟨_, rfl⟩
      | bus => exact ⟨_, rfl⟩

end Handle

/-! ## The comparison of the token -/

theorem or_eq_zero_iff (a b : UInt8) : a ||| b = 0 ↔ a = 0 ∧ b = 0 := by
  rw [← UInt8.toNat_inj, ← UInt8.toNat_inj, ← UInt8.toNat_inj]
  simp [Nat.or_eq_zero_iff]

/-- A byte that differs is not forgotten. -/
theorem foldl_or_eq_zero_iff (f : Nat → UInt8) (indices : List Nat) (diff : UInt8) :
    indices.foldl (fun diff i => diff ||| f i) diff = 0 ↔ diff = 0 ∧ ∀ i ∈ indices, f i = 0 := by
  induction indices generalizing diff with
  | nil => simp
  | cons i rest ih =>
      rw [List.foldl_cons, ih, or_eq_zero_iff, List.forall_mem_cons, and_assoc]

theorem constantTimeEquals_iff (a b : Text) : constantTimeEquals a b = true ↔ a = b := by
  unfold constantTimeEquals
  dsimp only
  rw [beq_iff_eq, foldl_or_eq_zero_iff]
  constructor
  · rintro ⟨sameLength, sameBytes⟩
    have length : a.length = b.length := by
      by_contra differ
      simp [differ] at sameLength
    refine List.ext_getElem length fun i first second => ?_
    have nonempty : b.length ≠ 0 := by omega
    have same := sameBytes i (List.mem_range.mpr first)
    rw [if_pos nonempty, Nat.mod_eq_of_lt second, List.getD_eq_getElem a 0 first,
      List.getD_eq_getElem b 0 second] at same
    exact UInt8.xor_eq_zero_iff.mp same
  · rintro rfl
    refine ⟨by simp, fun i member => ?_⟩
    have inside := List.mem_range.mp member
    have nonempty : a.length ≠ 0 := by omega
    rw [if_pos nonempty, Nat.mod_eq_of_lt inside]
    exact UInt8.xor_self

/-! ## The verdicts where a token is required -/

section Verdicts
variable {World : Type} (svc : Services World) (secret : Text)

def HelloWith (line : Text) : Prop :=
  commandOf svc line = some (text "hello") ∧ tokenOf svc line = some secret

def WrongHello (line : Text) : Prop :=
  commandOf svc line = some (text "hello") ∧ tokenOf svc line ≠ some secret

instance (line : Text) : Decidable (HelloWith svc secret line) :=
  inferInstanceAs (Decidable (_ ∧ _))

instance (line : Text) : Decidable (WrongHello svc secret line) :=
  inferInstanceAs (Decidable (_ ∧ _))

/-- What a verdict says of its line. -/
def Justified (authenticated : Bool) (line : Text) : Verdict → Prop
  | .wrongToken => WrongHello svc secret line
  | .hello => HelloWith svc secret line
  | .stranger => authenticated = false ∧ commandOf svc line ≠ some (text "hello")
  | .execute _ => authenticated = true ∧ commandOf svc line ≠ some (text "hello")

variable {secret}

theorem any_constantTimeEquals_iff (tok : Option Text) :
    tok.any (fun tok => constantTimeEquals tok secret) = true ↔ tok = some secret := by
  cases tok with
  | none => simp
  | some tok => simp [constantTimeEquals_iff]

theorem judge_justified (nonempty : secret ≠ []) (authenticated : Bool) (line : Text) :
    Justified svc secret authenticated line (judge svc (some secret) authenticated line) := by
  have required : needAuth (some secret) = true := by simp [needAuth, nonempty]
  unfold judge
  rw [required, Option.getD_some]
  simp only [any_constantTimeEquals_iff, true_and]
  split
  · rename_i hello
    split
    · rename_i wrong
      exact ⟨hello, wrong⟩
    · rename_i right
      exact ⟨hello, not_not.mp right⟩
  · rename_i other
    split
    · rename_i stranger
      exact ⟨stranger, other⟩
    · rename_i known
      rw [Bool.not_eq_false] at known
      split
      · exact ⟨known, other⟩
      · split
        · exact ⟨known, other⟩
        · exact ⟨known, other⟩

end Verdicts

end EtherDog
