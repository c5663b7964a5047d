import EtherDog.Lib.Checked
import EtherDog.Lib.Inet
import EtherDog.Log.Entries

/-!
# The options of the service (src/main.c)

`main` up to `edog_control_run`: the loop over the arguments, the token from
standard input or the environment, and what stops the service before it listens.
The text of `usage` is left out.
-/

set_option autoImplicit false

namespace EtherDog

open Checked CString Inet

def maxAllowUids : Nat := 8

structure Options where
  control : Text
  tokenStdin : Bool
  allowUids : List UInt32
  stateDir : Text
  config : Option Text
  logSocket : Option Text
  autostart : Bool
  logLevel : LogLevel
  deriving DecidableEq, Repr

def defaultOptions : Options where
  control := text "unix:/run/etherdog/etherdog.socket"
  tokenStdin := false
  allowUids := []
  stateDir := text "/run/etherdog"
  config := none
  logSocket := none
  autostart := false
  logLevel := .info

/-- How `main` returns before the service listens. -/
inductive Ending where
  | help
  | version
  | invalidAllowUid (arg : Text)
  | unknownLogLevel (arg : Text)
  | unknownOption (arg : Text)
  | invalidLogSocket (spec : Text)
  | noToken
  | noStateDir (dir err : Text)
  | configureFailed (err : Text)
  deriving DecidableEq, Repr

def Ending.code : Ending → Nat
  | .help | .version => 0
  | .noStateDir _ _ | .configureFailed _ => 1
  | _ => 2

def Ending.message : Ending → Text
  | .help | .version => []
  | .invalidAllowUid arg =>
      text "invalid --allow-uid '" ++ arg ++ text "' (at most " ++ decimal maxAllowUids ++
        text ")\n"
  | .unknownLogLevel arg => text "unknown log level '" ++ arg ++ text "'\n"
  | .unknownOption arg => text "unknown or incomplete option '" ++ arg ++ text "'\n\n"
  | .invalidLogSocket spec => text "invalid --log-socket '" ++ spec ++ text "'\n"
  | .noToken => text "--token-stdin: no token on stdin"
  | .noStateDir dir err => text "cannot create state directory " ++ dir ++ text ": " ++ err
  | .configureFailed err => err

/-- The number of an `--allow-uid`; the conversion to `uid_t` keeps 32 bits. -/
def allowUid (arg : Text) : Option UInt32 :=
  let (uid, stop) := strtoll 10 arg
  if stop = arg ∨ stop ≠ [] ∨ uid < 0 then none else some (.ofNat uid.toNat)

/-- The loop over `argv`. -/
def parseOptions : Options → List Text → Except Ending Options
  | options, [] => .ok options
  | options, a :: rest =>
      if a = text "--help" ∨ a = text "-h" then .error .help
      else if a = text "--version" then .error .version
      else if a = text "--start" then parseOptions { options with autostart := true } rest
      else if a = text "--token-stdin" then parseOptions { options with tokenStdin := true } rest
      else
        match rest with
        | [] => .error (.unknownOption a)
        | next :: rest =>
            if a = text "--control" then parseOptions { options with control := next } rest
            else if a = text "--allow-uid" then
              match allowUid next with
              | none => .error (.invalidAllowUid next)
              | some uid =>
                  if options.allowUids.length ≥ maxAllowUids then .error (.invalidAllowUid next)
                  else parseOptions { options with allowUids := options.allowUids ++ [uid] } rest
            else if a = text "--state-dir" then parseOptions { options with stateDir := next } rest
            else if a = text "--log-socket" then
              parseOptions { options with logSocket := some next } rest
            else if a = text "--config" then parseOptions { options with config := some next } rest
            else if a = text "--log-level" then
              match edogLogParseLevel next with
              | none => .error (.unknownLogLevel next)
              | some level => parseOptions { options with logLevel := level } rest
            else .error (.unknownOption a)

/-! ## The token -/

def tokenSize : Nat := 256

def isLineEnd (c : UInt8) : Bool := c == 10 || c == 13 || c == 32

def readTokenLine (stdin : List UInt8) : Option Text :=
  match KeyFile.fgetsLines tokenSize [] stdin with
  | [] => none
  | line :: _ =>
      let token := (cstr line).rdropWhile isLineEnd
      if token = [] then none else some token

/-- What `main` finds outside, and what the functions it calls return. -/
structure MainAnswers where
  stdin : List UInt8
  envToken : Option Text
  /-- `edog_log_start_sink` succeeds -/
  startSink : Text → Bool
  /-- `mkdir` succeeds or the directory exists -/
  makeStateDir : Text → Except Text Unit
  /-- `ecat_bus_configure` -/
  configure : Text → Except Text Unit

structure ControlRun where
  control : Text
  token : Text
  allowUids : List UInt32
  deriving DecidableEq, Repr

def chooseToken (answers : MainAnswers) (options : Options) : Except Ending Text :=
  if options.tokenStdin then
    match readTokenLine answers.stdin with
    | none => .error .noToken
    | some token => .ok token
  else
    match answers.envToken with
    | none => .ok []
    | some token => .ok (snprintf tokenSize token)

def startLogSocket (answers : MainAnswers) (options : Options) : Except Ending Unit :=
  match options.logSocket with
  | none => .ok ()
  | some spec => if answers.startSink spec then .ok () else .error (.invalidLogSocket spec)

def makeStateDir (answers : MainAnswers) (options : Options) : Except Ending Unit :=
  (answers.makeStateDir options.stateDir).mapError (.noStateDir options.stateDir)

def configureAtStart (answers : MainAnswers) (options : Options) : Except Ending Unit :=
  match options.config with
  | none => .ok ()
  | some config => (answers.configure config).mapError .configureFailed

def etherdogMain (answers : MainAnswers) (args : List Text) : Except Ending ControlRun := do
  let options ← parseOptions defaultOptions args
  startLogSocket answers options
  let token ← chooseToken answers options
  makeStateDir answers options
  configureAtStart answers options
  pure ⟨options.control, token, options.allowUids⟩

/-! ## The users it allows -/

/-- An argument behind an `--allow-uid` names the user, by a number whose value
modulo `2 ^ 32` is the uid: the cast to `uid_t` checks no range. -/
def NamedUid (args : List Text) (uid : UInt32) : Prop :=
  ∃ before arg after, args = before ++ text "--allow-uid" :: arg :: after ∧
    ∃ n, WholeNumber arg n ∧ 0 ≤ n ∧ uid = .ofNat (min n (2 ^ 63 - 1)).toNat

theorem allowUid_eq_some_iff (arg : Text) (uid : UInt32) :
    allowUid arg = some uid ↔
      ∃ n, WholeNumber arg n ∧ 0 ≤ n ∧ uid = .ofNat (min n (2 ^ 63 - 1)).toNat := by
  have whole := strtoll_whole_iff arg
  unfold allowUid
  constructor
  · intro found
    dsimp only at found
    split at found
    · contradiction
    · rename_i valid
      simp only [not_or, not_not, not_lt, ne_eq] at valid
      obtain ⟨moved, finished, natural⟩ := valid
      have some : arg ≠ [] := by
        rintro rfl
        exact moved finished
      have taken : strtoll 10 arg = ((strtoll 10 arg).1, []) := Prod.ext rfl finished
      obtain ⟨n, spelled, clamped⟩ := (whole _).mp ⟨taken, some⟩
      refine ⟨n, spelled, by omega, ?_⟩
      rw [← Option.some.inj found, clamped]
      congr 2
      omega
  · rintro ⟨n, spelled, natural, rfl⟩
    obtain ⟨taken, some⟩ := (whole _).mpr ⟨n, spelled, rfl⟩
    rw [taken]
    dsimp only
    rw [if_neg]
    · congr 3
      omega
    · simp only [not_or, not_not, not_lt, ne_eq]
      exact ⟨Ne.symm some, trivial, by omega⟩

theorem NamedUid.later {args : List Text} {uid : UInt32} (named : NamedUid args uid) (a : Text) :
    NamedUid (a :: args) uid := by
  obtain ⟨before, arg, after, rfl, value⟩ := named
  exact ⟨a :: before, arg, after, rfl, value⟩

/-- Every user in the list was named, and there is room for eight. -/
theorem parseOptions_uids {options parsed : Options} {args : List Text}
    (accepted : parseOptions options args = .ok parsed)
    (room : options.allowUids.length ≤ maxAllowUids) :
    parsed.allowUids.length ≤ maxAllowUids ∧
      ∀ uid ∈ parsed.allowUids, uid ∈ options.allowUids ∨ NamedUid args uid := by
  fun_induction parseOptions options args with
  | case1 options =>
      cases accepted
      exact ⟨room, fun uid member => Or.inl member⟩
  | case4 options rest _ _ ih | case5 options rest _ _ _ ih =>
      obtain ⟨short, named⟩ := ih accepted room
      exact ⟨short, fun uid member => (named uid member).imp_right fun later => later.later _⟩
  | case7 options next rest _ _ _ _ ih
  | case11 options next rest _ _ _ _ _ _ ih
  | case12 options next rest _ _ _ _ _ _ _ ih
  | case13 options next rest _ _ _ _ _ _ _ _ ih
  | case15 options next rest _ _ _ _ _ _ _ _ _ _ _ ih =>
      obtain ⟨short, named⟩ := ih accepted room
      exact ⟨short,
        fun uid member => (named uid member).imp_right fun later => (later.later _).later _⟩
  | case10 options next rest uid found free _ _ _ _ _ ih =>
      have more : (options.allowUids ++ [uid]).length ≤ maxAllowUids := by
        rw [List.length_append, List.length_singleton]
        omega
      obtain ⟨short, named⟩ := ih accepted more
      refine ⟨short, fun user member => ?_⟩
      rcases named user member with among | later
      · rcases List.mem_append.mp among with early | new
        · exact Or.inl early
        · rw [List.mem_singleton.mp new]
          exact Or.inr ⟨[], next, rest, rfl, (allowUid_eq_some_iff next uid).mp found⟩
      · exact Or.inr ((later.later _).later _)
  | _ => cases accepted

theorem etherdogMain_uids {answers : MainAnswers} {args : List Text} {run : ControlRun}
    (runs : etherdogMain answers args = .ok run) :
    run.allowUids.length ≤ maxAllowUids ∧ ∀ uid ∈ run.allowUids, NamedUid args uid := by
  obtain ⟨options, parsed, runs⟩ := bind_eq_ok.mp runs
  obtain ⟨_, _, runs⟩ := bind_eq_ok.mp runs
  obtain ⟨token, _, runs⟩ := bind_eq_ok.mp runs
  obtain ⟨_, _, runs⟩ := bind_eq_ok.mp runs
  obtain ⟨_, _, runs⟩ := bind_eq_ok.mp runs
  cases runs
  obtain ⟨short, named⟩ := parseOptions_uids parsed (Nat.zero_le _)
  exact ⟨short, fun uid member => (named uid member).resolve_left List.not_mem_nil⟩

end EtherDog
