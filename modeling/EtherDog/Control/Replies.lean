import EtherDog.Lib.JsonText
import EtherDog.Bus.Commands
import EtherDog.Control.Line

/-!
# Replies are JSON (src/control.c, src/bus.c)

Every reply is one line with one JSON object, where cJSON prints its trees so.
The exception is the text for an interface that cannot be opened: it shows the
name as it is, and a backslash of a Windows device path is mostly no escape of
JSON.
-/

set_option autoImplicit false

namespace EtherDog

open CString JsonText

/-- A line that is one JSON object. -/
def WellFormedReply (reply : Text) : Prop := 10 ∉ reply ∧ IsObject reply

instance (reply : Text) : Decidable (WellFormedReply reply) :=
  inferInstanceAs (Decidable (_ ∧ _))

/-- The printer makes one line of every object it prints. -/
def PrintsObjects (print : Json → Option Text) : Prop :=
  ∀ members reply, print (.object members) = some reply → WellFormedReply reply

/-- The server with its bus: what the handlers read and are answered, and what
the world is after a command, may be anything. -/
structure ServerParts (World : Type) where
  parse : Text → Option Json
  print : Json → Option Text
  log : World → LogState × Nat
  view : World → BusView
  answers : World → Text → BusAnswers
  after : World → Text → World

def ServerParts.services {World : Type} (parts : ServerParts World) : Services World where
  parse := parts.parse
  print := parts.print
  log := parts.log
  bus := fun world line =>
    (parts.after world line,
      ecatBusCommand parts.print (parts.view world) (parts.answers world line) (parts.parse line))

/-! ## The exception -/

/-- The interface a scan opens, if its parameter is there and valid and no
master is active. -/
def scanned (view : BusView) (root : Json) : Option Text :=
  ((paramOf root "interface").bind Json.valuestring?).filter fun iface =>
    decide (validateInterfaceName iface = none) && !anyMasterActive view.globals

/-- A test needs a position as well. -/
def hasPosition (root : Json) : Bool :=
  match paramOf root "position" with
  | some (.number position _) => decide (1 ≤ position)
  | _ => false

def interfaceOpened (view : BusView) (root : Json) : Option Text :=
  match (getString? root "command").bind commandNamed with
  | some .scan => scanned view root
  | some .test => if hasPosition root then scanned view root else none
  | _ => none

/-- The interface cannot be opened, there is memory for the reply, and not every
backslash of the name begins an escape of JSON. -/
def showsBadName (answers : BusAnswers) (iface : Text) : Bool :=
  !(answers.scan iface).init && answers.allocates (failedToOpen iface) &&
    !wellEscaped .plain iface

/-- The line is carried out as a scan or test of such an interface. -/
def ShowsBadName {World : Type} (parts : ServerParts World) (token : Option Text) (world : World)
    (authenticated : Bool) (line : Text) : Prop :=
  judge parts.services token authenticated line = .execute .bus ∧
    ∃ root iface, parts.parse line = some root ∧
      interfaceOpened (parts.view world) root = some iface ∧
      showsBadName (parts.answers world line) iface = true

/-! ## Texts of printf -/

/-- The replies that are the same for every request. -/
def fixedReplies : List Text :=
  [outOfMemory, authenticationFailed, authenticateFirst, helloResponse, slaveOutOfRange,
    statusSuccess,
    errorText "unknown level",
    errorText "no reply",
    errorText "invalid JSON",
    errorText "missing 'command' field",
    errorText "missing 'interface' param",
    errorText "missing 'position' param",
    errorText "missing 'endpoint' param",
    errorText "'position' must be a positive integer",
    errorText "'path' must be a string",
    errorText "invalid interface name length",
    errorText "invalid interface name format",
    errorText "EtherCAT master is running. Stop the bus before scanning.",
    errorText "EtherCAT master is running. Stop the bus before testing.",
    text ("\x7b\"status\":\"success\",\"devices\":[]," ++
      "\"message\":\"No slaves found\",\"slave_count\":0\x7d"),
    text ("\x7b\"status\":\"success\",\"connected\":false,\"device\":null," ++
      "\"message\":\"No EtherCAT slaves found on the network\"\x7d"),
    statusErrorText "'master' and 'slave' must be numbers",
    statusErrorText "'interface' must be a string"]

/-- The parts of a reply around a text inside a string. -/
def IsTemplate (head tail : Text) : Prop :=
  head.head? = some 123 ∧
    run ⟨.value, []⟩ head = some ⟨.string false .plain, [.object]⟩ ∧
    run ⟨.string false .plain, [.object]⟩ tail = some ⟨.after, []⟩ ∧ 10 ∉ head ++ tail

instance (head tail : Text) : Decidable (IsTemplate head tail) :=
  inferInstanceAs (Decidable (_ ∧ _))

theorem templates :
    IsTemplate (text "\x7b\"error\":\"Failed to open interface '") (text "'\"\x7d") ∧
      IsTemplate (text
        "\x7b\"status\":\"error\",\"connected\":false,\"device\":null,\"message\":\"")
        (text "\"\x7d") ∧
      IsTemplate (text "\x7b\"status\":\"error\",\"message\":\"master index out of range (0..")
        (text ")\"\x7d") ∧
      text "'\"\x7d" = 39 :: text "\"\x7d" := by
  decide +kernel

theorem IsTemplate.wellFormed {head tail body : Text} (template : IsTemplate head tail)
    (plain : ∀ c ∈ body, isPlain c = true) : WellFormedReply (head ++ body ++ tail) := by
  obtain ⟨brace, opens, closes, lines⟩ := template
  refine ⟨?_, ?_, ?_⟩
  · intro newline
    simp only [List.mem_append, not_or] at newline lines
    rcases newline with (early | among) | late
    · exact lines.1 early
    · exact absurd (plain 10 among) (by decide)
    · exact lines.2 late
  · rw [List.append_assoc, List.head?_append, brace]
    rfl
  · rw [List.append_assoc, run_append, opens, Option.bind_some, run_append, run_plain plain,
      Option.bind_some, closes]

theorem errorText_wellFormed {message : String} (plain : (text message).all isPlain = true) :
    WellFormedReply (errorText message) := by
  have template : IsTemplate (text "\x7b\"error\":\"") (text "\"\x7d") := by decide
  exact template.wellFormed (List.all_eq_true.mp plain)

theorem statusErrorText_wellFormed {message : String}
    (plain : (text message).all isPlain = true) : WellFormedReply (statusErrorText message) := by
  have template : IsTemplate (text "\x7b\"status\":\"error\",\"message\":\"") (text "\"\x7d") := by
    decide
  exact template.wellFormed (List.all_eq_true.mp plain)

theorem helloResponse_wellFormed : WellFormedReply helloResponse := by
  rw [helloResponse, text_append, text_append]
  decide +kernel

theorem fixed_wellFormed : ∀ reply ∈ fixedReplies, WellFormedReply reply := by
  simp only [fixedReplies, List.forall_mem_cons, text_append]
  exact ⟨errorText_wellFormed (by decide +kernel), errorText_wellFormed (by decide +kernel),
    errorText_wellFormed (by decide +kernel), helloResponse_wellFormed,
    statusErrorText_wellFormed (by decide +kernel), by decide +kernel,
    errorText_wellFormed (by decide +kernel), errorText_wellFormed (by decide +kernel),
    errorText_wellFormed (by decide +kernel), errorText_wellFormed (by decide +kernel),
    errorText_wellFormed (by decide +kernel), errorText_wellFormed (by decide +kernel),
    errorText_wellFormed (by decide +kernel), errorText_wellFormed (by decide +kernel),
    errorText_wellFormed (by decide +kernel), errorText_wellFormed (by decide +kernel),
    errorText_wellFormed (by decide +kernel), errorText_wellFormed (by decide +kernel),
    errorText_wellFormed (by decide +kernel), by decide +kernel, by decide +kernel,
    statusErrorText_wellFormed (by decide +kernel), statusErrorText_wellFormed (by decide +kernel),
    nofun⟩

theorem noDeviceAt_plain (position : Int) (count : Nat) :
    ∀ c ∈ noDeviceAt position count, isPlain c = true := by
  intro c among
  have fixed : ∀ s ∈ [text "No device at position ", text ". Found ", text " slave(s)."],
      s.all isPlain = true := by decide
  have whole := List.mem_of_mem_take among
  simp only [List.mem_append] at whole
  rcases whole with (((a | b) | c') | d) | e
  · exact List.all_eq_true.mp (fixed _ (by simp)) c a
  · exact isPlain_decimal c b
  · exact List.all_eq_true.mp (fixed _ (by simp)) c c'
  · exact isPlain_decimal c d
  · exact List.all_eq_true.mp (fixed _ (by simp)) c e

theorem ifaceByte_printable : ∀ n < 256, isIfaceByte (UInt8.ofNat n) = true →
    breaksString (UInt8.ofNat n) = false := by
  decide +kernel

/-- A valid name holds neither a quote nor a control character. -/
theorem valid_printable {iface : Text} (valid : validateInterfaceName iface = none) :
    ∀ c ∈ iface, breaksString c = false := by
  unfold validateInterfaceName at valid
  split at valid
  · contradiction
  · split at valid
    · contradiction
    · rename_i accepted
      rw [Bool.not_eq_false, ecatIfaceValidate, Bool.and_eq_true] at accepted
      intro c among
      have allowed := List.all_eq_true.mp accepted.2 c among
      have back := ifaceByte_printable c.toNat c.toNat_lt
      rw [UInt8.ofNat_toNat] at back
      exact back allowed

theorem failedToOpen_oneLine {iface : Text} (valid : validateInterfaceName iface = none) :
    10 ∉ failedToOpen iface := by
  have lines := templates.1.2.2.2
  rw [List.mem_append, not_or] at lines
  intro newline
  rw [failedToOpen, List.mem_append, List.mem_append] at newline
  rcases newline with (early | among) | late
  · exact lines.1 early
  · exact absurd (valid_printable valid 10 among) (by decide)
  · exact lines.2 late

/-- The reply that shows a valid name is JSON just if its backslashes begin escapes. -/
theorem failedToOpen_wellFormed_iff {iface : Text} (valid : validateInterfaceName iface = none) :
    WellFormedReply (failedToOpen iface) ↔ wellEscaped .plain iface = true := by
  have printable := valid_printable valid
  obtain ⟨⟨brace, opens, closes, _⟩, _, _, quote⟩ := templates
  have apart : (39 : UInt8) ≠ 117 ∧ isEscaped 39 = false ∧ isXDigit 39 = false := by
    decide
  have scan : run ⟨.value, []⟩ (failedToOpen iface) =
      if wellEscaped .plain iface then some ⟨.after, []⟩ else none := by
    rw [quote] at closes
    rw [failedToOpen, List.append_assoc, run_append, opens, Option.bind_some, quote,
      run_escaped printable apart .plain false [.object], closes]
  have first : (failedToOpen iface).head? = some 123 := by
    rw [failedToOpen, List.append_assoc, List.head?_append, brace]
    rfl
  unfold WellFormedReply IsObject
  rw [scan]
  simp [first, failedToOpen_oneLine valid]

/-! ## Handlers -/

/-- A reply that is not NULL is well-formed. -/
def Fine (reply : Option Text) : Prop := ∀ s, reply = some s → WellFormedReply s

section Handlers
variable {print : Json → Option Text} {view : BusView} {answers : BusAnswers}

theorem fine_none : Fine none := fun _ found => by contradiction

theorem fine_printf {reply : Text} (wellFormed : WellFormedReply reply) :
    Fine (replyPrintf answers reply) := by
  intro s found
  unfold replyPrintf at found
  split at found
  · cases found
    exact wellFormed
  · contradiction

theorem fine_fixed {reply : Text} (listed : reply ∈ fixedReplies) :
    Fine (replyPrintf answers reply) :=
  fine_printf (fixed_wellFormed reply listed)

theorem fine_orElse {first second : Option Text} (firstFine : Fine first)
    (secondFine : Fine second) : Fine (first.orElse fun _ => second) := by
  cases first with
  | none => exact secondFine
  | some reply => exact firstFine

theorem fine_success : Fine (replySuccess answers) := fine_fixed (by simp [fixedReplies])

theorem fine_invalidName {iface error : Text} (found : validateInterfaceName iface = some error) :
    WellFormedReply error := by
  unfold validateInterfaceName at found
  split at found
  · cases found
    exact fixed_wellFormed _ (by simp [fixedReplies])
  · split at found
    · cases found
      exact fixed_wellFormed _ (by simp [fixedReplies])
    · contradiction

theorem fine_failedToOpen_iff {iface : Text} (valid : validateInterfaceName iface = none)
    (closed : (answers.scan iface).init = false) :
    Fine (replyPrintf answers (failedToOpen iface)) ↔ showsBadName answers iface = false := by
  unfold showsBadName replyPrintf Fine
  rw [closed]
  cases answers.allocates (failedToOpen iface) with
  | false => simp
  | true => simp [failedToOpen_wellFormed_iff valid]

theorem noDevice_wellFormed (position : Int) (count : Nat) :
    WellFormedReply
      (text "\x7b\"status\":\"error\",\"connected\":false,\"device\":null,\"message\":\"" ++
        noDeviceAt position count ++ text "\"\x7d") :=
  templates.2.1.wellFormed (noDeviceAt_plain position count)

theorem scanned_eq {root : Json} {iface : Text}
    (given : (paramOf root "interface").bind Json.valuestring? = some iface) :
    scanned view root =
      if validateInterfaceName iface = none ∧ anyMasterActive view.globals = false then some iface
      else none := by
  unfold scanned
  rw [given]
  cases anyMasterActive view.globals with
  | true => simp
  | false => simp [Option.filter]

theorem scanned_some {root : Json} {iface : Text} (shown : scanned view root = some iface) :
    (paramOf root "interface").bind Json.valuestring? = some iface ∧
      validateInterfaceName iface = none ∧ anyMasterActive view.globals = false := by
  unfold scanned at shown
  rw [Option.filter_eq_some_iff] at shown
  simpa using shown

theorem scan_shown {root : Json} {iface : Text} (shown : scanned view root = some iface)
    (closed : (answers.scan iface).init = false) :
    handleScanCommand print view answers root = replyPrintf answers (failedToOpen iface) := by
  obtain ⟨given, valid, quiet⟩ := scanned_some shown
  unfold handleScanCommand
  rw [given]
  dsimp only
  rw [valid]
  dsimp only
  rw [if_neg (by simp [quiet]), if_pos closed]

theorem hasPosition_some {root : Json} (placed : hasPosition root = true) :
    ∃ position valuedouble, paramOf root "position" = some (.number position valuedouble) ∧
      1 ≤ position := by
  unfold hasPosition at placed
  split at placed
  · rename_i position valuedouble found
    exact ⟨position, valuedouble, found, of_decide_eq_true placed⟩
  · contradiction

theorem test_shown {root : Json} {iface : Text} (placed : hasPosition root = true)
    (shown : scanned view root = some iface) (closed : (answers.scan iface).init = false) :
    handleTestCommand print view answers root = replyPrintf answers (failedToOpen iface) := by
  obtain ⟨given, valid, quiet⟩ := scanned_some shown
  obtain ⟨position, valuedouble, found, positive⟩ := hasPosition_some placed
  unfold handleTestCommand
  rw [given]
  dsimp only
  rw [found]
  dsimp only
  rw [if_neg (by omega), valid]
  dsimp only
  rw [if_neg (by simp [quiet]), if_pos closed]

theorem busCommand_shown {root : Json} {iface : Text}
    (shown : interfaceOpened view root = some iface)
    (closed : (answers.scan iface).init = false) :
    validateInterfaceName iface = none ∧
      busCommand print view answers (some root) = replyPrintf answers (failedToOpen iface) := by
  unfold interfaceOpened at shown
  unfold busCommand
  dsimp only
  cases found : getString? root "command" with
  | none => simp [found] at shown
  | some name =>
      rw [found, Option.bind_some] at shown
      dsimp only
      split at shown
      · rename_i named
        rw [named]
        exact ⟨(scanned_some shown).2.1, scan_shown shown closed⟩
      · rename_i named
        rw [named]
        split at shown
        · rename_i placed
          exact ⟨(scanned_some shown).2.1, test_shown placed shown closed⟩
        · contradiction
      · contradiction

theorem parseMasterSlave_fine {root : Json} {reply : Option Text}
    (refused : parseMasterSlave view answers root = .error reply) : Fine reply := by
  unfold parseMasterSlave at refused
  split at refused
  · cases refused
    exact fine_fixed (by simp [fixedReplies])
  · split at refused
    · cases refused
      exact fine_printf (templates.2.2.1.wellFormed isPlain_decimal)
    · split at refused
      · cases refused
        exact fine_fixed (by simp [fixedReplies])
      · contradiction

theorem withMasterSlave_fine {root : Json} {reply : Nat → Slot → Int → Option Text}
    (each : ∀ master slot slave, Fine (reply master slot slave)) :
    Fine (withMasterSlave view answers root reply) := by
  unfold withMasterSlave
  split
  · rename_i refused
    exact parseMasterSlave_fine refused
  · split
    · exact fine_none
    · exact each _ _ _

theorem opened_fine_iff {root : Json} {iface : Text} {busy rest : Option Text}
    (given : (paramOf root "interface").bind Json.valuestring? = some iface)
    (busyFine : Fine busy) (restFine : Fine rest) :
    Fine
        (match validateInterfaceName iface with
        | some error => replyPrintf answers error
        | none =>
            if anyMasterActive view.globals then busy
            else if (answers.scan iface).init = false then
              replyPrintf answers (failedToOpen iface)
            else rest) ↔
      ∀ name, scanned view root = some name → showsBadName answers name = false := by
  rw [scanned_eq given]
  cases valid : validateInterfaceName iface with
  | some error =>
      refine iff_of_true (fine_printf (fine_invalidName valid)) ?_
      simp
  | none =>
      dsimp only
      cases active : anyMasterActive view.globals with
      | true =>
          refine iff_of_true busyFine ?_
          simp
      | false =>
          cases opened : (answers.scan iface).init with
          | false => simp [fine_failedToOpen_iff valid opened]
          | true =>
              have never : showsBadName answers iface = false := by
                simp [showsBadName, opened]
              refine iff_of_true restFine ?_
              simp [never]

variable (prints : PrintsObjects print)
include prints

theorem fine_json (members : List Member) : Fine (replyJson print members) := prints members

theorem testReply_fine (scan : SoemScan) (position : Int) :
    Fine (testReply print answers scan position) := by
  unfold testReply
  split
  · exact fine_fixed (by simp [fixedReplies])
  · split
    · exact fine_printf (noDevice_wellFormed position scan.slaves.length)
    · exact fine_json prints _

theorem scan_fine_iff (root : Json) :
    Fine (handleScanCommand print view answers root) ↔
      ∀ iface, scanned view root = some iface → showsBadName answers iface = false := by
  unfold handleScanCommand
  cases given : (paramOf root "interface").bind Json.valuestring? with
  | none =>
      refine iff_of_true (fine_fixed (by simp [fixedReplies])) ?_
      simp [scanned, given]
  | some iface =>
      refine opened_fine_iff given (fine_fixed (by simp [fixedReplies])) ?_
      split
      · exact fine_fixed (by simp [fixedReplies])
      · exact fine_json prints _

theorem test_fine_iff (root : Json) :
    Fine (handleTestCommand print view answers root) ↔
      ∀ iface, (if hasPosition root then scanned view root else none) = some iface →
        showsBadName answers iface = false := by
  unfold handleTestCommand
  cases given : (paramOf root "interface").bind Json.valuestring? with
  | none =>
      refine iff_of_true (fine_fixed (by simp [fixedReplies])) ?_
      simp [scanned, given]
  | some iface =>
      dsimp only
      split
      · rename_i position valuedouble found
        have placed : hasPosition root = decide (1 ≤ position) := by
          unfold hasPosition
          rw [found]
        rw [placed]
        split
        · rename_i low
          refine iff_of_true (fine_fixed (by simp [fixedReplies])) ?_
          have under : ¬ 1 ≤ position := Int.not_le.mpr low
          simp [under]
        · rename_i high
          have reached : 1 ≤ position := Int.not_lt.mp high
          rw [decide_eq_true reached, if_pos rfl]
          exact opened_fine_iff given (fine_fixed (by simp [fixedReplies]))
            (testReply_fine prints (answers.scan iface) position)
      · rename_i absent
        refine iff_of_true (fine_fixed (by simp [fixedReplies])) ?_
        have nowhere : hasPosition root = false := by
          unfold hasPosition
          split
          · rename_i position valuedouble found
            exact absurd found (absent position valuedouble)
          · rfl
        simp [nowhere]

theorem configure_fine (root : Json) : Fine (handleConfigureCommand print view answers root) := by
  have reply : ∀ path, Fine (configureReply print view answers path) := by
    intro path
    unfold configureReply
    dsimp only
    split
    · exact fine_json prints _
    · exact fine_json prints _
  unfold handleConfigureCommand
  split
  · exact reply none
  · exact reply _
  · exact fine_fixed (by simp [fixedReplies])

theorem start_fine : Fine (handleStartCommand print view answers) := by
  unfold handleStartCommand
  dsimp only
  split
  · exact fine_json prints _
  · exact fine_json prints _

theorem openData_fine (root : Json) : Fine (openDataCommand print view answers root) := by
  unfold openDataCommand openDataReply
  dsimp only
  split
  · exact fine_fixed (by simp [fixedReplies])
  · exact fine_json prints _
  · exact fine_json prints _
  · exact fine_json prints _

theorem scanModulesOnInterface_fine (params : Json) :
    Fine (scanModulesOnInterface print view answers params) := by
  unfold scanModulesOnInterface
  dsimp only
  split
  · exact fine_fixed (by simp [fixedReplies])
  · split
    · rename_i refused
      exact fine_orElse (fine_printf (fine_invalidName refused))
        (fine_fixed (by simp [fixedReplies]))
    · split
      · exact fine_fixed (by simp [fixedReplies])
      · split
        · exact fine_json prints _
        · split
          · exact fine_json prints _
          · exact fine_json prints _

theorem scanModules_fine (root : Json) :
    Fine (handleScanModulesCommand print view answers root) := by
  unfold handleScanModulesCommand
  split
  · exact scanModulesOnInterface_fine prints _
  · refine withMasterSlave_fine fun master slot slave => ?_
    split
    · exact fine_json prints _
    · exact fine_json prints _

theorem diagnosticsSlave_fine (root : Json) :
    Fine (handleDiagnosticsSlaveCommand print view answers root) := by
  refine withMasterSlave_fine fun master slot slave => ?_
  split
  · exact fine_json prints _
  · split
    · exact fine_json prints _
    · split
      · exact fine_json prints _
      · split
        · exact fine_json prints _
        · exact fine_json prints _

/-! ## The command -/

/-- Only scan and test can go wrong. -/
theorem dispatch_fine_iff (root : Json) (command : CommandName)
    (named : (getString? root "command").bind commandNamed = some command) :
    Fine (dispatch print view answers root command) ↔
      ∀ iface, interfaceOpened view root = some iface → showsBadName answers iface = false := by
  unfold interfaceOpened
  rw [named]
  cases command with
  | scan => exact scan_fine_iff prints root
  | test => exact test_fine_iff prints root
  | listInterfaces => exact iff_of_true (fine_json prints _) (by simp)
  | status => exact iff_of_true (fine_json prints _) (by simp)
  | diagnostics => exact iff_of_true (fine_json prints _) (by simp)
  | configure => exact iff_of_true (configure_fine prints root) (by simp)
  | start => exact iff_of_true (start_fine prints) (by simp)
  | stop => exact iff_of_true fine_success (by simp)
  | layout => exact iff_of_true (fine_json prints _) (by simp)
  | scanModules => exact iff_of_true (scanModules_fine prints root) (by simp)
  | diagnosticsSlave => exact iff_of_true (diagnosticsSlave_fine prints root) (by simp)
  | openData => exact iff_of_true (openData_fine prints root) (by simp)
  | closeData => exact iff_of_true fine_success (by simp)

theorem busCommand_fine_iff (request : Option Json) :
    Fine (busCommand print view answers request) ↔
      ∀ root iface, request = some root → interfaceOpened view root = some iface →
        showsBadName answers iface = false := by
  unfold busCommand
  cases request with
  | none => exact iff_of_true (fine_fixed (by simp [fixedReplies])) (by simp)
  | some root =>
      have single : (∀ other iface, some root = some other →
          interfaceOpened view other = some iface → showsBadName answers iface = false) ↔
          ∀ iface, interfaceOpened view root = some iface → showsBadName answers iface = false := by
        constructor
        · exact fun all iface => all root iface rfl
        · rintro all other iface ⟨⟩
          exact all iface
      rw [single]
      dsimp only
      cases found : getString? root "command" with
      | none =>
          refine iff_of_true (fine_fixed (by simp [fixedReplies])) ?_
          simp [interfaceOpened, found]
      | some name =>
          dsimp only
          cases named : commandNamed name with
          | none =>
              refine iff_of_true (fine_json prints _) ?_
              simp [interfaceOpened, found, named]
          | some command =>
              exact dispatch_fine_iff prints root command (by rw [found]; exact named)

theorem ecatBusCommand_fine_iff (request : Option Json) :
    Fine (ecatBusCommand print view answers request) ↔
      ∀ root iface, request = some root → interfaceOpened view root = some iface →
        showsBadName answers iface = false := by
  rw [← busCommand_fine_iff prints request]
  unfold ecatBusCommand
  constructor
  · intro fine s found
    exact fine s (by rw [found]; rfl)
  · exact fun fine => fine_orElse fine (fine_fixed (by simp [fixedReplies]))

theorem ecatBusCommand_oneLine (request : Option Json) {reply : Text}
    (replied : ecatBusCommand print view answers request = some reply) : 10 ∉ reply := by
  by_cases fine : Fine (ecatBusCommand print view answers request)
  · exact (fine reply replied).1
  · rw [ecatBusCommand_fine_iff prints request] at fine
    push Not at fine
    obtain ⟨root, iface, rfl, shown, bad⟩ := fine
    unfold showsBadName at bad
    simp only [ne_eq, Bool.not_eq_false, Bool.and_eq_true, Bool.not_eq_true'] at bad
    obtain ⟨⟨closed, allocated⟩, _⟩ := bad
    obtain ⟨valid, same⟩ := @busCommand_shown print view answers root iface shown closed
    rw [ecatBusCommand, same, replyPrintf, if_pos allocated] at replied
    cases replied
    exact failedToOpen_oneLine valid

end Handlers

/-! ## The line -/

theorem wellFormed_getD {reply : Option Text} :
    WellFormedReply (reply.getD outOfMemory) ↔ Fine reply := by
  cases reply with
  | none => exact iff_of_true (fixed_wellFormed _ (by simp [fixedReplies])) fine_none
  | some s => simp [Fine]

section Line
variable {World : Type} (parts : ServerParts World) (prints : PrintsObjects parts.print)
include prints

theorem logsResponse_wellFormed (world : World) (root : Json) :
    WellFormedReply (logsResponse parts.services world root) := by
  unfold logsResponse
  dsimp only
  split
  · exact fixed_wellFormed _ (by simp [fixedReplies])
  · exact wellFormed_getD.mpr (prints _)

/-- Every reply is one line with one JSON object, just where no name is shown
whose backslashes are no escapes. -/
theorem replies_well_formed_iff (token : Option Text) (world : World) (authenticated : Bool)
    (line : Text) :
    (∀ reply ∈ (handleLine parts.services token world authenticated line).replies,
        WellFormedReply reply) ↔
      ¬ ShowsBadName parts token world authenticated line := by
  have fixed : ∀ reply ∈ fixedReplies, ∀ sent ∈ [reply], WellFormedReply sent := by
    intro reply listed
    rw [List.forall_mem_singleton]
    exact fixed_wellFormed reply listed
  unfold handleLine ShowsBadName
  dsimp only
  cases judge parts.services token authenticated line with
  | wrongToken => exact iff_of_true (fixed authenticationFailed (by simp [fixedReplies])) (by simp)
  | hello => exact iff_of_true (fixed helloResponse (by simp [fixedReplies])) (by simp)
  | stranger => exact iff_of_true (fixed authenticateFirst (by simp [fixedReplies])) (by simp)
  | execute command =>
      cases command with
      | shutdown => exact iff_of_true (fixed _ (by simp [fixedReplies])) (by simp)
      | logs =>
          refine iff_of_true ?_ (by simp)
          simpa [answer] using logsResponse_wellFormed parts prints world _
      | bus =>
          have fine := @ecatBusCommand_fine_iff _ (parts.view world)
            (parts.answers world line) prints (parts.parse line)
          simp only [answer, ServerParts.services, List.forall_mem_singleton,
            wellFormed_getD, fine, true_and, not_exists, not_and,
            Bool.not_eq_true]

theorem answer_oneLine (world : World) (line : Text) (verdict : Verdict) :
    ∀ reply ∈ (answer parts.services world line verdict).2, 10 ∉ reply := by
  have fixed : ∀ reply ∈ fixedReplies, ∀ sent ∈ [reply], 10 ∉ sent := by
    intro reply listed
    rw [List.forall_mem_singleton]
    exact (fixed_wellFormed reply listed).1
  cases verdict with
  | wrongToken => exact fixed authenticationFailed (by simp [fixedReplies])
  | hello => exact fixed helloResponse (by simp [fixedReplies])
  | stranger => exact fixed authenticateFirst (by simp [fixedReplies])
  | execute command =>
      cases command with
      | shutdown => exact fixed statusSuccess (by simp [fixedReplies])
      | logs =>
          rw [answer, List.forall_mem_singleton]
          exact (logsResponse_wellFormed parts prints world _).1
      | bus =>
          rw [answer, List.forall_mem_singleton]
          cases replied : (parts.services.bus world line).2 with
          | none => exact (fixed_wellFormed outOfMemory (by simp [fixedReplies])).1
          | some reply => exact ecatBusCommand_oneLine prints (parts.parse line) replied

end Line

/-! ## A server at rest -/

/-- A printer that has memory for one member with a text without escapes. -/
def printOne (json : Json) : Option Text :=
  match json with
  | .object [(key, .string s)] =>
      let reply := text "\x7b\"" ++ key ++ text "\":\"" ++ s ++ text "\"\x7d"
      if WellFormedReply reply then some reply else none
  | _ => none

theorem printOne_objects : PrintsObjects printOne := by
  intro members reply found
  unfold printOne at found
  split at found
  · dsimp only at found
    split at found
    · rename_i wellFormed
      cases found
      exact wellFormed
    · contradiction
  · contradiction

def unknownLine : Text := text "\x7b\"command\":\"dance\"\x7d"

/-- The Windows name of a network adapter. -/
def windowsName : Text := text "\\Device\\NPF_\x7b0\x7d"

def scanLine : Text :=
  text ("\x7b\"command\":\"scan\",\"params\":\x7b\"interface\":" ++
    "\"\\\\Device\\\\NPF_\x7b0\x7d\"\x7d\x7d")

def nothingOpens : BusAnswers where
  allocates := fun _ => true
  scan := fun _ => ⟨false, 0, []⟩
  adapters := []
  libc := noLibC
  alloc := fun _ => true
  configureAllocated := true
  file := .unreadable
  locks := fun _ => allLocks
  nextThread := 1
  start := fun _ => fakeStart
  openData := fun _ => ⟨.error (text "no peer"), fun _ => .error (text "no socket"), fun _ => 1⟩
  acyclicLock := true
  scanModulesOffline := fun _ _ _ => .error []
  readModuleIdents := fun _ _ => .error []
  couplerDiagnostics := fun _ _ => .error []
  pollAtMs := .finite 0

def atRest : ServerParts Unit where
  parse := fun line =>
    if line = unknownLine then some (.object [(text "command", .string (text "dance"))])
    else if line = scanLine then
      some (.object [(text "command", .string (text "scan")),
        (text "params", .object [(text "interface", .string windowsName)])])
    else none
  print := printOne
  log := fun _ => (freshLog, 1)
  view := fun _ => ⟨noMasters, fun _ => ⟨0, [], []⟩⟩
  answers := fun _ _ => nothingOpens
  after := fun world _ => world

theorem replies_well_formed_unknown :
    (handleLine atRest.services none () false unknownLine).replies =
        [text "\x7b\"error\":\"unknown command 'dance'\"\x7d"] ∧
      ∀ reply ∈ (handleLine atRest.services none () false unknownLine).replies,
        WellFormedReply reply := by
  refine ⟨by decide +kernel, ?_⟩
  refine (replies_well_formed_iff atRest printOne_objects none () false unknownLine).mpr ?_
  rintro ⟨_, root, iface, parsed, opened, _⟩
  have request : atRest.parse unknownLine =
      some (.object [(text "command", .string (text "dance"))]) := rfl
  have nothing : interfaceOpened (atRest.view ())
      (.object [(text "command", .string (text "dance"))]) = none := by decide
  rw [request, Option.some.injEq] at parsed
  rw [← parsed, nothing] at opened
  contradiction

/-- The scan of a Windows adapter that cannot be opened. -/
theorem windows_name_breaks_reply :
    ¬ ∀ parts : ServerParts Unit, PrintsObjects parts.print →
      ∀ (token : Option Text) (world : Unit) (authenticated : Bool) (line : Text),
        ∀ reply ∈ (handleLine parts.services token world authenticated line).replies,
          WellFormedReply reply := by
  intro always
  have sent : failedToOpen windowsName ∈
      (handleLine atRest.services none () false scanLine).replies := by decide +kernel
  have broken : ¬ WellFormedReply (failedToOpen windowsName) := by decide +kernel
  exact broken (always atRest printOne_objects none () false scanLine _ sent)

end EtherDog
