import EtherDog.Bus.OpenData
import EtherDog.Bus.Status

/-!
# The replies of the bus commands (src/bus.c)

`ecat_bus_command` answers a request by a text of `reply_printf` or by a tree
that cJSON prints; `none` is a reply that is NULL.  `BusView` is what the
handlers read of the masters, and `BusAnswers` what SOEM, the memory and the
clock answer.
-/

set_option autoImplicit false

namespace EtherDog

open CString

/-- The globals and what each master publishes, by its index. -/
structure BusView where
  globals : BusGlobals
  published : Nat → Published

structure ScannedSlave where
  name : Text
  eepMan : UInt32
  eepId : UInt32
  eepRev : UInt32
  eepSer : UInt32
  mbxProto : UInt16
  deriving DecidableEq, Repr

/-- A temporary SOEM context: `ecx_init`, the result of `ecx_config_init` and the
slaves from position 1 on. -/
structure SoemScan where
  init : Bool
  configInit : Int
  slaves : List ScannedSlave

structure ModuleDiag where
  slot : Int
  ident : UInt32
  /-- `none` where it could not be read -/
  status : Option UInt8
  deriving DecidableEq, Repr

structure CouplerDiag where
  statusWord : Option UInt16
  modules : List ModuleDiag
  deriving DecidableEq, Repr

structure BusAnswers where
  /-- the memory `reply_printf` asks for -/
  allocates : Text → Bool
  scan : Text → SoemScan
  /-- names and descriptions -/
  adapters : List (Text × Text)
  libc : LibC
  alloc : Alloc
  configureAllocated : Bool
  file : ConfigFile
  locks : Nat → LockAnswers
  nextThread : Nat
  start : Nat → StartOutcome
  openData : Text → OpenDataAnswers
  acyclicLock : Bool
  /-- by interface, slave and timeout; an error is its text -/
  scanModulesOffline : Text → Int → Int → Except Text (List UInt32)
  readModuleIdents : Nat → Int → Except Text (List UInt32)
  couplerDiagnostics : Nat → Int → Except Text CouplerDiag
  pollAtMs : Double

/-! ## Requests -/

def paramOf (root : Json) (key : String) : Option Json :=
  (root.item? "params").bind fun params => params.item? key

def isIfaceByte (c : UInt8) : Bool :=
  isAlnum c || c == 95 || c == 45 || c == 92 || c == 123 || c == 125 || c == 46

/-- `ecat_iface_validate` with `ECAT_IFACE_ANY_PLATFORM`. -/
def ecatIfaceValidate (iface : Text) : Bool :=
  decide (iface.length ≠ 0 ∧ iface.length < ecatIfnameMax) && iface.all isIfaceByte

def validateInterfaceName (ifname : Text) : Option Text :=
  if ifname.length = 0 ∨ ecatIfnameMax ≤ ifname.length then
    some (errorText "invalid interface name length")
  else if ecatIfaceValidate ifname = false then
    some (errorText "invalid interface name format")
  else none

def anyMasterActive (globals : BusGlobals) : Bool :=
  globals.masters.any fun slot =>
    decide (slot.master.inst.busState = .operational ∨ slot.master.inst.busState = .recovering ∨
      slot.master.inst.busState = .transitioning)

/-- A number that is the int it is read as, in a range. -/
def intIn (low : Rat) (inRange : Rat → Bool) (json : Option Json) : Option Int :=
  match json with
  | some (.number valueint (.finite value)) =>
      if low ≤ value ∧ inRange value = true ∧ value = valueint then some valueint else none
  | _ => none

def isNumber (json : Option Json) : Bool :=
  match json with
  | some (.number _ _) => true
  | _ => false

def slaveParam (json : Option Json) : Option Int := intIn 1 (fun value => value ≤ 65535) json

def masterParam (count : Nat) (json : Option Json) : Option Int :=
  intIn 0 (fun value => value < count) json

/-! ## Replies -/

section Handlers
variable (print : Json → Option Text) (view : BusView) (answers : BusAnswers)

def replyPrintf (reply : Text) : Option Text :=
  if answers.allocates reply then some reply else none

def replyJson (members : List Member) : Option Text := print (.object members)

def replyError (message : Text) : Option Text :=
  replyJson print [textMember "status" (text "error"), textMember "message" message]

def replySuccess : Option Text := replyPrintf answers statusSuccess

/-- With a failed `ecx_init` the name goes into the reply as it is. -/
def failedToOpen (iface : Text) : Text :=
  text "\x7b\"error\":\"Failed to open interface '" ++ iface ++ text "'\"\x7d"

/-- The masters with their indices and what they publish. -/
def BusView.reports : List (Nat × Slot × Published) :=
  view.globals.masters.mapIdx fun i slot => (i, slot, view.published i)

/-! ## Scan, list-interfaces and test -/

def deviceMembers (position : Nat) (slave : ScannedSlave) : List Member :=
  [natMember "position" position,
    textMember "name" slave.name,
    natMember "vendor_id" slave.eepMan.toNat,
    natMember "product_code" slave.eepId.toNat,
    natMember "revision" slave.eepRev.toNat,
    natMember "serial_number" slave.eepSer.toNat,
    textMember "state" (text "UNKNOWN"),
    natMember "al_status_code" 0,
    boolMember "has_coe" (slave.mbxProto &&& 0x04 != 0),
    natMember "input_bytes" 0,
    natMember "output_bytes" 0]

def handleScanCommand (root : Json) : Option Text :=
  match (paramOf root "interface").bind Json.valuestring? with
  | none => replyPrintf answers (errorText "missing 'interface' param")
  | some iface =>
      match validateInterfaceName iface with
      | some error => replyPrintf answers error
      | none =>
          if anyMasterActive view.globals then
            replyPrintf answers
              (errorText "EtherCAT master is running. Stop the bus before scanning.")
          else
            let scan := answers.scan iface
            if scan.init = false then replyPrintf answers (failedToOpen iface)
            else if scan.configInit ≤ 0 then
              replyPrintf answers (text ("\x7b\"status\":\"success\",\"devices\":[]," ++
                "\"message\":\"No slaves found\",\"slave_count\":0\x7d"))
            else
              replyJson print
                [textMember "status" (text "success"),
                  arrayMember "devices"
                    (scan.slaves.mapIdx fun i slave => .object (deviceMembers (i + 1) slave)),
                  textMember "message" (snprintf 128 (text "Found " ++
                    decimal scan.slaves.length ++ text " EtherCAT slave(s)")),
                  natMember "slave_count" scan.slaves.length]

def handleListInterfacesCommand : Option Text :=
  replyJson print
    [textMember "status" (text "success"),
      arrayMember "interfaces" (answers.adapters.map fun adapter =>
        .object [textMember "name" adapter.1, textMember "description" adapter.2]),
      textMember "message" (snprintf 64 (text "Found " ++ decimal answers.adapters.length ++
        text " network interface(s)"))]

def noDeviceAt (position : Int) (count : Nat) : Text :=
  snprintf 128 (text "No device at position " ++ decimal position ++ text ". Found " ++
    decimal count ++ text " slave(s).")

def testReply (scan : SoemScan) (position : Int) : Option Text :=
  if scan.configInit ≤ 0 then
    replyPrintf answers (text ("\x7b\"status\":\"success\",\"connected\":false,\"device\":null," ++
      "\"message\":\"No EtherCAT slaves found on the network\"\x7d"))
  else
    match scan.slaves[position.toNat - 1]? with
    | none =>
        replyPrintf answers
          (text "\x7b\"status\":\"error\",\"connected\":false,\"device\":null,\"message\":\"" ++
            noDeviceAt position scan.slaves.length ++ text "\"\x7d")
    | some slave =>
        replyJson print
          [textMember "status" (text "success"),
            boolMember "connected" true,
            objectMember "device" (deviceMembers position.toNat slave),
            textMember "message" (snprintf 128 (text "Successfully connected to " ++ slave.name ++
              text " at position " ++ decimal position))]

def handleTestCommand (root : Json) : Option Text :=
  match (paramOf root "interface").bind Json.valuestring? with
  | none => replyPrintf answers (errorText "missing 'interface' param")
  | some iface =>
      match paramOf root "position" with
      | some (.number position _) =>
          if position < 1 then
            replyPrintf answers (errorText "'position' must be a positive integer")
          else
            match validateInterfaceName iface with
            | some error => replyPrintf answers error
            | none =>
                if anyMasterActive view.globals then
                  replyPrintf answers
                    (errorText "EtherCAT master is running. Stop the bus before testing.")
                else if (answers.scan iface).init = false then
                  replyPrintf answers (failedToOpen iface)
                else testReply print answers (answers.scan iface) position
      | _ => replyPrintf answers (errorText "missing 'position' param")

/-! ## Status, diagnostics and layout -/

def handleStatusCommand : Option Text :=
  replyJson print
    [boolMember "configured" (decide (0 < view.globals.masters.length)),
      textMember "config_path" view.globals.configPath,
      arrayMember "masters"
        (view.reports.map fun report => buildMasterStatusJson report.2.1 report.2.2)]

def handleDiagnosticsCommand : Option Text :=
  replyJson print
    [arrayMember "masters" (view.reports.map fun report =>
      buildMasterDiagnosticsJson (masterHasLayout report.2.1.master.inst) report.2.1 report.2.2)]

def handleLayoutCommand : Option Text :=
  replyJson print
    [textMember "status" (text "success"),
      arrayMember "masters" (view.reports.map fun report =>
        layoutMasterJson report.1 (masterHasLayout report.2.1.master.inst) report.2.1 report.2.2)]

/-! ## Configure, start and stop -/

def configuredMasterJson (index : Nat) (slot : Slot) : Json :=
  .object
    [natMember "index" index,
      textMember "name" slot.name,
      textMember "interface" slot.config.master.interface,
      intMember "cycle_time_us" slot.config.master.cycleTimeUs,
      intMember "task_priority" slot.config.master.taskPriority,
      natMember "slave_count" slot.config.slaveCount]

def configureReply (path : Option Text) : Option Text :=
  let outcome := view.globals.ecatBusConfigure answers.libc answers.alloc
    ⟨path, answers.configureAllocated, answers.file, answers.locks⟩
  match outcome.failure with
  | some err => replyJson print [textMember "error" err]
  | none =>
      replyJson print
        [textMember "status" (text "success"),
          arrayMember "masters" (outcome.globals.masters.mapIdx configuredMasterJson)]

def handleConfigureCommand (root : Json) : Option Text :=
  match paramOf root "path" with
  | none => configureReply print view answers none
  | some (.string path) => configureReply print view answers (some (cstr path))
  | some _ => replyPrintf answers (errorText "'path' must be a string")

def startError : Text :=
  if view.globals.masters = [] then text "no bus configuration loaded"
  else text "no EtherCAT master started (see EtherDOG log)"

def handleStartCommand : Option Text :=
  let started := (ecatBusStart (view.globals.server answers.nextThread) answers.start).2.1
  if started < 0 then replyJson print [textMember "error" (startError view)]
  else
    replyJson print
      [textMember "status" (text "success"),
        intMember "started" started,
        natMember "total" view.globals.masters.length]

/-! ## Data sessions -/

def openedJson (opened : OpenedSession) : Json :=
  .object
    [natMember "index" opened.index,
      textMember "endpoint" opened.endpoint,
      textMember "session" (snprintf 17 (lowerHex 16 opened.session.toNat))]

def openDataReply (reply : OpenDataReply) : Option Text :=
  match reply with
  | .missingEndpoint => replyPrintf answers (errorText "missing 'endpoint' param")
  | .failed err => replyJson print [textMember "error" err]
  | .noMaster =>
      replyJson print [textMember "error" (text "no master is running; start the bus first")]
  | .opened sessions =>
      replyJson print
        [textMember "status" (text "success"), arrayMember "masters" (sessions.map openedJson)]

def openDataCommand (root : Json) : Option Text :=
  let endpoint := (paramOf root "endpoint").bind Json.valuestring?
  openDataReply print answers
    (handleOpenDataCommand (view.globals.masters.map Slot.master)
      (endpoint.map answers.openData)).reply

/-! ## Modules -/

def slaveOutOfRange : Text := statusErrorText "'slave' must be an integer in 1..65535"

/-- `parse_master_slave`; an error is its reply. -/
def parseMasterSlave (root : Json) : Except (Option Text) (Nat × Int) :=
  if isNumber (paramOf root "master") = false ∨ isNumber (paramOf root "slave") = false then
    .error (replyPrintf answers (statusErrorText "'master' and 'slave' must be numbers"))
  else
    match masterParam view.globals.masters.length (paramOf root "master") with
    | none =>
        .error (replyPrintf answers
          (text "\x7b\"status\":\"error\",\"message\":\"master index out of range (0.." ++
            decimal (view.globals.masters.length - 1) ++ text ")\"\x7d"))
    | some master =>
        match slaveParam (paramOf root "slave") with
        | none => .error (replyPrintf answers slaveOutOfRange)
        | some slave => .ok (master.toNat, slave)

def interfaceInUse (iface : Text) (self : Option Nat) : Bool :=
  view.reports.any fun report =>
    decide (some report.1 ≠ self) && report.2.1.master.inst.soemInitialized &&
      report.2.1.config.master.interface == iface

def identsMember (idents : List UInt32) : Member :=
  arrayMember "idents" (idents.map fun ident =>
    .ofText (snprintf 12 (text "0x" ++ upperHex 8 ident.toNat)))

/-- The text of a failed scan. -/
def scanError (err : Text) : Text := if err = [] then text "scan failed" else err

def scanModulesOnInterface (params : Json) : Option Text :=
  let refused := replyPrintf answers (statusErrorText "'interface' must be a string")
  match getString? params "interface" with
  | none => refused
  | some iface =>
      match validateInterfaceName iface with
      | some error => (replyPrintf answers error).orElse fun _ => refused
      | none =>
          match slaveParam (params.item? "slave") with
          | none => replyPrintf answers slaveOutOfRange
          | some slave =>
              if interfaceInUse view iface none then
                replyError print (text
                  "a running master uses this interface; stop the PLC to scan")
              else
                match answers.scanModulesOffline iface slave 0 with
                | .error err => replyError print (scanError err)
                | .ok idents =>
                    replyJson print
                      [textMember "status" (text "success"),
                        textMember "interface" iface,
                        intMember "slave" slave,
                        identsMember idents]

/-- `init_to_preop_timeout_ms` of the last slave configured at the position. -/
def preopTimeoutUs (config : EcatConfig) (position : Int) : Int :=
  config.slaveList.foldl
    (fun us slave =>
      if slave.position = position then slave.timeouts.initToPreopTimeoutMs * 1000 else us) 0

/-- The identities of a configured master, or the text of the error. -/
def moduleIdents (master : Nat) (slot : Slot) (slave : Int) : Except Text (List UInt32) :=
  let inst := slot.master.inst
  if inst.soemInitialized && inst.busRunning then
    if answers.acyclicLock then (answers.readModuleIdents master slave).mapError scanError
    else .error (text "bus recovering, retry")
  else if inst.soemInitialized = false ∧
      (inst.busState = .idle ∨ inst.busState = .stopped ∨ inst.busState = .error) then
    if interfaceInUse view slot.config.master.interface (some master) then
      .error (text "another master is running on this interface")
    else
      (answers.scanModulesOffline slot.config.master.interface slave
        (preopTimeoutUs slot.config slave)).mapError scanError
  else .error (text "master is starting or stopping, retry")

def withMasterSlave (root : Json) (reply : Nat → Slot → Int → Option Text) : Option Text :=
  match parseMasterSlave view answers root with
  | .error error => error
  | .ok (master, slave) =>
      match view.globals.masters[master]? with
      | none => none
      | some slot => reply master slot slave

def handleScanModulesCommand (root : Json) : Option Text :=
  if (root.item? "params").isSome ∧ paramOf root "master" = none ∧
      paramOf root "interface" ≠ none then
    scanModulesOnInterface print view answers ((root.item? "params").getD .null)
  else
    withMasterSlave view answers root fun master slot slave =>
      match moduleIdents view answers master slot slave with
      | .error err => replyError print err
      | .ok idents =>
          replyJson print
            [textMember "status" (text "success"),
              natMember "master" master,
              intMember "slave" slave,
              identsMember idents]

def findModularSlave (config : EcatConfig) (position : Int) : Option EcatSlave :=
  config.slaveList.find? fun slave => slave.position == position && slave.modular.present

def numberOrNull (key : String) (value : Option Nat) : Member :=
  match value with
  | some n => natMember key n
  | none => member key .null

def moduleJson (diag : ModuleDiag) : Json :=
  .object
    [intMember "slot" diag.slot,
      textMember "ident" (snprintf 12 (text "0x" ++ upperHex 8 diag.ident.toNat)),
      numberOrNull "status_byte" (diag.status.map UInt8.toNat)]

def handleDiagnosticsSlaveCommand (root : Json) : Option Text :=
  withMasterSlave view answers root fun master slot slave =>
    if (findModularSlave slot.config slave).isNone then
      replyError print (text "slave is not a configured modular coupler")
    else if slot.master.inst.soemInitialized = false ∨ slot.master.inst.busRunning = false then
      replyError print (text "the bus is not running")
    else if answers.acyclicLock = false then replyError print (text "bus recovering, retry")
    else
      match answers.couplerDiagnostics master slave with
      | .error err =>
          replyError print (if err = [] then text "diagnostics read failed" else err)
      | .ok diag =>
          replyJson print
            [textMember "status" (text "success"),
              natMember "master" master,
              intMember "slave" slave,
              objectMember "coupler"
                [numberOrNull "status_word" (diag.statusWord.map UInt16.toNat),
                  member "poll_at_ms" (.ofDouble answers.pollAtMs)],
              arrayMember "modules" (diag.modules.map moduleJson)]

/-! ## The dispatch -/

inductive CommandName where
  | scan
  | listInterfaces
  | test
  | status
  | diagnostics
  | configure
  | start
  | stop
  | layout
  | scanModules
  | diagnosticsSlave
  | openData
  | closeData
  deriving DecidableEq, Repr

/-- The chain of `strcmp`. -/
def commandNamed (name : Text) : Option CommandName :=
  if name = text "scan" then some .scan
  else if name = text "list-interfaces" then some .listInterfaces
  else if name = text "test" then some .test
  else if name = text "status" then some .status
  else if name = text "diagnostics" then some .diagnostics
  else if name = text "configure" then some .configure
  else if name = text "start" then some .start
  else if name = text "stop" then some .stop
  else if name = text "layout" then some .layout
  else if name = text "scan-modules" then some .scanModules
  else if name = text "diagnostics-slave" then some .diagnosticsSlave
  else if name = text "open_data" then some .openData
  else if name = text "close_data" then some .closeData
  else none

def dispatch (root : Json) : CommandName → Option Text
  | .scan => handleScanCommand print view answers root
  | .listInterfaces => handleListInterfacesCommand print answers
  | .test => handleTestCommand print view answers root
  | .status => handleStatusCommand print view
  | .diagnostics => handleDiagnosticsCommand print view
  | .configure => handleConfigureCommand print view answers root
  | .start => handleStartCommand print view answers
  | .stop => replySuccess answers
  | .layout => handleLayoutCommand print view
  | .scanModules => handleScanModulesCommand print view answers root
  | .diagnosticsSlave => handleDiagnosticsSlaveCommand print view answers root
  | .openData => openDataCommand print view answers root
  | .closeData => replySuccess answers

/-- `%.64s`. -/
def unknownCommand (name : Text) : Text :=
  snprintf 160 (text "unknown command '" ++ name.take 64 ++ text "'")

/-- The request is what `cJSON_Parse` makes of the line. -/
def busCommand (request : Option Json) : Option Text :=
  match request with
  | none => replyPrintf answers (errorText "invalid JSON")
  | some root =>
      match getString? root "command" with
      | none => replyPrintf answers (errorText "missing 'command' field")
      | some name =>
          match commandNamed name with
          | some command => dispatch print view answers root command
          | none => replyJson print [textMember "error" (unknownCommand name)]

def ecatBusCommand (request : Option Json) : Option Text :=
  (busCommand print view answers request).orElse fun _ =>
    replyPrintf answers (errorText "no reply")

end Handlers

end EtherDog
