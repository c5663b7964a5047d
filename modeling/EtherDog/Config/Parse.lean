import EtherDog.Lib.Checked
import EtherDog.Config.Json

/-!
# The section parsers (src/config.c)

Every parser takes what the allocator answers as an `Alloc`: a place in the
document is a path of numbers, and each `calloc` of a parse has a place of its
own.  An array is allocated at once and then filled element by element, so the
parsers of arrays share `parseArray`.
-/

set_option autoImplicit false

namespace EtherDog

open CString Checked

/-- Whether the allocation at a place succeeds. -/
abbrev Alloc : Type := List Nat → Bool

def Alloc.under (alloc : Alloc) (place : Nat) : Alloc := fun path => alloc (place :: path)

abbrev Parsed (α : Type) : Type := Except ConfigError α

/-- Sizes the array from the JSON list and fills it; an empty one stays NULL. -/
def parseArray {α : Type} (alloc : Alloc) (items : List Json) (parse : Alloc → Json → Parsed α) :
    Parsed (List α) :=
  match items with
  | [] => .ok []
  | _ :: _ => do
      require (alloc []) .memory
      each (fun i => parse (alloc.under i)) items

/-! ## PDOs -/

def parsePdoEntry (json : Json) : Parsed EcatPdoEntry := do
  let index := safeStrcpy (getString json "index" "0x0000") indexFieldSize
  require ((parseHexU32 index).any (· ≤ 0xFFFF)) .invalid
  return {
    index := index
    subindex := UInt8.ofInt (getInt json "subindex" 0)
    bitLength := UInt8.ofInt (getInt json "bit_length" 0)
    name := safeStrcpy (getString json "name" "") ecatMaxNameLen
    parsedType := ecatParseDataType (getString json "data_type" "") }

def parsePdo (alloc : Alloc) (json : Json) : Parsed EcatPdo := do
  let index := safeStrcpy (getString json "index" "0x0000") indexFieldSize
  require ((parseHexU32 index).any fun v => v ≠ 0 ∧ v ≤ 0xFFFF) .invalid
  let entries ← parseArray alloc (json.items "entries") fun _ => parsePdoEntry
  return {
    index := index
    name := safeStrcpy (getString json "name" "") ecatMaxNameLen
    entries := entries
    fixed := getBool json "fixed" false }

def parsePdoArray (alloc : Alloc) (items : List Json) : Parsed (List EcatPdo) :=
  parseArray alloc items parsePdo

/-! ## SDOs -/

/-- The double literals and `FLT_MAX` stand here as the doubles they denote. -/
def sdoValueInRange (dt : EcatDataType) (v : Double) : Bool :=
  match v with
  | .infinite _ => false
  | .nan => false
  | .finite q =>
      match dt with
      | .bool => q == 0 || q == 1
      | .int8 => -2 ^ 7 ≤ q && q ≤ 2 ^ 7 - 1
      | .uint8 => 0 ≤ q && q ≤ 2 ^ 8 - 1
      | .int16 => -2 ^ 15 ≤ q && q ≤ 2 ^ 15 - 1
      | .uint16 => 0 ≤ q && q ≤ 2 ^ 16 - 1
      | .int32 => -2 ^ 31 ≤ q && q ≤ 2 ^ 31 - 1
      | .uint32 => 0 ≤ q && q ≤ 2 ^ 32 - 1
      -- 9.223372036854776e18 is 2^63, 1.844674407370955e19 the last double below 2^64
      | .int64 => -2 ^ 63 ≤ q && q ≤ 2 ^ 63
      | .uint64 => 0 ≤ q && q ≤ 2 ^ 64 - 2 ^ 11
      | .real32 => -((2 ^ 24 - 1) * 2 ^ 104) ≤ q && q ≤ (2 ^ 24 - 1) * 2 ^ 104
      | .real64 => true
      | .unknown => false
      | .pad => false
      | .bytestring => false

def upperHexDigit (v : Nat) : UInt8 := UInt8.ofNat (if v < 10 then 48 + v else 55 + v)

/-- `snprintf` with `0x%04X` of a value of at most 16 bits. -/
def formatIndex (v : Nat) : Text :=
  text "0x" ++ [upperHexDigit (v / 4096 % 16), upperHexDigit (v / 256 % 16),
    upperHexDigit (v / 16 % 16), upperHexDigit (v % 16)]

/-- The loop over the pairs behind the prefix. -/
def hexPairs : Text → Option (List UInt8)
  | [] => some []
  | [_] => none
  | a :: b :: rest =>
      if isXDigit a && isXDigit b then
        (hexPairs rest).map (UInt8.ofNat (strtoul 16 [a, b]).1 :: ·)
      else none

def valueBytesOfText (alloc : Alloc) (s : Text) : Parsed (List UInt8) :=
  match s with
  | 48 :: mark :: digits =>
      if isHexMark mark then do
        require (digits.length ≠ 0 ∧ digits.length % 2 = 0) .invalid
        require (alloc []) .memory
        match hexPairs digits with
        | none => .error .invalid
        | some bytes => .ok bytes
      else do
        require (alloc []) .memory
        return s
  | _ => do
      require (alloc []) .memory
      return s

def parseSdoIndex (json : Json) : Parsed Nat :=
  match getString? json "index" with
  | none => .error .missing
  | some s => do
      require (s ≠ []) .missing
      let (idx, rest) := strtoul 0 s
      require (rest ≠ s ∧ rest = [] ∧ idx ≠ 0 ∧ idx ≤ 0xFFFF) .invalid
      return idx

def parseSdoSubindex (json : Json) : Parsed UInt8 :=
  match json.item? "subindex" with
  | none => .ok 0
  | some (.number valueint _) => do
      require (0 ≤ valueint ∧ valueint ≤ 255) .invalid
      return UInt8.ofInt valueint
  | some _ => .error .invalid

def parseSdo (libc : LibC) (alloc : Alloc) (json : Json) : Parsed EcatSdoConfig := do
  let idx ← parseSdoIndex json
  let subindex ← parseSdoSubindex json
  let parsedType := ecatParseDataType (getString json "data_type" "")
  let vbytes := getString? json "value_bytes"
  require (parsedType ≠ .unknown ∧ parsedType ≠ .pad) .invalid
  require (vbytes.isNone || parsedType = .bytestring) .invalid
  require (parsedType ≠ .bytestring || vbytes.isSome) .invalid
  let (value, valueBytes) ← match vbytes with
    | some s => do
        let bytes ← valueBytesOfText alloc s
        pure (Double.finite 0, some bytes)
    | none => do
        let value := getNumericValue libc json "value" (.finite 0)
        require (sdoValueInRange parsedType value) .invalid
        pure (value, none)
  return {
    index := formatIndex idx
    subindex := subindex
    value := value
    valueBytes := valueBytes
    parsedType := parsedType
    completeAccess := getBool json "complete_access" false
    name := safeStrcpy (getString json "name" "") ecatMaxNameLen }

/-! ## The other lists of a slave -/

def parseChannel (json : Json) : EcatChannel where
  index := getInt json "index" 0
  name := safeStrcpy (getString json "name" "") ecatMaxNameLen
  type := safeStrcpy (getString json "type" "") 20
  bitLength := UInt8.ofInt (getInt json "bit_length" 0)
  pdoIndex := safeStrcpy (getString json "pdo_index" "") indexFieldSize
  pdoEntryIndex := safeStrcpy (getString json "pdo_entry_index" "") indexFieldSize
  pdoEntrySubindex := UInt8.ofInt (getInt json "pdo_entry_subindex" 0)

def parseMandatoryPdo (json : Json) : Parsed Text :=
  match json.valuestring?.bind parseHexU32 with
  | some idx => if idx ≤ 0xFFFF then .ok (formatIndex idx.toNat) else .error .invalid
  | none => .error .invalid

/-- The one list that is refused where it is no array. -/
def parseMandatoryPdos (alloc : Alloc) (slaveJson : Json) : Parsed (List Text) :=
  match slaveJson.item? "mandatory_pdos" with
  | none => .ok []
  | some (.array items) => parseArray alloc items fun _ => parseMandatoryPdo
  | some _ => .error .invalid

def parseModuleClass (json : Json) : Parsed Text :=
  match json.valuestring? with
  | some s => .ok (safeStrcpy s ecatMaxNameLen)
  | none => .error .invalid

def parseModuleIdent (json : Json) : Parsed UInt32 :=
  match json.valuestring?.bind parseHexU32 with
  | some ident => .ok ident
  | none => .error .invalid

def parseSlotDef (alloc : Alloc) (json : Json) : Parsed EcatSlotDef := do
  let minInstances := getInt json "min_instances" 0
  let maxInstances := getInt json "max_instances" 0
  require (0 ≤ minInstances ∧ 1 ≤ maxInstances ∧ minInstances ≤ maxInstances) .invalid
  let classes ← parseArray (alloc.under 0) (json.items "module_classes") fun _ => parseModuleClass
  let idents ← parseArray (alloc.under 1) (json.items "module_idents") fun _ => parseModuleIdent
  return ⟨minInstances, maxInstances, classes, idents⟩

def parseModule (json : Json) : Parsed EcatModule := do
  let slot := getInt json "slot" 0
  require (1 ≤ slot) .invalid
  match getHexU32 json "ident" 0xFFFFFFFF with
  | none => .error .invalid
  | some ident =>
      return ⟨slot, ident, safeStrcpy (getString json "class" "") ecatMaxNameLen⟩

def parseModular (alloc : Alloc) (json? : Option Json) : Parsed EcatModular :=
  match json? with
  | none => .ok ⟨false, 0, [], []⟩
  | some (.object members) => do
      let json := Json.object members
      let increment := getInt json "slot_index_increment" 0
      require (0 ≤ increment ∧ increment ≤ 0x0FFF) .invalid
      let slots ← parseArray (alloc.under 0) (json.items "slots") parseSlotDef
      let modules ← parseArray (alloc.under 1) (json.items "modules") fun _ => parseModule
      return ⟨true, increment, slots, modules⟩
  | some _ => .error .invalid

/-! ## The settings of a slave -/

def positiveOr (value default : Int) : Int := if 0 < value then value else default

def parseStartupChecks (cfg : Json) : EcatStartupChecks :=
  match cfg.section? "startup_checks" with
  | none => ⟨true, true⟩
  | some sc => ⟨getBool sc "check_vendor_id" true, getBool sc "check_product_code" true⟩

def parseAddressing (cfg : Json) : UInt16 :=
  match cfg.section? "addressing" with
  | none => 0
  | some addr => UInt16.ofInt (getInt addr "ethercat_address" 0)

def parseTimeouts (cfg : Json) : EcatTimeouts :=
  match cfg.section? "timeouts" with
  | none => ⟨1000, 3000, 10000⟩
  | some limits =>
      ⟨positiveOr (getInt limits "sdo_timeout_ms" 1000) 1000,
        positiveOr (getInt limits "init_to_preop_timeout_ms" 3000) 3000,
        positiveOr (getInt limits "safeop_to_op_timeout_ms" 10000) 10000⟩

def parseWatchdog (cfg : Json) : EcatWatchdog :=
  match cfg.section? "watchdog" with
  | none => ⟨true, 100, false, 100⟩
  | some wd =>
      ⟨getBool wd "sm_watchdog_enabled" true, positiveOr (getInt wd "sm_watchdog_ms" 100) 100,
        getBool wd "pdi_watchdog_enabled" false, positiveOr (getInt wd "pdi_watchdog_ms" 100) 100⟩

def parseDistributedClocks (cfg : Json) : EcatDcConfig :=
  match cfg.section? "distributed_clocks" with
  | none => ⟨false, 0, false, 0, 0, false, 0, 0⟩
  | some dc =>
      ⟨getBool dc "enabled" false, getInt dc "sync_unit_cycle_us" 0,
        getBool dc "sync0_enabled" false, getInt dc "sync0_cycle_us" 0,
        getInt dc "sync0_shift_us" 0, getBool dc "sync1_enabled" false,
        getInt dc "sync1_cycle_us" 0, getInt dc "sync1_shift_us" 0⟩

/-! ## Slaves -/

def parseHexField (json : Json) (key : String) : Parsed UInt32 :=
  match getHexU32 json key 0xFFFFFFFF with
  | some v => .ok v
  | none => .error .invalid

def parseRevision (json : Json) : Parsed UInt32 :=
  match json.item? "revision" with
  | none => .ok 0
  | some _ => parseHexField json "revision"

def parseSlave (libc : LibC) (alloc : Alloc) (json : Json) : Parsed EcatSlave := do
  let vendorId ← parseHexField json "vendor_id"
  let productCode ← parseHexField json "product_code"
  let revision ← parseRevision json
  let channels ← parseArray (alloc.under 0) (json.items "channels") fun _ channel =>
    .ok (parseChannel channel)
  let sdoConfigs ← parseArray (alloc.under 1) (json.items "sdo_configurations") (parseSdo libc)
  let rxPdos ← parsePdoArray (alloc.under 2) (json.items "rx_pdos")
  let txPdos ← parsePdoArray (alloc.under 3) (json.items "tx_pdos")
  let mandatoryPdos ← parseMandatoryPdos (alloc.under 4) json
  let modular ← parseModular (alloc.under 5) (json.item? "modular")
  -- an absent "config" object gives the defaults, as an empty one does
  let cfg := (json.section? "config").getD (.object [])
  return {
    position := getInt json "position" 0
    name := safeStrcpy (getString json "name" "") ecatMaxNameLen
    type := safeStrcpy (getString json "type" "coupler") 20
    vendorId := vendorId
    productCode := productCode
    revision := revision
    channels := channels
    sdoConfigs := sdoConfigs
    rxPdos := rxPdos
    txPdos := txPdos
    startupChecks := parseStartupChecks cfg
    ethercatAddress := parseAddressing cfg
    timeouts := parseTimeouts cfg
    watchdog := parseWatchdog cfg
    dc := parseDistributedClocks cfg
    strictSdo := getBool cfg "strict_sdo" true
    mandatoryPdos := mandatoryPdos
    modular := modular }

/-- The slaves parsed so far stay in the configuration when one is refused. -/
def parseSlavesSection (libc : LibC) (alloc : Alloc) (slaves : Option Json) (config : EcatConfig) :
    EcatConfig × Option ConfigError :=
  match slaves with
  | some (.array (first :: rest)) =>
      if alloc [] = false then (config, some .memory)
      else
        let (parsed, failure) :=
          prefixUntil (fun i => parseSlave libc (alloc.under i)) 0 (first :: rest)
        ({ config with slaves := some parsed }, failure)
  | _ => (config, none)

/-! ## Master and diagnostics -/

def parseMasterSection (master : Option Json) (config : EcatMasterConfig) : EcatMasterConfig :=
  match master with
  | none => { config with safeClose := true }
  | some json =>
      { interface := safeStrcpy (getString json "interface" "eth0") ecatIfnameMax
        cycleTimeUs := getInt json "cycle_time_us" 1000
        receiveTimeoutUs := getInt json "receive_timeout_us" 2000
        watchdogTimeoutCycles := getInt json "watchdog_timeout_cycles" 3
        logLevel := safeStrcpy (getString json "log_level" "info") 8
        taskPriority := getInt json "task_priority" 90
        safeClose := getBool json "safe_close" true }

def parseDiagnosticsSection (diag : Option Json) (config : EcatDiagnosticsConfig) :
    EcatDiagnosticsConfig :=
  match diag with
  | none => config
  | some json =>
      { logConnections := getBool json "log_connections" true
        logDataAccess := getBool json "log_data_access" false
        logErrors := getBool json "log_errors" true
        maxLogEntries := getInt json "max_log_entries" 10000
        statusUpdateIntervalMs := getInt json "status_update_interval_ms" 500 }

end EtherDog
