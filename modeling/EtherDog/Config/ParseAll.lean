import EtherDog.Config.Validate

/-!
# Parsing the masters of a file (src/config.c)

`ecat_config_parse_all` fills an array of instances the caller owns.  Of an
instance the parser writes its name and its configuration, so only these are
kept.  Entries that are no EtherCAT masters are passed over; the others are
parsed into the instances in order, and each exit cleans up in its own way.
-/

set_option autoImplicit false

namespace EtherDog

open CString Checked

structure ParsedInstance where
  name : Text
  config : EcatConfig
  deriving DecidableEq, Repr

/-- What reading the file and `cJSON_Parse` give. -/
inductive ConfigFile where
  | unreadable
  | malformed
  | document (root : Json)

/-- The returned code (`none` is OK), `*out_count` and the caller's instances. -/
structure ParseOutcome where
  failure : Option ConfigError
  count : Nat
  instances : List ParsedInstance
  deriving DecidableEq, Repr

def parseSections (libc : LibC) (alloc : Alloc) (configObj : Json) :
    EcatConfig × Option ConfigError :=
  let defaults := ecatConfigInitDefaults
  let master := parseMasterSection (configObj.item? "master") defaults.master
  match parseSlavesSection libc alloc (configObj.item? "slaves") { defaults with master := master } with
  | (config, some failure) => (config, some failure)
  | (config, none) =>
      let complete := { config with
        diagnostics := parseDiagnosticsSection (configObj.item? "diagnostics") config.diagnostics }
      match ecatConfigValidate complete with
      | .error failure => (complete, some failure)
      | .ok () => (complete, none)

def instanceName (entry : Json) : Text :=
  safeStrcpy (getString entry "name" "master") ecatMaxNameLen

def destroyConfig (inst : ParsedInstance) : ParsedInstance :=
  { inst with config := ecatConfigDestroy inst.config }

/-- `ecat_config_destroy` on the first `count` instances. -/
def destroyFirst (count : Nat) (instances : List ParsedInstance) : List ParsedInstance :=
  (instances.take count).map destroyConfig ++ instances.drop count

/-- The fallback for a root that is no array. -/
def parseBare (libc : LibC) (alloc : Alloc) (root : Json) (instances : List ParsedInstance) :
    ParseOutcome :=
  let configObj := (root.item? "config").getD root
  let (config, failure) := parseSections libc alloc configObj
  let filled := instances.set 0 ⟨instanceName root, config⟩
  match failure with
  | some failure => ⟨some failure, 0, destroyFirst 1 filled⟩
  | none => ⟨none, 1, filled⟩

def masterConfig? (entry : Json) : Option Json :=
  if strcasecmpLocal (getString entry "protocol" "") (text "ETHERCAT") ≠ 0 then none
  else entry.item? "config"

def sharesInterface : List ParsedInstance → Bool
  | [] => false
  | inst :: rest =>
      rest.any (fun other => inst.config.master.interface == other.config.master.interface) ||
        sharesInterface rest

/-- What follows the loop over the entries. -/
def finishParse (instances : List ParsedInstance) (count : Nat) : ParseOutcome :=
  if sharesInterface (instances.take count) then
    ⟨some .invalid, 0, destroyFirst count instances⟩
  else ⟨if 0 < count then none else some .missing, count, instances⟩

def parseEntries (libc : LibC) (alloc : Alloc) (maxMasters : Nat) :
    Nat → List Json → List ParsedInstance → Nat → ParseOutcome
  | _, [], instances, count => finishParse instances count
  | i, entry :: rest, instances, count =>
      match masterConfig? entry with
      | none => parseEntries libc alloc maxMasters (i + 1) rest instances count
      | some configObj =>
          -- this exit keeps the masters parsed so far
          if maxMasters ≤ count then ⟨some .invalid, 0, instances⟩
          else
            let (config, failure) := parseSections libc (alloc.under i) configObj
            let filled := instances.set count ⟨instanceName entry, config⟩
            match failure with
            | some failure => ⟨some failure, 0, destroyFirst (count + 1) filled⟩
            | none => parseEntries libc alloc maxMasters (i + 1) rest filled (count + 1)

def ecatConfigParseAll (libc : LibC) (alloc : Alloc) (file : ConfigFile)
    (instances : List ParsedInstance) (maxMasters : Nat) : ParseOutcome :=
  match file with
  | .unreadable => ⟨some .file, 0, instances⟩
  | .malformed => ⟨some .parse, 0, instances⟩
  | .document (.array entries) => parseEntries libc alloc maxMasters 0 entries instances 0
  | .document root => parseBare libc alloc root instances

/-! ## The loop over the masters -/

structure MasterEntry where
  index : Nat
  entry : Json
  configObj : Json

/-- The entries the loop does not pass over. -/
def masterEntries (i : Nat) : List Json → List MasterEntry
  | [] => []
  | entry :: rest =>
      match masterConfig? entry with
      | none => masterEntries (i + 1) rest
      | some configObj => ⟨i, entry, configObj⟩ :: masterEntries (i + 1) rest

section Loop
variable (libc : LibC) (alloc : Alloc)

def parseMaster (master : MasterEntry) : ParsedInstance × Option ConfigError :=
  let (config, failure) := parseSections libc (alloc.under master.index) master.configObj
  (⟨instanceName master.entry, config⟩, failure)

/-- The configuration of the master parses and validates. -/
def masterAccepted (master : MasterEntry) : Bool := (parseMaster libc alloc master).2.isNone

/-- The loop over the entries that are masters. -/
def parseMasters (maxMasters : Nat) :
    List MasterEntry → List ParsedInstance → Nat → ParseOutcome
  | [], instances, count => finishParse instances count
  | master :: rest, instances, count =>
      if maxMasters ≤ count then ⟨some .invalid, 0, instances⟩
      else
        match parseMaster libc alloc master with
        | (inst, some failure) =>
            ⟨some failure, 0, destroyFirst (count + 1) (instances.set count inst)⟩
        | (inst, none) => parseMasters maxMasters rest (instances.set count inst) (count + 1)

theorem parseEntries_eq (maxMasters i : Nat) (entries : List Json)
    (instances : List ParsedInstance) (count : Nat) :
    parseEntries libc alloc maxMasters i entries instances count =
      parseMasters libc alloc maxMasters (masterEntries i entries) instances count := by
  induction entries generalizing i instances count with
  | nil => rfl
  | cons entry rest ih =>
      rw [parseEntries, masterEntries]
      cases masterConfig? entry with
      | none => exact ih (i + 1) instances count
      | some configObj =>
          dsimp only
          rw [parseMasters]
          split
          · rfl
          · cases sections : parseSections libc (alloc.under i) configObj with
            | mk config failure =>
            cases failure with
            | some failure => simp only [parseMaster, sections]
            | none =>
                simp only [parseMaster, sections]
                exact ih (i + 1) _ (count + 1)

theorem destroyFirst_append (front back : List ParsedInstance) :
    destroyFirst front.length (front ++ back) = front.map destroyConfig ++ back := by
  simp [destroyFirst]

/-- How the loop ends: every master is accepted and fits, one is refused, or the
instances run out.  `done` are filled, `free` are not. -/
theorem parseMasters_cases (maxMasters : Nat) (masters : List MasterEntry)
    (done free : List ParsedInstance) (size : done.length + free.length = maxMasters) :
    (masters.all (masterAccepted libc alloc) = true ∧ masters.length ≤ free.length ∧
      parseMasters libc alloc maxMasters masters (done ++ free) done.length =
        finishParse (done ++ masters.map (fun m => (parseMaster libc alloc m).1) ++
          free.drop masters.length) (done.length + masters.length)) ∨
    ((masters.take free.length).all (masterAccepted libc alloc) = false ∧
      ∃ failure filled, filled.length ≤ free.length ∧
        parseMasters libc alloc maxMasters masters (done ++ free) done.length =
          ⟨some failure, 0, (done ++ filled).map destroyConfig ++ free.drop filled.length⟩) ∨
    ((masters.take free.length).all (masterAccepted libc alloc) = true ∧
      free.length < masters.length ∧
      parseMasters libc alloc maxMasters masters (done ++ free) done.length =
        ⟨some .invalid, 0, done ++
          (masters.take free.length).map fun m => (parseMaster libc alloc m).1⟩) := by
  induction masters generalizing done free with
  | nil => simp [parseMasters]
  | cons master rest ih =>
      cases free with
      | nil =>
          right; right
          simp only [List.length_nil, Nat.add_zero] at size
          simp [parseMasters, size]
      | cons slot others =>
          simp only [List.length_cons] at size
          have room : ¬ maxMasters ≤ done.length := by omega
          cases parsed : parseMaster libc alloc master with
          | mk inst failure =>
          have filled : (done ++ slot :: others).set done.length inst = (done ++ [inst]) ++ others := by
            simp
          cases failure with
          | some failure =>
              right; left
              refine ⟨by simp [masterAccepted, parsed], failure, [inst], by simp, ?_⟩
              rw [parseMasters, if_neg room, parsed]
              dsimp only
              rw [filled, ← destroyFirst_append]
              simp
          | none =>
              have accepted : masterAccepted libc alloc master = true := by
                simp [masterAccepted, parsed]
              have turn : parseMasters libc alloc maxMasters (master :: rest)
                  (done ++ slot :: others) done.length =
                  parseMasters libc alloc maxMasters rest ((done ++ [inst]) ++ others)
                    (done ++ [inst]).length := by
                rw [parseMasters, if_neg room, parsed]
                dsimp only
                rw [filled]
                simp
              rw [turn]
              rcases ih (done ++ [inst]) others (by simp; omega) with
                ⟨all, few, outcome⟩ | ⟨one, failure, later, short, outcome⟩ | ⟨all, many, outcome⟩
              · left
                refine ⟨by simp [accepted, all], by simpa using few, ?_⟩
                rw [outcome]
                simp [parsed, Nat.add_comm, Nat.add_left_comm]
              · right; left
                refine ⟨by simpa [accepted] using one, failure, inst :: later, by simpa using short, ?_⟩
                rw [outcome]
                simp
              · right; right
                refine ⟨by simpa [accepted] using all, by simpa using many, ?_⟩
                rw [outcome]
                simp [parsed]

end Loop

/-! ## What a refusal leaves behind -/

def OwnsNothing (inst : ParsedInstance) : Prop :=
  inst.config.slaves = none ∧ inst.config.slaveCount = 0

instance (inst : ParsedInstance) : Decidable (OwnsNothing inst) :=
  inferInstanceAs (Decidable (_ ∧ _))

theorem ownsNothing_iff (inst : ParsedInstance) : OwnsNothing inst ↔ inst.config.slaves = none := by
  constructor
  · exact And.left
  · intro released
    exact ⟨released, by simp [EcatConfig.slaveCount, EcatConfig.slaveList, released]⟩

theorem destroyConfig_ownsNothing (inst : ParsedInstance) : OwnsNothing (destroyConfig inst) :=
  (ownsNothing_iff _).mpr rfl

/-- `*out_count` is 0 and no instance owns anything. -/
def LeavesNothing (maxMasters : Nat) (outcome : ParseOutcome) : Prop :=
  outcome.count = 0 ∧ outcome.instances.length = maxMasters ∧
    ∀ inst ∈ outcome.instances, OwnsNothing inst

instance (maxMasters : Nat) (outcome : ParseOutcome) :
    Decidable (LeavesNothing maxMasters outcome) :=
  inferInstanceAs (Decidable (_ ∧ _ ∧ _))

theorem parseSlavesSection_slaves {libc : LibC} {alloc : Alloc} {configObj : Json}
    {config parsed : EcatConfig} (before : config.slaves = none)
    (success : parseSlavesSection libc alloc (configObj.item? "slaves") config = (parsed, none)) :
    (parsed.slaves = none ↔ configObj.items "slaves" = []) ∧
      List.Forall₂ (fun json slave => ∃ alloc, parseSlave libc alloc json = .ok slave)
        (configObj.items "slaves") parsed.slaveList ∧
      parsed = { config with slaves := parsed.slaves } := by
  unfold parseSlavesSection at success
  split at success
  · rename_i first rest found
    have items : configObj.items "slaves" = first :: rest := by simp [Json.items, found]
    split at success
    · simp at success
    · dsimp only at success
      rw [Prod.mk.injEq] at success
      obtain ⟨rfl, finished⟩ := success
      refine ⟨by simp [items], ?_, rfl⟩
      have each := prefixUntil_complete (Prod.ext rfl finished)
      rw [items]
      exact forall₂_of_exists each fun k _ _ parsed => ⟨alloc.under k, parsed⟩
  · rename_i noSlaves
    rw [Prod.mk.injEq] at success
    obtain ⟨rfl, _⟩ := success
    have empty : configObj.items "slaves" = [] := by
      unfold Json.items
      split
      · rename_i items found
        cases items with
        | nil => rfl
        | cons first rest => exact absurd found (noSlaves first rest)
      · rfl
    rw [empty]
    refine ⟨by simp [before], ?_, rfl⟩
    simp [EcatConfig.slaveList, before]

theorem parseSections_accepted {libc : LibC} {alloc : Alloc} {configObj : Json}
    {config : EcatConfig} (accepted : parseSections libc alloc configObj = (config, none)) :
    (config.slaves = none ↔ configObj.items "slaves" = []) ∧
      List.Forall₂ (fun json slave => ∃ alloc, parseSlave libc alloc json = .ok slave)
        (configObj.items "slaves") config.slaveList ∧
      config.master = parseMasterSection (configObj.item? "master") ecatConfigInitDefaults.master ∧
      ecatConfigValidate config = .ok () := by
  unfold parseSections at accepted
  dsimp only at accepted
  split at accepted
  · simp at accepted
  · rename_i parsed sections
    obtain ⟨released, slaves, rest⟩ := parseSlavesSection_slaves rfl sections
    split at accepted
    · simp at accepted
    · rename_i valid
      rw [Prod.mk.injEq] at accepted
      obtain ⟨rfl, _⟩ := accepted
      refine ⟨released, slaves, ?_, valid⟩
      rw [rest]

theorem masterAccepted_released {libc : LibC} {alloc : Alloc} {master : MasterEntry}
    (accepted : masterAccepted libc alloc master = true) :
    OwnsNothing (parseMaster libc alloc master).1 ↔ master.configObj.items "slaves" = [] := by
  rw [ownsNothing_iff]
  simp only [masterAccepted, parseMaster, Option.isNone_iff_eq_none] at accepted ⊢
  exact (parseSections_accepted (Prod.ext rfl accepted)).1

/-- More masters than instances, of which the ones that fit are all accepted and
one has slaves. -/
def OverflowsWithSlaves (libc : LibC) (alloc : Alloc) (maxMasters : Nat) : ConfigFile → Prop
  | .document (.array entries) =>
      maxMasters < (masterEntries 0 entries).length ∧
        ((masterEntries 0 entries).take maxMasters).all (masterAccepted libc alloc) = true ∧
        ∃ master ∈ (masterEntries 0 entries).take maxMasters,
          master.configObj.items "slaves" ≠ []
  | _ => False

section Refusal
variable {libc : LibC} {alloc : Alloc} {maxMasters : Nat} {instances : List ParsedInstance}

theorem mem_drop_ownsNothing (empty : ∀ inst ∈ instances, OwnsNothing inst) (count : Nat) :
    ∀ inst ∈ instances.drop count, OwnsNothing inst :=
  fun inst member => empty inst (List.mem_of_mem_drop member)

theorem map_destroyConfig_ownsNothing (front : List ParsedInstance) :
    ∀ inst ∈ front.map destroyConfig, OwnsNothing inst := by
  intro inst member
  obtain ⟨before, _, rfl⟩ := List.mem_map.mp member
  exact destroyConfig_ownsNothing before

/-- The end of the loop refuses only with everything released. -/
theorem finishParse_refusal {front back : List ParsedInstance}
    (size : front.length + back.length = maxMasters)
    (empty : ∀ inst ∈ back, OwnsNothing inst)
    (refused : (finishParse (front ++ back) front.length).failure ≠ none) :
    LeavesNothing maxMasters (finishParse (front ++ back) front.length) := by
  unfold finishParse at refused ⊢
  split
  · rw [destroyFirst_append]
    refine ⟨rfl, by simpa using size, ?_⟩
    intro inst member
    rcases List.mem_append.mp member with destroyed | untouched
    · exact map_destroyConfig_ownsNothing front inst destroyed
    · exact empty inst untouched
  · rename_i apart
    rw [if_neg apart] at refused
    have unfilled : front = [] := by
      by_contra nonempty
      have positive : 0 < front.length := List.length_pos_iff.mpr nonempty
      simp [positive] at refused
    subst unfilled
    exact ⟨rfl, by simpa using size, by simpa using empty⟩

theorem parseBare_refusal (root : Json) (size : instances.length = maxMasters)
    (positive : 1 ≤ maxMasters) (empty : ∀ inst ∈ instances, OwnsNothing inst)
    (refused : (parseBare libc alloc root instances).failure ≠ none) :
    LeavesNothing maxMasters (parseBare libc alloc root instances) := by
  cases instances with
  | nil =>
      simp only [List.length_nil] at size
      omega
  | cons first rest =>
      unfold parseBare at refused ⊢
      dsimp only at refused ⊢
      split
      · refine ⟨rfl, by simpa [destroyFirst] using size, ?_⟩
        intro inst member
        simp only [destroyFirst, List.set_cons_zero, List.take_succ_cons, List.take_zero,
          List.map_cons, List.map_nil, List.drop_succ_cons, List.drop_zero, List.cons_append,
          List.nil_append, List.mem_cons] at member
        rcases member with rfl | later
        · exact destroyConfig_ownsNothing _
        · exact empty inst (List.mem_cons_of_mem _ later)
      · rename_i accepted
        rw [accepted] at refused
        simp at refused

theorem parseEntries_refusal (entries : List Json) (size : instances.length = maxMasters)
    (empty : ∀ inst ∈ instances, OwnsNothing inst)
    (refused : (parseEntries libc alloc maxMasters 0 entries instances 0).failure ≠ none) :
    LeavesNothing maxMasters (parseEntries libc alloc maxMasters 0 entries instances 0) ↔
      ¬ OverflowsWithSlaves libc alloc maxMasters (.document (.array entries)) := by
  rw [parseEntries_eq] at refused ⊢
  unfold OverflowsWithSlaves
  have ends := parseMasters_cases libc alloc maxMasters (masterEntries 0 entries) [] instances
    (by simpa using size)
  simp only [List.nil_append, List.length_nil, Nat.zero_add, size] at ends
  rcases ends with
    ⟨_, few, outcome⟩ | ⟨one, failure, filled, short, outcome⟩ | ⟨all, many, outcome⟩
  · have counted : (masterEntries 0 entries).length =
        ((masterEntries 0 entries).map fun m => (parseMaster libc alloc m).1).length := by simp
    rw [outcome, counted] at refused ⊢
    have left : LeavesNothing maxMasters _ :=
      finishParse_refusal (by simp; omega) (mem_drop_ownsNothing empty _) refused
    simp only [left, true_iff, not_and]
    intro more
    omega
  · rw [outcome]
    have left : LeavesNothing maxMasters
        ⟨some failure, 0, filled.map destroyConfig ++ instances.drop filled.length⟩ := by
      refine ⟨rfl, by simp; omega, ?_⟩
      intro inst member
      rcases List.mem_append.mp member with destroyed | untouched
      · exact map_destroyConfig_ownsNothing filled inst destroyed
      · exact mem_drop_ownsNothing empty _ inst untouched
    simp only [left, true_iff, not_and]
    intro _ all
    simp [all] at one
  · rw [outcome]
    have accepted (master : MasterEntry)
        (member : master ∈ (masterEntries 0 entries).take maxMasters) :
        OwnsNothing (parseMaster libc alloc master).1 ↔ master.configObj.items "slaves" = [] :=
      masterAccepted_released (List.all_eq_true.mp all master member)
    simp only [many, all, true_and, not_exists, not_and, not_not]
    constructor
    · rintro ⟨_, _, released⟩ master member
      exact (accepted master member).mp (released _ (List.mem_map_of_mem member))
    · intro slaveless
      refine ⟨rfl, by simp; omega, ?_⟩
      intro inst member
      obtain ⟨master, among, rfl⟩ := List.mem_map.mp member
      exact (accepted master among).mpr (slaveless master among)

end Refusal

/-- A refusal leaves nothing behind, except where the masters that fit are all
accepted and one more follows: that exit frees none of them. -/
theorem refused_config_leaves_nothing_iff (libc : LibC) (alloc : Alloc) (file : ConfigFile)
    (instances : List ParsedInstance) (maxMasters : Nat) (positive : 1 ≤ maxMasters)
    (size : instances.length = maxMasters) (empty : ∀ inst ∈ instances, OwnsNothing inst)
    (refused : (ecatConfigParseAll libc alloc file instances maxMasters).failure ≠ none) :
    LeavesNothing maxMasters (ecatConfigParseAll libc alloc file instances maxMasters) ↔
      ¬ OverflowsWithSlaves libc alloc maxMasters file := by
  have untouched (failure : ConfigError) :
      LeavesNothing maxMasters ⟨some failure, 0, instances⟩ := ⟨rfl, size, empty⟩
  cases file with
  | unreadable => simpa [ecatConfigParseAll, OverflowsWithSlaves] using untouched .file
  | malformed => simpa [ecatConfigParseAll, OverflowsWithSlaves] using untouched .parse
  | document root =>
      cases root with
      | array entries => exact parseEntries_refusal entries size empty refused
      | null | bool _ | number _ _ | string _ | object _ =>
          simpa [ecatConfigParseAll, OverflowsWithSlaves] using
            parseBare_refusal _ size positive empty refused

/-! ## Five masters for four instances -/

/-- Only JSON numbers and hex texts are read in these documents. -/
def noLibC : LibC := ⟨fun s => (.finite 0, s), fun v => .finite v⟩

def jsonText (s : String) : Json := .string (text s)

def jsonObject (members : List (String × Json)) : Json :=
  .object (members.map fun m => (text m.1, m.2))

def jsonInt (v : Int) : Json := .number v (.finite v)

/-- One slave with the given further members. -/
def fakeSlaveJson (members : List (String × Json)) : Json :=
  jsonObject ([("position", jsonInt 1), ("vendor_id", jsonText "0x00000002"),
    ("product_code", jsonText "0x0A553052")] ++ members)

def fakeEntryJson (interface : String) (slaves : List Json) : Json :=
  jsonObject [("protocol", jsonText "ETHERCAT"), ("config", jsonObject
    [("master", jsonObject [("interface", jsonText interface)]), ("slaves", .array slaves)])]

def emptyInstance : ParsedInstance :=
  ⟨[], ⟨⟨[], 0, 0, 0, [], 0, false⟩, none, ⟨false, false, false, 0, 0⟩⟩⟩

def fiveMasters : ConfigFile :=
  .document (.array (["eth0", "eth1", "eth2", "eth3", "eth4"].map fun interface =>
    fakeEntryJson interface [fakeSlaveJson []]))

/-- The masters in excess are refused and the four parsed ones are kept. -/
theorem five_masters_leave_slaves :
    ¬ ∀ (libc : LibC) (alloc : Alloc) (file : ConfigFile) (instances : List ParsedInstance)
        (maxMasters : Nat), 1 ≤ maxMasters → instances.length = maxMasters →
        (∀ inst ∈ instances, OwnsNothing inst) →
        (ecatConfigParseAll libc alloc file instances maxMasters).failure ≠ none →
        LeavesNothing maxMasters (ecatConfigParseAll libc alloc file instances maxMasters) := by
  intro always
  have left := always noLibC (fun _ => true) fiveMasters (List.replicate 4 emptyInstance) 4
    (by decide) rfl (by decide) (by decide)
  revert left
  decide

/-- A document whose one master has no vendor id leaves nothing behind. -/
theorem refused_config_leaves_nothing_one :
    LeavesNothing 4 (ecatConfigParseAll noLibC (fun _ => true)
      (.document (.array [fakeEntryJson "eth0" [jsonObject [("position", jsonInt 1)]]]))
      (List.replicate 4 emptyInstance) 4) := by
  apply (refused_config_leaves_nothing_iff noLibC (fun _ => true) _ _ 4 (by decide) rfl (by decide)
    (by decide)).mpr
  rintro ⟨many, _⟩
  revert many
  decide

end EtherDog
