import EtherDog.Config.Complete

/-!
# The parser of one configuration (src/config.c)

`ecat_config_parse` is the entry point of most parser tests; the server itself
calls `ecat_config_parse_all`.  Each looks for the configuration in the root in
its own way.  Both find it in the first element of an array and in an object,
but only the production parser also takes a root that is neither.
-/

set_option autoImplicit false

namespace EtherDog

open CString Checked

/-- The returned code (`none` is OK) and the caller's configuration. -/
structure SingleOutcome where
  failure : Option ConfigError
  config : EcatConfig
  deriving DecidableEq, Repr

/-- The object the sections are read from. -/
def singleConfig? (root : Json) : Option Json :=
  match root with
  | .array (first :: _) => first.item? "config"
  | .object members =>
      -- the root itself might be the configuration
      some (((Json.object members).item? "config").getD (.object members))
  | _ => none

def Alloc.ofRoot (alloc : Alloc) (root : Json) : Alloc :=
  match root with
  | .array _ => alloc.under 0
  | _ => alloc

def ecatConfigParse (libc : LibC) (alloc : Alloc) (file : ConfigFile) : SingleOutcome :=
  match file with
  | .unreadable => ⟨some .file, ecatConfigInitDefaults⟩
  | .malformed => ⟨some .parse, ecatConfigInitDefaults⟩
  | .document root =>
      match singleConfig? root with
      | none => ⟨some .parse, ecatConfigInitDefaults⟩
      | some configObj =>
          match parseSections libc (alloc.ofRoot root) configObj with
          | (config, some failure) => ⟨some failure, ecatConfigDestroy config⟩
          | (config, none) => ⟨none, config⟩

/-! ## Where the two parsers agree -/

def oneMasterRoot (root : Json) : Bool :=
  match root with
  | .array [entry] => isMasterEntry entry
  | .array _ => false
  | _ => true

def isContainer (root : Json) : Bool :=
  match root with
  | .array _ => true
  | .object _ => true
  | _ => false

/-- One code and, where it is OK, one master with one configuration. -/
def ParsersAgree (single : SingleOutcome) (all : ParseOutcome) : Prop :=
  single.failure = all.failure ∧
    (single.failure = none →
      all.count = 1 ∧ all.instances.head?.map ParsedInstance.config = some single.config)

instance (single : SingleOutcome) (all : ParseOutcome) : Decidable (ParsersAgree single all) :=
  inferInstanceAs (Decidable (_ ∧ (_ → _)))

section Agreement
variable (libc : LibC) (alloc : Alloc)

theorem parseBare_agrees {root configObj : Json} {first : ParsedInstance}
    {rest : List ParsedInstance} (found : (root.item? "config").getD root = configObj) :
    ParsersAgree
      (match parseSections libc alloc configObj with
        | (config, some failure) => ⟨some failure, ecatConfigDestroy config⟩
        | (config, none) => ⟨none, config⟩)
      (parseBare libc alloc root (first :: rest)) := by
  unfold parseBare
  rw [found]
  dsimp only
  obtain ⟨config, failure⟩ := parseSections libc alloc configObj
  cases failure with
  | some failure => exact ⟨rfl, by simp⟩
  | none => exact ⟨rfl, fun _ => ⟨rfl, rfl⟩⟩

/-- The loop over an array of one master, by what the sections give. -/
theorem parseEntries_agrees {entry configObj : Json} {first : ParsedInstance}
    {rest : List ParsedInstance} {maxMasters : Nat} (positive : 1 ≤ maxMasters)
    (found : masterConfig? entry = some configObj) :
    ParsersAgree
      (match parseSections libc (alloc.under 0) configObj with
        | (config, some failure) => ⟨some failure, ecatConfigDestroy config⟩
        | (config, none) => ⟨none, config⟩)
      (parseEntries libc alloc maxMasters 0 [entry] (first :: rest) 0) := by
  have room : ¬ maxMasters ≤ 0 := by omega
  rw [parseEntries, found]
  dsimp only
  rw [if_neg room]
  obtain ⟨config, failure⟩ := parseSections libc (alloc.under 0) configObj
  cases failure with
  | some failure => exact ⟨rfl, by simp⟩
  | none =>
      have alone : sharesInterface ((⟨instanceName entry, config⟩ :: rest).take 1) = false := by
        simp [sharesInterface]
      dsimp only
      rw [List.set_cons_zero, parseEntries, finishParse, alone]
      exact ⟨rfl, fun _ => ⟨rfl, rfl⟩⟩

/-- A root without members is read as a configuration with every default. -/
theorem parseBare_scalar {root : Json} (bare : ∀ key, root.item? key = none)
    (instances : List ParsedInstance) : (parseBare libc alloc root instances).failure = none := by
  have sections : parseSections libc alloc root =
      ({ ecatConfigInitDefaults with
          master := parseMasterSection none ecatConfigInitDefaults.master
          diagnostics := parseDiagnosticsSection none ecatConfigInitDefaults.diagnostics },
        none) := by
    unfold parseSections
    rw [bare "master", bare "slaves", bare "diagnostics"]
    rfl
  unfold parseBare
  dsimp only
  rw [bare "config", Option.getD_none, sections]

end Agreement

/-- The two parsers agree exactly on the roots that are arrays or objects: any
other root is refused by the one and taken for an empty configuration by the other. -/
theorem parsers_agree_iff_container (libc : LibC) (alloc : Alloc) (root : Json)
    (instances : List ParsedInstance) (maxMasters : Nat) (positive : 1 ≤ maxMasters)
    (size : instances.length = maxMasters) (one : oneMasterRoot root = true) :
    ParsersAgree (ecatConfigParse libc alloc (.document root))
        (ecatConfigParseAll libc alloc (.document root) instances maxMasters) ↔
      isContainer root = true := by
  cases instances with
  | nil =>
      simp only [List.length_nil] at size
      omega
  | cons first rest =>
      have differ (scalar : Json) (bare : ∀ key, scalar.item? key = none)
          (config : EcatConfig) :
          ¬ ParsersAgree ⟨some .parse, config⟩ (parseBare libc alloc scalar (first :: rest)) := by
        rintro ⟨same, _⟩
        rw [parseBare_scalar libc alloc bare] at same
        simp at same
      cases root with
      | array entries =>
          cases entries with
          | nil => cases one
          | cons entry others =>
              cases others with
              | cons second others => cases one
              | nil =>
                  have isMaster : isMasterEntry entry = true := one
                  obtain ⟨configObj, found⟩ :=
                    Option.isSome_iff_exists.mp (Bool.and_eq_true_iff.mp isMaster).2
                  have listed : masterConfig? entry = some configObj := by
                    rw [masterConfig?_eq, if_pos isMaster, found]
                  simp only [ecatConfigParse, singleConfig?, found, ecatConfigParseAll,
                    isContainer, iff_true]
                  exact parseEntries_agrees libc alloc positive listed
      | object members =>
          simp only [ecatConfigParse, singleConfig?, ecatConfigParseAll, isContainer, iff_true]
          exact parseBare_agrees libc alloc rfl
      | null => exact iff_of_false (differ .null (fun _ => rfl) _) (by simp [isContainer])
      | bool value =>
          exact iff_of_false (differ (.bool value) (fun _ => rfl) _) (by simp [isContainer])
      | number valueint valuedouble =>
          exact iff_of_false (differ (.number valueint valuedouble) (fun _ => rfl) _)
            (by simp [isContainer])
      | string buffer =>
          exact iff_of_false (differ (.string buffer) (fun _ => rfl) _) (by simp [isContainer])

/-- A file that holds just `0`. -/
theorem number_root_parsers_differ :
    ¬ ∀ (libc : LibC) (alloc : Alloc) (root : Json) (instances : List ParsedInstance)
        (maxMasters : Nat), 1 ≤ maxMasters → instances.length = maxMasters →
        oneMasterRoot root = true →
        ParsersAgree (ecatConfigParse libc alloc (.document root))
          (ecatConfigParseAll libc alloc (.document root) instances maxMasters) := by
  intro always
  have agree := always noLibC (fun _ => true) (jsonInt 0) (List.replicate 4 emptyInstance) 4
    (by decide) rfl rfl
  revert agree
  decide

theorem parsers_agree_iff_container_one_entry :
    ParsersAgree
      (ecatConfigParse noLibC (fun _ => true)
        (.document (.array [fakeEntryJson "eth0" [fakeSlaveJson []]])))
      (ecatConfigParseAll noLibC (fun _ => true)
        (.document (.array [fakeEntryJson "eth0" [fakeSlaveJson []]]))
        (List.replicate 4 emptyInstance) 4) := by
  refine (parsers_agree_iff_container noLibC (fun _ => true) _ _ 4 (by decide) rfl ?_).mpr rfl
  decide

end EtherDog
