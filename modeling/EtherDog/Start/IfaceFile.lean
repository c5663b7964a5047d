import EtherDog.Lib.KeyFile
import EtherDog.Start.IfaceCrash

/-!
# The text of the state file (src/iface_state.c)

`persist_state` prints a line for every value that was captured, and `load_state`
tells from the keys it finds what was.  Every file step succeeds.
-/

set_option autoImplicit false

namespace EtherDog

open CString KeyFile MachineInt

def statePathSize : Nat := 512
def stateTmpSize : Nat := 520
def stateLineSize : Nat := 128

/-- The files there are, by their paths. -/
abbrev Files : Type := Text → Option (List UInt8)

def statePath (dir iface : Text) : Text :=
  snprintf statePathSize (dir ++ text "/ecat_iface_" ++ iface ++ text ".state")

def onOff (on : Bool) : Text := if on then text "on" else text "off"

def stateFileText (s : EcatIfaceState) : Text :=
  keyLine (text "iface") s.iface ++
    (if s.coalescingSaved then
      keyLine (text "rx_usecs") (decimal s.rxUsecs) ++
        keyLine (text "tx_usecs") (decimal s.txUsecs)
    else []) ++
    if s.offloadsSaved then
      keyLine (text "gro") (onOff s.gro) ++ keyLine (text "gso") (onOff s.gso) ++
        keyLine (text "tso") (onOff s.tso)
    else []

/-- `persist_state` on the files. -/
def persistStateFile (dir : Text) (files : Files) (s : EcatIfaceState) : Files :=
  let path := statePath dir s.iface
  let tmp := snprintf stateTmpSize (path ++ text ".tmp")
  let written := Function.update files tmp (some (stateFileText s))
  Function.update (Function.update written path (written tmp)) tmp none

def loadEntry (s : EcatIfaceState) (entry : Text × Text) : EcatIfaceState :=
  let (key, val) := entry
  if key = text "rx_usecs" then { s with rxUsecs := atoi val, coalescingSaved := true }
  else if key = text "tx_usecs" then { s with txUsecs := atoi val, coalescingSaved := true }
  else if key = text "gro" then { s with gro := decide (val = text "on"), offloadsSaved := true }
  else if key = text "gso" then { s with gso := decide (val = text "on"), offloadsSaved := true }
  else if key = text "tso" then { s with tso := decide (val = text "on"), offloadsSaved := true }
  else s

/-- `load_state` on the files. -/
def loadStateFile (dir iface : Text) (files : Files) : Option EcatIfaceState :=
  (files (statePath dir iface)).map fun file =>
    (readEntries stateLineSize file).foldl loadEntry (namedIfaceState iface)

/-- The command line of `restore_nic_settings` for one setting. -/
def NicSetting.argv (iface : Text) (setting : NicSetting) : List Text :=
  match setting with
  | .coalescing rxUsecs txUsecs =>
      [text "ethtool", text "-C", iface, text "rx-usecs", snprintf 16 (decimal rxUsecs),
        text "tx-usecs", snprintf 16 (decimal txUsecs)]
  | .offloads gro gso tso =>
      [text "ethtool", text "-K", iface, text "gro", onOff gro, text "gso", onOff gso,
        text "tso", onOff tso]

/-! ## The lines of the file -/

def stateEntries (s : EcatIfaceState) : List (Text × Text) :=
  (text "iface", s.iface) ::
    ((if s.coalescingSaved then
      [(text "rx_usecs", decimal s.rxUsecs), (text "tx_usecs", decimal s.txUsecs)] else []) ++
    if s.offloadsSaved then
      [(text "gro", onOff s.gro), (text "gso", onOff s.gso), (text "tso", onOff s.tso)] else [])

theorem stateFileText_eq (s : EcatIfaceState) :
    stateFileText s = (stateEntries s).flatMap fun entry => keyLine entry.1 entry.2 := by
  unfold stateFileText stateEntries
  rw [List.flatMap_cons, List.flatMap_append, List.append_assoc]
  congr 2
  · split
    · simp
    · rfl
  · split
    · simp
    · rfl

theorem stateKeys_plain : ∀ key ∈ [text "iface", text "rx_usecs", text "tx_usecs", text "gro",
    text "gso", text "tso"], key.length ≤ 8 ∧ ∀ c ∈ key, c ≠ 0 ∧ c ≠ 10 ∧ c ≠ 61 := by
  have apart : ∀ key ∈ [text "iface", text "rx_usecs", text "tx_usecs", text "gro", text "gso",
      text "tso"], key.length ≤ 8 ∧ key.all (fun c => c ≠ 0 ∧ c ≠ 10 ∧ c ≠ 61) = true := by
    decide
  intro key listed
  obtain ⟨length, free⟩ := apart key listed
  exact ⟨length, fun c member => of_decide_eq_true (List.all_eq_true.mp free c member)⟩

theorem oneLine_of_key {key value : Text}
    (listed : key ∈ [text "iface", text "rx_usecs", text "tx_usecs", text "gro", text "gso",
      text "tso"]) (plain : ∀ c ∈ value, c ≠ 0 ∧ c ≠ 10) (short : value.length ≤ 20) :
    OneLine stateLineSize key value := by
  obtain ⟨length, free⟩ := stateKeys_plain key listed
  refine ⟨free, plain, ?_⟩
  unfold stateLineSize
  omega

theorem validIfaceName_plain {iface : Text} (valid : ecatIsValidIfaceName iface = true) :
    iface ≠ [] ∧ iface.length < ecatLinuxIfnameMax ∧ ∀ c ∈ iface, c ≠ 0 ∧ c ≠ 10 := by
  have apart : ∀ c : UInt8, (isAlnum c || c == 95 || c == 45) = true → c ≠ 0 ∧ c ≠ 10 := by
    decide +kernel
  cases iface with
  | nil => exact absurd valid (by decide)
  | cons first rest =>
      simp only [ecatIsValidIfaceName, Bool.and_eq_true, decide_eq_true_eq] at valid
      obtain ⟨⟨short, _⟩, all⟩ := valid
      exact ⟨List.cons_ne_nil _ _, short, fun c member => apart c (List.all_eq_true.mp all c member)⟩

theorem decimal_oneLine {v : Int} (fits : Fits 32 v) :
    (∀ c ∈ decimal v, c ≠ 0 ∧ c ≠ 10) ∧ (decimal v).length ≤ 20 := by
  have apart : ∀ c : UInt8, isDigit c = true → c ≠ 0 ∧ c ≠ 10 := by decide +kernel
  obtain ⟨low, high⟩ := fits
  refine ⟨?_, length_decimal_le (by omega) (by omega)⟩
  intro c member
  rcases mem_decimal member with rfl | digit
  · decide
  · exact apart c digit

theorem onOff_plain (on : Bool) :
    (∀ c ∈ onOff on, c ≠ 0 ∧ c ≠ 10) ∧ (onOff on).length ≤ 20 ∧
      decide (onOff on = text "on") = on := by
  cases on <;> decide +kernel

theorem loadEntry_eq (s : EcatIfaceState) (val : Text) :
    loadEntry s (text "iface", val) = s ∧
      loadEntry s (text "rx_usecs", val) = { s with rxUsecs := atoi val, coalescingSaved := true } ∧
      loadEntry s (text "tx_usecs", val) = { s with txUsecs := atoi val, coalescingSaved := true } ∧
      loadEntry s (text "gro", val) =
        { s with gro := decide (val = text "on"), offloadsSaved := true } ∧
      loadEntry s (text "gso", val) =
        { s with gso := decide (val = text "on"), offloadsSaved := true } ∧
      loadEntry s (text "tso", val) =
        { s with tso := decide (val = text "on"), offloadsSaved := true } :=
  ⟨rfl, rfl, rfl, rfl, rfl, rfl⟩

theorem foldl_coalescingEntries {rxUsecs txUsecs : Int} (rx : Fits 32 rxUsecs)
    (tx : Fits 32 txUsecs) (s : EcatIfaceState) :
    [(text "rx_usecs", decimal rxUsecs), (text "tx_usecs", decimal txUsecs)].foldl loadEntry s =
      { s with rxUsecs := rxUsecs, txUsecs := txUsecs, coalescingSaved := true } := by
  rw [List.foldl_cons, List.foldl_cons, List.foldl_nil, (loadEntry_eq s _).2.1,
    (loadEntry_eq _ _).2.2.1, atoi_decimal rx, atoi_decimal tx]

theorem foldl_offloadEntries (s : EcatIfaceState) (gro gso tso : Bool) :
    [(text "gro", onOff gro), (text "gso", onOff gso), (text "tso", onOff tso)].foldl loadEntry s =
      { s with gro := gro, gso := gso, tso := tso, offloadsSaved := true } := by
  obtain ⟨_, _, _, asGro, _, _⟩ := loadEntry_eq s (onOff gro)
  rw [List.foldl_cons, List.foldl_cons, List.foldl_cons, List.foldl_nil, asGro,
    (loadEntry_eq _ _).2.2.2.2.1, (loadEntry_eq _ _).2.2.2.2.2, (onOff_plain gro).2.2,
    (onOff_plain gso).2.2, (onOff_plain tso).2.2]

section RoundTrip
variable {s : EcatIfaceState} (valid : ecatIsValidIfaceName s.iface = true)
  (rx : Fits 32 s.rxUsecs) (tx : Fits 32 s.txUsecs)
include valid rx tx

theorem stateEntries_oneLine :
    ∀ entry ∈ stateEntries s, OneLine stateLineSize entry.1 entry.2 := by
  intro entry member
  obtain ⟨_, short, plain⟩ := validIfaceName_plain valid
  unfold ecatLinuxIfnameMax at short
  rcases List.mem_cons.mp member with rfl | later
  · exact oneLine_of_key (by simp) plain (show s.iface.length ≤ 20 by omega)
  · rcases List.mem_append.mp later with coalescing | offloads
    · split at coalescing
      · rcases List.mem_pair.mp coalescing with rfl | rfl
        · exact oneLine_of_key (by simp) (decimal_oneLine rx).1 (decimal_oneLine rx).2
        · exact oneLine_of_key (by simp) (decimal_oneLine tx).1 (decimal_oneLine tx).2
      · cases coalescing
    · split at offloads
      · have among : entry.1 ∈ [text "gro", text "gso", text "tso"] ∧ ∃ on, entry.2 = onOff on := by
          simp only [List.mem_cons, List.not_mem_nil, or_false] at offloads
          rcases offloads with rfl | rfl | rfl
          · exact ⟨by simp, _, rfl⟩
          · exact ⟨by simp, _, rfl⟩
          · exact ⟨by simp, _, rfl⟩
        obtain ⟨key, on, value⟩ := among
        obtain ⟨clear, brief, _⟩ := onOff_plain on
        rw [← value] at clear brief
        exact oneLine_of_key (by simp at key ⊢; tauto) clear brief
      · cases offloads

theorem load_stateFileText :
    (readEntries stateLineSize (stateFileText s)).foldl loadEntry (namedIfaceState s.iface) =
      loadState s.iface (persistState s) := by
  rw [stateFileText_eq, readEntries_keyLines _ (stateEntries_oneLine valid rx tx)]
  rw [stateEntries, List.foldl_cons, (loadEntry_eq _ _).1, List.foldl_append]
  unfold loadState persistState
  split
  · rw [foldl_coalescingEntries rx tx]
    split
    · rw [foldl_offloadEntries]
      rfl
    · rfl
  · split
    · rw [List.foldl_nil, foldl_offloadEntries]
      rfl
    · rfl

theorem loadStateFile_persistStateFile (dir : Text) (files : Files) :
    loadStateFile dir s.iface (persistStateFile dir files s) =
      some (loadState s.iface (persistState s)) := by
  have other : statePath dir s.iface ≠
      snprintf stateTmpSize (statePath dir s.iface ++ text ".tmp") := by
    intro same
    have lengths := congrArg List.length same
    have bound : (statePath dir s.iface).length ≤ statePathSize - 1 := by
      rw [statePath, snprintf]
      exact List.length_take_le _ _
    have suffix : (text ".tmp").length = 4 := rfl
    unfold statePathSize at bound
    unfold stateTmpSize at lengths
    rw [snprintf, List.length_take, List.length_append] at lengths
    omega
  simp only [loadStateFile, persistStateFile, Function.update_of_ne other, Function.update_self,
    Option.map_some, load_stateFileText valid rx tx]

end RoundTrip

theorem loadState_persistState (s : EcatIfaceState) :
    let loaded := loadState s.iface (persistState s)
    loaded.coalescingSaved = s.coalescingSaved ∧ loaded.offloadsSaved = s.offloadsSaved ∧
      (s.coalescingSaved = true → loaded.rxUsecs = s.rxUsecs ∧ loaded.txUsecs = s.txUsecs) ∧
      (s.offloadsSaved = true → loaded.gro = s.gro ∧ loaded.gso = s.gso ∧ loaded.tso = s.tso) ∧
      restoreNicSettings loaded = restoreNicSettings s := by
  obtain ⟨iface, coalescing, rxUsecs, txUsecs, offloads, gro, gso, tso⟩ := s
  cases coalescing with
  | false =>
      cases offloads with
      | false => simp [loadState, persistState, restoreNicSettings]
      | true => simp [loadState, persistState, restoreNicSettings]
  | true =>
      cases offloads with
      | false => simp [loadState, persistState, restoreNicSettings]
      | true => simp [loadState, persistState, restoreNicSettings]

/-- What a run wrote, the next one reads: it restores what `revert` would have. -/
theorem state_file_round_trip (dir : Text) (files : Files) (s : EcatIfaceState)
    (valid : ecatIsValidIfaceName s.iface = true) (rx : Fits 32 s.rxUsecs)
    (tx : Fits 32 s.txUsecs) :
    ∃ loaded, loadStateFile dir s.iface (persistStateFile dir files s) = some loaded ∧
      loaded.iface = s.iface ∧
      loaded.coalescingSaved = s.coalescingSaved ∧
      loaded.offloadsSaved = s.offloadsSaved ∧
      (s.coalescingSaved = true → loaded.rxUsecs = s.rxUsecs ∧ loaded.txUsecs = s.txUsecs) ∧
      (s.offloadsSaved = true → loaded.gro = s.gro ∧ loaded.gso = s.gso ∧ loaded.tso = s.tso) ∧
      (restoreNicSettings loaded).map (NicSetting.argv loaded.iface) =
        (ecatIfaceStateRevert s).2.map (NicSetting.argv s.iface) := by
  obtain ⟨named, short, _⟩ := validIfaceName_plain valid
  have whole : s.iface.take (ecatIfnameMax - 1) = s.iface := by
    apply List.take_of_length_le
    unfold ecatLinuxIfnameMax at short
    unfold ecatIfnameMax
    omega
  obtain ⟨coalescing, offloads, timings, switches, restored⟩ := loadState_persistState s
  refine ⟨_, loadStateFile_persistStateFile valid rx tx dir files, whole, coalescing, offloads,
    timings, switches, ?_⟩
  have name : (loadState s.iface (persistState s)).iface = s.iface := whole
  rw [ecatIfaceStateRevert, if_neg named, restored, name]

theorem state_file_round_trip_extreme :
    ∃ loaded, loadStateFile (text "/run") (text "eth0")
        (persistStateFile (text "/run") (fun _ => none)
          ⟨text "eth0", true, -2147483648, 2147483647, true, true, false, true⟩) = some loaded ∧
      loaded.rxUsecs = -2147483648 ∧ loaded.txUsecs = 2147483647 := by
  obtain ⟨loaded, read, _, _, _, values, _⟩ := state_file_round_trip (text "/run") (fun _ => none)
    ⟨text "eth0", true, -2147483648, 2147483647, true, true, false, true⟩
    (by decide) (by decide) (by decide)
  exact ⟨loaded, read, values rfl⟩

end EtherDog
