import EtherDog.Lib.Packing
import EtherDog.Config.Types
import EtherDog.Instance

/-!
# Publishing the PDO entries (src/layout.c)

`ecat_layout_build` walks the configured PDOs of every slave over what SOEM
mapped for it, with a 32-bit cursor that also moves over padding.  Pointers are
offsets into the IOmap.  The layout is filled in place: a failing build leaves
the entries it has published, so errors carry the layout.
-/

set_option autoImplicit false

namespace EtherDog

open CString

/-- What SOEM mapped for one slave (`ec_slavet`). -/
structure EcMapping where
  outputs : Option Nat
  ostartbit : Nat
  obits : Nat
  inputs : Option Nat
  istartbit : Nat
  ibits : Nat
  deriving DecidableEq, Repr

/-- The mapped context: its slaves from position 1 on and group 0. -/
structure SoemMap where
  initialized : Bool
  slaves : List EcMapping
  group : Group
  deriving DecidableEq, Repr

structure EcatLayoutEntry where
  slavePosition : Int
  pdoIndex : Text
  entryIndex : Text
  entrySubindex : UInt8
  isOutput : Bool
  bitOffset : UInt32
  bitLength : UInt8
  dataType : EcatDataType
  name : Text
  deriving DecidableEq, Repr

structure EcatLayout where
  outputBytes : Nat
  inputBytes : Nat
  entries : List EcatLayoutEntry
  entryCapacity : Nat
  deriving DecidableEq, Repr

def emptyLayout : EcatLayout := ⟨0, 0, [], 0⟩

def isPadding (entry : EcatPdoEntry) : Bool :=
  entry.parsedType == .pad || entry.index == text "0x0000" || entry.index == text "0x0"

def SoemMap.outputRegion (soem : SoemMap) : Option Nat :=
  if soem.initialized then soem.group.outputs else none

def SoemMap.inputRegion (soem : SoemMap) : Option Nat :=
  if soem.initialized then soem.group.inputs else none

def ecatMasterGetSlave (soem : SoemMap) (position : Int) : Option EcMapping :=
  if position < 1 ∨ soem.slaves.length < position then none
  else soem.slaves[position.toNat - 1]?

/-! ## One direction of one slave -/

structure Cursor where
  bit : UInt32
  layout : EcatLayout
  deriving DecidableEq, Repr

def layoutEntry (cfg : EcatSlave) (isOutput : Bool) (bit : UInt32) (pdo : EcatPdo)
    (entry : EcatPdoEntry) : EcatLayoutEntry where
  slavePosition := cfg.position
  pdoIndex := pdo.index
  entryIndex := entry.index
  entrySubindex := entry.subindex
  isOutput := isOutput
  bitOffset := bit
  bitLength := entry.bitLength
  dataType := entry.parsedType
  name := entry.name

def publishEntry (cfg : EcatSlave) (isOutput : Bool) (pdo : EcatPdo) (s : Cursor)
    (entry : EcatPdoEntry) : Except EcatLayout Cursor :=
  let next := s.bit + entry.bitLength.toUInt32
  if isPadding entry then .ok ⟨next, s.layout⟩
  else if s.layout.entryCapacity ≤ s.layout.entries.length then .error s.layout
  else .ok ⟨next, { s.layout with
    entries := s.layout.entries ++ [layoutEntry cfg isOutput s.bit pdo entry] }⟩

def publishPdo (cfg : EcatSlave) (isOutput : Bool) (s : Cursor) (pdo : EcatPdo) :
    Except EcatLayout Cursor :=
  pdo.entries.foldlM (publishEntry cfg isOutput pdo) s

/-- The PDOs, the slave's base, the region and the start bit of a direction. -/
def directionPdos (cfg : EcatSlave) (isOutput : Bool) : List EcatPdo :=
  if isOutput then cfg.rxPdos else cfg.txPdos

def slaveBase (mapping : EcMapping) (isOutput : Bool) : Option Nat :=
  if isOutput then mapping.outputs else mapping.inputs

def regionBase (soem : SoemMap) (isOutput : Bool) : Option Nat :=
  if isOutput then soem.outputRegion else soem.inputRegion

def startBit (mapping : EcMapping) (isOutput : Bool) : Nat :=
  if isOutput then mapping.ostartbit else mapping.istartbit

def firstBit (base region start : Nat) : UInt32 :=
  UInt32.ofInt (((base : Int) - region) * 8) + UInt32.ofNat start

def addDirection (soem : SoemMap) (cfg : EcatSlave) (mapping : EcMapping) (isOutput : Bool)
    (layout : EcatLayout) : Except EcatLayout EcatLayout :=
  let pdos := directionPdos cfg isOutput
  if pdos = [] then .ok layout
  else
    match slaveBase mapping isOutput, regionBase soem isOutput with
    | some base, some region => do
        let bit := firstBit base region (startBit mapping isOutput)
        let done ← pdos.foldlM (publishPdo cfg isOutput) ⟨bit, layout⟩
        return done.layout
    | _, _ => .ok layout

/-! ## The whole layout -/

def countEntries (pdos : List EcatPdo) : Nat := (pdos.map fun pdo => pdo.entries.length).sum

def countLayoutMax (config : EcatConfig) : Nat :=
  (config.slaveList.map fun slave => countEntries slave.rxPdos + countEntries slave.txPdos).sum

/-- `none` is the failure; the old layout is destroyed either way. -/
def ecatLayoutInit (capacity : Nat) (allocated : Bool) : Option EcatLayout :=
  if capacity = 0 then some emptyLayout
  else if allocated then some { emptyLayout with entryCapacity := capacity }
  else none

def addSlave (soem : SoemMap) (layout : EcatLayout) (cfg : EcatSlave) :
    Except EcatLayout EcatLayout :=
  match ecatMasterGetSlave soem cfg.position with
  | none => .error layout
  | some mapping => do
      let outputs ← addDirection soem cfg mapping true layout
      addDirection soem cfg mapping false outputs

/-- `ecat_layout_build` with its entries; also whether it succeeded. -/
def ecatLayoutBuildEntries (config : EcatConfig) (soem : SoemMap) (allocated : Bool) :
    EcatLayout × Bool :=
  match ecatLayoutInit (countLayoutMax config) allocated with
  | none => (emptyLayout, false)
  | some layout =>
      if soem.initialized = false then (layout, false)
      else
        let sized := { layout with
          outputBytes := soem.group.obytes, inputBytes := soem.group.ibytes }
        if edogFrameMaxPayload < sized.outputBytes ∨ edogFrameMaxPayload < sized.inputBytes then
          (sized, false)
        else
          match config.slaveList.foldlM (addSlave soem) sized with
          | .error layout => (layout, false)
          | .ok layout => (layout, true)

/-! ## What is published -/

def flatEntries (pdos : List EcatPdo) : List (EcatPdo × EcatPdoEntry) :=
  pdos.flatMap fun pdo => pdo.entries.map fun entry => (pdo, entry)

def bitSize (item : EcatPdo × EcatPdoEntry) : Nat := item.2.bitLength.toNat

/-- The entries that are no padding, each as far behind `bit` as the entries
before it are long. -/
def publishedFrom (cfg : EcatSlave) (isOutput : Bool) (bit : UInt32)
    (items : List (EcatPdo × EcatPdoEntry)) : List EcatLayoutEntry :=
  ((Packing.offsets bitSize 0 items).filter fun placed => !isPadding placed.2.2).map fun placed =>
    layoutEntry cfg isOutput (bit + UInt32.ofNat placed.1) placed.2.1 placed.2.2

/-- A direction SOEM left unmapped publishes nothing. -/
def directionEntries (soem : SoemMap) (cfg : EcatSlave) (mapping : EcMapping) (isOutput : Bool) :
    List EcatLayoutEntry :=
  match slaveBase mapping isOutput, regionBase soem isOutput with
  | some base, some region =>
      publishedFrom cfg isOutput (firstBit base region (startBit mapping isOutput))
        (flatEntries (directionPdos cfg isOutput))
  | _, _ => []

def slaveEntries (soem : SoemMap) (cfg : EcatSlave) : List EcatLayoutEntry :=
  match ecatMasterGetSlave soem cfg.position with
  | none => []
  | some mapping =>
      directionEntries soem cfg mapping true ++ directionEntries soem cfg mapping false

def layoutEntries (config : EcatConfig) (soem : SoemMap) : List EcatLayoutEntry :=
  config.slaveList.flatMap (slaveEntries soem)

/-! ## The loops publish exactly that -/

section Publish
variable (cfg : EcatSlave) (isOutput : Bool)

theorem publishedFrom_cons (bit : UInt32) (item : EcatPdo × EcatPdoEntry)
    (rest : List (EcatPdo × EcatPdoEntry)) :
    publishedFrom cfg isOutput bit (item :: rest) =
      (if isPadding item.2 then [] else [layoutEntry cfg isOutput bit item.1 item.2]) ++
        publishedFrom cfg isOutput (bit + item.2.bitLength.toUInt32) rest := by
  have size : UInt32.ofNat (bitSize item) = item.2.bitLength.toUInt32 := by
    simp [bitSize]
  unfold publishedFrom
  rw [Packing.offsets_cons, Nat.zero_add, ← Nat.add_zero (bitSize item), Packing.offsets_shift,
    List.filter_cons, List.filter_map]
  by_cases padding : isPadding item.2 = true
  · simp [padding, Function.comp_def, size, UInt32.add_assoc]
  · simp [padding, Function.comp_def, size, UInt32.add_assoc]

theorem publishedFrom_length (bit : UInt32) (items : List (EcatPdo × EcatPdoEntry)) :
    (publishedFrom cfg isOutput bit items).length ≤ items.length := by
  induction items generalizing bit with
  | nil => simp [publishedFrom, Packing.offsets_nil]
  | cons item rest ih =>
      have later := ih (bit + item.2.bitLength.toUInt32)
      rw [publishedFrom_cons, List.length_append, List.length_cons]
      split
      · simp only [List.length_nil]
        omega
      · simp only [List.length_cons, List.length_nil]
        omega

theorem publishPdos_flat (pdos : List EcatPdo) (s : Cursor) :
    pdos.foldlM (publishPdo cfg isOutput) s =
      (flatEntries pdos).foldlM (fun s item => publishEntry cfg isOutput item.1 s item.2) s := by
  induction pdos generalizing s with
  | nil => rfl
  | cons pdo rest ih =>
      have inner : publishPdo cfg isOutput s pdo =
          (pdo.entries.map fun entry => (pdo, entry)).foldlM
            (fun s item => publishEntry cfg isOutput item.1 s item.2) s := by
        rw [publishPdo, List.foldlM_map]
      rw [List.foldlM_cons, flatEntries, List.flatMap_cons, List.foldlM_append, inner]
      exact bind_congr fun next => ih next

theorem publishEntries_room (s : Cursor) (items : List (EcatPdo × EcatPdoEntry))
    (room : s.layout.entries.length + items.length ≤ s.layout.entryCapacity) :
    ∃ bit, items.foldlM (fun s item => publishEntry cfg isOutput item.1 s item.2) s =
      .ok ⟨bit, { s.layout with
        entries := s.layout.entries ++ publishedFrom cfg isOutput s.bit items }⟩ := by
  induction items generalizing s with
  | nil => exact ⟨s.bit, by simp [publishedFrom, Packing.offsets_nil, pure, Except.pure]⟩
  | cons item rest ih =>
      rw [List.length_cons] at room
      rw [List.foldlM_cons, publishedFrom_cons, publishEntry]
      by_cases padding : isPadding item.2 = true
      · rw [if_pos padding]
        obtain ⟨bit, done⟩ := ih ⟨s.bit + item.2.bitLength.toUInt32, s.layout⟩ (by dsimp only; omega)
        exact ⟨bit, by simpa [padding, bind, Except.bind] using done⟩
      · rw [if_neg padding, if_neg (by omega)]
        obtain ⟨bit, done⟩ := ih ⟨s.bit + item.2.bitLength.toUInt32, { s.layout with
          entries := s.layout.entries ++ [layoutEntry cfg isOutput s.bit item.1 item.2] }⟩
          (by simp; omega)
        exact ⟨bit, by simpa [padding, bind, Except.bind] using done⟩

end Publish

theorem flatEntries_length (pdos : List EcatPdo) :
    (flatEntries pdos).length = countEntries pdos := by
  simp [flatEntries, countEntries, List.length_flatMap]

theorem directionEntries_length (soem : SoemMap) (cfg : EcatSlave) (mapping : EcMapping)
    (isOutput : Bool) :
    (directionEntries soem cfg mapping isOutput).length ≤
      countEntries (directionPdos cfg isOutput) := by
  unfold directionEntries
  split
  · rw [← flatEntries_length]
    exact publishedFrom_length cfg isOutput _ _
  · simp

theorem addDirection_room (soem : SoemMap) (cfg : EcatSlave) (mapping : EcMapping)
    (isOutput : Bool) (layout : EcatLayout)
    (room : layout.entries.length + countEntries (directionPdos cfg isOutput) ≤
      layout.entryCapacity) :
    addDirection soem cfg mapping isOutput layout = .ok { layout with
      entries := layout.entries ++ directionEntries soem cfg mapping isOutput } := by
  unfold addDirection directionEntries
  by_cases none : directionPdos cfg isOutput = []
  · rw [if_pos none, none]
    split
    · simp [flatEntries, publishedFrom, Packing.offsets_nil]
    · simp
  · rw [if_neg none]
    split
    · rename_i base region _ _
      rw [← flatEntries_length] at room
      obtain ⟨bit, done⟩ := publishEntries_room cfg isOutput
        ⟨firstBit base region (startBit mapping isOutput), layout⟩ _ room
      dsimp only
      rw [publishPdos_flat, done]
      rfl
    · simp

theorem addSlave_room (soem : SoemMap) (cfg : EcatSlave) (layout : EcatLayout)
    (found : ecatMasterGetSlave soem cfg.position ≠ none)
    (room : layout.entries.length + (countEntries cfg.rxPdos + countEntries cfg.txPdos) ≤
      layout.entryCapacity) :
    addSlave soem layout cfg = .ok { layout with
      entries := layout.entries ++ slaveEntries soem cfg } := by
  unfold addSlave slaveEntries
  cases present : ecatMasterGetSlave soem cfg.position with
  | none => exact absurd present found
  | some mapping =>
      have outputs : layout.entries.length + countEntries (directionPdos cfg true) ≤
          layout.entryCapacity := by
        simp only [directionPdos, if_true]
        omega
      have few := directionEntries_length soem cfg mapping true
      simp only [directionPdos, if_true] at few
      dsimp only
      rw [addDirection_room soem cfg mapping true layout outputs]
      simp only [bind, Except.bind]
      rw [addDirection_room]
      · simp
      · simp only [directionPdos, List.length_append, Bool.false_eq_true, if_false]
        omega

theorem slaveEntries_length (soem : SoemMap) (cfg : EcatSlave) :
    (slaveEntries soem cfg).length ≤ countEntries cfg.rxPdos + countEntries cfg.txPdos := by
  unfold slaveEntries
  split
  · simp
  · rename_i mapping _
    have outputs := directionEntries_length soem cfg mapping true
    have inputs := directionEntries_length soem cfg mapping false
    simp only [directionPdos, if_true, Bool.false_eq_true, if_false] at outputs inputs
    rw [List.length_append]
    omega

/-- The loop over the slaves: it stops at the first position that is not on the bus. -/
theorem addSlaves_room (soem : SoemMap) (slaves : List EcatSlave) (layout : EcatLayout)
    (room : layout.entries.length +
      (slaves.map fun slave => countEntries slave.rxPdos + countEntries slave.txPdos).sum ≤
        layout.entryCapacity) :
    if ∀ slave ∈ slaves, ecatMasterGetSlave soem slave.position ≠ none then
      slaves.foldlM (addSlave soem) layout =
        .ok { layout with entries := layout.entries ++ slaves.flatMap (slaveEntries soem) }
    else ∃ partly, slaves.foldlM (addSlave soem) layout = .error partly := by
  induction slaves generalizing layout with
  | nil => simp [pure, Except.pure]
  | cons slave rest ih =>
      rw [List.map_cons, List.sum_cons] at room
      rw [List.foldlM_cons]
      by_cases present : ecatMasterGetSlave soem slave.position = none
      · rw [if_neg (by simp [present])]
        exact ⟨layout, by simp [addSlave, present, bind, Except.bind]⟩
      · have few := slaveEntries_length soem slave
        rw [addSlave_room soem slave layout present (by omega)]
        have later := ih { layout with entries := layout.entries ++ slaveEntries soem slave }
          (by simp only [List.length_append]; omega)
        simpa [present, bind, Except.bind] using later

/-- `ecat_layout_build` succeeds exactly when the layout can be allocated, the
bus is mapped, both regions fit a frame and every position is on the bus; it
then publishes the entries of the configuration.  The layout is never full. -/
theorem layoutBuildEntries_spec (config : EcatConfig) (soem : SoemMap) (allocated : Bool) :
    ((ecatLayoutBuildEntries config soem allocated).2 = true ↔
      (countLayoutMax config = 0 ∨ allocated = true) ∧ soem.initialized = true ∧
        soem.group.obytes ≤ edogFrameMaxPayload ∧ soem.group.ibytes ≤ edogFrameMaxPayload ∧
        ∀ slave ∈ config.slaveList, ecatMasterGetSlave soem slave.position ≠ none) ∧
    ((ecatLayoutBuildEntries config soem allocated).2 = true →
      (ecatLayoutBuildEntries config soem allocated).1 =
        ⟨soem.group.obytes, soem.group.ibytes, layoutEntries config soem,
          countLayoutMax config⟩) := by
  have init : ecatLayoutInit (countLayoutMax config) allocated =
      if countLayoutMax config = 0 ∨ allocated = true then
        some { emptyLayout with entryCapacity := countLayoutMax config } else none := by
    unfold ecatLayoutInit
    by_cases zero : countLayoutMax config = 0
    · simp [zero, emptyLayout]
    · simp [zero]
  unfold ecatLayoutBuildEntries
  rw [init]
  by_cases memory : countLayoutMax config = 0 ∨ allocated = true
  · rw [if_pos memory]
    dsimp only
    by_cases initialized : soem.initialized = true
    · rw [if_neg (by simp [initialized])]
      by_cases large : edogFrameMaxPayload < soem.group.obytes ∨
          edogFrameMaxPayload < soem.group.ibytes
      · rw [if_pos large]
        refine ⟨?_, by simp⟩
        simp only [Bool.false_eq_true, false_iff, not_and]
        intro _ _ outputs inputs
        omega
      · rw [if_neg large]
        have loop := addSlaves_room soem config.slaveList
          ⟨soem.group.obytes, soem.group.ibytes, [], countLayoutMax config⟩
          (by simp [countLayoutMax])
        have fits : soem.group.obytes ≤ edogFrameMaxPayload ∧
            soem.group.ibytes ≤ edogFrameMaxPayload := by omega
        split at loop
        · rename_i found
          rw [show emptyLayout.entries = [] from rfl, loop]
          simpa [memory, initialized, fits, layoutEntries] using found
        · rename_i missing
          obtain ⟨partly, failed⟩ := loop
          rw [show emptyLayout.entries = [] from rfl, failed]
          simp [missing]
    · rw [if_pos (by simpa using initialized)]
      simp [initialized]
  · rw [if_neg memory]
    simp [memory]

end EtherDog
