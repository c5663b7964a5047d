import EtherDog.Layout.Build

/-!
# Where the published entries lie

`layoutPlaced` says where every published entry belongs, as natural numbers:
the entries of a slave and direction follow each other, padding included, from
the start of the slave's slice.  The 32-bit cursor holds that number modulo
2^32, and the number itself for what a configuration file and a mapped bus can
have.
-/

set_option autoImplicit false

namespace EtherDog

open CString

structure Placed where
  cfg : EcatSlave
  isOutput : Bool
  offset : Nat
  pdo : EcatPdo
  entry : EcatPdoEntry
  deriving DecidableEq, Repr

def Placed.published (p : Placed) : EcatLayoutEntry :=
  layoutEntry p.cfg p.isOutput (UInt32.ofNat p.offset) p.pdo p.entry

def Placed.last (p : Placed) : Nat := p.offset + p.entry.bitLength.toNat

def sliceBits (mapping : EcMapping) (isOutput : Bool) : Nat :=
  if isOutput then mapping.obits else mapping.ibits

/-- The first bit in the region and the bits of what SOEM mapped for a slave. -/
def slice? (soem : SoemMap) (cfg : EcatSlave) (isOutput : Bool) : Option (Nat × Nat) :=
  match ecatMasterGetSlave soem cfg.position with
  | none => none
  | some mapping =>
      match slaveBase mapping isOutput, regionBase soem isOutput with
      | some base, some region =>
          some (8 * (base - region) + startBit mapping isOutput, sliceBits mapping isOutput)
      | _, _ => none

def directionPlaced (soem : SoemMap) (cfg : EcatSlave) (isOutput : Bool) : List Placed :=
  match slice? soem cfg isOutput with
  | none => []
  | some (start, _) =>
      ((Packing.offsets bitSize start (flatEntries (directionPdos cfg isOutput))).filter
        fun placed => !isPadding placed.2.2).map fun placed =>
          ⟨cfg, isOutput, placed.1, placed.2.1, placed.2.2⟩

/-- For each slave first its RxPDO, then its TxPDO entries. -/
def layoutPlaced (config : EcatConfig) (soem : SoemMap) : List Placed :=
  config.slaveList.flatMap fun cfg => directionPlaced soem cfg true ++ directionPlaced soem cfg false

def BasesFollow (config : EcatConfig) (soem : SoemMap) : Prop :=
  ∀ cfg ∈ config.slaveList, ∀ mapping, ecatMasterGetSlave soem cfg.position = some mapping →
    ∀ isOutput base region, slaveBase mapping isOutput = some base →
      regionBase soem isOutput = some region → region ≤ base

/-! ## The published offsets -/

theorem firstBit_eq {base region : Nat} (follows : region ≤ base) (start : Nat) :
    firstBit base region start = UInt32.ofNat (8 * (base - region) + start) := by
  have difference : ((base : Int) - region) * 8 = ((8 * (base - region) : Nat) : Int) := by
    omega
  have cast (n : Nat) : UInt32.ofInt (n : Int) = UInt32.ofNat n := by
    apply UInt32.toNat_inj.mp
    rw [UInt32.ofInt, UInt32.toNat_ofNat', UInt32.toNat_ofNat']
    omega
  rw [firstBit, difference, cast, UInt32.ofNat_add]

theorem publishedFrom_eq (cfg : EcatSlave) (isOutput : Bool) (start : Nat)
    (items : List (EcatPdo × EcatPdoEntry)) :
    publishedFrom cfg isOutput (UInt32.ofNat start) items =
      (((Packing.offsets bitSize start items).filter fun placed => !isPadding placed.2.2).map
        fun placed => Placed.mk cfg isOutput placed.1 placed.2.1 placed.2.2).map
          Placed.published := by
  have shifted := Packing.offsets_shift bitSize start 0 items
  rw [Nat.add_zero] at shifted
  rw [shifted, publishedFrom, List.filter_map, List.map_map, List.map_map]
  simp only [Function.comp_def, Placed.published, UInt32.ofNat_add]

theorem layoutEntries_eq (config : EcatConfig) (soem : SoemMap)
    (follow : BasesFollow config soem) :
    layoutEntries config soem = (layoutPlaced config soem).map Placed.published := by
  unfold layoutEntries layoutPlaced
  rw [List.map_flatMap]
  apply List.flatMap_congr
  intro cfg member
  unfold slaveEntries directionPlaced slice?
  cases found : ecatMasterGetSlave soem cfg.position with
  | none => rfl
  | some mapping =>
      have direction (isOutput : Bool) : directionEntries soem cfg mapping isOutput =
          (directionPlaced soem cfg isOutput).map Placed.published := by
        unfold directionEntries directionPlaced slice?
        rw [found]
        dsimp only
        cases based : slaveBase mapping isOutput with
        | none => rfl
        | some base =>
            cases regioned : regionBase soem isOutput with
            | none => rfl
            | some region =>
                have follows := follow cfg member mapping found isOutput base region based regioned
                dsimp only
                rw [firstBit_eq follows, publishedFrom_eq]
      rw [List.map_append]
      dsimp only
      rw [direction true, direction false]
      unfold directionPlaced slice?
      rw [found]

theorem Placed.published_exact (p : Placed) (small : p.offset < 2 ^ 32) :
    p.published.bitOffset.toNat = p.offset := by
  simp only [Placed.published, layoutEntry, UInt32.toNat_ofNat']
  exact Nat.mod_eq_of_lt small

/-! ## What the cursor can reach -/

def regionBytes (soem : SoemMap) (isOutput : Bool) : Nat :=
  if isOutput then soem.group.obytes else soem.group.ibytes

/-- SOEM's slices start inside their regions; its start bits are `uint8_t`. -/
def BasesInside (config : EcatConfig) (soem : SoemMap) : Prop :=
  ∀ cfg ∈ config.slaveList, ∀ mapping, ecatMasterGetSlave soem cfg.position = some mapping →
    ∀ isOutput base region, slaveBase mapping isOutput = some base →
      regionBase soem isOutput = some region →
        base ≤ region + regionBytes soem isOutput ∧ startBit mapping isOutput < 2 ^ 8

/-- A file of at most 1 MB has room for fewer entries. -/
def FewEntries (config : EcatConfig) : Prop := countLayoutMax config < 2 ^ 20

/-- A `uint8_t` length has at most 255 bits. -/
theorem total_le (items : List (EcatPdo × EcatPdoEntry)) :
    Packing.total bitSize items ≤ 255 * items.length := by
  have each : ∀ size ∈ items.map bitSize, size ≤ 255 := by
    intro size member
    obtain ⟨item, _, rfl⟩ := List.mem_map.mp member
    exact Nat.le_of_lt_succ item.2.bitLength.toNat_lt
  have sum := List.sum_le_card_nsmul _ _ each
  rw [List.length_map, smul_eq_mul, Nat.mul_comm] at sum
  exact sum

theorem direction_le_layoutMax {config : EcatConfig} {cfg : EcatSlave}
    (listed : cfg ∈ config.slaveList) (isOutput : Bool) :
    (flatEntries (directionPdos cfg isOutput)).length ≤ countLayoutMax config := by
  have slave : countEntries cfg.rxPdos + countEntries cfg.txPdos ≤ countLayoutMax config :=
    List.le_sum_of_mem (List.mem_map_of_mem listed)
  rw [flatEntries_length]
  cases isOutput with
  | true => exact le_trans (Nat.le_add_right _ _) slave
  | false => exact le_trans (Nat.le_add_left _ _) slave

/-! ## Slices -/

def RangesApart (a b : Nat × Nat) : Prop := a.1 + a.2 ≤ b.1 ∨ b.1 + b.2 ≤ a.1

/-- The slices of a direction lie apart inside the region, and the configured
bits of every slave fit its slice. -/
structure SlicesFit (config : EcatConfig) (soem : SoemMap) (isOutput : Bool) : Prop where
  inside : ∀ cfg ∈ config.slaveList, ∀ slice, slice? soem cfg isOutput = some slice →
    slice.1 + slice.2 ≤ 8 * regionBytes soem isOutput
  apart : config.slaveList.Pairwise fun a b => ∀ first second,
    slice? soem a isOutput = some first → slice? soem b isOutput = some second →
      RangesApart first second
  configured : ∀ cfg ∈ config.slaveList, ∀ slice, slice? soem cfg isOutput = some slice →
    Packing.total bitSize (flatEntries (directionPdos cfg isOutput)) ≤ slice.2

theorem directionPlaced_inside {soem : SoemMap} {cfg : EcatSlave} {isOutput : Bool} {p : Placed}
    (member : p ∈ directionPlaced soem cfg isOutput) :
    ∃ slice, slice? soem cfg isOutput = some slice ∧ p.isOutput = isOutput ∧ slice.1 ≤ p.offset ∧
      p.last ≤ slice.1 + Packing.total bitSize (flatEntries (directionPdos cfg isOutput)) := by
  unfold directionPlaced at member
  split at member
  · simp at member
  · rename_i start bits sliced
    obtain ⟨placed, among, rfl⟩ := List.mem_map.mp member
    obtain ⟨after, before, _⟩ := Packing.offsets_inside bitSize start _ placed
      (List.mem_of_mem_filter among)
    exact ⟨(start, bits), sliced, rfl, after, before⟩

theorem directionPlaced_isOutput {soem : SoemMap} {cfg : EcatSlave} {isOutput : Bool} {p : Placed}
    (member : p ∈ directionPlaced soem cfg isOutput) : p.isOutput = isOutput := by
  obtain ⟨_, _, same, _⟩ := directionPlaced_inside member
  exact same

theorem directionPlaced_pairwise (soem : SoemMap) (cfg : EcatSlave) (isOutput : Bool) :
    (directionPlaced soem cfg isOutput).Pairwise fun a b => a.last ≤ b.offset := by
  unfold directionPlaced
  split
  · exact .nil
  · rw [List.pairwise_map]
    exact (Packing.offsets_pairwise bitSize _ _).filter _

/-- Entries of the direction do not overlap. -/
def Apart (isOutput : Bool) (a b : Placed) : Prop :=
  a.isOutput = isOutput → b.isOutput = isOutput →
    RangesApart (a.offset, a.entry.bitLength.toNat) (b.offset, b.entry.bitLength.toNat)

/-- Only the entries of the slave's own direction are of the direction. -/
theorem mem_direction {soem : SoemMap} {cfg : EcatSlave} {isOutput : Bool} {p : Placed}
    (member : p ∈ directionPlaced soem cfg true ++ directionPlaced soem cfg false)
    (same : p.isOutput = isOutput) : p ∈ directionPlaced soem cfg isOutput := by
  rcases List.mem_append.mp member with output | input
  · rw [← same, directionPlaced_isOutput output]
    exact output
  · rw [← same, directionPlaced_isOutput input]
    exact input

theorem layoutPlaced_apart {config : EcatConfig} {soem : SoemMap} {isOutput : Bool}
    (fit : SlicesFit config soem isOutput) :
    (layoutPlaced config soem).Pairwise (Apart isOutput) := by
  unfold layoutPlaced
  rw [List.pairwise_flatMap]
  constructor
  · intro cfg _
    rw [List.pairwise_append]
    refine ⟨?_, ?_, ?_⟩
    · exact (directionPlaced_pairwise soem cfg true).imp fun ordered _ _ => Or.inl ordered
    · exact (directionPlaced_pairwise soem cfg false).imp fun ordered _ _ => Or.inl ordered
    · intro a first b second output input
      rw [directionPlaced_isOutput first] at output
      rw [directionPlaced_isOutput second, ← output] at input
      exact absurd input (by decide)
  · refine fit.apart.imp_of_mem fun {a b} left right apart => ?_
    intro p first q second output other
    obtain ⟨slice, sliced, _, after, before⟩ := directionPlaced_inside (mem_direction first output)
    obtain ⟨next, nextSliced, _, nextAfter, nextBefore⟩ :=
      directionPlaced_inside (mem_direction second other)
    have fits := fit.configured a left slice sliced
    have nextFits := fit.configured b right next nextSliced
    have separate := apart slice next sliced nextSliced
    unfold Placed.last at before nextBefore
    unfold RangesApart at separate ⊢
    dsimp only at separate ⊢
    omega

theorem layoutPlaced_inside {config : EcatConfig} {soem : SoemMap} {isOutput : Bool}
    (fit : SlicesFit config soem isOutput) :
    ∀ p ∈ layoutPlaced config soem, p.isOutput = isOutput →
      p.last ≤ 8 * regionBytes soem isOutput := by
  intro p member same
  obtain ⟨cfg, among, either⟩ := List.mem_flatMap.mp member
  obtain ⟨slice, sliced, _, _, before⟩ := directionPlaced_inside (mem_direction either same)
  have inside := fit.inside cfg among slice sliced
  have fits := fit.configured cfg among slice sliced
  omega

/-! ## The build -/

/-- The bus is mapped for the configuration. -/
structure MappedFor (config : EcatConfig) (soem : SoemMap) : Prop where
  initialized : soem.initialized = true
  positions : ∀ slave ∈ config.slaveList, ecatMasterGetSlave soem slave.position ≠ none
  follow : BasesFollow config soem
  outputFits : soem.group.obytes ≤ edogFrameMaxPayload
  inputFits : soem.group.ibytes ≤ edogFrameMaxPayload

theorem layoutBuildEntries_placed {config : EcatConfig} {soem : SoemMap}
    (mapped : MappedFor config soem) :
    ecatLayoutBuildEntries config soem true =
      (⟨soem.group.obytes, soem.group.ibytes, (layoutPlaced config soem).map Placed.published,
        countLayoutMax config⟩, true) := by
  obtain ⟨succeeds, built⟩ := layoutBuildEntries_spec config soem true
  have success := succeeds.mpr ⟨Or.inr rfl, mapped.initialized, mapped.outputFits,
    mapped.inputFits, mapped.positions⟩
  rw [← layoutEntries_eq config soem mapped.follow]
  exact Prod.ext (built success) success

theorem slice?_start {config : EcatConfig} {soem : SoemMap} {cfg : EcatSlave} {isOutput : Bool}
    {slice : Nat × Nat} (inside : BasesInside config soem) (listed : cfg ∈ config.slaveList)
    (sliced : slice? soem cfg isOutput = some slice) :
    slice.1 < 8 * regionBytes soem isOutput + 2 ^ 8 := by
  unfold slice? at sliced
  cases found : ecatMasterGetSlave soem cfg.position with
  | none => simp [found] at sliced
  | some mapping =>
      rw [found] at sliced
      dsimp only at sliced
      split at sliced
      · rename_i base region based regioned
        cases Option.some.inj sliced
        obtain ⟨ends, start⟩ := inside cfg listed mapping found isOutput base region based regioned
        dsimp only
        omega
      · exact absurd sliced nofun

theorem layoutPlaced_bounded {config : EcatConfig} {soem : SoemMap} (mapped : MappedFor config soem)
    (few : FewEntries config) (inside : BasesInside config soem) :
    ∀ p ∈ layoutPlaced config soem, p.offset < 2 ^ 32 := by
  intro p member
  obtain ⟨cfg, listed, either⟩ := List.mem_flatMap.mp member
  obtain ⟨slice, sliced, _, _, before⟩ := directionPlaced_inside (mem_direction either rfl)
  have start := slice?_start inside listed sliced
  have bits := total_le (flatEntries (directionPdos cfg p.isOutput))
  have entries := direction_le_layoutMax listed p.isOutput
  have bytes : regionBytes soem p.isOutput ≤ edogFrameMaxPayload := by
    unfold regionBytes
    split
    · exact mapped.outputFits
    · exact mapped.inputFits
  unfold FewEntries at few
  unfold edogFrameMaxPayload at bytes
  unfold Placed.last at before
  omega

/-- The published entries are those of the configuration in order, each at its place.
Where the slices of a direction lie apart inside the region and hold the configured
bits, so do the entries of that direction. -/
theorem layout_offsets_exact (config : EcatConfig) (soem : SoemMap)
    (mapped : MappedFor config soem) (few : FewEntries config)
    (inside : BasesInside config soem) :
    (ecatLayoutBuildEntries config soem true).2 = true ∧
    (ecatLayoutBuildEntries config soem true).1.entries =
      (layoutPlaced config soem).map Placed.published ∧
    (∀ p ∈ layoutPlaced config soem, p.published.bitOffset.toNat = p.offset) ∧
    ∀ isOutput, SlicesFit config soem isOutput →
      (ecatLayoutBuildEntries config soem true).1.entries.Pairwise (fun a b =>
        a.isOutput = isOutput → b.isOutput = isOutput →
          RangesApart (a.bitOffset.toNat, a.bitLength.toNat)
            (b.bitOffset.toNat, b.bitLength.toNat)) ∧
      ∀ entry ∈ (ecatLayoutBuildEntries config soem true).1.entries, entry.isOutput = isOutput →
        entry.bitOffset.toNat + entry.bitLength.toNat ≤ 8 * regionBytes soem isOutput := by
  rw [layoutBuildEntries_placed mapped]
  have bounded := layoutPlaced_bounded mapped few inside
  refine ⟨rfl, rfl, fun p member => p.published_exact (bounded p member), fun isOutput fit => ?_⟩
  constructor
  · rw [List.pairwise_map]
    refine (layoutPlaced_apart fit).imp_of_mem fun {a b} left right apart => ?_
    rw [a.published_exact (bounded a left), b.published_exact (bounded b right)]
    exact apart
  · intro entry member same
    obtain ⟨p, among, rfl⟩ := List.mem_map.mp member
    rw [p.published_exact (bounded p among)]
    exact layoutPlaced_inside fit p among same

/-! ## Two slaves -/

def fakeSlave (rxPdos txPdos : List EcatPdo) : EcatSlave where
  position := 1
  name := []
  type := text "coupler"
  vendorId := 2
  productCode := 3
  revision := 0
  channels := []
  sdoConfigs := []
  rxPdos := rxPdos
  txPdos := txPdos
  startupChecks := ⟨true, true⟩
  ethercatAddress := 0
  timeouts := ⟨1000, 3000, 10000⟩
  watchdog := ⟨true, 100, false, 100⟩
  dc := ⟨false, 0, false, 0, 0, false, 0, 0⟩
  strictSdo := true
  mandatoryPdos := []
  modular := ⟨false, 0, [], []⟩

def byteEntry : EcatPdoEntry := ⟨text "0x7000", 1, 8, [], .uint8⟩

def gappedPdo : EcatPdo :=
  ⟨text "0x1600", [], [⟨text "0x7001", 1, 3, [], .bool⟩, ⟨text "0x0000", 0, 4, [], .pad⟩, byteEntry],
    false⟩

def gappedConfig : EcatConfig :=
  { ecatConfigInitDefaults with
    slaves := some [fakeSlave [gappedPdo] [],
      { fakeSlave [gappedPdo] [⟨text "0x1a00", [], [byteEntry], false⟩] with position := 2 }] }

/-- The second slave's outputs begin in the last bit of the first one's last byte. -/
def gappedMap : SoemMap :=
  ⟨true, [⟨some 0, 0, 15, none, 0, 0⟩, ⟨some 1, 7, 15, some 4, 0, 8⟩],
    ⟨some 0, some 4, 4, 1, 1, 0⟩⟩

theorem gappedMap_bases (isOutput : Bool) : ∀ cfg ∈ gappedConfig.slaveList,
    ∀ mapping ∈ ecatMasterGetSlave gappedMap cfg.position, ∀ base ∈ slaveBase mapping isOutput,
      ∀ region ∈ regionBase gappedMap isOutput, region ≤ base ∧
        base ≤ region + regionBytes gappedMap isOutput ∧ startBit mapping isOutput < 2 ^ 8 := by
  cases isOutput with
  | true => decide
  | false => decide

theorem gappedMap_mapped : MappedFor gappedConfig gappedMap :=
  ⟨rfl, by decide, fun cfg listed mapping found isOutput base region based regioned =>
    (gappedMap_bases isOutput cfg listed mapping found base based region regioned).1,
    by decide, by decide⟩

theorem gappedMap_inside : BasesInside gappedConfig gappedMap :=
  fun cfg listed mapping found isOutput base region based regioned =>
    (gappedMap_bases isOutput cfg listed mapping found base based region regioned).2

theorem gappedMap_fits (isOutput : Bool) : SlicesFit gappedConfig gappedMap isOutput := by
  have slices : ∀ cfg ∈ gappedConfig.slaveList, ∀ slice ∈ slice? gappedMap cfg isOutput,
      slice.1 + slice.2 ≤ 8 * regionBytes gappedMap isOutput ∧
        Packing.total bitSize (flatEntries (directionPdos cfg isOutput)) ≤ slice.2 := by
    cases isOutput with
    | true => decide
    | false => decide
  have apart : gappedConfig.slaveList.Pairwise fun a b =>
      ∀ first ∈ slice? gappedMap a isOutput, ∀ second ∈ slice? gappedMap b isOutput,
        first.1 + first.2 ≤ second.1 ∨ second.1 + second.2 ≤ first.1 := by
    cases isOutput with
    | true => decide
    | false => decide
  exact ⟨fun cfg listed slice sliced => (slices cfg listed slice sliced).1,
    apart.imp fun separate first second sliced other => separate first sliced second other,
    fun cfg listed slice sliced => (slices cfg listed slice sliced).2⟩

theorem layout_offsets_exact_gapped :
    (ecatLayoutBuildEntries gappedConfig gappedMap true).1.entries.map
        (fun entry => (entry.slavePosition, entry.isOutput, entry.bitOffset.toNat)) =
      [(1, true, 0), (1, true, 7), (2, true, 15), (2, true, 22), (2, false, 0)] ∧
    (∀ p ∈ layoutPlaced gappedConfig gappedMap, p.published.bitOffset.toNat = p.offset) ∧
    (ecatLayoutBuildEntries gappedConfig gappedMap true).1.entries.Pairwise (fun a b =>
      a.isOutput = true → b.isOutput = true →
        RangesApart (a.bitOffset.toNat, a.bitLength.toNat) (b.bitOffset.toNat, b.bitLength.toNat)) ∧
    ∀ entry ∈ (ecatLayoutBuildEntries gappedConfig gappedMap true).1.entries,
      entry.isOutput = true → entry.bitOffset.toNat + entry.bitLength.toNat ≤ 32 := by
  obtain ⟨_, _, places, directions⟩ := layout_offsets_exact gappedConfig gappedMap
    gappedMap_mapped (show _ < 2 ^ 20 by decide) gappedMap_inside
  obtain ⟨apart, within⟩ := directions true (gappedMap_fits true)
  exact ⟨by decide, places, apart, within⟩

end EtherDog
