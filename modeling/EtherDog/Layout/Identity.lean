import EtherDog.Layout.Accepted

/-!
# Which entries are published, and what identifies them

Padding is meant by the value of an index and told by its text, so a zero in any
other spelling than `0x0` or `0x0000` is published.  A published entry is
identified by its slave, index and subindex; nothing checks that a slave lists
such a pair once.
-/

set_option autoImplicit false

namespace EtherDog

open CString Checked

/-! ## Lists of which one only leaves elements out -/

section Sublists
variable {α β : Type}

theorem append_eq_of_sublist {a b c d : List β} (first : a.Sublist b) (second : c.Sublist d)
    (same : a ++ c = b ++ d) : a = b ∧ c = d := by
  have total := congrArg List.length same
  rw [List.length_append, List.length_append] at total
  have shorter := first.length_le
  have shorter' := second.length_le
  exact List.append_inj same (by omega)

theorem flatMap_eq_of_sublist {f g : α → List β} {items : List α}
    (fewer : ∀ a ∈ items, (f a).Sublist (g a)) (same : items.flatMap f = items.flatMap g) :
    ∀ a ∈ items, f a = g a := by
  induction items with
  | nil => simp
  | cons item rest ih =>
      have later : ∀ a ∈ rest, (f a).Sublist (g a) := fun a member =>
        fewer a (List.mem_cons_of_mem _ member)
      rw [List.flatMap_cons, List.flatMap_cons] at same
      obtain ⟨head, tail⟩ := append_eq_of_sublist (fewer item (by simp))
        (List.Sublist.flatMap_right rest later) same
      intro a member
      rcases List.mem_cons.mp member with rfl | among
      · exact head
      · exact ih later tail a among

theorem map_filter_eq_iff {p q : α → Bool} (implied : ∀ a, q a = true → p a = true) (f : α → β)
    (items : List α) :
    (items.filter q).map f = (items.filter p).map f ↔ ∀ a ∈ items, p a = true → q a = true := by
  constructor
  · intro same a member kept
    have fewer : (items.filter q).Sublist (items.filter p) :=
      List.monotone_filter_right items implied
    have length := congrArg List.length same
    rw [List.length_map, List.length_map] at length
    have among : a ∈ items.filter q := by
      rw [fewer.eq_of_length length]
      exact List.mem_filter.mpr ⟨member, kept⟩
    exact (List.mem_filter.mp among).2
  · intro back
    rw [List.filter_congr fun a member =>
      Bool.eq_iff_iff.mpr ⟨implied a, back a member⟩]

end Sublists

/-! ## Padding by value -/

/-- Padding as it is meant: a zero index or the data type PAD. -/
def paddingByValue (entry : EcatPdoEntry) : Bool :=
  entry.parsedType == .pad || hexValue entry.index == 0

/-- The entries of a mapped direction that a notion of padding leaves. -/
def mappedEntries (padding : EcatPdoEntry → Bool) (soem : SoemMap) (cfg : EcatSlave)
    (isOutput : Bool) : List EcatLayoutEntry :=
  match ecatMasterGetSlave soem cfg.position with
  | none => []
  | some mapping =>
      match slaveBase mapping isOutput, regionBase soem isOutput with
      | some base, some region =>
          ((Packing.offsets bitSize 0 (flatEntries (directionPdos cfg isOutput))).filter
            fun placed => !padding placed.2.2).map fun placed =>
              layoutEntry cfg isOutput (firstBit base region (startBit mapping isOutput) +
                UInt32.ofNat placed.1) placed.2.1 placed.2.2
      | _, _ => []

def entriesBy (padding : EcatPdoEntry → Bool) (config : EcatConfig) (soem : SoemMap) :
    List EcatLayoutEntry :=
  config.slaveList.flatMap fun cfg =>
    mappedEntries padding soem cfg true ++ mappedEntries padding soem cfg false

theorem layoutEntries_by (config : EcatConfig) (soem : SoemMap) :
    layoutEntries config soem = entriesBy isPadding config soem := by
  unfold layoutEntries entriesBy
  apply List.flatMap_congr
  intro cfg _
  unfold slaveEntries mappedEntries
  cases ecatMasterGetSlave soem cfg.position with
  | none => rfl
  | some mapping => rfl

theorem isPadding_byValue (entry : EcatPdoEntry) (padding : isPadding entry = true) :
    paddingByValue entry = true := by
  have four : hexValue (text "0x0000") = 0 := by decide
  have one : hexValue (text "0x0") = 0 := by decide
  simp only [isPadding, paddingByValue, Bool.or_eq_true, beq_iff_eq] at padding ⊢
  rcases padding with (pad | spelled) | spelled
  · exact Or.inl pad
  · exact Or.inr (by rw [spelled, four])
  · exact Or.inr (by rw [spelled, one])

theorem unpadded_of_value (entry : EcatPdoEntry) (kept : (!paddingByValue entry) = true) :
    (!isPadding entry) = true := by
  cases padding : isPadding entry with
  | false => rfl
  | true => simp [isPadding_byValue entry padding] at kept

/-- The direction has data on the bus. -/
def DirectionMapped (soem : SoemMap) (cfg : EcatSlave) (isOutput : Bool) : Prop :=
  (slice? soem cfg isOutput).isSome = true

instance (soem : SoemMap) (cfg : EcatSlave) (isOutput : Bool) :
    Decidable (DirectionMapped soem cfg isOutput) :=
  inferInstanceAs (Decidable (_ = _))

/-- An index that is not zero, or is zero in one of the two known spellings; or PAD. -/
def ToldByText (entry : EcatPdoEntry) : Prop :=
  entry.parsedType = .pad ∨ hexValue entry.index ≠ 0 ∨ entry.index = text "0x0" ∨
    entry.index = text "0x0000"

instance (entry : EcatPdoEntry) : Decidable (ToldByText entry) :=
  inferInstanceAs (Decidable (_ ∨ _ ∨ _ ∨ _))

theorem toldByText_iff (entry : EcatPdoEntry) :
    ToldByText entry ↔ ((!isPadding entry) = true → (!paddingByValue entry) = true) := by
  simp only [ToldByText, isPadding, paddingByValue, Bool.not_eq_true', Bool.or_eq_false_iff,
    beq_eq_false_iff_ne]
  constructor
  · rintro told ⟨⟨type, four⟩, one⟩
    refine ⟨type, ?_⟩
    rcases told with pad | nonzero | spelled | spelled
    · exact absurd pad type
    · exact nonzero
    · exact absurd spelled one
    · exact absurd spelled four
  · intro told
    by_cases pad : entry.parsedType = .pad
    · exact Or.inl pad
    · by_cases four : entry.index = text "0x0000"
      · exact Or.inr (Or.inr (Or.inr four))
      · by_cases one : entry.index = text "0x0"
        · exact Or.inr (Or.inr (Or.inl one))
        · exact Or.inr (Or.inl (told ⟨⟨pad, four⟩, one⟩).2)

theorem mappedEntries_sublist (soem : SoemMap) (cfg : EcatSlave) (isOutput : Bool) :
    (mappedEntries paddingByValue soem cfg isOutput).Sublist
      (mappedEntries isPadding soem cfg isOutput) := by
  unfold mappedEntries
  split
  · exact List.Sublist.refl _
  · split
    · apply List.Sublist.map
      apply List.monotone_filter_right
      intro placed
      exact unpadded_of_value placed.2.2
    · exact List.Sublist.refl _

theorem mappedEntries_eq_iff (soem : SoemMap) (cfg : EcatSlave) (isOutput : Bool) :
    mappedEntries paddingByValue soem cfg isOutput = mappedEntries isPadding soem cfg isOutput ↔
      (DirectionMapped soem cfg isOutput →
        ∀ item ∈ flatEntries (directionPdos cfg isOutput), ToldByText item.2) := by
  unfold mappedEntries DirectionMapped slice?
  cases ecatMasterGetSlave soem cfg.position with
  | none => simp
  | some mapping =>
      dsimp only
      cases slaveBase mapping isOutput with
      | none => simp
      | some base =>
          cases regionBase soem isOutput with
          | none => simp
          | some region =>
              dsimp only
              rw [map_filter_eq_iff]
              · simp only [Option.isSome_some, forall_const, ← toldByText_iff]
                constructor
                · intro told item member
                  rw [← Packing.offsets_items bitSize 0 (flatEntries _)] at member
                  obtain ⟨placed, among, rfl⟩ := List.mem_map.mp member
                  exact told placed among
                · intro told placed member
                  exact told placed.2 (Packing.offsets_inside bitSize 0 _ placed member).2.2
              · intro placed
                exact unpadded_of_value placed.2.2

/-- The layout of an accepted configuration leaves out exactly the entries whose
index is zero or whose type is PAD, if and only if no zero index of a mapped
direction is spelled otherwise than `0x0` or `0x0000`. -/
theorem layout_padding_by_value_iff (libc : LibC) (config : EcatConfig) (soem : SoemMap)
    (allocated : Bool) (accepted : AcceptedConfig libc config)
    (built : (ecatLayoutBuildEntries config soem allocated).2 = true) :
    (∀ cfg ∈ config.slaveList, ∀ isOutput,
      ∀ item ∈ flatEntries (directionPdos cfg isOutput),
        (∃ lead mark digits, Spelling item.2.index lead mark digits) ∧
          hexValue item.2.index ≤ 0xFFFF) ∧
    ((ecatLayoutBuildEntries config soem allocated).1.entries =
        entriesBy paddingByValue config soem ↔
      ∀ cfg ∈ config.slaveList, ∀ isOutput, DirectionMapped soem cfg isOutput →
        ∀ item ∈ flatEntries (directionPdos cfg isOutput), ToldByText item.2) := by
  refine ⟨fun cfg listed isOutput => accepted.spelled cfg listed isOutput, ?_⟩
  rw [(layoutBuildEntries_spec config soem allocated).2 built, layoutEntries_by]
  constructor
  · intro same cfg listed isOutput
    have slave := flatMap_eq_of_sublist (fun cfg _ => List.Sublist.append
      (mappedEntries_sublist soem cfg true) (mappedEntries_sublist soem cfg false)) same.symm
      cfg listed
    obtain ⟨outputs, inputs⟩ := append_eq_of_sublist (mappedEntries_sublist soem cfg true)
      (mappedEntries_sublist soem cfg false) slave
    apply (mappedEntries_eq_iff soem cfg isOutput).mp
    cases isOutput with
    | true => exact outputs
    | false => exact inputs
  · intro told
    apply List.flatMap_congr
    intro cfg listed
    rw [(mappedEntries_eq_iff soem cfg true).mpr (told cfg listed true),
      (mappedEntries_eq_iff soem cfg false).mpr (told cfg listed false)]

/-- An index `0x00` without PAD is accepted and published. -/
theorem zero_index_published :
    ¬ ∀ (libc : LibC) (config : EcatConfig) (soem : SoemMap) (allocated : Bool),
        AcceptedConfig libc config → (ecatLayoutBuildEntries config soem allocated).2 = true →
        (ecatLayoutBuildEntries config soem allocated).1.entries =
          entriesBy paddingByValue config soem := by
  intro always
  have same := always noLibC (parsedConfig [outputSlave [fakeEntry "0x00" 0 8]]) oneByteMap true
    (parsedConfig_accepted _ (by decide)) (by decide)
  revert same
  decide

theorem layout_padding_by_value_two :
    (ecatLayoutBuildEntries (parsedConfig
        [outputSlave [fakeEntry "0x0000" 0 4, fakeEntry "#x7000" 1 4]]) oneByteMap true).1.entries =
      entriesBy paddingByValue (parsedConfig
        [outputSlave [fakeEntry "0x0000" 0 4, fakeEntry "#x7000" 1 4]]) oneByteMap := by
  apply (layout_padding_by_value_iff noLibC _ oneByteMap true
    (parsedConfig_accepted _ (by decide)) (by decide)).2.mpr
  decide

/-! ## The key of an entry -/

def entryKey (entry : EcatPdoEntry) : Nat × UInt8 := (hexValue entry.index, entry.subindex)

/-- What identifies a published entry. -/
def layoutKey (entry : EcatLayoutEntry) : Int × Nat × UInt8 :=
  (entry.slavePosition, hexValue entry.entryIndex, entry.entrySubindex)

/-- The configured entries of a direction that is mapped, without padding. -/
def exchangedEntries (soem : SoemMap) (cfg : EcatSlave) (isOutput : Bool) : List EcatPdoEntry :=
  match slice? soem cfg isOutput with
  | none => []
  | some _ =>
      ((flatEntries (directionPdos cfg isOutput)).map Prod.snd).filter fun entry => !isPadding entry

theorem mappedEntries_keys (soem : SoemMap) (cfg : EcatSlave) (isOutput : Bool) :
    (mappedEntries isPadding soem cfg isOutput).map layoutKey =
      (exchangedEntries soem cfg isOutput).map fun entry => (cfg.position, entryKey entry) := by
  unfold mappedEntries exchangedEntries slice?
  cases ecatMasterGetSlave soem cfg.position with
  | none => rfl
  | some mapping =>
      dsimp only
      cases slaveBase mapping isOutput with
      | none => rfl
      | some base =>
          cases regionBase soem isOutput with
          | none => rfl
          | some region =>
              dsimp only
              generalize flatEntries (directionPdos cfg isOutput) = items
              have listed := Packing.offsets_items bitSize 0 items
              conv_rhs => rw [← listed]
              rw [List.map_map, List.map_map, List.filter_map, List.map_map]
              rfl

/-- No slave lists an exchanged index and subindex twice, in either direction. -/
def ListedOnce (soem : SoemMap) (cfg : EcatSlave) : Prop :=
  (exchangedEntries soem cfg true ++ exchangedEntries soem cfg false).Pairwise fun a b =>
    entryKey a ≠ entryKey b

instance (soem : SoemMap) (cfg : EcatSlave) : Decidable (ListedOnce soem cfg) :=
  inferInstanceAs (Decidable (List.Pairwise _ _))

theorem layoutKeys_pairwise (soem : SoemMap) (slaves : List EcatSlave)
    (apart : slaves.Pairwise fun a b => a.position ≠ b.position) :
    (slaves.flatMap fun cfg => mappedEntries isPadding soem cfg true ++
        mappedEntries isPadding soem cfg false).Pairwise (fun a b => layoutKey a ≠ layoutKey b) ↔
      ∀ cfg ∈ slaves, ListedOnce soem cfg := by
  have slave (cfg : EcatSlave) :
      (mappedEntries isPadding soem cfg true ++ mappedEntries isPadding soem cfg false).map
        layoutKey = (exchangedEntries soem cfg true ++ exchangedEntries soem cfg false).map
          fun entry => (cfg.position, entryKey entry) := by
    rw [List.map_append, List.map_append, mappedEntries_keys, mappedEntries_keys]
  have within (cfg : EcatSlave) :
      (mappedEntries isPadding soem cfg true ++
        mappedEntries isPadding soem cfg false).Pairwise (fun a b => layoutKey a ≠ layoutKey b) ↔
          ListedOnce soem cfg := by
    unfold ListedOnce
    rw [← List.pairwise_map (f := layoutKey) (R := fun a b => a ≠ b), slave, List.pairwise_map]
    simp
  rw [List.pairwise_flatMap]
  constructor
  · intro unique cfg listed
    exact (within cfg).mp (unique.1 cfg listed)
  · intro once
    refine ⟨fun cfg listed => (within cfg).mpr (once cfg listed), ?_⟩
    refine apart.imp fun {a b} positions x first y second same => ?_
    have keyed (cfg : EcatSlave) (entry : EcatLayoutEntry) (member : entry ∈
        mappedEntries isPadding soem cfg true ++ mappedEntries isPadding soem cfg false) :
        (layoutKey entry).1 = cfg.position := by
      have among := List.mem_map_of_mem (f := layoutKey) member
      rw [slave] at among
      obtain ⟨_, _, key⟩ := List.mem_map.mp among
      rw [← key]
    apply positions
    rw [← keyed a x first, ← keyed b y second, same]

/-- In an accepted configuration no two published entries share slave, index and
subindex, if and only if no slave lists an exchanged pair twice. -/
theorem layout_keys_unique_iff (libc : LibC) (config : EcatConfig) (soem : SoemMap)
    (allocated : Bool) (accepted : AcceptedConfig libc config)
    (built : (ecatLayoutBuildEntries config soem allocated).2 = true) :
    (ecatLayoutBuildEntries config soem allocated).1.entries.Pairwise
        (fun a b => layoutKey a ≠ layoutKey b) ↔
      ∀ cfg ∈ config.slaveList, ListedOnce soem cfg := by
  rw [(layoutBuildEntries_spec config soem allocated).2 built, layoutEntries_by]
  exact layoutKeys_pairwise soem config.slaveList accepted.positions

/-- One PDO may list 0x7000:1 twice, in two spellings. -/
theorem layout_key_twice :
    ¬ ∀ (libc : LibC) (config : EcatConfig) (soem : SoemMap) (allocated : Bool),
        AcceptedConfig libc config → (ecatLayoutBuildEntries config soem allocated).2 = true →
        (ecatLayoutBuildEntries config soem allocated).1.entries.Pairwise
          fun a b => layoutKey a ≠ layoutKey b := by
  intro always
  have unique := always noLibC
    (parsedConfig [outputSlave [fakeEntry "0x7000" 1 4, fakeEntry "#x7000" 1 4]]) oneByteMap true
    (parsedConfig_accepted _ (by decide)) (by decide)
  revert unique
  decide

theorem layout_keys_unique_two :
    (ecatLayoutBuildEntries (parsedConfig
      [outputSlave [fakeEntry "0x7000" 1 4, fakeEntry "0x7000" 2 4]]) oneByteMap
        true).1.entries.Pairwise fun a b => layoutKey a ≠ layoutKey b := by
  apply (layout_keys_unique_iff noLibC _ oneByteMap true
    (parsedConfig_accepted _ (by decide)) (by decide)).mpr
  decide

end EtherDog
