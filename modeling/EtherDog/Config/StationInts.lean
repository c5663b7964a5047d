import EtherDog.Config.Station
import EtherDog.Config.Exact

/-!
# The ints of validate_station (src/config.c)

`validateStation` counts without a bound.  The source counts `slot`, `count`,
`def` and `next` in ints, and where one of them passes INT_MAX it has no
defined behaviour; that is `none` here.  `validateStationInt` returns the turns of the slot loop
that were completed with the result.
-/

set_option autoImplicit false

namespace EtherDog

open Checked Filling

/-- `++` on an int. -/
def incrementInt (v : Int) : Option Int := if v < valueintMax then some (v + 1) else none

/-- The `while` loop with the number of the current definition. -/
def skipDefinitions (mod : Option EcatModule) :
    List EcatSlotDef → Int → Int → Option (List EcatSlotDef × Int × Int)
  | [], defIndex, count => some ([], defIndex, count)
  | slot :: rest, defIndex, count =>
      if slot.maxInstances ≤ count ∨
          (mod.any (fun m => !slotAccepts slot m) = true ∧ slot.minInstances ≤ count) then do
        let defIndex ← incrementInt defIndex
        skipDefinitions mod rest defIndex 0
      else some (slot :: rest, defIndex, count)

/-- `next++` where the module of the slot is taken. -/
def countModule (mod : Option EcatModule) (next : Int) : Option Int :=
  match mod with
  | some _ => incrementInt next
  | none => some next

inductive StationEnd where
  | refused (turns : Nat)
  | filled (turns : Nat) (slots : List EcatSlotDef) (count : Int)
  deriving DecidableEq, Repr

/-- The loop over the slots with `remaining` of them to go. -/
def stationLoop : Nat → Nat → Int → Int → Int → Int → List EcatSlotDef → List EcatModule →
    Option StationEnd
  | 0, turns, _, _, count, _, slots, _ => some (.filled turns slots count)
  | remaining + 1, turns, slot, defIndex, count, next, slots, modules => do
      let (mod, later) := takeModule slot modules
      let next ← countModule mod next
      let (slots, defIndex, count) ← skipDefinitions mod slots defIndex count
      match slots with
      | [] => some (.refused turns)
      | current :: rest =>
          if mod.any (fun m => !slotAccepts current m) then some (.refused turns)
          else do
            let count ← incrementInt count
            let slot ← incrementInt slot
            stationLoop remaining (turns + 1) slot defIndex count next (current :: rest) later

def validateStationInt (slave : EcatSlave) : Option (Nat × Parsed Unit) :=
  let m := slave.modular
  if m.slots = [] ∧ m.modules = [] then some (0, .ok ())
  else if m.present = false ∨ m.slots = [] then some (0, .error .invalid)
  else
    match lastSlot 0 m.modules with
    | none => some (0, .error .invalid)
    | some last =>
        match stationLoop last.toNat 0 1 0 0 0 m.slots m.modules with
        | none => none
        | some (.refused turns) => some (turns, .error .invalid)
        | some (.filled turns slots count) => some (turns, require (minimaMet slots count) .invalid)

/-! ## One turn -/

theorem incrementInt_below {v : Int} (below : v < valueintMax) :
    incrementInt v = some (v + 1) := if_pos below

theorem incrementInt_max {v : Int} (highest : v = valueintMax) : incrementInt v = none := by
  rw [incrementInt, if_neg (by omega)]

/-- Modules are numbered by ints, so taking one keeps `next` in range. -/
theorem countModule_takeModule (slot next : Int) (modules : List EcatModule)
    (counted : next + modules.length ≤ valueintMax) :
    ∃ next', countModule (takeModule slot modules).1 next = some next' ∧
      next' + (takeModule slot modules).2.length ≤ valueintMax := by
  cases modules with
  | nil => exact ⟨next, rfl, counted⟩
  | cons mod rest =>
      simp only [List.length_cons, Nat.cast_add, Nat.cast_one] at counted
      unfold takeModule
      by_cases here : mod.slot = slot
      · simp only [if_pos here]
        exact ⟨next + 1, incrementInt_below (by omega), by omega⟩
      · simp only [if_neg here]
        exact ⟨next, rfl, by simpa using counted⟩

/-- Definitions are numbered by ints, so the `while` loop stays in range. -/
theorem skipDefinitions_eq (mod : Option EcatModule) (slots : List EcatSlotDef)
    (defIndex count : Int) (numbered : defIndex + slots.length ≤ valueintMax) :
    ∃ defIndex', skipDefinitions mod slots defIndex count =
        some ((nextDefinition mod slots count).1, defIndex', (nextDefinition mod slots count).2) ∧
      defIndex' + (nextDefinition mod slots count).1.length ≤ valueintMax := by
  induction slots generalizing defIndex count with
  | nil => exact ⟨defIndex, rfl, numbered⟩
  | cons slot rest ih =>
      simp only [List.length_cons, Nat.cast_add, Nat.cast_one] at numbered
      rw [skipDefinitions, nextDefinition]
      split
      · obtain ⟨defIndex', skipped, numbered'⟩ := ih (defIndex + 1) 0 (by omega)
        rw [incrementInt_below (by omega)]
        exact ⟨defIndex', skipped, numbered'⟩
      · exact ⟨defIndex, rfl, by simpa using numbered⟩

/-- The definition the `while` loop ends on has room. -/
theorem nextDefinition_room {mod : Option EcatModule} {slots rest : List EcatSlotDef}
    {current : EcatSlotDef} {count held : Int}
    (ended : nextDefinition mod slots count = (current :: rest, held)) :
    held < current.maxInstances ∧ (current :: rest).length ≤ slots.length ∧ current ∈ slots ∧
      (∀ slot ∈ rest, slot ∈ slots) ∧ (held = count ∨ held = 0) := by
  induction slots generalizing count with
  | nil => simp [nextDefinition] at ended
  | cons slot others ih =>
      rw [nextDefinition] at ended
      split at ended
      · obtain ⟨room, shorter, member, members, starts⟩ := ih ended
        refine ⟨room, by simp at shorter ⊢; omega, List.mem_cons_of_mem _ member, ?_, Or.inr ?_⟩
        · exact fun other there => List.mem_cons_of_mem _ (members other there)
        · omega
      · rename_i stays
        cases ended
        have room : held < current.maxInstances := by
          by_contra full
          exact stays (Or.inl (by omega))
        exact ⟨room, le_rfl, by simp, fun other there => List.mem_cons_of_mem _ there, Or.inl rfl⟩

/-! ## The loop -/

/-- The definitions left and the modules left are counted by ints, and so is the
slot the loop stands at. -/
structure LoopInts (remaining : Nat) (slot defIndex next : Int) (slots : List EcatSlotDef)
    (modules : List EcatModule) : Prop where
  slotHigh : slot ≤ valueintMax
  lastHigh : slot + remaining ≤ valueintMax + 1
  numbered : defIndex + slots.length ≤ valueintMax
  counted : next + modules.length ≤ valueintMax
  bounded : ∀ definition ∈ slots, definition.maxInstances ≤ valueintMax

/-- How the loop ends, by what the unbounded loop does: `slot++` behind the slot
INT_MAX is the only int that can leave its range. -/
inductive LoopEnds (remaining turns : Nat) (slot : Int) :
    Option (List EcatSlotDef × Int) → Option StationEnd → Prop where
  | refused (at_ : Nat) (before : at_ < turns + remaining) :
      LoopEnds remaining turns slot none (some (.refused at_))
  | filled (slots : List EcatSlotDef) (count : Int) (inRange : slot + remaining ≤ valueintMax) :
      LoopEnds remaining turns slot (some (slots, count))
        (some (.filled (turns + remaining) slots count))
  | overflow (slots : List EcatSlotDef) (count : Int)
      (outOfRange : slot + remaining = valueintMax + 1) :
      LoopEnds remaining turns slot (some (slots, count)) none

theorem stationLoop_ends (remaining turns : Nat) (slot defIndex count next : Int)
    (slots : List EcatSlotDef) (modules : List EcatModule)
    (ints : LoopInts remaining slot defIndex next slots modules) :
    LoopEnds remaining turns slot (fillSlots remaining slot slots count modules)
      (stationLoop remaining turns slot defIndex count next slots modules) := by
  induction remaining generalizing turns slot defIndex count next slots modules with
  | zero =>
      refine .filled slots count ?_
      simpa using ints.slotHigh
  | succ remaining ih =>
      have last := ints.lastHigh
      simp only [Nat.cast_add, Nat.cast_one] at last
      obtain ⟨next', took, counted⟩ := countModule_takeModule slot next modules ints.counted
      obtain ⟨defIndex', skipped, numbered⟩ := skipDefinitions_eq (takeModule slot modules).1 slots
        defIndex count ints.numbered
      rw [fillSlots, stationLoop]
      dsimp only
      rw [took]
      simp only [Option.bind_eq_bind, Option.bind_some, skipped]
      rcases ended : nextDefinition (takeModule slot modules).1 slots count with ⟨left, held⟩
      rw [ended] at numbered
      cases left with
      | nil => exact .refused turns (by omega)
      | cons current rest =>
          dsimp only
          split
          · exact .refused turns (by omega)
          · obtain ⟨room, _, member, members, _⟩ := nextDefinition_room ended
            have full := ints.bounded current member
            rw [incrementInt_below (by omega), Option.bind_some]
            by_cases highest : slot = valueintMax
            · -- the last slot is INT_MAX, and the source still counts one up
              have remains : remaining = 0 := by omega
              subst remains
              rw [incrementInt_max highest]
              exact .overflow _ _ (by simp [highest])
            · have below : slot < valueintMax := by
                have high := ints.slotHigh
                omega
              rw [incrementInt_below below, Option.bind_some]
              have later := ih (turns + 1) (slot + 1) defIndex' (held + 1) next' (current :: rest)
                (takeModule slot modules).2 {
                  slotHigh := by omega
                  lastHigh := by omega
                  numbered := numbered
                  counted := counted
                  bounded := by
                    intro definition there
                    rcases List.mem_cons.mp there with rfl | there
                    · exact full
                    · exact ints.bounded definition (members definition there) }
              generalize fillSlots remaining (slot + 1) (current :: rest) (held + 1)
                (takeModule slot modules).2 = unbounded at later ⊢
              generalize stationLoop remaining (turns + 1) (slot + 1) defIndex' (held + 1) next'
                (current :: rest) (takeModule slot modules).2 = counting at later ⊢
              cases later with
              | refused at_ before => exact .refused at_ (by omega)
              | filled slots count inRange =>
                  have turnsDone : turns + 1 + remaining = turns + (remaining + 1) := by omega
                  rw [turnsDone]
                  exact .filled slots count (by push_cast; omega)
              | overflow slots count outOfRange => exact .overflow slots count (by push_cast; omega)

/-! ## The sections that parse_modular accepts -/

/-- What `parse_slot_def`, `parse_module` and the int fields promise. -/
structure SectionInts (m : EcatModular) : Prop where
  definitions : ∀ slot ∈ m.slots, 0 ≤ slot.minInstances ∧ slot.minInstances ≤ slot.maxInstances ∧
    1 ≤ slot.maxInstances ∧ slot.maxInstances ≤ valueintMax
  modules : ∀ mod ∈ m.modules, 1 ≤ mod.slot ∧ mod.slot ≤ valueintMax
  slotCount : (m.slots.length : Int) ≤ valueintMax
  moduleCount : (m.modules.length : Int) ≤ valueintMax
  present : m.slots ≠ [] → m.present = true

theorem valueintOf_le (number : Double) : valueintOf number ≤ valueintMax := by
  cases number with
  | finite q =>
      rw [valueintOf]
      split
      · exact le_rfl
      · rename_i below
        split
        · decide
        · have small : q < (valueintMax : Rat) := not_le.mp below
          split
          · exact Int.floor_le_iff.mpr (small.trans (lt_add_one _))
          · exact Rat.ceil_le_iff.mpr small.le
  | infinite negative => cases negative <;> decide
  | nan => decide

theorem getInt_le {json : Json} (read : json.Read) (key : String) :
    getInt json key 0 ≤ valueintMax := by
  unfold getInt
  split
  · rename_i found
    have item := read.item found
    cases item
    exact valueintOf_le _
  · decide

theorem parseModule_slot {json : Json} {mod : EcatModule} (parsed : parseModule json = .ok mod) :
    mod.slot = getInt json "slot" 0 ∧ 1 ≤ mod.slot := by
  unfold parseModule at parsed
  obtain ⟨_, positive, parsed⟩ := bind_eq_ok.mp parsed
  rw [require_eq_ok, decide_eq_true_eq] at positive
  split at parsed
  · simp at parsed
  · cases parsed
    exact ⟨rfl, positive⟩

theorem parseModular_present {alloc : Alloc} {json? : Option Json} {m : EcatModular}
    (accepted : parseModular alloc json? = .ok m) (nonempty : m.slots ≠ []) :
    m.present = true := by
  unfold parseModular at accepted
  split at accepted
  · cases accepted
    exact absurd rfl nonempty
  · obtain ⟨_, _, accepted⟩ := bind_eq_ok.mp accepted
    obtain ⟨slots, _, accepted⟩ := bind_eq_ok.mp accepted
    obtain ⟨modules, _, accepted⟩ := bind_eq_ok.mp accepted
    cases accepted
    rfl
  · simp at accepted

theorem parseModular_ints {alloc : Alloc} {json? : Option Json} {m : EcatModular}
    (read : ∀ json ∈ json?, json.Read) (accepted : parseModular alloc json? = .ok m)
    (slotCount : (m.slots.length : Int) ≤ valueintMax)
    (moduleCount : (m.modules.length : Int) ≤ valueintMax) : SectionInts m := by
  have parsed := parseModular_ok accepted
  have readWhole : (json?.getD .null).Read := by
    cases json? with
    | none => exact .null
    | some json => exact read json rfl
  refine ⟨?_, ?_, slotCount, moduleCount, parseModular_present accepted⟩
  · intro slot member
    obtain ⟨json, here, definition⟩ := exists_source parsed.slots member
    have high := getInt_le (readWhole.mem_items here) "max_instances"
    have ordered := definition.ordered
    rw [← definition.maxInstances] at high
    exact ⟨ordered.1, ordered.2.2, ordered.2.1, high⟩
  · intro mod member
    obtain ⟨json, here, parsedModule⟩ := exists_source parsed.modules member
    obtain ⟨slot, positive⟩ := parseModule_slot parsedModule
    have high := getInt_le (readWhole.mem_items here) "slot"
    rw [← slot] at high
    exact ⟨positive, high⟩

/-! ## The whole check -/

/-- The check returns: every int stayed in range, and the slot loop made all its
turns or the section was refused before. -/
def StaysInRange (slave : EcatSlave) : Prop :=
  ∃ turns result, validateStationInt slave = some (turns, result) ∧
    (turns = (highestSlot slave.modular.modules).toNat ∨
      (turns < (highestSlot slave.modular.modules).toNat ∧ result = .error .invalid))

/-- A module stands in slot INT_MAX and the filling rule gets through all slots. -/
def FillsSlotIntMax (m : EcatModular) : Prop :=
  m.slots ≠ [] ∧ RisingSlots m.modules ∧ highestSlot m.modules = valueintMax ∧
    FilledFrom slotRules m.slots 0 (occupants valueintMax.toNat 1 m.modules)

theorem highestSlot_bounds {m : EcatModular} (ints : SectionInts m) (nonempty : m.modules ≠ []) :
    1 ≤ highestSlot m.modules ∧ highestSlot m.modules ≤ valueintMax := by
  rw [highestSlot, List.getLast?_eq_some_getLast nonempty]
  exact ints.modules _ (List.getLast_mem nonempty)

theorem lastSlot_zero {m : EcatModular} (ints : SectionInts m) :
    (RisingSlots m.modules → lastSlot 0 m.modules = some (highestSlot m.modules)) ∧
      (¬ RisingSlots m.modules → lastSlot 0 m.modules = none) := by
  constructor
  · intro rising
    rw [lastSlot_eq_some_iff]
    refine ⟨rising, fun mod member => ?_, rfl⟩
    have positive := (ints.modules mod member).1
    omega
  · intro notRising
    cases found : lastSlot 0 m.modules with
    | none => rfl
    | some last => exact absurd ((lastSlot_eq_some_iff _ _ _).mp found).1 notRising

/-- With rules and modules in order, the loop does what greedy filling does. -/
theorem stationLoop_rising {m : EcatModular} (ints : SectionInts m)
    (rising : RisingSlots m.modules) (low : 0 ≤ highestSlot m.modules)
    (high : highestSlot m.modules ≤ valueintMax) :
    LoopEnds (highestSlot m.modules).toNat 0 1
      (fill slotRules (occupants (highestSlot m.modules).toNat 1 m.modules) m.slots 0)
      (stationLoop (highestSlot m.modules).toNat 0 1 0 0 0 m.slots m.modules) := by
  rw [← fillSlots_eq _ _ _ _ _ rising fun mod member => (ints.modules mod member).1]
  exact stationLoop_ends _ _ _ _ _ _ _ _ {
    slotHigh := by decide
    lastHigh := by omega
    numbered := by simpa using ints.slotCount
    counted := by simpa using ints.moduleCount
    bounded := fun definition member => (ints.definitions definition member).2.2.2 }

theorem highestSlot_range {m : EcatModular} (ints : SectionInts m) :
    0 ≤ highestSlot m.modules ∧ highestSlot m.modules ≤ valueintMax := by
  by_cases empty : m.modules = []
  · rw [empty]
    decide
  · have bounds := highestSlot_bounds ints empty
    omega

theorem most_nonneg {m : EcatModular} (ints : SectionInts m) :
    ∀ slot ∈ m.slots, 0 ≤ slotRules.most slot := by
  intro slot member
  have positive := (ints.definitions slot member).2.2.1
  change 0 ≤ slot.maxInstances
  omega

theorem filledFrom_occupants_iff {m : EcatModular} (ints : SectionInts m) (nonempty : m.slots ≠ [])
    (items : List (Option EcatModule)) :
    FilledFrom slotRules m.slots 0 items ↔ ∃ result, fill slotRules items m.slots 0 = some result :=
  filledFrom_iff slotRules nonempty
    (fun slot first => most_nonneg ints slot (List.mem_of_mem_head? first)) (most_nonneg ints)

/-- Without rules or without order the check ends before the loop. -/
theorem validateStationInt_early {slave : EcatSlave} (ints : SectionInts slave.modular)
    (early : slave.modular.slots = [] ∨ ¬ RisingSlots slave.modular.modules) :
    (slave.modular.slots = [] ∧ slave.modular.modules = [] ∧
      validateStationInt slave = some (0, .ok ())) ∨
    (slave.modular.modules ≠ [] ∧ validateStationInt slave = some (0, .error .invalid)) := by
  by_cases modules : slave.modular.modules = []
  · have slots : slave.modular.slots = [] := by
      rcases early with slots | disordered
      · exact slots
      · exact absurd (by simp [modules, RisingSlots]) disordered
    exact Or.inl ⟨slots, modules, by simp [validateStationInt, slots, modules]⟩
  · refine Or.inr ⟨modules, ?_⟩
    by_cases slots : slave.modular.slots = []
    · simp [validateStationInt, slots, modules]
    · have present := ints.present slots
      rcases early with none | disordered
      · exact absurd none slots
      · simp [validateStationInt, slots, present, (lastSlot_zero ints).2 disordered]

/-- With rules and order the check does what greedy filling says, unless the last
slot is INT_MAX and would be filled. -/
theorem validateStationInt_rising {slave : EcatSlave} (ints : SectionInts slave.modular)
    (nonempty : slave.modular.slots ≠ []) (rising : RisingSlots slave.modular.modules) :
    let m := slave.modular
    let last := highestSlot m.modules
    let filling := fill slotRules (occupants last.toNat 1 m.modules) m.slots 0
    (filling = none ∧
      ∃ turns < last.toNat, validateStationInt slave = some (turns, .error .invalid)) ∨
    (∃ left holds, filling = some (left, holds) ∧ last < valueintMax ∧ validateStationInt slave =
      some (last.toNat, require (satisfied slotRules left holds) .invalid)) ∨
    (∃ left holds, filling = some (left, holds) ∧ last = valueintMax ∧
      validateStationInt slave = none) := by
  intro m last filling
  have range : 0 ≤ last ∧ last ≤ valueintMax := highestSlot_range ints
  have ends := stationLoop_rising ints rising range.1 range.2
  have unfolded : validateStationInt slave =
      match stationLoop last.toNat 0 1 0 0 0 m.slots m.modules with
      | none => none
      | some (.refused turns) => some (turns, .error .invalid)
      | some (.filled turns slots count) =>
          some (turns, require (minimaMet slots count) .invalid) := by
    simp [validateStationInt, nonempty, ints.present nonempty, (lastSlot_zero ints).1 rising]
    rfl
  rw [unfolded]
  generalize fillingExact : filling = found at ends ⊢
  change LoopEnds last.toNat 0 1 filling _ at ends
  rw [fillingExact] at ends
  generalize stationLoop last.toNat 0 1 0 0 0 m.slots m.modules = ending at ends ⊢
  cases ends with
  | refused turns before => exact Or.inl ⟨rfl, turns, by omega, rfl⟩
  | filled left holds inRange =>
      refine Or.inr (Or.inl ⟨left, holds, rfl, by omega, ?_⟩)
      rw [Nat.zero_add, ← minimaMet_eq]
  | overflow left holds outOfRange => exact Or.inr (Or.inr ⟨left, holds, rfl, by omega, rfl⟩)

theorem staysInRange_iff {slave : EcatSlave} (ints : SectionInts slave.modular) :
    StaysInRange slave ↔ ¬ FillsSlotIntMax slave.modular := by
  by_cases looped : slave.modular.slots ≠ [] ∧ RisingSlots slave.modular.modules
  · obtain ⟨nonempty, rising⟩ := looped
    have placed := filledFrom_occupants_iff ints nonempty
    rcases validateStationInt_rising ints nonempty rising with
      ⟨unfilled, turns, before, returned⟩ | ⟨left, holds, filled, below, returned⟩ |
      ⟨left, holds, filled, highest, overflow⟩
    · refine iff_of_true ⟨turns, _, returned, Or.inr ⟨before, rfl⟩⟩ ?_
      rintro ⟨_, _, highest, fills⟩
      rw [highest] at unfilled
      obtain ⟨result, filled⟩ := (placed _).mp fills
      rw [unfilled] at filled
      simp at filled
    · refine iff_of_true ⟨_, _, returned, Or.inl rfl⟩ ?_
      rintro ⟨_, _, highest, _⟩
      omega
    · refine iff_of_false ?_ ?_
      · rintro ⟨turns, result, returned, _⟩
        rw [overflow] at returned
        simp at returned
      · rw [highest] at filled
        exact fun stays => stays ⟨nonempty, rising, highest, (placed _).mpr ⟨_, filled⟩⟩
  · have early : slave.modular.slots = [] ∨ ¬ RisingSlots slave.modular.modules := by
      by_contra both
      simp only [not_or, not_not] at both
      exact looped both
    have past : ¬ FillsSlotIntMax slave.modular := fun fills => looped ⟨fills.1, fills.2.1⟩
    rcases validateStationInt_early ints early with
      ⟨_, modules, returned⟩ | ⟨modules, returned⟩
    · refine iff_of_true ⟨0, _, returned, Or.inl ?_⟩ past
      simp [modules, highestSlot]
    · have positive := (highestSlot_bounds ints modules).1
      exact iff_of_true ⟨0, _, returned, Or.inr ⟨by omega, rfl⟩⟩ past

/-- Every int of the check stays in range, and its loop ends after the last slot or
at an earlier refusal, exactly where the filling rule does not get through a
module in slot INT_MAX.  Counts are those of a file of at most 1 MB. -/
theorem station_stays_in_range_iff (alloc : Alloc) (json? : Option Json) (slave : EcatSlave)
    (read : ∀ json ∈ json?, json.Read)
    (accepted : parseModular alloc json? = .ok slave.modular)
    (slotCount : (slave.modular.slots.length : Int) ≤ valueintMax)
    (moduleCount : (slave.modular.modules.length : Int) ≤ valueintMax) :
    StaysInRange slave ↔ ¬ FillsSlotIntMax slave.modular :=
  staysInRange_iff (parseModular_ints read accepted slotCount moduleCount)

/-! ## One definition for any number of slots, and a module in the last one -/

def lastSlotSection : Json :=
  jsonObject [
    ("slots", .array [jsonObject [("max_instances", jsonInt valueintMax)]]),
    ("modules", .array [jsonObject [("slot", jsonInt valueintMax), ("ident", jsonText "0x1")]])]

def anySlots : EcatSlotDef := ⟨0, valueintMax, [], []⟩

def lastSlotModular : EcatModular := ⟨true, 0, [anySlots], [⟨valueintMax, 1, []⟩]⟩

def couplerSlave (m : EcatModular) : EcatSlave where
  position := 1
  name := []
  type := []
  vendorId := 1
  productCode := 1
  revision := 0
  channels := []
  sdoConfigs := []
  rxPdos := []
  txPdos := []
  startupChecks := ⟨true, true⟩
  ethercatAddress := 0
  timeouts := ⟨0, 0, 0⟩
  watchdog := ⟨false, 0, false, 0⟩
  dc := ⟨false, 0, false, 0, 0, false, 0, 0⟩
  strictSdo := false
  mandatoryPdos := []
  modular := m

theorem jsonInt_max_read : (jsonInt valueintMax).Read := by
  have saturated : valueintOf (.finite (valueintMax : Rat)) = valueintMax := by
    simp [valueintOf]
  have read := Json.Read.number (.finite (valueintMax : Rat))
  rw [saturated] at read
  exact read

theorem lastSlotSection_read : lastSlotSection.Read := by
  have definition : (jsonObject [("max_instances", jsonInt valueintMax)]).Read :=
    jsonObject_read (by simpa using jsonInt_max_read)
  have mod : (jsonObject [("slot", jsonInt valueintMax), ("ident", jsonText "0x1")]).Read :=
    jsonObject_read (by simpa using ⟨jsonInt_max_read, Json.Read.string _⟩)
  have arrays := And.intro (Json.Read.array _ (List.forall_mem_singleton.mpr definition))
    (Json.Read.array _ (List.forall_mem_singleton.mpr mod))
  exact jsonObject_read (by simpa using arrays)

theorem lastSlotSection_parsed :
    parseModular (fun _ => true) (some lastSlotSection) = .ok lastSlotModular := by
  decide

/-- Every slot goes to the one definition. -/
theorem lastSlotModular_fills : FillsSlotIntMax lastSlotModular := by
  have length : ((occupants valueintMax.toNat 1 lastSlotModular.modules).length : Int) =
      valueintMax := by
    rw [length_occupants]
    decide
  refine ⟨by decide, by simp [lastSlotModular, RisingSlots], rfl, .last ?_ ?_⟩
  · rw [length]
    exact le_of_eq (zero_add _)
  · intro standing _
    cases standing with
    | none => rfl
    | some mod => rfl

theorem lastSlotModular_overflows :
    ¬ ∀ (alloc : Alloc) (json? : Option Json) (slave : EcatSlave), (∀ json ∈ json?, json.Read) →
      parseModular alloc json? = .ok slave.modular →
      (slave.modular.slots.length : Int) ≤ valueintMax →
      (slave.modular.modules.length : Int) ≤ valueintMax → StaysInRange slave := by
  intro always
  have read : ∀ json ∈ some lastSlotSection, json.Read := by
    intro json same
    cases same
    exact lastSlotSection_read
  have stays := always (fun _ => true) (some lastSlotSection) (couplerSlave lastSlotModular) read
    lastSlotSection_parsed (by decide) (by decide)
  exact (staysInRange_iff (parseModular_ints read lastSlotSection_parsed (by decide)
    (by decide))).mp stays lastSlotModular_fills

/-! ## Two definitions, and modules in slots 1 and 3 -/

def twoSlotsSection : Json :=
  jsonObject [
    ("slots", .array [
      jsonObject [("max_instances", jsonInt 2), ("module_classes", .array [jsonText "di"])],
      jsonObject [("max_instances", jsonInt 2), ("module_idents", .array [jsonText "0x2"])]]),
    ("modules", .array [
      jsonObject [("slot", jsonInt 1), ("ident", jsonText "0x1"), ("class", jsonText "di")],
      jsonObject [("slot", jsonInt 3), ("ident", jsonText "0x2")]])]

def twoSlotsModular : EcatModular :=
  ⟨true, 0, [⟨0, 2, [CString.text "di"], []⟩, ⟨0, 2, [], [2]⟩], [⟨1, 1, CString.text "di"⟩, ⟨3, 2, []⟩]⟩

theorem twoSlotsSection_read : twoSlotsSection.Read := by
  have small {v : Int} (low : 0 ≤ v) (high : v < 2 ^ 16) := jsonInt_read low high
  have words (s : String) : (jsonText s).Read := .string _
  have classes : (Json.array [jsonText "di"]).Read := .array _ (by simpa using words "di")
  have idents : (Json.array [jsonText "0x2"]).Read := .array _ (by simpa using words "0x2")
  have first : (jsonObject [("max_instances", jsonInt 2),
      ("module_classes", .array [jsonText "di"])]).Read :=
    jsonObject_read (by simpa using ⟨small (by decide) (by decide), classes⟩)
  have second : (jsonObject [("max_instances", jsonInt 2),
      ("module_idents", .array [jsonText "0x2"])]).Read :=
    jsonObject_read (by simpa using ⟨small (by decide) (by decide), idents⟩)
  have one : (jsonObject [("slot", jsonInt 1), ("ident", jsonText "0x1"),
      ("class", jsonText "di")]).Read :=
    jsonObject_read (by simpa using ⟨small (by decide) (by decide), words "0x1", words "di"⟩)
  have three : (jsonObject [("slot", jsonInt 3), ("ident", jsonText "0x2")]).Read :=
    jsonObject_read (by simpa using ⟨small (by decide) (by decide), words "0x2"⟩)
  have slots := Json.Read.array _ (List.forall_mem_cons.mpr
    ⟨first, List.forall_mem_singleton.mpr second⟩)
  have modules := Json.Read.array _ (List.forall_mem_cons.mpr
    ⟨one, List.forall_mem_singleton.mpr three⟩)
  exact jsonObject_read (by simpa using ⟨slots, modules⟩)

theorem twoSlotsSection_parsed :
    parseModular (fun _ => true) (some twoSlotsSection) = .ok twoSlotsModular := by
  decide

/-- The loop makes three turns and is through. -/
theorem station_stays_in_range_iff_two :
    validateStationInt (couplerSlave twoSlotsModular) = some (3, .ok ()) ∧
      StaysInRange (couplerSlave twoSlotsModular) := by
  have read : ∀ json ∈ some twoSlotsSection, json.Read := by
    intro json same
    cases same
    exact twoSlotsSection_read
  refine ⟨by decide, (station_stays_in_range_iff (fun _ => true) (some twoSlotsSection)
    (couplerSlave twoSlotsModular) read twoSlotsSection_parsed (by decide) (by decide)).mpr ?_⟩
  rintro ⟨_, _, highest, _⟩
  exact absurd highest (by decide)

/-! ## Greedy filling and assignments -/

/-- The check accepts only assignable stations, and where no definition needs a
module every assignable one. -/
def GreedyExact (slave : EcatSlave) : Prop :=
  let m := slave.modular
  let last := (highestSlot m.modules).toNat
  let accepts := ∃ turns, validateStationInt slave = some (turns, .ok ())
  (accepts → m.slots ≠ [] → RisingSlots m.modules ∧ ∃ f, Assignment m last f) ∧
    ((∀ slot ∈ m.slots, slot.minInstances = 0) → RisingSlots m.modules →
      (∃ f, Assignment m last f) → accepts)

/-- The converse has something to say and the highest slot is INT_MAX. -/
def AssignableIntMax (m : EcatModular) : Prop :=
  (∀ slot ∈ m.slots, slot.minInstances = 0) ∧ RisingSlots m.modules ∧
    highestSlot m.modules = valueintMax ∧ ∃ f, Assignment m valueintMax.toNat f

theorem slots_inside {m : EcatModular} (ints : SectionInts m) (rising : RisingSlots m.modules) :
    ∀ mod ∈ m.modules, 1 ≤ mod.slot ∧ mod.slot ≤ (highestSlot m.modules).toNat := by
  intro mod member
  have nonempty : m.modules ≠ [] := List.ne_nil_of_mem member
  have low := (ints.modules mod member).1
  have high : mod.slot ≤ highestSlot m.modules := by
    rw [highestSlot, List.getLast?_eq_some_getLast nonempty]
    change mod.slot ≤ (m.modules.getLast nonempty).slot
    rw [← List.dropLast_append_getLast nonempty] at member rising
    rcases List.mem_append.mp member with before | last
    · exact ((List.pairwise_append.mp rising).2.2 mod before _ (by simp)).le
    · rw [List.mem_singleton.mp last]
  exact ⟨low, by omega⟩

/-- Soundness: whatever is accepted can be assigned. -/
theorem accepted_assignable {slave : EcatSlave} (ints : SectionInts slave.modular) {turns : Nat}
    (accepted : validateStationInt slave = some (turns, .ok ()))
    (nonempty : slave.modular.slots ≠ []) :
    RisingSlots slave.modular.modules ∧
      ∃ f, Assignment slave.modular (highestSlot slave.modular.modules).toNat f := by
  have rising : RisingSlots slave.modular.modules := by
    by_contra disordered
    rcases validateStationInt_early ints (Or.inr disordered) with ⟨none, _⟩ | ⟨_, refused⟩
    · exact nonempty none
    · rw [refused] at accepted
      simp at accepted
  refine ⟨rising, (exists_assignment_iff rising (slots_inside ints rising)).mpr ?_⟩
  rcases validateStationInt_rising ints nonempty rising with
    ⟨_, _, _, refused⟩ | ⟨left, holds, filled, _, returned⟩ | ⟨_, _, _, _, overflow⟩
  · rw [refused] at accepted
    simp at accepted
  · rw [returned, Option.some.injEq, Prod.mk.injEq, require_eq_ok] at accepted
    refine fill_sound slotRules filled accepted.2 (fun slot first => ?_) (fun slot member => ?_)
    · exact most_nonneg ints slot (List.mem_of_mem_head? first)
    · exact ⟨most_nonneg ints slot member, (ints.definitions slot member).2.1⟩
  · rw [overflow] at accepted
    simp at accepted

/-- Completeness without minima: the loop gets through, if its ints do. -/
theorem assignable_accepted {slave : EcatSlave} (ints : SectionInts slave.modular)
    (free : ∀ slot ∈ slave.modular.slots, slot.minInstances = 0)
    (rising : RisingSlots slave.modular.modules)
    (assignable : ∃ f, Assignment slave.modular (highestSlot slave.modular.modules).toNat f) :
    (∃ turns, validateStationInt slave = some (turns, .ok ())) ↔
      highestSlot slave.modular.modules ≠ valueintMax := by
  by_cases nonempty : slave.modular.slots = []
  · -- without definitions there is no slot to assign
    have modules : slave.modular.modules = [] := by
      by_contra modules
      obtain ⟨f, assigned⟩ := assignable
      have positive := (highestSlot_bounds ints modules).1
      have range := assigned.inRange 1 le_rfl (by omega)
      simp [nonempty] at range
    refine iff_of_true ⟨0, by simp [validateStationInt, nonempty, modules]⟩ ?_
    simp [modules, highestSlot, valueintMax]
  · obtain ⟨parts, split, same⟩ :=
      (exists_assignment_iff rising (slots_inside ints rising)).mp assignable
    obtain ⟨left, holds, filled, met⟩ := fill_complete slotRules free le_rfl split same
    rcases validateStationInt_rising ints nonempty rising with
      ⟨unfilled, _⟩ | ⟨left', holds', filled', below, returned⟩ | ⟨_, _, _, highest, overflow⟩
    · rw [unfilled] at filled
      simp at filled
    · rw [filled', Option.some.injEq, Prod.mk.injEq] at filled
      obtain ⟨rfl, rfl⟩ := filled
      rw [met] at returned
      exact iff_of_true ⟨_, returned⟩ (by omega)
    · refine iff_of_false ?_ (by simp [highest])
      rintro ⟨turns, returned⟩
      rw [overflow] at returned
      simp at returned

/-- The greedy check is sound everywhere, and complete without minima wherever the
highest slot is below INT_MAX. -/
theorem greedy_check_exact_iff (slave : EcatSlave) (ints : SectionInts slave.modular) :
    GreedyExact slave ↔ ¬ AssignableIntMax slave.modular := by
  constructor
  · rintro ⟨_, complete⟩ ⟨free, rising, highest, assignable⟩
    rw [← highest] at assignable
    exact (assignable_accepted ints free rising assignable).mp (complete free rising assignable)
      highest
  · intro below
    constructor
    · rintro ⟨turns, accepted⟩ nonempty
      exact accepted_assignable ints accepted nonempty
    · intro free rising assignable
      refine (assignable_accepted ints free rising assignable).mpr fun highest => ?_
      rw [highest] at assignable
      exact below ⟨free, rising, highest, assignable⟩

theorem twoSlotsModular_ints : SectionInts twoSlotsModular :=
  ⟨by decide, by decide +kernel, by decide, by decide, fun _ => rfl⟩

/-- The three slots are assigned: two to the first definition, one to the second. -/
theorem greedy_check_exact_iff_two :
    GreedyExact (couplerSlave twoSlotsModular) ∧ RisingSlots twoSlotsModular.modules ∧
      ∃ f, Assignment twoSlotsModular 3 f := by
  have exact_ : GreedyExact (couplerSlave twoSlotsModular) := by
    refine (greedy_check_exact_iff (couplerSlave twoSlotsModular) twoSlotsModular_ints).mpr ?_
    rintro ⟨_, _, highest, _⟩
    exact absurd highest (by decide)
  have accepted : validateStationInt (couplerSlave twoSlotsModular) = some (3, .ok ()) := by
    decide
  exact ⟨exact_, exact_.1 ⟨3, accepted⟩ (by decide)⟩

theorem lastSlotModular_ints : SectionInts lastSlotModular :=
  ⟨by simp [lastSlotModular, anySlots, valueintMax], by simp [lastSlotModular, valueintMax],
    by decide, by decide, by simp [lastSlotModular]⟩

/-- The last slot can be assigned, and the check does not return. -/
theorem lastSlotModular_not_accepted :
    ¬ ∀ slave : EcatSlave, SectionInts slave.modular → GreedyExact slave := by
  intro always
  have exact_ := always (couplerSlave lastSlotModular) lastSlotModular_ints
  have held : heldBy (fun _ => 0) valueintMax.toNat 0 = valueintMax.toNat := by
    simp [heldBy]
  refine (greedy_check_exact_iff (couplerSlave lastSlotModular) lastSlotModular_ints).mp exact_
    ⟨by simp [couplerSlave, lastSlotModular, anySlots],
      by simp [couplerSlave, lastSlotModular, RisingSlots], rfl, fun _ => 0, ?_, ?_, ?_, ?_⟩
  · intro s _ _
    simp [couplerSlave, lastSlotModular]
  · intro s t _ _ _
    exact le_rfl
  · intro i slot here
    cases i with
    | zero =>
        cases here
        rw [held]
        decide
    | succ i => simp [couplerSlave, lastSlotModular] at here
  · intro mod _ slot here
    cases here
    rfl

end EtherDog
