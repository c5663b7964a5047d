import EtherDog.Lib.Filling
import EtherDog.Config.Validate

/-!
# The slot rules of a coupler (src/config.c, docs/BUSCONFIG.md)

`validate_station` fills the slot definitions with the physical slots in order,
so it is the greedy way of `EtherDog.Lib.Filling`: the bins are the definitions
and the items are what stands in the slots.  `Assignment` says what the rules
ask for, as a definition for every slot.
-/

set_option autoImplicit false

namespace EtherDog

open Filling

/-- An empty slot counts and is accepted everywhere. -/
def slotRules : Rules EcatSlotDef (Option EcatModule) where
  least := EcatSlotDef.minInstances
  most := EcatSlotDef.maxInstances
  accepts := fun slot mod => mod.all (slotAccepts slot)

/-- The module configured in a slot. -/
def occupant (modules : List EcatModule) (slot : Int) : Option EcatModule :=
  modules.find? fun mod => mod.slot == slot

/-- What stands in `count` slots from `slot` on. -/
def occupants (count : Nat) (slot : Int) (modules : List EcatModule) :
    List (Option EcatModule) :=
  (List.range count).map fun k : Nat => occupant modules (slot + k)

def RisingSlots (modules : List EcatModule) : Prop := modules.Pairwise fun a b => a.slot < b.slot

def highestSlot (modules : List EcatModule) : Int := (modules.getLast?.map EcatModule.slot).getD 0

/-! ## The loops as greedy filling -/

theorem slotRefuses_iff (slot : EcatSlotDef) (mod : Option EcatModule) :
    mod.any (fun m => !slotAccepts slot m) = true ↔ slotRules.accepts slot mod = false := by
  cases mod with
  | none => simp [slotRules]
  | some m => simp [slotRules]

theorem nextDefinition_eq (mod : Option EcatModule) (slots : List EcatSlotDef) (count : Int) :
    nextDefinition mod slots count = advance slotRules mod slots count := by
  induction slots generalizing count with
  | nil => rfl
  | cons slot rest ih =>
      rw [nextDefinition, advance]
      simp only [slotRefuses_iff, ih]
      rfl

theorem minimaMet_eq (slots : List EcatSlotDef) (count : Int) :
    minimaMet slots count = satisfied slotRules slots count := by
  induction slots generalizing count with
  | nil => rfl
  | cons slot rest ih =>
      rw [minimaMet, satisfied, ih]
      rfl

theorem occupants_succ (count : Nat) (slot : Int) (modules : List EcatModule) :
    occupants (count + 1) slot modules =
      occupant modules slot :: occupants count (slot + 1) modules := by
  simp only [occupants, List.range_succ_eq_map, List.map_cons, List.map_map, Nat.cast_zero,
    add_zero, List.cons.injEq, true_and]
  refine List.map_congr_left fun k _ => ?_
  simp only [Function.comp_apply, Nat.succ_eq_add_one, Nat.cast_add, Nat.cast_one]
  congr 1
  ring

theorem occupant_above {modules : List EcatModule} {slot : Int}
    (above : ∀ mod ∈ modules, slot < mod.slot) : occupant modules slot = none := by
  rw [occupant, List.find?_eq_none]
  intro mod member
  have later := above mod member
  simp only [beq_iff_eq]
  omega

theorem takeModule_rising {modules : List EcatModule} {slot : Int} (rising : RisingSlots modules)
    (ahead : ∀ mod ∈ modules, slot ≤ mod.slot) :
    (takeModule slot modules).1 = occupant modules slot ∧
      RisingSlots (takeModule slot modules).2 ∧
      (∀ mod ∈ (takeModule slot modules).2, slot + 1 ≤ mod.slot) ∧
      ∀ later, slot < later →
        occupant (takeModule slot modules).2 later = occupant modules later := by
  cases modules with
  | nil => exact ⟨rfl, .nil, by simp [takeModule], fun _ _ => rfl⟩
  | cons mod rest =>
      obtain ⟨first, restRising⟩ := List.pairwise_cons.mp rising
      have here := ahead mod (by simp)
      by_cases taken : mod.slot = slot
      · rw [show takeModule slot (mod :: rest) = (some mod, rest) from if_pos taken]
        refine ⟨by simp [occupant, taken], restRising, ?_, ?_⟩
        · intro other member
          have later := first other member
          omega
        · intro later behind
          have apart : ¬ mod.slot = later := by omega
          simp [occupant, apart]
      · rw [show takeModule slot (mod :: rest) = (none, mod :: rest) from if_neg taken]
        have behind : ∀ other ∈ mod :: rest, slot < other.slot := by
          intro other member
          rcases List.mem_cons.mp member with rfl | member
          · omega
          · have later := first other member
            omega
        exact ⟨(occupant_above behind).symm, rising, fun other member => behind other member,
          fun _ _ => rfl⟩

theorem fillSlots_eq (remaining : Nat) (slot : Int) (slots : List EcatSlotDef) (count : Int)
    (modules : List EcatModule) (rising : RisingSlots modules)
    (ahead : ∀ mod ∈ modules, slot ≤ mod.slot) :
    fillSlots remaining slot slots count modules =
      fill slotRules (occupants remaining slot modules) slots count := by
  induction remaining generalizing slot slots count modules with
  | zero => rfl
  | succ remaining ih =>
      obtain ⟨taken, restRising, restAhead, rest⟩ := takeModule_rising rising ahead
      have others : occupants remaining (slot + 1) (takeModule slot modules).2 =
          occupants remaining (slot + 1) modules :=
        List.map_congr_left fun k _ => rest _ (by omega)
      rw [fillSlots, occupants_succ, fill]
      dsimp only
      rw [nextDefinition_eq, taken]
      rcases advance slotRules (occupant modules slot) slots count with ⟨bins, held⟩
      cases bins with
      | nil => rfl
      | cons current others' =>
          dsimp only
          rw [ih _ _ _ _ restRising restAhead, others]
          cases accepted : slotRules.accepts current (occupant modules slot) with
          | true => rw [if_neg ((slotRefuses_iff _ _).not.mpr (by simp [accepted])), if_pos rfl]
          | false => rw [if_pos ((slotRefuses_iff _ _).mpr accepted), if_neg (by simp)]

/-- The first loop: the modules come in rising order behind `last`. -/
theorem lastSlot_eq_some_iff (last : Int) (modules : List EcatModule) (highest : Int) :
    lastSlot last modules = some highest ↔
      RisingSlots modules ∧ (∀ mod ∈ modules, last < mod.slot) ∧
        highest = (modules.getLast?.map EcatModule.slot).getD last := by
  induction modules generalizing last with
  | nil => simp [lastSlot, RisingSlots, eq_comm]
  | cons mod rest ih =>
      rw [lastSlot]
      split
      · rename_i late
        simp only [reduceCtorEq, List.forall_mem_cons, false_iff, not_and]
        intro _ ahead
        omega
      · rename_i ahead
        have end_ : ((mod :: rest).getLast?.map EcatModule.slot).getD last =
            (rest.getLast?.map EcatModule.slot).getD mod.slot := by
          rw [List.getLast?_cons]
          cases rest.getLast? <;> rfl
        have split : RisingSlots (mod :: rest) ↔
            (∀ other ∈ rest, mod.slot < other.slot) ∧ RisingSlots rest := List.pairwise_cons
        rw [ih, end_, split]
        simp only [List.forall_mem_cons]
        constructor
        · rintro ⟨rising, behind, same⟩
          refine ⟨⟨behind, rising⟩, ⟨by omega, fun other member => ?_⟩, same⟩
          have later := behind other member
          omega
        · rintro ⟨⟨behind, rising⟩, _, same⟩
          exact ⟨rising, behind, same⟩

/-! ## Assignments of the physical slots -/

/-- How many of the slots `1..last` have definition `i`. -/
def heldBy (f : Nat → Nat) (last i : Nat) : Nat :=
  (List.range last).countP fun k => f (k + 1) == i

/-- `f` gives each of the slots `1..last` its definition. -/
structure Assignment (m : EcatModular) (last : Nat) (f : Nat → Nat) : Prop where
  inRange : ∀ s, 1 ≤ s → s ≤ last → f s < m.slots.length
  rising : ∀ s t, 1 ≤ s → s ≤ t → t ≤ last → f s ≤ f t
  held : ∀ i slot, m.slots[i]? = some slot →
    slot.minInstances ≤ (heldBy f last i : Int) ∧ (heldBy f last i : Int) ≤ slot.maxInstances
  accepted : ∀ mod ∈ m.modules, ∀ slot, m.slots[f mod.slot.toNat]? = some slot →
    slotAccepts slot mod = true

theorem occupant_eq_some_iff {modules : List EcatModule} {slot : Int} {mod : EcatModule}
    (rising : RisingSlots modules) :
    occupant modules slot = some mod ↔ mod ∈ modules ∧ mod.slot = slot := by
  constructor
  · intro found
    have here := List.find?_some found
    exact ⟨List.mem_of_find?_eq_some found, by simpa using here⟩
  · rintro ⟨member, rfl⟩
    induction modules with
    | nil => simp at member
    | cons first rest ih =>
        obtain ⟨behind, restRising⟩ := List.pairwise_cons.mp rising
        rcases List.mem_cons.mp member with rfl | member
        · simp [occupant]
        · have apart : ¬ first.slot = mod.slot := by
            have later := behind mod member
            omega
          have later := ih restRising member
          simpa [occupant, apart] using later

/-- The definitions of the slots `1..last`, in order. -/
def choiceOf (f : Nat → Nat) (last : Nat) : List Nat := (List.range last).map fun k => f (k + 1)

theorem count_choiceOf (f : Nat → Nat) (last i : Nat) :
    (choiceOf f last).count i = heldBy f last i := by
  rw [choiceOf, List.count, List.countP_map]
  rfl

theorem exists_choiceOf (choice : List Nat) : ∃ f, choiceOf f choice.length = choice := by
  refine ⟨fun s => choice.getD (s - 1) 0, ?_⟩
  apply List.ext_getElem
  · simp [choiceOf]
  · intro k _ here
    simp [choiceOf, here]

theorem pairwise_choiceOf_iff (f : Nat → Nat) (last : Nat) :
    (choiceOf f last).Pairwise (· ≤ ·) ↔ ∀ s t, 1 ≤ s → s ≤ t → t ≤ last → f s ≤ f t := by
  rw [choiceOf, List.pairwise_map]
  constructor
  · intro sorted s t low between high
    rcases Nat.lt_or_eq_of_le between with below | rfl
    · have ordered := List.pairwise_iff_getElem.mp sorted (s - 1) (t - 1)
        (by simp; omega) (by simp; omega) (by omega)
      simp only [List.getElem_range] at ordered
      rwa [Nat.sub_add_cancel low, Nat.sub_add_cancel (by omega)] at ordered
    · exact le_rfl
  · intro rising
    refine (List.pairwise_lt_range).imp_of_mem fun {a b} _ high below => ?_
    rw [List.mem_range] at high
    exact rising (a + 1) (b + 1) (by omega) (by omega) (by omega)

/-- Acceptance at each slot, seen from the slots and from the modules. -/
theorem placed_choiceOf_iff {m : EcatModular} {last : Nat} (f : Nat → Nat) :
    List.Forall₂ (fun i x => ∃ bin, m.slots[i]? = some bin ∧ slotRules.accepts bin x = true)
        (choiceOf f last) (occupants last 1 m.modules) ↔
      ∀ k < last, ∃ bin, m.slots[f (k + 1)]? = some bin ∧
        slotRules.accepts bin (occupant m.modules (1 + k)) = true := by
  rw [choiceOf, occupants, List.forall₂_map_left_iff, List.forall₂_map_right_iff,
    List.forall₂_same]
  simp

theorem chosen_iff_assignment {m : EcatModular} {last : Nat} (f : Nat → Nat)
    (rising : RisingSlots m.modules)
    (inside : ∀ mod ∈ m.modules, 1 ≤ mod.slot ∧ mod.slot ≤ last) :
    Chosen slotRules m.slots (occupants last 1 m.modules) (choiceOf f last) ↔
      Assignment m last f := by
  constructor
  · intro chosen
    have placed := (placed_choiceOf_iff f).mp chosen.placed
    refine ⟨?_, ?_, ?_, ?_⟩
    · intro s low high
      obtain ⟨bin, found, _⟩ := placed (s - 1) (by omega)
      rw [Nat.sub_add_cancel low] at found
      exact (List.getElem?_eq_some_iff.mp found).1
    · intro s t low between high
      exact (pairwise_choiceOf_iff f last).mp chosen.rising s t low between high
    · intro i slot here
      rw [← count_choiceOf]
      exact chosen.held i slot here
    · intro mod member slot here
      obtain ⟨low, high⟩ := inside mod member
      obtain ⟨bin, found, accepted⟩ := placed (mod.slot.toNat - 1) (by omega)
      have place : mod.slot.toNat - 1 + 1 = mod.slot.toNat := by omega
      have here' : occupant m.modules (1 + ((mod.slot.toNat - 1 : Nat) : Int)) = some mod :=
        (occupant_eq_some_iff rising).mpr ⟨member, by omega⟩
      rw [place, here] at found
      cases found
      rw [here'] at accepted
      simpa [slotRules] using accepted
  · intro assigned
    refine ⟨(pairwise_choiceOf_iff f last).mpr assigned.rising,
      (placed_choiceOf_iff f).mpr ?_, ?_⟩
    · intro k high
      have range := assigned.inRange (k + 1) (by omega) (by omega)
      refine ⟨m.slots[f (k + 1)], List.getElem?_eq_getElem range, ?_⟩
      cases standing : occupant m.modules (1 + k) with
      | none => rfl
      | some mod =>
          obtain ⟨member, here⟩ := (occupant_eq_some_iff rising).mp standing
          have place : mod.slot.toNat = k + 1 := by omega
          have accepted := assigned.accepted mod member _
            (by rw [place]; exact List.getElem?_eq_getElem range)
          simpa [slotRules] using accepted
    · intro i slot here
      rw [count_choiceOf]
      exact assigned.held i slot here

theorem length_occupants (count : Nat) (slot : Int) (modules : List EcatModule) :
    (occupants count slot modules).length = count := by
  simp [occupants]

theorem exists_assignment_iff {m : EcatModular} {last : Nat} (rising : RisingSlots m.modules)
    (inside : ∀ mod ∈ m.modules, 1 ≤ mod.slot ∧ mod.slot ≤ last) :
    (∃ f, Assignment m last f) ↔
      ∃ parts, Splits slotRules m.slots 0 parts ∧
        parts.flatten = occupants last 1 m.modules := by
  constructor
  · rintro ⟨f, assigned⟩
    exact ((chosen_iff_assignment f rising inside).mpr assigned).splits
  · rintro ⟨parts, split, same⟩
    obtain ⟨choice, chosen⟩ := split.chosen
    rw [same] at chosen
    have length : choice.length = last := by
      rw [chosen.placed.length_eq, length_occupants]
    obtain ⟨f, restored⟩ := exists_choiceOf choice
    rw [length] at restored
    rw [← restored] at chosen
    exact ⟨f, (chosen_iff_assignment f rising inside).mp chosen⟩

end EtherDog
