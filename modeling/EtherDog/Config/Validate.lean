import EtherDog.Config.Parse

/-!
# Validating a parsed configuration (src/config.c)

The loops of `validate_station` walk the slot definitions with an index that
only rises; here the index is the list of definitions from the current one on,
and likewise for the modules still to be placed.
-/

set_option autoImplicit false

namespace EtherDog

open CString Checked

def pdoIndexValue (index : Text) : UInt32 := (parseHexU32 index).getD 0

/-! ## Stations -/

def slotAccepts (slot : EcatSlotDef) (mod : EcatModule) : Bool :=
  if slot.classes = [] ∧ slot.idents = [] then true
  else if slot.idents.contains mod.ident then true
  else if mod.className = [] then false
  else slot.classes.contains mod.className

/-- The highest slot, where the modules come in rising slot order. -/
def lastSlot (last : Int) : List EcatModule → Option Int
  | [] => some last
  | mod :: rest => if mod.slot ≤ last then none else lastSlot mod.slot rest

/-- The `while` loop: leaves definitions that are full or, once their minimum is
met, do not accept the module. -/
def nextDefinition (mod : Option EcatModule) :
    List EcatSlotDef → Int → List EcatSlotDef × Int
  | [], count => ([], count)
  | slot :: rest, count =>
      if slot.maxInstances ≤ count ∨
          (mod.any (fun m => !slotAccepts slot m) = true ∧ slot.minInstances ≤ count) then
        nextDefinition mod rest 0
      else (slot :: rest, count)

/-- The module of a slot and those of later slots. -/
def takeModule (slot : Int) (modules : List EcatModule) : Option EcatModule × List EcatModule :=
  match modules with
  | [] => (none, [])
  | mod :: rest => if mod.slot = slot then (some mod, rest) else (none, modules)

/-- Fills `remaining` slots from `slot` on; the definitions left and the count in
the first of them. -/
def fillSlots : Nat → Int → List EcatSlotDef → Int → List EcatModule →
    Option (List EcatSlotDef × Int)
  | 0, _, slots, count, _ => some (slots, count)
  | remaining + 1, slot, slots, count, modules =>
      let (mod, later) := takeModule slot modules
      match nextDefinition mod slots count with
      | ([], _) => none
      | (current :: rest, held) =>
          if mod.any (fun m => !slotAccepts current m) then none
          else fillSlots remaining (slot + 1) (current :: rest) (held + 1) later

def minimaMet : List EcatSlotDef → Int → Bool
  | [], _ => true
  | slot :: rest, count => decide (slot.minInstances ≤ count) && minimaMet rest 0

def validateStation (slave : EcatSlave) : Parsed Unit :=
  let m := slave.modular
  if m.slots = [] ∧ m.modules = [] then .ok ()
  else if m.present = false ∨ m.slots = [] then .error .invalid
  else
    match lastSlot 0 m.modules with
    | none => .error .invalid
    | some last =>
        match fillSlots last.toNat 1 m.slots 0 m.modules with
        | none => .error .invalid
        | some (slots, count) => require (minimaMet slots count) .invalid

/-! ## PDOs and slaves -/

def assignedTwice : List EcatPdo → Bool
  | [] => false
  | pdo :: rest =>
      rest.any (fun other => pdoIndexValue pdo.index == pdoIndexValue other.index) ||
        assignedTwice rest

def validatePdos (slave : EcatSlave) : Parsed Unit := do
  require (!assignedTwice slave.pdos) .invalid
  require (slave.mandatoryPdos.all fun wanted =>
    slave.pdos.any fun pdo => pdoIndexValue pdo.index == pdoIndexValue wanted) .invalid

def validateSlaves : List EcatSlave → Parsed Unit
  | [] => .ok ()
  | slave :: rest => do
      require (1 ≤ slave.position ∧ slave.vendorId ≠ 0 ∧ slave.productCode ≠ 0) .invalid
      require (rest.all fun other => slave.position ≠ other.position) .invalid
      validatePdos slave
      validateStation slave
      validateSlaves rest

def ecatConfigValidate (config : EcatConfig) : Parsed Unit := do
  require (config.master.interface ≠ []) .invalid
  require (1 ≤ config.master.cycleTimeUs ∧ 1 ≤ config.master.receiveTimeoutUs) .invalid
  validateSlaves config.slaveList

/-! ## What passes -/

theorem assignedTwice_iff (pdos : List EcatPdo) :
    assignedTwice pdos = false ↔
      pdos.Pairwise fun a b => pdoIndexValue a.index ≠ pdoIndexValue b.index := by
  induction pdos with
  | nil => simp [assignedTwice]
  | cons pdo rest ih => simp [assignedTwice, ih]

structure SlaveValid (slave : EcatSlave) : Prop where
  position : 1 ≤ slave.position
  vendorId : slave.vendorId ≠ 0
  productCode : slave.productCode ≠ 0
  pdos : validatePdos slave = .ok ()
  station : validateStation slave = .ok ()

theorem validateSlaves_ok_iff (slaves : List EcatSlave) :
    validateSlaves slaves = .ok () ↔
      (∀ slave ∈ slaves, SlaveValid slave) ∧
        slaves.Pairwise fun a b => a.position ≠ b.position := by
  induction slaves with
  | nil => simp [validateSlaves]
  | cons slave rest ih =>
      simp only [validateSlaves, bind_eq_ok, require_eq_ok, ih, List.pairwise_cons,
        List.forall_mem_cons]
      constructor
      · rintro ⟨_, identity, _, apart, _, pdos, _, station, valid, positions⟩
        simp only [decide_eq_true_eq] at identity
        obtain ⟨position, vendorId, productCode⟩ := identity
        refine ⟨⟨⟨position, vendorId, productCode, pdos, station⟩, valid⟩, ?_, positions⟩
        simpa using apart
      · rintro ⟨⟨first, valid⟩, apart, positions⟩
        refine ⟨(), ?_, (), ?_, (), first.pdos, (), first.station, valid, positions⟩
        · simpa using ⟨first.position, first.vendorId, first.productCode⟩
        · simpa using apart

theorem ecatConfigValidate_slaves {config : EcatConfig} (valid : ecatConfigValidate config = .ok ()) :
    validateSlaves config.slaveList = .ok () := by
  unfold ecatConfigValidate at valid
  obtain ⟨_, _, valid⟩ := bind_eq_ok.mp valid
  obtain ⟨_, _, valid⟩ := bind_eq_ok.mp valid
  exact valid

end EtherDog
