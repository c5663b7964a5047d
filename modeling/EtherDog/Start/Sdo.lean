import EtherDog.Start.Soem

/-!
# Writing the startup SDOs (src/master.c)

The signed conversions of milliseconds are exact: where one of them overflows,
the source has no defined behaviour.
-/

set_option autoImplicit false

namespace EtherDog

open CString Trail

/-! ## Encoding a value -/

/-- How the host lays out `float` and `double` in memory. -/
structure FloatLayout where
  real32 : Double → List UInt8
  real64 : Double → List UInt8

def ecatDataTypeSize : EcatDataType → Nat
  | .bool => 1
  | .int8 => 1
  | .uint8 => 1
  | .int16 => 2
  | .uint16 => 2
  | .int32 => 4
  | .uint32 => 4
  | .int64 => 8
  | .uint64 => 8
  | .real32 => 4
  | .real64 => 8
  | .unknown => 0
  | .pad => 0
  | .bytestring => 0

/-- The cast to `int64_t`, which is defined where the result fits. -/
def Double.truncate : Double → Int
  | .finite value => value.num.tdiv value.den
  | .infinite _ => 0
  | .nan => 0

/-- No bytes for a type without a size. -/
def encodeSdoValue (host : FloatLayout) (dt : EcatDataType) (value : Double) : List UInt8 :=
  if ecatDataTypeSize dt = 0 then []
  else if dt = .real32 then host.real32 value
  else if dt = .real64 then host.real64 value
  else LittleEndian.bytesOf (ecatDataTypeSize dt) (value.truncate % 2 ^ 64).toNat

def intMax : Nat := 2 ^ 31 - 1

/-- What is put on the wire; `none` where the SDO is skipped. -/
def sdoPayload (host : FloatLayout) (sdo : EcatSdoConfig) : Option (List UInt8) :=
  if sdo.valueBytes.getD [] ≠ [] then
    if (sdo.valueBytes.getD []).length > intMax then none else sdo.valueBytes
  else
    let encoded := encodeSdoValue host sdo.parsedType sdo.value
    if encoded = [] then none else some encoded

def sdoIndex (sdo : EcatSdoConfig) : UInt16 := UInt16.ofInt (strtoll 16 sdo.index).1

/-! ## Writing the SDOs of a slave -/

def sdoTimeoutUs (slave : EcatSlave) : Int :=
  if slave.timeouts.sdoTimeoutMs > 0 then slave.timeouts.sdoTimeoutMs * 1000 else ecTimeoutRxm

/-- The loop of `ecat_master_write_sdos` from the SDO `k` on: its calls and how
many of them succeed. -/
def writeSdosFrom (host : FloatLayout) (oracle : Oracle) (slave : EcatSlave) (k : Nat) :
    List EcatSdoConfig → List StartCall × Nat
  | [] => ([], 0)
  | sdo :: rest =>
      let (calls, written) := writeSdosFrom host oracle slave (k + 1) rest
      match sdoPayload host sdo with
      | none => (calls, written)
      | some bytes =>
          let wkc := oracle.sdoWrite slave.position k
          (.sdoWrite slave.position (sdoIndex sdo) sdo.subindex sdo.completeAccess bytes
              (sdoTimeoutUs slave) wkc :: calls,
            if wkc ≤ 0 then written else written + 1)

def ecatMasterWriteSdos (host : FloatLayout) (oracle : Oracle) (slave : EcatSlave) :
    Trail StartCall :=
  match oracle.slave? slave.position with
  | none => ⟨[], false⟩
  | some found =>
      if found.hasCoe = false then ⟨[], false⟩
      else
        let (calls, written) := writeSdosFrom host oracle slave 0 slave.sdoConfigs
        ⟨calls, slave.sdoConfigs.length ≤ written⟩

/-- One turn of the loop in `start_single_master`. -/
def slaveSdos (host : FloatLayout) (oracle : Oracle) (slave : EcatSlave) : Trail StartCall :=
  if slave.sdoConfigs = [] then done
  else
    let written := ecatMasterWriteSdos host oracle slave
    ⟨written.events, written.ok || !slave.strictSdo⟩

def SdoWritten (host : FloatLayout) (slave : EcatSlave) (sdo : EcatSdoConfig)
    (call : StartCall) : Prop :=
  ∃ bytes wkc, sdoPayload host sdo = some bytes ∧ 0 < wkc ∧
    call = .sdoWrite slave.position (sdoIndex sdo) sdo.subindex sdo.completeAccess bytes
      (sdoTimeoutUs slave) wkc

theorem writeSdosFrom_le (host : FloatLayout) (oracle : Oracle) (slave : EcatSlave) (k : Nat)
    (sdos : List EcatSdoConfig) : (writeSdosFrom host oracle slave k sdos).2 ≤ sdos.length := by
  induction sdos generalizing k with
  | nil => simp [writeSdosFrom]
  | cons sdo rest ih =>
      have bound := ih (k + 1)
      unfold writeSdosFrom
      dsimp only
      split
      · exact Nat.le_succ_of_le bound
      · dsimp only
        split
        · exact Nat.le_succ_of_le bound
        · exact Nat.succ_le_succ bound

/-- The count reaches the length only if every SDO was written. -/
theorem writeSdosFrom_complete {host : FloatLayout} {oracle : Oracle} {slave : EcatSlave} {k : Nat}
    {sdos : List EcatSdoConfig}
    (complete : sdos.length ≤ (writeSdosFrom host oracle slave k sdos).2) :
    List.Forall₂ (SdoWritten host slave) sdos (writeSdosFrom host oracle slave k sdos).1 := by
  induction sdos generalizing k with
  | nil => exact .nil
  | cons sdo rest ih =>
      have bound := writeSdosFrom_le host oracle slave (k + 1) rest
      rw [List.length_cons] at complete
      unfold writeSdosFrom at complete ⊢
      dsimp only at complete ⊢
      cases payload : sdoPayload host sdo with
      | none =>
          rw [payload] at complete
          dsimp only at complete
          omega
      | some bytes =>
          rw [payload] at complete
          dsimp only at complete
          by_cases failed : oracle.sdoWrite slave.position k ≤ 0
          · rw [if_pos failed] at complete
            omega
          · rw [if_neg failed] at complete
            refine .cons ⟨bytes, _, payload, by omega, rfl⟩ (ih ?_)
            omega

theorem writeSdosFrom_writes {host : FloatLayout} {oracle : Oracle} {slave : EcatSlave} {k : Nat}
    {sdos : List EcatSdoConfig} {call : StartCall}
    (member : call ∈ (writeSdosFrom host oracle slave k sdos).1) :
    ∃ index subindex completeAccess bytes timeoutUs wkc, call =
      .sdoWrite slave.position index subindex completeAccess bytes timeoutUs wkc := by
  induction sdos generalizing k with
  | nil => simp [writeSdosFrom] at member
  | cons sdo rest ih =>
      unfold writeSdosFrom at member
      dsimp only at member
      split at member
      · exact ih member
      · rcases List.mem_cons.mp member with rfl | later
        · exact ⟨_, _, _, _, _, _, rfl⟩
        · exact ih later

/-- Whether a call writes an SDO of the slave at `position`. -/
def StartCall.writesTo (position : Int) : StartCall → Bool
  | .sdoWrite target _ _ _ _ _ _ => target == position
  | _ => false

theorem StartCall.writesTo_phase {position : Int} {call : StartCall}
    (writes : call.writesTo position = true) : call.phase = .sdos := by
  cases call with
  | sdoWrite => rfl
  | _ => simp [StartCall.writesTo] at writes

theorem slaveSdos_writes {host : FloatLayout} {oracle : Oracle} {slave : EcatSlave}
    {call : StartCall} (member : call ∈ (slaveSdos host oracle slave).events) :
    call.phase = .sdos ∧ ∀ position, call.writesTo position = (slave.position == position) := by
  have written : call ∈ (writeSdosFrom host oracle slave 0 slave.sdoConfigs).1 := by
    unfold slaveSdos at member
    split at member
    · simp at member
    · unfold ecatMasterWriteSdos at member
      split at member
      · simp at member
      · split at member
        · simp at member
        · exact member
  obtain ⟨index, subindex, completeAccess, bytes, timeoutUs, wkc, rfl⟩ :=
    writeSdosFrom_writes written
  exact ⟨rfl, fun position => rfl⟩

/-- A strict slave that lets the start go on has had all of its SDOs written. -/
theorem slaveSdos_complete {host : FloatLayout} {oracle : Oracle} {slave : EcatSlave}
    (strict : slave.strictSdo = true) (passed : (slaveSdos host oracle slave).ok = true) :
    List.Forall₂ (SdoWritten host slave) slave.sdoConfigs
      (slaveSdos host oracle slave).events := by
  unfold slaveSdos at passed ⊢
  by_cases empty : slave.sdoConfigs = []
  · rw [if_pos empty, empty]
    exact .nil
  · rw [if_neg empty] at passed ⊢
    simp only [strict, Bool.not_true, Bool.or_false] at passed
    unfold ecatMasterWriteSdos at passed ⊢
    cases present : oracle.slave? slave.position with
    | none => simp [present] at passed
    | some found =>
        rw [present] at passed
        dsimp only at passed ⊢
        by_cases coe : found.hasCoe = false
        · simp [coe] at passed
        · rw [if_neg coe] at passed ⊢
          exact writeSdosFrom_complete (of_decide_eq_true passed)

/-- Among the calls of all slaves, those that write to one of them are its own. -/
theorem writesTo_own {host : FloatLayout} {oracle : Oracle} {slaves : List EcatSlave}
    (apart : slaves.Pairwise fun a b => a.position ≠ b.position) {slave : EcatSlave}
    (member : slave ∈ slaves) :
    (slaves.flatMap fun s => (slaveSdos host oracle s).events).filter
        (StartCall.writesTo slave.position) =
      (slaveSdos host oracle slave).events := by
  have own : ∀ s : EcatSlave, s.position = slave.position →
      (slaveSdos host oracle s).events.filter (StartCall.writesTo slave.position) =
        (slaveSdos host oracle s).events := by
    intro s same
    apply List.filter_eq_self.mpr
    intro call among
    rw [(slaveSdos_writes among).2, same, beq_self_eq_true]
  have foreign : ∀ s : EcatSlave, s.position ≠ slave.position →
      (slaveSdos host oracle s).events.filter (StartCall.writesTo slave.position) = [] := by
    intro s other
    apply List.filter_eq_nil_iff.mpr
    intro call among
    rw [(slaveSdos_writes among).2]
    simpa using other
  induction slaves with
  | nil => simp at member
  | cons first rest ih =>
      obtain ⟨distinct, apartRest⟩ := List.pairwise_cons.mp apart
      rw [List.flatMap_cons, List.filter_append]
      rcases List.mem_cons.mp member with rfl | later
      · have others : (rest.flatMap fun s => (slaveSdos host oracle s).events).filter
            (StartCall.writesTo slave.position) = [] := by
          rw [List.filter_flatMap, List.flatMap_eq_nil_iff]
          intro s among
          exact foreign s fun same => distinct s among same.symm
        rw [own slave rfl, others, List.append_nil]
      · rw [foreign first (distinct slave later), List.nil_append, ih apartRest later]

end EtherDog
