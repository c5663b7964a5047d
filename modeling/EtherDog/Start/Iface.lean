import EtherDog.Config.Types

/-!
# The tuning of the network interface (src/iface_state.c, src/config.c)

The state kept in memory while an interface is tuned, and the settings that
`ethtool` is asked to make.  A `NicReport` is what the state file and
`ethtool -c` and `-k` say; `none` is a command that fails or a key that is not
found.  Whether a setting takes effect only reaches the log.
-/

set_option autoImplicit false

namespace EtherDog

open CString

def ecatLinuxIfnameMax : Nat := 16

/-- `ecat_iface_validate` with `ECAT_IFACE_LINUX_STRICT`. -/
def ecatIsValidIfaceName (iface : Text) : Bool :=
  match iface with
  | [] => false
  | first :: _ =>
      iface.length < ecatLinuxIfnameMax && (isUpper first || isLower first) &&
        iface.all fun c => isAlnum c || c == 95 || c == 45

structure EcatIfaceState where
  iface : Text
  coalescingSaved : Bool
  rxUsecs : Int
  txUsecs : Int
  offloadsSaved : Bool
  gro : Bool
  gso : Bool
  tso : Bool
  deriving DecidableEq, Repr

def zeroIfaceState : EcatIfaceState := ⟨[], false, 0, 0, false, false, false, false⟩

structure NicReport where
  /-- what the file of a crashed run holds -/
  stale : Option EcatIfaceState
  coalescing : Option (Option Int × Option Int)
  offloads : Option (Option Bool × Option Bool × Option Bool)
  deriving DecidableEq, Repr

inductive NicSetting where
  | coalescing (rxUsecs txUsecs : Int)
  | offloads (gro gso tso : Bool)
  deriving DecidableEq, Repr

def captureNicSettings (s : EcatIfaceState) (report : NicReport) : EcatIfaceState :=
  let coalesced :=
    match report.coalescing with
    | none => s
    | some (rx, tx) =>
        { s with
          rxUsecs := rx.getD s.rxUsecs
          txUsecs := tx.getD s.txUsecs
          coalescingSaved := s.coalescingSaved || rx.isSome || tx.isSome }
  match report.offloads with
  | none => coalesced
  | some (gro, gso, tso) =>
      if gro.isSome || gso.isSome || tso.isSome then
        { coalesced with
          offloadsSaved := true
          gro := gro.getD false
          gso := gso.getD false
          tso := tso.getD false }
      else coalesced

def applyLowLatencyNic : List NicSetting := [.coalescing 0 0, .offloads false false false]

def restoreNicSettings (s : EcatIfaceState) : List NicSetting :=
  (if s.coalescingSaved then [.coalescing s.rxUsecs s.txUsecs] else []) ++
    if s.offloadsSaved then [.offloads s.gro s.gso s.tso] else []

/-- The new state and the settings asked for, those of a crashed run first. -/
def ecatIfaceStateApply (state : EcatIfaceState) (iface : Text) (report : NicReport) :
    EcatIfaceState × List NicSetting :=
  if iface = [] then (state, [])
  else if ecatIsValidIfaceName iface = false then (zeroIfaceState, [])
  else
    (captureNicSettings { zeroIfaceState with iface := iface.take (ecatIfnameMax - 1) } report,
      (report.stale.map restoreNicSettings).getD [] ++ applyLowLatencyNic)

def ecatIfaceStateRevert (state : EcatIfaceState) : EcatIfaceState × List NicSetting :=
  if state.iface = [] then (state, [])
  else
    ({ state with coalescingSaved := false, offloadsSaved := false }, restoreNicSettings state)

def EcatIfaceState.Reverted (state : EcatIfaceState) : Prop :=
  state.iface = [] ∨ (state.coalescingSaved = false ∧ state.offloadsSaved = false)

theorem ifaceStateRevert_reverted (state : EcatIfaceState) :
    (ecatIfaceStateRevert state).1.Reverted := by
  unfold ecatIfaceStateRevert
  split
  · rename_i empty
    exact Or.inl empty
  · exact Or.inr ⟨rfl, rfl⟩

end EtherDog
