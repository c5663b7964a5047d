import EtherDog.Lib.CrashRuns
import EtherDog.Start.Iface

/-!
# Crashes while the interface is tuned (src/iface_state.c)

The settings of the interface, the state file and the state in memory are three
cells, and the process may die between any two steps of
`ecat_iface_state_apply` and `ecat_iface_state_revert`.  Every `ethtool` and file
step succeeds.  `apply` tunes before it puts the state file in place: a crash in
between leaves the tuned settings as the only ones there are to capture.
-/

set_option autoImplicit false

namespace EtherDog

open CString Transition CrashRuns

/-! ## The cells -/

structure NicSettings where
  rxUsecs : Int
  txUsecs : Int
  gro : Bool
  gso : Bool
  tso : Bool
  deriving DecidableEq, Repr

def NicSettings.set (settings : NicSettings) (setting : NicSetting) : NicSettings :=
  match setting with
  | .coalescing rxUsecs txUsecs => { settings with rxUsecs := rxUsecs, txUsecs := txUsecs }
  | .offloads gro gso tso => { settings with gro := gro, gso := gso, tso := tso }

/-- The lines of the state file below that of the interface.  What `%d` writes,
`atoi` reads back. -/
structure StateFile where
  coalescing : Option (Int × Int)
  offloads : Option (Bool × Bool × Bool)
  deriving DecidableEq, Repr

structure NicCells where
  settings : NicSettings
  file : Option StateFile
  memory : EcatIfaceState
  deriving DecidableEq, Repr

def persistState (s : EcatIfaceState) : StateFile where
  coalescing := if s.coalescingSaved then some (s.rxUsecs, s.txUsecs) else none
  offloads := if s.offloadsSaved then some (s.gro, s.gso, s.tso) else none

def namedIfaceState (iface : Text) : EcatIfaceState :=
  { zeroIfaceState with iface := iface.take (ecatIfnameMax - 1) }

def loadState (iface : Text) (file : StateFile) : EcatIfaceState :=
  { namedIfaceState iface with
    coalescingSaved := file.coalescing.isSome
    rxUsecs := (file.coalescing.map Prod.fst).getD 0
    txUsecs := (file.coalescing.map Prod.snd).getD 0
    offloadsSaved := file.offloads.isSome
    gro := (file.offloads.map Prod.fst).getD false
    gso := (file.offloads.map fun f => f.2.1).getD false
    tso := (file.offloads.map fun f => f.2.2).getD false }

/-- What `ethtool -c` and `-k` say of the settings. -/
def NicSettings.report (settings : NicSettings) (stale : Option EcatIfaceState) : NicReport where
  stale := stale
  coalescing := some (some settings.rxUsecs, some settings.txUsecs)
  offloads := some (some settings.gro, some settings.gso, some settings.tso)

/-! ## The steps -/

inductive IfaceCall where
  | apply
  | revert
  deriving DecidableEq, Repr

inductive IfaceStep where
  | load
  | ethtool (setting : NicSetting)
  | captureCoalescing
  | captureOffloads
  /-- the directory and the file behind the temporary name -/
  | writeTmp
  | rename
  | clearFlags
  | unlink
  deriving DecidableEq, Repr

/-- The restoring steps of a saved state. -/
def restoreSteps (s : EcatIfaceState) : List IfaceStep := (restoreNicSettings s).map .ethtool

def ifaceStart (iface : Text) (call : IfaceCall) (cells : NicCells) : NicCells × List IfaceStep :=
  match call with
  | .apply =>
      if iface = [] then (cells, [])
      else if ecatIsValidIfaceName iface = false then ({ cells with memory := zeroIfaceState }, [])
      else
        ({ cells with memory := namedIfaceState iface },
          [.load, .captureCoalescing, .captureOffloads] ++
            (applyLowLatencyNic.map .ethtool ++ [.writeTmp, .rename]))
  | .revert =>
      if cells.memory.iface = [] then (cells, [])
      else (cells, restoreSteps cells.memory ++ [.clearFlags, .unlink])

def ifacePerform (iface : Text) (op : IfaceStep) (cells : NicCells) : NicCells × List IfaceStep :=
  match op with
  | .load =>
      match cells.file with
      | none => (cells, [])
      | some file => (cells, restoreSteps (loadState iface file) ++ [.unlink])
  | .ethtool setting => ({ cells with settings := cells.settings.set setting }, [])
  | .captureCoalescing =>
      ({ cells with
          memory := captureNicSettings cells.memory
            { cells.settings.report none with offloads := none } }, [])
  | .captureOffloads =>
      ({ cells with
          memory := captureNicSettings cells.memory
            { cells.settings.report none with coalescing := none } }, [])
  | .writeTmp => (cells, [])
  | .rename => ({ cells with file := some (persistState cells.memory) }, [])
  | .clearFlags =>
      ({ cells with
          memory := { cells.memory with coalescingSaved := false, offloadsSaved := false } }, [])
  | .unlink => ({ cells with file := none }, [])

/-- A crash takes the memory. -/
def ifaceProcess (iface : Text) : Process NicCells IfaceStep IfaceCall where
  start := ifaceStart iface
  perform := ifacePerform iface
  lose := fun cells => { cells with memory := zeroIfaceState }

def untouched (original : NicSettings) : NicCells := ⟨original, none, zeroIfaceState⟩

/-- Where a crash is harmless whatever is set, a row of settings is made. -/
theorem completes_settings {iface : Text} {exposed : List IfaceStep → Prop}
    {recoverable post : NicCells → Prop} {rest : List IfaceStep} (settings : List NicSetting)
    {cells : NicCells} (safe : ∀ now, recoverable { cells with settings := now })
    (later : Completes (ifaceProcess iface) exposed recoverable post
      { cells with settings := settings.foldl NicSettings.set cells.settings } rest) :
    Completes (ifaceProcess iface) exposed recoverable post cells
      (settings.map .ethtool ++ rest) := by
  induction settings generalizing cells with
  | nil => exact later
  | cons setting settings ih =>
      have here := safe cells.settings
      exact .perform (Or.inr here) (ih safe later)

/-! ## Calls that nothing interrupts -/

/-- The settings once those of a crashed run are restored, and what is then reported. -/
def reportFor (iface : Text) (cells : NicCells) : NicReport :=
  let stale := cells.file.map (loadState iface)
  let restored := ((stale.map restoreNicSettings).getD []).foldl NicSettings.set cells.settings
  restored.report stale

/-- Run to its end, `apply` leaves the state and makes the settings of
`ecatIfaceStateApply`. -/
theorem apply_uninterrupted (iface : Text) (cells : NicCells) :
    Completes (ifaceProcess iface) (fun _ => True) (fun _ => True)
      (fun after =>
        after.memory = (ecatIfaceStateApply cells.memory iface (reportFor iface cells)).1 ∧
          after.settings = (ecatIfaceStateApply cells.memory iface (reportFor iface cells)).2.foldl
            NicSettings.set cells.settings)
      (ifaceStart iface .apply cells).1 (ifaceStart iface .apply cells).2 := by
  unfold ifaceStart ecatIfaceStateApply
  dsimp only
  split
  · exact .done ⟨rfl, rfl⟩
  · split
    · exact .done ⟨rfl, rfl⟩
    · obtain ⟨settings, file, memory⟩ := cells
      refine .perform (Or.inr trivial) ?_
      cases file with
      | none =>
          refine .perform (Or.inr trivial) (.perform (Or.inr trivial) ?_)
          refine completes_settings applyLowLatencyNic (fun _ => trivial) ?_
          exact .perform (Or.inr trivial) (.perform (Or.inr trivial) (.done ⟨rfl, rfl⟩))
      | some file =>
          change Completes _ _ _ _ _ ((restoreSteps (loadState iface file) ++ [.unlink]) ++ _)
          rw [List.append_assoc]
          refine completes_settings _ (fun _ => trivial) (.perform (Or.inr trivial) ?_)
          refine .perform (Or.inr trivial) (.perform (Or.inr trivial) ?_)
          refine completes_settings applyLowLatencyNic (fun _ => trivial) ?_
          refine .perform (Or.inr trivial) (.perform (Or.inr trivial) (.done ⟨rfl, ?_⟩))
          exact (List.foldl_append ..).symm

theorem revert_uninterrupted (iface : Text) (cells : NicCells) :
    Completes (ifaceProcess iface) (fun _ => True) (fun _ => True)
      (fun after => after.memory = (ecatIfaceStateRevert cells.memory).1 ∧
        after.settings =
          (ecatIfaceStateRevert cells.memory).2.foldl NicSettings.set cells.settings)
      (ifaceStart iface .revert cells).1 (ifaceStart iface .revert cells).2 := by
  unfold ifaceStart ecatIfaceStateRevert
  dsimp only
  split
  · exact .done ⟨rfl, rfl⟩
  · refine completes_settings _ (fun _ => trivial) ?_
    exact .perform (Or.inr trivial) (.perform (Or.inr trivial) (.done ⟨rfl, rfl⟩))

/-! ## Where a crash loses the settings -/

/-- A setting has been made, and the file that would undo it is not in place. -/
def Untracked (_ : IfaceCall) (ops : List IfaceStep) : Prop :=
  ops ≠ [] ∧ ops <:+ (applyLowLatencyNic.drop 1).map .ethtool ++ [.writeTmp, .rename]

instance (call : IfaceCall) (ops : List IfaceStep) : Decidable (Untracked call ops) :=
  inferInstanceAs (Decidable (ops ≠ [] ∧ _))

/-- A revert with nothing in memory returns at once, and a file may not wait then. -/
def Admitted (call : IfaceCall) (cells : NicCells) : Prop :=
  call = .revert → cells.memory.iface ≠ [] ∨ cells.file = none

instance (call : IfaceCall) (cells : NicCells) : Decidable (Admitted call cells) :=
  inferInstanceAs (Decidable (_ → _))

/-! ## What holds between calls -/

section Invariant

variable (iface : Text) (original : NicSettings)

/-- What a completed `apply` keeps in memory. -/
def savedState : EcatIfaceState :=
  (ecatIfaceStateApply zeroIfaceState iface (original.report none)).1

def originalFile : StateFile where
  coalescing := some (original.rxUsecs, original.txUsecs)
  offloads := some (original.gro, original.gso, original.tso)

/-- The original settings are in force or on file. -/
def Recorded (cells : NicCells) : Prop :=
  (cells.file = none ∧ cells.settings = original) ∨ cells.file = some (originalFile original)

inductive Idle : NicCells → Prop where
  | unapplied {cells : NicCells} (unnamed : cells.memory.iface = [])
      (recorded : Recorded original cells) : Idle cells
  | applied {cells : NicCells} (valid : ecatIsValidIfaceName iface = true)
      (saved : cells.memory = savedState iface original)
      (filed : cells.file = some (originalFile original)) : Idle cells
  | reverted {cells : NicCells} (named : cells.memory.iface ≠ [])
      (coalescing : cells.memory.coalescingSaved = false)
      (offloads : cells.memory.offloadsSaved = false)
      (gone : cells.file = none) (restored : cells.settings = original) : Idle cells

/-- After a revert the settings are the original ones. -/
def Returned (call : IfaceCall) (cells : NicCells) : Prop :=
  Idle iface original cells ∧ (call = .revert → cells.settings = original)

variable {iface original}

theorem Idle.recorded {cells : NicCells} (idle : Idle iface original cells) :
    Recorded original cells := by
  cases idle with
  | unapplied unnamed recorded => exact recorded
  | applied valid saved filed => exact Or.inr filed
  | reverted named coalescing offloads gone restored => exact Or.inl ⟨gone, restored⟩

/-- The process that is started again is idle where the settings were recorded. -/
theorem idle_of_recorded {cells : NicCells} (recorded : Recorded original cells) :
    Idle iface original ((ifaceProcess iface).lose cells) :=
  .unapplied rfl recorded

theorem savedState_eq (valid : ecatIsValidIfaceName iface = true) :
    savedState iface original =
      captureNicSettings (namedIfaceState iface) (original.report none) := by
  have nonempty : iface ≠ [] := by
    rintro rfl
    cases valid
  rw [savedState, ecatIfaceStateApply, if_neg nonempty, if_neg (by simp [valid])]
  rfl

theorem persist_savedState (valid : ecatIsValidIfaceName iface = true) :
    persistState (savedState iface original) = originalFile original := by
  rw [savedState_eq valid]
  rfl

theorem restoreSteps_savedState (valid : ecatIsValidIfaceName iface = true) :
    restoreSteps (savedState iface original) =
      [.ethtool (.coalescing original.rxUsecs original.txUsecs),
        .ethtool (.offloads original.gro original.gso original.tso)] := by
  rw [savedState_eq valid]
  rfl

/-! ## The two calls -/

/-- The rest of a call completes, a crash at any point of it being harmless. -/
abbrev CallCompletes (iface : Text) (original : NicSettings) (call : IfaceCall) :
    NicCells → List IfaceStep → Prop :=
  Completes (ifaceProcess iface) (Untracked call)
    (fun cells => Idle iface original ((ifaceProcess iface).lose cells))
    (Returned iface original call)

theorem completes_tuning (valid : ecatIsValidIfaceName iface = true) :
    CallCompletes iface original .apply ⟨original, none, namedIfaceState iface⟩
      ([.captureCoalescing, .captureOffloads] ++
        (applyLowLatencyNic.map .ethtool ++ [.writeTmp, .rename])) := by
  have intact (memory : EcatIfaceState) :
      Idle iface original ((ifaceProcess iface).lose ⟨original, none, memory⟩) :=
    idle_of_recorded (Or.inl ⟨rfl, rfl⟩)
  refine .perform (Or.inr (intact _)) (.perform (Or.inr (intact _)) ?_)
  refine .perform (Or.inr (intact _)) ?_
  -- the settings are changed, and until the file is in place no crash may fall
  refine .perform (Or.inl ⟨by simp, List.suffix_rfl⟩) ?_
  refine .perform (Or.inl ⟨by simp, [.ethtool (.offloads false false false)], rfl⟩) ?_
  refine .perform (Or.inl ⟨by simp, [.ethtool (.offloads false false false), .writeTmp], rfl⟩) ?_
  refine .done ⟨.applied valid ?_ ?_, by simp⟩
  · exact (savedState_eq valid).symm
  · rw [← persist_savedState valid, savedState_eq valid]
    rfl

/-- From a file of the originals they are put back, and the file goes last. -/
theorem completes_restoring {call : IfaceCall} {cells : NicCells} {rest : List IfaceStep}
    (filed : cells.file = some (originalFile original))
    (later : CallCompletes iface original call { cells with settings := original } rest) :
    CallCompletes iface original call cells
      ([.ethtool (.coalescing original.rxUsecs original.txUsecs),
        .ethtool (.offloads original.gro original.gso original.tso)] ++ rest) := by
  have safe (now : NicSettings) : Recorded original { cells with settings := now } :=
    Or.inr filed
  exact completes_settings [.coalescing original.rxUsecs original.txUsecs,
    .offloads original.gro original.gso original.tso]
    (fun now => idle_of_recorded (safe now)) later

theorem completes_apply {cells : NicCells} (idle : Idle iface original cells) :
    CallCompletes iface original .apply (ifaceStart iface .apply cells).1
      (ifaceStart iface .apply cells).2 := by
  have recorded := idle.recorded
  unfold ifaceStart
  dsimp only
  split
  · exact .done ⟨idle, by simp⟩
  · split
    · exact .done ⟨.unapplied rfl recorded, by simp⟩
    · rename_i nonempty invalid
      have valid : ecatIsValidIfaceName iface = true := by simpa using invalid
      refine .perform (Or.inr (idle_of_recorded recorded)) ?_
      obtain ⟨settings, file, memory⟩ := cells
      rcases recorded with ⟨gone, same⟩ | filed
      · dsimp only at gone same
        subst gone same
        exact completes_tuning valid
      · dsimp only at filed
        subst filed
        refine completes_restoring rfl ?_
        exact .perform (Or.inr (idle_of_recorded (Or.inr rfl))) (completes_tuning valid)

theorem completes_revert {cells : NicCells} (idle : Idle iface original cells)
    (admitted : Admitted .revert cells) :
    CallCompletes iface original .revert (ifaceStart iface .revert cells).1
      (ifaceStart iface .revert cells).2 := by
  unfold ifaceStart
  dsimp only
  split
  · rename_i unnamed
    refine .done ⟨idle, fun _ => ?_⟩
    have gone := (admitted rfl).resolve_left (not_not.mpr unnamed)
    rcases idle.recorded with ⟨_, same⟩ | filed
    · exact same
    · cases gone.symm.trans filed
  · rename_i named
    cases idle with
    | unapplied unnamed => exact absurd unnamed named
    | applied valid saved filed =>
        obtain ⟨settings, file, memory⟩ := cells
        dsimp only at saved filed named
        subst saved filed
        rw [restoreSteps_savedState valid]
        refine completes_restoring rfl ?_
        refine .perform (Or.inr (idle_of_recorded (Or.inr rfl))) ?_
        refine .perform (Or.inr (idle_of_recorded (Or.inr rfl))) ?_
        exact .done ⟨.reverted named rfl rfl rfl rfl, fun _ => rfl⟩
    | reverted _ coalescing offloads gone restored =>
        have nothing : restoreSteps cells.memory = [] := by
          simp [restoreSteps, restoreNicSettings, coalescing, offloads]
        have recorded : Recorded original cells := Or.inl ⟨gone, restored⟩
        rw [nothing]
        refine .perform (Or.inr (idle_of_recorded recorded)) ?_
        refine .perform (Or.inr (idle_of_recorded recorded)) ?_
        exact .done ⟨.reverted named rfl rfl rfl restored, fun _ => restored⟩

end Invariant

/-- In every run in which no crash falls between the first setting of an apply and
its state file, and no revert is called with nothing in memory while a state file
waits, each revert leaves the original settings. -/
theorem nic_settings_survive_crashes (iface : Text) (original : NicSettings)
    (run : Run NicCells IfaceStep IfaceCall) (history : List (Event IfaceCall))
    (reached : Reaches (step (ifaceProcess iface)) (guarded Untracked Admitted)
      ⟨untouched original, none⟩ run history)
    (reverted : history.head? = some (.returned .revert)) :
    run.cells.settings = original := by
  have calls (call : IfaceCall) (cells : NicCells) (idle : Idle iface original cells)
      (admitted : Admitted call cells) :
      CallCompletes iface original call ((ifaceProcess iface).start call cells).1
        ((ifaceProcess iface).start call cells).2 := by
    cases call with
    | apply => exact completes_apply idle
    | revert => exact completes_revert idle admitted
  have returned := returned_post calls (fun _ _ post => post.1)
    (fun _ idle => idle_of_recorded idle.recorded) (.unapplied rfl (Or.inl ⟨rfl, rfl⟩)) reached
    reverted
  exact returned.2 rfl

def busySettings : NicSettings := ⟨3, 5, true, true, true⟩

/-- A call and `count` of its steps. -/
def callFor (call : IfaceCall) (count : Nat) : List (Action IfaceCall) :=
  .call call :: List.replicate count .perform

/-- A crash behind a complete apply, and a second revert. -/
theorem nic_settings_survive_crashes_restart :
    ∃ run history, Reaches (step (ifaceProcess (text "eth0"))) (guarded Untracked Admitted)
      ⟨untouched busySettings, none⟩ run history ∧ .crashed ∈ history ∧
        history.count (.returned .revert) = 2 ∧ run.cells.settings = busySettings := by
  obtain ⟨run, history, reached, crashed, twice, reverted⟩ := exists_of_execute
    (step (ifaceProcess (text "eth0"))) (guarded Untracked Admitted)
    ⟨untouched busySettings, none⟩
    (callFor .apply 7 ++ .crash :: (callFor .apply 10 ++ (callFor .revert 4 ++ callFor .revert 2)))
    (fun _ history => .crashed ∈ history ∧ history.count (.returned .revert) = 2 ∧
      history.head? = some (.returned .revert)) (by decide +kernel)
  exact ⟨run, history, reached, crashed, twice,
    nic_settings_survive_crashes _ _ run history reached reverted⟩

/-- A crash between the first setting and the state file. -/
theorem crash_while_tuning_loses_settings :
    ¬ ∀ (iface : Text) (original : NicSettings) (run : Run NicCells IfaceStep IfaceCall)
      (history : List (Event IfaceCall)),
      Reaches (step (ifaceProcess iface)) anyStep ⟨untouched original, none⟩ run history →
        history.head? = some (.returned .revert) → run.cells.memory.iface ≠ [] →
          run.cells.settings = original := by
  intro always
  obtain ⟨run, history, reached, reverted, undone, lost⟩ := exists_of_execute
    (step (ifaceProcess (text "eth0"))) anyStep ⟨untouched busySettings, none⟩
    (callFor .apply 4 ++ .crash :: (callFor .apply 7 ++ callFor .revert 4))
    (fun run history => history.head? = some (.returned .revert) ∧ run.cells.memory.iface ≠ [] ∧
      run.cells.settings ≠ busySettings) (by decide +kernel)
  exact lost (always _ _ run history reached reverted undone)

end EtherDog
