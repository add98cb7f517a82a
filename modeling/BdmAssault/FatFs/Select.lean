import BdmAssault.Lib.Transition
import BdmAssault.Manager.Table

/-! # Selecting the POPStarter volume

`connect_bd`, `disconnect_bd` and the stop requests of `fs_devctl` in
`bdmfs_fs_driver.c`. Each of them runs under `_fs_lock`, so it is one step; FatFs
is an argument that answers `f_mount` and `f_stat` with anything.
-/

namespace BdmAssault.FatFs

open Manager Lib

inductive PopstarterMountState where
  | unselected
  | volumeLocked
  | vcdReady
  deriving DecidableEq

/-- `mountedBd i` is `fs_driver_mount_info[i].mounted_bd`. The array has ten
elements; `fatfs_fs_driver_get_mounted_bd_from_index` does not exclude every
other index, and what it finds there is some other memory. -/
structure Driver where
  mountedBd : Int → Option Dev
  mountState : PopstarterMountState

/-- `FF_VOLUMES` -/
def ffVolumes : Int := 10

def frOk : Nat := 0

def amDir : UInt8 := 0x10

/-- The result of an `f_stat` with the attributes it reports. -/
structure Stat where
  result : Nat
  fattrib : UInt8
  deriving DecidableEq

/-- An `f_stat` as it happened: the path, the device that volume 0 was on, and the
answer. -/
structure Sighting where
  path : String
  bd : Option Dev
  stat : Stat
  deriving DecidableEq

/-- What FatFs answers in one call of `connect_bd`; `files` are the answers to the
checks of the wait loop. -/
structure Answers where
  mount : Nat
  dir : Stat
  files : List Stat

def popstarterDirPath : String := "0:/POPS"

def popstarterPakPath : String := "0:/POPS/POPS_IOX.PAK"

/-- The file that `fatfs_fs_driver_check_popstarter_file` looks for. -/
def popstarterTarget (vcdPath : String) : String :=
  if vcdPath ≠ "" then vcdPath else popstarterPakPath

def Stat.isDirectory (st : Stat) : Bool := st.result = frOk && (st.fattrib &&& amDir) ≠ 0

def Stat.isFile (st : Stat) : Bool := st.result = frOk && (st.fattrib &&& amDir) = 0

/-! ## The functions -/

def getMountedBdFromIndex (s : Driver) (i : Int) : Option Dev :=
  if ffVolumes < i then none else s.mountedBd i

def findMountInfoIndex (s : Driver) (bd : Option Dev) : Option Int :=
  ((List.range 10).map Int.ofNat).find? fun i => s.mountedBd i = bd

def mountBd (s : Driver) (i : Int) (bd : Dev) (result : Nat) : Nat × Driver :=
  let s := if i = 0 then { s with mountState := .unselected } else s
  let s := { s with mountedBd := Function.update s.mountedBd i (some bd) }
  (result, if result ≠ frOk then { s with mountedBd := Function.update s.mountedBd i none } else s)

def unmountBd (s : Driver) (i : Int) : Driver :=
  let s := { s with mountedBd := Function.update s.mountedBd i none }
  if i = 0 then { s with mountState := .unselected } else s

/-- The device's own `stop` does not touch the driver. -/
def stopSingleBd (s : Driver) (i : Int) : Driver :=
  if getMountedBdFromIndex s i = none then s else unmountBd s i

def stopAllBd (s : Driver) : Driver := ((List.range 10).map Int.ofNat).foldl stopSingleBd s

/-- `fatfs_fs_driver_wait_popstarter_file`: the sightings until the file is there,
`none` if it never is. -/
def waitPopstarterFile (path : String) (bd : Option Dev) : List Stat → Option (List Sighting)
  | [] => none
  | st :: sts =>
      if st.isFile then some [⟨path, bd, st⟩]
      else (waitPopstarterFile path bd sts).map (⟨path, bd, st⟩ :: ·)

/-- `connect_bd`: the return value, the state and the sightings in order; `none` if
it never returns. -/
def connectBd (vcdPath : String) (record : BlockDevice) (a : Answers) (s : Driver) (bd : Dev) :
    Option (Int × Driver × List Sighting) :=
  if record.name = some "ata" ∧ record.parNr = 0 then some (-1, s, [])
  else if getMountedBdFromIndex s 0 = none then
    let (result, s) := mountBd s 0 bd a.mount
    if result = frOk then
      let seen : Sighting := ⟨popstarterDirPath, s.mountedBd 0, a.dir⟩
      if a.dir.isDirectory then
        let s := { s with mountState := .volumeLocked }
        match waitPopstarterFile (popstarterTarget vcdPath) (s.mountedBd 0) a.files with
        | none => none
        | some sightings => some (0, { s with mountState := .vcdReady }, seen :: sightings)
      else some (-1, unmountBd s 0, [seen])
    else some (-1, s, [])
  else some (-1, s, [])

def disconnectBd (s : Driver) (bd : Option Dev) : Driver :=
  match findMountInfoIndex s bd with
  | none => s
  | some i => unmountBd s i

/-- The requests of `fs_devctl`; the two stop requests do each other's work. -/
inductive Devctl where
  | stopUnit
  | stopAll
  | other
  deriving DecidableEq

def fsDevctl (s : Driver) (unit : Int) : Devctl → Driver
  | .stopUnit => stopAllBd s
  | .stopAll => stopSingleBd s unit
  | .other => s

/-- `bdm_is_fatfs_ready`; `block` are the device records at the time of the call. -/
def bdmIsFatfsReady (block : Dev → BlockDevice) (s : Driver) (deviceName : Option String) : Int :=
  match deviceName with
  | none => 0
  | some name =>
      match s.mountedBd 0 with
      | none => 0
      | some bd =>
          if (block bd).name = some name ∧ s.mountState = .vcdReady then 1 else 0

/-! ## Runs -/

/-- The calls that have returned, latest first. -/
inductive Call where
  | connect (bd : Dev) (ret : Int) (seen : List Sighting)
  | disconnect (bd : Option Dev)
  | devctl (unit : Int) (cmd : Devctl)
  deriving DecidableEq

structure World where
  driver : Driver
  history : List Call

/-- What the caller and FatFs choose. -/
inductive Act where
  | connect (bd : Dev) (record : BlockDevice) (a : Answers)
  | disconnect (bd : Option Dev)
  | devctl (unit : Int) (cmd : Devctl)

def World.perform (vcdPath : String) (w : World) : Act → Option World
  | .connect bd record a =>
      (connectBd vcdPath record a w.driver bd).map fun (ret, s, seen) =>
        ⟨s, .connect bd ret seen :: w.history⟩
  | .disconnect bd => some ⟨disconnectBd w.driver bd, .disconnect bd :: w.history⟩
  | .devctl unit cmd => some ⟨fsDevctl w.driver unit cmd, .devctl unit cmd :: w.history⟩

/-- Runs start after `InitFS`; the memory around the array may hold anything. -/
def volume (vcdPath : String) : System World Act where
  init := fun w => w.history = [] ∧ w.driver.mountState = .unselected ∧
    ∀ i, 0 ≤ i → i < ffVolumes → w.driver.mountedBd i = none
  step := fun w a w' => w.perform vcdPath a = some w'

/-- The latest call of `connect_bd` that returned 0. -/
def lastInstall : List Call → Option (Dev × List Sighting)
  | [] => none
  | .connect bd ret seen :: history => if ret = 0 then some (bd, seen) else lastInstall history
  | .disconnect _ :: history | .devctl _ _ :: history => lastInstall history

/-- The sightings of a volume that qualifies: `/POPS` is a directory, and after any
number of failed checks the target is a file, all on the same device. -/
def QualifiedOn (vcdPath : String) (bd : Dev) (seen : List Sighting) : Prop :=
  ∃ (dir : Stat) (failed : List Stat) (file : Stat), dir.isDirectory = true ∧ file.isFile = true ∧
    (∀ st ∈ failed, st.isFile = false) ∧
    seen = ⟨popstarterDirPath, some bd, dir⟩ ::
      (failed.map (⟨popstarterTarget vcdPath, some bd, ·⟩) ++
        [⟨popstarterTarget vcdPath, some bd, file⟩])

/-! ## What the functions do -/

/-- A completed wait ends with a file and has seen none before. -/
theorem waitPopstarterFile_spec {path : String} {bd : Option Dev} {sts : List Stat}
    {seen : List Sighting} (h : waitPopstarterFile path bd sts = some seen) :
    ∃ (failed : List Stat) (file : Stat), file.isFile = true ∧ (∀ st ∈ failed, st.isFile = false) ∧
      seen = failed.map (⟨path, bd, ·⟩) ++ [⟨path, bd, file⟩] := by
  induction sts generalizing seen with
  | nil => cases h
  | cons st sts ih =>
      unfold waitPopstarterFile at h
      split at h
      · rename_i hfile
        cases h
        exact ⟨[], st, hfile, by simp, rfl⟩
      · rename_i hfile
        obtain ⟨rest, hrest, rfl⟩ := Option.map_eq_some_iff.mp h
        obtain ⟨failed, file, hok, hfailed, rfl⟩ := ih hrest
        refine ⟨st :: failed, file, hok, fun s hs => ?_, rfl⟩
        rcases List.mem_cons.mp hs with rfl | hs
        · exact Bool.eq_false_iff.mpr hfile
        · exact hfailed s hs

/-- `connect_bd` installs a qualified device in the free volume, or changes nothing. -/
theorem connectBd_spec {vcdPath : String} {record : BlockDevice} {a : Answers} {s s' : Driver}
    {bd : Dev} {ret : Int} {seen : List Sighting}
    (idle : s.mountedBd 0 = none → s.mountState = .unselected)
    (h : connectBd vcdPath record a s bd = some (ret, s', seen)) :
    (ret = 0 ∧ s.mountedBd 0 = none ∧ QualifiedOn vcdPath bd seen ∧
      s' = ⟨Function.update s.mountedBd 0 (some bd), .vcdReady⟩) ∨ (ret = -1 ∧ s' = s) := by
  unfold connectBd at h
  split at h
  · cases h
    exact .inr ⟨rfl, rfl⟩
  split at h
  · rename_i hfree
    have hnone : s.mountedBd 0 = none := by simpa [getMountedBdFromIndex, ffVolumes] using hfree
    -- a candidate that is given up leaves the volume as it was
    have hback : s = ⟨Function.update s.mountedBd 0 none, .unselected⟩ := by
      rw [← hnone, Function.update_eq_self, ← idle hnone]
    by_cases hmount : a.mount = frOk
    · simp only [mountBd, hmount, ne_eq, not_true_eq_false, if_true, if_false] at h
      split at h
      · rename_i hdir
        split at h
        · cases h
        · rename_i sightings hwait
          cases h
          rw [Function.update_self] at hwait ⊢
          obtain ⟨failed, file, hfile, hfailed, rfl⟩ := waitPopstarterFile_spec hwait
          exact .inl ⟨rfl, hnone, ⟨a.dir, failed, file, hdir, hfile, hfailed, rfl⟩, rfl⟩
      · cases h
        refine .inr ⟨rfl, ?_⟩
        simp only [unmountBd, if_true, Function.update_idem]
        exact hback.symm
    · simp only [mountBd, hmount, ne_eq, not_false_eq_true, if_true, if_false] at h
      cases h
      refine .inr ⟨rfl, ?_⟩
      simp only [Function.update_idem]
      exact hback.symm
  · cases h
    exact .inr ⟨rfl, rfl⟩

/-! ## The invariant -/

structure Selected (vcdPath : String) (s : Driver) (history : List Call) : Prop where
  others : ∀ i, 0 < i → i < ffVolumes → s.mountedBd i = none
  state : s.mountState = if s.mountedBd 0 = none then .unselected else .vcdReady
  origin : ∀ bd, s.mountedBd 0 = some bd →
    ∃ seen, lastInstall history = some (bd, seen) ∧ QualifiedOn vcdPath bd seen

section Selected

variable {vcdPath : String} {s : Driver} {history : List Call}

theorem Selected.idle (h : Selected vcdPath s history) (hnone : s.mountedBd 0 = none) :
    s.mountState = .unselected := by
  rw [h.state, if_pos hnone]

/-- Whatever index is unmounted, even one outside the array. -/
theorem Selected.unmount (h : Selected vcdPath s history) (i : Int) :
    Selected vcdPath (unmountBd s i) history := by
  unfold unmountBd
  by_cases hi : i = 0
  · subst hi
    rw [if_pos rfl]
    refine ⟨fun j hpos hlt => ?_, ?_, fun bd hbd => ?_⟩
    · dsimp only
      rw [Function.update_of_ne (by omega)]
      exact h.others j hpos hlt
    · simp
    · simp at hbd
  · rw [if_neg hi]
    have hzero : Function.update s.mountedBd i none 0 = s.mountedBd 0 :=
      Function.update_of_ne (Ne.symm hi) _ _
    refine ⟨fun j hpos hlt => ?_, ?_, fun bd hbd => ?_⟩
    · by_cases hj : j = i
      · subst hj
        exact Function.update_self _ _ _
      · dsimp only
        rw [Function.update_of_ne hj]
        exact h.others j hpos hlt
    · simp only [hzero]
      exact h.state
    · exact h.origin bd (hzero ▸ hbd)

theorem Selected.stopSingle (h : Selected vcdPath s history) (i : Int) :
    Selected vcdPath (stopSingleBd s i) history := by
  unfold stopSingleBd
  split
  · exact h
  · exact h.unmount i

theorem Selected.stopAll (h : Selected vcdPath s history) :
    Selected vcdPath (stopAllBd s) history :=
  List.foldlRecOn (motive := fun s => Selected vcdPath s history) _ stopSingleBd h
    fun _ hs i _ => hs.stopSingle i

theorem Selected.disconnect (h : Selected vcdPath s history) (bd : Option Dev) :
    Selected vcdPath (disconnectBd s bd) history := by
  unfold disconnectBd
  split
  · exact h
  · exact h.unmount _

theorem Selected.devctl (h : Selected vcdPath s history) (unit : Int) (cmd : Devctl) :
    Selected vcdPath (fsDevctl s unit cmd) history := by
  cases cmd with
  | stopUnit => exact h.stopAll
  | stopAll => exact h.stopSingle unit
  | other => exact h

/-- Calls that install nothing keep the latest installation. -/
theorem Selected.record (h : Selected vcdPath s history) {c : Call}
    (hc : lastInstall (c :: history) = lastInstall history) : Selected vcdPath s (c :: history) :=
  ⟨h.others, h.state, by rw [hc]; exact h.origin⟩

theorem Selected.connect (h : Selected vcdPath s history) {record : BlockDevice} {a : Answers}
    {bd : Dev} {ret : Int} {s' : Driver} {seen : List Sighting}
    (hc : connectBd vcdPath record a s bd = some (ret, s', seen)) :
    Selected vcdPath s' (.connect bd ret seen :: history) := by
  rcases connectBd_spec h.idle hc with ⟨rfl, -, hseen, rfl⟩ | ⟨rfl, rfl⟩
  · refine ⟨fun i hpos hlt => ?_, ?_, fun d hd => ?_⟩
    · dsimp only
      rw [Function.update_of_ne (by omega)]
      exact h.others i hpos hlt
    · simp
    · have hbd : bd = d := by simpa using hd
      subst hbd
      exact ⟨seen, by simp [lastInstall], hseen⟩
  · exact h.record (by simp [lastInstall])

end Selected

theorem selected_invariant (vcdPath : String) :
    (volume vcdPath).Invariant (fun _ _ => True) fun w => Selected vcdPath w.driver w.history where
  init w hw := by
    obtain ⟨-, hstate, hslots⟩ := hw
    have hzero : w.driver.mountedBd 0 = none := hslots 0 (by omega) (by decide)
    refine ⟨fun i hpos hlt => hslots i (by omega) hlt, ?_, fun bd hbd => ?_⟩
    · rw [hstate, if_pos hzero]
    · rw [hzero] at hbd
      cases hbd
  step w a w' _ h _ step := by
    cases a with
    | connect bd record a =>
        obtain ⟨⟨ret, s, seen⟩, hc, rfl⟩ := Option.map_eq_some_iff.mp step
        exact h.connect hc
    | disconnect bd =>
        cases step
        exact (h.disconnect bd).record rfl
    | devctl unit cmd =>
        cases step
        exact (h.devctl unit cmd).record rfl

/-! ## The selected volume -/

/-- In every state outside the lock: only volume 0 is used; it is used exactly when
the state says that the target is ready; the device on it was installed by a
call that saw `/POPS` and then the target on it; a call returns 0 exactly when it
installs its device and otherwise leaves the volume alone; and the volume is
reported ready only under the device's name. -/
theorem popstarter_volume_selected {vcdPath : String} {w : World}
    (h : (volume vcdPath).Reachable (fun _ _ => True) w) :
    (∀ i, 0 < i → i < ffVolumes → w.driver.mountedBd i = none) ∧
    (w.driver.mountedBd 0 ≠ none ↔ w.driver.mountState = .vcdReady) ∧
    (∀ bd, w.driver.mountedBd 0 = some bd →
      ∃ seen, lastInstall w.history = some (bd, seen) ∧ QualifiedOn vcdPath bd seen) ∧
    (∀ record a bd ret s seen, connectBd vcdPath record a w.driver bd = some (ret, s, seen) →
      (ret = 0 ↔ w.driver.mountedBd 0 = none ∧ s.mountedBd 0 = some bd) ∧
      (ret ≠ 0 → s.mountedBd 0 = w.driver.mountedBd 0 ∧ s.mountState = w.driver.mountState)) ∧
    (∀ block name, bdmIsFatfsReady block w.driver (some name) = 1 →
      ∃ bd, w.driver.mountedBd 0 = some bd ∧ (block bd).name = some name) := by
  have hs := (selected_invariant vcdPath).holds h
  refine ⟨hs.others, ?_, hs.origin, fun record a bd ret s seen hc => ?_, fun block name hready => ?_⟩
  · rw [hs.state]
    split <;> simp_all
  · rcases connectBd_spec hs.idle hc with ⟨rfl, hfree, -, rfl⟩ | ⟨rfl, rfl⟩
    · exact ⟨by simp [hfree], fun hne => absurd rfl hne⟩
    · refine ⟨⟨fun hret => by omega, fun hinst => ?_⟩, fun _ => ⟨rfl, rfl⟩⟩
      rw [hinst.1] at hinst
      cases hinst.2
  · unfold bdmIsFatfsReady at hready
    split at hready
    · cases hready
    · rename_i n hn
      cases hn
      split at hready
      · cases hready
      · rename_i bd hbd
        split at hready
        · rename_i hname
          exact ⟨bd, hbd, hname.1⟩
        · cases hready

/-- A USB stick with `/POPS` whose target shows up at the second check. -/
theorem popstarter_volume_selected_usb :
    ∃ w, (volume "").Reachable (fun _ _ => True) w ∧ w.driver.mountedBd 0 = some (.drv 0) ∧
      w.driver.mountState = .vcdReady ∧
      ∃ seen, lastInstall w.history = some (.drv 0, seen) ∧ QualifiedOn "" (.drv 0) seen := by
  have hrun : ((World.perform "" ⟨⟨fun _ => none, .unselected⟩, []⟩
      (.connect (.drv 0) ⟨some "usb", 0, 1, 0x0C, 512, 63, 100⟩ ⟨0, ⟨0, 0x10⟩, [⟨4, 0⟩, ⟨0, 0⟩]⟩)).map
        fun w => w.driver.mountedBd 0) = some (some (.drv 0)) := by decide
  obtain ⟨w, hw, hbd⟩ := Option.map_eq_some_iff.mp hrun
  have hreach : (volume "").Reachable (fun _ _ => True) w :=
    System.Reachable.next (.init ⟨rfl, rfl, fun _ _ _ => rfl⟩) trivial hw
  have hmain := popstarter_volume_selected hreach
  exact ⟨w, hreach, hbd, hmain.2.1.mp (by rw [hbd]; exact nofun), hmain.2.2.1 _ hbd⟩

end BdmAssault.FatFs
