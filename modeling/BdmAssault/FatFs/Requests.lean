import BdmAssault.FatFs.Fragments
import BdmAssault.FatFs.Select

/-! # Requests that look up their device

`fs_ioctl2`, `fs_getstat` and `fs_devctl` of `bdmfs_fs_driver.c`. Each of them finds its device
with `fatfs_fs_driver_get_mounted_bd_from_index`, by the unit of the `iop_file_t` or by the
drive of an open file, and the device may be gone by then. An outcome lists what the request
did with the mount table and with the device.
-/

namespace BdmAssault.FatFs

open Manager Lib

inductive Access where
  /-- an element of `fs_driver_mount_info` -/
  | index (i : Int)
  /-- a field of what `mounted_bd` points to -/
  | deref (bd : Option Dev)
  /-- `mounted_bd->stop(mounted_bd)` -/
  | stop (bd : Dev)
  deriving DecidableEq

/-- What a request writes to its return buffer. -/
inductive Reply where
  | none
  | lba (sector : UInt64)
  | drivername (name : Option String)
  | fragments (memory : Nat → BdFragment)
  | deviceNumber (devNr : UInt32)

structure Outcome where
  ret : Int
  driver : Driver
  accesses : List Access
  reply : Reply

/-- `fatfs_fs_driver_get_mounted_bd_from_index` and the element it reads. -/
def lookUp (s : Driver) (i : Int) : Option Dev × List Access :=
  (getMountedBdFromIndex s i, if ffVolumes < i then [] else [.index i])

/-! ## `fs_ioctl2` -/

/-- The file or directory that `privdata` points to: both begin with an `FFOBJID`. `pdrv` is
the drive of the volume. -/
structure OpenObject where
  pdrv : Int
  obj : ObjId

/-- The volumes and devices: the `FATFS` of a slot with the device mounted there, its FAT, and
the first four bytes of the name of a device. -/
structure Media where
  volume : Int → Dev → Volume
  window : Int → FatSectors
  nameWord : Dev → Int

inductive Ioctl where
  | rename
  | getCluster
  | getLba
  | getDrivername
  | checkChain
  | getFraglist
  | getDeviceNumber
  | other
  deriving DecidableEq

def enoent : Int := 2

def einval : Int := 22

/-- `get_frag_list` with its look-up. -/
def fragListOf (m : Media) (s : Driver) (file : OpenObject) (rdata : Rdata) :
    (Int × (Nat → BdFragment)) × List Access :=
  let (bd, accesses) := lookUp s file.pdrv
  (getFragList (bd.map (m.volume file.pdrv)) (m.window file.pdrv) file.obj rdata,
    if bd = none ∨ file.obj.objsize = 0 then accesses else accesses ++ [.deref bd])

/-- `unit` is that of the `iop_file_t`. -/
def fsIoctl2 (m : Media) (s : Driver) (privdata : Option OpenObject) (unit : Int) (cmd : Ioctl) (rdata : Rdata) :
    Outcome :=
  match privdata with
  | none => ⟨-enxio, s, [], .none⟩
  | some file =>
      match cmd with
      | .rename => ⟨-enoent, s, [], .none⟩
      | .getCluster => ⟨file.obj.sclust.toInt32.toInt, s, [], .none⟩
      | .getLba =>
          if rdata.isNull ∨ rdata.rdatalen < 8 then ⟨-einval, s, [], .none⟩
          else
            let (bd, accesses) := lookUp s file.pdrv
            ⟨0, s, accesses ++ [.deref bd], match bd with
              | none => .none
              | some bd =>
                  let vol := m.volume file.pdrv bd
                  .lba (clst2sect vol.fs file.obj.sclust + vol.bd.sectorOffset)⟩
      | .getDrivername =>
          let (bd, accesses) := lookUp s unit
          let ret := match bd with
            | none => -enxio
            | some dev => m.nameWord dev
          let accesses := if bd = none then accesses else accesses ++ [.deref bd]
          if rdata.isNull then ⟨ret, s, accesses, .none⟩
          else ⟨ret, s, accesses ++ [.deref bd], .drivername (bd.bind fun dev => (m.volume unit dev).bd.name)⟩
      | .checkChain =>
          let ((ret, _), accesses) := fragListOf m s file { rdata with isNull := true, rdatalen := 0 }
          ⟨if 0 ≤ ret then (if ret = 1 then 1 else 0) else ret, s, accesses, .none⟩
      | .getFraglist =>
          let ((ret, memory), accesses) := fragListOf m s file rdata
          ⟨ret, s, accesses, .fragments memory⟩
      | .getDeviceNumber =>
          if rdata.isNull ∨ rdata.rdatalen < 4 then ⟨-einval, s, [], .none⟩
          else
            let (bd, accesses) := lookUp s file.pdrv
            match bd with
            | none => ⟨-enxio, s, accesses, .none⟩
            | some dev => ⟨0, s, accesses ++ [.deref bd], .deviceNumber (m.volume file.pdrv dev).bd.devNr⟩
      | .other => ⟨0, s, [], .none⟩

/-! ## `fs_getstat` -/

/-- The names that `f_stat` does not handle. -/
def isRoot (name : List UInt8) : Bool :=
  let name := name.dropWhile (· = 0x2F)
  name = [] ∨ name = [0x2E]

def frNotReady : Nat := 3

def frInvalidDrive : Nat := 11

def frNotEnabled : Nat := 12

/-- What FatFs finds and answers: the drive in the path, whether its `FATFS` is registered,
and the result on a drive that is ready. -/
structure StatAnswers where
  drive : Option (Fin 10)
  enabled : Bool
  result : Nat

/-- `f_stat`: `mount_volume` asks `disk_status` or `disk_initialize` for the device first, and
every other call of `diskio` asks for it again. -/
def fStat (s : Driver) (a : StatAnswers) : Nat × List Access :=
  match a.drive with
  | none => (frInvalidDrive, [])
  | some drive =>
      if a.enabled then
        let (bd, accesses) := lookUp s (drive : Nat)
        match bd with
        | none => (frNotReady, accesses)
        | some _ => (a.result, accesses ++ [.deref bd])
      else (frNotEnabled, [])

def fsGetstat (s : Driver) (unit : Int) (name : List UInt8) (a : StatAnswers) : Outcome :=
  if isRoot name then
    let (bd, accesses) := lookUp s unit
    ⟨if bd = none then -enxio else 0, s, accesses, .none⟩
  else
    let (result, accesses) := fStat s a
    ⟨if result = frOk then result else -result, s, accesses, .none⟩

/-! ## `fs_devctl` -/

/-- `fatfs_fs_driver_stop_single_bd` -/
def stopSingle (s : Driver) (i : Int) : Driver × List Access :=
  let (bd, accesses) := lookUp s i
  match bd with
  | none => (s, accesses)
  | some dev => (unmountBd s i, accesses ++ [.index i, .stop dev])

/-- The loop of `fatfs_fs_driver_stop_all_bd` over the slots in the list. -/
def stopEach (s : Driver) : List Int → Driver × List Access
  | [] => (s, [])
  | i :: is =>
      let (s, accesses) := stopSingle s i
      let (s, others) := stopEach s is
      (s, accesses ++ others)

/-- The indices of the mount table. -/
def mountSlots : List Int := (List.range 10).map Int.ofNat

def fsDevctlTraced (s : Driver) (unit : Int) (cmd : Devctl) : Outcome :=
  match cmd with
  | .stopUnit =>
      let (s, accesses) := stopEach s mountSlots
      ⟨frOk, s, accesses, .none⟩
  | .stopAll =>
      let (s, accesses) := stopSingle s unit
      ⟨frOk, s, accesses, .none⟩
  | .other => ⟨-enxio, s, [], .none⟩

theorem stopSingle_fst (s : Driver) (i : Int) : (stopSingle s i).1 = stopSingleBd s i := by
  unfold stopSingle stopSingleBd lookUp
  dsimp only
  cases hbd : getMountedBdFromIndex s i with
  | none => rw [if_pos rfl]
  | some dev => rw [if_neg (Option.some_ne_none dev)]

theorem stopEach_fst (s : Driver) (is : List Int) : (stopEach s is).1 = is.foldl stopSingleBd s := by
  induction is generalizing s with
  | nil => rfl
  | cons i is ih =>
      show (stopEach (stopSingle s i).1 is).1 = _
      rw [ih, stopSingle_fst]
      rfl

/-- The effect on the mount table is the one of `fsDevctl`. -/
theorem fsDevctlTraced_driver (s : Driver) (unit : Int) (cmd : Devctl) :
    (fsDevctlTraced s unit cmd).driver = fsDevctl s unit cmd := by
  cases cmd with
  | stopUnit => exact stopEach_fst s mountSlots
  | stopAll => exact stopSingle_fst s unit
  | other => rfl

/-! ## Stop requests -/

/-- The devices whose `stop` is called, in order. -/
def stops (accesses : List Access) : List Dev :=
  accesses.filterMap fun
    | .stop bd => some bd
    | _ => none

/-- The mount table has an element for unit `i`. -/
def IsSlot (i : Int) : Prop := 0 ≤ i ∧ i < ffVolumes

instance (i : Int) : Decidable (IsSlot i) := inferInstanceAs (Decidable (_ ∧ _))

/-- The device of unit `i`. -/
def Driver.unitBd (s : Driver) (i : Int) : Option Dev := if IsSlot i then s.mountedBd i else none

/-- Only the device of the unit is unmounted and stopped. -/
structure StopsUnit (s : Driver) (unit : Int) (o : Outcome) : Prop where
  stopped : stops o.accesses = (s.unitBd unit).toList
  unmounted : o.driver.unitBd unit = none
  others : ∀ i, i ≠ unit → o.driver.unitBd i = s.unitBd i

/-- Every mounted device is unmounted and stopped, each of them once. -/
structure StopsAll (s : Driver) (o : Outcome) : Prop where
  mounted : ∀ i bd, s.unitBd i = some bd → (stops o.accesses).count bd = 1
  others : ∀ bd ∈ stops o.accesses, ∃ i, s.unitBd i = some bd
  unmounted : ∀ i, o.driver.unitBd i = none

theorem mem_mountSlots {i : Int} : i ∈ mountSlots ↔ IsSlot i := by
  unfold mountSlots IsSlot ffVolumes
  rw [List.mem_map]
  constructor
  · rintro ⟨n, hn, rfl⟩
    rw [List.mem_range] at hn
    exact ⟨Int.natCast_nonneg n, by show (n : Int) < 10; omega⟩
  · rintro ⟨hlow, hhigh⟩
    exact ⟨i.toNat, List.mem_range.mpr (by omega), Int.toNat_of_nonneg hlow⟩

section Stop

variable {s : Driver} {i unit : Int}

theorem getMountedBd_of_isSlot (h : IsSlot i) : getMountedBdFromIndex s i = s.mountedBd i := by
  unfold getMountedBdFromIndex
  exact if_neg (Int.not_lt.mpr (Int.le_of_lt h.2))

theorem unitBd_of_isSlot (h : IsSlot i) : s.unitBd i = s.mountedBd i := if_pos h

theorem unitBd_of_not_isSlot (h : ¬ IsSlot i) : s.unitBd i = none := if_neg h

@[simp] theorem unmountBd_mountedBd (s : Driver) (i : Int) :
    (unmountBd s i).mountedBd = Function.update s.mountedBd i none := by
  unfold unmountBd
  dsimp only
  split
  · rfl
  · rfl

/-- Nothing is there to be stopped. -/
theorem stopSingle_none (h : getMountedBdFromIndex s i = none) :
    (stopSingle s i).1 = s ∧ stops (stopSingle s i).2 = [] := by
  unfold stopSingle lookUp
  rw [h]
  refine ⟨rfl, ?_⟩
  dsimp only
  split
  · rfl
  · rfl

theorem stopSingle_some {dev : Dev} (h : getMountedBdFromIndex s i = some dev) :
    (stopSingle s i).1 = unmountBd s i ∧ stops (stopSingle s i).2 = [dev] := by
  unfold stopSingle lookUp
  rw [h]
  refine ⟨rfl, ?_⟩
  dsimp only
  split
  · rfl
  · rfl

/-- In a slot, both cases at once. -/
theorem stopSingle_slot (h : IsSlot i) :
    (stopSingle s i).1.mountedBd = Function.update s.mountedBd i none ∧
      stops (stopSingle s i).2 = (s.mountedBd i).toList := by
  have hlook := getMountedBd_of_isSlot (s := s) h
  cases hbd : s.mountedBd i with
  | none =>
      obtain ⟨hs, hstops⟩ := stopSingle_none (hlook.trans hbd)
      rw [hs, hstops]
      exact ⟨(Function.update_eq_self_iff.mpr hbd.symm).symm, rfl⟩
  | some dev =>
      obtain ⟨hs, hstops⟩ := stopSingle_some (hlook.trans hbd)
      rw [hs, hstops]
      exact ⟨unmountBd_mountedBd s i, rfl⟩

/-- The loop stops what is mounted in its slots. -/
theorem stopEach_spec {is : List Int} (hslots : ∀ i ∈ is, IsSlot i) (hnodup : is.Nodup) (s : Driver) :
    (∀ j, (stopEach s is).1.mountedBd j = if j ∈ is then none else s.mountedBd j) ∧
      stops (stopEach s is).2 = is.filterMap s.mountedBd := by
  induction is generalizing s with
  | nil => exact ⟨fun _ => rfl, rfl⟩
  | cons i is ih =>
      obtain ⟨hnot, hnodup⟩ := List.nodup_cons.mp hnodup
      obtain ⟨hmounted, hstops⟩ := stopSingle_slot (s := s) (hslots i List.mem_cons_self)
      obtain ⟨ihmounted, ihstops⟩ :=
        ih (fun j hj => hslots j (List.mem_cons_of_mem i hj)) hnodup (stopSingle s i).1
      constructor
      · intro j
        show (stopEach (stopSingle s i).1 is).1.mountedBd j = _
        rw [ihmounted, hmounted]
        by_cases hj : j = i
        · subst hj
          simp
        · simp [hj]
      · show stops ((stopSingle s i).2 ++ (stopEach (stopSingle s i).1 is).2) = _
        unfold stops at hstops ihstops ⊢
        rw [List.filterMap_append, hstops, ihstops, hmounted]
        -- the slots to come are not the one just emptied
        have hsame : is.filterMap (Function.update s.mountedBd i none) = is.filterMap s.mountedBd := by
          apply List.filterMap_congr
          intro j hj
          have hji : j ≠ i := fun hji => hnot (hji ▸ hj)
          exact Function.update_of_ne hji _ _
        rw [hsame, List.filterMap_cons]
        cases s.mountedBd i with
        | none => rfl
        | some dev => rfl

theorem nodup_mountSlots : mountSlots.Nodup := by decide

theorem filterMap_single {is : List Int} {f : Int → Option Dev} (hnodup : is.Nodup)
    (hf : ∀ i ∈ is, i ≠ unit → f i = none) :
    is.filterMap f = if unit ∈ is then (f unit).toList else [] := by
  induction is with
  | nil => rfl
  | cons i is ih =>
      obtain ⟨hnot, hnodup⟩ := List.nodup_cons.mp hnodup
      have hrest := ih hnodup fun j hj => hf j (List.mem_cons_of_mem i hj)
      rw [List.filterMap_cons]
      by_cases hi : i = unit
      · subst hi
        rw [hrest, if_neg hnot, if_pos List.mem_cons_self]
        cases f i with
        | none => rfl
        | some dev => rfl
      · rw [hf i List.mem_cons_self hi, hrest]
        simp [Ne.symm hi]

/-- The request named after one unit goes through all of them. -/
theorem stopUnit_spec (s : Driver) (unit : Int) :
    (∀ i, (fsDevctlTraced s unit .stopUnit).driver.unitBd i = none) ∧
      stops (fsDevctlTraced s unit .stopUnit).accesses = mountSlots.filterMap s.mountedBd := by
  obtain ⟨hmounted, hstops⟩ := stopEach_spec (fun _ => mem_mountSlots.mp) nodup_mountSlots s
  refine ⟨fun i => ?_, hstops⟩
  by_cases hi : IsSlot i
  · rw [unitBd_of_isSlot hi]
    exact (hmounted i).trans (if_pos (mem_mountSlots.mpr hi))
  · exact unitBd_of_not_isSlot hi

/-- The only unit with a device is `unit`. -/
def OnlyUnit (s : Driver) (unit : Int) : Prop := ∀ i, s.unitBd i ≠ none → i = unit

theorem stopsUnit_of_onlyUnit (h : OnlyUnit s unit) : StopsUnit s unit (fsDevctlTraced s unit .stopUnit) := by
  obtain ⟨hnone, hstops⟩ := stopUnit_spec s unit
  have hothers : ∀ i, i ≠ unit → s.unitBd i = none := fun i hi => not_not.mp (mt (h i) hi)
  refine ⟨?_, hnone unit, fun i hi => (hnone i).trans (hothers i hi).symm⟩
  rw [hstops, @filterMap_single unit _ _ nodup_mountSlots]
  · by_cases hunit : IsSlot unit
    · rw [if_pos (mem_mountSlots.mpr hunit), unitBd_of_isSlot hunit]
    · rw [if_neg (mt mem_mountSlots.mp hunit), unitBd_of_not_isSlot hunit]
      rfl
  · intro i hi hne
    rw [← unitBd_of_isSlot (mem_mountSlots.mp hi)]
    exact hothers i hne

/-- The request named after all units stops one. -/
theorem stopAll_others (s : Driver) {i : Int} (hi : i ≠ unit) :
    (fsDevctlTraced s unit .stopAll).driver.unitBd i = s.unitBd i := by
  show (stopSingle s unit).1.unitBd i = _
  unfold Driver.unitBd
  cases hbd : getMountedBdFromIndex s unit with
  | none => rw [(stopSingle_none hbd).1]
  | some dev =>
      rw [(stopSingle_some hbd).1, unmountBd_mountedBd]
      rw [Function.update_of_ne hi]

theorem stopsAll_of_onlyUnit (h : OnlyUnit s unit) (hmemory : ¬ IsSlot unit → getMountedBdFromIndex s unit = none) :
    StopsAll s (fsDevctlTraced s unit .stopAll) := by
  have hothers : ∀ i, i ≠ unit → s.unitBd i = none := fun i hi => not_not.mp (mt (h i) hi)
  by_cases hunit : IsSlot unit
  · obtain ⟨hmounted, hstops⟩ := stopSingle_slot (s := s) hunit
    replace hstops : stops (fsDevctlTraced s unit .stopAll).accesses = (s.mountedBd unit).toList := hstops
    refine ⟨fun i bd hbd => ?_, fun bd hbd => ?_, fun i => ?_⟩
    · have hi : i = unit := h i (hbd ▸ Option.some_ne_none bd)
      subst hi
      rw [unitBd_of_isSlot hunit] at hbd
      rw [hstops, hbd]
      exact List.count_singleton_self
    · rw [hstops, Option.mem_toList] at hbd
      exact ⟨unit, (unitBd_of_isSlot hunit).trans hbd⟩
    · by_cases hi : i = unit
      · subst hi
        rw [unitBd_of_isSlot hunit]
        show (stopSingle s i).1.mountedBd i = none
        rw [hmounted, Function.update_self]
      · rw [stopAll_others s hi]
        exact hothers i hi
  · -- no unit has a device, and nothing is found outside the table
    obtain ⟨-, hstops⟩ := stopSingle_none (hmemory hunit)
    replace hstops : stops (fsDevctlTraced s unit .stopAll).accesses = [] := hstops
    have hnone : ∀ i, s.unitBd i = none := by
      intro i
      by_cases hi : i = unit
      · subst hi
        exact unitBd_of_not_isSlot hunit
      · exact hothers i hi
    refine ⟨fun i bd hbd => ?_, fun bd hbd => ?_, fun i => ?_⟩
    · rw [hnone i] at hbd
      cases hbd
    · rw [hstops] at hbd
      cases hbd
    · by_cases hi : i = unit
      · subst hi
        exact unitBd_of_not_isSlot hunit
      · rw [stopAll_others s hi]
        exact hnone i

theorem onlyUnit_of_stopsAll (h : StopsAll s (fsDevctlTraced s unit .stopAll)) : OnlyUnit s unit := by
  intro i hi
  by_contra hne
  rw [← stopAll_others s hne] at hi
  exact hi (h.unmounted i)

theorem memory_of_stopsAll (h : StopsAll s (fsDevctlTraced s unit .stopAll)) (hunit : ¬ IsSlot unit) :
    getMountedBdFromIndex s unit = none := by
  have honly := onlyUnit_of_stopsAll h
  cases hbd : getMountedBdFromIndex s unit with
  | none => rfl
  | some dev =>
      obtain ⟨-, hstops⟩ := stopSingle_some hbd
      replace hstops : stops (fsDevctlTraced s unit .stopAll).accesses = [dev] := hstops
      obtain ⟨i, hi⟩ := h.others dev (hstops ▸ List.mem_singleton_self dev)
      have hiunit := honly i (hi ▸ Option.some_ne_none dev)
      rw [hiunit, unitBd_of_not_isSlot hunit] at hi
      cases hi

end Stop

/-- Both requests do what they are named after. -/
theorem stop_requests_iff {s : Driver} {unit : Int} :
    (StopsUnit s unit (fsDevctlTraced s unit .stopUnit) ∧ StopsAll s (fsDevctlTraced s unit .stopAll)) ↔
      OnlyUnit s unit ∧ (¬ IsSlot unit → getMountedBdFromIndex s unit = none) := by
  constructor
  · rintro ⟨-, hall⟩
    exact ⟨onlyUnit_of_stopsAll hall, memory_of_stopsAll hall⟩
  · rintro ⟨honly, hmemory⟩
    exact ⟨stopsUnit_of_onlyUnit honly, stopsAll_of_onlyUnit honly hmemory⟩

/-- A partition is mounted as unit 0. -/
def oneUnit : Driver := ⟨fun i => if i = 0 then some (.part 0) else none, .vcdReady⟩

/-- On unit 1, the request for one unit stops the device of unit 0, and the request for all of
them stops nothing. -/
theorem stop_requests_swapped :
    stops (fsDevctlTraced oneUnit 1 .stopUnit).accesses = [.part 0] ∧
      stops (fsDevctlTraced oneUnit 1 .stopAll).accesses = [] ∧
      ¬ StopsUnit oneUnit 1 (fsDevctlTraced oneUnit 1 .stopUnit) ∧
      ¬ StopsAll oneUnit (fsDevctlTraced oneUnit 1 .stopAll) := by
  have hunit : stops (fsDevctlTraced oneUnit 1 .stopUnit).accesses = [.part 0] := by decide
  have hall : stops (fsDevctlTraced oneUnit 1 .stopAll).accesses = [] := by decide
  refine ⟨hunit, hall, fun h => ?_, fun h => ?_⟩
  · have hstopped := h.stopped
    rw [hunit] at hstopped
    cases hstopped
  · have hcount := h.mounted 0 (.part 0) (by decide)
    rw [hall] at hcount
    cases hcount

/-! ## Absent devices -/

section Services

variable {F : Type} [DecidableEq F]

/-- The mount table and the open files and directories. -/
structure Service (F : Type) where
  driver : Driver
  privdata : F → Option OpenObject

inductive ServiceAct (F : Type) where
  | connect (bd : Dev) (record : BlockDevice) (a : Answers)
  | disconnect (bd : Option Dev)
  | devctl (unit : Int) (cmd : Devctl)
  | opens (fd : F) (file : OpenObject)
  | closes (fd : F)

/-- A file or directory is opened on a drive with a device; closing it may come after the
device is gone. -/
inductive ServiceStep (vcdPath : String) : Service F → ServiceAct F → Service F → Prop where
  | connect {w : Service F} {bd : Dev} {record : BlockDevice} {a : Answers} {ret : Int} {s : Driver}
      {seen : List Sighting} (h : connectBd vcdPath record a w.driver bd = some (ret, s, seen)) :
      ServiceStep vcdPath w (.connect bd record a) { w with driver := s }
  | disconnect {w : Service F} {bd : Option Dev} :
      ServiceStep vcdPath w (.disconnect bd) { w with driver := disconnectBd w.driver bd }
  | devctl {w : Service F} {unit : Int} {cmd : Devctl} :
      ServiceStep vcdPath w (.devctl unit cmd) { w with driver := fsDevctl w.driver unit cmd }
  | opens {w : Service F} {fd : F} {file : OpenObject} (h : w.driver.unitBd file.pdrv ≠ none) :
      ServiceStep vcdPath w (.opens fd file) { w with privdata := Function.update w.privdata fd (some file) }
  | closes {w : Service F} {fd : F} :
      ServiceStep vcdPath w (.closes fd) { w with privdata := Function.update w.privdata fd none }

def services (vcdPath : String) (F : Type) [DecidableEq F] : System (Service F) (ServiceAct F) where
  init w := (∀ i, w.driver.unitBd i = none) ∧ ∀ fd, w.privdata fd = none
  step := ServiceStep vcdPath

/-- What an open file keeps when its device goes: the number of its drive. -/
theorem pdrv_isSlot {vcdPath : String} {w : Service F}
    (h : (services vcdPath F).Reachable (fun _ _ => True) w) {fd : F} {file : OpenObject}
    (hfile : w.privdata fd = some file) : IsSlot file.pdrv := by
  revert fd file
  refine System.Invariant.holds (P := fun w => ∀ {fd file}, w.privdata fd = some file → IsSlot file.pdrv)
    ⟨fun w hw fd file hfile => ?_, fun w act w' _ hw _ hstep fd file hfile => ?_⟩ h
  · rw [hw.2 fd] at hfile
    cases hfile
  · cases hstep with
    | connect => exact hw hfile
    | disconnect => exact hw hfile
    | devctl => exact hw hfile
    | opens hopen =>
        rename_i fd' file'
        dsimp only at hfile
        by_cases hfd : fd = fd'
        · subst hfd
          rw [Function.update_self] at hfile
          cases hfile
          by_contra hslot
          exact hopen (unitBd_of_not_isSlot hslot)
        · rw [Function.update_of_ne hfd] at hfile
          exact hw hfile
    | closes =>
        rename_i fd'
        dsimp only at hfile
        by_cases hfd : fd = fd'
        · subst hfd
          rw [Function.update_self] at hfile
          cases hfile
        · rw [Function.update_of_ne hfd] at hfile
          exact hw hfile

end Services

/-- A request of a caller. -/
inductive Request (F : Type) where
  | ioctl2 (fd : F) (unit : Int) (cmd : Ioctl) (rdata : Rdata)
  | getstat (unit : Int) (name : List UInt8) (a : StatAnswers)
  | devctl (unit : Int) (cmd : Devctl)

section Requests

variable {F : Type}

def Request.perform (m : Media) (w : Service F) : Request F → Outcome
  | .ioctl2 fd unit cmd rdata => fsIoctl2 m w.driver (w.privdata fd) unit cmd rdata
  | .getstat unit name a => fsGetstat w.driver unit name a
  | .devctl unit cmd => fsDevctlTraced w.driver unit cmd

/-- The slots whose device a request is for. -/
def Request.Concerns (w : Service F) : Request F → Int → Prop
  | .ioctl2 fd unit cmd _, i =>
      if cmd = .getDrivername then i = unit else ∃ file, w.privdata fd = some file ∧ i = file.pdrv
  | .getstat unit name a, i =>
      if isRoot name then i = unit else ∃ drive, a.drive = some drive ∧ i = (drive : Nat)
  | .devctl unit cmd, i => cmd = .stopUnit ∨ i = unit

/-- The table is read inside its bounds, no null pointer is followed, and a request without an
error has had a device. -/
structure Harmless (o : Outcome) (present : Prop) : Prop where
  inBounds : ∀ i, .index i ∈ o.accesses → IsSlot i
  nonNull : .deref none ∉ o.accesses
  present : o.ret < 0 ∨ present

def NoAbsentAccess (m : Media) (w : Service F) (req : Request F) : Prop :=
  Harmless (req.perform m w) (∃ i, req.Concerns w i ∧ w.driver.unitBd i ≠ none)

/-- The requests that the state of the mount table allows. -/
def Request.Allowed (w : Service F) : Request F → Prop
  | .ioctl2 fd unit cmd rdata =>
      match w.privdata fd with
      | none => True
      | some file =>
          match cmd with
          | .getCluster => 0x80000000 ≤ file.obj.sclust ∨ w.driver.unitBd file.pdrv ≠ none
          | .getLba => (rdata.isNull ∨ rdata.rdatalen < 8) ∨ w.driver.unitBd file.pdrv ≠ none
          | .getDrivername =>
              (rdata.isNull ∧ (IsSlot unit ∨ ffVolumes < unit)) ∨ w.driver.unitBd unit ≠ none
          | .other => w.driver.unitBd file.pdrv ≠ none
          | .rename | .checkChain | .getFraglist | .getDeviceNumber => True
  | .getstat unit name _ => isRoot name → IsSlot unit ∨ ffVolumes < unit
  | .devctl unit cmd =>
      match cmd with
      | .stopUnit => ∃ i, w.driver.unitBd i ≠ none
      | .stopAll => w.driver.unitBd unit ≠ none
      | .other => True

/-! ### Look-ups -/

section LookUp

variable {s : Driver} {i : Int}

theorem lookUp_slot (h : IsSlot i) : lookUp s i = (s.unitBd i, [.index i]) := by
  unfold lookUp
  rw [getMountedBd_of_isSlot h, unitBd_of_isSlot h, if_neg (Int.not_lt.mpr (Int.le_of_lt h.2))]

theorem lookUp_beyond (h : ffVolumes < i) : lookUp s i = (none, []) := by
  unfold lookUp getMountedBdFromIndex
  rw [if_pos h, if_pos h]

theorem lookUp_outside (h : ¬ (IsSlot i ∨ ffVolumes < i)) :
    ¬ IsSlot i ∧ lookUp s i = (s.mountedBd i, [.index i]) := by
  obtain ⟨hslot, hbeyond⟩ := not_or.mp h
  unfold lookUp getMountedBdFromIndex
  rw [if_neg hbeyond, if_neg hbeyond]
  exact ⟨hslot, rfl⟩

/-- An error without any access. -/
theorem harmless_error {ret : Int} (h : ret < 0) (s : Driver) (reply : Reply) (present : Prop) :
    Harmless ⟨ret, s, [], reply⟩ present where
  inBounds _ hi := absurd hi List.not_mem_nil
  nonNull := List.not_mem_nil
  present := .inl h

/-- Without any access, the device counts. -/
theorem harmless_nil_iff {ret : Int} {s : Driver} {reply : Reply} {present : Prop} :
    Harmless ⟨ret, s, [], reply⟩ present ↔ ret < 0 ∨ present := by
  constructor
  · intro h
    exact h.present
  · intro h
    exact ⟨fun _ hi => absurd hi List.not_mem_nil, List.not_mem_nil, h⟩

/-- The table was read where it may be, and the pointer was followed. -/
theorem harmless_deref_iff (hslot : IsSlot i) {bd : Option Dev} {ret : Int} {s : Driver} {reply : Reply}
    {present : Prop} (hpresent : bd ≠ none → present) :
    Harmless ⟨ret, s, [.index i, .deref bd], reply⟩ present ↔ bd ≠ none := by
  constructor
  · intro h hnone
    exact h.nonNull (by simp [hnone])
  · intro hsome
    refine ⟨fun j hj => ?_, ?_, .inr (hpresent hsome)⟩
    · simp at hj
      exact hj ▸ hslot
    · simp [hsome.symm]

/-- The table was read where it may be, and nothing else happened. -/
theorem harmless_index_iff (hslot : IsSlot i) {ret : Int} {s : Driver} {reply : Reply} {present : Prop} :
    Harmless ⟨ret, s, [.index i], reply⟩ present ↔ ret < 0 ∨ present := by
  constructor
  · intro h
    exact h.present
  · intro h
    refine ⟨fun j hj => ?_, by simp, h⟩
    simp at hj
    exact hj ▸ hslot

/-- The table was read where it may not be. -/
theorem not_harmless_index (hslot : ¬ IsSlot i) {o : Outcome} {present : Prop} (h : .index i ∈ o.accesses) :
    ¬ Harmless o present := fun hharmless => hslot (hharmless.inBounds i h)

end LookUp

/-! ### Each request -/

section Ioctl

variable {m : Media} {w : Service F} {fd : F} {unit : Int} {file : OpenObject} {rdata : Rdata}

/-- Every command but one is for the drive of the file. -/
theorem concerns_file {cmd : Ioctl} (hfile : w.privdata fd = some file) (hcmd : cmd ≠ .getDrivername) :
    (∃ i, (Request.ioctl2 fd unit cmd rdata).Concerns w i ∧ w.driver.unitBd i ≠ none) ↔
      w.driver.unitBd file.pdrv ≠ none := by
  unfold Request.Concerns
  simp only [if_neg hcmd]
  constructor
  · rintro ⟨i, ⟨file', hfile', rfl⟩, hi⟩
    rw [hfile] at hfile'
    cases hfile'
    exact hi
  · intro h
    exact ⟨file.pdrv, ⟨file, hfile, rfl⟩, h⟩

theorem concerns_unit :
    (∃ i, (Request.ioctl2 fd unit .getDrivername rdata).Concerns w i ∧ w.driver.unitBd i ≠ none) ↔
      w.driver.unitBd unit ≠ none := by
  unfold Request.Concerns
  simp only [if_true]
  exact ⟨fun ⟨_, hi, h⟩ => hi ▸ h, fun h => ⟨unit, rfl, h⟩⟩

theorem perform_ioctl2 {cmd : Ioctl} (hfile : w.privdata fd = some file) :
    (Request.ioctl2 fd unit cmd rdata).perform m w = fsIoctl2 m w.driver (some file) unit cmd rdata := by
  show fsIoctl2 m w.driver (w.privdata fd) unit cmd rdata = _
  rw [hfile]

theorem getCluster_iff (hfile : w.privdata fd = some file) :
    NoAbsentAccess m w (.ioctl2 fd unit .getCluster rdata) ↔
      0x80000000 ≤ file.obj.sclust ∨ w.driver.unitBd file.pdrv ≠ none := by
  have hsign : file.obj.sclust.toInt32.toInt < 0 ↔ 0x80000000 ≤ file.obj.sclust := by
    rw [UInt32.le_iff_toNat_le]
    show file.obj.sclust.toBitVec.toInt < 0 ↔ 2147483648 ≤ file.obj.sclust.toNat
    have hlt : file.obj.sclust.toNat < 4294967296 := file.obj.sclust.toNat_lt
    rw [BitVec.toInt_eq_toNat_cond]
    show (if 2 * file.obj.sclust.toNat < 4294967296 then (file.obj.sclust.toNat : Int)
      else file.obj.sclust.toNat - 4294967296) < 0 ↔ _
    split
    · omega
    · omega
  unfold NoAbsentAccess
  rw [concerns_file hfile (by decide), perform_ioctl2 hfile]
  exact harmless_nil_iff.trans (or_congr_left hsign)

theorem getLba_iff (hfile : w.privdata fd = some file) (hslot : IsSlot file.pdrv) :
    NoAbsentAccess m w (.ioctl2 fd unit .getLba rdata) ↔
      (rdata.isNull ∨ rdata.rdatalen < 8) ∨ w.driver.unitBd file.pdrv ≠ none := by
  unfold NoAbsentAccess
  rw [concerns_file hfile (by decide), perform_ioctl2 hfile]
  unfold fsIoctl2
  dsimp only
  rw [lookUp_slot hslot]
  dsimp only
  by_cases hshort : rdata.isNull ∨ rdata.rdatalen < 8
  · rw [if_pos hshort]
    exact iff_of_true (harmless_error (by decide) _ _ _) (.inl hshort)
  · rw [if_neg hshort, or_iff_right hshort]
    exact harmless_deref_iff hslot id

/-- The device is followed once for the word of its name and once for the buffer. -/
theorem getDrivername_eq (hfile : w.privdata fd = some file) {bd : Option Dev} {accesses : List Access}
    (hlook : lookUp w.driver unit = (bd, accesses)) :
    ∃ ret reply, (Request.ioctl2 fd unit .getDrivername rdata).perform m w =
        ⟨ret, w.driver, accesses ++ (if bd = none then [] else [.deref bd]) ++
          (if rdata.isNull then [] else [.deref bd]), reply⟩ ∧ (bd = none → ret < 0) := by
  rw [perform_ioctl2 hfile]
  unfold fsIoctl2
  dsimp only
  rw [hlook]
  dsimp only
  cases bd with
  | none =>
      cases rdata.isNull with
      | true => exact ⟨-enxio, .none, by simp, fun _ => by decide⟩
      | false => exact ⟨-enxio, _, by simp; rfl, fun _ => by decide⟩
  | some dev =>
      cases rdata.isNull with
      | true => exact ⟨m.nameWord dev, .none, by simp, fun hnone => by cases hnone⟩
      | false => exact ⟨m.nameWord dev, _, by simp; rfl, fun hnone => by cases hnone⟩

theorem getDrivername_iff (hfile : w.privdata fd = some file) :
    NoAbsentAccess m w (.ioctl2 fd unit .getDrivername rdata) ↔
      (rdata.isNull ∧ (IsSlot unit ∨ ffVolumes < unit)) ∨ w.driver.unitBd unit ≠ none := by
  unfold NoAbsentAccess
  rw [concerns_unit]
  by_cases hslot : IsSlot unit
  · obtain ⟨ret, reply, hperform, hret⟩ := getDrivername_eq (m := m) hfile (lookUp_slot hslot)
    rw [hperform]
    cases hbd : w.driver.unitBd unit with
    | none =>
        cases hnull : rdata.isNull with
        | true =>
            refine iff_of_true ((harmless_index_iff hslot).mpr (.inl (hret hbd))) (.inl ⟨rfl, .inl hslot⟩)
        | false =>
            refine iff_of_false (fun h => h.nonNull (by simp)) ?_
            simp
    | some dev =>
        refine iff_of_true ⟨fun i hi => ?_, ?_, .inr (Option.some_ne_none dev)⟩ (.inr (Option.some_ne_none dev))
        · have hiunit : i = unit := by
            cases hnull : rdata.isNull with
            | true => simpa [hnull] using hi
            | false => simpa [hnull] using hi
          exact hiunit ▸ hslot
        · simp
  · by_cases hbeyond : ffVolumes < unit
    · obtain ⟨ret, reply, hperform, hret⟩ := getDrivername_eq (m := m) hfile (lookUp_beyond hbeyond)
      rw [hperform, unitBd_of_not_isSlot hslot]
      cases hnull : rdata.isNull with
      | true => exact iff_of_true (harmless_error (hret rfl) _ _ _) (.inl ⟨rfl, .inr hbeyond⟩)
      | false =>
          refine iff_of_false (fun h => h.nonNull (by simp)) ?_
          simp
    · have hplace := not_or.mpr ⟨hslot, hbeyond⟩
      obtain ⟨ret, reply, hperform, hret⟩ := getDrivername_eq (m := m) hfile (lookUp_outside hplace).2
      rw [hperform, unitBd_of_not_isSlot hslot]
      refine iff_of_false (not_harmless_index hslot (by simp)) ?_
      rintro (⟨-, hbad⟩ | hbad)
      · exact hplace hbad
      · exact hbad rfl

/-- `get_frag_list` asks whether there is a device. -/
theorem fragListOf_spec (hslot : IsSlot file.pdrv) :
    (∀ i, .index i ∈ (fragListOf m w.driver file rdata).2 → IsSlot i) ∧
      .deref none ∉ (fragListOf m w.driver file rdata).2 ∧
      ((fragListOf m w.driver file rdata).1.1 < 0 ∨ w.driver.unitBd file.pdrv ≠ none) := by
  unfold fragListOf
  rw [lookUp_slot hslot]
  dsimp only
  cases hbd : w.driver.unitBd file.pdrv with
  | none =>
      rw [if_pos (.inl rfl)]
      refine ⟨fun i hi => ?_, by simp, .inl (show -enxio < 0 by decide)⟩
      rw [List.mem_singleton] at hi
      cases hi
      exact hslot
  | some dev =>
      refine ⟨fun i hi => ?_, ?_, .inr (Option.some_ne_none dev)⟩
      · have hi : i = file.pdrv := by
          split at hi
          · simpa using hi
          · simpa using hi
        exact hi ▸ hslot
      · split
        · simp
        · simp

theorem fraglist_noAbsentAccess (hfile : w.privdata fd = some file) (hslot : IsSlot file.pdrv) :
    NoAbsentAccess m w (.ioctl2 fd unit .getFraglist rdata) := by
  unfold NoAbsentAccess
  rw [concerns_file hfile (by decide), perform_ioctl2 hfile]
  obtain ⟨hindex, hderef, hret⟩ := @fragListOf_spec F m w file rdata hslot
  exact ⟨hindex, hderef, hret⟩

theorem checkChain_noAbsentAccess (hfile : w.privdata fd = some file) (hslot : IsSlot file.pdrv) :
    NoAbsentAccess m w (.ioctl2 fd unit .checkChain rdata) := by
  unfold NoAbsentAccess
  rw [concerns_file hfile (by decide), perform_ioctl2 hfile]
  obtain ⟨hindex, hderef, hret⟩ :=
    @fragListOf_spec F m w file { rdata with isNull := true, rdatalen := 0 } hslot
  refine ⟨hindex, hderef, hret.imp_left fun hneg => ?_⟩
  show (if 0 ≤ (fragListOf m w.driver file _).1.1 then _ else _) < 0
  rw [if_neg (Int.not_le.mpr hneg)]
  exact hneg

theorem getDeviceNumber_noAbsentAccess (hfile : w.privdata fd = some file) (hslot : IsSlot file.pdrv) :
    NoAbsentAccess m w (.ioctl2 fd unit .getDeviceNumber rdata) := by
  unfold NoAbsentAccess
  rw [concerns_file hfile (by decide), perform_ioctl2 hfile]
  unfold fsIoctl2
  dsimp only
  rw [lookUp_slot hslot]
  dsimp only
  split
  · exact harmless_error (by decide) _ _ _
  · cases hbd : w.driver.unitBd file.pdrv with
    | none => exact (harmless_index_iff hslot).mpr (.inl (by decide))
    | some dev => exact (harmless_deref_iff hslot id).mpr (Option.some_ne_none dev)

theorem ioctl2_iff (hslot : ∀ file, w.privdata fd = some file → IsSlot file.pdrv) (cmd : Ioctl) :
    NoAbsentAccess m w (.ioctl2 fd unit cmd rdata) ↔ (Request.ioctl2 fd unit cmd rdata).Allowed w := by
  unfold Request.Allowed
  dsimp only
  cases hfile : w.privdata fd with
  | none =>
      refine iff_of_true ?_ trivial
      unfold NoAbsentAccess Request.perform
      dsimp only
      rw [hfile]
      exact harmless_error (by decide) _ _ _
  | some file =>
      cases cmd with
      | rename =>
          refine iff_of_true ?_ trivial
          unfold NoAbsentAccess
          rw [perform_ioctl2 hfile]
          exact harmless_error (by decide) _ _ _
      | getCluster => exact getCluster_iff hfile
      | getLba => exact getLba_iff hfile (hslot file hfile)
      | getDrivername => exact getDrivername_iff hfile
      | checkChain => exact iff_of_true (checkChain_noAbsentAccess hfile (hslot file hfile)) trivial
      | getFraglist => exact iff_of_true (fraglist_noAbsentAccess hfile (hslot file hfile)) trivial
      | getDeviceNumber => exact iff_of_true (getDeviceNumber_noAbsentAccess hfile (hslot file hfile)) trivial
      | other =>
          unfold NoAbsentAccess
          rw [concerns_file hfile (by decide), perform_ioctl2 hfile]
          exact harmless_nil_iff.trans (or_iff_right (by decide))

end Ioctl

section Getstat

variable {m : Media} {w : Service F} {unit : Int} {name : List UInt8} {a : StatAnswers}

theorem isSlot_drive (drive : Fin 10) : IsSlot (drive : Nat) :=
  ⟨Int.natCast_nonneg _, Int.ofNat_lt.mpr drive.isLt⟩

/-- FatFs asks for the device of the drive, and so does `diskio`. -/
theorem fStat_spec (s : Driver) (a : StatAnswers) :
    (∀ i, .index i ∈ (fStat s a).2 → IsSlot i) ∧ .deref none ∉ (fStat s a).2 ∧
      ((fStat s a).1 ≠ frOk ∨ ∃ drive, a.drive = some drive ∧ s.unitBd (drive : Nat) ≠ none) := by
  unfold fStat
  cases hdrive : a.drive with
  | none => exact ⟨by simp, by simp, .inl (show frInvalidDrive ≠ frOk by decide)⟩
  | some drive =>
      dsimp only
      rw [lookUp_slot (isSlot_drive drive)]
      cases a.enabled with
      | false => exact ⟨by simp, by simp, .inl (show frNotEnabled ≠ frOk by decide)⟩
      | true =>
          rw [if_pos rfl]
          cases hbd : s.unitBd (drive : Nat) with
          | none =>
              refine ⟨fun i hi => ?_, by simp, .inl (show frNotReady ≠ frOk by decide)⟩
              simp at hi
              exact hi ▸ isSlot_drive drive
          | some dev =>
              refine ⟨fun i hi => ?_, by simp, .inr ⟨drive, rfl, ?_⟩⟩
              · simp at hi
                exact hi ▸ isSlot_drive drive
              · rw [hbd]
                exact Option.some_ne_none dev

theorem getstat_path (hname : ¬ isRoot name) : NoAbsentAccess m w (.getstat unit name a) := by
  obtain ⟨hindex, hderef, hret⟩ := fStat_spec w.driver a
  unfold NoAbsentAccess Request.perform fsGetstat Request.Concerns
  dsimp only
  simp only [if_neg hname]
  refine ⟨hindex, hderef, ?_⟩
  rcases hret with hbad | ⟨drive, hdrive, hbd⟩
  · left
    have hpos : 0 < (fStat w.driver a).1 := Nat.pos_of_ne_zero hbad
    show (if (fStat w.driver a).1 = frOk then _ else _) < (0 : Int)
    rw [if_neg hbad]
    omega
  · exact .inr ⟨_, ⟨drive, hdrive, rfl⟩, hbd⟩

theorem getstat_root_iff (hname : isRoot name) :
    NoAbsentAccess m w (.getstat unit name a) ↔ (IsSlot unit ∨ ffVolumes < unit) := by
  unfold NoAbsentAccess Request.perform fsGetstat Request.Concerns
  dsimp only
  simp only [if_pos hname]
  by_cases hslot : IsSlot unit
  · rw [lookUp_slot hslot]
    refine iff_of_true ((harmless_index_iff hslot).mpr ?_) (.inl hslot)
    cases hbd : w.driver.unitBd unit with
    | none => exact .inl (show -enxio < 0 by decide)
    | some dev => exact .inr ⟨unit, rfl, hbd ▸ Option.some_ne_none dev⟩
  · by_cases hbeyond : ffVolumes < unit
    · rw [lookUp_beyond hbeyond]
      exact iff_of_true (harmless_error (by decide) _ _ _) (.inr hbeyond)
    · have hplace := not_or.mpr ⟨hslot, hbeyond⟩
      rw [(lookUp_outside hplace).2]
      exact iff_of_false (not_harmless_index hslot (by simp)) hplace

theorem getstat_iff :
    NoAbsentAccess m w (.getstat unit name a) ↔ (Request.getstat unit name a : Request F).Allowed w := by
  show _ ↔ (isRoot name → IsSlot unit ∨ ffVolumes < unit)
  by_cases hname : isRoot name
  · rw [getstat_root_iff hname]
    exact ⟨fun h _ => h, fun h => h hname⟩
  · exact iff_of_true (getstat_path hname) fun h => absurd h hname

end Getstat

section DevctlAccess

variable {m : Media} {w : Service F} {s : Driver} {i unit : Int}

/-- A slot that is stopped is in the table, and the pointer was tested. -/
theorem stopSingle_accesses (h : IsSlot i) :
    (∀ j, .index j ∈ (stopSingle s i).2 → IsSlot j) ∧ .deref none ∉ (stopSingle s i).2 := by
  unfold stopSingle
  rw [lookUp_slot h]
  dsimp only
  cases s.unitBd i with
  | none =>
      refine ⟨fun j hj => ?_, by simp⟩
      simp at hj
      exact hj ▸ h
  | some dev =>
      refine ⟨fun j hj => ?_, by simp⟩
      simp at hj
      exact hj ▸ h

theorem stopEach_accesses {is : List Int} (hslots : ∀ i ∈ is, IsSlot i) (s : Driver) :
    (∀ j, .index j ∈ (stopEach s is).2 → IsSlot j) ∧ .deref none ∉ (stopEach s is).2 := by
  induction is generalizing s with
  | nil => exact ⟨by simp [stopEach], by simp [stopEach]⟩
  | cons i is ih =>
      obtain ⟨hindex, hderef⟩ := stopSingle_accesses (s := s) (hslots i List.mem_cons_self)
      obtain ⟨ihindex, ihderef⟩ := ih (fun j hj => hslots j (List.mem_cons_of_mem i hj)) (stopSingle s i).1
      unfold stopEach
      constructor
      · intro j hj
        rcases List.mem_append.mp hj with hj | hj
        · exact hindex j hj
        · exact ihindex j hj
      · intro hbad
        rcases List.mem_append.mp hbad with hbad | hbad
        · exact hderef hbad
        · exact ihderef hbad

theorem devctl_iff (cmd : Devctl) :
    NoAbsentAccess m w (.devctl unit cmd) ↔ (Request.devctl unit cmd : Request F).Allowed w := by
  cases cmd with
  | stopUnit =>
      obtain ⟨hindex, hderef⟩ := stopEach_accesses (fun _ => mem_mountSlots.mp) w.driver
      constructor
      · rintro ⟨-, -, hret | ⟨i, -, hi⟩⟩
        · exact absurd hret (show ¬ (frOk : Int) < 0 by decide)
        · exact ⟨i, hi⟩
      · rintro ⟨i, hi⟩
        exact ⟨hindex, hderef, .inr ⟨i, .inl rfl, hi⟩⟩
  | stopAll =>
      constructor
      · rintro ⟨-, -, hret | ⟨i, hconcerns, hi⟩⟩
        · exact absurd hret (show ¬ (frOk : Int) < 0 by decide)
        · rcases hconcerns with hbad | rfl
          · cases hbad
          · exact hi
      · intro hunit
        have hslot : IsSlot unit := by
          by_contra hslot
          exact hunit (unitBd_of_not_isSlot hslot)
        obtain ⟨hindex, hderef⟩ := stopSingle_accesses (s := w.driver) hslot
        exact ⟨hindex, hderef, .inr ⟨unit, .inr rfl, hunit⟩⟩
  | other => exact iff_of_true (harmless_error (by decide) _ _ _) trivial

end DevctlAccess

end Requests

/-- A request is safe exactly where the mount table allows it, in every state that a run leads to. -/
theorem no_absent_access_iff {F : Type} [DecidableEq F] {vcdPath : String} {w : Service F}
    (h : (services vcdPath F).Reachable (fun _ _ => True) w) (m : Media) (req : Request F) :
    NoAbsentAccess m w req ↔ req.Allowed w := by
  cases req with
  | ioctl2 fd unit cmd rdata => exact ioctl2_iff (fun _ => pdrv_isSlot h) cmd
  | getstat unit name a => exact getstat_iff
  | devctl unit cmd => exact devctl_iff cmd

/-- Nothing is mounted and no file is open. -/
def Service.idle : Service Unit := ⟨⟨fun _ => none, .unselected⟩, fun _ => none⟩

theorem idle_reachable : (services "" Unit).Reachable (fun _ _ => True) Service.idle :=
  .init ⟨fun i => by unfold Driver.unitBd; split <;> rfl, fun _ => rfl⟩

theorem oneCluster_le : (3 : UInt32).toNat ≤ 0x7FFFFFFF := by decide

/-- Media whose only volume is an exFAT one without clusters to speak of. -/
def oneVolume : Media := ⟨fun _ _ => wideVolume 3 oneCluster_le, fun _ => unreadable, fun _ => 0x00627375⟩

/-- The answers of a volume that qualifies. -/
def qualifying : Answers := ⟨frOk, ⟨frOk, amDir⟩, [⟨frOk, 0⟩]⟩

/-- A partition is mounted as unit 0. -/
def Service.mounted : Service Unit :=
  ⟨⟨Function.update (fun _ => none) 0 (some (.part 0)), .vcdReady⟩, fun _ => none⟩

/-- The partition is gone and a file on it is still open. -/
def Service.orphan : Service Unit :=
  ⟨disconnectBd Service.mounted.driver (some (.part 0)), Function.update (fun _ => none) () (some ⟨0, contiguousFile 1⟩)⟩

theorem orphan_reachable : (services "" Unit).Reachable (fun _ _ => True) Service.orphan := by
  have hconnect : ∃ seen, connectBd "" ⟨some "usb", 0, 1, 7, 512, 63, 0x200000⟩ qualifying Service.idle.driver
      (.part 0) = some (0, Service.mounted.driver, seen) := ⟨_, rfl⟩
  obtain ⟨seen, hseen⟩ := hconnect
  have hmounted : (services "" Unit).Reachable (fun _ _ => True) Service.mounted :=
    idle_reachable.next trivial (.connect hseen)
  have hopen : ServiceStep "" Service.mounted (.opens () ⟨0, contiguousFile 1⟩) _ :=
    .opens (by decide)
  have hgone : ServiceStep "" (⟨Service.mounted.driver, Service.orphan.privdata⟩ : Service Unit)
    (.disconnect (some (.part 0))) Service.orphan := .disconnect
  exact (hmounted.next trivial hopen).next trivial hgone

/-- The root of the unit that is gone, and `GET_LBA` with a buffer that is too short for it. -/
theorem orphan_requests_allowed :
    NoAbsentAccess oneVolume Service.orphan (.getstat 0 [0x2F] ⟨none, true, 0⟩) ∧
      NoAbsentAccess oneVolume Service.orphan (.ioctl2 () 0 .getLba ⟨16, false, 4, fun _ => ⟨0, 0⟩⟩) :=
  ⟨(no_absent_access_iff orphan_reachable oneVolume _).mpr fun _ => .inl (by decide),
    (no_absent_access_iff orphan_reachable oneVolume _).mpr (.inl (.inr (by decide)))⟩

/-- `GET_LBA` follows the null pointer, and unit 10 is looked up behind the table. -/
theorem absent_device_followed :
    (services "" Unit).Reachable (fun _ _ => True) Service.orphan ∧
      ¬ NoAbsentAccess oneVolume Service.orphan (.ioctl2 () 0 .getLba ⟨16, false, 8, fun _ => ⟨0, 0⟩⟩) ∧
      ¬ NoAbsentAccess oneVolume Service.orphan (.getstat 10 [0x2F] ⟨none, true, 0⟩) := by
  refine ⟨orphan_reachable, fun h => ?_, fun h => ?_⟩
  · exact h.nonNull (by decide)
  · exact absurd (h.inBounds 10 (by decide)) (by decide)

end BdmAssault.FatFs
