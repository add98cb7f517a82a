import Mathlib.Data.Fintype.Basic
import BdmAssault.Lib.Ownership
import BdmAssault.FatFs.Select
import BdmAssault.FatFs.Volume

/-! # Open files

`fs_open` and `fs_close` of `bdmfs_fs_driver.c`. A file takes one of the `FIL` structures,
which is free while `obj.fs` is `NULL`, and a file opened for reading gets a link map: the
static table of its slot, or an allocated one where the file has too many fragments. What
FatFs and `malloc` answer is an argument.
-/

namespace BdmAssault.FatFs

open Lib

/-- `cltbl` of a `FIL`: nothing, `fil_clmt[i]`, or a table that was allocated. -/
inductive Cltbl where
  | null
  | static
  | dynamic (table : Nat)
  deriving DecidableEq

/-- A `FIL`: the volume that `obj.fs` points to and the link map. -/
structure Fil where
  fs : Option Nat
  cltbl : Cltbl
  deriving DecidableEq

/-- `MAX_FILES` -/
abbrev maxFiles : Nat := 128

/-- `F` are the `iop_file_t`s. The tables are numbered in the order of their allocation;
`freed` has the arguments of `free`, latest first. -/
structure OpenFiles (F : Type) where
  filStructures : Fin maxFiles → Fil
  filDynamicClmt : Fin maxFiles → Option Nat
  privdata : F → Option (Fin maxFiles)
  allocated : Nat
  freed : List Nat

/-- What the calls in one `fs_open` answer. `required` is what `f_lseek` leaves in the first
item of a static table that is too small. -/
structure OpenAnswers where
  fOpen : Nat
  volume : Nat
  createStatic : Nat
  required : UInt32
  malloc : Bool
  createDynamic : Nat
  fClose : Nat

def clmtMaxItems : UInt32 := 4096

def emfile : Int := 24

/-- The access mode that `fs_open` makes of its flags. -/
def fMode (flags : UInt32) : UInt8 :=
  (if flags &&& 0x0001 ≠ 0 then 0x01 else 0) ||| (if flags &&& 0x0002 ≠ 0 then 0x02 else 0) |||
    (if flags &&& 0x0200 ≠ 0 then 0x10 else 0) ||| (if flags &&& 0x0400 ≠ 0 then 0x08 else 0) |||
    (if flags &&& 0x0100 ≠ 0 then 0x30 else 0)

/-- `(f_mode & FA_READ) && !(f_mode & FA_WRITE)` -/
def readOnly (flags : UInt32) : Bool := fMode flags &&& 0x01 ≠ 0 ∧ fMode flags &&& 0x02 = 0

variable {F : Type}

namespace OpenFiles

def findFreeFilStructure (s : OpenFiles F) : Option (Fin maxFiles) :=
  (List.finRange maxFiles).find? fun i => (s.filStructures i).fs.isNone

def setFil (s : OpenFiles F) (i : Fin maxFiles) (fil : Fil) : OpenFiles F :=
  { s with filStructures := Function.update s.filStructures i fil }

def setCltbl (s : OpenFiles F) (i : Fin maxFiles) (cltbl : Cltbl) : OpenFiles F :=
  s.setFil i { s.filStructures i with cltbl := cltbl }

def setPrivdata [DecidableEq F] (s : OpenFiles F) (fd : F) (slot : Option (Fin maxFiles)) : OpenFiles F :=
  { s with privdata := Function.update s.privdata fd slot }

/-- `f_close` clears `obj.fs` when it succeeds, and only then. -/
def fClose (s : OpenFiles F) (i : Fin maxFiles) (result : Nat) : OpenFiles F :=
  if result = frOk then s.setFil i { s.filStructures i with fs := none } else s

/-- The link map of a file that was just opened, and `map_result`. -/
def createLinkmap (s : OpenFiles F) (i : Fin maxFiles) (a : OpenAnswers) : Nat × OpenFiles F :=
  if a.createStatic = frNotEnoughCore then
    let s := s.setCltbl i .null
    if a.required ≤ clmtMaxItems ∧ a.malloc then
      let table := s.allocated
      let s := { s with allocated := table + 1 }.setCltbl i (.dynamic table)
      if a.createDynamic = frOk then
        (a.createDynamic, { s with filDynamicClmt := Function.update s.filDynamicClmt i (some table) })
      else (a.createDynamic, { s.setCltbl i .null with freed := table :: s.freed })
    else (frNotEnoughCore, s)
  else (a.createStatic, s.setCltbl i .static)

end OpenFiles

def fsOpen [DecidableEq F] (s : OpenFiles F) (fd : F) (flags : UInt32) (a : OpenAnswers) : Int × OpenFiles F :=
  match s.findFreeFilStructure with
  | none => (-emfile, s.setPrivdata fd none)
  | some i =>
      let s := s.setPrivdata fd (some i)
      if a.fOpen ≠ frOk then
        (-a.fOpen, (s.setFil i { s.filStructures i with fs := none }).setPrivdata fd none)
      else
        let s := s.setFil i ⟨some a.volume, .null⟩
        if readOnly flags then
          let (mapResult, s) := s.createLinkmap i a
          if mapResult = frNotEnoughCore then (1, s.setCltbl i .null)
          else if mapResult ≠ frOk then
            (-mapResult, ((s.setCltbl i .null).fClose i a.fClose).setPrivdata fd none)
          else (1, s)
        else (1, s)

/-- `result` is what `f_close` answers, if it is called. -/
def fsClose [DecidableEq F] (s : OpenFiles F) (fd : F) (result : Nat) : Int × OpenFiles F :=
  match s.privdata fd with
  | none => (0, s)
  | some i =>
      let s := s.fClose i result
      let s := match s.filDynamicClmt i with
        | some table =>
            { s.setCltbl i .null with
              freed := table :: s.freed
              filDynamicClmt := Function.update s.filDynamicClmt i none }
        | none => s
      (-result, s.setPrivdata fd none)

/-! ## Runs -/

inductive FileAct (F : Type) where
  | opens (fd : F) (flags : UInt32) (a : OpenAnswers)
  | closes (fd : F) (result : Nat)

def FileAct.perform [DecidableEq F] (s : OpenFiles F) : FileAct F → Int × OpenFiles F
  | .opens fd flags a => fsOpen s fd flags a
  | .closes fd result => fsClose s fd result

/-- The arrays are zero at first. -/
def OpenFiles.initial : OpenFiles F := ⟨fun _ => ⟨none, .null⟩, fun _ => none, fun _ => none, 0, []⟩

def openFiles (F : Type) [DecidableEq F] : System (OpenFiles F) (FileAct F) where
  init s := s = .initial
  step s act s' := s' = (act.perform s).2

theorem run_perform [DecidableEq F] (ok : OpenFiles F → FileAct F → Prop) {acts : List (FileAct F)}
    {s : OpenFiles F} (run : (openFiles F).Run ok acts s) (act : FileAct F) (hok : ok s act) :
    (openFiles F).Run ok (act :: acts) (act.perform s).2 := .step run hok rfl

/-- The map result decides about the open. -/
def OpenAnswers.mapResult (a : OpenAnswers) : Nat :=
  if a.createStatic = frNotEnoughCore then
    if a.required ≤ clmtMaxItems ∧ a.malloc then a.createDynamic else frNotEnoughCore
  else a.createStatic

/-- `fs_open` gives up a file that `f_open` has opened. -/
def OpenFiles.GivesUp (s : OpenFiles F) (flags : UInt32) (a : OpenAnswers) : Prop :=
  s.findFreeFilStructure ≠ none ∧ a.fOpen = frOk ∧ readOnly flags ∧ a.mapResult ≠ frNotEnoughCore ∧
    a.mapResult ≠ frOk

/-- The `iop_file_t` is not open yet, and every `f_close` that is called succeeds. -/
def CleanClose (s : OpenFiles F) : FileAct F → Prop
  | .opens fd flags a => s.privdata fd = none ∧ (s.GivesUp flags a → a.fClose = frOk)
  | .closes fd result => s.privdata fd ≠ none → result = frOk

/-! ## What the calls do -/

namespace OpenFiles

def InUse (s : OpenFiles F) (i : Fin maxFiles) : Prop := (s.filStructures i).fs ≠ none

/-- Only the files in the slots other than `i` are sure to be the same. -/
structure SameBut (i : Fin maxFiles) (s s' : OpenFiles F) : Prop where
  others : ∀ j ≠ i, s'.filStructures j = s.filStructures j
  privdata : s'.privdata = s.privdata

structure SameTables (s s' : OpenFiles F) : Prop where
  allocated : s'.allocated = s.allocated
  freed : s'.freed = s.freed
  dynamic : s'.filDynamicClmt = s.filDynamicClmt

/-- A table has been allocated and freed again. -/
structure TableReturned (s s' : OpenFiles F) : Prop where
  allocated : s'.allocated = s.allocated + 1
  freed : s'.freed = s.allocated :: s.freed
  dynamic : s'.filDynamicClmt = s.filDynamicClmt

/-- A table has been allocated for slot `i`. -/
structure TableKept (i : Fin maxFiles) (s s' : OpenFiles F) : Prop where
  allocated : s'.allocated = s.allocated + 1
  freed : s'.freed = s.freed
  dynamic : s'.filDynamicClmt = Function.update s.filDynamicClmt i (some s.allocated)
  cltbl : (s'.filStructures i).cltbl = .dynamic s.allocated

section Effects

variable {s s' : OpenFiles F} {i : Fin maxFiles} {fd : F}

@[simp] theorem setFil_self (fil : Fil) : (s.setFil i fil).filStructures i = fil := Function.update_self _ _ _

theorem setFil_sameBut (fil : Fil) : SameBut i s (s.setFil i fil) :=
  ⟨fun _ hj => Function.update_of_ne hj _ _, rfl⟩

theorem setFil_sameTables (fil : Fil) : SameTables s (s.setFil i fil) := ⟨rfl, rfl, rfl⟩

theorem SameBut.trans {s'' : OpenFiles F} (h : SameBut i s s') (h' : SameBut i s' s'') : SameBut i s s'' :=
  ⟨fun j hj => (h'.others j hj).trans (h.others j hj), h'.privdata.trans h.privdata⟩

theorem SameTables.trans {s'' : OpenFiles F} (h : SameTables s s') (h' : SameTables s' s'') :
    SameTables s s'' :=
  ⟨h'.allocated.trans h.allocated, h'.freed.trans h.freed, h'.dynamic.trans h.dynamic⟩

theorem fClose_sameTables (result : Nat) : SameTables s (s.fClose i result) := by
  unfold fClose
  split
  · exact setFil_sameTables _
  · exact ⟨rfl, rfl, rfl⟩

theorem findFree_notInUse (h : s.findFreeFilStructure = some i) : ¬ s.InUse i := by
  have hnone := List.find?_some h
  rw [Option.isNone_iff_eq_none] at hnone
  exact not_not_intro hnone

/-- Only the link map of slot `i` changes, and a new table belongs to it or is freed. -/
theorem createLinkmap_spec (s : OpenFiles F) (i : Fin maxFiles) (a : OpenAnswers) :
    (s.createLinkmap i a).1 = a.mapResult ∧ SameBut i s (s.createLinkmap i a).2 ∧
      ((s.createLinkmap i a).2.filStructures i).fs = (s.filStructures i).fs ∧
      (SameTables s (s.createLinkmap i a).2 ∨ (a.mapResult ≠ frOk ∧ TableReturned s (s.createLinkmap i a).2) ∨
        (a.mapResult = frOk ∧ TableKept i s (s.createLinkmap i a).2)) := by
  unfold createLinkmap OpenAnswers.mapResult
  by_cases hstatic : a.createStatic = frNotEnoughCore
  · by_cases halloc : a.required ≤ clmtMaxItems ∧ a.malloc
    · by_cases hdynamic : a.createDynamic = frOk
      · simp only [if_pos hstatic, if_pos halloc, if_pos hdynamic]
        refine ⟨trivial, ?_, ?_, .inr (.inr ⟨hdynamic, ?_⟩)⟩
        · exact ⟨fun j hj => by simp [setCltbl, setFil, hj], rfl⟩
        · simp [setCltbl, setFil]
        · exact ⟨rfl, rfl, rfl, by simp [setCltbl, setFil]⟩
      · simp only [if_pos hstatic, if_pos halloc, if_neg hdynamic]
        refine ⟨trivial, ?_, ?_, .inr (.inl ⟨hdynamic, rfl, rfl, rfl⟩)⟩
        · exact ⟨fun j hj => by simp [setCltbl, setFil, hj], rfl⟩
        · simp [setCltbl, setFil]
    · simp only [if_pos hstatic, if_neg halloc]
      refine ⟨trivial, setFil_sameBut _, ?_, .inl (setFil_sameTables _)⟩
      simp [setCltbl]
  · simp only [if_neg hstatic]
    refine ⟨trivial, setFil_sameBut _, ?_, .inl (setFil_sameTables _)⟩
    simp [setCltbl]

end Effects

end OpenFiles

open OpenFiles

/-- The `iop_file_t` has got slot `i`. -/
structure Opened (fd : F) (i : Fin maxFiles) [DecidableEq F] (s s' : OpenFiles F) : Prop where
  free : ¬ s.InUse i
  taken : s'.InUse i
  others : ∀ j ≠ i, s'.filStructures j = s.filStructures j
  privdata : s'.privdata = Function.update s.privdata fd (some i)
  tables : SameTables s s' ∨ TableReturned s s' ∨ TableKept i s s'

/-- Every file is as before, and free slots are free. -/
structure NotOpened (fd : F) [DecidableEq F] (s s' : OpenFiles F) : Prop where
  inUse : ∀ j, s.InUse j → s'.filStructures j = s.filStructures j
  free : ∀ j, ¬ s.InUse j → ¬ s'.InUse j
  privdata : s'.privdata = Function.update s.privdata fd none
  tables : SameTables s s' ∨ TableReturned s s'

/-- The slot of the `iop_file_t` is free again, and so is its table. -/
structure Closed (fd : F) (i : Fin maxFiles) [DecidableEq F] (s s' : OpenFiles F) : Prop where
  free : ¬ s'.InUse i
  others : ∀ j ≠ i, s'.filStructures j = s.filStructures j
  privdata : s'.privdata = Function.update s.privdata fd none
  allocated : s'.allocated = s.allocated
  freed : s'.freed = (s.filDynamicClmt i).toList ++ s.freed
  dynamic : s'.filDynamicClmt = Function.update s.filDynamicClmt i none

section Calls

variable [DecidableEq F] {s s' : OpenFiles F} {i : Fin maxFiles} {fd : F} {flags : UInt32} {a : OpenAnswers}

/-- A file is given up: its slot is free again. -/
theorem notOpened_of_free (hfree : ¬ s.InUse i) (hothers : ∀ j ≠ i, s'.filStructures j = s.filStructures j)
    (hslot : ¬ s'.InUse i) (hprivdata : s'.privdata = Function.update s.privdata fd none)
    (htables : SameTables s s' ∨ TableReturned s s') : NotOpened fd s s' where
  inUse j hj := hothers j fun hji => hfree (hji ▸ hj)
  free j hj := by
    by_cases hji : j = i
    · exact hji ▸ hslot
    · unfold InUse at hj ⊢
      rwa [hothers j hji]
  privdata := hprivdata
  tables := htables

theorem fsOpen_none (h : s.findFreeFilStructure = none) (fd : F) (flags : UInt32) (a : OpenAnswers) :
    fsOpen s fd flags a = (-emfile, s.setPrivdata fd none) := by
  unfold fsOpen
  rw [h]

theorem fsOpen_refused (h : s.findFreeFilStructure = some i) (hopen : a.fOpen ≠ frOk) (fd : F) (flags : UInt32) :
    fsOpen s fd flags a = (-(a.fOpen : Int), ((s.setPrivdata fd (some i)).setFil i
      { s.filStructures i with fs := none }).setPrivdata fd none) := by
  unfold fsOpen
  rw [h]
  exact if_pos hopen

/-- The state in which `f_open` has opened the file. -/
def OpenFiles.afterOpen (s : OpenFiles F) (fd : F) (i : Fin maxFiles) (a : OpenAnswers) : OpenFiles F :=
  (s.setPrivdata fd (some i)).setFil i ⟨some a.volume, .null⟩

theorem fsOpen_written (h : s.findFreeFilStructure = some i) (hopen : a.fOpen = frOk) (hread : ¬ readOnly flags)
    (fd : F) : fsOpen s fd flags a = (1, s.afterOpen fd i a) := by
  unfold fsOpen
  rw [h]
  dsimp only
  rw [if_neg (not_not_intro hopen), if_neg hread]
  rfl

theorem fsOpen_read (h : s.findFreeFilStructure = some i) (hopen : a.fOpen = frOk) (hread : readOnly flags)
    (fd : F) : fsOpen s fd flags a =
      if a.mapResult = frNotEnoughCore then (1, ((s.afterOpen fd i a).createLinkmap i a).2.setCltbl i .null)
      else if a.mapResult ≠ frOk then
        (-(a.mapResult : Int), ((((s.afterOpen fd i a).createLinkmap i a).2.setCltbl i .null).fClose i
          a.fClose).setPrivdata fd none)
      else (1, ((s.afterOpen fd i a).createLinkmap i a).2) := by
  unfold fsOpen
  rw [h]
  dsimp only
  rw [if_neg (not_not_intro hopen), if_pos hread, ← (createLinkmap_spec (s.afterOpen fd i a) i a).1]
  rfl

theorem opened_of_sameBut (hfree : ¬ s.InUse i) (h : SameBut i (s.afterOpen fd i a) s') (hslot : s'.InUse i)
    (htables : SameTables s s' ∨ TableReturned s s' ∨ TableKept i s s') : Opened fd i s s' where
  free := hfree
  taken := hslot
  others j hj := by
    rw [h.others j hj]
    exact Function.update_of_ne hj _ _
  privdata := h.privdata
  tables := htables

/-- With its link map, the file is open, and the new table is accounted for. -/
theorem createLinkmap_afterOpen (s : OpenFiles F) (fd : F) (i : Fin maxFiles) (a : OpenAnswers) :
    ∃ t, ((s.afterOpen fd i a).createLinkmap i a).2 = t ∧ SameBut i (s.afterOpen fd i a) t ∧ t.InUse i ∧
      (SameTables s t ∨ (a.mapResult ≠ frOk ∧ TableReturned s t) ∨ (a.mapResult = frOk ∧ TableKept i s t)) := by
  obtain ⟨-, hsame, hfs, htables⟩ := createLinkmap_spec (s.afterOpen fd i a) i a
  refine ⟨_, rfl, hsame, ?_, ?_⟩
  · unfold InUse
    rw [hfs]
    simp [afterOpen]
  · rcases htables with h | ⟨hbad, h⟩ | ⟨hok, h⟩
    · exact .inl ⟨h.allocated, h.freed, h.dynamic⟩
    · exact .inr (.inl ⟨hbad, h.allocated, h.freed, h.dynamic⟩)
    · exact .inr (.inr ⟨hok, h.allocated, h.freed, h.dynamic, h.cltbl⟩)

theorem fsOpen_read_cases (hfree : s.findFreeFilStructure = some i) (hopen : a.fOpen = frOk)
    (hread : readOnly flags) (hclose : s.GivesUp flags a → a.fClose = frOk) (fd : F) :
    ((fsOpen s fd flags a).1 = 1 ∧ Opened fd i s (fsOpen s fd flags a).2) ∨
      ((fsOpen s fd flags a).1 < 0 ∧ NotOpened fd s (fsOpen s fd flags a).2) := by
  have hslot := findFree_notInUse hfree
  obtain ⟨t, ht, hsame, hinUse, htables⟩ := createLinkmap_afterOpen s fd i a
  rw [fsOpen_read hfree hopen hread, ht]
  by_cases hcore : a.mapResult = frNotEnoughCore
  · -- the file stays open without a link map
    have hbad : a.mapResult ≠ frOk := hcore ▸ by decide
    rw [if_pos hcore]
    refine .inl ⟨rfl, opened_of_sameBut hslot (hsame.trans (setFil_sameBut _)) ?_ ?_⟩
    · unfold InUse at hinUse ⊢
      simpa [setCltbl] using hinUse
    · rcases htables with h | ⟨-, h⟩ | ⟨hok, -⟩
      · exact .inl (h.trans (setFil_sameTables _))
      · exact .inr (.inl ⟨h.allocated, h.freed, h.dynamic⟩)
      · exact absurd hok hbad
  · rw [if_neg hcore]
    by_cases hok : a.mapResult = frOk
    · rw [if_neg (not_not_intro hok)]
      refine .inl ⟨rfl, opened_of_sameBut hslot hsame hinUse ?_⟩
      rcases htables with h | ⟨hbad, -⟩ | ⟨-, h⟩
      · exact .inl h
      · exact absurd hok hbad
      · exact .inr (.inr h)
    · -- the file is closed again
      have hclosed := hclose ⟨by rw [hfree]; exact Option.some_ne_none i, hopen, hread, hcore, hok⟩
      have hpos : 0 < a.mapResult := Nat.pos_of_ne_zero hok
      rw [if_pos hok, hclosed]
      refine .inr ⟨?_, notOpened_of_free hslot ?_ ?_ ?_ ?_⟩
      · show -(a.mapResult : Int) < 0
        omega
      · intro j hj
        have hothers := hsame.others j hj
        simpa [setPrivdata, fClose, setCltbl, setFil, afterOpen, hj] using hothers
      · simp [InUse, setPrivdata, fClose, setFil]
      · simp [setPrivdata, fClose, setCltbl, setFil, hsame.privdata, afterOpen]
      · rcases htables with h | ⟨-, h⟩ | ⟨hbad, -⟩
        · exact .inl ⟨h.allocated, h.freed, h.dynamic⟩
        · exact .inr ⟨h.allocated, h.freed, h.dynamic⟩
        · exact absurd hbad hok

/-- Either a slot is taken, or nothing but a table came and went. -/
theorem fsOpen_cases (hclose : s.GivesUp flags a → a.fClose = frOk) (fd : F) :
    (∃ i, (fsOpen s fd flags a).1 = 1 ∧ Opened fd i s (fsOpen s fd flags a).2) ∨
      ((fsOpen s fd flags a).1 < 0 ∧ NotOpened fd s (fsOpen s fd flags a).2) := by
  cases hfree : s.findFreeFilStructure with
  | none =>
      rw [fsOpen_none hfree]
      exact .inr ⟨show -emfile < 0 by decide, fun _ _ => rfl, fun _ hj => hj, rfl, .inl ⟨rfl, rfl, rfl⟩⟩
  | some i =>
      have hslot := findFree_notInUse hfree
      by_cases hopen : a.fOpen = frOk
      · by_cases hread : readOnly flags
        · rcases fsOpen_read_cases hfree hopen hread hclose fd with h | h
          · exact .inl ⟨i, h⟩
          · exact .inr h
        · rw [fsOpen_written hfree hopen hread]
          refine .inl ⟨i, rfl, opened_of_sameBut hslot ⟨fun _ _ => rfl, rfl⟩ ?_ (.inl ⟨rfl, rfl, rfl⟩)⟩
          simp [InUse, afterOpen]
      · rw [fsOpen_refused hfree hopen]
        have hpos : 0 < a.fOpen := Nat.pos_of_ne_zero hopen
        refine .inr ⟨?_, notOpened_of_free hslot ?_ ?_ ?_ (.inl ⟨rfl, rfl, rfl⟩)⟩
        · show -(a.fOpen : Int) < 0
          omega
        · exact fun j hj => Function.update_of_ne hj _ _
        · simp [InUse, setPrivdata, setFil]
        · simp [setPrivdata, setFil]

theorem fsClose_none (h : s.privdata fd = none) (result : Nat) : fsClose s fd result = (0, s) := by
  unfold fsClose
  rw [h]

theorem fsClose_closed (h : s.privdata fd = some i) : Closed fd i s (fsClose s fd frOk).2 := by
  unfold fsClose
  rw [h]
  dsimp only
  have hdynamic : (s.fClose i frOk).filDynamicClmt = s.filDynamicClmt := (fClose_sameTables frOk).dynamic
  cases htable : s.filDynamicClmt i with
  | none =>
      rw [hdynamic, htable]
      refine ⟨?_, fun j hj => ?_, ?_, rfl, ?_, ?_⟩
      · simp [InUse, setPrivdata, fClose]
      · simp [setPrivdata, fClose, setFil, hj]
      · simp [setPrivdata, fClose, setFil]
      · simp [setPrivdata, fClose, setFil, htable]
      · exact (Function.update_eq_self_iff.mpr htable.symm).symm
  | some table =>
      rw [hdynamic, htable]
      refine ⟨?_, fun j hj => ?_, ?_, rfl, ?_, rfl⟩
      · simp [InUse, setPrivdata, fClose, setCltbl, setFil]
      · simp [setPrivdata, fClose, setCltbl, setFil, hj]
      · simp [setPrivdata, fClose, setCltbl, setFil]
      · simp [setPrivdata, fClose, setCltbl, setFil, htable]

end Calls

/-! ## The invariant -/

/-- A table has been freed, or it is the link map of a slot. -/
def OpenFiles.TableAt (s : OpenFiles F) (table : Nat) : Option (Fin maxFiles) → Prop
  | none => table ∈ s.freed
  | some i => s.filDynamicClmt i = some table

structure Owned (s : OpenFiles F) : Prop where
  slots : Partitioned s.InUse fun i fd => s.privdata fd = some i
  tables : Partitioned (· < s.allocated) s.TableAt
  freedOnce : s.freed.Nodup
  mapped : ∀ i table, s.filDynamicClmt i = some table →
    s.InUse i ∧ (s.filStructures i).cltbl = .dynamic table

section Owned

variable {s s' : OpenFiles F} {i : Fin maxFiles} {fd : F}

theorem owned_initial : Owned (.initial : OpenFiles F) where
  slots := by
    refine ⟨fun i fd h => ?_, fun i h => absurd rfl h, fun i fd fd' h => ?_⟩
    · cases h
    · cases h
  tables := by
    refine ⟨fun t p h => ?_, fun t h => absurd h (Nat.not_lt_zero t), fun t p q h => ?_⟩
    · cases p with
      | none => cases h
      | some i => cases h
    · cases p with
      | none => cases h
      | some i => cases h
  freedOnce := List.nodup_nil
  mapped i table h := by cases h

theorem Owned.unmapped (h : Owned s) (hfree : ¬ s.InUse i) : s.filDynamicClmt i = none := by
  cases htable : s.filDynamicClmt i with
  | none => rfl
  | some table => exact absurd (h.mapped i table htable).1 hfree

theorem Owned.freed_lt (h : Owned s) {table : Nat} (ht : table ∈ s.freed) : table < s.allocated :=
  h.tables.within table none ht

theorem Owned.sameTables (h : Owned s) (hs : SameTables s s') :
    Partitioned (· < s'.allocated) s'.TableAt ∧ s'.freed.Nodup := by
  have hat : s'.TableAt = s.TableAt := by
    funext table p
    cases p with
    | none => simp only [TableAt, hs.freed]
    | some j => simp only [TableAt, hs.dynamic]
  rw [hat, hs.allocated, hs.freed]
  exact ⟨h.tables, h.freedOnce⟩

theorem Owned.tableReturned (h : Owned s) (hs : TableReturned s s') :
    Partitioned (· < s'.allocated) s'.TableAt ∧ s'.freed.Nodup := by
  constructor
  · refine h.tables.insert s.allocated none (Nat.lt_irrefl _) (fun t => ?_) fun t p => ?_
    · rw [hs.allocated]
      omega
    · cases p with
      | none => simp only [TableAt, hs.freed, List.mem_cons, and_true, or_comm]
      | some j => simp [TableAt, hs.dynamic]
  · rw [hs.freed]
    exact List.nodup_cons.mpr ⟨fun hmem => Nat.lt_irrefl _ (h.freed_lt hmem), h.freedOnce⟩

theorem Owned.tableKept (h : Owned s) (hfree : ¬ s.InUse i) (hs : TableKept i s s') :
    Partitioned (· < s'.allocated) s'.TableAt ∧ s'.freed.Nodup := by
  constructor
  · refine h.tables.insert s.allocated (some i) (Nat.lt_irrefl _) (fun t => ?_) fun t p => ?_
    · rw [hs.allocated]
      omega
    · cases p with
      | none => simp [TableAt, hs.freed]
      | some j =>
          simp only [TableAt, hs.dynamic]
          by_cases hj : j = i
          · subst hj
            simp [h.unmapped hfree, eq_comm]
          · simp [hj]
  · rw [hs.freed]
    exact h.freedOnce

/-- A slot without changes keeps its table. -/
theorem mapped_of_same {table : Nat} (h : Owned s) (hfil : s'.filStructures i = s.filStructures i)
    (htable : s.filDynamicClmt i = some table) :
    s'.InUse i ∧ (s'.filStructures i).cltbl = .dynamic table := by
  unfold InUse
  rw [hfil]
  exact h.mapped i table htable

variable [DecidableEq F]

theorem Owned.opened (h : Owned s) (hclosed : s.privdata fd = none) (ho : Opened fd i s s') : Owned s' := by
  have htables : Partitioned (· < s'.allocated) s'.TableAt ∧ s'.freed.Nodup := by
    rcases ho.tables with hs | hs | hs
    · exact h.sameTables hs
    · exact h.tableReturned hs
    · exact h.tableKept ho.free hs
  refine ⟨?_, htables.1, htables.2, ?_⟩
  · refine h.slots.insert i fd ho.free (fun j => ?_) fun j fd' => ?_
    · by_cases hj : j = i
      · subst hj
        simp [ho.taken]
      · simp [InUse, ho.others j hj, hj]
    · rw [ho.privdata]
      by_cases hfd : fd' = fd
      · subst hfd
        simp [hclosed, eq_comm]
      · simp [hfd]
  · intro j table hj
    by_cases hji : j = i
    · subst hji
      rcases ho.tables with hs | hs | hs
      · rw [hs.dynamic, h.unmapped ho.free] at hj
        cases hj
      · rw [hs.dynamic, h.unmapped ho.free] at hj
        cases hj
      · rw [hs.dynamic, Function.update_self] at hj
        cases hj
        exact ⟨ho.taken, hs.cltbl⟩
    · have hbefore : s.filDynamicClmt j = some table := by
        rcases ho.tables with hs | hs | hs
        · rwa [hs.dynamic] at hj
        · rwa [hs.dynamic] at hj
        · rwa [hs.dynamic, Function.update_of_ne hji] at hj
      exact mapped_of_same h (ho.others j hji) hbefore

theorem NotOpened.inUse_iff (hn : NotOpened fd s s') (j : Fin maxFiles) : s'.InUse j ↔ s.InUse j := by
  by_cases hj : s.InUse j
  · simp only [hj, iff_true]
    unfold InUse at hj ⊢
    rwa [hn.inUse j hj]
  · simp only [hj, iff_false]
    exact hn.free j hj

theorem Owned.notOpened (h : Owned s) (hclosed : s.privdata fd = none) (hn : NotOpened fd s s') : Owned s' := by
  have htables : Partitioned (· < s'.allocated) s'.TableAt ∧ s'.freed.Nodup := by
    rcases hn.tables with hs | hs
    · exact h.sameTables hs
    · exact h.tableReturned hs
  have hdynamic : s'.filDynamicClmt = s.filDynamicClmt := by
    rcases hn.tables with hs | hs
    · exact hs.dynamic
    · exact hs.dynamic
  have hprivdata : s'.privdata = s.privdata := by
    rw [hn.privdata]
    exact Function.update_eq_self_iff.mpr hclosed.symm
  refine ⟨?_, htables.1, htables.2, ?_⟩
  · rw [hprivdata, show s'.InUse = s.InUse from funext fun j => propext (hn.inUse_iff j)]
    exact h.slots
  · intro j table hj
    rw [hdynamic] at hj
    exact mapped_of_same h (hn.inUse j (h.mapped j table hj).1) hj

theorem Owned.closed (h : Owned s) (hopen : s.privdata fd = some i) (hc : Closed fd i s s') : Owned s' := by
  refine ⟨?_, ?_, ?_, ?_⟩
  · refine h.slots.remove i (fun j => ?_) fun j fd' => ?_
    · by_cases hj : j = i
      · subst hj
        simp [hc.free]
      · simp [InUse, hc.others j hj, hj]
    · rw [hc.privdata]
      by_cases hfd : fd' = fd
      · subst hfd
        simp only [Function.update_self, hopen, Option.some_inj]
        constructor
        · intro hbad
          cases hbad
        · rintro ⟨hji, hne⟩
          exact absurd hji.symm hne
      · rw [Function.update_of_ne hfd]
        exact ⟨fun hj => ⟨hj, fun hji => hfd (h.slots.once i fd' fd (hji ▸ hj) hopen)⟩, And.left⟩
  · rw [hc.allocated]
    refine h.tables.move (fun t => s.filDynamicClmt i = some t) (some i) none (fun t ht => ht)
      (fun t => ?_) (fun t => ?_) fun t p hsrc hdest => ?_
    · simp [TableAt, hc.dynamic]
    · simp only [TableAt, hc.freed, List.mem_append, Option.mem_toList, or_comm]
    · cases p with
      | none => exact absurd rfl hdest
      | some j => simp only [TableAt, hc.dynamic, Function.update_of_ne fun hji => hsrc (congrArg some hji)]
  · rw [hc.freed]
    cases htable : s.filDynamicClmt i with
    | none => exact h.freedOnce
    | some table =>
        refine List.nodup_cons.mpr ⟨?_, h.freedOnce⟩
        exact h.tables.not_held (show s.TableAt table (some i) from htable) (Option.some_ne_none i)
  · intro j table hj
    rw [hc.dynamic] at hj
    by_cases hji : j = i
    · subst hji
      rw [Function.update_self] at hj
      cases hj
    · rw [Function.update_of_ne hji] at hj
      exact mapped_of_same h (hc.others j hji) hj

theorem owned_step {act : FileAct F} (h : Owned s) (hclean : CleanClose s act) : Owned (act.perform s).2 := by
  cases act with
  | opens fd flags a =>
      obtain ⟨hclosed, hclose⟩ := hclean
      rcases fsOpen_cases hclose fd with ⟨i, -, ho⟩ | ⟨-, hn⟩
      · exact h.opened hclosed ho
      · exact h.notOpened hclosed hn
  | closes fd result =>
      cases hopen : s.privdata fd with
      | none =>
          show Owned (fsClose s fd result).2
          rw [fsClose_none hopen]
          exact h
      | some i =>
          have hok : result = frOk := hclean (by rw [hopen]; exact Option.some_ne_none i)
          rw [hok]
          exact h.closed hopen (fsClose_closed hopen)

theorem owned_reachable (h : (openFiles F).Reachable CleanClose s) : Owned s := by
  refine System.Invariant.holds ⟨fun s hs => ?_, fun s act s' _ hs hclean hstep => ?_⟩ h
  · rw [show s = .initial from hs]
    exact owned_initial
  · rw [show s' = _ from hstep]
    exact owned_step hs hclean

end Owned

/-! ## Who owns what -/

/-- Slots, link maps and tables in one state, and a failed open from it. -/
structure Ownership [DecidableEq F] (s : OpenFiles F) : Prop where
  inUse : ∀ i, s.InUse i ↔ ∃! fd, s.privdata fd = some i
  mapped : ∀ i table, s.filDynamicClmt i = some table →
    s.InUse i ∧ (s.filStructures i).cltbl = .dynamic table
  /-- Nothing else is ever freed. -/
  allocated : ∀ table ∈ s.freed, table < s.allocated
  /-- A table is freed once, or is still the link map of one slot. -/
  freedOnce : ∀ table < s.allocated,
    (s.freed.count table = 1 ∧ ∀ i, s.filDynamicClmt i ≠ some table) ∨
      (s.freed.count table = 0 ∧ ∃! i, s.filDynamicClmt i = some table)
  allFreed : (∀ fd, s.privdata fd = none) → ∀ table < s.allocated, s.freed.count table = 1
  failedOpen : ∀ fd flags a, CleanClose s (.opens fd flags a) → (fsOpen s fd flags a).1 < 0 →
    (fsOpen s fd flags a).2.privdata fd = none ∧ ∀ i, (fsOpen s fd flags a).2.InUse i ↔ s.InUse i

section Ownership

variable {s : OpenFiles F}

theorem Owned.inUse_iff (h : Owned s) (i : Fin maxFiles) : s.InUse i ↔ ∃! fd, s.privdata fd = some i :=
  ⟨h.slots.existsUnique, fun hex => h.slots.within i _ hex.choose_spec.1⟩

theorem Owned.freed_or_held (h : Owned s) {table : Nat} (ht : table < s.allocated) :
    (s.freed.count table = 1 ∧ ∀ i, s.filDynamicClmt i ≠ some table) ∨
      (s.freed.count table = 0 ∧ ∃! i, s.filDynamicClmt i = some table) := by
  obtain ⟨p, hp⟩ := h.tables.somewhere table ht
  cases p with
  | none =>
      refine .inl ⟨List.count_eq_one_of_mem h.freedOnce hp, fun i hi => ?_⟩
      exact h.tables.not_held hp (Option.some_ne_none i).symm hi
  | some i =>
      refine .inr ⟨List.count_eq_zero.mpr (h.tables.not_held hp (Option.some_ne_none i)), i, hp, ?_⟩
      intro j hj
      exact Option.some_inj.mp (h.tables.once table (some j) (some i) hj hp)

theorem Owned.allFreed (h : Owned s) (hclosed : ∀ fd, s.privdata fd = none) {table : Nat}
    (ht : table < s.allocated) : s.freed.count table = 1 := by
  rcases h.freed_or_held ht with ⟨hfreed, -⟩ | ⟨-, i, hi, -⟩
  · exact hfreed
  · obtain ⟨fd, hfd⟩ := h.slots.somewhere i (h.mapped i table hi).1
    rw [hclosed fd] at hfd
    cases hfd

variable [DecidableEq F]

theorem fsOpen_failed {fd : F} {flags : UInt32} {a : OpenAnswers} (hclean : CleanClose s (.opens fd flags a))
    (hfailed : (fsOpen s fd flags a).1 < 0) :
    (fsOpen s fd flags a).2.privdata fd = none ∧ ∀ i, (fsOpen s fd flags a).2.InUse i ↔ s.InUse i := by
  rcases fsOpen_cases hclean.2 fd with ⟨i, hone, -⟩ | ⟨-, hn⟩
  · rw [hone] at hfailed
    exact absurd hfailed (by decide)
  · exact ⟨by rw [hn.privdata, Function.update_self], hn.inUse_iff⟩

/-- As long as every `f_close` succeeds, nothing is lost. -/
theorem ownership_of_clean_closes {acts : List (FileAct F)} (run : (openFiles F).Run CleanClose acts s) :
    Ownership s := by
  have h := owned_reachable ⟨acts, run⟩
  exact ⟨h.inUse_iff, h.mapped, fun _ => h.freed_lt, fun _ => h.freed_or_held, h.allFreed,
    fun _ _ _ => fsOpen_failed⟩

end Ownership

/-- A fragmented file: the static table is too small, the allocated one is enough. -/
def fragmentedFile : OpenAnswers := ⟨frOk, 0, frNotEnoughCore, 10, true, frOk, frOk⟩

theorem ownership_of_two_files :
    Ownership (fsClose (fsOpen (fsOpen (.initial : OpenFiles Bool) false 1 fragmentedFile).2 true 1
      fragmentedFile).2 false frOk).2 := by
  have hfirst := run_perform CleanClose (.start rfl) (.opens false 1 fragmentedFile) ⟨rfl, fun _ => rfl⟩
  have hsecond := run_perform CleanClose hfirst (.opens true 1 fragmentedFile) ⟨by decide, fun _ => rfl⟩
  exact ownership_of_clean_closes (run_perform CleanClose hsecond (.closes false frOk) fun _ => rfl)

/-- The volume is gone when the file is closed. The slot stays taken, and
no `iop_file_t` has it. -/
theorem slot_lost :
    (openFiles Bool).Reachable (fun _ _ => True)
        (fsClose (fsOpen (.initial : OpenFiles Bool) false 1 fragmentedFile).2 false frInvalidObject).2 ∧
      ¬ Ownership (fsClose (fsOpen (.initial : OpenFiles Bool) false 1 fragmentedFile).2 false frInvalidObject).2 := by
  constructor
  · have hfirst := run_perform (fun _ _ => True) (.start rfl) (.opens false 1 fragmentedFile) trivial
    exact ⟨_, run_perform _ hfirst (.closes false frInvalidObject) trivial⟩
  · intro h
    have hslot : (fsClose (fsOpen (.initial : OpenFiles Bool) false 1 fragmentedFile).2 false frInvalidObject).2.InUse 0 := by
      unfold InUse
      decide
    obtain ⟨fd, hfd, -⟩ := (h.inUse 0).mp hslot
    revert hfd
    cases fd with
    | false => decide
    | true => decide

end BdmAssault.FatFs
