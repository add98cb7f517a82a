import BdmAssault.FatFs.Table

/-! # Allocation of clusters

`create_chain` and `remove_chain` of `bdmfs_ff.c` with what they use on exFAT: the bitmap of
used clusters, and the fragments of a file that are not yet in the table.
-/

namespace BdmAssault.FatFs

/-- What changes in `FATFS` when clusters are taken and given back. -/
structure Alloc (σ : Type) where
  win : Win σ
  lastClst : UInt32
  freeClst : UInt32
  fsiFlag : UInt8

section Model

variable {σ : Type} (bd : DeviceOps σ (Nat → UInt8)) (fs : MountedFs)

/-! ## The bitmap of exFAT -/

/-- The variables of `find_bitmap`; `load` is set where its outer loop begins. -/
structure BitScan where
  val : UInt32
  scl : UInt32
  ctr : UInt32
  i : UInt32
  bm : UInt8
  load : Bool

/-- One bit of the scan: `inl` is what `find_bitmap` returns. -/
def findBit (clst ncl : UInt32) (win : Nat → UInt8) (s : BitScan) : UInt32 ⊕ BitScan :=
  let bv := win s.i.toNat &&& s.bm
  let s := { s with bm := s.bm <<< 1, val := s.val + 1 }
  let s := if fs.nFatent - 2 ≤ s.val then { s with val := 0, bm := 0, i := fs.ssize.toUInt32 } else s
  let free := bv = 0
  let s := if free then { s with ctr := s.ctr + 1 } else { s with scl := s.val, ctr := 0 }
  if free ∧ s.ctr = ncl then .inl (s.scl + 2)
  else if s.val = clst then .inl 0
  else if s.bm ≠ 0 then .inr s
  else .inr { s with bm := 1, i := s.i + 1, load := fs.ssize.toUInt32 ≤ s.i + 1 }

/-- The loops of `find_bitmap`; `none` if they have not come to an end. -/
def findBits (clst ncl : UInt32) : Nat → BitScan → Win σ → Option (UInt32 × Win σ)
  | 0, _, _ => none
  | fuel + 1, s, w =>
      let (res, w) := if s.load then moveWindow bd fs (fs.bitbase + (s.val / 8 / fs.ssize.toUInt32).toUInt64) w
        else (frOk, w)
      if res ≠ frOk then some (0xFFFFFFFF, w)
      else
        let s := if s.load then
            { s with i := s.val / 8 % fs.ssize.toUInt32, bm := (1 : UInt8) <<< (s.val % 8).toUInt8, load := false }
          else s
        match findBit fs clst ncl w.win s with
        | .inl ret => some (ret, w)
        | .inr s => findBits clst ncl fuel s w

def findBitmap (clst ncl : UInt32) (w : Win σ) : Option (UInt32 × Win σ) :=
  let clst := clst - 2
  let clst := if fs.nFatent - 2 ≤ clst then 0 else clst
  findBits bd fs clst ncl fs.nFatent.toNat ⟨clst, clst, 0, 0, 0, true⟩ w

/-- The loops of `change_bitmap`: `ncl` bits are left. -/
def changeBits (bv : Bool) : Nat → UInt64 → UInt32 → UInt8 → Bool → Win σ → Nat × Win σ
  | 0, _, _, _, _, w => (frOk, w)
  | ncl + 1, sect, i, bm, load, w =>
      let (res, w) := if load then moveWindow bd fs sect w else (frOk, w)
      if res ≠ frOk then (frDiskErr, w)
      else if bv = decide (w.win i.toNat &&& bm ≠ 0) then (frIntErr, w)
      else
        let w := { w with win := Function.update w.win i.toNat (w.win i.toNat ^^^ bm), wflag := true }
        let sect := if load then sect + 1 else sect
        if bm <<< 1 ≠ 0 then changeBits bv ncl sect i (bm <<< 1) false w
        else if i + 1 < fs.ssize.toUInt32 then changeBits bv ncl sect (i + 1) 1 false w
        else changeBits bv ncl sect 0 1 true w

/-- `change_bitmap`; its callers ask for one bit at least. -/
def changeBitmap (clst ncl : UInt32) (bv : Bool) (w : Win σ) : Nat × Win σ :=
  let clst := clst - 2
  changeBits bd fs bv ncl.toNat (fs.bitbase + (clst / 8 / fs.ssize.toUInt32).toUInt64) (clst / 8 % fs.ssize.toUInt32)
    ((1 : UInt8) <<< (clst % 8).toUInt8) true w

/-! ## Fragments of exFAT -/

/-- `fill_last_frag`: `n` is `obj->n_frag`. -/
def fillLast (lcl term : UInt32) : Nat → Win σ → Nat × Nat × Win σ
  | 0, w => (frOk, 0, w)
  | n + 1, w =>
      let n' : UInt32 := .ofNat (n + 1)
      let (res, w) := putFat bd fs (lcl - n' + 1) (if 1 < n' then lcl - n' + 2 else term) w
      if res ≠ frOk then (res, n + 1, w) else fillLast lcl term n w

def fillLastFrag (obj : ObjId) (lcl term : UInt32) (w : Win σ) : Nat × ObjId × Win σ :=
  let (res, n, w) := fillLast bd fs lcl term obj.nFrag.toNat w
  (res, { obj with nFrag := .ofNat n }, w)

/-! ## Giving clusters back -/

/-- The variables of the loop of `remove_chain`. -/
structure Removal where
  clst : UInt32
  scl : UInt32
  ecl : UInt32

/-- The end of the cluster block, and the bitmap of exFAT with it. -/
def removeBlock (r : Removal) (nxt : UInt32) (w : Win σ) : Nat × Removal × Win σ :=
  if r.ecl + 1 = nxt then (frOk, { r with clst := nxt, ecl := nxt }, w)
  else
    let (res, w) := if fs.fsType = .exfat then changeBitmap bd fs r.scl (r.ecl - r.scl + 1) false w else (frOk, w)
    (res, ⟨nxt, nxt, nxt⟩, w)

def Alloc.freed (a : Alloc σ) : Alloc σ :=
  if a.freeClst < fs.nFatent - 2 then { a with freeClst := a.freeClst + 1, fsiFlag := a.fsiFlag ||| 1 } else a

/-- The loop of `remove_chain`; `none` if it has not come to an end. -/
def removeLoop (obj : ObjId) : Nat → Removal → Alloc σ → Option (Nat × Alloc σ)
  | 0, _, _ => none
  | fuel + 1, r, a =>
      let (nxt, w) := getFatWin bd fs obj r.clst a.win
      let a := { a with win := w }
      if nxt = 0 then some (frOk, a)
      else if nxt = 1 then some (frIntErr, a)
      else if nxt = 0xFFFFFFFF then some (frDiskErr, a)
      else
        let (res, w) := if fs.fsType ≠ .exfat then putFat bd fs r.clst 0 a.win else (frOk, a.win)
        let a := { a with win := w }
        if res ≠ frOk then some (res, a)
        else
          let a := a.freed fs
          let (res, r, w) := removeBlock bd fs r nxt a.win
          let a := { a with win := w }
          if res ≠ frOk then some (res, a)
          else if r.clst < fs.nFatent then removeLoop obj fuel r a
          else some (frOk, a)

/-- A file that is contiguous from its first cluster to `pclst`: the loop, with `n` clusters to
go at most. -/
def followContiguous (obj : ObjId) (pclst : UInt32) : Nat → UInt32 → Win σ → Option (Nat × UInt32 × Win σ)
  | 0, _, _ => none
  | fuel + 1, clst, w =>
      if clst ≠ pclst then
        let (nxt, w) := getFatWin bd fs obj clst w
        if nxt < 2 then some (frIntErr, clst, w)
        else if nxt = 0xFFFFFFFF then some (frDiskErr, clst, w)
        else if nxt ≠ clst + 1 then some (frOk, clst, w)
        else followContiguous obj pclst fuel (clst + 1) w
      else some (frOk, clst, w)

/-- The post processes of `remove_chain` on exFAT. -/
def removeStatus (obj : ObjId) (pclst : UInt32) (w : Win σ) : Option (Nat × ObjId × Win σ) :=
  if pclst = 0 then some (frOk, { obj with stat := 0 }, w)
  else if obj.stat = 0 then
    (followContiguous bd fs obj pclst fs.nFatent.toNat obj.sclust w).map fun (res, clst, w) =>
      if res ≠ frOk then (res, obj, w)
      else (frOk, if clst = pclst then { obj with stat := 2 } else obj, w)
  else if obj.stat = 3 ∧ obj.sclust ≤ pclst ∧ pclst ≤ obj.sclust + obj.nCont then
    some (frOk, { obj with stat := 2 }, w)
  else some (frOk, obj, w)

def removeChain (obj : ObjId) (clst pclst : UInt32) (a : Alloc σ) : Option (Nat × ObjId × Alloc σ) :=
  if clst < 2 ∨ fs.nFatent ≤ clst then some (frIntErr, obj, a)
  else
    let (res, w) := if pclst ≠ 0 ∧ (fs.fsType ≠ .exfat ∨ obj.stat ≠ 2) then putFat bd fs pclst 0xFFFFFFFF a.win
      else (frOk, a.win)
    let a := { a with win := w }
    if res ≠ frOk then some (res, obj, a)
    else
      match removeLoop bd fs obj fs.nFatent.toNat ⟨clst, clst, clst⟩ a with
      | none => none
      | some (res, a) =>
          if res ≠ frOk then some (res, obj, a)
          else if fs.fsType = .exfat then
            (removeStatus bd fs obj pclst a.win).map fun (res, obj, w) => (res, obj, { a with win := w })
          else some (frOk, obj, a)

/-! ## Taking clusters -/

/-- The search of FAT volumes behind `scl`: `inl` is what `create_chain` returns, `inr` a free
cluster. -/
def findFree (obj : ObjId) (scl : UInt32) : Nat → UInt32 → Win σ → Option ((UInt32 ⊕ UInt32) × Win σ)
  | 0, _, _ => none
  | fuel + 1, ncl, w =>
      let ncl := ncl + 1
      let wrapped := fs.nFatent ≤ ncl
      let ncl := if wrapped then 2 else ncl
      if wrapped ∧ scl < ncl then some (.inl 0, w)
      else
        let (cs, w) := getFatWin bd fs obj ncl w
        if cs = 0 then some (.inr ncl, w)
        else if cs = 1 ∨ cs = 0xFFFFFFFF then some (.inl cs, w)
        else if ncl = scl then some (.inl 0, w)
        else findFree obj scl fuel ncl w

/-- The cluster behind `clst`, if it is free, or any other. -/
def findNext (obj : ObjId) (clst scl lastClst : UInt32) (w : Win σ) : Option ((UInt32 ⊕ UInt32) × Win σ) :=
  if scl = clst then
    let ncl := if fs.nFatent ≤ scl + 1 then 2 else scl + 1
    let (cs, w) := getFatWin bd fs obj ncl w
    if cs = 1 ∨ cs = 0xFFFFFFFF then some (.inl cs, w)
    else if cs ≠ 0 then
      let scl := if 2 ≤ lastClst ∧ lastClst < fs.nFatent then lastClst else scl
      findFree bd fs obj scl fs.nFatent.toNat scl w
    else some (.inr ncl, w)
  else findFree bd fs obj scl fs.nFatent.toNat scl w

/-- Marks the new cluster of a FAT volume, and links it. -/
def linkCluster (clst ncl : UInt32) (w : Win σ) : Nat × Win σ :=
  let (res, w) := putFat bd fs ncl 0xFFFFFFFF w
  if res = frOk ∧ clst ≠ 0 then putFat bd fs clst ncl w else (res, w)

/-- The state of an exFAT file that has got the cluster `ncl`. -/
def stretchExfat (obj : ObjId) (clst scl ncl : UInt32) (w : Win σ) : Nat × ObjId × Win σ :=
  let obj :=
    if clst = 0 then { obj with stat := 2 }
    else if obj.stat = 2 ∧ ncl ≠ scl + 1 then { obj with nCont := scl - obj.sclust, stat := 3 }
    else obj
  if obj.stat ≠ 2 then
    if ncl = clst + 1 then (frOk, { obj with nFrag := if obj.nFrag ≠ 0 then obj.nFrag + 1 else 2 }, w)
    else
      let obj := if obj.nFrag = 0 then { obj with nFrag := 1 } else obj
      let (res, obj, w) := fillLastFrag bd fs obj clst ncl w
      (res, if res = frOk then { obj with nFrag := 1 } else obj, w)
  else (frOk, obj, w)

/-- The end of `create_chain`. -/
def Alloc.taken (a : Alloc σ) (res : Nat) (ncl : UInt32) : UInt32 × Alloc σ :=
  if res = frOk then
    (ncl, { a with
      lastClst := ncl
      freeClst := if a.freeClst ≤ fs.nFatent - 2 then a.freeClst - 1 else a.freeClst
      fsiFlag := a.fsiFlag ||| 1 })
  else (if res = frDiskErr then 0xFFFFFFFF else 1, a)

def createExfat (obj : ObjId) (clst scl : UInt32) (a : Alloc σ) : Option (UInt32 × ObjId × Alloc σ) :=
  match findBitmap bd fs scl 1 a.win with
  | none => none
  | some (ncl, w) =>
      let a := { a with win := w }
      if ncl = 0 ∨ ncl = 0xFFFFFFFF then some (ncl, obj, a)
      else
        let (res, w) := changeBitmap bd fs ncl 1 true a.win
        let a := { a with win := w }
        if res = frIntErr then some (1, obj, a)
        else if res = frDiskErr then some (0xFFFFFFFF, obj, a)
        else
          let (res, obj, w) := stretchExfat bd fs obj clst scl ncl a.win
          let (ret, a) := Alloc.taken fs { a with win := w } res ncl
          some (ret, obj, a)

def createFat (obj : ObjId) (clst scl : UInt32) (a : Alloc σ) : Option (UInt32 × ObjId × Alloc σ) :=
  match findNext bd fs obj clst scl a.lastClst a.win with
  | none => none
  | some (.inl ret, w) => some (ret, obj, { a with win := w })
  | some (.inr ncl, w) =>
      let (res, w) := linkCluster bd fs clst ncl w
      let (ret, a) := Alloc.taken fs { a with win := w } res ncl
      some (ret, obj, a)

/-- A cluster for the place behind `clst`, once it is known where the search begins. -/
def createFrom (obj : ObjId) (clst scl : UInt32) (a : Alloc σ) : Option (UInt32 × ObjId × Alloc σ) :=
  if a.freeClst = 0 then some (0, obj, a)
  else if fs.fsType = .exfat then createExfat bd fs obj clst scl a
  else createFat bd fs obj clst scl a

def createChain (obj : ObjId) (clst : UInt32) (a : Alloc σ) : Option (UInt32 × ObjId × Alloc σ) :=
  if clst = 0 then
    let scl := a.lastClst
    createFrom bd fs obj clst (if scl = 0 ∨ fs.nFatent ≤ scl then 1 else scl) a
  else
    let (cs, w) := getFatWin bd fs obj clst a.win
    let a := { a with win := w }
    if cs < 2 then some (1, obj, a)
    else if cs = 0xFFFFFFFF then some (cs, obj, a)
    else if cs < fs.nFatent then some (cs, obj, a)
    else createFrom bd fs obj clst clst a

end Model

end BdmAssault.FatFs
