import BdmAssault.FatFs.ChainRuns
import BdmAssault.FatFs.FileData

/-! # The clusters of open files

A file that is open has its size, its position and its first cluster in `FIL`, and its
clusters in the table. Here both are put together, for files of FAT volumes.
-/

namespace BdmAssault.FatFs

open Lib

/-- Cluster `k` of a file, from the first one on. -/
def clusterAt (l : List Nat) (k : Nat) : UInt32 := .ofNat (l[k]?.getD 0)

/-- A file in which `l` are the clusters. The link map, if there is one, is looked at behind the
first cluster only. -/
structure Tracks (fs : MountedFs) (l : List Nat) (fp : FileObject) : Prop where
  sclust : fp.obj.sclust = clusterAt l 0
  room : fp.obj.objsize.toNat ≤ l.length * clusterBytes fs
  small : fp.obj.objsize.toNat < 4294967296
  inside : fp.fptr.toNat ≤ fp.obj.objsize.toNat
  position : Positioned fs (clusterAt l) fp
  map : ∀ tbl, fp.cltbl = some tbl → ∀ k, 0 < k → k < 4294967296 → clmtWalk tbl.tail (.ofNat k) = clusterAt l k

section Clusters

variable {σ ι : Type} {contents : σ → UInt64 → Nat → UInt8} {fs : MountedFs} {l r : List Nat} {fp : FileObject}
  {k : Nat}

theorem clusterAt_append (hk : k < l.length) : clusterAt (l ++ r) k = clusterAt l k := by
  unfold clusterAt
  rw [List.getElem?_append_left hk]

/-- A file of one cluster has no other, like one that has none. -/
theorem clusterAt_single (d : Nat) (hk : 0 < k) : clusterAt [d] k = clusterAt [] k := by
  cases k with
  | zero => exact absurd hk (Nat.lt_irrefl 0)
  | succ k => rfl

theorem clusterAt_length (l : List Nat) (d : UInt32) : clusterAt (l ++ [d.toNat]) l.length = d := by
  unfold clusterAt
  rw [List.getElem?_append_right (Nat.le_refl _), Nat.sub_self]
  exact UInt32.ofNat_toNat

/-- The clusters of a file are clusters of the volume, and different ones. -/
structure Clusters (fs : MountedFs) (l : List Nat) : Prop where
  range : ∀ d ∈ l, 2 ≤ d ∧ d < fs.nFatent.toNat
  nodup : l.Nodup

theorem Clusters.toNat (h : Clusters fs l) (hk : k < l.length) : (clusterAt l k).toNat = l[k] := by
  have hlt := (h.range l[k] (List.getElem_mem hk)).2
  have hlimit := fs.nFatent_lt
  unfold clusterAt
  rw [List.getElem?_eq_getElem hk, UInt32.toNat_ofNat']
  exact Nat.mod_eq_of_lt (by show l[k] < 4294967296; omega)

theorem Clusters.inRange (h : Clusters fs l) (hk : k < l.length) : fs.InRange (clusterAt l k) := by
  refine Fatfs.inRange_iff.mpr ?_
  rw [h.toNat hk]
  exact h.range _ (List.getElem_mem hk)

theorem Clusters.inj (h : Clusters fs l) {j : Nat} (hj : j < l.length) (hk : k < l.length)
    (heq : clusterAt l j = clusterAt l k) : j = k := by
  have hnat := congrArg UInt32.toNat heq
  rw [h.toNat hj, h.toNat hk] at hnat
  exact (List.Nodup.getElem_inj_iff h.nodup).mp hnat

theorem Clusters.length_le (h : Clusters fs l) : l.length ≤ fs.nFatent.toNat :=
  Nat.le_trans (length_le_of_nodup id Function.injective_id h.nodup h.range) (Nat.sub_le _ _)

theorem owned_clusters {w : Win σ} {files : ι → List Nat} (h : (chainTable contents fs w).Owned files) (i : ι) :
    Clusters fs (files i) := by
  refine ⟨fun d hd => owned_range h hd, ?_⟩
  by_cases hnil : files i = []
  · rw [hnil]
    exact List.nodup_nil
  · exact (h.chain i hnil).nodup

theorem Sound.clusters {s : Disk σ ι} (h : Sound contents fs s) (i : ι) : Clusters fs (s.files i) :=
  owned_clusters h.owned i

theorem Sound.few {s : Disk σ ι} (h : Sound contents fs s) (i : ι) : (s.files i).length < 4294967296 := by
  have hle := (h.clusters i).length_le
  have hlimit := fs.nFatent_lt
  omega

/-- What `get_fat` says of the clusters of a file. -/
theorem Sound.getFat_next (hexfat : fs.fsType ≠ .exfat) {s : Disk σ ι} (h : Sound contents fs s) {i : ι} (obj : ObjId)
    (hk : k + 1 < (s.files i).length) :
    getFat fs.toFatfs (fun a => some (view contents s.alloc.win a)) obj (clusterAt (s.files i) k) =
      clusterAt (s.files i) (k + 1) := by
  have hclusters := h.clusters i
  have hin : k < (s.files i).length := by omega
  have hlink := (h.owned.chain i (List.ne_nil_of_length_pos (by omega))).link_getElem hk
  have hobj : Chained fs obj := fun hfs => absurd hfs hexfat
  have hread := @getFat_cell _ contents _ _ hobj _ (hclusters.inRange hin) s.alloc.win
  rw [hclusters.toNat hin, hlink] at hread
  refine UInt32.toNat_inj.mp ?_
  rw [hclusters.toNat hk]
  exact hread.of_link

theorem Sound.follows (hexfat : fs.fsType ≠ .exfat) {s : Disk σ ι} (h : Sound contents fs s) {i : ι}
    (htracks : Tracks fs (s.files i) fp)
    (hfirst : ∀ tbl, fp.cltbl = some tbl → clmtWalk tbl.tail 0 = fp.obj.sclust) :
    Follows contents fs s.alloc.win fp.obj fp.cltbl (clusterAt (s.files i)) (s.files i).length where
  range _ hk := (h.clusters i).inRange hk
  first _ := htracks.sclust.symm
  next _ _ hk := h.getFat_next hexfat fp.obj hk
  map tbl htbl k hk := by
    by_cases hzero : k = 0
    · rw [hzero, ← htracks.sclust]
      exact hfirst tbl htbl
    · exact htracks.map tbl htbl k (Nat.pos_of_ne_zero hzero) (Nat.lt_trans hk (h.few i))
  room := htracks.room
  few := h.few i

/-! ## The sectors of a file -/

/-- Sector `q` of a file. -/
def sectorAt (fs : MountedFs) (l : List Nat) (q : Nat) : UInt64 :=
  dataSector fs (clusterAt l (q / fs.csize.toNat)) (q % fs.csize.toNat)

theorem fileByte_eq (w : Win σ) (l : List Nat) (k : Nat) : fileByte contents fs w (clusterAt l) k =
    view contents w (sectorAt fs l (k / fs.ssize.toNat)) (k % fs.ssize.toNat) := by
  unfold fileByte sectorAt
  rw [div_clusterBytes]

theorem div_csize_lt {q n : Nat} (hq : q < n * fs.csize.toNat) : q / fs.csize.toNat < n :=
  Nat.div_lt_of_lt_mul (by rwa [Nat.mul_comm])

theorem div_ssize_lt {n : Nat} (hk : k < n * clusterBytes fs) : k / fs.ssize.toNat < n * fs.csize.toNat := by
  refine Nat.div_lt_of_lt_mul ?_
  unfold clusterBytes at hk
  rwa [Nat.mul_comm, Nat.mul_assoc]

section Sectors

variable (hclusters : Clusters fs l) {q : Nat}

include hclusters

theorem Clusters.sector_outside (hlaid : Laid fs) (hq : q < l.length * fs.csize.toNat) :
    sectorAt fs l q ≠ noSector ∧ ¬ fs.inMirror (sectorAt fs l q) :=
  hlaid.dataSector_outside (hclusters.inRange (div_csize_lt hq)) (Nat.mod_lt _ fs.csize_pos)

theorem Clusters.sector_table (hlaid : Laid fs) (hexfat : fs.fsType ≠ .exfat) (hq : q < l.length * fs.csize.toNat)
    {i : Nat} (hi : i < fs.fsType.tableSize fs.nFatent.toNat) : sectorAt fs l q ≠ tableSector fs i :=
  hlaid.dataSector_table hexfat (hclusters.inRange (div_csize_lt hq)) (Nat.mod_lt _ fs.csize_pos) hi

theorem Clusters.sector_inj (hlaid : Laid fs) {p : Nat} (hp : p < l.length * fs.csize.toNat)
    (hq : q < l.length * fs.csize.toNat) (heq : sectorAt fs l p = sectorAt fs l q) : p = q := by
  obtain ⟨hclst, hmod⟩ := hlaid.dataSector_inj (hclusters.inRange (div_csize_lt hp))
    (hclusters.inRange (div_csize_lt hq)) (Nat.mod_lt _ fs.csize_pos) (Nat.mod_lt _ fs.csize_pos) heq
  have hdiv := hclusters.inj (div_csize_lt hp) (div_csize_lt hq) hclst
  rw [← Nat.div_add_mod p fs.csize.toNat, hdiv, hmod, Nat.div_add_mod]

/-- Two files have no sector in common. -/
theorem Clusters.sector_apart (hlaid : Laid fs) (hr : Clusters fs r) (hapart : ∀ d ∈ l, d ∉ r) {p : Nat}
    (hq : q < l.length * fs.csize.toNat) (hp : p < r.length * fs.csize.toNat) : sectorAt fs l q ≠ sectorAt fs r p := by
  intro heq
  obtain ⟨hclst, -⟩ := hlaid.dataSector_inj (hclusters.inRange (div_csize_lt hq)) (hr.inRange (div_csize_lt hp))
    (Nat.mod_lt _ fs.csize_pos) (Nat.mod_lt _ fs.csize_pos) heq
  have hnat := congrArg UInt32.toNat hclst
  rw [hclusters.toNat (div_csize_lt hq), hr.toNat (div_csize_lt hp)] at hnat
  refine hapart _ (List.getElem_mem (div_csize_lt hq)) ?_
  rw [hnat]
  exact List.getElem_mem _

end Sectors

/-! ## Bytes that a file gets -/

/-- The `count` bytes `src` are in the file from `ofs` on. Its other bytes, `size` in all, are as
before, and so is what is not the file's. -/
structure Stored (contents : σ → UInt64 → Nat → UInt8) (fs : MountedFs) (l : List Nat) (w w' : Win σ)
    (ofs count : Nat) (src : Nat → UInt8) (size : Nat) : Prop where
  inside : ∀ i < count, fileByte contents fs w' (clusterAt l) (ofs + i) = src i
  beyond : ∀ k < size, k < ofs ∨ ofs + count ≤ k →
    fileByte contents fs w' (clusterAt l) k = fileByte contents fs w (clusterAt l) k
  outside : ∀ a, ¬ fs.inMirror a → (∀ q < l.length * fs.csize.toNat, a ≠ sectorAt fs l q) →
    view contents w' a = view contents w a

/-- A file gets bytes when `m` of its sectors get them. -/
theorem stored_of_sectors (hlaid : Laid fs) (hclusters : Clusters fs l) {w w' : Win σ} {ofs count size q₀ m : Nat}
    {src : Nat → UInt8} (hsize : size ≤ l.length * clusterBytes fs) (hend : q₀ + m ≤ l.length * fs.csize.toNat)
    (hlow : q₀ * fs.ssize.toNat ≤ ofs) (hhigh : ofs + count ≤ (q₀ + m) * fs.ssize.toNat)
    (hothers : ∀ a, ¬ fs.inMirror a → (∀ q, q₀ ≤ q → q < q₀ + m → a ≠ sectorAt fs l q) →
      view contents w' a = view contents w a)
    (hbytes : ∀ q, q₀ ≤ q → q < q₀ + m → ∀ k < fs.ssize.toNat, ofs ≤ q * fs.ssize.toNat + k →
      q * fs.ssize.toNat + k < ofs + count →
        view contents w' (sectorAt fs l q) k = src (q * fs.ssize.toNat + k - ofs))
    (hrest : ∀ q, q₀ ≤ q → q < q₀ + m → ∀ k < fs.ssize.toNat, q * fs.ssize.toNat + k < size →
      q * fs.ssize.toNat + k < ofs ∨ ofs + count ≤ q * fs.ssize.toNat + k →
        view contents w' (sectorAt fs l q) k = view contents w (sectorAt fs l q) k) :
    Stored contents fs l w w' ofs count src size := by
  have hss := fs.ssize_pos
  have hsplit : ∀ k, k / fs.ssize.toNat * fs.ssize.toNat + k % fs.ssize.toNat = k := fun k => Nat.div_add_mod' k _
  refine ⟨fun i hi => ?_, fun k hk hout => ?_, fun a ha hnone => ?_⟩
  · have hq : q₀ ≤ (ofs + i) / fs.ssize.toNat := (Nat.le_div_iff_mul_le hss).mpr (by omega)
    have hq' : (ofs + i) / fs.ssize.toNat < q₀ + m := (Nat.div_lt_iff_lt_mul hss).mpr (by omega)
    rw [fileByte_eq, hbytes _ hq hq' _ (Nat.mod_lt _ hss) (by rw [hsplit]; omega) (by rw [hsplit]; omega), hsplit,
      Nat.add_sub_cancel_left]
  · rw [fileByte_eq, fileByte_eq]
    by_cases hin : q₀ ≤ k / fs.ssize.toNat ∧ k / fs.ssize.toNat < q₀ + m
    · exact hrest _ hin.1 hin.2 _ (Nat.mod_lt _ hss) (by rwa [hsplit]) (by rwa [hsplit])
    · have hsector := div_ssize_lt (Nat.lt_of_lt_of_le hk hsize)
      refine congrFun (hothers _ (hclusters.sector_outside hlaid hsector).2 fun q hq hq' heq => hin ?_) _
      rw [hclusters.sector_inj hlaid hsector (by omega) heq]
      exact ⟨hq, hq'⟩
  · exact hothers a ha fun q _ hq => hnone q (by omega)

theorem sectorAt_append {q : Nat} (hq : q < l.length * fs.csize.toNat) : sectorAt fs (l ++ r) q = sectorAt fs l q := by
  unfold sectorAt
  rw [clusterAt_append (div_csize_lt hq)]

theorem fileByte_append (w : Win σ) (hk : k < l.length * clusterBytes fs) :
    fileByte contents fs w (clusterAt (l ++ r)) k = fileByte contents fs w (clusterAt l) k := by
  rw [fileByte_eq, fileByte_eq, sectorAt_append (div_ssize_lt hk)]

end Clusters

end BdmAssault.FatFs
