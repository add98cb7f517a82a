import BdmAssault.FatFs.ChainSteps
import BdmAssault.FatFs.TableRuns

/-! # Runs of `create_chain` and `remove_chain`

Files of a FAT volume take clusters and give them back in any order, while the window is
used for other sectors too and accesses of the device fail. The files never share a cluster.
-/

namespace BdmAssault.FatFs

open Lib

/-- What is done with the clusters of the file `i`, and with the window otherwise. -/
inductive ChainCall (ι : Type) where
  | create (i : ι) (obj : ObjId) (clst : UInt32)
  | remove (i : ι) (obj : ObjId) (clst pclst : UInt32)
  | window (c : TableCall)

/-- A volume, and the clusters of its files in order. -/
structure Disk (σ ι : Type) where
  alloc : Alloc σ
  files : ι → List Nat

/-- The clusters `l` of a file after `create_chain` for `clst` has returned `ret`. -/
def stretched (n : Nat) (l : List Nat) (clst ret : UInt32) : List Nat :=
  if (2 ≤ ret.toNat ∧ ret.toNat < n) ∧ (clst = 0 ∨ l.getLast? = some clst.toNat) then l ++ [ret.toNat] else l

/-- The clusters of a file after `remove_chain`: those up to `pclst`, if that is the last one now. -/
def shortened (T : ChainTable Nat) (l : List Nat) (pclst : UInt32) : List Nat :=
  if pclst = 0 then []
  else if T pclst.toNat = .last then l.takeWhile (· ≠ pclst.toNat) ++ [pclst.toNat] else l

section Runs

variable {σ ι : Type} [DecidableEq ι] (bd : DeviceOps σ (Nat → UInt8)) (contents : σ → UInt64 → Nat → UInt8)
  (fs : MountedFs)

def performChain (a : Alloc σ) : ChainCall ι → Option (UInt32 × Alloc σ)
  | .create _ obj clst => (createChain bd fs obj clst a).map fun (ret, _, a) => (ret, a)
  | .remove _ obj clst pclst => (removeChain bd fs obj clst pclst a).map fun (res, _, a) => (.ofNat res, a)
  | .window c => let (ret, w) := performTable bd fs a.win c; some (ret, { a with win := w })

def filesAfter (files : ι → List Nat) (T : ChainTable Nat) (ret : UInt32) : ChainCall ι → ι → List Nat
  | .create i _ clst => Function.update files i (stretched fs.nFatent.toNat (files i) clst ret)
  | .remove i _ _ pclst => Function.update files i (shortened T (files i) pclst)
  | .window _ => files

/-- Runs from `s₀`. -/
def chainCalls (s₀ : Disk σ ι) : System (Disk σ ι) (ChainCall ι × UInt32) where
  init s := s = s₀
  step s c s' := performChain bd fs s.alloc c.1 = some (c.2, s'.alloc) ∧
    s'.files = filesAfter fs s.files (chainTable contents fs s'.alloc.win) c.2 c.1

/-- A file asks for a cluster behind one of its own or for its first one, and gives back all that
follow one of its own or all that it has. -/
def ChainCall.Allowed (s : Disk σ ι) : ChainCall ι → Prop
  | .create i _ clst => clst = 0 ∧ s.files i = [] ∨ clst.toNat ∈ s.files i
  | .remove i _ clst pclst => ∃ front back, s.files i = front ++ clst.toNat :: back ∧
      if pclst = 0 then front = [] else front.getLast? = some pclst.toNat
  | .window c => c.Proper fs ∧ ∀ clst val, c ≠ .put clst val

/-- What holds between calls. -/
structure Sound (s : Disk σ ι) : Prop where
  coherent : Coherent contents fs s.alloc.win
  owned : ChainTable.Owned (chainTable contents fs s.alloc.win) s.files

/-- `free_clst` is not less than the number of free clusters. -/
def Disk.Counted (s : Disk σ ι) : Prop := FatFs.Counted fs (chainTable contents fs s.alloc.win) s.alloc.freeClst

end Runs

section Steps

variable {σ ι : Type} [DecidableEq ι] {bd : DeviceOps σ (Nat → UInt8)} {contents : σ → UInt64 → Nat → UInt8}
  {fs : MountedFs} {s₀ s s' : Disk σ ι}

theorem chainTable_range {w : Win σ} {d : Nat} (h : chainTable contents fs w d ≠ .other) :
    2 ≤ d ∧ d < fs.nFatent.toNat := by
  unfold chainTable at h
  split at h
  · assumption
  · exact absurd rfl h

/-- No chain goes through 0, which stands for no cluster. -/
theorem chainTable_nil {w : Win σ} {c : Nat} : chainTable contents fs w (0 : UInt32).toNat ≠ .link c := by
  intro hlink
  exact absurd (chainTable_range (by rw [hlink]; exact nofun)).1 (by decide)

omit [DecidableEq ι] in
theorem owned_range {w : Win σ} {files : ι → List Nat} (h : (chainTable contents fs w).Owned files) {i : ι} {d : Nat}
    (hd : d ∈ files i) : 2 ≤ d ∧ d < fs.nFatent.toNat := by
  have hchain := h.chain i (List.ne_nil_of_mem hd)
  obtain ⟨front, back, hsplit⟩ := List.append_of_mem hd
  rw [hsplit] at hchain
  have htail := hchain.tail
  have hused : chainTable contents fs w d ≠ .other := by
    intro hother
    cases back with
    | nil =>
        have hlast : chainTable contents fs w d = .last := htail
        rw [hother] at hlast
        cases hlast
    | cons b back =>
        have hlink := htail.1
        rw [hother] at hlink
        cases hlink
  exact chainTable_range hused

omit [DecidableEq ι] in
theorem Sound.range (h : Sound contents fs s) {i : ι} {d : Nat} (hd : d ∈ s.files i) :
    2 ≤ d ∧ d < fs.nFatent.toNat := owned_range h.owned hd

/-! ## Taking -/

omit [DecidableEq ι] in
theorem Sound.of_same (h : Sound contents fs s) {a : Alloc σ} (hcoherent : Coherent contents fs a.win)
    (hT : chainTable contents fs a.win = chainTable contents fs s.alloc.win) : Sound contents fs ⟨a, s.files⟩ := by
  refine ⟨hcoherent, ?_⟩
  dsimp only
  rw [hT]
  exact h.owned

theorem linked_counted {T : ChainTable Nat} {clst ncl freeClst : UInt32}
    (hrange : 2 ≤ ncl.toNat ∧ ncl.toNat < fs.nFatent.toNat) (hncl : T ncl.toNat = .free)
    (hlast : clst = 0 ∨ T clst.toNat = .last) (hpos : freeClst ≠ 0) (h : Counted fs T freeClst) :
    Counted fs (linked T clst ncl) (if freeClst.toNat + 2 ≤ fs.nFatent.toNat then freeClst - 1 else freeClst) := by
  unfold Counted at h ⊢
  have htake : ChainTable.freeCount (Function.update T ncl.toNat .last) (clusterRange fs) + 1 =
      ChainTable.freeCount T (clusterRange fs) :=
    ChainTable.freeCount_take (Finset.mem_Ico.mpr hrange) hncl fun h => by cases h
  have hlinked : ChainTable.freeCount (linked T clst ncl) (clusterRange fs) =
      ChainTable.freeCount (Function.update T ncl.toNat .last) (clusterRange fs) := by
    unfold linked
    split
    · rfl
    · rename_i hclst
      refine ChainTable.freeCount_update ?_ fun h => by cases h
      have hne : clst.toNat ≠ ncl.toNat := by
        intro heq
        have hcell := hlast.resolve_left hclst
        rw [heq, hncl] at hcell
        cases hcell
      rw [Function.update_of_ne hne, hlast.resolve_left hclst]
      exact fun h => by cases h
  have hle := freeCount_range fs T
  rw [hlinked]
  split
  · have hone : (freeClst - 1).toNat = freeClst.toNat - 1 := by
      refine UInt32.toNat_sub_of_le _ _ (UInt32.le_iff_toNat_le.mpr ?_)
      exact Nat.one_le_iff_ne_zero.mpr fun heq => hpos (UInt32.toNat_inj.mp heq)
    rw [hone]
    omega
  · omega

/-- The count of free clusters while a cluster is taken, or not. -/
theorem Created.counted {T T' : ChainTable Nat} {clst freeClst freeClst' ret : UInt32}
    (hcreated : Created T fs.nFatent.toNat clst freeClst T' freeClst' ret)
    (hrange : ∀ d, T d = .free → 2 ≤ d ∧ d < fs.nFatent.toNat) (h : Counted fs T freeClst) : Counted fs T' freeClst' := by
  cases hcreated with
  | followed _ _ hT hfree => rwa [hT, hfree]
  | full _ _ hT hfree => rwa [hT, hfree]
  | taken hlast hncl hT hpos hfree =>
      rw [hT, hfree]
      exact linked_counted (hrange _ hncl) hncl hlast hpos h
  | failed _ hT hfree =>
      rw [hfree]
      rcases hT with rfl | ⟨ncl, hncl, rfl⟩
      · exact h
      · have htake := ChainTable.freeCount_take (s := clusterRange fs) (c := .last)
          (Finset.mem_Ico.mpr (hrange _ hncl)) hncl fun h => by cases h
        unfold Counted at h ⊢
        omega

/-- With a count that is not too small, the answer 0 is right. -/
theorem Created.full_of_zero {T T' : ChainTable Nat} {clst freeClst freeClst' : UInt32}
    (hcreated : Created T fs.nFatent.toNat clst freeClst T' freeClst' 0)
    (hrange : ∀ d, T d = .free → 2 ≤ d ∧ d < fs.nFatent.toNat) (h : Counted fs T freeClst) (d : Nat) (hd : 2 ≤ d)
    (hd' : d < fs.nFatent.toNat) : T d ≠ .free := by
  generalize hret : (0 : UInt32) = ret at hcreated
  cases hcreated with
  | followed _ hlink _ _ =>
      rw [← hret] at hlink
      exact absurd hlink.1 (by decide)
  | full _ hfull _ _ =>
      intro hfree
      rcases hfull with hzero | hnone
      · have hpos := ChainTable.freeCount_pos (s := clusterRange fs) (Finset.mem_Ico.mpr ⟨hd, hd'⟩) hfree
        unfold Counted at h
        rw [hzero] at h
        exact absurd (Nat.lt_of_lt_of_le hpos h) (Nat.lt_irrefl 0)
      · exact hnone d hd hd' hfree
  | taken _ hncl _ _ _ =>
      rw [← hret] at hncl
      exact absurd (hrange _ hncl).1 (by decide)
  | failed hor _ _ =>
      rw [← hret] at hor
      exact absurd hor (by decide)

/-! ### Where the chain of a file ends -/

theorem stretched_out {l : List Nat} {n : Nat} {clst ret : UInt32} (hret : ¬ (2 ≤ ret.toNat ∧ ret.toNat < n)) :
    stretched n l clst ret = l := if_neg fun hor => hret hor.1

omit [DecidableEq ι] in
/-- Behind a cluster that is not the last one nothing is put. -/
theorem Sound.stretched_linked (h : Sound contents fs s) {i : ι} {clst ret : UInt32} {d n : Nat}
    (hlink : chainTable contents fs s.alloc.win clst.toNat = .link d) :
    stretched n (s.files i) clst ret = s.files i := by
  refine if_neg fun hor => ?_
  rcases hor.2 with rfl | hlast
  · exact absurd hlink chainTable_nil
  · obtain ⟨front, hfront⟩ := List.getLast?_eq_some_iff.mp hlast
    have hchain := h.owned.chain i (by rw [hfront]; exact fun h => by cases (List.append_eq_nil_iff.mp h).2)
    rw [hfront] at hchain
    rw [hchain.last_of_append] at hlink
    cases hlink

theorem errors_out (fs : MountedFs) {ret : UInt32} (hret : ret = 1 ∨ ret = 0xFFFFFFFF) :
    ¬ (2 ≤ ret.toNat ∧ ret.toNat < fs.nFatent.toNat) := by
  rintro ⟨hlow, hhigh⟩
  have hlimit := fs.nFatent_lt
  rcases hret with rfl | rfl
  · exact absurd hlow (by decide)
  · rw [show (0xFFFFFFFF : UInt32).toNat = 4294967295 from rfl] at hhigh
    omega

omit [DecidableEq ι] in
/-- The end of a file, where a cluster is put. -/
theorem Sound.stretched_last (h : Sound contents fs s) {i : ι} {obj : ObjId} {clst ret : UInt32}
    (hallowed : ChainCall.Allowed fs s (.create i obj clst)) (hret : 2 ≤ ret.toNat ∧ ret.toNat < fs.nFatent.toNat)
    (hlast : clst = 0 ∨ chainTable contents fs s.alloc.win clst.toNat = .last) :
    stretched fs.nFatent.toNat (s.files i) clst ret = s.files i ++ [ret.toNat] ∧
      (clst ≠ 0 → ∃ front, s.files i = front ++ [clst.toNat]) ∧ (clst = 0 → s.files i = []) := by
  rcases hallowed with ⟨hzero, hnil⟩ | hmem
  · exact ⟨if_pos ⟨hret, .inl hzero⟩, fun hne => absurd hzero hne, fun _ => hnil⟩
  · have hclst : clst ≠ 0 := by
      rintro rfl
      exact absurd (h.range hmem).1 (by decide)
    obtain ⟨front, hfront⟩ :=
      (h.owned.chain i (List.ne_nil_of_mem hmem)).eq_append hmem (hlast.resolve_left hclst)
    have hend : (s.files i).getLast? = some clst.toNat := List.getLast?_eq_some_iff.mpr ⟨front, hfront⟩
    exact ⟨if_pos ⟨hret, .inr hend⟩, fun _ => ⟨front, hfront⟩, fun hzero => absurd hzero hclst⟩

/-- A file that gets a cluster, or not. -/
theorem created_sound (h : Sound contents fs s) {i : ι} {obj : ObjId} {clst ret : UInt32}
    (hallowed : ChainCall.Allowed fs s (.create i obj clst)) {a' : Alloc σ} (hcoherent : Coherent contents fs a'.win)
    (hcreated : Created (chainTable contents fs s.alloc.win) fs.nFatent.toNat clst s.alloc.freeClst
      (chainTable contents fs a'.win) a'.freeClst ret) :
    Sound contents fs ⟨a', Function.update s.files i (stretched fs.nFatent.toNat (s.files i) clst ret)⟩ := by
  have hkeep : Function.update s.files i (s.files i) = s.files := Function.update_eq_self i s.files
  cases hcreated with
  | followed hlink hrange hT hfree =>
      rw [h.stretched_linked hlink, hkeep]
      exact h.of_same hcoherent hT
  | full _ _ hT hfree =>
      rw [stretched_out fun hor => absurd hor.1 (by decide), hkeep]
      exact h.of_same hcoherent hT
  | taken hlast hncl hT hpos hfree =>
      obtain ⟨hput, hbehind, hfirst⟩ := h.stretched_last hallowed (chainTable_free hncl) hlast
      refine ⟨hcoherent, ?_⟩
      dsimp only
      rw [hT, hput]
      unfold linked
      by_cases hclst : clst = 0
      · rw [if_pos hclst, hfirst hclst]
        exact h.owned.create hncl
      · obtain ⟨front, hfront⟩ := hbehind hclst
        rw [if_neg hclst]
        have hstretch := h.owned.stretch hfront hncl
        rwa [show front ++ [clst.toNat, ret.toNat] = s.files i ++ [ret.toNat] by
          rw [hfront, List.append_assoc]; rfl] at hstretch
  | failed hret hT hfree =>
      rw [stretched_out (errors_out fs hret), hkeep]
      rcases hT with hT | ⟨ncl, hncl, hT⟩
      · exact h.of_same hcoherent hT
      · refine ⟨hcoherent, ?_⟩
        dsimp only
        rw [hT]
        exact h.owned.update (fun j => h.owned.not_mem hncl j) .last

theorem create_sound (hbd : HasSectors bd contents) (hplaced : fs.Placed) (hwhole : Unbroken bd fs)
    (hexfat : fs.fsType ≠ .exfat) (hsize : 3 ≤ fs.nFatent.toNat) (h : Sound contents fs s) {i : ι} {obj : ObjId}
    {clst : UInt32} (hallowed : ChainCall.Allowed fs s (.create i obj clst)) :
    ∃ ret a', performChain bd fs s.alloc (.create i obj clst) = some (ret, a') ∧
      Sound contents fs ⟨a', filesAfter fs s.files (chainTable contents fs a'.win) ret (.create i obj clst)⟩ ∧
      Created (chainTable contents fs s.alloc.win) fs.nFatent.toNat clst s.alloc.freeClst
        (chainTable contents fs a'.win) a'.freeClst ret := by
  obtain ⟨ret, a', hcreate, hkept, hcreated⟩ :=
    createChain_spec hbd hplaced hwhole hexfat hsize h.coherent obj clst
  exact ⟨ret, a', congrArg (Option.map _) hcreate, created_sound h hallowed hkept.coherent hcreated, hcreated⟩

/-! ## Giving back -/

theorem takeWhile_append_cons {front back : List Nat} {d : Nat} (h : d ∉ front) :
    (front ++ d :: back).takeWhile (· ≠ d) = front := by
  have hfront : ∀ x ∈ front, decide (x ≠ d) = true := by
    intro x hx
    refine decide_eq_true ?_
    rintro rfl
    exact h hx
  rw [List.takeWhile_append_of_pos hfront]
  rw [List.takeWhile_cons_of_neg (by rw [decide_eq_true_eq]; exact not_not.mpr rfl), List.append_nil]

/-- A file that gives clusters back. -/
theorem removeChain_sound (hbd : HasSectors bd contents) (hplaced : fs.Placed) (hwhole : Unbroken bd fs)
    (hexfat : fs.fsType ≠ .exfat) (h : Sound contents fs s) {i : ι} {obj : ObjId} {clst pclst : UInt32}
    (hallowed : ChainCall.Allowed fs s (.remove i obj clst pclst)) :
    ∃ res a', removeChain bd fs obj clst pclst s.alloc = some (res, obj, a') ∧
      Undisturbed contents fs s.alloc.win a'.win ∧
      Sound contents fs
        ⟨a', Function.update s.files i (shortened (chainTable contents fs a'.win) (s.files i) pclst)⟩ ∧
      (res = frOk → pclst ≠ 0 → chainTable contents fs a'.win pclst.toNat = .last) ∧
      (Counted fs (chainTable contents fs s.alloc.win) s.alloc.freeClst →
        Counted fs (chainTable contents fs a'.win) a'.freeClst) := by
  obtain ⟨front, back, hfiles, hfront⟩ := hallowed
  have hne : s.files i ≠ [] := by
    rw [hfiles]
    exact fun h => by cases (List.append_eq_nil_iff.mp h).2
  have hrange : ∀ d ∈ s.files i, 2 ≤ d ∧ d < fs.nFatent.toNat := fun d hd => h.range hd
  have hchain := h.owned.chain i hne
  rw [hfiles] at hchain hrange
  have hclst : fs.InRange clst :=
    Fatfs.inRange_iff.mpr (hrange _ (List.mem_append_right front List.mem_cons_self))
  have hback : ∀ d ∈ back, 2 ≤ d ∧ d < fs.nFatent.toNat := fun d hd =>
    hrange d (List.mem_append_right front (List.mem_cons_of_mem _ hd))
  -- the cluster before those that are given back
  have hprev : pclst ≠ 0 → ∃ front', front = front' ++ [pclst.toNat] := by
    intro hpclst
    rw [if_neg hpclst] at hfront
    exact List.getLast?_eq_some_iff.mp hfront
  obtain ⟨res, a', T₁, hremove, hkept, hremoved, hcounted⟩ :=
    removeChain_spec hbd hplaced hwhole hexfat obj h.coherent hclst hback hchain.tail fun hpclst => by
      obtain ⟨front', rfl⟩ := hprev hpclst
      refine ⟨Fatfs.inRange_iff.mpr (hrange _ ?_), fun hmem => ?_, ?_⟩
      · exact List.mem_append_left _ (List.mem_append_right front' (List.mem_singleton_self _))
      · exact List.disjoint_of_nodup_append hchain.nodup
          (List.mem_append_right front' (List.mem_singleton_self _)) hmem
      · rw [List.append_assoc] at hchain
        exact hchain.tail.1
  refine ⟨res, a', hremove, hkept, ⟨hkept.coherent, ?_⟩, fun hok hpclst => ?_, hcounted⟩
  rotate_left
  · have hnot : pclst.toNat ∉ clst.toNat :: back := by
      obtain ⟨front', rfl⟩ := hprev hpclst
      rw [List.append_assoc] at hchain
      exact (List.nodup_cons.mp (hchain.nodup.of_append_right)).1
    rcases hremoved.cut with hT₁ | ⟨-, hT₁⟩
    · exact absurd hok (hremoved.kept hpclst hT₁).2
    · rw [hremoved.freed.outside _ hnot, hT₁, Function.update_self]
  unfold shortened
  by_cases hpclst : pclst = 0
  · -- the whole chain
    rw [if_pos hpclst]
    have hT₁ : T₁ = chainTable contents fs s.alloc.win := hremoved.cut.resolve_right fun h => h.1 hpclst
    rw [if_pos hpclst] at hfront
    subst hfront
    refine h.owned.replace (fun j hj d hd => ?_) (fun hnil => absurd rfl hnil) fun _ _ _ ha => absurd ha List.not_mem_nil
    rw [← hT₁]
    refine hremoved.freed.outside d fun hmem => hj ?_
    exact h.owned.apart j i d hd (by rw [hfiles]; exact hmem)
  · rw [if_neg hpclst]
    obtain ⟨front', rfl⟩ := hprev hpclst
    rw [List.append_assoc] at hfiles hchain
    have hnot : pclst.toNat ∉ clst.toNat :: back := (List.nodup_cons.mp (hchain.nodup.of_append_right)).1
    have hapart : pclst.toNat ∉ front' := fun hmem =>
      List.disjoint_of_nodup_append hchain.nodup hmem List.mem_cons_self
    rcases hremoved.cut with hT₁ | ⟨-, hT₁⟩
    · -- the new end could not be marked, and nothing has happened
      obtain ⟨hT, -⟩ := hremoved.kept hpclst hT₁
      rw [hT, if_neg, Function.update_eq_self]
      · exact h.owned
      · intro hlast
        have hlink := hchain.tail.1
        rw [hlast] at hlink
        cases hlink
    · have hlast : chainTable contents fs a'.win pclst.toNat = .last := by
        rw [hremoved.freed.outside _ hnot, hT₁, Function.update_self]
      rw [if_pos hlast]
      have hlist : (s.files i).takeWhile (· ≠ pclst.toNat) = front' := by
        rw [hfiles]
        exact takeWhile_append_cons hapart
      rw [hlist]
      have hcut := h.owned.cut (i := i) hfiles
      rw [← hT₁] at hcut
      refine hcut.congr fun j d hd => hremoved.freed.outside d fun hmem => ?_
      have hdi : d ∈ s.files i := by
        rw [hfiles]
        exact List.mem_append_right _ (List.mem_append_right [pclst.toNat] hmem)
      by_cases hj : j = i
      · subst hj
        rw [Function.update_self] at hd
        have hnodup := hchain.nodup
        rw [show front' ++ ([pclst.toNat] ++ clst.toNat :: back) = (front' ++ [pclst.toNat]) ++ clst.toNat :: back by
          rw [List.append_assoc]] at hnodup
        exact List.disjoint_of_nodup_append hnodup hd hmem
      · rw [Function.update_of_ne hj] at hd
        exact hj (h.owned.apart j i d hd hdi)

theorem remove_sound (hbd : HasSectors bd contents) (hplaced : fs.Placed) (hwhole : Unbroken bd fs)
    (hexfat : fs.fsType ≠ .exfat) (h : Sound contents fs s) {i : ι} {obj : ObjId} {clst pclst : UInt32}
    (hallowed : ChainCall.Allowed fs s (.remove i obj clst pclst)) :
    ∃ ret a', performChain bd fs s.alloc (.remove i obj clst pclst) = some (ret, a') ∧
      Sound contents fs
        ⟨a', filesAfter fs s.files (chainTable contents fs a'.win) ret (.remove i obj clst pclst)⟩ ∧
      (Counted fs (chainTable contents fs s.alloc.win) s.alloc.freeClst →
        Counted fs (chainTable contents fs a'.win) a'.freeClst) := by
  obtain ⟨res, a', hremove, -, hsound, -, hcounted⟩ := removeChain_sound hbd hplaced hwhole hexfat h hallowed
  exact ⟨.ofNat res, a', congrArg (Option.map _) hremove, hsound, hcounted⟩

/-! ## Other uses of the window -/

omit [DecidableEq ι] in
theorem window_sound (hbd : HasSectors bd contents) (hplaced : fs.Placed) (h : Sound contents fs s) {c : TableCall}
    (hallowed : ChainCall.Allowed (ι := ι) fs s (.window c)) :
    Sound contents fs ⟨{ s.alloc with win := (performTable bd fs s.alloc.win c).2 }, s.files⟩ ∧
      chainTable contents fs (performTable bd fs s.alloc.win c).2 = chainTable contents fs s.alloc.win := by
  obtain ⟨hproper, hput⟩ := hallowed
  have htable : Coherent contents fs (performTable bd fs s.alloc.win c).2 ∧
      chainTable contents fs (performTable bd fs s.alloc.win c).2 = chainTable contents fs s.alloc.win := by
    cases c with
    | get obj clst =>
        have hgot := getFatWin_spec hbd hplaced h.coherent obj clst
        exact ⟨hgot.coherent, hgot.same.chainTable hplaced⟩
    | put clst val => exact absurd rfl (hput clst val)
    | move sect =>
        have hmoved := moveWindow_spec hbd h.coherent hproper.1 hproper.2 hplaced
        exact ⟨hmoved.coherent, hmoved.same.chainTable hplaced⟩
    | edit sect f =>
        obtain ⟨hsect, hout, hother⟩ := hproper
        have hedit := editWin_spec hbd hplaced h.coherent hsect hout f
        exact ⟨hedit.coherent, chainTable_congr fun k hk =>
          hedit.others _ (tableSector_outside hplaced hk).2 (Ne.symm (hother k hk))⟩
    | sync =>
        have hsync := syncWindow_spec hbd h.coherent
        exact ⟨hsync.coherent, hsync.same.chainTable hplaced⟩
  exact ⟨h.of_same htable.1 htable.2, htable.2⟩

/-! ## Runs -/

/-- A call returns, and leaves the volume sound, and the count no smaller than it must be. -/
theorem performChain_sound (hbd : HasSectors bd contents) (hplaced : fs.Placed) (hwhole : Unbroken bd fs)
    (hexfat : fs.fsType ≠ .exfat) (hsize : 3 ≤ fs.nFatent.toNat) (h : Sound contents fs s) {c : ChainCall ι}
    (hallowed : c.Allowed fs s) :
    ∃ ret a', performChain bd fs s.alloc c = some (ret, a') ∧
      Sound contents fs ⟨a', filesAfter fs s.files (chainTable contents fs a'.win) ret c⟩ ∧
      (Counted fs (chainTable contents fs s.alloc.win) s.alloc.freeClst →
        Counted fs (chainTable contents fs a'.win) a'.freeClst) := by
  cases c with
  | create i obj clst =>
      obtain ⟨ret, a', hcall, hsound, hcreated⟩ := create_sound hbd hplaced hwhole hexfat hsize h hallowed
      exact ⟨ret, a', hcall, hsound, hcreated.counted fun d => chainTable_free⟩
  | remove i obj clst pclst => exact remove_sound hbd hplaced hwhole hexfat h hallowed
  | window c =>
      obtain ⟨hsound, htable⟩ := window_sound hbd hplaced h hallowed
      refine ⟨_, { s.alloc with win := (performTable bd fs s.alloc.win c).2 }, rfl, hsound, fun hcounted => ?_⟩
      show Counted fs (chainTable contents fs (performTable bd fs s.alloc.win c).2) s.alloc.freeClst
      rwa [htable]

theorem chainCalls_step (hbd : HasSectors bd contents) (hplaced : fs.Placed) (hwhole : Unbroken bd fs)
    (hexfat : fs.fsType ≠ .exfat) (hsize : 3 ≤ fs.nFatent.toNat) (h : Sound contents fs s) {c : ChainCall ι × UInt32}
    (hallowed : c.1.Allowed fs s) (hstep : (chainCalls bd contents fs s₀).step s c s') :
    Sound contents fs s' ∧ (s.Counted contents fs → s'.Counted contents fs) := by
  obtain ⟨ret, a', hcall, hsound, hcounted⟩ := performChain_sound hbd hplaced hwhole hexfat hsize h hallowed
  obtain ⟨alloc, files⟩ := s'
  obtain ⟨hperform, hfiles⟩ := hstep
  obtain ⟨rfl, rfl⟩ := Prod.mk.inj (Option.some.inj (hcall.symm.trans hperform))
  change files = filesAfter fs s.files (chainTable contents fs a'.win) c.2 c.1 at hfiles
  subst hfiles
  exact ⟨hsound, hcounted⟩

theorem chainCalls_sound (hbd : HasSectors bd contents) (hplaced : fs.Placed) (hwhole : Unbroken bd fs)
    (hexfat : fs.fsType ≠ .exfat) (hsize : 3 ≤ fs.nFatent.toNat) (h₀ : Sound contents fs s₀) :
    (chainCalls bd contents fs s₀).Invariant (fun s c => c.1.Allowed fs s) (Sound contents fs) where
  init _ hs := hs ▸ h₀
  step _ _ _ _ h hallowed hstep := (chainCalls_step hbd hplaced hwhole hexfat hsize h hallowed hstep).1

theorem chainCalls_counted (hbd : HasSectors bd contents) (hplaced : fs.Placed) (hwhole : Unbroken bd fs)
    (hexfat : fs.fsType ≠ .exfat) (hsize : 3 ≤ fs.nFatent.toNat) (h₀ : Sound contents fs s₀)
    (hcounted : s₀.Counted contents fs) :
    (chainCalls bd contents fs s₀).Invariant (fun s c => c.1.Allowed fs s) (Disk.Counted contents fs) where
  init _ hs := hs ▸ hcounted
  step _ _ _ hreach h hallowed hstep :=
    (chainCalls_step hbd hplaced hwhole hexfat hsize
      ((chainCalls_sound hbd hplaced hwhole hexfat hsize h₀).holds hreach) hallowed hstep).2 h

/-- In every run every file has a chain, no cluster has two files, and the next call returns. -/
theorem chains_apart (hbd : HasSectors bd contents) (hplaced : fs.Placed) (hwhole : Unbroken bd fs)
    (hexfat : fs.fsType ≠ .exfat) (hsize : 3 ≤ fs.nFatent.toNat) (h₀ : Sound contents fs s₀)
    (hrun : (chainCalls bd contents fs s₀).Reachable (fun s c => c.1.Allowed fs s) s) :
    (∀ i, s.files i ≠ [] → (chainTable contents fs s.alloc.win).Chain (s.files i)) ∧
      (∀ i j d, d ∈ s.files i → d ∈ s.files j → i = j) ∧
      ∀ c : ChainCall ι, c.Allowed fs s → ∃ ret s', (chainCalls bd contents fs s₀).step s (c, ret) s' := by
  have hsound := (chainCalls_sound hbd hplaced hwhole hexfat hsize h₀).holds hrun
  refine ⟨hsound.owned.chain, hsound.owned.apart, fun c hallowed => ?_⟩
  obtain ⟨ret, a', hcall, -⟩ := performChain_sound hbd hplaced hwhole hexfat hsize hsound hallowed
  exact ⟨ret, ⟨a', filesAfter fs s.files (chainTable contents fs a'.win) ret c⟩, hcall, rfl⟩

/-- With a count that is not too small at first it never is, and `create_chain` says that the
volume is full only when it is. -/
theorem create_chain_full (hbd : HasSectors bd contents) (hplaced : fs.Placed) (hwhole : Unbroken bd fs)
    (hexfat : fs.fsType ≠ .exfat) (hsize : 3 ≤ fs.nFatent.toNat) (h₀ : Sound contents fs s₀)
    (hcounted : s₀.Counted contents fs)
    (hrun : (chainCalls bd contents fs s₀).Reachable (fun s c => c.1.Allowed fs s) s) :
    s.Counted contents fs ∧ ∀ (i : ι) (obj : ObjId) (clst : UInt32) (s' : Disk σ ι),
      ChainCall.Allowed fs s (.create i obj clst) →
      (chainCalls bd contents fs s₀).step s (.create i obj clst, 0) s' →
      ∀ d, 2 ≤ d → d < fs.nFatent.toNat → chainTable contents fs s.alloc.win d ≠ .free := by
  have hsound := (chainCalls_sound hbd hplaced hwhole hexfat hsize h₀).holds hrun
  have hcount := (chainCalls_counted hbd hplaced hwhole hexfat hsize h₀ hcounted).holds hrun
  refine ⟨hcount, fun i obj clst s' hallowed hstep => ?_⟩
  obtain ⟨ret, a', hcall, -, hcreated⟩ := create_sound hbd hplaced hwhole hexfat hsize hsound hallowed
  obtain ⟨rfl, -⟩ := Prod.mk.inj (Option.some.inj (hcall.symm.trans hstep.1))
  exact hcreated.full_of_zero (fun d => chainTable_free) hcount

/-! ## A small volume -/

theorem smallVolume_unbroken : Unbroken arrayDevice smallVolume := fun _ => arrayDevice_working

/-- The table of the small volume, from these entries. -/
def tableOf (entries : List (Nat × UInt8)) : UInt64 → Nat → UInt8 := fun a k => if a = 1 then (entries.lookup k).getD 0 else 0

/-- One file has the clusters 2 and 4, the other one has the cluster 3. -/
def twoFiles : Disk (UInt64 → Nat → UInt8) Bool where
  alloc := ⟨⟨fun _ => 0, noSector, false, tableOf [(4, 4), (6, 0xFF), (7, 0xFF), (8, 0xFF), (9, 0xFF)]⟩, 0, 95, 0⟩
  files i := if i then [2, 4] else [3]

theorem twoFiles_sound : Sound id smallVolume twoFiles where
  coherent := ⟨smallVolume_placed.noSector, fun _ h => absurd rfl h⟩
  owned := by
    refine ⟨fun i _ => ?_, fun i j d hi hj => ?_⟩
    · cases i with
      | false => exact (by decide : chainTable id smallVolume twoFiles.alloc.win 3 = .last)
      | true =>
          exact ⟨(by decide : chainTable id smallVolume twoFiles.alloc.win 2 = .link 4),
            (by decide : chainTable id smallVolume twoFiles.alloc.win 4 = .last)⟩
    · cases i with
      | false =>
          obtain rfl : d = 3 := List.mem_singleton.mp hi
          cases j with
          | false => rfl
          | true => exact absurd hj (by decide)
      | true =>
          cases j with
          | false =>
              obtain rfl : d = 3 := List.mem_singleton.mp hj
              exact absurd hi (by decide)
          | true => rfl

/-- The second file gets a cluster behind its own. -/
theorem chains_apart_two :
    ∃ s, (chainCalls arrayDevice id smallVolume twoFiles).Reachable (fun s c => c.1.Allowed smallVolume s) s ∧
      s.files true = [2, 4] ∧ s.files false = [3, 5] ∧
      (chainTable id smallVolume s.alloc.win).Chain [2, 4] ∧ (chainTable id smallVolume s.alloc.win).Chain [3, 5] ∧
      ∃ ret s', (chainCalls arrayDevice id smallVolume twoFiles).step s (.remove true ⟨0, 2, 0, 0, 0⟩ 4 2, ret) s' := by
  have hallowed : ChainCall.Allowed smallVolume twoFiles (.create false ⟨0, 3, 0, 0, 0⟩ 3) := .inr (by decide)
  obtain ⟨ret, a', hcall, -⟩ := performChain_sound arrayDevice_holds smallVolume_placed smallVolume_unbroken
    (by decide) (by decide) twoFiles_sound hallowed
  have hret : ret = 5 := by
    have hval : (performChain arrayDevice smallVolume twoFiles.alloc
      (.create false ⟨0, 3, 0, 0, 0⟩ 3)).map Prod.fst = some 5 := by decide
    rw [hcall] at hval
    exact Option.some.inj hval
  subst hret
  obtain ⟨s, hs⟩ : ∃ s : Disk (UInt64 → Nat → UInt8) Bool, s = ⟨a', filesAfter smallVolume twoFiles.files
    (chainTable id smallVolume a'.win) 5 (.create false ⟨0, 3, 0, 0, 0⟩ 3)⟩ := ⟨_, rfl⟩
  have hreach : (chainCalls arrayDevice id smallVolume twoFiles).Reachable (fun s c => c.1.Allowed smallVolume s) s := by
    have hstep : (chainCalls arrayDevice id smallVolume twoFiles).step twoFiles
        (.create false ⟨0, 3, 0, 0, 0⟩ 3, 5) s := by
      rw [hs]
      exact ⟨hcall, rfl⟩
    exact (System.Reachable.init rfl).next hallowed hstep
  have htrue : s.files true = [2, 4] := hs ▸ rfl
  have hfalse : s.files false = [3, 5] := hs ▸ rfl
  obtain ⟨hchain, -, hnext⟩ := chains_apart arrayDevice_holds smallVolume_placed smallVolume_unbroken (by decide)
    (by decide) twoFiles_sound hreach
  have hfst := hchain true (by rw [htrue]; exact List.cons_ne_nil _ _)
  have hsnd := hchain false (by rw [hfalse]; exact List.cons_ne_nil _ _)
  rw [htrue] at hfst
  rw [hfalse] at hsnd
  exact ⟨s, hreach, htrue, hfalse, hfst, hsnd, hnext (.remove true ⟨0, 2, 0, 0, 0⟩ 4 2) ⟨[2], [], htrue, rfl⟩⟩

/-- The same volume with all of its clusters in use. -/
def fullDisk : Disk (UInt64 → Nat → UInt8) Bool := ⟨⟨⟨fun _ => 0, noSector, false, fun _ _ => 1⟩, 0, 0, 0⟩, fun _ => []⟩

theorem fullDisk_used (d : Nat) : chainTable id smallVolume fullDisk.alloc.win d ≠ .free := by
  unfold chainTable
  split
  · have hentry : entry id smallVolume fullDisk.alloc.win d = 257 := rfl
    rw [hentry]
    decide
  · exact fun h => by cases h

theorem fullDisk_sound : Sound id smallVolume fullDisk where
  coherent := ⟨smallVolume_placed.noSector, fun _ h => absurd rfl h⟩
  owned := ⟨fun _ h => absurd rfl h, fun _ _ _ h => absurd h List.not_mem_nil⟩

theorem fullDisk_counted : fullDisk.Counted id smallVolume :=
  Nat.le_of_eq (Finset.card_eq_zero.mpr (Finset.filter_eq_empty_iff.mpr fun d _ => fullDisk_used d))

/-- `create_chain` on it. -/
theorem fullDisk_step : (chainCalls arrayDevice id smallVolume fullDisk).step fullDisk
    (.create true ⟨0, 0, 0, 0, 0⟩ 0, 0) fullDisk := ⟨rfl, (Function.update_eq_self true _).symm⟩

theorem create_chain_full_all : chainTable id smallVolume fullDisk.alloc.win 2 ≠ .free :=
  (create_chain_full arrayDevice_holds smallVolume_placed smallVolume_unbroken (by decide) (by decide) fullDisk_sound
    fullDisk_counted (.init rfl)).2 true ⟨0, 0, 0, 0, 0⟩ 0 fullDisk (.inl ⟨rfl, rfl⟩) fullDisk_step 2 (Nat.le_refl 2)
    (by decide)

end Steps

end BdmAssault.FatFs
