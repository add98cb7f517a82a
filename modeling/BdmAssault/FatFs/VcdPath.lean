import BdmAssault.Lib.CString

/-! # The target of POPStarter

`bdm_set_popstarter_vcd_path` and `bdm_set_popstarter_vcd` of `bdmfs_fs_driver.c`, which
share the buffer `g_popstarter_vcd_path`.
-/

namespace BdmAssault.FatFs

open Lib

/-- A string that is passed to one of the functions: the bytes before the terminating zero. -/
structure CString where
  bytes : List UInt8
  noNul : (0 : UInt8) ∉ bytes
  fits : bytes.length < 0x80000000

def CString.strlen (s : CString) : UInt32 := .ofNat s.bytes.length

def ascii (cs : List Char) : List UInt8 := cs.map Char.toUInt8

def popstarterVcdPrefix : List UInt8 := ascii ['0', ':', '/', 'P', 'O', 'P', 'S', '/']

def popstarterVcdSuffix : List UInt8 := ascii ['.', 'V', 'C', 'D']

def popstarterArgPrefixXX : List UInt8 := ascii ['X', 'X', '.']

def popstarterArgPrefixSB : List UInt8 := ascii ['S', 'B', '.']

def popstarterArgSuffix : List UInt8 := ascii ['.', 'E', 'L', 'F']

def ffMaxLfn : Nat := 255

def popstarterVcdPathMax : Nat := ffMaxLfn + 16

/-- `vcdPath` is the memory from `g_popstarter_vcd_path` on. -/
structure VcdConfig where
  lockSemaId : Int
  vcdPath : Memory
  probeConfigured : Bool

/-- The string in `g_popstarter_vcd_path`. -/
def VcdConfig.stored (s : VcdConfig) : List UInt8 := cstring popstarterVcdPathMax s.vcdPath

/-! ## The functions -/

def popstarterVcdSuffixMatches (suffix : List UInt8) : Bool :=
  suffix.getD 0 0 = '.'.toUInt8 &&
    (suffix.getD 1 0 = 'V'.toUInt8 || suffix.getD 1 0 = 'v'.toUInt8) &&
    (suffix.getD 2 0 = 'C'.toUInt8 || suffix.getD 2 0 = 'c'.toUInt8) &&
    (suffix.getD 3 0 = 'D'.toUInt8 || suffix.getD 3 0 = 'd'.toUInt8)

def bdmSetPopstarterVcdPath (s : VcdConfig) (vcdPath : Option CString) : Int × VcdConfig :=
  if 0 ≤ s.lockSemaId then (-1, s)
  else
    let s := { s with vcdPath := Function.update s.vcdPath 0 0 }
    match vcdPath with
    | none => (0, { s with probeConfigured := true })
    | some vcdPath =>
        let pathLength := vcdPath.strlen
        if pathLength ≤ 8 + 4 ∨ .ofNat popstarterVcdPathMax ≤ pathLength then (-1, s)
        else if vcdPath.bytes.take 8 ≠ popstarterVcdPrefix then (-1, s)
        else if ¬ popstarterVcdSuffixMatches (vcdPath.bytes.drop (pathLength - 4).toNat) then (-1, s)
        else
          (0, { s with vcdPath := memcpy s.vcdPath 0 (vcdPath.bytes ++ [0]), probeConfigured := true })

/-- XX. and SB. are the optional prefixes for the kind of boot. -/
def argPrefixLength (arg : CString) : UInt32 :=
  if 3 ≤ arg.strlen ∧ arg.bytes.take 3 = popstarterArgPrefixXX then 3
  else if 3 ≤ arg.strlen ∧ arg.bytes.take 3 = popstarterArgPrefixSB then 3
  else 0

/-- The name that one argument gives; `none` where the loop continues. -/
def argName (arg : CString) : Option (List UInt8) :=
  let argLength := arg.strlen
  if argLength ≤ 4 then none
  else if arg.bytes.drop (argLength - 4).toNat ≠ popstarterArgSuffix then none
  else if argLength ≤ argPrefixLength arg + 4 then none
  else
    let nameLength := argLength - argPrefixLength arg - 4
    if nameLength + 5 - 1 > .ofNat ffMaxLfn then none
    else some ((arg.bytes.drop (argPrefixLength arg).toNat).take nameLength.toNat)

/-- The three `memcpy`s of the loop. -/
def storeTarget (s : VcdConfig) (name : List UInt8) : VcdConfig :=
  let path := memcpy s.vcdPath 0 popstarterVcdPrefix
  let path := memcpy path 8 name
  { s with vcdPath := memcpy path (8 + name.length) (popstarterVcdSuffix ++ [0]) }

def argLoop (s : VcdConfig) (argv : Nat → Option CString) : List Nat → Int × VcdConfig
  | [] => (-1, s)
  | i :: rest =>
      match (argv i).bind argName with
      | none => argLoop s argv rest
      | some name => (0, storeTarget s name)

/-- `argv` is an array of `argc` strings, each of which may be missing. -/
def bdmSetPopstarterVcd (s : VcdConfig) (argc : Int) (argv : Option (Nat → Option CString)) :
    Int × VcdConfig :=
  if s.probeConfigured then (0, s)
  else
    match argv with
    | none => (-1, s)
    | some argv =>
        if argc ≤ 0 then (-1, s)
        else argLoop { s with vcdPath := Function.update s.vcdPath 0 0 } argv (List.range argc.toNat)

/-! ## Names -/

/-- An argument without one leading `XX.` or `SB.`. -/
def stripped (bytes : List UInt8) : List UInt8 :=
  if popstarterArgPrefixXX <+: bytes ∨ popstarterArgPrefixSB <+: bytes then bytes.drop 3 else bytes

/-- The argument names the target `name`. -/
structure Names (arg : CString) (name : List UInt8) : Prop where
  whole : stripped arg.bytes = name ++ popstarterArgSuffix
  nonempty : name ≠ []
  short : name.length ≤ ffMaxLfn - 4

theorem CString.toNat_strlen (s : CString) : s.strlen.toNat = s.bytes.length := by
  have hfits := s.fits
  unfold strlen
  rw [UInt32.toNat_ofNat', Nat.mod_eq_of_lt (by omega)]

/-- Where the last four bytes begin. -/
theorem CString.toNat_strlen_sub (s : CString) (h : 4 ≤ s.bytes.length) :
    (s.strlen - 4).toNat = s.bytes.length - 4 := by
  rw [UInt32.toNat_sub_of_le, s.toNat_strlen]
  · rfl
  · rw [UInt32.le_iff_toNat_le, s.toNat_strlen]
    exact h

section Names

variable {arg : CString} {name : List UInt8}

theorem take_eq_iff_prefix (arg : CString) (p : List UInt8) (hp : p.length = 3) :
    3 ≤ arg.strlen ∧ arg.bytes.take 3 = p ↔ p <+: arg.bytes := by
  rw [List.prefix_iff_eq_take, hp, UInt32.le_iff_toNat_le, arg.toNat_strlen]
  constructor
  · rintro ⟨-, htake⟩
    exact htake.symm
  · intro htake
    have hlength := congrArg List.length htake
    rw [hp, List.length_take] at hlength
    exact ⟨by show 3 ≤ _; omega, htake.symm⟩

theorem argPrefixLength_cases (arg : CString) :
    ((argPrefixLength arg).toNat = 3 ∨ (argPrefixLength arg).toNat = 0) ∧
      stripped arg.bytes = arg.bytes.drop (argPrefixLength arg).toNat := by
  unfold argPrefixLength stripped
  have hxx := take_eq_iff_prefix arg popstarterArgPrefixXX rfl
  have hsb := take_eq_iff_prefix arg popstarterArgPrefixSB rfl
  by_cases h : popstarterArgPrefixXX <+: arg.bytes
  · rw [if_pos (hxx.mpr h), if_pos (.inl h)]
    exact ⟨.inl rfl, rfl⟩
  · rw [if_neg (mt hxx.mp h)]
    by_cases h' : popstarterArgPrefixSB <+: arg.bytes
    · rw [if_pos (hsb.mpr h'), if_pos (.inr h')]
      exact ⟨.inl rfl, rfl⟩
    · rw [if_neg (mt hsb.mp h'), if_neg (not_or_intro h h')]
      exact ⟨.inr rfl, rfl⟩

/-- `argName` in terms of lengths that cannot overflow. -/
theorem argName_eq (arg : CString) : argName arg =
    if arg.bytes.length ≤ 4 then none
    else if arg.bytes.drop (arg.bytes.length - 4) ≠ popstarterArgSuffix then none
    else if arg.bytes.length ≤ (argPrefixLength arg).toNat + 4 then none
    else if ffMaxLfn < arg.bytes.length - (argPrefixLength arg).toNat then none
    else some ((arg.bytes.drop (argPrefixLength arg).toNat).take
      (arg.bytes.length - (argPrefixLength arg).toNat - 4)) := by
  have hlength := arg.toNat_strlen
  have hfits := arg.fits
  obtain ⟨hpre, -⟩ := argPrefixLength_cases arg
  unfold argName
  generalize argPrefixLength arg = p at hpre
  generalize hn : arg.strlen = n at hlength
  rw [← hlength] at hfits ⊢
  dsimp only
  have hfour : n ≤ 4 ↔ n.toNat ≤ 4 := UInt32.le_iff_toNat_le
  simp only [hfour]
  by_cases hlong : n.toNat ≤ 4
  · rw [if_pos hlong, if_pos hlong]
  · have hsub : (n - 4).toNat = n.toNat - 4 := UInt32.toNat_sub_of_le _ _ (UInt32.le_iff_toNat_le.mpr (Nat.le_of_not_le hlong))
    have hsum : (p + 4).toNat = p.toNat + 4 := by
      rw [UInt32.toNat_add, Nat.mod_eq_of_lt]
      · rfl
      · show p.toNat + 4 < 4294967296
        omega
    rw [if_neg hlong, if_neg hlong, hsub]
    split
    · rfl
    · simp only [UInt32.le_iff_toNat_le, hsum]
      split
      · rfl
      · rename_i hname
        have hp : (n - p).toNat = n.toNat - p.toNat :=
          UInt32.toNat_sub_of_le _ _ (UInt32.le_iff_toNat_le.mpr (by omega))
        have hq : (n - p - 4).toNat = n.toNat - p.toNat - 4 := by
          rw [UInt32.toNat_sub_of_le, hp]
          · rfl
          · rw [UInt32.le_iff_toNat_le, hp]
            show 4 ≤ _
            omega
        have hover : n - p - 4 + 5 - 1 > .ofNat ffMaxLfn ↔ ffMaxLfn < n.toNat - p.toNat := by
          rw [gt_iff_lt, UInt32.lt_iff_toNat_lt, UInt32.toNat_sub_of_le, UInt32.toNat_add, hq]
          · show 255 < (n.toNat - p.toNat - 4 + 5) % 4294967296 - 1 ↔ 255 < _
            omega
          · rw [UInt32.le_iff_toNat_le, UInt32.toNat_add, hq]
            show 1 ≤ (n.toNat - p.toNat - 4 + 5) % 4294967296
            omega
        rw [hq]
        simp only [hover]

theorem argName_eq_some_iff : argName arg = some name ↔ Names arg name := by
  obtain ⟨hpre, hstripped⟩ := argPrefixLength_cases arg
  rw [argName_eq]
  generalize (argPrefixLength arg).toNat = p at hpre hstripped
  have hsuffix : popstarterArgSuffix.length = 4 := rfl
  constructor
  · intro h
    split at h
    · cases h
    split at h
    · cases h
    split at h
    · cases h
    split at h
    · cases h
    rename_i hlong hend hname hshort
    rw [Ne, Decidable.not_not] at hend
    cases h
    have hlength : ((arg.bytes.drop p).take (arg.bytes.length - p - 4)).length = arg.bytes.length - p - 4 := by
      rw [List.length_take, List.length_drop]
      omega
    constructor
    · rw [hstripped, ← hend, show arg.bytes.length - 4 = p + (arg.bytes.length - p - 4) by omega,
        ← List.drop_drop, List.take_append_drop]
    · intro hnil
      rw [hnil] at hlength
      replace hlength : 0 = arg.bytes.length - p - 4 := hlength
      omega
    · rw [hlength]
      unfold ffMaxLfn at hshort ⊢
      omega
  · rintro ⟨hwhole, hnonempty, hshort⟩
    rw [hstripped] at hwhole
    have hpos := List.length_pos_iff.mpr hnonempty
    have hlength := congrArg List.length hwhole
    rw [List.length_drop, List.length_append, hsuffix] at hlength
    have hend : arg.bytes.drop (arg.bytes.length - 4) = popstarterArgSuffix := by
      rw [show arg.bytes.length - 4 = p + name.length by omega, ← List.drop_drop, hwhole, List.drop_left]
    unfold ffMaxLfn at hshort ⊢
    rw [if_neg (by omega), if_neg (not_not_intro hend), if_neg (by omega), if_neg (by omega), hwhole,
      show arg.bytes.length - p - 4 = name.length by omega, List.take_left]

end Names

/-! ## Paths -/

/-- What `bdm_set_popstarter_vcd_path` asks of a path. -/
structure Acceptable (path : List UInt8) : Prop where
  long : 8 + 4 < path.length
  short : path.length < popstarterVcdPathMax
  start : path.take 8 = popstarterVcdPrefix
  ending : popstarterVcdSuffixMatches (path.drop (path.length - 4)) = true

/-- Such a path is stored. -/
theorem setPath_accepts {s : VcdConfig} {path : CString} (hlock : s.lockSemaId < 0)
    (h : Acceptable path.bytes) :
    (bdmSetPopstarterVcdPath s (some path)).1 = 0 ∧ (bdmSetPopstarterVcdPath s (some path)).2.stored = path.bytes := by
  have hlong := h.long
  have hshort : path.bytes.length < 271 := h.short
  have hlength := path.toNat_strlen
  unfold bdmSetPopstarterVcdPath
  dsimp only
  have hsub := path.toNat_strlen_sub (by omega)
  rw [if_neg (by omega), if_neg, if_neg (not_not_intro h.start), hsub, if_neg (not_not_intro h.ending)]
  · exact ⟨rfl, cstring_memcpy h.short path.noNul⟩
  · rw [UInt32.le_iff_toNat_le, UInt32.le_iff_toNat_le, hlength]
    show ¬ (path.bytes.length ≤ 12 ∨ 271 ≤ path.bytes.length)
    omega

/-- A call that fails has at most emptied the path. -/
theorem setPath_fails {s : VcdConfig} {path : Option CString}
    (h : (bdmSetPopstarterVcdPath s path).1 = -1) :
    (0 ≤ s.lockSemaId → (bdmSetPopstarterVcdPath s path).2 = s) ∧
      (s.lockSemaId < 0 → (bdmSetPopstarterVcdPath s path).2.stored = []) := by
  have hcleared : VcdConfig.stored { s with vcdPath := Function.update s.vcdPath 0 0 } = [] :=
    cstring_cleared (by decide)
  unfold bdmSetPopstarterVcdPath at h ⊢
  by_cases hlock : 0 ≤ s.lockSemaId
  · rw [if_pos hlock]
    exact ⟨fun _ => rfl, fun hneg => absurd hlock (Int.not_le.mpr hneg)⟩
  · rw [if_neg hlock] at h ⊢
    refine ⟨fun hpos => absurd hpos hlock, fun _ => ?_⟩
    cases path with
    | none => exact absurd (show (0 : Int) = -1 from h) (by decide)
    | some path =>
        dsimp only at h ⊢
        split
        · exact hcleared
        · rename_i hlength
          rw [if_neg hlength] at h
          split
          · exact hcleared
          · rename_i hstart
            rw [if_neg hstart] at h
            split
            · exact hcleared
            · rename_i hending
              rw [if_neg hending] at h
              exact absurd (show (0 : Int) = -1 from h) (by decide)

def targetPath (name : List UInt8) : List UInt8 := popstarterVcdPrefix ++ name ++ popstarterVcdSuffix

section Target

variable {arg : CString} {name : List UInt8}

theorem Names.noNul (h : Names arg name) : (0 : UInt8) ∉ targetPath name := by
  have hname : (0 : UInt8) ∉ name := by
    intro hmem
    apply arg.noNul
    have hstripped : (0 : UInt8) ∈ stripped arg.bytes := by
      rw [h.whole]
      exact List.mem_append_left _ hmem
    unfold stripped at hstripped
    split at hstripped
    · exact List.mem_of_mem_drop hstripped
    · exact hstripped
  unfold targetPath
  rw [List.mem_append, List.mem_append]
  rintro ((hpre | hmid) | hsuf)
  · exact absurd hpre (by decide)
  · exact hname hmid
  · exact absurd hsuf (by decide)

theorem length_targetPath (name : List UInt8) : (targetPath name).length = 8 + name.length + 4 := by
  unfold targetPath
  rw [List.length_append, List.length_append]
  rfl

theorem Names.length_lt (h : Names arg name) : (targetPath name).length < popstarterVcdPathMax := by
  have hshort : name.length ≤ 251 := h.short
  rw [length_targetPath]
  show _ < 271
  omega

theorem Names.acceptable (h : Names arg name) : Acceptable (targetPath name) where
  long := by
    have hpos := List.length_pos_iff.mpr h.nonempty
    rw [length_targetPath]
    omega
  short := h.length_lt
  start := by
    unfold targetPath
    rw [List.append_assoc]
    show List.take popstarterVcdPrefix.length _ = _
    exact List.take_left
  ending := by
    have hdrop : (targetPath name).drop ((targetPath name).length - 4) = popstarterVcdSuffix := by
      have hlength : (targetPath name).length - 4 = (popstarterVcdPrefix ++ name).length := by
        rw [length_targetPath, List.length_append]
        exact Nat.add_sub_cancel _ 4
      rw [hlength]
      exact List.drop_left
    rw [hdrop]
    decide

theorem storeTarget_vcdPath (s : VcdConfig) (name : List UInt8) :
    (storeTarget s name).vcdPath = memcpy s.vcdPath 0 (targetPath name ++ [0]) := by
  have hstart : ∀ src, memcpy (memcpy s.vcdPath 0 popstarterVcdPrefix) 8 src =
      memcpy s.vcdPath 0 (popstarterVcdPrefix ++ src) := memcpy_append
  have hrest : ∀ src, memcpy (memcpy s.vcdPath 0 (popstarterVcdPrefix ++ name)) (8 + name.length) src =
      memcpy s.vcdPath 0 (popstarterVcdPrefix ++ name ++ src) := by
    intro src
    have happend := @memcpy_append s.vcdPath 0 (popstarterVcdPrefix ++ name) src
    rw [Nat.zero_add, List.length_append] at happend
    exact happend
  unfold storeTarget targetPath
  dsimp only
  rw [hstart, hrest, List.append_assoc _ popstarterVcdSuffix]

theorem Names.stored (h : Names arg name) (s : VcdConfig) :
    (storeTarget s name).stored = targetPath name := by
  unfold VcdConfig.stored
  rw [storeTarget_vcdPath]
  exact cstring_memcpy h.length_lt h.noNul

theorem Names.beyond (h : Names arg name) (s : VcdConfig) {k : Nat} (hk : popstarterVcdPathMax ≤ k) :
    (storeTarget s name).vcdPath k = s.vcdPath k := by
  rw [storeTarget_vcdPath]
  apply memcpy_beyond
  have hlt := h.length_lt
  rw [List.length_append, List.length_singleton]
  omega

end Target

/-! ## Arguments -/

section Arguments

variable {s : VcdConfig} {argv : Nat → Option CString}

theorem argLoop_none {is : List Nat} (h : ∀ j ∈ is, (argv j).bind argName = none) :
    argLoop s argv is = (-1, s) := by
  induction is with
  | nil => rfl
  | cons i rest ih =>
      unfold argLoop
      rw [h i List.mem_cons_self]
      exact ih fun j hj => h j (List.mem_cons_of_mem i hj)

theorem argLoop_first {before after : List Nat} {i : Nat} {name : List UInt8}
    (hnone : ∀ j ∈ before, (argv j).bind argName = none) (hname : (argv i).bind argName = some name) :
    argLoop s argv (before ++ i :: after) = (0, storeTarget s name) := by
  induction before with
  | nil =>
      rw [List.nil_append]
      unfold argLoop
      rw [hname]
  | cons j rest ih =>
      rw [List.cons_append]
      unfold argLoop
      rw [hnone j List.mem_cons_self]
      exact ih fun k hk => hnone k (List.mem_cons_of_mem j hk)

theorem bind_argName_eq_none {i : Nat} :
    (argv i).bind argName = none ↔ ∀ arg, argv i = some arg → ∀ name, ¬ Names arg name := by
  rw [Option.bind_eq_none_iff]
  constructor
  · intro h arg harg name hname
    rw [← argName_eq_some_iff, h arg harg] at hname
    cases hname
  · intro h arg harg
    rw [Option.eq_none_iff_forall_ne_some]
    intro name hname
    exact h arg harg name (argName_eq_some_iff.mp hname)

/-- Argument `i` is the first one of `argc` that names a target. -/
structure FirstTarget (argc : Int) (argv : Nat → Option CString) (i : Nat) (name : List UInt8) : Prop where
  inside : (i : Int) < argc
  names : ∃ arg, argv i = some arg ∧ Names arg name
  first : ∀ j < i, ∀ arg, argv j = some arg → ∀ name', ¬ Names arg name'

theorem FirstTarget.loop {argc : Int} {i : Nat} {name : List UInt8} (h : FirstTarget argc argv i name) :
    argLoop s argv (List.range argc.toNat) = (0, storeTarget s name) := by
  have hinside := h.inside
  obtain ⟨arg, harg, hname⟩ := h.names
  have hsplit : List.range argc.toNat =
      List.range i ++ i :: (List.range (argc.toNat - i - 1)).map fun k => i + (k + 1) := by
    rw [show argc.toNat = i + (argc.toNat - i - 1 + 1) by omega, List.range_add,
      List.range_succ_eq_map, List.map_cons, List.map_map, Nat.add_sub_cancel_left, Nat.add_sub_cancel]
    rfl
  rw [hsplit]
  apply argLoop_first
  · intro j hj
    rw [bind_argName_eq_none]
    exact h.first j (List.mem_range.mp hj)
  · rw [harg]
    exact argName_eq_some_iff.mpr hname

/-- Where some argument names a target, one of them is the first. -/
theorem exists_firstTarget {argc : Int} {i : Nat} {arg : CString} {name : List UInt8}
    (hi : (i : Int) < argc) (harg : argv i = some arg) (hname : Names arg name) :
    ∃ j name', FirstTarget argc argv j name' := by
  induction i using Nat.strongRecOn generalizing arg name with
  | ind i ih =>
      by_cases hearlier : ∃ j < i, ∃ arg', argv j = some arg' ∧ ∃ name', Names arg' name'
      · obtain ⟨j, hj, arg', harg', name', hname'⟩ := hearlier
        exact ih j hj (by omega) harg' hname'
      · refine ⟨i, name, hi, ⟨arg, harg, hname⟩, fun j hj arg' harg' name' hname' => ?_⟩
        exact hearlier ⟨j, hj, arg', harg', name', hname'⟩

/-- The path is emptied before the arguments are looked at. -/
def VcdConfig.cleared (s : VcdConfig) : VcdConfig := { s with vcdPath := Function.update s.vcdPath 0 0 }

theorem setVcd_refused {argc : Int} {args : Option (Nat → Option CString)} (hfresh : s.probeConfigured = false)
    (h : argc ≤ 0 ∨ args = none) : bdmSetPopstarterVcd s argc args = (-1, s) := by
  unfold bdmSetPopstarterVcd
  rw [hfresh]
  cases args with
  | none => rfl
  | some args => exact if_pos (h.resolve_right (Option.some_ne_none args))

theorem setVcd_loop {argc : Int} (hfresh : s.probeConfigured = false) (hargc : 0 < argc) :
    bdmSetPopstarterVcd s argc (some argv) = argLoop s.cleared argv (List.range argc.toNat) := by
  unfold bdmSetPopstarterVcd
  rw [if_neg (Bool.eq_false_iff.mp hfresh)]
  exact if_neg (Int.not_le.mpr hargc)

theorem FirstTarget.setVcd {argc : Int} {i : Nat} {name : List UInt8} (h : FirstTarget argc argv i name)
    (hfresh : s.probeConfigured = false) :
    bdmSetPopstarterVcd s argc (some argv) = (0, storeTarget s.cleared name) := by
  have hinside := h.inside
  rw [setVcd_loop hfresh (by omega), h.loop]

/-- Where no argument names a target. -/
theorem setVcd_none {argc : Int} (hfresh : s.probeConfigured = false) (hargc : 0 < argc)
    (h : ¬ ∃ (i : Nat) (arg : CString) (name : List UInt8),
      (i : Int) < argc ∧ argv i = some arg ∧ Names arg name) :
    bdmSetPopstarterVcd s argc (some argv) = (-1, s.cleared) := by
  rw [setVcd_loop hfresh hargc, argLoop_none]
  intro j hj
  rw [bind_argName_eq_none]
  intro arg harg name hname
  have hlt := List.mem_range.mp hj
  exact h ⟨j, arg, name, by omega, harg, hname⟩

end Arguments

/-- The buffer holds the target that the first argument with a name gives. -/
structure Holds (s : VcdConfig) (name : List UInt8) (s' : VcdConfig) : Prop where
  stored : s'.stored = targetPath name
  terminated : (targetPath name).length < popstarterVcdPathMax
  beyond : ∀ k, popstarterVcdPathMax ≤ k → s'.vcdPath k = s.vcdPath k
  accepted : ∀ (t : VcdConfig) (p : CString), t.lockSemaId < 0 → p.bytes = targetPath name →
    (bdmSetPopstarterVcdPath t (some p)).1 = 0

theorem Names.holds {arg : CString} {name : List UInt8} (h : Names arg name) (s : VcdConfig) :
    Holds s name (storeTarget s.cleared name) where
  stored := h.stored s.cleared
  terminated := h.length_lt
  beyond k hk := by
    rw [h.beyond s.cleared hk]
    exact Function.update_of_ne (Nat.ne_of_gt (Nat.lt_of_lt_of_le (by decide) hk)) _ _
  accepted t p hlock hp := (setPath_accepts hlock (hp ▸ h.acceptable)).1

theorem vcd_target_configured (s : VcdConfig) (argc : Int) (argv : Option (Nat → Option CString))
    (path : Option CString) :
    (s.probeConfigured = false →
      ((bdmSetPopstarterVcd s argc argv).1 = 0 ↔ ∃ args, argv = some args ∧
        ∃ (i : Nat) (arg : CString) (name : List UInt8),
          (i : Int) < argc ∧ args i = some arg ∧ Names arg name) ∧
      ∀ args i name, argv = some args → FirstTarget argc args i name →
        Holds s name (bdmSetPopstarterVcd s argc argv).2) ∧
    (s.probeConfigured = true → bdmSetPopstarterVcd s argc argv = (0, s)) ∧
    ((bdmSetPopstarterVcd s argc argv).1 = -1 →
      (argc ≤ 0 ∨ argv = none → (bdmSetPopstarterVcd s argc argv).2 = s) ∧
      (¬ (argc ≤ 0 ∨ argv = none) → (bdmSetPopstarterVcd s argc argv).2.stored = [])) ∧
    ((bdmSetPopstarterVcdPath s path).1 = -1 →
      (0 ≤ s.lockSemaId → (bdmSetPopstarterVcdPath s path).2 = s) ∧
      (s.lockSemaId < 0 → (bdmSetPopstarterVcdPath s path).2.stored = [])) := by
  have hconfigured : s.probeConfigured = true → bdmSetPopstarterVcd s argc argv = (0, s) := by
    intro h
    unfold bdmSetPopstarterVcd
    rw [if_pos h]
  refine ⟨fun hfresh => ⟨⟨?_, ?_⟩, ?_⟩, hconfigured, ?_, setPath_fails⟩
  · intro hzero
    by_cases hrefused : argc ≤ 0 ∨ argv = none
    · rw [setVcd_refused hfresh hrefused] at hzero
      exact absurd (show (-1 : Int) = 0 from hzero) (by decide)
    · obtain ⟨hargc, hargv⟩ := not_or.mp hrefused
      obtain ⟨args, rfl⟩ := Option.ne_none_iff_exists'.mp hargv
      by_contra hnone
      rw [setVcd_none hfresh (Int.not_le.mp hargc) fun h => hnone ⟨args, rfl, h⟩] at hzero
      exact absurd (show (-1 : Int) = 0 from hzero) (by decide)
  · rintro ⟨args, rfl, i, arg, name, hi, harg, hname⟩
    obtain ⟨j, name', hfirst⟩ := exists_firstTarget hi harg hname
    rw [hfirst.setVcd hfresh]
  · rintro args i name rfl hfirst
    obtain ⟨arg, -, hname⟩ := hfirst.names
    rw [hfirst.setVcd hfresh]
    exact hname.holds s
  · intro hfailed
    have hfresh : s.probeConfigured = false := by
      by_contra hset
      rw [hconfigured (eq_true_of_ne_false hset)] at hfailed
      exact absurd (show (0 : Int) = -1 from hfailed) (by decide)
    refine ⟨fun hrefused => by rw [setVcd_refused hfresh hrefused], fun hrefused => ?_⟩
    obtain ⟨hargc, hargv⟩ := not_or.mp hrefused
    obtain ⟨args, rfl⟩ := Option.ne_none_iff_exists'.mp hargv
    by_cases hsome : ∃ (i : Nat) (arg : CString) (name : List UInt8),
        (i : Int) < argc ∧ args i = some arg ∧ Names arg name
    · obtain ⟨i, arg, name, hi, harg, hname⟩ := hsome
      obtain ⟨j, name', hfirst⟩ := exists_firstTarget hi harg hname
      rw [hfirst.setVcd hfresh] at hfailed
      exact absurd (show (0 : Int) = -1 from hfailed) (by decide)
    · rw [setVcd_none hfresh (Int.not_le.mp hargc) hsome]
      exact cstring_cleared (by decide)

/-- A target was stored, and neither call has a good name. -/
theorem failed_call_empties_path :
    let s : VcdConfig := ⟨-1, memcpy (fun _ => 0) 0 (targetPath (ascii ['A']) ++ [0]), false⟩
    let bad : CString := ⟨ascii ['A'], by decide, by decide⟩
    s.stored = targetPath (ascii ['A']) ∧
      (bdmSetPopstarterVcd s 1 (some fun _ => some bad)).1 = -1 ∧
      (bdmSetPopstarterVcd s 1 (some fun _ => some bad)).2.stored = [] ∧
      (bdmSetPopstarterVcdPath s (some bad)).1 = -1 ∧
      (bdmSetPopstarterVcdPath s (some bad)).2.stored = [] := by
  decide +kernel

end BdmAssault.FatFs
