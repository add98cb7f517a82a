import Mathlib.Data.List.DropRight
import BdmAssault.Lib.Buffer
import BdmAssault.Smb.Driver.Paths

/-! # The buffers of `prepare_path`

`prepare_path` of `smb_fio.c` on its buffers: the two scans over the path, and the copy
behind the current directory.
-/

namespace BdmAssault.Smb.Driver

open Lib

/-- `smb_curdir`, `smb_curpath` and `smb_secpath`, of `SMB_PATH_MAX` bytes. -/
abbrev PathBuffer := Buffer 1024

/-- The byte at `p` of the path that is passed. The terminator is the last one there is. -/
def pathByte (path : Name) (p : Int) : Option UInt8 := if p < 0 then none else (path ++ [0])[p.toNat]?

/-- `while ((*p == '\\') || (*p == '/'))`, in either direction. -/
def skipSlashes (path : Name) (step : Int) : Nat → Int → Option Int
  | 0, p => some p
  | rounds + 1, p => do
      let c ← pathByte path p
      if isSlash c then skipSlashes path step rounds (p + step) else return p

def convertSlash (c : UInt8) : UInt8 := if c = 0x2f then backslash else c

def copyPath (path : Name) (p2 : Int) : Nat → Int → Nat → PathBuffer → Option (Nat × PathBuffer)
  | 0, _, i, full => some (i, full)
  | rounds + 1, p, i, full =>
      if p ≤ p2 ∧ i + 2 < 1024 then do
        let c ← pathByte path p
        let full ← full.put i [convertSlash c]
        copyPath path p2 rounds (p + 1) (i + 1) full
      else some (i, full)

/-- `prepare_path` with `max_path = SMB_PATH_MAX`. The first result is where the last
statement puts the terminator. The scan for the end of the path starts at the terminator. -/
def preparePathIn (curdir : PathBuffer) (path : Name) (full : PathBuffer) : Option (Nat × PathBuffer) := do
  let full ← full.strncpy curdir.bytes 1021
  let full ← full.strcat [backslash]
  let p ← skipSlashes path 1 (path.length + 2) 0
  let p2 ← skipSlashes path (-1) (path.length + 2) path.length
  let i ← full.strlen
  let (i, full) ← copyPath path p2 (path.length + 2) p i full
  let full ← full.put i [backslash]
  let full ← full.put (i + 1) [0]
  return (i + 1, full)

/-! ## What the path is to be -/

/-- The path without the slashes at both ends, with backslashes inside. -/
def strippedPath (path : Name) : Name :=
  ((path.dropWhile isSlash).rdropWhile isSlash).map convertSlash

/-- How many slashes stand at the end of the path, behind something else. -/
def trailingSlashes (path : Name) : Nat := ((path.dropWhile isSlash).rtakeWhile isSlash).length

def joinedPath (curdir path : Name) : Name := curdir ++ [backslash] ++ strippedPath path

/-- The path with the terminator and the one backslash that may be appended. -/
def PathFits (curdir path : Name) : Prop := (joinedPath curdir path).length + 2 ≤ 1024

/-- All reads and writes stay inside of the arrays, and the string is the path. -/
def PreparesText (curdir : PathBuffer) (path : Name) (full : PathBuffer) : Prop :=
  ∃ stop full', preparePathIn curdir path full = some (stop, full') ∧ full'.Terminated ∧
    (PathFits curdir.text path →
      full'.text = joinedPath curdir.text path ∨
        full'.text = joinedPath curdir.text path ++ [backslash])

/-- No zero byte is in front of the terminator that is appended. -/
def PreparesWhole (curdir : PathBuffer) (path : Name) (full : PathBuffer) : Prop :=
  ∃ stop full', preparePathIn curdir path full = some (stop, full') ∧
    0 ∉ full'.bytes.take stop

/-- Room for the backslash behind the current directory: `strncpy` leaves the last three
bytes as the previous call has left them. -/
def DirectoryFits (curdir full : PathBuffer) : Prop :=
  curdir.text.length ≤ 1020 ∨ full.bytes[1021]? = some 0

/-! ## The scans -/

section Scans

variable {path : Name}

theorem pathByte_of_lt {p : Nat} (h : p < path.length) : pathByte path p = some path[p] := by
  unfold pathByte
  rw [if_neg (by omega), Int.toNat_natCast, List.getElem?_append_left h, List.getElem?_eq_getElem h]

theorem pathByte_end : pathByte path path.length = some 0 := by
  unfold pathByte
  rw [if_neg (by omega), Int.toNat_natCast, List.getElem?_append_right (Nat.le_refl _), Nat.sub_self]
  rfl

/-- The scan from the front stops behind the leading slashes. -/
theorem skipSlashes_front {rest : Name} (front : Name) (h : path = front ++ rest) (rounds : Nat)
    (hrounds : rest.length < rounds) :
    skipSlashes path 1 rounds front.length =
      some ((front.length + (rest.takeWhile isSlash).length : Nat) : Int) := by
  induction rest generalizing front rounds with
  | nil =>
      obtain ⟨rounds, rfl⟩ := Nat.exists_eq_succ_of_ne_zero (Nat.ne_of_gt hrounds)
      rw [List.append_nil] at h
      subst h
      unfold skipSlashes
      rw [pathByte_end]
      rfl
  | cons c rest ih =>
      obtain ⟨rounds, rfl⟩ := Nat.exists_eq_succ_of_ne_zero (Nat.ne_of_gt (Nat.lt_trans (Nat.succ_pos _) hrounds))
      have hlt : front.length < path.length := by
        rw [h, List.length_append, List.length_cons]
        omega
      have hc : path[front.length] = c := by
        subst h
        rw [List.getElem_append_right (Nat.le_refl _)]
        simp
      unfold skipSlashes
      rw [pathByte_of_lt hlt, hc]
      show (if isSlash c then _ else _) = _
      by_cases hslash : isSlash c
      · rw [if_pos hslash, List.takeWhile_cons_of_pos hslash]
        have hnext := ih (front ++ [c]) (by rw [h, List.append_assoc]; rfl) rounds
          (by rw [List.length_cons] at hrounds; omega)
        rw [List.length_append, List.length_singleton, Int.natCast_add] at hnext
        refine hnext.trans (congrArg some ?_)
        rw [List.length_cons]
        omega
      · rw [if_neg hslash, List.takeWhile_cons_of_neg hslash]
        rfl

/-- The scan from the back stops where it starts. -/
theorem skipSlashes_back (rounds : Nat) :
    skipSlashes path (-1) (rounds + 1) path.length = some (path.length : Int) := by
  unfold skipSlashes
  rw [pathByte_end]
  rfl

end Scans

/-! ## The copy -/

section Copy

variable {path rest written old : Name} {full : PathBuffer} {i rounds : Nat}

/-- The loop over what is left of the path and its terminator. -/
theorem copyPath_spec {front : Name} (h : path ++ [0] = front ++ rest) (hrounds : rest.length ≤ rounds)
    (hbytes : full.bytes = written ++ old) (hi : written.length = i) (hfit : i ≤ 1022) :
    ∃ full', copyPath path path.length rounds front.length i full =
        some (i + ((rest.map convertSlash).take (1022 - i)).length, full') ∧
      full'.bytes = written ++ (rest.map convertSlash).take (1022 - i) ++
        old.drop ((rest.map convertSlash).take (1022 - i)).length := by
  induction rest generalizing front written old full i rounds with
  | nil =>
      refine ⟨full, ?_, by simpa using hbytes⟩
      have hend : ¬((front.length : Int) ≤ path.length ∧ i + 2 < 1024) := by
        have hlength := congrArg List.length h
        simp only [List.length_append, List.length_singleton, List.append_nil] at hlength
        omega
      cases rounds with
      | zero => simp [copyPath]
      | succ rounds =>
          unfold copyPath
          rw [if_neg hend]
          simp
  | cons c rest ih =>
      obtain ⟨rounds, rfl⟩ := Nat.exists_eq_succ_of_ne_zero
        (Nat.ne_of_gt (Nat.lt_of_lt_of_le (Nat.succ_pos _) hrounds))
      by_cases hfull : i = 1022
      · subst hfull
        refine ⟨full, ?_, by simpa using hbytes⟩
        simp [copyPath]
      · have hlength := congrArg List.length h
        simp only [List.length_append, List.length_cons, List.length_nil] at hlength
        have hc : pathByte path front.length = some c := by
          unfold pathByte
          rw [if_neg (by omega), Int.toNat_natCast, h, List.getElem?_append_right (Nat.le_refl _),
            Nat.sub_self]
          rfl
        obtain ⟨full₁, hput, hbytes₁⟩ := Buffer.put_append [convertSlash c] hbytes
          (by rw [hi, List.length_singleton]; omega)
        obtain ⟨full', hcopy, hbytes'⟩ := @ih _ _ full₁ (i + 1) rounds (front ++ [c])
          (by rw [h, List.append_assoc]; rfl) (Nat.le_of_succ_le_succ hrounds) hbytes₁
          (by rw [List.length_append, hi]; rfl) (by omega)
        have htake : ((c :: rest).map convertSlash).take (1022 - i) =
            convertSlash c :: (rest.map convertSlash).take (1022 - (i + 1)) := by
          rw [List.map_cons, show 1022 - i = 1022 - (i + 1) + 1 by omega, List.take_succ_cons]
        refine ⟨full', ?_, ?_⟩
        · unfold copyPath
          rw [if_pos ⟨by omega, by omega⟩, hc]
          show (full.put i [convertSlash c] >>= fun full =>
            copyPath path path.length rounds (front.length + 1) (i + 1) full) = _
          rw [← hi, hput, hi]
          show copyPath path path.length rounds (front.length + 1) (i + 1) full₁ = _
          rw [List.length_append, List.length_singleton, Int.natCast_add] at hcopy
          rw [htake, List.length_cons, ← Nat.add_assoc, Nat.add_right_comm]
          exact hcopy
        · rw [hbytes', htake, List.length_singleton, List.drop_drop, List.length_cons, Nat.add_comm 1,
            List.append_assoc written]
          rfl

end Copy

/-! ## The result -/

section Result

variable {curdir full : PathBuffer} {path : Name}

theorem zero_not_mem_joined {s : Name} (hs : 0 ∉ s) : (0 : UInt8) ∉ s ++ [backslash] := by
  intro h
  rcases List.mem_append.mp h with h | h
  · exact hs h
  · exact absurd (List.mem_singleton.mp h) (by decide)

theorem strncpy_directory (curdir full : PathBuffer) : ∃ b, full.strncpy curdir.bytes 1021 = some b ∧
    b.bytes = Buffer.padded 1021 curdir.text ++ full.bytes.drop 1021 :=
  full.strncpy_append (by decide) (Or.inr (by rw [curdir.length_bytes]; decide))

/-- The string that the copy continues. -/
theorem directory_joined (hroom : DirectoryFits curdir full) :
    ∃ full' back, (full.strncpy curdir.bytes 1021 >>= fun full => full.strcat [backslash]) = some full' ∧
      full'.bytes = (curdir.text.take 1021 ++ [backslash]) ++ 0 :: back := by
  obtain ⟨b, hb, hbytes⟩ := strncpy_directory curdir full
  have hterminated : ∃ back, b.bytes = curdir.text.take 1021 ++ 0 :: back := by
    by_cases hshort : curdir.text.length < 1021
    · rw [Buffer.padded_of_lt hshort, List.append_assoc] at hbytes
      rw [List.take_of_length_le (Nat.le_of_lt hshort), hbytes]
      exact ⟨_, rfl⟩
    · have hzero : full.bytes[1021]? = some 0 := hroom.resolve_left (by omega)
      rw [Buffer.padded_of_le (by omega)] at hbytes
      obtain ⟨hlt, hzero⟩ := List.getElem?_eq_some_iff.mp hzero
      rw [hbytes, List.drop_eq_getElem_cons hlt, hzero]
      exact ⟨_, rfl⟩
  obtain ⟨back, hsplit⟩ := hterminated
  have hdir : (0 : UInt8) ∉ curdir.text.take 1021 := fun h => zero_not_mem_textOf (List.mem_of_mem_take h)
  obtain ⟨b', hb', hbytes'⟩ := Buffer.strcat_append [backslash] hsplit hdir
    (by rw [List.length_take, List.length_singleton]; omega)
  refine ⟨b', _, ?_, hbytes'⟩
  rw [hb]
  exact hb'

/-- What stands in front of the backslash that is appended. -/
def preparedBody (curdir path : Name) : Name := (resolve (curdir.take 1021) path ++ [0]).take 1022

theorem preparePathIn_spec (hroom : DirectoryFits curdir full) :
    ∃ full' back, preparePathIn curdir path full =
        some ((preparedBody curdir.text path).length + 1, full') ∧
      full'.bytes = preparedBody curdir.text path ++ backslash :: 0 :: back := by
  obtain ⟨b, old, hjoined, hbytes⟩ := directory_joined hroom
  obtain ⟨b₀, hcopied, hb⟩ := Option.bind_eq_some_iff.mp hjoined
  have hdir : (0 : UInt8) ∉ curdir.text.take 1021 ++ [backslash] :=
    zero_not_mem_joined fun h => zero_not_mem_textOf (List.mem_of_mem_take h)
  have hlength : (curdir.text.take 1021 ++ [backslash]).length ≤ 1022 := by
    rw [List.length_append, List.length_take, List.length_singleton]
    omega
  have hpath : path ++ [0] = path.takeWhile isSlash ++ (path.dropWhile isSlash ++ [0]) := by
    rw [← List.append_assoc, List.takeWhile_append_dropWhile]
  have hfront : skipSlashes path 1 (path.length + 2) 0 = some ((path.takeWhile isSlash).length : Int) := by
    have hscan := @skipSlashes_front path path [] rfl (path.length + 2) (by omega)
    rwa [List.length_nil, Nat.zero_add] at hscan
  obtain ⟨b₁, hcopy, hbytes₁⟩ := @copyPath_spec path _ _ _ b _ (path.length + 2) _ hpath
    (by have := (List.dropWhile_suffix isSlash (l := path)).length_le
        rw [List.length_append, List.length_singleton]
        omega)
    hbytes rfl hlength
  have hbody : curdir.text.take 1021 ++ [backslash] ++ ((path.dropWhile isSlash ++ [0]).map convertSlash).take
      (1022 - (curdir.text.take 1021 ++ [backslash]).length) = preparedBody curdir.text path := by
    unfold preparedBody resolve
    rw [List.append_assoc _ (pathRest path), List.take_append, List.take_of_length_le hlength,
      List.map_append]
    rfl
  rw [hbody] at hbytes₁
  have hstop : (curdir.text.take 1021 ++ [backslash]).length +
      (((path.dropWhile isSlash ++ [0]).map convertSlash).take
        (1022 - (curdir.text.take 1021 ++ [backslash]).length)).length = (preparedBody curdir.text path).length := by
    rw [← List.length_append, hbody]
  rw [hstop] at hcopy
  have hbound : (preparedBody curdir.text path).length ≤ 1022 := List.length_take_le _ _
  obtain ⟨b₂, hput₂, hbytes₂⟩ := Buffer.put_append [backslash] hbytes₁
    (by rw [List.length_singleton]; omega)
  obtain ⟨b₃, hput₃, hbytes₃⟩ := Buffer.put_append [0] hbytes₂
    (by rw [List.length_append, List.length_singleton, List.length_singleton]; omega)
  rw [List.length_append, List.length_singleton] at hput₃
  refine ⟨b₃, _, ?_, by rw [hbytes₃, List.append_assoc, List.append_assoc]; rfl⟩
  unfold preparePathIn
  simp only [hcopied, hb, hfront, skipSlashes_back, Buffer.strlen_append hbytes hdir, hcopy, hput₂,
    hput₃, Option.bind_eq_bind, Option.bind_some, Option.pure_def]

theorem copyPath_full {p p2 : Int} {rounds i : Nat} (h : 1022 ≤ i) :
    copyPath path p2 rounds p i full = some (i, full) := by
  cases rounds with
  | zero => rfl
  | succ rounds =>
      unfold copyPath
      exact if_neg fun hmore => absurd hmore.2 (by omega)

/-- Where the directory does not fit, a byte behind the buffer is written or the search for
the terminator leaves it. -/
theorem preparePathIn_overflow (hroom : ¬DirectoryFits curdir full) :
    preparePathIn curdir path full = none := by
  obtain ⟨hlong, hbehind⟩ := not_or.mp hroom
  obtain ⟨b, hb, hbytes⟩ := strncpy_directory curdir full
  rw [Buffer.padded_of_le (by omega)] at hbytes
  unfold preparePathIn
  rw [hb, Option.bind_eq_bind, Option.bind_some]
  by_cases hterminated : b.Terminated
  · obtain ⟨s, back, hsplit, hs⟩ := hterminated.split
    have hlow : 1022 ≤ s.length := by
      by_contra hlow
      have hzero : b.bytes[s.length]? = some 0 := by
        rw [hsplit, List.getElem?_append_right (Nat.le_refl _), Nat.sub_self]
        rfl
      have hdir : (curdir.text.take 1021).length = 1021 := by
        rw [List.length_take]
        omega
      by_cases hin : s.length < 1021
      · rw [hbytes, List.getElem?_append_left (by omega)] at hzero
        exact zero_not_mem_textOf (List.mem_of_mem_take (List.mem_of_getElem? hzero))
      · have hend : s.length = 1021 := by omega
        rw [hbytes, List.getElem?_append_right (by omega), List.getElem?_drop, hdir, hend] at hzero
        exact hbehind hzero
    have hsize := b.length_bytes
    rw [hsplit, List.length_append, List.length_cons] at hsize
    by_cases hlast : back = []
    · rw [Buffer.strcat_outside hsplit hs (by rw [hlast] at hsize; simpa using hsize.ge)]
      rfl
    · have hpos := List.length_pos_iff.mpr hlast
      obtain ⟨b₁, hb₁, hbytes₁⟩ := Buffer.strcat_append [backslash] hsplit hs
        (by rw [List.length_singleton]; omega)
      have hlen := Buffer.strlen_append hbytes₁ (zero_not_mem_joined hs)
      have hfull : (s ++ [backslash]).length = 1023 := by
        rw [List.length_append, List.length_singleton]
        omega
      rw [hfull] at hlen
      have hfront : ∃ p, skipSlashes path 1 (path.length + 2) 0 = some p :=
        ⟨_, @skipSlashes_front path path [] rfl (path.length + 2) (by omega)⟩
      obtain ⟨p, hp⟩ := hfront
      simp only [hb₁, hp, skipSlashes_back, hlen, copyPath_full (Nat.le_succ 1022), Option.bind_eq_bind,
        Option.bind_some]
      cases hput : b₁.put 1023 [backslash] with
      | none => rfl
      | some b₂ =>
          rw [Option.bind_some, Buffer.put_outside (by decide)]
          rfl
  · have hlen := Buffer.strlen_unterminated hterminated
    unfold Buffer.strcat
    rw [hlen]
    rfl

theorem zero_not_mem_pathRest (h : 0 ∉ path) : (0 : UInt8) ∉ pathRest path := by
  intro hzero
  obtain ⟨c, hc, hconvert⟩ := List.mem_map.mp hzero
  split at hconvert
  · exact absurd hconvert (by decide)
  · exact h ((List.dropWhile_suffix isSlash).subset (hconvert ▸ hc))

theorem zero_not_mem_resolve {dir : Name} (hdir : 0 ∉ dir) (h : 0 ∉ path) : (0 : UInt8) ∉ resolve dir path := by
  intro hzero
  rcases List.mem_append.mp hzero with hzero | hzero
  · exact zero_not_mem_joined hdir hzero
  · exact zero_not_mem_pathRest h hzero

/-- The zero byte is in front of the backslash if there is room for it. -/
theorem preparedBody_cases (dir : Name) :
    (resolve (dir.take 1021) path).length < 1022 ∧
        preparedBody dir path = resolve (dir.take 1021) path ++ [0] ∨
      1022 ≤ (resolve (dir.take 1021) path).length ∧
        preparedBody dir path = (resolve (dir.take 1021) path).take 1022 := by
  unfold preparedBody
  by_cases hfit : (resolve (dir.take 1021) path).length < 1022
  · refine Or.inl ⟨hfit, List.take_of_length_le ?_⟩
    rw [List.length_append, List.length_singleton]
    exact hfit
  · exact Or.inr ⟨Nat.not_lt.mp hfit, List.take_append_of_le_length (Nat.not_lt.mp hfit)⟩

/-- The buffer holds the path that `preparePath` gives. -/
theorem preparePathIn_text (hroom : DirectoryFits curdir full) (h : 0 ∉ path) :
    ∃ stop full', preparePathIn curdir path full = some (stop, full') ∧ full'.Terminated ∧
      full'.text = preparePath curdir.text path ∧
      (0 ∉ full'.bytes.take stop ↔ 1022 ≤ (resolve (curdir.text.take 1021) path).length) := by
  obtain ⟨full', back, hprepare, hbytes⟩ := @preparePathIn_spec curdir full path hroom
  have hnozero : 0 ∉ resolve (curdir.text.take 1021) path :=
    zero_not_mem_resolve (fun hzero => zero_not_mem_textOf (List.mem_of_mem_take hzero)) h
  have htake : full'.bytes.take ((preparedBody curdir.text path).length + 1) =
      preparedBody curdir.text path ++ [backslash] := by
    rw [hbytes, List.take_length_add_append]
    rfl
  refine ⟨_, full', hprepare, ?_, ?_, ?_⟩
  · show 0 ∈ full'.bytes
    rw [hbytes]
    exact List.mem_append_right _ (List.mem_cons_of_mem _ List.mem_cons_self)
  · show textOf full'.bytes = preparePath curdir.text path
    rcases @preparedBody_cases path curdir.text with ⟨hfit, hbody⟩ | ⟨hfit, hbody⟩
    · rw [hbytes, hbody, List.append_assoc]
      exact (textOf_append hnozero).trans (if_pos hfit).symm
    · rw [hbytes, hbody, ← List.singleton_append, ← List.append_assoc]
      have hcut : 0 ∉ (resolve (curdir.text.take 1021) path).take 1022 :=
        fun hzero => hnozero (List.mem_of_mem_take hzero)
      exact (textOf_append (zero_not_mem_joined hcut)).trans (if_neg (Nat.not_lt.mpr hfit)).symm
  · rw [htake]
    rcases @preparedBody_cases path curdir.text with ⟨hfit, hbody⟩ | ⟨hfit, hbody⟩
    · refine iff_of_false (fun hwhole => hwhole ?_) (Nat.not_le.mpr hfit)
      rw [hbody]
      exact List.mem_append_left _ (List.mem_append_right _ (List.mem_singleton_self 0))
    · refine iff_of_true ?_ hfit
      rw [hbody]
      exact zero_not_mem_joined fun hzero => hnozero (List.mem_of_mem_take hzero)

end Result

/-! ## The slashes at the end -/

section Trailing

variable {curdir full : PathBuffer} {path : Name}

theorem convertSlash_of_isSlash {c : UInt8} (h : isSlash c) : convertSlash c = backslash := by
  unfold convertSlash
  split
  · rfl
  · rename_i hslash
    exact (of_decide_eq_true h).resolve_left hslash

theorem pathRest_eq (path : Name) :
    pathRest path = strippedPath path ++ List.replicate (trailingSlashes path) backslash := by
  have hsplit : (path.dropWhile isSlash).rdropWhile isSlash ++ (path.dropWhile isSlash).rtakeWhile isSlash =
      path.dropWhile isSlash := List.rdropWhile_append_rtakeWhile
  have htrailing : ((path.dropWhile isSlash).rtakeWhile isSlash).map convertSlash =
      List.replicate (trailingSlashes path) backslash := by
    refine List.eq_replicate_iff.mpr ⟨List.length_map _, fun b hb => ?_⟩
    obtain ⟨c, hc, rfl⟩ := List.mem_map.mp hb
    exact convertSlash_of_isSlash (List.mem_rtakeWhile_imp hc)
  show (path.dropWhile isSlash).map convertSlash = _
  conv_lhs => rw [← hsplit]
  rw [List.map_append, htrailing]
  rfl

theorem resolve_eq (dir path : Name) :
    resolve dir path = joinedPath dir path ++ List.replicate (trailingSlashes path) backslash := by
  unfold resolve joinedPath
  rw [pathRest_eq, List.append_assoc _ (strippedPath path)]

/-- The path keeps the slashes at its end, so there may be one at most. -/
theorem preparePath_joined_iff {dir : Name} (hfits : PathFits dir path) :
    preparePath dir path = joinedPath dir path ∨
        preparePath dir path = joinedPath dir path ++ [backslash] ↔
      ((joinedPath dir path).length < 1022 →
        trailingSlashes path ≤ 1 ∧ (joinedPath dir path).length + trailingSlashes path < 1022) := by
  unfold PathFits at hfits
  have hdir : dir.length ≤ 1021 := by
    simp only [joinedPath, List.length_append, List.length_singleton] at hfits
    omega
  have hprepare : preparePath dir path =
      if (joinedPath dir path).length + trailingSlashes path < 1022 then
        joinedPath dir path ++ List.replicate (trailingSlashes path) backslash
      else (joinedPath dir path ++ List.replicate (trailingSlashes path) backslash).take 1022 ++ [backslash] := by
    show (if (resolve (dir.take 1021) path).length < 1022 then resolve (dir.take 1021) path
      else (resolve (dir.take 1021) path).take 1022 ++ [backslash]) = _
    rw [List.take_of_length_le hdir, resolve_eq, List.length_append, List.length_replicate]
  rw [hprepare]
  by_cases hfull : (joinedPath dir path).length = 1022
  · refine iff_of_true (Or.inr ?_) fun hless => absurd hfull (Nat.ne_of_lt hless)
    rw [if_neg (by omega), ← hfull, List.take_left]
  · have hless : (joinedPath dir path).length < 1022 := by omega
    refine Iff.trans ⟨fun h => ?_, ?_⟩ (forall_prop_of_true hless).symm
    · by_cases hroom : (joinedPath dir path).length + trailingSlashes path < 1022
      · refine ⟨?_, hroom⟩
        rw [if_pos hroom] at h
        rcases h with h | h
        · have hlength := congrArg List.length h
          rw [List.length_append, List.length_replicate] at hlength
          omega
        · have hlength := congrArg List.length h
          rw [List.length_append, List.length_replicate, List.length_append, List.length_singleton] at hlength
          omega
      · rw [if_neg hroom] at h
        rcases h with h | h
        · have hlength := congrArg List.length h
          rw [List.length_append, List.length_take, List.length_append, List.length_replicate,
            List.length_singleton] at hlength
          omega
        · have hlength := congrArg List.length h
          simp only [List.length_append, List.length_take, List.length_replicate, List.length_singleton] at hlength
          omega
    · rintro ⟨hone, hroom⟩
      rw [if_pos hroom]
      obtain hnone | hone : trailingSlashes path = 0 ∨ trailingSlashes path = 1 := by omega
      · rw [hnone]
        exact Or.inl (List.append_nil _)
      · rw [hone]
        exact Or.inr rfl

theorem preparesText_iff (h : 0 ∉ path) : PreparesText curdir path full ↔
    DirectoryFits curdir full ∧ ((joinedPath curdir.text path).length < 1022 →
      trailingSlashes path ≤ 1 ∧ (joinedPath curdir.text path).length + trailingSlashes path < 1022) := by
  by_cases hroom : DirectoryFits curdir full
  · obtain ⟨stop, full', hprepare, hterminated, htext, -⟩ := preparePathIn_text hroom h
    refine Iff.trans ?_ (and_iff_right hroom).symm
    constructor
    · rintro ⟨stop', full'', hprepare', -, hjoined⟩ hless
      rw [hprepare] at hprepare'
      cases hprepare'
      have hfits : PathFits curdir.text path := by
        unfold PathFits
        omega
      rw [htext] at hjoined
      exact (preparePath_joined_iff hfits).mp (hjoined hfits) hless
    · intro hclean
      refine ⟨stop, full', hprepare, hterminated, fun hfits => ?_⟩
      rw [htext]
      exact (preparePath_joined_iff hfits).mpr hclean
  · refine iff_of_false ?_ fun hcond => hroom hcond.1
    rintro ⟨stop, full', hprepare, -⟩
    rw [preparePathIn_overflow hroom] at hprepare
    cases hprepare

theorem preparesWhole_iff (h : 0 ∉ path) : PreparesWhole curdir path full ↔
    DirectoryFits curdir full ∧ 1022 ≤ (resolve (curdir.text.take 1021) path).length := by
  by_cases hroom : DirectoryFits curdir full
  · obtain ⟨stop, full', hprepare, -, -, hwhole⟩ := preparePathIn_text hroom h
    refine Iff.trans ?_ (and_iff_right hroom).symm
    rw [← hwhole]
    constructor
    · rintro ⟨stop', full'', hprepare', hclean⟩
      rw [hprepare] at hprepare'
      cases hprepare'
      exact hclean
    · exact fun hclean => ⟨stop, full', hprepare, hclean⟩
  · refine iff_of_false ?_ fun hcond => hroom hcond.1
    rintro ⟨stop, full', hprepare, -⟩
    rw [preparePathIn_overflow hroom] at hprepare
    cases hprepare

/-- Without the slashes at its end the path fills the buffer if there is no room for the
terminator in the copy. -/
theorem joinedPath_full_iff (dir : Name) : 1022 ≤ (joinedPath dir path).length ↔
    ((joinedPath dir path).length < 1022 →
        trailingSlashes path ≤ 1 ∧ (joinedPath dir path).length + trailingSlashes path < 1022) ∧
      1022 ≤ (resolve (dir.take 1021) path).length := by
  by_cases hdir : dir.length ≤ 1021
  · rw [List.take_of_length_le hdir, resolve_eq, List.length_append, List.length_replicate]
    omega
  · have hlong : 1022 ≤ (joinedPath dir path).length := by
      simp only [joinedPath, List.length_append]
      omega
    have hlong' : 1022 ≤ (resolve (dir.take 1021) path).length := by
      simp only [resolve, List.length_append, List.length_take, List.length_singleton]
      omega
    exact iff_of_true hlong ⟨fun hless => absurd hlong (Nat.not_le.mpr hless), hlong'⟩

/-- The string alone is the path if it does not end in several slashes. A zero byte is
inside whenever there is room for the backslash behind the path. -/
theorem prepare_path_iff (curdir full : PathBuffer) {path : Name} (h : 0 ∉ path) :
    (PreparesText curdir path full ∧ PreparesWhole curdir path full ↔
      DirectoryFits curdir full ∧ 1022 ≤ (joinedPath curdir.text path).length) ∧
    (PreparesText curdir path full ↔
      DirectoryFits curdir full ∧ ((joinedPath curdir.text path).length < 1022 →
        trailingSlashes path ≤ 1 ∧ (joinedPath curdir.text path).length + trailingSlashes path < 1022)) := by
  refine ⟨?_, preparesText_iff h⟩
  rw [preparesText_iff h, preparesWhole_iff h, joinedPath_full_iff, and_and_and_comm, and_self_iff]

theorem text_cleared (size : Nat) : (Buffer.cleared size).text = [] := by
  cases size with
  | zero => rfl
  | succ size => simp [Buffer.text, Buffer.cleared, textOf, List.replicate_succ]

/-- A name in the topmost directory: the string is right, and a zero byte is inside. -/
theorem prepare_path_letter :
    PreparesText (Buffer.cleared 1024) [0x61] (Buffer.cleared 1024) ∧
      ¬(PreparesText (Buffer.cleared 1024) [0x61] (Buffer.cleared 1024) ∧
        PreparesWhole (Buffer.cleared 1024) [0x61] (Buffer.cleared 1024)) := by
  have hiff := @prepare_path_iff (Buffer.cleared 1024) (Buffer.cleared 1024) [0x61] (by simp)
  rw [text_cleared] at hiff
  refine ⟨hiff.2.mpr ⟨Or.inl ?_, fun _ => by decide⟩, fun hboth => ?_⟩
  · rw [text_cleared]
    decide
  · exact absurd (hiff.1.mp hboth).2 (by decide)

/-- Two slashes at the end: they are both in the string. -/
theorem prepare_path_keeps_slashes :
    ¬PreparesText (Buffer.cleared 1024) [0x61, 0x2f, 0x2f] (Buffer.cleared 1024) ∧
      ¬PreparesWhole (Buffer.cleared 1024) [0x61, 0x2f, 0x2f] (Buffer.cleared 1024) := by
  have hpath : (0 : UInt8) ∉ [0x61, 0x2f, 0x2f] := by simp
  refine ⟨fun htext => ?_, fun hwhole => ?_⟩
  · have hclean := ((preparesText_iff hpath).mp htext).2
    rw [text_cleared] at hclean
    exact absurd (hclean (by decide)).1 (by decide)
  · have hfull := ((preparesWhole_iff hpath).mp hwhole).2
    rw [text_cleared] at hfull
    exact absurd hfull (by decide)

end Trailing

end BdmAssault.Smb.Driver
