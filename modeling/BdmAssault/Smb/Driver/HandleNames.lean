import BdmAssault.Smb.Driver.PreparedPath

/-! # The names of open handles

What `smb_open` and `smb_dopen` of `smb_fio.c` store in the 256 bytes that a handle has for
its name, in the slot that they take.
-/

namespace BdmAssault.Smb.Driver

open Lib

/-- `FHANDLE` with the array for its name, of `SMB_NAME_MAX` bytes. -/
structure FHandle where
  used : Bool
  fid : Option Nat
  filesize : Nat
  position : Int
  mode : OpenMode
  name : Buffer 256

/-- What `prepare_path` returns: a string with a backslash in it. -/
structure FullPath where
  buffer : PathBuffer
  terminated : buffer.Terminated
  text_ne_nil : buffer.text ≠ []

def FullPath.text (p : FullPath) : Name := p.buffer.text

theorem preparePath_ne_nil (dir path : Name) : preparePath dir path ≠ [] := by
  have hne : ∀ dir, resolve dir path ≠ [] := fun dir => by simp [resolve]
  show (if _ then _ else _) ≠ []
  split
  · exact hne _
  · simp

/-- Every prepared path is one. -/
theorem preparePathIn_fullPath {curdir full : PathBuffer} {path : Name}
    (hroom : DirectoryFits curdir full) (h : 0 ∉ path) :
    ∃ (stop : Nat) (p : FullPath), preparePathIn curdir path full = some (stop, p.buffer) ∧
      p.text = preparePath curdir.text path := by
  obtain ⟨stop, full', hprepare, hterminated, htext, -⟩ := preparePathIn_text hroom h
  exact ⟨stop, ⟨full', hterminated, htext ▸ preparePath_ne_nil _ _⟩, hprepare, htext⟩

/-- `smbman_getfilefreeslot` -/
def freeSlotIn (slots : List FHandle) : Option Nat := slots.findIdx? fun h => !h.used

/-- `smb_open` under the lock; `opened` is what `smb_OpenAndX` gives. -/
def smbOpenIn (mode : OpenMode) (path : FullPath) (opened : Except Errno (Nat × Nat))
    (slots : List FHandle) : Option (Except Errno Nat × List FHandle) :=
  match freeSlotIn slots with
  | none => some (.error .emfile, slots)
  | some fh =>
      match opened with
      | .error e => some (.error e, slots)
      | .ok (fid, filesize) => do
          let h ← slots[fh]?
          let name ← h.name.strncpy path.buffer.bytes 256
          return (.ok fh, slots.set fh
            { used := true
              fid := some fid
              filesize := if mode.truncate then 0 else filesize
              position := if mode.append ∧ mode.truncate = false then filesize else 0
              mode := mode
              name := name })

/-- The two statements of `smb_dopen` behind the copy of the path. -/
def appendStar (name : Buffer 256) : Option (Buffer 256) := do
  let n ← name.strlen
  let last ← if n = 0 then none else name.bytes[n - 1]?
  let name ← if last = backslash then some name else name.strcat [backslash]
  name.strcat [0x2a]

/-- `smb_dopen` under the lock; `info` is what `smb_QueryPathInformation` gives. -/
def smbDopenIn (path : FullPath) (info : Except Errno PathInformation) (slots : List FHandle) :
    Option (Except Errno Nat × List FHandle) :=
  match info with
  | .error e => some (.error e, slots)
  | .ok info =>
      if info.directory then
        match freeSlotIn slots with
        | none => some (.error .emfile, slots)
        | some fh => do
            let h ← slots[fh]?
            let name ← h.name.strncpy path.buffer.bytes 255
            let name ← appendStar name
            return (.ok fh, slots.set fh
              { h with used := true, filesize := 0, position := 0, mode := dirOpen, name := name })
      else some (.error .enotdir, slots)

/-- The directory without the backslashes at its end, a backslash, and the star. -/
def patternOf (path : Name) : Name := path.rdropWhile (· = backslash) ++ [backslash, 0x2a]

/-- How many backslashes stand at the end of the path. -/
def endBackslashes (path : Name) : Nat := (path.rtakeWhile (· = backslash)).length

/-- The call has failed, or the slot that it took has the name and the others are as they
were. Nothing outside of the name is written. -/
def Stores (slots : List FHandle) (expected : Name) : Option (Except Errno Nat × List FHandle) → Prop
  | none => False
  | some (.error _, slots') => slots' = slots
  | some (.ok fh, slots') =>
      (∃ h, slots'[fh]? = some h ∧ h.name.Terminated ∧ h.name.text = expected) ∧
        ∀ i, i ≠ fh → slots'[i]? = slots[i]?

def OpenAccepted (slots : List FHandle) (opened : Except Errno (Nat × Nat)) : Prop :=
  (freeSlotIn slots).isSome ∧ opened.isOk

def DopenAccepted (slots : List FHandle) (info : Except Errno PathInformation) : Prop :=
  (freeSlotIn slots).isSome ∧ ∃ i, info = .ok i ∧ i.directory = true

section Names

variable {path : FullPath} {name : Buffer 256} {slots : List FHandle} {mode : OpenMode}
  {opened : Except Errno (Nat × Nat)} {info : Except Errno PathInformation}

theorem freeSlotIn_lt {fh : Nat} (h : freeSlotIn slots = some fh) : fh < slots.length :=
  (List.findIdx?_eq_some_iff_getElem.mp h).1

theorem FullPath.zero_not_mem : (0 : UInt8) ∉ path.text := zero_not_mem_textOf

/-- `strncpy` of the path in front of the last bytes of the name. -/
theorem strncpy_name (path : FullPath) (name : Buffer 256) {n : Nat} (hn : n ≤ 256) : ∃ name', name.strncpy path.buffer.bytes n = some name' ∧
    name'.bytes = Buffer.padded n path.text ++ name.bytes.drop n :=
  name.strncpy_append hn (Or.inl path.terminated)

/-- The name has a terminator if the path leaves a byte for it. -/
theorem open_name (path : FullPath) (name : Buffer 256) : ∃ name', name.strncpy path.buffer.bytes 256 = some name' ∧
    (name'.Terminated ∧ name'.text = path.text ↔ path.text.length ≤ 255) := by
  obtain ⟨name', hname', hbytes⟩ := strncpy_name path name (Nat.le_refl 256)
  rw [List.drop_eq_nil_of_le (Nat.le_of_eq name.length_bytes), List.append_nil] at hbytes
  refine ⟨name', hname', ?_⟩
  by_cases hfit : path.text.length < 256
  · rw [Buffer.padded_of_lt hfit] at hbytes
    refine iff_of_true ⟨?_, ?_⟩ (Nat.le_of_lt_succ hfit)
    · show 0 ∈ name'.bytes
      rw [hbytes]
      exact List.mem_append_right _ List.mem_cons_self
    · show textOf name'.bytes = path.text
      rw [hbytes, textOf_append path.zero_not_mem]
  · rw [Buffer.padded_of_le (Nat.not_lt.mp hfit)] at hbytes
    refine iff_of_false (fun h => ?_) (by omega)
    have hzero : (0 : UInt8) ∈ name'.bytes := h.1
    rw [hbytes] at hzero
    exact path.zero_not_mem (List.mem_of_mem_take hzero)

/-- What is appended to a name. -/
def starOf (q : Name) : Name := if q.getLast? = some backslash then [0x2a] else [backslash, 0x2a]

theorem starOf_pos (q : Name) : 1 ≤ (starOf q).length := by
  unfold starOf
  split
  · decide
  · decide

section Star

variable {q back : Name}

theorem zero_not_mem_starred (hq : 0 ∉ q) : (0 : UInt8) ∉ q ++ starOf q := by
  intro h
  rcases List.mem_append.mp h with h | h
  · exact hq h
  · unfold starOf at h
    split at h
    · exact absurd h (by simp)
    · exact absurd h (by simp [backslash])

/-- The byte that `smb_dopen` looks at is the last one of the string. -/
theorem appendStar_eq (h : name.bytes = q ++ 0 :: back) (hq : 0 ∉ q) (hne : q ≠ []) :
    appendStar name = (if q.getLast? = some backslash then some name else name.strcat [backslash]) >>=
      fun name => name.strcat [0x2a] := by
  have hlen : q.length ≠ 0 := fun hzero => hne (List.eq_nil_of_length_eq_zero hzero)
  have hlast : name.bytes[q.length - 1]? = q.getLast? := by
    rw [h, List.getElem?_append_left (by omega), List.getLast?_eq_getElem?]
  have hc : q.getLast? = some (q.getLast hne) := List.getLast?_eq_some_getLast hne
  unfold appendStar
  rw [Buffer.strlen_append h hq, Option.bind_eq_bind, Option.bind_some, if_neg hlen, hlast, hc]
  show (if q.getLast hne = backslash then some name >>= _ else name.strcat [backslash] >>= _) = _
  by_cases hslash : q.getLast hne = backslash
  · rw [if_pos hslash, if_pos (congrArg some hslash)]
  · rw [if_neg hslash, if_neg fun h => hslash (Option.some.inj h)]

theorem appendStar_spec (h : name.bytes = q ++ 0 :: back) (hq : 0 ∉ q) (hne : q ≠ [])
    (hfit : (q ++ starOf q).length < 256) :
    ∃ name', appendStar name = some name' ∧ name'.Terminated ∧ name'.text = q ++ starOf q := by
  rw [List.length_append] at hfit
  have hresult : ∃ name' rest, appendStar name = some name' ∧ name'.bytes = q ++ starOf q ++ 0 :: rest := by
    rw [appendStar_eq h hq hne]
    unfold starOf at hfit ⊢
    by_cases hlast : q.getLast? = some backslash
    · rw [if_pos hlast] at hfit
      rw [if_pos hlast, if_pos hlast]
      obtain ⟨b, hb, hbytes⟩ := Buffer.strcat_append [0x2a] h hq hfit
      exact ⟨b, _, hb, hbytes⟩
    · rw [if_neg hlast] at hfit
      rw [if_neg hlast, if_neg hlast]
      have hroom : q.length + 2 < 256 := hfit
      obtain ⟨b, hb, hbytes⟩ := Buffer.strcat_append [backslash] h hq
        (by rw [List.length_singleton]; omega)
      obtain ⟨b', hb', hbytes'⟩ := Buffer.strcat_append [0x2a] hbytes (zero_not_mem_joined hq)
        (by rw [List.length_append, List.length_singleton, List.length_singleton]; omega)
      refine ⟨b', _, ?_, by rw [hbytes', List.append_assoc q]; rfl⟩
      rw [hb]
      exact hb'
  obtain ⟨name', rest, hname', hbytes⟩ := hresult
  refine ⟨name', hname', ?_, ?_⟩
  · show 0 ∈ name'.bytes
    rw [hbytes]
    exact List.mem_append_right _ List.mem_cons_self
  · show textOf name'.bytes = _
    rw [hbytes, textOf_append (zero_not_mem_starred hq)]

/-- The star or its terminator is written behind the name. -/
theorem appendStar_outside (h : name.bytes = q ++ 0 :: back) (hq : 0 ∉ q) (hne : q ≠ [])
    (hfull : 256 ≤ (q ++ starOf q).length) : appendStar name = none := by
  rw [appendStar_eq h hq hne]
  rw [List.length_append] at hfull
  unfold starOf at hfull
  by_cases hlast : q.getLast? = some backslash
  · rw [if_pos hlast] at hfull
    rw [if_pos hlast]
    exact Buffer.strcat_outside h hq hfull
  · rw [if_neg hlast] at hfull
    rw [if_neg hlast]
    by_cases hone : 256 ≤ q.length + 1
    · rw [Buffer.strcat_outside (t := [backslash]) h hq hone]
      rfl
    · obtain ⟨b, hb, hbytes⟩ := Buffer.strcat_append [backslash] h hq
        (by rw [List.length_singleton]; omega)
      rw [hb]
      refine Buffer.strcat_outside hbytes (zero_not_mem_joined hq) ?_
      rw [List.length_append, List.length_singleton]
      exact hfull

end Star

/-! ## The pattern of a directory -/

theorem path_split (p : Name) :
    p = p.rdropWhile (· = backslash) ++ List.replicate (endBackslashes p) backslash := by
  have hsplit : p.rdropWhile (· = backslash) ++ p.rtakeWhile (· = backslash) = p :=
    List.rdropWhile_append_rtakeWhile
  have htail : p.rtakeWhile (· = backslash) = List.replicate (endBackslashes p) backslash := by
    refine List.eq_replicate_iff.mpr ⟨rfl, fun b hb => ?_⟩
    have hslash := List.mem_rtakeWhile_imp hb
    exact of_decide_eq_true hslash
  rw [← htail]
  exact hsplit.symm

theorem getLast_backslash_iff {p : Name} : p.getLast? = some backslash ↔ 1 ≤ endBackslashes p := by
  by_cases hp : p = []
  · subst hp
    exact iff_of_false nofun (by decide)
  · have hnil : p.rtakeWhile (· = backslash) = [] ↔ ¬p.getLast hp = backslash := by
      rw [List.rtakeWhile_eq_nil_iff, forall_prop_of_true hp, decide_eq_true_iff]
    unfold endBackslashes
    rw [List.getLast?_eq_some_getLast hp, Option.some.injEq, Nat.one_le_iff_ne_zero, ne_eq,
      List.length_eq_zero_iff, hnil, not_not]

/-- Only a path that ends in several backslashes is not completed to its pattern. -/
theorem starred_iff {p : Name} : p ++ starOf p = patternOf p ↔ endBackslashes p ≤ 1 := by
  have hsplit := path_split p
  unfold starOf patternOf
  by_cases hnone : 1 ≤ endBackslashes p
  · rw [if_pos (getLast_backslash_iff.mpr hnone)]
    constructor
    · intro h
      have hlength := congrArg List.length h
      have hp := congrArg List.length hsplit
      simp only [List.length_append, List.length_replicate, List.length_cons, List.length_nil] at hlength hp
      omega
    · intro hone
      conv_lhs => rw [hsplit]
      rw [show endBackslashes p = 1 by omega, List.append_assoc]
      rfl
  · rw [if_neg fun h => hnone (getLast_backslash_iff.mp h)]
    refine iff_of_true ?_ (by omega)
    rw [show endBackslashes p = 0 by omega, List.replicate_zero, List.append_nil] at hsplit
    rw [← hsplit]

theorem dopen_name (path : FullPath) (name : Buffer 256) : (∃ name', (name.strncpy path.buffer.bytes 255 >>= appendStar) = some name' ∧
      name'.Terminated ∧ name'.text = patternOf path.text) ↔
    endBackslashes path.text ≤ 1 ∧ (patternOf path.text).length ≤ 255 := by
  obtain ⟨b, hb, hbytes⟩ := strncpy_name path name (Nat.le_succ 255)
  rw [hb, Option.bind_eq_bind, Option.bind_some]
  by_cases hfit : path.text.length < 255 ∧ (path.text ++ starOf path.text).length < 256
  · rw [Buffer.padded_of_lt hfit.1, List.append_assoc, List.cons_append] at hbytes
    obtain ⟨name', hname', hterminated, htext⟩ := appendStar_spec hbytes path.zero_not_mem path.text_ne_nil hfit.2
    constructor
    · rintro ⟨name'', hname'', -, htext'⟩
      rw [hname'] at hname''
      cases hname''
      have heq := htext.symm.trans htext'
      exact ⟨starred_iff.mp heq, Nat.le_of_lt_succ (heq ▸ hfit.2)⟩
    · rintro ⟨hone, -⟩
      exact ⟨name', hname', hterminated, htext.trans (starred_iff.mpr hone)⟩
  · have hnone : appendStar b = none := by
      by_cases hshort : path.text.length < 255
      · rw [Buffer.padded_of_lt hshort, List.append_assoc, List.cons_append] at hbytes
        exact appendStar_outside hbytes path.zero_not_mem path.text_ne_nil (by omega)
      · rw [Buffer.padded_of_le (Nat.not_lt.mp hshort)] at hbytes
        have hcut : (0 : UInt8) ∉ path.text.take 255 := fun h => path.zero_not_mem (List.mem_of_mem_take h)
        have hlength : (path.text.take 255).length = 255 := by
          rw [List.length_take]
          omega
        obtain ⟨y, hlast⟩ : ∃ y, name.bytes.drop 255 = [y] :=
          List.length_eq_one_iff.mp (by rw [List.length_drop, name.length_bytes])
        rw [hlast] at hbytes
        by_cases hy : y = 0
        · subst hy
          refine appendStar_outside hbytes hcut ?_ ?_
          · exact fun h => absurd (h ▸ hlength) (by decide)
          · rw [List.length_append, hlength]
            have hstar := starOf_pos (path.text.take 255)
            omega
        · have hopen : ¬b.Terminated := by
            show (0 : UInt8) ∉ b.bytes
            rw [hbytes]
            intro h
            rcases List.mem_append.mp h with h | h
            · exact hcut h
            · exact hy (List.mem_singleton.mp h).symm
          unfold appendStar
          rw [Buffer.strlen_unterminated hopen]
          rfl
    refine iff_of_false ?_ ?_
    · rintro ⟨name', hname', -⟩
      rw [hnone] at hname'
      cases hname'
    · rintro ⟨hone, hlength⟩
      rw [← starred_iff.mpr hone] at hlength
      refine hfit ⟨?_, Nat.lt_succ_of_le hlength⟩
      rw [List.length_append] at hlength
      have hstar := starOf_pos path.text
      omega

/-! ## Both operations -/

theorem stores_set {fh : Nat} {h : FHandle} {expected : Name} (hfh : fh < slots.length) :
    Stores slots expected (some (.ok fh, slots.set fh h)) ↔ h.name.Terminated ∧ h.name.text = expected := by
  have hset : (slots.set fh h)[fh]? = some h := List.getElem?_set_self hfh
  constructor
  · rintro ⟨⟨h', hh', hname⟩, -⟩
    rw [hset] at hh'
    cases hh'
    exact hname
  · intro hname
    exact ⟨⟨h, hset, hname⟩, fun i hi => List.getElem?_set_ne (Ne.symm hi)⟩

theorem open_stores_iff : Stores slots path.text (smbOpenIn mode path opened slots) ↔
    (OpenAccepted slots opened → path.text.length ≤ 255) := by
  unfold smbOpenIn
  cases hfree : freeSlotIn slots with
  | none =>
      refine iff_of_true rfl fun haccepted => ?_
      rw [OpenAccepted, hfree] at haccepted
      cases haccepted.1
  | some fh =>
      have hfh := freeSlotIn_lt hfree
      cases opened with
      | error e => exact iff_of_true rfl fun haccepted => nomatch haccepted.2
      | ok r =>
          obtain ⟨name', hname', hiff⟩ := open_name path slots[fh].name
          rw [forall_prop_of_true ⟨hfree ▸ rfl, rfl⟩, ← hiff]
          dsimp only
          rw [List.getElem?_eq_getElem hfh, Option.bind_eq_bind, Option.bind_some, hname']
          exact stores_set hfh

theorem dopen_stores_iff : Stores slots (patternOf path.text) (smbDopenIn path info slots) ↔
    (DopenAccepted slots info → endBackslashes path.text ≤ 1 ∧ (patternOf path.text).length ≤ 255) := by
  unfold smbDopenIn
  cases info with
  | error e =>
      refine iff_of_true rfl ?_
      rintro ⟨-, i, hinfo, -⟩
      cases hinfo
  | ok info =>
      dsimp only
      by_cases hdir : info.directory = true
      · rw [if_pos hdir]
        cases hfree : freeSlotIn slots with
        | none =>
            refine iff_of_true rfl fun haccepted => ?_
            rw [DopenAccepted, hfree] at haccepted
            cases haccepted.1
        | some fh =>
            have hfh := freeSlotIn_lt hfree
            rw [forall_prop_of_true ⟨hfree ▸ rfl, info, rfl, hdir⟩,
              ← dopen_name path slots[fh].name]
            dsimp only
            rw [List.getElem?_eq_getElem hfh, Option.bind_eq_bind, Option.bind_some, ← bind_assoc]
            cases hname : slots[fh].name.strncpy path.buffer.bytes 255 >>= appendStar with
            | none => exact iff_of_false id nofun
            | some name' =>
                refine (stores_set hfh).trans ⟨fun h => ⟨name', rfl, h⟩, ?_⟩
                rintro ⟨name'', hname'', h⟩
                cases hname''
                exact h
      · rw [if_neg hdir]
        refine iff_of_true rfl ?_
        rintro ⟨-, i, hinfo, hdir'⟩
        cases hinfo
        exact absurd hdir' hdir

/-- The strings of the handles in the model of the operations. -/
theorem handleName_eq {p : Name} (h : p.length ≤ 255) : handleName p = p :=
  List.take_of_length_le (Nat.le_succ_of_le h)

theorem searchPattern_eq {p : Name} (hone : endBackslashes p ≤ 1) (h : (patternOf p).length ≤ 255) :
    searchPattern p = patternOf p := by
  rw [← starred_iff.mpr hone] at h ⊢
  have hlength : p.length ≤ 255 := by
    rw [List.length_append] at h
    omega
  unfold searchPattern starOf
  rw [List.take_of_length_le hlength]
  dsimp only
  split
  · rfl
  · exact List.append_assoc p [backslash] [0x2a]

end Names

/-- The name of a file needs a byte for its terminator, the name of a directory also the
two of the pattern; a second backslash at its end stays. -/
theorem handle_names_iff (slots : List FHandle) (path : FullPath) (mode : OpenMode)
    (opened : Except Errno (Nat × Nat)) (info : Except Errno PathInformation) :
    (Stores slots path.text (smbOpenIn mode path opened slots) ↔
      (OpenAccepted slots opened → path.text.length ≤ 255)) ∧
    (Stores slots (patternOf path.text) (smbDopenIn path info slots) ↔
      (DopenAccepted slots info →
        endBackslashes path.text ≤ 1 ∧ (patternOf path.text).length ≤ 255)) :=
  ⟨open_stores_iff, dopen_stores_iff⟩

/-! ## A long name -/

/-- The buffer with a path in it. -/
def FullPath.of (p : Name) (h : 0 ∉ p) (hne : p ≠ []) (hlength : p.length < 1024) : FullPath where
  buffer := ⟨p ++ 0 :: List.replicate (1023 - p.length) 0, by
    rw [List.length_append, List.length_cons, List.length_replicate]
    omega⟩
  terminated := List.mem_append_right p List.mem_cons_self
  text_ne_nil := by
    rw [Buffer.text, textOf_append h]
    exact hne

theorem FullPath.of_text {p : Name} (h : 0 ∉ p) (hne : p ≠ []) (hlength : p.length < 1024) :
    (FullPath.of p h hne hlength).text = p := textOf_append h

def longName : Name := backslash :: List.replicate 255 0x61

theorem length_longName : longName.length = 256 := by
  rw [longName, List.length_cons, List.length_replicate]

theorem zero_not_mem_longName : 0 ∉ longName := by
  intro h
  rcases List.mem_cons.mp h with h | h
  · exact absurd h (by decide)
  · exact absurd (List.eq_of_mem_replicate h) (by decide)

def longPath : FullPath :=
  FullPath.of longName zero_not_mem_longName nofun (length_longName ▸ Nat.lt_of_sub_ne_zero nofun)

def emptySlot : FHandle := ⟨false, none, 0, 0, dirOpen, Buffer.cleared 256⟩

/-- A path of 256 bytes leaves no terminator in the name of a file, and the pattern of a
directory is written beyond it. -/
theorem long_name_not_stored :
    ¬Stores [emptySlot] longPath.text (smbOpenIn dirOpen longPath (.ok (1, 0)) [emptySlot]) ∧
      ¬Stores [emptySlot] (patternOf longPath.text) (smbDopenIn longPath (.ok ⟨true, 0⟩) [emptySlot]) := by
  have htext : longPath.text = longName := FullPath.of_text _ _ _
  have hopen : OpenAccepted [emptySlot] (.ok (1, 0)) := ⟨rfl, rfl⟩
  have hdopen : DopenAccepted [emptySlot] (.ok ⟨true, 0⟩) := ⟨rfl, _, rfl, rfl⟩
  constructor
  · rw [open_stores_iff, htext, length_longName]
    exact fun hfits => absurd (hfits hopen) (by decide)
  · rw [dopen_stores_iff]
    intro hfits
    obtain ⟨hone, hlength⟩ := hfits hdopen
    rw [← starred_iff.mpr hone, List.length_append, htext, length_longName] at hlength
    omega

end BdmAssault.Smb.Driver
