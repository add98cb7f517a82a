import BdmAssault.Smb.Commands

/-! # Offsets and lengths chosen by the server

What four functions of `smb.c` do with a reply in `SMB_buf`: every read at a position
that a field of the reply gives is checked against the received packet, and every copy
against its destination. Fields at fixed positions are read as they are.
-/

namespace BdmAssault.Smb

/-! ## Checked reads -/

/-- A read outside the packet, or a copy beyond the end of its destination. -/
inductive Fault where
  | read
  | copy
deriving DecidableEq, Repr

/-- `SMB_buf` after a reply of `size` bytes behind the session header. -/
structure Packet where
  buf : Nat → UInt8
  size : Nat

namespace Packet

def byte (p : Packet) (i : Nat) : UInt8 := p.buf (4 + i)

def word (p : Packet) (i : Nat) : Nat := word16 p.buf (4 + i)

/-- The `len` bytes from `pos` on are read. -/
def read (p : Packet) (pos len : Nat) : Except Fault Unit :=
  if len = 0 ∨ pos + len ≤ p.size then .ok () else .error .read

def bytes (p : Packet) (pos len : Nat) : List UInt8 :=
  (List.range len).map fun i => p.byte (pos + i)

/-- A byte, or a code unit of two bytes. -/
def unit (p : Packet) (width i : Nat) : Nat := if width = 1 then (p.byte i).toNat else p.word i

/-- The number of units in front of the first zero, of at most `limit`. -/
def scan (p : Packet) (width : Nat) : Nat → Nat → Except Fault Nat
  | 0, _ => return 0
  | limit + 1, pos => do
      p.read pos width
      if p.unit width pos = 0 then return 0 else return (← p.scan width limit (pos + width)) + 1

/-- A string that is not ended by a zero runs beyond the packet. -/
def strlen (p : Packet) (pos : Nat) : Except Fault Nat := p.scan 1 (p.size + 1) pos

end Packet

/-- `len` bytes go to a destination of `capacity` bytes. -/
def copyTo (capacity len : Nat) : Except Fault Unit :=
  if len ≤ capacity then .ok () else .error .copy

/-! ## Strings -/

/-- The bytes `utf16ToAscii` writes for one code unit. -/
def utf8 (wc : Nat) : List UInt8 :=
  if wc < 0x80 then [UInt8.ofNat wc]
  else if wc < 0x800 then [UInt8.ofNat (0xc0 + wc / 64), UInt8.ofNat (0x80 + wc % 64)]
  else [UInt8.ofNat (0xe0 + wc / 4096), UInt8.ofNat (0x80 + wc / 64 % 64),
    UInt8.ofNat (0x80 + wc % 64)]

/-- `utf16ToAscii` of at most so many code units. -/
def utf16ToAscii (p : Packet) (units pos : Nat) : Except Fault (List UInt8) := do
  let n ← p.scan 2 units pos
  return (List.range n).flatMap fun i => utf8 (p.word (pos + 2 * i))

/-- `getStringField`; `inbytes` is an `int`, negative from `2^31` on, and the number of
bytes that `strncpy` writes. -/
def getStringField (unicode : Bool) (capacity : Nat) (p : Packet) (pos inbytes : Nat) :
    Except Fault (List UInt8) :=
  if unicode then do
    let out ← utf16ToAscii p (if inbytes < 2147483648 then inbytes / 2 else 0) pos
    copyTo capacity (out.length + 1)
    return out
  else if inbytes ≠ 0 then do
    let len ← p.scan 1 inbytes pos
    copyTo capacity (inbytes + 1)
    return p.bytes pos len
  else do
    let len ← p.strlen pos
    copyTo capacity (len + 1)
    return p.bytes pos len

/-! ## The replies -/

/-- The status switch of the functions that tell a denied access apart. -/
def accessResult (p : Packet) : Ret :=
  if smbMagic p.buf ≠ smbMagicNumber then .error .eio
  else if smbStatus p.buf = statusAccessDenied then .error .eacces
  else if smbStatus p.buf ≠ statusSuccess then .error .eio
  else .ok 0

/-- What `smb_NegotiateProtocol` keeps of the server. -/
structure Negotiated where
  capabilities : Nat
  userLevel : Bool
  encryptedPassword : Bool
  maxBufferSize : Nat
  maxMpxCount : Nat
  sessionKey : Nat
  encryptionKey : List UInt8
  primaryDomainServerName : List UInt8

/-- The tests of a negotiation; only the error class of the status is looked at. -/
def negotiationTaken (p : Packet) : Bool :=
  smbMagic p.buf = smbMagicNumber ∧ p.word 5 = 0 ∧ p.byte 32 = 17

/-- `SERVER_CAP_UNICODE` of the reply itself. -/
def unicodeNegotiated (p : Packet) : Bool := p.word 52 / 4 % 2 = 1

def keyLength (p : Packet) : Nat := (p.byte 66).toNat

/-- One attempt; `none` leads to the next one. -/
def smbNegotiateProtocol (p : Packet) : Except Fault (Option Negotiated) :=
  if negotiationTaken p then do
    p.read 69 (keyLength p)
    copyTo 8 (keyLength p)
    let name ← getStringField (unicodeNegotiated p) 64 p (69 + keyLength p) 0
    return some {
      capabilities := word32 p.buf 56
      userLevel := (p.byte 35).toNat % 2 = 1
      encryptedPassword := (p.byte 35).toNat / 2 % 2 = 1
      maxBufferSize := word32 p.buf 44
      maxMpxCount := p.word 36
      sessionKey := word32 p.buf 52
      encryptionKey := p.bytes 69 (keyLength p)
      primaryDomainServerName := name }
  else return none

/-- `ShareEntry_t` -/
structure ShareEntry where
  shareName : List UInt8
  shareComment : List UInt8

def sharePadding (len : Nat) : Nat := if (len + 3) % 16 ≠ 0 then 16 - (len + 1) % 16 else 0

/-- The end of the name and its padding; the word in front of it is the type. -/
def shareEnd (pos len : Nat) : Nat := pos + len + 1 + sharePadding len

/-- Whether the entry `i` goes to the caller, who has `count` entries already. -/
def shareWanted (index maxEntries : Int) (i count : Nat) : Bool :=
  0 < maxEntries ∧ (count : Int) < maxEntries ∧ index ≤ i

/-- The loop over the entries that are left; the result is the count, with the entries
that were copied. -/
def shareLoop (p : Packet) (data : Nat) (index maxEntries : Int) :
    Nat → Nat → Nat → Nat → Except Fault (Nat × List ShareEntry)
  | 0, _, count, _ => return (count, [])
  | left + 1, i, count, pos => do
      let len ← p.strlen pos
      let behind := shareEnd pos len
      p.read (behind - 2) 2
      if p.word (behind - 2) = 0 then
        if shareWanted index maxEntries i count then do
          p.read behind 2
          copyTo 256 256
          let comment := data + p.word behind
          let commentLen ← p.scan 1 256 comment
          copyTo 256 256
          let (total, more) ← shareLoop p data index maxEntries left (i + 1) (count + 1) (behind + 4)
          return (total, ⟨p.bytes pos (min len 256), p.bytes comment commentLen⟩ :: more)
        else
          -- a caller with no room for entries counts all of them
          shareLoop p data index maxEntries left (i + 1)
            (if 0 < maxEntries then count else count + 1) (behind + 4)
      else shareLoop p data index maxEntries left (i + 1) count (behind + 4)

/-- `AvailableEntries` is a 16-bit number with a sign. -/
def availableEntries (p : Packet) : Nat :=
  let n := p.word (2 * ((paramOffset p.buf + 6) / 2))
  if n < 32768 then n else 0

def smbNetShareEnum (p : Packet) (index maxEntries : Int) :
    Except Fault (Ret × List ShareEntry) :=
  match accessResult p with
  | .error e => return (.error e, [])
  | .ok _ => do
      p.read (2 * (paramOffset p.buf / 2)) 2
      if p.word (2 * (paramOffset p.buf / 2)) ≠ 0 then return (.error .eio, [])
      else do
        p.read (2 * ((paramOffset p.buf + 6) / 2)) 2
        let data := transDataOffset p.buf
        let (count, entries) ← shareLoop p data index maxEntries (availableEntries p) 0 0 data
        return (.ok count, entries)

/-- The reply to the first query. -/
def basicInfoReply (p : Packet) : Except Fault (Except Errno BasicInformation) :=
  match accessResult p with
  | .error e => return .error e
  | .ok _ => do
      p.read (transDataOffset p.buf) 36
      return .ok (basicInformation p.buf)

/-- The reply to the second query. -/
def standardInfoReply (p : Packet) : Except Fault (Except Errno StandardInformation) :=
  match accessResult p with
  | .error e => return .error e
  | .ok _ => do
      p.read (transDataOffset p.buf) 22
      return .ok (standardInformation p.buf)

/-- `SearchBuf` has 4096 bytes, and `FileName` begins at byte 72 of `SearchInfo_t`. -/
def fileNameCapacity : Nat := 4096 - 72

def fileNameLen (p : Packet) : Nat := word32 p.buf (transDataOffset p.buf + 64)

/-- The first two fields of `FindFirst2ResponseData_t` are not read. -/
def searchReply (unicode : Bool) (p : Packet) (sid : Option Nat) :
    Except Fault (Except Errno (SearchInformation × List UInt8)) :=
  match accessResult p with
  | .error e => return .error e
  | .ok _ => do
      -- the search identifier, the count and the end of the search
      p.read (paramOffset p.buf) (if sid.isNone then 6 else 4)
      if word16 p.buf (findCount p.buf sid) = 0 then return .error .einval
      else do
        let data := transDataOffset p.buf
        p.read (data + 8) 56
        let name ← getStringField unicode fileNameCapacity p (data + 94) (fileNameLen p)
        return .ok (searchInformation p.buf sid, name)

/-! ## When the checks pass -/

def InBounds {α : Type} (r : Except Fault α) : Prop := ∃ a, r = .ok a

theorem inBounds_pure {α : Type} (a : α) : InBounds (pure a : Except Fault α) := ⟨a, rfl⟩

theorem bind_ok_iff {α β : Type} {m : Except Fault α} {f : α → Except Fault β} {b : β} :
    (m >>= f) = .ok b ↔ ∃ a, m = .ok a ∧ f a = .ok b := by
  cases m with
  | error e =>
      constructor
      · intro h
        cases h
      · rintro ⟨a, ha, -⟩
        cases ha
  | ok a =>
      constructor
      · intro h
        exact ⟨a, rfl, h⟩
      · rintro ⟨a', ha, h⟩
        cases ha
        exact h

theorem inBounds_bind {α β : Type} {m : Except Fault α} {f : α → Except Fault β} :
    InBounds (m >>= f) ↔ ∃ a, m = .ok a ∧ InBounds (f a) := by
  unfold InBounds
  simp only [bind_ok_iff]
  constructor
  · rintro ⟨b, a, ha, hb⟩
    exact ⟨a, ha, b, hb⟩
  · rintro ⟨a, ha, b, hb⟩
    exact ⟨b, a, ha, hb⟩

theorem read_ok_iff {p : Packet} {pos len : Nat} {u : Unit} :
    p.read pos len = .ok u ↔ len = 0 ∨ pos + len ≤ p.size := by
  unfold Packet.read
  split <;> simp_all

theorem copyTo_ok_iff {capacity len : Nat} {u : Unit} :
    copyTo capacity len = .ok u ↔ len ≤ capacity := by
  unfold copyTo
  split <;> simp_all

theorem inBounds_check_bind {β : Type} {m : Except Fault Unit} {f : Unit → Except Fault β} :
    InBounds (m >>= f) ↔ m = .ok () ∧ InBounds (f ()) := by
  rw [inBounds_bind]
  constructor
  · rintro ⟨u, hm, hf⟩
    exact ⟨hm, hf⟩
  · rintro ⟨hm, hf⟩
    exact ⟨(), hm, hf⟩

/-- Reading from `pos` on up to a zero, or `limit` units, comes to `n` units that are
not zero and stays inside the packet. -/
structure Scanned (p : Packet) (width limit pos n : Nat) : Prop where
  bound : n ≤ limit
  run : ∀ i < n, pos + width * (i + 1) ≤ p.size ∧ p.unit width (pos + width * i) ≠ 0
  stop : n < limit → pos + width * (n + 1) ≤ p.size ∧ p.unit width (pos + width * n) = 0

section Scan

variable {p : Packet} {width limit pos n : Nat}

theorem Scanned.zero_iff : Scanned p width 0 pos n ↔ n = 0 := by
  constructor
  · intro h
    have := h.bound
    omega
  · rintro rfl
    exact ⟨Nat.le_refl 0, fun i hi => by omega, fun h => by omega⟩

theorem Scanned.stop_iff (hin : pos + width ≤ p.size) (hzero : p.unit width pos = 0) :
    Scanned p width (limit + 1) pos n ↔ n = 0 := by
  constructor
  · intro h
    by_contra hpos
    have hunit := (h.run 0 (by omega)).2
    rw [Nat.mul_zero, Nat.add_zero] at hunit
    exact hunit hzero
  · rintro rfl
    refine ⟨Nat.zero_le _, fun i hi => by omega, fun _ => ?_⟩
    rw [Nat.zero_add, Nat.mul_one, Nat.mul_zero, Nat.add_zero]
    exact ⟨hin, hzero⟩

theorem Scanned.step_iff (hin : pos + width ≤ p.size) (hunit : p.unit width pos ≠ 0) :
    Scanned p width (limit + 1) pos n ↔ ∃ m, Scanned p width limit (pos + width) m ∧ n = m + 1 := by
  have hshift : ∀ i, pos + width + width * i = pos + width * (i + 1) := by
    intro i
    rw [Nat.mul_add, Nat.mul_one]
    omega
  constructor
  · intro h
    cases n with
    | zero =>
        have hzero := (h.stop (by omega)).2
        rw [Nat.mul_zero, Nat.add_zero] at hzero
        exact absurd hzero hunit
    | succ m =>
        refine ⟨m, ⟨?_, ?_, ?_⟩, rfl⟩
        · have := h.bound
          omega
        · intro i hi
          rw [hshift, hshift]
          exact h.run (i + 1) (by omega)
        · intro hm
          rw [hshift, hshift]
          exact h.stop (by omega)
  · rintro ⟨m, h, rfl⟩
    refine ⟨?_, ?_, ?_⟩
    · have := h.bound
      omega
    · intro i hi
      cases i with
      | zero =>
          rw [Nat.zero_add, Nat.mul_one, Nat.mul_zero, Nat.add_zero]
          exact ⟨hin, hunit⟩
      | succ i =>
          rw [← hshift, ← hshift]
          exact h.run i (by omega)
    · intro hm
      rw [← hshift, ← hshift]
      exact h.stop (by omega)

/-- The first unit is the zero, or what follows it is scanned. -/
theorem Scanned.succ_cases (h : Scanned p width (limit + 1) pos n) : pos + width ≤ p.size ∧
    (n = 0 ∧ p.unit width pos = 0 ∨
      ∃ m, n = m + 1 ∧ p.unit width pos ≠ 0 ∧ Scanned p width limit (pos + width) m) := by
  cases n with
  | zero =>
      obtain ⟨hin, hzero⟩ := h.stop (Nat.succ_pos _)
      rw [Nat.zero_add, Nat.mul_one] at hin
      exact ⟨hin, Or.inl ⟨rfl, hzero⟩⟩
  | succ m =>
      obtain ⟨hin, hunit⟩ := h.run 0 (Nat.succ_pos _)
      rw [Nat.zero_add, Nat.mul_one] at hin
      obtain ⟨k, hk, hkm⟩ := (Scanned.step_iff hin hunit).mp h
      exact ⟨hin, Or.inr ⟨k, hkm, hunit, hk⟩⟩

theorem Scanned.first (h : Scanned p width (limit + 1) pos n) : pos + width ≤ p.size := by
  cases n with
  | zero => simpa using (h.stop (by omega)).1
  | succ m => simpa using (h.run 0 (by omega)).1

end Scan

theorem scan_ok_iff (p : Packet) {width : Nat} (hwidth : width ≠ 0) (limit : Nat) :
    ∀ pos n, p.scan width limit pos = .ok n ↔ Scanned p width limit pos n := by
  induction limit with
  | zero =>
      intro pos n
      rw [Scanned.zero_iff, Packet.scan]
      simp [pure, Except.pure, eq_comm]
  | succ limit ih =>
      intro pos n
      rw [Packet.scan, bind_ok_iff]
      simp only [read_ok_iff, hwidth, false_or, exists_and_left, exists_const]
      by_cases hin : pos + width ≤ p.size
      · simp only [hin, true_and]
        by_cases hzero : p.unit width pos = 0
        · rw [if_pos hzero, Scanned.stop_iff hin hzero]
          simp [pure, Except.pure, eq_comm]
        · rw [if_neg hzero, Scanned.step_iff hin hzero, bind_ok_iff]
          simp [ih, pure, Except.pure, eq_comm]
      · simp only [hin, false_and, false_iff]
        exact fun h => hin h.first

/-! ## The packets that are read inside their bounds -/

/-- A string of `n` bytes with its zero. -/
def Terminated (p : Packet) (pos n : Nat) : Prop := Scanned p 1 (p.size + 1) pos n

def StringFits (unicode : Bool) (capacity : Nat) (p : Packet) (pos inbytes : Nat) : Prop :=
  if unicode then
    ∃ n, Scanned p 2 (if inbytes < 2147483648 then inbytes / 2 else 0) pos n ∧
      ((List.range n).flatMap fun i => utf8 (p.word (pos + 2 * i))).length < capacity
  else if inbytes ≠ 0 then (∃ n, Scanned p 1 inbytes pos n) ∧ inbytes < capacity
  else ∃ n, Terminated p pos n ∧ n < capacity

/-- The key has at most 8 bytes, and it and the name are in the packet. -/
def NegotiationFits (p : Packet) : Prop :=
  (keyLength p = 0 ∨ 69 + keyLength p ≤ p.size) ∧ keyLength p ≤ 8 ∧
    StringFits (unicodeNegotiated p) 64 p (69 + keyLength p) 0

/-- The entries that are left of the table, from `pos` on. -/
def ShareTableFits (p : Packet) (data : Nat) (index maxEntries : Int) :
    Nat → Nat → Nat → Nat → Prop
  | 0, _, _, _ => True
  | left + 1, i, count, pos => ∃ len, Terminated p pos len ∧ shareEnd pos len ≤ p.size ∧
      if p.word (shareEnd pos len - 2) = 0 then
        if shareWanted index maxEntries i count then
          shareEnd pos len + 2 ≤ p.size ∧
            (∃ n, Scanned p 1 256 (data + p.word (shareEnd pos len)) n) ∧
            ShareTableFits p data index maxEntries left (i + 1) (count + 1) (shareEnd pos len + 4)
        else
          ShareTableFits p data index maxEntries left (i + 1)
            (if 0 < maxEntries then count else count + 1) (shareEnd pos len + 4)
      else ShareTableFits p data index maxEntries left (i + 1) count (shareEnd pos len + 4)

/-- The words at the parameter offset, and with an API status of 0 also the table. -/
def ShareListFits (p : Packet) (index maxEntries : Int) : Prop :=
  2 * (paramOffset p.buf / 2) + 2 ≤ p.size ∧
    (p.word (2 * (paramOffset p.buf / 2)) = 0 →
      2 * ((paramOffset p.buf + 6) / 2) + 2 ≤ p.size ∧
        ShareTableFits p (transDataOffset p.buf) index maxEntries (availableEntries p) 0 0
          (transDataOffset p.buf))

/-- The parameters, and with an entry in the reply also the data and the name. -/
def SearchFits (unicode : Bool) (p : Packet) (sid : Option Nat) : Prop :=
  paramOffset p.buf + (if sid.isNone then 6 else 4) ≤ p.size ∧
    (word16 p.buf (findCount p.buf sid) ≠ 0 →
      transDataOffset p.buf + 64 ≤ p.size ∧
        StringFits unicode fileNameCapacity p (transDataOffset p.buf + 94) (fileNameLen p))

/-- The reply has the magic number and the status 0. -/
def Succeeds (p : Packet) : Prop := smbMagic p.buf = smbMagicNumber ∧ smbStatus p.buf = statusSuccess

theorem accessResult_ok_iff (p : Packet) : (∃ n, accessResult p = .ok n) ↔ Succeeds p := by
  unfold accessResult Succeeds
  split
  · simp_all
  · split
    · rename_i hdenied
      simp only [hdenied]
      simp [statusAccessDenied, statusSuccess]
    · split <;> simp_all

theorem strlen_ok_iff {p : Packet} {pos n : Nat} : p.strlen pos = .ok n ↔ Terminated p pos n :=
  scan_ok_iff p (by decide) _ pos n

theorem utf16ToAscii_ok_iff {p : Packet} {units pos : Nat} {out : List UInt8} :
    utf16ToAscii p units pos = .ok out ↔ ∃ n, Scanned p 2 units pos n ∧
      out = (List.range n).flatMap fun i => utf8 (p.word (pos + 2 * i)) := by
  unfold utf16ToAscii
  rw [bind_ok_iff]
  apply exists_congr
  intro n
  rw [scan_ok_iff p (by decide)]
  apply and_congr_right
  intro _
  constructor
  · intro h
    cases h
    rfl
  · rintro rfl
    rfl

/-- Copying a string of the length that was found. -/
theorem inBounds_copy {α β : Type} {m : Except Fault α} {n : α → Nat} {capacity : Nat}
    {f : α → β} :
    InBounds (do
      let a ← m
      copyTo capacity (n a)
      return f a) ↔ ∃ a, m = .ok a ∧ n a ≤ capacity := by
  rw [inBounds_bind]
  apply exists_congr
  intro a
  rw [inBounds_check_bind, copyTo_ok_iff]
  simp only [inBounds_pure, and_true]

theorem getStringField_inBounds (unicode : Bool) (capacity : Nat) (p : Packet) (pos inbytes : Nat) :
    InBounds (getStringField unicode capacity p pos inbytes) ↔
      StringFits unicode capacity p pos inbytes := by
  unfold getStringField StringFits
  split
  · rw [inBounds_copy]
    simp only [utf16ToAscii_ok_iff]
    constructor
    · rintro ⟨out, ⟨n, hscanned, rfl⟩, hfits⟩
      exact ⟨n, hscanned, hfits⟩
    · rintro ⟨n, hscanned, hfits⟩
      exact ⟨_, ⟨n, hscanned, rfl⟩, hfits⟩
  · split
    · rw [inBounds_copy (n := fun _ => inbytes + 1)]
      simp only [scan_ok_iff p (by decide : (1 : Nat) ≠ 0)]
      exact exists_and_right
    · rw [inBounds_copy (n := fun n => n + 1)]
      simp only [strlen_ok_iff]
      exact Iff.rfl

/-! ## Each function -/

theorem smbNegotiateProtocol_inBounds (p : Packet) :
    InBounds (smbNegotiateProtocol p) ↔ (negotiationTaken p = true → NegotiationFits p) := by
  unfold smbNegotiateProtocol NegotiationFits
  split
  · rename_i htaken
    simp only [htaken, forall_const, inBounds_check_bind, read_ok_iff, copyTo_ok_iff]
    rw [← getStringField_inBounds, inBounds_bind]
    simp only [inBounds_pure, and_true]
    exact Iff.rfl
  · rename_i hnot
    exact iff_of_true (inBounds_pure none) fun h => absurd h hnot

theorem le_shareEnd (pos len : Nat) : 2 ≤ shareEnd pos len := by
  unfold shareEnd sharePadding
  split <;> omega

theorem shareLoop_inBounds (p : Packet) (data : Nat) (index maxEntries : Int) (left : Nat) :
    ∀ i count pos, InBounds (shareLoop p data index maxEntries left i count pos) ↔
      ShareTableFits p data index maxEntries left i count pos := by
  induction left with
  | zero =>
      intro i count pos
      exact iff_of_true (inBounds_pure _) trivial
  | succ left ih =>
      intro i count pos
      unfold shareLoop ShareTableFits
      rw [inBounds_bind]
      simp only [strlen_ok_iff]
      apply exists_congr
      intro len
      apply and_congr_right
      intro _
      have htype : (2 = 0 ∨ shareEnd pos len - 2 + 2 ≤ p.size) ↔ shareEnd pos len ≤ p.size := by
        have := le_shareEnd pos len
        omega
      rw [inBounds_check_bind, read_ok_iff, htype]
      apply and_congr_right
      intro _
      split
      · split
        · rw [inBounds_check_bind, read_ok_iff, inBounds_check_bind, copyTo_ok_iff, inBounds_bind]
          simp only [scan_ok_iff p (by decide : (1 : Nat) ≠ 0)]
          apply and_congr
          · omega
          · constructor
            · rintro ⟨-, n, hscanned, hrest⟩
              obtain ⟨-, hloop⟩ := inBounds_check_bind.mp hrest
              obtain ⟨result, hresult, -⟩ := inBounds_bind.mp hloop
              exact ⟨⟨n, hscanned⟩, (ih _ _ _).mp ⟨result, hresult⟩⟩
            · rintro ⟨⟨n, hscanned⟩, hrest⟩
              obtain ⟨result, hresult⟩ := (ih _ _ _).mpr hrest
              refine ⟨Nat.le_refl _, n, hscanned, inBounds_check_bind.mpr ⟨rfl, ?_⟩⟩
              exact inBounds_bind.mpr ⟨result, hresult, inBounds_pure _⟩
        · exact ih _ _ _
      · exact ih _ _ _

/-- The part behind the switch is reached with a status of 0 only. -/
theorem inBounds_switch {β : Type} {p : Packet} {refuse : Errno → β} {m : Except Fault β} :
    InBounds (match accessResult p with
      | .error e => (pure (refuse e) : Except Fault β)
      | .ok _ => m) ↔ (Succeeds p → InBounds m) := by
  rw [← accessResult_ok_iff]
  cases hresult : accessResult p with
  | error e =>
      refine iff_of_true (inBounds_pure _) ?_
      rintro ⟨n, hn⟩
      cases hn
  | ok n =>
      constructor
      · exact fun h _ => h
      · exact fun h => h ⟨n, rfl⟩

theorem smbNetShareEnum_inBounds (p : Packet) (index maxEntries : Int) :
    InBounds (smbNetShareEnum p index maxEntries) ↔
      (Succeeds p → ShareListFits p index maxEntries) := by
  unfold smbNetShareEnum ShareListFits
  rw [inBounds_switch]
  apply imp_congr_right
  intro _
  rw [inBounds_check_bind, read_ok_iff]
  apply and_congr
  · omega
  split
  · rename_i hstatus
    exact iff_of_true (inBounds_pure _) fun h => absurd h hstatus
  · rename_i hstatus
    rw [inBounds_check_bind, read_ok_iff, inBounds_bind]
    have hloop : (∃ r, shareLoop p (transDataOffset p.buf) index maxEntries (availableEntries p) 0 0
        (transDataOffset p.buf) = .ok r) ↔ _ := shareLoop_inBounds p _ index maxEntries _ 0 0 _
    rw [← hloop]
    simp only [inBounds_pure, and_true, not_not.mp hstatus, forall_const]
    apply and_congr_left
    intro _
    omega

theorem basicInfoReply_inBounds (p : Packet) :
    InBounds (basicInfoReply p) ↔ (Succeeds p → transDataOffset p.buf + 36 ≤ p.size) := by
  unfold basicInfoReply
  rw [inBounds_switch, inBounds_check_bind, read_ok_iff]
  simp [inBounds_pure]

theorem standardInfoReply_inBounds (p : Packet) :
    InBounds (standardInfoReply p) ↔ (Succeeds p → transDataOffset p.buf + 22 ≤ p.size) := by
  unfold standardInfoReply
  rw [inBounds_switch, inBounds_check_bind, read_ok_iff]
  simp [inBounds_pure]

theorem searchReply_inBounds (unicode : Bool) (p : Packet) (sid : Option Nat) :
    InBounds (searchReply unicode p sid) ↔ (Succeeds p → SearchFits unicode p sid) := by
  unfold searchReply SearchFits
  rw [inBounds_switch]
  apply imp_congr_right
  intro _
  rw [inBounds_check_bind, read_ok_iff]
  apply and_congr
  · split <;> omega
  split
  · rename_i hnone
    exact iff_of_true (inBounds_pure _) fun h => absurd hnone h
  · rename_i hsome
    rw [inBounds_check_bind, read_ok_iff, inBounds_bind, ← getStringField_inBounds]
    simp only [inBounds_pure, and_true, ne_eq, hsome, not_false_eq_true, forall_const]
    apply and_congr_left
    intro _
    omega

/-- Whatever packet is in the buffer, each function stays inside the packet and inside
its destinations exactly when the offsets and lengths of the packet fit. -/
theorem reply_in_bounds_iff (p : Packet) :
    (InBounds (smbNegotiateProtocol p) ↔ (negotiationTaken p = true → NegotiationFits p)) ∧
      (∀ index maxEntries, InBounds (smbNetShareEnum p index maxEntries) ↔
        (Succeeds p → ShareListFits p index maxEntries)) ∧
      ((InBounds (basicInfoReply p) ↔ (Succeeds p → transDataOffset p.buf + 36 ≤ p.size)) ∧
        (InBounds (standardInfoReply p) ↔ (Succeeds p → transDataOffset p.buf + 22 ≤ p.size))) ∧
      ∀ unicode sid, InBounds (searchReply unicode p sid) ↔ (Succeeds p → SearchFits unicode p sid) :=
  ⟨smbNegotiateProtocol_inBounds p, smbNetShareEnum_inBounds p,
    ⟨basicInfoReply_inBounds p, standardInfoReply_inBounds p⟩,
    fun unicode sid => searchReply_inBounds unicode p sid⟩

/-- `SMB_buf` after the reply `body`, over zeros. -/
def Packet.ofReply (body : List UInt8) : Packet := ⟨bytesAt (frame body), body.length⟩

/-- A negotiation with Unicode, and a key of the given length. -/
def negotiationReply (length : Nat) : List UInt8 :=
  smbHeader 0x72 0x80 0xc001 0 0 ++ [17] ++ List.replicate 19 0 ++ le32 4 ++ List.replicate 10 0 ++
    [UInt8.ofNat length] ++ le16 length ++ List.replicate length 0xaa

/-- The reply to a query, with the data at the given offset. -/
def queryReply (offset : Nat) : List UInt8 :=
  smbHeader 0x32 0x80 0xc001 2 1 ++ [10] ++ List.replicate 14 0 ++ le16 offset ++
    List.replicate 60 0

example : InBounds (smbNegotiateProtocol (Packet.ofReply (negotiationReply 8))) := ⟨_, rfl⟩

/-- A key of 16 bytes does not fit `EncryptionKey`, and data at 60000 is not in the
packet. -/
theorem server_offsets_unchecked :
    ¬InBounds (smbNegotiateProtocol (Packet.ofReply (negotiationReply 16))) ∧
      ¬InBounds (basicInfoReply (Packet.ofReply (queryReply 60000))) := by
  constructor
  · rintro ⟨a, ha⟩
    have hfault : smbNegotiateProtocol (Packet.ofReply (negotiationReply 16)) = .error .copy := rfl
    rw [hfault] at ha
    cases ha
  · rintro ⟨a, ha⟩
    have hfault : basicInfoReply (Packet.ofReply (queryReply 60000)) = .error .read := rfl
    rw [hfault] at ha
    cases ha

end BdmAssault.Smb
