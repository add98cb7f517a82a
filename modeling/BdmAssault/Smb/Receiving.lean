import BdmAssault.Smb.ReadAndX

/-! # What the receive helpers do

On a stream that is long enough, each helper of `smb.c` takes the next bytes off it,
wherever the buffers end.
-/

namespace BdmAssault.Smb

open Lib

/-! ## Memory -/

theorem bytesAt_take {l : List UInt8} {n i : Nat} (h : i < n) :
    bytesAt (l.take n) i = bytesAt l i := by
  simp [bytesAt, List.getD_eq_getElem?_getD, h]

theorem bytesAt_drop (l : List UInt8) (n i : Nat) : bytesAt (l.drop n) i = bytesAt l (n + i) := by
  simp [bytesAt, List.getD_eq_getElem?_getD, List.getElem?_drop]

theorem bytesAt_append {l r : List UInt8} {i : Nat} (h : i < l.length) :
    bytesAt (l ++ r) i = bytesAt l i := by
  simp [bytesAt, List.getD_eq_getElem?_getD, List.getElem?_append_left h]

theorem bytesAt_append_right (l r : List UInt8) (i : Nat) :
    bytesAt (l ++ r) (l.length + i) = bytesAt r i := by
  rw [← bytesAt_drop, List.drop_left]

theorem store_inside {m : Nat → UInt8} {offset : Nat} {bytes : List UInt8} {i : Nat}
    (h : i < bytes.length) : store m offset bytes (offset + i) = bytesAt bytes i := by
  rw [store, if_pos (by omega), Nat.add_sub_cancel_left]

theorem store_zero {m : Nat → UInt8} {bytes : List UInt8} {i : Nat} (h : i < bytes.length) :
    store m 0 bytes i = bytesAt bytes i := by
  rw [store, if_pos (by omega), Nat.sub_zero]

theorem store_outside {m : Nat → UInt8} {offset : Nat} {bytes : List UInt8} {i : Nat}
    (h : i < offset) : store m offset bytes i = m i := if_neg (by omega)

/-- A buffer that holds a packet from `base` on, up to `offset`, and then receives the
next `n` bytes of it. -/
theorem store_extends {m : Nat → UInt8} {packet rest : List UInt8} {base offset n i : Nat}
    (hrest : rest = packet.drop (base + offset)) (hn : n ≤ rest.length) (hi : i < offset + n)
    (hold : i < offset → m i = bytesAt packet (base + i)) :
    store m offset (rest.take n) i = bytesAt packet (base + i) := by
  by_cases hlt : i < offset
  · exact (store_outside hlt).trans (hold hlt)
  · obtain ⟨j, rfl⟩ := Nat.exists_eq_add_of_le (Nat.le_of_not_lt hlt)
    have hj : j < (rest.take n).length := by
      rw [List.length_take]
      omega
    calc store m offset (rest.take n) (offset + j)
        = bytesAt (rest.take n) j := store_inside hj
      _ = bytesAt rest j := bytesAt_take (by omega)
      _ = bytesAt packet (base + (offset + j)) := by rw [hrest, bytesAt_drop, Nat.add_assoc]

/-! ## Receiving -/

theorem recvDataTo_continues {c : Client} (h : c.sock.Wf) (dest : Dest) (size : Nat)
    (hsize : size ≤ c.sock.bytes.length) :
    ∃ s', s'.Wf ∧ s'.bytes = c.sock.bytes.drop size ∧ (recvDataTo dest size).Continues c size
      { c.put dest (c.sock.bytes.take size) with sock := s' } := by
  obtain ⟨hread, hrest, hwf⟩ := recvData_spec size size h (Nat.le_refl size)
  refine ⟨_, hwf, hrest, ?_⟩
  rw [← hread]
  refine Prog.continues_get.bind (Prog.continues_set.bind ?_)
  refine (Prog.continues_when_neg ?_).bind Prog.continues_pure
  rw [hread, List.length_take_of_le hsize]
  exact Nat.lt_irrefl size

theorem discardLoop_continues (rounds : Nat) :
    ∀ (size : Nat) {c : Client}, c.sock.Wf → size ≤ rounds → size ≤ c.sock.bytes.length →
      ∃ s', s'.Wf ∧ s'.bytes = c.sock.bytes.drop size ∧
        (discardLoop rounds size).Continues c () { c with sock := s' } := by
  induction rounds with
  | zero =>
      intro size c h hrounds _
      obtain rfl : size = 0 := by omega
      exact ⟨c.sock, h, rfl, Prog.continues_pure⟩
  | succ rounds ih =>
      intro size c h hrounds hsize
      by_cases hpos : 0 < size
      · obtain ⟨s₁, hwf₁, hbytes₁, hread⟩ :=
          recvDataTo_continues h .discard _ (Nat.le_trans (Nat.min_le_left size 64) hsize)
        obtain ⟨s₂, hwf₂, hbytes₂, hloop⟩ :=
          ih (size - min size 64) (c := { c with sock := s₁ }) hwf₁ (by omega)
            (by rw [hbytes₁, List.length_drop]; omega)
        refine ⟨s₂, hwf₂, ?_, ?_⟩
        · rw [hbytes₂, hbytes₁, List.drop_drop]
          congr 1
          omega
        · rw [discardLoop, Prog.when_pos hpos]
          exact hread.bind hloop
      · obtain rfl : size = 0 := by omega
        exact ⟨c.sock, h, rfl, Prog.continues_when_neg hpos⟩

theorem discardRest_continues {c : Client} (h : c.sock.Wf) {received upto : Nat}
    (hleft : upto - received ≤ c.sock.bytes.length) :
    ∃ s', s'.Wf ∧ s'.bytes = c.sock.bytes.drop (upto - received) ∧
      (discardRest received upto).Continues c () { c with sock := s' } := by
  unfold discardRest
  by_cases hlt : received < upto
  · rw [Prog.when_pos hlt]
    exact discardLoop_continues (upto - received) (upto - received) h (Nat.le_refl _) hleft
  · refine ⟨c.sock, h, ?_, Prog.continues_when_neg hlt⟩
    rw [Nat.sub_eq_zero_of_le (Nat.le_of_not_lt hlt)]
    rfl

theorem recvSplitTimeout_continues {c : Client} (h : c.sock.Wf) (hne : c.sock.bytes ≠ [])
    (index plen : Nat) :
    ∃ s', s'.Wf ∧ s'.bytes = c.sock.bytes.drop (splitBuffer index plen c.sock.chunk).consumed ∧
      (recvSplitTimeout index plen).Continues c (splitBuffer index plen c.sock.chunk).consumed
        { (c.put (.smbBuf 0) (splitBuffer index plen c.sock.chunk).header).put (.readbuf 0)
            (splitBuffer index plen c.sock.chunk).payload with sock := s' } := by
  obtain ⟨s', hsplit, hwf, hrest⟩ := lwipRecvsplit_spec h hne index plen
  refine ⟨s', hwf, hrest, Prog.continues_get.bind ?_⟩
  rw [hsplit]
  exact Prog.continues_set.bind Prog.continues_pure

/-! ## The header of a packet -/

/-- `m` bytes of the packet were taken off the stream, and its header, as far as it was
received, is in `SMB_buf`. -/
structure Loaded (packet : List UInt8) (m : Nat) (c : Client) : Prop where
  wf : c.sock.Wf
  rest : c.sock.bytes = packet.drop m
  bound : m ≤ packet.length
  header : ∀ i, i < m → i < 63 → c.smbBuf i = bytesAt packet i

section Loaded

variable {packet : List UInt8} {m : Nat} {c : Client}

theorem Loaded.left (h : Loaded packet m c) : c.sock.bytes.length = packet.length - m := by
  rw [h.rest, List.length_drop]

theorem Loaded.word16 (h : Loaded packet m c) {i : Nat} (hm : i + 1 < m) (hi : i + 1 < 63) :
    word16 c.smbBuf i = word16 (bytesAt packet) i := by
  unfold Smb.word16
  rw [h.header i (by omega) (by omega), h.header (i + 1) hm hi]

theorem Loaded.messageLength (h : Loaded packet m c) (hm : 4 ≤ m) :
    sessionMessageLength c.smbBuf = sessionMessageLength (bytesAt packet) := by
  unfold sessionMessageLength
  rw [h.header 1 (by omega) (by omega), h.header 2 (by omega) (by omega), h.header 3 (by omega) (by omega)]

theorem Loaded.type (h : Loaded packet m c) (hm : 4 ≤ m) :
    packetType c.smbBuf = packetType (bytesAt packet) := by
  unfold packetType
  rw [h.header 0 (by omega) (by omega)]

theorem Loaded.magic (h : Loaded packet m c) (hm : 36 ≤ m) :
    smbMagic c.smbBuf = smbMagic (bytesAt packet) := by
  unfold smbMagic word32
  rw [h.word16 (by omega) (by omega), h.word16 (by omega) (by omega)]

theorem Loaded.status (h : Loaded packet m c) (hm : 36 ≤ m) :
    smbStatus c.smbBuf = smbStatus (bytesAt packet) := by
  unfold smbStatus
  rw [h.word16 (by omega) (by omega), h.word16 (by omega) (by omega)]

theorem Loaded.dataFields (h : Loaded packet m c) (hm : 63 ≤ m) :
    dataOffset c.smbBuf = dataOffset (bytesAt packet) ∧
      dataLength c.smbBuf = dataLength (bytesAt packet) := by
  unfold dataOffset dataLength
  rw [h.word16 (by omega) (by omega), h.word16 (by omega) (by omega), h.word16 (by omega) (by omega)]
  exact ⟨rfl, rfl⟩

/-- The first split receive puts the header to its place. -/
theorem Loaded.recvSplit (h : Loaded packet 0 c) (hne : packet ≠ []) (plen : Nat) :
    ∃ c', (recvSplitTimeout 49 plen).Continues c (splitBuffer 49 plen c.sock.chunk).consumed c' ∧
      Loaded packet (splitBuffer 49 plen c.sock.chunk).consumed c' := by
  have hbytes : c.sock.bytes = packet := by simpa using h.rest
  obtain ⟨-, rest, hchunk⟩ := Sock.chunk_spec h.wf (by rwa [hbytes])
  obtain ⟨s', hwf, hrest, hsplit⟩ := recvSplitTimeout_continues h.wf (by rwa [hbytes]) 49 plen
  have hreach := splitBuffer_consumed_le 49 plen c.sock.chunk
  rw [hbytes] at hchunk hrest
  have hlen : c.sock.chunk.length ≤ packet.length := by
    rw [hchunk, List.length_append]
    omega
  refine ⟨_, hsplit, hwf, hrest, Nat.le_trans hreach hlen, ?_⟩
  intro i hi hi63
  have hin : i < (c.sock.chunk.take 63).length := by
    rw [List.length_take]
    omega
  calc store c.smbBuf 0 (splitBuffer 49 plen c.sock.chunk).header i
      = bytesAt (c.sock.chunk.take 63) i := by rw [splitBuffer_header, store_zero hin]
    _ = bytesAt c.sock.chunk i := bytesAt_take hi63
    _ = bytesAt packet i := by rw [hchunk, bytesAt_append (by omega)]

/-- Receiving more of the header. -/
theorem Loaded.recvUpTo (h : Loaded packet m c) (limit upto : Nat) (hupto : upto ≤ packet.length)
    (hlimit : upto ≤ limit) (hmore : m < limit → m < upto) :
    ∃ c', (recvUpTo m limit upto).Continues c (max m upto) c' ∧ Loaded packet (max m upto) c' ∧
      c'.readbuf = c.readbuf := by
  have hleft := h.left
  unfold Smb.recvUpTo
  by_cases hlt : m < limit
  · have hpos := hmore hlt
    have hsum : m + (upto - m) = upto := by omega
    obtain ⟨s', hwf, hbytes, hread⟩ :=
      recvDataTo_continues h.wf (.smbBuf m) (upto - m) (by omega)
    rw [if_pos hlt, Nat.max_eq_right (Nat.le_of_lt hpos)]
    refine ⟨{ c.put (.smbBuf m) (c.sock.bytes.take (upto - m)) with sock := s' },
      hread.bind ?_, ⟨hwf, ?_, hupto, ?_⟩, rfl⟩
    · refine (Prog.continues_when_neg (by omega)).bind ?_
      rw [hsum]
      exact Prog.continues_pure
    · rw [hbytes, h.rest, List.drop_drop, hsum]
    · intro i hi hi63
      have hrest : c.sock.bytes = packet.drop (0 + m) := by rw [h.rest, Nat.zero_add]
      have hold : i < m → c.smbBuf i = bytesAt packet (0 + i) := by
        intro him
        rw [Nat.zero_add]
        exact h.header i him hi63
      have hstored := store_extends (n := upto - m) hrest (by omega) (by omega) hold
      rwa [Nat.zero_add] at hstored
  · rw [if_neg hlt, Nat.max_eq_left (by omega)]
    exact ⟨c, Prog.continues_pure, h, rfl⟩

/-- Where the packet ends inside its header, nothing is received, which is a result of 0. -/
theorem Loaded.recvUpTo_ended (h : Loaded packet m c) {limit : Nat} (hlt : m < limit) :
    ∃ c', (Smb.recvUpTo m limit m).Exits c (.ok 0) c' := by
  obtain ⟨s', -, -, hread⟩ := recvDataTo_continues h.wf (.smbBuf m) (m - m) (by omega)
  unfold Smb.recvUpTo
  rw [if_pos hlt]
  have hzero : (Prog.when (m - m = 0) (throw (.ok 0)) : Fn Unit).Exits
      { c.put (.smbBuf m) (c.sock.bytes.take (m - m)) with sock := s' } (.ok 0)
      { c.put (.smbBuf m) (c.sock.bytes.take (m - m)) with sock := s' } := by
    rw [Prog.when_pos (Nat.sub_self m)]
    exact Prog.exits_throw
  exact ⟨_, hread.bind_exits hzero.bind⟩

/-- The rest of the packet is skipped, and something is returned. -/
theorem Loaded.skip (h : Loaded packet m c) {α : Type} (r : Ret) :
    ∃ c', (discardRest m packet.length >>= fun _ => (throw r : Fn α)).Exits c r c' := by
  obtain ⟨s', -, -, hskip⟩ := discardRest_continues h.wf (Nat.le_of_eq h.left.symm)
  exact ⟨_, hskip.bind_exits Prog.exits_throw⟩

theorem Loaded.reject (h : Loaded packet m c) :
    ∃ c', (rejectSMBPacket m packet.length).Exits c (.error .eproto) c' := h.skip _

end Loaded

end BdmAssault.Smb
