import BdmAssault.Smb.Receiving

/-! # Reading does not depend on how the stream is cut

A well-formed response is received up to byte `m` through every continuation point
of `smb_ReadAndX`; only the first split receive can go beyond the data.
-/

namespace BdmAssault.Smb

open Lib

/-! ## A well-formed response -/

structure Response (nbytes : Nat) where
  packet : List UInt8
  complete : 63 ≤ packet.length
  type : packetType (bytesAt packet) = 0
  length : sessionMessageLength (bytesAt packet) + 4 = packet.length
  magic : smbMagic (bytesAt packet) = smbMagicNumber
  status : smbStatus (bytesAt packet) = statusSuccess
  offset : 59 ≤ dataOffset (bytesAt packet)
  requested : dataLength (bytesAt packet) ≤ nbytes
  inside : dataOffset (bytesAt packet) + 4 + dataLength (bytesAt packet) ≤ packet.length

namespace Response

variable {nbytes : Nat} (R : Response nbytes)

def dataStart : Nat := dataOffset (bytesAt R.packet) + 4

def dataLength : Nat := Smb.dataLength (bytesAt R.packet)

def dataEnd : Nat := R.dataStart + R.dataLength

/-- The bytes behind the data. -/
def padding : Nat := R.packet.length - R.dataEnd

theorem dataStart_ge : 63 ≤ R.dataStart := Nat.add_le_add_right R.offset 4

theorem dataEnd_le : R.dataEnd ≤ R.packet.length := R.inside

/-- The session header bounds a packet, and with it the data, to 24 bits. -/
theorem packet_lt : R.packet.length < 16777220 := by
  rw [← R.length, sessionMessageLength]
  have h₁ := (bytesAt R.packet 1).toNat_lt
  have h₂ := (bytesAt R.packet 2).toNat_lt
  have h₃ := (bytesAt R.packet 3).toNat_lt
  omega

end Response

/-- The first `m` bytes of the response have been received, its header and its data
to their places. -/
structure Received {nbytes : Nat} (R : Response nbytes) (m : Nat) (c : Client) : Prop where
  wf : c.sock.Wf
  rest : c.sock.bytes = R.packet.drop m
  bound : m ≤ R.packet.length
  header : ∀ i, i < m → i < 63 → c.smbBuf i = bytesAt R.packet i
  payload : ∀ i, i < R.dataLength → R.dataStart + i < m →
    c.readbuf i = bytesAt R.packet (R.dataStart + i)

section Receive

variable {nbytes : Nat} {R : Response nbytes} {m : Nat} {c : Client}

theorem Received.left (h : Received R m c) : c.sock.bytes.length = R.packet.length - m := by
  rw [h.rest, List.length_drop]

theorem Received.consumed (h : Received R R.packet.length c) : c.sock.bytes = [] := by
  rw [h.rest, List.drop_length]

theorem Received.data (h : Received R R.packet.length c) {i : Nat} (hi : i < R.dataLength) :
    c.readbuf i = bytesAt R.packet (R.dataStart + i) :=
  h.payload i hi (Nat.lt_of_lt_of_le (Nat.add_lt_add_left hi _) R.dataEnd_le)

theorem Received.word16 (h : Received R m c) {i : Nat} (hm : i + 1 < m) (hi : i + 1 < 63) :
    word16 c.smbBuf i = word16 (bytesAt R.packet) i := by
  unfold Smb.word16
  rw [h.header i (by omega) (by omega), h.header (i + 1) hm hi]

theorem Received.packetSize (h : Received R m c) (hm : 4 ≤ m) :
    sessionMessageLength c.smbBuf + 4 = R.packet.length := by
  rw [← R.length, sessionMessageLength, sessionMessageLength, h.header 1 (by omega) (by omega),
    h.header 2 (by omega) (by omega), h.header 3 (by omega) (by omega)]

theorem Received.recvUpTo (h : Received R m c) (upto : Nat) (hupto : upto ≤ 63) :
    ∃ c', (recvUpTo m upto upto).Continues c (max m upto) c' ∧ Received R (max m upto) c' := by
  have hcomplete := R.complete
  have hstart := R.dataStart_ge
  have hleft := h.left
  unfold Smb.recvUpTo
  by_cases hlt : m < upto
  · have hsum : m + (upto - m) = upto := by omega
    obtain ⟨s', hwf, hbytes, hread⟩ :=
      recvDataTo_continues h.wf (.smbBuf m) (upto - m) (by omega)
    rw [if_pos hlt, Nat.max_eq_right (Nat.le_of_lt hlt)]
    refine ⟨{ c.put (.smbBuf m) (c.sock.bytes.take (upto - m)) with sock := s' },
      hread.bind ?_, hwf, ?_, by omega, ?_, ?_⟩
    · refine (Prog.continues_when_neg (by omega)).bind ?_
      rw [hsum]
      exact Prog.continues_pure
    · rw [hbytes, h.rest, List.drop_drop, hsum]
    · intro i hi hi63
      have hrest : c.sock.bytes = R.packet.drop (0 + m) := by rw [h.rest, Nat.zero_add]
      have hold : i < m → c.smbBuf i = bytesAt R.packet (0 + i) := by
        intro him
        rw [Nat.zero_add]
        exact h.header i him hi63
      have hstored := store_extends (n := upto - m) hrest (by omega) (by omega) hold
      rwa [Nat.zero_add] at hstored
    · intro i _ hi
      omega
  · rw [if_neg hlt, Nat.max_eq_left (Nat.le_of_not_lt hlt)]
    exact ⟨c, Prog.continues_pure, h⟩

/-- Skipping bytes in front of the data or behind it. -/
theorem Received.discardRest (h : Received R m c) (hm : 63 ≤ m) (upto : Nat)
    (hupto : upto ≤ R.packet.length)
    (hskip : upto ≤ R.dataStart ∨ R.dataEnd ≤ m) :
    ∃ c', (discardRest m upto).Continues c () c' ∧ Received R (max m upto) c' := by
  have hleft := h.left
  unfold Smb.discardRest
  by_cases hlt : m < upto
  · obtain ⟨s', hwf, hbytes, hloop⟩ :=
      discardLoop_continues (upto - m) (upto - m) h.wf (Nat.le_refl _) (by omega)
    rw [Prog.when_pos hlt, Nat.max_eq_right (Nat.le_of_lt hlt)]
    refine ⟨{ c with sock := s' }, hloop, hwf, ?_, hupto, ?_, ?_⟩
    · rw [hbytes, h.rest, List.drop_drop]
      congr 1
      omega
    · intro i _ hi63
      exact h.header i (by omega) hi63
    · intro i hi _
      refine h.payload i hi ?_
      unfold Response.dataEnd at hskip
      omega
  · rw [Nat.max_eq_left (Nat.le_of_not_lt hlt)]
    exact ⟨c, Prog.continues_when_neg hlt, h⟩

theorem Received.recvPayload (h : Received R m c) (hstart : R.dataStart ≤ m)
    (hend : m ≤ R.dataEnd) :
    ∃ c', (Prog.when (m - R.dataStart < R.dataLength) do
        let _ ← recvDataTo (.readbuf (m - R.dataStart)) (R.dataLength - (m - R.dataStart))
        pure ()).Continues c () c' ∧ Received R R.dataEnd c' := by
  have hleft := h.left
  have hle := R.dataEnd_le
  have hge := R.dataStart_ge
  have hsum : R.dataEnd = R.dataStart + R.dataLength := rfl
  obtain ⟨got, rfl⟩ := Nat.exists_eq_add_of_le hstart
  rw [Nat.add_sub_cancel_left]
  by_cases hlt : got < R.dataLength
  · obtain ⟨s', hwf, hbytes, hread⟩ :=
      recvDataTo_continues h.wf (.readbuf got) (R.dataLength - got) (by omega)
    rw [Prog.when_pos hlt]
    refine ⟨_, hread.bind Prog.continues_pure, hwf, ?_, hle, ?_, ?_⟩
    · rw [hbytes, h.rest, List.drop_drop]
      congr 1
      omega
    · intro i _ hi63
      exact h.header i (by omega) hi63
    · intro i hi _
      exact store_extends h.rest (by omega) (by omega) fun hold => h.payload i hi (by omega)
  · obtain rfl : got = R.dataLength := by omega
    exact ⟨c, Prog.continues_when_neg hlt, h⟩

/-! ## The parts of the function -/

theorem Received.receiveHeader (h : Received R m c) (hm : 4 ≤ m) :
    ∃ c', (receiveHeader m R.packet.length).Continues c (max m 63) c' ∧
      Received R (max m 63) c' := by
  have hcomplete := R.complete
  obtain ⟨c₁, hrecv₁, h₁⟩ := h.recvUpTo 36 (by omega)
  obtain ⟨c₂, hrecv₂, h₂⟩ := h₁.recvUpTo 63 (by omega)
  have hmagic : smbMagic c₁.smbBuf = smbMagicNumber := by
    rw [← R.magic, smbMagic, smbMagic, word32, word32, h₁.word16 (by omega) (by omega),
      h₁.word16 (by omega) (by omega)]
  have hstatus : smbStatus c₁.smbBuf = statusSuccess := by
    rw [← R.status, smbStatus, smbStatus, h₁.word16 (by omega) (by omega),
      h₁.word16 (by omega) (by omega)]
  have hmax : max (max m 36) 63 = max m 63 := by omega
  rw [hmax] at hrecv₂ h₂
  refine ⟨c₂, ?_, h₂⟩
  unfold Smb.receiveHeader
  rw [Nat.min_eq_left (by omega)]
  refine hrecv₁.bind (Prog.continues_get.bind ?_)
  refine (Prog.continues_when_neg (by simp only [hmagic]; omega)).bind ?_
  rw [hstatus]
  refine Prog.continues_pure.bind ((Prog.continues_when_neg (by omega)).bind ?_)
  exact hrecv₂

theorem Received.dataFields (h : Received R m c) (hm : 63 ≤ m) :
    dataOffset c.smbBuf + 4 = R.dataStart ∧ dataLength c.smbBuf = R.dataLength := by
  refine ⟨?_, ?_⟩
  · rw [dataOffset, h.word16 (by omega) (by omega)]
    rfl
  · rw [dataLength, h.word16 (by omega) (by omega), h.word16 (by omega) (by omega)]
    rfl

/-- A well-formed response passes the checks of the data fields. -/
theorem Received.receivePayload (h : Received R m c) (hm : 63 ≤ m) :
    (receivePayload nbytes m R.packet.length).run.run c =
      (receiveData R.dataStart R.dataLength m R.packet.length).run.run c := by
  obtain ⟨hoffset, hlength⟩ := h.dataFields hm
  have hge := R.dataStart_ge
  have hbound := R.packet_lt
  have hend : R.dataStart + R.dataLength ≤ R.packet.length := R.dataEnd_le
  have hreq : R.dataLength ≤ nbytes := R.requested
  unfold Smb.receivePayload
  refine Prog.continues_get.run_bind.trans ?_
  dsimp only
  rw [hlength, hoffset]
  exact (Prog.continues_when_neg (by omega)).run_bind

theorem Received.receiveData (h : Received R m c) (hm : 63 ≤ m) (hend : m ≤ R.dataEnd) :
    ∃ c', (receiveData R.dataStart R.dataLength m R.packet.length).Continues c R.dataLength c' ∧
      Received R R.packet.length c' := by
  have hle := R.dataEnd_le
  have hstart : R.dataStart ≤ R.dataEnd := Nat.le_add_right _ _
  have hsum : R.dataEnd = R.dataStart + R.dataLength := rfl
  have hge := R.dataStart_ge
  obtain ⟨c₁, hskip, h₁⟩ := h.discardRest hm R.dataStart (by omega) (Or.inl (by omega))
  obtain ⟨c₂, hdata, h₂⟩ := h₁.recvPayload (by omega) (by omega)
  obtain ⟨c₃, hrest, h₃⟩ :=
    h₂.discardRest (by omega) R.packet.length (Nat.le_refl _) (Or.inr (Nat.le_refl _))
  rw [Nat.max_eq_right hle] at h₃
  refine ⟨c₃, ?_, h₃⟩
  unfold Smb.receiveData
  refine hskip.bind ((Prog.continues_when_neg (by omega)).bind ?_)
  exact hdata.bind (hrest.bind Prog.continues_pure)

/-- Bytes behind the data that came with it make the function refuse the packet. -/
theorem Received.receiveData_overrun (h : Received R m c) (hm : 63 ≤ m) (hend : R.dataEnd < m) :
    ∃ c', (Smb.receiveData R.dataStart R.dataLength m R.packet.length).Exits c (.error .eproto) c' := by
  have hbound := h.bound
  have hstart : R.dataStart ≤ R.dataEnd := Nat.le_add_right _ _
  have hsum : R.dataEnd = R.dataStart + R.dataLength := rfl
  obtain ⟨c₁, hskip, h₁⟩ := h.discardRest hm R.dataStart (by omega) (Or.inl (by omega))
  rw [Nat.max_eq_left (by omega)] at h₁
  obtain ⟨c₂, hrest, -⟩ :=
    h₁.discardRest hm R.packet.length (Nat.le_refl _) (Or.inr (by omega))
  refine ⟨c₂, ?_⟩
  unfold Smb.receiveData
  refine hskip.bind_exits (Prog.Exits.bind ?_)
  rw [Nat.max_eq_left (by omega), Prog.when_pos (by omega)]
  exact hrest.bind_exits Prog.exits_throw

end Receive

/-! ## The split receive -/

/-- How far the first split receive gets into a response. -/
def splitReach (nbytes : Nat) (chunk : List UInt8) : Nat := (splitBuffer 49 nbytes chunk).consumed

section Split

variable {nbytes : Nat} {R : Response nbytes} {c : Client}

theorem word16_chunk {chunk rest : List UInt8} (hpacket : R.packet = chunk ++ rest)
    (hlen : 63 ≤ chunk.length) :
    word16 (bytesAt (chunk.take 63)) 49 + 4 = R.dataStart := by
  unfold Response.dataStart dataOffset word16
  rw [bytesAt_take (by omega), bytesAt_take (by omega), hpacket, bytesAt_append (by omega),
    bytesAt_append (by omega)]

/-- The split receive either stops in front of the data, or takes what the buffer and
the 16-bit `plen` allow. -/
theorem splitBuffer_data {chunk rest : List UInt8} (hpacket : R.packet = chunk ++ rest) :
    (chunk.length < R.dataStart ∧ splitReach nbytes chunk ≤ 63) ∨
      (R.dataStart ≤ chunk.length ∧
        splitReach nbytes chunk =
          R.dataStart + min (chunk.length - R.dataStart) (nbytes % 65536) ∧
        (splitBuffer 49 nbytes chunk).payload =
          (chunk.drop R.dataStart).take (min (chunk.length - R.dataStart) (nbytes % 65536))) := by
  have hge := R.dataStart_ge
  unfold splitReach splitBuffer
  dsimp only
  by_cases hshort : chunk.length < 63
  · rw [if_pos hshort]
    exact Or.inl ⟨by omega, by dsimp only; omega⟩
  · rw [if_neg hshort, word16_chunk hpacket (by omega)]
    by_cases hle : R.dataStart ≤ chunk.length
    · rw [if_pos ⟨hge, hle⟩]
      exact Or.inr ⟨hle, rfl, rfl⟩
    · rw [if_neg (by omega)]
      exact Or.inl ⟨by omega, Nat.le_refl 63⟩

theorem splitBuffer_received {chunk rest : List UInt8} (hpacket : R.packet = chunk ++ rest)
    {s' : Sock} (hwf : s'.Wf) (hrest : s'.bytes = R.packet.drop (splitReach nbytes chunk)) :
    Received R (splitReach nbytes chunk)
      { (c.put (.smbBuf 0) (splitBuffer 49 nbytes chunk).header).put (.readbuf 0)
          (splitBuffer 49 nbytes chunk).payload with sock := s' } := by
  have hge := R.dataStart_ge
  have hreach : splitReach nbytes chunk ≤ chunk.length := splitBuffer_consumed_le 49 nbytes chunk
  have hat : ∀ i, i < chunk.length → bytesAt chunk i = bytesAt R.packet i := by
    intro i hi
    rw [hpacket, bytesAt_append hi]
  have hlen : chunk.length ≤ R.packet.length := by
    rw [hpacket, List.length_append]
    omega
  refine ⟨hwf, hrest, Nat.le_trans hreach hlen, ?_, ?_⟩
  · intro i hi hi63
    have hin : i < (chunk.take 63).length := by
      rw [List.length_take]
      omega
    calc store c.smbBuf 0 (splitBuffer 49 nbytes chunk).header i
        = bytesAt (chunk.take 63) i := by rw [splitBuffer_header, store_zero hin]
      _ = bytesAt R.packet i := by rw [bytesAt_take hi63, hat i (by omega)]
  · intro i _ hi
    rcases splitBuffer_data hpacket with ⟨-, hfront⟩ | ⟨hstart, htaken, hpayload⟩
    · omega
    · rw [htaken] at hi
      have hin : i < ((chunk.drop R.dataStart).take
          (min (chunk.length - R.dataStart) (nbytes % 65536))).length := by
        rw [List.length_take, List.length_drop]
        omega
      calc store c.readbuf 0 (splitBuffer 49 nbytes chunk).payload i
          = bytesAt (chunk.drop R.dataStart) i := by
            rw [hpayload, store_zero hin, bytesAt_take (by omega)]
        _ = bytesAt R.packet (R.dataStart + i) := by rw [bytesAt_drop, hat _ (by omega)]

theorem Response.packet_ne_nil (R : Response nbytes) : R.packet ≠ [] := by
  intro hnil
  have hcomplete := R.complete
  rw [hnil] at hcomplete
  simp at hcomplete

/-- Without a keep-alive packet in front, the first packet is the response. -/
theorem nextPacket_response (h : c.sock.Wf) (hbytes : c.sock.bytes = R.packet) (rounds : Nat) :
    ∃ c', (nextPacket nbytes (rounds + 1)).Continues c (max (splitReach nbytes c.sock.chunk) 4) c' ∧
      Received R (max (splitReach nbytes c.sock.chunk) 4) c' := by
  have hne : c.sock.bytes ≠ [] := by
    rw [hbytes]
    exact R.packet_ne_nil
  obtain ⟨-, rest, hchunk⟩ := Sock.chunk_spec h hne
  obtain ⟨s', hwf, hrest, hsplit⟩ := recvSplitTimeout_continues h hne 49 nbytes
  rw [hbytes] at hchunk hrest
  have hreceived := splitBuffer_received (c := c) hchunk hwf hrest
  obtain ⟨c₁, hrecv, h₁⟩ := hreceived.recvUpTo 4 (by omega)
  have htype : packetType c₁.smbBuf = 0 := by
    rw [← R.type, packetType, packetType, h₁.header 0 (by omega) (by omega)]
  refine ⟨c₁, ?_, h₁⟩
  unfold nextPacket
  refine hsplit.bind (hrecv.bind (Prog.continues_get.bind ?_))
  dsimp only
  rw [h₁.packetSize (by omega), htype]
  have hbound := h₁.bound
  exact (Prog.continues_when_neg (by omega)).bind Prog.continues_pure

/-- The state in which the response is received: the request was sent and is still in
`SMB_buf`. -/
def requested (uid tid fid fileoffset nbytes : Nat) (c : Client) (cut : List Pbuf) : Client :=
  let packet := readAndXRequest uid tid fid fileoffset nbytes
  { c.put (.smbBuf 0) packet with sock := Sock.received cut, sent := c.sent ++ [packet] }

theorem smbReadAndX_run (uid tid fid fileoffset : Nat) (cut : List Pbuf) :
    (smbReadAndX uid tid fid fileoffset nbytes).run.run { c with sock := Sock.received cut } =
      (do
        let received ← nextPacket nbytes ((stream cut).length + 1)
        let c ← get
        let packetSize := sessionMessageLength c.smbBuf + 4
        let received ← receiveHeader received packetSize
        receivePayload nbytes received packetSize : Fn Nat).run.run
        (requested uid tid fid fileoffset nbytes c cut) := rfl

/-- With the response alone on the stream, everything up to the data is received
whatever the first buffer holds. -/
theorem readFrom_run (uid tid fid fileoffset : Nat) (R : Response nbytes) (c : Client)
    {cut : List Pbuf} (hcut : stream cut = R.packet) :
    ∃ c', Received R (max (splitReach nbytes (Sock.received cut).chunk) 63) c' ∧
      (smbReadAndX uid tid fid fileoffset nbytes).run.run { c with sock := Sock.received cut } =
        (Smb.receiveData R.dataStart R.dataLength
          (max (splitReach nbytes (Sock.received cut).chunk) 63) R.packet.length).run.run c' := by
  obtain ⟨c₁, hnext, h₁⟩ :=
    nextPacket_response (c := requested uid tid fid fileoffset nbytes c cut) (R := R)
      (Sock.received_wf cut) hcut (stream cut).length
  obtain ⟨c₂, hheader, h₂⟩ := h₁.receiveHeader (by omega)
  have hrun := (smbReadAndX_run (c := c) uid tid fid fileoffset cut).trans hnext.run_bind
  replace hrun := hrun.trans Prog.continues_get.run_bind
  dsimp only at hrun
  rw [h₁.packetSize (by omega), hheader.run_bind, h₂.receivePayload (by omega)] at hrun
  rw [Nat.max_assoc] at h₂ hrun
  exact ⟨c₂, h₂, hrun⟩

theorem readFrom_intact (uid tid fid fileoffset : Nat) (R : Response nbytes) (c : Client)
    {cut : List Pbuf} (hcut : stream cut = R.packet)
    (hreach : splitReach nbytes (Sock.received cut).chunk ≤ R.dataEnd) :
    ∃ c', readFrom uid tid fid fileoffset nbytes c cut = (.ok R.dataLength, c') ∧
      Received R R.packet.length c' := by
  have hge : 63 ≤ R.dataEnd := Nat.le_trans R.dataStart_ge (Nat.le_add_right _ _)
  obtain ⟨c₁, h₁, hrun⟩ := readFrom_run uid tid fid fileoffset R c hcut
  obtain ⟨c₂, hdata, h₂⟩ := h₁.receiveData (Nat.le_max_right _ _) (Nat.max_le.mpr ⟨hreach, hge⟩)
  exact ⟨c₂, Prog.Continues.outcome _ (hrun.trans hdata), h₂⟩

theorem readFrom_overrun (uid tid fid fileoffset : Nat) (R : Response nbytes) (c : Client)
    {cut : List Pbuf} (hcut : stream cut = R.packet)
    (hreach : R.dataEnd < splitReach nbytes (Sock.received cut).chunk) :
    (readFrom uid tid fid fileoffset nbytes c cut).1 = .error .eproto := by
  obtain ⟨c₁, h₁, hrun⟩ := readFrom_run uid tid fid fileoffset R c hcut
  obtain ⟨c₂, hexit⟩ := h₁.receiveData_overrun (Nat.le_max_right _ _)
    (Nat.lt_of_lt_of_le hreach (Nat.le_max_left _ _))
  exact congrArg Prod.fst (Prog.Exits.outcome _ (hrun.trans hexit))

end Split

/-! ## Cutting a stream -/

def keepAlives (k : Nat) : List UInt8 := (List.replicate k [0x85, 0, 0, 0]).flatten

/-- Two calls agree: the result, the bytes read, and the whole stream consumed. -/
structure SameRead (r₁ r₂ : Ret × Client) : Prop where
  result : r₁.1 = r₂.1
  bytes : ∀ n, r₁.1 = .ok n → ∀ i, i < n → r₁.2.readbuf i = r₂.2.readbuf i
  consumed₁ : r₁.2.sock.bytes = []
  consumed₂ : r₂.2.sock.bytes = []

section Cuts

variable {nbytes : Nat} (R : Response nbytes)

/-- No buffer can carry the split receive beyond the data. -/
def Response.NoOverrun : Prop :=
  R.padding = 0 ∨ nbytes % 65536 ≤ R.dataLength ∨ 65535 ≤ R.dataEnd

theorem chunk_received {cut : List Pbuf} (hcut : stream cut = R.packet) :
    ∃ rest, R.packet = (Sock.received cut).chunk ++ rest ∧
      (Sock.received cut).chunk.length ≤ 65535 := by
  cases cut with
  | nil => exact absurd hcut.symm R.packet_ne_nil
  | cons p ps => exact ⟨stream ps, hcut.symm, Nat.le_of_lt_succ p.small⟩

theorem splitReach_le_dataEnd (h : R.NoOverrun) {cut : List Pbuf} (hcut : stream cut = R.packet) :
    splitReach nbytes (Sock.received cut).chunk ≤ R.dataEnd := by
  obtain ⟨rest, hpacket, hsmall⟩ := chunk_received R hcut
  have hge := R.dataStart_ge
  have hend : R.dataEnd = R.dataStart + R.dataLength := rfl
  have hlen : (Sock.received cut).chunk.length ≤ R.packet.length := by
    rw [hpacket, List.length_append]
    omega
  rcases splitBuffer_data hpacket with ⟨-, hfront⟩ | ⟨hstart, htaken, -⟩
  · omega
  · rw [htaken]
    rcases h with hpad | hreq | hlarge
    · unfold Response.padding at hpad
      omega
    · omega
    · omega

/-- A buffer that ends one byte behind the data. -/
theorem exists_overrun (h : ¬ R.NoOverrun) :
    ∃ cut, stream cut = R.packet ∧ R.dataEnd < splitReach nbytes (Sock.received cut).chunk := by
  have hge := R.dataStart_ge
  have hend : R.dataEnd = R.dataStart + R.dataLength := rfl
  unfold Response.NoOverrun Response.padding at h
  have hlen : (R.packet.take (R.dataEnd + 1)).length = R.dataEnd + 1 :=
    List.length_take_of_le (by omega)
  have hpos : R.packet.take (R.dataEnd + 1) ≠ [] := List.ne_nil_of_length_pos (by omega)
  refine ⟨cutAt (R.dataEnd + 1) R.packet hpos (by omega), stream_cutAt _ _ _ _, ?_⟩
  have hpacket : R.packet = R.packet.take (R.dataEnd + 1) ++ R.packet.drop (R.dataEnd + 1) :=
    (List.take_append_drop _ _).symm
  change R.dataEnd < splitReach nbytes (R.packet.take (R.dataEnd + 1))
  rcases splitBuffer_data hpacket with ⟨hshort, -⟩ | ⟨hstart, htaken, -⟩
  · omega
  · rw [htaken, hlen]
    omega

/-- A buffer with a single byte never overruns. -/
theorem exists_no_overrun :
    ∃ cut, stream cut = R.packet ∧ splitReach nbytes (Sock.received cut).chunk ≤ R.dataEnd := by
  have hge := R.dataStart_ge
  have hend : R.dataEnd = R.dataStart + R.dataLength := rfl
  have hcomplete := R.complete
  have hlen : (R.packet.take 1).length = 1 := List.length_take_of_le (by omega)
  have hpos : R.packet.take 1 ≠ [] := List.ne_nil_of_length_pos (by omega)
  have hreach : splitReach nbytes (R.packet.take 1) ≤ (R.packet.take 1).length :=
    splitBuffer_consumed_le 49 nbytes _
  refine ⟨cutAt 1 R.packet hpos (by omega), stream_cutAt _ _ _ _, ?_⟩
  change splitReach nbytes (R.packet.take 1) ≤ R.dataEnd
  omega

/-- A keep-alive packet is refused when the byte behind it comes in the same buffer,
and the rest of the stream stays on the socket. -/
theorem nextPacket_keepAlive (nbytes rounds : Nat) {c : Client} {b : UInt8} {rest : List UInt8}
    (h : c.sock.Wf) (hchunk : c.sock.chunk = [0x85, 0, 0, 0, b])
    (hbytes : c.sock.bytes = [0x85, 0, 0, 0, b] ++ rest) :
    ∃ c', (nextPacket nbytes (rounds + 1)).Exits c (.error .eproto) c' ∧
      c'.sock.bytes = rest := by
  have hne : c.sock.bytes ≠ [] := by
    rw [hbytes]
    exact List.cons_ne_nil _ _
  obtain ⟨s', -, hrest, hsplit⟩ := recvSplitTimeout_continues h hne 49 nbytes
  have hshort : splitBuffer 49 nbytes [0x85, 0, 0, 0, b] = ⟨5, [0x85, 0, 0, 0, b], []⟩ := rfl
  have hkept : recvUpTo 5 4 4 = pure 5 := rfl
  have hsize : sessionMessageLength (store c.smbBuf 0 [0x85, 0, 0, 0, b]) = 0 := by
    simp [sessionMessageLength, store, bytesAt]
  rw [hchunk, hshort] at hsplit hrest
  rw [hbytes] at hrest
  refine ⟨{ (c.put (.smbBuf 0) [0x85, 0, 0, 0, b]).put (.readbuf 0) [] with sock := s' },
    ?_, hrest⟩
  unfold nextPacket
  refine hsplit.bind_exits ?_
  rw [hkept]
  refine Prog.continues_pure.bind_exits (Prog.continues_get.bind_exits (Prog.Exits.bind ?_))
  rw [Prog.when_pos]
  · exact Prog.exits_throw
  · exact Nat.lt_of_le_of_lt (Nat.add_le_add_right (Nat.le_of_eq hsize) 4) (by decide : 4 < 5)

theorem readFrom_keepAlive (uid tid fid fileoffset : Nat) (c : Client) {b : UInt8}
    {rest : List UInt8} {cut : List Pbuf}
    (hchunk : (Sock.received cut).chunk = [0x85, 0, 0, 0, b])
    (hcut : stream cut = [0x85, 0, 0, 0, b] ++ rest) :
    ∃ c', readFrom uid tid fid fileoffset nbytes c cut = (.error .eproto, c') ∧
      c'.sock.bytes = rest := by
  obtain ⟨c', hexit, hrest⟩ :=
    nextPacket_keepAlive nbytes (stream cut).length
      (c := requested uid tid fid fileoffset nbytes c cut) (Sock.received_wf cut) hchunk hcut
  exact ⟨c', Prog.Exits.outcome _ ((smbReadAndX_run uid tid fid fileoffset cut).trans hexit.bind),
    hrest⟩

/-- A first buffer with a keep-alive packet and the byte behind it. -/
theorem exists_keepAlive_cut (k : Nat) :
    ∃ cut b rest, (Sock.received cut).chunk = [0x85, 0, 0, 0, b] ∧
      stream cut = [0x85, 0, 0, 0, b] ++ rest ∧ stream cut = keepAlives (k + 1) ++ R.packet ∧
      rest ≠ [] := by
  have hcomplete := R.complete
  have hkeep : keepAlives (k + 1) = [0x85, 0, 0, 0] ++ keepAlives k := rfl
  obtain ⟨b, b', rest, htail⟩ : ∃ b b' rest, keepAlives k ++ R.packet = b :: b' :: rest := by
    have hlen : 63 ≤ (keepAlives k ++ R.packet).length := by
      rw [List.length_append]
      omega
    match keepAlives k ++ R.packet, hlen with
    | b :: b' :: rest, _ => exact ⟨b, b', rest, rfl⟩
  have hwhole : keepAlives (k + 1) ++ R.packet = [0x85, 0, 0, 0, b] ++ (b' :: rest) := by
    rw [hkeep, List.append_assoc, htail]
    rfl
  have hpos : ([0x85, 0, 0, 0, b] ++ (b' :: rest)).take 5 ≠ [] := List.cons_ne_nil _ _
  exact ⟨cutAt 5 ([0x85, 0, 0, 0, b] ++ (b' :: rest)) hpos (by omega), b, b' :: rest, rfl,
    stream_cutAt _ _ _ _, (stream_cutAt _ _ _ _).trans hwhole.symm, List.cons_ne_nil _ _⟩

/-- Reading gives the same however the stream is cut exactly when no keep-alive packet
comes before the response and no buffer can hold a byte behind the data that the
split receive would take for data. -/
theorem read_segmentation_iff (uid tid fid fileoffset k : Nat) (c : Client) :
    (∀ cut₁ cut₂ : List Pbuf, stream cut₁ = keepAlives k ++ R.packet →
        stream cut₂ = keepAlives k ++ R.packet →
        SameRead (readFrom uid tid fid fileoffset nbytes c cut₁)
          (readFrom uid tid fid fileoffset nbytes c cut₂)) ↔
      k = 0 ∧ (R.padding = 0 ∨ nbytes % 65536 ≤ R.dataLength ∨ 65535 ≤ R.dataEnd) := by
  constructor
  · intro h
    cases k with
    | zero =>
        refine ⟨rfl, Classical.byContradiction fun hover => ?_⟩
        obtain ⟨cut₁, hcut₁, hbehind⟩ := exists_overrun R hover
        obtain ⟨cut₂, hcut₂, hfront⟩ := exists_no_overrun R
        have hrefused := readFrom_overrun uid tid fid fileoffset R c hcut₁ hbehind
        obtain ⟨c₂, hread, -⟩ := readFrom_intact uid tid fid fileoffset R c hcut₂ hfront
        have hsame := (h cut₁ cut₂ hcut₁ hcut₂).result
        rw [hrefused, hread] at hsame
        cases hsame
    | succ k =>
        obtain ⟨cut, b, rest, hchunk, hbytes, hcut, hne⟩ := exists_keepAlive_cut R k
        obtain ⟨c', hread, hrest⟩ := readFrom_keepAlive uid tid fid fileoffset c hchunk hbytes
        have hall := (h cut cut hcut hcut).consumed₁
        rw [hread, hrest] at hall
        exact absurd hall hne
  · rintro ⟨rfl, hover⟩ cut₁ cut₂ hcut₁ hcut₂
    obtain ⟨c₁, hread₁, h₁⟩ := readFrom_intact uid tid fid fileoffset R c hcut₁
      (splitReach_le_dataEnd R hover hcut₁)
    obtain ⟨c₂, hread₂, h₂⟩ := readFrom_intact uid tid fid fileoffset R c hcut₂
      (splitReach_le_dataEnd R hover hcut₂)
    rw [hread₁, hread₂]
    refine ⟨rfl, ?_, h₁.consumed, h₂.consumed⟩
    rintro n ⟨⟩ i hi
    rw [h₁.data hi, h₂.data hi]

end Cuts

/-! ## A response with a byte of padding -/

/-- One byte of data at offset 59 and one byte of padding behind it. -/
def paddedPacket : List UInt8 :=
  [0, 0, 0, 61, 0xff, 0x53, 0x4d, 0x42, 0x2e] ++ List.replicate 38 0 ++ [1, 0, 59, 0] ++
    List.replicate 12 0 ++ [65, 0]

def paddedResponse : Response 2 where
  packet := paddedPacket
  complete := by decide
  type := by decide
  length := by decide
  magic := by decide
  status := by decide
  offset := by decide
  requested := by decide
  inside := by decide

/-- Read in one buffer the response is refused, read byte by byte it gives its data.
Behind a keep-alive packet in the same buffer it is refused as well. -/
theorem cut_changes_read :
    stream (cutAt 65 paddedPacket (by decide) (by decide)) = keepAlives 0 ++ paddedResponse.packet ∧
      stream (bytewise paddedPacket) = keepAlives 0 ++ paddedResponse.packet ∧
      (readFrom 0 0 0 0 2 idleClient (cutAt 65 paddedPacket (by decide) (by decide))).1 =
        .error .eproto ∧
      (readFrom 0 0 0 0 2 idleClient (bytewise paddedPacket)).1 = .ok 1 ∧
      (readFrom 0 0 0 0 2 idleClient
        (cutAt 5 (keepAlives 1 ++ paddedPacket) (by decide) (by decide))).1 = .error .eproto ∧
      ¬ ∀ cut₁ cut₂ : List Pbuf, stream cut₁ = keepAlives 0 ++ paddedResponse.packet →
        stream cut₂ = keepAlives 0 ++ paddedResponse.packet →
        SameRead (readFrom 0 0 0 0 2 idleClient cut₁) (readFrom 0 0 0 0 2 idleClient cut₂) := by
  have hrefused : (readFrom 0 0 0 0 2 idleClient
      (cutAt 65 paddedPacket (by decide) (by decide))).1 = .error .eproto := by decide +kernel
  have hread : (readFrom 0 0 0 0 2 idleClient (bytewise paddedPacket)).1 = .ok 1 := by
    decide +kernel
  refine ⟨stream_cutAt _ _ _ _, stream_bytewise _, hrefused, hread, by decide +kernel, ?_⟩
  intro h
  have hsame := (h (cutAt 65 paddedPacket (by decide) (by decide)) (bytewise paddedPacket)
    (stream_cutAt _ _ _ _) (stream_bytewise _)).result
  rw [hrefused, hread] at hsame
  cases hsame

end BdmAssault.Smb
