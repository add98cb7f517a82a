import BdmAssault.Smb.ServerReply

/-! # The stream stays in step

Every way out of `smb_ReadAndX` and `GetSMBServerReply` that is not a transport error
has taken the whole reply off the stream.
-/

namespace BdmAssault.Smb

open Lib

/-- `m` bytes of the packet were taken off the stream, and its session header, as far
as it was received, is in `SMB_buf`. -/
structure InStep (packet : List UInt8) (m : Nat) (c : Client) : Prop where
  wf : c.sock.Wf
  rest : c.sock.bytes = packet.drop m
  bound : m ≤ packet.length
  header : ∀ i, i < m → i < 4 → c.smbBuf i = bytesAt packet i

/-- What holds wherever a function returns. -/
def Drained (r : Ret) (c : Client) : Prop :=
  (∃ e, r = .error e ∧ e.isTransportError = true) ∨ c.sock.bytes = []

section InStep

variable {packet body : List UInt8} {m : Nat} {c : Client}

theorem InStep.left (h : InStep packet m c) : c.sock.bytes.length = packet.length - m := by
  rw [h.rest, List.length_drop]

theorem InStep.drained (h : InStep packet m c) (hall : packet.length ≤ m) (r : Ret) :
    Drained r c := by
  right
  rw [h.rest]
  exact List.drop_eq_nil_of_le hall

/-! ## The helpers -/

/-- Receiving the next bytes of the packet into their place in `SMB_buf`. -/
theorem InStep.recvBuf (h : InStep packet m c) (size : Nat) (hsize : m + size ≤ packet.length) :
    (recvDataTo (.smbBuf m) size).Ensures c
      (fun r c' => r = size ∧ InStep packet (m + size) c') Drained := by
  have hleft := h.left
  obtain ⟨s', hwf, hbytes, hread⟩ := recvDataTo_continues h.wf (.smbBuf m) size (by omega)
  apply hread.ensures
  refine ⟨rfl, hwf, ?_, hsize, ?_⟩
  · rw [hbytes, h.rest, List.drop_drop]
  · intro i hi hi4
    have hrest : c.sock.bytes = packet.drop (0 + m) := by rw [h.rest, Nat.zero_add]
    have hold : i < m → c.smbBuf i = bytesAt packet (0 + i) := by
      intro him
      rw [Nat.zero_add]
      exact h.header i him hi4
    have hstored := store_extends (n := size) hrest (by omega) hi hold
    rwa [Nat.zero_add] at hstored

/-- Receiving bytes behind the session header to another place. -/
theorem InStep.recvAway (h : InStep packet m c) (hm : 4 ≤ m) {dest : Dest} {size : Nat}
    (hsize : m + size ≤ packet.length) (haway : ∀ bytes, (c.put dest bytes).smbBuf = c.smbBuf) :
    (recvDataTo dest size).Ensures c (fun _ c' => InStep packet (m + size) c') Drained := by
  have hleft := h.left
  obtain ⟨s', hwf, hbytes, hread⟩ := recvDataTo_continues h.wf dest size (by omega)
  apply hread.ensures
  refine ⟨hwf, ?_, hsize, ?_⟩
  · rw [hbytes, h.rest, List.drop_drop]
  · intro i _ hi4
    show (c.put dest _).smbBuf i = bytesAt packet i
    rw [haway]
    exact h.header i (by omega) hi4

theorem InStep.discard (h : InStep packet m c) (hm : 4 ≤ m) (size : Nat)
    (hsize : m + size ≤ packet.length) :
    (discardData size).Ensures c (fun _ c' => InStep packet (m + size) c') Drained := by
  have hleft := h.left
  obtain ⟨s', hwf, hbytes, hloop⟩ :=
    discardLoop_continues size size h.wf (Nat.le_refl size) (by omega)
  apply hloop.ensures
  refine ⟨hwf, ?_, hsize, fun i _ hi4 => h.header i (by omega) hi4⟩
  show s'.bytes = _
  rw [hbytes, h.rest, List.drop_drop]

theorem InStep.discardRest (h : InStep packet m c) (hm : 4 ≤ m) (upto : Nat)
    (hupto : upto ≤ packet.length) :
    (discardRest m upto).Ensures c (fun _ c' => InStep packet (max m upto) c') Drained := by
  apply Prog.ensures_when
  · intro hlt
    have hd := h.discard hm (upto - m) (by omega)
    rw [Nat.add_sub_cancel' (Nat.le_of_lt hlt)] at hd
    rwa [Nat.max_eq_right (Nat.le_of_lt hlt)]
  · intro hle
    rwa [Nat.max_eq_left (Nat.le_of_not_lt hle)]

/-- Skipping the rest of the packet and returning something. -/
theorem InStep.skip (h : InStep packet m c) (hm : 4 ≤ m) {α : Type} (r : Ret)
    {Q : α → Client → Prop} :
    (Smb.discardRest m packet.length >>= fun _ => (throw r : Fn α)).Ensures c Q Drained := by
  refine (h.discardRest hm _ (Nat.le_refl _)).bind fun _ c' h' => ?_
  exact Prog.ensures_throw (h'.drained (Nat.le_max_right _ _) r)

theorem InStep.reject (h : InStep packet m c) (hm : 4 ≤ m) {Q : Unit → Client → Prop} :
    (rejectSMBPacket m packet.length).Ensures c Q Drained := h.skip hm _

/-- `recvUpTo` returns 0 only where the packet ends. -/
theorem InStep.recvUpTo (h : InStep packet m c) (limit upto : Nat) (hupto : upto ≤ packet.length)
    (hle : m < limit → m ≤ upto) (hfull : m < limit → m = upto → packet.length ≤ m) :
    (recvUpTo m limit upto).Ensures c
      (fun r c' => InStep packet r c' ∧ m ≤ r ∧ (limit ≤ r ∨ r = upto)) Drained := by
  unfold Smb.recvUpTo
  by_cases hlt : m < limit
  · rw [if_pos hlt]
    have hsum : m + (upto - m) = upto := Nat.add_sub_cancel' (hle hlt)
    refine (h.recvBuf (upto - m) (by omega)).bind fun r c' ⟨hr, h'⟩ => ?_
    subst hr
    rw [hsum] at h' ⊢
    refine Prog.Ensures.bind (R := fun _ c'' => InStep packet upto c'') ?_ ?_
    · apply Prog.ensures_when
      · intro hzero
        exact Prog.ensures_throw (h'.drained (by have := hfull hlt (by omega); omega) _)
      · exact fun _ => h'
    · intro _ c'' h''
      exact Prog.ensures_pure ⟨h'', hle hlt, Or.inr rfl⟩
  · rw [if_neg hlt]
    exact Prog.ensures_pure ⟨h, Nat.le_refl m, Or.inl (Nat.le_of_not_lt hlt)⟩

/-! ## `smb_ReadAndX` -/

theorem InStep.recvSplit (h : InStep packet 0 c) (hne : packet ≠ []) (plen : Nat) :
    (recvSplitTimeout 49 plen).Ensures c (fun r c' => InStep packet r c') Drained := by
  have hbytes : c.sock.bytes = packet := by simpa using h.rest
  obtain ⟨-, rest, hchunk⟩ := Sock.chunk_spec h.wf (by rwa [hbytes])
  obtain ⟨s', hwf, hrest, hsplit⟩ := recvSplitTimeout_continues h.wf (by rwa [hbytes]) 49 plen
  have hreach := splitBuffer_consumed_le 49 plen c.sock.chunk
  rw [hbytes] at hchunk hrest
  have hlen : c.sock.chunk.length ≤ packet.length := by
    rw [hchunk, List.length_append]
    omega
  apply hsplit.ensures
  refine ⟨hwf, hrest, Nat.le_trans hreach hlen, ?_⟩
  intro i hi hi4
  have hin : i < (c.sock.chunk.take 63).length := by
    rw [List.length_take]
    omega
  calc store c.smbBuf 0 (splitBuffer 49 plen c.sock.chunk).header i
      = bytesAt (c.sock.chunk.take 63) i := by rw [splitBuffer_header, store_zero hin]
    _ = bytesAt c.sock.chunk i := bytesAt_take (by omega)
    _ = bytesAt packet i := by rw [hchunk, bytesAt_append (by omega)]

theorem InStep.type (h : InStep (frame body) m c) (hm : 4 ≤ m) : packetType c.smbBuf = 0 := by
  rw [packetType, h.header 0 (by omega) (by omega)]
  exact frame_type body

theorem InStep.size (h : InStep (frame body) m c) (hm : 4 ≤ m) (hbody : body.length < 16777216) :
    sessionMessageLength c.smbBuf = body.length := by
  rw [sessionMessageLength, h.header 1 (by omega) (by omega), h.header 2 (by omega) (by omega),
    h.header 3 (by omega) (by omega)]
  exact frame_size hbody

theorem InStep.nextPacket (h : InStep (frame body) 0 c) (hbody : body.length < 16777216)
    (nbytes rounds : Nat) :
    (nextPacket nbytes (rounds + 1)).Ensures c
      (fun r c' => InStep (frame body) r c' ∧ 4 ≤ r) Drained := by
  have hlen := frame_length body
  have hne : frame body ≠ [] := by
    intro hnil
    rw [hnil] at hlen
    simp at hlen
  unfold Smb.nextPacket
  refine (h.recvSplit hne nbytes).bind fun r c₁ h₁ => ?_
  refine (h₁.recvUpTo 4 4 (by omega) (by omega) (by omega)).bind ?_
  intro r₂ c₂ ⟨h₂, _, h4⟩
  have hr₂ : 4 ≤ r₂ := by omega
  have hbound := h₂.bound
  apply Prog.Ensures.get
  rw [h₂.size hr₂ hbody, h₂.type hr₂]
  dsimp only
  rw [if_pos rfl]
  refine Prog.Ensures.bind (R := fun _ c' => c' = c₂) ?_ ?_
  · apply Prog.ensures_when
    · intro hmore
      omega
    · exact fun _ => rfl
  · intro _ c' hc'
    subst hc'
    exact Prog.ensures_pure ⟨h₂, hr₂⟩

theorem InStep.checkStatus (h : InStep packet m c) (hm : 4 ≤ m) (status : Nat) :
    (checkStatus status m packet.length).Ensures c (fun _ c' => InStep packet m c') Drained := by
  unfold Smb.checkStatus
  split
  · exact Prog.ensures_pure h
  · split
    · exact h.skip hm _
    · split
      · exact Prog.ensures_throw (Or.inl ⟨_, rfl, rfl⟩)
      · exact h.skip hm _

/-- A test whose failure rejects the packet. -/
theorem InStep.check (h : InStep packet m c) (hm : 4 ≤ m) (p : Prop) [Decidable p] :
    (Prog.when p (rejectSMBPacket m packet.length)).Ensures c
      (fun _ c' => InStep packet m c' ∧ ¬p) Drained := by
  apply Prog.ensures_when
  · exact fun _ => h.reject hm
  · exact fun hp => ⟨h, hp⟩

theorem InStep.receiveHeader (h : InStep packet m c) (hm : 4 ≤ m) :
    (receiveHeader m packet.length).Ensures c
      (fun r c' => InStep packet r c' ∧ 4 ≤ r) Drained := by
  have hbound := h.bound
  unfold Smb.receiveHeader
  refine (h.recvUpTo _ _ (by omega) (by omega) (by omega)).bind fun r c₁ ⟨h₁, hr, _⟩ => ?_
  have hr4 : 4 ≤ r := by omega
  apply Prog.Ensures.get
  refine (h₁.check hr4 _).bind fun _ c₂ ⟨h₂, _⟩ => ?_
  refine (h₂.checkStatus hr4 _).bind fun _ c₃ h₃ => ?_
  refine (h₃.check hr4 _).bind fun _ c₄ ⟨h₄, hbody⟩ => ?_
  have hbound₄ := h₄.bound
  have hrecv := h₄.recvUpTo 63 63 (by omega) (by omega) (by omega)
  exact hrecv.mono fun r' c₅ ⟨h₅, hr', _⟩ => ⟨h₅, by omega⟩

theorem InStep.receiveData (h : InStep packet m c) (hm : 4 ≤ m) {start length : Nat}
    (hinside : start + length ≤ packet.length) :
    (receiveData start length m packet.length).Ensures c
      (fun _ c' => c'.sock.bytes = []) Drained := by
  unfold Smb.receiveData
  refine (h.discardRest hm start (by omega)).bind fun _ c₁ h₁ => ?_
  have hm₁ : 4 ≤ max m start := by omega
  refine (h₁.check hm₁ _).bind fun _ c₂ ⟨h₂, hfits⟩ => ?_
  -- what the split receive left over of the data
  refine Prog.Ensures.bind (R := fun _ c₃ => InStep packet (start + length) c₃) ?_ ?_
  · apply Prog.ensures_when
    · intro hmore
      have hsum : max m start + (length - (max m start - start)) = start + length := by omega
      refine (h₂.recvAway hm₁ (by omega) fun _ => rfl).bind fun _ c₃ h₃ => ?_
      rw [hsum] at h₃
      exact Prog.ensures_pure h₃
    · intro hall
      have hsum : max m start = start + length := by omega
      rwa [← hsum]
  · intro _ c₃ h₃
    refine (h₃.discardRest (by omega) _ (Nat.le_refl _)).bind fun _ c₄ h₄ => ?_
    apply Prog.ensures_pure
    rw [h₄.rest]
    exact List.drop_eq_nil_of_le (Nat.le_max_right _ _)

theorem InStep.receivePayload (h : InStep packet m c) (hm : 4 ≤ m) (nbytes : Nat) :
    (receivePayload nbytes m packet.length).Ensures c (fun _ c' => c'.sock.bytes = []) Drained := by
  have hbound := h.bound
  unfold Smb.receivePayload
  apply Prog.Ensures.get
  refine (h.check hm _).bind fun _ c₁ ⟨h₁, hfields⟩ => ?_
  exact h₁.receiveData hm (by omega)

/-! ## `GetSMBServerReply` -/

theorem InStep.nextSession (h : InStep (frame body) 0 c) (rounds : Nat) :
    (nextSession (rounds + 1)).Ensures c (fun _ c' => InStep (frame body) 4 c') Drained := by
  have hlen := frame_length body
  unfold Smb.nextSession
  refine (h.recvBuf 4 (by omega)).bind fun _ c₁ ⟨_, h₁⟩ => ?_
  rw [Nat.zero_add] at h₁
  apply Prog.Ensures.get
  rw [h₁.type (Nat.le_refl 4), if_pos rfl]
  exact Prog.ensures_pure h₁

theorem InStep.receiveMessage (h : InStep (frame body) 4 c) (hbody : body.length < 16777216) :
    receiveMessage.Ensures c (fun _ c' => c'.sock.bytes = []) Drained := by
  have hlen := frame_length body
  unfold Smb.receiveMessage
  apply Prog.Ensures.get
  rw [h.size (Nat.le_refl 4) hbody]
  dsimp only
  split
  · refine (h.discard (Nat.le_refl 4) _ (by omega)).bind fun _ c₁ h₁ => ?_
    exact Prog.ensures_throw (h₁.drained (by omega) _)
  · refine (h.recvBuf _ (by omega)).mono fun _ c₁ ⟨_, h₁⟩ => ?_
    rw [h₁.rest]
    exact List.drop_eq_nil_of_le (by omega)

/-! ## The calls -/

/-- The reply has arrived, and sending wrote to `SMB_buf` and `sent` only. -/
theorem inStep_received {cut : List Pbuf} (hcut : stream cut = packet)
    (hsock : c.sock = Sock.received cut) : InStep packet 0 c where
  wf := by
    rw [hsock]
    exact Sock.received_wf cut
  rest := by
    rw [hsock, Sock.received_bytes, hcut]
    rfl
  bound := Nat.zero_le _
  header i hi := by omega

theorem InStep.sendRequest (h : InStep packet 0 c) (request : List UInt8) :
    (sendRequest request).Ensures c (fun _ c' => InStep packet 0 c') Drained :=
  Prog.continues_modify.ensures ⟨h.wf, h.rest, h.bound, fun i hi => by omega⟩

theorem smbReadAndX_drained (h : InStep (frame body) 0 c) (hbody : body.length < 16777216)
    (uid tid fid fileoffset nbytes : Nat) :
    (smbReadAndX uid tid fid fileoffset nbytes).Ensures c
      (fun _ c' => c'.sock.bytes = []) Drained := by
  have hlen := frame_length body
  unfold smbReadAndX
  refine (h.sendRequest _).bind fun _ c₁ h₁ => ?_
  apply Prog.Ensures.get
  refine (h₁.nextPacket hbody nbytes _).bind fun r c₂ ⟨h₂, hr⟩ => ?_
  apply Prog.Ensures.get
  rw [h₂.size hr hbody, ← hlen]
  dsimp only
  refine (h₂.receiveHeader hr).bind fun r' c₃ ⟨h₃, hr'⟩ => ?_
  exact h₃.receivePayload hr' nbytes

theorem getSMBServerReply_drained (h : InStep (frame body) 0 c) (hbody : body.length < 16777216)
    (request : List UInt8) {payload : Option (List UInt8)} (hpayload : payload ≠ some []) :
    (getSMBServerReply request payload).Ensures c (fun _ c' => c'.sock.bytes = []) Drained := by
  unfold getSMBServerReply
  refine Prog.Ensures.bind (R := fun _ c' => InStep (frame body) 0 c') ?_ ?_
  · refine (h.sendRequest request).bind fun _ c₁ h₁ => ?_
    cases payload with
    | none => exact Prog.ensures_pure h₁
    | some bytes =>
        refine Prog.Ensures.bind (R := fun _ c' => InStep (frame body) 0 c') ?_ ?_
        · exact Prog.continues_modify.ensures ⟨h₁.wf, h₁.rest, h₁.bound, fun i hi => by omega⟩
        · intro _ c₂ h₂
          apply Prog.ensures_when
          · exact fun hnil => absurd (congrArg some hnil) hpayload
          · exact fun _ => h₂
  · intro _ c₁ h₁
    apply Prog.Ensures.get
    refine (h₁.nextSession _).bind fun _ c₂ h₂ => ?_
    exact h₂.receiveMessage hbody

end InStep

/-- A call that did not fail in the transport has consumed everything. -/
def Consumed (r : Ret × Client) : Prop :=
  (∀ e, r.1 = .error e → e.isTransportError = false) → r.2.sock.bytes = []

theorem Drained.consumed {r : Ret × Client} (h : Drained r.1 r.2) : Consumed r := by
  intro hno
  rcases h with ⟨e, he, htransport⟩ | hbytes
  · rw [hno e he] at htransport
    cases htransport
  · exact hbytes

/-- One session message on an empty connection, however it is cut: a call that does not
return a transport error leaves the stream at the end of the message. The payload of
`smb_WriteFile` is never empty. -/
theorem reply_consumed (c : Client) (cut : List Pbuf) (body : List UInt8)
    (hbody : body.length < 16777216) (hcut : stream cut = frame body) :
    (∀ uid tid fid fileoffset nbytes, Consumed (readFrom uid tid fid fileoffset nbytes c cut)) ∧
      ∀ request payload, payload ≠ some [] →
        Consumed ((getSMBServerReply request payload).outcome .ok
          { c with sock := Sock.received cut }) := by
  have h : InStep (frame body) 0 { c with sock := Sock.received cut } := inStep_received hcut rfl
  constructor
  · intro uid tid fid fileoffset nbytes
    apply Drained.consumed
    exact (smbReadAndX_drained h hbody uid tid fid fileoffset nbytes).outcome .ok
      fun _ _ hbytes => Or.inr hbytes
  · intro request payload hpayload
    apply Drained.consumed
    exact (getSMBServerReply_drained h hbody request hpayload).outcome .ok
      fun _ _ hbytes => Or.inr hbytes

/-- A response with two bytes of data and one behind them. -/
def twoBytes : List UInt8 :=
  [0xff, 0x53, 0x4d, 0x42, 0x2e] ++ List.replicate 38 0 ++ [2, 0, 59, 0] ++ List.replicate 12 0 ++ [65, 66, 0]

/-- It is received byte by byte and leaves nothing behind. -/
theorem reply_consumed_data :
    (readFrom 0 0 0 0 2 idleClient (bytewise (frame twoBytes))).1 = .ok 2 ∧
      (readFrom 0 0 0 0 2 idleClient (bytewise (frame twoBytes))).2.sock.bytes = [] := by
  have hread : (readFrom 0 0 0 0 2 idleClient (bytewise (frame twoBytes))).1 = .ok 2 := by decide +kernel
  have hconsumed := reply_consumed idleClient (bytewise (frame twoBytes)) twoBytes (by decide) (stream_bytewise _)
  refine ⟨hread, hconsumed.1 0 0 0 0 2 fun e he => ?_⟩
  rw [hread] at he
  cases he

end BdmAssault.Smb
