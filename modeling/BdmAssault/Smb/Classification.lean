import BdmAssault.Smb.Exchange
import BdmAssault.Smb.Segmentation

/-! # What the result of a read says about the reply

`smb_ReadAndX` on a single session message, of any length and with any contents, however it
is cut into buffers.
-/

namespace BdmAssault.Smb

open Lib

/-! ## Replies -/

/-- The message has a whole SMB header with the magic number. -/
def Headed (body : List UInt8) : Prop :=
  32 ≤ body.length ∧ smbMagic (bytesAt (frame body)) = smbMagicNumber

/-- The fields of a successful reply fit the message and the request. -/
structure DataFits (nbytes : Nat) (body : List UInt8) : Prop where
  complete : 59 ≤ body.length
  offset : 59 ≤ dataOffset (bytesAt (frame body))
  inside : dataOffset (bytesAt (frame body)) + dataLength (bytesAt (frame body)) ≤ body.length
  requested : dataLength (bytesAt (frame body)) ≤ nbytes

/-- Truncated, not SMB, or a success whose fields do not fit. -/
def Malformed (nbytes : Nat) (body : List UInt8) : Prop :=
  ¬Headed body ∨ replyStatus body = statusSuccess ∧ ¬DataFits nbytes body

/-- `n` bytes of data are in the message, and in the buffer of the caller. -/
structure Delivers (nbytes : Nat) (body : List UInt8) (n : Nat) (c : Client) : Prop where
  headed : Headed body
  status : replyStatus body = statusSuccess
  length : dataLength (bytesAt (frame body)) = n
  requested : n ≤ nbytes
  inside : dataOffset (bytesAt (frame body)) + n ≤ body.length
  bytes : ∀ i, i < n → c.readbuf i = bytesAt body (dataOffset (bytesAt (frame body)) + i)

/-- A count comes with its bytes, 0 is an end of the file or an empty answer, `-ENOTCONN` a
lost session, and everything that is malformed is `-EPROTO`. -/
structure Classified (nbytes : Nat) (body : List UInt8) (r : Ret × Client) : Prop where
  data : ∀ n, 0 < n → r.1 = .ok n → Delivers nbytes body n r.2
  empty : r.1 = .ok 0 → Headed body ∧ (replyStatus body = statusEndOfFile ∨
    replyStatus body = statusSuccess ∧ DataFits nbytes body ∧ dataLength (bytesAt (frame body)) = 0)
  lost : r.1 = .error .enotconn ↔ Headed body ∧ sessionLost (replyStatus body) = true
  malformed : Malformed nbytes body → r.1 = .error .eproto

/-! ## The parts of the function -/

section Parts

variable {packet body : List UInt8} {m nbytes : Nat} {c : Client}

/-- The first packet is the message, however much of it comes with the split receive. -/
theorem Loaded.nextPacket (h : Loaded (frame body) 0 c) (hbody : body.length < 16777216)
    (nbytes rounds : Nat) :
    ∃ c', (nextPacket nbytes (rounds + 1)).Continues c (max (splitReach nbytes c.sock.chunk) 4) c' ∧
      Loaded (frame body) (max (splitReach nbytes c.sock.chunk) 4) c' := by
  have hlen := frame_length body
  have hne : frame body ≠ [] := List.ne_nil_of_length_pos (by omega)
  obtain ⟨c₁, hsplit, h₁⟩ := h.recvSplit hne nbytes
  obtain ⟨c₂, hrecv, h₂, -⟩ := h₁.recvUpTo 4 4 (by omega) (by omega) id
  have hbound := h₂.bound
  refine ⟨c₂, ?_, h₂⟩
  unfold Smb.nextPacket
  refine hsplit.bind (hrecv.bind (Prog.continues_get.bind ?_))
  dsimp only
  rw [h₂.messageLength (by omega), h₂.type (by omega), frame_size hbody, frame_type]
  exact (Prog.continues_when_neg (by omega)).bind Prog.continues_pure

theorem Loaded.receiveHeader_reject (h : Loaded packet m c) (hm : 4 ≤ m)
    (hmore : m < 36 → m < packet.length)
    (hbad : packet.length < 36 ∨ smbMagic (bytesAt packet) ≠ smbMagicNumber) :
    ∃ c', (receiveHeader m packet.length).Exits c (.error .eproto) c' := by
  have hbound := h.bound
  obtain ⟨c₁, hrecv, h₁, -⟩ :=
    h.recvUpTo 36 (min 36 packet.length) (by omega) (by omega) (by omega)
  obtain ⟨c₂, hreject⟩ := h₁.reject
  have hcheck : packet.length - 4 < 32 ∨ smbMagic c₁.smbBuf ≠ smbMagicNumber := by
    by_cases hshort : packet.length < 36
    · exact Or.inl (by omega)
    · rw [h₁.magic (by omega)]
      exact Or.inr (hbad.resolve_left hshort)
  refine ⟨c₂, hrecv.bind_exits (Prog.continues_get.bind_exits (Prog.Exits.bind ?_))⟩
  rw [Prog.when_pos hcheck]
  exact hreject

/-- With the magic number in place, the status decides. -/
theorem Loaded.receiveHeader_run (h : Loaded packet m c) (hlong : 36 ≤ packet.length)
    (hmagic : smbMagic (bytesAt packet) = smbMagicNumber) :
    ∃ c', Loaded packet (max m 36) c' ∧ (receiveHeader m packet.length).run.run c =
      (do
        checkStatus (smbStatus (bytesAt packet)) (max m 36) packet.length
        Prog.when (packet.length - 4 < 59) (rejectSMBPacket (max m 36) packet.length)
        Smb.recvUpTo (max m 36) 63 63 : Fn Nat).run.run c' := by
  obtain ⟨c₁, hrecv, h₁, -⟩ := h.recvUpTo 36 36 hlong (Nat.le_refl 36) id
  have hcheck : ¬(packet.length - 4 < 32 ∨ smbMagic c₁.smbBuf ≠ smbMagicNumber) := by
    rw [h₁.magic (by omega)]
    omega
  refine ⟨c₁, h₁, ?_⟩
  unfold Smb.receiveHeader
  rw [Nat.min_eq_left hlong]
  refine hrecv.run_bind.trans (Prog.continues_get.run_bind.trans ?_)
  rw [h₁.status (by omega)]
  exact (Prog.continues_when_neg hcheck).run_bind

/-- What a status other than a success is reported as. -/
def statusResult (status : Nat) : Ret :=
  if status = statusEndOfFile then .ok 0
  else if sessionLost status then .error .enotconn
  else .error .eio

theorem Loaded.checkStatus (h : Loaded packet m c) {status : Nat} (hstatus : status ≠ statusSuccess) :
    ∃ c', (checkStatus status m packet.length).Exits c (statusResult status) c' := by
  unfold Smb.checkStatus statusResult
  rw [if_neg hstatus]
  split
  · exact h.skip _
  · split
    · exact ⟨c, Prog.exits_throw⟩
    · exact h.skip _

theorem Loaded.receiveHeader_failed (h : Loaded packet m c) (hlong : 36 ≤ packet.length)
    (hmagic : smbMagic (bytesAt packet) = smbMagicNumber)
    (hstatus : smbStatus (bytesAt packet) ≠ statusSuccess) :
    ∃ c', (receiveHeader m packet.length).Exits c (statusResult (smbStatus (bytesAt packet))) c' := by
  obtain ⟨c₁, h₁, hrun⟩ := h.receiveHeader_run hlong hmagic
  obtain ⟨c₂, hexit⟩ := h₁.checkStatus hstatus
  exact ⟨c₂, hrun.trans hexit.bind⟩

theorem Loaded.receiveHeader_short (h : Loaded packet m c) (hlong : 36 ≤ packet.length)
    (hmagic : smbMagic (bytesAt packet) = smbMagicNumber)
    (hstatus : smbStatus (bytesAt packet) = statusSuccess) (hshort : packet.length < 63) :
    ∃ c', (receiveHeader m packet.length).Exits c (.error .eproto) c' := by
  obtain ⟨c₁, h₁, hrun⟩ := h.receiveHeader_run hlong hmagic
  obtain ⟨c₂, hreject⟩ := h₁.reject
  rw [hstatus] at hrun
  refine ⟨c₂, hrun.trans (Prog.continues_pure.bind_exits (Prog.Exits.bind ?_))⟩
  rw [Prog.when_pos (by omega)]
  exact hreject

theorem Loaded.receiveHeader_taken (h : Loaded packet m c)
    (hmagic : smbMagic (bytesAt packet) = smbMagicNumber)
    (hstatus : smbStatus (bytesAt packet) = statusSuccess) (hlong : 63 ≤ packet.length) :
    ∃ c', (receiveHeader m packet.length).Continues c (max m 63) c' ∧ Loaded packet (max m 63) c' := by
  obtain ⟨c₁, h₁, hrun⟩ := h.receiveHeader_run (by omega) hmagic
  obtain ⟨c₂, hrecv, h₂, -⟩ := h₁.recvUpTo 63 63 hlong (Nat.le_refl 63) id
  have hmax : max (max m 36) 63 = max m 63 := by omega
  rw [hmax] at hrecv h₂
  rw [hstatus] at hrun
  refine ⟨c₂, hrun.trans (Prog.continues_pure.bind ?_), h₂⟩
  exact (Prog.continues_when_neg (by omega)).bind hrecv

theorem Loaded.receivePayload_reject (h : Loaded (frame body) m c) (hm : 63 ≤ m)
    (hunfit : ¬DataFits nbytes body) :
    ∃ c', (receivePayload nbytes m (frame body).length).Exits c (.error .eproto) c' := by
  obtain ⟨c₁, hreject⟩ := h.reject
  have hlen := frame_length body
  have hbound := h.bound
  obtain ⟨hoffset, hlength⟩ := h.dataFields hm
  have hcheck : dataOffset (bytesAt (frame body)) < 59 ∨
      (frame body).length - 4 < dataOffset (bytesAt (frame body)) ∨
      2147483648 ≤ dataLength (bytesAt (frame body)) ∨ nbytes < dataLength (bytesAt (frame body)) ∨
      (frame body).length - 4 - dataOffset (bytesAt (frame body)) < dataLength (bytesAt (frame body)) := by
    refine Classical.byContradiction fun hfits => hunfit ?_
    exact ⟨by omega, by omega, by omega, by omega⟩
  refine ⟨c₁, Prog.continues_get.bind_exits ?_⟩
  dsimp only
  rw [hoffset, hlength]
  refine Prog.Exits.bind ?_
  rw [Prog.when_pos hcheck]
  exact hreject

end Parts

/-! ## Whole reads -/

section Reads

variable {body : List UInt8} {nbytes : Nat} {cut : List Pbuf}

/-- The state behind the first receive of the packet, and what is still to do. -/
theorem readFrom_loaded (uid tid fid fileoffset nbytes : Nat) (c : Client)
    (hbody : body.length < 16777216) (hcut : stream cut = frame body) :
    ∃ c', Loaded (frame body) (max (splitReach nbytes (Sock.received cut).chunk) 4) c' ∧
      (smbReadAndX uid tid fid fileoffset nbytes).run.run { c with sock := Sock.received cut } =
        (do
          let received ← receiveHeader (max (splitReach nbytes (Sock.received cut).chunk) 4)
            (frame body).length
          receivePayload nbytes received (frame body).length : Fn Nat).run.run c' := by
  have h : Loaded (frame body) 0 (requested uid tid fid fileoffset nbytes c cut) :=
    ⟨Sock.received_wf cut, hcut, Nat.zero_le _, fun i hi => absurd hi (Nat.not_lt_zero i)⟩
  obtain ⟨c₁, hnext, h₁⟩ := h.nextPacket hbody nbytes (stream cut).length
  refine ⟨c₁, h₁, ?_⟩
  refine (smbReadAndX_run (c := c) uid tid fid fileoffset cut).trans (hnext.run_bind.trans ?_)
  refine Prog.continues_get.run_bind.trans ?_
  dsimp only
  rw [h₁.messageLength (by omega), frame_size hbody, ← frame_length body]
  rfl

/-- A reply whose fields fit is a well-formed response. -/
def responseOf (hbody : body.length < 16777216) (hheaded : Headed body)
    (hstatus : replyStatus body = statusSuccess) (hfits : DataFits nbytes body) : Response nbytes where
  packet := frame body
  complete := by
    rw [frame_length]
    exact Nat.add_le_add_right hfits.complete 4
  type := frame_type body
  length := by rw [frame_size hbody, frame_length]
  magic := hheaded.2
  status := hstatus
  offset := hfits.offset
  requested := hfits.requested
  inside := by
    have hinside := hfits.inside
    rw [frame_length]
    omega

theorem frame_bytesAt (body : List UInt8) (i : Nat) :
    bytesAt (frame body) (4 + i) = bytesAt body i :=
  bytesAt_append_right (sessionHeader body.length) body i

/-- The split receive ends where the packet does exactly when nothing is left to receive: the
message is empty, or it is all in the first buffer. -/
theorem splitReach_short (nbytes : Nat) (hcut : stream cut = frame body) (hshort : body.length < 32) :
    max (splitReach nbytes (Sock.received cut).chunk) 4 = (frame body).length ↔
      body = [] ∨ cut.length = 1 := by
  have hlen := frame_length body
  cases cut with
  | nil =>
      have hnil : ([] : List UInt8) = frame body := hcut
      rw [← hnil] at hlen
      cases hlen
  | cons p rest =>
      have hstream : p.data ++ stream rest = frame body := hcut
      have hsum : p.data.length + (stream rest).length = body.length + 4 := by
        rw [← hlen, ← hstream, List.length_append]
      have hreach : splitReach nbytes (Sock.received (p :: rest)).chunk = p.data.length := by
        show (splitBuffer 49 nbytes p.data).consumed = _
        unfold splitBuffer
        dsimp only
        rw [if_pos (by omega)]
      have hrest : (stream rest).length = 0 ↔ rest = [] := by
        cases rest with
        | nil => exact ⟨fun _ => rfl, fun _ => rfl⟩
        | cons q qs =>
            have hpos := List.length_pos_of_ne_nil q.nonempty
            have happend : (stream (q :: qs)).length = q.data.length + (stream qs).length :=
              List.length_append
            exact ⟨fun hzero => by omega, fun hnil => nomatch hnil⟩
      have hbody : body = [] ↔ body.length = 0 := List.length_eq_zero_iff.symm
      have hone : (p :: rest).length = 1 ↔ (stream rest).length = 0 := by
        rw [hrest, List.length_cons, Nat.add_eq_right, List.length_eq_zero_iff]
      rw [hreach, hlen, hbody, hone]
      omega

/-- A result other than those of the receive itself, from the exit of the header. -/
theorem readFrom_exit {uid tid fid fileoffset : Nat} {c c' : Client} {r : Ret}
    (hexit : ∃ c'', (receiveHeader (max (splitReach nbytes (Sock.received cut).chunk) 4)
      (frame body).length).Exits c' r c'')
    (hrun : (smbReadAndX uid tid fid fileoffset nbytes).run.run { c with sock := Sock.received cut } =
        (do
          let received ← receiveHeader (max (splitReach nbytes (Sock.received cut).chunk) 4)
            (frame body).length
          receivePayload nbytes received (frame body).length : Fn Nat).run.run c') :
    (readFrom uid tid fid fileoffset nbytes c cut).1 = r := by
  obtain ⟨c'', hexit⟩ := hexit
  exact congrArg Prod.fst (Prog.Exits.outcome _ (hrun.trans hexit.bind))

theorem classified_eproto {r : Ret × Client} (h : r.1 = .error .eproto)
    (hlost : ¬(Headed body ∧ sessionLost (replyStatus body) = true)) : Classified nbytes body r where
  data n _ hn := by
    rw [h] at hn
    cases hn
  empty hzero := by
    rw [h] at hzero
    cases hzero
  lost := by
    rw [h]
    exact ⟨nofun, fun hboth => absurd hboth hlost⟩
  malformed _ := h

theorem classified_status {r : Ret × Client} (hheaded : Headed body)
    (hstatus : replyStatus body ≠ statusSuccess) (h : r.1 = statusResult (replyStatus body)) :
    Classified nbytes body r where
  data n hn hr := by
    rw [h] at hr
    unfold statusResult at hr
    split at hr
    · cases hr
      cases hn
    · split at hr
      · cases hr
      · cases hr
  empty hr := by
    rw [h] at hr
    unfold statusResult at hr
    split at hr
    · exact ⟨hheaded, Or.inl ‹_›⟩
    · split at hr
      · cases hr
      · cases hr
  lost := by
    rw [h]
    unfold statusResult
    split
    · rename_i heof
      rw [heof]
      exact ⟨nofun, fun hlost => nomatch hlost.2⟩
    · split
      · exact ⟨fun _ => ⟨hheaded, ‹_›⟩, fun _ => rfl⟩
      · rename_i hother
        exact ⟨nofun, fun hlost => absurd hlost.2 hother⟩
  malformed hbad := hbad.elim (absurd hheaded) fun hfits => absurd hfits.1 hstatus

/-- A reply with its fields in order gives its data, or is refused because bytes behind the
data came with it. -/
theorem readFrom_fits (uid tid fid fileoffset : Nat) (c : Client) (hbody : body.length < 16777216)
    (hcut : stream cut = frame body) (hheaded : Headed body)
    (hstatus : replyStatus body = statusSuccess) (hfits : DataFits nbytes body) :
    Classified nbytes body (readFrom uid tid fid fileoffset nbytes c cut) := by
  have hnotlost : ¬(Headed body ∧ sessionLost (replyStatus body) = true) := by
    rw [hstatus]
    exact fun hlost => nomatch hlost.2
  by_cases hreach : splitReach nbytes (Sock.received cut).chunk ≤
      (responseOf hbody hheaded hstatus hfits).dataEnd
  · obtain ⟨c₁, hread, h₁⟩ := readFrom_intact uid tid fid fileoffset
      (responseOf hbody hheaded hstatus hfits) c hcut hreach
    rw [hread]
    constructor
    · rintro n hn ⟨⟩
      refine ⟨hheaded, hstatus, rfl, hfits.requested, hfits.inside, fun i hi => ?_⟩
      refine (h₁.data hi).trans ?_
      show bytesAt (frame body) (dataOffset (bytesAt (frame body)) + 4 + i) = _
      rw [Nat.add_comm _ 4, Nat.add_assoc, frame_bytesAt]
    · intro hzero
      exact ⟨hheaded, Or.inr ⟨hstatus, hfits, Except.ok.inj hzero⟩⟩
    · exact ⟨nofun, fun hlost => absurd hlost hnotlost⟩
    · exact fun hbad => hbad.elim (absurd hheaded) fun hunfit => absurd hfits hunfit.2
  · exact classified_eproto (readFrom_overrun uid tid fid fileoffset
      (responseOf hbody hheaded hstatus hfits) c hcut (Nat.lt_of_not_le hreach)) hnotlost

/-- The result tells the replies apart, except that a message without a whole header gives 0
where it ends with what the first receive took. -/
theorem read_classified_iff (uid tid fid fileoffset nbytes : Nat) (c : Client) {body : List UInt8}
    {cut : List Pbuf} (hbody : body.length < 16777216) (hcut : stream cut = frame body) :
    Classified nbytes body (readFrom uid tid fid fileoffset nbytes c cut) ↔
      32 ≤ body.length ∨ body ≠ [] ∧ cut.length ≠ 1 := by
  obtain ⟨c₁, h₁, hrun⟩ := readFrom_loaded uid tid fid fileoffset nbytes c hbody hcut
  have hlen := frame_length body
  have hbound := h₁.bound
  by_cases hheaded : Headed body
  · refine iff_of_true ?_ (Or.inl hheaded.1)
    by_cases hstatus : replyStatus body = statusSuccess
    · by_cases hfits : DataFits nbytes body
      · exact readFrom_fits uid tid fid fileoffset c hbody hcut hheaded hstatus hfits
      · refine classified_eproto ?_ fun hlost => ?_
        · by_cases hshort : (frame body).length < 63
          · exact readFrom_exit (h₁.receiveHeader_short (by have := hheaded.1; omega) hheaded.2 hstatus
              hshort) hrun
          · obtain ⟨c₂, hheader, h₂⟩ := h₁.receiveHeader_taken hheaded.2 hstatus (by omega)
            obtain ⟨c₃, hexit⟩ := h₂.receivePayload_reject (Nat.le_max_right _ _) hfits
            exact congrArg Prod.fst (Prog.Exits.outcome _ (hrun.trans (hheader.bind_exits hexit)))
        · rw [hstatus] at hlost
          cases hlost.2
    · exact classified_status hheaded hstatus
        (readFrom_exit (h₁.receiveHeader_failed (by have := hheaded.1; omega) hheaded.2 hstatus) hrun)
  · have hnotlost : ¬(Headed body ∧ sessionLost (replyStatus body) = true) := fun h => hheaded h.1
    have hbad : (frame body).length < 36 ∨ smbMagic (bytesAt (frame body)) ≠ smbMagicNumber := by
      refine Classical.byContradiction fun hok => hheaded ⟨by omega, ?_⟩
      exact Classical.not_not.mp fun hmagic => hok (Or.inr hmagic)
    by_cases hended : max (splitReach nbytes (Sock.received cut).chunk) 4 < 36 ∧
        max (splitReach nbytes (Sock.received cut).chunk) 4 = (frame body).length
    · -- nothing is left to receive, and `RecvData` of no bytes returns 0
      have hshort : body.length < 32 := by omega
      have hcond := (splitReach_short nbytes hcut hshort).mp hended.2
      refine iff_of_false (fun hclass => hheaded ?_) ?_
      · obtain ⟨c₂, hexit⟩ := h₁.recvUpTo_ended hended.1
        refine (hclass.empty (readFrom_exit ⟨c₂, Prog.Exits.bind ?_⟩ hrun)).1
        rw [Nat.min_eq_right (by omega), ← hended.2]
        exact hexit
      · rintro (hlong | ⟨hne, hone⟩)
        · omega
        · exact hcond.elim hne hone
    · refine iff_of_true (classified_eproto ?_ hnotlost) ?_
      · exact readFrom_exit (h₁.receiveHeader_reject (Nat.le_max_right _ _) (by omega) hbad) hrun
      · by_cases hlong : 32 ≤ body.length
        · exact Or.inl hlong
        · have hopen : ¬(body = [] ∨ cut.length = 1) := by
            rw [← splitReach_short nbytes hcut (by omega)]
            omega
          exact Or.inr (not_or.mp hopen)

end Reads

/-! ### Short messages -/

/-- A response that comes byte by byte gives its data; one of two bytes is refused. -/
theorem read_classified_bytewise :
    (readFrom 0 0 0 0 2 idleClient (bytewise (frame (paddedPacket.drop 4)))).1 = .ok 1 ∧
      Classified 2 (paddedPacket.drop 4) (readFrom 0 0 0 0 2 idleClient (bytewise (frame (paddedPacket.drop 4)))) ∧
      Classified 2 [0xff, 0x53] (readFrom 0 0 0 0 2 idleClient (bytewise (frame [0xff, 0x53]))) := by
  refine ⟨by decide +kernel, ?_, ?_⟩
  · exact (read_classified_iff 0 0 0 0 2 idleClient (by decide) (stream_bytewise _)).mpr (Or.inl (by decide))
  · exact (read_classified_iff 0 0 0 0 2 idleClient (by decide) (stream_bytewise _)).mpr
      (Or.inr ⟨by decide, by decide⟩)

/-- In one buffer it is taken for the end of the file. -/
theorem short_reply_ends_file :
    stream (cutAt 6 (frame [0xff, 0x53]) (by decide) (by decide)) = frame [0xff, 0x53] ∧
      (readFrom 0 0 0 0 2 idleClient (cutAt 6 (frame [0xff, 0x53]) (by decide) (by decide))).1 = .ok 0 ∧
      Malformed 2 [0xff, 0x53] ∧
      ¬Classified 2 [0xff, 0x53]
        (readFrom 0 0 0 0 2 idleClient (cutAt 6 (frame [0xff, 0x53]) (by decide) (by decide))) := by
  have hzero : (readFrom 0 0 0 0 2 idleClient
      (cutAt 6 (frame [0xff, 0x53]) (by decide) (by decide))).1 = .ok 0 := by decide +kernel
  have hmalformed : Malformed 2 [0xff, 0x53] := Or.inl fun hheaded => absurd hheaded.1 (by decide)
  refine ⟨stream_cutAt _ _ _ _, hzero, hmalformed, fun hclass => ?_⟩
  have hrefused := hclass.malformed hmalformed
  rw [hzero] at hrefused
  cases hrefused

end BdmAssault.Smb
