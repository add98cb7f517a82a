import BdmAssault.Smb.Commands

/-! # One exchange

The reply is received over the request. Where it ends early, the request's own magic
number and zero status stand in for the missing bytes. The lemmas here say what a
request function makes of the next reply, whichever way it is left.
-/

namespace BdmAssault.Smb

open Lib

/-! ## One exchange -/

/-- The session messages `replies` are all that will arrive. -/
structure Answered (c : Client) (replies : List (List UInt8)) : Prop where
  wf : c.sock.Wf
  bytes : c.sock.bytes = (replies.map frame).flatten
  small : ∀ body ∈ replies, body.length < 16777216

/-- `SMB_buf` with the request `packet` in it, after the reply `body`. -/
def overlay (m : Nat → UInt8) (packet body : List UInt8) : Nat → UInt8 :=
  store (store (store m 0 packet) 0 (sessionHeader body.length)) 4 body

theorem overlay_reply {m : Nat → UInt8} {packet body : List UInt8} {i : Nat}
    (h : i < body.length) : overlay m packet body (4 + i) = bytesAt body i := store_inside h

theorem overlay_request {m : Nat → UInt8} {packet body : List UInt8} {i : Nat}
    (h : body.length ≤ i) (hi : 4 + i < packet.length) :
    overlay m packet body (4 + i) = bytesAt packet (4 + i) := by
  have hheader : (sessionHeader body.length).length = 4 := rfl
  unfold overlay
  rw [store, if_neg (by omega), store, if_neg (by omega), store_zero hi]

/-- A packet with the magic number and the status 0 in their places. -/
structure IsRequest (packet : List UInt8) : Prop where
  length : 13 ≤ packet.length
  magic : ∀ i < 4, bytesAt packet (4 + i) = bytesAt (le32 smbMagicNumber) i
  status : ∀ i < 4, bytesAt packet (9 + i) = 0

theorem smbPacket_isRequest (cmd flags flags2 tid uid : Nat) (rest : List UInt8) (extra : Nat) :
    IsRequest (smbPacket (smbHeader cmd flags flags2 tid uid) rest extra) := by
  have hparts : ∃ session behind : List UInt8, session.length = 4 ∧
      smbPacket (smbHeader cmd flags flags2 tid uid) rest extra =
        session ++ (le32 smbMagicNumber ++ ([UInt8.ofNat cmd] ++ ([0, 0, 0, 0] ++ behind))) := by
    refine ⟨sessionHeader (32 + rest.length + extra), [UInt8.ofNat flags] ++ le16 flags2 ++ List.replicate 12 0 ++ le16 tid ++
      le16 0 ++ le16 uid ++ le16 0 ++ rest, rfl, ?_⟩
    simp only [smbPacket, smbHeader, List.append_assoc]
    rfl
  obtain ⟨session, behind, hsession, heq⟩ := hparts
  rw [heq]
  refine ⟨?_, ?_, ?_⟩
  · simp [hsession, le32, le16]
    omega
  · intro i hi
    rw [← hsession, bytesAt_append_right]
    exact bytesAt_append hi
  · intro i hi
    have hplace : 9 + i = session.length + (4 + (1 + i)) := by omega
    rw [hplace, bytesAt_append_right]
    refine (bytesAt_append_right (le32 smbMagicNumber) _ (1 + i)).trans ?_
    refine (bytesAt_append_right [UInt8.ofNat cmd] _ i).trans ?_
    rw [bytesAt_append hi]
    have hcases : i = 0 ∨ i = 1 ∨ i = 2 ∨ i = 3 := by omega
    rcases hcases with rfl | rfl | rfl | rfl <;> rfl

/-! ## What is received of a reply -/

/-- The magic number, as far as it was received, is right. -/
def MagicAgrees (body : List UInt8) : Prop :=
  ∀ i < 4, i < body.length → bytesAt body i = bytesAt (le32 smbMagicNumber) i

instance (body : List UInt8) : Decidable (MagicAgrees body) := by
  unfold MagicAgrees
  infer_instance

/-- The status, with 0 for the bytes that were not received. -/
def replyStatus (body : List UInt8) : Nat := smbStatus (bytesAt (frame body))

theorem bytesAt_frame (body : List UInt8) (i : Nat) :
    bytesAt (frame body) (4 + i) = bytesAt body i := by
  rw [← bytesAt_drop]
  rfl

theorem smbMagic_eq_iff (b : Nat → UInt8) :
    smbMagic b = smbMagicNumber ↔ ∀ i < 4, b (4 + i) = bytesAt (le32 smbMagicNumber) i := by
  constructor
  · intro heq
    have h4 := (b 4).toNat_lt
    have h5 := (b 5).toNat_lt
    have h6 := (b 6).toNat_lt
    have h7 := (b 7).toNat_lt
    simp only [smbMagic, word32, word16, smbMagicNumber, Nat.reduceAdd] at heq
    intro i hi
    have hcases : i = 0 ∨ i = 1 ∨ i = 2 ∨ i = 3 := by omega
    apply UInt8.toNat_inj.mp
    rcases hcases with rfl | rfl | rfl | rfl
    · show (b 4).toNat = 0xff
      omega
    · show (b 5).toNat = 0x53
      omega
    · show (b 6).toNat = 0x4d
      omega
    · show (b 7).toNat = 0x42
      omega
  · intro hall
    have h0 := hall 0 (by omega)
    have h1 := hall 1 (by omega)
    have h2 := hall 2 (by omega)
    have h3 := hall 3 (by omega)
    simp only [smbMagic, word32, word16, h0, h1, h2, h3]
    rfl

section Overlay

variable {m : Nat → UInt8} {packet body : List UInt8}

theorem bytesAt_of_length_le {l : List UInt8} {i : Nat} (h : l.length ≤ i) : bytesAt l i = 0 := by
  simp [bytesAt, List.getD_eq_getElem?_getD, h]

theorem overlay_status (h : IsRequest packet) :
    smbStatus (overlay m packet body) = replyStatus body := by
  have hbyte : ∀ i < 4, overlay m packet body (9 + i) = bytesAt (frame body) (9 + i) := by
    intro i hi
    have hlength := h.length
    have hplace : 9 + i = 4 + (5 + i) := by omega
    rw [hplace, bytesAt_frame]
    by_cases hin : 5 + i < body.length
    · rw [overlay_reply hin]
    · rw [overlay_request (by omega) (by omega), ← hplace, h.status i hi,
        bytesAt_of_length_le (by omega)]
  have h0 := hbyte 0 (by omega)
  have h1 := hbyte 1 (by omega)
  have h2 := hbyte 2 (by omega)
  have h3 := hbyte 3 (by omega)
  simp only [smbStatus, replyStatus, word16, h0, h1, h2, h3]

theorem overlay_magic (h : IsRequest packet) :
    smbMagic (overlay m packet body) = smbMagicNumber ↔ MagicAgrees body := by
  have hbyte : ∀ i < 4, ¬i < body.length →
      overlay m packet body (4 + i) = bytesAt (le32 smbMagicNumber) i := by
    intro i hi hout
    have hlength := h.length
    rw [overlay_request (by omega) (by omega), h.magic i hi]
  rw [smbMagic_eq_iff]
  constructor
  · intro hall i hi hin
    rw [← hall i hi, overlay_reply hin]
  · intro hagrees i hi
    by_cases hin : i < body.length
    · rw [overlay_reply hin, hagrees i hi hin]
    · exact hbyte i hi hin

end Overlay

section Exchange

variable {c : Client} {body packet : List UInt8} {replies : List (List UInt8)}
  {payload : Option (List UInt8)}

theorem sendMessage_continues (packet : List UInt8) (hpayload : payload ≠ some []) (c : Client) :
    ∃ sent, (sendMessage packet payload).Continues c ()
      { c with smbBuf := store c.smbBuf 0 packet, sent := sent } := by
  cases payload with
  | none => exact ⟨c.sent ++ [packet], Prog.continues_modify.bind Prog.continues_pure⟩
  | some bytes =>
      refine ⟨c.sent ++ [packet] ++ [bytes], Prog.continues_modify.bind ?_⟩
      refine Prog.continues_modify.bind ?_
      exact Prog.continues_when_neg fun hnil => hpayload (congrArg some hnil)

theorem nextSession_continues {rest : List UInt8} (hwf : c.sock.Wf)
    (hbytes : c.sock.bytes = frame body ++ rest) (rounds : Nat) :
    ∃ s', s'.Wf ∧ s'.bytes = body ++ rest ∧ (nextSession (rounds + 1)).Continues c ()
      { c with smbBuf := store c.smbBuf 0 (sessionHeader body.length), sock := s' } := by
  have hsplit : c.sock.bytes = sessionHeader body.length ++ (body ++ rest) := by
    rw [hbytes, frame, List.append_assoc]
  have hfour : (sessionHeader body.length).length = 4 := rfl
  obtain ⟨s', hwf', hrest, hread⟩ := recvDataTo_continues hwf (.smbBuf 0) 4 (by
    rw [hsplit, List.length_append]
    omega)
  rw [hsplit, List.take_left' hfour] at hread
  rw [hsplit, List.drop_left' hfour] at hrest
  refine ⟨s', hwf', hrest, ?_⟩
  unfold nextSession
  refine hread.bind (Prog.continues_get.bind ?_)
  have htype : packetType (store c.smbBuf 0 (sessionHeader body.length)) = 0 := rfl
  show Prog.Continues (if packetType (store c.smbBuf 0 (sessionHeader body.length)) = 0
    then pure () else nextSession rounds) _ _ _
  rw [if_pos htype]
  exact Prog.continues_pure

theorem store_sessionHeader (m : Nat → UInt8) (h : body.length < 16777216) :
    sessionMessageLength (store m 0 (sessionHeader body.length)) = body.length := by
  have hbyte : ∀ i < 4, store m 0 (sessionHeader body.length) i = bytesAt (frame body) i := by
    intro i hi
    rw [store_zero hi, frame, bytesAt_append hi]
  rw [sessionMessageLength, hbyte 1 (by omega), hbyte 2 (by omega), hbyte 3 (by omega)]
  exact frame_size h

theorem receiveMessage_continues {rest : List UInt8} (hwf : c.sock.Wf)
    (hbytes : c.sock.bytes = body ++ rest) (hsize : sessionMessageLength c.smbBuf = body.length)
    (hfits : body.length ≤ smbBufSize) :
    ∃ s', s'.Wf ∧ s'.bytes = rest ∧ receiveMessage.Continues c body.length
      { c with smbBuf := store c.smbBuf 4 body, sock := s' } := by
  obtain ⟨s', hwf', hrest, hread⟩ := recvDataTo_continues hwf (.smbBuf 4) body.length (by
    rw [hbytes, List.length_append]
    omega)
  rw [hbytes, List.take_left] at hread
  rw [hbytes, List.drop_left] at hrest
  refine ⟨s', hwf', hrest, Prog.continues_get.bind ?_⟩
  rw [hsize, if_neg (by omega)]
  exact hread

theorem receiveMessage_exits {rest : List UInt8} (hwf : c.sock.Wf)
    (hbytes : c.sock.bytes = body ++ rest) (hsize : sessionMessageLength c.smbBuf = body.length)
    (hlarge : smbBufSize < body.length) :
    ∃ c', receiveMessage.Exits c (.error .eproto) c' := by
  obtain ⟨s', -, -, hdiscard⟩ := discardLoop_continues body.length body.length hwf (Nat.le_refl _) (by
    rw [hbytes, List.length_append]
    omega)
  refine ⟨{ c with sock := s' }, Prog.continues_get.bind_exits ?_⟩
  rw [hsize, if_pos hlarge]
  exact hdiscard.bind_exits Prog.exits_throw

theorem nextSession_exits (hwf : c.sock.Wf) (hbytes : c.sock.bytes = []) (rounds : Nat) :
    ∃ c', (nextSession (rounds + 1)).Exits c (.error .etimedout) c' := by
  obtain ⟨hread, -, -⟩ := recvData_spec 4 4 hwf (Nat.le_refl 4)
  unfold nextSession
  refine ⟨{ c.put (.smbBuf 0) (recvData 4 4 c.sock).1 with sock := (recvData 4 4 c.sock).2 },
    Prog.Exits.bind (Prog.continues_get.bind_exits (Prog.continues_set.bind_exits ?_))⟩
  rw [Prog.when_pos]
  · exact Prog.Exits.bind Prog.exits_throw
  · rw [hread, hbytes]
    decide

theorem ask_of_continues {c' : Client} {n : Nat}
    (h : (getSMBServerReply packet payload).Continues c n c') :
    (ask packet payload).Continues c (.ok n) c' := h.call Except.ok

theorem ask_of_exits {c' : Client} {r : Ret}
    (h : (getSMBServerReply packet payload).Exits c r c') :
    (ask packet payload).Continues c r c' := h.call Except.ok

theorem ask_continues (h : Answered c (body :: replies)) (packet : List UInt8)
    (hpayload : payload ≠ some [])
    (hfits : body.length ≤ smbBufSize) :
    ∃ c', (ask packet payload).Continues c (.ok body.length) c' ∧
      c'.smbBuf = overlay c.smbBuf packet body ∧ Answered c' replies := by
  have hsmall := h.small body List.mem_cons_self
  obtain ⟨sent, hsend⟩ := sendMessage_continues packet hpayload c
  obtain ⟨s₁, hwf₁, hbytes₁, hnext⟩ := nextSession_continues
    (c := { c with smbBuf := store c.smbBuf 0 packet, sent := sent }) h.wf h.bytes
    c.sock.bytes.length
  obtain ⟨s₂, hwf₂, hbytes₂, hmessage⟩ := receiveMessage_continues
    (c := { c with smbBuf := store (store c.smbBuf 0 packet) 0 (sessionHeader body.length),
                   sent := sent, sock := s₁ })
    hwf₁ hbytes₁ (store_sessionHeader _ hsmall) hfits
  have hall : (getSMBServerReply packet payload).Continues c body.length
      { c with smbBuf := overlay c.smbBuf packet body, sent := sent, sock := s₂ } :=
    hsend.bind (Prog.continues_get.bind (hnext.bind hmessage))
  refine ⟨_, ask_of_continues hall, rfl, ?_⟩
  exact ⟨hwf₂, hbytes₂, fun body' hmem => h.small body' (List.mem_cons_of_mem _ hmem)⟩

/-- The only other results are a time-out and the refusal of a packet that is too
large. -/
theorem ask_fails (h : Answered c replies) (packet : List UInt8) (hpayload : payload ≠ some [])
    (hno : ∀ body rest, replies = body :: rest → smbBufSize < body.length) :
    ∃ e c', (ask packet payload).Continues c (.error e) c' ∧ e ≠ .einval := by
  obtain ⟨sent, hsend⟩ := sendMessage_continues packet hpayload c
  cases replies with
  | nil =>
      obtain ⟨c', hnext⟩ := nextSession_exits
        (c := { c with smbBuf := store c.smbBuf 0 packet, sent := sent }) h.wf h.bytes
        c.sock.bytes.length
      have hall : (getSMBServerReply packet payload).Exits c (.error .etimedout) c' :=
        hsend.bind_exits (Prog.continues_get.bind_exits hnext.bind)
      exact ⟨_, c', ask_of_exits hall, by decide⟩
  | cons body rest =>
      obtain ⟨s₁, hwf₁, hbytes₁, hnext⟩ := nextSession_continues
        (c := { c with smbBuf := store c.smbBuf 0 packet, sent := sent }) h.wf h.bytes
        c.sock.bytes.length
      obtain ⟨c', hmessage⟩ := receiveMessage_exits
        (c := { c with smbBuf := store (store c.smbBuf 0 packet) 0 (sessionHeader body.length),
                       sent := sent, sock := s₁ })
        hwf₁ hbytes₁ (store_sessionHeader _ (h.small body List.mem_cons_self)) (hno body rest rfl)
      have hall : (getSMBServerReply packet payload).Exits c (.error .eproto) c' :=
        hsend.bind_exits (Prog.continues_get.bind_exits (hnext.bind_exits hmessage))
      exact ⟨_, c', ask_of_exits hall, by decide⟩

/-- What is known of the result `r` of `GetSMBServerReply`. -/
inductive Asked (c : Client) (packet : List UInt8) (replies : List (List UInt8)) (r : Ret)
    (c' : Client) : Prop
  | reply (body : List UInt8) (rest : List (List UInt8)) (head : replies = body :: rest)
      (fits : body.length ≤ smbBufSize) (result : r = .ok body.length)
      (buf : c'.smbBuf = overlay c.smbBuf packet body) (answered : Answered c' rest)
  | failure (e : Errno) (result : r = .error e) (other : e ≠ .einval)
      (unfit : ∀ body rest, replies = body :: rest → smbBufSize < body.length)

theorem ask_ensures (h : Answered c replies) (packet : List UInt8) (hpayload : payload ≠ some [])
    {E : Ret → Client → Prop} : (ask packet payload).Ensures c (Asked c packet replies) E := by
  by_cases hfits : ∃ body rest, replies = body :: rest ∧ body.length ≤ smbBufSize
  · obtain ⟨body, rest, rfl, hlength⟩ := hfits
    obtain ⟨c', hask, hbuf, hanswered⟩ := ask_continues h packet hpayload hlength
    exact hask.ensures (.reply body rest rfl hlength rfl hbuf hanswered)
  · have hunfit : ∀ body rest, replies = body :: rest → smbBufSize < body.length := by
      intro body rest heq
      exact Nat.lt_of_not_le fun hle => hfits ⟨body, rest, heq, hle⟩
    obtain ⟨e, c', hask, he⟩ := ask_fails h packet hpayload hunfit
    exact hask.ensures (.failure e rfl he hunfit)

end Exchange

/-! ## What a function makes of a reply -/

/-- The reply passes the tests of the length and of the magic number. -/
def Admitted (body : List UInt8) : Prop :=
  body ≠ [] ∧ body.length ≤ smbBufSize ∧ MagicAgrees body

/-- The reply passes the test of the status too. -/
def Taken (body : List UInt8) : Prop := Admitted body ∧ replyStatus body = statusSuccess

/-- `A` is exactly what a result in `D` says. -/
def Verdict (D : Ret → Prop) (A : Prop) (r : Ret) (_ : Client) : Prop := D r ↔ A

/-- No error but `-EINVAL` counts. -/
def Refuses (D : Ret → Prop) : Prop := ∀ e, D (.error e) → e = .einval

section Verdict

variable {c : Client} {packet : List UInt8} {replies : List (List UInt8)} {D : Ret → Prop} {A : Prop}

theorem Refuses.verdict (hD : Refuses D) {e : Errno} (he : e ≠ .einval) (hA : ¬A) :
    Verdict D A (.error e) c := iff_of_false (fun h => he (hD e h)) hA

/-- The next reply is in `SMB_buf`. -/
def Holding (c : Client) (packet : List UInt8) (replies : List (List UInt8))
    (P : List UInt8 → Prop) (c' : Client) : Prop :=
  ∃ body rest, replies = body :: rest ∧ P body ∧ c'.smbBuf = overlay c.smbBuf packet body ∧
    Answered c' rest

theorem checkMagic_ensures {m : Nat → UInt8} {body : List UInt8} (hp : IsRequest packet)
    (hbuf : c.smbBuf = overlay m packet body) (hD : Refuses D) (hA : A → MagicAgrees body) :
    checkMagic.Ensures c (fun _ c' => c' = c ∧ MagicAgrees body) (Verdict D A) := by
  have hmagic : smbMagic c.smbBuf = smbMagicNumber ↔ MagicAgrees body := by
    rw [hbuf]
    exact overlay_magic hp
  apply Prog.Ensures.get
  apply Prog.ensures_when
  · intro hne
    exact Prog.ensures_throw (hD.verdict (by decide) fun h => hne (hmagic.mpr (hA h)))
  · intro heq
    exact ⟨rfl, hmagic.mp (Decidable.of_not_not heq)⟩

/-- The tests behind a reply of `GetSMBServerReply`. -/
theorem Asked.tested {body : List UInt8} {rest : List (List UInt8)} {c' : Client} {r : Ret}
    (hp : IsRequest packet) (hD : Refuses D) (hfits : body.length ≤ smbBufSize)
    (hbuf : c'.smbBuf = overlay c.smbBuf packet body) (hanswered : Answered c' rest)
    (hempty : body = [] → Verdict D A r c') (hA : A → body ≠ [] → MagicAgrees body) :
    (Prog.when (body.length = 0) (throw r) >>= fun _ => checkMagic).Ensures c'
      (fun _ c₂ => Holding c packet (body :: rest) Admitted c₂) (Verdict D A) := by
  refine Prog.Ensures.bind (R := fun _ c₁ => c₁ = c' ∧ body ≠ []) ?_ ?_
  · apply Prog.ensures_when
    · intro hzero
      exact Prog.ensures_throw (hempty (List.eq_nil_of_length_eq_zero hzero))
    · intro hpos
      exact ⟨rfl, fun hnil => hpos (by rw [hnil]; rfl)⟩
  · rintro _ _ ⟨rfl, hne⟩
    refine (checkMagic_ensures hp hbuf hD fun ha => hA ha hne).mono ?_
    rintro _ _ ⟨rfl, hmagic⟩
    exact ⟨body, rest, rfl, ⟨hne, hfits, hmagic⟩, hbuf, hanswered⟩

theorem request_ensures (h : Answered c replies) (hp : IsRequest packet) (hD : Refuses D)
    (hA : A → ∃ body rest, replies = body :: rest ∧ Admitted body) :
    (request packet).Ensures c (fun _ c' => Holding c packet replies Admitted c') (Verdict D A) := by
  refine (ask_ensures h packet (by simp)).bind fun r c' hasked => ?_
  cases hasked with
  | reply body rest head fits result buf answered =>
      subst head result
      have hadmitted : A → Admitted body := by
        intro ha
        obtain ⟨body', rest', heq, hbody⟩ := hA ha
        cases heq
        exact hbody
      refine Asked.tested hp hD fits buf answered ?_ fun ha _ => (hadmitted ha).2.2
      exact fun hnil => hD.verdict (by decide) fun ha => (hadmitted ha).1 hnil
  | failure e result other unfit =>
      subst result
      refine Prog.ensures_throw (hD.verdict (by decide) fun ha => ?_)
      obtain ⟨body, rest, heq, hbody⟩ := hA ha
      exact absurd hbody.2.1 (Nat.not_le_of_lt (unfit body rest heq))

theorem requestReturning_ensures {payload : Option (List UInt8)} (h : Answered c replies)
    (hp : IsRequest packet) (hD : Refuses D) (hpayload : payload ≠ some [])
    (hempty : ∀ rest, replies = [] :: rest → (D (.ok 0) ↔ A))
    (hA : A → ∃ body rest, replies = body :: rest ∧ (body = [] ∨ Admitted body)) :
    (requestReturning packet payload).Ensures c (fun _ c' => Holding c packet replies Admitted c')
      (Verdict D A) := by
  refine (ask_ensures h packet hpayload).bind fun r c' hasked => ?_
  cases hasked with
  | reply body rest head fits result buf answered =>
      subst head result
      refine Asked.tested hp hD fits buf answered ?_ ?_
      · intro hnil
        exact hempty rest (by rw [hnil])
      · intro ha hne
        obtain ⟨body', rest', heq, hbody⟩ := hA ha
        cases heq
        exact (hbody.resolve_left hne).2.2
  | failure e result other unfit =>
      subst result
      refine Prog.ensures_throw (hD.verdict other fun ha => ?_)
      obtain ⟨body, rest, heq, hbody⟩ := hA ha
      have hlarge := unfit body rest heq
      rcases hbody with hnil | hadmitted
      · rw [hnil] at hlarge
        cases hlarge
      · exact absurd hadmitted.2.1 (Nat.not_le_of_lt hlarge)

/-! The switches let exactly the status 0 through. -/

def IsSwitch (switch : Fn Unit) : Prop :=
  ∀ {c : Client} {D : Ret → Prop} {A : Prop}, Refuses D → (A → smbStatus c.smbBuf = statusSuccess) →
    switch.Ensures c (fun _ c' => c' = c ∧ smbStatus c.smbBuf = statusSuccess) (Verdict D A)

theorem successTest_isSwitch : IsSwitch successTest := by
  intro c D A hD hA
  apply Prog.Ensures.get
  apply Prog.ensures_when
  · exact fun hne => Prog.ensures_throw (hD.verdict (by decide) fun ha => hne (hA ha))
  · exact fun heq => ⟨rfl, Decidable.of_not_not heq⟩

/-- A case in front of the test for a status that is not 0. -/
theorem IsSwitch.case {switch : Fn Unit} (hs : IsSwitch switch) {p : Nat → Prop} [DecidablePred p]
    {e : Errno} (hp : ¬p statusSuccess) (he : e ≠ .einval) :
    IsSwitch (do
      let c ← get
      Prog.when (p (smbStatus c.smbBuf)) (throw (.error e))
      switch) := by
  intro c D A hD hA
  apply Prog.Ensures.get
  refine Prog.Ensures.bind (R := fun _ c' => c' = c) ?_ ?_
  · apply Prog.ensures_when
    · intro hcase
      refine Prog.ensures_throw (hD.verdict he fun ha => hp ?_)
      rwa [hA ha] at hcase
    · exact fun _ => rfl
  · rintro _ _ rfl
    exact hs hD hA

theorem accessSwitch_isSwitch : IsSwitch accessSwitch :=
  successTest_isSwitch.case (p := (· = statusAccessDenied)) (by decide) (by decide)

theorem sessionSwitch_isSwitch : IsSwitch sessionSwitch :=
  successTest_isSwitch.case (p := (sessionLost · = true)) (by decide) (by decide)

theorem Holding.switch {switch : Fn Unit} {c' : Client} (hs : IsSwitch switch)
    (hp : IsRequest packet) (hD : Refuses D) (h : Holding c packet replies Admitted c')
    (hA : A → ∀ body rest, replies = body :: rest → body ≠ [] → replyStatus body = statusSuccess) :
    switch.Ensures c' (fun _ c₂ => Holding c packet replies Taken c₂) (Verdict D A) := by
  obtain ⟨body, rest, heq, hadmitted, hbuf, hanswered⟩ := h
  have hstatus : smbStatus c'.smbBuf = replyStatus body := by
    rw [hbuf]
    exact overlay_status hp
  refine (hs hD fun ha => hstatus.trans (hA ha body rest heq hadmitted.1)).mono ?_
  rintro _ _ ⟨rfl, hzero⟩
  exact ⟨body, rest, heq, ⟨hadmitted, hstatus.symm.trans hzero⟩, hbuf, hanswered⟩

theorem exchange_ensures {switch : Fn Unit} (hs : IsSwitch switch) (h : Answered c replies)
    (hp : IsRequest packet) (hD : Refuses D)
    (hA : A → ∃ body rest, replies = body :: rest ∧ Taken body) :
    (request packet >>= fun _ => switch).Ensures c (fun _ c' => Holding c packet replies Taken c')
      (Verdict D A) := by
  have hadmitted : A → ∃ body rest, replies = body :: rest ∧ Admitted body := by
    intro ha
    obtain ⟨body, rest, heq, htaken⟩ := hA ha
    exact ⟨body, rest, heq, htaken.1⟩
  refine (request_ensures h hp hD hadmitted).bind fun _ c' hholding => ?_
  apply hholding.switch hs hp hD
  intro ha body rest heq _
  obtain ⟨body', rest', heq', htaken⟩ := hA ha
  cases heq'.symm.trans heq
  exact htaken.2

end Verdict

end BdmAssault.Smb
