import BdmAssault.Smb.Exchange

/-! # Replies shorter than what is read of them

A function that goes through `GetSMBServerReply` does not look at how many bytes were
received. The replies that mislead it are those that end early and agree with the
request as far as they go.
-/

namespace BdmAssault.Smb

open Lib

/-! ## The fourteen functions -/

inductive Command where
  | sessionSetupAndX (rest : Bool → List UInt8)
  | treeConnectAndX (uid : Nat) (rest : Bool → List UInt8)
  | queryPathInformation (uid tid : Nat) (path : List UInt8)
  | ntCreateAndX (uid tid : Nat) (filename : List UInt8) (mode : OpenFlags)
  | openAndX (uid tid : Nat) (filename : List UInt8) (mode : OpenFlags)
  | writeAndX (uid tid fid fileoffset : Nat) (writebuf : List UInt8)
  | close (uid tid fid : Nat)
  | delete (uid tid : Nat) (path : List UInt8)
  | manageDirectory (uid tid : Nat) (path : List UInt8) (cmd : Nat)
  | rename (uid tid : Nat) (oldPath newPath : List UInt8)
  | findFirstNext2 (uid tid : Nat) (path : List UInt8) (sid : Option Nat)
  | treeDisconnect (uid tid : Nat)
  | logOffAndX (uid : Nat)
  | echo (bytes : List UInt8)

/-- The call, with the value the function returns. -/
def Command.call (specs : ServerSpecs) : Command → Fn Nat
  | .sessionSetupAndX rest => smbSessionSetupAndX specs rest
  | .treeConnectAndX uid rest => smbTreeConnectAndX specs uid rest
  | .queryPathInformation uid tid path => do
      let _ ← smbQueryPathInformation specs uid tid path
      return 0
  | .ntCreateAndX uid tid filename mode => do
      let (fid, _) ← smbNTCreateAndX specs uid tid filename mode
      return fid
  | .openAndX uid tid filename mode => do
      let (fid, _) ← smbOpenAndX specs uid tid filename mode
      return fid
  | .writeAndX uid tid fid fileoffset writebuf => smbWriteAndX uid tid fid fileoffset writebuf
  | .close uid tid fid => do
      smbClose uid tid fid
      return 0
  | .delete uid tid path => do
      smbDelete specs uid tid path
      return 0
  | .manageDirectory uid tid path cmd => do
      smbManageDirectory specs uid tid path cmd
      return 0
  | .rename uid tid oldPath newPath => do
      smbRename specs uid tid oldPath newPath
      return 0
  | .findFirstNext2 uid tid path sid => do
      let info ← smbFindFirstNext2 specs uid tid path sid
      return info.sid
  | .treeDisconnect uid tid => do
      smbTreeDisconnect uid tid
      return 0
  | .logOffAndX uid => do
      smbLogOffAndX uid
      return 0
  | .echo bytes => do
      smbEcho bytes
      return 0

def Command.result (specs : ServerSpecs) (cmd : Command) (c : Client) : Ret :=
  ((cmd.call specs).outcome .ok c).1

/-- The results that a field of the reply decides: success, and the `-EINVAL` of a
search that found nothing. A write of 0 bytes is no success. -/
def Command.Decided : Command → Ret → Prop
  | .writeAndX .., .ok n => 0 < n
  | _, .ok _ => True
  | _, .error e => e = .einval

/-- The bytes that are looked at for a string of at most so many units of `width` bytes. -/
def lookedAt (b : Nat → UInt8) (width : Nat) : Nat → Nat → Nat
  | 0, _ => 0
  | limit + 1, pos =>
      width + if ∀ i < width, b (pos + i) = 0 then 0 else lookedAt b width limit (pos + width)

/-- The end of what a search reads of an entry: its fields up to `FileNameLen`, and the name by
`getStringField`. A name without a zero ends behind the reply. -/
def entryEnd (specs : ServerSpecs) (body : List UInt8) : Nat :=
  let b := bytesAt (frame body)
  let data := transDataOffset b
  let inbytes := word32 b (data + 64)
  let name :=
    if specs.unicode then lookedAt b 2 (if inbytes < 2147483648 then inbytes / 2 else 0) (data + 98)
    else lookedAt b 1 (if inbytes ≠ 0 then inbytes else body.length + 1) (data + 98)
  if name = 0 then data + 64 else data + 94 + name

/-- The replies a result is decided by, each with the end of what is read of it. -/
def Command.reads (specs : ServerSpecs) (cmd : Command) (replies : List (List UInt8)) :
    List (List UInt8 × Nat) :=
  let dataOffset body := transDataOffset (bytesAt (frame body))
  match cmd, replies with
  | .sessionSetupAndX _, first :: rest | .treeConnectAndX _ _, first :: rest =>
      if replyStatus first = statusLogonFailure then (rest.take 1).map fun body => (body, 32)
      else [(first, 32)]
  | .queryPathInformation .., first :: second :: _ =>
      [(first, max 49 (dataOffset first + 36)), (second, max 49 (dataOffset second + 22))]
  | .ntCreateAndX .., body :: _ => [(body, 96)]
  | .openAndX .., first :: rest =>
      if specs.ntSmbs then [(first, 96)]
      else
        match rest with
        | second :: third :: _ => [(first, 39), (second, 32), (third, max 49 (dataOffset third + 16))]
        | _ => []
  | .findFirstNext2 _ _ _ sid, body :: _ =>
      let b := bytesAt (frame body)
      -- the words at `findCount` and behind it, four bytes earlier in the reply
      [(body, max 49 (max (findCount b sid)
        (if word16 b (findCount b sid) = 0 then 0 else entryEnd specs body)))]
  | .echo bytes, body :: _ => [(body, 37 + bytes.length)]
  | _, body :: _ => [(body, 32)]
  | _, [] => []

/-- A whole SMB header with the right magic number and the status 0 was received, and
what is read of the reply. -/
def Genuine (body : List UInt8) (read : Nat) : Prop :=
  32 ≤ body.length ∧ smbMagic (bytesAt (frame body)) = smbMagicNumber ∧
    replyStatus body = statusSuccess ∧ read ≤ body.length

/-- A result that is decided by a reply is decided by what was received of it. -/
def Command.Sound (specs : ServerSpecs) (cmd : Command) (c : Client) (replies : List (List UInt8)) :
    Prop :=
  cmd.Decided (cmd.result specs c) → ∀ u ∈ cmd.reads specs replies, Genuine u.1 u.2

def TakenAll : Nat → List (List UInt8) → Prop
  | 0, _ => True
  | _ + 1, [] => False
  | n + 1, body :: rest => Taken body ∧ TakenAll n rest

/-- The replies that a log-on function takes. -/
def LogonTaken (specs : ServerSpecs) : List (List UInt8) → Prop
  | [] => False
  | first :: rest => Taken first ∨
      Admitted first ∧ replyStatus first = statusLogonFailure ∧ specs.userLevel = true ∧
        TakenAll 1 rest

/-- The bytes of the echo that were received are right. -/
def Echoed (echo body : List UInt8) : Prop :=
  ∀ i < echo.length, 37 + i < body.length → bytesAt body (37 + i) = bytesAt echo i

/-- The replies that pass the tests of the function, as far as they were received. -/
def Command.Accepts (specs : ServerSpecs) (cmd : Command) (replies : List (List UInt8)) : Prop :=
  match cmd with
  | .sessionSetupAndX _ | .treeConnectAndX _ _ => LogonTaken specs replies
  | .queryPathInformation .. => TakenAll 2 replies
  | .openAndX .. => TakenAll (if specs.ntSmbs then 1 else 3) replies
  | .writeAndX _ _ _ _ writebuf => writebuf ≠ [] ∧ TakenAll 1 replies
  | .close .. => (∃ rest, replies = [] :: rest) ∨ TakenAll 1 replies
  | .echo bytes => (∃ rest, replies = [] :: rest) ∨
      TakenAll 1 replies ∧ ∀ body rest, replies = body :: rest → Echoed bytes body
  | _ => TakenAll 1 replies

/-- A reply that ends before its header or before a field that is read, and that passes
the tests all the same. -/
def Command.Misled (specs : ServerSpecs) (cmd : Command) (replies : List (List UInt8)) : Prop :=
  cmd.Accepts specs replies ∧ ∃ u ∈ cmd.reads specs replies, u.1.length < max 32 u.2

/-! ## Each function accepts what it is said to accept -/

section Functions

variable {specs : ServerSpecs} {c : Client} {packet : List UInt8} {replies : List (List UInt8)}
  {D : Ret → Prop}

theorem takenAll_one_iff :
    TakenAll 1 replies ↔ ∃ body rest, replies = body :: rest ∧ Taken body := by
  cases replies with
  | nil => simp [TakenAll]
  | cons body rest => simp [TakenAll]

/-- A function that makes one exchange. -/
theorem single_ensures {switch : Fn Unit} (hs : IsSwitch switch) (h : Answered c replies)
    (hp : IsRequest packet) (hD : Refuses D) :
    (request packet >>= fun _ => switch).Ensures c
      (fun _ c' => TakenAll 1 replies ∧ Holding c packet replies Taken c')
      (Verdict D (TakenAll 1 replies)) := by
  refine (exchange_ensures hs h hp hD takenAll_one_iff.mp).mono fun _ c' hholding => ?_
  obtain ⟨body, rest, heq, htaken, -⟩ := id hholding
  exact ⟨takenAll_one_iff.mpr ⟨body, rest, heq, htaken⟩, hholding⟩

theorem authenticate_ensures (h : Answered c replies) {packet : Bool → List UInt8}
    (hp : ∀ lm, IsRequest (packet lm)) (hD : Refuses D) :
    (authenticate specs packet).Ensures c (fun _ _ => LogonTaken specs replies)
      (Verdict D (LogonTaken specs replies)) := by
  have hfirst : LogonTaken specs replies → ∃ body rest, replies = body :: rest ∧ Admitted body := by
    intro ha
    cases replies with
    | nil => exact ha.elim
    | cons body rest => exact ⟨body, rest, rfl, ha.elim (fun h => h.1) fun h => h.1⟩
  refine (request_ensures h (hp false) hD hfirst).bind ?_
  rintro _ c₁ ⟨first, rest, rfl, hadmitted, hbuf, hanswered⟩
  have hstatus : smbStatus c₁.smbBuf = replyStatus first := by
    rw [hbuf]
    exact overlay_status (hp false)
  apply Prog.Ensures.get
  split
  · rename_i hfailure
    rw [hstatus] at hfailure
    have hnot : ¬Taken first := by
      intro htaken
      rw [htaken.2] at hfailure
      cases hfailure
    have hlogon : LogonTaken specs (first :: rest) ↔ specs.userLevel = true ∧ TakenAll 1 rest := by
      simp [LogonTaken, hnot, hadmitted, hfailure]
    refine Prog.Ensures.bind (R := fun _ c₂ => c₂ = c₁ ∧ specs.userLevel = true) ?_ ?_
    · apply Prog.ensures_when
      · intro hshare
        refine Prog.ensures_throw (hD.verdict (by decide) fun ha => ?_)
        rw [(hlogon.mp ha).1] at hshare
        cases hshare
      · exact fun huser => ⟨rfl, by simpa using huser⟩
    · rintro _ _ ⟨rfl, huser⟩
      have hsecond : IsSwitch (do
          let c ← get
          Prog.when (smbStatus c.smbBuf = statusLogonFailure) (throw (.error .eacces))
          successTest) :=
        successTest_isSwitch.case (p := (· = statusLogonFailure)) (by decide) (by decide)
      have hrest := exchange_ensures (A := LogonTaken specs (first :: rest)) hsecond hanswered
        (hp true) hD fun ha => takenAll_one_iff.mp (hlogon.mp ha).2
      refine hrest.mono fun _ c₃ hholding => hlogon.mpr ⟨huser, ?_⟩
      obtain ⟨second, more, heq, htaken, -⟩ := hholding
      exact takenAll_one_iff.mpr ⟨second, more, heq, htaken⟩
  · rename_i hother
    rw [hstatus] at hother
    have hlogon : LogonTaken specs (first :: rest) ↔ replyStatus first = statusSuccess := by
      simp [LogonTaken, Taken, hadmitted, hother]
    refine (successTest_isSwitch hD fun ha => hstatus.trans (hlogon.mp ha)).mono ?_
    rintro _ _ ⟨rfl, hzero⟩
    exact hlogon.mpr (hstatus.symm.trans hzero)

theorem queryPacket_isRequest (specs : ServerSpecs) (uid tid : Nat) (path : List UInt8) (level : Nat) :
    IsRequest (queryPacket specs uid tid path level) := smbPacket_isRequest _ _ _ _ _ _ _

theorem smbQueryPathInformation_ensures (h : Answered c replies) (hD : Refuses D) (uid tid : Nat)
    (path : List UInt8) :
    (smbQueryPathInformation specs uid tid path).Ensures c (fun _ _ => TakenAll 2 replies)
      (Verdict D (TakenAll 2 replies)) := by
  have hfirst : TakenAll 2 replies → ∃ body rest, replies = body :: rest ∧ Taken body := by
    intro ha
    cases replies with
    | nil => exact ha.elim
    | cons body rest => exact ⟨body, rest, rfl, ha.1⟩
  unfold smbQueryPathInformation
  rw [← bind_assoc]
  refine (exchange_ensures accessSwitch_isSwitch h (queryPacket_isRequest _ _ _ _ _) hD hfirst).bind ?_
  rintro _ c₁ ⟨first, rest, rfl, htaken, -, hanswered⟩
  apply Prog.Ensures.get
  rw [← bind_assoc]
  have hrest := exchange_ensures (A := TakenAll 2 (first :: rest)) accessSwitch_isSwitch hanswered
    (queryPacket_isRequest specs uid tid path 0x102) hD fun ha => takenAll_one_iff.mp ha.2
  refine hrest.bind ?_
  rintro _ c₂ ⟨second, more, heq, hsecond, -⟩
  apply Prog.Ensures.get
  exact Prog.ensures_pure ⟨htaken, takenAll_one_iff.mpr ⟨second, more, heq, hsecond⟩⟩

theorem smbNTCreateAndX_ensures (h : Answered c replies) (hD : Refuses D) (uid tid : Nat)
    (filename : List UInt8) (mode : OpenFlags) :
    (smbNTCreateAndX specs uid tid filename mode).Ensures c (fun _ _ => TakenAll 1 replies)
      (Verdict D (TakenAll 1 replies)) := by
  unfold smbNTCreateAndX
  dsimp only
  rw [← bind_assoc]
  refine (single_ensures accessSwitch_isSwitch h (smbPacket_isRequest _ _ _ _ _ _ _) hD).bind ?_
  rintro _ c₁ ⟨htaken, -⟩
  apply Prog.Ensures.get
  exact Prog.ensures_pure htaken

/-- The caller's `-1` hides the result of the query. -/
theorem querySize_ensures (h : Answered c replies) (uid tid : Nat) (path : List UInt8)
    {E : Ret → Client → Prop} :
    ((querySize specs uid tid path).call .ok : Fn Ret).Ensures c
      (Verdict (fun r => ∃ size, r = .ok size) (TakenAll 2 replies)) E := by
  have hD : Refuses fun r => ∃ size, r = .ok size := by
    intro e hok
    obtain ⟨size, hsize⟩ := hok
    cases hsize
  refine Prog.Ensures.call Except.ok (R := fun _ _ => TakenAll 2 replies) ?_ ?_
  · refine (smbQueryPathInformation_ensures h hD uid tid path).bind fun _ c' htaken => ?_
    exact Prog.ensures_pure htaken
  · intro size c' htaken
    exact iff_of_true ⟨size, rfl⟩ htaken

theorem smbOpenAndX_ensures (h : Answered c replies) (hD : Refuses D) (uid tid : Nat)
    (filename : List UInt8) (mode : OpenFlags) :
    (smbOpenAndX specs uid tid filename mode).Ensures c
      (fun _ _ => TakenAll (if specs.ntSmbs then 1 else 3) replies)
      (Verdict D (TakenAll (if specs.ntSmbs then 1 else 3) replies)) := by
  unfold smbOpenAndX
  by_cases hnt : specs.ntSmbs = true
  · simp only [hnt, if_true]
    exact smbNTCreateAndX_ensures h hD uid tid filename mode
  · simp only [hnt, Bool.false_eq_true, if_false]
    rw [← bind_assoc]
    have hfirst : TakenAll 3 replies → ∃ body rest, replies = body :: rest ∧ Taken body := by
      intro ha
      cases replies with
      | nil => exact ha.elim
      | cons body rest => exact ⟨body, rest, rfl, ha.1⟩
    refine (exchange_ensures accessSwitch_isSwitch h (smbPacket_isRequest _ _ _ _ _ _ _) hD
      hfirst).bind ?_
    rintro _ c₁ ⟨first, rest, rfl, htaken, -, hanswered⟩
    apply Prog.Ensures.get
    refine (querySize_ensures hanswered uid tid filename).bind fun r c₂ hquery => ?_
    cases r with
    | ok size => exact Prog.ensures_pure ⟨htaken, hquery.mp ⟨size, rfl⟩⟩
    | error e =>
        refine Prog.ensures_throw (hD.verdict (by decide) fun ha => ?_)
        obtain ⟨size, hsize⟩ := hquery.mpr ha.2
        cases hsize

theorem smbFindFirstNext2_ensures (h : Answered c replies) (hD : Refuses D)
    (heinval : D (.error .einval)) (uid tid : Nat) (path : List UInt8) (sid : Option Nat) :
    (smbFindFirstNext2 specs uid tid path sid).Ensures c (fun _ _ => TakenAll 1 replies)
      (Verdict D (TakenAll 1 replies)) := by
  unfold smbFindFirstNext2
  dsimp only
  rw [← bind_assoc]
  refine (single_ensures accessSwitch_isSwitch h (smbPacket_isRequest _ _ _ _ _ _ _) hD).bind ?_
  rintro _ c₁ ⟨htaken, -⟩
  apply Prog.Ensures.get
  refine Prog.Ensures.bind (R := fun _ _ => TakenAll 1 replies) ?_ ?_
  · apply Prog.ensures_when
    · exact fun _ => Prog.ensures_throw (iff_of_true heinval htaken)
    · exact fun _ => htaken
  · intro _ c₂ htaken
    exact Prog.ensures_pure htaken

/-- The functions that return the result 0 of an empty reply. -/
theorem returning_ensures {switch : Fn Unit} {payload : Option (List UInt8)} {A : Prop}
    (hs : IsSwitch switch) (h : Answered c replies) (hp : IsRequest packet) (hD : Refuses D)
    (hpayload : payload ≠ some []) (hempty : ∀ rest, replies = [] :: rest → (D (.ok 0) ↔ A))
    (hA : A → (∃ rest, replies = [] :: rest) ∨ TakenAll 1 replies) :
    (requestReturning packet payload >>= fun _ => switch).Ensures c
      (fun _ c' => Holding c packet replies Taken c') (Verdict D A) := by
  have hreply : A → ∃ body rest, replies = body :: rest ∧ (body = [] ∨ Taken body) := by
    intro ha
    rcases hA ha with ⟨rest, heq⟩ | htaken
    · exact ⟨[], rest, heq, Or.inl rfl⟩
    · obtain ⟨body, rest, heq, hbody⟩ := takenAll_one_iff.mp htaken
      exact ⟨body, rest, heq, Or.inr hbody⟩
  have hadmitted : A → ∃ body rest, replies = body :: rest ∧ (body = [] ∨ Admitted body) := by
    intro ha
    obtain ⟨body, rest, heq, hbody⟩ := hreply ha
    exact ⟨body, rest, heq, hbody.imp_right fun htaken => htaken.1⟩
  refine (requestReturning_ensures h hp hD hpayload hempty hadmitted).bind ?_
  intro _ c₁ hholding
  apply hholding.switch hs hp hD
  intro ha body rest heq hne
  obtain ⟨body', rest', heq', hbody⟩ := hreply ha
  cases heq'.symm.trans heq
  exact (hbody.resolve_left hne).2

/-- The echo stands in the same place of the request. -/
theorem overlay_echo (m : Nat → UInt8) (echo body : List UInt8) :
    (∃ i < echo.length, overlay m (smbPacket (smbHeader 0x2b 0 0 0 0)
        ([1] ++ le16 1 ++ le16 echo.length ++ echo) 0) body (41 + i) ≠ bytesAt echo i) ↔
      ¬Echoed echo body := by
  have hpacket : ∀ i, bytesAt (smbPacket (smbHeader 0x2b 0 0 0 0)
      ([1] ++ le16 1 ++ le16 echo.length ++ echo) 0) (41 + i) = bytesAt echo i := by
    intro i
    unfold smbPacket
    rw [← List.append_assoc]
    exact bytesAt_append_right _ echo i
  have hlength : (smbPacket (smbHeader 0x2b 0 0 0 0)
      ([1] ++ le16 1 ++ le16 echo.length ++ echo) 0).length = 41 + echo.length := by
    simp [smbPacket, smbHeader, sessionHeader, le32, le16]
    omega
  constructor
  · rintro ⟨i, hi, hne⟩ hechoed
    apply hne
    have hplace : 41 + i = 4 + (37 + i) := by omega
    by_cases hin : 37 + i < body.length
    · rw [hplace, overlay_reply hin, hechoed i hi hin]
    · rw [hplace, overlay_request (by omega) (by omega), ← hplace, hpacket]
  · intro hnot
    by_contra hall
    apply hnot
    intro i hi hin
    by_contra hne
    refine hall ⟨i, hi, fun heq => hne ?_⟩
    have hplace : 41 + i = 4 + (37 + i) := by omega
    rwa [hplace, overlay_reply hin] at heq

theorem smbEcho_ensures (h : Answered c replies) (hD : Refuses D) (hok : D (.ok 0))
    (echo : List UInt8) :
    (smbEcho echo).Ensures c (fun _ _ => Command.Accepts specs (.echo echo) replies)
      (Verdict D (Command.Accepts specs (.echo echo) replies)) := by
  unfold smbEcho
  rw [← bind_assoc]
  refine (returning_ensures sessionSwitch_isSwitch h (smbPacket_isRequest _ _ _ _ _ _ _) hD
    (by simp) ?_ ?_).bind ?_
  · intro rest heq
    exact iff_of_true hok (Or.inl ⟨rest, heq⟩)
  · exact fun ha => ha.imp_right fun h => h.1
  · rintro _ c₁ ⟨body, rest, rfl, htaken, hbuf, -⟩
    have hne : body ≠ [] := htaken.1.1
    have haccepts : Command.Accepts specs (.echo echo) (body :: rest) ↔ Echoed echo body := by
      simp [Command.Accepts, TakenAll, htaken, hne]
    apply Prog.Ensures.get
    rw [hbuf]
    apply Prog.ensures_when
    · intro hdiffers
      refine Prog.ensures_throw (hD.verdict (by decide) fun ha => ?_)
      exact (overlay_echo _ _ _).mp hdiffers (haccepts.mp ha)
    · intro hsame
      rw [overlay_echo, Classical.not_not] at hsame
      exact haccepts.mpr hsame

theorem smbClose_ensures (h : Answered c replies) (hD : Refuses D) (hok : D (.ok 0))
    (uid tid fid : Nat) :
    (smbClose uid tid fid).Ensures c
      (fun _ _ => (∃ rest, replies = [] :: rest) ∨ TakenAll 1 replies)
      (Verdict D ((∃ rest, replies = [] :: rest) ∨ TakenAll 1 replies)) := by
  unfold smbClose
  refine (returning_ensures successTest_isSwitch h (smbPacket_isRequest _ _ _ _ _ _ _) hD
    (by simp) ?_ id).mono ?_
  · intro rest heq
    exact iff_of_true hok (Or.inl ⟨rest, heq⟩)
  · rintro _ c' ⟨body, rest, heq, htaken, -⟩
    exact Or.inr (takenAll_one_iff.mpr ⟨body, rest, heq, htaken⟩)

/-- `SendData` of no bytes returns 0, and no reply is waited for. -/
theorem requestReturning_nil (packet : List UInt8) (c : Client) :
    ∃ c', (requestReturning packet (some [])).Exits c (.ok 0) c' := by
  have hsend : (getSMBServerReply packet (some [])).Exits c (.ok 0)
      { c with smbBuf := store c.smbBuf 0 packet, sent := c.sent ++ [packet] ++ [[]] } := rfl
  exact ⟨_, (ask_of_exits hsend).bind_exits (Prog.Exits.bind Prog.exits_throw)⟩

theorem smbWriteAndX_ensures (h : Answered c replies) (hD : Refuses D) (hzero : ¬D (.ok 0))
    (uid tid fid fileoffset : Nat) (writebuf : List UInt8) :
    (smbWriteAndX uid tid fid fileoffset writebuf).Ensures c
      (fun n _ => n = writebuf.length ∧ writebuf ≠ [] ∧ TakenAll 1 replies)
      (Verdict D (writebuf ≠ [] ∧ TakenAll 1 replies)) := by
  unfold smbWriteAndX
  dsimp only
  by_cases hnil : writebuf = []
  · subst hnil
    obtain ⟨c', hexits⟩ := requestReturning_nil _ c
    exact hexits.bind.ensures (iff_of_false hzero fun ha => ha.1 rfl)
  · rw [← bind_assoc]
    refine (returning_ensures sessionSwitch_isSwitch h (smbPacket_isRequest _ _ _ _ _ _ _) hD
      (by simpa using hnil) ?_ ?_).bind ?_
    · intro rest heq
      refine iff_of_false hzero fun ha => ?_
      obtain ⟨body, rest', heq', htaken⟩ := takenAll_one_iff.mp ha.2
      cases heq'.symm.trans heq
      exact htaken.1.1 rfl
    · exact fun ha => Or.inr ha.2
    · rintro _ c₁ ⟨body, rest, heq, htaken, -⟩
      exact Prog.ensures_pure ⟨rfl, hnil, takenAll_one_iff.mpr ⟨body, rest, heq, htaken⟩⟩

end Functions

/-! ## Every function -/

theorem Command.decided_refuses (cmd : Command) : Refuses cmd.Decided := by
  intro e h
  cases cmd <;> exact h

theorem Command.decided_iff {specs : ServerSpecs} {c : Client} {replies : List (List UInt8)}
    (cmd : Command) (h : Answered c replies) :
    cmd.Decided (cmd.result specs c) ↔ cmd.Accepts specs replies := by
  have hD := cmd.decided_refuses
  -- on the way through the whole body the result is decided and the replies are accepted
  have hcall : (cmd.call specs).Ensures c
      (fun n _ => cmd.Decided (.ok n) ∧ cmd.Accepts specs replies)
      (Verdict cmd.Decided (cmd.Accepts specs replies)) := by
    cases cmd with
    | sessionSetupAndX rest =>
        refine (authenticate_ensures h (fun _ => smbPacket_isRequest _ _ _ _ _ _ _) hD).bind ?_
        intro _ c' htaken
        exact Prog.Ensures.get (Prog.ensures_pure ⟨trivial, htaken⟩)
    | treeConnectAndX uid rest =>
        refine (authenticate_ensures h (fun _ => smbPacket_isRequest _ _ _ _ _ _ _) hD).bind ?_
        intro _ c' htaken
        exact Prog.Ensures.get (Prog.ensures_pure ⟨trivial, htaken⟩)
    | queryPathInformation uid tid path =>
        refine (smbQueryPathInformation_ensures h hD uid tid path).bind fun _ c' htaken => ?_
        exact Prog.ensures_pure ⟨trivial, htaken⟩
    | ntCreateAndX uid tid filename mode =>
        refine (smbNTCreateAndX_ensures h hD uid tid filename mode).bind fun _ c' htaken => ?_
        exact Prog.ensures_pure ⟨trivial, htaken⟩
    | openAndX uid tid filename mode =>
        refine (smbOpenAndX_ensures h hD uid tid filename mode).bind fun _ c' htaken => ?_
        exact Prog.ensures_pure ⟨trivial, htaken⟩
    | writeAndX uid tid fid fileoffset writebuf =>
        refine (smbWriteAndX_ensures h hD (by simp [Decided]) uid tid fid fileoffset writebuf).mono ?_
        rintro n c' ⟨rfl, hne, htaken⟩
        exact ⟨List.length_pos_of_ne_nil hne, hne, htaken⟩
    | close uid tid fid =>
        refine (smbClose_ensures h hD trivial uid tid fid).bind fun _ c' htaken => ?_
        exact Prog.ensures_pure ⟨trivial, htaken⟩
    | delete uid tid path =>
        refine (single_ensures successTest_isSwitch h (smbPacket_isRequest _ _ _ _ _ _ _) hD).bind ?_
        exact fun _ c' htaken => Prog.ensures_pure ⟨trivial, htaken.1⟩
    | manageDirectory uid tid path cmd =>
        refine (single_ensures accessSwitch_isSwitch h (smbPacket_isRequest _ _ _ _ _ _ _) hD).bind ?_
        exact fun _ c' htaken => Prog.ensures_pure ⟨trivial, htaken.1⟩
    | rename uid tid oldPath newPath =>
        refine (single_ensures accessSwitch_isSwitch h (smbPacket_isRequest _ _ _ _ _ _ _) hD).bind ?_
        exact fun _ c' htaken => Prog.ensures_pure ⟨trivial, htaken.1⟩
    | findFirstNext2 uid tid path sid =>
        refine (smbFindFirstNext2_ensures h hD rfl uid tid path sid).bind fun _ c' htaken => ?_
        exact Prog.ensures_pure ⟨trivial, htaken⟩
    | treeDisconnect uid tid =>
        refine (single_ensures successTest_isSwitch h (smbPacket_isRequest _ _ _ _ _ _ _) hD).bind ?_
        exact fun _ c' htaken => Prog.ensures_pure ⟨trivial, htaken.1⟩
    | logOffAndX uid =>
        refine (single_ensures successTest_isSwitch h (smbPacket_isRequest _ _ _ _ _ _ _) hD).bind ?_
        exact fun _ c' htaken => Prog.ensures_pure ⟨trivial, htaken.1⟩
    | echo bytes =>
        refine (smbEcho_ensures h hD trivial bytes).bind fun _ c' htaken => ?_
        exact Prog.ensures_pure ⟨trivial, htaken⟩
  exact hcall.outcome .ok fun n c' hboth => iff_of_true hboth.1 hboth.2

theorem LogonTaken.reads {specs : ServerSpecs} {first : List UInt8} {rest : List (List UInt8)}
    (h : LogonTaken specs (first :: rest)) {u : List UInt8 × Nat}
    (hu : u ∈ if replyStatus first = statusLogonFailure then (rest.take 1).map fun body => (body, 32)
      else [(first, 32)]) : Taken u.1 := by
  rcases h with htaken | ⟨-, hfailure, -, hsecond⟩
  · rw [if_neg (by rw [htaken.2]; decide)] at hu
    cases List.mem_singleton.mp hu
    exact htaken
  · obtain ⟨second, more, rfl, htaken⟩ := takenAll_one_iff.mp hsecond
    rw [if_pos hfailure] at hu
    cases List.mem_singleton.mp hu
    exact htaken

/-- The replies a result is decided by have passed the tests. -/
theorem Command.Accepts.reads {specs : ServerSpecs} {cmd : Command} {replies : List (List UInt8)}
    (h : cmd.Accepts specs replies) {u : List UInt8 × Nat} (hu : u ∈ cmd.reads specs replies) :
    u.1 = [] ∨ Taken u.1 := by
  cases replies with
  | nil => cases cmd <;> cases hu
  | cons first rest =>
      cases cmd with
      | sessionSetupAndX _ => exact Or.inr (LogonTaken.reads h hu)
      | treeConnectAndX _ _ => exact Or.inr (LogonTaken.reads h hu)
      | queryPathInformation uid tid path =>
          obtain ⟨hfirst, hrest⟩ := h
          obtain ⟨second, more, rfl, hsecond⟩ := takenAll_one_iff.mp hrest
          simp only [Command.reads, List.mem_cons, List.not_mem_nil, or_false] at hu
          rcases hu with rfl | rfl
          · exact Or.inr hfirst
          · exact Or.inr hsecond
      | openAndX uid tid filename mode =>
          simp only [Command.Accepts] at h
          simp only [Command.reads] at hu
          split at hu
          · rename_i hnt
            rw [if_pos hnt] at h
            cases List.mem_singleton.mp hu
            exact Or.inr h.1
          · rename_i hnt
            rw [if_neg hnt] at h
            obtain ⟨hfirst, hrest⟩ := h
            match rest, hrest with
            | second :: third :: more, hrest =>
                simp only [List.mem_cons, List.not_mem_nil, or_false] at hu
                rcases hu with rfl | rfl | rfl
                · exact Or.inr hfirst
                · exact Or.inr hrest.1
                · exact Or.inr hrest.2.1
      | close uid tid fid =>
          cases List.mem_singleton.mp hu
          rcases h with ⟨more, heq⟩ | htaken
          · cases heq
            exact Or.inl rfl
          · exact Or.inr htaken.1
      | echo bytes =>
          cases List.mem_singleton.mp hu
          rcases h with ⟨more, heq⟩ | htaken
          · cases heq
            exact Or.inl rfl
          · exact Or.inr htaken.1.1
      | writeAndX uid tid fid fileoffset writebuf =>
          cases List.mem_singleton.mp hu
          exact Or.inr h.2.1
      | ntCreateAndX _ _ _ _ | delete _ _ _ | manageDirectory _ _ _ _ | rename _ _ _ _
      | findFirstNext2 _ _ _ _ | treeDisconnect _ _ | logOffAndX _ =>
          cases List.mem_singleton.mp hu
          exact Or.inr h.1

theorem Taken.genuine_iff {body : List UInt8} (h : body = [] ∨ Taken body) (read : Nat) :
    Genuine body read ↔ max 32 read ≤ body.length := by
  constructor
  · intro hgenuine
    exact Nat.max_le.mpr ⟨hgenuine.1, hgenuine.2.2.2⟩
  · intro hlength
    obtain ⟨hheader, hread⟩ := Nat.max_le.mp hlength
    rcases h with rfl | htaken
    · cases hheader
    · refine ⟨hheader, (smbMagic_eq_iff _).mpr fun i hi => ?_, htaken.2, hread⟩
      rw [bytesAt_frame]
      exact htaken.1.2.2 i hi (by omega)

/-- Whatever arrives as replies, and however it is cut: a function's result is decided
by what was received exactly when no reply that ends early passes its tests. -/
theorem result_sound_iff (specs : ServerSpecs) (cmd : Command) (c : Client)
    (replies : List (List UInt8)) (h : Answered c replies) :
    cmd.Sound specs c replies ↔ ¬cmd.Misled specs replies := by
  unfold Command.Sound Command.Misled
  rw [cmd.decided_iff h]
  constructor
  · rintro hsound ⟨haccepts, u, hu, hshort⟩
    have hlength := (Taken.genuine_iff (haccepts.reads hu) u.2).mp (hsound haccepts u hu)
    exact absurd hlength (Nat.not_le_of_lt hshort)
  · intro hnot haccepts u hu
    rw [Taken.genuine_iff (haccepts.reads hu)]
    exact Nat.le_of_not_lt fun hshort => hnot ⟨haccepts, u, hu, hshort⟩

/-- A client to which the messages were sent, one buffer each. -/
def answeredClient (replies : List (List UInt8)) : Client :=
  { idleClient with sock := Sock.received (bytewise (replies.map frame).flatten) }

theorem answeredClient_answered {replies : List (List UInt8)}
    (h : ∀ body ∈ replies, body.length < 16777216) : Answered (answeredClient replies) replies where
  wf := Sock.received_wf _
  bytes := by
    show (Sock.received _).bytes = _
    rw [Sock.received_bytes, stream_bytewise]
  small := h

def plainSpecs : ServerSpecs := ⟨false, true, true⟩

/-- A whole reply to `smb_Delete` decides the result. -/
theorem delete_sound :
    (Command.delete 1 2 [0x61, 0]).Sound plainSpecs
        (answeredClient [smbHeader 0x06 0x80 0 2 1 ++ [0, 0, 0]])
        [smbHeader 0x06 0x80 0 2 1 ++ [0, 0, 0]] ∧
      (Command.delete 1 2 [0x61, 0]).result plainSpecs
        (answeredClient [smbHeader 0x06 0x80 0 2 1 ++ [0, 0, 0]]) = .ok 0 := by
  constructor
  · refine (result_sound_iff _ _ _ _ (answeredClient_answered (by simp [smbHeader, le16, le32]))).mpr ?_
    rintro ⟨-, u, hu, hshort⟩
    cases List.mem_singleton.mp hu
    revert hshort
    decide
  · decide +kernel

/-- `smb_Close` takes a reply without any byte for a success, and `smb_Delete` one of a
single byte. -/
theorem short_reply_misleads :
    ¬(Command.close 1 2 3).Sound plainSpecs (answeredClient [[]]) [[]] ∧
      ¬(Command.delete 1 2 [0x61, 0]).Sound plainSpecs (answeredClient [[0xff]]) [[0xff]] := by
  constructor
  · intro hsound
    have hclosed : (Command.close 1 2 3).result plainSpecs (answeredClient [[]]) = .ok 0 := by
      decide +kernel
    have hgenuine := hsound (by rw [hclosed]; trivial) ([], 32) (List.mem_singleton_self _)
    exact absurd hgenuine.1 (by decide)
  · intro hsound
    have hdeleted : (Command.delete 1 2 [0x61, 0]).result plainSpecs (answeredClient [[0xff]]) =
        .ok 0 := by decide +kernel
    have hgenuine := hsound (by rw [hdeleted]; trivial) ([0xff], 32) (List.mem_singleton_self _)
    exact absurd hgenuine.1 (by decide)

end BdmAssault.Smb
