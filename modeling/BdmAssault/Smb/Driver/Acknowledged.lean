import BdmAssault.Smb.Driver.Host

/-! # Acknowledged writes

A reply to a write says in its `Count` and `CountHigh` how many bytes the server wrote.
`smb_WriteAndX` takes every reply with status 0 for an acknowledgement of the whole
request.
-/

namespace BdmAssault.Smb.Driver

open Lib

/-- A reply with status 0 that acknowledges byte `b` at position `pos` of the file. -/
def Event.Acknowledges (uid tid fid : Option Nat) (pos : Int) (b : UInt8) : Event → Prop
  | .exchange _ (.write uid' tid' fid' offset chunk) got =>
      uid' = uid ∧ tid' = tid ∧ fid' = fid ∧ ∃ r, got.answered = some r ∧ r.status = statusSuccess ∧
        ∃ i, i < r.count ∧ chunk[i]? = some b ∧ pos = offset + i
  | _ => False

/-- Every byte of `data`, written at `pos`, is acknowledged. -/
def Acked (uid tid fid : Option Nat) (pos : Int) (data : List UInt8) (trace : List Event) : Prop :=
  ∀ (i : Nat) b, data[i]? = some b → ∃ e ∈ trace, e.Acknowledges uid tid fid (pos + i) b

/-- What `smb_WriteAndX` returns on an answer. -/
def advance (uid tid fid : Option Nat) (offset : Int) (chunk : List UInt8) (got : Got) :
    Option (Except Errno Nat) :=
  ((smbWriteAndX uid tid fid offset chunk).run.exec serve ⟨⟨initialState, true, []⟩, [got], []⟩).1

/-- A reply that acknowledges less than its request advances the position by no more than
it acknowledges. -/
def Event.Measured : Event → Prop
  | .exchange _ (.write uid tid fid offset chunk) (.reply r) =>
      ∀ moved, advance uid tid fid offset chunk (.reply r) = some (.ok moved) → moved ≤ r.count
  | _ => True

/-- A call of `smb_WriteFileWithReconnect`, whose events are `n.host.trace`. -/
structure Acknowledged (fh : Nat) (position : Int) (data : List UInt8)
    (result : Option (Except Errno Nat)) (n : Net) : Prop where
  complete : result = some (.ok data.length) →
    Acked n.host.state.session.uid n.host.state.session.tid (n.host.state.handle fh).fid position
      data n.host.trace
  measured : ∀ e ∈ n.host.trace, e.Measured

/-- The server acknowledges all of a write that it reports a success for. -/
def Event.Whole : Event → Prop
  | .exchange _ (.write _ _ _ _ chunk) got =>
      ∀ r, got.answered = some r → r.status = statusSuccess → chunk.length ≤ r.count
  | _ => True

/-! ## One request -/

variable {s s' : Host} {uid tid fid : Option Nat} {pos : Int} {data : List UInt8}

theorem Acked.mono {trace trace' : List Event} (h : Acked uid tid fid pos data trace)
    (hsub : trace ⊆ trace') : Acked uid tid fid pos data trace' := by
  intro i b hb
  obtain ⟨e, he, hack⟩ := h i b hb
  exact ⟨e, hsub he, hack⟩

theorem acked_nil {trace : List Event} : Acked uid tid fid pos [] trace := by
  intro i b hb
  simp at hb

theorem Acked.append {trace : List Event} {chunk rest : List UInt8}
    (hchunk : Acked uid tid fid pos chunk trace)
    (hrest : Acked uid tid fid (pos + chunk.length) rest trace) :
    Acked uid tid fid pos (chunk ++ rest) trace := by
  intro i b hb
  by_cases hi : i < chunk.length
  · rw [List.getElem?_append_left hi] at hb
    exact hchunk i b hb
  · have hle : chunk.length ≤ i := Nat.le_of_not_lt hi
    rw [List.getElem?_append_right hle] at hb
    have hpos : pos + i = pos + chunk.length + (i - chunk.length : Nat) := by omega
    rw [hpos]
    exact hrest _ b hb

/-- The trace and the state after requests that change nothing of the state. -/
structure Asked (s s' : Host) : Prop where
  state : s'.state = s.state
  trace : s.trace ⊆ s'.trace

theorem Asked.refl (s : Host) : Asked s s := ⟨rfl, fun _ h => h⟩

theorem Asked.trans {s'' : Host} (h : Asked s s') (h' : Asked s' s'') : Asked s s'' :=
  ⟨h'.state.trans h.state, fun _ he => h'.trace (h.trace he)⟩

theorem asked_record (s : Host) (e : Event) : Asked s (s.record e) :=
  ⟨rfl, fun _ he => List.mem_cons_of_mem _ he⟩

/-- The outcome of a request for `chunk`, or of a loop over it, that returns the bytes it moved. -/
structure Wrote (uid tid fid : Option Nat) (pos : Int) (chunk : List UInt8) (s : Host)
    (moved : Nat) (r : Except Errno Nat) (s' : Host) : Prop extends Asked s s' where
  moved : ∀ n, r = .ok n → n = 0 ∨ (n = moved ∧ Acked uid tid fid pos chunk s'.trace)

theorem whole_acked {caller : Caller} {got : Got} {r : Reply} {trace : List Event}
    (hwhole : (Event.exchange caller (.write uid tid fid pos data) got).Whole)
    (hr : got.answered = some r) (hstatus : r.status = statusSuccess) :
    Acked uid tid fid pos data (.exchange caller (.write uid tid fid pos data) got :: trace) := by
  intro i b hb
  refine ⟨_, List.mem_cons_self, ?_⟩
  have hlen := (List.getElem?_eq_some_iff.mp hb).1
  exact ⟨rfl, rfl, rfl, r, hr, hstatus, i, Nat.lt_of_lt_of_le hlen (hwhole r hr hstatus), hb, rfl⟩

theorem received_some {got : Got} {r : Reply} (h : got.received = .ok (some r)) :
    got = .reply r := by
  cases got with
  | timeout => cases h
  | reset => cases h
  | reply r' =>
      unfold Got.received at h
      dsimp only at h
      split at h
      · cases h
      · split at h
        · cases h
        · cases h
          rfl

theorem answered_of_received {got : Got} {r : Reply} (h : got.received = .ok (some r))
    (hmagic : r.magic = smbMagicNumber) : got.answered = some r := by
  unfold Got.answered
  rw [h]
  exact if_pos hmagic

theorem checkSession_ensures {C : Event → Prop} {I : Host → Prop} {r : Reply}
    {Q : Except Errno Unit → Host → Prop} (hok : r.status = statusSuccess → Q (.ok ()) s)
    (herror : ∀ e, Q (.error e) s) : Ensures C I s (checkSession r) Q := by
  unfold checkSession
  split
  · exact ensures_pure (hok ‹_›)
  · split
    · exact ensures_throw (herror _)
    · exact ensures_throw (herror _)

theorem smbWriteAndX_acked : Ensures Event.Whole (fun _ => True) s (smbWriteAndX uid tid fid pos data)
    (Wrote uid tid fid pos data s data.length) := by
  refine Ensures.bind (ensures_getSMBServerReply (Q := fun r s' => Asked s s' ∧
    ∀ reply, r = .ok (some reply) → reply.magic = smbMagicNumber → reply.status = statusSuccess →
      Acked uid tid fid pos data s'.trace) (fun _ got hwhole => ?_) fun _ => ?_) ?_ ?_
  · refine ⟨trivial, asked_record _ _, fun reply hreply hmagic hstatus => ?_⟩
    exact whole_acked hwhole (answered_of_received hreply hmagic) hstatus
  · exact ⟨trivial, Asked.refl s, fun reply hreply => by cases hreply⟩
  · rintro reply s₁ ⟨hasked, hacked⟩
    cases reply with
    | none => exact ensures_pure ⟨hasked, fun n hn => Or.inl (Except.ok.inj hn).symm⟩
    | some reply =>
        have hfailed : ∀ e, Wrote uid tid fid pos data s data.length (.error e) s₁ :=
          fun e => ⟨hasked, fun n hn => by cases hn⟩
        dsimp only
        split
        · rename_i hmagic
          refine Ensures.bind (R := fun r s₂ => s₂ = s₁ ∧ (r = .ok () → reply.status = statusSuccess))
            (checkSession_ensures (fun hstatus => ⟨rfl, fun _ => hstatus⟩)
              fun e => ⟨rfl, fun h => by cases h⟩) ?_ ?_
          · rintro _ _ ⟨rfl, hstatus⟩
            refine ensures_pure ⟨hasked, fun n hn => Or.inr ⟨(Except.ok.inj hn).symm, ?_⟩⟩
            exact hacked reply rfl hmagic (hstatus rfl)
          · rintro e _ ⟨rfl, -⟩
            exact hfailed e
        · exact ensures_throw (hfailed _)
  · rintro e s₁ ⟨hasked, -⟩
    exact ⟨hasked, fun n hn => by cases hn⟩

/-! ## The loop and the reconnects -/

/-- Every round moves at least one byte, so `rounds` of at least the length are enough. -/
theorem writeLoop_acked (nbytes rounds : Nat) : ∀ {s : Host} {pos : Int} {data : List UInt8},
    data.length ≤ rounds → Ensures Event.Whole (fun _ => True) s
      (writeLoop uid tid fid nbytes rounds pos data) (Wrote uid tid fid pos data s nbytes) := by
  have hdone : ∀ {s : Host} {pos : Int} {data : List UInt8}, data = [] →
      Wrote uid tid fid pos data s nbytes (.ok nbytes) s := by
    intro s pos data hdata
    subst hdata
    exact ⟨Asked.refl s, fun n hn => Or.inr ⟨(Except.ok.inj hn).symm, acked_nil⟩⟩
  induction rounds with
  | zero =>
      intro s pos data hlen
      exact ensures_pure (hdone (List.length_eq_zero_iff.mp (Nat.le_zero.mp hlen)))
  | succ rounds ih =>
      intro s pos data hlen
      unfold writeLoop
      split
      · exact ensures_pure (hdone ‹_›)
      · refine Ensures.bind smbWriteAndX_acked (fun moved s₁ h₁ => ?_)
          fun e s₁ h₁ => ⟨h₁.toAsked, fun n hn => by cases hn⟩
        split
        · exact ensures_pure ⟨h₁.toAsked, fun n hn => Or.inl (Except.ok.inj hn).symm⟩
        · rename_i hmoved
          obtain ⟨hlength, hacked⟩ := (h₁.moved moved rfl).resolve_left hmoved
          have hdrop : (data.drop moved).length ≤ rounds := by
            rw [List.length_drop]
            omega
          refine (ih hdrop).mono fun r s₂ h₂ => ?_
          refine ⟨h₁.toAsked.trans h₂.toAsked, fun n hn => (h₂.moved n hn).imp_right ?_⟩
          rintro ⟨hn', hrest⟩
          have hsplit : data.take 65535 ++ data.drop moved = data := by
            rw [List.length_take] at hlength
            by_cases hbig : 65535 ≤ data.length
            · rw [hlength, Nat.min_eq_left hbig]
              exact List.take_append_drop _ _
            · rw [hlength, Nat.min_eq_right (by omega), List.drop_length, List.append_nil,
                List.take_of_length_le (by omega)]
          refine ⟨hn', ?_⟩
          rw [← hsplit]
          refine (hacked.mono h₂.trace).append ?_
          rw [← hlength]
          exact hrest

theorem smbWriteFile_acked : Ensures Event.Whole (fun _ => True) s (smbWriteFile uid tid fid pos data)
    (Wrote uid tid fid pos data s data.length) := writeLoop_acked _ _ (Nat.le_refl _)

/-- The identifiers of the last attempt are those of the state it ends in. -/
theorem smbWriteFileWithReconnect_acked (rounds fh : Nat) :
    Ensures Event.Whole (fun _ => True) s (smbWriteFileWithReconnect rounds fh pos data)
      fun r s' => r = .ok data.length → Acked s'.state.session.uid s'.state.session.tid
        (s'.state.handle fh).fid pos data s'.trace := by
  refine ensures_loop (P := fun _ _ => True) (fun _ s₁ _ => ?_) trivial
  refine Ensures.get trivial ?_
  refine smbWriteFile_acked.result fun r s₂ h₂ => ?_
  cases r with
  | ok n =>
      refine ensures_pure fun hn => ?_
      rw [h₂.state]
      cases hn
      rcases h₂.moved _ rfl with hzero | ⟨-, hacked⟩
      · rw [List.length_eq_zero_iff.mp hzero]
        exact acked_nil
      · exact hacked
  | error e =>
      dsimp only
      split
      · have hreconnect : Ensures Event.Whole (fun _ => True) s₂ (smbReconnectUntilReady rounds)
          fun _ _ => True := ensures_trivial _
        refine hreconnect.result fun r s₃ _ => ?_
        cases r with
        | ok _ => exact ensures_pure trivial
        | error _ => exact ensures_throw fun h => by cases h
      · exact ensures_throw fun h => by cases h

/-! ## What a reply moves -/

/-- The whole request is taken for written, or nothing. -/
theorem advance_eq (uid tid fid : Option Nat) (offset : Int) (chunk : List UInt8) (got : Got) :
    advance uid tid fid offset chunk got = some (got.received.bind fun
      | none => .ok 0
      | some r =>
          if r.magic = smbMagicNumber then
            if r.status = statusSuccess then .ok chunk.length
            else if sessionLost r.status then .error .enotconn
            else .error .eio
          else .error .eio) := by
  unfold advance smbWriteAndX
  rw [ExceptT.run_bind, Dialogue.exec_bind (getSMBServerReply_exec rfl ..)]
  cases got.received with
  | error e => rfl
  | ok reply =>
      cases reply with
      | none => rfl
      | some r =>
          show (Dialogue.exec serve (if r.magic = smbMagicNumber then
            (do checkSession r; return chunk.length) else throw .eio : Call Nat).run _).1 =
              some (if _ then _ else _)
          split
          · show (Dialogue.exec serve ((if _ then _ else _ : Call Unit) >>= _ : Call Nat).run _).1 = _
            split
            · rfl
            · split
              · rfl
              · rfl
          · rfl

theorem advance_answered {got : Got} {r : Reply} (hr : got.answered = some r)
    (hstatus : r.status = statusSuccess) :
    advance uid tid fid pos data got = some (.ok data.length) := by
  unfold Got.answered at hr
  split at hr
  · rename_i r' hreceived
    split at hr
    · rename_i hmagic
      cases hr
      rw [advance_eq, hreceived]
      simp [Except.bind, hmagic, hstatus]
    · cases hr
  · cases hr

theorem advance_le {got : Got} {moved : Nat} (h : advance uid tid fid pos data got = some (.ok moved)) :
    moved = 0 ∨ ∃ r, got.answered = some r ∧ r.status = statusSuccess ∧ moved = data.length := by
  rw [advance_eq] at h
  cases hreceived : got.received with
  | error e => simp [hreceived, Except.bind] at h
  | ok reply =>
      cases reply with
      | none =>
          left
          simpa [hreceived, Except.bind, eq_comm] using h
      | some r =>
          right
          rw [hreceived] at h
          simp only [Except.bind] at h
          split at h
          · rename_i hmagic
            split at h
            · rename_i hstatus
              refine ⟨r, answered_of_received hreceived hmagic, hstatus, ?_⟩
              simpa [eq_comm] using h
            · split at h
              · simp at h
              · simp at h
          · simp at h

theorem answered_eq_reply {got : Got} {r : Reply} (h : got.answered = some r) : got = .reply r := by
  unfold Got.answered at h
  split at h
  · rename_i r' hreceived
    split at h
    · cases h
      exact received_some hreceived
    · cases h
  · cases h

theorem measured_iff_whole (e : Event) : e.Measured ↔ e.Whole := by
  unfold Event.Measured Event.Whole
  split
  · constructor
    · intro h r' hr hstatus
      cases answered_eq_reply hr
      exact h _ (advance_answered hr hstatus)
    · intro h moved hmoved
      rcases advance_le hmoved with rfl | ⟨r', hr, hstatus, rfl⟩
      · exact Nat.zero_le _
      · cases answered_eq_reply hr
        exact h _ hr hstatus
  · rename_i hother
    split
    · rename_i uid tid fid offset chunk got
      refine ⟨fun _ r hr => ?_, fun _ => trivial⟩
      cases answered_eq_reply hr
      exact absurd rfl (hother _ _ _ _ _ _ _)
    · exact Iff.rfl

/-- A write is reported complete only when it is acknowledged, and no reply moves the
position further than it acknowledges, exactly if every reply of a success acknowledges
the whole of its request. -/
theorem write_acknowledged_iff (state : State) (connected : Bool) (answers : List Got)
    (connects : List Bool) (rounds fh : Nat) (position : Int) (data : List UInt8) :
    let run := (smbWriteFileWithReconnect rounds fh position data).run.exec serve
      ⟨⟨state, connected, []⟩, answers, connects⟩
    Acknowledged fh position data run.1 run.2 ↔ ∀ e ∈ run.2.host.trace, e.Whole := by
  intro run
  constructor
  · intro h e he
    exact (measured_iff_whole e).mp (h.measured e he)
  · intro h
    refine ⟨fun hresult => ?_, fun e he => (measured_iff_whole e).mpr (h e he)⟩
    have hexec := (smbWriteFileWithReconnect_acked rounds fh).exec
      (n := ⟨⟨state, connected, []⟩, answers, connects⟩) trivial h
    exact hexec.2 _ hresult rfl

/-- A write of two bytes to an open file; the server reports a success and acknowledges
none of them. -/
def unacknowledged : Option (Except Errno Nat) × Net :=
  (smbWriteFileWithReconnect 1 0 0 [0x61, 0x62]).run.exec serve
    ⟨⟨{ initialState with
      session := { initialState.session with
        uid := some 1, tid := some 1, logonValid := true, openshareValid := true }
      handles := [{ noHandle with used := true, fid := some 5 }] }, true, []⟩,
      [.reply { granted with count := 0 }], []⟩

theorem write_unacknowledged :
    unacknowledged.1 = some (.ok 2) ∧
      ¬ Acknowledged 0 0 [0x61, 0x62] unacknowledged.1 unacknowledged.2 := by
  have hresult : unacknowledged.1 = some (.ok 2) := rfl
  refine ⟨hresult, fun h => ?_⟩
  obtain ⟨e, he, hack⟩ := h.complete hresult 0 0x61 rfl
  have htrace : unacknowledged.2.host.trace = [.exchange .transfer
      (.write (some 1) (some 1) (some 5) 0 [0x61, 0x62]) (.reply { granted with count := 0 })] := by
    decide +kernel
  rw [htrace, List.mem_singleton] at he
  subst he
  obtain ⟨-, -, -, r, hr, -, i, hi, -⟩ := hack
  obtain rfl : { granted with count := 0 } = r := Option.some.inj hr
  exact absurd hi (Nat.not_lt_zero i)

end BdmAssault.Smb.Driver
