import BdmAssault.Smb.Driver.Requests

/-! # Outstanding replies

A receive that times out leaves its reply on the connection. The reply is taken for
the answer to the next request unless the connection is dropped before. Each request
function keeps the replies paired and says with which errors it can leave one
outstanding.
-/

namespace BdmAssault.Smb.Driver

open Lib

/-- The code drops the connection after a time-out here, before the next request:
reads, writes and the keep-alive echo reconnect, a failed reconnect starts over, and
`smb_LogOn` connects anew. Within a reconnect, only the third negotiation ends it, and
a session setup that no second one follows. -/
def drops : Caller → Request → Bool
  | .transfer, .read _ _ _ _ _ => true
  | .transfer, .write _ _ _ _ _ => true
  | .keepalive, .echo => true
  | .relogon, .logOff _ => true
  | .restore, .negotiate retry => retry = 2
  | .restore, .sessionSetup anonymous _ => !anonymous
  | .restore, _ => true
  | _, _ => false

/-- Every time-out so far was followed by the end of the connection. -/
def Tolerated (w : World) : Prop :=
  ∀ e ∈ w.log, e.answer = none → drops e.caller e.request = true

/-- Every reply taken so far answers the request it was taken for. -/
def Paired (w : World) : Prop := ∀ e ∈ w.log, ∀ id, e.answer = some id → id = e.id

/-! ## Rules -/

def Holds {α : Type} (w : World) (m : Call α) (Q : Except Errno α → World → Prop) : Prop :=
  m.Meets handle Tolerated Paired w Q

section Rules

variable {α β : Type} {w : World} {m : Call α} {f : α → Call β}
  {R : Except Errno α → World → Prop} {Q : Except Errno β → World → Prop}

theorem Holds.mono {R' : Except Errno α → World → Prop} (hm : Holds w m R)
    (hR : ∀ r w', R r w' → R' r w') : Holds w m R' := Fallible.Meets.mono hm hR

theorem Holds.bind (hm : Holds w m R) (hok : ∀ a w', R (.ok a) w' → Holds w' (f a) Q)
    (herror : ∀ e w', R (.error e) w' → Q (.error e) w') : Holds w (m >>= f) Q :=
  Fallible.Meets.bind hm hok herror

theorem Holds.result {f : Except Errno α → Call β} (hm : Holds w m R)
    (hf : ∀ r w', R r w' → Holds w' (f r) Q) : Holds w (m.result >>= f) Q :=
  Fallible.Meets.result hm hf

theorem holds_pure {a : α} (h : R (.ok a) w) : Holds w (pure a) R := h

theorem holds_throw {e : Errno} (h : R (.error e) w) : Holds w (throw e) R := h

theorem holds_command {c : Cmd} {Q : Except Errno c.Res → World → Prop}
    (h : ∀ r w', handle c w = some (r, w') → Tolerated w' → Paired w' ∧ Q (.ok r) w') :
    Holds w (Call.command c) Q := h

/-- A command with a single outcome. -/
theorem Holds.step {c : Cmd} {f : c.Res → Call β} {r : c.Res} {w' : World}
    (hstep : handle c w = some (r, w')) (hp : Paired w') (h : Holds w' (f r) Q) :
    Holds w (Call.command c >>= f) Q := Fallible.Meets.step hstep hp h

theorem Holds.get {f : State → Call β} (hp : Paired w) (h : Holds w (f w.state) Q) :
    Holds w (getState >>= f) Q := Holds.step rfl hp h

theorem Holds.disconnect {f : Unit → Call β} (hp : Paired w)
    (h : Holds { w with connected := false, pending := [] } (f ()) Q) :
    Holds w (disconnect >>= f) Q := Holds.step rfl hp h

theorem holds_modify {g : State → State} {Q : Except Errno Unit → World → Prop} (hp : Paired w)
    (h : Q (.ok ()) { w with state := g w.state }) : Holds w (modifyState g) Q := by
  refine holds_command fun r w' hstep _ => ?_
  cases hstep
  exact ⟨hp, h⟩

theorem Holds.modify {g : State → State} {f : Unit → Call β} (hp : Paired w)
    (h : Holds { w with state := g w.state } (f ()) Q) : Holds w (modifyState g >>= f) Q :=
  Holds.step rfl hp h

end Rules

/-! ## Between requests -/

/-- No reply is outstanding. -/
structure Settled (w : World) : Prop where
  paired : Paired w
  quiet : w.pending = []

/-- What the reconnect logic relies on. -/
def Session.logon (s : Session) : Option Nat × Bool × Bool :=
  (s.uid, s.logonValid, s.keepaliveLocked)

/-- The outcome of a call that began in `w`: it leaves the log-on alone, and a reply can
be outstanding only if the call failed with an error in `late`. -/
structure After {α : Type} (late : Errno → Prop) (w : World) (r : Except Errno α) (w' : World) :
    Prop where
  paired : Paired w'
  logon : w'.state.session.logon = w.state.session.logon
  quiet : w'.pending = [] ∨ ∃ e, r = .error e ∧ late e

section After

variable {α β : Type} {late late' : Errno → Prop} {w w' w'' : World} {m : Call α} {f : α → Call β}

theorem After.settled {a : α} (h : After late w (.ok a) w') : Settled w' := by
  refine ⟨h.paired, h.quiet.resolve_right ?_⟩
  rintro ⟨e, he, -⟩
  cases he

theorem After.settled_error {e : Errno} (h : After late w (.error e : Except Errno α) w')
    (hlate : ¬ late e) : Settled w' := by
  refine ⟨h.paired, h.quiet.resolve_right ?_⟩
  rintro ⟨_, he, hl⟩
  cases he
  exact hlate hl

theorem After.of_error {e : Errno} {r : Except Errno β}
    (h : After late w (.error e : Except Errno α) w') (h' : After late' w' r w'') :
    After late' w r w'' := ⟨h'.paired, h'.logon.trans h.logon, h'.quiet⟩

theorem After.trans {a : α} {r : Except Errno β} (h : After late w (.ok a) w')
    (h' : After late' w' r w'') : After late' w r w'' :=
  ⟨h'.paired, h'.logon.trans h.logon, h'.quiet⟩

theorem After.error {e e' : Errno} (h : After late w (.error e : Except Errno α) w')
    (hlate : late e → late' e') : After late' w (.error e' : Except Errno β) w' := by
  refine ⟨h.paired, h.logon, h.quiet.imp_right ?_⟩
  rintro ⟨_, he, hl⟩
  cases he
  exact ⟨e', rfl, hlate hl⟩

theorem After.weaken {r : Except Errno α} (h : After late w r w') (hlate : ∀ e, late e → late' e) :
    After late' w r w' :=
  ⟨h.paired, h.logon, h.quiet.imp_right fun ⟨e, he, hl⟩ => ⟨e, he, hlate e hl⟩⟩

theorem Settled.after (h : Settled w) (r : Except Errno α) : After late w r w :=
  ⟨h.paired, rfl, Or.inl h.quiet⟩

/-- One call after the other. -/
theorem Holds.next_logon (hm : Holds w m (After late w))
    (hf : ∀ a w', Settled w' → w'.state.session.logon = w.state.session.logon →
      Holds w' (f a) (After late' w')) (hlate : ∀ e, late e → late' e) :
    Holds w (m >>= f) (After late' w) := by
  refine Holds.bind hm (fun a w' h => ?_) (fun e w' h => h.error (hlate e))
  exact (hf a w' h.settled h.logon).mono fun r w'' h' => h.trans h'

theorem Holds.next (hm : Holds w m (After late w))
    (hf : ∀ a w', Settled w' → Holds w' (f a) (After late' w')) (hlate : ∀ e, late e → late' e) :
    Holds w (m >>= f) (After late' w) :=
  hm.next_logon (fun a w' h _ => hf a w' h) hlate

/-- A call whose result is looked at. -/
theorem Holds.next_result {f : Except Errno α → Call β} (hm : Holds w m (After late w))
    (hok : ∀ a w', Settled w' → Holds w' (f (.ok a)) (After late' w'))
    (herror : ∀ e w', After late w (.error e : Except Errno α) w' →
      Holds w' (f (.error e)) (After late' w)) :
    Holds w (m.result >>= f) (After late' w) := by
  refine hm.result fun r w' h => ?_
  cases r with
  | ok a => exact (hok a w' h.settled).mono fun r w'' h' => h.trans h'
  | error e => exact herror e w' h

theorem Paired.append {e : Entry} {v : World} (h : Paired w) (hlog : v.log = w.log ++ [e])
    (he : ∀ id, e.answer = some id → id = e.id) : Paired v := by
  intro e' hmem
  rw [hlog, List.mem_append, List.mem_singleton] at hmem
  rcases hmem with hold | rfl
  · exact h e' hold
  · exact he

/-- With nothing outstanding, the reply that comes is the answer to this request. -/
theorem exchange_spec (h : Settled w) (caller : Caller) (request : Request) :
    Holds w (Call.command (.exchange caller request)) fun r w' =>
      Paired w' ∧ w'.state = w.state ∧
        (w'.pending = [] ∨ (r = .ok .timeout ∧ drops caller request = true)) := by
  refine holds_command fun r w' hstep htol => ?_
  replace hstep : w.exchange caller request = some (r, w') := hstep
  unfold World.exchange at hstep
  split at hstep
  · split at hstep
    · cases hstep
    · cases hstep
      have hpaired : Paired _ := h.paired.append (v := { w with
        log := w.log ++ [⟨w.nextId, caller, request, none⟩] }) rfl (fun id hid => by cases hid)
      have hdrops := htol ⟨w.nextId, caller, request, none⟩ (by simp) rfl
      exact ⟨hpaired, hpaired, rfl, Or.inr ⟨rfl, hdrops⟩⟩
    · cases hstep
      have hpaired : Paired _ := h.paired.append (v := { w with
        log := w.log ++ [⟨w.nextId, caller, request, (w.pending ++ [w.nextId]).head?⟩] }) rfl
        (fun id hid => by rw [h.quiet] at hid; exact (Option.some.inj hid).symm)
      exact ⟨hpaired, hpaired, rfl, Or.inl (by rw [h.quiet]; rfl)⟩
  · cases hstep
    exact ⟨h.paired, h.paired, rfl, Or.inl h.quiet⟩

/-! ## Requests -/

theorem Settled.pure (h : Settled w) (a : α) : Holds w (pure a : Call α) (After late w) :=
  holds_pure (h.after _)

theorem Settled.throw (h : Settled w) (e : Errno) : Holds w (throw e : Call α) (After late w) :=
  holds_throw (h.after _)

theorem Settled.modify (h : Settled w) {g : State → State}
    (hg : (g w.state).session.logon = w.state.session.logon) :
    Holds w (modifyState g) (After late w) :=
  holds_modify h.paired ⟨h.paired, hg, Or.inl h.quiet⟩

/-- After an exchange: either nothing is outstanding, or it timed out. -/
theorem exchange_bind {f : Got → Call β} (h : Settled w) {caller : Caller} {request : Request}
    (hreply : ∀ r w', Settled w' → Holds w' (f (.reply r)) (After late w'))
    (hreset : ∀ w', Settled w' → Holds w' (f .reset) (After late w'))
    (htimeout : ∀ w', Paired w' → (w'.pending = [] ∨ drops caller request = true) →
      Holds w' (f .timeout) (After late w')) :
    Holds w (Call.command (.exchange caller request) >>= f) (After late w) := by
  refine Holds.bind (exchange_spec h caller request) ?_ ?_
  · rintro got w' ⟨hp, hstate, hq⟩
    have hsame : ∀ {r : Except Errno β} {w''}, After late w' r w'' → After late w r w'' :=
      fun h' => ⟨h'.paired, h'.logon.trans (by rw [hstate]), h'.quiet⟩
    cases got with
    | reply r =>
        have hquiet : w'.pending = [] := hq.resolve_right (by rintro ⟨hgot, -⟩; cases hgot)
        exact (hreply r w' ⟨hp, hquiet⟩).mono fun _ _ => hsame
    | reset =>
        have hquiet : w'.pending = [] := hq.resolve_right (by rintro ⟨hgot, -⟩; cases hgot)
        exact (hreset w' ⟨hp, hquiet⟩).mono fun _ _ => hsame
    | timeout => exact (htimeout w' hp (hq.imp_right And.right)).mono fun _ _ => hsame
  · rintro e w' ⟨hp, hstate, hq⟩
    have hquiet : w'.pending = [] := hq.resolve_right (by rintro ⟨he, -⟩; cases he)
    exact ⟨hp, by rw [hstate], Or.inl hquiet⟩

/-- Errors of a request that can leave its reply outstanding: a time-out where the code
drops the connection. -/
def Timeout (caller : Caller) (request : Request) (e : Errno) : Prop :=
  e = .etimedout ∧ drops caller request = true

theorem timeout_spec (hp : Paired w) {caller : Caller} {request : Request}
    (hq : w.pending = [] ∨ drops caller request = true) :
    Holds w (MonadExcept.throw Errno.etimedout : Call α) (After (Timeout caller request) w) :=
  holds_throw ⟨hp, rfl, hq.imp_right fun hd => ⟨_, rfl, rfl, hd⟩⟩

theorem getSMBServerReply_spec (h : Settled w) (caller : Caller) (request : Request) :
    Holds w (getSMBServerReply caller request) (After (Timeout caller request) w) := by
  refine exchange_bind h (fun r w' h' => ?_) (fun w' h' => h'.throw _) (fun w' hp hq => ?_)
  · dsimp only
    split
    · exact h'.pure _
    · split
      · exact h'.throw _
      · exact h'.pure _
  · exact timeout_spec hp hq

theorem requestReply_spec (h : Settled w) (caller : Caller) (request : Request) :
    Holds w (requestReply caller request) (After (fun _ => drops caller request = true) w) := by
  refine (getSMBServerReply_spec h caller request).next_result (fun reply w' h' => ?_)
    (fun e w' hr => holds_throw (hr.error And.right))
  cases reply with
  | none => exact h'.throw _
  | some r =>
      dsimp only
      split
      · exact h'.pure _
      · exact h'.throw _

theorem checkStatus_spec (h : Settled w) (r : Reply) : Holds w (checkStatus r) (After late w) := by
  unfold checkStatus
  split
  · exact h.pure _
  · split
    · exact h.throw _
    · exact h.throw _

theorem checkSuccess_spec (h : Settled w) (r : Reply) :
    Holds w (checkSuccess r) (After late w) := by
  unfold checkSuccess
  split
  · exact h.pure _
  · exact h.throw _

theorem checkSession_spec (h : Settled w) (r : Reply) :
    Holds w (checkSession r) (After late w) := by
  unfold checkSession
  split
  · exact h.pure _
  · split
    · exact h.throw _
    · exact h.throw _

/-! ## Logging on -/

theorem drops_negotiate {caller : Caller} {retry : Nat}
    (h : drops caller (.negotiate retry) = true) : caller = .restore ∧ retry = 2 := by
  cases caller with
  | restore => exact ⟨rfl, by simpa [drops] using h⟩
  | _ => cases h

theorem drops_sessionSetup {caller : Caller} {anonymous lm : Bool}
    (h : drops caller (.sessionSetup anonymous lm) = true) :
    caller = .restore ∧ anonymous = false := by
  cases caller with
  | restore => exact ⟨rfl, by simpa [drops] using h⟩
  | _ => cases h

/-- Another attempt is made on the connection unless this one is the third. -/
theorem negotiateRetry_spec (caller : Caller) (left : Nat) :
    ∀ {w : World}, left ≤ 3 → Settled w →
      Holds w (negotiateRetry caller left) (After (fun _ => caller = .restore) w) := by
  induction left with
  | zero => exact fun _ h => h.throw _
  | succ left ih =>
      intro w hleft h
      unfold negotiateRetry
      refine (requestReply_spec h caller _).next_result (fun r w' h' => ?_) (fun e w' hr => ?_)
      · dsimp only
        split
        · exact h'.modify rfl
        · exact ih (by omega) h'
      · by_cases hlast : left = 0
        · subst hlast
          exact holds_throw (hr.error fun hd => (drops_negotiate hd).1)
        · have hs := hr.settled_error fun hd => hlast (by have := (drops_negotiate hd).2; omega)
          exact (ih (by omega) hs).mono fun r w'' h' => hr.of_error h'

theorem smbNegotiateProtocol_spec (h : Settled w) (caller : Caller) :
    Holds w (smbNegotiateProtocol caller) (After (fun _ => caller = .restore) w) :=
  negotiateRetry_spec caller 3 (Nat.le_refl 3) h

theorem authenticate_spec {send : Bool → Call Reply}
    (hsend : ∀ lm w', Settled w' → Holds w' (send lm) (After late w')) (h : Settled w) :
    Holds w (authenticate send) (After late w) := by
  refine (hsend false w h).next (fun r w' h' => ?_) (fun _ => id)
  split
  · exact h'.pure _
  · split
    · refine Holds.get h'.paired ?_
      split
      · refine (hsend true w' h').next (fun r w'' h'' => ?_) (fun _ => id)
        split
        · exact h''.pure _
        · split
          · exact h''.throw _
          · exact h''.throw _
      · exact h'.throw _
    · exact h'.throw _

theorem smbSessionSetupAndX_spec (h : Settled w) (caller : Caller) (anonymous : Bool) :
    Holds w (smbSessionSetupAndX caller anonymous)
      (After (fun _ => caller = .restore ∧ anonymous = false) w) := by
  refine Holds.next (authenticate_spec (fun lm w' h' => ?_) h) (fun r w' h' => h'.pure _)
    (fun _ => id)
  exact (requestReply_spec h' caller _).mono fun r w'' hr => hr.weaken fun _ => drops_sessionSetup

theorem smbTreeConnectAndX_spec (h : Settled w) (caller : Caller) (uid : Option Nat) (share : Name) :
    Holds w (smbTreeConnectAndX caller uid share) (After (fun _ => caller = .restore) w) := by
  refine Holds.next (authenticate_spec (fun lm w' h' => ?_) h) (fun r w' h' => h'.pure _)
    (fun _ => id)
  refine (requestReply_spec h' caller _).mono fun r w'' hr => hr.weaken fun _ hd => ?_
  cases caller with
  | restore => rfl
  | _ => cases hd

theorem not_drops_operation {request : Request} : ¬ drops .operation request = true := by
  cases request with
  | _ => exact Bool.false_ne_true

/-! ## Files and directories -/

theorem drops_query {caller : Caller} {uid tid : Option Nat} {path : Name} {standard : Bool}
    (h : drops caller (.queryPathInformation uid tid path standard) = true) : caller = .restore := by
  cases caller with
  | restore => rfl
  | _ => cases h

theorem drops_ntCreate {caller : Caller} {uid tid : Option Nat} {path : Name} {mode : OpenMode}
    (h : drops caller (.ntCreate uid tid path mode) = true) : caller = .restore := by
  cases caller with
  | restore => rfl
  | _ => cases h

theorem drops_openFile {caller : Caller} {uid tid : Option Nat} {path : Name} {mode : OpenMode}
    (h : drops caller (.openFile uid tid path mode) = true) : caller = .restore := by
  cases caller with
  | restore => rfl
  | _ => cases h

theorem smbQueryPathInformation_spec (h : Settled w) (caller : Caller) (uid tid : Option Nat)
    (path : Name) :
    Holds w (smbQueryPathInformation caller uid tid path) (After (fun _ => caller = .restore) w) := by
  refine (requestReply_spec h caller _).next (fun basic w₁ h₁ => ?_) (fun _ => drops_query)
  refine (checkStatus_spec h₁ basic).next (fun _ w₂ h₂ => ?_) (fun _ => id)
  refine (requestReply_spec h₂ caller _).next (fun standard w₃ h₃ => ?_) (fun _ => drops_query)
  exact (checkStatus_spec h₃ standard).next (fun _ w₄ h₄ => h₄.pure _) (fun _ => id)

theorem smbNTCreateAndX_spec (h : Settled w) (caller : Caller) (uid tid : Option Nat) (path : Name)
    (mode : OpenMode) :
    Holds w (smbNTCreateAndX caller uid tid path mode) (After (fun _ => caller = .restore) w) := by
  refine (requestReply_spec h caller _).next (fun r w₁ h₁ => ?_) (fun _ hd => ?_)
  · exact (checkStatus_spec h₁ r).next (fun _ w₂ h₂ => h₂.pure _) (fun _ => id)
  · exact drops_ntCreate hd

theorem smbOpenAndX_spec (h : Settled w) (caller : Caller) (uid tid : Option Nat) (path : Name)
    (mode : OpenMode) :
    Holds w (smbOpenAndX caller uid tid path mode) (After (fun _ => caller = .restore) w) := by
  refine Holds.get h.paired ?_
  split
  · exact smbNTCreateAndX_spec h caller uid tid path mode
  · refine (requestReply_spec h caller _).next (fun r w₁ h₁ => ?_) (fun _ hd => ?_)
    · refine (checkStatus_spec h₁ r).next (fun _ w₂ h₂ => ?_) (fun _ => id)
      refine (smbQueryPathInformation_spec h₂ caller uid tid path).next_result
        (fun info w₃ h₃ => h₃.pure _) (fun e w₃ hr => holds_throw (hr.error id))
    · exact drops_openFile hd

/-- A time-out of a transfer is reported as one. -/
theorem smbReadAndX_spec (h : Settled w) (uid tid fid : Option Nat) (offset : Int) (nbytes : Nat) :
    Holds w (smbReadAndX uid tid fid offset nbytes) (After (· = .etimedout) w) := by
  refine exchange_bind h (fun r w' h' => ?_) (fun w' h' => h'.throw _) (fun w' hp hq => ?_)
  · dsimp only
    split
    · split
      · exact h'.pure _
      · exact h'.throw _
    · exact h'.pure _
    · exact h'.throw _
    · exact h'.throw _
    · exact h'.throw _
  · exact (timeout_spec hp hq).mono fun r w'' hr => hr.weaken fun _ => And.left

theorem smbWriteAndX_spec (h : Settled w) (uid tid fid : Option Nat) (offset : Int)
    (data : List UInt8) :
    Holds w (smbWriteAndX uid tid fid offset data) (After (· = .etimedout) w) := by
  refine (getSMBServerReply_spec h _ _).next (fun reply w' h' => ?_) (fun _ => And.left)
  cases reply with
  | none => exact h'.pure _
  | some r =>
      dsimp only
      split
      · exact (checkSession_spec h' r).next (fun _ w'' h'' => h''.pure _) (fun _ => id)
      · exact h'.throw _

theorem readLoop_spec (uid tid fid : Option Nat) (rounds : Nat) :
    ∀ {pos : Int} {remaining : Nat} {done : List UInt8} {w : World}, Settled w →
      Holds w (readLoop uid tid fid rounds pos remaining done) (After (· = .etimedout) w) := by
  induction rounds with
  | zero => exact fun h => h.pure _
  | succ rounds ih =>
      intro pos remaining done w h
      unfold readLoop
      split
      · exact h.pure _
      · refine (smbReadAndX_spec h uid tid fid _ _).next (fun bytes w' h' => ?_) (fun _ => id)
        split
        · exact h'.pure _
        · exact ih h'

theorem writeLoop_spec (uid tid fid : Option Nat) (nbytes rounds : Nat) :
    ∀ {pos : Int} {data : List UInt8} {w : World}, Settled w →
      Holds w (writeLoop uid tid fid nbytes rounds pos data) (After (· = .etimedout) w) := by
  induction rounds with
  | zero => exact fun h => h.pure _
  | succ rounds ih =>
      intro pos data w h
      unfold writeLoop
      split
      · exact h.pure _
      · refine (smbWriteAndX_spec h uid tid fid _ _).next (fun moved w' h' => ?_) (fun _ => id)
        split
        · exact h'.pure _
        · exact ih h'

theorem smbReadFile_spec (h : Settled w) (uid tid fid : Option Nat) (offset : Int) (nbytes : Nat) :
    Holds w (smbReadFile uid tid fid offset nbytes) (After (· = .etimedout) w) :=
  readLoop_spec uid tid fid nbytes h

theorem smbWriteFile_spec (h : Settled w) (uid tid fid : Option Nat) (offset : Int)
    (data : List UInt8) :
    Holds w (smbWriteFile uid tid fid offset data) (After (· = .etimedout) w) :=
  writeLoop_spec uid tid fid data.length data.length h

theorem smbEcho_spec (h : Settled w) (caller : Caller) :
    Holds w (smbEcho caller) (After (Timeout caller .echo) w) := by
  refine (getSMBServerReply_spec h _ _).next (fun reply w' h' => ?_) (fun _ => id)
  cases reply with
  | none => exact h'.pure _
  | some r =>
      dsimp only
      split
      · refine (checkSession_spec h' r).next (fun _ w'' h'' => ?_) (fun _ => id)
        split
        · exact h''.pure _
        · exact h''.throw _
      · exact h'.throw _

end After

end BdmAssault.Smb.Driver
