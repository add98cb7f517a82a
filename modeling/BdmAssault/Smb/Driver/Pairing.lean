import BdmAssault.Smb.Driver.Operations
import BdmAssault.Smb.Driver.Outstanding

/-! # Replies and the requests they answer

The operations of the driver from one state without outstanding replies to the next,
and what follows for whole runs.
-/

namespace BdmAssault.Smb.Driver

open Lib

section Operations

variable {α β : Type} {late late' : Errno → Prop} {w w' w'' : World} {m : Call α} {f : α → Call β}

/-! ## Operations that stay on the connection -/

/-- No error leaves a reply outstanding. -/
def Never (_ : Errno) : Prop := False

theorem After.never {r : Except Errno α} (h : After late w r w') (hlate : ∀ e, ¬ late e) :
    After Never w r w' := h.weaken hlate

theorem request_operation (h : Settled w) (request : Request) :
    Holds w (requestReply .operation request) (After Never w) :=
  (requestReply_spec h .operation request).mono fun _ _ hr => hr.never fun _ => not_drops_operation

theorem Settled.of_never {r : Except Errno α} (h : After Never w r w') : Settled w' := by
  refine ⟨h.paired, h.quiet.resolve_right ?_⟩
  rintro ⟨_, _, hnever⟩
  exact hnever

/-- A call that stays on the connection, whatever it returns. -/
theorem Holds.next_any {f : Except Errno α → Call β} (hm : Holds w m (After Never w))
    (hf : ∀ r w', Settled w' → w'.state.session.logon = w.state.session.logon →
      Holds w' (f r) (After late w')) :
    Holds w (m.result >>= f) (After late w) := by
  refine hm.result fun r w' h => ?_
  refine (hf r w' (Settled.of_never h) h.logon).mono fun r w'' h' => ?_
  exact ⟨h'.paired, h'.logon.trans h.logon, h'.quiet⟩

theorem Holds.getSession {f : Session → Call β} {Q : Except Errno β → World → Prop}
    (hp : Paired w) (h : Holds w (f w.state.session) Q) : Holds w (getSession >>= f) Q := by
  refine Holds.bind (R := fun r w' => r = .ok w.state.session ∧ w' = w) ?_ ?_ ?_
  · exact Holds.get hp (holds_pure ⟨rfl, rfl⟩)
  · rintro a w' ⟨ha, rfl⟩
    cases ha
    exact h
  · rintro e w' ⟨he, -⟩
    cases he

theorem Settled.modifySession (h : Settled w) {g : Session → Session}
    (hg : ∀ s, (g s).logon = s.logon) : Holds w (modifySession g) (After late w) :=
  h.modify (hg w.state.session)

theorem Settled.readAheadInvalidate (h : Settled w) (fh : Option Nat) :
    Holds w (readAheadInvalidate fh) (After late w) := h.modify rfl

theorem Settled.modifyHandle (h : Settled w) (fh : Nat) (g : Handle → Handle) :
    Holds w (modifyHandle fh g) (After late w) := h.modify rfl

theorem smbTreeDisconnect_spec (h : Settled w) (uid tid : Option Nat) :
    Holds w (smbTreeDisconnect .operation uid tid) (After Never w) :=
  (request_operation h _).next (fun r _ h' => checkSuccess_spec h' r) (fun _ => id)

theorem leaveTree_spec (h : Settled w) : Holds w leaveTree (After late w) := by
  refine Holds.getSession h.paired ?_
  split
  · refine (smbTreeDisconnect_spec h _ _).next_any fun r w' h' _ => ?_
    exact h'.modifySession fun _ => rfl
  · exact h.pure _

theorem smbOpenShare_spec (h : Settled w) (caller : Caller) (configured : Name) :
    Holds w (smbOpenShare caller configured) (After (fun _ => caller = .restore) w) := by
  unfold smbOpenShare
  split
  · exact h.throw _
  · refine (leaveTree_spec h).next (fun _ w₁ h₁ => ?_) (fun _ => id)
    refine Holds.getSession h₁.paired ?_
    refine (smbTreeConnectAndX_spec h₁ caller _ _).next (fun tid w₂ h₂ => ?_) (fun _ => id)
    refine (h₂.modifySession (by exact fun _ => rfl)).next (fun _ w₃ h₃ => ?_) (fun _ => id)
    exact (h₃.modify rfl).next (fun _ w₄ h₄ => h₄.modifySession (by exact fun _ => rfl)) (fun _ => id)

theorem smbClose_spec (h : Settled w) (uid tid fid : Option Nat) :
    Holds w (smbClose uid tid fid) (After Never w) := by
  refine (getSMBServerReply_spec h _ _).next (fun reply w' h' => ?_)
    (fun _ ht => not_drops_operation ht.2)
  cases reply with
  | none => exact h'.pure _
  | some r =>
      dsimp only
      split
      · exact checkSuccess_spec h' r
      · exact h'.throw _

theorem closeSlots_spec (slots : List Nat) :
    ∀ {w : World}, Settled w → Holds w (closeSlots slots) (After late w) := by
  induction slots with
  | nil => exact fun h => h.pure _
  | cons fh rest ih =>
      intro w h
      refine Holds.get h.paired ?_
      dsimp only
      split
      · exact ih h
      · exact (smbClose_spec h _ _ _).next_any fun r w' h' _ => ih h'

theorem smbCloseAll_spec (h : Settled w) : Holds w smbCloseAll (After late w) := by
  refine (h.readAheadInvalidate none).next (fun _ w' h' => ?_) (fun _ => id)
  exact Holds.get h'.paired (closeSlots_spec _ h')

theorem closeTree_spec (h : Settled w) : Holds w closeTree (After late w) := by
  refine Holds.getSession h.paired ?_
  split
  · exact (smbCloseAll_spec h).next (fun _ w' h' => leaveTree_spec h') (fun _ => id)
  · exact h.pure _

theorem withPath_spec {filename : Name} {locked : Name → Call α}
    (hlocked : ∀ path, Holds w (locked path) (After late w)) (h : Settled w) :
    Holds w (withPath filename locked) (After late w) := by
  refine Holds.get h.paired ?_
  split
  · exact h.throw _
  · exact hlocked _

theorem queryPath_operation (h : Settled w) (uid tid : Option Nat) (path : Name) :
    Holds w (smbQueryPathInformation .operation uid tid path) (After Never w) :=
  (smbQueryPathInformation_spec h .operation uid tid path).mono fun _ _ hr => hr.never nofun

theorem smbOpen_spec (h : Settled w) (filename : Name) (mode : OpenMode) :
    Holds w (smbOpen filename mode) (After Never w) := by
  refine withPath_spec (fun path => ?_) h
  refine Holds.get h.paired ?_
  split
  · exact h.throw _
  · refine (h.readAheadInvalidate _).next (fun _ w₁ h₁ => ?_) (fun _ => id)
    refine (smbOpenAndX_spec h₁ .operation _ _ path mode).next (fun r w₂ h₂ => ?_) nofun
    exact (h₂.modifyHandle _ _).next (fun _ w₃ h₃ => h₃.pure _) (fun _ => id)

theorem smbCloseFile_spec (h : Settled w) (fh : Nat) :
    Holds w (smbCloseFile fh) (After Never w) := by
  refine Holds.get h.paired ?_
  dsimp only
  split
  · exact h.throw _
  · split
    · refine (smbClose_spec h _ _ _).next (fun _ w₁ h₁ => ?_) (fun _ => id)
      exact (h₁.readAheadInvalidate _).next (fun _ w₂ h₂ => h₂.modifyHandle _ _) (fun _ => id)
    · exact (h.readAheadInvalidate _).next (fun _ w₁ h₁ => h₁.modifyHandle _ _) (fun _ => id)

theorem smbDelete_spec (h : Settled w) (uid tid : Option Nat) (path : Name) :
    Holds w (smbDelete uid tid path) (After Never w) :=
  (request_operation h _).next (fun r _ h' => checkSuccess_spec h' r) (fun _ => id)

theorem smbRemove_spec (h : Settled w) (filename : Name) :
    Holds w (smbRemove filename) (After Never w) := by
  refine withPath_spec (fun path => Holds.getSession h.paired ?_) h
  exact (smbDelete_spec h _ _ path).next (fun _ _ h' => h'.readAheadInvalidate _) (fun _ => id)

theorem smbManageDirectory_spec (h : Settled w) (uid tid : Option Nat) (path : Name)
    (create : Bool) : Holds w (smbManageDirectory uid tid path create) (After Never w) :=
  (request_operation h _).next (fun r _ h' => checkStatus_spec h' r) (fun _ => id)

theorem smbMkdir_spec (h : Settled w) (dirname : Name) : Holds w (smbMkdir dirname) (After Never w) := by
  refine withPath_spec (fun path => Holds.getSession h.paired ?_) h
  exact smbManageDirectory_spec h _ _ path true

theorem smbRmdir_spec (h : Settled w) (dirname : Name) : Holds w (smbRmdir dirname) (After Never w) := by
  refine withPath_spec (fun path => Holds.getSession h.paired ?_) h
  refine (queryPath_operation h _ _ path).next (fun info w' h' => ?_) (fun _ => id)
  split
  · exact smbManageDirectory_spec h' _ _ path false
  · exact h'.throw _

theorem smbDopen_spec (h : Settled w) (dirname : Name) : Holds w (smbDopen dirname) (After Never w) := by
  refine withPath_spec (fun path => Holds.get h.paired ?_) h
  refine (queryPath_operation h _ _ path).next (fun info w' h' => ?_) (fun _ => id)
  split
  · refine Holds.get h'.paired ?_
    split
    · exact h'.throw _
    · exact (h'.modifyHandle _ _).next (fun _ w'' h'' => h''.pure _) (fun _ => id)
  · exact h'.throw _

theorem smbFindFirstNext2_spec (h : Settled w) (uid tid sid : Option Nat) (pattern : Name) :
    Holds w (smbFindFirstNext2 uid tid sid pattern) (After Never w) := by
  refine (request_operation h _).next (fun r w₁ h₁ => ?_) (fun _ => id)
  refine (checkStatus_spec h₁ r).next (fun _ w₂ h₂ => ?_) (fun _ => id)
  split
  · exact h₂.throw _
  · exact h₂.pure _

theorem smbDread_spec (h : Settled w) (fh : Nat) : Holds w (smbDread fh) (After Never w) := by
  refine Holds.get h.paired ?_
  split
  · exact h.throw _
  · split
    · refine (smbFindFirstNext2_spec h _ _ _ _).next (fun sid w' h' => ?_) (fun _ => id)
      exact h'.modifyHandle _ _
    · exact (smbFindFirstNext2_spec h _ _ _ _).next (fun _ _ h' => h'.pure _) (fun _ => id)

theorem smbGetstat_spec (h : Settled w) (filename : Name) :
    Holds w (smbGetstat filename) (After Never w) := by
  refine withPath_spec (fun path => Holds.getSession h.paired ?_) h
  exact (queryPath_operation h _ _ path).next (fun _ _ h' => h'.pure _) (fun _ => id)

theorem smbRename_spec (h : Settled w) (uid tid : Option Nat) (oldPath newPath : Name) :
    Holds w (smbRename uid tid oldPath newPath) (After Never w) :=
  (request_operation h _).next (fun r _ h' => checkStatus_spec h' r) (fun _ => id)

theorem smbRenameFile_spec (h : Settled w) (oldname newname : Name) :
    Holds w (smbRenameFile oldname newname) (After Never w) := by
  refine withPath_spec (fun path => Holds.get h.paired (Holds.getSession h.paired ?_)) h
  exact (smbRename_spec h _ _ _ _).next (fun _ _ h' => h'.readAheadInvalidate _) (fun _ => id)

theorem smbChdir_spec (h : Settled w) (dirname : Name) :
    Holds w (smbChdir dirname) (After Never w) := by
  refine withPath_spec (fun path => ?_) h
  unfold smbChdirLocked
  split
  · exact h.modify rfl
  · split
    · exact h.modify rfl
    · refine Holds.getSession h.paired ?_
      refine (queryPath_operation h _ _ path).next (fun info w' h' => ?_) (fun _ => id)
      split
      · exact h'.modify rfl
      · exact h'.throw _

theorem smbLseek64_spec (h : Settled w) (fh : Nat) (pos : Int) (whence : Whence) :
    Holds w (smbLseek64 fh pos whence) (After Never w) := by
  refine Holds.get h.paired ?_
  dsimp only
  split
  · exact h.throw _
  · exact (h.modifyHandle _ _).next (fun _ _ h' => h'.pure _) (fun _ => id)

theorem smbNetShareEnum_spec (h : Settled w) (uid tid : Option Nat) (index maxEntries : Nat) :
    Holds w (smbNetShareEnum uid tid index maxEntries) (After Never w) := by
  refine (request_operation h _).next (fun r w₁ h₁ => ?_) (fun _ => id)
  refine (checkStatus_spec h₁ r).next (fun _ w₂ h₂ => ?_) (fun _ => id)
  split
  · exact h₂.pure _
  · exact h₂.throw _

theorem listShares_spec (uid tid : Option Nat) (maxent : Nat) (entries : List Nat) :
    ∀ {entry : Option Share} {shareindex : Nat} {w : World}, Settled w →
      Holds w (listShares uid tid maxent entries entry shareindex) (After Never w) := by
  induction entries with
  | nil => exact fun h => h.pure _
  | cons i rest ih =>
      exact fun h => (smbNetShareEnum_spec h uid tid i 1).next (fun _ _ h' => ih h') (fun _ => id)

theorem smbGetShareList_spec (h : Settled w) (maxent : Nat) :
    Holds w (smbGetShareList maxent) (After Never w) := by
  refine (leaveTree_spec h).next (fun _ w₁ h₁ => ?_) (fun _ => id)
  refine Holds.getSession h₁.paired ?_
  refine (smbTreeConnectAndX_spec h₁ .operation _ _).next (fun tid w₂ h₂ => ?_) nofun
  refine (h₂.modifySession (by exact fun _ => rfl)).next (fun _ w₃ h₃ => ?_) (fun _ => id)
  split
  · exact h₃.throw _
  · refine (smbNetShareEnum_spec h₃ _ _ 0 0).next (fun shares w₄ h₄ => ?_) (fun _ => id)
    refine (listShares_spec _ _ maxent _ h₄).next (fun n w₅ h₅ => ?_) (fun _ => id)
    refine (smbTreeDisconnect_spec h₅ _ _).next (fun _ w₆ h₆ => ?_) (fun _ => id)
    exact (h₆.modifySession (by exact fun _ => rfl)).next (fun _ w₇ h₇ => h₇.pure _) (fun _ => id)

theorem smbCloseShare_spec (h : Settled w) : Holds w smbCloseShare (After Never w) := by
  refine Holds.getSession h.paired ?_
  split
  · exact h.throw _
  · refine (smbCloseAll_spec h).next (fun _ w₁ h₁ => ?_) (fun _ => id)
    refine (smbTreeDisconnect_spec h₁ _ _).next (fun _ w₂ h₂ => ?_) (fun _ => id)
    exact h₂.modifySession fun _ => rfl

theorem smbQueryDiskInfo_spec (h : Settled w) : Holds w smbQueryDiskInfo (After Never w) := by
  refine Holds.getSession h.paired ?_
  split
  · exact h.throw _
  · exact (request_operation h _).next (fun r _ h' => checkStatus_spec h' r) (fun _ => id)

end Operations

/-! ## Reconnecting -/

/-- Nothing is outstanding, and a reconnect can log on again. -/
structure Live (w : World) : Prop extends Settled w where
  logonValid : w.state.session.logonValid = true

section Reconnect

variable {α β : Type} {w w' : World}

theorem After.live {late : Errno → Prop} {r : Except Errno α} (h : After late w r w')
    (hw : Live w) (hquiet : w'.pending = []) : Live w' := by
  refine ⟨⟨h.paired, hquiet⟩, ?_⟩
  rw [← hw.logonValid]
  exact congrArg (fun l => l.2.1) h.logon

theorem holds_loop {rounds : Nat} {body : β → Call (β ⊕ α)} {P : β → World → Prop}
    {Q : Except Errno α → World → Prop}
    (hbody : ∀ b w', P b w' → Holds w' (body b) fun r w'' =>
      match r with
      | .ok (.inl b') => P b' w''
      | .ok (.inr a) => Q (.ok a) w''
      | .error e => Q (.error e) w'') {b : β} (hp : P b w) :
    Holds w (loop rounds body b) Q := meets_loop (fun _ => rfl) hbody hp

/-- A property that every round keeps, however it ends. -/
theorem holds_loop_keeps {rounds : Nat} {body : β → Call (β ⊕ α)} {P : World → Prop}
    (hbody : ∀ b w', P w' → Holds w' (body b) fun _ w'' => P w'') {b : β} (hp : P w) :
    Holds w (loop rounds body b) fun _ w' => P w' := by
  refine holds_loop (P := fun _ w' => P w') (fun b w' hp' => ?_) hp
  refine (hbody b w' hp').mono fun r w'' h => ?_
  match r with
  | .ok (.inl _) => exact h
  | .ok (.inr _) => exact h
  | .error _ => exact h

theorem smbConnect_spec (hp : Paired w) :
    Holds w smbConnect fun _ w' => Settled w' ∧ w'.state = w.state := by
  refine Holds.disconnect hp ?_
  refine Holds.bind (R := fun _ w' => Settled w' ∧ w'.state = w.state) ?_ ?_ ?_
  · refine holds_command fun up w' hstep _ => ?_
    replace hstep : World.connect _ = some (up, w') := hstep
    unfold World.connect at hstep
    split at hstep
    · cases hstep
    · cases hstep
      exact ⟨hp, ⟨hp, rfl⟩, rfl⟩
  · intro up w' h'
    split
    · exact holds_pure h'
    · exact holds_throw h'
  · exact fun e w' h' => h'

/-- The outcome of a part of the reconnect: it may leave a reply outstanding only if it
failed. -/
structure Restored (w : World) (r : Except Errno α) (w' : World) : Prop where
  paired : Paired w'
  logonValid : w'.state.session.logonValid = w.state.session.logonValid
  quiet : w'.pending = [] ∨ ∃ e, r = .error e

theorem After.restored {late : Errno → Prop} {r : Except Errno α} (h : After late w r w') :
    Restored w r w' :=
  ⟨h.paired, congrArg (fun l => l.2.1) h.logon, h.quiet.imp_right fun ⟨e, he, _⟩ => ⟨e, he⟩⟩

theorem Holds.next_restored {m : Call α} {f : α → Call β} (hm : Holds w m (Restored w))
    (hf : ∀ a w', Settled w' →
      w'.state.session.logonValid = w.state.session.logonValid → Holds w' (f a) (Restored w')) :
    Holds w (m >>= f) (Restored w) := by
  refine Holds.bind hm (fun a w' h => ?_) (fun e w' h => ⟨h.paired, h.logonValid, Or.inr ⟨e, rfl⟩⟩)
  have hquiet : w'.pending = [] := h.quiet.resolve_right (by rintro ⟨_, he⟩; cases he)
  refine (hf a w' ⟨h.paired, hquiet⟩ h.logonValid).mono fun r w'' h' => ?_
  exact ⟨h'.paired, h'.logonValid.trans h.logonValid, h'.quiet⟩

theorem fallback_spec (h : Settled w) (caller : Caller) (anonymous : Bool) :
    Holds w (smbSessionSetupWithAnonymousFallback caller anonymous)
      (After (fun _ => caller = .restore) w) := by
  refine (smbSessionSetupAndX_spec h caller anonymous).next_result (fun uid w' h' => h'.pure _)
    (fun e w' hr => ?_)
  dsimp only
  split
  · rename_i hanonymous
    have hs := hr.settled_error fun hl => absurd (hanonymous.symm.trans hl.2) nofun
    refine Holds.mono ?_ fun r w'' h' => hr.of_error h'
    refine (smbSessionSetupAndX_spec hs caller false).next (fun uid w'' h'' => h''.pure _)
      (fun _ => And.left)
  · exact holds_throw (hr.error And.left)

theorem smbReopenHandles_spec (slots : List Nat) :
    ∀ {w : World}, Settled w → Holds w (smbReopenHandles slots) (After (fun _ => True) w) := by
  induction slots with
  | nil => exact fun h => h.pure _
  | cons fh rest ih =>
      intro w h
      refine Holds.get h.paired ?_
      dsimp only
      split
      · exact ih h
      · split
        · exact (h.modifyHandle _ _).next (fun _ w' h' => ih h') (fun _ => id)
        · refine (smbOpenAndX_spec h .restore _ _ _ _).next (fun r w₁ h₁ => ?_) (fun _ _ => trivial)
          exact (h₁.modifyHandle _ _).next (fun _ w₂ h₂ => ih h₂) (fun _ => id)

theorem restoreSession_spec (hp : Paired w) : Holds w restoreSession (Restored w) := by
  refine Holds.next_restored ((smbConnect_spec hp).mono fun r w' h => ?_) fun _ w₁ h₁ _ => ?_
  · exact ⟨h.1.paired, by rw [h.2], Or.inl h.1.quiet⟩
  refine Holds.next_restored ((smbNegotiateProtocol_spec h₁ _).mono fun _ _ => After.restored)
    fun _ w₂ h₂ _ => ?_
  refine Holds.getSession h₂.paired ?_
  refine Holds.next_restored ((fallback_spec h₂ _ _).mono fun _ _ => After.restored)
    fun uid w₃ h₃ _ => ?_
  refine Holds.next_restored (holds_modify h₃.paired ?_) fun _ w₄ h₄ _ => ?_
  · exact ⟨h₃.paired, rfl, Or.inl h₃.quiet⟩
  refine Holds.get h₄.paired ?_
  split
  · refine Holds.next_restored ((smbOpenShare_spec h₄ _ _).mono fun _ _ => After.restored)
      fun _ w₅ h₅ _ => ?_
    exact (smbReopenHandles_spec _ h₅).mono fun _ _ => After.restored
  · exact holds_pure ⟨h₄.paired, rfl, Or.inl h₄.quiet⟩

theorem abortConnection_spec {f : Unit → Call β} {Q : Except Errno β → World → Prop} (hp : Paired w)
    (hf : ∀ w', Paired w' → w'.state.session.logonValid = w.state.session.logonValid →
      w'.pending = [] → Holds w' (f ()) Q) : Holds w (abortConnection >>= f) Q := by
  refine Holds.bind (R := fun r w' => r = .ok () ∧ Paired w' ∧
    w'.state.session.logonValid = w.state.session.logonValid ∧ w'.pending = []) ?_ ?_ ?_
  · exact Holds.disconnect hp (holds_modify hp ⟨rfl, hp, rfl, rfl⟩)
  · rintro _ w' ⟨-, hp', hlogon, hquiet⟩
    exact hf w' hp' hlogon hquiet
  · rintro e w' ⟨he, -⟩
    cases he

/-- Whether it succeeds or not, nothing of an old connection is outstanding after it. -/
theorem smbRestoreConnection_spec (hp : Paired w) (hvalid : w.state.session.logonValid = true) :
    Holds w smbRestoreConnection fun _ w' => Live w' := by
  refine Holds.getSession hp ?_
  rw [if_pos hvalid]
  refine abortConnection_spec hp fun w₁ hp₁ hl₁ _ => ?_
  refine Holds.result (restoreSession_spec hp₁) fun r w' h => ?_
  have hv : w'.state.session.logonValid = true := h.logonValid.trans (hl₁.trans hvalid)
  cases r with
  | ok _ =>
      refine holds_pure ⟨⟨h.paired, h.quiet.resolve_right ?_⟩, hv⟩
      rintro ⟨_, he⟩
      cases he
  | error e =>
      refine abortConnection_spec h.paired fun w₂ hp₂ hl₂ hquiet => ?_
      exact holds_throw ⟨⟨hp₂, hquiet⟩, hl₂.trans hv⟩

/-- The loop ends only with a new session. -/
theorem smbReconnectUntilReady_spec (hp : Paired w) (hvalid : w.state.session.logonValid = true)
    (rounds : Nat) : Holds w (smbReconnectUntilReady rounds) fun _ w' => Live w' := by
  refine Holds.modify hp (Holds.modify hp ?_)
  refine Holds.bind (R := fun _ w' => Live w') (holds_loop (P := fun _ w' =>
    Paired w' ∧ w'.state.session.logonValid = true) ?_ ⟨hp, hvalid⟩) ?_ (fun _ _ h => h)
  · rintro _ w₁ ⟨hp₁, hvalid₁⟩
    refine (smbRestoreConnection_spec hp₁ hvalid₁).result fun r w₂ h₂ => ?_
    cases r with
    | ok _ => exact holds_pure h₂
    | error e =>
        refine Holds.getSession h₂.paired ?_
        rw [if_pos h₂.logonValid]
        exact holds_pure ⟨h₂.paired, h₂.logonValid⟩
  · intro _ w₁ h₁
    refine holds_modify h₁.paired ?_
    exact ⟨⟨h₁.paired, h₁.quiet⟩, h₁.logonValid⟩

/-! ## Reading and writing -/

/-- A transfer that timed out is made again on a new connection. -/
theorem withReconnect_spec (h : Live w) (rounds fh : Nat)
    {transfer : Option Nat → Option Nat → Option Nat → Call α}
    (htransfer : ∀ uid tid fid w', Settled w' →
      Holds w' (transfer uid tid fid) (After (· = .etimedout) w')) :
    Holds w (withReconnect rounds fh transfer) fun _ w' => Live w' := by
  refine holds_loop_keeps (fun _ w₁ h₁ => ?_) h
  refine Holds.get h₁.paired ?_
  refine (htransfer _ _ _ w₁ h₁.toSettled).result fun r w₂ h₂ => ?_
  cases r with
  | ok n => exact holds_pure (h₂.live h₁ h₂.settled.quiet)
  | error e =>
      have hvalid : w₂.state.session.logonValid = true :=
        (congrArg (fun l => l.2.1) h₂.logon).trans h₁.logonValid
      dsimp only
      split
      · refine (smbReconnectUntilReady_spec h₂.paired hvalid rounds).result fun r w₃ h₃ => ?_
        cases r with
        | ok _ => exact holds_pure h₃
        | error _ => exact holds_throw h₃
      · rename_i hother
        have hs := h₂.settled_error fun he => hother (by rw [he]; rfl)
        exact holds_throw (h₂.live h₁ hs.quiet)

theorem readFile_live (h : Live w) (rounds fh : Nat) (position : Int) (size : Nat) :
    Holds w (smbReadFileWithReconnect rounds fh position size) fun _ w' => Live w' :=
  withReconnect_spec h rounds fh fun uid tid fid _ h' => smbReadFile_spec h' uid tid fid _ _

theorem writeFile_live (h : Live w) (rounds fh : Nat) (position : Int) (data : List UInt8) :
    Holds w (smbWriteFileWithReconnect rounds fh position data) fun _ w' => Live w' :=
  withReconnect_spec h rounds fh fun uid tid fid _ h' => smbWriteFile_spec h' uid tid fid _ _

theorem Progress.failed_spec (h : Live w) (p : Progress) (e : Errno) :
    Holds w (p.failed e) fun _ w' => Live w' := by
  unfold Progress.failed
  split
  · exact holds_pure h
  · exact holds_throw h

theorem Live.modify {g : State → State} {f : Unit → Call β} {Q : Except Errno β → World → Prop}
    (h : Live w) (hg : (g w.state).session = w.state.session)
    (hf : ∀ w', Live w' → Holds w' (f ()) Q) : Holds w (modifyState g >>= f) Q :=
  Holds.modify h.paired
    (hf _ ⟨⟨h.paired, h.quiet⟩, (congrArg Session.logonValid hg).trans h.logonValid⟩)

theorem smbReadCached_spec (h : Live w) (rounds fh size : Nat) (position : Int) (allow : Bool) :
    Holds w (smbReadCached rounds fh size position allow) fun _ w' => Live w' := by
  refine holds_loop_keeps (fun p w₁ h₁ => ?_) h
  refine Holds.get h₁.paired ?_
  split
  · exact holds_pure h₁
  · split
    · exact holds_pure h₁
    · split
      · refine (readFile_live h₁ rounds fh _ _).result fun r w₂ h₂ => ?_
        cases r with
        | error e => exact Progress.failed_spec h₂ p e
        | ok n =>
            dsimp only
            split
            · exact holds_pure h₂
            · exact holds_pure h₂
      · dsimp only
        split
        · exact holds_pure h₁
        · refine h₁.modify rfl fun w₂ h₂ => ?_
          refine (readFile_live h₂ rounds fh _ _).result fun r w₃ h₃ => ?_
          cases r with
          | error e => exact Progress.failed_spec h₃ p e
          | ok n =>
              dsimp only
              split
              · exact holds_pure h₃
              · exact h₃.modify rfl fun w₄ h₄ => holds_pure h₄

/-! ## The invariant of the driver -/

/-- A session and an unlocked keep-alive thread have the data to log on again. -/
def Session.Valid (s : Session) : Prop :=
  s.logonValid = true ∨ (s.uid = none ∧ s.keepaliveLocked = true)

/-- Between operations. -/
structure Idle (w : World) : Prop extends Settled w where
  valid : w.state.session.Valid

theorem Live.idle (h : Live w) : Idle w := ⟨h.toSettled, Or.inl h.logonValid⟩

theorem Session.Valid.of_logon {s s' : Session} (h : s.Valid) (hlogon : s'.logon = s.logon) :
    s'.Valid := by
  unfold Session.logon at hlogon
  obtain ⟨huid, hvalid, hlocked⟩ : s'.uid = s.uid ∧ s'.logonValid = s.logonValid ∧
      s'.keepaliveLocked = s.keepaliveLocked := by simpa using hlogon
  unfold Session.Valid
  rw [huid, hvalid, hlocked]
  exact h

theorem After.idle {r : Except Errno α} (h : After Never w r w') (hw : Idle w) : Idle w' :=
  ⟨Settled.of_never h, hw.valid.of_logon h.logon⟩

theorem Idle.live (h : Idle w) (huid : w.state.session.uid ≠ none) : Live w :=
  ⟨h.toSettled, h.valid.resolve_right fun hnone => huid hnone.1⟩

theorem Idle.live_of_tree (h : Idle w) (htree : ¬ w.state.session.noTree = true) : Live w := by
  refine h.live fun hnone => htree ?_
  unfold Session.noTree
  rw [hnone]
  rfl

theorem smbRead_spec (h : Idle w) (rounds fh size : Nat) :
    Holds w (smbRead rounds fh size) fun _ w' => Idle w' := by
  refine Holds.get h.paired ?_
  dsimp only
  split
  · exact holds_throw h
  · rename_i htree
    have hlive := h.live_of_tree fun hno => htree (Or.inl hno)
    refine (smbReadCached_spec hlive rounds fh _ _ _).result fun r w₁ h₁ => ?_
    cases r with
    | error e => exact h₁.modify rfl fun w₂ h₂ => holds_throw h₂.idle
    | ok n =>
        dsimp only
        split
        · exact holds_pure h₁.idle
        · refine h₁.modify rfl fun w₂ h₂ => ?_
          exact h₂.modify rfl fun w₃ h₃ => holds_pure h₃.idle

theorem smbWrite_spec (h : Idle w) (rounds fh : Nat) (data : List UInt8) :
    Holds w (smbWrite rounds fh data) fun _ w' => Idle w' := by
  refine Holds.get h.paired ?_
  dsimp only
  split
  · exact holds_throw h
  · split
    · exact holds_throw h
    · rename_i htree
      have hlive := h.live_of_tree fun hno => htree (Or.inl hno)
      refine hlive.modify rfl fun w₁ h₁ => ?_
      refine Holds.bind (writeFile_live h₁ rounds fh _ _) (fun n w₂ h₂ => ?_)
        (fun e w₂ h₂ => h₂.idle)
      split
      · exact holds_pure h₂.idle
      · exact h₂.modify rfl fun w₃ h₃ => holds_pure h₃.idle

theorem keepaliveTurn_spec (h : Idle w) (rounds : Nat) :
    Holds w (keepaliveTurn rounds) fun _ w' => Idle w' := by
  refine Holds.getSession h.paired ?_
  split
  · rename_i hunlocked
    have hlive : Live w := ⟨h.toSettled, h.valid.resolve_right fun hnone => by
      rw [hnone.2] at hunlocked
      cases hunlocked⟩
    refine (smbEcho_spec h.toSettled .keepalive).result fun r w₁ h₁ => ?_
    cases r with
    | ok _ => exact holds_pure (h₁.live hlive h₁.settled.quiet).idle
    | error e =>
        have hvalid : w₁.state.session.logonValid = true :=
          (congrArg (fun l => l.2.1) h₁.logon).trans hlive.logonValid
        dsimp only
        split
        · refine (smbReconnectUntilReady_spec h₁.paired hvalid rounds).result fun r w₂ h₂ => ?_
          exact holds_pure h₂.idle
        · rename_i hother
          have hs := h₁.settled_error fun he => hother (by rw [he.1]; rfl)
          exact holds_pure (h₁.live hlive hs.quiet).idle
  · exact holds_pure h

theorem smbLogOffAndX_spec (h : Settled w) (caller : Caller) (uid : Option Nat) :
    Holds w (smbLogOffAndX caller uid) (After (fun _ => caller ≠ .operation) w) := by
  refine (requestReply_spec h caller _).next (fun r _ h' => checkSuccess_spec h' r)
    (fun e hd hop => ?_)
  subst hop
  exact not_drops_operation hd

/-- A log-off that failed can leave a reply outstanding only where a new connection
follows. -/
structure LoggedOff (caller : Caller) (w : World) : Prop where
  paired : Paired w
  valid : w.state.session.Valid
  quiet : w.pending = [] ∨ caller ≠ .operation

theorem smbLogOff_spec (h : Idle w) (caller : Caller) :
    Holds w (smbLogOff caller) fun _ w' => LoggedOff caller w' := by
  refine Holds.getSession h.paired ?_
  split
  · exact holds_throw ⟨h.paired, h.valid, Or.inl h.quiet⟩
  · have hclose : Holds w closeTree (After Never w) := closeTree_spec h.toSettled
    refine Holds.bind hclose (fun _ w₁ h₁ => ?_) (fun e w₁ h₁ =>
      ⟨h₁.paired, h.valid.of_logon h₁.logon, Or.inl (Settled.of_never h₁).quiet⟩)
    refine Holds.bind (smbLogOffAndX_spec h₁.settled caller _) (fun _ w₂ h₂ => ?_)
      (fun e w₂ h₂ => ?_)
    · refine Holds.modify h₂.paired ?_
      refine holds_command fun r w₃ hstep _ => ?_
      cases hstep
      exact ⟨h₂.paired, h₂.paired, Or.inr ⟨rfl, rfl⟩, Or.inl rfl⟩
    · exact ⟨h₂.paired, h.valid.of_logon (h₂.logon.trans h₁.logon),
        h₂.quiet.imp_right fun ⟨_, _, hl⟩ => hl⟩

theorem logOffFirst_spec (h : Idle w) :
    Holds w logOffFirst fun r w' => r = .ok () ∧ Paired w' ∧ w'.state.session.Valid := by
  refine Holds.getSession h.paired ?_
  split
  · refine (smbLogOff_spec h .relogon).result fun r w' h' => ?_
    exact holds_pure ⟨rfl, h'.paired, h'.valid⟩
  · exact holds_pure ⟨rfl, h.paired, h.valid⟩

theorem orFail_spec {m : Call α} {e : Errno} {P : World → Prop} (hm : Holds w m fun _ w' => P w') :
    Holds w (orFail m e) fun _ w' => P w' := by
  refine hm.result fun r w' h' => ?_
  cases r with
  | ok a => exact holds_pure h'
  | error _ => exact holds_throw h'

theorem smbLogOn_spec (h : Idle w) (anonymous : Bool) :
    Holds w (smbLogOn anonymous) fun _ w' => Idle w' := by
  refine Holds.bind (logOffFirst_spec h) ?_ ?_
  · rintro _ w₁ ⟨-, hp₁, hv₁⟩
    refine Holds.bind (R := fun _ w' => Idle w') (orFail_spec ?_) (fun _ w₂ h₂ => ?_) (fun _ _ => id)
    · exact (smbConnect_spec hp₁).mono fun r w₂ h₂ => ⟨h₂.1, by rw [h₂.2]; exact hv₁⟩
    refine Holds.bind (R := fun _ w' => Idle w') (orFail_spec ?_) (fun _ w₃ h₃ => ?_) (fun _ _ => id)
    · exact (smbNegotiateProtocol_spec h₂.toSettled .operation).mono fun _ _ h' =>
        (h'.never nofun).idle h₂
    refine Holds.bind (R := fun _ w' => Idle w') (orFail_spec ?_) (fun r w₄ h₄ => ?_) (fun _ _ => id)
    · exact (fallback_spec h₃.toSettled .operation anonymous).mono fun _ _ h' =>
        (h'.never nofun).idle h₃
    refine holds_modify h₄.paired ?_
    exact ⟨⟨h₄.paired, h₄.quiet⟩, Or.inl rfl⟩
  · rintro e w₁ ⟨he, -⟩
    cases he

theorem withFile_idle {fh : Nat} {body : Call α} (h : Idle w)
    (hbody : Holds w body fun _ w' => Idle w') : Holds w (withFile fh body) fun _ w' => Idle w' := by
  refine Holds.get h.paired ?_
  split
  · exact hbody
  · exact holds_throw h

/-- What an operation returns does not matter here. -/
theorem Holds.idle {m : Call α} {f : α → Call β} (hm : Holds w m fun _ w' => Idle w')
    (hf : ∀ a, ∃ b, f a = pure b) : Holds w (m >>= f) fun _ w' => Idle w' := by
  refine Holds.bind hm (fun a w' h' => ?_) (fun _ _ h' => h')
  obtain ⟨b, hb⟩ := hf a
  rw [hb]
  exact holds_pure h'

theorem Holds.settled_idle {m : Call α} (h : Idle w) (hm : Holds w m (After Never w)) :
    Holds w m fun _ w' => Idle w' := hm.mono fun _ _ h' => h'.idle h

theorem call_spec (h : Idle w) (rounds : Nat) (op : Op) :
    Holds w (op.call rounds) fun _ w' => Idle w' := by
  have hs := h.toSettled
  cases op with
  | openFile filename mode =>
      exact (Holds.settled_idle h (smbOpen_spec hs filename mode)).idle fun _ => ⟨_, rfl⟩
  | dopen dirname => exact (Holds.settled_idle h (smbDopen_spec hs dirname)).idle fun _ => ⟨_, rfl⟩
  | close fh =>
      exact (withFile_idle h (Holds.settled_idle h (smbCloseFile_spec hs fh))).idle fun _ => ⟨_, rfl⟩
  | read fh size => exact (withFile_idle h (smbRead_spec h rounds fh size)).idle fun _ => ⟨_, rfl⟩
  | write fh data => exact (withFile_idle h (smbWrite_spec h rounds fh data)).idle fun _ => ⟨_, rfl⟩
  | lseek fh pos whence =>
      refine (withFile_idle h (Holds.settled_idle h ?_)).idle fun _ => ⟨_, rfl⟩
      exact smbLseek64_spec hs fh pos whence
  | dread fh =>
      exact (withFile_idle h (Holds.settled_idle h (smbDread_spec hs fh))).idle fun _ => ⟨_, rfl⟩
  | remove filename => exact (Holds.settled_idle h (smbRemove_spec hs filename)).idle fun _ => ⟨_, rfl⟩
  | mkdir dirname => exact (Holds.settled_idle h (smbMkdir_spec hs dirname)).idle fun _ => ⟨_, rfl⟩
  | rmdir dirname => exact (Holds.settled_idle h (smbRmdir_spec hs dirname)).idle fun _ => ⟨_, rfl⟩
  | getstat filename =>
      exact (Holds.settled_idle h (smbGetstat_spec hs filename)).idle fun _ => ⟨_, rfl⟩
  | rename oldname newname =>
      exact (Holds.settled_idle h (smbRenameFile_spec hs oldname newname)).idle fun _ => ⟨_, rfl⟩
  | chdir dirname => exact (Holds.settled_idle h (smbChdir_spec hs dirname)).idle fun _ => ⟨_, rfl⟩
  | logOn anonymous => exact (smbLogOn_spec h anonymous).idle fun _ => ⟨_, rfl⟩
  | logOff =>
      refine Holds.idle ((smbLogOff_spec h .operation).mono fun _ _ h' => ?_) fun _ => ⟨_, rfl⟩
      exact ⟨⟨h'.paired, h'.quiet.resolve_right fun hne => hne rfl⟩, h'.valid⟩
  | getShareList maxent =>
      exact (Holds.settled_idle h (smbGetShareList_spec hs maxent)).idle fun _ => ⟨_, rfl⟩
  | openShare configured =>
      refine Holds.idle ((smbOpenShare_spec hs .operation configured).mono fun _ _ h' => ?_)
        fun _ => ⟨_, rfl⟩
      exact (h'.never nofun).idle h
  | closeShare => exact (Holds.settled_idle h (smbCloseShare_spec hs)).idle fun _ => ⟨_, rfl⟩
  | echo =>
      refine Holds.idle ((smbEcho_spec hs .operation).mono fun _ _ h' => ?_) fun _ => ⟨_, rfl⟩
      exact (h'.never fun _ ht => not_drops_operation ht.2).idle h
  | queryDiskInfo => exact (Holds.settled_idle h (smbQueryDiskInfo_spec hs)).idle fun _ => ⟨_, rfl⟩
  | keepalive => exact (keepaliveTurn_spec h rounds).idle fun _ => ⟨_, rfl⟩

theorem runOps_spec (rounds : Nat) (ops : List Op) :
    ∀ {w : World}, Idle w →
      (runOps rounds ops).Safe handle Tolerated Paired (fun _ w' => Idle w') w := by
  induction ops with
  | nil => exact fun h => h
  | cons op ops ih =>
      intro w h
      exact Dialogue.Safe.bind ((call_spec h rounds op).mono fun _ _ h' => ih h')

end Reconnect

/-! ## Runs -/

/-- The log only grows. -/
theorem handle_log {c : Cmd} {w w' : World} {r : c.Res} (hstep : handle c w = some (r, w')) :
    ∃ entries, w'.log = w.log ++ entries := by
  cases c with
  | exchange caller request =>
      replace hstep : w.exchange caller request = some (r, w') := hstep
      unfold World.exchange at hstep
      split at hstep
      · split at hstep
        · cases hstep
        · cases hstep
          exact ⟨_, rfl⟩
        · cases hstep
          exact ⟨_, rfl⟩
      · cases hstep
        exact ⟨[], (List.append_nil _).symm⟩
  | connect =>
      replace hstep : w.connect = some (r, w') := hstep
      unfold World.connect at hstep
      split at hstep
      · cases hstep
      · cases hstep
        exact ⟨[], (List.append_nil _).symm⟩
  | halt => cases hstep
  | _ =>
      cases hstep
      exact ⟨[], (List.append_nil _).symm⟩

theorem handle_tolerated {c : Cmd} {w w' : World} {r : c.Res} (hstep : handle c w = some (r, w'))
    (h : Tolerated w') : Tolerated w := by
  obtain ⟨entries, hlog⟩ := handle_log hstep
  exact fun e he => h e (by rw [hlog]; exact List.mem_append_left _ he)

theorem idle_initial (replies : List (Option Reply)) (connects : List Bool) :
    Idle (initial replies connects) where
  paired _ hmem := absurd hmem List.not_mem_nil
  quiet := rfl
  valid := Or.inr ⟨rfl, rfl⟩

/-- In every run whose time-outs all come where the code drops the connection, every
reply is taken for the answer to the request it answers. -/
theorem replies_paired (rounds : Nat) (ops : List Op) (replies : List (Option Reply))
    (connects : List Bool)
    (h : Tolerated ((runOps rounds ops).exec handle (initial replies connects)).2) :
    Paired ((runOps rounds ops).exec handle (initial replies connects)).2 := by
  have hidle := idle_initial replies connects
  have hstay : ∀ c w r w', handle c w = some (r, w') → Tolerated w' → Tolerated w :=
    fun _ _ _ _ => handle_tolerated
  exact ((runOps_spec rounds ops hidle).exec hstay hidle.paired h).1

/-- Log on, open a share and a file, and read; the read times out and is made again on a
new connection. -/
def readAgain : World :=
  ((runOps 3 [.logOn false, .openShare shareName, .openFile fileName readOnly, .read 0 8]).exec
    handle (initial ([some granted, some granted, some granted, some granted, some granted,
      some granted, none] ++ List.replicate 7 (some granted)) [true, true])).2

theorem replies_paired_reconnect :
    readAgain.log.length = 14 ∧ (⟨6, .transfer, .read (some 1) (some 1) (some 1) 0 8, none⟩ : Entry) ∈
      readAgain.log ∧ Paired readAgain := by
  refine ⟨by decide +kernel, by decide +kernel, replies_paired 3 _ _ _ ?_⟩
  unfold Tolerated
  decide +kernel

/-- A status query times out, and its reply is taken for the answer to the next one. -/
def statTwice : World :=
  ((runOps 3 [.logOn false, .openShare shareName, .getstat fileName, .getstat fileName]).exec handle
    (initial [some granted, some granted, some granted, none, some granted, some granted]
      [true])).2

theorem late_reply_taken :
    (⟨4, .operation, .queryPathInformation (some 1) (some 1) [backslash, 0x66] false, some 3⟩ : Entry) ∈
      statTwice.log ∧ ¬ Paired statTwice := by
  have hmem : (⟨4, .operation, .queryPathInformation (some 1) (some 1) [backslash, 0x66] false,
      some 3⟩ : Entry) ∈ statTwice.log := by decide +kernel
  exact ⟨hmem, fun h => absurd (h _ hmem 3 rfl) (by decide)⟩

end BdmAssault.Smb.Driver
