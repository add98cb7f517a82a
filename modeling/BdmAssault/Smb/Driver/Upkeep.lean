import BdmAssault.Smb.Driver.Transfers

/-! # Session requests and reconnects

Logging on and off, opening and closing shares and reconnecting change the session, and
of a handle no more than its identifier and the size of its file. None of them truncates a
file.
-/

namespace BdmAssault.Smb.Driver

open Lib

/-- Every request is in `P`, and every change of the globals in `M`. -/
def Modifies (P : Request → Prop) (M : (State → State) → Prop) : Cmd → Prop
  | .exchange _ request => P request
  | .modify g => M g
  | _ => True

def Request.truncates : Request → Bool
  | .openFile _ _ _ mode => mode.truncate
  | .ntCreate _ _ _ mode => mode.truncate
  | _ => false

/-- Requests that use no identifier of a file. -/
def Request.unbound : Request → Bool
  | .read _ _ _ _ _ => false
  | .write _ _ _ _ _ => false
  | .close _ _ _ => false
  | _ => true

/-- The requests and changes that set up and leave sessions and trees. -/
structure Managing (P : Request → Prop) (M : (State → State) → Prop) : Prop where
  requests : ∀ r : Request, r.truncates = false → r.unbound = true → P r
  session : ∀ g : Session → Session, M fun s => { s with session := g s.session }
  server : ∀ userLevel ntSmbs, M fun s => { s with userLevel := userLevel, ntSmbs := ntSmbs }
  curdir : ∀ root, M fun s => { s with curdir := root }

/-- The changes of a reconnect. -/
structure Reconnecting (P : Request → Prop) (M : (State → State) → Prop) : Prop
    extends Managing P M where
  invalidate : ∀ fh, M fun s => { s with readAhead := s.readAhead.invalidate fh }
  fid : ∀ fh fid, M fun s => s.modifyHandle fh fun h => { h with fid := fid }
  reopened : ∀ fh fid filesize,
    M fun s => s.modifyHandle fh fun h => { h with fid := fid, filesize := filesize }

/-- The requests of all operations but opening. -/
structure Upkeep (P : Request → Prop) (M : (State → State) → Prop) : Prop
    extends Reconnecting P M where
  transfers : ∀ r : Request, r.truncates = false → P r

section Rules

variable {α β : Type} {C : Event → Prop} {P : Request → Prop} {M : (State → State) → Prop}
  {s : Host} {m : Call α}

/-- Events other than requests outside of `P`. -/
def Event.Asks (P : Request → Prop) : Event → Prop
  | .exchange _ request _ => P request
  | _ => True

/-- A relation of the globals that every change keeps. -/
theorem ensures_modifies {T : State → State → Prop} (hrefl : ∀ s, T s s)
    (htrans : ∀ s s' s'', T s s' → T s' s'' → T s s'') (hM : ∀ s g, M g → T s (g s))
    (hm : m.Uses (Modifies P M)) : Ensures C (fun _ => True) s m fun _ s' => T s.state s'.state := by
  intro answers connects
  refine Dialogue.Uses.safe (T := fun n n' : Net => T n.host.state n'.host.state)
    (s := ⟨s, answers, connects⟩) (fun n => hrefl _) (fun n n' n'' => htrans _ _ _)
    (fun c n r n' hc hstep _ => ?_) (fun _ _ => trivial) hm
  cases c with
  | exchange caller request =>
      replace hstep : n.exchange caller request = some (r, n') := hstep
      unfold Net.exchange at hstep
      split at hstep
      · split at hstep
        · cases hstep
        · cases hstep
          exact hrefl _
      · cases hstep
        exact hrefl _
  | connect =>
      replace hstep : n.connect = some (r, n') := hstep
      unfold Net.connect at hstep
      split at hstep
      · cases hstep
      · cases hstep
        exact hrefl _
  | modify g =>
      cases hstep
      exact hM _ g hc
  | disconnect =>
      cases hstep
      exact hrefl _
  | get =>
      cases hstep
      exact hrefl _
  | halt => cases hstep

theorem ensures_requests {I : Host → Prop} (hI : ∀ s' : Host, (∃ events,
    s'.trace = events ++ s.trace ∧ ∀ e ∈ events, e.Asks P) → I s') (hm : m.Uses (Modifies P M)) :
    Ensures C I s m fun _ s' => ∃ events, s'.trace = events ++ s.trace ∧ ∀ e ∈ events, e.Asks P := by
  have hone : ∀ {trace : List Event} {e : Event}, e.Asks P →
      ∃ events, e :: trace = events ++ trace ∧ ∀ e ∈ events, e.Asks P := by
    intro trace e he
    refine ⟨[e], rfl, fun e' he' => ?_⟩
    rw [List.mem_singleton] at he'
    exact he' ▸ he
  have hnone : ∀ {trace : List Event}, ∃ events, trace = events ++ trace ∧ ∀ e ∈ events, e.Asks P :=
    ⟨[], rfl, List.forall_mem_nil _⟩
  intro answers connects
  refine Dialogue.Uses.safe (T := fun n n' : Net => ∃ events, n'.host.trace = events ++ n.host.trace ∧
    ∀ e ∈ events, e.Asks P) (I := fun n => I n.host) (s := ⟨s, answers, connects⟩) (fun n => hnone) ?_
    (fun c n r n' hc hstep _ => ?_) (fun n' => hI n'.host) hm
  · rintro n n' n'' ⟨events, htrace, h⟩ ⟨events', htrace', h'⟩
    refine ⟨events' ++ events, by rw [htrace', htrace, List.append_assoc], fun e he => ?_⟩
    exact (List.mem_append.mp he).elim (h' e) (h e)
  cases c with
  | exchange caller request =>
      replace hstep : n.exchange caller request = some (r, n') := hstep
      unfold Net.exchange at hstep
      split at hstep
      · split at hstep
        · cases hstep
        · cases hstep
          exact hone hc
      · cases hstep
        exact hnone
  | connect =>
      replace hstep : n.connect = some (r, n') := hstep
      unfold Net.connect at hstep
      split at hstep
      · cases hstep
      · cases hstep
        exact hone trivial
  | disconnect =>
      cases hstep
      exact hone trivial
  | modify g =>
      cases hstep
      exact hnone
  | get =>
      cases hstep
      exact hnone
  | halt => cases hstep

theorem Within.modifies {c : Cmd} (h : Within P M c) : Modifies P M c := by
  cases c with
  | exchange caller request => exact h
  | modify g => exact h
  | _ => trivial

/-- A function that only sends requests. -/
theorem uses_modifies (hm : m.Uses (Within P fun _ => False)) : m.Uses (Modifies P M) :=
  hm.mono fun c hc => by
    cases c with
    | exchange caller request => exact hc
    | modify g => exact hc.elim
    | _ => trivial

theorem get_modifies : getState.Uses (Modifies P M) := Fallible.uses_command trivial

theorem getSession_modifies : getSession.Uses (Modifies P M) :=
  get_modifies.bind fun _ => Fallible.uses_pure _

theorem modify_modifies {g : State → State} (h : M g) : (modifyState g).Uses (Modifies P M) :=
  Fallible.uses_command h

theorem loop_modifies {rounds : Nat} {body : β → Call (β ⊕ α)}
    (hbody : ∀ b, (body b).Uses (Modifies P M)) (b : β) : (loop rounds body b).Uses (Modifies P M) := by
  refine Dialogue.Uses.iterate ?_ (fun b => ?_) rounds b
  · exact Fallible.Uses.bind (Fallible.uses_command trivial) fun e => nomatch e
  · refine Dialogue.Uses.bind (hbody b) fun r => ?_
    match r with
    | .ok (.inl _) => trivial
    | .ok (.inr _) => trivial
    | .error _ => trivial

end Rules

/-! ## Sessions -/

section Sessions

variable {α : Type} {P : Request → Prop} {M : (State → State) → Prop}

theorem smbConnect_modifies : smbConnect.Uses (Modifies P M) := by
  refine Fallible.Uses.bind (Fallible.uses_command trivial) fun _ => ?_
  refine Fallible.Uses.bind (Fallible.uses_command trivial) fun up => ?_
  exact Fallible.uses_ite (Fallible.uses_pure _) (Fallible.uses_throw _)

theorem orFail_modifies {m : Call α} {e : Errno} (hm : m.Uses (Modifies P M)) :
    (orFail m e).Uses (Modifies P M) := by
  refine hm.result.bind fun r => ?_
  cases r with
  | ok a => exact Fallible.uses_pure _
  | error _ => exact Fallible.uses_throw _

section Managing

variable (k : Managing P M)

include k

theorem Managing.modifySession (g : Session → Session) : (modifySession g).Uses (Modifies P M) :=
  modify_modifies (k.session g)

theorem Managing.abortConnection : abortConnection.Uses (Modifies P M) :=
  Fallible.Uses.bind (Fallible.uses_command trivial) fun _ => k.modifySession _

theorem Managing.negotiate (caller : Caller) : (smbNegotiateProtocol caller).Uses (Modifies P M) :=
  (negotiateRetry_uses (fun _ => k.requests _ rfl rfl) k.server 3).mono
    fun _ => Within.modifies

theorem Managing.fallback (caller : Caller) (anonymous : Bool) :
    (smbSessionSetupWithAnonymousFallback caller anonymous).Uses (Modifies P M) := by
  have hsetup : ∀ anonymous, (smbSessionSetupAndX caller anonymous).Uses (Modifies P M) :=
    fun anonymous => uses_modifies (smbSessionSetupAndX_uses fun _ => k.requests _ rfl rfl)
  refine (hsetup anonymous).result.bind fun r => ?_
  cases r with
  | ok uid => exact Fallible.uses_pure _
  | error e =>
      refine Fallible.uses_ite ((hsetup false).bind fun _ => ?_) (Fallible.uses_throw _)
      exact Fallible.uses_pure _

theorem Managing.leaveTree : leaveTree.Uses (Modifies P M) := by
  refine getSession_modifies.bind fun s => Fallible.uses_ite ?_ (Fallible.uses_pure _)
  refine (uses_modifies (smbTreeDisconnect_uses (k.requests _ rfl rfl))).result.bind fun _ => ?_
  exact k.modifySession _

theorem Managing.openShare (caller : Caller) (configured : Name) :
    (smbOpenShare caller configured).Uses (Modifies P M) := by
  unfold smbOpenShare
  split
  · exact Fallible.uses_throw _
  · refine k.leaveTree.bind fun _ => getSession_modifies.bind fun s => ?_
    refine (uses_modifies (smbTreeConnectAndX_uses fun _ => k.requests _ rfl rfl)).bind fun tid => ?_
    refine (k.modifySession _).bind fun _ => (modify_modifies (k.curdir _)).bind fun _ => ?_
    exact k.modifySession _

theorem Managing.getShareList (maxent : Nat) : (smbGetShareList maxent).Uses (Modifies P M) := by
  refine k.leaveTree.bind fun _ => getSession_modifies.bind fun s => ?_
  refine (uses_modifies (smbTreeConnectAndX_uses fun _ => k.requests _ rfl rfl)).bind fun tid => ?_
  refine (k.modifySession _).bind fun _ => Fallible.uses_ite (Fallible.uses_throw _) ?_
  refine (uses_modifies (smbNetShareEnum_uses (k.requests _ rfl rfl))).bind fun shares => ?_
  refine (uses_modifies (listShares_uses (k.requests _ rfl rfl) _)).bind fun shareindex => ?_
  refine (uses_modifies (smbTreeDisconnect_uses (k.requests _ rfl rfl))).bind fun _ => ?_
  exact (k.modifySession _).bind fun _ => Fallible.uses_pure _

end Managing

section Reconnecting

variable (k : Reconnecting P M)

include k

theorem Reconnecting.reopenHandles (slots : List Nat) : (smbReopenHandles slots).Uses (Modifies P M) := by
  induction slots with
  | nil => exact Fallible.uses_pure _
  | cons fh rest ih =>
      refine get_modifies.bind fun s => Fallible.uses_ite ih ?_
      refine Fallible.uses_ite ((modify_modifies (k.fid fh none)).bind fun _ => ih) ?_
      refine (uses_modifies (smbOpenAndX_uses (k.requests _ rfl rfl) (k.requests _ rfl rfl) fun _ => k.requests _ rfl rfl)).bind fun r => ?_
      exact (modify_modifies (k.reopened fh (some r.1) r.2)).bind fun _ => ih

theorem Reconnecting.restoreSession : restoreSession.Uses (Modifies P M) := by
  refine smbConnect_modifies.bind fun _ => (k.toManaging.negotiate _).bind fun _ => getSession_modifies.bind fun s => ?_
  refine (k.toManaging.fallback _ _).bind fun r => (k.toManaging.modifySession _).bind fun _ => get_modifies.bind fun s => ?_
  refine Fallible.uses_ite ?_ (Fallible.uses_pure _)
  exact (k.toManaging.openShare _ _).bind fun _ => k.reopenHandles _

theorem Reconnecting.restoreConnection : smbRestoreConnection.Uses (Modifies P M) := by
  refine getSession_modifies.bind fun s => Fallible.uses_ite ?_ (Fallible.uses_throw _)
  refine k.toManaging.abortConnection.bind fun _ => k.restoreSession.result.bind fun r => ?_
  cases r with
  | ok _ => exact Fallible.uses_pure _
  | error e => exact k.toManaging.abortConnection.bind fun _ => Fallible.uses_throw _

theorem Reconnecting.reconnectUntilReady (rounds : Nat) :
    (smbReconnectUntilReady rounds).Uses (Modifies P M) := by
  refine (k.toManaging.modifySession _).bind fun _ => (modify_modifies (k.invalidate _)).bind fun _ => ?_
  refine (loop_modifies (fun _ => ?_) ()).bind fun _ => k.toManaging.modifySession _
  refine k.restoreConnection.result.bind fun r => ?_
  cases r with
  | ok _ => exact Fallible.uses_pure _
  | error e =>
      refine getSession_modifies.bind fun s => ?_
      exact Fallible.uses_ite (Fallible.uses_pure _) (Fallible.uses_throw _)

end Reconnecting

variable (k : Upkeep P M)

include k

theorem Upkeep.closeSlots (slots : List Nat) : (closeSlots slots).Uses (Modifies P M) := by
  induction slots with
  | nil => exact Fallible.uses_pure _
  | cons fh rest ih =>
      refine get_modifies.bind fun s => Fallible.uses_ite ih ?_
      exact (uses_modifies (smbClose_uses (k.transfers _ rfl))).result.bind fun _ => ih

theorem Upkeep.closeAll : smbCloseAll.Uses (Modifies P M) :=
  (modify_modifies (k.invalidate _)).bind fun _ => get_modifies.bind fun _ => k.closeSlots _

theorem Upkeep.logOff (caller : Caller) : (smbLogOff caller).Uses (Modifies P M) := by
  refine getSession_modifies.bind fun s => Fallible.uses_ite (Fallible.uses_throw _) ?_
  refine Fallible.Uses.bind (getSession_modifies.bind fun s => ?_) fun _ => ?_
  · exact Fallible.uses_ite (k.closeAll.bind fun _ => k.toManaging.leaveTree) (Fallible.uses_pure _)
  · refine (uses_modifies (smbLogOffAndX_uses (k.transfers _ rfl))).bind fun _ => ?_
    exact (k.toManaging.modifySession _).bind fun _ => Fallible.uses_command trivial

theorem Upkeep.logOn (anonymous : Bool) : (smbLogOn anonymous).Uses (Modifies P M) := by
  refine Fallible.Uses.bind (getSession_modifies.bind fun s => Fallible.uses_ite
    ((k.logOff _).result.bind fun _ => Fallible.uses_pure _) (Fallible.uses_pure _)) fun _ => ?_
  refine (orFail_modifies smbConnect_modifies).bind fun _ => ?_
  refine (orFail_modifies (k.toManaging.negotiate _)).bind fun _ => ?_
  refine (orFail_modifies (k.toManaging.fallback _ _)).bind fun r => ?_
  exact k.toManaging.modifySession _

theorem Upkeep.closeShare : smbCloseShare.Uses (Modifies P M) := by
  refine getSession_modifies.bind fun s => Fallible.uses_ite (Fallible.uses_throw _) ?_
  refine k.closeAll.bind fun _ => (uses_modifies (smbTreeDisconnect_uses (k.transfers _ rfl))).bind fun _ => ?_
  exact k.toManaging.modifySession _

theorem Upkeep.keepalive (rounds : Nat) : (keepaliveTurn rounds).Uses (Modifies P M) := by
  refine getSession_modifies.bind fun s => Fallible.uses_ite ?_ (Fallible.uses_pure _)
  refine (uses_modifies (smbEcho_uses (k.transfers _ rfl))).result.bind fun r => ?_
  cases r with
  | ok _ => exact Fallible.uses_pure _
  | error e =>
      refine Fallible.uses_ite ?_ (Fallible.uses_pure _)
      exact (k.toReconnecting.reconnectUntilReady rounds).result.bind fun _ => Fallible.uses_pure _

/-! ## Reading and writing -/

theorem Upkeep.withReconnect (rounds fh : Nat)
    {transfer : Option Nat → Option Nat → Option Nat → Call α}
    (htransfer : ∀ uid tid fid, (transfer uid tid fid).Uses (Modifies P M)) :
    (withReconnect rounds fh transfer).Uses (Modifies P M) := by
  refine loop_modifies (fun _ => ?_) ()
  refine get_modifies.bind fun s => (htransfer _ _ _).result.bind fun r => ?_
  cases r with
  | ok n => exact Fallible.uses_pure _
  | error e =>
      refine Fallible.uses_ite ?_ (Fallible.uses_throw _)
      refine (k.toReconnecting.reconnectUntilReady rounds).result.bind fun r => ?_
      cases r with
      | ok _ => exact Fallible.uses_pure _
      | error _ => exact Fallible.uses_throw _

theorem Upkeep.readFile (rounds fh : Nat) (position : Int) (size : Nat) :
    (smbReadFileWithReconnect rounds fh position size).Uses (Modifies P M) :=
  k.withReconnect rounds fh fun _ _ _ => uses_modifies (readLoop_uses (fun _ _ => k.transfers _ rfl) _)

theorem Upkeep.writeFile (rounds fh : Nat) (position : Int) (data : List UInt8) :
    (smbWriteFileWithReconnect rounds fh position data).Uses (Modifies P M) :=
  k.withReconnect rounds fh fun _ _ _ => uses_modifies (writeLoop_uses (fun _ _ => k.transfers _ rfl) _)

theorem Upkeep.readCached (hfill : ∀ g : State → ReadAhead, M fun s => { s with readAhead := g s })
    (rounds fh size : Nat) (position : Int) (allow : Bool) :
    (smbReadCached rounds fh size position allow).Uses (Modifies P M) := by
  have hfailed : ∀ (p : Progress) (e : Errno), (p.failed e).Uses (Modifies P M) :=
    fun p e => Fallible.uses_ite (Fallible.uses_pure _) (Fallible.uses_throw _)
  refine loop_modifies (fun p => ?_) _
  refine get_modifies.bind fun s => Fallible.uses_ite (Fallible.uses_pure _) ?_
  refine Fallible.uses_ite (Fallible.uses_pure _) ?_
  refine Fallible.uses_ite ((k.readFile rounds fh _ _).result.bind fun r => ?_) ?_
  · cases r with
    | error e => exact hfailed p e
    | ok bytes => exact Fallible.uses_ite (Fallible.uses_pure _) (Fallible.uses_pure _)
  · refine Fallible.uses_ite (Fallible.uses_pure _) ?_
    refine (modify_modifies (k.invalidate _)).bind fun _ => ?_
    refine (k.readFile rounds fh _ _).result.bind fun r => ?_
    cases r with
    | error e => exact hfailed p e
    | ok bytes =>
        refine Fallible.uses_ite (Fallible.uses_pure _) ?_
        exact (modify_modifies (hfill _)).bind fun _ => Fallible.uses_pure _

theorem Upkeep.read (hfill : ∀ g : State → ReadAhead, M fun s => { s with readAhead := g s })
    (rounds fh size : Nat)
    (hposition : ∀ n : Nat, M fun s => s.modifyHandle fh fun h => { h with position := h.position + n }) :
    (smbRead rounds fh size).Uses (Modifies P M) := by
  refine get_modifies.bind fun s => Fallible.uses_ite (Fallible.uses_throw _) ?_
  refine (k.readCached hfill rounds fh _ _ _).result.bind fun r => ?_
  cases r with
  | error e => exact (modify_modifies (k.invalidate _)).bind fun _ => Fallible.uses_throw _
  | ok bytes =>
      refine Fallible.uses_ite (Fallible.uses_pure _) ?_
      refine (modify_modifies (hposition bytes.length)).bind fun _ => ?_
      exact (modify_modifies (hfill _)).bind fun _ => Fallible.uses_pure _

theorem Upkeep.write (rounds fh : Nat) (data : List UInt8)
    (hposition : ∀ n, M fun s => s.modifyHandle fh fun h => h.advance n) :
    (smbWrite rounds fh data).Uses (Modifies P M) := by
  refine get_modifies.bind fun s => Fallible.uses_ite (Fallible.uses_throw _) ?_
  refine Fallible.uses_ite (Fallible.uses_throw _) ?_
  refine (modify_modifies (k.invalidate _)).bind fun _ => (k.writeFile rounds fh _ _).bind fun n => ?_
  refine Fallible.uses_ite (Fallible.uses_pure _) ?_
  exact (modify_modifies (hposition n)).bind fun _ => Fallible.uses_pure _

end Sessions

end BdmAssault.Smb.Driver
