import BdmAssault.Smb.Driver.Host

/-! # What a function sends and changes

A bound on the commands of each function: the requests it can send and the changes of the
globals it can make. From it follows what a run of the function leaves alone.
-/

namespace BdmAssault.Smb.Driver

open Lib

/-- Commands that stay on the connection: requests in `P` and changes in `M`. -/
def Within (P : Request → Prop) (M : (State → State) → Prop) : Cmd → Prop
  | .exchange _ request => P request
  | .modify g => M g
  | .get => True
  | .halt => True
  | .connect => False
  | .disconnect => False

section Rules

variable {α : Type} {C : Event → Prop} {I : Host → Prop} {P : Request → Prop}
  {M : (State → State) → Prop} {s : Host} {m : Call α}

/-- A relation that every such command keeps holds between the ends of a run. -/
theorem ensures_within {T : Host → Host → Prop} (hrefl : ∀ s, T s s)
    (htrans : ∀ s s' s'', T s s' → T s' s'' → T s s'')
    (hexchange : ∀ s caller request got, P request → C (.exchange caller request got) →
      T s (s.record (.exchange caller request got)))
    (hmodify : ∀ s g, M g → T s (s.modify g)) (hI : ∀ s', T s s' → I s')
    (hm : m.Uses (Within P M)) : Ensures C I s m fun _ s' => T s s' := by
  intro answers connects
  refine Dialogue.Uses.safe (T := fun n n' : Net => T n.host n'.host) (I := fun n => I n.host)
    (s := ⟨s, answers, connects⟩) (fun n => hrefl n.host)
    (fun n n' n'' => htrans n.host n'.host n''.host) (fun c n r n' hc hstep hadmits => ?_)
    (fun n' => hI n'.host) hm
  cases c with
  | exchange caller request =>
      replace hstep : n.exchange caller request = some (r, n') := hstep
      unfold Net.exchange at hstep
      split at hstep
      · split at hstep
        · cases hstep
        · cases hstep
          exact hexchange n.host caller request _ hc hadmits.record
      · cases hstep
        exact hrefl n.host
  | modify g =>
      cases hstep
      exact hmodify n.host g hc
  | get =>
      cases hstep
      exact hrefl n.host
  | connect => exact hc.elim
  | disconnect => exact hc.elim
  | halt => cases hstep

/-! ### Functions that only send requests -/

def Host.extend (s : Host) (events : List Event) : Host := { s with trace := events ++ s.trace }

theorem Host.record_eq_extend (s : Host) (e : Event) : s.record e = s.extend [e] := rfl

theorem Host.extend_extend (s : Host) (events events' : List Event) :
    (s.extend events).extend events' = s.extend (events' ++ events) := by
  unfold Host.extend
  rw [List.append_assoc]

@[simp] theorem Host.extend_state (s : Host) (events : List Event) :
    (s.extend events).state = s.state := rfl

@[simp] theorem Host.extend_connected (s : Host) (events : List Event) :
    (s.extend events).connected = s.connected := rfl

@[simp] theorem Host.extend_trace (s : Host) (events : List Event) :
    (s.extend events).trace = events ++ s.trace := rfl

def Event.isExchange : Event → Bool
  | .exchange .. => true
  | _ => false

/-- An exchange of a request in `P`. -/
def Event.Sends (P : Request → Prop) : Event → Prop
  | .exchange _ request _ => P request
  | _ => False

theorem Event.Sends.isExchange {P : Request → Prop} {e : Event} (h : e.Sends P) :
    e.isExchange = true := by
  cases e with
  | exchange _ _ _ => rfl
  | connect _ => exact h.elim
  | disconnect => exact h.elim

theorem ensures_asks {P : Request → Prop} {m : Call α} (hm : m.Uses (Within P fun _ => False))
    (hI : ∀ events, (∀ e ∈ events, e.Sends P ∧ C e) → I (s.extend events)) :
    Ensures C I s m fun _ s' => ∃ events, s' = s.extend events ∧ ∀ e ∈ events, e.Sends P ∧ C e := by
  refine ensures_within (T := fun s s' => ∃ events, s' = s.extend events ∧
    ∀ e ∈ events, e.Sends P ∧ C e) ?_ ?_ ?_ ?_ ?_ hm
  · exact fun s => ⟨[], rfl, fun e he => absurd he List.not_mem_nil⟩
  · rintro s _ _ ⟨events, rfl, h⟩ ⟨events', rfl, h'⟩
    refine ⟨events' ++ events, s.extend_extend events events', fun e he => ?_⟩
    exact (List.mem_append.mp he).elim (h' e) (h e)
  · intro s caller request got hP hC
    refine ⟨[.exchange caller request got], rfl, fun e he => ?_⟩
    rw [List.mem_singleton] at he
    subst he
    exact ⟨hP, hC⟩
  · exact fun _ _ h => h.elim
  · rintro s' ⟨events, rfl, h⟩
    exact hI events h

end Rules

/-! ## Requests -/

section Requests

variable {K : Cmd → Prop} {P : Request → Prop} {M : (State → State) → Prop} {caller : Caller}
  {request : Request}

theorem getState_uses : getState.Uses (Within P M) := Fallible.uses_command trivial

theorem getSession_uses : getSession.Uses (Within P M) :=
  getState_uses.bind fun _ => Fallible.uses_pure _

theorem modifyState_uses {g : State → State} (h : M g) : (modifyState g).Uses (Within P M) :=
  Fallible.uses_command h

theorem getSMBServerReply_uses (h : P request) :
    (getSMBServerReply caller request).Uses (Within P M) := by
  refine Fallible.Uses.bind (Fallible.uses_command h) fun got => ?_
  cases got with
  | timeout => exact Fallible.uses_throw _
  | reset => exact Fallible.uses_throw _
  | reply r =>
      refine Fallible.uses_ite (Fallible.uses_pure _) ?_
      exact Fallible.uses_ite (Fallible.uses_throw _) (Fallible.uses_pure _)

theorem requestReply_uses (h : P request) : (requestReply caller request).Uses (Within P M) := by
  refine (getSMBServerReply_uses h).result.bind fun r => ?_
  match r with
  | .ok (some r) => exact Fallible.uses_ite (Fallible.uses_pure _) (Fallible.uses_throw _)
  | .ok none => exact Fallible.uses_throw _
  | .error _ => exact Fallible.uses_throw _

theorem checkStatus_uses (r : Reply) : (checkStatus r).Uses K := by
  refine Fallible.uses_ite (Fallible.uses_pure _) ?_
  exact Fallible.uses_ite (Fallible.uses_throw _) (Fallible.uses_throw _)

theorem checkSuccess_uses (r : Reply) : (checkSuccess r).Uses K :=
  Fallible.uses_ite (Fallible.uses_pure _) (Fallible.uses_throw _)

theorem checkSession_uses (r : Reply) : (checkSession r).Uses K := by
  refine Fallible.uses_ite (Fallible.uses_pure _) ?_
  exact Fallible.uses_ite (Fallible.uses_throw _) (Fallible.uses_throw _)

theorem negotiateRetry_uses (h : ∀ retry, P (.negotiate retry))
    (hM : ∀ userLevel ntSmbs, M fun s => { s with userLevel := userLevel, ntSmbs := ntSmbs })
    (left : Nat) : (negotiateRetry caller left).Uses (Within P M) := by
  induction left with
  | zero => exact Fallible.uses_throw _
  | succ left ih =>
      refine (requestReply_uses (h _)).result.bind fun r => ?_
      cases r with
      | ok r => exact Fallible.uses_ite (modifyState_uses (hM _ _)) ih
      | error e => exact ih

theorem authenticate_uses {send : Bool → Call Reply} (h : ∀ lm, (send lm).Uses (Within P M)) :
    (authenticate send).Uses (Within P M) := by
  refine (h false).bind fun r => Fallible.uses_ite (Fallible.uses_pure _) ?_
  refine Fallible.uses_ite (getState_uses.bind fun s => ?_) (Fallible.uses_throw _)
  refine Fallible.uses_ite ((h true).bind fun r => ?_) (Fallible.uses_throw _)
  refine Fallible.uses_ite (Fallible.uses_pure _) ?_
  exact Fallible.uses_ite (Fallible.uses_throw _) (Fallible.uses_throw _)

variable {uid tid fid sid : Option Nat} {path : Name}

theorem smbSessionSetupAndX_uses {anonymous : Bool} (h : ∀ lm, P (.sessionSetup anonymous lm)) :
    (smbSessionSetupAndX caller anonymous).Uses (Within P M) :=
  (authenticate_uses fun lm => requestReply_uses (h lm)).bind fun _ => Fallible.uses_pure _

theorem smbTreeConnectAndX_uses {share : Name} (h : ∀ lm, P (.treeConnect uid share lm)) :
    (smbTreeConnectAndX caller uid share).Uses (Within P M) :=
  (authenticate_uses fun lm => requestReply_uses (h lm)).bind fun _ => Fallible.uses_pure _

theorem smbTreeDisconnect_uses (h : P (.treeDisconnect uid tid)) :
    (smbTreeDisconnect caller uid tid).Uses (Within P M) :=
  (requestReply_uses h).bind fun r => checkSuccess_uses r

theorem smbLogOffAndX_uses (h : P (.logOff uid)) : (smbLogOffAndX caller uid).Uses (Within P M) :=
  (requestReply_uses h).bind fun r => checkSuccess_uses r

theorem smbQueryPathInformation_uses (h : ∀ standard, P (.queryPathInformation uid tid path standard)) :
    (smbQueryPathInformation caller uid tid path).Uses (Within P M) := by
  refine (requestReply_uses (h false)).bind fun basic => (checkStatus_uses basic).bind fun _ => ?_
  refine (requestReply_uses (h true)).bind fun standard => (checkStatus_uses standard).bind fun _ => ?_
  exact Fallible.uses_pure _

theorem smbOpenAndX_uses {mode : OpenMode} (hnt : P (.ntCreate uid tid path mode))
    (hopen : P (.openFile uid tid path mode))
    (hquery : ∀ standard, P (.queryPathInformation uid tid path standard)) :
    (smbOpenAndX caller uid tid path mode).Uses (Within P M) := by
  refine getState_uses.bind fun s => Fallible.uses_ite ?_ ?_
  · exact (requestReply_uses hnt).bind fun r => (checkStatus_uses r).bind fun _ =>
      Fallible.uses_pure _
  · refine (requestReply_uses hopen).bind fun r => (checkStatus_uses r).bind fun _ => ?_
    refine (smbQueryPathInformation_uses hquery).result.bind fun info => ?_
    cases info with
    | ok _ => exact Fallible.uses_pure _
    | error _ => exact Fallible.uses_throw _

theorem smbReadAndX_uses {offset : Int} {nbytes : Nat} (h : P (.read uid tid fid offset nbytes)) :
    (smbReadAndX uid tid fid offset nbytes).Uses (Within P M) := by
  refine Fallible.Uses.bind (Fallible.uses_command h) fun got => ?_
  match got with
  | .timeout => exact Fallible.uses_throw _
  | .reset => exact Fallible.uses_throw _
  | .reply r =>
      dsimp only
      cases r.read with
      | data bytes => exact Fallible.uses_ite (Fallible.uses_pure _) (Fallible.uses_throw _)
      | endOfFile => exact Fallible.uses_pure _
      | rejected => exact Fallible.uses_throw _
      | lost => exact Fallible.uses_throw _
      | failed => exact Fallible.uses_throw _

theorem smbWriteAndX_uses {offset : Int} {data : List UInt8} (h : P (.write uid tid fid offset data)) :
    (smbWriteAndX uid tid fid offset data).Uses (Within P M) := by
  refine (getSMBServerReply_uses h).bind fun reply => ?_
  cases reply with
  | none => exact Fallible.uses_pure _
  | some r =>
      refine Fallible.uses_ite ((checkSession_uses r).bind fun _ => ?_) (Fallible.uses_throw _)
      exact Fallible.uses_pure _

theorem readLoop_uses (h : ∀ offset nbytes, P (.read uid tid fid offset nbytes)) (rounds : Nat) :
    ∀ {pos : Int} {remaining : Nat} {done : List UInt8},
      (readLoop uid tid fid rounds pos remaining done).Uses (Within P M) := by
  induction rounds with
  | zero => exact Fallible.uses_pure _
  | succ rounds ih =>
      refine Fallible.uses_ite (Fallible.uses_pure _) ?_
      exact (smbReadAndX_uses (h _ _)).bind fun _ => Fallible.uses_ite (Fallible.uses_pure _) ih

theorem writeLoop_uses (h : ∀ offset data, P (.write uid tid fid offset data)) {nbytes : Nat}
    (rounds : Nat) : ∀ {pos : Int} {data : List UInt8},
      (writeLoop uid tid fid nbytes rounds pos data).Uses (Within P M) := by
  induction rounds with
  | zero => exact Fallible.uses_pure _
  | succ rounds ih =>
      refine Fallible.uses_ite (Fallible.uses_pure _) ?_
      exact (smbWriteAndX_uses (h _ _)).bind fun _ => Fallible.uses_ite (Fallible.uses_pure _) ih

theorem smbClose_uses (h : P (.close uid tid fid)) : (smbClose uid tid fid).Uses (Within P M) := by
  refine (getSMBServerReply_uses h).bind fun reply => ?_
  cases reply with
  | none => exact Fallible.uses_pure _
  | some r => exact Fallible.uses_ite (checkSuccess_uses r) (Fallible.uses_throw _)

theorem smbFindFirstNext2_uses {pattern : Name} (h : P (.find uid tid sid pattern)) :
    (smbFindFirstNext2 uid tid sid pattern).Uses (Within P M) := by
  refine (requestReply_uses h).bind fun r => (checkStatus_uses r).bind fun _ => ?_
  exact Fallible.uses_ite (Fallible.uses_throw _) (Fallible.uses_pure _)

theorem smbNetShareEnum_uses {index maxEntries : Nat} (h : P (.netShareEnum uid tid)) :
    (smbNetShareEnum uid tid index maxEntries).Uses (Within P M) := by
  refine (requestReply_uses h).bind fun r => (checkStatus_uses r).bind fun _ => ?_
  exact Fallible.uses_ite (Fallible.uses_pure _) (Fallible.uses_throw _)

theorem listShares_uses (h : P (.netShareEnum uid tid)) {maxent : Nat} (entries : List Nat) :
    ∀ {entry : Option Share} {shareindex : Nat},
      (listShares uid tid maxent entries entry shareindex).Uses (Within P M) := by
  induction entries with
  | nil => exact Fallible.uses_pure _
  | cons i rest ih => exact (smbNetShareEnum_uses h).bind fun _ => ih

theorem smbEcho_uses (h : P .echo) : (smbEcho caller).Uses (Within P M) := by
  refine (getSMBServerReply_uses h).bind fun reply => ?_
  cases reply with
  | none => exact Fallible.uses_pure _
  | some r =>
      refine Fallible.uses_ite ((checkSession_uses r).bind fun _ => ?_) (Fallible.uses_throw _)
      exact Fallible.uses_ite (Fallible.uses_pure _) (Fallible.uses_throw _)

end Requests

/-! ## Authentication -/

/-- The events of a log-on to a session or a tree: every one sends one of the requests, and
the last one is granted exactly if the log-on succeeds. -/
structure Authenticated (caller : Caller) (request : Bool → Request) (s : Host)
    (r : Except Errno Reply) (events : List Event) : Prop where
  sends : ∀ e ∈ events, ∃ lm got, e = .exchange caller (request lm) got ∧
    (∀ reply, got.granted = some reply → r = .ok reply)
  granted : ∀ reply, r = .ok reply → s.connected = true ∧
    ∃ lm got, .exchange caller (request lm) got ∈ events ∧ got.granted = some reply

theorem Authenticated.exchanges {caller : Caller} {request : Bool → Request} {s : Host}
    {r : Except Errno Reply} {events : List Event} (h : Authenticated caller request s r events) :
    ∀ e ∈ events, e.isExchange = true := by
  intro e he
  obtain ⟨lm, got, rfl, -⟩ := h.sends e he
  rfl

theorem authenticate_ensures {C : Event → Prop} {I : Host → Prop} {s : Host} {caller : Caller}
    {request : Bool → Request}
    (hI : ∀ events, (∀ e ∈ events, C e ∧ ∃ lm got, e = .exchange caller (request lm) got) →
      I (s.extend events)) :
    Ensures C I s (authenticate fun lm => requestReply caller (request lm)) fun r s' =>
      ∃ events, s' = s.extend events ∧ (∀ e ∈ events, C e) ∧
        Authenticated caller request s r events := by
  -- one request: the events before it were not granted
  have hsend : ∀ lm before, (∀ e ∈ before, C e ∧ ∃ lm got, e = .exchange caller (request lm) got ∧
      got.granted = none) →
      Ensures C I (s.extend before) (requestReply caller (request lm)) fun r s' =>
        ∃ events, s' = s.extend events ∧ (∀ e ∈ events, C e) ∧
          (∀ e ∈ events, ∃ lm got, e = .exchange caller (request lm) got ∧
            ∀ reply, got.granted = some reply → r = .ok reply) ∧
          ∀ reply, r = .ok reply → s.connected = true ∧
            (reply.status = statusSuccess → ∃ lm got, .exchange caller (request lm) got ∈ events ∧
              got.granted = some reply) := by
    intro lm before hbefore
    refine ensures_requestReply (fun hc got hC => ?_) fun hc => ?_
    · have hall : ∀ e ∈ Event.exchange caller (request lm) got :: before,
          C e ∧ ∃ lm got, e = .exchange caller (request lm) got := by
        intro e he
        rcases List.mem_cons.mp he with rfl | he
        · exact ⟨hC, lm, got, rfl⟩
        · obtain ⟨hCe, lm', got', he', -⟩ := hbefore e he
          exact ⟨hCe, lm', got', he'⟩
      refine ⟨hI _ hall, _, rfl, fun e he => (hall e he).1, fun e he => ?_, fun reply hreply => ?_⟩
      · rcases List.mem_cons.mp he with rfl | he
        · refine ⟨lm, got, rfl, fun reply hgranted => ?_⟩
          rw [(Got.granted_eq_some.mp hgranted).1]
          rfl
        · obtain ⟨-, lm', got', he', hnone⟩ := hbefore e he
          exact ⟨lm', got', he', fun reply hgranted => by simp [hnone] at hgranted⟩
      · refine ⟨hc, fun hstatus => ⟨lm, got, List.mem_cons_self, ?_⟩⟩
        cases hanswered : got.answered with
        | none =>
            rw [hanswered] at hreply
            cases hreply
        | some r =>
            rw [hanswered] at hreply
            cases hreply
            exact Got.granted_eq_some.mpr ⟨hanswered, hstatus⟩
    · refine ⟨hI before fun e he => ?_, before, rfl, fun e he => (hbefore e he).1, fun e he => ?_,
        fun reply hreply => by cases hreply⟩
      · obtain ⟨hCe, lm', got', he', -⟩ := hbefore e he
        exact ⟨hCe, lm', got', he'⟩
      · obtain ⟨-, lm', got', he', hnone⟩ := hbefore e he
        exact ⟨lm', got', he', fun reply hgranted => by simp [hnone] at hgranted⟩
  have hfailed : ∀ {events : List Event} {r : Reply} {e : Errno}, r.status ≠ statusSuccess →
      (∀ e ∈ events, ∃ lm got, e = .exchange caller (request lm) got ∧
        ∀ reply, got.granted = some reply → (.ok r : Except Errno Reply) = .ok reply) →
      Authenticated caller request s (.error e) events := by
    intro events r e hstatus h
    refine ⟨fun e he => ?_, fun reply hreply => by cases hreply⟩
    obtain ⟨lm, got, hgot, hreply⟩ := h e he
    refine ⟨lm, got, hgot, fun reply hgranted => ?_⟩
    cases hreply reply hgranted
    exact absurd (Got.granted_eq_some.mp hgranted).2 hstatus
  refine Ensures.bind (hsend false [] fun e he => absurd he List.not_mem_nil) ?_ ?_
  · rintro r _ ⟨events, rfl, hC, hsends, hgranted⟩
    split
    · exact ensures_pure ⟨events, rfl, hC, hsends, fun reply hreply => by
        cases hreply
        exact ⟨(hgranted r rfl).1, (hgranted r rfl).2 ‹_›⟩⟩
    · rename_i hstatus
      split
      · have hbefore : ∀ e ∈ events, C e ∧ ∃ lm got, e = .exchange caller (request lm) got ∧
            got.granted = none := by
          intro e he
          obtain ⟨lm, got, hgot, hreply⟩ := hsends e he
          refine ⟨hC e he, lm, got, hgot, ?_⟩
          cases hnone : got.granted with
          | none => rfl
          | some reply =>
              cases hreply reply hnone
              exact absurd (Got.granted_eq_some.mp hnone).2 hstatus
        refine Ensures.get (hI events fun e he => ?_) ?_
        · obtain ⟨hCe, lm, got, hgot, -⟩ := hbefore e he
          exact ⟨hCe, lm, got, hgot⟩
        · split
          · refine Ensures.bind (hsend true events hbefore) ?_ ?_
            · rintro r' _ ⟨events', rfl, hC', hsends', hgranted'⟩
              split
              · exact ensures_pure ⟨events', rfl, hC', hsends', fun reply hreply => by
                  cases hreply
                  exact ⟨(hgranted' r' rfl).1, (hgranted' r' rfl).2 ‹_›⟩⟩
              · split
                · exact ensures_throw ⟨events', rfl, hC', hfailed ‹_› hsends'⟩
                · exact ensures_throw ⟨events', rfl, hC', hfailed ‹_› hsends'⟩
            · rintro e _ ⟨events', rfl, hC', hsends', -⟩
              exact ⟨events', rfl, hC', hsends', fun reply hreply => by cases hreply⟩
          · exact ensures_throw ⟨events, rfl, hC, hfailed hstatus hsends⟩
      · exact ensures_throw ⟨events, rfl, hC, hfailed hstatus hsends⟩
  · rintro e _ ⟨events, rfl, hC, hsends, -⟩
    exact ⟨events, rfl, hC, hsends, fun reply hreply => by cases hreply⟩

/-! ## Operations on paths -/

/-- Requests that neither give out nor take back an identifier, and move no data. -/
def Request.plain : Request → Bool
  | .queryInformationDisk .. => true
  | .queryPathInformation .. => true
  | .delete .. => true
  | .manageDirectory .. => true
  | .rename .. => true
  | .echo => true
  | _ => false

/-- Changes that leave the session and the handles alone. -/
inductive PlainChange : (State → State) → Prop where
  | invalidate (fh : Option Nat) :
      PlainChange fun s => { s with readAhead := s.readAhead.invalidate fh }
  | curdir (g : Name → Name) : PlainChange fun s => { s with curdir := g s.curdir }

/-- Operations that use no handle and leave the session alone. -/
def Op.plain : Op → Bool
  | .remove .. => true
  | .mkdir .. => true
  | .rmdir .. => true
  | .getstat .. => true
  | .rename .. => true
  | .chdir .. => true
  | .echo => true
  | .queryDiskInfo => true
  | _ => false

section Plain

variable {α : Type} {P : Request → Prop} {M : (State → State) → Prop}

theorem withPath_uses {filename : Name} {locked : Name → Call α}
    (h : ∀ path, (locked path).Uses (Within P M)) : (withPath filename locked).Uses (Within P M) :=
  getState_uses.bind fun _ => Fallible.uses_ite (Fallible.uses_throw _) (h _)

theorem plain_uses {op : Op} (hop : op.plain = true) (rounds : Nat) :
    (op.call rounds).Uses (Within (fun r => r.plain = true) PlainChange) := by
  have hchecked : ∀ {request : Request} {caller : Caller} {check : Reply → Call Unit},
      request.plain = true → (∀ {K} r, (check r).Uses K) →
      (requestReply caller request >>= check).Uses (Within (fun r => r.plain = true) PlainChange) :=
    fun h hcheck => (requestReply_uses h).bind hcheck
  cases op with
  | remove filename =>
      refine Fallible.Uses.bind (withPath_uses fun path => getSession_uses.bind fun s => ?_)
        fun _ => Fallible.uses_pure _
      refine (hchecked rfl checkSuccess_uses).bind fun _ => ?_
      exact modifyState_uses (.invalidate none)
  | mkdir dirname =>
      refine Fallible.Uses.bind (withPath_uses fun path => getSession_uses.bind fun s => ?_)
        fun _ => Fallible.uses_pure _
      exact hchecked rfl checkStatus_uses
  | rmdir dirname =>
      refine Fallible.Uses.bind (withPath_uses fun path => getSession_uses.bind fun s => ?_)
        fun _ => Fallible.uses_pure _
      refine (smbQueryPathInformation_uses fun _ => rfl).bind fun info => ?_
      exact Fallible.uses_ite (hchecked rfl checkStatus_uses) (Fallible.uses_throw _)
  | getstat filename =>
      refine Fallible.Uses.bind (withPath_uses fun path => getSession_uses.bind fun s => ?_)
        fun _ => Fallible.uses_pure _
      exact (smbQueryPathInformation_uses fun _ => rfl).bind fun _ => Fallible.uses_pure _
  | rename oldname newname =>
      refine Fallible.Uses.bind (withPath_uses fun path => getState_uses.bind fun s => ?_)
        fun _ => Fallible.uses_pure _
      refine getSession_uses.bind fun s => (hchecked rfl checkStatus_uses).bind fun _ => ?_
      exact modifyState_uses (.invalidate none)
  | chdir dirname =>
      refine Fallible.Uses.bind (withPath_uses fun path => ?_) fun _ => Fallible.uses_pure _
      refine Fallible.uses_ite (modifyState_uses (.curdir _)) ?_
      refine Fallible.uses_ite (modifyState_uses (.curdir fun _ => [])) ?_
      refine getSession_uses.bind fun s => ?_
      refine (smbQueryPathInformation_uses fun _ => rfl).bind fun info => ?_
      exact Fallible.uses_ite (modifyState_uses (.curdir fun _ => path.take 1023))
        (Fallible.uses_throw _)
  | echo =>
      refine Fallible.Uses.bind ?_ fun _ => Fallible.uses_pure _
      exact smbEcho_uses (P := fun r => r.plain = true) rfl
  | queryDiskInfo =>
      refine Fallible.Uses.bind (getSession_uses.bind fun s => ?_) fun _ => Fallible.uses_pure _
      exact Fallible.uses_ite (Fallible.uses_throw _) (hchecked rfl checkStatus_uses)
  | _ => cases hop

end Plain

end BdmAssault.Smb.Driver
