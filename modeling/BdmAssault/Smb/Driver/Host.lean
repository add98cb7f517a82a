import BdmAssault.Smb.Driver.Operations

/-! # The driver and its network

What happens on the socket is kept as a trace. The network is arbitrary: each exchange on
an open connection gets any reply, a time-out or a reset, and each attempt to connect
succeeds or fails.
-/

namespace BdmAssault.Smb.Driver

open Lib

inductive Event where
  | exchange (caller : Caller) (request : Request) (got : Got)
  | connect (up : Bool)
  | disconnect
deriving DecidableEq, Repr

/-- `connected` is `main_socket >= 0`; the latest event of `trace` comes first. -/
structure Host where
  state : State
  connected : Bool
  trace : List Event
deriving DecidableEq, Repr

/-- A host, and what its network will do. -/
structure Net where
  host : Host
  answers : List Got
  connects : List Bool
deriving DecidableEq, Repr

def Host.record (s : Host) (e : Event) : Host := { s with trace := e :: s.trace }

def Host.modify (s : Host) (g : State → State) : Host := { s with state := g s.state }

def Host.dropped (s : Host) : Host := { s.record .disconnect with connected := false }

def Host.dialled (s : Host) (up : Bool) : Host := { s.record (.connect up) with connected := up }

/-- Without a connection nothing is sent. -/
def Net.exchange (n : Net) (caller : Caller) (request : Request) : Option (Got × Net) :=
  if n.host.connected then
    match n.answers with
    | [] => none
    | got :: rest =>
        some (got, { n with host := n.host.record (.exchange caller request got), answers := rest })
  else some (.reset, n)

def Net.connect (n : Net) : Option (Bool × Net) :=
  match n.connects with
  | [] => none
  | up :: rest => some (up, { n with host := n.host.dialled up, connects := rest })

def serve : Handler Cmd Cmd.Res Net
  | .exchange caller request, n => n.exchange caller request
  | .connect, n => n.connect
  | .disconnect, n => some ((), { n with host := n.host.dropped })
  | .get, n => some (n.host.state, n)
  | .modify g, n => some ((), { n with host := n.host.modify g })
  | .halt, _ => none

section Fields

variable (s : Host) (e : Event) (g : State → State) (up : Bool)

@[simp] theorem Host.record_state : (s.record e).state = s.state := rfl

@[simp] theorem Host.record_connected : (s.record e).connected = s.connected := rfl

@[simp] theorem Host.record_trace : (s.record e).trace = e :: s.trace := rfl

@[simp] theorem Host.modify_state : (s.modify g).state = g s.state := rfl

end Fields

/-! ## Whatever the network does -/

/-- Every event so far satisfies `C`. -/
def Host.Admits (C : Event → Prop) (s : Host) : Prop := ∀ e ∈ s.trace, C e

theorem Host.Admits.record {C : Event → Prop} {s : Host} {e : Event}
    (h : (s.record e).Admits C) : C e := h e List.mem_cons_self

/-- As long as every event satisfies `C`, `I` holds along the run and `Q` at its end. -/
def Ensures {α : Type} (C : Event → Prop) (I : Host → Prop) (s : Host) (m : Call α)
    (Q : Except Errno α → Host → Prop) : Prop :=
  ∀ answers connects, m.Meets serve (fun n => n.host.Admits C) (fun n => I n.host)
    ⟨s, answers, connects⟩ fun r n => Q r n.host

/-- Whatever happens. -/
def Always {α : Type} (s : Host) (m : Call α) (Q : Except Errno α → Host → Prop) : Prop :=
  Ensures (fun _ => True) (fun _ => True) s m Q

theorem Host.Admits.of_suffix {C : Event → Prop} {s s' : Host} (h : s'.Admits C)
    (hsuffix : s.trace <:+ s'.trace) : s.Admits C := fun e he => h e (hsuffix.subset he)

/-- The trace only grows. -/
theorem serve_trace {c : Cmd} {n n' : Net} {r : c.Res} (hstep : serve c n = some (r, n')) :
    n.host.trace <:+ n'.host.trace := by
  cases c with
  | exchange caller request =>
      replace hstep : n.exchange caller request = some (r, n') := hstep
      unfold Net.exchange at hstep
      split at hstep
      · split at hstep
        · cases hstep
        · cases hstep
          exact List.suffix_cons _ _
      · cases hstep
        exact List.suffix_refl _
  | connect =>
      replace hstep : n.connect = some (r, n') := hstep
      unfold Net.connect at hstep
      split at hstep
      · cases hstep
      · cases hstep
        exact List.suffix_cons _ _
  | disconnect =>
      cases hstep
      exact List.suffix_cons _ _
  | halt => cases hstep
  | _ =>
      cases hstep
      exact List.suffix_refl _

theorem serve_admits {C : Event → Prop} {c : Cmd} {n n' : Net} {r : c.Res}
    (hstep : serve c n = some (r, n')) (h : n'.host.Admits C) : n.host.Admits C :=
  h.of_suffix (serve_trace hstep)

section Rules

variable {α β : Type} {C : Event → Prop} {I : Host → Prop} {s : Host} {m : Call α} {f : α → Call β}
  {R : Except Errno α → Host → Prop} {Q : Except Errno β → Host → Prop}

theorem Ensures.mono {R' : Except Errno α → Host → Prop} (hm : Ensures C I s m R)
    (hR : ∀ r s', R r s' → R' r s') : Ensures C I s m R' :=
  fun answers connects => (hm answers connects).mono fun r n => hR r n.host

theorem Ensures.bind (hm : Ensures C I s m R)
    (hok : ∀ a s', R (.ok a) s' → Ensures C I s' (f a) Q)
    (herror : ∀ e s', R (.error e) s' → Q (.error e) s') : Ensures C I s (m >>= f) Q := by
  intro answers connects
  refine (hm answers connects).bind (fun a n hn => ?_) fun e n => herror e n.host
  exact hok a n.host hn n.answers n.connects

theorem Ensures.result {f : Except Errno α → Call β} (hm : Ensures C I s m R)
    (hf : ∀ r s', R r s' → Ensures C I s' (f r) Q) : Ensures C I s (m.result >>= f) Q := by
  intro answers connects
  refine (hm answers connects).result fun r n hn => ?_
  exact hf r n.host hn n.answers n.connects

theorem ensures_pure {a : α} (h : R (.ok a) s) : Ensures C I s (pure a) R :=
  fun _ _ => Fallible.meets_pure h

theorem ensures_throw {e : Errno} (h : R (.error e) s) : Ensures C I s (throw e) R :=
  fun _ _ => Fallible.meets_throw h

theorem ensures_exchange {caller : Caller} {request : Request} {Q : Except Errno Got → Host → Prop}
    (hsent : s.connected = true → ∀ got, C (.exchange caller request got) →
      I (s.record (.exchange caller request got)) ∧
        Q (.ok got) (s.record (.exchange caller request got)))
    (hreset : s.connected = false → I s ∧ Q (.ok .reset) s) :
    Ensures C I s (Call.command (.exchange caller request)) Q := by
  intro answers connects
  refine Fallible.meets_command fun got n hstep hadmits => ?_
  replace hstep : Net.exchange _ caller request = some (got, n) := hstep
  unfold Net.exchange at hstep
  split at hstep
  · split at hstep
    · cases hstep
    · cases hstep
      exact hsent (by assumption) got hadmits.record
  · rename_i hconnected
    cases hstep
    exact hreset (Bool.eq_false_iff.mpr hconnected)

theorem ensures_connect {Q : Except Errno Bool → Host → Prop}
    (h : ∀ up, C (.connect up) → I (s.dialled up) ∧ Q (.ok up) (s.dialled up)) :
    Ensures C I s (Call.command .connect) Q := by
  intro answers connects
  refine Fallible.meets_command fun up n hstep hadmits => ?_
  replace hstep : Net.connect _ = some (up, n) := hstep
  unfold Net.connect at hstep
  split at hstep
  · cases hstep
  · cases hstep
    exact h up (hadmits _ List.mem_cons_self)

theorem ensures_disconnect {Q : Except Errno Unit → Host → Prop} (hI : I s.dropped)
    (h : Q (.ok ()) s.dropped) : Ensures C I s disconnect Q := by
  intro answers connects
  refine Fallible.meets_command fun r n hstep _ => ?_
  cases hstep
  exact ⟨hI, h⟩

theorem ensures_modify {g : State → State} {Q : Except Errno Unit → Host → Prop}
    (hI : I (s.modify g)) (h : Q (.ok ()) (s.modify g)) : Ensures C I s (modifyState g) Q := by
  intro answers connects
  refine Fallible.meets_command fun r n hstep _ => ?_
  cases hstep
  exact ⟨hI, h⟩

/-- What a run ensures at its end may be shown apart from its invariant. -/
theorem Ensures.and {J : Host → Prop} {S : Except Errno α → Host → Prop} (hm : Ensures C I s m R)
    (hm' : Ensures C J s m S) : Ensures C I s m fun r s' => R r s' ∧ S r s' :=
  fun answers connects => Dialogue.Safe.and (hm answers connects) (hm' answers connects)

theorem Always.ensures (hm : Always s m R) : Ensures C (fun _ => True) s m R :=
  fun answers connects => Dialogue.Safe.weaken (hm answers connects) fun _ _ _ _ => trivial

theorem ensures_trivial (m : Call α) : Ensures C (fun _ => True) s m fun _ _ => True :=
  fun _ _ => Dialogue.safe_trivial m.run

theorem Ensures.get {f : State → Call β} (hI : I s) (h : Ensures C I s (f s.state) Q) :
    Ensures C I s (getState >>= f) Q :=
  fun answers connects => Fallible.Meets.step rfl hI (h answers connects)

theorem Ensures.modify {g : State → State} {f : Unit → Call β} (hI : I (s.modify g))
    (h : Ensures C I (s.modify g) (f ()) Q) : Ensures C I s (modifyState g >>= f) Q :=
  fun answers connects => Fallible.Meets.step rfl hI (h answers connects)

theorem Ensures.disconnect {f : Unit → Call β} (hI : I s.dropped)
    (h : Ensures C I s.dropped (f ()) Q) : Ensures C I s (disconnect >>= f) Q :=
  fun answers connects => Fallible.Meets.step rfl hI (h answers connects)

theorem Ensures.getSession {f : Session → Call β} (hI : I s)
    (h : Ensures C I s (f s.state.session) Q) : Ensures C I s (getSession >>= f) Q := by
  refine Ensures.bind (R := fun r s' => r = .ok s.state.session ∧ s' = s) ?_ ?_ ?_
  · exact Ensures.get hI (ensures_pure ⟨rfl, rfl⟩)
  · rintro a s' ⟨ha, rfl⟩
    cases ha
    exact h
  · rintro e s' ⟨he, -⟩
    cases he

theorem ensures_loop {rounds : Nat} {body : β → Call (β ⊕ α)} {P : β → Host → Prop}
    (hbody : ∀ b s', P b s' → Ensures C I s' (body b) fun r s'' =>
      match r with
      | .ok (.inl b') => P b' s''
      | .ok (.inr a) => R (.ok a) s''
      | .error e => R (.error e) s'') {b : β} (hp : P b s) :
    Ensures C I s (loop rounds body b) R := by
  intro answers connects
  refine meets_loop (P := fun b n => P b n.host) (fun _ => rfl) (fun b n hn => ?_) hp
  refine Fallible.Meets.mono (hbody b n.host hn n.answers n.connects) fun r n' hr => ?_
  match r with
  | .ok (.inl b') => exact hr
  | .ok (.inr a) => exact hr
  | .error e => exact hr

/-- A property that every round keeps, however it ends. -/
theorem ensures_loop_keeps {rounds : Nat} {body : β → Call (β ⊕ α)} {P : Host → Prop}
    (hbody : ∀ b s', P s' → Ensures C I s' (body b) fun _ s'' => P s'') {b : β} (hp : P s) :
    Ensures C I s (loop rounds body b) fun _ s' => P s' := by
  refine ensures_loop (P := fun _ => P) (fun b s' hp' => ?_) hp
  refine (hbody b s' hp').mono fun r s'' h => ?_
  match r with
  | .ok (.inl _) => exact h
  | .ok (.inr _) => exact h
  | .error _ => exact h

/-- A run to its end, or to the command the network has no answer to. -/
theorem Ensures.exec {n : Net} {R : Except Errno α → Host → Prop} (hm : Ensures C I n.host m R)
    (hI : I n.host) (hC : (m.run.exec serve n).2.host.Admits C) :
    I (m.run.exec serve n).2.host ∧
      ∀ r, (m.run.exec serve n).1 = some r → R r (m.run.exec serve n).2.host := by
  have hsafe : m.Meets serve (fun n => n.host.Admits C) (fun n => I n.host) n
      fun r n' => R r n'.host := hm n.answers n.connects
  have hstay : ∀ c n r n', serve c n = some (r, n') → n'.host.Admits C → n.host.Admits C :=
    fun _ _ _ _ => serve_admits
  exact Dialogue.Safe.exec hstay hsafe hI hC

end Rules

/-! ## Requests -/

/-- The result of `GetSMBServerReply`. -/
def Got.received : Got → Except Errno (Option Reply)
  | .timeout => .error .etimedout
  | .reset => .error .econnreset
  | .reply r =>
      if r.size = 0 then .ok none else if replyMax < r.size then .error .eproto else .ok (some r)

/-- The reply a request function looks at. -/
def Got.answered (got : Got) : Option Reply :=
  match got.received with
  | .ok (some r) => if r.magic = smbMagicNumber then some r else none
  | _ => none

/-- The reply of a request that succeeded. -/
def Got.granted (got : Got) : Option Reply :=
  got.answered.filter fun r => r.status = statusSuccess

theorem Got.granted_eq_some {got : Got} {r : Reply} :
    got.granted = some r ↔ got.answered = some r ∧ r.status = statusSuccess := by
  simp [Got.granted, Option.filter_eq_some_iff]

section Requests

variable {α β : Type} {C : Event → Prop} {I : Host → Prop} {s : Host} {caller : Caller}
  {request : Request}

theorem ensures_getSMBServerReply {Q : Except Errno (Option Reply) → Host → Prop}
    (hsent : s.connected = true → ∀ got, C (.exchange caller request got) →
      I (s.record (.exchange caller request got)) ∧
        Q got.received (s.record (.exchange caller request got)))
    (hreset : s.connected = false → I s ∧ Q (.error .econnreset) s) :
    Ensures C I s (getSMBServerReply caller request) Q := by
  refine Ensures.bind (ensures_exchange (Q := fun r s' =>
    ∃ got, r = .ok got ∧ I s' ∧ Q got.received s') (fun hc got hC => ?_) fun hc => ?_) ?_ ?_
  · exact ⟨(hsent hc got hC).1, got, rfl, hsent hc got hC⟩
  · exact ⟨(hreset hc).1, .reset, rfl, hreset hc⟩
  · rintro got s' ⟨_, hgot, hI, hQ⟩
    cases hgot
    cases got with
    | timeout => exact ensures_throw hQ
    | reset => exact ensures_throw hQ
    | reply r =>
        unfold Got.received at hQ
        dsimp only at hQ ⊢
        split
        · rw [if_pos ‹_›] at hQ
          exact ensures_pure hQ
        · rw [if_neg ‹_›] at hQ
          split
          · rw [if_pos ‹_›] at hQ
            exact ensures_throw hQ
          · rw [if_neg ‹_›] at hQ
            exact ensures_pure hQ
  · rintro e s' ⟨got, hgot, -⟩
    cases hgot

theorem ensures_requestReply {Q : Except Errno Reply → Host → Prop}
    (hsent : s.connected = true → ∀ got, C (.exchange caller request got) →
      I (s.record (.exchange caller request got)) ∧
        Q (got.answered.elim (.error .eio) .ok) (s.record (.exchange caller request got)))
    (hreset : s.connected = false → I s ∧ Q (.error .eio) s) :
    Ensures C I s (requestReply caller request) Q := by
  refine Ensures.result (ensures_getSMBServerReply (Q := fun r s' =>
    ∃ got : Got, r = got.received ∧ Q (got.answered.elim (.error .eio) .ok) s')
    (fun hc got hC => ?_) fun hc => ?_) ?_
  · exact ⟨(hsent hc got hC).1, got, rfl, (hsent hc got hC).2⟩
  · exact ⟨(hreset hc).1, .reset, rfl, (hreset hc).2⟩
  · rintro r s' ⟨got, hr, hQ⟩
    unfold Got.answered at hQ
    rw [← hr] at hQ
    match r with
    | .ok (some r) =>
        dsimp only at hQ ⊢
        split
        · rw [if_pos ‹_›] at hQ
          exact ensures_pure hQ
        · rw [if_neg ‹_›] at hQ
          exact ensures_throw hQ
    | .ok none => exact ensures_throw hQ
    | .error _ => exact ensures_throw hQ

/-- A request followed by the test of its status. -/
theorem ensures_checked {check : Reply → Call Unit} {Q : Except Errno Unit → Host → Prop}
    (hcheck : ∀ r s', Ensures C I s' (check r) fun res s'' =>
      s'' = s' ∧ (res = .ok () ↔ r.status = statusSuccess))
    (hsent : s.connected = true → ∀ got, C (.exchange caller request got) →
      I (s.record (.exchange caller request got)) ∧
        ∀ res, (res = .ok () ↔ got.granted.isSome) → Q res (s.record (.exchange caller request got)))
    (hreset : s.connected = false → I s ∧ Q (.error .eio) s) :
    Ensures C I s (requestReply caller request >>= check) Q := by
  refine Ensures.bind (ensures_requestReply (Q := fun r s' =>
    (∃ got : Got, r = got.answered.elim (.error .eio) .ok ∧
      ∀ res, (res = .ok () ↔ got.granted.isSome) → Q res s') ∨ (r = .error .eio ∧ Q (.error .eio) s'))
    (fun hc got hC => ?_) fun hc => ?_) ?_ ?_
  · exact ⟨(hsent hc got hC).1, Or.inl ⟨got, rfl, (hsent hc got hC).2⟩⟩
  · exact ⟨(hreset hc).1, Or.inr ⟨rfl, (hreset hc).2⟩⟩
  · rintro r s' (⟨got, hr, hQ⟩ | ⟨hr, -⟩)
    · refine (hcheck r s').mono ?_
      rintro res _ ⟨rfl, hres⟩
      refine hQ res (hres.trans ?_)
      cases hanswered : got.answered with
      | none =>
          rw [hanswered] at hr
          cases hr
      | some r' =>
          rw [hanswered] at hr
          cases hr
          simp [Got.granted, hanswered, Option.filter]
    · cases hr
  · rintro e s' (⟨got, hr, hQ⟩ | ⟨hr, hQ⟩)
    · refine hQ _ (iff_of_false nofun fun h => ?_)
      cases hanswered : got.answered with
      | none => simp [Got.granted, hanswered] at h
      | some r' =>
          rw [hanswered] at hr
          cases hr
    · cases hr
      exact hQ

theorem checkSuccess_ensures (r : Reply) (s : Host) : Ensures C I s (checkSuccess r) fun res s' =>
    s' = s ∧ (res = .ok () ↔ r.status = statusSuccess) := by
  unfold checkSuccess
  split
  · exact ensures_pure ⟨rfl, by simpa using ‹_›⟩
  · exact ensures_throw ⟨rfl, by simpa using ‹_›⟩

theorem checkStatus_ensures (r : Reply) (s : Host) : Ensures C I s (checkStatus r) fun res s' =>
    s' = s ∧ (res = .ok () ↔ r.status = statusSuccess) := by
  unfold checkStatus
  split
  · exact ensures_pure ⟨rfl, by simpa using ‹_›⟩
  · split
    · exact ensures_throw ⟨rfl, by simpa using ‹_›⟩
    · exact ensures_throw ⟨rfl, by simpa using ‹_›⟩

theorem getSMBServerReply_exec (hs : s.connected = true) (got : Got) (answers : List Got)
    (connects : List Bool) :
    (getSMBServerReply caller request).run.exec serve ⟨s, got :: answers, connects⟩ =
      (some got.received, ⟨s.record (.exchange caller request got), answers, connects⟩) := by
  have hexchange : (Call.command (.exchange caller request) : Call Got).run.exec serve
      ⟨s, got :: answers, connects⟩ =
        (some (.ok got), ⟨s.record (.exchange caller request got), answers, connects⟩) := by
    cases s
    cases hs
    rfl
  refine (Dialogue.exec_bind hexchange).trans ?_
  cases got with
  | timeout => rfl
  | reset => rfl
  | reply r =>
      show Dialogue.exec serve (if r.size = 0 then pure none else
        if replyMax < r.size then throw Errno.eproto else pure (some r) : Call (Option Reply)).run _ = _
      unfold Got.received
      dsimp only
      split
      · rfl
      · split
        · rfl
        · rfl

end Requests

end BdmAssault.Smb.Driver
