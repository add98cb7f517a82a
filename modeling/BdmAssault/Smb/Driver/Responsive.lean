import BdmAssault.Lib.Termination
import BdmAssault.Smb.Driver.Reconnect

/-! # A server that answers

The network of a run as a function of the time and of the request, with transport failures
only before some time. Against a server that accepts connections and log-ons, a reconnect
ends if and only if the server lets every file of the handle table be opened again.
-/

namespace BdmAssault.Smb.Driver

open Lib

/-! ## A network in time -/

/-- What arrives for a request, and whether a connection comes up, at each time. -/
structure Network where
  answer : Nat → Request → Got
  up : Nat → Bool

/-- Every command takes one unit of time. -/
structure Station where
  host : Host
  clock : Nat

def Station.tick (s : Station) (host : Host) : Station := ⟨host, s.clock + 1⟩

/-- `serve` with the answer of the network to this command. -/
def Network.respond (e : Network) : Handler Cmd Cmd.Res Station
  | .exchange caller request, s =>
      if s.host.connected then
        let got := e.answer s.clock request
        some (got, s.tick (s.host.record (.exchange caller request got)))
      else some (.reset, s.tick s.host)
  | .connect, s => some (e.up s.clock, s.tick (s.host.dialled (e.up s.clock)))
  | .disconnect, s => some ((), s.tick s.host.dropped)
  | .get, s => some (s.host.state, s.tick s.host)
  | .modify g, s => some ((), s.tick (s.host.modify g))
  | .halt, _ => none

/-- A step of the network is a step of `serve` with the answers that this takes. -/
theorem respond_serve {e : Network} {c : Cmd} {r : c.Res} {s s' : Station}
    (hstep : e.respond c s = some (r, s')) : ∃ answers connects, ∀ answers' connects',
      serve c ⟨s.host, answers ++ answers', connects ++ connects'⟩ =
        some (r, ⟨s'.host, answers', connects'⟩) := by
  cases c with
  | exchange caller request =>
      by_cases hconnected : s.host.connected = true
      · have hsent := (if_pos hconnected).symm.trans hstep
        cases hsent
        exact ⟨[e.answer s.clock request], [], fun _ _ => if_pos hconnected⟩
      · have hreset := (if_neg hconnected).symm.trans hstep
        cases hreset
        exact ⟨[], [], fun _ _ => if_neg hconnected⟩
  | connect =>
      cases hstep
      exact ⟨[], [e.up s.clock], fun _ _ => rfl⟩
  | disconnect =>
      cases hstep
      exact ⟨[], [], fun _ _ => rfl⟩
  | get =>
      cases hstep
      exact ⟨[], [], fun _ _ => rfl⟩
  | modify g =>
      cases hstep
      exact ⟨[], [], fun _ _ => rfl⟩
  | halt => cases hstep

section Rules

variable {e : Network} {α β : Type} {s : Station} {m : Call α}

/-- What the functions of the driver always ensure, they ensure on this network. -/
theorem Always.respond {Q : Except Errno α → Host → Prop} (hm : Always s.host m Q) :
    m.Meets e.respond (fun _ => True) (fun _ => True) s fun r s' => Q r s'.host := by
  have hrun : ∀ (m : Dialogue Cmd Cmd.Res (Except Errno α)) (s : Station),
      (∀ answers connects, m.Safe serve (fun n => n.host.Admits fun _ => True) (fun _ => True)
        (fun r n => Q r n.host) ⟨s.host, answers, connects⟩) →
      m.Safe e.respond (fun _ => True) (fun _ => True) (fun r s' => Q r s'.host) s := by
    intro m
    induction m with
    | ret a => exact fun s hm => hm [] []
    | call c k ih =>
        intro s hm r s' hstep _
        obtain ⟨answers, connects, hserve⟩ := respond_serve hstep
        refine ⟨trivial, ih r s' fun answers' connects' => ?_⟩
        exact (hm _ _ r _ (hserve answers' connects') fun _ _ => trivial).2
  exact hrun m.run s hm

variable {f : Unit → Call β} {Q : Except Errno β → Station → Prop}

theorem ends_get {f : State → Call β} (hf : (f s.host.state).Ends e.respond (s.tick s.host) Q) :
    (getState >>= f).Ends e.respond s Q := Fallible.Ends.step rfl hf

theorem ends_getSession {f : Session → Call β}
    (hf : (f s.host.state.session).Ends e.respond (s.tick s.host) Q) :
    (getSession >>= f).Ends e.respond s Q := ends_get hf

theorem ends_modify {g : State → State} (hf : (f ()).Ends e.respond (s.tick (s.host.modify g)) Q) :
    (modifyState g >>= f).Ends e.respond s Q := Fallible.Ends.step rfl hf

theorem ends_disconnect (hf : (f ()).Ends e.respond (s.tick s.host.dropped) Q) :
    (disconnect >>= f).Ends e.respond s Q := Fallible.Ends.step rfl hf

theorem ends_loop {rounds : Nat} {body : β → Call (β ⊕ α)} {P : β → Station → Prop}
    {Q : Except Errno α → Station → Prop} (variant : β → Station → Nat)
    (hbody : ∀ b s', P b s' → (body b).Ends e.respond s' fun r s'' =>
      match r with
      | .ok (.inl b') => P b' s'' ∧ variant b' s'' < variant b s'
      | .ok (.inr a) => Q (.ok a) s''
      | .error err => Q (.error err) s'') {b : β} (hp : P b s) (hrounds : variant b s < rounds) :
    (loop rounds body b).Ends e.respond s Q := by
  refine Dialogue.Ends.iterate (P := P) variant (fun b s' hp => ?_) hp hrounds
  refine Dialogue.Ends.bind ((hbody b s' hp).mono fun r s'' hr => ?_)
  match r with
  | .ok (.inl b') => exact hr
  | .ok (.inr a) => exact hr
  | .error err => exact hr

/-- One round of a loop, and the rounds that are left. -/
theorem ends_loop_succ {rounds : Nat} {body : β → Call (β ⊕ α)} {Q : Except Errno α → Station → Prop}
    {b : β} (hbody : (body b).Ends e.respond s fun r s' =>
      match r with
      | .ok (.inl b') => (loop rounds body b').Ends e.respond s' Q
      | .ok (.inr a) => Q (.ok a) s'
      | .error err => Q (.error err) s') : (loop (rounds + 1) body b).Ends e.respond s Q := by
  refine Dialogue.Ends.bind (Dialogue.Ends.bind (Fallible.Ends.mono hbody fun r s' hr => ?_))
  match r with
  | .ok (.inl b') => exact hr
  | .ok (.inr a) => exact hr
  | .error err => exact hr

theorem stuck_loop {rounds : Nat} {body : β → Call (β ⊕ α)} {P : β → Station → Prop}
    (hbody : ∀ b s', P b s' → (body b).Ends e.respond s' fun r s'' =>
      ∃ b', r = .ok (.inl b') ∧ P b' s'') {b : β} (hp : P b s) :
    (loop rounds body b).Stuck e.respond s := by
  have hhalt : ∀ s', (halt : Call α).run.Stuck e.respond s' := fun _ => by rfl
  refine Dialogue.stuck_iterate (P := P) hhalt (fun b s' hp => ?_) rounds hp
  refine Dialogue.Ends.bind ((hbody b s' hp).mono ?_)
  rintro r s'' ⟨b', rfl, hp'⟩
  exact ⟨b', rfl, hp'⟩

end Rules

/-! ## Calls that may fail -/

/-- What holds between the ends of a call, however it ends. -/
structure Frame (T : Host → Host → Prop) : Prop where
  refl : ∀ s, T s s
  trans : ∀ s s' s'', T s s' → T s' s'' → T s s''

/-- A failure is due to `B`, or to an event before the time `N`. -/
def Outcome {α : Type} (N : Nat) (T : Host → Host → Prop) (B : Prop) (s : Station)
    (Q : α → Host → Prop) (r : Except Errno α) (s' : Station) : Prop :=
  T s.host s'.host ∧ s.clock ≤ s'.clock ∧
    match r with
    | .ok a => Q a s'.host
    | .error _ => B ∨ s.clock < N

def Attempt {α : Type} (e : Network) (N : Nat) (T : Host → Host → Prop) (B : Prop) (s : Station)
    (m : Call α) (Q : α → Host → Prop) : Prop := m.Ends e.respond s (Outcome N T B s Q)

section Attempt

variable {e : Network} {N : Nat} {T T' : Host → Host → Prop} {B B' : Prop} {α β : Type}
  {s s₁ : Station} {m : Call α} {Q Q' : α → Host → Prop} {R : β → Host → Prop}

theorem Attempt.mono (hm : Attempt e N T B s m Q) (hT : ∀ s', T s.host s' → T' s.host s')
    (hB : B → B' ∨ s.clock < N) (hQ : ∀ a s', T s.host s' → Q a s' → Q' a s') :
    Attempt e N T' B' s m Q' := by
  refine Fallible.Ends.mono hm ?_
  rintro r s' ⟨hframe, hclock, hr⟩
  refine ⟨hT _ hframe, hclock, ?_⟩
  cases r with
  | ok a => exact hQ a _ hframe hr
  | error _ => exact hr.elim hB Or.inr

/-- The outcome of what follows, seen from the start. -/
theorem Attempt.later (k : Frame T) (hT : T s.host s₁.host) (hclock : s.clock ≤ s₁.clock)
    (hm : Attempt e N T B s₁ m Q) : m.Ends e.respond s₁ (Outcome N T B s Q) := by
  refine Fallible.Ends.mono hm ?_
  rintro r s₂ ⟨hframe, hclock', hr⟩
  refine ⟨k.trans _ _ _ hT hframe, Nat.le_trans hclock hclock', ?_⟩
  cases r with
  | ok a => exact hr
  | error _ => exact hr.imp_right fun h => Nat.lt_of_le_of_lt hclock h

theorem Attempt.bind {f : α → Call β} (k : Frame T) (hm : Attempt e N T B s m Q)
    (hf : ∀ a s', T s.host s'.host → Q a s'.host → Attempt e N T B s' (f a) R) :
    Attempt e N T B s (m >>= f) R :=
  Fallible.Ends.bind hm (fun a _ h => (hf a _ h.1 h.2.2).later k h.1 h.2.1) fun _ _ h => h

/-- A call whose failure is looked at. -/
theorem Attempt.result {f : Except Errno α → Call β} (k : Frame T) (hm : Attempt e N T B s m Q)
    (hok : ∀ a s', T s.host s'.host → Q a s'.host → Attempt e N T B' s' (f (.ok a)) R)
    (herror : ∀ err s', T s.host s'.host → B ∨ s.clock < N →
      Attempt e N T (B' ∨ s.clock < N) s' (f (.error err)) R) :
    Attempt e N T B' s (m.result >>= f) R := by
  refine Fallible.Ends.result hm ?_
  rintro r s₁ ⟨hframe, hclock, hr⟩
  cases r with
  | ok a => exact (hok a s₁ hframe hr).later k hframe hclock
  | error err =>
      have hlater : Attempt e N T (B' ∨ s.clock < N) s₁ (f (.error err)) R := herror err s₁ hframe hr
      refine Fallible.Ends.mono (hlater.later k hframe hclock) ?_
      rintro r s₂ ⟨hframe', hclock', hr'⟩
      refine ⟨hframe', hclock', ?_⟩
      cases r with
      | ok b => exact hr'
      | error _ => exact hr'.elim id Or.inr

theorem attempt_pure {a : α} (k : Frame T) (h : Q a s.host) : Attempt e N T B s (pure a) Q :=
  Fallible.ends_pure ⟨k.refl _, Nat.le_refl _, h⟩

theorem attempt_throw {err : Errno} (k : Frame T) (h : B) : Attempt e N T B s (throw err) Q :=
  Fallible.ends_throw ⟨k.refl _, Nat.le_refl _, Or.inl h⟩

theorem attempt_get {f : State → Call α} (k : Frame T)
    (h : Attempt e N T B (s.tick s.host) (f s.host.state) Q) : Attempt e N T B s (getState >>= f) Q :=
  ends_get (h.later k (k.refl _) (Nat.le_succ _))

theorem attempt_getSession {f : Session → Call α} (k : Frame T)
    (h : Attempt e N T B (s.tick s.host) (f s.host.state.session) Q) :
    Attempt e N T B s (getSession >>= f) Q := attempt_get k h

theorem attempt_modify {g : State → State} {f : Unit → Call α} (k : Frame T)
    (hT : T s.host (s.host.modify g)) (h : Attempt e N T B (s.tick (s.host.modify g)) (f ()) Q) :
    Attempt e N T B s (modifyState g >>= f) Q :=
  ends_modify (h.later k hT (Nat.le_succ _))

theorem attempt_disconnect {f : Unit → Call α} (k : Frame T) (hT : T s.host s.host.dropped)
    (h : Attempt e N T B (s.tick s.host.dropped) (f ()) Q) : Attempt e N T B s (disconnect >>= f) Q :=
  ends_disconnect (h.later k hT (Nat.le_succ _))

theorem attempt_modifyState {g : State → State} {Q : Unit → Host → Prop}
    (hT : T s.host (s.host.modify g)) (h : Q () (s.host.modify g)) :
    Attempt e N T B s (modifyState g) Q := ⟨(), _, rfl, hT, Nat.le_succ _, h⟩

end Attempt

/-! ## What a server accepts -/

/-- The capabilities of a server and the status it answers a request with: a log-on with or
without a name and with the LM password, a tree connect, an open, and the query of the size
that a server without the NT commands gets with it. -/
structure Server where
  userLevel : Bool
  ntSmbs : Bool
  logOn : Bool → Bool → Nat
  tree : Name → Bool → Nat
  openFile : Name → OpenMode → Nat
  query : Name → Bool → Nat

def Server.Answers (v : Server) : Request → Reply → Prop
  | .negotiate _, r => r.status % 65536 = statusSuccess ∧ r.wordcount = 17 ∧
      r.userLevel = v.userLevel ∧ r.ntSmbs = v.ntSmbs
  | .sessionSetup anonymous lm, r => r.status = v.logOn anonymous lm
  | .treeConnect _ share lm, r => r.status = v.tree share lm
  | .ntCreate _ _ path mode, r => r.status = v.openFile path mode
  | .openFile _ _ path mode, r => r.status = v.openFile path mode
  | .queryPathInformation _ _ path standard, r => r.status = v.query path standard
  | _, _ => True

/-- The requests of a reconnect. -/
def Request.restores : Request → Bool
  | .negotiate _ | .sessionSetup _ _ | .treeConnect _ _ _ | .ntCreate _ _ _ _ | .openFile _ _ _ _
  | .queryPathInformation _ _ _ _ => true
  | _ => false

/-- A network with the server behind it. Transport fails before the time `N` only. -/
structure Network.Serves (e : Network) (v : Server) (N : Nat) : Prop where
  answers : ∀ n request, request.restores = true →
    (∃ r, (e.answer n request).answered = some r ∧ v.Answers request r) ∨
      (e.answer n request).answered = none ∧ n < N
  connects : ∀ n, e.up n = true ∨ n < N

/-- A log-on or a tree connect, with LM authentication on a second try. -/
def Server.Authenticates (v : Server) (status : Bool → Nat) : Prop :=
  status false = statusSuccess ∨
    status false = statusLogonFailure ∧ v.userLevel = true ∧ status true = statusSuccess

/-- A log-on without a name may fall back to one with the default name. -/
def Server.LogsOn (v : Server) (anonymous : Bool) : Prop :=
  v.Authenticates (v.logOn anonymous) ∨ anonymous = true ∧ v.Authenticates (v.logOn false)

/-- The server opens a file and tells its size. -/
def Server.Opens (v : Server) (path : Name) (mode : OpenMode) : Prop :=
  v.openFile path mode = statusSuccess ∧
    (v.ntSmbs = false → v.query path false = statusSuccess ∧ v.query path true = statusSuccess)

/-- The file of a slot can be opened again. Directories are not. -/
def Server.Reopens (v : Server) (h : Handle) : Prop :=
  h.used = true → h.mode.directory = false → v.Opens h.name { h.mode with truncate := false }

/-- The log-on and the tree connect of a reconnect are accepted. The share of an open tree is
one that was connected to before. -/
structure Server.Accepts (v : Server) (x : Session) : Prop where
  logOn : v.LogsOn x.anonymous
  tree : x.openshareValid = true → ∃ share root,
    splitSharePath x.openshare = some (share, root) ∧ v.Authenticates (v.tree share)

/-! ## Requests -/

/-- Requests leave the globals and the connection alone. -/
def Quiet (s s' : Host) : Prop := s'.state = s.state ∧ s'.connected = s.connected

theorem quiet_frame : Frame Quiet where
  refl _ := ⟨rfl, rfl⟩
  trans _ _ _ h h' := ⟨h'.1.trans h.1, h'.2.trans h.2⟩

section Requests

variable {e : Network} {v : Server} {N : Nat} {α : Type} {s : Station} {B : Prop} {caller : Caller}
  {request : Request}

theorem getSMBServerReply_ends (hs : s.host.connected = true) :
    (getSMBServerReply caller request).Ends e.respond s fun r s' =>
      s' = s.tick (s.host.record (.exchange caller request (e.answer s.clock request))) ∧
        r = (e.answer s.clock request).received := by
  refine Fallible.Ends.step (if_pos hs) ?_
  cases e.answer s.clock request with
  | timeout => exact Fallible.ends_throw ⟨rfl, rfl⟩
  | reset => exact Fallible.ends_throw ⟨rfl, rfl⟩
  | reply r =>
      unfold Got.received
      dsimp only
      split
      · exact Fallible.ends_pure ⟨rfl, rfl⟩
      · split
        · exact Fallible.ends_throw ⟨rfl, rfl⟩
        · exact Fallible.ends_pure ⟨rfl, rfl⟩

theorem requestReply_ends (hs : s.host.connected = true) :
    (requestReply caller request).Ends e.respond s fun r s' =>
      s' = s.tick (s.host.record (.exchange caller request (e.answer s.clock request))) ∧
        r = (e.answer s.clock request).answered.elim (.error .eio) .ok := by
  refine Fallible.Ends.result (getSMBServerReply_ends hs) ?_
  rintro r s' ⟨hs', hr⟩
  unfold Got.answered
  rw [← hr]
  match r with
  | .ok (some r) =>
      dsimp only
      split
      · exact Fallible.ends_pure ⟨hs', rfl⟩
      · exact Fallible.ends_throw ⟨hs', rfl⟩
  | .ok none => exact Fallible.ends_throw ⟨hs', rfl⟩
  | .error _ => exact Fallible.ends_throw ⟨hs', rfl⟩

/-- Any request, whatever is made of the answer. -/
theorem requestReply_quiet (hs : s.host.connected = true) :
    Attempt e N Quiet True s (requestReply caller request) fun _ _ => True := by
  refine Fallible.Ends.mono (requestReply_ends hs) ?_
  rintro r s' ⟨rfl, -⟩
  refine ⟨⟨rfl, rfl⟩, Nat.le_succ _, ?_⟩
  cases r with
  | ok r => exact trivial
  | error _ => exact Or.inl trivial

/-- A request of a reconnect fails at a transport failure only. -/
theorem requestReply_attempt (he : e.Serves v N) (hrequest : request.restores = true)
    (hs : s.host.connected = true) :
    Attempt e N Quiet B s (requestReply caller request) fun r _ => v.Answers request r := by
  refine Fallible.Ends.mono (requestReply_ends hs) ?_
  rintro r s' ⟨rfl, rfl⟩
  refine ⟨⟨rfl, rfl⟩, Nat.le_succ _, ?_⟩
  rcases he.answers s.clock request hrequest with ⟨r, hanswered, hr⟩ | ⟨hnone, hearly⟩
  · rw [hanswered]
    exact hr
  · rw [hnone]
    exact Or.inr hearly

theorem authenticate_attempt {send : Bool → Call Reply} {status : Bool → Nat}
    (hsend : ∀ lm s, s.host.connected = true →
      Attempt e N Quiet (¬v.Authenticates status) s (send lm) fun r _ => r.status = status lm)
    (hs : s.host.connected = true) (hlevel : s.host.state.userLevel = v.userLevel) :
    Attempt e N Quiet (¬v.Authenticates status) s (authenticate send)
      fun _ _ => v.Authenticates status := by
  refine Attempt.bind quiet_frame (hsend false s hs) fun r s₁ h₁ hr => ?_
  split
  · exact attempt_pure quiet_frame (Or.inl (hr.symm.trans ‹_›))
  · rename_i hfirst
    rw [hr] at hfirst
    split
    · rename_i hfailure
      refine attempt_get quiet_frame ?_
      split
      · rename_i huser
        refine Attempt.bind quiet_frame (hsend true _ (h₁.2.trans hs)) fun r' s₂ _ hr' => ?_
        rw [h₁.1, hlevel] at huser
        have hsecond : v.Authenticates status ↔ r'.status = statusSuccess := by
          constructor
          · rintro (h | h)
            · exact absurd h hfirst
            · exact hr'.trans h.2.2
          · exact fun h => Or.inr ⟨hr.symm.trans hfailure, huser, hr'.symm.trans h⟩
        split
        · exact attempt_pure quiet_frame (hsecond.mpr ‹_›)
        · split
          · exact attempt_throw quiet_frame (mt hsecond.mp ‹_›)
          · exact attempt_throw quiet_frame (mt hsecond.mp ‹_›)
      · rename_i hshare
        rw [h₁.1, hlevel] at hshare
        refine attempt_throw quiet_frame ?_
        rintro (h | h)
        · exact hfirst h
        · exact hshare h.2.1
    · rename_i hother
      rw [hr] at hother
      refine attempt_throw quiet_frame ?_
      rintro (h | h)
      · exact hfirst h
      · exact hother h.1

theorem smbSessionSetupAndX_attempt (he : e.Serves v N) (anonymous : Bool)
    (hs : s.host.connected = true) (hlevel : s.host.state.userLevel = v.userLevel) :
    Attempt e N Quiet (¬v.Authenticates (v.logOn anonymous)) s (smbSessionSetupAndX caller anonymous)
      fun _ _ => v.Authenticates (v.logOn anonymous) := by
  refine Attempt.bind quiet_frame (authenticate_attempt (fun lm s hs => ?_) hs hlevel)
    fun r s₁ _ hr => attempt_pure quiet_frame hr
  exact requestReply_attempt he rfl hs

theorem smbTreeConnectAndX_attempt (he : e.Serves v N) {uid : Option Nat} {share : Name}
    (hs : s.host.connected = true) (hlevel : s.host.state.userLevel = v.userLevel) :
    Attempt e N Quiet (¬v.Authenticates (v.tree share)) s (smbTreeConnectAndX caller uid share)
      fun _ _ => v.Authenticates (v.tree share) := by
  refine Attempt.bind quiet_frame (authenticate_attempt (fun lm s hs => ?_) hs hlevel)
    fun r s₁ _ hr => attempt_pure quiet_frame hr
  exact requestReply_attempt he rfl hs

/-- The flag says that the server takes the log-on with the default name. -/
theorem fallback_attempt (he : e.Serves v N) (anonymous : Bool) (hs : s.host.connected = true)
    (hlevel : s.host.state.userLevel = v.userLevel) :
    Attempt e N Quiet (¬v.LogsOn anonymous) s (smbSessionSetupWithAnonymousFallback caller anonymous)
      fun r _ => r.2 = true → v.Authenticates (v.logOn false) := by
  refine Attempt.result quiet_frame (smbSessionSetupAndX_attempt he anonymous hs hlevel)
    (fun uid s₁ _ _ => attempt_pure quiet_frame nofun) fun err s₁ h₁ hrefused => ?_
  dsimp only
  split
  · rename_i hanonymous
    refine Attempt.bind quiet_frame (Q := fun _ _ => v.Authenticates (v.logOn false)) ?_
      fun uid s₂ _ h => attempt_pure quiet_frame fun _ => h
    refine (smbSessionSetupAndX_attempt he false (h₁.2.trans hs)
      ((congrArg State.userLevel h₁.1).trans hlevel)).mono (fun _ h => h) (fun h => ?_) fun _ _ _ h => h
    refine Or.inl (hrefused.imp_left fun hfirst hlogs => ?_)
    exact hlogs.elim hfirst fun hsecond => h hsecond.2
  · rename_i hnamed
    refine attempt_throw quiet_frame (hrefused.imp_left fun hfirst hlogs => ?_)
    exact hlogs.elim hfirst fun hsecond => hnamed hsecond.1

theorem checkStatus_attempt (r : Reply) :
    Attempt e N Quiet (r.status ≠ statusSuccess) s (checkStatus r)
      fun _ _ => r.status = statusSuccess := by
  unfold checkStatus
  split
  · exact attempt_pure quiet_frame ‹_›
  · split
    · exact attempt_throw quiet_frame ‹_›
    · exact attempt_throw quiet_frame ‹_›

/-- A request of a reconnect, the test of its status, and what follows. -/
theorem checked_attempt (he : e.Serves v N) (request : Request) (status : Nat)
    (hrequest : request.restores = true) (hs : s.host.connected = true) (hstatus : ∀ r, v.Answers request r → r.status = status) (hB : status ≠ statusSuccess → B)
    {f : Reply → Call α} {Q : α → Host → Prop}
    (hf : ∀ r s', Quiet s.host s'.host → status = statusSuccess → Attempt e N Quiet B s' (f r) Q) :
    Attempt e N Quiet B s (do
      let r ← requestReply caller request
      checkStatus r
      f r) Q := by
  refine Attempt.bind quiet_frame (requestReply_attempt he hrequest hs) fun r s₁ h₁ hr => ?_
  refine Attempt.bind quiet_frame (Q := fun _ _ => status = statusSuccess) ?_ fun _ s₂ h₂ h => ?_
  · rw [← hstatus r hr]
    refine (checkStatus_attempt r).mono (fun _ h => h) (fun h => ?_) fun _ _ _ h => h
    exact Or.inl (hB (by rwa [← hstatus r hr]))
  · exact hf r s₂ (quiet_frame.trans _ _ _ h₁ h₂) h

theorem smbQueryPathInformation_attempt (he : e.Serves v N) {uid tid : Option Nat} {path : Name}
    (hs : s.host.connected = true) :
    Attempt e N Quiet (¬(v.query path false = statusSuccess ∧ v.query path true = statusSuccess)) s
      (smbQueryPathInformation caller uid tid path)
      fun _ _ => v.query path false = statusSuccess ∧ v.query path true = statusSuccess := by
  refine checked_attempt he (.queryPathInformation uid tid path false) (v.query path false) rfl hs
    (fun r hr => hr) (fun h hboth => h hboth.1) fun basic s₁ h₁ hbasic => ?_
  refine checked_attempt he (.queryPathInformation uid tid path true) (v.query path true) rfl
    (h₁.2.trans hs) (fun r hr => hr) (fun h hboth => h hboth.2) fun standard s₂ h₂ hstandard => ?_
  exact attempt_pure quiet_frame ⟨hbasic, hstandard⟩

/-- An open, and the query of the size that goes with it. -/
theorem smbOpenAndX_attempt (he : e.Serves v N) {uid tid : Option Nat} {path : Name} {mode : OpenMode}
    (hs : s.host.connected = true) (hnt : s.host.state.ntSmbs = v.ntSmbs) :
    Attempt e N Quiet (¬v.Opens path mode) s (smbOpenAndX caller uid tid path mode)
      fun _ _ => v.Opens path mode := by
  have hs' : (s.tick s.host).host.connected = true := hs
  refine attempt_get quiet_frame ?_
  rw [hnt]
  split
  · rename_i hcommands
    refine checked_attempt he (.ntCreate uid tid path mode) (v.openFile path mode) rfl hs'
      (fun r hr => hr) (fun h (hopens : v.Opens path mode) => h hopens.1) fun r s₁ _ hopen => ?_
    exact attempt_pure quiet_frame ⟨hopen, fun hwithout => absurd (hcommands.symm.trans hwithout) nofun⟩
  · rename_i hwithout
    have hwithout' := Bool.eq_false_iff.mpr hwithout
    refine checked_attempt he (.openFile uid tid path mode) (v.openFile path mode) rfl hs'
      (fun r hr => hr) (fun h (hopens : v.Opens path mode) => h hopens.1) fun r s₁ h₁ hopen => ?_
    refine Attempt.result quiet_frame (smbQueryPathInformation_attempt he (h₁.2.trans hs))
      (fun info s₂ _ hquery => attempt_pure quiet_frame ⟨hopen, fun _ => hquery⟩) fun err s₂ _ h => ?_
    refine attempt_throw quiet_frame (h.imp_left fun hrefused hopens => ?_)
    exact hrefused (hopens.2 hwithout')

end Requests

/-! ## Frames of a reconnect -/

/-- What every part of a reconnect keeps, however it ends. -/
structure Persists (v : Server) (s s' : Host) : Prop where
  logonValid : s'.state.session.logonValid = s.state.session.logonValid
  openshareValid : s'.state.session.openshareValid = s.state.session.openshareValid
  openshare : s'.state.session.openshare = s.state.session.openshare
  logOn : v.LogsOn s.state.session.anonymous → v.LogsOn s'.state.session.anonymous
  slots : s'.state.handles.length = s.state.handles.length
  place : ∀ fh, (s'.state.handle fh).used = (s.state.handle fh).used ∧
    (s'.state.handle fh).mode = (s.state.handle fh).mode ∧
    (s'.state.handle fh).name = (s.state.handle fh).name

/-- The connection stays, and what is known of the server. -/
structure Joined (v : Server) (s s' : Host) : Prop extends Persists v s s' where
  connected : s'.connected = s.connected
  userLevel : s.state.userLevel = v.userLevel → s'.state.userLevel = v.userLevel
  ntSmbs : s.state.ntSmbs = v.ntSmbs → s'.state.ntSmbs = v.ntSmbs

section Frames

variable {v : Server} {s s' : Host}

theorem persists_frame (v : Server) : Frame (Persists v) where
  refl _ := ⟨rfl, rfl, rfl, id, rfl, fun _ => ⟨rfl, rfl, rfl⟩⟩
  trans _ _ _ h h' :=
    { logonValid := h'.logonValid.trans h.logonValid
      openshareValid := h'.openshareValid.trans h.openshareValid
      openshare := h'.openshare.trans h.openshare
      logOn := fun hlogs => h'.logOn (h.logOn hlogs)
      slots := h'.slots.trans h.slots
      place := fun fh => ⟨(h'.place fh).1.trans (h.place fh).1,
        (h'.place fh).2.1.trans (h.place fh).2.1, (h'.place fh).2.2.trans (h.place fh).2.2⟩ }

theorem joined_frame (v : Server) : Frame (Joined v) where
  refl s := ⟨(persists_frame v).refl s, rfl, id, id⟩
  trans _ _ _ h h' :=
    { toPersists := (persists_frame v).trans _ _ _ h.toPersists h'.toPersists
      connected := h'.connected.trans h.connected
      userLevel := fun hlevel => h'.userLevel (h.userLevel hlevel)
      ntSmbs := fun hnt => h'.ntSmbs (h.ntSmbs hnt) }

/-- A change of the session that keeps what the reconnect goes by. -/
theorem joined_session {g : Session → Session}
    (hg : (g s.state.session).logonValid = s.state.session.logonValid ∧
      (g s.state.session).openshareValid = s.state.session.openshareValid ∧
      (g s.state.session).openshare = s.state.session.openshare)
    (hlogs : v.LogsOn s.state.session.anonymous → v.LogsOn (g s.state.session).anonymous) :
    Joined v s (s.modify fun x => { x with session := g x.session }) where
  logonValid := hg.1
  openshareValid := hg.2.1
  openshare := hg.2.2
  logOn := hlogs
  slots := rfl
  place _ := ⟨rfl, rfl, rfl⟩
  connected := rfl
  userLevel := id
  ntSmbs := id

theorem joined_state {g : State → State} (hsession : (g s.state).session = s.state.session)
    (hhandles : (g s.state).handles = s.state.handles)
    (hlevel : s.state.userLevel = v.userLevel → (g s.state).userLevel = v.userLevel)
    (hnt : s.state.ntSmbs = v.ntSmbs → (g s.state).ntSmbs = v.ntSmbs) : Joined v s (s.modify g) where
  logonValid := congrArg Session.logonValid hsession
  openshareValid := congrArg Session.openshareValid hsession
  openshare := congrArg Session.openshare hsession
  logOn h := by
    rw [Host.modify_state, hsession]
    exact h
  slots := congrArg List.length hhandles
  place fh := by
    unfold State.handle
    rw [Host.modify_state, hhandles]
    exact ⟨rfl, rfl, rfl⟩
  connected := rfl
  userLevel := hlevel
  ntSmbs := hnt

theorem persists_of_state (h : s'.state = s.state) : Persists v s s' := by
  cases s
  cases s'
  cases h
  exact ⟨rfl, rfl, rfl, id, rfl, fun _ => ⟨rfl, rfl, rfl⟩⟩

theorem Quiet.joined (h : Quiet s s') : Joined v s s' :=
  ⟨persists_of_state h.1, h.2, fun hlevel => (congrArg State.userLevel h.1).trans hlevel,
    fun hnt => (congrArg State.ntSmbs h.1).trans hnt⟩

theorem joined_modifyHandle {fh : Nat} {g : Handle → Handle}
    (hg : ∀ h, (g h).used = h.used ∧ (g h).mode = h.mode ∧ (g h).name = h.name) :
    Joined v s (s.modify fun x => x.modifyHandle fh g) where
  logonValid := rfl
  openshareValid := rfl
  openshare := rfl
  logOn := id
  slots := by simp [State.modifyHandle]
  place i := by
    by_cases hi : i = fh
    · subst hi
      by_cases hlt : i < s.state.handles.length
      · rw [Host.modify_state, handle_modifyHandle_self hlt]
        exact hg _
      · rw [Host.modify_state, State.modifyHandle, List.modify_eq_self (Nat.le_of_not_lt hlt)]
        exact ⟨rfl, rfl, rfl⟩
    · rw [Host.modify_state, handle_modifyHandle_ne hi]
      exact ⟨rfl, rfl, rfl⟩
  connected := rfl
  userLevel := id
  ntSmbs := id

theorem Persists.reopens (h : Persists v s s') (fh : Nat) :
    v.Reopens (s'.state.handle fh) ↔ v.Reopens (s.state.handle fh) := by
  unfold Server.Reopens
  rw [(h.place fh).1, (h.place fh).2.1, (h.place fh).2.2]

theorem Persists.accepts (h : Persists v s s') (ha : v.Accepts s.state.session) :
    v.Accepts s'.state.session where
  logOn := h.logOn ha.logOn
  tree hvalid := by
    rw [h.openshareValid] at hvalid
    rw [h.openshare]
    exact ha.tree hvalid

end Frames

/-! ## The parts of a reconnect -/

section Restore

variable {e : Network} {v : Server} {N : Nat} {α : Type} {s : Station} {B : Prop}

theorem Attempt.joined {m : Call α} {Q : α → Host → Prop} (h : Attempt e N Quiet B s m Q) :
    Attempt e N (Joined v) B s m Q := h.mono (fun _ => Quiet.joined) Or.inl fun _ _ _ h => h

section Session

variable {g : Session → Session} (hg : (g s.host.state.session).logonValid = s.host.state.session.logonValid ∧
    (g s.host.state.session).openshareValid = s.host.state.session.openshareValid ∧
    (g s.host.state.session).openshare = s.host.state.session.openshare)
  (hlogs : v.LogsOn s.host.state.session.anonymous → v.LogsOn (g s.host.state.session).anonymous)

include hg hlogs

theorem attempt_session {f : Unit → Call α} {Q : α → Host → Prop}
    (h : Attempt e N (Joined v) B (s.tick (s.host.modify fun x => { x with session := g x.session }))
      (f ()) Q) : Attempt e N (Joined v) B s (modifySession g >>= f) Q :=
  attempt_modify (joined_frame v) (joined_session hg hlogs) h

theorem attempt_modifySession : Attempt e N (Joined v) B s (modifySession g) fun _ _ => True :=
  attempt_modifyState (joined_session hg hlogs) trivial

end Session

/-- A negotiation that got an answer is accepted. -/
theorem negotiateRetry_attempt (he : e.Serves v N) (caller : Caller) (left : Nat) :
    ∀ {s : Station}, s.host.connected = true →
      Attempt e N (Joined v) (left = 0) s (negotiateRetry caller left) fun _ s' =>
        s'.state.userLevel = v.userLevel ∧ s'.state.ntSmbs = v.ntSmbs := by
  induction left with
  | zero => exact fun _ => attempt_throw (joined_frame v) rfl
  | succ left ih =>
      intro s hs
      refine Attempt.result (joined_frame v) (requestReply_attempt (B := False) he rfl hs).joined
        (fun r s₁ h₁ hr => ?_) fun err s₁ h₁ hearly => ?_
      · obtain ⟨hstatus, hwords, hlevel, hnt⟩ := hr
        dsimp only
        rw [if_pos ⟨hstatus, hwords⟩]
        exact attempt_modifyState (joined_state rfl rfl (fun _ => hlevel) fun _ => hnt) ⟨hlevel, hnt⟩
      · refine (ih (h₁.connected.trans hs)).mono (fun _ h => h) (fun _ => ?_) fun _ _ _ h => h
        exact Or.inl (Or.inr (hearly.resolve_left id))

theorem smbConnect_attempt (he : e.Serves v N) :
    Attempt e N (Persists v) B s smbConnect fun _ s' => s'.connected = true := by
  have hframe := persists_frame v
  refine attempt_disconnect hframe (persists_of_state rfl) ?_
  refine Fallible.Ends.step rfl ?_
  generalize hup : e.up (s.tick s.host.dropped).clock = up
  cases up with
  | true => exact Fallible.ends_pure ⟨persists_of_state rfl, Nat.le_succ _, rfl⟩
  | false =>
      refine Fallible.ends_throw ⟨persists_of_state rfl, Nat.le_succ _, Or.inr ?_⟩
      exact (he.connects _).resolve_left (by rw [hup]; exact Bool.false_ne_true)

theorem leaveTree_attempt (hs : s.host.connected = true) :
    Attempt e N (Joined v) B s leaveTree fun _ _ => True := by
  have hframe := joined_frame v
  refine attempt_getSession hframe ?_
  have hnoTree : ∀ {s : Station}, Attempt e N (Joined v) B s (modifySession fun x => { x with tid := none })
      fun _ _ => True := attempt_modifySession ⟨rfl, rfl, rfl⟩ id
  split
  · refine Attempt.result (B := True) hframe (Q := fun _ _ => True) ?_ (fun _ s₁ _ _ => hnoTree)
      fun _ s₁ _ _ => hnoTree
    refine Attempt.bind hframe (requestReply_quiet (s := s.tick s.host) hs).joined fun r s₁ _ _ => ?_
    unfold checkSuccess
    split
    · exact attempt_pure hframe trivial
    · exact attempt_throw hframe trivial
  · exact attempt_pure hframe trivial

theorem smbOpenShare_attempt (he : e.Serves v N) (hs : s.host.connected = true)
    (hlevel : s.host.state.userLevel = v.userLevel) {share root : Name}
    (hvalid : s.host.state.session.openshareValid = true)
    (hsplit : splitSharePath s.host.state.session.openshare = some (share, root))
    (htree : v.Authenticates (v.tree share)) :
    Attempt e N (Joined v) B s (smbOpenShare .restore s.host.state.session.openshare)
      fun _ _ => True := by
  have hframe := joined_frame v
  unfold smbOpenShare
  rw [hsplit]
  refine Attempt.bind hframe (leaveTree_attempt hs) fun _ s₁ h₁ _ => attempt_getSession hframe ?_
  refine Attempt.bind hframe (Q := fun _ _ => True) ?_ fun tid s₂ h₂ _ => ?_
  · refine (smbTreeConnectAndX_attempt (s := s₁.tick s₁.host) he (h₁.connected.trans hs)
      (h₁.userLevel hlevel)).mono (fun _ => Quiet.joined) (fun h => absurd htree h) fun _ _ _ _ => trivial
  · refine attempt_session ⟨rfl, rfl, rfl⟩ id ?_
    refine attempt_modify hframe (joined_state rfl rfl id id) ?_
    refine attempt_modifySession ⟨rfl, ?_, ?_⟩ id
    · exact ((h₂.openshareValid.trans h₁.openshareValid).trans hvalid).symm
    · exact (h₂.openshare.trans h₁.openshare).symm

/-- One slot after the other: the first that cannot be opened again ends the loop. -/
theorem smbReopenHandles_attempt (he : e.Serves v N) (slots : List Nat) :
    ∀ {s : Station}, s.host.connected = true → s.host.state.ntSmbs = v.ntSmbs →
      Attempt e N (Joined v) (¬∀ fh ∈ slots, v.Reopens (s.host.state.handle fh)) s
        (smbReopenHandles slots) fun _ _ => ∀ fh ∈ slots, v.Reopens (s.host.state.handle fh) := by
  have hframe := joined_frame v
  induction slots with
  | nil => exact fun _ _ => attempt_pure hframe (List.forall_mem_nil _)
  | cons fh rest ih =>
      intro s hs hnt
      -- The slots that are left, from a later state.
      have hrest : ∀ {s₁ : Station}, Joined v s.host s₁.host → v.Reopens (s.host.state.handle fh) →
          Attempt e N (Joined v) (¬∀ i ∈ fh :: rest, v.Reopens (s.host.state.handle i)) s₁
            (smbReopenHandles rest) fun _ _ => ∀ i ∈ fh :: rest, v.Reopens (s.host.state.handle i) := by
        intro s₁ h₁ hfirst
        have hsame : (∀ i ∈ rest, v.Reopens (s₁.host.state.handle i)) ↔
            ∀ i ∈ fh :: rest, v.Reopens (s.host.state.handle i) := by
          rw [List.forall_mem_cons, and_iff_right hfirst]
          exact forall₂_congr fun i _ => h₁.toPersists.reopens i
        refine (ih (h₁.connected.trans hs) (h₁.ntSmbs hnt)).mono (fun _ h => h) (fun h => ?_)
          fun _ _ _ h => hsame.mp h
        exact Or.inl (mt hsame.mpr h)
      refine attempt_get hframe ?_
      dsimp only
      split
      · rename_i hfree
        exact hrest (hframe.refl _) fun hused => absurd (hfree.symm.trans hused) nofun
      · split
        · rename_i hdirectory
          refine attempt_modify hframe (joined_modifyHandle fun _ => ⟨rfl, rfl, rfl⟩) ?_
          refine hrest (joined_modifyHandle fun _ => ⟨rfl, rfl, rfl⟩) fun _ hfile => ?_
          exact absurd (hfile.symm.trans hdirectory) nofun
        · rename_i hfree hfile
          have hthis : v.Reopens (s.host.state.handle fh) ↔
              v.Opens (s.host.state.handle fh).name
                { (s.host.state.handle fh).mode with truncate := false } := by
            unfold Server.Reopens
            rw [Bool.not_eq_false] at hfree
            rw [Bool.not_eq_true] at hfile
            simp only [hfree, hfile, true_implies]
          refine Attempt.bind hframe (Q := fun _ _ => v.Reopens (s.host.state.handle fh)) ?_
            fun r s₁ h₁ hopens => ?_
          · refine (smbOpenAndX_attempt (s := s.tick s.host) he hs hnt).mono (fun _ => Quiet.joined)
              (fun h => Or.inl fun hall => ?_) fun _ _ _ h => hthis.mpr h
            exact h (hthis.mp (hall fh List.mem_cons_self))
          · have hnext : Joined v s₁.host (s₁.host.modify fun x => x.modifyHandle fh fun h =>
                { h with fid := some r.1, filesize := r.2 }) :=
              joined_modifyHandle fun _ => ⟨rfl, rfl, rfl⟩
            exact attempt_modify hframe hnext (hrest (hframe.trans _ _ _ h₁ hnext) hopens)

/-- The server opens every file of the handle table again. -/
def Server.Ready (v : Server) (x : State) : Prop :=
  x.session.openshareValid = true → ∀ fh, v.Reopens (x.handle fh)

theorem Persists.ready {s s' : Host} (h : Persists v s s') : v.Ready s'.state ↔ v.Ready s.state := by
  unfold Server.Ready
  rw [h.openshareValid]
  exact imp_congr_right fun _ => forall_congr' fun fh => h.reopens fh

/-- Slots past the end of the table are free. -/
theorem reopens_slots (x : State) :
    (∀ fh ∈ List.range x.handles.length, v.Reopens (x.handle fh)) ↔ ∀ fh, v.Reopens (x.handle fh) := by
  refine ⟨fun h fh hused => h fh (List.mem_range.mpr (used_lt hused)) hused, fun h fh _ => h fh⟩

/-- The part of a reconnect behind the log-on. -/
theorem reopen_attempt (he : e.Serves v N) (hs : s.host.connected = true)
    (hlevel : s.host.state.userLevel = v.userLevel) (hnt : s.host.state.ntSmbs = v.ntSmbs)
    (ha : v.Accepts s.host.state.session) :
    Attempt e N (Joined v) (¬v.Ready s.host.state) s (do
      let s ← getState
      if s.session.openshareValid then
        smbOpenShare .restore s.session.openshare
        smbReopenHandles (List.range s.handles.length)) fun _ _ => v.Ready s.host.state := by
  have hframe := joined_frame v
  refine attempt_get hframe ?_
  split
  · rename_i hvalid
    obtain ⟨share, root, hsplit, htree⟩ := ha.tree hvalid
    refine Attempt.bind hframe (smbOpenShare_attempt (s := s.tick s.host) he hs hlevel hvalid hsplit htree)
      fun _ s₁ h₁ _ => ?_
    have hslots : (∀ fh ∈ List.range s.host.state.handles.length, v.Reopens (s₁.host.state.handle fh)) ↔
        v.Ready s.host.state := by
      have hlength : s₁.host.state.handles.length = s.host.state.handles.length := h₁.slots
      rw [← hlength, reopens_slots]
      refine ⟨fun h _ fh => (h₁.toPersists.reopens fh).mp (h fh), fun h fh => ?_⟩
      exact (h₁.toPersists.reopens fh).mpr (h hvalid fh)
    rw [← hslots]
    exact smbReopenHandles_attempt he _ (h₁.connected.trans hs) (h₁.ntSmbs hnt)
  · rename_i hclosed
    exact attempt_pure hframe fun hvalid => absurd hvalid hclosed

theorem restoreSession_attempt (he : e.Serves v N) (ha : v.Accepts s.host.state.session) :
    Attempt e N (Persists v) (¬v.Ready s.host.state) s restoreSession fun _ s' =>
      v.Ready s.host.state ∧ s'.connected = true := by
  have hframe := persists_frame v
  have hjoined := joined_frame v
  refine Attempt.bind hframe (smbConnect_attempt he) fun _ s₁ h₁ hconnected => ?_
  -- From here on the connection stays.
  suffices h : Attempt e N (Joined v) (¬v.Ready s.host.state) s₁ _ fun _ _ => v.Ready s.host.state from
    h.mono (fun _ h => h.toPersists) Or.inl fun _ s' h' hready => ⟨hready, h'.connected.trans hconnected⟩
  refine Attempt.bind hjoined ((negotiateRetry_attempt he .restore 3 hconnected).mono (fun _ h => h)
    (fun h => absurd h (by decide)) fun _ _ _ h => h) fun _ s₂ h₂ hserver => attempt_getSession hjoined ?_
  have ha₂ := (hframe.trans _ _ _ h₁ h₂.toPersists).accepts ha
  refine Attempt.bind hjoined (Q := fun r _ => r.2 = true → v.Authenticates (v.logOn false)) ?_
    fun r s₃ h₃ hfallback => ?_
  · exact (fallback_attempt (s := s₂.tick s₂.host) he _ (h₂.connected.trans hconnected) hserver.1).mono
      (fun _ => Quiet.joined) (fun h => absurd ha₂.logOn h) fun _ _ _ h => h
  have hlogs : v.LogsOn s₃.host.state.session.anonymous →
      v.LogsOn (s₃.host.state.session.anonymous && !r.2) := by
    intro hlogs
    cases hr : r.2 with
    | false =>
        rw [Bool.not_false, Bool.and_true]
        exact hlogs
    | true =>
        rw [Bool.not_true, Bool.and_false]
        exact Or.inl (hfallback hr)
  have hnamed := joined_session (g := fun x => { x with uid := some r.1, anonymous := x.anonymous && !r.2 })
    ⟨rfl, rfl, rfl⟩ hlogs
  have h₄ := hjoined.trans _ _ _ h₃ hnamed
  have hall := hframe.trans _ _ _ h₁ (hjoined.trans _ _ _ h₂ h₄).toPersists
  rw [← hall.ready]
  refine attempt_session ⟨rfl, rfl, rfl⟩ hlogs ?_
  exact reopen_attempt (s := s₃.tick _) he (h₄.connected.trans (h₂.connected.trans hconnected))
    (h₄.userLevel hserver.1) (h₄.ntSmbs hserver.2) (hall.accepts ha)

theorem abortConnection_attempt : Attempt e N (Persists v) B s abortConnection fun _ _ => True := by
  refine attempt_disconnect (persists_frame v) (persists_of_state rfl) ?_
  exact attempt_modifyState (joined_session ⟨rfl, rfl, rfl⟩ id).toPersists trivial

/-- A restored connection has every file of the table open again. -/
theorem smbRestoreConnection_ends (he : e.Serves v N) (hvalid : s.host.state.session.logonValid = true)
    (ha : v.Accepts s.host.state.session) : smbRestoreConnection.Ends e.respond s fun r s' =>
      Persists v s.host s'.host ∧ s.clock < s'.clock ∧
        match r with
        | .ok _ => v.Ready s.host.state ∧ s'.host.connected = true
        | .error _ => ¬v.Ready s.host.state ∨ s.clock < N := by
  have hframe := persists_frame v
  refine ends_getSession ?_
  rw [if_pos hvalid]
  suffices h : Attempt e N (Persists v) (¬v.Ready s.host.state) (s.tick s.host) _ fun _ s' =>
      v.Ready s.host.state ∧ s'.connected = true by
    refine Fallible.Ends.mono h ?_
    rintro r s' ⟨hpersists, hclock, hr⟩
    refine ⟨hpersists, hclock, ?_⟩
    cases r with
    | ok _ => exact hr
    | error _ => exact hr.imp_right Nat.lt_of_succ_lt
  refine Attempt.bind hframe abortConnection_attempt fun _ s₁ h₁ _ => ?_
  have hready : v.Ready s₁.host.state ↔ v.Ready s.host.state := h₁.ready
  rw [← hready]
  refine Attempt.result hframe (restoreSession_attempt he (h₁.accepts ha)) (fun _ s₂ _ h => ?_)
    fun err s₂ _ h => ?_
  · exact attempt_pure hframe h
  · exact Attempt.bind hframe abortConnection_attempt fun _ s₃ _ _ => attempt_throw hframe h

/-! ## The retry loop -/

/-- One round of `smb_ReconnectUntilReady`. -/
def reconnectRound : Call (Unit ⊕ Unit) := do
  match ← smbRestoreConnection.result with
  | .ok () => return .inr ()
  | .error e =>
      let s ← getSession
      if s.logonValid then return .inl () else throw e

/-- What `smb_ReconnectUntilReady` does to the globals first. -/
def State.reconnecting (x : State) : State :=
  { x with
    session := { x.session with keepaliveLocked := true }
    readAhead := x.readAhead.invalidate none }

theorem joined_reconnecting (s : Host) : Joined v s (s.modify State.reconnecting) := by
  refine (joined_frame v).trans _ _ _ (joined_session (g := fun x => { x with keepaliveLocked := true })
    ⟨rfl, rfl, rfl⟩ id) (joined_state (g := fun x => { x with readAhead := x.readAhead.invalidate none })
    rfl rfl id id)

/-- Against a server that opens every file again, a round that fails took a transport
failure. -/
theorem reconnectRound_ends (he : e.Serves v N) (hvalid : s.host.state.session.logonValid = true)
    (ha : v.Accepts s.host.state.session) : reconnectRound.Ends e.respond s fun r s' =>
      Persists v s.host s'.host ∧ s.clock < s'.clock ∧
        ((r = .ok (.inr ()) ∧ v.Ready s.host.state ∧ s'.host.connected = true) ∨
          r = .ok (.inl ()) ∧ (¬v.Ready s.host.state ∨ s.clock < N)) := by
  refine Fallible.Ends.result (smbRestoreConnection_ends he hvalid ha) ?_
  rintro r s₁ ⟨hpersists, hclock, hr⟩
  cases r with
  | ok _ => exact Fallible.ends_pure ⟨hpersists, hclock, Or.inl ⟨rfl, hr⟩⟩
  | error err =>
      refine ends_getSession ?_
      rw [if_pos (hpersists.logonValid.trans hvalid)]
      exact Fallible.ends_pure ⟨hpersists, Nat.lt_succ_of_lt hclock, Or.inr ⟨rfl, hr⟩⟩

theorem smbReconnectUntilReady_ends (he : e.Serves v N) (hvalid : s.host.state.session.logonValid = true)
    (ha : v.Accepts s.host.state.session) (hready : v.Ready s.host.state) {rounds : Nat}
    (hrounds : N - s.clock < rounds) : (smbReconnectUntilReady rounds).Ends e.respond s fun r s' =>
      r = .ok () ∧ Persists v s.host s'.host ∧ s'.host.connected = true ∧ s.clock ≤ s'.clock := by
  have hframe := persists_frame v
  refine ends_modify (ends_modify ?_)
  have hstart : Persists v s.host (s.host.modify State.reconnecting) := (joined_reconnecting s.host).toPersists
  refine Fallible.Ends.bind (T := fun r s' => r = .ok () ∧ Persists v s.host s'.host ∧
    s'.host.connected = true ∧ s.clock ≤ s'.clock) ?_ ?_ ?_
  · show Fallible.Ends _ _ (loop rounds (fun _ => reconnectRound) ()) _
    refine ends_loop
      (P := fun _ s' => Persists v s.host s'.host ∧ s.clock ≤ s'.clock)
      (fun _ s' => N - s'.clock) ?_ ⟨hstart, Nat.le_add_right _ 2⟩ ?_
    · rintro _ s₁ ⟨h₁, hclock₁⟩
      refine (reconnectRound_ends he (h₁.logonValid.trans hvalid) (h₁.accepts ha)).mono ?_
      rintro r s₂ ⟨h₂, hclock₂, ⟨rfl, -, hconnected⟩ | ⟨rfl, hagain⟩⟩
      · exact ⟨rfl, hframe.trans _ _ _ h₁ h₂, hconnected, by omega⟩
      · have hearly := hagain.resolve_left fun h => h (h₁.ready.mpr hready)
        exact ⟨⟨hframe.trans _ _ _ h₁ h₂, by omega⟩, by omega⟩
    · show N - (s.clock + 1 + 1) < rounds
      omega
  · rintro _ s₁ ⟨-, h₁, hconnected, hclock⟩
    refine ends_modify (f := pure) (Fallible.ends_pure ⟨rfl, ?_, hconnected, Nat.le_succ_of_le hclock⟩)
    exact hframe.trans _ _ _ h₁ (joined_session (g := fun x => { x with keepaliveLocked := false })
      ⟨rfl, rfl, rfl⟩ id).toPersists
  · rintro err s₁ ⟨hr, -⟩
    cases hr

/-- A file that the server does not open again is tried for ever. -/
theorem smbReconnectUntilReady_stuck (he : e.Serves v N) (hvalid : s.host.state.session.logonValid = true)
    (ha : v.Accepts s.host.state.session) (hrefused : ¬v.Ready s.host.state) (rounds : Nat) :
    (smbReconnectUntilReady rounds).Stuck e.respond s := by
  have hframe := persists_frame v
  have hstart : Persists v s.host (s.host.modify State.reconnecting) := (joined_reconnecting s.host).toPersists
  refine Fallible.Stuck.step rfl (Fallible.Stuck.step rfl (Fallible.Stuck.bind ?_))
  show Fallible.Stuck _ _ (loop rounds (fun _ => reconnectRound) ())
  refine stuck_loop (P := fun _ s' => Persists v s.host s'.host) ?_ hstart
  rintro _ s₁ h₁
  refine (reconnectRound_ends he (h₁.logonValid.trans hvalid) (h₁.accepts ha)).mono ?_
  rintro r s₂ ⟨h₂, -, ⟨-, hready, -⟩ | ⟨rfl, -⟩⟩
  · exact absurd (h₁.ready.mp hready) hrefused
  · exact ⟨(), rfl, hframe.trans _ _ _ h₁ h₂⟩

/-- Without a log-on there is nothing to restore. -/
theorem smbReconnectUntilReady_unlogged (hvalid : s.host.state.session.logonValid = false) {rounds : Nat}
    (hrounds : 0 < rounds) : (smbReconnectUntilReady rounds).Ends e.respond s fun r _ =>
      r = .error .enotconn := by
  refine ends_modify (ends_modify ?_)
  refine Fallible.Ends.bind (T := fun r _ => r = .error .enotconn) ?_ ?_ ?_
  · refine ends_loop (P := fun _ s' => s'.host.state.session.logonValid = false) (fun _ _ => 0)
      ?_ hvalid hrounds
    intro _ s₁ h₁
    refine Fallible.Ends.result (T := fun r s₂ => r = .error .enotconn ∧
      s₂.host.state.session.logonValid = false) ?_ ?_
    · refine ends_getSession ?_
      rw [if_neg (by rw [h₁]; exact Bool.false_ne_true)]
      exact Fallible.ends_throw ⟨rfl, h₁⟩
    · rintro r s₂ ⟨rfl, h₂⟩
      refine ends_getSession ?_
      rw [if_neg (by rw [h₂]; exact Bool.false_ne_true)]
      exact Fallible.ends_throw rfl
  · rintro _ s₁ h
    cases h
  · exact fun _ _ h => h

theorem ready_iff (x : State) : v.Ready x ↔
    x.session.openshareValid = false ∨ ∀ fh, v.Reopens (x.handle fh) := by
  unfold Server.Ready
  cases x.session.openshareValid with
  | false => exact iff_of_true nofun (Or.inl rfl)
  | true => simp

/-- With a server that accepts the connection, the log-on and the share, a reconnect returns
if and only if there is nothing to restore, no share was open, or the server opens every file
of the handle table again. -/
theorem reconnect_returns_iff (he : e.Serves v N) (ha : v.Accepts s.host.state.session) :
    (∃ enough, ∀ rounds, enough ≤ rounds →
        ((smbReconnectUntilReady rounds).run.exec e.respond s).1.isSome) ↔
      s.host.state.session.logonValid = false ∨ s.host.state.session.openshareValid = false ∨
        ∀ fh, v.Reopens (s.host.state.handle fh) := by
  rw [← ready_iff]
  cases hvalid : s.host.state.session.logonValid with
  | false =>
      refine iff_of_true ⟨1, fun rounds hrounds => ?_⟩ (Or.inl rfl)
      exact Dialogue.Ends.isSome (smbReconnectUntilReady_unlogged hvalid hrounds)
  | true =>
      rw [or_iff_right nofun]
      by_cases hready : v.Ready s.host.state
      · refine iff_of_true ⟨N + 1, fun rounds hrounds => ?_⟩ hready
        exact Dialogue.Ends.isSome (smbReconnectUntilReady_ends he hvalid ha hready (by omega))
      · refine iff_of_false ?_ hready
        rintro ⟨enough, hreturns⟩
        have hstuck := smbReconnectUntilReady_stuck he hvalid ha hready enough
        have hsome := hreturns enough (Nat.le_refl _)
        rw [show ((smbReconnectUntilReady enough).run.exec e.respond s).1 = none from hstuck] at hsome
        cases hsome

end Restore

/-! ## One open file -/

/-- A server that grants everything but opens, which get the status `opened`. -/
def Server.opening (opened : Nat) : Server where
  userLevel := true
  ntSmbs := false
  logOn _ _ := statusSuccess
  tree _ _ := statusSuccess
  openFile _ _ := opened
  query _ _ := statusSuccess

def Network.opening (opened : Nat) : Network where
  answer
    | _, .openFile _ _ _ _ => .reply { granted with status := opened }
    | _, .ntCreate _ _ _ _ => .reply { granted with status := opened }
    | _, _ => .reply granted
  up _ := true

theorem opening_serves (opened : Nat) : (Network.opening opened).Serves (.opening opened) 0 where
  answers n request hrequest := by
    refine Or.inl ?_
    cases request with
    | negotiate retry => exact ⟨granted, rfl, rfl, rfl, rfl, rfl⟩
    | sessionSetup anonymous lm => exact ⟨granted, rfl, rfl⟩
    | treeConnect uid share lm => exact ⟨granted, rfl, rfl⟩
    | ntCreate uid tid path mode => exact ⟨_, rfl, rfl⟩
    | openFile uid tid path mode => exact ⟨_, rfl, rfl⟩
    | queryPathInformation uid tid path standard => exact ⟨granted, rfl, rfl⟩
    | _ => cases hrequest
  connects _ := Or.inl rfl

/-- Logged on to the share, with one file open. -/
def oneOpen : Station where
  host :=
    { state := { initialState with
        session := ⟨some 1, some 1, true, true, shareName, false, false⟩
        handles := ⟨true, some 1, 8, 0, readOnly, fileName⟩ :: List.replicate 31 noHandle }
      connected := true
      trace := [] }
  clock := 0

theorem oneOpen_accepts (opened : Nat) : (Server.opening opened).Accepts oneOpen.host.state.session where
  logOn := Or.inl (Or.inl rfl)
  tree _ := ⟨shareName, [], by decide, Or.inl rfl⟩

theorem oneOpen_reopens {opened : Nat} :
    (∀ fh, (Server.opening opened).Reopens (oneOpen.host.state.handle fh)) ↔ opened = statusSuccess := by
  constructor
  · exact fun h => (h 0 rfl rfl).1
  · rintro rfl fh - -
    exact ⟨rfl, fun _ => ⟨rfl, rfl⟩⟩

/-- The file is still there. -/
theorem reconnect_returns_present : ∃ enough, ∀ rounds, enough ≤ rounds →
    ((smbReconnectUntilReady rounds).run.exec (Network.opening statusSuccess).respond oneOpen).1.isSome :=
  (reconnect_returns_iff (opening_serves statusSuccess) (oneOpen_accepts statusSuccess)).mpr
    (Or.inr (Or.inr (oneOpen_reopens.mpr rfl)))

/-- `STATUS_OBJECT_NAME_NOT_FOUND` -/
def statusNameNotFound : Nat := 0xc0000034

/-- The file has been deleted on the server meanwhile. -/
theorem reconnect_deleted_never_returns :
    (Network.opening statusNameNotFound).Serves (.opening statusNameNotFound) 0 ∧
      (Server.opening statusNameNotFound).Accepts oneOpen.host.state.session ∧
      ∀ rounds, ((smbReconnectUntilReady rounds).run.exec
        (Network.opening statusNameNotFound).respond oneOpen).1 = none := by
  refine ⟨opening_serves _, oneOpen_accepts _, fun rounds => ?_⟩
  refine smbReconnectUntilReady_stuck (opening_serves _) rfl (oneOpen_accepts _) (fun hready => ?_) rounds
  have hopens := oneOpen_reopens.mp (hready rfl)
  revert hopens
  decide

end BdmAssault.Smb.Driver
