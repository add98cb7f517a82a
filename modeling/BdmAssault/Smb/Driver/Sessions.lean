import BdmAssault.Smb.Driver.Transfers

/-! # Consistency of the session

The identifiers of the session and the tree belong to the open connection, and the data
kept for a reconnect to a log-on.
-/

namespace BdmAssault.Smb.Driver

open Lib

/-! ## Identifiers of the current connection -/

/-- What happened on the current connection. -/
def current (trace : List Event) : List Event := trace.takeWhile Event.isExchange

/-- In an exchange on the current connection. What the server has issued is known by the packets
that were taken for its replies; whether a packet is the reply to its request is the matter of
`Pairing`. -/
def Issued (P : Event → Prop) (trace : List Event) : Prop := ∃ e ∈ current trace, P e

/-- A session setup that was granted with this identifier. -/
def Event.IssuesUid (uid : Nat) : Event → Prop
  | .exchange _ (.sessionSetup _ _) got => ∃ r, got.granted = some r ∧ r.uid = uid
  | _ => False

/-- A tree connect under `uid` that was granted with this identifier. -/
def Event.IssuesTid (uid tid : Nat) : Event → Prop
  | .exchange _ (.treeConnect (some uid') _ _) got =>
      uid' = uid ∧ ∃ r, got.granted = some r ∧ r.tid = tid
  | _ => False

/-- `socket`, `user` and `share` say where the identifiers come from. -/
structure Consistent (s : Host) : Prop where
  tree : s.state.session.tid ≠ none → s.state.session.uid ≠ none
  socket : s.state.session.uid ≠ none → s.connected = true
  user : ∀ uid, s.state.session.uid = some uid → Issued (Event.IssuesUid uid) s.trace
  share : ∀ uid tid, s.state.session.uid = some uid → s.state.session.tid = some tid →
    Issued (Event.IssuesTid uid tid) s.trace
  keepalive : s.state.session.keepaliveLocked = false → s.state.session.logonValid = true
  openshare : s.state.session.openshareValid = true → s.state.session.logonValid = true

/-- No tree is given to a client without a session. -/
def Event.owned : Event → Bool
  | .exchange _ (.treeConnect none _ _) got => got.granted.isNone
  | _ => true

def Event.Owned (e : Event) : Prop := e.owned = true

instance (e : Event) : Decidable e.Owned := inferInstanceAs (Decidable (e.owned = true))

/-- A granted end of the old session, or a granted new one. -/
def Event.Relogs : Event → Prop
  | .exchange _ (.logOff _) got => got.granted.isSome
  | .exchange _ (.sessionSetup _ _) got => got.granted.isSome
  | _ => False

/-- A log-on over a session ends the old session or gets a new one. -/
def Relogged (s : Host) (t : Turn) : Prop :=
  ∀ anonymous, t.op = .logOn anonymous → s.state.session.uid ≠ none → ∃ e ∈ s.events t, e.Relogs

/-! ## The invariant -/

/-- A session has the data to log on again. -/
structure Sound (s : Host) : Prop extends Consistent s where
  logon : s.state.session.uid ≠ none → s.state.session.logonValid = true

/-- After steps that leave the session and the connection alone. -/
structure Linked (s s' : Host) : Prop where
  session : s'.state.session = s.state.session
  connected : s'.connected = s.connected
  events : ∃ events, s'.trace = events ++ s.trace ∧ ∀ e ∈ events, e.isExchange = true

section Linked

variable {s s' s'' : Host}

theorem Linked.refl (s : Host) : Linked s s :=
  ⟨rfl, rfl, [], rfl, fun _ he => absurd he List.not_mem_nil⟩

theorem Linked.trans (h : Linked s s') (h' : Linked s' s'') : Linked s s'' := by
  obtain ⟨events, htrace, hexchange⟩ := h.events
  obtain ⟨events', htrace', hexchange'⟩ := h'.events
  refine ⟨h'.session.trans h.session, h'.connected.trans h.connected, events' ++ events, ?_, ?_⟩
  · rw [htrace', htrace, List.append_assoc]
  · intro e he
    exact (List.mem_append.mp he).elim (hexchange' e) (hexchange e)

theorem current_append {events trace : List Event} (h : ∀ e ∈ events, e.isExchange = true) :
    current (events ++ trace) = events ++ current trace := List.takeWhile_append_of_pos h

theorem Issued.linked {P : Event → Prop} (h : Issued P s.trace) (hl : Linked s s') :
    Issued P s'.trace := by
  obtain ⟨e, he, hP⟩ := h
  obtain ⟨events, htrace, hexchange⟩ := hl.events
  refine ⟨e, ?_, hP⟩
  rw [htrace, current_append hexchange]
  exact List.mem_append_right _ he

theorem Sound.linked (h : Sound s) (hl : Linked s s') : Sound s' := by
  refine ⟨⟨?_, ?_, fun uid huid => ?_, fun uid tid huid htid => ?_, ?_, ?_⟩, ?_⟩
  · rw [hl.session]
    exact h.tree
  · rw [hl.session, hl.connected]
    exact h.socket
  · rw [hl.session] at huid
    exact (h.user uid huid).linked hl
  · rw [hl.session] at huid htid
    exact (h.share uid tid huid htid).linked hl
  · rw [hl.session]
    exact h.keepalive
  · rw [hl.session]
    exact h.openshare
  · rw [hl.session]
    exact h.logon

theorem issued_extend {P : Event → Prop} {events : List Event} {e : Event}
    (h : ∀ e ∈ events, e.isExchange = true) (he : e ∈ events) (hP : P e) :
    Issued P (s.extend events).trace := by
  refine ⟨e, ?_, hP⟩
  rw [Host.extend_trace, current_append h]
  exact List.mem_append_left _ he

theorem linked_extend {events : List Event} (h : ∀ e ∈ events, e.isExchange = true) :
    Linked s (s.extend events) := ⟨rfl, rfl, events, rfl, h⟩

theorem linked_record {caller : Caller} {request : Request} {got : Got} :
    Linked s (s.record (.exchange caller request got)) := by
  refine ⟨rfl, rfl, [.exchange caller request got], rfl, fun e he => ?_⟩
  rw [List.mem_singleton] at he
  subst he
  rfl

theorem linked_modify {g : State → State} (h : ∀ x, (g x).session = x.session) :
    Linked s (s.modify g) := ⟨h s.state, rfl, [], rfl, fun _ he => absurd he List.not_mem_nil⟩

end Linked

/-! ## Requests -/

/-- As long as no tree is given to a client without a session. -/
def Secures {α : Type} (s : Host) (m : Call α) (Q : Except Errno α → Host → Prop) : Prop :=
  Ensures Event.Owned (fun _ => True) s m Q

def KeepsSession (g : State → State) : Prop := ∀ s, (g s).session = s.session

section Requests

variable {α β : Type} {s : Host} {caller : Caller}

theorem ensures_linked {C : Event → Prop} {m : Call α}
    (hm : m.Uses (Within (fun _ => True) KeepsSession)) :
    Ensures C (fun _ => True) s m fun _ s' => Linked s s' := by
  refine ensures_within Linked.refl (fun _ _ _ => Linked.trans) ?_ ?_ (fun _ _ => trivial) hm
  · exact fun s caller request got _ _ => linked_record
  · exact fun s g hg => linked_modify hg

theorem smbTreeConnectAndX_issued (uid : Option Nat) (share : Name) :
    Secures s (smbTreeConnectAndX caller uid share) fun r s' => Linked s s' ∧
      ∀ tid, r = .ok tid → ∃ u, uid = some u ∧ Issued (Event.IssuesTid u tid) s'.trace := by
  refine Ensures.bind (authenticate_ensures fun _ _ => trivial) ?_ ?_
  · rintro r _ ⟨events, rfl, howned, hauth⟩
    refine ensures_pure ⟨linked_extend hauth.exchanges, fun tid htid => ?_⟩
    cases htid
    obtain ⟨-, lm, got, hmem, hgranted⟩ := hauth.granted r rfl
    cases uid with
    | none =>
        have hnone : got.granted.isNone = true := howned _ hmem
        rw [Option.isNone_iff_eq_none.mp hnone] at hgranted
        cases hgranted
    | some u => exact ⟨u, rfl, issued_extend hauth.exchanges hmem ⟨rfl, r, hgranted, rfl⟩⟩
  · rintro e _ ⟨events, rfl, -, hauth⟩
    exact ⟨linked_extend hauth.exchanges, nofun⟩

theorem smbSessionSetupAndX_issued (anonymous : Bool) :
    Secures s (smbSessionSetupAndX caller anonymous) fun r s' => ∃ events, s' = s.extend events ∧
      (∀ e ∈ events, e.isExchange = true) ∧
      (∀ uid, r = .ok uid → s.connected = true ∧ ∃ e ∈ events, e.IssuesUid uid) ∧
      ((∃ e, r = .error e) → ∀ e ∈ events, ¬ e.Relogs) := by
  refine Ensures.bind (authenticate_ensures fun _ _ => trivial) ?_ ?_
  · rintro r _ ⟨events, rfl, -, hauth⟩
    refine ensures_pure ⟨events, rfl, hauth.exchanges, fun uid huid => ?_, ?_⟩
    · cases huid
      obtain ⟨hc, lm, got, hmem, hgranted⟩ := hauth.granted r rfl
      exact ⟨hc, _, hmem, r, hgranted, rfl⟩
    · rintro ⟨e, he⟩
      cases he
  · rintro e _ ⟨events, rfl, -, hauth⟩
    refine ⟨events, rfl, hauth.exchanges, nofun, fun _ e' he' => ?_⟩
    obtain ⟨lm, got, rfl, hreply⟩ := hauth.sends e' he'
    intro hgranted
    obtain ⟨reply, hreply'⟩ := Option.isSome_iff_exists.mp hgranted
    cases hreply reply hreply'

theorem fallback_uses {P : Request → Prop} {M : (State → State) → Prop} {anonymous : Bool}
    (h : ∀ anonymous lm, P (.sessionSetup anonymous lm)) :
    (smbSessionSetupWithAnonymousFallback caller anonymous).Uses (Within P M) := by
  refine (smbSessionSetupAndX_uses (h anonymous)).result.bind fun r => ?_
  cases r with
  | ok uid => exact Fallible.uses_pure _
  | error e =>
      refine Fallible.uses_ite ((smbSessionSetupAndX_uses (h false)).bind fun _ => ?_)
        (Fallible.uses_throw _)
      exact Fallible.uses_pure _

/-- `smb_SessionSetupWithAnonymousFallback`: the identifier is that of a granted setup, and
without one nothing was granted. -/
structure SetUp (s : Host) (r : Except Errno (Nat × Bool)) (events : List Event) : Prop where
  exchanges : ∀ e ∈ events, e.isExchange = true
  issued : ∀ uid fallback, r = .ok (uid, fallback) →
    s.connected = true ∧ ∃ e ∈ events, e.IssuesUid uid
  refused : (∃ e, r = .error e) → ∀ e ∈ events, ¬ e.Relogs

theorem fallback_issued (anonymous : Bool) :
    Secures s (smbSessionSetupWithAnonymousFallback caller anonymous) fun r s' =>
      ∃ events, s' = s.extend events ∧ SetUp s r events := by
  refine Ensures.result (smbSessionSetupAndX_issued anonymous) ?_
  rintro r _ ⟨events, rfl, hexchange, hissued, hrefused⟩
  cases r with
  | ok uid =>
      refine ensures_pure ⟨events, rfl, hexchange, fun uid' fallback h => ?_, ?_⟩
      · cases h
        exact hissued uid rfl
      · rintro ⟨e, he⟩
        cases he
  | error e =>
      dsimp only
      split
      · refine Ensures.bind (smbSessionSetupAndX_issued false) ?_ ?_
        · rintro uid _ ⟨events', rfl, hexchange', hissued', -⟩
          rw [s.extend_extend]
          refine ensures_pure ⟨events' ++ events, rfl, ?_, fun uid' fallback h => ?_, ?_⟩
          · exact fun e he => (List.mem_append.mp he).elim (hexchange' e) (hexchange e)
          · cases h
            obtain ⟨hc, e, he, hissues⟩ := hissued' uid rfl
            exact ⟨hc, e, List.mem_append_left _ he, hissues⟩
          · rintro ⟨e, he⟩
            cases he
        · rintro e' _ ⟨events', rfl, hexchange', -, hrefused'⟩
          rw [s.extend_extend]
          refine ⟨events' ++ events, rfl, ?_, nofun, fun _ e he => ?_⟩
          · exact fun e he => (List.mem_append.mp he).elim (hexchange' e) (hexchange e)
          · exact (List.mem_append.mp he).elim (hrefused' ⟨e', rfl⟩ e) (hrefused ⟨_, rfl⟩ e)
      · exact ensures_throw ⟨events, rfl, hexchange, nofun, fun _ => hrefused ⟨_, rfl⟩⟩

end Requests

/-! ## Trees -/

section Trees

variable {s : Host}

theorem Sound.leave (h : Sound s) (g : Session → Session)
    (hg : ∀ x, (g x).uid = x.uid ∧ (g x).tid = none ∧ (g x).logonValid = x.logonValid ∧
      ((g x).openshareValid = true → x.openshareValid = true) ∧
      (g x).keepaliveLocked = x.keepaliveLocked) :
    Sound (s.modify fun x => { x with session := g x.session }) := by
  obtain ⟨huid, htid, hvalid, hshare, hlocked⟩ := hg s.state.session
  refine ⟨⟨fun hne => absurd htid hne, fun hne => h.socket (huid ▸ hne), fun uid h' => ?_,
    fun uid tid _ h' => ?_, fun h' => ?_, fun h' => ?_⟩, fun hne => ?_⟩
  · exact h.user uid (huid.symm.trans h')
  · cases htid.symm.trans h'
  · exact hvalid.trans (h.keepalive (hlocked.symm.trans h'))
  · exact hvalid.trans (h.openshare (hshare h'))
  · exact hvalid.trans (h.logon (huid ▸ hne))

theorem Sound.enter (h : Sound s) {u : Nat} (huid : s.state.session.uid = some u)
    (g : Session → Session) (hg : ∀ x, (g x).uid = x.uid ∧ (g x).logonValid = x.logonValid ∧
      (g x).keepaliveLocked = x.keepaliveLocked)
    (htid : ∀ tid, (g s.state.session).tid = some tid → Issued (Event.IssuesTid u tid) s.trace) :
    Sound (s.modify fun x => { x with session := g x.session }) := by
  obtain ⟨hguid, hvalid, hlocked⟩ := hg s.state.session
  have hsome : (g s.state.session).uid ≠ none := by
    rw [hguid, huid]
    nofun
  have hlogon : (g s.state.session).logonValid = true :=
    hvalid.trans (h.logon (by rw [huid]; nofun))
  refine ⟨⟨fun _ => hsome, fun hne => h.socket (hguid ▸ hne), fun uid hu => ?_, fun uid tid hu ht => ?_,
    fun _ => hlogon, fun _ => hlogon⟩, fun _ => hlogon⟩
  · exact h.user uid (hguid.symm.trans hu)
  · cases huid.symm.trans (hguid.symm.trans hu)
    exact htid tid ht

def State.leaveTree (x : State) : State := { x with session := { x.session with tid := none } }

/-- The tree is left, whatever the server says. -/
theorem leaveTree_ensures {C : Event → Prop} :
    Ensures C (fun _ => True) s leaveTree fun r s' => r = .ok () ∧
      ∃ s₁, Linked s s₁ ∧ s' = s₁.modify State.leaveTree := by
  refine Ensures.getSession trivial ?_
  split
  · refine (ensures_linked (smbTreeDisconnect_uses trivial)).result fun r s₁ h₁ => ?_
    exact ensures_modify trivial ⟨rfl, s₁, h₁, rfl⟩
  · rename_i hnone
    have htid : s.state.session.tid = none := by simpa using hnone
    have hstate : s.state.leaveTree = s.state := by
      unfold State.leaveTree
      rw [← htid]
    refine ensures_pure ⟨rfl, s, Linked.refl s, ?_⟩
    unfold Host.modify
    rw [hstate]

theorem leaveTree_sound (h : Sound s) : Secures s leaveTree fun r s' => r = .ok () ∧ Sound s' ∧
    s'.state.session = { s.state.session with tid := none } := by
  refine leaveTree_ensures.mono ?_
  rintro r _ ⟨hr, s₁, hl, rfl⟩
  refine ⟨hr, ?_, ?_⟩
  · exact (h.linked hl).leave (fun x => { x with tid := none }) fun _ => ⟨rfl, rfl, rfl, id, rfl⟩
  · show { s₁.state.session with tid := none } = _
    rw [hl.session]

theorem smbOpenShare_sound (h : Sound s) (caller : Caller) (configured : Name) :
    Secures s (smbOpenShare caller configured) fun _ s' => Sound s' ∧
      s'.state.session.logonValid = s.state.session.logonValid := by
  unfold smbOpenShare
  split
  · exact ensures_throw ⟨h, rfl⟩
  · rename_i share root _
    refine Ensures.bind (leaveTree_sound h) ?_ ?_
    · rintro _ s₁ ⟨-, h₁, hsession⟩
      refine Ensures.getSession trivial ?_
      refine Ensures.bind (smbTreeConnectAndX_issued _ _) ?_ ?_
      · rintro tid s₂ ⟨hl, hissued⟩
        obtain ⟨u, hu, hu'⟩ := hissued tid rfl
        have h₂ := h₁.linked hl
        have huid : s₂.state.session.uid = some u := by rw [hl.session, hu]
        have hvalid : s₂.state.session.logonValid = s.state.session.logonValid := by
          rw [hl.session, hsession]
        have h₃ := h₂.enter huid (fun x => { x with tid := some tid }) (fun _ => ⟨rfl, rfl, rfl⟩)
          fun tid' htid' => by cases htid'; exact hu'
        refine Ensures.modify trivial (Ensures.modify trivial (ensures_modify trivial ⟨?_, hvalid⟩))
        have h₄ := h₃.linked (linked_modify (g := fun x => { x with curdir := root }) fun _ => rfl)
        refine h₄.enter huid (fun x => { x with openshare := configured, openshareValid := true })
          (fun _ => ⟨rfl, rfl, rfl⟩) fun tid' htid' => ?_
        cases htid'
        exact hu'
      · rintro e s₂ ⟨hl, -⟩
        exact ⟨h₁.linked hl, by rw [hl.session, hsession]⟩
    · rintro e s₁ ⟨he, -⟩
      cases he

theorem smbGetShareList_sound (h : Sound s) (maxent : Nat) :
    Secures s (smbGetShareList maxent) fun _ s' => Sound s' := by
  refine Ensures.bind (leaveTree_sound h) ?_ ?_
  · rintro _ s₁ ⟨-, h₁, -⟩
    refine Ensures.getSession trivial ?_
    refine Ensures.bind (smbTreeConnectAndX_issued _ _) ?_ fun e s₂ h₂ => h₁.linked h₂.1
    rintro tid s₂ ⟨hl, hissued⟩
    obtain ⟨u, hu, hu'⟩ := hissued tid rfl
    have huid : s₂.state.session.uid = some u := by rw [hl.session, hu]
    refine Ensures.modify trivial ?_
    have h₃ := (h₁.linked hl).enter huid (fun x => { x with tid := some tid })
      (fun _ => ⟨rfl, rfl, rfl⟩) fun tid' htid' => by cases htid'; exact hu'
    split
    · exact ensures_throw h₃
    · refine Ensures.bind (ensures_linked (smbNetShareEnum_uses trivial)) ?_ fun e s₄ h₄ => h₃.linked h₄
      intro shares s₄ h₄
      refine Ensures.bind (ensures_linked (listShares_uses trivial _)) ?_
        fun e s₅ h₅ => (h₃.linked h₄).linked h₅
      intro shareindex s₅ h₅
      refine Ensures.bind (ensures_linked (smbTreeDisconnect_uses trivial)) ?_
        fun e s₆ h₆ => ((h₃.linked h₄).linked h₅).linked h₆
      intro _ s₆ h₆
      refine Ensures.modify trivial (ensures_pure ?_)
      exact (((h₃.linked h₄).linked h₅).linked h₆).leave (fun x => { x with tid := none })
        fun _ => ⟨rfl, rfl, rfl, id, rfl⟩
  · rintro e s₁ ⟨he, -⟩
    cases he

end Trees

/-! ## Functions that leave the session alone -/

section Local

variable {P : Request → Prop}

theorem modifyHandle_uses (fh : Nat) (g : Handle → Handle) :
    (modifyHandle fh g).Uses (Within P KeepsSession) := modifyState_uses fun _ => rfl

theorem readAheadInvalidate_uses (fh : Option Nat) :
    (readAheadInvalidate fh).Uses (Within P KeepsSession) := modifyState_uses fun _ => rfl

theorem smbReopenHandles_uses (slots : List Nat) :
    (smbReopenHandles slots).Uses (Within (fun _ => True) KeepsSession) := by
  induction slots with
  | nil => exact Fallible.uses_pure _
  | cons fh rest ih =>
      refine getState_uses.bind fun s => Fallible.uses_ite ih ?_
      refine Fallible.uses_ite ((modifyHandle_uses fh _).bind fun _ => ih) ?_
      refine (smbOpenAndX_uses trivial trivial fun _ => trivial).bind fun r => ?_
      exact (modifyHandle_uses fh _).bind fun _ => ih

theorem smbOpen_uses (filename : Name) (mode : OpenMode) :
    (smbOpen filename mode).Uses (Within (fun _ => True) KeepsSession) := by
  refine withPath_uses fun path => getState_uses.bind fun s => ?_
  split
  · exact Fallible.uses_throw _
  · refine (readAheadInvalidate_uses _).bind fun _ => ?_
    refine (smbOpenAndX_uses trivial trivial fun _ => trivial).bind fun r => ?_
    exact (modifyHandle_uses _ _).bind fun _ => Fallible.uses_pure _

theorem smbDopen_uses (dirname : Name) :
    (smbDopen dirname).Uses (Within (fun _ => True) KeepsSession) := by
  refine withPath_uses fun path => getState_uses.bind fun s => ?_
  refine (smbQueryPathInformation_uses fun _ => trivial).bind fun info => ?_
  refine Fallible.uses_ite (getState_uses.bind fun s => ?_) (Fallible.uses_throw _)
  split
  · exact Fallible.uses_throw _
  · exact (modifyHandle_uses _ _).bind fun _ => Fallible.uses_pure _

theorem smbCloseFile_uses (fh : Nat) :
    (smbCloseFile fh).Uses (Within (fun _ => True) KeepsSession) := by
  refine getState_uses.bind fun s => Fallible.uses_ite (Fallible.uses_throw _) ?_
  have hrest : (do readAheadInvalidate (some fh); modifyHandle fh fun _ => noHandle : Call Unit).Uses
      (Within (fun _ => True) KeepsSession) :=
    (readAheadInvalidate_uses _).bind fun _ => modifyHandle_uses _ _
  exact Fallible.uses_ite ((smbClose_uses trivial).bind fun _ => hrest) hrest

theorem smbDread_uses (fh : Nat) : (smbDread fh).Uses (Within (fun _ => True) KeepsSession) := by
  refine getState_uses.bind fun s => Fallible.uses_ite (Fallible.uses_throw _) ?_
  split
  · exact (smbFindFirstNext2_uses trivial).bind fun _ => modifyHandle_uses _ _
  · exact (smbFindFirstNext2_uses trivial).bind fun _ => Fallible.uses_pure _

theorem smbLseek64_uses (fh : Nat) (pos : Int) (whence : Whence) :
    (smbLseek64 fh pos whence).Uses (Within (fun _ => True) KeepsSession) := by
  refine getState_uses.bind fun s => Fallible.uses_ite (Fallible.uses_throw _) ?_
  exact (modifyHandle_uses _ _).bind fun _ => Fallible.uses_pure _

end Local

/-! ## Sharing and logging off -/

section LogOff

variable {s : Host}

/-- Nothing of a session, and no data to log on again that the keep-alive thread could
use. -/
def Session.ended (x : Session) : Prop :=
  x.uid = none ∧ x.tid = none ∧ x.openshareValid = false ∧ x.keepaliveLocked = true

theorem Session.ended.sound (h : s.state.session.ended) : Sound s := by
  obtain ⟨huid, htid, hshare, hlocked⟩ := h
  refine ⟨⟨fun hne => absurd htid hne, fun hne => absurd huid hne, fun uid hu => ?_,
    fun uid tid _ ht => ?_, fun h' => ?_, fun h' => ?_⟩, fun hne => absurd huid hne⟩
  · cases huid.symm.trans hu
  · cases htid.symm.trans ht
  · cases hlocked.symm.trans h'
  · cases hshare.symm.trans h'

/-- The events since `s` end no session and begin none. -/
def Unchanged (s s' : Host) : Prop :=
  ∃ events, s'.trace = events ++ s.trace ∧ ∀ e ∈ events, ¬ e.Relogs

theorem Unchanged.refl (s : Host) : Unchanged s s :=
  ⟨[], rfl, fun _ he => absurd he List.not_mem_nil⟩

theorem Unchanged.trans {s' s'' : Host} (h : Unchanged s s') (h' : Unchanged s' s'') :
    Unchanged s s'' := by
  obtain ⟨events, htrace, hnone⟩ := h
  obtain ⟨events', htrace', hnone'⟩ := h'
  refine ⟨events' ++ events, by rw [htrace', htrace, List.append_assoc], fun e he => ?_⟩
  exact (List.mem_append.mp he).elim (hnone' e) (hnone e)

theorem unchanged_record {e : Event} (h : ¬ e.Relogs) : Unchanged s (s.record e) := by
  refine ⟨[e], rfl, fun e' he' => ?_⟩
  rw [List.mem_singleton] at he'
  subst he'
  exact h

/-- Requests that end no session and begin none. -/
def Request.Quiet : Request → Prop
  | .logOff _ => False
  | .sessionSetup _ _ => False
  | _ => True

theorem secures_quiet {α : Type} {m : Call α} (hm : m.Uses (Within Request.Quiet KeepsSession)) :
    Secures s m fun _ s' => Linked s s' ∧ Unchanged s s' := by
  refine ensures_within (T := fun s s' => Linked s s' ∧ Unchanged s s')
    (fun s => ⟨Linked.refl s, Unchanged.refl s⟩) (fun _ _ _ h h' => ⟨h.1.trans h'.1, h.2.trans h'.2⟩)
    ?_ (fun s g hg => ⟨linked_modify hg, Unchanged.refl s⟩) (fun _ _ => trivial) hm
  intro s caller request got hquiet _
  refine ⟨linked_record, unchanged_record fun h => ?_⟩
  cases request with
  | logOff _ => exact hquiet
  | sessionSetup _ _ => exact hquiet
  | _ => exact h

theorem smbNegotiateProtocol_quiet (caller : Caller) :
    (smbNegotiateProtocol caller).Uses (Within Request.Quiet KeepsSession) :=
  negotiateRetry_uses (fun _ => trivial) (fun _ _ _ => rfl) 3

theorem closeSlots_quiet (slots : List Nat) : ∀ {s : Host},
    Secures s (closeSlots slots) fun r s' => r = .ok () ∧ Linked s s' ∧ Unchanged s s' := by
  induction slots with
  | nil => exact fun {s} => ensures_pure ⟨rfl, Linked.refl s, Unchanged.refl s⟩
  | cons fh rest ih =>
      intro s
      refine Ensures.get trivial ?_
      dsimp only
      split
      · exact ih
      · refine (secures_quiet (smbClose_uses trivial)).result ?_
        rintro _ s₁ ⟨hl₁, hu₁⟩
        refine ih.mono ?_
        rintro r s₂ ⟨hr, hl₂, hu₂⟩
        exact ⟨hr, hl₁.trans hl₂, hu₁.trans hu₂⟩

theorem smbCloseAll_quiet :
    Secures s smbCloseAll fun r s' => r = .ok () ∧ Linked s s' ∧ Unchanged s s' := by
  refine Ensures.modify trivial (Ensures.get trivial ((closeSlots_quiet _).mono ?_))
  rintro r s' ⟨hr, hl, hu⟩
  refine ⟨hr, Linked.trans (linked_modify ?_) hl, hu⟩
  exact fun _ => rfl

theorem smbCloseShare_sound (h : Sound s) : Secures s smbCloseShare fun _ s' => Sound s' := by
  refine Ensures.getSession trivial ?_
  split
  · exact ensures_throw h
  · refine Ensures.bind smbCloseAll_quiet ?_ fun e s₁ h₁ => h.linked h₁.2.1
    rintro _ s₁ ⟨-, h₁, -⟩
    refine Ensures.bind (ensures_linked (smbTreeDisconnect_uses trivial)) ?_
      fun e s₂ h₂ => (h.linked h₁).linked h₂
    intro _ s₂ h₂
    refine ensures_modify trivial (((h.linked h₁).linked h₂).leave
      (fun x => { x with tid := none, openshareValid := false }) fun _ => ⟨rfl, rfl, rfl, nofun, rfl⟩)

theorem closeTree_sound (h : Sound s) : Secures s closeTree fun r s' => r = .ok () ∧ Sound s' ∧
    Unchanged s s' ∧ s'.state.session = { s.state.session with tid := none } := by
  refine Ensures.getSession trivial ?_
  split
  · rename_i hsome
    refine Ensures.bind smbCloseAll_quiet ?_ ?_
    · rintro _ s₁ ⟨-, hl₁, hu₁⟩
      refine Ensures.getSession trivial ?_
      rw [hl₁.session, if_pos hsome]
      refine (secures_quiet (smbTreeDisconnect_uses trivial)).result ?_
      rintro _ s₂ ⟨hl₂, hu₂⟩
      refine ensures_modify trivial ⟨rfl, ?_, hu₁.trans hu₂, ?_⟩
      · exact ((h.linked hl₁).linked hl₂).leave (fun x => { x with tid := none })
          fun _ => ⟨rfl, rfl, rfl, id, rfl⟩
      · show { s₂.state.session with tid := none } = _
        rw [hl₂.session, hl₁.session]
    · rintro e s₁ ⟨he, -⟩
      cases he
  · rename_i hnone
    have htid : s.state.session.tid = none := by simpa using hnone
    exact ensures_pure ⟨rfl, h, Unchanged.refl s, by rw [← htid]⟩

/-- A log-off that is not granted leaves the session as it is, without a tree. -/
theorem smbLogOff_sound (h : Sound s) (caller : Caller) :
    Secures s (smbLogOff caller) fun _ s' => Sound s' ∧ s'.state.session.tid = none ∧
      (s'.state.session.uid = none ∨ Unchanged s s') := by
  refine Ensures.getSession trivial ?_
  split
  · rename_i huid
    refine ensures_throw ⟨h, ?_, Or.inl huid⟩
    cases htid : s.state.session.tid with
    | none => rfl
    | some tid => exact absurd huid (h.tree (by rw [htid]; nofun))
  · refine Ensures.bind (closeTree_sound h) ?_ ?_
    · rintro _ s₁ ⟨-, h₁, hu₁, hsession⟩
      have htid : s₁.state.session.tid = none := by rw [hsession]
      refine Ensures.bind (R := fun r s₂ => Linked s₁ s₂ ∧ (r = .ok () ∨ Unchanged s₁ s₂))
        (ensures_checked checkSuccess_ensures (fun _ got _ => ⟨trivial, fun res hres => ?_⟩)
          fun _ => ⟨trivial, Linked.refl s₁, Or.inr (Unchanged.refl s₁)⟩) ?_ ?_
      · refine ⟨linked_record, ?_⟩
        by_cases hgranted : got.granted.isSome = true
        · exact Or.inl (hres.mpr hgranted)
        · exact Or.inr (unchanged_record hgranted)
      · rintro _ s₂ ⟨hl₂, -⟩
        have htid₂ : s₂.state.session.tid = none := by rw [hl₂.session, htid]
        refine Ensures.modify trivial (ensures_disconnect trivial ⟨?_, htid₂, Or.inl rfl⟩)
        exact Session.ended.sound ⟨rfl, htid₂, rfl, rfl⟩
      · rintro e s₂ ⟨hl₂, hu₂⟩
        refine ⟨h₁.linked hl₂, by rw [hl₂.session, htid], Or.inr (hu₁.trans (hu₂.resolve_left nofun))⟩
    · rintro e s₁ ⟨he, -⟩
      cases he

end LogOff

/-! ## Logging on -/

section LogOn

variable {α : Type} {s : Host}

theorem smbConnect_ensures {C : Event → Prop} : Ensures C (fun _ => True) s smbConnect fun _ s' =>
    s'.state = s.state ∧ Unchanged s s' := by
  refine Ensures.disconnect trivial ?_
  refine Ensures.bind (R := fun _ s' => s'.state = s.state ∧ Unchanged s s')
    (ensures_connect fun up _ => ⟨trivial, rfl, ?_⟩) ?_ fun _ _ h => h
  · exact (unchanged_record (e := .disconnect) id).trans
      (unchanged_record (s := s.dropped) (e := .connect up) id)
  · intro up s' h
    split
    · exact ensures_pure h
    · exact ensures_throw h

theorem orFail_secures {m : Call α} {e : Errno} {R : Except Errno α → Host → Prop}
    (hm : Secures s m R) : Secures s (orFail m e) fun r s' =>
      (∀ a, r = .ok a → R (.ok a) s') ∧ ((∃ e', r = .error e') → ∃ e', R (.error e') s') := by
  refine Ensures.result hm fun r s' h => ?_
  cases r with
  | ok a =>
      refine ensures_pure ⟨fun a' ha => ?_, ?_⟩
      · cases ha
        exact h
      · rintro ⟨e', he⟩
        cases he
  | error e' => exact ensures_throw ⟨nofun, fun _ => ⟨e', h⟩⟩

/-- A session that was set up on this connection, without a tree. -/
theorem Sound.setUp {u : Nat} (hc : s.connected = true)
    (hissued : Issued (Event.IssuesUid u) s.trace) (huid : s.state.session.uid = some u)
    (htid : s.state.session.tid = none) (hvalid : s.state.session.logonValid = true) : Sound s := by
  refine ⟨⟨fun hne => absurd htid hne, fun _ => hc, fun uid hu => ?_, fun uid tid _ ht => ?_,
    fun _ => hvalid, fun _ => hvalid⟩, fun _ => hvalid⟩
  · cases huid.symm.trans hu
    exact hissued
  · cases htid.symm.trans ht

/-- Without a session only the data for a reconnect counts. -/
theorem Sound.of_session {s' : Host} (h : Sound s) (huid : s.state.session.uid = none)
    (hsession : s'.state.session = s.state.session) : Sound s' := by
  have htid : s.state.session.tid = none := by
    cases htid : s.state.session.tid with
    | none => rfl
    | some tid => exact absurd huid (h.tree (by rw [htid]; nofun))
  refine ⟨⟨fun hne => ?_, fun hne => ?_, fun uid hu => ?_, fun uid tid _ ht => ?_, ?_, ?_⟩, fun hne => ?_⟩
  · exact absurd (hsession ▸ htid) hne
  · exact absurd (hsession ▸ huid) hne
  · rw [hsession, huid] at hu
    cases hu
  · rw [hsession, htid] at ht
    cases ht
  · rw [hsession]
    exact h.keepalive
  · rw [hsession]
    exact h.openshare
  · exact absurd (hsession ▸ huid) hne

theorem logOffFirst_sound (h : Sound s) : Secures s logOffFirst fun r s' => r = .ok () ∧ Sound s' ∧
    s'.state.session.tid = none ∧
    (s'.state.session.uid = none ∨ (s.state.session.uid ≠ none ∧ Unchanged s s')) := by
  refine Ensures.getSession trivial ?_
  split
  · rename_i hsome
    refine (smbLogOff_sound h .relogon).result ?_
    rintro _ s₁ ⟨h₁, htid, huid⟩
    refine ensures_pure ⟨rfl, h₁, htid, huid.imp_right fun hu => ⟨?_, hu⟩⟩
    exact Option.isSome_iff_ne_none.mp hsome
  · rename_i hnone
    have huid : s.state.session.uid = none := by simpa using hnone
    refine ensures_pure ⟨rfl, h, ?_, Or.inl huid⟩
    cases htid : s.state.session.tid with
    | none => rfl
    | some tid => exact absurd huid (h.tree (by rw [htid]; nofun))

/-- A log-on that fails over a session that was not ended leaves the old identifier. -/
theorem smbLogOn_sound (h : Sound s) (anonymous : Bool) :
    Secures s (smbLogOn anonymous) fun _ s' =>
      Sound s' ∨ (s.state.session.uid ≠ none ∧ Unchanged s s') := by
  refine Ensures.bind (logOffFirst_sound h) ?_ ?_
  · rintro _ s₁ ⟨-, h₁, htid, huid⟩
    have hfailed : ∀ s', s'.state.session = s₁.state.session → Unchanged s₁ s' →
        Sound s' ∨ (s.state.session.uid ≠ none ∧ Unchanged s s') := by
      intro s' hsession hu
      rcases huid with hnone | ⟨hsome, hu₁⟩
      · exact Or.inl (h₁.of_session hnone hsession)
      · exact Or.inr ⟨hsome, hu₁.trans hu⟩
    refine Ensures.bind (orFail_secures smbConnect_ensures) ?_ ?_
    · rintro _ s₂ ⟨hok, -⟩
      obtain ⟨hstate₂, hu₂⟩ := hok () rfl
      refine Ensures.bind (orFail_secures (secures_quiet (smbNegotiateProtocol_quiet _))) ?_ ?_
      · rintro _ s₃ ⟨hok, -⟩
        obtain ⟨hl₃, hu₃⟩ := hok () rfl
        have hsession₃ : s₃.state.session = s₁.state.session := by rw [hl₃.session, hstate₂]
        refine Ensures.bind (orFail_secures (fallback_issued anonymous)) ?_ ?_
        · rintro ⟨uid, fallback⟩ s₄ ⟨hok, -⟩
          obtain ⟨events, rfl, hsetup⟩ := hok _ rfl
          obtain ⟨hc, e, he, hissues⟩ := hsetup.issued uid fallback rfl
          refine ensures_modify trivial (Or.inl ?_)
          refine Sound.setUp hc ?_ rfl ?_ rfl
          · exact issued_extend hsetup.exchanges he hissues
          · show s₃.state.session.tid = none
            rw [hsession₃, htid]
        · rintro e s₄ ⟨-, herror⟩
          obtain ⟨e', events, rfl, hsetup⟩ := herror ⟨e, rfl⟩
          refine hfailed _ hsession₃ ((hu₂.trans hu₃).trans ⟨events, rfl, ?_⟩)
          exact hsetup.refused ⟨e', rfl⟩
      · rintro e s₃ ⟨-, herror⟩
        obtain ⟨e', hl₃, hu₃⟩ := herror ⟨e, rfl⟩
        exact hfailed s₃ (by rw [hl₃.session, hstate₂]) (hu₂.trans hu₃)
    · rintro e s₂ ⟨-, herror⟩
      obtain ⟨e', hstate₂, hu₂⟩ := herror ⟨e, rfl⟩
      exact hfailed s₂ (by rw [hstate₂]) hu₂
  · rintro e s₁ ⟨he, -⟩
    cases he

end LogOn

/-! ## Reconnecting -/

section Reconnect

variable {s : Host}

/-- Only the data to log on again counts until a new session is set up. -/
theorem restoreSession_sound (hvalid : s.state.session.logonValid = true)
    (htid : s.state.session.tid = none) :
    Secures s restoreSession fun r s' => s'.state.session.logonValid = true ∧
      (r = .ok () → Sound s') := by
  refine Ensures.bind smbConnect_ensures ?_ fun e s₁ h₁ => ⟨by rw [h₁.1, hvalid], nofun⟩
  rintro _ s₁ ⟨hstate₁, -⟩
  refine Ensures.bind (secures_quiet (smbNegotiateProtocol_quiet _)) ?_
    fun e s₂ h₂ => ⟨by rw [h₂.1.session, hstate₁, hvalid], nofun⟩
  rintro _ s₂ ⟨hl₂, -⟩
  have hsession : s₂.state.session = s.state.session := by rw [hl₂.session, hstate₁]
  refine Ensures.getSession trivial ?_
  refine Ensures.bind (fallback_issued _) ?_ ?_
  · rintro ⟨uid, fallback⟩ _ ⟨events, rfl, hsetup⟩
    obtain ⟨hc, e, he, hissues⟩ := hsetup.issued uid fallback rfl
    refine Ensures.modify trivial (Ensures.get trivial ?_)
    have h₃ : Sound ((s₂.extend events).modify fun x => { x with session := { x.session with
        uid := some uid, anonymous := x.session.anonymous && !fallback } }) := by
      refine Sound.setUp hc (issued_extend hsetup.exchanges he hissues) rfl ?_ ?_
      · exact (congrArg Session.tid hsession).trans htid
      · exact (congrArg Session.logonValid hsession).trans hvalid
    have hvalid₃ := (congrArg Session.logonValid hsession).trans hvalid
    split
    · refine Ensures.bind (smbOpenShare_sound h₃ _ _) ?_ fun e s₄ h₄ => ⟨h₄.2.trans hvalid₃, nofun⟩
      rintro _ s₄ ⟨h₄, hvalid₄⟩
      refine (ensures_linked (smbReopenHandles_uses _)).mono fun r s₅ h₅ => ?_
      exact ⟨by rw [h₅.session]; exact hvalid₄.trans hvalid₃, fun _ => h₄.linked h₅⟩
    · exact ensures_pure ⟨hvalid₃, fun _ => h₃⟩
  · rintro e _ ⟨events, rfl, -⟩
    exact ⟨by rw [Host.extend_state, hsession, hvalid], nofun⟩

theorem abortConnection_ensures {C : Event → Prop} :
    Ensures C (fun _ => True) s abortConnection fun r s' => r = .ok () ∧
      s'.state.session = s.state.session.disconnected :=
  Ensures.disconnect trivial (ensures_modify trivial ⟨rfl, rfl⟩)

theorem Sound.disconnected (hvalid : s.state.session.logonValid = true)
    (huid : s.state.session.uid = none) (htid : s.state.session.tid = none) : Sound s := by
  refine ⟨⟨fun hne => absurd htid hne, fun hne => absurd huid hne, fun uid hu => ?_,
    fun uid tid _ ht => ?_, fun _ => hvalid, fun _ => hvalid⟩, fun hne => absurd huid hne⟩
  · cases huid.symm.trans hu
  · cases htid.symm.trans ht

theorem smbRestoreConnection_sound (hvalid : s.state.session.logonValid = true) :
    Secures s smbRestoreConnection fun _ s' => Sound s' ∧ s'.state.session.logonValid = true := by
  refine Ensures.getSession trivial ?_
  rw [if_pos hvalid]
  refine Ensures.bind abortConnection_ensures ?_ fun e s₁ h₁ => by cases h₁.1
  rintro _ s₁ ⟨-, hsession⟩
  refine (restoreSession_sound (by rw [hsession]; exact hvalid) (by rw [hsession]; rfl)).result ?_
  rintro r s₂ ⟨hvalid₂, hok⟩
  cases r with
  | ok _ => exact ensures_pure ⟨hok rfl, hvalid₂⟩
  | error e =>
      refine Ensures.bind abortConnection_ensures ?_ fun e s₃ h₃ => by cases h₃.1
      rintro _ s₃ ⟨-, hsession₃⟩
      have hvalid₃ : s₃.state.session.logonValid = true := by
        rw [hsession₃]
        exact hvalid₂
      exact ensures_throw ⟨Sound.disconnected hvalid₃ (by rw [hsession₃]; rfl)
        (by rw [hsession₃]; rfl), hvalid₃⟩

/-- A session with the data to log on again. -/
structure Backed (s : Host) : Prop extends Sound s where
  valid : s.state.session.logonValid = true

theorem smbReconnectUntilReady_backed (h : Backed s) (rounds : Nat) :
    Secures s (smbReconnectUntilReady rounds) fun _ s' => Backed s' := by
  refine Ensures.modify trivial (Ensures.modify trivial ?_)
  refine Ensures.bind (R := fun _ s' => Backed s') ?_ ?_ fun e s' h' => h'
  · refine ensures_loop (P := fun _ s' => s'.state.session.logonValid = true) ?_ h.valid
    intro _ s₁ hvalid₁
    refine (smbRestoreConnection_sound hvalid₁).result ?_
    rintro r s₂ ⟨h₂, hvalid₂⟩
    cases r with
    | ok _ => exact ensures_pure ⟨h₂, hvalid₂⟩
    | error e =>
        refine Ensures.getSession trivial ?_
        rw [if_pos hvalid₂]
        exact ensures_pure hvalid₂
  · intro _ s₁ h₁
    refine ensures_modify trivial ⟨⟨⟨h₁.tree, h₁.socket, h₁.user, h₁.share, fun _ => h₁.valid,
      h₁.openshare⟩, h₁.logon⟩, h₁.valid⟩

theorem Backed.linked {s' : Host} (h : Backed s) (hl : Linked s s') : Backed s' :=
  ⟨h.toSound.linked hl, by rw [hl.session, h.valid]⟩

end Reconnect

/-! ## Operations -/

section Operations

variable {α : Type} {s : Host}

/-- What an operation returns does not matter. -/
theorem Ensures.discard {C : Event → Prop} {I : Host → Prop} {m : Call α} {f : α → Option Nat}
    {P : Host → Prop} (hm : Ensures C I s m fun _ s' => P s') :
    Ensures C I s (m >>= fun a => (pure (f a) : Call (Option Nat))) fun _ s' => P s' :=
  Ensures.bind hm (fun _ _ h => ensures_pure h) fun _ _ h => h

theorem withFile_ensures {C : Event → Prop} {I : Host → Prop} {fh : Nat} {body : Call α}
    {P : Host → Prop} (hI : I s) (hs : P s)
    (hbody : (s.state.handle fh).used = true → Ensures C I s body fun _ s' => P s') :
    Ensures C I s (withFile fh body) fun _ s' => P s' := by
  refine Ensures.get hI ?_
  split
  · exact hbody ‹_›
  · exact ensures_throw hs

/-- The session requests. -/
def Op.manages : Op → Bool
  | .logOn _ => true
  | .logOff => true
  | .getShareList _ => true
  | .openShare _ => true
  | .closeShare => true
  | _ => false

/-- The operations that can reconnect. -/
def Op.reconnects : Op → Bool
  | .read _ _ => true
  | .write _ _ => true
  | .keepalive => true
  | _ => false

theorem call_linked {C : Event → Prop} {op : Op} (hmanages : op.manages = false)
    (hreconnects : op.reconnects = false) (rounds : Nat) :
    Ensures C (fun _ => True) s (op.call rounds) fun _ s' => Linked s s' := by
  have hplain : op.plain = true → Ensures C (fun _ => True) s (op.call rounds) fun _ s' => Linked s s' := by
    intro hop
    refine ensures_linked ((plain_uses hop rounds).mono fun c hc => ?_)
    cases c with
    | modify g =>
        cases hc with
        | invalidate fh => exact fun _ => rfl
        | curdir g => exact fun _ => rfl
    | exchange _ _ => trivial
    | get => trivial
    | halt => trivial
    | connect => exact hc
    | disconnect => exact hc
  have hfile : ∀ {β : Type} {fh : Nat} {m : Call β}, m.Uses (Within (fun _ => True) KeepsSession) →
      Ensures C (fun _ => True) s (withFile fh m) fun _ s' => Linked s s' :=
    fun hm => withFile_ensures trivial (Linked.refl s) fun _ => ensures_linked hm
  cases op with
  | openFile filename mode => exact (ensures_linked (smbOpen_uses filename mode)).discard
  | dopen dirname => exact (ensures_linked (smbDopen_uses dirname)).discard
  | close fh => exact (hfile (smbCloseFile_uses fh)).discard
  | lseek fh pos whence => exact (hfile (smbLseek64_uses fh pos whence)).discard
  | dread fh => exact (hfile (smbDread_uses fh)).discard
  | remove _ => exact hplain rfl
  | mkdir _ => exact hplain rfl
  | rmdir _ => exact hplain rfl
  | getstat _ => exact hplain rfl
  | rename _ _ => exact hplain rfl
  | chdir _ => exact hplain rfl
  | echo => exact hplain rfl
  | queryDiskInfo => exact hplain rfl
  | read _ _ => cases hreconnects
  | write _ _ => cases hreconnects
  | keepalive => cases hreconnects
  | _ => cases hmanages

/-- `P` holds as long as only a reconnect changes the session, and `B` where one can begin. -/
structure Steady (C : Event → Prop) (P B : Host → Prop) : Prop where
  weaken : ∀ s, B s → P s
  stay : ∀ s s', P s → Linked s s' → P s'
  linked : ∀ s s', B s → Linked s s' → B s'
  tree : ∀ s, P s → s.state.session.noTree = false → B s
  unlocked : ∀ s, P s → s.state.session.keepaliveLocked = false → B s
  reconnect : ∀ s rounds, B s →
    Ensures C (fun _ => True) s (smbReconnectUntilReady rounds) fun _ s' => B s'

section Steady

variable {C : Event → Prop} {P B : Host → Prop}

theorem Steady.requests (k : Steady C P B) {events : List Event} {R : Request → Prop} (h : B s)
    (hevents : ∀ e ∈ events, e.Sends R ∧ C e) : B (s.extend events) :=
  k.linked _ _ h (linked_extend fun e he => (hevents e he).1.isExchange)

theorem Steady.keeps (k : Steady C P B) (fh : Nat) : Keeps C (fun _ => True) B fh where
  invariant _ _ := trivial
  requests s events h hevents := k.requests h hevents
  changes s g h hg := k.linked _ _ h <| linked_modify fun x => by
    cases hg with
    | readAhead g => rfl
    | handle g => rfl
  reconnect := k.reconnect

theorem Steady.call (k : Steady C P B) (h : P s) (rounds : Nat) {op : Op} (hop : op.manages = false) :
    Ensures C (fun _ => True) s (op.call rounds) fun _ s' => P s' := by
  have hback : ∀ {β : Type} (_ : Except Errno β) s', s' = s ∨ B s' → P s' := by
    rintro β _ s' (rfl | h')
    · exact h
    · exact k.weaken s' h'
  by_cases hreconnects : op.reconnects = false
  · exact (call_linked hop hreconnects rounds).mono fun _ s' => k.stay s s' h
  cases op with
  | read fh size =>
      refine (withFile_ensures trivial h fun _ => Ensures.mono ?_ hback).discard
      exact smbRead_ensures (k.keeps fh) trivial (fun htree _ => k.tree s h htree) rounds size
  | write fh data =>
      refine (withFile_ensures trivial h fun _ => Ensures.mono ?_ hback).discard
      exact smbWrite_ensures (k.keeps fh) trivial (fun htree _ => k.tree s h htree) rounds data
  | keepalive =>
      refine (Ensures.mono ?_ hback).discard
      exact keepaliveTurn_ensures (fun _ _ => trivial) (fun _ _ h hevents => k.requests h hevents)
        k.reconnect trivial (k.unlocked s h) rounds
  | _ => exact absurd rfl hreconnects

end Steady

theorem steady_sound : Steady Event.Owned Sound Backed where
  weaken _ h := h.toSound
  stay _ _ h hl := h.linked hl
  linked _ _ h hl := h.linked hl
  tree s h htree := by
    refine ⟨h, h.logon fun hnone => ?_⟩
    rw [Session.noTree, hnone] at htree
    cases htree
  unlocked _ h hunlocked := ⟨h, h.keepalive hunlocked⟩
  reconnect _ rounds h := smbReconnectUntilReady_backed h rounds

theorem call_sound (h : Sound s) (rounds : Nat) (op : Op) :
    Secures s (op.call rounds) fun _ s' => Sound s' ∨
      ((∃ anonymous, op = .logOn anonymous) ∧ s.state.session.uid ≠ none ∧ Unchanged s s') := by
  have hleft : ∀ {m : Call (Option Nat)}, (Secures s m fun _ s' => Sound s') →
      Secures s m fun _ s' => Sound s' ∨
        ((∃ anonymous, op = .logOn anonymous) ∧ s.state.session.uid ≠ none ∧ Unchanged s s') :=
    fun hm => hm.mono fun _ _ => Or.inl
  cases op with
  | logOn anonymous =>
      refine Ensures.discard ((smbLogOn_sound h anonymous).mono fun _ s' h' => ?_)
      exact h'.imp_right fun hu => ⟨⟨anonymous, rfl⟩, hu⟩
  | logOff =>
      exact hleft (Ensures.discard ((smbLogOff_sound h .operation).mono fun _ _ h' => h'.1))
  | getShareList maxent => exact hleft (smbGetShareList_sound h maxent).discard
  | openShare configured =>
      refine hleft (Ensures.discard ((smbOpenShare_sound h .operation configured).mono ?_))
      exact fun _ _ h' => h'.1
  | closeShare => exact hleft (smbCloseShare_sound h).discard
  | _ => exact hleft (steady_sound.call h rounds rfl)

end Operations

/-! ## Runs -/

/-- No tree goes to a client without a session, and no log-on over a session fails before
the old session is ended. -/
def Orderly (d : Machine) (t : Turn) : Prop :=
  (∀ e ∈ d.host.events t, e.Owned) ∧ Relogged d.host t

theorem sound_initial : Sound Machine.initial.host := Session.ended.sound ⟨rfl, rfl, rfl, rfl⟩

theorem sound_invariant : driver.Invariant Orderly fun d =>
    d.host.Admits Event.Owned ∧ (d.free = true → Sound d.host) where
  init := by
    rintro _ rfl
    exact ⟨fun _ he => absurd he List.not_mem_nil, fun _ => sound_initial⟩
  step := by
    rintro d t _ - ⟨hadmits, hsound⟩ ⟨howned, hrelogged⟩ ⟨hfree, -, rfl⟩
    have hturn := (call_sound (hsound hfree) t.rounds t.op).turn (t := t) trivial hadmits howned
    refine ⟨hturn.1, fun hfree' => ?_⟩
    obtain ⟨r, hr⟩ := Option.isSome_iff_exists.mp hfree'
    rcases hturn.2.2 r hr with h | ⟨⟨anonymous, hop⟩, huid, events, htrace, hnone⟩
    · exact h
    · obtain ⟨e, he, hrelogs⟩ := hrelogged anonymous hop huid
      rw [d.host.after_trace, List.append_left_inj] at htrace
      exact absurd hrelogs (hnone e (htrace ▸ he))

/-- In every run of orderly steps, the session is consistent wherever the lock is free. -/
theorem session_consistent {d : Machine} (h : driver.Reachable Orderly d) (hfree : d.free = true) :
    Consistent d.host := (sound_invariant.holds h).2 hfree |>.toConsistent

/-- A log-on and the opening of a share. -/
def loggedOn : Machine := Machine.initial.next (granting (.logOn false) 2)

def sharing : Machine := loggedOn.next (granting (.openShare shareName) 1)

theorem session_consistent_sharing :
    sharing.host.state.session.tid = some 1 ∧ Consistent sharing.host := by
  refine ⟨by decide +kernel, session_consistent ?_ (by decide +kernel)⟩
  have howned : ∀ (d : Machine) (t : Turn), (∀ e ∈ d.host.events t, e.Owned) →
      (∀ anonymous, t.op = .logOn anonymous → d.host.state.session.uid = none) → Orderly d t :=
    fun d t h huid => ⟨h, fun anonymous hop hne => absurd (huid anonymous hop) hne⟩
  refine reachable_next (reachable_next (.init rfl) (howned _ _ ?_ fun _ _ => rfl) rfl nofun)
    (howned _ _ ?_ nofun) (by decide +kernel) nofun
  · decide +kernel
  · decide +kernel

/-- The server refuses the log-off at the start of a second log-on, and the new connection
fails. -/
def relogged : Machine :=
  loggedOn.next ⟨.logOn false, 3, [.reply { granted with status := statusAccessDenied }], [false]⟩

theorem session_outlives_connection :
    driver.Reachable (fun _ _ => True) relogged ∧ relogged.free = true ∧
      relogged.host.state.session.uid = some 1 ∧ relogged.host.connected = false ∧
      ¬ Consistent relogged.host := by
  have huid : relogged.host.state.session.uid = some 1 := by decide +kernel
  have hconnected : relogged.host.connected = false := by decide +kernel
  refine ⟨?_, by decide +kernel, huid, hconnected, fun h => ?_⟩
  · exact reachable_next (reachable_next (.init rfl) trivial rfl nofun) trivial (by decide +kernel) nofun
  · have hopen := h.socket (by rw [huid]; nofun)
    rw [hconnected] at hopen
    cases hopen

end BdmAssault.Smb.Driver
