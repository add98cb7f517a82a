import BdmAssault.Smb.Driver.Handles
import BdmAssault.Smb.Driver.Sessions

/-! # Reconnecting

A reconnect logs on again, opens the share and opens every file by the name and the flags
that its handle has kept.
-/

namespace BdmAssault.Smb.Driver

open Lib

/-- What a reconnect has to keep; `files` are the paths of the files that were opened, by
slot, with `none` for a directory. -/
structure Transparent (files : Nat → Option Name) (s s' : Host) : Prop where
  file : ∀ fh path, (s.state.handle fh).used = true → files fh = some path →
    (s'.state.handle fh).name = path ∧ ∃ uid tid fid,
      s'.state.session.uid = some uid ∧ s'.state.session.tid = some tid ∧
      (s'.state.handle fh).fid = some fid ∧
      Issued (Event.Opens (some uid) (some tid) path { (s.state.handle fh).mode with truncate := false } fid) s'.trace
  directory : ∀ fh, (s.state.handle fh).used = true → files fh = none →
    (s'.state.handle fh).fid = none
  place : ∀ fh, (s'.state.handle fh).used = (s.state.handle fh).used ∧
    (s'.state.handle fh).position = (s.state.handle fh).position ∧
    (s'.state.handle fh).mode = (s.state.handle fh).mode
  untruncated : ∃ events, s'.trace = events ++ s.trace ∧
    ∀ e ∈ events, e.Asks fun r => r.truncates = false
  curdir : s'.state.curdir = s.state.curdir
  buffer : s'.state.readAhead.data = []

/-! ## Opening the files again -/

section Lookup

variable {s : State} {fh i : Nat} {g : Handle → Handle}

theorem handle_modifyHandle_ne (hne : i ≠ fh) : (s.modifyHandle fh g).handle i = s.handle i := by
  unfold State.handle State.modifyHandle
  rw [List.getD_eq_getElem?_getD, List.getD_eq_getElem?_getD, List.getElem?_modify]
  cases s.handles[i]? with
  | none => rfl
  | some h => simp [Ne.symm hne]

theorem handle_modifyHandle_self (hlt : fh < s.handles.length) :
    (s.modifyHandle fh g).handle fh = g (s.handle fh) := by
  unfold State.handle State.modifyHandle
  rw [List.getD_eq_getElem?_getD, List.getD_eq_getElem?_getD, List.getElem?_modify,
    List.getElem?_eq_getElem hlt]
  simp

theorem used_lt (h : (s.handle fh).used = true) : fh < s.handles.length := by
  refine Nat.lt_of_not_le fun hle => ?_
  unfold State.handle at h
  rw [List.getD_eq_getElem?_getD, List.getElem?_eq_none hle] at h
  cases h

end Lookup

/-- The handle in a slot after a reconnect. -/
structure Reopened (s : Host) (fh : Nat) : Prop where
  directory : (s.state.handle fh).used = true → (s.state.handle fh).mode.directory = true →
    (s.state.handle fh).fid = none
  file : (s.state.handle fh).used = true → (s.state.handle fh).mode.directory = false →
    ∃ fid, (s.state.handle fh).fid = some fid ∧
      Issued (Event.Opens s.state.session.uid s.state.session.tid (s.state.handle fh).name
        { (s.state.handle fh).mode with truncate := false } fid) s.trace

section Reopen

variable {s s' : Host} {fh : Nat}

theorem Reopened.linked (h : Reopened s fh) (hl : Linked s s')
    (hhandle : s'.state.handle fh = s.state.handle fh) : Reopened s' fh := by
  refine ⟨fun hused hdir => ?_, fun hused hfile => ?_⟩
  · rw [hhandle] at hused hdir ⊢
    exact h.directory hused hdir
  · rw [hhandle] at hused hfile ⊢
    obtain ⟨fid, hfid, hissued⟩ := h.file hused hfile
    rw [hl.session]
    exact ⟨fid, hfid, hissued.linked hl⟩

theorem reopened_of_handle {h : Handle} (hself : s.state.handle fh = h)
    (hdirectory : h.mode.directory = true → h.fid = none)
    (hfile : h.mode.directory = false → ∃ fid, h.fid = some fid ∧
      Issued (Event.Opens s.state.session.uid s.state.session.tid h.name { h.mode with truncate := false } fid)
        s.trace) :
    Reopened s fh := by
  subst hself
  exact ⟨fun _ => hdirectory, fun _ => hfile⟩

theorem openedAs_linked {uid tid : Option Nat} {path : Name} {mode : OpenMode}
    {r : Except Errno (Nat × Nat)} {events : List Event}
    (h : OpenedAs uid tid path mode s r s' events) : Linked s s' := by
  obtain ⟨rfl, hsends, -⟩ := h
  exact linked_extend fun e he => (hsends e he).isExchange

/-- After the loop every slot in it is reopened, and the others are as they were. -/
theorem smbReopenHandles_reopened (slots : List Nat) : ∀ {s : Host}, slots.Nodup →
    Always s (smbReopenHandles slots) fun r s' => Linked s s' ∧
      s'.state.curdir = s.state.curdir ∧
      (∀ fh, fh ∉ slots → s'.state.handle fh = s.state.handle fh) ∧
      (r = .ok () → ∀ fh ∈ slots, Reopened s' fh) := by
  induction slots with
  | nil =>
      intro s _
      exact ensures_pure ⟨Linked.refl s, rfl, fun _ _ => rfl, fun _ => List.forall_mem_nil _⟩
  | cons fh rest ih =>
      intro s hnodup
      obtain ⟨hfh, hrest⟩ := List.nodup_cons.mp hnodup
      -- the rest of the loop, once slot `fh` is dealt with in `s₁`
      have hloop : ∀ s₁, Linked s s₁ → s₁.state.curdir = s.state.curdir →
          (∀ i, i ≠ fh → s₁.state.handle i = s.state.handle i) → Reopened s₁ fh →
          Always s₁ (smbReopenHandles rest) fun r s' => Linked s s' ∧
            s'.state.curdir = s.state.curdir ∧
            (∀ i, i ∉ fh :: rest → s'.state.handle i = s.state.handle i) ∧
            (r = .ok () → ∀ i ∈ fh :: rest, Reopened s' i) := by
        intro s₁ hl₁ hdir hother hfirst
        refine (ih hrest).mono ?_
        rintro r s₂ ⟨hl₂, hdir₂, hkept, hdone⟩
        refine ⟨hl₁.trans hl₂, hdir₂.trans hdir, fun i hi => ?_, fun hr i hi => ?_⟩
        · rw [List.mem_cons, not_or] at hi
          exact (hkept i hi.2).trans (hother i hi.1)
        · rcases List.mem_cons.mp hi with rfl | hi'
          · exact hfirst.linked hl₂ (hkept _ hfh)
          · exact hdone hr i hi'
      refine Ensures.get trivial ?_
      dsimp only
      split
      · rename_i hunused
        refine hloop s (Linked.refl s) rfl (fun _ _ => rfl) ⟨fun hused => ?_, fun hused => ?_⟩
        · cases hunused.symm.trans hused
        · cases hunused.symm.trans hused
      · rename_i hunused
        have hused : (s.state.handle fh).used = true := by simpa using hunused
        have hlt := used_lt hused
        split
        · rename_i hdir
          refine Ensures.modify trivial (hloop _ (linked_modify fun _ => rfl) rfl
            (fun i hne => handle_modifyHandle_ne hne) ?_)
          refine reopened_of_handle (handle_modifyHandle_self hlt) (fun _ => rfl) fun hfile => ?_
          cases hdir.symm.trans hfile
        · rename_i hdir
          refine Ensures.bind (smbOpenAndX_ensures fun _ _ => trivial) ?_ ?_
          · rintro ⟨fid, filesize⟩ s₁ ⟨events, hopened⟩
            have hl₁ := openedAs_linked hopened
            obtain ⟨rfl, hsends, hopens⟩ := hopened
            obtain ⟨e, he, hopens⟩ := hopens fid filesize rfl
            refine Ensures.modify trivial (hloop _ (hl₁.trans (linked_modify fun _ => rfl)) rfl
              (fun i hne => handle_modifyHandle_ne hne) ?_)
            refine reopened_of_handle (handle_modifyHandle_self hlt) (fun h => absurd h hdir) fun _ => ?_
            refine ⟨fid, rfl, ?_⟩
            exact issued_extend (fun e he => (hsends e he).isExchange) he hopens
          · rintro e s₁ ⟨events, hopened⟩
            refine ⟨openedAs_linked hopened, ?_, fun i _ => ?_, nofun⟩
            · rw [hopened.extend]
              rfl
            · rw [hopened.extend]
              rfl

end Reopen

/-! ## The session -/

/-- The share that a reconnect opens again is that of the session `x`. -/
structure Shared (x : Session) (s : Host) : Prop where
  valid : s.state.session.openshareValid = true
  name : s.state.session.openshare = x.openshare
  logon : s.state.session.logonValid = x.logonValid

/-- After a reconnect. -/
structure Reconnected (x : Session) (s : Host) : Prop extends Shared x s where
  session : ∃ uid tid, s.state.session.uid = some uid ∧ s.state.session.tid = some tid
  handles : ∀ fh, Reopened s fh
  curdir : ∃ share root, splitSharePath x.openshare = some (share, root) ∧ s.state.curdir = root

section Session

variable {s s' : Host} {x : Session}

theorem Shared.of_session (h : Shared x s)
    (hvalid : s'.state.session.openshareValid = s.state.session.openshareValid)
    (hname : s'.state.session.openshare = s.state.session.openshare)
    (hlogon : s'.state.session.logonValid = s.state.session.logonValid) : Shared x s' :=
  ⟨hvalid.trans h.valid, hname.trans h.name, hlogon.trans h.logon⟩

theorem Shared.linked (h : Shared x s) (hl : Linked s s') : Shared x s' :=
  h.of_session (by rw [hl.session]) (by rw [hl.session]) (by rw [hl.session])

theorem smbOpenShare_shared (h : Shared x s) (caller : Caller) :
    Always s (smbOpenShare caller x.openshare) fun r s' => Shared x s' ∧
      s'.state.session.uid = s.state.session.uid ∧ (r = .ok () →
        (∃ tid, s'.state.session.tid = some tid) ∧
        ∃ share root, splitSharePath x.openshare = some (share, root) ∧ s'.state.curdir = root) := by
  unfold smbOpenShare
  split
  · exact ensures_throw ⟨h, rfl, nofun⟩
  · rename_i share root hsplit
    refine Ensures.bind leaveTree_ensures ?_ ?_
    · rintro _ _ ⟨-, s₁, hl₁, rfl⟩
      have h₁ : Shared x (s₁.modify State.leaveTree) := (h.linked hl₁).of_session rfl rfl rfl
      have huid : (s₁.modify State.leaveTree).state.session.uid = s.state.session.uid :=
        (rfl : _ = s₁.state.session.uid).trans (by rw [hl₁.session])
      refine Ensures.getSession trivial ?_
      refine Ensures.bind (ensures_linked (smbTreeConnectAndX_uses fun _ => trivial)) ?_ ?_
      · intro tid s₂ hl₂
        refine Ensures.modify trivial (Ensures.modify trivial (ensures_modify trivial ?_))
        refine ⟨⟨rfl, rfl, (congrArg Session.logonValid hl₂.session).trans h₁.logon⟩, ?_, fun _ => ⟨⟨tid, rfl⟩, share, root, hsplit, rfl⟩⟩
        exact (congrArg Session.uid hl₂.session).trans huid
      · intro e s₂ hl₂
        exact ⟨h₁.linked hl₂, (congrArg Session.uid hl₂.session).trans huid, nofun⟩
    · rintro e _ ⟨he, -⟩
      cases he

/-- What a reconnect leaves of a handle. -/
def Handle.kept (h : Handle) : Bool × OpenMode × Name × Int := (h.used, h.mode, h.name, h.position)

def KeepsHandles (x x' : State) : Prop := x'.handles.map Handle.kept = x.handles.map Handle.kept

theorem reconnecting_kept : Reconnecting (fun r => r.truncates = false) fun g => ∀ x, KeepsHandles x (g x) where
  requests _ h _ := h
  session _ _ := rfl
  server _ _ _ := rfl
  curdir _ _ := rfl
  invalidate _ _ := rfl
  fid _ _ _ := map_modifyHandle fun _ => rfl
  reopened _ _ _ _ := map_modifyHandle fun _ => rfl

theorem always_kept {α : Type} {m : Call α}
    (hm : m.Uses (Modifies (fun r => r.truncates = false) fun g => ∀ x, KeepsHandles x (g x))) :
    Always s m fun _ s' => KeepsHandles s.state s'.state :=
  ensures_modifies (fun _ => rfl) (fun _ _ _ h h' => h'.trans h) (fun x _ hg => hg x) hm

theorem KeepsHandles.length {x x' : State} (h : KeepsHandles x x') :
    x'.handles.length = x.handles.length := by
  have hlength := congrArg List.length h
  rwa [List.length_map, List.length_map] at hlength

theorem reopened_unused {fh : Nat} (h : s.state.handles.length ≤ fh) : Reopened s fh := by
  have hunused : ¬ (s.state.handle fh).used = true := fun hused => Nat.not_lt_of_le h (used_lt hused)
  exact ⟨fun hused => absurd hused hunused, fun hused => absurd hused hunused⟩

theorem managing_handles : Managing (fun _ => True) fun g => ∀ x, (g x).handles = x.handles where
  requests _ _ _ := trivial
  session _ _ := rfl
  server _ _ _ := rfl
  curdir _ _ := rfl

theorem always_handles {α : Type} {m : Call α}
    (hm : m.Uses (Modifies (fun _ => True) fun g => ∀ x, (g x).handles = x.handles)) :
    Always s m fun _ s' => s'.state.handles = s.state.handles :=
  ensures_modifies (T := fun x x' => x'.handles = x.handles) (fun _ => rfl)
    (fun _ _ _ h h' => h'.trans h) (fun x _ hg => hg x) hm

theorem invalidate_data {r : ReadAhead} (fh : Option Nat) (h : r.data = []) :
    (r.invalidate fh).data = [] := by
  unfold ReadAhead.invalidate
  dsimp only
  split
  · split
    · rfl
    · rfl
  · split
    · exact h
    · exact h

theorem reconnecting_empty : Reconnecting (fun _ => True) fun g =>
    ∀ x, x.readAhead.data = [] → (g x).readAhead.data = [] where
  requests _ _ _ := trivial
  session _ _ h := h
  server _ _ _ h := h
  curdir _ _ h := h
  invalidate fh _ h := invalidate_data fh h
  fid _ _ _ h := h
  reopened _ _ _ _ h := h

/-- Where the files are opened again: in a new session and tree, with the old table. -/
structure Replaying (x : Session) (s s' : Host) : Prop extends Shared x s' where
  session : ∃ uid tid, s'.state.session.uid = some uid ∧ s'.state.session.tid = some tid
  curdir : ∃ share root, splitSharePath x.openshare = some (share, root) ∧ s'.state.curdir = root
  handles : s'.state.handles = s.state.handles

/-- A property of the globals that the changes in use keep. -/
theorem always_preserves {α : Type} {J : State → Prop} {m : Call α}
    (hm : m.Uses (Modifies (fun _ => True) fun g => ∀ x, J x → J (g x))) :
    Always s m fun _ s' => J s.state → J s'.state :=
  ensures_modifies (T := fun x x' => J x → J x') (fun _ => id) (fun _ _ _ h h' => h' ∘ h)
    (fun x _ hg => hg x) hm

section Rule

variable {J : State → Prop} {Q : Host → Prop}

/-- What opening the files again ensures: `J` in any case, and `Q` if all are open. -/
def Replays (x : Session) (J : State → Prop) (Q : Host → Prop) : Prop :=
  ∀ s s₁, Replaying x s s₁ → J s₁.state →
    Always s₁ (smbReopenHandles (List.range s.state.handles.length)) fun r s' =>
      Linked s₁ s' ∧ J s'.state ∧ (r = .ok () → Q s')

variable (k : Managing (fun _ => True) fun g => ∀ x, J x → J (g x)) (hreplays : Replays x J Q)

include k hreplays

theorem restoreSession_rule (h : Shared x s) (hJ : J s.state) :
    Always s restoreSession fun r s' => Shared x s' ∧ J s'.state ∧ (r = .ok () → Q s') := by
  refine Ensures.bind smbConnect_ensures ?_ ?_
  · rintro _ s₁ ⟨hstate, -⟩
    have h₁ : Shared x s₁ := h.of_session (by rw [hstate]) (by rw [hstate]) (by rw [hstate])
    have hJ₁ : J s₁.state := hstate ▸ hJ
    refine Ensures.bind (((ensures_linked (negotiateRetry_uses (fun _ => trivial) (fun _ _ _ => rfl) 3)).and
      (always_handles (managing_handles.negotiate _))).and (always_preserves (k.negotiate _))) ?_
      fun e s₂ h₂ => ⟨h₁.linked h₂.1.1, h₂.2 hJ₁, nofun⟩
    rintro _ s₂ ⟨⟨hl₂, hhandles₂⟩, hJ₂⟩
    refine Ensures.getSession trivial ?_
    refine Ensures.bind (((ensures_linked (fallback_uses fun _ _ => trivial)).and
      (always_handles (managing_handles.fallback _ _))).and (always_preserves (k.fallback _ _))) ?_
      fun e s₃ h₃ => ⟨(h₁.linked hl₂).linked h₃.1.1, h₃.2 (hJ₂ hJ₁), nofun⟩
    rintro ⟨uid, fallback⟩ s₃ ⟨⟨hl₃, hhandles₃⟩, hJ₃⟩
    have h₃ := (h₁.linked hl₂).linked hl₃
    have hhandles : s₃.state.handles = s.state.handles := by rw [hhandles₃, hhandles₂, hstate]
    refine Ensures.modify trivial (Ensures.get trivial ?_)
    dsimp only [Host.modify_state]
    rw [if_pos h₃.valid, h₃.name, hhandles]
    have hJ₄ := k.session (fun y => { y with uid := some uid, anonymous := y.anonymous && !fallback })
      s₃.state (hJ₃ (hJ₂ hJ₁))
    refine Ensures.bind (((smbOpenShare_shared ?_ _).and
      (always_handles (managing_handles.openShare _ _))).and (always_preserves (k.openShare _ _))) ?_
      fun e s₄ h₄ => ⟨h₄.1.1.1, h₄.2 hJ₄, nofun⟩
    · exact h₃.of_session rfl rfl rfl
    rintro _ s₄ ⟨⟨⟨h₄, huid, hok⟩, hhandles₄⟩, hJ₅⟩
    obtain ⟨⟨tid, htid⟩, hcurdir⟩ := hok rfl
    refine (hreplays s s₄ ⟨h₄, ⟨uid, tid, huid.trans rfl, htid⟩, hcurdir, hhandles₄.trans hhandles⟩
      (hJ₅ hJ₄)).mono ?_
    rintro r s₅ ⟨hl₅, hJ₆, hdone⟩
    exact ⟨h₄.linked hl₅, hJ₆, hdone⟩
  · rintro e s₁ ⟨hstate, -⟩
    exact ⟨h.of_session (by rw [hstate]) (by rw [hstate]) (by rw [hstate]), hstate ▸ hJ, nofun⟩

theorem smbRestoreConnection_rule (h : Shared x s) (hJ : J s.state) :
    Always s smbRestoreConnection fun r s' => Shared x s' ∧ J s'.state ∧ (r = .ok () → Q s') := by
  have habort : ∀ {s : Host}, Shared x s → J s.state → Always s abortConnection fun r s' =>
      r = .ok () ∧ Shared x s' ∧ J s'.state := by
    intro s h hJ
    refine (abortConnection_ensures.and (always_preserves k.abortConnection)).mono ?_
    rintro r s' ⟨⟨hr, hsession⟩, hJ'⟩
    refine ⟨hr, h.of_session ?_ ?_ ?_, hJ' hJ⟩
    · rw [hsession]
      rfl
    · rw [hsession]
      rfl
    · rw [hsession]
      rfl
  refine Ensures.getSession trivial ?_
  split
  · refine Ensures.bind (habort h hJ) ?_ fun e s₁ h₁ => nomatch h₁.1
    rintro _ s₁ ⟨-, h₁, hJ₁⟩
    refine (restoreSession_rule k hreplays h₁ hJ₁).result ?_
    rintro r s₂ ⟨h₂, hJ₂, hok⟩
    cases r with
    | ok _ => exact ensures_pure ⟨h₂, hJ₂, fun _ => hok rfl⟩
    | error e =>
        refine Ensures.bind (habort h₂ hJ₂) ?_ fun e s₃ h₃ => nomatch h₃.1
        rintro _ s₃ ⟨-, h₃, hJ₃⟩
        exact ensures_throw ⟨h₃, hJ₃, nofun⟩
  · exact ensures_throw ⟨h, hJ, nofun⟩

/-- The rule of a reconnect with a share; `J` holds from where the buffer is emptied. -/
theorem smbReconnectUntilReady_rule (h : Shared x s)
    (hJ : ∀ g : Session → Session, J { s.state.invalidate none with session := g s.state.session })
    (hQ : ∀ s (g : Session → Session), (∀ y, (g y).uid = y.uid ∧ (g y).tid = y.tid ∧
      (g y).openshareValid = y.openshareValid ∧ (g y).openshare = y.openshare ∧
      (g y).logonValid = y.logonValid) → Q s → Q (s.modify fun y => { y with session := g y.session }))
    (rounds : Nat) :
    Always s (smbReconnectUntilReady rounds) fun r s' => Shared x s' ∧ J s'.state ∧
      (r = .ok () → Q s') := by
  refine Ensures.modify trivial (Ensures.modify trivial ?_)
  refine Ensures.bind (R := fun r s' => Shared x s' ∧ J s'.state ∧ (r = .ok () → Q s')) ?_ ?_
    fun e s' h' => ⟨h'.1, h'.2.1, nofun⟩
  · refine ensures_loop (P := fun _ s' => Shared x s' ∧ J s'.state) ?_
      ⟨h.of_session rfl rfl rfl, hJ fun y => { y with keepaliveLocked := true }⟩
    rintro _ s₁ ⟨h₁, hJ₁⟩
    refine (smbRestoreConnection_rule k hreplays h₁ hJ₁).result ?_
    rintro r s₂ ⟨h₂, hJ₂, hok⟩
    cases r with
    | ok _ => exact ensures_pure ⟨h₂, hJ₂, fun _ => hok rfl⟩
    | error e =>
        refine Ensures.getSession trivial ?_
        split
        · exact ensures_pure ⟨h₂, hJ₂⟩
        · exact ensures_throw ⟨h₂, hJ₂, nofun⟩
  · rintro _ s₁ ⟨h₁, hJ₁, hok⟩
    refine ensures_modify trivial ⟨h₁.of_session rfl rfl rfl, ?_, fun _ => ?_⟩
    · exact k.session (fun y => { y with keepaliveLocked := false }) _ hJ₁
    · exact hQ s₁ (fun y => { y with keepaliveLocked := false }) (fun _ => ⟨rfl, rfl, rfl, rfl, rfl⟩) (hok rfl)

end Rule

theorem replays_reconnected :
    Replays x (fun y => y.readAhead.data = []) (Reconnected x) := by
  intro s s₁ h₁ hempty
  have hreopen := smbReopenHandles_reopened (List.range s.state.handles.length) (s := s₁) List.nodup_range
  refine ((hreopen.and (always_kept (reconnecting_kept.reopenHandles _))).and
    (always_preserves (reconnecting_empty.reopenHandles _))).mono ?_
  rintro r s' ⟨⟨⟨hl, hdir, -, hdone⟩, hkept⟩, hempty'⟩
  refine ⟨hl, hempty' hempty, fun hr => ⟨h₁.toShared.linked hl, ?_, fun fh => ?_, ?_⟩⟩
  · rw [hl.session]
    exact h₁.session
  · by_cases hfh : fh < s.state.handles.length
    · exact hdone hr fh (List.mem_range.mpr hfh)
    · refine reopened_unused ?_
      rw [hkept.length, h₁.handles]
      exact Nat.le_of_not_lt hfh
  · rw [hdir]
    exact h₁.curdir

/-- The buffer is emptied first, and nothing fills it. -/
theorem smbReconnectUntilReady_reconnected (h : Shared x s) (rounds : Nat) :
    Always s (smbReconnectUntilReady rounds) fun r s' => Shared x s' ∧
      (r = .ok () → Reconnected x s' ∧ s'.state.readAhead.data = []) := by
  refine (smbReconnectUntilReady_rule reconnecting_empty.toManaging replays_reconnected h
    (fun _ => rfl) (fun s g hg hs => ?_) rounds).mono fun r s' h' => ⟨h'.1, fun hr => ⟨h'.2.2 hr, h'.2.1⟩⟩
  obtain ⟨huid, htid, hvalid, hname, hlogon⟩ := hg s.state.session
  refine ⟨hs.toShared.of_session hvalid hname hlogon, ?_, fun fh => ?_, hs.curdir⟩
  · obtain ⟨uid, tid, hu, ht⟩ := hs.session
    exact ⟨uid, tid, huid.trans hu, htid.trans ht⟩
  · refine ⟨(hs.handles fh).directory, fun hused hfile => ?_⟩
    obtain ⟨fid, hfid, hissued⟩ := (hs.handles fh).file hused hfile
    refine ⟨fid, hfid, ?_⟩
    show Issued (Event.Opens (g s.state.session).uid (g s.state.session).tid _ _ _) _
    rw [huid, htid]
    exact hissued

/-- With the data to log on again, a reconnect goes on until it succeeds. -/
theorem smbReconnectUntilReady_ok (h : Shared x s) (hlogon : x.logonValid = true) (rounds : Nat) :
    Always s (smbReconnectUntilReady rounds) fun r _ => r = .ok () := by
  refine Ensures.modify trivial (Ensures.modify trivial ?_)
  refine Ensures.bind (R := fun r _ => r = .ok ()) ?_ (fun _ _ _ => ensures_modify trivial rfl)
    fun e s' h' => nomatch h'
  refine ensures_loop (P := fun _ s' => Shared x s' ∧ s'.state.readAhead.data = []) ?_
    ⟨h.of_session rfl rfl rfl, rfl⟩
  rintro _ s₁ ⟨h₁, hempty⟩
  refine (smbRestoreConnection_rule reconnecting_empty.toManaging replays_reconnected h₁ hempty).result ?_
  rintro r s₂ ⟨h₂, hempty₂, -⟩
  cases r with
  | ok _ => exact ensures_pure rfl
  | error e =>
      refine Ensures.getSession trivial ?_
      rw [if_pos (h₂.logon.trans hlogon)]
      exact ensures_pure ⟨h₂, hempty₂⟩

/-- Without it nothing is tried. -/
theorem smbReconnectUntilReady_refused {C : Event → Prop} {I : Host → Prop}
    (hlogon : s.state.session.logonValid = false) (hI : ∀ g, I (s.modify g)) (rounds : Nat) :
    Ensures C I s (smbReconnectUntilReady rounds) fun _ s' =>
      s' = s.modify fun y => { y.invalidate none with session :=
        { y.session with keepaliveLocked := true } } := by
  refine Ensures.modify (hI _) (Ensures.modify (hI fun y => { y.invalidate none with session :=
    { y.session with keepaliveLocked := true } }) ?_)
  refine Ensures.bind (R := fun r s' => (∃ e, r = .error e) ∧ s' = s.modify fun y =>
    { y.invalidate none with session := { y.session with keepaliveLocked := true } }) ?_
    (fun _ _ h' => nomatch h'.1.choose_spec) fun e s' h' => h'.2
  refine ensures_loop (P := fun _ s' => s' = s.modify fun y =>
    { y.invalidate none with session := { y.session with keepaliveLocked := true } }) ?_ rfl
  rintro _ _ rfl
  have hinvalid : ¬ s.state.session.logonValid = true := Bool.eq_false_iff.mp hlogon
  refine Ensures.result (R := fun r s' => (∃ e, r = .error e) ∧ s' = s.modify fun y =>
    { y.invalidate none with session := { y.session with keepaliveLocked := true } }) ?_ ?_
  · refine Ensures.getSession (hI _) ?_
    rw [if_neg (by exact hinvalid)]
    exact ensures_throw ⟨⟨_, rfl⟩, rfl⟩
  · rintro r _ ⟨⟨e, rfl⟩, rfl⟩
    refine Ensures.getSession (hI _) ?_
    rw [if_neg (by exact hinvalid)]
    exact ensures_throw ⟨⟨_, rfl⟩, rfl⟩

theorem steady_shared : Steady (fun _ => True) (Shared x) (Shared x) where
  weaken _ h := h
  stay _ _ h hl := h.linked hl
  linked _ _ h hl := h.linked hl
  tree _ h _ := h
  unlocked _ h _ := h
  reconnect _ rounds h := (smbReconnectUntilReady_reconnected h rounds).mono fun _ _ h' => h'.1

end Session

/-! ## Names -/

/-- What a slot is used for. -/
def Handle.label (h : Handle) : Bool × OpenMode × Name := (h.used, h.mode, h.name)

def State.labels (x : State) : List (Bool × OpenMode × Name) := x.handles.map Handle.label

/-- Every handle has the name of its file, as far as it fits. -/
structure Named (files : Nat → Option Name) (x : State) : Prop where
  file : ∀ fh path, (x.handle fh).used = true → files fh = some path →
    (x.handle fh).name = handleName path
  directory : ∀ fh, (x.handle fh).used = true → files fh = none → (x.handle fh).mode.directory = true

section Names

variable {β : Type} {x x' : State} {files : Nat → Option Name} {fh : Nat}

theorem map_eq_handle {field : Handle → β} (h : x'.handles.map field = x.handles.map field) (fh : Nat) :
    field (x'.handle fh) = field (x.handle fh) := by
  have hget : (x'.handles.map field).getD fh (field noHandle) = (x.handles.map field).getD fh (field noHandle) := by
    rw [h]
  rwa [List.getD_eq_getElem?_getD, List.getD_eq_getElem?_getD, List.getElem?_map, List.getElem?_map,
    Option.getD_map, Option.getD_map, ← List.getD_eq_getElem?_getD, ← List.getD_eq_getElem?_getD] at hget

theorem Named.of_labels (h : Named files x) (hlabels : x'.labels = x.labels) : Named files x' := by
  have hlabel : ∀ fh, (x'.handle fh).label = (x.handle fh).label := map_eq_handle hlabels
  have hused : ∀ fh, (x'.handle fh).used = (x.handle fh).used := fun fh => congrArg Prod.fst (hlabel fh)
  have hmode : ∀ fh, (x'.handle fh).mode = (x.handle fh).mode := fun fh => congrArg (·.2.1) (hlabel fh)
  have hname : ∀ fh, (x'.handle fh).name = (x.handle fh).name := fun fh => congrArg (·.2.2) (hlabel fh)
  refine ⟨fun fh path hu hfile => ?_, fun fh hu hdir => ?_⟩
  · rw [hname]
    exact h.file fh path (hused fh ▸ hu) hfile
  · rw [hmode]
    exact h.directory fh (hused fh ▸ hu) hdir

/-- One slot is taken, for a file or for a directory. -/
theorem Named.take (h : Named files x) {g : Handle → Handle} {file : Option Name}
    (hname : ∀ path, file = some path → (g (x.handle fh)).name = handleName path)
    (hmode : file = none → (g (x.handle fh)).mode.directory = true) :
    Named (fun i => if i = fh then file else files i) (x.modifyHandle fh g) := by
  have hself : ((x.modifyHandle fh g).handle fh).used = true →
      (x.modifyHandle fh g).handle fh = g (x.handle fh) := by
    intro hu
    have hlt := used_lt hu
    rw [State.modifyHandle, List.length_modify] at hlt
    exact handle_modifyHandle_self hlt
  refine ⟨fun i path hu hfile => ?_, fun i hu hdir => ?_⟩
  · by_cases hi : i = fh
    · subst hi
      rw [hself hu]
      exact hname path (by simpa using hfile)
    · rw [handle_modifyHandle_ne hi] at hu ⊢
      exact h.file i path hu (by simpa [hi] using hfile)
  · by_cases hi : i = fh
    · subst hi
      rw [hself hu]
      exact hmode (by simpa using hdir)
    · rw [handle_modifyHandle_ne hi] at hu ⊢
      exact h.directory i hu (by simpa [hi] using hdir)

/-- A slot is given back. -/
theorem Named.give (h : Named files x) : Named files (x.modifyHandle fh fun _ => noHandle) := by
  have hother : ∀ i, ((x.modifyHandle fh fun _ => noHandle).handle i).used = true →
      (x.modifyHandle fh fun _ => noHandle).handle i = x.handle i := by
    intro i hu
    by_cases hi : i = fh
    · subst hi
      have hlt := used_lt hu
      rw [State.modifyHandle, List.length_modify] at hlt
      rw [handle_modifyHandle_self hlt] at hu
      cases hu
    · exact handle_modifyHandle_ne hi
  refine ⟨fun i path hu hfile => ?_, fun i hu hdir => ?_⟩
  · have heq := hother i hu
    rw [heq] at hu ⊢
    exact h.file i path hu hfile
  · have heq := hother i hu
    rw [heq] at hu ⊢
    exact h.directory i hu hdir

theorem upkeep_labels : Upkeep (fun _ => True) fun g => ∀ x, (g x).labels = x.labels where
  requests _ _ _ := trivial
  transfers _ _ := trivial
  session _ _ := rfl
  server _ _ _ := rfl
  curdir _ _ := rfl
  invalidate _ _ := rfl
  fid _ _ _ := map_modifyHandle fun _ => rfl
  reopened _ _ _ _ := map_modifyHandle fun _ => rfl

end Names

/-! ## Runs -/

/-- A driver, and the paths its files were opened with. -/
structure Ledger where
  machine : Machine
  files : Nat → Option Name

/-- The paths after an operation; `path` is what its name stands for. -/
def recordPath (files : Nat → Option Name) (s : Host) : Op → Option (Except Errno (Option Nat)) →
    Nat → Option Name
  | .openFile filename _, some (.ok (some fh)) =>
      fun i => if i = fh then some (s.fullPath filename) else files i
  | .dopen _, some (.ok (some fh)) => fun i => if i = fh then none else files i
  | _, _ => files

def Ledger.next (l : Ledger) (t : Turn) : Ledger where
  machine := l.machine.next t
  files := recordPath l.files l.machine.host t.op (l.machine.host.result t)

/-- A share is open, and no file yet. -/
structure Mounted (l : Ledger) : Prop where
  free : l.machine.free = true
  unopened : l.machine.opened = []
  unused : ∀ fh, (l.machine.host.state.handle fh).used = false
  share : l.machine.host.state.session.openshareValid = true

/-- Every operation but the session requests. -/
def mounted : System Ledger Turn where
  init := Mounted
  step l t l' := t.op.manages = false ∧ driver.step l.machine t l'.machine ∧ l' = l.next t

section Runs

variable {s : Host} {files : Nat → Option Name}

theorem recordPath_other {op : Op} {r : Option (Except Errno (Option Nat))}
    (hopen : ∀ filename mode, op ≠ .openFile filename mode) (hdopen : ∀ dirname, op ≠ .dopen dirname) :
    recordPath files s op r = files := by
  unfold recordPath
  split
  · exact absurd rfl (hopen _ _)
  · exact absurd rfl (hdopen _)
  · rfl

/-- How an operation changes which file is in which slot. -/
theorem call_named (h : Named files s.state) (rounds : Nat) (op : Op) :
    Always s (op.call rounds) fun r s' => Named (recordPath files s op (some r)) s'.state := by
  by_cases hopen : ∃ filename mode, op = .openFile filename mode
  · obtain ⟨filename, mode, rfl⟩ := hopen
    refine Ensures.bind (smbOpen_ensures fun _ _ _ => trivial) ?_ ?_
    · rintro fh _ ⟨-, -, fid, filesize, events, -, -, rfl⟩
      have hinvalidated : Named files (s.state.invalidate (some fh)) := h.of_labels rfl
      refine ensures_pure (hinvalidated.take (fun path hpath => ?_) fun hnone => ?_)
      · cases hpath
        rfl
      · cases hnone
    · rintro e _ ⟨g, events, hg, -, rfl⟩
      refine h.of_labels ?_
      show (g s.state).labels = _
      rcases hg with hg | ⟨fh, -, hg⟩
      · rw [hg]
      · rw [hg]
        rfl
  by_cases hdopen : ∃ dirname, op = .dopen dirname
  · obtain ⟨dirname, rfl⟩ := hdopen
    refine Ensures.bind (smbDopen_ensures fun _ _ _ => trivial) ?_ ?_
    · rintro fh _ ⟨events, -, -, rfl⟩
      exact ensures_pure (h.take nofun fun _ => rfl)
    · rintro e _ ⟨events, -, rfl⟩
      exact h
  by_cases hclose : ∃ fh, op = .close fh
  · obtain ⟨fh, rfl⟩ := hclose
    refine Ensures.discard (withFile_ensures (P := fun s' => Named files s'.state) trivial h fun _ => ?_)
    refine (smbCloseFile_ensures fun _ _ _ _ => trivial).mono ?_
    rintro r _ ⟨events, -, -, houtcome⟩
    cases r with
    | ok _ =>
        obtain ⟨-, -, -, rfl⟩ := houtcome
        exact Named.give (h.of_labels rfl)
    | error e =>
        obtain ⟨rfl, -⟩ := houtcome
        exact h
  · have hopen' : ∀ filename mode, op ≠ .openFile filename mode :=
      fun filename mode hop => hopen ⟨filename, mode, hop⟩
    have hdopen' : ∀ dirname, op ≠ .dopen dirname := fun dirname hop => hdopen ⟨dirname, hop⟩
    have hclose' : ∀ fh, op ≠ .close fh := fun fh hop => hclose ⟨fh, hop⟩
    refine (ensures_modifies (T := fun x x' => x'.labels = x.labels) (fun _ => rfl)
      (fun _ _ _ h h' => h'.trans h) (fun x _ hg => hg x)
      (call_modifies upkeep_labels (fun _ _ => rfl) (fun _ _ => rfl) ?_ rounds hopen' hdopen' hclose')).mono ?_
    · intro fh g hg x
      exact map_modifyHandle fun h' => by
        obtain ⟨hused, hmode, hname⟩ := hg h'
        rw [Handle.label, hused, hmode, hname]
        rfl
    · intro r s' hlabels
      rw [recordPath_other hopen' hdopen']
      exact h.of_labels hlabels

theorem mounted_invariant : mounted.Invariant (fun _ _ => True) fun l => l.machine.free = true →
    Named l.files l.machine.host.state ∧ l.machine.host.state.session.openshareValid = true where
  init := by
    intro l h _
    refine ⟨⟨fun fh _ hused => ?_, fun fh hused => ?_⟩, h.share⟩
    · cases (h.unused fh).symm.trans hused
    · cases (h.unused fh).symm.trans hused
  step := by
    rintro l t _ - hl - ⟨hop, ⟨hfree, -, -⟩, rfl⟩ hfree'
    obtain ⟨hnamed, hvalid⟩ := hl hfree
    obtain ⟨r, hr⟩ := Option.isSome_iff_exists.mp hfree'
    have hshared : Shared l.machine.host.state.session l.machine.host := ⟨hvalid, rfl, rfl⟩
    have hturn := ((call_named hnamed t.rounds t.op).and (steady_shared.call hshared t.rounds hop)).turn
      (t := t) trivial (fun _ _ => trivial) fun _ _ => trivial
    obtain ⟨hnamed', hshared'⟩ := hturn.2.2 r hr
    refine ⟨?_, hshared'.valid⟩
    show Named (recordPath l.files l.machine.host t.op (l.machine.host.result t)) _
    rw [hr]
    exact hnamed'

/-- `s'` may be a state in the middle of an operation that begins in `s`: slots are used for
what they were, and the share is still to be opened again. -/
structure During (s s' : Host) : Prop where
  labels : s'.state.labels = s.state.labels
  share : s'.state.session.openshareValid = s.state.session.openshareValid

/-- What a reconnect can replay: names that fit, no file with the flags of a directory, and
the root of the share as the current directory. -/
structure Replayable (files : Nat → Option Name) (s : Host) : Prop where
  names : ∀ fh path, (s.state.handle fh).used = true → files fh = some path → path.length ≤ 256
  flags : ∀ fh path, (s.state.handle fh).used = true → files fh = some path →
    (s.state.handle fh).mode.directory = false
  curdir : ∃ share, splitSharePath s.state.session.openshare = some (share, s.state.curdir)

theorem KeepsHandles.fields {x x' : State} (h : KeepsHandles x x') (fh : Nat) :
    (x'.handle fh).used = (x.handle fh).used ∧ (x'.handle fh).mode = (x.handle fh).mode ∧
      (x'.handle fh).name = (x.handle fh).name ∧ (x'.handle fh).position = (x.handle fh).position := by
  have hkept := map_eq_handle h fh
  simpa only [Handle.kept, Prod.mk.injEq] using hkept

theorem Replayable.transparent {s' : Host} (h : Replayable files s) (hnamed : Named files s.state)
    (hreconnected : Reconnected s.state.session s') (hempty : s'.state.readAhead.data = [])
    (hkept : KeepsHandles s.state s'.state)
    (hevents : ∃ events, s'.trace = events ++ s.trace ∧
      ∀ e ∈ events, e.Asks fun r => r.truncates = false) : Transparent files s s' where
  file fh path hused hfile := by
    obtain ⟨hused', hmode, hname, -⟩ := hkept.fields fh
    have hpath : (s'.state.handle fh).name = path := by
      rw [hname, hnamed.file fh path hused hfile]
      exact List.take_of_length_le (h.names fh path hused hfile)
    obtain ⟨uid, tid, huid, htid⟩ := hreconnected.session
    obtain ⟨fid, hfid, hissued⟩ := (hreconnected.handles fh).file (hused'.trans hused)
      (hmode ▸ h.flags fh path hused hfile)
    rw [huid, htid, hpath, hmode] at hissued
    exact ⟨hpath, uid, tid, fid, huid, htid, hfid, hissued⟩
  directory fh hused hfile := by
    obtain ⟨hused', hmode, -⟩ := hkept.fields fh
    exact (hreconnected.handles fh).directory (hused'.trans hused) (hmode ▸ hnamed.directory fh hused hfile)
  place fh := by
    obtain ⟨hused, hmode, -, hposition⟩ := hkept.fields fh
    exact ⟨hused, hposition, hmode⟩
  untruncated := hevents
  curdir := by
    obtain ⟨share, hsplit⟩ := h.curdir
    obtain ⟨share', root, hsplit', hroot⟩ := hreconnected.curdir
    cases hsplit.symm.trans hsplit'
    exact hroot
  buffer := hempty

theorem Transparent.replayable {s' : Host} (h : Transparent files s s') (hnamed : Named files s.state)
    (hreconnected : Reconnected s.state.session s') (hkept : KeepsHandles s.state s'.state) :
    Replayable files s where
  names fh path hused hfile := by
    have hname : handleName path = path :=
      calc handleName path = (s.state.handle fh).name := (hnamed.file fh path hused hfile).symm
        _ = (s'.state.handle fh).name := (hkept.fields fh).2.2.1.symm
        _ = path := (h.file fh path hused hfile).1
    have hlength := congrArg List.length hname
    rw [handleName, List.length_take] at hlength
    exact hlength ▸ Nat.min_le_left 256 path.length
  flags fh path hused hfile := by
    obtain ⟨hused', hmode, -⟩ := hkept.fields fh
    obtain ⟨-, uid, tid, fid, -, -, hfid, -⟩ := h.file fh path hused hfile
    rw [Bool.eq_false_iff]
    intro hdir
    cases hfid.symm.trans ((hreconnected.handles fh).directory (hused'.trans hused) (hmode ▸ hdir))
  curdir := by
    obtain ⟨share, root, hsplit, hroot⟩ := hreconnected.curdir
    exact ⟨share, by rw [hsplit, ← h.curdir, hroot]⟩

/-- A reconnect that returns is transparent exactly if it can replay what it finds. -/
theorem reconnect_transparent_iff {l : Ledger} (h : mounted.Reachable (fun _ _ => True) l)
    (hfree : l.machine.free = true) (hs : During l.machine.host s) {rounds : Nat} {answers : List Got}
    {connects : List Bool} {n : Net} (hok : (smbReconnectUntilReady rounds).run.exec serve
      ⟨s, answers, connects⟩ = (some (.ok ()), n)) :
    Transparent l.files s n.host ↔ Replayable l.files s := by
  obtain ⟨hnamed, hvalid⟩ := mounted_invariant.holds h hfree
  have hnamed' := hnamed.of_labels hs.labels
  have hshared : Shared s.state.session s := ⟨hs.share.trans hvalid, rfl, rfl⟩
  have huses := reconnecting_kept.reconnectUntilReady rounds
  have hrun := (((smbReconnectUntilReady_reconnected hshared rounds).and (always_kept huses)).and
    (ensures_requests (fun _ _ => trivial) huses)).exec (n := ⟨s, answers, connects⟩) trivial fun _ _ => trivial
  rw [hok] at hrun
  obtain ⟨⟨⟨-, hdone⟩, hkept⟩, hevents⟩ := hrun.2 _ rfl
  obtain ⟨hreconnected, hempty⟩ := hdone rfl
  constructor
  · exact fun htransparent => htransparent.replayable hnamed' hreconnected hkept
  · exact fun hreplay => hreplay.transparent hnamed' hreconnected hempty hkept hevents

end Runs

theorem mounted_next {l : Ledger} {t : Turn} (h : mounted.Reachable (fun _ _ => True) l)
    (hop : t.op.manages = false) (hfree : l.machine.free = true)
    (hfile : ∀ fh, t.op.file = some fh → fh ∈ l.machine.opened) :
    mounted.Reachable (fun _ _ => True) (l.next t) :=
  h.next trivial ⟨hop, ⟨hfree, hfile, rfl⟩, rfl⟩

def mountedShare : Ledger := ⟨sharing, fun _ => none⟩

theorem mountedShare_reachable : mounted.Reachable (fun _ _ => True) mountedShare := by
  refine .init ⟨by decide +kernel, by decide +kernel, fun fh => ?_, by decide +kernel⟩
  have hhandles : sharing.host.state.handles = List.replicate 32 noHandle := by decide +kernel
  show (sharing.host.state.handle fh).used = false
  unfold State.handle
  rw [hhandles, List.getD_eq_getElem?_getD, List.getElem?_replicate]
  split
  · rfl
  · rfl

/-- A file is open. -/
def openedFile : Ledger := mountedShare.next (granting (.openFile fileName readOnly) 3)

def reconnected (s : Host) (answers : Nat) : Option (Except Errno Unit) × Net :=
  (smbReconnectUntilReady 3).run.exec serve ⟨s, List.replicate answers (.reply granted), [true]⟩

theorem reconnect_transparent_file :
    openedFile.files 0 = some [backslash, 0x66] ∧
      (openedFile.machine.host.state.handle 0).used = true ∧
      Transparent openedFile.files openedFile.machine.host
        (reconnected openedFile.machine.host 6).2.host := by
  have hreach : mounted.Reachable (fun _ _ => True) openedFile :=
    mounted_next mountedShare_reachable rfl (by decide +kernel) nofun
  have hok : (reconnected openedFile.machine.host 6).1 = some (.ok ()) := rfl
  have hfiles : openedFile.files = fun i => if i = 0 then some [backslash, 0x66] else none := rfl
  have hmode : (openedFile.machine.host.state.handle 0).mode.directory = false := by decide +kernel
  refine ⟨by decide +kernel, by decide +kernel, ?_⟩
  refine (reconnect_transparent_iff hreach (by decide +kernel) ⟨rfl, rfl⟩ (Prod.ext hok rfl)).mpr ?_
  have hfile : ∀ fh path, openedFile.files fh = some path → fh = 0 ∧ path = [backslash, 0x66] := by
    intro fh path h
    rw [hfiles] at h
    dsimp only at h
    split at h
    · cases h
      exact ⟨‹_›, rfl⟩
    · cases h
  refine ⟨fun fh path _ h => ?_, fun fh path _ h => ?_, shareName, by decide +kernel⟩
  · obtain ⟨-, rfl⟩ := hfile fh path h
    decide
  · obtain ⟨rfl, -⟩ := hfile fh path h
    exact hmode

/-- The current directory is not the root of the share. -/
def wentInto : Ledger := mountedShare.next
  ⟨.chdir fileName, 3, List.replicate 2 (.reply { granted with directory := true }), []⟩

theorem reconnect_moves_curdir :
    mounted.Reachable (fun _ _ => True) wentInto ∧
      (reconnected wentInto.machine.host 3).1 = some (.ok ()) ∧
      wentInto.machine.host.state.curdir = [backslash, 0x66] ∧
      (reconnected wentInto.machine.host 3).2.host.state.curdir = [] ∧
      ¬ Transparent wentInto.files wentInto.machine.host (reconnected wentInto.machine.host 3).2.host := by
  have hbefore : wentInto.machine.host.state.curdir = [backslash, 0x66] := by decide +kernel
  have hafter : (reconnected wentInto.machine.host 3).2.host.state.curdir = [] := by decide +kernel
  refine ⟨mounted_next mountedShare_reachable rfl (by decide +kernel) nofun, rfl, hbefore, hafter, ?_⟩
  intro h
  have hcurdir := h.curdir
  rw [hbefore, hafter] at hcurdir
  cases hcurdir

end BdmAssault.Smb.Driver
