import BdmAssault.Smb.Driver.Upkeep

/-! # Functions on handles

What opening, closing and searching do to the globals, and the requests they send.
-/

namespace BdmAssault.Smb.Driver

open Lib

/-! ## Opening -/

/-- A granted open of `path`, with the identifier it returned. -/
def Event.Opens (uid tid : Option Nat) (path : Name) (mode : OpenMode) (fid : Nat) : Event → Prop
  | .exchange _ (.openFile uid' tid' path' mode') got =>
      uid' = uid ∧ tid' = tid ∧ path' = path ∧ mode' = mode ∧ ∃ r, got.granted = some r ∧ r.fid = fid
  | .exchange _ (.ntCreate uid' tid' path' mode') got =>
      uid' = uid ∧ tid' = tid ∧ path' = path ∧ mode' = mode ∧ ∃ r, got.granted = some r ∧ r.fid = fid
  | _ => False

/-- The requests of `smb_OpenAndX`. -/
def Opening (uid tid : Option Nat) (path : Name) (mode : OpenMode) : Request → Prop
  | .openFile uid' tid' path' mode' => uid' = uid ∧ tid' = tid ∧ path' = path ∧ mode' = mode
  | .ntCreate uid' tid' path' mode' => uid' = uid ∧ tid' = tid ∧ path' = path ∧ mode' = mode
  | .queryPathInformation uid' tid' path' _ => uid' = uid ∧ tid' = tid ∧ path' = path
  | _ => False

section Opening

variable {C : Event → Prop} {I : Host → Prop} {s : Host} {caller : Caller} {uid tid : Option Nat}
  {path : Name} {mode : OpenMode}

/-- What is to be shown of a reply whose status is then checked. -/
def Inspected {β : Type} (C : Event → Prop) (I : Host → Prop) (f : Reply → Call β)
    (Q : Except Errno β → Host → Prop) : Except Errno Reply → Host → Prop
  | .ok r, s' => (r.status ≠ statusSuccess → ∀ e, Q (.error e) s') ∧
      (r.status = statusSuccess → Ensures C I s' (f r) Q)
  | .error e, s' => Q (.error e) s'

/-- A request whose granted reply is looked at. -/
theorem Ensures.granted {β : Type} {request : Request} {f : Reply → Call β}
    {Q : Except Errno β → Host → Prop}
    (hsent : s.connected = true → ∀ got, C (.exchange caller request got) →
      I (s.record (.exchange caller request got)) ∧
        (got.granted = none → ∀ e, Q (.error e) (s.record (.exchange caller request got))) ∧
        ∀ r, got.granted = some r → Ensures C I (s.record (.exchange caller request got)) (f r) Q)
    (hreset : s.connected = false → I s ∧ Q (.error .eio) s) :
    Ensures C I s (requestReply caller request >>= fun r => checkStatus r >>= fun _ => f r) Q := by
  refine Ensures.bind (ensures_requestReply (Q := Inspected C I f Q) (fun hc got hC => ?_) hreset) ?_
    fun e s' h => h
  · obtain ⟨hI, hrefused, hgranted⟩ := hsent hc got hC
    refine ⟨hI, ?_⟩
    cases hanswered : got.answered with
    | none => exact hrefused (by simp [Got.granted, hanswered]) _
    | some r =>
        refine ⟨fun hstatus => hrefused ?_, fun hstatus => hgranted r ?_⟩
        · simp [Got.granted, hanswered, hstatus]
        · exact Got.granted_eq_some.mpr ⟨hanswered, hstatus⟩
  · rintro r s' ⟨hrefused, hgranted⟩
    refine Ensures.bind (checkStatus_ensures r s') ?_ ?_
    · rintro _ _ ⟨rfl, hstatus⟩
      exact hgranted (hstatus.mp rfl)
    · rintro e _ ⟨rfl, hstatus⟩
      refine hrefused (fun h => ?_) e
      cases hstatus.mpr h

/-- The file that was opened, if one was. -/
structure OpenedAs (uid tid : Option Nat) (path : Name) (mode : OpenMode) (s : Host)
    (r : Except Errno (Nat × Nat)) (s' : Host) (events : List Event) : Prop where
  extend : s' = s.extend events
  sends : ∀ e ∈ events, e.Sends (Opening uid tid path mode)
  opens : ∀ fid filesize, r = .ok (fid, filesize) → ∃ e ∈ events, e.Opens uid tid path mode fid

theorem smbOpenAndX_ensures
    (hI : ∀ events, (∀ e ∈ events, e.Sends (Opening uid tid path mode)) → I (s.extend events)) :
    Ensures C I s (smbOpenAndX caller uid tid path mode) fun r s' =>
      ∃ events, OpenedAs uid tid path mode s r s' events := by
  refine Ensures.get (hI [] (List.forall_mem_nil _)) ?_
  split
  · refine Ensures.granted (fun _ got _ => ?_) fun _ => ⟨hI [] (List.forall_mem_nil _), [], rfl, List.forall_mem_nil _, nofun⟩
    have hsends : ∀ e ∈ [Event.exchange caller (.ntCreate uid tid path mode) got],
        e.Sends (Opening uid tid path mode) := by
      exact List.forall_mem_singleton.mpr ⟨rfl, rfl, rfl, rfl⟩
    refine ⟨hI _ hsends, fun _ e => ⟨_, rfl, hsends, nofun⟩, fun r hr => ?_⟩
    refine ensures_pure ⟨_, rfl, hsends, fun fid filesize h => ?_⟩
    cases h
    exact ⟨_, List.mem_singleton_self _, rfl, rfl, rfl, rfl, r, hr, rfl⟩
  · refine Ensures.granted (fun _ got _ => ?_) fun _ => ⟨hI [] (List.forall_mem_nil _), [], rfl, List.forall_mem_nil _, nofun⟩
    have hsends : ∀ e ∈ [Event.exchange caller (.openFile uid tid path mode) got],
        e.Sends (Opening uid tid path mode) := by
      exact List.forall_mem_singleton.mpr ⟨rfl, rfl, rfl, rfl⟩
    refine ⟨hI _ hsends, fun _ e => ⟨_, rfl, hsends, nofun⟩, fun r hr => ?_⟩
    have hall : ∀ events, (∀ e ∈ events, e.Sends (Opening uid tid path mode)) →
        ∀ e ∈ events ++ [Event.exchange caller (.openFile uid tid path mode) got],
          e.Sends (Opening uid tid path mode) :=
      fun events h e he => (List.mem_append.mp he).elim (h e) (hsends e)
    refine Ensures.result (ensures_asks (P := Opening uid tid path mode)
      (smbQueryPathInformation_uses fun _ => ⟨rfl, rfl, rfl⟩) fun events h => ?_) ?_
    · rw [Host.record_eq_extend, s.extend_extend]
      exact hI _ (hall events fun e he => (h e he).1)
    · rintro res _ ⟨events, rfl, hevents⟩
      rw [Host.record_eq_extend, s.extend_extend]
      have hsends' := hall events fun e he => (hevents e he).1
      cases res with
      | ok info =>
          refine ensures_pure ⟨_, rfl, hsends', fun fid filesize h => ?_⟩
          cases h
          exact ⟨_, List.mem_append_right _ (List.mem_singleton_self _), rfl, rfl, rfl, rfl, r, hr, rfl⟩
      | error e => exact ensures_throw ⟨_, rfl, hsends', nofun⟩

end Opening

def State.invalidate (fh : Option Nat) (s : State) : State :=
  { s with readAhead := s.readAhead.invalidate fh }

/-- A slot after a file was opened in it. -/
def State.install (fh : Nat) (path : Name) (mode : OpenMode) (fid filesize : Nat) (s : State) : State :=
  (s.invalidate (some fh)).modifyHandle fh fun _ =>
    { used := true
      fid := some fid
      filesize := if mode.truncate then 0 else filesize
      position := if mode.append ∧ mode.truncate = false then filesize else 0
      mode := mode
      name := handleName path }

/-- The path a name stands for. -/
def Host.fullPath (s : Host) (filename : Name) : Name := preparePath s.state.curdir filename

/-- The requests of an open in `s`. -/
def Host.opening (s : Host) (filename : Name) (mode : OpenMode) : Request → Prop :=
  Opening s.state.session.uid s.state.session.tid (s.fullPath filename) mode

/-- Of the globals at most the read-ahead buffer of a free slot changes. -/
def Discards (x : State) (g : State → State) : Prop :=
  g x = x ∨ ∃ fh, x.freeSlot = some fh ∧ g x = x.invalidate (some fh)

def OpenOutcome (filename : Name) (mode : OpenMode) (s : Host) (r : Except Errno Nat) (s' : Host) :
    Prop :=
  match r with
  | .ok fh => s.state.session.noTree = false ∧ s.state.freeSlot = some fh ∧
      ∃ fid filesize events, (∀ e ∈ events, e.Sends (s.opening filename mode)) ∧
        (∃ e ∈ events, e.Opens s.state.session.uid s.state.session.tid (s.fullPath filename) mode fid) ∧
        s' = (s.modify (State.install fh (s.fullPath filename) mode fid filesize)).extend events
  | .error _ => ∃ g events, Discards s.state g ∧ (∀ e ∈ events, e.Sends (s.opening filename mode)) ∧
      s' = (s.modify g).extend events

section Open

variable {α : Type} {C : Event → Prop} {I : Host → Prop} {s : Host}

theorem withPath_ensures {filename : Name} {locked : Name → Call α}
    {Q : Except Errno α → Host → Prop} (hI : I s) (herror : ∀ e, Q (.error e) s)
    (h : s.state.session.noTree = false → Ensures C I s (locked (s.fullPath filename)) Q) :
    Ensures C I s (withPath filename locked) Q := by
  refine Ensures.get hI ?_
  split
  · exact ensures_throw (herror _)
  · exact h (Bool.eq_false_iff.mpr ‹_›)

theorem smbOpen_ensures {filename : Name} {mode : OpenMode}
    (hI : ∀ g events, (∀ e ∈ events, e.Sends (s.opening filename mode)) →
      I ((s.modify g).extend events)) :
    Ensures C I s (smbOpen filename mode) (OpenOutcome filename mode s) := by
  have hnone := List.forall_mem_nil (Event.Sends (s.opening filename mode))
  have hfailed : ∀ e, OpenOutcome filename mode s (.error e) s :=
    fun e => ⟨id, [], Or.inl rfl, hnone, rfl⟩
  refine withPath_ensures (hI id [] hnone) hfailed fun htree => ?_
  refine Ensures.get (hI id [] hnone) ?_
  split
  · exact ensures_throw (hfailed _)
  · rename_i fh hfree
    refine Ensures.modify (hI (State.invalidate (some fh)) [] hnone) ?_
    refine Ensures.bind (smbOpenAndX_ensures fun events h => hI _ events h) ?_ ?_
    · rintro ⟨fid, filesize⟩ _ ⟨events, rfl, hsends, hopens⟩
      refine Ensures.modify (hI (State.install fh _ _ _ _) events hsends) (ensures_pure ?_)
      exact ⟨htree, hfree, fid, filesize, events, hsends, hopens fid filesize rfl, rfl⟩
    · rintro e _ ⟨events, rfl, hsends, -⟩
      exact ⟨_, events, Or.inr ⟨fh, hfree, rfl⟩, hsends, rfl⟩

/-! ## Directories -/

/-- A slot after a directory was opened in it. -/
def State.installDir (fh : Nat) (path : Name) (s : State) : State :=
  s.modifyHandle fh fun h => { h with
    used := true, filesize := 0, position := 0, mode := dirOpen, name := searchPattern path }

/-- Queries about a path. -/
def Querying (uid tid : Option Nat) (path : Name) : Request → Prop
  | .queryPathInformation uid' tid' path' _ => uid' = uid ∧ tid' = tid ∧ path' = path
  | _ => False

def Host.querying (s : Host) (filename : Name) : Request → Prop :=
  Querying s.state.session.uid s.state.session.tid (s.fullPath filename)

def DopenOutcome (dirname : Name) (s : Host) (r : Except Errno Nat) (s' : Host) : Prop :=
  ∃ events, (∀ e ∈ events, e.Sends (s.querying dirname)) ∧
    match r with
    | .ok fh => s.state.freeSlot = some fh ∧
        s' = (s.modify (State.installDir fh (s.fullPath dirname))).extend events
    | .error _ => s' = s.extend events

theorem smbDopen_ensures {dirname : Name}
    (hI : ∀ g events, (∀ e ∈ events, e.Sends (s.querying dirname)) → I ((s.modify g).extend events)) :
    Ensures C I s (smbDopen dirname) (DopenOutcome dirname s) := by
  have hnone := List.forall_mem_nil (Event.Sends (s.querying dirname))
  refine withPath_ensures (hI id [] hnone) (fun _ => ⟨[], hnone, rfl⟩) fun _ => ?_
  refine Ensures.get (hI id [] hnone) ?_
  refine Ensures.bind (ensures_asks (P := s.querying dirname)
    (smbQueryPathInformation_uses fun _ => ⟨rfl, rfl, rfl⟩)
    fun events h => hI id events fun e he => (h e he).1) ?_ ?_
  · rintro info _ ⟨events, rfl, hevents⟩
    have hsends : ∀ e ∈ events, e.Sends (s.querying dirname) := fun e he => (hevents e he).1
    split
    · refine Ensures.get (hI id events hsends) ?_
      split
      · exact ensures_throw ⟨events, hsends, rfl⟩
      · rename_i fh hfree
        refine Ensures.modify (hI (State.installDir fh _) events hsends) (ensures_pure ?_)
        exact ⟨events, hsends, hfree, rfl⟩
    · exact ensures_throw ⟨events, hsends, rfl⟩
  · rintro e _ ⟨events, rfl, hevents⟩
    exact ⟨events, fun e he => (hevents e he).1, rfl⟩

/-! ## Closing -/

/-- A CLOSE that the server answers with a success, or with an empty packet. -/
def Event.closes : Event → Bool
  | .exchange _ (.close _ _ _) got =>
      match got.received with
      | .ok none => true
      | _ => got.granted.isSome
  | _ => false

/-- The outcome of a CLOSE: it succeeds if it was sent and the server closed the file. -/
theorem smbClose_ensures {uid tid fid : Option Nat}
    (hI : ∀ events, events.length ≤ 1 → (∀ e ∈ events, e.Sends (· = .close uid tid fid)) →
      I (s.extend events)) :
    Ensures C I s (smbClose uid tid fid) fun r s' => ∃ events, s' = s.extend events ∧
      events.length ≤ 1 ∧ (∀ e ∈ events, e.Sends (· = .close uid tid fid)) ∧
      (r = .ok () → ∃ e ∈ events, e.closes = true) ∧
      ((∃ e, r = .error e) → ∀ e ∈ events, e.closes = false) := by
  have hone : ∀ got, ∀ e ∈ [Event.exchange .operation (.close uid tid fid) got],
      e.Sends (· = .close uid tid fid) := by
    intro got e he
    rw [List.mem_singleton] at he
    subst he
    rfl
  -- what a CLOSE was answered with decides the result
  have hdone : ∀ got : Got, ∀ e ∈ [Event.exchange .operation (.close uid tid fid) got],
      (got.received = .ok none ∨ got.granted.isSome = true) ↔ e.closes = true := by
    intro got e he
    rw [List.mem_singleton] at he
    subst he
    unfold Event.closes
    cases hreceived : got.received with
    | error e => simp [hreceived]
    | ok r =>
        cases r with
        | none => simp [hreceived]
        | some r => simp [hreceived]
  refine Ensures.bind (ensures_getSMBServerReply (Q := fun r s' =>
    (∃ got : Got, s' = s.extend [.exchange .operation (.close uid tid fid) got] ∧ r = got.received) ∨
      (s' = s ∧ r = .error .econnreset))
    (fun _ got _ => ⟨hI [_] (Nat.le_refl 1) (hone got), Or.inl ⟨got, rfl, rfl⟩⟩)
    fun _ => ⟨hI [] (Nat.zero_le 1) (List.forall_mem_nil _), Or.inr ⟨rfl, rfl⟩⟩) ?_ ?_
  · rintro reply _ (⟨got, rfl, hgot⟩ | ⟨-, hreset⟩)
    · have hmem := List.mem_singleton_self (Event.exchange .operation (.close uid tid fid) got)
      cases reply with
      | none =>
          refine ensures_pure ⟨_, rfl, Nat.le_refl 1, hone got, fun _ => ⟨_, hmem, ?_⟩, ?_⟩
          · exact (hdone got _ hmem).mp (Or.inl hgot.symm)
          · rintro ⟨e, he⟩
            cases he
      | some r =>
          have hrefused : got.granted = none → ∀ e ∈ [Event.exchange .operation (.close uid tid fid) got],
              e.closes = false := by
            intro hnone e he
            rw [Bool.eq_false_iff, Ne, ← hdone got e he, ← hgot, hnone]
            rintro (h | h)
            · cases h
            · cases h
          dsimp only
          split
          · rename_i hmagic
            refine (checkSuccess_ensures r _).mono ?_
            rintro res _ ⟨rfl, hres⟩
            refine ⟨_, rfl, Nat.le_refl 1, hone got, fun hok => ⟨_, hmem, ?_⟩, ?_⟩
            · have hgranted : got.granted = some r := by
                refine Got.granted_eq_some.mpr ⟨?_, hres.mp hok⟩
                simp [Got.answered, ← hgot, hmagic]
              exact (hdone got _ hmem).mp (Or.inr (by rw [hgranted]; rfl))
            · rintro ⟨e, he⟩
              refine hrefused ?_
              have hstatus : r.status ≠ statusSuccess := by
                intro h
                cases he.symm.trans (hres.mpr h)
              simp [Got.granted, Got.answered, ← hgot, hmagic, hstatus, Option.filter]
          · rename_i hmagic
            refine ensures_throw ⟨_, rfl, Nat.le_refl 1, hone got, ?_, fun _ => hrefused ?_⟩
            · intro hok
              cases hok
            · simp [Got.granted, Got.answered, ← hgot, hmagic]
    · cases hreset
  · rintro e _ (⟨got, rfl, hgot⟩ | ⟨rfl, -⟩)
    · refine ⟨_, rfl, Nat.le_refl 1, hone got, ?_, fun _ e' he' => ?_⟩
      · intro h
        cases h
      · rw [Bool.eq_false_iff, Ne, ← hdone got e' he', ← hgot]
        rintro (h | h)
        · cases h
        · simp [Got.granted, Got.answered, ← hgot] at h
    · refine ⟨[], rfl, Nat.zero_le 1, List.forall_mem_nil _, ?_, fun _ => List.forall_mem_nil _⟩
      intro h
      cases h

/-- A slot after it was given back. -/
def State.release (fh : Nat) (s : State) : State :=
  (s.invalidate (some fh)).modifyHandle fh fun _ => noHandle

/-- The CLOSE of the file in a slot. -/
def Host.closing (s : Host) (fh : Nat) (r : Request) : Prop :=
  r = .close s.state.session.uid s.state.session.tid (s.state.handle fh).fid ∧
    s.state.session.noTree = false ∧ (s.state.handle fh).fid ≠ none ∧
    (s.state.handle fh).mode.directory = false

def CloseOutcome (fh : Nat) (s : Host) (r : Except Errno Unit) (s' : Host) : Prop :=
  ∃ events, events.length ≤ 1 ∧ (∀ e ∈ events, e.Sends (s.closing fh)) ∧
    match r with
    | .ok _ => s.state.session.noTree = false ∧ (s.state.handle fh).fid ≠ none ∧
        ((s.state.handle fh).mode.directory = false → ∃ e ∈ events, e.closes = true) ∧
        s' = (s.modify (State.release fh)).extend events
    | .error _ => s' = s.extend events ∧ (∀ e ∈ events, e.closes = false) ∧
        (s.state.session.noTree = true ∨ (s.state.handle fh).fid = none ∨
          (s.state.handle fh).mode.directory = false)

theorem smbCloseFile_ensures {fh : Nat}
    (hI : ∀ g events, events.length ≤ 1 → (∀ e ∈ events, e.Sends (s.closing fh)) →
      I ((s.modify g).extend events)) :
    Ensures C I s (smbCloseFile fh) (CloseOutcome fh s) := by
  have hnone := List.forall_mem_nil (Event.Sends (s.closing fh))
  refine Ensures.get (hI id [] (Nat.zero_le 1) hnone) ?_
  dsimp only
  split
  · rename_i hinvalid
    exact ensures_throw
      ⟨[], Nat.zero_le 1, hnone, rfl, List.forall_mem_nil _, hinvalid.imp_right Or.inl⟩
  · rename_i hvalid
    have htree : s.state.session.noTree = false := Bool.eq_false_iff.mpr fun h => hvalid (Or.inl h)
    have hfid : (s.state.handle fh).fid ≠ none := fun h => hvalid (Or.inr h)
    have hrest : ∀ events, events.length ≤ 1 → (∀ e ∈ events, e.Sends (s.closing fh)) →
        ((s.state.handle fh).mode.directory = false → ∃ e ∈ events, e.closes = true) →
        Ensures C I (s.extend events)
          (do readAheadInvalidate (some fh); modifyHandle fh fun _ => noHandle : Call Unit)
          (CloseOutcome fh s) := by
      intro events hlength hsends hclosed
      refine Ensures.modify (hI (State.invalidate (some fh)) events hlength hsends)
        (ensures_modify (hI (State.release fh) events hlength hsends) ?_)
      exact ⟨events, hlength, hsends, htree, hfid, hclosed, rfl⟩
    split
    · rename_i hfile
      have hclosing : ∀ events : List Event, (∀ e ∈ events, e.Sends (· = .close s.state.session.uid
          s.state.session.tid (s.state.handle fh).fid)) → ∀ e ∈ events, e.Sends (s.closing fh) := by
        intro events h e he
        have hsend := h e he
        cases e with
        | exchange _ request _ => exact ⟨hsend, htree, hfid, hfile⟩
        | connect _ => exact hsend
        | disconnect => exact hsend
      refine Ensures.bind (smbClose_ensures fun events hlength h =>
        hI id events hlength (hclosing events h)) ?_ ?_
      · rintro _ _ ⟨events, rfl, hlength, hsends, hclosed, -⟩
        exact hrest events hlength (hclosing events hsends) fun _ => hclosed rfl
      · rintro e _ ⟨events, rfl, hlength, hsends, -, hrefused⟩
        exact ⟨events, hlength, hclosing events hsends, rfl, hrefused ⟨e, rfl⟩, Or.inr (Or.inr hfile)⟩
    · rename_i hdir
      exact hrest [] (Nat.zero_le 1) hnone fun h => absurd h hdir

/-! ## Searching and seeking -/

/-- A search that was begun and granted with this identifier, and an entry. -/
def Event.Searches (uid tid : Option Nat) (sid : Nat) : Event → Prop
  | .exchange _ (.find uid' tid' none _) got =>
      uid' = uid ∧ tid' = tid ∧ ∃ r, got.granted = some r ∧ r.searchCount ≠ 0 ∧ r.searchId = sid
  | _ => False

/-- The search of the directory in a slot. -/
def Host.searching (s : Host) (fh : Nat) (r : Request) : Prop :=
  s.state.session.noTree = false ∧
    ∃ pattern, r = .find s.state.session.uid s.state.session.tid (s.state.handle fh).fid pattern

def State.setFid (fh : Nat) (fid : Option Nat) (s : State) : State :=
  s.modifyHandle fh fun h => { h with fid := fid }

def DreadOutcome (fh : Nat) (s s' : Host) : Prop :=
  ∃ events, (∀ e ∈ events, e.Sends (s.searching fh)) ∧
    (s' = s.extend events ∨ ((s.state.handle fh).fid = none ∧ ∃ sid,
      (∃ e ∈ events, e.Searches s.state.session.uid s.state.session.tid sid) ∧
      s' = (s.modify (State.setFid fh (some sid))).extend events))

theorem smbDread_ensures {fh : Nat}
    (hI : ∀ g events, (∀ e ∈ events, e.Sends (s.searching fh)) → I ((s.modify g).extend events)) :
    Ensures C I s (smbDread fh) fun _ s' => DreadOutcome fh s s' := by
  have hnone := List.forall_mem_nil (Event.Sends (s.searching fh))
  refine Ensures.get (hI id [] hnone) ?_
  split
  · exact ensures_throw ⟨[], hnone, Or.inl rfl⟩
  · rename_i hvalid
    have htree : s.state.session.noTree = false := Bool.eq_false_iff.mpr hvalid
    split
    · rename_i hfid
      refine Ensures.bind (R := fun r s' => ∃ events, s' = s.extend events ∧
        (∀ e ∈ events, e.Sends (s.searching fh)) ∧ ∀ sid, r = .ok sid →
          ∃ e ∈ events, e.Searches s.state.session.uid s.state.session.tid sid)
        (Ensures.granted (fun _ got _ => ?_) fun _ => ?_) ?_ ?_
      · have hsends : ∀ e ∈ [Event.exchange .operation (.find s.state.session.uid s.state.session.tid none
            (s.state.handle fh).name) got], e.Sends (s.searching fh) := by
          exact List.forall_mem_singleton.mpr ⟨htree, _, by rw [hfid]⟩
        refine ⟨hI id _ hsends, fun _ e => ⟨_, rfl, hsends, nofun⟩, fun r hr => ?_⟩
        split
        · exact ensures_throw ⟨_, rfl, hsends, nofun⟩
        · rename_i hcount
          refine ensures_pure ⟨_, rfl, hsends, fun sid hsid => ?_⟩
          cases hsid
          exact ⟨_, List.mem_singleton_self _, rfl, rfl, r, hr, hcount, rfl⟩
      · exact ⟨hI id [] hnone, [], rfl, hnone, nofun⟩
      · rintro sid _ ⟨events, rfl, hsends, hsearch⟩
        refine ensures_modify (hI (State.setFid fh (some sid)) events hsends) ⟨events, hsends, Or.inr ?_⟩
        exact ⟨hfid, sid, hsearch sid rfl, rfl⟩
      · rintro e _ ⟨events, rfl, hsends, -⟩
        exact ⟨events, hsends, Or.inl rfl⟩
    · rename_i sid hfid
      refine Ensures.bind (ensures_asks (P := s.searching fh)
        (smbFindFirstNext2_uses ⟨htree, [], by rw [hfid]⟩)
        fun events h => hI id events fun e he => (h e he).1) ?_ ?_
      · rintro _ _ ⟨events, rfl, hevents⟩
        exact ensures_pure ⟨events, fun e he => (hevents e he).1, Or.inl rfl⟩
      · rintro _ _ ⟨events, rfl, hevents⟩
        exact ⟨events, fun e he => (hevents e he).1, Or.inl rfl⟩

def State.setPosition (fh : Nat) (position : Int) (s : State) : State :=
  s.modifyHandle fh fun h => { h with position := position }

theorem smbLseek64_ensures {fh : Nat} {pos : Int} {whence : Whence} (hI : ∀ g, I (s.modify g)) :
    Ensures C I s (smbLseek64 fh pos whence) fun _ s' =>
      s' = s ∨ ∃ position, s' = s.modify (State.setPosition fh position) := by
  refine Ensures.get (hI id) ?_
  dsimp only
  split
  · exact ensures_throw (Or.inl rfl)
  · exact Ensures.modify (hI _) (ensures_pure (Or.inr ⟨_, rfl⟩))

end Open

/-! ## Fields of the handles -/

section Fields

variable {β : Type} {s : State} {fh : Nat} {g : Handle → Handle} {field : Handle → β}

theorem map_modifyHandle (hg : ∀ h, field (g h) = field h) :
    (s.modifyHandle fh g).handles.map field = s.handles.map field := by
  refine List.ext_getElem? fun i => ?_
  simp only [State.modifyHandle, List.getElem?_map, List.getElem?_modify]
  cases s.handles[i]? with
  | none => simp
  | some h =>
      by_cases hi : fh = i
      · simp [hi, hg]
      · simp [hi]

theorem map_modifyHandle_set {b : β} (hg : ∀ h, field (g h) = b) :
    (s.modifyHandle fh g).handles.map field = (s.handles.map field).set fh b := by
  refine List.ext_getElem? fun i => ?_
  simp only [State.modifyHandle, List.getElem?_map, List.getElem?_modify, List.getElem?_set]
  by_cases hi : fh = i
  · subst hi
    simp only [if_true, List.length_map]
    split
    · rw [List.getElem?_eq_getElem ‹_›]
      simp [hg]
    · rw [List.getElem?_eq_none (Nat.le_of_not_lt ‹_›)]
      rfl
  · simp [hi]

end Fields

/-! ## Operations that open and close nothing -/

theorem withFile_modifies {α : Type} {P : Request → Prop} {M : (State → State) → Prop} {fh : Nat}
    {body : Call α} (h : body.Uses (Modifies P M)) : (withFile fh body).Uses (Modifies P M) :=
  get_modifies.bind fun _ => Fallible.uses_ite h (Fallible.uses_throw _)

/-- They leave alone which slots are in use and for what. -/
theorem call_modifies {P : Request → Prop} {M : (State → State) → Prop} (k : Upkeep P M)
    (hfill : ∀ g : State → ReadAhead, M fun s => { s with readAhead := g s })
    (hcurdir : ∀ g : Name → Name, M fun s => { s with curdir := g s.curdir })
    (hhandle : ∀ fh (g : Handle → Handle), (∀ h, (g h).used = h.used ∧ (g h).mode = h.mode ∧
      (g h).name = h.name) → M fun s => s.modifyHandle fh g)
    {op : Op} (rounds : Nat) (hopen : ∀ filename mode, op ≠ .openFile filename mode)
    (hdopen : ∀ dirname, op ≠ .dopen dirname) (hclose : ∀ fh, op ≠ .close fh) :
    (op.call rounds).Uses (Modifies P M) := by
  have hnone : ∀ {β : Type} {m : Call β}, m.Uses (Modifies P M) →
      (m >>= fun _ => (pure none : Call (Option Nat))).Uses (Modifies P M) :=
    fun hm => hm.bind fun _ => Fallible.uses_pure _
  have hplain : op.plain = true → (op.call rounds).Uses (Modifies P M) := by
    refine fun hop => (plain_uses hop rounds).mono fun c hc => ?_
    cases c with
    | modify g =>
        cases hc with
        | invalidate fh => exact k.invalidate fh
        | curdir g => exact hcurdir g
    | exchange caller request =>
        refine k.transfers request ?_
        cases request with
        | openFile _ _ _ _ => cases hc
        | ntCreate _ _ _ _ => cases hc
        | _ => rfl
    | _ => trivial
  cases op with
  | openFile filename mode => exact absurd rfl (hopen filename mode)
  | dopen dirname => exact absurd rfl (hdopen dirname)
  | close fh => exact absurd rfl (hclose fh)
  | read fh size =>
      refine hnone (withFile_modifies (k.read hfill rounds fh size fun _ => ?_))
      exact hhandle fh _ fun _ => ⟨rfl, rfl, rfl⟩
  | write fh data =>
      refine hnone (withFile_modifies (k.write rounds fh data fun _ => ?_))
      exact hhandle fh _ fun _ => ⟨rfl, rfl, rfl⟩
  | lseek fh pos whence =>
      refine hnone (withFile_modifies (get_modifies.bind fun s => ?_))
      refine Fallible.uses_ite (Fallible.uses_throw _) ?_
      refine Fallible.Uses.bind (modify_modifies ?_) fun _ => Fallible.uses_pure _
      exact hhandle fh _ fun _ => ⟨rfl, rfl, rfl⟩
  | dread fh =>
      have hfind : ∀ {uid tid sid : Option Nat} {pattern : Name},
          (smbFindFirstNext2 uid tid sid pattern).Uses (Modifies P M) :=
        uses_modifies (smbFindFirstNext2_uses (k.transfers _ rfl))
      refine hnone (withFile_modifies (get_modifies.bind fun s => ?_))
      refine Fallible.uses_ite (Fallible.uses_throw _) ?_
      split
      · refine hfind.bind fun sid => modify_modifies ?_
        exact hhandle fh _ fun _ => ⟨rfl, rfl, rfl⟩
      · exact hfind.bind fun _ => Fallible.uses_pure _
  | logOn anonymous => exact hnone (k.logOn anonymous)
  | logOff => exact hnone (k.logOff .operation)
  | getShareList maxent => exact hnone (k.toManaging.getShareList maxent)
  | openShare configured => exact hnone (k.toManaging.openShare .operation configured)
  | closeShare => exact hnone k.closeShare
  | keepalive => exact hnone (k.keepalive rounds)
  | remove _ => exact hplain rfl
  | mkdir _ => exact hplain rfl
  | rmdir _ => exact hplain rfl
  | getstat _ => exact hplain rfl
  | rename _ _ => exact hplain rfl
  | chdir _ => exact hplain rfl
  | echo => exact hplain rfl
  | queryDiskInfo => exact hplain rfl

end BdmAssault.Smb.Driver
