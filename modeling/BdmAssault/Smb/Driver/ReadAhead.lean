import BdmAssault.Smb.Driver.Files

/-! # The read-ahead buffer

One buffer serves all handles. A read fills it, and every operation that may change the file
behind it has to empty it.
-/

namespace BdmAssault.Smb.Driver

open Lib

/-- The identifier of a file in this session and tree. -/
def Session.ident (x : Session) (fid : Nat) : Ident := ⟨x.uid, x.tid, .file, fid⟩

/-- `data` is what the server has at `offset` of the file that is open in a slot. -/
structure Reflects (s : Host) (v : Files) (fh fid : Nat) (offset : Int) (data : List UInt8) :
    Prop where
  used : (s.state.handle fh).used = true
  file : (s.state.handle fh).mode.directory = false
  holds : (s.state.handle fh).fid = some fid
  issued : s.state.session.ident fid ∈ live s.trace
  bytes : data = v.bytes (s.state.session.ident fid) offset data.length

/-- The buffer is empty, or its owner is an open file whose bytes it has. -/
def Coherent (s : Host) (v : Files) : Prop :=
  s.state.readAhead.data ≠ [] → ∃ fh fid, s.state.readAhead.fh = some fh ∧
    Reflects s v fh fid s.state.readAhead.offset s.state.readAhead.data

/-- What the coherence of the buffer rests on between two operations. -/
structure Trusted (s : Host) (v : Files) : Prop where
  tracked : Tracked s
  answered : ∀ e ∈ s.trace, e.Answered
  single : Single s.trace
  coherent : Coherent s v

/-- Coherence after further events, whatever they have done to the files. -/
def CoherentSince (base : List Event) (v : Files) (s : Host) : Prop :=
  ∀ events v', s.trace = events ++ base → Serves base v events v' → Coherent s v'

/-! ## Frames -/

/-- The buffer is emptied or stays as it is. -/
def KeepsBuffer (r r' : ReadAhead) : Prop :=
  r'.data = [] ∨ r'.fh = r.fh ∧ r'.offset = r.offset ∧ r'.data = r.data

section Frames

variable {s s' : Host} {v v' : Files} {fh fid : Nat} {offset : Int} {data : List UInt8}
  {i : Ident} {base events : List Event}

theorem keepsBuffer_refl (r : ReadAhead) : KeepsBuffer r r := Or.inr ⟨rfl, rfl, rfl⟩

theorem KeepsBuffer.trans {r r' r'' : ReadAhead} (h : KeepsBuffer r r') (h' : KeepsBuffer r' r'') :
    KeepsBuffer r r'' := by
  rcases h' with hempty | ⟨hfh, hoffset, hdata⟩
  · exact Or.inl hempty
  · rcases h with hempty | ⟨hfh', hoffset', hdata'⟩
    · exact Or.inl (hdata.trans hempty)
    · exact Or.inr ⟨hfh.trans hfh', hoffset.trans hoffset', hdata.trans hdata'⟩

theorem keepsBuffer_invalidate (r : ReadAhead) (fh : Option Nat) : KeepsBuffer r (r.invalidate fh) := by
  unfold ReadAhead.invalidate
  dsimp only
  split
  · split
    · exact Or.inl rfl
    · exact Or.inl rfl
  · split
    · exact keepsBuffer_refl r
    · exact keepsBuffer_refl r

theorem Reflects.step (h : Reflects s v fh fid offset data)
    (hsession : s'.state.session = s.state.session)
    (hgrip : (s'.state.handle fh).grip = (s.state.handle fh).grip)
    (hlive : s.state.session.ident fid ∈ live s'.trace)
    (hsame : v.Same (s.state.session.ident fid) v') : Reflects s' v' fh fid offset data := by
  obtain ⟨hused, hfid, hmode⟩ : (s'.state.handle fh).used = (s.state.handle fh).used ∧
      (s'.state.handle fh).fid = (s.state.handle fh).fid ∧
      (s'.state.handle fh).mode = (s.state.handle fh).mode := by
    simpa only [Handle.grip, Prod.mk.injEq] using hgrip
  refine ⟨hused.trans h.used, ?_, hfid.trans h.holds, ?_, ?_⟩
  · rw [hmode]
    exact h.file
  · rw [hsession]
    exact hlive
  · rw [hsession, hsame.bytes]
    exact h.bytes

theorem coherent_of_empty (h : s.state.readAhead.data = []) : Coherent s v := fun hne => absurd h hne

/-- The owner of the buffer is left as it is. -/
theorem Coherent.step (h : Coherent s v)
    (hbuffer : KeepsBuffer s.state.readAhead s'.state.readAhead)
    (howner : ∀ fh fid, s.state.readAhead.fh = some fh →
      Reflects s v fh fid s.state.readAhead.offset s.state.readAhead.data →
      Reflects s' v' fh fid s.state.readAhead.offset s.state.readAhead.data) : Coherent s' v' := by
  intro hne
  rcases hbuffer with hempty | ⟨hfh, hoffset, hdata⟩
  · exact absurd hempty hne
  · rw [hdata] at hne
    obtain ⟨fh, fid, howns, hreflects⟩ := h hne
    refine ⟨fh, fid, hfh.trans howns, ?_⟩
    rw [hoffset, hdata]
    exact howner fh fid howns hreflects

/-- An identifier in use keeps its file through requests that do not change the file. `M` is
what the requests rely on. -/
theorem Serves.same {M : Files → Prop} (h : Serves base v events v') (hM : M v)
    (hbase : ∀ e ∈ base, e.Answered) (hi : i ∈ live base) (hkind : i.kind = .file)
    (hlasting : ∀ e ∈ events, e.Sends fun r => r.lasting = true)
    (hstep : ∀ e ∈ events, ∀ ids w w', M w → v.Same i w → w.Step ids e w' →
      M w' ∧ ∀ r, e.request = some r → r.changes w ≠ some (w.opened i)) :
    M v' ∧ v.Same i v' := by
  induction events generalizing v' with
  | nil =>
      cases h
      exact ⟨hM, .refl i v⟩
  | cons e events ih =>
      obtain ⟨w, hw, hlast⟩ := h
      have hlasting' : ∀ e' ∈ events, e'.Sends fun r => r.lasting = true :=
        fun e' he' => hlasting e' (List.mem_cons_of_mem e he')
      obtain ⟨hMw, hsame⟩ := ih hw hlasting' fun e' he' => hstep e' (List.mem_cons_of_mem e he')
      have hanswered : ∀ e' ∈ events ++ base, e'.Answered := by
        intro e' he'
        rcases List.mem_append.mp he' with hmem | hmem
        · exact answered_of_asks (hlasting' e' hmem).asks nofun
        · exact hbase e' hmem
      have hin : i ∈ kept (events ++ base) := by
        rw [kept_eq_live hanswered, live_append hlasting']
        exact List.mem_append_right _ hi
      obtain ⟨hMv, hchanges⟩ := hstep e List.mem_cons_self _ w v' hMw hsame hlast
      exact ⟨hMv, hsame.trans (hlast.same hin hkind hchanges)⟩

end Frames

/-! ## Operations that change no file -/

/-- Requests that change no file and take no identifier back. -/
def Request.Resting (r : Request) : Prop := r.lasting = true ∧ ∀ v, r.changes v = none

/-- Steps that leave the slots in use alone, and the contents of all files. -/
structure Calm (s s' : Host) (events : List Event) : Prop where
  trace : s'.trace = events ++ s.trace
  sends : ∀ e ∈ events, e.Sends Request.Resting
  session : s'.state.session = s.state.session
  grip : ∀ fh, (s.state.handle fh).used = true → (s.state.handle fh).fid ≠ none →
    (s'.state.handle fh).grip = (s.state.handle fh).grip
  buffer : KeepsBuffer s.state.readAhead s'.state.readAhead

section Resting

variable {C : Event → Prop} {s s' : Host} {v : Files} {fh : Nat} {events : List Event}

theorem Calm.coherent (h : Calm s s' events) (hanswered : ∀ e ∈ s.trace, e.Answered)
    (hcoherent : Coherent s v) : CoherentSince s.trace v s' := by
  intro events' v' htrace hserves
  obtain rfl : events = events' := List.append_cancel_right (h.trace.symm.trans htrace)
  have hlasting : ∀ e ∈ events, e.Sends fun r => r.lasting = true :=
    fun e he => (h.sends e he).imp fun _ hr => hr.1
  refine hcoherent.step h.buffer fun fh fid _ howner => ?_
  refine howner.step h.session (h.grip fh howner.used ?_) ?_ ?_
  · rw [howner.holds]
    exact Option.some_ne_none fid
  · rw [h.trace, live_append hlasting]
    exact List.mem_append_right _ howner.issued
  · refine (hserves.same (M := fun _ => True) trivial hanswered howner.issued rfl hlasting ?_).2
    refine fun e he ids w w' _ _ _ => ⟨trivial, fun r hrequest hchanges => ?_⟩
    have hsends := h.sends e he
    cases e with
    | exchange caller request got =>
        cases hrequest
        rw [hsends.2 w] at hchanges
        cases hchanges
    | connect _ => cases hrequest
    | disconnect => cases hrequest

theorem Trusted.calm (ht : Trusted s v) (h : Calm s s' events) : CoherentSince s.trace v s' :=
  h.coherent ht.answered ht.coherent

theorem Trusted.self (ht : Trusted s v) : CoherentSince s.trace v s :=
  ht.calm ⟨rfl, List.forall_mem_nil _, rfl, fun _ _ _ => rfl, keepsBuffer_refl _⟩

theorem plain_resting {r : Request} (h : r.plain = true) : r.Resting := by
  cases r with
  | queryInformationDisk _ _ => exact ⟨rfl, fun _ => rfl⟩
  | queryPathInformation _ _ _ _ => exact ⟨rfl, fun _ => rfl⟩
  | delete _ _ _ => exact ⟨rfl, fun _ => rfl⟩
  | manageDirectory _ _ _ _ => exact ⟨rfl, fun _ => rfl⟩
  | rename _ _ _ _ => exact ⟨rfl, fun _ => rfl⟩
  | echo => exact ⟨rfl, fun _ => rfl⟩
  | _ => cases h

theorem plain_coherent (ht : Trusted s v) {op : Op} (hop : op.plain = true) (rounds : Nat) :
    Ensures C (fun _ => True) s (op.call rounds) fun _ s' => CoherentSince s.trace v s' := by
  refine (ensures_within (T := fun s s' : Host => ∃ events, Calm s s' events ∧
    s'.state.handles = s.state.handles) ?_ ?_ ?_ ?_ (fun _ _ => trivial) (plain_uses hop rounds)).mono ?_
  · exact fun s => ⟨[], ⟨rfl, List.forall_mem_nil _, rfl, fun _ _ _ => rfl, keepsBuffer_refl _⟩, rfl⟩
  · rintro s s' s'' ⟨events, h, hhandles⟩ ⟨events', h', hhandles'⟩
    have hhandle : ∀ fh, s'.state.handle fh = s.state.handle fh := by
      intro fh
      unfold State.handle
      rw [hhandles]
    refine ⟨events' ++ events, ⟨?_, ?_, h'.session.trans h.session, ?_, h.buffer.trans h'.buffer⟩,
      hhandles'.trans hhandles⟩
    · rw [h'.trace, h.trace, List.append_assoc]
    · exact fun e he => (List.mem_append.mp he).elim (h'.sends e) (h.sends e)
    · intro fh hused hfid
      rw [← hhandle fh] at hused hfid ⊢
      exact h'.grip fh hused hfid
  · intro s caller request got hrequest _
    refine ⟨[.exchange caller request got], ⟨rfl, ?_, rfl, fun _ _ _ => rfl, keepsBuffer_refl _⟩, rfl⟩
    intro e he
    rw [List.mem_singleton] at he
    subst he
    exact plain_resting hrequest
  · intro s g hg
    cases hg with
    | invalidate fh =>
        exact ⟨[], ⟨rfl, List.forall_mem_nil _, rfl, fun _ _ _ => rfl, keepsBuffer_invalidate _ fh⟩, rfl⟩
    | curdir g =>
        exact ⟨[], ⟨rfl, List.forall_mem_nil _, rfl, fun _ _ _ => rfl, keepsBuffer_refl _⟩, rfl⟩
  · rintro _ s' ⟨events, h, -⟩
    exact ht.calm h

/-- A slot that is free is not in use. -/
theorem freeSlot_unused {x : State} (h : x.freeSlot = some fh) : (x.handle fh).used = false := by
  obtain ⟨hlt, hunused, -⟩ := List.findIdx?_eq_some_iff_getElem.mp h
  unfold State.handle
  rw [List.getD_eq_getElem?_getD, List.getElem?_eq_getElem hlt]
  simpa using hunused

theorem used_ne {x : State} {j : Nat} (hfree : x.freeSlot = some fh) (hused : (x.handle j).used = true) :
    j ≠ fh := by
  rintro rfl
  cases (freeSlot_unused hfree).symm.trans hused

theorem smbDopen_coherent (ht : Trusted s v) (dirname : Name) :
    Ensures C (fun _ => True) s (smbDopen dirname) fun _ s' => CoherentSince s.trace v s' := by
  refine (smbDopen_ensures fun _ _ _ => trivial).mono ?_
  rintro r s' ⟨events, hsends, houtcome⟩
  have hresting : ∀ e ∈ events, e.Sends Request.Resting := by
    refine fun e he => (hsends e he).imp fun r hr => ?_
    cases r with
    | queryPathInformation _ _ _ _ => exact ⟨rfl, fun _ => rfl⟩
    | _ => exact hr.elim
  cases r with
  | ok fh =>
      obtain ⟨hfree, rfl⟩ := houtcome
      refine ht.calm ⟨rfl, hresting, rfl, fun j hused _ => ?_, keepsBuffer_refl _⟩
      show ((s.state.installDir fh _).handle j).grip = _
      unfold State.installDir
      rw [handle_modifyHandle_ne (used_ne hfree hused)]
  | error e =>
      obtain rfl : s' = s.extend events := houtcome
      exact ht.calm ⟨rfl, hresting, rfl, fun _ _ _ => rfl, keepsBuffer_refl _⟩

theorem smbDread_coherent (ht : Trusted s v) (fh : Nat) :
    Ensures C (fun _ => True) s (smbDread fh) fun _ s' => CoherentSince s.trace v s' := by
  refine (smbDread_ensures fun _ _ _ => trivial).mono ?_
  rintro r s' ⟨events, hsends, houtcome⟩
  have hresting : ∀ e ∈ events, e.Sends Request.Resting := by
    refine fun e he => (hsends e he).imp ?_
    rintro r ⟨-, pattern, rfl⟩
    exact ⟨rfl, fun _ => rfl⟩
  rcases houtcome with rfl | ⟨hnone, sid, -, rfl⟩
  · exact ht.calm ⟨rfl, hresting, rfl, fun _ _ _ => rfl, keepsBuffer_refl _⟩
  · refine ht.calm ⟨rfl, hresting, rfl, fun j _ hfid => ?_, keepsBuffer_refl _⟩
    have hne : j ≠ fh := by
      rintro rfl
      exact hfid hnone
    show ((s.state.setFid fh _).handle j).grip = _
    unfold State.setFid
    rw [handle_modifyHandle_ne hne]

theorem smbLseek64_coherent (ht : Trusted s v) (pos : Int) (whence : Whence) :
    Ensures C (fun _ => True) s (smbLseek64 fh pos whence) fun _ s' => CoherentSince s.trace v s' := by
  refine (smbLseek64_ensures fun _ => trivial).mono ?_
  rintro r s' (rfl | ⟨position, rfl⟩)
  · exact ht.self
  · refine ht.calm ⟨rfl, List.forall_mem_nil _, rfl, fun j _ _ => ?_, keepsBuffer_refl _⟩
    have hgrip : (s.state.setPosition fh position).handles.map Handle.grip =
        s.state.handles.map Handle.grip := map_modifyHandle fun _ => rfl
    exact map_eq_handle hgrip j

end Resting

/-! ## Opening and closing -/

/-- The buffer has bytes of this file. -/
def Buffered (s : Host) (v : Files) (f : Nat) : Prop :=
  s.state.readAhead.data ≠ [] ∧ ∃ fh fid, s.state.readAhead.fh = some fh ∧
    (s.state.handle fh).fid = some fid ∧ v.opened (s.state.session.ident fid) = f

/-- An open truncates no file that is in the buffer. -/
def SparesBuffer (s : Host) (v : Files) (filename : Name) (mode : OpenMode) : Prop :=
  mode.truncate = true → s.state.freeSlot ≠ none →
    ¬ Buffered s v (v.names s.state.session.tid (s.fullPath filename))

section Opening

variable {C : Event → Prop} {s s' : Host} {v v' : Files} {fh : Nat} {events : List Event}
  {filename : Name} {mode : OpenMode}

/-- The owner of the buffer keeps its file through an open that spares it. -/
theorem opening_same (ht : Trusted s v) {fid : Nat}
    (hsends : ∀ e ∈ events, e.Sends (s.opening filename mode))
    (hserves : Serves s.trace v events v') (hissued : s.state.session.ident fid ∈ live s.trace)
    (hspares : mode.truncate = true →
      v.opened (s.state.session.ident fid) ≠ v.names s.state.session.tid (s.fullPath filename)) :
    v.Same (s.state.session.ident fid) v' := by
  have hlasting : ∀ e ∈ events, e.Sends fun r => r.lasting = true :=
    fun e he => (hsends e he).imp fun _ hr => (Opening.lasting hr).1
  refine (hserves.same (M := fun w => w.names = v.names) rfl ht.answered hissued rfl hlasting ?_).2
  intro e he ids w w' hnames hsame hstep
  have hsend := hsends e he
  have htruncate : ∀ {tid : Option Nat} {path : Name}, tid = s.state.session.tid →
      path = s.fullPath filename →
      (if mode.truncate then some (w.names tid path) else none) ≠
        some (w.opened (s.state.session.ident fid)) := by
    rintro _ _ rfl rfl hchanges
    cases hmode : mode.truncate with
    | false =>
        rw [hmode] at hchanges
        cases hchanges
    | true =>
        rw [hmode, if_pos rfl, hsame.opened, hnames] at hchanges
        exact hspares hmode (Option.some.inj hchanges).symm
  cases e with
  | exchange caller request got =>
      cases request with
      | openFile uid tid path mode' =>
          obtain ⟨-, htid, hpath, rfl⟩ := hsend
          refine ⟨(hstep.names fun r hr => by cases hr; rfl).trans hnames, fun r hr => ?_⟩
          cases hr
          exact htruncate htid hpath
      | ntCreate uid tid path mode' =>
          obtain ⟨-, htid, hpath, rfl⟩ := hsend
          refine ⟨(hstep.names fun r hr => by cases hr; rfl).trans hnames, fun r hr => ?_⟩
          cases hr
          exact htruncate htid hpath
      | queryPathInformation uid tid path standard =>
          refine ⟨(hstep.names fun r hr => by cases hr; rfl).trans hnames, fun r hr => ?_⟩
          cases hr
          intro hchanges
          cases hchanges
      | _ => exact hsend.elim
  | connect _ => exact hsend.elim
  | disconnect => exact hsend.elim

theorem smbOpen_coherent (ht : Trusted s v) (hspares : SparesBuffer s v filename mode) :
    Ensures C (fun _ => True) s (smbOpen filename mode) fun _ s' => CoherentSince s.trace v s' := by
  cases hslot : s.state.freeSlot with
  | none =>
      have hself : CoherentSince s.trace v s := ht.self
      refine withPath_ensures trivial (fun _ => hself) fun _ => Ensures.get trivial ?_
      rw [hslot]
      exact ensures_throw hself
  | some free =>
      -- whatever the outcome, the owner is in another slot
      have howner : ∀ {g : State → State} {events : List Event},
          (∀ e ∈ events, e.Sends (s.opening filename mode)) → (g s.state).session = s.state.session →
          (∀ j, j ≠ free → (g s.state).handle j = s.state.handle j) →
          KeepsBuffer s.state.readAhead (g s.state).readAhead →
          CoherentSince s.trace v ((s.modify g).extend events) := by
        intro g events hsends hsession hother hbuffer events' v' htrace hserves
        obtain rfl : events = events' := List.append_cancel_right htrace
        intro hne
        refine (show Coherent ((s.modify g).extend events) v' from
          ht.coherent.step hbuffer fun fh fid howns hreflects => ?_) hne
        have hdata : s.state.readAhead.data ≠ [] := by
          rcases hbuffer with hempty | ⟨-, -, hdata⟩
          · exact absurd hempty hne
          · rw [← hdata]
            exact hne
        have hlasting : ∀ e ∈ events, e.Sends fun r => r.lasting = true :=
          fun e he => (hsends e he).imp fun _ hr => (Opening.lasting hr).1
        refine hreflects.step hsession ?_ ?_ ?_
        · exact congrArg Handle.grip (hother fh (used_ne hslot hreflects.used))
        · show _ ∈ live (events ++ s.trace)
          rw [live_append hlasting]
          exact List.mem_append_right _ hreflects.issued
        · refine opening_same ht hsends hserves hreflects.issued fun hmode hfile => ?_
          refine hspares hmode (by rw [hslot]; exact Option.some_ne_none free) ⟨hdata, ?_⟩
          exact ⟨fh, fid, howns, hreflects.holds, hfile⟩
      refine (smbOpen_ensures fun _ _ _ => trivial).mono fun r s' houtcome => ?_
      cases r with
      | ok fh =>
          obtain ⟨-, hfree, fid, filesize, events, hsends, -, rfl⟩ := houtcome
          obtain rfl : free = fh := Option.some.inj (hslot.symm.trans hfree)
          exact howner hsends rfl (fun j hj => handle_modifyHandle_ne hj) (keepsBuffer_invalidate _ _)
      | error e =>
          obtain ⟨g, events, hg, hsends, rfl⟩ := houtcome
          rcases hg with hg | ⟨fh, -, hg⟩
          · refine howner hsends ?_ (fun j _ => ?_) ?_
            · rw [hg]
            · rw [hg]
            · rw [hg]
              exact keepsBuffer_refl _
          · refine howner hsends ?_ (fun j _ => ?_) ?_
            · rw [hg]
              rfl
            · rw [hg]
              rfl
            · rw [hg]
              exact keepsBuffer_invalidate _ _

/-- Two slots do not hold the same file. -/
theorem Tracks.distinct {ids : List (Option Ident)} (h : Tracks ids s) (hsingle : Single s.trace)
    {i : Ident} (hkind : i.kind = .file) {j : Nat} (hfh : ids[fh]? = some (some i))
    (hj : ids[j]? = some (some i)) : j = fh := by
  refine Classical.byContradiction fun hne => ?_
  have hmem : i ∈ (ids.set fh none).reduceOption := by
    refine List.reduceOption_mem_iff.mpr (List.mem_of_getElem? (i := j) ?_)
    rw [List.getElem?_set_ne (Ne.symm hne)]
    exact hj
  have htwo : 2 ≤ ids.reduceOption.count i := by
    rw [(reduceOption_set_none hfh).count_eq, List.count_cons_self]
    exact Nat.succ_le_succ (List.count_pos_iff.mpr hmem)
  have hone := Nat.le_trans (Nat.le_trans htwo (h.issued.count_le i)) (hsingle i hkind)
  exact absurd hone (by decide)

/-- The slot of an open file holds the identifier of the file. -/
theorem Tracks.reflects {ids : List (Option Ident)} (h : Tracks ids s) {fid : Nat}
    (hfid : (s.state.handle fh).fid = some fid) (hfile : (s.state.handle fh).mode.directory = false) :
    ids[fh]? = some (some (s.state.session.ident fid)) ∧ s.state.session.ident fid ∈ live s.trace := by
  obtain ⟨i, hslot, rfl, hlive, -, -, huid, htid, -, hkind⟩ := h.holds hfid
  have hi : s.state.session.ident i.value = i := by
    unfold Session.ident
    rw [← huid, ← htid, ← hkind hfile]
  rw [hi]
  exact ⟨hslot, hlive⟩

theorem invalidate_owner {r : ReadAhead} {fh : Option Nat} (h : r.fh = fh) : (r.invalidate fh).data = [] := by
  unfold ReadAhead.invalidate
  dsimp only
  rw [if_pos (Or.inr h)]
  split
  · rfl
  · rfl

/-- A file that is not closed keeps its identifier and its contents. -/
theorem closing_keeps (ht : Trusted s v) {j fid : Nat}
    (hlength : events.length ≤ 1) (hsends : ∀ e ∈ events, e.Sends (s.closing fh))
    (hserves : Serves s.trace v events v') (hne : j ≠ fh)
    (hfid : (s.state.handle j).fid = some fid) (hfile : (s.state.handle j).mode.directory = false) :
    s.state.session.ident fid ∈ live (events ++ s.trace) ∧ v.Same (s.state.session.ident fid) v' := by
  obtain ⟨ids, htracks⟩ := ht.tracked
  obtain ⟨hslot, hlive⟩ := htracks.reflects hfid hfile
  rcases eq_nil_or_singleton hlength with rfl | ⟨e, rfl⟩
  · cases hserves
    exact ⟨hlive, .refl _ v⟩
  · have hclosing := hsends e List.mem_cons_self
    obtain ⟨i, hslot', -, hlive'⟩ := htracks.closing hclosing
    have hother : s.state.session.ident fid ≠ i := by
      rintro rfl
      exact hne (htracks.distinct ht.single rfl hslot' hslot)
    constructor
    · rw [List.singleton_append, hlive']
      split
      · exact (List.mem_erase_of_ne hother).mpr hlive
      · exact hlive
    · obtain ⟨w, rfl, hstep⟩ := hserves
      rw [List.nil_append, kept_eq_live ht.answered] at hstep
      refine hstep.same hlive rfl fun r hr hchanges => ?_
      cases e with
      | exchange caller request got =>
          obtain ⟨rfl, -⟩ := hclosing
          cases hr
          cases hchanges
      | connect _ => cases hr
      | disconnect => cases hr

theorem smbCloseFile_coherent (ht : Trusted s v) (fh : Nat) :
    Ensures C (fun _ => True) s (smbCloseFile fh) fun _ s' =>
      s'.Admits Event.Answered → CoherentSince s.trace v s' := by
  refine (smbCloseFile_ensures fun _ _ _ _ => trivial).mono ?_
  rintro r s' ⟨events, hlength, hsends, houtcome⟩ hanswered
  cases r with
  | ok _ =>
      obtain ⟨-, -, -, rfl⟩ := houtcome
      intro events' v' htrace hserves hne
      obtain rfl : events = events' := List.append_cancel_right htrace
      refine (show Coherent ((s.modify (State.release fh)).extend events) v' from
        ht.coherent.step (keepsBuffer_invalidate _ (some fh)) fun j fid howns hreflects => ?_) hne
      have hother : j ≠ fh := by
        rintro rfl
        exact hne (invalidate_owner howns)
      obtain ⟨hlive, hsame⟩ := closing_keeps ht hlength hsends hserves hother hreflects.holds hreflects.file
      exact hreflects.step rfl (congrArg Handle.grip (handle_modifyHandle_ne hother)) hlive hsame
  | error e =>
      obtain ⟨rfl, hopen, -⟩ := houtcome
      -- a CLOSE that is answered closes
      have hnone : events = [] := by
        rcases eq_nil_or_singleton hlength with hnil | ⟨e, rfl⟩
        · exact hnil
        · have hclosing := hsends e List.mem_cons_self
          cases e with
          | exchange caller request got =>
              obtain ⟨rfl, -, hfid, -⟩ := hclosing
              obtain ⟨fid, hfid⟩ := Option.ne_none_iff_exists'.mp hfid
              rw [hfid] at hopen hanswered
              cases (hopen _ List.mem_cons_self).symm.trans (hanswered _ List.mem_cons_self rfl)
          | connect _ => exact hclosing.elim
          | disconnect => exact hclosing.elim
      subst hnone
      exact ht.self

end Opening

/-! ## Operations that empty the buffer -/

section Emptying

variable {C : Event → Prop} {s : Host} {v : Files}

theorem since_of_empty {base : List Event} {s' : Host} (h : s'.state.readAhead.data = []) :
    CoherentSince base v s' := fun _ _ _ _ => coherent_of_empty h

theorem upkeep_empty : Upkeep (fun _ => True) fun g =>
    ∀ x, x.readAhead.data = [] → (g x).readAhead.data = [] where
  toReconnecting := reconnecting_empty
  transfers _ _ := trivial

theorem smbReconnectUntilReady_empty (rounds : Nat) :
    Always s (smbReconnectUntilReady rounds) fun _ s' => s'.state.readAhead.data = [] := by
  refine Ensures.modify trivial (Ensures.modify trivial ?_)
  refine Ensures.bind (R := fun _ s' => s'.state.readAhead.data = []) ?_
    (fun _ _ h₁ => ensures_modify trivial h₁) fun _ _ h₁ => h₁
  refine ensures_loop_keeps (fun _ s₁ h₁ => ?_) rfl
  refine (always_preserves reconnecting_empty.restoreConnection).result fun r s₂ h₂ => ?_
  cases r with
  | ok _ => exact ensures_pure (h₂ h₁)
  | error e =>
      refine Ensures.getSession trivial ?_
      split
      · exact ensures_pure (h₂ h₁)
      · exact ensures_throw (h₂ h₁)

theorem ends_empty {op : Op} (hop : op.ends = true) (rounds : Nat) :
    (op.call rounds).Uses (Modifies (fun _ => True) fun g =>
      ∀ x, x.readAhead.data = [] → (g x).readAhead.data = []) := by
  have hnone : ∀ {β : Type} {m : Call β}, m.Uses (Modifies (fun _ => True) fun g =>
      ∀ x, x.readAhead.data = [] → (g x).readAhead.data = []) →
      (m >>= fun _ => (pure none : Call (Option Nat))).Uses (Modifies (fun _ => True) fun g =>
        ∀ x, x.readAhead.data = [] → (g x).readAhead.data = []) :=
    fun hm => hm.bind fun _ => Fallible.uses_pure _
  cases op with
  | logOn anonymous => exact hnone (upkeep_empty.logOn anonymous)
  | logOff => exact hnone (upkeep_empty.logOff .operation)
  | getShareList maxent => exact hnone (upkeep_empty.toManaging.getShareList maxent)
  | openShare configured => exact hnone (upkeep_empty.toManaging.openShare .operation configured)
  | closeShare => exact hnone upkeep_empty.closeShare
  | _ => cases hop

/-- Without an identifier nothing is in the buffer. -/
theorem Coherent.vacant (h : Coherent s v) (hvacant : Vacant s.state) : s.state.readAhead.data = [] := by
  refine Classical.byContradiction fun hne => ?_
  obtain ⟨fh, fid, -, howner⟩ := h hne
  cases (hvacant fh).1.symm.trans howner.holds

theorem ends_coherent (ht : Trusted s v) {op : Op} (hop : op.ends = true) (hvacant : Vacant s.state)
    (rounds : Nat) :
    Ensures C (fun _ => True) s (op.call rounds) fun _ s' => CoherentSince s.trace v s' :=
  (always_preserves (ends_empty hop rounds)).ensures.mono fun _ _ h =>
    since_of_empty (h (ht.coherent.vacant hvacant))

theorem smbWrite_coherent (ht : Trusted s v) (rounds fh : Nat) (data : List UInt8) :
    Ensures C (fun _ => True) s (smbWrite rounds fh data) fun _ s' => CoherentSince s.trace v s' := by
  have hself : CoherentSince s.trace v s := ht.self
  refine Ensures.get trivial ?_
  dsimp only
  split
  · exact ensures_throw hself
  · split
    · exact ensures_throw hself
    · refine Ensures.modify trivial ?_
      refine Ensures.bind (always_preserves (upkeep_empty.writeFile rounds fh _ _)).ensures
        (fun n s₁ h₁ => ?_) fun e s₁ h₁ => since_of_empty (h₁ rfl)
      split
      · exact ensures_pure (since_of_empty (h₁ rfl))
      · exact Ensures.modify trivial (ensures_pure (since_of_empty (h₁ rfl)))

theorem keepaliveTurn_coherent (ht : Trusted s v) (rounds : Nat) :
    Ensures C (fun _ => True) s (keepaliveTurn rounds) fun _ s' => CoherentSince s.trace v s' := by
  refine Ensures.getSession trivial ?_
  split
  · refine Ensures.result (ensures_asks (smbEcho_uses (P := (· = .echo)) rfl) fun _ _ => trivial) ?_
    rintro r _ ⟨events, rfl, hevents⟩
    have hechoed : CoherentSince s.trace v (s.extend events) := by
      refine ht.calm ⟨rfl, fun e he => (hevents e he).1.imp ?_, rfl, fun _ _ _ => rfl,
        keepsBuffer_refl _⟩
      rintro _ rfl
      exact ⟨rfl, fun _ => rfl⟩
    cases r with
    | ok _ => exact ensures_pure hechoed
    | error e =>
        dsimp only
        split
        · refine (smbReconnectUntilReady_empty rounds).ensures.result fun r s₂ h₂ => ?_
          exact ensures_pure (since_of_empty h₂)
        · exact ensures_pure hechoed
  · exact ensures_pure (ht.self)

end Emptying

end BdmAssault.Smb.Driver
