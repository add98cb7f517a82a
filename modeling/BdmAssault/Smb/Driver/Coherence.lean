import BdmAssault.Smb.Driver.ReadAhead

/-! # Coherence of the read-ahead buffer

A read fills the buffer with what the server answered under the identifier of the file. In
a run the buffer stays what the server has, as long as no file in it is truncated by an open.
-/

namespace BdmAssault.Smb.Driver

open Lib

/-! ## Reading -/

/-- READ requests under one identifier. -/
def Request.Reads (uid tid : Option Nat) (fid : Nat) (r : Request) : Prop :=
  ∃ offset nbytes, r = .read uid tid (some fid) offset nbytes

/-- What READ requests got is what the server has. The requests change nothing there. -/
def Delivered (s : Host) (i : Ident) (events : List Event) (offset : Int) (bytes : List UInt8) : Prop :=
  ∀ v v', i ∈ kept s.trace → Serves s.trace v events v' →
    v.Same i v' ∧ bytes = v.bytes i offset bytes.length

section Delivery

variable {C : Event → Prop} {s : Host} {v v' : Files} {i : Ident} {uid tid : Option Nat} {fid : Nat}
  {base events : List Event}

theorem Files.bytes_append {start : Int} {done bytes : List UInt8}
    (hdone : done = v.bytes i start done.length)
    (hbytes : bytes = v.bytes i (start + done.length) bytes.length) :
    done ++ bytes = v.bytes i start (done ++ bytes).length := by
  unfold Files.bytes at *
  by_cases hneg : start < 0
  · rw [if_pos hneg] at hdone ⊢
    subst hdone
    rw [if_pos (by simpa using hneg)] at hbytes
    exact hbytes
  · rw [if_neg hneg] at hdone ⊢
    rw [if_neg (by omega)] at hbytes
    have hoffset : (start + done.length).toNat = start.toNat + done.length := by omega
    rw [hoffset, ← List.drop_drop] at hbytes
    rw [List.length_append, List.take_add, ← hdone, ← hbytes]

theorem kept_reads (h : ∀ e ∈ events, e.Sends (Request.Reads uid tid fid)) :
    kept (events ++ base) = kept base := by
  induction events with
  | nil => rfl
  | cons e events ih =>
      have hsend := h e List.mem_cons_self
      rw [List.cons_append, kept, ih fun e' he' => h e' (List.mem_cons_of_mem e he')]
      cases e with
      | exchange caller request got =>
          obtain ⟨offset, nbytes, rfl⟩ := hsend
          rfl
      | connect _ => exact hsend.elim
      | disconnect => exact hsend.elim

theorem reads_same (hreads : ∀ e ∈ events, e.Sends (Request.Reads uid tid fid))
    (h : Serves base v events v') (hi : i ∈ kept base) (hkind : i.kind = .file) : v.Same i v' := by
  induction events generalizing v' with
  | nil =>
      cases h
      exact .refl i v
  | cons e events ih =>
      obtain ⟨w, hw, hstep⟩ := h
      have hreads' : ∀ e' ∈ events, e'.Sends (Request.Reads uid tid fid) :=
        fun e' he' => hreads e' (List.mem_cons_of_mem e he')
      rw [kept_reads hreads'] at hstep
      refine (ih hreads' hw).trans (hstep.same hi hkind fun r hr hchanges => ?_)
      have hsend := hreads e List.mem_cons_self
      cases e with
      | exchange caller request got =>
          obtain ⟨offset, nbytes, rfl⟩ := hsend
          cases hr
          cases hchanges
      | connect _ => cases hr
      | disconnect => cases hr

/-- There is nothing to compare. -/
theorem delivered_nil (hreads : ∀ e ∈ events, e.Sends (Request.Reads uid tid fid)) (offset : Int) :
    Delivered s ⟨uid, tid, .file, fid⟩ events offset [] := by
  intro v v' hi hserves
  refine ⟨reads_same hreads hserves hi rfl, ?_⟩
  unfold Files.bytes
  split
  · rfl
  · rfl

theorem Delivered.append {later : List Event} {start : Int} {done bytes : List UInt8}
    (hreads : ∀ e ∈ events, e.Sends (Request.Reads uid tid fid)) (hdone : Delivered s i events start done)
    (hbytes : Delivered (s.extend events) i later (start + done.length) bytes) :
    Delivered s i (later ++ events) start (done ++ bytes) := by
  intro v v'' hi hserves
  obtain ⟨v', hbefore, hafter⟩ := serves_append.mp hserves
  obtain ⟨hsame, hv⟩ := hdone v v' hi hbefore
  have hi' : i ∈ kept (s.extend events).trace := by
    rw [Host.extend_trace, kept_reads hreads]
    exact hi
  obtain ⟨hsame', hv'⟩ := hbytes v' v'' hi' hafter
  rw [hsame.bytes] at hv'
  exact ⟨hsame.trans hsame', Files.bytes_append hv hv'⟩

theorem smbReadAndX_delivers (offset : Int) (nbytes : Nat) :
    Ensures C (fun _ => True) s (smbReadAndX uid tid (some fid) offset nbytes) fun r s' =>
      ∃ events, s' = s.extend events ∧ (∀ e ∈ events, e.Sends (Request.Reads uid tid fid)) ∧
        ∀ bytes, r = .ok bytes → Delivered s ⟨uid, tid, .file, fid⟩ events offset bytes := by
  have hreads : ∀ got, ∀ e ∈ [Event.exchange .transfer (.read uid tid (some fid) offset nbytes) got],
      e.Sends (Request.Reads uid tid fid) := by
    intro got e he
    rw [List.mem_singleton] at he
    subst he
    exact ⟨offset, nbytes, rfl⟩
  refine Ensures.bind (ensures_exchange (Q := fun r s' => ∃ got, r = .ok got ∧
    (s' = s.extend [.exchange .transfer (.read uid tid (some fid) offset nbytes) got] ∨
      s' = s ∧ got = .reset))
    (fun _ got _ => ⟨trivial, got, rfl, Or.inl rfl⟩) fun _ => ⟨trivial, .reset, rfl, Or.inr ⟨rfl, rfl⟩⟩) ?_ ?_
  · rintro got s' ⟨got', hgot, hs'⟩
    cases hgot
    rcases hs' with rfl | ⟨rfl, rfl⟩
    · cases got with
      | timeout => exact ensures_throw ⟨_, rfl, hreads _, nofun⟩
      | reset => exact ensures_throw ⟨_, rfl, hreads _, nofun⟩
      | reply r =>
          dsimp only
          cases hread : r.read with
          | data bytes =>
              dsimp only
              split
              · refine ensures_pure ⟨_, rfl, hreads _, fun bytes' hbytes => ?_⟩
                cases hbytes
                intro v v' hi hserves
                refine ⟨reads_same (hreads _) hserves hi rfl, ?_⟩
                obtain ⟨w, rfl, hstep⟩ := hserves
                refine hstep.read _ offset bytes ?_ hi
                simp only [Event.delivered, hread]
              · exact ensures_throw ⟨_, rfl, hreads _, nofun⟩
          | endOfFile =>
              refine ensures_pure ⟨_, rfl, hreads _, fun bytes hbytes => ?_⟩
              cases hbytes
              exact delivered_nil (hreads _) offset
          | rejected => exact ensures_throw ⟨_, rfl, hreads _, nofun⟩
          | lost => exact ensures_throw ⟨_, rfl, hreads _, nofun⟩
          | failed => exact ensures_throw ⟨_, rfl, hreads _, nofun⟩
    · exact ensures_throw ⟨[], rfl, List.forall_mem_nil _, nofun⟩
  · rintro e s' ⟨got, hgot, -⟩
    cases hgot

theorem readLoop_delivers (rounds : Nat) : ∀ {s : Host} {start : Int} {remaining : Nat} {done : List UInt8}
    {before : List Event}, (∀ e ∈ before, e.Sends (Request.Reads uid tid fid)) →
    Delivered s ⟨uid, tid, .file, fid⟩ before start done →
    Ensures C (fun _ => True) (s.extend before)
      (readLoop uid tid (some fid) rounds (start + done.length) remaining done) fun r s' =>
      ∃ events, s' = s.extend events ∧ (∀ e ∈ events, e.Sends (Request.Reads uid tid fid)) ∧
        ∀ bytes, r = .ok bytes → Delivered s ⟨uid, tid, .file, fid⟩ events start bytes := by
  induction rounds with
  | zero =>
      intro s start remaining done before hreads hdone
      refine ensures_pure ⟨before, rfl, hreads, fun bytes hbytes => ?_⟩
      cases hbytes
      exact hdone
  | succ rounds ih =>
      intro s start remaining done before hreads hdone
      unfold readLoop
      split
      · refine ensures_pure ⟨before, rfl, hreads, fun bytes hbytes => ?_⟩
        cases hbytes
        exact hdone
      · refine Ensures.bind (smbReadAndX_delivers _ _) ?_ ?_
        · rintro bytes _ ⟨events, rfl, hevents, hbytes⟩
          have hall : ∀ e ∈ events ++ before, e.Sends (Request.Reads uid tid fid) :=
            fun e he => (List.mem_append.mp he).elim (hevents e) (hreads e)
          rw [Host.extend_extend]
          split
          · refine ensures_pure ⟨_, rfl, hall, fun bytes' hbytes' => ?_⟩
            cases hbytes'
            exact delivered_nil hall start
          · have hposition : start + done.length + bytes.length = start + (done ++ bytes).length := by
              rw [List.length_append, Int.natCast_add, Int.add_assoc]
            rw [hposition]
            exact ih hall (hdone.append hreads (hbytes bytes rfl))
        · rintro e _ ⟨events, rfl, hevents, -⟩
          refine ⟨_, Host.extend_extend .., fun e he => ?_, nofun⟩
          exact (List.mem_append.mp he).elim (hevents e) (hreads e)

theorem smbReadFile_delivers (offset : Int) (nbytes : Nat) :
    Ensures C (fun _ => True) s (smbReadFile uid tid (some fid) offset nbytes) fun r s' =>
      ∃ events, s' = s.extend events ∧ (∀ e ∈ events, e.Sends (Request.Reads uid tid fid)) ∧
        ∀ bytes, r = .ok bytes → Delivered s ⟨uid, tid, .file, fid⟩ events offset bytes := by
  have hnone := List.forall_mem_nil (Event.Sends (Request.Reads uid tid fid))
  have hloop := @readLoop_delivers C uid tid fid nbytes s offset nbytes [] [] hnone (delivered_nil hnone offset)
  rwa [List.length_nil, Int.natCast_zero, Int.add_zero] at hloop

end Delivery

/-! ### The read of a file -/

/-- During a read of slot `fh` that began after `base`. The identifiers are tracked by `G`,
unless `B` holds, which excuses everything. -/
structure Reading (G B : Host → Prop) (base : List Event) (v : Files) (fh : Nat) (s : Host) : Prop where
  grip : G s
  grows : base <:+ s.trace
  answered : ∀ e ∈ s.trace, e.Answered
  used : (s.state.handle fh).used = true
  file : (s.state.handle fh).mode.directory = false
  coherent : B s ∨ CoherentSince base v s

/-- What was read is what the server has now. -/
def Fresh (base : List Event) (v : Files) (fh : Nat) (offset : Int) (bytes : List UInt8) (s : Host) : Prop :=
  ∀ events v', s.trace = events ++ base → Serves base v events v' →
    ∃ fid, Reflects s v' fh fid offset bytes

/-- How the identifiers are tracked. -/
structure Gripping (I G B : Host → Prop) (fh : Nat) : Prop where
  keeps : Keeps (fun _ => True) I G fh
  tracked : ∀ s, G s → Tracked s ∨ B s
  stays : ∀ s s' : Host, s.trace <:+ s'.trace → B s → B s'

section Reading

variable {I G B : Host → Prop} {base events : List Event} {v : Files} {fh : Nat} {s s' : Host}

/-- The course of events up to a point of a run, and from there on. -/
theorem Serves.split {all : List Event} {v' : Files} (hgrows : base <:+ s.trace)
    (hall : events ++ s.trace = all ++ base) (h : Serves base v all v') :
    ∃ before w, s.trace = before ++ base ∧ Serves base v before w ∧ Serves s.trace w events v' := by
  obtain ⟨before, hbefore⟩ := hgrows
  obtain rfl : all = events ++ before := by
    refine List.append_cancel_right (hall.symm.trans ?_)
    rw [← hbefore, List.append_assoc]
  obtain ⟨w, hw, hlater⟩ := serves_append.mp h
  rw [hbefore] at hlater
  exact ⟨before, w, hbefore.symm, hw, hlater⟩

/-- Coherence is carried from one point of a run to the next. -/
theorem CoherentSince.next (hgrows : base <:+ s.trace) (h : CoherentSince base v s)
    (htrace : s'.trace = events ++ s.trace)
    (hnext : ∀ w w', Coherent s w → Serves s.trace w events w' → Coherent s' w') :
    CoherentSince base v s' := by
  intro all v' hall hserves
  obtain ⟨before, w, hbefore, hw, hlater⟩ := hserves.split hgrows (htrace.symm.trans hall)
  exact hnext w v' (h before w hbefore hw) hlater

theorem Reading.change (k : Gripping I G B fh) (h : Reading G B base v fh s) {g : State → State}
    (hg : TransferChange fh g) (hcoherent : CoherentSince base v s → CoherentSince base v (s.modify g)) :
    Reading G B base v fh (s.modify g) := by
  obtain ⟨hused, -, hmode⟩ : ((g s.state).handle fh).used = (s.state.handle fh).used ∧
      ((g s.state).handle fh).fid = (s.state.handle fh).fid ∧
      ((g s.state).handle fh).mode = (s.state.handle fh).mode := by
    simpa only [Handle.grip, Prod.mk.injEq] using map_eq_handle (hg.grip s.state).2 fh
  refine ⟨k.keeps.changes s g h.grip hg, h.grows, h.answered, hused.trans h.used, ?_, ?_⟩
  · show ((g s.state).handle fh).mode.directory = false
    rw [hmode]
    exact h.file
  · exact h.coherent.imp (k.stays s _ (List.suffix_refl _)) hcoherent

/-- A change that keeps the buffer, or empties it. -/
theorem Reading.keep (k : Gripping I G B fh) (h : Reading G B base v fh s) {g : State → State}
    (hg : TransferChange fh g) (hbuffer : KeepsBuffer s.state.readAhead (g s.state).readAhead) :
    Reading G B base v fh (s.modify g) := by
  refine h.change k hg fun hcoherent => ?_
  have htrace : (s.modify g).trace = [] ++ s.trace := rfl
  refine hcoherent.next h.grows htrace fun w w' hw hserves => ?_
  refine Calm.coherent ⟨rfl, List.forall_mem_nil _, (hg.grip s.state).1, fun j _ _ => ?_, hbuffer⟩
    h.answered hw [] w' rfl hserves
  exact map_eq_handle (hg.grip s.state).2 j

theorem Reading.reads (k : Gripping I G B fh) (h : Reading G B base v fh s)
    (hsends : ∀ e ∈ events, e.Sends (Transfers s.state fh))
    (hresting : ∀ e ∈ events, e.Sends Request.Resting) : Reading G B base v fh (s.extend events) := by
  refine ⟨k.keeps.requests s events h.grip fun e he => ⟨hsends e he, trivial⟩,
    h.grows.trans (List.suffix_append _ _), fun e he => ?_, h.used, h.file, ?_⟩
  · rcases List.mem_append.mp he with hmem | hmem
    · exact answered_of_asks (hresting e hmem).asks fun _ _ _ hclose => nomatch hclose.1
    · exact h.answered e hmem
  · refine h.coherent.imp (k.stays s _ (List.suffix_append _ _)) fun hcoherent => ?_
    have hcalm : Calm s (s.extend events) events :=
      ⟨rfl, hresting, rfl, fun _ _ _ => rfl, keepsBuffer_refl _⟩
    refine hcoherent.next h.grows rfl fun w w' hw hserves => ?_
    exact hcalm.coherent h.answered hw events w' rfl hserves

theorem Reading.reconnect (k : Gripping I G B fh) (h : Reading G B base v fh s) (rounds : Nat) :
    Ensures (fun _ => True) (fun _ => True) s (smbReconnectUntilReady rounds) fun _ s' =>
      Reading G B base v fh s' := by
  refine ((((ensures_trivial _).and (k.keeps.reconnect s rounds h.grip)).and
    (ensures_requests (fun _ _ => trivial) (reconnecting_lawful.reconnectUntilReady rounds))).and
    ((always_kept (reconnecting_kept.reconnectUntilReady rounds)).and
      (smbReconnectUntilReady_empty rounds))).mono ?_
  rintro _ s' ⟨⟨⟨-, hgrip⟩, events, htrace, hasks⟩, hkept, hempty⟩
  obtain ⟨hused, hmode, -⟩ := hkept.fields fh
  refine ⟨hgrip, ?_, fun e he => ?_, hused.trans h.used, ?_, Or.inr (since_of_empty hempty)⟩
  · rw [htrace]
    exact h.grows.trans (List.suffix_append _ _)
  · rw [htrace] at he
    rcases List.mem_append.mp he with hmem | hmem
    · exact answered_of_asks (hasks e hmem) nofun
    · exact h.answered e hmem
  · rw [hmode]
    exact h.file

/-- A file that is open has an identifier in use. -/
theorem Reading.holds (k : Gripping I G B fh) (h : Reading G B base v fh s) : B s ∨
    ∃ fid, (s.state.handle fh).fid = some fid ∧ s.state.session.ident fid ∈ live s.trace := by
  rcases k.tracked s h.grip with ⟨ids, htracks⟩ | hB
  · refine Or.inr ?_
    cases hfid : (s.state.handle fh).fid with
    | some fid => exact ⟨fid, rfl, (htracks.reflects hfid h.file).2⟩
    | none =>
        have hmatches := htracks.slots fh trivial
        cases hslot : ids.getD fh none with
        | none =>
            rw [hslot] at hmatches
            cases (hmatches.2 h.used).symm.trans h.file
        | some i =>
            rw [hslot] at hmatches
            cases hfid.symm.trans hmatches.2.1
  · exact Or.inl hB

theorem Reading.readFile (k : Gripping I G B fh) (h : Reading G B base v fh s) (position : Int) (size : Nat) :
    Ensures (fun _ => True) (fun _ => True) s
      (smbReadFile s.state.session.uid s.state.session.tid (s.state.handle fh).fid position size)
      fun r s' => Reading G B base v fh s' ∧
        ∀ bytes, r = .ok bytes → B s' ∨ Fresh base v fh position bytes s' := by
  rcases h.holds k with hB | ⟨fid, hfid, hissued⟩
  · refine (ensures_asks (P := fun r => Transfers s.state fh r ∧ r.Resting)
      (readLoop_uses (fun _ _ => ⟨⟨rfl, rfl, rfl⟩, rfl, fun _ => rfl⟩) _) fun _ _ => trivial).mono ?_
    rintro r _ ⟨events, rfl, hevents⟩
    refine ⟨h.reads k (fun e he => (hevents e he).1.imp fun _ hr => hr.1) fun e he =>
      (hevents e he).1.imp fun _ hr => hr.2, fun bytes _ => Or.inl ?_⟩
    exact k.stays s _ (List.suffix_append _ _) hB
  · rw [hfid]
    refine (smbReadFile_delivers position size).mono ?_
    rintro r _ ⟨events, rfl, hreads, hdelivered⟩
    have hlasting : ∀ e ∈ events, e.Sends fun r => r.lasting = true := by
      refine fun e he => (hreads e he).imp ?_
      rintro _ ⟨offset, nbytes, rfl⟩
      rfl
    have hreading : Reading G B base v fh (s.extend events) := by
      refine h.reads k (fun e he => (hreads e he).imp ?_) fun e he => (hreads e he).imp ?_
      · rintro _ ⟨offset, nbytes, rfl⟩
        exact ⟨rfl, rfl, hfid.symm⟩
      · rintro _ ⟨offset, nbytes, rfl⟩
        exact ⟨rfl, fun _ => rfl⟩
    refine ⟨hreading, fun bytes hbytes => Or.inr fun all v' hall hserves => ⟨fid, ?_⟩⟩
    obtain ⟨before, w, -, -, hlater⟩ := hserves.split h.grows hall
    have hkept : s.state.session.ident fid ∈ kept s.trace := by
      rw [kept_eq_live h.answered]
      exact hissued
    obtain ⟨hsame, hequal⟩ := hdelivered bytes hbytes w v' hkept hlater
    refine ⟨h.used, h.file, hfid, ?_, ?_⟩
    · show _ ∈ live (events ++ s.trace)
      rw [live_append hlasting]
      exact List.mem_append_right _ hissued
    · exact hequal.trans (hsame.bytes position bytes.length).symm

theorem Reading.transfer (k : Gripping I G B fh) (h : Reading G B base v fh s) (rounds : Nat)
    (position : Int) (size : Nat) :
    Ensures (fun _ => True) (fun _ => True) s (smbReadFileWithReconnect rounds fh position size)
      fun r s' => Reading G B base v fh s' ∧
        ∀ bytes, r = .ok bytes → B s' ∨ Fresh base v fh position bytes s' := by
  refine ensures_loop (P := fun _ s' => Reading G B base v fh s') (fun _ s₁ h₁ => ?_) h
  refine Ensures.get trivial ((h₁.readFile k position size).result ?_)
  rintro r s₂ ⟨h₂, hfresh⟩
  cases r with
  | ok bytes => exact ensures_pure ⟨h₂, fun bytes' hbytes => hfresh bytes' hbytes⟩
  | error e =>
      dsimp only
      split
      · refine (h₂.reconnect k rounds).result fun r s₃ h₃ => ?_
        cases r with
        | ok _ => exact ensures_pure h₃
        | error _ => exact ensures_throw ⟨h₃, nofun⟩
      · exact ensures_throw ⟨h₂, nofun⟩

/-- The buffer is filled with what was read. -/
theorem Reading.fill (k : Gripping I G B fh) (h : Reading G B base v fh s) {position : Int}
    {bytes : List UInt8} (hfresh : B s ∨ Fresh base v fh position bytes s) :
    Reading G B base v fh (s.modify fun x => { x with readAhead :=
      { x.readAhead with fh := some fh, offset := position, data := bytes } }) := by
  refine ⟨k.keeps.changes s _ h.grip (.readAhead _), h.grows, h.answered, h.used, h.file, ?_⟩
  refine hfresh.imp (k.stays s _ (List.suffix_refl _)) fun hfresh events v' htrace hserves _ => ?_
  obtain ⟨fid, hreflects⟩ := hfresh events v' htrace hserves
  exact ⟨fh, fid, rfl, hreflects.used, hreflects.file, hreflects.holds, hreflects.issued, hreflects.bytes⟩

theorem Reading.readCached (k : Gripping I G B fh) (h : Reading G B base v fh s) (rounds size : Nat)
    (position : Int) (allow : Bool) :
    Ensures (fun _ => True) (fun _ => True) s (smbReadCached rounds fh size position allow) fun _ s' =>
      Reading G B base v fh s' := by
  refine ensures_loop_keeps (fun p s₁ h₁ => ?_) h
  refine Ensures.get trivial ?_
  split
  · exact ensures_pure h₁
  · split
    · exact ensures_pure h₁
    · split
      · refine (h₁.transfer k rounds _ _).result ?_
        rintro r s₂ ⟨h₂, -⟩
        cases r with
        | error e => exact Progress.failed_ensures h₂
        | ok bytes =>
            dsimp only
            split
            · exact ensures_pure h₂
            · exact ensures_pure h₂
      · dsimp only
        split
        · exact ensures_pure h₁
        · refine Ensures.modify trivial ?_
          have h₂ := h₁.keep k (.readAhead fun x => x.readAhead.invalidate none) (keepsBuffer_invalidate _ none)
          refine (h₂.transfer k rounds _ _).result ?_
          rintro r s₃ ⟨h₃, hfresh⟩
          cases r with
          | error e => exact Progress.failed_ensures h₃
          | ok bytes =>
              dsimp only
              split
              · exact ensures_pure h₃
              · exact Ensures.modify trivial (ensures_pure (h₃.fill k (hfresh bytes rfl)))

theorem smbRead_coherent (k : Gripping I G B fh) (hG : G s) (ht : Trusted s v)
    (hused : (s.state.handle fh).used = true) (hfile : (s.state.handle fh).mode.directory = false)
    (rounds size : Nat) :
    Ensures (fun _ => True) (fun _ => True) s (smbRead rounds fh size) fun _ s' =>
      B s' ∨ CoherentSince s.trace v s' := by
  have h : Reading G B s.trace v fh s :=
    ⟨hG, List.suffix_refl _, ht.answered, hused, hfile, Or.inr ht.self⟩
  refine Ensures.get trivial ?_
  dsimp only
  split
  · exact ensures_throw h.coherent
  · refine (h.readCached k rounds _ _ _).result fun r s₁ h₁ => ?_
    cases r with
    | error e =>
        have h₂ := h₁.keep k (.readAhead fun x => x.readAhead.invalidate (some fh))
          (keepsBuffer_invalidate _ (some fh))
        exact Ensures.modify trivial (ensures_throw h₂.coherent)
    | ok bytes =>
        dsimp only
        split
        · exact ensures_pure h₁.coherent
        · have h₂ := h₁.keep k (.handle (fun h => { h with position := h.position + bytes.length })
            (fun _ => rfl) (fun _ => rfl) (fun _ => rfl) fun _ => rfl) (keepsBuffer_refl _)
          have h₃ := h₂.keep k (.readAhead fun x => { x.readAhead with
            sequenceFh := some fh, sequenceNext := (x.handle fh).position }) (keepsBuffer_refl _)
          exact Ensures.modify trivial (Ensures.modify trivial (ensures_pure h₃.coherent))

end Reading

/-! ## Runs -/

/-- Session requests and reconnects as in `Undisturbed`; every CLOSE is answered with a success,
only files are read, and no file that is in the buffer is truncated. -/
structure Careful (x : Served) (t : Turn) : Prop extends Undisturbed x.machine t where
  closes : ∀ e ∈ x.machine.host.events t, e.Answered
  reads : ∀ fh size, t.op = .read fh size → (x.machine.host.state.handle fh).mode.directory = false
  truncates : ∀ filename mode, t.op = .openFile filename mode →
    SparesBuffer x.machine.host x.files filename mode

section Runs

variable {s : Host} {v : Files} {x : Served} {t : Turn}

theorem gripping_tracks (fh : Nat) : Gripping (fun s => Lawful s.trace)
    (fun s => Tracked s ∧ Replaceable s) (fun _ => False) fh where
  keeps := keeps_tracks fh
  tracked _ h := Or.inl h.1
  stays _ _ _ h := h

theorem gripping_unbroken (base : List Event) (fh : Nat) :
    Gripping (fun s => Lawful s.trace ∨ Broken base s) (Unbroken base) (Broken base) fh where
  keeps := keeps_unbroken base fh
  tracked _ h := h.imp_left fun h => h.1
  stays s s' hgrows hbroken := by
    obtain ⟨later, hlater⟩ := hgrows
    obtain ⟨events, htrace, hmem⟩ := hbroken
    refine ⟨later ++ events, ?_, List.mem_append_right _ hmem⟩
    rw [← hlater, htrace, List.append_assoc]

theorem call_coherent (ht : Trusted s v) (t : Turn) (hends : t.op.ends = true → Vacant s.state)
    (hreads : ∀ fh size, t.op = .read fh size → (s.state.handle fh).mode.directory = false)
    (htruncates : ∀ filename mode, t.op = .openFile filename mode → SparesBuffer s v filename mode) :
    Ensures (fun _ => True) (fun _ => True) s (t.op.call t.rounds) fun _ s' =>
      s'.Admits Event.Answered → (t.op.reconnects = true → Replaceable s ∨ ¬ Broken s.trace s') →
        CoherentSince s.trace v s' := by
  have hcall : ∀ {α : Type} {m : Call α},
      (Ensures (fun _ => True) (fun _ => True) s m fun _ s' => CoherentSince s.trace v s') →
      Ensures (fun _ => True) (fun _ => True) s m fun _ s' =>
        s'.Admits Event.Answered → (t.op.reconnects = true → Replaceable s ∨ ¬ Broken s.trace s') →
          CoherentSince s.trace v s' :=
    fun hm => hm.mono fun _ _ h _ _ => h
  have hself : s.Admits Event.Answered →
      (t.op.reconnects = true → Replaceable s ∨ ¬ Broken s.trace s) → CoherentSince s.trace v s :=
    fun _ _ => ht.self
  obtain ⟨op, rounds, answers, connects⟩ := t
  dsimp only at *
  cases op with
  | openFile filename mode =>
      exact Ensures.discard (hcall (smbOpen_coherent ht (htruncates filename mode rfl)))
  | dopen dirname => exact Ensures.discard (hcall (smbDopen_coherent ht dirname))
  | close fh =>
      refine Ensures.discard (withFile_ensures trivial hself fun _ => ?_)
      exact (smbCloseFile_coherent ht fh).mono fun _ _ h hanswered _ => h hanswered
  | read fh size =>
      refine Ensures.discard (withFile_ensures trivial hself fun hused => ?_)
      by_cases hreplace : Replaceable s
      · refine (smbRead_coherent (gripping_tracks fh) ⟨ht.tracked, hreplace⟩ ht hused (hreads fh size rfl)
          rounds size).mono fun _ _ h _ _ => ?_
        exact h.resolve_left id
      · refine (smbRead_coherent (gripping_unbroken s.trace fh) (Or.inl ⟨ht.tracked, List.suffix_refl _⟩) ht
          hused (hreads fh size rfl) rounds size).mono fun _ _ h _ hbreak => ?_
        exact h.resolve_left ((hbreak rfl).resolve_left hreplace)
  | write fh data =>
      exact Ensures.discard (withFile_ensures trivial hself fun _ => hcall (smbWrite_coherent ht rounds fh data))
  | lseek fh pos whence =>
      exact Ensures.discard (withFile_ensures trivial hself fun _ => hcall (smbLseek64_coherent ht pos whence))
  | dread fh => exact Ensures.discard (withFile_ensures trivial hself fun _ => hcall (smbDread_coherent ht fh))
  | keepalive => exact Ensures.discard (hcall (keepaliveTurn_coherent ht rounds))
  | logOn anonymous => exact hcall (ends_coherent ht rfl (hends rfl) rounds)
  | logOff => exact hcall (ends_coherent ht rfl (hends rfl) rounds)
  | getShareList maxent => exact hcall (ends_coherent ht rfl (hends rfl) rounds)
  | closeShare => exact hcall (ends_coherent ht rfl (hends rfl) rounds)
  | openShare configured =>
      cases hsplit : splitSharePath configured with
      | some _ =>
          have hop : (Op.openShare configured).ends = true := by
            rw [Op.ends, hsplit]
            rfl
          exact hcall (ends_coherent ht hop (hends hop) rounds)
      | none =>
          refine Ensures.discard ?_
          unfold smbOpenShare
          rw [hsplit]
          exact ensures_throw hself
  | remove _ => exact hcall (plain_coherent ht rfl rounds)
  | mkdir _ => exact hcall (plain_coherent ht rfl rounds)
  | rmdir _ => exact hcall (plain_coherent ht rfl rounds)
  | getstat _ => exact hcall (plain_coherent ht rfl rounds)
  | rename _ _ => exact hcall (plain_coherent ht rfl rounds)
  | chdir _ => exact hcall (plain_coherent ht rfl rounds)
  | echo => exact hcall (plain_coherent ht rfl rounds)
  | queryDiskInfo => exact hcall (plain_coherent ht rfl rounds)

theorem turn_coherent (ht : Trusted x.machine.host x.files) (hok : Careful x t)
    {r : Except Errno (Option Nat)} (hr : x.machine.host.result t = some r) {v' : Files}
    (hserves : Serves x.machine.host.trace x.files (x.machine.host.events t) v') :
    Trusted (x.machine.host.after t) v' := by
  have htrace := x.machine.host.after_trace t
  have hanswered : (x.machine.host.after t).Admits Event.Answered := by
    intro e he
    rw [htrace] at he
    exact (List.mem_append.mp he).elim (hok.closes e) (ht.answered e)
  have hsince := ((call_coherent ht t hok.ends hok.reads hok.truncates).turn trivial
    (fun _ _ => trivial) fun _ _ => trivial).2.2 r hr hanswered fun hop => ?_
  · refine ⟨(turn_tracks ht.tracked hok.toUndisturbed).2 r hr, hanswered, ?_, ?_⟩
    · rw [htrace]
      exact hserves.single (htrace ▸ hanswered) ht.single
    · exact hsince _ v' htrace hserves
  · refine (hok.reconnects hop).imp_right fun hwhole hbroken => ?_
    obtain ⟨events, htrace', hmem⟩ := hbroken
    rw [htrace, List.append_cancel_right_eq] at htrace'
    exact hwhole _ (htrace' ▸ hmem) rfl

theorem trusted_invariant : served.Invariant Careful fun x =>
    x.machine.free = true → Trusted x.machine.host x.files where
  init x hx _ := by
    replace hx : x.machine = Machine.initial := hx
    rw [hx]
    refine ⟨Vacant.tracked (vacant_initial rfl) trivial, List.forall_mem_nil _, fun i _ => Nat.zero_le 1, ?_⟩
    exact coherent_of_empty rfl
  step x t x' _ h hok hstep hfree' := by
    obtain ⟨⟨hfree, -, hnext⟩, hserves⟩ := hstep
    rw [hnext] at hfree' ⊢
    obtain ⟨r, hr⟩ := Option.isSome_iff_exists.mp hfree'
    exact turn_coherent (h hfree) hok hr hserves

/-- The buffer never has anything else than the bytes of its owner's file. -/
theorem read_ahead_coherent (h : served.Reachable Careful x) (hfree : x.machine.free = true) :
    Coherent x.machine.host x.files := (trusted_invariant.holds h hfree).coherent

end Runs

/-! ### A file that is truncated -/

/-- A server with a single file of eight bytes. -/
def oneFile : Files := ⟨fun _ => [1, 2, 3, 4, 5, 6, 7, 8], fun _ _ => 0, fun _ => 0⟩

/-- The events leave the file alone, and what they read is in it. -/
def ReadsOneFile (base : List Event) : List Event → Prop
  | [] => True
  | e :: events => (∀ i ∈ e.issues, i.kind = .file → i ∉ kept (events ++ base)) ∧
      (∀ d ∈ e.delivered, d.2.2 = oneFile.bytes d.1 d.2.1 d.2.2.length) ∧ ReadsOneFile base events

instance decidableReadsOneFile (base : List Event) :
    (events : List Event) → Decidable (ReadsOneFile base events)
  | [] => isTrue trivial
  | _ :: events =>
      have := decidableReadsOneFile base events
      inferInstanceAs (Decidable (_ ∧ _ ∧ _))

theorem ReadsOneFile.serves {base events : List Event} (h : ReadsOneFile base events) :
    Serves base oneFile events oneFile := by
  induction events with
  | nil => rfl
  | cons e events ih =>
      obtain ⟨hfresh, hread, hrest⟩ := h
      refine ⟨oneFile, ih hrest, ⟨fun _ _ => rfl, fun _ => rfl, fun _ _ => rfl, fun _ _ _ _ _ _ _ => rfl,
        fun i hi => hfresh i hi, fun i offset bytes hd _ => hread _ hd⟩⟩

/-- An operation while the server has this one file. -/
theorem oneFile_next {ok : Served → Turn → Prop} {d : Machine} {t : Turn}
    (h : served.Reachable ok ⟨d, oneFile⟩) (hok : ok ⟨d, oneFile⟩ t) (hfree : d.free = true)
    (hfile : ∀ fh, t.op.file = some fh → fh ∈ d.opened)
    (hevents : ReadsOneFile d.host.trace (d.host.events t)) : served.Reachable ok ⟨d.next t, oneFile⟩ :=
  h.next hok ⟨⟨hfree, hfile, rfl⟩, hevents.serves⟩

/-- A read of four bytes. -/
def readFour (bytes : List UInt8) : Turn :=
  ⟨.read 0 4, 3, [.reply { granted with read := .data bytes }], []⟩

/-- The file is read in two parts, and the second one stays in the buffer. -/
def filled : Machine :=
  ((sharing.next (granting (.openFile fileName readOnly) 3)).next (readFour [1, 2, 3, 4])).next
    (readFour [5, 6, 7, 8])

theorem filled_reachable : served.Reachable Careful ⟨filled, oneFile⟩ := by
  have hlogon : served.Reachable Careful ⟨loggedOn, oneFile⟩ := by
    refine oneFile_next (.init rfl) ⟨⟨fun _ => vacant_initial rfl, nofun⟩, ?_, nofun, nofun⟩ rfl nofun ?_
    · decide +kernel
    · decide +kernel
  have hshare : served.Reachable Careful ⟨sharing, oneFile⟩ := by
    refine oneFile_next hlogon ⟨⟨fun _ => vacant_initial ?_, nofun⟩, ?_, nofun, nofun⟩ ?_ nofun ?_
    · decide +kernel
    · decide +kernel
    · decide +kernel
    · decide +kernel
  have hopened : served.Reachable Careful
      ⟨sharing.next (granting (.openFile fileName readOnly) 3), oneFile⟩ := by
    refine oneFile_next hshare ⟨⟨nofun, nofun⟩, ?_, nofun, fun filename mode hop htruncate => ?_⟩ ?_ nofun ?_
    · decide +kernel
    · cases hop
      cases htruncate
    · decide +kernel
    · decide +kernel
  have hread : ∀ {d : Machine} {bytes : List UInt8}, served.Reachable Careful ⟨d, oneFile⟩ →
      d.free = true → 0 ∈ d.opened → d.host.state.session.openshareValid = true →
      (d.host.state.handle 0).mode.directory = false →
      (∀ e ∈ d.host.events (readFour bytes), e.Answered) →
      ReadsOneFile d.host.trace (d.host.events (readFour bytes)) →
      served.Reachable Careful ⟨d.next (readFour bytes), oneFile⟩ := by
    intro d bytes h hfree hfile hshare hdir hclosed hevents
    refine oneFile_next h ⟨⟨nofun, fun _ => Or.inl (Or.inl hshare)⟩, hclosed, fun fh size hop => ?_, nofun⟩
      hfree (fun fh hfh => ?_) hevents
    · cases hop
      exact hdir
    · cases hfh
      exact hfile
  refine hread (hread hopened ?_ ?_ ?_ ?_ ?_ ?_) ?_ ?_ ?_ ?_ ?_ ?_
  all_goals decide +kernel

theorem read_ahead_coherent_filled :
    filled.host.state.readAhead.data = [5, 6, 7, 8] ∧ filled.free = true ∧
      Coherent filled.host oneFile := by
  have hfree : filled.free = true := by decide +kernel
  exact ⟨by decide +kernel, hfree, read_ahead_coherent filled_reachable hfree⟩

/-- The flags `O_WRONLY` and `O_TRUNC`. -/
def truncating : OpenMode := ⟨false, true, false, false, true, false, false⟩

/-- The file is opened a second time, under another identifier. -/
def secondOpen : Turn :=
  ⟨.openFile fileName truncating, 3, List.replicate 3 (.reply { granted with fid := 2, endOfFile := 0 }), []⟩

def truncated : Machine := filled.next secondOpen

/-- The file afterwards. -/
def noBytes : Files := { oneFile with content := Function.update oneFile.content 0 [] }

theorem truncation_leaves_buffer :
    served.Reachable (fun _ _ => True) ⟨truncated, noBytes⟩ ∧ truncated.free = true ∧
      truncated.host.state.readAhead.data = [5, 6, 7, 8] ∧ ¬ Coherent truncated.host noBytes := by
  have hdata : truncated.host.state.readAhead.data = [5, 6, 7, 8] := by decide +kernel
  refine ⟨?_, by decide +kernel, hdata, fun hcoherent => ?_⟩
  · have hevents : filled.host.events secondOpen =
      [.exchange .operation (.queryPathInformation (some 1) (some 1) (0x5c :: fileName) true)
          (.reply { granted with fid := 2, endOfFile := 0 }),
        .exchange .operation (.queryPathInformation (some 1) (some 1) (0x5c :: fileName) false)
          (.reply { granted with fid := 2, endOfFile := 0 }),
        .exchange .operation (.openFile (some 1) (some 1) (0x5c :: fileName) truncating)
          (.reply { granted with fid := 2, endOfFile := 0 })] := by decide +kernel
    refine (filled_reachable.weaken fun _ _ _ => trivial).next (a := secondOpen) trivial
      ⟨⟨by decide +kernel, nofun, rfl⟩, ?_⟩
    show Serves filled.host.trace oneFile (filled.host.events secondOpen) noBytes
    rw [hevents]
    have hquery : ∀ {ids : List Ident} {standard : Bool} {got : Got}, noBytes.Step ids
        (.exchange .operation (.queryPathInformation (some 1) (some 1) (0x5c :: fileName) standard) got)
        noBytes :=
      ⟨fun _ _ => rfl, fun _ => rfl, fun _ _ => rfl, fun _ _ _ _ _ _ _ => rfl, nofun, nofun⟩
    refine ⟨noBytes, ⟨noBytes, ⟨oneFile, rfl, ?_⟩, hquery⟩, hquery⟩
    refine ⟨fun f hf => ?_, fun _ => rfl, fun _ _ => rfl, fun _ _ _ _ _ _ _ => rfl, ?_, nofun⟩
    · have hne : f ≠ 0 := by
        rintro rfl
        exact hf _ rfl rfl
      exact Function.update_of_ne hne _ _
    · intro i hi _
      cases hi
      decide +kernel
  · obtain ⟨fh, fid, -, howner⟩ := hcoherent (by rw [hdata]; exact List.cons_ne_nil _ _)
    have hbytes := howner.bytes
    have hnone : ∀ i offset length, noBytes.bytes i offset length = [] := by
      intro i offset length
      unfold Files.bytes
      split
      · rfl
      · show List.take length (List.drop offset.toNat []) = []
        rw [List.drop_nil, List.take_nil]
    rw [hnone, hdata] at hbytes
    cases hbytes

end BdmAssault.Smb.Driver
