import BdmAssault.Smb.Driver.Handles

/-! # The handle table

Slots are taken by `smb_open` and `smb_dopen` and given back by `smb_close`.
-/

namespace BdmAssault.Smb.Driver

open Lib

/-! ## Slots in use -/

def State.flags (s : State) : List Bool := s.handles.map Handle.used

def State.usedSlots (s : State) : List Nat :=
  (List.range s.handles.length).filter fun fh => (s.handle fh).used

/-- The slots in use are those of the files that are open. -/
structure NoLeak (d : Machine) : Prop where
  count : d.host.state.usedSlots.length = d.opened.length
  slots : ∀ fh, (d.host.state.handle fh).used = true ↔ fh ∈ d.opened

/-- `smb_close` comes with a session, a tree and an identifier, and the server closes a file. -/
structure Closable (s : Host) (t : Turn) (fh : Nat) : Prop where
  tree : s.state.session.noTree = false
  fid : (s.state.handle fh).fid ≠ none
  closed : (s.state.handle fh).mode.directory = false → ∃ e ∈ s.events t, e.closes = true

def ClosesWell (d : Machine) (t : Turn) : Prop := ∀ fh, t.op = .close fh → Closable d.host t fh

/-! ## Flags -/

section Flags

variable {s : State} {fh : Nat} {g : Handle → Handle}

theorem used_iff : (s.handle fh).used = true ↔ s.flags[fh]? = some true := by
  unfold State.handle State.flags
  rw [List.getD_eq_getElem?_getD, List.getElem?_map]
  cases s.handles[fh]? with
  | none => simp [noHandle]
  | some h => simp

theorem flags_modifyHandle (hg : ∀ h, (g h).used = h.used) : (s.modifyHandle fh g).flags = s.flags :=
  map_modifyHandle hg

theorem flags_set {b : Bool} (hg : ∀ h, (g h).used = b) :
    (s.modifyHandle fh g).flags = s.flags.set fh b := map_modifyHandle_set hg

theorem freeSlot_flag (h : s.freeSlot = some fh) : s.flags[fh]? = some false := by
  obtain ⟨hlt, hfree, -⟩ := List.findIdx?_eq_some_iff_getElem.mp h
  unfold State.flags
  rw [List.getElem?_map, List.getElem?_eq_getElem hlt]
  simpa using hfree

end Flags

def KeepsUsed (g : State → State) : Prop := ∀ s, (g s).flags = s.flags

theorem upkeep_used : Upkeep (fun _ => True) KeepsUsed where
  requests _ _ _ := trivial
  transfers _ _ := trivial
  session _ _ := rfl
  server _ _ _ := rfl
  curdir _ _ := rfl
  invalidate _ _ := rfl
  fid _ _ _ := flags_modifyHandle fun _ => rfl
  reopened _ _ _ _ := flags_modifyHandle fun _ => rfl

section Functions

variable {α : Type} {s : Host}

theorem always_flags {m : Call α} (hm : m.Uses (Modifies (fun _ => True) KeepsUsed)) :
    Always s m fun _ s' => s'.state.flags = s.state.flags :=
  ensures_modifies (T := fun s s' => s'.flags = s.flags) (fun _ => rfl)
    (fun _ _ _ h h' => h'.trans h) (fun s _ hg => hg s) hm

/-- The outcome of an open: a free slot is taken, or nothing is. -/
def Takes (s : Host) (r : Except Errno Nat) (s' : Host) : Prop :=
  match r with
  | .ok fh => s.state.flags[fh]? = some false ∧ s'.state.flags = s.state.flags.set fh true
  | .error _ => s'.state.flags = s.state.flags

theorem smbOpen_takes (filename : Name) (mode : OpenMode) :
    Always s (smbOpen filename mode) (Takes s) := by
  refine (smbOpen_ensures fun _ _ _ => trivial).mono fun r s' h => ?_
  cases r with
  | ok fh =>
      obtain ⟨-, hfree, fid, filesize, events, -, -, rfl⟩ := h
      exact ⟨freeSlot_flag hfree, flags_set fun _ => rfl⟩
  | error e =>
      obtain ⟨g, events, hg, -, rfl⟩ := h
      show (g s.state).flags = _
      rcases hg with hg | ⟨fh, -, hg⟩
      · rw [hg]
      · rw [hg]
        rfl

theorem smbDopen_takes (dirname : Name) : Always s (smbDopen dirname) (Takes s) := by
  refine (smbDopen_ensures fun _ _ _ => trivial).mono fun r s' h => ?_
  obtain ⟨events, -, h⟩ := h
  cases r with
  | ok fh =>
      obtain ⟨hfree, rfl⟩ := h
      exact ⟨freeSlot_flag hfree, flags_set fun _ => rfl⟩
  | error e =>
      obtain rfl : s' = s.extend events := h
      rfl

/-- Why a slot was not given back. -/
def Stuck (s : Host) (fh : Nat) (s' : Host) : Prop :=
  s.state.session.noTree = true ∨ (s.state.handle fh).fid = none ∨
    ((s.state.handle fh).mode.directory = false ∧
      ∃ events, s'.trace = events ++ s.trace ∧ ∀ e ∈ events, e.closes = false)

theorem smbCloseFile_frees (fh : Nat) : Always s (smbCloseFile fh) fun _ s' =>
    s'.state.flags = s.state.flags.set fh false ∨ Stuck s fh s' := by
  refine (smbCloseFile_ensures fun _ _ _ _ => trivial).mono fun r s' h => ?_
  obtain ⟨events, -, -, h⟩ := h
  cases r with
  | ok _ =>
      obtain ⟨-, -, -, rfl⟩ := h
      exact Or.inl (flags_set fun _ => rfl)
  | error e =>
      obtain ⟨rfl, hclosed, hstuck⟩ := h
      exact Or.inr (hstuck.imp_right (Or.imp_right fun hfile => ⟨hfile, events, rfl, hclosed⟩))

end Functions

/-! ## Operations -/

/-- The flags are set exactly for the files that are open. -/
structure Tidy (flags : List Bool) (opened : List Nat) : Prop where
  nodup : opened.Nodup
  mem : ∀ fh, fh ∈ opened ↔ flags[fh]? = some true

section Operations

variable {α : Type} {s : Host} {flags : List Bool} {opened : List Nat} {fh : Nat}

theorem Tidy.take (h : Tidy flags opened) (hfree : flags[fh]? = some false) :
    Tidy (flags.set fh true) (fh :: opened) := by
  have hlt : fh < flags.length := (List.getElem?_eq_some_iff.mp hfree).1
  have hnot : fh ∉ opened := by
    intro hmem
    rw [(h.mem fh).mp hmem] at hfree
    cases hfree
  refine ⟨List.nodup_cons.mpr ⟨hnot, h.nodup⟩, fun i => ?_⟩
  rw [List.mem_cons, h.mem, List.getElem?_set]
  by_cases hi : fh = i
  · subst hi
    simp [hlt]
  · simp [hi, Ne.symm hi]

theorem Tidy.give (h : Tidy flags opened) : Tidy (flags.set fh false) (opened.erase fh) := by
  refine ⟨h.nodup.erase fh, fun i => ?_⟩
  rw [h.nodup.mem_erase_iff, h.mem, List.getElem?_set]
  by_cases hi : fh = i
  · subst hi
    simp only [ne_eq, not_true_eq_false, false_and, if_true, false_iff]
    split
    · nofun
    · nofun
  · simp [hi, Ne.symm hi]

theorem Tidy.of_flags {flags' : List Bool} (h : Tidy flags opened) (heq : flags' = flags) :
    Tidy flags' opened := heq ▸ h

/-- Only an open returns a slot. -/
theorem call_silent {op : Op} (rounds : Nat) (hopen : ∀ filename mode, op ≠ .openFile filename mode)
    (hdopen : ∀ dirname, op ≠ .dopen dirname) :
    Always s (op.call rounds) fun r _ => ∀ fh, r ≠ .ok (some fh) := by
  have hnone : ∀ {β : Type} (m : Call β), Always s (m >>= fun _ => (pure none : Call (Option Nat)))
      fun r _ => ∀ fh, r ≠ .ok (some fh) := by
    intro β m
    refine Ensures.bind (ensures_trivial m) (fun _ _ _ => ensures_pure nofun) fun _ _ _ => nofun
  cases op with
  | openFile filename mode => exact absurd rfl (hopen filename mode)
  | dopen dirname => exact absurd rfl (hdopen dirname)
  | _ => exact hnone _

end Operations

/-! ## Runs -/

section Runs

variable {d : Machine} {t : Turn}

theorem tidy_open {s : Host} {opened : List Nat} {m : Call Nat} (h : Tidy s.state.flags opened)
    (hm : Always s m (Takes s)) : Always s (some <$> m) fun r s' =>
      Tidy s'.state.flags (match r with | .ok (some fh) => fh :: opened | _ => opened) := by
  refine Ensures.bind hm (fun fh s' hr => ensures_pure ?_) fun e s' hr => h.of_flags hr
  obtain ⟨hfree, hset⟩ := hr
  rw [hset]
  exact h.take hfree

theorem track_silent {opened : List Nat} {op : Op} {r : Except Errno (Option Nat)}
    (hclose : ∀ fh, op ≠ .close fh) (hr : ∀ fh, r ≠ .ok (some fh)) :
    track opened op (some r) = opened := by
  unfold track
  split
  · rename_i fh _ _
    exact absurd rfl (hclose fh)
  · rename_i fh _ heq
    exact absurd (Option.some.inj heq) (hr fh)
  · rfl

theorem tidy_next (h : Tidy d.host.state.flags d.opened) (hclose : ClosesWell d t)
    (hfile : ∀ fh, t.op.file = some fh → fh ∈ d.opened) {r : Except Errno (Option Nat)}
    (hr : d.host.result t = some r) : Tidy (d.next t).host.state.flags (d.next t).opened := by
  have hturn : ∀ {Q : Except Errno (Option Nat) → Host → Prop},
      Always d.host (t.op.call t.rounds) Q → Q r (d.host.after t) := fun hm =>
    (hm.turn (t := t) trivial (fun _ _ => trivial) fun _ _ => trivial).2.2 r hr
  show Tidy (d.host.after t).state.flags (track d.opened t.op (d.host.result t))
  rw [hr]
  by_cases hopen : ∃ filename mode, t.op = .openFile filename mode
  · obtain ⟨filename, mode, hop⟩ := hopen
    rw [hop] at hturn ⊢
    have htidy := hturn (tidy_open h (smbOpen_takes filename mode))
    rcases r with e | (_ | fh)
    · exact htidy
    · exact htidy
    · exact htidy
  by_cases hdopen : ∃ dirname, t.op = .dopen dirname
  · obtain ⟨dirname, hop⟩ := hdopen
    rw [hop] at hturn ⊢
    have htidy := hturn (tidy_open h (smbDopen_takes dirname))
    rcases r with e | (_ | fh)
    · exact htidy
    · exact htidy
    · exact htidy
  by_cases hcloses : ∃ fh, t.op = .close fh
  · obtain ⟨fh, hop⟩ := hcloses
    have hused := used_iff.mpr ((h.mem fh).mp (hfile fh (by rw [hop]; rfl)))
    have hclosable := hclose fh hop
    rw [hop] at hturn ⊢
    have hfreed := hturn (Q := fun _ s' =>
        s'.state.flags = d.host.state.flags.set fh false ∨ Stuck d.host fh s') <| by
      refine Ensures.bind (R := fun _ s' => s'.state.flags = d.host.state.flags.set fh false ∨
        Stuck d.host fh s') (Ensures.get trivial ?_) (fun _ _ h' => ensures_pure h') fun _ _ h' => h'
      rw [if_pos hused]
      exact smbCloseFile_frees fh
    rcases hfreed with hset | htree | hfid | ⟨hfile, events, htrace, hnone⟩
    · show Tidy _ (d.opened.erase fh)
      rw [hset]
      exact h.give
    · cases hclosable.tree.symm.trans htree
    · exact absurd hfid hclosable.fid
    · obtain ⟨e, he, hcloses⟩ := hclosable.closed hfile
      rw [d.host.after_trace, List.append_left_inj] at htrace
      cases (hnone e (htrace ▸ he)).symm.trans hcloses
  · have hopen' : ∀ filename mode, t.op ≠ .openFile filename mode :=
      fun filename mode hop => hopen ⟨filename, mode, hop⟩
    have hdopen' : ∀ dirname, t.op ≠ .dopen dirname := fun dirname hop => hdopen ⟨dirname, hop⟩
    have hclose' : ∀ fh, t.op ≠ .close fh := fun fh hop => hcloses ⟨fh, hop⟩
    have hsilent := hturn (call_silent t.rounds hopen' hdopen')
    have hflags := hturn (always_flags (call_modifies upkeep_used (fun _ _ => rfl) (fun _ _ => rfl)
      (fun _ _ hg _ => flags_modifyHandle fun h => (hg h).1) t.rounds hopen' hdopen' hclose'))
    rw [track_silent hclose' hsilent]
    exact h.of_flags hflags

theorem tidy_invariant : driver.Invariant ClosesWell fun d =>
    d.free = true → Tidy d.host.state.flags d.opened where
  init := by
    rintro _ rfl -
    refine ⟨List.nodup_nil, fun fh => iff_of_false List.not_mem_nil fun h => ?_⟩
    have hmem : true ∈ List.replicate 32 false := List.mem_of_getElem? h
    simp at hmem
  step := by
    rintro d t _ - htidy hclose ⟨hfree, hfile, rfl⟩ hfree'
    obtain ⟨r, hr⟩ := Option.isSome_iff_exists.mp hfree'
    exact tidy_next (htidy hfree) hclose hfile hr

theorem Tidy.noLeak (h : Tidy d.host.state.flags d.opened) : NoLeak d := by
  have hslots : ∀ fh, (d.host.state.handle fh).used = true ↔ fh ∈ d.opened :=
    fun fh => used_iff.trans (h.mem fh).symm
  refine ⟨List.Perm.length_eq ?_, hslots⟩
  refine (List.perm_ext_iff_of_nodup (List.nodup_range.filter _) h.nodup).mpr fun fh => ?_
  rw [List.mem_filter, hslots, List.mem_range]
  refine ⟨And.right, fun hmem => ⟨?_, hmem⟩⟩
  have hlt := (List.getElem?_eq_some_iff.mp ((h.mem fh).mp hmem)).1
  exact Nat.lt_of_lt_of_eq hlt (List.length_map _)

/-- In every run in which files are closed under their session and the server closes them,
the slots in use are those of the open files. -/
theorem no_leak (h : driver.Reachable ClosesWell d) (hfree : d.free = true) :
    NoLeak d ∧ ∀ t d' fh, driver.step d t d' → ClosesWell d t → t.op = .close fh → d'.free = true →
      (d'.host.state.handle fh).used = false := by
  have htidy := tidy_invariant.holds h hfree
  refine ⟨htidy.noLeak, fun t d' fh hstep hclose hop hfree' => ?_⟩
  have hslots := (tidy_invariant.holds (h.next hclose hstep) hfree').noLeak.slots fh
  obtain ⟨-, -, rfl⟩ := hstep
  obtain ⟨r, hr⟩ := Option.isSome_iff_exists.mp hfree'
  have hopened : (d.next t).opened = d.opened.erase fh := by
    show track d.opened t.op (d.host.result t) = _
    rw [hop, hr]
    rfl
  rw [Bool.eq_false_iff, Ne, hslots, hopened, htidy.nodup.mem_erase_iff]
  exact fun h' => h'.1 rfl

end Runs

/-- A log-on, a share and a file that is open. -/
def sharingFile : Machine :=
  ((Machine.initial.next (granting (.logOn false) 2)).next (granting (.openShare shareName) 1)).next
    (granting (.openFile fileName readOnly) 3)

theorem no_leak_closed :
    sharingFile.opened = [0] ∧
      ((sharingFile.next (granting (.close 0) 1)).host.state.handle 0).used = false ∧
      NoLeak (sharingFile.next (granting (.close 0) 1)) := by
  have hopen : driver.Reachable ClosesWell sharingFile := by
    refine reachable_next (reachable_next (reachable_next (.init rfl) nofun rfl nofun) nofun ?_ nofun)
      nofun ?_ nofun
    · decide +kernel
    · decide +kernel
  have hfree : sharingFile.free = true := by decide +kernel
  have hfile : ∀ fh, (granting (.close 0) 1).op.file = some fh → fh ∈ sharingFile.opened := by
    decide +kernel
  have hclose : ClosesWell sharingFile (granting (.close 0) 1) := by
    intro fh hop
    cases hop
    exact ⟨by decide +kernel, by decide +kernel, fun _ => by decide +kernel⟩
  have hfree' : (sharingFile.next (granting (.close 0) 1)).free = true := by decide +kernel
  refine ⟨by decide +kernel, ?_, (no_leak (reachable_next hopen hclose hfree hfile) hfree').1⟩
  exact (no_leak hopen hfree).2 _ _ 0 ⟨hfree, hfile, rfl⟩ hclose rfl hfree'

/-- A directory is opened and closed before its first entry is read. -/
def closedUnread : Machine :=
  ((((Machine.initial.next (granting (.logOn false) 2)).next (granting (.openShare shareName) 1)).next
    ⟨.dopen fileName, 3, [.reply { granted with directory := true }, .reply granted], []⟩)).next
    (granting (.close 0) 1)

theorem slot_leaks :
    driver.Reachable (fun _ _ => True) closedUnread ∧ closedUnread.free = true ∧
      closedUnread.opened = [] ∧ (closedUnread.host.state.handle 0).used = true ∧
      ¬ NoLeak closedUnread := by
  have hopened : closedUnread.opened = [] := by decide +kernel
  have hused : (closedUnread.host.state.handle 0).used = true := by decide +kernel
  refine ⟨?_, by decide +kernel, hopened, hused, fun h => ?_⟩
  · refine reachable_next (reachable_next (reachable_next (reachable_next (.init rfl) trivial rfl nofun)
      trivial ?_ nofun) trivial ?_ nofun) trivial ?_ ?_
    · decide +kernel
    · decide +kernel
    · decide +kernel
    · decide +kernel
  · have hmem := (h.slots 0).mp hused
    rw [hopened] at hmem
    exact absurd hmem List.not_mem_nil

end BdmAssault.Smb.Driver
