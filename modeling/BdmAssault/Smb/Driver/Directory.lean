import BdmAssault.Lib.Transition
import BdmAssault.Smb.Driver.PreparedPath
import BdmAssault.Smb.Driver.SharePath

/-! # The current directory

`smb_chdir` of `smb_fio.c` on its buffers, over the calls that follow the opening of a share,
against the directory that the names lead to.
-/

namespace BdmAssault.Smb.Driver

open Lib

/-! ## Directories -/

/-- The step to a component of a name. The parent of the root directory is itself. -/
def enter (root dir : List Name) (c : Name) : List Name :=
  if c = [dot] then dir
  else if c = [dot, dot] then if dir = root then dir else dir.dropLast
  else dir ++ [c]

/-- The directory that a name leads to. -/
def lead (root dir : List Name) (name : Name) : List Name :=
  (components isSlash name).foldl (enter root) dir

/-- The directory that a string stands for on the server. -/
def directoryOf (s : Name) : List Name := lead [] [] s

section Enter

variable {root dir : List Name} {c name : Name}

theorem prefix_enter (h : root <+: dir) : root <+: enter root dir c := by
  unfold enter
  split
  · exact h
  · split
    · split
      · exact h
      · rename_i hne
        obtain ⟨l, rfl⟩ := h
        have hl : l ≠ [] := fun hnil => hne (by rw [hnil, List.append_nil])
        rw [List.dropLast_append_of_ne_nil hl]
        exact List.prefix_append root _
    · exact h.trans (List.prefix_append dir [c])

/-- A name never leads above the root directory. -/
theorem prefix_lead (h : root <+: dir) : root <+: lead root dir name := by
  unfold lead
  generalize components isSlash name = cs
  induction cs generalizing dir with
  | nil => exact h
  | cons c cs ih => exact ih (prefix_enter h)

end Enter

/-! ## The calls -/

/-- `smb_curdir` and `smb_curpath` -/
structure PathState where
  curdir : PathBuffer
  curpath : PathBuffer

/-- The loop of `smb_chdir` on the bytes in front of `i`. -/
def cutLoop (curdir : PathBuffer) : Nat → Option PathBuffer
  | 0 => some curdir
  | i + 1 => do
      let c ← curdir.bytes[i]?
      if c = backslash then curdir.put i [0] else cutLoop curdir i

/-- `smb_chdir` behind its checks of the name and the connection, which touch no buffer;
`answer` is whether the server has a directory there, and `none` an error. The
result is whether the call returns 0. A path of one byte is a backslash, so the byte that is
looked at in front of it decides nothing. -/
def smbChdirIn (dirname : Name) (answer : Option Bool) (s : PathState) : Option (Bool × PathState) := do
  let prepared ← preparePathIn s.curdir dirname s.curpath
  let path := prepared.2
  if endsInDots path.text then
    let n ← s.curdir.strlen
    let curdir ← cutLoop s.curdir n
    return (true, ⟨curdir, path⟩)
  else if endsInDot path.text then
    let curdir ← s.curdir.put 0 [0]
    return (true, ⟨curdir, path⟩)
  else if answer = some true then
    let curdir ← s.curdir.strncpy path.bytes 1023
    return (true, ⟨curdir, path⟩)
  else return (false, ⟨s.curdir, path⟩)

/-- The calls between the opening of a share and the next one: any other operation only
prepares its path. -/
inductive PathCall where
  | chdir (dirname : Name) (answer : Option Bool)
  | other (path : Name)

/-- The buffers, and the directories that the calls were to lead to. -/
structure Tour where
  paths : PathState
  root : List Name
  dir : List Name

/-- `smb_OpenShare` sets the current directory with `strcpy`. -/
def Tour.Starts (t : Tour) : Prop :=
  ∃ (configured : List UInt8) (share root share' root' : Buffer 256) (before : PathBuffer),
    256 ≤ configured.length ∧ splitSharePathIn configured share root = some (.ok (share', root')) ∧
      before.strcpy root'.text = some t.paths.curdir ∧ t.root = directoryOf root'.text ∧ t.dir = t.root

def Tour.step (t : Tour) : PathCall → Tour → Prop
  | .chdir dirname answer, t' =>
      0 ∉ dirname ∧ ∃ accepted paths, smbChdirIn dirname answer t.paths = some (accepted, paths) ∧
        t' = ⟨paths, t.root, if accepted then lead t.root t.dir dirname else t.dir⟩
  | .other path, t' =>
      0 ∉ path ∧ ∃ stop full, preparePathIn t.paths.curdir path t.paths.curpath = some (stop, full) ∧
        t' = { t with paths := ⟨t.paths.curdir, full⟩ }

def tours : System Tour PathCall where
  init := Tour.Starts
  step := Tour.step

/-- The current directory is the one that the names lead to, below the root directory. -/
def Tour.Correct (t : Tour) : Prop :=
  directoryOf t.paths.curdir.text = t.dir ∧ t.root <+: t.dir

/-! ## Where it stays right -/

/-- What is behind the last backslash. -/
def lastPart (s : Name) : Name := s.rtakeWhile (· ≠ backslash)

/-- A name whose path ends in two dots: the last part of the string is cut off. -/
def Tour.CutLeads (t : Tour) (dirname : Name) : Prop :=
  let s := t.paths.curdir.text
  if backslash ∉ s ∨ lastPart s = [] ∨ lastPart s = [dot] then lead t.root t.dir dirname = t.dir
  else lastPart s ≠ [dot, dot] ∧ lead t.root t.dir dirname = t.dir.dropLast

/-- The step does not take a branch that goes wrong. -/
def Tour.Plain (t : Tour) : PathCall → Prop
  | .chdir dirname answer =>
      (resolve t.paths.curdir.text dirname).length < 1022 ∧
        if endsInDots (resolve t.paths.curdir.text dirname) then t.CutLeads dirname
        else if endsInDot (resolve t.paths.curdir.text dirname) then lead t.root t.dir dirname = []
        else answer = some true → lead t.root t.dir dirname = lead [] t.dir dirname
  | .other _ => DirectoryFits t.paths.curdir t.paths.curpath

/-! ## The branches -/

section Branches

variable {s u v back : Name} {b : PathBuffer} {c dirname : Name} {answer : Option Bool} {p : PathState}

theorem parentDir_of_not_mem (h : backslash ∉ s) : parentDir s = s := if_neg h

theorem parentDir_append (hv : backslash ∉ v) : parentDir (u ++ backslash :: v) = u := by
  have hmem : backslash ∈ u ++ backslash :: v := List.mem_append_right u List.mem_cons_self
  have hdrop : (u ++ backslash :: v).reverse.dropWhile (· ≠ backslash) = backslash :: u.reverse := by
    rw [List.reverse_append, List.reverse_cons, List.append_assoc, List.dropWhile_append_of_pos]
    · exact List.dropWhile_cons_of_neg (by simp)
    · intro x hx
      exact decide_eq_true fun h => hv (h ▸ List.mem_reverse.mp hx)
  unfold parentDir
  rw [if_pos hmem, hdrop, List.drop_one, List.tail_cons, List.reverse_reverse]

theorem lastPart_append (hv : backslash ∉ v) : lastPart (u ++ backslash :: v) = v := by
  unfold lastPart List.rtakeWhile
  rw [List.reverse_append, List.reverse_cons, List.append_assoc, List.takeWhile_append_of_pos]
  · rw [List.singleton_append, List.takeWhile_cons_of_neg (by simp), List.append_nil, List.reverse_reverse]
  · intro x hx
    exact decide_eq_true fun h => hv (h ▸ List.mem_reverse.mp hx)

theorem exists_lastPart (h : backslash ∈ s) : ∃ u, s = u ++ backslash :: lastPart s ∧ backslash ∉ lastPart s := by
  obtain ⟨l, r, hsplit, hl⟩ := List.eq_append_cons_of_mem (List.mem_reverse.mpr h)
  have hs : s = r.reverse ++ backslash :: l.reverse := by
    rw [← List.reverse_reverse s, hsplit, List.reverse_append, List.reverse_cons, List.append_assoc]
    rfl
  have hl' : backslash ∉ l.reverse := fun hmem => hl (List.mem_reverse.mp hmem)
  rw [hs, lastPart_append hl']
  exact ⟨r.reverse, rfl, hl'⟩

/-- The loop cuts the string at its last backslash. -/
theorem cutLoop_spec (h : b.bytes = u ++ v ++ 0 :: back) (hu : 0 ∉ u) (hv : 0 ∉ v) (hslash : backslash ∉ v) :
    ∃ b', cutLoop b u.length = some b' ∧ b'.text = parentDir (u ++ v) := by
  induction u using List.reverseRecOn generalizing v with
  | nil =>
      refine ⟨b, rfl, ?_⟩
      rw [List.nil_append] at h ⊢
      rw [parentDir_of_not_mem hslash, Buffer.text, h, textOf_append hv]
  | append_singleton u c ih =>
      have hc : b.bytes[u.length]? = some c := by
        rw [h, List.append_assoc, List.append_assoc, List.getElem?_append_right (Nat.le_refl _), Nat.sub_self]
        rfl
      have hu' : 0 ∉ u := fun hmem => hu (List.mem_append_left _ hmem)
      rw [List.length_append, List.length_singleton]
      unfold cutLoop
      rw [hc, Option.bind_eq_bind, Option.bind_some]
      by_cases hcut : c = backslash
      · subst hcut
        have hsplit : b.bytes = u ++ (backslash :: (v ++ 0 :: back)) := by
          rw [h, List.append_assoc, List.append_assoc]
          rfl
        have hlength := b.length_bytes
        rw [hsplit, List.length_append, List.length_cons] at hlength
        obtain ⟨b', hput, hbytes⟩ := Buffer.put_append [0] hsplit (by rw [List.length_singleton]; omega)
        rw [if_pos rfl, List.append_assoc, List.singleton_append, parentDir_append hslash]
        refine ⟨b', hput, ?_⟩
        rw [Buffer.text, hbytes, List.append_assoc, List.singleton_append, textOf_append hu']
      · have hc0 : (0 : UInt8) ≠ c := fun h0 => hu (h0 ▸ List.mem_append_right u List.mem_cons_self)
        have hnext := @ih (c :: v) (by rw [h]; simp) hu'
          (fun hmem => (List.mem_cons.mp hmem).elim hc0 hv)
          (fun hmem => (List.mem_cons.mp hmem).elim (fun heq => hcut heq.symm) hslash)
        rw [if_neg hcut, List.append_assoc]
        exact hnext

theorem terminated_of_short {b : PathBuffer} (h : b.text.length ≤ 1020) : b.Terminated := by
  by_contra hopen
  have htext : b.text = b.bytes := textOf_of_not_mem hopen
  rw [htext, b.length_bytes] at h
  exact absurd h (by decide)

/-- What the string is afterwards, and whether the call returns 0. -/
def changed (c dirname : Name) (answer : Option Bool) : Name :=
  if endsInDots (resolve c dirname) then parentDir c
  else if endsInDot (resolve c dirname) then []
  else if answer = some true then resolve c dirname
  else c

theorem smbChdirIn_fits (hname : 0 ∉ dirname) (hfit : (resolve p.curdir.text dirname).length < 1022) :
    ∃ accepted p', smbChdirIn dirname answer p = some (accepted, p') ∧
      p'.curdir.text = changed p.curdir.text dirname answer ∧
      (accepted = false → p'.curdir = p.curdir) ∧
      (accepted = true ↔ endsInDots (resolve p.curdir.text dirname) ∨
        endsInDot (resolve p.curdir.text dirname) ∨ answer = some true) := by
  have hshort : p.curdir.text.length ≤ 1020 := by
    rw [resolve, List.length_append, List.length_append, List.length_singleton] at hfit
    omega
  obtain ⟨stop, path, hprepare, hterminated, htext, -⟩ :=
    @preparePathIn_text p.curdir p.curpath dirname (Or.inl hshort) hname
  rw [preparePath_eq_resolve hfit] at htext
  unfold smbChdirIn changed
  rw [hprepare, Option.bind_eq_bind, Option.bind_some]
  dsimp only
  rw [htext]
  generalize resolve p.curdir.text dirname = full at hfit htext ⊢
  by_cases hdots : endsInDots full = true
  · obtain ⟨back, hcurdir⟩ := exists_textOf (terminated_of_short hshort)
    obtain ⟨curdir, hcut, hcurdir'⟩ := @cutLoop_spec p.curdir.text [] back p.curdir
      (by rw [List.append_nil]; exact hcurdir) zero_not_mem_textOf List.not_mem_nil List.not_mem_nil
    rw [if_pos hdots, if_pos hdots, Buffer.strlen_append hcurdir zero_not_mem_textOf,
      Option.bind_eq_bind, Option.bind_some]
    rw [List.append_nil] at hcurdir'
    refine ⟨true, ⟨curdir, path⟩, ?_, hcurdir', (fun h => Bool.noConfusion h), iff_of_true rfl (Or.inl hdots)⟩
    exact hcut ▸ rfl
  · rw [if_neg hdots, if_neg hdots]
    by_cases hdot : endsInDot full = true
    · obtain ⟨curdir, hput, hbytes⟩ := @Buffer.put_append 1024 p.curdir [] _ [0] (List.nil_append _).symm (by decide)
      rw [if_pos hdot, if_pos hdot]
      refine ⟨true, ⟨curdir, path⟩, ?_, ?_, (fun h => Bool.noConfusion h), iff_of_true rfl (Or.inr (Or.inl hdot))⟩
      · rw [List.length_nil] at hput
        rw [hput]
        rfl
      · rw [Buffer.text, hbytes]
        rfl
    · rw [if_neg hdot, if_neg hdot]
      by_cases hanswer : answer = some true
      · rw [if_pos hanswer, if_pos hanswer]
        obtain ⟨curdir, hcopy, hbytes⟩ := p.curdir.strncpy_append (show 1023 ≤ 1024 by decide)
          (Or.inl hterminated)
        rw [show textOf path.bytes = full from htext, Buffer.padded_of_lt (by omega), List.append_assoc] at hbytes
        refine ⟨true, ⟨curdir, path⟩, ?_, ?_, (fun h => Bool.noConfusion h), iff_of_true rfl (Or.inr (Or.inr hanswer))⟩
        · rw [hcopy]
          rfl
        · rw [Buffer.text, hbytes]
          exact textOf_append (htext ▸ zero_not_mem_textOf)
      · rw [if_neg hanswer, if_neg hanswer]
        refine ⟨false, _, rfl, rfl, fun _ => rfl, ?_⟩
        exact iff_of_false (fun h => Bool.noConfusion h) fun h => h.elim hdots fun h => h.elim hdot hanswer

end Branches

/-! ## The directories of the branches -/

section Directories

variable {root dir : List Name} {c s u v name : Name} {p : UInt8 → Bool}

theorem isSlash_convertSlash (x : UInt8) : isSlash (convertSlash x) = isSlash x := by
  unfold convertSlash
  split
  · rename_i h
    rw [h]
    rfl
  · rfl

theorem convertSlash_of_not_slash {x : UInt8} (h : isSlash x = false) : convertSlash x = x := by
  unfold convertSlash
  split
  · rename_i hx
    rw [hx] at h
    exact nomatch h
  · rfl

/-- Which of the slashes stands between them makes no difference to the components. -/
theorem components_convertSlash (l : Name) :
    components isSlash (l.map convertSlash) = components isSlash l := by
  induction hn : l.length using Nat.strong_induction_on generalizing l with
  | _ n ih =>
  cases l with
  | nil => rfl
  | cons x l =>
      rw [List.length_cons] at hn
      by_cases hx : isSlash x = true
      · rw [List.map_cons, components_separator ((isSlash_convertSlash x).trans hx), components_separator hx,
          ih l.length (by omega) l rfl]
      · obtain ⟨q, r, hsplit, hq, hr⟩ := @exists_component _ isSlash (x :: l)
          (fun y hy => by cases hy; exact Bool.eq_false_iff.mpr hx) (List.cons_ne_nil x l)
        have hsame : q.map convertSlash = q :=
          (List.map_congr_left fun y hy => convertSlash_of_not_slash (hq.2 y hy)).trans (List.map_id' q)
        have hr' : ∀ y ∈ (r.map convertSlash).head?, isSlash y = true := by
          intro y hy
          rw [List.head?_map] at hy
          obtain ⟨z, hz, rfl⟩ := Option.map_eq_some_iff.mp hy
          exact (isSlash_convertSlash z).trans (hr z hz)
        have hless : r.length < n := by
          have hlength := congrArg List.length hsplit
          have hpos := List.length_pos_iff.mpr hq.1
          rw [List.length_cons, List.length_append] at hlength
          omega
        rw [hsplit, List.map_append, hsame, components_component hq hr', components_component hq hr,
          ih r.length hless r rfl]

theorem components_resolve : components isSlash (resolve c name) = components isSlash c ++ components isSlash name := by
  have hskip : components isSlash (name.dropWhile isSlash) = components isSlash name := by
    have hrun : ∀ x ∈ name.takeWhile isSlash, isSlash x = true := fun x hx => List.mem_takeWhile_imp hx
    rw [← components_separators hrun, List.takeWhile_append_dropWhile]
  unfold resolve
  rw [List.append_assoc, List.singleton_append, components_append (by rfl), ← hskip]
  exact congrArg _ (components_convertSlash _)

theorem directoryOf_resolve : directoryOf (resolve c name) = lead [] (directoryOf c) name := by
  unfold directoryOf lead
  rw [components_resolve, List.foldl_append]

theorem lastPart_component (hs : 0x2f ∉ s) (hmem : backslash ∈ s) (hne : lastPart s ≠ []) :
    Component isSlash (lastPart s) := by
  obtain ⟨u, hsplit, hnot⟩ := exists_lastPart hmem
  refine ⟨hne, fun x hx => Bool.eq_false_iff.mpr fun hslash => ?_⟩
  rcases of_decide_eq_true hslash with rfl | rfl
  · exact hs (hsplit ▸ List.mem_append_right u (List.mem_cons_of_mem backslash hx))
  · exact hnot hx

/-- The directory of a string, from the one of the string in front of its last backslash. -/
theorem directoryOf_parentDir (hs : 0x2f ∉ s) (hmem : backslash ∈ s) :
    directoryOf s = if lastPart s = [] then directoryOf (parentDir s)
      else enter [] (directoryOf (parentDir s)) (lastPart s) := by
  obtain ⟨u, hsplit, hnot⟩ := exists_lastPart hmem
  have hparent : parentDir s = u := by rw [hsplit, parentDir_append hnot]
  have hparts : components isSlash s = components isSlash u ++ components isSlash (lastPart s) := by
    conv_lhs => rw [hsplit]
    exact components_append (by rfl)
  unfold directoryOf lead
  rw [hparent, hparts, List.foldl_append]
  by_cases hne : lastPart s = []
  · rw [if_pos hne, hne, components_nil]
    rfl
  · rw [if_neg hne, components_single (lastPart_component hs hmem hne)]
    rfl

theorem mem_parentDir {x : UInt8} (h : x ∈ parentDir s) : x ∈ s := by
  by_cases hmem : backslash ∈ s
  · obtain ⟨u, hsplit, hnot⟩ := exists_lastPart hmem
    rw [hsplit, parentDir_append hnot] at h
    exact hsplit ▸ List.mem_append_left _ h
  · rwa [parentDir_of_not_mem hmem] at h

theorem convertSlash_ne (x : UInt8) : convertSlash x ≠ 0x2f := by
  unfold convertSlash
  split
  · decide
  · assumption

theorem slash_not_mem_resolve (hc : 0x2f ∉ c) : 0x2f ∉ resolve c name := by
  intro hslash
  rcases List.mem_append.mp hslash with hslash | hslash
  · rcases List.mem_append.mp hslash with hslash | hslash
    · exact hc hslash
    · exact absurd (List.mem_singleton.mp hslash) (by decide)
  · obtain ⟨x, -, hx⟩ := List.mem_map.mp hslash
    exact convertSlash_ne x hx

theorem slash_not_mem_rootOf : 0x2f ∉ rootOf s := by
  intro hslash
  rcases mem_intercalate hslash with hslash | ⟨q, hq, hslash⟩
  · exact absurd hslash (by decide)
  · exact nomatch (component_of_mem hq).2 _ hslash

theorem slash_not_mem_changed {answer : Option Bool} (hc : 0x2f ∉ c) : 0x2f ∉ changed c name answer := by
  unfold changed
  split
  · exact fun hslash => hc (mem_parentDir hslash)
  · split
    · exact List.not_mem_nil
    · split
      · exact slash_not_mem_resolve hc
      · exact hc

end Directories

/-! ## The calls in turn -/

section Calls

variable {t t' : Tour} {call : PathCall} {dirname : Name} {answer : Option Bool}

/-- What the calls keep: there are only backslashes in the string. -/
def Tour.Kept (t : Tour) : Prop := t.Correct ∧ 0x2f ∉ t.paths.curdir.text

theorem starts_kept (h : t.Starts) : t.Kept := by
  obtain ⟨configured, share, root, share', root', before, hlength, hsplit, hcopy, hroot, hdir⟩ := h
  obtain ⟨-, result, hsome, -, hparts⟩ := split_share_path (by decide) (.inr hlength) share root
  rw [hsplit] at hsome
  cases hsome
  obtain ⟨hinto, -, -⟩ := hparts _ rfl
  obtain ⟨-, -, hterminated, htext⟩ := hinto
  have hcurdir := Buffer.text_strcpy hcopy zero_not_mem_textOf
  refine ⟨⟨?_, ?_⟩, ?_⟩
  · rw [hcurdir, hdir, hroot]
  · exact ⟨[], (List.append_nil t.root).trans hdir.symm⟩
  · rw [hcurdir, htext]
    exact slash_not_mem_rootOf

/-- A call that returns 0 leads to where its name leads to. -/
theorem changed_leads (hkept : t.Kept) (hplain : t.Plain (.chdir dirname answer))
    (haccepted : endsInDots (resolve t.paths.curdir.text dirname) ∨
      endsInDot (resolve t.paths.curdir.text dirname) ∨ answer = some true) :
    directoryOf (changed t.paths.curdir.text dirname answer) = lead t.root t.dir dirname := by
  obtain ⟨⟨hdir, -⟩, hslash⟩ := hkept
  obtain ⟨-, hbranch⟩ := hplain
  unfold changed
  by_cases hdots : endsInDots (resolve t.paths.curdir.text dirname) = true
  · rw [if_pos hdots] at hbranch ⊢
    unfold Tour.CutLeads at hbranch
    dsimp only at hbranch
    by_cases hmem : backslash ∈ t.paths.curdir.text
    · have hcut := directoryOf_parentDir hslash hmem
      rw [hdir] at hcut
      split at hbranch
      · rename_i hstays
        rw [hbranch]
        rcases hstays with hno | hempty | hone
        · exact absurd hmem hno
        · rw [if_pos hempty] at hcut
          exact hcut.symm
        · rw [hone, if_neg (List.cons_ne_nil _ _), enter, if_pos rfl] at hcut
          exact hcut.symm
      · rename_i hleaves
        obtain ⟨-, hne, hnotdot⟩ : _ ∧ lastPart t.paths.curdir.text ≠ [] ∧ lastPart t.paths.curdir.text ≠ [dot] :=
          ⟨trivial, fun h => hleaves (Or.inr (Or.inl h)), fun h => hleaves (Or.inr (Or.inr h))⟩
        rw [if_neg hne, enter, if_neg hnotdot, if_neg hbranch.1] at hcut
        rw [hbranch.2, hcut, List.dropLast_concat]
    · rw [if_pos (Or.inl hmem)] at hbranch
      rw [parentDir_of_not_mem hmem, hdir, hbranch]
  · rw [if_neg hdots] at hbranch ⊢
    by_cases hdot : endsInDot (resolve t.paths.curdir.text dirname) = true
    · rw [if_pos hdot] at hbranch ⊢
      exact hbranch.symm
    · rw [if_neg hdot] at hbranch ⊢
      have hanswer := (haccepted.resolve_left hdots).resolve_left hdot
      rw [if_pos hanswer, directoryOf_resolve, hdir, hbranch hanswer]

/-- One call. -/
theorem step_kept (hkept : t.Kept) (hplain : t.Plain call) (hstep : t.step call t') : t'.Kept := by
  cases call with
  | other path =>
      obtain ⟨-, stop, full, -, rfl⟩ := hstep
      exact hkept
  | chdir dirname answer =>
      obtain ⟨hname, accepted, paths, hcall, rfl⟩ := hstep
      obtain ⟨accepted', paths', hcall', htext, hsame, haccepted⟩ :=
        @smbChdirIn_fits _ answer t.paths hname hplain.1
      rw [hcall] at hcall'
      cases hcall'
      refine ⟨⟨?_, ?_⟩, ?_⟩
      · show directoryOf paths.curdir.text = _
        cases accepted with
        | true =>
            rw [if_pos rfl, htext]
            exact changed_leads hkept hplain (haccepted.mp rfl)
        | false =>
            rw [hsame rfl]
            exact hkept.1.1
      · show t.root <+: _
        split
        · exact prefix_lead hkept.1.2
        · exact hkept.1.2
      · show 0x2f ∉ paths.curdir.text
        rw [htext]
        exact slash_not_mem_changed hkept.2

theorem exists_starts {path : Name} (hpath : 0 ∉ path) (hlength : path.length < 256)
    (hfirst : firstComponent path ≠ []) :
    ∃ t : Tour, t.Starts ∧ t.paths.curdir.text = rootOf path ∧ t.root = directoryOf (rootOf path) ∧
      t.dir = t.root := by
  obtain ⟨r, hsplit, ⟨-, -, -, hroot⟩, -⟩ := @splitSharePathIn_of_text 256 path (List.replicate 256 0)
    (Buffer.cleared 256) (Buffer.cleared 256) (by decide) hpath hlength hfirst
  have hfit : ([] : Name).length + (r.2.text ++ [0]).length ≤ 1024 := by
    have htext : r.2.text.length ≤ r.2.bytes.length := (List.takeWhile_prefix _).length_le
    rw [r.2.length_bytes] at htext
    rw [List.length_nil, List.length_append, List.length_singleton]
    exact Nat.le_trans (Nat.add_le_add_left (Nat.add_le_add_right htext 1) 0) (by decide)
  obtain ⟨curdir, hcopy, -⟩ :=
    Buffer.put_append (r.2.text ++ [0]) (List.nil_append (Buffer.cleared 1024).bytes).symm hfit
  refine ⟨⟨⟨curdir, Buffer.cleared 1024⟩, directoryOf r.2.text, directoryOf r.2.text⟩, ?_, ?_, ?_, rfl⟩
  · exact ⟨path ++ 0 :: List.replicate 256 0, _, _, r.1, r.2, Buffer.cleared 1024,
      by rw [List.length_append, List.length_cons, List.length_replicate]; omega, hsplit, hcopy, rfl, rfl⟩
  · exact (Buffer.text_strcpy hcopy zero_not_mem_textOf).trans hroot
  · exact congrArg directoryOf hroot

theorem exists_chdir (hname : 0 ∉ dirname) (hfit : (resolve t.paths.curdir.text dirname).length < 1022)
    (haccepted : endsInDots (resolve t.paths.curdir.text dirname) ∨
      endsInDot (resolve t.paths.curdir.text dirname) ∨ answer = some true) :
    ∃ t' : Tour, t.step (.chdir dirname answer) t' ∧
      t'.paths.curdir.text = changed t.paths.curdir.text dirname answer ∧ t'.root = t.root ∧
      t'.dir = lead t.root t.dir dirname := by
  obtain ⟨accepted, paths, hcall, htext, -, hiff⟩ := @smbChdirIn_fits _ answer t.paths hname hfit
  refine ⟨_, ⟨hname, accepted, paths, hcall, rfl⟩, htext, rfl, ?_⟩
  exact if_pos (hiff.mpr haccepted)

theorem kept_invariant : tours.Invariant Tour.Plain Tour.Kept where
  init := fun _ h => starts_kept h
  step := fun _ _ _ _ hkept hplain hstep => step_kept hkept hplain hstep

end Calls

/-- In every run whose calls do not take a branch that goes wrong, the current directory is the
one that the names lead to; a call that fails leaves it as it is. -/
theorem current_directory {t : Tour} (h : tours.Reachable Tour.Plain t) :
    t.Correct ∧ ∀ dirname answer, 0 ∉ dirname → t.Plain (.chdir dirname answer) →
      ∃ accepted paths, smbChdirIn dirname answer t.paths = some (accepted, paths) ∧
        (accepted = false → paths.curdir = t.paths.curdir) ∧ (answer = some true → accepted = true) := by
  refine ⟨(kept_invariant.holds h).1, fun dirname answer hname hplain => ?_⟩
  obtain ⟨accepted, paths, hcall, -, hsame, haccepted⟩ :=
    @smbChdirIn_fits _ answer t.paths hname hplain.1
  exact ⟨accepted, paths, hcall, hsame, fun hyes => haccepted.mpr (Or.inr (Or.inr hyes))⟩

/-- A directory below the root directory, entered after the opening. -/
theorem current_directory_entered : ∃ t : Tour, tours.Reachable Tour.Plain t ∧
    t.root = [[0x61]] ∧ t.dir = [[0x61], [0x62]] ∧ t.Correct := by
  obtain ⟨t, hstarts, htext, hroot, hdir⟩ := @exists_starts [0x53, 0x2f, 0x61] (by decide) (by decide) (by decide)
  replace htext : t.paths.curdir.text = [0x61] := htext
  replace hroot : t.root = [[0x61]] := hroot
  have hplain : t.Plain (.chdir [0x62] (some true)) := by
    unfold Tour.Plain
    rw [htext, hdir, hroot]
    exact ⟨by decide, fun _ => by decide⟩
  obtain ⟨t', hstep, -, hroot', hdir'⟩ := @exists_chdir t [0x62] (some true) (by decide) hplain.1
    (Or.inr (Or.inr rfl))
  rw [hdir, hroot] at hdir'
  have hreach : tours.Reachable Tour.Plain t' := (System.Reachable.init hstarts).next hplain hstep
  exact ⟨t', hreach, hroot'.trans hroot, hdir', (current_directory hreach).1⟩

/-- The names for the directory itself and its parent lead out of a root directory with a
component in front of the last one. -/
theorem dots_leave_root : ∃ t : Tour, t.Starts ∧ t.root = [[0x61], [0x62]] ∧
    (∃ t', t.step (.chdir [dot] none) t' ∧ t'.paths.curdir.text = [] ∧ ¬t'.Correct) ∧
    ∃ t', t.step (.chdir [dot, dot] none) t' ∧ t'.paths.curdir.text = [0x61] ∧ ¬t'.Correct := by
  obtain ⟨t, hstarts, htext, hroot, hdir⟩ :=
    @exists_starts [0x53, 0x2f, 0x61, 0x2f, 0x62] (by decide) (by decide) (by decide)
  replace htext : t.paths.curdir.text = [0x61, 0x5c, 0x62] := htext
  replace hroot : t.root = [[0x61], [0x62]] := hroot
  refine ⟨t, hstarts, hroot, ?_, ?_⟩
  · obtain ⟨t', hstep, htext', -, hdir'⟩ := @exists_chdir t [dot] none (by decide)
      (by rw [htext]; decide) (Or.inr (Or.inl (by rw [htext]; decide)))
    rw [htext] at htext'
    rw [hdir, hroot] at hdir'
    refine ⟨t', hstep, htext', fun hcorrect => absurd hcorrect.1 ?_⟩
    rw [htext', hdir']
    decide
  · obtain ⟨t', hstep, htext', -, hdir'⟩ := @exists_chdir t [dot, dot] none (by decide)
      (by rw [htext]; decide) (Or.inl (by rw [htext]; decide))
    rw [htext] at htext'
    rw [hdir, hroot] at hdir'
    refine ⟨t', hstep, htext', fun hcorrect => absurd hcorrect.1 ?_⟩
    rw [htext', hdir']
    decide

end BdmAssault.Smb.Driver
