import BdmAssault.Ata.BdIo
import Mathlib.Algebra.Ring.Nat

/-! # DMA transfers of any length

`sceAtaDmaTransfer` with commands that all succeed: when it returns, and what it has transferred.
A chunk of a 48-bit request is counted in 16 bits, which do not hold its limit of 65536 sectors.
-/

namespace BdmAssault.Ata

open Lib

/-- Export 9. -/
def sceAtaDmaTransfer (hw : Machine) (device : Fin 2) (dir : Int) (rounds : Nat) (buf : UInt32) (lba : UInt32)
    (nsectors : UInt32) (s : State) : Option (Int × State) :=
  ataDeviceSectorIo64 hw device dir rounds buf lba.toUInt64 nsectors s

/-- Every transfer by DMA succeeds on a device that was found. -/
structure Obliging (hw : Machine) : Prop where
  exec : ∀ a s, (s.devinfo a.device).existing = true → a.type &&& 0x7f = 4 → ((execCmd hw a).outcome id s).1 = 0
  wait : ∀ log, hw.wait log = 0

/-- The sectors that 28-bit commands take from `lba` on, before the first 48-bit one. -/
def before48 (hw : Machine) (d : Devinfo) (lba : Nat) : Nat :=
  if hw.dvrp then 256 * ((d.totalSectors.toNat - lba + 255) / 256) else 0

/-- No chunk of a 48-bit command comes to 65536 sectors. -/
def ChunksFit (hw : Machine) (d : Devinfo) (lba nsectors : Nat) : Prop :=
  d.lba48 = true → nsectors < 65536 + before48 hw d lba

/-- The transfer returns 0, and the lengths of its commands add up. -/
def Completes (hw : Machine) (device : Fin 2) (dir : Int) (buf lba nsectors : UInt32) (s : State) : Prop :=
  ∃ rounds s' es ts, sceAtaDmaTransfer hw device dir rounds buf lba nsectors s = some (0, s') ∧
    s'.log = s.log ++ es ∧ Adds es ts ∧ (ts.map fun t => t.command.sectors).sum = nsectors.toNat

/-! ## One chunk -/

section Chunks

variable {hw : Machine} {d : Devinfo} {lba nsectors : Nat}

theorem before48_next (h : before48 hw d lba ≠ 0) : before48 hw d lba = 256 + before48 hw d (lba + 256) := by
  unfold before48 at h ⊢
  by_cases hdvrp : hw.dvrp = true
  · rw [if_pos hdvrp] at h ⊢
    rw [if_pos hdvrp]
    omega
  · rw [if_neg hdvrp] at h
    exact absurd rfl h

/-- A sector takes a 48-bit command exactly if no 28-bit ones come first. -/
theorem needs48_iff {lba : UInt64} : d.needs48 hw lba = true ↔ d.lba48 = true ∧ before48 hw d lba.toNat = 0 := by
  unfold Devinfo.needs48 before48
  rw [Bool.and_eq_true]
  refine and_congr_right fun _ => ?_
  cases hw.dvrp with
  | false => exact iff_of_true rfl rfl
  | true =>
      rw [if_pos rfl, if_pos rfl, decide_eq_true_iff, UInt64.le_iff_toNat_le, UInt32.toNat_toUInt64]
      omega

end Chunks

section Steps

variable {hw : Machine} {d : Devinfo} {device : Fin 2} {dir : Int} {lba : UInt64} {nsectors buf : UInt32} {s : State}
  {command : Command} {c : Chunk}

theorem select_device (device : Fin 2) (x : UInt64) :
    (UInt16.ofNat device <<< 4 ||| (x &&& 0xf).toUInt16) >>> 4 = UInt16.ofNat device := by
  obtain rfl | rfl : device = 0 ∨ device = 1 := by omega
  · apply UInt16.toBitVec_inj.mp
    apply BitVec.eq_of_getLsbD_eq
    intro i hi
    interval_cases i <;> simp
  · apply UInt16.toBitVec_inj.mp
    apply BitVec.eq_of_getLsbD_eq
    intro i hi
    interval_cases i <;> simp

theorem setup_device : ((setup hw d device lba nsectors dir).args buf).device = device := by
  have hselect : (setup hw d device lba nsectors dir).select >>> 4 = UInt16.ofNat device := by
    unfold setup
    split
    · dsimp only
      obtain rfl | rfl : device = 0 ∨ device = 1 := by omega
      · rfl
      · rfl
    · exact select_device device (lba >>> 24)
  unfold CmdArgs.device
  rw [show ((setup hw d device lba nsectors dir).args buf).select >>> 4 = UInt16.ofNat device from hselect]
  obtain rfl | rfl : device = 0 ∨ device = 1 := by omega
  · rfl
  · rfl

/-- Also a chunk of no sectors is issued. -/
theorem setup_issues (buf : UInt32) : ∃ command, ∀ dev : Device,
    (dev.run ((setup hw d device lba nsectors dir).args buf).writes).issued = some command := by
  obtain ⟨htype, hop, -⟩ :=
    dma_command (d.needs48 hw lba) dir (a := (setup hw d device lba nsectors dir).args buf) setup_command
  have hform := opcodeOf_ext (d.needs48 hw lba) dir
  rw [← hop] at hform
  generalize (setup hw d device lba nsectors dir).args buf = a at *
  cases hext : d.needs48 hw lba with
  | true =>
      rw [hext, if_pos rfl] at htype
      exact ⟨_, fun dev => run_writes_ext (by rw [htype]; decide) (hform.mpr hext)⟩
  | false =>
      rw [hext, if_neg Bool.false_ne_true] at htype
      exact ⟨_, fun dev => run_writes (by rw [htype]; decide)
        fun h => Bool.false_ne_true (hext.symm.trans (hform.mp h))⟩

/-- The first try succeeds. -/
theorem Obliging.retries (h : Obliging hw) {n : Nat} {res : Int}
    {E : Int → State → Prop} (hissued : ∀ dev : Device, (dev.run (c.args buf).writes).issued = some command)
    (hcmd : ∀ cmd, (c.args buf).cmdState cmd = ⟨4, buf, c.len.toUInt32, decide (dir = ataDirWrite)⟩)
    (hexisting : (s.devinfo (c.args buf).device).existing = true) :
    (bdm2Retries hw dir 1 c buf (n + 1) res).Ensures s
      (fun r s' => r = 0 ∧ Retried command (c.moving buf 1 dir) s s' [0]) E := by
  have htype : (c.args buf).type &&& 0x7f = 4 := congrArg CmdState.type (hcmd s.cmd)
  refine (quietly_setDir _ _).bind fun _ s₁ hs₁ => ?_
  have hexisting₁ : (s₁.devinfo (c.args buf).device).existing = true := by
    obtain ⟨es, -, rfl⟩ := hs₁
    exact hexisting
  refine (execCmd_issued (h.exec (c.args buf) s₁ hexisting₁ htype)).bind ?_
  rintro r s₂ ⟨rfl, -, es, hplain, hs₂⟩
  rw [hcmd] at hs₂
  subst hs₂
  refine Prog.continues_modify.ensures_bind ?_
  have hresult := @transferResult_ensures hw dir _ command (c.moving buf 1 dir) E s₁ (c.args buf) es hissued hplain
    rfl (show (4 : UInt8) ≠ 2 by decide)
  refine hresult.bind ?_
  rintro res s₂ ⟨⟨log, rfl⟩, hs₂⟩
  rw [h.wait] at hs₂ ⊢
  rw [if_pos (by decide)]
  exact Prog.ensures_pure ⟨rfl, (Retried.quiet hs₁).trans hs₂⟩

theorem Obliging.retries_outcome (h : Obliging hw)
    (hissued : ∀ dev : Device, (dev.run (c.args buf).writes).issued = some command)
    (hcmd : ∀ cmd, (c.args buf).cmdState cmd = ⟨4, buf, c.len.toUInt32, decide (dir = ataDirWrite)⟩)
    (hexisting : (s.devinfo (c.args buf).device).existing = true) :
    let r := (bdm2Retries hw dir 1 c buf 3 0).outcome id s
    r.1 = 0 ∧ Retried command (c.moving buf 1 dir) s r.2 [0] :=
  Prog.Ensures.outcome (E := fun r s' => r = 0 ∧ Retried command (c.moving buf 1 dir) s s' [0]) id
    (h.retries hissued hcmd hexisting) fun _ _ hr => hr

/-- A length of 65536 or more leaves nothing in 16 bits. -/
theorem setup_len_zero (h48 : d.needs48 hw lba = true) (hlong : 65536 ≤ nsectors.toNat) :
    (setup hw d device lba nsectors dir).len = 0 := by
  rw [setup, if_pos h48]
  by_cases hlt : 65536 < nsectors
  · dsimp only
    rw [if_pos hlt]
    rfl
  · have heq : nsectors = 65536 := by
      apply UInt32.toNat_inj.mp
      have hle : nsectors.toNat ≤ 65536 := Nat.le_of_not_lt fun h => hlt (UInt32.lt_iff_toNat_lt.mpr h)
      exact Nat.le_antisymm hle hlong
    rw [heq]
    rfl

/-- One round of the loop. -/
theorem Obliging.round (h : Obliging hw) {v : IoVars} (hres : v.res = 0) (hpos : 0 < v.nsectors)
    (hd : s.devinfo device = d) (hexisting : d.existing = true) :
    let c := setup hw d device v.lba v.nsectors dir
    ∃ s' es ts,
      (∀ rounds, io64Loop hw device dir (rounds + 1) v s = io64Loop hw device dir rounds (v.next c.len 512 0) s') ∧
      s'.devinfo device = d ∧ s'.log = s.log ++ es ∧ Adds es ts ∧
      ((d.needs48 hw v.lba = true → v.nsectors.toNat < 65536) → ts.map (fun t => t.command.sectors) = [c.len.toNat]) := by
  obtain ⟨command, hissued⟩ := @setup_issues hw d device dir v.lba v.nsectors v.buf
  have hsectors : (d.needs48 hw v.lba = true → v.nsectors.toNat < 65536) →
      command.sectors = (setup hw d device v.lba v.nsectors dir).len.toNat := by
    intro h48
    have hdecoded := @setup_decoded hw d device v.lba v.nsectors dir (UInt32.lt_iff_toNat_lt.mp hpos) h48 v.buf
      ⟨⟨(0, 0), (0, 0), (0, 0), (0, 0), 0⟩, none, []⟩
    dsimp only at hdecoded
    rw [hissued, Option.some.injEq] at hdecoded
    rw [hdecoded]
  have hcommand := @setup_command hw d device v.lba v.nsectors dir
  have hdevice := @setup_device hw d device dir v.lba v.nsectors v.buf
  have hloop : ∀ c : Chunk, setup hw d device v.lba v.nsectors dir = c → ∀ rounds,
      io64Loop hw device dir (rounds + 1) v s =
        io64Loop hw device dir rounds (v.next c.len 512 ((bdm2Retries hw dir 1 c v.buf 3 0).outcome id s).1)
          ((bdm2Retries hw dir 1 c v.buf 3 0).outcome id s).2 := by
    intro c hc rounds
    show (if v.res = 0 ∧ 0 < v.nsectors then _ else _) = _
    rw [if_pos ⟨hres, hpos⟩, hd, hc]
    dsimp only
    rw [io64Retries_outcome]
  dsimp only
  generalize hc : setup hw d device v.lba v.nsectors dir = c at *
  have hfound : (s.devinfo (c.args v.buf).device).existing = true := by
    rw [hdevice, hd]
    exact hexisting
  have hretries := h.retries_outcome hissued (fun cmd => dma_cmdState cmd hcommand) hfound
  dsimp only at hretries
  have hround := hloop c rfl
  generalize (bdm2Retries hw dir 1 c v.buf 3 0).outcome id s = r at hretries hround
  obtain ⟨hr, cmd, es, hs, hadds⟩ := hretries
  rw [hr] at hround
  refine ⟨r.2, es, _, hround, ?_, by rw [hs]; rfl, hadds, fun h48 => ?_⟩
  · rw [hs]
    exact hd
  · rw [← hsectors h48]
    rfl

end Steps

/-! ## Whole transfers -/

section Loop

variable {hw : Machine} {d : Devinfo} {device : Fin 2} {dir : Int} {s : State} {v : IoVars}

/-- What remains after a chunk still fits, and the chunk takes something off. -/
theorem ChunksFit.next {lba : UInt64} {nsectors : UInt32} (hfit : ChunksFit hw d lba.toNat nsectors.toNat)
    (hpos : 0 < nsectors.toNat) :
    let len := (setup hw d device lba nsectors dir).len.toNat
    (d.needs48 hw lba = true → nsectors.toNat < 65536) ∧ 0 < len ∧ len ≤ nsectors.toNat ∧
      ChunksFit hw d (lba.toNat + len) (nsectors.toNat - len) := by
  have hshort : d.needs48 hw lba = true → nsectors.toNat < 65536 := by
    intro h48
    obtain ⟨hlba48, hnone⟩ := needs48_iff.mp h48
    have hlt := hfit hlba48
    rwa [hnone] at hlt
  refine ⟨hshort, ?_⟩
  rw [setup_len hshort]
  by_cases h48 : d.needs48 hw lba = true
  · rw [if_pos h48]
    exact ⟨hpos, Nat.le_refl _, fun _ => by omega⟩
  · rw [if_neg h48]
    refine ⟨by omega, Nat.min_le_right _ _, fun hlba48 => ?_⟩
    have hlt := hfit hlba48
    have hsome : before48 hw d lba.toNat ≠ 0 := fun hnone => h48 (needs48_iff.mpr ⟨hlba48, hnone⟩)
    by_cases hlast : nsectors.toNat ≤ 256
    · omega
    · rw [Nat.min_eq_left (by omega)]
      rw [before48_next hsome] at hlt
      omega

theorem Obliging.completes (h : Obliging hw) (hexisting : d.existing = true) (n : Nat) (hn : v.nsectors.toNat = n)
    (hres : v.res = 0) (hd : s.devinfo device = d) (hlba : v.lba.toNat + n < 18446744073709551616)
    (hfit : ChunksFit hw d v.lba.toNat n) :
    ∃ rounds s' es ts, io64Loop hw device dir rounds v s = some (0, s') ∧ s'.log = s.log ++ es ∧ Adds es ts ∧
      (ts.map fun t => t.command.sectors).sum = n := by
  induction n using Nat.strong_induction_on generalizing v s with
  | _ n ih =>
      by_cases hpos : 0 < v.nsectors
      · have hpos' : 0 < v.nsectors.toNat := UInt32.lt_iff_toNat_lt.mp hpos
        obtain ⟨h48, hlenpos, hlenle, hrest⟩ := @ChunksFit.next hw d device dir v.lba v.nsectors (hn ▸ hfit) hpos'
        obtain ⟨s₁, es, ts, hround, hd₁, hlog, hadds, hlens⟩ := @Obliging.round hw d device dir s h v hres hpos hd hexisting
        have hlens := hlens h48
        generalize (setup hw d device v.lba v.nsectors dir).len = len at *
        obtain ⟨hlba', hleft⟩ := @IoVars.next_toNat v len 512 0 (hn ▸ hlba) hlenle
        obtain ⟨rounds, s', es', ts', hloop, hlog', hadds', hsum⟩ :=
          @ih (n - len.toNat) (by omega) s₁ (v.next len 512 0) (by rw [hleft, hn]) rfl hd₁ (by omega)
            (by rw [hlba', ← hn]; exact hrest)
        refine ⟨rounds + 1, s', es ++ es', ts ++ ts', (hround rounds).trans hloop, ?_, hadds.append hadds', ?_⟩
        · rw [hlog', hlog, List.append_assoc]
        · rw [List.map_append, List.sum_append, hlens, hsum, List.sum_singleton]
          omega
      · have hzero : v.nsectors.toNat = 0 :=
          Nat.eq_zero_of_not_pos fun h => hpos (UInt32.lt_iff_toNat_lt.mpr h)
        refine ⟨1, s, [], [], ?_, (List.append_nil _).symm, adds_nil, hzero.symm.trans hn⟩
        show (if _ then _ else _) = _
        rw [if_neg fun h => hpos h.2, hres]

theorem Obliging.endless (h : Obliging hw) (hexisting : d.existing = true) (hres : v.res = 0)
    (hd : s.devinfo device = d) (h48 : d.lba48 = true) (hlba : v.lba.toNat + v.nsectors.toNat < 18446744073709551616)
    (hlong : 65536 + before48 hw d v.lba.toNat ≤ v.nsectors.toNat) (rounds : Nat) :
    io64Loop hw device dir rounds v s = none := by
  induction rounds generalizing v s with
  | zero => rfl
  | succ rounds ih =>
      have hpos : 0 < v.nsectors := UInt32.lt_iff_toNat_lt.mpr (show 0 < v.nsectors.toNat by omega)
      obtain ⟨s₁, -, -, hround, hd₁, -⟩ := @Obliging.round hw d device dir s h v hres hpos hd hexisting
      rw [hround rounds]
      by_cases hneeds : d.needs48 hw v.lba = true
      · -- the chunk is empty, and the next round is the same
        rw [setup_len_zero hneeds (by omega)]
        obtain ⟨hlba', hleft⟩ := @IoVars.next_toNat v 0 512 0 hlba (Nat.zero_le _)
        have hlba' : (v.next 0 512 0).lba.toNat = v.lba.toNat := hlba'
        have hleft : (v.next 0 512 0).nsectors.toNat = v.nsectors.toNat := hleft
        refine ih rfl hd₁ ?_ ?_
        · rwa [hlba', hleft]
        · rwa [hlba', hleft]
      · have hlen : (setup hw d device v.lba v.nsectors dir).len.toNat = 256 := by
          rw [setup_len fun h => absurd h hneeds, if_neg hneeds]
          omega
        have hsome : before48 hw d v.lba.toNat ≠ 0 := fun hnone => hneeds (needs48_iff.mpr ⟨h48, hnone⟩)
        rw [before48_next hsome] at hlong
        generalize (setup hw d device v.lba v.nsectors dir).len = len at *
        obtain ⟨hlba', hleft⟩ := @IoVars.next_toNat v len 512 0 hlba (by omega)
        rw [hlen] at hlba' hleft
        refine ih rfl hd₁ (by omega) ?_
        rw [hlba', hleft]
        omega

end Loop

/-- With commands that all succeed, the transfer returns 0 after commands whose lengths add up,
exactly if no chunk of a 48-bit command comes to 65536 sectors. -/
theorem dma_transfer_completes_iff (hw : Machine) (h : Obliging hw) (device : Fin 2) (dir : Int)
    (buf lba nsectors : UInt32) (s : State) (hexisting : (s.devinfo device).existing = true) :
    Completes hw device dir buf lba nsectors s ↔ ChunksFit hw (s.devinfo device) lba.toNat nsectors.toNat := by
  have hlba : lba.toUInt64.toNat = lba.toNat := UInt32.toNat_toUInt64 lba
  have hlt : lba.toNat < 4294967296 := lba.toNat_lt_size
  have hn : nsectors.toNat < 4294967296 := nsectors.toNat_lt_size
  constructor
  · rintro ⟨rounds, s', es, ts, hsome, -⟩ h48
    by_contra hlong
    have hnone := @Obliging.endless hw _ device dir s ⟨buf, lba.toUInt64, nsectors, 0⟩ h hexisting rfl rfl h48
      (show lba.toUInt64.toNat + nsectors.toNat < _ by omega)
      (show 65536 + before48 hw _ lba.toUInt64.toNat ≤ nsectors.toNat by rw [hlba]; omega) rounds
    unfold sceAtaDmaTransfer ataDeviceSectorIo64 at hsome
    rw [hnone] at hsome
    cases hsome
  · intro hfit
    exact @Obliging.completes hw _ device dir s ⟨buf, lba.toUInt64, nsectors, 0⟩ h hexisting nsectors.toNat rfl rfl rfl
      (show lba.toUInt64.toNat + nsectors.toNat < _ by omega) (hlba ▸ hfit)

section Steady

variable {dvrp : Bool} {s : State}

theorem steady_readReg (r : Reg) : (readReg (steadyMachine dvrp) r).Continues s 0x40 (s.add [.read r]) := rfl

theorem steady_waitBusBusy : (ataWaitBusBusy (steadyMachine dvrp)).Continues s 0 (s.add [.read .control]) := by
  have hfirst (n : Nat) : (waitBusyLoop (steadyMachine dvrp) 0x88 (n + 1)).Continues s 0 (s.add [.read .control]) := by
    refine (steady_readReg .control).bind ?_
    rw [if_pos (by decide)]
    rfl
  exact hfirst 79

theorem steady_select (device : Fin 2) :
    (ataDeviceSelect (steadyMachine dvrp) device).Ensures s (fun r s' => r = 0 ∧ s'.devinfo = s.devinfo)
      fun _ _ => False := by
  refine steady_waitBusBusy.ensures_bind ?_
  rw [if_neg (by decide)]
  refine (steady_readReg .select).ensures_bind ?_
  split
  · exact Prog.ensures_pure ⟨rfl, rfl⟩
  · refine Prog.continues_modify.ensures_bind ((steady_readReg .control).ensures_bind ?_)
    exact (steady_readReg .control).ensures_bind (steady_waitBusBusy.ensures ⟨rfl, rfl⟩)

theorem steady_prepareCmd (a : CmdArgs) :
    (prepareCmd (steadyMachine dvrp) a).Ensures s (fun _ _ => True) fun _ _ => False := by
  refine Prog.Ensures.bind (R := fun _ _ => True) ?_ fun _ s' _ => ?_
  · exact Prog.ensures_when (fun _ => Prog.continues_modify.ensures trivial) fun _ => trivial
  · refine Prog.ensures_when (fun _ => ?_) fun _ => trivial
    have halarm : (setAlarm (steadyMachine dvrp)).Continues s' 0 (s'.add [.setAlarm]) := rfl
    exact halarm.ensures_bind ((Prog.continues_when_neg (by decide)).ensures trivial)

theorem steadyMachine_obliging (dvrp : Bool) : Obliging (steadyMachine dvrp) := by
  refine ⟨fun a s hexisting htype => ?_, fun _ => rfl⟩
  have hexec : (sceAtaExecCmd (steadyMachine dvrp) a).Ensures s (fun _ _ => True) fun _ _ => False := by
    refine Prog.Ensures.get (Prog.ensures_check (fun hno => ?_) fun _ => ?_)
    · exact Bool.false_ne_true (hno.symm.trans hexisting)
    refine (steady_select a.device).bind ?_
    rintro res s₁ ⟨rfl, -⟩
    refine Prog.ensures_check (fun hres => hres rfl) fun _ => ?_
    refine Prog.continues_modify.ensures_bind (Prog.ensures_check (fun hzero => ?_) fun _ => ?_)
    · rw [htype] at hzero
      exact absurd hzero (by decide)
    refine Prog.continues_modify.ensures_bind ((steady_readReg .control).ensures_bind ?_)
    refine Prog.ensures_check (fun hready => absurd hready.1 (by decide)) fun _ => ?_
    exact (steady_prepareCmd a).bind fun _ s₂ _ => sendCmd_ensures.mono fun _ _ _ => trivial
  have hcall : (execCmd (steadyMachine dvrp) a).Ensures s (fun r _ => r = 0) fun _ _ => False :=
    Prog.Ensures.call _ (hexec.exits_mono fun _ _ => False.elim) fun _ _ _ => rfl
  exact Prog.Ensures.outcome (E := fun r _ => r = 0) id (hcall.exits_mono fun _ _ => False.elim) fun _ _ h => h

/-- A 48-bit disk that is not behind the emulation. -/
def plainDisk : State := { largeDisk with devinfo := fun _ => ⟨true, 0, 0xffffffff, 0, true, 0xffffffff⟩ }

theorem dma_transfer_completes_65535 : Completes (steadyMachine false) 0 ataDirRead 0x100000 0 65535 plainDisk :=
  (dma_transfer_completes_iff _ (steadyMachine_obliging false) 0 ataDirRead 0x100000 0 65535 plainDisk rfl).mpr
    fun _ => by decide

/-- 65536 sectors are asked for again and again. -/
theorem dma_transfer_65536_endless : ¬Completes (steadyMachine false) 0 ataDirRead 0x100000 0 65536 plainDisk := by
  rintro ⟨rounds, s', es, ts, hsome, -⟩
  have hnone := @Obliging.endless (steadyMachine false) _ 0 ataDirRead plainDisk ⟨0x100000, 0, 65536, 0⟩
    (steadyMachine_obliging false) rfl rfl rfl rfl (by decide) (by decide) rounds
  rw [sceAtaDmaTransfer, ataDeviceSectorIo64, show (0 : UInt32).toUInt64 = 0 from rfl, hnone] at hsome
  cases hsome

end Steady

end BdmAssault.Ata
