import BdmAssault.Ata.SectorIo

/-! # The block device of an ATA disk

What `ata_bd_read` and `ata_bd_write` transfer, whatever becomes of the commands.
-/

namespace BdmAssault.Ata

open Lib

/-! ## What is transferred -/

/-- With `n` tries left: the results of the commands that were issued, and the result of the
retry loop. -/
inductive Tries (hw : Machine) : Nat → List Int → Int → Prop where
  | refused {n : Nat} {res : Int} (h : Refuses hw res) : Tries hw (n + 1) [] res
  | ended {n : Nat} {res : Int} (h : res ≠ ataResErrIcrc) : Tries hw (n + 1) [res] res
  | again {n : Nat} {rs : List Int} {res : Int} (rest : Tries hw n rs res) :
      Tries hw (n + 1) (ataResErrIcrc :: rs) res
  | exhausted : Tries hw 0 [] ataResErrIcrc

/-- A request to a device, without what it transfers. -/
structure Mode where
  hw : Machine
  devinfo : Devinfo
  device : Fin 2
  dir : Int
  sectorSize : UInt32

def Mode.command (m : Mode) (lba len : Nat) : Command :=
  ⟨opcodeOf (m.devinfo.needs48 m.hw (UInt64.ofNat lba)) m.dir, m.device, true, lba, len⟩

/-- The state of the driver for a chunk. -/
def Mode.Moves (m : Mode) (len : Nat) (buf : UInt32) (cmd : CmdState) : Prop :=
  cmd.type = 4 ∧ cmd.buf = buf ∧ cmd.blkcount.toNat = len * m.sectorSize.toNat / 512 ∧ cmd.dir = decide (m.dir = ataDirWrite)

/-- The transfers of a request for `total` sectors from `lba` on, to or from `buf`: the chunks in
order, each with its tries, up to one that fails. -/
inductive Carries (m : Mode) : Nat → UInt32 → Nat → List Transfer → Bool → Prop where
  | done {lba : Nat} {buf : UInt32} : Carries m lba buf 0 [] true
  | chunk {lba len total : Nat} {buf : UInt32} {cmd : CmdState} {rs : List Int} {ts : List Transfer} {ok : Bool}
      (hpos : 0 < len) (hlen : len ≤ total) (hcmd : m.Moves len buf cmd) (htries : Tries m.hw 3 rs 0)
      (rest : Carries m (lba + len) (buf + .ofNat (len * m.sectorSize.toNat)) (total - len) ts ok) :
      Carries m lba buf total (rs.map (⟨m.command lba len, cmd, ·⟩) ++ ts) ok
  | failed {lba len total : Nat} {buf : UInt32} {cmd : CmdState} {rs : List Int} {res : Int}
      (hpos : 0 < len) (hlen : len ≤ total) (hcmd : m.Moves len buf cmd) (htries : Tries m.hw 3 rs res) (hres : res ≠ 0) :
      Carries m lba buf total (rs.map (⟨m.command lba len, cmd, ·⟩)) false

/-! ## The retry loop -/

section Retries

variable {hw : Machine} {dir : Int} {c : Chunk} {buf : UInt32} {dmaBlkcountPerSector : UInt32} {s : State}
  {command : Command}

/-- What `sceAtaWaitResult` finds. -/
def Chunk.moving (c : Chunk) (buf : UInt32) (dmaBlkcountPerSector : UInt32) (dir : Int) : CmdState :=
  ⟨4, buf, c.len.toUInt32 * dmaBlkcountPerSector, decide (dir = ataDirWrite)⟩

/-- The commands of a retry loop, and nothing else. -/
def Retried (command : Command) (cmd : CmdState) (s s' : State) (rs : List Int) : Prop :=
  ∃ (cmd' : CmdState) (es : List Event), s' = (s.withCmd cmd').add es ∧ Adds es (rs.map (⟨command, cmd, ·⟩))

theorem Retried.refl {cmd : CmdState} (s : State) : Retried command cmd s s [] :=
  ⟨s.cmd, [], (State.add_nil _).symm, adds_nil⟩

theorem Retried.trans {cmd : CmdState} {s' s'' : State} {rs rs' : List Int} (h : Retried command cmd s s' rs)
    (h' : Retried command cmd s' s'' rs') : Retried command cmd s s'' (rs ++ rs') := by
  obtain ⟨cmd₁, es, rfl, hadds⟩ := h
  obtain ⟨cmd₂, es', rfl, hadds'⟩ := h'
  refine ⟨cmd₂, es ++ es', ?_, ?_⟩
  · rw [State.add_withCmd, State.withCmd_withCmd, State.add_add]
  · rw [List.map_append]
    exact hadds.append hadds'

theorem Retried.quiet {cmd : CmdState} {s' : State} (h : s.Quiet s') : Retried command cmd s s' [] := by
  obtain ⟨es, hplain, rfl⟩ := h
  exact ⟨s.cmd, es, rfl, adds_plain hplain⟩

theorem quietly_setDir {b : Bool} : Quietly (Prog.when (hw.gamestar = b) (doing (.setDir dir))) := by
  by_cases h : hw.gamestar = b
  · rw [Prog.when_pos h]
    exact quietly_doing (e := .setDir dir) trivial
  · exact fun s E => (Prog.continues_when_neg h).ensures (.refl s)

/-- The wait for a command that was issued. -/
theorem transferResult_ensures {cmd : CmdState} {E : Int → State → Prop} {s₀ : State} {a : CmdArgs} {es : List Event}
    (hissued : ∀ d : Device, (d.run a.writes).issued = some command) (hplain : ∀ e ∈ es, e.Plain)
    (hs : s = (s₀.withCmd cmd).add (es ++ a.writes)) (htype : cmd.type ≠ 2) :
    (transferResult hw dir).Ensures s
      (fun res s' => (∃ log, res = hw.wait log) ∧ Retried command cmd s₀ s' [res]) E := by
  subst hs
  refine (quietly_setDir _ _).bind ?_
  rintro _ _ ⟨es', hplain', rfl⟩
  refine (sceAtaWaitResult_dma hw htype).ensures_bind (Prog.continues_modify.ensures_bind ?_)
  refine Prog.ensures_pure ⟨⟨_, rfl⟩, ?_⟩
  generalize hw.wait _ = res
  refine ⟨cmd, es ++ a.writes ++ es' ++ [.wait cmd res] ++ [.dmaOff], ?_, ?_⟩
  · simp only [State.add_cmd, State.withCmd_cmd, State.add_add]
  · exact (adds_command hissued (fun d => run_writes_transfers) hplain hplain').append
      (adds_plain (List.forall_mem_singleton.mpr trivial))

end Retries

/-! ## The loop -/

section Loop

variable {m : Mode} {s : State} {v : IoVars} {limit : Nat}

theorem dma_cmdState {ext : Bool} {dir : Int} {c : Chunk} {buf : UInt32} (cmd : CmdState)
    (hcommand : c.command = if ext then if dir = ataDirWrite then ataCWriteDmaExt else ataCReadDmaExt
      else if dir = ataDirWrite then ataCWriteDma else ataCReadDma) :
    (c.args buf).cmdState cmd = ⟨4, buf, c.len.toUInt32, decide (dir = ataDirWrite)⟩ := by
  obtain ⟨htype, -, hdir⟩ := dma_command ext dir (a := c.args buf) hcommand
  have hmasked : (c.args buf).type &&& 0x7f = 4 := by
    rw [htype]
    cases ext <;> rfl
  unfold CmdArgs.cmdState
  rw [hmasked, if_pos rfl, hdir]
  rfl

theorem IoVars.next_toNat {len : UInt16} {size : UInt32} {res : Int}
    (hlba : v.lba.toNat + v.nsectors.toNat < 18446744073709551616) (hle : len.toNat ≤ v.nsectors.toNat) :
    (v.next len size res).lba.toNat = v.lba.toNat + len.toNat ∧
      (v.next len size res).nsectors.toNat = v.nsectors.toNat - len.toNat := by
  constructor
  · show (v.lba + len.toUInt64).toNat = _
    rw [UInt64.toNat_add, UInt16.toNat_toUInt64, Nat.mod_eq_of_lt (by omega)]
  · show (v.nsectors - len.toUInt32).toNat = _
    rw [UInt32.toNat_sub_of_le _ _ (UInt32.le_iff_toNat_le.mpr (by rwa [UInt16.toNat_toUInt32])),
      UInt16.toNat_toUInt32]

end Loop

/-! ## The two routines -/

section Routines

variable {hw : Machine} {device : Fin 2} {dir : Int} {c : Chunk} {buf : UInt32} {s : State}

theorem io64Retries_eq (n : Nat) (res : Int) :
    (io64Retries hw dir c buf n res).run.run s = (bdm2Retries hw dir 1 c buf n res).run.run s := by
  induction n generalizing s res with
  | zero => rfl
  | succ n ih =>
      refine (Prog.ensures_trivial _ s).run_congr fun _ s₁ _ => ?_
      refine (execCmd_ensures (E := fun _ _ => True)).run_congr ?_
      rintro r s₂ (⟨rfl, hexec⟩ | ⟨hr, -⟩)
      · have hsame : s₂.withCmd { s₂.cmd with blkcount := c.len.toUInt32 * 1 } = s₂ := by
          obtain ⟨es, -, rfl⟩ := hexec.2
          rw [UInt32.mul_one]
          rfl
        rw [if_neg (not_not_intro rfl), if_neg (not_not_intro rfl), Prog.continues_modify.run_bind, hsame]
        refine (Prog.ensures_trivial _ s₂).run_congr fun res s₃ _ => ?_
        split
        · rfl
        · exact ih res
      · rw [if_pos hr.ne_zero, if_pos hr.ne_zero]

theorem io64Retries_outcome :
    (io64Retries hw dir c buf 3 0).outcome id s = (bdm2Retries hw dir 1 c buf 3 0).outcome id s := by
  unfold Prog.outcome
  rw [io64Retries_eq]

end Routines

/-! ## Requests -/

/-- A disk whose capacity keeps to the sector numbers of its commands: 28 bits for those of the
first kind, which reach up to `total_sectors` where the other kind is only used behind it. -/
structure Disk (hw : Machine) (d : Devinfo) (bd : AtaBd) : Prop where
  sectorSize_pos : 0 < bd.sectorSize.toNat
  sectorSize_blocks : 512 ∣ bd.sectorSize.toNat
  small : d.lba48 = false → bd.sectorCount.toNat ≤ 268435456
  large : bd.sectorCount.toNat ≤ 281474976710656
  boundary : d.lba48 = true → hw.dvrp = true → d.totalSectors.toNat ≤ 268435456

def completed (ts : List Transfer) : List Transfer := ts.filter fun t => t.res = 0

/-- The sectors of some commands, in their order. -/
def sectorsOf (ts : List Transfer) : List Nat := ts.flatMap fun t => List.range' t.command.lba t.command.sectors

theorem Tries.successful {hw : Machine} {n : Nat} {rs : List Int} (h : Tries hw n rs 0) : rs.filter (fun r => r = 0) = [0] := by
  generalize hres : (0 : Int) = res at h
  induction h with
  | refused hrefused => exact absurd hres.symm hrefused.ne_zero
  | ended _ =>
      subst hres
      rfl
  | again _ ih =>
      subst hres
      rw [List.filter_cons_of_neg (by decide)]
      exact ih rfl
  | exhausted => exact absurd hres (by decide)

theorem Carries.sectors {m : Mode} {lba total : Nat} {buf : UInt32} {ts : List Transfer} {ok : Bool}
    (h : Carries m lba buf total ts ok) (hok : ok = true) : sectorsOf (completed ts) = List.range' lba total := by
  induction h with
  | done => rfl
  | @chunk lba len total buf cmd rs ts ok hpos hlen hcmd htries rest ih =>
      have hone : completed (rs.map (⟨m.command lba len, cmd, ·⟩)) = [⟨m.command lba len, cmd, 0⟩] := by
        unfold completed
        rw [List.filter_map]
        exact congrArg (List.map _) htries.successful
      have hsplit : completed (rs.map (⟨m.command lba len, cmd, ·⟩) ++ ts) =
          ⟨m.command lba len, cmd, 0⟩ :: completed ts := by
        unfold completed at hone ⊢
        rw [List.filter_append, hone]
        rfl
      rw [hsplit]
      show List.range' lba len ++ sectorsOf (completed ts) = _
      rw [ih hok, List.range'_append_1]
      congr 1
      omega
  | failed => exact absurd hok nofun

/-- A request does what it should: its commands carry the sectors in order, each to its place
in the buffer, and the result tells whether they carried all of them. -/
def Transfers (m : Mode) (request : UInt64 → UInt32 → UInt16 → State → Option (Int × State)) (s : State)
    (sector : UInt64) (buffer : UInt32) (count : UInt16) : Prop :=
  ∃ status s' es ts ok, request sector buffer count s = some (status, s') ∧ s'.log = s.log ++ es ∧ Adds es ts ∧
    Carries m sector.toNat buffer count.toNat ts ok ∧ status = (if ok then (count.toNat : Int) else -eio) ∧
    (status = count.toNat → sectorsOf (completed ts) = List.range' sector.toNat count.toNat)

section Requests

variable {hw : Machine} {bd : Fin 2} {dir : Int} {s : State} {sector : UInt64} {buffer : UInt32} {count : UInt16}

end Requests

section Machines

/-- A machine on which everything succeeds at once. -/
def steadyMachine (dvrp : Bool) : Machine where
  dvrp := dvrp
  gamestar := false
  ataParam := 0
  reg _ _ := 0x40
  setAlarm _ := 0
  wait _ := 0
  data _ _ := 0

/-- A disk of 1 TB behind the emulation, of which 28-bit commands reach 8 GB. -/
def largeDisk : State where
  devinfo _ := ⟨true, 0, 0x1000000, 0, true, 0xffffffff⟩
  cmd := ⟨0, 0, 0, false⟩
  param _ := 0
  bd _ := ⟨4096, 0x10000000⟩
  devinfoInit := true
  log := []

end Machines

end BdmAssault.Ata
