import BdmAssault.Mx4sio.Sdcard

/-! # Writing sectors to an SD card

`spisd_write_multi_do` and the handler of its DMA interrupt. The thread starts the first
transfer and waits; the handler starts the others.
-/

namespace BdmAssault.Mx4sio

open Lib

/-! ## State -/

def cmdAbortWriteError : Nat := 3

/-- Where the thread is in `spisd_write_multi_do`. -/
inductive WritePc where
  | enter
  | clear
  | start
  | poll (polls : Nat)
  | timeout
  | clearComplete
  | leave
  | returned (k : Nat)
deriving DecidableEq

/-- `dma` is the address of the sector that is being sent. `accepted` are the addresses of the
sectors that the card has accepted and programmed since the command, in order. -/
structure WriteState where
  cmd : DmaCommand
  complete : Bool
  dma : Option Nat
  accepted : List Nat
  pc : WritePc

/-! ## The thread and the handler -/

def mxSio2StartTxDma (address : Nat) (s : WriteState) : WriteState := { s with dma := some address }

/-- One step of `spisd_write_multi_do`; none after it has returned. -/
def spisdWriteMultiDo (buffer count : Nat) (s : WriteState) : Option WriteState :=
  match s.pc with
  | .enter => some { s with cmd := ⟨buffer, count, 0, 0, .ok, 0⟩, pc := .clear }
  | .clear => some { s with complete := false, pc := .start }
  | .start => some { mxSio2StartTxDma buffer s with pc := .poll 0 }
  | .poll polls =>
      if polls < dmaEventTimeoutPolls then
        if s.complete then some { s with pc := .clearComplete } else some { s with pc := .poll (polls + 1) }
      else some { s with pc := .timeout }
  | .timeout => some { s with cmd := { s.cmd with abort := cmdAbortTransferTimeout }, pc := .leave }
  | .clearComplete => some { s with complete := false, pc := .leave }
  | .leave => some { s with pc := .returned s.cmd.sectorsTransferred }
  | .returned _ => none

/-- The data response `0x5` is for accepted data; `programmed` is what came of the wait for the
end of the programming. -/
def dataTaken (token : UInt8) (programmed : SpisdResult) : Prop := token = 0x5 ∧ programmed = .ok

instance (token : UInt8) (programmed : SpisdResult) : Decidable (dataTaken token programmed) :=
  inferInstanceAs (Decidable (_ ∧ _))

def mxSio2DmaIsrTx (transfer : Bool) (token : UInt8) (programmed : SpisdResult) (address : Nat)
    (s : WriteState) : WriteState :=
  if transfer then
    let abort := if dataTaken token programmed then s.cmd.abort else cmdAbortWriteError
    let transferred := if abort = 0 then bump s.cmd.sectorsTransferred else s.cmd.sectorsTransferred
    let cmd : DmaCommand :=
      { s.cmd with response := programmed, abort := abort, sectorsTransferred := transferred }
    let accepted := if dataTaken token programmed then s.accepted ++ [address] else s.accepted
    let s := { s with dma := none, accepted := accepted, cmd := cmd }
    if cmd.sectorsTransferred < cmd.sectorCount ∧ cmd.abort = 0 then
      mxSio2StartTxDma (cmd.buffer + cmd.sectorsTransferred * sectorWords) s
    else { s with complete := true }
  else
    { s with
      dma := none
      cmd := { s.cmd with response := .timeout, abort := cmdAbortTransferTimeout }
      complete := true }

inductive WriteEvent where
  | thread
  | interrupt (transfer : Bool) (token : UInt8) (programmed : SpisdResult)

inductive WriteStep (buffer count : Nat) : WriteState → WriteEvent → WriteState → Prop where
  | thread {s t : WriteState} (h : spisdWriteMultiDo buffer count s = some t) :
      WriteStep buffer count s .thread t
  | interrupt {s : WriteState} {address : Nat} {transfer : Bool} {token : UInt8} {programmed : SpisdResult}
      (hdma : s.dma = some address) :
      WriteStep buffer count s (.interrupt transfer token programmed)
        (mxSio2DmaIsrTx transfer token programmed address s)

/-- At the call no transfer is under way. -/
def writeMulti (buffer count : Nat) : System WriteState WriteEvent :=
  ⟨fun s => s.pc = .enter ∧ s.dma = none ∧ s.accepted = [], WriteStep buffer count⟩

/-! ## The invariant -/

section Invariant

variable {buffer count k : Nat} {s t : WriteState}

/-- What each point of the thread needs. -/
def WriteCurrent (s : WriteState) : WritePc → Prop
  | .enter => False
  | .clear => s.accepted = [] ∧ s.dma = none ∧ s.cmd.sectorsTransferred = 0
  | .start => s.accepted = [] ∧ s.dma = none ∧ s.cmd.sectorsTransferred = 0
  | .returned k => k ≤ s.cmd.sectorsTransferred
  | _ => True

/-- The sectors that were counted were accepted, and the next one is being sent. -/
structure Sends (buffer count : Nat) (s : WriteState) : Prop where
  target : s.cmd.buffer = buffer
  sectorCount : s.cmd.sectorCount = count
  bound : s.cmd.sectorsTransferred ≤ max count 1
  counted : ∀ r < s.cmd.sectorsTransferred, s.accepted[r]? = some (buffer + r * sectorWords)
  current : WriteCurrent s s.pc
  dma : ∀ address, s.dma = some address → address = buffer + s.accepted.length * sectorWords ∧
    s.accepted.length = s.cmd.sectorsTransferred ∧ s.cmd.sectorsTransferred < max count 1

def SendFollows (buffer count : Nat) (s : WriteState) : Prop :=
  (s.pc = .enter ∧ s.dma = none ∧ s.accepted = []) ∨ Sends buffer count s

theorem Sends.goto (h : Sends buffer count s) (complete : Bool) (pc : WritePc) (hpc : WriteCurrent s pc) :
    Sends buffer count { s with complete := complete, pc := pc } := by
  refine ⟨h.target, h.sectorCount, h.bound, h.counted, ?_, h.dma⟩
  cases pc <;> exact hpc

theorem SendFollows.thread (h : SendFollows buffer count s)
    (hstep : spisdWriteMultiDo buffer count s = some t) : Sends buffer count t := by
  rcases h with ⟨hpc, hdma, haccepted⟩ | h
  · unfold spisdWriteMultiDo at hstep
    rw [hpc] at hstep
    cases hstep
    refine ⟨rfl, rfl, Nat.zero_le _, fun r hr => absurd hr (Nat.not_lt_zero r), ⟨haccepted, hdma, rfl⟩, ?_⟩
    intro address haddress
    exact nomatch hdma.symm.trans haddress
  · have hcurrent := h.current
    unfold spisdWriteMultiDo at hstep
    cases hpc : s.pc with
    | enter =>
        rw [hpc] at hcurrent
        exact hcurrent.elim
    | clear =>
        rw [hpc] at hcurrent hstep
        cases hstep
        exact h.goto false .start hcurrent
    | start =>
        rw [hpc] at hcurrent hstep
        cases hstep
        obtain ⟨haccepted, -, hzero⟩ := hcurrent
        refine ⟨h.target, h.sectorCount, h.bound, h.counted, trivial, ?_⟩
        rintro _ ⟨⟩
        show buffer = buffer + s.accepted.length * sectorWords ∧ s.accepted.length = s.cmd.sectorsTransferred ∧
          s.cmd.sectorsTransferred < max count 1
        rw [haccepted, hzero]
        exact ⟨by simp, rfl, Nat.lt_of_lt_of_le Nat.zero_lt_one (Nat.le_max_right _ _)⟩
    | poll polls =>
        rw [hpc] at hstep
        dsimp only at hstep
        split at hstep
        · split at hstep
          · cases hstep
            exact h.goto s.complete .clearComplete trivial
          · cases hstep
            exact h.goto s.complete (.poll (polls + 1)) trivial
        · cases hstep
          exact h.goto s.complete .timeout trivial
    | timeout =>
        rw [hpc] at hstep
        cases hstep
        exact ⟨h.target, h.sectorCount, h.bound, h.counted, trivial, h.dma⟩
    | clearComplete =>
        rw [hpc] at hstep
        cases hstep
        exact h.goto false .leave trivial
    | leave =>
        rw [hpc] at hstep
        cases hstep
        exact h.goto s.complete (.returned _) (Nat.le_refl _)
    | returned k =>
        rw [hpc] at hstep
        cases hstep

/-- The thread is where it was. While a sector is being sent, it is past the start. -/
theorem WriteCurrent.carry {pc : WritePc} (h : WriteCurrent s pc) (hdma : s.dma ≠ none)
    (hmore : s.cmd.sectorsTransferred ≤ t.cmd.sectorsTransferred) : WriteCurrent t pc := by
  cases pc with
  | enter => exact h
  | clear => exact absurd h.2.1 hdma
  | start => exact absurd h.2.1 hdma
  | returned k => exact Nat.le_trans h hmore
  | _ => trivial

theorem Sends.interrupt {address : Nat} (h : Sends buffer count s) (hcount : count < 65536)
    (hdma : s.dma = some address) (transfer : Bool) (token : UInt8) (programmed : SpisdResult) :
    Sends buffer count (mxSio2DmaIsrTx transfer token programmed address s) := by
  obtain ⟨haddress, hlength, hless⟩ := h.dma address hdma
  have hsome : s.dma ≠ none := by rw [hdma]; exact nofun
  unfold mxSio2DmaIsrTx
  cases transfer with
  | false =>
      refine ⟨h.target, h.sectorCount, h.bound, h.counted, h.current.carry hsome (Nat.le_refl _), ?_⟩
      exact fun _ hnone => nomatch hnone
  | true =>
      rw [if_pos rfl]
      by_cases htaken : dataTaken token programmed
      · simp only [if_pos htaken]
        by_cases habort : s.cmd.abort = 0
        · -- The sector is counted, and the next one may be sent.
          have hbump : bump s.cmd.sectorsTransferred = s.cmd.sectorsTransferred + 1 := by
            unfold bump
            omega
          have hcounted : ∀ r < s.cmd.sectorsTransferred + 1,
              (s.accepted ++ [address])[r]? = some (buffer + r * sectorWords) := by
            intro r hr
            rcases Nat.lt_succ_iff_lt_or_eq.mp hr with hr | rfl
            · rw [List.getElem?_append_left (hlength ▸ hr)]
              exact h.counted r hr
            · rw [← hlength, List.getElem?_concat_length, haddress]
          have hcurrent : ∀ cmd' complete dma', WriteCurrent
              ⟨{ s.cmd with
                response := programmed, abort := cmd', sectorsTransferred := s.cmd.sectorsTransferred + 1 },
                complete, dma', s.accepted ++ [address], s.pc⟩ s.pc :=
            fun _ _ _ => h.current.carry hsome (Nat.le_succ _)
          simp only [if_pos habort, hbump]
          split
          · rename_i hmore
            refine ⟨h.target, h.sectorCount, hless, hcounted, hcurrent _ _ _, ?_⟩
            rintro _ ⟨⟩
            have hlast : s.cmd.sectorsTransferred + 1 < s.cmd.sectorCount := hmore.1
            show s.cmd.buffer + (s.cmd.sectorsTransferred + 1) * sectorWords =
              buffer + (s.accepted ++ [address]).length * sectorWords ∧
              (s.accepted ++ [address]).length = s.cmd.sectorsTransferred + 1 ∧
              s.cmd.sectorsTransferred + 1 < max count 1
            rw [List.length_append, List.length_singleton, hlength, h.target]
            rw [h.sectorCount] at hlast
            exact ⟨rfl, rfl, Nat.lt_of_lt_of_le hlast (Nat.le_max_left _ _)⟩
          · exact ⟨h.target, h.sectorCount, hless, hcounted, hcurrent _ _ _, nofun⟩
        · -- The thread has given up: the sector is accepted, but not counted.
          simp only [if_neg habort]
          rw [if_neg fun hmore => habort hmore.2]
          refine ⟨h.target, h.sectorCount, h.bound, ?_, h.current.carry hsome (Nat.le_refl _), nofun⟩
          intro r hr
          refine (List.getElem?_append_left ?_).trans (h.counted r hr)
          exact hlength ▸ hr
      · simp only [if_neg htaken]
        rw [if_neg fun hmore => absurd hmore.2 (by decide)]
        exact ⟨h.target, h.sectorCount, h.bound, h.counted, h.current.carry hsome (Nat.le_refl _), nofun⟩

theorem sendFollows_invariant (hcount : count < 65536) :
    (writeMulti buffer count).Invariant (fun _ _ => True) (SendFollows buffer count) where
  init _ h := .inl h
  step _ _ _ _ h _ hstep := by
    cases hstep with
    | thread hthread => exact .inr (h.thread hthread)
    | interrupt hdma =>
        rcases h with ⟨-, hnone, -⟩ | h
        · exact nomatch hnone.symm.trans hdma
        · exact .inr (h.interrupt hcount hdma _ _ _)

/-- The sectors that are counted at the return were accepted in order. -/
theorem write_multi_accepts (hcount : count < 65536)
    (h : (writeMulti buffer count).Reachable (fun _ _ => True) s) (hpc : s.pc = .returned k) :
    k ≤ max count 1 ∧ ∀ r < k, s.accepted[r]? = some (buffer + r * sectorWords) := by
  rcases (sendFollows_invariant hcount).holds h with ⟨henter, -⟩ | hsends
  · exact nomatch henter.symm.trans hpc
  · have hcurrent := hsends.current
    rw [hpc] at hcurrent
    exact ⟨Nat.le_trans hcurrent hsends.bound, fun r hr => hsends.counted r (Nat.lt_of_lt_of_le hr hcurrent)⟩

end Invariant

end BdmAssault.Mx4sio
