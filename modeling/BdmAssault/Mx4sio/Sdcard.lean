import Mathlib.Logic.Function.Basic
import BdmAssault.Lib.Transition

/-! # Reading sectors from an SD card

`spisd_read_multi_do` and the handler of the DMA interrupt. The thread, the handler and the
DMA controller share the command record, the event flag and the memory; the handler may run
and a word may be stored between any two steps of the thread.
-/

namespace BdmAssault.Mx4sio

open Lib

/-! ## State -/

abbrev Word := BitVec 32

/-- `SECTOR_SIZE / 4`. -/
abbrev sectorWords : Nat := 128

/-- One round of `reverse_buffer`. -/
def reverseWord (n : Word) : Word :=
  let n := ((n &&& 0xF0F0F0F0#32) >>> 4) ||| ((n &&& 0x0F0F0F0F#32) <<< 4)
  let n := ((n &&& 0xCCCCCCCC#32) >>> 2) ||| ((n &&& 0x33333333#32) <<< 2)
  ((n &&& 0xAAAAAAAA#32) >>> 1) ||| ((n &&& 0x55555555#32) <<< 1)

inductive SpisdResult where
  | ok
  | error
  | noCard
  | timeout
deriving DecidableEq

def cmdAbortNoReadToken : Nat := 1

def cmdAbortTransferTimeout : Nat := 4

def dmaEventTimeoutPolls : Nat := 3000

/-- `buffer` is the address of a word. -/
structure DmaCommand where
  buffer : Nat
  sectorCount : Nat
  sectorsTransferred : Nat
  sectorsReversed : Nat
  response : SpisdResult
  abort : Nat

/-- A transfer that is under way: where it goes, and the words that have been stored. -/
structure Dma where
  address : Nat
  words : List Word

/-- Where the thread is in `spisd_read_multi_do`. From `events` on, `complete` is that bit of
`resbits`; `load` and `store` are in the loop of `reverse_buffer`, with the loop's `i` and
`n`. -/
inductive Pc where
  | enter
  | clear
  | start
  | poll (polls : Nat)
  | timeout
  | events (reverse complete : Bool)
  | clearReverse (complete : Bool)
  | testTransferred (complete : Bool)
  | testAbort (complete : Bool)
  | load (complete : Bool) (i : Nat)
  | store (complete : Bool) (i : Nat) (n : Word)
  | reversed (complete : Bool)
  | advance (complete : Bool)
  | testComplete (complete : Bool)
  | leave
  | returned (k : Nat)
deriving DecidableEq

/-- `reverse` and `complete` are the bits of the event flag. `received` are the transfers whose
interrupt was handled to its end, in order. -/
structure ReadState where
  cmd : DmaCommand
  mem : Nat → Word
  reverse : Bool
  complete : Bool
  dma : Option Dma
  received : List (List Word)
  pc : Pc

/-! ## The thread -/

def mxSio2StartRxDma (address : Nat) (s : ReadState) : ReadState := { s with dma := some ⟨address, []⟩ }

/-- `&cmd.buffer[cmd.sectors_reversed * SECTOR_SIZE]`, with the index of a word. -/
def DmaCommand.reversing (cmd : DmaCommand) (i : Nat) : Nat :=
  cmd.buffer + cmd.sectorsReversed * sectorWords + i

/-- The counters have 16 bits. -/
def bump (n : Nat) : Nat := (n + 1) % 65536

/-- One step of `spisd_read_multi_do`; none after it has returned. -/
def spisdReadMultiDo (buffer count : Nat) (s : ReadState) : Option ReadState :=
  match s.pc with
  | .enter => some { s with cmd := ⟨buffer, count, 0, 0, .ok, 0⟩, pc := .clear }
  | .clear => some { s with reverse := false, complete := false, pc := .start }
  | .start => some { mxSio2StartRxDma buffer s with pc := .poll 0 }
  | .poll polls =>
      if polls < dmaEventTimeoutPolls then
        if s.reverse || s.complete then some { s with pc := .events s.reverse s.complete }
        else some { s with pc := .poll (polls + 1) }
      else some { s with pc := .timeout }
  | .timeout => some { s with cmd := { s.cmd with abort := cmdAbortTransferTimeout }, pc := .leave }
  | .events reverse complete =>
      some { s with pc := if reverse then .clearReverse complete else .testComplete complete }
  | .clearReverse complete => some { s with reverse := false, pc := .testTransferred complete }
  | .testTransferred complete =>
      some { s with pc := if s.cmd.sectorsReversed < s.cmd.sectorsTransferred then .testAbort complete
                          else .testComplete complete }
  | .testAbort complete =>
      some { s with pc := if s.cmd.abort = 0 then .load complete 0 else .testComplete complete }
  | .load complete i =>
      some { s with pc := if i < sectorWords then .store complete i (reverseWord (s.mem (s.cmd.reversing i)))
                          else .reversed complete }
  | .store complete i n =>
      some { s with mem := Function.update s.mem (s.cmd.reversing i) n, pc := .load complete (i + 1) }
  | .reversed complete =>
      some { s with pc := if s.cmd.abort = 0 then .advance complete else .testTransferred complete }
  | .advance complete =>
      some { s with cmd := { s.cmd with sectorsReversed := bump s.cmd.sectorsReversed },
                    pc := .testTransferred complete }
  | .testComplete complete =>
      some (if complete then { s with complete := false, pc := .leave } else { s with pc := .poll 0 })
  | .leave => some { s with pc := .returned s.cmd.sectorsReversed }
  | .returned _ => none

/-! ## The handler and the controller -/

/-- `transfer` says whether the rest of the transfer completed, and `response` is what came of
the wait for the read token. -/
def mxSio2DmaIsrRx (transfer : Bool) (response : SpisdResult) (words : List Word) (s : ReadState) :
    ReadState :=
  if transfer then
    let cmd := { s.cmd with response := response, sectorsTransferred := bump s.cmd.sectorsTransferred }
    let s := { s with dma := none, received := s.received ++ [words], cmd := cmd, reverse := true }
    if cmd.sectorsTransferred < cmd.sectorCount ∧ cmd.abort = 0 then
      if response = .ok then
        mxSio2StartRxDma (cmd.buffer + cmd.sectorsTransferred * sectorWords) s
      else { s with cmd := { cmd with abort := cmdAbortNoReadToken }, complete := true }
    else { s with complete := true }
  else
    { s with
      dma := none
      cmd := { s.cmd with response := .timeout, abort := cmdAbortTransferTimeout }
      complete := true }

/-- The controller stores the next word. -/
def storeWord (address : Nat) (words : List Word) (w : Word) (s : ReadState) : ReadState :=
  { s with mem := Function.update s.mem (address + words.length) w, dma := some ⟨address, words ++ [w]⟩ }

inductive ReadEvent where
  | thread
  | word (w : Word)
  | interrupt (transfer : Bool) (response : SpisdResult)

/-- The interrupt comes when all words of a sector have been stored. -/
inductive ReadStep (buffer count : Nat) : ReadState → ReadEvent → ReadState → Prop where
  | thread {s t : ReadState} (h : spisdReadMultiDo buffer count s = some t) :
      ReadStep buffer count s .thread t
  | word {s : ReadState} {address : Nat} {words : List Word} {w : Word}
      (hdma : s.dma = some ⟨address, words⟩) (hmore : words.length < sectorWords) :
      ReadStep buffer count s (.word w) (storeWord address words w s)
  | interrupt {s : ReadState} {address : Nat} {words : List Word} {transfer : Bool} {response : SpisdResult}
      (hdma : s.dma = some ⟨address, words⟩) (hfull : words.length = sectorWords) :
      ReadStep buffer count s (.interrupt transfer response) (mxSio2DmaIsrRx transfer response words s)

/-- At the call no transfer is under way. -/
def readMulti (buffer : Nat) (count : Fin 65536) : System ReadState ReadEvent :=
  ⟨fun s => s.pc = .enter ∧ s.dma = none ∧ s.received = [], ReadStep buffer count⟩

end BdmAssault.Mx4sio
