import BdmAssault.Lib.Transition
import BdmAssault.Usb.MassStorage

/-! # Bulk data in pieces

`usb_bulk_transfer` submits the first piece and waits for the semaphore; the callback of a piece
submits the next one from inside the stack. The thread and the callbacks share `cb_data`, and a
run takes their steps in any order.
-/

namespace BdmAssault.Usb.Chunks

open Lib

/-! ## State -/

/-- `usb_transfer_callback_data`; the semaphore is the device's. -/
structure TransferCallbackData where
  pipe : Int
  buffer : UInt32
  returnCode : Int
  remaining : UInt32
deriving DecidableEq

/-- `usb_callback_data`, which is not set before the callback. -/
structure CallbackData where
  returnCode : Int
  returnSize : Int32
deriving DecidableEq

structure Piece where
  pipe : Int
  buffer : UInt32
  len : UInt32
deriving DecidableEq

/-- A request that the stack has accepted. -/
inductive Accepted where
  | piece (p : Piece)
  | clearHalt (pipe : Int)
deriving DecidableEq

/-- The arguments of `usb_bulk_transfer`. -/
structure Job where
  direction : Int
  buffer : UInt32
  transferSize : UInt32
deriving DecidableEq

/-- What one call does: requests with the result of submitting them, completions, and the uses
of the semaphore. A `wait` is the decision to call `WaitSema`, which returns at `woken`. -/
inductive Event where
  | submit (p : Piece) (ret : Int)
  | complete (code : Int) (bytes : Int32)
  | clearHalt (pipe ret : Int)
  | cleared (code : Int)
  | signal
  | wait
  | woken
  | returned (r : Int)
deriving DecidableEq

inductive Thread where
  | idle
  | waiting
  /-- The transfer failed, and `usb_bulk_clear_halt` comes next. -/
  | failed
  | clearing
deriving DecidableEq

/-- `data`, `haltData` and `ret` are the variables of the call, and `log` is what it did, latest
first. -/
structure BulkState where
  thread : Thread
  job : Job
  data : TransferCallbackData
  haltData : CallbackData
  ret : Int
  sema : Nat
  pending : List Accepted
  log : List Event
deriving DecidableEq

/-! ## The driver -/

def usbBlkEpIn : Int := 0

def bulkPipe (dev : MassDev) (direction : Int) : Int :=
  if direction = usbBlkEpIn then dev.bulkEpI else dev.bulkEpO

/-- The semaphore is created with the maximum 1. -/
def signalSema (s : BulkState) : BulkState :=
  { s with sema := min 1 (s.sema + 1), log := .signal :: s.log }

def waitSema (s : BulkState) : BulkState := { s with sema := s.sema - 1, log := .woken :: s.log }

def accept (ret : Int) (request : Accepted) (s : BulkState) : List Accepted :=
  if ret = usbRcOk then request :: s.pending else s.pending

def nextPiece (data : TransferCallbackData) : Piece :=
  ⟨data.pipe, data.buffer, transferLen data.remaining⟩

/-- `ret` is what `sceUsbdBulkTransfer` returns. -/
def performBulkTransfer (ret : Int) (s : BulkState) : BulkState :=
  { s with
    pending := accept ret (.piece (nextPiece s.data)) s
    log := .submit (nextPiece s.data) ret :: s.log }

/-- The transfer's progress, which is updated only if it was successful. -/
def progress (code : Int) (bytes : Int32) (data : TransferCallbackData) : TransferCallbackData :=
  if code = usbRcOk then
    { data with
      returnCode := code
      remaining := data.remaining - bytes.toUInt32
      buffer := data.buffer + bytes.toUInt32 }
  else { data with returnCode := code }

/-- `ret` is what `sceUsbdBulkTransfer` returns if there is another piece. -/
def usbTransferCallback (code : Int) (bytes : Int32) (ret : Int) (s : BulkState) : BulkState :=
  let data := progress code bytes s.data
  let s := { s with data, log := .complete code bytes :: s.log }
  if code = usbRcOk ∧ 0 < data.remaining then
    let s := performBulkTransfer ret s
    if ret ≠ usbRcOk then signalSema { s with data := { s.data with returnCode := ret } } else s
  else signalSema s

def usbCallback (code : Int) (bytes : Int32) (s : BulkState) : BulkState :=
  signalSema { s with haltData := ⟨code, bytes⟩, log := .cleared code :: s.log }

def leave (s : BulkState) : BulkState := { s with thread := .idle, log := .returned s.ret :: s.log }

/-- The part of `usb_bulk_transfer` after the wait. -/
def finish (ret : Int) (s : BulkState) : BulkState :=
  if ret ≠ usbRcOk then { s with thread := .failed, ret } else leave { s with ret }

def await (thread : Thread) (s : BulkState) : BulkState := { s with thread, log := .wait :: s.log }

/-- The call of `usb_bulk_transfer`, up to its wait. -/
def usbBulkTransfer (dev : MassDev) (job : Job) (ret : Int) (s : BulkState) : BulkState :=
  let data := ⟨bulkPipe dev job.direction, job.buffer, 0, job.transferSize⟩
  let s := performBulkTransfer ret { s with job, data, log := [] }
  if ret = usbRcOk then await .waiting s else finish ret s

/-- The call of `usb_bulk_clear_halt`, whose own result is not used. -/
def usbBulkClearHalt (dev : MassDev) (ret : Int) (s : BulkState) : BulkState :=
  let pipe := bulkPipe dev s.job.direction
  let s := { s with
    pending := accept ret (.clearHalt pipe) s
    log := .clearHalt pipe ret :: s.log }
  if ret = usbRcOk then await .clearing s else leave s

/-- The stack calls back. -/
def complete (request : Accepted) (code : Int) (bytes : Int32) (ret : Int) (s : BulkState) : BulkState :=
  let s := { s with pending := s.pending.erase request }
  match request with
  | .piece _ => usbTransferCallback code bytes ret s
  | .clearHalt _ => usbCallback code bytes s

/-- The calls and the returns from `WaitSema`, and what the stack does; `answer` is the result
of a submission that the step makes. -/
inductive Act where
  | call (job : Job) (answer : Int)
  | transferred
  | clearHalt (answer : Int)
  | cleared
  | complete (request : Accepted) (code : Int) (bytes : Int32) (answer : Int)

def BulkState.next (dev : MassDev) (s : BulkState) : Act → BulkState → Prop
  | .call job answer, s' => s.thread = .idle ∧ s' = usbBulkTransfer dev job answer s
  | .transferred, s' => s.thread = .waiting ∧ 0 < s.sema ∧ s' = finish s.data.returnCode (waitSema s)
  | .clearHalt answer, s' => s.thread = .failed ∧ s' = usbBulkClearHalt dev answer s
  | .cleared, s' => s.thread = .clearing ∧ 0 < s.sema ∧ s' = leave (waitSema s)
  | .complete request code bytes answer, s' =>
      request ∈ s.pending ∧ s' = complete request code bytes answer s

/-- The calls of one device, one after the other; its semaphore is created with the count 0. -/
def bulkCalls (dev : MassDev) : System BulkState Act where
  init s := s.thread = .idle ∧ s.sema = 0 ∧ s.pending = [] ∧ s.log = []
  step s a s' := s.next dev a s'

/-- No more bytes are moved than were asked for. -/
def Admissible (_ : BulkState) : Act → Prop
  | .complete (.piece p) _ bytes _ => 0 ≤ bytes.toInt ∧ bytes.toInt ≤ p.len.toNat
  | _ => True

/-! ## What a call does -/

def Event.failed : Event → Prop
  | .submit _ ret => ret ≠ usbRcOk
  | .complete code _ => code ≠ usbRcOk
  | _ => False

def Clean (log : List Event) : Prop := ∀ e ∈ log, ¬ e.failed

/-- The sum of the byte counts. -/
def moved : List Event → Nat
  | [] => 0
  | .complete _ bytes :: earlier => moved earlier + bytes.toInt.toNat
  | _ :: earlier => moved earlier

/-- Every wait so far has been answered by one signal. -/
def Answered (log : List Event) : Prop := log.count .signal = log.count .wait

/-- An event of the job, after the earlier ones. -/
def Regular (dev : MassDev) (job : Job) : Event → List Event → Prop
  | .submit p _, earlier => p.pipe = bulkPipe dev job.direction ∧
      p.len.toNat = min 4096 (job.transferSize.toNat - moved earlier) ∧
      p.buffer = job.buffer + .ofNat (moved earlier) ∧ Clean earlier
  | .complete _ bytes, earlier =>
      moved earlier + bytes.toInt.toNat ≤ job.transferSize.toNat ∧ Clean earlier
  | .signal, earlier => earlier.count .signal + 1 = earlier.count .wait
  | .wait, earlier => Answered earlier
  | .woken, earlier => Answered earlier
  | .returned r, earlier => Answered earlier ∧
      (r = usbRcOk → moved earlier = job.transferSize.toNat ∧ Clean earlier)
  | _, _ => True

def AllRegular (dev : MassDev) (job : Job) (log : List Event) : Prop :=
  ∀ e earlier, e :: earlier <:+ log → Regular dev job e earlier

/-- A request is under way, or its signal is there, exactly while the thread waits. -/
def InStep (s : BulkState) : Prop :=
  s.sema + s.pending.length = if s.thread = .waiting ∨ s.thread = .clearing then 1 else 0

def completions : List Event → Nat
  | [] => 0
  | .complete _ _ :: earlier => completions earlier + 1
  | _ :: earlier => completions earlier

/-- The completions that moved nothing. -/
def empties : List Event → Nat
  | [] => 0
  | .complete _ bytes :: earlier => empties earlier + if bytes.toInt ≤ 0 then 1 else 0
  | _ :: earlier => empties earlier

/-! ## The log -/

variable {dev : MassDev} {job : Job} {log : List Event} {e : Event}

theorem allRegular_nil : AllRegular dev job [] := by
  intro e earlier h
  cases List.suffix_nil.mp h

theorem AllRegular.cons (h : AllRegular dev job log) (he : Regular dev job e log) :
    AllRegular dev job (e :: log) := by
  intro e' earlier hsuffix
  rcases List.suffix_cons_iff.mp hsuffix with heq | hsuffix
  · cases heq
    exact he
  · exact h e' earlier hsuffix

theorem clean_nil : Clean [] := List.forall_mem_nil _

theorem Clean.cons (h : Clean log) (he : ¬ e.failed) : Clean (e :: log) :=
  List.forall_mem_cons.mpr ⟨he, h⟩

theorem completions_le_moved (log : List Event) : completions log ≤ moved log + empties log := by
  induction log with
  | nil => exact Nat.le_refl 0
  | cons e earlier ih =>
      cases e with
      | complete code bytes =>
          simp only [completions, moved, empties]
          split <;> omega
      | _ => exact ih

/-- The pieces come to an end unless ever more of them move nothing. -/
theorem AllRegular.completions_le (h : AllRegular dev job log) :
    completions log ≤ job.transferSize.toNat + 1 + empties log := by
  induction log with
  | nil => exact Nat.zero_le _
  | cons e earlier ih =>
      have hbefore := ih fun e' earlier' hsuffix => h e' earlier' (hsuffix.trans (List.suffix_cons e earlier))
      cases e with
      | complete code bytes =>
          obtain ⟨hmoved, -⟩ := h _ earlier List.suffix_rfl
          have hle := completions_le_moved earlier
          simp only [completions, empties]
          omega
      | _ => exact hbefore

/-! ## Progress -/

/-- The transfer goes well, and the next byte to move is the one after those moved so far. -/
structure OnCourse (dev : MassDev) (job : Job) (data : TransferCallbackData) (log : List Event) : Prop where
  pipe : data.pipe = bulkPipe dev job.direction
  returnCode : data.returnCode = usbRcOk
  clean : Clean log
  remaining : moved log + data.remaining.toNat = job.transferSize.toNat
  buffer : data.buffer = job.buffer + .ofNat (moved log)

theorem transferLen_toNat (remaining : UInt32) :
    (transferLen remaining).toNat = min 4096 remaining.toNat := by
  have hsize : usbBlockSize.toNat = 4096 := rfl
  unfold transferLen
  split
  · rename_i hlt
    rw [UInt32.lt_iff_toNat_lt] at hlt
    omega
  · rename_i hle
    rw [UInt32.lt_iff_toNat_lt] at hle
    omega

theorem toUInt32_of_nonneg {bytes : Int32} (h : 0 ≤ bytes.toInt) :
    bytes.toUInt32 = .ofNat bytes.toInt.toNat := by
  have hcond : bytes.toInt = if 2 * bytes.toUInt32.toNat < 2 ^ 32 then (bytes.toUInt32.toNat : Int) else
      bytes.toUInt32.toNat - 2 ^ 32 := BitVec.toInt_eq_toNat_cond bytes.toBitVec
  have hlt := bytes.toUInt32.toNat_lt
  have hnat : bytes.toInt.toNat = bytes.toUInt32.toNat := by
    split at hcond <;> omega
  rw [hnat, UInt32.ofNat_toNat]

variable {data : TransferCallbackData} {code ret : Int} {bytes : Int32}

theorem OnCourse.submit (h : OnCourse dev job data log) :
    Regular dev job (.submit (nextPiece data) ret) log := by
  have hremaining := h.remaining
  refine ⟨h.pipe, ?_, h.buffer, h.clean⟩
  rw [nextPiece, transferLen_toNat]
  omega

theorem OnCourse.complete (h : OnCourse dev job data log) (hhi : bytes.toInt ≤ (nextPiece data).len.toNat) :
    Regular dev job (.complete code bytes) log := by
  have hlen : (nextPiece data).len.toNat = min 4096 data.remaining.toNat := transferLen_toNat data.remaining
  have hremaining := h.remaining
  refine ⟨?_, h.clean⟩
  omega

/-- An event of no piece. -/
theorem OnCourse.cons (h : OnCourse dev job data log) (he : ¬ e.failed) (hmoved : moved (e :: log) = moved log) :
    OnCourse dev job data (e :: log) :=
  ⟨h.pipe, h.returnCode, h.clean.cons he, by rw [hmoved, h.remaining], by rw [hmoved, h.buffer]⟩

theorem OnCourse.progress (h : OnCourse dev job data log) (hcode : code = usbRcOk)
    (hlo : 0 ≤ bytes.toInt) (hhi : bytes.toInt ≤ (nextPiece data).len.toNat) :
    OnCourse dev job (progress code bytes data) (.complete code bytes :: log) := by
  have hlen : (nextPiece data).len.toNat = min 4096 data.remaining.toNat := transferLen_toNat data.remaining
  have hsum := h.remaining
  have hbytes := toUInt32_of_nonneg hlo
  have hlt := data.remaining.toNat_lt
  have hnat : bytes.toUInt32.toNat = bytes.toInt.toNat := by
    rw [hbytes, UInt32.toNat_ofNat_of_lt']
    show bytes.toInt.toNat < 2 ^ 32
    omega
  rw [Chunks.progress, if_pos hcode]
  refine ⟨h.pipe, hcode, h.clean.cons fun hfailed => hfailed hcode, ?_, ?_⟩
  · have hsub : (data.remaining - bytes.toUInt32).toNat = data.remaining.toNat - bytes.toUInt32.toNat :=
      UInt32.toNat_sub_of_le _ _ (by rw [UInt32.le_iff_toNat_le]; omega)
    show moved log + bytes.toInt.toNat + (data.remaining - bytes.toUInt32).toNat = _
    omega
  · show data.buffer + bytes.toUInt32 = job.buffer + .ofNat (moved log + bytes.toInt.toNat)
    rw [h.buffer, hbytes, UInt32.ofNat_add, UInt32.add_assoc]

/-! ## Steps -/

/-- Where a call stands. -/
inductive Stage (dev : MassDev) (s : BulkState) : Prop where
  | idle (thread : s.thread = .idle) (sema : s.sema = 0) (pending : s.pending = [])
  | underWay (thread : s.thread = .waiting) (sema : s.sema = 0)
      (pending : s.pending = [.piece (nextPiece s.data)]) (course : OnCourse dev s.job s.data s.log)
  | ended (thread : s.thread = .waiting) (sema : s.sema = 1) (pending : s.pending = [])
      (whole : s.data.returnCode = usbRcOk → OnCourse dev s.job s.data s.log ∧ s.data.remaining = 0)
  | failed (thread : s.thread = .failed) (sema : s.sema = 0) (pending : s.pending = [])
      (ret : s.ret ≠ usbRcOk)
  | clearing (thread : s.thread = .clearing) (sema : s.sema = 0) (pipe : Int)
      (pending : s.pending = [.clearHalt pipe]) (ret : s.ret ≠ usbRcOk)
  | cleared (thread : s.thread = .clearing) (sema : s.sema = 1) (pending : s.pending = [])
      (ret : s.ret ≠ usbRcOk)

/-- Every signal but the last one has been waited for, and every wait but the last one is
over. -/
def Counted (s : BulkState) : Prop :=
  s.log.count .signal = s.log.count .woken + s.sema ∧
    s.log.count .wait = s.log.count .woken + s.sema + s.pending.length

structure Sound (dev : MassDev) (s : BulkState) : Prop where
  stage : Stage dev s
  counted : Counted s
  regular : AllRegular dev s.job s.log

variable {s : BulkState}

theorem Stage.inStep (h : Stage dev s) : InStep s := by
  unfold InStep
  cases h with
  | idle thread sema pending => simp [thread, sema, pending]
  | underWay thread sema pending course => simp [thread, sema, pending]
  | ended thread sema pending whole => simp [thread, sema, pending]
  | failed thread sema pending ret => simp [thread, sema, pending]
  | clearing thread sema pipe pending ret => simp [thread, sema, pending]
  | cleared thread sema pending ret => simp [thread, sema, pending]

/-- Nothing is under way and no signal is left. -/
theorem Counted.answered (h : Counted s) (hpending : s.pending = []) : Answered s.log := by
  obtain ⟨hsignal, hwait⟩ := h
  rw [hpending, List.length_nil] at hwait
  exact hsignal.trans hwait.symm

theorem Sound.leave (stage : s.sema = 0 ∧ s.pending = []) (counted : Counted s)
    (regular : AllRegular dev s.job s.log)
    (hret : s.ret = usbRcOk → moved s.log = s.job.transferSize.toNat ∧ Clean s.log) :
    Sound dev (leave s) where
  stage := .idle rfl stage.1 stage.2
  counted := by simpa [Counted, Chunks.leave] using counted
  regular := regular.cons ⟨counted.answered stage.2, hret⟩

theorem Sound.finish (stage : s.sema = 0 ∧ s.pending = []) (counted : Counted s)
    (regular : AllRegular dev s.job s.log)
    (hret : ret = usbRcOk → moved s.log = s.job.transferSize.toNat ∧ Clean s.log) :
    Sound dev (finish ret s) := by
  unfold Chunks.finish
  split
  · rename_i hfailed
    exact ⟨.failed rfl stage.1 stage.2 hfailed, counted, regular⟩
  · exact .leave stage counted regular hret

/-- A signal that one wait is due. -/
theorem Sound.signal (stage : s.sema = 0 ∧ s.pending = [])
    (counted : s.log.count .signal = s.log.count .woken ∧ s.log.count .wait = s.log.count .woken + 1)
    (regular : AllRegular dev s.job s.log) (hstage : Stage dev (signalSema s)) :
    Sound dev (signalSema s) where
  stage := hstage
  counted := by
    simp [Counted, signalSema, stage, counted]
  regular := by
    refine regular.cons ?_
    show s.log.count .signal + 1 = s.log.count .wait
    rw [counted.1, counted.2]

theorem onCourse_start (dev : MassDev) (job : Job) :
    OnCourse dev job ⟨bulkPipe dev job.direction, job.buffer, 0, job.transferSize⟩ [] :=
  ⟨rfl, rfl, clean_nil, Nat.zero_add _, (UInt32.add_zero _).symm⟩

theorem Stage.of_idle (h : Stage dev s) (hidle : s.thread = .idle) : s.sema = 0 ∧ s.pending = [] := by
  cases h with
  | idle thread sema pending => exact ⟨sema, pending⟩
  | underWay thread | ended thread | failed thread | clearing thread | cleared thread =>
      rw [hidle] at thread
      cases thread

theorem Stage.of_failed (h : Stage dev s) (hfailed : s.thread = .failed) :
    s.sema = 0 ∧ s.pending = [] ∧ s.ret ≠ usbRcOk := by
  cases h with
  | failed thread sema pending ret => exact ⟨sema, pending, ret⟩
  | underWay thread | ended thread | idle thread | clearing thread | cleared thread =>
      rw [hfailed] at thread
      cases thread

/-- A wait that ends. -/
theorem Stage.of_waiting (h : Stage dev s) (hwaiting : s.thread = .waiting) (hsema : 0 < s.sema) :
    s.sema = 1 ∧ s.pending = [] ∧
      (s.data.returnCode = usbRcOk → OnCourse dev s.job s.data s.log ∧ s.data.remaining = 0) := by
  cases h with
  | ended thread sema pending whole => exact ⟨sema, pending, whole⟩
  | underWay thread sema => exact absurd sema hsema.ne'
  | idle thread | failed thread | clearing thread | cleared thread =>
      rw [hwaiting] at thread
      cases thread

theorem Stage.of_clearing (h : Stage dev s) (hclearing : s.thread = .clearing) (hsema : 0 < s.sema) :
    s.sema = 1 ∧ s.pending = [] ∧ s.ret ≠ usbRcOk := by
  cases h with
  | cleared thread sema pending ret => exact ⟨sema, pending, ret⟩
  | clearing thread sema => exact absurd sema hsema.ne'
  | idle thread | failed thread | underWay thread | ended thread =>
      rw [hclearing] at thread
      cases thread

/-- Only the request that is under way can be completed. -/
theorem Stage.of_pending {request : Accepted} (h : Stage dev s) (hmem : request ∈ s.pending) :
    s.sema = 0 ∧ s.pending = [request] ∧
      ((s.thread = .waiting ∧ request = .piece (nextPiece s.data) ∧ OnCourse dev s.job s.data s.log) ∨
        (s.thread = .clearing ∧ (∃ pipe, request = .clearHalt pipe) ∧ s.ret ≠ usbRcOk)) := by
  cases h with
  | idle thread sema pending | failed thread sema pending ret | ended thread sema pending whole
    | cleared thread sema pending ret =>
      rw [pending] at hmem
      cases hmem
  | underWay thread sema pending course =>
      rw [pending, List.mem_singleton] at hmem
      subst hmem
      exact ⟨sema, pending, .inl ⟨thread, rfl, course⟩⟩
  | clearing thread sema pipe pending ret =>
      rw [pending, List.mem_singleton] at hmem
      subst hmem
      exact ⟨sema, pending, .inr ⟨thread, ⟨pipe, rfl⟩, ret⟩⟩

theorem Sound.usbBulkTransfer (h : Sound dev s) (hidle : s.thread = .idle) (job : Job) (answer : Int) :
    Sound dev (usbBulkTransfer dev job answer s) := by
  obtain ⟨hsema, hpending⟩ := h.stage.of_idle hidle
  have hcourse := onCourse_start dev job
  have hregular : AllRegular dev job [.submit _ answer] := allRegular_nil.cons hcourse.submit
  unfold Chunks.usbBulkTransfer
  dsimp only
  split
  · rename_i hok
    refine ⟨.underWay rfl hsema ?_ ?_, ?_, hregular.cons rfl⟩
    · simp [await, performBulkTransfer, accept, hok, hpending]
    · exact (hcourse.cons (by simpa [Event.failed] using hok) rfl).cons id rfl
    · simp [Counted, await, performBulkTransfer, accept, hok, hpending, hsema]
  · rename_i hrefused
    refine .finish ⟨hsema, ?_⟩ ?_ hregular fun hok => absurd hok hrefused
    · simp [performBulkTransfer, accept, hrefused, hpending]
    · simp [Counted, performBulkTransfer, accept, hrefused, hpending, hsema]

theorem Sound.usbBulkClearHalt (h : Sound dev s) (hfailed : s.thread = .failed) (answer : Int) :
    Sound dev (usbBulkClearHalt dev answer s) := by
  obtain ⟨hsema, hpending, hret⟩ := h.stage.of_failed hfailed
  have hanswered := h.counted.answered hpending
  obtain ⟨hsignal, hwait⟩ := h.counted
  have hregular : AllRegular dev s.job (.clearHalt (bulkPipe dev s.job.direction) answer :: s.log) :=
    h.regular.cons trivial
  unfold Chunks.usbBulkClearHalt
  dsimp only
  split
  · rename_i hok
    refine ⟨.clearing rfl hsema (bulkPipe dev s.job.direction) ?_ hret, ?_, hregular.cons ?_⟩
    · simp [await, accept, hok, hpending]
    · simp [Counted, await, accept, hok, hpending, hsema, hsignal, hwait]
    · simpa [Regular, Answered] using hanswered
  · rename_i hrefused
    refine .leave ⟨hsema, ?_⟩ ?_ hregular fun hok => absurd hok hret
    · simp [accept, hrefused, hpending]
    · simp [Counted, accept, hrefused, hpending, hsema, hsignal, hwait]

/-- `WaitSema` takes the only signal. -/
theorem Counted.waitSema (h : Counted s) (hsema : s.sema = 1) : Counted (waitSema s) := by
  obtain ⟨hsignal, hwait⟩ := h
  simp [Counted, Chunks.waitSema, hsema, hsignal, hwait]

theorem AllRegular.woken (h : AllRegular dev s.job s.log) (hcounted : Counted s) (hpending : s.pending = []) :
    AllRegular dev s.job (waitSema s).log := h.cons (hcounted.answered hpending)

theorem Sound.transferred (h : Sound dev s) (hwaiting : s.thread = .waiting) (hsema : 0 < s.sema) :
    Sound dev (Chunks.finish s.data.returnCode (waitSema s)) := by
  obtain ⟨hone, hpending, hwhole⟩ := h.stage.of_waiting hwaiting hsema
  refine .finish ⟨?_, hpending⟩ (h.counted.waitSema hone) (h.regular.woken h.counted hpending) fun hok => ?_
  · show s.sema - 1 = 0
    rw [hone]
  · obtain ⟨hcourse, hremaining⟩ := hwhole hok
    refine ⟨?_, hcourse.clean.cons id⟩
    have hsum := hcourse.remaining
    rw [hremaining] at hsum
    exact hsum

theorem Sound.cleared (h : Sound dev s) (hclearing : s.thread = .clearing) (hsema : 0 < s.sema) :
    Sound dev (Chunks.leave (waitSema s)) := by
  obtain ⟨hone, hpending, hret⟩ := h.stage.of_clearing hclearing hsema
  refine .leave ⟨?_, hpending⟩ (h.counted.waitSema hone) (h.regular.woken h.counted hpending) fun hok =>
    absurd hok hret
  show s.sema - 1 = 0
  rw [hone]

theorem Sound.usbTransferCallback (stage : s.sema = 0 ∧ s.pending = []) (hwaiting : s.thread = .waiting)
    (counted : s.log.count .signal = s.log.count .woken ∧ s.log.count .wait = s.log.count .woken + 1)
    (regular : AllRegular dev s.job s.log) (hcourse : OnCourse dev s.job s.data s.log)
    (hlo : 0 ≤ bytes.toInt) (hhi : bytes.toInt ≤ (nextPiece s.data).len.toNat) (answer : Int) :
    Sound dev (usbTransferCallback code bytes answer s) := by
  have hmore (hok : code = usbRcOk) := hcourse.progress hok hlo hhi
  have hregular : AllRegular dev s.job (.complete code bytes :: s.log) :=
    regular.cons (hcourse.complete hhi)
  obtain ⟨hsema, hpending⟩ := stage
  obtain ⟨hsignal, hwait⟩ := counted
  unfold Chunks.usbTransferCallback
  dsimp only
  split
  · rename_i hcontinue
    have hsubmitted : AllRegular dev s.job
        (.submit (nextPiece (progress code bytes s.data)) answer :: .complete code bytes :: s.log) :=
      hregular.cons (hmore hcontinue.1).submit
    split
    · -- the stack takes no further piece
      rename_i hrefused
      refine .signal ⟨hsema, ?_⟩ ?_ hsubmitted (.ended hwaiting ?_ ?_ fun hok => absurd hok hrefused)
      · simp [performBulkTransfer, accept, hrefused, hpending]
      · simp [performBulkTransfer, hsignal, hwait]
      · simp [signalSema, performBulkTransfer, hsema]
      · simp [signalSema, performBulkTransfer, accept, hrefused, hpending]
    · rename_i hok
      rw [not_not] at hok
      refine ⟨.underWay hwaiting hsema ?_ ?_, ?_, hsubmitted⟩
      · simp [performBulkTransfer, accept, hok, hpending]
      · exact (hmore hcontinue.1).cons (by simpa [Event.failed] using hok) rfl
      · simp [Counted, performBulkTransfer, accept, hok, hpending, hsema, hsignal, hwait]
  · rename_i hlast
    refine .signal ⟨hsema, hpending⟩ ?_ hregular (.ended hwaiting ?_ hpending fun hok => ?_)
    · simp [hsignal, hwait]
    · simp [signalSema, hsema]
    · have hcode : code = usbRcOk := by
        simpa [signalSema, progress, apply_ite TransferCallbackData.returnCode] using hok
      refine ⟨(hmore hcode).cons id rfl, ?_⟩
      have hzero := fun hpos => hlast ⟨hcode, hpos⟩
      rw [UInt32.lt_iff_toNat_lt] at hzero
      exact UInt32.toNat_inj.mp (Nat.le_zero.mp (Nat.le_of_not_lt hzero))

theorem Sound.usbCallback (stage : s.sema = 0 ∧ s.pending = []) (hclearing : s.thread = .clearing)
    (counted : s.log.count .signal = s.log.count .woken ∧ s.log.count .wait = s.log.count .woken + 1)
    (regular : AllRegular dev s.job s.log) (hret : s.ret ≠ usbRcOk) :
    Sound dev (usbCallback code bytes s) := by
  obtain ⟨hsema, hpending⟩ := stage
  refine .signal ⟨hsema, hpending⟩ ?_ (regular.cons trivial) (.cleared hclearing ?_ hpending hret)
  · simpa using counted
  · simp [signalSema, hsema]

theorem Sound.complete {request : Accepted} {answer : Int} (h : Sound dev s) (hmem : request ∈ s.pending)
    (hadm : Admissible s (.complete request code bytes answer)) :
    Sound dev (complete request code bytes answer s) := by
  obtain ⟨hsema, hpending, hwaits⟩ := h.stage.of_pending hmem
  have herased : s.pending.erase request = [] := by simp [hpending]
  obtain ⟨hsignal, hwait⟩ := h.counted
  rw [hpending, hsema] at hwait
  rw [hsema] at hsignal
  rcases hwaits with ⟨hwaiting, rfl, hcourse⟩ | ⟨hclearing, ⟨pipe, rfl⟩, hret⟩
  · exact .usbTransferCallback (s := { s with pending := s.pending.erase _ }) ⟨hsema, herased⟩ hwaiting
      ⟨hsignal, hwait⟩ h.regular hcourse hadm.1 hadm.2 answer
  · exact .usbCallback (s := { s with pending := s.pending.erase _ }) ⟨hsema, herased⟩ hclearing
      ⟨hsignal, hwait⟩ h.regular hret

/-! ## Runs -/

theorem sound_invariant (dev : MassDev) : (bulkCalls dev).Invariant Admissible (Sound dev) where
  init := by
    rintro s ⟨hthread, hsema, hpending, hlog⟩
    refine ⟨.idle hthread hsema hpending, ?_, ?_⟩
    · simp [Counted, hsema, hpending, hlog]
    · rw [hlog]
      exact allRegular_nil
  step := by
    intro s a s' _ h hadm hstep
    cases a with
    | call job answer =>
        obtain ⟨hidle, rfl⟩ := hstep
        exact h.usbBulkTransfer hidle job answer
    | transferred =>
        obtain ⟨hwaiting, hsema, rfl⟩ := hstep
        exact h.transferred hwaiting hsema
    | clearHalt answer =>
        obtain ⟨hfailed, rfl⟩ := hstep
        exact h.usbBulkClearHalt hfailed answer
    | cleared =>
        obtain ⟨hclearing, hsema, rfl⟩ := hstep
        exact h.cleared hclearing hsema
    | complete request code bytes answer =>
        obtain ⟨hmem, rfl⟩ := hstep
        exact h.complete hmem hadm

/-- In every run of calls, the pieces of a call follow each other from its buffer's start, every
wait gets one signal and no other, and a call that returns `USB_RC_OK` has moved what it was asked
to. -/
theorem bulk_transfer_in_pieces (dev : MassDev) {s : BulkState}
    (h : (bulkCalls dev).Reachable Admissible s) :
    AllRegular dev s.job s.log ∧ InStep s ∧
      completions s.log ≤ s.job.transferSize.toNat + 1 + empties s.log :=
  have hsound := (sound_invariant dev).holds h
  ⟨hsound.regular, hsound.stage.inStep, hsound.regular.completions_le⟩

/-- Two pieces, and the calls of the run that leads through them. -/
theorem bulk_transfer_in_pieces_two :
    let dev : MassDev := ⟨1, 2, 3, 1, 1, true, true, 0, 0, 1⟩
    let job : Job := ⟨usbBlkEpIn, 0x1000, 5000⟩
    let s₀ : BulkState := ⟨.idle, job, ⟨0, 0, 0, 0⟩, ⟨0, 0⟩, 0, 0, [], []⟩
    let s₁ := usbBulkTransfer dev job 0 s₀
    let s₂ := complete (.piece ⟨2, 0x1000, 4096⟩) 0 4096 0 s₁
    let s₃ := complete (.piece ⟨2, 0x2000, 904⟩) 0 904 0 s₂
    let s₄ := finish s₃.data.returnCode (waitSema s₃)
    s₄.log.head? = some (.returned usbRcOk) ∧ AllRegular dev s₄.job s₄.log ∧ InStep s₄ ∧
      completions s₄.log ≤ s₄.job.transferSize.toNat + 1 + empties s₄.log := by
  intro dev job s₀ s₁ s₂ s₃ s₄
  have h₀ : (bulkCalls dev).Reachable Admissible s₀ := .init ⟨rfl, rfl, rfl, rfl⟩
  have h₁ : (bulkCalls dev).Reachable Admissible s₁ := h₀.next (a := .call job 0) trivial ⟨rfl, rfl⟩
  have h₂ : (bulkCalls dev).Reachable Admissible s₂ :=
    h₁.next (a := .complete (.piece ⟨2, 0x1000, 4096⟩) 0 4096 0) ⟨by decide, by decide⟩ ⟨by decide, rfl⟩
  have h₃ : (bulkCalls dev).Reachable Admissible s₃ :=
    h₂.next (a := .complete (.piece ⟨2, 0x2000, 904⟩) 0 904 0) ⟨by decide, by decide⟩ ⟨by decide, rfl⟩
  have h₄ : (bulkCalls dev).Reachable Admissible s₄ :=
    h₃.next (a := .transferred) trivial ⟨by decide, by decide, rfl⟩
  exact ⟨by decide, bulk_transfer_in_pieces dev h₄⟩

/-! ## The loop

`Usb.bulkTransfers` has the callbacks as rounds of a loop. It does what a call does here.
-/

/-- What the stack made of each submission. -/
def answers : List Event → List Completion
  | [] => []
  | .submit _ ret :: earlier => if ret = usbRcOk then answers earlier else answers earlier ++ [⟨ret, 0, 0, []⟩]
  | .complete code bytes :: earlier => answers earlier ++ [⟨usbRcOk, code, bytes, []⟩]
  | _ :: earlier => answers earlier

/-- The loop has got as far as the call. -/
def Follows (job : Job) (log : List Event) (remaining : UInt32) : Prop :=
  ∀ out rounds rest before, ∃ after,
    (bulkTransfers (rounds + (answers log).length) out job.transferSize).exec serve ⟨answers log ++ rest, before⟩ =
      (bulkTransfers rounds out remaining).exec serve ⟨rest, after⟩

/-- The loop has come to its end with `r`. -/
def Yields (job : Job) (log : List Event) (r : Int) : Prop :=
  ∀ out rounds rest before,
    ((bulkTransfers (rounds + (answers log).length) out job.transferSize).exec serve
      ⟨answers log ++ rest, before⟩).1 = some r

theorem bulkTransfers_round (rounds : Nat) (out : Bool) (remaining : UInt32) (c : Completion)
    (rest : List Completion) (before : List (Request × Completion)) :
    (bulkTransfers (rounds + 1) out remaining).exec serve ⟨c :: rest, before⟩ =
      let after := before ++ [(.data out (transferLen remaining), c)]
      if c.submit ≠ usbRcOk then (some c.submit, ⟨rest, after⟩)
      else if c.code ≠ usbRcOk then (some c.code, ⟨rest, after⟩)
      else if 0 < remaining - c.bytes.toUInt32 then
        (bulkTransfers rounds out (remaining - c.bytes.toUInt32)).exec serve ⟨rest, after⟩
      else (some usbRcOk, ⟨rest, after⟩) := by
  unfold bulkTransfers
  rw [Dialogue.iterate]
  refine (Dialogue.exec_bind
    (a := if c.submit ≠ usbRcOk then .inr c.submit else if c.code ≠ usbRcOk then .inr c.code
      else if 0 < remaining - c.bytes.toUInt32 then .inl (remaining - c.bytes.toUInt32) else .inr usbRcOk)
    (?_ : _ = (_, ⟨rest, before ++ [(.data out (transferLen remaining), c)]⟩))).trans ?_
  · show Dialogue.exec serve (if c.submit ≠ usbRcOk then _ else _) _ = _
    split
    · rfl
    split
    · rfl
    dsimp only
    split <;> rfl
  · by_cases hsubmit : c.submit ≠ usbRcOk
    · simp only [if_pos hsubmit]
      rfl
    · by_cases hcode : c.code ≠ usbRcOk
      · simp only [if_neg hsubmit, if_pos hcode]
        rfl
      · simp only [if_neg hsubmit, if_neg hcode]
        by_cases hmore : 0 < remaining - c.bytes.toUInt32
        · simp only [if_pos hmore]
        · simp only [if_neg hmore]
          rfl

variable {remaining : UInt32}

theorem follows_start (job : Job) : Follows job [] job.transferSize := fun _ _ _ before => ⟨before, rfl⟩

/-- One more answer. -/
theorem Follows.round (h : Follows job log remaining) (c : Completion) (out : Bool) (rounds : Nat)
    (rest : List Completion) (before : List (Request × Completion)) : ∃ after,
    (bulkTransfers (rounds + (answers log ++ [c]).length) out job.transferSize).exec serve
      ⟨(answers log ++ [c]) ++ rest, before⟩ =
      (bulkTransfers (rounds + 1) out remaining).exec serve ⟨c :: rest, after⟩ := by
  obtain ⟨after, hafter⟩ := h out (rounds + 1) (c :: rest) before
  refine ⟨after, ?_⟩
  rw [List.length_append, List.append_assoc]
  rwa [Nat.add_assoc, Nat.add_comm 1] at hafter

theorem Follows.more (h : Follows job log remaining) (hmore : 0 < remaining - bytes.toUInt32) :
    Follows job (.complete usbRcOk bytes :: log) (remaining - bytes.toUInt32) := by
  intro out rounds rest before
  obtain ⟨after, hafter⟩ := h.round ⟨usbRcOk, usbRcOk, bytes, []⟩ out rounds rest before
  rw [bulkTransfers_round] at hafter
  simp only [ne_eq, not_true_eq_false, if_false, if_pos hmore] at hafter
  exact ⟨_, hafter⟩

theorem Follows.last (h : Follows job log remaining) (hlast : ¬ 0 < remaining - bytes.toUInt32) :
    Yields job (.complete usbRcOk bytes :: log) usbRcOk := by
  intro out rounds rest before
  obtain ⟨after, hafter⟩ := h.round ⟨usbRcOk, usbRcOk, bytes, []⟩ out rounds rest before
  rw [bulkTransfers_round] at hafter
  simp only [ne_eq, not_true_eq_false, if_false, if_neg hlast] at hafter
  exact congrArg Prod.fst hafter

theorem Follows.error (h : Follows job log remaining) (hcode : code ≠ usbRcOk) :
    Yields job (.complete code bytes :: log) code := by
  intro out rounds rest before
  obtain ⟨after, hafter⟩ := h.round ⟨usbRcOk, code, bytes, []⟩ out rounds rest before
  rw [bulkTransfers_round] at hafter
  simp only [ne_eq, not_true_eq_false, if_false, if_pos hcode] at hafter
  exact congrArg Prod.fst hafter

theorem Follows.refused {p : Piece} (h : Follows job log remaining) (hret : ret ≠ usbRcOk) :
    Yields job (.submit p ret :: log) ret := by
  intro out rounds rest before
  obtain ⟨after, hafter⟩ := h.round ⟨ret, 0, 0, []⟩ out rounds rest before
  rw [bulkTransfers_round] at hafter
  simp only [if_pos hret] at hafter
  have hanswers : answers (.submit p ret :: log) = answers log ++ [⟨ret, 0, 0, []⟩] := if_neg hret
  rw [hanswers]
  exact congrArg Prod.fst hafter

theorem Follows.of_answers {log' : List Event} (h : Follows job log remaining) (heq : answers log' = answers log) :
    Follows job log' remaining := by
  unfold Follows
  rw [heq]
  exact h

theorem Yields.of_answers {log' : List Event} {r : Int} (h : Yields job log r) (heq : answers log' = answers log) :
    Yields job log' r := by
  unfold Yields
  rw [heq]
  exact h

/-- How far the loop is. -/
def Loops (s : BulkState) : Prop :=
  match s.thread with
  | .idle => ∀ r earlier, s.log = .returned r :: earlier → Yields s.job s.log r
  | .waiting => if s.sema = 0 then Follows s.job s.log s.data.remaining else Yields s.job s.log s.data.returnCode
  | _ => Yields s.job s.log s.ret

theorem Loops.leave (h : Yields s.job s.log s.ret) : Loops (leave s) := by
  intro r earlier heq
  cases heq
  exact h.of_answers rfl

theorem Loops.finish (h : Yields s.job s.log ret) : Loops (finish ret s) := by
  unfold Chunks.finish
  split
  · exact h
  · exact .leave h

theorem Loops.usbBulkTransfer (hsema : s.sema = 0) (job : Job) (answer : Int) :
    Loops (usbBulkTransfer dev job answer s) := by
  have hstart := follows_start job
  unfold Chunks.usbBulkTransfer
  dsimp only
  split
  · rename_i hok
    simp only [Loops, await, performBulkTransfer, hsema, if_true]
    exact hstart.of_answers (if_pos hok)
  · rename_i hrefused
    exact .finish (hstart.refused hrefused)

theorem Loops.usbTransferCallback (hsema : s.sema = 0) (hwaiting : s.thread = .waiting)
    (h : Follows s.job s.log s.data.remaining) (answer : Int) : Loops (usbTransferCallback code bytes answer s) := by
  unfold Chunks.usbTransferCallback
  dsimp only
  split
  · rename_i hcontinue
    obtain ⟨rfl, hmore⟩ := hcontinue
    simp only [progress, if_true] at hmore
    have hnext := h.more hmore
    split
    · rename_i hrefused
      simp only [Loops, signalSema, performBulkTransfer, hwaiting, hsema]
      exact (hnext.refused (p := nextPiece (progress usbRcOk bytes s.data)) hrefused).of_answers rfl
    · rename_i hok
      simp only [Loops, performBulkTransfer, hwaiting, hsema, if_true, progress]
      exact hnext.of_answers (if_pos (not_not.mp hok))
  · rename_i hlast
    simp only [Loops, signalSema, hwaiting, hsema]
    by_cases hcode : code = usbRcOk
    · subst hcode
      have hnone : ¬ 0 < s.data.remaining - bytes.toUInt32 := fun hmore =>
        hlast ⟨rfl, by simpa only [progress, if_true] using hmore⟩
      simp only [progress, if_true]
      exact (h.last hnone).of_answers rfl
    · simp only [progress, if_neg hcode]
      exact (h.error hcode).of_answers rfl

theorem Loops.complete {request : Accepted} {answer : Int} (h : Loops s) (hsound : Sound dev s)
    (hmem : request ∈ s.pending) : Loops (complete request code bytes answer s) := by
  obtain ⟨hsema, -, hwaits⟩ := hsound.stage.of_pending hmem
  rcases hwaits with ⟨hwaiting, rfl, -⟩ | ⟨hclearing, ⟨pipe, rfl⟩, -⟩
  · simp only [Loops, hwaiting, hsema, if_true] at h
    exact .usbTransferCallback (s := { s with pending := s.pending.erase _ }) hsema hwaiting h answer
  · simp only [Loops, hclearing] at h
    simp only [Loops, Chunks.complete, usbCallback, signalSema, hclearing]
    exact h.of_answers rfl

theorem loops_invariant (dev : MassDev) : (bulkCalls dev).Invariant Admissible Loops where
  init := by
    rintro s ⟨hthread, -, -, hlog⟩
    simp [Loops, hthread, hlog]
  step := by
    intro s a s' hreach h _ hstep
    have hsound := (sound_invariant dev).holds hreach
    cases a with
    | call job answer =>
        obtain ⟨hidle, rfl⟩ := hstep
        exact .usbBulkTransfer (hsound.stage.of_idle hidle).1 job answer
    | transferred =>
        obtain ⟨hwaiting, hsema, rfl⟩ := hstep
        simp only [Loops, hwaiting, if_neg hsema.ne'] at h
        exact .finish (s := waitSema s) (h.of_answers rfl)
    | clearHalt answer =>
        obtain ⟨hfailed, rfl⟩ := hstep
        simp only [Loops, hfailed] at h
        unfold usbBulkClearHalt
        dsimp only
        split
        · exact h.of_answers rfl
        · exact .leave (h.of_answers rfl)
    | cleared =>
        obtain ⟨hclearing, hsema, rfl⟩ := hstep
        simp only [Loops, hclearing] at h
        exact .leave (s := waitSema s) (h.of_answers rfl)
    | complete request code bytes answer =>
        obtain ⟨hmem, rfl⟩ := hstep
        exact h.complete hsound hmem

/-- What a call returns is what the loop gives for the same answers of the stack. -/
theorem bulk_transfer_as_loop (dev : MassDev) {r : Int} {earlier : List Event}
    (h : (bulkCalls dev).Reachable Admissible s) (hidle : s.thread = .idle) (hlog : s.log = .returned r :: earlier)
    (out : Bool) : ∃ rounds bus,
      (bulkTransfers rounds out s.job.transferSize).exec serve ⟨answers s.log, []⟩ = (some r, bus) := by
  have hloops := (loops_invariant dev).holds h
  simp only [Loops, hidle] at hloops
  have hgives := hloops r earlier hlog out 0 [] []
  rw [List.append_nil] at hgives
  exact ⟨_, _, Prod.ext hgives rfl⟩

end BdmAssault.Usb.Chunks
