import Mathlib.Logic.Function.Basic
import BdmAssault.Lib.Transition

/-! # Transfer descriptors

How the USB stack turns requests into transfer descriptors and gets them back from the host
controller. A request is named by the number of its submission, so that every use of an
`IoRequest` is told apart.
-/

namespace BdmAssault.Hcd

open Lib

/-! ## State -/

/-- The two pools of descriptors, each with a queue of endpoints that wait for one. -/
inductive TdKind where
  | general
  | iso
deriving DecidableEq

inductive EndpointType where
  | control
  | bulk
  | interrupt
  | isochron
deriving DecidableEq

def EndpointType.kind : EndpointType → TdKind
  | .isochron => .iso
  | _ => .general

/-- `device` says whether `correspDevice` is set. The descriptors from `tdHead` to `tdTail`
are `tds` and, last, `tdTail`; `halted` is the bit that the controller keeps in `tdHead`. -/
structure Endpoint where
  endpointType : EndpointType
  device : Bool
  inTdQueue : Option TdKind
  ioReqList : List Nat
  halted : Bool
  skipped : Bool
  tds : List Nat
  tdTail : Option Nat

def Endpoint.kind (ep : Endpoint) : TdKind := ep.endpointType.kind

def usbRcOk : Nat := 0

def usbRcAborted : Nat := 0x122

/-- `data` says whether there is a buffer to transfer. -/
structure IoRequest where
  correspEndpoint : Nat
  data : Bool
  resultCode : Nat

/-- What the controller reads and writes in a descriptor: whether it raises an interrupt
when it is done, and the condition code. -/
structure Td where
  interrupt : Bool
  code : Nat

/-- `doneHead` is the controller's done queue, latest first, and `batch` is what
`hcdProcessIntr` took from it and has not processed. While the callbacks of a descriptor are
run, `callbacks` are those still to come. `sent` are the requests of each endpoint that got
descriptors, and `called` those whose callback was run. -/
structure Core where
  ep : Nat → Endpoint
  req : Nat → IoRequest
  submissions : Nat
  free : TdKind → List Nat
  lut : TdKind → Nat → Option Nat
  td : TdKind → Nat → Td
  tdQueue : TdKind → List Nat
  doneHead : List (TdKind × Nat)
  batch : List (TdKind × Nat)
  callbacks : Option (TdKind × List Nat)
  sent : Nat → List Nat
  called : List Nat

def Core.setEp (e : Nat) (f : Endpoint → Endpoint) (s : Core) : Core :=
  { s with ep := Function.update s.ep e (f (s.ep e)) }

def Core.setFree (k : TdKind) (free : List Nat) (s : Core) : Core :=
  { s with free := Function.update s.free k free }

def Core.setLut (k : TdKind) (t : Nat) (r : Option Nat) (s : Core) : Core :=
  { s with lut := Function.update s.lut k (Function.update (s.lut k) t r) }

def Core.setTd (k : TdKind) (t : Nat) (td : Td) (s : Core) : Core :=
  { s with td := Function.update s.td k (Function.update (s.td k) t td) }

def Core.setQueue (k : TdKind) (queue : List Nat) (s : Core) : Core :=
  { s with tdQueue := Function.update s.tdQueue k queue }

/-- `freeTd` and `freeIsoTd`; what is already free stays where it is. -/
def freeTd (k : TdKind) (t : Nat) (s : Core) : Core :=
  if t ∈ s.free k then s else s.setFree k (t :: s.free k)

/-! ## Queues of endpoints -/

def removeEndpointFromQueue (e : Nat) (s : Core) : Core :=
  match (s.ep e).inTdQueue with
  | none => s
  | some k =>
      (s.setQueue k ((s.tdQueue k).erase e)).setEp e fun ep => { ep with inTdQueue := none }

def enqueueEndpoint (e : Nat) (k : TdKind) (s : Core) : Core :=
  match (s.ep e).inTdQueue with
  | some _ => s
  | none => (s.setQueue k (s.tdQueue k ++ [e])).setEp e fun ep => { ep with inTdQueue := some k }

/-- Endpoint `e` was put in its queue or taken out of it, and nothing else changed. -/
structure Requeued (e : Nat) (s t : Core) : Prop where
  others : ∀ f, f ≠ e → t.ep f = s.ep f
  self : ∃ q, t.ep e = { s.ep e with inTdQueue := q }
  linked : ∀ f k, f ≠ e → f ∈ s.tdQueue k → f ∈ t.tdQueue k
  rest : t = { s with ep := t.ep, tdQueue := t.tdQueue }

theorem Requeued.refl (e : Nat) (s : Core) : Requeued e s s :=
  ⟨fun _ _ => rfl, ⟨(s.ep e).inTdQueue, rfl⟩, fun _ _ _ h => h, rfl⟩

theorem removeEndpointFromQueue_requeued (e : Nat) (s : Core) :
    Requeued e s (removeEndpointFromQueue e s) ∧
      ((removeEndpointFromQueue e s).ep e).inTdQueue = none := by
  unfold removeEndpointFromQueue
  split
  · rename_i hq
    exact ⟨.refl e s, hq⟩
  · rename_i k hq
    refine ⟨⟨fun f hf => Function.update_of_ne hf _ _, ⟨none, Function.update_self _ _ _⟩, ?_, rfl⟩, ?_⟩
    · intro f k' hf hmem
      show f ∈ Function.update s.tdQueue k ((s.tdQueue k).erase e) k'
      by_cases hk : k' = k
      · subst hk
        rw [Function.update_self]
        exact (List.mem_erase_of_ne hf).mpr hmem
      · rw [Function.update_of_ne hk]
        exact hmem
    · simp [Core.setEp]

theorem enqueueEndpoint_requeued (e : Nat) (k : TdKind) (s : Core) :
    Requeued e s (enqueueEndpoint e k s) ∧
      (((s.ep e).inTdQueue ≠ none ∧ enqueueEndpoint e k s = s) ∨
        (((enqueueEndpoint e k s).ep e).inTdQueue = some k ∧ e ∈ (enqueueEndpoint e k s).tdQueue k)) := by
  unfold enqueueEndpoint
  split
  · rename_i hq
    exact ⟨.refl e s, .inl ⟨by rw [hq]; exact nofun, rfl⟩⟩
  · rename_i hq
    refine ⟨⟨fun f hf => Function.update_of_ne hf _ _, ⟨some k, Function.update_self _ _ _⟩, ?_, rfl⟩,
      .inr ⟨?_, ?_⟩⟩
    · intro f k' hf hmem
      show f ∈ Function.update s.tdQueue k (s.tdQueue k ++ [e]) k'
      by_cases hk : k' = k
      · subst hk
        rw [Function.update_self]
        exact List.mem_append_left _ hmem
      · rw [Function.update_of_ne hk]
        exact hmem
    · simp [Core.setEp]
    · show e ∈ Function.update s.tdQueue k (s.tdQueue k ++ [e]) k
      rw [Function.update_self]
      exact List.mem_append_right _ List.mem_cons_self

/-! ## Submitting -/

/-- The part of a set-up that uses a descriptor for request `r`. -/
def fillTd (k : TdKind) (t r : Nat) (interrupt : Bool) (s : Core) : Core :=
  (s.setTd k t ⟨interrupt, 15⟩).setLut k t (some r)

/-- Only the last descriptor of a request raises an interrupt. -/
def fillTds (k : TdKind) (r : Nat) : List Nat → Core → Core
  | [], s => s
  | [t], s => fillTd k t r true s
  | t :: ts, s => fillTds k r ts (fillTd k t r false s)

/-- Filling in descriptors touches nothing but them and the table. -/
theorem fillTds_frame (k : TdKind) (r : Nat) (used : List Nat) (s : Core) :
    fillTds k r used s = { s with td := (fillTds k r used s).td, lut := (fillTds k r used s).lut } := by
  induction used generalizing s with
  | nil => rfl
  | cons t ts ih =>
      cases ts with
      | nil => rfl
      | cons t' ts => exact (ih (fillTd k t r false s)).trans rfl

/-- The first request of the list leaves it and gets the descriptors `used`; `tail` is the new
end of the queue and `free` are the descriptors that are left. -/
def submit (k : TdKind) (e r : Nat) (rest used : List Nat) (tail : Nat) (free : List Nat) (s : Core) :
    Core :=
  { fillTds k r used (s.setFree k free) with
    ep := Function.update s.ep e { s.ep e with
      ioReqList := rest, tds := (s.ep e).tds ++ used, tdTail := some tail }
    sent := Function.update s.sent e (s.sent e ++ [r]) }

/-- An endpoint without waiting requests leaves its queue. -/
def leaveIfIdle (e : Nat) (s : Core) : Core :=
  if (s.ep e).ioReqList = [] then removeEndpointFromQueue e s else s

theorem leaveIfIdle_cases (e : Nat) (s : Core) :
    (leaveIfIdle e s = s ∧ (s.ep e).ioReqList ≠ []) ∨
      (leaveIfIdle e s = removeEndpointFromQueue e s ∧ (s.ep e).ioReqList = []) := by
  unfold leaveIfIdle
  split
  · exact .inr ⟨rfl, ‹_›⟩
  · exact .inl ⟨rfl, ‹_›⟩

/-- The three stages of a control transfer, each with a descriptor of its own; the setup
stage uses the old `tdTail`. If there are too few descriptors, those that were taken are
given back and the free list is as it was. -/
def setupControlTransfer (e : Nat) (s : Core) : Core :=
  match (s.ep e).tdTail, (s.ep e).ioReqList with
  | some setupTd, r :: rest =>
      if (s.ep e).halted || (s.ep e).skipped then removeEndpointFromQueue e s
      else match (s.req r).data, s.free .general with
        | true, dataTd :: statusTd :: tailTd :: free =>
            leaveIfIdle e (submit .general e r rest [setupTd, dataTd, statusTd] tailTd free s)
        | false, statusTd :: tailTd :: free =>
            leaveIfIdle e (submit .general e r rest [setupTd, statusTd] tailTd free s)
        | _, _ => enqueueEndpoint e .general s
  | _, _ => removeEndpointFromQueue e s

/-- `setupIsocronTransfer` and `setupBulkTransfer` use one descriptor, the old `tdTail`. -/
def setupSingleTransfer (k : TdKind) (e : Nat) (s : Core) : Core :=
  match (s.ep e).tdTail, (s.ep e).ioReqList with
  | some curTd, r :: rest =>
      if (s.ep e).halted || (s.ep e).skipped then removeEndpointFromQueue e s
      else match s.free k with
        | newTd :: free => leaveIfIdle e (submit k e r rest [curTd] newTd free s)
        | [] => enqueueEndpoint e k s
  | _, _ => removeEndpointFromQueue e s

def setupIsocronTransfer (e : Nat) (s : Core) : Core := setupSingleTransfer .iso e s

def setupBulkTransfer (e : Nat) (s : Core) : Core := setupSingleTransfer .general e s

def handleIoReqList (e : Nat) (s : Core) : Core :=
  match (s.ep e).endpointType with
  | .control => setupControlTransfer e s
  | .isochron => setupIsocronTransfer e s
  | _ => setupBulkTransfer e s

/-- The request gets the next number and the last place in the list. -/
def appendRequest (e : Nat) (data : Bool) (s : Core) : Core :=
  { s with
    ep := Function.update s.ep e { s.ep e with ioReqList := (s.ep e).ioReqList ++ [s.submissions] }
    req := Function.update s.req s.submissions ⟨e, data, usbRcOk⟩
    submissions := s.submissions + 1 }

/-- An endpoint without a device refuses the request. -/
def attachIoReqToEndpoint (e : Nat) (data : Bool) (s : Core) : Core :=
  if (s.ep e).device then handleIoReqList e (appendRequest e data s) else s

def checkTdQueue (k : TdKind) (s : Core) : Core :=
  match s.free k, s.tdQueue k with
  | _ :: _, e :: _ => handleIoReqList e s
  | _, _ => s

/-- What a set-up with descriptors of kind `k` can do: leave the queue, if the endpoint cannot
be used or nothing waits; wait in the queue for descriptors; or submit the first request. -/
def SetUp (k : TdKind) (e : Nat) (s t : Core) : Prop :=
  (t = removeEndpointFromQueue e s ∧ ((s.ep e).tdTail = none ∨ (s.ep e).ioReqList = [] ∨
    (s.ep e).halted = true ∨ (s.ep e).skipped = true)) ∨
  (t = enqueueEndpoint e k s ∧ (s.free k).length < 3) ∨
  ∃ r rest old news tail free, (s.ep e).ioReqList = r :: rest ∧ (s.ep e).tdTail = some old ∧
    s.free k = news ++ tail :: free ∧ t = leaveIfIdle e (submit k e r rest (old :: news) tail free s)

/-- One descriptor is enough. -/
theorem setupSingleTransfer_cases (k : TdKind) (e : Nat) (s : Core) :
    (setupSingleTransfer k e s = removeEndpointFromQueue e s ∧ ((s.ep e).tdTail = none ∨
      (s.ep e).ioReqList = [] ∨ (s.ep e).halted = true ∨ (s.ep e).skipped = true)) ∨
    (setupSingleTransfer k e s = enqueueEndpoint e k s ∧ (s.free k).length < 3) ∨
    ∃ r rest old tail free, (s.ep e).ioReqList = r :: rest ∧ (s.ep e).tdTail = some old ∧
      s.free k = tail :: free ∧
      setupSingleTransfer k e s = leaveIfIdle e (submit k e r rest [old] tail free s) := by
  unfold setupSingleTransfer
  split
  · rename_i old r rest htail hlist
    split
    · rename_i hoff
      exact .inl ⟨rfl, .inr (.inr (by simpa using hoff))⟩
    · split
      · rename_i tail free hfree
        exact .inr (.inr ⟨r, rest, old, tail, free, hlist, htail, hfree, rfl⟩)
      · rename_i hfree
        exact .inr (.inl ⟨rfl, by rw [hfree]; decide⟩)
  · rename_i hnot
    refine .inl ⟨rfl, ?_⟩
    cases htail : (s.ep e).tdTail with
    | none => exact .inl rfl
    | some old =>
        cases hlist : (s.ep e).ioReqList with
        | nil => exact .inr (.inl rfl)
        | cons r rest => exact absurd hlist (hnot old r rest htail)

theorem setupSingleTransfer_setUp (k : TdKind) (e : Nat) (s : Core) :
    SetUp k e s (setupSingleTransfer k e s) := by
  rcases setupSingleTransfer_cases k e s with h | h | ⟨r, rest, old, tail, free, hlist, htail, hfree, h⟩
  · exact .inl h
  · exact .inr (.inl h)
  · exact .inr (.inr ⟨r, rest, old, [], tail, free, hlist, htail, hfree, h⟩)

theorem setupControlTransfer_setUp (e : Nat) (s : Core) :
    SetUp .general e s (setupControlTransfer e s) := by
  unfold setupControlTransfer
  split
  · rename_i old r rest htail hlist
    split
    · rename_i hoff
      exact .inl ⟨rfl, .inr (.inr (by simpa using hoff))⟩
    · split
      · rename_i d st tail free _ hfree
        exact .inr (.inr ⟨r, rest, old, [d, st], tail, free, hlist, htail, hfree, rfl⟩)
      · rename_i st tail free _ hfree
        exact .inr (.inr ⟨r, rest, old, [st], tail, free, hlist, htail, hfree, rfl⟩)
      · rename_i hdata hnodata
        refine .inr (.inl ⟨rfl, ?_⟩)
        match hfree : s.free .general with
        | [] => decide
        | [_] => simp
        | [_, _] => simp
        | a :: b :: c :: free =>
            cases hd : (s.req r).data with
            | true => exact absurd hfree (hdata a b c free hd)
            | false => exact absurd hfree (hnodata a b (c :: free) hd)
  · rename_i hnot
    refine .inl ⟨rfl, ?_⟩
    cases htail : (s.ep e).tdTail with
    | none => exact .inl rfl
    | some old =>
        cases hlist : (s.ep e).ioReqList with
        | nil => exact .inr (.inl rfl)
        | cons r rest => exact absurd hlist (hnot old r rest htail)

theorem handleIoReqList_setUp (e : Nat) (s : Core) : SetUp (s.ep e).kind e s (handleIoReqList e s) := by
  unfold handleIoReqList Endpoint.kind
  cases htype : (s.ep e).endpointType with
  | control => exact setupControlTransfer_setUp e s
  | isochron => exact setupSingleTransfer_setUp .iso e s
  | bulk => exact setupSingleTransfer_setUp .general e s
  | interrupt => exact setupSingleTransfer_setUp .general e s

/-! ## The done queue -/

/-- A request that is not yet in the list is put there, with its result. -/
def abortRequest (r : Nat) (s : Core × List Nat) : Core × List Nat :=
  if r ∈ s.2 then s
  else
    ({ s.1 with req := Function.update s.1.req r { s.1.req r with resultCode := usbRcAborted } },
      s.2 ++ [r])

/-- One descriptor of a halted endpoint. -/
def flushGenTd (s : Core × List Nat) (t : Nat) : Core × List Nat :=
  match (freeTd .general t s.1).lut .general t with
  | none => (freeTd .general t s.1, s.2)
  | some r => abortRequest r ((freeTd .general t s.1).setLut .general t none, s.2)

/-- The entry that is cleared is that of the descriptor `arg` that was done. -/
def flushIsoTd (arg : Nat) (s : Core × List Nat) (t : Nat) : Core × List Nat :=
  match (freeTd .iso t s.1).lut .iso t with
  | none => (freeTd .iso t s.1, s.2)
  | some r => abortRequest r ((freeTd .iso t s.1).setLut .iso arg none, s.2)

/-- `tdHead = tdTail`, which clears the halted bit too. -/
def Core.resetHead (e : Nat) (s : Core) : Core :=
  s.setEp e fun ep => { ep with tds := [], halted := false }

def flushHalted (e : Nat) (flush : Core × List Nat → Nat → Core × List Nat)
    (s : Core × List Nat) : Core × List Nat :=
  (((s.1.ep e).tds.foldl flush s).1.resetHead e, ((s.1.ep e).tds.foldl flush s).2)

/-- The entry and the descriptor are given back, and the request gets its result. -/
def retireTd (k : TdKind) (t r : Nat) (result : Nat) (s : Core) : Core :=
  let s := freeTd k t (s.setLut k t none)
  { s with req := Function.update s.req r { s.req r with resultCode := result } }

/-- The result of a request is that of its first descriptor that failed. -/
def firstError (result code : Nat) : Nat := if result = usbRcOk then code else result

/-- Up to the callbacks, which are what the pair's second half lists. -/
def finishGenTd (t r : Nat) (s : Core) : Core × List Nat :=
  let code := (s.td .general t).code
  let list := if code ≠ usbRcOk ∨ (s.td .general t).interrupt = true then [r] else []
  let s := retireTd .general t r (firstError (s.req r).resultCode code) s
  if code ≠ usbRcOk ∧ (s.ep (s.req r).correspEndpoint).halted = true then
    flushHalted (s.req r).correspEndpoint flushGenTd (s, list)
  else (s, list)

/-- The condition code is that of the descriptor and of its packet together. -/
def finishIsoTd (t r : Nat) (s : Core) : Core × List Nat :=
  let s := retireTd .iso t r (s.td .iso t).code s
  if (s.ep (s.req r).correspEndpoint).halted then
    flushHalted (s.req r).correspEndpoint (flushIsoTd t) (s, [r])
  else (s, [r])

/-- A descriptor without a request is passed over. -/
def processDoneQueue (k : TdKind) (t : Nat) (s : Core) : Core :=
  match s.lut k t with
  | none => s
  | some r =>
      match k with
      | .general => { (finishGenTd t r s).1 with callbacks := some (k, (finishGenTd t r s).2) }
      | .iso => { (finishIsoTd t r s).1 with callbacks := some (k, (finishIsoTd t r s).2) }

/-- The callback is not run if the endpoint has been removed from its device. -/
def runCallback (k : TdKind) (r : Nat) (rest : List Nat) (s : Core) : Core :=
  { s with
    callbacks := some (k, rest)
    called := if (s.ep (s.req r).correspEndpoint).device then r :: s.called else s.called }

/-! ## Endpoints -/

/-- The endpoint comes from the free list; without a descriptor for its tail it goes back. -/
def openDeviceEndpoint (e : Nat) (type : EndpointType) (s : Core) : Core :=
  match s.free type.kind with
  | [] => s
  | t :: free =>
      { s.setFree type.kind free with
        ep := Function.update s.ep e ⟨type, true, none, [], false, false, [], some t⟩
        sent := Function.update s.sent e [] }

def removeEndpointFromDevice (e : Nat) (s : Core) : Core :=
  s.setEp e fun ep => { ep with skipped := true, device := false }

/-- One entry of the table, while `killEndpoint` goes through it. -/
def killTd (k : TdKind) (e : Nat) (s : Core) (t : Nat) : Core :=
  match s.lut k t with
  | none => s
  | some r =>
      if (s.req r).correspEndpoint = e then freeTd k t (s.setLut k t none) else s

/-- The descriptors of `e`, found by their requests, and its tail. -/
def killTds (n : Nat) (e : Nat) (s : Core) : Core :=
  let s := (List.range n).foldl (killTd (s.ep e).kind e) s
  match (s.ep e).tdTail with
  | some t => freeTd (s.ep e).kind t s
  | none => s

/-- `size` are the sizes of the two pools. -/
def killEndpoint (size : TdKind → Nat) (e : Nat) (s : Core) : Core :=
  removeEndpointFromQueue e ((killTds (size (s.ep e).kind) e s).setEp e
    fun ep => { ep with tds := [], tdTail := none, halted := false, ioReqList := [] })

/-! ## What giving descriptors back leaves alone -/

/-- Only free lists, the table and requests have changed. -/
def Freed (s t : Core) : Prop := t = { s with free := t.free, lut := t.lut, req := t.req }

theorem Freed.refl (s : Core) : Freed s s := rfl

theorem Freed.trans {s t u : Core} (h : Freed s t) (h' : Freed t u) : Freed s u := by
  unfold Freed at *
  rw [h', h]

theorem freeTd_freed (k : TdKind) (t : Nat) (s : Core) : Freed s (freeTd k t s) := by
  unfold freeTd
  split <;> rfl

theorem setLut_freed (k : TdKind) (t : Nat) (r : Option Nat) (s : Core) : Freed s (s.setLut k t r) := rfl

theorem abortRequest_freed (r : Nat) (s : Core × List Nat) : Freed s.1 (abortRequest r s).1 := by
  unfold abortRequest
  split <;> rfl

theorem flushGenTd_freed (s : Core × List Nat) (t : Nat) : Freed s.1 (flushGenTd s t).1 := by
  unfold flushGenTd
  split
  · exact freeTd_freed _ _ _
  · exact (freeTd_freed .general t s.1).trans ((setLut_freed _ _ _ _).trans (abortRequest_freed _ _))

theorem flushIsoTd_freed (arg : Nat) (s : Core × List Nat) (t : Nat) :
    Freed s.1 (flushIsoTd arg s t).1 := by
  unfold flushIsoTd
  split
  · exact freeTd_freed _ _ _
  · exact (freeTd_freed .iso t s.1).trans ((setLut_freed _ _ _ _).trans (abortRequest_freed _ _))

theorem foldl_freed {flush : Core × List Nat → Nat → Core × List Nat}
    (hflush : ∀ s t, Freed s.1 (flush s t).1) (tds : List Nat) (s : Core × List Nat) :
    Freed s.1 (tds.foldl flush s).1 := by
  induction tds generalizing s with
  | nil => exact .refl s.1
  | cons t tds ih => exact (hflush s t).trans (ih (flush s t))

theorem retireTd_freed (k : TdKind) (t r result : Nat) (s : Core) : Freed s (retireTd k t r result s) :=
  (setLut_freed k t none s).trans ((freeTd_freed k t _).trans rfl)

theorem killTd_freed (k : TdKind) (e : Nat) (s : Core) (t : Nat) : Freed s (killTd k e s t) := by
  unfold killTd
  split
  · exact .refl s
  · split
    · exact (setLut_freed k t none s).trans (freeTd_freed k t _)
    · exact .refl s

theorem foldl_killTd_freed (k : TdKind) (e : Nat) (tds : List Nat) (s : Core) :
    Freed s (tds.foldl (killTd k e) s) := by
  induction tds generalizing s with
  | nil => exact .refl s
  | cons t tds ih => exact (killTd_freed k e s t).trans (ih (killTd k e s t))

theorem killTds_freed (n e : Nat) (s : Core) : Freed s (killTds n e s) := by
  unfold killTds
  extract_lets s'
  have hs' : Freed s s' := foldl_killTd_freed _ e _ s
  split
  · exact hs'.trans (freeTd_freed _ _ _)
  · exact hs'

/-! ## Runs -/

inductive CoreEvent where
  | attach (e : Nat) (data : Bool)
  | retire (e code : Nat) (halt : Bool)
  | interrupt
  | process
  | callback
  | check
  | open (e : Nat) (type : EndpointType)
  | remove (e : Nat)
  | kill (e : Nat)

/-- The first descriptor of an endpoint is done. -/
def retired (e code : Nat) (halt : Bool) (t : Nat) (rest : List Nat) (s : Core) : Core :=
  let k := (s.ep e).kind
  { (s.setTd k t { s.td k t with code := code }).setEp e
      fun ep => { ep with tds := rest, halted := halt } with
    doneHead := (k, t) :: s.doneHead }

variable (size : TdKind → Nat)

/-- The controller works on endpoints that are not halted and may halt one whenever it is done
with a descriptor; it does so when a general descriptor failed. Requests may come at any time, also from a callback. The timer that kills
an endpoint is looked at between two done queues. -/
inductive CoreStep : Core → CoreEvent → Core → Prop where
  | attach {s : Core} {e : Nat} {data : Bool} :
      CoreStep s (.attach e data) (attachIoReqToEndpoint e data s)
  | retire {s : Core} {e code t : Nat} {halt : Bool} {rest : List Nat}
      (htds : (s.ep e).tds = t :: rest) (hrun : (s.ep e).halted = false)
      (hhalt : (s.ep e).kind = .general → code ≠ usbRcOk → halt = true) :
      CoreStep s (.retire e code halt) (retired e code halt t rest s)
  | interrupt {s : Core} (hcb : s.callbacks = none) (hbatch : s.batch = []) :
      CoreStep s .interrupt { s with batch := s.doneHead.reverse, doneHead := [] }
  | process {s : Core} {k : TdKind} {t : Nat} {rest : List (TdKind × Nat)} (hcb : s.callbacks = none)
      (hbatch : s.batch = (k, t) :: rest) :
      CoreStep s .process (processDoneQueue k t { s with batch := rest })
  | callback {s : Core} {k : TdKind} {r : Nat} {rest : List Nat}
      (hcb : s.callbacks = some (k, r :: rest)) : CoreStep s .callback (runCallback k r rest s)
  | check {s : Core} {k : TdKind} (hcb : s.callbacks = some (k, [])) :
      CoreStep s .check (checkTdQueue k { s with callbacks := none })
  | open {s : Core} {e : Nat} {type : EndpointType} (hdev : (s.ep e).device = false)
      (htail : (s.ep e).tdTail = none) :
      CoreStep s (.open e type) (openDeviceEndpoint e type s)
  | remove {s : Core} {e : Nat} (hdev : (s.ep e).device = true) :
      CoreStep s (.remove e) (removeEndpointFromDevice e s)
  | kill {s : Core} {e : Nat} (hdev : (s.ep e).device = false) (htail : (s.ep e).tdTail ≠ none)
      (hcb : s.callbacks = none) (hbatch : s.batch = []) :
      CoreStep s (.kill e) (killEndpoint size e s)

/-- All descriptors are free and no endpoint is open. -/
structure Initialised (s : Core) : Prop where
  ep : ∀ e, (s.ep e).device = false ∧ (s.ep e).tdTail = none ∧ (s.ep e).tds = [] ∧
    (s.ep e).ioReqList = [] ∧ (s.ep e).inTdQueue = none
  free : ∀ k, s.free k = List.range (size k)
  lut : ∀ k t, s.lut k t = none
  tdQueue : ∀ k, s.tdQueue k = []
  done : s.doneHead = [] ∧ s.batch = [] ∧ s.callbacks = none
  called : s.called = []
  sent : ∀ e, s.sent e = []

def core : System Core CoreEvent := ⟨Initialised size, CoreStep size⟩

end BdmAssault.Hcd
