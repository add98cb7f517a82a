import BdmAssault.Smb.Driver.Runs

/-! # Reads, writes and the keep-alive thread

What these operations keep, given what their requests, their changes of the globals and
the reconnect keep.
-/

namespace BdmAssault.Smb.Driver

open Lib

/-- Reads and writes of a file under the identifiers in use. -/
def Transfers (s : State) (fh : Nat) : Request → Prop
  | .read uid tid fid _ _ => uid = s.session.uid ∧ tid = s.session.tid ∧ fid = (s.handle fh).fid
  | .write uid tid fid _ _ => uid = s.session.uid ∧ tid = s.session.tid ∧ fid = (s.handle fh).fid
  | _ => False

/-- Changes that leave alone which file a handle stands for. -/
inductive TransferChange (fh : Nat) : (State → State) → Prop where
  | readAhead (g : State → ReadAhead) : TransferChange fh fun s => { s with readAhead := g s }
  | handle (g : Handle → Handle) (used : ∀ h, (g h).used = h.used) (fid : ∀ h, (g h).fid = h.fid)
      (mode : ∀ h, (g h).mode = h.mode) (name : ∀ h, (g h).name = h.name) :
      TransferChange fh fun s => s.modifyHandle fh g

/-- What reads and writes of slot `fh` rely on. -/
structure Keeps (C : Event → Prop) (I P : Host → Prop) (fh : Nat) : Prop where
  invariant : ∀ s, P s → I s
  requests : ∀ s events, P s → (∀ e ∈ events, e.Sends (Transfers s.state fh) ∧ C e) →
    P (s.extend events)
  changes : ∀ s g, P s → TransferChange fh g → P (s.modify g)
  reconnect : ∀ s rounds, P s → Ensures C I s (smbReconnectUntilReady rounds) fun _ s' => P s'

section Keeps

variable {α β : Type} {C : Event → Prop} {I P : Host → Prop} {fh : Nat} {s : Host}

theorem Keeps.modify (k : Keeps C I P fh) (hs : P s) {g : State → State} (hg : TransferChange fh g)
    {f : Unit → Call β} {Q : Except Errno β → Host → Prop}
    (hf : ∀ s', P s' → Ensures C I s' (f ()) Q) : Ensures C I s (modifyState g >>= f) Q :=
  Ensures.modify (k.invariant _ (k.changes s g hs hg)) (hf _ (k.changes s g hs hg))

theorem Keeps.transfer (k : Keeps C I P fh) (hs : P s) (rounds : Nat)
    {transfer : Option Nat → Option Nat → Option Nat → Call α}
    (htransfer : ∀ s : State, (transfer s.session.uid s.session.tid (s.handle fh).fid).Uses
      (Within (Transfers s fh) fun _ => False)) :
    Ensures C I s (withReconnect rounds fh transfer) fun _ s' => P s' := by
  refine ensures_loop_keeps (fun _ s₁ h₁ => ?_) hs
  refine Ensures.get (k.invariant s₁ h₁) ?_
  refine Ensures.result (ensures_asks (htransfer s₁.state) fun events hevents =>
    k.invariant _ (k.requests s₁ events h₁ hevents)) ?_
  rintro r _ ⟨events, rfl, hevents⟩
  have h₂ := k.requests s₁ events h₁ hevents
  cases r with
  | ok n => exact ensures_pure h₂
  | error e =>
      dsimp only
      split
      · refine (k.reconnect _ rounds h₂).result fun r s₃ h₃ => ?_
        cases r with
        | ok _ => exact ensures_pure h₃
        | error _ => exact ensures_throw h₃
      · exact ensures_throw h₂

theorem Keeps.readFile (k : Keeps C I P fh) (hs : P s) (rounds : Nat) (position : Int) (size : Nat) :
    Ensures C I s (smbReadFileWithReconnect rounds fh position size) fun _ s' => P s' :=
  k.transfer hs rounds fun _ => readLoop_uses (fun _ _ => ⟨rfl, rfl, rfl⟩) _

theorem Keeps.writeFile (k : Keeps C I P fh) (hs : P s) (rounds : Nat) (position : Int)
    (data : List UInt8) :
    Ensures C I s (smbWriteFileWithReconnect rounds fh position data) fun _ s' => P s' :=
  k.transfer hs rounds fun _ => writeLoop_uses (fun _ _ => ⟨rfl, rfl, rfl⟩) _

theorem Progress.failed_ensures {p : Progress} {e : Errno} (hs : P s) :
    Ensures C I s (p.failed e) fun _ s' => P s' := by
  unfold Progress.failed
  split
  · exact ensures_pure hs
  · exact ensures_throw hs

theorem Keeps.readCached (k : Keeps C I P fh) (hs : P s) (rounds size : Nat) (position : Int)
    (allow : Bool) : Ensures C I s (smbReadCached rounds fh size position allow) fun _ s' => P s' := by
  refine ensures_loop_keeps (fun p s₁ h₁ => ?_) hs
  refine Ensures.get (k.invariant s₁ h₁) ?_
  split
  · exact ensures_pure h₁
  · split
    · exact ensures_pure h₁
    · split
      · refine (k.readFile h₁ rounds _ _).result fun r s₂ h₂ => ?_
        cases r with
        | error e => exact Progress.failed_ensures h₂
        | ok bytes =>
            dsimp only
            split
            · exact ensures_pure h₂
            · exact ensures_pure h₂
      · dsimp only
        split
        · exact ensures_pure h₁
        · refine k.modify h₁ (.readAhead _) fun s₂ h₂ => ?_
          refine (k.readFile h₂ rounds _ _).result fun r s₃ h₃ => ?_
          cases r with
          | error e => exact Progress.failed_ensures h₃
          | ok bytes =>
              dsimp only
              split
              · exact ensures_pure h₃
              · exact k.modify h₃ (.readAhead _) fun s₄ h₄ => ensures_pure h₄

/-- A read needs a session, a tree and an identifier. -/
theorem smbRead_ensures (k : Keeps C I P fh) (hI : I s)
    (hs : s.state.session.noTree = false → (s.state.handle fh).fid ≠ none → P s)
    (rounds size : Nat) :
    Ensures C I s (smbRead rounds fh size) fun _ s' => s' = s ∨ P s' := by
  refine Ensures.get hI ?_
  dsimp only
  split
  · exact ensures_throw (Or.inl rfl)
  · rename_i hvalid
    have hP := hs (Bool.eq_false_iff.mpr fun h => hvalid (Or.inl h)) fun h => hvalid (Or.inr h)
    refine (k.readCached hP rounds _ _ _).result fun r s₁ h₁ => ?_
    cases r with
    | error e => exact k.modify h₁ (.readAhead _) fun s₂ h₂ => ensures_throw (Or.inr h₂)
    | ok bytes =>
        dsimp only
        split
        · exact ensures_pure (Or.inr h₁)
        · refine k.modify h₁ ?_ fun s₂ h₂ => ?_
          · exact .handle _ (fun _ => rfl) (fun _ => rfl) (fun _ => rfl) fun _ => rfl
          exact k.modify h₂ (.readAhead _) fun s₃ h₃ => ensures_pure (Or.inr h₃)

theorem smbWrite_ensures (k : Keeps C I P fh) (hI : I s)
    (hs : s.state.session.noTree = false → (s.state.handle fh).fid ≠ none → P s)
    (rounds : Nat) (data : List UInt8) :
    Ensures C I s (smbWrite rounds fh data) fun _ s' => s' = s ∨ P s' := by
  refine Ensures.get hI ?_
  dsimp only
  split
  · exact ensures_throw (Or.inl rfl)
  · split
    · exact ensures_throw (Or.inl rfl)
    · rename_i hvalid
      have hP := hs (Bool.eq_false_iff.mpr fun h => hvalid (Or.inl h)) fun h => hvalid (Or.inr h)
      refine k.modify hP (.readAhead _) fun s₁ h₁ => ?_
      refine Ensures.bind (k.writeFile h₁ rounds _ _) (fun n s₂ h₂ => ?_) fun e s₂ h₂ => Or.inr h₂
      split
      · exact ensures_pure (Or.inr h₂)
      · refine k.modify h₂ ?_ fun s₃ h₃ => ensures_pure (Or.inr h₃)
        exact .handle _ (fun _ => rfl) (fun _ => rfl) (fun _ => rfl) fun _ => rfl

/-- A turn of the keep-alive thread needs it to be unlocked. -/
theorem keepaliveTurn_ensures (hI : ∀ s, P s → I s)
    (hecho : ∀ s events, P s → (∀ e ∈ events, e.Sends (· = .echo) ∧ C e) → P (s.extend events))
    (hreconnect : ∀ s rounds, P s → Ensures C I s (smbReconnectUntilReady rounds) fun _ s' => P s')
    (hIs : I s) (hs : s.state.session.keepaliveLocked = false → P s) (rounds : Nat) :
    Ensures C I s (keepaliveTurn rounds) fun _ s' => s' = s ∨ P s' := by
  refine Ensures.getSession hIs ?_
  split
  · rename_i hunlocked
    have hP := hs hunlocked
    refine Ensures.result (ensures_asks (smbEcho_uses (P := (· = .echo)) rfl) fun events hevents =>
      hI _ (hecho s events hP hevents)) ?_
    rintro r _ ⟨events, rfl, hevents⟩
    have h₁ := hecho s events hP hevents
    cases r with
    | ok _ => exact ensures_pure (Or.inr h₁)
    | error e =>
        dsimp only
        split
        · exact (hreconnect _ rounds h₁).result fun r s₂ h₂ => ensures_pure (Or.inr h₂)
        · exact ensures_pure (Or.inr h₁)
  · exact ensures_pure (Or.inl rfl)

end Keeps

end BdmAssault.Smb.Driver
