import BdmAssault.Smb.Driver.Responsive

/-! # Reads through the buffer

`smb_ReadCached` on a file whose contents do not change. `smb_ReadFile` returns all the
bytes it was asked for or none: when the file ends within the range, what its requests have
read before is lost. Whether a cached read is exact depends on whether a range like this is
asked for, so on what the buffer held and on the read-ahead.
-/

namespace BdmAssault.Smb.Driver

open Lib

/-! ## The file on the server -/

/-- The transport failed, or the session is gone. -/
def Got.drops : Got → Prop
  | .timeout => True
  | .reset => True
  | .reply r => r.read = .lost

/-- An answer with at least one of the bytes asked for, and the end of the file behind
`contents`. -/
def Got.reads (contents : List UInt8) (offset nbytes : Nat) : Got → Prop
  | .reply r =>
      (∃ n, 0 < n ∧ n ≤ nbytes ∧ offset + n ≤ contents.length ∧
        r.read = .data ((contents.drop offset).take n)) ∨
      contents.length ≤ offset ∧ (r.read = .endOfFile ∨ r.read = .data [])
  | _ => False

/-- The file that is read has these contents. The only reads of the call are those of the
slot, under the identifiers it has. -/
def Network.Holds (e : Network) (contents : List UInt8) (N : Nat) : Prop :=
  ∀ n uid tid fid (offset nbytes : Nat), 0 < nbytes →
    (e.answer n (.read uid tid fid offset nbytes)).reads contents offset nbytes ∨
      (e.answer n (.read uid tid fid offset nbytes)).drops ∧ n < N

/-- What `smb_ReadFile` makes of a range of the file. -/
def fileRead (contents : List UInt8) (offset nbytes : Nat) : List UInt8 :=
  if offset + nbytes ≤ contents.length then (contents.drop offset).take nbytes else []

/-! ## Reading a range -/

section Range

variable {e : Network} {contents : List UInt8} {N : Nat} {s : Station} {uid tid fid : Option Nat}

theorem take_length {offset n : Nat} (h : offset + n ≤ contents.length) :
    ((contents.drop offset).take n).length = n := by
  rw [List.length_take, List.length_drop]
  omega

/-- A failure of the transport, which had no connection or an event before `N`. -/
def Dropped (N : Nat) (s : Station) (err : Errno) : Prop :=
  err.isTransportError = true ∧ (s.host.connected = false ∨ s.clock < N)

theorem smbReadAndX_ends (he : e.Holds contents N) {offset nbytes : Nat} (hasked : 0 < nbytes) :
    (smbReadAndX uid tid fid offset nbytes).Ends e.respond s fun r s' =>
      Quiet s.host s'.host ∧ s.clock < s'.clock ∧
        match r with
        | .ok bytes => ∃ n, n ≤ nbytes ∧ bytes = (contents.drop offset).take n ∧
            offset + n ≤ max offset contents.length ∧ (n = 0 → contents.length ≤ offset)
        | .error err => Dropped N s err := by
  by_cases hs : s.host.connected = true
  · refine Fallible.Ends.step (if_pos hs) ?_
    have hquiet : Quiet s.host (s.host.record (.exchange .transfer (.read uid tid fid offset nbytes)
        (e.answer s.clock (.read uid tid fid offset nbytes)))) := ⟨rfl, rfl⟩
    have hanswer := he s.clock uid tid fid offset nbytes hasked
    generalize e.answer s.clock (.read uid tid fid offset nbytes) = got at hquiet hanswer ⊢
    have hlater : s.clock < (s.tick (s.host.record (.exchange .transfer
      (.read uid tid fid offset nbytes) got))).clock := Nat.lt_succ_self _
    rcases hanswer with hreads | ⟨hdrops, hearly⟩
    · cases got with
      | timeout => exact hreads.elim
      | reset => exact hreads.elim
      | reply r =>
          rcases hreads with ⟨n, hpositive, hle, hin, hdata⟩ | ⟨hend, hdata | hdata⟩
          · dsimp only
            rw [hdata]
            dsimp only
            rw [if_pos (by rw [take_length hin]; exact hle)]
            exact Fallible.ends_pure ⟨hquiet, hlater, n, hle, rfl, by omega, by omega⟩
          · dsimp only
            rw [hdata]
            exact Fallible.ends_pure ⟨hquiet, hlater, 0, Nat.zero_le _, rfl, by omega, fun _ => hend⟩
          · dsimp only
            rw [hdata]
            dsimp only
            rw [if_pos (show ([] : List UInt8).length ≤ nbytes from Nat.zero_le _)]
            exact Fallible.ends_pure ⟨hquiet, hlater, 0, Nat.zero_le _, rfl, by omega, fun _ => hend⟩
    · cases got with
      | timeout => exact Fallible.ends_throw ⟨hquiet, hlater, rfl, Or.inr hearly⟩
      | reset => exact Fallible.ends_throw ⟨hquiet, hlater, rfl, Or.inr hearly⟩
      | reply r =>
          dsimp only
          rw [show r.read = .lost from hdrops]
          exact Fallible.ends_throw ⟨hquiet, hlater, rfl, Or.inr hearly⟩
  · refine Fallible.Ends.step (if_neg hs) ?_
    exact Fallible.ends_throw ⟨⟨rfl, rfl⟩, Nat.lt_succ_self _, rfl, Or.inl (Bool.eq_false_iff.mpr hs)⟩

/-- Every round reads at least one byte. The end of the file within the range takes back
what was read before. -/
theorem readLoop_ends (he : e.Holds contents N) (rounds : Nat) :
    ∀ {s : Station} {offset remaining : Nat} {done : List UInt8}, remaining ≤ rounds →
      (readLoop uid tid fid rounds offset remaining done).Ends e.respond s fun r s' =>
        Quiet s.host s'.host ∧ s.clock ≤ s'.clock ∧
          match r with
          | .ok bytes => bytes = if remaining = 0 ∨ offset + remaining ≤ contents.length then
              done ++ (contents.drop offset).take remaining else []
          | .error err => Dropped N s err := by
  have hdone : ∀ {s : Station} {offset remaining : Nat} {done : List UInt8}, remaining = 0 →
      (pure done : Call (List UInt8)).Ends e.respond s fun r s' =>
        Quiet s.host s'.host ∧ s.clock ≤ s'.clock ∧
          match r with
          | .ok bytes => bytes = if remaining = 0 ∨ offset + remaining ≤ contents.length then
              done ++ (contents.drop offset).take remaining else []
          | .error err => Dropped N s err := by
    intro s offset remaining done hnone
    subst hnone
    refine Fallible.ends_pure ⟨⟨rfl, rfl⟩, Nat.le_refl _, ?_⟩
    rw [if_pos (Or.inl rfl), List.take_zero, List.append_nil]
  induction rounds with
  | zero => exact fun hle => hdone (Nat.le_zero.mp hle)
  | succ rounds ih =>
      intro s offset remaining done hle
      unfold readLoop
      split
      · exact hdone ‹_›
      · rename_i hremaining
        refine Fallible.Ends.bind (smbReadAndX_ends he (by omega)) ?_ ?_
        · rintro bytes s₁ ⟨hquiet, hclock, n, hn, rfl, hin, hend⟩
          split
          · rename_i hempty
            have hlength : min n (contents.length - offset) = 0 := by
              rw [← List.length_drop, ← List.length_take, hempty]
              rfl
            refine Fallible.ends_pure ⟨hquiet, Nat.le_of_lt hclock, ?_⟩
            rw [if_neg (by omega)]
          · rename_i hread
            have hpositive : 0 < n := by
              refine Nat.pos_of_ne_zero fun hzero => hread ?_
              rw [hzero]
              rfl
            have hinside : offset + n ≤ contents.length := by omega
            rw [take_length hinside]
            have hnext := @ih s₁ (offset + n) (remaining - n) (done ++ (contents.drop offset).take n)
              (by omega)
            rw [Int.natCast_add] at hnext
            refine hnext.mono ?_
            rintro r s₂ ⟨hquiet', hclock', hr⟩
            refine ⟨quiet_frame.trans _ _ _ hquiet hquiet', by omega, ?_⟩
            cases r with
            | ok bytes =>
                refine hr.trans ?_
                have hsplit : (contents.drop offset).take remaining =
                    (contents.drop offset).take n ++ (contents.drop (offset + n)).take (remaining - n) := by
                  rw [← List.drop_drop, ← List.take_add]
                  congr 1
                  omega
                rw [hsplit, List.append_assoc]
                have hsame : (remaining - n = 0 ∨ offset + n + (remaining - n) ≤ contents.length) ↔
                    (remaining = 0 ∨ offset + remaining ≤ contents.length) := by omega
                simp only [hsame]
            | error err =>
                refine ⟨hr.1, hr.2.imp (fun h => hquiet.2.symm.trans h) fun h => by omega⟩
        · rintro err s₁ ⟨hquiet, hclock, hr⟩
          exact ⟨hquiet, Nat.le_of_lt hclock, hr⟩

theorem smbReadFile_ends (he : e.Holds contents N) {offset nbytes : Nat} (hpositive : 0 < nbytes) :
    (smbReadFile uid tid fid offset nbytes).Ends e.respond s fun r s' =>
      Quiet s.host s'.host ∧ s.clock ≤ s'.clock ∧
        match r with
        | .ok bytes => bytes = fileRead contents offset nbytes
        | .error err => Dropped N s err := by
  refine Fallible.Ends.mono (readLoop_ends he nbytes (Nat.le_refl _)) ?_
  rintro r s' ⟨hquiet, hclock, hr⟩
  refine ⟨hquiet, hclock, ?_⟩
  cases r with
  | ok bytes =>
      have hbytes : bytes = if nbytes = 0 ∨ offset + nbytes ≤ contents.length then
          [] ++ (contents.drop offset).take nbytes else [] := hr
      simp only [Nat.pos_iff_ne_zero.mp hpositive, false_or, List.nil_append] at hbytes
      exact hbytes
  | error err => exact hr

end Range

/-! ## Reading through reconnects -/

/-- A reconnect restores the connection, the session and the handles. -/
structure Restorable (v : Server) (s : Host) : Prop where
  logonValid : s.state.session.logonValid = true
  accepts : v.Accepts s.state.session
  ready : v.Ready s.state

theorem Restorable.persists {v : Server} {s s' : Host} (h : Restorable v s) (hp : Persists v s s') :
    Restorable v s' := ⟨hp.logonValid.trans h.logonValid, hp.accepts h.accepts, hp.ready.mpr h.ready⟩

section Reconnects

variable {e : Network} {v : Server} {contents : List UInt8} {N : Nat} {s : Station} {fh rounds : Nat}

/-- The transport failures that are left, and the reconnect that is due without a
connection. -/
def Station.failures (N : Nat) (s : Station) : Nat :=
  N - s.clock + if s.host.connected then 0 else 1

theorem readFile_ends (hserves : e.Serves v N) (hholds : e.Holds contents N)
    (hr : Restorable v s.host) {offset nbytes : Nat} (hpositive : 0 < nbytes) (hrounds : N + 1 < rounds) :
    (smbReadFileWithReconnect rounds fh offset nbytes).Ends e.respond s fun r s' =>
      r = .ok (fileRead contents offset nbytes) ∧ Persists v s.host s'.host := by
  have hframe := persists_frame v
  refine ends_loop (P := fun _ s' => Persists v s.host s'.host) (fun _ s' => s'.failures N) ?_
    (hframe.refl _) ?_
  · intro _ s₁ h₁
    refine ends_get (Fallible.Ends.result (smbReadFile_ends hholds hpositive) ?_)
    rintro r s₂ ⟨hquiet, hclock, hread⟩
    have h₂ : Persists v s.host s₂.host := hframe.trans _ _ _ h₁ hquiet.joined.toPersists
    cases r with
    | ok bytes => exact Fallible.ends_pure ⟨congrArg _ hread, h₂⟩
    | error err =>
        obtain ⟨htransport, hcause⟩ := hread
        have hr₂ := hr.persists h₂
        dsimp only
        rw [if_pos htransport]
        refine Fallible.Ends.result (smbReconnectUntilReady_ends hserves hr₂.logonValid hr₂.accepts
          hr₂.ready (by omega)) ?_
        rintro r s₃ ⟨rfl, h₃, hconnected, hclock'⟩
        refine Fallible.ends_pure ⟨hframe.trans _ _ _ h₂ h₃, ?_⟩
        have htick : s₁.clock + 1 ≤ s₂.clock := hclock
        unfold Station.failures
        rw [if_pos hconnected]
        rcases hcause with hdown | hearly
        · have hdown' : s₁.host.connected = false := hdown
          rw [hdown', if_neg Bool.false_ne_true]
          omega
        · have hearly' : s₁.clock + 1 < N := hearly
          omega
  · unfold Station.failures
    split <;> omega

/-! ## The rounds of a cached read -/

/-- One round of `smb_ReadCached`. -/
def cachedRound (rounds fh : Nat) (allowReadAhead : Bool) (p : Progress) :
    Call (Progress ⊕ List UInt8) := do
  let s ← getState
  if p.remaining = 0 then return .inr p.completed
  else if s.readAhead.covers fh p.position then
    return .inl (p.advance ((s.readAhead.bytesFrom p.position).take p.remaining))
  else if allowReadAhead = false ∨ 8192 ≤ p.remaining then
    match ← (smbReadFileWithReconnect rounds fh p.position p.remaining).result with
    | .error e => p.failed e
    | .ok bytes => if bytes = [] then return .inr p.completed else return .inl (p.advance bytes)
  else
    let available := (min ((s.handle fh).filesize - p.position) 8192).toNat
    if available = 0 then return .inr p.completed
    else
      readAheadInvalidate none
      match ← (smbReadFileWithReconnect rounds fh p.position available).result with
      | .error e => p.failed e
      | .ok bytes =>
          if bytes = [] then return .inr p.completed
          else
            modifyReadAhead fun r =>
              { r with fh := some fh, offset := p.position, data := bytes }
            return .inl p

theorem smbReadCached_rounds (rounds fh size : Nat) (position : Int) (allow : Bool) :
    smbReadCached rounds fh size position allow =
      loop rounds (cachedRound rounds fh allow) ⟨position, [], size⟩ := rfl

/-- How many bytes a round asks the server for when the buffer has none. -/
def asked (filesize offset remaining : Nat) (allow : Bool) : Nat :=
  if allow = false ∨ 8192 ≤ remaining then remaining else min (filesize - offset) 8192

theorem asked_covers {filesize offset remaining : Nat} {allow : Bool}
    (h : offset + remaining ≤ filesize) : remaining ≤ asked filesize offset remaining allow := by
  unfold asked
  split
  · exact Nat.le_refl _
  · omega

/-- Nothing remains. -/
theorem cached_done {p : Progress} {allow : Bool} (hp : p.remaining = 0) (left : Nat) :
    (loop (left + 1) (cachedRound rounds fh allow) p).Ends e.respond s fun r _ =>
      r = .ok p.completed := by
  refine ends_loop_succ (ends_get ?_)
  rw [if_pos hp]
  exact Fallible.ends_pure rfl

/-- The buffer has all that remains. -/
theorem cached_buffer {p : Progress} {allow : Bool} {bytes : List UInt8}
    (hcovers : s.host.state.readAhead.covers fh p.position = true) (hpositive : 0 < p.remaining)
    (hbytes : (s.host.state.readAhead.bytesFrom p.position).take p.remaining = bytes)
    (hall : bytes.length = p.remaining) (left : Nat) :
    (loop (left + 2) (cachedRound rounds fh allow) p).Ends e.respond s fun r _ =>
      r = .ok (p.completed ++ bytes) := by
  refine ends_loop_succ (ends_get ?_)
  rw [if_neg (Nat.pos_iff_ne_zero.mp hpositive), if_pos hcovers, hbytes]
  refine Fallible.ends_pure (cached_done (p := p.advance bytes) ?_ left)
  show p.remaining - bytes.length = 0
  omega

/-- Without the buffer. What remains is read at once, or as a part of what fills the
buffer. -/
theorem cached_tail (hserves : e.Serves v N) (hholds : e.Holds contents N)
    (hr : Restorable v s.host) {p : Progress} {offset : Nat} {allow : Bool}
    (hposition : p.position = offset) (hpositive : 0 < p.remaining)
    (hcovers : s.host.state.readAhead.covers fh p.position = false)
    (hsize : offset + p.remaining ≤ (s.host.state.handle fh).filesize) (hrounds : N + 1 < rounds)
    (left : Nat) : (loop (left + 3) (cachedRound rounds fh allow) p).Ends e.respond s fun r _ =>
      r = .ok (p.completed ++
        if offset + asked (s.host.state.handle fh).filesize offset p.remaining allow ≤ contents.length then
          (contents.drop offset).take p.remaining else []) := by
  refine ends_loop_succ (ends_get ?_)
  rw [if_neg (Nat.pos_iff_ne_zero.mp hpositive), hcovers, if_neg Bool.false_ne_true, hposition]
  unfold asked
  split
  · refine Fallible.Ends.result (readFile_ends (s := s.tick s.host) hserves hholds hr hpositive hrounds) ?_
    rintro r s₁ ⟨rfl, h₁⟩
    dsimp only
    unfold fileRead
    split
    · rename_i hinside
      have hlength := take_length hinside
      rw [if_neg (List.ne_nil_of_length_pos (by omega))]
      refine Fallible.ends_pure (cached_done (p := p.advance _) ?_ (left + 1))
      show p.remaining - _ = 0
      omega
    · rw [if_pos rfl, List.append_nil]
      exact Fallible.ends_pure rfl
  · rename_i hahead
    have havailable : (min (((s.host.state.handle fh).filesize : Int) - offset) 8192).toNat =
        min ((s.host.state.handle fh).filesize - offset) 8192 := by omega
    dsimp only
    rw [havailable, if_neg (by omega)]
    refine ends_modify ?_
    have h₀ : Persists v s.host (s.host.modify fun x => { x with readAhead := x.readAhead.invalidate none }) :=
      (joined_state rfl rfl id id).toPersists
    refine Fallible.Ends.result (readFile_ends (s := (s.tick s.host).tick _) hserves hholds
      (hr.persists h₀) (by omega) hrounds) ?_
    rintro r s₁ ⟨rfl, h₁⟩
    dsimp only
    unfold fileRead
    split
    · rename_i hinside
      have hlength := take_length hinside
      rw [if_neg (List.ne_nil_of_length_pos (by omega))]
      refine ends_modify (Fallible.ends_pure (cached_buffer ?_ hpositive ?_ ?_ left))
      · refine decide_eq_true ⟨rfl, ?_, ?_⟩
        · exact Int.le_of_eq hposition.symm
        · rw [hposition]
          show (offset : Int) < offset + (((contents.drop offset).take _).length : Nat)
          omega
      · unfold ReadAhead.bytesFrom
        rw [hposition]
        show (((contents.drop offset).take _).drop ((offset : Int) - offset).toNat).take p.remaining = _
        rw [Int.sub_self, Int.toNat_zero, List.drop_zero, List.take_take, Nat.min_eq_left (by omega)]
      · exact take_length (by omega)
    · rw [if_pos rfl, List.append_nil]
      exact Fallible.ends_pure rfl

/-! ## Exact reads -/

/-- The buffer is empty for this slot, or has bytes of the file. -/
def Mirrors (contents : List UInt8) (fh : Nat) (r : ReadAhead) : Prop :=
  r.fh = some fh → ∃ offset : Nat, r.offset = offset ∧
    r.data = (contents.drop offset).take r.data.length

/-- How many bytes of a read the buffer has. -/
def ReadAhead.serves (r : ReadAhead) (fh position size : Nat) : Nat :=
  if r.covers fh position then min size (r.bytesFrom position).length else 0

/-- The file ends in the middle of a range that the server is asked for. -/
def Cut (contents : List UInt8) (filesize offset remaining : Nat) (allow : Bool) : Prop :=
  0 < remaining ∧ offset < contents.length ∧
    contents.length < offset + asked filesize offset remaining allow

/-- A read that the buffer has a part of. -/
structure Supplied (contents : List UInt8) (r : ReadAhead) (fh position size : Nat) : Prop where
  bytes : (r.bytesFrom position).take size = (contents.drop position).take (r.serves fh position size)
  positive : 0 < r.serves fh position size
  within : r.serves fh position size ≤ size
  inside : position + r.serves fh position size ≤ contents.length
  behind : r.serves fh position size < size →
    r.covers fh (position + r.serves fh position size : Nat) = false

theorem Mirrors.supplied {r : ReadAhead} (h : Mirrors contents fh r) {position size : Nat}
    (hcovers : r.covers fh position = true) (hpositive : 0 < size) :
    Supplied contents r fh position size := by
  obtain ⟨hfh, hlow, hhigh⟩ := of_decide_eq_true hcovers
  obtain ⟨offset, hoffset, hdata⟩ := h hfh
  rw [hoffset] at hlow hhigh
  have hskip : ((position : Int) - offset).toNat = position - offset := by omega
  have hlength : r.data.length = min r.data.length (contents.length - offset) := by
    rw [← List.length_drop, ← List.length_take, ← hdata]
  have hfrom : r.bytesFrom position = (contents.drop position).take (r.data.length - (position - offset)) := by
    unfold ReadAhead.bytesFrom
    rw [hoffset, hskip]
    conv => lhs; rw [hdata]
    rw [List.drop_take, List.drop_drop]
    congr 2
    omega
  have hcount : (r.bytesFrom position).length = r.data.length - (position - offset) := by
    rw [hfrom, take_length (by omega)]
  have hserves : r.serves fh position size = min size (r.data.length - (position - offset)) := by
    unfold ReadAhead.serves
    rw [if_pos hcovers, hcount]
  refine ⟨?_, by omega, by omega, by omega, fun hless => decide_eq_false ?_⟩
  · rw [hserves, hfrom, List.take_take]
  · rintro ⟨-, -, hbelow⟩
    rw [hoffset] at hbelow
    omega

/-- What `smb_ReadCached` returns. -/
def cachedBytes (contents : List UInt8) (filesize : Nat) (r : ReadAhead) (fh position size : Nat)
    (allow : Bool) : List UInt8 :=
  let next := position + r.serves fh position size
  let rest := size - r.serves fh position size
  (contents.drop position).take (r.serves fh position size) ++
    if next + asked filesize next rest allow ≤ contents.length then (contents.drop next).take rest else []

/-- The buffer first, then the server. -/
theorem smbReadCached_ends (hserves : e.Serves v N) (hholds : e.Holds contents N)
    (hr : Restorable v s.host) {position size : Nat} {allow : Bool}
    (hbuffer : Mirrors contents fh s.host.state.readAhead)
    (hsize : position + size ≤ (s.host.state.handle fh).filesize) (hrounds : N + 4 ≤ rounds) :
    (smbReadCached rounds fh size position allow).Ends e.respond s fun r _ =>
      r = .ok (cachedBytes contents (s.host.state.handle fh).filesize s.host.state.readAhead fh
        position size allow) := by
  obtain ⟨left, rfl⟩ : ∃ left, rounds = left + 4 := ⟨rounds - 4, by omega⟩
  rw [smbReadCached_rounds]
  unfold cachedBytes
  dsimp only
  generalize hk : s.host.state.readAhead.serves fh position size = k
  rcases Nat.eq_zero_or_pos size with rfl | hpositive
  · -- Nothing is asked for.
    have hnone : k = 0 := by
      rw [← hk]
      unfold ReadAhead.serves
      split <;> omega
    subst hnone
    refine (cached_done rfl (left + 3)).mono fun r s' h => h.trans ?_
    simp
  cases hcovers : s.host.state.readAhead.covers fh position with
  | false =>
      have hnone : k = 0 := by
        rw [← hk]
        unfold ReadAhead.serves
        rw [hcovers]
        exact if_neg Bool.false_ne_true
      subst hnone
      refine (cached_tail hserves hholds hr (p := ⟨position, [], size⟩) rfl hpositive
        hcovers hsize (by omega) (left + 1)).mono fun r s' h => h.trans ?_
      rw [Nat.add_zero, Nat.sub_zero, List.take_zero]
  | true =>
      have hsupplied := hbuffer.supplied hcovers hpositive
      have hlength := take_length hsupplied.inside
      have hbytes := hsupplied.bytes
      have hwithin := hsupplied.within
      have hbehind := hsupplied.behind
      rw [hk] at hlength hbytes hwithin hbehind
      refine ends_loop_succ (ends_get ?_)
      dsimp only
      rw [if_neg (Nat.pos_iff_ne_zero.mp hpositive), if_pos hcovers, hbytes]
      refine Fallible.ends_pure ?_
      have hadvance : (⟨(position : Int), [], size⟩ : Progress).advance ((contents.drop position).take k) =
          ⟨((position + k : Nat) : Int), (contents.drop position).take k, size - k⟩ := by
        unfold Progress.advance
        dsimp only
        rw [hlength, List.nil_append, Int.natCast_add]
      rw [hadvance]
      rcases Nat.eq_zero_or_pos (size - k) with hrest | hrest
      · refine (cached_done hrest (left + 2)).mono fun r s' h => h.trans ?_
        dsimp only
        rw [hrest, List.take_zero, ite_self, List.append_nil]
      · refine cached_tail (s := s.tick s.host) hserves hholds hr
          (p := ⟨((position + k : Nat) : Int), _, size - k⟩) rfl hrest (hbehind (by omega)) ?_ (by omega) left
        show position + k + (size - k) ≤ (s.host.state.handle fh).filesize
        omega

theorem serves_le (r : ReadAhead) (fh position size : Nat) : r.serves fh position size ≤ size := by
  unfold ReadAhead.serves
  split
  · exact Nat.min_le_left _ _
  · exact Nat.zero_le _

/-- The bytes are exact unless the file ends in the middle of what is asked for. -/
theorem cachedBytes_eq_iff {r : ReadAhead} {filesize position size : Nat} {allow : Bool}
    (hsize : position + size ≤ filesize) :
    cachedBytes contents filesize r fh position size allow = (contents.drop position).take size ↔
      ¬Cut contents filesize (position + r.serves fh position size)
        (size - r.serves fh position size) allow := by
  have hle := serves_le r fh position size
  unfold cachedBytes Cut
  dsimp only
  generalize r.serves fh position size = k at hle
  have hcovers : size - k ≤ asked filesize (position + k) (size - k) allow := asked_covers (by omega)
  have hsplit : (contents.drop position).take size =
      (contents.drop position).take k ++ (contents.drop (position + k)).take (size - k) := by
    rw [← List.drop_drop, ← List.take_add]
    congr 1
    omega
  rw [hsplit, List.append_cancel_left_eq]
  split
  · exact iff_of_true rfl fun h => by omega
  · rename_i hends
    constructor
    · intro hnothing
      have hlength := congrArg List.length hnothing
      rw [List.length_take, List.length_drop, List.length_nil] at hlength
      omega
    · intro hwhole
      symm
      rw [List.take_eq_nil_iff, List.drop_eq_nil_iff]
      omega

/-- On a file with fixed contents a cached read ends, and returns the bytes of the file from
the position on if and only if the file does not end in the middle of what is asked for. -/
theorem cached_read_exact_iff (hserves : e.Serves v N) (hholds : e.Holds contents N)
    (hr : Restorable v s.host) {position size : Nat} {allow : Bool}
    (hbuffer : Mirrors contents fh s.host.state.readAhead)
    (hsize : position + size ≤ (s.host.state.handle fh).filesize) :
    ∃ enough, ∀ rounds, enough ≤ rounds → ∃ bytes s',
      (smbReadCached rounds fh size position allow).run.exec e.respond s = (some (.ok bytes), s') ∧
        (bytes = (contents.drop position).take size ↔
          ¬Cut contents (s.host.state.handle fh).filesize
            (position + s.host.state.readAhead.serves fh position size)
            (size - s.host.state.readAhead.serves fh position size) allow) := by
  refine ⟨N + 4, fun rounds hrounds => ?_⟩
  obtain ⟨r, s', hexec, rfl⟩ := Dialogue.ends_iff.mp
    (smbReadCached_ends hserves hholds hr hbuffer hsize hrounds)
  exact ⟨_, s', hexec, cachedBytes_eq_iff hsize⟩

end Reconnects

/-! ## A file that has become shorter -/

/-- A server that answers reads with all that it has of the range. -/
def Network.file (contents : List UInt8) : Network where
  answer
    | _, .read _ _ _ offset nbytes => .reply { granted with
        read := if contents.length ≤ offset.toNat then .endOfFile
          else .data ((contents.drop offset.toNat).take nbytes) }
    | n, request => (Network.opening statusSuccess).answer n request
  up _ := true

theorem file_serves (contents : List UInt8) :
    (Network.file contents).Serves (.opening statusSuccess) 0 where
  answers n request hrequest := by
    have hopening := (opening_serves statusSuccess).answers n request hrequest
    cases request with
    | read uid tid fid offset nbytes => cases hrequest
    | _ => exact hopening
  connects _ := Or.inl rfl

theorem file_holds (contents : List UInt8) : (Network.file contents).Holds contents 0 := by
  intro n uid tid fid offset nbytes hasked
  refine Or.inl ?_
  by_cases hend : contents.length ≤ offset
  · exact Or.inr ⟨hend, Or.inl (if_pos hend)⟩
  · refine Or.inl ⟨min nbytes (contents.length - offset), by omega, by omega, by omega, ?_⟩
    refine (if_neg hend).trans ?_
    show ReadResult.data ((contents.drop offset).take nbytes) = _
    rw [← List.length_drop, List.take_eq_take_min]

theorem oneOpen_restorable : Restorable (.opening statusSuccess) oneOpen.host :=
  ⟨rfl, oneOpen_accepts _, fun _ => oneOpen_reopens.mpr rfl⟩

/-- Four of the eight bytes that the handle records are left, and they are read. -/
theorem cached_read_exact_four : ∃ enough, ∀ rounds, enough ≤ rounds → ∃ bytes s',
    (smbReadCached rounds 0 4 (0 : Nat) false).run.exec (Network.file [1, 2, 3, 4]).respond oneOpen =
      (some (.ok bytes), s') ∧ (bytes = [1, 2, 3, 4] ↔ ¬Cut [1, 2, 3, 4] 8 0 4 false) :=
  cached_read_exact_iff (file_serves _) (file_holds _) oneOpen_restorable nofun (by decide)

/-- Two bytes in front of the end of the file. The read-ahead asks for all that the handle
records and loses them. -/
theorem read_ahead_loses_bytes :
    ((smbReadCached 4 0 2 (0 : Nat) false).run.exec
        (Network.file [1, 2, 3, 4]).respond oneOpen).1 = some (.ok [1, 2]) ∧
      ((smbReadCached 4 0 2 (0 : Nat) true).run.exec
        (Network.file [1, 2, 3, 4]).respond oneOpen).1 = some (.ok []) := by
  have hread : ∀ allow bytes,
      cachedBytes [1, 2, 3, 4] 8 oneOpen.host.state.readAhead 0 0 2 allow = bytes →
      ((smbReadCached 4 0 2 (0 : Nat) allow).run.exec
        (Network.file [1, 2, 3, 4]).respond oneOpen).1 = some (.ok bytes) := by
    rintro allow _ rfl
    have hends : (smbReadCached 4 0 2 (0 : Nat) allow).Ends (Network.file [1, 2, 3, 4]).respond
        oneOpen fun r _ =>
          r = .ok (cachedBytes [1, 2, 3, 4] 8 oneOpen.host.state.readAhead 0 0 2 allow) :=
      smbReadCached_ends (file_serves _) (file_holds _) oneOpen_restorable nofun (by decide) (by omega)
    obtain ⟨r, s', hexec, rfl⟩ := Dialogue.ends_iff.mp hends
    exact congrArg Prod.fst hexec
  exact ⟨hread false [1, 2] (by decide), hread true [] (by decide)⟩

end BdmAssault.Smb.Driver
