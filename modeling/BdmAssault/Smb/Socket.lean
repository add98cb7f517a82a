import Mathlib.Data.List.Basic
import Mathlib.Tactic.Common

/-! # Receiving from a TCP socket

`lwip_recv` and `lwip_recvsplit` of `sockets.c` over the queue of received
buffers. `lwip_recv` may stop at any buffer boundary, so the number of bytes it
returns depends on how the stream was cut; `lwip_recvsplit` never goes beyond the
first buffer.
-/

namespace BdmAssault.Smb

/-- A received `struct pbuf`. `tot_len` is a 16-bit number. `stop` says that
`lwip_recv` stops behind it, because of `PBUF_FLAG_PUSH` or because nothing else
had arrived. -/
structure Pbuf where
  data : List UInt8
  stop : Bool
  nonempty : data ≠ []
  small : data.length < 65536

structure Sock where
  lastdata : Option Pbuf
  lastoffset : Nat
  recvmbox : List Pbuf

/-- The buffer the next receive looks at, and those behind it. -/
def Sock.next (s : Sock) : Option (Pbuf × List Pbuf) :=
  match s.lastdata, s.recvmbox with
  | some p, rest => some (p, rest)
  | none, p :: rest => some (p, rest)
  | none, [] => none

/-- What is left of a buffer stays for the next call. -/
def Sock.keep (p : Pbuf) (offset : Nat) (rest : List Pbuf) : Sock :=
  if offset < p.data.length then ⟨some p, offset, rest⟩ else ⟨none, 0, rest⟩

/-- The loop of `lwip_recvfrom`, from offset `offset` of the buffer `p` on. -/
def recvLoop (p : Pbuf) (offset len : Nat) (rest : List Pbuf) : List UInt8 × Sock :=
  let copied := (p.data.drop offset).take len
  let len := len - copied.length
  match rest with
  | [] => (copied, Sock.keep p (offset + copied.length) [])
  | q :: qs =>
      if len = 0 ∨ p.stop = true then (copied, Sock.keep p (offset + copied.length) (q :: qs))
      else
        let (more, s) := recvLoop q 0 len qs
        (copied ++ more, s)

/-- `RecvTimeout`; `none` is a time-out, and no bytes come with it. -/
def recvTimeout (s : Sock) (len : Nat) : Option (List UInt8 × Sock) :=
  match s.next with
  | none => none
  | some (p, rest) => some (recvLoop p s.lastoffset len rest)

/-- The loop of `RecvData`: the bytes that arrive before it is complete or times
out. Every round receives at least one byte, so `size` rounds are enough. -/
def recvData : Nat → Nat → Sock → List UInt8 × Sock
  | 0, _, s => ([], s)
  | rounds + 1, remaining, s =>
      if remaining = 0 then ([], s)
      else
        match recvTimeout s remaining with
        | none => ([], s)
        | some (bytes, s) =>
            let (more, s) := recvData rounds (remaining - bytes.length) s
            (bytes ++ more, s)

/-- What `lwip_recvsplit` returns and writes to its two buffers. -/
structure Split where
  consumed : Nat
  header : List UInt8
  payload : List UInt8

/-- Memory that starts with the given bytes. -/
def bytesAt (bytes : List UInt8) (i : Nat) : UInt8 := bytes.getD i 0

/-- The 16-bit little-endian number at `i`. -/
def word16 (b : Nat → UInt8) (i : Nat) : Nat := (b i).toNat + 256 * (b (i + 1)).toNat

/-- The body of `lwip_recvsplit` on the bytes available in the first buffer. No
16-bit sum exceeds `available`. -/
def splitBuffer (index plen : Nat) (bytes : List UInt8) : Split :=
  let available := bytes.length
  if available < 63 then ⟨available, bytes, []⟩
  else
    let header := bytes.take 63
    let dataOffset := word16 (bytesAt header) index + 4
    if 63 ≤ dataOffset ∧ dataOffset ≤ available then
      let payloadLen := min (available - dataOffset) (plen % 65536)
      ⟨dataOffset + payloadLen, header, (bytes.drop dataOffset).take payloadLen⟩
    else ⟨63, header, []⟩

/-- `lwip_recvsplit` with a non-zero `index`; `none` when nothing has arrived. -/
def lwipRecvsplit (s : Sock) (index plen : Nat) : Option (Split × Sock) :=
  match s.next with
  | none => none
  | some (p, rest) =>
      let r := splitBuffer index plen (p.data.drop s.lastoffset)
      some (r, Sock.keep p (s.lastoffset + r.consumed) rest)

/-! ## The stream behind a socket -/

def Sock.bytes (s : Sock) : List UInt8 :=
  (match s.lastdata with
    | none => []
    | some p => p.data.drop s.lastoffset) ++ (s.recvmbox.map Pbuf.data).flatten

structure Sock.Wf (s : Sock) : Prop where
  offset : ∀ p, s.lastdata = some p → s.lastoffset < p.data.length
  start : s.lastdata = none → s.lastoffset = 0

theorem Sock.keep_wf (p : Pbuf) (offset : Nat) (rest : List Pbuf) : (Sock.keep p offset rest).Wf := by
  unfold Sock.keep
  split
  · rename_i h
    refine ⟨fun q hq => ?_, fun hnone => by cases hnone⟩
    cases hq
    exact h
  · refine ⟨fun q hq => ?_, fun _ => rfl⟩
    cases hq

theorem Sock.keep_bytes (p : Pbuf) (offset : Nat) (rest : List Pbuf) :
    (Sock.keep p offset rest).bytes = p.data.drop offset ++ (rest.map Pbuf.data).flatten := by
  unfold Sock.keep
  split
  · rfl
  · rename_i h
    rw [List.drop_of_length_le (by omega)]
    rfl

theorem Sock.next_spec {s : Sock} (h : s.Wf) {p : Pbuf} {rest : List Pbuf}
    (hn : s.next = some (p, rest)) :
    s.lastoffset < p.data.length ∧
      s.bytes = p.data.drop s.lastoffset ++ (rest.map Pbuf.data).flatten := by
  cases hlast : s.lastdata with
  | some q =>
      simp only [Sock.next, hlast, Option.some.injEq, Prod.mk.injEq] at hn
      obtain ⟨rfl, rfl⟩ := hn
      exact ⟨h.offset q hlast, by simp only [Sock.bytes, hlast]⟩
  | none =>
      have hzero := h.start hlast
      cases hbox : s.recvmbox with
      | nil => simp [Sock.next, hlast, hbox] at hn
      | cons q qs =>
          simp only [Sock.next, hlast, hbox, Option.some.injEq, Prod.mk.injEq] at hn
          obtain ⟨rfl, rfl⟩ := hn
          rw [hzero]
          refine ⟨List.length_pos_of_ne_nil q.nonempty, ?_⟩
          simp [Sock.bytes, hlast, hbox]

theorem Sock.next_none {s : Sock} (hn : s.next = none) : s.bytes = [] := by
  cases hlast : s.lastdata with
  | some q => simp [Sock.next, hlast] at hn
  | none =>
      cases hbox : s.recvmbox with
      | nil => simp [Sock.bytes, hlast, hbox]
      | cons q qs => simp [Sock.next, hlast, hbox] at hn

theorem Sock.keep_copied (p : Pbuf) (offset len : Nat) (rest : List Pbuf) :
    (p.data.drop offset).take len ++
        (Sock.keep p (offset + ((p.data.drop offset).take len).length) rest).bytes =
      p.data.drop offset ++ (rest.map Pbuf.data).flatten := by
  rw [Sock.keep_bytes, ← List.append_assoc, ← List.drop_drop]
  congr 1
  rcases Nat.le_total len (p.data.drop offset).length with hle | hle
  · rw [List.length_take_of_le hle, List.take_append_drop]
  · rw [List.take_of_length_le hle, List.drop_length, List.append_nil]

theorem copied_length {p : Pbuf} {offset len : Nat} (hoff : offset < p.data.length)
    (hlen : 0 < len) :
    0 < ((p.data.drop offset).take len).length ∧ ((p.data.drop offset).take len).length ≤ len := by
  rw [List.length_take, List.length_drop]
  omega

/-- However `lwip_recv` stops, what it returns and what is left make up the stream. -/
theorem recvLoop_spec (p : Pbuf) (offset len : Nat) (rest : List Pbuf)
    (hoff : offset < p.data.length) (hlen : 0 < len) :
    (recvLoop p offset len rest).1 ++ (recvLoop p offset len rest).2.bytes =
        p.data.drop offset ++ (rest.map Pbuf.data).flatten ∧
      0 < (recvLoop p offset len rest).1.length ∧ (recvLoop p offset len rest).1.length ≤ len ∧
      (recvLoop p offset len rest).2.Wf := by
  induction rest generalizing p offset len with
  | nil =>
      obtain ⟨hpos, hle⟩ := copied_length hoff hlen
      unfold recvLoop
      exact ⟨Sock.keep_copied p offset len [], hpos, hle, Sock.keep_wf _ _ _⟩
  | cons q qs ih =>
      obtain ⟨hpos, hle⟩ := copied_length hoff hlen
      unfold recvLoop
      dsimp only
      split
      · exact ⟨Sock.keep_copied p offset len (q :: qs), hpos, hle, Sock.keep_wf _ _ _⟩
      · rename_i hmore
        have hleft : 0 < len - ((p.data.drop offset).take len).length := by omega
        have hwhole : (p.data.drop offset).take len = p.data.drop offset := by
          rw [List.length_take] at hleft
          exact List.take_of_length_le (by omega)
        obtain ⟨hbytes, hmorepos, hmorele, hwf⟩ :=
          ih q 0 _ (List.length_pos_of_ne_nil q.nonempty) hleft
        refine ⟨?_, ?_, ?_, hwf⟩
        · rw [List.append_assoc, hbytes, hwhole, List.drop_zero, List.map_cons, List.flatten_cons]
        · rw [List.length_append]
          omega
        · rw [List.length_append]
          omega

/-- `RecvTimeout` takes a non-empty piece off the front of the stream, and times out
only when the stream is at its end. -/
theorem recvTimeout_spec {s : Sock} (h : s.Wf) {len : Nat} (hlen : 0 < len) :
    (recvTimeout s len = none ∧ s.bytes = []) ∨
      ∃ bytes s', recvTimeout s len = some (bytes, s') ∧ bytes ++ s'.bytes = s.bytes ∧
        0 < bytes.length ∧ bytes.length ≤ len ∧ s'.Wf := by
  unfold recvTimeout
  cases hnext : s.next with
  | none => exact Or.inl ⟨rfl, Sock.next_none hnext⟩
  | some pr =>
      obtain ⟨p, rest⟩ := pr
      obtain ⟨hoff, hbytes⟩ := Sock.next_spec h hnext
      obtain ⟨hjoin, hpos, hle, hwf⟩ := recvLoop_spec p s.lastoffset len rest hoff hlen
      exact Or.inr ⟨_, _, rfl, hjoin.trans hbytes.symm, hpos, hle, hwf⟩

/-- `RecvData` reads the next bytes of the stream, wherever the buffers end. -/
theorem recvData_spec (rounds : Nat) :
    ∀ (size : Nat) {s : Sock}, s.Wf → size ≤ rounds →
      (recvData rounds size s).1 = s.bytes.take size ∧
        (recvData rounds size s).2.bytes = s.bytes.drop size ∧ (recvData rounds size s).2.Wf := by
  induction rounds with
  | zero =>
      intro size s h hsize
      obtain rfl : size = 0 := by omega
      exact ⟨rfl, rfl, h⟩
  | succ rounds ih =>
      intro size s h hsize
      unfold recvData
      by_cases hzero : size = 0
      · subst hzero
        exact ⟨rfl, rfl, h⟩
      · rw [if_neg hzero]
        rcases recvTimeout_spec h (Nat.pos_of_ne_zero hzero) with
          ⟨hnone, hempty⟩ | ⟨bytes, s', hsome, hjoin, hpos, hle, hwf⟩
        · simp only [hnone]
          rw [hempty]
          exact ⟨by simp, by simp, h⟩
        · simp only [hsome]
          obtain ⟨hread, hrest, hwf'⟩ := ih (size - bytes.length) hwf (by omega)
          refine ⟨?_, ?_, hwf'⟩
          · rw [hread, ← hjoin, List.take_append, List.take_of_length_le hle]
          · rw [hrest, ← hjoin, List.drop_append, List.drop_of_length_le hle, List.nil_append]

/-! ## The split receive -/

/-- The bytes a split receive sees: those left in the first buffer. -/
def Sock.chunk (s : Sock) : List UInt8 :=
  match s.next with
  | none => []
  | some (p, _) => p.data.drop s.lastoffset

theorem Sock.chunk_spec {s : Sock} (h : s.Wf) (hne : s.bytes ≠ []) :
    0 < s.chunk.length ∧ ∃ rest, s.bytes = s.chunk ++ rest := by
  unfold Sock.chunk
  cases hnext : s.next with
  | none => exact absurd (Sock.next_none hnext) hne
  | some pr =>
      obtain ⟨p, rest⟩ := pr
      obtain ⟨hoff, hbytes⟩ := Sock.next_spec h hnext
      refine ⟨?_, _, hbytes⟩
      dsimp only
      rw [List.length_drop]
      omega

theorem splitBuffer_consumed_le (index plen : Nat) (bytes : List UInt8) :
    (splitBuffer index plen bytes).consumed ≤ bytes.length := by
  unfold splitBuffer
  dsimp only
  split
  · exact Nat.le_refl _
  · split
    · dsimp only
      omega
    · dsimp only
      omega

theorem splitBuffer_header (index plen : Nat) (bytes : List UInt8) :
    (splitBuffer index plen bytes).header = bytes.take 63 := by
  unfold splitBuffer
  dsimp only
  split
  · rw [List.take_of_length_le (by omega)]
  · split
    · rfl
    · rfl

theorem lwipRecvsplit_spec {s : Sock} (h : s.Wf) (hne : s.bytes ≠ []) (index plen : Nat) :
    ∃ s', lwipRecvsplit s index plen = some (splitBuffer index plen s.chunk, s') ∧ s'.Wf ∧
      s'.bytes = s.bytes.drop (splitBuffer index plen s.chunk).consumed := by
  have hle := splitBuffer_consumed_le index plen s.chunk
  unfold lwipRecvsplit
  unfold Sock.chunk at hle ⊢
  cases hnext : s.next with
  | none => exact absurd (Sock.next_none hnext) hne
  | some pr =>
      obtain ⟨p, rest⟩ := pr
      obtain ⟨hoff, hbytes⟩ := Sock.next_spec h hnext
      simp only [hnext] at hle
      refine ⟨_, rfl, Sock.keep_wf _ _ _, ?_⟩
      dsimp only
      rw [Sock.keep_bytes, hbytes, List.drop_append_of_le_length hle, List.drop_drop]

/-- A socket on which the given buffers have arrived. -/
def Sock.received (cut : List Pbuf) : Sock := ⟨none, 0, cut⟩

def stream (cut : List Pbuf) : List UInt8 := (cut.map Pbuf.data).flatten

theorem Sock.received_wf (cut : List Pbuf) : (Sock.received cut).Wf := by
  refine ⟨fun p hp => ?_, fun _ => rfl⟩
  cases hp

theorem Sock.received_bytes (cut : List Pbuf) : (Sock.received cut).bytes = stream cut := rfl

def bytewise (l : List UInt8) : List Pbuf := l.map fun b => ⟨[b], false, by simp, by simp⟩

theorem stream_bytewise (l : List UInt8) : stream (bytewise l) = l := by
  induction l with
  | nil => rfl
  | cons b l ih => exact congrArg (b :: ·) ih

/-- The first `n` bytes in one buffer, then one byte a buffer. -/
def cutAt (n : Nat) (l : List UInt8) (hpos : l.take n ≠ []) (hsmall : n < 65536) : List Pbuf :=
  ⟨l.take n, false, hpos, Nat.lt_of_le_of_lt (List.length_take_le n l) hsmall⟩ :: bytewise (l.drop n)

theorem stream_cutAt (n : Nat) (l : List UInt8) (hpos : l.take n ≠ []) (hsmall : n < 65536) :
    stream (cutAt n l hpos hsmall) = l := by
  calc stream (cutAt n l hpos hsmall) = l.take n ++ stream (bytewise (l.drop n)) := rfl
    _ = l := by rw [stream_bytewise, List.take_append_drop]

end BdmAssault.Smb
