import BdmAssault.Smb.RequestLayout
import BdmAssault.Smb.Receiving

/-! # Well-formed requests

The requests of `smb.c` with their arguments, and how the bytes that are sent are read by the
rules of the protocol: the counts, the data block, and the fields that a length or an offset
points out.
-/

namespace BdmAssault.Smb

open Codec

/-! ## Requests -/

/-- A request with the arguments of its builder; `σ` is the way a string is given. -/
inductive Request (σ : Type) where
  | negotiateProtocol
  | sessionSetupAndX (user domain : σ) (password : Option Password) (lm : Bool)
      (capabilities : Nat)
  | treeConnectAndX (uid : Nat) (share : σ) (password : Option Password) (lm : Bool)
  | treeDisconnect (uid tid : Nat)
  | logOffAndX (uid : Nat)
  | netShareEnum (uid tid : Nat)
  | queryInformationDisk (uid tid : Nat)
  | queryPathInformation (uid tid : Nat) (path : σ) (level : Nat)
  | ntCreateAndX (uid tid : Nat) (filename : σ) (mode : OpenFlags)
  | openAndX (uid tid : Nat) (filename : σ) (mode : OpenFlags)
  | readAndX (uid tid fid fileoffset nbytes : Nat)
  | writeAndX (uid tid fid fileoffset : Nat) (writebuf : List UInt8)
  | close (uid tid fid : Nat)
  | delete (uid tid : Nat) (path : σ)
  | manageDirectory (uid tid : Nat) (path : σ) (cmd : Nat)
  | rename (uid tid : Nat) (oldPath newPath : σ)
  | findFirst2 (uid tid : Nat) (path : σ)
  | findNext2 (uid tid sid : Nat)
  | echo (echo : List UInt8)

namespace Request

variable {σ τ : Type}

def map (f : σ → τ) : Request σ → Request τ
  | negotiateProtocol => negotiateProtocol
  | sessionSetupAndX user domain password lm capabilities =>
      sessionSetupAndX (f user) (f domain) password lm capabilities
  | treeConnectAndX uid share password lm => treeConnectAndX uid (f share) password lm
  | treeDisconnect uid tid => treeDisconnect uid tid
  | logOffAndX uid => logOffAndX uid
  | netShareEnum uid tid => netShareEnum uid tid
  | queryInformationDisk uid tid => queryInformationDisk uid tid
  | queryPathInformation uid tid path level => queryPathInformation uid tid (f path) level
  | ntCreateAndX uid tid filename mode => ntCreateAndX uid tid (f filename) mode
  | openAndX uid tid filename mode => openAndX uid tid (f filename) mode
  | readAndX uid tid fid fileoffset nbytes => readAndX uid tid fid fileoffset nbytes
  | writeAndX uid tid fid fileoffset writebuf => writeAndX uid tid fid fileoffset writebuf
  | close uid tid fid => close uid tid fid
  | delete uid tid path => delete uid tid (f path)
  | manageDirectory uid tid path cmd => manageDirectory uid tid (f path) cmd
  | rename uid tid oldPath newPath => rename uid tid (f oldPath) (f newPath)
  | findFirst2 uid tid path => findFirst2 uid tid (f path)
  | findNext2 uid tid sid => findNext2 uid tid sid
  | echo e => echo e

/-- The strings, each with the longest that its buffer holds: the arrays of the log-on,
`tree_str`, the name in `server_specs` and the paths of `prepare_path`. -/
def strings : Request σ → List (σ × Nat)
  | sessionSetupAndX user domain _ _ _ => [(user, 255), (domain, 63)]
  | treeConnectAndX _ share _ _ => [(share, 273)]
  | queryPathInformation _ _ path _ => [(path, 1023)]
  | ntCreateAndX _ _ filename _ => [(filename, 1023)]
  | openAndX _ _ filename _ => [(filename, 1023)]
  | delete _ _ path => [(path, 1023)]
  | manageDirectory _ _ path _ => [(path, 1023)]
  | rename _ _ oldPath newPath => [(oldPath, 1023), (newPath, 1023)]
  | findFirst2 _ _ path => [(path, 1023)]
  | _ => []

/-- The packet that the builder makes of the request. -/
def laid (specs : SessionSpecs) : Request Memory → Laid
  | negotiateProtocol => negotiateProtocolRequest
  | sessionSetupAndX user domain password lm capabilities =>
      sessionSetupAndXRequest specs user domain password lm capabilities
  | treeConnectAndX uid share password lm => treeConnectAndXRequest specs uid share password lm
  | treeDisconnect uid tid => treeDisconnectRequest uid tid
  | logOffAndX uid => logOffAndXRequest uid
  | netShareEnum uid tid => netShareEnumRequest uid tid
  | queryInformationDisk uid tid => queryInformationDiskRequest uid tid
  | queryPathInformation uid tid path level =>
      queryPathInformationRequest specs.toServerSpecs uid tid path level
  | ntCreateAndX uid tid filename mode =>
      ntCreateAndXRequest specs.toServerSpecs uid tid filename mode
  | openAndX uid tid filename mode => openAndXRequest specs.toServerSpecs uid tid filename mode
  | readAndX uid tid fid fileoffset nbytes => readAndXLaid uid tid fid fileoffset nbytes
  | writeAndX uid tid fid fileoffset writebuf => writeAndXRequest uid tid fid fileoffset writebuf
  | close uid tid fid => closeRequest uid tid fid
  | delete uid tid path => deleteRequest specs.toServerSpecs uid tid path
  | manageDirectory uid tid path cmd =>
      manageDirectoryRequest specs.toServerSpecs uid tid path cmd
  | rename uid tid oldPath newPath =>
      renameRequest specs.toServerSpecs uid tid oldPath newPath
  | findFirst2 uid tid path => findFirstNext2Request specs.toServerSpecs uid tid path none
  | findNext2 uid tid sid =>
      findFirstNext2Request specs.toServerSpecs uid tid (literal [] (by decide)) (some sid)
  | echo e => echoRequest e

/-- The strings fit the buffers of the callers, a write has from 1 to 65535 bytes, and the
length of an echo is a `u16`. -/
structure Passable (r : Request Text) : Prop where
  strings : ∀ p ∈ r.strings, p.1.bytes.length ≤ p.2
  written : ∀ uid tid fid fileoffset writebuf, r = writeAndX uid tid fid fileoffset writebuf →
    1 ≤ writebuf.length ∧ writebuf.length ≤ 65535
  echoed : ∀ e, r = echo e → e.length < 65536

end Request

/-- In Unicode every string ends with a whole sequence, a write has less than 65535 bytes, and
an echo leaves room for its header. -/
structure Request.Encodable (specs : ServerSpecs) (r : Request Text) : Prop where
  complete : specs.unicode = true → ∀ p ∈ r.strings, Complete p.1.bytes
  written : ∀ uid tid fid fileoffset writebuf, r = writeAndX uid tid fid fileoffset writebuf →
    writebuf.length ≠ 65535
  echoed : ∀ e, r = echo e → e.length ≤ 4187

/-! ## Fields -/

/-- The bytes of a message from `pos` on, at most `n`. -/
def slice (message : List UInt8) (pos n : Nat) : List UInt8 := (message.drop pos).take n

/-- A field as its request describes it: where it starts, behind the header of the session
message, its length, and what it is meant to hold. -/
structure Field where
  start : (Nat → UInt8) → Nat
  length : (Nat → UInt8) → Nat
  content : List UInt8

/-- The description locates the content. -/
structure Field.Located (message : List UInt8) (f : Field) : Prop where
  length : f.length (bytesAt message) = f.content.length
  bytes : slice message (4 + f.start (bytesAt message)) f.content.length = f.content
  inside : f.start (bytesAt message) + f.content.length ≤ sessionMessageLength (bytesAt message)

/-- `ParamOffset`, with `TotalParamCount` and `ParamCount`, and `DataOffset` with `DataCount`. -/
def transactionFields (params : List UInt8) : List Field :=
  [⟨fun b => word16 b 57, fun b => word16 b 37, params⟩,
    ⟨fun b => word16 b 57, fun b => word16 b 55, params⟩,
    ⟨fun b => word16 b 61, fun b => word16 b 59, []⟩]

/-- The bytes of a password that each of its lengths counts. -/
def AddedPassword.ansiBytes (p : AddedPassword) : List UInt8 := if p.unicode then [] else p.buffer

def AddedPassword.unicodeBytes (p : AddedPassword) : List UInt8 := if p.unicode then p.buffer else []

/-- What the lengths and offsets of a request describe. -/
def Request.fields (specs : SessionSpecs) : Request Memory → List Field
  | sessionSetupAndX _ _ password lm _ =>
      let added := sessionPassword specs password lm
      [⟨fun _ => 61, fun b => word16 b 51, added.ansiBytes⟩,
        ⟨fun b => 61 + word16 b 51, fun b => word16 b 53, added.unicodeBytes⟩]
  | treeConnectAndX _ _ password lm =>
      [⟨fun _ => 43, fun b => word16 b 43, (treePassword specs password lm).buffer⟩]
  | netShareEnum _ _ => transactionFields netShareParameters
  | queryPathInformation _ _ path level =>
      transactionFields (le16 level ++ le32 0 ++ (path.field specs.unicode).out)
  | ntCreateAndX _ _ filename _ =>
      [⟨fun _ => if specs.unicode then 84 else 83, fun b => word16 b 42,
        (filename.field specs.unicode).out⟩]
  | writeAndX _ _ _ _ writebuf =>
      [⟨fun b => word16 b 59, fun b => word16 b 57 + 65536 * word16 b 55, writebuf⟩]
  | findFirst2 _ _ path =>
      transactionFields (findParameters (path.field specs.unicode).out none)
  | findNext2 _ _ sid => transactionFields
      (findParameters ((literal [] (by decide)).field specs.unicode).out (some sid))
  | _ => []

/-! ## Well-formed packets -/

/-- What holds of the bytes that are sent. The buffer holds all of them but the payload; the
words, the count of the data block and the block stand where `WordCount` and `ByteCount` say,
inside the session message. -/
structure Laid.WellFormed (l : Laid) (fields : List Field) : Prop where
  built : l.packet.length ≤ 4 + smbBufSize
  sent : l.session ≤ smbBufSize + l.payload.length
  words : slice l.message 37 (2 * (bytesAt l.message 36).toNat) = l.words
  byteCount : word16 (bytesAt l.message) (37 + 2 * (bytesAt l.message 36).toNat) =
    (l.data ++ l.payload).length
  block : slice l.message (39 + 2 * (bytesAt l.message 36).toNat)
    (word16 (bytesAt l.message) (37 + 2 * (bytesAt l.message 36).toNat)) = l.data ++ l.payload
  inside : 35 + 2 * (bytesAt l.message 36).toNat +
    word16 (bytesAt l.message) (37 + 2 * (bytesAt l.message 36).toNat) ≤
      sessionMessageLength (bytesAt l.message)
  located : ∀ f ∈ fields, f.Located l.message

section Reading

variable {l : Laid}

theorem slice_append (pre rest : List UInt8) (k n : Nat) :
    slice (pre ++ rest) (pre.length + k) n = slice rest k n := by
  unfold slice
  rw [List.drop_append, List.drop_of_length_le (Nat.le_add_right _ _), Nat.add_sub_cancel_left,
    List.nil_append]

theorem slice_all {content rest : List UInt8} {n : Nat} (h : n = content.length) :
    slice (content ++ rest) 0 n = content := by
  subst h
  exact List.take_left

theorem word16_le16 (n : Nat) :
    (UInt8.ofNat n).toNat + 256 * (UInt8.ofNat (n / 256)).toNat = n % 65536 := by
  rw [UInt8.toNat_ofNat', UInt8.toNat_ofNat']
  omega

/-- The bytes up to `WordCount`. -/
def Laid.front (l : Laid) : List UInt8 :=
  sessionHeader l.session ++ smbHeader l.cmd l.flags l.flags2 l.tid l.uid ++ [l.wordCount]

theorem Laid.front_length (l : Laid) : l.front.length = 37 := by
  unfold Laid.front
  rw [List.length_append, List.length_append, smbHeader_length]
  rfl

theorem Laid.message_eq (l : Laid) : l.message =
    l.front ++ (l.words ++ (le16 l.byteCount ++ (l.data ++ l.payload))) := by
  unfold Laid.message Laid.packet Laid.body Laid.front
  simp only [List.append_assoc]

theorem Laid.message_words (l : Laid) (k n : Nat) : slice l.message (37 + k) n =
    slice (l.words ++ (le16 l.byteCount ++ (l.data ++ l.payload))) k n := by
  rw [l.message_eq, ← l.front_length, slice_append]

theorem Laid.message_byte (l : Laid) (i : Nat) : bytesAt l.message (37 + i) =
    bytesAt (l.words ++ (le16 l.byteCount ++ (l.data ++ l.payload))) i := by
  rw [l.message_eq, ← l.front_length, bytesAt_append_right]

/-- The data block is behind the words and its count. -/
theorem Laid.message_data (l : Laid) (k n : Nat) :
    slice l.message (39 + 2 * l.wordCount.toNat + k) n = slice (l.data ++ l.payload) k n := by
  rw [show 39 + 2 * l.wordCount.toNat + k = 37 + (l.words.length + (2 + k)) by
    rw [l.words_length]
    omega]
  rw [l.message_words, slice_append]
  exact slice_append (le16 l.byteCount) _ k n

theorem Laid.message_byteCount (l : Laid) :
    word16 (bytesAt l.message) (37 + 2 * l.wordCount.toNat) = l.byteCount % 65536 := by
  have hbyte : ∀ i, bytesAt l.message (37 + 2 * l.wordCount.toNat + i) =
      bytesAt (le16 l.byteCount ++ (l.data ++ l.payload)) i := by
    intro i
    rw [← l.words_length, Nat.add_assoc, l.message_byte, bytesAt_append_right]
  unfold word16
  rw [← Nat.add_zero (37 + 2 * l.wordCount.toNat), hbyte 0, hbyte 1]
  exact word16_le16 _

/-- A number among the words, `i` bytes behind their count. -/
theorem Laid.message_word (l : Laid) {i : Nat} (h : i + 1 < l.words.length) :
    word16 (bytesAt l.message) (37 + i) = word16 (bytesAt l.words) i := by
  have hbyte : ∀ j, j < l.words.length → bytesAt l.message (37 + j) = bytesAt l.words j := by
    intro j hj
    rw [l.message_byte, bytesAt_append hj]
  unfold word16
  rw [hbyte i (by omega), Nat.add_assoc, hbyte (i + 1) h]

theorem Laid.message_session (l : Laid) (h : l.session < 16777216) :
    sessionMessageLength (bytesAt l.message) = l.session := by
  show (UInt8.ofNat (l.session / 65536)).toNat * 65536 +
    (UInt8.ofNat (l.session / 256)).toNat * 256 + (UInt8.ofNat l.session).toNat = l.session
  rw [UInt8.toNat_ofNat', UInt8.toNat_ofNat', UInt8.toNat_ofNat']
  omega

theorem Laid.packet_length (l : Laid) :
    l.packet.length = 39 + 2 * l.wordCount.toNat + l.data.length := by
  unfold Laid.packet
  rw [List.length_append, List.length_append, smbHeader_length, l.body_length]
  show 4 + 32 + (3 + 2 * l.wordCount.toNat + l.data.length) = _
  omega

theorem Laid.message_wordCount (l : Laid) : bytesAt l.message 36 = l.wordCount := by
  have hfront : bytesAt l.front 36 = l.wordCount := rfl
  rw [l.message_eq, bytesAt_append (by rw [l.front_length]; decide), hfront]

/-- What the count says of a packet that is well formed. -/
theorem Laid.WellFormed.count {fields : List Field} (h : l.WellFormed fields) :
    l.byteCount % 65536 = l.data.length + l.payload.length := by
  have hcount := h.byteCount
  rwa [l.message_wordCount, l.message_byteCount, List.length_append] at hcount

/-- Where the two lengths are right, and small enough for their fields, the packet is
well formed if its fields are. -/
theorem Laid.Counted.wellFormed {extra : Nat} {fields : List Field} (h : l.Counted extra)
    (hbytes : l.data.length + l.payload.length < 65536)
    (hbuilt : 35 + 2 * l.wordCount.toNat + l.data.length + extra ≤ smbBufSize)
    (hfields : ∀ f ∈ fields, f.Located l.message) : l.WellFormed fields := by
  have hcount : (bytesAt l.message 36).toNat = l.wordCount.toNat := by rw [l.message_wordCount]
  have hbyteCount : word16 (bytesAt l.message) (37 + 2 * l.wordCount.toNat) =
      (l.data ++ l.payload).length := by
    rw [l.message_byteCount, h.bytes, Nat.mod_eq_of_lt hbytes, List.length_append]
  have hsession := h.session
  have hsize : smbBufSize = 4224 := rfl
  constructor
  · rw [l.packet_length]
    omega
  · omega
  · rw [hcount]
    exact (l.message_words 0 _).trans (slice_all l.words_length.symm)
  · rw [hcount]
    exact hbyteCount
  · rw [hcount, hbyteCount]
    have hall := l.message_data 0 (l.data ++ l.payload).length
    rw [Nat.add_zero] at hall
    rw [hall]
    exact List.take_length
  · rw [hcount, hbyteCount, l.message_session (by omega), List.length_append]
    omega
  · exact hfields

/-- What is all in the buffer is small enough. -/
theorem Laid.Counted.wellFormed_of_built {extra : Nat} {fields : List Field} (h : l.Counted extra)
    (hpayload : l.payload = []) (hbuilt : 35 + 2 * l.wordCount.toNat + l.data.length + extra ≤ smbBufSize)
    (hfields : ∀ f ∈ fields, f.Located l.message) : l.WellFormed fields := by
  have hsize : smbBufSize = 4224 := rfl
  refine h.wellFormed ?_ hbuilt hfields
  rw [hpayload, List.length_nil]
  omega

section Located

variable {extra : Nat} {f : Field}

/-- A field in the data block, behind `p`. -/
theorem Laid.Counted.located (h : l.Counted extra) (hsmall : l.session < 16777216)
    {p q : List UInt8} (hdata : l.data ++ l.payload = p ++ (f.content ++ q))
    (hstart : f.start (bytesAt l.message) = 35 + 2 * l.wordCount.toNat + p.length)
    (hlength : f.length (bytesAt l.message) = f.content.length) : f.Located l.message := by
  have htotal := congrArg List.length hdata
  rw [List.length_append, List.length_append, List.length_append] at htotal
  refine ⟨hlength, ?_, ?_⟩
  · rw [hstart, show 4 + (35 + 2 * l.wordCount.toNat + p.length) =
      39 + 2 * l.wordCount.toNat + p.length by omega, l.message_data, hdata]
    exact (slice_append p _ 0 _).trans (slice_all rfl)
  · rw [hstart, l.message_session hsmall, h.session]
    omega

/-- A field without content can be anywhere in the message. -/
theorem located_empty {message : List UInt8} (hcontent : f.content = [])
    (hlength : f.length (bytesAt message) = 0)
    (hin : f.start (bytesAt message) ≤ sessionMessageLength (bytesAt message)) :
    f.Located message := by
  constructor
  · rw [hlength, hcontent]
    rfl
  · rw [hcontent]
    exact List.take_zero
  · rw [hcontent]
    exact hin

end Located

end Reading

theorem Memory.field_le {m : Memory} {unicode : Bool}
    (h : unicode = true → Complete m.text.bytes) :
    (m.field unicode).out.length ≤ 2 * m.text.bytes.length + 2 := by
  cases unicode with
  | false =>
      rw [@Memory.field_of m false _ (strcpy_append m.text.bare _), List.length_append]
      show m.text.bytes.length + 1 ≤ _
      omega
  | true =>
      obtain ⟨d, hd, hpin, -⟩ := confined_of_complete (m.junk ++ [0, 0, 0]) m.text.bare (h rfl)
      have hle := asciiToUtf16_out_le _ hd
      rw [hpin] at hle
      rw [@Memory.field_of m true d.toWritten (congrArg (Option.map _) hd)]
      exact hle

/-! ## Transactions -/

/-- What the words of a transaction say of its parameters and its data. -/
structure Describes (message : List UInt8) (count offset dataOffset : Nat) : Prop where
  total : word16 (bytesAt message) 37 = count
  count : word16 (bytesAt message) 55 = count
  offset : word16 (bytesAt message) 57 = offset
  dataCount : word16 (bytesAt message) 59 = 0
  dataOffset : word16 (bytesAt message) 61 = dataOffset

section Transactions

variable {l : Laid} {extra count offset dataOffset : Nat}

theorem Laid.describes {tail : List UInt8}
    (hwords : l.words = transaction count offset dataOffset ++ tail) (hcount : count < 65536)
    (hoffset : offset < 65536) (hdata : dataOffset < 65536) :
    Describes l.message count offset dataOffset := by
  have hlength : 28 ≤ l.words.length := by
    rw [hwords, List.length_append, transaction_length]
    exact Nat.le_add_right _ _
  have hword : ∀ i, i + 1 < 28 → word16 (bytesAt l.message) (37 + i) =
      word16 (bytesAt (transaction count offset dataOffset)) i := by
    intro i hi
    have hi' : i + 1 < (transaction count offset dataOffset).length := by
      rwa [transaction_length]
    rw [l.message_word (by omega), hwords]
    unfold word16
    rw [bytesAt_append (by omega), bytesAt_append hi']
  constructor
  · rw [hword 0 (by decide)]
    simp [transaction, word16, bytesAt, le16]
    omega
  · rw [hword 18 (by decide)]
    simp [transaction, word16, bytesAt, le16, le32]
    omega
  · rw [hword 20 (by decide)]
    simp [transaction, word16, bytesAt, le16, le32]
    omega
  · rw [hword 22 (by decide)]
    simp [transaction, word16, bytesAt, le16, le32]
  · rw [hword 24 (by decide)]
    simp [transaction, word16, bytesAt, le16, le32]
    omega

/-- The parameters are the rest of the data block, and there are no data. -/
theorem Laid.Counted.transaction {p params : List UInt8} (h : l.Counted extra)
    (hsmall : l.session < 16777216)
    (hd : Describes l.message params.length (35 + 2 * l.wordCount.toNat + p.length) dataOffset)
    (hdata : l.data ++ l.payload = p ++ params) (hin : dataOffset ≤ l.session) :
    ∀ f ∈ transactionFields params, f.Located l.message := by
  have hparams : l.data ++ l.payload = p ++ (params ++ []) := by rw [hdata, List.append_nil]
  intro f hf
  obtain rfl | rfl | rfl : f = _ ∨ f = _ ∨ f = _ := by simpa [transactionFields] using hf
  · exact h.located hsmall hparams hd.offset hd.total
  · exact h.located hsmall hparams hd.offset hd.count
  · refine located_empty rfl hd.dataCount ?_
    rw [l.message_session hsmall]
    exact Nat.le_trans (Nat.le_of_eq hd.dataOffset) hin

end Transactions

end BdmAssault.Smb
