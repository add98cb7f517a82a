import BdmAssault.Smb.Commands
import BdmAssault.Smb.StringField

/-! # The layout of the requests

Each request as its builder in `smb.c` leaves it in `SMB_buf`: the header, the parameter
words, the data block behind them, and the length for the session message.
-/

namespace BdmAssault.Smb

open Codec

/-! ## Strings in memory -/

/-- A string without its terminator. -/
structure Text where
  bytes : List UInt8
  bare : 0 ∉ bytes

/-- Where a caller keeps a string. The memory behind the terminator is known up to three
zero bytes, which end every conversion. -/
structure Memory where
  text : Text
  junk : List UInt8

def Memory.bytes (m : Memory) : List UInt8 := m.text.bytes ++ 0 :: (m.junk ++ [0, 0, 0])

theorem Memory.written (m : Memory) (unicode : Bool) :
    ∃ w, setStringField unicode m.bytes = some w ∧ w.len = w.out.length := by
  unfold setStringField Memory.bytes
  cases unicode with
  | false =>
      refine ⟨_, strcpy_append m.text.bare _, ?_⟩
      rw [List.length_append]
      rfl
  | true =>
      obtain ⟨d, hd⟩ := asciiToUtf16_ends (m.text.bytes ++ 0 :: m.junk)
      rw [List.append_assoc, List.cons_append] at hd
      exact ⟨d.toWritten, congrArg (Option.map _) hd, asciiToUtf16_len _ hd⟩

/-- What `setStringField` writes for the string. -/
def Memory.field (m : Memory) (unicode : Bool) : Written :=
  (setStringField unicode m.bytes).get (by
    obtain ⟨w, hw, -⟩ := m.written unicode
    rw [hw]
    rfl)

theorem Memory.field_of {m : Memory} {unicode : Bool} {w : Written}
    (h : setStringField unicode m.bytes = some w) : m.field unicode = w :=
  Option.some.inj ((Option.some_get _).trans h)

@[simp] theorem Memory.field_len (m : Memory) (unicode : Bool) :
    (m.field unicode).len = (m.field unicode).out.length := by
  obtain ⟨w, hw, hlen⟩ := m.written unicode
  rw [Memory.field_of hw, hlen]

/-- A string of the program, with nothing behind it that matters. -/
def literal (chars : List Char) (bare : 0 ∉ chars.map Char.toUInt8) : Memory :=
  ⟨⟨chars.map Char.toUInt8, bare⟩, []⟩

/-! ## Byte fields -/

/-- What is in `ByteField`, and the `offset` behind it. -/
structure ByteField where
  bytes : List UInt8
  offset : Nat
  exact : bytes.length = offset

namespace ByteField

def start (bytes : List UInt8) : ByteField := ⟨bytes, bytes.length, rfl⟩

def put (f : ByteField) (bytes : List UInt8) : ByteField where
  bytes := f.bytes ++ bytes
  offset := f.offset + bytes.length
  exact := by rw [List.length_append, f.exact]

def putString (f : ByteField) (unicode : Bool) (m : Memory) : ByteField where
  bytes := f.bytes ++ (m.field unicode).out
  offset := f.offset + (m.field unicode).len
  exact := by rw [List.length_append, f.exact, m.field_len]

/-- A zero byte where the condition for it holds. -/
def pad (f : ByteField) (needed : Bool) : ByteField := if needed then f.put [0] else f

/-- The padding of a string behind others. -/
def align (f : ByteField) (unicode : Bool) : ByteField := f.pad (unicode && f.offset % 2 == 1)

end ByteField

/-! ## Passwords -/

/-- What only the requests for a session use of `server_specs`. -/
structure SessionSpecs extends ServerSpecs where
  encrypted : Bool
  maxMpxCount : Nat
  sessionKey : Nat

/-- A password, and the bytes that `LM_Response` makes of it with LM and with NTLM
authentication. -/
structure Password where
  text : Text
  response : Bool → List UInt8
  response_length : ∀ lm, (response lm).length = 24

/-- `Buffer`, its length, and which of the two length fields is set. -/
structure AddedPassword where
  buffer : List UInt8
  passwordlen : Nat
  unicode : Bool
  exact : buffer.length = passwordlen

namespace AddedPassword

def ansiLength (p : AddedPassword) : Nat := if p.unicode then 0 else p.passwordlen

def unicodeLength (p : AddedPassword) : Nat := if p.unicode then p.passwordlen else 0

def nothing : AddedPassword := ⟨[], 0, false, rfl⟩

/-- One zero byte. -/
def empty : AddedPassword := ⟨[0], 1, false, rfl⟩

end AddedPassword

/-- The length of a password in plain text. -/
def plainLength (len : Nat) : Nat := if len > 14 then 14 else if len = 0 then 1 else len

theorem plainLength_le (len : Nat) : plainLength len ≤ len + 1 ∧ plainLength len ≤ 14 := by
  unfold plainLength
  split
  · omega
  · split <;> omega

/-- `none` is no password, or the type `NO_PASSWORD`. -/
def addPassword (specs : SessionSpecs) (password : Option Password) (lm : Bool) : AddedPassword :=
  match password with
  | some p =>
      if specs.encrypted then ⟨p.response lm, 24, !lm, p.response_length lm⟩
      else
        { buffer := (p.text.bytes ++ [0]).take (plainLength p.text.bytes.length)
          passwordlen := plainLength p.text.bytes.length
          unicode := false
          exact := by
            have hle := plainLength_le p.text.bytes.length
            rw [List.length_take, List.length_append]
            exact Nat.min_eq_left hle.1 }
  | none => if specs.userLevel then .nothing else .empty

/-- The password of a log-on. -/
def sessionPassword (specs : SessionSpecs) (password : Option Password) (lm : Bool) : AddedPassword :=
  if specs.userLevel then addPassword specs password lm else .nothing

/-- The password of a share. -/
def treePassword (specs : SessionSpecs) (password : Option Password) (lm : Bool) : AddedPassword :=
  if specs.userLevel then .empty else addPassword specs password lm

/-! ## Packets -/

@[simp] theorem le16_length (n : Nat) : (le16 n).length = 2 := rfl

@[simp] theorem le32_length (n : Nat) : (le32 n).length = 4 := rfl

@[simp] theorem transaction_length (paramCount paramOffset dataOffset : Nat) :
    (transaction paramCount paramOffset dataOffset).length = 28 := by simp [transaction]

/-- What a builder leaves for `GetSMBServerReply`: the fields of the header that are not 0,
the words, the data block, the payload that is sent from elsewhere, and the size for
`nb_SetSessionMessage`. -/
structure Laid where
  cmd : Nat
  flags : Nat := 0
  flags2 : Nat := 0
  tid : Nat := 0
  uid : Nat := 0
  wordCount : UInt8
  words : List UInt8
  words_length : words.length = 2 * wordCount.toNat
  byteCount : Nat
  data : List UInt8
  payload : List UInt8 := []
  session : Nat

namespace Laid

/-- What is behind the header. -/
def body (l : Laid) : List UInt8 :=
  [l.wordCount] ++ l.words ++ le16 l.byteCount ++ l.data

/-- The bytes in `SMB_buf`. -/
def packet (l : Laid) : List UInt8 :=
  sessionHeader l.session ++ smbHeader l.cmd l.flags l.flags2 l.tid l.uid ++ l.body

/-- The bytes that are sent. -/
def message (l : Laid) : List UInt8 := l.packet ++ l.payload

end Laid

def negotiateProtocolRequest : Laid :=
  let dialect := ['N', 'T', ' ', 'L', 'M', ' ', '0', '.', '1', '2'].map Char.toUInt8
  let length := dialect.length
  { cmd := 0x72
    flags := 0x08
    flags2 := 0x4001
    wordCount := 0
    words := []
    words_length := rfl
    byteCount := length + 1 + 1
    data := [2] ++ dialect ++ [0]
    session := 36 + length + 1 }

/-- Behind the password there is a zero byte if it would leave the names unaligned. -/
def passwordField (specs : ServerSpecs) (added : AddedPassword) : ByteField :=
  (ByteField.start added.buffer).pad (specs.unicode && added.passwordlen % 2 == 0)

def nativeOS : Memory :=
  literal ['P', 'l', 'a', 'y', 'S', 't', 'a', 't', 'i', 'o', 'n', ' ', '2'] (by decide)

def nativeLanMan : Memory := literal ['S', 'M', 'B', 'M', 'A', 'N'] (by decide)

def sessionField (specs : ServerSpecs) (user domain : Memory) (added : AddedPassword) : ByteField :=
  passwordField specs added
    |>.putString specs.unicode user
    |>.putString specs.unicode domain
    |>.align specs.unicode
    |>.putString specs.unicode nativeOS
    |>.align specs.unicode
    |>.putString specs.unicode nativeLanMan

/-- Any type of device. -/
def treeField (specs : ServerSpecs) (share : Memory) (added : AddedPassword) : ByteField :=
  passwordField specs added
    |>.putString specs.unicode share
    |>.put (List.replicate 5 (Char.toUInt8 '?') ++ [0])

def sessionSetupAndXRequest (specs : SessionSpecs) (user domain : Memory)
    (password : Option Password) (lm : Bool) (capabilities : Nat) : Laid :=
  let added := sessionPassword specs password lm
  let field := sessionField specs.toServerSpecs user domain added
  { cmd := 0x73
    flags := 0x08
    flags2 := specs.flags2
    wordCount := 13
    words := [0xff, 0] ++ le16 0 ++ le16 8192 ++ le16 (if specs.maxMpxCount ≥ 2 then 2 else
      specs.maxMpxCount) ++ le16 1 ++ le32 specs.sessionKey ++ le16 added.ansiLength ++
      le16 added.unicodeLength ++ le32 0 ++ le32 capabilities
    words_length := by simp
    byteCount := field.offset
    data := field.bytes
    session := 61 + field.offset }

def treeConnectAndXRequest (specs : SessionSpecs) (uid : Nat) (share : Memory)
    (password : Option Password) (lm : Bool) : Laid :=
  let added := treePassword specs password lm
  let field := treeField specs.toServerSpecs share added
  { cmd := 0x75
    flags := 0x08
    flags2 := specs.flags2
    uid := uid
    wordCount := 4
    words := [0xff, 0] ++ le16 0 ++ le16 0 ++ le16 added.passwordlen
    words_length := by simp
    byteCount := field.offset
    data := field.bytes
    session := 43 + field.offset }

def treeDisconnectRequest (uid tid : Nat) : Laid where
  cmd := 0x71
  tid := tid
  uid := uid
  wordCount := 0
  words := []
  words_length := rfl
  byteCount := 0
  data := []
  session := 35

def logOffAndXRequest (uid : Nat) : Laid where
  cmd := 0x74
  uid := uid
  wordCount := 2
  words := [0xff, 0] ++ le16 0
  words_length := by simp
  byteCount := 0
  data := []
  session := 39

/-- The name of the pipe, and the parameters of the call. -/
def netShareName : List UInt8 :=
  ['\\', 'P', 'I', 'P', 'E', '\\', 'L', 'A', 'N', 'M', 'A', 'N'].map Char.toUInt8 ++ [0]

def netShareParameters : List UInt8 :=
  [0, 0] ++ ['W', 'r', 'L', 'e', 'h'].map Char.toUInt8 ++ [0] ++
    ['B', '1', '3', 'B', 'W', 'z'].map Char.toUInt8 ++ [0] ++ [1, 0, 0xa0, 0x1f]

def netShareEnumRequest (uid tid : Nat) : Laid where
  cmd := 0x25
  tid := tid
  uid := uid
  wordCount := 14
  words := le16 19 ++ le16 0 ++ le16 1024 ++ le16 3072 ++ [0, 0] ++ le16 0 ++ le32 0 ++ le16 0 ++
    le16 19 ++ le16 76 ++ le16 0 ++ le16 95 ++ [0, 0]
  words_length := by simp
  byteCount := 32
  data := netShareName ++ netShareParameters
  session := 63 + 32

def queryInformationDiskRequest (uid tid : Nat) : Laid where
  cmd := 0x80
  tid := tid
  uid := uid
  wordCount := 0
  words := []
  words_length := rfl
  byteCount := 0
  data := []
  session := 35

/-- The count of the parameters and the offset of the data have 16 bits. -/
def queryPathInformationRequest (specs : ServerSpecs) (uid tid : Nat) (path : Memory)
    (level : Nat) : Laid :=
  let pathLen := (path.field specs.unicode).len
  let paramCount := (2 + 4 + pathLen) % 65536
  let dataOffset := (68 + paramCount) % 65536
  { cmd := 0x32
    flags := 0x10
    flags2 := specs.flags2
    tid := tid
    uid := uid
    wordCount := 15
    words := transaction paramCount 68 dataOffset ++ le16 5
    words_length := by simp
    byteCount := 3 + paramCount
    data := [0, 0, 0] ++ (le16 level ++ le32 0 ++ (path.field specs.unicode).out)
    session := dataOffset }

/-- A `short`. -/
def short (n : Nat) : Int := if n % 65536 < 32768 then n % 65536 else n % 65536 - 65536

/-- One byte more than the data block is sent. -/
def ntCreateAndXRequest (specs : ServerSpecs) (uid tid : Nat) (filename : Memory)
    (mode : OpenFlags) : Laid :=
  let nameLength := (filename.field specs.unicode).len
  let offset : Int := (if specs.unicode then 1 else 0) + short nameLength
  { cmd := 0xa2
    flags := 0x10
    flags2 := specs.flags2
    tid := tid
    uid := uid
    wordCount := 24
    words := [0xff, 0] ++ le16 0 ++ [0] ++ le16 nameLength ++ le32 0 ++ le32 0 ++
      le32 (if mode.write then 0x2019f else 0x20089) ++ le32 0 ++ le32 0 ++
      le32 (if mode.write then 0x80 else 0x01) ++ le32 1 ++ le32 (ntCreateDisposition mode) ++
      le32 0 ++ le32 2 ++ [3]
    words_length := by simp
    byteCount := (offset % 65536).toNat
    data := paddedName specs (filename.field specs.unicode).out
    session := ((83 + offset + 1) % 4294967296).toNat }

def openAndXRequest (specs : ServerSpecs) (uid tid : Nat) (filename : Memory) (mode : OpenFlags) :
    Laid :=
  let offset := (if specs.unicode then 1 else 0) + (filename.field specs.unicode).len
  { cmd := 0x2d
    flags := 0x10
    flags2 := specs.flags2
    tid := tid
    uid := uid
    wordCount := 15
    words := [0xff, 0] ++ le16 0 ++ le16 0 ++ le16 (if mode.write then 2 else 0) ++ le16 0 ++
      le16 (if mode.write then 0x80 else 0x01) ++ le32 0 ++ le16 (openOptions mode) ++ le32 0 ++
      le32 0 ++ le32 0
    words_length := by simp
    byteCount := offset
    data := paddedName specs (filename.field specs.unicode).out
    session := 65 + offset + 1 }

def readAndXLaid (uid tid fid fileoffset nbytes : Nat) : Laid where
  cmd := 0x2e
  flags2 := 0x4000
  tid := tid
  uid := uid
  wordCount := 12
  words := [0xff, 0] ++ le16 0 ++ le16 fid ++ le32 fileoffset ++ le16 nbytes ++ le16 0 ++
    le16 (nbytes / 65536) ++ le16 0 ++ le16 0 ++ le32 (fileoffset / 4294967296)
  words_length := by simp
  byteCount := 0
  data := []
  session := 59

/-- The padding byte is in `SMB_buf`, the payload in the buffer of the caller. -/
def writeAndXRequest (uid tid fid fileoffset : Nat) (writebuf : List UInt8) : Laid :=
  let nbytes := writebuf.length
  { cmd := 0x2f
    flags2 := 0x4000
    tid := tid
    uid := uid
    wordCount := 14
    words := [0xff, 0] ++ le16 0 ++ le16 fid ++ le32 fileoffset ++ le32 0 ++ le16 1 ++
      le16 nbytes ++ le16 (nbytes / 65536) ++ le16 nbytes ++ le16 64 ++
      le32 (fileoffset / 4294967296)
    words_length := by simp
    byteCount := nbytes % 65536 + 1
    data := [0]
    payload := writebuf
    session := 63 + 1 + nbytes }

def closeRequest (uid tid fid : Nat) : Laid where
  cmd := 0x04
  flags := 0x10
  flags2 := 0x4001
  tid := tid
  uid := uid
  wordCount := 3
  words := le16 fid ++ le32 0
  words_length := by simp
  byteCount := 0
  data := []
  session := 41

def deleteRequest (specs : ServerSpecs) (uid tid : Nat) (path : Memory) : Laid :=
  let pathLen := (path.field specs.unicode).len
  { cmd := 0x06
    flags := 0x10
    flags2 := specs.flags2
    tid := tid
    uid := uid
    wordCount := 1
    words := le16 0
    words_length := by simp
    byteCount := pathLen + 1
    data := [4] ++ (path.field specs.unicode).out
    session := 38 + pathLen }

def manageDirectoryRequest (specs : ServerSpecs) (uid tid : Nat) (path : Memory) (cmd : Nat) :
    Laid :=
  let pathLen := (path.field specs.unicode).len
  { cmd := cmd
    flags := 0x10
    flags2 := specs.flags2
    tid := tid
    uid := uid
    wordCount := 0
    words := []
    words_length := rfl
    byteCount := pathLen + 1
    data := [4] ++ (path.field specs.unicode).out
    session := 36 + pathLen }

def renameRequest (specs : ServerSpecs) (uid tid : Nat) (oldPath newPath : Memory) : Laid :=
  let field := (ByteField.start [4]).putString specs.unicode oldPath
  let field := ((field.put [4]).pad specs.unicode).putString specs.unicode newPath
  { cmd := 0x07
    flags := 0x10
    flags2 := specs.flags2
    tid := tid
    uid := uid
    wordCount := 1
    words := le16 0
    words_length := by simp
    byteCount := field.offset
    data := field.bytes
    session := 37 + field.offset }

/-- A search that is continued has the empty pattern. -/
def findFirstNext2Request (specs : ServerSpecs) (uid tid : Nat) (path : Memory)
    (sid : Option Nat) : Laid :=
  let paramCount := (12 + (path.field specs.unicode).len) % 65536
  { cmd := 0x32
    flags := 0x10
    flags2 := specs.flags2
    tid := tid
    uid := uid
    wordCount := 15
    words := transaction paramCount 68 0 ++ le16 (if sid.isNone then 1 else 2)
    words_length := by simp
    byteCount := 3 + paramCount
    data := [0, 0, 0] ++ findParameters (path.field specs.unicode).out sid
    session := 68 + paramCount }

/-- The `(u16)len` bytes of `echo` that are copied. -/
def echoRequest (echo : List UInt8) : Laid where
  cmd := 0x2b
  wordCount := 1
  words := le16 1
  words_length := by simp
  byteCount := echo.length
  data := echo
  session := 37 + echo.length

/-! ## Counts -/

/-- The two lengths of a packet, with `extra` bytes more in the session message. -/
structure Laid.Counted (l : Laid) (extra : Nat) : Prop where
  bytes : l.byteCount = l.data.length + l.payload.length
  session : l.session = 35 + 2 * l.wordCount.toNat + l.data.length + l.payload.length + extra

section Counts

variable {specs : ServerSpecs} {uid tid : Nat}

theorem paddedName_length (specs : ServerSpecs) (name : List UInt8) :
    (paddedName specs name).length = (if specs.unicode then 1 else 0) + name.length := by
  unfold paddedName
  split <;> simp [Nat.add_comm]

theorem short_of_lt {n : Nat} (h : n < 32768) : short n = n := by
  unfold short
  omega

theorem negotiateProtocol_counted : negotiateProtocolRequest.Counted 0 := ⟨rfl, rfl⟩

theorem sessionSetupAndX_counted (specs : SessionSpecs) (user domain : Memory)
    (password : Option Password) (lm : Bool) (capabilities : Nat) :
    (sessionSetupAndXRequest specs user domain password lm capabilities).Counted 0 := by
  constructor
  · simp [sessionSetupAndXRequest, ByteField.exact]
  · simp [sessionSetupAndXRequest, ByteField.exact]

theorem treeConnectAndX_counted (specs : SessionSpecs) (uid : Nat) (share : Memory)
    (password : Option Password) (lm : Bool) :
    (treeConnectAndXRequest specs uid share password lm).Counted 0 := by
  constructor
  · simp [treeConnectAndXRequest, ByteField.exact]
  · simp [treeConnectAndXRequest, ByteField.exact]

theorem treeDisconnect_counted : (treeDisconnectRequest uid tid).Counted 0 := ⟨rfl, rfl⟩

theorem logOffAndX_counted : (logOffAndXRequest uid).Counted 0 := ⟨rfl, rfl⟩

theorem netShareEnum_counted : (netShareEnumRequest uid tid).Counted 0 := ⟨rfl, rfl⟩

theorem queryInformationDisk_counted : (queryInformationDiskRequest uid tid).Counted 0 := ⟨rfl, rfl⟩

theorem queryPathInformation_counted (path : Memory) (level : Nat)
    (hpath : (path.field specs.unicode).out.length < 65462) :
    (queryPathInformationRequest specs uid tid path level).Counted 0 := by
  constructor
  · simp [queryPathInformationRequest]
    omega
  · simp [queryPathInformationRequest]
    omega

theorem ntCreateAndX_counted (filename : Memory) (mode : OpenFlags)
    (hname : (filename.field specs.unicode).out.length < 32768) :
    (ntCreateAndXRequest specs uid tid filename mode).Counted 1 := by
  have hshort := short_of_lt hname
  have hwords : (24 : UInt8).toNat = 24 := rfl
  constructor
  · simp only [ntCreateAndXRequest, paddedName_length, Memory.field_len, hshort, List.length_nil]
    split <;> omega
  · simp only [ntCreateAndXRequest, paddedName_length, Memory.field_len, hshort, List.length_nil,
      hwords]
    split <;> omega

theorem openAndX_counted (filename : Memory) (mode : OpenFlags) :
    (openAndXRequest specs uid tid filename mode).Counted 1 := by
  constructor
  · simp [openAndXRequest, paddedName_length]
  · simp [openAndXRequest, paddedName_length]

theorem readAndX_counted (fid fileoffset nbytes : Nat) :
    (readAndXLaid uid tid fid fileoffset nbytes).Counted 0 := ⟨rfl, rfl⟩

theorem writeAndX_counted (fid fileoffset : Nat) {writebuf : List UInt8}
    (hsize : writebuf.length < 65536) :
    (writeAndXRequest uid tid fid fileoffset writebuf).Counted 0 := by
  constructor
  · simp [writeAndXRequest]
    omega
  · simp [writeAndXRequest]

theorem close_counted (fid : Nat) : (closeRequest uid tid fid).Counted 0 := ⟨rfl, rfl⟩

theorem delete_counted (path : Memory) : (deleteRequest specs uid tid path).Counted 0 := by
  constructor
  · simp [deleteRequest]
  · simp [deleteRequest]
    omega

theorem manageDirectory_counted (path : Memory) (cmd : Nat) :
    (manageDirectoryRequest specs uid tid path cmd).Counted 0 := by
  constructor
  · simp [manageDirectoryRequest]
  · simp [manageDirectoryRequest]
    omega

theorem rename_counted (oldPath newPath : Memory) :
    (renameRequest specs uid tid oldPath newPath).Counted 0 := by
  constructor
  · simp [renameRequest, ByteField.exact]
  · simp [renameRequest, ByteField.exact]

theorem findParameters_length (path : List UInt8) (sid : Option Nat) :
    (findParameters path sid).length = 12 + path.length := by
  cases sid with
  | none =>
      simp [findParameters]
      omega
  | some sid =>
      simp [findParameters]
      omega

theorem findFirstNext2_counted (path : Memory) (sid : Option Nat)
    (hpath : (path.field specs.unicode).out.length < 65524) :
    (findFirstNext2Request specs uid tid path sid).Counted 0 := by
  constructor
  · simp [findFirstNext2Request, findParameters_length]
    omega
  · simp [findFirstNext2Request, findParameters_length]
    omega

theorem echo_counted (echo : List UInt8) : (echoRequest echo).Counted 0 := by
  constructor
  · simp [echoRequest]
  · simp [echoRequest]

end Counts

/-! ## The functions that send them -/

section Senders

variable {specs : ServerSpecs} {uid tid : Nat}

theorem smbHeader_length (cmd flags flags2 tid uid : Nat) :
    (smbHeader cmd flags flags2 tid uid).length = 32 := rfl

theorem Laid.body_length (l : Laid) : l.body.length = 3 + 2 * l.wordCount.toNat + l.data.length := by
  unfold Laid.body
  rw [List.length_append, List.length_append, List.length_append, l.words_length]
  show 1 + 2 * l.wordCount.toNat + 2 + l.data.length = _
  omega

theorem Laid.Counted.packet {l : Laid} {extra : Nat} (h : l.Counted extra) :
    l.packet = smbPacket (smbHeader l.cmd l.flags l.flags2 l.tid l.uid) l.body
      (l.payload.length + extra) := by
  have hsession : 32 + l.body.length + (l.payload.length + extra) = l.session := by
    rw [h.session, l.body_length]
    omega
  unfold Laid.packet smbPacket
  rw [smbHeader_length, hsession]

theorem smbSessionSetupAndX_eq (specs : SessionSpecs) (user domain : Memory)
    (password : Option Password) (capabilities : Nat) :
    smbSessionSetupAndX specs.toServerSpecs (fun lm =>
      (sessionSetupAndXRequest specs user domain password lm capabilities).body) = (do
    authenticate specs.toServerSpecs fun lm =>
      (sessionSetupAndXRequest specs user domain password lm capabilities).packet
    let c ← get
    return replyUid c.smbBuf) := by
  simp only [(sessionSetupAndX_counted specs user domain password _ capabilities).packet]
  rfl

theorem smbTreeConnectAndX_eq (specs : SessionSpecs) (share : Memory) (password : Option Password) :
    smbTreeConnectAndX specs.toServerSpecs uid (fun lm =>
      (treeConnectAndXRequest specs uid share password lm).body) = (do
    authenticate specs.toServerSpecs fun lm =>
      (treeConnectAndXRequest specs uid share password lm).packet
    let c ← get
    return replyTid c.smbBuf) := by
  simp only [(treeConnectAndX_counted specs uid share password _).packet]
  rfl

theorem smbTreeDisconnect_eq : smbTreeDisconnect uid tid = (do
    request (treeDisconnectRequest uid tid).packet
    successTest) := by
  rw [treeDisconnect_counted.packet]
  rfl

theorem smbLogOffAndX_eq : smbLogOffAndX uid = (do
    request (logOffAndXRequest uid).packet
    successTest) := by
  rw [logOffAndX_counted.packet]
  rfl

theorem queryPacket_eq (path : Memory) (level : Nat)
    (hpath : (path.field specs.unicode).out.length < 65462) :
    queryPacket specs uid tid (path.field specs.unicode).out level =
      (queryPathInformationRequest specs uid tid path level).packet := by
  rw [(queryPathInformation_counted path level hpath).packet]
  have hcount : (6 + (path.field specs.unicode).out.length) % 65536 =
      6 + (path.field specs.unicode).out.length := by omega
  have hoffset : (68 + (6 + (path.field specs.unicode).out.length)) % 65536 =
      68 + (6 + (path.field specs.unicode).out.length) := by omega
  simp [queryPacket, queryPathInformationRequest, Laid.body, hcount, hoffset]

theorem smbNTCreateAndX_eq (filename : Memory) (mode : OpenFlags)
    (hname : (filename.field specs.unicode).out.length < 32768) :
    smbNTCreateAndX specs uid tid (filename.field specs.unicode).out mode = (do
      request (ntCreateAndXRequest specs uid tid filename mode).packet
      accessSwitch
      let c ← get
      return (word16 c.smbBuf 42, word64 c.smbBuf 92)) := by
  have hcounted := @ntCreateAndX_counted specs uid tid filename mode hname
  rw [hcounted.packet, Laid.body, hcounted.bytes]
  simp [smbNTCreateAndX, ntCreateAndXRequest]

theorem smbOpenAndX_eq (filename : Memory) (mode : OpenFlags) (hnt : specs.ntSmbs = false) :
    smbOpenAndX specs uid tid (filename.field specs.unicode).out mode = (do
      request (openAndXRequest specs uid tid filename mode).packet
      accessSwitch
      let c ← get
      let fid := word16 c.smbBuf 41
      match ← (querySize specs uid tid (filename.field specs.unicode).out).call .ok with
      | .ok size => return (fid, size)
      | .error _ => throw (.error .eperm)) := by
  have hcounted := @openAndX_counted specs uid tid filename mode
  rw [hcounted.packet, Laid.body, hcounted.bytes]
  simp only [smbOpenAndX, openAndXRequest, hnt, Bool.false_eq_true, if_false, List.append_assoc,
    List.cons_append, List.nil_append]
  rfl

theorem readAndXRequest_eq (fid fileoffset nbytes : Nat) :
    readAndXRequest uid tid fid fileoffset nbytes =
      (readAndXLaid uid tid fid fileoffset nbytes).packet := by
  simp only [readAndXLaid, Laid.packet, Laid.body]
  unfold readAndXRequest smbHeader
  simp only [List.append_assoc]
  rfl

theorem smbWriteAndX_eq (fid fileoffset : Nat) {writebuf : List UInt8}
    (hsize : writebuf.length < 65536) :
    smbWriteAndX uid tid fid fileoffset writebuf = (do
      requestReturning (writeAndXRequest uid tid fid fileoffset writebuf).packet (some writebuf)
      sessionSwitch
      return writebuf.length) := by
  rw [(@writeAndX_counted uid tid fid fileoffset writebuf hsize).packet]
  rfl

theorem smbClose_eq (fid : Nat) : smbClose uid tid fid = (do
    requestReturning (closeRequest uid tid fid).packet none
    successTest) := by
  rw [(close_counted fid).packet]
  rfl

theorem smbDelete_eq (path : Memory) : smbDelete specs uid tid (path.field specs.unicode).out = (do
    request (deleteRequest specs uid tid path).packet
    successTest) := by
  rw [(delete_counted path).packet]
  simp [smbDelete, deleteRequest, Laid.body]

theorem smbManageDirectory_eq (path : Memory) (cmd : Nat) :
    smbManageDirectory specs uid tid (path.field specs.unicode).out cmd = (do
      request (manageDirectoryRequest specs uid tid path cmd).packet
      accessSwitch) := by
  rw [(manageDirectory_counted path cmd).packet]
  simp [smbManageDirectory, manageDirectoryRequest, Laid.body]

theorem rename_data (oldPath newPath : Memory) : (renameRequest specs uid tid oldPath newPath).data =
    [4] ++ (oldPath.field specs.unicode).out ++ [4] ++
      paddedName specs (newPath.field specs.unicode).out := by
  cases hunicode : specs.unicode <;>
    simp [renameRequest, paddedName, ByteField.pad, ByteField.put, ByteField.putString,
      ByteField.start, hunicode]

theorem smbRename_eq (oldPath newPath : Memory) :
    smbRename specs uid tid (oldPath.field specs.unicode).out (newPath.field specs.unicode).out =
      (do
        request (renameRequest specs uid tid oldPath newPath).packet
        accessSwitch) := by
  have hcounted := @rename_counted specs uid tid oldPath newPath
  rw [hcounted.packet, Laid.body, hcounted.bytes, rename_data]
  simp [smbRename, renameRequest]

theorem smbFindFirstNext2_eq (path : Memory) (sid : Option Nat)
    (hpath : (path.field specs.unicode).out.length < 65524) :
    smbFindFirstNext2 specs uid tid (path.field specs.unicode).out sid = (do
      request (findFirstNext2Request specs uid tid path sid).packet
      accessSwitch
      let c ← get
      Lib.Prog.when (word16 c.smbBuf (findCount c.smbBuf sid) = 0) (throw (.error .einval))
      return searchInformation c.smbBuf sid) := by
  have hcount : (12 + (path.field specs.unicode).out.length) % 65536 =
      12 + (path.field specs.unicode).out.length := by omega
  rw [(findFirstNext2_counted path sid hpath).packet]
  simp [smbFindFirstNext2, findFirstNext2Request, Laid.body, findParameters_length, hcount]

theorem smbEcho_eq (echo : List UInt8) : smbEcho echo = (do
    requestReturning (echoRequest echo).packet none
    sessionSwitch
    let c ← get
    Lib.Prog.when (∃ i < echo.length, c.smbBuf (41 + i) ≠ bytesAt echo i)
      (throw (.error .eio))) := by
  rw [(echo_counted echo).packet]
  simp [smbEcho, echoRequest, Laid.body]

end Senders

end BdmAssault.Smb
