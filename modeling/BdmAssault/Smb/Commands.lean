import BdmAssault.Smb.ServerReply

/-! # The request functions

The functions of `smb.c` that go through `GetSMBServerReply`, over the bytes of
`SMB_buf`. The request and the reply share the buffer. Strings are given the way
`setStringField` writes them, and passwords the way `AddPassword` does; the zeros that
`ZERO_PKT_ALIGNED` leaves behind a packet are not modelled.
-/

namespace BdmAssault.Smb

open Lib

/-! ## Packets -/

/-- What the functions read of `server_specs`. -/
structure ServerSpecs where
  unicode : Bool
  userLevel : Bool
  ntSmbs : Bool

/-- `SMB_FLAGS2_KNOWS_LONG_NAMES | SMB_FLAGS2_32BIT_STATUS`, and the flag for Unicode. -/
def ServerSpecs.flags2 (specs : ServerSpecs) : Nat := if specs.unicode then 0xc001 else 0x4001

/-- `SMBHeader_t` with the error code, the process and the multiplex number 0. -/
def smbHeader (cmd flags flags2 tid uid : Nat) : List UInt8 :=
  le32 smbMagicNumber ++ [UInt8.ofNat cmd] ++ le16 0 ++ le16 0 ++ [UInt8.ofNat flags] ++
    le16 flags2 ++ List.replicate 12 0 ++ le16 tid ++ le16 0 ++ le16 uid ++ le16 0

/-- A header and what is behind it; `extra` bytes more are sent than were written. -/
def smbPacket (header rest : List UInt8) (extra : Nat) : List UInt8 :=
  sessionHeader (header.length + rest.length + extra) ++ header ++ rest

/-- `SMBTransactionRequest_t` without data. -/
def transaction (paramCount paramOffset dataOffset : Nat) : List UInt8 :=
  le16 paramCount ++ le16 0 ++ le16 256 ++ le16 3840 ++ [0, 0] ++ le16 0 ++ le32 0 ++ le16 0 ++
    le16 paramCount ++ le16 paramOffset ++ le16 0 ++ le16 dataOffset ++ [1, 0]

/-! ## The reply -/

def word64 (b : Nat → UInt8) (i : Nat) : Nat := word32 b i + 4294967296 * word32 b (i + 4)

def replyTid (b : Nat → UInt8) : Nat := word16 b 28

def replyUid (b : Nat → UInt8) : Nat := word16 b 32

/-- `smbTrans.ParamOffset` -/
def paramOffset (b : Nat → UInt8) : Nat := word16 b 45

/-- `smbTrans.DataOffset` -/
def transDataOffset (b : Nat → UInt8) : Nat := word16 b 51

/-- The request in `SMB_buf` and the packet that came back: the result of
`GetSMBServerReply`. -/
def ask (packet : List UInt8) (payload : Option (List UInt8)) : Fn Ret :=
  (getSMBServerReply packet payload).call .ok

def checkMagic : Fn Unit := do
  let c ← get
  Prog.when (smbMagic c.smbBuf ≠ smbMagicNumber) (throw (.error .eio))

/-- `if (r <= 0) return -EIO;` and the test of the magic number. -/
def request (packet : List UInt8) : Fn Unit := do
  match ← ask packet none with
  | .error _ => throw (.error .eio)
  | .ok r =>
      Prog.when (r = 0) (throw (.error .eio))
      checkMagic

/-- The functions that return a result `r <= 0` as it is. -/
def requestReturning (packet : List UInt8) (payload : Option (List UInt8)) : Fn Unit := do
  match ← ask packet payload with
  | .error e => throw (.error e)
  | .ok r =>
      Prog.when (r = 0) (throw (.ok 0))
      checkMagic

/-- The status test without a case of its own for a denied access. -/
def successTest : Fn Unit := do
  let c ← get
  Prog.when (smbStatus c.smbBuf ≠ statusSuccess) (throw (.error .eio))

/-- The status switch of most functions. -/
def accessSwitch : Fn Unit := do
  let c ← get
  Prog.when (smbStatus c.smbBuf = statusAccessDenied) (throw (.error .eacces))
  successTest

/-- The status switch of the functions that tell a lost session apart. -/
def sessionSwitch : Fn Unit := do
  let c ← get
  Prog.when (sessionLost (smbStatus c.smbBuf)) (throw (.error .enotconn))
  successTest

/-! ## Logging on -/

/-- The switch of the log-on functions: a failure on a server with user level security
is tried once more, with LM authentication. -/
def authenticate (specs : ServerSpecs) (packet : Bool → List UInt8) : Fn Unit := do
  request (packet false)
  let c ← get
  if smbStatus c.smbBuf = statusLogonFailure then
    Prog.when (specs.userLevel = false) (throw (.error .eacces))
    request (packet true)
    let c ← get
    Prog.when (smbStatus c.smbBuf = statusLogonFailure) (throw (.error .eacces))
    successTest
  else successTest

/-- `rest` is what is behind the header, with NTLM and with LM authentication. -/
def smbSessionSetupAndX (specs : ServerSpecs) (rest : Bool → List UInt8) : Fn Nat := do
  authenticate specs fun lm => smbPacket (smbHeader 0x73 0x08 specs.flags2 0 0) (rest lm) 0
  let c ← get
  return replyUid c.smbBuf

def smbTreeConnectAndX (specs : ServerSpecs) (uid : Nat) (rest : Bool → List UInt8) : Fn Nat := do
  authenticate specs fun lm => smbPacket (smbHeader 0x75 0x08 specs.flags2 0 uid) (rest lm) 0
  let c ← get
  return replyTid c.smbBuf

def smbTreeDisconnect (uid tid : Nat) : Fn Unit := do
  request (smbPacket (smbHeader 0x71 0 0 tid uid) ([0] ++ le16 0) 0)
  successTest

def smbLogOffAndX (uid : Nat) : Fn Unit := do
  request (smbPacket (smbHeader 0x74 0 0 0 uid) ([2, 0xff, 0] ++ le16 0 ++ le16 0) 0)
  successTest

/-! ## Files -/

/-- The fields of `PathInformation_t` that a reply gives. -/
structure BasicInformation where
  created : Nat
  lastAccess : Nat
  lastWrite : Nat
  change : Nat
  fileAttributes : Nat

structure StandardInformation where
  allocationSize : Nat
  endOfFile : Nat
  linkCount : Nat
  deletePending : Nat
  isDirectory : Nat

/-- A query at the given level of interest. -/
def queryPacket (specs : ServerSpecs) (uid tid : Nat) (path : List UInt8) (level : Nat) : List UInt8 :=
  let paramCount := 2 + 4 + path.length
  smbPacket (smbHeader 0x32 0x10 specs.flags2 tid uid)
    ([15] ++ transaction paramCount 68 (68 + paramCount) ++ le16 5 ++ le16 (3 + paramCount) ++
      [0, 0, 0] ++ le16 level ++ le32 0 ++ path) 0

/-- `BasicFileInfo_t` at the data offset. -/
def basicInformation (b : Nat → UInt8) : BasicInformation :=
  let at_ := transDataOffset b + 4
  ⟨word64 b at_, word64 b (at_ + 8), word64 b (at_ + 16), word64 b (at_ + 24), word32 b (at_ + 32)⟩

/-- `StandardFileInfo_t` at the data offset. -/
def standardInformation (b : Nat → UInt8) : StandardInformation :=
  let at_ := transDataOffset b + 4
  ⟨word64 b at_, word64 b (at_ + 8), word32 b (at_ + 16), (b (at_ + 20)).toNat,
    (b (at_ + 21)).toNat⟩

/-- A second query with `SMB_QUERY_FILE_STANDARD_INFO` gets the 64-bit size. -/
def smbQueryPathInformation (specs : ServerSpecs) (uid tid : Nat) (path : List UInt8) :
    Fn (BasicInformation × StandardInformation) := do
  request (queryPacket specs uid tid path 0x101)
  accessSwitch
  let c ← get
  let basic := basicInformation c.smbBuf
  request (queryPacket specs uid tid path 0x102)
  accessSwitch
  let c ← get
  return (basic, standardInformation c.smbBuf)

/-- What `smb_OpenAndX` takes from the query. -/
def querySize (specs : ServerSpecs) (uid tid : Nat) (path : List UInt8) : Fn Nat := do
  let (_, info) ← smbQueryPathInformation specs uid tid path
  return info.endOfFile

/-- The flags of the mode word that the open functions look at. -/
structure OpenFlags where
  write : Bool
  creat : Bool
  trunc : Bool

/-- `filename` with the padding byte for Unicode. -/
def paddedName (specs : ServerSpecs) (filename : List UInt8) : List UInt8 :=
  (if specs.unicode then [0] else []) ++ filename

def ntCreateDisposition (mode : OpenFlags) : Nat :=
  let d := (if mode.creat then 2 else 0) + if mode.trunc then 4 else 1
  if d = 6 then 5 else d

/-- The file identifier and the size. -/
def smbNTCreateAndX (specs : ServerSpecs) (uid tid : Nat) (filename : List UInt8)
    (mode : OpenFlags) : Fn (Nat × Nat) := do
  let name := paddedName specs filename
  request (smbPacket (smbHeader 0xa2 0x10 specs.flags2 tid uid)
    ([24, 0xff, 0] ++ le16 0 ++ [0] ++ le16 filename.length ++ le32 0 ++ le32 0 ++
      le32 (if mode.write then 0x2019f else 0x20089) ++ le32 0 ++ le32 0 ++
      le32 (if mode.write then 0x80 else 0x01) ++ le32 1 ++ le32 (ntCreateDisposition mode) ++
      le32 0 ++ le32 2 ++ [3] ++ le16 name.length ++ name) 1)
  accessSwitch
  let c ← get
  return (word16 c.smbBuf 42, word64 c.smbBuf 92)

def openOptions (mode : OpenFlags) : Nat :=
  (if mode.creat then 0x10 else 0) + if mode.trunc then 0x02 else 0x01

/-- An `-1` stands for every failure of the query for the size. -/
def smbOpenAndX (specs : ServerSpecs) (uid tid : Nat) (filename : List UInt8) (mode : OpenFlags) :
    Fn (Nat × Nat) :=
  if specs.ntSmbs then smbNTCreateAndX specs uid tid filename mode
  else do
    let name := paddedName specs filename
    request (smbPacket (smbHeader 0x2d 0x10 specs.flags2 tid uid)
      ([15, 0xff, 0] ++ le16 0 ++ le16 0 ++ le16 (if mode.write then 2 else 0) ++ le16 0 ++
        le16 (if mode.write then 0x80 else 0x01) ++ le32 0 ++ le16 (openOptions mode) ++ le32 0 ++
        le32 0 ++ le32 0 ++ le16 name.length ++ name) 1)
    accessSwitch
    let c ← get
    let fid := word16 c.smbBuf 41
    match ← (querySize specs uid tid filename).call .ok with
    | .ok size => return (fid, size)
    | .error _ => throw (.error .eperm)

def smbWriteAndX (uid tid fid fileoffset : Nat) (writebuf : List UInt8) : Fn Nat := do
  let nbytes := writebuf.length
  requestReturning (smbPacket (smbHeader 0x2f 0 0x4000 tid uid)
    ([14, 0xff, 0] ++ le16 0 ++ le16 fid ++ le32 fileoffset ++ le32 0 ++ le16 1 ++ le16 nbytes ++
      le16 (nbytes / 65536) ++ le16 nbytes ++ le16 64 ++ le32 (fileoffset / 4294967296) ++
      le16 (nbytes % 65536 + 1) ++ [0]) nbytes) (some writebuf)
  sessionSwitch
  return nbytes

def smbClose (uid tid fid : Nat) : Fn Unit := do
  requestReturning (smbPacket (smbHeader 0x04 0x10 0x4001 tid uid)
    ([3] ++ le16 fid ++ le32 0 ++ le16 0) 0) none
  successTest

def smbDelete (specs : ServerSpecs) (uid tid : Nat) (path : List UInt8) : Fn Unit := do
  request (smbPacket (smbHeader 0x06 0x10 specs.flags2 tid uid)
    ([1] ++ le16 0 ++ le16 (path.length + 1) ++ [4] ++ path) 0)
  successTest

/-- `cmd` is `SMB_COM_CREATE_DIRECTORY` or `SMB_COM_DELETE_DIRECTORY`. -/
def smbManageDirectory (specs : ServerSpecs) (uid tid : Nat) (path : List UInt8) (cmd : Nat) :
    Fn Unit := do
  request (smbPacket (smbHeader cmd 0x10 specs.flags2 tid uid)
    ([0] ++ le16 (path.length + 1) ++ [4] ++ path) 0)
  accessSwitch

def smbRename (specs : ServerSpecs) (uid tid : Nat) (oldPath newPath : List UInt8) : Fn Unit := do
  let names := [4] ++ oldPath ++ [4] ++ paddedName specs newPath
  request (smbPacket (smbHeader 0x07 0x10 specs.flags2 tid uid)
    ([1] ++ le16 0 ++ le16 names.length ++ names) 0)
  accessSwitch

/-! ## Searches and the echo -/

structure SearchInformation where
  sid : Nat
  eos : Nat
  basic : BasicInformation
  allocationSize : Nat
  endOfFile : Nat

/-- The parameters of a search: to begin one, or to continue the one with this
identifier. -/
def findParameters (path : List UInt8) : Option Nat → List UInt8
  | none => le16 0x37 ++ le16 1 ++ le16 6 ++ le16 0x104 ++ le32 0 ++ path
  | some sid => le16 sid ++ le16 1 ++ le16 0x104 ++ le32 0 ++ le16 14 ++ path

/-- Where `FindFirstNext2ResponseParam_t` would begin; a continued search has no
`SearchID` in front of the count. -/
def findCount (b : Nat → UInt8) (sid : Option Nat) : Nat :=
  paramOffset b + 4 + if sid.isNone then 2 else 0

/-- What a search returns of the reply; the name is read in `ReplyBounds`. -/
def searchInformation (b : Nat → UInt8) (sid : Option Nat) : SearchInformation :=
  let found := findCount b sid
  let data := transDataOffset b + 4
  { sid := if sid.isNone then word16 b (paramOffset b + 4) else sid.getD 0
    eos := word16 b (found + 2)
    basic := ⟨word64 b (data + 8), word64 b (data + 16), word64 b (data + 24), word64 b (data + 32),
      word32 b (data + 56)⟩
    allocationSize := word64 b (data + 48)
    endOfFile := word64 b (data + 40) }

/-- `path` is the empty string when a search is continued. -/
def smbFindFirstNext2 (specs : ServerSpecs) (uid tid : Nat) (path : List UInt8) (sid : Option Nat) :
    Fn SearchInformation := do
  let params := findParameters path sid
  request (smbPacket (smbHeader 0x32 0x10 specs.flags2 tid uid)
    ([15] ++ transaction params.length 68 0 ++ le16 (if sid.isNone then 1 else 2) ++
      le16 (3 + params.length) ++ [0, 0, 0] ++ params) 0)
  accessSwitch
  let c ← get
  Prog.when (word16 c.smbBuf (findCount c.smbBuf sid) = 0) (throw (.error .einval))
  return searchInformation c.smbBuf sid

/-- An echo has at most the 256 bytes of `smbEcho_in_t`. -/
def smbEcho (echo : List UInt8) : Fn Unit := do
  requestReturning (smbPacket (smbHeader 0x2b 0 0 0 0)
    ([1] ++ le16 1 ++ le16 echo.length ++ echo) 0) none
  sessionSwitch
  let c ← get
  Prog.when (∃ i < echo.length, c.smbBuf (41 + i) ≠ bytesAt echo i) (throw (.error .eio))

end BdmAssault.Smb
