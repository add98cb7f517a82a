import BdmAssault.Lib.Program
import BdmAssault.Smb.Socket
import BdmAssault.Smb.Status

/-! # The SMB read request

`smb_ReadAndX` of `smb.c` with the receive helpers it uses, on a connection that
stays up: a receive fails only by a time-out, when the stream is at its end.
-/

namespace BdmAssault.Smb

open Lib

/-- `main_socket`, `SMB_buf` and the buffer of the caller. `sent` is what went out. -/
structure Client where
  sock : Sock
  smbBuf : Nat → UInt8
  readbuf : Nat → UInt8
  sent : List (List UInt8)

/-- Where received bytes are written. -/
inductive Dest where
  | smbBuf (offset : Nat)
  | readbuf (offset : Nat)
  | discard

def store (m : Nat → UInt8) (offset : Nat) (bytes : List UInt8) : Nat → UInt8 :=
  fun i => if offset ≤ i ∧ i < offset + bytes.length then bytesAt bytes (i - offset) else m i

def Client.put (c : Client) (dest : Dest) (bytes : List UInt8) : Client :=
  match dest with
  | .smbBuf offset => { c with smbBuf := store c.smbBuf offset bytes }
  | .readbuf offset => { c with readbuf := store c.readbuf offset bytes }
  | .discard => c

abbrev Fn (α : Type) := Prog Client Ret α

/-! ## Receiving -/

/-- `RecvData`. What arrived before a time-out is written as well. -/
def recvDataTo (dest : Dest) (size : Nat) : Fn Nat := do
  let c ← get
  let r := recvData size size c.sock
  set { c.put dest r.1 with sock := r.2 }
  Prog.when (r.1.length < size) (throw (.error .etimedout))
  return size

/-- The loop of `DiscardData`; every round takes at least one byte off `size`. -/
def discardLoop : Nat → Nat → Fn Unit
  | 0, _ => return ()
  | rounds + 1, size =>
      Prog.when (0 < size) do
        let r ← recvDataTo .discard (min size 64)
        discardLoop rounds (size - r)

def discardData (size : Nat) : Fn Unit := discardLoop size size

/-- Skip to byte `upto` of a packet of which `received` bytes were taken. -/
def discardRest (received upto : Nat) : Fn Unit :=
  Prog.when (received < upto) (discardData (upto - received))

def rejectSMBPacket (received packetSize : Nat) : Fn Unit := do
  discardRest received packetSize
  throw (.error .eproto)

/-- `RecvSplitTimeout` of the header into `SMB_buf` and the payload into `readbuf`. -/
def recvSplitTimeout (index plen : Nat) : Fn Nat := do
  let c ← get
  match lwipRecvsplit c.sock index plen with
  | none => throw (.error .etimedout)
  | some (r, sock) =>
      set { (c.put (.smbBuf 0) r.header).put (.readbuf 0) r.payload with sock := sock }
      return r.consumed

/-- If fewer than `limit` bytes of the packet are in `SMB_buf`, receive it up to
`upto` bytes. A result `r <= 0` of `RecvData` is returned to the caller. -/
def recvUpTo (received limit upto : Nat) : Fn Nat :=
  if received < limit then do
    let r ← recvDataTo (.smbBuf received) (upto - received)
    Prog.when (r = 0) (throw (.ok 0))
    return received + r
  else return received

/-! ## The fields of a packet -/

def packetType (b : Nat → UInt8) : Nat := (b 0).toNat

/-- `nb_GetSessionMessageLength`. -/
def sessionMessageLength (b : Nat → UInt8) : Nat :=
  (b 1).toNat * 65536 + (b 2).toNat * 256 + (b 3).toNat

def word32 (b : Nat → UInt8) (i : Nat) : Nat := word16 b i + 65536 * word16 b (i + 2)

def smbMagic (b : Nat → UInt8) : Nat := word32 b 4

/-- `Eclass | (Ecode << 16)`. -/
def smbStatus (b : Nat → UInt8) : Nat := word16 b 9 + 65536 * word16 b 11

def dataOffset (b : Nat → UInt8) : Nat := word16 b 49

/-- `DataLengthHigh` has 32 bits, of which the shift keeps the lower half. -/
def dataLength (b : Nat → UInt8) : Nat := word16 b 47 + 65536 * word16 b 51

/-! ## The request -/

def le16 (n : Nat) : List UInt8 := [UInt8.ofNat n, UInt8.ofNat (n / 256)]

def le32 (n : Nat) : List UInt8 := le16 n ++ le16 (n / 65536)

/-- `nb_SetSessionMessage`. -/
def sessionHeader (size : Nat) : List UInt8 :=
  [0, UInt8.ofNat (size / 65536), UInt8.ofNat (size / 256), UInt8.ofNat size]

def readAndXRequest (uid tid fid fileoffset nbytes : Nat) : List UInt8 :=
  sessionHeader 59 ++ le32 smbMagicNumber ++ [0x2e] ++ le16 0 ++ le16 0 ++ [0] ++ le16 0x4000 ++
    List.replicate 12 0 ++ le16 tid ++ le16 0 ++ le16 uid ++ le16 0 ++
    [12, 0xff, 0] ++ le16 0 ++ le16 fid ++ le32 fileoffset ++ le16 nbytes ++ le16 0 ++
    le16 (nbytes / 65536) ++ le16 0 ++ le16 0 ++ le32 (fileoffset / 4294967296) ++ le16 0

def sendRequest (packet : List UInt8) : Fn Unit :=
  modify fun c => { c.put (.smbBuf 0) packet with sent := c.sent ++ [packet] }

/-! ## The response -/

/-- The loop that passes over keep-alive packets; the result is `rcv_size`. Every
round takes at least one byte off the stream. -/
def nextPacket (nbytes : Nat) : Nat → Fn Nat
  | 0 => throw (.error .etimedout)
  | rounds + 1 => do
      let received ← recvSplitTimeout 49 nbytes
      let received ← recvUpTo received 4 4
      let c ← get
      let packetSize := sessionMessageLength c.smbBuf + 4
      Prog.when (packetSize < received) (throw (.error .eproto))
      if packetType c.smbBuf = 0 then return received
      else
        discardData (packetSize - received)
        nextPacket nbytes rounds

def checkStatus (status received packetSize : Nat) : Fn Unit :=
  if status = statusSuccess then return ()
  else if status = statusEndOfFile then do
    discardRest received packetSize
    throw (.ok 0)
  else if sessionLost status then throw (.error .enotconn)
  else do
    discardRest received packetSize
    throw (.error .eio)

/-- From the session header to the whole `ReadAndXResponse_t`. -/
def receiveHeader (received packetSize : Nat) : Fn Nat := do
  let received ← recvUpTo received 36 (min 36 packetSize)
  let c ← get
  Prog.when (packetSize - 4 < 32 ∨ smbMagic c.smbBuf ≠ smbMagicNumber)
    (rejectSMBPacket received packetSize)
  checkStatus (smbStatus c.smbBuf) received packetSize
  Prog.when (packetSize - 4 < 59) (rejectSMBPacket received packetSize)
  recvUpTo received 63 63

/-- The data, up to the end of the packet. -/
def receiveData (dataStart dataLength received packetSize : Nat) : Fn Nat := do
  discardRest received dataStart
  let received := max received dataStart
  let payloadReceived := received - dataStart
  Prog.when (dataLength < payloadReceived) (rejectSMBPacket received packetSize)
  Prog.when (payloadReceived < dataLength) do
    let _ ← recvDataTo (.readbuf payloadReceived) (dataLength - payloadReceived)
  -- On both ways `rcv_size` is now the end of the data.
  discardRest (dataStart + dataLength) packetSize
  return dataLength

/-- The checks of the data fields, then the data. A `DataLength` from `2^31` on is a
negative `int`. -/
def receivePayload (nbytes received packetSize : Nat) : Fn Nat := do
  let c ← get
  let dataOffset := dataOffset c.smbBuf
  let dataLength := dataLength c.smbBuf
  let bodySize := packetSize - 4
  Prog.when (dataOffset < 59 ∨ bodySize < dataOffset ∨ 2147483648 ≤ dataLength ∨
      nbytes < dataLength ∨ bodySize - dataOffset < dataLength)
    (rejectSMBPacket received packetSize)
  receiveData (dataOffset + 4) dataLength received packetSize

def smbReadAndX (uid tid fid fileoffset nbytes : Nat) : Fn Nat := do
  sendRequest (readAndXRequest uid tid fid fileoffset nbytes)
  let c ← get
  let received ← nextPacket nbytes (c.sock.bytes.length + 1)
  let c ← get
  let packetSize := sessionMessageLength c.smbBuf + 4
  let received ← receiveHeader received packetSize
  receivePayload nbytes received packetSize

/-- The call of the function on a socket that has received the buffers `cut`. -/
def readFrom (uid tid fid fileoffset nbytes : Nat) (c : Client) (cut : List Pbuf) : Ret × Client :=
  (smbReadAndX uid tid fid fileoffset nbytes).outcome .ok { c with sock := Sock.received cut }

/-- A client before its first request. -/
def idleClient : Client := ⟨Sock.received [], fun _ => 0, fun _ => 0, []⟩

end BdmAssault.Smb
