import BdmAssault.Smb.Receiving

/-! # The reply to a request

`GetSMBServerReply` of `smb.c`: the request goes out of `SMB_buf`, keep-alive packets
are passed over, and the next session message is received into `SMB_buf`.
-/

namespace BdmAssault.Smb

open Lib

/-- `sizeof(SMB_buf.smb)` -/
def smbBufSize : Nat := 4224

/-- The request in `SMB_buf`, and behind it the payload of a write. `SendData` of no
bytes returns 0, and so does the caller then. -/
def sendMessage (packet : List UInt8) (payload : Option (List UInt8)) : Fn Unit := do
  sendRequest packet
  match payload with
  | none => return ()
  | some bytes =>
      modify fun c => { c with sent := c.sent ++ [bytes] }
      Prog.when (bytes = []) (throw (.ok 0))

/-- The loop over the session headers; every round takes four bytes. -/
def nextSession : Nat → Fn Unit
  | 0 => throw (.error .etimedout)
  | rounds + 1 => do
      let _ ← recvDataTo (.smbBuf 0) 4
      let c ← get
      if packetType c.smbBuf = 0 then return () else nextSession rounds

/-- The message behind the session header. No caller limits it to a header, so the
whole packet is received; one without a body gives 0. -/
def receiveMessage : Fn Nat := do
  let c ← get
  let size := sessionMessageLength c.smbBuf
  if smbBufSize < size then
    discardData size
    throw (.error .eproto)
  else recvDataTo (.smbBuf 4) size

def getSMBServerReply (packet : List UInt8) (payload : Option (List UInt8)) : Fn Nat := do
  sendMessage packet payload
  let c ← get
  nextSession (c.sock.bytes.length + 1)
  receiveMessage

/-! ## Session messages -/

/-- A session message on the stream: type 0, the 24-bit length, and the body. -/
def frame (body : List UInt8) : List UInt8 := sessionHeader body.length ++ body

theorem frame_length (body : List UInt8) : (frame body).length = body.length + 4 := by
  simp [frame, sessionHeader]

theorem frame_type (body : List UInt8) : packetType (bytesAt (frame body)) = 0 := by
  simp [frame, sessionHeader, packetType, bytesAt]

theorem frame_size {body : List UInt8} (h : body.length < 16777216) :
    sessionMessageLength (bytesAt (frame body)) = body.length := by
  simp [frame, sessionHeader, sessionMessageLength, bytesAt]
  omega

end BdmAssault.Smb
