import Mathlib.Init

/-! # Results and status codes of the SMB client -/

namespace BdmAssault.Smb

/-- The error numbers of the client; `eperm` is a plain `-1`, the last three are the
log-on errors of the device control interface. -/
inductive Errno where
  | eperm | eio | ebadf | eacces | enotdir | einval | emfile | epipe | eproto
  | econnreset | econnaborted | enotconn | enetreset | enetunreach | enetdown
  | ehostunreach | etimedout
  | logonErrConn | logonErrProt | logonErrLogon
deriving DecidableEq, Repr

/-- What a C function returns: a count, or a negative error number. -/
abbrev Ret := Except Errno Nat

/-- `smb_IsTransportError` -/
def Errno.isTransportError : Errno → Bool
  | .epipe | .econnreset | .econnaborted | .enotconn | .enetreset | .enetunreach | .enetdown
  | .ehostunreach | .etimedout => true
  | _ => false

def smbMagicNumber : Nat := 0x424d53ff

def statusSuccess : Nat := 0

def statusEndOfFile : Nat := 0xc0000011

def statusAccessDenied : Nat := 0xc0000022

def statusLogonFailure : Nat := 0xc000006d

/-- The statuses after which the session has to be set up again. -/
def sessionLost (status : Nat) : Bool :=
  status ∈ [0xc0000008, 0xc00000c9, 0xc0000203, 0xc000020c, 0xc000020d, 0xc000035c]

end BdmAssault.Smb
