import BdmAssault.Lib.Fallible
import BdmAssault.Smb.Status

/-! # The requests of the SMB client

The request functions of `smb.c` as programs that exchange packets with a server. A
reply is what the client looks at in the received packet. The server answers the
requests of a connection in order; the client takes the packet that is next in the
stream for the answer to its request.
-/

namespace BdmAssault.Smb.Driver

open Lib

/-! ## The globals of the driver -/

/-- A C string without its terminator. -/
abbrev Name := List UInt8

/-- `UID`, `TID`, the log-on and share data kept for a reconnect, `keepalive_locked`.
`openshare` is the share name of `gopenshare_info`; `anonymous` says that `glogon_info`
has neither a user nor a password. -/
structure Session where
  uid : Option Nat
  tid : Option Nat
  logonValid : Bool
  openshareValid : Bool
  openshare : Name
  anonymous : Bool
  keepaliveLocked : Bool
deriving DecidableEq, Repr

/-- The flags of an open: `O_RDONLY`, `O_WRONLY`, `O_APPEND`, `O_CREAT`, `O_TRUNC`,
`O_DIROPEN`, and any other. `O_RDWR` is the first two. -/
structure OpenMode where
  rdonly : Bool
  wronly : Bool
  append : Bool
  creat : Bool
  truncate : Bool
  diropen : Bool
  other : Bool
deriving DecidableEq, Repr

/-- `O_DIROPEN` and nothing else. -/
def dirOpen : OpenMode := ⟨false, false, false, false, false, true, false⟩

/-- `mode == O_DIROPEN` -/
def OpenMode.directory (mode : OpenMode) : Bool := mode = dirOpen

/-- `(mode & O_RDWR) || (mode & O_WRONLY)`, which a read-only file passes too. -/
def OpenMode.writable (mode : OpenMode) : Bool := mode.rdonly || mode.wronly

/-- `FHANDLE`; `used` is `f != NULL`. -/
structure Handle where
  used : Bool
  fid : Option Nat
  filesize : Nat
  position : Int
  mode : OpenMode
  name : Name
deriving DecidableEq, Repr

/-- `smb_read_ahead`; `data` is the part of its buffer that is in use. -/
structure ReadAhead where
  fh : Option Nat
  offset : Int
  data : List UInt8
  sequenceFh : Option Nat
  sequenceNext : Int
deriving DecidableEq, Repr

/-- `userLevel` is `server_specs.SecurityMode == SERVER_USER_SECURITY_LEVEL`, `ntSmbs` the
capability `SERVER_CAP_NT_SMBS`. -/
structure State where
  session : Session
  userLevel : Bool
  ntSmbs : Bool
  curdir : Name
  handles : List Handle
  readAhead : ReadAhead
deriving DecidableEq, Repr

/-! ## Packets -/

/-- `retry` is `retry_count`; the other arguments are fields of the packet.
`anonymous` marks a session setup that another one follows when it fails. -/
inductive Request where
  | negotiate (retry : Nat)
  | sessionSetup (anonymous lm : Bool)
  | treeConnect (uid : Option Nat) (share : Name) (lm : Bool)
  | treeDisconnect (uid tid : Option Nat)
  | logOff (uid : Option Nat)
  | netShareEnum (uid tid : Option Nat)
  | queryInformationDisk (uid tid : Option Nat)
  | queryPathInformation (uid tid : Option Nat) (path : Name) (standard : Bool)
  | ntCreate (uid tid : Option Nat) (path : Name) (mode : OpenMode)
  | openFile (uid tid : Option Nat) (path : Name) (mode : OpenMode)
  | read (uid tid fid : Option Nat) (offset : Int) (nbytes : Nat)
  | write (uid tid fid : Option Nat) (offset : Int) (data : List UInt8)
  | close (uid tid fid : Option Nat)
  | delete (uid tid : Option Nat) (path : Name)
  | manageDirectory (uid tid : Option Nat) (path : Name) (create : Bool)
  | rename (uid tid : Option Nat) (oldPath newPath : Name)
  | find (uid tid sid : Option Nat) (pattern : Name)
  | echo
deriving DecidableEq, Repr

structure Share where
  name : Name
  type : Nat
deriving DecidableEq, Repr

/-- What `smb_ReadAndX` makes of a packet: data, the end of the file, a packet it
rejects, a status of a lost session, or another error status. -/
inductive ReadResult where
  | data (bytes : List UInt8)
  | endOfFile
  | rejected
  | lost
  | failed
deriving DecidableEq, Repr

/-- The fields of a received packet, each as the function that looks at it reads it.
No function looks at `endOfSearch`, nor at `count`, which a reply to a write acknowledges. -/
structure Reply where
  size : Nat
  magic : Nat
  status : Nat
  wordcount : Nat
  userLevel : Bool
  ntSmbs : Bool
  uid : Nat
  tid : Nat
  fid : Nat
  directory : Bool
  endOfFile : Nat
  searchId : Nat
  searchCount : Nat
  endOfSearch : Bool
  apiStatus : Nat
  shares : List Share
  echoed : Bool
  read : ReadResult
  count : Nat
deriving DecidableEq, Repr

/-! ## The connection -/

/-- The place a request is made from: a file or device operation, the loops of
`smb_ReadFileWithReconnect` and `smb_WriteFileWithReconnect`, the keep-alive thread,
`smb_RestoreConnection`, or the log-off that `smb_LogOn` begins with. -/
inductive Caller where
  | operation | transfer | keepalive | restore | relogon
deriving DecidableEq, Repr

/-- One exchange; `answer` is the request whose reply was taken, if one came in time. -/
structure Entry where
  id : Nat
  caller : Caller
  request : Request
  answer : Option Nat
deriving DecidableEq, Repr

/-- `pending` are the requests of this connection whose replies were not taken yet. The
environment is what arrives: a reply or a time-out for every exchange, and the outcome
of every attempt to connect. -/
structure World where
  state : State
  connected : Bool
  nextId : Nat
  pending : List Nat
  log : List Entry
  replies : List (Option Reply)
  connects : List Bool
deriving DecidableEq, Repr

inductive Got where
  | reply (r : Reply)
  | timeout
  | reset
deriving DecidableEq, Repr

inductive Cmd where
  | exchange (caller : Caller) (request : Request)
  | connect
  | disconnect
  | get
  | modify (f : State → State)
  | halt

@[reducible] def Cmd.Res : Cmd → Type
  | .exchange _ _ => Got
  | .connect => Bool
  | .disconnect => Unit
  | .get => State
  | .modify _ => Unit
  | .halt => Empty

/-- A time-out takes nothing off the connection, so the late reply is the first one the
next exchange finds. Without a connection the request cannot be sent. -/
def World.exchange (w : World) (caller : Caller) (request : Request) : Option (Got × World) :=
  if w.connected then
    match w.replies with
    | [] => none
    | none :: rest =>
        some (.timeout, { w with
          nextId := w.nextId + 1
          pending := w.pending ++ [w.nextId]
          log := w.log ++ [⟨w.nextId, caller, request, none⟩]
          replies := rest })
    | some r :: rest =>
        let queue := w.pending ++ [w.nextId]
        some (.reply r, { w with
          nextId := w.nextId + 1
          pending := queue.tail
          log := w.log ++ [⟨w.nextId, caller, request, queue.head?⟩]
          replies := rest })
  else some (.reset, w)

/-- `OpenTCPSession` -/
def World.connect (w : World) : Option (Bool × World) :=
  match w.connects with
  | [] => none
  | up :: rest => some (up, { w with connected := up, pending := [], connects := rest })

def handle : Handler Cmd Cmd.Res World
  | .exchange caller request, w => w.exchange caller request
  | .connect, w => w.connect
  | .disconnect, w => some ((), { w with connected := false, pending := [] })
  | .get, w => some (w.state, w)
  | .modify f, w => some ((), { w with state := f w.state })
  | .halt, _ => none

/-- A function of the client; an error is a negative result. -/
abbrev Call (α : Type) := Fallible Cmd Cmd.Res Errno α

abbrev Call.command (c : Cmd) : Call c.Res := Fallible.command c

def getState : Call State := Call.command .get

def modifyState (f : State → State) : Call Unit := Call.command (.modify f)

def disconnect : Call Unit := Call.command .disconnect

/-- `smb_Connect`, which closes a connection that is open first. -/
def smbConnect : Call Unit := do
  disconnect
  let up ← Call.command .connect
  if up then return () else throw .eperm

/-! ## Exchanges -/

/-- `sizeof(SMB_buf.smb)` -/
def replyMax : Nat := 4224

/-- `GetSMBServerReply`; no packet is a result of 0. -/
def getSMBServerReply (caller : Caller) (request : Request) : Call (Option Reply) := do
  match ← Call.command (.exchange caller request) with
  | .timeout => throw .etimedout
  | .reset => throw .econnreset
  | .reply r =>
      if r.size = 0 then return none
      else if replyMax < r.size then throw .eproto
      else return some r

/-- A result `r <= 0` and a packet without the magic number are an `-EIO`. -/
def requestReply (caller : Caller) (request : Request) : Call Reply := do
  match ← (getSMBServerReply caller request).result with
  | .ok (some r) => if r.magic = smbMagicNumber then return r else throw .eio
  | _ => throw .eio

/-- The status switch of most requests. -/
def checkStatus (r : Reply) : Call Unit :=
  if r.status = statusSuccess then return ()
  else if r.status = statusAccessDenied then throw .eacces
  else throw .eio

/-- The status test of the requests that do not tell a denied access apart. -/
def checkSuccess (r : Reply) : Call Unit :=
  if r.status = statusSuccess then return () else throw .eio

/-- The status switch of the requests that report a lost session. -/
def checkSession (r : Reply) : Call Unit :=
  if r.status = statusSuccess then return ()
  else if sessionLost r.status then throw .enotconn
  else throw .eio

/-! ## Logging on -/

/-- The attempts of `smb_NegotiateProtocol` that are left. Only `Eclass` is compared
with the success status. -/
def negotiateRetry (caller : Caller) : Nat → Call Unit
  | 0 => throw .eperm
  | left + 1 => do
      match ← (requestReply caller (.negotiate (2 - left))).result with
      | .ok r =>
          if r.status % 65536 = statusSuccess ∧ r.wordcount = 17 then
            modifyState fun s => { s with userLevel := r.userLevel, ntSmbs := r.ntSmbs }
          else negotiateRetry caller left
      | .error _ => negotiateRetry caller left

def smbNegotiateProtocol (caller : Caller) : Call Unit := negotiateRetry caller 3

/-- A log-on failure on a server with user level security is tried once more, with
LM authentication. -/
def authenticate (send : Bool → Call Reply) : Call Reply := do
  let r ← send false
  if r.status = statusSuccess then return r
  else if r.status = statusLogonFailure then
    let s ← getState
    if s.userLevel then
      let r ← send true
      if r.status = statusSuccess then return r
      else if r.status = statusLogonFailure then throw .eacces
      else throw .eio
    else throw .eacces
  else throw .eio

def smbSessionSetupAndX (caller : Caller) (anonymous : Bool) : Call Nat := do
  let r ← authenticate fun lm => requestReply caller (.sessionSetup anonymous lm)
  return r.uid

def smbTreeConnectAndX (caller : Caller) (uid : Option Nat) (share : Name) : Call Nat := do
  let r ← authenticate fun lm => requestReply caller (.treeConnect uid share lm)
  return r.tid

def smbTreeDisconnect (caller : Caller) (uid tid : Option Nat) : Call Unit := do
  let r ← requestReply caller (.treeDisconnect uid tid)
  checkSuccess r

def smbLogOffAndX (caller : Caller) (uid : Option Nat) : Call Unit := do
  let r ← requestReply caller (.logOff uid)
  checkSuccess r

/-! ## Files and directories -/

structure PathInformation where
  directory : Bool
  endOfFile : Nat

/-- A second query with `SMB_QUERY_FILE_STANDARD_INFO` gets the 64-bit size. -/
def smbQueryPathInformation (caller : Caller) (uid tid : Option Nat) (path : Name) :
    Call PathInformation := do
  let basic ← requestReply caller (.queryPathInformation uid tid path false)
  checkStatus basic
  let standard ← requestReply caller (.queryPathInformation uid tid path true)
  checkStatus standard
  return ⟨basic.directory, standard.endOfFile⟩

/-- The file identifier and the size. -/
def smbNTCreateAndX (caller : Caller) (uid tid : Option Nat) (path : Name) (mode : OpenMode) :
    Call (Nat × Nat) := do
  let r ← requestReply caller (.ntCreate uid tid path mode)
  checkStatus r
  return (r.fid, r.endOfFile)

/-- A server without the NT commands gives the size in a second request. -/
def smbOpenAndX (caller : Caller) (uid tid : Option Nat) (path : Name) (mode : OpenMode) :
    Call (Nat × Nat) := do
  let s ← getState
  if s.ntSmbs then smbNTCreateAndX caller uid tid path mode
  else
    let r ← requestReply caller (.openFile uid tid path mode)
    checkStatus r
    match ← (smbQueryPathInformation caller uid tid path).result with
    | .ok info => return (r.fid, info.endOfFile)
    | .error _ => throw .eperm

def smbReadAndX (uid tid fid : Option Nat) (offset : Int) (nbytes : Nat) : Call (List UInt8) := do
  match ← Call.command (.exchange .transfer (.read uid tid fid offset nbytes)) with
  | .timeout => throw .etimedout
  | .reset => throw .econnreset
  | .reply r =>
      match r.read with
      | .data bytes => if bytes.length ≤ nbytes then return bytes else throw .eproto
      | .endOfFile => return []
      | .rejected => throw .eproto
      | .lost => throw .enotconn
      | .failed => throw .eio

/-- What the server acknowledges in the reply is not looked at. -/
def smbWriteAndX (uid tid fid : Option Nat) (offset : Int) (data : List UInt8) : Call Nat := do
  match ← getSMBServerReply .transfer (.write uid tid fid offset data) with
  | none => return 0
  | some r =>
      if r.magic = smbMagicNumber then
        checkSession r
        return data.length
      else throw .eio

/-- The loop of `smb_ReadFile`; a request that moves nothing ends it. Every round moves
at least one byte. -/
def readLoop (uid tid fid : Option Nat) : Nat → Int → Nat → List UInt8 → Call (List UInt8)
  | 0, _, _, done => return done
  | rounds + 1, pos, remaining, done => do
      if remaining = 0 then return done
      else
        let bytes ← smbReadAndX uid tid fid pos (min remaining 8192)
        if bytes = [] then return []
        else readLoop uid tid fid rounds (pos + bytes.length) (remaining - bytes.length) (done ++ bytes)

def smbReadFile (uid tid fid : Option Nat) (offset : Int) (nbytes : Nat) : Call (List UInt8) :=
  readLoop uid tid fid nbytes offset nbytes []

/-- The loop of `smb_WriteFile` over the data that is left of `nbytes` bytes. -/
def writeLoop (uid tid fid : Option Nat) (nbytes : Nat) : Nat → Int → List UInt8 → Call Nat
  | 0, _, _ => return nbytes
  | rounds + 1, pos, data => do
      if data = [] then return nbytes
      else
        let moved ← smbWriteAndX uid tid fid pos (data.take 65535)
        if moved = 0 then return 0
        else writeLoop uid tid fid nbytes rounds (pos + moved) (data.drop moved)

def smbWriteFile (uid tid fid : Option Nat) (offset : Int) (data : List UInt8) : Call Nat :=
  writeLoop uid tid fid data.length data.length offset data

/-- `r <= 0` is returned as it is, so an empty packet is a success. -/
def smbClose (uid tid fid : Option Nat) : Call Unit := do
  match ← getSMBServerReply .operation (.close uid tid fid) with
  | none => return ()
  | some r => if r.magic = smbMagicNumber then checkSuccess r else throw .eio

def smbDelete (uid tid : Option Nat) (path : Name) : Call Unit := do
  let r ← requestReply .operation (.delete uid tid path)
  checkSuccess r

def smbManageDirectory (uid tid : Option Nat) (path : Name) (create : Bool) : Call Unit := do
  let r ← requestReply .operation (.manageDirectory uid tid path create)
  checkStatus r

def smbRename (uid tid : Option Nat) (oldPath newPath : Name) : Call Unit := do
  let r ← requestReply .operation (.rename uid tid oldPath newPath)
  checkStatus r

/-- The search identifier; `sid` is that of the search to continue. `EOS` is only handed on. -/
def smbFindFirstNext2 (uid tid sid : Option Nat) (pattern : Name) : Call Nat := do
  let r ← requestReply .operation (.find uid tid sid pattern)
  checkStatus r
  if r.searchCount = 0 then throw .einval else return r.searchId

def smbQueryInformationDisk (uid tid : Option Nat) : Call Unit := do
  let r ← requestReply .operation (.queryInformationDisk uid tid)
  checkStatus r

/-- The disk shares `smb_NetShareEnum` counts and copies: all without `maxEntries`, else
the first ones from entry `index` on. -/
def selectShares (shares : List Share) (index maxEntries : Nat) : List Share :=
  if maxEntries = 0 then shares.filter (·.type = 0)
  else ((shares.drop index).filter (·.type = 0)).take maxEntries

def smbNetShareEnum (uid tid : Option Nat) (index maxEntries : Nat) : Call (List Share) := do
  let r ← requestReply .operation (.netShareEnum uid tid)
  checkStatus r
  if r.apiStatus = 0 then return selectShares r.shares index maxEntries else throw .eio

def smbEcho (caller : Caller) : Call Unit := do
  match ← getSMBServerReply caller .echo with
  | none => return ()
  | some r =>
      if r.magic = smbMagicNumber then
        checkSession r
        if r.echoed then return () else throw .eio
      else throw .eio

end BdmAssault.Smb.Driver
